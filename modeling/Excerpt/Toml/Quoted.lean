import Excerpt.Toml.Basic

/-!
# Quoted texts in TOML

A quoted text stands between single or double quotes, on one line, or between three of them, over
several lines. Only double quotes know escapes. A newline right behind three opening quotes is
dropped, and up to two quotes may stand right before three closing ones.
-/

namespace Excerpt

namespace Toml

/-! ### Characters -/

/-- Whether a character may stand in a comment or, as itself, in a quoted text: a tab, or anything
that is no control character. -/
def isPlain (c : Char) : Bool := c == '\t' || (0x20 ≤ c.toNat && c.toNat ≠ 0x7F)

/-- Whether a character is blank space within a line. -/
def isSpace (c : Char) : Bool := c == ' ' || c == '\t'

/-- Whether a text starts with a newline. -/
def atNewline : Text → Bool
  | '\n' :: _ => true
  | '\r' :: '\n' :: _ => true
  | _ => false

/-- The text behind a newline at its start, or the text itself. -/
def dropNewline : Text → Text
  | '\n' :: rest => rest
  | '\r' :: '\n' :: rest => rest
  | t => t

/-! ### Escapes -/

/-- The value of a digit in some base up to sixteen. -/
def digitValue? (base : Nat) (c : Char) : Option Nat :=
  let v := if c.isDigit then c.toNat - '0'.toNat
    else if 'a' ≤ c ∧ c ≤ 'f' then c.toNat - 'a'.toNat + 10
    else if 'A' ≤ c ∧ c ≤ 'F' then c.toNat - 'A'.toNat + 10
    else base
  if v < base then some v else none

/-- The number that a list of digits stands for. -/
def numberOf? (base : Nat) (digits : Text) : Option Nat :=
  digits.foldlM (fun n c => (digitValue? base c).map (n * base + ·)) 0

/-- The character whose number has exactly `width` hexadecimal digits at the start of a text. -/
def codePoint? (width : Nat) (t : Text) : Option Char :=
  if (t.take width).length = width then
    (numberOf? 16 (t.take width)).bind fun n =>
      if n.isValidChar then some (Char.ofNat n) else none
  else none

/-- The character of the escape behind a backslash, and the number of characters it takes up. -/
def escape? : Text → Option (Char × Nat)
  | [] => none
  | c :: rest =>
    if c = 'b' then some ('\x08', 1)
    else if c = 't' then some ('\t', 1)
    else if c = 'n' then some ('\n', 1)
    else if c = 'f' then some ('\x0C', 1)
    else if c = 'r' then some ('\r', 1)
    else if c = '\x22' ∨ c = '\\' then some (c, 1)
    else if c = 'u' then (codePoint? 4 rest).map (·, 5)
    else if c = 'U' then (codePoint? 8 rest).map (·, 9)
    else none

/-- The number of characters in the blanks and newlines at the start of a text. -/
def gapWidth : Text → Nat
  | [] => 0
  | c :: rest =>
    if isSpace c || c == '\n' || (c == '\r' && rest.head? == some '\n') then gapWidth rest + 1
    else 0

/-- The width of a line end behind a backslash, together with all blanks and newlines around it:
they are not part of the text. -/
def lineJoin? (t : Text) : Option Nat :=
  if atNewline (t.dropWhile isSpace) then some (gapWidth t) else none

/-! ### Bodies -/

/-- A way of quoting: the quote, whether there are escapes, and whether three quotes allow several
lines. -/
structure Quoting where
  quote : Char
  escapes : Bool
  long : Bool
  deriving DecidableEq, Repr

namespace Quoting

/-- The quotes at one end of a text. -/
def fence (q : Quoting) : Text := List.replicate (if q.long then 3 else 1) q.quote

/-- The end of a body at the start of a text: the quotes that still belong to the body, and the
text behind the closing ones. -/
def ending? (q : Quoting) (t : Text) : Option (Text × Text) :=
  if q.fence.isPrefixOf t then
    let run := if q.long then min 5 (t.takeWhile (· == q.quote)).length else 1
    some (List.replicate (run - q.fence.length) q.quote, t.drop run)
  else none

/-- The character at the start of a text as part of a body, and how many more characters it takes
up; no character if it is a joined line end. -/
def piece? (q : Quoting) (c : Char) (rest : Text) : Option (Option Char × Nat) :=
  if q.escapes ∧ c = '\\' then
    match escape? rest with
    | some (x, width) => some (some x, width)
    | none => if q.long then (lineJoin? rest).map (none, ·) else none
  else if isPlain c || (q.long && atNewline (c :: rest)) then some (some c, 0)
  else none

/-- Reads a body up to its closing quotes; `skip` characters belong to a piece that is read
already. -/
def body (q : Quoting) : (skip : Nat) → Text → Option (Text × Text)
  | _, [] => none
  | k + 1, _ :: rest => q.body k rest
  | 0, c :: rest =>
    match q.ending? (c :: rest) with
    | some found => some found
    | none => (q.piece? c rest).bind fun (x, width) =>
      (q.body width rest).map fun (content, after) => (x.toList ++ content, after)

end Quoting

/-- Reads a quoted text of one line. -/
def shortQuoted? : Text → Option (Text × Text)
  | [] => none
  | c :: rest =>
    if c = '\x22' then Quoting.body ⟨c, true, false⟩ 0 rest
    else if c = '\x27' then Quoting.body ⟨c, false, false⟩ 0 rest
    else none

/-- Reads a quoted text. -/
def quoted? (t : Text) : Option (Text × Text) :=
  let basic : Quoting := ⟨'\x22', true, true⟩
  let literal : Quoting := ⟨'\x27', false, true⟩
  if basic.fence.isPrefixOf t then basic.body 0 (dropNewline (t.drop 3))
  else if literal.fence.isPrefixOf t then literal.body 0 (dropNewline (t.drop 3))
  else shortQuoted? t

end Toml

end Excerpt
