import Excerpt.Pattern.Basic
import Excerpt.Pattern.CaseFold

/-!
# Reading escapes and bracketed classes

The parts of the pattern language that stand for one character: escapes, hexadecimal codes, named
classes, and classes in brackets with ranges, nesting, and the operations `&&`, `--` and `~~`,
which all bind equally and to the left.

In spaced patterns blanks and comments from `#` to the end of the line are skipped between tokens.
A class that ignores case is closed under case variants before it is negated.
-/

namespace Excerpt

namespace Pattern

/-- The switches that may be set inside a pattern. -/
structure Flags where
  ignoreCase : Bool
  multiLine : Bool
  dotAll : Bool
  swapGreed : Bool
  unicode : Bool
  crlf : Bool
  spaced : Bool
  deriving DecidableEq, Repr

/-- The switches that are set when a pattern starts. -/
def Flags.initial (multiLine : Bool) : Flags :=
  ⟨false, multiLine, false, false, true, false, false⟩

/-! ### Skipping blanks -/

/-- Drops blanks and comments. -/
def dropSpace : Text → Text
  | [] => []
  | c :: rest =>
    if Text.isBlank c then dropSpace rest
    else if c = '#' then dropComment rest
    else c :: rest
where
  /-- Drops a comment with its line break, and what may be skipped after it. -/
  dropComment : Text → Text
    | [] => []
    | c :: rest => if c = '\n' then dropSpace rest else dropComment rest

/-- Drops blanks and comments where the pattern is spaced. -/
def skip (flags : Flags) (t : Text) : Text := if flags.spaced then dropSpace t else t

/-! ### Single characters -/

/-- What an escape or a plain character stands for. -/
inductive Atom where
  | char (c : Char)
  | byte (n : Nat)
  | set (s : CharSet) (negated : Bool)
  | look (l : Look)
  deriving DecidableEq, Repr

/-- The characters with a meaning of their own. -/
def metaChars : Text := "\\.+*?()|[]\x7b\x7d^$#&-~".toList

/-- Whether a backslash in front of a character gives just the character. -/
def isEscapable (c : Char) : Bool :=
  metaChars.contains c ||
    (c.toNat < 0x80 && !c.isAlphanum && !(c == '<' || c == '>'))

/-- The value of a hexadecimal digit. -/
def hexDigit? (c : Char) : Option Nat :=
  if '0' ≤ c ∧ c ≤ '9' then some (c.toNat - 48)
  else if 'a' ≤ c ∧ c ≤ 'f' then some (c.toNat - 87)
  else if 'A' ≤ c ∧ c ≤ 'F' then some (c.toNat - 55)
  else none

/-- The character with a code, if there is one. -/
def charOfCode? (n : Nat) : Option Char := if n.isValidChar then some (Char.ofNat n) else none

/-- Reads exactly `count` hexadecimal digits. -/
def hexDigits (flags : Flags) : (count value : Nat) → Text → Option (Nat × Text)
  | 0, value, t => some (value, t)
  | count + 1, value, t =>
    match t with
    | [] => none
    | c :: rest => do
      let d ← hexDigit? c
      hexDigits flags count (value * 16 + d) (skip flags rest)

/-- Reads hexadecimal digits up to a closing brace; `fuel` bounds their number. -/
def hexBrace (flags : Flags) : (fuel count value : Nat) → Text → Option (Nat × Text)
  | 0, _, _, _ => none
  | fuel + 1, count, value, t =>
    match t with
    | [] => none
    | c :: rest =>
      if c = '\x7d' then if count = 0 then none else some (value, skip flags rest)
      else do
        let d ← hexDigit? c
        hexBrace flags fuel (count + 1) (value * 16 + d) (skip flags rest)

/-- Reads a hexadecimal code of a fixed number of digits or in braces. -/
def hexCode (flags : Flags) (digits : Nat) (t : Text) : Option (Atom × Text) := do
  match skip flags t with
  | [] => none
  | '\x7b' :: rest =>
    let (n, rest) ← hexBrace flags (rest.length + 1) 0 0 (skip flags rest)
    return (.char (← charOfCode? n), rest)
  | t =>
    let (n, rest) ← hexDigits flags digits 0 t
    if digits = 2 then return (.byte n, rest)
    return (.char (← charOfCode? n), rest)

/-! ### Named classes -/

/-- The set that a name after `\p` stands for. -/
def propertySet? (name : Text) : Option CharSet :=
  let value? (t : Text) : Option CharSet :=
    let wanted := CharSet.looseName t
    let wanted := (Text.afterStart? "is".toList wanted).getD wanted
    if wanted == "any".toList then some CharSet.full
    else if wanted == "ascii".toList then some (CharSet.range 0 0x7F)
    else if wanted == "whitespace".toList then some CharSet.blanks
    else if wanted == "assigned".toList then some (CharSet.ofCategories ['C']).complement
    else CharSet.ofCategoryName? wanted
  match Text.cutFirst? (fun c => c == ':' || c == '=') name with
  | none => value? name
  | some (key, value) =>
    let key := CharSet.looseName key
    if key == "gc".toList || key == "generalcategory".toList then value? value else none

/-- Reads the name of a property, one letter or in braces; `negated` when it is written `\P`. -/
def propertyClass (flags : Flags) (negated : Bool) (t : Text) : Option (Atom × Text) := do
  match skip flags t with
  | [] => none
  | '\x7b' :: rest =>
    let inside := rest.takeWhile (· ≠ '\x7d')
    match rest.dropWhile (· ≠ '\x7d') with
    | [] => none
    | _ :: after =>
      let name := if flags.spaced then inside.filter (!Text.isBlank ·) else inside
      match Text.cutAt? "!=".toList name with
      | some (key, value) =>
        return (.set (← propertySet? (key ++ '=' :: value)) (!negated), after)
      | none => return (.set (← propertySet? name) negated, after)
  | c :: rest =>
    if c = '\\' then none
    else return (.set (← propertySet? [c]) negated, skip flags rest)

/-- The class of digits, blanks or word characters. -/
def perlSet (flags : Flags) (c : Char) : CharSet :=
  if c = 'd' ∨ c = 'D' then
    if flags.unicode then CharSet.digits else CharSet.range 0x30 0x39
  else if c = 's' ∨ c = 'S' then
    if flags.unicode then CharSet.blanks else ⟨[(0x9, 0xD), (0x20, 0x20)]⟩
  else if flags.unicode then CharSet.wordChars else asciiWordChars

/-- The ASCII classes that brackets may name. -/
def asciiClasses : List (String × List (Nat × Nat)) :=
  [("alnum", [(0x30, 0x39), (0x41, 0x5A), (0x61, 0x7A)]),
   ("alpha", [(0x41, 0x5A), (0x61, 0x7A)]), ("ascii", [(0x0, 0x7F)]),
   ("blank", [(0x9, 0x9), (0x20, 0x20)]), ("cntrl", [(0x0, 0x1F), (0x7F, 0x7F)]),
   ("digit", [(0x30, 0x39)]), ("graph", [(0x21, 0x7E)]), ("lower", [(0x61, 0x7A)]),
   ("print", [(0x20, 0x7E)]),
   ("punct", [(0x21, 0x2F), (0x3A, 0x40), (0x5B, 0x60), (0x7B, 0x7E)]),
   ("space", [(0x9, 0xD), (0x20, 0x20)]), ("upper", [(0x41, 0x5A)]),
   ("word", [(0x30, 0x39), (0x41, 0x5A), (0x5F, 0x5F), (0x61, 0x7A)]),
   ("xdigit", [(0x30, 0x39), (0x41, 0x46), (0x61, 0x66)])]

/-- Reads `[:name:]` after its opening bracket. -/
def asciiClass? (t : Text) : Option (CharSet × Bool × Text) := do
  let t ← Text.afterStart? [':'] t
  let (negated, t) := match t with
    | '^' :: rest => (true, rest)
    | t => (false, t)
  let name := t.takeWhile (· ≠ ':')
  let rest ← Text.afterStart? ":]".toList (t.dropWhile (· ≠ ':'))
  let entry ← asciiClasses.find? (·.1.toList == name)
  return (⟨entry.2⟩, negated, rest)

/-! ### Escapes -/

/-- Reads the name of a word edge in braces. A brace that starts nothing of the kind is left. -/
def wordEdge? (flags : Flags) (t : Text) : Option (Option WordEdge × Text) :=
  match t with
  | '\x7b' :: rest =>
    let isNameChar (c : Char) := c.isAlpha || c == '-'
    match skip flags rest with
    | [] => none
    | c :: more =>
      if !isNameChar c then some (none, t)
      else
        let body := c :: more
        let isPart (c : Char) := isNameChar c || (flags.spaced && Text.isBlank c)
        let name := (body.takeWhile isPart).filter isNameChar
        match body.dropWhile isPart with
        | '\x7d' :: after =>
          if name == "start".toList then some (some .start, after)
          else if name == "end".toList then some (some .stop, after)
          else if name == "start-half".toList then some (some .startHalf, after)
          else if name == "end-half".toList then some (some .stopHalf, after)
          else none
        | _ => none
  | t => some (none, t)

/-- The characters that a letter after a backslash stands for. -/
def controlEscape? : Char → Option Char
  | 'a' => some '\x07'
  | 'f' => some '\x0C'
  | 't' => some '\t'
  | 'n' => some '\n'
  | 'r' => some '\r'
  | 'v' => some '\x0B'
  | _ => none

/-- Reads what follows a backslash. -/
def escape (flags : Flags) : Text → Option (Atom × Text)
  | [] => none
  | c :: rest =>
    let ascii := !flags.unicode
    if c = 'x' then hexCode flags 2 rest
    else if c = 'u' then hexCode flags 4 rest
    else if c = 'U' then hexCode flags 8 rest
    else if c = 'p' ∨ c = 'P' then
      if flags.unicode then propertyClass flags (c == 'P') rest else none
    else if c = 'd' ∨ c = 's' ∨ c = 'w' then some (.set (perlSet flags c) false, rest)
    else if c = 'D' ∨ c = 'S' ∨ c = 'W' then some (.set (perlSet flags c) true, rest)
    else if isEscapable c then some (.char c, rest)
    else if c = 'A' then some (.look .textStart, rest)
    else if c = 'z' then some (.look .textEnd, rest)
    else if c = 'B' then some (.look (.word .inside ascii), rest)
    else if c = '<' then some (.look (.word .start ascii), rest)
    else if c = '>' then some (.look (.word .stop ascii), rest)
    else if c = 'b' then
      match wordEdge? flags rest with
      | none => none
      | some (edge, rest) => some (.look (.word (edge.getD .boundary) ascii), rest)
    else (controlEscape? c).map fun c => (.char c, rest)

/-- The character of an atom that is one. A byte above 0x7F is a character only where the pattern
is about characters. -/
def Atom.char? (flags : Flags) : Atom → Option Char
  | .char c => if flags.unicode || c.toNat < 0x80 then some c else none
  | .byte n => if flags.unicode || n < 0x80 then some (Char.ofNat n) else none
  | _ => none

/-! ### Bracketed classes -/

/-- The set closed under case variants if case is ignored, and turned around if it is negated.
Outside Unicode mode a set that leaves ASCII is refused. -/
def finishSet? (flags : Flags) (negated : Bool) (s : CharSet) : Option CharSet :=
  let s := if !flags.ignoreCase then s
    else if flags.unicode then s.closeUnderCase else s.closeUnderAsciiCase
  let s := if negated then s.complement else s
  if flags.unicode || s.isAscii then some s else none

/-- The operations between classes. -/
inductive SetOp where
  | inter
  | diff
  | symmDiff
  deriving DecidableEq, Repr

/-- The result of an operation. -/
def SetOp.apply (op : SetOp) (s t : CharSet) : CharSet :=
  match op with
  | .inter => s.inter t
  | .diff => s.diff t
  | .symmDiff => s.symmDiff t

/-- A bracket that is still open: whether it is negated, what stands left of the last operator, and
what has been read since. -/
structure OpenClass where
  negated : Bool
  left : Option (CharSet × SetOp)
  current : CharSet
  deriving Repr

/-- The set of an open bracket so far. -/
def OpenClass.value (flags : Flags) (o : OpenClass) : CharSet :=
  match o.left with
  | none => o.current
  | some (s, op) =>
    if flags.ignoreCase then op.apply s.closeUnderCase o.current.closeUnderCase
    else op.apply s o.current

/-- Reads the start of a bracket: a negation, leading hyphens, and a closing bracket that comes
first and stands for itself. -/
def openClass (flags : Flags) (t : Text) : Option (OpenClass × Text) :=
  let t := skip flags t
  let (negated, t) := match t with
    | '^' :: rest => (true, skip flags rest)
    | t => (false, t)
  hyphens (t.length + 1) negated CharSet.empty t
where
  /-- Reads leading hyphens; `fuel` bounds their number. -/
  hyphens : (fuel : Nat) → Bool → CharSet → Text → Option (OpenClass × Text)
    | 0, _, _, _ => none
    | fuel + 1, negated, s, t =>
      match t with
      | [] => none
      | c :: rest =>
        if c = '-' then hyphens fuel negated (s.union (.singleton '-')) (skip flags rest)
        else if c = ']' ∧ s.isEmpty then
          match skip flags rest with
          | [] => none
          | rest => some (⟨negated, none, .singleton ']'⟩, rest)
        else some (⟨negated, none, s⟩, t)

/-- Reads an atom inside brackets. -/
def classAtom (flags : Flags) : Text → Option (Atom × Text)
  | [] => none
  | c :: rest => if c = '\\' then escape flags rest else some (.char c, rest)

/-- Reads an atom or a range inside brackets. -/
def classItem (flags : Flags) (t : Text) : Option (CharSet × Text) := do
  let (first, t) ← classAtom flags t
  let t := skip flags t
  let alone : Option (CharSet × Text) :=
    match first with
    | .set s negated => (finishSet? flags negated s).map (·, t)
    | first => (first.char? flags).map fun c => (.singleton c, t)
  match t with
  | [] => none
  | '-' :: more =>
    match skip flags more with
    | ']' :: _ => alone
    | '-' :: _ => alone
    | more =>
      let (second, t) ← classAtom flags more
      let lo ← first.char? flags
      let hi ← second.char? flags
      if lo.toNat ≤ hi.toNat then return (.range lo.toNat hi.toNat, t) else none
  | _ => alone

/-- Reads a class after its opening bracket; `outer` are the brackets around the present one, and
`fuel` bounds the number of tokens. -/
def classFrom (flags : Flags) : (fuel : Nat) → (outer : List OpenClass) → OpenClass → Text →
    Option (CharSet × Text)
  | 0, _, _, _ => none
  | fuel + 1, outer, o, t =>
    let operator (op : SetOp) (rest : Text) :=
      classFrom flags fuel outer { o with left := some (o.value flags, op), current := .empty } rest
    let add (s : CharSet) (rest : Text) :=
      classFrom flags fuel outer { o with current := o.current.union s } rest
    match skip flags t with
    | [] => none
    | ']' :: rest =>
      match finishSet? flags o.negated (o.value flags) with
      | none => none
      | some s =>
        match outer with
        | [] => some (s, rest)
        | p :: outer => classFrom flags fuel outer { p with current := p.current.union s } rest
    | '&' :: '&' :: rest => operator .inter rest
    | '-' :: '-' :: rest => operator .diff rest
    | '~' :: '~' :: rest => operator .symmDiff rest
    | '[' :: rest =>
      match asciiClass? rest with
      | some (s, negated, rest) =>
        match finishSet? flags negated s with
        | none => none
        | some s => add s rest
      | none =>
        match openClass flags rest with
        | none => none
        | some (inner, rest) => classFrom flags fuel (o :: outer) inner rest
    | t =>
      match classItem flags t with
      | none => none
      | some (s, rest) => add s rest

/-- Reads a bracketed class after its opening bracket. -/
def bracketClass (flags : Flags) (t : Text) : Option (CharSet × Text) :=
  match openClass flags t with
  | none => none
  | some (o, rest) => classFrom flags (rest.length + 1) [] o rest

end Pattern

end Excerpt
