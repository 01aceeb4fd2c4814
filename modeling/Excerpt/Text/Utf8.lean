import Excerpt.Text.Basic

/-!
# UTF-8

File contents and path names are byte lists; texts are written into them as UTF-8. Reading is
never refused: `symbols` keeps ill-formed bytes apart from characters, `lossy` puts U+FFFD in
place of each ill-formed piece, and `decode?` answers only for well-formed bytes.

A lead byte fixes how many bytes follow and which range the first of them may have; this rules
out overlong forms, surrogates and values past U+10FFFF.
-/

namespace Excerpt

/-- A list of bytes: a file's content, or a name in the file tree. -/
abbrev Bytes := List UInt8

/-- One unit of decoded input: a character, or a byte that belongs to none. -/
inductive Symbol where
  | char (c : Char)
  | bad
  deriving DecidableEq, Repr, Inhabited

namespace Symbol

/-- The character of a well-formed symbol. -/
def char? : Symbol → Option Char
  | char c => some c
  | bad => none

end Symbol

namespace Utf8

/-! ### Writing -/

/-- The one to four bytes of a character. -/
def encodeChar (c : Char) : Bytes :=
  let n := c.toNat
  if n < 0x80 then [n.toUInt8]
  else if n < 0x800 then [(0xC0 + n / 0x40).toUInt8, (0x80 + n % 0x40).toUInt8]
  else if n < 0x10000 then
    [(0xE0 + n / 0x1000).toUInt8, (0x80 + n / 0x40 % 0x40).toUInt8, (0x80 + n % 0x40).toUInt8]
  else
    [(0xF0 + n / 0x40000).toUInt8, (0x80 + n / 0x1000 % 0x40).toUInt8,
     (0x80 + n / 0x40 % 0x40).toUInt8, (0x80 + n % 0x40).toUInt8]

/-- The bytes of a text. -/
def encode (t : Text) : Bytes := t.flatMap encodeChar

/-! ### Reading -/

/-- How a byte list starts: with a character of some width, or with an ill-formed piece, the
longest one that is the front of some character, and at least one byte. -/
inductive Head where
  | char (c : Char) (width : Nat)
  | broken (width : Nat)
  deriving DecidableEq, Repr

/-- The bytes that may follow a lead byte: their number, and the range of the first of them. -/
def following (lead : Nat) : Option (Nat × Nat × Nat) :=
  if lead < 0xC2 then none
  else if lead < 0xE0 then some (1, 0x80, 0xBF)
  else if lead = 0xE0 then some (2, 0xA0, 0xBF)
  else if lead = 0xED then some (2, 0x80, 0x9F)
  else if lead < 0xF0 then some (2, 0x80, 0xBF)
  else if lead = 0xF0 then some (3, 0x90, 0xBF)
  else if lead < 0xF4 then some (3, 0x80, 0xBF)
  else if lead = 0xF4 then some (3, 0x80, 0x8F)
  else none

/-- Reads `count` more bytes, the first of them between `lo` and `hi` and the others between 0x80
and 0xBF; `value` and `width` are those of the bytes read so far. -/
def readTail : (count lo hi value width : Nat) → Bytes → Head
  | 0, _, _, value, width, _ => .char (Char.ofNat value) width
  | _ + 1, _, _, _, width, [] => .broken width
  | count + 1, lo, hi, value, width, b :: rest =>
    if lo ≤ b.toNat ∧ b.toNat ≤ hi then
      readTail count 0x80 0xBF (value * 0x40 + (b.toNat - 0x80)) (width + 1) rest
    else .broken width

/-- How the list `b :: rest` starts. -/
def head (b : UInt8) (rest : Bytes) : Head :=
  let n := b.toNat
  if n < 0x80 then .char (Char.ofNat n) 1
  else match following n with
    | none => .broken 1
    | some (count, lo, hi) =>
      let lead := if count = 1 then n - 0xC0 else if count = 2 then n - 0xE0 else n - 0xF0
      readTail count lo hi lead 1 rest

/-- Adds the symbols of a byte list, in reverse, to `done`; `skip` bytes belong to the last
character. -/
def symbolsOnto : (skip : Nat) → Bytes → List Symbol → List Symbol
  | _, [], done => done
  | k + 1, _ :: rest, done => symbolsOnto k rest done
  | 0, b :: rest, done =>
    match head b rest with
    | .char c width => symbolsOnto (width - 1) rest (.char c :: done)
    | .broken _ => symbolsOnto 0 rest (.bad :: done)

/-- The symbols of a byte list: its characters, and each byte that belongs to none. -/
def symbols (bs : Bytes) : List Symbol := (symbolsOnto 0 bs []).reverse

/-- Adds the characters of a byte list, in reverse, to `done`, with U+FFFD for each ill-formed
piece. -/
def lossyOnto : (skip : Nat) → Bytes → Text → Text
  | _, [], done => done
  | k + 1, _ :: rest, done => lossyOnto k rest done
  | 0, b :: rest, done =>
    match head b rest with
    | .char c width => lossyOnto (width - 1) rest (c :: done)
    | .broken width => lossyOnto (width - 1) rest ('\uFFFD' :: done)

/-- The text of a byte list, with U+FFFD for each ill-formed piece. -/
def lossy (bs : Bytes) : Text := (lossyOnto 0 bs []).reverse

/-- The text of a well-formed byte list. -/
def decode? (bs : Bytes) : Option Text :=
  if (symbols bs).contains .bad then none else some ((symbols bs).filterMap Symbol.char?)

end Utf8

end Excerpt
