/-!
# Text

A text is a list of characters. This module holds the operations on texts that the rest of the
library shares: blank characters and trimming, cutting at a separator, looking for a piece,
replacing a piece everywhere, and writing numbers.

The white space meant here is the Unicode property `White_Space`, which is larger than the ASCII
class of the core library.
-/

namespace Excerpt

/-- A text, as the list of its characters. -/
abbrev Text := List Char

namespace Text

/-! ### Blank characters -/

/-- The ranges of the Unicode property `White_Space`. -/
def blankRanges : List (Nat × Nat) :=
  [(0x9, 0xD), (0x20, 0x20), (0x85, 0x85), (0xA0, 0xA0), (0x1680, 0x1680), (0x2000, 0x200A),
   (0x2028, 0x2029), (0x202F, 0x202F), (0x205F, 0x205F), (0x3000, 0x3000)]

/-- Whether a character has the property `White_Space`. -/
def isBlank (c : Char) : Bool :=
  blankRanges.any fun r => r.1 ≤ c.toNat && c.toNat ≤ r.2

/-- The text without its leading blanks. -/
def trimStart (t : Text) : Text := t.dropWhile isBlank

/-- The text without the characters at its end that satisfy `p`. -/
def dropEndWhile (p : Char → Bool) (t : Text) : Text := (t.reverse.dropWhile p).reverse

/-- The text without its trailing blanks. -/
def trimEnd (t : Text) : Text := t.dropEndWhile isBlank

/-- The text without blanks at either end. -/
def trim (t : Text) : Text := trimEnd (trimStart t)

/-! ### Pieces at either end -/

/-- What follows `piece` at the front of the text. -/
def afterStart? (piece : Text) : Text → Option Text
  | t => if piece.isPrefixOf t then some (t.drop piece.length) else none

/-- What precedes `piece` at the end of the text. -/
def beforeEnd? (piece : Text) (t : Text) : Option Text :=
  if piece.isSuffixOf t then some (t.take (t.length - piece.length)) else none

/-! ### Looking for a separator -/

/-- The parts before and after the first character that satisfies `p`. -/
def cutFirst? (p : Char → Bool) (t : Text) : Option (Text × Text) :=
  match t.dropWhile (!p ·) with
  | [] => none
  | _ :: rest => some (t.takeWhile (!p ·), rest)

/-- The parts before and after the last character that satisfies `p`. -/
def cutLast? (p : Char → Bool) (t : Text) : Option (Text × Text) :=
  (cutFirst? p t.reverse).map fun parts => (parts.2.reverse, parts.1.reverse)

/-- What precedes and what follows the first occurrence of `piece`. -/
def cutAt? (piece : Text) : Text → Option (Text × Text)
  | [] => if piece.isEmpty then some ([], []) else none
  | c :: rest =>
    match afterStart? piece (c :: rest) with
    | some after => some ([], after)
    | none => (cutAt? piece rest).map fun parts => (c :: parts.1, parts.2)

/-- Whether `piece` occurs in the text. -/
def hasPiece (piece t : Text) : Bool := (cutAt? piece t).isSome

/-- Cuts a list at the elements that satisfy `p`; `piece` is the present piece and `done` are the
finished ones, both in reverse. -/
def splitOnto {α : Type} (p : α → Bool) : List α → (piece : List α) → (done : List (List α)) →
    List (List α)
  | [], piece, done => (piece.reverse :: done).reverse
  | a :: rest, piece, done =>
    if p a then splitOnto p rest [] (piece.reverse :: done) else splitOnto p rest (a :: piece) done

/-- The pieces of a list between the elements that satisfy `p`; there is always at least one. -/
def splitOn {α : Type} (p : α → Bool) (as : List α) : List (List α) := splitOnto p as [] []

/-! ### Replacing -/

/-- Replaces the occurrences of `piece` from left to right; `skip` characters belong to an
occurrence that has been replaced already. -/
def replaceFrom (piece new : Text) : Nat → Text → Text
  | _, [] => []
  | k + 1, _ :: rest => replaceFrom piece new k rest
  | 0, c :: rest =>
    if piece.isPrefixOf (c :: rest) then new ++ replaceFrom piece new (piece.length - 1) rest
    else c :: replaceFrom piece new 0 rest

/-- The text with every occurrence of a non-empty `piece` replaced. -/
def replace (piece new t : Text) : Text :=
  if piece.isEmpty then t else replaceFrom piece new 0 t

/-! ### Joining and writing -/

/-- The pieces one after another with `sep` between neighbours. -/
def join (sep : Text) : List Text → Text
  | [] => []
  | [t] => t
  | t :: rest => t ++ sep ++ join sep rest

/-- A natural number in decimal digits. -/
def ofNat (n : Nat) : Text := Nat.toDigits 10 n

/-- The text with its ASCII capitals made small. -/
def toLower (t : Text) : Text := t.map Char.toLower

/-- Order of texts by their characters' code points, the order of their UTF-8 bytes. -/
def before : Text → Text → Bool
  | [], [] => false
  | [], _ :: _ => true
  | _ :: _, [] => false
  | a :: s, b :: t => a.toNat < b.toNat || (a.toNat == b.toNat && before s t)

/-- The lines of a list: what stands before each `newline`, and at the end a line without one
unless it is empty. The flag says whether the line has its newline. -/
def cutLines {α : Type} [BEq α] (newline : α) (as : List α) : List (List α × Bool) :=
  match (splitOn (· == newline) as).reverse with
  | [] => []
  | last :: before =>
    let full := before.reverse.map (·, true)
    if last.isEmpty then full else full ++ [(last, false)]

/-- The lines of a text. A carriage return right before a newline belongs to the line end. -/
def lines (t : Text) : List Text :=
  (cutLines '\n' t).map fun l => if l.2 then (beforeEnd? ['\r'] l.1).getD l.1 else l.1

end Text

end Excerpt
