import Excerpt.Decimal.Shortest
import Excerpt.Toml.Datetime
import Excerpt.Toml.Quoted

/-!
# Unquoted values in TOML

Truth values, numbers and dates are written without quotes. Underscores may stand between digits,
a decimal number has no zero in front, and a whole number has to fit into 64 bits with a sign. A
number with a fraction or an exponent is rounded to binary and must be in range.
-/

namespace Excerpt

namespace Toml

namespace Word

/-! ### Digits -/

/-- The digits of a text without the single underscores between them. -/
def grouped? (base : Nat) (t : Text) : Option Text :=
  let groups := Text.splitOn (· == '_') t
  if groups.all fun g => !g.isEmpty && g.all fun c => (digitValue? base c).isSome then
    some groups.flatten
  else none

/-- The digits of a decimal number without zeros in front. -/
def decimal? (t : Text) : Option Text :=
  (grouped? 10 t).bind fun ds =>
    if ds.head? = some '0' ∧ ds ≠ ['0'] then none else some ds

/-- Whether the number is negative, and what follows its sign. -/
def sign : Text → Bool × Text
  | [] => (false, [])
  | c :: rest =>
    if c = '-' then (true, rest) else if c = '+' then (false, rest) else (false, c :: rest)

/-! ### Whole numbers -/

/-- A number that fits into 64 bits with a sign. -/
def inRange? (n : Int) : Option Int :=
  if -9223372036854775808 ≤ n ∧ n ≤ 9223372036854775807 then some n else none

/-- Reads a whole number: decimal with a sign, or in another base behind its mark. -/
def integer? (t : Text) : Option Int :=
  match t with
  | '0' :: 'x' :: ds => based 16 ds
  | '0' :: 'o' :: ds => based 8 ds
  | '0' :: 'b' :: ds => based 2 ds
  | t => (decimal? (sign t).2).bind fun ds => (numberOf? 10 ds).bind fun n =>
    inRange? (if (sign t).1 then -(n : Int) else n)
where
  based (base : Nat) (ds : Text) : Option Int :=
    (grouped? base ds).bind fun ds => (numberOf? base ds).bind fun n => inRange? n

/-! ### Fractions -/

/-- Reads an exponent. -/
def exponent? (t : Text) : Option Int :=
  (grouped? 10 (sign t).2).bind fun ds => (numberOf? 10 ds).map fun n =>
    if (sign t).1 then -(n : Int) else n

/-- Reads the digits of a fraction with its point, and the number of places. -/
def mantissa? (t : Text) : Option (Nat × Nat) :=
  match Text.cutFirst? (· == '.') t with
  | none => (decimal? t).bind fun ds => (numberOf? 10 ds).map (·, 0)
  | some (whole, part) => do
    let whole ← decimal? whole
    let part ← grouped? 10 part
    let n ← numberOf? 10 (whole ++ part)
    return (n, part.length)

/-- The text of a number without a sign, that has a point or an exponent. -/
def unsigned? (t : Text) : Option Text :=
  match Text.cutFirst? (fun c => c == 'e' || c == 'E') t with
  | none => if t.contains '.' then
      (mantissa? t).bind fun (n, places) => Decimal.shortest? n (-(places : Int))
    else none
  | some (front, behind) => do
    let (n, places) ← mantissa? front
    let e ← exponent? behind
    Decimal.shortest? n (e - places)

/-- The text of a number with a point or an exponent, or of one of the two words for no number. A
sign is lost where there is no number at all. -/
def float? (t : Text) : Option Text :=
  let (negative, t) := sign t
  if t = "nan".toList then some "NaN".toList
  else
    (if t = "inf".toList then some t else unsigned? t).map fun u =>
      if negative then '-' :: u else u

/-- The value of a word. -/
def toValue? (t : Text) : Option Value :=
  if t = "true".toList then some (.boolean true)
  else if t = "false".toList then some (.boolean false)
  else match integer? t with
  | some n => some (.integer n)
  | none => match float? t with
    | some f => some (.float f)
    | none => (Datetime.normal? t).map .datetime

/-! ### Where a word ends -/

/-- Whether a character can be part of a word. -/
def isPart (c : Char) : Bool :=
  c.isAlphanum || c == '_' || c == '-' || c == '+' || c == '.' || c == ':'

/-- The word at the start of a text and what follows it. One blank may stand between a date and a
time. -/
def cut (t : Text) : Text × Text :=
  let word := t.takeWhile isPart
  let rest := t.dropWhile isPart
  match rest with
  | ' ' :: d :: more =>
    if d.isDigit && (Datetime.date? word).any (·.2.isEmpty) then
      (word ++ ' ' :: (d :: more).takeWhile isPart, more.dropWhile isPart)
    else (word, rest)
  | _ => (word, rest)

end Word

/-- Reads a value that is neither a list nor a table. -/
def scalar? (t : Text) : Option (Value × Text) :=
  match t with
  | [] => none
  | c :: _ =>
    if c = '\x22' ∨ c = '\x27' then (quoted? t).map fun (s, rest) => (.string s, rest)
    else (Word.toValue? (Word.cut t).1).map (·, (Word.cut t).2)

end Toml

end Excerpt
