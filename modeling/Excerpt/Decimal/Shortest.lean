import Excerpt.Text.Basic

/-!
# The shortest decimal of a binary fraction

A decimal is rounded to the nearest number of the form `m * 2 ^ q` with at most 53 bits in `m` and
`q` not below -1074, ties to even `m`. That number is then written with the fewest digits that
round to it, the nearest of those if there are several, and of two as near the larger one. There is
no exponent.
-/

namespace Excerpt

namespace Decimal

/-- A positive number `mantissa * 2 ^ exponent`. -/
structure Binary where
  mantissa : Nat
  exponent : Int
  deriving DecidableEq, Repr

/-- The number of bits of a mantissa. -/
def precision : Nat := 53

/-- The smallest exponent. -/
def minExponent : Int := -1074

/-- The largest exponent. -/
def maxExponent : Int := 971

/-- The fraction `num / den` times `base ^ k`. -/
def scale (base : Nat) (k : Int) (num den : Nat) : Nat × Nat :=
  if 0 ≤ k then (num * Nat.pow base k.toNat, den) else (num, den * Nat.pow base (-k).toNat)

/-- The quotient rounded to the nearest whole number, ties to even. -/
def roundDiv (num den : Nat) : Nat :=
  let quotient := num / den
  let rest := num % den
  if 2 * rest < den then quotient
  else if den < 2 * rest then quotient + 1
  else if quotient % 2 = 0 then quotient else quotient + 1

/-- The nearest binary number to a positive fraction; zero if it is too small, and none if it is
too large. -/
def toBinary? (num den : Nat) : Option Binary :=
  let guess : Int := (Nat.log2 num : Int) - (Nat.log2 den : Int) - precision + 1
  let fits (q : Int) : Bool := let (n, d) := scale 2 (-q) num den; n / d < Nat.pow 2 precision
  let q := max minExponent (if fits (guess - 1) then guess - 1 else if fits guess then guess
    else guess + 1)
  let (n, d) := scale 2 (-q) num den
  let m := roundDiv n d
  let b : Binary := if m = Nat.pow 2 precision then ⟨m / 2, q + 1⟩ else ⟨m, q⟩
  if maxExponent < b.exponent then none else some b

/-- Whether the decimal `d * 10 ^ e` rounds to a binary number. -/
def roundsTo (b : Binary) (d : Nat) (e : Int) : Bool :=
  let (num, den) := scale 10 e d 1
  d ≠ 0 && toBinary? num den == some b

/-- The value as a fraction. -/
def Binary.fraction (b : Binary) : Nat × Nat := scale 2 b.exponent b.mantissa 1

/-- The least `k` from `start` on with `num / den < 10 ^ k`; `fuel` bounds the steps. -/
def magnitude (num den : Nat) : (fuel : Nat) → (k : Int) → Int
  | 0, k => k
  | fuel + 1, k =>
    let (n, d) := scale 10 (-k) num den
    if n < d then k else magnitude num den fuel (k + 1)

/-- A decimal with at most `digits` digits that rounds to a binary number: the nearer one of its two
neighbours on that grid, if one of them does. Where both are as near, the upper one comes first. -/
def onGrid? (b : Binary) (k : Int) (digits : Nat) : Option (Nat × Int) :=
  let e := k - digits
  let (num, den) := b.fraction
  let (n, d) := scale 10 (-e) num den
  let low := n / d
  let nearLow := 2 * (n % d) < d
  let first := if nearLow then low else low + 1
  let second := if nearLow then low + 1 else low
  if roundsTo b first e then some (first, e)
  else if roundsTo b second e then some (second, e)
  else none

/-- The first grid from `digits` on that has a decimal for a binary number. -/
def shortestFrom (b : Binary) (k : Int) : (fuel digits : Nat) → Nat × Int
  | 0, _ => (0, 0)
  | fuel + 1, digits =>
    match onGrid? b k digits with
    | some found => found
    | none => shortestFrom b k fuel (digits + 1)

/-- Writes `d * 10 ^ e` without an exponent. -/
def positional (d : Nat) (e : Int) : Text :=
  let digits := Text.ofNat d
  if 0 ≤ e then digits ++ List.replicate e.toNat '0'
  else
    let places := (-e).toNat
    let padded := List.replicate (places + 1 - digits.length) '0' ++ digits
    let whole := padded.take (padded.length - places)
    let part := Text.dropEndWhile (· == '0') (padded.drop (padded.length - places))
    if part.isEmpty then whole else whole ++ '.' :: part

/-- The text of the binary number nearest to `d * 10 ^ e`, if it is in range. -/
def shortest? (d : Nat) (e : Int) : Option Text :=
  if d = 0 then some ['0']
  else if e < -400 - (Text.ofNat d).length then some ['0']
  else if 400 < e then none
  else
    let (num, den) := scale 10 e d 1
    match toBinary? num den with
    | none => none
    | some b =>
      if b.mantissa = 0 then some ['0']
      else
        let (num, den) := b.fraction
        let k := magnitude num den 700 (-330)
        let (d, e) := shortestFrom b k 17 1
        some (positional d e)

end Decimal

end Excerpt
