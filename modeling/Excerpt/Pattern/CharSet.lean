import Excerpt.Text.Utf8

/-!
# Sets of characters

A set of code points, kept as increasing ranges that neither overlap nor touch. Surrogates are no
characters: no operation that turns a set around brings them in.
-/

namespace Excerpt

/-- A set of characters, as increasing ranges of code points. -/
structure CharSet where
  ranges : List (Nat × Nat)
  deriving DecidableEq, Repr, Inhabited

namespace CharSet

/-- The largest code point. -/
def maxCode : Nat := 0x10FFFF

/-- Whether a code point lies in one of some increasing ranges. -/
def inRanges (n : Nat) : List (Nat × Nat) → Bool
  | [] => false
  | (lo, hi) :: rest => lo ≤ n && (n ≤ hi || inRanges n rest)

/-- Whether a character is an element. -/
def contains (s : CharSet) (c : Char) : Bool := inRanges c.toNat s.ranges

/-- Whether there is no element. -/
def isEmpty (s : CharSet) : Bool := s.ranges.isEmpty

/-- The set without elements. -/
def empty : CharSet := ⟨[]⟩

/-- The set with one element. -/
def singleton (c : Char) : CharSet := ⟨[(c.toNat, c.toNat)]⟩

/-- The characters from `lo` to `hi`. -/
def range (lo hi : Nat) : CharSet := ⟨[(lo, hi)]⟩

/-- Adds a range to increasing ranges. -/
def insertRange (lo hi : Nat) : List (Nat × Nat) → List (Nat × Nat)
  | [] => [(lo, hi)]
  | (a, b) :: rest =>
    if hi + 1 < a then (lo, hi) :: (a, b) :: rest
    else if b + 1 < lo then (a, b) :: insertRange lo hi rest
    else insertRange (min lo a) (max hi b) rest

/-- The set with ranges added. -/
def addRanges (s : CharSet) (rs : List (Nat × Nat)) : CharSet :=
  ⟨rs.foldl (fun done r => insertRange r.1 r.2 done) s.ranges⟩

/-- The set of the characters in any ranges. -/
def ofRanges (rs : List (Nat × Nat)) : CharSet := empty.addRanges rs

/-- Joins ranges that touch; the ranges come in increasing order. -/
def joinTouching : List (Nat × Nat) → List (Nat × Nat)
  | [] => []
  | (a, b) :: rest =>
    match joinTouching rest with
    | [] => [(a, b)]
    | (c, d) :: more => if c ≤ b + 1 then (a, max b d) :: more else (a, b) :: (c, d) :: more

/-- The set of the characters in increasing ranges. -/
def ofSorted (rs : List (Nat × Nat)) : CharSet := ⟨joinTouching rs⟩

/-- Both sets together. -/
def union (s t : CharSet) : CharSet := s.addRanges t.ranges

/-- What increasing ranges leave free from `start` on. -/
def gaps : (start : Nat) → List (Nat × Nat) → List (Nat × Nat)
  | start, [] => if start ≤ maxCode then [(start, maxCode)] else []
  | start, (a, b) :: rest =>
    if start < a then (start, a - 1) :: gaps (b + 1) rest else gaps (b + 1) rest

/-- Takes the code points from `lo` to `hi` out of some ranges. -/
def cutRange (lo hi : Nat) (rs : List (Nat × Nat)) : List (Nat × Nat) :=
  rs.flatMap fun r =>
    if r.2 < lo ∨ hi < r.1 then [r]
    else (if r.1 < lo then [(r.1, lo - 1)] else []) ++ (if hi < r.2 then [(hi + 1, r.2)] else [])

/-- The set without surrogate code points. -/
def withoutSurrogates (s : CharSet) : CharSet := ⟨cutRange 0xD800 0xDFFF s.ranges⟩

/-- The set without one character. -/
def without (s : CharSet) (c : Char) : CharSet := ⟨cutRange c.toNat c.toNat s.ranges⟩

/-- All other characters. -/
def complement (s : CharSet) : CharSet := withoutSurrogates ⟨gaps 0 s.ranges⟩

/-- All characters. -/
def full : CharSet := complement empty

/-- What is in both sets. -/
def inter (s t : CharSet) : CharSet := (s.complement.union t.complement).complement

/-- What is in the first set only. -/
def diff (s t : CharSet) : CharSet := s.inter t.complement

/-- What is in exactly one of the sets. -/
def symmDiff (s t : CharSet) : CharSet := (s.union t).diff (s.inter t)

/-- Whether every element is an ASCII character. -/
def isAscii (s : CharSet) : Bool := s.ranges.all fun r => r.2 < 0x80

end CharSet

end Excerpt
