import Excerpt.Text.Utf8

/-!
# UTF-16

Decoding of byte lists that hold 16-bit units, in either byte order. A surrogate without its
partner and a byte left over at the end are read as U+FFFD.
-/

namespace Excerpt

namespace Utf16

/-- Which byte of a unit comes first. -/
inductive ByteOrder where
  | littleEndian
  | bigEndian
  deriving DecidableEq, Repr

/-- The unit of two neighbouring bytes. -/
def ByteOrder.unit (order : ByteOrder) (a b : UInt8) : Nat :=
  match order with
  | .littleEndian => b.toNat * 256 + a.toNat
  | .bigEndian => a.toNat * 256 + b.toNat

/-- Adds the units of a byte list, in reverse, to `done`; `none` stands for a left-over byte. -/
def unitsOnto (order : ByteOrder) : Bytes → List (Option Nat) → List (Option Nat)
  | [], done => done
  | [_], done => none :: done
  | a :: b :: rest, done => unitsOnto order rest (some (order.unit a b) :: done)

/-- Adds the characters of units, in reverse, to `done`; `high` is a high surrogate that waits for
its partner. -/
def decodeOnto : (high : Option Nat) → List (Option Nat) → Text → Text
  | none, [], done => done
  | some _, [], done => '\uFFFD' :: done
  | none, none :: rest, done => decodeOnto none rest ('\uFFFD' :: done)
  | some _, none :: rest, done => decodeOnto none rest ('\uFFFD' :: done)
  | none, some u :: rest, done =>
    if 0xD800 ≤ u ∧ u < 0xDC00 then decodeOnto (some u) rest done
    else if 0xDC00 ≤ u ∧ u < 0xE000 then decodeOnto none rest ('\uFFFD' :: done)
    else decodeOnto none rest (Char.ofNat u :: done)
  | some h, some u :: rest, done =>
    if 0xDC00 ≤ u ∧ u < 0xE000 then
      decodeOnto none rest (Char.ofNat (0x10000 + (h - 0xD800) * 0x400 + (u - 0xDC00)) :: done)
    else if 0xD800 ≤ u ∧ u < 0xDC00 then decodeOnto (some u) rest ('\uFFFD' :: done)
    else decodeOnto none rest (Char.ofNat u :: '\uFFFD' :: done)

/-- The text of a byte list that holds 16-bit units. -/
def lossy (order : ByteOrder) (bs : Bytes) : Text :=
  (decodeOnto none (unitsOnto order bs []).reverse []).reverse

end Utf16

end Excerpt
