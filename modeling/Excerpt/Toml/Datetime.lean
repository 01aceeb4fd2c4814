import Excerpt.Text.Basic

/-!
# Dates and times in TOML

A date, a time, or both, and with both perhaps an offset. `normal?` checks the numbers and answers
with the plain form: a `T` between date and time, a large `Z`, at most nine digits of a fraction
and no zeros at its end.
-/

namespace Excerpt

namespace Toml

namespace Datetime

/-- Reads `width` digits. -/
def digits? (width : Nat) (t : Text) : Option (Nat × Text) :=
  let ds := t.take width
  if ds.length = width && ds.all Char.isDigit then
    some (ds.foldl (fun n c => n * 10 + (c.toNat - '0'.toNat)) 0, t.drop width)
  else none

/-- Reads one character. -/
def char? (c : Char) : Text → Option Text
  | [] => none
  | d :: rest => if d = c then some rest else none

/-- A number with zeros in front. -/
def padded (width n : Nat) : Text :=
  let ds := Text.ofNat n
  List.replicate (width - ds.length) '0' ++ ds

/-- Whether February has a day more. -/
def isLeapYear (year : Nat) : Bool := year % 4 == 0 && (year % 100 != 0 || year % 400 == 0)

/-- The number of days of a month. -/
def daysIn (year month : Nat) : Nat :=
  if month = 2 then (if isLeapYear year then 29 else 28)
  else if month = 4 ∨ month = 6 ∨ month = 9 ∨ month = 11 then 30
  else 31

/-- Reads a date. -/
def date? (t : Text) : Option (Text × Text) := do
  let (year, t) ← digits? 4 t
  let t ← char? '-' t
  let (month, t) ← digits? 2 t
  let t ← char? '-' t
  let (day, t) ← digits? 2 t
  if 1 ≤ month && month ≤ 12 && 1 ≤ day && day ≤ daysIn year month then
    return (padded 4 year ++ '-' :: padded 2 month ++ '-' :: padded 2 day, t)
  else failure

/-- Reads a fraction of a second, which may be missing. -/
def fraction? (t : Text) : Option (Text × Text) :=
  match char? '.' t with
  | none => some ([], t)
  | some t =>
    let ds := t.takeWhile Char.isDigit
    if ds.isEmpty then none
    else
      let kept := Text.dropEndWhile (· == '0') (ds.take 9)
      some (if kept.isEmpty then [] else '.' :: kept, t.dropWhile Char.isDigit)

/-- Reads a time of day. A minute may have a leap second. -/
def time? (t : Text) : Option (Text × Text) := do
  let (hour, t) ← digits? 2 t
  let t ← char? ':' t
  let (minute, t) ← digits? 2 t
  let t ← char? ':' t
  let (second, t) ← digits? 2 t
  let (part, t) ← fraction? t
  if hour ≤ 23 && minute ≤ 59 && second ≤ 60 then
    return (padded 2 hour ++ ':' :: padded 2 minute ++ ':' :: padded 2 second ++ part, t)
  else failure

/-- Reads an offset, which may be missing. An offset of nothing is written with a plus. -/
def offset? : Text → Option (Text × Text)
  | [] => some ([], [])
  | c :: t =>
    if c = 'Z' ∨ c = 'z' then some (['Z'], t)
    else if c = '+' ∨ c = '-' then do
      let (hour, t) ← digits? 2 t
      let t ← char? ':' t
      let (minute, t) ← digits? 2 t
      let sign := if hour = 0 ∧ minute = 0 then '+' else c
      if hour ≤ 23 && minute ≤ 59 then
        return (sign :: padded 2 hour ++ ':' :: padded 2 minute, t)
      else failure
    else none

/-- Whether a character may stand between a date and a time. -/
def isDivider (c : Char) : Bool := c == 'T' || c == 't' || c == ' '

/-- The plain form of a date, a time, or both. -/
def normal? (t : Text) : Option Text :=
  match date? t with
  | none =>
    match time? t with
    | some (time, []) => some time
    | _ => none
  | some (date, []) => some date
  | some (date, c :: rest) =>
    if isDivider c then do
      let (time, rest) ← time? rest
      match offset? rest with
      | some (offset, []) => some (date ++ 'T' :: time ++ offset)
      | _ => none
    else none

end Datetime

end Toml

end Excerpt
