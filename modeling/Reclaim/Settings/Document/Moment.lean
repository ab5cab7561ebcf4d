import Reclaim.Settings.Document.Blank

/-!
# Dates and times of documents

A date has a year of four digits, a month and a day, which must exist in the calendar; a time has
hours, minutes, seconds and perhaps a fraction of a second. `passMoment` passes over a date, a date
with a time, a date with a time and its offset, or a time alone.
-/

namespace Reclaim.Document

/-- Reads a number of so many digits that lies in a range. -/
def numeral (count low high : Nat) : Reader Nat := fun s =>
  let ds := s.take count
  if ds.length < count then none
  else
    (Text.number? 10 0 ds).bind fun n =>
      if low ≤ n && n ≤ high then some (n, s.drop count) else none

/-- Whether a year has a leap day. -/
def isLeapYear (year : Nat) : Bool := year % 4 = 0 && (year % 100 ≠ 0 || year % 400 = 0)

/-- The days of a month. -/
def daysInMonth (year month : Nat) : Nat :=
  match month with
  | 2 => if isLeapYear year then 29 else 28
  | 4 | 6 | 9 | 11 => 30
  | _ => 31

/-- Passes over a date. -/
def passDate (s : List Char) : Option (List Char) := do
  let (year, s) ← numeral 4 0 9999 s
  let s ← Text.behind? ['-'] s
  let (month, s) ← numeral 2 1 12 s
  let s ← Text.behind? ['-'] s
  let (_, s) ← numeral 2 1 (daysInMonth year month) s
  return s

/-- Passes over hours and minutes. -/
def passMinute (s : List Char) : Option (List Char) := do
  let (_, s) ← numeral 2 0 23 s
  let s ← Text.behind? [':'] s
  let (_, s) ← numeral 2 0 59 s
  return s

/-- Passes over a time. Its seconds may be 60, for a leap second. -/
def passTime (s : List Char) : Option (List Char) := do
  let s ← passMinute s
  let s ← Text.behind? [':'] s
  let (_, s) ← numeral 2 0 60 s
  match s with
  | '.' :: s => if (s.takeWhile Text.isDigit).isEmpty then none else s.dropWhile Text.isDigit
  | s => s

/-- Passes over the offset of a time, if there is one. -/
def passOffset : List Char → Option (List Char)
  | [] => some []
  | c :: s =>
    if c = 'Z' || c = 'z' then some s
    else if c = '+' || c = '-' then passMinute s
    else some (c :: s)

/-- Passes over the time behind a date, if there is one. A blank that no time follows stays. -/
def passTimeOfDate : List Char → Option (List Char)
  | [] => some []
  | c :: s =>
    if c = 'T' || c = 't' || c = ' ' then
      match passTime s with
      | some s => passOffset s
      | none => some (c :: s)
    else some (c :: s)

/-- Passes over a date or a time or both. -/
def passMoment (s : List Char) : Option (List Char) :=
  match passDate s with
  | some s => passTimeOfDate s
  | none => passTime s

end Reclaim.Document
