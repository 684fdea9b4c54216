import ClusterMap.Number.Integer

/-!
# Calendar dates and times

Dates of the proleptic Gregorian calendar and times of day to the nanosecond, each with the proof
that its fields are in range, and the texts that name them.
-/

namespace ClusterMap

open Number

/-! ## Dates -/

/-- Whether February has a twenty-ninth day. -/
def isLeapYear (year : Int) : Bool :=
  year % 4 = 0 && (year % 100 ≠ 0 || year % 400 = 0)

/-- The number of days of a month; none of a month that does not exist. -/
def daysInMonth (year : Int) (month : Nat) : Nat :=
  match month with
  | 1 | 3 | 5 | 7 | 8 | 10 | 12 => 31
  | 4 | 6 | 9 | 11 => 30
  | 2 => if isLeapYear year then 29 else 28
  | _ => 0

/-- A day of the calendar. -/
structure Date where
  year : Int
  month : Nat
  day : Nat
  day_pos : 0 < day
  day_le : day ≤ daysInMonth year month
  deriving DecidableEq

/-- The day with these fields, if there is one. -/
def Date.ofFields? (year : Int) (month day : Nat) : Option Date :=
  if h : 0 < day ∧ day ≤ daysInMonth year month then some ⟨year, month, day, h.1, h.2⟩ else none

/-- A year has at least four digits; one before 0 or after 9999 has a sign too. -/
def yearText (year : Int) : String :=
  (if year < 0 then "-" else if 9999 < year then "+" else "") ++ padded 4 year.natAbs

/-- Year, month and day between hyphens. -/
def Date.text (d : Date) : String :=
  yearText d.year ++ "-" ++ padded 2 d.month ++ "-" ++ padded 2 d.day

/-! ## Times -/

/-- A time of day. In a leap second, the sixty-first of its minute, the nanoseconds go on beyond a
second. Leap seconds are covered after second 59 only, where they show as second 60. A time may also
have its nanoseconds set beyond a second after any other second (`with_nanosecond` allows it); such
times are left out. -/
structure TimeOfDay where
  hour : Nat
  minute : Nat
  second : Nat
  nanos : Nat
  hour_lt : hour < 24
  minute_lt : minute < 60
  second_lt : second < 60
  nanos_lt : nanos < 2000000000
  nanos_of_leap : 1000000000 ≤ nanos → second = 59
  deriving DecidableEq

/-- The time with these fields, if there is one. -/
def TimeOfDay.ofFields? (hour minute second nanos : Nat) : Option TimeOfDay :=
  if h : hour < 24 ∧ minute < 60 ∧ second < 60 ∧ nanos < 2000000000 ∧
      (1000000000 ≤ nanos → second = 59) then
    some ⟨hour, minute, second, nanos, h.1, h.2.1, h.2.2.1, h.2.2.2.1, h.2.2.2.2⟩
  else none

/-- A point and the fewest of three, six or nine digits that hold the nanoseconds; nothing for
none. -/
def fractionText (nanos : Nat) : String :=
  if nanos = 0 then ""
  else if nanos % 1000000 = 0 then "." ++ padded 3 (nanos / 1000000)
  else if nanos % 1000 = 0 then "." ++ padded 6 (nanos / 1000)
  else "." ++ padded 9 nanos

/-- Hour, minute and second between colons, and the fraction; a leap second is the sixtieth. -/
def TimeOfDay.text (t : TimeOfDay) : String :=
  padded 2 t.hour ++ ":" ++ padded 2 t.minute ++ ":" ++
    padded 2 (t.second + t.nanos / 1000000000) ++ fractionText (t.nanos % 1000000000)

/-- A day and a time of it. -/
structure DateTime where
  date : Date
  time : TimeOfDay
  deriving DecidableEq

/-- Date and time with a `T` between. -/
def DateTime.text (t : DateTime) : String := t.date.text ++ "T" ++ t.time.text

end ClusterMap
