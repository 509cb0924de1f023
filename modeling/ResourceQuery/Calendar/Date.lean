/-!
# Dates and times of day

A `Date` is a day of the proleptic Gregorian calendar, a `Time` a time of day with nanoseconds.
Both carry the proof that they exist. A leap second is kept as the second before it with at least one
whole second of nanoseconds. A clock has one behind second 59 alone, but a time of day may be kept with
one behind any second.
-/

namespace ResourceQuery
set_option autoImplicit false

namespace Calendar

/-- Every fourth year but the full centuries, of which every fourth is one too. -/
def isLeapYear (year : Int) : Bool :=
  year % 4 == 0 && (year % 100 != 0 || year % 400 == 0)

/-- How many days a month has. -/
def monthLength (year : Int) : Nat → Nat
  | 2 => if isLeapYear year then 29 else 28
  | 4 | 6 | 9 | 11 => 30
  | _ => 31

/-- How many days come before a month. -/
def daysBeforeMonth (year : Int) (month : Nat) : Nat :=
  (List.range' 1 (month - 1)).foldl (fun days earlier => days + monthLength year earlier) 0

/-- The first year of the supported range. -/
def firstYear : Int := -262143

/-- The last year of the supported range. -/
def lastYear : Int := 262142

end Calendar

/-- An existing day in the supported range of years. -/
structure Date where
  year : Int
  month : Nat
  day : Nat
  year_range : Calendar.firstYear ≤ year ∧ year ≤ Calendar.lastYear
  month_range : 1 ≤ month ∧ month ≤ 12
  day_range : 1 ≤ day ∧ day ≤ Calendar.monthLength year month
deriving DecidableEq, Repr

/-- A time of day, with less than two seconds of nanoseconds. -/
structure Time where
  hour : Nat
  minute : Nat
  second : Nat
  nanosecond : Nat
  hour_lt : hour < 24
  minute_lt : minute < 60
  second_lt : second < 60
  nanosecond_lt : nanosecond < 2000000000
deriving DecidableEq, Repr

/-- A date and a time of day, without a time zone. -/
structure DateTime where
  date : Date
  time : Time
deriving DecidableEq, Repr

namespace Date
open Calendar

/-- The day with this year, month and day of the month, if it exists. -/
def ofDay? (year : Int) (month day : Nat) : Option Date :=
  if h : (firstYear ≤ year ∧ year ≤ lastYear) ∧ (1 ≤ month ∧ month ≤ 12) ∧
      (1 ≤ day ∧ day ≤ monthLength year month) then
    some ⟨year, month, day, h.1, h.2.1, h.2.2⟩
  else none

/-- The position of the day in its year, counted from one. -/
def dayOfYear (date : Date) : Nat :=
  daysBeforeMonth date.year date.month + date.day

/-- The day at this position in the year, if it exists: its month is the last one with fewer days
before it. -/
def ofDayOfYear? (year : Int) (position : Nat) : Option Date :=
  let month := ((List.range' 1 12).filter fun m => daysBeforeMonth year m < position).length
  ofDay? year month (position - daysBeforeMonth year month)

end Date

namespace Time

/-- The time of day with these parts, if a clock has it: only second 59 can be followed by a leap second. -/
def ofParts? (hour minute second nanosecond : Nat) : Option Time :=
  if h : hour < 24 ∧ minute < 60 ∧ second < 60 ∧
      nanosecond < (if second = 59 then 2000000000 else 1000000000) then
    some ⟨hour, minute, second, nanosecond, h.1, h.2.1, h.2.2.1,
      Nat.lt_of_lt_of_le h.2.2.2 (by split <;> decide)⟩
  else none

/-- The first moment of a day. -/
def midnight : Time :=
  ⟨0, 0, 0, 0, by decide, by decide, by decide, by decide⟩

/-- The second that is shown, a whole second of nanoseconds being one more: 60 in a leap second of a clock. -/
def shownSecond (time : Time) : Nat :=
  time.second + time.nanosecond / 1000000000

/-- The nanoseconds since the shown second began. -/
def subsecond (time : Time) : Nat :=
  time.nanosecond % 1000000000

end Time

namespace Calendar

/-- A number with at least this many digits. -/
def padded (width n : Nat) : List Char :=
  let digits := Nat.toDigits 10 n
  List.replicate (width - digits.length) '0' ++ digits

/-- A year with at least four digits, signed when it lies outside of 0 to 9999. -/
def writeYear (year : Int) : List Char :=
  if year < 0 then '-' :: padded 4 year.natAbs
  else if 9999 < year then '+' :: padded 4 year.natAbs
  else padded 4 year.natAbs

end Calendar

namespace DateTime
open Calendar

/-- The date and time in the extended ISO 8601 form, with a number of decimal places of the second
that cuts the rest off. -/
def writeIso (places : Nat) (moment : DateTime) : List Char :=
  writeYear moment.date.year ++ '-' :: (padded 2 moment.date.month ++ '-' ::
    (padded 2 moment.date.day ++ 'T' :: (padded 2 moment.time.hour ++ ':' ::
      (padded 2 moment.time.minute ++ ':' :: (padded 2 moment.time.shownSecond ++ '.' ::
        (padded places (moment.time.subsecond / Nat.pow 10 (9 - places)) ++ ['Z']))))))

end DateTime
end ResourceQuery
