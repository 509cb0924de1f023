import ResourceQuery.Calendar.Date
import ResourceQuery.Calendar.Reading

/-!
# Dates from fields

A reading determines a date if it has a year and either a month and a day or a day of the year;
what else it says about them must agree. It determines a time of day if it has an hour and a
minute. Weeks, weekdays, quarters, timestamps and offsets decide nothing: no partial format has a
component that asks for one of them.
-/

namespace ResourceQuery.Calendar.Reading
set_option autoImplicit false

/-- The year of a reading, if it says anything about it. A two-digit year alone lies between 1970
and 2069; a century alone is not enough. -/
def year? (reading : Reading) : Except Fault (Option Int) :=
  match reading.value .year, reading.value .century, reading.value .yearOfCentury with
  | some y, none, none => .ok (some y)
  | none, none, none => .ok none
  | some y, century, rest =>
    if y < 0 then .error .impossible
    else if century.getD (y / 100) = y / 100 ∧ rest.getD (y % 100) = y % 100 then .ok (some y)
    else .error .impossible
  | none, some century, some rest => .ok (some (century * 100 + rest))
  | none, none, some rest => .ok (some (if rest < 70 then 2000 + rest else 1900 + rest))
  | none, some _, none => .error .notEnough

/-- What the reading says about a field is this value, if it says anything. -/
def agrees (reading : Reading) (f : Field) (n : Nat) : Bool :=
  (reading.value f).getD n == n

/-- The date a reading determines. -/
def date (reading : Reading) : Except Fault Date := do
  match ← reading.year?, reading.value .month, reading.value .day, reading.value .dayOfYear with
  | some year, some month, some day, _ =>
    match Date.ofDay? year month.toNat day.toNat with
    | none => throw .outOfRange
    | some found =>
      if reading.agrees .dayOfYear found.dayOfYear then return found else throw .impossible
  | some year, _, _, some position =>
    match Date.ofDayOfYear? year position.toNat with
    | none => throw .outOfRange
    | some found =>
      if reading.agrees .month found.month && reading.agrees .day found.day then return found
      else throw .impossible
  | _, _, _, _ => throw .notEnough

/-- The hour of the day, if its half and the hour of the half are known. -/
def hour? (reading : Reading) : Option Int := do
  return (← reading.value .halfDay) * 12 + (← reading.value .hourOfHalf)

/-- The time of day a reading determines. Second 60 is a leap second; decimal places need a
second. -/
def time (reading : Reading) : Except Fault Time := do
  let some hour := reading.hour? | throw .notEnough
  let some minute := reading.value .minute | throw .notEnough
  let second := (reading.value .second).getD 0
  let nanosecond := (reading.value .nanosecond).getD 0
  if (reading.value .nanosecond).isSome && (reading.value .second).isNone then throw .notEnough
  let parts :=
    if second = 60 then Time.ofParts? hour.toNat minute.toNat 59 (nanosecond.toNat + 1000000000)
    else Time.ofParts? hour.toNat minute.toNat second.toNat nanosecond.toNat
  match parts with
  | some found => return found
  | none => throw .outOfRange

/-- The date and time a reading determines. A fault of the date comes before one of the time. -/
def dateTime (reading : Reading) : Except Fault DateTime := do
  return ⟨← reading.date, ← reading.time⟩

end ResourceQuery.Calendar.Reading
