import ResourceQuery.Proofs.Calendar.Recording

/-!
# What readings determine

The date that a reading determines shows whatever the reading says about a date. So does a time of day, and
there is one exactly if the reading has an hour, a minute, and a second if it has decimal places.
-/

namespace ResourceQuery
set_option autoImplicit false
open Calendar Fallible

/-! ## Dates and times of day -/

/-- What a day has as the value of a quantity. -/
def Date.shows (day : Date) : Quantity → Option Int
  | .value .year => some day.year
  | .value .century => some (day.year / 100)
  | .value .yearOfCentury => some (day.year % 100)
  | .value .month => some day.month
  | .value .day => some day.day
  | .value .dayOfYear => some day.dayOfYear
  | _ => none

/-- What a time of day has as the value of a quantity. -/
def Time.shows (time : Time) : Quantity → Option Int
  | .hour => some time.hour
  | .value .minute => some time.minute
  | .value .second => some time.shownSecond
  | .value .nanosecond => some time.subsecond
  | _ => none

namespace Date

variable {year : Int} {month day position : Nat} {found : Date}

theorem of_ofDay? (isDay : ofDay? year month day = some found) :
    found.year = year ∧ found.month = month ∧ found.day = day := by
  unfold ofDay? at isDay
  split at isDay
  · obtain rfl := Option.some.inj isDay
    exact ⟨rfl, rfl, rfl⟩
  · simp at isDay

/-- A day that is found by its position in the year is at that position. -/
theorem of_ofDayOfYear? (isDay : ofDayOfYear? year position = some found) :
    found.year = year ∧ found.dayOfYear = position := by
  obtain ⟨rfl, month, day⟩ := of_ofDay? isDay
  have first := found.day_range.1
  refine ⟨rfl, ?_⟩
  rw [dayOfYear, month]
  omega

end Date

theorem Time.exists_of_ofParts? {hour minute second nanosecond : Int} (hours : 0 ≤ hour ∧ hour < 24)
    (minutes : 0 ≤ minute ∧ minute < 60) (seconds : 0 ≤ second ∧ second ≤ 60)
    (nanoseconds : 0 ≤ nanosecond ∧ nanosecond < 1000000000) :
    ∃ time : Time,
      (if second = 60 then ofParts? hour.toNat minute.toNat 59 (nanosecond.toNat + 1000000000)
        else ofParts? hour.toNat minute.toNat second.toNat nanosecond.toNat) = some time ∧
      (time.hour : Int) = hour ∧ (time.minute : Int) = minute ∧ (time.shownSecond : Int) = second ∧
      (time.subsecond : Int) = nanosecond := by
  split
  · refine ⟨_, dif_pos ⟨by omega, by omega, by decide, by rw [if_pos rfl]; omega⟩, ?_⟩
    simp only [shownSecond, subsecond]
    omega
  · refine ⟨_, dif_pos ⟨by omega, by omega, by omega, by split <;> omega⟩, ?_⟩
    simp only [shownSecond, subsecond]
    omega

namespace Calendar

/-- The quantity is part of a date. -/
def Quantity.isOfDate : Quantity → Bool
  | .value .year | .value .century | .value .yearOfCentury | .value .month | .value .day
  | .value .dayOfYear => true
  | _ => false

/-- The quantity is part of a time of day. -/
def Quantity.isOfTime : Quantity → Bool
  | .hour | .value .minute | .value .second | .value .nanosecond => true
  | _ => false

end Calendar

/-- All parts of midnight are zero. -/
theorem Time.shows_midnight {q : Quantity} (isOfTime : q.isOfTime = true) : midnight.shows q = some 0 := by
  unfold Quantity.isOfTime at isOfTime
  split at isOfTime <;> first | rfl | simp at isOfTime

namespace Calendar
namespace Reading

variable {reading : Reading} {said : List (Quantity × Int)} {q : Quantity} {n : Int} {day : Date}

/-- What a reading says about a quantity. -/
def quantity? (reading : Reading) : Quantity → Option Int
  | .value f => reading.value f
  | .hour => reading.hour?
  | _ => none

/-- A reading says the numbers that have been recorded in it. -/
theorem Holds.quantity?_of_mem (holds : reading.Holds said) (mem : (q, n) ∈ said)
    (known : q.isOfDate = true ∨ q.isOfTime = true) : reading.quantity? q = some n := by
  have value {f : Field} {m : Int} (stands : (f, m) ∈ q.values n) : reading.value f = some m :=
    (holds.value f m).2 ⟨q, n, mem, stands⟩
  cases q with
  | value f => exact value List.mem_cons_self
  | hour =>
    have half : reading.value .halfDay = some (n / 12) := value List.mem_cons_self
    have hour : reading.value .hourOfHalf = some (n % 12) := value (List.mem_cons_of_mem _ List.mem_cons_self)
    rw [quantity?, hour?, half, hour]
    exact congrArg some (Int.ediv_mul_add_emod n 12)
  | clockHour | weekdayFromSunday | weekdayFromMonday => simp [Quantity.isOfDate, Quantity.isOfTime] at known

/-! ## The date -/

/-- The year of a reading is in its century and has its place there. -/
theorem year?_spec (range : reading.IsInRange) {year : Int} (found : reading.year? = .ok (some year)) :
    (∀ n, reading.value .year = some n → year = n) ∧
      (∀ n, reading.value .century = some n → year / 100 = n) ∧
      ∀ n, reading.value .yearOfCentury = some n → year % 100 = n := by
  have century := range .century
  have rest := range .yearOfCentury
  simp only [Field.range] at century rest
  unfold year? at found
  split at found <;> simp_all <;> grind

theorem agrees_spec {f : Field} {value : Nat} (agrees : reading.agrees f value = true)
    (n : Int) (said : reading.value f = some n) : (value : Int) = n := by
  rw [Reading.agrees, said, Option.getD_some, beq_iff_eq] at agrees
  exact agrees.symm

/-- The date that a reading determines has the values that the reading has. -/
theorem date_spec (range : reading.IsInRange) (found : reading.date = .ok day) :
    reading.year? = .ok (some day.year) ∧ (∀ n, reading.value .month = some n → (day.month : Int) = n) ∧
      (∀ n, reading.value .day = some n → (day.day : Int) = n) ∧
      ∀ n, reading.value .dayOfYear = some n → (day.dayOfYear : Int) = n := by
  obtain ⟨year?, isYear, found⟩ := bind_eq_ok.1 found
  split at found
  · next year month dayOfMonth _ isMonth isDay =>
    have monthRange := range _ _ isMonth
    have dayRange := range _ _ isDay
    simp only [Field.range] at monthRange dayRange
    split at found
    · simp at found
    next found' isDate =>
    split at found
    · next agrees =>
      obtain rfl := pure_eq_ok.1 found
      obtain ⟨rfl, month, day⟩ := Date.of_ofDay? isDate
      refine ⟨isYear, fun n said => ?_, fun n said => ?_, agrees_spec agrees⟩
      · obtain rfl := Option.some.inj (isMonth.symm.trans said)
        omega
      · obtain rfl := Option.some.inj (isDay.symm.trans said)
        omega
    · simp at found
  · next year _ _ position isPosition _ =>
    have positionRange := range _ _ isPosition
    simp only [Field.range] at positionRange
    split at found
    · simp at found
    next found' isDate =>
    split at found
    · next agrees =>
      obtain rfl := pure_eq_ok.1 found
      obtain ⟨rfl, dayOfYear⟩ := Date.of_ofDayOfYear? isDate
      rw [Bool.and_eq_true] at agrees
      refine ⟨isYear, agrees_spec agrees.1, agrees_spec agrees.2, fun n said => ?_⟩
      obtain rfl := Option.some.inj (isPosition.symm.trans said)
      omega
    · simp at found
  · simp at found

/-- A date shows whatever the reading that determines it says about a date. -/
theorem shows_of_date (range : reading.IsInRange) (found : reading.date = .ok day)
    (isOfDate : q.isOfDate = true) (said : reading.quantity? q = some n) : day.shows q = some n := by
  obtain ⟨year, month, dayOfMonth, dayOfYear⟩ := date_spec range found
  obtain ⟨whole, century, rest⟩ := year?_spec range year
  unfold Quantity.isOfDate at isOfDate
  split at isOfDate
  · exact congrArg some (whole n said)
  · exact congrArg some (century n said)
  · exact congrArg some (rest n said)
  · exact congrArg some (month n said)
  · exact congrArg some (dayOfMonth n said)
  · exact congrArg some (dayOfYear n said)
  · simp at isOfDate

/-! ## The time of day -/

/-- The reading has an hour and a minute, and a second if it has decimal places. -/
def tellsTime (reading : Reading) : Prop :=
  reading.hour?.isSome = true ∧ (reading.value .minute).isSome = true ∧
    ((reading.value .nanosecond).isSome = true → (reading.value .second).isSome = true)

theorem hour?_range (range : reading.IsInRange) {hour : Int} (found : reading.hour? = some hour) :
    0 ≤ hour ∧ hour < 24 := by
  simp only [hour?, Option.bind_eq_bind, Option.bind_eq_some_iff] at found
  obtain ⟨half, isHalf, hourOfHalf, isHour, same⟩ := found
  have halfRange := range _ _ isHalf
  have hourRange := range _ _ isHour
  simp only [Field.range] at halfRange hourRange
  have total : half * 12 + hourOfHalf = hour := Option.some.inj same
  omega

/-- A time of day shows whatever the reading that determines it says about a time. -/
theorem exists_time (range : reading.IsInRange) (tells : reading.tellsTime) :
    ∃ time, reading.time = .ok time ∧
      ∀ q n, q.isOfTime = true → reading.quantity? q = some n → time.shows q = some n := by
  obtain ⟨isHour, isMinute, isSecond⟩ := tells
  obtain ⟨hour, isHour⟩ := Option.isSome_iff_exists.1 isHour
  obtain ⟨minute, isMinute⟩ := Option.isSome_iff_exists.1 isMinute
  have minutes : 0 ≤ minute ∧ minute < 60 := by
    have inside := range _ _ isMinute
    simp only [Field.range] at inside
    omega
  have seconds : 0 ≤ (reading.value .second).getD 0 ∧ (reading.value .second).getD 0 ≤ 60 := by
    cases said : reading.value .second with
    | none => decide
    | some second => exact range _ _ said
  have nanoseconds : 0 ≤ (reading.value .nanosecond).getD 0 ∧
      (reading.value .nanosecond).getD 0 < 1000000000 := by
    cases said : reading.value .nanosecond with
    | none => decide
    | some nanosecond =>
      have inside := range _ _ said
      simp only [Field.range] at inside
      simp only [Option.getD_some]
      omega
  have complete : ((reading.value .nanosecond).isSome && (reading.value .second).isNone) = false := by
    rw [Bool.and_eq_false_imp]
    intro decimals
    rw [← Option.not_isSome, isSecond decimals]
    rfl
  obtain ⟨time, found, isHour', isMinute', isSecond', isNanosecond⟩ :=
    Time.exists_of_ofParts? (hour?_range range isHour) minutes seconds nanoseconds
  refine ⟨time, ?_, fun q n isOfTime said => ?_⟩
  · simp only [Reading.time, isHour, isMinute, complete, found]
    rfl
  · unfold Quantity.isOfTime at isOfTime
    split at isOfTime
    · rw [Time.shows, isHour', ← isHour, ← said]
      rfl
    · rw [Time.shows, isMinute', ← isMinute, ← said]
      rfl
    · have second : reading.value .second = some n := said
      rw [Time.shows, isSecond', second, Option.getD_some]
    · have nanosecond : reading.value .nanosecond = some n := said
      rw [Time.shows, isNanosecond, nanosecond, Option.getD_some]
    · simp at isOfTime

/-- Nothing less determines a time of day. -/
theorem tellsTime_of_time {time : Time} (found : reading.time = .ok time) : reading.tellsTime := by
  unfold Reading.time at found
  split at found
  swap
  · simp at found
  next hour isHour =>
  split at found
  swap
  · simp at found
  next minute isMinute =>
  obtain ⟨complete, -⟩ := guard_eq_ok.1 found
  refine ⟨by rw [isHour]; rfl, by rw [isMinute]; rfl, fun decimals => ?_⟩
  simpa [decimals, Option.isSome_iff_ne_none] using complete

end Reading
end Calendar
end ResourceQuery
