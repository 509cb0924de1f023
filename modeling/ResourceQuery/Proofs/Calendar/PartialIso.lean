import ResourceQuery.Proofs.Calendar.IsoMatching

/-!
# Reading partial ISO texts

A text is matched twice: as it stands, against the components that it supplies, and completed, against
the whole format. Both agree with the description of partial ISO texts, and what is read determines a
moment whenever the calendar has the day.

Main statement: a date is read from exactly the partial ISO texts whose parts exist, and it is the moment
with these parts.
-/

namespace ResourceQuery
set_option autoImplicit false
open Fallible Text Numeral Calendar

namespace IsoParts

variable {parts : IsoParts}

/-! ## The moment -/

theorem monthLength_le (year : Int) (month : Nat) : monthLength year month ≤ 31 := by
  unfold monthLength
  split <;> try decide
  split <;> decide

theorem IsValid.isInRange (valid : parts.IsValid) : parts.IsInRange where
  month := valid.month
  day := ⟨valid.day.1, valid.day.2.trans (monthLength_le _ _)⟩
  hour := Nat.le_of_lt_succ valid.hour
  minute := Nat.le_of_lt_succ valid.minute
  second := valid.second

/-- A reading determines the day if the calendar has it. -/
theorem date_toReading_eq_ok {day : Date} :
    parts.toReading.date = .ok day ↔ Date.ofDay? parts.year parts.month parts.day = some day := by
  have year : parts.toReading.year? = .ok (some (parts.year : Int)) := rfl
  have month : parts.toReading.value .month = some (parts.month : Int) := rfl
  have day : parts.toReading.value .day = some (parts.day : Int) := rfl
  simp only [Reading.date, year, month, day, bind, Except.bind, Int.toNat_natCast]
  cases Date.ofDay? parts.year parts.month parts.day with
  | none => simp
  | some found =>
    have agrees : parts.toReading.agrees .dayOfYear found.dayOfYear = true :=
      beq_self_eq_true (found.dayOfYear : Int)
    simp only [agrees, if_true, pure_eq_ok, Option.some.injEq]

/-- A reading determines the time of day. -/
theorem exists_time_toReading (range : parts.IsInRange) (short : parts.nanosecond < 1000000000) :
    ∃ time : Time, parts.toReading.time = .ok time ∧
      time.hour = parts.hour ∧ time.minute = parts.minute ∧
      time.second = (if parts.second = 60 then 59 else parts.second) ∧
      time.nanosecond =
        if parts.second = 60 then parts.nanosecond + 1000000000 else parts.nanosecond := by
  have hour : parts.toReading.hour? = some (parts.hour : Int) := by
    change some ((parts.hour : Int) / 12 * 12 + (parts.hour : Int) % 12) = _
    rw [Int.ediv_mul_add_emod]
  have minute : parts.toReading.value .minute = some (parts.minute : Int) := rfl
  have second : parts.toReading.value .second = some (parts.second : Int) := rfl
  have nanosecond : parts.toReading.value .nanosecond = some (parts.nanosecond : Int) := rfl
  have hourRange := range.hour
  have minuteRange := range.minute
  have secondRange := range.second
  simp only [Reading.time, hour, minute, second, nanosecond, Option.getD_some, Int.toNat_natCast,
    Option.isSome_some, Option.isNone_some, Bool.and_false, Bool.false_eq_true, if_false, bind,
    Except.bind]
  by_cases leap : parts.second = 60
  · have found : Time.ofParts? parts.hour parts.minute 59 (parts.nanosecond + 1000000000) = some _ :=
      dif_pos ⟨by omega, by omega, by decide, by rw [if_pos rfl]; omega⟩
    simp only [leap, Nat.cast_ofNat, if_true, found]
    exact ⟨_, rfl, rfl, rfl, rfl, rfl⟩
  · have notLeap : ¬ (parts.second : Int) = 60 := by omega
    have found : Time.ofParts? parts.hour parts.minute parts.second parts.nanosecond = some _ :=
      dif_pos ⟨by omega, by omega, by omega, by split <;> omega⟩
    simp only [if_neg leap, if_neg notLeap, found]
    exact ⟨_, rfl, rfl, rfl, rfl, rfl⟩

/-- The calendar has the day exactly if the parts in range exist. -/
theorem ofDay?_eq_some {day : Date} (range : parts.IsInRange) (early : parts.year < 10000) :
    Date.ofDay? parts.year parts.month parts.day = some day ↔
      parts.IsValid ∧ day.year = parts.year ∧ day.month = parts.month ∧ day.day = parts.day := by
  have years : firstYear ≤ (parts.year : Int) ∧ (parts.year : Int) ≤ lastYear := by
    unfold firstYear lastYear
    omega
  obtain ⟨month, -, hour, minute, second⟩ := range
  unfold Date.ofDay?
  split
  · next exists_ =>
    constructor
    · rintro ⟨⟩
      exact ⟨⟨month, exists_.2.2, by omega, by omega, second⟩, rfl, rfl, rfl⟩
    · rintro ⟨-, year, month, day'⟩
      cases day
      simp_all
  · next missing =>
    simp only [reduceCtorEq, false_iff, not_and]
    exact fun valid => absurd ⟨years, month, valid.day⟩ missing

/-- Parts in range determine the moment that has these parts, if they exist. -/
theorem dateTime_toReading_eq_ok {moment : DateTime} (range : parts.IsInRange)
    (early : parts.year < 10000) (short : parts.nanosecond < 1000000000) :
    parts.toReading.dateTime = .ok moment ↔ parts.IsValid ∧ parts.Describes moment := by
  obtain ⟨time, clock, hour, minute, second, nanosecond⟩ := exists_time_toReading range short
  simp only [Reading.dateTime, bind_eq_ok, pure_eq_ok, clock, date_toReading_eq_ok,
    ofDay?_eq_some range early]
  constructor
  · rintro ⟨day, ⟨valid, year, month, dayOfMonth⟩, _, ⟨⟩, rfl⟩
    exact ⟨valid, ⟨year, month, dayOfMonth, hour, minute, second, nanosecond⟩⟩
  · rintro ⟨valid, describes⟩
    refine ⟨moment.date, ⟨valid, describes.year, describes.month, describes.day⟩, time, rfl, ?_⟩
    have same : parts.Describes ⟨moment.date, time⟩ :=
      ⟨describes.year, describes.month, describes.day, hour, minute, second, nanosecond⟩
    exact same.unique describes

/-- Parts that exist are the parts of a moment. -/
theorem IsValid.exists_describes (valid : parts.IsValid) (early : parts.year < 10000)
    (short : parts.nanosecond < 1000000000) : ∃ moment, parts.Describes moment := by
  obtain ⟨time, -, hour, minute, second, nanosecond⟩ := exists_time_toReading valid.isInRange short
  have years : firstYear ≤ (parts.year : Int) ∧ (parts.year : Int) ≤ lastYear := by
    unfold firstYear lastYear
    omega
  exact ⟨⟨⟨parts.year, parts.month, parts.day, years, valid.month, valid.day⟩, time⟩,
    ⟨rfl, rfl, rfl, hour, minute, second, nanosecond⟩⟩

end IsoParts

namespace DateTime
open IsoParts

/-- A partial ISO text is read as the moment with its parts if that exists, and refused if not. -/
theorem parseIso_of_spells {input : String} {parts : IsoParts} {moment : DateTime}
    (spells : Spells input.toList parts) :
    parseIso input = .ok moment ↔ parts.IsValid ∧ parts.Describes moment := by
  have supplies : isoFormat.suppliedCount input.toList ≠ 0 := by
    generalize input.toList = text at spells
    cases spells with
    | numbers isYear few spells =>
      rw [suppliedCount_numbers isYear few spells]
      exact Nat.succ_ne_zero _
    | fraction isYear spells _ all zulu =>
      rw [suppliedCount_fraction isYear spells all zulu]
      split <;> decide
  rw [parseIso, DateFormat.parse_eq_ok]
  constructor
  · rintro ⟨-, -, -, reading, whole, determined⟩
    obtain ⟨range, rfl⟩ := spells.complete.ofText_eq_ok.1 whole
    rcases determined with determined | ⟨⟨fault, failed⟩, day, isDay, -⟩
    · exact (dateTime_toReading_eq_ok range spells.year_lt spells.nanosecond_lt).1 determined
    · -- With a day there is a moment: nothing else can fail for parts in range.
      obtain ⟨valid, -⟩ := (ofDay?_eq_some range spells.year_lt).1 (date_toReading_eq_ok.1 isDay)
      obtain ⟨found, describes⟩ := valid.exists_describes spells.year_lt spells.nanosecond_lt
      have determined := (dateTime_toReading_eq_ok range spells.year_lt spells.nanosecond_lt).2
        ⟨valid, describes⟩
      simp [failed] at determined
  · rintro ⟨valid, describes⟩
    refine ⟨supplies, spells.exists_ofText_front valid.isInRange, fun _ => spells.length_takeWhile, _,
      spells.complete.ofText_eq_ok.2 ⟨valid.isInRange, rfl⟩, .inl ?_⟩
    exact (dateTime_toReading_eq_ok valid.isInRange spells.year_lt spells.nanosecond_lt).2
      ⟨valid, describes⟩

/-- Whatever is read as a date is a partial ISO text, and the moment has its parts. -/
theorem exists_spells_of_parseIso {input : String} {moment : DateTime}
    (read : parseIso input = .ok moment) :
    ∃ parts, Spells input.toList parts ∧ parts.IsValid ∧ parts.Describes moment := by
  obtain ⟨supplies, ⟨_, front⟩, four, -⟩ := DateFormat.parse_eq_ok.1 read
  obtain ⟨parts, spells⟩ := exists_spells (four rfl) supplies front
  exact ⟨parts, spells, (parseIso_of_spells spells).1 read⟩

/-- **Main.** A date is read from exactly the partial ISO texts whose parts exist, and it is the moment with
these parts. -/
theorem parseIso_eq_ok_iff (input : String) :
    ((∃ moment, parseIso input = .ok moment) ↔
      ∃ parts, Spells input.toList parts ∧ parts.IsValid) ∧
    ∀ moment, parseIso input = .ok moment ↔
      ∃ parts, Spells input.toList parts ∧ parts.IsValid ∧ parts.Describes moment := by
  have read (moment : DateTime) : parseIso input = .ok moment ↔
      ∃ parts, Spells input.toList parts ∧ parts.IsValid ∧ parts.Describes moment :=
    ⟨exists_spells_of_parseIso, fun ⟨_, spells, described⟩ => (parseIso_of_spells spells).2 described⟩
  refine ⟨⟨?_, ?_⟩, read⟩
  · rintro ⟨moment, isRead⟩
    obtain ⟨parts, spells, valid, -⟩ := (read moment).1 isRead
    exact ⟨parts, spells, valid⟩
  · rintro ⟨parts, spells, valid⟩
    obtain ⟨moment, describes⟩ := valid.exists_describes spells.year_lt spells.nanosecond_lt
    exact ⟨moment, (read moment).2 ⟨parts, spells, valid, describes⟩⟩

end DateTime
end ResourceQuery
