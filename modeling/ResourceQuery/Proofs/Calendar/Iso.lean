import ResourceQuery.Proofs.Calendar.PartialIso

/-!
# Dates read back

A moment in the years 0 to 9999 with whole microseconds and a time that a clock has reads back as it is
written in the ISO form: its text is a partial ISO text that gives all of its parts.
-/

namespace ResourceQuery.Calendar
set_option autoImplicit false
open Text Numeral

/-! ## Padded numbers -/

section Padded

variable {width n : Nat}

theorem isDigit_padded (width n : Nat) : (padded width n).all Char.isDigit = true := by
  rw [padded, List.all_append, isDigit_zeros, isDigit_toDigits, Bool.and_true]

theorem digitsValue_padded (width n : Nat) : digitsValue (padded width n) = n := by
  rw [padded, digitsValue_zeros, digitsValue_toDigits]

theorem padded_ne_nil (width n : Nat) : padded width n ≠ [] :=
  List.append_ne_nil_of_right_ne_nil _ Nat.toDigits_ne_nil

/-- A number that is not too great has exactly the digits it is padded to. -/
theorem length_padded (positive : 0 < width) (small : n < 10 ^ width) :
    (padded width n).length = width := by
  have fits := (Nat.length_toDigits_le_iff (b := 10) (n := n) (by decide) positive).2 small
  rw [padded, List.length_append, List.length_replicate]
  omega

/-- A number of up to two digits is a short one. -/
theorem isShort_padded (small : n < 100) : IsShort (padded 2 n) n :=
  ⟨[], padded 2 n, rfl, rfl, isDigit_padded 2 n, .inr (length_padded (by decide) small),
    digitsValue_padded 2 n⟩

/-- Six decimal places are microseconds. -/
theorem nanoseconds_padded (small : n < 1000000) : nanoseconds (padded 6 n) = n * 1000 := by
  have length : (padded 6 n).length = 6 := length_padded (by decide) small
  rw [nanoseconds, List.take_of_length_le (by omega), digitsValue_padded, length]
  rfl

end Padded

end ResourceQuery.Calendar

namespace ResourceQuery.Time

/-- A clock has the time of day: a leap second follows second 59 alone. -/
def IsOnClock (time : Time) : Prop :=
  1000000000 ≤ time.nanosecond → time.second = 59

instance (time : Time) : Decidable time.IsOnClock :=
  inferInstanceAs (Decidable (_ → _))

/-- On a clock a second is shown as it is kept, except for a leap second: it is shown as second 60 and kept
as second 59 and a whole second more. -/
theorem shown_cases {time : Time} (onClock : time.IsOnClock) :
    (time.shownSecond < 60 ∧ time.second = time.shownSecond ∧ time.nanosecond = time.subsecond) ∨
      time.shownSecond = 60 ∧ time.second = 59 ∧ time.nanosecond = time.subsecond + 1000000000 := by
  have second := time.second_lt
  have nanosecond := time.nanosecond_lt
  unfold IsOnClock at onClock
  unfold shownSecond subsecond
  omega

end ResourceQuery.Time

namespace ResourceQuery.DateTime
set_option autoImplicit false
open Calendar Text Numeral IsoParts

/-! ## The ISO form -/

/-- The years, times and places that a date in a query can have: four digits of the year, a time that a
clock has, six decimal places of the second. -/
structure IsWritable (moment : DateTime) : Prop where
  year : 0 ≤ moment.date.year ∧ moment.date.year ≤ 9999
  onClock : moment.time.IsOnClock
  places : moment.time.nanosecond % 1000 = 0

/-- The parts of a moment that its text gives. -/
def parts (moment : DateTime) : IsoParts where
  year := moment.date.year.natAbs
  month := moment.date.month
  day := moment.date.day
  hour := moment.time.hour
  minute := moment.time.minute
  second := moment.time.shownSecond
  nanosecond := moment.time.subsecond

variable {moment : DateTime}

theorem writeYear_eq (writable : moment.IsWritable) :
    writeYear moment.date.year = padded 4 moment.date.year.natAbs := by
  obtain ⟨⟨least, greatest⟩, -, -⟩ := writable
  rw [writeYear, if_neg (by omega), if_neg (by omega)]

/-- The text of a moment gives its parts. -/
theorem spells_writeIso (writable : moment.IsWritable) : Spells (moment.writeIso 6) moment.parts := by
  have written := writeYear_eq writable
  obtain ⟨⟨least, greatest⟩, onClock, places⟩ := writable
  have month := moment.date.month_range
  have day := moment.date.day_range.2.trans (monthLength_le _ _)
  have hour := moment.time.hour_lt
  have minute := moment.time.minute_lt
  have second := Time.shown_cases onClock
  have isYear : IsYear (padded 4 moment.date.year.natAbs) :=
    ⟨length_padded (by decide) (by omega), isDigit_padded _ _⟩
  have row : SpellsNumbers signs _ [_, _, _, _, _] :=
    .cons (isShort_padded (n := moment.date.month) (by omega)) <|
    .cons (isShort_padded (n := moment.date.day) (by omega)) <|
    .cons (isShort_padded (n := moment.time.hour) (by omega)) <|
    .cons (isShort_padded (n := moment.time.minute) (by omega)) <|
    .cons (isShort_padded (n := moment.time.shownSecond) (by omega)) .nil
  have decimals : nanoseconds (padded 6 (moment.time.subsecond / Nat.pow 10 (9 - 6))) =
      moment.time.subsecond := by
    have thousand : Nat.pow 10 (9 - 6) = 1000 := rfl
    rw [thousand, Time.subsecond, nanoseconds_padded (by omega)]
    omega
  have spells := Spells.fraction isYear row (padded_ne_nil 6 (moment.time.subsecond / Nat.pow 10 (9 - 6)))
    (isDigit_padded 6 _) (.inr rfl)
  rw [digitsValue_padded, decimals] at spells
  simp only [List.cons_append, List.append_assoc, List.append_nil] at spells
  rw [writeIso, written]
  exact spells

/-- The parts of a moment exist. -/
theorem isValid_parts (writable : moment.IsWritable) : moment.parts.IsValid where
  month := moment.date.month_range
  day := by
    have year : (moment.date.year.natAbs : Int) = moment.date.year := by
      have range := writable.year
      omega
    rw [parts, year]
    exact moment.date.day_range
  hour := moment.time.hour_lt
  minute := moment.time.minute_lt
  second := by
    rcases Time.shown_cases writable.onClock with ⟨shown, -⟩ | ⟨shown, -⟩
    · exact Nat.le_of_lt shown
    · exact Nat.le_of_eq shown

theorem describes_parts (writable : moment.IsWritable) : moment.parts.Describes moment := by
  have year : moment.date.year = moment.date.year.natAbs := by
    have range := writable.year
    omega
  rcases Time.shown_cases writable.onClock with ⟨shown, second, nanosecond⟩ | ⟨shown, second, nanosecond⟩
  · have notLeap : moment.parts.second ≠ 60 := Nat.ne_of_lt shown
    exact ⟨year, rfl, rfl, rfl, rfl, (if_neg notLeap).symm ▸ second, (if_neg notLeap).symm ▸ nanosecond⟩
  · have leap : moment.parts.second = 60 := shown
    exact ⟨year, rfl, rfl, rfl, rfl, (if_pos leap).symm ▸ second, (if_pos leap).symm ▸ nanosecond⟩

/-- **Main.** A moment reads back as it is written. -/
theorem parseIso_writeIso (writable : moment.IsWritable) :
    parseIso (String.ofList (moment.writeIso 6)) = .ok moment := by
  refine (@parseIso_of_spells _ moment.parts moment ?_).2
    ⟨isValid_parts writable, describes_parts writable⟩
  rw [String.toList_ofList]
  exact spells_writeIso writable

/-! ## Other readers -/

/-- A moment is written with a year, a hyphen and more, in characters of its own. -/
theorem exists_writeIso_eq (writable : moment.IsWritable) :
    ∃ rest, moment.writeIso 6 = padded 4 moment.date.year.natAbs ++ '-' :: rest ∧
      ∀ c ∈ moment.writeIso 6, c.isDigit = true ∨ c ∈ ['-', 'T', ':', '.', 'Z'] := by
  refine ⟨_, by rw [writeIso, writeYear_eq writable], ?_⟩
  intro c mem
  rw [writeIso, writeYear_eq writable] at mem
  have digit : ∀ width n, c ∈ padded width n → c.isDigit = true := fun width n =>
    List.all_eq_true.1 (isDigit_padded width n) c
  grind

/-- The text of a moment is no number. -/
theorem readInteger?_writeIso (writable : moment.IsWritable) :
    readInteger? (moment.writeIso 6) = none ∧ read? (moment.writeIso 6) = none := by
  obtain ⟨rest, same, -⟩ := exists_writeIso_eq writable
  have digits := isDigit_padded 4 moment.date.year.natAbs
  have sign : Numeral.takeSign (moment.writeIso 6) =
      (false, padded 4 moment.date.year.natAbs ++ '-' :: rest) := by
    rw [same]
    refine takeSign_of_digit ?_
    obtain ⟨c, cs, first⟩ := List.exists_cons_of_ne_nil (padded_ne_nil 4 moment.date.year.natAbs)
    rw [first] at digits ⊢
    rintro d ⟨⟩
    exact isDigit_head digits c rfl
  exact ⟨readInteger?_eq_none sign (List.mem_append_right _ List.mem_cons_self) rfl,
    read?_eq_none sign digits rfl (by decide)⟩

end ResourceQuery.DateTime
