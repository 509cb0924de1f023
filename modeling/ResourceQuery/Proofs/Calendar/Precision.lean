import ResourceQuery.Proofs.Calendar.Iso

/-!
# How exact dates are

A moment read from an ISO text has a year of four digits and a time that a clock has, and nanoseconds that a
query cannot be written with. `toMicroseconds` cuts them off, which no text of the moment shows. Other moments
may be kept with a leap second behind any second: their texts show the second after it, which is that of
`asShown`.

Main statement: two moments have the same text exactly when they are shown as the same up to the places of the
second that it has.
-/

namespace ResourceQuery
set_option autoImplicit false
open Calendar Fallible Numeral Text

/-- A moment that is read lies in a year of four digits, and its time is on the clock. -/
theorem DateTime.range_of_parseIso {input : String} {moment : DateTime} (read : parseIso input = .ok moment) :
    (0 ≤ moment.date.year ∧ moment.date.year ≤ 9999) ∧ moment.time.IsOnClock := by
  obtain ⟨parts, spells, -, describes⟩ := exists_spells_of_parseIso read
  have early := spells.year_lt
  have short := spells.nanosecond_lt
  rw [describes.year, Time.IsOnClock, describes.second, describes.nanosecond]
  refine ⟨by omega, fun whole => if_pos ?_⟩
  by_contra notLeap
  rw [if_neg notLeap] at whole
  omega

namespace Time

variable (time : Time)

/-! ## Places of the second -/

/-- The time with no more than this many decimal places of the second. -/
def toPlaces (places : Nat) (time : Time) : Time where
  hour := time.hour
  minute := time.minute
  second := time.second
  nanosecond := time.nanosecond / 10 ^ (9 - places) * 10 ^ (9 - places)
  hour_lt := time.hour_lt
  minute_lt := time.minute_lt
  second_lt := time.second_lt
  nanosecond_lt := Nat.lt_of_le_of_lt (Nat.div_mul_le_self _ _) time.nanosecond_lt

variable {time} in
theorem IsOnClock.toPlaces (onClock : time.IsOnClock) (places : Nat) : (time.toPlaces places).IsOnClock :=
  fun whole => onClock (Nat.le_trans whole (Nat.div_mul_le_self _ _))

/-! ## Seconds that are shown -/

/-- The time on the clock that is shown for a time of day: a leap second behind a second other than 59 counts
as the second after it. -/
def asShown : Time :=
  if early : time.second < 59 ∧ 1000000000 ≤ time.nanosecond then
    { time with
      second := time.second + 1
      nanosecond := time.nanosecond - 1000000000
      second_lt := Nat.succ_lt_succ early.1
      nanosecond_lt := Nat.lt_of_le_of_lt (Nat.sub_le _ _) time.nanosecond_lt }
  else time

@[simp] theorem hour_asShown : time.asShown.hour = time.hour := by
  unfold asShown
  split <;> rfl

@[simp] theorem minute_asShown : time.asShown.minute = time.minute := by
  unfold asShown
  split <;> rfl

@[simp] theorem shownSecond_asShown : time.asShown.shownSecond = time.shownSecond := by
  unfold asShown
  split
  · next early =>
    simp only [shownSecond]
    omega
  · rfl

@[simp] theorem subsecond_asShown : time.asShown.subsecond = time.subsecond := by
  unfold asShown
  split
  · next early =>
    simp only [subsecond]
    omega
  · rfl

theorem isOnClock_asShown : time.asShown.IsOnClock := by
  have second := time.second_lt
  have nanosecond := time.nanosecond_lt
  unfold asShown IsOnClock
  split
  · next early =>
    intro whole
    simp only at whole
    omega
  · next late =>
    intro whole
    omega

/-- The times that are shown as they are kept are those on the clock. -/
theorem asShown_eq_self_iff : time.asShown = time ↔ time.IsOnClock := by
  constructor
  · intro same
    exact same ▸ time.isOnClock_asShown
  · intro onClock
    refine dif_neg fun ⟨early, whole⟩ => ?_
    exact absurd (onClock whole) (Nat.ne_of_lt early)

end Time

/-- What is left of a number in whole units has as many whole multiples of the unit as the number. -/
theorem div_of_dvd {unit n m : Nat} (positive : 0 < unit) (multiple : unit ∣ m) :
    n / unit * unit / m = n / m := by
  obtain ⟨count, rfl⟩ := multiple
  rw [← Nat.div_div_eq_div_mul, ← Nat.div_div_eq_div_mul, Nat.mul_div_cancel _ positive]

namespace DateTime

/-- The moment with no more than this many decimal places of the second. -/
def toPlaces (places : Nat) (moment : DateTime) : DateTime :=
  ⟨moment.date, moment.time.toPlaces places⟩

/-- The moment with whole microseconds. -/
def toMicroseconds (moment : DateTime) : DateTime :=
  moment.toPlaces 6

/-- The moment on the clock that is shown for a moment. -/
def asShown (moment : DateTime) : DateTime :=
  ⟨moment.date, moment.time.asShown⟩

/-- A change of moments that no text with so many places of the second shows. -/
def IsHidden (places : Nat) (f : DateTime → DateTime) : Prop :=
  ∀ moment, (f moment).writeIso places = moment.writeIso places

/-- Places of the second that are cut off do not show in a text with fewer of them. -/
theorem writeIso_toPlaces {places kept : Nat} (few : places ≤ kept) (moment : DateTime) :
    (moment.toPlaces kept).writeIso places = moment.writeIso places := by
  have positive : 0 < 10 ^ (9 - kept) := Nat.pow_pos (by decide)
  have second : (moment.time.toPlaces kept).shownSecond = moment.time.shownSecond := by
    have whole : 10 ^ (9 - kept) ∣ 1000000000 := Nat.pow_dvd_pow 10 (Nat.sub_le 9 kept)
    simp only [Time.shownSecond, Time.toPlaces, div_of_dvd positive whole]
  have subsecond : (moment.time.toPlaces kept).subsecond / 10 ^ (9 - places) =
      moment.time.subsecond / 10 ^ (9 - places) := by
    obtain ⟨count, whole⟩ : 10 ^ (9 - places) ∣ 1000000000 := Nat.pow_dvd_pow 10 (Nat.sub_le 9 places)
    have fewer : 10 ^ (9 - kept) ∣ 10 ^ (9 - places) := Nat.pow_dvd_pow 10 (by omega)
    simp only [Time.subsecond, Time.toPlaces, whole, Nat.mod_mul_right_div_self,
      div_of_dvd positive fewer]
  simp only [writeIso, toPlaces, second, Nat.pow_eq, subsecond]
  rfl

/-- What is below the microsecond shows in no text with six places of the second. -/
theorem isHidden_toMicroseconds {places : Nat} (few : places ≤ 6) : IsHidden places toMicroseconds :=
  writeIso_toPlaces few

theorem writeIso_asShown (places : Nat) (moment : DateTime) :
    moment.asShown.writeIso places = moment.writeIso places := by
  simp only [writeIso, asShown, Time.hour_asShown, Time.minute_asShown, Time.shownSecond_asShown,
    Time.subsecond_asShown]

theorem asShown_eq_self_iff {moment : DateTime} : moment.asShown = moment ↔ moment.time.IsOnClock := by
  rw [← Time.asShown_eq_self_iff]
  exact ⟨congrArg time, fun same => by rw [asShown, same]⟩

/-- A moment that was read can be written once its microseconds are whole. -/
theorem isWritable_toMicroseconds {input : String} {moment : DateTime}
    (read : parseIso input = .ok moment) : moment.toMicroseconds.IsWritable := by
  obtain ⟨year, onClock⟩ := range_of_parseIso read
  exact ⟨year, onClock.toPlaces 6, Nat.mul_mod_left _ _⟩

/-- A moment in a year of four digits with whole microseconds can be written as it is shown. -/
theorem isWritable_asShown {moment : DateTime} (year : 0 ≤ moment.date.year ∧ moment.date.year ≤ 9999)
    (places : moment.time.nanosecond % 1000 = 0) : moment.asShown.IsWritable := by
  refine ⟨year, moment.time.isOnClock_asShown, ?_⟩
  unfold asShown Time.asShown
  split
  · next early =>
    simp only
    omega
  · exact places

/-! ## What a text shows -/

/-- Where no digit follows, a padded number is found at the start of a text, whatever its width. -/
theorem padded_append_inj {width n m : Nat} {c d : Char} {rest rest' : List Char}
    (ends : c.isDigit = false) (ends' : d.isDigit = false)
    (same : padded width n ++ c :: rest = padded width m ++ d :: rest') : n = m ∧ rest = rest' := by
  have stops {c : Char} (ends : c.isDigit = false) (rest : List Char) :
      ∀ d ∈ (c :: rest).head?, d.isDigit = false := by
    rintro d ⟨⟩
    exact ends
  obtain ⟨taken, left⟩ := takeWhile_append_of_all (isDigit_padded width n) (stops ends rest)
  obtain ⟨taken', left'⟩ := takeWhile_append_of_all (isDigit_padded width m) (stops ends' rest')
  rw [same, taken'] at taken
  rw [same, left'] at left
  have values := congrArg digitsValue taken
  rw [digitsValue_padded, digitsValue_padded] at values
  exact ⟨values.symm, (List.cons.inj left).2.symm⟩

/-- The sign of a year. -/
def yearSign (year : Int) : List Char :=
  if year < 0 then ['-'] else if 9999 < year then ['+'] else []

theorem writeYear_eq_append (year : Int) : writeYear year = yearSign year ++ padded 4 year.natAbs := by
  unfold writeYear yearSign
  split_ifs <;> rfl

/-- The sign of a year ends where its digits begin. -/
theorem takeWhile_writeYear (year : Int) (rest : List Char) :
    (writeYear year ++ rest).takeWhile (fun c => !c.isDigit) = yearSign year ∧
      (writeYear year ++ rest).dropWhile (fun c => !c.isDigit) = padded 4 year.natAbs ++ rest := by
  have sign : (yearSign year).all (fun c => !c.isDigit) = true := by
    unfold yearSign
    split_ifs <;> rfl
  have digits : ∀ c ∈ (padded 4 year.natAbs ++ rest).head?, (!c.isDigit) = false := by
    obtain ⟨c, cs, opens⟩ := List.exists_cons_of_ne_nil (padded_ne_nil 4 year.natAbs)
    have isDigit := isDigit_padded 4 year.natAbs
    rw [opens] at isDigit ⊢
    rintro d ⟨⟩
    rw [isDigit_head isDigit c rfl]
    rfl
  rw [writeYear_eq_append, List.append_assoc]
  exact takeWhile_append_of_all sign digits

/-- A year is found at the start of a text, with its sign. -/
theorem writeYear_append_inj {year year' : Int} {rest rest' : List Char}
    (same : writeYear year ++ '-' :: rest = writeYear year' ++ '-' :: rest') :
    year = year' ∧ rest = rest' := by
  obtain ⟨sign, number⟩ := takeWhile_writeYear year ('-' :: rest)
  obtain ⟨sign', number'⟩ := takeWhile_writeYear year' ('-' :: rest')
  rw [same, sign'] at sign
  rw [same, number'] at number
  obtain ⟨sameNumber, sameRest⟩ := padded_append_inj rfl rfl number
  refine ⟨?_, sameRest.symm⟩
  unfold yearSign at sign
  split_ifs at sign <;> first | omega | simp at sign

/-- On a clock the shown second and its places tell the second and the nanoseconds, leap seconds included. -/
theorem nanosecond_of_shown {places : Nat} {a b : Time} (onClock : a.IsOnClock) (onClock' : b.IsOnClock)
    (second : a.shownSecond = b.shownSecond)
    (subsecond : a.subsecond / 10 ^ (9 - places) = b.subsecond / 10 ^ (9 - places)) :
    a.second = b.second ∧ a.nanosecond / 10 ^ (9 - places) = b.nanosecond / 10 ^ (9 - places) := by
  have whole : 10 ^ (9 - places) ∣ 1000000000 := Nat.pow_dvd_pow 10 (Nat.sub_le 9 places)
  have later (n : Nat) : (n + 1000000000) / 10 ^ (9 - places) =
      n / 10 ^ (9 - places) + 1000000000 / 10 ^ (9 - places) := Nat.add_div_of_dvd_left whole
  rcases Time.shown_cases onClock with ⟨shown, kept, nanosecond⟩ | ⟨shown, kept, nanosecond⟩ <;>
    rcases Time.shown_cases onClock' with ⟨shown', kept', nanosecond'⟩ | ⟨shown', kept', nanosecond'⟩
  · exact ⟨by omega, by rw [nanosecond, nanosecond', subsecond]⟩
  · omega
  · omega
  · refine ⟨by omega, ?_⟩
    rw [nanosecond, nanosecond', later a.subsecond, later b.subsecond, subsecond]

/-- Moments on the clock with one text are the same up to its places of the second. -/
theorem toPlaces_eq_of_writeIso {places : Nat} {a b : DateTime} (onClock : a.time.IsOnClock)
    (onClock' : b.time.IsOnClock) (same : a.writeIso places = b.writeIso places) :
    a.toPlaces places = b.toPlaces places := by
  obtain ⟨year, same⟩ := writeYear_append_inj same
  obtain ⟨month, same⟩ := padded_append_inj rfl rfl same
  obtain ⟨day, same⟩ := padded_append_inj rfl rfl same
  obtain ⟨hour, same⟩ := padded_append_inj rfl rfl same
  obtain ⟨minute, same⟩ := padded_append_inj rfl rfl same
  obtain ⟨shown, same⟩ := padded_append_inj rfl rfl same
  obtain ⟨subsecond, -⟩ := padded_append_inj rfl rfl same
  obtain ⟨second, nanosecond⟩ := nanosecond_of_shown onClock onClock' shown subsecond
  obtain ⟨⟨_, _, _, _, _, _⟩, time⟩ := a
  obtain ⟨⟨_, _, _, _, _, _⟩, time'⟩ := b
  simp only [toPlaces, Time.toPlaces, mk.injEq, Date.mk.injEq, Time.mk.injEq, nanosecond, and_true]
  exact ⟨⟨year, month, day⟩, hour, minute, second⟩

/-- A text with some places of the second shows the moment on the clock with so many places, and nothing
else. -/
theorem writeIso_eq_iff {places : Nat} {a b : DateTime} : a.writeIso places = b.writeIso places ↔
    a.asShown.toPlaces places = b.asShown.toPlaces places := by
  rw [← writeIso_asShown places a, ← writeIso_asShown places b]
  constructor
  · exact toPlaces_eq_of_writeIso a.time.isOnClock_asShown b.time.isOnClock_asShown
  · intro same
    rw [← writeIso_toPlaces (Nat.le_refl places) a.asShown, same,
      writeIso_toPlaces (Nat.le_refl places)]

end DateTime
end ResourceQuery
