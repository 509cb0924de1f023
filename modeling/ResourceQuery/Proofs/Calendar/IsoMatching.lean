import ResourceQuery.Proofs.Calendar.IsoTexts

/-!
# Matching partial ISO texts

The first components of the ISO format match a text that opens with a year exactly if it is a partial ISO
text with as many parts, and every number is in the range of its field. What such a text says about a
moment is `toReading` of its parts.
-/

namespace ResourceQuery.IsoParts
set_option autoImplicit false
open Fallible Text Numeral Calendar

variable {parts : IsoParts} {text year row rest digits : List Char} {numbers : List Nat} {count : Nat}
  {reading next : Reading}

/-! ## The format -/

/-- The signs with the numbers behind them. -/
def steps : List Step :=
  [('-', .value .month), ('-', .value .day), ('T', .hour), (':', .value .minute), (':', .value .second)]

theorem areShort_steps : AreShort steps := by
  unfold AreShort
  decide

theorem areShort_take (count : Nat) : AreShort (steps.take count) := fun step mem =>
  areShort_steps step (List.mem_of_mem_take mem)

theorem map_take_steps (count : Nat) : (steps.take count).map Prod.fst = signs.take count :=
  List.map_take

/-- What the first components of the format match: a year and numbers. -/
theorem ofText_front_numbers : ∀ count ≤ 5,
    Item.ofText (DateTime.isoFormat.front (count + 1)) = .field .year :: numberItems (steps.take count) := by
  decide +kernel

theorem ofText_front_fraction :
    Item.ofText (DateTime.isoFormat.front 7) = .field .year :: (numberItems steps ++ [.fraction]) := by
  decide +kernel

theorem ofText_text : Item.ofText DateTime.isoFormat.text =
    .field .year :: (numberItems steps ++ [.fraction, .sign 'Z']) := by
  decide +kernel

theorem ofText_front_text : Item.ofText (DateTime.isoFormat.front 8) =
    .field .year :: (numberItems steps ++ [.fraction, .sign 'Z']) :=
  ofText_text

/-! ## The year -/

/-- A year is matched by its four digits. -/
theorem take_year (isYear : IsYear year) (ends : EndsDigits rest) :
    (Item.field .year).take .empty (year ++ rest) =
      .ok (Reading.empty.given .year (digitsValue year), rest) := by
  have small := digitsValue_lt isYear.2
  rw [isYear.1] at small
  have range : Field.year.range.1 ≤ (digitsValue year : Int) ∧
      (digitsValue year : Int) ≤ Field.year.range.2 := by
    simp only [Field.range]
    omega
  have length := isYear.1
  have taken : (Quantity.value .year).take (year ++ rest) = .ok ((digitsValue year : Int), rest) :=
    Quantity.take_digits rfl isYear.2 isYear.ne_nil (by omega) (by omega) ends
  have recorded : Reading.empty.record (.value .year) (digitsValue year) =
      .ok (Reading.empty.given .year (digitsValue year)) :=
    (Reading.record_value_eq_ok rfl).2 ⟨range, rfl⟩
  simp only [Item.field, Item.take, taken, recorded, bind, Except.bind]
  rfl

/-- A text with a year is matched by what matches the rest behind it. -/
theorem takeItems_year {items : List Item} (isYear : IsYear year) (ends : EndsDigits rest) :
    Reading.takeItems (.field .year :: items) .empty (year ++ rest) =
      Reading.takeItems items (Reading.empty.given .year (digitsValue year)) rest :=
  Reading.takeItems_cons (take_year isYear ends)

/-! ## Matching -/

/-- The parts that are numbers behind a sign. -/
def toNumbers (parts : IsoParts) : List Nat :=
  [parts.month, parts.day, parts.hour, parts.minute, parts.second]

/-- What year and numbers say about a moment. -/
def recorded (parts : IsoParts) : Reading :=
  ((((((Reading.empty.given .year parts.year).given .month parts.month).given .day parts.day).given
    .halfDay ((parts.hour : Int) / 12)).given .hourOfHalf ((parts.hour : Int) % 12)).given .minute
    parts.minute).given .second parts.second

/-- What all parts say about a moment. -/
def toReading (parts : IsoParts) : Reading :=
  parts.recorded.given .nanosecond parts.nanosecond

/-- Each part is in the range of its field. Not every month has so many days. -/
structure IsInRange (parts : IsoParts) : Prop where
  month : 1 ≤ parts.month ∧ parts.month ≤ 12
  day : 1 ≤ parts.day ∧ parts.day ≤ 31
  hour : parts.hour ≤ 23
  minute : parts.minute ≤ 59
  second : parts.second ≤ 60

/-- Fields take the numbers exactly if these are in range. -/
theorem recordAll_steps_eq_ok :
    (Reading.empty.given .year parts.year).recordAll steps parts.toNumbers = .ok next ↔
      parts.IsInRange ∧ next = parts.recorded := by
  simp only [steps, toNumbers, Reading.recordAll, bind_eq_ok]
  constructor
  · rintro ⟨_, month, _, day, _, hour, _, minute, _, second, done⟩
    obtain ⟨monthRange, rfl⟩ := (Reading.record_value_eq_ok rfl).1 month
    obtain ⟨dayRange, rfl⟩ := (Reading.record_value_eq_ok rfl).1 day
    obtain ⟨hourRange, rfl⟩ := (Reading.record_hour_eq_ok rfl rfl).1 hour
    obtain ⟨minuteRange, rfl⟩ := (Reading.record_value_eq_ok rfl).1 minute
    obtain ⟨secondRange, rfl⟩ := (Reading.record_value_eq_ok rfl).1 second
    simp only [Field.range] at monthRange dayRange minuteRange secondRange
    exact ⟨⟨by omega, by omega, by omega, by omega, by omega⟩, (Except.ok.inj done).symm⟩
  · rintro ⟨⟨month, day, hour, minute, second⟩, rfl⟩
    exact ⟨_, (Reading.record_value_eq_ok rfl).2 ⟨by simp only [Field.range]; omega, rfl⟩,
      _, (Reading.record_value_eq_ok rfl).2 ⟨by simp only [Field.range]; omega, rfl⟩,
      _, (Reading.record_hour_eq_ok rfl rfl).2 ⟨by omega, rfl⟩,
      _, (Reading.record_value_eq_ok rfl).2 ⟨by simp only [Field.range]; omega, rfl⟩,
      _, (Reading.record_value_eq_ok rfl).2 ⟨by simp only [Field.range]; omega, rfl⟩, rfl⟩

theorem toNumbers_ofNumbers {year nanosecond : Nat} (five : numbers.length = 5) :
    (ofNumbers year numbers nanosecond).toNumbers = numbers := by
  match numbers, five with
  | [_, _, _, _, _], _ => rfl

/-- Decimal places are matched, and say what they say about the second. -/
theorem takeItems_fraction {items : List Item} (nonempty : digits ≠ [])
    (all : digits.all Char.isDigit = true) (ends : EndsDigits rest) :
    Reading.takeItems (.fraction :: items) reading ('.' :: (digits ++ rest)) =
      reading.set .nanosecond (nanoseconds digits) >>= fun next => Reading.takeItems items next rest := by
  rw [Reading.takeItems, take_fraction_digits all nonempty ends]
  cases reading.set .nanosecond (nanoseconds digits) <;> rfl

/-- A text that gives all parts is matched up to its decimal places exactly if the parts are in range. -/
theorem takeItems_eq_ok {items : List Item} {last : List Char} (isYear : IsYear year)
    (spells : SpellsNumbers signs row numbers) (nonempty : digits ≠ [])
    (all : digits.all Char.isDigit = true) (ends : EndsDigits rest)
    (same : parts = ofNumbers (digitsValue year) numbers (nanoseconds digits)) :
    Reading.takeItems (.field .year :: (numberItems steps ++ .fraction :: items)) .empty
        (year ++ (row ++ '.' :: (digits ++ rest))) = .ok (next, last) ↔
      parts.IsInRange ∧ Reading.takeItems items parts.toReading rest = .ok (next, last) := by
  have point : EndsDigits ('.' :: (digits ++ rest)) := endsDigits_cons rfl
  have five : parts.toNumbers = numbers := same ▸ toNumbers_ofNumbers spells.length_eq
  have yearSame : digitsValue year = parts.year := same ▸ rfl
  have placesSame : nanoseconds digits = parts.nanosecond := same ▸ rfl
  have set : parts.recorded.set .nanosecond parts.nanosecond = .ok parts.toReading :=
    Reading.set_eq_ok _ rfl
  rw [takeItems_year isYear (@endsDigits_row _ _ _ 5 spells point),
    takeItems_numbers areShort_steps spells point, bind_eq_ok, ← five, yearSame]
  simp only [recordAll_steps_eq_ok, takeItems_fraction nonempty all ends, placesSame]
  constructor
  · rintro ⟨_, ⟨range, rfl⟩, matched⟩
    rw [set] at matched
    exact ⟨range, matched⟩
  · rintro ⟨range, matched⟩
    refine ⟨_, ⟨range, rfl⟩, ?_⟩
    rw [set]
    exact matched

/-- A text that gives all parts matches the format exactly if they are in range. -/
theorem SpellsAll.ofText_eq_ok (spells : SpellsAll text parts) :
    Reading.ofText DateTime.isoFormat.text text = .ok next ↔ parts.IsInRange ∧ next = parts.toReading := by
  cases spells with
  | mk isYear spells nonempty all =>
    rw [Reading.ofText_eq_ok, ofText_text,
      takeItems_eq_ok isYear spells nonempty all (endsDigits_cons rfl) rfl,
      Reading.takeItems_cons (take_sign 'Z' _ []), Reading.takeItems, Except.ok.injEq, Prod.mk.injEq,
      eq_comm (b := next)]
    exact and_congr_right fun _ => and_iff_left rfl

/-- A text whose parts are in range matches the components that it supplies. -/
theorem Spells.exists_ofText_front (spells : Spells text parts) (range : parts.IsInRange) :
    ∃ next, Reading.ofText (DateTime.isoFormat.front (DateTime.isoFormat.suppliedCount text)) text =
      .ok next := by
  cases spells with
  | @numbers year row count numbers isYear few spells =>
    have length : numbers.length = count := by
      rw [spells.length_eq, List.length_take]
      exact Nat.min_eq_left few
    -- The least numbers make the row a whole one, and what is taken of a whole one is taken of its front.
    have five : (numbers ++ least.drop count).length = 5 := by
      simp only [List.length_append, List.length_drop, length, least, List.length_cons, List.length_nil]
      omega
    rw [← ofNumbers_append_least (by omega), length] at range
    have whole := recordAll_steps_eq_ok.2 ⟨range, rfl⟩
    have stepsLength : (steps.take count).length = numbers.length := by
      rw [length, List.length_take]
      exact Nat.min_eq_left few
    rw [toNumbers_ofNumbers five, ← List.take_append_drop count steps,
      Reading.recordAll_append stepsLength] at whole
    obtain ⟨next, front, -⟩ := bind_eq_ok.1 whole
    refine ⟨next, ?_⟩
    rw [suppliedCount_numbers isYear few spells, Reading.ofText_eq_ok, ofText_front_numbers count few]
    have ends := endsDigits_row spells endsDigits_nil
    rw [List.append_nil] at ends
    have matched := @takeItems_numbers row [] numbers (steps.take count)
      (Reading.empty.given .year (digitsValue year)) [] (areShort_take count)
      (map_take_steps count ▸ spells) endsDigits_nil
    rw [List.append_nil, List.append_nil] at matched
    rw [takeItems_year isYear ends, matched]
    exact bind_eq_ok.2 ⟨next, front, rfl⟩
  | @fraction year row digits zone numbers isYear spells nonempty all zulu =>
    rw [suppliedCount_fraction isYear spells all zulu]
    rcases zulu with rfl | rfl
    · refine ⟨(ofNumbers (digitsValue year) numbers (nanoseconds digits)).toReading, Reading.ofText_eq_ok.2 ?_⟩
      rw [if_pos rfl, ofText_front_fraction]
      exact (takeItems_eq_ok isYear spells nonempty all endsDigits_nil rfl).2 ⟨range, rfl⟩
    · exact ⟨_, (SpellsAll.mk isYear spells nonempty all).ofText_eq_ok.2 ⟨range, rfl⟩⟩

/-! ## Texts that match -/

/-- Digits behind a point are matched, or nothing is, where there is no point. -/
theorem exists_of_take_fraction {cs : List Char}
    (taken : Item.fraction.take reading cs = .ok (next, rest)) :
    (∃ digits, digits ≠ [] ∧ digits.all Char.isDigit = true ∧ cs = '.' :: (digits ++ rest)) ∨ cs = rest := by
  simp only [Item.take] at taken
  split at taken
  · next ds =>
    obtain ⟨⟨_, behind⟩, read, recorded⟩ := bind_eq_ok.1 taken
    obtain ⟨_, -, same⟩ := bind_eq_ok.1 recorded
    obtain ⟨rfl, rfl⟩ := Prod.mk.inj (pure_eq_ok.1 same)
    obtain ⟨⟨n, afterNine⟩, nine, last⟩ := bind_eq_ok.1 read
    obtain ⟨-, rfl⟩ := Prod.mk.inj (pure_eq_ok.1 last)
    obtain ⟨digits, rfl, nonempty, all, -⟩ := takeNumber_eq_ok.1 nine
    refine .inl ⟨digits ++ afterNine.takeWhile Char.isDigit, by simp [nonempty], ?_, ?_⟩
    · rw [List.all_append, all, List.all_takeWhile]
      rfl
    · rw [List.append_assoc, List.takeWhile_append_dropWhile]
  · exact .inr (Prod.mk.inj (Except.ok.inj taken)).2

variable {behind : List Char} {supplied : Nat}

/-- What matches a year and numbers is made of them. -/
theorem exists_spells_numbers (isYear : IsYear year) (ends : EndsDigits behind) (few : count ≤ 5)
    (matched : Reading.ofText (DateTime.isoFormat.front (count + 1)) (year ++ behind) = .ok next) :
    ∃ parts, Spells (year ++ behind) parts := by
  rw [Reading.ofText_eq_ok, ofText_front_numbers count few, takeItems_year isYear ends,
    ← List.append_nil (numberItems _)] at matched
  obtain ⟨row, numbers, _, _, rfl, spells, last⟩ :=
    exists_numbers_of_takeItems (areShort_take count) matched
  obtain ⟨-, rfl⟩ := Prod.mk.inj (Except.ok.inj last)
  rw [List.append_nil]
  exact ⟨_, .numbers isYear few (map_take_steps count ▸ spells)⟩

/-- What matches a year, numbers and decimal places, and has a point where it should, is made of them. -/
theorem exists_spells_fraction {items : List Item} {zone : List Char} (isYear : IsYear year)
    (ends : EndsDigits behind) (zulu : zone = [] ∨ zone = ['Z'])
    (marks : AreMarks (signs ++ '.' :: zone))
    (supplies : DateFormat.embeds (year ++ behind) (signs ++ '.' :: zone) = true)
    (tail : ∀ {reading rest}, Reading.takeItems items reading rest = .ok (next, []) → rest = zone)
    (matched : Reading.takeItems (.field .year :: (numberItems steps ++ .fraction :: items)) .empty
      (year ++ behind) = .ok (next, [])) : ∃ parts, Spells (year ++ behind) parts := by
  rw [takeItems_year isYear ends] at matched
  obtain ⟨row, numbers, _, afterRow, rfl, isRow, taken⟩ :=
    exists_numbers_of_takeItems areShort_steps matched
  have spells : SpellsNumbers signs row numbers := isRow
  obtain ⟨⟨_, rest⟩, fraction, last⟩ := bind_eq_ok.1 taken
  obtain rfl := tail last
  rcases exists_of_take_fraction fraction with ⟨digits, nonempty, all, rfl⟩ | rfl
  · exact ⟨_, .fraction isYear spells nonempty all zulu⟩
  · -- The point that is required would have to occur behind the row.
    rw [embeds_row isYear spells marks] at supplies
    rcases zulu with rfl | rfl <;> simp [DateFormat.embeds] at supplies

/-- Whatever opens with four digits and matches the components that it supplies is a partial ISO text. -/
theorem exists_spells (four : (text.takeWhile Char.isDigit).length = 4)
    (supplies : DateTime.isoFormat.suppliedCount text ≠ 0)
    (matched : Reading.ofText (DateTime.isoFormat.front (DateTime.isoFormat.suppliedCount text)) text =
      .ok next) : ∃ parts, Spells text parts := by
  obtain ⟨atMost, occur⟩ := embeds_required text
  have marks := areMarks_required _ atMost
  have isYear : IsYear (text.takeWhile Char.isDigit) := ⟨four, List.all_takeWhile⟩
  have ends : EndsDigits (text.dropWhile Char.isDigit) := by
    intro c first
    have stops := List.head?_dropWhile_not Char.isDigit text
    rwa [Option.mem_def.1 first] at stops
  generalize DateTime.isoFormat.suppliedCount text = supplied at *
  rw [← List.takeWhile_append_dropWhile (p := Char.isDigit) (l := text)] at matched occur ⊢
  rcases Nat.lt_or_ge supplied 7 with few | many
  · obtain ⟨count, rfl⟩ : ∃ count, supplied = count + 1 := ⟨supplied - 1, by omega⟩
    exact exists_spells_numbers isYear ends (by omega) matched
  · rw [Reading.ofText_eq_ok] at matched
    obtain rfl | rfl : supplied = 7 ∨ supplied = 8 := by omega
    · rw [required_seven] at marks occur
      rw [ofText_front_fraction] at matched
      refine exists_spells_fraction isYear ends (.inl rfl) marks occur (fun tail => ?_) matched
      exact (Prod.mk.inj (Except.ok.inj tail)).2
    · rw [required_eight] at marks occur
      rw [ofText_front_text] at matched
      refine exists_spells_fraction isYear ends (.inr rfl) marks occur (fun tail => ?_) matched
      obtain ⟨⟨_, rest⟩, sign, done⟩ := bind_eq_ok.1 tail
      obtain ⟨-, rfl⟩ := Prod.mk.inj (Except.ok.inj done)
      exact (exists_of_take_sign sign).1

end ResourceQuery.IsoParts
