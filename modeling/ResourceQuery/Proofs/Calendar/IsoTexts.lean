import ResourceQuery.Proofs.Calendar.Numbers
import ResourceQuery.Proofs.Calendar.Separators

/-!
# Partial ISO texts

A partial ISO text is a year of four digits and, in their order, as many further parts as it likes.
`IsoParts.Spells` describes such a text and the parts that it gives, apart from any format. Its
separators tell which components of the ISO format it supplies, and when the others are filled in, its
parts stay as they are.
-/

namespace ResourceQuery
set_option autoImplicit false
open Fallible Text Numeral Calendar

/-- The parts of a moment. -/
structure IsoParts where
  year : Nat
  month : Nat
  day : Nat
  hour : Nat
  minute : Nat
  second : Nat
  nanosecond : Nat
deriving DecidableEq, Repr

namespace IsoParts

/-! ## Texts and their parts -/

/-- The signs before month, day, hour, minute and second. -/
def signs : List Char := ['-', '-', 'T', ':', ':']

/-- The least month, day, hour, minute and second. -/
def least : List Nat := [1, 1, 0, 0, 0]

/-- The parts that a year, the first numbers behind it and decimal places of the second give. A part
without a number is the least one. -/
def ofNumbers (year : Nat) (numbers : List Nat) (nanosecond : Nat) : IsoParts where
  year := year
  month := numbers.getD 0 1
  day := numbers.getD 1 1
  hour := numbers.getD 2 0
  minute := numbers.getD 3 0
  second := numbers.getD 4 0
  nanosecond := nanosecond

/-- A year is four digits. -/
def IsYear (text : List Char) : Prop :=
  text.length = 4 ∧ text.all Char.isDigit = true

/-- The text gives these parts: a year and the first of five numbers, each behind its sign; behind all
five also decimal places of the second, and a `Z` behind these. -/
inductive Spells : List Char → IsoParts → Prop
  | numbers {year row : List Char} {count : Nat} {numbers : List Nat} (isYear : IsYear year)
      (few : count ≤ 5) (spells : SpellsNumbers (signs.take count) row numbers) :
      Spells (year ++ row) (ofNumbers (digitsValue year) numbers 0)
  | fraction {year row digits zone : List Char} {numbers : List Nat} (isYear : IsYear year)
      (spells : SpellsNumbers signs row numbers) (nonempty : digits ≠ [])
      (all : digits.all Char.isDigit = true) (zulu : zone = [] ∨ zone = ['Z']) :
      Spells (year ++ (row ++ '.' :: (digits ++ zone)))
        (ofNumbers (digitsValue year) numbers (nanoseconds digits))

/-- The parts exist: such a day is in the calendar, and such a time on the clock, which may show a leap
second. -/
structure IsValid (parts : IsoParts) : Prop where
  month : 1 ≤ parts.month ∧ parts.month ≤ 12
  day : 1 ≤ parts.day ∧ parts.day ≤ monthLength parts.year parts.month
  hour : parts.hour < 24
  minute : parts.minute < 60
  second : parts.second ≤ 60

/-- The moment has these parts. A leap second is kept as second 59 and a whole second more. -/
structure Describes (parts : IsoParts) (moment : DateTime) : Prop where
  year : moment.date.year = parts.year
  month : moment.date.month = parts.month
  day : moment.date.day = parts.day
  hour : moment.time.hour = parts.hour
  minute : moment.time.minute = parts.minute
  second : moment.time.second = if parts.second = 60 then 59 else parts.second
  nanosecond : moment.time.nanosecond =
    if parts.second = 60 then parts.nanosecond + 1000000000 else parts.nanosecond

variable {parts : IsoParts} {text year row rest digits : List Char} {numbers : List Nat} {count : Nat}

/-- No two moments have the same parts. -/
theorem Describes.unique {moment moment' : DateTime} (describes : parts.Describes moment)
    (describes' : parts.Describes moment') : moment = moment' := by
  obtain ⟨date, time⟩ := moment
  obtain ⟨date', time'⟩ := moment'
  cases date
  cases date'
  cases time
  cases time'
  obtain ⟨year, month, day, hour, minute, second, nanosecond⟩ := describes
  obtain ⟨year', month', day', hour', minute', second', nanosecond'⟩ := describes'
  simp_all

/-! ## Digits of a text -/

theorem IsYear.ne_nil (isYear : IsYear year) : year ≠ [] := by
  rintro rfl
  exact absurd isYear.1 (by decide)

/-- The year of a text is all digits that it opens with. -/
theorem IsYear.takeWhile_eq (isYear : IsYear year) (ends : EndsDigits rest) :
    (year ++ rest).takeWhile Char.isDigit = year :=
  (takeWhile_append_of_all isYear.2 ends).1

/-- No digit opens a row of numbers. -/
theorem endsDigits_row (spells : SpellsNumbers (signs.take count) row numbers) (ends : EndsDigits rest) :
    EndsDigits (row ++ rest) := by
  have others : ∀ sign ∈ signs, sign.isDigit = false := by simp [signs]
  exact spells.endsDigits (fun sign mem => others sign (List.mem_of_mem_take mem)) ends

/-- A partial ISO text opens with four digits and no more. -/
theorem Spells.length_takeWhile (spells : Spells text parts) :
    (text.takeWhile Char.isDigit).length = 4 := by
  cases spells with
  | numbers isYear few spells =>
    have ends := endsDigits_row spells endsDigits_nil
    rw [List.append_nil] at ends
    rw [isYear.takeWhile_eq ends, isYear.1]
  | fraction isYear spells =>
    rw [isYear.takeWhile_eq (@endsDigits_row _ _ _ 5 spells (endsDigits_cons rfl)), isYear.1]

/-- Nine digits make less than a second. -/
theorem nanoseconds_lt (all : digits.all Char.isDigit = true) : nanoseconds digits < 1000000000 := by
  have front : (digits.take 9).all Char.isDigit = true := List.all_eq_true.2 fun c mem =>
    List.all_eq_true.1 all c (List.mem_of_mem_take mem)
  have value := digitsValue_lt front
  rw [List.length_take] at value
  calc nanoseconds digits
      < 10 ^ min 9 digits.length * 10 ^ (9 - min 9 digits.length) :=
        Nat.mul_lt_mul_of_pos_right value (Nat.pow_pos (by decide))
    _ = 1000000000 := by
      rw [← Nat.pow_add, Nat.add_sub_of_le (Nat.min_le_left _ _)]

theorem Spells.nanosecond_lt (spells : Spells text parts) : parts.nanosecond < 1000000000 := by
  cases spells with
  | numbers => exact Nat.zero_lt_of_lt (Nat.lt_succ_self 999999999)
  | fraction _ _ _ all => exact nanoseconds_lt all

theorem Spells.year_lt (spells : Spells text parts) : parts.year < 10000 := by
  have four {year : List Char} (isYear : IsYear year) : digitsValue year < 10000 := by
    have value := digitsValue_lt isYear.2
    rwa [isYear.1] at value
  cases spells with
  | numbers isYear | fraction isYear => exact four isYear

/-! ## Separators -/

/-- What an input must have to supply the first components. -/
def required (count : Nat) : List Char :=
  (DateTime.isoFormat.components.take count).flatMap Component.separators

theorem required_numbers : ∀ count ≤ 5, required (count + 1) = signs.take count := by decide

/-- Beyond what the first numbers need, more is required. -/
theorem required_beyond : ∀ count ≤ 5, ∀ more ≤ 8, count + 1 < more →
    required more = signs.take count ++ (required more).drop count ∧
      (required more).drop count ≠ [] := by decide

theorem required_seven : required 7 = signs ++ ['.'] := by decide

theorem required_eight : required 8 = signs ++ ['.', 'Z'] := by decide

theorem areMarks_required : ∀ count ≤ 8, AreMarks (required count) := by decide

/-- A search for signs goes on behind the year and the row with these signs. -/
theorem embeds_row {signs' more : List Char} (isYear : IsYear year)
    (spells : SpellsNumbers signs' row numbers) (marks : AreMarks (signs' ++ more)) :
    DateFormat.embeds (year ++ (row ++ rest)) (signs' ++ more) = DateFormat.embeds rest more := by
  have filler : year.all isFiller = true := by
    have all := isYear.2
    simp_all [isFiller]
  rw [embeds_filler filler marks, spells.embeds marks]

/-- An input supplies the greatest number of components whose separators it has. -/
theorem suppliedCount_eq (within : count ≤ 8)
    (supplied : DateFormat.embeds text (required count) = true)
    (beyond : ∀ more ≤ 8, count < more → DateFormat.embeds text (required more) = false) :
    DateTime.isoFormat.suppliedCount text = count := by
  refine (DateTime.isoFormat.isGreatest_suppliedCount text).unique
    ⟨⟨within, supplied⟩, fun more ⟨atMost, occur⟩ => ?_⟩
  by_contra greater
  have absent := beyond more atMost (Nat.lt_of_not_le greater)
  exact absurd (occur.symm.trans absent) (by decide)

/-- The separators of supplied components occur. -/
theorem embeds_required (text : List Char) :
    DateTime.isoFormat.suppliedCount text ≤ 8 ∧
      DateFormat.embeds text (required (DateTime.isoFormat.suppliedCount text)) = true :=
  (DateTime.isoFormat.isGreatest_suppliedCount text).1

/-! ## Completed texts -/

theorem embeds_nil_eq_false {more : List Char} (nonempty : more ≠ []) :
    DateFormat.embeds [] more = false := by
  obtain ⟨mark, others, rfl⟩ := List.exists_cons_of_ne_nil nonempty
  rfl

/-- A year and numbers supply the components that they give. -/
theorem suppliedCount_numbers (isYear : IsYear year) (few : count ≤ 5)
    (spells : SpellsNumbers (signs.take count) row numbers) :
    DateTime.isoFormat.suppliedCount (year ++ row) = count + 1 := by
  have search {more : List Char} (marks : AreMarks (signs.take count ++ more)) :
      DateFormat.embeds (year ++ row) (signs.take count ++ more) = DateFormat.embeds [] more := by
    have behind : year ++ row = year ++ (row ++ []) := by rw [List.append_nil]
    rw [behind, embeds_row isYear spells marks]
  refine suppliedCount_eq (by omega) ?_ fun more atMost beyond => ?_
  · have marks := areMarks_required (count + 1) (by omega)
    rw [required_numbers count few, ← List.append_nil (signs.take count)] at marks ⊢
    rw [search marks, DateFormat.embeds]
  · obtain ⟨parts, nonempty⟩ := required_beyond count few more atMost beyond
    have marks := areMarks_required more atMost
    rw [parts] at marks ⊢
    rw [search marks, embeds_nil_eq_false nonempty]

/-- Decimal places supply their component, and a `Z` behind them the last one. -/
theorem suppliedCount_fraction {zone : List Char} (isYear : IsYear year)
    (spells : SpellsNumbers signs row numbers) (all : digits.all Char.isDigit = true)
    (zulu : zone = [] ∨ zone = ['Z']) :
    DateTime.isoFormat.suppliedCount (year ++ (row ++ '.' :: (digits ++ zone))) =
      if zone = [] then 7 else 8 := by
  have filler : digits.all isFiller = true := by simp_all [isFiller]
  have point : DateFormat.embeds (year ++ (row ++ '.' :: (digits ++ zone))) (required 7) = true := by
    have marks := areMarks_required 7 (by decide)
    rw [required_seven] at marks ⊢
    rw [embeds_row isYear spells marks, DateFormat.embeds, List.dropWhile_cons_of_neg (by simp)]
    rfl
  have zed : DateFormat.embeds (year ++ (row ++ '.' :: (digits ++ zone))) (required 8) =
      DateFormat.embeds zone ['Z'] := by
    have marks := areMarks_required 8 (by decide)
    rw [required_eight] at marks ⊢
    rw [embeds_row isYear spells marks, DateFormat.embeds, List.dropWhile_cons_of_neg (by simp)]
    exact embeds_filler filler (by decide)
  rcases zulu with rfl | rfl
  · rw [if_pos rfl]
    refine suppliedCount_eq (by decide) point fun more atMost beyond => ?_
    obtain rfl : more = 8 := by omega
    exact zed.trans rfl
  · rw [if_neg (by decide)]
    exact suppliedCount_eq (by decide) (zed.trans rfl) (by omega)

/-- What is appended for the numbers that are missing, with the least values. -/
theorem exists_fill (few : count ≤ 5) : ∃ row,
    SpellsNumbers (signs.drop count) row (least.drop count) ∧
      (DateTime.isoFormat.components.drop (count + 1)).flatMap Component.fill = row ++ ['.', '0', 'Z'] := by
  have zero : IsShort ['0', '0'] 0 := ⟨[], ['0', '0'], by decide⟩
  have one : IsShort ['0', '1'] 1 := ⟨[], ['0', '1'], by decide⟩
  have second : SpellsNumbers [':'] _ [0] := .cons zero .nil
  have minute : SpellsNumbers [':', ':'] _ [0, 0] := .cons zero second
  have hour : SpellsNumbers ['T', ':', ':'] _ [0, 0, 0] := .cons zero minute
  have day : SpellsNumbers ['-', 'T', ':', ':'] _ [1, 0, 0, 0] := .cons one hour
  have month : SpellsNumbers ['-', '-', 'T', ':', ':'] _ [1, 1, 0, 0, 0] := .cons one day
  match count, few with
  | 0, _ => exact ⟨_, month, rfl⟩
  | 1, _ => exact ⟨_, day, rfl⟩
  | 2, _ => exact ⟨_, hour, rfl⟩
  | 3, _ => exact ⟨_, minute, rfl⟩
  | 4, _ => exact ⟨_, second, rfl⟩
  | 5, _ => exact ⟨_, .nil, rfl⟩

/-- The text gives these parts, and all of them. -/
inductive SpellsAll : List Char → IsoParts → Prop
  | mk {year row digits : List Char} {numbers : List Nat} (isYear : IsYear year)
      (spells : SpellsNumbers signs row numbers) (nonempty : digits ≠ [])
      (all : digits.all Char.isDigit = true) :
      SpellsAll (year ++ (row ++ '.' :: (digits ++ ['Z'])))
        (ofNumbers (digitsValue year) numbers (nanoseconds digits))

/-- The least numbers for what is missing change no part. -/
theorem ofNumbers_append_least {year nanosecond : Nat} (few : numbers.length ≤ 5) :
    ofNumbers year (numbers ++ least.drop numbers.length) nanosecond = ofNumbers year numbers nanosecond := by
  match numbers, few with
  | [], _ | [_], _ | [_, _], _ | [_, _, _], _ | [_, _, _, _], _ | [_, _, _, _, _], _ => rfl

/-- A text is completed without a change to its parts. -/
theorem Spells.complete (spells : Spells text parts) :
    SpellsAll (DateTime.isoFormat.complete (DateTime.isoFormat.suppliedCount text) text) parts := by
  cases spells with
  | @numbers year row count numbers isYear few spells =>
    obtain ⟨fill, spells', appended⟩ := exists_fill few
    have length : numbers.length = count := by
      rw [spells.length_eq, List.length_take]
      exact Nat.min_eq_left few
    have whole : SpellsNumbers signs (row ++ fill) (numbers ++ least.drop count) := by
      rw [← List.take_append_drop count signs]
      exact spells.append spells'
    have digits : ['0'] ≠ [] ∧ ['0'].all Char.isDigit = true := by decide
    have all : SpellsAll (year ++ (row ++ fill ++ ['.', '0', 'Z'])) (ofNumbers _ _ 0) :=
      .mk isYear whole digits.1 digits.2
    rw [← length, ofNumbers_append_least (by omega), List.append_assoc] at all
    rw [suppliedCount_numbers isYear few spells, DateFormat.complete, appended, List.append_assoc]
    exact all
  | fraction isYear spells nonempty all zulu =>
    rw [suppliedCount_fraction isYear spells all zulu, DateFormat.complete]
    have whole := SpellsAll.mk isYear spells nonempty all
    rcases zulu with rfl | rfl
    · simpa [DateTime.isoFormat] using whole
    · simpa [DateTime.isoFormat] using whole

end IsoParts
end ResourceQuery
