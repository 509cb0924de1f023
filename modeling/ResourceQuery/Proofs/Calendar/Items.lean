import Mathlib.Tactic
import ResourceQuery.Calendar.DateFormat
import ResourceQuery.Proofs.Decimal.Numerals
import ResourceQuery.Proofs.Fallible

/-!
# Matching items

A text is matched item by item: each number against its digits, each literal against the character behind
them. What an item says about fields is recorded as far as the fields have no other value yet.
-/

namespace ResourceQuery.Calendar
set_option autoImplicit false
open Fallible Text Numeral

/-! ## Digits -/

/-- A number is the longest run of digits that it may have. -/
theorem takeNumber_eq_ok {cs rest : List Char} {width n : Nat} : takeNumber width cs = .ok (n, rest) ↔
    ∃ digits, cs = digits ++ rest ∧ digits ≠ [] ∧ digits.all Char.isDigit = true ∧
      digits.length ≤ width ∧ (digits.length = width ∨ EndsDigits rest) ∧ digitsValue digits = n ∧
      n ≤ greatestNumber := by
  constructor
  · intro taken
    -- Behind the digits comes what stopped them: another character, or the end of what may be read.
    have split := List.takeWhile_append_dropWhile (p := Char.isDigit) (l := cs.take width)
    have all := List.all_takeWhile (l := cs.take width) (p := Char.isDigit)
    have stopped := List.head?_dropWhile_not Char.isDigit (cs.take width)
    have whole : cs = cs.take width ++ cs.drop width := (List.take_append_drop width cs).symm
    simp only [takeNumber] at taken
    generalize (cs.take width).takeWhile Char.isDigit = digits at split all taken
    generalize (cs.take width).dropWhile Char.isDigit = others at split stopped
    have count : digits.length + others.length = min width cs.length := by
      rw [← List.length_append, split, List.length_take]
    rw [← split, List.append_assoc] at whole
    split at taken
    · simp at taken
    split at taken
    · simp at taken
    split at taken
    · simp at taken
    next nonempty small =>
    obtain ⟨value, left⟩ := Prod.mk.inj (Except.ok.inj taken)
    obtain rfl : others ++ cs.drop width = rest := by rw [← left]; nth_rewrite 2 [whole]; rw [List.drop_left]
    refine ⟨digits, whole, by simpa using nonempty, all, by omega, ?_, value, by omega⟩
    cases others with
    | nil =>
      rcases Nat.lt_or_ge digits.length width with few | full
      · rw [List.drop_eq_nil_of_le (by simp at count; omega)]
        exact .inr endsDigits_nil
      · exact .inl (by simp at count; omega)
    | cons c others => exact .inr (endsDigits_cons stopped)
  · rintro ⟨digits, rfl, nonempty, all, within, stops, rfl, bounded⟩
    have behind : EndsDigits (rest.take (width - digits.length)) := by
      rcases stops with full | ends
      · rw [full, Nat.sub_self]
        exact endsDigits_nil
      · intro c first
        refine ends c ?_
        cases rest with
        | nil => simp at first
        | cons d ds => cases count : width - digits.length <;> simp_all
    have run : ((digits ++ rest).take width).takeWhile Char.isDigit = digits := by
      rw [List.take_append, List.take_of_length_le within]
      exact (takeWhile_append_of_all all behind).1
    simp only [takeNumber, run, List.drop_left]
    rw [if_neg (by simp [nonempty]), if_neg (by simp [nonempty]), if_neg (by omega)]

/-- Digits are read up to the first other character, or up to as many as there may be. -/
theorem takeNumber_digits {digits rest : List Char} {width : Nat} (all : digits.all Char.isDigit = true)
    (nonempty : digits ≠ []) (narrow : digits.length ≤ 18) (within : digits.length ≤ width)
    (stops : digits.length = width ∨ EndsDigits rest) :
    takeNumber width (digits ++ rest) = .ok (digitsValue digits, rest) := by
  have bounded : digitsValue digits < greatestNumber :=
    Nat.lt_of_lt_of_le (digitsValue_lt all)
      (Nat.le_trans (Nat.pow_le_pow_right (by decide) narrow) (by decide))
  exact takeNumber_eq_ok.2 ⟨digits, rfl, nonempty, all, within, stops, rfl, Nat.le_of_lt bounded⟩

/-! ## Items -/

/-- A reading in which one more field has a value. -/
def Reading.given (reading : Reading) (f : Field) (n : Int) : Reading :=
  ⟨fun g => if g = f then some n else reading.value g⟩

@[simp] theorem Reading.value_given (reading : Reading) (f g : Field) (n : Int) :
    (reading.given f n).value g = if g = f then some n else reading.value g := rfl

/-- A field without a value can be given any. -/
theorem Reading.set_eq_ok {reading : Reading} {f : Field} (n : Int) (unset : reading.value f = none) :
    reading.set f n = .ok (reading.given f n) := by
  rw [set, unset]
  rfl

variable {reading : Reading} {rest : List Char} {width n : Nat}

/-- A text matches a format if the items of the format take all of it. -/
theorem Reading.ofText_eq_ok {format text : List Char} :
    ofText format text = .ok reading ↔
      takeItems (Item.ofText format) .empty text = .ok (reading, []) := by
  rw [ofText, bind_eq_ok]
  constructor
  · rintro ⟨⟨last, behind⟩, taken, ended⟩
    dsimp only at ended
    split at ended
    · next empty =>
      obtain rfl := pure_eq_ok.1 ended
      rw [taken, List.isEmpty_iff.1 empty]
    · simp at ended
  · intro taken
    exact ⟨_, taken, rfl⟩

/-- Items are matched one after the other. -/
theorem Reading.takeItems_cons {item : Item} {items : List Item} {reading next : Reading}
    {cs rest : List Char} (taken : item.take reading cs = .ok (next, rest)) :
    takeItems (item :: items) reading cs = takeItems items next rest := by
  rw [takeItems, taken]
  rfl

/-- A literal character is matched by itself. -/
theorem take_sign (c : Char) (reading : Reading) (rest : List Char) :
    (Item.sign c).take reading (c :: rest) = .ok (reading, rest) := by
  simp [Item.sign, Item.take]

theorem not_isBlank_of_isDigit {c : Char} (digit : c.isDigit = true) : isBlank c = false := by
  have inRange : 48 ≤ c.toNat ∧ c.toNat ≤ 57 := Char.isDigit_iff_toNat.1 digit
  simp only [isBlank, blankRanges, List.any_cons, List.any_nil, Bool.or_false,
    Bool.or_eq_false_iff, Bool.and_eq_false_iff, decide_eq_false_iff_not]
  omega

/-- A number is matched by its digits, which end or are as many as there may be. -/
theorem Quantity.take_digits_of_stops {q : Quantity} {digits : List Char} (limit : q.width? = some width)
    (all : digits.all Char.isDigit = true) (nonempty : digits ≠ []) (narrow : digits.length ≤ 18)
    (within : digits.length ≤ width) (stops : digits.length = width ∨ EndsDigits rest) :
    q.take (digits ++ rest) = .ok ((digitsValue digits : Int), rest) := by
  have read := takeNumber_digits all nonempty narrow within stops
  obtain ⟨c, cs, rfl⟩ := List.exists_cons_of_ne_nil nonempty
  have digit := isDigit_head all c rfl
  have first : (c :: cs ++ rest).dropWhile isBlank = c :: (cs ++ rest) := by
    rw [List.cons_append, List.dropWhile_cons, not_isBlank_of_isDigit digit]
    rfl
  rw [List.cons_append] at read
  simp only [Quantity.take, first, limit, Option.getD_some, read]
  split
  · next hyphen =>
    obtain ⟨rfl, -⟩ := List.cons.inj hyphen
    simp at digit
  · next plus =>
    obtain ⟨rfl, -⟩ := List.cons.inj plus
    simp at digit
  · rfl

/-- A number is matched by its digits. -/
theorem Quantity.take_digits {q : Quantity} {digits : List Char} (limit : q.width? = some width)
    (all : digits.all Char.isDigit = true) (nonempty : digits ≠ []) (narrow : digits.length ≤ 18)
    (within : digits.length ≤ width) (ends : EndsDigits rest) :
    q.take (digits ++ rest) = .ok ((digitsValue digits : Int), rest) :=
  take_digits_of_stops limit all nonempty narrow within (.inr ends)

/-- A number in its range says something about fields, and no other does. -/
theorem Reading.record_eq_ok {q : Quantity} {n : Int} {next : Reading} :
    reading.record q n = .ok next ↔ (q.range.1 ≤ n ∧ n ≤ q.range.2) ∧
      (q.values n).foldlM (fun reading (f, m) => reading.set f m) reading = .ok next := by
  unfold record
  split
  · next outside =>
    simp only [reduceCtorEq, false_iff, not_and]
    omega
  · next inside => exact ⟨fun recorded => ⟨by omega, recorded⟩, And.right⟩

/-- A field takes the numbers in its range. -/
theorem Reading.record_value_eq_ok {f : Field} {n : Int} {next : Reading}
    (unset : reading.value f = none) :
    reading.record (.value f) n = .ok next ↔
      (f.range.1 ≤ n ∧ n ≤ f.range.2) ∧ next = reading.given f n := by
  have set : ((Quantity.value f).values n).foldlM (fun reading (f, m) => reading.set f m) reading =
      .ok (reading.given f n) := by
    simp only [Quantity.values, List.foldlM_cons, set_eq_ok n unset]
    rfl
  rw [record_eq_ok, set, Except.ok.injEq, eq_comm (b := next)]
  rfl

/-- An hour of the day gives both parts of it a value. -/
theorem Reading.record_hour_eq_ok {n : Int} {next : Reading} (unset : reading.value .halfDay = none)
    (unset' : reading.value .hourOfHalf = none) :
    reading.record .hour n = .ok next ↔
      (0 ≤ n ∧ n ≤ 23) ∧ next = (reading.given .halfDay (n / 12)).given .hourOfHalf (n % 12) := by
  have unset'' : (reading.given .halfDay (n / 12)).value .hourOfHalf = none := by simp [unset']
  have set : (Quantity.hour.values n).foldlM (fun reading (f, m) => reading.set f m) reading =
      .ok ((reading.given .halfDay (n / 12)).given .hourOfHalf (n % 12)) := by
    simp only [Quantity.values, List.foldlM_cons, set_eq_ok _ unset, bind, Except.bind,
      set_eq_ok _ unset'']
    rfl
  rw [record_eq_ok, set, Except.ok.injEq, eq_comm (b := next)]
  rfl

/-- The first nine digits behind a point as nanoseconds. -/
def nanoseconds (digits : List Char) : Nat :=
  digitsValue (digits.take 9) * 10 ^ (9 - min 9 digits.length)

/-- Decimal places of a second are digits, nine of which count. -/
theorem takeFraction_digits {digits : List Char} (all : digits.all Char.isDigit = true)
    (nonempty : digits ≠ []) (ends : EndsDigits rest) :
    takeFraction (digits ++ rest) = .ok (nanoseconds digits, rest) := by
  have front : (digits.take 9).all Char.isDigit = true := List.all_eq_true.2 fun c mem =>
    List.all_eq_true.1 all c (List.mem_of_mem_take mem)
  have behind : (digits.drop 9).all Char.isDigit = true := List.all_eq_true.2 fun c mem =>
    List.all_eq_true.1 all c (List.mem_of_mem_drop mem)
  have stops : (digits.take 9).length = 9 ∨ EndsDigits (digits.drop 9 ++ rest) := by
    rcases Nat.lt_or_ge digits.length 9 with few | many
    · rw [List.drop_eq_nil_of_le (Nat.le_of_lt few)]
      exact .inr ends
    · exact .inl (by simpa using many)
  have taken : takeNumber 9 (digits ++ rest) = .ok (digitsValue (digits.take 9), digits.drop 9 ++ rest) := by
    have parts : digits ++ rest = digits.take 9 ++ (digits.drop 9 ++ rest) := by
      rw [← List.append_assoc, List.take_append_drop]
    rw [parts]
    exact takeNumber_digits front (by simpa using nonempty) (by simp) (by simp) stops
  have places : (digits ++ rest).length - (digits.drop 9 ++ rest).length = min 9 digits.length := by
    simp only [List.length_append, List.length_drop]
    omega
  have left : (digits.drop 9 ++ rest).dropWhile Char.isDigit = rest :=
    (takeWhile_append_of_all behind ends).2
  simp only [takeFraction, taken]
  change Except.ok (_ * Nat.pow 10 (9 - _), (digits.drop 9 ++ rest).dropWhile Char.isDigit) = _
  rw [places, left]
  rfl

/-- Decimal places of a second are matched by a point and digits. -/
theorem take_fraction_digits {digits : List Char} (all : digits.all Char.isDigit = true)
    (nonempty : digits ≠ []) (ends : EndsDigits rest) :
    Item.fraction.take reading ('.' :: (digits ++ rest)) =
      (reading.set .nanosecond (nanoseconds digits)).map fun next => (next, rest) := by
  simp only [Item.take, takeFraction_digits all nonempty ends]
  rfl

end ResourceQuery.Calendar

namespace ResourceQuery.DateFormat
set_option autoImplicit false
open Fallible Calendar

variable {format : DateFormat} {input : String} {moment : DateTime}

/-- What an input must be to be read as a moment: the components that it supplies match, a year has four
digits, and the completed input determines the moment, or at least a day. -/
theorem parse_eq_ok : format.parse input = .ok moment ↔
    format.suppliedCount input.toList ≠ 0 ∧
    (∃ front, Reading.ofText (format.front (format.suppliedCount input.toList)) input.toList = .ok front) ∧
    (format.opensWithYear = true → (input.toList.takeWhile Char.isDigit).length = 4) ∧
    ∃ reading, Reading.ofText format.text
        (format.complete (format.suppliedCount input.toList) input.toList) = .ok reading ∧
      (reading.dateTime = .ok moment ∨ (∃ fault, reading.dateTime = .error fault) ∧
        ∃ day, reading.date = .ok day ∧ moment = ⟨day, Time.midnight⟩) := by
  simp only [parse]
  split
  · next none => simp [none]
  next supplies =>
  split
  · next failed => simp [failed]
  next front matched =>
  split
  · next wide =>
    constructor
    · nofun
    · rintro ⟨-, -, four, -⟩
      exact absurd (four wide.1) wide.2
  next narrow =>
  have four : format.opensWithYear = true → (input.toList.takeWhile Char.isDigit).length = 4 :=
    fun opens => by_contra fun other => narrow ⟨opens, other⟩
  split
  · next failed => simp [failed]
  next reading whole =>
  rw [and_iff_right supplies, and_iff_right ⟨front, matched⟩, and_iff_right four]
  simp only [whole, Except.ok.injEq, exists_eq_left']
  cases reading.dateTime with
  | ok found => simp
  | error fault => cases reading.date <;> simp [eq_comm]

end ResourceQuery.DateFormat
