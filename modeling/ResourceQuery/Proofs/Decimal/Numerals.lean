import Mathlib.Tactic
import ResourceQuery.Decimal.Numeral
import ResourceQuery.Proofs.Text.Runs

/-!
# Reading numerals

Where a numeral is made of a sign, digits, a point with digits behind it and an exponent, these parts
are what is read. An integer reads back as written, and no text with anything but digits behind its
sign is an integer.
-/

namespace ResourceQuery.Numeral
set_option autoImplicit false
open Text

/-! ## Digits -/

theorem isDigit_toDigits (n : Nat) : (Nat.toDigits 10 n).all Char.isDigit = true :=
  List.all_eq_true.2 fun _ mem => Nat.isDigit_of_mem_toDigits (by decide) (by decide) mem

theorem isDigit_zeros (count : Nat) : (List.replicate count '0').all Char.isDigit = true := by
  simp

@[simp] theorem digitsValue_toDigits (n : Nat) : digitsValue (Nat.toDigits 10 n) = n :=
  Nat.ofDigitChars_ten_toDigits

/-- Zeros in front of digits do not count. -/
@[simp] theorem digitsValue_zeros (count : Nat) (digits : List Char) :
    digitsValue (List.replicate count '0' ++ digits) = digitsValue digits := by
  rw [digitsValue, Nat.ofDigitChars_append, Nat.ofDigitChars_replicate_zero, Nat.mul_zero,
    digitsValue]

/-- Zeros behind digits are so many powers of ten. -/
theorem digitsValue_append_zeros (digits : List Char) (count : Nat) :
    digitsValue (digits ++ List.replicate count '0') = 10 ^ count * digitsValue digits := by
  rw [digitsValue, Nat.ofDigitChars_append, Nat.ofDigitChars_replicate_zero, digitsValue]

/-- So many digits make no number with more of them. -/
theorem digitsValue_lt {digits : List Char} (all : digits.all Char.isDigit = true) :
    digitsValue digits < 10 ^ digits.length := by
  have bounded (init : Nat) : Nat.ofDigitChars 10 digits init < (init + 1) * 10 ^ digits.length := by
    induction digits generalizing init with
    | nil => simp
    | cons c cs ih =>
      rw [List.all_cons, Bool.and_eq_true] at all
      have range : 48 ≤ c.toNat ∧ c.toNat ≤ 57 := Char.isDigit_iff_toNat.1 all.1
      have zero : '0'.toNat = 48 := rfl
      calc Nat.ofDigitChars 10 (c :: cs) init
          < (10 * init + (c.toNat - '0'.toNat) + 1) * 10 ^ cs.length := ih all.2 _
        _ ≤ (init + 1) * 10 * 10 ^ cs.length := Nat.mul_le_mul_right _ (by omega)
        _ = (init + 1) * 10 ^ (cs.length + 1) := by rw [Nat.pow_succ', Nat.mul_assoc]
  simpa [digitsValue] using bounded 0

/-- A text that no digit opens. -/
def EndsDigits (rest : List Char) : Prop :=
  ∀ c ∈ rest.head?, c.isDigit = false

theorem endsDigits_nil : EndsDigits [] := nofun

theorem endsDigits_cons {c : Char} {rest : List Char} (other : c.isDigit = false) :
    EndsDigits (c :: rest) := by
  rintro d ⟨⟩
  exact other

/-! ## Signs -/

/-- A text that opens with a digit has no sign. -/
theorem takeSign_of_digit {cs : List Char} (opens : ∀ c ∈ cs.head?, c.isDigit = true) :
    takeSign cs = (false, cs) := by
  unfold takeSign
  split
  · exact nomatch opens '+' rfl
  · exact nomatch opens '-' rfl
  · rfl

/-- A minus sign in front of a digit is read as one. -/
theorem takeSign_signed (negative : Bool) {cs : List Char}
    (opens : ∀ c ∈ cs.head?, c.isDigit = true) :
    takeSign ((if negative then ['-'] else []) ++ cs) = (negative, cs) := by
  cases negative with
  | false => exact takeSign_of_digit opens
  | true => rfl

/-- The first of some digits is a digit. -/
theorem isDigit_head {digits : List Char} (all : digits.all Char.isDigit = true) :
    ∀ c ∈ digits.head?, c.isDigit = true :=
  fun c first => List.all_eq_true.1 all c (List.mem_of_mem_head? first)

/-! ## Integers -/

/-- An integer reads back as it is written. -/
theorem readInteger?_writeInteger (n : Int) : readInteger? (writeInteger n) = some n := by
  have opens := isDigit_head (isDigit_toDigits n.natAbs)
  unfold writeInteger
  split
  · have sign : takeSign ('-' :: Nat.toDigits 10 n.natAbs) = (true, Nat.toDigits 10 n.natAbs) := rfl
    simp only [readInteger?, sign, readNatural?_toDigits, Option.map_some, withSign, if_true,
      Option.some.injEq]
    omega
  · simp only [readInteger?, takeSign_of_digit opens, readNatural?_toDigits, Option.map_some,
      withSign, Bool.false_eq_true, if_false, Option.some.injEq]
    omega

/-- No integer has anything but digits behind its sign. -/
theorem readInteger?_eq_none {text digits : List Char} {negative : Bool} {c : Char}
    (sign : takeSign text = (negative, digits)) (mem : c ∈ digits) (other : c.isDigit = false) :
    readInteger? text = none := by
  have notAll : digits.all Char.isDigit = false := List.all_eq_false.2 ⟨c, mem, by simp [other]⟩
  simp [readInteger?, sign, readNatural?, notAll]

/-! ## Parts of a numeral -/

/-- The parts of a numeral are read as such. -/
theorem read?_of_parts {text whole tail fraction rest : List Char} {negative : Bool} {exponent : Int}
    (sign : takeSign text = (negative, whole ++ tail)) (digits : whole.all Char.isDigit = true)
    (nonempty : whole ≠ [] ∨ fraction ≠ []) (ends : EndsDigits tail)
    (point : takeFraction tail = (fraction, rest)) (power : readExponent? rest = some exponent) :
    read? text =
      some ⟨negative, digitsValue (whole ++ fraction), exponent - fraction.length⟩ := by
  obtain ⟨taken, left⟩ := takeWhile_append_of_all digits ends
  have present : (whole.isEmpty && fraction.isEmpty) = false := by
    rcases nonempty with nonempty | nonempty <;> simp [nonempty]
  simp [read?, sign, taken, left, point, present, power]

/-- The digits behind a point are read up to the first other character. -/
theorem takeFraction_point {fraction rest : List Char} (digits : fraction.all Char.isDigit = true)
    (ends : EndsDigits rest) : takeFraction ('.' :: (fraction ++ rest)) = (fraction, rest) := by
  obtain ⟨taken, left⟩ := takeWhile_append_of_all digits ends
  rw [takeFraction, taken, left]

/-- Behind its digits a numeral goes on with a point or an exponent, if it does at all. -/
theorem read?_eq_none {text whole rest : List Char} {c : Char} {negative : Bool}
    (sign : takeSign text = (negative, whole ++ c :: rest)) (digits : whole.all Char.isDigit = true)
    (ends : c.isDigit = false) (other : c ≠ '.' ∧ c ≠ 'e' ∧ c ≠ 'E') : read? text = none := by
  have stops : EndsDigits (c :: rest) := endsDigits_cons ends
  obtain ⟨taken, left⟩ := takeWhile_append_of_all digits stops
  have noFraction : takeFraction (c :: rest) = ([], c :: rest) := by
    unfold takeFraction
    split
    · next same => exact absurd (List.cons.inj same).1 other.1
    · rfl
  simp [read?, sign, taken, left, noFraction, readExponent?, other.2]

end ResourceQuery.Numeral
