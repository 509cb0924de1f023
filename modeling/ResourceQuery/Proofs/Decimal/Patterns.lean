import Mathlib.Computability.RegularExpressions
import Mathlib.Data.Nat.Digits.Defs
import ResourceQuery.Decimal.Binary64
import ResourceQuery.Proofs.Decimal.Numerals

/-!
# Patterns of numbers

The regular expressions of integers and decimals, apart from any reader. An integer is read from exactly the
texts of its pattern and is the number that the digits stand for; a numeral is read from exactly the texts of
the pattern of decimals.
-/

namespace ResourceQuery
set_option autoImplicit false
open Computability Numeral Text RegularExpression

/-! ## Patterns -/

namespace Pattern

/-- One of these characters. -/
def oneOf (cs : List Char) : RegularExpression Char :=
  cs.foldr (fun c pattern => .char c + pattern) 0

/-- Nothing, or what the pattern matches. -/
def optional (pattern : RegularExpression Char) : RegularExpression Char :=
  1 + pattern

/-- What the pattern matches, once or several times in a row. -/
def repeated (pattern : RegularExpression Char) : RegularExpression Char :=
  pattern * .star pattern

/-- `[0-9]` -/
def digit : RegularExpression Char :=
  oneOf ['0', '1', '2', '3', '4', '5', '6', '7', '8', '9']

/-- `[+-]` -/
def sign : RegularExpression Char :=
  oneOf ['+', '-']

/-- `[+-]?[0-9]+` -/
def integer : RegularExpression Char :=
  optional sign * repeated digit

/-- `[0-9]+(\.[0-9]*)?|\.[0-9]+` -/
def mantissa : RegularExpression Char :=
  repeated digit * optional (.char '.' * .star digit) + .char '.' * repeated digit

/-- `[eE][+-]?[0-9]+` -/
def exponent : RegularExpression Char :=
  oneOf ['e', 'E'] * integer

/-- `[+-]?([0-9]+(\.[0-9]*)?|\.[0-9]+)([eE][+-]?[0-9]+)?` -/
def decimal : RegularExpression Char :=
  optional sign * (mantissa * optional exponent)

/-- The number that digits stand for, the last of them counting ones. -/
def naturalValue (digits : List Char) : Nat :=
  Nat.ofDigits 10 (digits.reverse.map fun c => c.toNat - '0'.toNat)

/-- The number that a sign, or none, and digits stand for. -/
def integerValue : List Char → Int
  | '+' :: digits => naturalValue digits
  | '-' :: digits => -naturalValue digits
  | digits => naturalValue digits

variable {cs chars : List Char} {pattern : RegularExpression Char}

/-! ## What they match -/

theorem mem_oneOf : cs ∈ (oneOf chars).matches' ↔ ∃ c ∈ chars, cs = [c] := by
  induction chars with
  | nil => exact ⟨nofun, nofun⟩
  | cons c chars ih =>
    rw [oneOf, List.foldr_cons, ← oneOf, matches'_add, Language.mem_add, ih, List.exists_mem_cons_iff]
    rfl

theorem mem_optional : cs ∈ (optional pattern).matches' ↔ cs = [] ∨ cs ∈ pattern.matches' :=
  Iff.rfl

theorem mem_char_mul {c : Char} : cs ∈ (.char c * pattern : RegularExpression Char).matches' ↔
    ∃ rest ∈ pattern.matches', cs = c :: rest := by
  rw [matches'_mul, Language.mem_mul]
  constructor
  · rintro ⟨_, rfl, rest, matched, rfl⟩
    exact ⟨rest, matched, rfl⟩
  · rintro ⟨rest, matched, rfl⟩
    exact ⟨[c], rfl, rest, matched, rfl⟩

theorem isDigit_iff_mem {c : Char} :
    c.isDigit = true ↔ c ∈ ['0', '1', '2', '3', '4', '5', '6', '7', '8', '9'] := by
  constructor
  · intro isDigit
    have range : 48 ≤ c.toNat ∧ c.toNat ≤ 57 := Char.isDigit_iff_toNat.1 isDigit
    have codes : c.toNat = 48 ∨ c.toNat = 49 ∨ c.toNat = 50 ∨ c.toNat = 51 ∨ c.toNat = 52 ∨
        c.toNat = 53 ∨ c.toNat = 54 ∨ c.toNat = 55 ∨ c.toNat = 56 ∨ c.toNat = 57 := by omega
    rw [← Char.ofNat_toNat c]
    rcases codes with same | same | same | same | same | same | same | same | same | same <;>
      rw [same] <;> decide
  · have all : ['0', '1', '2', '3', '4', '5', '6', '7', '8', '9'].all Char.isDigit = true := by decide
    exact List.all_eq_true.1 all c

theorem mem_digit : cs ∈ digit.matches' ↔ ∃ c : Char, c.isDigit = true ∧ cs = [c] := by
  simp only [digit, mem_oneOf, isDigit_iff_mem]

theorem mem_star_digit : cs ∈ (star digit).matches' ↔ cs.all Char.isDigit = true := by
  rw [matches'_star, Language.mem_kstar]
  constructor
  · rintro ⟨texts, rfl, each⟩
    refine List.all_eq_true.2 fun c mem => ?_
    obtain ⟨text, isText, mem⟩ := List.mem_flatten.1 mem
    obtain ⟨d, isDigit, rfl⟩ := mem_digit.1 (each text isText)
    exact List.mem_singleton.1 mem ▸ isDigit
  · intro all
    refine ⟨cs.map fun c => [c], (List.flatMap_singleton' cs).symm, List.forall_mem_map.2 fun c mem => ?_⟩
    exact mem_digit.2 ⟨c, List.all_eq_true.1 all c mem, rfl⟩

theorem mem_repeated_digit : cs ∈ (repeated digit).matches' ↔ cs ≠ [] ∧ cs.all Char.isDigit = true := by
  rw [repeated, matches'_mul, Language.mem_mul]
  constructor
  · rintro ⟨first, isFirst, others, areOthers, rfl⟩
    obtain ⟨c, isDigit, rfl⟩ := mem_digit.1 isFirst
    exact ⟨List.cons_ne_nil _ _, by simpa [isDigit] using mem_star_digit.1 areOthers⟩
  · rintro ⟨nonempty, all⟩
    obtain ⟨c, others, rfl⟩ := List.exists_cons_of_ne_nil nonempty
    rw [List.all_cons, Bool.and_eq_true] at all
    exact ⟨[c], mem_digit.2 ⟨c, all.1, rfl⟩, others, mem_star_digit.2 all.2, rfl⟩

/-- The texts of a pattern open with no sign. -/
def IsUnsigned (pattern : RegularExpression Char) : Prop :=
  ∀ cs ∈ pattern.matches', takeSign cs = (false, cs)

/-- Behind an optional sign stands what is left of a text without its sign. -/
theorem mem_signed (unsigned : IsUnsigned pattern) :
    cs ∈ (optional sign * pattern).matches' ↔ (takeSign cs).2 ∈ pattern.matches' := by
  rw [matches'_mul, Language.mem_mul]
  constructor
  · rintro ⟨front, isSign, rest, matched, rfl⟩
    rcases mem_optional.1 isSign with rfl | isSign
    · rwa [List.nil_append, unsigned rest matched]
    · obtain ⟨c, mem, rfl⟩ := mem_oneOf.1 isSign
      rcases List.mem_pair.1 mem with rfl | rfl <;> exact matched
  · intro matched
    unfold takeSign at matched
    split at matched
    · exact ⟨['+'], .inr (mem_oneOf.2 ⟨'+', by simp, rfl⟩), _, matched, rfl⟩
    · exact ⟨['-'], .inr (mem_oneOf.2 ⟨'-', by simp, rfl⟩), _, matched, rfl⟩
    · exact ⟨[], .inl rfl, _, matched, rfl⟩

/-- A mantissa is digits with at most one point among them, and not the point alone. -/
theorem mem_mantissa : cs ∈ mantissa.matches' ↔ ∃ whole fraction : List Char,
    whole.all Char.isDigit = true ∧ fraction.all Char.isDigit = true ∧ (whole ≠ [] ∨ fraction ≠ []) ∧
      (cs = whole ∧ fraction = [] ∨ cs = whole ++ '.' :: fraction) := by
  rw [mantissa, matches'_add, Language.mem_add, matches'_mul, Language.mem_mul, mem_char_mul]
  constructor
  · rintro (⟨whole, isWhole, places, arePlaces, rfl⟩ | ⟨fraction, isFraction, rfl⟩)
    · obtain ⟨nonempty, digits⟩ := mem_repeated_digit.1 isWhole
      rcases mem_optional.1 arePlaces with rfl | arePlaces
      · exact ⟨whole, [], digits, rfl, .inl nonempty, .inl ⟨List.append_nil whole, rfl⟩⟩
      · obtain ⟨fraction, isFraction, rfl⟩ := mem_char_mul.1 arePlaces
        exact ⟨whole, fraction, digits, mem_star_digit.1 isFraction, .inl nonempty, .inr rfl⟩
    · obtain ⟨nonempty, digits⟩ := mem_repeated_digit.1 isFraction
      exact ⟨[], fraction, rfl, digits, .inr nonempty, .inr rfl⟩
  · rintro ⟨whole, fraction, wholeDigits, fractionDigits, nonempty, ⟨rfl, rfl⟩ | rfl⟩
    · have isWhole := mem_repeated_digit.2 ⟨nonempty.resolve_right (by simp), wholeDigits⟩
      exact .inl ⟨cs, isWhole, [], .inl rfl, List.append_nil cs⟩
    · by_cases empty : whole = []
      · subst empty
        have isFraction := mem_repeated_digit.2 ⟨nonempty.resolve_left (by simp), fractionDigits⟩
        exact .inr ⟨fraction, isFraction, rfl⟩
      · have isWhole := mem_repeated_digit.2 ⟨empty, wholeDigits⟩
        have arePlaces : '.' :: fraction ∈ (.char '.' * .star digit : RegularExpression Char).matches' :=
          mem_char_mul.2 ⟨fraction, mem_star_digit.2 fractionDigits, rfl⟩
        exact .inl ⟨whole, isWhole, _, .inr arePlaces, rfl⟩

theorem isUnsigned_repeated_digit : IsUnsigned (repeated digit) := fun _ matched =>
  takeSign_of_digit (isDigit_head (mem_repeated_digit.1 matched).2)

theorem mem_integer : cs ∈ integer.matches' ↔
    (takeSign cs).2 ≠ [] ∧ (takeSign cs).2.all Char.isDigit = true := by
  rw [integer, mem_signed isUnsigned_repeated_digit, mem_repeated_digit]

theorem mem_exponent : cs ∈ exponent.matches' ↔
    ∃ e rest, (e = 'e' ∨ e = 'E') ∧ rest ∈ integer.matches' ∧ cs = e :: rest := by
  rw [exponent, matches'_mul, Language.mem_mul]
  constructor
  · rintro ⟨_, isLetter, rest, matched, rfl⟩
    obtain ⟨e, mem, rfl⟩ := mem_oneOf.1 isLetter
    exact ⟨e, rest, List.mem_pair.1 mem, matched, rfl⟩
  · rintro ⟨e, rest, isLetter, matched, rfl⟩
    exact ⟨[e], mem_oneOf.2 ⟨e, List.mem_pair.2 isLetter, rfl⟩, rest, matched, rfl⟩

/-! ## Integers -/

theorem digitsValue_eq_naturalValue (digits : List Char) : digitsValue digits = naturalValue digits := by
  induction digits using List.reverseRecOn with
  | nil => rfl
  | append_singleton digits c ih =>
    rw [digitsValue, Nat.ofDigitChars_append, ← digitsValue, ih, naturalValue, naturalValue,
      List.reverse_append, List.reverse_singleton, List.singleton_append, List.map_cons, Nat.ofDigits_cons]
    simp [Nat.ofDigitChars_eq_foldl, Nat.add_comm]

theorem integerValue_eq (cs : List Char) :
    integerValue cs = withSign (takeSign cs).1 (digitsValue (takeSign cs).2) := by
  unfold integerValue takeSign
  split <;> simp only [digitsValue_eq_naturalValue] <;> rfl

/-- An integer is read from exactly the texts of its pattern, and it is the number they stand for. -/
theorem readInteger?_eq_some_iff {n : Int} :
    readInteger? cs = some n ↔ cs ∈ integer.matches' ∧ integerValue cs = n := by
  rw [mem_integer, integerValue_eq]
  simp only [readInteger?, readNatural?]
  split <;> simp_all

/-! ## Decimals -/

theorem exists_readInteger?_iff : (∃ n, readInteger? cs = some n) ↔ cs ∈ integer.matches' := by
  simp only [readInteger?_eq_some_iff, exists_and_left, exists_eq', and_true]

/-- What ends a numeral is nothing or an exponent. -/
theorem exists_readExponent?_iff :
    (∃ n, readExponent? cs = some n) ↔ cs ∈ (optional exponent).matches' := by
  rw [mem_optional, mem_exponent]
  cases cs with
  | nil => exact ⟨fun _ => .inl rfl, fun _ => ⟨0, rfl⟩⟩
  | cons e rest =>
    simp only [readExponent?, Bool.or_eq_true, beq_iff_eq]
    split
    · next isLetter =>
      rw [exists_readInteger?_iff]
      refine ⟨fun matched => .inr ⟨e, rest, isLetter, matched, rfl⟩, ?_⟩
      rintro (empty | ⟨_, _, -, matched, same⟩)
      · simp at empty
      · obtain ⟨rfl, rfl⟩ := List.cons.inj same
        exact matched
    · next other =>
      constructor
      · rintro ⟨n, read⟩
        cases read
      · rintro (empty | ⟨_, _, isLetter, -, same⟩)
        · simp at empty
        · obtain ⟨rfl, rfl⟩ := List.cons.inj same
          exact absurd isLetter other

/-- An exponent goes on neither with a digit nor with a point. -/
theorem takeFraction_of_mem (matched : cs ∈ (optional exponent).matches') :
    EndsDigits cs ∧ takeFraction cs = ([], cs) := by
  rcases mem_optional.1 matched with rfl | matched
  · exact ⟨endsDigits_nil, rfl⟩
  · obtain ⟨e, rest, rfl | rfl, -, rfl⟩ := mem_exponent.1 matched <;> exact ⟨endsDigits_cons rfl, rfl⟩

/-- A decimal without a sign opens with a digit or a point. -/
theorem exists_opening (matched : cs ∈ (mantissa * optional exponent).matches') :
    ∃ c rest, cs = c :: rest ∧ (c = '.' ∨ c.isDigit = true) := by
  obtain ⟨front, isMantissa, behind, -, rfl⟩ := Language.mem_mul.1 matched
  obtain ⟨whole, fraction, digits, -, nonempty, parts⟩ := mem_mantissa.1 isMantissa
  cases whole with
  | nil =>
    rcases parts with ⟨rfl, rfl⟩ | rfl
    · simp at nonempty
    · exact ⟨'.', _, rfl, .inl rfl⟩
  | cons c whole =>
    have first : c.isDigit = true := isDigit_head digits c rfl
    rcases parts with ⟨rfl, -⟩ | rfl <;> exact ⟨c, _, rfl, .inr first⟩

/-- Neither a sign nor a word opens with a digit or a point. -/
theorem opening_spec {c : Char} (opens : c = '.' ∨ c.isDigit = true) :
    c ≠ '+' ∧ c ≠ '-' ∧ c.toLower ≠ 'i' ∧ c.toLower ≠ 'n' := by
  simp only [isDigit_iff_mem, List.mem_cons, List.not_mem_nil, or_false] at opens
  rcases opens with rfl | rfl | rfl | rfl | rfl | rfl | rfl | rfl | rfl | rfl | rfl <;> decide

theorem isUnsigned_mantissa : IsUnsigned (mantissa * optional exponent) := by
  intro cs matched
  obtain ⟨c, rest, rfl, opens⟩ := exists_opening matched
  obtain ⟨notPlus, notMinus, -⟩ := opening_spec opens
  unfold takeSign
  split
  · next same => exact absurd (List.cons.inj same).1 notPlus
  · next same => exact absurd (List.cons.inj same).1 notMinus
  · rfl

/-- What is read as a numeral falls into the parts of one. -/
theorem exists_parts_of_read? {n : Numeral} (read : read? cs = some n) :
    ∃ whole tail fraction rest exponent, (takeSign cs).2 = whole ++ tail ∧
      whole.all Char.isDigit = true ∧ takeFraction tail = (fraction, rest) ∧
      (whole ≠ [] ∨ fraction ≠ []) ∧ readExponent? rest = some exponent := by
  simp only [read?] at read
  split at read
  · simp at read
  · next present =>
    obtain ⟨exponent, isExponent, -⟩ := Option.map_eq_some_iff.1 read
    refine ⟨_, _, (takeFraction _).1, (takeFraction _).2, exponent,
      List.takeWhile_append_dropWhile.symm, List.all_takeWhile, rfl, ?_, isExponent⟩
    simpa [or_iff_not_imp_left] using present

/-- A numeral is read from exactly the texts of the pattern of decimals. -/
theorem exists_read?_iff : (∃ n, read? cs = some n) ↔ cs ∈ decimal.matches' := by
  rw [decimal, mem_signed isUnsigned_mantissa, matches'_mul, Language.mem_mul]
  constructor
  · rintro ⟨n, read⟩
    obtain ⟨whole, tail, fraction, rest, exponent, parts, digits, point, nonempty, power⟩ :=
      exists_parts_of_read? read
    have behind := exists_readExponent?_iff.1 ⟨exponent, power⟩
    unfold takeFraction at point
    split at point
    · next places =>
      obtain ⟨rfl, rfl⟩ := Prod.mk.inj point
      have isMantissa := mem_mantissa.2 ⟨whole, _, digits, List.all_takeWhile, nonempty, .inr rfl⟩
      refine ⟨_, isMantissa, _, behind, ?_⟩
      rw [parts, List.append_assoc, List.cons_append, List.takeWhile_append_dropWhile]
    · obtain ⟨rfl, rfl⟩ := Prod.mk.inj point
      exact ⟨whole, mem_mantissa.2 ⟨whole, [], digits, rfl, nonempty, .inl ⟨rfl, rfl⟩⟩, _, behind, parts.symm⟩
  · rintro ⟨front, isMantissa, behind, isExponent, parts⟩
    obtain ⟨exponent, power⟩ := exists_readExponent?_iff.2 isExponent
    obtain ⟨ends, noFraction⟩ := takeFraction_of_mem isExponent
    obtain ⟨whole, fraction, wholeDigits, fractionDigits, nonempty, isFront⟩ := mem_mantissa.1 isMantissa
    have sign : takeSign cs = ((takeSign cs).1, front ++ behind) := by rw [parts]
    rcases isFront with ⟨rfl, rfl⟩ | rfl
    · exact ⟨_, read?_of_parts sign wholeDigits nonempty ends noFraction power⟩
    · rw [List.append_assoc, List.cons_append] at sign
      exact ⟨_, read?_of_parts sign wholeDigits nonempty (endsDigits_cons rfl)
        (takeFraction_point fractionDigits ends) power⟩

end Pattern
end ResourceQuery
