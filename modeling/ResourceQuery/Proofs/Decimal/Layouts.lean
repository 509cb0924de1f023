import Mathlib.Tactic
import ResourceQuery.Decimal.Layout
import ResourceQuery.Proofs.Decimal.Numerals
import ResourceQuery.Proofs.Decimal.Ranks

/-!
# Written numbers read back

Whatever a layout decides, what it writes spells the number, perhaps with more zeros at its end, and
is no integer. So every finite number reads back as itself, the sign of zero included.
-/

namespace ResourceQuery
set_option autoImplicit false
open Numeral

/-! ## What a text spells -/

/-- The characters numbers are made of. -/
def Numeral.isNumeric (c : Char) : Bool :=
  c.isDigit || c == '.' || c == 'e' || c == '-' || c == '+'

namespace Layout

/-- A text without a sign spells a decimal: digits with a point among them, or a first digit, others
behind a point if there are any, and an exponent. -/
inductive Spells (d : Decimal) : List Char → Prop
  | positional {whole fraction : List Char} (wholeDigits : whole.all Char.isDigit = true)
      (nonempty : whole ≠ []) (fractionDigits : fraction.all Char.isDigit = true)
      (value : digitsValue (whole ++ fraction) = d.significand)
      (places : 0 - (fraction.length : Int) = d.exponent) : Spells d (whole ++ '.' :: fraction)
  | scientific {first : Char} {others power : List Char} {lead : Int}
      (digit : first.isDigit = true) (otherDigits : others.all Char.isDigit = true)
      (numeric : power.all isNumeric = true) (reads : readInteger? power = some lead)
      (value : digitsValue (first :: others) = d.significand)
      (places : lead - (others.length : Int) = d.exponent) :
      Spells d (first :: ((if others.isEmpty then [] else '.' :: others) ++ 'e' :: power))

variable {text : List Char} {d : Decimal}

theorem isNumeric_of_digits {cs : List Char} (digits : cs.all Char.isDigit = true) :
    cs.all isNumeric = true := by
  simp_all [isNumeric]

theorem Spells.opens (spells : Spells d text) : ∀ c ∈ text.head?, c.isDigit = true := by
  cases spells with
  | positional wholeDigits nonempty _ =>
    obtain ⟨c, cs, rfl⟩ := List.exists_cons_of_ne_nil nonempty
    rintro d ⟨⟩
    exact isDigit_head wholeDigits c rfl
  | scientific digit =>
    rintro d ⟨⟩
    exact digit

theorem Spells.numeric (spells : Spells d text) : text.all isNumeric = true := by
  cases spells with
  | positional wholeDigits _ fractionDigits =>
    rw [List.all_append, isNumeric_of_digits wholeDigits, List.all_cons,
      isNumeric_of_digits fractionDigits]
    rfl
  | @scientific first others _ _ digit otherDigits numeric _ =>
    have fraction : (if others.isEmpty then [] else '.' :: others).all isNumeric = true := by
      split
      · rfl
      · rw [List.all_cons, isNumeric_of_digits otherDigits]
        rfl
    have head : isNumeric first = true := by simp [isNumeric, digit]
    rw [List.all_cons, List.all_append, List.all_cons, head, fraction, numeric]
    rfl

/-- A decimal is spelled with a point or an exponent, so it is no integer. -/
theorem Spells.exists_not_digit (spells : Spells d text) : ∃ c ∈ text, c.isDigit = false := by
  cases spells with
  | positional => exact ⟨'.', by simp, rfl⟩
  | scientific => exact ⟨'e', by simp, rfl⟩

/-- What spells a decimal reads as it, with a sign as well. -/
theorem Spells.read?_eq (spells : Spells d text) (negative : Bool) :
    read? ((if negative then ['-'] else []) ++ text) = some ⟨negative, d⟩ := by
  have sign := takeSign_signed negative spells.opens
  cases spells with
  | @positional whole fraction wholeDigits nonempty fractionDigits value places =>
    have point : takeFraction ('.' :: fraction) = (fraction, []) := by
      have read := takeFraction_point fractionDigits endsDigits_nil
      rwa [List.append_nil] at read
    rw [read?_of_parts sign wholeDigits (.inl nonempty) (endsDigits_cons rfl) point rfl, value, places]
  | @scientific first others power lead digit otherDigits numeric reads value places =>
    have power' : readExponent? ('e' :: power) = some lead := reads
    have ends : EndsDigits ('e' :: power) := endsDigits_cons rfl
    have number : (⟨digitsValue ([first] ++ others), lead - others.length⟩ : Decimal) = d :=
      congrArg₂ Decimal.mk value places
    have first' : [first].all Char.isDigit = true := by simp [digit]
    by_cases alone : others = []
    · subst alone
      rw [read?_of_parts sign first' (.inl (List.cons_ne_nil _ _)) ends rfl power', number]
    · have present : others.isEmpty = false := by simp [alone]
      rw [present] at sign
      have point := takeFraction_point otherDigits ends
      rw [present, read?_of_parts sign first' (.inl (List.cons_ne_nil _ _)) (endsDigits_cons rfl) point
        power', number]

/-! ## What a layout writes -/

/-- A whole number is spelled with one more zero than it has powers of ten. -/
theorem spells_whole (n : Nat) {exponent : Int} (whole : 0 ≤ exponent) :
    Spells ⟨10 ^ (exponent.toNat + 1) * n, exponent - ((exponent.toNat + 1 : Nat) : Int)⟩
      (positional (Nat.toDigits 10 n) exponent) := by
  have zeros : List.replicate exponent.toNat '0' ++ ['0'] =
      List.replicate (exponent.toNat + 1) '0' := List.replicate_succ'.symm
  rw [positional, if_pos whole]
  refine .positional (by rw [List.all_append, isDigit_toDigits, isDigit_zeros]; rfl)
    (by simp [Nat.toDigits_ne_nil]) rfl ?_ ?_
  · rw [List.append_assoc, zeros, digitsValue_append_zeros, digitsValue_toDigits]
  · simp only [List.length_singleton]
    omega

/-- A fraction is spelled as it is, be its point among the digits or in front of them. -/
theorem spells_fraction (n : Nat) {exponent : Int} (fraction : ¬0 ≤ exponent) :
    Spells ⟨n, exponent⟩ (positional (Nat.toDigits 10 n) exponent) := by
  have digits := isDigit_toDigits n
  have places : ((-exponent).toNat : Int) = -exponent := by omega
  rw [positional, if_neg fraction]
  by_cases inside : (-exponent).toNat < (Nat.toDigits 10 n).length
  · have nonempty :
        (Nat.toDigits 10 n).take ((Nat.toDigits 10 n).length - (-exponent).toNat) ≠ [] := by
      simp only [ne_eq, List.take_eq_nil_iff, Nat.toDigits_ne_nil, or_false]
      omega
    have split : ∀ count, ((Nat.toDigits 10 n).take count).all Char.isDigit = true ∧
        ((Nat.toDigits 10 n).drop count).all Char.isDigit = true := by
      intro count
      rw [← Bool.and_eq_true, ← List.all_append, List.take_append_drop]
      exact digits
    rw [if_pos inside]
    refine .positional (split _).1 nonempty (split _).2 ?_ ?_
    · rw [List.take_append_drop, digitsValue_toDigits]
    · simp only [List.length_drop]
      omega
  · -- Zeros fill the places up to the digits.
    rw [if_neg inside]
    refine @Spells.positional _ ['0'] _ rfl (List.cons_ne_nil _ _)
      (by rw [List.all_append, digits, isDigit_zeros]; rfl) ?_ ?_
    · rw [← List.append_assoc]
      exact (digitsValue_zeros _ _).trans (digitsValue_toDigits n)
    · simp only [List.length_append, List.length_replicate]
      omega

/-- The exponent of a number is read, whether a plus sign stands before it or not. -/
theorem readInteger?_power {sign : List Char} (signed : sign = [] ∨ sign = ['+']) (lead : Int) :
    readInteger? ((if lead < 0 then ['-'] else sign) ++ Nat.toDigits 10 lead.natAbs) = some lead := by
  have opens := takeSign_of_digit (isDigit_head (isDigit_toDigits lead.natAbs))
  have reads := readInteger?_writeInteger lead
  unfold writeInteger at reads
  split_ifs at reads ⊢
  · exact reads
  · rcases signed with rfl | rfl
    · exact reads
    · rw [readInteger?, opens] at reads
      exact reads

theorem isNumeric_power {sign : List Char} (signed : sign = [] ∨ sign = ['+']) (lead : Int) :
    ((if lead < 0 then ['-'] else sign) ++ Nat.toDigits 10 lead.natAbs).all isNumeric = true := by
  rw [List.all_append, isNumeric_of_digits (isDigit_toDigits _), Bool.and_true]
  split_ifs
  · rfl
  · rcases signed with rfl | rfl <;> rfl

/-- A first digit, the others behind a point, and an exponent spell the number. -/
theorem spells_scientific {layout : Layout}
    (signed : layout.exponentSign = [] ∨ layout.exponentSign = ['+']) (n : Nat) (exponent : Int) :
    Spells ⟨n, exponent⟩ (layout.scientific (Nat.toDigits 10 n)
      (exponent + (Nat.toDigits 10 n).length - 1)) := by
  have digits := isDigit_toDigits n
  have value := digitsValue_toDigits n
  obtain ⟨first, others, same⟩ := List.exists_cons_of_ne_nil (Nat.toDigits_ne_nil (b := 10) (n := n))
  rw [same, List.all_cons, Bool.and_eq_true] at digits
  rw [same] at value ⊢
  refine .scientific digits.1 digits.2 (isNumeric_power signed _) (readInteger?_power signed _) value ?_
  simp only [List.tail_cons, List.length_cons]
  omega

/-- What a layout writes spells the number, perhaps with zeros behind it. -/
theorem spells_writeDecimal {layout : Layout}
    (signed : layout.exponentSign = [] ∨ layout.exponentSign = ['+']) (d : Decimal) :
    ∃ zeros : Nat, Spells ⟨10 ^ zeros * d.significand, d.exponent - zeros⟩
      (layout.writeDecimal d) := by
  have unchanged : d = ⟨10 ^ 0 * d.significand, d.exponent - ((0 : Nat) : Int)⟩ := by
    rw [Nat.pow_zero, Nat.one_mul, Int.natCast_zero, Int.sub_zero]
  rw [writeDecimal]
  split_ifs
  · by_cases whole : 0 ≤ d.exponent
    · exact ⟨_, spells_whole d.significand whole⟩
    · exact ⟨0, unchanged ▸ spells_fraction d.significand whole⟩
  · exact ⟨0, unchanged ▸ spells_scientific signed d.significand d.exponent⟩

end Layout

namespace Binary64

/-- Zeros behind a number do not change which magnitude is nearest to it. -/
theorem rankOfDecimal_zeros (zeros significand : Nat) (exponent : Int) :
    rankOfDecimal ⟨10 ^ zeros * significand, exponent - zeros⟩ =
      rankOfDecimal ⟨significand, exponent⟩ := by
  induction zeros generalizing exponent with
  | zero => rw [Nat.pow_zero, Nat.one_mul, Int.natCast_zero, Int.sub_zero]
  | succ zeros ih =>
    have factor : 10 ^ (zeros + 1) * significand = 10 * (10 ^ zeros * significand) := by
      rw [Nat.pow_succ']
      exact Nat.mul_assoc ..
    have back : exponent - ((zeros + 1 : Nat) : Int) + 1 = exponent - zeros := by omega
    rw [factor, rankOfDecimal_shift, back, ih]

variable {layout : Layout} {x : Binary64}

/-- What a layout writes for a finite number is its sign and a text that spells a decimal nearest to
the number. -/
theorem exists_spells_write (signed : layout.exponentSign = [] ∨ layout.exponentSign = ['+'])
    (finite : x.isFinite = true) :
    ∃ negative d text, layout.write x = (if negative then ['-'] else []) ++ text ∧
      Layout.Spells d text ∧ ofNumeral ⟨negative, d⟩ = x := by
  cases x with
  | finite negative rank =>
    have nearest := rankOfDecimal_shortestDecimal layout.tie rank
    rw [Layout.write]
    generalize shortestDecimal layout.tie rank = d at nearest ⊢
    obtain ⟨zeros, spells⟩ := Layout.spells_writeDecimal signed d
    have nearest' : rankOfDecimal ⟨10 ^ zeros * d.significand, d.exponent - zeros⟩ = rank :=
      (rankOfDecimal_zeros zeros _ _).trans nearest
    refine ⟨negative, _, _, rfl, spells, ?_⟩
    rw [ofNumeral_eq_ofRank, nearest', ofRank, dif_pos rank.isLt]
  | infinite | nan => simp [isFinite] at finite

/-- **Main.** A finite number that is written in any layout reads back as itself. -/
theorem ofNumeral_write (signed : layout.exponentSign = [] ∨ layout.exponentSign = ['+'])
    (finite : x.isFinite = true) :
    (read? (layout.write x)).map ofNumeral = some x := by
  obtain ⟨negative, d, text, same, spells, nearest⟩ := exists_spells_write signed finite
  rw [same, spells.read?_eq, Option.map_some, nearest]

/-- No written number is an integer. -/
theorem readInteger?_write (signed : layout.exponentSign = [] ∨ layout.exponentSign = ['+'])
    (finite : x.isFinite = true) : readInteger? (layout.write x) = none := by
  obtain ⟨negative, d, text, same, spells, -⟩ := exists_spells_write signed finite
  obtain ⟨c, mem, other⟩ := spells.exists_not_digit
  rw [same]
  exact readInteger?_eq_none (takeSign_signed negative spells.opens) mem other

theorem isNumeric_write (signed : layout.exponentSign = [] ∨ layout.exponentSign = ['+'])
    (finite : x.isFinite = true) : (layout.write x).all isNumeric = true := by
  obtain ⟨negative, d, text, same, spells, -⟩ := exists_spells_write signed finite
  rw [same, List.all_append, spells.numeric, Bool.and_true]
  split_ifs <;> rfl

end Binary64
end ResourceQuery
