import Mathlib.Tactic
import ResourceQuery.Decimal.Shortest

/-!
# Ranks of decimals

A decimal is read as the binary64 magnitude nearest to it, which depends on the number alone and not
on how it is written. The shortest decimal of a magnitude is read as that magnitude: each decimal
that is tried is read before it is taken, and the one that is left if none is taken is exact.
-/

namespace ResourceQuery.Binary64
set_option autoImplicit false

/-! ## Rounding -/

/-- Rounding a quotient depends on its value alone. -/
theorem roundQuotient_mul {c : Nat} (positive : 0 < c) (num den : Nat) :
    roundQuotient (c * num) (c * den) = roundQuotient num den := by
  have below : 2 * (c * (num % den)) < c * den ↔ 2 * (num % den) < den := by
    rw [Nat.mul_left_comm]
    exact Nat.mul_lt_mul_left positive
  have above : c * den < 2 * (c * (num % den)) ↔ den < 2 * (num % den) := by
    rw [Nat.mul_left_comm 2]
    exact Nat.mul_lt_mul_left positive
  simp only [roundQuotient, Nat.mul_div_mul_left _ _ positive, Nat.mul_mod_mul_left, below, above]

/-- The nearest rank depends on the value of a quotient alone. -/
theorem nearestRank_mul {c : Nat} (positive : 0 < c) (num den : Nat) :
    nearestRank (c * num) (c * den) = nearestRank num den := by
  simp only [nearestRank, Nat.mul_div_mul_left _ _ positive, Nat.mul_assoc,
    roundQuotient_mul positive]

/-- A quotient below one half is nearest to zero. -/
theorem nearestRank_of_lt {num den : Nat} (small : 2 * num < den) : nearestRank num den = 0 := by
  have none : num / den = 0 := Nat.div_eq_of_lt (by omega)
  have all : num % den = num := Nat.mod_eq_of_lt (by omega)
  simp [nearestRank, roundQuotient, none, all, small]

/-- A whole number of units is its own rank where it is one. -/
theorem roundQuotient_mul_right {den : Nat} (positive : 0 < den) (n : Nat) :
    roundQuotient (n * den) (1 * den) = n := by
  simp [roundQuotient, Nat.mul_div_cancel _ positive, positive]

theorem binadeSize_eq : binadeSize = 2 ^ 52 := by decide

/-- Above the lowest binade a magnitude has as many binary digits as its binade says. -/
theorem log2_units {rank : Nat} (high : binadeSize ≤ rank) :
    Nat.log2 (units rank) = doublings rank + 52 := by
  have inside : rank % binadeSize < binadeSize := Nat.mod_lt _ (by decide)
  have whole : units rank = (binadeSize + rank % binadeSize) * 2 ^ doublings rank := by
    simp only [units, significand, if_neg (Nat.not_lt.2 high), Nat.pow_eq]
  have least : 2 ^ (doublings rank + 52) ≤ units rank := by
    rw [whole, Nat.pow_add, Nat.mul_comm, ← binadeSize_eq]
    exact Nat.mul_le_mul_right _ (Nat.le_add_right _ _)
  have greatest : units rank < 2 ^ (doublings rank + 52 + 1) := by
    have double : 2 ^ (doublings rank + 52 + 1) = (binadeSize + binadeSize) * 2 ^ doublings rank := by
      rw [binadeSize_eq]
      ring
    rw [whole, double]
    exact Nat.mul_lt_mul_of_pos_right (Nat.add_lt_add_left inside _) (by positivity)
  have positive : units rank ≠ 0 := by
    have := Nat.two_pow_pos (doublings rank + 52)
    omega
  exact (Nat.log2_eq_iff positive).2 ⟨least, greatest⟩

/-- The rank of a magnitude is the rank nearest to it. -/
theorem nearestRank_units (rank : Nat) : nearestRank (units rank) 1 = rank := by
  by_cases low : rank < binadeSize
  · have whole : units rank = rank := by
      have first : rank / binadeSize = 0 := Nat.div_eq_of_lt low
      simp [units, significand, doublings, low, first]
    have bits : Nat.log2 rank - 52 = 0 := by
      rcases Nat.eq_zero_or_pos rank with rfl | positive
      · rfl
      · rw [binadeSize_eq] at low
        have := (Nat.log2_lt positive.ne').2 low
        omega
    simp [nearestRank, whole, bits, roundQuotient, Nat.mod_one]
  · have high : binadeSize ≤ rank := Nat.not_lt.1 low
    have shift : Nat.log2 (units rank / 1) - 52 = doublings rank := by
      rw [Nat.div_one, log2_units high]
      omega
    have first : 1 ≤ rank / binadeSize := (Nat.one_le_div_iff (by decide)).2 high
    have split : rank / binadeSize * binadeSize + rank % binadeSize = rank := Nat.div_add_mod' ..
    have previous : rank / binadeSize * binadeSize =
        (rank / binadeSize - 1) * binadeSize + binadeSize := by
      rw [Nat.sub_mul, Nat.one_mul, Nat.sub_add_cancel (Nat.le_mul_of_pos_left _ first)]
    have positive : 0 < Nat.pow 2 (doublings rank) := Nat.two_pow_pos _
    rw [nearestRank, shift, units, roundQuotient_mul_right positive, significand, if_neg low,
      doublings]
    omega

/-! ## Decimals -/

/-- A zero at the end of the significand counts as much as one in the exponent. -/
theorem rankOfDecimal_shift (significand : Nat) (exponent : Int) :
    rankOfDecimal ⟨10 * significand, exponent⟩ = rankOfDecimal ⟨significand, exponent + 1⟩ := by
  unfold rankOfDecimal
  generalize unitDenominator = unit
  by_cases whole : 0 ≤ exponent
  · have power : (exponent + 1).toNat = exponent.toNat + 1 := by omega
    have noPlaces : (-exponent).toNat = 0 ∧ (-(exponent + 1)).toNat = 0 := by omega
    have numerator : 10 * significand * Nat.pow 10 exponent.toNat * unit =
        significand * Nat.pow 10 (exponent.toNat + 1) * unit := by
      simp only [Nat.pow_eq, Nat.pow_succ]
      ring
    rw [power, noPlaces.1, noPlaces.2, numerator]
  · have power : exponent.toNat = 0 ∧ (exponent + 1).toNat = 0 := by omega
    have places : (-exponent).toNat = (-(exponent + 1)).toNat + 1 := by omega
    have numerator : 10 * significand * Nat.pow 10 0 * unit =
        10 * (significand * Nat.pow 10 0 * unit) := by ring
    have denominator : Nat.pow 10 ((-(exponent + 1)).toNat + 1) =
        10 * Nat.pow 10 (-(exponent + 1)).toNat := by
      simp only [Nat.pow_eq, Nat.pow_succ]
      ring
    rw [power.1, power.2, places, numerator, denominator, nearestRank_mul (by decide)]

/-- Zeros at the end of a significand can be moved to the exponent. -/
theorem rankOfDecimal_trim (d : Decimal) : rankOfDecimal d.trim = rankOfDecimal d := by
  induction d using Decimal.trim.induct with
  | case1 d ends ih =>
    have split : 10 * (d.significand / 10) = d.significand := by omega
    have moved := rankOfDecimal_shift (d.significand / 10) d.exponent
    rw [split] at moved
    rw [Decimal.trim, if_pos ends, ih, ← moved]
  | case2 d ends => rw [Decimal.trim, if_neg ends]

/-- What is taken from a grid reads back. -/
theorem rankOfDecimal_onGrid? {tie : Tie} {rank : Nat} {exponent : Int} {d : Decimal}
    (taken : onGrid? tie rank exponent = some d) : rankOfDecimal d = rank := by
  unfold onGrid? at taken
  have reads := List.find?_some taken
  exact eq_of_beq reads

/-- A unit is a power of two. -/
theorem unitDenominator_eq : unitDenominator = 2 ^ unitPlaces := by
  unfold unitDenominator
  -- A power with so many places is not to be computed.
  generalize unitPlaces = places
  rfl

/-- The number of units that is written out in full reads back. -/
theorem rankOfDecimal_exactDecimal (rank : Nat) : rankOfDecimal (exactDecimal rank) = rank := by
  rw [exactDecimal, rankOfDecimal, unitDenominator_eq]
  generalize unitPlaces = places
  have whole : (-places : Int).toNat = 0 ∧ (- -places : Int).toNat = places := by omega
  have numerator : units rank * Nat.pow 5 places * Nat.pow 10 0 * 2 ^ places =
      Nat.pow 10 places * units rank := by
    have split : (10 : Nat) ^ places = 5 ^ places * 2 ^ places := by rw [← Nat.mul_pow]
    simp only [Nat.pow_eq, split]
    ring
  have positive : 0 < Nat.pow 10 places := Nat.pow_pos (by decide)
  have scaled := nearestRank_mul positive (units rank) 1
  rw [Nat.mul_one] at scaled
  simp only [whole.1, whole.2, numerator, scaled, nearestRank_units]

theorem rankOfDecimal_zero (exponent : Int) : rankOfDecimal ⟨0, exponent⟩ = 0 := by
  have positive : 0 < Nat.pow 10 (-exponent).toNat := Nat.pow_pos (by decide)
  unfold rankOfDecimal
  simp only [Nat.zero_mul]
  exact nearestRank_of_lt positive

/-- The shortest decimal of a magnitude reads back as that magnitude. -/
theorem rankOfDecimal_shortestDecimal (tie : Tie) (rank : Nat) :
    rankOfDecimal (shortestDecimal tie rank) = rank := by
  unfold shortestDecimal
  split
  · next zero =>
    subst zero
    exact rankOfDecimal_zero 0
  · rw [rankOfDecimal_trim]
    cases found : (List.range 17).findSome? fun extra : Nat =>
        onGrid? tie rank (leadingExponent rank - extra) with
    | none => exact rankOfDecimal_exactDecimal rank
    | some d =>
      obtain ⟨extra, -, taken⟩ := List.exists_of_findSome?_eq_some found
      exact rankOfDecimal_onGrid? taken

/-! ## Numerals -/

/-- A power of ten has at least three binary digits for each zero. -/
theorem two_pow_le_ten_pow (n : Nat) : 2 ^ (3 * n) ≤ 10 ^ n := by
  rw [Nat.pow_mul]
  exact Nat.pow_le_pow_left (by decide) n

/-- A number with enough binary digits lies past the last rank. -/
theorem rankCount_le_nearestRank {num digits : Nat} (enough : 2099 ≤ digits)
    (large : 2 ^ digits ≤ num) : rankCount ≤ nearestRank num 1 := by
  have positive : num ≠ 0 := by
    have := Nat.two_pow_pos digits
    omega
  have bits : digits ≤ Nat.log2 (num / 1) := by
    rw [Nat.div_one]
    exact (Nat.le_log2 positive).2 large
  have binades : 2047 * binadeSize ≤ (Nat.log2 (num / 1) - 52) * binadeSize :=
    Nat.mul_le_mul_right _ (by omega)
  exact Nat.le_trans binades (Nat.le_add_right _ _)

/-- The first shortcut of reading passes over decimals past the last rank. -/
theorem rankCount_le_of_exceedsAll {d : Decimal} (exceeds : exceedsAll d = true) :
    rankCount ≤ rankOfDecimal d := by
  obtain ⟨significand, exponent⟩ := d
  simp only [exceedsAll, Bool.and_eq_true, bne_iff_ne, decide_eq_true_eq] at exceeds
  obtain ⟨nonzero, large⟩ := exceeds
  have places := unitPlaces.eq_1
  have noPlaces : (-exponent).toNat = 0 := by omega
  have power : 2 ^ (3 * exponent.toNat) ≤ Nat.pow 10 exponent.toNat := two_pow_le_ten_pow _
  have enough : 2099 ≤ 3 * exponent.toNat + unitPlaces := by omega
  simp only [rankOfDecimal, noPlaces]
  refine rankCount_le_nearestRank enough ?_
  rw [Nat.pow_add, unitDenominator_eq]
  refine Nat.mul_le_mul_right _ (Nat.le_trans power ?_)
  exact Nat.le_mul_of_pos_left _ (Nat.pos_of_ne_zero nonzero)

/-- The second shortcut of reading passes over decimals nearest to zero. -/
theorem rankOfDecimal_of_isNegligible {d : Decimal} (negligible : isNegligible d = true) :
    rankOfDecimal d = 0 := by
  obtain ⟨significand, exponent⟩ := d
  simp only [isNegligible, Bool.or_eq_true, beq_iff_eq, decide_eq_true_eq] at negligible
  rcases negligible with rfl | small
  · exact rankOfDecimal_zero exponent
  · have places := unitPlaces.eq_1
    have whole : exponent.toNat = 0 := by omega
    have digits : significand < 2 ^ (Nat.log2 significand + 1) := Nat.lt_log2_self
    simp only [rankOfDecimal, whole]
    refine nearestRank_of_lt ?_
    calc 2 * (significand * Nat.pow 10 0 * unitDenominator)
        = significand * 2 ^ (unitPlaces + 1) := by
          rw [unitDenominator_eq, Nat.pow_succ, Nat.pow_eq, Nat.pow_zero]
          ring
      _ < 2 ^ (Nat.log2 significand + 1) * 2 ^ (unitPlaces + 1) :=
        Nat.mul_lt_mul_of_pos_right digits (Nat.two_pow_pos _)
      _ = 2 ^ (Nat.log2 significand + 1 + (unitPlaces + 1)) := (Nat.pow_add ..).symm
      _ ≤ 2 ^ (3 * (-exponent).toNat) := Nat.pow_le_pow_right (by decide) (by omega)
      _ ≤ Nat.pow 10 (-exponent).toNat := two_pow_le_ten_pow _

/-- A numeral is read as the number of the rank nearest to it, however large or small it is. -/
theorem ofNumeral_eq_ofRank (n : Numeral) :
    ofNumeral n = ofRank n.negative (rankOfDecimal n.magnitude) := by
  unfold ofNumeral
  split
  · next exceeds =>
    rw [ofRank, dif_neg (Nat.not_lt.2 (rankCount_le_of_exceedsAll exceeds))]
  · split
    · next negligible => rw [rankOfDecimal_of_isNegligible negligible]
    · rfl

end ResourceQuery.Binary64
