import ResourceQuery.Decimal.Numeral

/-!
# Binary64 numbers

The finite magnitudes of the binary64 format are numbered in increasing order: rank 0 is zero,
rank 1 the smallest positive magnitude, and so on. Every magnitude is a whole number of `units`,
a unit being `2 ^ -1074`. A decimal is read as the magnitude nearest to it, and of two equally
near ones as the one with the even rank.
-/

namespace ResourceQuery
set_option autoImplicit false

namespace Binary64

/-- How many ranks a binade has, `2 ^ 52`. -/
def binadeSize : Nat := 4503599627370496

/-- How many finite magnitudes there are. -/
def rankCount : Nat := 2047 * binadeSize

end Binary64

/-- A number of the binary64 format, all not-a-numbers taken as one. -/
inductive Binary64
  | finite (negative : Bool) (rank : Fin Binary64.rankCount)
  | infinite (negative : Bool)
  | nan
deriving DecidableEq, Repr

namespace Binary64

/-- The significand of a rank: all of it in the lowest two binades, above them what is left of the
binade with the leading bit put back. -/
def significand (rank : Nat) : Nat :=
  if rank < binadeSize then rank else binadeSize + rank % binadeSize

/-- How many times the significand of a rank is doubled. -/
def doublings (rank : Nat) : Nat :=
  rank / binadeSize - 1

/-- The magnitude of a rank as a number of units. -/
def units (rank : Nat) : Nat :=
  significand rank * Nat.pow 2 (doublings rank)

/-- How many binary places a unit has. It has as many decimal ones. -/
def unitPlaces : Nat := 1074

/-- The denominator of a unit. -/
def unitDenominator : Nat := Nat.pow 2 unitPlaces

/-- The quotient rounded to the nearest natural number, a half to the even one. -/
def roundQuotient (num den : Nat) : Nat :=
  let q := num / den
  let twice := 2 * (num % den)
  if twice < den then q
  else if den < twice then q + 1
  else q + q % 2

/-- The rank nearest to a quotient of units. It may lie past the last finite one. -/
def nearestRank (num den : Nat) : Nat :=
  let shift := Nat.log2 (num / den) - 52
  shift * binadeSize + roundQuotient num (den * Nat.pow 2 shift)

/-- The rank nearest to a decimal. -/
def rankOfDecimal (d : Decimal) : Nat :=
  nearestRank (d.significand * Nat.pow 10 d.exponent.toNat * unitDenominator)
    (Nat.pow 10 (-d.exponent).toNat)

/-- A decimal so large that it lies past every finite magnitude. -/
def exceedsAll (d : Decimal) : Bool :=
  d.significand != 0 && decide (400 < d.exponent)

/-- A decimal so small that zero is the magnitude nearest to it: zero itself at any power of ten, and
a significand with too few binary digits to make up for a negative power of ten that takes three of
them each. -/
def isNegligible (d : Decimal) : Bool :=
  d.significand == 0 || decide ((Nat.log2 d.significand : Int) + 1080 < -3 * d.exponent)

/-- The number with this rank, infinity past the last one. -/
def ofRank (negative : Bool) (rank : Nat) : Binary64 :=
  if h : rank < rankCount then .finite negative ⟨rank, h⟩ else .infinite negative

/-- The number nearest to a numeral. The two shortcuts only avoid writing out huge powers. -/
def ofNumeral (n : Numeral) : Binary64 :=
  if exceedsAll n.magnitude then .infinite n.negative
  else if isNegligible n.magnitude then ofRank n.negative 0
  else ofRank n.negative (rankOfDecimal n.magnitude)

/-- Neither infinite nor not-a-number. -/
def isFinite : Binary64 → Bool
  | .finite .. => true
  | _ => false

/-- Numeric equality: the two zeros are equal, and a not-a-number equals nothing. -/
def equals : Binary64 → Binary64 → Bool
  | .finite s r, .finite t q => r == q && (s == t || r.val == 0)
  | .infinite s, .infinite t => s == t
  | _, _ => false

end Binary64
end ResourceQuery
