import ResourceQuery.Decimal.Binary64

/-!
# The shortest decimal that reads back

A finite magnitude is written with as few digits as still read back as that magnitude. For each
count of digits only the two decimals around the magnitude are tried. Of two that read back the
nearer one is taken, and a `Tie` decides between equally near ones.
-/

namespace ResourceQuery
set_option autoImplicit false

/-- Which of two equally near decimals is taken. -/
inductive Tie
  | even
  | up
deriving DecidableEq, Repr

namespace Decimal

/-- The same number without trailing zeros in its significand. -/
def trim (d : Decimal) : Decimal :=
  if d.significand ≠ 0 ∧ d.significand % 10 = 0 then
    trim ⟨d.significand / 10, d.exponent + 1⟩
  else d
termination_by d.significand

end Decimal

namespace Binary64

/-- The power of ten of the first digit of a positive magnitude. Counting the digits of the whole
number of `10 ^ -324` in it suffices, for the smallest magnitude still holds four of them. -/
def leadingExponent (rank : Nat) : Int :=
  ((Nat.toDigits 10 (units rank * Nat.pow 10 324 / unitDenominator)).length : Int) - 325

/-- The two decimals with this exponent around the magnitude, the nearer one first. -/
def neighbours (tie : Tie) (rank : Nat) (exponent : Int) : List Decimal :=
  let num := units rank * Nat.pow 10 (-exponent).toNat
  let den := unitDenominator * Nat.pow 10 exponent.toNat
  let below : Decimal := ⟨num / den, exponent⟩
  let above : Decimal := ⟨num / den + 1, exponent⟩
  let twice := 2 * (num % den)
  let preferAbove :=
    if twice < den then false
    else if den < twice then true
    else match tie with
      | .up => true
      | .even => below.significand % 2 == 1
  if preferAbove then [above, below] else [below, above]

/-- The nearer one of the decimals with this exponent around the magnitude that reads back as the
rank, if one does. -/
def onGrid? (tie : Tie) (rank : Nat) (exponent : Int) : Option Decimal :=
  (neighbours tie rank exponent).find? fun d => rankOfDecimal d == rank

/-- The magnitude written out in full, which always reads back. -/
def exactDecimal (rank : Nat) : Decimal :=
  ⟨units rank * Nat.pow 5 unitPlaces, -unitPlaces⟩

/-- The decimal with the fewest digits that reads back as the rank. Seventeen digits are enough
for every magnitude. -/
def shortestDecimal (tie : Tie) (rank : Nat) : Decimal :=
  if rank = 0 then ⟨0, 0⟩
  else
    let lead := leadingExponent rank
    (((List.range 17).findSome? fun extra : Nat => onGrid? tie rank (lead - extra)).getD
      (exactDecimal rank)).trim

end Binary64
end ResourceQuery
