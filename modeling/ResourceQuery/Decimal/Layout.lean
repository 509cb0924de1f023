import ResourceQuery.Decimal.Shortest

/-!
# Written numbers

A `Layout` holds the decisions of a format: between which powers of ten a number is written
positionally, how an exponent is signed, and how a tie between two shortest decimals goes.
Positional numbers always have a point, so none reads back as an integer.
-/

namespace ResourceQuery
set_option autoImplicit false

/-- How a format writes a binary64 number. -/
structure Layout where
  /-- The least power of ten of a first digit that is written positionally. -/
  leastPlain : Int
  /-- The greatest power of ten of a first digit that is written positionally. -/
  greatestPlain : Int
  /-- The sign of an exponent that is not negative. -/
  exponentSign : List Char
  tie : Tie
deriving DecidableEq, Repr

namespace Layout

/-- Digits with a point, the last digit counting `10 ^ exponent`. -/
def positional (digits : List Char) (exponent : Int) : List Char :=
  if 0 ≤ exponent then digits ++ List.replicate exponent.toNat '0' ++ ['.', '0']
  else
    let places := (-exponent).toNat
    if places < digits.length then
      digits.take (digits.length - places) ++ '.' :: digits.drop (digits.length - places)
    else '0' :: '.' :: (List.replicate (places - digits.length) '0' ++ digits)

/-- One digit, the others behind a point, and the power of ten of the first. -/
def scientific (layout : Layout) (digits : List Char) (lead : Int) : List Char :=
  let sign := if lead < 0 then ['-'] else layout.exponentSign
  let fraction := if digits.tail.isEmpty then [] else '.' :: digits.tail
  digits.take 1 ++ fraction ++ 'e' :: (sign ++ Nat.toDigits 10 lead.natAbs)

/-- A decimal in this format. -/
def writeDecimal (layout : Layout) (d : Decimal) : List Char :=
  let digits := Nat.toDigits 10 d.significand
  let lead := d.exponent + digits.length - 1
  if layout.leastPlain ≤ lead ∧ lead ≤ layout.greatestPlain then positional digits d.exponent
  else layout.scientific digits lead

/-- A number in this format. -/
def write (layout : Layout) : Binary64 → List Char
  | .finite negative rank =>
    (if negative then ['-'] else []) ++
      layout.writeDecimal (Binary64.shortestDecimal layout.tie rank)
  | .infinite negative => (if negative then ['-'] else []) ++ ['i', 'n', 'f']
  | .nan => ['N', 'a', 'N']

end Layout
end ResourceQuery
