/-!
# Decimal numerals

A `Decimal` is a natural number of units at a power of ten, a `Numeral` a signed one. `read?`
accepts an optional sign, digits with at most one point among them, and an optional exponent; at
least one digit must stand before the exponent. `readInteger?` accepts a sign and digits alone.
-/

namespace ResourceQuery
set_option autoImplicit false

/-- The number `significand * 10 ^ exponent`. -/
structure Decimal where
  significand : Nat
  exponent : Int
deriving DecidableEq, Repr

/-- A decimal with a sign, which zero has too. -/
structure Numeral where
  negative : Bool
  magnitude : Decimal
deriving DecidableEq, Repr

namespace Numeral

/-- The value of a run of ASCII digits. -/
def digitsValue (digits : List Char) : Nat :=
  Nat.ofDigitChars 10 digits 0

/-- Whether a text opens with a minus sign, and the text after its sign if it has one. -/
def takeSign : List Char → Bool × List Char
  | '+' :: cs => (false, cs)
  | '-' :: cs => (true, cs)
  | cs => (false, cs)

/-- A natural number with the given sign. -/
def withSign (negative : Bool) (n : Nat) : Int :=
  if negative then -(n : Int) else n

/-- The value of a nonempty run of digits that is the whole text. -/
def readNatural? (cs : List Char) : Option Nat :=
  if !cs.isEmpty && cs.all Char.isDigit then some (digitsValue cs) else none

/-- The value of a signed run of digits that is the whole text. -/
def readInteger? (cs : List Char) : Option Int :=
  let (negative, digits) := takeSign cs
  (readNatural? digits).map (withSign negative)

/-- The decimal text of an integer. -/
def writeInteger (n : Int) : List Char :=
  if n < 0 then '-' :: Nat.toDigits 10 n.natAbs else Nat.toDigits 10 n.natAbs

/-- The digits after a point, if one comes first, and the rest. -/
def takeFraction : List Char → List Char × List Char
  | '.' :: cs => (cs.takeWhile Char.isDigit, cs.dropWhile Char.isDigit)
  | cs => ([], cs)

/-- The exponent that ends a numeral: zero if nothing is left, else `e` or `E` and an integer. -/
def readExponent? : List Char → Option Int
  | [] => some 0
  | c :: cs => if c == 'e' || c == 'E' then readInteger? cs else none

/-- The numeral a text spells. -/
def read? (cs : List Char) : Option Numeral :=
  let (negative, unsigned) := takeSign cs
  let whole := unsigned.takeWhile Char.isDigit
  let (fraction, rest) := takeFraction (unsigned.dropWhile Char.isDigit)
  if whole.isEmpty && fraction.isEmpty then none
  else
    (readExponent? rest).map fun exponent =>
      ⟨negative, digitsValue (whole ++ fraction), exponent - fraction.length⟩

/-- The digits of a natural number have its value. -/
@[simp] theorem readNatural?_toDigits (n : Nat) : readNatural? (Nat.toDigits 10 n) = some n := by
  have digits : (Nat.toDigits 10 n).all Char.isDigit = true := by
    simp only [List.all_eq_true]
    exact fun c mem => Nat.isDigit_of_mem_toDigits (by decide) (by decide) mem
  simp [readNatural?, digits, digitsValue, Nat.ofDigitChars_toDigits]

end Numeral
end ResourceQuery
