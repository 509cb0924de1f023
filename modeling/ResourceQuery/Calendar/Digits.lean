import ResourceQuery.Calendar.Fault
import ResourceQuery.Decimal.Numeral
import ResourceQuery.Text.Span

/-!
# Numbers in a date

Readers of ASCII digits at the start of a text: a number of one digit up to a given count, a number
of exactly so many digits, and the decimal places of a second. Each returns the value and the rest
of the text.
-/

namespace ResourceQuery.Calendar
set_option autoImplicit false
open Text

/-- The greatest number that is read at all. -/
def greatestNumber : Nat := 9223372036854775807

/-- A number of one digit up to a given count, and the rest. -/
def takeNumber (width : Nat) (cs : List Char) : Except Fault (Nat × List Char) :=
  if cs.isEmpty then .error .tooShort
  else
    let digits := (cs.take width).takeWhile Char.isDigit
    let n := Numeral.digitsValue digits
    if digits.isEmpty then .error .invalid
    else if greatestNumber < n then .error .outOfRange
    else .ok (n, cs.drop digits.length)

/-- A number of exactly so many digits, and the rest. A text with fewer bytes is too short, whatever
it holds. -/
def takeDigits (count : Nat) (cs : List Char) : Except Fault (Nat × List Char) :=
  if size cs < count then .error .tooShort
  else
    let digits := cs.take count
    if digits.length = count ∧ digits.all Char.isDigit then
      .ok (Numeral.digitsValue digits, cs.drop count)
    else .error .invalid

/-- Decimal places of the second as nanoseconds, and the rest. Places after the ninth are skipped. -/
def takeFraction (cs : List Char) : Except Fault (Nat × List Char) := do
  let (n, rest) ← takeNumber 9 cs
  return (n * Nat.pow 10 (9 - (cs.length - rest.length)), rest.dropWhile Char.isDigit)

/-- Exactly so many decimal places of the second as nanoseconds, and the rest. -/
def takeFixedFraction (places : Nat) (cs : List Char) : Except Fault (Nat × List Char) := do
  let (n, rest) ← takeDigits places cs
  return (n * Nat.pow 10 (9 - places), rest)

end ResourceQuery.Calendar
