import ResourceQuery.Calendar.DateFormat
import ResourceQuery.Literal

/-!
# Literals from text

`Literal.infer` gives every text a type: the three words `true`, `false` and `null`, then
integers of 64 bits, finite decimal numbers, whole or partial ISO dates, and strings for all the
rest.
-/

namespace ResourceQuery.Literal
set_option autoImplicit false

/-- The 64-bit integer with this value, if there is one. -/
def int64? (n : Int) : Option Int64 :=
  if -9223372036854775808 ≤ n ∧ n ≤ 9223372036854775807 then some (Int64.ofInt n) else none

/-- The 64-bit integer that a text spells. -/
def integer? (text : String) : Option Int64 :=
  (Numeral.readInteger? text.toList).bind int64?

/-- The finite number that a text spells. -/
def float? (text : String) : Option Binary64 :=
  ((Numeral.read? text.toList).map Binary64.ofNumeral).filter Binary64.isFinite

/-- The literal that a text stands for where nothing says its type. -/
def infer (text : String) : Literal :=
  if text = "true" then .boolean true
  else if text = "false" then .boolean false
  else if text = "null" then .null
  else
    match integer? text, float? text, DateTime.parseIso text with
    | some n, _, _ => .integer n
    | none, some x, _ => .float x
    | none, none, .ok moment => .date moment
    | none, none, .error _ => .string text

end ResourceQuery.Literal
