import ResourceQuery.Calendar.Date
import ResourceQuery.Decimal.Layout
import ResourceQuery.Text.Percent

/-!
# Literals

The typed values of a query.
-/

namespace ResourceQuery
set_option autoImplicit false

/-- A typed value. -/
inductive Literal
  | integer (n : Int64)
  | float (x : Binary64)
  | boolean (b : Bool)
  | null
  | date (moment : DateTime)
  | string (text : String)
deriving DecidableEq, Repr

namespace Literal

/-- The name of the type of a literal, as error messages give it. -/
def typeName : Literal → String
  | .integer _ => "integer"
  | .float _ => "float"
  | .boolean _ => "boolean"
  | .null => "null"
  | .date _ => "date"
  | .string _ => "string"

/-- Equality of values: numbers compare numerically, so the two zeros are equal and a not-a-number
equals nothing. -/
def equals : Literal → Literal → Bool
  | .float x, .float y => x.equals y
  | a, b => a == b

/-- Equality of lists of values. -/
def equalLists : List Literal → List Literal → Bool
  | [], [] => true
  | a :: as, b :: bs => a.equals b && equalLists as bs
  | _, _ => false

end Literal
end ResourceQuery
