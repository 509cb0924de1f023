/-!
# Why a text is no date

`Fault` lists what can go wrong while a text is matched against a format and the fields it
supplies are put together.
-/

namespace ResourceQuery.Calendar
set_option autoImplicit false

/-- Why a text is no date in a format. -/
inductive Fault
  /-- A value lies outside of the range of its field, or the date does not exist. -/
  | outOfRange
  /-- The fields contradict each other. -/
  | impossible
  /-- The fields do not determine a date or a time. -/
  | notEnough
  /-- A character cannot stand where it does. -/
  | invalid
  /-- The text ends too early. -/
  | tooShort
  /-- Text is left over. -/
  | tooLong
  /-- The format itself has a part that cannot be matched. -/
  | badFormat
deriving DecidableEq, Repr

/-- The wording of a fault. -/
def Fault.message : Fault → String
  | .outOfRange => "input is out of range"
  | .impossible => "no possible date and time matching input"
  | .notEnough => "input is not enough for unique date and time"
  | .invalid => "input contains invalid characters"
  | .tooShort => "premature end of input"
  | .tooLong => "trailing input"
  | .badFormat => "bad or unsupported format string"

end ResourceQuery.Calendar
