import ResourceQuery.Calendar.Fault
import ResourceQuery.Text.Span

/-!
# Names of months, weekdays and halves of the day

A name is read by its first letters, whatever their case. A reader of whole names takes the rest of
the name too where it follows, and is content with the first letters where it does not.
-/

namespace ResourceQuery.Calendar
set_option autoImplicit false
open Text

/-- The months in lower case. -/
def monthNames : List (List Char) :=
  ["january", "february", "march", "april", "may", "june", "july", "august", "september", "october",
    "november", "december"].map String.toList

/-- The days of a week in lower case. -/
def weekdayNames : List (List Char) :=
  ["monday", "tuesday", "wednesday", "thursday", "friday", "saturday", "sunday"].map String.toList

/-- The halves of a day in lower case. -/
def halfDayNames : List (List Char) :=
  ["am", "pm"].map String.toList

/-- The text opens with a word of lower case letters, whatever the case of its own. -/
def opensWith (word cs : List Char) : Bool :=
  word.isPrefixOf (cs.map Char.toLower)

/-- The position of the name whose first letters open a text, and the rest. A whole name is taken as
one if it is `long`. -/
def takeName (names : List (List Char)) (letters : Nat) (long : Bool) (cs : List Char) :
    Except Fault (Nat × List Char) :=
  if size cs < letters then .error .tooShort
  else
    match names.findIdx? fun name => opensWith (name.take letters) cs with
    | none => .error .invalid
    | some position =>
      let name := names.getD position []
      if long && opensWith name cs then .ok (position, cs.drop name.length)
      else .ok (position, cs.drop letters)

end ResourceQuery.Calendar
