import ResourceQuery.Calendar.Digits
import ResourceQuery.Calendar.Name
import ResourceQuery.Text.Blank

/-!
# Offsets from universal time

An offset is a sign, two digits of hours and two of minutes, with any colons and blanks between
them. Its value is in seconds. Some styles accept a name for the offset zero.
-/

namespace ResourceQuery.Calendar
set_option autoImplicit false
open Text

/-- How an offset may be written. -/
inductive OffsetStyle
  /-- With a sign, hours and minutes. -/
  | full
  /-- In full, without the minutes, or as `Z`. -/
  | short
  /-- In full, as `Z`, or as `UTC`. -/
  | named
deriving DecidableEq, Repr

/-- The rest of a text that opens with a name for the offset zero. -/
def OffsetStyle.afterZero? (style : OffsetStyle) (cs : List Char) : Option (List Char) :=
  if style = .full then none
  else if style = .named ∧ opensWith ['u', 't', 'c'] cs then some (cs.drop 3)
  else if opensWith ['z'] cs then some (cs.drop 1)
  else none

/-- The sign of an offset, and the rest. The minus sign proper counts as well as the hyphen. -/
def takeSign : List Char → Except Fault (Int × List Char)
  | [] => .error .tooShort
  | c :: rest =>
    if c = '+' then .ok (1, rest)
    else if c = '-' ∨ c = '\u2212' then .ok (-1, rest)
    else .error .invalid

/-- What may stand between hours and minutes. -/
def isOffsetGap (c : Char) : Bool :=
  c == ':' || isBlank c

/-- An offset with a sign in seconds, and the rest. -/
def takeSignedOffset (style : OffsetStyle) (cs : List Char) : Except Fault (Int × List Char) := do
  let (sign, unsigned) ← takeSign cs
  let (hours, behind) ← takeDigits 2 unsigned
  let rest := behind.dropWhile isOffsetGap
  if style = .short ∧ rest.isEmpty then return (sign * (hours * 3600), [])
  let (minutes, rest) ← takeDigits 2 rest
  if 59 < minutes then throw .outOfRange
  return (sign * (hours * 3600 + minutes * 60), rest)

/-- An offset in seconds, and the rest. Blanks may come first. -/
def takeOffset (style : OffsetStyle) (text : List Char) : Except Fault (Int × List Char) :=
  let cs := text.dropWhile isBlank
  match style.afterZero? cs with
  | some rest => .ok (0, rest)
  | none => takeSignedOffset style cs

end ResourceQuery.Calendar
