import ResourceQuery.Calendar.Offset

/-!
# Format items

A date format is a text in which `%` and a letter stand for a part of a date. `Item.ofText` cuts a
format into its items: runs of blanks, runs of other literal characters, and what the letters stand
for. A letter may stand for several items in a row. A `%` that opens nothing known becomes the item
`unknown`, and what follows it is of no interest.
-/

namespace ResourceQuery.Calendar
set_option autoImplicit false
open Text

/-- What a text can say about a moment. -/
inductive Field
  | year
  | century
  | yearOfCentury
  /-- The year that a week is counted in. -/
  | weekYear
  | weekYearOfCentury
  | quarter
  | month
  | day
  /-- The week of the year, the first one starting on its first Sunday. -/
  | sundayWeek
  /-- The week of the year, the first one starting on its first Monday. -/
  | mondayWeek
  /-- The week of the week year, the first one holding its first Thursday. -/
  | week
  /-- The days since Monday. -/
  | weekday
  | dayOfYear
  /-- Zero before noon and one after it. -/
  | halfDay
  /-- The hours since midnight or noon. -/
  | hourOfHalf
  | minute
  | second
  | nanosecond
  /-- The seconds since the start of 1970. -/
  | timestamp
  /-- The seconds that local time is ahead of universal time. -/
  | offset
deriving DecidableEq, Repr

/-- What a number stands for. -/
inductive Quantity
  /-- The value of a field. -/
  | value (f : Field)
  /-- The hour of the day. -/
  | hour
  /-- The hour on the face of a clock, from 1 to 12. -/
  | clockHour
  /-- The weekday, with zero for Sunday. -/
  | weekdayFromSunday
  /-- The weekday, with one for Monday. -/
  | weekdayFromMonday
deriving DecidableEq, Repr

/-- The number a letter of a format stands for. -/
def Quantity.ofLetter? : Char → Option Quantity
  | 'Y' => some (.value .year)
  | 'C' => some (.value .century)
  | 'y' => some (.value .yearOfCentury)
  | 'G' => some (.value .weekYear)
  | 'g' => some (.value .weekYearOfCentury)
  | 'q' => some (.value .quarter)
  | 'm' => some (.value .month)
  | 'd' | 'e' => some (.value .day)
  | 'j' => some (.value .dayOfYear)
  | 'U' => some (.value .sundayWeek)
  | 'W' => some (.value .mondayWeek)
  | 'V' => some (.value .week)
  | 'w' => some .weekdayFromSunday
  | 'u' => some .weekdayFromMonday
  | 'H' | 'k' => some .hour
  | 'I' | 'l' => some .clockHour
  | 'M' => some (.value .minute)
  | 'S' => some (.value .second)
  | 'f' => some (.value .nanosecond)
  | 's' => some (.value .timestamp)
  | _ => none

/-- One part of a format. -/
inductive Item
  /-- Any number of blanks, none included. -/
  | blanks
  /-- Exactly this text. -/
  | literal (text : List Char)
  /-- A number. -/
  | number (q : Quantity)
  /-- The name of a month or its first letters. -/
  | monthName (long : Bool)
  /-- The name of a weekday or its first letters. -/
  | weekdayName (long : Bool)
  /-- The name of a half of the day. -/
  | halfDayName
  /-- Any number of characters that are not blank: the name of a time zone. -/
  | zoneName
  /-- An offset from universal time. -/
  | offset (style : OffsetStyle)
  /-- The `T` or the space between a day and a time of day. -/
  | timeMark
  /-- A point and decimal places of the second, or nothing. -/
  | fraction
  /-- A point and this many decimal places of the second, or nothing. -/
  | pointFraction (places : Nat)
  /-- This many decimal places of the second. -/
  | bareFraction (places : Nat)
  /-- A part that nothing matches. -/
  | unknown
deriving DecidableEq, Repr

namespace Item

/-! ## What letters stand for -/

/-- A number that is the value of a field. -/
def field (f : Field) : Item := .number (.value f)

/-- A literal character. -/
def sign (c : Char) : Item := .literal [c]

/-- Hour and minute. -/
def shortTime : List Item :=
  [.number .hour, sign ':', field .minute]

/-- Hour, minute and second. -/
def wholeTime : List Item :=
  shortTime ++ [sign ':', field .second]

/-- Hour of the clock, minute, second and half of the day. -/
def clockTime : List Item :=
  [.number .clockHour, sign ':', field .minute, sign ':', field .second, .blanks, .halfDayName]

/-- Month, day and year of the century. -/
def shortDate : List Item :=
  [field .month, sign '/', field .day, sign '/', field .yearOfCentury]

/-- Year, month and day. -/
def isoDate : List Item :=
  [field .year, sign '-', field .month, sign '-', field .day]

/-- Day, short name of the month, and year. -/
def namedDate : List Item :=
  [field .day, sign '-', .monthName false, sign '-', field .year]

/-- Weekday, month and day, time of day, and year, with blanks between them. -/
def stamp : List Item :=
  [.weekdayName false, .blanks, .monthName false, .blanks, field .day, .blanks] ++ wholeTime ++
    [.blanks, field .year]

/-- Date, time of day and offset in one. Blanks may stand before each separator of a date or time. -/
def moment : List Item :=
  [field .year, .blanks, sign '-', field .month, .blanks, sign '-', field .day, .timeMark,
    .number .hour, .blanks, sign ':', field .minute, .blanks, sign ':', field .second, .fraction,
    .blanks, .offset .named]

/-- The items a letter of a format stands for. -/
def ofLetter? : Char → Option (List Item)
  | 'A' => some [.weekdayName true]
  | 'a' => some [.weekdayName false]
  | 'B' => some [.monthName true]
  | 'b' | 'h' => some [.monthName false]
  | 'p' | 'P' => some [.halfDayName]
  | 'Z' => some [.zoneName]
  | 'z' => some [.offset .full]
  | 'n' | 't' => some [.blanks]
  | 'R' => some shortTime
  | 'T' | 'X' => some wholeTime
  | 'r' => some clockTime
  | 'D' | 'x' => some shortDate
  | 'F' => some isoDate
  | 'v' => some namedDate
  | 'c' => some stamp
  | '+' => some moment
  | c => (Quantity.ofLetter? c).map fun q => [.number q]

/-! ## Cutting a format -/

/-- A character that a literal run goes on with. -/
def isPlain (c : Char) : Bool :=
  !isBlank c && c != '%'

/-- The number of decimal places a digit can ask for. -/
def places? : Char → Option Nat
  | '3' => some 3
  | '6' => some 6
  | '9' => some 9
  | _ => none

/-- A modifier of a number that asks for some padding. Reading ignores it. -/
def isPadding (c : Char) : Bool :=
  c == '-' || c == '_' || c == '0'

/-- The items behind a `%` and the rest of the format. -/
def ofSpecifier? : List Char → Option (List Item × List Char)
  | '%' :: rest => some ([sign '%'], rest)
  | '.' :: 'f' :: rest => some ([.fraction], rest)
  | '.' :: c :: 'f' :: rest => (places? c).map fun n => ([.pointFraction n], rest)
  | ':' :: 'z' :: rest => some ([.offset .full], rest)
  | ':' :: ':' :: 'z' :: rest => some ([.offset .full], rest)
  | ':' :: ':' :: ':' :: 'z' :: rest => some ([.offset .full], rest)
  | '#' :: 'z' :: rest => some ([.offset .short], rest)
  | c :: d :: rest =>
    if isPadding c then (Quantity.ofLetter? d).map fun q => ([.number q], rest)
    else if d == 'f' && (places? c).isSome then (places? c).map fun n => ([.bareFraction n], rest)
    else (ofLetter? c).map fun items => (items, d :: rest)
  | [c] => (ofLetter? c).map fun items => (items, [])
  | [] => none

/-- A specifier takes at least one character. -/
theorem length_ofSpecifier? {cs rest : List Char} {items : List Item}
    (h : ofSpecifier? cs = some (items, rest)) : rest.length < cs.length := by
  unfold ofSpecifier? at h
  split at h
  case h_8 =>
    split at h
    · obtain ⟨_, _, _, rfl⟩ := by simpa using h
      simp only [List.length_cons]
      omega
    · split at h
      · obtain ⟨_, _, _, rfl⟩ := by simpa using h
        simp only [List.length_cons]
        omega
      · obtain ⟨_, _, _, rfl⟩ := by simpa using h
        simp only [List.length_cons]
        omega
  case h_10 => simp at h
  case h_3 | h_9 =>
    obtain ⟨_, _, _, rfl⟩ := by simpa using h
    simp only [List.length_cons]
    omega
  all_goals
    obtain ⟨_, rfl⟩ := by simpa using h
    simp only [List.length_cons]
    omega

/-- The items of a format. -/
def ofText (cs : List Char) : List Item :=
  match cs with
  | [] => []
  | c :: rest =>
    if c = '%' then
      match _h : ofSpecifier? rest with
      | some (items, rest') => items ++ ofText rest'
      | none => [.unknown]
    else if isBlank c then .blanks :: ofText (rest.dropWhile isBlank)
    else .literal (c :: rest.takeWhile isPlain) :: ofText (rest.dropWhile isPlain)
termination_by cs.length
decreasing_by
  · have := length_ofSpecifier? _h
    simp; omega
  · have := (List.dropWhile_suffix (l := rest) isBlank).length_le
    simp; omega
  · have := (List.dropWhile_suffix (l := rest) isPlain).length_le
    simp; omega

end Item
end ResourceQuery.Calendar
