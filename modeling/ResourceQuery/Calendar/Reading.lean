import ResourceQuery.Calendar.Item

/-!
# Reading a text against a format

`Reading.ofText` matches a whole text against the items of a format and collects the value of
every field on the way. A field that occurs twice must have the same value both times.
-/

namespace ResourceQuery.Calendar
set_option autoImplicit false
open Text

/-- The values that fields have been given. -/
structure Reading where
  value : Field → Option Int

namespace Field

/-- The least and the greatest value of a field. -/
def range : Field → Int × Int
  | .year | .weekYear | .offset => (-2147483648, 2147483647)
  | .century => (0, 2147483647)
  | .yearOfCentury | .weekYearOfCentury => (0, 99)
  | .quarter => (1, 4)
  | .month => (1, 12)
  | .day => (1, 31)
  | .sundayWeek | .mondayWeek => (0, 53)
  | .week => (1, 53)
  | .weekday => (0, 6)
  | .dayOfYear => (1, 366)
  | .halfDay => (0, 1)
  | .hourOfHalf => (0, 11)
  | .minute => (0, 59)
  | .second => (0, 60)
  | .nanosecond => (0, 999999999)
  | .timestamp => (-9223372036854775808, 9223372036854775807)

/-- How many digits a field has at most, if no sign comes first and there is a limit at all. -/
def width? : Field → Option Nat
  | .year | .weekYear => some 4
  | .dayOfYear => some 3
  | .nanosecond => some 9
  | .quarter | .weekday => some 1
  | .timestamp => none
  | _ => some 2

/-- Whether a number for the field may have a sign. -/
def isSigned (f : Field) : Bool :=
  f == .year || f == .weekYear

end Field

namespace Quantity

/-- The least and the greatest number. -/
def range : Quantity → Int × Int
  | .value f => f.range
  | .hour => (0, 23)
  | .clockHour => (1, 12)
  | .weekdayFromSunday => (0, 6)
  | .weekdayFromMonday => (1, 7)

/-- How many digits the number has at most, if no sign comes first and there is a limit at all. -/
def width? : Quantity → Option Nat
  | .value f => f.width?
  | .hour | .clockHour => some 2
  | .weekdayFromSunday | .weekdayFromMonday => some 1

/-- Whether the number may have a sign. -/
def isSigned : Quantity → Bool
  | .value f => f.isSigned
  | _ => false

/-- What a number in the range says about fields. -/
def values : Quantity → Int → List (Field × Int)
  | .value f, n => [(f, n)]
  | .hour, n => [(.halfDay, n / 12), (.hourOfHalf, n % 12)]
  | .clockHour, n => [(.hourOfHalf, n % 12)]
  | .weekdayFromSunday, n => [(.weekday, (n + 6) % 7)]
  | .weekdayFromMonday, n => [(.weekday, n - 1)]

/-- A number, and the rest. Blanks may come first. With a sign it may have any number of digits. -/
def take (q : Quantity) (text : List Char) : Except Fault (Int × List Char) := do
  let cs := text.dropWhile isBlank
  match q.isSigned, cs with
  | true, '-' :: ds =>
    let (n, rest) ← takeNumber ds.length ds
    return (-(n : Int), rest)
  | true, '+' :: ds =>
    let (n, rest) ← takeNumber ds.length ds
    return ((n : Int), rest)
  | _, _ =>
    let (n, rest) ← takeNumber (q.width?.getD cs.length) cs
    return ((n : Int), rest)

end Quantity

namespace Reading

/-- No field has a value. -/
def empty : Reading := ⟨fun _ => none⟩

/-- Gives a field a value that no earlier value contradicts. -/
def set (reading : Reading) (f : Field) (n : Int) : Except Fault Reading :=
  match reading.value f with
  | none => .ok ⟨fun g => if g = f then some n else reading.value g⟩
  | some m => if m = n then .ok reading else .error .impossible

/-- Gives fields what a number says about them, if it lies in its range. -/
def record (reading : Reading) (q : Quantity) (n : Int) : Except Fault Reading :=
  if n < q.range.1 ∨ q.range.2 < n then .error .outOfRange
  else (q.values n).foldlM (fun reading (f, m) => reading.set f m) reading

end Reading

/-- Matches one item at the start of a text. -/
def Item.take (item : Item) (reading : Reading) (cs : List Char) :
    Except Fault (Reading × List Char) :=
  match item with
  | .blanks => .ok (reading, cs.dropWhile isBlank)
  | .literal text =>
    if size cs < size text then .error .tooShort
    else if text.isPrefixOf cs then .ok (reading, cs.drop text.length)
    else .error .invalid
  | .number q => do
    let (n, rest) ← q.take cs
    return (← reading.record q n, rest)
  | .monthName long => do
    let (position, rest) ← takeName monthNames 3 long cs
    return (← reading.set .month (position + 1), rest)
  | .weekdayName long => do
    let (position, rest) ← takeName weekdayNames 3 long cs
    return (← reading.set .weekday position, rest)
  | .halfDayName => do
    let (position, rest) ← takeName halfDayNames 2 false cs
    return (← reading.set .halfDay position, rest)
  | .zoneName => .ok (reading, cs.dropWhile (!isBlank ·))
  | .offset style => do
    let (seconds, rest) ← takeOffset style cs
    return (← reading.set .offset seconds, rest)
  | .timeMark =>
    match cs with
    | [] => .error .tooShort
    | c :: rest => if c = 'T' ∨ c = 't' ∨ c = ' ' then .ok (reading, rest) else .error .invalid
  | .fraction =>
    match cs with
    | '.' :: ds => do
      let (n, rest) ← takeFraction ds
      return (← reading.set .nanosecond n, rest)
    | _ => .ok (reading, cs)
  | .pointFraction places =>
    match cs with
    | '.' :: ds => do
      let (n, rest) ← takeFixedFraction places ds
      return (← reading.set .nanosecond n, rest)
    | _ => .ok (reading, cs)
  | .bareFraction places => do
    let (n, rest) ← takeFixedFraction places cs
    return (← reading.set .nanosecond n, rest)
  | .unknown => .error .badFormat

namespace Reading

/-- Matches items one after the other at the start of a text. -/
def takeItems : List Item → Reading → List Char → Except Fault (Reading × List Char)
  | [], reading, cs => .ok (reading, cs)
  | item :: items, reading, cs => do
    let (next, rest) ← item.take reading cs
    takeItems items next rest

/-- Matches a whole text against a format. -/
def ofText (format cs : List Char) : Except Fault Reading := do
  let (reading, rest) ← takeItems (Item.ofText format) empty cs
  if rest.isEmpty then return reading else throw .tooLong

end Reading
end ResourceQuery.Calendar
