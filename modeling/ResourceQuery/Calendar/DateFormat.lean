import ResourceQuery.Calendar.Resolution

/-!
# Formats that may be cut short

A partial format accepts a text that supplies only its first components, such as `2009-10` for a
format that goes on to the second. The separators that occur in the text tell how many components
it supplies; each missing one is filled in with its least value.
-/

namespace ResourceQuery
set_option autoImplicit false

namespace Calendar

/-- Why a text is no partial format. -/
inductive FormatFault
  /-- The format ends inside a specifier. -/
  | dangling
  /-- A specifier stands for no known field. -/
  | unsupported (specifier : String)
  /-- The format has no component. -/
  | empty
deriving DecidableEq, Repr

/-- The wording of a format fault. -/
def FormatFault.message : FormatFault → String
  | .dangling => "dangling '%'"
  | .unsupported specifier => s!"unsupported specifier '{specifier}'"
  | .empty => "format is empty"

/-- Why a text is no date in a partial format. -/
inductive DateError
  /-- The text that should be a format is none. -/
  | invalidFormat (format : String) (fault : FormatFault)
  /-- Not even the separators of the first component occur in the text. -/
  | noSeparators (input format : String)
  /-- The text does not start with a year of four digits. -/
  | yearWidth (input : String)
  /-- The text does not match the format. -/
  | mismatch (input format : String) (fault : Fault)
deriving DecidableEq, Repr

/-- The wording of a date error. -/
def DateError.message : DateError → String
  | .invalidFormat format fault => s!"invalid date format '{format}': {fault.message}"
  | .noSeparators input format =>
    s!"'{input}' contains none of the separators of '{format}'"
  | .yearWidth input => s!"'{input}' does not start with a four-digit year"
  | .mismatch input format fault =>
    s!"'{input}' does not match date format '{format}': {fault.message}"

/-- A field of a format together with the literal text before it, or the literal text that ends
the format. -/
structure Component where
  /-- The format text of the component. -/
  text : List Char
  /-- The characters that must occur in an input that supplies the component. -/
  separators : List Char
  /-- What is appended to an input that does not supply the component. -/
  fill : List Char
deriving DecidableEq, Repr

end Calendar

/-- A date format cut into components. -/
structure DateFormat where
  text : List Char
  components : List Calendar.Component
deriving DecidableEq, Repr

namespace DateFormat
open Calendar Text

/-! ## Cutting a format into components -/

/-- How far a format has been cut: the components so far, the literal text since the last of them,
and the specifier that has been opened, if one has. -/
structure Cut where
  components : List Component
  literal : List Char
  specifier : Option (List Char)
deriving DecidableEq, Repr

/-- A character between `%` and the letter of a specifier. -/
def isModifier (c : Char) : Bool :=
  c == '.' || c == '-' || c == '_' || c == ':' || c == '#' || c.isDigit

/-- The least value of a field as it stands in an input. -/
def leastValue? (letter : Char) (pointed : Bool) : Option (List Char) :=
  match letter with
  | 'Y' => some ['0', '0', '0', '0']
  | 'y' | 'C' => some ['0', '0']
  | 'm' | 'd' => some ['0', '1']
  | 'e' => some ['1']
  | 'j' => some ['0', '0', '1']
  | 'H' | 'M' | 'S' => some ['0', '0']
  | 'f' => some (if pointed then ['.', '0'] else ['0'])
  | _ => none

/-- The component of a specifier behind some literal text. A specifier that starts with a point
needs a point in the input. -/
def component? (literal specifier : List Char) (letter : Char) :
    Except FormatFault Component :=
  let pointed := ['%', '.'].isPrefixOf specifier
  match leastValue? letter pointed with
  | none => .error (.unsupported (String.ofList specifier))
  | some value =>
    .ok ⟨literal ++ specifier, literal ++ (if pointed then ['.'] else []), literal ++ value⟩

/-- Takes one character of the format. `%%` is a literal `%`. -/
def Cut.step (cut : Cut) (c : Char) : Except FormatFault Cut :=
  match cut.specifier with
  | none =>
    if c = '%' then .ok { cut with specifier := some ['%'] }
    else .ok { cut with literal := cut.literal ++ [c] }
  | some opened =>
    if isModifier c then .ok { cut with specifier := some (opened ++ [c]) }
    else if c = '%' ∧ opened = ['%'] then
      .ok { cut with literal := cut.literal ++ ['%'], specifier := none }
    else
      (component? cut.literal (opened ++ [c]) c).map fun component =>
        ⟨cut.components ++ [component], [], none⟩

/-- The components once the format has ended: literal text that is left over is one too. -/
def Cut.finish (cut : Cut) : Except FormatFault (List Component) :=
  if cut.specifier.isSome then .error .dangling
  else
    let components :=
      if cut.literal.isEmpty then cut.components
      else cut.components ++ [⟨cut.literal, cut.literal, cut.literal⟩]
    if components.isEmpty then .error .empty else .ok components

/-- The components of a format. -/
def cut (format : List Char) : Except FormatFault (List Component) := do
  (← format.foldlM Cut.step ⟨[], [], none⟩).finish

/-- The partial format with this text. -/
def ofText (format : String) : Except DateError DateFormat :=
  match cut format.toList with
  | .ok components => .ok ⟨format.toList, components⟩
  | .error fault => .error (.invalidFormat format fault)

/-! ## Matching an input -/

/-- The text of the first components. A literal `%` stands in it as it is, and so may open a specifier
of any kind with the characters behind it. -/
def front (format : DateFormat) (count : Nat) : List Char :=
  (format.components.take count).flatMap Component.text

/-- The required characters occur in the input in their order. Each is looked for behind the first
occurrence of the one before it. -/
def embeds (input : List Char) : List Char → Bool
  | [] => true
  | separator :: required =>
    match input.dropWhile (· != separator) with
    | [] => false
    | _ :: rest => embeds rest required

/-- All separators of the first components occur in the input in their order. -/
def supplies (format : DateFormat) (input : List Char) (count : Nat) : Bool :=
  embeds input ((format.components.take count).flatMap Component.separators)

/-- How many components the input supplies: the greatest count whose separators it contains, or
zero. -/
def suppliedCount (format : DateFormat) (input : List Char) : Nat :=
  ((List.range' 1 format.components.length).reverse.find? (format.supplies input)).getD 0

/-- The input with the components after the first ones filled in. -/
def complete (format : DateFormat) (count : Nat) (input : List Char) : List Char :=
  input ++ (format.components.drop count).flatMap Component.fill

/-- The format opens with a plain year, which then needs four digits. -/
def opensWithYear (format : DateFormat) : Bool :=
  format.components.head?.map Component.text == some ['%', 'Y']

/-- The date and time an input spells. The components it supplies must match by themselves; then the
completed input must match the whole format. A format without a full time of day gives midnight. -/
def parse (format : DateFormat) (input : String) : Except DateError DateTime :=
  let cs := input.toList
  let count := format.suppliedCount cs
  let whole := String.ofList format.text
  if count = 0 then .error (.noSeparators input whole)
  else
    match Reading.ofText (format.front count) cs with
    | .error fault => .error (.mismatch input (String.ofList (format.front count)) fault)
    | .ok _ =>
      if format.opensWithYear ∧ (cs.takeWhile Char.isDigit).length ≠ 4 then
        .error (.yearWidth input)
      else
        match Reading.ofText format.text (format.complete count cs) with
        | .error fault => .error (.mismatch input whole fault)
        | .ok reading =>
          match reading.dateTime, reading.date with
          | .ok found, _ => .ok found
          | .error _, .ok day => .ok ⟨day, Time.midnight⟩
          | .error _, .error fault => .error (.mismatch input whole fault)

end DateFormat

namespace DateTime

/-- The text of the extended ISO 8601 format. -/
def isoText : String := "%Y-%m-%dT%H:%M:%S%.fZ"

/-- The extended ISO 8601 format cut into components. -/
def isoFormat : DateFormat :=
  ⟨isoText.toList,
    [⟨['%', 'Y'], [], ['0', '0', '0', '0']⟩,
     ⟨['-', '%', 'm'], ['-'], ['-', '0', '1']⟩,
     ⟨['-', '%', 'd'], ['-'], ['-', '0', '1']⟩,
     ⟨['T', '%', 'H'], ['T'], ['T', '0', '0']⟩,
     ⟨[':', '%', 'M'], [':'], [':', '0', '0']⟩,
     ⟨[':', '%', 'S'], [':'], [':', '0', '0']⟩,
     ⟨['%', '.', 'f'], ['.'], ['.', '0']⟩,
     ⟨['Z'], ['Z'], ['Z']⟩]⟩

/-- The components of the ISO format are the ones its text is cut into. -/
theorem ofText_isoText : DateFormat.ofText isoText = .ok isoFormat := by rfl

/-- The date and time that a whole or partial ISO 8601 text spells. -/
def parseIso (input : String) : Except Calendar.DateError DateTime :=
  isoFormat.parse input

end DateTime
end ResourceQuery
