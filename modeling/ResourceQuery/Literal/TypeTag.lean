import ResourceQuery.Literal.Inference

/-!
# Type tags

A token such as `string:12` names the type of its value. `split?` takes the name off the token,
and `read` reads the rest as that type.
-/

namespace ResourceQuery
set_option autoImplicit false

/-- A type that a token can name. -/
inductive TypeTag
  | string
  | number
  | boolean
  | date
  | null
deriving DecidableEq, Repr

/-- A text that is no value of the type it is said to have. -/
structure ConversionError where
  tag : TypeTag
  value : String
  /-- Why the text is no date, if it should be one. -/
  reason : Option Calendar.DateError
deriving DecidableEq, Repr

namespace TypeTag

/-- All tags. -/
def all : List TypeTag :=
  [.string, .number, .boolean, .date, .null]

/-- The name of a tag. -/
def name : TypeTag → String
  | .string => "string"
  | .number => "number"
  | .boolean => "boolean"
  | .date => "date"
  | .null => "null"

/-- The tag with this name. -/
def ofName? (name : String) : Option TypeTag :=
  all.find? fun tag => tag.name == name

/-- The tag a token names before its first colon, and what follows the colon. -/
def split? (token : String) : Option (TypeTag × String) :=
  let cs := token.toList
  match cs.dropWhile (· != ':') with
  | [] => none
  | _ :: rest =>
    (ofName? (String.ofList (cs.takeWhile (· != ':')))).map fun tag =>
      (tag, String.ofList rest)

/-- Reads a text as a value of the named type. -/
def read (tag : TypeTag) (text : String) : Except ConversionError Literal :=
  let mismatch := .error ⟨tag, text, none⟩
  match tag with
  | .string => .ok (.string text)
  | .number =>
    match Literal.infer text with
    | .integer n => .ok (.integer n)
    | .float x => .ok (.float x)
    | _ => mismatch
  | .boolean =>
    if text = "true" then .ok (.boolean true)
    else if text = "false" then .ok (.boolean false)
    else mismatch
  | .date =>
    match DateTime.parseIso text with
    | .ok moment => .ok (.date moment)
    | .error reason => .error ⟨tag, text, some reason⟩
  | .null => if text = "" then .ok .null else mismatch

theorem mem_all (tag : TypeTag) : tag ∈ all := by
  cases tag <;> decide

/-- A tag is found by its name. -/
@[simp] theorem ofName?_name (tag : TypeTag) : ofName? tag.name = some tag := by
  cases tag <;> decide

end TypeTag

/-- The wording of a conversion error. -/
def ConversionError.message (error : ConversionError) : String :=
  s!"'{error.value}' is not a valid {error.tag.name} literal" ++
    match error.reason with
    | some reason => s!" ({reason.message})"
    | none => ""

end ResourceQuery
