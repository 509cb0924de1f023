import ResourceQuery.Json

/-!
# What a JSON value holds

A value holds itself and, if it is a list or an object, what its items or fields hold. From there
come the names of fields and the texts that occur in a value at any depth.
-/

namespace ResourceQuery
set_option autoImplicit false

namespace Fields
variable {α : Type}

/-- What is given by entries is among the entries. -/
theorem mem_of_mem_ofList {entries : List (String × α)} {entry : String × α}
    (mem : entry ∈ ofList entries) : entry ∈ entries := by
  -- For any fields that were there before.
  suffices general : ∀ fields : Fields α,
      entry ∈ entries.foldl (fun fields entry => fields.insert entry.1 entry.2) fields →
        entry ∈ fields ∨ entry ∈ entries from
    (general [] mem).resolve_left List.not_mem_nil
  clear mem
  induction entries with
  | nil => exact fun fields => .inl
  | cons first others ih =>
    intro fields mem
    rcases ih _ mem with before | later
    · rcases mem_of_mem_insert before with rfl | before
      · exact .inr List.mem_cons_self
      · exact .inl before
    · exact .inr (List.mem_cons_of_mem _ later)

end Fields

namespace Json

mutual

/-- The values that a value holds, itself first. -/
def contents : Json → List Json
  | .array items => .array items :: contentsOfItems items
  | .object fields => .object fields :: contentsOfFields fields
  | .null => [.null]
  | .boolean b => [.boolean b]
  | .integer n => [.integer n]
  | .float x => [.float x]
  | .string text => [.string text]

/-- The values that values hold. -/
def contentsOfItems : List Json → List Json
  | [] => []
  | item :: items => item.contents ++ contentsOfItems items

/-- The values that fields hold. -/
def contentsOfFields : List (String × Json) → List Json
  | [] => []
  | (_, value) :: fields => value.contents ++ contentsOfFields fields

end

@[simp] theorem contents_array (items : List Json) :
    contents (.array items) = .array items :: items.flatMap contents := by
  have each : contentsOfItems items = items.flatMap contents := by
    induction items with
    | nil => rfl
    | cons item items ih => simp [contentsOfItems, ih]
  rw [contents, each]

@[simp] theorem contents_object (fields : List (String × Json)) :
    contents (.object fields) = .object fields :: fields.flatMap fun field => field.2.contents := by
  have each : contentsOfFields fields = fields.flatMap fun field => field.2.contents := by
    induction fields with
    | nil => rfl
    | cons field fields ih => simp [contentsOfFields, ih]
  rw [contents, each]

/-- The names of the fields of an object. -/
def fieldNames : Json → List String
  | .object fields => Fields.names fields
  | _ => []

/-- A text. -/
def text? : Json → Option String
  | .string text => some text
  | _ => none

/-- The names of all fields in a value. -/
def names (json : Json) : List String :=
  json.contents.flatMap fieldNames

/-- All texts in a value. -/
def texts (json : Json) : List String :=
  json.contents.filterMap text?

@[simp] theorem names_array (items : List Json) : names (.array items) = items.flatMap names := by
  simp only [names, contents_array, List.flatMap_cons, fieldNames, List.nil_append,
    List.flatMap_assoc]
  rfl

@[simp] theorem names_object (fields : List (String × Json)) :
    names (.object fields) = Fields.names fields ++ fields.flatMap fun field => field.2.names := by
  simp only [names, contents_object, List.flatMap_cons, fieldNames, List.flatMap_assoc]

@[simp] theorem texts_array (items : List Json) : texts (.array items) = items.flatMap texts := by
  simp only [texts, contents_array, List.filterMap_cons, text?, List.filterMap_flatMap]
  rfl

@[simp] theorem texts_object (fields : List (String × Json)) :
    texts (.object fields) = fields.flatMap fun field => field.2.texts := by
  simp only [texts, contents_object, List.filterMap_cons, text?, List.filterMap_flatMap]

@[simp] theorem names_null : names .null = [] := rfl

@[simp] theorem names_boolean (b : Bool) : names (.boolean b) = [] := rfl

@[simp] theorem names_integer (n : Int) : names (.integer n) = [] := rfl

@[simp] theorem names_float (x : Binary64) : names (.float x) = [] := rfl

@[simp] theorem names_string (text : String) : names (.string text) = [] := rfl

@[simp] theorem texts_null : texts .null = [] := rfl

@[simp] theorem texts_integer (n : Int) : texts (.integer n) = [] := rfl

@[simp] theorem texts_string (text : String) : texts (.string text) = [text] := rfl

end Json
end ResourceQuery
