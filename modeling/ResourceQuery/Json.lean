import ResourceQuery.Decimal.Layout
import ResourceQuery.Fields

/-!
# JSON values

Values as they appear in document-store queries. Objects keep the order of their fields.
-/

namespace ResourceQuery
set_option autoImplicit false

/-- A JSON value. -/
inductive Json
  | null
  | boolean (b : Bool)
  | integer (n : Int)
  | float (x : Binary64)
  | string (text : String)
  | array (items : List Json)
  | object (fields : List (String × Json))
deriving Inhabited, Repr

/-- A JSON object. -/
abbrev Document : Type := Fields Json

namespace Json

mutual

/-- Whether two values are the same can be decided. -/
def decideEq : (a b : Json) → Decidable (a = b)
  | .null, .null => .isTrue rfl
  | .boolean b, .boolean b' => decidable_of_iff (b = b') (by simp)
  | .integer n, .integer n' => decidable_of_iff (n = n') (by simp)
  | .float x, .float x' => decidable_of_iff (x = x') (by simp)
  | .string text, .string text' => decidable_of_iff (text = text') (by simp)
  | .array items, .array items' =>
    match decideEqItems items items' with
    | .isTrue h => .isTrue (by rw [h])
    | .isFalse h => .isFalse fun same => h (by injection same)
  | .object fields, .object fields' =>
    match decideEqFields fields fields' with
    | .isTrue h => .isTrue (by rw [h])
    | .isFalse h => .isFalse fun same => h (by injection same)
  | .null, .boolean _ | .null, .integer _ | .null, .float _ | .null, .string _ | .null, .array _
  | .null, .object _ => .isFalse nofun
  | .boolean _, .null | .boolean _, .integer _ | .boolean _, .float _ | .boolean _, .string _
  | .boolean _, .array _ | .boolean _, .object _ => .isFalse nofun
  | .integer _, .null | .integer _, .boolean _ | .integer _, .float _ | .integer _, .string _
  | .integer _, .array _ | .integer _, .object _ => .isFalse nofun
  | .float _, .null | .float _, .boolean _ | .float _, .integer _ | .float _, .string _
  | .float _, .array _ | .float _, .object _ => .isFalse nofun
  | .string _, .null | .string _, .boolean _ | .string _, .integer _ | .string _, .float _
  | .string _, .array _ | .string _, .object _ => .isFalse nofun
  | .array _, .null | .array _, .boolean _ | .array _, .integer _ | .array _, .float _
  | .array _, .string _ | .array _, .object _ => .isFalse nofun
  | .object _, .null | .object _, .boolean _ | .object _, .integer _ | .object _, .float _
  | .object _, .string _ | .object _, .array _ => .isFalse nofun

/-- Whether two lists of values are the same can be decided. -/
def decideEqItems : (as bs : List Json) → Decidable (as = bs)
  | [], [] => .isTrue rfl
  | a :: as, b :: bs =>
    match decideEq a b, decideEqItems as bs with
    | .isTrue h, .isTrue h' => .isTrue (by rw [h, h'])
    | .isFalse h, _ => .isFalse fun same => h (by injection same)
    | _, .isFalse h => .isFalse fun same => h (by injection same)
  | [], _ :: _ | _ :: _, [] => .isFalse nofun

/-- Whether two lists of fields are the same can be decided. -/
def decideEqFields : (as bs : List (String × Json)) → Decidable (as = bs)
  | [], [] => .isTrue rfl
  | (name, a) :: as, (name', b) :: bs =>
    match decEq name name', decideEq a b, decideEqFields as bs with
    | .isTrue h, .isTrue h', .isTrue h'' => .isTrue (by rw [h, h', h''])
    | .isFalse h, _, _ => .isFalse fun same => h (by injection same with head; injection head)
    | _, .isFalse h, _ => .isFalse fun same => h (by injection same with head; injection head)
    | _, _, .isFalse h => .isFalse fun same => h (by injection same)
  | [], _ :: _ | _ :: _, [] => .isFalse nofun

end

instance : DecidableEq Json := decideEq

/-- An object with one field. -/
def single (name : String) (value : Json) : Document :=
  [(name, value)]

/-- A natural number. -/
def count (n : Nat) : Json :=
  .integer n

end Json
end ResourceQuery
