import ResourceQuery.Literal
import ResourceQuery.Operator

/-!
# Query trees

A query is a tree of operator applications over literals, lists, field paths and sort keys. The
type admits any combination; which ones are queries is for the resolver to say.
-/

namespace ResourceQuery
set_option autoImplicit false

/-- A query tree. -/
inductive Node
  /-- An operator applied to arguments. -/
  | apply (op : Operator) (args : List Node)
  /-- A single value. -/
  | literal (value : Literal)
  /-- A list of values. -/
  | array (items : List Literal)
  /-- A field of a document, given by its path. -/
  | field (path : String)
  /-- A field to sort by. -/
  | sortKey (path : String) (direction : Direction)
deriving Repr

namespace Node

mutual

/-- Whether two trees are the same can be decided. -/
def decideEq : (a b : Node) → Decidable (a = b)
  | .apply op args, .apply op' args' =>
    match decEq op op', decideEqLists args args' with
    | .isTrue h, .isTrue h' => .isTrue (by rw [h, h'])
    | .isFalse h, _ => .isFalse fun same => h (by injection same)
    | _, .isFalse h => .isFalse fun same => h (by injection same)
  | .literal value, .literal value' => decidable_of_iff (value = value') (by simp)
  | .array items, .array items' => decidable_of_iff (items = items') (by simp)
  | .field path, .field path' => decidable_of_iff (path = path') (by simp)
  | .sortKey path direction, .sortKey path' direction' =>
    decidable_of_iff (path = path' ∧ direction = direction') (by simp)
  | .apply .., .literal _ | .apply .., .array _ | .apply .., .field _ | .apply .., .sortKey .. =>
    .isFalse nofun
  | .literal _, .apply .. | .literal _, .array _ | .literal _, .field _ | .literal _, .sortKey .. =>
    .isFalse nofun
  | .array _, .apply .. | .array _, .literal _ | .array _, .field _ | .array _, .sortKey .. =>
    .isFalse nofun
  | .field _, .apply .. | .field _, .literal _ | .field _, .array _ | .field _, .sortKey .. =>
    .isFalse nofun
  | .sortKey .., .apply .. | .sortKey .., .literal _ | .sortKey .., .array _
  | .sortKey .., .field _ => .isFalse nofun

/-- Whether two lists of trees are the same can be decided. -/
def decideEqLists : (as bs : List Node) → Decidable (as = bs)
  | [], [] => .isTrue rfl
  | a :: as, b :: bs =>
    match decideEq a b, decideEqLists as bs with
    | .isTrue h, .isTrue h' => .isTrue (by rw [h, h'])
    | .isFalse h, _ => .isFalse fun same => h (by injection same)
    | _, .isFalse h => .isFalse fun same => h (by injection same)
  | [], _ :: _ | _ :: _, [] => .isFalse nofun

end

instance : DecidableEq Node := decideEq

/-- The operator at the root, if there is one. -/
def operator? : Node → Option Operator
  | .apply op _ => some op
  | _ => none

/-- The path and direction of a sort key. -/
def sortKey? : Node → Option (String × Direction)
  | .sortKey path direction => some (path, direction)
  | _ => none

/-- The keys of a sort node in their order, if it holds nothing else. -/
def sortKeys? : Node → Option (List (String × Direction))
  | .apply .sort args => args.mapM sortKey?
  | _ => none

mutual

/-- Equality of trees, floats compared numerically. -/
def equals : Node → Node → Bool
  | .apply op args, .apply op' args' => op == op' && equalLists args args'
  | .literal value, .literal value' => value.equals value'
  | .array items, .array items' => Literal.equalLists items items'
  | .field path, .field path' => path == path'
  | .sortKey path direction, .sortKey path' direction' => path == path' && direction == direction'
  | _, _ => false

/-- Equality of lists of trees. -/
def equalLists : List Node → List Node → Bool
  | [], [] => true
  | node :: nodes, node' :: nodes' => node.equals node' && equalLists nodes nodes'
  | _, _ => false

end

end Node
end ResourceQuery
