import ResourceQuery.Node

/-!
# Normal form

A conjunction or disjunction of one condition means that condition. `normalize` leaves no such node
in a tree.
-/

namespace ResourceQuery.Node
set_option autoImplicit false

/-- The operator means its argument when it has only one. -/
def isTransparent (op : Operator) : Bool :=
  op == .and || op == .or

/-- An operator applied to arguments, or the only argument of a transparent operator itself. -/
def collapse (op : Operator) (args : List Node) : Node :=
  match args with
  | [only] => if isTransparent op then only else .apply op [only]
  | _ => .apply op args

mutual

/-- The tree with every transparent operator that has a single argument replaced by it. -/
def normalize : Node → Node
  | .apply op args => collapse op (normalizeAll args)
  | .literal value => .literal value
  | .array items => .array items
  | .field path => .field path
  | .sortKey path direction => .sortKey path direction

/-- The normal forms of trees. -/
def normalizeAll : List Node → List Node
  | [] => []
  | node :: nodes => node.normalize :: normalizeAll nodes

end

/-- Trees are normalized one by one. -/
@[simp] theorem normalizeAll_eq_map (nodes : List Node) : normalizeAll nodes = nodes.map normalize := by
  induction nodes with
  | nil => simp [normalizeAll]
  | cons node nodes ih => simp [normalizeAll, ih]

end ResourceQuery.Node
