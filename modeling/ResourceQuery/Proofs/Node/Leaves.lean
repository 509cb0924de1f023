import Mathlib.Data.List.Basic
import ResourceQuery.Node.Normal

/-!
# What a tree holds

A tree is a nesting of operator applications over leaves. `leaves` lists the leaves from left to
right, and from them come the field paths and the literals that occur in a tree; `operators` lists
the operators. Normalization keeps all leaves and adds no operator.
-/

namespace ResourceQuery.Node
set_option autoImplicit false

/-- Induction over trees: what holds of an application if it holds of its arguments, and of every
leaf, holds of all trees. -/
@[elab_as_elim]
theorem induct {motive : Node → Prop}
    (apply : ∀ op args, (∀ arg ∈ args, motive arg) → motive (.apply op args))
    (literal : ∀ value, motive (.literal value)) (array : ∀ items, motive (.array items))
    (field : ∀ path, motive (.field path))
    (sortKey : ∀ path direction, motive (.sortKey path direction)) (node : Node) : motive node :=
  node.rec (motive_2 := fun args => ∀ arg ∈ args, motive arg) apply literal array field sortKey
    (fun _ mem => nomatch mem)
    (fun _ _ head tail => List.forall_mem_cons.2 ⟨head, tail⟩)

/-! ## Leaves -/

mutual

/-- The leaves of a tree from left to right. -/
def leaves : Node → List Node
  | .apply _ args => leavesAll args
  | .literal value => [.literal value]
  | .array items => [.array items]
  | .field path => [.field path]
  | .sortKey path direction => [.sortKey path direction]

/-- The leaves of trees from left to right. -/
def leavesAll : List Node → List Node
  | [] => []
  | node :: nodes => node.leaves ++ leavesAll nodes

end

@[simp] theorem leavesAll_eq_flatMap (nodes : List Node) :
    leavesAll nodes = nodes.flatMap leaves := by
  induction nodes with
  | nil => rfl
  | cons node nodes ih => simp [leavesAll, ih]

@[simp] theorem leaves_apply (op : Operator) (args : List Node) :
    leaves (.apply op args) = args.flatMap leaves := by
  rw [leaves, leavesAll_eq_flatMap]

/-- The path of a field or sort key. -/
def path? : Node → Option String
  | .field path => some path
  | .sortKey path _ => some path
  | _ => none

/-- The values of a literal or list. -/
def values : Node → List Literal
  | .literal value => [value]
  | .array items => items
  | _ => []

/-- The paths of the fields and sort keys in a tree. -/
def paths (node : Node) : List String :=
  node.leaves.filterMap path?

/-- The literals in a tree, those of lists among them. -/
def literals (node : Node) : List Literal :=
  node.leaves.flatMap values

@[simp] theorem paths_apply (op : Operator) (args : List Node) :
    paths (.apply op args) = args.flatMap paths := by
  simp only [paths, leaves_apply, List.filterMap_flatMap]
  rfl

@[simp] theorem literals_apply (op : Operator) (args : List Node) :
    literals (.apply op args) = args.flatMap literals := by
  simp only [literals, leaves_apply, List.flatMap_assoc]
  rfl

@[simp] theorem paths_literal (value : Literal) : paths (.literal value) = [] := rfl

@[simp] theorem paths_array (items : List Literal) : paths (.array items) = [] := rfl

@[simp] theorem paths_field (path : String) : paths (.field path) = [path] := rfl

@[simp] theorem paths_sortKey (path : String) (direction : Direction) :
    paths (.sortKey path direction) = [path] := rfl

@[simp] theorem literals_literal (value : Literal) : literals (.literal value) = [value] := rfl

@[simp] theorem literals_array (items : List Literal) : literals (.array items) = items := by
  simp [literals, leaves, values]

@[simp] theorem literals_field (path : String) : literals (.field path) = [] := rfl

@[simp] theorem literals_sortKey (path : String) (direction : Direction) :
    literals (.sortKey path direction) = [] := rfl

/-! ## Operators -/

mutual

/-- The operators in a tree. -/
def operators : Node → List Operator
  | .apply op args => op :: operatorsAll args
  | _ => []

/-- The operators in trees. -/
def operatorsAll : List Node → List Operator
  | [] => []
  | node :: nodes => node.operators ++ operatorsAll nodes

end

@[simp] theorem operatorsAll_eq_flatMap (nodes : List Node) :
    operatorsAll nodes = nodes.flatMap operators := by
  induction nodes with
  | nil => rfl
  | cons node nodes ih => simp [operatorsAll, ih]

@[simp] theorem operators_apply (op : Operator) (args : List Node) :
    operators (.apply op args) = op :: args.flatMap operators := by
  rw [operators, operatorsAll_eq_flatMap]

/-! ## Normal forms -/

@[simp] theorem normalize_apply (op : Operator) (args : List Node) :
    normalize (.apply op args) = collapse op (args.map normalize) := by
  rw [normalize, normalizeAll_eq_map]

/-- A collapsed application is its only argument, under a transparent operator, or the application
as it was. -/
theorem collapse_cases (op : Operator) (args : List Node) :
    (isTransparent op = true ∧ args = [collapse op args]) ∨ collapse op args = .apply op args := by
  unfold collapse
  split
  · split
    · next transparent => exact .inl ⟨transparent, rfl⟩
    · exact .inr rfl
  · exact .inr rfl

/-- The normal form of an application is that of its only argument, under a transparent operator, or an
application to the normal forms of its arguments. -/
theorem normalize_apply_cases (op : Operator) (args : List Node) :
    (isTransparent op = true ∧ ∃ child, args = [child] ∧
        normalize (.apply op args) = child.normalize) ∨
      normalize (.apply op args) = .apply op (args.map normalize) := by
  rw [normalize_apply]
  rcases collapse_cases op (args.map normalize) with ⟨transparent, only⟩ | same
  · obtain ⟨child, rfl, same⟩ := List.map_eq_singleton_iff.1 only
    exact .inl ⟨transparent, child, rfl, same.symm⟩
  · exact .inr same

/-- A collapsed application of an operator that is not transparent stays as it is. -/
theorem collapse_of_not_transparent {op : Operator} (args : List Node)
    (plain : isTransparent op = false) : collapse op args = .apply op args := by
  rcases collapse_cases op args with ⟨transparent, _⟩ | same
  · simp [transparent] at plain
  · exact same

/-- An application that is not transparent is its own normal form when its arguments are theirs. -/
theorem normalize_of_args {op : Operator} {args : List Node} (plain : isTransparent op = false)
    (each : ∀ arg ∈ args, arg.normalize = arg) :
    (Node.apply op args).normalize = .apply op args := by
  rw [normalize_apply, List.map_congr_left each, List.map_id', collapse_of_not_transparent _ plain]

/-- Collapsing moves no leaf. -/
@[simp] theorem leaves_collapse (op : Operator) (args : List Node) :
    (collapse op args).leaves = args.flatMap leaves := by
  rcases collapse_cases op args with ⟨_, only⟩ | same
  · generalize collapse op args = node at only ⊢
    simp [only]
  · rw [same, leaves_apply]

/-- Normalization keeps every leaf in its place. -/
@[simp] theorem leaves_normalize (node : Node) : node.normalize.leaves = node.leaves := by
  induction node using induct with
  | apply op args ih =>
    rw [normalize_apply, leaves_collapse, leaves_apply, List.flatMap_map]
    exact List.flatMap_congr ih
  | literal | array | field | sortKey => rfl

@[simp] theorem paths_normalize (node : Node) : node.normalize.paths = node.paths := by
  rw [paths, leaves_normalize, paths]

@[simp] theorem literals_normalize (node : Node) : node.normalize.literals = node.literals := by
  rw [literals, leaves_normalize, literals]

/-- Collapsing adds no operator. -/
theorem operators_collapse_subset (op : Operator) (args : List Node) :
    (collapse op args).operators ⊆ op :: args.flatMap operators := by
  rcases collapse_cases op args with ⟨_, only⟩ | same
  · generalize collapse op args = node at only ⊢
    simp [only]
  · rw [same, operators_apply]
    exact List.Subset.refl _

/-- Normalization adds no operator. -/
theorem operators_normalize_subset (node : Node) : node.normalize.operators ⊆ node.operators := by
  induction node using induct with
  | apply op args ih =>
    rw [normalize_apply, operators_apply]
    intro other mem
    rcases List.mem_cons.1 (operators_collapse_subset _ _ mem) with rfl | below
    · exact List.mem_cons_self
    · simp only [List.flatMap_map, List.mem_flatMap] at below
      obtain ⟨arg, argMem, mem⟩ := below
      exact List.mem_cons_of_mem _ (List.mem_flatMap.2 ⟨arg, argMem, ih arg argMem mem⟩)
  | literal | array | field | sortKey => exact List.Subset.refl _

/-- Normalization drops no operator but transparent ones. -/
theorem mem_operators_normalize {op : Operator} (plain : isTransparent op = false) (node : Node)
    (mem : op ∈ node.operators) : op ∈ node.normalize.operators := by
  induction node using induct with
  | apply op' args ih =>
    have below (found : op ∈ args.flatMap operators) :
        op ∈ (args.map normalize).flatMap operators := by
      obtain ⟨arg, argMem, mem⟩ := List.mem_flatMap.1 found
      exact List.mem_flatMap.2 ⟨arg.normalize, List.mem_map_of_mem argMem, ih arg argMem mem⟩
    rw [normalize_apply]
    rw [operators_apply, List.mem_cons] at mem
    rcases collapse_cases op' (args.map normalize) with ⟨transparent, only⟩ | same
    · have found := below (mem.resolve_left (by rintro rfl; simp [transparent] at plain))
      generalize collapse op' (args.map normalize) = child at only ⊢
      simpa [only] using found
    · rw [same, operators_apply, List.mem_cons]
      exact mem.imp_right below
  | literal | array | field | sortKey => exact mem

end ResourceQuery.Node
