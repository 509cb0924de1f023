import ResourceQuery.Proofs.Node.Precision

/-!
# What a filter keeps of a condition

A filter shows dates as a clock does, with milliseconds, and where a comparison takes a list it shows a single
value as a list of one. `essence` makes just these two changes to a tree, so trees with one essence differ in
nothing else. Conjunctions and disjunctions of a single argument are another matter: normal trees have none.
-/

namespace ResourceQuery
set_option autoImplicit false

/-- The literal, with whole milliseconds of a date as it is shown. -/
def Literal.toMilliseconds (value : Literal) : Literal :=
  value.mapDate fun moment => moment.asShown.toPlaces 3

namespace Node

/-! ## Normal trees -/

mutual

/-- No conjunction and no disjunction in the tree has a single argument. -/
def isNormal : Node → Bool
  | .apply op args => !(isTransparent op && args.length == 1) && allNormal args
  | _ => true

/-- Nor has one in any of the trees. -/
def allNormal : List Node → Bool
  | [] => true
  | node :: nodes => node.isNormal && allNormal nodes

end

@[simp] theorem allNormal_eq_all (nodes : List Node) : allNormal nodes = nodes.all isNormal := by
  induction nodes with
  | nil => rfl
  | cons node nodes ih => simp [allNormal, ih]

theorem isNormal_apply_iff {op : Operator} {args : List Node} : (Node.apply op args).isNormal = true ↔
    (isTransparent op = true → args.length ≠ 1) ∧ ∀ arg ∈ args, arg.isNormal = true := by
  simp [isNormal, imp_iff_not_or]

/-- Normalization leaves a normal tree. -/
theorem isNormal_normalize (node : Node) : node.normalize.isNormal = true := by
  induction node using induct with
  | apply op args ih =>
    have each : ∀ arg ∈ args.map normalize, arg.isNormal = true := List.forall_mem_map.2 ih
    rw [normalize_apply]
    unfold collapse
    split
    · next only same =>
      rw [same] at each
      obtain ⟨isNormal, -⟩ := List.forall_mem_cons.1 each
      split
      · exact isNormal
      · next plain => exact isNormal_apply_iff.2 ⟨fun transparent => absurd transparent plain, each⟩
    · next several =>
      refine isNormal_apply_iff.2 ⟨fun _ single => ?_, each⟩
      obtain ⟨only, same⟩ := List.length_eq_one_iff.1 single
      exact several only same
  | literal | array | field | sortKey => rfl

/-- Normal trees are those that normalization leaves as they are. -/
theorem isNormal_iff {node : Node} : node.isNormal = true ↔ node.normalize = node := by
  constructor
  · intro isNormal
    induction node using induct with
    | apply op args ih =>
      obtain ⟨several, each⟩ := isNormal_apply_iff.1 isNormal
      have same : args.map normalize = args :=
        (List.map_congr_left fun arg mem => ih arg mem (each arg mem)).trans (List.map_id' args)
      rcases normalize_apply_cases op args with ⟨transparent, child, rfl, -⟩ | kept
      · exact absurd rfl (several transparent)
      · rw [kept, same]
    | literal | array | field | sortKey => rfl
  · intro same
    exact same ▸ isNormal_normalize node

/-! ## Essences -/

/-- The value of a comparison, as a list of one if a list is wanted and it is none. -/
def listedFor (op : Operator) : Node → Node
  | .literal value => if op.takesList then .array [value] else .literal value
  | other => other

mutual

/-- The tree with whole milliseconds, and with lists wherever comparisons take them. -/
def essence : Node → Node
  | .apply op args => .apply op (essenceAll op args)
  | .literal value => .literal value.toMilliseconds
  | .array items => .array (items.map Literal.toMilliseconds)
  | .field path => .field path
  | .sortKey path direction => .sortKey path direction

/-- The essences of the arguments of an operator. -/
def essenceAll (op : Operator) : List Node → List Node
  | [] => []
  | node :: nodes => listedFor op node.essence :: essenceAll op nodes

end

@[simp] theorem essence_apply (op : Operator) (args : List Node) :
    essence (.apply op args) = .apply op (args.map fun arg => listedFor op arg.essence) := by
  rw [essence]
  congr 1
  induction args with
  | nil => rfl
  | cons arg args ih => rw [essenceAll, ih, List.map_cons]

theorem listedFor_of_not_takesList {op : Operator} (single : op.takesList = false) (node : Node) :
    listedFor op node = node := by
  cases node <;> simp [listedFor, single]

/-- Where no list is wanted, only what is below changes. -/
theorem essence_apply_of_not_takesList {op : Operator} (single : op.takesList = false)
    (args : List Node) : essence (.apply op args) = .apply op (args.map essence) := by
  simp only [essence_apply, listedFor_of_not_takesList single]

end Node
end ResourceQuery
