import ResourceQuery.Node.Rendering
import ResourceQuery.Proofs.Calendar.Precision
import ResourceQuery.Proofs.Node.Kinds

/-!
# Trees with other dates

`mapValues` changes the values of a tree and nothing else, and `mapDates` only its dates. A tree with other
dates is a query if the tree was one, and has the same text if its dates have.

The dates of a tree lose what is finer than a microsecond in its text: `toMicroseconds` is the tree that is
left. And they are shown as on a clock, as those of `asShown` are.
-/

namespace ResourceQuery
set_option autoImplicit false

/-- A finite number equals itself. -/
theorem Binary64.equals_self {x : Binary64} (finite : x.isFinite = true) : x.equals x = true := by
  cases x with
  | finite => simp [equals]
  | infinite | nan => simp [isFinite] at finite

namespace Literal

/-- The literal with another date, if it is one. -/
def mapDate (f : DateTime → DateTime) : Literal → Literal
  | .date moment => .date (f moment)
  | other => other

variable {f : DateTime → DateTime} (value : Literal)

theorem chars_mapDate (hidden : DateTime.IsHidden 6 f) :
    (value.mapDate f).chars = value.chars := by
  cases value with
  | date moment => exact hidden moment
  | integer | float | boolean | null | string => rfl

theorem isFinite_mapDate : (value.mapDate f).isFinite = value.isFinite := by
  cases value <;> rfl

/-- The dates among changed literals are the changed dates. -/
theorem mapDate_eq_date_iff {moment : DateTime} :
    value.mapDate f = .date moment ↔ ∃ before, value = .date before ∧ f before = moment := by
  cases value <;> simp [mapDate]

/-- Dates are equal when nothing is changed, and all else that has a text equals itself. -/
theorem equals_mapDate {value : Literal} (finite : value.isFinite = true) :
    (value.mapDate f).equals value = true ↔ ∀ moment, value = .date moment → f moment = moment := by
  cases value with
  | float x => simp [mapDate, equals, Binary64.equals_self finite]
  | date moment => simp [mapDate, equals]
  | integer | boolean | null | string => simp [mapDate, equals]

theorem equalLists_map (f : Literal → Literal) (items : List Literal) :
    equalLists (items.map f) items = items.all fun value => (f value).equals value := by
  induction items with
  | nil => rfl
  | cons item items ih => rw [List.map_cons, equalLists, ih, List.all_cons]

end Literal

namespace Node

/-! ## Other values -/

mutual

/-- The tree with its values changed. -/
def mapValues (f : Literal → Literal) : Node → Node
  | .apply op args => .apply op (mapValuesAll f args)
  | .literal value => .literal (f value)
  | .array items => .array (items.map f)
  | .field path => .field path
  | .sortKey path direction => .sortKey path direction

/-- Trees with their values changed. -/
def mapValuesAll (f : Literal → Literal) : List Node → List Node
  | [] => []
  | node :: nodes => node.mapValues f :: mapValuesAll f nodes

end

variable (f : Literal → Literal)

@[simp] theorem mapValuesAll_eq_map (nodes : List Node) : mapValuesAll f nodes = nodes.map (mapValues f) := by
  induction nodes with
  | nil => rfl
  | cons node nodes ih => simp [mapValuesAll, ih]

@[simp] theorem mapValues_apply (op : Operator) (args : List Node) :
    mapValues f (.apply op args) = .apply op (args.map (mapValues f)) := by
  rw [mapValues, mapValuesAll_eq_map]

@[simp] theorem paths_mapValues (node : Node) : (node.mapValues f).paths = node.paths := by
  induction node using induct with
  | apply op args ih =>
    rw [mapValues_apply, paths_apply, paths_apply, List.flatMap_map]
    exact List.flatMap_congr ih
  | literal | array | field | sortKey => rfl

@[simp] theorem literals_mapValues (node : Node) :
    (node.mapValues f).literals = node.literals.map f := by
  induction node using induct with
  | apply op args ih =>
    rw [mapValues_apply, literals_apply, literals_apply, List.flatMap_map, List.map_flatMap]
    exact List.flatMap_congr ih
  | array items => rw [mapValues, literals_array, literals_array]
  | literal | field | sortKey => rfl

/-- No value decides whether an operator means its argument. -/
theorem collapse_mapValues (op : Operator) (args : List Node) :
    collapse op (args.map (mapValues f)) = (collapse op args).mapValues f := by
  obtain _ | ⟨only, _ | ⟨second, others⟩⟩ := args
  · rfl
  · simp only [List.map_singleton, collapse]
    split <;> simp
  · simp [collapse]

@[simp] theorem normalize_mapValues (node : Node) :
    (node.mapValues f).normalize = node.normalize.mapValues f := by
  induction node using induct with
  | apply op args ih =>
    rw [mapValues_apply, normalize_apply, normalize_apply, ← collapse_mapValues, List.map_map, List.map_map]
    exact congrArg (collapse op) (List.map_congr_left ih)
  | literal | array | field | sortKey => rfl

theorem equalLists_map {f : Node → Node} {same : Node → Bool} {nodes : List Node}
    (each : ∀ node ∈ nodes, (f node).equals node = same node) :
    equalLists (nodes.map f) nodes = nodes.all same := by
  induction nodes with
  | nil => rfl
  | cons node nodes ih =>
    obtain ⟨head, tail⟩ := List.forall_mem_cons.1 each
    rw [List.map_cons, equalLists, head, ih tail, List.all_cons]

/-- A tree with its values changed equals the tree it was when each value does. -/
theorem equals_mapValues (node : Node) :
    (node.mapValues f).equals node = node.literals.all fun value => (f value).equals value := by
  induction node using induct with
  | apply op args ih =>
    rw [mapValues_apply, equals, equalLists_map ih, literals_apply, List.all_flatMap, beq_self_eq_true,
      Bool.true_and]
  | literal value => simp [mapValues, equals]
  | array items => rw [mapValues, equals, Literal.equalLists_map, literals_array]
  | field path => simp [mapValues, equals]
  | sortKey path direction => simp [mapValues, equals]

/-- A tree with the values it had is the tree it was. -/
theorem mapValues_eq_self {node : Node} (kept : ∀ value ∈ node.literals, f value = value) :
    node.mapValues f = node := by
  induction node using induct with
  | apply op args ih =>
    rw [literals_apply] at kept
    rw [mapValues_apply]
    refine congrArg (apply op) ((List.map_congr_left fun arg mem => ?_).trans (List.map_id' args))
    exact ih arg mem fun value valueMem => kept value (List.mem_flatMap.2 ⟨arg, mem, valueMem⟩)
  | literal value => rw [mapValues, kept value List.mem_cons_self]
  | array items =>
    rw [literals_array] at kept
    rw [mapValues]
    exact congrArg array ((List.map_congr_left kept).trans (List.map_id' items))
  | field | sortKey => rfl

/-! ## Other dates -/

/-- The tree with its dates changed. -/
def mapDates (f : DateTime → DateTime) (node : Node) : Node :=
  node.mapValues (Literal.mapDate f)

/-- The tree with whole microseconds. -/
def toMicroseconds (node : Node) : Node :=
  node.mapDates DateTime.toMicroseconds

/-- The tree with its dates as they are shown. -/
def asShown (node : Node) : Node :=
  node.mapDates DateTime.asShown

section Dates

variable {f : DateTime → DateTime} (node : Node)

@[simp] theorem mapDates_apply (op : Operator) (args : List Node) :
    mapDates f (.apply op args) = .apply op (args.map (mapDates f)) :=
  mapValues_apply _ op args

theorem chars_mapDates (hidden : DateTime.IsHidden 6 f) :
    (node.mapDates f).chars = node.chars := by
  induction node using induct with
  | apply op args ih =>
    rw [mapDates_apply, chars, chars, charsAll_eq_map, charsAll_eq_map, List.map_map]
    exact congrArg (fun texts => op.name.toList ++ '(' :: ([','].intercalate texts ++ [')']))
      (List.map_congr_left ih)
  | literal value => exact value.chars_mapDate hidden
  | array items =>
    have same : (items.map (Literal.mapDate f)).map Literal.chars = items.map Literal.chars := by
      simp only [List.map_map, Function.comp_def, Literal.chars_mapDate _ hidden]
    rw [mapDates, mapValues, chars, chars, same]
  | field | sortKey => rfl

/-- No text shows more than microseconds. -/
theorem render_toMicroseconds : node.toMicroseconds.render = node.render := by
  rw [render, render, toMicroseconds, chars_mapDates node (DateTime.isHidden_toMicroseconds (by decide))]

/-- Texts show dates as they are shown. -/
theorem render_asShown : node.asShown.render = node.render := by
  rw [render, render, asShown, chars_mapDates node (DateTime.writeIso_asShown 6)]

@[simp] theorem isApplication_mapDates : (node.mapDates f).isApplication = node.isApplication := by
  cases node <;> rfl

@[simp] theorem isField_mapDates : (node.mapDates f).isField = node.isField := by
  cases node <;> rfl

@[simp] theorem isSortKey_mapDates : (node.mapDates f).isSortKey = node.isSortKey := by
  cases node <;> rfl

@[simp] theorem isAggregate_mapDates : (node.mapDates f).isAggregate = node.isAggregate := by
  cases node <;> rfl

@[simp] theorem isCount_mapDates : (node.mapDates f).isCount = node.isCount := by
  obtain _ | value | _ | _ | _ := node
  case literal => cases value <;> rfl
  all_goals rfl

@[simp] theorem isOperandOf_mapDates (op : Operator) :
    (node.mapDates f).isOperandOf op = node.isOperandOf op := by
  cases node <;> rfl

/-- Arguments stay as many, and of the same kinds. -/
theorem argumentsFit_mapDates (op : Operator) (args : List Node) :
    argumentsFit op (args.map (mapDates f)) = argumentsFit op args := by
  obtain _ | ⟨first, _ | ⟨second, _ | ⟨third, others⟩⟩⟩ := args <;>
    cases op <;> simp [argumentsFit, Function.comp_def]

theorem allFit_mapDates : (node.mapDates f).allFit = node.allFit := by
  induction node using induct with
  | apply op args ih =>
    rw [mapDates_apply, allFit_apply, allFit_apply, argumentsFit_mapDates]
    refine congrArg (argumentsFit op args && ·) ?_
    rw [Bool.eq_iff_iff, List.all_eq_true, List.all_eq_true, List.forall_mem_map]
    exact forall₂_congr fun arg mem => by rw [ih arg mem]
  | literal | array | field | sortKey => rfl

variable {node}

/-- The dates of the tree are those it had, changed. -/
theorem date_mem_mapDates {moment : DateTime} : .date moment ∈ (node.mapDates f).literals ↔
    ∃ before, .date before ∈ node.literals ∧ f before = moment := by
  rw [mapDates, literals_mapValues, List.mem_map]
  simp only [Literal.mapDate_eq_date_iff]
  constructor
  · rintro ⟨_, mem, before, rfl, same⟩
    exact ⟨before, mem, same⟩
  · rintro ⟨before, mem, same⟩
    exact ⟨_, mem, before, rfl, same⟩

/-- A query with other dates is one. -/
theorem IsQuery.mapDates (query : node.IsQuery) (f : DateTime → DateTime) : (node.mapDates f).IsQuery where
  kinds := by
    rw [isWellKinded, isApplication_mapDates, allFit_mapDates]
    exact query.kinds
  named := by
    rw [Node.mapDates, paths_mapValues]
    exact query.named
  finite := by
    rw [Node.mapDates, literals_mapValues, List.forall_mem_map]
    exact fun value mem => value.isFinite_mapDate ▸ query.finite value mem

/-- A tree with the dates it had is the tree it was. -/
theorem mapDates_eq_self (kept : ∀ moment, .date moment ∈ node.literals → f moment = moment) :
    node.mapDates f = node := by
  have each : ∀ value ∈ node.literals, value.mapDate f = value := by
    intro value mem
    cases value with
    | date moment => rw [Literal.mapDate, kept moment mem]
    | integer | float | boolean | null | string => rfl
  exact mapValues_eq_self _ each

/-- A query with other dates equals what it was if they are the dates it had. -/
theorem IsQuery.equals_mapDates (query : node.IsQuery) : (node.mapDates f).equals node = true ↔
    ∀ moment, .date moment ∈ node.literals → f moment = moment := by
  rw [Node.mapDates, equals_mapValues, List.all_eq_true]
  constructor
  · intro same moment mem
    exact (Literal.equals_mapDate (query.finite _ mem)).1 (same _ mem) moment rfl
  · intro kept value mem
    refine (Literal.equals_mapDate (query.finite _ mem)).2 fun moment isDate => ?_
    exact kept moment (isDate ▸ mem)

end Dates

end Node
end ResourceQuery
