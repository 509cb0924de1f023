import Mathlib.Data.List.Nodup
import Mathlib.Data.List.Pairwise
import ResourceQuery.Proofs.Compilation.Parts
import ResourceQuery.Proofs.Compilation.Refusals

/-!
# Which trees compile

The compiler looks at what it has seen so far, part by part and argument by argument.
`Node.IsCompilable` says of the tree as a whole what these checks come to: what its parts may be,
which paths may occur in it, which parts can stand beside each other and which names must differ.
Main statement: a well-kinded tree with finite numbers compiles exactly when it is compilable.
-/

namespace ResourceQuery
set_option autoImplicit false

/-- The operators that make up conditions. -/
def Operator.isConditional (op : Operator) : Bool :=
  op.role == .boolean || op.role == .comparison

namespace Node

/-- The arguments at the root. -/
def args : Node → List Node
  | .apply _ args => args
  | _ => []

/-- The operator at the root is one of these. -/
def applies (ops : List Operator) (node : Node) : Bool :=
  node.operator?.any ops.contains

/-- The name under which an aggregate function puts out its result. -/
def outputName? : Node → Option String
  | .apply .count _ => some "count"
  | .apply op (.field path :: _) =>
    if op.role = .aggregate then some (op.name ++ "_" ++ flatName path) else none
  | _ => none

/-- The store has an equivalent of the tree. -/
structure IsCompilable (node : Node) : Prop where
  /-- What does not shape the result combines comparisons, at any depth. -/
  conditions : ∀ part ∈ Compilation.partsOf node,
    part.shapesResult = true ∨ ∀ op ∈ part.operators, op.isConditional = true
  paths : ∀ path ∈ node.paths, IsFieldPath path
  /-- No directive is given twice, and of the two projections there is one at most. -/
  once : ∀ ops ∈ [[.sort], [.limit], [.distinct], [.aggregate], [.select, .values]],
    (Compilation.partsOf node).countP (applies ops) ≤ 1
  /-- No aggregate function stands beside an `aggregate`. -/
  inside : ∀ part ∈ Compilation.partsOf node, part.applies [.aggregate] = true →
    ∀ other ∈ Compilation.partsOf node, other.isAggregate = false
  /-- No projection stands beside an aggregation. -/
  unprojected : ∀ part ∈ Compilation.partsOf node, part.applies [.select, .values] = true →
    ∀ other ∈ Compilation.partsOf node,
      other.applies [.aggregate] = false ∧ other.isAggregate = false
  sortFields : ∀ part ∈ Compilation.partsOf node, part.applies [.sort] = true →
    (part.args.filterMap path?).Nodup
  groupKeys : ∀ part ∈ Compilation.partsOf node, part.applies [.aggregate] = true →
    ((part.args.filterMap path?).map flatName).Nodup
  outputNames : ∀ part ∈ Compilation.partsOf node, part.applies [.aggregate] = true →
    (part.args.filterMap outputName?).Nodup
  /-- The aggregate functions that stand by themselves put out under different names, too. -/
  bareOutputNames : ((Compilation.partsOf node).filterMap outputName?).Nodup

end Node

namespace Compilation
open Fallible

variable {op : Operator} {args parts : List Node} {node part : Node}

/-! ## Conditions -/

/-- A condition of conditions compiles when they do. -/
theorem exists_predicate_of_boolean (boolean : op.role = .boolean)
    (fit : Node.argumentsFit op args = true) :
    (∃ filter, predicate (.apply op args) = .ok filter) ↔
      ∀ arg ∈ args, ∃ filter, predicate arg = .ok filter := by
  have arity := (Bool.and_eq_true_iff.1 fit).1
  rw [← exists_mapM_eq_ok]
  simp only [predicate_apply_eq_ok]
  cases op <;> simp [Operator.role] at boolean
  case and | or =>
    have nonempty : args ≠ [] := by
      rintro rfl
      simp [Operator.arity, Arity.admits] at arity
    simp [nonempty, Operator.role]
  case not =>
    obtain ⟨child, rfl⟩ : ∃ child, args = [child] := by
      simpa [Operator.arity, Arity.admits, List.length_eq_one_iff] using arity
    simp [Operator.role]

/-- A comparison compiles when its path can name a field. -/
theorem exists_predicate_of_comparison (role : op.role = .comparison)
    (fit : Node.argumentsFit op args = true)
    (finite : ∀ value ∈ (Node.apply op args).literals, value.isFinite = true) :
    (∃ filter, predicate (.apply op args) = .ok filter) ↔
      ∀ path ∈ (Node.apply op args).paths, IsFieldPath path := by
  obtain ⟨field, operandNode, rfl, isField, isOperand⟩ := Node.operands_of_fit role fit
  obtain ⟨path, rfl⟩ : ∃ path, field = .field path := by
    cases field <;> simp [Node.isField] at isField
    exact ⟨_, rfl⟩
  have noPaths : operandNode.paths = [] := by
    cases operandNode <;> simp [Node.isOperandOf] at isOperand <;> rfl
  obtain ⟨value, isValue⟩ : ∃ value, operand op operandNode = .ok value := by
    cases read : operand op operandNode with
    | ok value => exact ⟨value, rfl⟩
    | error error =>
      exact (operand_ne_error isOperand (fun literal mem => finite literal (by simp [mem])) read).elim
  have compiled : (∃ filter, predicate (.apply op [.field path, operandNode]) = .ok filter) ↔
      ∃ filter, comparison op [.field path, operandNode] = .ok filter := by
    simp only [predicate_apply_eq_ok]
    cases op <;> simp_all [Operator.role]
  rw [compiled]
  simp [comparison, bind_eq_ok, fieldArgument_eq_ok, isValue, pathFault?_eq_none_iff, noPaths]

/-- A condition compiles when it combines comparisons and its paths can name fields. -/
theorem exists_predicate_iff (node : Node) (kinds : node.isWellKinded = true)
    (finite : ∀ value ∈ node.literals, value.isFinite = true) :
    (∃ filter, predicate node = .ok filter) ↔
      (∀ op ∈ node.operators, op.isConditional = true) ∧ ∀ path ∈ node.paths, IsFieldPath path := by
  induction node using Node.induct with
  | literal | array | field | sortKey =>
    simpa using Node.exists_apply_of_isWellKinded kinds
  | apply op args ih =>
    have fit := (Node.isWellKinded_apply.1 kinds).1
    cases role : op.role with
    | boolean =>
      have each : (∀ arg ∈ args, ∃ filter, predicate arg = .ok filter) ↔
          ∀ arg ∈ args, (∀ op ∈ arg.operators, op.isConditional = true) ∧
            ∀ path ∈ arg.paths, IsFieldPath path :=
        forall₂_congr fun arg mem => ih arg mem (Node.isWellKinded_of_mem kinds role mem)
          fun value valueMem => finite value (by simpa using ⟨arg, mem, valueMem⟩)
      rw [exists_predicate_of_boolean role fit, each, forall₂_and]
      have here : op.isConditional = true := by simp [Operator.isConditional, role]
      simp only [Node.operators_apply, Node.paths_apply, List.forall_mem_cons, here, true_and,
        List.forall_mem_flatMap]
    | comparison =>
      have here : op.isConditional = true := by simp [Operator.isConditional, role]
      obtain ⟨field, operandNode, rfl, isField, isOperand⟩ := Node.operands_of_fit role fit
      have leaves : field.operators = [] ∧ operandNode.operators = [] := by
        cases field <;> simp [Node.isField] at isField
        cases operandNode <;> simp [Node.isOperandOf] at isOperand <;> exact ⟨rfl, rfl⟩
      rw [exists_predicate_of_comparison role fit finite]
      simp [here, leaves]
    | directive | aggregate =>
      have refused : ¬∃ filter, predicate (.apply op args) = .ok filter := by
        rintro ⟨filter, compiled⟩
        rcases predicate_apply_eq_ok.1 compiled with ⟨_, rfl, _⟩ | ⟨_, rfl, _⟩ | ⟨_, _, rfl, _⟩ |
          ⟨comparison, _⟩ <;> simp_all [Operator.role]
      simp [refused, Operator.isConditional, role]

/-! ## Directives and aggregate functions -/

/-- An aggregate function that fits puts out under the name of its accumulator. -/
theorem resultName?_eq_outputName? (fit : node.allFit = true) :
    resultName? node = node.outputName? := by
  obtain ⟨op, args⟩ | _ | _ | _ | _ := node
  · have fit := (Bool.and_eq_true_iff.1 (Node.allFit_apply op args ▸ fit)).1
    by_cases role : op.role = .aggregate
    · obtain ⟨rfl, rfl⟩ | ⟨notCount, field, rfl, isField⟩ := Node.aggregated_of_fit role fit
      · rfl
      · cases field <;> simp [Node.isField] at isField
        cases op <;> simp [Operator.role] at role notCount <;> rfl
    · rw [resultName?, accumulator?_of_role_ne role, Option.map_none]
      unfold Node.outputName?
      split <;> simp_all [Operator.role]
  all_goals rfl

/-- An aggregate function that fits is one of a field when its path can name a field. -/
theorem isFunction_iff (role : op.role = .aggregate) (fit : Node.argumentsFit op args = true) :
    IsFunction (.apply op args) ↔ ∀ path ∈ (Node.apply op args).paths, IsFieldPath path := by
  obtain ⟨rfl, rfl⟩ | ⟨notCount, field, rfl, isField⟩ := Node.aggregated_of_fit role fit
  · simp [IsFunction, accumulator?, Accumulator.field?]
  · cases field <;> simp [Node.isField] at isField
    cases op <;> simp [Operator.role] at role notCount <;>
      simp [IsFunction, accumulator?, foldOf?, Accumulator.field?]

theorem isSortKey_iff (kind : node.isSortKey = true) :
    IsSortKey node ↔ ∀ path ∈ node.paths, IsFieldPath path := by
  cases node <;> simp_all [Node.isSortKey, IsSortKey]

theorem isField_iff (kind : node.isField = true) :
    IsField node ↔ ∀ path ∈ node.paths, IsFieldPath path := by
  cases node <;> simp_all [Node.isField, IsField]

theorem isColumn_iff (kind : (node.isField || node.isAggregate) = true) (fit : node.allFit = true) :
    IsColumn node ↔ ∀ path ∈ node.paths, IsFieldPath path := by
  obtain ⟨op, args⟩ | _ | _ | path | _ := node
  case apply =>
    have role : op.role = .aggregate := by simpa [Node.isField, Node.isAggregate] using kind
    have fit := (Bool.and_eq_true_iff.1 (Node.allFit_apply op args ▸ fit)).1
    rw [← isFunction_iff role fit]
    simp [IsColumn, IsField]
  case field => simp [IsColumn, IsField, IsFunction, accumulator?]
  all_goals simp [Node.isField, Node.isAggregate] at kind

/-- A count holds a number and no path. -/
theorem count_of_isCount (kind : node.isCount = true) :
    node.paths = [] ∧ ∃ n, count? node = some n := by
  obtain _ | value | _ | _ | _ := node <;> simp only [Node.isCount, Bool.false_eq_true] at kind
  cases value <;> simp_all [count?]

/-- What a part with this operator and these arguments must be to compile by itself. -/
def IsSoundApplication (args : List Node) (op : Operator) : Prop :=
  match op with
  | .sort => args ≠ [] ∧ (∀ arg ∈ args, IsSortKey arg) ∧ (args.filterMap sortName?).Nodup
  | .select | .values => args ≠ [] ∧ ∀ arg ∈ args, IsField arg
  | .limit =>
    (∃ count limit, args = [count] ∧ count? count = some limit) ∨
      ∃ count start limit skip, args = [count, start] ∧ count? count = some limit ∧
        count? start = some skip
  | .distinct => args = []
  | .aggregate =>
    args ≠ [] ∧ (∀ arg ∈ args, IsColumn arg) ∧ (args.filterMap keyName?).Nodup ∧
      (args.filterMap resultName?).Nodup
  | .sum | .mean | .max | .min | .count => IsFunction (.apply op args)
  | _ => ∃ filter, predicate (.apply op args) = .ok filter

theorem isSound_apply_iff : IsSound (.apply op args) ↔ IsSoundApplication args op := by
  constructor
  · intro sound
    cases sound with
    | sort nonempty keys distinct => exact ⟨nonempty, keys, distinct⟩
    | projection named nonempty fields =>
      rcases named with rfl | rfl <;> exact ⟨nonempty, fields⟩
    | limit read => exact .inl ⟨_, _, rfl, read⟩
    | limitAndSkip read readStart => exact .inr ⟨_, _, _, _, rfl, read, readStart⟩
    | distinct => exact rfl
    | aggregate nonempty columns keys results => exact ⟨nonempty, columns, keys, results⟩
    | function function =>
      obtain ⟨_, _, same, role⟩ := function.exists_apply
      obtain ⟨rfl, rfl⟩ := Node.apply.inj same
      cases op <;> simp [Operator.role] at role <;> exact function
    | predicate condition compiled =>
      cases op <;> simp [Node.shapesResult, Operator.role] at condition <;> exact ⟨_, compiled⟩
  · intro sound
    cases op
    case sort =>
      obtain ⟨nonempty, keys, distinct⟩ := sound
      exact .sort nonempty keys distinct
    case select =>
      obtain ⟨nonempty, fields⟩ := sound
      exact .projection (.inl rfl) nonempty fields
    case values =>
      obtain ⟨nonempty, fields⟩ := sound
      exact .projection (.inr rfl) nonempty fields
    case limit =>
      rcases sound with ⟨_, _, rfl, read⟩ | ⟨_, _, _, _, rfl, read, readStart⟩
      · exact .limit read
      · exact .limitAndSkip read readStart
    case distinct =>
      obtain rfl : args = [] := sound
      exact .distinct
    case aggregate =>
      obtain ⟨nonempty, columns, keys, results⟩ := sound
      exact .aggregate nonempty columns keys results
    case sum | mean | max | min | count => exact .function sound
    all_goals
      obtain ⟨filter, compiled⟩ := sound
      exact .predicate rfl compiled

/-- A `limit` that fits would compile by itself, and holds no path. -/
theorem isSound_limit_of_fit (fit : Node.argumentsFit .limit args = true) :
    IsSound (.apply .limit args) ∧ (Node.apply .limit args).paths = [] := by
  obtain ⟨arity, kind⟩ := Bool.and_eq_true_iff.1 fit
  have counts := fun arg mem => count_of_isCount (List.all_eq_true.1 kind arg mem)
  refine ⟨?_, by simpa using fun arg mem => (counts arg mem).1⟩
  obtain _ | ⟨count, _ | ⟨start, _ | ⟨third, others⟩⟩⟩ := args
  · simp [Operator.arity, Arity.admits] at arity
  · obtain ⟨-, limit, read⟩ := counts count (by simp)
    exact .limit read
  · obtain ⟨-, limit, read⟩ := counts count (by simp)
    obtain ⟨-, skip, readStart⟩ := counts start (by simp)
    exact .limitAndSkip read readStart
  · simp [Operator.arity, Arity.admits] at arity

/-- What holds of arguments whose paths can name fields is said by the paths of the whole. -/
theorem forall_args_iff {Usable : Node → Prop}
    (each : ∀ arg ∈ args, (Usable arg ↔ ∀ path ∈ arg.paths, IsFieldPath path)) :
    (∀ arg ∈ args, Usable arg) ↔ ∀ path ∈ (Node.apply op args).paths, IsFieldPath path := by
  rw [Node.paths_apply, List.forall_mem_flatMap]
  exact forall₂_congr each

/-- A well-kinded part would compile by itself when it is a condition or shapes the result, its
paths can name fields, and its names differ. -/
theorem isSound_iff (kinds : part.isWellKinded = true)
    (finite : ∀ value ∈ part.literals, value.isFinite = true) :
    IsSound part ↔
      (part.shapesResult = true ∨ ∀ op ∈ part.operators, op.isConditional = true) ∧
      (∀ path ∈ part.paths, IsFieldPath path) ∧
      (part.applies [.sort] = true → (part.args.filterMap Node.path?).Nodup) ∧
      (part.applies [.aggregate] = true →
        ((part.args.filterMap Node.path?).map flatName).Nodup ∧
          (part.args.filterMap Node.outputName?).Nodup) := by
  obtain ⟨op, args, rfl⟩ := Node.exists_apply_of_isWellKinded kinds
  obtain ⟨fit, below⟩ := Node.isWellKinded_apply.1 kinds
  obtain ⟨arity, kind⟩ := Bool.and_eq_true_iff.1 fit
  have nonempty (atLeast : op.arity = .atLeast 1) : args ≠ [] := by
    rintro rfl
    simp [atLeast, Arity.admits] at arity
  cases op
  case sort =>
    have kind := List.all_eq_true.1 kind
    have names : args.filterMap sortName? = args.filterMap Node.path? :=
      List.filterMap_congr fun arg mem => by
        have isKey := kind arg mem
        cases arg <;> simp [Node.isSortKey] at isKey
        rfl
    rw [isSound_apply_iff, IsSoundApplication,
      ← forall_args_iff fun arg mem => isSortKey_iff (kind arg mem), names]
    simp [nonempty rfl, Node.shapesResult, Operator.role, Node.applies, Node.operator?, Node.args]
  case select | values =>
    have kind := List.all_eq_true.1 kind
    rw [isSound_apply_iff, IsSoundApplication,
      ← forall_args_iff fun arg mem => isField_iff (kind arg mem)]
    simp [nonempty rfl, Node.shapesResult, Operator.role, Node.applies, Node.operator?]
  case aggregate =>
    have kind := List.all_eq_true.1 kind
    have results : args.filterMap resultName? = args.filterMap Node.outputName? :=
      List.filterMap_congr fun arg mem => resultName?_eq_outputName? (below arg mem)
    have keys : args.filterMap keyName? = (args.filterMap Node.path?).map flatName :=
      List.map_filterMap.symm
    rw [isSound_apply_iff, IsSoundApplication,
      ← forall_args_iff fun arg mem => isColumn_iff (kind arg mem) (below arg mem), results, keys]
    simp [nonempty rfl, Node.shapesResult, Operator.role, Node.applies, Node.operator?, Node.args]
  case limit =>
    obtain ⟨sound, noPaths⟩ := isSound_limit_of_fit fit
    simp [sound, noPaths, Node.shapesResult, Operator.role, Node.applies, Node.operator?]
  case distinct =>
    obtain rfl : args = [] := by simpa [Operator.arity, Arity.admits] using arity
    simp [IsSound.distinct, Node.shapesResult, Operator.role, Node.applies, Node.operator?]
  case sum | mean | max | min | count =>
    rw [isSound_apply_iff, IsSoundApplication, ← isFunction_iff rfl fit]
    simp [Node.shapesResult, Operator.role, Node.applies, Node.operator?]
  all_goals
    rw [isSound_apply_iff]
    simp only [IsSoundApplication]
    rw [exists_predicate_iff _ kinds finite]
    simp [Node.shapesResult, Operator.role, Node.applies, Node.operator?]

/-! ## Parts beside each other -/

/-- The slot that a part fills. -/
def slot? (part : Node) : Option Slot :=
  (contribution part).slot

/-- A part that belongs to an aggregation. -/
def groups (part : Node) : Bool :=
  (slot? part).any Slot.groups

/-- Only an aggregate function by itself fills the slot of an output name. -/
theorem slot?_eq_result_iff {name : String} :
    slot? part = some (.result name) ↔ resultName? part = some name := by
  cases read : accumulator? part with
  | some added => simp [slot?, contribution_of_function read, resultName?, read]
  | none =>
    have output : output? part = none := by rw [output?, read, Option.map_none]
    have noResult : resultName? part = none := by rw [resultName?, read, Option.map_none]
    rw [noResult]
    unfold slot? contribution
    split <;> simp [output]

/-- The operators that fill a slot, where it is no output name. -/
def Slot.operators : Slot → List Operator
  | .sort => [.sort]
  | .projection => [.select, .values]
  | .limit => [.limit]
  | .distinct => [.distinct]
  | .grouping => [.aggregate]
  | .result _ => []

theorem Slot.excludes_eq_false_iff {s t : Slot} :
    s.excludes t = false ↔ s ≠ t ∧ s.bars t = false ∧ t.bars s = false := by
  simp [excludes, and_assoc]

theorem Slot.bars_self (s : Slot) : s.bars s = false := by
  cases s <;> rfl

/-- A slot that is no output name is filled by its operators. -/
theorem slot?_eq_some_iff {slot : Slot} (named : slot.operators ≠ []) :
    slot? part = some slot ↔ part.applies slot.operators = true := by
  unfold slot? contribution
  split
  case h_7 =>
    -- Without a directive at its root, a part fills the slot of an output name or none.
    obtain ⟨op, args⟩ | _ | _ | _ | _ := part <;>
      cases slot <;> simp [Slot.operators] at named <;> split <;>
      simp_all [Node.applies, Node.operator?, Slot.operators]
  all_goals cases slot <;> simp [Node.applies, Node.operator?, Slot.operators]

/-- Parts stand beside each other when no slot is filled twice and none is barred. -/
theorem pairwise_apart_iff_slots :
    parts.Pairwise Apart ↔ (parts.filterMap slot?).Nodup ∧
      ∀ s ∈ parts.filterMap slot?, ∀ t ∈ parts.filterMap slot?, s.bars t = false := by
  have symm : Std.Symm fun s t : Slot => s.bars t = false ∧ t.bars s = false := ⟨fun _ _ => And.symm⟩
  have slots : parts.Pairwise Apart ↔ (parts.filterMap slot?).Pairwise
      fun s t => s ≠ t ∧ s.bars t = false ∧ t.bars s = false := by
    simp only [List.pairwise_filterMap, ← Slot.excludes_eq_false_iff]
    rfl
  rw [slots, List.pairwise_and_iff]
  refine and_congr_right fun _ => ⟨fun apart s sMem t tMem => ?_, fun free => ?_⟩
  · exact (apart.forall_of_forall (fun s _ => ⟨s.bars_self, s.bars_self⟩) sMem tMem).1
  · exact List.pairwise_of_forall_mem_list fun s sMem t tMem =>
      ⟨free s sMem t tMem, free t tMem s sMem⟩

/-- No slot is filled twice when no directive is given twice and the output names differ. -/
theorem nodup_slots_iff :
    (parts.filterMap slot?).Nodup ↔
      (∀ ops ∈ [[.sort], [.limit], [.distinct], [.aggregate], [.select, .values]],
        parts.countP (Node.applies ops) ≤ 1) ∧ (parts.filterMap resultName?).Nodup := by
  have filled {slot : Slot} (named : slot.operators ≠ []) :
      (parts.filterMap slot?).count slot = parts.countP (Node.applies slot.operators) := by
    rw [List.count_filterMap]
    exact List.countP_congr fun part _ => by simpa using slot?_eq_some_iff named
  have bare (name : String) : (parts.filterMap slot?).count (.result name) =
      (parts.filterMap resultName?).count name := by
    rw [List.count_filterMap, List.count_filterMap]
    exact List.countP_congr fun part _ => by simpa using slot?_eq_result_iff
  simp only [List.nodup_iff_count_le_one, ← bare]
  constructor
  · intro once
    have filledOnce (slot : Slot) (named : slot.operators ≠ []) :
        parts.countP (Node.applies slot.operators) ≤ 1 := filled named ▸ once slot
    simp only [List.forall_mem_cons]
    exact ⟨⟨filledOnce .sort (by decide), filledOnce .limit (by decide),
      filledOnce .distinct (by decide), filledOnce .grouping (by decide),
      filledOnce .projection (by decide), nofun⟩, fun name => once _⟩
  · rintro ⟨once, names⟩ slot
    cases slot with
    | result name => exact names name
    | sort | projection | limit | distinct | grouping =>
      rw [filled (by simp [Slot.operators])]
      exact once _ (by simp [Slot.operators])

/-- Nothing is barred when no `aggregate` and no projection stands beside what it excludes. -/
theorem bars_slots_iff :
    (∀ s ∈ parts.filterMap slot?, ∀ t ∈ parts.filterMap slot?, s.bars t = false) ↔
      (∀ part ∈ parts, part.applies [.aggregate] = true →
        ∀ other ∈ parts, resultName? other = none) ∧
      (∀ part ∈ parts, part.applies [.select, .values] = true →
        ∀ other ∈ parts, groups other = false) := by
  have grouping {part : Node} : slot? part = some .grouping ↔ part.applies [.aggregate] = true :=
    @slot?_eq_some_iff part .grouping (by decide)
  have projection {part : Node} :
      slot? part = some .projection ↔ part.applies [.select, .values] = true :=
    @slot?_eq_some_iff part .projection (by decide)
  simp only [List.mem_filterMap, ← grouping, ← projection]
  constructor
  · intro free
    refine ⟨fun part mem isGrouping other otherMem => ?_,
      fun part mem isProjection other otherMem => ?_⟩
    · refine Option.eq_none_iff_forall_ne_some.2 fun name named => ?_
      have := free _ ⟨part, mem, isGrouping⟩ _ ⟨other, otherMem, slot?_eq_result_iff.2 named⟩
      simp [Slot.bars] at this
    · cases filled : slot? other with
      | none => simp [groups, filled]
      | some slot =>
        simpa [groups, filled, Slot.bars] using
          free _ ⟨part, mem, isProjection⟩ _ ⟨other, otherMem, filled⟩
  · rintro ⟨alone, ungrouped⟩ s ⟨part, mem, filled⟩ t ⟨other, otherMem, otherFilled⟩
    cases s with
    | projection =>
      simpa [groups, otherFilled, Slot.bars] using ungrouped part mem filled other otherMem
    | grouping =>
      cases t with
      | result name =>
        simpa [slot?_eq_result_iff.1 otherFilled] using alone part mem filled other otherMem
      | sort | projection | limit | distinct | grouping => rfl
    | sort | limit | distinct | result => rfl

/-- A well-kinded part has an output name exactly when it is an aggregate function. -/
theorem resultName?_eq_none_iff (fit : node.allFit = true) :
    resultName? node = none ↔ node.isAggregate = false := by
  obtain ⟨op, args⟩ | _ | _ | _ | _ := node
  · have argsFit := (Bool.and_eq_true_iff.1 (Node.allFit_apply op args ▸ fit)).1
    by_cases role : op.role = .aggregate
    · rw [resultName?_eq_outputName? fit]
      obtain ⟨rfl, rfl⟩ | ⟨notCount, field, rfl, isField⟩ := Node.aggregated_of_fit role argsFit
      · simp [Node.outputName?, Node.isAggregate, Operator.role]
      · cases field <;> simp [Node.isField] at isField
        simp [Node.outputName?, Node.isAggregate, role]
    · simp [resultName?, accumulator?_of_role_ne role, Node.isAggregate, role]
  all_goals simp [resultName?, accumulator?, Node.isAggregate]

/-- A part belongs to an aggregation when it is an `aggregate` or has an output name. -/
theorem groups_eq_false_iff :
    groups part = false ↔ part.applies [.aggregate] = false ∧ resultName? part = none := by
  have grouping : slot? part = some .grouping ↔ part.applies [.aggregate] = true :=
    slot?_eq_some_iff (by decide)
  rw [← Bool.not_eq_true (part.applies _), ← grouping, Option.eq_none_iff_forall_ne_some]
  simp only [ne_eq, ← slot?_eq_result_iff, groups]
  cases slot? part with
  | none => simp
  | some slot => cases slot <;> simp [Slot.groups]

/-- **Exactly the compilable trees compile.** -/
theorem exists_compile_iff_isCompilable (kinds : node.isWellKinded = true)
    (finite : ∀ value ∈ node.literals, value.isFinite = true) :
    (∃ query, compile node = .ok query) ↔ node.IsCompilable := by
  obtain ⟨found, partKinds⟩ := parts_of_isWellKinded kinds
  have fit : ∀ part ∈ partsOf node, part.allFit = true := fun part mem =>
    (Bool.and_eq_true_iff.1 (partKinds part mem)).2
  have compiles : (∃ query, compile node = .ok query) ↔
      (∀ part ∈ partsOf node, IsSound part) ∧ (partsOf node).Pairwise Apart := by
    simp [compile_eq_ok_iff, (parts_eq_ok.1 found).2]
  have sound := forall₂_congr fun part mem => isSound_iff (partKinds part mem) fun value valueMem =>
    finite value (flatMap_literals_partsOf node ▸ List.mem_flatMap.2 ⟨part, mem, valueMem⟩)
  have results : (partsOf node).filterMap resultName? = (partsOf node).filterMap Node.outputName? :=
    List.filterMap_congr fun part mem => resultName?_eq_outputName? (fit part mem)
  have paths : (∀ part ∈ partsOf node, ∀ path ∈ part.paths, IsFieldPath path) ↔
      ∀ path ∈ node.paths, IsFieldPath path := by
    rw [← flatMap_paths_partsOf, List.forall_mem_flatMap]
  rw [compiles, sound, pairwise_apart_iff_slots, nodup_slots_iff, bars_slots_iff, results]
  have aggregates : ∀ part ∈ partsOf node, (resultName? part = none ↔ part.isAggregate = false) :=
    fun part mem => resultName?_eq_none_iff (fit part mem)
  constructor
  · rintro ⟨each, ⟨once, bareOutputNames⟩, inside, unprojected⟩
    refine ⟨fun part mem => (each part mem).1, paths.1 fun part mem => (each part mem).2.1, once, ?_,
      ?_, fun part mem => (each part mem).2.2.1, fun part mem named => ((each part mem).2.2.2 named).1,
      fun part mem named => ((each part mem).2.2.2 named).2, bareOutputNames⟩
    · exact fun part mem named other otherMem =>
        (aggregates other otherMem).1 (inside part mem named other otherMem)
    · exact fun part mem named other otherMem =>
        (groups_eq_false_iff.1 (unprojected part mem named other otherMem)).imp_right
          (aggregates other otherMem).1
  · intro compilable
    refine ⟨fun part mem => ⟨compilable.conditions part mem, paths.2 compilable.paths part mem,
        compilable.sortFields part mem, fun named => ⟨compilable.groupKeys part mem named,
          compilable.outputNames part mem named⟩⟩,
      ⟨compilable.once, compilable.bareOutputNames⟩, ?_, ?_⟩
    · exact fun part mem named other otherMem =>
        (aggregates other otherMem).2 (compilable.inside part mem named other otherMem)
    · exact fun part mem named other otherMem => groups_eq_false_iff.2 <|
        (compilable.unprojected part mem named other otherMem).imp_right
          (aggregates other otherMem).2

/-- A sorted and grouped query with a condition compiles. It does not when `sum(a.b)` and `sum(a_b)`
both stand beside its condition, for they put out under one name. -/
theorem exists_compile_of_grouped_tree :
    (∃ query, compile (.apply .and
      [.apply .or [.apply .eq [.field "a", .literal (.integer 1)],
        .apply .not [.apply .contains [.field "tags", .array [.string "red"]]]],
        .apply .sort [.sortKey "a.b" .descending, .sortKey "c" .ascending],
        .apply .aggregate [.field "user.age", .apply .sum [.field "a.b"], .apply .count []],
        .apply .limit [.literal (.integer 10)]]) = .ok query) ∧
    ¬∃ query, compile (.apply .and [.apply .eq [.field "a", .literal (.integer 1)],
      .apply .sum [.field "a.b"], .apply .sum [.field "a_b"]]) = .ok query := by
  constructor
  · refine (exists_compile_iff_isCompilable (by decide) (by decide)).2 ?_
    exact ⟨by decide, by decide +kernel, by decide, by decide, by decide, by decide, by decide +kernel,
      by decide +kernel, by decide⟩
  · intro compiled
    have clash := (exists_compile_iff_isCompilable (by decide) (by decide)).1 compiled
    exact absurd clash.bareOutputNames (by decide +kernel)

end Compilation
end ResourceQuery
