import ResourceQuery.Proofs.Compilation.Paths
import ResourceQuery.Proofs.Node.Leaves

/-!
# What directives hold

The arguments of a directive are read one after the other. Each of these loops succeeds when every
argument is of the right kind and no two of them claim the same name, and it collects what the
arguments hold in their order.
-/

namespace ResourceQuery.Compilation
set_option autoImplicit false
open Fallible

variable {op : Operator} {args : List Node} {node : Node}

/-! ## Names -/

/-- The nodes claim no name together. -/
def Differ (name? : Node → Option String) (a b : Node) : Prop :=
  ∀ x ∈ name? a, ∀ y ∈ name? b, x ≠ y

/-- Nodes of which no two claim the same name have distinct names. -/
theorem pairwise_differ {name? : Node → Option String} {nodes : List Node} :
    nodes.Pairwise (Differ name?) ↔ (nodes.filterMap name?).Nodup :=
  List.pairwise_filterMap.symm

/-- A name is free when no earlier node claims it. -/
theorem fresh_iff {name? : Node → Option String} {seen : List Node} :
    (∀ name ∈ name? node, name ∉ seen.filterMap name?) ↔
      ∀ other ∈ seen, Differ name? other node := by
  simp only [List.mem_filterMap, not_exists, not_and, Differ]
  exact ⟨fun free other mem x claimed y wanted same =>
      free y wanted other mem (claimed.trans (congrArg some same)),
    fun free name wanted other mem claimed => free other mem name claimed name wanted rfl⟩

/-! ## Sort keys -/

/-- How the store sorts by a key. -/
def sortOrder : Direction → Int
  | .ascending => 1
  | .descending => -1

/-- What a sort key adds to the sort. -/
def sortField? (node : Node) : Option (String × Int) :=
  node.sortKey?.map fun key => (key.1, sortOrder key.2)

/-- The field that a sort key sorts by. -/
def sortName? (node : Node) : Option String :=
  node.sortKey?.map Prod.fst

theorem names_sortFields (nodes : List Node) :
    Fields.names (nodes.filterMap sortField?) = nodes.filterMap sortName? := by
  rw [Fields.names, List.map_filterMap]
  congr 1
  funext node
  simp [sortField?, sortName?, Function.comp_def]

/-- A sort key by a field path. -/
def IsSortKey (node : Node) : Prop :=
  ∃ path direction, node = .sortKey path direction ∧ IsFieldPath path

theorem addSortKey_eq_ok {sort next : Fields Int} :
    addSortKey sort node = .ok next ↔
      IsSortKey node ∧ (∀ name ∈ sortName? node, name ∉ sort.names) ∧
        next = sort ++ (sortField? node).toList := by
  cases node with
  | apply | literal | array | field => simp [addSortKey, unexpected, IsSortKey]
  | sortKey path direction =>
    simp only [addSortKey, bind_eq_ok, checkedPath_eq_ok, pathFault?_eq_none_iff]
    constructor
    · rintro ⟨_, ⟨usable, rfl⟩, added⟩
      split at added
      · simp at added
      · next free =>
        have free : path ∉ sort.names := by simpa [← Fields.get?_eq_none_iff] using free
        rw [pure_eq_ok, Fields.insert_of_not_mem _ _ free] at added
        refine ⟨⟨path, direction, rfl, usable⟩, ?_, ?_⟩
        · rintro name ⟨⟩
          exact free
        · rw [← added]
          cases direction <;> rfl
    · rintro ⟨⟨_, _, ⟨⟩, usable⟩, free, rfl⟩
      have free : path ∉ sort.names := free path rfl
      refine ⟨path, ⟨usable, rfl⟩, ?_⟩
      rw [if_neg (by simpa [← Fields.get?_eq_none_iff] using free), pure_eq_ok,
        Fields.insert_of_not_mem _ _ free]
      cases direction <;> rfl

/-- Sort keys by distinct field paths make up a sort, in their order. -/
theorem foldlM_addSortKey_eq_ok {sort : Fields Int} :
    args.foldlM addSortKey [] = .ok sort ↔
      (∀ arg ∈ args, IsSortKey arg) ∧ (args.filterMap sortName?).Nodup ∧
        sort = args.filterMap sortField? := by
  rw [← pairwise_differ]
  refine foldlM_eq_ok_iff (fun seen => seen.filterMap sortField?) fun seen input next _ => ?_
  rw [addSortKey_eq_ok, names_sortFields, fresh_iff, List.filterMap_append]
  cases field : sortField? input <;> simp [field]

/-! ## Fields and counts -/

/-- A field of a document. -/
def IsField (node : Node) : Prop :=
  ∃ path, node = .field path ∧ IsFieldPath path

/-- The fields that a projection names, in their order. -/
theorem mapM_fieldArgument_eq_ok {fields : List String} :
    args.mapM (fieldArgument op) = .ok fields ↔
      (∀ arg ∈ args, IsField arg) ∧ fields = args.filterMap Node.path? := by
  induction args generalizing fields with
  | nil =>
    rw [List.mapM_nil, pure_eq_ok]
    exact ⟨fun same => ⟨nofun, same.symm⟩, fun found => found.2.symm⟩
  | cons arg args ih =>
    simp only [List.mapM_cons, bind_eq_ok, pure_eq_ok, fieldArgument_eq_ok, ih,
      pathFault?_eq_none_iff, List.forall_mem_cons]
    constructor
    · rintro ⟨path, ⟨rfl, usable⟩, _, ⟨others, rfl⟩, rfl⟩
      exact ⟨⟨⟨path, rfl, usable⟩, others⟩, rfl⟩
    · rintro ⟨⟨⟨path, rfl, usable⟩, others⟩, rfl⟩
      exact ⟨path, ⟨rfl, usable⟩, _, ⟨others, rfl⟩, rfl⟩

/-- The number that a count of documents stands for. -/
def count? : Node → Option Nat
  | .literal (.integer n) => if 0 ≤ n then some n.toInt.toNat else none
  | _ => none

theorem countArgument_eq_ok {count : Nat} :
    countArgument op node = .ok count ↔ count? node = some count := by
  unfold countArgument count?
  split
  · next n => by_cases sign : 0 ≤ n <;> simp [sign]
  · simp [unexpected]

/-! ## Aggregation -/

/-- The accumulator of an aggregate function of a field, or of all documents. -/
def accumulator? : Node → Option Accumulator
  | .apply op [] => if op = .count then some .count else none
  | .apply op [.field path] => (foldOf? op).map (.fold · path)
  | _ => none

/-- No other operator has an accumulator. -/
theorem accumulator?_of_role_ne (role : op.role ≠ .aggregate) :
    accumulator? (.apply op args) = none := by
  have notCount : op ≠ .count := by
    rintro rfl
    exact role rfl
  have noFold : foldOf? op = none := by
    cases op <;> simp_all [Operator.role, foldOf?]
  obtain _ | ⟨arg, _ | ⟨second, others⟩⟩ := args
  · simp [accumulator?, notCount]
  · cases arg <;> simp [accumulator?, noFold]
  · simp [accumulator?]

/-- The output name of an aggregate function. -/
def resultName? (node : Node) : Option String :=
  (accumulator? node).map Accumulator.resultName

/-- An accumulator under its output name. -/
def output? (node : Node) : Option (String × Accumulator) :=
  (accumulator? node).map fun added => (added.resultName, added)

theorem names_outputs (nodes : List Node) :
    Fields.names (nodes.filterMap output?) = nodes.filterMap resultName? := by
  rw [Fields.names, List.map_filterMap]
  congr 1
  funext node
  simp [output?, resultName?, Function.comp_def]

/-- An aggregate function of a field of documents, or of all documents. -/
def IsFunction (node : Node) : Prop :=
  ∃ added, accumulator? node = some added ∧ ∀ path ∈ added.field?, IsFieldPath path

theorem accumulator_eq_ok_iff (role : op.role = .aggregate) {added : Accumulator} :
    accumulator op args = .ok added ↔
      accumulator? (.apply op args) = some added ∧ ∀ path ∈ added.field?, IsFieldPath path := by
  have counts : foldOf? op = none ↔ op = .count := by
    cases op <;> simp_all [Operator.role, foldOf?]
  obtain _ | ⟨field, _ | ⟨second, others⟩⟩ := args
  · cases found : foldOf? op with
    | none =>
      obtain rfl := counts.1 found
      simp only [accumulator, foldOf?, accumulator?, if_true, Except.ok.injEq, Option.some.injEq]
      refine ⟨fun same => ⟨same, ?_⟩, And.left⟩
      simp [← same, Accumulator.field?]
    | some function =>
      have notCount : op ≠ .count := by
        rintro rfl
        simp [foldOf?] at found
      simp [accumulator, found, accumulator?, notCount]
  · cases found : foldOf? op with
    | none => cases field <;> simp [accumulator, accumulator?, found]
    | some function =>
      simp only [accumulator, found, bind_eq_ok, pure_eq_ok, fieldArgument_eq_ok,
        pathFault?_eq_none_iff]
      constructor
      · rintro ⟨path, ⟨rfl, usable⟩, rfl⟩
        exact ⟨by simp [accumulator?, found], by rintro _ ⟨⟩; exact usable⟩
      · rintro ⟨read, usable⟩
        cases field <;> simp only [accumulator?, found, Option.map_some, Option.some.injEq,
          reduceCtorEq] at read
        subst read
        exact ⟨_, ⟨rfl, usable _ rfl⟩, rfl⟩
  · cases found : foldOf? op <;> simp [accumulator, accumulator?, found]

/-- An accumulator is added when its output name is free. -/
theorem accumulate_eq_ok (role : op.role = .aggregate) {aggregation next : Aggregation} :
    accumulate aggregation op args = .ok next ↔
      IsFunction (.apply op args) ∧
        (∀ name ∈ resultName? (.apply op args), name ∉ aggregation.accumulators.names) ∧
        next = { aggregation with
          accumulators := aggregation.accumulators ++ (output? (.apply op args)).toList } := by
  simp only [accumulate, bind_eq_ok, accumulator_eq_ok_iff role]
  constructor
  · rintro ⟨added, ⟨read, usable⟩, put⟩
    split at put
    · next free =>
      rw [Fields.get?_eq_none_iff] at free
      rw [pure_eq_ok, Fields.insert_of_not_mem _ _ free] at put
      refine ⟨⟨added, read, usable⟩, ?_, ?_⟩
      · simpa [resultName?, read] using free
      · simpa [output?, read] using put.symm
    · split at put <;> simp at put
  · rintro ⟨⟨added, read, usable⟩, free, rfl⟩
    have free : added.resultName ∉ aggregation.accumulators.names := by
      simpa [resultName?, read] using free
    refine ⟨added, ⟨read, usable⟩, ?_⟩
    rw [Fields.get?_eq_none_iff.2 free]
    simp [output?, read, Fields.insert_of_not_mem _ _ free]

/-! ### Arguments of `aggregate` -/

/-- The output name of a group key. -/
def keyName? (node : Node) : Option String :=
  node.path?.map flatName

/-- A group key, or an aggregate function. -/
def IsColumn (node : Node) : Prop :=
  IsField node ∨ IsFunction node

/-- What the arguments of `aggregate` make together. -/
def columns (args : List Node) : Aggregation :=
  ⟨args.filterMap Node.path?, args.filterMap output?⟩

/-- What one more argument adds. -/
theorem columns_append_singleton (args : List Node) (node : Node) :
    columns (args ++ [node]) = ⟨(columns args).groupBy ++ node.path?.toList,
      (columns args).accumulators ++ (output? node).toList⟩ := by
  simp only [columns, List.filterMap_append]
  cases path : node.path? <;> cases output : output? node <;> simp [path, output]

/-- An argument of `aggregate` is added when its output name is free. -/
theorem addAggregateArgument_eq_ok {aggregation next : Aggregation} :
    addAggregateArgument aggregation node = .ok next ↔
      IsColumn node ∧ (∀ name ∈ keyName? node, name ∉ aggregation.groupBy.map flatName) ∧
        (∀ name ∈ resultName? node, name ∉ aggregation.accumulators.names) ∧
        next = ⟨aggregation.groupBy ++ node.path?.toList,
          aggregation.accumulators ++ (output? node).toList⟩ := by
  cases node with
  | literal | array | sortKey =>
    simp [addAggregateArgument, unexpected, IsColumn, IsField, IsFunction, accumulator?]
  | field path =>
    simp only [addAggregateArgument, addGroupKey, bind_eq_ok, checkedPath_eq_ok,
      pathFault?_eq_none_iff]
    have taken : aggregation.groupBy.find? (fun other => flatName other == flatName path) = none ↔
        flatName path ∉ aggregation.groupBy.map flatName := by simp
    constructor
    · rintro ⟨_, ⟨usable, rfl⟩, put⟩
      split at put
      · simp at put
      · next free =>
        refine ⟨.inl ⟨path, rfl, usable⟩, ?_, by simp [resultName?, accumulator?], ?_⟩
        · rintro name ⟨⟩
          exact taken.1 free
        · simpa [output?, accumulator?, Node.path?] using (pure_eq_ok.1 put).symm
    · rintro ⟨isColumn, free, -, rfl⟩
      have usable : IsFieldPath path := by
        rcases isColumn with ⟨_, ⟨⟩, usable⟩ | ⟨_, read, _⟩
        · exact usable
        · simp [accumulator?] at read
      refine ⟨path, ⟨usable, rfl⟩, ?_⟩
      rw [taken.2 (free _ rfl)]
      simp [output?, accumulator?, Node.path?]
  | apply op args =>
    by_cases role : op.role = .aggregate
    · simp only [addAggregateArgument, role, if_true, accumulate_eq_ok role]
      simp [IsColumn, IsField, keyName?, Node.path?]
    · simp [addAggregateArgument, role, unexpected, IsColumn, IsField, IsFunction,
        accumulator?_of_role_ne role]

/-- Group keys and aggregate functions without a common output name make up an aggregation, each in
their order. -/
theorem foldlM_addAggregateArgument_eq_ok {aggregation : Aggregation} :
    args.foldlM addAggregateArgument .empty = .ok aggregation ↔
      (∀ arg ∈ args, IsColumn arg) ∧ (args.filterMap keyName?).Nodup ∧
        (args.filterMap resultName?).Nodup ∧ aggregation = columns args := by
  have loop : args.foldlM addAggregateArgument (columns []) = .ok aggregation ↔
      (∀ arg ∈ args, IsColumn arg) ∧
        args.Pairwise (fun a b => Differ keyName? a b ∧ Differ resultName? a b) ∧
        aggregation = columns args := by
    refine foldlM_eq_ok_iff columns fun seen input next _ => ?_
    have keys : (columns seen).groupBy.map flatName = seen.filterMap keyName? :=
      List.map_filterMap
    have names : (columns seen).accumulators.names = seen.filterMap resultName? :=
      names_outputs seen
    rw [addAggregateArgument_eq_ok, keys, names, fresh_iff, fresh_iff, columns_append_singleton]
    simp only [imp_and, forall_and, and_assoc]
  rw [List.pairwise_and_iff, pairwise_differ, pairwise_differ, and_assoc] at loop
  exact loop

end ResourceQuery.Compilation
