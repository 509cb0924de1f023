import Mathlib.Logic.Basic
import ResourceQuery.Compilation

/-!
# What the parts of a query contribute

A part that shapes the result fills a slot of it, and some slots exclude each other. `merge` says
what contributions make together, without taking one after the other; `push` adds one of them behind
others. The draft that contributions make admits a slot exactly when none of them excludes it.
-/

namespace ResourceQuery.Compilation
set_option autoImplicit false

/-! ## Slots -/

/-- What a part claims of the result for itself. -/
inductive Slot
  | sort
  | projection
  | limit
  | distinct
  | grouping
  /-- The output name of an aggregate function that stands by itself. -/
  | result (name : String)
deriving DecidableEq

namespace Slot

/-- The slot belongs to an aggregation. -/
def groups : Slot → Bool
  | .grouping | .result _ => true
  | _ => false

/-- The first slot leaves no place for the second one: a projection goes with no aggregation, and an
`aggregate` with no aggregate function beside it. -/
def bars : Slot → Slot → Bool
  | .projection, slot => slot.groups
  | .grouping, .result _ => true
  | _, _ => false

/-- The slots cannot both be filled. -/
def excludes (a b : Slot) : Bool :=
  a == b || a.bars b || b.bars a

/-- A slot beside projections and aggregations is excluded by nothing but itself. -/
theorem excludes_eq_beq {slot : Slot} (beside : slot = .sort ∨ slot = .limit ∨ slot = .distinct)
    (s : Slot) : s.excludes slot = (s == slot) := by
  rcases beside with rfl | rfl | rfl <;> cases s <;> simp [excludes, bars, groups]

/-- Projections and aggregations exclude what fills the slot of a projection or an `aggregate`. -/
theorem excludes_eq_or {slot : Slot} (either : slot = .projection ∨ slot = .grouping) (s : Slot) :
    s.excludes slot = (s == .projection || s.groups) := by
  rcases either with rfl | rfl <;> cases s <;> rfl

end Slot

/-! ## Contributions -/

/-- What a part adds to a query. -/
structure Contribution where
  slot : Option Slot := none
  sort : Fields Int := []
  projection : Option Projection := none
  limit : Option Nat := none
  skip : Option Nat := none
  /-- Group keys and accumulators. -/
  columns : Option Aggregation := none
  filter : Option Document := none

namespace Contribution

/-- Contributions that can stand beside each other. -/
def Apart (a b : Contribution) : Prop :=
  ∀ s ∈ a.slot, ∀ t ∈ b.slot, s.excludes t = false

/-- A contribution holds just what its slot stands for. -/
structure IsFilled (c : Contribution) : Prop where
  sort : c.sort = [] ↔ c.slot ≠ some .sort
  projection : c.projection = none ↔ c.slot ≠ some .projection
  limit : c.limit = none ↔ c.slot ≠ some .limit
  skip : c.limit = none → c.skip = none
  columns : c.columns = none ↔ ∀ s ∈ c.slot, s.groups = false
  results : c.slot ≠ some .grouping → ∀ name,
    (∃ columns ∈ c.columns, name ∈ columns.accumulators.names) ↔ c.slot = some (.result name)

/-- The contribution without its filter. -/
def shape (c : Contribution) : Contribution :=
  { c with filter := none }

end Contribution

variable {cs : List Contribution} {c : Contribution}

/-- Aggregations beside each other. -/
def besides (several : List Aggregation) : Aggregation :=
  ⟨several.flatMap Aggregation.groupBy, several.flatMap Aggregation.accumulators⟩

/-- What contributions make together. -/
def merge (cs : List Contribution) : Draft where
  query := {
    sort := cs.flatMap Contribution.sort
    projection := cs.findSome? Contribution.projection
    limit := cs.findSome? Contribution.limit
    skip := cs.findSome? Contribution.skip
    distinct := cs.any fun c => c.slot == some .distinct
    aggregation :=
      if cs.filterMap Contribution.columns = [] then none
      else some (besides (cs.filterMap Contribution.columns)) }
  predicates := cs.filterMap Contribution.filter
  aggregated := cs.any fun c => c.slot == some .grouping

/-- Aggregations make up the one in the draft, or there are none. -/
theorem aggregation_merge (cs : List Contribution) :
    (merge cs).query.aggregation.getD .empty = besides (cs.filterMap Contribution.columns) := by
  by_cases none : cs.filterMap Contribution.columns = []
  · simp only [merge, none]
    rfl
  · simp only [merge, if_neg none, Option.getD_some]

/-- Contributions shape the result by their shapes alone. -/
theorem query_merge_map_shape (cs : List Contribution) :
    (merge (cs.map Contribution.shape)).query = (merge cs).query := by
  simp [merge, List.flatMap_map, List.findSome?_map, Function.comp_def, Contribution.shape,
    List.filterMap_map]

/-! ## One more contribution -/

/-- The draft with a contribution behind what it holds. -/
def Draft.push (draft : Draft) (c : Contribution) : Draft where
  query := {
    filter := draft.query.filter
    sort := draft.query.sort ++ c.sort
    projection := draft.query.projection.or c.projection
    limit := draft.query.limit.or c.limit
    skip := draft.query.skip.or c.skip
    distinct := draft.query.distinct || c.slot == some .distinct
    aggregation :=
      match c.columns with
      | none => draft.query.aggregation
      | some columns => some (besides [draft.query.aggregation.getD .empty, columns]) }
  predicates := draft.predicates ++ c.filter.toList
  aggregated := draft.aggregated || c.slot == some .grouping

theorem merge_append_singleton (cs : List Contribution) (c : Contribution) :
    merge (cs ++ [c]) = (merge cs).push c := by
  have filters : [c].filterMap Contribution.filter = c.filter.toList := by
    cases found : c.filter <;> simp [found]
  rw [Draft.push, aggregation_merge]
  cases columns : c.columns <;>
    simp [merge, columns, filters, besides, List.findSome?_append]

/-- The draft has nothing yet that excludes the slot. -/
def Draft.Admits (draft : Draft) : Slot → Prop
  | .sort => draft.query.sort = []
  | .projection | .grouping => draft.query.projection = none ∧ draft.query.aggregation = none
  | .limit => draft.query.limit = none
  | .distinct => draft.query.distinct = false
  | .result name => draft.aggregated = false ∧ draft.query.projection = none ∧
      name ∉ (draft.query.aggregation.getD .empty).accumulators.names

/-- A slot that only itself excludes is free of a contribution that does not fill it. -/
theorem slot_ne_some_iff {slot : Slot} (beside : slot = .sort ∨ slot = .limit ∨ slot = .distinct) :
    c.slot ≠ some slot ↔ ∀ s ∈ c.slot, s.excludes slot = false := by
  simp only [Slot.excludes_eq_beq beside]
  cases c.slot <;> simp

/-- Contributions leave a draft without projection and aggregation when none of them excludes
these. -/
theorem ungrouped_merge (filled : ∀ c ∈ cs, c.IsFilled) {slot : Slot}
    (either : slot = .projection ∨ slot = .grouping) :
    ((merge cs).query.projection = none ∧ (merge cs).query.aggregation = none) ↔
      ∀ c ∈ cs, ∀ s ∈ c.slot, s.excludes slot = false := by
  have each : ((merge cs).query.projection = none ∧ (merge cs).query.aggregation = none) ↔
      ∀ c ∈ cs, c.projection = none ∧ c.columns = none := by
    rw [forall₂_and]
    simp [merge, List.findSome?_eq_none_iff]
  rw [each]
  refine forall₂_congr fun c mem => ?_
  rw [(filled c mem).projection, (filled c mem).columns]
  simp only [Slot.excludes_eq_or either]
  cases c.slot <;> simp

/-- What contributions make together admits an output name when none of them uses or bars it. -/
theorem admits_result_merge (filled : ∀ c ∈ cs, c.IsFilled) (name : String) :
    (merge cs).Admits (.result name) ↔
      ∀ c ∈ cs, ∀ s ∈ c.slot, s.excludes (.result name) = false := by
  have named : name ∉ (besides (cs.filterMap Contribution.columns)).accumulators.names ↔
      ∀ c ∈ cs, ¬∃ columns ∈ c.columns, name ∈ columns.accumulators.names := by
    simp only [besides, Fields.names, List.map_flatMap, List.mem_flatMap, List.mem_filterMap,
      not_exists, not_and, forall_exists_index, and_imp, Option.mem_def]
    exact ⟨fun free c mem columns found => free columns c mem found,
      fun free columns c mem found => free c mem columns found⟩
  rw [Draft.Admits, aggregation_merge, named]
  simp only [merge, List.any_eq_false, beq_iff_eq, List.findSome?_eq_none_iff, ← forall₂_and]
  refine forall₂_congr fun c mem => ?_
  by_cases grouping : c.slot = some .grouping
  · simp [grouping, Slot.excludes, Slot.bars]
  · rw [(filled c mem).projection, (filled c mem).results grouping]
    rcases c.slot with _ | s
    · simp
    · cases s <;> simp_all [Slot.excludes, Slot.bars, Slot.groups]

/-- What contributions make together admits a slot when none of them excludes it. -/
theorem admits_merge (filled : ∀ c ∈ cs, c.IsFilled) (slot : Slot) :
    (merge cs).Admits slot ↔ ∀ c ∈ cs, ∀ s ∈ c.slot, s.excludes slot = false := by
  cases slot with
  | sort =>
    simp only [Draft.Admits, merge, List.flatMap_eq_nil_iff]
    exact forall₂_congr fun c mem => (filled c mem).sort.trans (slot_ne_some_iff (by simp))
  | limit =>
    simp only [Draft.Admits, merge, List.findSome?_eq_none_iff]
    exact forall₂_congr fun c mem => (filled c mem).limit.trans (slot_ne_some_iff (by simp))
  | distinct =>
    simp only [Draft.Admits, merge, List.any_eq_false, beq_iff_eq]
    exact forall₂_congr fun c _ => slot_ne_some_iff (by simp)
  | projection | grouping => exact ungrouped_merge filled (by simp)
  | result name => exact admits_result_merge filled name

end ResourceQuery.Compilation
