import Mathlib.Data.List.Basic
import ResourceQuery.Proofs.Compilation.Acceptance
import ResourceQuery.Proofs.Compilation.NormalForms

/-!
# Parts in another order

Parts are taken from left to right, and each sees only what was taken before it. Still their order
decides nothing: whether two parts exclude each other does not depend on which of them comes first,
and what a directive fills is filled by no other part. Only filters and bare accumulators stand in
the query in the order of their parts. Main statement: reordered parts compile exactly when the parts
do, and to the same query if the predicates and the bare aggregate functions keep their order.
-/

namespace ResourceQuery.Compilation
set_option autoImplicit false

/-! ## Lists in another order -/

section Lists

variable {α β : Type} {xs ys : List α} {kind : α → Bool}

/-- Elements that are never two of a kind stay as they are among themselves. -/
theorem filter_eq_of_perm (perm : xs.Perm ys)
    (one : xs.Pairwise fun a b => kind a = true → kind b ≠ true) :
    xs.filter kind = ys.filter kind := by
  have alone : (xs.filter kind).Pairwise fun _ _ => False := List.pairwise_filter.2 one
  have permuted := perm.filter kind
  have alone' : (ys.filter kind).Pairwise fun _ _ => False :=
    (permuted.pairwise_iff id).1 alone
  exact permuted.eq_of_pairwise (fun _ _ _ _ clash => clash.elim) alone alone'

/-- Only what is of a kind counts, if all else contributes nothing. -/
theorem flatMap_filter {f : α → List β} (others : ∀ a ∈ xs, kind a = false → f a = []) :
    (xs.filter kind).flatMap f = xs.flatMap f := by
  induction xs with
  | nil => rfl
  | cons x xs ih =>
    obtain ⟨here, later⟩ := List.forall_mem_cons.1 others
    cases isKind : kind x with
    | true => simp [isKind, ih later]
    | false => simp [isKind, ih later, here isKind]

theorem filterMap_filter {f : α → Option β} (others : ∀ a ∈ xs, kind a = false → f a = none) :
    (xs.filter kind).filterMap f = xs.filterMap f := by
  simp only [List.filterMap_eq_flatMap_toList]
  exact flatMap_filter fun a mem other => by rw [others a mem other, Option.toList_none]

end Lists

variable {parts parts' : List Node} {part : Node}

/-! ## Parts that exclude each other -/

theorem Slot.excludes_comm (s t : Slot) : s.excludes t = t.excludes s := by
  simp only [excludes, Bool.or_assoc, Bool.or_comm (s.bars t), Bool.beq_comm (a := s)]

theorem Slot.excludes_self (s : Slot) : s.excludes s = true := by
  simp [excludes]

theorem Apart.symm {a b : Node} (apart : Apart a b) : Apart b a :=
  fun s filled t filled' => s.excludes_comm t ▸ apart t filled' s filled

/-- The part that fills a slot is the same in any order. -/
theorem filter_slot_of_perm (perm : parts.Perm parts') (apart : parts.Pairwise Apart) (slot : Slot) :
    parts.filter (slot? · == some slot) = parts'.filter (slot? · == some slot) := by
  refine filter_eq_of_perm perm (apart.imp fun {a b} apart first second => ?_)
  have free := apart slot (beq_iff_eq.1 first) slot (beq_iff_eq.1 second)
  rw [slot.excludes_self] at free
  exact Bool.noConfusion free

/-! ## What sound parts hold -/

theorem isAggregate_iff_result (sound : IsSound part) :
    part.isAggregate = true ↔ ∃ name, slot? part = some (.result name) := by
  simp only [slot?_eq_result_iff]
  constructor
  · intro aggregate
    cases sound with
    | function function =>
      obtain ⟨added, read, -⟩ := function
      exact ⟨added.resultName, by rw [resultName?, read]; rfl⟩
    | projection named =>
      rcases named with rfl | rfl <;> simp [Node.isAggregate, Operator.role] at aggregate
    | predicate condition =>
      cases part <;> simp_all [Node.isAggregate, Node.shapesResult]
    | sort | limit | limitAndSkip | distinct | aggregate =>
      simp [Node.isAggregate, Operator.role] at aggregate
  · rintro ⟨name, named⟩
    obtain ⟨added, read, -⟩ := Option.map_eq_some_iff.1 named
    obtain ⟨op, args⟩ | _ | _ | _ | _ := part
    · by_contra role
      rw [accumulator?_of_role_ne (by simpa [Node.isAggregate] using role)] at read
      simp at read
    all_goals simp [accumulator?] at read

/-- A part that shapes the result adds no filter. -/
theorem filter_contribution_of_shapesResult (shapes : part.shapesResult = true) :
    (contribution part).filter = none :=
  Option.eq_none_iff_forall_ne_some.2 fun filter found => by
    simp [condition_of_predicate (predicate_of_contribution found)] at shapes

/-- Where an `aggregate` stands, it is the only part of the aggregation. -/
theorem filter_groups_of_grouping (apart : parts.Pairwise Apart)
    (grouping : some Slot.grouping ∈ parts.map slot?) :
    parts.filter groups = parts.filter (slot? · == some .grouping) := by
  have bars := (pairwise_apart_iff_slots.1 apart).2
  obtain ⟨aggregate, mem, isGrouping⟩ := List.mem_map.1 grouping
  refine List.filter_congr fun part partMem => ?_
  cases filled : slot? part with
  | none => simp [groups, filled]
  | some slot =>
    have free := bars .grouping (List.mem_filterMap.2 ⟨aggregate, mem, isGrouping⟩) slot
      (List.mem_filterMap.2 ⟨part, partMem, filled⟩)
    cases slot <;> simp_all [groups, Slot.groups, Slot.bars]

/-- Where no `aggregate` stands, the parts of an aggregation are the bare aggregate functions. -/
theorem filter_groups_of_not_grouping (sound : ∀ part ∈ parts, IsSound part)
    (ungrouped : some Slot.grouping ∉ parts.map slot?) :
    parts.filter groups = parts.filter Node.isAggregate := by
  refine List.filter_congr fun part mem => ?_
  rw [Bool.eq_iff_iff, isAggregate_iff_result (sound part mem)]
  cases filled : slot? part with
  | none => simp [groups, filled]
  | some slot =>
    have other : slot ≠ .grouping := by
      rintro rfl
      exact ungrouped (List.mem_map.2 ⟨part, mem, filled⟩)
    cases slot <;> simp_all [groups, Slot.groups]

/-- The parts of an aggregation keep their order if bare aggregate functions do. -/
theorem filter_groups_of_perm (perm : parts.Perm parts') (apart : parts.Pairwise Apart)
    (sound : ∀ part ∈ parts, IsSound part)
    (functions : parts.filter Node.isAggregate = parts'.filter Node.isAggregate) :
    parts.filter groups = parts'.filter groups := by
  have sound' : ∀ part ∈ parts', IsSound part := fun part mem => sound part (perm.mem_iff.2 mem)
  have apart' : parts'.Pairwise Apart := (perm.pairwise_iff Apart.symm).1 apart
  by_cases grouping : some Slot.grouping ∈ parts.map slot?
  · have grouping' : some Slot.grouping ∈ parts'.map slot? := (perm.map slot?).mem_iff.1 grouping
    rw [filter_groups_of_grouping apart grouping, filter_groups_of_grouping apart' grouping',
      filter_slot_of_perm perm apart]
  · have grouping' : some Slot.grouping ∉ parts'.map slot? :=
      fun mem => grouping ((perm.map slot?).mem_iff.2 mem)
    rw [filter_groups_of_not_grouping sound grouping, functions,
      filter_groups_of_not_grouping sound' grouping']

/-! ## What fills a slot -/

section Filled

variable {α : Type} (sound : ∀ part ∈ parts, IsSound part) (slot : Slot)
include sound

/-- What only the parts of one slot hold comes from these alone. -/
theorem flatMap_slot {f : Contribution → List α}
    (empty : ∀ c : Contribution, c.IsFilled → c.slot ≠ some slot → f c = []) :
    (parts.map contribution).flatMap f =
      (parts.filter (slot? · == some slot)).flatMap fun part => f (contribution part) := by
  rw [List.flatMap_map, flatMap_filter]
  exact fun part mem other => empty _ (sound part mem).isFilled (beq_eq_false_iff_ne.1 other)

theorem findSome?_slot {f : Contribution → Option α}
    (empty : ∀ c : Contribution, c.IsFilled → c.slot ≠ some slot → f c = none) :
    (parts.map contribution).findSome? f =
      (parts.filter (slot? · == some slot)).findSome? fun part => f (contribution part) := by
  rw [← List.head?_filterMap, ← List.head?_filterMap, List.filterMap_eq_flatMap_toList,
    List.filterMap_eq_flatMap_toList, flatMap_slot sound slot]
  exact fun c filled other => by rw [empty c filled other, Option.toList_none]

omit slot in
/-- Group keys and accumulators come from the parts of the aggregation alone. -/
theorem filterMap_columns :
    (parts.map contribution).filterMap Contribution.columns =
      (parts.filter groups).filterMap fun part => (contribution part).columns := by
  rw [List.filterMap_map, filterMap_filter fun part mem other => ?_]
  · rfl
  · refine (sound part mem).isFilled.columns.2 fun slot filled => ?_
    simpa [groups, slot?, Option.mem_def.1 filled] using other

end Filled

/-! ## The query of reordered parts -/

section Merged

variable (perm : parts.Perm parts') (apart : parts.Pairwise Apart)
  (sound : ∀ part ∈ parts, IsSound part)
include perm apart sound

/-- A slot that one part fills holds the same in any order. -/
theorem filled_of_perm {α : Type} {f : Contribution → List α} (slot : Slot)
    (empty : ∀ c : Contribution, c.IsFilled → c.slot ≠ some slot → f c = []) :
    (parts.map contribution).flatMap f = (parts'.map contribution).flatMap f := by
  have sound' : ∀ part ∈ parts', IsSound part := fun part mem => sound part (perm.mem_iff.2 mem)
  rw [flatMap_slot sound slot empty, flatMap_slot sound' slot empty, filter_slot_of_perm perm apart]

theorem found_of_perm {α : Type} {f : Contribution → Option α} (slot : Slot)
    (empty : ∀ c : Contribution, c.IsFilled → c.slot ≠ some slot → f c = none) :
    (parts.map contribution).findSome? f = (parts'.map contribution).findSome? f := by
  have sound' : ∀ part ∈ parts', IsSound part := fun part mem => sound part (perm.mem_iff.2 mem)
  rw [findSome?_slot sound slot empty, findSome?_slot sound' slot empty,
    filter_slot_of_perm perm apart]

/-- Whatever the order of the parts, they shape the result in the same way but for its
aggregation. -/
theorem query_merged_of_perm :
    (merged parts').query =
      { (merged parts).query with aggregation := (merged parts').query.aggregation } := by
  have sort := filled_of_perm perm apart sound (f := Contribution.sort) .sort
    fun c filled other => filled.sort.2 other
  have projection := found_of_perm perm apart sound (f := Contribution.projection) .projection
    fun c filled other => filled.projection.2 other
  have limit := found_of_perm perm apart sound (f := Contribution.limit) .limit
    fun c filled other => filled.limit.2 other
  have skip := found_of_perm perm apart sound (f := Contribution.skip) .limit
    fun c filled other => filled.skip (filled.limit.2 other)
  have distinct := (perm.map contribution).any_eq (f := fun c => c.slot == some .distinct)
  simp only [merged, merge, sort, projection, limit, skip, distinct]

/-- Parts that keep the order of predicates and of bare aggregate functions make up the same
query. -/
theorem finish_merged_of_perm
    (predicates : parts.filter (!·.shapesResult) = parts'.filter (!·.shapesResult))
    (functions : parts.filter Node.isAggregate = parts'.filter Node.isAggregate) :
    (merged parts).finish = (merged parts').finish := by
  have filters {several : List Node} :
      (merged several).predicates =
        (several.filter (!·.shapesResult)).filterMap fun part => (contribution part).filter := by
    rw [filterMap_filter fun part mem condition =>
      filter_contribution_of_shapesResult (by simpa using condition)]
    exact List.filterMap_map
  have aggregation : (merged parts').query.aggregation = (merged parts).query.aggregation := by
    simp only [merged, merge, filterMap_columns sound,
      filterMap_columns fun part mem => sound part (perm.mem_iff.2 mem),
      filter_groups_of_perm perm apart sound functions]
  have query : (merged parts').query = (merged parts).query := by
    rw [query_merged_of_perm perm apart sound, aggregation]
  rw [Draft.finish, Draft.finish, Draft.filter, Draft.filter, filters, filters, predicates, query]

end Merged

/-- **The order of parts decides nothing.** Reordered parts of a conjunction compile exactly when the
parts do. If predicates are in the same order among themselves, and bare aggregate functions are, too,
then both compile to the same query, with the same order of whatever is ordered in it. -/
theorem compile_of_perm (perm : parts.Perm parts') :
    ((∃ query, compile (.apply .and parts) = .ok query) ↔
      ∃ query, compile (.apply .and parts') = .ok query) ∧
    (parts.filter (!·.shapesResult) = parts'.filter (!·.shapesResult) →
      parts.filter Node.isAggregate = parts'.filter Node.isAggregate →
      ∀ query, compile (.apply .and parts) = .ok query ↔
        compile (.apply .and parts') = .ok query) := by
  have sound : (∀ part ∈ parts, IsSound part) ↔ ∀ part ∈ parts', IsSound part :=
    forall_congr' fun part => imp_congr_left perm.mem_iff
  have apart : parts.Pairwise Apart ↔ parts'.Pairwise Apart := perm.pairwise_iff Apart.symm
  have rooted : partsOf (.apply .and parts) ≠ [] ↔ partsOf (.apply .and parts') ≠ [] := by
    change parts ≠ [] ↔ parts' ≠ []
    rw [← List.length_pos_iff, ← List.length_pos_iff, perm.length_eq]
  simp only [compile_eq_ok_iff]
  constructor
  · constructor
    · rintro ⟨_, ⟨nonempty, -⟩, isSound, isApart, -⟩
      exact ⟨_, ⟨rooted.1 nonempty, _, _, rfl⟩, sound.1 isSound, apart.1 isApart, rfl⟩
    · rintro ⟨_, ⟨nonempty, -⟩, isSound, isApart, -⟩
      exact ⟨_, ⟨rooted.2 nonempty, _, _, rfl⟩, sound.2 isSound, apart.2 isApart, rfl⟩
  · intro predicates functions query
    constructor
    · rintro ⟨⟨nonempty, -⟩, isSound, isApart, rfl⟩
      exact ⟨⟨rooted.1 nonempty, _, _, rfl⟩, sound.1 isSound, apart.1 isApart,
        finish_merged_of_perm perm isApart isSound predicates functions⟩
    · rintro ⟨⟨nonempty, -⟩, isSound, isApart, rfl⟩
      exact ⟨⟨rooted.2 nonempty, _, _, rfl⟩, sound.2 isSound, apart.2 isApart,
        (finish_merged_of_perm perm (apart.2 isApart) (sound.2 isSound) predicates functions).symm⟩

/-- Directives between conditions and aggregate functions. -/
def scatteredParts : List Node :=
  [.apply .limit [.literal (.integer 10), .literal (.integer 5)],
   .apply .sum [.field "b.c"],
   .apply .eq [.field "x", .literal (.integer 1)],
   .apply .sort [.sortKey "b.c" .descending, .sortKey "a" .ascending],
   .apply .count [],
   .apply .not [.apply .contains [.field "y", .array [.null]]]]

/-- The same parts with the directives behind all others. -/
def gatheredParts : List Node :=
  [.apply .eq [.field "x", .literal (.integer 1)],
   .apply .sum [.field "b.c"],
   .apply .not [.apply .contains [.field "y", .array [.null]]],
   .apply .count [],
   .apply .sort [.sortKey "b.c" .descending, .sortKey "a" .ascending],
   .apply .limit [.literal (.integer 10), .literal (.integer 5)]]

/-- Both compile to the same query: conditions keep their order, and so do aggregate functions. -/
theorem compile_gatheredParts :
    scatteredParts.Perm gatheredParts ∧
      ∃ query, compile (.apply .and scatteredParts) = .ok query ∧
        compile (.apply .and gatheredParts) = .ok query := by
  have perm : scatteredParts.Perm gatheredParts := by decide
  have same := (compile_of_perm perm).2 (by decide) (by decide)
  obtain ⟨query, compiled⟩ : ∃ query, compile (.apply .and scatteredParts) = .ok query := ⟨_, rfl⟩
  exact ⟨perm, query, compiled, (same query).1 compiled⟩

end ResourceQuery.Compilation
