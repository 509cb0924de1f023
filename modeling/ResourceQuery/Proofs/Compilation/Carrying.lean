import ResourceQuery.Proofs.Compilation.Reordering

/-!
# What directives come to

The compiler fills in a query part by part, and more than one kind of part leads to the same option of
it. `Carries parts query` reads every option off the parts as they stand in the tree: the one directive
that fills it, with its arguments in their order, or nothing if no part fills it.

Main statement: whatever compiles carries over its directives exactly.
-/

namespace ResourceQuery
set_option autoImplicit false

/-- The operator of an aggregate function of a field. -/
def Fold.operator : Fold → Operator
  | .sum => .sum
  | .mean => .mean
  | .max => .max
  | .min => .min

/-- The aggregate function that an accumulator stands for. -/
def Accumulator.node : Accumulator → Node
  | .fold function field => .apply function.operator [.field field]
  | .count => .apply .count []

/-- The aggregation computes these aggregate functions in their order, each under an output name of
its own. -/
structure Aggregation.Computes (aggregation : Aggregation) (functions : List Node) : Prop where
  functions : functions = aggregation.accumulators.map fun entry => entry.2.node
  named : ∀ entry ∈ aggregation.accumulators, entry.1 = entry.2.resultName
  distinct : aggregation.accumulators.names.Nodup

namespace Compilation

variable {parts nodes : List Node} {part node : Node}

/-- The options of a query are those that its parts ask for. -/
structure Carries (parts : List Node) (query : DocumentQuery) : Prop where
  /-- The keys of the one `sort`, in their order. -/
  sort : parts.filter (Node.applies [.sort]) = [] ∧ query.sort = [] ∨
    ∃ sort keys, parts.filter (Node.applies [.sort]) = [sort] ∧ sort.sortKeys? = some keys ∧
      query.sort = keys.map fun key => (key.1, sortOrder key.2)
  /-- The fields of the one `select` or `values`, in their order. -/
  projection : parts.filter (Node.applies [.select, .values]) = [] ∧ query.projection = none ∨
    ∃ op fields, parts.filter (Node.applies [.select, .values]) =
        [.apply op (fields.map .field)] ∧
      query.projection = some ⟨fields, op == .values⟩
  /-- One or two numbers of the one `limit`. -/
  limit : parts.filter (Node.applies [.limit]) = [] ∧ query.limit = none ∧ query.skip = none ∨
    (∃ limit : Int64, 0 ≤ limit ∧
      parts.filter (Node.applies [.limit]) = [.apply .limit [.literal (.integer limit)]] ∧
      query.limit = some limit.toInt.toNat ∧ query.skip = none) ∨
    ∃ limit skip : Int64, 0 ≤ limit ∧ 0 ≤ skip ∧
      parts.filter (Node.applies [.limit]) =
        [.apply .limit [.literal (.integer limit), .literal (.integer skip)]] ∧
      query.limit = some limit.toInt.toNat ∧ query.skip = some skip.toInt.toNat
  distinct : query.distinct = true ↔ .apply .distinct [] ∈ parts
  /-- The fields and functions of the one `aggregate`, or the functions that stand by themselves. -/
  aggregation :
    parts.filter (Node.applies [.aggregate]) = [] ∧ parts.filter Node.isAggregate = [] ∧
      query.aggregation = none ∨
    (∃ args aggregation, parts.filter (Node.applies [.aggregate]) = [.apply .aggregate args] ∧
      parts.filter Node.isAggregate = [] ∧ query.aggregation = some aggregation ∧
      (∀ arg ∈ args, arg.isField = true ∨ arg.isAggregate = true) ∧
      args.filter Node.isField = aggregation.groupBy.map .field ∧
      aggregation.Computes (args.filter Node.isAggregate)) ∨
    ∃ aggregation, parts.filter (Node.applies [.aggregate]) = [] ∧
      parts.filter Node.isAggregate ≠ [] ∧ query.aggregation = some aggregation ∧
      aggregation.groupBy = [] ∧ aggregation.Computes (parts.filter Node.isAggregate)
  paged : query.limit = none → query.skip = none
  apart : query.projection = none ∨ query.aggregation = none

/-! ## Aggregate functions -/

theorem foldOf?_eq_some_iff {op : Operator} {function : Fold} :
    foldOf? op = some function ↔ op = function.operator := by
  cases op <;> cases function <;> decide

/-- An accumulator is that of the aggregate function it stands for. -/
theorem accumulator?_eq_some_iff {added : Accumulator} :
    accumulator? node = some added ↔ node = added.node := by
  unfold accumulator?
  split
  · cases added <;> simp [Accumulator.node]
  · cases added <;> simp [Accumulator.node, foldOf?_eq_some_iff]
  · cases added <;> simp_all [Accumulator.node]

/-- An aggregate function is that of an accumulator, which it adds under the output name of this. -/
theorem IsFunction.exists_accumulator (function : IsFunction node) :
    ∃ added, node = added.node ∧ output? node = some (added.resultName, added) ∧
      (contribution node).columns = some ⟨[], [(added.resultName, added)]⟩ := by
  obtain ⟨added, read, -⟩ := function
  exact ⟨added, accumulator?_eq_some_iff.1 read, by rw [output?, read, Option.map_some],
    by rw [contribution_of_function read]⟩

/-- What is no aggregate function puts out nothing. -/
theorem output?_of_not_isAggregate (other : node.isAggregate = false) : output? node = none := by
  obtain ⟨op, args⟩ | _ | _ | _ | _ := node
  · rw [output?, accumulator?_of_role_ne (by simpa [Node.isAggregate] using other), Option.map_none]
  all_goals rfl

/-- Aggregate functions with different output names are computed as they stand. -/
theorem computes_outputs (keys : List String)
    (functions : ∀ node ∈ nodes, node.isAggregate = true → IsFunction node)
    (distinct : (nodes.filterMap resultName?).Nodup) :
    Aggregation.Computes ⟨keys, nodes.filterMap output?⟩ (nodes.filter Node.isAggregate) where
  functions := by
    clear distinct
    induction nodes with
    | nil => rfl
    | cons node nodes ih =>
      obtain ⟨here, later⟩ := List.forall_mem_cons.1 functions
      cases isFunction : node.isAggregate with
      | true =>
        obtain ⟨added, same, output, -⟩ := (here isFunction).exists_accumulator
        rw [List.filter_cons_of_pos isFunction, List.filterMap_cons_some output, List.map_cons, ih later,
          ← same]
      | false =>
        rw [List.filter_cons_of_neg (by simp [isFunction]),
          List.filterMap_cons_none (output?_of_not_isAggregate isFunction), ih later]
  named entry mem := by
    obtain ⟨node, -, output⟩ := List.mem_filterMap.1 mem
    obtain ⟨added, -, rfl⟩ := Option.map_eq_some_iff.1 output
    rfl
  distinct := by rwa [names_outputs]

/-! ## One part for each slot -/

/-- No two parts fill the same slot. -/
theorem filter_slot_cases (apart : parts.Pairwise Apart) (slot : Slot) :
    parts.filter (slot? · == some slot) = [] ∨
      ∃ part ∈ parts, slot? part = some slot ∧ parts.filter (slot? · == some slot) = [part] := by
  have alone : (parts.filter (slot? · == some slot)).Pairwise fun _ _ => False :=
    List.pairwise_filter.2 <| apart.imp fun {a b} apart first second => by
      have free := apart slot (beq_iff_eq.1 first) slot (beq_iff_eq.1 second)
      rw [slot.excludes_self] at free
      exact Bool.noConfusion free
  match same : parts.filter (slot? · == some slot) with
  | [] => exact .inl rfl
  | [part] =>
    have mem : part ∈ parts.filter (slot? · == some slot) := by rw [same]; exact List.mem_cons_self
    obtain ⟨partMem, filled⟩ := List.mem_filter.1 mem
    exact .inr ⟨part, partMem, beq_iff_eq.1 filled, rfl⟩
  | first :: second :: others =>
    rw [same] at alone
    exact ((List.pairwise_cons.1 alone).1 second List.mem_cons_self).elim

/-- The part that fills a slot is the one with its operators. -/
theorem filter_slot_eq {slot : Slot} (named : slot.operators ≠ []) :
    parts.filter (slot? · == some slot) = parts.filter (Node.applies slot.operators) :=
  List.filter_congr fun part _ => by
    rw [Bool.eq_iff_iff, beq_iff_eq, slot?_eq_some_iff named]

/-! ## What each directive holds -/

theorem eq_apply_of_slot {slot : Slot} (named : slot.operators ≠ []) (filled : slot? part = some slot) :
    ∃ op args, part = .apply op args ∧ op ∈ slot.operators := by
  have applies := (slot?_eq_some_iff named).1 filled
  obtain ⟨op, args⟩ | _ | _ | _ | _ := part <;>
    simp only [Node.applies, Node.operator?, Option.any_some, Option.any_none, List.contains_eq_mem,
      decide_eq_true_eq, Bool.false_eq_true] at applies
  exact ⟨op, args, rfl, applies⟩

/-- A `sort` of nothing but sort keys gives them in their order. -/
theorem sortKeys?_eq_some {args : List Node} (keys : ∀ arg ∈ args, IsSortKey arg) :
    (Node.apply .sort args).sortKeys? = some (args.filterMap Node.sortKey?) := by
  rw [Node.sortKeys?]
  induction args with
  | nil => rfl
  | cons arg args ih =>
    obtain ⟨⟨path, direction, rfl, -⟩, later⟩ := List.forall_mem_cons.1 keys
    rw [List.mapM_cons, ih later]
    rfl

theorem exists_sortKeys (sound : IsSound part) (filled : slot? part = some .sort) :
    ∃ keys, part.sortKeys? = some keys ∧
      (contribution part).sort = keys.map fun key => (key.1, sortOrder key.2) := by
  obtain ⟨op, args, rfl, named⟩ := eq_apply_of_slot (by decide) filled
  obtain rfl := List.mem_singleton.1 named
  obtain ⟨-, keys, -⟩ := isSound_apply_iff.1 sound
  refine ⟨_, sortKeys?_eq_some keys, ?_⟩
  rw [List.map_filterMap]
  rfl

/-- Fields are their paths. -/
theorem eq_map_field {args : List Node} (fields : ∀ arg ∈ args, IsField arg) :
    args = (args.filterMap Node.path?).map .field := by
  induction args with
  | nil => rfl
  | cons arg args ih =>
    obtain ⟨⟨path, rfl, -⟩, later⟩ := List.forall_mem_cons.1 fields
    exact congrArg (.field path :: ·) (ih later)

theorem exists_projected (sound : IsSound part) (filled : slot? part = some .projection) :
    ∃ op fields, part = .apply op (fields.map .field) ∧
      (contribution part).projection = some ⟨fields, op == .values⟩ := by
  obtain ⟨op, args, rfl, named⟩ := eq_apply_of_slot (by decide) filled
  have named : op = .select ∨ op = .values := List.mem_pair.1 named
  have fields : ∀ arg ∈ args, IsField arg := by
    rcases named with rfl | rfl <;> exact (isSound_apply_iff.1 sound).2
  refine ⟨op, args.filterMap Node.path?, by rw [← eq_map_field fields], ?_⟩
  rcases named with rfl | rfl <;> rfl

/-- A count of documents is an integer that is not negative. -/
theorem count?_eq_some_iff {n : Nat} :
    count? node = some n ↔
      ∃ value : Int64, 0 ≤ value ∧ node = .literal (.integer value) ∧ n = value.toInt.toNat := by
  unfold count?
  split
  · next value =>
    constructor
    · intro read
      obtain ⟨positive, same⟩ := Option.ite_none_right_eq_some.1 read
      exact ⟨value, positive, rfl, (Option.some.inj same).symm⟩
    · rintro ⟨_, positive, ⟨⟩, rfl⟩
      exact if_pos positive
  · next other =>
    simp only [reduceCtorEq, false_iff]
    rintro ⟨value, -, rfl, -⟩
    exact other value rfl

theorem exists_limited (sound : IsSound part) (filled : slot? part = some .limit) :
    (∃ limit : Int64, 0 ≤ limit ∧ part = .apply .limit [.literal (.integer limit)] ∧
      (contribution part).limit = some limit.toInt.toNat ∧ (contribution part).skip = none) ∨
    ∃ limit skip : Int64, 0 ≤ limit ∧ 0 ≤ skip ∧
      part = .apply .limit [.literal (.integer limit), .literal (.integer skip)] ∧
      (contribution part).limit = some limit.toInt.toNat ∧
      (contribution part).skip = some skip.toInt.toNat := by
  obtain ⟨op, args, rfl, named⟩ := eq_apply_of_slot (by decide) filled
  obtain rfl := List.mem_singleton.1 named
  rcases isSound_apply_iff.1 sound with ⟨_, _, rfl, read⟩ | ⟨_, _, _, _, rfl, read, readStart⟩
  · obtain ⟨limit, positive, rfl, -⟩ := count?_eq_some_iff.1 read
    exact .inl ⟨limit, positive, rfl, by simp [contribution, count?, positive], rfl⟩
  · obtain ⟨limit, positive, rfl, -⟩ := count?_eq_some_iff.1 read
    obtain ⟨skip, positive', rfl, -⟩ := count?_eq_some_iff.1 readStart
    exact .inr ⟨limit, skip, positive, positive', rfl, by simp [contribution, count?, positive],
      by simp [contribution, count?, positive']⟩

/-- Only a `distinct` without arguments would compile by itself. -/
theorem slot?_eq_distinct_iff (sound : IsSound part) :
    slot? part = some .distinct ↔ part = .apply .distinct [] := by
  constructor
  · intro filled
    obtain ⟨op, args, rfl, named⟩ := eq_apply_of_slot (by decide) filled
    obtain rfl := List.mem_singleton.1 named
    obtain rfl : args = [] := isSound_apply_iff.1 sound
    rfl
  · rintro rfl
    rfl

/-- The fields among the arguments of an `aggregate` are its group keys. -/
theorem filter_isField {args : List Node} (each : ∀ arg ∈ args, IsColumn arg) :
    args.filter Node.isField = (args.filterMap Node.path?).map .field := by
  induction args with
  | nil => rfl
  | cons arg args ih =>
    obtain ⟨here, later⟩ := List.forall_mem_cons.1 each
    obtain ⟨path, rfl, -⟩ | function := here
    · exact congrArg (.field path :: ·) (ih later)
    · obtain ⟨op, inner, rfl, -⟩ := function.exists_apply
      exact ih later

theorem exists_grouped (sound : IsSound part) (filled : slot? part = some .grouping) :
    ∃ args aggregation, part = .apply .aggregate args ∧
      (contribution part).columns = some aggregation ∧
      (∀ arg ∈ args, arg.isField = true ∨ arg.isAggregate = true) ∧
      args.filter Node.isField = aggregation.groupBy.map .field ∧
      aggregation.Computes (args.filter Node.isAggregate) := by
  obtain ⟨op, args, rfl, named⟩ := eq_apply_of_slot (by decide) filled
  obtain rfl := List.mem_singleton.1 named
  obtain ⟨-, each, -, results⟩ := isSound_apply_iff.1 sound
  refine ⟨args, columns args, rfl, rfl, fun arg mem => ?_, ?_, computes_outputs _ ?_ results⟩
  · obtain ⟨path, rfl, -⟩ | function := each arg mem
    · exact .inl rfl
    · obtain ⟨op, inner, rfl, role⟩ := function.exists_apply
      exact .inr (by simp [Node.isAggregate, role])
  · exact filter_isField each
  · intro arg mem isFunction
    obtain ⟨path, rfl, -⟩ | function := each arg mem
    · simp [Node.isAggregate] at isFunction
    · exact function

/-- A sound part with the operator of an aggregate function is one. -/
theorem IsSound.isFunction (sound : IsSound part) (aggregates : part.isAggregate = true) :
    IsFunction part := by
  obtain ⟨op, args⟩ | _ | _ | _ | _ := part
  · cases op <;> simp [Node.isAggregate, Operator.role] at aggregates <;>
      exact isSound_apply_iff.1 sound
  all_goals exact Bool.noConfusion aggregates

/-- Bare aggregate functions make up an aggregation without group keys. -/
theorem besides_of_functions (functions : ∀ node ∈ nodes, IsFunction node) :
    besides (nodes.filterMap fun part => (contribution part).columns) =
      ⟨[], nodes.filterMap output?⟩ := by
  induction nodes with
  | nil => rfl
  | cons node nodes ih =>
    obtain ⟨here, later⟩ := List.forall_mem_cons.1 functions
    obtain ⟨added, -, output, columns⟩ := here.exists_accumulator
    have rest := ih later
    simp only [besides, Aggregation.mk.injEq] at rest ⊢
    simp only [List.filterMap_cons, columns, output, List.flatMap_cons, rest, List.nil_append,
      List.singleton_append, and_self]

/-! ## Whole queries -/

section Merged

variable (sound : ∀ part ∈ parts, IsSound part) (apart : parts.Pairwise Apart)
include sound apart

/-- The sort keys are those of the one `sort`. -/
theorem sort_cases :
    parts.filter (Node.applies [.sort]) = [] ∧ (merged parts).query.sort = [] ∨
    ∃ sort keys, parts.filter (Node.applies [.sort]) = [sort] ∧ sort.sortKeys? = some keys ∧
      (merged parts).query.sort = keys.map fun key => (key.1, sortOrder key.2) := by
  have same : (merged parts).query.sort =
      (parts.filter (slot? · == some .sort)).flatMap fun part => (contribution part).sort :=
    flatMap_slot sound .sort fun c filled => filled.sort.2
  have sorts : parts.filter (slot? · == some .sort) = parts.filter (Node.applies [.sort]) :=
    filter_slot_eq (by decide)
  rcases filter_slot_cases apart .sort with none | ⟨part, mem, filled, only⟩
  · exact .inl ⟨sorts.symm.trans none, by rw [same, none, List.flatMap_nil]⟩
  · obtain ⟨keys, read, sort⟩ := exists_sortKeys (sound part mem) filled
    exact .inr ⟨part, keys, sorts.symm.trans only, read,
      by rw [same, only, List.flatMap_singleton, sort]⟩

/-- Options that one slot fills are absent, or what the part of this slot holds. -/
theorem found_cases (α : Type) (slot : Slot) (named : slot.operators ≠ []) :
    parts.filter (Node.applies slot.operators) = [] ∧
      (∀ f : Contribution → Option α, (∀ c, c.IsFilled → c.slot ≠ some slot → f c = none) →
        (parts.map contribution).findSome? f = none) ∨
    ∃ part, IsSound part ∧ slot? part = some slot ∧
      parts.filter (Node.applies slot.operators) = [part] ∧
      ∀ f : Contribution → Option α, (∀ c, c.IsFilled → c.slot ≠ some slot → f c = none) →
        (parts.map contribution).findSome? f = f (contribution part) := by
  rw [← filter_slot_eq named]
  rcases filter_slot_cases apart slot with none | ⟨part, mem, filled, only⟩
  · exact .inl ⟨none, fun f empty => by rw [findSome?_slot sound slot empty, none, List.findSome?_nil]⟩
  · refine .inr ⟨part, sound part mem, filled, only, fun f empty => ?_⟩
    rw [findSome?_slot sound slot empty, only, List.findSome?_cons, List.findSome?_nil]
    cases f (contribution part) <;> rfl

/-- The fields are those of the one projection. -/
theorem projection_cases :
    parts.filter (Node.applies [.select, .values]) = [] ∧ (merged parts).query.projection = none ∨
    ∃ op fields, parts.filter (Node.applies [.select, .values]) = [.apply op (fields.map .field)] ∧
      (merged parts).query.projection = some ⟨fields, op == .values⟩ := by
  have empty (c : Contribution) (filled : c.IsFilled) : c.slot ≠ some .projection → c.projection = none :=
    filled.projection.2
  rcases found_cases sound apart Projection .projection (by decide) with
    ⟨none, absent⟩ | ⟨part, soundPart, filled, only, same⟩
  · exact .inl ⟨none, absent _ empty⟩
  · obtain ⟨op, fields, rfl, projection⟩ := exists_projected soundPart filled
    exact .inr ⟨op, fields, only, (same _ empty).trans projection⟩

/-- The numbers are those of the one `limit`. -/
theorem limit_cases :
    parts.filter (Node.applies [.limit]) = [] ∧ (merged parts).query.limit = none ∧
      (merged parts).query.skip = none ∨
    (∃ limit : Int64, 0 ≤ limit ∧
      parts.filter (Node.applies [.limit]) = [.apply .limit [.literal (.integer limit)]] ∧
      (merged parts).query.limit = some limit.toInt.toNat ∧ (merged parts).query.skip = none) ∨
    ∃ limit skip : Int64, 0 ≤ limit ∧ 0 ≤ skip ∧
      parts.filter (Node.applies [.limit]) =
        [.apply .limit [.literal (.integer limit), .literal (.integer skip)]] ∧
      (merged parts).query.limit = some limit.toInt.toNat ∧
      (merged parts).query.skip = some skip.toInt.toNat := by
  have limitEmpty (c : Contribution) (filled : c.IsFilled) : c.slot ≠ some .limit → c.limit = none :=
    filled.limit.2
  have skipEmpty (c : Contribution) (filled : c.IsFilled) (other : c.slot ≠ some .limit) :
      c.skip = none :=
    filled.skip (filled.limit.2 other)
  rcases found_cases sound apart Nat .limit (by decide) with
    ⟨none, absent⟩ | ⟨part, soundPart, filled, only, same⟩
  · exact .inl ⟨none, absent _ limitEmpty, absent _ skipEmpty⟩
  · have limited := same _ limitEmpty
    have skipped := same _ skipEmpty
    rcases exists_limited soundPart filled with
      ⟨limit, positive, rfl, first, second⟩ | ⟨limit, skip, positive, positive', rfl, first, second⟩
    · exact .inr (.inl ⟨limit, positive, only, limited.trans first, skipped.trans second⟩)
    · exact .inr (.inr ⟨limit, skip, positive, positive', only, limited.trans first,
        skipped.trans second⟩)

/-- The aggregation is that of the one `aggregate`, that of the bare aggregate functions, or none. -/
theorem aggregation_cases {aggregation : Option Aggregation}
    (same : aggregation = (merged parts).query.aggregation) :
    parts.filter (Node.applies [.aggregate]) = [] ∧ parts.filter Node.isAggregate = [] ∧
      aggregation = none ∨
    (∃ args grouped, parts.filter (Node.applies [.aggregate]) = [.apply .aggregate args] ∧
      parts.filter Node.isAggregate = [] ∧ aggregation = some grouped ∧
      (∀ arg ∈ args, arg.isField = true ∨ arg.isAggregate = true) ∧
      args.filter Node.isField = grouped.groupBy.map .field ∧
      grouped.Computes (args.filter Node.isAggregate)) ∨
    ∃ computed, parts.filter (Node.applies [.aggregate]) = [] ∧
      parts.filter Node.isAggregate ≠ [] ∧ aggregation = some computed ∧
      computed.groupBy = [] ∧ computed.Computes (parts.filter Node.isAggregate) := by
  have named : Slot.grouping.operators ≠ [] := by decide
  have aggregates : parts.filter (slot? · == some .grouping) =
      parts.filter (Node.applies [.aggregate]) := filter_slot_eq named
  simp only [merged, merge, filterMap_columns sound] at same
  by_cases grouping : some Slot.grouping ∈ parts.map slot?
  · -- Its columns are all there are, since no bare aggregate function stands beside it.
    rw [filter_groups_of_grouping apart grouping] at same
    rcases filter_slot_cases apart .grouping with none | ⟨part, mem, filled, only⟩
    · obtain ⟨part, mem, filled⟩ := List.mem_map.1 grouping
      simpa [filled] using List.filter_eq_nil_iff.1 none part mem
    · obtain ⟨args, grouped, rfl, columns, each, keys, computes⟩ :=
        exists_grouped (sound part mem) filled
      refine .inr (.inl ⟨args, grouped, aggregates.symm.trans only, ?_, ?_, each, keys, computes⟩)
      · refine List.filter_eq_nil_iff.2 fun other otherMem isFunction => ?_
        obtain ⟨name, result⟩ := (isAggregate_iff_result (sound other otherMem)).1 isFunction
        have free := (pairwise_apart_iff_slots.1 apart).2 .grouping
          (List.mem_filterMap.2 ⟨_, mem, filled⟩) (.result name)
          (List.mem_filterMap.2 ⟨other, otherMem, result⟩)
        exact Bool.noConfusion free
      · rw [same, only]
        simp [columns, besides]
  · rw [filter_groups_of_not_grouping sound grouping] at same
    have none : parts.filter (Node.applies [.aggregate]) = [] := by
      refine aggregates ▸ List.filter_eq_nil_iff.2 fun part mem filled => ?_
      exact grouping (List.mem_map.2 ⟨part, mem, beq_iff_eq.1 filled⟩)
    have functions (part : Node) (mem : part ∈ parts) : part.isAggregate = true → IsFunction part :=
      (sound part mem).isFunction
    have results : (parts.filterMap resultName?).Nodup :=
      (nodup_slots_iff.1 (pairwise_apart_iff_slots.1 apart).1).2
    by_cases bare : parts.filter Node.isAggregate = []
    · exact .inl ⟨none, bare, by simpa [bare] using same⟩
    · have computes := computes_outputs [] functions results
      refine .inr (.inr ⟨_, none, bare, ?_, rfl, computes⟩)
      rw [besides_of_functions fun part mem =>
        functions part (List.mem_of_mem_filter mem) (List.mem_filter.1 mem).2,
        filterMap_filter fun part _ => output?_of_not_isAggregate] at same
      refine same.trans (if_neg fun noColumns => ?_)
      obtain ⟨part, mem⟩ := List.exists_mem_of_ne_nil _ bare
      obtain ⟨added, -, -, columns⟩ :=
        (functions part (List.mem_of_mem_filter mem) (List.mem_filter.1 mem).2).exists_accumulator
      simpa [columns] using List.filterMap_eq_nil_iff.1 noColumns part mem

/-- A projection excludes every aggregation. -/
theorem projection_or_aggregation :
    (merged parts).query.projection = none ∨ (merged parts).query.aggregation = none := by
  rcases found_cases sound apart Projection .projection (by decide) with
    ⟨-, absent⟩ | ⟨part, -, filled, only, -⟩
  · exact .inl (absent _ fun c filled => filled.projection.2)
  · have mem : part ∈ parts := List.mem_of_mem_filter (only ▸ List.mem_cons_self)
    have ungrouped : parts.filter groups = [] := by
      refine List.filter_eq_nil_iff.2 fun other otherMem grouped => ?_
      obtain ⟨slot, otherFilled, isGrouping⟩ := (Option.any_eq_true _ _).1 grouped
      have free := (pairwise_apart_iff_slots.1 apart).2 .projection
        (List.mem_filterMap.2 ⟨part, mem, filled⟩) slot
        (List.mem_filterMap.2 ⟨other, otherMem, otherFilled⟩)
      rw [Slot.bars, isGrouping] at free
      exact Bool.noConfusion free
    exact .inr (by simp [merged, merge, filterMap_columns sound, ungrouped])

end Merged

/-- A query is distinct by its `distinct` alone. -/
theorem distinct_merged (sound : ∀ part ∈ parts, IsSound part) :
    (merged parts).query.distinct = true ↔ .apply .distinct [] ∈ parts := by
  simp only [merged, merge, List.any_map, List.any_eq_true, Function.comp_apply, beq_iff_eq]
  constructor
  · rintro ⟨part, mem, filled⟩
    rwa [← (slot?_eq_distinct_iff (sound part mem)).1 filled]
  · exact fun mem => ⟨_, mem, rfl⟩

/-- What parts make together carries what each of them asks for. -/
theorem carries_merged (sound : ∀ part ∈ parts, IsSound part) (apart : parts.Pairwise Apart) :
    Carries parts (merged parts).finish := by
  have limit := limit_cases sound apart
  exact {
    sort := sort_cases sound apart
    projection := projection_cases sound apart
    limit
    distinct := distinct_merged sound
    aggregation := aggregation_cases sound apart rfl
    paged := fun unlimited => by
      rcases limit with ⟨-, -, skip⟩ | ⟨_, -, -, limited, -⟩ | ⟨_, _, -, -, -, limited, -⟩
      · exact skip
      all_goals
        rw [Draft.finish, limited] at unlimited
        exact absurd unlimited (Option.some_ne_none _)
    apart := projection_or_aggregation sound apart }

/-- **Directives are carried over exactly.** The options of a compiled query are those that the parts
of its tree ask for: none is lost, and none is there that no part asks for. -/
theorem carries_of_compile {node : Node} {query : DocumentQuery} (compiled : compile node = .ok query) :
    Carries (partsOf node) query := by
  obtain ⟨-, sound, apart, rfl⟩ := compile_eq_ok_iff.1 compiled
  exact carries_merged sound apart

/-- A page of group totals, sorted by two of its columns. -/
def sortedTotals : Node :=
  .apply .and
    [.apply .sort [.sortKey "b.c" .descending, .sortKey "a" .ascending],
     .apply .eq [.field "x", .literal (.integer 1)],
     .apply .aggregate [.apply .sum [.field "b.c"], .field "a", .apply .count []],
     .apply .distinct [],
     .apply .limit [.literal (.integer 10), .literal (.integer 5)]]

theorem carries_sortedTotals :
    ∃ query, compile sortedTotals = .ok query ∧ query.skip = some 5 ∧
      Carries (partsOf sortedTotals) query :=
  ⟨_, rfl, rfl, carries_of_compile rfl⟩

end Compilation
end ResourceQuery
