import Mathlib.Data.List.Pairwise
import ResourceQuery.Proofs.Compilation.Meaning
import ResourceQuery.Proofs.Compilation.Parts

/-!
# Compiling normal forms

Normalization takes single arguments out of conjunctions and disjunctions, and where it does so at
the root, other nodes become the parts of the query. Main statement: the normal form of a tree that
compiles does so too, to a query that shapes its result in the same way and whose filter has the
same truth value.
-/

namespace ResourceQuery.Compilation
set_option autoImplicit false
open Fallible

variable {op : Operator} {args : List Node} {node part : Node} {v : Assignment}

/-! ## Conditions -/

/-- A node that compiles as a condition shapes no result. -/
theorem condition_of_predicate {filter : Document} (compiled : predicate node = .ok filter) :
    node.shapesResult = false := by
  obtain ⟨op, args⟩ | _ | _ | _ | _ := node
  · rcases predicate_apply_eq_ok.1 compiled with ⟨_, rfl, _⟩ | ⟨_, rfl, _⟩ | ⟨_, _, rfl, _⟩ |
      ⟨role, _⟩
    · rfl
    · rfl
    · rfl
    · simp [Node.shapesResult, role]
  all_goals rfl

/-- The arguments of a comparison that compiles are their own normal forms. -/
theorem normalize_comparison {filter : Document} (compiled : comparison op args = .ok filter) :
    (Node.apply op args).normalize = .apply op args := by
  obtain ⟨path, operandNode, value, rfl, -, read, -⟩ := comparison_eq_ok.1 compiled
  have leaf : operandNode.normalize = operandNode := by
    rcases leaf_of_operand read with ⟨_, rfl⟩ | ⟨_, rfl⟩ <;> rfl
  rw [Node.normalize_apply, List.map_cons, List.map_cons, List.map_nil, leaf]
  rfl

/-- A collapsed conjunction or disjunction of conditions that compile does so, too. -/
theorem exists_predicate_collapse (transparent : Node.isTransparent op = true) (nonempty : args ≠ [])
    (each : ∀ arg ∈ args, ∃ filter, predicate arg = .ok filter) :
    ∃ filter, predicate (Node.collapse op args) = .ok filter := by
  rcases Node.collapse_cases op args with ⟨-, only⟩ | same
  · generalize Node.collapse op args = child at only ⊢
    exact each child (by simp [only])
  · obtain ⟨filters, compiled⟩ := exists_mapM_eq_ok.2 each
    rw [same]
    cases op <;> simp [Node.isTransparent] at transparent
    · exact ⟨_, predicate_apply_eq_ok.2 (.inl ⟨filters, rfl, nonempty, compiled, rfl⟩)⟩
    · exact ⟨_, predicate_apply_eq_ok.2 (.inr (.inl ⟨filters, rfl, nonempty, compiled, rfl⟩))⟩

theorem holds_collapse_and (args : List Node) :
    (Node.collapse .and args).holds v = args.all (Node.holds v) := by
  rcases Node.collapse_cases .and args with ⟨-, only⟩ | same
  · generalize Node.collapse .and args = child at only ⊢
    simp [only]
  · rw [same, Node.holds, Node.allHold_eq_all]

theorem holds_collapse_or (args : List Node) :
    (Node.collapse .or args).holds v = args.any (Node.holds v) := by
  rcases Node.collapse_cases .or args with ⟨-, only⟩ | same
  · generalize Node.collapse .or args = child at only ⊢
    simp [only]
  · rw [same, Node.holds, Node.someHolds_eq_any]

/-- The normal form of a condition that compiles does so too, and has the same truth value. -/
theorem normalize_predicate (node : Node) : ∀ filter, predicate node = .ok filter →
    (∃ filter, predicate node.normalize = .ok filter) ∧
      ∀ v, node.normalize.holds v = node.holds v := by
  induction node using Node.induct with
  | literal | array | field | sortKey => simp [predicate]
  | apply op args ih =>
    intro filter compiled
    have several {filters : List Document} (run : args.mapM predicate = .ok filters) :
        (∀ arg ∈ args.map Node.normalize, ∃ filter, predicate arg = .ok filter) ∧
          ∀ v, (args.map Node.normalize).map (Node.holds v) = args.map (Node.holds v) := by
      have each := exists_mapM_eq_ok.1 ⟨filters, run⟩
      refine ⟨List.forall_mem_map.2 fun arg mem => ?_, fun v => ?_⟩
      · exact (ih arg mem _ (each arg mem).choose_spec).1
      · rw [List.map_map]
        exact List.map_congr_left fun arg mem => (ih arg mem _ (each arg mem).choose_spec).2 v
    rcases predicate_apply_eq_ok.1 compiled with ⟨filters, rfl, nonempty, run, -⟩ |
      ⟨filters, rfl, nonempty, run, -⟩ | ⟨child, inner, rfl, rfl, run, -⟩ | ⟨role, comparison⟩
    · obtain ⟨each, same⟩ := several run
      rw [Node.normalize_apply]
      refine ⟨exists_predicate_collapse rfl (by simpa using nonempty) each, fun v => ?_⟩
      rw [holds_collapse_and, Node.holds, Node.allHold_eq_all]
      simpa [List.all_map, Function.comp_def] using congrArg (List.all · id) (same v)
    · obtain ⟨each, same⟩ := several run
      rw [Node.normalize_apply]
      refine ⟨exists_predicate_collapse rfl (by simpa using nonempty) each, fun v => ?_⟩
      rw [holds_collapse_or, Node.holds, Node.someHolds_eq_any]
      simpa [List.any_map, Function.comp_def] using congrArg (List.any · id) (same v)
    · obtain ⟨⟨filter, compiled⟩, same⟩ := ih child List.mem_cons_self inner run
      refine ⟨⟨_, predicate_apply_eq_ok.2 (.inr (.inr (.inl ⟨_, filter, rfl, rfl, compiled, rfl⟩)))⟩,
        fun v => ?_⟩
      simp [Node.collapse, Node.isTransparent, Node.holds, Node.allHold, same]
    · rw [normalize_comparison comparison]
      exact ⟨⟨filter, compiled⟩, fun _ => rfl⟩

/-! ## Directives and aggregate functions -/

/-- An aggregate function is its own normal form. -/
theorem IsFunction.normalize (function : IsFunction node) : node.normalize = node := by
  obtain ⟨op, args, rfl, role⟩ := function.exists_apply
  have plain : Node.isTransparent op = false := by
    cases op <;> simp [Operator.role] at role <;> rfl
  obtain ⟨added, read, -⟩ := function
  refine Node.normalize_of_args plain fun arg mem => ?_
  unfold accumulator? at read
  split at read <;> simp_all [Node.normalize]

/-- A condition that would compile by itself compiles as a condition. -/
theorem IsSound.exists_filter (sound : IsSound part) (condition : part.shapesResult = false) :
    ∃ filter, Compilation.predicate part = .ok filter := by
  cases sound with
  | predicate condition compiled => exact ⟨_, compiled⟩
  | projection named =>
    rcases named with rfl | rfl <;> simp [Node.shapesResult, Operator.role] at condition
  | function function =>
    obtain ⟨op, args, rfl, role⟩ := function.exists_apply
    simp [Node.shapesResult, role] at condition
  | sort | limit | limitAndSkip | distinct | aggregate =>
    simp [Node.shapesResult, Operator.role] at condition

/-- A part that shapes the result and would compile by itself is its own normal form. -/
theorem IsSound.normalize (sound : IsSound part) (shapes : part.shapesResult = true) :
    part.normalize = part := by
  have isLeaf {count : Node} {n : Nat} (read : count? count = some n) : count.normalize = count := by
    cases count <;> simp [count?] at read
    rfl
  cases sound with
  | sort nonempty keys =>
    refine Node.normalize_of_args rfl fun arg mem => ?_
    obtain ⟨path, direction, rfl, -⟩ := keys arg mem
    rfl
  | projection named nonempty fields =>
    refine Node.normalize_of_args (by rcases named with rfl | rfl <;> rfl) fun arg mem => ?_
    obtain ⟨path, rfl, -⟩ := fields arg mem
    rfl
  | limit read =>
    refine Node.normalize_of_args rfl fun arg mem => ?_
    rw [List.mem_singleton.1 mem]
    exact isLeaf read
  | limitAndSkip read readStart =>
    refine Node.normalize_of_args rfl fun arg mem => ?_
    rcases List.mem_pair.1 mem with rfl | rfl
    · exact isLeaf read
    · exact isLeaf readStart
  | distinct => rfl
  | aggregate nonempty columns =>
    refine Node.normalize_of_args rfl fun arg mem => ?_
    obtain ⟨path, rfl, -⟩ | function := columns arg mem
    · rfl
    · exact function.normalize
  | function function => exact function.normalize
  | predicate condition => simp [condition] at shapes

/-! ## Parts -/

/-- A part counts for the truth value of a query unless it shapes the result. -/
def weight (v : Assignment) (part : Node) : Bool :=
  part.shapesResult || part.holds v

/-- The parts contribute the same, but for the form of a filter. -/
structure Agree (a b : Node) : Prop where
  shape : (contribution a).shape = (contribution b).shape
  weight : ∀ v, weight v a = weight v b

theorem Agree.slot {a b : Node} (agree : Agree a b) :
    (contribution a).slot = (contribution b).slot := by
  simpa [Contribution.shape] using congrArg Contribution.slot agree.shape

/-- The normal form of a part that would compile by itself would do so, too, and adds the same. -/
theorem IsSound.agree_normalize (sound : IsSound part) :
    IsSound part.normalize ∧ Agree part.normalize part := by
  by_cases shapes : part.shapesResult = true
  · rw [sound.normalize shapes]
    exact ⟨sound, rfl, fun _ => rfl⟩
  · have condition : part.shapesResult = false := by simpa using shapes
    obtain ⟨filter, compiled⟩ := sound.exists_filter condition
    obtain ⟨⟨filter', compiled'⟩, same⟩ := normalize_predicate part filter compiled
    have condition' := condition_of_predicate compiled'
    refine ⟨.predicate condition' compiled', ?_, fun v => ?_⟩
    · rw [contribution_of_condition condition, contribution_of_condition condition']
      rfl
    · rw [weight, weight, condition, condition', same]

/-- Parts that agree shape the result in the same way. -/
theorem query_merged_map {change : Node → Node} {parts : List Node}
    (agree : ∀ part ∈ parts, Agree (change part) part) :
    (merged (parts.map change)).query = (merged parts).query := by
  have shapes : ((parts.map change).map contribution).map Contribution.shape =
      (parts.map contribution).map Contribution.shape := by
    simp only [List.map_map]
    exact List.map_congr_left fun part mem => (agree part mem).shape
  rw [merged, ← query_merge_map_shape, shapes, query_merge_map_shape, merged]

/-- The filter of parts that would compile holds when all of them that count hold. -/
theorem holds_filter_merged {parts : List Node} (sound : ∀ part ∈ parts, IsSound part) :
    (merged parts).filter.holds v = parts.all (weight v) := by
  have predicates : (merged parts).predicates =
      parts.filterMap fun part => (contribution part).filter := List.filterMap_map
  rw [holds_filter, predicates, List.all_filterMap]
  rw [Bool.eq_iff_iff, List.all_eq_true, List.all_eq_true]
  refine forall₂_congr fun part mem => ?_
  by_cases shapes : part.shapesResult = true
  · have unfiltered : (contribution part).filter = none :=
      Option.eq_none_iff_forall_ne_some.2 fun filter found => by
        simp [condition_of_predicate (predicate_of_contribution found)] at shapes
    simp [unfiltered, weight, shapes]
  · have condition : part.shapesResult = false := by simpa using shapes
    obtain ⟨filter, compiled⟩ := (sound part mem).exists_filter condition
    simp [contribution_of_condition condition, weight, condition, compiled, Except.toOption,
      holds_predicate part _ compiled]

/-! ## Whole queries -/

/-- Parts that agree make up the same query, but for the form of the filter. -/
theorem exists_finish_merged_map {change : Node → Node} {parts : List Node}
    (sound : ∀ part ∈ parts, IsSound part)
    (agree : ∀ part ∈ parts, IsSound (change part) ∧ Agree (change part) part) :
    ∃ filter, (merged (parts.map change)).finish = { (merged parts).finish with filter } ∧
      ∀ v, filter.holds v = (merged parts).finish.filter.holds v := by
  refine ⟨(merged (parts.map change)).filter, ?_, fun v => ?_⟩
  · rw [Draft.finish, query_merged_map fun part mem => (agree part mem).2]
    rfl
  · rw [holds_filter_merged (List.forall_mem_map.2 fun part mem => (agree part mem).1)]
    refine Eq.trans ?_ (holds_filter_merged sound).symm
    rw [Bool.eq_iff_iff, List.all_map, List.all_eq_true, List.all_eq_true]
    exact forall₂_congr fun part mem => by rw [Function.comp_apply, (agree part mem).2.weight]

/-- Conditions shape no result. -/
theorem query_merged_of_conditions {parts : List Node}
    (conditions : ∀ part ∈ parts, part.shapesResult = false) : (merged parts).query = {} := by
  have shapes : (parts.map contribution).map Contribution.shape = parts.map fun _ => {} := by
    rw [List.map_map]
    refine List.map_congr_left fun part mem => ?_
    rw [Function.comp_apply, contribution_of_condition (conditions part mem)]
    rfl
  rw [merged, ← query_merge_map_shape, shapes]
  simp [merge]

/-- The parts of a condition that compiles are such conditions themselves, and it holds when all of
them do. -/
theorem partsOf_of_predicate {filter : Document} (compiled : predicate node = .ok filter) :
    (partsOf node ≠ [] ∧ ∃ op args, node = .apply op args) ∧
      (∀ part ∈ partsOf node, ∃ filter, predicate part = .ok filter) ∧
        ∀ v, (partsOf node).all (Node.holds v) = node.holds v := by
  obtain ⟨op, args⟩ | _ | _ | _ | _ := node
  · by_cases conjunction : op = .and
    · subst conjunction
      rcases predicate_apply_eq_ok.1 compiled with ⟨filters, -, nonempty, run, -⟩ | ⟨_, ⟨⟩, _⟩ |
        ⟨_, _, ⟨⟩, _⟩ | ⟨⟨⟩, _⟩
      exact ⟨⟨nonempty, _, _, rfl⟩, exists_mapM_eq_ok.1 ⟨filters, run⟩,
        fun v => by rw [Node.holds, Node.allHold_eq_all, partsOf]⟩
    · rw [partsOf_of_ne_and conjunction]
      exact ⟨⟨by simp, _, _, rfl⟩, by simpa using ⟨filter, compiled⟩, by simp⟩
  all_goals simp [predicate] at compiled

/-- No condition is in the way of another. -/
theorem apart_of_conditions {parts : List Node} (conditions : ∀ part ∈ parts, part.shapesResult = false) :
    parts.Pairwise Apart :=
  List.pairwise_of_forall_mem_list fun part mem other _ => by
    simp [Apart, Contribution.Apart, contribution_of_condition (conditions part mem)]

/-- A condition that compiles makes up a query of nothing but a filter, with its truth value, also
where its arguments become the parts of the query. -/
theorem exists_compile_of_predicate {filter : Document} (compiled : predicate node = .ok filter) :
    ∃ filter', compile node = .ok { filter := filter' } ∧ ∀ v, filter'.holds v = node.holds v := by
  obtain ⟨rooted, each, same⟩ := partsOf_of_predicate compiled
  have conditions : ∀ part ∈ partsOf node, part.shapesResult = false := fun part mem =>
    condition_of_predicate (each part mem).choose_spec
  have sound : ∀ part ∈ partsOf node, IsSound part := fun part mem =>
    .predicate (conditions part mem) (each part mem).choose_spec
  have apart := apart_of_conditions conditions
  refine ⟨(merged (partsOf node)).filter, compile_eq_ok_iff.2 ⟨rooted, sound, apart, ?_⟩, fun v => ?_⟩
  · rw [Draft.finish, query_merged_of_conditions conditions]
  · rw [holds_filter_merged sound, ← same, Bool.eq_iff_iff, List.all_eq_true, List.all_eq_true]
    exact forall₂_congr fun part mem => by simp [weight, conditions part mem]

/-- The only part of a query can be put in normal form. -/
theorem exists_compile_normalize_part (sound : IsSound part) :
    ∃ filter, compile part.normalize = .ok { (merged [part]).finish with filter } ∧
      ∀ v, filter.holds v = (merged [part]).finish.filter.holds v := by
  have alone : ∀ other ∈ [part], IsSound other := by simpa using sound
  by_cases shapes : part.shapesResult = true
  · obtain ⟨op, args, rfl⟩ : ∃ op args, part = .apply op args := by
      cases part <;> simp [Node.shapesResult] at shapes
      exact ⟨_, _, rfl⟩
    have single := partsOf_of_shapesResult shapes
    refine ⟨(merged [.apply op args]).filter, ?_, fun v => rfl⟩
    rw [sound.normalize shapes, compile_eq_ok_iff, single]
    exact ⟨⟨by simp, _, _, rfl⟩, alone, List.pairwise_singleton _ _, rfl⟩
  · have condition : part.shapesResult = false := by simpa using shapes
    obtain ⟨filter, compiled⟩ := sound.exists_filter condition
    obtain ⟨⟨filter', compiled'⟩, same⟩ := normalize_predicate part filter compiled
    obtain ⟨filter'', whole, same'⟩ := exists_compile_of_predicate compiled'
    refine ⟨filter'', ?_, fun v => ?_⟩
    · rw [whole, Draft.finish, query_merged_of_conditions (by simpa using condition)]
    · refine Eq.trans ?_ (holds_filter_merged alone).symm
      simp [same', same, weight, condition]

/-- **Normal forms compile to queries of the same meaning.** -/
theorem exists_compile_normalize {query : DocumentQuery} (compiled : compile node = .ok query) :
    ∃ filter, compile node.normalize = .ok { query with filter } ∧
      ∀ v, filter.holds v = query.filter.holds v := by
  obtain ⟨⟨nonempty, op, args, rfl⟩, sound, apart, rfl⟩ := compile_eq_ok_iff.1 compiled
  by_cases conjunction : op = .and
  · subst conjunction
    change ∀ part ∈ args, IsSound part at sound
    change args.Pairwise Apart at apart
    rw [Node.normalize_apply]
    rcases Node.collapse_cases .and (args.map Node.normalize) with ⟨-, only⟩ | kept
    · -- The only part takes the place of the root, and may be a conjunction itself.
      obtain ⟨part, rfl⟩ : ∃ part, args = [part] := by
        rw [← List.length_eq_one_iff, ← List.length_map Node.normalize, only]
        rfl
      exact exists_compile_normalize_part (sound part List.mem_cons_self)
    · have agree := fun part mem => (sound part mem).agree_normalize
      obtain ⟨filter, finished, same⟩ := exists_finish_merged_map sound agree
      refine ⟨filter, ?_, same⟩
      rw [kept, compile_eq_ok_iff]
      refine ⟨⟨by simpa [partsOf] using nonempty, _, _, rfl⟩, ?_, ?_, finished.symm⟩
      · exact List.forall_mem_map.2 fun part mem => (agree part mem).1
      · refine List.pairwise_map.2 (apart.imp_of_mem fun {a b} aMem bMem apart => ?_)
        rwa [Apart, Contribution.Apart, (agree a aMem).2.slot, (agree b bMem).2.slot]
  · rw [partsOf_of_ne_and conjunction] at sound ⊢
    exact exists_compile_normalize_part (sound _ List.mem_cons_self)

/-- A disjunction of one conjunction is a single part. In normal form the conditions below it are the
parts of the query. -/
theorem exists_compile_normalize_of_nested :
    ∃ query, compile (.apply .and [.apply .or [.apply .and
        [.apply .eq [.field "a", .literal (.integer 1)],
          .apply .or [.apply .eq [.field "b.c", .literal .null]]]]]) = .ok query ∧
      ∃ filter, compile (.apply .and [.apply .eq [.field "a", .literal (.integer 1)],
          .apply .eq [.field "b.c", .literal .null]]) = .ok { query with filter } ∧
        ∀ v, filter.holds v = query.filter.holds v := by
  refine Exists.imp (fun query compiled => ⟨compiled, ?_⟩) ⟨_, rfl⟩
  exact exists_compile_normalize compiled

end ResourceQuery.Compilation
