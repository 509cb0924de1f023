import ResourceQuery.Proofs.Compilation.FirstFaults

/-!
# Refusals of normal forms

A directive is refused inside of a condition. Normalization takes single arguments out of
conjunctions and disjunctions, and may bring a directive to the top that was inside of a condition
before: `or(sort(a))` is refused, and its normal form sorts.

Main statement: this is the only way in which a query and its normal form are refused for different
reasons. What still stands inside of a condition in the normal form is refused there, too, unless there
is a fault before it.
-/

namespace ResourceQuery
set_option autoImplicit false
open Fallible

variable {op : Operator} {args parts : List Node} {node part core : Node}

/-! ## Wrapped trees -/

namespace Node

/-- The tree is the other one, inside of conjunctions and disjunctions that have no further
argument. -/
inductive Wraps (core : Node) : Node → Prop
  | self : Wraps core core
  | apply {op : Operator} {node : Node} (transparent : isTransparent op = true)
      (wraps : Wraps core node) : Wraps core (.apply op [node])

theorem role_of_isTransparent (transparent : isTransparent op = true) : op.role = .boolean := by
  cases op <;> simp [isTransparent] at transparent <;> rfl

/-- What is wrapped in a query is a query. -/
theorem Wraps.isQuery (wraps : Wraps core node) (query : node.IsQuery) : core.IsQuery := by
  induction wraps with
  | self => exact query
  | apply transparent wraps ih =>
    exact ih (query.of_mem (role_of_isTransparent transparent) List.mem_cons_self)

theorem Wraps.operators_subset (wraps : Wraps core node) : core.operators ⊆ node.operators := by
  induction wraps with
  | self => exact List.Subset.refl _
  | apply transparent wraps ih => exact fun op mem => by simp [ih mem]

/-- The normal form of a query is that of what it wraps, where nothing more is taken out. -/
theorem exists_wraps (node : Node) (query : node.IsQuery) :
    ∃ op args, Wraps (.apply op args) node ∧ node.normalize = .apply op (args.map normalize) := by
  induction node using induct with
  | literal | array | field | sortKey => simpa using query.exists_apply
  | apply op args ih =>
    rcases normalize_apply_cases op args with ⟨transparent, child, rfl, only⟩ | same
    · obtain ⟨op', args', wraps, same⟩ := ih child List.mem_cons_self
        (query.of_mem (role_of_isTransparent transparent) List.mem_cons_self)
      exact ⟨op', args', .apply transparent wraps, only.trans same⟩
    · exact ⟨op, args, .self, same⟩

/-- A query whose normal form shapes the result wraps it. -/
theorem wraps_normalize (query : node.IsQuery) (shapes : node.normalize.shapesResult = true) :
    Wraps node.normalize node := by
  obtain ⟨op, args, wraps, same⟩ := exists_wraps node query
  have other : op.role ≠ .boolean := by
    intro boolean
    simp [same, shapesResult, boolean] at shapes
  obtain ⟨fit, below⟩ := isWellKinded_apply.1 (wraps.isQuery query).kinds
  rwa [same, normalize_args other fit below]

/-- A directive or an aggregate function of a query is its own normal form. -/
theorem IsQuery.normalize_of_shapesResult (query : node.IsQuery)
    (shapes : node.shapesResult = true) : node.normalize = node := by
  obtain ⟨op, args, rfl⟩ := query.exists_apply
  obtain ⟨fit, below⟩ := isWellKinded_apply.1 query.kinds
  refine normalize_of_fit (fun boolean => ?_) fit below
  simp [shapesResult, boolean] at shapes

end Node

namespace Compilation

variable {error : CompilationError} {draft : Draft} {inner : Node}

/-! ## Normal forms of conditions -/

theorem refusal?_collapse (boolean : op.role = .boolean)
    (fit : Node.argumentsFit op args = true) :
    refusal? (Node.collapse op args) = args.findSome? refusal? := by
  rcases Node.collapse_cases op args with ⟨-, only⟩ | same
  · generalize Node.collapse op args = child at only ⊢
    simp [only]
  · rw [same, refusal?_apply boolean fit]

/-- The normal form of a query would be refused as a condition for the same reason. -/
theorem refusal?_normalize (node : Node) (query : node.IsQuery) :
    refusal? node.normalize = refusal? node := by
  induction node using Node.induct with
  | literal | array | field | sortKey => rfl
  | apply op args ih =>
    obtain ⟨fit, below⟩ := Node.isWellKinded_apply.1 query.kinds
    by_cases boolean : op.role = .boolean
    · have queries : ∀ arg ∈ args, arg.IsQuery := fun arg mem => query.of_mem boolean mem
      have fit' := Node.argumentsFit_map boolean fit fun arg mem =>
        (Node.allFit_normalize arg (below arg mem)).2 (Node.isApplication_of_fit boolean fit arg mem)
      rw [Node.normalize_apply, refusal?_collapse boolean fit', refusal?_apply boolean fit,
        List.findSome?_map, ← List.head?_filterMap, ← List.head?_filterMap]
      exact congrArg _ (List.filterMap_congr fun arg mem => ih arg mem (queries arg mem))
    · rw [Node.normalize_of_fit boolean fit below]

/-! ## Refused parts -/

/-- A directive or an aggregate function is taken without a look at the conditions so far. -/
theorem add_with_predicates (shapes : part.shapesResult = true) (filters : List Document) :
    Draft.add { draft with predicates := filters } part =
      (fun next => { next with predicates := filters }) <$> draft.add part := by
  obtain ⟨op, args⟩ | _ | _ | _ | _ := part <;> simp [Node.shapesResult] at shapes
  cases op <;> simp [Operator.role] at shapes
  case limit =>
    obtain _ | ⟨count, _ | ⟨start, _ | ⟨third, others⟩⟩⟩ := args <;>
      simp only [Draft.add, Draft.addLimit, apply_ite (Functor.map _), map_bind, map_pure] <;> rfl
  all_goals
    simp only [Draft.add, Draft.addSort, Draft.addProjection, Draft.addDistinct,
      Draft.addAggregate, Draft.addFunction, Operator.role, if_true, apply_ite (Functor.map _),
      map_bind, map_pure]

/-- The normal form of a part that is taken is taken, too, and changes nothing but the conditions in
another way. -/
theorem exists_add_normalize {next : Draft} (query : part.IsQuery) (taken : draft.add part = .ok next)
    (filters : List Document) :
    ∃ filters', Draft.add { draft with predicates := filters } part.normalize =
      .ok { next with predicates := filters' } := by
  cases shapes : part.shapesResult with
  | true =>
    rw [query.normalize_of_shapesResult shapes, add_with_predicates shapes, taken]
    exact ⟨filters, rfl⟩
  | false =>
    rw [Draft.add_condition shapes, Draft.addPredicate_eq_ok] at taken
    obtain ⟨filter, compiled, rfl⟩ := taken
    obtain ⟨⟨filter', compiled'⟩, -⟩ := normalize_predicate part filter compiled
    rw [Draft.add_condition (condition_of_predicate compiled')]
    exact ⟨filters ++ [filter'], Draft.addPredicate_eq_ok.2 ⟨filter', compiled', rfl⟩⟩

/-- The normal form of a part is refused for the same reason, unless the part is a condition and its
normal form shapes the result. -/
theorem add_normalize_eq_error (query : part.IsQuery) (failed : draft.add part = .error error)
    (filters : List Document) :
    Draft.add { draft with predicates := filters } part.normalize = .error error ∨
      part.shapesResult = false ∧ part.normalize.shapesResult = true ∧
        refusal? part = some error := by
  cases shapes : part.shapesResult with
  | true =>
    rw [query.normalize_of_shapesResult shapes, add_with_predicates shapes, failed]
    exact .inl rfl
  | false =>
    have refused := (add_condition_eq_error shapes).1 failed
    cases lifted : part.normalize.shapesResult with
    | true => exact .inr ⟨rfl, rfl, refused⟩
    | false =>
      rw [add_condition_eq_error lifted, refusal?_normalize part query]
      exact .inl refused

/-- The normal forms of parts that are taken are taken, too, and change nothing but the conditions in
another way. -/
theorem exists_foldlM_normalize {next : Draft} (queries : ∀ part ∈ parts, part.IsQuery)
    (run : parts.foldlM Draft.add draft = .ok next) (filters : List Document) :
    ∃ filters', (parts.map Node.normalize).foldlM Draft.add { draft with predicates := filters } =
      .ok { next with predicates := filters' } := by
  induction parts generalizing draft filters with
  | nil =>
    obtain rfl : draft = next := pure_eq_ok.1 run
    exact ⟨filters, rfl⟩
  | cons part parts ih =>
    obtain ⟨query, queries⟩ := List.forall_mem_cons.1 queries
    obtain ⟨between, taken, run⟩ := bind_eq_ok.1 run
    obtain ⟨filters', taken'⟩ := exists_add_normalize query taken filters
    obtain ⟨filters'', run'⟩ := ih queries run filters'
    exact ⟨filters'', bind_eq_ok.2 ⟨_, taken', run'⟩⟩

/-! ## Parts of normal forms -/

/-- Normalization brings the part to the top of the tree: it is wrapped in a condition among the
parts, or in an argument of a conjunction that the only part wraps. -/
structure Lifts (node part : Node) : Prop where
  mem : part ∈ partsOf node.normalize
  shapes : part.shapesResult = true
  wrapped : ∃ origin ∈ partsOf node, origin.shapesResult = false ∧
    (part.Wraps origin ∨ partsOf node = [origin] ∧ ∃ conjuncts,
      (Node.apply .and conjuncts).Wraps origin ∧ ∃ conjunct ∈ conjuncts, part.Wraps conjunct)

/-- Normalization brings the part to the top of the tree, and the compilation of the tree gets to where
the part was before. -/
structure LiftsFirst (node part : Node) : Prop extends Lifts node part where
  first : ∃ origin, GetsTo node origin ∧ origin.shapesResult = false ∧
    (part.Wraps origin ∨ partsOf node = [origin] ∧ ∃ before conjunct after,
      (Node.apply .and (before ++ conjunct :: after)).Wraps origin ∧
        (∀ other ∈ before, ∃ filter, predicate other = .ok filter) ∧ part.Wraps conjunct)

/-- Nothing stands before what is wrapped. -/
theorem reaches_of_wraps (wraps : core.Wraps node) (reaches : Reaches inner core) : Reaches inner node := by
  induction wraps with
  | self => exact reaches
  | apply transparent wraps ih =>
    have alone : ∀ other ∈ ([] : List Node), ∃ filter, predicate other = .ok filter :=
      List.forall_mem_nil _
    exact .argument (Node.role_of_isTransparent transparent) alone ih

/-- The compilation of a tree gets to what is lifted first. -/
theorem LiftsFirst.comesFirst (lifts : LiftsFirst node part) : ComesFirst node part := by
  obtain ⟨origin, turn, condition, path⟩ := lifts.first
  refine ⟨origin, turn, condition, ?_⟩
  rcases path with wraps | ⟨-, before, conjunct, after, wraps, compiled, wraps'⟩
  · exact reaches_of_wraps wraps .self
  · exact reaches_of_wraps wraps (.argument rfl compiled (reaches_of_wraps wraps' .self))

/-- The only part of a tree has the normal form of the tree, and the normal forms of several parts are
the parts of the normal form. -/
theorem partsOf_normalize_cases (node : Node) :
    (∃ only, partsOf node = [only] ∧ node.normalize = only.normalize) ∨
      partsOf node.normalize = (partsOf node).map Node.normalize := by
  obtain ⟨op, args⟩ | _ | _ | _ | _ := node
  · by_cases conjunction : op = .and
    · subst conjunction
      rcases Node.normalize_apply_cases .and args with ⟨-, child, rfl, only⟩ | same
      · exact .inl ⟨child, rfl, only⟩
      · exact .inr (same ▸ rfl)
    · exact .inl ⟨_, partsOf_of_ne_and conjunction args, rfl⟩
  all_goals exact .inl ⟨_, rfl, rfl⟩

/-- A query is refused as a condition for the first of its parts that is. -/
theorem findSome?_partsOf (query : node.IsQuery) :
    (partsOf node).findSome? refusal? = refusal? node := by
  obtain ⟨op, args, rfl⟩ := query.exists_apply
  by_cases conjunction : op = .and
  · subst conjunction
    exact (refusal?_apply rfl (Node.isWellKinded_apply.1 query.kinds).1).symm
  · simp [partsOf_of_ne_and conjunction]

theorem lifts_of_mem (several : partsOf node.normalize = (partsOf node).map Node.normalize)
    (mem : part ∈ partsOf node) (query : part.IsQuery) (condition : part.shapesResult = false)
    (shapes : part.normalize.shapesResult = true) : Lifts node part.normalize where
  mem := several ▸ List.mem_map_of_mem mem
  shapes := shapes
  wrapped := ⟨part, mem, condition, .inl (Node.wraps_normalize query shapes)⟩

theorem liftsFirst_of_getsTo (several : partsOf node.normalize = (partsOf node).map Node.normalize)
    (turn : GetsTo node part) (query : part.IsQuery) (condition : part.shapesResult = false)
    (shapes : part.normalize.shapesResult = true) : LiftsFirst node part.normalize where
  toLifts := lifts_of_mem several turn.mem query condition shapes
  first := ⟨part, turn, condition, .inl (Node.wraps_normalize query shapes)⟩

/-- What comes up from the only part was wrapped in it, or in an argument of a conjunction in it. The parts
before it are the normal forms of the arguments before that one. -/
theorem wraps_of_only {only : Node} {before after : List Node} (query : only.IsQuery)
    (split : partsOf only.normalize = before ++ part :: after) (shapes : part.shapesResult = true) :
    part.Wraps only ∨ ∃ seen conjunct later, (Node.apply .and (seen ++ conjunct :: later)).Wraps only ∧
      seen.map Node.normalize = before ∧ part.Wraps conjunct := by
  obtain ⟨op, args, wraps, normal⟩ := Node.exists_wraps only query
  by_cases conjunction : op = .and
  · subst conjunction
    rw [normal] at split
    obtain ⟨seen, others, rfl, same, rest⟩ := List.map_eq_append_iff.1 split
    obtain ⟨conjunct, later, rfl, rfl, -⟩ := List.map_eq_cons_iff.1 rest
    have conjunctQuery : conjunct.IsQuery := (wraps.isQuery query).of_mem rfl (by simp)
    exact .inr ⟨seen, conjunct, later, wraps, same, Node.wraps_normalize conjunctQuery shapes⟩
  · rw [normal, partsOf_of_ne_and conjunction, ← normal] at split
    obtain rfl : part = only.normalize := List.mem_singleton.1 (split ▸ by simp)
    exact .inl (Node.wraps_normalize query shapes)

theorem lifts_of_only {only : Node} (parts : partsOf node = [only])
    (same : node.normalize = only.normalize) (query : only.IsQuery)
    (condition : only.shapesResult = false) (mem : part ∈ partsOf only.normalize)
    (shapes : part.shapesResult = true) : Lifts node part := by
  refine ⟨same ▸ mem, shapes, only, by simp [parts], condition, ?_⟩
  obtain ⟨before, after, split⟩ := List.append_of_mem mem
  refine (wraps_of_only query split shapes).imp_right ?_
  rintro ⟨seen, conjunct, later, wraps, -, wraps'⟩
  exact ⟨parts, _, wraps, conjunct, by simp, wraps'⟩

/-- What comes up from the only part comes first if nothing is refused before it in the normal form. -/
theorem liftsFirst_of_only {only : Node} {before after : List Node} (parts : partsOf node = [only])
    (same : node.normalize = only.normalize) (query : only.IsQuery)
    (condition : only.shapesResult = false) (split : partsOf only.normalize = before ++ part :: after)
    (shapes : part.shapesResult = true) (earlier : ∀ other ∈ before, refusal? other = none) :
    LiftsFirst node part := by
  have turn : GetsTo node only := ⟨[], [], parts, List.forall_mem_nil _, .nil⟩
  refine ⟨lifts_of_only parts same query condition (by simp [split]) shapes, only, turn, condition, ?_⟩
  refine (wraps_of_only query split shapes).imp_right ?_
  rintro ⟨seen, conjunct, later, wraps, rfl, wraps'⟩
  refine ⟨parts, seen, conjunct, later, wraps, fun other mem => ?_, wraps'⟩
  have otherQuery : other.IsQuery := (wraps.isQuery query).of_mem rfl (by simp [mem])
  rw [← fault?_eq_none, ← refusal?, ← refusal?_normalize other otherQuery]
  exact earlier _ (List.mem_map_of_mem mem)

/-! ## Refused queries -/

/-- The only part of a query and its normal form are refused for the same reason, unless it is a directive
or an aggregate function that comes up from the part. -/
theorem compile_normalize_only_eq_error {only : Node} (query : only.IsQuery)
    (parts : partsOf node = [only]) (same : node.normalize = only.normalize)
    (failed : Draft.empty.add only = .error error) :
    compile only.normalize = .error error ∨
      ∃ part, part.IsQuery ∧ LiftsFirst node part ∧ refusal? part = some error := by
  have queries := (parts_of_query query.normalize).2
  rw [compile_eq_error query.normalize]
  cases condition : only.shapesResult with
  | true =>
    rw [query.normalize_of_shapesResult condition, partsOf_of_shapesResult condition]
    exact .inl (by simpa using failed)
  | false =>
    -- The arguments of the only part become the parts if its normal form is a conjunction.
    have first : (partsOf only.normalize).findSome? refusal? = some error := by
      rw [findSome?_partsOf query.normalize, refusal?_normalize only query]
      exact (add_condition_eq_error condition).1 failed
    obtain ⟨before, part, after, split, refused, earlier⟩ := List.findSome?_eq_some_iff.1 first
    cases shapes : part.shapesResult with
    | true =>
      exact .inr ⟨part, queries part (by simp [split]),
        liftsFirst_of_only parts same query condition split shapes earlier, refused⟩
    | false =>
      have compiled (other : Node) (mem : other ∈ before) : ∃ filter, predicate other = .ok filter :=
        fault?_eq_none.1 (earlier other mem)
      have conditions (other : Node) (mem : other ∈ before) : other.shapesResult = false :=
        condition_of_predicate (compiled other mem).choose_spec
      have sound (other : Node) (mem : other ∈ before) : IsSound other :=
        .predicate (conditions other mem) (compiled other mem).choose_spec
      exact .inl (foldlM_eq_error.2 ⟨before, part, after, _, split,
        foldlM_add_eq_ok.2 ⟨sound, apart_of_conditions conditions, rfl⟩,
        (add_condition_eq_error shapes).2 refused⟩)

/-- A query and its normal form are refused for the same reason, unless it is a directive or an
aggregate function that normalization brings to the top. -/
theorem compile_normalize_eq_error (query : node.IsQuery) (failed : compile node = .error error) :
    compile node.normalize = .error error ∨
      ∃ op args, LiftsFirst node (.apply op args) ∧ error = misplaced op := by
  have queries := (parts_of_query query).2
  suffices alike : compile node.normalize = .error error ∨
      ∃ part, part.IsQuery ∧ LiftsFirst node part ∧ refusal? part = some error by
    refine alike.imp_right fun ⟨part, partQuery, lifts, refused⟩ => ?_
    obtain ⟨op, args, rfl⟩ := partQuery.exists_apply
    rw [refusal?_of_shapesResult lifts.shapes, Option.some.injEq] at refused
    exact ⟨op, args, lifts, refused.symm⟩
  rw [compile_eq_error query] at failed
  rcases partsOf_normalize_cases node with ⟨only, parts, same⟩ | several
  · rw [same]
    exact compile_normalize_only_eq_error (queries only (by simp [parts])) parts same
      (by simpa [parts] using failed)
  · obtain ⟨before, part, after, draft, split, run, failed⟩ := foldlM_eq_error.1 failed
    have mem : part ∈ partsOf node := by simp [split]
    obtain ⟨filters, run'⟩ := exists_foldlM_normalize
      (fun other otherMem => queries other (by simp [split, otherMem])) run []
    have partQuery := queries part mem
    rcases add_normalize_eq_error partQuery failed filters with failed | ⟨condition, shapes, refused⟩
    · rw [compile_eq_error query.normalize, several, split, List.map_append, List.map_cons]
      exact .inl (foldlM_eq_error.2 ⟨_, _, _, _, rfl, run', failed⟩)
    · obtain ⟨sound, apart, -⟩ := foldlM_add_eq_ok.1 run
      have turn : GetsTo node part := ⟨before, after, split, sound, apart⟩
      refine .inr ⟨part.normalize, partQuery.normalize,
        liftsFirst_of_getsTo several turn partQuery condition shapes, ?_⟩
      rwa [refusal?_normalize part partQuery]

/-! ## Directives and aggregate functions inside of conditions -/

/-- The operator stands inside of a condition among the parts of the tree. -/
def StandsInCondition (node : Node) (op : Operator) : Prop :=
  ∃ part ∈ partsOf node, part.shapesResult = false ∧ op ∈ part.operators

theorem isTransparent_of_not_conditional (plain : op.isConditional = false) :
    Node.isTransparent op = false := by
  cases op <;> simp [Operator.isConditional, Operator.role] at plain <;> rfl

/-- An operator other than a root conjunction is one of a part. -/
theorem exists_part_of_mem_operators (plain : op.isConditional = false)
    (mem : op ∈ node.operators) : ∃ part ∈ partsOf node, op ∈ part.operators := by
  obtain ⟨root, args⟩ | _ | _ | _ | _ := node
  · by_cases conjunction : root = .and
    · subst conjunction
      rw [Node.operators_apply, List.mem_cons, List.mem_flatMap] at mem
      refine mem.resolve_left ?_
      rintro rfl
      simp [Operator.isConditional, Operator.role] at plain
    · exact ⟨_, partsOf_of_ne_and conjunction args ▸ List.mem_cons_self, mem⟩
  all_goals exact ⟨_, List.mem_cons_self, mem⟩

theorem operators_subset_of_mem_partsOf (mem : part ∈ partsOf node) :
    part.operators ⊆ node.operators := by
  unfold partsOf at mem
  split at mem
  · exact (CompilationError.subset_of_mem mem).1
  · exact List.mem_singleton.1 mem ▸ List.Subset.refl _

/-- What stands inside of a condition still does so in the normal form, or is brought to the top. -/
theorem standsInCondition_iff (query : node.IsQuery) (plain : op.isConditional = false) :
    StandsInCondition node op ↔
      StandsInCondition node.normalize op ∨ ∃ part, Lifts node part ∧ op ∈ part.operators := by
  have queries := (parts_of_query query).2
  constructor
  · rintro ⟨origin, mem, condition, found⟩
    have kept := Node.mem_operators_normalize (isTransparent_of_not_conditional plain) origin found
    rcases partsOf_normalize_cases node with ⟨only, parts, same⟩ | several
    · obtain rfl : origin = only := by simpa [parts] using mem
      obtain ⟨part, partMem, found⟩ := exists_part_of_mem_operators plain kept
      cases shapes : part.shapesResult with
      | true =>
        exact .inr ⟨part, lifts_of_only parts same (queries _ mem) condition partMem shapes, found⟩
      | false => exact .inl ⟨part, same ▸ partMem, shapes, found⟩
    · cases shapes : origin.normalize.shapesResult with
      | true => exact .inr ⟨_, lifts_of_mem several mem (queries _ mem) condition shapes, kept⟩
      | false => exact .inl ⟨_, several ▸ List.mem_map_of_mem mem, shapes, kept⟩
  · have condition {origin part : Node} (mem : origin ∈ partsOf node)
        (partMem : part ∈ partsOf origin.normalize ∨ part = origin.normalize)
        (condition : part.shapesResult = false) : origin.shapesResult = false := by
      refine Bool.eq_false_iff.2 fun shapes => ?_
      rw [(queries origin mem).normalize_of_shapesResult shapes, partsOf_of_shapesResult shapes,
        List.mem_singleton, or_self] at partMem
      simp [partMem, shapes] at condition
    rintro (⟨part, mem, isCondition, found⟩ | ⟨part, lifts, found⟩)
    · rcases partsOf_normalize_cases node with ⟨only, parts, same⟩ | several
      · have onlyMem : only ∈ partsOf node := by simp [parts]
        rw [same] at mem
        exact ⟨only, onlyMem, condition onlyMem (.inl mem) isCondition,
          only.operators_normalize_subset (operators_subset_of_mem_partsOf mem found)⟩
      · rw [several] at mem
        obtain ⟨origin, originMem, rfl⟩ := List.mem_map.1 mem
        exact ⟨origin, originMem, condition originMem (.inr rfl) isCondition,
          origin.operators_normalize_subset found⟩
    · obtain ⟨origin, mem, isCondition, wraps | ⟨-, conjuncts, wraps, conjunct, inside, wraps'⟩⟩ :=
        lifts.wrapped
      · exact ⟨origin, mem, isCondition, wraps.operators_subset found⟩
      · exact ⟨origin, mem, isCondition, wraps.operators_subset
          ((CompilationError.subset_of_mem inside).1 (wraps'.operators_subset found))⟩

/-- A query with a directive or an aggregate function inside of a condition is refused. -/
theorem exists_error_of_standsInCondition (query : node.IsQuery)
    (plain : op.isConditional = false) (stands : StandsInCondition node op) :
    ∃ error, compile node = .error error := by
  have queries := (parts_of_query query).2
  cases compiled : compile node with
  | error error => exact ⟨error, rfl⟩
  | ok result =>
    obtain ⟨-, sound, -⟩ := compile_eq_ok_iff.1 compiled
    obtain ⟨part, mem, condition, found⟩ := stands
    have conditional := ((exists_predicate_iff part (queries part mem).kinds
      (queries part mem).finite).1 ((sound part mem).exists_filter condition)).1 op found
    simp [plain] at conditional

/-- The operators that are not those of conditions shape the result. -/
theorem shapesResult_iff_not_conditional :
    (Node.apply op args).shapesResult = true ↔ op.isConditional = false := by
  cases op <;> simp [Node.shapesResult, Operator.isConditional, Operator.role]

/-- What is refused but accepted in normal form is just what something is lifted out of. -/
theorem exists_error_iff_lifts {result : DocumentQuery} (query : node.IsQuery)
    (accepted : compile node.normalize = .ok result) :
    (∃ error, compile node = .error error) ↔ ∃ part, Lifts node part := by
  constructor
  · rintro ⟨error, failed⟩
    rcases compile_normalize_eq_error query failed with failed | ⟨op, args, lifts, -⟩
    · simp [accepted] at failed
    · exact ⟨_, lifts.toLifts⟩
  · rintro ⟨part, lifts⟩
    obtain ⟨op, args, rfl⟩ := ((parts_of_query query.normalize).2 part lifts.mem).exists_apply
    have plain := shapesResult_iff_not_conditional.1 lifts.shapes
    exact exists_error_of_standsInCondition query plain
      ((standsInCondition_iff query plain).2 (.inr ⟨_, lifts, mem_operators_root⟩))

end Compilation
end ResourceQuery
