import ResourceQuery.Proofs.Compilation.Parts

/-!
# What a compiled query is built from

Names and values of a query come from outside. In a compiled query names can only be field paths and
values can only be scalars: `IsFilter` is the shape of all filters, and outside of filters field
paths stand where the store reads the name of a field. What parts make together is built like this
from their own paths and literals.
-/

namespace ResourceQuery
set_option autoImplicit false

variable {paths : List String} {values : List Literal}

/-! ## Filters -/

/-- A single value: a number, a truth value, null, a text, or an object that stands for a date
literal. -/
inductive IsScalar (values : List Literal) : Json → Prop
  | integer (n : Int) : IsScalar values (.integer n)
  | float (x : Binary64) (finite : x.isFinite = true) : IsScalar values (.float x)
  | boolean (b : Bool) : IsScalar values (.boolean b)
  | null : IsScalar values .null
  | string (text : String) : IsScalar values (.string text)
  | date (moment : DateTime) (given : .date moment ∈ values) :
      IsScalar values (.object [("$date", .string (String.ofList (moment.writeIso 3)))])

/-- What a filter wants of a field. -/
inductive IsCondition (values : List Literal) : Json → Prop
  | equal {value : Json} (scalar : IsScalar values value) : IsCondition values value
  | single {name : String} {value : Json} (named : name ∈ ["$ne", "$lt", "$lte", "$gt", "$gte"])
      (scalar : IsScalar values value) : IsCondition values (.object [(name, value)])
  | listed {name : String} {items : List Json} (named : name ∈ ["$in", "$all", "$nin"])
      (scalars : ∀ item ∈ items, IsScalar values item) :
      IsCondition values (.object [(name, .array items)])

/-- A filter over fields with these paths. -/
inductive IsFilter (paths : List String) (values : List Literal) : Document → Prop
  | and {filters : List Document} (nonempty : filters ≠ [])
      (each : ∀ filter ∈ filters, IsFilter paths values filter) :
      IsFilter paths values [("$and", .array (filters.map .object))]
  | or {filters : List Document} (nonempty : filters ≠ [])
      (each : ∀ filter ∈ filters, IsFilter paths values filter) :
      IsFilter paths values [("$or", .array (filters.map .object))]
  | nor {filter : Document} (inner : IsFilter paths values filter) :
      IsFilter paths values [("$nor", .array [.object filter])]
  | field {path : String} {value : Json} (given : path ∈ paths) (usable : IsFieldPath path)
      (condition : IsCondition values value) : IsFilter paths values [(path, value)]

/-! ## Document queries -/

/-- The query names only fields with these paths, all of which can name fields, and compares them
only with single values and lists of them. -/
structure DocumentQuery.IsBuiltFrom (paths : List String) (values : List Literal)
    (query : DocumentQuery) : Prop where
  usable : ∀ path ∈ paths, IsFieldPath path
  filter : query.filter = [] ∨ IsFilter paths values query.filter
  sort : query.sort.names ⊆ paths
  projection : ∀ projection ∈ query.projection, projection.fields ⊆ paths
  groupBy : ∀ aggregation ∈ query.aggregation, aggregation.groupBy ⊆ paths
  accumulators : ∀ aggregation ∈ query.aggregation, ∀ entry ∈ aggregation.accumulators,
    entry.1 = entry.2.resultName ∧ ∀ path ∈ entry.2.field?, path ∈ paths

namespace Compilation
open Fallible

variable {op : Operator} {args : List Node} {node part : Node}

theorem isScalar_of_literal {value : Literal} {json : Json} (given : value ∈ values)
    (compiled : literal op value = .ok json) : IsScalar values json := by
  cases value <;> simp only [literal, Except.ok.injEq] at compiled
  case float x =>
    split at compiled
    · next finite => exact Except.ok.inj compiled ▸ .float x finite
    · simp at compiled
  case date moment => exact compiled ▸ .date moment given
  all_goals
    subst compiled
    constructor

/-- What a comparison wants of its field. -/
theorem isCondition_of_operand {value : Json} (role : op.role = .comparison)
    (given : node.literals ⊆ values) (compiled : operand op node = .ok value) :
    IsCondition values (condition op value) := by
  cases takes : op.takesList
  · obtain ⟨op', args⟩ | item | items | _ | _ := node <;>
      simp only [operand, takes, Bool.false_eq_true, if_false, unexpected, reduceCtorEq] at compiled
    have scalar := isScalar_of_literal (given (by simp)) compiled
    cases op <;> simp only [Operator.role, Operator.takesList, reduceCtorEq] at role takes
    case eq => exact .equal scalar
    all_goals exact .single (by simp) scalar
  · obtain ⟨items, rfl, scalars⟩ :
        ∃ items, value = .array items ∧ ∀ item ∈ items, IsScalar values item := by
      obtain ⟨op', args⟩ | item | items | _ | _ := node <;> simp only [operand, takes, if_true,
        unexpected, reduceCtorEq, bind_eq_ok, pure_eq_ok] at compiled
      · obtain ⟨found, compiled, rfl⟩ := compiled
        exact ⟨_, rfl, by simpa using isScalar_of_literal (given (by simp)) compiled⟩
      · obtain ⟨found, compiled, rfl⟩ := compiled
        refine ⟨_, rfl, fun json mem => ?_⟩
        obtain ⟨item, itemMem, compiled⟩ := exists_of_mapM_eq_ok compiled mem
        exact isScalar_of_literal (given (by simpa using itemMem)) compiled
    cases op <;> simp only [Operator.role, Operator.takesList, reduceCtorEq] at role takes <;>
      exact .listed (by simp) scalars

/-- A condition compiles to a filter over its paths and literals. -/
theorem isFilter_of_predicate (node : Node) : ∀ filter, predicate node = .ok filter →
    node.paths ⊆ paths → node.literals ⊆ values → IsFilter paths values filter := by
  induction node using Node.induct with
  | literal | array | field | sortKey => simp [predicate]
  | apply op args ih =>
    intro filter compiled inPaths inValues
    have below : ∀ arg ∈ args, arg.paths ⊆ paths ∧ arg.literals ⊆ values := fun arg mem =>
      ⟨fun path pathMem => inPaths (by simpa using ⟨arg, mem, pathMem⟩),
        fun value valueMem => inValues (by simpa using ⟨arg, mem, valueMem⟩)⟩
    have several {filters : List Document} (run : args.mapM predicate = .ok filters) :
        ∀ filter ∈ filters, IsFilter paths values filter := fun filter mem => by
      obtain ⟨arg, argMem, compiled⟩ := exists_of_mapM_eq_ok run mem
      exact ih arg argMem filter compiled (below arg argMem).1 (below arg argMem).2
    have nonempty {filters : List Document} (given : args ≠ [])
        (run : args.mapM predicate = .ok filters) : filters ≠ [] := by
      rintro rfl
      exact given (List.length_eq_zero_iff.1 (length_of_mapM_eq_ok run).symm)
    rcases predicate_apply_eq_ok.1 compiled with ⟨filters, rfl, given, run, rfl⟩ |
      ⟨filters, rfl, given, run, rfl⟩ | ⟨child, inner, rfl, rfl, run, rfl⟩ | ⟨role, compiled⟩
    · exact .and (nonempty given run) (several run)
    · exact .or (nonempty given run) (several run)
    · have child := below child List.mem_cons_self
      exact .nor (ih _ List.mem_cons_self inner run child.1 child.2)
    · obtain ⟨path, operandNode, value, rfl, usable, read, rfl⟩ := comparison_eq_ok.1 compiled
      exact .field (inPaths (by simp)) (pathFault?_eq_none_iff.1 usable)
        (isCondition_of_operand role (below operandNode (by simp)).2 read)

/-! ## Parts -/

/-- The paths of a condition that compiles can name fields. -/
theorem usable_of_predicate (node : Node) : ∀ filter, predicate node = .ok filter →
    ∀ path ∈ node.paths, IsFieldPath path := by
  induction node using Node.induct with
  | literal | array | field | sortKey => simp [predicate]
  | apply op args ih =>
    intro filter compiled
    rw [Node.paths_apply, List.forall_mem_flatMap]
    have several {filters : List Document} (run : args.mapM predicate = .ok filters) :
        ∀ arg ∈ args, ∀ path ∈ arg.paths, IsFieldPath path := fun arg mem =>
      ih arg mem _ (exists_mapM_eq_ok.1 ⟨filters, run⟩ arg mem).choose_spec
    rcases predicate_apply_eq_ok.1 compiled with ⟨filters, rfl, -, run, -⟩ |
      ⟨filters, rfl, -, run, -⟩ | ⟨child, inner, rfl, rfl, run, -⟩ | ⟨role, compiled⟩
    · exact several run
    · exact several run
    · simpa using ih child List.mem_cons_self inner run
    · obtain ⟨path, operandNode, value, rfl, usable, read, -⟩ := comparison_eq_ok.1 compiled
      have noPaths : operandNode.paths = [] := by
        rcases leaf_of_operand read with ⟨_, rfl⟩ | ⟨_, rfl⟩ <;> rfl
      simpa [noPaths] using pathFault?_eq_none_iff.1 usable

/-- The only path of an aggregate function is that of its field. -/
theorem field?_of_accumulator? {added : Accumulator} (read : accumulator? node = some added) :
    node.paths = added.field?.toList := by
  unfold accumulator? at read
  split at read
  · split at read
    · simp [← Option.some.inj read, Accumulator.field?]
    · simp at read
  · next op path =>
    obtain ⟨function, -, rfl⟩ := Option.map_eq_some_iff.1 read
    simp [Accumulator.field?]
  · simp at read

/-- The path of an aggregate function can name a field. -/
theorem IsFunction.usable (function : IsFunction node) : ∀ path ∈ node.paths, IsFieldPath path := by
  obtain ⟨added, read, usable⟩ := function
  simpa [field?_of_accumulator? read] using usable

/-- The paths of a part that would compile by itself can name fields. -/
theorem IsSound.usable (sound : IsSound part) : ∀ path ∈ part.paths, IsFieldPath path := by
  have noPaths {count : Node} {n : Nat} (read : count? count = some n) : count.paths = [] := by
    cases count <;> simp [count?] at read
    rfl
  cases sound with
  | sort nonempty keys =>
    rw [Node.paths_apply, List.forall_mem_flatMap]
    intro arg mem
    obtain ⟨path, direction, rfl, usable⟩ := keys arg mem
    simpa using usable
  | projection named nonempty fields =>
    rw [Node.paths_apply, List.forall_mem_flatMap]
    intro arg mem
    obtain ⟨path, rfl, usable⟩ := fields arg mem
    simpa using usable
  | limit read => simp [noPaths read]
  | limitAndSkip read readStart => simp [noPaths read, noPaths readStart]
  | distinct => simp
  | aggregate nonempty columns =>
    rw [Node.paths_apply, List.forall_mem_flatMap]
    intro arg mem
    obtain ⟨path, rfl, usable⟩ | function := columns arg mem
    · simpa using usable
    · exact function.usable
  | function function => exact function.usable
  | predicate condition compiled => exact usable_of_predicate _ _ compiled

/-- What arguments name by their paths is named by the paths of the whole. -/
theorem filterMap_subset_paths {read : Node → Option String}
    (named : ∀ node, ∀ path ∈ read node, path ∈ node.paths) :
    args.filterMap read ⊆ (Node.apply op args).paths := by
  intro path mem
  obtain ⟨arg, argMem, found⟩ := List.mem_filterMap.1 mem
  exact Node.paths_apply op args ▸ List.mem_flatMap.2 ⟨arg, argMem, named arg path found⟩

/-- An aggregate function puts out under its own name, and is one of its path. -/
theorem field?_of_output? {entry : String × Accumulator} (found : output? node = some entry) :
    entry.1 = entry.2.resultName ∧ ∀ path ∈ entry.2.field?, path ∈ node.paths := by
  obtain ⟨added, read, rfl⟩ := Option.map_eq_some_iff.1 found
  exact ⟨rfl, by simp [field?_of_accumulator? read]⟩

/-- A contribution that names only fields with these paths. -/
structure Contribution.Names (paths : List String) (c : Contribution) : Prop where
  sort : c.sort.names ⊆ paths
  projection : ∀ projection ∈ c.projection, projection.fields ⊆ paths
  groupBy : ∀ columns ∈ c.columns, columns.groupBy ⊆ paths
  accumulators : ∀ columns ∈ c.columns, ∀ entry ∈ columns.accumulators,
    entry.1 = entry.2.resultName ∧ ∀ path ∈ entry.2.field?, path ∈ paths

/-- A part contributes what its paths name. -/
theorem names_contribution (part : Node) : (contribution part).Names part.paths := by
  have fields (op : Operator) (args : List Node) :
      args.filterMap Node.path? ⊆ (Node.apply op args).paths :=
    filterMap_subset_paths fun node => by cases node <;> simp [Node.path?]
  unfold contribution
  split
  case h_1 args =>
    refine ⟨?_, by simp, by simp, by simp⟩
    rw [names_sortFields]
    exact filterMap_subset_paths fun node => by cases node <;> simp [sortName?, Node.sortKey?]
  case h_2 | h_3 =>
    refine ⟨List.nil_subset _, ?_, by simp, by simp⟩
    rintro _ ⟨⟩
    exact fields _ _
  case h_4 | h_5 => exact ⟨List.nil_subset _, by simp, by simp, by simp⟩
  case h_6 args =>
    refine ⟨List.nil_subset _, by simp, ?_, ?_⟩ <;> rintro _ ⟨⟩
    · exact fields _ _
    · intro entry mem
      obtain ⟨arg, argMem, found⟩ := List.mem_filterMap.1 mem
      refine (field?_of_output? found).imp_right fun inside path isField => ?_
      exact Node.paths_apply _ _ ▸ List.mem_flatMap.2 ⟨arg, argMem, inside path isField⟩
  case h_7 =>
    -- An aggregate function by itself, or a condition.
    split
    · next found =>
      refine ⟨List.nil_subset _, by simp, by simp, ?_⟩
      simpa using field?_of_output? found
    · exact ⟨List.nil_subset _, by simp, by simp, by simp⟩

/-- Filters together make up a filter, or want nothing. -/
theorem isFilter_filter {draft : Draft}
    (each : ∀ filter ∈ draft.predicates, IsFilter paths values filter) :
    draft.filter = [] ∨ IsFilter paths values draft.filter := by
  unfold Draft.filter
  split
  · exact .inl rfl
  · next only same => exact .inr (each only (by simp [same]))
  · next nonempty _ => exact .inr (.and nonempty each)

/-- What parts make together is built from their paths and literals. -/
theorem isBuiltFrom_merged {parts : List Node} (sound : ∀ part ∈ parts, IsSound part) :
    (merged parts).finish.IsBuiltFrom (parts.flatMap Node.paths) (parts.flatMap Node.literals) := by
  have inPaths : ∀ part ∈ parts, part.paths ⊆ parts.flatMap Node.paths :=
    fun part mem path pathMem => List.mem_flatMap.2 ⟨part, mem, pathMem⟩
  have inValues : ∀ part ∈ parts, part.literals ⊆ parts.flatMap Node.literals :=
    fun part mem value valueMem => List.mem_flatMap.2 ⟨part, mem, valueMem⟩
  have grouped {aggregation : Aggregation} (found : aggregation ∈ (merged parts).query.aggregation) :
      aggregation = besides (parts.filterMap fun part => (contribution part).columns) := by
    have together := aggregation_merge (parts.map contribution)
    rwa [List.filterMap_map, ← merged, Option.mem_def.1 found, Option.getD_some] at together
  constructor
  case usable => exact List.forall_mem_flatMap.2 fun part mem => (sound part mem).usable
  case filter =>
    refine isFilter_filter fun filter mem => ?_
    obtain ⟨_, contributed, found⟩ := List.mem_filterMap.1 mem
    obtain ⟨part, partMem, rfl⟩ := List.mem_map.1 contributed
    exact isFilter_of_predicate part filter (predicate_of_contribution found) (inPaths part partMem)
      (inValues part partMem)
  case sort =>
    intro name mem
    obtain ⟨entry, entryMem, rfl⟩ := List.mem_map.1 mem
    obtain ⟨_, contributed, sorted⟩ := List.mem_flatMap.1 entryMem
    obtain ⟨part, partMem, rfl⟩ := List.mem_map.1 contributed
    exact inPaths part partMem ((names_contribution part).sort (List.mem_map_of_mem sorted))
  case projection =>
    intro projection found
    obtain ⟨_, contributed, found⟩ := List.exists_of_findSome?_eq_some found
    obtain ⟨part, partMem, rfl⟩ := List.mem_map.1 contributed
    exact List.Subset.trans ((names_contribution part).projection _ found) (inPaths part partMem)
  case groupBy =>
    intro aggregation found path mem
    rw [grouped found] at mem
    obtain ⟨columns, columnsMem, key⟩ := List.mem_flatMap.1 mem
    obtain ⟨part, partMem, contributed⟩ := List.mem_filterMap.1 columnsMem
    exact inPaths part partMem ((names_contribution part).groupBy _ contributed key)
  case accumulators =>
    intro aggregation found entry mem
    rw [grouped found] at mem
    obtain ⟨columns, columnsMem, computed⟩ := List.mem_flatMap.1 mem
    obtain ⟨part, partMem, contributed⟩ := List.mem_filterMap.1 columnsMem
    exact ((names_contribution part).accumulators _ contributed _ computed).imp_right
      fun inside path isField => inPaths part partMem (inside path isField)

end Compilation

end ResourceQuery
