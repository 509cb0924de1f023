import ResourceQuery.Proofs.Compilation.Steps
import ResourceQuery.Proofs.Resolution.Kinds

/-!
# Why a query is refused by the compiler

A query that the parser returns is well kinded, and the compiler checks its shape once more. The two
sets of checks agree: of a query the compiler never says that its shape is wrong. What it refuses is
an operator or a field path of the query, each where the store has no use for it.
-/

namespace ResourceQuery
set_option autoImplicit false
open Fallible

namespace CompilationError

/-- The error blames an operator or a field path of the tree for itself: it is given twice, does
not go with another one, or has no use in the store. -/
def Blames (node : Node) : CompilationError → Prop
  | .unsupportedOperator op .projectionWithAggregation | .duplicateDirective op =>
    op ∈ node.operators
  | .unsupportedField path _ => path ∈ node.paths
  | _ => False

/-- The error blames an operator of the tree for its place inside of a condition. -/
def Misplaces (node : Node) : CompilationError → Prop
  | .unsupportedOperator op .nestedDirective | .unsupportedOperator op .nestedAggregate =>
    op ∈ node.operators
  | _ => False

/-- The error is about an operator or a field path that occurs in the tree, and not about the shape
of the tree. -/
def Concerns (node : Node) (error : CompilationError) : Prop :=
  error.Blames node ∨ error.Misplaces node

variable {error : CompilationError} {node other : Node} {op : Operator} {args : List Node}

theorem Blames.mono (blames : error.Blames node) (operators : node.operators ⊆ other.operators)
    (paths : node.paths ⊆ other.paths) : error.Blames other := by
  unfold Blames at blames ⊢
  split at blames
  · exact operators blames
  · exact operators blames
  · exact paths blames
  · exact blames.elim

/-- What an error concerns it concerns in any tree with the same operators and paths. -/
theorem Concerns.mono (concerns : error.Concerns node)
    (operators : node.operators ⊆ other.operators) (paths : node.paths ⊆ other.paths) :
    error.Concerns other := by
  refine concerns.imp (fun blames => blames.mono operators paths) fun misplaces => ?_
  unfold Misplaces at misplaces ⊢
  split at misplaces
  · exact operators misplaces
  · exact operators misplaces
  · exact misplaces.elim

/-- The operators and paths of an argument are operators and paths of the application. -/
theorem subset_of_mem (mem : node ∈ args) :
    node.operators ⊆ (Node.apply op args).operators ∧
      node.paths ⊆ (Node.apply op args).paths := by
  rw [Node.operators_apply, Node.paths_apply]
  exact ⟨fun _ found => List.mem_cons_of_mem _ (List.mem_flatMap.2 ⟨node, mem, found⟩),
    fun _ found => List.mem_flatMap.2 ⟨node, mem, found⟩⟩

theorem Blames.apply (blames : error.Blames node) (mem : node ∈ args) :
    error.Blames (.apply op args) :=
  blames.mono (subset_of_mem mem).1 (subset_of_mem mem).2

theorem Concerns.apply (concerns : error.Concerns node) (mem : node ∈ args) :
    error.Concerns (.apply op args) :=
  concerns.mono (subset_of_mem mem).1 (subset_of_mem mem).2

/-- An error that concerns a tree is about no shape, and its subject occurs in the tree. -/
theorem Concerns.subject (concerns : error.Concerns node) :
    (∀ op, error ≠ .emptyArguments op) ∧ (∀ part fault, error ≠ .malformedNode part fault) ∧
      ((∃ op ∈ node.operators, error.subject = op.name) ∨ error.subject ∈ node.paths) := by
  cases error with
  | unsupportedOperator op fault =>
    have mem : op ∈ node.operators := by
      cases fault <;> simpa only [Concerns, Blames, Misplaces, or_false, false_or] using concerns
    exact ⟨by simp, by simp, .inl ⟨op, mem, rfl⟩⟩
  | duplicateDirective op =>
    have mem : op ∈ node.operators := by
      simpa only [Concerns, Blames, Misplaces, or_false] using concerns
    exact ⟨by simp, by simp, .inl ⟨op, mem, rfl⟩⟩
  | unsupportedField path fault =>
    have mem : path ∈ node.paths := by
      simpa only [Concerns, Blames, Misplaces, or_false] using concerns
    exact ⟨by simp, by simp, .inr mem⟩
  | emptyArguments | malformedNode =>
    simp only [Concerns, Blames, Misplaces, or_false] at concerns

end CompilationError

/-- Every accumulator stands under its own output name. -/
def Aggregation.IsKeyed (aggregation : Aggregation) : Prop :=
  ∀ entry ∈ aggregation.accumulators, entry.1 = entry.2.resultName

/-- The output name of a fold has an underscore in it, so only counting has the name of counting. -/
theorem Accumulator.eq_count_of_resultName {accumulator : Accumulator}
    (same : accumulator.resultName = Accumulator.count.resultName) : accumulator = .count := by
  cases accumulator with
  | count => rfl
  | fold function field =>
    have chars := congrArg String.toList same
    cases function <;> simp [resultName, Fold.name] at chars

namespace Compilation

variable {error : CompilationError} {node : Node} {op : Operator} {args : List Node}

/-- The operator at the root occurs in the tree. -/
theorem mem_operators_root : op ∈ (Node.apply op args).operators := by
  rw [Node.operators_apply]
  exact List.mem_cons_self

/-! ## Fields and values -/

theorem checkedPath_eq_error {path : String} (failed : checkedPath path = .error error) :
    ∃ fault, error = .unsupportedField path fault := by
  unfold checkedPath at failed
  split at failed
  · next fault _ => exact ⟨fault, (Except.error.inj failed).symm⟩
  · simp at failed

theorem blames_of_fieldArgument (isField : node.isField = true)
    (failed : fieldArgument op node = .error error) : error.Blames node := by
  cases node <;> simp only [Node.isField, Bool.false_eq_true] at isField
  obtain ⟨fault, rfl⟩ := checkedPath_eq_error failed
  exact List.mem_singleton.2 rfl

/-- A literal that is finite has a JSON value. -/
theorem literal_ne_error {value : Literal} (finite : value.isFinite = true) :
    literal op value ≠ .error error := by
  cases value <;> simp_all [literal, Literal.isFinite]

/-- A value that a comparison can compare a field with has a JSON value. -/
theorem operand_ne_error (fits : node.isOperandOf op = true)
    (finite : ∀ value ∈ node.literals, value.isFinite = true) : operand op node ≠ .error error := by
  cases node <;> simp only [Node.isOperandOf, Bool.false_eq_true] at fits
  case literal value =>
    have known : ∀ error, literal op value ≠ .error error :=
      fun _ => literal_ne_error (finite value (by simp))
    unfold operand
    split
    · simp [known]
    · exact known error
  case array items =>
    intro failed
    simp only [operand, fits, if_true, bind_pure_eq_error] at failed
    obtain ⟨value, mem, failed⟩ := mem_of_mapM_eq_error failed
    exact literal_ne_error (finite value (by simpa using mem)) failed

/-! ## Predicates -/

theorem blames_of_comparison (role : op.role = .comparison) (query : Node.IsQuery (.apply op args))
    (failed : comparison op args = .error error) : error.Blames (.apply op args) := by
  have fit := (Node.isWellKinded_apply.1 query.kinds).1
  obtain ⟨path, value, rfl, isField, isOperand⟩ := Node.operands_of_fit role fit
  simp only [comparison, bind_eq_error, pure_ne_error, and_false, exists_false, or_false] at failed
  rcases failed with failed | ⟨_, _, failed⟩
  · exact (blames_of_fieldArgument isField failed).apply List.mem_cons_self
  · refine (operand_ne_error isOperand (fun literal mem => query.finite literal ?_) failed).elim
    simp [mem]

/-- A condition of a query that does not compile holds an operator or a path that the store has no
use for there. -/
theorem concerns_of_predicate (node : Node) (query : node.IsQuery) :
    ∀ error, predicate node = .error error → error.Concerns node := by
  induction node using Node.induct with
  | literal | array | field | sortKey => simpa using query.exists_apply
  | apply op args ih =>
    intro error failed
    have fit := (Node.isWellKinded_apply.1 query.kinds).1
    have each (boolean : op.role = .boolean) (failed : args.mapM predicate = .error error) :
        error.Concerns (.apply op args) := by
      obtain ⟨arg, mem, failed⟩ := mem_of_mapM_eq_error failed
      exact (ih arg mem (query.of_mem boolean mem) error failed).apply mem
    cases op
    case and | or =>
      obtain _ | ⟨first, others⟩ := args
      · simp [Node.argumentsFit, Operator.arity, Arity.admits] at fit
      · simp only [predicate, List.isEmpty_cons, Bool.false_eq_true, if_false, predicates_eq_mapM,
          bind_pure_eq_error] at failed
        exact each rfl failed
    case not =>
      obtain _ | ⟨child, _ | ⟨second, others⟩⟩ := args
      · simp [Node.argumentsFit, Operator.arity, Arity.admits] at fit
      · simp only [predicate, bind_pure_eq_error] at failed
        exact (ih child List.mem_cons_self (query.of_mem rfl List.mem_cons_self) error
          failed).apply List.mem_cons_self
      · simp [Node.argumentsFit, Operator.arity, Arity.admits] at fit
    case eq | ne | lt | le | gt | ge | «in» | contains | excludes =>
      simp only [predicate, Operator.role] at failed
      exact .inl (blames_of_comparison rfl query failed)
    all_goals
      simp only [predicate, Operator.role, Except.error.injEq] at failed
      subst failed
      exact .inr mem_operators_root

/-! ## Sorting and paging -/

theorem blames_of_addSortKey {sort : Fields Int} (isSortKey : node.isSortKey = true)
    (failed : addSortKey sort node = .error error) : error.Blames node := by
  cases node <;> simp only [Node.isSortKey, Bool.false_eq_true] at isSortKey
  simp only [addSortKey, bind_eq_error] at failed
  rcases failed with failed | ⟨path, checked, failed⟩
  · obtain ⟨fault, rfl⟩ := checkedPath_eq_error failed
    exact List.mem_singleton.2 rfl
  · obtain ⟨-, rfl⟩ := checkedPath_eq_ok.1 checked
    split at failed
    · obtain rfl := throw_eq_error.1 failed
      exact List.mem_singleton.2 rfl
    · simp at failed

theorem countArgument_ne_error (isCount : node.isCount = true) :
    countArgument op node ≠ .error error := by
  obtain _ | value | _ | _ | _ := node <;> simp only [Node.isCount, Bool.false_eq_true] at isCount
  cases value <;> simp_all [countArgument]

/-! ## Aggregation -/

/-- An accumulator counts, or it folds the field that is the only argument. -/
theorem accumulator_eq_ok {added : Accumulator} (read : accumulator op args = .ok added) :
    added = .count ∨ ∃ function path, added = .fold function path ∧ args = [.field path] := by
  unfold accumulator at read
  split at read
  · exact .inl (Except.ok.inj read).symm
  · simp at read
  · next function field _ =>
    simp only [bind_eq_ok, pure_eq_ok, fieldArgument_eq_ok] at read
    obtain ⟨path, ⟨rfl, -⟩, rfl⟩ := read
    exact .inr ⟨function, path, rfl, rfl⟩
  · simp at read
  · simp at read

theorem keyed_of_accumulate {aggregation next : Aggregation} (keyed : aggregation.IsKeyed)
    (read : accumulate aggregation op args = .ok next) : next.IsKeyed := by
  simp only [accumulate, bind_eq_ok] at read
  obtain ⟨added, _, read⟩ := read
  split at read
  · obtain rfl := pure_eq_ok.1 read
    intro entry mem
    rcases Fields.mem_of_mem_insert mem with rfl | mem
    · rfl
    · exact keyed entry mem
  · split at read <;> simp at read

theorem keyed_of_addAggregateArgument {aggregation next : Aggregation}
    (keyed : aggregation.IsKeyed) (read : addAggregateArgument aggregation node = .ok next) :
    next.IsKeyed := by
  cases node <;> simp only [addAggregateArgument, unexpected, reduceCtorEq] at read
  case apply op args =>
    split at read
    · exact keyed_of_accumulate keyed read
    · simp at read
  case field path =>
    simp only [addGroupKey, bind_eq_ok] at read
    obtain ⟨_, _, read⟩ := read
    split at read
    · simp at read
    · obtain rfl := pure_eq_ok.1 read
      exact keyed

theorem blames_of_accumulator (role : op.role = .aggregate)
    (fit : Node.argumentsFit op args = true) (failed : accumulator op args = .error error) :
    error.Blames (.apply op args) := by
  obtain ⟨rfl, rfl⟩ | ⟨notCount, field, rfl, isField⟩ := Node.aggregated_of_fit role fit
  · simp [accumulator, foldOf?] at failed
  · obtain ⟨function, isFold⟩ : ∃ function, foldOf? op = some function := by
      cases op <;> simp_all [Operator.role, foldOf?]
    simp only [accumulator, isFold, bind_pure_eq_error] at failed
    exact (blames_of_fieldArgument isField failed).apply List.mem_cons_self

/-- An accumulator that cannot be added is a duplicate, or its output name is taken by one of
another field. Only folds of fields can be in each other's way like this. -/
theorem blames_of_accumulate {aggregation : Aggregation} (role : op.role = .aggregate)
    (fit : Node.argumentsFit op args = true) (keyed : aggregation.IsKeyed)
    (failed : accumulate aggregation op args = .error error) : error.Blames (.apply op args) := by
  simp only [accumulate, bind_eq_error] at failed
  rcases failed with failed | ⟨added, read, failed⟩
  · exact blames_of_accumulator role fit failed
  split at failed
  · simp at failed
  · next existing found =>
    split at failed
    · obtain rfl := throw_eq_error.1 failed
      exact mem_operators_root
    · next distinct =>
      obtain rfl := throw_eq_error.1 failed
      have sameName : added.resultName = existing.resultName :=
        keyed _ (Fields.mem_of_get?_eq_some found)
      rcases accumulator_eq_ok read with rfl | ⟨function, path, rfl, rfl⟩
      · exact absurd (Accumulator.eq_count_of_resultName sameName.symm) distinct
      · exact List.mem_singleton.2 rfl

theorem blames_of_addAggregateArgument {aggregation : Aggregation} (keyed : aggregation.IsKeyed)
    (kind : (node.isField || node.isAggregate) = true) (fit : node.allFit = true)
    (failed : addAggregateArgument aggregation node = .error error) : error.Blames node := by
  cases node <;> simp only [Node.isField, Node.isAggregate, Bool.or_self, Bool.false_eq_true,
    Bool.false_or, Bool.true_or, beq_iff_eq] at kind
  case apply op args =>
    simp only [addAggregateArgument, kind, if_true] at failed
    rw [Node.allFit_apply, Bool.and_eq_true] at fit
    exact blames_of_accumulate kind fit.1 keyed failed
  case field path =>
    simp only [addAggregateArgument, addGroupKey, bind_eq_error] at failed
    rcases failed with failed | ⟨found, checked, failed⟩
    · obtain ⟨fault, rfl⟩ := checkedPath_eq_error failed
      exact List.mem_singleton.2 rfl
    · obtain ⟨-, rfl⟩ := checkedPath_eq_ok.1 checked
      split at failed
      · obtain rfl := throw_eq_error.1 failed
        exact List.mem_singleton.2 rfl
      · simp at failed

/-! ## Parts -/

/-- The aggregation of a draft, if there is one, has its accumulators under their own names. -/
def Draft.IsKeyed (draft : Draft) : Prop :=
  ∀ aggregation ∈ draft.query.aggregation, aggregation.IsKeyed

theorem isKeyed_empty : Aggregation.empty.IsKeyed := nofun

/-- Every way of taking a part keeps accumulators under their own names. -/
theorem keyed_of_added {draft next : Draft} (keyed : draft.IsKeyed)
    (added : Added draft node next) : next.IsKeyed := by
  cases added with
  | sort | projection | limit | limitAndSkip | distinct | predicate => exact keyed
  | aggregate fresh unprojected nonempty read =>
    rintro aggregation ⟨⟩
    exact invariant_of_foldlM Aggregation.IsKeyed isKeyed_empty
      (fun _ _ _ _ keyed read => keyed_of_addAggregateArgument keyed read) read
  | function role alone unprojected read =>
    rintro aggregation ⟨⟩
    refine keyed_of_accumulate ?_ read
    cases present : draft.query.aggregation with
    | none => exact isKeyed_empty
    | some aggregation => exact keyed aggregation present

theorem blames_of_addFunction {draft : Draft} (keyed : draft.IsKeyed)
    (role : op.role = .aggregate) (fit : Node.argumentsFit op args = true)
    (failed : draft.addFunction op args = .error error) : error.Blames (.apply op args) := by
  simp only [Draft.addFunction, guard_eq_error] at failed
  rcases failed with ⟨-, rfl⟩ | ⟨-, ⟨-, rfl⟩ | ⟨-, failed⟩⟩
  · exact mem_operators_root
  · exact mem_operators_root
  · simp only [bind_pure_eq_error] at failed
    refine blames_of_accumulate role fit ?_ failed
    cases present : draft.query.aggregation with
    | none => exact isKeyed_empty
    | some aggregation => exact keyed aggregation present

/-- A directive that cannot be taken is given twice, does not go with another one, or names a path
that the store has no use for. -/
theorem blames_of_directive {draft : Draft} (role : op.role = .directive)
    (query : Node.IsQuery (.apply op args)) (failed : draft.add (.apply op args) = .error error) :
    error.Blames (.apply op args) := by
  obtain ⟨fit, below⟩ := Node.isWellKinded_apply.1 query.kinds
  have arity := (Bool.and_eq_true_iff.1 fit).1
  cases op <;> simp only [Operator.role, reduceCtorEq] at role <;>
    simp only [Node.argumentsFit, Bool.and_eq_true, List.all_eq_true] at fit
  case sort =>
    simp only [Draft.add, Draft.addSort, guard_eq_error] at failed
    rcases failed with ⟨-, rfl⟩ | ⟨-, ⟨empty, -⟩ | ⟨-, failed⟩⟩
    · exact mem_operators_root
    · simp [List.isEmpty_iff.1 empty, Operator.arity, Arity.admits] at arity
    · simp only [bind_pure_eq_error] at failed
      obtain ⟨sort, -, key, mem, failed⟩ :=
        exists_of_foldlM_eq_error (fun _ => True) trivial (fun _ _ _ _ _ _ => trivial) failed
      exact (blames_of_addSortKey (fit.2 key mem) failed).apply mem
  case select | values =>
    simp only [Draft.add, Draft.addProjection, guard_eq_error] at failed
    rcases failed with ⟨-, rfl⟩ | ⟨-, ⟨-, rfl⟩ | ⟨-, ⟨empty, -⟩ | ⟨-, failed⟩⟩⟩
    · exact mem_operators_root
    · exact mem_operators_root
    · simp [List.isEmpty_iff.1 empty, Operator.arity, Arity.admits] at arity
    · simp only [bind_pure_eq_error] at failed
      obtain ⟨field, mem, failed⟩ := mem_of_mapM_eq_error failed
      exact (blames_of_fieldArgument (fit.2 field mem) failed).apply mem
  case limit =>
    simp only [Draft.add, Draft.addLimit, guard_eq_error] at failed
    rcases failed with ⟨-, rfl⟩ | ⟨-, failed⟩
    · exact mem_operators_root
    obtain _ | ⟨count, _ | ⟨start, _ | ⟨third, others⟩⟩⟩ := args
    · simp [Operator.arity, Arity.admits] at arity
    · simp [countArgument_ne_error (fit.2 count (by simp))] at failed
    · simp [bind_eq_error, countArgument_ne_error (fit.2 count (by simp)),
        countArgument_ne_error (fit.2 start (by simp))] at failed
    · simp [Operator.arity, Arity.admits] at arity
  case distinct =>
    obtain rfl : args = [] := by simpa [Operator.arity, Arity.admits] using arity
    simp only [Draft.add, Draft.addDistinct, guard_eq_error] at failed
    rcases failed with ⟨-, rfl⟩ | ⟨-, failed⟩
    · exact mem_operators_root
    · simp at failed
  case aggregate =>
    simp only [Draft.add, Draft.addAggregate, guard_eq_error] at failed
    rcases failed with ⟨-, rfl⟩ | ⟨-, ⟨-, rfl⟩ | ⟨-, ⟨empty, -⟩ | ⟨-, failed⟩⟩⟩
    · exact mem_operators_root
    · exact mem_operators_root
    · simp [List.isEmpty_iff.1 empty, Operator.arity, Arity.admits] at arity
    · simp only [bind_pure_eq_error] at failed
      obtain ⟨aggregation, keyed, arg, mem, failed⟩ :=
        exists_of_foldlM_eq_error Aggregation.IsKeyed isKeyed_empty
          (fun _ _ _ _ keyed read => keyed_of_addAggregateArgument keyed read) failed
      exact (blames_of_addAggregateArgument keyed (fit.2 arg mem) (below arg mem) failed).apply mem

/-- A part of a query that cannot be taken holds an operator or a path that is to blame. -/
theorem concerns_of_add {draft : Draft} (keyed : draft.IsKeyed) (query : node.IsQuery)
    (failed : draft.add node = .error error) : error.Concerns node := by
  obtain ⟨op, args, rfl⟩ := query.exists_apply
  cases role : op.role with
  | directive => exact .inl (blames_of_directive role query failed)
  | aggregate =>
    rw [Draft.add_function role] at failed
    exact .inl (blames_of_addFunction keyed role (Node.isWellKinded_apply.1 query.kinds).1 failed)
  | boolean | comparison =>
    rw [Draft.add_condition (by simp [Node.shapesResult, role])] at failed
    simp only [Draft.addPredicate, bind_pure_eq_error] at failed
    exact concerns_of_predicate _ query error failed

/-- A well-kinded tree has parts, and they are well kinded. -/
theorem parts_of_isWellKinded (kinds : node.isWellKinded = true) :
    parts node = .ok (partsOf node) ∧ ∀ part ∈ partsOf node, part.isWellKinded = true := by
  obtain ⟨op, args, rfl⟩ := Node.exists_apply_of_isWellKinded kinds
  have fit := (Node.isWellKinded_apply.1 kinds).1
  refine ⟨parts_eq_ok.2 ⟨rfl, ?_, op, args, rfl⟩, ?_⟩
  · cases op
    case and =>
      rintro rfl
      simp [Node.argumentsFit, Operator.arity, Arity.admits] at fit
    all_goals exact List.cons_ne_nil _ _
  · cases op
    case and => exact fun part mem => Node.isWellKinded_of_mem kinds rfl mem
    all_goals exact fun part mem => List.mem_singleton.1 mem ▸ kinds

/-- The parts of a query are queries, and there is at least one. -/
theorem parts_of_query (query : node.IsQuery) :
    parts node = .ok (partsOf node) ∧ ∀ part ∈ partsOf node, part.IsQuery := by
  obtain ⟨found, kinds⟩ := parts_of_isWellKinded query.kinds
  refine ⟨found, fun part mem => ⟨kinds part mem, fun path pathMem => query.named path ?_,
    fun value valueMem => query.finite value ?_⟩⟩
  · exact flatMap_paths_partsOf node ▸ List.mem_flatMap.2 ⟨part, mem, pathMem⟩
  · exact flatMap_literals_partsOf node ▸ List.mem_flatMap.2 ⟨part, mem, valueMem⟩

/-- What concerns a part concerns the whole. -/
theorem concerns_of_part {part : Node} (mem : part ∈ partsOf node)
    (concerns : error.Concerns part) : error.Concerns node := by
  unfold partsOf at mem
  split at mem
  · exact concerns.apply mem
  · exact List.mem_singleton.1 mem ▸ concerns

/-- A query does not compile where its parts cannot be taken one after the other. -/
theorem compile_eq_error (query : node.IsQuery) :
    compile node = .error error ↔ (partsOf node).foldlM Draft.add .empty = .error error := by
  simp [compile, (parts_of_query query).1, bind_eq_error]

/-- A query that does not compile holds an operator or a path that is to blame. -/
theorem concerns_of_compile (query : node.IsQuery) (failed : compile node = .error error) :
    error.Concerns node := by
  have start : Draft.empty.IsKeyed := nofun
  obtain ⟨draft, keyed, part, mem, failed⟩ :=
    exists_of_foldlM_eq_error Draft.IsKeyed start
      (fun _ _ _ _ keyed taken => keyed_of_added keyed (Draft.add_eq_ok.1 taken))
      ((compile_eq_error query).1 failed)
  exact concerns_of_part mem (concerns_of_add keyed ((parts_of_query query).2 part mem) failed)

/-- A directive among the parts of a query is taken as a directive: it is never refused as one that
stands inside of a condition. -/
theorem add_directive_ne_nested {draft : Draft} (role : op.role = .directive)
    (query : Node.IsQuery (.apply op args)) :
    draft.add (.apply op args) ≠ .error (.unsupportedOperator op .nestedDirective) :=
  fun failed => (blames_of_directive role query failed).elim

/-- **Main.** Whatever is read from a text is a query, and so is its normal form. Neither of them is
refused for its shape or for a directive among its parts; if one does not compile, the subject of the
error is the name of an operator or a field path that occurs in what was read. -/
theorem isQuery_and_subject_of_parseWithin {maxDepth : Nat} {text : String}
    (parsed : parseWithin maxDepth text = .ok node) :
    node.IsQuery ∧ ∀ tree, tree = node ∨ tree = node.normalize → tree.IsQuery ∧
      (∀ draft op args, .apply op args ∈ partsOf tree → op.role = .directive →
        Draft.add draft (.apply op args) ≠ .error (.unsupportedOperator op .nestedDirective)) ∧
      ∀ error, compile tree = .error error →
        (∀ op, error ≠ .emptyArguments op) ∧ (∀ part fault, error ≠ .malformedNode part fault) ∧
          ((∃ op ∈ node.operators, error.subject = op.name) ∨ error.subject ∈ node.paths) := by
  have query := isQuery_of_parseWithin parsed
  refine ⟨query, fun tree same => ?_⟩
  have query' : tree.IsQuery := by
    rcases same with rfl | rfl
    · exact query
    · exact query.normalize
  have operators : tree.operators ⊆ node.operators := by
    rcases same with rfl | rfl
    · exact List.Subset.refl _
    · exact node.operators_normalize_subset
  have paths : tree.paths ⊆ node.paths := by
    rcases same with rfl | rfl
    · exact List.Subset.refl _
    · exact node.paths_normalize ▸ List.Subset.refl _
  refine ⟨query', fun draft op args mem role => ?_, fun error failed => ?_⟩
  · exact add_directive_ne_nested role ((parts_of_query query').2 _ mem)
  · exact ((concerns_of_compile query' failed).mono operators paths).subject

/-- A query that sorts twice is refused, and the error names the operator. -/
theorem subject_of_second_sort :
    ∃ node, parseWithin 1 "sort(+a.b)&sort(-c)" = .ok node ∧
      ∃ error, compile node = .error error ∧
        ((∃ op ∈ node.operators, error.subject = op.name) ∨ error.subject ∈ node.paths) := by
  have parsed : parseWithin 1 "sort(+a.b)&sort(-c)" = .ok (.apply .and
      [.apply .sort [.sortKey "a.b" .ascending], .apply .sort [.sortKey "c" .descending]]) := by
    decide +kernel
  have failed : compile (.apply .and [.apply .sort [.sortKey "a.b" .ascending],
      .apply .sort [.sortKey "c" .descending]]) = .error (.duplicateDirective .sort) := by
    decide +kernel
  have subject := ((isQuery_and_subject_of_parseWithin parsed).2 _ (.inl rfl)).2.2 _ failed
  exact ⟨_, parsed, _, failed, subject.2.2⟩

end Compilation
end ResourceQuery
