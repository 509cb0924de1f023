import ResourceQuery.Proofs.Compilation.Acceptance
import ResourceQuery.Proofs.Compilation.NormalForms

/-!
# What a query is refused for first

The parts of a query are compiled from left to right, and so are the arguments of a condition. The first
fault ends the compilation. A directive or an aggregate function inside of a condition is therefore what a
query is refused for only if the compilation gets to it.

Main statement: this is so exactly when all that is before it compiles, whatever is behind it.
-/

namespace ResourceQuery.Compilation
set_option autoImplicit false
open Fallible

variable {op op' : Operator} {args : List Node} {node part inner : Node} {error : CompilationError}
  {draft : Draft}

/-! ## Refused conditions -/

/-- Why a tree is refused as a condition. -/
def refusal? (node : Node) : Option CompilationError :=
  fault? (predicate node)

/-- What is said of a directive or an aggregate function inside of a condition. -/
def misplaced (op : Operator) : CompilationError :=
  .unsupportedOperator op (if op.role = .directive then .nestedDirective else .nestedAggregate)

theorem misplaced_inj : misplaced op = misplaced op' ↔ op = op' := by
  constructor
  · intro same
    simp only [misplaced, CompilationError.unsupportedOperator.injEq] at same
    exact same.1
  · exact congrArg misplaced

/-- No operator is misplaced because of how it goes with others. -/
theorem not_blames_misplaced : ¬(misplaced op).Blames node := by
  unfold misplaced
  split <;> exact id

theorem refusal?_of_shapesResult (shapes : (Node.apply op args).shapesResult = true) :
    refusal? (.apply op args) = some (misplaced op) := by
  cases op <;> simp [Node.shapesResult, Operator.role] at shapes <;> rfl

/-- A condition of conditions is refused for the first of them that is. -/
theorem refusal?_apply (boolean : op.role = .boolean) (fit : Node.argumentsFit op args = true) :
    refusal? (.apply op args) = args.findSome? refusal? := by
  have arity := (Bool.and_eq_true_iff.1 fit).1
  refine Option.ext fun error => ?_
  change fault? (predicate (.apply op args)) = some error ↔
    args.findSome? (fun arg => fault? (predicate arg)) = some error
  rw [fault?_eq_some, ← mapM_eq_error]
  cases op <;> simp only [Operator.role, reduceCtorEq] at boolean
  case and | or =>
    obtain _ | ⟨first, others⟩ := args
    · simp [Operator.arity, Arity.admits] at arity
    · simp [predicate, predicates_eq_mapM, bind_eq_error]
  case not =>
    obtain ⟨child, rfl⟩ : ∃ child, args = [child] := by
      simpa [Operator.arity, Arity.admits, List.length_eq_one_iff] using arity
    simp [predicate]

/-- The compilation of a condition gets to the other tree: it is the condition itself, or inside of an
argument before which all compile. -/
inductive Reaches (inner : Node) : Node → Prop
  | self : Reaches inner inner
  | argument {op : Operator} {before after : List Node} {arg : Node} (boolean : op.role = .boolean)
      (compiled : ∀ other ∈ before, ∃ filter, predicate other = .ok filter)
      (reaches : Reaches inner arg) : Reaches inner (.apply op (before ++ arg :: after))

/-- What is got to first in a list is the first that is not passed. -/
theorem eq_of_first {Passed : Node → Prop} {before before' after after' : List Node} {a b : Node}
    (passed : ∀ other ∈ before, Passed other) (stops : ¬Passed a)
    (passed' : ∀ other ∈ before', Passed other) (stops' : ¬Passed b)
    (same : before ++ a :: after = before' ++ b :: after') : a = b := by
  induction before generalizing before' with
  | nil =>
    cases before' with
    | nil => exact (List.cons.inj same).1
    | cons first others =>
      obtain ⟨rfl, -⟩ := List.cons.inj same
      exact absurd (passed' a List.mem_cons_self) stops
  | cons first others ih =>
    cases before' with
    | nil =>
      obtain ⟨rfl, -⟩ := List.cons.inj same
      exact absurd (passed first List.mem_cons_self) stops'
    | cons first' others' =>
      exact ih (List.forall_mem_of_forall_mem_cons passed) (List.forall_mem_of_forall_mem_cons passed')
        (List.cons.inj same).2

/-- What is compiled up to a directive or an aggregate function does not compile. -/
theorem not_compiled_of_reaches (reaches : Reaches inner node) (shapes : inner.shapesResult = true) :
    ¬∃ filter, predicate node = .ok filter := by
  induction reaches with
  | self =>
    rintro ⟨filter, compiled⟩
    simp [condition_of_predicate compiled] at shapes
  | @argument op before after arg boolean compiled reaches ih =>
    rintro ⟨filter, whole⟩
    have mem : arg ∈ before ++ arg :: after := by simp
    rcases predicate_apply_eq_ok.1 whole with ⟨filters, -, -, run, -⟩ | ⟨filters, -, -, run, -⟩ |
      ⟨child, filter, -, only, run, -⟩ | ⟨role, -⟩
    · exact ih (exists_mapM_eq_ok.1 ⟨filters, run⟩ arg mem)
    · exact ih (exists_mapM_eq_ok.1 ⟨filters, run⟩ arg mem)
    · obtain rfl : arg = child := List.mem_singleton.1 (only ▸ mem)
      exact ih ⟨filter, run⟩
    · simp [role] at boolean

/-- The compilation of a condition gets to one directive or aggregate function at most. -/
theorem Reaches.unique {inner' : Node} (reaches : Reaches inner node) (shapes : inner.shapesResult = true)
    (reaches' : Reaches inner' node) (shapes' : inner'.shapesResult = true) : inner = inner' := by
  induction reaches with
  | self =>
    cases reaches' with
    | self => rfl
    | argument boolean => simp [Node.shapesResult, boolean] at shapes
  | @argument op before after arg boolean compiled reaches ih =>
    generalize same : Node.apply op (before ++ arg :: after) = whole at reaches'
    cases reaches' with
    | self => simp [← same, Node.shapesResult, boolean] at shapes'
    | argument _ compiled' reaches' =>
      have sameArg := eq_of_first compiled (not_compiled_of_reaches reaches shapes) compiled'
        (not_compiled_of_reaches reaches' shapes') (Node.apply.inj same).2
      exact ih (sameArg ▸ reaches')

/-- A query is refused as a condition for the place of an operator exactly when it is compiled up to the
operator. -/
theorem refusal?_eq_misplaced_iff (plain : op.isConditional = false) (node : Node) (query : node.IsQuery) :
    refusal? node = some (misplaced op) ↔ ∃ args, Reaches (.apply op args) node := by
  induction node using Node.induct with
  | literal | array | field | sortKey => simpa using query.exists_apply
  | apply root args ih =>
    have fit := (Node.isWellKinded_apply.1 query.kinds).1
    cases role : root.role with
    | boolean =>
      rw [refusal?_apply role fit, List.findSome?_eq_some_iff]
      constructor
      · rintro ⟨before, arg, after, rfl, refused, earlier⟩
        have mem : arg ∈ before ++ arg :: after := by simp
        obtain ⟨args, reaches⟩ := (ih arg mem (query.of_mem role mem)).1 refused
        have compiled (other : Node) (otherMem : other ∈ before) : ∃ filter, predicate other = .ok filter :=
          fault?_eq_none.1 (earlier other otherMem)
        exact ⟨args, .argument role compiled reaches⟩
      · rintro ⟨args, reaches⟩
        cases reaches with
        | self => simp [Operator.isConditional, role] at plain
        | @argument _ before after arg _ compiled reaches =>
          have mem : arg ∈ before ++ arg :: after := by simp
          exact ⟨before, arg, after, rfl, (ih arg mem (query.of_mem role mem)).2 ⟨args, reaches⟩,
            fun other otherMem => fault?_eq_none.2 (compiled other otherMem)⟩
    | comparison =>
      constructor
      · intro refused
        have failed : comparison root args = .error (misplaced op) := by
          cases root <;> simp [Operator.role] at role <;>
            simpa [refusal?, predicate, Operator.role] using refused
        exact absurd (blames_of_comparison role query failed) not_blames_misplaced
      · rintro ⟨args, reaches⟩
        cases reaches with
        | self => simp [Operator.isConditional, role] at plain
        | argument boolean => simp [role] at boolean
    | directive | aggregate =>
      have shapes : (Node.apply root args).shapesResult = true := by simp [Node.shapesResult, role]
      rw [refusal?_of_shapesResult shapes, Option.some.injEq, misplaced_inj]
      constructor
      · rintro rfl
        exact ⟨args, .self⟩
      · rintro ⟨args, reaches⟩
        cases reaches with
        | self => rfl
        | argument boolean => simp [role] at boolean

/-! ## Refused queries -/

theorem add_condition_eq_error (condition : part.shapesResult = false) :
    draft.add part = .error error ↔ refusal? part = some error := by
  simp [Draft.add_condition condition, Draft.addPredicate, refusal?]

/-- A directive or an aggregate function among the parts of a query is not misplaced. -/
theorem add_ne_misplaced (keyed : draft.IsKeyed) (query : part.IsQuery) (shapes : part.shapesResult = true) :
    draft.add part ≠ .error (misplaced op) := by
  intro failed
  obtain ⟨root, args, rfl⟩ := query.exists_apply
  cases role : root.role with
  | directive => exact not_blames_misplaced (blames_of_directive role query failed)
  | aggregate =>
    rw [Draft.add_function role] at failed
    have fit := (Node.isWellKinded_apply.1 query.kinds).1
    exact not_blames_misplaced (blames_of_addFunction keyed role fit failed)
  | boolean | comparison => simp [Node.shapesResult, role] at shapes

/-- The compilation of a tree gets to the part: those before it compile, by themselves and beside each
other. -/
def GetsTo (node part : Node) : Prop :=
  ∃ before after, partsOf node = before ++ part :: after ∧
    (∀ earlier ∈ before, IsSound earlier) ∧ before.Pairwise Apart

theorem GetsTo.mem (turn : GetsTo node part) : part ∈ partsOf node := by
  obtain ⟨before, after, split, -⟩ := turn
  simp [split]

/-- The compilation of a tree gets to the other one, inside of a condition. -/
def ComesFirst (node inner : Node) : Prop :=
  ∃ part, GetsTo node part ∧ part.shapesResult = false ∧ Reaches inner part

/-- The compilation of a tree gets to one directive or aggregate function inside of a condition at most. -/
theorem ComesFirst.unique {inner' : Node} (first : ComesFirst node inner) (shapes : inner.shapesResult = true)
    (first' : ComesFirst node inner') (shapes' : inner'.shapesResult = true) : inner = inner' := by
  obtain ⟨part, ⟨before, after, split, sound, -⟩, condition, reaches⟩ := first
  obtain ⟨part', ⟨before', after', split', sound', -⟩, condition', reaches'⟩ := first'
  have unsound : ¬IsSound part := fun isSound =>
    not_compiled_of_reaches reaches shapes (isSound.exists_filter condition)
  have unsound' : ¬IsSound part' := fun isSound =>
    not_compiled_of_reaches reaches' shapes' (isSound.exists_filter condition')
  obtain rfl : part = part' := eq_of_first sound unsound sound' unsound' (split.symm.trans split')
  exact reaches.unique shapes reaches' shapes'

/-- A query is refused for the place of a directive or an aggregate function exactly when the compilation
gets to it inside of a condition. -/
theorem compile_eq_misplaced_iff (plain : op.isConditional = false) (query : node.IsQuery) :
    compile node = .error (misplaced op) ↔ ∃ args, ComesFirst node (.apply op args) := by
  have queries := (parts_of_query query).2
  rw [compile_eq_error query, foldlM_eq_error]
  constructor
  · rintro ⟨before, part, after, draft, split, run, failed⟩
    have mem : part ∈ partsOf node := by simp [split]
    have start : Draft.empty.IsKeyed := nofun
    have keyed : draft.IsKeyed := invariant_of_foldlM Draft.IsKeyed start
      (fun _ _ _ _ keyed taken => keyed_of_added keyed (Draft.add_eq_ok.1 taken)) run
    have condition : part.shapesResult = false :=
      Bool.eq_false_iff.2 fun shapes => add_ne_misplaced keyed (queries part mem) shapes failed
    rw [add_condition_eq_error condition, refusal?_eq_misplaced_iff plain part (queries part mem)] at failed
    obtain ⟨args, reaches⟩ := failed
    obtain ⟨sound, apart, -⟩ := foldlM_add_eq_ok.1 run
    exact ⟨args, part, ⟨before, after, split, sound, apart⟩, condition, reaches⟩
  · rintro ⟨args, part, turn, condition, reaches⟩
    obtain ⟨before, after, split, sound, apart⟩ := id turn
    refine ⟨before, part, after, _, split, foldlM_add_eq_ok.2 ⟨sound, apart, rfl⟩, ?_⟩
    rw [add_condition_eq_error condition, refusal?_eq_misplaced_iff plain part (queries part turn.mem)]
    exact ⟨args, reaches⟩

end ResourceQuery.Compilation
