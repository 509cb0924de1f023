import Mathlib.Logic.Relation
import ResourceQuery.Proofs.Node.Essence

/-!
# One tree for many

`Collapses` takes a conjunction or disjunction of a single argument away, wherever it stands in a tree. Trees
that differ in such nodes alone have one normal form: normalization is nothing but steps of this kind, and no
such step changes what it leads to.

Main statement: normalization leaves a tree without such nodes, changes no other tree, and takes two trees to
one exactly if they differ in such nodes alone.
-/

namespace ResourceQuery.Node
set_option autoImplicit false
open Relation

/-! ## Steps -/

/-- Somewhere in the tree a conjunction or disjunction of a single argument is replaced by its argument. -/
inductive Collapses : Node → Node → Prop
  | conjunction (node : Node) : Collapses (.apply .and [node]) node
  | disjunction (node : Node) : Collapses (.apply .or [node]) node
  | argument {node node' : Node} (op : Operator) (before after : List Node) (below : Collapses node node') :
      Collapses (.apply op (before ++ node :: after)) (.apply op (before ++ node' :: after))

variable {op : Operator} {a b node : Node}

/-- A step leads to the same normal form. -/
theorem Collapses.normalize_eq (step : Collapses a b) : a.normalize = b.normalize := by
  induction step with
  | conjunction | disjunction =>
    rw [normalize_apply]
    rfl
  | argument op before after _ ih =>
    simp only [normalize_apply, List.map_append, List.map_cons, ih]

/-- Trees that steps in either direction join have the same normal form. -/
theorem normalize_eq_of_eqvGen (joined : EqvGen Collapses a b) : a.normalize = b.normalize := by
  induction joined with
  | rel a b step => exact step.normalize_eq
  | refl a => rfl
  | symm a b _ ih => exact ih.symm
  | trans a b c _ _ first second => exact first.trans second

/-! ## Normalization as steps -/

/-- Steps below an argument are steps of the application. -/
theorem reflTransGen_argument (op : Operator) (before after : List Node)
    (steps : ReflTransGen Collapses a b) :
    ReflTransGen Collapses (.apply op (before ++ a :: after)) (.apply op (before ++ b :: after)) := by
  induction steps with
  | refl => exact .refl
  | tail _ step ih => exact ih.tail (.argument op before after step)

/-- The arguments of an application are put in normal form one after the other. -/
theorem reflTransGen_arguments (op : Operator) (before args : List Node)
    (each : ∀ arg ∈ args, ReflTransGen Collapses arg arg.normalize) :
    ReflTransGen Collapses (.apply op (before ++ args)) (.apply op (before ++ args.map normalize)) := by
  induction args generalizing before with
  | nil => exact .refl
  | cons arg args ih =>
    obtain ⟨first, others⟩ := List.forall_mem_cons.1 each
    have later := ih (before ++ [arg.normalize]) others
    simp only [List.append_assoc, List.singleton_append] at later
    exact (reflTransGen_argument op before args first).trans later

/-- An application collapses in one step or not at all. -/
theorem reflTransGen_collapse (op : Operator) (args : List Node) :
    ReflTransGen Collapses (.apply op args) (collapse op args) := by
  rcases collapse_cases op args with ⟨transparent, only⟩ | same
  · generalize collapse op args = child at only ⊢
    subst only
    cases op <;> simp [isTransparent] at transparent
    · exact .single (.conjunction child)
    · exact .single (.disjunction child)
  · rw [same]

/-- Steps lead from a tree to its normal form. -/
theorem reflTransGen_normalize (node : Node) : ReflTransGen Collapses node node.normalize := by
  induction node using induct with
  | apply op args ih =>
    rw [normalize_apply]
    exact (reflTransGen_arguments op [] args ih).trans (reflTransGen_collapse op _)
  | literal | array | field | sortKey => exact .refl

/-- Trees have the same normal form exactly if steps in either direction join them. -/
theorem normalize_eq_iff_eqvGen : a.normalize = b.normalize ↔ EqvGen Collapses a b := by
  have joined (node : Node) : EqvGen Collapses node node.normalize :=
    EqvGen.reflTransGen_le_eqvGen Collapses node node.normalize (reflTransGen_normalize node)
  refine ⟨fun same => ?_, normalize_eq_of_eqvGen⟩
  exact .trans a a.normalize b (joined a) (same ▸ .symm b b.normalize (joined b))

/-! ## Equality of numbers -/

theorem allNormal_of_equalLists {as bs : List Node}
    (each : ∀ a ∈ as, ∀ b : Node, a.equals b = true → a.isNormal = b.isNormal)
    (same : equalLists as bs = true) : as.length = bs.length ∧ allNormal as = allNormal bs := by
  induction as generalizing bs with
  | nil =>
    cases bs with
    | nil => exact ⟨rfl, rfl⟩
    | cons => simp [equalLists] at same
  | cons a as ih =>
    cases bs with
    | nil => simp [equalLists] at same
    | cons b bs =>
      obtain ⟨first, others⟩ := List.forall_mem_cons.1 each
      simp only [equalLists, Bool.and_eq_true] at same
      obtain ⟨length, normal⟩ := ih others same.2
      exact ⟨congrArg (· + 1) length, by rw [allNormal, allNormal, first b same.1, normal]⟩

/-- Trees that are equal when numbers are compared as such have their operators in the same places. -/
theorem isNormal_of_equals (a : Node) : ∀ b : Node, a.equals b = true → a.isNormal = b.isNormal := by
  induction a using induct with
  | apply op args ih =>
    intro b same
    cases b with
    | apply op' args' =>
      simp only [equals, Bool.and_eq_true, beq_iff_eq] at same
      obtain ⟨rfl, sameArgs⟩ := same
      obtain ⟨length, normal⟩ := allNormal_of_equalLists ih sameArgs
      rw [isNormal, isNormal, length, normal]
    | literal | array | field | sortKey => simp [equals] at same
  | literal | array | field | sortKey =>
    intro b same
    cases b <;> first | rfl | simp [equals] at same

/-- **Main.** The normal form of a tree has no conjunction and no disjunction of a single argument; a tree that
has none is its own normal form, and no other tree is, not even if numbers are compared as such. A normal form
is its own normal form. Two trees have the same normal form exactly if they are equal up to replacing
conjunctions and disjunctions of a single argument by their arguments and back, anywhere in the tree. The
leaves of a tree stay as they are, in their order. -/
theorem isNormal_and_normalize_eq_iff (node : Node) :
    node.normalize.isNormal = true ∧
    (node.normalize = node ↔ node.isNormal = true) ∧
    (node.normalize.equals node = true ↔ node.isNormal = true ∧ node.equals node = true) ∧
    node.normalize.normalize = node.normalize ∧
    (∀ other, node.normalize = other.normalize ↔ EqvGen Collapses node other) ∧
    node.normalize.leaves = node.leaves := by
  refine ⟨isNormal_normalize node, isNormal_iff.symm, ⟨fun same => ?_, fun ⟨isNormal, same⟩ => ?_⟩,
    isNormal_iff.1 (isNormal_normalize node), fun other => normalize_eq_iff_eqvGen, leaves_normalize node⟩
  · have isNormal : node.isNormal = true := isNormal_of_equals _ _ same ▸ isNormal_normalize node
    rw [isNormal_iff.1 isNormal] at same
    exact ⟨isNormal, same⟩
  · rwa [isNormal_iff.1 isNormal]

end ResourceQuery.Node
