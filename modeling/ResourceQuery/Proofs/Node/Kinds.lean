import ResourceQuery.Proofs.Node.Leaves

/-!
# Well-formed trees

The type of trees admits any operator over any arguments. `argumentsFit` states for one application
how many arguments its operator takes and of which kinds; a tree is well kinded when its root is an
application and all of its applications fit, and it is a query when moreover no path is empty and
every number is finite. Normalization keeps both.
-/

namespace ResourceQuery
set_option autoImplicit false

/-- The literal is no infinite number and no not-a-number. -/
def Literal.isFinite : Literal → Bool
  | .float x => x.isFinite
  | _ => true

namespace Node

/-! ## Kinds of arguments -/

/-- An application of some operator. -/
def isApplication : Node → Bool
  | .apply .. => true
  | _ => false

/-- An application of an aggregate function. -/
def isAggregate : Node → Bool
  | .apply op _ => op.role == .aggregate
  | _ => false

/-- A field. -/
def isField : Node → Bool
  | .field _ => true
  | _ => false

/-- A sort key. -/
def isSortKey : Node → Bool
  | .sortKey .. => true
  | _ => false

/-- An integer that is not negative. -/
def isCount : Node → Bool
  | .literal (.integer n) => decide (0 ≤ n)
  | _ => false

/-- What a comparison can compare a field with: a single value, except for `in`, or a list where the
comparison takes one. -/
def isOperandOf (op : Operator) : Node → Bool
  | .literal _ => op != .in
  | .array _ => op.takesList
  | _ => false

/-- The arguments of an operator are as many, and of the kinds, as it takes. -/
def argumentsFit (op : Operator) (args : List Node) : Bool :=
  op.arity.admits args.length &&
    match op with
    | .and | .or | .not => args.all isApplication
    | .sort => args.all isSortKey
    | .select | .values | .sum | .mean | .max | .min => args.all isField
    | .limit => args.all isCount
    | .aggregate => args.all fun arg => arg.isField || arg.isAggregate
    | .distinct | .count => true
    | .eq | .ne | .lt | .le | .gt | .ge | .in | .contains | .excludes =>
      match args with
      | [path, value] => path.isField && value.isOperandOf op
      | _ => false

/-! ## Well-kinded trees -/

mutual

/-- All applications in a tree fit. -/
def allFit : Node → Bool
  | .apply op args => argumentsFit op args && allFitAll args
  | _ => true

/-- All applications in trees fit. -/
def allFitAll : List Node → Bool
  | [] => true
  | node :: nodes => node.allFit && allFitAll nodes

end

@[simp] theorem allFitAll_eq_all (nodes : List Node) : allFitAll nodes = nodes.all allFit := by
  induction nodes with
  | nil => rfl
  | cons node nodes ih => simp [allFitAll, ih]

@[simp] theorem allFit_apply (op : Operator) (args : List Node) :
    allFit (.apply op args) = (argumentsFit op args && args.all allFit) := by
  rw [allFit, allFitAll_eq_all]

/-- An application at the root, and all applications fit. -/
def isWellKinded (node : Node) : Bool :=
  node.isApplication && node.allFit

/-- A tree that can stand for a query. -/
structure IsQuery (node : Node) : Prop where
  kinds : node.isWellKinded = true
  named : ∀ path ∈ node.paths, path ≠ ""
  finite : ∀ value ∈ node.literals, value.isFinite = true

instance (node : Node) : Decidable node.IsQuery :=
  decidable_of_iff (node.isWellKinded = true ∧ (∀ path ∈ node.paths, path ≠ "") ∧
      ∀ value ∈ node.literals, value.isFinite = true)
    ⟨fun ⟨kinds, named, finite⟩ => ⟨kinds, named, finite⟩,
      fun query => ⟨query.kinds, query.named, query.finite⟩⟩

/-- An application is well kinded when its arguments fit and everything below them does. -/
theorem isWellKinded_apply {op : Operator} {args : List Node} :
    isWellKinded (.apply op args) = true ↔
      argumentsFit op args = true ∧ ∀ arg ∈ args, arg.allFit = true := by
  simp [isWellKinded, isApplication]

/-- There is an operator at the root of a well-kinded tree. -/
theorem exists_apply_of_isWellKinded {node : Node} (kinds : node.isWellKinded = true) :
    ∃ op args, node = .apply op args := by
  have root := (Bool.and_eq_true_iff.1 kinds).1
  cases node with
  | apply op args => exact ⟨op, args, rfl⟩
  | literal | array | field | sortKey => simp [isApplication] at root

/-- There is an operator at the root of a query. -/
theorem IsQuery.exists_apply {node : Node} (query : node.IsQuery) :
    ∃ op args, node = .apply op args :=
  exists_apply_of_isWellKinded query.kinds

/-- An operator that combines conditions takes applications only. -/
theorem isApplication_of_fit {op : Operator} {args : List Node} (boolean : op.role = .boolean)
    (fit : argumentsFit op args = true) : ∀ arg ∈ args, arg.isApplication = true := by
  cases op <;> simp_all [argumentsFit, Operator.role]

/-- A comparison takes a field and something to compare it with. -/
theorem operands_of_fit {op : Operator} {args : List Node} (role : op.role = .comparison)
    (fit : argumentsFit op args = true) :
    ∃ path value, args = [path, value] ∧ path.isField = true ∧ value.isOperandOf op = true := by
  cases op <;> simp only [Operator.role, reduceCtorEq] at role <;>
    simp only [argumentsFit, Bool.and_eq_true] at fit <;> obtain ⟨-, fit⟩ := fit <;> split at fit <;>
    simp_all

/-- An aggregate function takes nothing and counts, or takes a field. -/
theorem aggregated_of_fit {op : Operator} {args : List Node} (role : op.role = .aggregate)
    (fit : argumentsFit op args = true) :
    op = .count ∧ args = [] ∨ op ≠ .count ∧ ∃ field, args = [field] ∧ field.isField = true := by
  obtain _ | ⟨first, _ | ⟨second, others⟩⟩ := args <;> cases op <;>
    simp_all [Operator.role, argumentsFit, Operator.arity, Arity.admits]

/-- The arguments of an operator that combines conditions are well kinded like the whole. -/
theorem isWellKinded_of_mem {op : Operator} {args : List Node}
    (kinds : isWellKinded (.apply op args) = true) (boolean : op.role = .boolean) {arg : Node}
    (mem : arg ∈ args) : arg.isWellKinded = true := by
  obtain ⟨fit, below⟩ := isWellKinded_apply.1 kinds
  simp [isWellKinded, isApplication_of_fit boolean fit arg mem, below arg mem]

/-- The arguments of an operator that combines conditions are queries like the whole. -/
theorem IsQuery.of_mem {op : Operator} {args : List Node} (query : IsQuery (.apply op args))
    (boolean : op.role = .boolean) {arg : Node} (mem : arg ∈ args) : arg.IsQuery := by
  refine ⟨isWellKinded_of_mem query.kinds boolean mem, fun path pathMem => query.named path ?_,
    fun value valueMem => query.finite value ?_⟩
  · exact paths_apply op args ▸ List.mem_flatMap.2 ⟨arg, mem, pathMem⟩
  · exact literals_apply op args ▸ List.mem_flatMap.2 ⟨arg, mem, valueMem⟩

/-! ## Normal forms -/

/-- An argument that is no condition is a leaf, or an aggregate function of leaves. -/
theorem leaf_or_aggregate_of_fit {op : Operator} {args : List Node} (other : op.role ≠ .boolean)
    (fit : argumentsFit op args = true) {arg : Node} (mem : arg ∈ args) :
    arg.isApplication = false ∨ arg.isAggregate = true := by
  cases op <;> simp only [argumentsFit, Bool.and_eq_true] at fit <;> obtain ⟨arity, fit⟩ := fit
  case and | or | not => simp [Operator.role] at other
  case distinct | count => simp_all [Operator.arity, Arity.admits]
  case eq | ne | lt | le | gt | ge | «in» | contains | excludes =>
    split at fit
    · rcases List.mem_pair.1 mem with rfl | rfl <;> left <;> cases arg <;>
        simp_all [isField, isOperandOf, isApplication]
    · simp at fit
  case aggregate =>
    have kind := List.all_eq_true.1 fit arg mem
    cases arg <;> simp_all [isField, isAggregate, isApplication]
  all_goals
    have kind := List.all_eq_true.1 fit arg mem
    left
    cases arg <;> simp_all [isField, isSortKey, isCount, isApplication]

/-- A leaf is its own normal form. -/
theorem normalize_leaf {node : Node} (leaf : node.isApplication = false) :
    node.normalize = node := by
  cases node <;> simp_all [isApplication, normalize]

/-- The arguments of an operator that combines no conditions are their own normal forms. -/
theorem normalize_args {op : Operator} {args : List Node} (other : op.role ≠ .boolean)
    (fit : argumentsFit op args = true) (below : ∀ arg ∈ args, arg.allFit = true) :
    args.map normalize = args := by
  refine (List.map_congr_left fun arg mem => ?_).trans (List.map_id args)
  rcases leaf_or_aggregate_of_fit other fit mem with leaf | aggregate
  · exact normalize_leaf leaf
  · obtain ⟨inner, innerArgs⟩ | _ | _ | _ | _ := arg <;> simp only [isAggregate, beq_iff_eq,
      Bool.false_eq_true] at aggregate
    have innerFit := (Bool.and_eq_true_iff.1 (allFit_apply inner innerArgs ▸ below _ mem)).1
    have same : innerArgs.map normalize = innerArgs := by
      refine (List.map_congr_left fun leaf leafMem => ?_).trans (List.map_id innerArgs)
      refine normalize_leaf ?_
      cases inner <;> simp [Operator.role] at aggregate
      case count => simp_all [argumentsFit, Operator.arity, Arity.admits]
      all_goals
        simp only [argumentsFit, Bool.and_eq_true, List.all_eq_true] at innerFit
        have kind := innerFit.2 leaf leafMem
        cases leaf <;> simp_all [isField, isApplication]
    rw [normalize_apply, same, collapse_of_not_transparent _ (by
      cases inner <;> simp_all [isTransparent, Operator.role])]
    rfl

/-- Applications of such operators are their own normal forms, too. -/
theorem normalize_of_fit {op : Operator} {args : List Node} (other : op.role ≠ .boolean)
    (fit : argumentsFit op args = true) (below : ∀ arg ∈ args, arg.allFit = true) :
    (Node.apply op args).normalize = .apply op args := by
  rw [normalize_apply, normalize_args other fit below, collapse_of_not_transparent]
  cases op <;> simp_all [isTransparent, Operator.role]

/-- An operator that combines conditions takes any others in the place of its arguments. -/
theorem argumentsFit_map {op : Operator} {args : List Node} (boolean : op.role = .boolean)
    (fit : argumentsFit op args = true) {change : Node → Node}
    (kept : ∀ arg ∈ args, (change arg).isApplication = true) :
    argumentsFit op (args.map change) = true := by
  cases op <;> simp [Operator.role] at boolean <;>
    simp only [argumentsFit, Bool.and_eq_true, List.length_map, List.all_map, List.all_eq_true] at fit ⊢ <;>
    exact ⟨fit.1, kept⟩

/-- Normalization keeps all applications fitting, and the root an application. -/
theorem allFit_normalize (node : Node) (fit : node.allFit = true) :
    node.normalize.allFit = true ∧
      (node.isApplication = true → node.normalize.isApplication = true) := by
  induction node using induct with
  | literal | array | field | sortKey => exact ⟨fit, id⟩
  | apply op args ih =>
    obtain ⟨here, below⟩ := Bool.and_eq_true_iff.1 (allFit_apply op args ▸ fit)
    have below := List.all_eq_true.1 below
    by_cases boolean : op.role = .boolean
    · have applications := isApplication_of_fit boolean here
      have kept : ∀ arg ∈ args.map normalize,
          arg.allFit = true ∧ arg.isApplication = true := by
        intro arg mem
        obtain ⟨original, originalMem, rfl⟩ := List.mem_map.1 mem
        have := ih original originalMem (below original originalMem)
        exact ⟨this.1, this.2 (applications original originalMem)⟩
      rw [normalize_apply]
      rcases collapse_cases op (args.map normalize) with ⟨_, only⟩ | same
      · have mem : collapse op (args.map normalize) ∈ args.map normalize := by
          generalize collapse op (args.map normalize) = child at only ⊢
          simp [only]
        exact ⟨(kept _ mem).1, fun _ => (kept _ mem).2⟩
      · rw [same, allFit_apply, Bool.and_eq_true]
        refine ⟨⟨argumentsFit_map boolean here fun arg mem => ?_, ?_⟩, fun _ => rfl⟩
        · exact (kept _ (List.mem_map_of_mem mem)).2
        · exact List.all_eq_true.2 fun arg mem => (kept arg mem).1
    · rw [normalize_of_fit boolean here below]
      exact ⟨fit, id⟩

/-- The normal form of a query is a query. -/
theorem IsQuery.normalize {node : Node} (query : node.IsQuery) : node.normalize.IsQuery := by
  obtain ⟨root, fit⟩ := Bool.and_eq_true_iff.1 query.kinds
  obtain ⟨fit', root'⟩ := allFit_normalize node fit
  refine ⟨?_, fun path mem => query.named path ?_, fun value mem => query.finite value ?_⟩
  · rw [isWellKinded, root' root, fit']; rfl
  · exact paths_normalize node ▸ mem
  · exact literals_normalize node ▸ mem

end Node
end ResourceQuery
