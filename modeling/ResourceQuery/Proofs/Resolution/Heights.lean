import ResourceQuery.Proofs.Resolution.Kinds
import ResourceQuery.Proofs.Surface.Heights

/-!
# How high query trees are

Resolution puts no level on top of a surface tree, and normalization only takes levels away, so that
the limit on nesting bounds the height of query trees as well.
-/

namespace ResourceQuery
set_option autoImplicit false
open Fallible Surface

namespace Node

/-! ## Heights -/

mutual

/-- The number of levels of a tree. Values, lists, fields and sort keys are leaves. -/
def height : Node → Nat
  | .apply _ args => 1 + greatestHeight args
  | _ => 1

/-- The number of levels of the highest of the trees. -/
def greatestHeight : List Node → Nat
  | [] => 0
  | node :: nodes => max node.height (greatestHeight nodes)

end

theorem greatestHeight_le_iff {nodes : List Node} {n : Nat} :
    greatestHeight nodes ≤ n ↔ ∀ node ∈ nodes, node.height ≤ n := by
  induction nodes with
  | nil => simp [greatestHeight]
  | cons node nodes ih => rw [greatestHeight, Nat.max_le, ih, List.forall_mem_cons]

/-- Whatever is no application is a leaf. -/
theorem height_of_leaf {node : Node} (leaf : node.isApplication = false) : node.height = 1 := by
  cases node with
  | apply => exact Bool.noConfusion leaf
  | literal | array | field | sortKey => rfl

theorem height_of_isField {node : Node} (isField : node.isField = true) : node.height = 1 :=
  height_of_leaf (by cases node <;> first | rfl | exact Bool.noConfusion isField)

theorem height_of_isSortKey {node : Node} (isSortKey : node.isSortKey = true) : node.height = 1 :=
  height_of_leaf (by cases node <;> first | rfl | exact Bool.noConfusion isSortKey)

theorem height_of_isCount {node : Node} (isCount : node.isCount = true) : node.height = 1 :=
  height_of_leaf (by cases node <;> first | rfl | exact Bool.noConfusion isCount)

theorem height_of_isOperandOf {node : Node} {op : Operator} (isOperand : node.isOperandOf op = true) :
    node.height = 1 :=
  height_of_leaf (by cases node <;> first | rfl | exact Bool.noConfusion isOperand)

/-- Collapsing takes a level away, or none. -/
theorem height_collapse_le (op : Operator) (args : List Node) :
    (collapse op args).height ≤ 1 + greatestHeight args := by
  rcases collapse_cases op args with ⟨-, only⟩ | same
  · generalize collapse op args = node at only ⊢
    rw [only, greatestHeight, greatestHeight]
    omega
  · exact Nat.le_of_eq (by rw [same, height])

/-- Normalization puts no level on top of a tree. -/
theorem height_normalize_le (node : Node) : node.normalize.height ≤ node.height := by
  induction node using induct with
  | apply op args ih =>
    rw [normalize_apply, height]
    refine Nat.le_trans (height_collapse_le op _) (Nat.add_le_add_left ?_ 1)
    rw [greatestHeight_le_iff, List.forall_mem_map]
    exact fun arg mem => Nat.le_trans (ih arg mem) (greatestHeight_le_iff.1 (Nat.le_refl _) arg mem)
  | literal | array | field | sortKey => exact Nat.le_refl _

end Node

namespace Resolution

variable {query : String} {node : Node} {op : Operator} {expr : Expr} {exprs : List Expr} {args : List Node}

/-- The number of levels of the highest of the surface trees. -/
abbrev greatest (exprs : List Expr) : Nat :=
  Form.greatestHeight (exprs.map Expr.form)

theorem one_le_height (expr : Expr) : 1 ≤ expr.height :=
  expr.form.height_pos

theorem height_le_greatest (mem : expr ∈ exprs) : expr.height ≤ greatest exprs :=
  Form.greatestHeight_le_iff.1 (Nat.le_refl _) _ (List.mem_map_of_mem mem)

/-! ## Arguments -/

/-- Arguments that are read one by one are no higher if none of them is. -/
theorem greatestHeight_of_mapM {reader : Expr → Resolved Node}
    (read : ∀ expr ∈ exprs, ∀ arg, reader expr = .ok arg → arg.height ≤ expr.height)
    (resolved : exprs.mapM reader = .ok args) : Node.greatestHeight args ≤ greatest exprs := by
  rw [Node.greatestHeight_le_iff]
  intro arg mem
  obtain ⟨expr, exprMem, same⟩ := exists_of_mapM_eq_ok resolved mem
  exact Nat.le_trans (read expr exprMem arg same) (height_le_greatest exprMem)

theorem height_fieldArgument (resolved : fieldArgument query op expr = .ok node) :
    node.height ≤ expr.height :=
  Node.height_of_isField (sound_of_fieldArgument resolved).1 ▸ one_le_height expr

theorem height_sortKeyArgument (resolved : sortKeyArgument query expr = .ok node) :
    node.height ≤ expr.height :=
  Node.height_of_isSortKey (sound_of_sortKeyArgument resolved).1 ▸ one_le_height expr

theorem height_limitArgument (resolved : limitArgument query expr = .ok node) :
    node.height ≤ expr.height :=
  Node.height_of_isCount (sound_of_limitArgument resolved).1 ▸ one_le_height expr

theorem height_aggregateArgument (resolved : aggregateArgument query expr = .ok node) :
    node.height ≤ expr.height := by
  cases expr <;> simp only [aggregateArgument, refuse, reduceCtorEq] at resolved
  case token token => exact Nat.le_of_eq (Node.height_of_isField (sound_of_field resolved).1)
  case call name args span =>
    split at resolved
    · split at resolved
      · simp only [aggregateCall, bind_eq_ok, pure_eq_ok] at resolved
        obtain ⟨_, -, nodes, each, rfl⟩ := resolved
        have below := greatestHeight_of_mapM (fun _ _ _ => height_fieldArgument) each
        rw [Node.height, Expr.height, Expr.form, Expr.formAll_eq_map, Form.height]
        exact Nat.add_le_add_left below 1
      · simp at resolved
    · simp at resolved

/-- A field and an operand are leaves. -/
theorem greatestHeight_comparison {path value : Node} (isField : path.isField = true)
    (isOperand : value.isOperandOf op = true) : Node.greatestHeight [path, value] = 1 := by
  simp [Node.greatestHeight, Node.height_of_isField isField, Node.height_of_isOperandOf isOperand]

theorem height_comparisonArguments {span : Span}
    (resolved : comparisonArguments query op span exprs = .ok args) :
    Node.greatestHeight args ≤ greatest exprs := by
  unfold comparisonArguments at resolved
  split at resolved
  · simp only [bind_eq_ok, pure_eq_ok] at resolved
    obtain ⟨path, isField, value, isOperand, rfl⟩ := resolved
    rw [greatestHeight_comparison (sound_of_fieldArgument isField).1 (sound_of_operand isOperand).1]
    exact Nat.le_trans (one_le_height _) (height_le_greatest List.mem_cons_self)
  · obtain rfl := Except.ok.inj resolved
    exact Nat.zero_le _

theorem height_plainArguments {span : Span} (resolved : plainArguments query op exprs span = .ok args) :
    Node.greatestHeight args ≤ greatest exprs := by
  unfold plainArguments at resolved
  split at resolved
  · exact greatestHeight_of_mapM (fun _ _ _ => height_sortKeyArgument) resolved
  · exact greatestHeight_of_mapM (fun _ _ _ => height_limitArgument) resolved
  · exact greatestHeight_of_mapM (fun _ _ _ => height_aggregateArgument) resolved
  · obtain rfl := Except.ok.inj resolved
    exact Nat.zero_le _
  · split at resolved
    · exact height_comparisonArguments resolved
    · exact greatestHeight_of_mapM (fun _ _ _ => height_fieldArgument) resolved

/-! ## Queries -/

/-- A resolved tree is no higher than the surface tree. -/
theorem height_resolve_le (expr : Expr) :
    ∀ node, resolve query expr = .ok node → node.height ≤ expr.height := by
  -- An application is one level above its arguments, as a call and joined segments are.
  have applied {op : Operator} {args : List Node} {exprs : List Expr} {expr : Expr}
      (level : expr.height = 1 + greatest exprs) (below : Node.greatestHeight args ≤ greatest exprs) :
      (Node.apply op args).height ≤ expr.height := by
    rw [level, Node.height]
    exact Nat.add_le_add_left below 1
  induction expr using Expr.induct with
  | token | list => simp [resolve, refuse]
  | compare path name value span =>
    intro node resolved
    simp only [resolve, shorthand, bind_eq_ok, pure_eq_ok] at resolved
    obtain ⟨op, -, path, isField, operand, isOperand, rfl⟩ := resolved
    have below := greatestHeight_comparison (sound_of_field isField).1 (sound_of_operand isOperand).1
    rw [Node.height, below, Expr.height, Expr.form, Form.height]
    exact Nat.add_le_add_left (one_le_height value) 1
  | and segments span each | or segments span each =>
    intro node resolved
    simp only [resolve, resolveAll_eq_mapM, bind_eq_ok, pure_eq_ok] at resolved
    obtain ⟨args, resolved, rfl⟩ := resolved
    exact applied (by rw [Expr.height, Expr.form, Expr.formAll_eq_map, Form.height])
      (greatestHeight_of_mapM each resolved)
  | call name exprs span each =>
    intro node resolved
    have level : (Expr.call name exprs span).height = 1 + greatest exprs := by
      rw [Expr.height, Expr.form, Expr.formAll_eq_map, Form.height]
    simp only [resolve, refuse] at resolved
    split at resolved
    · simp at resolved
    · simp only [bind_eq_ok, resolveAll_eq_mapM] at resolved
      obtain ⟨_, -, resolved⟩ := resolved
      split at resolved <;> simp only [bind_eq_ok, pure_eq_ok] at resolved <;>
        obtain ⟨args, resolved, rfl⟩ := resolved
      · exact applied level (greatestHeight_of_mapM each resolved)
      · exact applied level (height_plainArguments resolved)

end Resolution

/-- A query tree is no higher than the limit that it is read under allows, and its normal form is not
either. -/
theorem height_le_of_parseWithin {maxDepth : Nat} {query : String} {node : Node}
    (parsed : parseWithin maxDepth query = .ok node) :
    node.height ≤ 2 * maxDepth + 4 ∧ node.normalize.height ≤ 2 * maxDepth + 4 := by
  obtain ⟨expr, surface, resolved⟩ := bind_eq_ok.1 parsed
  have bounded := Nat.le_trans (Resolution.height_resolve_le expr node resolved)
    (height_le_of_parse surface)
  exact ⟨bounded, Nat.le_trans node.height_normalize_le bounded⟩

end ResourceQuery
