import ResourceQuery.Proofs.Fallible
import ResourceQuery.Proofs.Node.Kinds
import ResourceQuery.Proofs.Surface.Recognition
import ResourceQuery.Query

/-!
# Resolved trees are well formed

Whatever the resolver makes of a surface tree is a query in the sense of `Node.IsQuery`: each
reader of an argument yields an argument of the right kind, with a name that is not empty and
numbers that are finite, and each application is checked for the number of its arguments.
-/

namespace ResourceQuery
set_option autoImplicit false
open Fallible Surface

namespace Node

/-- A tree in which all applications fit, all paths are named and all numbers are finite. It need
not be an application itself. -/
structure IsSound (node : Node) : Prop where
  fit : node.allFit = true
  named : ∀ path ∈ node.paths, path ≠ ""
  finite : ∀ value ∈ node.literals, value.isFinite = true

/-- An operator over sound arguments that fit is a query. -/
theorem IsQuery.of_args {op : Operator} {args : List Node} (fit : argumentsFit op args = true)
    (sound : ∀ arg ∈ args, arg.IsSound) : IsQuery (.apply op args) := by
  refine ⟨isWellKinded_apply.2 ⟨fit, fun arg mem => (sound arg mem).fit⟩, ?_, ?_⟩
  · intro path mem
    obtain ⟨arg, argMem, mem⟩ := List.mem_flatMap.1 (paths_apply op args ▸ mem)
    exact (sound arg argMem).named path mem
  · intro value mem
    obtain ⟨arg, argMem, mem⟩ := List.mem_flatMap.1 (literals_apply op args ▸ mem)
    exact (sound arg argMem).finite value mem

theorem IsQuery.isSound {node : Node} (query : node.IsQuery) : node.IsSound :=
  ⟨(Bool.and_eq_true_iff.1 query.kinds).2, query.named, query.finite⟩

theorem IsQuery.isApplication {node : Node} (query : node.IsQuery) : node.isApplication = true :=
  (Bool.and_eq_true_iff.1 query.kinds).1

end Node

/-! ## Literals -/

/-- A number is only ever inferred from a text if it is finite. -/
theorem Literal.isFinite_infer (text : String) : (infer text).isFinite = true := by
  unfold infer
  split
  · rfl
  split
  · rfl
  split
  · rfl
  split
  · rfl
  · next _ isFloat => exact (Option.filter_eq_some_iff.1 isFloat).2
  · rfl
  · rfl

/-- A text read under a type tag gives a finite number if it gives a number. -/
theorem TypeTag.isFinite_of_read {tag : TypeTag} {text : String} {value : Literal}
    (read : tag.read text = .ok value) : value.isFinite = true := by
  have inferred := Literal.isFinite_infer text
  cases tag <;> simp only [TypeTag.read] at read
  case number =>
    split at read <;> simp_all
  case string => exact Except.ok.inj read ▸ rfl
  case boolean =>
    split at read
    · exact Except.ok.inj read ▸ rfl
    split at read
    · exact Except.ok.inj read ▸ rfl
    · simp at read
  case date =>
    split at read
    · exact Except.ok.inj read ▸ rfl
    · simp at read
  case null =>
    split at read
    · exact Except.ok.inj read ▸ rfl
    · simp at read

namespace Resolution

variable {query : String} {node : Node}

theorem isFinite_of_literal {plusAsSpace : Bool} {token : Token} {value : Literal}
    (resolved : literal query plusAsSpace token = .ok value) : value.isFinite = true := by
  simp only [literal, refuse] at resolved
  split at resolved <;> split at resolved
  · simp at resolved
  · split at resolved
    · next read => exact Except.ok.inj resolved ▸ TypeTag.isFinite_of_read read
    · simp at resolved
  · simp at resolved
  · exact Except.ok.inj resolved ▸ Literal.isFinite_infer _

/-! ## Arguments -/

/-- A resolved field has a name. -/
theorem field_eq_ok {token : Token} (resolved : field query token = .ok node) :
    ∃ path, path ≠ "" ∧ node = .field path := by
  simp only [field, refuse] at resolved
  split at resolved
  · simp at resolved
  · next path _ =>
    split at resolved
    · simp at resolved
    · next named => exact ⟨path, named, (Except.ok.inj resolved).symm⟩

theorem isSound_field {path : String} (named : path ≠ "") : (Node.field path).IsSound :=
  ⟨rfl, by simpa using named, by simp⟩

theorem sound_of_field {token : Token} (resolved : field query token = .ok node) :
    node.isField = true ∧ node.IsSound := by
  obtain ⟨path, named, rfl⟩ := field_eq_ok resolved
  exact ⟨rfl, isSound_field named⟩

theorem sound_of_fieldArgument {op : Operator} {expr : Expr}
    (resolved : fieldArgument query op expr = .ok node) :
    node.isField = true ∧ node.IsSound := by
  cases expr <;> simp only [fieldArgument, refuse, reduceCtorEq] at resolved
  exact sound_of_field resolved

theorem isSound_values {values : List Literal} (finite : ∀ value ∈ values, value.isFinite = true) :
    (Node.array values).IsSound :=
  ⟨rfl, by simp [Node.paths, Node.leaves, Node.path?], by simpa using finite⟩

theorem isSound_value {value : Literal} (finite : value.isFinite = true) :
    (Node.literal value).IsSound :=
  ⟨rfl, by simp, by simpa using finite⟩

theorem sound_of_operand {op : Operator} {plusAsSpace : Bool} {whole : Span} {expr : Expr}
    (resolved : operand query op plusAsSpace whole expr = .ok node) :
    node.isOperandOf op = true ∧ node.IsSound := by
  cases expr <;> simp only [operand, refuse, reduceCtorEq] at resolved
  case token token =>
    simp only [bind_eq_ok, pure_eq_ok] at resolved
    obtain ⟨value, isLiteral, rfl⟩ := resolved
    have finite := isFinite_of_literal isLiteral
    split
    · next isIn => exact ⟨isIn ▸ rfl, isSound_values (by simpa using finite)⟩
    · next notIn => exact ⟨by simpa [Node.isOperandOf] using notIn, isSound_value finite⟩
  case list items span =>
    split at resolved
    · next takes =>
      simp only [bind_eq_ok, pure_eq_ok] at resolved
      obtain ⟨values, each, rfl⟩ := resolved
      refine ⟨takes, isSound_values fun value mem => ?_⟩
      obtain ⟨token, _, isLiteral⟩ := exists_of_mapM_eq_ok each mem
      exact isFinite_of_literal isLiteral
    · simp at resolved

theorem sound_of_sortKeyArgument {expr : Expr}
    (resolved : sortKeyArgument query expr = .ok node) :
    node.isSortKey = true ∧ node.IsSound := by
  cases expr <;> simp only [sortKeyArgument, refuse, reduceCtorEq] at resolved
  split at resolved
  · simp at resolved
  · next path _ =>
    split at resolved
    · simp at resolved
    · next named =>
      obtain rfl := Except.ok.inj resolved
      refine ⟨rfl, rfl, ?_, by simp⟩
      rw [Node.paths_sortKey, List.forall_mem_singleton]
      exact fun empty => named (by simpa using congrArg String.toList empty)

theorem sound_of_limitArgument {expr : Expr} (resolved : limitArgument query expr = .ok node) :
    node.isCount = true ∧ node.IsSound := by
  cases expr <;> simp only [limitArgument, refuse, reduceCtorEq, bind_eq_ok] at resolved
  obtain ⟨value, _, resolved⟩ := resolved
  split at resolved
  · split at resolved
    · next positive =>
      obtain rfl := pure_eq_ok.1 resolved
      exact ⟨by simpa [Node.isCount] using positive, isSound_value rfl⟩
    · simp at resolved
  · simp at resolved

/-- A check of the number of arguments says that they are as many as the operator takes. -/
theorem admits_of_checkArity {span : Span} {op : Operator} {given : Nat} {done : Unit}
    (checked : checkArity query span op given = .ok done) : op.arity.admits given = true := by
  unfold checkArity refuse at checked
  split at checked
  · assumption
  · simp at checked

/-- Arguments that are all fields fit an operator that takes fields, as many as it takes. -/
theorem sound_of_fields {op : Operator} {exprs : List Expr} {args : List Node}
    (resolved : exprs.mapM (fieldArgument query op) = .ok args) :
    args.length = exprs.length ∧ ∀ arg ∈ args, arg.isField = true ∧ arg.IsSound := by
  refine ⟨length_of_mapM_eq_ok resolved, fun arg mem => ?_⟩
  obtain ⟨expr, _, isField⟩ := exists_of_mapM_eq_ok resolved mem
  exact sound_of_fieldArgument isField

theorem isQuery_of_aggregateCall {op : Operator} {exprs : List Expr} {span : Span}
    (role : op.role = .aggregate)
    (resolved : aggregateCall query op exprs span = .ok node) :
    node.isAggregate = true ∧ node.IsQuery := by
  simp only [aggregateCall, bind_eq_ok, pure_eq_ok] at resolved
  obtain ⟨_, checked, args, each, rfl⟩ := resolved
  obtain ⟨same, fields⟩ := sound_of_fields each
  refine ⟨by simpa [Node.isAggregate] using role,
    .of_args ?_ fun arg mem => (fields arg mem).2⟩
  have admits := same ▸ admits_of_checkArity checked
  cases op <;> simp [Operator.role] at role <;> simp_all [Node.argumentsFit]

theorem sound_of_aggregateArgument {expr : Expr}
    (resolved : aggregateArgument query expr = .ok node) :
    (node.isField || node.isAggregate) = true ∧ node.IsSound := by
  cases expr <;> simp only [aggregateArgument, refuse, reduceCtorEq] at resolved
  case token token =>
    obtain ⟨isField, sound⟩ := sound_of_field resolved
    exact ⟨by simp [isField], sound⟩
  case call name args span =>
    split at resolved
    · split at resolved
      · next role =>
        obtain ⟨isAggregate, isQuery⟩ := isQuery_of_aggregateCall role resolved
        exact ⟨by simp [isAggregate], isQuery.isSound⟩
      · simp at resolved
    · simp at resolved

/-! ## Queries -/

/-- A field and an operand fit a comparison. -/
theorem isQuery_comparison {op : Operator} {path value : Node} (role : op.role = .comparison)
    (isField : path.isField = true ∧ path.IsSound)
    (isOperand : value.isOperandOf op = true ∧ value.IsSound) :
    Node.IsQuery (.apply op [path, value]) := by
  refine .of_args ?_ (by simp [isField.2, isOperand.2])
  cases op <;> simp [Operator.role] at role <;>
    simp [Node.argumentsFit, Operator.arity, Arity.admits, isField.1, isOperand.1]

theorem isQuery_of_comparisonArguments {op : Operator} {exprs : List Expr} {span : Span}
    {args : List Node} (role : op.role = .comparison)
    (admits : op.arity.admits exprs.length = true)
    (resolved : comparisonArguments query op span exprs = .ok args) :
    Node.IsQuery (.apply op args) := by
  unfold comparisonArguments at resolved
  split at resolved
  · simp only [bind_eq_ok, pure_eq_ok] at resolved
    obtain ⟨path, isField, value, isOperand, rfl⟩ := resolved
    exact isQuery_comparison role (sound_of_fieldArgument isField) (sound_of_operand isOperand)
  · next short =>
    obtain _ | ⟨first, _ | ⟨second, others⟩⟩ := exprs
    · cases op <;> simp [Operator.role] at role <;> simp [Operator.arity, Arity.admits] at admits
    · cases op <;> simp [Operator.role] at role <;> simp [Operator.arity, Arity.admits] at admits
    · exact (short first second others rfl).elim

/-- Arguments read one by one, each of the kind that the operator takes, fit it. -/
theorem isQuery_of_mapM {op : Operator} {exprs : List Expr} {args : List Node}
    {reader : Expr → Resolved Node} {kind : Node → Bool}
    (read : ∀ expr arg, reader expr = .ok arg → kind arg = true ∧ arg.IsSound)
    (fits : ∀ args, op.arity.admits args.length = true → args.all kind = true →
      Node.argumentsFit op args = true)
    (admits : op.arity.admits exprs.length = true) (resolved : exprs.mapM reader = .ok args) :
    Node.IsQuery (.apply op args) := by
  have each : ∀ arg ∈ args, kind arg = true ∧ arg.IsSound := fun arg mem => by
    obtain ⟨expr, _, same⟩ := exists_of_mapM_eq_ok resolved mem
    exact read expr arg same
  refine .of_args (fits args ?_ (List.all_eq_true.2 fun arg mem => (each arg mem).1))
    fun arg mem => (each arg mem).2
  rw [length_of_mapM_eq_ok resolved]
  exact admits

/-- The arguments of an operator that combines no conditions make a query with it. -/
theorem isQuery_of_plainArguments {op : Operator} {exprs : List Expr} {span : Span}
    {args : List Node} (plain : op.role ≠ .boolean)
    (admits : op.arity.admits exprs.length = true)
    (resolved : plainArguments query op exprs span = .ok args) :
    Node.IsQuery (.apply op args) := by
  cases op <;> simp only [Operator.role, ne_eq, not_true_eq_false, plainArguments] at plain resolved
  case sort =>
    exact isQuery_of_mapM (fun _ _ => sound_of_sortKeyArgument)
      (fun _ admits kinds => by simp [Node.argumentsFit, admits, kinds]) admits resolved
  case limit =>
    exact isQuery_of_mapM (fun _ _ => sound_of_limitArgument)
      (fun _ admits kinds => by simp [Node.argumentsFit, admits, kinds]) admits resolved
  case aggregate =>
    exact isQuery_of_mapM (fun _ _ => sound_of_aggregateArgument)
      (fun _ admits kinds => by simp [Node.argumentsFit, admits, kinds]) admits resolved
  case distinct =>
    obtain rfl := Except.ok.inj resolved
    exact .of_args rfl (by simp)
  case eq | ne | lt | le | gt | ge | «in» | contains | excludes =>
    exact isQuery_of_comparisonArguments rfl admits resolved
  all_goals
    exact isQuery_of_mapM (fun _ _ => sound_of_fieldArgument)
      (fun _ admits kinds => by simp [Node.argumentsFit, admits, kinds]) admits resolved

theorem isQuery_of_shorthand {path : Token} {name : Option Token} {value : Expr} {span : Span}
    (resolved : shorthand query path name value span = .ok node) : node.IsQuery := by
  simp only [shorthand, bind_eq_ok, pure_eq_ok] at resolved
  obtain ⟨op, isOperator, path, isField, value, isOperand, rfl⟩ := resolved
  refine isQuery_comparison ?_ (sound_of_field isField) (sound_of_operand isOperand)
  unfold shorthandOperator refuse at isOperator
  split at isOperator
  · exact Except.ok.inj isOperator ▸ rfl
  · split at isOperator
    · split at isOperator
      · next role => exact Except.ok.inj isOperator ▸ role
      · simp at isOperator
    · simp at isOperator

/-- Trees are resolved one by one. -/
theorem resolveAll_eq_mapM (exprs : List Expr) : resolveAll query exprs = exprs.mapM (resolve query) := by
  induction exprs with
  | nil => simp [resolveAll, pure, Except.pure]
  | cons expr exprs ih => simp [resolveAll, ih, List.mapM_cons]

/-- An operator that combines conditions makes a query of queries, as many as it takes. -/
theorem isQuery_of_resolveAll {op : Operator} {exprs : List Expr} {args : List Node}
    (boolean : op.role = .boolean) (admits : op.arity.admits exprs.length = true)
    (each : ∀ expr ∈ exprs, ∀ arg, resolve query expr = .ok arg → arg.IsQuery)
    (resolved : exprs.mapM (resolve query) = .ok args) : Node.IsQuery (.apply op args) := by
  have queries : ∀ arg ∈ args, arg.IsQuery := fun arg mem => by
    obtain ⟨expr, exprMem, same⟩ := exists_of_mapM_eq_ok resolved mem
    exact each expr exprMem arg same
  refine .of_args ?_ fun arg mem => (queries arg mem).isSound
  have same := length_of_mapM_eq_ok resolved
  have applications : args.all Node.isApplication = true :=
    List.all_eq_true.2 fun arg mem => (queries arg mem).isApplication
  cases op <;> simp [Operator.role] at boolean <;>
    simp [Node.argumentsFit, same, admits, applications]

/-- A surface tree in which joined segments are several is only ever resolved to a query. The call
of an aggregate function by itself is one too: it stands at the top of a query. -/
theorem isQuery_of_resolve (expr : Expr) (segmented : expr.form.isSegmented = true) :
    ∀ node, resolve query expr = .ok node → node.IsQuery := by
  induction expr using Expr.induct with
  | token | list => simp [resolve, refuse]
  | compare path name value span =>
    intro node resolved
    rw [resolve] at resolved
    exact isQuery_of_shorthand resolved
  | and segments span each | or segments span each =>
    intro node resolved
    simp only [Expr.form, Form.isSegmented, Expr.formAll_eq_map, Form.areSegmented_eq_all,
      List.length_map, List.all_map, Bool.and_eq_true, decide_eq_true_eq, List.all_eq_true,
      Function.comp_apply] at segmented
    simp only [resolve, resolveAll_eq_mapM, bind_eq_ok, pure_eq_ok] at resolved
    obtain ⟨args, resolved, rfl⟩ := resolved
    refine isQuery_of_resolveAll rfl ?_ (fun part mem => each part mem (segmented.2 part mem)) resolved
    simp only [Operator.arity, Arity.admits, decide_eq_true_eq]
    omega
  | call name args span each =>
    intro node resolved
    simp only [Expr.form, Form.isSegmented, Expr.formAll_eq_map, Form.areSegmented_eq_all,
      List.all_map, List.all_eq_true, Function.comp_apply] at segmented
    simp only [resolve, refuse] at resolved
    split at resolved
    · simp at resolved
    · next op _ =>
      simp only [bind_eq_ok, resolveAll_eq_mapM] at resolved
      obtain ⟨_, checked, resolved⟩ := resolved
      have admits := admits_of_checkArity checked
      split at resolved <;> simp only [bind_eq_ok, pure_eq_ok] at resolved
      · next boolean =>
        obtain ⟨nodes, resolved, rfl⟩ := resolved
        exact isQuery_of_resolveAll boolean admits
          (fun arg mem => each arg mem (segmented arg mem)) resolved
      · next plain =>
        obtain ⟨nodes, resolved, rfl⟩ := resolved
        exact isQuery_of_plainArguments plain admits resolved

end Resolution

/-- Whatever is read from a text is a query. -/
theorem isQuery_of_parseWithin {maxDepth : Nat} {query : String} {node : Node}
    (parsed : parseWithin maxDepth query = .ok node) : node.IsQuery := by
  obtain ⟨expr, surface, resolved⟩ := bind_eq_ok.1 parsed
  exact Resolution.isQuery_of_resolve expr (derivable_of_parse surface).isSegmented node resolved

end ResourceQuery
