import ResourceQuery.Proofs.Node.Precision
import ResourceQuery.Proofs.Rendering.Derivation
import ResourceQuery.Proofs.Resolution.Kinds

/-!
# Trees read back

The canonical text of a query reads back as the query. Its derivation says which surface tree is
read, and every argument of that surface tree resolves to the argument it was written for.

Main statement: a query whose dates have four digits of the year and whole microseconds reads back as it is
shown, and so as itself exactly if its dates have times that a clock has.
-/

namespace ResourceQuery
set_option autoImplicit false
open Text Surface Fallible

/-! ## Surface trees of a form -/

namespace Surface

variable {expr : Expr}

theorem exists_token_of_form {text : String} (same : expr.form = .token text) :
    ∃ span, expr = .token ⟨text, span⟩ := by
  cases expr with
  | token word =>
    obtain rfl : word.text = text := by simpa [Expr.form] using same
    exact ⟨word.span, rfl⟩
  | _ => simp [Expr.form] at same

theorem exists_list_of_form {texts : List String} (same : expr.form = .list texts) :
    ∃ tokens span, expr = .list tokens span ∧ tokens.map Token.text = texts := by
  cases expr with
  | list tokens span => exact ⟨tokens, span, rfl, by simpa [Expr.form] using same⟩
  | _ => simp [Expr.form] at same

theorem exists_call_of_form {name : String} {forms : List Form} (same : expr.form = .call name forms) :
    ∃ args span, expr = .call name args span ∧ args.map Expr.form = forms := by
  cases expr with
  | call name' args span =>
    simp only [Expr.form, Expr.formAll_eq_map, Form.call.injEq] at same
    obtain ⟨rfl, forms⟩ := same
    exact ⟨args, span, rfl, forms⟩
  | _ => simp [Expr.form] at same

end Surface

/-- A count is an integer that is not negative. -/
theorem Node.exists_integer_of_isCount {node : Node} (isCount : node.isCount = true) :
    ∃ n : Int64, node = .literal (.integer n) ∧ 0 ≤ n := by
  unfold Node.isCount at isCount
  split at isCount
  · next n => exact ⟨n, rfl, of_decide_eq_true isCount⟩
  · exact Bool.noConfusion isCount

namespace Resolution

variable {query : String}

/-! ## Arguments -/

/-- The reader of an argument finds it in every surface tree that it is written as. -/
def Finds (reader : Expr → Resolved Node) (arg : Node) : Prop :=
  ∀ expr : Expr, expr.form = arg.form → reader expr = .ok arg

/-- Arguments are found one by one. -/
theorem mapM_of_finds {reader : Expr → Resolved Node} {exprs : List Expr} {args : List Node}
    (finds : ∀ arg ∈ args, Finds reader arg) (forms : exprs.map Expr.form = args.map Node.form) :
    exprs.mapM reader = .ok args := by
  rw [mapM_eq_ok]
  induction args generalizing exprs with
  | nil =>
    obtain rfl := List.map_eq_nil_iff.1 forms
    exact .nil
  | cons arg args ih =>
    obtain ⟨expr, others, rfl, same, forms⟩ := List.map_eq_cons_iff.1 forms
    obtain ⟨first, rest⟩ := List.forall_mem_cons.1 finds
    exact .cons (first expr same) (ih rest forms)

/-- A named path reads back from its token. -/
theorem field_encode {path : String} (named : path ≠ "") (span : Span) :
    field query ⟨Percent.encode path, span⟩ = .ok (.field path) := by
  simp only [field, Percent.decode_encode, if_neg named]

theorem finds_field {arg : Node} {op : Operator} (isField : arg.isField = true)
    (writable : arg.IsWritable) : Finds (fieldArgument query op) arg := by
  intro expr same
  cases arg with
  | field path =>
    have named := writable.named path (by simp)
    obtain ⟨span, rfl⟩ := exists_token_of_form same
    rw [fieldArgument, field_encode named]
  | _ => simp [Node.isField] at isField

theorem finds_sortKey {arg : Node} (isSortKey : arg.isSortKey = true) (writable : arg.IsWritable) :
    Finds (sortKeyArgument query) arg := by
  intro expr same
  cases arg with
  | sortKey path direction =>
    obtain ⟨span, rfl⟩ := exists_token_of_form same
    have named := writable.named path (by simp)
    have nonempty : path.toList.isEmpty = false := by simp [named]
    have signed : directionOf (direction.sign :: Percent.encodeChars path.toList) =
        (direction, Percent.encodeChars path.toList) := by
      cases direction <;> rfl
    simp only [sortKeyArgument, String.toList_ofList, signed, Percent.decodeChars_encodeChars,
      nonempty, String.ofList_toList]
    rfl
  | _ => simp [Node.isSortKey] at isSortKey

/-- A literal reads back from its token. -/
theorem literal_render {value : Literal} (writable : value.IsWritable) (span : Span) :
    literal query false ⟨value.render, span⟩ = .ok value :=
  (Literal.tokenizes_chars writable).reads query span

theorem finds_count {arg : Node} (isCount : arg.isCount = true) (writable : arg.IsWritable) :
    Finds (limitArgument query) arg := by
  intro expr same
  obtain ⟨n, rfl, nonnegative⟩ := Node.exists_integer_of_isCount isCount
  have read : ∀ span, literal query false ⟨(Literal.integer n).render, span⟩ = .ok (.integer n) :=
    literal_render (writable.literals _ (by simp))
  obtain ⟨span, rfl⟩ := exists_token_of_form same
  simp only [limitArgument, read span, bind, Except.bind, if_pos nonnegative]
  rfl

/-- The values of a list read back from their tokens. -/
theorem mapM_literal {items : List Literal} {tokens : List Token}
    (writable : ∀ value ∈ items, value.IsWritable)
    (texts : tokens.map Token.text = items.map Literal.render) :
    tokens.mapM (literal query false) = .ok items := by
  rw [mapM_eq_ok]
  induction items generalizing tokens with
  | nil =>
    obtain rfl := List.map_eq_nil_iff.1 texts
    exact .nil
  | cons value items ih =>
    obtain ⟨⟨text, span⟩, others, rfl, same, texts'⟩ := List.map_eq_cons_iff.1 texts
    obtain ⟨first, rest⟩ := List.forall_mem_cons.1 writable
    obtain rfl : text = value.render := same
    exact .cons (literal_render first span) (ih rest texts')

theorem finds_operand {arg : Node} {op : Operator} {whole : Span}
    (isOperand : arg.isOperandOf op = true) (writable : arg.IsWritable) :
    Finds (operand query op false whole) arg := by
  intro expr same
  cases arg with
  | literal value =>
    have single : op ≠ .in := bne_iff_ne.1 isOperand
    have read : ∀ span, literal query false ⟨value.render, span⟩ = .ok value :=
      literal_render (writable.literals value (by simp))
    obtain ⟨span, rfl⟩ := exists_token_of_form same
    simp only [operand, read span, bind, Except.bind, if_neg single]
    rfl
  | array items =>
    have takesList : op.takesList = true := isOperand
    have each : ∀ value ∈ items, value.IsWritable := fun value mem =>
      writable.literals value (by simpa using mem)
    obtain ⟨tokens, span, rfl, texts⟩ := exists_list_of_form same
    simp only [operand, if_pos takesList, mapM_literal each texts]
    rfl
  | _ => simp [Node.isOperandOf] at isOperand

/-- The arguments of a call are as many as those it is written for. -/
theorem checkArity_of_fit {op : Operator} {exprs : List Expr} {args : List Node} (span : Span)
    (fit : Node.argumentsFit op args = true) (forms : exprs.map Expr.form = args.map Node.form) :
    checkArity query span op exprs.length = .ok () := by
  have length : exprs.length = args.length := by
    rw [← List.length_map Expr.form, forms, List.length_map]
  have admits : op.arity.admits args.length = true := (Bool.and_eq_true_iff.1 fit).1
  rw [checkArity, length, if_pos admits]

theorem finds_aggregated {arg : Node} (kind : (arg.isField || arg.isAggregate) = true)
    (fit : arg.allFit = true) (writable : arg.IsWritable) :
    Finds (aggregateArgument query) arg := by
  intro expr same
  cases arg with
  | field path =>
    have named := writable.named path (by simp)
    obtain ⟨span, rfl⟩ := exists_token_of_form same
    rw [aggregateArgument, field_encode named]
  | apply op args =>
    have role : op.role = .aggregate := by simpa [Node.isField, Node.isAggregate] using kind
    have fits : Node.argumentsFit op args = true := by
      rw [Node.allFit_apply] at fit
      exact (Bool.and_eq_true_iff.1 fit).1
    have finds : ∀ arg ∈ args, Finds (fieldArgument query op) arg := by
      intro arg mem
      refine finds_field ?_ (writable.of_mem mem)
      rcases Node.aggregated_of_fit role fits with ⟨-, rfl⟩ | ⟨-, field, rfl, isField⟩
      · simp at mem
      · rwa [List.mem_singleton.1 mem]
    obtain ⟨exprs, span, rfl, forms⟩ := exists_call_of_form same
    rw [Node.formAll_eq_map] at forms
    simp only [aggregateArgument, Operator.ofName?_name, if_pos role, aggregateCall,
      checkArity_of_fit span fits forms, mapM_of_finds finds forms]
    rfl
  | _ => simp [Node.isField, Node.isAggregate] at kind

/-! ## Calls -/

/-- The field and the operand of a comparison are found. -/
theorem comparisonArguments_of_fit {op : Operator} {exprs : List Expr} {args : List Node}
    (span : Span) (role : op.role = .comparison) (fit : Node.argumentsFit op args = true)
    (writable : ∀ arg ∈ args, arg.IsWritable)
    (forms : exprs.map Expr.form = args.map Node.form) :
    comparisonArguments query op span exprs = .ok args := by
  obtain ⟨path, value, rfl, isField, isOperand⟩ := Node.operands_of_fit role fit
  obtain ⟨first, others, rfl, isPath, forms'⟩ := List.map_eq_cons_iff.1 forms
  obtain ⟨second, others', rfl, isValue, -⟩ := List.map_eq_cons_iff.1 forms'
  have read : fieldArgument query op first = .ok path :=
    finds_field isField (writable path (by simp)) first isPath
  have read' : operand query op false span second = .ok value :=
    finds_operand isOperand (writable value (by simp)) second isValue
  simp only [comparisonArguments, read, read']
  rfl

/-- No arguments are found where none were written. -/
theorem eq_nil_of_forms {exprs : List Expr} {args : List Node} (none : (args.length == 0) = true)
    (forms : exprs.map Expr.form = args.map Node.form) : args = [] ∧ exprs = [] := by
  obtain rfl := List.length_eq_zero_iff.1 (beq_iff_eq.1 none)
  exact ⟨rfl, List.map_eq_nil_iff.1 forms⟩

/-- The arguments of an operator that combines no conditions are found. -/
theorem plainArguments_of_fit {op : Operator} {exprs : List Expr} {args : List Node} (span : Span)
    (plain : op.role ≠ .boolean) (fit : Node.argumentsFit op args = true)
    (below : ∀ arg ∈ args, arg.allFit = true) (writable : ∀ arg ∈ args, arg.IsWritable)
    (forms : exprs.map Expr.form = args.map Node.form) :
    plainArguments query op exprs span = .ok args := by
  have kinds := fit
  cases op <;> simp only [Operator.role, ne_eq, not_true_eq_false] at plain <;>
    simp only [Node.argumentsFit, Bool.and_eq_true, List.all_eq_true] at kinds
  case sort =>
    exact mapM_of_finds (fun arg mem => finds_sortKey (kinds.2 arg mem) (writable arg mem)) forms
  case limit =>
    exact mapM_of_finds (fun arg mem => finds_count (kinds.2 arg mem) (writable arg mem)) forms
  case aggregate =>
    exact mapM_of_finds
      (fun arg mem => finds_aggregated (kinds.2 arg mem) (below arg mem) (writable arg mem)) forms
  case distinct | count =>
    obtain ⟨rfl, rfl⟩ := eq_nil_of_forms kinds.1 forms
    rfl
  case eq | ne | lt | le | gt | ge | «in» | contains | excludes =>
    exact comparisonArguments_of_fit span rfl fit writable forms
  all_goals
    exact mapM_of_finds (fun arg mem => finds_field (kinds.2 arg mem) (writable arg mem)) forms

theorem finds_resolve {node : Node} (kinds : node.isWellKinded = true) (writable : node.IsWritable) :
    Finds (resolve query) node := by
  induction node using Node.induct with
  | apply op args ih =>
    intro expr same
    obtain ⟨fit, below⟩ := Node.isWellKinded_apply.1 kinds
    have each : ∀ arg ∈ args, arg.IsWritable := fun arg mem => writable.of_mem mem
    obtain ⟨exprs, span, rfl, forms⟩ := exists_call_of_form same
    rw [Node.formAll_eq_map] at forms
    simp only [resolve, Operator.ofName?_name, checkArity_of_fit span fit forms]
    by_cases boolean : op.role = .boolean
    · have finds : ∀ arg ∈ args, Finds (resolve query) arg := by
        intro arg mem
        refine ih arg mem ?_ (each arg mem)
        rw [Node.isWellKinded, Node.isApplication_of_fit boolean fit arg mem, below arg mem]
        rfl
      simp only [boolean, resolveAll_eq_mapM, mapM_of_finds finds forms]
      rfl
    · have found : plainArguments query op exprs span = .ok args :=
        plainArguments_of_fit span boolean fit below each forms
      cases role : op.role with
      | boolean => exact absurd role boolean
      | comparison | directive | aggregate =>
        simp only [found]
        rfl
  | _ => simp [Node.isWellKinded, Node.isApplication] at kinds

end Resolution

/-! ## Queries -/

/-- A query whose dates can be written can be written. -/
theorem Node.IsQuery.isWritable {node : Node} (query : node.IsQuery)
    (dates : ∀ moment, Literal.date moment ∈ node.literals → moment.IsWritable) :
    node.IsWritable := by
  refine ⟨query.named, fun value mem => ?_⟩
  cases value with
  | float x => exact query.finite (.float x) mem
  | date moment => exact dates moment mem
  | integer | boolean | null | string => trivial

/-- The canonical text of a query whose dates can be written reads back as the query, under any limit on
nesting that the text keeps. -/
theorem parseWithin_render_of_isWritable {node : Node} {maxDepth : Nat} (query : node.IsQuery)
    (dates : ∀ moment, Literal.date moment ∈ node.literals → moment.IsWritable)
    (shallow : nesting node.render.toList ≤ maxDepth) :
    parseWithin maxDepth node.render = .ok node := by
  have writable := query.isWritable dates
  obtain ⟨op, args, rfl⟩ := query.exists_apply
  obtain ⟨expr, parsed, same⟩ := parse_of_derivable shallow (Node.derivable_render writable)
  rw [parseWithin, parsed]
  exact Resolution.finds_resolve query.kinds writable expr same

/-- The canonical text of a query whose dates have four digits of the year and whole microseconds reads back
as the query with its dates as they are shown. -/
theorem parseWithin_render_asShown {node : Node} {maxDepth : Nat} (query : node.IsQuery)
    (dates : ∀ moment, Literal.date moment ∈ node.literals →
      (0 ≤ moment.date.year ∧ moment.date.year ≤ 9999) ∧ moment.time.nanosecond % 1000 = 0)
    (shallow : nesting node.render.toList ≤ maxDepth) :
    parseWithin maxDepth node.render = .ok node.asShown := by
  have shown : node.asShown.IsQuery := query.mapDates _
  rw [← node.render_asShown] at shallow ⊢
  refine parseWithin_render_of_isWritable shown (fun moment mem => ?_) shallow
  obtain ⟨kept, keptMem, rfl⟩ := Node.date_mem_mapDates.1 mem
  obtain ⟨year, places⟩ := dates kept keptMem
  exact DateTime.isWritable_asShown year places

/-- A query is shown as one that equals it only where its dates have times that a clock has. -/
theorem Node.IsQuery.equals_asShown {node : Node} (query : node.IsQuery) :
    node.asShown.equals node = true ↔
      ∀ moment, Literal.date moment ∈ node.literals → moment.time.IsOnClock := by
  simp only [Node.asShown, query.equals_mapDates, DateTime.asShown_eq_self_iff]

/-- A query with delimiters in a path, strings that look like other literals, a negative number, a
leap second and an aggregate function without arguments. -/
def Node.mixedQuery : Node :=
  .apply .and
    [.apply .eq [.field "a(b, c)=é", .literal (.string "true")],
     .apply .in [.field "d", .array [.string "", .string "x:12+%", .null, .integer (-7)]],
     .apply .not
       [.apply .ge
         [.field "e", .literal (.float (.finite true ⟨4609434218613702656, by decide⟩))]],
     .apply .lt
       [.field "t", .literal (.date
         ⟨⟨2016, 12, 31, by decide, by decide, by decide⟩,
          ⟨23, 59, 59, 1500000000, by decide, by decide, by decide, by decide⟩⟩)],
     .apply .sort [.sortKey "-k" .descending, .sortKey "l" .ascending],
     .apply .aggregate [.field "m", .apply .count [], .apply .sum [.field "n"]]]

/-- A date whose second 4 goes on for more than a second. -/
def Node.prolongedSecond : Node :=
  .apply .eq [.field "a", .literal (.date
    ⟨⟨2009, 10, 12, by decide, by decide, by decide⟩,
      ⟨23, 56, 4, 1333333000, by decide, by decide, by decide, by decide⟩⟩)]

end ResourceQuery
