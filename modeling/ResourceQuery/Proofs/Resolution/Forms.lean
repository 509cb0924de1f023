import ResourceQuery.Proofs.Resolution.Kinds

/-!
# What a tree is resolved to depends on its form

Spans only tell errors where to point, and so does the text of the query. So two surface trees of one
form, read from whatever queries, are resolved to the same tree or both refused.

`Agree` is kept by running steps in a row, which carries it from the readers of tokens up to whole
trees.
-/

namespace ResourceQuery.Resolution
set_option autoImplicit false
open Fallible Surface

/-! ## Attempts that agree -/

section Agree

variable {α β κ ι : Type}

/-- Two attempts come to the same result, or to none both. -/
def Agree (first second : Resolved α) : Prop :=
  ∀ result, first = .ok result ↔ second = .ok result

theorem Agree.refl (attempt : Resolved α) : Agree attempt attempt :=
  fun _ => Iff.rfl

theorem agree_refuse {query query' : String} {span span' : Span} {fault fault' : ParseFault} :
    Agree (refuse query span fault : Resolved α) (refuse query' span' fault') :=
  fun result => by simp [refuse]

theorem Agree.bind {first second : Resolved α} {next next' : α → Resolved β}
    (agree : Agree first second) (later : ∀ value, Agree (next value) (next' value)) :
    Agree (first >>= next) (second >>= next') := fun result => by
  simp only [bind_eq_ok]
  exact exists_congr fun value => and_congr (agree value) (later value result)

/-- Attempts for each of several things agree where they do for things of one kind. -/
theorem Agree.mapM {reader reader' : ι → Resolved α} (kind : ι → κ) {inputs inputs' : List ι}
    (each : ∀ input ∈ inputs, ∀ input', kind input = kind input' →
      Agree (reader input) (reader' input'))
    (same : inputs.map kind = inputs'.map kind) :
    Agree (inputs.mapM reader) (inputs'.mapM reader') := by
  induction inputs generalizing inputs' with
  | nil =>
    obtain rfl := List.map_eq_nil_iff.1 same.symm
    exact .refl _
  | cons input inputs ih =>
    obtain ⟨input', others, rfl, first, rest⟩ := List.map_eq_cons_iff.1 same.symm
    obtain ⟨here, later⟩ := List.forall_mem_cons.1 each
    simp only [List.mapM_cons]
    exact (here input' first.symm).bind fun value =>
      (ih later rest.symm).bind fun values => .refl _

end Agree

variable {query query' : String}

/-! ## Tokens -/

section Tokens

variable {token token' : Token}

theorem agree_field (same : token.text = token'.text) :
    Agree (field query token) (field query' token') := by
  simp only [field, same]
  split
  · exact agree_refuse
  · split
    · exact agree_refuse
    · exact .refl _

theorem agree_literal (plusAsSpace : Bool) (same : token.text = token'.text) :
    Agree (literal query plusAsSpace token) (literal query' plusAsSpace token') := by
  simp only [literal, same]
  split
  · split
    · exact agree_refuse
    · split
      · exact .refl _
      · exact agree_refuse
  · split
    · exact agree_refuse
    · exact .refl _

theorem agree_literals {plusAsSpace : Bool} {tokens tokens' : List Token}
    (same : tokens.map Token.text = tokens'.map Token.text) :
    Agree (tokens.mapM (literal query plusAsSpace)) (tokens'.mapM (literal query' plusAsSpace)) :=
  .mapM Token.text (fun _ _ _ same => agree_literal plusAsSpace same) same

end Tokens

/-! ## Arguments -/

section Arguments

variable {expr expr' : Expr}

theorem agree_fieldArgument (op : Operator) (same : expr.form = expr'.form) :
    Agree (fieldArgument query op expr) (fieldArgument query' op expr') := by
  cases expr <;> cases expr' <;> simp only [Expr.form, reduceCtorEq] at same
  case token.token => exact agree_field (Form.token.inj same)
  all_goals exact agree_refuse

theorem agree_operand (op : Operator) (plusAsSpace : Bool) (whole whole' : Span)
    (same : expr.form = expr'.form) :
    Agree (operand query op plusAsSpace whole expr) (operand query' op plusAsSpace whole' expr') := by
  cases expr <;> cases expr' <;> simp only [Expr.form, reduceCtorEq] at same
  case token.token =>
    exact (agree_literal plusAsSpace (Form.token.inj same)).bind fun value => .refl _
  case list.list =>
    simp only [operand]
    split
    · exact (agree_literals (Form.list.inj same)).bind fun values => .refl _
    · exact agree_refuse
  all_goals exact agree_refuse

theorem agree_sortKeyArgument (same : expr.form = expr'.form) :
    Agree (sortKeyArgument query expr) (sortKeyArgument query' expr') := by
  cases expr <;> cases expr' <;> simp only [Expr.form, reduceCtorEq] at same
  case token.token =>
    simp only [sortKeyArgument, Form.token.inj same]
    split
    · exact agree_refuse
    · split
      · exact agree_refuse
      · exact .refl _
  all_goals exact agree_refuse

theorem agree_limitArgument (same : expr.form = expr'.form) :
    Agree (limitArgument query expr) (limitArgument query' expr') := by
  cases expr <;> cases expr' <;> simp only [Expr.form, reduceCtorEq] at same
  case token.token =>
    refine (agree_literal false (Form.token.inj same)).bind fun value => ?_
    cases value with
    | integer n =>
      dsimp only
      split
      · exact .refl _
      · exact agree_refuse
    | _ => exact agree_refuse
  all_goals exact agree_refuse

theorem agree_checkArity (span span' : Span) (op : Operator) (given : Nat) :
    Agree (checkArity query span op given) (checkArity query' span' op given) := by
  unfold checkArity
  split
  · exact .refl _
  · exact agree_refuse

section Lists

variable {exprs exprs' : List Expr}

theorem agree_fieldArguments (op : Operator) (same : exprs.map Expr.form = exprs'.map Expr.form) :
    Agree (exprs.mapM (fieldArgument query op)) (exprs'.mapM (fieldArgument query' op)) :=
  .mapM Expr.form (fun _ _ _ same => agree_fieldArgument op same) same

theorem agree_aggregateCall (op : Operator) (span span' : Span)
    (same : exprs.map Expr.form = exprs'.map Expr.form) :
    Agree (aggregateCall query op exprs span) (aggregateCall query' op exprs' span') := by
  have length : exprs.length = exprs'.length := by simpa using congrArg List.length same
  simp only [aggregateCall, length]
  exact (agree_checkArity span span' op _).bind fun _ =>
    (agree_fieldArguments op same).bind fun args => .refl _

theorem agree_aggregateArgument (same : expr.form = expr'.form) :
    Agree (aggregateArgument query expr) (aggregateArgument query' expr') := by
  cases expr <;> cases expr' <;>
    simp only [Expr.form, Expr.formAll_eq_map, Form.call.injEq, reduceCtorEq] at same
  case token.token => exact agree_field (Form.token.inj same)
  case call.call =>
    obtain ⟨rfl, args⟩ := same
    simp only [aggregateArgument]
    split
    · split
      · exact agree_aggregateCall _ _ _ args
      · exact agree_refuse
    · exact agree_refuse
  all_goals exact agree_refuse

theorem agree_comparisonArguments (op : Operator) (span span' : Span)
    (same : exprs.map Expr.form = exprs'.map Expr.form) :
    Agree (comparisonArguments query op span exprs) (comparisonArguments query' op span' exprs') := by
  obtain _ | ⟨first, _ | ⟨second, others⟩⟩ := exprs <;>
    obtain _ | ⟨first', _ | ⟨second', others'⟩⟩ := exprs' <;>
    simp only [List.map_nil, List.map_cons, List.cons.injEq, reduceCtorEq, and_false] at same
  case nil.nil | cons.nil.cons.nil => exact .refl _
  case cons.cons.cons.cons =>
    exact (agree_fieldArgument op same.1).bind fun path =>
      (agree_operand op false span span' same.2.1).bind fun value => .refl _

/-- The arguments of an operator that combines no conditions are the same for trees of one form. -/
theorem agree_plainArguments (op : Operator) (span span' : Span)
    (same : exprs.map Expr.form = exprs'.map Expr.form) :
    Agree (plainArguments query op exprs span) (plainArguments query' op exprs' span') := by
  unfold plainArguments
  split
  · exact .mapM Expr.form (fun _ _ _ same => agree_sortKeyArgument same) same
  · exact .mapM Expr.form (fun _ _ _ same => agree_limitArgument same) same
  · exact .mapM Expr.form (fun _ _ _ same => agree_aggregateArgument same) same
  · exact .refl _
  · split
    · exact agree_comparisonArguments op span span' same
    · exact agree_fieldArguments op same

end Lists

/-! ## Trees -/

theorem agree_shorthandOperator {op op' : Option Token}
    (same : op.map Token.text = op'.map Token.text) :
    Agree (shorthandOperator query op) (shorthandOperator query' op') := by
  cases op <;> cases op' <;> simp only [Option.map_none, Option.map_some, reduceCtorEq] at same
  case none.none => exact .refl _
  case some.some =>
    simp only [shorthandOperator, Option.some.inj same]
    split
    · split
      · exact .refl _
      · exact agree_refuse
    · exact agree_refuse

end Arguments

/-- An operator over trees that each stand on their own. -/
theorem agree_joined (op : Operator) {exprs exprs' : List Expr}
    (each : ∀ expr ∈ exprs, ∀ expr', expr.form = expr'.form →
      Agree (resolve query expr) (resolve query' expr'))
    (same : exprs.map Expr.form = exprs'.map Expr.form) :
    Agree (do return Node.apply op (← resolveAll query exprs))
      (do return Node.apply op (← resolveAll query' exprs')) := by
  rw [resolveAll_eq_mapM, resolveAll_eq_mapM]
  exact (Agree.mapM Expr.form each same).bind fun args => .refl _

/-- **Main.** Surface trees of one form are resolved to the same tree, or to none both. -/
theorem agree_resolve (expr expr' : Expr) (same : expr.form = expr'.form) :
    Agree (resolve query expr) (resolve query' expr') := by
  induction expr using Expr.induct generalizing expr' with
  | token | list =>
    cases expr' <;> simp only [Expr.form, reduceCtorEq] at same
    exact agree_refuse
  | compare path op value span ih =>
    cases expr' <;> simp only [Expr.form, Form.compare.injEq, reduceCtorEq] at same
    obtain ⟨path', op', value'⟩ := same
    exact (agree_shorthandOperator op').bind fun op => (agree_field path').bind fun path =>
      (agree_operand op true _ _ value').bind fun value => .refl _
  | and segments span ih =>
    cases expr' <;> simp only [Expr.form, Expr.formAll_eq_map, Form.and.injEq, reduceCtorEq] at same
    exact agree_joined .and ih same
  | or segments span ih =>
    cases expr' <;> simp only [Expr.form, Expr.formAll_eq_map, Form.or.injEq, reduceCtorEq] at same
    exact agree_joined .or ih same
  | call name args span ih =>
    cases expr' <;> simp only [Expr.form, Expr.formAll_eq_map, Form.call.injEq, reduceCtorEq] at same
    case call name' args' span' =>
      obtain ⟨rfl, forms⟩ := same
      have length : args.length = args'.length := by simpa using congrArg List.length forms
      simp only [resolve, length]
      split
      · exact agree_refuse
      · next op _ =>
        refine (agree_checkArity span span' op _).bind fun _ => ?_
        split
        · exact agree_joined op ih forms
        · exact (agree_plainArguments op span span' forms).bind fun args => .refl _

end ResourceQuery.Resolution
