import ResourceQuery.Proofs.Resolution.Kinds

/-!
# Where the literals of a tree come from

Resolution makes up no literal: each one in a tree is what some token of the query stands for. What
holds of every literal that a token can stand for therefore holds of the literals of every tree.
-/

namespace ResourceQuery.Resolution
set_option autoImplicit false
open Fallible Surface

variable {query : String} {node : Node} {op : Operator} {value : Literal}

/-- A token of the query stands for the literal. -/
def IsSpelled (query : String) (value : Literal) : Prop :=
  ∃ plusAsSpace token, literal query plusAsSpace token = .ok value

/-- Tokens stand for all literals of the tree. -/
def AllSpelled (query : String) (node : Node) : Prop :=
  ∀ value ∈ node.literals, IsSpelled query value

/-- A literal that is spelled was inferred from a text, or read from it under a type tag. -/
theorem IsSpelled.cases (spelled : IsSpelled query value) :
    (∃ text, value = Literal.infer text) ∨ ∃ (tag : TypeTag) (text : String), tag.read text = .ok value := by
  obtain ⟨plusAsSpace, token, resolved⟩ := spelled
  simp only [literal, refuse] at resolved
  split at resolved <;> split at resolved
  · simp at resolved
  · split at resolved
    · next read => exact .inr ⟨_, _, Except.ok.inj resolved ▸ read⟩
    · simp at resolved
  · simp at resolved
  · exact .inl ⟨_, (Except.ok.inj resolved).symm⟩

/-! ## Arguments -/

theorem allSpelled_apply {args : List Node} (each : ∀ arg ∈ args, AllSpelled query arg) :
    AllSpelled query (.apply op args) := by
  intro value mem
  rw [Node.literals_apply] at mem
  obtain ⟨arg, argMem, mem⟩ := List.mem_flatMap.1 mem
  exact each arg argMem value mem

/-- Arguments that are read one by one are spelled if the reader spells each. -/
theorem allSpelled_of_mapM {reader : Expr → Resolved Node} {exprs : List Expr} {args : List Node}
    (read : ∀ expr ∈ exprs, ∀ arg, reader expr = .ok arg → AllSpelled query arg)
    (resolved : exprs.mapM reader = .ok args) : ∀ arg ∈ args, AllSpelled query arg := by
  intro arg mem
  obtain ⟨expr, exprMem, same⟩ := exists_of_mapM_eq_ok resolved mem
  exact read expr exprMem arg same

theorem allSpelled_of_isField (isField : node.isField = true) : AllSpelled query node := by
  cases node <;> simp [Node.isField] at isField
  exact fun _ mem => absurd mem List.not_mem_nil

theorem allSpelled_of_isSortKey (isSortKey : node.isSortKey = true) : AllSpelled query node := by
  cases node <;> simp [Node.isSortKey] at isSortKey
  exact fun _ mem => absurd mem List.not_mem_nil

theorem allSpelled_fields {exprs : List Expr} {args : List Node}
    (resolved : exprs.mapM (fieldArgument query op) = .ok args) : ∀ arg ∈ args, AllSpelled query arg :=
  fun arg mem => allSpelled_of_isField ((sound_of_fields resolved).2 arg mem).1

theorem allSpelled_operand {plusAsSpace : Bool} {whole : Span} {expr : Expr}
    (resolved : operand query op plusAsSpace whole expr = .ok node) : AllSpelled query node := by
  cases expr <;> simp only [operand, refuse, reduceCtorEq] at resolved
  case token token =>
    simp only [bind_eq_ok, pure_eq_ok] at resolved
    obtain ⟨value, spelled, rfl⟩ := resolved
    have each : ∀ other ∈ [value], IsSpelled query other :=
      List.forall_mem_singleton.2 ⟨plusAsSpace, token, spelled⟩
    split
    · rwa [AllSpelled, Node.literals_array]
    · exact each
  case list items span =>
    split at resolved
    · simp only [bind_eq_ok, pure_eq_ok] at resolved
      obtain ⟨values, each, rfl⟩ := resolved
      rw [AllSpelled, Node.literals_array]
      intro value mem
      obtain ⟨token, -, spelled⟩ := exists_of_mapM_eq_ok each mem
      exact ⟨plusAsSpace, token, spelled⟩
    · simp at resolved

theorem allSpelled_limitArgument {expr : Expr} (resolved : limitArgument query expr = .ok node) :
    AllSpelled query node := by
  cases expr <;> simp only [limitArgument, refuse, reduceCtorEq, bind_eq_ok] at resolved
  case token token =>
    obtain ⟨value, spelled, resolved⟩ := resolved
    split at resolved
    · split at resolved
      · obtain rfl := pure_eq_ok.1 resolved
        exact List.forall_mem_singleton.2 ⟨false, token, spelled⟩
      · simp at resolved
    · simp at resolved

theorem allSpelled_aggregateArgument {expr : Expr}
    (resolved : aggregateArgument query expr = .ok node) : AllSpelled query node := by
  cases expr <;> simp only [aggregateArgument, refuse, reduceCtorEq] at resolved
  case token token => exact allSpelled_of_isField (sound_of_field resolved).1
  case call name args span =>
    split at resolved
    · split at resolved
      · simp only [aggregateCall, bind_eq_ok, pure_eq_ok] at resolved
        obtain ⟨_, -, args, each, rfl⟩ := resolved
        exact allSpelled_apply (allSpelled_fields each)
      · simp at resolved
    · simp at resolved

theorem allSpelled_comparisonArguments {exprs : List Expr} {span : Span} {args : List Node}
    (resolved : comparisonArguments query op span exprs = .ok args) :
    ∀ arg ∈ args, AllSpelled query arg := by
  unfold comparisonArguments at resolved
  split at resolved
  · simp only [bind_eq_ok, pure_eq_ok] at resolved
    obtain ⟨path, isField, value, isOperand, rfl⟩ := resolved
    simp [allSpelled_of_isField (sound_of_fieldArgument isField).1, allSpelled_operand isOperand]
  · obtain rfl := Except.ok.inj resolved
    exact fun _ mem => absurd mem List.not_mem_nil

theorem allSpelled_plainArguments {exprs : List Expr} {span : Span} {args : List Node}
    (resolved : plainArguments query op exprs span = .ok args) : ∀ arg ∈ args, AllSpelled query arg := by
  unfold plainArguments at resolved
  split at resolved
  · exact allSpelled_of_mapM
      (fun _ _ _ read => allSpelled_of_isSortKey (sound_of_sortKeyArgument read).1) resolved
  · exact allSpelled_of_mapM (fun _ _ _ => allSpelled_limitArgument) resolved
  · exact allSpelled_of_mapM (fun _ _ _ => allSpelled_aggregateArgument) resolved
  · obtain rfl := Except.ok.inj resolved
    exact fun _ mem => absurd mem List.not_mem_nil
  · split at resolved
    · exact allSpelled_comparisonArguments resolved
    · exact allSpelled_fields resolved

/-! ## Queries -/

/-- Tokens stand for all literals of a resolved tree. -/
theorem allSpelled_of_resolve (expr : Expr) :
    ∀ node, resolve query expr = .ok node → AllSpelled query node := by
  induction expr using Expr.induct with
  | token | list => simp [resolve, refuse]
  | compare path name value span =>
    intro node resolved
    simp only [resolve, shorthand, bind_eq_ok, pure_eq_ok] at resolved
    obtain ⟨op, -, path, isField, value, isOperand, rfl⟩ := resolved
    refine allSpelled_apply ?_
    simp [allSpelled_of_isField (sound_of_field isField).1, allSpelled_operand isOperand]
  | and segments span each | or segments span each =>
    intro node resolved
    simp only [resolve, resolveAll_eq_mapM, bind_eq_ok, pure_eq_ok] at resolved
    obtain ⟨args, resolved, rfl⟩ := resolved
    exact allSpelled_apply (allSpelled_of_mapM each resolved)
  | call name args span each =>
    intro node resolved
    simp only [resolve, refuse] at resolved
    split at resolved
    · simp at resolved
    · simp only [bind_eq_ok, resolveAll_eq_mapM] at resolved
      obtain ⟨_, -, resolved⟩ := resolved
      split at resolved <;> simp only [bind_eq_ok, pure_eq_ok] at resolved <;>
        obtain ⟨nodes, resolved, rfl⟩ := resolved
      · exact allSpelled_apply (allSpelled_of_mapM each resolved)
      · exact allSpelled_apply (allSpelled_plainArguments resolved)

/-- Tokens stand for all literals of a tree that is read from a text. -/
theorem allSpelled_of_parseWithin {maxDepth : Nat} (parsed : parseWithin maxDepth query = .ok node) :
    AllSpelled query node := by
  obtain ⟨expr, -, resolved⟩ := bind_eq_ok.1 parsed
  exact allSpelled_of_resolve expr node resolved

/-- A date that is spelled was read from an ISO text. -/
theorem IsSpelled.exists_parseIso {moment : DateTime} (spelled : IsSpelled query (.date moment)) :
    ∃ text, DateTime.parseIso text = .ok moment := by
  rcases spelled.cases with ⟨text, inferred⟩ | ⟨tag, text, read⟩
  · refine ⟨text, ?_⟩
    unfold Literal.infer at inferred
    grind
  · refine ⟨text, ?_⟩
    cases tag <;> simp only [TypeTag.read] at read <;> grind

end ResourceQuery.Resolution
