import ResourceQuery.Proofs.Resolution.Kinds
import ResourceQuery.Proofs.Surface.Spans

/-!
# What resolution blames

Where a surface tree cannot be resolved, the error points at the tree itself, at one of its parts or
at one of their tokens, and what it points at takes some text of the query. The only part that takes
none, the value that a comparison leaves out, is read as an empty string and never refused.
-/

namespace ResourceQuery.Resolution
set_option autoImplicit false
open Fallible Surface

/-! ## Attempts that blame -/

section Blames

variable {α β ι : Type} {query : String} {spans more : List Span}

/-- An attempt fails only with an error at one of the spans, which covers some text of the query. -/
def Blames (query : String) (spans : List Span) (attempt : Resolved α) : Prop :=
  ∀ error, attempt = .error error →
    ∃ span ∈ spans, Shows query.toList span ∧ ∃ fault, error = .atSpan query span fault

theorem blames_ok (value : α) : Blames query spans (.ok value) := nofun

theorem blames_refuse {span : Span} {fault : ParseFault} (mem : span ∈ spans)
    (shown : Shows query.toList span) :
    Blames query spans (refuse query span fault : Resolved α) := by
  rintro _ ⟨⟩
  exact ⟨span, mem, shown, fault, rfl⟩

theorem Blames.weaken {attempt : Resolved α} (blames : Blames query spans attempt)
    (subset : spans ⊆ more) : Blames query more attempt := by
  intro error failed
  obtain ⟨span, mem, rest⟩ := blames error failed
  exact ⟨span, subset mem, rest⟩

theorem Blames.bind {attempt : Resolved α} {next : α → Resolved β}
    (blames : Blames query spans attempt) (later : ∀ value, Blames query spans (next value)) :
    Blames query spans (attempt >>= next) := by
  intro error failed
  rcases bind_eq_error.1 failed with failed | ⟨value, -, failed⟩
  · exact blames error failed
  · exact later value error failed

theorem Blames.mapM {reader : ι → Resolved α} {inputs : List ι}
    (each : ∀ input ∈ inputs, Blames query spans (reader input)) :
    Blames query spans (inputs.mapM reader) := by
  intro error failed
  obtain ⟨input, mem, failed⟩ := mem_of_mapM_eq_error failed
  exact each input mem error failed

end Blames

variable {query : String}

/-! ## Tokens -/

section Tokens

variable {token : Token}

theorem blames_field (stands : token.StandsIn query.toList) :
    Blames query [token.span] (field query token) := by
  unfold field
  split
  · exact blames_refuse (by simp) stands.shows
  · split
    · exact blames_refuse (by simp) stands.shows
    · exact blames_ok _

theorem blames_literal (plusAsSpace : Bool) (stands : token.StandsIn query.toList) :
    Blames query [token.span] (literal query plusAsSpace token) := by
  unfold literal
  split
  · split
    · exact blames_refuse (by simp) stands.shows
    · split
      · exact blames_ok _
      · exact blames_refuse (by simp) stands.shows
  · split
    · exact blames_refuse (by simp) stands.shows
    · exact blames_ok _

/-- A value that is left out is an empty string. -/
theorem literal_empty (plusAsSpace : Bool) (span : Span) :
    literal query plusAsSpace ⟨"", span⟩ = .ok (.string "") := by
  have untagged : TypeTag.split? "" = none := by decide +kernel
  have decoded : Percent.decode plusAsSpace "" = .ok "" := by cases plusAsSpace <;> decide +kernel
  have inferred : Literal.infer "" = .string "" := by decide +kernel
  simp only [literal, untagged, decoded, inferred]

end Tokens

/-! ## Arguments -/

section Arguments

variable {expr : Expr}

/-- A tree that is refused as a whole is one of its own parts. -/
theorem blames_whole {α : Type} (stands : expr.StandsIn query.toList) (fault : ParseFault) :
    Blames query expr.spans (refuse query expr.span fault : Resolved α) :=
  blames_refuse expr.span_mem_spans stands.shows

theorem blames_fieldArgument (op : Operator) (stands : expr.StandsIn query.toList) :
    Blames query expr.spans (fieldArgument query op expr) := by
  have other := blames_whole (α := Node) stands (.fieldExpected op)
  cases expr with
  | token token => exact blames_field stands.token
  | _ => exact other

/-- A value of a comparison that takes some text, or one that is left out. -/
theorem blames_operand (op : Operator) (plusAsSpace : Bool) (whole : Span)
    (stands : expr.StandsIn query.toList ∨ ∃ span, expr = .token ⟨"", span⟩) :
    Blames query expr.spans (operand query op plusAsSpace whole expr) := by
  rcases stands with stands | ⟨span, rfl⟩
  · -- The span of the whole comparison would take the place of an empty one only.
    have other : Blames query expr.spans (refuse query
        (if expr.span.isEmpty then whole else expr.span) (.queryAsValue op) : Resolved Node) := by
      rw [stands.shows.isEmpty]
      exact blames_whole stands _
    cases expr with
    | token token => exact (blames_literal plusAsSpace stands.token).bind fun value => blames_ok _
    | list items span =>
      simp only [operand]
      split
      · refine Blames.bind (Blames.mapM fun item mem => ?_) fun values => blames_ok _
        refine (blames_literal plusAsSpace (stands.items item mem)).weaken ?_
        simpa [Expr.spans] using .inr ⟨item, mem, rfl⟩
      · exact blames_refuse (by simp [Expr.spans]) stands.shows
    | _ => exact other
  · simp only [operand, literal_empty]
    exact blames_ok _

theorem blames_sortKeyArgument (stands : expr.StandsIn query.toList) :
    Blames query expr.spans (sortKeyArgument query expr) := by
  have other := blames_whole (α := Node) stands
  cases expr with
  | token token =>
    unfold sortKeyArgument
    dsimp only
    split
    · exact other _
    · split
      · exact other _
      · exact blames_ok _
  | _ => exact other _

theorem blames_limitArgument (stands : expr.StandsIn query.toList) :
    Blames query expr.spans (limitArgument query expr) := by
  have other := blames_whole (α := Node) stands
  cases expr with
  | token token =>
    refine (blames_literal false stands.token).bind fun value => ?_
    split
    · split
      · exact blames_ok _
      · exact other _
    · exact other _
  | _ => exact other _

end Arguments

/-- Trees that are read one by one. -/
theorem blames_each {reader : Expr → Resolved Node} {exprs : List Expr}
    (each : ∀ expr ∈ exprs, Blames query expr.spans (reader expr)) :
    Blames query (Expr.spansAll exprs) (exprs.mapM reader) :=
  .mapM fun expr mem => (each expr mem).weaken (Expr.spans_subset_spansAll mem)

section Calls

variable {name : String} {args : List Expr} {span : Span}
  (stands : (Expr.call name args span).StandsIn query.toList)
include stands

theorem blames_checkArity (op : Operator) (given : Nat) :
    Blames query (Expr.call name args span).spans (checkArity query span op given) := by
  unfold checkArity
  split
  · exact blames_ok _
  · exact blames_whole stands _

theorem blames_fieldArguments (op : Operator) :
    Blames query (Expr.spansAll args) (args.mapM (fieldArgument query op)) :=
  blames_each fun arg mem => blames_fieldArgument op (stands.args arg mem)

theorem blames_aggregateCall (op : Operator) :
    Blames query (Expr.call name args span).spans (aggregateCall query op args span) := by
  refine (blames_checkArity stands op _).bind fun _ => Blames.bind ?_ fun _ => blames_ok _
  exact (blames_fieldArguments stands op).weaken (List.subset_cons_self ..)

omit stands in
theorem blames_aggregateArgument {expr : Expr} (stands : expr.StandsIn query.toList) :
    Blames query expr.spans (aggregateArgument query expr) := by
  have other := blames_whole (α := Node) stands
  cases expr with
  | token token => exact blames_field stands.token
  | call name args span =>
    simp only [aggregateArgument]
    split
    · split
      · exact blames_aggregateCall stands _
      · exact other _
    · exact other _
  | _ => exact other _

theorem blames_comparisonArguments (op : Operator) :
    Blames query (Expr.spansAll args) (comparisonArguments query op span args) := by
  unfold comparisonArguments
  split
  · next first second others =>
    have firstMem : first ∈ first :: second :: others := List.mem_cons_self
    have secondMem : second ∈ first :: second :: others := List.mem_cons_of_mem _ List.mem_cons_self
    have path := blames_fieldArgument op (stands.args first firstMem)
    have value := blames_operand op false span (.inl (stands.args second secondMem))
    exact (path.weaken (Expr.spans_subset_spansAll firstMem)).bind fun _ =>
      (value.weaken (Expr.spans_subset_spansAll secondMem)).bind fun _ => blames_ok _
  · exact blames_ok _

/-- The arguments of an operator that combines no conditions. -/
theorem blames_plainArguments (op : Operator) :
    Blames query (Expr.spansAll args) (plainArguments query op args span) := by
  unfold plainArguments
  split
  · exact blames_each fun arg mem => blames_sortKeyArgument (stands.args arg mem)
  · exact blames_each fun arg mem => blames_limitArgument (stands.args arg mem)
  · exact blames_each fun arg mem => blames_aggregateArgument (stands.args arg mem)
  · exact blames_ok _
  · split
    · exact blames_comparisonArguments stands op
    · exact blames_fieldArguments stands op

end Calls

/-! ## Trees -/

theorem blames_shorthandOperator {op : Option Token}
    (stands : ∀ name ∈ op, name.StandsIn query.toList) :
    Blames query (op.map Token.span).toList (shorthandOperator query op) := by
  cases op with
  | none => exact blames_ok _
  | some token =>
    have shown := (stands token rfl).shows
    simp only [shorthandOperator]
    split
    · split
      · exact blames_ok _
      · exact blames_refuse (by simp) shown
    · exact blames_refuse (by simp) shown

theorem blames_shorthand {field : Token} {op : Option Token} {value : Expr} {span : Span}
    (stands : (Expr.compare field op value span).StandsIn query.toList) :
    Blames query (Expr.compare field op value span).spans
      (shorthand query field op value span) := by
  obtain ⟨path, name, read⟩ := stands.compared
  have inside {spans : List Span} (subset : spans ⊆ (op.map Token.span).toList ++ value.spans) :
      spans ⊆ (Expr.compare field op value span).spans :=
    List.subset_cons_of_subset _ (List.subset_cons_of_subset _ subset)
  refine ((blames_shorthandOperator name).weaken (inside (List.subset_append_left ..))).bind
    fun op => ?_
  refine ((blames_field path).weaken (by simp [Expr.spans])).bind fun _ => ?_
  exact ((blames_operand op true span read).weaken (inside (List.subset_append_right ..))).bind
    fun _ => blames_ok _

/-- An operator over trees that each stand on their own. -/
theorem blames_joined (op : Operator) {exprs : List Expr} {span : Span}
    (each : ∀ expr ∈ exprs, Blames query expr.spans (resolve query expr)) :
    Blames query (span :: Expr.spansAll exprs)
      (do return Node.apply op (← resolveAll query exprs)) := by
  refine Blames.bind ?_ fun args => blames_ok _
  rw [resolveAll_eq_mapM]
  exact (blames_each each).weaken (List.subset_cons_self ..)

/-- **Main.** A surface tree that stands in the query is refused only for one of its parts, which
takes some text. -/
theorem blames_resolve (expr : Expr) (stands : expr.StandsIn query.toList) :
    Blames query expr.spans (resolve query expr) := by
  induction expr using Expr.induct with
  | token | list => exact blames_whole stands _
  | compare field op value span ih => exact blames_shorthand stands
  | and segments span ih =>
    exact blames_joined .and fun part mem => ih part mem (stands.conjuncts part mem)
  | or segments span ih =>
    exact blames_joined .or fun part mem => ih part mem (stands.disjuncts part mem)
  | call name args span ih =>
    simp only [resolve]
    split
    · exact blames_whole stands _
    · next op _ =>
      refine (blames_checkArity stands op _).bind fun _ => ?_
      split
      · exact blames_joined op fun arg mem => ih arg mem (stands.args arg mem)
      · refine Blames.bind ?_ fun args => blames_ok _
        exact (blames_plainArguments stands op).weaken (List.subset_cons_self ..)

end ResourceQuery.Resolution
