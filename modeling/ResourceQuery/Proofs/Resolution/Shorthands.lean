import ResourceQuery.Proofs.Resolution.Forms
import ResourceQuery.Proofs.Text.PlusSigns

/-!
# Shorthand comparisons and calls

A shorthand comparison and the call of its operator are resolved to the same tree, or neither is. Only the
shorthand takes `+` for a space, so in the value of the call each `+` is written out as `%20`. That leaves
type tags alone: they are split off before anything is decoded, and none has a plus sign in its name.
-/

namespace ResourceQuery
set_option autoImplicit false
open Fallible Surface

/-! ## Type tags -/

namespace TypeTag
open Percent

theorem flatMap_writeOutPlus_eq_self {cs : List Char} (noPlus : '+' ∉ cs) :
    cs.flatMap writeOutPlus = cs := by
  induction cs with
  | nil => rfl
  | cons c cs ih =>
    obtain ⟨other, others⟩ := not_or.1 (mt List.mem_cons.2 noPlus)
    rw [List.flatMap_cons, writeOutPlus, if_neg (Ne.symm other), ih others, List.singleton_append]

/-- Names without `+` and `%` are the same as before once plus signs are written out, and no others become
such names. -/
theorem flatMap_writeOutPlus_eq_iff {cs name : List Char} (noPlus : '+' ∉ name)
    (noPercent : '%' ∉ name) : cs.flatMap writeOutPlus = name ↔ cs = name := by
  constructor
  · rintro rfl
    refine (flatMap_writeOutPlus_eq_self fun plus => noPercent ?_).symm
    exact List.mem_flatMap.2 ⟨'+', plus, by decide⟩
  · rintro rfl
    exact flatMap_writeOutPlus_eq_self noPlus

theorem ofName?_flatMap_writeOutPlus (cs : List Char) :
    ofName? (String.ofList (cs.flatMap writeOutPlus)) = ofName? (String.ofList cs) := by
  have same (tag : TypeTag) :
      (tag.name == String.ofList (cs.flatMap writeOutPlus)) = (tag.name == String.ofList cs) := by
    have plain : '+' ∉ tag.name.toList ∧ '%' ∉ tag.name.toList := by cases tag <;> decide
    rw [Bool.eq_iff_iff, beq_iff_eq, beq_iff_eq, ← String.toList_inj, ← String.toList_inj,
      String.toList_ofList, String.toList_ofList, eq_comm, flatMap_writeOutPlus_eq_iff plain.1 plain.2,
      eq_comm]
  simp only [ofName?, same]

/-- The first colon stays where it is once plus signs are written out. -/
theorem span_flatMap_writeOutPlus (cs : List Char) :
    (cs.flatMap writeOutPlus).takeWhile (· != ':') = (cs.takeWhile (· != ':')).flatMap writeOutPlus ∧
      (cs.flatMap writeOutPlus).dropWhile (· != ':') =
        (cs.dropWhile (· != ':')).flatMap writeOutPlus := by
  induction cs with
  | nil => exact ⟨rfl, rfl⟩
  | cons c cs ih =>
    by_cases colon : c = ':'
    · subst colon
      exact ⟨rfl, rfl⟩
    · have passes : (c != ':') = true := bne_iff_ne.2 colon
      have written : ∀ d ∈ writeOutPlus c, (d != ':') = true := by
        rw [writeOutPlus]
        split
        · simp
        · simpa using colon
      rw [List.flatMap_cons, List.takeWhile_append_of_pos written, List.dropWhile_append_of_pos written,
        List.takeWhile_cons, List.dropWhile_cons, if_pos passes, if_pos passes, List.flatMap_cons, ih.1]
      exact ⟨rfl, ih.2⟩

/-- A tag is split off in the same place once plus signs are written out. -/
theorem split?_plusWrittenOut (token : String) :
    split? (plusWrittenOut token) =
      (split? token).map fun (tag, rest) => (tag, plusWrittenOut rest) := by
  simp only [split?, plusWrittenOut, String.toList_ofList, span_flatMap_writeOutPlus,
    ofName?_flatMap_writeOutPlus]
  cases colon : token.toList.dropWhile (· != ':') with
  | nil => rfl
  | cons c rest =>
    obtain rfl : c = ':' := by
      have first := List.head?_dropWhile_not (· != ':') token.toList
      simpa [colon] using first
    simp [writeOutPlus, Function.comp_def]

end TypeTag

/-! ## Values -/

namespace Resolution
open Percent

variable {query query' : String}

/-- Attempts for each of several things agree where they do one by one. -/
theorem Agree.mapM_of_forall₂ {α ι ι' : Type} {reader : ι → Resolved α} {reader' : ι' → Resolved α}
    {inputs : List ι} {inputs' : List ι'}
    (each : List.Forall₂ (fun input input' => Agree (reader input) (reader' input')) inputs inputs') :
    Agree (inputs.mapM reader) (inputs'.mapM reader') := by
  induction each with
  | nil => exact .refl _
  | cons here _ later =>
    simp only [List.mapM_cons]
    exact here.bind fun value => later.bind fun values => .refl _

/-- Decoding a token with plus signs for spaces agrees with decoding it with plus signs written out. -/
theorem decode_agrees (text : String) :
    (∃ decoded, decode true text = .ok decoded ∧ decode false (plusWrittenOut text) = .ok decoded) ∨
      ∃ reason reason',
        decode true text = .error reason ∧ decode false (plusWrittenOut text) = .error reason' := by
  cases first : decode true text with
  | ok decoded => exact .inl ⟨decoded, rfl, (decode_plusWrittenOut text decoded).1 first⟩
  | error reason =>
    cases second : decode false (plusWrittenOut text) with
    | ok decoded => simp [(decode_plusWrittenOut text decoded).2 second] at first
    | error reason' => exact .inr ⟨reason, reason', rfl, rfl⟩

theorem agree_literal_plusWrittenOut {token token' : Token}
    (same : token'.text = plusWrittenOut token.text) :
    Agree (literal query true token) (literal query' false token') := by
  simp only [literal, same, TypeTag.split?_plusWrittenOut]
  cases TypeTag.split? token.text with
  | none =>
    rcases decode_agrees token.text with ⟨text, first, second⟩ | ⟨reason, reason', first, second⟩
    · simp only [Option.map_none, first, second]
      exact .refl _
    · simp only [Option.map_none, first, second]
      exact agree_refuse
  | some tagged =>
    obtain ⟨tag, rest⟩ := tagged
    rcases decode_agrees rest with ⟨text, first, second⟩ | ⟨reason, reason', first, second⟩
    · simp only [Option.map_some, first, second]
      split
      · exact .refl _
      · exact agree_refuse
    · simp only [Option.map_some, first, second]
      exact agree_refuse

end Resolution

/-- The value of a comparison with each plus sign written out. -/
def Surface.Form.plusWrittenOut : Form → Form
  | .token text => .token (Percent.plusWrittenOut text)
  | .list items => .list (items.map Percent.plusWrittenOut)
  | other => other

namespace Resolution

variable {query query' : String}

theorem agree_operand_plusWrittenOut (op : Operator) (whole whole' : Span) {expr expr' : Expr}
    (same : expr'.form = expr.form.plusWrittenOut) :
    Agree (operand query op true whole expr) (operand query' op false whole' expr') := by
  cases expr <;> cases expr' <;>
    simp only [Expr.form, Form.plusWrittenOut, reduceCtorEq, List.map_map] at same
  case token.token =>
    exact (agree_literal_plusWrittenOut (Form.token.inj same)).bind fun value => .refl _
  case list.list items _ items' _ =>
    have each : List.Forall₂ (fun token token' : Token =>
        Agree (literal query true token) (literal query' false token')) items items' := by
      have texts := List.forall₂_eq_eq_eq.symm ▸ Form.list.inj same
      rw [List.forall₂_map_left_iff, List.forall₂_map_right_iff] at texts
      exact texts.flip.imp fun _ _ => agree_literal_plusWrittenOut
    simp only [operand]
    split
    · exact (Agree.mapM_of_forall₂ each).bind fun values => .refl _
    · exact agree_refuse
  all_goals exact agree_refuse

theorem shorthandOperator_eq_ok {op : Operator} (comparison : op.role = .comparison)
    {name : Option Token} (named : name.map Token.text = some op.name ∨ name = none ∧ op = .eq) :
    shorthandOperator query name = .ok op := by
  rcases named with named | ⟨rfl, rfl⟩
  · obtain ⟨token, rfl, text⟩ := Option.map_eq_some_iff.1 named
    simp only [shorthandOperator, text, Operator.ofName?_name, if_pos comparison]
  · rfl

/-- The call of a comparison is its field and its value, in this order. -/
theorem resolve_comparison {op : Operator} (comparison : op.role = .comparison) (first second : Expr)
    (span : Span) :
    resolve query (.call op.name [first, second] span) = (do
      let path ← fieldArgument query op first
      let value ← operand query op false span second
      return .apply op [path, value]) := by
  have admits : op.arity.admits 2 = true := by
    cases op <;> first | rfl | exact absurd comparison (by decide)
  have arguments : plainArguments query op [first, second] span =
      comparisonArguments query op span [first, second] := by
    cases op <;> first | rfl | exact absurd comparison (by decide)
  have two : [first, second].length = 2 := rfl
  simp only [resolve, Operator.ofName?_name, two, checkArity, if_pos admits, comparison, arguments,
    comparisonArguments]
  cases fieldArgument query op first with
  | error _ => rfl
  | ok path => cases operand query op false span second <;> rfl

/-- **Main.** A shorthand comparison, without a name perhaps if it is `eq`, is resolved to the same tree as
the call of the operator with the plus signs of the value written out, or neither is resolved. -/
theorem agree_resolve_shorthand {op : Operator} (comparison : op.role = .comparison)
    {path path' : Token} (samePath : path.text = path'.text) {name : Option Token}
    (named : name.map Token.text = some op.name ∨ name = none ∧ op = .eq) {value value' : Expr}
    (written : value'.form = value.form.plusWrittenOut) (span span' : Span) :
    Agree (resolve query (.compare path name value span))
      (resolve query' (.call op.name [.token path', value'] span')) := by
  rw [resolve_comparison comparison]
  simp only [resolve, shorthand, shorthandOperator_eq_ok comparison named]
  exact (agree_field samePath).bind fun path =>
    (agree_operand_plusWrittenOut op span span' written).bind fun value => .refl _

end Resolution
end ResourceQuery
