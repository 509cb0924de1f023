import ResourceQuery.Proofs.Query.Composition

/-!
# Terms in a row

Terms that are queries each by itself are joined by `&` and by `|`, and are the arguments of `and` and of
`or`, as they stand. A term needs no parentheses for that: no token of it reaches into a delimiter, and a
group, a call or a comparison is an argument too.

Main statement: two or more terms have the same tree joined as in the call.
-/

namespace ResourceQuery
set_option autoImplicit false
open Surface Fallible

namespace Surface

/-- The rule derives a term as it is. -/
def Rule.TakesTerms (rule : Rule) : Prop :=
  ∀ (p : Place) (form : Form) (q : Place), Derives .term p form q → Derives rule p form q

theorem takesTerms_term : Rule.TakesTerms .term :=
  fun _ _ _ term => term

theorem takesTerms_conjunction : Rule.TakesTerms .conjunction :=
  fun _ _ _ term => .conjunction term .nil

theorem takesTerms_argument : Rule.TakesTerms .argument := by
  intro p form q term
  cases term with
  | termGroup group => exact .argumentGroup group
  | termCall call => exact .argumentCall call
  | termComparison comparison => exact .argumentComparison comparison

/-- The text is a group, a call or a comparison. -/
def IsTerm (text : List Char) (form : Form) : Prop :=
  ∃ q, Derives .term (.start text) form q ∧ q.after = []

theorem IsTerm.derivable {text : List Char} {form : Form} (isTerm : IsTerm text form) :
    Derivable text form := by
  obtain ⟨q, derives, ends⟩ := isTerm
  exact Derives.derivable (.disjunction (.conjunction derives .nil) .nil) ends

theorem stops_nil : Stops [] :=
  fun _ first => nomatch first

/-- A term is derived wherever no token reaches into it. -/
theorem IsTerm.exists_derives {rule : Rule} (takes : rule.TakesTerms) {text rest : List Char} {form : Form}
    (isTerm : IsTerm text form) {p : Place} (fresh : p.Fresh) (stops : Stops rest)
    (here : p.after = text ++ rest) : ∃ q : Place, q.after = rest ∧ Derives rule p form q := by
  obtain ⟨q, derives, ends⟩ := isTerm
  let frame : Frame := { ahead := p.before, behind := rest, fresh := fresh, stops := stops }
  have start : frame.place (.start text) = p := by
    simp [frame, Frame.place, Place.start, ← here]
  have derives' : Derives .term p form (frame.place q) := start ▸ derives.framed
  exact ⟨frame.place q, by simp [frame, Frame.place, ends], takes _ _ _ derives'⟩

end Surface

/-- A group, a call or a comparison that is a query by itself, with its form and its tree. -/
structure Term where
  text : List Char
  form : Form
  node : Node
  isTerm : IsTerm text form
  resolved : ∀ query expr, expr.form = form → Resolution.resolve query expr = .ok node

namespace Term

/-- A term is an accepted text. -/
def accepted (term : Term) : Accepted where
  text := term.text
  form := term.form
  node := term.node
  derivable := term.isTerm.derivable
  resolved := term.resolved

/-- A term that is read under some limit on nesting is a query by itself. -/
theorem exists_of_parseWithin {limit : Nat} {query : String} {node : Node} {form : Form}
    (isTerm : IsTerm query.toList form) (read : parseWithin limit query = .ok node) :
    ∃ term : Term, term.text = query.toList ∧ term.node = node := by
  obtain ⟨expr, parsed, resolved⟩ := bind_eq_ok.1 read
  obtain ⟨expr', parsed', rfl⟩ := parse_of_derivable (nesting_le_of_parse parsed) isTerm.derivable
  obtain rfl := Except.ok.inj (parsed.symm.trans parsed')
  refine ⟨⟨query.toList, expr.form, node, isTerm, fun query' expr' same => ?_⟩, rfl, rfl⟩
  exact (Resolution.agree_resolve expr expr' same.symm node).1 resolved

/-! ## Rows -/

/-- The texts with a delimiter between them. -/
def row (delimiter : Char) (terms : List Term) : List Char :=
  [delimiter].intercalate (terms.map text)

/-- The texts of terms are joined to a row of the terms. -/
theorem toList_intercalate {delimiter : String} {c : Char} (single : delimiter.toList = [c])
    {texts : List String} {terms : List Term} (same : terms.map text = texts.map String.toList) :
    (delimiter.intercalate texts).toList = row c terms := by
  rw [String.toList_intercalate, single, row, same]

/-- Terms behind delimiters are further parts. -/
theorem exists_tail {rule : Rule} (takes : rule.TakesTerms) (terms : List Term) {p : Place}
    {rest : List Char} (stops : Stops rest)
    (here : p.after = (terms.flatMap fun term => rule.separator :: term.text) ++ rest) :
    ∃ q : Place, q.after = rest ∧ DerivesTail rule p (terms.map form) q := by
  have delimits : Grammar.continuesToken rule.separator = false := by cases rule <;> decide
  induction terms generalizing p with
  | nil => exact ⟨p, here, .nil⟩
  | cons term terms ih =>
    rw [List.flatMap_cons, List.cons_append, List.cons_append, List.append_assoc] at here
    obtain ⟨a, after, fresh, around⟩ := exists_around delimits here
    obtain ⟨b, after', derives⟩ :=
      term.isTerm.exists_derives takes fresh (stops_flatMap delimits stops text terms) after
    obtain ⟨q, last, tail⟩ := ih after'
    exact ⟨q, last, .cons around derives tail⟩

/-- Terms with delimiters between them are a first part and further ones. -/
theorem exists_parts {rule : Rule} (takes : rule.TakesTerms) (first : Term) (others : List Term)
    {p : Place} {rest : List Char} (fresh : p.Fresh) (stops : Stops rest)
    (here : p.after = row rule.separator (first :: others) ++ rest) :
    ∃ a q : Place, q.after = rest ∧ Derives rule p first.form a ∧
      DerivesTail rule a (others.map form) q := by
  have delimits : Grammar.continuesToken rule.separator = false := by cases rule <;> decide
  rw [row, intercalate_cons, List.append_assoc] at here
  obtain ⟨a, after, derives⟩ :=
    first.isTerm.exists_derives takes fresh (stops_flatMap delimits stops text others) here
  obtain ⟨q, last, tail⟩ := exists_tail takes others stops after
  exact ⟨a, q, last, derives, tail⟩

/-- The trees of terms are resolved one by one. -/
theorem resolveAll_eq_ok {query : String} {exprs : List Expr} {terms : List Term}
    (forms : exprs.map Expr.form = terms.map form) :
    Resolution.resolveAll query exprs = .ok (terms.map node) := by
  have forms' : exprs.map Expr.form = (terms.map accepted).map Accepted.form := by
    rw [forms, List.map_map]
    rfl
  rw [Accepted.resolveAll_eq_ok forms', List.map_map]
  rfl

/-! ## Ways to compose -/

/-- Two or more terms joined by `&`. -/
def conjunction (first second : Term) (others : List Term) : Accepted where
  text := row '&' (first :: second :: others)
  form := .and ((first :: second :: others).map form)
  node := .apply .and ((first :: second :: others).map node)
  derivable := by
    have here : (Place.start (row '&' (first :: second :: others))).after =
        row '&' (first :: second :: others) ++ [] := (List.append_nil _).symm
    obtain ⟨a, q, ends, head, tail⟩ :=
      exists_parts takesTerms_term first (second :: others) (Place.fresh_start _) stops_nil here
    exact Derives.derivable (.disjunction (.conjunction head tail) .nil) ends
  resolved query expr same := by
    obtain ⟨segments, span, rfl, forms⟩ := exists_and_of_form same
    rw [Resolution.resolve, resolveAll_eq_ok forms]
    rfl

/-- Two or more terms joined by `|`. -/
def disjunction (first second : Term) (others : List Term) : Accepted where
  text := row '|' (first :: second :: others)
  form := .or ((first :: second :: others).map form)
  node := .apply .or ((first :: second :: others).map node)
  derivable := by
    have here : (Place.start (row '|' (first :: second :: others))).after =
        row '|' (first :: second :: others) ++ [] := (List.append_nil _).symm
    obtain ⟨a, q, ends, head, tail⟩ :=
      exists_parts takesTerms_conjunction first (second :: others) (Place.fresh_start _) stops_nil here
    exact Derives.derivable (.disjunction head tail) ends
  resolved query expr same := by
    obtain ⟨segments, span, rfl, forms⟩ := exists_or_of_form same
    rw [Resolution.resolve, resolveAll_eq_ok forms]
    rfl

/-- The call of an operator that combines conditions, with terms for arguments. -/
def call (op : Operator) (boolean : op.role = .boolean) (first : Term) (others : List Term)
    (admits : op.arity.admits (first :: others).length = true) : Accepted where
  text := op.name.toList ++ '(' :: (row ',' (first :: others) ++ [')'])
  form := .call op.name ((first :: others).map form)
  node := .apply op ((first :: others).map node)
  derivable := by
    let text := op.name.toList ++ '(' :: (row ',' (first :: others) ++ [')'])
    have here : (Place.start text).after = text := rfl
    obtain ⟨a, afterName, name⟩ := Node.exists_name op here
    obtain ⟨b, after, fresh, opening⟩ := exists_mark (by decide) afterName
    have stops : Stops [')'] := stops_cons (by decide) []
    obtain ⟨c, d, after', head, tail⟩ := exists_parts takesTerms_argument first others fresh stops after
    obtain ⟨q, last, -, closing⟩ := exists_mark (by decide) after'
    have derives : Derives .call _ _ q :=
      .callSome name opening (.refl b) head tail (.refl d) closing
    exact Derives.derivable (.disjunction (.conjunction (.termCall derives) .nil) .nil) last
  resolved query expr same := by
    obtain ⟨args, span, rfl, forms⟩ := exists_call_of_form same
    have length : args.length = (first :: others).length := by
      simpa using congrArg List.length forms
    simp only [Resolution.resolve, Operator.ofName?_name, Resolution.checkArity, length, if_pos admits,
      boolean, resolveAll_eq_ok forms]
    rfl

end Term

/-! ## Texts -/

/-- The text is read as the tree under every limit on nesting that it keeps. -/
def ReadsAs (query : String) (node : Node) : Prop :=
  ∀ limit, nesting query.toList ≤ limit → parseWithin limit query = .ok node

/-- The text is a group, a call or a comparison, and under some limit on nesting it is read as the tree by
itself. -/
def ReadsAsTerm (text : String) (node : Node) : Prop :=
  (∃ form, IsTerm text.toList form) ∧ ∃ limit, parseWithin limit text = .ok node

theorem Accepted.readsAs (part : Accepted) {query : String} (same : query.toList = part.text) :
    ReadsAs query part.node :=
  fun _ shallow => part.parseWithin_eq_ok same (same ▸ shallow)

theorem exists_terms {texts : List String} {nodes : List Node}
    (each : List.Forall₂ ReadsAsTerm texts nodes) :
    ∃ terms : List Term, terms.map Term.text = texts.map String.toList ∧ terms.map Term.node = nodes := by
  induction each with
  | nil => exact ⟨[], rfl, rfl⟩
  | cons here _ ih =>
    obtain ⟨⟨form, isTerm⟩, limit, read⟩ := here
    obtain ⟨term, text, node⟩ := Term.exists_of_parseWithin isTerm read
    obtain ⟨terms, texts, nodes⟩ := ih
    exact ⟨term :: terms, by simp [text, texts], by simp [node, nodes]⟩

/-- **Main.** Two or more terms are read joined by `&` as in the call of `and`, and joined by `|` as in the
call of `or`. -/
theorem readsAs_joined_terms {texts : List String} {nodes : List Node}
    (each : List.Forall₂ ReadsAsTerm texts nodes) (several : 2 ≤ texts.length) :
    (ReadsAs ("&".intercalate texts) (.apply .and nodes) ∧
      ReadsAs ("and(" ++ ",".intercalate texts ++ ")") (.apply .and nodes)) ∧
    (ReadsAs ("|".intercalate texts) (.apply .or nodes) ∧
      ReadsAs ("or(" ++ ",".intercalate texts ++ ")") (.apply .or nodes)) := by
  obtain ⟨terms, sameTexts, rfl⟩ := exists_terms each
  have length : terms.length = texts.length := by simpa using congrArg List.length sameTexts
  obtain ⟨first, second, others, rfl⟩ : ∃ first second others, terms = first :: second :: others := by
    obtain _ | ⟨first, _ | ⟨second, others⟩⟩ := terms
    · simp at length; omega
    · simp at length; omega
    · exact ⟨first, second, others, rfl⟩
  have comma : (",".intercalate texts).toList = Term.row ',' (first :: second :: others) :=
    Term.toList_intercalate rfl sameTexts
  have admits : 1 ≤ (first :: second :: others).length := by simp
  refine ⟨⟨?_, ?_⟩, ?_, ?_⟩
  · exact (Term.conjunction first second others).readsAs (Term.toList_intercalate rfl sameTexts)
  · refine (Term.call .and rfl first (second :: others) (decide_eq_true admits)).readsAs ?_
    rw [String.toList_append, String.toList_append, comma]
    rfl
  · exact (Term.disjunction first second others).readsAs (Term.toList_intercalate rfl sameTexts)
  · refine (Term.call .or rfl first (second :: others) (decide_eq_true admits)).readsAs ?_
    rw [String.toList_append, String.toList_append, comma]
    rfl

end ResourceQuery
