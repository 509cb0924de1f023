import ResourceQuery.Proofs.Surface.Nesting
import ResourceQuery.Proofs.Surface.Spans

/-!
# How deep the grammar recurses

The rules of the grammar refer to each other only behind an opening parenthesis, and are given a number
of levels to do so. `Agree` says of two parsers that they come to the same end wherever so many
parentheses are open, and how many are open behind what they find. Where the nesting of the text leaves
the last level out of reach, further levels change nothing.

Main statement: a text is read with no more levels than its nesting and one.
-/

namespace ResourceQuery.Surface
set_option autoImplicit false
open Text Grammar Surface.Parser

/-- A cursor in the text at which so many parentheses are open. -/
def Cursor.At (cursor : Cursor) (text : List Char) (depth : Nat) : Prop :=
  ∃ p : Place, p.cursor = cursor ∧ p.text = text ∧ depthAfter 0 p.before = depth

variable {α β : Type} {text : List Char} {depth depth' depth'' : Nat}

/-- No more parentheses are open at a place than the text nests. -/
theorem Cursor.At.depth_le {cursor : Cursor} (here : cursor.At text depth) : depth ≤ nesting text := by
  obtain ⟨p, rfl, rfl, rfl⟩ := here
  rw [nesting, Place.text, nestingFrom_append]
  exact Nat.le_trans (le_nestingFrom _ _) (Nat.le_max_right _ _)

/-- Where so many parentheses are open, the parsers come to the same end, and behind what they find
there are so many open. -/
def Agree (text : List Char) (depth depth' : Nat) (first second : Parser α) : Prop :=
  ∀ cursor : Cursor, cursor.At text depth → first cursor = second cursor ∧
    ∀ value next, second cursor = .found value next → next.At text depth'

/-! ## Combinators -/

section Combinators

variable {first first' : Parser α} {second second' : Parser α}

theorem agree_pure (value : α) : Agree text depth depth (Pure.pure value : Parser α) (Pure.pure value) := by
  refine fun cursor here => ⟨rfl, fun value next found => ?_⟩
  obtain ⟨-, rfl⟩ := pure_eq_found.1 found
  exact here

theorem Agree.bind {later later' : α → Parser β} (agree : Agree text depth depth' first first')
    (agree' : ∀ value, Agree text depth' depth'' (later value) (later' value)) :
    Agree text depth depth'' (first >>= later) (first' >>= later') := by
  intro cursor here
  obtain ⟨same, behind⟩ := agree cursor here
  refine ⟨?_, fun value next found => ?_⟩
  · change Parser.bind first later cursor = Parser.bind first' later' cursor
    unfold Parser.bind
    rw [same]
    cases outcome : first' cursor with
    | found value next => exact (agree' value next (behind value next outcome)).1
    | missed | unclosed => rfl
  · obtain ⟨value', mid, head, tail⟩ := bind_eq_found.1 found
    exact (agree' value' mid (behind value' mid head)).2 value next tail

theorem Agree.map {change : α → β} (agree : Agree text depth depth' first first') :
    Agree text depth depth' (change <$> first) (change <$> first') :=
  agree.bind fun value => agree_pure (change value)

theorem Agree.orElse (agree : Agree text depth depth' first first')
    (agree' : Agree text depth depth' second second') :
    Agree text depth depth' (Parser.orElse first second) (Parser.orElse first' second') := by
  intro cursor here
  obtain ⟨same, behind⟩ := agree cursor here
  obtain ⟨same', behind'⟩ := agree' cursor here
  refine ⟨?_, fun value next found => ?_⟩
  · unfold Parser.orElse
    rw [same, same']
  · rcases orElse_eq_found found with found | found
    · exact behind value next found
    · exact behind' value next found

theorem Agree.optional (agree : Agree text depth depth first first') :
    Agree text depth depth (Parser.optional first) (Parser.optional first') :=
  agree.map.orElse (agree_pure none)

theorem Agree.committed (agree : Agree text depth depth' first first') :
    Agree text depth depth' (Parser.committed first) (Parser.committed first') := by
  intro cursor here
  obtain ⟨same, behind⟩ := agree cursor here
  refine ⟨?_, fun value next found => behind value next (committed_eq_found.1 found)⟩
  unfold Parser.committed
  rw [same]

theorem Agree.located (agree : Agree text depth depth' first first') :
    Agree text depth depth' (Parser.located first) (Parser.located first') := by
  intro cursor here
  obtain ⟨same, behind⟩ := agree cursor here
  refine ⟨?_, fun result next found => ?_⟩
  · unfold Parser.located
    rw [same]
  · obtain ⟨value, found, -⟩ := located_eq_found.1 found
    exact behind value next found

end Combinators

/-! ## Rules without nesting -/

/-- A parser agrees with itself, and leaves open what is open at the places that it leads to. -/
theorem agree_of_tracks {parser : Parser α} {post : Place → α → Place → Prop}
    (tracks : ∀ p, Tracks p parser (post p))
    (behind : ∀ p value q, post p value q → depthAfter 0 p.before = depth →
      depthAfter 0 q.before = depth') : Agree text depth depth' parser parser := by
  rintro _ ⟨p, rfl, rfl, open'⟩
  refine ⟨rfl, fun value next found => ?_⟩
  have ends : EndsAt p (post p) (parser p.cursor) := tracks p
  rw [found] at ends
  cases ends with
  | found reaches holds => exact ⟨_, rfl, reaches.text_eq, behind p value _ holds open'⟩

theorem Place.Balances.depthAfter_eq {p q : Place} (balances : p.Balances q) :
    depthAfter 0 q.before = depthAfter 0 p.before := by
  obtain ⟨taken, balanced, before, -⟩ := balances
  rw [before, depthAfter_append, balanced]

theorem agree_of_balances {parser : Parser α} {post : Place → α → Place → Prop}
    (tracks : ∀ p, Tracks p parser (post p)) (balances : ∀ p value q, post p value q → p.Balances q) :
    Agree text depth depth parser parser :=
  agree_of_tracks tracks fun p value q holds open' =>
    (balances p value q holds).depthAfter_eq.trans open'

theorem agree_symbol (c : Char) : Agree text depth (depthBehind depth c) (symbol c) (symbol c) :=
  agree_of_tracks (fun _ => tracks_symbol c) fun p _ q mark open' => by
    rw [mark.1, depthAfter_append, open', depthAfter_cons]
    rfl

theorem agree_spacing : Agree text depth depth spacing spacing :=
  agree_of_balances (fun _ => tracks_spacing) fun _ _ _ blanks => blanks.balances

theorem agree_delimiter {c : Char} (flat : c ≠ '(' ∧ c ≠ ')') :
    Agree text depth depth (delimiter c) (delimiter c) :=
  agree_of_balances (fun _ => tracks_delimiter c) fun _ _ _ around => around.balances flat.1 flat.2

theorem agree_name : Agree text depth depth Grammar.name Grammar.name :=
  agree_of_balances (fun _ => tracks_name) fun _ _ _ named => named.balances

theorem agree_token : Agree text depth depth Grammar.token Grammar.token :=
  agree_of_balances (fun _ => tracks_token) fun _ word _ stands =>
    ⟨word.text.toList, (flat_of_token stands.continues).balanced, stands.moves⟩

/-! ## Repetition -/

section Repetition

variable {c : Char} {element element' : Parser α}

theorem Agree.further (flat : c ≠ '(' ∧ c ≠ ')') (agree : Agree text depth depth element element')
    (rounds : Nat) :
    Agree text depth depth (Parser.further c element rounds) (Parser.further c element' rounds) := by
  induction rounds with
  | zero => exact agree_pure []
  | succ rounds ih =>
    refine Agree.orElse ?_ (agree_pure [])
    exact (agree_delimiter flat).bind fun _ => agree.bind fun first => ih.bind fun others =>
      agree_pure (first :: others)

theorem Agree.separated (flat : c ≠ '(' ∧ c ≠ ')') (agree : Agree text depth depth element element') :
    Agree text depth depth (Parser.separated c element) (Parser.separated c element') := by
  have others : Agree text depth depth
      (fun cursor => Parser.further c element cursor.rest.length cursor)
      (fun cursor => Parser.further c element' cursor.rest.length cursor) :=
    fun cursor here => agree.further flat cursor.rest.length cursor here
  exact agree.bind fun first => others.bind fun others => agree_pure (first :: others)

theorem Agree.separatedOrNone (flat : c ≠ '(' ∧ c ≠ ')')
    (agree : Agree text depth depth element element') :
    Agree text depth depth (Parser.separatedOrNone c element) (Parser.separatedOrNone c element') :=
  (agree.separated flat).orElse (agree_pure [])

end Repetition

theorem agree_list : Agree text depth depth Grammar.list Grammar.list := by
  refine Agree.bind (Agree.located ?_ : Agree text depth depth _ _) fun _ => agree_pure _
  refine (agree_symbol '(').bind fun _ => agree_spacing.bind fun _ => ?_
  refine (agree_token.separatedOrNone (by decide)).bind fun _ => agree_spacing.bind fun _ => ?_
  exact (agree_symbol ')').bind fun _ => agree_pure _

theorem agree_value : Agree text depth depth Grammar.value Grammar.value :=
  agree_list.orElse (Agree.map (agree_token.optional.located.bind fun _ => agree_pure _))

theorem agree_comparisonName :
    Agree text depth depth Grammar.comparisonName Grammar.comparisonName :=
  Agree.optional (agree_token.bind fun _ => (agree_delimiter (by decide)).bind fun _ => agree_pure _)

theorem agree_comparison : Agree text depth depth Grammar.comparison Grammar.comparison := by
  refine Agree.bind (Agree.located ?_ : Agree text depth depth _ _) fun _ => agree_pure _
  refine agree_token.bind fun _ => (agree_delimiter (by decide)).bind fun _ => ?_
  exact agree_comparisonName.bind fun _ => agree_value.bind fun _ => agree_pure _

/-! ## Nested rules -/

section Nested

variable {nested nested' : Nested}
  (query : Agree text (depth + 1) (depth + 1) nested.query nested'.query)
  (argument : Agree text (depth + 1) (depth + 1) nested.argument nested'.argument)

include query in
theorem agree_group : Agree text depth depth (group nested) (group nested') := by
  refine (agree_symbol '(').bind fun _ => agree_spacing.bind fun _ => query.bind fun _ => ?_
  exact agree_spacing.bind fun _ => (agree_symbol ')').committed.bind fun _ => agree_pure _

include argument in
theorem agree_call : Agree text depth depth (call nested) (call nested') := by
  refine Agree.bind (Agree.located ?_ : Agree text depth depth _ _) fun _ => agree_pure _
  refine agree_name.bind fun _ => (agree_symbol '(').bind fun _ =>
    Agree.bind (Agree.committed ?_ : Agree text _ depth _ _) fun _ => agree_pure _
  refine agree_spacing.bind fun _ => (argument.separatedOrNone (by decide)).bind fun _ => ?_
  exact agree_spacing.bind fun _ => (agree_symbol ')').bind fun _ => agree_pure _

include query argument

theorem agree_term : Agree text depth depth (term nested) (term nested') :=
  (agree_group query).orElse ((agree_call argument).orElse agree_comparison)

theorem agree_conjunction : Agree text depth depth (conjunction nested) (conjunction nested') :=
  ((agree_term query argument).separated (by decide)).located.bind fun _ => agree_pure _

theorem agree_disjunction : Agree text depth depth (disjunction nested) (disjunction nested') :=
  ((agree_conjunction query argument).separated (by decide)).located.bind fun _ => agree_pure _

theorem agree_argument :
    Agree text depth depth (Grammar.argument nested) (Grammar.argument nested') :=
  (agree_call argument).orElse <| agree_comparison.orElse <| (agree_group query).orElse <|
    agree_list.orElse agree_token.map

end Nested

/-! ## Levels -/

/-- Levels behind those that the nesting of a text can reach change nothing. -/
theorem agree_nested (more : Nat) {levels : Nat} (enough : nesting text < levels + depth) :
    Agree text depth depth (nested levels).query (nested (levels + more)).query ∧
      Agree text depth depth (nested levels).argument (nested (levels + more)).argument := by
  induction levels generalizing depth with
  | zero =>
    -- Nowhere in the text are so many parentheses open.
    have nowhere {cursor : Cursor} (here : cursor.At text depth) : False := by
      have := here.depth_le
      omega
    exact ⟨fun _ here => (nowhere here).elim, fun _ here => (nowhere here).elim⟩
  | succ levels ih =>
    have within : nesting text < levels + (depth + 1) := by omega
    obtain ⟨query, argument⟩ := ih within
    rw [Nat.succ_add]
    exact ⟨agree_disjunction query argument, agree_argument query argument⟩

namespace Grammar

/-- A query and the blanks around it, read with so many levels. -/
def wholeWithin (levels : Nat) : Parser Expr := do
  spacing
  let expr ← (nested levels).query
  spacing
  return expr

theorem whole_eq_wholeWithin (text : List Char) : whole text = wholeWithin (text.count '(' + 1) := rfl

end Grammar

/-- Each level of nesting takes a parenthesis. -/
theorem nestingFrom_le_count (depth : Nat) (text : List Char) :
    nestingFrom depth text ≤ depth + text.count '(' := by
  induction text generalizing depth with
  | nil => exact Nat.le_refl _
  | cons c cs ih =>
    have later := ih (depthBehind depth c)
    have behind : depthBehind depth c + cs.count '(' ≤ depth + (c :: cs).count '(' := by
      unfold depthBehind
      split
      · next opening => simp [opening, Nat.add_assoc, Nat.add_comm 1]
      · next other =>
        rw [List.count_cons_of_ne other]
        split <;> omega
    rw [nestingFrom_cons]
    omega

/-- **Main.** A text is read with any number of levels beyond its nesting as it is read with one for
each of its parentheses. -/
theorem wholeWithin_eq_whole {levels : Nat} (enough : nesting text < levels) :
    wholeWithin levels ⟨0, text⟩ = whole text ⟨0, text⟩ := by
  have start : Cursor.At ⟨0, text⟩ text 0 := ⟨.start text, rfl, rfl, rfl⟩
  have agree (levels more : Nat) (enough : nesting text < levels) :
      wholeWithin levels ⟨0, text⟩ = wholeWithin (levels + more) ⟨0, text⟩ := by
    have inside : Agree text 0 0 (nested levels).query (nested (levels + more)).query :=
      (agree_nested more enough).1
    exact ((agree_spacing.bind fun _ => inside.bind fun _ => agree_spacing.bind fun _ =>
      agree_pure _) _ start).1
  have counted : nesting text < text.count '(' + 1 := by
    have := nestingFrom_le_count 0 text
    rw [nesting]
    omega
  rw [whole_eq_wholeWithin, agree levels (text.count '(' + 1) enough, agree _ levels counted,
    Nat.add_comm]

end ResourceQuery.Surface
