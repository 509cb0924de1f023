import ResourceQuery.Proofs.Surface.Outcomes

/-!
# What the grammar reads is derived

`Reads parser relation` says that whatever a parser finds stands in a relation to the places it
starts and ends at. Each parser of the grammar has one such lemma, with the derivations of its rule
for the relation. A token can only be told to be maximal where none goes on before it, which is
true behind every delimiter and all blanks there.
-/

namespace ResourceQuery.Surface
set_option autoImplicit false
open Text Grammar Surface.Parser

variable {p q : Place}

/-! ## Fresh places -/

namespace Place

theorem fresh_start (text : List Char) : (Place.start text).Fresh := by simp [Fresh, start]

theorem Moves.fresh_of_last {taken : List Char} {c : Char} (moves : p.Moves (taken ++ [c]) q)
    (ends : continuesToken c = false) : q.Fresh := by
  simpa [Fresh, moves.1, ← List.append_assoc] using ends

end Place

theorem Mark.fresh {c : Char} (mark : Mark c p q) (isMark : isDelimiter c = true) : q.Fresh := by
  have moves : p.Moves ([] ++ [c]) q := mark
  exact moves.fresh_of_last (by simp [continuesToken, isMark])

theorem Blanks.fresh (blanks : Blanks p q) (fresh : p.Fresh) : q.Fresh := by
  obtain ⟨taken, spacing, moves⟩ := blanks
  rcases taken.eq_nil_or_concat with rfl | ⟨others, c, rfl⟩
  · simpa [Place.Fresh, moves.1] using fresh
  · rw [List.concat_eq_append] at moves
    refine moves.fresh_of_last ?_
    have isSpacing : isSpacing c = true := by simp_all
    simp [continuesToken, isBlank_of_isSpacing isSpacing]

theorem Blanks.trans {r : Place} (blanks : Blanks p q) (blanks' : Blanks q r) : Blanks p r := by
  obtain ⟨taken, spacing, moves⟩ := blanks
  obtain ⟨taken', spacing', moves'⟩ := blanks'
  exact ⟨taken ++ taken', by simp [spacing, spacing'], moves.trans moves'⟩

theorem Around.fresh {c : Char} (around : Around c p q) (isMark : isDelimiter c = true) :
    q.Fresh := by
  obtain ⟨a, b, _, mark, blanks⟩ := around
  exact blanks.fresh (mark.fresh isMark)

/-! ## Reading -/

section Reading

variable {α β : Type}

/-- Whatever a parser finds from a place on leads to another place, and stands in the relation to
both of them. -/
def Reads (parser : Parser α) (relation : Place → α → Place → Prop) : Prop :=
  ∀ p cursor value next, cursor.rest = p.after → parser cursor = .found value next →
    ∃ q, next.rest = q.after ∧ relation p value q

variable {parser : Parser α} {relation weaker : Place → α → Place → Prop}

theorem Reads.weaken (reads : Reads parser relation)
    (implies : ∀ p value q, relation p value q → weaker p value q) : Reads parser weaker := by
  intro p cursor value next here found
  obtain ⟨q, there, related⟩ := reads p cursor value next here found
  exact ⟨q, there, implies p value q related⟩

theorem Reads.orElse {second : Parser α} (reads : Reads parser relation)
    (reads' : Reads second relation) : Reads (Parser.orElse parser second) relation := by
  intro p cursor value next here found
  rcases orElse_eq_found found with found | found
  · exact reads p cursor value next here found
  · exact reads' p cursor value next here found

/-- Reading goes on at the place behind all that was read. -/
theorem Reads.of_rest {taken : List Char} {next : Cursor} (split : p.after = taken ++ next.rest) :
    ∃ q, next.rest = q.after ∧ p.Moves taken q :=
  ⟨⟨p.before ++ taken, next.rest⟩, rfl, rfl, split⟩

theorem reads_spacing : Reads spacing fun p _ q => Blanks p q := by
  intro p cursor value next here found
  have split : p.after = p.after.takeWhile isSpacing ++ next.rest := by
    rw [spacing_eq_found found, here, List.takeWhile_append_dropWhile]
  obtain ⟨q, there, moves⟩ := Reads.of_rest split
  exact ⟨q, there, _, List.all_takeWhile, moves⟩

theorem reads_symbol (c : Char) : Reads (symbol c) fun p _ q => Mark c p q := by
  intro p cursor value next here found
  have split : p.after = [c] ++ next.rest := here ▸ symbol_eq_found found
  exact Reads.of_rest split

theorem reads_delimiter (c : Char) : Reads (delimiter c) fun p _ q => Around c p q := by
  intro p cursor value next here found
  simp only [delimiter, bind_eq_found] at found
  obtain ⟨_, _, before, _, _, mark, behind⟩ := found
  obtain ⟨a, here, before⟩ := reads_spacing p _ _ _ here before
  obtain ⟨b, here, mark⟩ := reads_symbol c a _ _ _ here mark
  obtain ⟨q, here, behind⟩ := reads_spacing b _ _ _ here behind
  exact ⟨q, here, a, b, before, mark, behind⟩

/-- Further elements stand in any relation that starts from none and takes up one element behind
a delimiter at a time. -/
theorem Reads.further {c : Char} {rounds : Nat} {series : Place → List α → Place → Prop}
    (reads : Reads parser relation) (none : ∀ p, series p [] p)
    (more : ∀ p a value b values q, Around c p a → relation a value b → series b values q →
      series p (value :: values) q) : Reads (Parser.further c parser rounds) series := by
  induction rounds with
  | zero =>
    intro p cursor values next here found
    obtain ⟨rfl, rfl⟩ := pure_eq_found.1 found
    exact ⟨p, here, none p⟩
  | succ rounds ih =>
    intro p cursor values next here found
    rcases orElse_eq_found found with found | found
    · simp only [bind_eq_found, pure_eq_found] at found
      obtain ⟨_, _, between, value, _, first, others, _, tail, rfl, rfl⟩ := found
      obtain ⟨a, here, between⟩ := reads_delimiter c p _ _ _ here between
      obtain ⟨b, here, first⟩ := reads a _ _ _ here first
      obtain ⟨q, here, tail⟩ := ih b _ _ _ here tail
      exact ⟨q, here, more p a value b others q between first tail⟩
    · obtain ⟨rfl, rfl⟩ := pure_eq_found.1 found
      exact ⟨p, here, none p⟩

theorem Reads.separated {c : Char} {series : Place → List α → Place → Prop}
    (reads : Reads parser relation)
    (further : ∀ rounds, Reads (Parser.further c parser rounds) series) :
    Reads (Parser.separated c parser) fun p values q =>
      ∃ first others a, values = first :: others ∧ relation p first a ∧ series a others q := by
  intro p cursor values next here found
  obtain ⟨first, mid, others, head, tail, rfl⟩ := separated_eq_found.1 found
  obtain ⟨a, here, head⟩ := reads p _ _ _ here head
  obtain ⟨q, here, tail⟩ := further mid.rest.length a _ _ _ here tail
  exact ⟨q, here, first, others, a, rfl, head, tail⟩

theorem Reads.separatedOrNone {c : Char} {series : Place → List α → Place → Prop}
    (reads : Reads (Parser.separated c parser) series) :
    Reads (Parser.separatedOrNone c parser) fun p values q =>
      values = [] ∧ p = q ∨ series p values q := by
  intro p cursor values next here found
  rcases orElse_eq_found found with found | found
  · obtain ⟨q, here, related⟩ := reads p cursor values next here found
    exact ⟨q, here, .inr related⟩
  · obtain ⟨rfl, rfl⟩ := pure_eq_found.1 found
    exact ⟨p, here, .inl ⟨rfl, rfl⟩⟩

end Reading

/-! ## Tokens -/

theorem reads_token : Reads token fun p word q => p.Fresh → Word p word.text q := by
  intro p cursor value next here found
  simp only [token, bind_eq_found, located_eq_found, pure_eq_found] at found
  obtain ⟨_, next, ⟨text, found, rfl⟩, rfl, rfl⟩ := found
  obtain ⟨c, cs, rest, first, rfl, behind⟩ := word_eq_found found
  have split : p.after = (c :: cs.takeWhile continuesToken) ++ next.rest := by
    rw [← here, rest, behind, List.cons_append, List.takeWhile_append_dropWhile]
  obtain ⟨q, here, moves⟩ := Reads.of_rest split
  refine ⟨q, here, fun fresh => ?_⟩
  have stale : q.Stale := by
    intro d mem
    rw [← here, behind] at mem
    have ends := List.head?_dropWhile_not continuesToken cs
    simpa [Option.mem_def.1 mem] using ends
  refine ⟨by simpa using moves, by simp, ?_, fresh, stale⟩
  simp [first, -List.all_eq_true, List.all_takeWhile]

theorem reads_name : Reads name fun p text q => Name p text q := by
  intro p cursor value next here found
  simp only [name, bind_eq_found, pure_eq_found] at found
  obtain ⟨_, next, found, rfl, rfl⟩ := found
  obtain ⟨c, cs, rest, first, rfl, behind⟩ := word_eq_found found
  have split : p.after = (c :: cs.takeWhile continuesName) ++ next.rest := by
    rw [← here, rest, behind, List.cons_append, List.takeWhile_append_dropWhile]
  obtain ⟨q, here, moves⟩ := Reads.of_rest split
  exact ⟨q, here, by simpa using moves, c, cs.takeWhile continuesName, by simp, first,
    List.all_takeWhile⟩

theorem reads_words (rounds : Nat) : Reads (further ',' token rounds) fun p words q =>
    Words p (words.map Token.text) q := by
  refine reads_token.further (fun p => .nil) fun p a word b words q comma isWord others => ?_
  exact .cons comma (isWord (comma.fresh rfl)) others

theorem reads_list : Reads list fun p expr q => DerivesList p expr.form q := by
  intro p cursor value next here found
  simp only [list, bind_eq_found, located_eq_found, pure_eq_found] at found
  obtain ⟨_, _, ⟨items, ⟨_, _, opening, _, _, blanks, _, _, words, _, _, blanks', _, _, closing,
    rfl, rfl⟩, rfl⟩, rfl, rfl⟩ := found
  obtain ⟨a, here, opening⟩ := reads_symbol '(' p _ _ _ here opening
  obtain ⟨b, here, blanks⟩ := reads_spacing a _ _ _ here blanks
  obtain ⟨c, here, words⟩ :=
    (reads_token.separated reads_words).separatedOrNone b _ _ _ here words
  obtain ⟨d, here, blanks'⟩ := reads_spacing c _ _ _ here blanks'
  obtain ⟨q, here, closing⟩ := reads_symbol ')' d _ _ _ here closing
  refine ⟨q, here, ?_⟩
  rcases words with ⟨rfl, rfl⟩ | ⟨first, others, e, rfl, word, words⟩
  · exact .none opening (blanks.trans blanks') closing
  · exact .some opening blanks (word (blanks.fresh (opening.fresh rfl))) words blanks' closing

/-! ## Shorthand comparisons -/

theorem reads_value : Reads value fun p expr q => p.Fresh → DerivesValue p expr.form q := by
  refine Reads.orElse (reads_list.weaken fun p expr q list _ => .list list) ?_
  intro p cursor expr next here found
  simp only [optionalToken, map_eq_found, bind_eq_found, located_eq_found, pure_eq_found] at found
  obtain ⟨_, ⟨_, _, ⟨word, found, rfl⟩, rfl, rfl⟩, rfl⟩ := found
  rcases optional_eq_found found with ⟨word, read, rfl⟩ | ⟨rfl, rfl⟩
  · obtain ⟨q, here, isWord⟩ := reads_token p _ _ _ here read
    exact ⟨q, here, fun fresh => .token (isWord fresh)⟩
  · exact ⟨p, here, fun _ => .empty⟩

theorem reads_comparison :
    Reads comparison fun p expr q => p.Fresh → DerivesComparison p expr.form q := by
  intro p cursor expr next here found
  simp only [comparison, bind_eq_found, located_eq_found, pure_eq_found] at found
  obtain ⟨_, _, ⟨_, ⟨field, _, word, _, _, equals, op, _, name, value, _, read, rfl, rfl⟩, rfl⟩,
    rfl, rfl⟩ := found
  obtain ⟨a, here, word⟩ := reads_token p _ _ _ here word
  obtain ⟨b, here, around⟩ := reads_delimiter '=' a _ _ _ here equals
  rcases optional_eq_found name with ⟨op, named, rfl⟩ | ⟨rfl, rfl⟩
  · simp only [bind_eq_found, pure_eq_found] at named
    obtain ⟨op, _, opName, _, _, equals', rfl, rfl⟩ := named
    obtain ⟨c, here, opName⟩ := reads_token b _ _ _ here opName
    obtain ⟨d, here, equals'⟩ := reads_delimiter '=' c _ _ _ here equals'
    obtain ⟨q, here, read⟩ := reads_value d _ _ _ here read
    exact ⟨q, here, fun fresh => .named (word fresh) around (opName (around.fresh rfl)) equals'
      (read (equals'.fresh rfl))⟩
  · obtain ⟨q, here, read⟩ := reads_value b _ _ _ here read
    exact ⟨q, here, fun fresh => .plain (word fresh) around (read (around.fresh rfl))⟩

/-! ## Nested parts -/

/-- A parser reads what a rule derives, from places where a token can start. -/
def ReadsRule (parser : Parser Expr) (rule : Rule) : Prop :=
  Reads parser fun p expr q => p.Fresh → Derives rule p expr.form q

/-- Further parts are read as further parts are derived. -/
theorem ReadsRule.further {parser : Parser Expr} {rule : Rule} (reads : ReadsRule parser rule)
    (isMark : isDelimiter rule.separator = true) (rounds : Nat) :
    Reads (Parser.further rule.separator parser rounds) fun p exprs q =>
      DerivesTail rule p (exprs.map Expr.form) q := by
  refine Reads.further reads (fun p => .nil) fun p a expr b exprs q between part others => ?_
  exact .cons between (part (between.fresh isMark)) others

section Levels

variable {nested : Nested} (query : ReadsRule nested.query .disjunction)
  (argument : ReadsRule nested.argument .argument)
include query

theorem reads_group : ReadsRule (group nested) .group := by
  intro p cursor expr next here found
  simp only [group, bind_eq_found, committed_eq_found, pure_eq_found] at found
  obtain ⟨_, _, opening, _, _, blanks, _, _, inside, _, _, blanks', _, _, closing, rfl, rfl⟩ := found
  obtain ⟨a, here, opening⟩ := reads_symbol '(' p _ _ _ here opening
  obtain ⟨b, here, blanks⟩ := reads_spacing a _ _ _ here blanks
  obtain ⟨c, here, inside⟩ := query b _ _ _ here inside
  obtain ⟨d, here, blanks'⟩ := reads_spacing c _ _ _ here blanks'
  obtain ⟨q, here, closing⟩ := reads_symbol ')' d _ _ _ here closing
  exact ⟨q, here, fun _ =>
    .group opening blanks (inside (blanks.fresh (opening.fresh rfl))) blanks' closing⟩

omit query in
include argument in
theorem reads_call : ReadsRule (call nested) .call := by
  intro p cursor expr next here found
  simp only [call, bind_eq_found, committed_eq_found, located_eq_found, pure_eq_found] at found
  obtain ⟨_, _, ⟨_, ⟨text, _, named, _, _, opening, args, _, ⟨_, _, blanks, _, _, parts, _, _,
    blanks', _, _, closing, rfl, rfl⟩, rfl, rfl⟩, rfl⟩, rfl, rfl⟩ := found
  obtain ⟨a, here, named⟩ := reads_name p _ _ _ here named
  obtain ⟨b, here, opening⟩ := reads_symbol '(' a _ _ _ here opening
  obtain ⟨c, here, blanks⟩ := reads_spacing b _ _ _ here blanks
  obtain ⟨d, here, parts⟩ :=
    (Reads.separated argument (argument.further rfl)).separatedOrNone c _ _ _ here parts
  obtain ⟨e, here, blanks'⟩ := reads_spacing d _ _ _ here blanks'
  obtain ⟨q, here, closing⟩ := reads_symbol ')' e _ _ _ here closing
  refine ⟨q, here, fun _ => ?_⟩
  rcases parts with ⟨rfl, rfl⟩ | ⟨first, others, f, rfl, part, parts⟩
  · simpa [Expr.form] using Derives.callNone named opening (blanks.trans blanks') closing
  · have part := part (blanks.fresh (opening.fresh rfl))
    simpa [Expr.form] using Derives.callSome named opening blanks part parts blanks' closing

include argument in
theorem reads_term : ReadsRule (term nested) .term :=
  Reads.orElse ((reads_group query).weaken fun _ _ _ group fresh => .termGroup (group fresh))
    (Reads.orElse ((reads_call argument).weaken fun _ _ _ call fresh => .termCall (call fresh))
      (reads_comparison.weaken fun _ _ _ comparison fresh => .termComparison (comparison fresh)))

include argument in
theorem reads_conjunction : ReadsRule (conjunction nested) .conjunction := by
  intro p cursor expr next here found
  simp only [conjunction, bind_eq_found, located_eq_found, pure_eq_found] at found
  obtain ⟨_, _, ⟨_, found, rfl⟩, rfl, rfl⟩ := found
  have reads := reads_term query argument
  obtain ⟨q, here, first, others, a, rfl, part, parts⟩ :=
    Reads.separated reads (reads.further rfl) p _ _ _ here found
  refine ⟨q, here, fun fresh => ?_⟩
  simpa [form_join_and] using Derives.conjunction (part fresh) parts

include argument in
theorem reads_disjunction : ReadsRule (disjunction nested) .disjunction := by
  intro p cursor expr next here found
  simp only [disjunction, bind_eq_found, located_eq_found, pure_eq_found] at found
  obtain ⟨_, _, ⟨_, found, rfl⟩, rfl, rfl⟩ := found
  have reads := reads_conjunction query argument
  obtain ⟨q, here, first, others, a, rfl, part, parts⟩ :=
    Reads.separated reads (reads.further rfl) p _ _ _ here found
  refine ⟨q, here, fun fresh => ?_⟩
  simpa [form_join_or] using Derives.disjunction (part fresh) parts

include argument in
theorem reads_argument : ReadsRule (Grammar.argument nested) .argument := by
  refine Reads.orElse
    ((reads_call argument).weaken fun _ _ _ call fresh => .argumentCall (call fresh)) <|
    Reads.orElse
      (reads_comparison.weaken fun _ _ _ comparison fresh =>
        .argumentComparison (comparison fresh)) <|
    Reads.orElse
      ((reads_group query).weaken fun _ _ _ group fresh => .argumentGroup (group fresh)) <|
    Reads.orElse (reads_list.weaken fun _ _ _ list _ => .argumentList list) ?_
  intro p cursor expr next here found
  obtain ⟨word, read, rfl⟩ := map_eq_found.1 found
  obtain ⟨q, here, isWord⟩ := reads_token p _ _ _ here read
  exact ⟨q, here, fun fresh => .argumentToken (isWord fresh)⟩

end Levels

/-- What may stand inside of parentheses is read as it is derived, however deep they are nested. -/
theorem reads_nested (levels : Nat) :
    ReadsRule (nested levels).query .disjunction ∧ ReadsRule (nested levels).argument .argument := by
  induction levels with
  | zero => exact ⟨fun _ _ _ _ _ => nofun, fun _ _ _ _ _ => nofun⟩
  | succ levels ih => exact ⟨reads_disjunction ih.1 ih.2, reads_argument ih.1 ih.2⟩

/-- A query that is read to its end has a derivation. -/
theorem derivable_of_whole {text : List Char} {cursor next : Cursor} {expr : Expr}
    (here : cursor.rest = text) (found : whole text cursor = .found expr next)
    (ends : next.rest = []) : Derivable text expr.form := by
  simp only [whole, bind_eq_found, pure_eq_found] at found
  obtain ⟨_, _, blanks, _, _, inside, _, _, blanks', rfl, rfl⟩ := found
  obtain ⟨a, here, blanks⟩ := reads_spacing (.start text) _ _ _ here blanks
  obtain ⟨b, here, inside⟩ := (reads_nested _).1 a _ _ _ here inside
  obtain ⟨q, here, blanks'⟩ := reads_spacing b _ _ _ here blanks'
  exact ⟨a, b, q, blanks, inside (blanks.fresh (Place.fresh_start text)), blanks', here ▸ ends⟩

end ResourceQuery.Surface
