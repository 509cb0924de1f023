import ResourceQuery.Proofs.Surface.Completeness.Characters

/-!
# Lists and comparisons that are derived are read

The rules without nesting, and the alternatives that come before them: each misses on the text of a
later one, so it is never in the way.
-/

namespace ResourceQuery.Surface
set_option autoImplicit false
open Text Grammar Surface.Parser

variable {p q : Place} {cursor next : Cursor} {form : Form} {forms : List Form}

/-! ## Lists -/

/-- A parser finds a tree of a form, and blanks at most stand between its end and the place. -/
def Finds (parser : Parser Expr) (cursor : Cursor) (form : Form) (q : Place) : Prop :=
  ∃ expr next, parser cursor = .found expr next ∧ expr.form = form ∧ Meets next q

theorem further_of_words {texts : List String} (words : Words p texts q) :
    ∀ {cursor : Cursor} {rounds : Nat}, texts.length ≤ rounds → Meets cursor p →
      q.Follows (· == ')') →
      ∃ items next, further ',' token rounds cursor = .found items next ∧
        items.map Token.text = texts ∧ Meets next q := by
  induction words with
  | nil =>
    intro cursor rounds _ here follows
    refine ⟨[], cursor, ?_, rfl, here⟩
    cases rounds with
    | zero => rfl
    | succ rounds =>
      rw [further, orElse_of_misses (bind_misses (delimiter_misses here (follows.not_mem rfl)))]
      rfl
  | cons comma word others ih =>
    intro cursor rounds enough here follows
    cases rounds with
    | zero => simp at enough
    | succ rounds =>
      obtain ⟨_, between, rest⟩ := delimiter_of_around here comma rfl
      obtain ⟨item, _, found, text, rest⟩ := token_of_word (rest.trans word.opens.dropWhile) word
      obtain ⟨items, next, more, texts, meets⟩ :=
        ih (by simpa using enough) (meets_of_rest rest) follows
      refine ⟨item :: items, next, orElse_of_found ?_, by simp [text, texts], meets⟩
      simp only [bind_eq_found, pure_eq_found]
      exact ⟨_, _, between, item, _, found, items, _, more, rfl, rfl⟩

/-- Behind the first token of a list stands a comma or the end of the list. -/
theorem Words.follows {texts : List String} {a b : Place} (words : Words p texts q)
    (blanks : Blanks q a) (closing : Mark ')' a b) : p.Follows fun c => c == ')' || c == ',' := by
  cases words with
  | nil => exact follows_of_blanks blanks closing rfl rfl
  | cons comma => exact follows_of_around comma rfl rfl

/-- There are at least as many commas in a text as there are tokens behind commas. -/
theorem Words.length_le {texts : List String} (words : Words p texts q) :
    texts.length ≤ p.after.count ',' := by
  induction words with
  | nil => simp
  | cons comma word others ih =>
    obtain ⟨a, b, ⟨_, _, before⟩, mark, ⟨_, _, behind⟩⟩ := comma
    rw [before.2, mark.2, behind.2, word.1.2]
    simp only [List.length_cons, List.count_append, List.count_singleton_self]
    omega

theorem count_dropWhile {c : Char} (mark : isDelimiter c = true) (cs : List Char) :
    (cs.dropWhile isSpacing).count c = cs.count c := by
  induction cs with
  | nil => rfl
  | cons d cs ih =>
    by_cases spacing : isSpacing d = true
    · rw [List.dropWhile_cons_of_pos spacing, ih, List.count_cons_of_ne]
      rintro rfl
      simp only [isSpacing, Bool.or_eq_true, beq_iff_eq] at spacing
      rcases spacing with ((rfl | rfl) | rfl) | rfl <;> simp [isDelimiter] at mark
    · rw [List.dropWhile_cons_of_neg spacing]

/-- As many rounds as a text has characters are enough for all the marks in it. -/
theorem count_le_of_meets {c : Char} (mark : isDelimiter c = true) (here : Meets cursor p) :
    p.after.count c ≤ cursor.rest.length := by
  rw [← count_dropWhile mark, ← here, count_dropWhile mark]
  exact List.count_le_length

theorem separatedOrNone_of_misses {α : Type} {c : Char} {element : Parser α}
    (misses : Misses element cursor) : separatedOrNone c element cursor = .found [] cursor :=
  orElse_of_misses (bind_misses misses)

theorem finds_list (list : DerivesList p form q) (here : cursor.rest = p.after) :
    Finds Grammar.list cursor form q := by
  cases list with
  | none opening blanks closing =>
    obtain ⟨_, first, rest⟩ := symbol_of_mark here opening
    obtain ⟨mid, second, rest⟩ := spacing_of_blanks (meets_of_rest rest) blanks
    have misses : Misses token mid := token_misses (by
      rw [rest, closing.dropWhile rfl, closing.2]
      rintro c ⟨⟩
      rfl)
    obtain ⟨_, next, third, fourth, rest⟩ :=
      symbol_of_blanks (meets_of_rest_dropWhile rest) (.refl _) closing rfl
    refine ⟨.list [] ⟨cursor.offset, next.offset⟩, next, ?_, rfl, meets_of_rest rest⟩
    simp only [Grammar.list, bind_eq_found, located_eq_found, pure_eq_found]
    exact ⟨_, _, ⟨_, ⟨_, _, first, _, _, second, _, _, separatedOrNone_of_misses misses, _, _,
      third, _, _, fourth, rfl, rfl⟩, rfl⟩, rfl, rfl⟩
  | some opening blanks word others blanks' closing =>
    obtain ⟨_, first, rest⟩ := symbol_of_mark here opening
    obtain ⟨_, second, rest⟩ := spacing_of_blanks (meets_of_rest rest) blanks
    obtain ⟨item, mid, found, text, rest⟩ := token_of_word (rest.trans word.opens.dropWhile) word
    have enough := Nat.le_trans others.length_le (count_le_of_meets rfl (meets_of_rest rest))
    obtain ⟨items, _, more, texts, meets⟩ :=
      further_of_words others enough (meets_of_rest rest) (follows_of_blanks blanks' closing rfl rfl)
    obtain ⟨_, next, third, fourth, rest⟩ := symbol_of_blanks meets blanks' closing rfl
    refine ⟨.list (item :: items) ⟨cursor.offset, next.offset⟩, next, ?_,
      by simp [Expr.form, text, texts], meets_of_rest rest⟩
    simp only [Grammar.list, bind_eq_found, located_eq_found, pure_eq_found]
    have all := separated_eq_found.2 ⟨item, mid, items, found, more, rfl⟩
    exact ⟨_, _, ⟨_, ⟨_, _, first, _, _, second, _, _, orElse_of_found all, _, _,
      third, _, _, fourth, rfl, rfl⟩, rfl⟩, rfl, rfl⟩

theorem DerivesList.opening (list : DerivesList p form q) : ∃ a, Mark '(' p a := by
  cases list with
  | none opening | some opening => exact ⟨_, opening⟩

theorem list_misses (here : '(' ∉ cursor.rest.head?) : Misses Grammar.list cursor :=
  bind_misses (located_misses (bind_misses (symbol_misses here)))

/-! ## Shorthand comparisons -/

theorem Word.head {text : String} (word : Word p text q) :
    ∀ c ∈ p.after.head?, continuesToken c = true := by
  obtain ⟨moves, nonempty, continues, -, -⟩ := word
  obtain ⟨d, cs, same⟩ := List.exists_cons_of_ne_nil nonempty
  rw [moves.2, same]
  rintro c ⟨⟩
  simp_all

theorem Word.not_parenthesis {text : String} (word : Word p text q) : '(' ∉ p.after.head? :=
  fun mem => nomatch word.head '(' mem

theorem finds_value (derived : DerivesValue p form q)
    (here : cursor.rest = p.after.dropWhile isSpacing) (follows : q.Follows endsValue) :
    Finds value cursor form q := by
  cases derived with
  | list list =>
    obtain ⟨a, opening⟩ := list.opening
    obtain ⟨expr, next, found, same, meets⟩ :=
      finds_list list (here.trans (opening.dropWhile rfl))
    exact ⟨expr, next, orElse_of_found found, same, meets⟩
  | token word =>
    rw [word.opens.dropWhile] at here
    obtain ⟨item, next, found, rfl, rest⟩ := token_of_word here word
    refine ⟨.token item, next, ?_, rfl, meets_of_rest rest⟩
    rw [value, orElse_of_misses (list_misses (here ▸ word.not_parenthesis))]
    simp only [optionalToken, map_eq_found, bind_eq_found, located_eq_found, pure_eq_found]
    exact ⟨item, ⟨_, next, ⟨_, optional_of_found found, rfl⟩, rfl, rfl⟩, rfl⟩
  | empty =>
    refine ⟨.token ⟨"", ⟨cursor.offset, cursor.offset⟩⟩, cursor, ?_, rfl,
      meets_of_rest_dropWhile here⟩
    rw [value, orElse_of_misses (list_misses (here ▸ follows.not_mem rfl))]
    simp only [optionalToken, map_eq_found, bind_eq_found, located_eq_found, pure_eq_found]
    exact ⟨_, ⟨_, cursor, ⟨_, optional_of_misses (token_misses (here ▸ follows.stale)), rfl⟩, rfl,
      rfl⟩, rfl⟩

/-- No name of a comparison is read before a value. -/
theorem comparisonName_of_value (derived : DerivesValue p form q)
    (here : cursor.rest = p.after.dropWhile isSpacing) (follows : q.Follows endsValue) :
    comparisonName cursor = .found none cursor := by
  refine optional_of_misses ?_
  cases derived with
  | list list =>
    obtain ⟨a, opening⟩ := list.opening
    refine bind_misses (token_misses ?_)
    rw [here, opening.dropWhile rfl, opening.2]
    rintro c ⟨⟩
    rfl
  | token word =>
    obtain ⟨item, _, found, -, rest⟩ := token_of_word (here.trans word.opens.dropWhile) word
    exact bind_misses_of_found found
      (bind_misses (delimiter_misses (meets_of_rest rest) (follows.not_mem rfl)))
  | empty => exact bind_misses (token_misses (here ▸ follows.stale))

theorem finds_comparison (derived : DerivesComparison p form q) (here : cursor.rest = p.after)
    (follows : q.Follows endsValue) : Finds comparison cursor form q := by
  cases derived with
  | plain word equals read =>
    obtain ⟨field, _, found, rfl, rest⟩ := token_of_word here word
    obtain ⟨_, between, rest⟩ := delimiter_of_around (meets_of_rest rest) equals rfl
    have unnamed := comparisonName_of_value read rest follows
    obtain ⟨expr, next, last, rfl, meets⟩ := finds_value read rest follows
    refine ⟨.compare field none expr ⟨cursor.offset, next.offset⟩, next, ?_, rfl, meets⟩
    simp only [comparison, bind_eq_found, located_eq_found, pure_eq_found]
    exact ⟨_, _, ⟨_, ⟨field, _, found, _, _, between, none, _, unnamed, expr, _, last, rfl, rfl⟩,
      rfl⟩, rfl, rfl⟩
  | named word equals name equals' read =>
    obtain ⟨field, _, found, rfl, rest⟩ := token_of_word here word
    obtain ⟨_, between, rest⟩ := delimiter_of_around (meets_of_rest rest) equals rfl
    obtain ⟨op, _, found', rfl, rest⟩ := token_of_word (rest.trans name.opens.dropWhile) name
    obtain ⟨_, between', rest⟩ := delimiter_of_around (meets_of_rest rest) equals' rfl
    obtain ⟨expr, next, last, rfl, meets⟩ := finds_value read rest follows
    refine ⟨.compare field (some op) expr ⟨cursor.offset, next.offset⟩, next, ?_, rfl, meets⟩
    have named : comparisonName _ = .found (some op) _ :=
      optional_of_found (bind_eq_found.2 ⟨op, _, found', bind_eq_found.2
        ⟨_, _, between', pure_eq_found.2 ⟨rfl, rfl⟩⟩⟩)
    simp only [comparison, bind_eq_found, located_eq_found, pure_eq_found]
    exact ⟨_, _, ⟨_, ⟨field, _, found, _, _, between, some op, _, named, expr, _, last, rfl, rfl⟩,
      rfl⟩, rfl, rfl⟩

theorem DerivesComparison.word (derived : DerivesComparison p form q) :
    ∃ field a b, Word p field a ∧ Around '=' a b := by
  cases derived with
  | plain word equals | named word equals => exact ⟨_, _, _, word, equals⟩

/-! ## Alternatives that miss -/

section Missing

variable {nested : Nested}

theorem comparison_misses_of_head (here : ∀ c ∈ cursor.rest.head?, continuesToken c = false) :
    Misses comparison cursor :=
  bind_misses (located_misses (bind_misses (token_misses here)))

/-- A token is no comparison where no equals sign stands behind it. -/
theorem comparison_misses_of_word {text : String} (here : cursor.rest = p.after)
    (word : Word p text q) (other : '=' ∉ (q.after.dropWhile isSpacing).head?) :
    Misses comparison cursor := by
  obtain ⟨field, _, found, -, rest⟩ := token_of_word here word
  exact bind_misses (located_misses (bind_misses_of_found found
    (bind_misses (delimiter_misses (meets_of_rest rest) other))))

theorem call_misses_of_head (here : ∀ c ∈ cursor.rest.head?, continuesToken c = false) :
    Misses (call nested) cursor := by
  refine bind_misses (located_misses (bind_misses (bind_misses (word_misses fun c mem => ?_))))
  rw [Bool.eq_false_iff]
  intro opens
  have continues := continuesToken_of_continuesName (continuesName_of_opensName opens)
  simp [here c mem] at continues

/-- A name that starts a token ends before a parenthesis only if the token does. -/
theorem not_parenthesis_of_dropWhile {cs rest : List Char} (continues : cs.all continuesToken = true)
    (ends : ∀ c ∈ rest.head?, continuesToken c = false) (other : '(' ∉ rest.head?) :
    '(' ∉ ((cs ++ rest).dropWhile continuesName).head? := by
  induction cs with
  | nil =>
    cases rest with
    | nil => simp
    | cons c rest =>
      have ends : ¬continuesName c = true := fun continues => by
        simpa [continuesToken_of_continuesName continues] using ends c (by simp)
      rwa [List.nil_append, List.dropWhile_cons_of_neg ends]
  | cons c cs ih =>
    have continues : continuesToken c = true ∧ cs.all continuesToken = true := by simp_all
    by_cases name : continuesName c = true
    · rw [List.cons_append, List.dropWhile_cons_of_pos name]
      exact ih continues.2
    · rw [List.cons_append, List.dropWhile_cons_of_neg name]
      rintro ⟨⟩
      exact nomatch continues.1

/-- A token is no call where no parenthesis stands right behind it. -/
theorem call_misses_of_word {text : String} (here : cursor.rest = p.after) (word : Word p text q)
    (other : '(' ∉ q.after.head?) : Misses (call nested) cursor := by
  obtain ⟨moves, nonempty, continues, -, stale⟩ := word
  obtain ⟨c, cs, same⟩ := List.exists_cons_of_ne_nil nonempty
  rw [same] at moves continues
  have accepted : continuesToken c = true ∧ cs.all continuesToken = true := by simp_all
  refine bind_misses (located_misses ?_)
  by_cases opens : opensName c = true
  · obtain ⟨mid, found, rest⟩ :=
      word_of_rest continuesName (here.trans moves.2) opens
    have name : name cursor = .found _ mid :=
      bind_eq_found.2 ⟨_, mid, found, pure_eq_found.2 ⟨rfl, rfl⟩⟩
    refine bind_misses_of_found name (bind_misses (symbol_misses ?_))
    rw [rest]
    exact not_parenthesis_of_dropWhile accepted.2 stale other
  · refine bind_misses (bind_misses (word_misses ?_))
    rw [here, moves.2]
    rintro d ⟨⟩
    simpa using opens

theorem group_misses_of_head (here : '(' ∉ cursor.rest.head?) : Misses (group nested) cursor :=
  bind_misses (symbol_misses here)

/-- No query is read where none of the terms is. -/
theorem query_misses (here : '(' ∉ cursor.rest.head?)
    (call : ∀ nested, Misses (call nested) cursor) (comparison : Misses comparison cursor)
    (levels : Nat) : Misses (Grammar.nested levels).query cursor := by
  cases levels with
  | zero => exact ⟨cursor, rfl⟩
  | succ levels =>
    have term : Misses (term (Grammar.nested levels)) cursor :=
      orElse_misses (group_misses_of_head here) (orElse_misses (call _) comparison)
    exact bind_misses (located_misses (bind_misses (bind_misses (located_misses
      (bind_misses term)))))

/-- A list is no group, and found not to be one before the first token of it ends. -/
theorem group_misses_of_list (list : DerivesList p form q) (here : cursor.rest = p.after)
    (levels : Nat) : Misses (group (Grammar.nested levels)) cursor := by
  cases list with
  | none opening blanks closing =>
    obtain ⟨_, first, rest⟩ := symbol_of_mark here opening
    obtain ⟨mid, second, rest⟩ := spacing_of_blanks (meets_of_rest rest) blanks
    rw [closing.dropWhile rfl, closing.2] at rest
    have ends : ∀ c ∈ mid.rest.head?, continuesToken c = false := by
      rw [rest]
      rintro c ⟨⟩
      rfl
    exact bind_misses_of_found first (bind_misses_of_found second (bind_misses
      (query_misses (by simp [rest]) (fun _ => call_misses_of_head ends)
        (comparison_misses_of_head ends) levels)))
  | some opening blanks word others blanks' closing =>
    obtain ⟨_, first, rest⟩ := symbol_of_mark here opening
    obtain ⟨mid, second, rest⟩ := spacing_of_blanks (meets_of_rest rest) blanks
    rw [word.opens.dropWhile] at rest
    have follows := others.follows blanks' closing
    exact bind_misses_of_found first (bind_misses_of_found second (bind_misses
      (query_misses (rest ▸ word.not_parenthesis)
        (fun _ => call_misses_of_word rest word follows.not_parenthesis)
        (comparison_misses_of_word rest word (follows.not_mem rfl)) levels)))

end Missing

end ResourceQuery.Surface
