import ResourceQuery.Proofs.Surface.Derivation
import ResourceQuery.Proofs.Surface.Outcomes
import ResourceQuery.Proofs.Text.Runs

/-!
# Characters and tokens that are derived are read

A parser may read on over blanks that a derivation leaves to what follows, so places are compared by
what stands behind the blanks. A delimiter, a token and a name are read where they are derived, and
`Place.Follows` says what may stand behind a part so that it ends there.
-/

namespace ResourceQuery.Surface
set_option autoImplicit false
open Text Grammar Surface.Parser

variable {p q : Place} {cursor next : Cursor} {form : Form} {forms : List Form}

/-! ## Characters -/

theorem continuesToken_of_continuesName {c : Char} (continues : continuesName c = true) :
    continuesToken c = true := by
  have inRange : 48 ≤ c.toNat ∧ c.toNat ≤ 57 ∨ 65 ≤ c.toNat ∧ c.toNat ≤ 90 ∨
      95 = c.toNat ∨ 97 ≤ c.toNat ∧ c.toNat ≤ 122 := by
    change ((decide (65 ≤ c.val ∧ c.val ≤ 90) ||
      (decide (97 ≤ c.val) && decide (c.val ≤ 122))) ||
      (decide (48 ≤ c.val) && decide (c.val ≤ 57)) || c == '_') = true at continues
    simp only [Bool.or_eq_true, Bool.and_eq_true, decide_eq_true_eq, beq_iff_eq,
      UInt32.le_iff_toNat_le] at continues
    rcases continues with ((⟨low, high⟩ | ⟨low, high⟩) | ⟨low, high⟩) | rfl
    · exact .inr (.inl ⟨low, high⟩)
    · exact .inr (.inr (.inr ⟨low, high⟩))
    · exact .inl ⟨low, high⟩
    · exact .inr (.inr (.inl rfl))
  have notBlank : isBlank c = false := by
    simp only [isBlank, blankRanges, List.any_cons, List.any_nil, Bool.or_false,
      Bool.or_eq_false_iff, Bool.and_eq_false_iff, decide_eq_false_iff_not]
    omega
  have notDelimiter : isDelimiter c = false := by
    simp only [isDelimiter, Bool.or_eq_false_iff, beq_eq_false_iff_ne]
    refine ⟨⟨⟨⟨⟨?_, ?_⟩, ?_⟩, ?_⟩, ?_⟩, ?_⟩ <;> rintro rfl <;> simp at inRange
  simp [continuesToken, notBlank, notDelimiter]

theorem continuesName_of_opensName {c : Char} (opens : opensName c = true) :
    continuesName c = true := by
  simp only [opensName, Bool.or_eq_true] at opens
  change (c.isAlpha || c.isDigit || c == '_') = true
  rcases opens with isAlpha | underscore
  · rw [isAlpha, Bool.true_or, Bool.true_or]
  · rw [underscore, Bool.or_true]

theorem isSpacing_of_continuesToken {c : Char} (continues : continuesToken c = true) :
    isSpacing c = false := by
  rw [Bool.eq_false_iff]
  intro spacing
  simp [continuesToken, isBlank_of_isSpacing spacing] at continues

/-- What a rule derives starts with a parenthesis or within a token. -/
def Place.Opens (p : Place) : Prop :=
  ∃ c cs, p.after = c :: cs ∧ (c = '(' ∨ continuesToken c = true)

theorem Place.Opens.dropWhile (opens : p.Opens) : p.after.dropWhile isSpacing = p.after := by
  obtain ⟨c, cs, after, rfl | continues⟩ := opens
  · simp [after, isSpacing]
  · simp [after, isSpacing_of_continuesToken continues]

/-! ## Places apart from blanks -/

/-- Nothing but blanks stands between a cursor and a place, whichever comes first. -/
def Meets (cursor : Cursor) (p : Place) : Prop :=
  cursor.rest.dropWhile isSpacing = p.after.dropWhile isSpacing

theorem meets_of_rest (here : cursor.rest = p.after) : Meets cursor p := by
  rw [Meets, here]

theorem dropWhile_dropWhile (cs : List Char) :
    (cs.dropWhile isSpacing).dropWhile isSpacing = cs.dropWhile isSpacing := by
  induction cs with
  | nil => rfl
  | cons c cs ih => by_cases spacing : isSpacing c = true <;> simp [spacing, ih]

theorem meets_of_rest_dropWhile (here : cursor.rest = p.after.dropWhile isSpacing) :
    Meets cursor p := by
  rw [Meets, here, dropWhile_dropWhile]

theorem dropWhile_append_of_all {taken : List Char} (spacing : taken.all isSpacing = true)
    (cs : List Char) : (taken ++ cs).dropWhile isSpacing = cs.dropWhile isSpacing := by
  induction taken with
  | nil => rfl
  | cons c taken ih => simp_all

theorem Blanks.dropWhile (blanks : Blanks p q) :
    p.after.dropWhile isSpacing = q.after.dropWhile isSpacing := by
  obtain ⟨taken, spacing, moves⟩ := blanks
  rw [moves.2, dropWhile_append_of_all spacing]

theorem Blanks.refl (p : Place) : Blanks p p :=
  ⟨[], rfl, by simp [Place.Moves]⟩

theorem spacing_of_blanks (here : Meets cursor p) (blanks : Blanks p q) :
    ∃ next, spacing cursor = .found () next ∧ next.rest = q.after.dropWhile isSpacing := by
  obtain ⟨next, found, rest⟩ := spacing_found cursor
  exact ⟨next, found, rest.trans (here.trans blanks.dropWhile)⟩

theorem symbol_of_mark {c : Char} (here : cursor.rest = p.after) (mark : Mark c p q) :
    ∃ next, symbol c cursor = .found () next ∧ next.rest = q.after :=
  symbol_of_rest (here.trans mark.2)

theorem Mark.dropWhile {c : Char} (mark : Mark c p q) (isMark : isDelimiter c = true) :
    p.after.dropWhile isSpacing = p.after := by
  rw [mark.2, List.singleton_append, List.dropWhile_cons_of_neg]
  intro spacing
  simp only [isSpacing, Bool.or_eq_true, beq_iff_eq] at spacing
  rcases spacing with ((rfl | rfl) | rfl) | rfl <;> simp [isDelimiter] at isMark

/-- Blanks and a symbol behind them are read where they stand. -/
theorem symbol_of_blanks {c : Char} {r : Place} (here : Meets cursor p) (blanks : Blanks p q)
    (mark : Mark c q r) (isMark : isDelimiter c = true) :
    ∃ mid next, spacing cursor = .found () mid ∧ symbol c mid = .found () next ∧
      next.rest = r.after := by
  obtain ⟨mid, found, rest⟩ := spacing_of_blanks here blanks
  obtain ⟨next, found', rest'⟩ := symbol_of_mark (rest.trans (mark.dropWhile isMark)) mark
  exact ⟨mid, next, found, found', rest'⟩

theorem delimiter_of_around {c : Char} (here : Meets cursor p) (around : Around c p q)
    (isMark : isDelimiter c = true) :
    ∃ next, delimiter c cursor = .found () next ∧ next.rest = q.after.dropWhile isSpacing := by
  obtain ⟨a, b, before, mark, behind⟩ := around
  obtain ⟨_, _, first, second, rest⟩ := symbol_of_blanks here before mark isMark
  obtain ⟨next, third, rest⟩ := spacing_of_blanks (meets_of_rest rest) behind
  exact ⟨next, bind_eq_found.2 ⟨_, _, first, bind_eq_found.2 ⟨_, _, second, third⟩⟩, rest⟩

theorem delimiter_misses {c : Char} (here : Meets cursor p)
    (other : c ∉ (p.after.dropWhile isSpacing).head?) : Misses (delimiter c) cursor := by
  obtain ⟨mid, found, rest⟩ := spacing_found cursor
  refine bind_misses_of_found found (bind_misses (symbol_misses ?_))
  rwa [rest, here]

/-! ## Tokens -/

theorem Word.opens {text : String} (word : Word p text q) : p.Opens := by
  obtain ⟨moves, nonempty, continues, -, -⟩ := word
  obtain ⟨c, cs, same⟩ := List.exists_cons_of_ne_nil nonempty
  rw [same] at moves continues
  exact ⟨c, cs ++ q.after, moves.2, .inr (by simp_all)⟩

theorem token_of_word {text : String} (here : cursor.rest = p.after) (isWord : Word p text q) :
    ∃ word next, token cursor = .found word next ∧ word.text = text ∧ next.rest = q.after := by
  obtain ⟨moves, nonempty, continues, -, stale⟩ := isWord
  obtain ⟨c, cs, same⟩ := List.exists_cons_of_ne_nil nonempty
  rw [same] at moves continues
  have accepted : continuesToken c = true ∧ cs.all continuesToken = true := by simp_all
  obtain ⟨taken, left⟩ := takeWhile_append_of_all accepted.2 stale
  obtain ⟨next, found, rest⟩ :=
    word_of_rest continuesToken (here.trans moves.2) accepted.1
  rw [List.append_eq, taken] at found
  refine ⟨⟨String.ofList (c :: cs), ⟨cursor.offset, next.offset⟩⟩, next, ?_, ?_, rest.trans left⟩
  · simp only [token, bind_eq_found, located_eq_found, pure_eq_found]
    exact ⟨_, next, ⟨_, found, rfl⟩, rfl, rfl⟩
  · rw [← same, String.ofList_toList]

theorem token_misses (here : ∀ c ∈ cursor.rest.head?, continuesToken c = false) :
    Misses token cursor :=
  bind_misses (located_misses (word_misses here))

theorem name_of_named {text : String} {r : Place} (here : cursor.rest = p.after)
    (named : Name p text q) (opening : Mark '(' q r) :
    ∃ next, name cursor = .found text next ∧ next.rest = q.after := by
  obtain ⟨moves, c, cs, same, opens, continues⟩ := named
  rw [same] at moves
  have ends : ∀ d ∈ q.after.head?, continuesName d = false := by
    rw [opening.2]
    rintro d ⟨⟩
    decide
  obtain ⟨taken, left⟩ := takeWhile_append_of_all continues ends
  obtain ⟨next, found, rest⟩ :=
    word_of_rest continuesName (here.trans moves.2) opens
  rw [List.append_eq, taken] at found
  refine ⟨next, ?_, rest.trans left⟩
  simp only [name, bind_eq_found, pure_eq_found]
  exact ⟨_, next, found, by rw [← same, String.ofList_toList], rfl⟩

theorem Name.opens {text : String} (named : Name p text q) :
    ∃ c cs, p.after = c :: cs ∧ continuesToken c = true := by
  obtain ⟨moves, c, cs, same, opens, -⟩ := named
  rw [same] at moves
  exact ⟨c, cs ++ q.after, moves.2,
    continuesToken_of_continuesName (continuesName_of_opensName opens)⟩

/-! ## What may follow -/

/-- Behind the blanks at a place stands one of some characters, or the text ends. -/
def Place.Follows (p : Place) (allowed : Char → Bool) : Prop :=
  ∀ c ∈ (p.after.dropWhile isSpacing).head?, allowed c = true

/-- What may stand behind the value of a comparison. -/
def endsValue (c : Char) : Bool :=
  c == ')' || c == '|' || c == '&' || c == ','

theorem Place.Follows.weaken {allowed weaker : Char → Bool} (follows : p.Follows allowed)
    (implies : ∀ c, allowed c = true → weaker c = true) : p.Follows weaker :=
  fun c mem => implies c (follows c mem)

theorem Place.Follows.not_mem {allowed : Char → Bool} {c : Char} (follows : p.Follows allowed)
    (excluded : allowed c = false) : c ∉ (p.after.dropWhile isSpacing).head? :=
  fun mem => by simp [follows c mem] at excluded

theorem Place.Follows.not_parenthesis {allowed : Char → Bool} (follows : p.Follows allowed)
    (excluded : allowed '(' = false := by rfl) : '(' ∉ p.after.head? := by
  intro mem
  obtain ⟨cs, after⟩ := List.head?_eq_some_iff.1 mem
  refine follows.not_mem excluded ?_
  rw [after, List.dropWhile_cons_of_neg (by decide)]
  rfl

theorem Place.Follows.stale (follows : p.Follows endsValue) :
    ∀ c ∈ (p.after.dropWhile isSpacing).head?, continuesToken c = false := by
  intro c mem
  have allowed := follows c mem
  simp only [endsValue, Bool.or_eq_true, beq_iff_eq] at allowed
  rcases allowed with ((rfl | rfl) | rfl) | rfl <;> rfl

/-- A mark follows, perhaps behind blanks. -/
theorem follows_of_blanks {r : Place} {c : Char} {allowed : Char → Bool} (blanks : Blanks p q)
    (mark : Mark c q r) (isMark : isDelimiter c = true) (isAllowed : allowed c = true) :
    p.Follows allowed := by
  intro d mem
  rw [blanks.dropWhile, mark.dropWhile isMark, mark.2] at mem
  obtain rfl : c = d := by simpa using mem
  exact isAllowed

theorem follows_of_around {c : Char} {allowed : Char → Bool} (around : Around c p q)
    (isMark : isDelimiter c = true) (isAllowed : allowed c = true) : p.Follows allowed := by
  obtain ⟨a, b, blanks, mark, -⟩ := around
  exact follows_of_blanks blanks mark isMark isAllowed

end ResourceQuery.Surface
