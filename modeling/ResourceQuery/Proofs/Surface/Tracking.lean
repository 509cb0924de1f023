import ResourceQuery.Proofs.Surface.Derivation

/-!
# Where attempts end

A cursor carries a byte position along with the text that is left, and nothing in a parser compares
the two. `Tracks` says that they fit all along: an attempt that starts at a place of a text ends at a
place of the same text, further on, whether it finds something or not. What it finds satisfies a
condition on the value and the place. There is one rule a combinator.
-/

namespace ResourceQuery.Surface
set_option autoImplicit false
open Text

/-! ## Places of one text -/

namespace Place

/-- The cursor at a place. -/
def cursor (p : Place) : Cursor :=
  ⟨size p.before, p.after⟩

/-- The text that the place stands in. -/
def text (p : Place) : List Char :=
  p.before ++ p.after

/-- The span between two places. -/
def spanTo (p q : Place) : Span :=
  ⟨size p.before, size q.before⟩

/-- The one place stands behind the other, or they are the same. -/
def Reaches (p q : Place) : Prop :=
  ∃ taken, p.Moves taken q

/-- The one place stands behind the other, with text in between. -/
def Advances (p q : Place) : Prop :=
  ∃ taken, taken ≠ [] ∧ p.Moves taken q

variable {p q r : Place}

theorem Moves.reaches {taken : List Char} (moves : p.Moves taken q) : p.Reaches q :=
  ⟨taken, moves⟩

theorem Reaches.refl (p : Place) : p.Reaches p :=
  ⟨[], by simp [Moves]⟩

theorem Reaches.trans (reaches : p.Reaches q) (reaches' : q.Reaches r) : p.Reaches r := by
  obtain ⟨_, moves⟩ := reaches
  obtain ⟨_, moves'⟩ := reaches'
  exact ⟨_, moves.trans moves'⟩

theorem Reaches.text_eq (reaches : p.Reaches q) : q.text = p.text := by
  obtain ⟨taken, before, after⟩ := reaches
  rw [text, text, before, after, List.append_assoc]

theorem Advances.reaches (advances : p.Advances q) : p.Reaches q := by
  obtain ⟨taken, _, moves⟩ := advances
  exact ⟨taken, moves⟩

theorem Advances.trans_reaches (advances : p.Advances q) (reaches : q.Reaches r) :
    p.Advances r := by
  obtain ⟨taken, nonempty, moves⟩ := advances
  obtain ⟨taken', moves'⟩ := reaches
  exact ⟨taken ++ taken', by simp [nonempty], moves.trans moves'⟩

theorem Reaches.trans_advances (reaches : p.Reaches q) (advances : q.Advances r) :
    p.Advances r := by
  obtain ⟨taken, moves⟩ := reaches
  obtain ⟨taken', nonempty, moves'⟩ := advances
  exact ⟨taken ++ taken', by simp [nonempty], moves.trans moves'⟩

/-- Skipping some of the text behind a place leads to the place behind it. -/
theorem exists_skip {taken rest : List Char} (here : p.after = taken ++ rest) :
    ∃ q, p.cursor.skip taken = q.cursor ∧ q.after = rest ∧ p.Moves taken q := by
  refine ⟨⟨p.before ++ taken, rest⟩, ?_, rfl, rfl, here⟩
  simp [cursor, Cursor.skip, here]

end Place

/-! ## Attempts -/

section Attempts

variable {α β : Type}

/-- An attempt from a place on ends at a place of the same text, and what it finds satisfies the
condition. -/
inductive EndsAt (p : Place) (post : α → Place → Prop) : Outcome α → Prop
  | found {value : α} {q : Place} (reaches : p.Reaches q) (holds : post value q) :
      EndsAt p post (.found value q.cursor)
  | missed {q : Place} (reaches : p.Reaches q) : EndsAt p post (.missed q.cursor)
  | unclosed {q : Place} (reaches : p.Reaches q) : EndsAt p post (.unclosed q.cursor)

/-- So does every attempt of the parser from that place on. -/
def Tracks (p : Place) (parser : Parser α) (post : α → Place → Prop) : Prop :=
  EndsAt p post (parser p.cursor)

variable {p q : Place} {parser : Parser α} {post weaker : α → Place → Prop}

theorem EndsAt.weaken {outcome : Outcome α} (ends : EndsAt p post outcome)
    (implies : ∀ value q, p.Reaches q → post value q → weaker value q) :
    EndsAt p weaker outcome := by
  cases ends with
  | found reaches holds => exact .found reaches (implies _ _ reaches holds)
  | missed reaches => exact .missed reaches
  | unclosed reaches => exact .unclosed reaches

/-- What ends behind a later place ends behind an earlier one. -/
theorem EndsAt.after {outcome : Outcome α} (reaches : p.Reaches q) (ends : EndsAt q post outcome) :
    EndsAt p post outcome := by
  cases ends with
  | found reaches' holds => exact .found (reaches.trans reaches') holds
  | missed reaches' => exact .missed (reaches.trans reaches')
  | unclosed reaches' => exact .unclosed (reaches.trans reaches')

theorem Tracks.weaken (tracks : Tracks p parser post)
    (implies : ∀ value q, p.Reaches q → post value q → weaker value q) : Tracks p parser weaker :=
  EndsAt.weaken tracks implies

theorem tracks_pure {value : α} (holds : post value p) : Tracks p (Pure.pure value) post :=
  .found (.refl p) holds

/-- One thing after another: what the first one finds is what the second one may rely on. -/
theorem Tracks.bind {next : α → Parser β} {goal : β → Place → Prop} (tracks : Tracks p parser post)
    (later : ∀ value q, p.Reaches q → post value q → Tracks q (next value) goal) :
    Tracks p (parser >>= next) goal := by
  change EndsAt p goal (Parser.bind parser next p.cursor)
  unfold Tracks at tracks
  unfold Parser.bind
  cases outcome : parser p.cursor <;> rw [outcome] at tracks <;> cases tracks
  case found value _ reaches holds => exact (later value _ reaches holds).after reaches
  case missed reaches => exact .missed reaches
  case unclosed reaches => exact .unclosed reaches

theorem Tracks.map {change : α → β} {goal : β → Place → Prop} (tracks : Tracks p parser post)
    (changed : ∀ value q, p.Reaches q → post value q → goal (change value) q) :
    Tracks p (change <$> parser) goal :=
  Tracks.bind tracks fun value q reaches holds => tracks_pure (changed value q reaches holds)

theorem Tracks.orElse {second : Parser α} (tracks : Tracks p parser post)
    (tracks' : Tracks p second post) : Tracks p (Parser.orElse parser second) post := by
  unfold Tracks Parser.orElse
  split
  · exact tracks'
  · exact tracks

theorem Tracks.optional {goal : Option α → Place → Prop} (tracks : Tracks p parser post)
    (some : ∀ value q, p.Reaches q → post value q → goal (some value) q) (none : goal none p) :
    Tracks p (Parser.optional parser) goal :=
  (tracks.map some).orElse (tracks_pure none)

theorem Tracks.committed (tracks : Tracks p parser post) :
    Tracks p (Parser.committed parser) post := by
  unfold Tracks at tracks ⊢
  unfold Parser.committed
  split
  · next missed =>
    rw [missed] at tracks
    cases tracks with
    | missed reaches => exact .unclosed reaches
  · exact tracks

theorem Tracks.located (tracks : Tracks p parser post) :
    Tracks p (Parser.located parser) fun found q =>
      ∃ value, found = (value, p.spanTo q) ∧ post value q := by
  unfold Tracks at tracks ⊢
  unfold Parser.located
  cases outcome : parser p.cursor <;> rw [outcome] at tracks <;> cases tracks
  case found value _ reaches holds => exact .found reaches ⟨value, rfl, holds⟩
  case missed reaches => exact .missed reaches
  case unclosed reaches => exact .unclosed reaches

/-! ## Characters -/

theorem tracks_spacing : Tracks p Parser.spacing fun _ q => Blanks p q := by
  have here : p.after = p.after.takeWhile isSpacing ++ p.after.dropWhile isSpacing :=
    List.takeWhile_append_dropWhile.symm
  obtain ⟨q, cursor, -, moves⟩ := Place.exists_skip here
  change EndsAt p _ (.found () (p.cursor.skip (p.after.takeWhile isSpacing)))
  rw [cursor]
  exact .found moves.reaches ⟨_, List.all_takeWhile, moves⟩

theorem tracks_symbol (c : Char) : Tracks p (Parser.symbol c) fun _ q => Mark c p q := by
  unfold Tracks Parser.symbol
  split
  · next d rest here =>
    split
    · next same =>
      subst same
      have here' : p.after = [d] ++ rest := here
      obtain ⟨q, cursor, -, moves⟩ := Place.exists_skip here'
      rw [cursor]
      exact .found moves.reaches moves
    · exact .missed (.refl p)
  · exact .missed (.refl p)

theorem tracks_word (opens continues : Char → Bool) :
    Tracks p (Parser.word opens continues) fun taken q => p.Moves taken q ∧
      ∃ first others, taken = first :: others ∧ opens first = true ∧
        others.all continues = true := by
  unfold Tracks Parser.word
  split
  · exact .missed (.refl p)
  · next c rest here =>
    split
    · next opening =>
      have here' : p.after = (c :: rest.takeWhile continues) ++ rest.dropWhile continues := by
        rw [List.cons_append, List.takeWhile_append_dropWhile]
        exact here
      obtain ⟨q, cursor, -, moves⟩ := Place.exists_skip here'
      dsimp only
      rw [cursor]
      exact .found moves.reaches ⟨moves, c, _, rfl, opening, List.all_takeWhile⟩
    · exact .missed (.refl p)

theorem tracks_delimiter (c : Char) : Tracks p (Parser.delimiter c) fun _ q => Around c p q :=
  tracks_spacing.bind fun _ a _ blanks => (tracks_symbol c).bind fun _ b _ mark =>
    tracks_spacing.weaken fun _ _ _ blanks' => ⟨a, b, blanks, mark, blanks'⟩

/-! ## Repetition -/

/-- Values that stand one behind another between two places, perhaps with text around each. -/
inductive Series (relation : Place → α → Place → Prop) : Place → List α → Place → Prop
  | nil {p q : Place} (reaches : p.Reaches q) : Series relation p [] q
  | cons {p a b q : Place} {value : α} {values : List α} (reaches : p.Reaches a)
      (here : relation a value b) (others : Series relation b values q) :
      Series relation p (value :: values) q

/-- A value that stands somewhere between two places. -/
def Within (relation : Place → α → Place → Prop) (p : Place) (value : α) (q : Place) : Prop :=
  ∃ a b, p.Reaches a ∧ relation a value b ∧ b.Reaches q

variable {relation : Place → α → Place → Prop} {value : α} {values : List α} {a b : Place}

/-- A value stands within its own bounds. -/
theorem Within.of_relation (here : relation p value q) : Within relation p value q :=
  ⟨p, q, .refl p, here, .refl q⟩

theorem Within.widen (reaches : p.Reaches a) (within : Within relation a value b)
    (reaches' : b.Reaches q) : Within relation p value q := by
  obtain ⟨c, d, before, here, behind⟩ := within
  exact ⟨c, d, reaches.trans before, here, behind.trans reaches'⟩

theorem Series.widen (reaches : p.Reaches a) (series : Series relation a values b)
    (reaches' : b.Reaches q) : Series relation p values q := by
  induction series generalizing p with
  | nil between => exact .nil (reaches.trans (between.trans reaches'))
  | cons between here _ ih => exact .cons (reaches.trans between) here (ih (.refl _) reaches')

theorem Series.cons_within (within : Within relation p value a)
    (others : Series relation a values q) : Series relation p (value :: values) q := by
  obtain ⟨c, d, before, here, behind⟩ := within
  exact .cons before here (others.widen behind (.refl q))

theorem Series.reaches (series : Series relation p values q)
    (ahead : ∀ value ∈ values, ∀ a b, relation a value b → a.Reaches b) : p.Reaches q := by
  induction series with
  | nil reaches => exact reaches
  | cons reaches here _ ih =>
    obtain ⟨first, rest⟩ := List.forall_mem_cons.1 ahead
    exact reaches.trans ((first _ _ here).trans (ih rest))

/-- Each value of a series stands somewhere between its ends. -/
theorem Series.within_of_mem (series : Series relation p values q)
    (ahead : ∀ value ∈ values, ∀ a b, relation a value b → a.Reaches b) (mem : value ∈ values) :
    Within relation p value q := by
  induction series with
  | nil => simp at mem
  | cons reaches here others ih =>
    obtain ⟨first, rest⟩ := List.forall_mem_cons.1 ahead
    rcases List.mem_cons.1 mem with rfl | mem
    · exact ⟨_, _, reaches, here, others.reaches rest⟩
    · exact (ih rest mem).widen (reaches.trans (first _ _ here)) (.refl _)

theorem tracks_further (c : Char) {element : Parser α}
    (each : ∀ p, Tracks p element (Within relation p)) (rounds : Nat) :
    Tracks p (Parser.further c element rounds) fun values q => Series relation p values q := by
  induction rounds generalizing p with
  | zero => exact tracks_pure (.nil (.refl p))
  | succ rounds ih =>
    refine Tracks.orElse ?_ (tracks_pure (.nil (.refl p)))
    refine (tracks_delimiter c).bind fun _ a reaches _ => (each a).bind fun first b _ within =>
      ih.bind fun others q _ series => tracks_pure ?_
    exact (Series.cons_within within series).widen reaches (.refl q)

theorem tracks_separated (c : Char) {element : Parser α}
    (each : ∀ p, Tracks p element (Within relation p)) :
    Tracks p (Parser.separated c element) fun values q =>
      values ≠ [] ∧ Series relation p values q := by
  refine (each p).bind fun first a _ within => ?_
  have rest : Tracks a (fun cursor => Parser.further c element cursor.rest.length cursor)
      fun values q => Series relation a values q := tracks_further c each a.after.length
  exact rest.bind fun others q _ series =>
    tracks_pure ⟨List.cons_ne_nil _ _, Series.cons_within within series⟩

theorem tracks_separatedOrNone (c : Char) {element : Parser α}
    (each : ∀ p, Tracks p element (Within relation p)) :
    Tracks p (Parser.separatedOrNone c element) fun values q => Series relation p values q :=
  ((tracks_separated c each).weaken fun _ _ _ holds => holds.2).orElse
    (tracks_pure (.nil (.refl p)))

end Attempts

end ResourceQuery.Surface
