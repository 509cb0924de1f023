import ResourceQuery.Proofs.Rendering.Derivation
import ResourceQuery.Proofs.Surface.Nesting
import ResourceQuery.Proofs.Surface.Soundness

/-!
# Blanks around delimiters

Blanks at either side of a delimiter and at the ends of a text may be put in, taken out or replaced by
others. `Respaced` says that two texts differ in such blanks only. It does not count the gap between a
token and an opening parenthesis, where a blank keeps a call from being read.

A derivation over the one text is carried over to the other place by place. `Place.Near` says that two
places stand in the same gap, and `Place.Level` that blanks of the gap stand in front of the first one or
both stand at its end, which is where every part of a query starts.

Main statement: a respaced text has the same derivations.
-/

namespace ResourceQuery.Surface
set_option autoImplicit false
open Text Grammar

/-! ## Texts that differ in blanks -/

/-- Between these two characters blanks do not matter. No character stands before the start of a text. -/
def isLoose (before : Option Char) (c : Char) : Bool :=
  match before with
  | none => true
  | some b => (isDelimiter b || isDelimiter c) && !(continuesToken b && c == '(')

/-- The texts differ only in blanks that do not matter, if both stand behind this character. -/
inductive Respaced : Option Char → List Char → List Char → Prop
  | done {before : Option Char} {run run' : List Char} (spacing : run.all isSpacing = true)
      (spacing' : run'.all isSpacing = true) : Respaced before run run'
  | next {before : Option Char} {run run' rest rest' : List Char} {c : Char}
      (spacing : run.all isSpacing = true) (spacing' : run'.all isSpacing = true)
      (solid : isSpacing c = false) (kept : isLoose before c = true ∨ run = run')
      (behind : Respaced (some c) rest rest') :
      Respaced before (run ++ c :: rest) (run' ++ c :: rest')

namespace Respaced

variable {before : Option Char} {text text' rest : List Char} {b c : Char}

theorem symm (respaced : Respaced before text text') : Respaced before text' text := by
  induction respaced with
  | done spacing spacing' => exact .done spacing' spacing
  | next spacing spacing' solid kept _ ih => exact .next spacing' spacing solid (kept.imp_right Eq.symm) ih

/-- A text has one run of blanks at its start. -/
theorem eq_of_runs {run run' cs cs' : List Char} {d : Char} (spacing : run.all isSpacing = true)
    (solid : isSpacing c = false) (spacing' : run'.all isSpacing = true) (solid' : isSpacing d = false)
    (same : run ++ c :: cs = run' ++ d :: cs') : run = run' ∧ c = d ∧ cs = cs' := by
  have stops {e : Char} {es : List Char} (other : isSpacing e = false) :
      ∀ x ∈ (e :: es).head?, isSpacing x = false := by
    rintro _ ⟨⟩
    exact other
  have first := takeWhile_append_of_all spacing (@stops c cs solid)
  have second := takeWhile_append_of_all spacing' (@stops d cs' solid')
  rw [same] at first
  exact ⟨first.1.symm.trans second.1, List.cons.inj (first.2.symm.trans second.2)⟩

/-- What corresponds to blanks and a character that is none: the character behind blanks, which are the
same where they matter. -/
theorem of_run {run : List Char} (respaced : Respaced before (run ++ c :: rest) text')
    (spacing : run.all isSpacing = true) (solid : isSpacing c = false) :
    ∃ run' rest', text' = run' ++ c :: rest' ∧ run'.all isSpacing = true ∧
      (isLoose before c = true ∨ run = run') ∧ Respaced (some c) rest rest' := by
  generalize same : run ++ c :: rest = text at respaced
  cases respaced with
  | done spacing₁ =>
    subst same
    simp [solid] at spacing₁
  | @next _ run₁ run' rest₁ rest' d spacing₁ spacing' solid₁ kept behind =>
    obtain ⟨rfl, rfl, rfl⟩ := eq_of_runs spacing solid spacing₁ solid₁ same
    exact ⟨run', rest', rfl, spacing', kept, behind⟩

/-- Only blanks correspond to blanks. -/
theorem of_spacing (respaced : Respaced before text text') (spacing : text.all isSpacing = true) :
    text'.all isSpacing = true := by
  cases respaced with
  | done _ spacing' => exact spacing'
  | next _ _ solid =>
    simp [solid] at spacing

theorem trans {text'' : List Char} (respaced : Respaced before text text')
    (respaced' : Respaced before text' text'') : Respaced before text text'' := by
  induction respaced generalizing text'' with
  | done spacing spacing' => exact .done spacing (respaced'.of_spacing spacing')
  | @next before run run' rest rest' c spacing spacing' solid kept _ ih =>
    obtain ⟨run'', rest'', rfl, spacing'', kept', behind⟩ := respaced'.of_run spacing' solid
    refine .next spacing spacing'' solid ?_ (ih behind)
    rcases kept with loose | rfl
    · exact .inl loose
    · exact kept'

/-- Where both texts go on with the character, they go on alike. -/
theorem of_head {rest' : List Char} (respaced : Respaced before (c :: rest) (c :: rest'))
    (solid : isSpacing c = false) : Respaced (some c) rest rest' := by
  obtain ⟨run, rest₁, same, spacing, -, behind⟩ := @of_run _ _ _ _ [] respaced rfl solid
  obtain ⟨-, -, rfl⟩ := @eq_of_runs _ [] _ _ _ _ rfl solid spacing solid same
  exact behind

/-- In a gap where blanks matter, both texts go on with the same character. -/
theorem of_tight (respaced : Respaced before (c :: rest) text') (solid : isSpacing c = false)
    (tight : isLoose before c = false) :
    ∃ rest', text' = c :: rest' ∧ Respaced (some c) rest rest' := by
  obtain ⟨run, rest', rfl, -, loose | rfl, behind⟩ := @of_run _ _ _ _ [] respaced rfl solid
  · simp [tight] at loose
  · exact ⟨rest', rfl, behind⟩

/-! ### Gaps -/

theorem not_isLoose_of_token (isToken : continuesToken b = true)
    (same : c = '(' ∨ continuesToken c = true) : isLoose (some b) c = false := by
  have notDelimiter {d : Char} (isToken : continuesToken d = true) : isDelimiter d = false := by
    simp only [continuesToken, Bool.and_eq_true, Bool.not_eq_true'] at isToken
    exact isToken.1
  rcases same with rfl | isToken'
  · simp [isLoose, isToken]
  · simp [isLoose, notDelimiter isToken, notDelimiter isToken']

/-- Where blanks before a token do not matter, no token stands in front of them. -/
theorem not_continuesToken_of_isLoose (loose : isLoose before c = true)
    (isToken : continuesToken c = true) : ∀ b ∈ before, continuesToken b = false := by
  rintro b rfl
  by_contra other
  rw [Bool.not_eq_false] at other
  simp [not_isLoose_of_token other (.inr isToken)] at loose

/-- Token characters behind a token character are the same in both texts. -/
theorem of_token {cs : List Char} (isToken : continuesToken b = true)
    (continues : cs.all continuesToken = true) (respaced : Respaced (some b) (cs ++ rest) text') :
    ∃ last rest', text' = cs ++ rest' ∧ (b :: cs).getLast? = some last ∧
      continuesToken last = true ∧ Respaced (some last) rest rest' := by
  induction cs generalizing b text' with
  | nil => exact ⟨b, text', rfl, rfl, isToken, respaced⟩
  | cons c cs ih =>
    rw [List.all_cons, Bool.and_eq_true] at continues
    obtain ⟨rest₁, rfl, behind⟩ := respaced.of_tight (isSpacing_of_continuesToken continues.1)
      (not_isLoose_of_token isToken (.inr continues.1))
    obtain ⟨last, rest', rfl, isLast, continues', behind'⟩ := ih continues.1 continues.2 behind
    exact ⟨last, rest', rfl, by rw [List.getLast?_cons_cons, isLast], continues', behind'⟩

/-- Behind any blanks a token comes next. -/
def OpensToken (text : List Char) : Prop :=
  ∃ c ∈ (text.dropWhile isSpacing).head?, continuesToken c = true

/-- The texts go on with the same character or both end, unless the first one goes on with a blank. -/
def LevelTexts (text text' : List Char) : Prop :=
  (∃ c ∈ text.head?, isSpacing c = true) ∨ text.head? = text'.head?

/-- Some blanks of a gap are passed in the one text. In the other one all of them are passed if they do not
matter, and the same ones otherwise. -/
theorem drop {taken : List Char} (spacing : taken.all isSpacing = true)
    (respaced : Respaced before (taken ++ rest) text') :
    ∃ taken' rest', text' = taken' ++ rest' ∧ taken'.all isSpacing = true ∧
      Respaced before rest rest' ∧ LevelTexts rest rest' ∧
      (taken' = [] → OpensToken rest → (∀ b ∈ before, continuesToken b = false) ∨ taken = []) := by
  generalize same : taken ++ rest = text at respaced
  cases respaced with
  | done spacingRun spacing' =>
    subst same
    rw [List.all_append, Bool.and_eq_true] at spacingRun
    refine ⟨text', [], (List.append_nil _).symm, spacing', .done spacingRun.2 rfl, ?_, ?_⟩
    · cases rest with
      | nil => exact .inr rfl
      | cons c rest => exact .inl ⟨c, rfl, (List.all_eq_true.1 spacingRun.2) c List.mem_cons_self⟩
    · rintro - ⟨c, first, -⟩
      rw [List.dropWhile_eq_nil_iff.2 (List.all_eq_true.1 spacingRun.2)] at first
      simp at first
  | @next _ run run' rest₁ rest₁' c spacingRun spacing' solid kept behind =>
    obtain ⟨more, rfl, rfl⟩ : ∃ more, run = taken ++ more ∧ rest = more ++ c :: rest₁ := by
      rcases List.append_eq_append_iff.1 same with ⟨more, rfl, split⟩ | ⟨more, rfl, split⟩
      · exact ⟨more, rfl, split⟩
      · -- The blanks that are passed would reach beyond the run.
        rw [List.all_append, Bool.and_eq_true] at spacing
        cases more with
        | nil => exact ⟨[], by simp, split.symm⟩
        | cons d more =>
          obtain ⟨rfl, -⟩ := List.cons.inj split
          simp [solid] at spacing
    rw [List.all_append, Bool.and_eq_true] at spacingRun
    have level {rest' : List Char} (empty : more = [] → rest'.head? = some c) :
        LevelTexts (more ++ c :: rest₁) rest' := by
      cases more with
      | nil => exact .inr (empty rfl).symm
      | cons d more => exact .inl ⟨d, rfl, (List.all_eq_true.1 spacingRun.2) d List.mem_cons_self⟩
    rcases kept with loose | rfl
    · refine ⟨run', c :: rest₁', rfl, spacing', ?_, level fun _ => rfl, ?_⟩
      · exact @next before more [] rest₁ rest₁' c spacingRun.2 rfl solid (.inl loose) behind
      · rintro - ⟨d, first, isToken⟩
        rw [dropWhile_append_of_all spacingRun.2, List.dropWhile_cons_of_neg (by simp [solid])] at first
        obtain rfl := Option.some.inj first
        exact .inl (not_continuesToken_of_isLoose loose isToken)
    · refine ⟨taken, more ++ c :: rest₁', by rw [List.append_assoc], spacing, ?_, ?_, ?_⟩
      · exact .next spacingRun.2 spacingRun.2 solid (.inr rfl) behind
      · exact level fun empty => by simp [empty]
      · exact fun empty _ => .inr empty

end Respaced

/-! ### Without blanks -/

/-- The text without the blanks that do not matter, behind a character and a run of blanks. -/
def tightFrom (before : Option Char) (run : List Char) : List Char → List Char
  | [] => []
  | c :: rest =>
    if isSpacing c then tightFrom before (run ++ [c]) rest
    else (if isLoose before c then [] else run) ++ c :: tightFrom (some c) [] rest

section Tight

variable {before : Option Char} {run text text' : List Char}

theorem tightFrom_spacing {more : List Char} (spacing : more.all isSpacing = true) (rest : List Char) :
    tightFrom before run (more ++ rest) = tightFrom before (run ++ more) rest := by
  induction more generalizing run with
  | nil => rw [List.append_nil, List.nil_append]
  | cons c more ih =>
    rw [List.all_cons, Bool.and_eq_true] at spacing
    rw [List.cons_append, tightFrom, if_pos spacing.1, ih spacing.2, List.append_assoc,
      List.singleton_append]

theorem tightFrom_solid {c : Char} (solid : isSpacing c = false) (rest : List Char) :
    tightFrom before run (c :: rest) =
      (if isLoose before c then [] else run) ++ c :: tightFrom (some c) [] rest := by
  rw [tightFrom, if_neg (by simp [solid])]

theorem Respaced.tightFrom_eq (respaced : Respaced before text text') :
    tightFrom before [] text = tightFrom before [] text' := by
  induction respaced with
  | @done before run run' spacing spacing' =>
    have first := @tightFrom_spacing before [] run spacing []
    have second := @tightFrom_spacing before [] run' spacing' []
    rw [List.append_nil] at first second
    rw [first, second]
    rfl
  | next spacing spacing' solid kept _ ih =>
    rw [tightFrom_spacing spacing, tightFrom_spacing spacing', tightFrom_solid solid,
      tightFrom_solid solid, ih]
    rcases kept with loose | rfl
    · rw [if_pos loose, if_pos loose]
    · rfl

theorem respaced_tightFrom (spacing : run.all isSpacing = true) (before : Option Char)
    (text : List Char) : Respaced before (run ++ text) (tightFrom before run text) := by
  induction text generalizing before run with
  | nil => exact .done (by simpa using spacing) rfl
  | cons c rest ih =>
    by_cases blank : isSpacing c = true
    · have longer := @ih (run ++ [c]) (by simp [spacing, blank]) before
      rw [tightFrom, if_pos blank]
      simpa using longer
    · have solid : isSpacing c = false := by simpa using blank
      have behind : Respaced (some c) rest (tightFrom (some c) [] rest) := @ih [] rfl (some c)
      rw [tightFrom_solid solid]
      split
      · next loose => exact .next spacing rfl solid (.inl loose) behind
      · exact .next spacing spacing solid (.inr rfl) behind

/-- Texts are respaced exactly if they are the same without the blanks that do not matter. -/
theorem respaced_iff : Respaced before text text' ↔ tightFrom before [] text = tightFrom before [] text' := by
  constructor
  · exact Respaced.tightFrom_eq
  · intro same
    have first : Respaced before text (tightFrom before [] text) := @respaced_tightFrom [] rfl _ _
    have second : Respaced before text' (tightFrom before [] text') := @respaced_tightFrom [] rfl _ _
    exact first.trans (same ▸ second.symm)

instance : Decidable (Respaced before text text') :=
  decidable_of_iff _ respaced_iff.symm

end Tight

/-! ## Places that correspond -/

namespace Place

/-- The places stand in the same gap of two texts, and a token that can start behind the gap at the first
one can start behind it at the second one. -/
def Near (p p' : Place) : Prop :=
  ∃ before, Respaced before p.after p'.after ∧
    ((∀ b ∈ before, continuesToken b = false) → p'.Fresh) ∧ (p.Fresh → Respaced.OpensToken p.after → p'.Fresh)

/-- The places are near, and have the same character or the end of the text behind them, unless a blank
stands behind the first one. -/
def Level (p p' : Place) : Prop :=
  p.Near p' ∧ Respaced.LevelTexts p.after p'.after

/-- Places right behind the same character are near if the texts go on alike. -/
theorem near_of_moves {p p' q q' : Place} {taken taken' : List Char} {last : Char}
    (moves : p.Moves (taken ++ [last]) q) (moves' : p'.Moves (taken' ++ [last]) q')
    (behind : Respaced (some last) q.after q'.after) : q.Near q' := by
  refine ⟨some last, behind, fun other => moves'.fresh_of_last (other last rfl), fun fresh _ => ?_⟩
  refine moves'.fresh_of_last (fresh last ?_)
  rw [moves.1, ← List.append_assoc]
  exact List.getLast?_concat

/-- Places right behind the same mark are near if the texts go on alike. -/
theorem near_of_mark {p p' q q' : Place} {c : Char} (mark : Mark c p q) (mark' : Mark c p' q')
    (behind : Respaced (some c) q.after q'.after) : q.Near q' :=
  @near_of_moves p p' q q' [] [] c mark mark' behind

end Place

/-! ## Rules without nesting -/

variable {p p' q : Place} {form : Form}

/-- A place right behind blanks is no place in a token. -/
theorem Place.Moves.fresh_of_spacing {taken : List Char} (moves : p.Moves taken q)
    (spacing : taken.all isSpacing = true) (nonempty : taken ≠ []) : q.Fresh := by
  obtain rfl | ⟨others, c, rfl⟩ := taken.eq_nil_or_concat
  · exact absurd rfl nonempty
  rw [List.concat_eq_append] at moves
  refine moves.fresh_of_last ?_
  have isSpacing : isSpacing c = true := List.all_eq_true.1 spacing c (by simp)
  simp [continuesToken, isBlank_of_isSpacing isSpacing]

theorem Blanks.respaced (near : p.Near p') (blanks : Blanks p q) :
    ∃ q', Blanks p' q' ∧ q.Level q' := by
  obtain ⟨taken, spacing, moves⟩ := blanks
  obtain ⟨before, respaced, untouched, fresh⟩ := near
  rw [moves.2] at respaced
  obtain ⟨taken', rest', after, spacing', behind, level, short⟩ := respaced.drop spacing
  let q' : Place := ⟨p'.before ++ taken', rest'⟩
  have moves' : p'.Moves taken' q' := ⟨rfl, after⟩
  have blanks' : Blanks p' q' := ⟨taken', spacing', moves'⟩
  refine ⟨q', blanks', ⟨before, behind, fun other => blanks'.fresh (untouched other), ?_⟩, level⟩
  intro freshHere opens
  rcases eq_or_ne taken' [] with empty | some
  · rcases short empty opens with other | rfl
    · exact blanks'.fresh (untouched other)
    · have here : q.before = p.before := by rw [moves.1, List.append_nil]
      refine blanks'.fresh (fresh ?_ ?_)
      · rwa [Place.Fresh, ← here]
      · rwa [moves.2, List.nil_append]
  · exact moves'.fresh_of_spacing spacing' some

/-- Behind level places the texts go on with the same character, unless it is a blank. -/
theorem Place.Level.exists_cons {c : Char} {rest : List Char} (level : p.Level p')
    (here : p.after = c :: rest) (solid : isSpacing c = false) :
    ∃ rest', p'.after = c :: rest' ∧ Respaced (some c) rest rest' := by
  obtain ⟨⟨before, respaced, -⟩, level⟩ := level
  rw [here] at respaced level
  have same : p'.after.head? = some c := by
    rcases level with ⟨d, first, spacing⟩ | same
    · obtain rfl := Option.some.inj first
      simp [solid] at spacing
    · exact same.symm
  obtain ⟨rest', after⟩ := List.head?_eq_some_iff.1 same
  rw [after] at respaced
  exact ⟨rest', after, respaced.of_head solid⟩

theorem isSpacing_of_isDelimiter {c : Char} (isMark : isDelimiter c = true) : isSpacing c = false := by
  rw [Bool.eq_false_iff]
  intro spacing
  simp only [isSpacing, Bool.or_eq_true, beq_iff_eq] at spacing
  rcases spacing with ((rfl | rfl) | rfl) | rfl <;> exact absurd isMark (by decide)

theorem Mark.respaced {c : Char} (isMark : isDelimiter c = true) (level : p.Level p')
    (mark : Mark c p q) : ∃ q', Mark c p' q' ∧ q.Near q' := by
  obtain ⟨rest', after, behind⟩ := level.exists_cons mark.2 (isSpacing_of_isDelimiter isMark)
  have mark' : Mark c p' ⟨p'.before ++ [c], rest'⟩ := ⟨rfl, after⟩
  exact ⟨_, mark', Place.near_of_mark mark mark' behind⟩

theorem Around.respaced {c : Char} (isMark : isDelimiter c = true) (near : p.Near p')
    (around : Around c p q) : ∃ q', Around c p' q' ∧ q.Level q' := by
  obtain ⟨a, b, blanks, mark, blanks'⟩ := around
  obtain ⟨a', ahead, level⟩ := blanks.respaced near
  obtain ⟨b', mark', near'⟩ := mark.respaced isMark level
  obtain ⟨q', behind, level'⟩ := blanks'.respaced near'
  exact ⟨q', ⟨a', b', ahead, mark', behind⟩, level'⟩

/-- The characters of a token are passed in both texts. Their last one stands before what follows. -/
theorem Place.Level.exists_moves {taken : List Char} (level : p.Level p') (moves : p.Moves taken q)
    (nonempty : taken ≠ []) (continues : taken.all continuesToken = true) :
    ∃ q' last, p'.Moves taken q' ∧ taken.getLast? = some last ∧ continuesToken last = true ∧
      Respaced (some last) q.after q'.after := by
  obtain ⟨c, cs, rfl⟩ := List.exists_cons_of_ne_nil nonempty
  rw [List.all_cons, Bool.and_eq_true] at continues
  obtain ⟨rest, after, behind⟩ :=
    level.exists_cons moves.2 (isSpacing_of_continuesToken continues.1)
  obtain ⟨last, rest', rfl, isLast, isToken, behind'⟩ := behind.of_token continues.1 continues.2
  exact ⟨⟨p'.before ++ c :: cs, rest'⟩, last, ⟨rfl, after⟩, isLast, isToken, behind'⟩

/-- Places behind the same token characters are near. -/
theorem Place.near_of_token {q' : Place} {taken : List Char} {last : Char} (moves : p.Moves taken q)
    (moves' : p'.Moves taken q') (isLast : taken.getLast? = some last)
    (behind : Respaced (some last) q.after q'.after) : q.Near q' := by
  obtain ⟨others, rfl⟩ := List.getLast?_eq_some_iff.1 isLast
  exact near_of_moves moves moves' behind

theorem Word.respaced {text : String} (level : p.Level p') (word : Word p text q) :
    ∃ q', Word p' text q' ∧ q.Near q' := by
  obtain ⟨moves, nonempty, continues, fresh, stale⟩ := word
  obtain ⟨q', last, moves', isLast, isToken, behind⟩ := level.exists_moves moves nonempty continues
  obtain ⟨⟨_, -, -, freshThere⟩, -⟩ := level
  refine ⟨q', ⟨moves', nonempty, continues, ?_, ?_⟩, Place.near_of_token moves moves' isLast behind⟩
  · -- A token starts here, so one can start at the corresponding place.
    obtain ⟨c, cs, chars⟩ := List.exists_cons_of_ne_nil nonempty
    rw [chars, List.all_cons, Bool.and_eq_true] at continues
    refine freshThere fresh ⟨c, ?_, continues.1⟩
    rw [moves.2, chars, List.cons_append,
      List.dropWhile_cons_of_neg (by simp [isSpacing_of_continuesToken continues.1])]
    rfl
  · -- Blanks matter between two tokens, so what would go on the token would do so in the first text too.
    intro c first
    by_contra other
    rw [Bool.not_eq_false] at other
    obtain ⟨rest, after⟩ := List.head?_eq_some_iff.1 first
    rw [after] at behind
    obtain ⟨_, here, -⟩ := behind.symm.of_tight (isSpacing_of_continuesToken other)
      (Respaced.not_isLoose_of_token isToken (.inr other))
    simp [stale c (by simp [here])] at other

theorem Words.respaced {texts : List String} (words : Words p texts q) :
    ∀ {p'}, p.Near p' → ∃ q', Words p' texts q' ∧ q.Near q' := by
  induction words with
  | nil => exact fun near => ⟨_, .nil, near⟩
  | cons comma word _ ih =>
    intro p' near
    obtain ⟨a', comma', level⟩ := comma.respaced rfl near
    obtain ⟨b', word', near'⟩ := word.respaced level
    obtain ⟨q', words', near''⟩ := ih near'
    exact ⟨q', .cons comma' word' words', near''⟩

theorem DerivesList.respaced (level : p.Level p') (list : DerivesList p form q) :
    ∃ q', DerivesList p' form q' ∧ q.Near q' := by
  cases list with
  | none opening blanks closing =>
    obtain ⟨a', opening', near⟩ := opening.respaced rfl level
    obtain ⟨b', blanks', level'⟩ := blanks.respaced near
    obtain ⟨q', closing', near'⟩ := closing.respaced rfl level'
    exact ⟨q', .none opening' blanks' closing', near'⟩
  | some opening ahead word others behind closing =>
    obtain ⟨a', opening', near⟩ := opening.respaced rfl level
    obtain ⟨b', ahead', level⟩ := ahead.respaced near
    obtain ⟨c', word', near⟩ := word.respaced level
    obtain ⟨d', others', near⟩ := others.respaced near
    obtain ⟨e', behind', level⟩ := behind.respaced near
    obtain ⟨q', closing', near⟩ := closing.respaced rfl level
    exact ⟨q', .some opening' ahead' word' others' behind' closing', near⟩

theorem DerivesValue.respaced (level : p.Level p') (derived : DerivesValue p form q) :
    ∃ q', DerivesValue p' form q' ∧ q.Near q' := by
  cases derived with
  | list list =>
    obtain ⟨q', list', near⟩ := list.respaced level
    exact ⟨q', .list list', near⟩
  | token word =>
    obtain ⟨q', word', near⟩ := word.respaced level
    exact ⟨q', .token word', near⟩
  | empty => exact ⟨p', .empty, level.1⟩

theorem DerivesComparison.respaced (level : p.Level p') (derived : DerivesComparison p form q) :
    ∃ q', DerivesComparison p' form q' ∧ q.Near q' := by
  cases derived with
  | plain word equals read =>
    obtain ⟨a', word', near⟩ := word.respaced level
    obtain ⟨b', equals', level⟩ := equals.respaced rfl near
    obtain ⟨q', read', near⟩ := read.respaced level
    exact ⟨q', .plain word' equals' read', near⟩
  | named word equals name between read =>
    obtain ⟨a', word', near⟩ := word.respaced level
    obtain ⟨b', equals', level⟩ := equals.respaced rfl near
    obtain ⟨c', name', near⟩ := name.respaced level
    obtain ⟨d', between', level⟩ := between.respaced rfl near
    obtain ⟨q', read', near⟩ := read.respaced level
    exact ⟨q', .named word' equals' name' between' read', near⟩

/-! ## Nested rules -/

/-- The name of a call stands right before its parenthesis in both texts. -/
theorem Name.respaced {a : Place} {name : String} (level : p.Level p') (named : Name p name a)
    (opening : Mark '(' a q) : ∃ a' q', Name p' name a' ∧ Mark '(' a' q' ∧ q.Near q' := by
  obtain ⟨moves, first, others, chars, opens, continues⟩ := named
  have isName : name.toList.all continuesToken = true := by
    have ofName {c : Char} (continues : continuesName c = true) : continuesToken c = true :=
      continuesToken_of_continuesName continues
    rw [chars, List.all_cons, ofName (continuesName_of_opensName opens), Bool.true_and]
    exact List.all_eq_true.2 fun c mem => ofName (List.all_eq_true.1 continues c mem)
  obtain ⟨a', last, moves', isLast, isToken, behind⟩ :=
    level.exists_moves moves (by simp [chars]) isName
  rw [opening.2, List.singleton_append] at behind
  obtain ⟨rest', after, behind'⟩ :=
    behind.of_tight (by decide) (Respaced.not_isLoose_of_token isToken (.inl rfl))
  have opening' : Mark '(' a' ⟨a'.before ++ ['('], rest'⟩ := ⟨rfl, after⟩
  exact ⟨a', _, ⟨moves', first, others, chars, opens, continues⟩, opening',
    Place.near_of_mark opening opening' behind'⟩

theorem isDelimiter_separator (rule : Rule) : isDelimiter rule.separator = true := by
  cases rule <;> rfl

/-- What a rule derives from a place it derives from every place that is level with it. -/
theorem Derives.respaced {rule : Rule} (level : p.Level p') (derives : Derives rule p form q) :
    ∃ q', Derives rule p' form q' ∧ q.Near q' := by
  refine Derives.rec
    (motive_1 := fun rule p form q _ =>
      ∀ p', p.Level p' → ∃ q', Derives rule p' form q' ∧ q.Near q')
    (motive_2 := fun rule p forms q _ =>
      ∀ p', p.Near p' → ∃ q', DerivesTail rule p' forms q' ∧ q.Near q')
    ?disjunction ?conjunction ?termGroup ?termCall ?termComparison ?group ?callNone ?callSome
    ?argumentCall ?argumentComparison ?argumentGroup ?argumentList ?argumentToken ?nil ?cons
    derives p' level
  case disjunction =>
    intro _ _ _ _ _ _ _ first others p' level
    obtain ⟨a', first', near⟩ := first p' level
    obtain ⟨q', others', near⟩ := others a' near
    exact ⟨q', .disjunction first' others', near⟩
  case conjunction =>
    intro _ _ _ _ _ _ _ first others p' level
    obtain ⟨a', first', near⟩ := first p' level
    obtain ⟨q', others', near⟩ := others a' near
    exact ⟨q', .conjunction first' others', near⟩
  case termGroup =>
    intro _ _ _ _ group p' level
    obtain ⟨q', group', near⟩ := group p' level
    exact ⟨q', .termGroup group', near⟩
  case termCall =>
    intro _ _ _ _ call p' level
    obtain ⟨q', call', near⟩ := call p' level
    exact ⟨q', .termCall call', near⟩
  case termComparison =>
    intro _ _ _ comparison p' level
    obtain ⟨q', comparison', near⟩ := comparison.respaced level
    exact ⟨q', .termComparison comparison', near⟩
  case group =>
    intro _ _ _ _ _ _ _ opening ahead _ behind closing inside p' level
    obtain ⟨a', opening', near⟩ := opening.respaced rfl level
    obtain ⟨b', ahead', level⟩ := ahead.respaced near
    obtain ⟨c', inside', near⟩ := inside b' level
    obtain ⟨d', behind', level⟩ := behind.respaced near
    obtain ⟨q', closing', near⟩ := closing.respaced rfl level
    exact ⟨q', .group opening' ahead' inside' behind' closing', near⟩
  case callNone =>
    intro _ _ _ _ _ _ named opening blanks closing p' level
    obtain ⟨a', b', named', opening', near⟩ := named.respaced level opening
    obtain ⟨c', blanks', level⟩ := blanks.respaced near
    obtain ⟨q', closing', near⟩ := closing.respaced rfl level
    exact ⟨q', .callNone named' opening' blanks' closing', near⟩
  case callSome =>
    intro _ _ _ _ _ _ _ _ _ _ _ named opening ahead _ _ behind closing first others p' level
    obtain ⟨a', b', named', opening', near⟩ := named.respaced level opening
    obtain ⟨c', ahead', level⟩ := ahead.respaced near
    obtain ⟨d', first', near⟩ := first c' level
    obtain ⟨e', others', near⟩ := others d' near
    obtain ⟨f', behind', level⟩ := behind.respaced near
    obtain ⟨q', closing', near⟩ := closing.respaced rfl level
    exact ⟨q', .callSome named' opening' ahead' first' others' behind' closing', near⟩
  case argumentCall =>
    intro _ _ _ _ call p' level
    obtain ⟨q', call', near⟩ := call p' level
    exact ⟨q', .argumentCall call', near⟩
  case argumentComparison =>
    intro _ _ _ comparison p' level
    obtain ⟨q', comparison', near⟩ := comparison.respaced level
    exact ⟨q', .argumentComparison comparison', near⟩
  case argumentGroup =>
    intro _ _ _ _ group p' level
    obtain ⟨q', group', near⟩ := group p' level
    exact ⟨q', .argumentGroup group', near⟩
  case argumentList =>
    intro _ _ _ list p' level
    obtain ⟨q', list', near⟩ := list.respaced level
    exact ⟨q', .argumentList list', near⟩
  case argumentToken =>
    intro _ _ _ word p' level
    obtain ⟨q', word', near⟩ := word.respaced level
    exact ⟨q', .argumentToken word', near⟩
  case nil => exact fun p' near => ⟨p', .nil, near⟩
  case cons =>
    intro rule _ _ _ _ _ _ between _ _ part others p' near
    obtain ⟨a', between', level⟩ := between.respaced (isDelimiter_separator rule) near
    obtain ⟨b', part', near⟩ := part a' level
    obtain ⟨q', others', near⟩ := others b' near
    exact ⟨q', .cons between' part' others', near⟩

/-! ## Whole texts -/

section Whole

variable {text text' : List Char}

/-- **Main.** A text that is respaced has the same derivations. -/
theorem Derivable.respaced (respaced : Respaced none text text') (derivable : Derivable text form) :
    Derivable text' form := by
  obtain ⟨a, b, q, ahead, derives, behind, ends⟩ := derivable
  have start : (Place.start text).Near (.start text') :=
    ⟨none, respaced, fun _ => Place.fresh_start text', fun _ _ => Place.fresh_start text'⟩
  obtain ⟨a', ahead', level⟩ := ahead.respaced start
  obtain ⟨b', derives', near⟩ := derives.respaced level
  obtain ⟨q', behind', -, last⟩ := behind.respaced near
  refine ⟨a', b', q', ahead', derives', behind', ?_⟩
  rw [Respaced.LevelTexts, ends] at last
  rcases last with ⟨_, first, -⟩ | same
  · simp at first
  · exact List.head?_eq_none_iff.1 same.symm

/-- No blank opens or closes a parenthesis. -/
theorem nestingFrom_spacing {run : List Char} (spacing : run.all isSpacing = true) (depth : Nat)
    (rest : List Char) : nestingFrom depth (run ++ rest) = nestingFrom depth rest := by
  have flat := flat_of_spacing spacing
  clear spacing
  induction run with
  | nil => rfl
  | cons c run ih =>
    obtain ⟨⟨notOpening, notClosing⟩, others⟩ := List.forall_mem_cons.1 flat
    rw [List.cons_append, nestingFrom_cons, depthBehind, if_neg notOpening, if_neg notClosing, ih others,
      Nat.max_eq_right (le_nestingFrom depth rest)]

theorem Respaced.nestingFrom_eq {before : Option Char} (respaced : Respaced before text text')
    (depth : Nat) : nestingFrom depth text = nestingFrom depth text' := by
  induction respaced generalizing depth with
  | done spacing spacing' =>
    have first := nestingFrom_spacing spacing depth []
    have second := nestingFrom_spacing spacing' depth []
    rw [List.append_nil] at first second
    rw [first, second]
  | next spacing spacing' _ _ _ ih =>
    rw [nestingFrom_spacing spacing, nestingFrom_spacing spacing', nestingFrom_cons, nestingFrom_cons, ih]

end Whole

end ResourceQuery.Surface
