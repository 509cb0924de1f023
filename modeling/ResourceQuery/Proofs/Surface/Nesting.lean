import ResourceQuery.Proofs.Surface.Completeness.Characters

/-!
# Balanced parentheses

A derivable text closes all parentheses that it opens, and none besides, whatever is open around it.
So the nesting of a text put together from derivable texts is found part by part, and parentheses
around a text add one level to it.
-/

namespace ResourceQuery.Surface
set_option autoImplicit false
open Text Grammar

/-! ## Open parentheses -/

/-- How many parentheses are open behind a character. -/
def depthBehind (depth : Nat) (c : Char) : Nat :=
  if c = '(' then depth + 1 else if c = ')' then depth - 1 else depth

/-- How many parentheses are open behind a text. -/
def depthAfter (depth : Nat) (text : List Char) : Nat :=
  text.foldl depthBehind depth

@[simp] theorem depthAfter_cons (depth : Nat) (c : Char) (cs : List Char) :
    depthAfter depth (c :: cs) = depthAfter (depthBehind depth c) cs := rfl

@[simp] theorem depthAfter_append (depth : Nat) (cs ds : List Char) :
    depthAfter depth (cs ++ ds) = depthAfter (depthAfter depth cs) ds :=
  List.foldl_append

theorem nestingFrom_cons (depth : Nat) (c : Char) (cs : List Char) :
    nestingFrom depth (c :: cs) = max depth (nestingFrom (depthBehind depth c) cs) := rfl

theorem le_nestingFrom (depth : Nat) (text : List Char) : depth ≤ nestingFrom depth text := by
  cases text with
  | nil => exact Nat.le_refl _
  | cons => exact Nat.le_max_left ..

/-- The nesting of two texts in a row is the greater one of both. -/
theorem nestingFrom_append (depth : Nat) (cs ds : List Char) :
    nestingFrom depth (cs ++ ds) =
      max (nestingFrom depth cs) (nestingFrom (depthAfter depth cs) ds) := by
  induction cs generalizing depth with
  | nil => exact (Nat.max_eq_right (le_nestingFrom depth ds)).symm
  | cons c cs ih =>
    rw [List.cons_append, nestingFrom_cons, nestingFrom_cons, ih, depthAfter_cons, Nat.max_assoc]

/-- One more open parenthesis stays open behind a character, or a closing one levels the difference. -/
theorem depthBehind_succ (depth : Nat) (c : Char) :
    depthBehind (depth + 1) c = depthBehind depth c + 1 ∨
      depthBehind (depth + 1) c = depthBehind depth c := by
  unfold depthBehind
  split
  · exact .inl rfl
  · split <;> omega

/-- If one more open parenthesis is still open behind a text, it adds one to the nesting. -/
theorem nestingFrom_succ {depth : Nat} {text : List Char}
    (throughout : depthAfter (depth + 1) text = depthAfter depth text + 1) :
    nestingFrom (depth + 1) text = nestingFrom depth text + 1 := by
  induction text generalizing depth with
  | nil => rfl
  | cons c cs ih =>
    rw [depthAfter_cons, depthAfter_cons] at throughout
    rcases depthBehind_succ depth c with behind | levelled
    · rw [behind] at throughout
      rw [nestingFrom_cons, nestingFrom_cons, behind, ih throughout]
      omega
    · rw [levelled] at throughout
      omega

/-! ## Balanced text -/

/-- The text leaves as many parentheses open as there were before it. -/
def Balanced (text : List Char) : Prop :=
  ∀ depth, depthAfter depth text = depth

theorem Balanced.append {cs ds : List Char} (balanced : Balanced cs) (balanced' : Balanced ds) :
    Balanced (cs ++ ds) := fun depth => by
  rw [depthAfter_append, balanced, balanced']

/-- Parentheses around balanced text are balanced, though a closing one in it might have closed the
one around it. -/
theorem Balanced.parenthesized {cs : List Char} (balanced : Balanced cs) :
    Balanced ('(' :: (cs ++ [')'])) := fun depth => by
  rw [depthAfter_cons, depthAfter_append, balanced]
  rfl

/-- The text has no parentheses. -/
def Flat (text : List Char) : Prop :=
  ∀ c ∈ text, c ≠ '(' ∧ c ≠ ')'

theorem Flat.balanced {text : List Char} (flat : Flat text) : Balanced text := by
  intro depth
  induction text with
  | nil => rfl
  | cons c cs ih =>
    obtain ⟨⟨notOpening, notClosing⟩, others⟩ := List.forall_mem_cons.1 flat
    rw [depthAfter_cons, depthBehind, if_neg notOpening, if_neg notClosing, ih others]

theorem Flat.nesting_eq_zero {text : List Char} (flat : Flat text) : nesting text = 0 := by
  induction text with
  | nil => rfl
  | cons c cs ih =>
    obtain ⟨⟨notOpening, notClosing⟩, others⟩ := List.forall_mem_cons.1 flat
    rw [nesting, nestingFrom_cons, depthBehind, if_neg notOpening, if_neg notClosing, Nat.zero_max]
    exact ih others

theorem flat_of_spacing {text : List Char} (spacing : text.all isSpacing = true) : Flat text := by
  intro c mem
  have isSpacing := List.all_eq_true.1 spacing c mem
  constructor <;> rintro rfl <;> exact absurd isSpacing (by decide)

theorem flat_of_token {text : List Char} (continues : text.all continuesToken = true) :
    Flat text := by
  intro c mem
  have isToken := List.all_eq_true.1 continues c mem
  constructor <;> rintro rfl <;> exact absurd isToken (by decide)

theorem flat_singleton {c : Char} (notOpening : c ≠ '(') (notClosing : c ≠ ')') : Flat [c] :=
  List.forall_mem_singleton.2 ⟨notOpening, notClosing⟩

/-- Balanced text in front of another text leaves its nesting as it is. -/
theorem Balanced.nesting_append {cs : List Char} (balanced : Balanced cs) (ds : List Char) :
    nesting (cs ++ ds) = max (nesting cs) (nesting ds) := by
  rw [nesting, nestingFrom_append, balanced]
  rfl

/-- Parentheses around a balanced text add one level to its nesting. -/
theorem Balanced.nesting_parenthesized {text : List Char} (balanced : Balanced text) :
    nesting ('(' :: (text ++ [')'])) = nesting text + 1 := by
  have inside : nestingFrom 1 text = nesting text + 1 :=
    nestingFrom_succ (by rw [balanced, balanced])
  have closing : nestingFrom 1 [')'] = 1 := rfl
  have opened : nesting ('(' :: (text ++ [')'])) = max 0 (nestingFrom 1 (text ++ [')'])) := rfl
  rw [opened, nestingFrom_append, balanced, closing, inside]
  omega

/-! ## Derivations -/

/-- Between two places stands balanced text. -/
def Place.Balances (p q : Place) : Prop :=
  ∃ taken, Balanced taken ∧ p.Moves taken q

section Derivations

variable {p q r : Place} {form : Form}

namespace Place

theorem Balances.refl (p : Place) : p.Balances p :=
  ⟨[], fun _ => rfl, by simp [Moves]⟩

theorem Balances.trans (first : p.Balances q) (second : q.Balances r) : p.Balances r := by
  obtain ⟨_, balanced, moves⟩ := first
  obtain ⟨_, balanced', moves'⟩ := second
  exact ⟨_, balanced.append balanced', moves.trans moves'⟩

end Place

theorem Blanks.balances (blanks : Blanks p q) : p.Balances q := by
  obtain ⟨taken, spacing, moves⟩ := blanks
  exact ⟨taken, (flat_of_spacing spacing).balanced, moves⟩

theorem Around.balances {c : Char} (around : Around c p q) (notOpening : c ≠ '(')
    (notClosing : c ≠ ')') : p.Balances q := by
  obtain ⟨a, b, blanks, mark, blanks'⟩ := around
  have between : a.Balances b := ⟨[c], (flat_singleton notOpening notClosing).balanced, mark⟩
  exact blanks.balances.trans (between.trans blanks'.balances)

theorem Word.balances {text : String} (word : Word p text q) : p.Balances q :=
  ⟨text.toList, (flat_of_token word.2.2.1).balanced, word.1⟩

theorem Name.balances {text : String} (named : Name p text q) : p.Balances q := by
  obtain ⟨moves, first, others, chars, opens, continues⟩ := named
  refine ⟨text.toList, (flat_of_token ?_).balanced, moves⟩
  rw [chars, List.all_cons, Bool.and_eq_true]
  refine ⟨continuesToken_of_continuesName (continuesName_of_opensName opens), ?_⟩
  exact List.all_eq_true.2 fun c mem =>
    continuesToken_of_continuesName (List.all_eq_true.1 continues c mem)

/-- From a parenthesis to the one that closes it the text is balanced. -/
theorem Place.Balances.parenthesized {a b : Place} (opening : Mark '(' p a) (inside : a.Balances b)
    (closing : Mark ')' b q) : p.Balances q := by
  obtain ⟨_, balanced, moves⟩ := inside
  exact ⟨_, balanced.parenthesized, Moves.trans opening (moves.trans closing)⟩

theorem Words.balances {texts : List String} (words : Words p texts q) : p.Balances q := by
  induction words with
  | nil => exact .refl _
  | cons comma word _ ih =>
    exact (comma.balances (by decide) (by decide)).trans (word.balances.trans ih)

theorem DerivesList.balances (list : DerivesList p form q) : p.Balances q := by
  cases list with
  | none opening blanks closing => exact .parenthesized opening blanks.balances closing
  | some opening blanks word others blanks' closing =>
    refine .parenthesized opening ?_ closing
    exact blanks.balances.trans (word.balances.trans (others.balances.trans blanks'.balances))

theorem DerivesValue.balances (derived : DerivesValue p form q) : p.Balances q := by
  cases derived with
  | list list => exact list.balances
  | token word => exact word.balances
  | empty => exact .refl _

theorem DerivesComparison.balances (derived : DerivesComparison p form q) : p.Balances q := by
  cases derived with
  | plain word equals read =>
    exact word.balances.trans ((equals.balances (by decide) (by decide)).trans read.balances)
  | named word equals name equals' read =>
    exact word.balances.trans ((equals.balances (by decide) (by decide)).trans
      (name.balances.trans ((equals'.balances (by decide) (by decide)).trans read.balances)))

theorem Rule.separator_ne (rule : Rule) : rule.separator ≠ '(' ∧ rule.separator ≠ ')' := by
  cases rule <;> decide

/-- What a rule derives is balanced. -/
theorem Derives.balances {rule : Rule} (derives : Derives rule p form q) : p.Balances q := by
  refine Derives.rec (motive_1 := fun _ p _ q _ => p.Balances q)
    (motive_2 := fun _ p _ q _ => p.Balances q)
    ?disjunction ?conjunction ?termGroup ?termCall ?termComparison ?group ?callNone ?callSome
    ?argumentCall ?argumentComparison ?argumentGroup ?argumentList ?argumentToken ?nil ?cons derives
  case disjunction | conjunction => exact fun _ _ first others => first.trans others
  case termGroup | termCall | argumentCall | argumentGroup => exact fun _ part => part
  case termComparison | argumentComparison => exact fun comparison => comparison.balances
  case group =>
    exact fun opening blanks _ blanks' closing inside =>
      .parenthesized opening (blanks.balances.trans (inside.trans blanks'.balances)) closing
  case callNone =>
    exact fun named opening blanks closing =>
      named.balances.trans (.parenthesized opening blanks.balances closing)
  case callSome =>
    exact fun named opening blanks _ _ blanks' closing first others =>
      named.balances.trans (.parenthesized opening
        (blanks.balances.trans (first.trans (others.trans blanks'.balances))) closing)
  case argumentList => exact fun list => list.balances
  case argumentToken => exact fun word => word.balances
  case nil => exact .refl _
  case cons =>
    intro rule p a b q form forms between _ _ part others
    exact (between.balances rule.separator_ne.1 rule.separator_ne.2).trans (part.trans others)

/-- A derivable text is balanced. -/
theorem Derivable.balanced {text : List Char} (derivable : Derivable text form) : Balanced text := by
  obtain ⟨a, b, q, blanks, derives, blanks', ends⟩ := derivable
  obtain ⟨taken, balanced, -, after⟩ :=
    blanks.balances.trans (derives.balances.trans blanks'.balances)
  rw [ends, List.append_nil] at after
  obtain rfl : text = taken := after
  exact balanced

end Derivations

end ResourceQuery.Surface
