import ResourceQuery.Proofs.Surface.Nesting
import ResourceQuery.Proofs.Surface.Recognition

/-!
# How high surface trees are

Only parentheses make a tree high. A rule that derives a balanced text gives a form that is higher than
twice the nesting of the text by no more than a slack of the rule's own: the slack counts the levels
that the rules between two pairs of parentheses can add.

Main statement: a surface tree is no higher than twice the limit on nesting and four levels.
-/

namespace ResourceQuery.Surface
set_option autoImplicit false
open Text Grammar

/-! ## Heights -/

namespace Form

mutual

/-- The number of levels of a form. Tokens are a level of their own, also those of lists and
comparisons. -/
def height : Form → Nat
  | .token _ => 1
  | .list items => 1 + if items.isEmpty then 0 else 1
  | .call _ args => 1 + greatestHeight args
  | .compare _ _ value => 1 + value.height
  | .and segments | .or segments => 1 + greatestHeight segments

/-- The number of levels of the highest of the forms. -/
def greatestHeight : List Form → Nat
  | [] => 0
  | form :: forms => max form.height (greatestHeight forms)

end

theorem height_pos (form : Form) : 0 < form.height := by
  cases form <;> rw [height] <;> omega

theorem greatestHeight_le_iff {forms : List Form} {n : Nat} :
    greatestHeight forms ≤ n ↔ ∀ form ∈ forms, form.height ≤ n := by
  induction forms with
  | nil => simp [greatestHeight]
  | cons form forms ih => rw [greatestHeight, Nat.max_le, ih, List.forall_mem_cons]

/-- Joined segments are at most one level above the highest of them. -/
theorem height_join_and_le (forms : List Form) : (join .and forms).height ≤ 1 + greatestHeight forms := by
  obtain _ | ⟨only, _ | ⟨second, others⟩⟩ := forms <;> simp [join, height, greatestHeight]

theorem height_join_or_le (forms : List Form) : (join .or forms).height ≤ 1 + greatestHeight forms := by
  obtain _ | ⟨only, _ | ⟨second, others⟩⟩ := forms <;> simp [join, height, greatestHeight]

end Form

/-- The number of levels of a surface tree. -/
def Expr.height (expr : Expr) : Nat :=
  expr.form.height

/-! ## Bounds -/

/-- Between two places stands balanced text, and the height is at most twice its nesting and the
slack. -/
def Place.Bounds (p q : Place) (height slack : Nat) : Prop :=
  ∃ taken, Balanced taken ∧ p.Moves taken q ∧ height ≤ 2 * nesting taken + slack

namespace Place.Bounds

variable {p q r : Place} {height height' slack slack' : Nat}

theorem of_balances (balances : p.Balances q) (small : height ≤ slack) : p.Bounds q height slack := by
  obtain ⟨taken, balanced, moves⟩ := balances
  exact ⟨taken, balanced, moves, by omega⟩

theorem balances (bounds : p.Bounds q height slack) : p.Balances q := by
  obtain ⟨taken, balanced, moves, -⟩ := bounds
  exact ⟨taken, balanced, moves⟩

/-- What a slack does not cover is left to the height. -/
theorem weaken (bounds : p.Bounds q height slack) (less : height' + slack ≤ height + slack') :
    p.Bounds q height' slack' := by
  obtain ⟨taken, balanced, moves, bounded⟩ := bounds
  exact ⟨taken, balanced, moves, by omega⟩

/-- Two texts in a row bound the greater height. -/
theorem join (first : p.Bounds q height slack) (second : q.Bounds r height' slack) :
    p.Bounds r (max height height') slack := by
  obtain ⟨taken, balanced, moves, bounded⟩ := first
  obtain ⟨taken', balanced', moves', bounded'⟩ := second
  refine ⟨taken ++ taken', balanced.append balanced', moves.trans moves', ?_⟩
  rw [balanced.nesting_append]
  omega

theorem after (before : p.Balances q) (bounds : q.Bounds r height slack) : p.Bounds r height slack := by
  have flat : p.Bounds q 0 slack := of_balances before (Nat.zero_le slack)
  simpa using flat.join bounds

theorem followed (bounds : p.Bounds q height slack) (behind : q.Balances r) :
    p.Bounds r height slack := by
  have flat : q.Bounds r 0 slack := of_balances behind (Nat.zero_le slack)
  simpa using bounds.join flat

/-- Parentheses make room for two more levels. -/
theorem parenthesized {a b : Place} (opening : Mark '(' p a) (inside : a.Bounds b height slack)
    (closing : Mark ')' b q) : p.Bounds q (height + 2) slack := by
  obtain ⟨taken, balanced, moves, bounded⟩ := inside
  refine ⟨_, balanced.parenthesized, Moves.trans opening (moves.trans closing), ?_⟩
  rw [balanced.nesting_parenthesized]
  omega

end Place.Bounds

/-! ## Derivations -/

/-- How many levels a rule can add outside of parentheses. -/
def Rule.slack : Rule → Nat
  | .disjunction => 4
  | .conjunction => 3
  | _ => 2

section Derivations

variable {p q : Place} {form : Form}

theorem DerivesList.bounds (list : DerivesList p form q) : p.Bounds q form.height 0 := by
  cases list with
  | none opening blanks closing =>
    exact (Place.Bounds.parenthesized opening (.of_balances blanks.balances (Nat.le_refl 0)) closing).weaken
      (by simp [Form.height])
  | some opening blanks word others blanks' closing =>
    have inside := blanks.balances.trans (word.balances.trans (others.balances.trans blanks'.balances))
    exact (Place.Bounds.parenthesized opening (.of_balances inside (Nat.le_refl 0)) closing).weaken
      (by simp [Form.height])

theorem DerivesValue.bounds (derived : DerivesValue p form q) : p.Bounds q form.height 1 := by
  cases derived with
  | list list => exact list.bounds.weaken (by omega)
  | token word => exact .of_balances word.balances (Nat.le_refl 1)
  | empty => exact .of_balances (.refl _) (Nat.le_refl 1)

theorem DerivesComparison.bounds (derived : DerivesComparison p form q) : p.Bounds q form.height 2 := by
  cases derived with
  | plain word equals read =>
    have name := word.balances.trans (equals.balances (by decide) (by decide))
    exact (read.bounds.after name).weaken (by rw [Form.height]; omega)
  | named word equals name equals' read =>
    have names := word.balances.trans ((equals.balances (by decide) (by decide)).trans
      (name.balances.trans (equals'.balances (by decide) (by decide))))
    exact (read.bounds.after names).weaken (by rw [Form.height]; omega)

/-- What a rule derives is as high as the nesting of its text allows. -/
theorem Derives.bounds {rule : Rule} (derives : Derives rule p form q) :
    p.Bounds q form.height rule.slack := by
  refine Derives.rec (motive_1 := fun rule p form q _ => p.Bounds q form.height rule.slack)
    (motive_2 := fun rule p forms q _ => p.Bounds q (Form.greatestHeight forms) rule.slack)
    ?disjunction ?conjunction ?termGroup ?termCall ?termComparison ?group ?callNone ?callSome
    ?argumentCall ?argumentComparison ?argumentGroup ?argumentList ?argumentToken ?nil ?cons derives
  case disjunction =>
    intro p a q form forms _ _ first others
    have lower := Form.height_join_or_le (form :: forms)
    rw [Form.greatestHeight] at lower
    exact (first.join others).weaken (by simp only [Rule.slack]; omega)
  case conjunction =>
    intro p a q form forms _ _ first others
    have lower := Form.height_join_and_le (form :: forms)
    rw [Form.greatestHeight] at lower
    exact (first.join others).weaken (by simp only [Rule.slack]; omega)
  case termGroup | termCall | argumentCall | argumentGroup => exact fun _ part => part
  case termComparison | argumentComparison => exact fun comparison => comparison.bounds
  case group =>
    intro p a b c d q form opening blanks _ blanks' closing inside
    exact (Place.Bounds.parenthesized opening
      ((inside.after blanks.balances).followed blanks'.balances) closing).weaken (Nat.le_refl _)
  case callNone =>
    intro p a b c q name named opening blanks closing
    have inside : b.Bounds c 0 1 := .of_balances blanks.balances (Nat.zero_le _)
    exact ((inside.parenthesized opening closing).after named.balances).weaken
      (by simp [Form.height, Form.greatestHeight, Rule.slack])
  case callSome =>
    intro p a b c d e f q name form forms named opening blanks _ _ blanks' closing first others
    have inside := ((first.join others).after blanks.balances).followed blanks'.balances
    exact ((inside.parenthesized opening closing).after named.balances).weaken
      (by simp only [Form.height, Form.greatestHeight, Rule.slack]; omega)
  case argumentList => exact fun list => list.bounds.weaken (Nat.le_add_right _ _)
  case argumentToken => exact fun word => .of_balances word.balances (Nat.le_succ 1)
  case nil => exact .of_balances (.refl _) (Nat.zero_le _)
  case cons =>
    intro rule p a b q form forms between _ _ part others
    exact (part.join others).after (between.balances rule.separator_ne.1 rule.separator_ne.2)

/-- A derivable text gives a form no higher than twice its nesting and four levels. -/
theorem Derivable.height_le {text : List Char} (derivable : Derivable text form) :
    form.height ≤ 2 * nesting text + 4 := by
  obtain ⟨a, b, q, blanks, derives, blanks', ends⟩ := derivable
  obtain ⟨taken, -, ⟨-, after⟩, bounded⟩ :=
    (derives.bounds.after blanks.balances).followed blanks'.balances
  rw [ends, List.append_nil] at after
  obtain rfl : text = taken := after
  exact bounded

end Derivations

/-- A surface tree is no higher than the limit that it is read under allows. -/
theorem height_le_of_parse {query : String} {maxDepth : Nat} {expr : Expr}
    (parsed : parse query maxDepth = .ok expr) : expr.height ≤ 2 * maxDepth + 4 := by
  have height := (derivable_of_parse parsed).height_le
  have shallow := nesting_le_of_parse parsed
  exact Nat.le_trans height (by omega)

end ResourceQuery.Surface
