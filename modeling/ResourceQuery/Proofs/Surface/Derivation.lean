import ResourceQuery.Proofs.Surface.Trees

/-!
# The grammar as a set of derivations

The rules of the grammar, without any order among alternatives and without a point of no return.
A derivation leads from one place of a text to a later one and denotes a form: joined segments
where there are several, and of a group only its content. `Derivable` says that a derivation covers
a whole text.
-/

namespace ResourceQuery.Surface
set_option autoImplicit false
open Text Grammar

/-! ## Places -/

/-- A place in a text: what stands before it and what stands behind it. -/
structure Place where
  before : List Char
  after : List Char

namespace Place

/-- The place before a text. -/
def start (text : List Char) : Place := ⟨[], text⟩

/-- Some characters stand between two places. -/
def Moves (p : Place) (taken : List Char) (q : Place) : Prop :=
  q.before = p.before ++ taken ∧ p.after = taken ++ q.after

theorem Moves.trans {p q r : Place} {taken taken' : List Char} (moves : p.Moves taken q)
    (moves' : q.Moves taken' r) : p.Moves (taken ++ taken') r := by
  obtain ⟨before, after⟩ := moves
  obtain ⟨before', after'⟩ := moves'
  refine ⟨?_, ?_⟩
  · rw [before', before, List.append_assoc]
  · rw [after, after', List.append_assoc]

/-- No token goes on before the place, so that one can start here. -/
def Fresh (p : Place) : Prop :=
  ∀ c ∈ p.before.getLast?, continuesToken c = false

/-- No token goes on behind the place, so that one can end here. -/
def Stale (p : Place) : Prop :=
  ∀ c ∈ p.after.head?, continuesToken c = false

end Place

/-! ## Characters -/

/-- One given character. -/
def Mark (c : Char) (p q : Place) : Prop :=
  p.Moves [c] q

/-- Any number of the blanks that may surround a delimiter. -/
def Blanks (p q : Place) : Prop :=
  ∃ taken, taken.all isSpacing = true ∧ p.Moves taken q

/-- A delimiter with blanks around it. -/
def Around (c : Char) (p q : Place) : Prop :=
  ∃ a b, Blanks p a ∧ Mark c a b ∧ Blanks b q

/-- A token: a run of token characters that cannot be longer on either side. -/
def Word (p : Place) (text : String) (q : Place) : Prop :=
  p.Moves text.toList q ∧ text.toList ≠ [] ∧ text.toList.all continuesToken = true ∧
    p.Fresh ∧ q.Stale

/-- The name of a call: a letter or underscore, then letters, digits and underscores. -/
def Name (p : Place) (text : String) (q : Place) : Prop :=
  p.Moves text.toList q ∧ ∃ first others, text.toList = first :: others ∧
    opensName first = true ∧ others.all continuesName = true

/-! ## Rules without nesting -/

/-- Any number of further tokens, each behind a comma. -/
inductive Words : Place → List String → Place → Prop
  | nil {p : Place} : Words p [] p
  | cons {p a b q : Place} {text : String} {texts : List String} (comma : Around ',' p a)
      (word : Word a text b) (others : Words b texts q) : Words p (text :: texts) q

/-- Tokens in parentheses. -/
inductive DerivesList : Place → Form → Place → Prop
  | none {p a b q : Place} (opening : Mark '(' p a) (blanks : Blanks a b) (closing : Mark ')' b q) :
      DerivesList p (.list []) q
  | some {p a b c d e q : Place} {text : String} {texts : List String} (opening : Mark '(' p a)
      (blanks : Blanks a b) (word : Word b text c) (others : Words c texts d)
      (blanks' : Blanks d e) (closing : Mark ')' e q) : DerivesList p (.list (text :: texts)) q

/-- The value of a comparison: a list, a token or nothing. -/
inductive DerivesValue : Place → Form → Place → Prop
  | list {p q : Place} {form : Form} (list : DerivesList p form q) : DerivesValue p form q
  | token {p q : Place} {text : String} (word : Word p text q) : DerivesValue p (.token text) q
  | empty {p : Place} : DerivesValue p (.token "") p

/-- A field and a value, or a field, the name of a comparison and a value. -/
inductive DerivesComparison : Place → Form → Place → Prop
  | plain {p a b q : Place} {field : String} {value : Form} (word : Word p field a)
      (equals : Around '=' a b) (read : DerivesValue b value q) :
      DerivesComparison p (.compare field none value) q
  | named {p a b c d q : Place} {field op : String} {value : Form} (word : Word p field a)
      (equals : Around '=' a b) (name : Word b op c) (equals' : Around '=' c d)
      (read : DerivesValue d value q) :
      DerivesComparison p (.compare field (some op) value) q

/-! ## Nested rules -/

/-- The rules that refer to each other. -/
inductive Rule
  | disjunction
  | conjunction
  | term
  | group
  | call
  | argument
deriving DecidableEq

/-- The delimiter between several parts derived by a rule. -/
def Rule.separator : Rule → Char
  | .conjunction => '|'
  | .term => '&'
  | _ => ','

mutual

/-- A rule derives what stands between two places. -/
inductive Derives : Rule → Place → Form → Place → Prop
  | disjunction {p a q : Place} {form : Form} {forms : List Form}
      (first : Derives .conjunction p form a) (others : DerivesTail .conjunction a forms q) :
      Derives .disjunction p (Form.join .or (form :: forms)) q
  | conjunction {p a q : Place} {form : Form} {forms : List Form}
      (first : Derives .term p form a) (others : DerivesTail .term a forms q) :
      Derives .conjunction p (Form.join .and (form :: forms)) q
  | termGroup {p q : Place} {form : Form} (group : Derives .group p form q) :
      Derives .term p form q
  | termCall {p q : Place} {form : Form} (call : Derives .call p form q) :
      Derives .term p form q
  | termComparison {p q : Place} {form : Form} (comparison : DerivesComparison p form q) :
      Derives .term p form q
  | group {p a b c d q : Place} {form : Form} (opening : Mark '(' p a) (blanks : Blanks a b)
      (inside : Derives .disjunction b form c) (blanks' : Blanks c d) (closing : Mark ')' d q) :
      Derives .group p form q
  | callNone {p a b c q : Place} {name : String} (named : Name p name a) (opening : Mark '(' a b)
      (blanks : Blanks b c) (closing : Mark ')' c q) : Derives .call p (.call name []) q
  | callSome {p a b c d e f q : Place} {name : String} {form : Form} {forms : List Form}
      (named : Name p name a) (opening : Mark '(' a b) (blanks : Blanks b c)
      (first : Derives .argument c form d) (others : DerivesTail .argument d forms e)
      (blanks' : Blanks e f) (closing : Mark ')' f q) :
      Derives .call p (.call name (form :: forms)) q
  | argumentCall {p q : Place} {form : Form} (call : Derives .call p form q) :
      Derives .argument p form q
  | argumentComparison {p q : Place} {form : Form} (comparison : DerivesComparison p form q) :
      Derives .argument p form q
  | argumentGroup {p q : Place} {form : Form} (group : Derives .group p form q) :
      Derives .argument p form q
  | argumentList {p q : Place} {form : Form} (list : DerivesList p form q) :
      Derives .argument p form q
  | argumentToken {p q : Place} {text : String} (word : Word p text q) :
      Derives .argument p (.token text) q

/-- A rule derives any number of further parts, each behind the delimiter between them. -/
inductive DerivesTail : Rule → Place → List Form → Place → Prop
  | nil {rule : Rule} {p : Place} : DerivesTail rule p [] p
  | cons {rule : Rule} {p a b q : Place} {form : Form} {forms : List Form}
      (between : Around rule.separator p a) (part : Derives rule a form b)
      (others : DerivesTail rule b forms q) : DerivesTail rule p (form :: forms) q

end

/-- A whole text is derived: a disjunction with blanks around it. -/
def Derivable (text : List Char) (form : Form) : Prop :=
  ∃ a b q, Blanks (.start text) a ∧ Derives .disjunction a form b ∧ Blanks b q ∧ q.after = []

theorem DerivesComparison.isSegmented {p q : Place} {form : Form}
    (derived : DerivesComparison p form q) : form.isSegmented = true := by
  cases derived with
  | plain _ _ read | named _ _ _ _ read =>
    cases read with
    | list list => cases list <;> rfl
    | token | empty => rfl

/-- In a derived form joined segments are several. -/
theorem Derives.isSegmented {rule : Rule} {p q : Place} {form : Form}
    (derives : Derives rule p form q) : form.isSegmented = true := by
  refine Derives.rec (motive_1 := fun _ _ form _ _ => form.isSegmented = true)
    (motive_2 := fun _ _ forms _ _ => forms.all Form.isSegmented = true)
    ?disjunction ?conjunction ?termGroup ?termCall ?termComparison ?group ?callNone ?callSome
    ?argumentCall ?argumentComparison ?argumentGroup ?argumentList ?argumentToken ?nil ?cons derives
  case disjunction =>
    intro p a q form forms _ _ first others
    rw [Form.isSegmented_join_or, List.all_cons, first, others, Bool.and_self]
  case conjunction =>
    intro p a q form forms _ _ first others
    rw [Form.isSegmented_join_and, List.all_cons, first, others, Bool.and_self]
  case termGroup | termCall | argumentCall | argumentGroup =>
    intro p q form _ part
    exact part
  case termComparison | argumentComparison =>
    intro p q form comparison
    exact comparison.isSegmented
  case group =>
    intro p a b c d q form _ _ _ _ _ inside
    exact inside
  case callNone =>
    intros
    rfl
  case callSome =>
    intro p a b c d e f q name form forms _ _ _ _ _ _ _ first others
    simp [Form.isSegmented, first, others]
  case argumentList =>
    intro p q form list
    cases list <;> rfl
  case argumentToken | nil =>
    intros
    rfl
  case cons =>
    intro rule p a b q form forms _ _ _ part others
    rw [List.all_cons, part, others, Bool.and_self]

theorem Derivable.isSegmented {text : List Char} {form : Form} (derivable : Derivable text form) :
    form.isSegmented = true := by
  obtain ⟨_, _, _, _, derives, _, _⟩ := derivable
  exact derives.isSegmented

/-! ## Nesting -/

/-- The greatest number of parentheses that are open at a time, from a given number on. A closing
parenthesis without an open one counts for nothing. -/
def nestingFrom (depth : Nat) : List Char → Nat
  | [] => depth
  | c :: cs =>
    max depth
      (nestingFrom (if c = '(' then depth + 1 else if c = ')' then depth - 1 else depth) cs)

/-- How deep the parentheses of a text are nested. -/
def nesting (text : List Char) : Nat :=
  nestingFrom 0 text

end ResourceQuery.Surface
