import ResourceQuery.Proofs.Rendering.Derivation

/-!
# Derivations inside of other text

A derivation looks at the text around it in two spots only: no token may go on before a token, and
none behind it. So a derivation over a text remains one when other text is put around it, as long as
no token of the one reaches into the other. With parentheses around it a derivable text is a group,
whatever stands before and behind the parentheses.
-/

namespace ResourceQuery.Surface
set_option autoImplicit false
open Text Grammar

/-- Text to put around another text, such that no token of it can reach into the other text. -/
structure Frame where
  ahead : List Char
  behind : List Char
  fresh : ∀ c ∈ ahead.getLast?, continuesToken c = false
  stops : Stops behind

variable {frame : Frame} {p q : Place} {form : Form}

namespace Frame

/-- A place of a text, in the frame put around the text. -/
def place (frame : Frame) (p : Place) : Place :=
  ⟨frame.ahead ++ p.before, p.after ++ frame.behind⟩

end Frame

/-! ## Rules without nesting -/

theorem Place.Moves.framed {taken : List Char} (moves : p.Moves taken q) :
    (frame.place p).Moves taken (frame.place q) := by
  obtain ⟨before, after⟩ := moves
  exact ⟨by simp [Frame.place, before], by simp [Frame.place, after]⟩

theorem Place.Fresh.framed (fresh : p.Fresh) : (frame.place p).Fresh := by
  intro c last
  rcases List.eq_nil_or_concat p.before with empty | ⟨others, d, before⟩
  · exact frame.fresh c (by simpa [Frame.place, empty] using last)
  · obtain rfl : d = c := by simpa [Frame.place, before] using last
    exact fresh d (by simp [before])

theorem Place.Stale.framed (stale : p.Stale) : (frame.place p).Stale := by
  intro c head
  cases after : p.after with
  | nil => exact frame.stops c (by simpa [Frame.place, after] using head)
  | cons d others =>
    obtain rfl : d = c := by simpa [Frame.place, after] using head
    exact stale d (by simp [after])

theorem Mark.framed {c : Char} (mark : Mark c p q) : Mark c (frame.place p) (frame.place q) :=
  Place.Moves.framed mark

theorem Blanks.framed (blanks : Blanks p q) : Blanks (frame.place p) (frame.place q) := by
  obtain ⟨taken, spacing, moves⟩ := blanks
  exact ⟨taken, spacing, moves.framed⟩

theorem Around.framed {c : Char} (around : Around c p q) :
    Around c (frame.place p) (frame.place q) := by
  obtain ⟨a, b, blanks, mark, blanks'⟩ := around
  exact ⟨frame.place a, frame.place b, blanks.framed, mark.framed, blanks'.framed⟩

theorem Word.framed {text : String} (word : Word p text q) :
    Word (frame.place p) text (frame.place q) := by
  obtain ⟨moves, nonempty, continues, fresh, stale⟩ := word
  exact ⟨moves.framed, nonempty, continues, fresh.framed, stale.framed⟩

theorem Name.framed {text : String} (named : Name p text q) :
    Name (frame.place p) text (frame.place q) :=
  ⟨named.1.framed, named.2⟩

theorem Words.framed {texts : List String} (words : Words p texts q) :
    Words (frame.place p) texts (frame.place q) := by
  induction words with
  | nil => exact .nil
  | cons comma word _ ih => exact .cons comma.framed word.framed ih

theorem DerivesList.framed (list : DerivesList p form q) :
    DerivesList (frame.place p) form (frame.place q) := by
  cases list with
  | none opening blanks closing => exact .none opening.framed blanks.framed closing.framed
  | some opening blanks word others blanks' closing =>
    exact .some opening.framed blanks.framed word.framed others.framed blanks'.framed closing.framed

theorem DerivesValue.framed (derived : DerivesValue p form q) :
    DerivesValue (frame.place p) form (frame.place q) := by
  cases derived with
  | list list => exact .list list.framed
  | token word => exact .token word.framed
  | empty => exact .empty

theorem DerivesComparison.framed (derived : DerivesComparison p form q) :
    DerivesComparison (frame.place p) form (frame.place q) := by
  cases derived with
  | plain word equals read => exact .plain word.framed equals.framed read.framed
  | named word equals name equals' read =>
    exact .named word.framed equals.framed name.framed equals'.framed read.framed

/-! ## Nested rules -/

/-- What a rule derives it derives in every frame. -/
theorem Derives.framed {rule : Rule} (derives : Derives rule p form q) :
    Derives rule (frame.place p) form (frame.place q) := by
  refine Derives.rec
    (motive_1 := fun rule p form q _ => Derives rule (frame.place p) form (frame.place q))
    (motive_2 := fun rule p forms q _ => DerivesTail rule (frame.place p) forms (frame.place q))
    ?disjunction ?conjunction ?termGroup ?termCall ?termComparison ?group ?callNone ?callSome
    ?argumentCall ?argumentComparison ?argumentGroup ?argumentList ?argumentToken ?nil ?cons derives
  case disjunction => exact fun _ _ first others => .disjunction first others
  case conjunction => exact fun _ _ first others => .conjunction first others
  case termGroup => exact fun _ group => .termGroup group
  case termCall => exact fun _ call => .termCall call
  case termComparison => exact fun comparison => .termComparison comparison.framed
  case group =>
    exact fun opening blanks _ blanks' closing inside =>
      .group opening.framed blanks.framed inside blanks'.framed closing.framed
  case callNone =>
    exact fun named opening blanks closing =>
      .callNone named.framed opening.framed blanks.framed closing.framed
  case callSome =>
    exact fun named opening blanks _ _ blanks' closing first others =>
      .callSome named.framed opening.framed blanks.framed first others blanks'.framed closing.framed
  case argumentCall => exact fun _ call => .argumentCall call
  case argumentComparison => exact fun comparison => .argumentComparison comparison.framed
  case argumentGroup => exact fun _ group => .argumentGroup group
  case argumentList => exact fun list => .argumentList list.framed
  case argumentToken => exact fun word => .argumentToken word.framed
  case nil => exact .nil
  case cons => exact fun between _ _ part others => .cons between.framed part others

/-! ## Groups -/

/-- A derivable text in parentheses is a group, wherever it stands. -/
theorem Derivable.exists_group {text rest : List Char} (derivable : Derivable text form)
    (here : p.after = '(' :: (text ++ ')' :: rest)) :
    ∃ q : Place, q.after = rest ∧ q.Fresh ∧ Derives .group p form q := by
  obtain ⟨a, b, c, blanks, derives, blanks', ends⟩ := derivable
  let frame : Frame :=
    { ahead := p.before ++ ['('], behind := ')' :: rest
      fresh := by
        intro d last
        obtain rfl : '(' = d := by simpa using last
        decide
      stops := stops_cons (by decide) rest }
  have opening : Mark '(' p (frame.place (.start text)) := by
    refine ⟨?_, ?_⟩
    · simp [frame, Frame.place, Place.start]
    · simpa [frame, Frame.place, Place.start] using here
  have behind : (frame.place c).after = ')' :: rest := by simp [frame, Frame.place, ends]
  obtain ⟨q, after, fresh, closing⟩ := exists_mark (by decide) behind
  exact ⟨q, after, fresh, .group opening blanks.framed derives.framed blanks'.framed closing⟩

/-- A disjunction from the start of a text to its end derives the text. -/
theorem Derives.derivable {text : List Char} (derives : Derives .disjunction (.start text) form q)
    (ends : q.after = []) : Derivable text form :=
  ⟨.start text, q, q, .refl _, derives, .refl q, ends⟩

end ResourceQuery.Surface
