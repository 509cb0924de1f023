import ResourceQuery.Proofs.Calendar.Scanning

/-!
# The components of a format

A format without an escaped percent sign is cut into slots, each with the literal text in front of it, and
perhaps literal text behind the last one. Put together again, the components are the text of the format,
and what they stand for in a row is what the text stands for.
-/

namespace ResourceQuery.Calendar
set_option autoImplicit false
open Fallible Text Numeral DateFormat

/-! ## Slots -/

/-- A place for a number in a format: literal text, and a specifier of modifiers and a letter. The least
value of the letter stands there where the input has nothing. -/
structure Slot where
  literal : List Char
  modifiers : List Char
  letter : Char
  value : List Char
  plain : '%' ∉ literal
  areModifiers : modifiers.all isModifier = true
  least : leastValue? letter (['%', '.'].isPrefixOf ('%' :: (modifiers ++ [letter]))) = some value

namespace Slot

/-- The specifier of the slot. -/
def specifier (slot : Slot) : List Char :=
  '%' :: (slot.modifiers ++ [slot.letter])

/-- The specifier asks for a point. -/
def pointed (slot : Slot) : Bool :=
  ['%', '.'].isPrefixOf slot.specifier

/-- The component that is a slot. -/
def component (slot : Slot) : Component where
  text := slot.literal ++ slot.specifier
  separators := slot.literal ++ (if slot.pointed then ['.'] else [])
  fill := slot.literal ++ slot.value

end Slot

/-- Slots, and perhaps literal text behind them. -/
inductive ArePlain : List Component → Prop
  | nil : ArePlain []
  | ending {literal : List Char} (plain : '%' ∉ literal) : ArePlain [⟨literal, literal, literal⟩]
  | slot (slot : Slot) {components : List Component} (later : ArePlain components) :
      ArePlain (slot.component :: components)

namespace ArePlain

variable {components : List Component}

theorem take (plain : ArePlain components) (count : Nat) : ArePlain (components.take count) := by
  induction plain generalizing count with
  | nil =>
    rw [List.take_nil]
    exact .nil
  | ending plain =>
    cases count with
    | zero => exact .nil
    | succ count =>
      rw [List.take_succ_cons, List.take_nil]
      exact .ending plain
  | slot slot _ ih =>
    cases count with
    | zero => exact .nil
    | succ count => exact .slot slot (ih count)

theorem drop (plain : ArePlain components) (count : Nat) : ArePlain (components.drop count) := by
  induction plain generalizing count with
  | nil =>
    rw [List.drop_nil]
    exact .nil
  | ending plain =>
    cases count with
    | zero => exact .ending plain
    | succ count =>
      rw [List.drop_succ_cons, List.drop_nil]
      exact .nil
  | slot slot later ih =>
    cases count with
    | zero => exact .slot slot later
    | succ count => exact ih count

/-- All components but the last one are slots. -/
theorem exists_slots (plain : ArePlain components) {count : Nat} (short : count < components.length) :
    ∃ slots : List Slot, components.take count = slots.map Slot.component := by
  induction plain generalizing count with
  | nil => simp at short
  | ending =>
    obtain rfl : count = 0 := by simpa using short
    exact ⟨[], rfl⟩
  | slot slot _ ih =>
    cases count with
    | zero => exact ⟨[], rfl⟩
    | succ count =>
      obtain ⟨slots, same⟩ := ih (Nat.lt_of_succ_lt_succ short)
      exact ⟨slot :: slots, by rw [List.take_succ_cons, same, List.map_cons]⟩

theorem append_slots (slots : List Slot) (plain : ArePlain components) :
    ArePlain (slots.map Slot.component ++ components) := by
  induction slots with
  | nil => exact plain
  | cons slot slots ih => exact .slot slot ih

end ArePlain

end ResourceQuery.Calendar

/-! ## Cutting -/

namespace ResourceQuery.DateFormat
set_option autoImplicit false
open Fallible Calendar

/-- The text that has been cut so far. -/
def Cut.text (cut : Cut) : List Char :=
  cut.components.flatMap Component.text ++ (cut.literal ++ cut.specifier.getD [])

/-- Only slots have been cut off so far. -/
structure Cut.IsPlain (cut : Cut) : Prop where
  slots : ∃ slots : List Slot, cut.components = slots.map Slot.component
  plain : '%' ∉ cut.literal
  opened : ∀ opened ∈ cut.specifier, ∃ modifiers, opened = '%' :: modifiers ∧
    modifiers.all isModifier = true

theorem exists_slot_of_component? {literal modifiers : List Char} {letter : Char} {component : Component}
    (plain : '%' ∉ literal) (areModifiers : modifiers.all isModifier = true)
    (made : component? literal ('%' :: (modifiers ++ [letter])) letter = .ok component) :
    ∃ slot : Slot, slot.component = component ∧ slot.literal = literal ∧
      slot.specifier = '%' :: (modifiers ++ [letter]) := by
  simp only [component?] at made
  split at made
  · simp at made
  · next value least =>
    exact ⟨⟨literal, modifiers, letter, value, plain, areModifiers, least⟩, Except.ok.inj made, rfl, rfl⟩

/-- A character of a format is cut off or kept. -/
theorem Cut.IsPlain.step {cut next : Cut} {c : Char} (plain : cut.IsPlain)
    (noEscape : ¬['%', '%'] <:+: cut.text ++ [c]) (stepped : cut.step c = .ok next) :
    next.IsPlain ∧ next.text = cut.text ++ [c] := by
  obtain ⟨components, literal, specifier⟩ := cut
  obtain ⟨⟨slots, rfl⟩, noPercent, opened⟩ := plain
  simp only [Cut.step] at stepped
  cases specifier with
  | none =>
    dsimp only at stepped
    split at stepped
    · next percent =>
      obtain rfl := Except.ok.inj stepped
      refine ⟨⟨⟨slots, rfl⟩, noPercent, ?_⟩, by simp [Cut.text, percent]⟩
      rintro _ ⟨⟩
      exact ⟨[], rfl, rfl⟩
    · next other =>
      obtain rfl := Except.ok.inj stepped
      refine ⟨⟨⟨slots, rfl⟩, ?_, by simp⟩, by simp [Cut.text]⟩
      simpa [noPercent] using Ne.symm other
  | some begun =>
    obtain ⟨modifiers, rfl, areModifiers⟩ := opened begun rfl
    dsimp only at stepped
    split at stepped
    · next isModifier =>
      obtain rfl := Except.ok.inj stepped
      refine ⟨⟨⟨slots, rfl⟩, noPercent, ?_⟩, by simp [Cut.text]⟩
      rintro _ ⟨⟩
      exact ⟨modifiers ++ [c], rfl, by simp [areModifiers, isModifier]⟩
    split at stepped
    · next escape =>
      obtain ⟨rfl, alone⟩ := escape
      obtain rfl : modifiers = [] := by simpa using alone
      exact absurd ⟨(slots.map Slot.component).flatMap Component.text ++ literal, [], by simp [Cut.text]⟩
        noEscape
    · obtain ⟨component, made, rfl⟩ := map_eq_ok.1 stepped
      obtain ⟨slot, rfl, same, text⟩ := exists_slot_of_component? noPercent areModifiers made
      refine ⟨⟨⟨slots ++ [slot], by simp⟩, List.not_mem_nil, by simp⟩, ?_⟩
      simp [Cut.text, Slot.component, same, text]

theorem Cut.IsPlain.run {cs : List Char} {cut last : Cut} (plain : cut.IsPlain)
    (noEscape : ¬['%', '%'] <:+: cut.text ++ cs) (ran : cs.foldlM Cut.step cut = .ok last) :
    last.IsPlain ∧ last.text = cut.text ++ cs := by
  induction cs generalizing cut with
  | nil =>
    obtain rfl := pure_eq_ok.1 ran
    exact ⟨plain, (List.append_nil _).symm⟩
  | cons c cs ih =>
    rw [List.foldlM_cons, bind_eq_ok] at ran
    obtain ⟨next, stepped, later⟩ := ran
    have split : cut.text ++ c :: cs = cut.text ++ [c] ++ cs := by simp
    rw [split] at noEscape ⊢
    obtain ⟨plain', text⟩ :=
      plain.step (fun escape => noEscape (escape.trans (List.prefix_append _ _).isInfix)) stepped
    rw [← text] at noEscape ⊢
    exact ih plain' noEscape later

/-- A format without an escaped percent sign is cut into slots and literal text behind them. -/
theorem arePlain_of_ofText {text : String} {format : DateFormat}
    (noEscape : ¬['%', '%'] <:+: text.toList) (accepted : ofText text = .ok format) :
    ArePlain format.components ∧ format.components.flatMap Component.text = format.text ∧
      format.text = text.toList := by
  simp only [ofText] at accepted
  split at accepted
  · next components isCut =>
    obtain rfl := Except.ok.inj accepted
    obtain ⟨last, ran, finished⟩ := bind_eq_ok.1 isCut
    have start : (⟨[], [], none⟩ : Cut).IsPlain := ⟨⟨[], rfl⟩, List.not_mem_nil, by simp⟩
    obtain ⟨⟨⟨slots, isSlots⟩, noPercent, -⟩, whole⟩ := start.run noEscape ran
    simp only [Cut.finish] at finished
    split at finished
    · simp at finished
    next closed =>
    have parts : (slots.map Slot.component).flatMap Component.text ++ last.literal = text.toList := by
      rw [Option.not_isSome_iff_eq_none] at closed
      rw [Cut.text, closed, isSlots, Option.getD_none, List.append_nil] at whole
      exact whole
    rw [isSlots] at finished
    split at finished
    · next empty =>
      split at finished
      · simp at finished
      obtain rfl := Except.ok.inj finished
      rw [List.isEmpty_iff.1 empty, List.append_nil] at parts
      exact ⟨List.append_nil (slots.map Slot.component) ▸ ArePlain.append_slots slots .nil, parts, rfl⟩
    · split at finished
      · simp at finished
      obtain rfl := Except.ok.inj finished
      exact ⟨.append_slots slots (.ending noPercent), by simpa [List.flatMap_append] using parts, rfl⟩
  · simp at accepted

end ResourceQuery.DateFormat
