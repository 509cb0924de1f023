import ResourceQuery.Proofs.Calendar.SlotItems

/-!
# Fronts of a format

Cutting a format loses none of its text: what one component leaves over is what the next one is cut from, and
the last one leaves nothing. A front of a format is therefore an initial segment of it.

Main statement: the components are the text of the format cut behind each of its specifiers, and their
separators are the literal text between the specifiers.
-/

namespace ResourceQuery
set_option autoImplicit false
open Fallible Text Calendar

/-! ## The first specifier of a text -/

namespace Calendar

/-- The text before the first specifier. -/
def literalBefore (text : List Char) : List Char :=
  text.takeWhile (· != '%')

/-- The first specifier: a percent sign, the modifiers behind it, and one more character. -/
def firstSpecifier (text : List Char) : List Char :=
  match text.dropWhile (· != '%') with
  | [] => []
  | percent :: behind =>
    percent :: (behind.takeWhile DateFormat.isModifier ++ (behind.dropWhile DateFormat.isModifier).take 1)

/-- The component is the first one of a text: the literal text that the text opens with and the specifier
behind it. Its separators are this literal text, and the point of a specifier that starts with one. -/
structure Component.IsFirstOf (component : Component) (rest : List Char) : Prop where
  text : component.text = literalBefore rest ++ firstSpecifier rest
  separators : component.separators =
    literalBefore rest ++ if ['%', '.'].isPrefixOf (firstSpecifier rest) then ['.'] else []

variable {literal : List Char}

theorem literalBefore_append (plain : '%' ∉ literal) (rest : List Char) (stops : ∀ c ∈ rest.head?, c = '%') :
    literalBefore (literal ++ rest) = literal ∧ (literal ++ rest).dropWhile (· != '%') = rest := by
  refine takeWhile_append_of_all (List.all_eq_true.2 fun c mem => bne_iff_ne.2 ?_) fun c first => ?_
  · rintro rfl
    exact plain mem
  · rw [stops c first]
    rfl

/-- Literal text without a specifier is its own first component. -/
theorem isFirstOf_ending (plain : '%' ∉ literal) : Component.IsFirstOf ⟨literal, literal, literal⟩ literal := by
  obtain ⟨before, behind⟩ := literalBefore_append plain [] nofun
  rw [List.append_nil] at before behind
  have none : firstSpecifier literal = [] := by rw [firstSpecifier, behind]
  constructor
  · rw [before, none, List.append_nil]
  · rw [before, none]
    exact (List.append_nil literal).symm

namespace Slot

theorem isModifier_letter (slot : Slot) : DateFormat.isModifier slot.letter = false := by
  have letter := slot.letter_mem
  simp only [List.mem_cons, List.not_mem_nil, or_false] at letter
  rcases letter with same | same | same | same | same | same | same | same | same | same | same <;>
    rw [same] <;> decide

/-- A slot is the first component of its text with anything behind it. -/
theorem isFirstOf (slot : Slot) (rest : List Char) :
    slot.component.IsFirstOf (slot.component.text ++ rest) := by
  have whole : slot.component.text ++ rest = slot.literal ++ (slot.specifier ++ rest) := List.append_assoc ..
  obtain ⟨before, behind⟩ := literalBefore_append slot.plain (slot.specifier ++ rest) (by simp [specifier])
  have stops : ∀ c ∈ (slot.letter :: rest).head?, DateFormat.isModifier c = false := by
    simpa using slot.isModifier_letter
  obtain ⟨modifiers, letter⟩ := takeWhile_append_of_all slot.areModifiers stops
  have first : firstSpecifier (slot.literal ++ (slot.specifier ++ rest)) = slot.specifier := by
    have opened : slot.specifier ++ rest = '%' :: (slot.modifiers ++ slot.letter :: rest) := by
      simp [specifier]
    rw [firstSpecifier, behind, opened]
    simp only [modifiers, letter, specifier]
    rfl
  rw [whole]
  constructor
  · rw [before, first, component]
  · rw [before, first, component, pointed]

end Slot

/-- What is left of a format opens with the next component. -/
theorem ArePlain.isFirstOf {component : Component} {components : List Component}
    (plain : ArePlain (component :: components)) :
    component.IsFirstOf ((component :: components).flatMap Component.text) := by
  rw [List.flatMap_cons]
  cases plain with
  | ending plain =>
    rw [List.flatMap_nil, List.append_nil]
    exact isFirstOf_ending plain
  | slot slot => exact slot.isFirstOf _

end Calendar

/-! ## Fronts -/

namespace DateFormat

variable {format : DateFormat} {text : String} {count : Nat}

/-- A front and what the other components hold make up the text of all. -/
theorem front_append_drop (format : DateFormat) (count : Nat) :
    format.front count ++ (format.components.drop count).flatMap Component.text =
      format.components.flatMap Component.text := by
  rw [front, ← List.flatMap_append, List.take_append_drop]

/-- A front goes on in the next one. -/
theorem front_prefix_succ (format : DateFormat) (count : Nat) :
    format.front count <+: format.front (count + 1) := by
  rw [front, front, List.take_add, List.flatMap_append]
  exact List.prefix_append _ _

/-- **Main.** The components of a format without an escaped percent sign make up its text, so that every front
is an initial segment of the text and of the next front, and the front of all components is the text. Each
component is cut off where the ones before it end: it is the literal text up to the next specifier and the
specifier, and its separators are this literal text and the point that a specifier may start with. -/
theorem fronts_of_ofText (noEscape : ¬['%', '%'] <:+: text.toList) (accepted : ofText text = .ok format) :
    format.text = text.toList ∧ format.components.flatMap Component.text = text.toList ∧
    (∀ count, format.front count <+: text.toList ∧ format.front count <+: format.front (count + 1)) ∧
    (∀ count, format.components.length ≤ count → format.front count = text.toList) ∧
    ∀ count component, format.components[count]? = some component →
      ∃ rest, text.toList = format.front count ++ rest ∧ component.IsFirstOf rest := by
  obtain ⟨plain, whole, same⟩ := arePlain_of_ofText noEscape accepted
  rw [same] at whole
  have split (count : Nat) := whole ▸ format.front_append_drop count
  refine ⟨same, whole, fun count => ⟨⟨_, split count⟩, format.front_prefix_succ count⟩, ?_, ?_⟩
  · intro count all
    rw [front, List.take_of_length_le all, whole]
  · intro count component isNext
    obtain ⟨within, rfl⟩ := List.getElem?_eq_some_iff.1 isNext
    have others := plain.drop count
    refine ⟨_, (split count).symm, ?_⟩
    rw [List.drop_eq_getElem_cons within] at others ⊢
    exact others.isFirstOf

/-- Three components: a modifier before the first letter, a point that opens the second specifier, and literal
text that is left over. -/
theorem fronts_of_markedDay :
    ¬['%', '%'] <:+: "day %-d at%.3f!".toList ∧
    ∃ format, ofText "day %-d at%.3f!" = .ok format ∧ format.components =
        [⟨"day %-d".toList, "day ".toList, "day 01".toList⟩,
          ⟨" at%.3f".toList, " at.".toList, " at.0".toList⟩, ⟨['!'], ['!'], ['!']⟩] ∧
      format.components.flatMap Component.text = "day %-d at%.3f!".toList ∧
      format.front 1 <+: format.front 2 ∧ format.front 3 = "day %-d at%.3f!".toList ∧
      ∃ rest, "day %-d at%.3f!".toList = format.front 1 ++ rest ∧
        Component.IsFirstOf ⟨" at%.3f".toList, " at.".toList, " at.0".toList⟩ rest := by
  have noEscape : ¬['%', '%'] <:+: "day %-d at%.3f!".toList := by decide
  have accepted : ofText "day %-d at%.3f!" = .ok ⟨"day %-d at%.3f!".toList,
      [⟨"day %-d".toList, "day ".toList, "day 01".toList⟩,
        ⟨" at%.3f".toList, " at.".toList, " at.0".toList⟩, ⟨['!'], ['!'], ['!']⟩]⟩ := by rfl
  obtain ⟨-, whole, fronts, last, cut⟩ := fronts_of_ofText noEscape accepted
  exact ⟨noEscape, _, accepted, rfl, whole, (fronts 1).2, last 3 (Nat.le_refl 3), cut 1 _ rfl⟩

end DateFormat
end ResourceQuery
