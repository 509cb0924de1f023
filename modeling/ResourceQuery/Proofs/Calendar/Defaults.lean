import ResourceQuery.Proofs.Calendar.Completion
import ResourceQuery.Proofs.Calendar.Recording

/-!
# What is filled in

What is filled in for a component matches the component, unless that asks for a fixed number of decimal
places: only one is filled in. In a row it still matches if no digits run on from one component into the next.

Main statement: the least value of a component is accepted by the component exactly if that asks for no fixed
number of decimal places, and a completed input fails for a contradiction only.
-/

namespace ResourceQuery.Calendar
set_option autoImplicit false
open Fallible Text Numeral DateFormat

/-! ## Components -/

namespace Item

/-- The item asks for a fixed number of decimal places. -/
def isFixedFraction : Item → Bool
  | .pointFraction _ | .bareFraction _ => true
  | _ => false

/-- Literal text asks for no decimal places. -/
theorem any_isFixedFraction_literal {literal : List Char} (plain : '%' ∉ literal) :
    (ofText literal).any isFixedFraction = false := by
  rw [List.any_eq_false]
  intro item mem fixed
  have asks := ((ofText_literal plain).1 item mem).2
  cases item <;> simp [isFixedFraction, asks?] at fixed asks

end Item

/-- The component asks for a fixed number of decimal places. -/
def Component.hasFixedFraction (component : Component) : Bool :=
  (Item.ofText component.text).any Item.isFixedFraction

/-- The component stands for a number that may have more digits than what is filled in. -/
def Component.isOpen (component : Component) : Bool :=
  component.text.getLast? == some 'e' || component.text.getLast? == some 'f'

/-- No digits run on from what is filled in for a component that is open. -/
def AreApart : List Component → Prop
  | [] => True
  | component :: components =>
    (component.isOpen = true → EndsDigits (components.flatMap Component.fill)) ∧ AreApart components

namespace Slot

variable {rest : List Char}

theorem isOpen_component (slot : Slot) :
    slot.component.isOpen = true ↔ slot.letter = 'e' ∨ slot.letter = 'f' := by
  have split : slot.component.text = (slot.literal ++ '%' :: slot.modifiers) ++ [slot.letter] := by
    simp [component, specifier]
  have last : slot.component.text.getLast? = some slot.letter := by rw [split, List.getLast?_concat]
  simp [Component.isOpen, last]

theorem hasFixedFraction_component (slot : Slot) :
    slot.component.hasFixedFraction = slot.item.isFixedFraction := by
  rw [Component.hasFixedFraction, slot.ofText_component, List.any_append,
    Item.any_isFixedFraction_literal slot.plain]
  simp

/-- The least value of a slot opens with a digit or a point. -/
theorem head?_value_append (slot : Slot) (rest : List Char) :
    ∀ c ∈ (slot.value ++ rest).head?, isBlank c = false := by
  have least := slot.least_pointed
  generalize slot.pointed = pointed, slot.value = value at least ⊢
  cases pointed <;> unfold leastValue? at least <;> split at least <;> cases least <;> rintro c ⟨⟩ <;> decide

/-- The least value of a slot is a number in its range that the slot finds. -/
theorem exists_scans_value (slot : Slot) (known : slot.item ≠ .unknown)
    (notFixed : slot.component.hasFixedFraction = false)
    (stops : slot.component.isOpen = true → EndsDigits rest) :
    ∃ q n, slot.item.Scans (slot.value ++ rest) [(q, n)] rest ∧ q.range.1 ≤ n ∧ n ≤ q.range.2 := by
  rw [hasFixedFraction_component] at notFixed
  rw [isOpen_component] at stops
  have least := slot.least_pointed
  have stands := slot.stands_item
  generalize slot.item = item at *
  cases stands with
  | unknown => exact absurd rfl known
  | @number q quantity noPoint =>
    rw [noPoint] at least
    obtain ⟨q', width, quantity', limit, all, nonempty, within, narrow, range, full⟩ := leastValue?_spec least
    obtain rfl := Option.some.inj (quantity.symm.trans quantity')
    exact ⟨q, digitsValue slot.value, .number (Quantity.take_digits_of_stops limit all nonempty (by omega)
      within (full.imp_right stops)), range⟩
  | fraction isFraction point =>
    rw [point, isFraction] at least
    rw [← Option.some.inj least]
    exact ⟨_, _, .fraction (@takeFraction_digits rest ['0'] rfl (by decide) (stops (.inr isFraction))),
      by decide⟩
  | pointFraction | bareFraction => simp [Item.isFixedFraction] at notFixed

/-- A fixed number of decimal places is more than is filled in. -/
theorem not_scans_value (slot : Slot) (fixed : slot.item.isFixedFraction = true)
    {said : List (Quantity × Int)} : ¬slot.item.Scans slot.value said [] := by
  intro scans
  have least := slot.least_pointed
  have stands := slot.stands_item
  generalize slot.item = item at *
  generalize slot.value = value at *
  cases stands with
  | unknown | number | fraction => simp [Item.isFixedFraction] at fixed
  | bareFraction isFraction noPoint several =>
    rw [noPoint, isFraction] at least
    obtain rfl := Option.some.inj least
    cases scans with
    | bareFraction _ read =>
      exact absurd (length_of_takeFixedFraction read) (by simp; omega)
  | pointFraction isFraction point several =>
    rw [point, isFraction] at least
    obtain rfl := Option.some.inj least
    cases scans with
    | pointFraction _ read =>
      exact absurd (length_of_takeFixedFraction read) (by simp; omega)

end Slot

/-! ## Rows of components -/

variable {components : List Component}

/-- What is filled in for components in a row is a row of numbers in their ranges. -/
theorem ArePlain.exists_scansAll_fill (plain : ArePlain components) (known : .unknown ∉ itemsOf components)
    (notFixed : ∀ component ∈ components, component.hasFixedFraction = false) (apart : AreApart components) :
    ∃ said, ScansAll (itemsOf components) (components.flatMap Component.fill) said [] ∧
      ∀ q n, (q, n) ∈ said → q.range.1 ≤ n ∧ n ≤ q.range.2 := by
  induction plain with
  | nil => exact ⟨[], .nil, by simp⟩
  | @ending literal plain =>
    have scans : ScansAll (Item.ofText literal) (literal ++ []) [] [] := scansAll_literal plain (by simp)
    refine ⟨[], ?_, by simp⟩
    rw [itemsOf_ending]
    exact scans
  | @slot slot components _ ih =>
    obtain ⟨here, later⟩ := known_of_slot known
    obtain ⟨notFixed, notFixed'⟩ := List.forall_mem_cons.1 notFixed
    obtain ⟨said, scans, range⟩ := ih later notFixed' apart.2
    obtain ⟨q, n, first, inside⟩ := slot.exists_scans_value here notFixed apart.1
    refine ⟨(q, n) :: said, ?_, ?_⟩
    · rw [itemsOf_slot, List.flatMap_cons, Slot.component, List.append_assoc]
      exact (scansAll_literal slot.plain (slot.head?_value_append _)).join (.cons first scans)
    · rintro q' n' mem
      rcases List.mem_cons.1 mem with same | mem
      · obtain ⟨rfl, rfl⟩ := Prod.mk.inj same
        exact inside
      · exact range q' n' mem

/-- What is filled in for a component is accepted unless that asks for a fixed number of decimal places. -/
theorem ArePlain.ofText_fill_iff (plain : ArePlain components) (known : .unknown ∉ itemsOf components) :
    ∀ component ∈ components, (∃ reading, Reading.ofText component.text component.fill = .ok reading) ↔
      component.hasFixedFraction = false := by
  induction plain with
  | nil => simp
  | @ending literal plain =>
    rw [List.forall_mem_singleton]
    have scans : ScansAll (Item.ofText literal) (literal ++ []) [] [] := scansAll_literal plain (by simp)
    rw [List.append_nil] at scans
    exact iff_of_true ⟨_, Reading.ofText_eq_ok.2 (scans.takeItems_eq .empty)⟩
      (Item.any_isFixedFraction_literal plain)
  | @slot slot components _ ih =>
    obtain ⟨isKnown, later⟩ := known_of_slot known
    refine List.forall_mem_cons.2 ⟨?_, ih later⟩
    have solid := slot.head?_value_append []
    rw [List.append_nil] at solid
    have literal : ScansAll (Item.ofText slot.literal) slot.component.fill [] slot.value :=
      scansAll_literal slot.plain solid
    have taken : Reading.takeItems (Item.ofText slot.component.text) .empty slot.component.fill =
        Reading.takeItems [slot.item] .empty slot.value := by
      rw [slot.ofText_component, takeItems_append, literal.takeItems_eq]
      rfl
    simp only [Reading.ofText_eq_ok, taken]
    constructor
    · rintro ⟨reading, taken⟩
      obtain ⟨⟨_, behind⟩, first, last⟩ := bind_eq_ok.1 taken
      obtain ⟨rfl, rfl⟩ := Prod.mk.inj (Except.ok.inj last)
      obtain ⟨said, scans⟩ := Item.exists_scans_of_take (slot.item_spec isKnown).1 first
      rw [slot.hasFixedFraction_component]
      exact Bool.eq_false_iff.2 fun fixed => slot.not_scans_value fixed scans
    · intro notFixed
      obtain ⟨q, n, scans, inside⟩ := slot.exists_scans_value isKnown notFixed fun _ => endsDigits_nil
      rw [List.append_nil] at scans
      obtain ⟨reading, recorded⟩ := Reading.exists_record_empty inside
      refine ⟨reading, ?_⟩
      rw [Reading.takeItems, scans.take_eq, recorded]
      rfl

end ResourceQuery.Calendar

namespace ResourceQuery.DateFormat
set_option autoImplicit false
open Fallible Text Numeral Calendar

/-- The components behind the first ones ask for no fixed number of decimal places, and no digits run on from
the input into what is filled in, or within that. -/
structure IsCompletable (format : DateFormat) (count : Nat) : Prop where
  notFixed : ∀ component ∈ format.components.drop count, component.hasFixedFraction = false
  ends : EndsDigits ((format.components.drop count).flatMap Component.fill)
  apart : AreApart (format.components.drop count)

variable {format : DateFormat} {text : String}

/-- **Main.** What is filled in for a component of a known format is accepted by the component, unless that
asks for a fixed number of decimal places. An input that matches the components that it supplies can be
completed: it matches the whole format, or says something that contradicts another thing. -/
theorem accepts_fill_and_complete (noEscape : ¬['%', '%'] <:+: text.toList)
    (accepted : ofText text = .ok format) (known : .unknown ∉ Item.ofText text.toList) :
    (∀ component ∈ format.components,
      (∃ reading, Reading.ofText component.text component.fill = .ok reading) ↔
        component.hasFixedFraction = false) ∧
    ∀ (input : List Char) (front : Reading), format.suppliedCount input ≠ 0 →
      Reading.ofText (format.front (format.suppliedCount input)) input = .ok front →
      format.IsCompletable (format.suppliedCount input) →
      (∃ reading, Reading.ofText format.text (format.complete (format.suppliedCount input) input) =
        .ok reading) ∨
      Reading.ofText format.text (format.complete (format.suppliedCount input) input) =
        .error .impossible := by
  obtain ⟨plain, whole, same⟩ := arePlain_of_ofText noEscape accepted
  have parts : Item.ofText format.text = itemsOf format.components :=
    whole ▸ plain.ofText_flatMap (by rwa [whole, same])
  rw [← same, parts] at known
  refine ⟨plain.ofText_fill_iff known, fun input front _ matched completable => ?_⟩
  obtain ⟨-, supplied⟩ := (format.isGreatest_suppliedCount input).1
  generalize format.suppliedCount input = count at *
  -- The input is scanned as it stands, and what is filled in behind it.
  obtain ⟨said, scans, recorded, -, points⟩ := exists_scansAll_front (plain.take count) supplied matched
  rw [← itemsOf_take_append_drop _ count, List.mem_append, not_or] at known
  obtain ⟨said', scans', range⟩ :=
    (plain.drop count).exists_scansAll_fill known.2 completable.notFixed completable.apart
  have all := (scansAll_complete plain known.1 scans points completable.ends).join scans'
  rw [itemsOf_take_append_drop, ← parts] at all
  have taken := all.takeItems_eq .empty
  rw [Reading.recordEach_append, recorded] at taken
  cases result : front.recordEach said' with
  | ok next =>
    refine .inl ⟨next, Reading.ofText_eq_ok.2 (taken.trans ?_)⟩
    exact congrArg (Except.map _) result
  | error fault =>
    obtain rfl := Reading.error_of_recordEach range result
    refine .inr (bind_eq_error.2 (.inl (taken.trans ?_)))
    exact congrArg (Except.map _) result

/-- What is filled in for the components of the ISO format, and behind an ISO text without a second. -/
theorem accepts_fill_and_complete_iso :
    (∀ component ∈ DateTime.isoFormat.components,
      ∃ reading, Reading.ofText component.text component.fill = .ok reading) ∧
    ((∃ reading, Reading.ofText DateTime.isoFormat.text
        (DateTime.isoFormat.complete 5 "2009-10-12T12:15".toList) = .ok reading) ∨
      Reading.ofText DateTime.isoFormat.text
        (DateTime.isoFormat.complete 5 "2009-10-12T12:15".toList) = .error .impossible) := by
  obtain ⟨accepts, completes⟩ :=
    accepts_fill_and_complete (by decide) DateTime.ofText_isoText (by decide +kernel)
  have supplied : DateTime.isoFormat.suppliedCount "2009-10-12T12:15".toList = 5 := by decide +kernel
  have matched : (fun _ => ()) <$> Reading.ofText (DateTime.isoFormat.front 5) "2009-10-12T12:15".toList =
      .ok () := by decide +kernel
  obtain ⟨front, matched, -⟩ := map_eq_ok.1 matched
  have completable : DateTime.isoFormat.IsCompletable 5 :=
    ⟨by decide +kernel, endsDigits_cons rfl, fun isOpen => absurd isOpen (by decide),
      fun _ => endsDigits_cons rfl, fun _ => endsDigits_nil, trivial⟩
  have completed := completes "2009-10-12T12:15".toList front (by rw [supplied]; decide)
    (by rw [supplied]; exact matched) (by rw [supplied]; exact completable)
  rw [supplied] at completed
  refine ⟨fun component mem => (accepts component mem).2 ?_, completed⟩
  revert component
  decide +kernel

/-- For a format that asks for three decimal places, what is filled in is not accepted, and an input without
them cannot be completed: only one is filled in. -/
theorem not_accepts_fill_all : ¬∀ (text : String) (format : DateFormat), ofText text = .ok format →
    .unknown ∉ Item.ofText text.toList →
    (∀ component ∈ format.components,
      ∃ reading, Reading.ofText component.text component.fill = .ok reading) ∨
    ∀ (input : List Char) (front : Reading), format.suppliedCount input ≠ 0 →
      Reading.ofText (format.front (format.suppliedCount input)) input = .ok front →
      (∃ reading, Reading.ofText format.text (format.complete (format.suppliedCount input) input) =
        .ok reading) ∨
      Reading.ofText format.text (format.complete (format.suppliedCount input) input) =
        .error .impossible := by
  intro all
  have accepted : ofText "%Y-%m-%dT%H:%M:%S%.3f" = .ok ⟨"%Y-%m-%dT%H:%M:%S%.3f".toList,
      [⟨['%', 'Y'], [], ['0', '0', '0', '0']⟩, ⟨['-', '%', 'm'], ['-'], ['-', '0', '1']⟩,
        ⟨['-', '%', 'd'], ['-'], ['-', '0', '1']⟩, ⟨['T', '%', 'H'], ['T'], ['T', '0', '0']⟩,
        ⟨[':', '%', 'M'], [':'], [':', '0', '0']⟩, ⟨[':', '%', 'S'], [':'], [':', '0', '0']⟩,
        ⟨['%', '.', '3', 'f'], ['.'], ['.', '0']⟩]⟩ := rfl
  generalize isFormat : (⟨_, _⟩ : DateFormat) = format at accepted
  rcases all _ _ accepted (by decide +kernel) with accepts | completes
  · obtain ⟨reading, matched⟩ :=
      accepts ⟨['%', '.', '3', 'f'], ['.'], ['.', '0']⟩ (by subst isFormat; decide)
    have refused : (fun _ => ()) <$> Reading.ofText ['%', '.', '3', 'f'] ['.', '0'] =
        .error .tooShort := by decide +kernel
    cases matched.symm.trans (map_eq_error.1 refused)
  · have supplied : format.suppliedCount "2009-10-12".toList = 3 := by
      subst isFormat
      decide +kernel
    have matched : (fun _ => ()) <$> Reading.ofText (format.front 3) "2009-10-12".toList = .ok () := by
      subst isFormat
      decide +kernel
    have refused : (fun _ => ()) <$> Reading.ofText format.text (format.complete 3 "2009-10-12".toList) =
        .error .tooShort := by
      subst isFormat
      decide +kernel
    obtain ⟨front, matched, -⟩ := map_eq_ok.1 matched
    have completed := completes "2009-10-12".toList front (by rw [supplied]; decide)
      (by rw [supplied]; exact matched)
    rw [supplied] at completed
    rcases completed with ⟨reading, matched⟩ | impossible
    · cases matched.symm.trans (map_eq_error.1 refused)
    · cases impossible.symm.trans (map_eq_error.1 refused)

end ResourceQuery.DateFormat
