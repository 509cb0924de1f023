import ResourceQuery.Proofs.Calendar.Separators
import ResourceQuery.Proofs.Calendar.SlotItems

/-!
# Inputs that are completed

An input that matches the components that it supplies is completed with the least values of the others. What
is filled in changes nothing about what the input says, as long as no digits run on.

Main statement: a completed input says what the input says, and what is filled in says the rest.
-/

namespace ResourceQuery.Calendar
set_option autoImplicit false
open Fallible Text Numeral DateFormat

variable {items items' : List Item} {reading next : Reading} {cs rest : List Char}
  {components : List Component} {said : List (Quantity × Int)}

/-! ## Matching -/

theorem takeItems_append : Reading.takeItems (items ++ items') reading cs =
    Reading.takeItems items reading cs >>= fun (next, rest) => Reading.takeItems items' next rest := by
  induction items generalizing reading cs with
  | nil => rfl
  | cons item items ih =>
    rw [List.cons_append, Reading.takeItems, Reading.takeItems, bind_assoc]
    exact congrArg _ (funext fun _ => ih)

/-- Nothing matches what is unknown. -/
theorem unknown_notMem_of_takeItems (taken : Reading.takeItems items reading cs = .ok (next, rest)) :
    .unknown ∉ items := by
  induction items generalizing reading cs with
  | nil => exact List.not_mem_nil
  | cons item items ih =>
    obtain ⟨_, first, later⟩ := bind_eq_ok.1 taken
    rw [List.mem_cons, not_or]
    refine ⟨?_, ih later⟩
    rintro rfl
    simp [Item.take] at first

/-! ## The front of an input -/

theorem itemsOf_append (components components' : List Component) :
    itemsOf (components ++ components') = itemsOf components ++ itemsOf components' :=
  List.flatMap_append

theorem itemsOf_take_append_drop (components : List Component) (count : Nat) :
    itemsOf (components.take count) ++ itemsOf (components.drop count) = itemsOf components := by
  rw [← itemsOf_append, List.take_append_drop]

variable {format : DateFormat} {input : List Char} {front : Reading} {count : Nat}

/-- What matches the text of components matches what they stand for, and nothing of it is unknown. -/
theorem takeItems_of_ofText (plain : ArePlain components)
    (matched : Reading.ofText (components.flatMap Component.text) input = .ok reading) :
    Reading.takeItems (itemsOf components) .empty input = .ok (reading, []) ∧
      Item.ofText (components.flatMap Component.text) = itemsOf components ∧
      .unknown ∉ itemsOf components := by
  have taken := Reading.ofText_eq_ok.1 matched
  have same := plain.ofText_flatMap (unknown_notMem_of_takeItems taken)
  rw [same] at taken
  exact ⟨taken, same, unknown_notMem_of_takeItems taken⟩

/-- An input that matches the components that it supplies finds a number for everything they ask for. -/
theorem exists_scansAll_front (plain : ArePlain components)
    (supplied : embeds input (components.flatMap Component.separators) = true)
    (matched : Reading.ofText (components.flatMap Component.text) input = .ok front) :
    ∃ said, ScansAll (itemsOf components) input said [] ∧ Reading.empty.recordEach said = .ok front ∧
      said.map Prod.fst = (itemsOf components).filterMap Item.asks? ∧
      ((itemsOf components).map Item.points).sum = input.count '.' := by
  obtain ⟨taken, -, known⟩ := takeItems_of_ofText plain matched
  obtain ⟨said, scans, recorded⟩ := exists_scansAll (plain.isSimple_of_mem known) taken
  have enough : ((itemsOf components).map Item.points).sum ≤ input.count '.' := by
    rw [plain.sum_points known]
    exact (embeds_iff_sublist.1 supplied).count_le '.'
  rcases scans.count_point with ⟨asked, points⟩ | few
  · exact ⟨said, scans, recorded, asked, points.symm⟩
  · exact absurd enough (Nat.not_le.2 few)

/-- Slots that find all their points find a number at the end of a text. More text behind it changes nothing,
if its digits do not run on. -/
theorem scansAll_slots_append {slots : List Slot} {more : List Char}
    (known : .unknown ∉ itemsOf (slots.map Slot.component))
    (scans : ScansAll (itemsOf (slots.map Slot.component)) input said [])
    (points : ((itemsOf (slots.map Slot.component)).map Item.points).sum = input.count '.')
    (ends : EndsDigits more) :
    ScansAll (itemsOf (slots.map Slot.component)) (input ++ more) said more := by
  rcases List.eq_nil_or_concat slots with rfl | ⟨slots, last, rfl⟩
  · cases scans
    exact .nil
  have split : itemsOf ((slots ++ [last]).map Slot.component) =
      (itemsOf (slots.map Slot.component) ++ Item.ofText last.literal) ++ [last.item] := by
    rw [List.map_append, itemsOf_append, List.map_singleton, itemsOf_slot, List.append_assoc]
    rfl
  rw [List.concat_eq_append, split] at known scans points ⊢
  generalize itemsOf (slots.map Slot.component) ++ Item.ofText last.literal = ahead at *
  obtain ⟨-, ⟨q, asks⟩, -⟩ := last.item_spec (by rintro same; simp [same] at known)
  obtain ⟨said₁, behind, said₂, rfl, front, back⟩ := scans.exists_parts
  -- No point is missing at the last slot, so that its number is found.
  have found : said₂ ≠ [] := by
    have frontPoints := front.count_point
    rw [List.map_append, List.sum_append] at points
    rcases back.count_point with ⟨asked, -⟩ | few
    · rintro rfl
      simp [asks] at asked
    · simp only [List.map_singleton, List.sum_singleton, List.count_nil] at few points
      omega
  cases back with
  | cons last' none =>
    cases none
    rw [List.append_nil] at found
    obtain ⟨taken, rfl, nonempty, -⟩ := last'.exists_taken
    have some : taken ++ [] ≠ [] := by simpa using nonempty found
    exact (front.append some).join (.cons (last'.append (.inr ⟨found, ends⟩)) .nil)

/-- What is filled in behind an input changes nothing about what the input says. -/
theorem scansAll_complete (plain : ArePlain components) (known : .unknown ∉ itemsOf (components.take count))
    (scans : ScansAll (itemsOf (components.take count)) input said [])
    (points : ((itemsOf (components.take count)).map Item.points).sum = input.count '.')
    (ends : EndsDigits ((components.drop count).flatMap Component.fill)) :
    ScansAll (itemsOf (components.take count)) (input ++ (components.drop count).flatMap Component.fill) said
      ((components.drop count).flatMap Component.fill) := by
  rcases Nat.lt_or_ge count components.length with short | long
  · obtain ⟨slots, same⟩ := plain.exists_slots short
    rw [same] at known scans points ⊢
    exact scansAll_slots_append known scans points ends
  · rw [List.drop_eq_nil_of_le long, List.flatMap_nil, List.append_nil]
    exact scans

/-- What is filled in finds a number for everything that the missing components ask for, if it matches. -/
theorem exists_said_fill (plain : ArePlain components)
    (taken : Reading.takeItems (itemsOf components) reading (components.flatMap Component.fill) =
      .ok (next, [])) :
    ∃ said, reading.recordEach said = .ok next ∧
      said.map Prod.fst = (itemsOf components).filterMap Item.asks? := by
  have known := unknown_notMem_of_takeItems taken
  obtain ⟨said, scans, recorded⟩ := exists_scansAll (plain.isSimple_of_mem known) taken
  refine ⟨said, recorded, scans.map_fst_eq ?_⟩
  rw [plain.sum_points known, plain.count_fill known]
  exact Nat.le_refl _

/-- What the text of a format asks for. -/
def asked (text : List Char) : List Quantity :=
  (Item.ofText text).filterMap Item.asks?

/-- A completed input says what the input says, and what is filled in says the rest. -/
theorem exists_said (plain : ArePlain format.components)
    (whole : format.components.flatMap Component.text = format.text)
    (supplied : format.supplies input count = true)
    (ends : EndsDigits ((format.components.drop count).flatMap Component.fill))
    (matched : Reading.ofText (format.front count) input = .ok front)
    (completed : Reading.ofText format.text (format.complete count input) = .ok reading) :
    ∃ said said', Reading.empty.recordEach said = .ok front ∧
      Reading.empty.recordEach (said ++ said') = .ok reading ∧
      said.map Prod.fst = asked (format.front count) ∧
      (said ++ said').map Prod.fst = asked format.text := by
  obtain ⟨said, scans, recorded, all, points⟩ := exists_scansAll_front (plain.take count) supplied matched
  obtain ⟨-, sameFront, known⟩ := takeItems_of_ofText (plain.take count) matched
  rw [← whole] at completed ⊢
  obtain ⟨taken, same, -⟩ := takeItems_of_ofText plain completed
  -- The front finds in the completed input what it finds in the input.
  have begun := (scansAll_complete plain known scans points ends).takeItems_eq .empty
  rw [recorded] at begun
  rw [← itemsOf_take_append_drop format.components count, takeItems_append, complete, begun] at taken
  obtain ⟨said', others, all'⟩ := exists_said_fill (plain.drop count) taken
  refine ⟨said, said', recorded, ?_, ?_, ?_⟩
  · rw [Reading.recordEach_append, recorded]
    exact others
  · rw [all, asked, ← sameFront]
    rfl
  · rw [asked, List.map_append, all, all', ← List.filterMap_append, itemsOf_take_append_drop, same]

end ResourceQuery.Calendar
