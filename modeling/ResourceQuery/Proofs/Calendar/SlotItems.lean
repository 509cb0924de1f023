import ResourceQuery.Proofs.Calendar.Components

/-!
# What components stand for

Literal text stands for items that match it and ask for nothing, a slot for these and one item more. That
item asks for a number, unless the specifier is unknown. Where all specifiers are known, what a row of
components stands for is what they stand for one by one.
-/

namespace ResourceQuery.Calendar
set_option autoImplicit false
open Fallible Text Numeral DateFormat

variable {c : Char} {cs literal rest : List Char}

/-! ## Literal text -/

namespace Item

theorem ofText_nil : ofText [] = [] := by
  rw [ofText]

theorem ofText_blank (blank : isBlank c = true) :
    ofText (c :: cs) = .blanks :: ofText (cs.dropWhile isBlank) := by
  have other : c ≠ '%' := by
    rintro rfl
    exact absurd blank (by decide)
  rw [ofText, if_neg other, if_pos blank]

theorem ofText_run (solid : isBlank c = false) (other : c ≠ '%') :
    ofText (c :: cs) = .literal (c :: cs.takeWhile isPlain) :: ofText (cs.dropWhile isPlain) := by
  rw [ofText, if_neg other, if_neg (by simp [solid])]

/-- Literal text is made of runs of blanks and runs of other characters. -/
@[elab_as_elim]
theorem literal_induction {motive : ∀ literal : List Char, '%' ∉ literal → Prop}
    (nil : motive [] List.not_mem_nil)
    (blanks : ∀ c cs plain plain', isBlank c = true → motive (cs.dropWhile isBlank) plain →
      motive (c :: cs) plain')
    (run : ∀ c cs plain plain', isBlank c = false → c ≠ '%' → motive (cs.dropWhile isPlain) plain →
      motive (c :: cs) plain') :
    ∀ literal plain, motive literal plain
  | [], _ => nil
  | c :: cs, plain => by
    obtain ⟨other, others⟩ := not_or.1 (mt List.mem_cons.2 plain)
    have dropped (accepts : Char → Bool) : '%' ∉ cs.dropWhile accepts := fun mem =>
      others ((List.dropWhile_suffix accepts).subset mem)
    cases blank : isBlank c with
    | true =>
      have shorter := (List.dropWhile_suffix (l := cs) isBlank).length_le
      exact blanks c cs (dropped _) plain blank (literal_induction nil blanks run _ (dropped _))
    | false =>
      have shorter := (List.dropWhile_suffix (l := cs) isPlain).length_le
      exact run c cs (dropped _) plain blank (Ne.symm other)
        (literal_induction nil blanks run _ (dropped _))
termination_by literal => literal.length

/-- Literal text ends where a specifier opens. -/
theorem ofText_append (plain : '%' ∉ literal) (stops : ∀ c ∈ rest.head?, c = '%') :
    ofText (literal ++ rest) = ofText literal ++ ofText rest := by
  have ends {accepts : Char → Bool} (percent : accepts '%' = false) :
      ∀ c ∈ rest.head?, accepts c = false := fun c first => stops c first ▸ percent
  induction literal, plain using literal_induction with
  | nil => rw [ofText_nil, List.nil_append, List.nil_append]
  | blanks c cs _ _ blank ih =>
    rw [List.cons_append, ofText_blank blank, ofText_blank blank,
      dropWhile_append_of_stops (.inr (ends (by decide))), ih, List.cons_append]
  | run c cs _ _ solid other ih =>
    rw [List.cons_append, ofText_run solid other, ofText_run solid other,
      dropWhile_append_of_stops (.inr (ends (by decide))), takeWhile_append_of_stops (ends (by decide)),
      ih, List.cons_append]

/-- Literal text asks for nothing, and all its points are matched. -/
theorem ofText_literal (plain : '%' ∉ literal) :
    (∀ item ∈ ofText literal, item.isSimple = true ∧ item.asks? = none) ∧
      ((ofText literal).map points).sum = literal.count '.' := by
  induction literal, plain using literal_induction with
  | nil => simp [ofText_nil]
  | blanks c cs _ _ blank ih =>
    have notPoint : c ≠ '.' := by
      rintro rfl
      exact absurd blank (by decide)
    have noPoint : '.' ∉ cs.takeWhile isBlank := fun mem =>
      absurd (List.all_eq_true.1 List.all_takeWhile '.' mem) (by decide)
    have count : (c :: cs).count '.' = (cs.dropWhile isBlank).count '.' := by
      nth_rewrite 1 [← List.takeWhile_append_dropWhile (p := isBlank) (l := cs)]
      rw [List.count_cons_of_ne notPoint, List.count_append, List.count_eq_zero.2 noPoint, Nat.zero_add]
    rw [ofText_blank blank, List.forall_mem_cons, List.map_cons, List.sum_cons, ih.2, count]
    exact ⟨⟨⟨rfl, rfl⟩, ih.1⟩, Nat.zero_add _⟩
  | run c cs _ _ solid other ih =>
    have count : (c :: cs).count '.' =
        (c :: cs.takeWhile isPlain).count '.' + (cs.dropWhile isPlain).count '.' := by
      rw [← List.count_append, List.cons_append, List.takeWhile_append_dropWhile]
    rw [ofText_run solid other, List.forall_mem_cons, List.map_cons, List.sum_cons, ih.2, count]
    exact ⟨⟨⟨rfl, rfl⟩, ih.1⟩, rfl⟩

end Item

/-- Literal text is matched by itself, if no blank follows. -/
theorem scansAll_literal (plain : '%' ∉ literal) (solid : ∀ c ∈ rest.head?, isBlank c = false) :
    ScansAll (Item.ofText literal) (literal ++ rest) [] rest := by
  induction literal, plain using Item.literal_induction with
  | nil =>
    rw [Item.ofText_nil]
    exact .nil
  | blanks c cs _ _ blank ih =>
    rw [Item.ofText_blank blank]
    have passed : (c :: cs ++ rest).dropWhile isBlank = cs.dropWhile isBlank ++ rest := by
      rw [List.cons_append, List.dropWhile_cons, if_pos blank, dropWhile_append_of_stops (.inr solid)]
    have first : Item.blanks.Scans (c :: cs ++ rest) [] (cs.dropWhile isBlank ++ rest) :=
      passed ▸ .blanks
    exact .cons first ih
  | run c cs _ _ solid' other ih =>
    rw [Item.ofText_run solid' other]
    have split : c :: cs ++ rest = (c :: cs.takeWhile Item.isPlain) ++ (cs.dropWhile Item.isPlain ++ rest) := by
      rw [List.cons_append, List.cons_append, ← List.append_assoc, List.takeWhile_append_dropWhile]
    rw [split]
    exact .cons .literal ih

/-! ## Specifiers -/

/-- What a specifier with these modifiers and this letter stands for. -/
def specifierItem (modifiers : List Char) (letter : Char) : Item :=
  match modifiers with
  | [] => ((Quantity.ofLetter? letter).map Item.number).getD .unknown
  | [c] =>
    if c = '.' ∧ letter = 'f' then .fraction
    else if Item.isPadding c then ((Quantity.ofLetter? letter).map Item.number).getD .unknown
    else if letter = 'f' then ((Item.places? c).map Item.bareFraction).getD .unknown
    else .unknown
  | ['.', c] =>
    if letter = 'f' then ((Item.places? c).map Item.pointFraction).getD .unknown else .unknown
  | _ => .unknown

/-- Behind a percent sign neither a point nor a colon nor a sharp sign is taken for padding, for a letter or
for a number of places. -/
theorem mark_spec (mark : c ∈ ['.', ':', '#']) :
    Item.isPadding c = false ∧ Item.places? c = none ∧ Item.ofLetter? c = none := by
  simp only [List.mem_cons, List.not_mem_nil, or_false] at mark
  rcases mark with rfl | rfl | rfl <;> exact ⟨rfl, rfl, rfl⟩

/-- A specifier that starts with one of these signs is one of a few. -/
theorem ofSpecifier?_mark {d : Char} (mark : c ∈ ['.', ':', '#'])
    (zone : d ≠ 'z' ∧ (d = ':' → ∀ cs, rest ≠ 'z' :: cs ∧ rest ≠ ':' :: 'z' :: cs))
    (point : c = '.' → d ≠ 'f' ∧ (Item.places? d = none ∨ ∀ cs, rest ≠ 'f' :: cs)) :
    Item.ofSpecifier? (c :: d :: rest) = none := by
  obtain ⟨notPadding, places, letter⟩ := mark_spec mark
  unfold Item.ofSpecifier?
  split <;> simp_all

theorem ofSpecifier?_point (other : c ≠ 'f') :
    Item.ofSpecifier? ('.' :: c :: 'f' :: rest) =
      (Item.places? c).map fun n => ([.pointFraction n], rest) := by
  unfold Item.ofSpecifier?
  split <;> grind

/-- A specifier that starts with no sign is padded, has places or starts with its letter. -/
theorem ofSpecifier?_cons_cons {d : Char} (other : c ∉ ['%', '.', ':', '#']) :
    Item.ofSpecifier? (c :: d :: rest) =
      if Item.isPadding c then (Quantity.ofLetter? d).map fun q => ([.number q], rest)
      else if d = 'f' ∧ (Item.places? c).isSome then
        (Item.places? c).map fun n => ([.bareFraction n], rest)
      else (Item.ofLetter? c).map fun items => (items, d :: rest) := by
  unfold Item.ofSpecifier?
  split <;> simp_all

namespace Slot

/-- What the specifier of the slot stands for. -/
def item (slot : Slot) : Item :=
  specifierItem slot.modifiers slot.letter

/-- The letters that have a least value. -/
theorem letter_mem (slot : Slot) : slot.letter ∈ ['Y', 'y', 'C', 'm', 'd', 'e', 'j', 'H', 'M', 'S', 'f'] := by
  have least := slot.least
  unfold leastValue? at least
  split at least <;> simp_all

/-- Neither the letter of a slot nor a character in front of it is taken for something else. -/
theorem letter_spec (slot : Slot) :
    Item.isPadding slot.letter = false ∧ Item.places? slot.letter = none ∧
      (∃ q, Quantity.ofLetter? slot.letter = some q ∧ Item.ofLetter? slot.letter = some [.number q]) ∧
      slot.letter ∉ ['%', '.', ':', '#', 'z'] := by
  have letter := slot.letter_mem
  simp only [List.mem_cons, List.not_mem_nil, or_false] at letter
  rcases letter with same | same | same | same | same | same | same | same | same | same | same <;>
    rw [same] <;> exact ⟨rfl, rfl, ⟨_, rfl, rfl⟩, by decide⟩

theorem modifier_spec {c : Char} (isModifier : isModifier c = true) :
    Quantity.ofLetter? c = none ∧ Item.ofLetter? c = none ∧ c ∉ ['%', 'f', 'z'] := by
  have unnamed : Quantity.ofLetter? c = none := by
    unfold Quantity.ofLetter?
    split <;> first | rfl | exact absurd isModifier (by decide)
  refine ⟨unnamed, ?_, ?_⟩
  · unfold Item.ofLetter?
    split <;> first | exact absurd isModifier (by decide) | rw [unnamed]; rfl
  · intro mem
    simp only [List.mem_cons, List.not_mem_nil, or_false] at mem
    rcases mem with rfl | rfl | rfl <;> exact absurd isModifier (by decide)

theorem ofSpecifier?_eq (slot : Slot) (rest : List Char) :
    Item.ofSpecifier? (slot.modifiers ++ slot.letter :: rest) =
      if slot.item = .unknown then none else some ([slot.item], rest) := by
  obtain ⟨notPadding, noPlaces, ⟨q, quantity, letterItems⟩, others⟩ := slot.letter_spec
  have areModifiers := slot.areModifiers
  unfold item
  generalize slot.letter = letter at *
  generalize slot.modifiers = modifiers at *
  obtain _ | ⟨c, _ | ⟨d, more⟩⟩ := modifiers
  · have other : letter ∉ ['%', '.', ':', '#'] := by simp_all
    cases rest with
    | nil =>
      unfold Item.ofSpecifier?
      split <;> simp_all [specifierItem]
    | cons d rest =>
      rw [List.nil_append, ofSpecifier?_cons_cons other]
      simp [specifierItem, quantity, letterItems, notPadding, noPlaces]
  · obtain ⟨unnamed, itemless, notThese⟩ := modifier_spec (by simpa using areModifiers : isModifier c = true)
    by_cases mark : c ∈ ['.', ':', '#']
    · by_cases fraction : c = '.' ∧ letter = 'f'
      · obtain ⟨rfl, rfl⟩ := fraction
        rfl
      · obtain ⟨notPadding', noPlaces', -⟩ := mark_spec mark
        have unknown : specifierItem [c] letter = .unknown := by
          simp [specifierItem, fraction, notPadding', noPlaces']
        rw [if_pos unknown]
        exact ofSpecifier?_mark mark (by simp_all) fun point => ⟨by simp_all, .inl noPlaces⟩
    · have other : c ∉ ['%', '.', ':', '#'] := by simp_all
      have notPoint : c ≠ '.' := by simp_all
      rw [List.singleton_append, ofSpecifier?_cons_cons other]
      simp only [specifierItem, notPoint, false_and, if_false, quantity, itemless]
      cases Item.isPadding c with
      | true => simp
      | false =>
        by_cases isFraction : letter = 'f'
        · cases Item.places? c <;> simp [isFraction]
        · simp [isFraction]
  · obtain ⟨areModifiers', -⟩ : (isModifier c = true ∧ isModifier d = true) ∧ more.all isModifier = true := by
      simpa [and_assoc] using areModifiers
    obtain ⟨-, itemless, notThese⟩ := modifier_spec areModifiers'.1
    obtain ⟨unnamed, -, notThese'⟩ := modifier_spec areModifiers'.2
    by_cases fraction : c = '.' ∧ more = [] ∧ letter = 'f'
    · obtain ⟨rfl, rfl, rfl⟩ := fraction
      have notFraction : d ≠ 'f' := by simp_all
      rw [List.cons_append, List.singleton_append, ofSpecifier?_point notFraction]
      cases places : Item.places? d <;> simp [specifierItem, places]
    have unknown : specifierItem (c :: d :: more) letter = .unknown := by
      unfold specifierItem
      split <;> simp_all
    rw [if_pos unknown]
    by_cases mark : c ∈ ['.', ':', '#']
    · have others' : ∀ e ∈ more, e ≠ 'f' ∧ e ≠ 'z' := by
        intro e mem
        obtain ⟨-, -, notThese⟩ := modifier_spec (List.all_eq_true.1 areModifiers e (by simp [mem]))
        simp_all
      refine ofSpecifier?_mark mark ⟨by simp_all, fun _ cs => ?_⟩ fun point => ⟨by simp_all, .inr fun cs => ?_⟩
      · obtain _ | ⟨e, _ | ⟨f, more⟩⟩ := more <;> simp_all
      · obtain _ | ⟨e, more⟩ := more <;> simp_all
    · have other : c ∉ ['%', '.', ':', '#'] := by simp_all
      have notFraction : d ≠ 'f' := by simp_all
      rw [List.cons_append, List.cons_append, ofSpecifier?_cons_cons other]
      simp [unnamed, itemless, notFraction]

/-- The specifier of a slot is its item, whatever follows, or unknown. -/
theorem ofText_specifier (slot : Slot) (rest : List Char) :
    Item.ofText (slot.specifier ++ rest) =
      if slot.item = .unknown then [.unknown] else slot.item :: Item.ofText rest := by
  have start : slot.specifier ++ rest = '%' :: (slot.modifiers ++ slot.letter :: rest) := by
    simp [specifier]
  rw [start, Item.ofText, if_pos rfl]
  split
  · next items rest' known =>
    rw [ofSpecifier?_eq] at known
    split at known
    · simp at known
    · next other =>
      obtain ⟨rfl, rfl⟩ := Prod.mk.inj (Option.some.inj known)
      rw [if_neg other, List.singleton_append]
  · next unknown =>
    rw [ofSpecifier?_eq] at unknown
    split at unknown
    · next same => rw [if_pos same]
    · simp at unknown

/-- What a slot stands for: nothing known, a number, or decimal places, as many as there are or so many. -/
inductive Stands (slot : Slot) : Item → Prop
  | unknown : Stands slot .unknown
  | number {q : Quantity} (quantity : Quantity.ofLetter? slot.letter = some q)
      (noPoint : slot.pointed = false) : Stands slot (.number q)
  | fraction (isFraction : slot.letter = 'f') (point : slot.pointed = true) : Stands slot .fraction
  | pointFraction {places : Nat} (isFraction : slot.letter = 'f') (point : slot.pointed = true)
      (several : 3 ≤ places ∧ places ≤ 9) : Stands slot (.pointFraction places)
  | bareFraction {places : Nat} (isFraction : slot.letter = 'f') (noPoint : slot.pointed = false)
      (several : 3 ≤ places ∧ places ≤ 9) : Stands slot (.bareFraction places)

theorem several_of_places? {n : Nat} (places : Item.places? c = some n) : 3 ≤ n ∧ n ≤ 9 := by
  unfold Item.places? at places
  split at places <;> simp_all <;> omega

theorem pointed_eq (slot : Slot) : slot.pointed = (slot.modifiers.head? == some '.') := by
  obtain ⟨-, -, -, others⟩ := slot.letter_spec
  have notPoint : slot.letter ≠ '.' := by simp_all
  rw [pointed, specifier, Bool.eq_iff_iff]
  cases slot.modifiers with
  | nil => simpa [List.isPrefixOf] using Ne.symm notPoint
  | cons c more => simpa [List.isPrefixOf] using eq_comm

theorem least_pointed (slot : Slot) : leastValue? slot.letter slot.pointed = some slot.value :=
  slot.least

theorem stands_item (slot : Slot) : slot.Stands slot.item := by
  obtain ⟨-, -, ⟨q, quantity, -⟩, -⟩ := slot.letter_spec
  have point := slot.pointed_eq
  unfold item specifierItem
  split
  · next none =>
    rw [quantity]
    exact .number quantity (by rw [point, none]; rfl)
  · next c one =>
    split
    · next fraction => exact .fraction fraction.2 (by rw [point, one, fraction.1]; rfl)
    split
    · next padding =>
      rw [quantity]
      refine .number quantity (Bool.eq_false_iff.2 fun isPointed => ?_)
      obtain rfl : c = '.' := by simpa [point, one] using isPointed
      exact absurd padding (by decide)
    split
    · next notFraction _ isFraction =>
      cases places : Item.places? c with
      | none => exact .unknown
      | some n =>
        refine .bareFraction isFraction (Bool.eq_false_iff.2 fun isPointed => ?_) (several_of_places? places)
        exact notFraction ⟨by simpa [point, one] using isPointed, isFraction⟩
    · exact .unknown
  · next c two =>
    split
    · next isFraction =>
      cases places : Item.places? c with
      | none => exact .unknown
      | some n => exact .pointFraction isFraction (by rw [point, two]; rfl) (several_of_places? places)
    · exact .unknown
  · exact .unknown

/-- A slot that is known asks for something, and for a point exactly if its specifier does. -/
theorem item_spec (slot : Slot) (known : slot.item ≠ .unknown) :
    slot.item.isSimple = true ∧ (∃ q, slot.item.asks? = some q) ∧
      slot.item.points = if slot.pointed then 1 else 0 := by
  have stands := slot.stands_item
  generalize slot.item = item at *
  cases stands with
  | unknown => exact absurd rfl known
  | number _ noPoint => simp [Item.isSimple, Item.asks?, Item.points, noPoint]
  | fraction _ point => simp [Item.isSimple, Item.asks?, Item.points, point]
  | pointFraction _ point several =>
    simp [Item.isSimple, Item.asks?, Item.points, point]
    omega
  | bareFraction _ noPoint several =>
    simp [Item.isSimple, Item.asks?, Item.points, noPoint]
    omega

/-- The least value of a letter is a number that the letter can stand for. It has as many digits as there
may be, unless the letter stands for a day or for decimal places without zeros in front. -/
theorem leastValue?_spec {letter : Char} {value : List Char}
    (least : leastValue? letter false = some value) : ∃ q width, Quantity.ofLetter? letter = some q ∧
      q.width? = some width ∧ value.all Char.isDigit = true ∧ value ≠ [] ∧ value.length ≤ width ∧
      width ≤ 9 ∧ (q.range.1 ≤ digitsValue value ∧ (digitsValue value : Int) ≤ q.range.2) ∧
      (value.length = width ∨ letter = 'e' ∨ letter = 'f') := by
  unfold leastValue? at least
  split at least <;> try simp at least
  all_goals
    obtain rfl := least
    exact ⟨_, _, rfl, rfl, by decide⟩

/-- The least value of a slot has a point exactly if its specifier asks for one. -/
theorem count_value (slot : Slot) (known : slot.item ≠ .unknown) :
    slot.value.count '.' = (if slot.pointed then ['.'] else []).count '.' := by
  have least := slot.least_pointed
  have stands := slot.stands_item
  generalize slot.item = item at *
  cases stands with
  | unknown => exact absurd rfl known
  | number _ noPoint | bareFraction _ noPoint =>
    rw [noPoint] at least ⊢
    obtain ⟨_, _, -, -, all, -⟩ := leastValue?_spec least
    exact List.count_eq_zero.2 (point_not_mem_of_isDigit all)
  | fraction isFraction point | pointFraction isFraction point =>
    rw [point, isFraction] at least
    rw [point, ← Option.some.inj least]
    rfl

theorem ofText_component (slot : Slot) :
    Item.ofText slot.component.text = Item.ofText slot.literal ++ [slot.item] := by
  have alone := slot.ofText_specifier []
  rw [List.append_nil, Item.ofText_nil] at alone
  rw [component, Item.ofText_append slot.plain (by simp [specifier]), alone]
  split
  · next unknown => rw [unknown]
  · rfl

end Slot

/-! ## Components -/

/-- The items of components one after the other. -/
def itemsOf (components : List Component) : List Item :=
  components.flatMap fun component => Item.ofText component.text

theorem itemsOf_cons (component : Component) (components : List Component) :
    itemsOf (component :: components) = Item.ofText component.text ++ itemsOf components :=
  List.flatMap_cons

theorem itemsOf_slot (slot : Slot) (components : List Component) :
    itemsOf (slot.component :: components) =
      Item.ofText slot.literal ++ slot.item :: itemsOf components := by
  rw [itemsOf_cons, slot.ofText_component, List.append_assoc, List.singleton_append]

theorem itemsOf_ending (literal : List Char) : itemsOf [⟨literal, literal, literal⟩] = Item.ofText literal := by
  rw [itemsOf_cons]
  exact List.append_nil _

/-- Where nothing is unknown, neither a slot is nor what follows it. -/
theorem known_of_slot {slot : Slot} {components : List Component}
    (known : .unknown ∉ itemsOf (slot.component :: components)) :
    slot.item ≠ .unknown ∧ .unknown ∉ itemsOf components := by
  rw [itemsOf_slot, List.mem_append, List.mem_cons, not_or, not_or] at known
  exact ⟨Ne.symm known.2.1, known.2.2⟩

namespace ArePlain

variable {components : List Component}

/-- The text of components stands for what they stand for, if nothing of it is unknown. -/
theorem ofText_flatMap (plain : ArePlain components)
    (known : .unknown ∉ Item.ofText (components.flatMap Component.text)) :
    Item.ofText (components.flatMap Component.text) = itemsOf components := by
  induction plain with
  | nil => exact Item.ofText_nil
  | @ending literal =>
    rw [itemsOf_ending]
    exact congrArg Item.ofText (List.append_nil literal)
  | @slot slot components later ih =>
    have split : Item.ofText ((slot.component :: components).flatMap Component.text) =
        Item.ofText slot.literal ++ Item.ofText (slot.specifier ++ components.flatMap Component.text) := by
      rw [← Item.ofText_append slot.plain (by simp [Slot.specifier]), List.flatMap_cons, Slot.component,
        List.append_assoc]
    rw [split, slot.ofText_specifier] at known ⊢
    split at known
    · simp at known
    · next other =>
      rw [if_neg other, ih (by simp_all), itemsOf_slot]

theorem isSimple_of_mem (plain : ArePlain components) (known : .unknown ∉ itemsOf components) :
    ∀ item ∈ itemsOf components, item.isSimple = true := by
  induction plain with
  | nil => simp [itemsOf]
  | ending plain =>
    rw [itemsOf_ending]
    exact fun item mem => ((Item.ofText_literal plain).1 item mem).1
  | slot slot _ ih =>
    obtain ⟨here, later⟩ := known_of_slot known
    rw [itemsOf_slot]
    intro item mem
    rcases List.mem_append.1 mem with mem | mem
    · exact ((Item.ofText_literal slot.plain).1 item mem).1
    rcases List.mem_cons.1 mem with rfl | mem
    · exact (slot.item_spec here).1
    · exact ih later item mem

/-- Separators hold as many points as the items match. -/
theorem sum_points (plain : ArePlain components) (known : .unknown ∉ itemsOf components) :
    ((itemsOf components).map Item.points).sum = (components.flatMap Component.separators).count '.' := by
  induction plain with
  | nil => rfl
  | ending plain =>
    rw [itemsOf_ending, (Item.ofText_literal plain).2]
    simp
  | slot slot _ ih =>
    obtain ⟨here, later⟩ := known_of_slot known
    rw [itemsOf_slot, List.map_append, List.sum_append, (Item.ofText_literal slot.plain).2, List.map_cons,
      List.sum_cons, (slot.item_spec here).2.2, ih later, List.flatMap_cons, List.count_append,
      Slot.component, List.count_append]
    cases slot.pointed <;> simp [Nat.add_assoc]

/-- What is filled in holds the points that are missing. -/
theorem count_fill (plain : ArePlain components) (known : .unknown ∉ itemsOf components) :
    (components.flatMap Component.fill).count '.' = (components.flatMap Component.separators).count '.' := by
  induction plain with
  | nil => rfl
  | ending plain => rfl
  | slot slot _ ih =>
    obtain ⟨here, later⟩ := known_of_slot known
    rw [List.flatMap_cons, List.flatMap_cons, List.count_append, List.count_append, ih later,
      Slot.component, List.count_append, List.count_append, slot.count_value here]

end ArePlain

end ResourceQuery.Calendar
