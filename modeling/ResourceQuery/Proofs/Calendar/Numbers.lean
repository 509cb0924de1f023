import ResourceQuery.Proofs.Calendar.Items

/-!
# Numbers behind signs

Most of a date is a row of short numbers, each behind a sign of its own. `SpellsNumbers` describes such a
row apart from any reader. A format with these signs reads exactly the rows, and a search for the signs
finds all of them and no more.
-/

namespace ResourceQuery.Calendar
set_option autoImplicit false
open Fallible Text Numeral

/-! ## Rows of numbers -/

/-- One or two digits, behind any number of blanks. -/
def IsShort (text : List Char) (n : Nat) : Prop :=
  ∃ blanks digits, text = blanks ++ digits ∧ blanks.all isBlank = true ∧
    digits.all Char.isDigit = true ∧ (digits.length = 1 ∨ digits.length = 2) ∧ digitsValue digits = n

/-- The text is made of short numbers, each behind its sign. -/
inductive SpellsNumbers : List Char → List Char → List Nat → Prop
  | nil : SpellsNumbers [] [] []
  | cons {sign : Char} {signs number text : List Char} {n : Nat} {numbers : List Nat}
      (short : IsShort number n) (later : SpellsNumbers signs text numbers) :
      SpellsNumbers (sign :: signs) (sign :: (number ++ text)) (n :: numbers)

variable {signs text cs rest : List Char} {numbers : List Nat} {n width : Nat}

theorem SpellsNumbers.length_eq (spells : SpellsNumbers signs text numbers) :
    numbers.length = signs.length := by
  induction spells with
  | nil => rfl
  | cons _ _ ih => rw [List.length_cons, List.length_cons, ih]

theorem SpellsNumbers.append {signs' text' : List Char} {numbers' : List Nat}
    (spells : SpellsNumbers signs text numbers) (spells' : SpellsNumbers signs' text' numbers') :
    SpellsNumbers (signs ++ signs') (text ++ text') (numbers ++ numbers') := by
  induction spells with
  | nil => exact spells'
  | cons short _ ih =>
    rw [List.cons_append, List.cons_append, List.cons_append, List.append_assoc]
    exact .cons short ih

/-- Where no sign is a digit, none opens a row. -/
theorem SpellsNumbers.endsDigits (spells : SpellsNumbers signs text numbers)
    (others : ∀ sign ∈ signs, sign.isDigit = false) (ends : EndsDigits rest) :
    EndsDigits (text ++ rest) := by
  cases spells with
  | nil => exact ends
  | cons => exact endsDigits_cons (others _ List.mem_cons_self)

/-! ## Short numbers -/

/-- The number has at most two digits and no sign. -/
def Quantity.isShort (q : Quantity) : Bool :=
  q.width? == some 2 && !q.isSigned

variable {q : Quantity}

/-- A number without a sign is what stands behind the blanks. -/
theorem Quantity.take_of_isShort (short : q.isShort = true) (cs : List Char) :
    q.take cs = (takeNumber 2 (cs.dropWhile isBlank)).map fun (n, rest) => ((n : Int), rest) := by
  simp only [isShort, Bool.and_eq_true, beq_iff_eq, Bool.not_eq_true'] at short
  simp only [take, short, Option.getD_some]
  rfl

theorem Quantity.take_short (short : q.isShort = true) (number : IsShort text n)
    (ends : EndsDigits rest) : q.take (text ++ rest) = .ok ((n : Int), rest) := by
  obtain ⟨blanks, digits, rfl, allBlank, allDigits, count, rfl⟩ := number
  have nonempty : digits ≠ [] := by
    rintro rfl
    simp at count
  obtain ⟨c, others, rfl⟩ := List.exists_cons_of_ne_nil nonempty
  have first : ∀ d ∈ (c :: others ++ rest).head?, isBlank d = false := by
    rintro d ⟨⟩
    exact not_isBlank_of_isDigit (isDigit_head allDigits c rfl)
  rw [take_of_isShort short, List.append_assoc, (takeWhile_append_of_all allBlank first).2,
    takeNumber_digits allDigits nonempty (by omega) (by omega) (.inr ends)]
  rfl

theorem Quantity.exists_short_of_take {m : Int} (short : q.isShort = true)
    (taken : q.take cs = .ok (m, rest)) : ∃ text n, cs = text ++ rest ∧ IsShort text n ∧ m = (n : Int) := by
  rw [take_of_isShort short] at taken
  obtain ⟨⟨n, behind⟩, read, same⟩ := map_eq_ok.1 taken
  obtain ⟨rfl, rfl⟩ := Prod.mk.inj same
  obtain ⟨digits, left, nonempty, all, count, -, value, -⟩ := takeNumber_eq_ok.1 read
  have positive := List.length_pos_iff.2 nonempty
  refine ⟨cs.takeWhile isBlank ++ digits, n, ?_, ?_, rfl⟩
  · rw [List.append_assoc, ← left, List.takeWhile_append_dropWhile]
  · exact ⟨_, digits, rfl, List.all_takeWhile, all, by omega, value⟩

/-! ## Reading rows -/

/-- A sign and the number behind it, as parts of a format. -/
abbrev Step := Char × Quantity

/-- The items of signs with numbers behind them. -/
def numberItems (steps : List Step) : List Item :=
  steps.flatMap fun (sign, q) => [.sign sign, .number q]

/-- Gives fields what numbers in a row say about them. -/
def Reading.recordAll : Reading → List Step → List Nat → Except Fault Reading
  | reading, (_, q) :: steps, n :: numbers => do (← reading.record q n).recordAll steps numbers
  | reading, _, _ => .ok reading

/-- The signs are no digits, and the numbers are short. -/
def AreShort (steps : List Step) : Prop :=
  ∀ step ∈ steps, step.1.isDigit = false ∧ step.2.isShort = true

variable {steps : List Step} {reading next : Reading} {items : List Item}

theorem Reading.recordAll_append {steps' : List Step} {numbers' : List Nat}
    (same : steps.length = numbers.length) :
    reading.recordAll (steps ++ steps') (numbers ++ numbers') =
      reading.recordAll steps numbers >>= (·.recordAll steps' numbers') := by
  induction steps generalizing numbers reading with
  | nil =>
    obtain rfl := List.length_eq_zero_iff.1 same.symm
    rfl
  | cons step steps ih =>
    obtain ⟨n, numbers, rfl⟩ := List.exists_cons_of_length_eq_add_one same.symm
    have shorter : steps.length = numbers.length := by simpa using same
    simp only [List.cons_append, recordAll, bind_assoc]
    exact congrArg _ (funext fun next => ih shorter)

/-- A row of numbers is matched, and each number says what it says about fields. -/
theorem takeItems_numbers (short : AreShort steps)
    (spells : SpellsNumbers (steps.map Prod.fst) text numbers) (ends : EndsDigits rest) :
    Reading.takeItems (numberItems steps ++ items) reading (text ++ rest) =
      reading.recordAll steps numbers >>= fun next => Reading.takeItems items next rest := by
  induction steps generalizing text numbers reading with
  | nil =>
    cases spells
    rfl
  | cons step steps ih =>
    obtain ⟨sign, q⟩ := step
    obtain ⟨⟨-, unsigned⟩, others⟩ := List.forall_mem_cons.1 short
    rw [List.map_cons] at spells
    cases spells with
    | @cons _ _ number text n numbers isNumber later =>
      have behind : EndsDigits (text ++ rest) :=
        later.endsDigits (List.forall_mem_map.2 fun step mem => (others step mem).1) ends
      have items' : numberItems ((sign, q) :: steps) ++ items =
          .sign sign :: .number q :: (numberItems steps ++ items) := rfl
      rw [items', List.cons_append, List.append_assoc, Reading.takeItems_cons (take_sign _ _ _),
        Reading.takeItems, Item.take, Quantity.take_short unsigned isNumber behind, Reading.recordAll]
      cases recorded : reading.record q n with
      | error fault => simp only [bind, Except.bind, recorded]
      | ok next =>
        simp only [bind, Except.bind, recorded]
        exact ih others later

/-- A literal character matches nothing but itself. -/
theorem exists_of_take_sign {sign : Char} (taken : (Item.sign sign).take reading cs = .ok (next, rest)) :
    cs = sign :: rest ∧ next = reading := by
  simp only [Item.sign, Item.take] at taken
  split at taken
  · simp at taken
  split at taken
  · next opens =>
    obtain ⟨rfl, rfl⟩ := Prod.mk.inj (Except.ok.inj taken)
    cases cs with
    | nil => simp at opens
    | cons c others =>
      obtain rfl : sign = c := by simpa using opens
      exact ⟨rfl, rfl⟩
  · simp at taken

/-- Whatever is matched by signs with numbers behind them is a row of numbers. -/
theorem exists_numbers_of_takeItems (short : AreShort steps)
    (taken : Reading.takeItems (numberItems steps ++ items) reading cs = .ok (next, rest)) :
    ∃ text numbers reading' behind, cs = text ++ behind ∧
      SpellsNumbers (steps.map Prod.fst) text numbers ∧
      Reading.takeItems items reading' behind = .ok (next, rest) := by
  induction steps generalizing cs reading with
  | nil => exact ⟨[], [], reading, cs, rfl, .nil, taken⟩
  | cons step steps ih =>
    obtain ⟨sign, q⟩ := step
    obtain ⟨⟨-, unsigned⟩, others⟩ := List.forall_mem_cons.1 short
    obtain ⟨⟨_, afterSign⟩, signTaken, behindSign⟩ := bind_eq_ok.1 taken
    obtain ⟨⟨reading', afterNumber⟩, numberTaken, behindNumber⟩ := bind_eq_ok.1 behindSign
    obtain ⟨⟨_, _⟩, number, recorded⟩ := bind_eq_ok.1 numberTaken
    obtain ⟨_, -, same⟩ := bind_eq_ok.1 recorded
    obtain ⟨rfl, rfl⟩ := Prod.mk.inj (pure_eq_ok.1 same)
    obtain ⟨rfl, -⟩ := exists_of_take_sign signTaken
    obtain ⟨digits, n, rfl, isNumber, -⟩ := Quantity.exists_short_of_take unsigned number
    obtain ⟨text, numbers, reading'', behind, rfl, spells, last⟩ := ih others behindNumber
    refine ⟨sign :: (digits ++ text), n :: numbers, reading'', behind, ?_, .cons isNumber spells, last⟩
    rw [List.cons_append, List.append_assoc]

/-! ## Finding signs -/

/-- A character that a row of numbers has between its signs. -/
def isFiller (c : Char) : Bool :=
  isBlank c || c.isDigit

/-- The separators that are looked for are no part of a number. -/
def AreMarks (required : List Char) : Prop :=
  ∀ c ∈ required, isFiller c = false

instance (required : List Char) : Decidable (AreMarks required) :=
  decidable_of_iff (required.all fun c => !isFiller c) (by simp [AreMarks])

theorem IsShort.isFiller (short : IsShort text n) : text.all isFiller = true := by
  obtain ⟨blanks, digits, rfl, allBlank, allDigits, -⟩ := short
  rw [List.all_append]
  simp_all [Calendar.isFiller]

/-- A search skips what is no separator. -/
theorem embeds_filler {required : List Char} (filler : text.all isFiller = true)
    (marks : AreMarks required) :
    DateFormat.embeds (text ++ rest) required = DateFormat.embeds rest required := by
  cases required with
  | nil => simp [DateFormat.embeds]
  | cons mark required =>
    have other : isFiller mark = false := marks mark List.mem_cons_self
    have skipped : (text ++ rest).dropWhile (· != mark) = rest.dropWhile (· != mark) := by
      refine List.dropWhile_append_of_pos fun c mem => bne_iff_ne.2 ?_
      rintro rfl
      exact absurd (List.all_eq_true.1 filler c mem) (by simp [other])
    rw [DateFormat.embeds, DateFormat.embeds, skipped]

/-- A search for the signs of a row and more goes on behind the row. -/
theorem SpellsNumbers.embeds {required : List Char} (spells : SpellsNumbers signs text numbers)
    (marks : AreMarks (signs ++ required)) :
    DateFormat.embeds (text ++ rest) (signs ++ required) = DateFormat.embeds rest required := by
  induction spells with
  | nil => rfl
  | @cons sign signs number text n numbers short later ih =>
    have later : AreMarks (signs ++ required) := fun c mem => marks c (List.mem_cons_of_mem _ mem)
    rw [List.cons_append, List.cons_append, DateFormat.embeds,
      List.dropWhile_cons_of_neg (by simp)]
    change DateFormat.embeds (number ++ text ++ rest) (signs ++ required) = _
    rw [List.append_assoc, embeds_filler short.isFiller later, ih later]

end ResourceQuery.Calendar
