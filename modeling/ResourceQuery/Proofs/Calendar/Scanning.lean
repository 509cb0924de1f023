import ResourceQuery.Proofs.Calendar.DigitRuns

/-!
# What items take off a text

What an item of a partial format takes off the front of a text, and the number that it finds there, do not
depend on what earlier items have said. `Item.Scans` describes that apart from any reading: matching a text
is scanning it and recording the numbers.

A point in a text is passed by a literal or by the decimal places of a second, and by nothing else. So a text
that has as many points as its format lets no decimal places match in vain.
-/

namespace ResourceQuery.Calendar
set_option autoImplicit false
open Fallible Text Numeral

/-! ## One item -/

namespace Item

/-- The item is literal text, a number or decimal places of the second. -/
def isSimple : Item → Bool
  | .blanks | .literal _ | .number _ | .fraction => true
  | .pointFraction places | .bareFraction places => 1 ≤ places && places ≤ 9
  | _ => false

/-- What the item asks for. -/
def asks? : Item → Option Quantity
  | .number q => some q
  | .fraction | .pointFraction _ | .bareFraction _ => some (.value .nanosecond)
  | _ => none

/-- How many points the item matches at most. -/
def points : Item → Nat
  | .literal text => text.count '.'
  | .fraction | .pointFraction _ => 1
  | _ => 0

/-- The item takes the front of a text, finds these numbers there, and leaves the rest. -/
inductive Scans : Item → List Char → List (Quantity × Int) → List Char → Prop
  | blanks {cs : List Char} : Scans .blanks cs [] (cs.dropWhile isBlank)
  | literal {text rest : List Char} : Scans (.literal text) (text ++ rest) [] rest
  | number {q : Quantity} {cs rest : List Char} {n : Int} (read : q.take cs = .ok (n, rest)) :
      Scans (.number q) cs [(q, n)] rest
  | fraction {cs rest : List Char} {n : Nat} (read : takeFraction cs = .ok (n, rest)) :
      Scans .fraction ('.' :: cs) [(.value .nanosecond, n)] rest
  | noFraction {cs : List Char} (other : ∀ c ∈ cs.head?, c ≠ '.') : Scans .fraction cs [] cs
  | pointFraction {places : Nat} {cs rest : List Char} {n : Nat} (fits : 1 ≤ places ∧ places ≤ 9)
      (read : takeFixedFraction places cs = .ok (n, rest)) :
      Scans (.pointFraction places) ('.' :: cs) [(.value .nanosecond, n)] rest
  | noPointFraction {places : Nat} {cs : List Char} (other : ∀ c ∈ cs.head?, c ≠ '.') :
      Scans (.pointFraction places) cs [] cs
  | bareFraction {places : Nat} {cs rest : List Char} {n : Nat} (fits : 1 ≤ places ∧ places ≤ 9)
      (read : takeFixedFraction places cs = .ok (n, rest)) :
      Scans (.bareFraction places) cs [(.value .nanosecond, n)] rest

end Item

/-- Gives fields what numbers say about them, one number after the other. -/
def Reading.recordEach (reading : Reading) (said : List (Quantity × Int)) : Except Fault Reading :=
  said.foldlM (fun reading (q, n) => reading.record q n) reading

theorem Reading.recordEach_append (reading : Reading) (said said' : List (Quantity × Int)) :
    reading.recordEach (said ++ said') = reading.recordEach said >>= (·.recordEach said') :=
  List.foldlM_append

variable {item : Item} {items : List Item} {cs rest more : List Char} {said : List (Quantity × Int)}
  {reading next : Reading}

theorem Reading.recordEach_nanosecond (reading : Reading) {n : Nat} (small : n ≤ 999999999) :
    reading.recordEach [(.value .nanosecond, n)] = reading.set .nanosecond n := by
  have range : ¬((n : Int) < (Quantity.value .nanosecond).range.1 ∨
      (Quantity.value .nanosecond).range.2 < (n : Int)) := by
    simp only [Quantity.range, Field.range]
    omega
  simp only [recordEach, List.foldlM_cons, List.foldlM_nil, record, if_neg range, Quantity.values]
  cases reading.set .nanosecond n <;> rfl

namespace Item

/-- Where no point and more text stand, no point stands. -/
theorem head?_ne_point (other : ∀ ds, cs = '.' :: ds → False) : ∀ c ∈ cs.head?, c ≠ '.' := by
  rintro c first rfl
  obtain ⟨ds, same⟩ := List.head?_eq_some_iff.1 first
  exact other ds same

/-- What an item scans it matches, if the numbers can be recorded. -/
theorem Scans.take_eq (scans : item.Scans cs said rest) (reading : Reading) :
    item.take reading cs = (reading.recordEach said).map (·, rest) := by
  cases scans with
  | blanks => rfl
  | @literal text =>
    have enough : ¬size (text ++ rest) < size text := by
      rw [size_append]
      omega
    have opens : text.isPrefixOf (text ++ rest) = true :=
      List.isPrefixOf_iff_prefix.2 (List.prefix_append text rest)
    rw [take, if_neg enough, if_pos opens, List.drop_left]
    rfl
  | @number q _ _ n read =>
    simp only [take, read, Reading.recordEach, List.foldlM_cons, List.foldlM_nil, bind, Except.bind]
    cases reading.record q n <;> rfl
  | @fraction _ _ n read =>
    rw [Reading.recordEach_nanosecond _ (exists_of_takeFraction read).1]
    simp only [take, read, bind, Except.bind]
    cases reading.set .nanosecond n <;> rfl
  | noFraction other | noPointFraction other =>
    simp only [take]
    split
    · exact absurd rfl (other _ rfl)
    · rfl
  | @pointFraction _ _ _ n fits read =>
    rw [Reading.recordEach_nanosecond _ (exists_of_takeFixedFraction fits read).1]
    simp only [take, read, bind, Except.bind]
    cases reading.set .nanosecond n <;> rfl
  | @bareFraction _ _ _ n fits read =>
    rw [Reading.recordEach_nanosecond _ (exists_of_takeFixedFraction fits read).1]
    simp only [take, read, bind, Except.bind]
    cases reading.set .nanosecond n <;> rfl

/-- Whatever a simple item matches it scans. -/
theorem exists_scans_of_take (simple : item.isSimple = true)
    (taken : item.take reading cs = .ok (next, rest)) : ∃ said, item.Scans cs said rest := by
  cases item <;> simp only [isSimple, Bool.false_eq_true, Bool.and_eq_true, decide_eq_true_eq] at simple
  case blanks =>
    obtain ⟨-, rfl⟩ := Prod.mk.inj (Except.ok.inj taken)
    exact ⟨_, .blanks⟩
  case literal text =>
    simp only [take] at taken
    split at taken
    · simp at taken
    split at taken
    · next opens =>
      obtain ⟨-, rfl⟩ := Prod.mk.inj (Except.ok.inj taken)
      obtain ⟨rest, rfl⟩ := List.isPrefixOf_iff_prefix.1 opens
      rw [List.drop_left]
      exact ⟨_, .literal⟩
    · simp at taken
  case number q =>
    obtain ⟨⟨n, _⟩, read, recorded⟩ := bind_eq_ok.1 taken
    obtain ⟨_, -, same⟩ := bind_eq_ok.1 recorded
    obtain ⟨-, rfl⟩ := Prod.mk.inj (pure_eq_ok.1 same)
    exact ⟨_, .number read⟩
  case fraction =>
    simp only [take] at taken
    split at taken
    · obtain ⟨⟨n, _⟩, read, recorded⟩ := bind_eq_ok.1 taken
      obtain ⟨_, -, same⟩ := bind_eq_ok.1 recorded
      obtain ⟨-, rfl⟩ := Prod.mk.inj (pure_eq_ok.1 same)
      exact ⟨_, .fraction read⟩
    · next other =>
      obtain ⟨-, rfl⟩ := Prod.mk.inj (Except.ok.inj taken)
      exact ⟨_, .noFraction (head?_ne_point other)⟩
  case pointFraction places =>
    simp only [take] at taken
    split at taken
    · obtain ⟨⟨n, _⟩, read, recorded⟩ := bind_eq_ok.1 taken
      obtain ⟨_, -, same⟩ := bind_eq_ok.1 recorded
      obtain ⟨-, rfl⟩ := Prod.mk.inj (pure_eq_ok.1 same)
      exact ⟨_, .pointFraction simple read⟩
    · next other =>
      obtain ⟨-, rfl⟩ := Prod.mk.inj (Except.ok.inj taken)
      exact ⟨_, .noPointFraction (head?_ne_point other)⟩
  case bareFraction places =>
    obtain ⟨⟨n, _⟩, read, recorded⟩ := bind_eq_ok.1 taken
    obtain ⟨_, -, same⟩ := bind_eq_ok.1 recorded
    obtain ⟨-, rfl⟩ := Prod.mk.inj (pure_eq_ok.1 same)
    exact ⟨_, .bareFraction simple read⟩

/-- More text changes nothing, if digits that an item finds at the end of a text do not run on. -/
theorem Scans.append (scans : item.Scans cs said rest)
    (behind : rest ≠ [] ∨ said ≠ [] ∧ EndsDigits more) : item.Scans (cs ++ more) said (rest ++ more) := by
  have digits : rest ≠ [] ∨ EndsDigits more := behind.imp_right And.right
  cases scans with
  | blanks =>
    have some : cs.dropWhile isBlank ≠ [] := behind.resolve_right fun found => found.1 rfl
    rw [← dropWhile_append_of_stops (.inl some)]
    exact .blanks
  | literal =>
    rw [List.append_assoc]
    exact .literal
  | number read => exact .number (Quantity.take_append read digits)
  | fraction read => exact .fraction (takeFraction_append read digits)
  | noFraction other =>
    have some : cs ≠ [] := behind.resolve_right fun found => found.1 rfl
    exact .noFraction (by rwa [List.head?_append_of_ne_nil _ some])
  | pointFraction fits read => exact .pointFraction fits (takeFixedFraction_append read)
  | noPointFraction other =>
    have some : cs ≠ [] := behind.resolve_right fun found => found.1 rfl
    exact .noPointFraction (by rwa [List.head?_append_of_ne_nil _ some])
  | bareFraction fits read => exact .bareFraction fits (takeFixedFraction_append read)

/-- An item takes something if it finds a number. It finds the number that it asks for, if as many points
are taken as it matches at most. -/
theorem Scans.exists_taken (scans : item.Scans cs said rest) :
    ∃ taken, cs = taken ++ rest ∧ (said ≠ [] → taken ≠ []) ∧
      (said.map Prod.fst = item.asks?.toList ∧ taken.count '.' = item.points ∨
        said = [] ∧ taken.count '.' < item.points) := by
  cases scans with
  | blanks =>
    have noPoint : '.' ∉ cs.takeWhile isBlank := fun mem =>
      absurd (List.all_eq_true.1 List.all_takeWhile '.' mem) (by decide)
    exact ⟨cs.takeWhile isBlank, List.takeWhile_append_dropWhile.symm, by simp,
      .inl ⟨rfl, List.count_eq_zero.2 noPoint⟩⟩
  | @literal text => exact ⟨text, rfl, by simp, .inl ⟨rfl, rfl⟩⟩
  | number read =>
    obtain ⟨taken, same, nonempty, noPoint⟩ := Quantity.exists_of_take read
    exact ⟨taken, same, fun _ => nonempty, .inl ⟨rfl, List.count_eq_zero.2 noPoint⟩⟩
  | fraction read =>
    obtain ⟨-, taken, rfl, -, noPoint⟩ := exists_of_takeFraction read
    refine ⟨'.' :: taken, rfl, by simp, .inl ⟨rfl, ?_⟩⟩
    rw [List.count_cons_self, List.count_eq_zero.2 noPoint]
    rfl
  | pointFraction fits read =>
    obtain ⟨-, taken, rfl, -, noPoint⟩ := exists_of_takeFixedFraction fits read
    refine ⟨'.' :: taken, rfl, by simp, .inl ⟨rfl, ?_⟩⟩
    rw [List.count_cons_self, List.count_eq_zero.2 noPoint]
    rfl
  | noFraction | noPointFraction => exact ⟨[], rfl, by simp, .inr ⟨rfl, Nat.zero_lt_one⟩⟩
  | bareFraction fits read =>
    obtain ⟨-, taken, rfl, nonempty, noPoint⟩ := exists_of_takeFixedFraction fits read
    exact ⟨taken, rfl, fun _ => nonempty, .inl ⟨rfl, List.count_eq_zero.2 noPoint⟩⟩

end Item

/-! ## Items in a row -/

/-- Each item takes the front of what the ones before it leave. -/
inductive ScansAll : List Item → List Char → List (Quantity × Int) → List Char → Prop
  | nil {cs : List Char} : ScansAll [] cs [] cs
  | cons {item : Item} {items : List Item} {cs behind rest : List Char} {said said' : List (Quantity × Int)}
      (first : item.Scans cs said behind) (others : ScansAll items behind said' rest) :
      ScansAll (item :: items) cs (said ++ said') rest

namespace ScansAll

theorem takeItems_eq (scans : ScansAll items cs said rest) (reading : Reading) :
    Reading.takeItems items reading cs = (reading.recordEach said).map (·, rest) := by
  induction scans generalizing reading with
  | nil => rfl
  | cons first _ ih =>
    rw [Reading.takeItems, first.take_eq, Reading.recordEach_append]
    cases reading.recordEach _ with
    | error _ => rfl
    | ok next => exact ih next

end ScansAll

theorem exists_scansAll (simple : ∀ item ∈ items, item.isSimple = true)
    (taken : Reading.takeItems items reading cs = .ok (next, rest)) :
    ∃ said, ScansAll items cs said rest ∧ reading.recordEach said = .ok next := by
  have scanned : ∃ said, ScansAll items cs said rest := by
    induction items generalizing reading cs with
    | nil =>
      obtain ⟨-, rfl⟩ := Prod.mk.inj (Except.ok.inj taken)
      exact ⟨[], .nil⟩
    | cons item items ih =>
      obtain ⟨here, others⟩ := List.forall_mem_cons.1 simple
      obtain ⟨⟨_, behind⟩, first, later⟩ := bind_eq_ok.1 taken
      obtain ⟨said, scans⟩ := Item.exists_scans_of_take here first
      obtain ⟨said', scansAll⟩ := ih others later
      exact ⟨said ++ said', .cons scans scansAll⟩
  obtain ⟨said, scans⟩ := scanned
  refine ⟨said, scans, ?_⟩
  rw [scans.takeItems_eq] at taken
  obtain ⟨recorded, same, pair⟩ := map_eq_ok.1 taken
  exact (Prod.mk.inj pair).1 ▸ same

namespace ScansAll

variable {items' : List Item} {said' : List (Quantity × Int)} {behind : List Char}

theorem join (scans : ScansAll items cs said behind) (scans' : ScansAll items' behind said' rest) :
    ScansAll (items ++ items') cs (said ++ said') rest := by
  induction scans with
  | nil => exact scans'
  | cons first _ ih =>
    rw [List.append_assoc]
    exact .cons first (ih scans')

theorem exists_parts (scans : ScansAll (items ++ items') cs said rest) :
    ∃ said₁ behind said₂, said = said₁ ++ said₂ ∧ ScansAll items cs said₁ behind ∧
      ScansAll items' behind said₂ rest := by
  induction items generalizing cs said with
  | nil => exact ⟨[], cs, said, rfl, .nil, scans⟩
  | cons item items ih =>
    cases scans with
    | cons first others =>
      obtain ⟨said₁, behind, said₂, rfl, front, back⟩ := ih others
      exact ⟨_, behind, said₂, (List.append_assoc ..).symm, .cons first front, back⟩

theorem suffix (scans : ScansAll items cs said rest) : rest <:+ cs := by
  induction scans with
  | nil => exact List.suffix_rfl
  | cons first _ ih =>
    obtain ⟨taken, rfl, -⟩ := first.exists_taken
    exact ih.trans (List.suffix_append _ _)

/-- More text behind a rest changes nothing. -/
theorem append (scans : ScansAll items cs said rest) (some : rest ≠ []) :
    ScansAll items (cs ++ more) said (rest ++ more) := by
  induction scans with
  | nil => exact .nil
  | @cons _ _ _ behind _ _ _ first others ih =>
    -- What the first item leaves ends with what the last one leaves.
    have some' : behind ≠ [] := by
      rintro rfl
      exact some (List.suffix_nil.1 others.suffix)
    exact .cons (first.append (.inl some')) (ih some)

/-- As many points are taken as the items match, or some item that could match one does not. -/
theorem count_point (scans : ScansAll items cs said rest) :
    said.map Prod.fst = items.filterMap Item.asks? ∧
        cs.count '.' = (items.map Item.points).sum + rest.count '.' ∨
      cs.count '.' < (items.map Item.points).sum + rest.count '.' := by
  induction scans with
  | nil => exact .inl ⟨rfl, by simp⟩
  | @cons item items _ _ _ said said' first _ ih =>
    obtain ⟨taken, rfl, -, here⟩ := first.exists_taken
    have asks : (item :: items).filterMap Item.asks? = item.asks?.toList ++ items.filterMap Item.asks? := by
      cases asked : item.asks? <;> simp [asked]
    rw [List.count_append, List.map_cons, List.sum_cons, List.map_append, asks]
    rcases here with ⟨asked, points⟩ | ⟨-, few⟩
    · rcases ih with ⟨asked', points'⟩ | few
      · exact .inl ⟨by rw [asked, asked'], by omega⟩
      · exact .inr (by omega)
    · exact .inr (by omega)

/-- Items that take all points they match find a number for everything that they ask for. -/
theorem map_fst_eq (scans : ScansAll items cs said rest)
    (points : (items.map Item.points).sum + rest.count '.' ≤ cs.count '.') :
    said.map Prod.fst = items.filterMap Item.asks? := by
  rcases scans.count_point with ⟨asked, -⟩ | few
  · exact asked
  · omega

end ScansAll

end ResourceQuery.Calendar
