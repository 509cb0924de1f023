import ResourceQuery.Proofs.Calendar.Numbers

/-!
# Digits with text behind them

A number in a date is the longest run of digits that it may have. More text behind it changes nothing, if
its digits do not run on, and what is taken for a number or for decimal places holds no point.
-/

namespace ResourceQuery.Calendar
set_option autoImplicit false
open Fallible Text Numeral

variable {cs rest more : List Char} {n width : Nat}

/-! ## Runs -/

/-- The texts together open with no digit. -/
theorem endsDigits_append (ends : EndsDigits rest) (behind : rest ≠ [] ∨ EndsDigits more) :
    EndsDigits (rest ++ more) := by
  cases rest with
  | nil => exact behind.resolve_left (· rfl)
  | cons c rest => exact endsDigits_cons (ends c rfl)

/-- A run of characters ends in the same place when other text follows. -/
theorem dropWhile_append_of_stops {accepts : Char → Bool}
    (stops : cs.dropWhile accepts ≠ [] ∨ ∀ c ∈ more.head?, accepts c = false) :
    (cs ++ more).dropWhile accepts = cs.dropWhile accepts ++ more := by
  rw [List.dropWhile_append]
  split
  · next empty =>
    have nothing : cs.dropWhile accepts = [] := List.isEmpty_iff.1 empty
    have others := stops.resolve_left (· nothing)
    rw [nothing, List.nil_append]
    cases more with
    | nil => rfl
    | cons c more => rw [List.dropWhile_cons_of_neg (by simp [others c rfl])]
  · rfl

theorem takeWhile_append_of_stops {accepts : Char → Bool}
    (stops : ∀ c ∈ more.head?, accepts c = false) :
    (cs ++ more).takeWhile accepts = cs.takeWhile accepts := by
  induction cs with
  | nil => cases more <;> simp_all
  | cons c cs ih => rw [List.cons_append, List.takeWhile_cons, List.takeWhile_cons, ih]

/-! ## Numbers -/

/-- More text behind a number changes nothing, if its digits do not run on. A limit that is as wide as the
text is none. -/
theorem takeNumber_append {width' : Nat} (taken : takeNumber width cs = .ok (n, rest))
    (behind : rest ≠ [] ∨ EndsDigits more)
    (limit : width' = width ∨ cs.length ≤ width ∧ width ≤ width') :
    takeNumber width' (cs ++ more) = .ok (n, rest ++ more) := by
  obtain ⟨digits, rfl, nonempty, all, within, stops, value, bounded⟩ := takeNumber_eq_ok.1 taken
  refine takeNumber_eq_ok.2
    ⟨digits, List.append_assoc .., nonempty, all, by omega, ?_, value, bounded⟩
  rcases stops with full | ends
  · rcases limit with rfl | ⟨whole, wider⟩
    · exact .inl full
    · obtain rfl : rest = [] := by
        rw [List.length_append] at whole
        exact List.length_eq_zero_iff.1 (by omega)
      exact .inr (behind.resolve_left (· rfl))
  · exact .inr (endsDigits_append ends behind)

/-- No character takes less than one byte. -/
theorem length_le_size (cs : List Char) : cs.length ≤ size cs := by
  induction cs with
  | nil => exact Nat.le_refl _
  | cons c cs ih =>
    have positive := Char.utf8Size_pos c
    rw [List.length_cons, size]
    omega

/-- So many digits are read whatever follows them. -/
theorem takeDigits_eq_ok : takeDigits width cs = .ok (n, rest) ↔
    ∃ digits, cs = digits ++ rest ∧ digits.all Char.isDigit = true ∧ digits.length = width ∧
      digitsValue digits = n := by
  constructor
  · intro taken
    simp only [takeDigits] at taken
    split at taken
    · simp at taken
    split at taken
    · next enough =>
      obtain ⟨value, left⟩ := Prod.mk.inj (Except.ok.inj taken)
      exact ⟨cs.take width, by rw [← left, List.take_append_drop], enough.2, enough.1, value⟩
    · simp at taken
  · rintro ⟨digits, rfl, all, rfl, rfl⟩
    have enough : ¬size (digits ++ rest) < digits.length := by
      rw [size_append]
      have atLeast := length_le_size digits
      omega
    rw [takeDigits, if_neg enough, List.take_left, List.drop_left]
    exact if_pos ⟨rfl, all⟩

theorem takeDigits_append (taken : takeDigits width cs = .ok (n, rest)) :
    takeDigits width (cs ++ more) = .ok (n, rest ++ more) := by
  obtain ⟨digits, rfl, all, count, value⟩ := takeDigits_eq_ok.1 taken
  exact takeDigits_eq_ok.2 ⟨digits, List.append_assoc .., all, count, value⟩

theorem takeFixedFraction_append {places : Nat} (taken : takeFixedFraction places cs = .ok (n, rest)) :
    takeFixedFraction places (cs ++ more) = .ok (n, rest ++ more) := by
  obtain ⟨⟨m, behind⟩, digits, same⟩ := bind_eq_ok.1 taken
  obtain ⟨rfl, rfl⟩ := Prod.mk.inj (pure_eq_ok.1 same)
  exact bind_eq_ok.2 ⟨_, takeDigits_append digits, rfl⟩

/-- So many decimal places are as many characters. -/
theorem length_of_takeFixedFraction {places : Nat} (taken : takeFixedFraction places cs = .ok (n, rest)) :
    cs.length = places + rest.length := by
  obtain ⟨⟨m, behind⟩, read, same⟩ := bind_eq_ok.1 taken
  obtain ⟨rfl, rfl⟩ := Prod.mk.inj (pure_eq_ok.1 same)
  obtain ⟨digits, rfl, -, count, -⟩ := takeDigits_eq_ok.1 read
  rw [List.length_append, count]

theorem takeFraction_append (taken : takeFraction cs = .ok (n, rest))
    (behind : rest ≠ [] ∨ EndsDigits more) : takeFraction (cs ++ more) = .ok (n, rest ++ more) := by
  obtain ⟨⟨m, afterNine⟩, nine, same⟩ := bind_eq_ok.1 taken
  obtain ⟨rfl, rfl⟩ := Prod.mk.inj (pure_eq_ok.1 same)
  have behindNine : afterNine ≠ [] ∨ EndsDigits more := by
    refine behind.imp_left ?_
    rintro some rfl
    exact some rfl
  refine bind_eq_ok.2 ⟨_, takeNumber_append nine behindNine (.inl rfl), ?_⟩
  rw [pure_eq_ok, dropWhile_append_of_stops behind, List.length_append, List.length_append,
    Nat.add_sub_add_right]

/-- More text behind a quantity changes nothing, if its digits do not run on. -/
theorem Quantity.take_append {q : Quantity} {n : Int} (taken : q.take cs = .ok (n, rest))
    (behind : rest ≠ [] ∨ EndsDigits more) : q.take (cs ++ more) = .ok (n, rest ++ more) := by
  have nonblank : cs.dropWhile isBlank ≠ [] := by
    intro nothing
    simp [take, nothing, takeNumber, bind, Except.bind] at taken
  have start : (cs ++ more).dropWhile isBlank = cs.dropWhile isBlank ++ more :=
    dropWhile_append_of_stops (.inl nonblank)
  simp only [take, start] at taken ⊢
  generalize cs.dropWhile isBlank = front at taken nonblank
  obtain ⟨c, ds, rfl⟩ := List.exists_cons_of_ne_nil nonblank
  split at taken
  · next signed same =>
    obtain ⟨rfl, rfl⟩ := List.cons.inj same
    obtain ⟨⟨m, _⟩, read, last⟩ := bind_eq_ok.1 taken
    obtain ⟨rfl, rfl⟩ := Prod.mk.inj (pure_eq_ok.1 last)
    simp only [signed, List.cons_append]
    exact bind_eq_ok.2 ⟨_, takeNumber_append read behind (.inr ⟨le_rfl, by simp⟩), rfl⟩
  · next signed same =>
    obtain ⟨rfl, rfl⟩ := List.cons.inj same
    obtain ⟨⟨m, _⟩, read, last⟩ := bind_eq_ok.1 taken
    obtain ⟨rfl, rfl⟩ := Prod.mk.inj (pure_eq_ok.1 last)
    simp only [signed, List.cons_append]
    exact bind_eq_ok.2 ⟨_, takeNumber_append read behind (.inr ⟨le_rfl, by simp⟩), rfl⟩
  · next notMinus notPlus =>
    obtain ⟨⟨m, _⟩, read, last⟩ := bind_eq_ok.1 taken
    obtain ⟨rfl, rfl⟩ := Prod.mk.inj (pure_eq_ok.1 last)
    have limit : q.width?.getD (c :: ds ++ more).length = q.width?.getD (c :: ds).length ∨
        (c :: ds).length ≤ q.width?.getD (c :: ds).length ∧
          q.width?.getD (c :: ds).length ≤ q.width?.getD (c :: ds ++ more).length := by
      cases q.width? with
      | none => exact .inr ⟨le_rfl, by simp⟩
      | some width => exact .inl rfl
    have longer := takeNumber_append read behind limit
    split
    · next signed same => exact absurd (by rw [(List.cons.inj same).1]) (notMinus ds signed)
    · next signed same => exact absurd (by rw [(List.cons.inj same).1]) (notPlus ds signed)
    · exact bind_eq_ok.2 ⟨_, longer, rfl⟩

/-! ### What is taken -/

theorem point_not_mem_of_isDigit {digits : List Char} (all : digits.all Char.isDigit = true) :
    '.' ∉ digits :=
  fun mem => absurd (List.all_eq_true.1 all '.' mem) (by decide)

/-- So many digits with zeros for the missing ones are less than a second. -/
theorem places_le {digits : List Char} {places : Nat} (all : digits.all Char.isDigit = true)
    (count : digits.length = places) (few : places ≤ 9) :
    digitsValue digits * Nat.pow 10 (9 - places) ≤ 999999999 := by
  have value := digitsValue_lt all
  rw [count] at value
  have second : 10 ^ places * 10 ^ (9 - places) = 1000000000 := by
    rw [← Nat.pow_add, Nat.add_sub_of_le few]
  have below : digitsValue digits * 10 ^ (9 - places) < 10 ^ places * 10 ^ (9 - places) :=
    Nat.mul_lt_mul_of_pos_right value (Nat.pow_pos (by decide))
  rw [second] at below
  exact Nat.le_of_lt_succ below

/-- Decimal places are read from digits. -/
theorem exists_of_takeFraction (taken : takeFraction cs = .ok (n, rest)) :
    n ≤ 999999999 ∧ ∃ digits, cs = digits ++ rest ∧ digits ≠ [] ∧ '.' ∉ digits := by
  obtain ⟨⟨m, afterNine⟩, nine, same⟩ := bind_eq_ok.1 taken
  obtain ⟨rfl, rfl⟩ := Prod.mk.inj (pure_eq_ok.1 same)
  obtain ⟨digits, rfl, nonempty, all, within, -, rfl, -⟩ := takeNumber_eq_ok.1 nine
  refine ⟨?_, digits ++ afterNine.takeWhile Char.isDigit, ?_, by simp [nonempty], ?_⟩
  · rw [List.length_append, Nat.add_sub_cancel]
    exact places_le all rfl within
  · rw [List.append_assoc, List.takeWhile_append_dropWhile]
  · rw [List.mem_append, not_or]
    exact ⟨point_not_mem_of_isDigit all, point_not_mem_of_isDigit List.all_takeWhile⟩

theorem exists_of_takeFixedFraction {places : Nat} (fits : 1 ≤ places ∧ places ≤ 9)
    (taken : takeFixedFraction places cs = .ok (n, rest)) :
    n ≤ 999999999 ∧ ∃ digits, cs = digits ++ rest ∧ digits ≠ [] ∧ '.' ∉ digits := by
  obtain ⟨⟨m, behind⟩, read, same⟩ := bind_eq_ok.1 taken
  obtain ⟨rfl, rfl⟩ := Prod.mk.inj (pure_eq_ok.1 same)
  obtain ⟨digits, rfl, all, count, rfl⟩ := takeDigits_eq_ok.1 read
  refine ⟨places_le all count fits.2, digits, rfl, ?_, point_not_mem_of_isDigit all⟩
  rintro rfl
  simp at count
  omega

/-- A quantity is read from blanks, a sign and digits. -/
theorem Quantity.exists_of_take {q : Quantity} {n : Int} (taken : q.take cs = .ok (n, rest)) :
    ∃ front, cs = front ++ rest ∧ front ≠ [] ∧ '.' ∉ front := by
  have split := List.takeWhile_append_dropWhile (p := isBlank) (l := cs)
  have blanks : '.' ∉ cs.takeWhile isBlank := fun mem =>
    absurd (List.all_eq_true.1 List.all_takeWhile '.' mem) (by decide)
  simp only [take] at taken
  generalize cs.takeWhile isBlank = ahead at split blanks
  generalize cs.dropWhile isBlank = behind at split taken
  subst split
  -- A sign, if there is one, and the digits behind it.
  have read : ∃ sign digits width m, behind = sign ++ digits ∧ '.' ∉ sign ∧
      takeNumber width digits = .ok (m, rest) := by
    split at taken
    · obtain ⟨⟨m, _⟩, read, last⟩ := bind_eq_ok.1 taken
      obtain ⟨-, rfl⟩ := Prod.mk.inj (pure_eq_ok.1 last)
      exact ⟨['-'], _, _, m, rfl, by decide, read⟩
    · obtain ⟨⟨m, _⟩, read, last⟩ := bind_eq_ok.1 taken
      obtain ⟨-, rfl⟩ := Prod.mk.inj (pure_eq_ok.1 last)
      exact ⟨['+'], _, _, m, rfl, by decide, read⟩
    · obtain ⟨⟨m, _⟩, read, last⟩ := bind_eq_ok.1 taken
      obtain ⟨-, rfl⟩ := Prod.mk.inj (pure_eq_ok.1 last)
      exact ⟨[], _, _, m, rfl, List.not_mem_nil, read⟩
  obtain ⟨sign, _, width, m, rfl, noPoint, read⟩ := read
  obtain ⟨digits, rfl, nonempty, all, -⟩ := takeNumber_eq_ok.1 read
  refine ⟨ahead ++ (sign ++ digits), by simp, by simp [nonempty], ?_⟩
  simp [blanks, noPoint, point_not_mem_of_isDigit all]

end ResourceQuery.Calendar
