import ResourceQuery.Proofs.Calendar.Scanning

/-!
# What a reading holds

A reading in which numbers have been recorded has the values that the numbers stand for and no other ones.
All of them lie in the ranges of their fields. Numbers in their ranges are recorded unless one contradicts
another one.
-/

namespace ResourceQuery.Calendar
set_option autoImplicit false
open Fallible

variable {reading next : Reading} {said said' : List (Quantity × Int)} {q : Quantity} {n m : Int}
  {f g : Field} {fault : Fault}

/-- What a number in its range says about a field lies in the range of the field. -/
theorem Quantity.range_of_mem_values (inside : q.range.1 ≤ n ∧ n ≤ q.range.2) (mem : (f, m) ∈ q.values n) :
    f.range.1 ≤ m ∧ m ≤ f.range.2 := by
  cases q <;> simp only [values, range, List.mem_cons, List.not_mem_nil, or_false, Prod.mk.injEq] at mem inside
  case value =>
    obtain ⟨rfl, rfl⟩ := mem
    exact inside
  case hour =>
    rcases mem with ⟨rfl, rfl⟩ | ⟨rfl, rfl⟩ <;> simp only [Field.range] <;> omega
  all_goals
    obtain ⟨rfl, rfl⟩ := mem
    simp only [Field.range]
    omega

namespace Reading

/-! ## Values -/

/-- A field that is given a value has it, and every field keeps the value it has. -/
theorem value_of_set (given : reading.set f n = .ok next) :
    next.value g = some m ↔ reading.value g = some m ∨ g = f ∧ m = n := by
  unfold set at given
  split at given
  · next unset =>
    obtain rfl := Except.ok.inj given
    by_cases same : g = f
    · simp [same, unset, eq_comm]
    · simp [same]
  · next before =>
    split at given
    · next agrees =>
      obtain rfl := Except.ok.inj given
      refine ⟨.inl, ?_⟩
      rintro (kept | ⟨rfl, rfl⟩)
      · exact kept
      · rw [before, agrees]
    · simp at given

theorem value_of_setAll {values : List (Field × Int)}
    (given : values.foldlM (fun reading (f, m) => reading.set f m) reading = .ok next) :
    next.value g = some m ↔ reading.value g = some m ∨ (g, m) ∈ values := by
  induction values generalizing reading with
  | nil =>
    obtain rfl := pure_eq_ok.1 given
    simp
  | cons value values ih =>
    rw [List.foldlM_cons, bind_eq_ok] at given
    obtain ⟨between, first, others⟩ := given
    rw [ih others, value_of_set first, List.mem_cons, or_assoc, Prod.ext_iff]

/-- The reading has exactly the values that these numbers stand for, and the numbers lie in their ranges. -/
structure Holds (reading : Reading) (said : List (Quantity × Int)) : Prop where
  range : ∀ q n, (q, n) ∈ said → q.range.1 ≤ n ∧ n ≤ q.range.2
  value : ∀ f m, reading.value f = some m ↔ ∃ q n, (q, n) ∈ said ∧ (f, m) ∈ q.values n

theorem holds_empty : empty.Holds [] :=
  ⟨by simp, by simp [empty]⟩

/-- One more number is recorded. -/
theorem Holds.record (holds : reading.Holds said) (recorded : reading.record q n = .ok next) :
    next.Holds (said ++ [(q, n)]) := by
  obtain ⟨inside, given⟩ := record_eq_ok.1 recorded
  constructor
  · intro q' n' mem
    rcases List.mem_append.1 mem with mem | mem
    · exact holds.range q' n' mem
    · obtain ⟨rfl, rfl⟩ := Prod.mk.inj (List.mem_singleton.1 mem)
      exact inside
  · intro f m
    rw [value_of_setAll given, holds.value]
    simp [or_and_right, exists_or]

theorem Holds.recordEach (holds : reading.Holds said) (recorded : reading.recordEach said' = .ok next) :
    next.Holds (said ++ said') := by
  induction said' generalizing reading said with
  | nil =>
    obtain rfl := pure_eq_ok.1 recorded
    rwa [List.append_nil]
  | cons number said' ih =>
    rw [Reading.recordEach, List.foldlM_cons, bind_eq_ok] at recorded
    obtain ⟨between, first, others⟩ := recorded
    have joined := ih (holds.record first) others
    rwa [List.append_assoc] at joined

/-- The values of all fields lie in their ranges. -/
def IsInRange (reading : Reading) : Prop :=
  ∀ f n, reading.value f = some n → f.range.1 ≤ n ∧ n ≤ f.range.2

theorem Holds.isInRange (holds : reading.Holds said) : reading.IsInRange := by
  intro f m value
  obtain ⟨q, n, mem, stands⟩ := (holds.value f m).1 value
  exact Quantity.range_of_mem_values (holds.range q n mem) stands

/-! ## Contradictions -/

theorem error_of_setAll {values : List (Field × Int)}
    (failed : values.foldlM (fun reading (f, m) => reading.set f m) reading = .error fault) :
    fault = .impossible := by
  induction values generalizing reading with
  | nil => simp at failed
  | cons value values ih =>
    rw [List.foldlM_cons, bind_eq_error] at failed
    rcases failed with first | ⟨between, -, others⟩
    · simp only [set] at first
      split at first
      · simp at first
      · split at first
        · simp at first
        · exact (Except.error.inj first).symm
    · exact ih others

/-- Numbers in their ranges are recorded, or one contradicts another one. -/
theorem error_of_recordEach (range : ∀ q n, (q, n) ∈ said → q.range.1 ≤ n ∧ n ≤ q.range.2)
    (failed : reading.recordEach said = .error fault) : fault = .impossible := by
  induction said generalizing reading with
  | nil => simp [recordEach] at failed
  | cons number said ih =>
    obtain ⟨q, n⟩ := number
    rw [recordEach, List.foldlM_cons, bind_eq_error] at failed
    rcases failed with first | ⟨between, -, others⟩
    · have inside := range q n List.mem_cons_self
      simp only [record, if_neg (show ¬(n < q.range.1 ∨ q.range.2 < n) by omega)] at first
      exact error_of_setAll first
    · exact ih (fun q n mem => range q n (List.mem_cons_of_mem _ mem)) others

/-- A number in its range is recorded when nothing else is. -/
theorem exists_record_empty (inside : q.range.1 ≤ n ∧ n ≤ q.range.2) :
    ∃ next, empty.recordEach [(q, n)] = .ok next := by
  have recorded : ∃ next, empty.record q n = .ok next := by
    simp only [record_eq_ok, and_iff_right inside]
    cases q <;> exact ⟨_, rfl⟩
  obtain ⟨next, recorded⟩ := recorded
  exact ⟨next, by simp only [recordEach, List.foldlM_cons, recorded]; rfl⟩

end Reading
end ResourceQuery.Calendar
