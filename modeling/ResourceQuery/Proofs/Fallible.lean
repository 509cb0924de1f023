import Mathlib.Data.List.Forall2

/-!
# Steps that can fail

Resolution and compilation run steps in a row and stop at the first one that fails. The lemmas here
say once when such a row succeeds and where its failure comes from; proofs about the stages cite
them and never open the sequencing itself.
-/

namespace ResourceQuery.Fallible
set_option autoImplicit false

variable {ε α β σ : Type}

/-- Two steps in a row succeed when both do. -/
theorem bind_eq_ok {step : Except ε α} {next : α → Except ε β} {result : β} :
    (step >>= next) = .ok result ↔ ∃ value, step = .ok value ∧ next value = .ok result := by
  cases step <;> simp [bind, Except.bind]

/-- Two steps in a row fail in the first one, or in the second one after the first. -/
theorem bind_eq_error {step : Except ε α} {next : α → Except ε β} {fault : ε} :
    (step >>= next) = .error fault ↔
      step = .error fault ∨ ∃ value, step = .ok value ∧ next value = .error fault := by
  cases step <;> simp [bind, Except.bind]

/-- The result of a step can be turned into another one when there is a result. -/
@[simp] theorem map_eq_ok {step : Except ε α} {change : α → β} {result : β} :
    change <$> step = .ok result ↔ ∃ value, step = .ok value ∧ change value = result := by
  cases step <;> simp [Functor.map, Except.map]

/-- Turning a result into another one fails only where there is none. -/
@[simp] theorem map_eq_error {step : Except ε α} {change : α → β} {fault : ε} :
    change <$> step = .error fault ↔ step = .error fault := by
  cases step <;> simp [Functor.map, Except.map]

@[simp] theorem pure_eq_ok {value result : α} :
    (pure value : Except ε α) = .ok result ↔ value = result := by
  simp [pure, Except.pure]

@[simp] theorem pure_ne_error {value : α} {fault : ε} :
    (pure value : Except ε α) ≠ .error fault := by
  simp [pure, Except.pure]

@[simp] theorem throw_ne_ok {fault : ε} {result : α} :
    (throw fault : Except ε α) ≠ .ok result := by
  simp [throw, throwThe, MonadExceptOf.throw]

@[simp] theorem throw_eq_error {fault fault' : ε} :
    (throw fault : Except ε α) = .error fault' ↔ fault = fault' := by
  simp [throw, throwThe, MonadExceptOf.throw]

/-- A step whose result is only turned into another one fails where the step does. -/
theorem bind_pure_eq_error {step : Except ε α} {change : α → β} {fault : ε} :
    (step >>= fun value => pure (change value)) = .error fault ↔ step = .error fault := by
  simp

/-- Steps behind a guard succeed when the guard lets them pass and they succeed. -/
theorem guard_eq_ok {refused : Prop} [Decidable refused] {fault : ε}
    {next : PUnit → Except ε α} {result : α} :
    (if refused then throw fault >>= next else next ⟨⟩) = .ok result ↔
      ¬refused ∧ next ⟨⟩ = .ok result := by
  by_cases h : refused <;> simp [h, bind_eq_ok]

/-- Steps behind a guard fail with the guard's fault, or in themselves. -/
theorem guard_eq_error {refused : Prop} [Decidable refused] {fault fault' : ε}
    {next : PUnit → Except ε α} :
    (if refused then throw fault >>= next else next ⟨⟩) = .error fault' ↔
      refused ∧ fault = fault' ∨ ¬refused ∧ next ⟨⟩ = .error fault' := by
  by_cases h : refused
  · simp [h, throw, throwThe, MonadExceptOf.throw, bind, Except.bind]
  · simp [h]

/-! ## Lists -/

/-- A step taken for every element succeeds when it does for each. -/
theorem mapM_eq_ok {step : α → Except ε β} {inputs : List α} {results : List β} :
    inputs.mapM step = .ok results ↔
      List.Forall₂ (fun input result => step input = .ok result) inputs results := by
  induction inputs generalizing results with
  | nil =>
    cases results <;> simp [List.mapM_nil]
  | cons input inputs ih =>
    simp only [List.mapM_cons, bind_eq_ok, pure_eq_ok, ih]
    constructor
    · rintro ⟨first, head, others, tail, rfl⟩
      exact .cons head tail
    · rintro (_ | ⟨head, tail⟩)
      exact ⟨_, head, _, tail, rfl⟩

/-- Every result of such steps comes from one of the elements. -/
theorem exists_of_mapM_eq_ok {step : α → Except ε β} {inputs : List α} {results : List β}
    (run : inputs.mapM step = .ok results) {result : β} (mem : result ∈ results) :
    ∃ input ∈ inputs, step input = .ok result := by
  induction mapM_eq_ok.1 run with
  | nil => simp at mem
  | @cons input first inputs others head tail ih =>
    rcases List.mem_cons.1 mem with rfl | mem
    · exact ⟨input, List.mem_cons_self, head⟩
    · obtain ⟨other, otherMem, same⟩ := ih (mapM_eq_ok.2 tail) mem
      exact ⟨other, List.mem_cons_of_mem _ otherMem, same⟩

theorem length_of_mapM_eq_ok {step : α → Except ε β} {inputs : List α} {results : List β}
    (run : inputs.mapM step = .ok results) : results.length = inputs.length :=
  (mapM_eq_ok.1 run).length_eq.symm

/-- Such steps succeed together when each of them does. -/
theorem exists_mapM_eq_ok {step : α → Except ε β} {inputs : List α} :
    (∃ results, inputs.mapM step = .ok results) ↔
      ∀ input ∈ inputs, ∃ result, step input = .ok result := by
  induction inputs with
  | nil => simp [List.mapM_nil]
  | cons input inputs ih =>
    simp only [List.mapM_cons, bind_eq_ok, pure_eq_ok, List.forall_mem_cons, ← ih]
    constructor
    · rintro ⟨_, first, head, others, tail, rfl⟩
      exact ⟨⟨first, head⟩, others, tail⟩
    · rintro ⟨⟨first, head⟩, others, tail⟩
      exact ⟨_, first, head, others, tail, rfl⟩

/-- The fault of a step that fails. -/
def fault? : Except ε α → Option ε
  | .error fault => some fault
  | .ok _ => none

@[simp] theorem fault?_eq_some {step : Except ε α} {fault : ε} :
    fault? step = some fault ↔ step = .error fault := by
  cases step <;> simp [fault?]

theorem fault?_eq_none {step : Except ε α} :
    fault? step = none ↔ ∃ result, step = .ok result := by
  cases step <;> simp [fault?]

/-- A step taken for every element fails with the first fault there is. -/
theorem mapM_eq_error {step : α → Except ε β} {inputs : List α} {fault : ε} :
    inputs.mapM step = .error fault ↔
      inputs.findSome? (fun input => fault? (step input)) = some fault := by
  induction inputs with
  | nil => simp [List.mapM_nil]
  | cons input inputs ih =>
    simp only [List.mapM_cons, List.findSome?_cons, bind_eq_error, ih]
    cases step input <;> simp [fault?]

/-- A step taken for every element fails only where it fails for one of them. -/
theorem mem_of_mapM_eq_error {step : α → Except ε β} {inputs : List α} {fault : ε}
    (failed : inputs.mapM step = .error fault) : ∃ input ∈ inputs, step input = .error fault := by
  simpa using List.exists_of_findSome?_eq_some (mapM_eq_error.1 failed)

/-- What every successful step of a loop keeps holds at its end. -/
theorem invariant_of_foldlM {step : σ → α → Except ε σ} {inputs : List α} (Inv : σ → Prop)
    {first last : σ} (start : Inv first)
    (kept : ∀ state next, ∀ input ∈ inputs, Inv state → step state input = .ok next → Inv next)
    (run : inputs.foldlM step first = .ok last) : Inv last := by
  induction inputs generalizing first with
  | nil =>
    simp only [List.foldlM_nil, pure_eq_ok] at run
    exact run ▸ start
  | cons input inputs ih =>
    simp only [List.foldlM_cons, bind_eq_ok] at run
    obtain ⟨next, head, tail⟩ := run
    exact ih (kept first next input List.mem_cons_self start head)
      (fun state next input mem => kept state next input (List.mem_cons_of_mem _ mem)) tail

/-- A loop fails where one step does, taken from the state that the steps before it led to. -/
theorem foldlM_eq_error {step : σ → α → Except ε σ} {inputs : List α} {first : σ} {fault : ε} :
    inputs.foldlM step first = .error fault ↔
      ∃ seen input others state, inputs = seen ++ input :: others ∧
        seen.foldlM step first = .ok state ∧ step state input = .error fault := by
  constructor
  · intro failed
    induction inputs generalizing first with
    | nil => simp at failed
    | cons input inputs ih =>
      simp only [List.foldlM_cons, bind_eq_error] at failed
      rcases failed with head | ⟨next, head, tail⟩
      · exact ⟨[], input, inputs, first, rfl, rfl, head⟩
      · obtain ⟨seen, other, others, state, rfl, run, failed⟩ := ih tail
        exact ⟨input :: seen, other, others, state, rfl, bind_eq_ok.2 ⟨next, head, run⟩, failed⟩
  · rintro ⟨seen, input, others, state, rfl, run, failed⟩
    simp only [List.foldlM_append, List.foldlM_cons, bind_eq_error]
    exact .inr ⟨state, run, .inl failed⟩

/-- A loop that fails does so in a step taken from a state that keeps the invariant. -/
theorem exists_of_foldlM_eq_error {step : σ → α → Except ε σ} {inputs : List α} (Inv : σ → Prop)
    {first : σ} {fault : ε} (start : Inv first)
    (kept : ∀ state next, ∀ input ∈ inputs, Inv state → step state input = .ok next → Inv next)
    (failed : inputs.foldlM step first = .error fault) :
    ∃ state, Inv state ∧ ∃ input ∈ inputs, step state input = .error fault := by
  obtain ⟨seen, input, others, state, rfl, run, failed⟩ := foldlM_eq_error.1 failed
  have inv := invariant_of_foldlM Inv start
    (fun state next other mem => kept state next other (List.mem_append_left _ mem)) run
  exact ⟨state, inv, input, by simp, failed⟩

/-- A loop over elements that are in each other's way only in pairs: it succeeds when each element is
sound and no earlier one is in its way, and it ends where all of them together lead. -/
theorem foldlM_eq_ok_iff {step : σ → α → Except ε σ} (state : List α → σ) {Sound : α → Prop}
    {Apart : α → α → Prop}
    (step_eq_ok : ∀ seen input next, (∀ other ∈ seen, Sound other) →
      (step (state seen) input = .ok next ↔
        Sound input ∧ (∀ other ∈ seen, Apart other input) ∧ next = state (seen ++ [input])))
    {inputs : List α} {last : σ} :
    inputs.foldlM step (state []) = .ok last ↔
      (∀ input ∈ inputs, Sound input) ∧ inputs.Pairwise Apart ∧ last = state inputs := by
  -- Over the elements that are left, for any that were taken before.
  suffices general : ∀ seen, (∀ other ∈ seen, Sound other) → seen.Pairwise Apart →
      (inputs.foldlM step (state seen) = .ok last ↔ (∀ input ∈ seen ++ inputs, Sound input) ∧
        (seen ++ inputs).Pairwise Apart ∧ last = state (seen ++ inputs)) from
    general [] nofun .nil
  induction inputs with
  | nil =>
    intro seen sound apart
    simp only [List.foldlM_nil, pure_eq_ok, List.append_nil]
    exact ⟨fun same => ⟨sound, apart, same.symm⟩, fun ⟨_, _, same⟩ => same.symm⟩
  | cons input inputs ih =>
    intro seen sound apart
    simp only [List.foldlM_cons, bind_eq_ok, step_eq_ok seen input _ sound]
    have extended (here : Sound input) : ∀ other ∈ seen ++ [input], Sound other := by
      intro other mem
      rcases List.mem_append.1 mem with mem | mem
      · exact sound other mem
      · exact List.mem_singleton.1 mem ▸ here
    have later (here : Sound input) (fresh : ∀ other ∈ seen, Apart other input) :=
      ih (seen ++ [input]) (extended here) (List.pairwise_append.2 ⟨apart, List.pairwise_singleton _ _,
        fun other mem last same => List.mem_singleton.1 same ▸ fresh other mem⟩)
    rw [List.append_cons seen input inputs]
    constructor
    · rintro ⟨next, ⟨here, fresh, rfl⟩, run⟩
      exact (later here fresh).1 run
    · rintro ⟨allSound, allApart, same⟩
      have here : Sound input := allSound input (by simp)
      have fresh : ∀ other ∈ seen, Apart other input := fun other mem =>
        (List.pairwise_append.1 (List.pairwise_append.1 allApart).1).2.2 other mem input
          List.mem_cons_self
      exact ⟨_, ⟨here, fresh, rfl⟩, (later here fresh).2 ⟨allSound, allApart, same⟩⟩

end ResourceQuery.Fallible
