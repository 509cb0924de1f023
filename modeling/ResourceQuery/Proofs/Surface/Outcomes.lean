import ResourceQuery.Proofs.Surface.Derivation

/-!
# What parsers find and where they miss

One lemma a combinator: what its parts have found if it has found something, and when it misses.
The rules of the grammar are proved from these lemmas, without the combinators being opened again.
-/

namespace ResourceQuery.Surface.Parser
set_option autoImplicit false
open Text Grammar

variable {α β : Type} {cursor next : Cursor}

/-- The parser does not read on from here, and nothing keeps an alternative from being tried. -/
def Misses (parser : Parser α) (cursor : Cursor) : Prop :=
  ∃ place, parser cursor = .missed place

/-! ## Sequences and alternatives -/

theorem bind_eq_found {first : Parser α} {second : α → Parser β} {result : β} :
    (first >>= second) cursor = .found result next ↔
      ∃ value mid, first cursor = .found value mid ∧ second value mid = .found result next := by
  change Parser.bind first second cursor = _ ↔ _
  cases found : first cursor <;> simp only [Parser.bind, found, reduceCtorEq, false_and, exists_false]
  exact ⟨fun found' => ⟨_, _, rfl, found'⟩, fun ⟨_, _, same, found'⟩ => by
    obtain ⟨rfl, rfl⟩ := Outcome.found.inj same
    exact found'⟩

theorem bind_misses {first : Parser α} {second : α → Parser β} (misses : Misses first cursor) :
    Misses (first >>= second) cursor := by
  obtain ⟨place, missed⟩ := misses
  exact ⟨place, by change Parser.bind first second cursor = _; simp [Parser.bind, missed]⟩

theorem bind_misses_of_found {first : Parser α} {second : α → Parser β} {value : α}
    {mid : Cursor} (found : first cursor = .found value mid) (misses : Misses (second value) mid) :
    Misses (first >>= second) cursor := by
  obtain ⟨place, missed⟩ := misses
  exact ⟨place, by change Parser.bind first second cursor = _; simp [Parser.bind, found, missed]⟩

theorem pure_eq_found {value result : α} :
    (Pure.pure value : Parser α) cursor = .found result next ↔ value = result ∧ cursor = next := by
  change Outcome.found value cursor = _ ↔ _
  simp

theorem map_eq_found {parser : Parser α} {change : α → β} {result : β} :
    (change <$> parser) cursor = .found result next ↔
      ∃ value, parser cursor = .found value next ∧ change value = result := by
  change (parser >>= fun value => Pure.pure (change value)) cursor = _ ↔ _
  simp only [bind_eq_found, pure_eq_found]
  exact ⟨fun ⟨value, _, found, same, here⟩ => ⟨value, here ▸ found, same⟩,
    fun ⟨value, found, same⟩ => ⟨value, next, found, same, rfl⟩⟩

theorem map_misses {parser : Parser α} {change : α → β} (misses : Misses parser cursor) :
    Misses (change <$> parser) cursor :=
  bind_misses misses

theorem orElse_eq_found {first second : Parser α} {result : α}
    (found : orElse first second cursor = .found result next) :
    first cursor = .found result next ∨ second cursor = .found result next := by
  unfold orElse at found
  split at found
  · exact .inr found
  · exact .inl found

theorem orElse_of_found {first second : Parser α} {result : α}
    (found : first cursor = .found result next) :
    orElse first second cursor = .found result next := by
  simp [orElse, found]

theorem orElse_of_misses {first second : Parser α} (misses : Misses first cursor) :
    orElse first second cursor = second cursor := by
  obtain ⟨place, missed⟩ := misses
  simp [orElse, missed]

theorem orElse_misses {first second : Parser α} (misses : Misses first cursor)
    (misses' : Misses second cursor) : Misses (orElse first second) cursor := by
  rw [Misses, orElse_of_misses misses]
  exact misses'

theorem optional_eq_found {parser : Parser α} {result : Option α}
    (found : optional parser cursor = .found result next) :
    (∃ value, parser cursor = .found value next ∧ result = some value) ∨
      result = none ∧ next = cursor := by
  rcases orElse_eq_found found with found | found
  · obtain ⟨value, found, same⟩ := map_eq_found.1 found
    exact .inl ⟨value, found, same.symm⟩
  · obtain ⟨rfl, rfl⟩ := pure_eq_found.1 found
    exact .inr ⟨rfl, rfl⟩

theorem optional_of_found {parser : Parser α} {value : α} (found : parser cursor = .found value next) :
    optional parser cursor = .found (some value) next :=
  orElse_of_found (map_eq_found.2 ⟨value, found, rfl⟩)

theorem optional_of_misses {parser : Parser α} (misses : Misses parser cursor) :
    optional parser cursor = .found none cursor :=
  orElse_of_misses (map_misses misses)

theorem committed_eq_found {parser : Parser α} {result : α} :
    committed parser cursor = .found result next ↔ parser cursor = .found result next := by
  unfold committed
  split <;> simp_all

theorem located_eq_found {parser : Parser α} {result : α × Span} :
    located parser cursor = .found result next ↔
      ∃ value, parser cursor = .found value next ∧
        result = (value, ⟨cursor.offset, next.offset⟩) := by
  unfold located
  split <;> simp_all
  grind

theorem located_misses {parser : Parser α} (misses : Misses parser cursor) :
    Misses (located parser) cursor := by
  obtain ⟨place, missed⟩ := misses
  exact ⟨place, by simp [located, missed]⟩

/-! ## Characters -/

/-- Skipping a leading part leaves what stands behind it. -/
@[simp] theorem rest_skip (cursor : Cursor) (taken : List Char) :
    (cursor.skip taken).rest = cursor.rest.drop taken.length := rfl

theorem drop_takeWhile (accepts : Char → Bool) (cs : List Char) :
    cs.drop (cs.takeWhile accepts).length = cs.dropWhile accepts := by
  induction cs with
  | nil => rfl
  | cons c cs ih => by_cases accepted : accepts c = true <;> simp [accepted, ih]

theorem symbol_eq_found {c : Char} {result : Unit} (found : symbol c cursor = .found result next) :
    cursor.rest = c :: next.rest := by
  unfold symbol at found
  split at found
  · split at found
    · next rest same =>
      subst same
      obtain rfl : _ = next := (Outcome.found.inj found).2
      simp [rest]
    · simp at found
  · simp at found

theorem symbol_of_rest {c : Char} {cs : List Char} (here : cursor.rest = c :: cs) :
    ∃ next, symbol c cursor = .found () next ∧ next.rest = cs :=
  ⟨cursor.skip [c], by simp [symbol, here], by simp [here]⟩

theorem symbol_misses {c : Char} (here : c ∉ cursor.rest.head?) : Misses (symbol c) cursor := by
  refine ⟨cursor, ?_⟩
  unfold symbol
  split
  · next d cs rest =>
    rw [if_neg]
    rintro rfl
    exact here (by simp [rest])
  · rfl

theorem word_eq_found {opens continues : Char → Bool} {result : List Char}
    (found : word opens continues cursor = .found result next) :
    ∃ c cs, cursor.rest = c :: cs ∧ opens c = true ∧ result = c :: cs.takeWhile continues ∧
      next.rest = cs.dropWhile continues := by
  unfold word at found
  split at found
  · simp at found
  · next c cs rest =>
    split at found
    · next isOpening =>
      obtain ⟨rfl, rfl⟩ := Outcome.found.inj found
      refine ⟨c, cs, rest, isOpening, rfl, ?_⟩
      simp [rest, drop_takeWhile]
    · simp at found

theorem word_of_rest {opens : Char → Bool} (continues : Char → Bool) {c : Char} {cs : List Char}
    (here : cursor.rest = c :: cs) (isOpening : opens c = true) :
    ∃ next, word opens continues cursor = .found (c :: cs.takeWhile continues) next ∧
      next.rest = cs.dropWhile continues := by
  refine ⟨cursor.skip (c :: cs.takeWhile continues), by simp [word, here, isOpening], ?_⟩
  simp [here, drop_takeWhile]

theorem word_misses {opens continues : Char → Bool}
    (here : ∀ c ∈ cursor.rest.head?, opens c = false) : Misses (word opens continues) cursor := by
  refine ⟨cursor, ?_⟩
  unfold word
  split
  · rfl
  · next c cs rest =>
    simp [here c (by simp [rest])]

/-- Spacing is always found, and all of it. -/
theorem spacing_found (cursor : Cursor) :
    ∃ next, spacing cursor = .found () next ∧ next.rest = cursor.rest.dropWhile isSpacing :=
  ⟨cursor.skip (cursor.rest.takeWhile isSpacing), rfl, by simp [drop_takeWhile]⟩

theorem spacing_eq_found {result : Unit} (found : spacing cursor = .found result next) :
    next.rest = cursor.rest.dropWhile isSpacing := by
  obtain ⟨place, same, rest⟩ := spacing_found cursor
  obtain rfl : place = next := (Outcome.found.inj (same ▸ found)).2
  exact rest

/-! ## Repetition -/

theorem separated_eq_found {c : Char} {element : Parser α} {result : List α} :
    separated c element cursor = .found result next ↔
      ∃ first mid others, element cursor = .found first mid ∧
        further c element mid.rest.length mid = .found others next ∧ result = first :: others := by
  refine bind_eq_found.trans (exists_congr fun first => exists_congr fun mid => ?_)
  constructor
  · rintro ⟨head, tail⟩
    obtain ⟨others, behind, further, last⟩ := bind_eq_found.1 tail
    obtain ⟨rfl, rfl⟩ := pure_eq_found.1 last
    exact ⟨others, head, further, rfl⟩
  · rintro ⟨others, head, tail, rfl⟩
    exact ⟨head, bind_eq_found.2 ⟨others, next, tail, pure_eq_found.2 ⟨rfl, rfl⟩⟩⟩

end ResourceQuery.Surface.Parser
