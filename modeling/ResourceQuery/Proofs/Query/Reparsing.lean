import ResourceQuery.Proofs.Query.Canonical
import ResourceQuery.Proofs.Query.Composition
import ResourceQuery.Proofs.Query.DepthLimit

/-!
# Reading back what was written

A tree that was read from a text has a canonical text of its own. That text may lack what is finer than
a microsecond, and it spells every operator out as a call, so that it may nest deeper than the text that
the tree was read from.

Main statement: a tree is read back from its canonical text exactly when the text keeps the limit on
nesting and the dates of the tree have whole microseconds.
-/

namespace ResourceQuery
set_option autoImplicit false
open Text Fallible Surface

variable {query : String} {node : Node}

/-! ## Whole microseconds -/

/-- Moments with whole microseconds lose nothing. -/
theorem DateTime.toMicroseconds_eq_self_iff {moment : DateTime} :
    moment.toMicroseconds = moment ↔ moment.time.nanosecond % 1000 = 0 := by
  obtain ⟨date, time⟩ := moment
  rw [toMicroseconds, toPlaces, mk.injEq, Time.toPlaces]
  cases time
  simp only [Time.mk.injEq, true_and]
  omega

/-- A query equals what whole microseconds leave of it when it has no other dates. -/
theorem Node.IsQuery.equals_toMicroseconds (query : node.IsQuery) : node.toMicroseconds.equals node = true ↔
    ∀ moment, .date moment ∈ node.literals → moment.time.nanosecond % 1000 = 0 := by
  simp only [Node.toMicroseconds, query.equals_mapDates, DateTime.toMicroseconds_eq_self_iff]

/-! ## Deeper texts -/

/-- A text that breaks the limit has a first parenthesis too many, and is refused there. -/
theorem exists_refusal {limit : Nat} (deep : limit < nesting query.toList) :
    ∃ before after, query.toList = before ++ '(' :: after ∧ Exhausts before limit ∧
      parseWithin limit query =
        .error ⟨.tooDeep limit, query, size before, String.ofList ('(' :: after)⟩ := by
  obtain ⟨before, after, split, within, opened⟩ := exists_exhausted (Nat.zero_le limit) deep
  exact ⟨before, after, split, ⟨within, opened⟩, parseWithin_of_exhausted ⟨within, opened⟩ split⟩

/-- A canonical text closes all parentheses that it opens. -/
theorem balanced_render {limit : Nat} (parsed : parseWithin limit query = .ok node) :
    Balanced node.render.toList := by
  have read := parseWithin_render_of_parseWithin parsed (Nat.le_refl _)
  obtain ⟨_, surface, -⟩ := bind_eq_ok.1 read
  exact (derivable_of_parse surface).balanced

/-- A conjunction is written one level deeper than its first part. -/
theorem Node.nesting_render_and {first second : Node} (balanced : Balanced first.render.toList)
    (balanced' : Balanced second.render.toList) :
    nesting first.render.toList < nesting (Node.apply .and [first, second]).render.toList := by
  have flat : Flat Operator.and.name.toList := flat_of_token (by decide)
  have comma : Flat [','] := flat_singleton (by decide) (by decide)
  have written : (Node.apply .and [first, second]).render.toList =
      Operator.and.name.toList ++
        '(' :: (first.render.toList ++ ([','] ++ second.render.toList) ++ [')']) := by
    simp [Node.render, Node.chars, charsAll_eq_map, List.intercalate_cons_cons]
  have inside := balanced.append (comma.balanced.append balanced')
  rw [written, flat.balanced.nesting_append, inside.nesting_parenthesized, balanced.nesting_append]
  omega

/-- Under every limit some query is accepted whose canonical text breaks the limit: a comparison opens
no parentheses, and its canonical text does. -/
theorem exists_deeper (limit : Nat) :
    ∃ query node, parseWithin limit query = .ok node ∧ nesting query.toList ≤ limit ∧
      limit < nesting node.render.toList := by
  have comparison : parseWithin 0 "a=1" = .ok (.apply .eq [.field "a", .literal (.integer 1)]) := by
    decide +kernel
  induction limit with
  | zero => exact ⟨_, _, comparison, by decide +kernel, by decide +kernel⟩
  | succ limit ih =>
    obtain ⟨query, node, parsed, shallow, deeper⟩ := ih
    have above := Node.nesting_render_and (balanced_render parsed) (balanced_render comparison)
    obtain ⟨part, text, rfl⟩ := Accepted.exists_of_parseWithin parsed
    obtain ⟨other, text', same⟩ := Accepted.exists_of_parseWithin comparison
    have flat : nesting other.text = 0 := text' ▸ by decide +kernel
    have each : ∀ group ∈ [part, other], nesting group.text + 1 ≤ limit + 1 := by
      simp [text, flat, shallow]
    have within := (Accepted.shallow_groups (flat_singleton (c := '&') (by decide) (by decide)) each).2
    refine ⟨String.ofList (part.conjunction other []).text, _,
      Accepted.parseWithin_eq_ok _ (String.toList_ofList) within, ?_, ?_⟩
    · rwa [String.toList_ofList]
    · rw [← same] at above
      exact Nat.lt_of_le_of_lt deeper above

/-! ## Reading again -/

/-- **What is read back.** The canonical text of a tree that was read from a text is read as the tree
with whole microseconds if it keeps the limit on nesting, and refused at its first parenthesis too many
if not. So an equal tree is read back exactly when the text keeps the limit and no date of the tree has
anything finer than a microsecond. -/
theorem parse_render_of_parse (parsed : parse query = .ok node) :
    (nesting node.render.toList ≤ defaultMaxDepth → parse node.render = .ok node.toMicroseconds) ∧
    (defaultMaxDepth < nesting node.render.toList →
      ∃ before after, node.render.toList = before ++ '(' :: after ∧ Exhausts before defaultMaxDepth ∧
        parse node.render = .error
          ⟨.tooDeep defaultMaxDepth, node.render, size before, String.ofList ('(' :: after)⟩) ∧
    ((∃ again, parse node.render = .ok again ∧ again.equals node = true) ↔
      nesting node.render.toList ≤ defaultMaxDepth ∧
        ∀ moment, .date moment ∈ node.literals → moment.time.nanosecond % 1000 = 0) := by
  have shallow (within : nesting node.render.toList ≤ defaultMaxDepth) :
      parse node.render = .ok node.toMicroseconds :=
    parseWithin_render_of_parseWithin parsed within
  have deep (beyond : defaultMaxDepth < nesting node.render.toList) :
      ∃ before after, node.render.toList = before ++ '(' :: after ∧ Exhausts before defaultMaxDepth ∧
        parse node.render = .error
          ⟨.tooDeep defaultMaxDepth, node.render, size before, String.ofList ('(' :: after)⟩ :=
    exists_refusal beyond
  have equal := (isQuery_of_parseWithin parsed).equals_toMicroseconds
  refine ⟨shallow, deep, ?_, ?_⟩
  · rintro ⟨again, read, same⟩
    rcases Nat.lt_or_ge defaultMaxDepth (nesting node.render.toList) with beyond | within
    · obtain ⟨_, _, -, -, refused⟩ := deep beyond
      simp [refused] at read
    · obtain rfl : node.toMicroseconds = again := Except.ok.inj ((shallow within).symm.trans read)
      exact ⟨within, equal.1 same⟩
  · rintro ⟨within, whole⟩
    exact ⟨_, shallow within, equal.2 whole⟩

/-- A date with seven decimal places of the second is not read back, since six of them are written. -/
theorem parse_render_sevenPlaces :
    ∃ node, parse "a=2009-10-12T12:15:23.1234567Z" = .ok node ∧
      parse node.render = .ok node.toMicroseconds ∧
      ¬∃ again, parse node.render = .ok again ∧ again.equals node = true := by
  obtain ⟨node, parsed, text⟩ := map_eq_ok.1 (show
    (parse "a=2009-10-12T12:15:23.1234567Z").map (fun node => (node.render, node.literals)) =
      .ok ("eq(a,2009-10-12T12:15:23.123456Z)",
        [.date ⟨⟨2009, 10, 12, by decide, by decide, by decide⟩,
          ⟨12, 15, 23, 123456700, by decide, by decide, by decide, by decide⟩⟩]) by decide +kernel)
  obtain ⟨rendered, literals⟩ := Prod.mk.inj text
  obtain ⟨shallow, -, equal⟩ := parse_render_of_parse parsed
  refine ⟨node, parsed, shallow ?_, fun again => ?_⟩
  · rw [rendered]
    exact tooDeepAt?_eq_none_iff.1 (by decide +kernel)
  · have whole := (equal.1 again).2 _ (literals ▸ List.mem_singleton_self _)
    exact absurd whole (by decide)

/-- Not every query is read back from its canonical text: the seventh decimal place of a second is lost,
and a text that nests as deep as the limit allows may have a deeper canonical text. -/
theorem not_parse_render_all :
    (parse "a=2009-10-12T12:15:23.1234567Z").map
        (fun node => (parse node.render).map (·.equals node)) = .ok (.ok false) ∧
      ∃ query node, parse query = .ok node ∧ ¬∃ again, parse node.render = .ok again := by
  refine ⟨by decide +kernel, ?_⟩
  obtain ⟨query, node, parsed, -, deeper⟩ := exists_deeper defaultMaxDepth
  refine ⟨query, node, parsed, ?_⟩
  rintro ⟨again, read⟩
  obtain ⟨_, _, -, -, refused⟩ := exists_refusal deeper
  cases refused.symm.trans read

end ResourceQuery
