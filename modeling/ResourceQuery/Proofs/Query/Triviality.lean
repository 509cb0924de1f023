import ResourceQuery.Session
import ResourceQuery.Proofs.Compilation.Reordering
import ResourceQuery.Proofs.Compilation.Shapes

/-!
# Queries that want everything

A document query without a filter reads the whole collection. No condition is compiled to an empty
filter, and no directive to nothing at all, so that only a blank text asks for every document as it is.

Main statement: what compiles is trivial only if its text is blank.
-/

namespace ResourceQuery
set_option autoImplicit false

namespace DocumentQuery

variable {query : DocumentQuery}

/-- The query does more than to filter documents. -/
def ShapesResult (query : DocumentQuery) : Prop :=
  query.sort ≠ [] ∨ query.projection ≠ none ∨ query.limit ≠ none ∨ query.distinct = true ∨
    query.aggregation ≠ none

theorem isTrivial_iff : query.isTrivial = true ↔ query = .matchAll :=
  beq_iff_eq

theorem not_shapesResult_matchAll : ¬ matchAll.ShapesResult := by
  simp [ShapesResult, matchAll]

end DocumentQuery

namespace Compilation

variable {parts : List Node} {part : Node} {filter : Document} {draft : Draft}

/-! ## Filters -/

/-- No condition compiles to the filter that lets everything through. -/
theorem ne_nil_of_predicate (compiled : predicate part = .ok filter) : filter ≠ [] := by
  have shape := isFilter_of_predicate part filter compiled (List.Subset.refl _) (List.Subset.refl _)
  cases shape <;> exact List.cons_ne_nil _ _

theorem filter_eq_nil_iff (conditions : ∀ filter ∈ draft.predicates, filter ≠ []) :
    draft.filter = [] ↔ draft.predicates = [] := by
  unfold Draft.filter
  split
  · next none => simp [none]
  · next only single => simpa [single] using conditions only (by simp [single])
  · next none _ => simpa [joined, Json.single] using none

/-- A sound part adds a filter exactly if it is a condition. -/
theorem IsSound.filter_eq_none_iff (sound : IsSound part) :
    (contribution part).filter = none ↔ part.shapesResult = true := by
  refine ⟨fun unfiltered => ?_, filter_contribution_of_shapesResult⟩
  by_contra condition
  obtain ⟨filter, compiled⟩ := sound.exists_filter (by simpa using condition)
  simp [contribution_of_condition (by simpa using condition), compiled, Except.toOption] at unfiltered

/-! ## Shapes -/

/-- A sound part that is no condition claims a slot. -/
theorem IsSound.exists_slot (sound : IsSound part) (shapes : part.shapesResult = true) :
    ∃ slot, slot? part = some slot := by
  cases sound with
  | projection named => rcases named with rfl | rfl <;> exact ⟨.projection, rfl⟩
  | function function =>
    obtain ⟨added, read, -⟩ := function
    exact ⟨_, by rw [slot?, contribution_of_function read]⟩
  | predicate condition => simp [condition] at shapes
  | sort | limit | limitAndSkip | distinct | aggregate => exact ⟨_, rfl⟩

/-- Whatever fills a slot shows in the query. -/
theorem shapesResult_merge {cs : List Contribution} {c : Contribution} {slot : Slot} (mem : c ∈ cs)
    (filled : c.IsFilled) (claims : c.slot = some slot) : (merge cs).query.ShapesResult := by
  by_contra plain
  simp only [DocumentQuery.ShapesResult, not_or, not_not, merge, List.flatMap_eq_nil_iff,
    List.findSome?_eq_none_iff, List.any_eq_true, ite_eq_left_iff, reduceCtorEq, imp_false,
    List.filterMap_eq_nil_iff] at plain
  obtain ⟨sort, projection, limit, distinct, columns⟩ := plain
  cases slot with
  | sort => exact filled.sort.1 (sort c mem) claims
  | projection => exact filled.projection.1 (projection c mem) claims
  | limit => exact filled.limit.1 (limit c mem) claims
  | distinct => exact distinct ⟨c, mem, beq_iff_eq.2 claims⟩
  | grouping | result =>
    exact Bool.noConfusion (filled.columns.1 (columns c mem) _ claims)

/-! ## What compiles -/

/-- A compiled query has an empty filter exactly if its parts are directives and aggregate functions
alone, and then one of them shows. -/
theorem filter_eq_nil_iff_of_compile {node : Node} {query : DocumentQuery}
    (compiled : compile node = .ok query) :
    (query.filter = [] ↔ ∀ part ∈ partsOf node, part.shapesResult = true) ∧
      (query.filter = [] → query.ShapesResult) := by
  obtain ⟨⟨nonempty, -⟩, sound, -, rfl⟩ := compile_eq_ok_iff.1 compiled
  have conditions : ∀ filter ∈ (merged (partsOf node)).predicates, filter ≠ [] := by
    intro filter mem
    obtain ⟨c, cMem, found⟩ := List.mem_filterMap.1 mem
    obtain ⟨part, -, rfl⟩ := List.mem_map.1 cMem
    exact ne_nil_of_predicate (predicate_of_contribution found)
  have unfiltered : (merged (partsOf node)).filter = [] ↔
      ∀ part ∈ partsOf node, part.shapesResult = true := by
    rw [filter_eq_nil_iff conditions, merged, merge, List.filterMap_eq_nil_iff, List.forall_mem_map]
    exact forall₂_congr fun part mem => (sound part mem).filter_eq_none_iff
  refine ⟨unfiltered, fun empty => ?_⟩
  obtain ⟨part, mem⟩ := List.exists_mem_of_ne_nil _ nonempty
  obtain ⟨slot, claims⟩ := (sound part mem).exists_slot (unfiltered.1 empty part mem)
  exact shapesResult_merge (List.mem_map_of_mem mem) (sound part mem).isFilled claims

theorem isTrivial_of_compile {node : Node} {query : DocumentQuery}
    (compiled : compile node = .ok query) : query.isTrivial = false := by
  rw [← Bool.not_eq_true, DocumentQuery.isTrivial_iff]
  rintro rfl
  exact DocumentQuery.not_shapesResult_matchAll ((filter_eq_nil_iff_of_compile compiled).2 rfl)

end Compilation

/-! ## Texts -/

/-- A document query is that of a blank text, or that of the tree of a text that is not blank. -/
theorem DocumentQuery.ofText_eq_ok_iff {text : String} {query : DocumentQuery} :
    DocumentQuery.ofText text = .ok query ↔
      Text.allBlank text = true ∧ query = .matchAll ∨
        Text.allBlank text = false ∧ ∃ node, parse text = .ok node ∧
          Compilation.compile node.normalize = .ok query := by
  unfold DocumentQuery.ofText
  cases blank : Text.allBlank text with
  | true => simp [@eq_comm _ query]
  | false =>
    cases parsed : parse text with
    | error => simp
    | ok node => cases compiled : Compilation.compile node.normalize <;> simp [compiled]

/-- A session compiles a blank text to the query for everything, and any other text to what some tree
is compiled to, be it remembered or made anew. -/
theorem Session.eq_matchAll_or_exists_compile {session : Session} {text : String}
    {query : DocumentQuery} (answered : (session.compile text).1 = .ok query) :
    Text.allBlank text = true ∧ query = .matchAll ∨
      Text.allBlank text = false ∧ ∃ node, Compilation.compile node = .ok query := by
  unfold Session.compile Session.answerWith at answered
  cases blank : Text.allBlank text with
  | true => exact .inl ⟨rfl, by simpa [blank, Backend.documentStore, @eq_comm _ query] using answered⟩
  | false =>
    rcases read : session.parse text with ⟨_ | tree, later⟩
    · simp [blank, read] at answered
    · refine .inr ⟨rfl, tree.node, ?_⟩
      cases compiled : Compilation.compile tree.node with
      | error => simp [blank, read, Backend.documentStore, compiled] at answered
      | ok => simpa [blank, read, Backend.documentStore, compiled] using answered

/-- **No query wants everything by accident.** The document query of a text neither filters nor shapes
the result exactly if the text is blank, and a session says the same whatever it is set to and whatever
it remembers. Any tree that compiles gives an empty filter exactly if its parts are directives and
aggregate functions alone, and then some other option of the query is set. -/
theorem isTrivial_iff_allBlank :
    (∀ text query, DocumentQuery.ofText text = .ok query →
        (query.isTrivial = true ↔ Text.allBlank text = true)) ∧
      (∀ (session : Session) text query, (session.compile text).1 = .ok query →
        (query.isTrivial = true ↔ Text.allBlank text = true)) ∧
      ∀ node query, Compilation.compile node = .ok query →
        (query.filter = [] ↔ ∀ part ∈ Compilation.partsOf node, part.shapesResult = true) ∧
          (query.filter = [] → query.ShapesResult) := by
  refine ⟨fun text query read => ?_, fun session text query answered => ?_,
    fun _ _ => Compilation.filter_eq_nil_iff_of_compile⟩
  · rcases DocumentQuery.ofText_eq_ok_iff.1 read with ⟨blank, rfl⟩ | ⟨written, node, -, compiled⟩
    · simp [blank, DocumentQuery.isTrivial]
    · simp [written, Compilation.isTrivial_of_compile compiled]
  · rcases Session.eq_matchAll_or_exists_compile answered with ⟨blank, rfl⟩ | ⟨written, node, compiled⟩
    · simp [blank, DocumentQuery.isTrivial]
    · simp [written, Compilation.isTrivial_of_compile compiled]

/-- A session that does not normalize and remembers a tree under a text of another query. -/
def straySession : Session :=
  ⟨{ normalize := false }, [("a=1", ⟨3, .apply .distinct []⟩)], 4⟩

/-- A page of no documents, a blank text, a tree that was remembered, and totals without keys. -/
theorem isTrivial_of_small_queries :
    (DocumentQuery.ofText "limit(0)" = .ok { limit := some 0 } ∧
      (DocumentQuery.isTrivial { limit := some 0 } = true ↔ Text.allBlank "limit(0)" = true)) ∧
    ((straySession.compile "\u2003").1 = .ok .matchAll ∧
      (DocumentQuery.isTrivial .matchAll = true ↔ Text.allBlank "\u2003" = true)) ∧
    ((straySession.compile "a=1").1 = .ok { distinct := true } ∧
      (DocumentQuery.isTrivial { distinct := true } = true ↔ Text.allBlank "a=1" = true)) ∧
    ∃ query, Compilation.compile (.apply .aggregate [.field "a"]) = .ok query ∧
      query.filter = [] ∧ query.ShapesResult := by
  have page : DocumentQuery.ofText "limit(0)" = .ok { limit := some 0 } := by decide +kernel
  have blank : (straySession.compile "\u2003").1 = .ok .matchAll := by decide +kernel
  have remembered : (straySession.compile "a=1").1 = .ok { distinct := true } := by decide +kernel
  refine ⟨⟨page, isTrivial_iff_allBlank.1 _ _ page⟩, ⟨blank, isTrivial_iff_allBlank.2.1 _ _ _ blank⟩,
    ⟨remembered, isTrivial_iff_allBlank.2.1 _ _ _ remembered⟩, _, rfl, rfl, ?_⟩
  exact (isTrivial_iff_allBlank.2.2 (.apply .aggregate [.field "a"]) _ rfl).2 rfl

end ResourceQuery
