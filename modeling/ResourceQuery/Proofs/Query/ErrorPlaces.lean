import ResourceQuery.Proofs.Resolution.Blame

/-!
# Where parse errors point

An error names a place of the query and the text that is found there. A query that the grammar refuses
is quoted from that place to its end; a query that cannot be resolved is quoted at the part that is at
fault. Nothing is quoted only where the query ends, so an error never speaks of the end of the input
anywhere else.

Main statement: the error of every refused query points into the query.
-/

namespace ResourceQuery
set_option autoImplicit false
open Text Fallible

namespace Text

theorem size_eq_zero {cs : List Char} : size cs = 0 ↔ cs = [] := by
  cases cs with
  | nil => simp
  | cons c cs =>
    have positive := c.utf8Size_pos
    simp only [size_cons, reduceCtorEq, iff_false]
    omega

end Text

namespace ParseError

/-- The error points into the query: its offset lies between two characters, or at an end, the text
from there on starts with the fragment, and the fragment is empty exactly at the end of the query. -/
structure PointsInto (error : ParseError) (query : String) : Prop where
  query_eq : error.query = query
  offset_le : error.offset ≤ size query.toList
  starts : ∃ before after, query.toList = before ++ after ∧ error.offset = size before ∧
    error.fragment.toList <+: after
  ends : error.fragment = "" ↔ error.offset = size query.toList

variable {query : String} {before inside after : List Char} {fault : ParseFault}

/-- A piece of the query, empty only at the end, is a place to point at. -/
theorem pointsInto_piece (split : query.toList = before ++ (inside ++ after))
    (empty : inside = [] → after = []) :
    PointsInto ⟨fault, query, size before, String.ofList inside⟩ query := by
  refine ⟨rfl, ?_, ⟨before, inside ++ after, split, rfl, ?_⟩, ?_⟩
  · simp [split]
  · simp
  · have atEnd : size before = size query.toList ↔ inside ++ after = [] := by
      rw [split, size_append, ← size_eq_zero]
      omega
    simp only [atEnd, List.append_eq_nil_iff]
    constructor
    · intro isEmpty
      have nothing : inside = [] := by simpa using congrArg String.toList isEmpty
      exact ⟨nothing, empty nothing⟩
    · rintro ⟨rfl, -⟩
      rfl

/-- An error about all that follows a place quotes all that follows it. -/
theorem atRemainder_eq (split : query.toList = before ++ after) :
    atRemainder query (size before) fault = ⟨fault, query, size before, String.ofList after⟩ := by
  have whole : size query.toList = size before + size after := by rw [split, size_append]
  have quoted : slice? ⟨size before, size query.toList⟩ query.toList = some after := by
    rw [whole, split]
    simpa using slice?_append before after []
  have bounded : size before ≤ size query.toList := by simp [split]
  simp only [atRemainder, atSpan, quoted, Option.getD_some, Nat.min_eq_left bounded]

/-- An error at a span that covers some text quotes that text. -/
theorem atSpan_eq (split : query.toList = before ++ (inside ++ after)) :
    atSpan query ⟨size before, size before + size inside⟩ fault =
      ⟨fault, query, size before, String.ofList inside⟩ := by
  have quoted : slice? ⟨size before, size before + size inside⟩ query.toList = some inside := by
    rw [split, slice?_append]
  have bounded : size before ≤ size query.toList := by simp [split]
  simp only [atSpan, quoted, Option.getD_some, Nat.min_eq_left bounded]

end ParseError

/-- **Main.** The error for a query that is refused points into the query. If the grammar refuses the
query, the fragment is all that follows the place; if a surface tree is read but cannot be resolved,
the place and the fragment are the start and the text of a part of the surface tree or of a token. -/
theorem pointsInto_of_parseWithin {maxDepth : Nat} {query : String} {error : ParseError}
    (refused : parseWithin maxDepth query = .error error) :
    error.PointsInto query ∧
      ((Surface.parse query maxDepth = .error error ∧
          ∃ before, query.toList = before ++ error.fragment.toList ∧ error.offset = size before) ∨
        ∃ expr, Surface.parse query maxDepth = .ok expr ∧
          ∃ span ∈ expr.spans, error.offset = span.start ∧
            slice? span query.toList = some error.fragment.toList) := by
  rcases bind_eq_error.1 refused with refused | ⟨expr, parsed, refused⟩
  · obtain ⟨before, after, fault, split, rfl⟩ := Surface.exists_remainder_of_parse refused
    have split' : query.toList = before ++ (after ++ []) := by rw [split, List.append_nil]
    rw [ParseError.atRemainder_eq split] at refused ⊢
    refine ⟨ParseError.pointsInto_piece split' fun _ => rfl, .inl ⟨refused, before, ?_, rfl⟩⟩
    simpa using split
  · obtain ⟨span, mem, ⟨before, inside, after, split, nonempty, rfl⟩, fault, rfl⟩ :=
      Resolution.blames_resolve expr (Surface.standsIn_of_parse parsed) error refused
    rw [ParseError.atSpan_eq split]
    refine ⟨ParseError.pointsInto_piece split fun empty => absurd empty nonempty,
      .inr ⟨expr, parsed, _, mem, rfl, ?_⟩⟩
    rw [split, slice?_append, String.toList_ofList]

/-- A sort key without a name behind a character of two bytes and a value that is left out. -/
theorem pointsInto_emptySortKey :
    parseWithin 4 "é= & sort(+a, -)" =
        .error ⟨.emptySortKey, "é= & sort(+a, -)", 15, "-"⟩ ∧
      ParseError.PointsInto ⟨.emptySortKey, "é= & sort(+a, -)", 15, "-"⟩ "é= & sort(+a, -)" := by
  have refused : parseWithin 4 "é= & sort(+a, -)" =
      .error ⟨.emptySortKey, "é= & sort(+a, -)", 15, "-"⟩ := by decide +kernel
  exact ⟨refused, (pointsInto_of_parseWithin refused).1⟩

end ResourceQuery
