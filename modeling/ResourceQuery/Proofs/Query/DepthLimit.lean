import ResourceQuery.Proofs.Query.ErrorPlaces
import ResourceQuery.Proofs.Resolution.Heights
import ResourceQuery.Proofs.Surface.Levels

/-!
# What the limit on nesting does

The limit is checked in one pass over the parentheses of a text, before anything is read. A text that
breaks it is refused at the first parenthesis too many, whatever stands behind that; for all others the
limit makes no difference. It bounds how deep the grammar recurses, and how high trees are.

Main statement: the limit on nesting is exact, and it bounds all recursion over a query.
-/

namespace ResourceQuery
set_option autoImplicit false
open Text Fallible Surface

namespace Surface

/-- The text opens as many parentheses as the limit allows, and never more. The next one is too many. -/
structure Exhausts (before : List Char) (limit : Nat) : Prop where
  within : nesting before ≤ limit
  opened : depthAfter 0 before = limit

/-- A text that breaks the limit has a first parenthesis too many. -/
theorem exists_exhausted {limit depth : Nat} {text : List Char} (within : depth ≤ limit)
    (deep : limit < nestingFrom depth text) :
    ∃ before after, text = before ++ '(' :: after ∧ nestingFrom depth before ≤ limit ∧
      depthAfter depth before = limit := by
  induction text generalizing depth with
  | nil => exact absurd within (Nat.not_le_of_lt deep)
  | cons c cs ih =>
    rw [nestingFrom_cons] at deep
    by_cases last : depthBehind depth c ≤ limit
    · obtain ⟨before, after, rfl, inside, opened⟩ := ih last (by omega)
      refine ⟨c :: before, after, rfl, ?_, by rw [depthAfter_cons, opened]⟩
      rw [nestingFrom_cons]
      omega
    · -- Only an opening parenthesis leads beyond the limit, and only from the limit itself.
      obtain ⟨rfl, rfl⟩ : c = '(' ∧ depth = limit := by
        unfold depthBehind at last
        split at last
        · next opening => exact ⟨opening, by omega⟩
        · split at last <;> omega
      exact ⟨[], cs, rfl, Nat.le_refl _, rfl⟩

/-- The check goes on behind a character that keeps the limit. -/
theorem tooDeepAt?_cons {limit depth offset : Nat} {c : Char} (cs : List Char)
    (within : depthBehind depth c ≤ limit) :
    tooDeepAt? limit depth offset (c :: cs) =
      tooDeepAt? limit (depthBehind depth c) (offset + c.utf8Size) cs := by
  unfold depthBehind at within ⊢
  rw [tooDeepAt?]
  split
  · next opening =>
    rw [if_pos opening] at within
    exact if_neg (by omega)
  · split <;> rfl

/-- The check finds the first parenthesis too many. -/
theorem tooDeepAt?_of_exhausted {limit depth offset : Nat} {before after : List Char}
    (within : nestingFrom depth before ≤ limit) (opened : depthAfter depth before = limit) :
    tooDeepAt? limit depth offset (before ++ '(' :: after) = some (offset + size before) := by
  induction before generalizing depth offset with
  | nil =>
    obtain rfl : depth = limit := opened
    simp [tooDeepAt?]
  | cons c cs ih =>
    rw [nestingFrom_cons] at within
    have later := le_nestingFrom (depthBehind depth c) cs
    rw [List.cons_append, tooDeepAt?_cons _ (by omega), ih (by omega) opened, size_cons, Nat.add_assoc]

end Surface

/-- A text is refused at the first parenthesis too many, whatever stands behind it. -/
theorem parseWithin_of_exhausted {limit : Nat} {before after : List Char} {query : String}
    (full : Exhausts before limit) (split : query.toList = before ++ '(' :: after) :
    parseWithin limit query =
      .error ⟨.tooDeep limit, query, size before, String.ofList ('(' :: after)⟩ := by
  have written : allBlank query = false := by
    rw [allBlank, split, List.all_append, List.all_cons]
    simp [show isBlank '(' = false by decide]
  have deep : tooDeepAt? limit 0 0 query.toList = some (size before) := by
    rw [split, tooDeepAt?_of_exhausted full.within full.opened, Nat.zero_add]
  have refused : Surface.parse query limit =
      .error ⟨.tooDeep limit, query, size before, String.ofList ('(' :: after)⟩ := by
    simp only [Surface.parse, written, deep, ParseError.atRemainder_eq split]
    rfl
  rw [parseWithin, refused]
  rfl

/-- Limits that a text keeps make no difference to it. -/
theorem parse_of_shallow {limit limit' : Nat} {query : String} (shallow : nesting query.toList ≤ limit)
    (shallow' : nesting query.toList ≤ limit') :
    Surface.parse query limit = Surface.parse query limit' := by
  simp only [Surface.parse, tooDeepAt?_eq_none_iff.2 shallow, tooDeepAt?_eq_none_iff.2 shallow']

/-- **The limit on nesting is exact, and it bounds all recursion over a query.** A text that breaks it
is refused at the byte position of the first parenthesis too many, and so is every text that goes on in
another way behind that parenthesis. A text that keeps it is parsed as under any other limit that it
keeps, by a grammar with one level more than the limit. Surface trees, query trees and their normal forms
are no higher than twice the limit and four levels. -/
theorem nesting_limit (limit : Nat) :
    (∀ query : String, limit < nesting query.toList →
        ∃ before after, query.toList = before ++ '(' :: after ∧ Exhausts before limit ∧
          ∀ (query' : String) (after' : List Char), query'.toList = before ++ '(' :: after' →
            parseWithin limit query' =
              .error ⟨.tooDeep limit, query', size before, String.ofList ('(' :: after')⟩) ∧
      (∀ query : String, nesting query.toList ≤ limit →
        (∀ limit', nesting query.toList ≤ limit' → parseWithin limit query = parseWithin limit' query) ∧
          Grammar.wholeWithin (limit + 1) ⟨0, query.toList⟩ =
            Grammar.whole query.toList ⟨0, query.toList⟩) ∧
      ∀ query : String,
        (∀ expr, Surface.parse query limit = .ok expr → expr.height ≤ 2 * limit + 4) ∧
          ∀ node, parseWithin limit query = .ok node →
            node.height ≤ 2 * limit + 4 ∧ node.normalize.height ≤ 2 * limit + 4 := by
  refine ⟨fun query deep => ?_, fun query shallow => ⟨fun limit' shallow' => ?_, ?_⟩,
    fun query => ⟨fun _ => height_le_of_parse, fun _ => height_le_of_parseWithin⟩⟩
  · obtain ⟨before, after, split, within, opened⟩ := exists_exhausted (Nat.zero_le limit) deep
    have full : Exhausts before limit := ⟨within, opened⟩
    exact ⟨before, after, split, full, fun _ _ split' => parseWithin_of_exhausted full split'⟩
  · rw [parseWithin, parseWithin, parse_of_shallow shallow shallow']
  · exact wholeWithin_eq_whole (Nat.lt_succ_of_le shallow)

/-- A conjunction in a disjunction, twice, the second time in a group. -/
def Node.sixLevels : Node :=
  let equal (path : String) (n : Int64) : Node := .apply .eq [.field path, .literal (.integer n)]
  .apply .or
    [.apply .and
       [.apply .or [.apply .and [equal "a" 1, equal "b" 2], equal "c" 3], equal "d" 4],
     equal "e" 5]

/-- Under the limit of one level: a text with a second one, which is refused, and a tree with all the
levels that the limit allows. -/
theorem nesting_limit_one :
    (∃ before after, "é=1&((".toList = before ++ '(' :: after ∧
      parseWithin 1 "é=1&((" =
        .error ⟨.tooDeep 1, "é=1&((", size before, String.ofList ('(' :: after)⟩) ∧
    parseWithin 64 "(a=1&b=2|c=3)&d=4|e=5" = .ok Node.sixLevels ∧
    Node.sixLevels.height = 6 ∧ Node.sixLevels.height ≤ 2 * 1 + 4 := by
  have shallow : nesting "(a=1&b=2|c=3)&d=4|e=5".toList ≤ 1 :=
    tooDeepAt?_eq_none_iff.1 (by decide +kernel)
  have parsed : parseWithin 1 "(a=1&b=2|c=3)&d=4|e=5" = .ok Node.sixLevels := by decide +kernel
  have same := ((nesting_limit 1).2.1 _ shallow).1 64 (Nat.le_trans shallow (by decide))
  refine ⟨?_, same ▸ parsed, by decide, (((nesting_limit 1).2.2 _).2 _ parsed).1⟩
  obtain ⟨before, after, split, -, refused⟩ := (nesting_limit 1).1 "é=1&((" (by decide +kernel)
  exact ⟨before, after, split, refused _ after split⟩

end ResourceQuery
