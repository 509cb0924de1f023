import ResourceQuery.Proofs.Query.Composition
import ResourceQuery.Proofs.Surface.Respacing

/-!
# Blanks in queries

Blanks around delimiters and at the ends of a query say nothing: with others in their place the query has
the same tree, or none either.
-/

namespace ResourceQuery
set_option autoImplicit false
open Surface

/-- A query with a tree keeps it when it is respaced. -/
theorem parseWithin_of_respaced {query query' : String} {maxDepth : Nat} {node : Node}
    (respaced : Respaced none query.toList query'.toList)
    (read : parseWithin maxDepth query = .ok node) : parseWithin maxDepth query' = .ok node := by
  have shallow : nesting query'.toList ≤ maxDepth := by
    obtain ⟨expr, parsed, -⟩ := Fallible.bind_eq_ok.1 read
    have same : nesting query.toList = nesting query'.toList := respaced.nestingFrom_eq 0
    exact same ▸ nesting_le_of_parse parsed
  obtain ⟨part, text, rfl⟩ := Accepted.exists_of_parseWithin read
  have derivable : Derivable query'.toList part.form :=
    (text ▸ part.derivable).respaced respaced
  exact Accepted.parseWithin_eq_ok ⟨query'.toList, part.form, part.node, derivable, part.resolved⟩ rfl shallow

/-- **Main.** Of two queries that differ only in blanks around delimiters and at their ends, but not in
those between a token and an opening parenthesis, both have the same tree or none has any. -/
theorem parseWithin_eq_ok_iff_of_respaced {query query' : String}
    (respaced : Respaced none query.toList query'.toList) (maxDepth : Nat) (node : Node) :
    parseWithin maxDepth query = .ok node ↔ parseWithin maxDepth query' = .ok node :=
  ⟨parseWithin_of_respaced respaced, parseWithin_of_respaced respaced.symm⟩

/-- Blanks at both ends, inside parentheses, around both equals signs and before an empty value. -/
theorem parseWithin_eq_ok_iff_of_respaced_everywhere :
    Respaced none " ( a = 1 |b=in= (x , y))& c= ".toList "(a=1|b=in=(x,y))&c=".toList ∧
      parseWithin 64 " ( a = 1 |b=in= (x , y))& c= " = parseWithin 64 "(a=1|b=in=(x,y))&c=" ∧
      (parseWithin 64 "(a=1|b=in=(x,y))&c=").isOk = true := by
  have respaced : Respaced none " ( a = 1 |b=in= (x , y))& c= ".toList
      "(a=1|b=in=(x,y))&c=".toList := by decide +kernel
  have accepted : (parseWithin 64 "(a=1|b=in=(x,y))&c=").isOk = true := by decide +kernel
  refine ⟨respaced, ?_, accepted⟩
  obtain ⟨node, read⟩ : ∃ node, parseWithin 64 "(a=1|b=in=(x,y))&c=" = .ok node := by
    cases outcome : parseWithin 64 "(a=1|b=in=(x,y))&c=" with
    | ok node => exact ⟨node, rfl⟩
    | error _ => simp [outcome, Except.isOk, Except.toBool] at accepted
  rw [read]
  exact (parseWithin_eq_ok_iff_of_respaced respaced 64 node).2 read

end ResourceQuery
