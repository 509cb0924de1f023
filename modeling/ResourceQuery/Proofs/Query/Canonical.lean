import ResourceQuery.Proofs.Compilation.Precision
import ResourceQuery.Proofs.Rendering.RoundTrip
import ResourceQuery.Proofs.Resolution.Values

/-!
# Canonical texts mean the same

The canonical text of a tree is not always read back as the tree: dates are written with microseconds,
and whatever is finer is lost. A filter has no use for it, and neither has an error.

Main statement: a query and the canonical text of its tree compile alike.
-/

namespace ResourceQuery
set_option autoImplicit false
open Fallible Surface

variable {query : String} {node : Node}

/-- A text with a tree is compiled as the tree. -/
theorem DocumentQuery.ofText_of_parse (parsed : parse query = .ok node) :
    DocumentQuery.ofText query = (Compilation.compile node.normalize).mapError .compilation := by
  obtain ⟨expr, surface, -⟩ := bind_eq_ok.1 parsed
  have written : Text.allBlank query = false := allBlank_of_derivable (derivable_of_parse surface)
  rw [DocumentQuery.ofText, written, parsed]
  cases compiled : Compilation.compile node.normalize <;> simp [compiled, Except.mapError]

/-- A canonical text that keeps a limit on nesting is read as the tree with whole microseconds. -/
theorem parseWithin_render_of_parseWithin {limit limit' : Nat}
    (parsed : parseWithin limit query = .ok node) (shallow : nesting node.render.toList ≤ limit') :
    parseWithin limit' node.render = .ok node.toMicroseconds := by
  have isQuery : node.toMicroseconds.IsQuery := (isQuery_of_parseWithin parsed).mapDates _
  rw [← node.render_toMicroseconds] at shallow ⊢
  refine parseWithin_render_of_isWritable isQuery (fun moment mem => ?_) shallow
  obtain ⟨read, readMem, rfl⟩ := Node.date_mem_mapDates.1 mem
  obtain ⟨text, iso⟩ := (Resolution.allSpelled_of_parseWithin parsed _ readMem).exists_parseIso
  exact DateTime.isWritable_toMicroseconds iso

/-- **Canonical texts mean the same.** The canonical text of whatever a query is parsed to compiles to
the same document query, or is refused with the same error, even where dates lose what is finer than
a microsecond. -/
theorem ofText_render (parsed : parse query = .ok node)
    (shallow : nesting node.render.toList ≤ defaultMaxDepth) :
    DocumentQuery.ofText node.render = DocumentQuery.ofText query := by
  have read : parse node.render = .ok node.toMicroseconds :=
    parseWithin_render_of_parseWithin parsed shallow
  have normal : node.toMicroseconds.normalize = node.normalize.toMicroseconds :=
    Node.normalize_mapValues _ node
  rw [DocumentQuery.ofText_of_parse read, DocumentQuery.ofText_of_parse parsed, normal, Node.toMicroseconds,
    Compilation.compile_mapDates _ (DateTime.isHidden_toMicroseconds (by decide))]

/-- A moment of a leap second loses its nanoseconds in the canonical text, and the page behind it stays
the same. -/
theorem ofText_render_behindLeapSecond :
    (parse "t=gt=2016-12-31T23:59:60.123456789Z&sort(t)").map Node.render =
        .ok "and(gt(t,2016-12-31T23:59:60.123456Z),sort(+t))" ∧
      DocumentQuery.ofText "and(gt(t,2016-12-31T23:59:60.123456Z),sort(+t))" =
        DocumentQuery.ofText "t=gt=2016-12-31T23:59:60.123456789Z&sort(t)" := by
  have rendered : (parse "t=gt=2016-12-31T23:59:60.123456789Z&sort(t)").map Node.render =
      .ok "and(gt(t,2016-12-31T23:59:60.123456Z),sort(+t))" := by decide +kernel
  refine ⟨rendered, ?_⟩
  obtain ⟨node, parsed, text⟩ := map_eq_ok.1 rendered
  have shallow : nesting node.render.toList ≤ defaultMaxDepth := by
    rw [text]
    exact tooDeepAt?_eq_none_iff.1 (by decide +kernel)
  exact text ▸ ofText_render parsed shallow

end ResourceQuery
