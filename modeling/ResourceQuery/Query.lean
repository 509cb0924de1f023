import ResourceQuery.Node.Normal
import ResourceQuery.Resolution
import ResourceQuery.Compilation

/-!
# Queries

From the text of a query to its tree, and from there to a document query. A blank text is no query
to `parse`, but it asks for every document.
-/

namespace ResourceQuery
set_option autoImplicit false

/-- Why a text gives no document query. -/
inductive QueryError
  | parse (error : ParseError)
  | compilation (error : CompilationError)
deriving DecidableEq, Repr

namespace QueryError

/-- The wording of the error that lies beneath. -/
def cause : QueryError → String
  | .parse error => error.display
  | .compilation error => error.message

/-- The wording of the error, which names the stage that failed. -/
def message : QueryError → String
  | .parse error => s!"Parse error: {error.display}"
  | .compilation error => s!"Translation error: {error.message}"

end QueryError

/-- The query tree of a text with a bounded nesting of parentheses. -/
def parseWithin (maxDepth : Nat) (query : String) : Except ParseError Node := do
  Resolution.resolve query (← Surface.parse query maxDepth)

/-- The query tree of a text. -/
def parse (query : String) : Except ParseError Node :=
  parseWithin Surface.defaultMaxDepth query

/-- The tree as it is after normalization, if that is wanted. -/
def Node.normalizeIf (wanted : Bool) (node : Node) : Node :=
  if wanted then node.normalize else node

/-- The document query of a text. -/
def DocumentQuery.ofText (query : String) : Except QueryError DocumentQuery :=
  if Text.allBlank query then .ok .matchAll
  else
    match parse query with
    | .error error => .error (.parse error)
    | .ok node =>
      match Compilation.compile node.normalize with
      | .error error => .error (.compilation error)
      | .ok compiled => .ok compiled

end ResourceQuery
