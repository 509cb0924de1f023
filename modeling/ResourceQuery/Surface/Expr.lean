import ResourceQuery.Text.Span

/-!
# Surface trees

What the grammar makes of a query: tokens as they are written, shorthand comparisons in a form of
their own, and for everything the span it was read from.
-/

namespace ResourceQuery.Surface
set_option autoImplicit false

/-- A run of token characters, still encoded. -/
structure Token where
  text : String
  span : Span
deriving DecidableEq, Repr

/-- A surface tree. -/
inductive Expr
  /-- A token by itself. -/
  | token (word : Token)
  /-- Tokens in parentheses. -/
  | list (items : List Token) (span : Span)
  /-- A name with arguments in parentheses. -/
  | call (name : String) (args : List Expr) (span : Span)
  /-- A field, perhaps the name of a comparison, and a value. -/
  | compare (field : Token) (op : Option Token) (value : Expr) (span : Span)
  /-- Segments joined by `&`. -/
  | and (segments : List Expr) (span : Span)
  /-- Segments joined by `|`. -/
  | or (segments : List Expr) (span : Span)
deriving Repr

/-- The span a tree was read from. -/
def Expr.span : Expr → Span
  | .token word => word.span
  | .list _ span => span
  | .call _ _ span => span
  | .compare _ _ _ span => span
  | .and _ span => span
  | .or _ span => span

end ResourceQuery.Surface
