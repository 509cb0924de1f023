import ResourceQuery.ParseError
import ResourceQuery.Surface.Expr
import ResourceQuery.Surface.Parser

/-!
# The grammar of queries

A query is a disjunction of conjunctions of terms; a term is a group in parentheses, a call, or a
shorthand comparison. The rules are ordered: the first alternative that reads something is taken.
`parse` bounds the nesting of parentheses before it reads anything.
-/

namespace ResourceQuery.Surface
set_option autoImplicit false
open Text

namespace Grammar
open Surface.Parser

/-! ## Tokens -/

/-- A character of the syntax itself. -/
def isDelimiter (c : Char) : Bool :=
  c == '&' || c == '|' || c == '=' || c == '(' || c == ')' || c == ','

/-- A character a token may hold. -/
def continuesToken (c : Char) : Bool :=
  !isDelimiter c && !isBlank c

/-- A character the name of a call may start with. -/
def opensName (c : Char) : Bool :=
  c.isAlpha || c == '_'

/-- A character the name of a call may go on with. -/
def continuesName (c : Char) : Bool :=
  c.isAlphanum || c == '_'

/-- The name of a call. -/
def name : Parser String := do
  return String.ofList (← word opensName continuesName)

/-- A run of token characters. -/
def token : Parser Token := do
  let (text, span) ← located (word continuesToken continuesToken)
  return ⟨String.ofList text, span⟩

/-- Tokens in parentheses. -/
def list : Parser Expr := do
  let (items, span) ← located do
    symbol '('
    spacing
    let items ← separatedOrNone ',' token
    spacing
    symbol ')'
    return items
  return .list items span

/-! ## Shorthand comparisons -/

/-- A token, or an empty one where there is none. -/
def optionalToken : Parser Token := do
  let (found, span) ← located (optional token)
  return found.getD ⟨"", span⟩

/-- The value of a comparison. -/
def value : Parser Expr :=
  orElse list (Expr.token <$> optionalToken)

/-- The name of a comparison, if a second `=` follows it. -/
def comparisonName : Parser (Option Token) :=
  optional do
    let op ← token
    delimiter '='
    return op

/-- `field=value` or `field=op=value`. -/
def comparison : Parser Expr := do
  let ((field, op, value), span) ← located do
    let field ← token
    delimiter '='
    let op ← comparisonName
    let value ← value
    return (field, op, value)
  return .compare field op value span

/-! ## Nested parts -/

/-- What may stand inside of parentheses: a whole query in a group, an argument in a call. -/
structure Nested where
  query : Parser Expr
  argument : Parser Expr

/-- A query in parentheses. -/
def group (nested : Nested) : Parser Expr := do
  symbol '('
  spacing
  let inside ← nested.query
  spacing
  committed (symbol ')')
  return inside

/-- A name and arguments in parentheses right behind it. Once the parenthesis is open nothing but
a call can follow. -/
def call (nested : Nested) : Parser Expr := do
  let ((name, args), span) ← located do
    let name ← name
    symbol '('
    let args ← committed do
      spacing
      let args ← separatedOrNone ',' nested.argument
      spacing
      symbol ')'
      return args
    return (name, args)
  return .call name args span

/-- A group, a call or a comparison. -/
def term (nested : Nested) : Parser Expr :=
  orElse (group nested) (orElse (call nested) comparison)

/-- One segment by itself, or several of them joined. -/
def join (wrap : List Expr → Span → Expr) (span : Span) : List Expr → Expr
  | [only] => only
  | segments => wrap segments span

/-- Terms joined by `&`. -/
def conjunction (nested : Nested) : Parser Expr := do
  let (segments, span) ← located (separated '&' (term nested))
  return join .and span segments

/-- Conjunctions joined by `|`. -/
def disjunction (nested : Nested) : Parser Expr := do
  let (segments, span) ← located (separated '|' (conjunction nested))
  return join .or span segments

/-- An argument of a call. -/
def argument (nested : Nested) : Parser Expr :=
  orElse (call nested) (orElse comparison (orElse (group nested)
    (orElse list (Expr.token <$> token))))

/-- What may stand inside of parentheses that can be nested so many levels deep. -/
def nested : Nat → Nested
  | 0 => ⟨fun cursor => .missed cursor, fun cursor => .missed cursor⟩
  | levels + 1 => ⟨disjunction (nested levels), argument (nested levels)⟩

/-- A query and the blanks around it. Each level of nesting takes a parenthesis, so their number
bounds the levels. -/
def whole (query : List Char) : Parser Expr := do
  spacing
  let expr ← (nested (query.count '(' + 1)).query
  spacing
  return expr

end Grammar

/-- The position of the first parenthesis that opens more levels than the limit, if there is one.
A closing parenthesis without an open one counts for nothing. -/
def tooDeepAt? (limit : Nat) : (depth offset : Nat) → List Char → Option Nat
  | _, _, [] => none
  | depth, offset, c :: cs =>
    if c = '(' then
      if limit ≤ depth then some offset else tooDeepAt? limit (depth + 1) (offset + c.utf8Size) cs
    else if c = ')' then tooDeepAt? limit (depth - 1) (offset + c.utf8Size) cs
    else tooDeepAt? limit depth (offset + c.utf8Size) cs

/-- The nesting that is accepted where nothing else is said. -/
def defaultMaxDepth : Nat := 64

/-- The surface tree of a query. -/
def parse (query : String) (maxDepth : Nat) : Except ParseError Expr :=
  let cs := query.toList
  if allBlank query then .error (.atRemainder query 0 .emptyQuery)
  else
    match tooDeepAt? maxDepth 0 0 cs with
    | some offset => .error (.atRemainder query offset (.tooDeep maxDepth))
    | none =>
      match Grammar.whole cs ⟨0, cs⟩ with
      | .found expr next =>
        if next.rest.isEmpty then .ok expr
        else .error (.atRemainder query next.offset .leftover)
      | .missed place => .error (.atRemainder query place.offset .malformed)
      | .unclosed place => .error (.atRemainder query place.offset .unclosed)

end ResourceQuery.Surface
