import ResourceQuery.Node
import ResourceQuery.Surface.Grammar

/-!
# From surface trees to query trees

Resolution looks up operators, checks how many arguments and of what kind they get, decodes tokens
and gives literals their types. Arguments are resolved from left to right, and the first fault is
reported at the part of the query it was found in.
-/

namespace ResourceQuery.Resolution
set_option autoImplicit false
open Surface

/-- The outcome of resolving some part of a query. -/
abbrev Resolved (α : Type) : Type := Except ParseError α

/-- A fault at a span of the query. -/
def refuse {α : Type} (query : String) (span : Span) (fault : ParseFault) : Resolved α :=
  .error (.atSpan query span fault)

/-! ## Tokens -/

/-- A field path. -/
def field (query : String) (token : Token) : Resolved Node :=
  match Percent.decode false token.text with
  | .error reason => refuse query token.span (.malformedField reason)
  | .ok path => if path = "" then refuse query token.span .emptyField else .ok (.field path)

/-- A literal. A tag is split off before anything is decoded, so that an encoded colon belongs
to the text. -/
def literal (query : String) (plusAsSpace : Bool) (token : Token) : Resolved Literal :=
  match TypeTag.split? token.text with
  | some (tag, rest) =>
    match Percent.decode plusAsSpace rest with
    | .error reason => refuse query token.span (.malformedValue reason)
    | .ok text =>
      match tag.read text with
      | .ok found => .ok found
      | .error reason => refuse query token.span (.conversion reason)
  | none =>
    match Percent.decode plusAsSpace token.text with
    | .error reason => refuse query token.span (.malformedValue reason)
    | .ok text => .ok (Literal.infer text)

/-- The direction that the sign of a sort key asks for, and the rest of the key. -/
def directionOf : List Char → Direction × List Char
  | '-' :: cs => (.descending, cs)
  | '+' :: cs => (.ascending, cs)
  | cs => (.ascending, cs)

/-! ## Arguments -/

/-- An argument that must be a field. -/
def fieldArgument (query : String) (op : Operator) : Expr → Resolved Node
  | .token token => field query token
  | other => refuse query other.span (.fieldExpected op)

/-- The value of a comparison. A single value of `in` counts as a list of one. -/
def operand (query : String) (op : Operator) (plusAsSpace : Bool) (whole : Span) :
    Expr → Resolved Node
  | .token token => do
    let value ← literal query plusAsSpace token
    return if op = .in then .array [value] else .literal value
  | .list items span =>
    if op.takesList then do
      return .array (← items.mapM (literal query plusAsSpace))
    else refuse query span (.listAsValue op)
  | other =>
    refuse query (if other.span.isEmpty then whole else other.span) (.queryAsValue op)

/-- A sort key. -/
def sortKeyArgument (query : String) : Expr → Resolved Node
  | .token token =>
    let (direction, path) := directionOf token.text.toList
    match Percent.decodeChars false path with
    | .error reason => refuse query token.span (.malformedField reason)
    | .ok path =>
      if path.isEmpty then refuse query token.span .emptySortKey
      else .ok (.sortKey (String.ofList path) direction)
  | other => refuse query other.span .sortKeyExpected

/-- A count of documents. -/
def limitArgument (query : String) : Expr → Resolved Node
  | .token token => do
    match ← literal query false token with
    | .integer n =>
      if 0 ≤ n then return .literal (.integer n)
      else refuse query token.span (.notLimit (Literal.integer n).typeName)
    | other => refuse query token.span (.notLimit other.typeName)
  | other => refuse query other.span .limitExpected

/-- The number of arguments must fit the operator. -/
def checkArity (query : String) (span : Span) (op : Operator) (given : Nat) : Resolved Unit :=
  if op.arity.admits given then .ok () else refuse query span (.wrongArity op given)

/-- A call of an aggregate function. -/
def aggregateCall (query : String) (op : Operator) (args : List Expr) (span : Span) :
    Resolved Node := do
  checkArity query span op args.length
  return .apply op (← args.mapM (fieldArgument query op))

/-- An argument of `aggregate`: a field or an aggregate function. -/
def aggregateArgument (query : String) : Expr → Resolved Node
  | .token token => field query token
  | .call name args span =>
    match Operator.ofName? name with
    | some op =>
      if op.role = .aggregate then aggregateCall query op args span
      else refuse query span (.notAggregate name)
    | none => refuse query span (.notAggregate name)
  | other => refuse query other.span .aggregateExpected

/-- The arguments of a comparison: a field and a value. -/
def comparisonArguments (query : String) (op : Operator) (span : Span) :
    List Expr → Resolved (List Node)
  | first :: second :: _ => do
    let path ← fieldArgument query op first
    let value ← operand query op false span second
    return [path, value]
  | _ => .ok []

/-- The arguments of an operator that combines no conditions. -/
def plainArguments (query : String) (op : Operator) (args : List Expr) (span : Span) :
    Resolved (List Node) :=
  match op with
  | .sort => args.mapM (sortKeyArgument query)
  | .limit => args.mapM (limitArgument query)
  | .aggregate => args.mapM (aggregateArgument query)
  | .distinct => .ok []
  | _ =>
    match op.role with
    | .comparison => comparisonArguments query op span args
    | _ => args.mapM (fieldArgument query op)

/-! ## Queries -/

/-- The operator of a shorthand comparison, which is `eq` if none is named. -/
def shorthandOperator (query : String) : Option Token → Resolved Operator
  | none => .ok .eq
  | some token =>
    match Operator.ofName? token.text with
    | some op =>
      if op.role = .comparison then .ok op else refuse query token.span (.notComparison op)
    | none => refuse query token.span (.unknownOperator token.text)

/-- A shorthand comparison. In its value `+` stands for a space. -/
def shorthand (query : String) (path : Token) (op : Option Token) (value : Expr) (span : Span) :
    Resolved Node := do
  let op ← shorthandOperator query op
  let path ← field query path
  let value ← operand query op true span value
  return .apply op [path, value]

mutual

/-- A tree that stands on its own: a call, a comparison or joined segments. -/
def resolve (query : String) : Expr → Resolved Node
  | .call name args span =>
    match Operator.ofName? name with
    | none => refuse query span (.unknownOperator name)
    | some op => do
      checkArity query span op args.length
      match op.role with
      | .boolean => return .apply op (← resolveAll query args)
      | _ => return .apply op (← plainArguments query op args span)
  | .compare path op value span => shorthand query path op value span
  | .and segments _ => do return .apply .and (← resolveAll query segments)
  | .or segments _ => do return .apply .or (← resolveAll query segments)
  | .token token => refuse query token.span (.tokenAsQuery token.text)
  | .list _ span => refuse query span .listAsQuery

/-- Trees that each stand on their own. -/
def resolveAll (query : String) : List Expr → Resolved (List Node)
  | [] => .ok []
  | expr :: exprs => do
    let node ← resolve query expr
    let nodes ← resolveAll query exprs
    return node :: nodes

end

end ResourceQuery.Resolution
