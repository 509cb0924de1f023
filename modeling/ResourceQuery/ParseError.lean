import ResourceQuery.Literal.TypeTag
import ResourceQuery.Operator
import ResourceQuery.Text.Span

/-!
# Parse errors

A query is refused for a `ParseFault` at a place. The place is given by a byte offset and by the
text that is at fault: for a fault of the grammar all that follows the offset, else the text of
the tree that cannot be resolved.
-/

namespace ResourceQuery
set_option autoImplicit false

/-- Why a query is refused. -/
inductive ParseFault
  /-- Nothing but blanks. -/
  | emptyQuery
  /-- More open parentheses than the limit. -/
  | tooDeep (limit : Nat)
  /-- No rule of the grammar goes on here. -/
  | malformed
  /-- A closing parenthesis is missing. -/
  | unclosed
  /-- A whole query ends before the text does. -/
  | leftover
  /-- A token stands where a condition or directive should. -/
  | tokenAsQuery (text : String)
  /-- A list stands where a condition or directive should. -/
  | listAsQuery
  /-- The operator of a shorthand compares nothing. -/
  | notComparison (op : Operator)
  | unknownOperator (name : String)
  | wrongArity (op : Operator) (given : Nat)
  | fieldExpected (op : Operator)
  | malformedField (reason : Percent.DecodeError)
  | emptyField
  | listAsValue (op : Operator)
  | queryAsValue (op : Operator)
  | malformedValue (reason : Percent.DecodeError)
  | conversion (reason : ConversionError)
  | sortKeyExpected
  | emptySortKey
  | limitExpected
  | notLimit (typeName : String)
  /-- A call inside of `aggregate` applies no aggregate function. -/
  | notAggregate (name : String)
  | aggregateExpected
deriving DecidableEq, Repr

/-- The wording of a fault. -/
def ParseFault.message : ParseFault → String
  | .emptyQuery => "empty query"
  | .tooDeep limit => s!"nesting deeper than {limit} levels"
  | .malformed => "malformed query"
  | .unclosed => "expected `)`"
  | .leftover => "unexpected input"
  | .tokenAsQuery text => s!"expected a query expression, found value '{text}'"
  | .listAsQuery => "expected a query expression, found a list"
  | .notComparison op => s!"'{op.name}' cannot be used as a shorthand comparison"
  | .unknownOperator name => s!"unknown operator '{name}'"
  | .wrongArity op given =>
    s!"operator '{op.name}' expects {op.arity.words}, got {given}"
  | .fieldExpected op => s!"'{op.name}' expects a field name here"
  | .malformedField reason => s!"malformed field name: {reason.message}"
  | .emptyField => "empty field name"
  | .listAsValue op => s!"'{op.name}' compares against a single value, not a list"
  | .queryAsValue op => s!"'{op.name}' expects a value, found a nested query"
  | .malformedValue reason => s!"malformed value: {reason.message}"
  | .conversion reason => reason.message
  | .sortKeyExpected => "'sort' expects +field or -field"
  | .emptySortKey => "sort key without a field name"
  | .limitExpected => "'limit' expects integer arguments"
  | .notLimit typeName => s!"'limit' expects a non-negative integer, got {typeName}"
  | .notAggregate name =>
    s!"'aggregate' accepts fields and sum/mean/max/min/count, not '{name}'"
  | .aggregateExpected => "'aggregate' accepts fields and sum/mean/max/min/count"

/-- A refused query. -/
structure ParseError where
  fault : ParseFault
  /-- The whole query. -/
  query : String
  /-- The byte position of the fault. -/
  offset : Nat
  /-- The text at fault, empty at the end of the query. -/
  fragment : String
deriving DecidableEq, Repr

namespace ParseError

/-- An error at a span of the query. A span that covers no text gives an empty fragment, and no
offset lies behind the end of the query. -/
def atSpan (query : String) (span : Span) (fault : ParseFault) : ParseError :=
  { fault, query
    offset := min span.start (Text.size query.toList)
    fragment := String.ofList ((Text.slice? span query.toList).getD []) }

/-- An error at all that follows an offset. -/
def atRemainder (query : String) (offset : Nat) (fault : ParseFault) : ParseError :=
  atSpan query ⟨offset, Text.size query.toList⟩ fault

/-- The wording of the fault alone. -/
def message (error : ParseError) : String :=
  error.fault.message

/-- The wording of the fault and its place. -/
def display (error : ParseError) : String :=
  if error.fragment = "" then s!"{error.message} (offset {error.offset}, end of input)"
  else s!"{error.message} (offset {error.offset}, near '{error.fragment}')"

end ParseError
end ResourceQuery
