import ResourceQuery.Node.Rendering

/-!
# Compilation errors

A query tree is refused because an operator or a field cannot be used where it is, because a
directive has no arguments or is given twice, or because the tree is no query at all.
-/

namespace ResourceQuery
set_option autoImplicit false

/-- What a tree is, as error messages give it. -/
inductive NodeKind
  | operator (op : Operator)
  | literal (typeName : String)
  | list
  | field (path : String)
  | sortKey
deriving DecidableEq, Repr

/-- What a tree is, in words. -/
def NodeKind.words : NodeKind → String
  | .operator op => s!"operator '{op.name}'"
  | .literal typeName => s!"{typeName} literal"
  | .list => "list"
  | .field path => s!"field '{path}'"
  | .sortKey => "sort key"

/-- What a tree is. -/
def Node.kind : Node → NodeKind
  | .apply op _ => .operator op
  | .literal value => .literal value.typeName
  | .array _ => .list
  | .field path => .field path
  | .sortKey .. => .sortKey

/-- Why an operator cannot be used where it is. -/
inductive OperatorFault
  /-- A directive inside of a condition. -/
  | nestedDirective
  /-- An aggregate function inside of a condition. -/
  | nestedAggregate
  /-- Groups no longer have the fields that a projection names. -/
  | projectionWithAggregation
deriving DecidableEq, Repr

/-- The wording of an operator fault. -/
def OperatorFault.message : OperatorFault → String
  | .nestedDirective => "directives are only allowed at the top level of a query"
  | .nestedAggregate =>
    "aggregate functions are only allowed at the top level or inside aggregate()"
  | .projectionWithAggregation => "projection cannot be combined with aggregation"

/-- Why a field cannot be used where it is. -/
inductive FieldFault
  | emptyPath
  | nul
  | emptySegment
  /-- A part of the path would read as an operator of the store. -/
  | reservedSegment
  | sortedTwice
  /-- Two group keys have the same output name. -/
  | groupKeyTaken (key other : String)
  /-- Two accumulators have the same output name. -/
  | resultNameTaken (name other : String)
deriving DecidableEq, Repr

/-- The wording of a field fault. -/
def FieldFault.message : FieldFault → String
  | .emptyPath => "empty field path"
  | .nul => "contains a NUL character"
  | .emptySegment => "empty path segment"
  | .reservedSegment => "path segments may not start with '$'"
  | .sortedTwice => "sorted more than once"
  | .groupKeyTaken key other => s!"group key '{key}' collides with '{other}'"
  | .resultNameTaken name other => s!"output name '{name}' collides with '{other}'"

/-- What should have stood where something else was found. -/
inductive Expectation
  | rootOperator
  | predicate
  | field
  | singleValue
  | valueOrList
  | sortKey
  | limit
  | fieldOrAggregate
deriving DecidableEq, Repr

/-- What should have stood there, in words. -/
def Expectation.words : Expectation → String
  | .rootOperator => "an operator at the root"
  | .predicate => "a predicate"
  | .field => "a field"
  | .singleValue => "a single value"
  | .valueOrList => "a value or list"
  | .sortKey => "a sort key"
  | .limit => "a non-negative integer"
  | .fieldOrAggregate => "a field or aggregate function"

/-- Why a tree is no query. -/
inductive ShapeFault
  | unexpected (expected : Expectation) (found : NodeKind)
  | notOneArgument (given : Nat)
  | notOneOrTwoArguments (given : Nat)
  | notFieldAndValue (given : Nat)
  | takesNoArguments
  | notFinite (x : Binary64)
  | negative (n : Int)
deriving DecidableEq, Repr

/-- The wording of a shape fault. -/
def ShapeFault.message : ShapeFault → String
  | .unexpected expected found => s!"expected {expected.words}, found {found.words}"
  | .notOneArgument given => s!"expected 1 argument, got {given}"
  | .notOneOrTwoArguments given => s!"expected 1 or 2 arguments, got {given}"
  | .notFieldAndValue given => s!"expected a field and a value, got {given} arguments"
  | .takesNoArguments => "takes no arguments"
  | .notFinite x => String.ofList (Literal.floatLayout.write x) ++ " is not a finite number"
  | .negative n => String.ofList (Numeral.writeInteger n) ++ " is negative"

/-- The part of a query that a shape fault is about. -/
inductive QueryPart
  | query
  | filter
  | operator (op : Operator)
deriving DecidableEq, Repr

/-- The name of the part in error messages. -/
def QueryPart.name : QueryPart → String
  | .query => "query"
  | .filter => "filter"
  | .operator op => op.name

/-- Why a tree is not compiled. -/
inductive CompilationError
  | unsupportedOperator (op : Operator) (fault : OperatorFault)
  | unsupportedField (path : String) (fault : FieldFault)
  | emptyArguments (op : Operator)
  | duplicateDirective (op : Operator)
  | malformedNode (part : QueryPart) (fault : ShapeFault)
deriving DecidableEq, Repr

namespace CompilationError

/-- The name of the operator, field or part the error is about. -/
def subject : CompilationError → String
  | .unsupportedOperator op _ => op.name
  | .unsupportedField path _ => path
  | .emptyArguments op => op.name
  | .duplicateDirective op => op.name
  | .malformedNode part _ => part.name

/-- The wording of the error. -/
def message : CompilationError → String
  | .unsupportedOperator op fault => s!"unsupported operator '{op.name}': {fault.message}"
  | .unsupportedField path fault => s!"unsupported field '{path}': {fault.message}"
  | .emptyArguments op => s!"'{op.name}' requires at least one argument"
  | .duplicateDirective op => s!"'{op.name}' given more than once"
  | .malformedNode part fault => s!"malformed '{part.name}' node: {fault.message}"

end CompilationError
end ResourceQuery
