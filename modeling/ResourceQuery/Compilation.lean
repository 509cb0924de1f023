import ResourceQuery.DocumentQuery
import ResourceQuery.Compilation.Error

/-!
# From query trees to document queries

The root of a tree, or each argument of a root conjunction, is a directive, an aggregate function
or a predicate. Predicates make up the filter; directives and aggregate functions fill in the rest
of the document query, each at most once and not everywhere. Parts are taken from left to right
and the first fault ends the compilation.
-/

namespace ResourceQuery.Compilation
set_option autoImplicit false

/-- The outcome of compiling some part of a tree. -/
abbrev Compiled (α : Type) : Type := Except CompilationError α

/-- A tree that is not what should stand there. -/
def unexpected {α : Type} (op : Operator) (expected : Expectation) (found : Node) :
    Compiled α :=
  .error (.malformedNode (.operator op) (.unexpected expected found.kind))

/-! ## Fields -/

/-- The parts of a path between its dots. -/
def segments : List Char → List (List Char)
  | [] => [[]]
  | c :: cs =>
    if c = '.' then [] :: segments cs
    else
      match segments cs with
      | first :: others => (c :: first) :: others
      | [] => [[c]]

/-- Why a segment of a path cannot be used. -/
def segmentFault? : List Char → Option FieldFault
  | [] => some .emptySegment
  | c :: _ => if c = '$' then some .reservedSegment else none

/-- Why a path cannot be used as a field of a document. -/
def pathFault? (path : String) : Option FieldFault :=
  if path = "" then some .emptyPath
  else if path.toList.contains '\x00' then some .nul
  else (segments path.toList).findSome? segmentFault?

/-- A path that can be used as a field of a document. -/
def checkedPath (path : String) : Compiled String :=
  match pathFault? path with
  | some fault => .error (.unsupportedField path fault)
  | none => .ok path

/-- The path of an argument that must be a field. -/
def fieldArgument (op : Operator) : Node → Compiled String
  | .field path => checkedPath path
  | other => unexpected op .field other

/-! ## Predicates -/

/-- Dates in a filter have milliseconds. -/
def datePlaces : Nat := 3

/-- A literal as a JSON value. -/
def literal (op : Operator) : Literal → Compiled Json
  | .integer n => .ok (.integer n.toInt)
  | .float x =>
    if x.isFinite then .ok (.float x)
    else .error (.malformedNode (.operator op) (.notFinite x))
  | .boolean b => .ok (.boolean b)
  | .null => .ok .null
  | .string text => .ok (.string text)
  | .date moment =>
    .ok (.object (Json.single "$date" (.string (String.ofList (moment.writeIso datePlaces)))))

/-- The store's operator for a comparison; equality has none. -/
def storeOperator? : Operator → Option String
  | .ne => some "$ne"
  | .lt => some "$lt"
  | .le => some "$lte"
  | .gt => some "$gt"
  | .ge => some "$gte"
  | .in => some "$in"
  | .contains => some "$all"
  | .excludes => some "$nin"
  | _ => none

/-- A value under the store's operator for a comparison, or by itself. -/
def condition (op : Operator) (value : Json) : Json :=
  match storeOperator? op with
  | some name => .object (Json.single name value)
  | none => value

/-- The value a field is compared with. Where a list is wanted, a single value counts as a list of
one. -/
def operand (op : Operator) (value : Node) : Compiled Json :=
  if op.takesList then
    match value with
    | .array items => return .array (← items.mapM (literal op))
    | .literal item => return .array [← literal op item]
    | other => unexpected op .valueOrList other
  else
    match value with
    | .literal item => literal op item
    | other => unexpected op .singleValue other

/-- A comparison as a filter. -/
def comparison (op : Operator) : List Node → Compiled Document
  | [field, value] => do
    let path ← fieldArgument op field
    let value ← operand op value
    return Json.single path (condition op value)
  | args => .error (.malformedNode (.operator op) (.notFieldAndValue args.length))

/-- Filters joined by an operator of the store. -/
def joined (name : String) (filters : List Document) : Document :=
  Json.single name (.array (filters.map .object))

mutual

/-- A condition as a filter. -/
def predicate : Node → Compiled Document
  | .apply .and args =>
    if args.isEmpty then .error (.emptyArguments .and)
    else return joined "$and" (← predicates args)
  | .apply .or args =>
    if args.isEmpty then .error (.emptyArguments .or)
    else return joined "$or" (← predicates args)
  | .apply .not [] => .error (.emptyArguments .not)
  | .apply .not [child] => return joined "$nor" [← predicate child]
  | .apply .not (first :: second :: others) =>
    .error (.malformedNode (.operator .not) (.notOneArgument (first :: second :: others).length))
  | .apply op args =>
    match op.role with
    | .directive => .error (.unsupportedOperator op .nestedDirective)
    | .aggregate => .error (.unsupportedOperator op .nestedAggregate)
    | _ => comparison op args
  | other => .error (.malformedNode .filter (.unexpected .predicate other.kind))

/-- Conditions as filters. -/
def predicates : List Node → Compiled (List Document)
  | [] => .ok []
  | node :: nodes => do
    let filter ← predicate node
    let filters ← predicates nodes
    return filter :: filters

end

/-! ## Directives -/

/-- A sort key behind earlier ones. -/
def addSortKey (sort : Fields Int) : Node → Compiled (Fields Int)
  | .sortKey path direction => do
    let path ← checkedPath path
    if (sort.get? path).isSome then throw (.unsupportedField path .sortedTwice)
    else
      return sort.insert path <|
        match direction with
        | .ascending => 1
        | .descending => -1
  | other => unexpected .sort .sortKey other

/-- A count of documents. -/
def countArgument (op : Operator) : Node → Compiled Nat
  | .literal (.integer n) =>
    if 0 ≤ n then .ok n.toInt.toNat
    else .error (.malformedNode (.operator op) (.negative n.toInt))
  | other => unexpected op .limit other

/-- The accumulator of an aggregate function of a field. -/
def foldOf? : Operator → Option Fold
  | .sum => some .sum
  | .mean => some .mean
  | .max => some .max
  | .min => some .min
  | _ => none

/-- An aggregate function with its arguments. -/
def accumulator (op : Operator) (args : List Node) : Compiled Accumulator :=
  match foldOf? op, args with
  | none, [] => .ok .count
  | none, _ => .error (.malformedNode (.operator op) .takesNoArguments)
  | some function, [field] => return .fold function (← fieldArgument op field)
  | some _, [] => .error (.emptyArguments op)
  | some _, _ => .error (.malformedNode (.operator op) (.notOneArgument args.length))

/-- An accumulator beside earlier ones. The same one twice is a duplicate; another one may not have
the same output name. -/
def accumulate (aggregation : Aggregation) (op : Operator) (args : List Node) :
    Compiled Aggregation := do
  let added ← accumulator op args
  match aggregation.accumulators.get? added.resultName with
  | none =>
    return { aggregation with
      accumulators := aggregation.accumulators.insert added.resultName added }
  | some existing =>
    if existing = added then throw (.duplicateDirective op)
    else
      throw (.unsupportedField (added.field?.getD "")
        (.resultNameTaken added.resultName (existing.field?.getD "")))

/-- A group key behind earlier ones, none of which may have the same output name. -/
def addGroupKey (aggregation : Aggregation) (path : String) : Compiled Aggregation := do
  let path ← checkedPath path
  match aggregation.groupBy.find? fun other => flatName other == flatName path with
  | some other => throw (.unsupportedField path (.groupKeyTaken (flatName path) other))
  | none => return { aggregation with groupBy := aggregation.groupBy ++ [path] }

/-- An argument of `aggregate` behind earlier ones. -/
def addAggregateArgument (aggregation : Aggregation) : Node → Compiled Aggregation
  | .field path => addGroupKey aggregation path
  | .apply op args =>
    if op.role = .aggregate then accumulate aggregation op args
    else unexpected .aggregate .fieldOrAggregate (.apply op args)
  | other => unexpected .aggregate .fieldOrAggregate other

/-! ## Whole queries -/

/-- A document query in the making. -/
structure Draft where
  /-- The result options so far. -/
  query : DocumentQuery
  /-- The predicates so far. -/
  predicates : List Document
  /-- An `aggregate` was among the parts, so no aggregate function may follow by itself. -/
  aggregated : Bool
deriving DecidableEq, Repr

namespace Draft

/-- Nothing yet. -/
def empty : Draft := ⟨.matchAll, [], false⟩

/-- Takes a `sort`. -/
def addSort (draft : Draft) (args : List Node) : Compiled Draft := do
  if !draft.query.sort.isEmpty then throw (.duplicateDirective .sort)
  if args.isEmpty then throw (.emptyArguments .sort)
  let sort ← args.foldlM addSortKey []
  return { draft with query := { draft.query with sort } }

/-- Takes a `select` or `values`. -/
def addProjection (draft : Draft) (op : Operator) (args : List Node) : Compiled Draft := do
  if draft.query.projection.isSome then throw (.duplicateDirective op)
  if draft.query.aggregation.isSome then
    throw (.unsupportedOperator op .projectionWithAggregation)
  if args.isEmpty then throw (.emptyArguments op)
  let fields ← args.mapM (fieldArgument op)
  return { draft with
    query := { draft.query with projection := some ⟨fields, op == .values⟩ } }

/-- Takes a `limit`. -/
def addLimit (draft : Draft) (args : List Node) : Compiled Draft := do
  if draft.query.limit.isSome then throw (.duplicateDirective .limit)
  match args with
  | [] => throw (.emptyArguments .limit)
  | [count] =>
    let limit ← countArgument .limit count
    return { draft with query := { draft.query with limit := some limit } }
  | [count, start] =>
    let limit ← countArgument .limit count
    let skip ← countArgument .limit start
    return { draft with query := { draft.query with limit := some limit, skip := some skip } }
  | _ => throw (.malformedNode (.operator .limit) (.notOneOrTwoArguments args.length))

/-- Takes a `distinct`. -/
def addDistinct (draft : Draft) (args : List Node) : Compiled Draft := do
  if draft.query.distinct then throw (.duplicateDirective .distinct)
  if !args.isEmpty then throw (.malformedNode (.operator .distinct) .takesNoArguments)
  return { draft with query := { draft.query with distinct := true } }

/-- Takes an `aggregate`. -/
def addAggregate (draft : Draft) (args : List Node) : Compiled Draft := do
  if draft.query.aggregation.isSome then throw (.duplicateDirective .aggregate)
  if draft.query.projection.isSome then
    throw (.unsupportedOperator .aggregate .projectionWithAggregation)
  if args.isEmpty then throw (.emptyArguments .aggregate)
  let aggregation ← args.foldlM addAggregateArgument .empty
  return { draft with
    query := { draft.query with aggregation := some aggregation }, aggregated := true }

/-- Takes an aggregate function that stands by itself. -/
def addFunction (draft : Draft) (op : Operator) (args : List Node) : Compiled Draft := do
  if draft.aggregated then throw (.duplicateDirective op)
  if draft.query.projection.isSome then
    throw (.unsupportedOperator op .projectionWithAggregation)
  let aggregation ← accumulate (draft.query.aggregation.getD .empty) op args
  return { draft with query := { draft.query with aggregation := some aggregation } }

/-- Takes a predicate. -/
def addPredicate (draft : Draft) (node : Node) : Compiled Draft := do
  let filter ← predicate node
  return { draft with predicates := draft.predicates ++ [filter] }

/-- Takes one part of a query. -/
def add (draft : Draft) (node : Node) : Compiled Draft :=
  match node with
  | .apply .sort args => draft.addSort args
  | .apply .select args => draft.addProjection .select args
  | .apply .values args => draft.addProjection .values args
  | .apply .limit args => draft.addLimit args
  | .apply .distinct args => draft.addDistinct args
  | .apply .aggregate args => draft.addAggregate args
  | .apply op args =>
    if op.role = .aggregate then draft.addFunction op args else draft.addPredicate node
  | _ => draft.addPredicate node

/-- All predicates as one filter. -/
def filter (draft : Draft) : Document :=
  match draft.predicates with
  | [] => []
  | [only] => only
  | several => joined "$and" several

/-- The finished query. -/
def finish (draft : Draft) : DocumentQuery :=
  { draft.query with filter := draft.filter }

end Draft

/-- The parts of a query: the arguments of a root conjunction, or the root itself. -/
def parts : Node → Compiled (List Node)
  | .apply .and [] => .error (.emptyArguments .and)
  | .apply .and args => .ok args
  | .apply op args => .ok [.apply op args]
  | other => .error (.malformedNode .query (.unexpected .rootOperator other.kind))

/-- The document query of a tree. -/
def compile (node : Node) : Compiled DocumentQuery := do
  let draft ← (← parts node).foldlM Draft.add .empty
  return draft.finish

end ResourceQuery.Compilation
