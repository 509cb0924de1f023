import ResourceQuery.Json

/-!
# Document-store queries

A document query is a filter together with what shapes the result: sorting, projection, paging,
distinctness and aggregation.
-/

namespace ResourceQuery
set_option autoImplicit false

/-- The fields a result keeps. -/
structure Projection where
  fields : List String
  /-- Bare values are wanted instead of documents. -/
  valuesOnly : Bool
deriving DecidableEq, Repr

/-- A function that aggregates the values of a field. -/
inductive Fold
  | sum
  | mean
  | max
  | min
deriving DecidableEq, Repr

/-- What is computed for a group of documents. -/
inductive Accumulator
  /-- A function of the values of a field. -/
  | fold (function : Fold) (field : String)
  /-- The number of documents. -/
  | count
deriving DecidableEq, Repr

/-- How documents are grouped, and what is computed for each group. -/
structure Aggregation where
  /-- The fields that tell groups apart. If there are none, all documents are one group. -/
  groupBy : List String
  /-- What is computed, under the names of the output. -/
  accumulators : Fields Accumulator
deriving DecidableEq, Repr

/-- A query of a document store. -/
structure DocumentQuery where
  /-- Which documents are wanted, all of them if it is empty. -/
  filter : Document := []
  /-- Fields to sort by, 1 for ascending and -1 for descending. -/
  sort : Fields Int := []
  projection : Option Projection := none
  limit : Option Nat := none
  skip : Option Nat := none
  distinct : Bool := false
  aggregation : Option Aggregation := none
deriving DecidableEq, Repr

/-- A field path as an output name, which may hold no dots. -/
def flatName (path : String) : String :=
  String.ofList (path.toList.map fun c => if c = '.' then '_' else c)

namespace Fold

/-- The name of the function in a query. -/
def name : Fold → String
  | .sum => "sum"
  | .mean => "mean"
  | .max => "max"
  | .min => "min"

/-- The store's operator for the function. -/
def storeOperator : Fold → String
  | .sum => "$sum"
  | .mean => "$avg"
  | .max => "$max"
  | .min => "$min"

end Fold

namespace Accumulator

/-- The output name: `sum_price`, `mean_user_age`, `count`. -/
def resultName : Accumulator → String
  | .fold function field => function.name ++ "_" ++ flatName field
  | .count => "count"

/-- The field whose values are aggregated. -/
def field? : Accumulator → Option String
  | .fold _ field => some field
  | .count => none

/-- A field path as the store refers to its value. -/
def reference (path : String) : Json :=
  .string ("$" ++ path)

/-- The accumulator in a group stage. -/
def expression : Accumulator → Json
  | .fold function field => .object (Json.single function.storeOperator (reference field))
  | .count => .object (Json.single "$sum" (.integer 1))

/-- The accumulator in the query itself. -/
def toJson : Accumulator → Json
  | .fold function field => .object [("op", .string function.name), ("field", .string field)]
  | .count => .object [("op", .string "count")]

end Accumulator

namespace Aggregation

/-- No group keys and nothing to compute. -/
def empty : Aggregation := ⟨[], []⟩

/-- The identity of a group: null if there are no keys, else its keys and their values. -/
def groupId (aggregation : Aggregation) : Json :=
  if aggregation.groupBy.isEmpty then .null
  else
    .object (Fields.ofList
      (aggregation.groupBy.map fun path => (flatName path, Accumulator.reference path)))

/-- The body of the group stage. -/
def body (aggregation : Aggregation) : Document :=
  Fields.ofList (("_id", aggregation.groupId) ::
    aggregation.accumulators.map fun (name, accumulator) => (name, accumulator.expression))

/-- The aggregation in the query itself. -/
def toJson (aggregation : Aggregation) : Json :=
  .object
    [("group_by", .array (aggregation.groupBy.map .string)),
     ("accumulators", .object
       (aggregation.accumulators.map fun (name, accumulator) => (name, accumulator.toJson)))]

end Aggregation

namespace Projection

/-- The body of the projection stage: the kept fields, and without `_id` unless it is one of
them. -/
def body (projection : Projection) : Document :=
  let kept : Document := Fields.ofList (projection.fields.map fun field => (field, .integer 1))
  if projection.fields.contains "_id" then kept else kept.insert "_id" (.integer 0)

/-- The projection in the query itself. -/
def toJson (projection : Projection) : Json :=
  .object (("fields", .array (projection.fields.map .string)) ::
    if projection.valuesOnly then [("values_only", .boolean true)] else [])

end Projection

namespace DocumentQuery

/-- The query that wants every document as it is. -/
def matchAll : DocumentQuery := {}

/-- The query neither filters nor shapes its result. -/
def isTrivial (query : DocumentQuery) : Bool :=
  query == matchAll

/-- The body of the projection stage, if there is a projection. -/
def projectionBody (query : DocumentQuery) : Option Document :=
  query.projection.map Projection.body

/-- The body of the sort stage. -/
def sortBody (query : DocumentQuery) : Document :=
  query.sort.map fun (field, order) => (field, .integer order)

/-- A stage of a pipeline. -/
def stage (name : String) (body : Json) : Json :=
  .object (Json.single name body)

/-- The stages that keep one of several equal documents. -/
def distinctStages : List Json :=
  [stage "$group" (.object (Json.single "_id" (.string "$$ROOT"))),
   stage "$replaceRoot" (.object (Json.single "newRoot" (.string "$_id")))]

/-- The query as an aggregation pipeline. -/
def pipeline (query : DocumentQuery) : List Json :=
  (if query.filter.isEmpty then [] else [stage "$match" (.object query.filter)]) ++
  (query.aggregation.map fun aggregation =>
    stage "$group" (.object aggregation.body)).toList ++
  (if query.sort.isEmpty then [] else [stage "$sort" (.object query.sortBody)]) ++
  (query.skip.map fun n => stage "$skip" (Json.count n)).toList ++
  (query.limit.map fun n => stage "$limit" (Json.count n)).toList ++
  (query.projectionBody.map fun body => stage "$project" (.object body)).toList ++
  (if query.distinct then distinctStages else [])

/-- The query as a JSON value. Only the filter is always written. -/
def toJson (query : DocumentQuery) : Json :=
  .object (("filter", .object query.filter) ::
    ((if query.sort.isEmpty then [] else [("sort", .object query.sortBody)]) ++
    (query.projection.map fun projection => ("projection", projection.toJson)).toList ++
    (query.limit.map fun n => ("limit", Json.count n)).toList ++
    (query.skip.map fun n => ("skip", Json.count n)).toList ++
    (if query.distinct then [("distinct", .boolean true)] else []) ++
    (query.aggregation.map fun aggregation => ("aggregation", aggregation.toJson)).toList))

end DocumentQuery
end ResourceQuery
