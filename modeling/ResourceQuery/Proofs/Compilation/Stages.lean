import ResourceQuery.Proofs.Compilation.Carrying
import ResourceQuery.Proofs.DocumentQuery.Pipelines

/-!
# The stages of compiled queries

The compiler takes a group key or an aggregate function only if its output name is free. So the group stage of a
compiled query has an entry for each of them, and a pipeline tells all that its query asks for.

Main statements: what stands in a group stage, what stands in a projection stage, and that compiled queries have
one pipeline exactly when they are alike.
-/

namespace ResourceQuery
set_option autoImplicit false

/-- The group keys and aggregate functions that a part asks for: the arguments of an `aggregate`, or the aggregate
function itself. -/
def Node.ownColumns (part : Node) : List Node :=
  if part.applies [.aggregate] then part.args else if part.isAggregate then [part] else []

/-- The group keys and aggregate functions that the parts of a tree ask for, in their order. -/
def Node.columns (node : Node) : List Node :=
  (Compilation.partsOf node).flatMap ownColumns

/-- The aggregation has the group keys and the aggregate functions among these columns, in their order and under
different output names. -/
structure Aggregation.Gathers (aggregation : Aggregation) (columns : List Node) : Prop where
  each : ∀ column ∈ columns, column.isField = true ∨ column.isAggregate = true
  keys : columns.filter Node.isField = aggregation.groupBy.map .field
  functions : aggregation.Computes (columns.filter Node.isAggregate)
  keyNames : (aggregation.groupBy.map flatName).Nodup

theorem Aggregation.Gathers.isUnclashed {aggregation : Aggregation} {columns : List Node}
    (gathers : aggregation.Gathers columns) : aggregation.IsUnclashed :=
  ⟨gathers.keyNames, gathers.functions.named, gathers.functions.distinct⟩

namespace Compilation

variable {node : Node} {query : DocumentQuery} {aggregation : Aggregation}

/-! ## Group stages -/

/-- The columns of an `aggregate` are its arguments. -/
theorem columns_of_aggregate {args : List Node}
    (one : (partsOf node).filter (Node.applies [.aggregate]) = [.apply .aggregate args])
    (noFunctions : (partsOf node).filter Node.isAggregate = []) : node.columns = args := by
  have others (part : Node) (mem : part ∈ partsOf node) (other : part.applies [.aggregate] = false) :
      part.ownColumns = [] := by
    have bare := List.filter_eq_nil_iff.1 noFunctions part mem
    simp [Node.ownColumns, other, bare]
  rw [Node.columns, ← flatMap_filter others, one, List.flatMap_singleton]
  exact if_pos rfl

/-- Without an `aggregate` the columns are the aggregate functions that stand by themselves. -/
theorem columns_of_functions (noAggregate : (partsOf node).filter (Node.applies [.aggregate]) = []) :
    node.columns = (partsOf node).filter Node.isAggregate := by
  have apart (part : Node) (mem : part ∈ partsOf node) : ¬part.applies [.aggregate] = true :=
    List.filter_eq_nil_iff.1 noAggregate part mem
  have others (part : Node) (mem : part ∈ partsOf node) (other : part.isAggregate = false) :
      part.ownColumns = [] := by
    simp [Node.ownColumns, apart part mem, other]
  have functions (part : Node) (mem : part ∈ (partsOf node).filter Node.isAggregate) :
      part.ownColumns = [part] := by
    obtain ⟨partMem, isFunction⟩ := List.mem_filter.1 mem
    simp [Node.ownColumns, apart part partMem, isFunction]
  rw [Node.columns, ← flatMap_filter others, List.flatMap_congr functions, List.flatMap_singleton']

/-- The output names of the group keys of a sound `aggregate` differ. -/
theorem nodup_keyNames {args : List Node} {keys : List String} (sound : IsSound (.apply .aggregate args))
    (fields : args.filter Node.isField = keys.map .field) : (keys.map flatName).Nodup := by
  obtain ⟨-, each, distinct, -⟩ := isSound_apply_iff.1 sound
  have same : args.filterMap Node.path? = keys := by
    rw [filter_isField each] at fields
    exact List.map_injective_iff.2 (fun _ _ => Node.field.inj) fields
  rwa [← same, List.map_filterMap]

/-- A compiled aggregation gathers the columns of its tree. -/
theorem gathers_of_compile (compiled : compile node = .ok query)
    (grouped : query.aggregation = some aggregation) : aggregation.Gathers node.columns := by
  obtain ⟨-, sound, apart, made⟩ := compile_eq_ok_iff.1 compiled
  rcases (made ▸ carries_merged sound apart).aggregation with ⟨-, -, none⟩ |
    ⟨args, found, one, noFunctions, same, each, keys, functions⟩ |
    ⟨found, noAggregate, -, same, noKeys, functions⟩
  · simp [none] at grouped
  · obtain rfl := Option.some.inj (same.symm.trans grouped)
    have mem : .apply .aggregate args ∈ partsOf node :=
      List.mem_of_mem_filter (one ▸ List.mem_cons_self)
    rw [columns_of_aggregate one noFunctions]
    exact ⟨each, keys, functions, nodup_keyNames (sound _ mem) keys⟩
  · obtain rfl := Option.some.inj (same.symm.trans grouped)
    have noFields : ((partsOf node).filter Node.isAggregate).filter Node.isField = [] := by
      rw [List.filter_filter, List.filter_eq_nil_iff]
      rintro (_ | _ | _ | _ | _) - <;> simp [Node.isField, Node.isAggregate]
    rw [columns_of_functions noAggregate]
    refine ⟨fun column mem => .inr (List.mem_filter.1 mem).2, ?_, ?_, ?_⟩
    · rw [noKeys, noFields, List.map_nil]
    · rwa [List.filter_filter, List.filter_congr fun _ _ => Bool.and_self _]
    · rw [noKeys]
      exact List.nodup_nil

/-- **Nothing is overwritten in a group stage.** The columns of a tree are the group keys and accumulators of its
aggregation. Its group stage holds the identity of a group, which is null or has an entry for each key, and behind
it an entry for each accumulator, all of them in their order and under different names. -/
theorem body_of_compile (compiled : compile node = .ok query)
    (grouped : query.aggregation = some aggregation) :
    aggregation.Gathers node.columns ∧
      aggregation.body =
        ("_id", if aggregation.groupBy = [] then .null
          else .object (aggregation.groupBy.map fun path => (flatName path, .string ("$" ++ path)))) ::
        aggregation.accumulators.map (fun entry => (entry.2.resultName, entry.2.expression)) ∧
      (aggregation.groupBy.map flatName).Nodup ∧
      ("_id" :: aggregation.accumulators.map fun entry => entry.2.resultName).Nodup := by
  have gathers := gathers_of_compile compiled grouped
  have unclashed := gathers.isUnclashed
  have named : aggregation.accumulators.names = aggregation.accumulators.map fun entry => entry.2.resultName :=
    List.map_congr_left unclashed.named
  have expressions : (aggregation.accumulators.map fun entry => (entry.1, entry.2.expression)) =
      aggregation.accumulators.map fun entry => (entry.2.resultName, entry.2.expression) :=
    List.map_congr_left fun entry mem => by rw [unclashed.named entry mem]
  refine ⟨gathers, ?_, unclashed.keys, named ▸ unclashed.nodup_names⟩
  rw [unclashed.body_eq, unclashed.groupId_eq, expressions]
  rfl

/-- Keys and functions of paths that are close to each other, to `_id` and to an output name. -/
def closeNames : Node :=
  .apply .aggregate
    [.field "_id", .apply .sum [.field "a_b"], .field "a.b", .apply .mean [.field "a.b"],
     .apply .count [], .field "sum_a_b", .apply .max [.field "_id"]]

theorem body_of_compile_closeNames :
    ∃ query aggregation, compile closeNames = .ok query ∧ query.aggregation = some aggregation ∧
      aggregation.groupBy = ["_id", "a.b", "sum_a_b"] ∧ aggregation.Gathers closeNames.columns ∧
      Fields.names aggregation.body = ["_id", "sum_a_b", "mean_a_b", "count", "max__id"] := by
  obtain ⟨query, compiled⟩ : ∃ query, compile closeNames = .ok query := ⟨_, rfl⟩
  obtain ⟨aggregation, grouped⟩ : ∃ aggregation, query.aggregation = some aggregation := by
    cases compiled
    exact ⟨_, rfl⟩
  obtain ⟨gathers, body, -, -⟩ := body_of_compile compiled grouped
  refine ⟨query, aggregation, compiled, grouped, ?_, gathers, ?_⟩
  · cases compiled
    cases grouped
    rfl
  · rw [body]
    cases compiled
    cases grouped
    rfl

/-! ## Projection stages -/

/-- **What a projection stage holds.** The fields of the one `select` or `values` are mapped to one, each where it
is first selected, and `_id` is mapped to zero unless it is one of them. So the stage keeps what is selected exactly
if `_id` is selected itself or nothing in it is: a path below `_id` does not keep this from being excluded. -/
theorem projectionBody_of_compile (compiled : compile node = .ok query)
    (projects : ∃ part ∈ partsOf node, part.applies [.select, .values] = true) :
    ∃ (op : Operator) (projection : Projection),
      (partsOf node).filter (Node.applies [.select, .values]) = [.apply op (projection.fields.map .field)] ∧
      query.projection = some projection ∧ query.projectionBody = some projection.body ∧
      projection.body = (projection.fields.eraseDups.map fun field => (field, .integer 1)) ++
        (if "_id" ∈ projection.fields then [] else [("_id", .integer 0)]) ∧
      (Fields.names projection.body).Nodup ∧
      (projection.KeepsSelected ↔
        "_id" ∈ projection.fields ∨ ∀ field ∈ projection.fields, ¬IsAtOrAbove "_id" field) := by
  obtain ⟨part, mem, isProjection⟩ := projects
  obtain ⟨-, sound, apart, made⟩ := compile_eq_ok_iff.1 compiled
  rcases (made ▸ carries_merged sound apart).projection with ⟨none, -⟩ | ⟨op, fields, one, projected⟩
  · exact absurd isProjection (List.filter_eq_nil_iff.1 none part mem)
  · refine ⟨op, ⟨fields, op == .values⟩, one, projected, ?_, Projection.body_eq _,
      Projection.nodup_names_body _, Projection.keepsSelected_iff⟩
    rw [DocumentQuery.projectionBody, projected, Option.map_some]

/-- Bare values of fields, of which one is selected twice and another one lies in `_id`. -/
def repeatedFields : Node :=
  .apply .values [.field "_id.x", .field "a", .field "_id", .field "a"]

theorem projectionBody_of_repeatedFields :
    ∃ (query : DocumentQuery) (projection : Projection), compile repeatedFields = .ok query ∧
      query.projectionBody = some projection.body ∧ projection.KeepsSelected ∧
      Fields.names projection.body = ["_id.x", "a", "_id"] := by
  obtain ⟨query, compiled⟩ : ∃ query, compile repeatedFields = .ok query := ⟨_, rfl⟩
  obtain ⟨op, ⟨fields, valuesOnly⟩, one, -, projected, body, -, keeps⟩ :=
    projectionBody_of_compile compiled ⟨repeatedFields, List.mem_cons_self, rfl⟩
  obtain ⟨rfl, same⟩ := Node.apply.inj (List.singleton_inj.1 one)
  obtain rfl : ["_id.x", "a", "_id", "a"] = fields :=
    List.map_injective_iff.2 (fun _ _ => Node.field.inj) same
  exact ⟨query, _, compiled, projected, keeps.2 (.inl (by simp)), by rw [body]; rfl⟩

/-- The stage excludes `_id` where a part of it is selected. -/
theorem not_keepsSelected_all :
    ¬∀ node query (projection : Projection), compile node = .ok query → query.projection = some projection →
      projection.KeepsSelected := by
  intro all
  have keeps := all (.apply .select [.field "_id.dept"]) _ _ rfl rfl
  exact keeps.unharmed "_id" (by decide) "_id.dept" List.mem_cons_self (by decide)

/-! ## Pipelines -/

theorem isUnclashed_of_compile (compiled : compile node = .ok query) :
    ∀ aggregation ∈ query.aggregation, aggregation.IsUnclashed :=
  fun _ grouped => (gathers_of_compile compiled grouped).isUnclashed

/-- **A pipeline loses no directive.** Compiled queries have one pipeline exactly when they are the same but for
repeated fields of their projections and for whether bare values are wanted. -/
theorem pipeline_eq_iff_isLike {a b : Node} {q r : DocumentQuery} (compiled : compile a = .ok q)
    (compiled' : compile b = .ok r) : q.pipeline = r.pipeline ↔ q.IsLike r :=
  DocumentQuery.pipeline_eq_iff (isUnclashed_of_compile compiled) (isUnclashed_of_compile compiled')

/-- Distinct groups by one key, with their numbers of documents. -/
def distinctGroups (key : String) : Node :=
  .apply .and [.apply .distinct [], .apply .aggregate [.field key, .apply .count []]]

/-- A field that is selected again does not show, nor does it that bare values are wanted. Group keys show even if
they have one output name. -/
theorem pipeline_eq_of_repeatedField :
    (∃ q r, compile (.apply .select [.field "a", .field "b", .field "a"]) = .ok q ∧
      compile (.apply .values [.field "a", .field "b"]) = .ok r ∧ q ≠ r ∧ q.pipeline = r.pipeline) ∧
    ∃ q r, compile (distinctGroups "a.b") = .ok q ∧ compile (distinctGroups "a_b") = .ok r ∧
      q.pipeline ≠ r.pipeline := by
  constructor
  · obtain ⟨q, compiled⟩ : ∃ q, compile (.apply .select [.field "a", .field "b", .field "a"]) = .ok q :=
      ⟨_, rfl⟩
    obtain ⟨r, compiled'⟩ : ∃ r, compile (.apply .values [.field "a", .field "b"]) = .ok r := ⟨_, rfl⟩
    have same := (pipeline_eq_iff_isLike compiled compiled').2
    cases compiled
    cases compiled'
    exact ⟨_, _, rfl, rfl, by decide, same (by constructor <;> decide)⟩
  · obtain ⟨q, compiled⟩ : ∃ q, compile (distinctGroups "a.b") = .ok q := ⟨_, rfl⟩
    obtain ⟨r, compiled'⟩ : ∃ r, compile (distinctGroups "a_b") = .ok r := ⟨_, rfl⟩
    have same := (pipeline_eq_iff_isLike compiled compiled').1
    cases compiled
    cases compiled'
    exact ⟨_, _, rfl, rfl, fun alike => absurd (same alike).aggregation (by decide)⟩

end Compilation
end ResourceQuery
