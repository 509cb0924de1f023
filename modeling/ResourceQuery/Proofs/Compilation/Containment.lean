import ResourceQuery.Query
import ResourceQuery.Proofs.Compilation.Shapes
import ResourceQuery.Proofs.Json.Contents

/-!
# No name of a query is an operator

The store reads a name that opens with a dollar as an operator, and a text that opens with two of
them as a variable. A query is confined when it is built from given paths and values and nothing
that comes from there can be read like this, in any form in which the query reaches the store. Main
statement: every query that compiles is confined to the paths and literals of its tree.
-/

namespace ResourceQuery
set_option autoImplicit false

variable {paths : List String} {values : List Literal}

/-- The operators of the store that queries use. All of them open with a dollar. -/
def storeOperators : List String :=
  ["$and", "$or", "$nor", "$ne", "$lt", "$lte", "$gt", "$gte", "$in", "$all", "$nin", "$date",
   "$match", "$group", "$sort", "$skip", "$limit", "$project", "$replaceRoot",
   "$sum", "$avg", "$max", "$min"]

/-- A name in a document reads as an operator of the store. -/
def IsReserved (name : String) : Prop :=
  name.toList.head? = some '$'

/-- The only names in the value that read as operators are those of operators. -/
def Json.IsContained (json : Json) : Prop :=
  ∀ name ∈ json.names, IsReserved name → name ∈ storeOperators

/-- The field is that of an operator, or does not read as one, and so do all fields below it. -/
def Json.IsContainedField (field : String × Json) : Prop :=
  (IsReserved field.1 → field.1 ∈ storeOperators) ∧ field.2.IsContained

/-- The query is built from these paths and values, and none of the paths reads as an operator or a
variable of the store, wherever it stands. -/
structure DocumentQuery.IsConfined (paths : List String) (values : List Literal)
    (query : DocumentQuery) : Prop extends query.IsBuiltFrom paths values where
  operators : ∀ json ∈ query.toJson :: query.pipeline, json.IsContained
  unreserved : ∀ path ∈ paths, ¬IsReserved path ∧ ¬IsReserved (flatName path)
  /-- What a group stage refers to is the value of a field, and no variable. -/
  references : ∀ aggregation ∈ query.aggregation, ∀ text ∈ (Json.object aggregation.body).texts,
    (∃ path ∈ paths, text = "$" ++ path) ∧ ¬['$', '$'] <+: text.toList

/-! ## Names and references -/

theorem not_isReserved_of_isFieldPath {path : String} (usable : IsFieldPath path) :
    ¬IsReserved path ∧ ¬IsReserved (flatName path) := by
  have head := usable.head?_ne.2
  refine ⟨head, ?_⟩
  rw [IsReserved, flatName, String.toList_ofList, List.head?_map, Option.map_eq_some_iff]
  rintro ⟨c, first, flat⟩
  split at flat
  · simp at flat
  · exact head (flat ▸ first)

theorem Accumulator.not_isReserved_resultName (accumulator : Accumulator) :
    ¬IsReserved accumulator.resultName := by
  cases accumulator with
  | count => simp [IsReserved, resultName]
  | fold function field => cases function <;> simp [IsReserved, resultName, Fold.name]

namespace Json

theorem isContained_array {items : List Json} :
    IsContained (.array items) ↔ ∀ item ∈ items, item.IsContained := by
  rw [IsContained, names_array, List.forall_mem_flatMap]
  rfl

theorem isContained_object {fields : List (String × Json)} :
    IsContained (.object fields) ↔ ∀ field ∈ fields, IsContainedField field := by
  simp only [IsContainedField]
  rw [IsContained, names_object, Fields.names, List.forall_mem_append, List.forall_mem_map,
    List.forall_mem_flatMap, forall₂_and]
  rfl

/-- A value without names. -/
theorem isContained_leaf {value : Json} (leaf : value.names = []) : value.IsContained := by
  simp [IsContained, leaf]

theorem isContained_texts (texts : List String) : (Json.array (texts.map .string)).IsContained :=
  isContained_leaf (by simp)

/-- A field that reads as no operator. -/
theorem isContainedField_of_plain {name : String} {value : Json} (plain : ¬IsReserved name)
    (contained : value.IsContained) : IsContainedField (name, value) :=
  ⟨fun reserved => absurd reserved plain, contained⟩

theorem isContained_single {name : String} {value : Json}
    (contained : IsContainedField (name, value)) : IsContained (.object [(name, value)]) :=
  isContained_object.2 (List.forall_mem_singleton.2 contained)

/-- An operator over a value. -/
theorem isContained_operator {name : String} {value : Json} (named : name ∈ storeOperators)
    (contained : value.IsContained) : IsContained (.object [(name, value)]) :=
  isContained_single ⟨fun _ => named, contained⟩

end Json

theorem IsScalar.isContained {value : Json} (scalar : IsScalar values value) :
    value.IsContained := by
  cases scalar with
  | date moment given => exact Json.isContained_operator (by decide) (Json.isContained_leaf rfl)
  | integer | float | boolean | null | string => exact Json.isContained_leaf rfl

theorem IsCondition.isContained {value : Json} (condition : IsCondition values value) :
    value.IsContained := by
  have single : ∀ name ∈ ["$ne", "$lt", "$lte", "$gt", "$gte"], name ∈ storeOperators := by decide
  have listed : ∀ name ∈ ["$in", "$all", "$nin"], name ∈ storeOperators := by decide
  cases condition with
  | equal scalar => exact scalar.isContained
  | single named scalar => exact Json.isContained_operator (single _ named) scalar.isContained
  | listed named scalars =>
    exact Json.isContained_operator (listed _ named)
      (Json.isContained_array.2 fun item mem => (scalars item mem).isContained)

/-- The only operators of a filter are its own. -/
theorem IsFilter.isContained {filter : Document} (shape : IsFilter paths values filter) :
    (Json.object filter).IsContained := by
  induction shape with
  | and nonempty each ih | or nonempty each ih =>
    exact Json.isContained_operator (by decide) (Json.isContained_array.2 (List.forall_mem_map.2 ih))
  | nor inner ih =>
    exact Json.isContained_operator (by decide)
      (Json.isContained_array.2 (List.forall_mem_singleton.2 ih))
  | field given usable condition =>
    exact Json.isContained_single (Json.isContainedField_of_plain
      (not_isReserved_of_isFieldPath usable).1 condition.isContained)

/-! ## Bodies of stages -/

namespace DocumentQuery.IsBuiltFrom
open Json
variable {query : DocumentQuery} {aggregation : Aggregation}

/-- A path of the query reads as no operator. -/
theorem unreserved (built : query.IsBuiltFrom paths values) :
    ∀ path ∈ paths, ¬IsReserved path ∧ ¬IsReserved (flatName path) :=
  fun path mem => not_isReserved_of_isFieldPath (built.usable path mem)

theorem isContained_filter (built : query.IsBuiltFrom paths values) :
    (Json.object query.filter).IsContained := by
  rcases built.filter with empty | shape
  · exact isContained_object.2 (empty ▸ List.forall_mem_nil _)
  · exact shape.isContained

theorem isContained_sortBody (built : query.IsBuiltFrom paths values) :
    (Json.object query.sortBody).IsContained := by
  rw [isContained_object, sortBody, List.forall_mem_map]
  rintro ⟨name, order⟩ mem
  have named : name ∈ paths := built.sort (List.mem_map_of_mem mem)
  exact isContainedField_of_plain (built.unreserved name named).1 (isContained_leaf rfl)

theorem isContained_groupId (built : query.IsBuiltFrom paths values)
    (found : aggregation ∈ query.aggregation) : aggregation.groupId.IsContained := by
  unfold Aggregation.groupId
  split
  · exact isContained_leaf rfl
  · rw [isContained_object]
    intro entry mem
    obtain ⟨path, pathMem, rfl⟩ := List.mem_map.1 (Fields.mem_of_mem_ofList mem)
    have named : path ∈ paths := built.groupBy aggregation found pathMem
    exact isContainedField_of_plain (built.unreserved path named).2 (isContained_leaf rfl)

/-- The output names of a group stage read as no operators. -/
theorem isContained_body (built : query.IsBuiltFrom paths values)
    (found : aggregation ∈ query.aggregation) : (Json.object aggregation.body).IsContained := by
  rw [isContained_object, Aggregation.body]
  intro entry mem
  rcases List.mem_cons.1 (Fields.mem_of_mem_ofList mem) with rfl | mem
  · exact isContainedField_of_plain (by simp [IsReserved]) (built.isContained_groupId found)
  · obtain ⟨⟨name, added⟩, columnMem, rfl⟩ := List.mem_map.1 mem
    obtain rfl : name = added.resultName := (built.accumulators aggregation found _ columnMem).1
    refine isContainedField_of_plain added.not_isReserved_resultName ?_
    cases added with
    | count => exact isContained_operator (by decide) (isContained_leaf rfl)
    | fold function field =>
      refine isContained_operator ?_ (isContained_leaf rfl)
      cases function <;> decide

theorem isContained_projectionBody (built : query.IsBuiltFrom paths values)
    {projection : Projection} (found : projection ∈ query.projection) :
    (Json.object projection.body).IsContained := by
  have kept : ∀ entry ∈ Fields.ofList (projection.fields.map fun field => (field, Json.integer 1)),
      IsContainedField entry := by
    intro entry mem
    obtain ⟨path, pathMem, rfl⟩ := List.mem_map.1 (Fields.mem_of_mem_ofList mem)
    have named : path ∈ paths := built.projection projection found pathMem
    exact isContainedField_of_plain (built.unreserved path named).1 (isContained_leaf rfl)
  rw [isContained_object, Projection.body]
  intro entry mem
  split at mem
  · exact kept entry mem
  · rcases Fields.mem_of_mem_insert mem with rfl | mem
    · exact isContainedField_of_plain (by simp [IsReserved]) (isContained_leaf rfl)
    · exact kept entry mem

/-- What a group stage refers to are fields of the query. -/
theorem references (built : query.IsBuiltFrom paths values)
    (found : aggregation ∈ query.aggregation) :
    ∀ text ∈ (Json.object aggregation.body).texts, ∃ path ∈ paths, text = "$" ++ path := by
  rw [texts_object, List.forall_mem_flatMap]
  intro entry mem text textMem
  rcases List.mem_cons.1 (Fields.mem_of_mem_ofList mem) with rfl | mem
  · simp only [Aggregation.groupId] at textMem
    split at textMem
    · simp at textMem
    · rw [texts_object] at textMem
      obtain ⟨entry, entryMem, textMem⟩ := List.mem_flatMap.1 textMem
      obtain ⟨path, pathMem, rfl⟩ := List.mem_map.1 (Fields.mem_of_mem_ofList entryMem)
      exact ⟨path, built.groupBy aggregation found pathMem, List.mem_singleton.1 textMem⟩
  · obtain ⟨⟨name, added⟩, columnMem, rfl⟩ := List.mem_map.1 mem
    obtain ⟨-, inside⟩ := built.accumulators aggregation found _ columnMem
    cases added with
    | count => simp [Accumulator.expression, Json.single] at textMem
    | fold function field =>
      refine ⟨field, inside field rfl, ?_⟩
      simpa [Accumulator.expression, Json.single, Accumulator.reference] using textMem

/-! ## Whole queries -/

theorem isContained_pipeline (built : query.IsBuiltFrom paths values) :
    ∀ json ∈ query.pipeline, json.IsContained := by
  have staged (name : String) {body : Json} (contained : body.IsContained)
      (named : name ∈ storeOperators) : (stage name body).IsContained :=
    isContained_operator named contained
  simp only [pipeline, List.forall_mem_append]
  refine ⟨⟨⟨⟨⟨⟨?filter, ?group⟩, ?sort⟩, ?skip⟩, ?limit⟩, ?project⟩, ?distinct⟩
  case filter =>
    split
    · exact List.forall_mem_nil _
    · exact List.forall_mem_singleton.2 (staged "$match" built.isContained_filter (by decide))
  case group =>
    simpa using fun aggregation found => staged "$group" (built.isContained_body found) (by decide)
  case sort =>
    split
    · exact List.forall_mem_nil _
    · exact List.forall_mem_singleton.2 (staged "$sort" built.isContained_sortBody (by decide))
  case skip => simpa using fun n _ => staged "$skip" (isContained_leaf rfl) (by decide)
  case limit => simpa using fun n _ => staged "$limit" (isContained_leaf rfl) (by decide)
  case project =>
    simpa [projectionBody] using
      fun projection found => staged "$project" (built.isContained_projectionBody found) (by decide)
  case distinct =>
    have body (name text : String) (plain : ¬IsReserved name) :
        (Json.object (Json.single name (.string text))).IsContained :=
      isContained_single (isContainedField_of_plain plain (isContained_leaf rfl))
    have group := staged "$group" (body "_id" "$$ROOT" (by simp [IsReserved])) (by decide)
    have replace := staged "$replaceRoot" (body "newRoot" "$_id" (by simp [IsReserved])) (by decide)
    split <;> simp [distinctStages, group, replace]

theorem isContained_aggregation (built : query.IsBuiltFrom paths values)
    (found : aggregation ∈ query.aggregation) : aggregation.toJson.IsContained := by
  rw [Aggregation.toJson, isContained_object]
  simp only [List.forall_mem_cons]
  refine ⟨isContainedField_of_plain (by simp [IsReserved]) (isContained_texts _),
    isContainedField_of_plain (by simp [IsReserved]) (isContained_object.2 ?_), List.forall_mem_nil _⟩
  rw [List.forall_mem_map]
  rintro ⟨name, added⟩ mem
  obtain rfl : name = added.resultName := (built.accumulators aggregation found _ mem).1
  refine isContainedField_of_plain added.not_isReserved_resultName ?_
  have op (name : String) : IsContainedField ("op", .string name) :=
    isContainedField_of_plain (by simp [IsReserved]) (isContained_leaf rfl)
  have field (path : String) : IsContainedField ("field", .string path) :=
    isContainedField_of_plain (by simp [IsReserved]) (isContained_leaf rfl)
  cases added <;> simp [Accumulator.toJson, isContained_object, op, field]

theorem isContained_projection (projection : Projection) : projection.toJson.IsContained := by
  rw [Projection.toJson, isContained_object, List.forall_mem_cons]
  refine ⟨isContainedField_of_plain (by simp [IsReserved]) (isContained_texts _), ?_⟩
  split
  · exact List.forall_mem_singleton.2
      (isContainedField_of_plain (by simp [IsReserved]) (isContained_leaf rfl))
  · exact List.forall_mem_nil _

/-- The names in a query as a value are fixed ones, field paths and output names. -/
theorem isContained_toJson (built : query.IsBuiltFrom paths values) : query.toJson.IsContained := by
  rw [toJson, isContained_object]
  simp only [List.forall_mem_cons, List.forall_mem_append]
  refine ⟨isContainedField_of_plain (by simp [IsReserved]) built.isContained_filter,
    ⟨⟨⟨⟨⟨?sort, ?projection⟩, ?limit⟩, ?skip⟩, ?distinct⟩, ?aggregation⟩⟩
  case sort =>
    split
    · exact List.forall_mem_nil _
    · exact List.forall_mem_singleton.2
        (isContainedField_of_plain (by simp [IsReserved]) built.isContained_sortBody)
  case projection =>
    simpa using fun projection _ =>
      isContainedField_of_plain (by simp [IsReserved]) (isContained_projection projection)
  case limit | skip =>
    simpa using fun n _ => isContainedField_of_plain (by simp [IsReserved]) (isContained_leaf rfl)
  case distinct =>
    split
    · exact List.forall_mem_singleton.2
        (isContainedField_of_plain (by simp [IsReserved]) (isContained_leaf rfl))
    · exact List.forall_mem_nil _
  case aggregation =>
    simpa using fun aggregation found =>
      isContainedField_of_plain (by simp [IsReserved]) (built.isContained_aggregation found)

/-- A query that is built from paths and values is confined to them. -/
theorem isConfined (built : query.IsBuiltFrom paths values) : query.IsConfined paths values where
  toIsBuiltFrom := built
  operators := List.forall_mem_cons.2 ⟨built.isContained_toJson, built.isContained_pipeline⟩
  unreserved := built.unreserved
  references := by
    intro aggregation found text mem
    obtain ⟨path, pathMem, rfl⟩ := built.references found text mem
    refine ⟨⟨path, pathMem, rfl⟩, fun opens => (built.unreserved path pathMem).1 ?_⟩
    obtain ⟨rest, same⟩ : ['$'] <+: path.toList := by simpa [List.cons_prefix_cons] using opens
    rw [IsReserved, ← same]
    rfl

end DocumentQuery.IsBuiltFrom

namespace Compilation

/-- **Nothing of a query reads as an operator.** Every tree that compiles, and so every text, makes a
query that is confined to the paths and literals of the tree. -/
theorem isConfined_of_compile :
    (∀ node query, compile node = .ok query → query.IsConfined node.paths node.literals) ∧
      ∀ text query, DocumentQuery.ofText text = .ok query →
        Text.allBlank text = true ∧ query = .matchAll ∨
          ∃ node, parse text = .ok node ∧ query.IsConfined node.paths node.literals := by
  have confined (node : Node) (query : DocumentQuery) (compiled : compile node = .ok query) :
      query.IsConfined node.paths node.literals := by
    obtain ⟨-, sound, -, rfl⟩ := compile_eq_ok_iff.1 compiled
    have built := isBuiltFrom_merged sound
    rw [flatMap_paths_partsOf, flatMap_literals_partsOf] at built
    exact built.isConfined
  refine ⟨confined, fun text query read => ?_⟩
  unfold DocumentQuery.ofText at read
  split at read
  · next blank => exact .inl ⟨blank, (Except.ok.inj read).symm⟩
  · split at read
    · simp at read
    · next node parsed =>
      split at read
      · simp at read
      · next compiled =>
        obtain rfl := Except.ok.inj read
        refine .inr ⟨node, parsed, ?_⟩
        rw [← node.paths_normalize, ← node.literals_normalize]
        exact confined _ _ compiled

/-- A grouped tree with a list of a text that looks like an object, and a query from its text with a
text that looks like an operator. -/
theorem isConfined_of_grouped_queries :
    (∃ query, compile (.apply .and
        [.apply .in [.field "a.b", .array [.string "{$gt: 1}", .integer 2]],
          .apply .aggregate [.field "user.age", .apply .sum [.field "price"]]]) = .ok query ∧
      query.IsConfined ["a.b", "user.age", "price"] [.string "{$gt: 1}", .integer 2]) ∧
    ∃ query, DocumentQuery.ofText "or(ne(a.b,$where))&sort(+c)" = .ok query ∧
      query.IsConfined ["a.b", "c"] [.string "$where"] := by
  constructor
  · refine Exists.imp (fun query compiled => ⟨compiled, ?_⟩) ⟨_, rfl⟩
    exact isConfined_of_compile.1 _ _ compiled
  · have parsed : parse "or(ne(a.b,$where))&sort(+c)" = .ok (.apply .and
        [.apply .or [.apply .ne [.field "a.b", .literal (.string "$where")]],
          .apply .sort [.sortKey "c" .ascending]]) := by decide +kernel
    have isOk : (DocumentQuery.ofText "or(ne(a.b,$where))&sort(+c)").isOk = true := by
      decide +kernel
    cases read : DocumentQuery.ofText "or(ne(a.b,$where))&sort(+c)" with
    | error => simp [read, Except.isOk, Except.toBool] at isOk
    | ok query =>
      rcases isConfined_of_compile.2 _ query read with ⟨blank, -⟩ | ⟨node, found, confined⟩
      · exact absurd blank (by decide +kernel)
      · obtain rfl := Except.ok.inj (parsed.symm.trans found)
        exact ⟨query, rfl, confined⟩

end Compilation
end ResourceQuery
