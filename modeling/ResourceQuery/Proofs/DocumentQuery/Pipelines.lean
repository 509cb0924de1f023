import ResourceQuery.Proofs.DocumentQuery.Stages

/-!
# Reading a pipeline back

A stage stands in a pipeline only if the query asks for it, and both an aggregation and distinctness put a group
stage there. `bodiesOf` reads the bodies of all stages of one name off a pipeline. From them come all options of
the query but one: whether bare values are wanted does not show. Values are compared as they stand, so the two
zeros differ.

Main statement: queries whose output names do not clash have one pipeline exactly when they are alike.
-/

namespace ResourceQuery
set_option autoImplicit false

namespace DocumentQuery

/-- The queries are the same but for repeated fields of their projections and for whether bare values are
wanted. -/
structure IsLike (q r : DocumentQuery) : Prop where
  filter : q.filter = r.filter
  sort : q.sort = r.sort
  limit : q.limit = r.limit
  skip : q.skip = r.skip
  distinct : q.distinct = r.distinct
  aggregation : q.aggregation = r.aggregation
  /-- Both have none, or they select the same fields in the order in which these first occur. -/
  projection : q.projection.map (·.fields.eraseDups) = r.projection.map (·.fields.eraseDups)

/-! ## Stages of one name -/

/-- The body of a stage of this name. -/
def bodyOf? (name : String) : Json → Option Json
  | .object [(other, body)] => if other = name then some body else none
  | _ => none

/-- The bodies of the stages of this name, in their order. -/
def bodiesOf (name : String) (stages : List Json) : List Json :=
  stages.filterMap (bodyOf? name)

/-- The bodies that a query asks for, under the names of their stages and in the order of these. -/
def bodies (query : DocumentQuery) : List (String × List Json) :=
  [("$match", if query.filter.isEmpty then [] else [.object query.filter]),
   ("$group", (query.aggregation.map fun aggregation => .object aggregation.body).toList),
   ("$sort", if query.sort.isEmpty then [] else [.object query.sortBody]),
   ("$skip", (query.skip.map Json.count).toList),
   ("$limit", (query.limit.map Json.count).toList),
   ("$project", (query.projection.map fun projection => .object projection.body).toList),
   ("$group", if query.distinct then [.object (Json.single "_id" (.string "$$ROOT"))] else []),
   ("$replaceRoot", if query.distinct then [.object (Json.single "newRoot" (.string "$_id"))] else [])]

/-- A pipeline has a stage for each body that the query asks for, and no others. -/
theorem pipeline_eq_bodies (query : DocumentQuery) :
    query.pipeline = query.bodies.flatMap fun (name, bodies) => bodies.map (stage name) := by
  simp only [bodies, pipeline, projectionBody, distinctStages, List.flatMap_cons, List.flatMap_nil,
    apply_ite (List.map _), List.map_nil, List.map_cons, ← Option.toList_map, Option.map_map,
    List.append_nil, List.append_assoc, Function.comp_def]
  cases query.distinct <;> rfl

theorem bodiesOf_stages (name other : String) (bodies : List Json) :
    bodiesOf name (bodies.map (stage other)) = if other = name then bodies else [] := by
  rw [bodiesOf, List.filterMap_map]
  split
  · next same => simp [stage, Json.single, bodyOf?, same]
  · next different => simp [Function.comp_def, stage, Json.single, bodyOf?, different]

/-- The stages of one name hold what the query asks for under this name. -/
theorem bodiesOf_pipeline (name : String) (query : DocumentQuery) :
    bodiesOf name query.pipeline =
      query.bodies.flatMap fun (other, bodies) => if other = name then bodies else [] := by
  rw [pipeline_eq_bodies, bodiesOf, List.filterMap_flatMap]
  exact List.flatMap_congr fun (other, bodies) _ => bodiesOf_stages name other bodies

/-! ## Options -/

variable {q r : DocumentQuery}

/-- What is written only where it is not empty can be told from what is written. -/
theorem eq_of_unlessEmpty {α β : Type} (write : List α → β)
    (tells : ∀ xs ys, write xs = write ys → xs = ys) {xs ys : List α}
    (same : (if xs.isEmpty then [] else [write xs]) = if ys.isEmpty then [] else [write ys]) : xs = ys := by
  cases xs with
  | nil =>
    cases ys with
    | nil => rfl
    | cons => simp at same
  | cons =>
    cases ys with
    | nil => simp at same
    | cons => exact tells _ _ (List.singleton_inj.1 same)

/-- So can what there is at most once. -/
theorem map_eq_of_toList {α β γ : Type} (write : α → β) (view : α → γ) {option option' : Option α}
    (tells : ∀ a ∈ option, ∀ b ∈ option', write a = write b → view a = view b)
    (same : (option.map write).toList = (option'.map write).toList) : option.map view = option'.map view := by
  cases option with
  | none =>
    cases option' with
    | none => rfl
    | some => simp at same
  | some a =>
    cases option' with
    | none => simp at same
    | some b => exact congrArg some (tells a rfl b rfl (List.singleton_inj.1 same))

theorem eq_of_toList {α β : Type} (write : α → β) {option option' : Option α}
    (tells : ∀ a ∈ option, ∀ b ∈ option', write a = write b → a = b)
    (same : (option.map write).toList = (option'.map write).toList) : option = option' := by
  simpa using map_eq_of_toList write id tells same

/-- A sort stage tells the sort. -/
theorem sort_eq_of_sortBody (same : q.sortBody = r.sortBody) : q.sort = r.sort := by
  refine List.map_injective_iff.2 (fun key key' same => ?_) same
  obtain ⟨name, order⟩ := Prod.mk.inj same
  exact Prod.ext name (Json.integer.inj order)

/-- A pipeline tells the query but for what does not show. -/
theorem isLike_of_pipeline (unclashed : ∀ aggregation ∈ q.aggregation, aggregation.IsUnclashed)
    (unclashed' : ∀ aggregation ∈ r.aggregation, aggregation.IsUnclashed)
    (same : q.pipeline = r.pipeline) : q.IsLike r := by
  have read (name : String) :
      (q.bodies.flatMap fun (other, bodies) => if other = name then bodies else []) =
        r.bodies.flatMap fun (other, bodies) => if other = name then bodies else [] := by
    rw [← bodiesOf_pipeline, same, bodiesOf_pipeline]
  have counted (n m : Nat) (same : Json.count n = Json.count m) : n = m :=
    Int.ofNat_inj.1 (Json.integer.inj same)
  -- Only a distinct query replaces the root, and then there is a group stage that is not the aggregation's.
  have distinct : q.distinct = r.distinct := by
    have replaced := read "$replaceRoot"
    cases once : q.distinct <;> cases once' : r.distinct <;> simp [bodies, once, once'] at replaced <;> rfl
  refine ⟨?filter, ?sort, ?limit, ?skip, distinct, ?aggregation, ?projection⟩
  case filter =>
    exact eq_of_unlessEmpty Json.object (fun _ _ => Json.object.inj)
      (by simpa [bodies] using read "$match")
  case sort =>
    refine eq_of_unlessEmpty (fun sort => Json.object (sortBody { sort })) (fun _ _ same => ?_)
      (by simpa [bodies, sortBody] using read "$sort")
    exact sort_eq_of_sortBody (Json.object.inj same)
  case limit => exact eq_of_toList Json.count (fun n _ m _ => counted n m) (by simpa [bodies] using read "$limit")
  case skip => exact eq_of_toList Json.count (fun n _ m _ => counted n m) (by simpa [bodies] using read "$skip")
  case aggregation =>
    refine eq_of_toList (fun aggregation => Json.object aggregation.body)
      (fun aggregation mem other mem' same => ?_) (by simpa [bodies, distinct] using read "$group")
    exact ((unclashed aggregation mem).body_inj (unclashed' other mem')).1 (Json.object.inj same)
  case projection =>
    refine map_eq_of_toList (fun projection => Json.object projection.body) _
      (fun projection _ other _ same => ?_) (by simpa [bodies] using read "$project")
    exact Projection.body_eq_iff.1 (Json.object.inj same)

/-- Queries that are alike ask for the same stages. -/
theorem IsLike.pipeline_eq (like : q.IsLike r) : q.pipeline = r.pipeline := by
  have projected : q.projectionBody = r.projectionBody := by
    have selected := like.projection
    unfold projectionBody
    cases here : q.projection <;> cases there : r.projection <;> simp [here, there] at selected ⊢
    exact Projection.body_eq_iff.2 selected
  simp only [pipeline, sortBody, like.filter, like.sort, like.limit, like.skip, like.distinct,
    like.aggregation, projected]

/-- Queries whose output names do not clash have one pipeline exactly when they are alike. -/
theorem pipeline_eq_iff (unclashed : ∀ aggregation ∈ q.aggregation, aggregation.IsUnclashed)
    (unclashed' : ∀ aggregation ∈ r.aggregation, aggregation.IsUnclashed) :
    q.pipeline = r.pipeline ↔ q.IsLike r :=
  ⟨isLike_of_pipeline unclashed unclashed', IsLike.pipeline_eq⟩

end DocumentQuery
end ResourceQuery
