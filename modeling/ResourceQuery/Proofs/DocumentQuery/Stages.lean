import Mathlib.Data.List.Induction
import Mathlib.Data.List.Nodup
import ResourceQuery.DocumentQuery

/-!
# Bodies of stages

The body of a group or projection stage is made by giving names their values one after the other, so that a
name which is given again loses its first value. Group keys and accumulators whose names do not clash all
stay, and a field that is selected again is already there. What such a body was made of can be read off it.
-/

namespace ResourceQuery
set_option autoImplicit false

/-! ## Fields from entries -/

namespace Fields
variable {α : Type} {fields : Fields α} {name : String} {value : α}

theorem ofList_append_singleton (entries : List (String × α)) (entry : String × α) :
    ofList (entries ++ [entry]) = (ofList entries).insert entry.1 entry.2 := by
  rw [ofList, List.foldl_append]
  rfl

theorem nodup_names_ofList (entries : List (String × α)) : (ofList entries).names.Nodup := by
  induction entries using List.reverseRecOn with
  | nil => exact List.nodup_nil
  | append_singleton entries entry ih =>
    rw [ofList_append_singleton]
    exact nodup_names_insert _ _ _ ih

/-- A name that has the value keeps it. -/
theorem insert_of_get? (found : fields.get? name = some value) : fields.insert name value = fields := by
  induction fields with
  | nil => simp [get?] at found
  | cons field rest ih =>
    by_cases same : field.1 = name
    · simp only [get?, same, beq_self_eq_true, List.find?_cons_of_pos, Option.map_some,
        Option.some.injEq] at found
      rw [insert, if_pos same, ← found]
    · rw [insert, if_neg same, ih]
      rwa [get?, List.find?_cons_of_neg (by simpa using same)] at found

/-- Entries with distinct names stay as they are. -/
theorem ofList_of_nodup {entries : List (String × α)} (distinct : names entries |>.Nodup) :
    ofList entries = entries := by
  induction entries using List.reverseRecOn with
  | nil => rfl
  | append_singleton entries entry ih =>
    rw [names, List.map_append, List.nodup_append] at distinct
    obtain ⟨earlier, -, apart⟩ := distinct
    have fresh : entry.1 ∉ names entries := fun mem => apart _ mem _ List.mem_cons_self rfl
    rw [ofList_append_singleton, ih earlier, insert_of_not_mem _ _ fresh]

/-- Of names that all get one value, each stays where it was first given. -/
theorem ofList_map_const (given : List String) (value : α) :
    ofList (given.map fun name => (name, value)) = given.eraseDups.map fun name => (name, value) := by
  induction given using List.reverseRecOn with
  | nil => rfl
  | append_singleton given name ih =>
    have names : Fields.names (given.eraseDups.map fun name => (name, value)) = given.eraseDups := by
      simp [Fields.names, Function.comp_def]
    rw [List.map_append, List.map_singleton, ofList_append_singleton, ih, List.eraseDups_append]
    by_cases known : name ∈ given
    · have found : Fields.get? (given.eraseDups.map fun name => (name, value)) name = some value := by
        have given : name ∈ Fields.names (given.eraseDups.map fun name => (name, value)) := by
          rwa [names, List.mem_eraseDups]
        obtain ⟨other, found⟩ := Option.ne_none_iff_exists'.1 (mt get?_eq_none_iff.1 (not_not.2 given))
        obtain ⟨_, -, same⟩ := List.mem_map.1 (mem_of_get?_eq_some found)
        rw [found, (Prod.mk.inj same).2]
      rw [insert_of_get? found]
      simp [List.removeAll, known]
    · rw [insert_of_not_mem _ _ (by rwa [names, List.mem_eraseDups])]
      simp [List.removeAll, known, List.eraseDups_cons]

end Fields

/-! ## Group stages -/

/-- Neither two group keys nor two accumulators have one output name. -/
structure Aggregation.IsUnclashed (aggregation : Aggregation) : Prop where
  keys : (aggregation.groupBy.map flatName).Nodup
  named : ∀ entry ∈ aggregation.accumulators, entry.1 = entry.2.resultName
  results : aggregation.accumulators.names.Nodup

/-- Each function has an operator of its own. -/
theorem Fold.storeOperator_inj {function other : Fold} :
    function.storeOperator = other.storeOperator ↔ function = other := by
  cases function <;> cases other <;> decide

namespace Accumulator

theorem reference_inj {path path' : String} : reference path = reference path' ↔ path = path' := by
  rw [reference, reference, Json.string.injEq, ← String.toList_inj, String.toList_append,
    String.toList_append, List.append_cancel_left_eq, String.toList_inj]

/-- An expression tells the accumulator: a sum adds up the values of a field, and a count adds up ones. -/
theorem expression_inj {a b : Accumulator} : a.expression = b.expression ↔ a = b := by
  constructor
  · intro same
    cases a with
    | count => cases b with
      | count => rfl
      | fold function' field' => simp [expression, Json.single, reference] at same
    | fold function field => cases b with
      | count => simp [expression, Json.single, reference] at same
      | fold function' field' =>
        simp only [expression, Json.single, Json.object.injEq, List.cons.injEq, Prod.mk.injEq, and_true,
          reference_inj, Fold.storeOperator_inj] at same
        obtain ⟨rfl, rfl⟩ := same
        rfl
  · rintro rfl
    rfl

/-- No accumulator puts out under the name of the identity of a group. -/
theorem resultName_ne_id (accumulator : Accumulator) : accumulator.resultName ≠ "_id" := by
  intro same
  have first := congrArg (fun name => name.toList.head?) same
  cases accumulator with
  | count => simp [resultName] at first
  | fold function field => cases function <;> simp [resultName, Fold.name] at first

end Accumulator

namespace Aggregation

variable {aggregation other : Aggregation}

/-- All group keys stand in the identity of a group. -/
theorem IsUnclashed.groupId_eq (unclashed : aggregation.IsUnclashed) :
    aggregation.groupId =
      if aggregation.groupBy = [] then .null
      else .object (aggregation.groupBy.map fun path => (flatName path, Accumulator.reference path)) := by
  have distinct : (Fields.names (aggregation.groupBy.map fun path =>
      (flatName path, Accumulator.reference path))).Nodup := by
    rw [Fields.names, List.map_map]
    exact unclashed.keys
  rw [groupId, Fields.ofList_of_nodup distinct]
  simp only [List.isEmpty_iff]

/-- The names in a group stage are that of the identity and those of the accumulators. -/
theorem IsUnclashed.nodup_names (unclashed : aggregation.IsUnclashed) :
    ("_id" :: aggregation.accumulators.names).Nodup := by
  refine List.nodup_cons.2 ⟨fun mem => ?_, unclashed.results⟩
  obtain ⟨entry, entryMem, same⟩ := List.mem_map.1 mem
  exact entry.2.resultName_ne_id ((unclashed.named entry entryMem).symm.trans same)

/-- All accumulators stand in the group stage, behind the identity. -/
theorem IsUnclashed.body_eq (unclashed : aggregation.IsUnclashed) :
    aggregation.body = ("_id", aggregation.groupId) ::
      aggregation.accumulators.map fun entry => (entry.1, entry.2.expression) := by
  refine Fields.ofList_of_nodup ?_
  rw [Fields.names, List.map_cons, List.map_map]
  exact unclashed.nodup_names

theorem IsUnclashed.names_body (unclashed : aggregation.IsUnclashed) :
    Fields.names aggregation.body = "_id" :: aggregation.accumulators.names := by
  rw [unclashed.body_eq, Fields.names, List.map_cons, List.map_map]
  rfl

/-- The identity of a group tells the group keys, each by its value. -/
theorem IsUnclashed.groupBy_eq (unclashed : aggregation.IsUnclashed) (unclashed' : other.IsUnclashed)
    (same : aggregation.groupId = other.groupId) : aggregation.groupBy = other.groupBy := by
  rw [unclashed.groupId_eq, unclashed'.groupId_eq] at same
  split at same <;> split at same
  · next none none' => rw [none, none']
  · simp at same
  · simp at same
  · refine List.map_injective_iff.2 (fun path path' same => ?_) (Json.object.inj same)
    exact Accumulator.reference_inj.1 (Prod.mk.inj same).2

/-- A group stage tells the aggregation. -/
theorem IsUnclashed.body_inj (unclashed : aggregation.IsUnclashed) (unclashed' : other.IsUnclashed) :
    aggregation.body = other.body ↔ aggregation = other := by
  constructor
  · intro same
    rw [unclashed.body_eq, unclashed'.body_eq] at same
    obtain ⟨identity, accumulators⟩ := List.cons.inj same
    have keys := unclashed.groupBy_eq unclashed' (Prod.mk.inj identity).2
    have results : aggregation.accumulators = other.accumulators := by
      refine List.map_injective_iff.2 (fun entry entry' same => ?_) accumulators
      obtain ⟨name, expression⟩ := Prod.mk.inj same
      exact Prod.ext name (Accumulator.expression_inj.1 expression)
    cases aggregation
    cases other
    exact congrArg₂ Aggregation.mk keys results
  · rintro rfl
    rfl

end Aggregation

/-! ## Projection stages -/

/-- The path is that of the field, or that of something that holds it. -/
def IsAtOrAbove (path field : String) : Prop :=
  path.toList.splitOn '.' <+: field.toList.splitOn '.'

instance (path field : String) : Decidable (IsAtOrAbove path field) :=
  inferInstanceAs (Decidable (_ <+: _))

namespace Projection

/-- The stage of a projection keeps all that is selected and excludes nothing that holds some of it. -/
structure KeepsSelected (projection : Projection) : Prop where
  /-- The fields are mapped to one, each where it is first selected, and nothing else is. -/
  kept : (projection.body.filterMap fun entry => if entry.2 = .integer 1 then some entry.1 else none) =
    projection.fields.eraseDups
  unharmed : ∀ path, (path, .integer 0) ∈ projection.body →
    ∀ field ∈ projection.fields, ¬IsAtOrAbove path field
  /-- The identity of a document is excluded exactly if neither it nor anything in it is selected. -/
  identity : ("_id", .integer 0) ∈ projection.body ↔
    ∀ field ∈ projection.fields, ¬IsAtOrAbove "_id" field

variable {projection : Projection}

/-- A projection keeps its fields, each where it is first selected, and excludes `_id` if that is none of
them. -/
theorem body_eq (projection : Projection) :
    projection.body = (projection.fields.eraseDups.map fun field => (field, .integer 1)) ++
      if "_id" ∈ projection.fields then [] else [("_id", .integer 0)] := by
  simp only [body, Fields.ofList_map_const, List.contains_eq_mem, decide_eq_true_eq]
  split
  · rw [List.append_nil]
  · next absent =>
    refine Fields.insert_of_not_mem _ _ ?_
    simpa [Fields.names] using absent

/-- No name stands twice in a projection stage. -/
theorem nodup_names_body (projection : Projection) : (Fields.names projection.body).Nodup := by
  rw [body]
  split
  · exact Fields.nodup_names_ofList _
  · exact Fields.nodup_names_insert _ _ _ (Fields.nodup_names_ofList _)

/-- The fields that are selected are those that the stage maps to one. -/
theorem filterMap_body (projection : Projection) :
    (projection.body.filterMap fun entry => if entry.2 = .integer 1 then some entry.1 else none) =
      projection.fields.eraseDups := by
  rw [body_eq, List.filterMap_append, List.filterMap_map]
  split <;> simp

/-- A projection stage tells the fields, but not which of them are selected again. -/
theorem body_eq_iff {other : Projection} :
    projection.body = other.body ↔ projection.fields.eraseDups = other.fields.eraseDups := by
  constructor
  · intro same
    rw [← filterMap_body, same, filterMap_body]
  · intro same
    have selected : "_id" ∈ projection.fields ↔ "_id" ∈ other.fields := by
      rw [← List.mem_eraseDups, same, List.mem_eraseDups]
    rw [body_eq, body_eq, same]
    simp only [selected]

/-- All that a projection can exclude is `_id`, if this is not selected itself. -/
theorem mem_body_zero_iff {path : String} :
    (path, .integer 0) ∈ projection.body ↔ path = "_id" ∧ "_id" ∉ projection.fields := by
  rw [body_eq, List.mem_append]
  split
  · next selected => simp [selected]
  · next absent => simp [absent]

/-- A projection keeps what is selected exactly if `_id` is selected itself or nothing in it is. -/
theorem keepsSelected_iff :
    projection.KeepsSelected ↔
      "_id" ∈ projection.fields ∨ ∀ field ∈ projection.fields, ¬IsAtOrAbove "_id" field := by
  have itself : IsAtOrAbove "_id" "_id" := List.prefix_rfl
  constructor
  · intro keeps
    rw [or_iff_not_imp_left]
    intro absent
    exact keeps.identity.1 (mem_body_zero_iff.2 ⟨rfl, absent⟩)
  · intro whole
    refine ⟨filterMap_body projection, fun path excluded => ?_, ?_⟩
    · obtain ⟨rfl, absent⟩ := mem_body_zero_iff.1 excluded
      exact whole.resolve_left absent
    · rw [mem_body_zero_iff]
      constructor
      · exact fun ⟨_, absent⟩ => whole.resolve_left absent
      · exact fun outside => ⟨rfl, fun mem => outside _ mem itself⟩

end Projection
end ResourceQuery
