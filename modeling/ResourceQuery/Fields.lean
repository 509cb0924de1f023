/-!
# Ordered fields

Names with values in the order in which the names were first given. A name that is given again
keeps its place and takes the new value.
-/

namespace ResourceQuery
set_option autoImplicit false

/-- Names with values, in order. -/
abbrev Fields (α : Type) : Type := List (String × α)

namespace Fields
variable {α : Type}

/-- The names in order. -/
def names (fields : Fields α) : List String :=
  fields.map Prod.fst

/-- The value of a name. -/
def get? (fields : Fields α) (name : String) : Option α :=
  (fields.find? fun field => field.1 == name).map Prod.snd

/-- Gives a name a value: in place if the name is there, else at the end. -/
def insert : Fields α → String → α → Fields α
  | [], name, value => [(name, value)]
  | (other, old) :: rest, name, value =>
    if other = name then (other, value) :: rest else (other, old) :: insert rest name value

/-- Gives names their values one after the other. -/
def ofList (entries : List (String × α)) : Fields α :=
  entries.foldl (fun fields entry => fields.insert entry.1 entry.2) []

/-- A name that is not there is put at the end. -/
theorem insert_of_not_mem (fields : Fields α) {name : String} (value : α)
    (fresh : name ∉ fields.names) : fields.insert name value = fields ++ [(name, value)] := by
  induction fields with
  | nil => rfl
  | cons field rest ih =>
    simp only [names, List.map_cons, List.mem_cons, not_or] at fresh
    simp only [insert, if_neg (Ne.symm fresh.1), List.cons_append, ih fresh.2]

/-- A name that is there keeps its place. -/
theorem names_insert_of_mem (fields : Fields α) {name : String} (value : α)
    (known : name ∈ fields.names) : (fields.insert name value).names = fields.names := by
  induction fields with
  | nil => simp [names] at known
  | cons field rest ih =>
    by_cases same : field.1 = name
    · simp [insert, names, same]
    · have later : name ∈ names rest := by
        simpa [names, Ne.symm same] using known
      have kept := ih later
      simp only [names] at kept
      simp [insert, names, same, kept]

/-- Inserting keeps the names distinct. -/
theorem nodup_names_insert (fields : Fields α) (name : String) (value : α)
    (distinct : fields.names.Nodup) : (fields.insert name value).names.Nodup := by
  by_cases known : name ∈ fields.names
  · rwa [names_insert_of_mem fields value known]
  · rw [insert_of_not_mem fields value known]
    simp only [names, List.map_append, List.map_cons, List.map_nil]
    exact List.nodup_append.2 ⟨distinct, by simp, by
      rintro a mem b last rfl
      simp only [List.mem_singleton] at last
      exact known (last ▸ mem)⟩

/-- After an insertion the name has the value. -/
@[simp] theorem get?_insert_self (fields : Fields α) (name : String) (value : α) :
    (fields.insert name value).get? name = some value := by
  induction fields with
  | nil => simp [insert, get?]
  | cons field rest ih =>
    by_cases same : field.1 = name
    · simp [insert, get?, same]
    · simp only [get?] at ih
      simp [insert, get?, same, ih]

/-- A value that is found stands under its name. -/
theorem mem_of_get?_eq_some {fields : Fields α} {name : String} {value : α}
    (found : fields.get? name = some value) : (name, value) ∈ fields := by
  obtain ⟨⟨other, same⟩, isFirst, rfl⟩ := Option.map_eq_some_iff.1 found
  obtain rfl : other = name := by simpa using List.find?_some isFirst
  exact List.mem_of_find?_eq_some isFirst

/-- There is no value for the names that are not given. -/
theorem get?_eq_none_iff {fields : Fields α} {name : String} :
    fields.get? name = none ↔ name ∉ fields.names := by
  simp only [get?, Option.map_eq_none_iff, List.find?_eq_none, beq_iff_eq, names, List.mem_map,
    not_exists, not_and]

/-- After an insertion there is nothing but the new entry and the old ones. -/
theorem mem_of_mem_insert {fields : Fields α} {name : String} {value : α} {entry : String × α}
    (mem : entry ∈ fields.insert name value) : entry = (name, value) ∨ entry ∈ fields := by
  induction fields with
  | nil => exact .inl (by simpa only [insert, List.mem_singleton] using mem)
  | cons field rest ih =>
    rw [insert] at mem
    split at mem
    · next same =>
      rcases List.mem_cons.1 mem with rfl | mem
      · exact .inl (by rw [same])
      · exact .inr (List.mem_cons_of_mem _ mem)
    · rcases List.mem_cons.1 mem with rfl | mem
      · exact .inr List.mem_cons_self
      · exact (ih mem).imp_right (List.mem_cons_of_mem _)

end Fields
end ResourceQuery
