import ResourceQuery.Proofs.Compilation.Steps

/-!
# Field paths

A path names a field of a document when it has some text, holds no NUL, and none of its segments
between dots is empty or opens like an operator of the store. `pathFault?` checks just that.
-/

namespace ResourceQuery
set_option autoImplicit false

/-- The path can name a field of a document. -/
structure IsFieldPath (path : String) : Prop where
  nonempty : path ≠ ""
  noNul : '\x00' ∉ path.toList
  segments : ∀ segment ∈ path.toList.splitOn '.', segment ≠ [] ∧ segment.head? ≠ some '$'

instance (path : String) : Decidable (IsFieldPath path) :=
  decidable_of_iff (path ≠ "" ∧ '\x00' ∉ path.toList ∧
      ∀ segment ∈ path.toList.splitOn '.', segment ≠ [] ∧ segment.head? ≠ some '$')
    ⟨fun ⟨nonempty, noNul, segments⟩ => ⟨nonempty, noNul, segments⟩,
      fun usable => ⟨usable.nonempty, usable.noNul, usable.segments⟩⟩

namespace Compilation

/-- The segments of a path are what stands between its dots. -/
theorem segments_eq_splitOn (path : List Char) : segments path = path.splitOn '.' := by
  induction path with
  | nil => rfl
  | cons c cs ih =>
    obtain ⟨first, others, same⟩ := List.exists_cons_of_ne_nil (List.splitOnP_ne_nil (· == '.') cs)
    rw [segments, ih, List.splitOn, List.splitOn, List.splitOnP_cons_eq_if_modifyHead, same]
    simp only [beq_iff_eq, List.modifyHead_cons]

/-- There is nothing wrong with a segment that has some text and does not open with a dollar. -/
theorem segmentFault?_eq_none_iff {segment : List Char} :
    segmentFault? segment = none ↔ segment ≠ [] ∧ segment.head? ≠ some '$' := by
  cases segment <;> simp [segmentFault?]

/-- The check of a path finds no fault in those that can name a field, and in no others. -/
theorem pathFault?_eq_none_iff {path : String} : pathFault? path = none ↔ IsFieldPath path := by
  have searched : (segments path.toList).findSome? segmentFault? = none ↔
      ∀ segment ∈ path.toList.splitOn '.', segment ≠ [] ∧ segment.head? ≠ some '$' := by
    simp only [segments_eq_splitOn, List.findSome?_eq_none_iff, segmentFault?_eq_none_iff]
  unfold pathFault?
  split
  · next empty => exact ⟨nofun, fun usable => absurd empty usable.nonempty⟩
  split
  · next nonempty nul => exact ⟨nofun, fun usable => absurd (by simpa using nul) usable.noNul⟩
  next nonempty noNul =>
  rw [searched]
  exact ⟨fun segments => ⟨nonempty, by simpa using noNul, segments⟩, IsFieldPath.segments⟩

end Compilation

namespace IsFieldPath
variable {path : String}

/-- A field path opens neither with a dot nor like an operator of the store. -/
theorem head?_ne (usable : IsFieldPath path) :
    path.toList.head? ≠ some '.' ∧ path.toList.head? ≠ some '$' := by
  have named := usable.segments
  rw [← Compilation.segments_eq_splitOn] at named
  cases chars : path.toList with
  | nil => simp
  | cons c cs =>
    rw [chars, Compilation.segments] at named
    split at named
    · simp at named
    · next notDot => split at named <;> simp_all

end IsFieldPath
end ResourceQuery
