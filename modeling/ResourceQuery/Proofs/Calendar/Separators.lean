import Mathlib.Data.List.Basic
import Mathlib.Data.List.TakeWhile
import Mathlib.Order.Bounds.Basic
import ResourceQuery.Calendar.DateFormat

/-!
# Separators in an input

How many components an input supplies is decided by a search for their separators that commits itself to
the first place where it finds each of them. It misses nothing by that: it succeeds exactly if the
separators are a subsequence of the input.

Main statement: the components that an input supplies are as many as have separators that are a subsequence
of it, and more characters in the input never make them fewer.
-/

namespace ResourceQuery.DateFormat
set_option autoImplicit false
open Calendar

variable {format : DateFormat} {input required before rest : List Char} {c : Char} {count : Nat}

/-! ## The search -/

/-- A subsequence that opens with a character may take the first one there is: whatever stands behind a
later one stands behind the first one, too. -/
theorem cons_sublist_first_iff (absent : c ∉ before) :
    (c :: required).Sublist (before ++ c :: rest) ↔ required.Sublist rest := by
  induction before with
  | nil => exact List.cons_sublist_cons
  | cons b before ih =>
    obtain ⟨other, absent⟩ := not_or.1 (mt List.mem_cons.2 absent)
    rw [List.cons_append, List.cons_sublist_cons', ih absent]
    exact or_iff_left fun opens => other opens.1

/-- The search finds exactly the subsequences of the input. -/
theorem embeds_iff_sublist : embeds input required = true ↔ required.Sublist input := by
  induction required generalizing input with
  | nil => simp [embeds]
  | cons separator required ih =>
    have split := List.takeWhile_append_dropWhile (p := (· != separator)) (l := input)
    have start := List.head?_dropWhile_not (· != separator) input
    have absent : separator ∉ input.takeWhile (· != separator) := fun mem => by
      simpa using List.mem_takeWhile_imp mem
    rw [embeds]
    cases found : input.dropWhile (· != separator) with
    | nil =>
      rw [found, List.append_nil] at split
      rw [split] at absent
      simpa using fun sublist => absent (List.Sublist.subset sublist List.mem_cons_self)
    | cons d behind =>
      rw [found] at split start
      obtain rfl : d = separator := by simpa using start
      rw [← split, cons_sublist_first_iff absent]
      exact ih

/-! ## The count -/

/-- The last of the first numbers that a test accepts is found, and zero if it accepts none. -/
theorem isGreatest_find?_reverse_range' {accepts : Nat → Bool} (zero : accepts 0 = true) (last : Nat) :
    IsGreatest {count | count ≤ last ∧ accepts count = true}
      (((List.range' 1 last).reverse.find? accepts).getD 0) := by
  induction last with
  | zero => exact ⟨⟨Nat.le_refl 0, zero⟩, fun count within => within.1⟩
  | succ last ih =>
    rw [List.range'_1_concat, List.reverse_append, List.reverse_singleton, List.singleton_append,
      Nat.add_comm 1 last]
    cases accepted : accepts (last + 1) with
    | true =>
      rw [List.find?_cons_of_pos accepted]
      exact ⟨⟨Nat.le_refl _, accepted⟩, fun count within => within.1⟩
    | false =>
      rw [List.find?_cons_of_neg (by simp [accepted])]
      refine ⟨⟨Nat.le_succ_of_le ih.1.1, ih.1.2⟩, fun count within => ih.2 ⟨?_, within.2⟩⟩
      refine Nat.le_of_lt_succ (Nat.lt_of_le_of_ne within.1 ?_)
      rintro rfl
      simp [accepted] at within

/-- An input supplies the greatest number of components whose separators it has. -/
theorem isGreatest_suppliedCount (format : DateFormat) (input : List Char) :
    IsGreatest {count | count ≤ format.components.length ∧ format.supplies input count = true}
      (format.suppliedCount input) :=
  isGreatest_find?_reverse_range' (by simp [supplies, embeds]) _

theorem supplies_iff_sublist : format.supplies input count = true ↔
    ((format.components.take count).flatMap Component.separators).Sublist input :=
  embeds_iff_sublist

/-- Fewer components have fewer separators. -/
theorem separators_sublist {fewer : Nat} (few : fewer ≤ count) :
    ((format.components.take fewer).flatMap Component.separators).Sublist
      ((format.components.take count).flatMap Component.separators) := by
  obtain ⟨more, rfl⟩ := Nat.exists_eq_add_of_le few
  rw [List.take_add, List.flatMap_append]
  exact List.sublist_append_left _ _

/-- **Main.** Separators are found exactly if they are a subsequence of the input. The components that an
input supplies are the greatest number whose separators are such a subsequence, the separators of any fewer
of them are one, too, and characters inserted into the input make the number no smaller. -/
theorem embeds_iff_and_isGreatest (format : DateFormat) :
    (∀ input required, embeds input required = true ↔ required.Sublist input) ∧
    ∀ input,
      IsGreatest {count | count ≤ format.components.length ∧
          ((format.components.take count).flatMap Component.separators).Sublist input}
        (format.suppliedCount input) ∧
      (∀ count ≤ format.suppliedCount input,
        ((format.components.take count).flatMap Component.separators).Sublist input) ∧
      ∀ longer, input.Sublist longer → format.suppliedCount input ≤ format.suppliedCount longer := by
  have greatest (input : List Char) : IsGreatest {count | count ≤ format.components.length ∧
      ((format.components.take count).flatMap Component.separators).Sublist input}
        (format.suppliedCount input) := by
    simpa only [supplies_iff_sublist] using format.isGreatest_suppliedCount input
  refine ⟨fun _ _ => embeds_iff_sublist, fun input => ⟨greatest input, ?_, ?_⟩⟩
  · intro count few
    exact (separators_sublist few).trans (greatest input).1.2
  · intro longer inserted
    obtain ⟨within, occur⟩ := (greatest input).1
    exact (greatest longer).2 ⟨within, occur.trans inserted⟩

/-- A point supplies nothing where the separators before it are missing. Once they are inserted, it does. -/
theorem embeds_iff_and_isGreatest_insertedFields :
    List.Sublist "2009-1.5".toList "2009-1-2T3:4:6.5".toList ∧
      DateTime.isoFormat.suppliedCount "2009-1.5".toList = 2 ∧
      (∀ count ≤ 2, ((DateTime.isoFormat.components.take count).flatMap Component.separators).Sublist
        "2009-1.5".toList) ∧
      2 ≤ DateTime.isoFormat.suppliedCount "2009-1-2T3:4:6.5".toList := by
  have inserted : List.Sublist "2009-1.5".toList "2009-1-2T3:4:6.5".toList := by decide
  have supplied : DateTime.isoFormat.suppliedCount "2009-1.5".toList = 2 := by decide +kernel
  obtain ⟨-, fewer, more⟩ := (embeds_iff_and_isGreatest DateTime.isoFormat).2 "2009-1.5".toList
  rw [supplied] at fewer more
  exact ⟨inserted, supplied, fewer, more _ inserted⟩

end ResourceQuery.DateFormat
