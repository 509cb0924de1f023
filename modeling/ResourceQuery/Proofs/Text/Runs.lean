/-!
# Runs of characters

A reader takes the longest run of characters of a class. Where such characters stand in front of one
outside of the class, the run is exactly these characters.
-/

namespace ResourceQuery.Text
set_option autoImplicit false

theorem takeWhile_append_of_all {accepts : Char → Bool} {cs rest : List Char}
    (all : cs.all accepts = true) (ends : ∀ c ∈ rest.head?, accepts c = false) :
    (cs ++ rest).takeWhile accepts = cs ∧ (cs ++ rest).dropWhile accepts = rest := by
  induction cs with
  | nil => cases rest <;> simp_all
  | cons c cs ih => simp_all

end ResourceQuery.Text
