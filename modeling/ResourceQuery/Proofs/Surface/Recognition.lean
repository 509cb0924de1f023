import ResourceQuery.Proofs.Surface.Completeness
import ResourceQuery.Proofs.Surface.Soundness

/-!
# Which queries are read

Soundness and completeness of the grammar taken together: within the limit on nesting a query is
read if and only if it has a derivation, and what is read is the form of every derivation it has.
-/

namespace ResourceQuery.Surface
set_option autoImplicit false
open Text Grammar

/-! ## Nesting -/

/-- No parenthesis opens more levels than the limit if and only if no more are ever open. -/
theorem tooDeepAt?_eq_none {limit depth offset : Nat} {cs : List Char} (open' : depth ≤ limit) :
    tooDeepAt? limit depth offset cs = none ↔ nestingFrom depth cs ≤ limit := by
  induction cs generalizing depth offset with
  | nil => simp [tooDeepAt?, nestingFrom, open']
  | cons c cs ih =>
    simp only [tooDeepAt?, nestingFrom, Nat.max_le, open', true_and]
    split
    · split
      · next deep =>
        have least : depth + 1 ≤ nestingFrom (depth + 1) cs := by
          cases cs with
          | nil => exact Nat.le_refl _
          | cons => exact Nat.le_max_left ..
        simp only [reduceCtorEq, false_iff]
        omega
      · exact ih (by omega)
    · split
      · exact ih (by omega)
      · exact ih open'

theorem tooDeepAt?_eq_none_iff {limit : Nat} {text : List Char} :
    tooDeepAt? limit 0 0 text = none ↔ nesting text ≤ limit :=
  tooDeepAt?_eq_none (Nat.zero_le _)

/-! ## Derivations and parsing -/

/-- A query that is read has a derivation. -/
theorem derivable_of_parse {query : String} {maxDepth : Nat} {expr : Expr}
    (parsed : parse query maxDepth = .ok expr) : Derivable query.toList expr.form := by
  simp only [parse] at parsed
  split at parsed
  · simp at parsed
  split at parsed
  · simp at parsed
  split at parsed
  · next found =>
    split at parsed
    · next ends =>
      obtain rfl := Except.ok.inj parsed
      exact derivable_of_whole rfl found (List.isEmpty_iff.1 ends)
    · simp at parsed
  · simp at parsed
  · simp at parsed

/-- What is read keeps the limit on nesting. -/
theorem nesting_le_of_parse {query : String} {maxDepth : Nat} {expr : Expr}
    (parsed : parse query maxDepth = .ok expr) : nesting query.toList ≤ maxDepth := by
  refine tooDeepAt?_eq_none_iff.1 ?_
  simp only [parse] at parsed
  split at parsed
  · simp at parsed
  split at parsed
  · simp at parsed
  · assumption

/-- A text that has a derivation is not blank. -/
theorem allBlank_of_derivable {query : String} {form : Form}
    (derivable : Derivable query.toList form) : allBlank query = false := by
  obtain ⟨a, b, q, ⟨taken, _, moves⟩, derives, -, -⟩ := derivable
  obtain ⟨⟨c, cs, after, opens⟩, -⟩ := derives.covers
  have mem : c ∈ query.toList := by
    have text : query.toList = taken ++ a.after := moves.2
    simp [text, after]
  rw [allBlank, List.all_eq_false]
  refine ⟨c, mem, ?_⟩
  rcases opens with rfl | continues
  · decide
  · simp only [continuesToken, Bool.and_eq_true, Bool.not_eq_true'] at continues
    simp [continues.2]

/-- A query that has a derivation is read as its form, within the limit on nesting. -/
theorem parse_of_derivable {query : String} {maxDepth : Nat} {form : Form}
    (shallow : nesting query.toList ≤ maxDepth) (derivable : Derivable query.toList form) :
    ∃ expr, parse query maxDepth = .ok expr ∧ expr.form = form := by
  have here : (⟨0, query.toList⟩ : Cursor).rest = query.toList := rfl
  obtain ⟨expr, next, found, same, ends⟩ := whole_of_derivable derivable here
  refine ⟨expr, ?_, same⟩
  simp [parse, allBlank_of_derivable derivable, tooDeepAt?_eq_none_iff.2 shallow, found, ends]

/-- **Main.** Within the limit on nesting a query is read if and only if it has a derivation. All
its derivations denote the same form, and that form is what is read. A blank query has none. -/
theorem parse_eq_ok_iff_derivable {query : String} {maxDepth : Nat}
    (shallow : nesting query.toList ≤ maxDepth) :
    ((∃ expr, parse query maxDepth = .ok expr) ↔ ∃ form, Derivable query.toList form) ∧
      ∀ expr, parse query maxDepth = .ok expr →
        ∀ form, Derivable query.toList form ↔ form = expr.form := by
  refine ⟨⟨?_, ?_⟩, ?_⟩
  · rintro ⟨expr, parsed⟩
    exact ⟨expr.form, derivable_of_parse parsed⟩
  · rintro ⟨form, derivable⟩
    obtain ⟨expr, parsed, -⟩ := parse_of_derivable shallow derivable
    exact ⟨expr, parsed⟩
  · intro expr parsed form
    constructor
    · intro derivable
      obtain ⟨expr', parsed', same⟩ := parse_of_derivable shallow derivable
      obtain rfl := Except.ok.inj (parsed.symm.trans parsed')
      exact same.symm
    · rintro rfl
      exact derivable_of_parse parsed

/-- A group inside of a call, a list, a missing value and blanks: the query is read, so it has a
derivation, and all its derivations denote one form. -/
theorem exists_unique_form_of_mixed_query :
    nesting "not( (a=1|b=in=(x, y)) ) & c=ne=".toList ≤ 3 ∧
      ∃ form, ∀ form', Derivable "not( (a=1|b=in=(x, y)) ) & c=ne=".toList form' ↔ form' = form := by
  have shallow : nesting "not( (a=1|b=in=(x, y)) ) & c=ne=".toList ≤ 3 :=
    tooDeepAt?_eq_none_iff.1 (by decide +kernel)
  have accepted : (parse "not( (a=1|b=in=(x, y)) ) & c=ne=" 3).isOk = true := by decide +kernel
  refine ⟨shallow, ?_⟩
  cases parsed : parse "not( (a=1|b=in=(x, y)) ) & c=ne=" 3 with
  | error refused => simp [parsed, Except.isOk, Except.toBool] at accepted
  | ok expr => exact ⟨expr.form, (parse_eq_ok_iff_derivable shallow).2 expr parsed⟩

end ResourceQuery.Surface
