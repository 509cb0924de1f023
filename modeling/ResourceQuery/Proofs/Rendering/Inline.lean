import ResourceQuery.Json.Writer
import ResourceQuery.Node.Rendering
import ResourceQuery.Proofs.Calendar.Iso
import ResourceQuery.Proofs.Decimal.Layouts
import ResourceQuery.Proofs.Node.Leaves
import ResourceQuery.Proofs.Text.Percent

/-!
# Texts on one line

A text is inline if it has no control character below the space, and with that no line break. All that
is written without line breaks on purpose is inline, whatever the texts in it: JSON escapes control
characters, and canonical texts encode them.
-/

namespace ResourceQuery
set_option autoImplicit false
open Text

namespace Text

/-- No character of the text is a control character below the space. -/
def IsInline (text : List Char) : Prop :=
  ∀ c ∈ text, 32 ≤ c.toNat

instance (text : List Char) : Decidable (IsInline text) :=
  decidable_of_iff (text.all fun c => decide (32 ≤ c.toNat)) (by simp [IsInline])

@[simp] theorem isInline_nil : IsInline [] := nofun

@[simp] theorem isInline_cons {c : Char} {cs : List Char} :
    IsInline (c :: cs) ↔ 32 ≤ c.toNat ∧ IsInline cs :=
  List.forall_mem_cons

@[simp] theorem isInline_append {cs ds : List Char} :
    IsInline (cs ++ ds) ↔ IsInline cs ∧ IsInline ds :=
  List.forall_mem_append

theorem isInline_intercalate {separator : List Char} {texts : List (List Char)}
    (inline : IsInline separator) (each : ∀ text ∈ texts, IsInline text) :
    IsInline (separator.intercalate texts) := by
  induction texts with
  | nil => exact isInline_nil
  | cons first others ih =>
    obtain ⟨head, tail⟩ := List.forall_mem_cons.1 each
    cases others with
    | nil => simpa using head
    | cons second others =>
      rw [List.intercalate_cons_cons, isInline_append, isInline_append]
      exact ⟨⟨head, inline⟩, ih tail⟩

/-- An inline text has no line break. -/
theorem IsInline.ne_of_mem {text : List Char} {c : Char} (inline : IsInline text) (mem : c ∈ text) :
    c ≠ '\n' ∧ c ≠ '\r' := by
  have visible := inline c mem
  constructor <;> rintro rfl <;> exact absurd visible (by decide)

end Text

/-! ## Numbers and dates -/

theorem Numeral.isInline_of_numeric {text : List Char} (numeric : text.all isNumeric = true) :
    IsInline text := by
  intro c mem
  have isNumeric := List.all_eq_true.1 numeric c mem
  simp only [Numeral.isNumeric, Bool.or_eq_true, beq_iff_eq] at isNumeric
  rcases isNumeric with (((digit | rfl) | rfl) | rfl) | rfl
  · have inRange : 48 ≤ c.toNat ∧ c.toNat ≤ 57 := Char.isDigit_iff_toNat.1 digit
    omega
  all_goals decide

theorem Numeral.isInline_of_digits {text : List Char} (digits : text.all Char.isDigit = true) :
    IsInline text :=
  isInline_of_numeric (Layout.isNumeric_of_digits digits)

theorem Numeral.isInline_writeInteger (n : Int) : IsInline (writeInteger n) := by
  have digits := isInline_of_digits (isDigit_toDigits n.natAbs)
  unfold writeInteger
  split
  · exact isInline_cons.2 ⟨by decide, digits⟩
  · exact digits

theorem Layout.isInline_write {layout : Layout}
    (signed : layout.exponentSign = [] ∨ layout.exponentSign = ['+']) (x : Binary64) :
    IsInline (layout.write x) := by
  cases x with
  | finite negative rank => exact Numeral.isInline_of_numeric (Binary64.isNumeric_write signed rfl)
  | infinite negative => cases negative <;> simp [write, IsInline]
  | nan => simp [write, IsInline]

theorem Calendar.isInline_padded (width n : Nat) : IsInline (padded width n) :=
  Numeral.isInline_of_digits (isDigit_padded width n)

theorem Calendar.isInline_writeYear (year : Int) : IsInline (writeYear year) := by
  have digits := isInline_padded 4 year.natAbs
  unfold writeYear
  split_ifs
  · exact isInline_cons.2 ⟨by decide, digits⟩
  · exact isInline_cons.2 ⟨by decide, digits⟩
  · exact digits

theorem DateTime.isInline_writeIso (places : Nat) (moment : DateTime) :
    IsInline (moment.writeIso places) := by
  simp only [writeIso, isInline_append, isInline_cons, isInline_nil, Calendar.isInline_writeYear,
    Calendar.isInline_padded, true_and, and_true]
  decide

/-! ## Canonical texts -/

theorem Percent.isInline_encodeChars (cs : List Char) : IsInline (encodeChars cs) := by
  have byte (b : UInt8) : IsInline (encodeByte b) := by
    refine forall_byte (motive := fun b => IsInline (encodeByte b)) ?_ b
    decide +kernel
  intro c mem
  obtain ⟨b, -, mem⟩ := List.mem_flatMap.1 mem
  exact byte b c mem

theorem Literal.isInline_chars (value : Literal) : IsInline value.chars := by
  cases value with
  | integer n => exact Numeral.isInline_writeInteger n.toInt
  | float x => exact Layout.isInline_write (.inl rfl) x
  | boolean b => cases b <;> decide
  | null => decide
  | date moment => exact moment.isInline_writeIso datePlaces
  | string text =>
    rw [chars, isInline_append]
    refine ⟨?_, Percent.isInline_encodeChars _⟩
    split <;> decide

/-- The canonical text of a tree is inline. -/
theorem Node.isInline_chars (node : Node) : IsInline node.chars := by
  induction node using Node.induct with
  | apply op args ih =>
    have name : IsInline op.name.toList := by cases op <;> decide
    rw [chars, charsAll_eq_map, isInline_append, isInline_cons, isInline_append]
    exact ⟨name, by decide, isInline_intercalate (by decide) (List.forall_mem_map.2 ih), by decide⟩
  | literal value => exact value.isInline_chars
  | array items =>
    rw [chars, isInline_cons, isInline_append]
    exact ⟨by decide, isInline_intercalate (by decide)
      (List.forall_mem_map.2 fun item _ => item.isInline_chars), by decide⟩
  | field path => exact Percent.isInline_encodeChars _
  | sortKey path direction =>
    rw [chars, isInline_cons]
    exact ⟨by cases direction <;> decide, Percent.isInline_encodeChars _⟩

/-! ## JSON -/

namespace Json

/-- An escaped character is inline, and so is one that needs no escape. -/
theorem isInline_escapeChar (c : Char) : IsInline (escapeChar c) := by
  have digit : ∀ n < 16, 32 ≤ (Nat.digitChar n).toNat := by decide
  unfold escapeChar
  iterate 7
    split
    · decide
  split
  · next control =>
    simpa using ⟨digit (c.toNat / 16) (by omega), digit (c.toNat % 16) (by omega)⟩
  · next visible => exact List.forall_mem_singleton.2 (Nat.le_of_not_lt visible)

theorem isInline_quoted (text : String) : IsInline (quoted text) := by
  have escaped : IsInline (text.toList.flatMap escapeChar) := by
    intro c mem
    obtain ⟨d, -, mem⟩ := List.mem_flatMap.1 mem
    exact isInline_escapeChar d c mem
  rw [quoted, isInline_cons, isInline_append]
  exact ⟨by decide, escaped, by decide⟩

mutual

/-- JSON without blanks is inline. -/
theorem isInline_compactChars : (value : Json) → IsInline value.compactChars
  | .null | .boolean true | .boolean false => by decide
  | .integer n => Numeral.isInline_writeInteger n
  | .float x => Layout.isInline_write (.inr rfl) x
  | .string text => isInline_quoted text
  | .array items => by
    rw [compactChars, isInline_cons, isInline_append]
    exact ⟨by decide, isInline_intercalate (by decide) (isInline_compactItems items), by decide⟩
  | .object fields => by
    rw [compactChars, isInline_cons, isInline_append]
    exact ⟨by decide, isInline_intercalate (by decide) (isInline_compactFields fields), by decide⟩

theorem isInline_compactItems : (items : List Json) → ∀ text ∈ compactItems items, IsInline text
  | [] => nofun
  | item :: items => List.forall_mem_cons.2 ⟨isInline_compactChars item, isInline_compactItems items⟩

theorem isInline_compactFields :
    (fields : List (String × Json)) → ∀ text ∈ compactFields fields, IsInline text
  | [] => nofun
  | (name, value) :: fields => by
    rw [compactFields, List.forall_mem_cons, isInline_append, isInline_cons]
    exact ⟨⟨isInline_quoted name, by decide, isInline_compactChars value⟩, isInline_compactFields fields⟩

end

end Json
end ResourceQuery
