import Mathlib.Data.List.TakeWhile
import Mathlib.Tactic
import ResourceQuery.Node.Rendering
import ResourceQuery.Proofs.Calendar.Iso
import ResourceQuery.Proofs.Decimal.Layouts
import ResourceQuery.Proofs.Node.Kinds
import ResourceQuery.Proofs.Surface.Completeness.Characters
import ResourceQuery.Proofs.Text.Percent
import ResourceQuery.Resolution

/-!
# Literals read back

A literal that can be written reads back from its token as itself: a number or a date opens with a
digit or a hyphen, so it is none of the words and names no tag, and a string that would read back as
anything else is marked.
-/

namespace ResourceQuery
set_option autoImplicit false
open Numeral Text Surface Grammar

/-! ## Characters -/

/-- What holds of the first 128 characters holds of all ASCII characters. -/
theorem Text.forall_ascii {motive : Char → Prop} (each : ∀ n < 128, motive (Char.ofNat n)) {c : Char}
    (ascii : c.toNat < 128) : motive c := by
  have := each c.toNat ascii
  rwa [Char.ofNat_toNat] at this

theorem Text.toNat_lt_of_isAlphanum {c : Char} (alphanumeric : c.isAlphanum = true) : c.toNat < 128 := by
  unfold Char.isAlphanum Char.isAlpha Char.isUpper Char.isLower Char.isDigit at alphanumeric
  simp only [Bool.or_eq_true, Bool.and_eq_true, decide_eq_true_eq, ge_iff_le, UInt32.le_iff_toNat_le]
    at alphanumeric
  rcases alphanumeric with (⟨-, most⟩ | ⟨-, most⟩) | ⟨-, most⟩
  all_goals exact Nat.lt_of_le_of_lt most (by decide)

namespace Literal

/-- The characters that literals other than strings are written in. -/
def isPlain (c : Char) : Bool :=
  isNumeric c || c == 'T' || c == ':' || c == 'Z'

theorem toNat_lt_of_isPlain {c : Char} (plain : isPlain c = true) : c.toNat < 128 := by
  simp only [isPlain, isNumeric, Bool.or_eq_true, beq_iff_eq] at plain
  rcases plain with ((((((digit | rfl) | rfl) | rfl) | rfl) | rfl) | rfl) | rfl
  · exact Text.toNat_lt_of_isAlphanum (Bool.or_eq_true_iff.2 (.inr digit))
  all_goals decide

/-- A character that goes on a token and stands for itself in it. -/
def isVerbatim (c : Char) : Bool :=
  decide (c.toNat < 128) && c != '%' && continuesToken c

theorem isVerbatim_of_isPlain {c : Char} (plain : isPlain c = true) : isVerbatim c = true := by
  have ascii := toNat_lt_of_isPlain plain
  revert plain
  refine Text.forall_ascii (motive := fun c => isPlain c = true → isVerbatim c = true) ?_ ascii
  decide +kernel

/-- Encoded characters go on a token too, and none is a colon. -/
theorem isWritten_spec {c : Char} (written : Percent.isWritten c = true) :
    c ≠ ':' ∧ continuesToken c = true := by
  constructor
  · rintro rfl
    exact absurd written (by decide)
  · simp only [Percent.isWritten, Bool.or_eq_true, beq_iff_eq] at written
    rcases written with ((((alphanumeric | rfl) | rfl) | rfl) | rfl) | rfl
    · exact continuesToken_of_continuesName (by simp [continuesName, alphanumeric])
    all_goals decide

theorem encodeChars_spec (cs : List Char) :
    (∀ c ∈ Percent.encodeChars cs, c ≠ ':') ∧
      (Percent.encodeChars cs).all continuesToken = true := by
  have written : ∀ c ∈ Percent.encodeChars cs, c ≠ ':' ∧ continuesToken c = true := fun c mem =>
    isWritten_spec (Percent.isWritten_of_mem_encodeChars mem)
  exact ⟨fun c mem => (written c mem).1, List.all_eq_true.2 fun c mem => (written c mem).2⟩

/-! ## Numbers and dates -/

/-- A digit or a hyphen comes first. -/
def opensNumber : List Char → Bool
  | [] => false
  | c :: _ => c.isDigit || c == '-'

theorem opensNumber_of_digits {cs : List Char} (nonempty : cs ≠ [])
    (opens : ∀ c ∈ cs.head?, c.isDigit = true) : opensNumber cs = true := by
  obtain ⟨c, rest, rfl⟩ := List.exists_cons_of_ne_nil nonempty
  rw [opensNumber, opens c rfl, Bool.true_or]

theorem opensNumber_signed (negative : Bool) {cs : List Char} (opens : opensNumber cs = true) :
    opensNumber ((if negative then ['-'] else []) ++ cs) = true := by
  cases negative with
  | false => exact opens
  | true => rfl

variable {cs : List Char}

/-- What opens like a number names no tag. -/
theorem split?_eq_none (opens : opensNumber cs = true) :
    TypeTag.split? (String.ofList cs) = none := by
  have unnamed : TypeTag.ofName? (String.ofList (cs.takeWhile (· != ':'))) = none := by
    refine List.find?_eq_none.2 fun tag _ same => ?_
    have name : tag.name.toList = cs.takeWhile (· != ':') := by
      rw [beq_iff_eq.1 same, String.toList_ofList]
    have opensName : opensNumber tag.name.toList = true := by
      cases cs with
      | nil => simp [opensNumber] at opens
      | cons c rest =>
        have notColon : (c != ':') = true := by
          refine bne_iff_ne.2 ?_
          rintro rfl
          simp [opensNumber] at opens
        rw [name, List.takeWhile_cons, if_pos notColon]
        exact opens
    cases tag <;> exact absurd opensName (by decide)
  simp only [TypeTag.split?, String.toList_ofList]
  split
  · rfl
  · rw [unnamed]
    rfl

/-- What opens like a number is none of the words. -/
theorem ne_word (opens : opensNumber cs = true) :
    String.ofList cs ≠ "true" ∧ String.ofList cs ≠ "false" ∧ String.ofList cs ≠ "null" := by
  have other : ∀ word : String, opensNumber word.toList = false → String.ofList cs ≠ word := by
    rintro word unlike rfl
    rw [String.toList_ofList, opens] at unlike
    exact Bool.noConfusion unlike
  exact ⟨other _ (by decide), other _ (by decide), other _ (by decide)⟩

theorem isPlain_of_isNumeric (numeric : cs.all isNumeric = true) : cs.all isPlain = true := by
  rw [List.all_eq_true] at numeric ⊢
  intro c mem
  simp only [isPlain, numeric c mem, Bool.true_or]

/-- An integer is a sign and digits. -/
theorem writeInteger_spec (n : Int) :
    opensNumber (writeInteger n) = true ∧ (writeInteger n).all isPlain = true := by
  have digits := isDigit_toDigits n.natAbs
  have plain := isPlain_of_isNumeric (Layout.isNumeric_of_digits digits)
  have opens := opensNumber_of_digits Nat.toDigits_ne_nil (isDigit_head digits)
  unfold writeInteger
  split
  · refine ⟨rfl, ?_⟩
    rw [List.all_cons, plain]
    rfl
  · exact ⟨opens, plain⟩

theorem infer_writeInteger (n : Int64) :
    infer (String.ofList (writeInteger n.toInt)) = .integer n := by
  have range : -9223372036854775808 ≤ n.toInt ∧ n.toInt ≤ 9223372036854775807 :=
    ⟨n.le_toInt, Int.le_of_lt_add_one n.toInt_lt⟩
  have read : integer? (String.ofList (writeInteger n.toInt)) = some n := by
    rw [integer?, String.toList_ofList, readInteger?_writeInteger, Option.bind_some, int64?,
      if_pos range, Int64.ofInt_toInt]
  obtain ⟨notTrue, notFalse, notNull⟩ := ne_word (writeInteger_spec n.toInt).1
  simp only [infer, if_neg notTrue, if_neg notFalse, if_neg notNull, read]

theorem signed_floatLayout : floatLayout.exponentSign = [] ∨ floatLayout.exponentSign = ['+'] :=
  .inl rfl

/-- A finite number is a sign and a decimal. -/
theorem writeFloat_spec {x : Binary64} (finite : x.isFinite = true) :
    opensNumber (floatLayout.write x) = true ∧ (floatLayout.write x).all isPlain = true := by
  refine ⟨?_, isPlain_of_isNumeric (Binary64.isNumeric_write signed_floatLayout finite)⟩
  obtain ⟨negative, d, text, same, spells, -⟩ :=
    Binary64.exists_spells_write signed_floatLayout finite
  obtain ⟨c, mem, -⟩ := spells.exists_not_digit
  rw [same]
  exact opensNumber_signed negative (opensNumber_of_digits (List.ne_nil_of_mem mem) spells.opens)

theorem infer_writeFloat {x : Binary64} (finite : x.isFinite = true) :
    infer (String.ofList (floatLayout.write x)) = .float x := by
  have noInteger : integer? (String.ofList (floatLayout.write x)) = none := by
    rw [integer?, String.toList_ofList, Binary64.readInteger?_write signed_floatLayout finite]
    rfl
  have read : float? (String.ofList (floatLayout.write x)) = some x := by
    rw [float?, String.toList_ofList, Binary64.ofNumeral_write signed_floatLayout finite,
      Option.filter_some_pos finite]
  obtain ⟨notTrue, notFalse, notNull⟩ := ne_word (writeFloat_spec finite).1
  simp only [infer, if_neg notTrue, if_neg notFalse, if_neg notNull, noInteger, read]

/-- A moment is digits and a few other characters, digits first. -/
theorem writeIso_spec {moment : DateTime} (writable : moment.IsWritable) :
    opensNumber (moment.writeIso 6) = true ∧ (moment.writeIso 6).all isPlain = true := by
  obtain ⟨rest, same, characters⟩ := DateTime.exists_writeIso_eq writable
  constructor
  · have year := Calendar.padded_ne_nil 4 moment.date.year.natAbs
    have digits := isDigit_head (Calendar.isDigit_padded 4 moment.date.year.natAbs)
    obtain ⟨c, cs, first⟩ := List.exists_cons_of_ne_nil year
    rw [first] at digits
    rw [same, first, List.cons_append, opensNumber, digits c rfl, Bool.true_or]
  · refine List.all_eq_true.2 fun c mem => ?_
    rcases characters c mem with digit | other
    · simp [isPlain, isNumeric, digit]
    · have plain : ['-', 'T', ':', '.', 'Z'].all isPlain = true := by decide
      exact List.all_eq_true.1 plain c other

theorem infer_writeIso {moment : DateTime} (writable : moment.IsWritable) :
    infer (String.ofList (moment.writeIso 6)) = .date moment := by
  obtain ⟨noInteger, noNumeral⟩ := DateTime.readInteger?_writeIso writable
  have noInteger' : integer? (String.ofList (moment.writeIso 6)) = none := by
    rw [integer?, String.toList_ofList, noInteger]
    rfl
  have noFloat : float? (String.ofList (moment.writeIso 6)) = none := by
    rw [float?, String.toList_ofList, noNumeral]
    rfl
  obtain ⟨notTrue, notFalse, notNull⟩ := ne_word (writeIso_spec writable).1
  simp only [infer, if_neg notTrue, if_neg notFalse, if_neg notNull, noInteger', noFloat,
    DateTime.parseIso_writeIso writable]

/-! ## Strings -/

/-- A text that is inferred to be a string is the string. -/
theorem infer_eq_string {text value : String} (inferred : infer text = .string value) :
    value = text := by
  unfold infer at inferred
  split_ifs at inferred
  split at inferred <;> simp_all

/-- A string that needs no mark is inferred from its text. -/
theorem infer_of_not_needsMark {text : String} (unmarked : needsMark text = false) :
    text ≠ "" ∧ infer text = .string text := by
  simp only [needsMark, Bool.or_eq_false_iff, decide_eq_false_iff_not] at unmarked
  obtain ⟨nonempty, isString⟩ := unmarked
  refine ⟨nonempty, ?_⟩
  split at isString
  · next value inferred => rw [inferred, infer_eq_string inferred]
  · exact Bool.noConfusion isString

/-! ## Tokens -/

/-- A literal that can be written: a number is finite, and a date has the places it is written
with. -/
def IsWritable : Literal → Prop
  | .float x => x.isFinite = true
  | .date moment => moment.IsWritable
  | _ => True

/-- The characters of a token, which stand for a literal. -/
structure Tokenizes (cs : List Char) (value : Literal) : Prop where
  nonempty : cs ≠ []
  continues : cs.all continuesToken = true
  reads : ∀ query span, Resolution.literal query false ⟨String.ofList cs, span⟩ = .ok value

/-- Characters that stand for themselves and name no tag stand for the literal that is inferred from
them. -/
theorem tokenizes_of_untagged {value : Literal} (nonempty : cs ≠ [])
    (verbatim : cs.all isVerbatim = true)
    (untagged : TypeTag.split? (String.ofList cs) = none)
    (inferred : infer (String.ofList cs) = value) : Tokenizes cs value := by
  have characters : ∀ c ∈ cs, (c.toNat < 128 ∧ c ≠ '%') ∧ continuesToken c = true := by
    intro c mem
    have spec := List.all_eq_true.1 verbatim c mem
    simpa only [isVerbatim, Bool.and_eq_true, decide_eq_true_eq, bne_iff_ne] using spec
  have decoded : Percent.decode false (String.ofList cs) = .ok (String.ofList cs) := by
    rw [Percent.decode, String.toList_ofList,
      Percent.decodeChars_of_ascii fun c mem => (characters c mem).1]
    rfl
  refine ⟨nonempty, List.all_eq_true.2 fun c mem => (characters c mem).2, ?_⟩
  intro query span
  simp only [Resolution.literal, untagged, decoded, inferred]

/-- What opens like a number, in plain characters, names no tag. -/
theorem tokenizes_of_plain {value : Literal}
    (spec : opensNumber cs = true ∧ cs.all isPlain = true)
    (inferred : infer (String.ofList cs) = value) : Tokenizes cs value := by
  obtain ⟨opens, plain⟩ := spec
  have verbatim : cs.all isVerbatim = true := List.all_eq_true.2 fun c mem =>
    isVerbatim_of_isPlain (List.all_eq_true.1 plain c mem)
  refine tokenizes_of_untagged ?_ verbatim (split?_eq_none opens) inferred
  rintro rfl
  exact Bool.noConfusion opens

/-- An encoded text names no tag: it holds no colon. -/
theorem split?_encode (text : String) : TypeTag.split? (Percent.encode text) = none := by
  have none : (Percent.encodeChars text.toList).dropWhile (· != ':') = [] :=
    List.dropWhile_eq_nil_iff.2 fun c mem => bne_iff_ne.2 ((encodeChars_spec text.toList).1 c mem)
  simp only [TypeTag.split?, Percent.encode, String.toList_ofList, none]

theorem split?_marked (text : String) :
    TypeTag.split? (String.ofList
      (['s', 't', 'r', 'i', 'n', 'g', ':'] ++ Percent.encodeChars text.toList)) =
      some (.string, Percent.encode text) := by
  rw [TypeTag.split?, String.toList_ofList]
  rfl

/-- The mark of a string is split off before anything is decoded. -/
theorem tokenizes_marked (text : String) :
    Tokenizes (['s', 't', 'r', 'i', 'n', 'g', ':'] ++ Percent.encodeChars text.toList)
      (.string text) := by
  refine ⟨List.cons_ne_nil _ _, ?_, fun query span => ?_⟩
  · rw [List.all_append, (encodeChars_spec text.toList).2]
    decide
  · simp only [Resolution.literal, split?_marked, Percent.decode_encode]
    rfl

/-- A string that needs no mark names no tag once it is encoded. -/
theorem tokenizes_unmarked {text : String} (unmarked : needsMark text = false) :
    Tokenizes (Percent.encodeChars text.toList) (.string text) := by
  obtain ⟨nonempty, inferred⟩ := infer_of_not_needsMark unmarked
  refine ⟨?_, (encodeChars_spec text.toList).2, fun query span => ?_⟩
  · rwa [ne_eq, Percent.encodeChars_eq_nil, String.toList_eq_nil_iff]
  · change Resolution.literal query false ⟨Percent.encode text, span⟩ = _
    simp only [Resolution.literal, split?_encode, Percent.decode_encode, inferred]

/-- The token of a string stands for it, marked or not. -/
theorem tokenizes_string (text : String) : Tokenizes (chars (.string text)) (.string text) := by
  rw [chars]
  split
  · exact tokenizes_marked text
  · next unmarked => exact tokenizes_unmarked (Bool.eq_false_iff.2 unmarked)

/-- **Main.** The token of a literal that can be written stands for it. -/
theorem tokenizes_chars {value : Literal} (writable : value.IsWritable) :
    Tokenizes value.chars value := by
  cases value with
  | integer n => exact tokenizes_of_plain (writeInteger_spec n.toInt) (infer_writeInteger n)
  | float x => exact tokenizes_of_plain (writeFloat_spec writable) (infer_writeFloat writable)
  | boolean b =>
    cases b with
    | false => exact tokenizes_of_untagged (List.cons_ne_nil _ _) (by decide) rfl rfl
    | true => exact tokenizes_of_untagged (List.cons_ne_nil _ _) (by decide) rfl rfl
  | null => exact tokenizes_of_untagged (List.cons_ne_nil _ _) (by decide) rfl rfl
  | date moment => exact tokenizes_of_plain (writeIso_spec writable) (infer_writeIso writable)
  | string text => exact tokenizes_string text

end Literal
end ResourceQuery
