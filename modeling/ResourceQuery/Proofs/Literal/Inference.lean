import ResourceQuery.Literal.Inference
import ResourceQuery.Proofs.Decimal.Patterns
import ResourceQuery.Proofs.Rendering.Literals

/-!
# What a text stands for

Types are tried in a fixed order, so a text has the first type whose description fits it. The descriptions are
those of the patterns: `SpellsInteger` and `SpellsFinite` say nothing about the order in which characters are
read.

Main statement: a text stands for the integer that it spells if it fits into 64 bits, else for the finite number
that it spells, for a truth value or nothing if it is one of three words, else for the date that it is, and for
itself if it is none of these.
-/

namespace ResourceQuery
set_option autoImplicit false
open Numeral Computability

/-! ## Numbers of any kind -/

namespace Binary64

/-- The number that a text spells where infinity and what is no number can be written, too: as words, in letters
of any case, behind a sign or none. -/
def parse? (cs : List Char) : Option Binary64 :=
  let (negative, word) := takeSign cs
  match word.map Char.toLower with
  | ['i', 'n', 'f'] | ['i', 'n', 'f', 'i', 'n', 'i', 't', 'y'] => some (.infinite negative)
  | ['n', 'a', 'n'] => some .nan
  | _ => (read? cs).map ofNumeral

variable {cs : List Char}

/-- No text of the pattern is one of the words. -/
theorem parse?_of_mem (matched : cs ∈ Pattern.decimal.matches') :
    parse? cs = (read? cs).map ofNumeral := by
  rw [Pattern.decimal, Pattern.mem_signed Pattern.isUnsigned_mantissa] at matched
  obtain ⟨c, rest, same, opens⟩ := Pattern.exists_opening matched
  obtain ⟨-, -, notI, notN⟩ := Pattern.opening_spec opens
  simp only [parse?, same, List.map_cons]
  split
  · next word => exact absurd (List.cons.inj word).1 notI
  · next word => exact absurd (List.cons.inj word).1 notI
  · next word => exact absurd (List.cons.inj word).1 notN
  · rfl

/-- Every text of the pattern is a number. -/
theorem exists_parse?_of_mem (matched : cs ∈ Pattern.decimal.matches') : ∃ x, parse? cs = some x := by
  obtain ⟨n, read⟩ := Pattern.exists_read?_iff.2 matched
  exact ⟨ofNumeral n, by rw [parse?_of_mem matched, read, Option.map_some]⟩

end Binary64

namespace Literal

/-! ## Descriptions -/

/-- The text is an integer of the pattern, and what it stands for fits into 64 bits. -/
structure SpellsInteger (text : String) (n : Int64) : Prop where
  matched : text.toList ∈ Pattern.integer.matches'
  value : Pattern.integerValue text.toList = n.toInt

/-- The text is a decimal of the pattern, and the number nearest to it is finite. -/
structure SpellsFinite (text : String) (x : Binary64) : Prop where
  matched : text.toList ∈ Pattern.decimal.matches'
  value : Binary64.parse? text.toList = some x
  finite : x.isFinite = true

/-- The text is none of the words, no integer of 64 bits and no finite number. -/
structure IsUntyped (text : String) : Prop where
  notWord : text ∉ ["true", "false", "null"]
  notInteger : ∀ n, ¬SpellsInteger text n
  notFinite : ∀ x, ¬SpellsFinite text x

variable {text : String} {n : Int64} {x : Binary64}

theorem int64?_eq_some_iff {value : Int} : int64? value = some n ↔ value = n.toInt := by
  have least := n.le_toInt
  have most := n.toInt_lt
  unfold int64?
  split
  · next range =>
    rw [Option.some.injEq]
    constructor
    · rintro rfl
      exact (Int64.toInt_ofInt_of_le range.1 (by omega)).symm
    · rintro rfl
      exact Int64.ofInt_toInt n
  · next outside =>
    refine ⟨nofun, ?_⟩
    rintro rfl
    exact absurd ⟨least, by omega⟩ outside

theorem integer?_eq_some_iff : integer? text = some n ↔ SpellsInteger text n := by
  simp only [integer?, Option.bind_eq_some_iff, int64?_eq_some_iff, Pattern.readInteger?_eq_some_iff]
  constructor
  · rintro ⟨value, ⟨matched, rfl⟩, same⟩
    exact ⟨matched, same⟩
  · rintro ⟨matched, value⟩
    exact ⟨_, ⟨matched, value⟩, rfl⟩

theorem float?_eq_some_iff : float? text = some x ↔ SpellsFinite text x := by
  rw [float?, Option.filter_eq_some_iff]
  constructor
  · rintro ⟨read, finite⟩
    obtain ⟨numeral, isNumeral, -⟩ := Option.map_eq_some_iff.1 read
    have matched := Pattern.exists_read?_iff.1 ⟨numeral, isNumeral⟩
    exact ⟨matched, (Binary64.parse?_of_mem matched).trans read, finite⟩
  · rintro ⟨matched, value, finite⟩
    exact ⟨(Binary64.parse?_of_mem matched).symm.trans value, finite⟩

/-! ## The order of types -/

/-- The words are no numbers, so that it does not matter that they come first. -/
theorem not_number_of_word {word : String} (isWord : word ∈ ["true", "false", "null"]) :
    integer? word = none ∧ float? word = none := by
  simp only [List.mem_cons, List.not_mem_nil, or_false] at isWord
  rcases isWord with rfl | rfl | rfl <;> decide +kernel

theorem isUntyped_iff :
    IsUntyped text ↔ text ∉ ["true", "false", "null"] ∧ integer? text = none ∧ float? text = none := by
  simp only [Option.eq_none_iff_forall_ne_some, ne_eq, integer?_eq_some_iff, float?_eq_some_iff]
  constructor
  · rintro ⟨notWord, notInteger, notFinite⟩
    exact ⟨notWord, notInteger, notFinite⟩
  · rintro ⟨notWord, notInteger, notFinite⟩
    exact ⟨notWord, notInteger, notFinite⟩

/-- The texts that stand for a literal where nothing says its type. -/
def IsDenotedBy (text : String) : Literal → Prop
  | .integer n => SpellsInteger text n
  | .float x => (∀ n, ¬SpellsInteger text n) ∧ SpellsFinite text x
  | .boolean b => text = if b then "true" else "false"
  | .null => text = "null"
  | .date moment => IsUntyped text ∧ DateTime.parseIso text = .ok moment
  | .string value => IsUntyped text ∧ (∀ moment, DateTime.parseIso text ≠ .ok moment) ∧ value = text

theorem isDenotedBy_infer (text : String) : (infer text).IsDenotedBy text := by
  unfold infer
  split_ifs with isTrue isFalse isNull
  · exact isTrue
  · exact isFalse
  · exact isNull
  · have notWord : text ∉ ["true", "false", "null"] := by simp [isTrue, isFalse, isNull]
    split
    · next n _ _ read => exact integer?_eq_some_iff.1 read
    · next x _ noInteger read =>
      refine ⟨fun n spells => ?_, float?_eq_some_iff.1 read⟩
      rw [integer?_eq_some_iff.2 spells] at noInteger
      cases noInteger
    · next moment noInteger noFloat read => exact ⟨isUntyped_iff.2 ⟨notWord, noInteger, noFloat⟩, read⟩
    · next error noInteger noFloat read =>
      refine ⟨isUntyped_iff.2 ⟨notWord, noInteger, noFloat⟩, fun moment isDate => ?_, rfl⟩
      rw [isDate] at read
      cases read

theorem ne_words (notWord : text ∉ ["true", "false", "null"]) :
    text ≠ "true" ∧ text ≠ "false" ∧ text ≠ "null" := by
  simpa only [List.mem_cons, List.not_mem_nil, or_false, not_or] using notWord

/-- What is a number is none of the words. -/
theorem ne_words_of_number (number : integer? text ≠ none ∨ float? text ≠ none) :
    text ≠ "true" ∧ text ≠ "false" ∧ text ≠ "null" := by
  refine ne_words fun isWord => ?_
  obtain ⟨noInteger, noFloat⟩ := not_number_of_word isWord
  exact number.elim (absurd noInteger) (absurd noFloat)

theorem IsDenotedBy.infer_eq {value : Literal} (denoted : value.IsDenotedBy text) : infer text = value := by
  cases value with
  | integer n =>
    have read := integer?_eq_some_iff.2 denoted
    obtain ⟨notTrue, notFalse, notNull⟩ := ne_words_of_number (.inl (read ▸ Option.some_ne_none n))
    simp only [infer, if_neg notTrue, if_neg notFalse, if_neg notNull, read]
  | float x =>
    obtain ⟨noInteger, spells⟩ := denoted
    have read := float?_eq_some_iff.2 spells
    have unread : integer? text = none := by
      refine Option.eq_none_iff_forall_ne_some.2 fun n read => ?_
      exact noInteger n (integer?_eq_some_iff.1 read)
    obtain ⟨notTrue, notFalse, notNull⟩ := ne_words_of_number (.inr (read ▸ Option.some_ne_none x))
    simp only [infer, if_neg notTrue, if_neg notFalse, if_neg notNull, unread, read]
  | boolean b =>
    cases b <;> rw [show text = _ from denoted] <;> rfl
  | null =>
    rw [show text = "null" from denoted]
    rfl
  | date moment =>
    obtain ⟨untyped, isDate⟩ := denoted
    obtain ⟨notWord, noInteger, noFloat⟩ := isUntyped_iff.1 untyped
    obtain ⟨notTrue, notFalse, notNull⟩ := ne_words notWord
    simp only [infer, if_neg notTrue, if_neg notFalse, if_neg notNull, noInteger, noFloat, isDate]
  | string value =>
    obtain ⟨untyped, noDate, rfl⟩ := denoted
    obtain ⟨notWord, noInteger, noFloat⟩ := isUntyped_iff.1 untyped
    obtain ⟨notTrue, notFalse, notNull⟩ := ne_words notWord
    cases read : DateTime.parseIso value with
    | ok moment => exact absurd read (noDate moment)
    | error error =>
      simp only [infer, if_neg notTrue, if_neg notFalse, if_neg notNull, noInteger, noFloat, read]

/-- The decimal text of an integer, as a text. -/
theorem ofList_writeInteger (n : Int) : String.ofList (writeInteger n) = toString n := by
  cases n with
  | ofNat n => rfl
  | negSucc n =>
    have signed : toString (Int.negSucc n) = "-" ++ String.ofList (Nat.toDigits 10 (n + 1)) := rfl
    rw [signed, writeInteger, if_pos (Int.negSucc_lt_zero n), ← String.toList_inj]
    simp only [String.toList_append, String.toList_ofList]
    rfl

/-- **Main.** A text stands for a literal exactly if the description of the literal's type fits it and that of
no earlier type does; every text of the pattern of decimals is a number; and the decimal text of a 64-bit
integer stands for the integer. -/
theorem infer_eq_iff_isDenotedBy (text : String) :
    (∀ value, infer text = value ↔ value.IsDenotedBy text) ∧
      (text.toList ∈ Pattern.decimal.matches' → ∃ x, Binary64.parse? text.toList = some x) ∧
      ∀ n : Int64, infer (toString n) = .integer n := by
  refine ⟨fun value => ⟨?_, IsDenotedBy.infer_eq⟩, Binary64.exists_parse?_of_mem, fun n => ?_⟩
  · rintro rfl
    exact isDenotedBy_infer text
  · have written := infer_writeInteger n
    rwa [ofList_writeInteger] at written

/-- The integer before the least one of 64 bits is written like an integer and stands for a number. -/
theorem infer_eq_iff_isDenotedBy_beforeLeast :
    "-9223372036854775809".toList ∈ Pattern.integer.matches' ∧
      "-9223372036854775809".toList ∈ Pattern.decimal.matches' ∧
      (∃ x, Binary64.parse? "-9223372036854775809".toList = some x ∧
        infer "-9223372036854775809" = .float x) ∧
      infer "-9223372036854775808" = .integer Int64.minValue := by
  have isInteger : "-9223372036854775809".toList ∈ Pattern.integer.matches' :=
    (Pattern.readInteger?_eq_some_iff.1 (by decide +kernel : _ = some (-9223372036854775809))).1
  have isDecimal : "-9223372036854775809".toList ∈ Pattern.decimal.matches' :=
    Pattern.exists_read?_iff.1 ⟨_, rfl⟩
  have noInteger : ∀ n, ¬SpellsInteger "-9223372036854775809" n := by
    have unread : integer? "-9223372036854775809" = none := by decide +kernel
    intro n spells
    rw [integer?_eq_some_iff.2 spells] at unread
    cases unread
  obtain ⟨types, number, integers⟩ := infer_eq_iff_isDenotedBy "-9223372036854775809"
  obtain ⟨x, read⟩ := number isDecimal
  have finite : x.isFinite = true := by
    have all : (Binary64.parse? "-9223372036854775809".toList).all Binary64.isFinite = true := by decide +kernel
    rwa [read] at all
  refine ⟨isInteger, isDecimal, ⟨x, read, (types _).2 ⟨noInteger, isDecimal, read, finite⟩⟩, ?_⟩
  exact integers Int64.minValue

end Literal
end ResourceQuery
