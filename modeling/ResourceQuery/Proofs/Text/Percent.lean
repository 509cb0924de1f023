import Mathlib.Data.List.Basic
import ResourceQuery.Text.Percent

/-!
# Percent coding reads back

What `encodeChars` writes, `decodeChars` reads back, also where it takes `+` for a space. Both work
byte by byte, so the argument is about one byte in front of others. A text in which nothing has to
be escaped stands for itself.
-/

namespace ResourceQuery.Percent
set_option autoImplicit false

/-! ## Characters of tokens -/

/-- The characters that encoded text is made of. -/
def isWritten (c : Char) : Bool :=
  c.isAlphanum || c == '-' || c == '_' || c == '.' || c == '~' || c == '%'

/-- What holds of the first 256 bytes holds of all bytes. -/
theorem forall_byte {motive : UInt8 → Prop} (each : ∀ n < 256, motive (UInt8.ofNat n)) (b : UInt8) :
    motive b := by
  have := each b.toNat b.toNat_lt
  rwa [UInt8.ofNat_toNat] at this

theorem isWritten_of_mem_encodeByte (b : UInt8) : (encodeByte b).all isWritten = true := by
  refine forall_byte (motive := fun b => (encodeByte b).all isWritten = true) ?_ b
  decide +kernel

theorem isWritten_of_mem_encodeChars {cs : List Char} {c : Char} (mem : c ∈ encodeChars cs) :
    isWritten c = true := by
  obtain ⟨b, -, mem⟩ := List.mem_flatMap.1 mem
  exact List.all_eq_true.1 (isWritten_of_mem_encodeByte b) c mem

/-- Only an empty text is encoded as nothing. -/
theorem encodeChars_eq_nil {cs : List Char} : encodeChars cs = [] ↔ cs = [] := by
  constructor
  · intro empty
    cases cs with
    | nil => rfl
    | cons c cs =>
      obtain ⟨b, bs, bytes⟩ := List.exists_cons_of_ne_nil (String.utf8EncodeChar_ne_nil (c := c))
      rw [encodeChars, utf8, List.flatMap_cons, bytes] at empty
      simp [encodeByte] at empty
      split at empty <;> simp at empty
  · rintro rfl
    rfl

/-! ## Bytes of tokens -/

/-- The byte of a hexadecimal digit. -/
def hexByte (n : Nat) : UInt8 :=
  UInt8.ofNat (hexDigit n).toNat

theorem hexValue?_hexByte {n : Nat} (small : n < 16) :
    hexValue? (hexByte n) = some n ∧ hexByte n ≠ plusByte ∧ hexByte n ≠ escapeByte := by
  revert n
  decide

/-- A byte is written as itself, or as an escape of its two digits. -/
theorem utf8_encodeByte (b : UInt8) :
    utf8 (encodeByte b) =
      if isUnreserved b then [b]
      else [escapeByte, hexByte (b.toNat / 16), hexByte (b.toNat % 16)] := by
  refine forall_byte (motive := fun b => utf8 (encodeByte b) = if isUnreserved b then [b]
    else [escapeByte, hexByte (b.toNat / 16), hexByte (b.toNat % 16)]) ?_ b
  decide +kernel

theorem ne_of_isUnreserved {b : UInt8} (unreserved : isUnreserved b = true) :
    b ≠ escapeByte ∧ b ≠ plusByte := by
  constructor <;> rintro rfl <;> simp [isUnreserved, escapeByte, plusByte] at unreserved

/-- What stands for the bytes of a text, byte after byte. -/
def escaped (bs : List UInt8) : List UInt8 :=
  bs.flatMap fun b => utf8 (encodeByte b)

theorem utf8_encodeChars (cs : List Char) : utf8 (encodeChars cs) = escaped (utf8 cs) := by
  simp only [encodeChars, escaped, utf8, List.flatMap_assoc]

/-! ## Reading back -/

/-- A byte that opens no escape is read as itself. -/
theorem unescape_cons {b : UInt8} (plain : b ≠ escapeByte) (bs : List UInt8) :
    unescape (b :: bs) = b :: unescape bs := by
  obtain _ | ⟨high, _ | ⟨low, rest⟩⟩ := bs
  · rfl
  · rfl
  · rw [unescape, if_neg (by simpa using plain)]

theorem unescape_escape {high low : UInt8} {x y : Nat} (isHigh : hexValue? high = some x)
    (isLow : hexValue? low = some y) (bs : List UInt8) :
    unescape (escapeByte :: high :: low :: bs) = UInt8.ofNat (16 * x + y) :: unescape bs := by
  rw [unescape, if_pos (by decide), isHigh, isLow]

theorem unescape_escaped (bs : List UInt8) : unescape (escaped bs) = bs := by
  induction bs with
  | nil => rfl
  | cons b bs ih =>
    rw [escaped, List.flatMap_cons, utf8_encodeByte, ← escaped]
    split
    · next unreserved =>
      rw [List.singleton_append, unescape_cons (ne_of_isUnreserved unreserved).1, ih]
    · have small := b.toNat_lt
      have isHigh := (hexValue?_hexByte (n := b.toNat / 16) (by omega)).1
      have isLow := (hexValue?_hexByte (n := b.toNat % 16) (by omega)).1
      have digits : 16 * (b.toNat / 16) + b.toNat % 16 = b.toNat := Nat.div_add_mod ..
      rw [List.cons_append, List.cons_append, List.singleton_append, unescape_escape isHigh isLow,
        ih, digits, UInt8.ofNat_toNat]

/-- A byte that opens no escape is no bad one. -/
theorem badEscape?_cons {b : UInt8} {bs : List UInt8} (plain : b ≠ escapeByte)
    (good : badEscape? bs = none) : badEscape? (b :: bs) = none := by
  simp [badEscape?, plain, good]

theorem badEscape?_escaped (bs : List UInt8) : badEscape? (escaped bs) = none := by
  induction bs with
  | nil => rfl
  | cons b bs ih =>
    rw [escaped, List.flatMap_cons, utf8_encodeByte, ← escaped]
    split
    · next unreserved => exact badEscape?_cons (ne_of_isUnreserved unreserved).1 ih
    · have small := b.toNat_lt
      obtain ⟨isHigh, -, highPlain⟩ := hexValue?_hexByte (n := b.toNat / 16) (by omega)
      obtain ⟨isLow, -, lowPlain⟩ := hexValue?_hexByte (n := b.toNat % 16) (by omega)
      have behind := badEscape?_cons highPlain (badEscape?_cons lowPlain ih)
      simp only [List.cons_append, List.nil_append, badEscape?] at behind ⊢
      simpa [startsWithHexPair, isHigh, isLow] using behind

/-- No plus sign is left where a text is escaped. -/
theorem plusToSpace_escaped (bs : List UInt8) : plusToSpace (escaped bs) = escaped bs := by
  have plain : ∀ b ∈ escaped bs, b ≠ plusByte := by
    intro b mem
    obtain ⟨source, -, mem⟩ := List.mem_flatMap.1 mem
    have small := source.toNat_lt
    rw [utf8_encodeByte] at mem
    split at mem
    · next unreserved =>
      obtain rfl := List.mem_singleton.1 mem
      exact (ne_of_isUnreserved unreserved).2
    · simp only [List.mem_cons, List.not_mem_nil, or_false] at mem
      rcases mem with rfl | rfl | rfl
      · decide
      · exact (hexValue?_hexByte (by omega)).2.1
      · exact (hexValue?_hexByte (by omega)).2.1
  rw [plusToSpace]
  exact (List.map_congr_left fun b mem => by simp [plain b mem]).trans (List.map_id _)

/-- What is written is read back, whether or not `+` stands for a space. -/
theorem decodeChars_encodeChars (plusAsSpace : Bool) (cs : List Char) :
    decodeChars plusAsSpace (encodeChars cs) = .ok cs := by
  have bytes : (if plusAsSpace then plusToSpace (escaped (utf8 cs)) else escaped (utf8 cs)) =
      escaped (utf8 cs) := by
    split
    · exact plusToSpace_escaped _
    · rfl
  simp only [decodeChars, utf8_encodeChars, badEscape?_escaped, bytes, unescape_escaped,
    ofUtf8?_utf8]

/-- An encoded text reads back as itself. -/
theorem decode_encode (plusAsSpace : Bool) (text : String) :
    decode plusAsSpace (encode text) = .ok text := by
  rw [decode, encode, String.toList_ofList, decodeChars_encodeChars]
  exact congrArg Except.ok String.ofList_toList

/-! ## Texts without escapes -/

/-- An ASCII character is one byte. -/
theorem utf8_singleton {c : Char} (ascii : c.toNat < 128) : utf8 [c] = [UInt8.ofNat c.toNat] := by
  have one : c.utf8Size = 1 := Char.utf8Size_eq_one_iff.2 (by
    rw [UInt32.le_iff_toNat_le]
    exact Nat.lt_succ_iff.1 ascii)
  simp only [utf8, List.flatMap_cons, List.flatMap_nil, List.append_nil,
    String.utf8EncodeChar_eq_singleton one]
  rfl

/-- A text of ASCII characters without `%` stands for itself. -/
theorem decodeChars_of_ascii {cs : List Char} (ascii : ∀ c ∈ cs, c.toNat < 128 ∧ c ≠ '%') :
    decodeChars false cs = .ok cs := by
  have plain : badEscape? (utf8 cs) = none ∧ unescape (utf8 cs) = utf8 cs := by
    induction cs with
    | nil => exact ⟨rfl, rfl⟩
    | cons c cs ih =>
      obtain ⟨small, notPercent⟩ := ascii c List.mem_cons_self
      obtain ⟨good, same⟩ := ih fun d mem => ascii d (List.mem_cons_of_mem _ mem)
      have bytes : utf8 (c :: cs) = UInt8.ofNat c.toNat :: utf8 cs := by
        have head := utf8_singleton small
        simp only [utf8, List.flatMap_cons, List.flatMap_nil, List.append_nil] at head ⊢
        rw [head, List.singleton_append]
      have notEscape : UInt8.ofNat c.toNat ≠ escapeByte := by
        intro same
        have value := congrArg UInt8.toNat same
        rw [UInt8.toNat_ofNat', Nat.mod_eq_of_lt (by omega)] at value
        exact notPercent (Char.ext (UInt32.toNat.inj value))
      rw [bytes]
      exact ⟨badEscape?_cons notEscape good, by rw [unescape_cons notEscape, same]⟩
  simp [decodeChars, plain.1, plain.2]

end ResourceQuery.Percent
