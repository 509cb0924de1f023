import Mathlib.Order.Bounds.Basic
import ResourceQuery.Proofs.Text.PlusSigns

/-!
# Decoding in a single pass

`decode` goes over a token three times: it checks all escapes, it replaces plus signs, and only then it
reads the escapes. `scan` is the decoder one would write instead, a single pass over the bytes that stops
at the first escape it cannot read. The passes never disagree, because an escape that has been checked
holds neither a `%` nor a plus sign behind its own `%`.

Main statement: decoding fails at a position exactly where the single pass stops, which is the first `%`
without two digits behind it; otherwise it yields the text whose bytes the single pass has emitted, and
fails when there is no such text.
-/

namespace ResourceQuery.Percent
set_option autoImplicit false

/-! ## The single pass -/

/-- The value of a hexadecimal digit: its place among the digits, in either case. -/
def digitValue? (b : UInt8) : Option Nat :=
  "0123456789abcdef".toList.findIdx? fun digit => digit == (Char.ofNat b.toNat).toLower

/-- What is emitted for a byte that opens no escape. -/
def copied (plusAsSpace : Bool) (b : UInt8) : UInt8 :=
  if plusAsSpace = true ∧ b = plusByte then spaceByte else b

/-- The bytes emitted from a position on, or the position of the first escape that cannot be read. -/
def scan (plusAsSpace : Bool) : Nat → List UInt8 → Except Nat (List UInt8)
  | _, [] => .ok []
  | position, b :: bs =>
    if b = escapeByte then
      match bs with
      | high :: low :: rest =>
        match digitValue? high, digitValue? low with
        | some x, some y => (UInt8.ofNat (16 * x + y) :: ·) <$> scan plusAsSpace (position + 3) rest
        | _, _ => .error position
      | _ => .error position
    else (copied plusAsSpace b :: ·) <$> scan plusAsSpace (position + 1) bs

/-- At this position stands a `%` without two hexadecimal digits behind it. -/
def IsStray (bytes : List UInt8) (position : Nat) : Prop :=
  bytes[position]? = some escapeByte ∧
    ¬((bytes[position + 1]?.bind digitValue?).isSome ∧ (bytes[position + 2]?.bind digitValue?).isSome)

/-! ## Digits -/

theorem digitValue?_eq (b : UInt8) : digitValue? b = hexValue? b := by
  refine forall_byte (motive := fun b => digitValue? b = hexValue? b) ?_ b
  decide +kernel

/-- The bytes in which plus signs are replaced are those that are emitted. -/
theorem map_copied (plusAsSpace : Bool) (bs : List UInt8) :
    (if plusAsSpace then plusToSpace bs else bs) = bs.map (copied plusAsSpace) := by
  cases plusAsSpace with
  | false => exact ((List.map_congr_left fun b _ => by simp [copied]).trans (List.map_id _)).symm
  | true => simp [plusToSpace, copied]

theorem copied_of_ne {b : UInt8} (plusAsSpace : Bool) (other : b ≠ plusByte) :
    copied plusAsSpace b = b :=
  if_neg fun plus => other plus.2

/-- A plus sign is replaced by what opens no escape either. -/
theorem copied_ne_escapeByte {b : UInt8} (plusAsSpace : Bool) (plain : b ≠ escapeByte) :
    copied plusAsSpace b ≠ escapeByte := by
  rw [copied]
  split
  · decide
  · exact plain

/-! ## Steps -/

/-- How the bytes begin: with a byte that opens no escape, with an escape, or with a `%` that opens none. -/
inductive Opening : List UInt8 → Prop
  | nil : Opening []
  | plain {b : UInt8} (isPlain : b ≠ escapeByte) (bs : List UInt8) : Opening (b :: bs)
  | escape {high low : UInt8} {x y : Nat} (isHigh : hexValue? high = some x)
      (isLow : hexValue? low = some y) (rest : List UInt8) : Opening (escapeByte :: high :: low :: rest)
  | stray {bs : List UInt8} (isStray : startsWithHexPair bs = false) : Opening (escapeByte :: bs)

theorem opening : ∀ bs : List UInt8, Opening bs
  | [] => .nil
  | b :: bs => by
    by_cases opens : b = escapeByte
    · subst opens
      cases pair : startsWithHexPair bs with
      | false => exact .stray pair
      | true =>
        obtain ⟨high, low, rest, x, y, rfl, isHigh, isLow⟩ := exists_of_startsWithHexPair pair
        exact .escape isHigh isLow rest
    · exact .plain opens bs

variable {plusAsSpace : Bool} {position : Nat}

theorem scan_plain {b : UInt8} (isPlain : b ≠ escapeByte) (bs : List UInt8) :
    scan plusAsSpace position (b :: bs) =
      (copied plusAsSpace b :: ·) <$> scan plusAsSpace (position + 1) bs := by
  obtain _ | ⟨high, _ | ⟨low, rest⟩⟩ := bs <;> simp [scan, isPlain]

theorem scan_escape {high low : UInt8} {x y : Nat} (isHigh : hexValue? high = some x)
    (isLow : hexValue? low = some y) (rest : List UInt8) :
    scan plusAsSpace position (escapeByte :: high :: low :: rest) =
      (UInt8.ofNat (16 * x + y) :: ·) <$> scan plusAsSpace (position + 3) rest := by
  rw [scan, if_pos rfl]
  simp only [digitValue?_eq, isHigh, isLow]

theorem scan_stray {bs : List UInt8} (isStray : startsWithHexPair bs = false) :
    scan plusAsSpace position (escapeByte :: bs) = .error position := by
  obtain _ | ⟨high, _ | ⟨low, rest⟩⟩ := bs
  · simp [scan]
  · simp [scan]
  · rw [scan, if_pos rfl]
    simp only [digitValue?_eq]
    cases isHigh : hexValue? high with
    | none => rfl
    | some x =>
      cases isLow : hexValue? low with
      | none => rfl
      | some y => simp [startsWithHexPair, isHigh, isLow] at isStray

theorem badEscape?_plain {b : UInt8} (isPlain : b ≠ escapeByte) (bs : List UInt8) :
    badEscape? (b :: bs) = (badEscape? bs).map (· + 1) := by
  simp [badEscape?, isPlain]

/-- The digits of an escape are skipped by the check of all bytes, too: none of them is a `%`. -/
theorem badEscape?_pair {high low : UInt8} {x y : Nat} (isHigh : hexValue? high = some x)
    (isLow : hexValue? low = some y) (rest : List UInt8) :
    badEscape? (escapeByte :: high :: low :: rest) = (badEscape? rest).map (· + 3) := by
  have pair : startsWithHexPair (high :: low :: rest) = true := by simp [startsWithHexPair, isHigh, isLow]
  have highPlain : high ≠ escapeByte := ne_escapeByte_of_hexValue? (by simp [isHigh])
  have lowPlain : low ≠ escapeByte := ne_escapeByte_of_hexValue? (by simp [isLow])
  have opens : badEscape? (escapeByte :: high :: low :: rest) =
      (badEscape? (high :: low :: rest)).map (· + 1) := by simp [badEscape?.eq_2 escapeByte, pair]
  rw [opens, badEscape?_plain highPlain, badEscape?_plain lowPlain, Option.map_map, Option.map_map]
  rfl

theorem badEscape?_stray {bs : List UInt8} (isStray : startsWithHexPair bs = false) :
    badEscape? (escapeByte :: bs) = some 0 := by
  simp [badEscape?, isStray]

/-! ## Runs -/

/-- The single pass stops where the check of all escapes fails, and emits what the later passes yield. -/
theorem scan_eq (plusAsSpace : Bool) : ∀ (position : Nat) (bs : List UInt8),
    scan plusAsSpace position bs =
      match badEscape? bs with
      | some behind => .error (position + behind)
      | none => .ok (unescape (bs.map (copied plusAsSpace)))
  | position, bs => by
    cases opening bs with
    | nil => rfl
    | plain isPlain bs =>
      rw [scan_plain isPlain, badEscape?_plain isPlain, List.map_cons,
        unescape_cons (copied_ne_escapeByte _ isPlain), scan_eq plusAsSpace (position + 1) bs]
      cases badEscape? bs with
      | none => rfl
      | some behind => exact congrArg Except.error (Nat.add_right_comm ..)
    | @escape high low _ _ isHigh isLow rest =>
      -- Neither digit is a plus sign, so replacing those leaves the escape as it is.
      have highKept := copied_of_ne plusAsSpace (ne_plusByte_of_hexValue? (b := high) (by simp [isHigh]))
      have lowKept := copied_of_ne plusAsSpace (ne_plusByte_of_hexValue? (b := low) (by simp [isLow]))
      have opens := copied_of_ne (b := escapeByte) plusAsSpace (by decide)
      rw [scan_escape isHigh isLow, badEscape?_pair isHigh isLow, List.map_cons, List.map_cons,
        List.map_cons, opens, highKept, lowKept, unescape_escape isHigh isLow,
        scan_eq plusAsSpace (position + 3) rest]
      cases badEscape? rest with
      | none => rfl
      | some behind => exact congrArg Except.error (Nat.add_right_comm ..)
    | stray isStray => rw [scan_stray isStray, badEscape?_stray isStray]; rfl
termination_by _ bs => bs.length

/-! ## The first stray escape -/

theorem isStray_zero_iff {b : UInt8} {bs : List UInt8} :
    IsStray (b :: bs) 0 ↔ b = escapeByte ∧ startsWithHexPair bs = false := by
  obtain _ | ⟨high, _ | ⟨low, rest⟩⟩ := bs <;> simp [IsStray, startsWithHexPair, digitValue?_eq]

theorem isStray_succ_iff {b : UInt8} {bs : List UInt8} :
    IsStray (b :: bs) (position + 1) ↔ IsStray bs position :=
  Iff.rfl

/-- The check of all bytes finds the first `%` that opens no escape. -/
theorem badEscape?_eq_some_iff {bs : List UInt8} {place : Nat} :
    badEscape? bs = some place ↔ IsLeast {position | IsStray bs position} place := by
  induction bs generalizing place with
  | nil =>
    refine iff_of_false (by simp [badEscape?]) fun least => ?_
    have stray : IsStray [] place := least.1
    simp [IsStray] at stray
  | cons b bs ih =>
    by_cases atFirst : IsStray (b :: bs) 0
    · obtain ⟨rfl, isStray⟩ := isStray_zero_iff.1 atFirst
      rw [badEscape?_stray isStray, Option.some.injEq]
      constructor
      · rintro rfl
        exact ⟨atFirst, fun _ _ => Nat.zero_le _⟩
      · exact fun least => (Nat.le_zero.1 (least.2 atFirst)).symm
    · have step : badEscape? (b :: bs) = (badEscape? bs).map (· + 1) := by
        rw [badEscape?, if_neg]
        simpa [isStray_zero_iff] using atFirst
      cases place with
      | zero =>
        refine iff_of_false (by simp [step]) fun least => atFirst least.1
      | succ place =>
        simp only [step, Option.map_eq_some_iff, Nat.add_right_cancel_iff, exists_eq_right, ih]
        constructor
        · rintro ⟨stray, least⟩
          refine ⟨isStray_succ_iff.2 stray, fun position isStray => ?_⟩
          cases position with
          | zero => exact absurd isStray atFirst
          | succ position => exact Nat.succ_le_succ (least (isStray_succ_iff.1 isStray))
        · rintro ⟨stray, least⟩
          exact ⟨isStray_succ_iff.1 stray, fun position isStray =>
            Nat.le_of_succ_le_succ (least (isStray_succ_iff.2 isStray))⟩

/-! ## Texts -/

/-- What is read from bytes is the text with these bytes. -/
theorem ofUtf8?_eq_some_iff {bytes : List UInt8} {cs : List Char} :
    ofUtf8? bytes = some cs ↔ utf8 cs = bytes := by
  constructor
  · intro read
    obtain ⟨decoded, isDecoded, rfl⟩ := Option.map_eq_some_iff.1 read
    have whole := ByteArray.utf8Encode_get_utf8Decode? (h := Option.isSome_iff_exists.2 ⟨_, isDecoded⟩)
    simp only [isDecoded, Option.get_some] at whole
    exact List.toByteArray_inj.1 whole
  · rintro rfl
    exact ofUtf8?_utf8 cs

theorem utf8_inj {cs ds : List Char} : utf8 cs = utf8 ds ↔ cs = ds := by
  rw [← ofUtf8?_eq_some_iff, ofUtf8?_utf8, Option.some.injEq, eq_comm]

theorem ofUtf8?_eq_none_iff {bytes : List UInt8} :
    ofUtf8? bytes = none ↔ ∀ cs, utf8 cs ≠ bytes := by
  simp only [Option.eq_none_iff_forall_ne_some, ne_eq, ofUtf8?_eq_some_iff]

/-- **Main.** Decoding a token fails at a position exactly where the single pass over its bytes stops, and
that is the first `%` without two hexadecimal digits behind it. Where the single pass comes through, the
token stands for the text whose bytes it has emitted, and fails if they are those of no text. -/
theorem decode_iff_scan (plusAsSpace : Bool) (raw : String) :
    (∀ position, decode plusAsSpace raw = .error (.malformedEscape position) ↔
        scan plusAsSpace 0 (utf8 raw.toList) = .error position) ∧
      (∀ position, scan plusAsSpace 0 (utf8 raw.toList) = .error position ↔
        IsLeast {position | IsStray (utf8 raw.toList) position} position) ∧
      (decode plusAsSpace raw = .error .invalidText ↔
        ∃ bytes, scan plusAsSpace 0 (utf8 raw.toList) = .ok bytes ∧ ∀ text : String, utf8 text.toList ≠ bytes) ∧
      ∀ text : String, decode plusAsSpace raw = .ok text ↔
        scan plusAsSpace 0 (utf8 raw.toList) = .ok (utf8 text.toList) := by
  have emitted := scan_eq plusAsSpace 0 (utf8 raw.toList)
  simp only [decode, decodeChars, map_copied, ← badEscape?_eq_some_iff, emitted]
  cases badEscape? (utf8 raw.toList) with
  | some place => simp [Except.map]
  | none =>
    generalize unescape ((utf8 raw.toList).map (copied plusAsSpace)) = bytes
    cases read : ofUtf8? bytes with
    | none =>
      have noText (text : String) : utf8 text.toList ≠ bytes := ofUtf8?_eq_none_iff.1 read _
      simpa [Except.map, eq_comm] using noText
    | some cs =>
      obtain rfl := ofUtf8?_eq_some_iff.1 read
      have isText : ∃ text : String, utf8 text.toList = utf8 cs := ⟨String.ofList cs, by simp⟩
      simpa [Except.map, utf8_inj, String.ext_iff] using isText

example : scan true 0 (utf8 "a+%2B%2".toList) = .error 5 := by
  decide +kernel

end ResourceQuery.Percent
