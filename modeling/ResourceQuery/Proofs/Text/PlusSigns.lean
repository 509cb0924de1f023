import ResourceQuery.Proofs.Text.Percent

/-!
# Plus signs written out

Where `+` is taken for a space, a token stands for the same text as the token in which every `+` is
written out as `%20`, read with `+` as itself.

Main statement: the two tokens are decoded to the same text, or neither is decoded.
-/

namespace ResourceQuery.Percent
set_option autoImplicit false

/-- The character, or the escape of a space for a plus sign. -/
def writeOutPlus (c : Char) : List Char :=
  if c = '+' then ['%', '2', '0'] else [c]

/-- The token with every `+` written out as `%20`. -/
def plusWrittenOut (token : String) : String :=
  String.ofList (token.toList.flatMap writeOutPlus)

/-! ## Bytes -/

/-- The bytes with every plus sign written out. -/
def spread (bs : List UInt8) : List UInt8 :=
  bs.flatMap fun b => if b = plusByte then [escapeByte, 50, 48] else [b]

theorem spread_plus (bs : List UInt8) :
    spread (plusByte :: bs) = escapeByte :: 50 :: 48 :: spread bs :=
  rfl

theorem spread_cons {b : UInt8} (other : b ≠ plusByte) (bs : List UInt8) :
    spread (b :: bs) = b :: spread bs := by
  rw [spread, List.flatMap_cons, if_neg other, List.singleton_append, ← spread]

theorem spread_eq_self {bs : List UInt8} (others : ∀ b ∈ bs, b ≠ plusByte) : spread bs = bs := by
  induction bs with
  | nil => rfl
  | cons b bs ih =>
    obtain ⟨other, others⟩ := List.forall_mem_cons.1 others
    rw [spread_cons other, ih others]

/-- No byte of another character is the one of a plus sign. -/
theorem ne_plusByte_of_mem {c : Char} (other : c ≠ '+') {b : UInt8}
    (mem : b ∈ String.utf8EncodeChar c) : b ≠ plusByte := by
  intro same
  have value : b.toNat = 43 := congrArg UInt8.toNat same
  simp only [String.utf8EncodeChar] at mem
  split at mem
  · obtain rfl := List.mem_singleton.1 mem
    rw [UInt8.toNat_ofNat', Nat.mod_eq_of_lt (by omega)] at value
    exact other (Char.ext (UInt32.toNat.inj value))
  · -- All bytes of a character beyond ASCII are at least 128.
    have large : ∃ n, 128 ≤ n ∧ n < 256 ∧ b = UInt8.ofNat n := by
      repeat' split at mem
      all_goals
        simp only [List.mem_cons, List.not_mem_nil, or_false] at mem
      · rcases mem with rfl | rfl
        all_goals exact ⟨_, by omega, by omega, rfl⟩
      · rcases mem with rfl | rfl | rfl
        all_goals exact ⟨_, by omega, by omega, rfl⟩
      · rcases mem with rfl | rfl | rfl | rfl
        all_goals exact ⟨_, by omega, by omega, rfl⟩
    obtain ⟨n, atLeast, small, rfl⟩ := large
    rw [UInt8.toNat_ofNat', Nat.mod_eq_of_lt small] at value
    omega

theorem utf8_flatMap_writeOutPlus (cs : List Char) :
    utf8 (cs.flatMap writeOutPlus) = spread (utf8 cs) := by
  have each (c : Char) : utf8 (writeOutPlus c) = spread (String.utf8EncodeChar c) := by
    rw [writeOutPlus]
    split
    · next same => subst same; decide
    · next other =>
      rw [spread_eq_self fun b => ne_plusByte_of_mem other]
      simp [utf8]
  simp only [utf8, List.flatMap_assoc, spread] at each ⊢
  simp only [each]

/-! ## Escapes -/

theorem ne_plusByte_of_hexValue? {b : UInt8} (isDigit : (hexValue? b).isSome = true) :
    b ≠ plusByte := by
  rintro rfl
  exact absurd isDigit (by decide)

theorem ne_escapeByte_of_hexValue? {b : UInt8} (isDigit : (hexValue? b).isSome = true) :
    b ≠ escapeByte := by
  rintro rfl
  exact absurd isDigit (by decide)

/-- Writing out plus signs makes no hexadecimal digits right behind a place and takes none away. -/
theorem startsWithHexPair_spread (bs : List UInt8) :
    startsWithHexPair (spread bs) = startsWithHexPair bs := by
  have notDigit : (hexValue? escapeByte).isSome = false := by decide
  have notDigit' : (hexValue? plusByte).isSome = false := by decide
  obtain _ | ⟨high, _ | ⟨low, rest⟩⟩ := bs
  · rfl
  · by_cases plus : high = plusByte
    · subst plus
      rfl
    · rw [spread_cons plus]
      rfl
  · by_cases plus : high = plusByte
    · subst plus
      simp [spread_plus, startsWithHexPair, notDigit, notDigit']
    · by_cases plus' : low = plusByte
      · subst plus'
        simp [spread_cons plus, spread_plus, startsWithHexPair, notDigit, notDigit']
      · simp [spread_cons plus, spread_cons plus', startsWithHexPair]

theorem badEscape?_cons_iff {b : UInt8} (plain : b ≠ escapeByte) (bs : List UInt8) :
    badEscape? (b :: bs) = none ↔ badEscape? bs = none := by
  simp [badEscape?, plain]

theorem badEscape?_escape_iff {bs : List UInt8} :
    badEscape? (escapeByte :: bs) = none ↔ startsWithHexPair bs = true ∧ badEscape? bs = none := by
  cases opens : startsWithHexPair bs <;> simp [badEscape?, opens]

theorem exists_of_startsWithHexPair {bs : List UInt8} (opens : startsWithHexPair bs = true) :
    ∃ high low rest x y, bs = high :: low :: rest ∧ hexValue? high = some x ∧ hexValue? low = some y := by
  obtain _ | ⟨high, _ | ⟨low, rest⟩⟩ := bs
  · simp [startsWithHexPair] at opens
  · simp [startsWithHexPair] at opens
  · rw [startsWithHexPair, Bool.and_eq_true, Option.isSome_iff_exists, Option.isSome_iff_exists] at opens
    obtain ⟨⟨x, isHigh⟩, y, isLow⟩ := opens
    exact ⟨high, low, rest, x, y, rfl, isHigh, isLow⟩

/-- The escapes are all well formed or not, however plus signs are written. -/
theorem badEscape?_spread (bs : List UInt8) :
    badEscape? (spread bs) = none ↔ badEscape? bs = none := by
  induction bs with
  | nil => rfl
  | cons b bs ih =>
    by_cases plus : b = plusByte
    · subst plus
      have written : startsWithHexPair (50 :: 48 :: spread bs) = true := by
        rw [startsWithHexPair]
        decide
      rw [spread_plus, badEscape?_escape_iff, badEscape?_cons_iff (by decide),
        badEscape?_cons_iff (by decide), badEscape?_cons_iff (by decide), ih]
      exact and_iff_right written
    · rw [spread_cons plus]
      by_cases opens : b = escapeByte
      · rw [opens, badEscape?_escape_iff, badEscape?_escape_iff, startsWithHexPair_spread, ih]
      · rw [badEscape?_cons_iff opens, badEscape?_cons_iff opens, ih]

theorem plusToSpace_plus (bs : List UInt8) : plusToSpace (plusByte :: bs) = spaceByte :: plusToSpace bs :=
  rfl

theorem plusToSpace_cons {b : UInt8} (other : b ≠ plusByte) (bs : List UInt8) :
    plusToSpace (b :: bs) = b :: plusToSpace bs := by
  rw [plusToSpace, List.map_cons, if_neg (by simpa using other), ← plusToSpace]

/-- Well-formed escapes read the same bytes from plus signs that are written out and from plus signs taken
for spaces. -/
theorem unescape_spread :
    ∀ bs : List UInt8, badEscape? bs = none → unescape (spread bs) = unescape (plusToSpace bs)
  | [], _ => rfl
  | b :: bs, good => by
    by_cases plus : b = plusByte
    · subst plus
      rw [badEscape?_cons_iff (by decide)] at good
      have isHigh : hexValue? 50 = some 2 := by decide
      have isLow : hexValue? 48 = some 0 := by decide
      rw [spread_plus, unescape_escape isHigh isLow, plusToSpace_plus, unescape_cons (by decide),
        unescape_spread bs good]
      rfl
    · by_cases opens : b = escapeByte
      · -- The digits of an escape are no plus signs, so the escape is the same in both.
        rw [opens, badEscape?_escape_iff] at good
        obtain ⟨high, low, rest, x, y, rfl, isHigh, isLow⟩ := exists_of_startsWithHexPair good.1
        have other : high ≠ plusByte := ne_plusByte_of_hexValue? (by simp [isHigh])
        have other' : low ≠ plusByte := ne_plusByte_of_hexValue? (by simp [isLow])
        have plain : high ≠ escapeByte := ne_escapeByte_of_hexValue? (by simp [isHigh])
        have plain' : low ≠ escapeByte := ne_escapeByte_of_hexValue? (by simp [isLow])
        have later : badEscape? rest = none :=
          (badEscape?_cons_iff plain' rest).1 ((badEscape?_cons_iff plain _).1 good.2)
        rw [spread_cons plus, spread_cons other, spread_cons other', plusToSpace_cons plus,
          plusToSpace_cons other, plusToSpace_cons other', opens, unescape_escape isHigh isLow,
          unescape_escape isHigh isLow, unescape_spread rest later]
      · rw [badEscape?_cons_iff opens] at good
        rw [spread_cons plus, plusToSpace_cons plus, unescape_cons opens, unescape_cons opens,
          unescape_spread bs good]
termination_by bs => bs.length

/-! ## Tokens -/

/-- **Main.** A token in which every `+` is written out as `%20` is decoded to what the token is decoded to
where `+` stands for a space, and is not decoded where the token is not. -/
theorem decode_plusWrittenOut (token text : String) :
    decode true token = .ok text ↔ decode false (plusWrittenOut token) = .ok text := by
  have bytes := utf8_flatMap_writeOutPlus token.toList
  simp only [decode, decodeChars, plusWrittenOut, String.toList_ofList, bytes]
  cases good : badEscape? (utf8 token.toList) with
  | none => simp [(badEscape?_spread _).2 good, unescape_spread _ good]
  | some place =>
    cases bad : badEscape? (spread (utf8 token.toList)) with
    | none => simp [(badEscape?_spread _).1 bad] at good
    | some place' => simp [Except.map]

end ResourceQuery.Percent
