/-!
# Percent coding

A token carries arbitrary text by writing each byte outside a small set of characters as `%` and
two hexadecimal digits. `encode` writes that form and `decode` reads it; in the value of a
shorthand comparison `decode` also takes `+` for a space.
-/

namespace ResourceQuery.Percent
set_option autoImplicit false

/-- Why a token cannot be decoded. -/
inductive DecodeError
  /-- The `%` at this byte position is not followed by two hexadecimal digits. -/
  | malformedEscape (position : Nat)
  /-- The decoded bytes are no UTF-8 text. -/
  | invalidText
deriving DecidableEq, Repr

/-- The wording of a decoding error. -/
def DecodeError.message : DecodeError → String
  | .malformedEscape position => s!"unterminated percent escape at position {position}"
  | .invalidText => "percent escapes do not form valid UTF-8"

/-! ## Bytes of a text -/

/-- The UTF-8 bytes of a text. -/
def utf8 (cs : List Char) : List UInt8 :=
  cs.flatMap String.utf8EncodeChar

/-- The text with these UTF-8 bytes, if they are well formed. -/
def ofUtf8? (bytes : List UInt8) : Option (List Char) :=
  bytes.toByteArray.utf8Decode?.map Array.toList

/-- Reading back the bytes of a text gives the text. -/
@[simp] theorem ofUtf8?_utf8 (cs : List Char) : ofUtf8? (utf8 cs) = some cs := by
  have whole : (utf8 cs).toByteArray = cs.utf8Encode := rfl
  simp [ofUtf8?, whole]

/-! ## Writing -/

/-- The byte of `%`, which opens an escape. -/
def escapeByte : UInt8 := 37

/-- The byte of `+`, a space in the value of a shorthand comparison. -/
def plusByte : UInt8 := 43

/-- The byte of a space. -/
def spaceByte : UInt8 := 32

/-- Bytes that stand for themselves: ASCII letters and digits, `-`, `_`, `.` and `~`. -/
def isUnreserved (b : UInt8) : Bool :=
  (48 ≤ b && b ≤ 57) || (65 ≤ b && b ≤ 90) || (97 ≤ b && b ≤ 122) ||
    b == 45 || b == 95 || b == 46 || b == 126

/-- The upper-case hexadecimal digit of a value below sixteen. -/
def hexDigit (n : Nat) : Char :=
  if n < 10 then Char.ofNat (48 + n) else Char.ofNat (55 + n)

/-- A byte as it stands in a token. -/
def encodeByte (b : UInt8) : List Char :=
  if isUnreserved b then [Char.ofNat b.toNat]
  else ['%', hexDigit (b.toNat / 16), hexDigit (b.toNat % 16)]

/-- The characters of a text as they stand in a token. -/
def encodeChars (cs : List Char) : List Char :=
  (utf8 cs).flatMap encodeByte

/-- The form of a text that survives as a single token. -/
def encode (text : String) : String :=
  String.ofList (encodeChars text.toList)

/-! ## Reading -/

/-- The value of a hexadecimal digit, in either case. -/
def hexValue? (b : UInt8) : Option Nat :=
  if 48 ≤ b && b ≤ 57 then some (b.toNat - 48)
  else if 65 ≤ b && b ≤ 70 then some (b.toNat - 55)
  else if 97 ≤ b && b ≤ 102 then some (b.toNat - 87)
  else none

/-- The first two bytes are hexadecimal digits. -/
def startsWithHexPair : List UInt8 → Bool
  | high :: low :: _ => (hexValue? high).isSome && (hexValue? low).isSome
  | _ => false

/-- The position of the first `%` without two hexadecimal digits behind it. -/
def badEscape? : List UInt8 → Option Nat
  | [] => none
  | b :: bs =>
    if b == escapeByte && !startsWithHexPair bs then some 0
    else (badEscape? bs).map (· + 1)

/-- Each escape replaced by its byte. A `%` that opens no escape stays. -/
def unescape : List UInt8 → List UInt8
  | b :: high :: low :: bs =>
    if b == escapeByte then
      match hexValue? high, hexValue? low with
      | some x, some y => UInt8.ofNat (16 * x + y) :: unescape bs
      | _, _ => b :: unescape (high :: low :: bs)
    else b :: unescape (high :: low :: bs)
  | bs => bs

/-- Each `+` replaced by a space. -/
def plusToSpace (bs : List UInt8) : List UInt8 :=
  bs.map fun b => if b == plusByte then spaceByte else b

/-- The characters a token stands for. All escapes are checked before any is read, and `+` is
replaced before escapes are, so that `%2B` still yields a plus. -/
def decodeChars (plusAsSpace : Bool) (cs : List Char) : Except DecodeError (List Char) :=
  let bytes := utf8 cs
  match badEscape? bytes with
  | some position => .error (.malformedEscape position)
  | none =>
    match ofUtf8? (unescape (if plusAsSpace then plusToSpace bytes else bytes)) with
    | some decoded => .ok decoded
    | none => .error .invalidText

/-- The text a token stands for. -/
def decode (plusAsSpace : Bool) (raw : String) : Except DecodeError String :=
  (decodeChars plusAsSpace raw.toList).map String.ofList

end ResourceQuery.Percent
