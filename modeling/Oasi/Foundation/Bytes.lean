import Mathlib.Data.List.Basic

/-! # Byte strings, UTF-8 and LF-terminated lines

Text is stored as Unicode strings and written as bytes. This module fixes the
two directions between them and the line structure of a byte stream, over the
UTF-8 encoder of the core library.
-/

namespace Oasi

abbrev Bytes := List UInt8

/-- The UTF-8 encoding of a string. -/
def utf8 (text : String) : Bytes := text.toByteArray.data.toList

/-- Strict UTF-8 decoding; `none` on malformed input. -/
def fromUtf8 (bytes : Bytes) : Option String := String.fromUTF8? bytes.toByteArray

theorem utf8_toByteArray (text : String) : (utf8 text).toByteArray = text.toByteArray := by
  apply ByteArray.ext
  simp [utf8]

theorem utf8_eq_flatMap (text : String) :
    utf8 text = text.toList.flatMap String.utf8EncodeChar := by
  rw [utf8, ← String.utf8Encode_toList, List.utf8Encode]
  simp

@[simp] theorem utf8_empty : utf8 "" = [] := rfl

@[simp] theorem utf8_append (left right : String) :
    utf8 (left ++ right) = utf8 left ++ utf8 right := by
  simp [utf8_eq_flatMap]

theorem length_utf8 (text : String) : (utf8 text).length = text.utf8ByteSize := rfl

theorem utf8_injective {left right : String} (h : utf8 left = utf8 right) : left = right := by
  rw [← String.toByteArray_inj, ← utf8_toByteArray, ← utf8_toByteArray, h]

theorem fromUtf8_eq_some {bytes : Bytes} {text : String} :
    fromUtf8 bytes = some text ↔ utf8 text = bytes := by
  unfold fromUtf8 String.fromUTF8?
  constructor
  · intro h
    split at h
    next hvalid =>
      cases h
      simp [utf8, String.fromUTF8]
    next => cases h
  · rintro rfl
    have hvalid : (utf8 text).toByteArray.IsValidUTF8 := by
      rw [utf8_toByteArray]
      exact text.isValidUTF8
    rw [dif_pos hvalid]
    congr 1
    apply utf8_injective
    simp [utf8, String.fromUTF8]

@[simp] theorem fromUtf8_utf8 (text : String) : fromUtf8 (utf8 text) = some text :=
  fromUtf8_eq_some.mpr rfl

@[simp] theorem fromUtf8_nil : fromUtf8 [] = some "" := fromUtf8_eq_some.mpr rfl

/-- Decoding may be split at any character boundary. -/
theorem fromUtf8_utf8_append (text : String) (bytes : Bytes) :
    fromUtf8 (utf8 text ++ bytes) = (fromUtf8 bytes).map (text ++ ·) := by
  cases hrest : fromUtf8 bytes with
  | some rest =>
      rw [fromUtf8_eq_some] at hrest
      rw [Option.map_some, fromUtf8_eq_some, ← hrest, utf8_append]
  | none =>
      rw [Option.map_none, Option.eq_none_iff_forall_ne_some]
      intro whole hwhole
      rw [fromUtf8_eq_some] at hwhole
      have harrays : text.toList.utf8Encode ++ bytes.toByteArray = whole.toList.utf8Encode := by
        rw [String.utf8Encode_toList, String.utf8Encode_toList, ← utf8_toByteArray whole, hwhole,
          List.toByteArray_append, utf8_toByteArray]
      obtain ⟨tail, htail⟩ := List.isPrefix_of_utf8Encode_append_eq_utf8Encode _ harrays
      have hdecoded : fromUtf8 bytes = some (String.ofList tail) := by
        rw [fromUtf8_eq_some]
        rw [utf8_eq_flatMap, utf8_eq_flatMap, ← htail, List.flatMap_append] at hwhole
        simpa [utf8_eq_flatMap] using List.append_cancel_left hwhole
      simp [hdecoded] at hrest

/-! ## ASCII and non-ASCII characters -/

theorem utf8EncodeChar_ascii {char : Char} (h : char.toNat < 128) :
    String.utf8EncodeChar char = [UInt8.ofNat char.toNat] := by
  have hsize : char.utf8Size = 1 := by
    rw [Char.utf8Size_eq_one_iff, UInt32.le_iff_toNat_le]
    exact Nat.le_of_lt_succ h
  rw [String.utf8EncodeChar_eq_singleton hsize]
  rfl

theorem flatMap_utf8EncodeChar_ascii {chars : List Char}
    (h : ∀ char ∈ chars, char.toNat < 128) :
    chars.flatMap String.utf8EncodeChar = chars.map fun char => UInt8.ofNat char.toNat := by
  induction chars with
  | nil => rfl
  | cons char chars ih =>
      rw [List.flatMap_cons, utf8EncodeChar_ascii (h char List.mem_cons_self),
        ih fun other hother => h other (List.mem_cons_of_mem _ hother), List.map_cons,
        List.singleton_append]

private theorem le_or_of_le (byte mark : UInt8) (h : 128 ≤ mark) : 128 ≤ byte ||| mark := by
  rw [UInt8.le_iff_toNat_le, UInt8.toNat_or] at *
  exact Nat.le_trans h Nat.right_le_or

/-- Every byte of a multi-byte character has its high bit set. -/
theorem utf8EncodeChar_nonascii {char : Char} (h : 128 ≤ char.toNat) {byte : UInt8}
    (hbyte : byte ∈ String.utf8EncodeChar char) : 128 ≤ byte := by
  have hsize : char.utf8Size ≠ 1 := by
    rw [Ne, Char.utf8Size_eq_one_iff, UInt32.le_iff_toNat_le]
    intro hle
    have : char.toNat ≤ 127 := hle
    omega
  rcases char.utf8Size_eq with hone | htwo | hthree | hfour
  · exact absurd hone hsize
  · rw [String.utf8EncodeChar_eq_cons_cons htwo] at hbyte
    simp only [List.mem_cons, List.not_mem_nil, or_false] at hbyte
    rcases hbyte with rfl | rfl <;> exact le_or_of_le _ _ (by decide)
  · rw [String.utf8EncodeChar_eq_cons_cons_cons hthree] at hbyte
    simp only [List.mem_cons, List.not_mem_nil, or_false] at hbyte
    rcases hbyte with rfl | rfl | rfl <;> exact le_or_of_le _ _ (by decide)
  · rw [String.utf8EncodeChar_eq_cons_cons_cons_cons hfour] at hbyte
    simp only [List.mem_cons, List.not_mem_nil, or_false] at hbyte
    rcases hbyte with rfl | rfl | rfl | rfl <;> exact le_or_of_le _ _ (by decide)

/-! ## Texts as lists of characters -/

/-- The bytes of a text. -/
def encode (text : List Char) : Bytes := text.flatMap String.utf8EncodeChar

@[simp] theorem encode_nil : encode [] = [] := rfl

@[simp] theorem encode_append (left right : List Char) :
    encode (left ++ right) = encode left ++ encode right := List.flatMap_append

theorem encode_cons (char : Char) (rest : List Char) :
    encode (char :: rest) = String.utf8EncodeChar char ++ encode rest := rfl

theorem encode_ascii {char : Char} (h : char.toNat < 128) (rest : List Char) :
    encode (char :: rest) = UInt8.ofNat char.toNat :: encode rest := by
  rw [encode_cons, utf8EncodeChar_ascii h, List.singleton_append]

theorem utf8_eq_encode (text : String) : utf8 text = encode text.toList := utf8_eq_flatMap text

theorem encode_injective {left right : List Char} (h : encode left = encode right) :
    left = right := by
  have hleft : utf8 (String.ofList left) = encode left := by simp [utf8_eq_encode]
  have hright : utf8 (String.ofList right) = encode right := by simp [utf8_eq_encode]
  exact String.ofList_injective (utf8_injective ((hleft.trans h).trans hright.symm))

/-- A zero byte is a zero character. -/
theorem zero_mem_of_mem_encode {text : List Char} (h : 0 ∈ encode text) : '\x00' ∈ text := by
  obtain ⟨char, hchar, hbyte⟩ := List.mem_flatMap.mp h
  by_cases hascii : char.toNat < 128
  · rw [utf8EncodeChar_ascii hascii, List.mem_singleton, ← UInt8.toNat_inj,
      UInt8.toNat_ofNat'] at hbyte
    have hcode : char.toNat = 0 := by
      change 0 = char.toNat % 256 at hbyte
      omega
    have hzero : char = '\x00' := Char.toNat_inj.mp hcode
    rwa [hzero] at hchar
  · exact absurd (utf8EncodeChar_nonascii (Nat.not_lt.mp hascii) hbyte) (by decide)

/-- The characters of bytes below 128. -/
def asciiText (bytes : Bytes) : List Char := bytes.map fun byte => Char.ofNat byte.toNat

theorem toNat_charOfNat {code : Nat} (h : code < 128) : (Char.ofNat code).toNat = code := by
  have hvalid : code.isValidChar := .inl (Nat.lt_of_lt_of_le h (by decide))
  rw [Char.ofNat, dif_pos hvalid]
  rfl

theorem encode_asciiText {bytes : Bytes} (h : ∀ byte ∈ bytes, byte.toNat < 128) :
    encode (asciiText bytes) = bytes := by
  induction bytes with
  | nil => rfl
  | cons byte bytes ih =>
      have hbyte := h byte List.mem_cons_self
      have hcode := toNat_charOfNat hbyte
      rw [asciiText, List.map_cons, encode_ascii (by omega), hcode, UInt8.ofNat_toNat]
      exact congrArg _ (ih fun other hother => h other (List.mem_cons_of_mem _ hother))

end Oasi
