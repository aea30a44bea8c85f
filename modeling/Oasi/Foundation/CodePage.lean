import Mathlib.Data.List.GetD
import Mathlib.Data.List.Nodup
import Oasi.Foundation.Bytes

/-! # Code page 437

One byte for each character: the lower half is ASCII, the upper half a table. The
characters are distinct, so decoding loses nothing.
-/

namespace Oasi

/-- The characters of the bytes from 128 on. -/
def cp437Upper : List Char :=
  [ 'Ç', 'ü', 'é', 'â', 'ä', 'à', 'å', 'ç', 'ê', 'ë', 'è', 'ï', 'î', 'ì', 'Ä', 'Å',
    'É', 'æ', 'Æ', 'ô', 'ö', 'ò', 'û', 'ù', 'ÿ', 'Ö', 'Ü', '¢', '£', '¥', '₧', 'ƒ',
    'á', 'í', 'ó', 'ú', 'ñ', 'Ñ', 'ª', 'º', '¿', '⌐', '¬', '½', '¼', '¡', '«', '»',
    '░', '▒', '▓', '│', '┤', '╡', '╢', '╖', '╕', '╣', '║', '╗', '╝', '╜', '╛', '┐',
    '└', '┴', '┬', '├', '─', '┼', '╞', '╟', '╚', '╔', '╩', '╦', '╠', '═', '╬', '╧',
    '╨', '╤', '╥', '╙', '╘', '╒', '╓', '╫', '╪', '┘', '┌', '█', '▄', '▌', '▐', '▀',
    'α', 'ß', 'Γ', 'π', 'Σ', 'σ', 'µ', 'τ', 'Φ', 'Θ', 'Ω', 'δ', '∞', 'φ', 'ε', '∩',
    '≡', '±', '≥', '≤', '⌠', '⌡', '÷', '≈', '°', '∙', '·', '√', 'ⁿ', '²', '■', '\u00a0' ]

def cp437Char (byte : UInt8) : Char :=
  if byte.toNat < 128 then Char.ofNat byte.toNat else cp437Upper.getD (byte.toNat - 128) '\x00'

/-- `bytes.decode("cp437")` -/
def cp437Decode (bytes : Bytes) : List Char := bytes.map cp437Char

/-- The byte of a character of the code page. -/
def cp437Byte (char : Char) : Option UInt8 :=
  if char.toNat < 128 then some (UInt8.ofNat char.toNat)
  else if char ∈ cp437Upper then some (UInt8.ofNat (128 + cp437Upper.idxOf char))
  else none

/-- `text.encode("cp437")`; `none` where a character has no byte. -/
def cp437Encode (text : List Char) : Option Bytes := text.mapM cp437Byte

theorem nodup_cp437Upper : cp437Upper.Nodup := by
  have hcodes : (cp437Upper.map Char.toNat).Nodup := by decide +kernel
  exact hcodes.of_map

theorem cp437Byte_char (byte : UInt8) : cp437Byte (cp437Char byte) = some byte := by
  have hall : cp437Upper.all (fun char => decide (128 ≤ char.toNat)) = true := by decide +kernel
  have hhigh : ∀ char ∈ cp437Upper, 128 ≤ char.toNat :=
    fun char hchar => of_decide_eq_true (List.all_eq_true.mp hall char hchar)
  by_cases hbyte : byte.toNat < 128
  · rw [cp437Char, if_pos hbyte, cp437Byte, toNat_charOfNat hbyte, if_pos hbyte,
      UInt8.ofNat_toNat]
  · have hindex : byte.toNat - 128 < cp437Upper.length := by
      have hsize : byte.toNat < 256 := byte.toNat_lt_size
      have hlength : cp437Upper.length = 128 := rfl
      omega
    have hmem := List.getElem_mem hindex
    rw [cp437Char, if_neg hbyte, List.getD_eq_getElem _ _ hindex, cp437Byte,
      if_neg (Nat.not_lt.mpr (hhigh _ hmem)), if_pos hmem,
      List.Nodup.idxOf_getElem nodup_cp437Upper, Nat.add_sub_cancel' (Nat.not_lt.mp hbyte),
      UInt8.ofNat_toNat]

theorem length_cp437Encode {text : List Char} {bytes : Bytes} (h : cp437Encode text = some bytes) :
    bytes.length = text.length := by
  induction text generalizing bytes with
  | nil =>
      cases h
      rfl
  | cons char rest ih =>
      unfold cp437Encode at ih h
      rw [List.mapM_cons] at h
      simp only [Option.bind_eq_bind, Option.bind_eq_some_iff, Option.pure_def] at h
      obtain ⟨byte, _, encoded, hencoded, h⟩ := h
      cases h
      rw [List.length_cons, List.length_cons, ih hencoded]

/-- Encoding inverts decoding. -/
theorem cp437Encode_decode (bytes : Bytes) : cp437Encode (cp437Decode bytes) = some bytes := by
  induction bytes with
  | nil => rfl
  | cons byte rest ih =>
      unfold cp437Encode cp437Decode at *
      rw [List.map_cons, List.mapM_cons, cp437Byte_char, ih]
      rfl

end Oasi
