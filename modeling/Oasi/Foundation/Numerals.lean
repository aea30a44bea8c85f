import Mathlib.Algebra.Group.Nat.Defs
import Mathlib.Data.List.Induction
import Oasi.Foundation.Bytes

/-! # Decimal and padded hexadecimal numerals of unsigned machine words

Rendering follows the standard formatter: plain decimal without leading zeros,
and lowercase hexadecimal padded to a fixed width. Parsing takes the bytes of a
numeral, requires at least one digit and reports overflow. Each parser inverts
its renderer.
-/

namespace Oasi

/-! ## Decimal -/

/-- Decimal numeral of a 64-bit word. -/
def decimal (value : UInt64) : String := value.toNat.repr

def isAsciiDigit (byte : UInt8) : Bool := 48 ≤ byte && byte ≤ 57

/-- Value of a digit string read most significant digit first. -/
def decimalValue (digits : Bytes) : Nat :=
  digits.foldl (fun value byte => 10 * value + (byte.toNat - 48)) 0

/-- Checked conversion to a 64-bit word: `none` on an empty string, on a byte
that is not a digit and on overflow. -/
def parseU64 (digits : Bytes) : Option UInt64 :=
  if digits ≠ [] ∧ digits.all isAsciiDigit = true ∧ decimalValue digits < UInt64.size then
    some (UInt64.ofNat (decimalValue digits))
  else none

theorem mem_toDigits_ten {number : Nat} {char : Char} (h : char ∈ Nat.toDigits 10 number) :
    48 ≤ char.toNat ∧ char.toNat ≤ 57 :=
  Char.isDigit_iff_toNat.mp (Nat.isDigit_of_mem_toDigits (by decide) (by decide) h)

theorem utf8_decimal (value : UInt64) :
    utf8 (decimal value) =
      (Nat.toDigits 10 value.toNat).map fun char => UInt8.ofNat char.toNat := by
  rw [decimal, utf8_eq_flatMap, Nat.toList_repr]
  apply flatMap_utf8EncodeChar_ascii
  intro char hchar
  have := mem_toDigits_ten hchar
  omega

theorem utf8_decimal_ne_nil (value : UInt64) : utf8 (decimal value) ≠ [] := by
  rw [utf8_decimal]
  simp

theorem length_decimal_le (value : UInt64) : (utf8 (decimal value)).length ≤ 20 := by
  rw [utf8_decimal, List.length_map,
    Nat.length_toDigits_le_iff (by decide) (by decide)]
  exact Nat.lt_trans value.toNat_lt_size (by decide)

theorem isAsciiDigit_of_mem_decimal {value : UInt64} {byte : UInt8}
    (h : byte ∈ utf8 (decimal value)) : isAsciiDigit byte = true := by
  rw [utf8_decimal, List.mem_map] at h
  obtain ⟨char, hchar, rfl⟩ := h
  have hdigit := mem_toDigits_ten hchar
  have hsmall : char.toNat % 256 = char.toNat := Nat.mod_eq_of_lt (by omega)
  simp only [isAsciiDigit, Bool.and_eq_true, decide_eq_true_eq, UInt8.le_iff_toNat_le,
    UInt8.toNat_ofNat', UInt8.reduceToNat, Nat.reducePow]
  omega

/-- The value of the bytes of a digit string is that of its characters. -/
theorem decimalValue_map {chars : List Char}
    (h : ∀ char ∈ chars, 48 ≤ char.toNat ∧ char.toNat ≤ 57) :
    decimalValue (chars.map fun char => UInt8.ofNat char.toNat) =
      Nat.ofDigitChars 10 chars 0 := by
  have hfold : ∀ (chars : List Char) (start : Nat),
      (∀ char ∈ chars, 48 ≤ char.toNat ∧ char.toNat ≤ 57) →
      (chars.map fun char => UInt8.ofNat char.toNat).foldl
        (fun total byte => 10 * total + (byte.toNat - 48)) start =
          Nat.ofDigitChars 10 chars start := by
    intro chars
    induction chars with
    | nil => intro start _; simp
    | cons char chars ih =>
        intro start hdigits
        have hdigit := hdigits char List.mem_cons_self
        have hsmall : char.toNat % 256 = char.toNat := Nat.mod_eq_of_lt (by omega)
        rw [List.map_cons, List.foldl_cons,
          ih _ fun other hother => hdigits other (List.mem_cons_of_mem _ hother),
          Nat.ofDigitChars_cons, UInt8.toNat_ofNat', hsmall]
        rfl
  exact hfold chars 0 h

theorem decimalValue_decimal (value : UInt64) :
    decimalValue (utf8 (decimal value)) = value.toNat := by
  rw [utf8_decimal, decimalValue_map fun char hchar => mem_toDigits_ten hchar]
  exact Nat.ofDigitChars_ten_toDigits

@[simp] theorem parseU64_decimal (value : UInt64) :
    parseU64 (utf8 (decimal value)) = some value := by
  rw [parseU64, if_pos, decimalValue_decimal]
  · simp
  · refine ⟨utf8_decimal_ne_nil value, ?_, ?_⟩
    · exact List.all_eq_true.mpr fun byte hbyte => isAsciiDigit_of_mem_decimal hbyte
    · rw [decimalValue_decimal]
      exact value.toNat_lt_size

/-- A decimal numeral starts with a zero only when it is the numeral zero. -/
theorem decimal_head_zero {value : UInt64} {rest : Bytes}
    (h : utf8 (decimal value) = 48 :: rest) : rest = [] := by
  have hzero : ∀ number : Nat, ∀ tail,
      Nat.toDigits 10 number = '0' :: tail → tail = [] := by
    intro number
    induction number using Nat.strongRecOn with
    | ind number ih =>
        intro tail htail
        by_cases hsmall : number < 10
        · rw [Nat.toDigits_of_lt_base hsmall, List.cons.injEq] at htail
          exact htail.2.symm
        · rw [Nat.toDigits_of_base_le (by decide) (by omega)] at htail
          -- the quotient of a number from ten on is positive, so its numeral cannot be zero
          cases hquotient : Nat.toDigits 10 (number / 10) with
          | nil => exact absurd hquotient Nat.toDigits_ne_nil
          | cons char quotientTail =>
              rw [hquotient, List.cons_append, List.cons.injEq] at htail
              obtain ⟨rfl, _⟩ := htail
              have hnil := ih (number / 10) (by omega) quotientTail hquotient
              have hvalue : Nat.ofDigitChars 10 (Nat.toDigits 10 (number / 10)) 0 = number / 10 :=
                Nat.ofDigitChars_ten_toDigits
              rw [hquotient, hnil] at hvalue
              simp [Nat.ofDigitChars_cons] at hvalue
              omega
  rw [utf8_decimal] at h
  cases hdigits : Nat.toDigits 10 value.toNat with
  | nil => exact absurd hdigits Nat.toDigits_ne_nil
  | cons char tail =>
      have hchar : char ∈ Nat.toDigits 10 value.toNat := hdigits ▸ List.mem_cons_self
      rw [hdigits, List.map_cons, List.cons.injEq] at h
      have hnat := congrArg UInt8.toNat h.1
      have hdigit := mem_toDigits_ten hchar
      rw [UInt8.toNat_ofNat', Nat.mod_eq_of_lt (by omega)] at hnat
      have hzeroChar : char = '0' := Char.ext (UInt32.toNat_inj.mp hnat)
      subst hzeroChar
      rw [← h.2, hzero _ tail hdigits]
      rfl

/-- Digits without a leading zero are the numeral of their value. -/
theorem toDigits_ofDigitChars {digits : List Char}
    (hdigits : ∀ char ∈ digits, char.isDigit = true) (hnonempty : digits ≠ [])
    (hleading : digits.head? = some '0' → digits = ['0']) :
    Nat.toDigits 10 (Nat.ofDigitChars 10 digits 0) = digits := by
  induction digits using List.reverseRecOn with
  | nil => exact absurd rfl hnonempty
  | append_singleton front last ih =>
      obtain ⟨digit, hdigit, hlast⟩ : ∃ digit < 10, last = digit.digitChar := by
        have hrange : 48 ≤ last.toNat ∧ last.toNat ≤ 57 :=
          Char.isDigit_iff_toNat.mp (hdigits last (by simp))
        have hall : ∀ code < 58, 48 ≤ code → Char.ofNat code = (code - 48).digitChar := by decide
        refine ⟨last.toNat - 48, by omega, ?_⟩
        rw [← hall last.toNat (by omega) hrange.1, Char.ofNat_toNat]
      have hvalue : Nat.ofDigitChars 10 (front ++ [last]) 0 =
          10 * Nat.ofDigitChars 10 front 0 + digit := by
        rw [Nat.ofDigitChars_append, hlast, Nat.ofDigitChars_cons_digitChar_of_lt_ten hdigit,
          Nat.ofDigitChars_nil]
      rw [hvalue]
      by_cases hfront : front = []
      · subst hfront
        rw [Nat.ofDigitChars_nil, Nat.mul_zero, Nat.zero_add, Nat.toDigits_of_lt_base hdigit,
          hlast, List.nil_append]
      · have hhead : (front ++ [last]).head? = front.head? := List.head?_append_of_ne_nil _ hfront
        have hfrontDigits := ih (fun char hchar => hdigits char (by simp [hchar])) hfront (by
          intro hzero
          have hall := congrArg List.length (hleading (hhead.trans hzero))
          have hpositive := List.length_pos_of_ne_nil hfront
          simp only [List.length_append, List.length_singleton] at hall
          omega)
        -- a front part of value zero would be a leading zero
        have hpositive : 0 < Nat.ofDigitChars 10 front 0 := by
          refine Nat.pos_of_ne_zero fun hzero => ?_
          rw [hzero, Nat.toDigits_zero] at hfrontDigits
          have hall := congrArg List.length (hleading (hhead.trans (by rw [← hfrontDigits]; rfl)))
          simp [← hfrontDigits] at hall
        rw [← Nat.toDigits_append_toDigits (by decide) hpositive hdigit, hfrontDigits,
          Nat.toDigits_of_lt_base hdigit, hlast]

/-! ## Hexadecimal -/

/-- The lowest `width` hexadecimal digits of a number, most significant first. -/
def hexDigits : Nat → Nat → List Char
  | 0, _ => []
  | width + 1, value => hexDigits width (value / 16) ++ [(value % 16).digitChar]

/-- Lowercase hexadecimal padded with zeros to the width; the value is expected
to fit it. -/
def paddedHex (width value : Nat) : String := String.ofList (hexDigits width value)

/-- A digit of a hash: lowercase letters only. -/
def isLowerHex (byte : UInt8) : Bool := isAsciiDigit byte || (97 ≤ byte && byte ≤ 102)

/-- Value of a lowercase hexadecimal digit. -/
def lowerHexValue (byte : UInt8) : Nat :=
  if byte ≤ 57 then byte.toNat - 48 else byte.toNat - 87

def lowerHexNumber (digits : Bytes) : Nat :=
  digits.foldl (fun value byte => 16 * value + lowerHexValue byte) 0

@[simp] theorem length_hexDigits (width value : Nat) : (hexDigits width value).length = width := by
  induction width generalizing value with
  | zero => rfl
  | succ width ih => simp [hexDigits, ih]

theorem mem_hexDigits {width value : Nat} {char : Char} (h : char ∈ hexDigits width value) :
    ∃ digit < 16, char = digit.digitChar := by
  induction width generalizing value with
  | zero => simp [hexDigits] at h
  | succ width ih =>
      rw [hexDigits, List.mem_append, List.mem_singleton] at h
      rcases h with hfront | rfl
      · exact ih hfront
      · exact ⟨value % 16, Nat.mod_lt _ (by decide), rfl⟩

theorem digitChar_lt_128 : ∀ digit < 16, digit.digitChar.toNat < 128 := by decide

theorem utf8_paddedHex (width value : Nat) :
    utf8 (paddedHex width value) =
      (hexDigits width value).map fun char => UInt8.ofNat char.toNat := by
  rw [paddedHex, utf8_eq_flatMap, String.toList_ofList]
  apply flatMap_utf8EncodeChar_ascii
  intro char hchar
  obtain ⟨digit, hdigit, rfl⟩ := mem_hexDigits hchar
  exact digitChar_lt_128 digit hdigit

@[simp] theorem length_utf8_paddedHex (width value : Nat) :
    (utf8 (paddedHex width value)).length = width := by
  simp [utf8_paddedHex]

theorem isLowerHex_digitChar :
    ∀ digit < 16, isLowerHex (UInt8.ofNat digit.digitChar.toNat) = true := by decide

theorem lowerHexValue_digitChar :
    ∀ digit < 16, lowerHexValue (UInt8.ofNat digit.digitChar.toNat) = digit := by decide

theorem isLowerHex_of_mem_paddedHex {width value : Nat} {byte : UInt8}
    (h : byte ∈ utf8 (paddedHex width value)) : isLowerHex byte = true := by
  rw [utf8_paddedHex, List.mem_map] at h
  obtain ⟨char, hchar, rfl⟩ := h
  obtain ⟨digit, hdigit, rfl⟩ := mem_hexDigits hchar
  exact isLowerHex_digitChar digit hdigit

theorem lowerHexNumber_paddedHex (width value : Nat) :
    lowerHexNumber (utf8 (paddedHex width value)) = value % 16 ^ width := by
  rw [utf8_paddedHex]
  induction width generalizing value with
  | zero => simp [hexDigits, lowerHexNumber, Nat.mod_one]
  | succ width ih =>
      have hfront := ih (value / 16)
      rw [lowerHexNumber] at hfront
      rw [hexDigits, List.map_append, lowerHexNumber, List.foldl_append, hfront, List.map_singleton,
        List.foldl_cons, List.foldl_nil,
        lowerHexValue_digitChar (value % 16) (Nat.mod_lt _ (by decide)), Nat.pow_succ',
        Nat.mod_mul]
      omega

end Oasi
