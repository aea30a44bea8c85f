import Oasi.Ledger.Entry
import Oasi.Ledger.Json

/-! # Escaped JSON text

The escaper writes each character as itself, as a two-byte escape or as a `\u`
escape. Escaped text contains no byte that would end the string or the line it
stands in, and grows at most sixfold.
-/

namespace Oasi

/-! ## Escaped text -/

theorem utf8_escapeJson (value : String) :
    utf8 (escapeJson value) = value.toList.flatMap fun char => utf8 (escapeChar char) := by
  have hfold : ∀ (chars : List Char) (out : String),
      utf8 (chars.foldl (fun out char => out ++ escapeChar char) out) =
        utf8 out ++ chars.flatMap fun char => utf8 (escapeChar char) := by
    intro chars
    induction chars with
    | nil => simp
    | cons char chars ih =>
        intro out
        rw [List.foldl_cons, ih, utf8_append, List.flatMap_cons, List.append_assoc]
  rw [escapeJson, hfold, utf8_empty, List.nil_append]

/-- The characters that are escaped are exactly the quote, the backslash and
the control characters. -/
theorem escapeChar_of_plain {char : Char} (hquote : char ≠ '"') (hbackslash : char ≠ '\\')
    (hcontrol : isControl char = false) : escapeChar char = String.singleton char := by
  have hne : ∀ {control : Char}, isControl control = true → char ≠ control := by
    rintro control hcontrolChar rfl
    rw [hcontrol] at hcontrolChar
    cases hcontrolChar
  rw [escapeChar, if_neg hquote, if_neg hbackslash, if_neg (hne (by decide)),
    if_neg (hne (by decide)), if_neg (hne (by decide)), if_neg (hne (by decide)),
    if_neg (hne (by decide)), hcontrol]
  rfl

/-- The eight shapes of an escaped character. -/
theorem escapeChar_cases (char : Char) :
    (∃ escaped, utf8 (escapeChar char) = [92, escaped] ∧
      FlatJsonParser.simpleEscape escaped = some char) ∨
    (isControl char = true ∧ escapeChar char = "\\u" ++ paddedHex 4 char.toNat) ∨
    (char ≠ '"' ∧ char ≠ '\\' ∧ isControl char = false ∧
      escapeChar char = String.singleton char) := by
  by_cases hquote : char = '"'
  · exact .inl ⟨34, by subst hquote; rfl, by subst hquote; rfl⟩
  by_cases hbackslash : char = '\\'
  · exact .inl ⟨92, by subst hbackslash; rfl, by subst hbackslash; rfl⟩
  by_cases hnewline : char = '\n'
  · exact .inl ⟨110, by subst hnewline; rfl, by subst hnewline; rfl⟩
  by_cases hreturn : char = '\r'
  · exact .inl ⟨114, by subst hreturn; rfl, by subst hreturn; rfl⟩
  by_cases htab : char = '\t'
  · exact .inl ⟨116, by subst htab; rfl, by subst htab; rfl⟩
  by_cases hbackspace : char = '\x08'
  · exact .inl ⟨98, by subst hbackspace; rfl, by subst hbackspace; rfl⟩
  by_cases hfeed : char = '\x0c'
  · exact .inl ⟨102, by subst hfeed; rfl, by subst hfeed; rfl⟩
  cases hcontrol : isControl char with
  | true =>
      refine .inr (.inl ⟨rfl, ?_⟩)
      rw [escapeChar, if_neg hquote, if_neg hbackslash, if_neg hnewline, if_neg hreturn,
        if_neg htab, if_neg hbackspace, if_neg hfeed, if_pos hcontrol]
  | false =>
      exact .inr (.inr ⟨hquote, hbackslash, rfl, escapeChar_of_plain hquote hbackslash hcontrol⟩)

theorem toNat_lt_of_isControl {char : Char} (h : isControl char = true) : char.toNat < 160 := by
  simp only [isControl, Bool.or_eq_true, Bool.and_eq_true, decide_eq_true_eq] at h
  omega

theorem utf8_singleton (char : Char) :
    utf8 (String.singleton char) = String.utf8EncodeChar char := by
  simp [utf8_eq_flatMap]

theorem printed_of_not_isControl {char : Char} (h : isControl char = false) :
    0x20 ≤ char.toNat := by
  simp only [isControl, Bool.or_eq_false_iff, decide_eq_false_iff_not] at h
  omega

/-- A character that is copied verbatim has no byte that would end or break the
string it stands in. -/
theorem plain_byte {char : Char} (hquote : char ≠ '"') (hbackslash : char ≠ '\\')
    (hcontrol : 0x20 ≤ char.toNat) {byte : UInt8}
    (hbyte : byte ∈ String.utf8EncodeChar char) : byte ≠ 34 ∧ byte ≠ 92 ∧ ¬byte ≤ 0x1f := by
  by_cases hascii : char.toNat < 128
  · rw [utf8EncodeChar_ascii hascii, List.mem_singleton] at hbyte
    have hnat : byte.toNat = char.toNat := by
      rw [hbyte, UInt8.toNat_ofNat', Nat.mod_eq_of_lt (by omega)]
    have hvalue : ∀ other : Char, char ≠ other → char.toNat ≠ other.toNat :=
      fun other hne heq => hne (Char.toNat_inj.mp heq)
    have hquoteNat : char.toNat ≠ 34 := hvalue '"' hquote
    have hbackslashNat : char.toNat ≠ 92 := hvalue '\\' hbackslash
    rw [ne_eq, ne_eq, ← UInt8.toNat_inj, ← UInt8.toNat_inj, UInt8.le_iff_toNat_le, hnat]
    exact ⟨hquoteNat, hbackslashNat, Nat.not_le.mpr hcontrol⟩
  · have hhigh := UInt8.le_iff_toNat_le.mp (utf8EncodeChar_nonascii (by omega) hbyte)
    have hnat : 128 ≤ byte.toNat := hhigh
    rw [ne_eq, ne_eq, ← UInt8.toNat_inj, ← UInt8.toNat_inj, UInt8.le_iff_toNat_le]
    refine ⟨?_, ?_, ?_⟩
    · intro h
      rw [h] at hnat
      exact absurd hnat (by decide)
    · intro h
      rw [h] at hnat
      exact absurd hnat (by decide)
    · intro h
      exact absurd (Nat.le_trans hnat h) (by decide)

/-- No raw control byte, in particular no LF, occurs in escaped text. -/
theorem escapeJson_byte {value : String} {byte : UInt8} (h : byte ∈ utf8 (escapeJson value)) :
    ¬byte ≤ 0x1f := by
  rw [utf8_escapeJson, List.mem_flatMap] at h
  obtain ⟨char, _, hbyte⟩ := h
  rcases escapeChar_cases char with ⟨escaped, htext, hescape⟩ | ⟨_, htext⟩ |
    ⟨hquote, hbackslash, hcontrol, htext⟩
  · rw [htext] at hbyte
    rcases List.mem_cons.mp hbyte with rfl | hbyte
    · decide
    · rw [List.mem_singleton.mp hbyte]
      intro hle
      have hnone : FlatJsonParser.simpleEscape escaped = none := by
        unfold FlatJsonParser.simpleEscape
        repeat rw [if_neg (by rintro rfl; exact absurd hle (by decide))]
      rw [hnone] at hescape
      cases hescape
  · rw [htext, utf8_append, List.mem_append] at hbyte
    rcases hbyte with hbyte | hbyte
    · revert hbyte
      revert byte
      decide +kernel
    · have hhex := isLowerHex_of_mem_paddedHex hbyte
      intro hle
      have hnat : byte.toNat ≤ 31 := UInt8.le_iff_toNat_le.mp hle
      simp only [isLowerHex, isAsciiDigit, Bool.or_eq_true, Bool.and_eq_true, decide_eq_true_eq,
        UInt8.le_iff_toNat_le, UInt8.reduceToNat] at hhex
      omega
  · rw [htext, utf8_singleton] at hbyte
    exact (plain_byte hquote hbackslash (printed_of_not_isControl hcontrol) hbyte).2.2

/-- The only quote in the text of a character is the second byte of an escaped quote. -/
theorem quote_of_escapeChar {char : Char} {front back : Bytes}
    (h : utf8 (escapeChar char) = front ++ 34 :: back) :
    char = '"' ∧ front = [92] ∧ back = [] := by
  have hmem : 34 ∈ utf8 (escapeChar char) := by
    rw [h]
    exact List.mem_append_right _ List.mem_cons_self
  rcases escapeChar_cases char with ⟨escaped, htext, hescape⟩ | ⟨_, htext⟩ |
    ⟨hquote, hbackslash, hcontrol, htext⟩
  · rw [htext] at h hmem
    have hescaped : escaped = 34 := by simpa [eq_comm] using hmem
    subst hescaped
    cases front with
    | nil => cases h
    | cons byte front =>
        rw [List.cons_append, List.cons.injEq] at h
        obtain ⟨rfl, hrest⟩ := h
        cases front with
        | nil =>
            refine ⟨(Option.some.inj hescape).symm, rfl, ?_⟩
            exact (List.cons.inj hrest).2.symm
        | cons second front => simp at hrest
  · rw [htext, utf8_append, List.mem_append] at hmem
    rcases hmem with hmem | hmem
    · exact absurd hmem (by decide +kernel)
    · exact absurd (isLowerHex_of_mem_paddedHex hmem) (by decide)
  · rw [htext, utf8_singleton] at hmem
    exact absurd rfl (plain_byte hquote hbackslash (printed_of_not_isControl hcontrol) hmem).1

/-- Every quote in escaped text belongs to the escape of a quote of the value. -/
theorem quote_of_escapeJson {value : String} {front back : Bytes}
    (h : utf8 (escapeJson value) = front ++ 34 :: back) :
    ∃ before after, value = before ++ "\"" ++ after ∧
      front = utf8 (escapeJson before) ++ [92] ∧ back = utf8 (escapeJson after) := by
  have hchars : ∀ (chars : List Char) (front : Bytes),
      (chars.flatMap fun char => utf8 (escapeChar char)) = front ++ 34 :: back →
      ∃ before after, chars = before ++ '"' :: after ∧
        front = (before.flatMap fun char => utf8 (escapeChar char)) ++ [92] ∧
        back = after.flatMap fun char => utf8 (escapeChar char) := by
    intro chars
    induction chars with
    | nil =>
        intro front hfront
        simp at hfront
    | cons char chars ih =>
        intro front hfront
        rw [List.flatMap_cons, List.append_eq_append_iff] at hfront
        -- the quote stands in the text of this character or behind it
        rcases hfront with ⟨more, rfl, hrest⟩ | ⟨more, hchar, hmore⟩
        · obtain ⟨before, after, rfl, rfl, hback⟩ := ih more hrest
          exact ⟨char :: before, after, rfl, by rw [List.flatMap_cons, List.append_assoc], hback⟩
        · cases more with
          | nil =>
              obtain ⟨before, _, _, hempty, _⟩ := ih [] hmore.symm
              simp at hempty
          | cons byte more =>
              rw [List.cons_append, List.cons.injEq] at hmore
              obtain ⟨rfl, hback⟩ := hmore
              obtain ⟨rfl, rfl, rfl⟩ := quote_of_escapeChar hchar
              exact ⟨[], chars, rfl, rfl, hback⟩
  rw [utf8_escapeJson] at h
  obtain ⟨before, after, hvalue, hfront, hback⟩ := hchars _ _ h
  refine ⟨String.ofList before, String.ofList after, ?_, ?_, ?_⟩
  · rw [← String.toList_inj, hvalue]
    simp
  · rw [utf8_escapeJson, String.toList_ofList, hfront]
  · rw [utf8_escapeJson, String.toList_ofList, hback]

theorem length_escapeChar_le (char : Char) :
    (utf8 (escapeChar char)).length ≤ 6 * char.utf8Size := by
  have hsize := char.utf8Size_pos
  rcases escapeChar_cases char with ⟨escaped, htext, _⟩ | ⟨_, htext⟩ | ⟨_, _, _, htext⟩
  · rw [htext, List.length_cons, List.length_singleton]
    omega
  · rw [htext, utf8_append, List.length_append, length_utf8_paddedHex]
    have hmark : (utf8 "\\u").length = 2 := rfl
    omega
  · rw [htext, utf8_singleton, String.length_utf8EncodeChar]
    omega

/-- Escaping expands a text at most sixfold. -/
theorem length_escapeJson_le (value : String) :
    (utf8 (escapeJson value)).length ≤ 6 * (utf8 value).length := by
  rw [utf8_escapeJson, utf8_eq_flatMap]
  induction value.toList with
  | nil => simp
  | cons char chars ih =>
      rw [List.flatMap_cons, List.flatMap_cons, List.length_append, List.length_append,
        String.length_utf8EncodeChar]
      have hchar := length_escapeChar_le char
      omega

end Oasi
