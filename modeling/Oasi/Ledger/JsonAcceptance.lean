import Oasi.Ledger.JsonGrammar
import Oasi.Ledger.JsonRoundTrip
import Mathlib.Data.List.TakeWhile

/-! # The parser accepts the grammar

What the parser reads off the front of its input is a text of the grammar with
the value that is returned, and every such text is read. The first half needs
nothing of the input: raw bytes of a string are decoded before they are accepted.
-/

namespace Oasi

open JsonGrammar

namespace FlatJsonParser

variable {parser next : FlatJsonParser}

/-! ## Reading only texts of the grammar -/

/-- A byte with a digit's value is the encoding of a hexadecimal digit with that value. -/
theorem toDigit16_sound {byte : UInt8} {digit : UInt16} (h : toDigit16 byte = some digit) :
    ∃ char, HexDigit char digit.toNat ∧ String.utf8EncodeChar char = [byte] := by
  have hall : ∀ code < 256, (toDigit16 (UInt8.ofNat code)).all fun digit =>
      decide ((Char.ofNat code).toNat = code ∧ code < 128 ∧ digit.toNat < 16 ∧
        (Char.ofNat code = digit.toNat.digitChar ∨
          Char.ofNat code = digit.toNat.digitChar.toUpper)) := by decide +kernel
  have hbyte := hall byte.toNat byte.toNat_lt_size
  rw [UInt8.ofNat_toNat, h, Option.all_some, decide_eq_true_eq] at hbyte
  obtain ⟨hcode, hascii, hdigit, hchar⟩ := hbyte
  refine ⟨Char.ofNat byte.toNat, ⟨hdigit, hchar⟩, ?_⟩
  rw [utf8EncodeChar_ascii (by omega), hcode, UInt8.ofNat_toNat]

/-- Room for the digits that are still to come. -/
theorem hexRoom_step {value count digit : Nat} (hroom : (value + 1) * 16 ^ (count + 1) ≤ 65536)
    (hdigit : digit < 16) :
    value < 4096 ∧ (16 * value + digit + 1) * 16 ^ count ≤ 65536 := by
  have hpower : 1 ≤ 16 ^ count := Nat.one_le_pow _ _ (by decide)
  have hfirst : (value + 1) * 16 ≤ (value + 1) * 16 ^ (count + 1) :=
    Nat.mul_le_mul_left _ (by rw [Nat.pow_succ]; omega)
  have hrest : (16 * value + digit + 1) * 16 ^ count ≤ (value + 1) * 16 ^ (count + 1) := by
    rw [Nat.pow_succ, Nat.mul_comm (16 ^ count), ← Nat.mul_assoc]
    exact Nat.mul_le_mul_right _ (by omega)
  omega

/-- What the digit loop reads are that many hexadecimal digits, and its result is their value in
base 16. -/
theorem parseHexDigits_sound {count : Nat} {value result : UInt16}
    (hroom : (value.toNat + 1) * 16 ^ count ≤ 65536)
    (h : parseHexDigits count value parser = .ok (result, next)) :
    ∃ text digits, digits.length = count ∧ List.Forall₂ HexDigit text digits ∧
      digits.foldl (fun value digit => 16 * value + digit) value.toNat = result.toNat ∧
      parser.rest = encode text ++ next.rest := by
  induction count generalizing value parser with
  | zero =>
      cases h
      exact ⟨[], [], rfl, .nil, rfl, rfl⟩
  | succ count ih =>
      rw [parseHexDigits] at h
      split at h
      next => cases h
      next digit hdigit =>
        obtain ⟨byte, hpeek, hread⟩ := Option.bind_eq_some_iff.mp hdigit
        obtain ⟨char, hchar, hcode⟩ := toDigit16_sound hread
        obtain ⟨tail, hrest⟩ := List.head?_eq_some_iff.mp hpeek
        obtain ⟨hsmall, hnext⟩ := hexRoom_step hroom hchar.1
        have hvalue : (value <<< 4 ||| digit).toNat = 16 * value.toNat + digit.toNat := by
          have hshift := toNat_shiftLeft_or rfl hsmall hchar.1
          rwa [UInt16.ofNat_toNat] at hshift
        obtain ⟨text, digits, hlength, hdigits, hfold, hmiddle⟩ := ih (hvalue ▸ hnext) h
        refine ⟨char :: text, digit.toNat :: digits, congrArg (· + 1) hlength,
          .cons hchar hdigits, ?_, ?_⟩
        · rw [List.foldl_cons, ← hvalue, hfold]
        · rw [advance_rest, hrest, List.drop_succ_cons, List.drop_zero] at hmiddle
          rw [hrest, hmiddle, encode_cons, hcode, List.singleton_append, List.cons_append]

/-- Four digits are read as the quad they are. -/
theorem parseHexU16_sound {value : UInt16} (h : parser.parseHexU16 = .ok (value, next)) :
    ∃ text, HexQuad text value.toNat ∧ parser.rest = encode text ++ next.rest := by
  obtain ⟨text, digits, hlength, hdigits, hfold, hrest⟩ := parseHexDigits_sound (by decide) h
  exact ⟨text, ⟨digits, hlength, hdigits, hfold⟩, hrest⟩

/-- A character has the scalar value it is made from. -/
theorem charFromU32_toNat_eq {scalar : Nat} {char : Char} (h : charFromU32 scalar = some char) :
    char.toNat = scalar := by
  unfold charFromU32 at h
  by_cases hvalid : scalar.isValidChar
  · rw [dif_pos hvalid] at h
    cases h
    rfl
  · rw [dif_neg hvalid] at h
    cases h

/-- A code unit, or a high and a low one. -/
theorem parseScalar_sound {scalar : Nat} (h : parser.parseScalar = .ok (scalar, next)) :
    ∃ text, (∀ char : Char, char.toNat = scalar → CharText ('\\' :: 'u' :: text) char) ∧
      parser.rest = encode text ++ next.rest := by
  unfold parseScalar at h
  obtain ⟨⟨first, middle⟩, hfirst, h⟩ := bind_eq_ok.mp h
  obtain ⟨high, hhigh, hrest⟩ := parseHexU16_sound hfirst
  dsimp only at h
  split at h
  next hsurrogate =>
    split at h
    next => cases h
    next hmark =>
      obtain ⟨⟨second, last⟩, hsecond, h⟩ := bind_eq_ok.mp h
      obtain ⟨low, hlow, htail⟩ := parseHexU16_sound hsecond
      dsimp only at h
      split at h
      next => cases h
      next hrange =>
        obtain ⟨rfl, rfl⟩ := Prod.mk.inj (Except.ok.inj h)
        simp only [UInt16.le_iff_toNat_le, UInt16.reduceToNat] at hsurrogate hrange
        have hmarked : middle.rest = 92 :: 117 :: (middle.rest.drop 2) := by
          have hsplit := (List.take_append_drop 2 middle.rest).symm
          rwa [Decidable.not_not.mp hmark] at hsplit
        -- a surrogate pair: both halves lie in their ranges, so the subtractions do not truncate
        refine ⟨high ++ '\\' :: 'u' :: low, ?_, ?_⟩
        · intro char hchar
          refine @CharText.pair _ _ (first.toNat - 0xd800) (second.toNat - 0xdc00) _ ?_ ?_ ?_ ?_
            hchar
          · rwa [Nat.add_sub_cancel' hsurrogate.1]
          · omega
          · rwa [Nat.add_sub_cancel' (by omega)]
          · omega
        · rw [advance_rest] at htail
          rw [hrest, hmarked, htail, encode_append, List.append_assoc]
          rfl
  next =>
    split at h
    next => cases h
    next =>
      obtain ⟨rfl, rfl⟩ := Prod.mk.inj (Except.ok.inj h)
      exact ⟨high, fun char hchar => .unit (hchar ▸ hhigh), hrest⟩

/-- A unicode escape that is accepted is one of the grammar, a single unit or a pair of surrogates.
-/
theorem parseUnicodeEscape_sound {char : Char}
    (h : parser.parseUnicodeEscape = .ok (char, next)) :
    ∃ text, CharText ('\\' :: 'u' :: text) char ∧ parser.rest = encode text ++ next.rest := by
  unfold parseUnicodeEscape at h
  obtain ⟨⟨scalar, last⟩, hscalar, h⟩ := bind_eq_ok.mp h
  dsimp only at h
  split at h
  next => cases h
  next found hfound =>
    obtain ⟨rfl, rfl⟩ := Prod.mk.inj (Except.ok.inj h)
    obtain ⟨text, htext, hrest⟩ := parseScalar_sound hscalar
    exact ⟨text, htext found (charFromU32_toNat_eq hfound), hrest⟩

/-- A byte that may follow a backslash is one of the grammar's shorthands. -/
theorem simpleEscape_sound {escaped : UInt8} {char : Char}
    (h : simpleEscape escaped = some char) :
    ∃ letter, Shorthand letter char ∧ String.utf8EncodeChar letter = [escaped] := by
  unfold simpleEscape at h
  split_ifs at h <;> subst escaped <;> cases h
  · exact ⟨_, .quote, rfl⟩
  · exact ⟨_, .backslash, rfl⟩
  · exact ⟨_, .slash, rfl⟩
  · exact ⟨_, .backspace, rfl⟩
  · exact ⟨_, .formFeed, rfl⟩
  · exact ⟨_, .newline, rfl⟩
  · exact ⟨_, .carriageReturn, rfl⟩
  · exact ⟨_, .tab, rfl⟩

/-- An escape that is accepted is one of the grammar. -/
theorem parseEscape_sound {char : Char} (h : parser.parseEscape = .ok (char, next)) :
    ∃ text, CharText ('\\' :: text) char ∧ parser.rest = encode text ++ next.rest := by
  unfold parseEscape at h
  split at h
  next => cases h
  next escaped hpeek =>
    obtain ⟨tail, hrest⟩ := List.head?_eq_some_iff.mp hpeek
    have htail : (parser.advance 1).rest = tail := by rw [advance_rest, hrest]; rfl
    split at h
    next found hfound =>
      obtain ⟨rfl, rfl⟩ := Prod.mk.inj (Except.ok.inj h)
      obtain ⟨letter, hletter, hcode⟩ := simpleEscape_sound hfound
      refine ⟨[letter], .short hletter, ?_⟩
      rw [htail, hrest, encode_cons, hcode]
      rfl
    next =>
      split at h
      next hmark =>
        subst hmark
        obtain ⟨text, htext, hmiddle⟩ := parseUnicodeEscape_sound h
        refine ⟨'u' :: text, htext, ?_⟩
        rw [hrest, ← htail, hmiddle]
        rfl
      next => cases h

/-- Decoded raw bytes of a string stand for themselves. -/
theorem pushUtf8Chunk_sound {out text : String} {chunk : Bytes}
    (hplain : ∀ byte ∈ chunk, byte ≠ 34 ∧ byte ≠ 92 ∧ ¬byte ≤ 0x1f)
    (h : pushUtf8Chunk out chunk = .ok text) :
    ∃ chars, CharsText chars chars ∧ chunk = encode chars ∧
      text.toList = out.toList ++ chars := by
  unfold pushUtf8Chunk at h
  split at h
  next => cases h
  next raw hraw =>
    obtain rfl := Except.ok.inj h
    have hbytes : chunk = encode raw.toList := by
      rw [← utf8_eq_encode]
      exact (fromUtf8_eq_some.mp hraw).symm
    refine ⟨raw.toList, .of_plain ?_, hbytes, String.toList_append⟩
    intro char hchar
    have hmem : ∀ byte ∈ String.utf8EncodeChar char, byte ∈ chunk := by
      intro byte hbyte
      rw [hbytes]
      exact List.mem_flatMap.mpr ⟨char, hchar, hbyte⟩
    refine ⟨?_, ?_, ?_⟩
    · by_contra hcontrol
      have hcode := utf8EncodeChar_ascii (show char.toNat < 128 by omega)
      have hbyte := (hplain _ (hmem _ (hcode ▸ List.mem_singleton_self _))).2.2
      simp only [UInt8.le_iff_toNat_le, UInt8.toNat_ofNat', UInt8.reduceToNat] at hbyte
      omega
    · rintro rfl
      exact (hplain 34 (hmem 34 (List.mem_singleton_self _))).1 rfl
    · rintro rfl
      exact (hplain 92 (hmem 92 (List.mem_singleton_self _))).2.1 rfl

/-- The loop stops at a quote only, and what it has read up to there spells the characters it adds.
The chunk holds plain bytes that are not decoded yet. -/
theorem parseStringLoop_sound {out text : String} {chunk : Bytes}
    (hplain : ∀ byte ∈ chunk, byte ≠ 34 ∧ byte ≠ 92 ∧ ¬byte ≤ 0x1f)
    (h : parseStringLoop out chunk parser = .ok (text, next)) :
    ∃ inner chars, CharsText inner chars ∧
      chunk ++ parser.rest = encode inner ++ 34 :: next.rest ∧
      text.toList = out.toList ++ chars := by
  have hdrop : ∀ {parser : FlatJsonParser} {byte : UInt8} {tail : Bytes},
      parser.rest = byte :: tail → (parser.advance 1).rest = tail := by
    intro parser byte tail hrest
    rw [advance_rest, hrest, List.drop_succ_cons, List.drop_zero]
  fun_induction parseStringLoop out chunk parser with
  | case1 => cases h
  | case2 out chunk parser tail hrest =>
      obtain ⟨pushed, hpush, h⟩ := bind_eq_ok.mp h
      obtain ⟨rfl, rfl⟩ := Prod.mk.inj (Except.ok.inj h)
      obtain ⟨chars, hchars, rfl, htext⟩ := pushUtf8Chunk_sound hplain hpush
      exact ⟨chars, chars, hchars, by rw [hdrop hrest, hrest], htext⟩
  | case3 => cases h
  | case4 => cases h
  -- the chunk before an escape becomes text, and the loop starts a new one
  | case5 out chunk parser tail pushed hpush char after hescape hrest _ ih =>
      obtain ⟨raw, hraw, rfl, hpushed⟩ := pushUtf8Chunk_sound hplain hpush
      obtain ⟨escape, hchar, htail⟩ := parseEscape_sound hescape
      obtain ⟨inner, chars, hchars, hinner, htext⟩ :=
        ih (fun byte hbyte => absurd hbyte List.not_mem_nil) h
      rw [List.nil_append] at hinner
      rw [hdrop hrest] at htail
      refine ⟨raw ++ ('\\' :: escape ++ inner), raw ++ char :: chars,
        hraw.append (.cons hchar hchars), ?_, ?_⟩
      · rw [hrest, htail, hinner, encode_append, encode_append, List.append_assoc,
          List.append_assoc]
        rfl
      · rw [htext, String.toList_push, hpushed]
        simp
  | case6 => cases h
  -- any other byte is added to the chunk
  | case7 out chunk parser byte tail hrest hquote hbackslash hcontrol ih =>
      have hextended : ∀ other ∈ chunk ++ [byte], other ≠ 34 ∧ other ≠ 92 ∧ ¬other ≤ 0x1f := by
        intro other hother
        rcases List.mem_append.mp hother with hother | hother
        · exact hplain other hother
        · rw [List.mem_singleton.mp hother]
          exact ⟨hquote, hbackslash, hcontrol⟩
      obtain ⟨inner, chars, hchars, hinner, htext⟩ := ih hextended h
      rw [hdrop hrest, List.append_assoc, List.singleton_append, ← hrest] at hinner
      exact ⟨inner, chars, hchars, hinner, htext⟩

/-- A string that is accepted is a string text of the grammar. -/
theorem parseString_sound {value : String} (h : parser.parseString = .ok (value, next)) :
    ∃ text, StringText text value ∧ parser.rest = encode text ++ next.rest := by
  unfold parseString at h
  split at h
  next => cases h
  next opened hquote =>
    obtain ⟨tail, hrest, rfl⟩ := expectByte_eq_ok.mp hquote
    obtain ⟨inner, chars, hchars, hinner, htext⟩ :=
      parseStringLoop_sound (fun byte hbyte => absurd hbyte List.not_mem_nil) h
    have hvalue : value.toList = chars := htext
    refine ⟨'"' :: inner ++ ['"'], ⟨inner, hvalue ▸ hchars, rfl⟩, ?_⟩
    rw [List.nil_append, advance_rest, hrest, List.drop_succ_cons, List.drop_zero] at hinner
    rw [hrest, hinner, encode_append, List.append_assoc]
    rfl

/-! ### Values and objects -/

/-- What is skipped is blank. -/
theorem skipWhitespace_sound (parser : FlatJsonParser) :
    ∃ text, Blank text ∧ parser.rest = encode text ++ parser.skipWhitespace.rest := by
  have hbyte : ∀ byte, isWhitespace byte = true →
      byte = 32 ∨ byte = 9 ∨ byte = 13 ∨ byte = 10 := by
    intro byte hspace
    simpa [isWhitespace, or_assoc] using hspace
  have hspaces : ∀ byte ∈ parser.rest.takeWhile isWhitespace,
      byte = 32 ∨ byte = 9 ∨ byte = 13 ∨ byte = 10 :=
    fun byte hmem => hbyte byte (List.mem_takeWhile_imp hmem)
  refine ⟨asciiText (parser.rest.takeWhile isWhitespace), ?_, ?_⟩
  · intro char hchar
    obtain ⟨byte, hmem, rfl⟩ := List.mem_map.mp hchar
    rcases hspaces byte hmem with rfl | rfl | rfl | rfl
    · exact .inl rfl
    · exact .inr (.inl rfl)
    · exact .inr (.inr (.inl rfl))
    · exact .inr (.inr (.inr rfl))
  · rw [encode_asciiText]
    · exact (List.prefix_iff_eq_append.mp (List.takeWhile_prefix _)).symm
    · intro byte hmem
      rcases hspaces byte hmem with rfl | rfl | rfl | rfl <;> decide

/-- The rest begins with its leading digits. -/
theorem numberDigits_append_drop (parser : FlatJsonParser) :
    parser.rest = parser.numberDigits ++ parser.rest.drop parser.numberDigits.length := by
  unfold numberDigits
  split
  next hzero =>
    obtain ⟨tail, hrest⟩ := List.head?_eq_some_iff.mp hzero
    rw [hrest]
    rfl
  next => exact (List.prefix_iff_eq_append.mp (List.takeWhile_prefix _)).symm

/-- A leading zero is read alone. -/
theorem numberDigits_of_head (h : parser.numberDigits.head? = some 48) :
    parser.numberDigits = [48] := by
  unfold numberDigits at h ⊢
  split
  next => rfl
  next hzero =>
    rw [if_neg hzero] at h
    obtain ⟨tail, htail⟩ := List.head?_eq_some_iff.mp h
    obtain ⟨rest, hrest⟩ := htail ▸ List.takeWhile_prefix (l := parser.rest) isAsciiDigit
    rw [peekByte, ← hrest] at hzero
    exact absurd rfl hzero

/-- Digits without a leading zero are a number text, and their characters encode as themselves. -/
theorem numberText_asciiText {digits : Bytes} (hall : digits.all isAsciiDigit = true)
    (hnonempty : digits ≠ []) (hleading : digits.head? = some 48 → digits = [48]) :
    NumberText (asciiText digits) (decimalValue digits) ∧ encode (asciiText digits) = digits := by
  have hrange : ∀ byte ∈ digits, 48 ≤ byte.toNat ∧ byte.toNat ≤ 57 := by
    intro byte hbyte
    have hdigit := List.all_eq_true.mp hall byte hbyte
    simpa [isAsciiDigit, UInt8.le_iff_toNat_le] using hdigit
  have hchars : ∀ char ∈ asciiText digits, 48 ≤ char.toNat ∧ char.toNat ≤ 57 := by
    intro char hchar
    obtain ⟨byte, hbyte, rfl⟩ := List.mem_map.mp hchar
    have hbyte := hrange byte hbyte
    rwa [toNat_charOfNat (by omega)]
  have hencode : encode (asciiText digits) = digits :=
    encode_asciiText fun byte hbyte => Nat.lt_of_le_of_lt (hrange byte hbyte).2 (by decide)
  have hmap : encode (asciiText digits) =
      (asciiText digits).map fun char => UInt8.ofNat char.toNat :=
    flatMap_utf8EncodeChar_ascii fun char hchar =>
      Nat.lt_of_le_of_lt (hchars char hchar).2 (by decide)
  refine ⟨⟨?_, ?_, ?_, ?_⟩, hencode⟩
  · exact fun char hchar => Char.isDigit_iff_toNat.mpr (hchars char hchar)
  · exact fun hnil => hnonempty (List.map_eq_nil_iff.mp hnil)
  · intro hhead
    have hdigits : digits.head? = some 48 := by
      rw [← hencode, hmap, List.head?_map, hhead]
      rfl
    rw [hleading hdigits]
    rfl
  · rw [← decimalValue_map hchars, ← hmap, hencode]

/-- A number that is accepted is a number text with that value. -/
theorem parseNumber_sound {value : UInt64} (h : parser.parseNumber = .ok (value, next)) :
    ∃ text, NumberText text value.toNat ∧ parser.rest = encode text ++ next.rest := by
  unfold parseNumber at h
  split at h
  next => cases h
  next =>
    split at h
    next => cases h
    next number hnumber =>
      obtain ⟨rfl, rfl⟩ := Prod.mk.inj (Except.ok.inj h)
      unfold parseU64 at hnumber
      split at hnumber
      next hdigits =>
        obtain rfl := Option.some.inj hnumber
        obtain ⟨hnonempty, hall, hsize⟩ := hdigits
        obtain ⟨htext, hencode⟩ := numberText_asciiText hall hnonempty numberDigits_of_head
        refine ⟨asciiText parser.numberDigits, ?_, ?_⟩
        · rwa [UInt64.toNat_ofNat', Nat.mod_eq_of_lt hsize]
        · rw [hencode]
          exact numberDigits_append_drop parser
      next => cases hnumber

/-- A literal is consumed where it stands. -/
theorem consumeLiteral_sound {literal : Bytes}
    (h : parser.consumeLiteral literal = some next) : parser.rest = literal ++ next.rest := by
  unfold consumeLiteral at h
  split at h
  next htake =>
    cases h
    rw [advance_rest]
    conv_lhs => rw [← List.take_append_drop literal.length parser.rest, htake]
  next => cases h

/-- A value that is accepted is a value text of the grammar. -/
theorem parseValue_sound {value : JsonValue} (h : parser.parseValue = .ok (value, next)) :
    ∃ text, ValueText text value ∧ parser.rest = encode text ++ next.rest := by
  have hliteral : ∀ {text : List Char} {result : JsonValue} {after : FlatJsonParser},
      ValueText text result → parser.consumeLiteral (encode text) = some after →
      Except.ok (result, after) = (Except.ok (value, next) : Except JsonError _) →
      ∃ text, ValueText text value ∧ parser.rest = encode text ++ next.rest := by
    intro text result after htext hconsumed heq
    obtain ⟨rfl, rfl⟩ := Prod.mk.inj (Except.ok.inj heq)
    exact ⟨text, htext, consumeLiteral_sound hconsumed⟩
  unfold parseValue at h
  split at h
  next => cases h
  next byte hbyte =>
    split_ifs at h with hquote htrue hfalse hnull hdigit
    · obtain ⟨⟨value, middle⟩, hstring, h⟩ := bind_eq_ok.mp h
      cases h
      obtain ⟨text, htext, hrest⟩ := parseString_sound hstring
      exact ⟨text, .string htext, hrest⟩
    · split at h
      next hconsumed => exact hliteral .true hconsumed h
      next => cases h
    · split at h
      next hconsumed => exact hliteral .false hconsumed h
      next => cases h
    · split at h
      next hconsumed => exact hliteral .null hconsumed h
      next => cases h
    · obtain ⟨⟨number, middle⟩, hnumber, h⟩ := bind_eq_ok.mp h
      cases h
      obtain ⟨text, htext, hrest⟩ := parseNumber_sound hnumber
      exact ⟨text, .number htext, hrest⟩

/-- A member that is accepted has a key that was not there before. -/
theorem parseMember_sound {values : JsonMembers} {member : String × JsonValue}
    (h : parseMember values parser = .ok (member, next)) :
    ∃ before text, Blank before ∧ MemberText text member ∧
      member.1 ∉ values.map Prod.fst ∧ parser.rest = encode (before ++ text) ++ next.rest := by
  unfold parseMember at h
  obtain ⟨⟨key, afterKey⟩, hkey, h⟩ := bind_eq_ok.mp h
  dsimp only at h
  split_ifs at h with hduplicate
  · cases h
  · obtain ⟨afterColon, hcolon, h⟩ := bind_eq_ok.mp h
    obtain ⟨⟨value, afterValue⟩, hvalue, h⟩ := bind_eq_ok.mp h
    obtain ⟨rfl, rfl⟩ := Prod.mk.inj (Except.ok.inj h)
    obtain ⟨before, hbefore, hstart⟩ := skipWhitespace_sound parser
    obtain ⟨keyText, hkeyText, hkeyRest⟩ := parseString_sound hkey
    obtain ⟨middle, hmiddle, hmiddleRest⟩ := skipWhitespace_sound afterKey
    obtain ⟨tail, hcolonRest, rfl⟩ := expectByte_eq_ok.mp hcolon
    obtain ⟨between, hbetween, hbetweenRest⟩ :=
      skipWhitespace_sound (afterKey.skipWhitespace.advance 1)
    obtain ⟨valueText, hvalueText, hvalueRest⟩ := parseValue_sound hvalue
    rw [advance_rest, hcolonRest, List.drop_succ_cons, List.drop_zero, hvalueRest]
      at hbetweenRest
    refine ⟨before, keyText ++ middle ++ ':' :: between ++ valueText, hbefore,
      .intro hkeyText hmiddle hbetween hvalueText, hduplicate, ?_⟩
    have hmark : String.utf8EncodeChar ':' = [58] := rfl
    rw [hstart, hkeyRest, hmiddleRest, hcolonRest, hbetweenRest]
    simp [encode_cons, hmark]

/-- A new key at the end keeps the keys distinct. -/
theorem keys_concat {values : JsonMembers} {member : String × JsonValue}
    (hkeys : (values.map Prod.fst).Nodup) (hmember : member.1 ∉ values.map Prod.fst) :
    ((values ++ [member]).map Prod.fst).Nodup := by
  rw [List.map_append, List.map_singleton, ← List.concat_eq_append]
  exact hkeys.concat hmember

/-- The loop over the members accepts members of the grammar with distinct keys, up to the brace. -/
theorem parseMembers_sound {values result : JsonMembers}
    (h : parseMembers values parser = .ok (result, next))
    (hkeys : (values.map Prod.fst).Nodup) :
    ∃ text members, MembersText text members ∧ result = values ++ members ∧
      (result.map Prod.fst).Nodup ∧ parser.rest = encode text ++ 125 :: next.rest := by
  have hclose : String.utf8EncodeChar ',' = [44] := rfl
  fun_induction parseMembers values parser with
  | case1 => cases h
  | case2 values parser member afterMember hmember hbrace =>
      obtain ⟨rfl, rfl⟩ := Prod.mk.inj (Except.ok.inj h)
      obtain ⟨before, text, hbefore, htext, hfresh, hrest⟩ := parseMember_sound hmember
      obtain ⟨after, hafter, hafterRest⟩ := skipWhitespace_sound afterMember
      obtain ⟨tail, htail⟩ := List.head?_eq_some_iff.mp hbrace
      refine ⟨before ++ text ++ after, [member], .last hbefore htext hafter, rfl,
        keys_concat hkeys hfresh, ?_⟩
      rw [hrest, hafterRest, htail, advance_rest, htail]
      simp
  | case3 => cases h
  | case4 values parser member afterMember hmember _ afterComma hcomma ih =>
      obtain ⟨before, text, hbefore, htext, hfresh, hrest⟩ := parseMember_sound hmember
      obtain ⟨after, hafter, hafterRest⟩ := skipWhitespace_sound afterMember
      obtain ⟨tail, hcommaRest, rfl⟩ := expectByte_eq_ok.mp hcomma
      obtain ⟨others, members, hothers, rfl, hall, htail⟩ := ih h (keys_concat hkeys hfresh)
      rw [advance_rest, hcommaRest, List.drop_succ_cons, List.drop_zero] at htail
      refine ⟨before ++ text ++ after ++ ',' :: others, member :: members,
        .more hbefore htext hafter hothers, ?_, hall, ?_⟩
      · rw [List.append_assoc, List.singleton_append]
      · rw [hrest, hafterRest, hcommaRest, htail]
        simp [encode_cons, hclose]

/-- An object that is accepted is an object text whose keys are distinct, and nothing follows it. -/
theorem parseObject_sound {members : JsonMembers} (h : parser.parseObject = .ok members) :
    ∃ text, ObjectText text members ∧ (members.map Prod.fst).Nodup ∧
      parser.rest = encode text := by
  unfold parseObject at h
  obtain ⟨opened, hopen, h⟩ := bind_eq_ok.mp h
  dsimp only at h
  split_ifs at h with hempty
  · cases h
  · obtain ⟨⟨values, closed⟩, hvalues, h⟩ := bind_eq_ok.mp h
    dsimp only at h
    split_ifs at h with htrailing
    · cases h
    · obtain rfl := Except.ok.inj h
      obtain ⟨before, hbefore, hbeforeRest⟩ := skipWhitespace_sound parser
      obtain ⟨tail, hopenRest, rfl⟩ := expectByte_eq_ok.mp hopen
      obtain ⟨blank, hblank, hblankRest⟩ :=
        skipWhitespace_sound (parser.skipWhitespace.advance 1)
      obtain ⟨inner, members, hinner, rfl, hkeys, hinnerRest⟩ :=
        parseMembers_sound hvalues List.nodup_nil
      obtain ⟨after, hafter, hafterRest⟩ := skipWhitespace_sound closed
      rw [Decidable.not_not.mp htrailing, List.append_nil] at hafterRest
      rw [advance_rest, hopenRest, List.drop_succ_cons, List.drop_zero, hinnerRest] at hblankRest
      refine ⟨before ++ '{' :: (blank ++ inner) ++ '}' :: after,
        ⟨before, blank ++ inner, after, hbefore, hinner.blank_append hblank, hafter, rfl⟩,
        hkeys, ?_⟩
      have hleft : String.utf8EncodeChar '{' = [123] := rfl
      have hright : String.utf8EncodeChar '}' = [125] := rfl
      rw [hbeforeRest, hopenRest, hblankRest, hafterRest]
      simp [encode_cons, hleft, hright]

/-! ## Reading every text of the grammar -/

/-- A hexadecimal digit is one byte, read with its value. -/
theorem toDigit16_of_hexDigit {char : Char} {digit : Nat} (h : HexDigit char digit) :
    ∃ byte, String.utf8EncodeChar char = [byte] ∧ toDigit16 byte = some (UInt16.ofNat digit) := by
  have hall : ∀ digit < 16, digit.digitChar.toUpper.toNat < 128 ∧ digit.digitChar.toNat < 128 ∧
      toDigit16 (UInt8.ofNat digit.digitChar.toUpper.toNat) = some (UInt16.ofNat digit) := by
    decide
  obtain ⟨hdigit, rfl | rfl⟩ := h
  · exact ⟨_, utf8EncodeChar_ascii (hall digit hdigit).2.1, toDigit16_digitChar digit hdigit⟩
  · exact ⟨_, utf8EncodeChar_ascii (hall digit hdigit).1, (hall digit hdigit).2.2⟩

/-- The digit loop reads any hexadecimal digits whose value fits. -/
theorem parseHexDigits_complete {text : List Char} {digits : List Nat}
    (h : List.Forall₂ HexDigit text digits) {value : UInt16}
    (hroom : (value.toNat + 1) * 16 ^ digits.length ≤ 65536) (position : Nat) (tail : Bytes) :
    ∃ result position', parseHexDigits digits.length value ⟨position, encode text ++ tail⟩ =
        .ok (result, ⟨position', tail⟩) ∧
      digits.foldl (fun value digit => 16 * value + digit) value.toNat = result.toNat := by
  induction h generalizing value position with
  | nil => exact ⟨value, position, rfl, rfl⟩
  | @cons char digit text digits hchar _ ih =>
      obtain ⟨byte, hbyte, hread⟩ := toDigit16_of_hexDigit hchar
      obtain ⟨hsmall, hnext⟩ := hexRoom_step hroom hchar.1
      have hvalue := toNat_shiftLeft_or rfl hsmall hchar.1
      obtain ⟨result, position', hparse, hfold⟩ := ih (hvalue ▸ hnext) (position + 1)
      refine ⟨result, position', ?_, ?_⟩
      · rw [encode_cons, hbyte, List.length_cons, parseHexDigits]
        simpa [peekByte, hread, advance] using hparse
      · rw [List.foldl_cons, ← hvalue, hfold]

/-- Any quad of the grammar is read with its value. -/
theorem parseHexU16_complete {text : List Char} {value : Nat} (h : HexQuad text value)
    (position : Nat) (tail : Bytes) :
    ∃ result position', parseHexU16 ⟨position, encode text ++ tail⟩ =
      .ok (result, ⟨position', tail⟩) ∧ result.toNat = value := by
  obtain ⟨digits, hlength, hdigits, rfl⟩ := h
  have hroom : ((0 : UInt16).toNat + 1) * 16 ^ digits.length ≤ 65536 := by
    rw [hlength]
    decide
  obtain ⟨result, position', hparse, hfold⟩ := parseHexDigits_complete hdigits hroom position tail
  rw [hlength] at hparse
  exact ⟨result, position', hparse, hfold.symm⟩

/-- A code unit that is a character is not a surrogate. -/
theorem parseUnicodeEscape_unit {quad : List Char} {char : Char} (h : HexQuad quad char.toNat)
    (position : Nat) (tail : Bytes) :
    ∃ position', parseUnicodeEscape ⟨position, encode quad ++ tail⟩ =
      .ok (char, ⟨position', tail⟩) := by
  obtain ⟨first, position', hparse, hfirst⟩ := parseHexU16_complete h position tail
  have hvalid : char.toNat.isValidChar := char.valid
  have hhigh : ¬(0xd800 ≤ first ∧ first ≤ 0xdbff) := by
    simp only [UInt16.le_iff_toNat_le, UInt16.reduceToNat, hfirst]
    unfold Nat.isValidChar at hvalid
    omega
  have hlow : ¬(0xdc00 ≤ first ∧ first ≤ 0xdfff) := by
    simp only [UInt16.le_iff_toNat_le, UInt16.reduceToNat, hfirst]
    unfold Nat.isValidChar at hvalid
    omega
  refine ⟨position', ?_⟩
  rw [parseUnicodeEscape, parseScalar, hparse]
  simp only [ok_bind, hhigh, hlow, if_false, hfirst, charFromU32_toNat]

/-- Two escaped surrogates, high and low, are read as the one character they stand for. -/
theorem parseUnicodeEscape_pair {high low : List Char} {top bottom : Nat} {char : Char}
    (hhigh : HexQuad high (0xd800 + top)) (htop : top < 0x400)
    (hlow : HexQuad low (0xdc00 + bottom)) (hbottom : bottom < 0x400)
    (hchar : char.toNat = 0x10000 + top * 0x400 + bottom) (position : Nat) (tail : Bytes) :
    ∃ position', parseUnicodeEscape ⟨position, encode (high ++ '\\' :: 'u' :: low) ++ tail⟩ =
      .ok (char, ⟨position', tail⟩) := by
  obtain ⟨first, middle, hparse, hfirst⟩ :=
    parseHexU16_complete hhigh position (92 :: 117 :: (encode low ++ tail))
  obtain ⟨second, position', hparseLow, hsecond⟩ := parseHexU16_complete hlow (middle + 2) tail
  have hsurrogate : 0xd800 ≤ first ∧ first ≤ 0xdbff := by
    simp only [UInt16.le_iff_toNat_le, UInt16.reduceToNat, hfirst]
    omega
  have hrange : 0xdc00 ≤ second ∧ second ≤ 0xdfff := by
    simp only [UInt16.le_iff_toNat_le, UInt16.reduceToNat, hsecond]
    omega
  have hbytes : encode (high ++ '\\' :: 'u' :: low) ++ tail =
      encode high ++ 92 :: 117 :: (encode low ++ tail) := by
    rw [encode_append, List.append_assoc]
    rfl
  have hnext : (advance ⟨middle, 92 :: 117 :: (encode low ++ tail)⟩ 2).parseHexU16 =
      .ok (second, ⟨position', tail⟩) := hparseLow
  have hscalar : 0x10000 + (first.toNat - 0xd800) * 0x400 + (second.toNat - 0xdc00) =
      char.toNat := by
    rw [hfirst, hsecond, Nat.add_sub_cancel_left, Nat.add_sub_cancel_left, hchar]
  refine ⟨position', ?_⟩
  rw [hbytes, parseUnicodeEscape, parseScalar, hparse]
  simp only [ok_bind, hsurrogate, and_self, if_true, List.take_succ_cons, List.take_zero, ne_eq,
    not_true_eq_false, if_false, hnext, hrange, hscalar, charFromU32_toNat]

/-- Every shorthand of the grammar is read. -/
theorem simpleEscape_complete {letter char : Char} (h : Shorthand letter char) :
    ∃ escaped, String.utf8EncodeChar letter = [escaped] ∧ simpleEscape escaped = some char := by
  cases h <;> exact ⟨_, rfl, rfl⟩

/-- One character of a string is read as that character. -/
theorem parseStringLoop_char {text : List Char} {char : Char} (h : CharText text char)
    (out : String) (position : Nat) (tail : Bytes) :
    ∃ position', parseStringLoop out [] ⟨position, encode text ++ tail⟩ =
      parseStringLoop (out.push char) [] ⟨position', tail⟩ := by
  have hmarked : ∀ {position' : Nat} {text : List Char},
      parseUnicodeEscape ⟨position + 2, encode text ++ tail⟩ = .ok (char, ⟨position', tail⟩) →
      parseStringLoop out [] ⟨position, encode ('\\' :: 'u' :: text) ++ tail⟩ =
        parseStringLoop (out.push char) [] ⟨position', tail⟩ := by
    intro position' text hparse
    have hbytes : encode ('\\' :: 'u' :: text) ++ tail = 92 :: 117 :: (encode text ++ tail) := rfl
    rw [hbytes]
    apply parseStringLoop_escape
    simpa [parseEscape, peekByte, simpleEscape, advance] using hparse
  cases h with
  | plain hcontrol hquote hbackslash =>
      refine ⟨position + (String.utf8EncodeChar char).length, ?_⟩
      have hbytes : encode [char] = String.utf8EncodeChar char := List.append_nil _
      rw [hbytes, parseStringLoop_plain_append, List.nil_append, ← utf8_singleton,
        parseStringLoop_utf8, String.append_singleton]
      exact fun byte hbyte => plain_byte hquote hbackslash hcontrol hbyte
  | short hletter =>
      obtain ⟨escaped, hcode, hescape⟩ := simpleEscape_complete hletter
      refine ⟨position + 2, ?_⟩
      rw [encode_cons, encode_cons, hcode]
      apply parseStringLoop_escape
      simp [parseEscape, peekByte, hescape, advance]
  | unit hquad =>
      obtain ⟨position', hparse⟩ := parseUnicodeEscape_unit hquad (position + 2) tail
      exact ⟨position', hmarked hparse⟩
  | pair hhigh htop hlow hbottom hchar =>
      obtain ⟨position', hparse⟩ :=
        parseUnicodeEscape_pair hhigh htop hlow hbottom hchar (position + 2) tail
      exact ⟨position', hmarked hparse⟩

/-- The loop reads any characters of the grammar up to the closing quote. -/
theorem parseStringLoop_chars {text chars : List Char} (h : CharsText text chars) (out : String)
    (position : Nat) (tail : Bytes) :
    ∃ position', parseStringLoop out [] ⟨position, encode text ++ 34 :: tail⟩ =
      .ok (out ++ String.ofList chars, ⟨position', tail⟩) := by
  induction h generalizing out position with
  | nil =>
      refine ⟨position + 1, ?_⟩
      rw [encode_nil, List.nil_append, parseStringLoop_quote]
      simp [pushUtf8Chunk, Except.map]
  | @cons text rest chars char hchar _ ih =>
      obtain ⟨middle, hfirst⟩ :=
        parseStringLoop_char hchar out position (encode rest ++ 34 :: tail)
      obtain ⟨position', hrest⟩ := ih (out.push char) middle
      refine ⟨position', ?_⟩
      rw [encode_append, List.append_assoc, hfirst, hrest]
      congr 2
      rw [← String.toList_inj]
      simp

/-- Every string text of the grammar is read with its value. -/
theorem parseString_complete {text : List Char} {value : String} (h : StringText text value)
    (position : Nat) (tail : Bytes) :
    ∃ position', parseString ⟨position, encode text ++ tail⟩ =
      .ok (value, ⟨position', tail⟩) := by
  obtain ⟨inner, hinner, rfl⟩ := h
  obtain ⟨position', hloop⟩ := parseStringLoop_chars hinner "" (position + 1) tail
  have hbytes : encode ('"' :: inner ++ ['"']) ++ tail = 34 :: (encode inner ++ 34 :: tail) := by
    rw [encode_append, List.append_assoc]
    rfl
  have hopen : expectByte ⟨position, 34 :: (encode inner ++ 34 :: tail)⟩ 34 =
      .ok ⟨position + 1, encode inner ++ 34 :: tail⟩ := rfl
  refine ⟨position', ?_⟩
  rw [hbytes, parseString, hopen]
  dsimp only
  rw [hloop, String.empty_append, String.ofList_toList]

/-! ### Values and objects -/

/-- The bytes of a blank are white space, and no digits. -/
theorem isWhitespace_blank {text : List Char} (h : Blank text) :
    ∀ byte ∈ encode text, isWhitespace byte = true ∧ isAsciiDigit byte = false := by
  intro byte hbyte
  obtain ⟨char, hchar, hmem⟩ := List.mem_flatMap.mp hbyte
  rcases h char hchar with rfl | rfl | rfl | rfl <;> rw [List.mem_singleton.mp hmem] <;> decide

/-- Whitespace is skipped up to the first other byte. -/
theorem skipWhitespace_complete {text : List Char} (h : Blank text) {tail : Bytes}
    (htail : tail.head?.any isWhitespace = false) (position : Nat) :
    ∃ position', skipWhitespace ⟨position, encode text ++ tail⟩ = ⟨position', tail⟩ := by
  have hstop : tail.takeWhile isWhitespace = [] := by
    cases tail with
    | nil => rfl
    | cons byte tail =>
        rw [List.takeWhile_cons_of_neg]
        simpa using htail
  refine ⟨position + (encode text).length, ?_⟩
  rw [skipWhitespace,
    List.takeWhile_append_of_pos fun byte hbyte => (isWhitespace_blank h byte hbyte).1, hstop,
    List.append_nil]
  simp [advance]

/-- Digits are encoded as one byte each, and these bytes are digits. -/
theorem isAsciiDigit_encode {text : List Char} (h : ∀ char ∈ text, char.isDigit = true) :
    encode text = (text.map fun char => UInt8.ofNat char.toNat) ∧
      ∀ byte ∈ encode text, isAsciiDigit byte = true := by
  have hchars : ∀ char ∈ text, 48 ≤ char.toNat ∧ char.toNat ≤ 57 :=
    fun char hchar => Char.isDigit_iff_toNat.mp (h char hchar)
  have hencode : encode text = text.map fun char => UInt8.ofNat char.toNat :=
    flatMap_utf8EncodeChar_ascii fun char hchar =>
      Nat.lt_of_le_of_lt (hchars char hchar).2 (by decide)
  refine ⟨hencode, ?_⟩
  intro byte hbyte
  rw [hencode] at hbyte
  obtain ⟨char, hchar, rfl⟩ := List.mem_map.mp hbyte
  have hrange := hchars char hchar
  have hsmall : char.toNat % 256 = char.toNat := Nat.mod_eq_of_lt (by omega)
  simpa [isAsciiDigit, UInt8.le_iff_toNat_le, hsmall] using hrange

/-- Every number text is read with its value when no digit follows. -/
theorem parseNumber_complete {text : List Char} {value : UInt64}
    (h : NumberText text value.toNat) {tail : Bytes}
    (htail : tail.head?.any isAsciiDigit = false) (position : Nat) :
    ∃ position', parseNumber ⟨position, encode text ++ tail⟩ =
      .ok (value, ⟨position', tail⟩) := by
  have hchars : ∀ char ∈ text, 48 ≤ char.toNat ∧ char.toNat ≤ 57 :=
    fun char hchar => Char.isDigit_iff_toNat.mp (h.digits char hchar)
  obtain ⟨hencode, hbytes⟩ := isAsciiDigit_encode h.digits
  have hvalue : decimalValue (encode text) = value.toNat := by
    rw [hencode, decimalValue_map hchars, h.value]
  have hparse : parseU64 (encode text) = some value := by
    rw [parseU64, if_pos, hvalue, UInt64.ofNat_toNat]
    refine ⟨?_, List.all_eq_true.mpr hbytes, hvalue ▸ value.toNat_lt_size⟩
    rw [hencode]
    exact fun hnil => h.nonempty (List.map_eq_nil_iff.mp hnil)
  refine ⟨_, parseNumber_digits hparse ?_ position htail⟩
  intro hhead
  have hfirst : text.head? = some '0' := by
    rw [hencode, List.head?_map] at hhead
    obtain ⟨char, hchar, hbyte⟩ := Option.map_eq_some_iff.mp hhead
    have hrange := hchars char (List.mem_of_head? hchar)
    have hcode := congrArg UInt8.toNat hbyte
    rw [UInt8.toNat_ofNat', Nat.mod_eq_of_lt (by omega)] at hcode
    rw [hchar, Char.toNat_inj.mp (show char.toNat = '0'.toNat from hcode)]
  rw [h.leading hfirst]
  rfl

/-- Every value text is read with its value when no digit follows. -/
theorem parseValue_complete {text : List Char} {value : JsonValue} (h : ValueText text value)
    {tail : Bytes} (htail : tail.head?.any isAsciiDigit = false) (position : Nat) :
    ∃ position', parseValue ⟨position, encode text ++ tail⟩ =
      .ok (value, ⟨position', tail⟩) := by
  cases h with
  | null => exact ⟨_, rfl⟩
  | true => exact ⟨_, rfl⟩
  | false => exact ⟨_, rfl⟩
  | number hnumber =>
      obtain ⟨position', hparse⟩ := parseNumber_complete hnumber htail position
      refine ⟨position', ?_⟩
      cases hbytes : encode text with
      | nil => exact absurd (encode_injective (hbytes.trans encode_nil.symm)) hnumber.nonempty
      | cons byte rest =>
          have hbyte := (isAsciiDigit_encode hnumber.digits).2 byte (hbytes ▸ List.mem_cons_self)
          rw [hbytes, List.cons_append] at hparse
          rw [List.cons_append, parseValue_digit hbyte, hparse]
          rfl
  | string hstring =>
      obtain ⟨position', hparse⟩ := parseString_complete hstring position tail
      obtain ⟨inner, _, rfl⟩ := hstring
      have hbytes : encode ('"' :: inner ++ ['"']) ++ tail =
          34 :: (encode (inner ++ ['"']) ++ tail) := rfl
      refine ⟨position', ?_⟩
      rw [hbytes] at hparse ⊢
      rw [parseValue_quote, hparse]
      rfl

/-- No token starts with whitespace. -/
theorem head_valueText {text : List Char} {value : JsonValue} (h : ValueText text value)
    (tail : Bytes) : (encode text ++ tail).head?.any isWhitespace = false := by
  cases h with
  | null => rfl
  | true => rfl
  | false => rfl
  | number hnumber =>
      cases hbytes : encode text with
      | nil => exact absurd (encode_injective (hbytes.trans encode_nil.symm)) hnumber.nonempty
      | cons byte rest =>
          have hbyte := (isAsciiDigit_encode hnumber.digits).2 byte (hbytes ▸ List.mem_cons_self)
          exact isWhitespace_of_isAsciiDigit hbyte
  | string hstring =>
      obtain ⟨inner, _, rfl⟩ := hstring
      rfl

/-- After whitespace comes the byte that follows it. -/
theorem head_blank {text : List Char} (h : Blank text) {byte : UInt8}
    (hbyte : isAsciiDigit byte = false) (tail : Bytes) :
    (encode text ++ byte :: tail).head?.any isAsciiDigit = false := by
  cases hbytes : encode text with
  | nil => exact hbyte
  | cons first rest => exact (isWhitespace_blank h first (hbytes ▸ List.mem_cons_self)).2

/-- Every member with a new key is read, blanks before it included. -/
theorem parseMember_complete {values : JsonMembers} {before text : List Char}
    {member : String × JsonValue} (hbefore : Blank before) (h : MemberText text member)
    (hfresh : member.1 ∉ values.map Prod.fst) {tail : Bytes}
    (htail : tail.head?.any isAsciiDigit = false) (position : Nat) :
    ∃ position', parseMember values ⟨position, encode (before ++ text) ++ tail⟩ =
      .ok (member, ⟨position', tail⟩) := by
  cases h with
  | @intro keyText middle between valueText key value hkey hmiddle hbetween hvalue =>
    let afterColon := encode between ++ (encode valueText ++ tail)
    have hbytes : encode (before ++ (keyText ++ middle ++ ':' :: between ++ valueText)) ++ tail =
        encode before ++ (encode keyText ++ (encode middle ++ 58 :: afterColon)) := by
      have hmark : String.utf8EncodeChar ':' = [58] := rfl
      simp [encode_cons, hmark, afterColon]
    have hquote : ∀ rest : Bytes, (encode keyText ++ rest).head?.any isWhitespace = false := by
      obtain ⟨inner, _, rfl⟩ := hkey
      exact fun _ => rfl
    have hcolon : ∀ position, expectByte ⟨position, 58 :: afterColon⟩ 58 =
        .ok ⟨position + 1, afterColon⟩ := fun _ => rfl
    obtain ⟨started, hstart⟩ := skipWhitespace_complete hbefore (hquote _) position
    obtain ⟨keyEnd, hkeyParse⟩ := parseString_complete hkey started
      (encode middle ++ 58 :: afterColon)
    obtain ⟨colon, hmiddleSkip⟩ :=
      @skipWhitespace_complete _ hmiddle (58 :: afterColon) rfl keyEnd
    obtain ⟨valueStart, hbetweenSkip⟩ :=
      skipWhitespace_complete hbetween (head_valueText hvalue tail) (colon + 1)
    obtain ⟨position', hvalueParse⟩ := parseValue_complete hvalue htail valueStart
    refine ⟨position', ?_⟩
    rw [hbytes, parseMember, hstart, hkeyParse, ok_bind]
    simp only [hfresh, if_false, hmiddleSkip, hcolon, hbetweenSkip, afterColon, hvalueParse,
      ok_bind]
    rfl

/-- After a member, the brace ends the object. -/
theorem parseMembers_brace {values : JsonMembers} {parser after : FlatJsonParser}
    {member : String × JsonValue} (hmember : parseMember values parser = .ok (member, after))
    (hbrace : after.skipWhitespace.peekByte = some 125) :
    parseMembers values parser =
      .ok (values ++ [member], after.skipWhitespace.advance 1) := by
  rw [parseMembers]
  split
  next error herror => rw [hmember] at herror; cases herror
  next found reached hfound =>
    rw [hmember] at hfound
    cases hfound
    rw [if_pos hbrace]

/-- After a member, a comma asks for the next one. -/
theorem parseMembers_comma {values : JsonMembers} {parser after reached : FlatJsonParser}
    {member : String × JsonValue} (hmember : parseMember values parser = .ok (member, after))
    (hcomma : after.skipWhitespace.expectByte 44 = .ok reached) :
    parseMembers values parser = parseMembers (values ++ [member]) reached := by
  have hbrace : ¬after.skipWhitespace.peekByte = some 125 := by
    obtain ⟨tail, hrest, _⟩ := expectByte_eq_ok.mp hcomma
    rw [peekByte, hrest]
    exact fun h => absurd (Option.some.inj h) (by decide)
  rw [parseMembers]
  split
  next error herror => rw [hmember] at herror; cases herror
  next found next hfound =>
    rw [hmember] at hfound
    cases hfound
    rw [if_neg hbrace]
    split
    next error herror => rw [hcomma] at herror; cases herror
    next next hnext =>
      rw [hcomma] at hnext
      cases hnext
      rfl

/-- All members of the grammar are read when their keys are distinct. -/
theorem parseMembers_complete {text : List Char} {members : JsonMembers}
    (h : MembersText text members) {values : JsonMembers}
    (hkeys : ((values ++ members).map Prod.fst).Nodup) (position : Nat) (tail : Bytes) :
    ∃ position', parseMembers values ⟨position, encode text ++ 125 :: tail⟩ =
      .ok (values ++ members, ⟨position', tail⟩) := by
  have hfresh : ∀ {values rest : JsonMembers} {member : String × JsonValue},
      ((values ++ member :: rest).map Prod.fst).Nodup → member.1 ∉ values.map Prod.fst := by
    intro values rest member hnodup hmem
    rw [List.map_append, List.nodup_append] at hnodup
    exact hnodup.2.2 _ hmem _ List.mem_cons_self rfl
  induction h generalizing values position with
  -- the last member, with the brace behind it
  | @last before text after member hbefore hmember hafter =>
      obtain ⟨middle, hparse⟩ := parseMember_complete hbefore hmember (hfresh hkeys)
        (@head_blank _ hafter 125 rfl tail) position
      obtain ⟨closing, hskip⟩ := @skipWhitespace_complete _ hafter (125 :: tail) rfl middle
      have hbytes : encode (before ++ text ++ after) ++ 125 :: tail =
          encode (before ++ text) ++ (encode after ++ 125 :: tail) := by
        rw [encode_append, List.append_assoc]
      refine ⟨closing + 1, ?_⟩
      rw [hbytes, parseMembers_brace hparse (by rw [hskip]; rfl), hskip]
      rfl
  -- a member, a comma, and the members that the next round reads
  | @more before text after rest member members hbefore hmember hafter hrest ih =>
      let others := encode rest ++ 125 :: tail
      obtain ⟨middle, hparse⟩ := parseMember_complete hbefore hmember (hfresh hkeys)
        (@head_blank _ hafter 44 rfl others) position
      obtain ⟨comma, hskip⟩ := @skipWhitespace_complete _ hafter (44 :: others) rfl middle
      have hbytes : encode (before ++ text ++ after ++ ',' :: rest) ++ 125 :: tail =
          encode (before ++ text) ++ (encode after ++ 44 :: others) := by
        have hmark : String.utf8EncodeChar ',' = [44] := rfl
        simp [encode_cons, hmark, others]
      have hcomma : expectByte (skipWhitespace ⟨middle, encode after ++ 44 :: others⟩) 44 =
          .ok ⟨comma + 1, others⟩ := by
        rw [hskip]
        rfl
      obtain ⟨position', hothers⟩ := @ih (values ++ [member]) (by simpa using hkeys) (comma + 1)
      refine ⟨position', ?_⟩
      rw [hbytes, parseMembers_comma hparse hcomma, hothers, List.append_assoc,
        List.singleton_append]

/-- Behind the leading whitespace stands the quote of the first key. -/
theorem membersText_cut {text : List Char} {members : JsonMembers}
    (h : MembersText text members) :
    ∃ before rest, Blank before ∧ text = before ++ '"' :: rest ∧
      MembersText ('"' :: rest) members := by
  have hnone : Blank [] := fun char hchar => absurd hchar List.not_mem_nil
  have hquote : ∀ {text : List Char} {member : String × JsonValue}, MemberText text member →
      ∃ rest, text = '"' :: rest := by
    intro text member hmember
    cases hmember with
    | intro hkey =>
        obtain ⟨inner, _, rfl⟩ := hkey
        exact ⟨_, rfl⟩
  cases h with
  | @last before _ after _ hbefore hmember hafter =>
      obtain ⟨rest, rfl⟩ := hquote hmember
      refine ⟨before, rest ++ after, hbefore, List.append_assoc _ _ _, ?_⟩
      exact .last hnone hmember hafter
  | @more before _ after others _ _ hbefore hmember hafter hrest =>
      obtain ⟨rest, rfl⟩ := hquote hmember
      refine ⟨before, rest ++ after ++ ',' :: others, hbefore, by simp, ?_⟩
      exact .more hnone hmember hafter hrest

/-- Every object text with distinct keys is accepted with its members. -/
theorem parseObject_complete {text : List Char} {members : JsonMembers}
    (h : ObjectText text members) (hkeys : (members.map Prod.fst).Nodup) (position : Nat) :
    parseObject ⟨position, encode text⟩ = .ok members := by
  obtain ⟨before, inner, after, hbefore, hinner, hafter, rfl⟩ := h
  obtain ⟨blank, rest, hblank, rfl, hmembers⟩ := membersText_cut hinner
  let opened := encode ('"' :: rest) ++ 125 :: encode after
  have hbytes : encode (before ++ '{' :: (blank ++ '"' :: rest) ++ '}' :: after) =
      encode before ++ 123 :: (encode blank ++ opened) := by
    have hleft : String.utf8EncodeChar '{' = [123] := rfl
    have hright : String.utf8EncodeChar '}' = [125] := rfl
    simp [encode_cons, hleft, hright, opened]
  obtain ⟨start, hstart⟩ :=
    @skipWhitespace_complete _ hbefore (123 :: (encode blank ++ opened)) rfl position
  have hopen : expectByte ⟨start, 123 :: (encode blank ++ opened)⟩ 123 =
      .ok ⟨start + 1, encode blank ++ opened⟩ := rfl
  obtain ⟨first, hfirst⟩ := @skipWhitespace_complete _ hblank opened rfl (start + 1)
  have hpeek : ¬peekByte ⟨first, opened⟩ = some 125 :=
    fun h => absurd (Option.some.inj h) (by decide)
  obtain ⟨closed, hloop⟩ := @parseMembers_complete _ _ hmembers [] hkeys first (encode after)
  obtain ⟨finish, hfinish⟩ := @skipWhitespace_complete _ hafter [] rfl closed
  rw [List.append_nil] at hfinish
  rw [hbytes, parseObject, hstart, hopen]
  simp only [ok_bind, hfirst, hpeek, if_false, opened, hloop, hfinish, List.nil_append]
  rfl

/-- The parser is total and accepts exactly the texts of the grammar whose keys
are pairwise distinct, with the members that they denote. -/
theorem parseObject_iff (input : String) (members : JsonMembers) :
    (new input).parseObject = .ok members ↔
      ObjectText input.toList members ∧ (members.map Prod.fst).Nodup := by
  constructor
  · intro h
    obtain ⟨text, htext, hkeys, hbytes⟩ := parseObject_sound h
    have hinput : encode input.toList = encode text := (utf8_eq_encode input).symm.trans hbytes
    rw [encode_injective hinput]
    exact ⟨htext, hkeys⟩
  · rintro ⟨htext, hkeys⟩
    rw [new, utf8_eq_encode]
    exact parseObject_complete htext hkeys 0

end FlatJsonParser

end Oasi
