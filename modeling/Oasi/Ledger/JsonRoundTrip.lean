import Oasi.Ledger.JsonText
import Mathlib.Data.List.Nodup

/-! # Rendered JSON is parsed back

The escaper and the parser agree on every Unicode string: a quoted escaped
string is read back as itself, with the cursor behind the closing quote. From
this, any nonempty flat object with distinct keys is read back member by member.
-/

namespace Oasi

namespace FlatJsonParser

/-! ## Strings -/

/-- A quote ends the string. -/
theorem parseStringLoop_quote (out : String) (chunk : Bytes) (position : Nat) (tail : Bytes) :
    parseStringLoop out chunk ⟨position, 34 :: tail⟩ =
      (pushUtf8Chunk out chunk).map fun text => (text, ⟨position + 1, tail⟩) := by
  rw [parseStringLoop]
  simp only [if_true]
  cases pushUtf8Chunk out chunk <;> rfl

/-- A plain byte joins the chunk. -/
theorem parseStringLoop_plain {byte : UInt8} (hquote : byte ≠ 34) (hbackslash : byte ≠ 92)
    (hcontrol : ¬byte ≤ 0x1f) (out : String) (chunk : Bytes) (position : Nat) (tail : Bytes) :
    parseStringLoop out chunk ⟨position, byte :: tail⟩ =
      parseStringLoop out (chunk ++ [byte]) ⟨position + 1, tail⟩ := by
  rw [parseStringLoop]
  simp only [hquote, hbackslash, hcontrol, if_false]
  rfl

/-- Decoded text may be moved from the pending chunk to the output. -/
theorem parseStringLoop_utf8_append (out pending : String) (chunk : Bytes)
    (parser : FlatJsonParser) :
    parseStringLoop out (utf8 pending ++ chunk) parser =
      parseStringLoop (out ++ pending) chunk parser := by
  have hpush : ∀ rest, pushUtf8Chunk out (utf8 pending ++ rest) =
      pushUtf8Chunk (out ++ pending) rest := by
    intro rest
    unfold pushUtf8Chunk
    rw [fromUtf8_utf8_append]
    cases fromUtf8 rest with
    | none => rfl
    | some text => simp [String.append_assoc]
  -- induction on the bytes left: only the raw bytes of the chunk differ until the next escape
  induction hlength : parser.rest.length using Nat.strongRecOn generalizing chunk parser with
  | ind length ih =>
      obtain ⟨position, rest⟩ := parser
      cases rest with
      | nil => rw [parseStringLoop, parseStringLoop]
      | cons byte tail =>
          by_cases hquote : byte = 34
          · subst hquote
            rw [parseStringLoop_quote, parseStringLoop_quote, hpush]
          by_cases hbackslash : byte = 92
          · subst hbackslash
            rw [parseStringLoop, parseStringLoop.eq_def (out ++ pending)]
            simp only [hpush, hquote, if_false, if_true]
          by_cases hcontrol : byte ≤ 0x1f
          · rw [parseStringLoop, parseStringLoop.eq_def (out ++ pending)]
            simp only [hquote, hbackslash, hcontrol, if_false, if_true]
          · rw [parseStringLoop_plain hquote hbackslash hcontrol,
              parseStringLoop_plain hquote hbackslash hcontrol, List.append_assoc]
            exact ih tail.length (by rw [← hlength]; exact Nat.lt_succ_self _) _ _ rfl

/-- A chunk that encodes a text may count as read already. -/
theorem parseStringLoop_utf8 (out pending : String) (parser : FlatJsonParser) :
    parseStringLoop out (utf8 pending) parser = parseStringLoop (out ++ pending) [] parser := by
  simpa using parseStringLoop_utf8_append out pending [] parser

/-- Plain bytes join the chunk. -/
theorem parseStringLoop_plain_append {bytes : Bytes}
    (hbytes : ∀ byte ∈ bytes, byte ≠ 34 ∧ byte ≠ 92 ∧ ¬byte ≤ 0x1f) (out : String)
    (chunk : Bytes) (position : Nat) (tail : Bytes) :
    parseStringLoop out chunk ⟨position, bytes ++ tail⟩ =
      parseStringLoop out (chunk ++ bytes) ⟨position + bytes.length, tail⟩ := by
  induction bytes generalizing chunk position with
  | nil => simp
  | cons byte bytes ih =>
      obtain ⟨hquote, hbackslash, hcontrol⟩ := hbytes byte List.mem_cons_self
      rw [List.cons_append, parseStringLoop_plain hquote hbackslash hcontrol,
        ih fun other hother => hbytes other (List.mem_cons_of_mem _ hother)]
      rw [List.append_assoc, List.singleton_append, List.length_cons, Nat.add_right_comm,
        Nat.add_assoc]

/-- An escape adds its character. -/
theorem parseStringLoop_escape {out : String} {position : Nat} {tail : Bytes} {char : Char}
    {next : FlatJsonParser} (hescape : parseEscape ⟨position + 1, tail⟩ = .ok (char, next)) :
    parseStringLoop out [] ⟨position, 92 :: tail⟩ = parseStringLoop (out.push char) [] next := by
  have hadvanced : (advance ⟨position, 92 :: tail⟩ 1).parseEscape = .ok (char, next) := hescape
  rw [parseStringLoop]
  simp only [pushUtf8Chunk, fromUtf8_nil, String.append_empty]
  split
  next hcontra => exact absurd hcontra (by decide)
  next =>
  split
  next =>
    split
    next error herror => rw [hadvanced] at herror; cases herror
    next found after hfound =>
      rw [hadvanced] at hfound
      cases hfound
      rfl
  next hcontra => exact absurd trivial hcontra

/-- A digit is read back from its character. -/
theorem toDigit16_digitChar :
    ∀ digit < 16, toDigit16 (UInt8.ofNat digit.digitChar.toNat) = some (UInt16.ofNat digit) := by
  decide

/-- Appending a hexadecimal digit to a value of at most three digits. -/
theorem toNat_shiftLeft_or {value : UInt16} {number digit : Nat} (hvalue : value.toNat = number)
    (hnumber : number < 4096) (hdigit : digit < 16) :
    (value <<< 4 ||| UInt16.ofNat digit).toNat = 16 * number + digit := by
  have hshift : (value <<< 4).toNat = number <<< 4 := by
    rw [UInt16.toNat_shiftLeft, hvalue]
    apply Nat.mod_eq_of_lt
    rw [Nat.shiftLeft_eq]
    exact (Nat.mul_lt_mul_right (by decide)).mpr hnumber
  rw [UInt16.toNat_or, hshift, UInt16.toNat_ofNat', Nat.mod_eq_of_lt (by omega),
    ← Nat.shiftLeft_add_eq_or_of_lt hdigit, Nat.shiftLeft_eq, Nat.mul_comm]

/-- Four padded digits are read as the number they were written for. -/
theorem parseHexU16_paddedHex {value : Nat} (hvalue : value < 65536) (position : Nat)
    (tail : Bytes) :
    parseHexU16 ⟨position, utf8 (paddedHex 4 value) ++ tail⟩ =
      .ok (UInt16.ofNat value, ⟨position + 4, tail⟩) := by
  have hread := fun digit => toDigit16_digitChar (digit % 16) (Nat.mod_lt _ (by decide))
  have hnumber : ((((0 : UInt16) <<< 4 ||| UInt16.ofNat (value / 16 / 16 / 16 % 16)) <<< 4 |||
      UInt16.ofNat (value / 16 / 16 % 16)) <<< 4 ||| UInt16.ofNat (value / 16 % 16)) <<< 4 |||
        UInt16.ofNat (value % 16) = UInt16.ofNat value := by
    have hone : (0 : UInt16).toNat = 0 := rfl
    have htwo := toNat_shiftLeft_or hone (by decide)
      (Nat.mod_lt (value / 16 / 16 / 16) (by decide))
    have hthree := toNat_shiftLeft_or htwo (by omega) (Nat.mod_lt (value / 16 / 16) (by decide))
    have hfour := toNat_shiftLeft_or hthree (by omega) (Nat.mod_lt (value / 16) (by decide))
    have hall := toNat_shiftLeft_or hfour (by omega) (Nat.mod_lt value (by decide))
    rw [← UInt16.toNat_inj, hall, UInt16.toNat_ofNat', Nat.mod_eq_of_lt hvalue]
    omega
  rw [utf8_paddedHex, parseHexU16]
  simp only [hexDigits, List.nil_append, List.cons_append, List.map_cons, List.map_nil,
    parseHexDigits, peekByte, List.head?_cons, Option.bind_some, hread, advance,
    List.drop_succ_cons, List.drop_zero, hnumber]

/-- A character is read back from its scalar value. -/
theorem charFromU32_toNat (char : Char) : charFromU32 char.toNat = some char := by
  have hvalid : char.toNat.isValidChar := char.valid
  rw [charFromU32, dif_pos hvalid]
  rfl

/-- The escape of a control character is read back. -/
theorem parseUnicodeEscape_paddedHex {char : Char} (hchar : char.toNat < 160) (position : Nat)
    (tail : Bytes) :
    parseUnicodeEscape ⟨position, utf8 (paddedHex 4 char.toNat) ++ tail⟩ =
      .ok (char, ⟨position + 4, tail⟩) := by
  have hnat : (UInt16.ofNat char.toNat).toNat = char.toNat := by
    rw [UInt16.toNat_ofNat', Nat.mod_eq_of_lt (by omega)]
  have hlow : ∀ bound : UInt16, 160 ≤ bound.toNat → ¬bound ≤ UInt16.ofNat char.toNat := by
    intro bound hbound
    rw [UInt16.le_iff_toNat_le, hnat]
    omega
  rw [parseUnicodeEscape, parseScalar, parseHexU16_paddedHex (by omega)]
  simp only [ok_bind, hlow 0xd800 (by decide), hlow 0xdc00 (by decide), false_and, if_false, hnat,
    charFromU32_toNat]

/-- One escaped character is read as that character. -/
theorem parseStringLoop_escapeChar (out : String) (char : Char) (position : Nat) (tail : Bytes) :
    parseStringLoop out [] ⟨position, utf8 (escapeChar char) ++ tail⟩ =
      parseStringLoop (out.push char) []
        ⟨position + (utf8 (escapeChar char)).length, tail⟩ := by
  rcases escapeChar_cases char with ⟨escaped, htext, hsimple⟩ | ⟨hcontrol, htext⟩ |
    ⟨hquote, hbackslash, hcontrol, htext⟩
  · rw [htext]
    apply parseStringLoop_escape
    simp [parseEscape, peekByte, hsimple, advance]
  · have hmark : utf8 "\\u" = [92, 117] := rfl
    rw [htext, utf8_append, hmark, List.append_assoc, List.length_append, length_utf8_paddedHex]
    apply parseStringLoop_escape
    have hescape := parseUnicodeEscape_paddedHex (toNat_lt_of_isControl hcontrol)
      (position + 2) tail
    simpa [parseEscape, peekByte, simpleEscape, advance, Nat.add_assoc] using hescape
  · rw [htext, utf8_singleton,
      parseStringLoop_plain_append fun byte hbyte =>
        plain_byte hquote hbackslash (printed_of_not_isControl hcontrol) hbyte,
      List.nil_append, ← utf8_singleton, parseStringLoop_utf8]
    rw [String.append_singleton]

/-- Reading a quoted escaped string returns the string and leaves the cursor
behind the closing quote. -/
theorem parseString_escapeJson (value : String) (position : Nat) (tail : Bytes) :
    parseString ⟨position, 34 :: (utf8 (escapeJson value) ++ 34 :: tail)⟩ =
      .ok (value, ⟨position + ((utf8 (escapeJson value)).length + 2), tail⟩) := by
  have hloop : ∀ (chars : List Char) (out : String) (position : Nat),
      parseStringLoop out []
          ⟨position, (chars.flatMap fun char => utf8 (escapeChar char)) ++ 34 :: tail⟩ =
        .ok (out ++ String.ofList chars,
          ⟨position + ((chars.flatMap fun char => utf8 (escapeChar char)).length + 1), tail⟩) := by
    intro chars
    induction chars with
    | nil =>
        intro out position
        rw [List.flatMap_nil, List.nil_append, parseStringLoop_quote]
        simp [pushUtf8Chunk, Except.map]
    | cons char chars ih =>
        intro out position
        have htext : out.push char ++ String.ofList chars =
          out ++ String.ofList (char :: chars) := by
          rw [← String.toList_inj]
          simp
        rw [List.flatMap_cons, List.append_assoc, parseStringLoop_escapeChar, ih, htext,
          List.length_append]
        simp only [Nat.add_assoc]
  have hopen : expectByte ⟨position, 34 :: (utf8 (escapeJson value) ++ 34 :: tail)⟩ 34 =
      .ok ⟨position + 1, utf8 (escapeJson value) ++ 34 :: tail⟩ := by
    simp [expectByte, advance]
  rw [parseString, hopen, utf8_escapeJson]
  dsimp only
  rw [hloop, String.empty_append, String.ofList_toList]
  simp only [Nat.add_assoc, Nat.add_comm 1]

/-- A quoted escaped string is read back from any place of any input, whatever
follows it. Inside the quotes there is no quote but those of escaped quotes and no
control byte, and the text has grown at most sixfold. -/
theorem escaped_string_reads_back (value : String) :
    (∀ (position : Nat) (tail : Bytes),
      parseString ⟨position, 34 :: (utf8 (escapeJson value) ++ 34 :: tail)⟩ =
        .ok (value, ⟨position + ((utf8 (escapeJson value)).length + 2), tail⟩)) ∧
    (∀ front back, utf8 (escapeJson value) = front ++ 34 :: back →
      ∃ before after, value = before ++ "\"" ++ after ∧
        front = utf8 (escapeJson before) ++ [92] ∧ back = utf8 (escapeJson after)) ∧
    (∀ byte ∈ utf8 (escapeJson value), 0x20 ≤ byte) ∧
    (utf8 (escapeJson value)).length ≤ 6 * (utf8 value).length := by
  refine ⟨parseString_escapeJson value, fun front back => quote_of_escapeJson, ?_,
    length_escapeJson_le value⟩
  intro byte hbyte
  have hprinted := escapeJson_byte hbyte
  rw [UInt8.le_iff_toNat_le] at hprinted ⊢
  exact Nat.lt_of_not_le hprinted

end FlatJsonParser

/-- Text without a quote, a backslash or a control character is not escaped. -/
theorem escapeJson_of_plain {value : String}
    (h : ∀ char ∈ value.toList, char ≠ '"' ∧ char ≠ '\\' ∧ isControl char = false) :
    escapeJson value = value := by
  apply utf8_injective
  rw [utf8_escapeJson, utf8_eq_flatMap]
  apply List.flatMap_congr
  intro char hchar
  obtain ⟨hquote, hbackslash, hcontrol⟩ := h char hchar
  rw [escapeChar_of_plain hquote hbackslash hcontrol, utf8_singleton]

/-- Hexadecimal digits need no escape. -/
theorem escapeJson_paddedHex (width value : Nat) :
    escapeJson (paddedHex width value) = paddedHex width value := by
  have hplain : ∀ digit < 16, digit.digitChar ≠ '"' ∧ digit.digitChar ≠ '\\' ∧
      isControl digit.digitChar = false := by decide
  apply escapeJson_of_plain
  intro char hchar
  rw [paddedHex, String.toList_ofList] at hchar
  obtain ⟨digit, hdigit, rfl⟩ := mem_hexDigits hchar
  exact hplain digit hdigit

/-! ## Rendered values and objects -/

/-- A value as it stands in a line. -/
def JsonValue.render : JsonValue → Bytes
  | .null => utf8 "null"
  | .bool value => utf8 (boolText value)
  | .number value => utf8 (decimal value)
  | .string value => 34 :: (utf8 (escapeJson value) ++ [34])

def renderMember (member : String × JsonValue) : Bytes :=
  34 :: (utf8 (escapeJson member.1) ++ 34 :: 58 :: member.2.render)

/-- Members separated by commas. -/
def renderMembers : List (String × JsonValue) → Bytes
  | [] => []
  | [member] => renderMember member
  | member :: next :: rest => renderMember member ++ 44 :: renderMembers (next :: rest)

def renderObject (members : List (String × JsonValue)) : Bytes :=
  123 :: (renderMembers members ++ [125])

namespace FlatJsonParser

/-- Nothing is skipped before a byte that is no white space. -/
theorem skipWhitespace_of_head {position : Nat} {byte : UInt8} {tail : Bytes}
    (h : isWhitespace byte = false) :
    skipWhitespace ⟨position, byte :: tail⟩ = ⟨position, byte :: tail⟩ := by
  simp [skipWhitespace, h, advance]

/-- A numeral is read up to the first byte that is not a digit. -/
theorem parseNumber_digits {digits : Bytes} {value : UInt64} (hvalue : parseU64 digits = some value)
    (hleading : digits.head? = some 48 → digits = [48]) (position : Nat) {tail : Bytes}
    (htail : tail.head?.any isAsciiDigit = false) :
    parseNumber ⟨position, digits ++ tail⟩ =
      .ok (value, ⟨position + digits.length, tail⟩) := by
  have hdigits : digits ≠ [] ∧ ∀ digit ∈ digits, isAsciiDigit digit = true := by
    unfold parseU64 at hvalue
    split at hvalue
    next hall => exact ⟨hall.1, List.all_eq_true.mp hall.2.1⟩
    next => cases hvalue
  have hread : numberDigits ⟨position, digits ++ tail⟩ = digits ∧
      ¬(peekByte ⟨position, digits ++ tail⟩ = some 48 ∧
        (advance ⟨position, digits ++ tail⟩ 1).peekByte.any isAsciiDigit) := by
    cases digits with
    | nil => exact absurd rfl hdigits.1
    | cons byte digits =>
        by_cases hzero : byte = 48
        · subst hzero
          have hsingle : digits = [] := (List.cons.inj (hleading rfl)).2
          subst hsingle
          simp [numberDigits, peekByte, advance, htail]
        · have hstop : tail.takeWhile isAsciiDigit = [] := by
            cases tail with
            | nil => rfl
            | cons next tail =>
                rw [List.takeWhile_cons_of_neg]
                simpa using htail
          have hpeek : peekByte ⟨position, byte :: digits ++ tail⟩ ≠ some 48 := by
            simpa [peekByte] using hzero
          refine ⟨?_, fun h => hpeek h.1⟩
          rw [numberDigits, if_neg hpeek, List.takeWhile_append_of_pos hdigits.2, hstop,
            List.append_nil]
  rw [parseNumber, if_neg hread.2, hread.1, hvalue]
  simp [advance]

/-- A number is read back from its decimal digits. -/
theorem parseNumber_decimal (value : UInt64) (position : Nat) {tail : Bytes}
    (htail : tail.head?.any isAsciiDigit = false) :
    parseNumber ⟨position, utf8 (decimal value) ++ tail⟩ =
      .ok (value, ⟨position + (utf8 (decimal value)).length, tail⟩) := by
  apply parseNumber_digits (parseU64_decimal value) _ position htail
  intro hhead
  obtain ⟨rest, hrest⟩ := List.head?_eq_some_iff.mp hhead
  rw [hrest, decimal_head_zero hrest]

/-- A quote begins a string. -/
theorem parseValue_quote (position : Nat) (rest : Bytes) :
    parseValue ⟨position, 34 :: rest⟩ =
      (parseString ⟨position, 34 :: rest⟩).map fun read => (.string read.1, read.2) := by
  rw [parseValue]
  simp only [peekByte, List.head?_cons, if_true]
  cases parseString ⟨position, 34 :: rest⟩ <;> rfl

/-- A digit begins a number. -/
theorem parseValue_digit {byte : UInt8} (hbyte : isAsciiDigit byte = true) (position : Nat)
    (rest : Bytes) :
    parseValue ⟨position, byte :: rest⟩ =
      (parseNumber ⟨position, byte :: rest⟩).map fun read => (.number read.1, read.2) := by
  have hne : ∀ other, isAsciiDigit other = false → byte ≠ other := by
    rintro other hother rfl
    rw [hbyte] at hother
    cases hother
  rw [parseValue]
  simp only [peekByte, List.head?_cons, hne 34 (by decide), hne 116 (by decide),
    hne 102 (by decide), hne 110 (by decide), hbyte, if_false, if_true]
  cases parseNumber ⟨position, byte :: rest⟩ <;> rfl

/-- A value is read back from its rendering. -/
theorem parseValue_render (value : JsonValue) (position : Nat) {tail : Bytes}
    (htail : tail.head?.any isAsciiDigit = false) :
    parseValue ⟨position, value.render ++ tail⟩ =
      .ok (value, ⟨position + value.render.length, tail⟩) := by
  cases value with
  | null => rfl
  | bool value => cases value <;> rfl
  | number value =>
      cases hnumeral : utf8 (decimal value) with
      | nil => exact absurd hnumeral (utf8_decimal_ne_nil value)
      | cons byte digits =>
          have hbyte : isAsciiDigit byte = true :=
            isAsciiDigit_of_mem_decimal (hnumeral ▸ List.mem_cons_self)
          have hnumber := parseNumber_decimal value position htail
          rw [hnumeral, List.cons_append] at hnumber
          rw [JsonValue.render, hnumeral, List.cons_append, parseValue_digit hbyte, hnumber]
          rfl
  | string value =>
      have hstring := parseString_escapeJson value position tail
      have hrender : JsonValue.render (.string value) ++ tail =
          34 :: (utf8 (escapeJson value) ++ 34 :: tail) := by
        simp [JsonValue.render]
      rw [hrender, parseValue_quote, hstring]
      simp [JsonValue.render, Except.map]

/-- No digit is white space. -/
theorem isWhitespace_of_isAsciiDigit {byte : UInt8} (h : isAsciiDigit byte = true) :
    isWhitespace byte = false := by
  simp only [isAsciiDigit, Bool.and_eq_true, decide_eq_true_eq, UInt8.le_iff_toNat_le,
    UInt8.reduceToNat] at h
  simp only [isWhitespace, Bool.or_eq_false_iff, beq_eq_false_iff_ne, ne_eq, ← UInt8.toNat_inj,
    UInt8.reduceToNat]
  omega

/-- The first byte of a value is not whitespace. -/
theorem skipWhitespace_render (value : JsonValue) (position : Nat) (tail : Bytes) :
    skipWhitespace ⟨position, value.render ++ tail⟩ = ⟨position, value.render ++ tail⟩ := by
  cases value with
  | null => exact skipWhitespace_of_head (by decide)
  | bool value => cases value <;> exact skipWhitespace_of_head (by decide)
  | number value =>
      cases hnumeral : utf8 (decimal value) with
      | nil => exact absurd hnumeral (utf8_decimal_ne_nil value)
      | cons byte digits =>
          have hbyte : isAsciiDigit byte = true :=
            isAsciiDigit_of_mem_decimal (hnumeral ▸ List.mem_cons_self)
          rw [JsonValue.render, hnumeral]
          exact skipWhitespace_of_head (isWhitespace_of_isAsciiDigit hbyte)
  | string value => exact skipWhitespace_of_head (by decide)

/-- A member is read back from its rendering. -/
theorem parseMember_render {values : JsonMembers} {member : String × JsonValue}
    (hkey : member.1 ∉ values.map Prod.fst) (position : Nat) {tail : Bytes}
    (htail : tail.head?.any isAsciiDigit = false) :
    parseMember values ⟨position, renderMember member ++ tail⟩ =
      .ok (member, ⟨position + (renderMember member).length, tail⟩) := by
  have hstring := parseString_escapeJson member.1 position (58 :: (member.2.render ++ tail))
  have hlength : (renderMember member).length =
      (utf8 (escapeJson member.1)).length + 2 + 1 + member.2.render.length := by
    simp only [renderMember, List.length_cons, List.length_append]
    omega
  have hcolon : ∀ position, expectByte ⟨position, 58 :: (member.2.render ++ tail)⟩ 58 =
      .ok ⟨position + 1, member.2.render ++ tail⟩ := fun position => rfl
  have hspaceKey : isWhitespace 34 = false := by decide
  have hspaceColon : isWhitespace 58 = false := by decide
  rw [parseMember, hlength, renderMember, List.cons_append, List.append_assoc, List.cons_append,
    List.cons_append, skipWhitespace_of_head hspaceKey, hstring, ok_bind]
  simp only [hkey, if_false, skipWhitespace_of_head hspaceColon, hcolon, skipWhitespace_render,
    parseValue_render member.2 _ htail, ok_bind]
  simp [pure, Except.pure, Nat.add_assoc]

/-- The member loop reads the members in order, up to the closing brace. -/
theorem parseMembers_render {members : JsonMembers} (hmembers : members ≠ [])
    {values : JsonMembers} (hkeys : ((values ++ members).map Prod.fst).Nodup) (position : Nat)
    (tail : Bytes) :
    parseMembers values ⟨position, renderMembers members ++ 125 :: tail⟩ =
      .ok (values ++ members, ⟨position + ((renderMembers members).length + 1), tail⟩) := by
  induction members generalizing values position with
  | nil => exact absurd rfl hmembers
  | cons member rest ih =>
      have hkey : member.1 ∉ values.map Prod.fst := by
        rw [List.map_append, List.nodup_append] at hkeys
        intro hmem
        exact hkeys.2.2 _ hmem _ (by simp) rfl
      cases rest with
      | nil =>
          -- the last member: the loop stops at the brace
          have hbrace : isWhitespace 125 = false := by decide
          have htail : (125 :: tail).head?.any isAsciiDigit = false := rfl
          have hmember := parseMember_render hkey position htail
          rw [parseMembers, renderMembers]
          split
          next error herror => rw [hmember] at herror; cases herror
          next found after hfound =>
            rw [hmember] at hfound
            cases hfound
            simp [skipWhitespace_of_head hbrace, peekByte, advance, Nat.add_assoc]
      | cons next rest =>
          -- a comma follows, and the loop goes on behind it
          have hcomma : isWhitespace 44 = false := by decide
          let after : FlatJsonParser := ⟨position + (renderMember member).length,
            44 :: (renderMembers (next :: rest) ++ 125 :: tail)⟩
          have htail : after.rest.head?.any isAsciiDigit = false := rfl
          have hmember := parseMember_render hkey position htail
          have hskip : after.skipWhitespace = after := skipWhitespace_of_head hcomma
          have hexpect : after.skipWhitespace.expectByte 44 = .ok (after.advance 1) := by
            rw [hskip]
            rfl
          have hrest := @ih (by simp) (values ++ [member]) (by simpa using hkeys)
            (position + (renderMember member).length + 1)
          rw [parseMembers, renderMembers, List.append_assoc, List.cons_append]
          split
          next error herror => rw [hmember] at herror; cases herror
          next found reached hfound =>
            rw [hmember] at hfound
            cases hfound
            have hpeek : ¬after.skipWhitespace.peekByte = some 125 := by
              rw [hskip]
              simp [after, peekByte]
            rw [if_neg hpeek]
            split
            next error herror => rw [hexpect] at herror; cases herror
            next reached hreached =>
              rw [hexpect] at hreached
              cases hreached
              refine hrest.trans ?_
              rw [List.append_assoc, List.singleton_append]
              congr 3
              simp only [List.length_append, List.length_cons]
              omega

/-- A rendered flat object is parsed back to its members. -/
theorem parseObject_renderObject {members : JsonMembers} (hmembers : members ≠ [])
    (hkeys : (members.map Prod.fst).Nodup) (position : Nat) :
    parseObject ⟨position, renderObject members⟩ = .ok members := by
  have hopen : isWhitespace 123 = false := by decide
  have hfirst : ∃ tail, renderMembers members ++ [125] = 34 :: tail := by
    cases members with
    | nil => exact absurd rfl hmembers
    | cons member rest =>
        cases rest with
        | nil => exact ⟨_, rfl⟩
        | cons next rest => exact ⟨_, rfl⟩
  obtain ⟨tail, htail⟩ := hfirst
  have hquote : isWhitespace 34 = false := by decide
  have hloop := @parseMembers_render members hmembers [] (by simpa using hkeys) (position + 1) []
  rw [htail] at hloop
  have hexpect : expectByte ⟨position, 123 :: 34 :: tail⟩ 123 =
    .ok ⟨position + 1, 34 :: tail⟩ := rfl
  have hpeek : ¬peekByte ⟨position + 1, 34 :: tail⟩ = some 125 := by simp [peekByte]
  rw [parseObject, renderObject, htail, skipWhitespace_of_head hopen, hexpect]
  simp only [ok_bind, skipWhitespace_of_head hquote, hpeek, if_false, hloop, List.nil_append]
  rfl

end FlatJsonParser

end Oasi
