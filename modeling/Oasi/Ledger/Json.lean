import Oasi.Foundation.Checked
import Oasi.Foundation.Numerals
import Mathlib.Tactic.SplitIfs

/-! # The flat JSON parser

A byte-level parser for one JSON object whose values are strings, booleans,
`null` and unsigned integers. The parser holds its position and the bytes from
there on, so that reading a byte and advancing are list operations; the position
is kept for the messages that report it.
-/

namespace Oasi

inductive JsonValue where
  | null
  | bool (value : Bool)
  | number (value : UInt64)
  | string (value : String)
  deriving DecidableEq, Repr

/-- Parse failures, one constructor for each message. -/
inductive JsonError where
  /-- `object is empty` -/
  | objectIsEmpty
  /-- `duplicate JSON key {key:?}` -/
  | duplicateKey (key : String)
  /-- `trailing data after JSON object` -/
  | trailingData
  /-- `unsupported JSON value at byte {position}` -/
  | unsupportedValue (position : Nat)
  /-- `number has a leading zero` -/
  | leadingZero
  /-- `number {text:?} is not u64` -/
  | notU64 (text : Bytes)
  /-- `unterminated JSON string` -/
  | unterminatedString
  /-- `unterminated JSON escape` -/
  | unterminatedEscape
  /-- `invalid JSON escape` -/
  | invalidEscape
  /-- `unescaped control character in string` -/
  | unescapedControl
  /-- `high surrogate is not followed by low surrogate` -/
  | unpairedHighSurrogate
  /-- `invalid low surrogate` -/
  | invalidLowSurrogate
  /-- `unpaired low surrogate` -/
  | unpairedLowSurrogate
  /-- `invalid Unicode scalar` -/
  | invalidScalar
  /-- `invalid Unicode escape` -/
  | invalidUnicodeEscape
  /-- `invalid UTF-8 in string` -/
  | invalidUtf8
  /-- `expected byte {expected:?}, got {actual:?} at byte {position}` -/
  | expectedByte (expected actual : UInt8) (position : Nat)
  /-- `expected byte {expected:?}, got EOF` -/
  | expectedByteAtEnd (expected : UInt8)
  deriving DecidableEq, Repr

/-- A cursor: the position and the bytes from the position to the end. -/
structure FlatJsonParser where
  position : Nat
  rest : Bytes
  deriving DecidableEq, Repr

namespace FlatJsonParser

def new (input : String) : FlatJsonParser where
  position := 0
  rest := utf8 input

/-! ## Cursor helpers -/

def advance (parser : FlatJsonParser) (count : Nat) : FlatJsonParser where
  position := parser.position + count
  rest := parser.rest.drop count

def peekByte (parser : FlatJsonParser) : Option UInt8 := parser.rest.head?

def isWhitespace (byte : UInt8) : Bool :=
  byte == 32 || byte == 9 || byte == 13 || byte == 10

def skipWhitespace (parser : FlatJsonParser) : FlatJsonParser :=
  parser.advance (parser.rest.takeWhile isWhitespace).length

/-- The parser after the literal, when the literal is next. -/
def consumeLiteral (parser : FlatJsonParser) (literal : Bytes) : Option FlatJsonParser :=
  if parser.rest.take literal.length = literal then some (parser.advance literal.length) else none

def expectByte (parser : FlatJsonParser) (expected : UInt8) :
    Except JsonError FlatJsonParser :=
  match parser.rest with
  | [] => .error (.expectedByteAtEnd expected)
  | actual :: _ =>
      if actual = expected then .ok (parser.advance 1)
      else .error (.expectedByte expected actual parser.position)

/-! ## Strings -/

/-- `char::to_digit(16)` of a byte. -/
def toDigit16 (byte : UInt8) : Option UInt16 :=
  if 48 ≤ byte && byte ≤ 57 then some (byte - 48).toUInt16
  else if 97 ≤ byte && byte ≤ 102 then some (byte - 87).toUInt16
  else if 65 ≤ byte && byte ≤ 70 then some (byte - 55).toUInt16
  else none

/-- The remaining digits of a `\u` escape, four of them at the start. -/
def parseHexDigits : Nat → UInt16 → FlatJsonParser → Except JsonError (UInt16 × FlatJsonParser)
  | 0, value, parser => .ok (value, parser)
  | count + 1, value, parser =>
      match parser.peekByte.bind toDigit16 with
      | none => .error .invalidUnicodeEscape
      | some digit => parseHexDigits count (value <<< 4 ||| digit) (parser.advance 1)

def parseHexU16 (parser : FlatJsonParser) : Except JsonError (UInt16 × FlatJsonParser) :=
  parseHexDigits 4 0 parser

/-- `char::from_u32`. -/
def charFromU32 (scalar : Nat) : Option Char :=
  if h : scalar.isValidChar then some (Char.ofNatAux scalar h) else none

/-- The scalar a `\u` escape stands for, which may take a surrogate pair. -/
def parseScalar (parser : FlatJsonParser) : Except JsonError (Nat × FlatJsonParser) := do
  let (first, parser) ← parser.parseHexU16
  if 0xd800 ≤ first ∧ first ≤ 0xdbff then
    if parser.rest.take 2 ≠ [92, 117] then .error .unpairedHighSurrogate
    else do
      let (second, parser) ← (parser.advance 2).parseHexU16
      if ¬(0xdc00 ≤ second ∧ second ≤ 0xdfff) then .error .invalidLowSurrogate
      else .ok (0x10000 + (first.toNat - 0xd800) * 0x400 + (second.toNat - 0xdc00), parser)
  else if 0xdc00 ≤ first ∧ first ≤ 0xdfff then .error .unpairedLowSurrogate
  else .ok (first.toNat, parser)

/-- The character a `\u` escape stands for, and the parser after it. -/
def parseUnicodeEscape (parser : FlatJsonParser) : Except JsonError (Char × FlatJsonParser) := do
  let (scalar, parser) ← parser.parseScalar
  match charFromU32 scalar with
  | none => .error .invalidScalar
  | some char => .ok (char, parser)

/-- The character of a two-byte escape other than `\u`. -/
def simpleEscape (escaped : UInt8) : Option Char :=
  if escaped = 34 then some '"'
  else if escaped = 92 then some '\\'
  else if escaped = 47 then some '/'
  else if escaped = 98 then some '\x08'
  else if escaped = 102 then some '\x0c'
  else if escaped = 110 then some '\n'
  else if escaped = 114 then some '\r'
  else if escaped = 116 then some '\t'
  else none

/-- One escape, from the byte after the backslash on. -/
def parseEscape (parser : FlatJsonParser) : Except JsonError (Char × FlatJsonParser) :=
  match parser.peekByte with
  | none => .error .unterminatedEscape
  | some escaped =>
      match simpleEscape escaped with
      | some char => .ok (char, parser.advance 1)
      | none =>
          if escaped = 117 then (parser.advance 1).parseUnicodeEscape
          else .error .invalidEscape

/-- Append the raw bytes since the latest escape to the decoded text. -/
def pushUtf8Chunk (out : String) (chunk : Bytes) : Except JsonError String :=
  match fromUtf8 chunk with
  | none => .error .invalidUtf8
  | some text => .ok (out ++ text)

theorem advance_rest (parser : FlatJsonParser) (count : Nat) :
    (parser.advance count).rest = parser.rest.drop count := rfl

theorem parseHexDigits_suffix {count : Nat} {value result : UInt16}
    {parser next : FlatJsonParser} (h : parseHexDigits count value parser = .ok (result, next)) :
    next.rest <:+ parser.rest := by
  induction count generalizing value parser with
  | zero =>
      cases h
      exact List.suffix_rfl
  | succ count ih =>
      rw [parseHexDigits] at h
      split at h
      next => cases h
      next => exact (ih h).trans (List.drop_suffix _ _)

theorem parseScalar_suffix {parser next : FlatJsonParser} {scalar : Nat}
    (h : parser.parseScalar = .ok (scalar, next)) : next.rest <:+ parser.rest := by
  unfold parseScalar at h
  obtain ⟨⟨first, middle⟩, hfirst, h⟩ := bind_eq_ok.mp h
  have hmiddle : middle.rest <:+ parser.rest := parseHexDigits_suffix hfirst
  dsimp only at h
  split at h
  next =>
    split at h
    next => cases h
    next =>
      obtain ⟨⟨second, last⟩, hsecond, h⟩ := bind_eq_ok.mp h
      dsimp only at h
      split at h
      next => cases h
      next =>
        obtain ⟨-, rfl⟩ := Prod.mk.inj (Except.ok.inj h)
        exact ((parseHexDigits_suffix hsecond).trans (List.drop_suffix _ _)).trans hmiddle
  next =>
    split at h
    next => cases h
    next =>
      cases h
      exact hmiddle

theorem parseUnicodeEscape_suffix {parser next : FlatJsonParser} {char : Char}
    (h : parser.parseUnicodeEscape = .ok (char, next)) : next.rest <:+ parser.rest := by
  unfold parseUnicodeEscape at h
  obtain ⟨⟨scalar, middle⟩, hscalar, h⟩ := bind_eq_ok.mp h
  dsimp only at h
  split at h
  next => cases h
  next =>
    cases h
    exact parseScalar_suffix hscalar

theorem parseEscape_suffix {parser next : FlatJsonParser} {char : Char}
    (h : parser.parseEscape = .ok (char, next)) : next.rest <:+ parser.rest := by
  unfold parseEscape at h
  split at h
  next => cases h
  next =>
    split at h
    next =>
      cases h
      exact List.drop_suffix _ _
    next =>
      split at h
      next => exact (parseUnicodeEscape_suffix h).trans (List.drop_suffix _ _)
      next => cases h

/-- The loop of `parse_string`: `out` is the decoded text up to the latest
escape and `chunk` the raw bytes after it. -/
def parseStringLoop (out : String) (chunk : Bytes) (parser : FlatJsonParser) :
    Except JsonError (String × FlatJsonParser) :=
  match _hrest : parser.rest with
  | [] => .error .unterminatedString
  | byte :: _ =>
      if byte = 34 then do
        let out ← pushUtf8Chunk out chunk
        return (out, parser.advance 1)
      else if byte = 92 then
        match pushUtf8Chunk out chunk with
        | .error error => .error error
        | .ok out =>
            match _hescape : (parser.advance 1).parseEscape with
            | .error error => .error error
            | .ok (char, next) => parseStringLoop (out.push char) [] next
      else if byte ≤ 0x1f then .error .unescapedControl
      else parseStringLoop out (chunk ++ [byte]) (parser.advance 1)
termination_by parser.rest.length
decreasing_by
  · have hsuffix := (parseEscape_suffix _hescape).length_le
    simp only [advance_rest, _hrest, List.drop_succ_cons, List.drop_zero, List.length_cons]
      at hsuffix ⊢
    omega
  · simp [advance_rest, _hrest]

def parseString (parser : FlatJsonParser) : Except JsonError (String × FlatJsonParser) :=
  match parser.expectByte 34 with
  | .error error => .error error
  | .ok parser => parseStringLoop "" [] parser

/-! ## Values and objects -/

/-- A single zero, or all the digits from here on. -/
def numberDigits (parser : FlatJsonParser) : Bytes :=
  if parser.peekByte = some 48 then [48] else parser.rest.takeWhile isAsciiDigit

def parseNumber (parser : FlatJsonParser) : Except JsonError (UInt64 × FlatJsonParser) :=
  if parser.peekByte = some 48 ∧ (parser.advance 1).peekByte.any isAsciiDigit then
    .error .leadingZero
  else
    match parseU64 parser.numberDigits with
    | none => .error (.notU64 parser.numberDigits)
    | some value => .ok (value, parser.advance parser.numberDigits.length)

def parseValue (parser : FlatJsonParser) : Except JsonError (JsonValue × FlatJsonParser) :=
  match parser.peekByte with
  | none => .error (.unsupportedValue parser.position)
  | some byte =>
      if byte = 34 then do
        let (text, parser) ← parser.parseString
        return (.string text, parser)
      else if byte = 116 then
        match parser.consumeLiteral [116, 114, 117, 101] with
        | some parser => .ok (.bool true, parser)
        | none => .error (.unsupportedValue parser.position)
      else if byte = 102 then
        match parser.consumeLiteral [102, 97, 108, 115, 101] with
        | some parser => .ok (.bool false, parser)
        | none => .error (.unsupportedValue parser.position)
      else if byte = 110 then
        match parser.consumeLiteral [110, 117, 108, 108] with
        | some parser => .ok (.null, parser)
        | none => .error (.unsupportedValue parser.position)
      else if isAsciiDigit byte then do
        let (value, parser) ← parser.parseNumber
        return (.number value, parser)
      else .error (.unsupportedValue parser.position)

/-- The map of decoded members, in order of insertion. Its keys are distinct. -/
abbrev JsonMembers := List (String × JsonValue)

/-- One `key : value` of the object, with its check against the keys so far. -/
def parseMember (values : JsonMembers) (parser : FlatJsonParser) :
    Except JsonError ((String × JsonValue) × FlatJsonParser) := do
  let (key, parser) ← parser.skipWhitespace.parseString
  if key ∈ values.map Prod.fst then .error (.duplicateKey key)
  let parser ← parser.skipWhitespace.expectByte 58
  let (value, parser) ← parser.skipWhitespace.parseValue
  return ((key, value), parser)

theorem skipWhitespace_suffix (parser : FlatJsonParser) :
    parser.skipWhitespace.rest <:+ parser.rest := List.drop_suffix _ _

theorem expectByte_eq_ok {parser next : FlatJsonParser} {expected : UInt8} :
    parser.expectByte expected = .ok next ↔
      ∃ tail, parser.rest = expected :: tail ∧ next = parser.advance 1 := by
  unfold expectByte
  split
  next hrest => simp [hrest]
  next actual tail hrest =>
    by_cases hactual : actual = expected
    · simp [hrest, hactual, eq_comm]
    · simp [hrest, hactual]

theorem expectByte_suffix {parser next : FlatJsonParser} {expected : UInt8}
    (h : parser.expectByte expected = .ok next) :
    next.rest <:+ parser.rest ∧ next.rest.length < parser.rest.length := by
  obtain ⟨tail, hrest, rfl⟩ := expectByte_eq_ok.mp h
  exact ⟨List.drop_suffix _ _, by simp [advance_rest, hrest]⟩

theorem parseStringLoop_suffix {out text : String} {chunk : Bytes} {parser next : FlatJsonParser}
    (h : parseStringLoop out chunk parser = .ok (text, next)) : next.rest <:+ parser.rest := by
  fun_induction parseStringLoop out chunk parser with
  | case1 => cases h
  | case2 =>
      obtain ⟨text, _, h⟩ := bind_eq_ok.mp h
      cases h
      exact List.drop_suffix _ _
  | case3 => cases h
  | case4 => cases h
  | case5 _ _ _ _ _ _ _ _ hescape _ _ ih =>
      exact ((ih h).trans (parseEscape_suffix hescape)).trans (List.drop_suffix _ _)
  | case6 => cases h
  | case7 _ _ _ _ _ _ _ _ _ ih => exact (ih h).trans (List.drop_suffix _ _)

theorem parseString_suffix {parser next : FlatJsonParser} {text : String}
    (h : parser.parseString = .ok (text, next)) : next.rest <:+ parser.rest := by
  unfold parseString at h
  split at h
  next => cases h
  next hquote => exact (parseStringLoop_suffix h).trans (expectByte_suffix hquote).1

theorem consumeLiteral_suffix {parser next : FlatJsonParser} {literal : Bytes}
    (h : parser.consumeLiteral literal = some next) : next.rest <:+ parser.rest := by
  unfold consumeLiteral at h
  split at h
  next =>
    cases h
    exact List.drop_suffix _ _
  next => cases h

theorem parseNumber_suffix {parser next : FlatJsonParser} {value : UInt64}
    (h : parser.parseNumber = .ok (value, next)) : next.rest <:+ parser.rest := by
  unfold parseNumber at h
  split at h
  next => cases h
  next =>
    split at h
    next => cases h
    next =>
      cases h
      exact List.drop_suffix _ _

theorem parseValue_suffix {parser next : FlatJsonParser} {value : JsonValue}
    (h : parser.parseValue = .ok (value, next)) : next.rest <:+ parser.rest := by
  have hliteral : ∀ {literal : Bytes} {result : JsonValue},
      (match parser.consumeLiteral literal with
        | some parser => .ok (result, parser)
        | none => .error (JsonError.unsupportedValue parser.position)) = Except.ok (value, next) →
      next.rest <:+ parser.rest := by
    intro literal result hmatch
    split at hmatch
    next hconsumed =>
      cases hmatch
      exact consumeLiteral_suffix hconsumed
    next => cases hmatch
  unfold parseValue at h
  split at h
  next => cases h
  next byte hbyte =>
    split_ifs at h with hquote htrue hfalse hnull hdigit
    · obtain ⟨⟨text, middle⟩, hstring, h⟩ := bind_eq_ok.mp h
      cases h
      exact parseString_suffix hstring
    · exact hliteral h
    · exact hliteral h
    · exact hliteral h
    · obtain ⟨⟨number, middle⟩, hnumber, h⟩ := bind_eq_ok.mp h
      cases h
      exact parseNumber_suffix hnumber

theorem parseMember_suffix {values : JsonMembers} {parser next : FlatJsonParser}
    {member : String × JsonValue} (h : parseMember values parser = .ok (member, next)) :
    next.rest <:+ parser.rest := by
  unfold parseMember at h
  obtain ⟨⟨key, afterKey⟩, hkey, h⟩ := bind_eq_ok.mp h
  dsimp only at h
  split_ifs at h with hduplicate
  · cases h
  · obtain ⟨afterColon, hcolon, h⟩ := bind_eq_ok.mp h
    obtain ⟨⟨value, afterValue⟩, hvalue, h⟩ := bind_eq_ok.mp h
    cases h
    have hfirst := (parseString_suffix hkey).trans (skipWhitespace_suffix parser)
    have hsecond := (expectByte_suffix hcolon).1.trans (skipWhitespace_suffix afterKey)
    have hthird := (parseValue_suffix hvalue).trans (skipWhitespace_suffix afterColon)
    exact (hthird.trans hsecond).trans hfirst

/-- The loop of `parse_object` over the members. -/
def parseMembers (values : JsonMembers) (parser : FlatJsonParser) :
    Except JsonError (JsonMembers × FlatJsonParser) :=
  match _hmember : parseMember values parser with
  | .error error => .error error
  | .ok (member, afterMember) =>
      if afterMember.skipWhitespace.peekByte = some 125 then
        .ok (values ++ [member], afterMember.skipWhitespace.advance 1)
      else
        match _hcomma : afterMember.skipWhitespace.expectByte 44 with
        | .error error => .error error
        | .ok afterComma => parseMembers (values ++ [member]) afterComma
termination_by parser.rest.length
decreasing_by
  have hcomma := (expectByte_suffix _hcomma).2
  have hwhitespace := (skipWhitespace_suffix afterMember).length_le
  have hmember := (parseMember_suffix _hmember).length_le
  omega

def parseObject (parser : FlatJsonParser) : Except JsonError JsonMembers := do
  let parser ← parser.skipWhitespace.expectByte 123
  let parser := parser.skipWhitespace
  if parser.peekByte = some 125 then .error .objectIsEmpty
  let (values, parser) ← parseMembers [] parser
  if parser.skipWhitespace.rest ≠ [] then .error .trailingData
  return values

end FlatJsonParser

end Oasi
