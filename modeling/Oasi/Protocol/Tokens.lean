import Oasi.Foundation.Lines
import Oasi.Protocol.Frames

/-! # Tokens of a protocol line

A line is split at white space and has to be its tokens joined by single spaces,
and a number has to be written as the formatter writes it. So a line determines
its tokens and a numeral its number. The tokens of a frame are short runs of
graphic ASCII characters.
-/

namespace Oasi

/-- `char::is_whitespace`: the Unicode property White_Space. -/
def isWhitespace (char : Char) : Bool :=
  (9 ≤ char.toNat && char.toNat ≤ 13) || char.toNat == 0x20 || char.toNat == 0x85 ||
    char.toNat == 0xA0 || char.toNat == 0x1680 || (0x2000 ≤ char.toNat && char.toNat ≤ 0x200A) ||
    char.toNat == 0x2028 || char.toNat == 0x2029 || char.toNat == 0x202F ||
    char.toNat == 0x205F || char.toNat == 0x3000

/-- `text.split_whitespace()`: the maximal runs of other characters. -/
def splitWhitespace (text : String) : List String :=
  ((text.toList.splitOnP isWhitespace).filter (· ≠ [])).map String.ofList

/-- `tokens[index]`, where the number of tokens has been checked. -/
def tokenAt (tokens : List String) (index : Nat) : String := tokens.getD index ""

def exactTokens (line : String) (expectedCount : Nat) : Except ProtocolError (List String) := do
  let tokens := splitWhitespace line
  failIf (tokens.length ≠ expectedCount)
    ⟨"expected " ++ expectedCount.repr ++ " tokens, observed " ++ tokens.length.repr⟩
  failIf (joinWords tokens ≠ line) ⟨"non-canonical protocol whitespace"⟩
  return tokens

def parseCanonicalU64 (token field : String) : Except ProtocolError UInt64 := do
  failIf (token = "" ∨ ¬(utf8 token).all isAsciiDigit) ⟨field ++ " is not unsigned decimal"⟩
  match parseU64 (utf8 token) with
  | none => throw ⟨field ++ " overflows u64"⟩
  | some value => do
      failIf (decimal value ≠ token) ⟨field ++ " is not canonical decimal"⟩
      return value

/-! ## Numerals -/

theorem all_isAsciiDigit_decimal (value : UInt64) :
    (utf8 (decimal value)).all isAsciiDigit = true :=
  List.all_eq_true.mpr fun _ hbyte => isAsciiDigit_of_mem_decimal hbyte

/-- A token is read as a number exactly when it is that number's numeral. -/
theorem parseCanonicalU64_eq_ok {token field : String} {value : UInt64} :
    parseCanonicalU64 token field = .ok value ↔ token = decimal value := by
  constructor
  · intro h
    simp only [parseCanonicalU64, bind_eq_ok] at h
    obtain ⟨_, _, h⟩ := h
    split at h
    next => cases h
    next parsed _ =>
      obtain ⟨_, hcanonical, hvalue⟩ := bind_eq_ok.mp h
      rw [failIf_eq_ok, not_not] at hcanonical
      cases hvalue
      exact hcanonical.symm
  · rintro rfl
    have hnonempty : decimal value ≠ "" := by
      intro hempty
      exact utf8_decimal_ne_nil value (by rw [hempty, utf8_empty])
    simp [parseCanonicalU64, failIf, hnonempty, all_isAsciiDigit_decimal, bind, Except.bind, pure,
      Except.pure]

@[simp] theorem parseCanonicalU64_decimal (value : UInt64) (field : String) :
    parseCanonicalU64 (decimal value) field = .ok value := parseCanonicalU64_eq_ok.mpr rfl

/-! ## The tokens of a frame -/

/-- A short nonempty run of graphic ASCII characters. -/
structure Token (word : String) : Prop where
  nonempty : word ≠ ""
  graphic : ∀ char ∈ word.toList, 33 ≤ char.toNat ∧ char.toNat ≤ 126
  short : word.length ≤ 20

instance (word : String) : Decidable (Token word) :=
  decidable_of_iff (word ≠ "" ∧
      (word.toList.all fun char => 33 ≤ char.toNat && char.toNat ≤ 126) = true ∧
        word.length ≤ 20) <| by
    simp only [List.all_eq_true, Bool.and_eq_true, decide_eq_true_eq]
    exact ⟨fun ⟨hnonempty, hgraphic, hshort⟩ => ⟨hnonempty, hgraphic, hshort⟩,
      fun h => ⟨h.nonempty, h.graphic, h.short⟩⟩

theorem isWhitespace_of_graphic {char : Char} (h : 33 ≤ char.toNat ∧ char.toNat ≤ 126) :
    isWhitespace char = false := by
  simp only [isWhitespace, Bool.or_eq_false_iff, Bool.and_eq_false_iff, decide_eq_false_iff_not,
    beq_eq_false_iff_ne]
  omega

theorem splitOnP_intercalate {words : List (List Char)} (hnonempty : words ≠ [])
    (hwords : ∀ word ∈ words, ∀ char ∈ word, isWhitespace char = false) :
    ([' '].intercalate words).splitOnP isWhitespace = words := by
  induction words with
  | nil => exact absurd rfl hnonempty
  | cons word rest ih =>
      have hword := hwords word List.mem_cons_self
      cases rest with
      | nil => rw [List.intercalate_singleton, List.splitOnP_eq_singleton hword]
      | cons second rest =>
          rw [List.intercalate_cons_of_ne_nil (by simp), List.append_assoc, List.singleton_append,
            List.splitOnP_append_cons_of_forall_mem hword ' ' (by decide), ih (by simp)]
          exact fun other hother => hwords other (List.mem_cons_of_mem _ hother)

/-- A line of tokens is split into these. -/
theorem splitWhitespace_joinWords {words : List String} (hwords : ∀ word ∈ words, Token word) :
    splitWhitespace (joinWords words) = words := by
  cases hempty : words with
  | nil => rfl
  | cons head rest =>
      rw [← hempty]
      have hsplit : (joinWords words).toList.splitOnP isWhitespace = words.map String.toList := by
        rw [toList_joinWords]
        refine splitOnP_intercalate (by simp [hempty]) fun chars hchars char hchar => ?_
        obtain ⟨word, hword, rfl⟩ := List.mem_map.mp hchars
        exact isWhitespace_of_graphic ((hwords word hword).graphic char hchar)
      have hkept : (words.map String.toList).filter (· ≠ []) = words.map String.toList := by
        refine List.filter_eq_self.mpr fun chars hchars => ?_
        obtain ⟨word, hword, rfl⟩ := List.mem_map.mp hchars
        simpa using (hwords word hword).nonempty
      rw [splitWhitespace, hsplit, hkept, List.map_map]
      simp

theorem exactTokens_joinWords {words : List String} (hwords : ∀ word ∈ words, Token word) :
    exactTokens (joinWords words) words.length = .ok words := by
  simp [exactTokens, splitWhitespace_joinWords hwords, failIf, bind, Except.bind, pure, Except.pure]

/-! ## Which words are tokens -/

theorem token_decimal (value : UInt64) : Token (decimal value) where
  nonempty := fun hempty => utf8_decimal_ne_nil value (by rw [hempty, utf8_empty])
  graphic := by
    intro char hchar
    rw [decimal, Nat.toList_repr] at hchar
    have hdigit := mem_toDigits_ten hchar
    omega
  short := by
    rw [decimal, ← String.length_toList, Nat.toList_repr,
      Nat.length_toDigits_le_iff (by decide) (by decide)]
    exact Nat.lt_trans value.toNat_lt_size (by decide)

theorem token_hex16 (value : UInt64) : Token (hex16 value) where
  nonempty := by
    intro hempty
    have hlength : (hex16 value).toList.length = 16 := by
      rw [hex16, paddedHex, String.toList_ofList, length_hexDigits]
    rw [hempty] at hlength
    exact absurd hlength (by decide)
  graphic := by
    intro char hchar
    rw [hex16, paddedHex, String.toList_ofList] at hchar
    obtain ⟨digit, hdigit, rfl⟩ := mem_hexDigits hchar
    have hgraphic : ∀ digit < 16, 33 ≤ digit.digitChar.toNat ∧ digit.digitChar.toNat ≤ 126 := by
      decide
    exact hgraphic digit hdigit
  short := by
    rw [hex16, paddedHex, ← String.length_toList, String.toList_ofList, length_hexDigits]
    decide

theorem token_map_decimal (values : List UInt64) : ∀ word ∈ values.map decimal, Token word := by
  intro word hword
  obtain ⟨value, _, rfl⟩ := List.mem_map.mp hword
  exact token_decimal value

theorem token_append {words more : List String} (hwords : ∀ word ∈ words, Token word)
    (hmore : ∀ word ∈ more, Token word) : ∀ word ∈ words ++ more, Token word := by
  intro word hword
  rcases List.mem_append.mp hword with hword | hword
  · exact hwords word hword
  · exact hmore word hword

theorem token_header {direction operation : String} (hdirection : Token direction)
    (hoperation : Token operation) :
    ∀ word ∈ [protocolVersion, direction, operation], Token word := by
  intro word hword
  simp only [List.mem_cons, List.not_mem_nil, or_false] at hword
  rcases hword with rfl | rfl | rfl
  · decide +kernel
  · exact hdirection
  · exact hoperation

theorem token_concat_hex16 {words : List String} (hwords : ∀ word ∈ words, Token word)
    (checksum : UInt64) : ∀ word ∈ words ++ [hex16 checksum], Token word :=
  token_append hwords (List.forall_mem_singleton.mpr (token_hex16 checksum))

/-- The line of a frame is its tokens. -/
theorem line_of_frame {line : String} {words : List String} {checksum : UInt64}
    (h : line ++ "\n" = frame words checksum) : line = joinWords (words ++ [hex16 checksum]) :=
  append_newline_injective h

/-! ## Lines of tokens -/

theorem joinWords_cons {word : String} {words : List String} (h : words ≠ []) :
    joinWords (word :: words) = word ++ (" " ++ joinWords words) := by
  rw [joinWords, String.intercalate_cons_of_ne_nil h, String.append_assoc, joinWords]

/-- A line of tokens is graphic but for its spaces. -/
theorem mem_joinWords {words : List String} (hwords : ∀ word ∈ words, Token word) {char : Char}
    (h : char ∈ (joinWords words).toList) : 32 ≤ char.toNat ∧ char.toNat ≤ 126 := by
  induction words with
  | nil => simp [joinWords] at h
  | cons word rest ih =>
      have hgraphic := (hwords word List.mem_cons_self).graphic char
      by_cases hrest : rest = []
      · subst hrest
        rw [joinWords, String.intercalate_singleton] at h
        have := hgraphic h
        omega
      · rw [joinWords_cons hrest, String.toList_append, String.toList_append, List.mem_append,
          List.mem_append] at h
        rcases h with h | h | h
        · have := hgraphic h
          omega
        · have hspace : char = ' ' := by simpa using h
          rw [hspace]
          decide
        · exact ih (fun other hother => hwords other (List.mem_cons_of_mem _ hother)) h

theorem Token.length_utf8 {word : String} (h : Token word) : (utf8 word).length ≤ 20 := by
  rw [utf8_eq_flatMap, flatMap_utf8EncodeChar_ascii, List.length_map, String.length_toList]
  · exact h.short
  · intro char hchar
    have := (h.graphic char hchar).2
    omega

theorem length_utf8_joinWords {words : List String} (hwords : ∀ word ∈ words, Token word) :
    (utf8 (joinWords words)).length ≤ 21 * words.length := by
  induction words with
  | nil => simp [joinWords]
  | cons word rest ih =>
      have hword := (hwords word List.mem_cons_self).length_utf8
      have hspace : (utf8 " ").length = 1 := by decide
      by_cases hrest : rest = []
      · subst hrest
        rw [joinWords, String.intercalate_singleton, List.length_singleton]
        omega
      · have hwhole := ih fun other hother => hwords other (List.mem_cons_of_mem _ hother)
        rw [joinWords_cons hrest, utf8_append, utf8_append, List.length_append, List.length_append,
          List.length_cons, hspace]
        omega

/-- No byte of the line is a line ending. -/
theorem lf_not_mem_joinWords {words : List String} (hwords : ∀ word ∈ words, Token word) :
    lf ∉ utf8 (joinWords words) := by
  intro hlf
  rw [utf8_eq_flatMap, flatMap_utf8EncodeChar_ascii, List.mem_map] at hlf
  · obtain ⟨char, hchar, hlf⟩ := hlf
    have hbounds := mem_joinWords hwords hchar
    have hvalue := congrArg UInt8.toNat hlf
    rw [UInt8.toNat_ofNat', Nat.mod_eq_of_lt (by omega)] at hvalue
    have hten : lf.toNat = 10 := rfl
    omega
  · intro char hchar
    have := (mem_joinWords hwords hchar).2
    omega

end Oasi
