import Oasi.Ledger.Json

/-! # The grammar of flat JSON objects

Which texts denote an object, written as relations between a text and its meaning
and without reference to the parser. Whitespace may stand around the tokens; a
value is a string, a literal name or an unsigned integer.
-/

namespace Oasi

namespace JsonGrammar

/-- Whitespace between tokens. -/
def Blank (text : List Char) : Prop :=
  ∀ char ∈ text, char = ' ' ∨ char = '\t' ∨ char = '\r' ∨ char = '\n'

/-! ## Strings -/

/-- A hexadecimal digit in either case. -/
def HexDigit (char : Char) (digit : Nat) : Prop :=
  digit < 16 ∧ (char = digit.digitChar ∨ char = digit.digitChar.toUpper)

/-- Four hexadecimal digits, most significant first. -/
def HexQuad (text : List Char) (value : Nat) : Prop :=
  ∃ digits : List Nat, digits.length = 4 ∧ List.Forall₂ HexDigit text digits ∧
    digits.foldl (fun value digit => 16 * value + digit) 0 = value

/-- The letter of a two-character escape and the character it stands for. -/
inductive Shorthand : Char → Char → Prop
  | quote : Shorthand '"' '"'
  | backslash : Shorthand '\\' '\\'
  | slash : Shorthand '/' '/'
  | backspace : Shorthand 'b' '\x08'
  | formFeed : Shorthand 'f' '\x0c'
  | newline : Shorthand 'n' '\n'
  | carriageReturn : Shorthand 'r' '\r'
  | tab : Shorthand 't' '\t'

/-- One character of a string: itself, an escape, or a pair of surrogate escapes.
A single `\u` escape cannot name a surrogate, since no character has such a code. -/
inductive CharText : List Char → Char → Prop
  | plain {char : Char} (hcontrol : 0x20 ≤ char.toNat) (hquote : char ≠ '"')
      (hbackslash : char ≠ '\\') : CharText [char] char
  | short {letter char : Char} (h : Shorthand letter char) : CharText ['\\', letter] char
  | unit {quad : List Char} {char : Char} (h : HexQuad quad char.toNat) :
      CharText ('\\' :: 'u' :: quad) char
  | pair {high low : List Char} {top bottom : Nat} {char : Char}
      (hhigh : HexQuad high (0xd800 + top)) (htop : top < 0x400)
      (hlow : HexQuad low (0xdc00 + bottom)) (hbottom : bottom < 0x400)
      (hchar : char.toNat = 0x10000 + top * 0x400 + bottom) :
      CharText ('\\' :: 'u' :: high ++ '\\' :: 'u' :: low) char

/-- The characters of a string one after the other. -/
inductive CharsText : List Char → List Char → Prop
  | nil : CharsText [] []
  | cons {text rest chars : List Char} {char : Char} (hchar : CharText text char)
      (hrest : CharsText rest chars) : CharsText (text ++ rest) (char :: chars)

/-- A quoted string and its decoded value. -/
def StringText (text : List Char) (value : String) : Prop :=
  ∃ inner, CharsText inner value.toList ∧ text = '"' :: inner ++ ['"']

theorem CharsText.append {left right leftChars rightChars : List Char}
    (hleft : CharsText left leftChars) (hright : CharsText right rightChars) :
    CharsText (left ++ right) (leftChars ++ rightChars) := by
  induction hleft with
  | nil => exact hright
  | cons hchar _ ih =>
      rw [List.append_assoc, List.cons_append]
      exact .cons hchar ih

/-- Text without a quote, a backslash or a control character stands for itself. -/
theorem CharsText.of_plain {chars : List Char}
    (h : ∀ char ∈ chars, 0x20 ≤ char.toNat ∧ char ≠ '"' ∧ char ≠ '\\') :
    CharsText chars chars := by
  induction chars with
  | nil => exact .nil
  | cons char chars ih =>
      obtain ⟨hcontrol, hquote, hbackslash⟩ := h char List.mem_cons_self
      exact .cons (.plain hcontrol hquote hbackslash)
        (ih fun other hother => h other (List.mem_cons_of_mem _ hother))

/-! ## Values and objects -/

/-- A decimal integer: zero alone, or digits the first of which is not zero. -/
structure NumberText (text : List Char) (value : Nat) : Prop where
  digits : ∀ char ∈ text, char.isDigit = true
  nonempty : text ≠ []
  leading : text.head? = some '0' → text = ['0']
  value : Nat.ofDigitChars 10 text 0 = value

inductive ValueText : List Char → JsonValue → Prop
  | null : ValueText ['n', 'u', 'l', 'l'] .null
  | true : ValueText ['t', 'r', 'u', 'e'] (.bool true)
  | false : ValueText ['f', 'a', 'l', 's', 'e'] (.bool false)
  | number {text : List Char} {value : UInt64} (h : NumberText text value.toNat) :
      ValueText text (.number value)
  | string {text : List Char} {value : String} (h : StringText text value) :
      ValueText text (.string value)

/-- A key and its value. -/
inductive MemberText : List Char → String × JsonValue → Prop
  | intro {keyText before after valueText : List Char} {key : String} {value : JsonValue}
      (hkey : StringText keyText key) (hbefore : Blank before) (hafter : Blank after)
      (hvalue : ValueText valueText value) :
      MemberText (keyText ++ before ++ ':' :: after ++ valueText) (key, value)

/-- One member or more, separated by commas. -/
inductive MembersText : List Char → List (String × JsonValue) → Prop
  | last {before text after : List Char} {member : String × JsonValue}
      (hbefore : Blank before) (hmember : MemberText text member) (hafter : Blank after) :
      MembersText (before ++ text ++ after) [member]
  | more {before text after rest : List Char} {member : String × JsonValue}
      {members : List (String × JsonValue)} (hbefore : Blank before)
      (hmember : MemberText text member) (hafter : Blank after)
      (hrest : MembersText rest members) :
      MembersText (before ++ text ++ after ++ ',' :: rest) (member :: members)

/-- An object with its members in order. -/
def ObjectText (text : List Char) (members : List (String × JsonValue)) : Prop :=
  ∃ before inner after, Blank before ∧ MembersText inner members ∧ Blank after ∧
    text = before ++ '{' :: inner ++ '}' :: after

theorem Blank.append {left right : List Char} (hleft : Blank left) (hright : Blank right) :
    Blank (left ++ right) := by
  intro char hchar
  rcases List.mem_append.mp hchar with hchar | hchar
  · exact hleft char hchar
  · exact hright char hchar

theorem MembersText.blank_append {blank inner : List Char}
    {members : List (String × JsonValue)} (hblank : Blank blank)
    (h : MembersText inner members) : MembersText (blank ++ inner) members := by
  cases h with
  | last hbefore hmember hafter =>
      simp only [← List.append_assoc]
      exact .last (hblank.append hbefore) hmember hafter
  | more hbefore hmember hafter hrest =>
      simp only [← List.append_assoc]
      exact .more (hblank.append hbefore) hmember hafter hrest

end JsonGrammar

end Oasi
