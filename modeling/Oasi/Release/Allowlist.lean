import Mathlib.Data.Char
import Mathlib.Data.List.Lex
import Mathlib.Data.List.Sort
import Oasi.Foundation.Numerals
import Oasi.Foundation.TextLines
import Oasi.Release.PortableNames

/-! # The release allowlist

One line for each member, with its digest, its size and its name. Both release tools
parse the same text with the same code.
-/

namespace Oasi

namespace Release

structure ExpectedFile where
  sha256 : Text
  size : Nat
  deriving DecidableEq, Repr

/-- The listed files, in the order of insertion. The names are distinct. -/
abbrev Mapping := List (Text × ExpectedFile)

/-- What is found at a path. -/
inductive PathState where
  /-- `lstat` fails. -/
  | missing
  | link
  | special
  /-- A regular file with its bytes; `none` where reading fails. -/
  | regular (content : Option Bytes)

def requirePlainFile (path : PathState) (label : String) :
    Except BoundaryError (Option Bytes) :=
  match path with
  | .missing => .error (.unreadable label)
  | .link => .error (.linked label)
  | .special => .error (.notRegular label)
  | .regular content => .ok content

/-- Why no mapping is returned. -/
inductive AllowlistError where
  | boundary (error : BoundaryError)
  /-- `ValueError` of `int` on a text over the limit of digits. -/
  | integerTooLong
  deriving DecidableEq, Repr

def isLowerHexChar (char : Char) : Bool :=
  ('0' ≤ char && char ≤ '9') || ('a' ≤ char && char ≤ 'f')

/-- `0|[1-9][0-9]*` -/
def isCanonicalDecimal (text : Text) : Bool :=
  text == ['0'] || (text.all Char.isDigit && text.head?.any (· != '0'))

/-- `re.fullmatch(r"([0-9a-f]{64})  (0|[1-9][0-9]*)  (.+)", line)`. The digits of the
size are all that stand before the second separator, since it is not a digit. -/
def matchLine (line : Text) : Option (Text × Text × Text) :=
  let sha256 := line.take 64
  let sizeText := (line.drop 66).takeWhile Char.isDigit
  let behind := line.drop (66 + sizeText.length)
  if sha256.length = 64 ∧ sha256.all isLowerHexChar = true ∧
      (line.drop 64).take 2 = [' ', ' '] ∧ isCanonicalDecimal sizeText = true ∧
      behind.take 2 = [' ', ' '] ∧ behind.drop 2 ≠ [] ∧ '\n' ∉ behind.drop 2 then
    some (sha256, sizeText, behind.drop 2)
  else none

/-- The limit of digits that `int` converts. -/
def maxStrDigits : Nat := 4300

/-- `int(text)` of decimal digits. -/
def intOfDigits (text : Text) : Except AllowlistError Nat :=
  if text.length > maxStrDigits then .error .integerTooLong else .ok (Nat.ofDigitChars 10 text 0)

/-- The loop over the lines. -/
def parseLines (unicode : UnicodeData) (expected : Mapping) (lineNumber : Nat) :
    List Text → Except AllowlistError Mapping
  | [] => .ok expected
  | line :: lines =>
      match matchLine line with
      | none => .error (.boundary (.badLine lineNumber))
      | some (sha256, sizeText, name) => do
          (validatePortableName unicode name).mapError .boundary
          failIf (name ∈ expected.map Prod.fst) (.boundary (.duplicatePath name))
          let size ← intOfDigits sizeText
          parseLines unicode (expected ++ [(name, ⟨sha256, size⟩)]) (lineNumber + 1) lines

/-- `sorted(names)`: the order of texts is that of their code points. -/
def sorted (names : List Text) : List Text := names.insertionSort (· ≤ ·)

/-- From the decoded text on. -/
def parseText (unicode : UnicodeData) (text : Text) : Except AllowlistError Mapping := do
  failIf (text = [] ∨ text.getLast? ≠ some '\n' ∨ '\r' ∈ text) (.boundary .notCanonicalText)
  let expected ← parseLines unicode [] 1 (splitlines text)
  let orderedNames := expected.map Prod.fst
  failIf (orderedNames ≠ sorted orderedNames) (.boundary .notOrdinal)
  failIf (¬(orderedNames.map fun name => unicode.casefold (unicode.nfc name)).Nodup)
    (.boundary .collision)
  return expected

def parseAllowlist (unicode : UnicodeData) (path : PathState) :
    Except AllowlistError Mapping := do
  let content ← (requirePlainFile path "allowlist").mapError .boundary
  match content.bind fromUtf8 with
  | none => .error (.boundary .invalidUtf8)
  | some text => parseText unicode text.toList

/-! ## The canonical rendering -/

/-- `<sha256>  <size>  <name>` -/
def renderLine (entry : Text × ExpectedFile) : Text :=
  entry.2.sha256 ++ ' ' :: ' ' :: (Nat.toDigits 10 entry.2.size ++ ' ' :: ' ' :: entry.1)

/-- The entries in the order of their names. -/
def ordered (mapping : Mapping) : Mapping :=
  mapping.insertionSort fun left right => left.1 ≤ right.1

/-- One line for each entry in the order of the names, each with its line feed. -/
def renderText (mapping : Mapping) : Text := terminateLines ((ordered mapping).map renderLine)

def render (mapping : Mapping) : Bytes := encode (renderText mapping)

end Release

end Oasi
