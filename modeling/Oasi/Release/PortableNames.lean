import Mathlib.Data.List.Basic
import Oasi.Foundation.Checked

/-! # Portable names of release members

Both release tools accept a member name only when it is safe and means the same on
every platform. The Unicode database is a parameter: four functions of it are used.
-/

namespace Oasi

namespace Release

/-- A string as its code points. -/
abbrev Text := List Char

/-- Membership in a list of texts is decided by their equality. -/
instance instLawfulBEqText : LawfulBEq Text := inferInstance

/-- What the tools ask of the Unicode database. -/
structure UnicodeData where
  /-- `unicodedata.normalize("NFC", text)` -/
  nfc : Text → Text
  /-- `text.casefold()` -/
  casefold : Text → Text
  /-- `text.upper()` -/
  upper : Text → Text
  /-- `text.lower()` -/
  lower : Text → Text

/-- The database on ASCII texts. -/
def UnicodeData.ascii : UnicodeData where
  nfc := id
  casefold := List.map Char.toLower
  upper := List.map Char.toUpper
  lower := List.map Char.toLower

/-- The boundary conditions that a name, a file or an allowlist can violate. -/
inductive BoundaryError where
  /-- `{label} is not readable: {type}` -/
  | unreadable (label : String)
  /-- `{label} must not be a symlink or reparse point: {path}` -/
  | linked (label : String)
  /-- `{label} is not a regular file: {path}` -/
  | notRegular (label : String)
  /-- `non-canonical archive path: {name!r}` -/
  | nonCanonicalPath (name : Text)
  /-- `unsafe archive path: {name!r}` -/
  | unsafePath (name : Text)
  /-- `forbidden release path component: {component!r}` -/
  | forbiddenComponent (component : Text)
  /-- `non-portable archive component: {component!r}` -/
  | nonPortableComponent (component : Text)
  /-- `reserved archive component: {component!r}` -/
  | reservedComponent (component : Text)
  /-- `forbidden generated-file suffix: {name!r}` -/
  | forbiddenSuffix (name : Text)
  /-- `invalid UTF-8 allowlist: {type}` -/
  | invalidUtf8
  /-- `allowlist must be non-empty canonical LF text ending in LF` -/
  | notCanonicalText
  /-- `allowlist line {number} must be '<lowercase-sha256>  <bytes>  <POSIX-path>'` -/
  | badLine (number : Nat)
  /-- `duplicate allowlist path: {name}` -/
  | duplicatePath (name : Text)
  /-- `allowlist paths must be in ordinal order` -/
  | notOrdinal
  /-- `allowlist has a Unicode-normalization or casefold collision` -/
  | collision
  deriving DecidableEq, Repr

def windowsForbiddenChars : List Char := ['<', '>', ':', '"', '|', '?', '*']

def windowsReservedStems : List Text :=
  (["CON", "PRN", "AUX", "NUL", "COM1", "COM2", "COM3", "COM4", "COM5", "COM6", "COM7", "COM8",
    "COM9", "LPT1", "LPT2", "LPT3", "LPT4", "LPT5", "LPT6", "LPT7", "LPT8", "LPT9"]).map
      String.toList

def forbiddenComponents : List Text :=
  ([".git", "target", "__pycache__", ".pytest_cache", ".mypy_cache", ".ruff_cache"]).map
    String.toList

def forbiddenSuffixes : List Text := ([".pyc", ".pyo"]).map String.toList

/-- `re.match(r"^[A-Za-z]:", name)` -/
def startsWithDrive : Text → Bool
  | letter :: ':' :: _ => letter.isAlpha
  | _ => false

def isAbsolute (name : Text) : Bool := name.head? == some '/'

/-- The checks on one component of a path, in order. -/
def validateComponent (unicode : UnicodeData) (component : Text) :
    Except BoundaryError Unit := do
  failIf (component ∈ forbiddenComponents) (.forbiddenComponent component)
  failIf (component.getLast? = some ' ' ∨ component.getLast? = some '.')
    (.nonPortableComponent component)
  failIf ((component.any fun char =>
      decide (char.toNat < 32 ∨ char ∈ windowsForbiddenChars)) = true)
    (.nonPortableComponent component)
  failIf (unicode.upper (component.takeWhile (· ≠ '.')) ∈ windowsReservedStems)
    (.reservedComponent component)

def validatePortableName (unicode : UnicodeData) (name : Text) : Except BoundaryError Unit := do
  failIf (name = [] ∨ name ≠ unicode.nfc name) (.nonCanonicalPath name)
  failIf (isAbsolute name = true ∨ '\\' ∈ name ∨ startsWithDrive name = true) (.unsafePath name)
  let components := name.splitOn '/'
  failIf (isAbsolute name = true ∨ [] ∈ components ∨ ['.'] ∈ components ∨
    ['.', '.'] ∈ components) (.unsafePath name)
  components.forM (validateComponent unicode)
  failIf ((forbiddenSuffixes.any fun suffix => suffix.isSuffixOf (unicode.lower name)) = true)
    (.forbiddenSuffix name)

/-! ## Accepted names -/

/-- A character of a text separates two of its parts or stands in one. -/
theorem mem_splitOn_of_mem {char : Char} {text : Text} (separator : Char) (h : char ∈ text) :
    char = separator ∨ ∃ part ∈ text.splitOn separator, char ∈ part := by
  induction text with
  | nil => cases h
  | cons first rest ih =>
      rw [List.splitOn_cons_eq_if_modifyHead]
      by_cases hseparator : (first == separator) = true
      · rw [if_pos hseparator]
        rcases List.mem_cons.mp h with rfl | hrest
        · exact .inl (beq_iff_eq.mp hseparator)
        · refine (ih hrest).imp_right fun ⟨part, hpart, hchar⟩ => ?_
          exact ⟨part, List.mem_cons_of_mem _ hpart, hchar⟩
      · rw [if_neg hseparator]
        cases hparts : rest.splitOn separator with
        | nil => exact absurd hparts (List.splitOn_ne_nil _ _)
        | cons head parts =>
            rw [hparts] at ih
            rw [List.modifyHead_cons]
            rcases List.mem_cons.mp h with rfl | hrest
            · exact .inr ⟨_, List.mem_cons_self, List.mem_cons_self⟩
            · refine (ih hrest).imp_right fun ⟨part, hpart, hchar⟩ => ?_
              rcases List.mem_cons.mp hpart with rfl | hpart
              · exact ⟨_, List.mem_cons_self, List.mem_cons_of_mem _ hchar⟩
              · exact ⟨part, List.mem_cons_of_mem _ hpart, hchar⟩

/-- What an accepted name looks like. -/
structure PortableName (name : Text) : Prop where
  nonempty : name ≠ []
  components : ∀ component ∈ name.splitOn '/',
    component ≠ [] ∧ component ≠ ['.'] ∧ component ≠ ['.', '.']
  printable : ∀ char ∈ name, 32 ≤ char.toNat

theorem portableName_of_validate {unicode : UnicodeData} {name : Text}
    (h : validatePortableName unicode name = .ok ()) : PortableName name := by
  unfold validatePortableName at h
  simp only [bind_eq_ok, failIf_eq_ok, not_or] at h
  obtain ⟨_, ⟨hnonempty, _⟩, _, _, _, ⟨_, hempty, hdot, hdots⟩, _, hcomponents, _⟩ := h
  refine ⟨hnonempty, ?_, ?_⟩
  · intro component hcomponent
    refine ⟨?_, ?_, ?_⟩ <;> rintro rfl <;> contradiction
  · intro char hchar
    rcases mem_splitOn_of_mem '/' hchar with rfl | ⟨component, hcomponent, hmem⟩
    · decide
    · have hvalid := forM_eq_ok.mp hcomponents component hcomponent
      unfold validateComponent at hvalid
      simp only [bind_eq_ok, failIf_eq_ok] at hvalid
      obtain ⟨_, _, _, _, _, hplain, _⟩ := hvalid
      by_contra hlow
      exact hplain (List.any_eq_true.mpr ⟨char, hmem, decide_eq_true (.inl (by omega))⟩)

end Release

end Oasi
