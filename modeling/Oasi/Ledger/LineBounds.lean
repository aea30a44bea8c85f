import Mathlib.Algebra.Order.BigOperators.Group.List
import Oasi.Ledger.EntryRoundTrip

/-! # Bytes and length of a line

A line holds no control byte, so the LF behind it is the only one, and it is not
blank. Strings within their bounds keep it below the line limit even when every
character takes the longest escape.
-/

namespace Oasi

theorem JsonValue.render_byte {value : JsonValue} {byte : UInt8} (h : byte ∈ value.render) :
    ¬byte ≤ 0x1f := by
  have hliteral : ∀ byte ∈ utf8 "null" ++ utf8 "true" ++ utf8 "false", ¬byte ≤ 0x1f := by
    decide +kernel
  cases value with
  | null => exact hliteral byte (by simp_all [JsonValue.render])
  | bool value => cases value <;> exact hliteral byte (by simp_all [JsonValue.render, boolText])
  | number value =>
      have hdigit := isAsciiDigit_of_mem_decimal h
      intro hle
      simp only [isAsciiDigit, Bool.and_eq_true, decide_eq_true_eq] at hdigit
      exact absurd (UInt8.le_trans hdigit.1 hle) (by decide)
  | string value =>
      simp only [JsonValue.render, List.mem_cons, List.mem_append, List.not_mem_nil, or_false] at h
      rcases h with rfl | h | rfl
      · decide
      · exact escapeJson_byte h
      · decide

theorem renderMember_byte {member : String × JsonValue} {byte : UInt8}
    (h : byte ∈ renderMember member) : ¬byte ≤ 0x1f := by
  simp only [renderMember, List.mem_cons, List.mem_append] at h
  rcases h with rfl | h | rfl | rfl | h
  · decide
  · exact escapeJson_byte h
  · decide
  · decide
  · exact JsonValue.render_byte h

theorem renderObject_byte {members : List (String × JsonValue)} {byte : UInt8}
    (h : byte ∈ renderObject members) : ¬byte ≤ 0x1f := by
  simp only [renderObject, List.mem_cons, List.mem_append, List.not_mem_nil, or_false] at h
  rcases h with rfl | h | rfl
  · decide
  · cases members with
    | nil => cases h
    | cons member rest =>
        rw [renderMembers_cons, List.mem_append, List.mem_flatMap] at h
        rcases h with h | ⟨next, _, h⟩
        · exact renderMember_byte h
        · rcases List.mem_cons.mp h with rfl | h
          · decide
          · exact renderMember_byte h
  · decide

/-- A bound on the rendered length of a value. -/
def JsonValue.lengthBound : JsonValue → Nat
  | .string value => 6 * value.utf8ByteSize + 2
  | _ => 20

theorem JsonValue.length_render_le (value : JsonValue) :
    value.render.length ≤ value.lengthBound := by
  cases value with
  | null => decide
  | bool value => cases value <;> decide
  | number value => exact length_decimal_le value
  | string value =>
      have hescaped := length_escapeJson_le value
      rw [length_utf8 value] at hescaped
      simp only [JsonValue.render, JsonValue.lengthBound, List.length_cons, List.length_append,
        List.length_nil]
      omega

theorem length_renderMembers_le {members : List (String × JsonValue)} {keyBound : Nat}
    (hkeys : ∀ member ∈ members, (utf8 (escapeJson member.1)).length ≤ keyBound) :
    (renderMembers members).length ≤
      (members.map fun member => keyBound + 4 + member.2.lengthBound).sum := by
  have hmember : ∀ member ∈ members, (renderMember member).length + 1 ≤
      keyBound + 4 + member.2.lengthBound := by
    intro member hmember
    have hvalue := member.2.length_render_le
    have hkey := hkeys member hmember
    simp only [renderMember, List.length_cons, List.length_append]
    omega
  cases members with
  | nil => simp [renderMembers]
  | cons member rest =>
      have hrest : (rest.flatMap fun next => 44 :: renderMember next).length ≤
          (rest.map fun member => keyBound + 4 + member.2.lengthBound).sum := by
        rw [List.length_flatMap]
        apply List.sum_le_sum
        intro next hnext
        exact hmember next (List.mem_cons_of_mem _ hnext)
      have hfirst := hmember member List.mem_cons_self
      rw [renderMembers_cons, List.length_append, List.map_cons, List.sum_cons]
      omega

namespace LedgerEntry

theorem lf_not_mem_line (entry : LedgerEntry) : lf ∉ entry.line :=
  fun h => renderObject_byte h (by decide)

theorem line_not_blank (entry : LedgerEntry) :
    (entry.line.isEmpty || entry.line.all isAsciiWhitespace) = false := by
  have hbrace : isAsciiWhitespace 123 = false := by decide
  simp [line, renderObject, hbrace]

/-- The strings of an entry within the bounds of its canonical bytes. -/
def Bounded (entry : LedgerEntry) : Prop :=
  entry.event.utf8ByteSize ≤ maxEventBytes ∧ entry.detail.utf8ByteSize ≤ maxDetailBytes

theorem lengthBound_optionalValue (value : Option UInt64) :
    (optionalValue value).lengthBound = 20 := by
  cases value <;> rfl

theorem lengthBound_hashValue (value : UInt64) : (hashValue value).lengthBound = 98 := by
  rw [hashValue, JsonValue.lengthBound, ← length_utf8, length_utf8_paddedHex]

theorem lengthBound_optionalHashValue (value : Option UInt64) :
    (optionalHashValue value).lengthBound ≤ 98 := by
  cases value with
  | none => decide
  | some value => exact (lengthBound_hashValue value).le

theorem sum_lengthBound_le (entry : LedgerEntry) :
    (entry.members.map fun member => 20 + 4 + member.2.lengthBound).sum ≤
      1400 + 6 * entry.event.utf8ByteSize + 6 * entry.detail.utf8ByteSize := by
  have hkind : entry.kind.asStr.utf8ByteSize ≤ 5 := by cases entry.kind <;> decide
  have hhash := lengthBound_optionalHashValue entry.sealedEventHash
  have hschema : (JsonValue.string ledgerSchema).lengthBound = 146 := rfl
  have hstring : ∀ value, (JsonValue.string value).lengthBound = 6 * value.utf8ByteSize + 2 :=
    fun _ => rfl
  have hnumber : ∀ value, (JsonValue.number value).lengthBound = 20 := fun _ => rfl
  have hbool : ∀ value, (JsonValue.bool value).lengthBound = 20 := fun _ => rfl
  simp only [members, List.map_cons, List.map_nil, List.sum_cons, List.sum_nil, hschema,
    lengthBound_optionalValue, lengthBound_hashValue, hnumber, hbool, hstring]
  grind

/-- A line is at most sixfold its two strings, and a constant. -/
theorem length_line_le (entry : LedgerEntry) :
    entry.line.length ≤ 1402 + 6 * entry.event.utf8ByteSize + 6 * entry.detail.utf8ByteSize := by
  have hkeys : ∀ member ∈ entry.members, (utf8 (escapeJson member.1)).length ≤ 20 := by
    have hnames : ∀ name ∈ expectedFields, (utf8 name).length ≤ 20 := by decide
    intro member hmember
    rw [members_escaped entry member hmember]
    exact hnames member.1 (members_keys entry ▸ List.mem_map_of_mem hmember)
  have hmembers := (length_renderMembers_le hkeys).trans (sum_lengthBound_le entry)
  have hline : entry.line.length = (renderMembers entry.members).length + 2 := by
    simp [line, renderObject]
  omega

/-- Even the worst escape expansion stays below the line limit. -/
theorem length_line_lt {entry : LedgerEntry} (h : entry.Bounded) :
    entry.line.length + 1 ≤ maxLineBytes := by
  obtain ⟨hevent, hdetail⟩ := h
  have hline := entry.length_line_le
  simp only [maxEventBytes, maxDetailBytes, maxLineBytes] at *
  omega

end LedgerEntry

end Oasi
