import Mathlib.Algebra.Group.Nat.Defs
import Oasi.Foundation.Bytes
import Oasi.Foundation.Codes

/-! # Records of fixed layout

A record is read by position: a slice for each field, little-endian numbers in most
of them. Whatever is read from a record of full length, written again in order,
is the record.
-/

namespace Oasi

/-- `length` bytes from a position on, or as many as there are. -/
def slice (bytes : Bytes) (offset length : Nat) : Bytes := (bytes.drop offset).take length

/-- A number in so many bytes, least significant first. -/
def leBytes : Nat → Nat → Bytes
  | 0, _ => []
  | width + 1, value => UInt8.ofNat value :: leBytes width (value / 256)

/-- The number that bytes stand for, least significant first. -/
def leValue : Bytes → Nat
  | [] => 0
  | byte :: rest => byte.toNat + 256 * leValue rest

/-- A number in so many bytes, most significant first. -/
def beBytes (width value : Nat) : Bytes := (leBytes width value).reverse

/-- The number that bytes stand for, most significant first. -/
def beValue (bytes : Bytes) : Nat := leValue bytes.reverse

/-- The number in a field of a record. -/
def field (bytes : Bytes) (offset width : Nat) : Nat := leValue (slice bytes offset width)

/-! ## Numbers -/

@[simp] theorem length_leBytes (width value : Nat) : (leBytes width value).length = width := by
  induction width generalizing value with
  | zero => rfl
  | succ width ih => rw [leBytes, List.length_cons, ih]

theorem leValue_lt (bytes : Bytes) : leValue bytes < 256 ^ bytes.length := by
  induction bytes with
  | nil => decide
  | cons byte rest ih =>
      have hbyte : byte.toNat < 256 := byte.toNat_lt_size
      rw [leValue, List.length_cons, Nat.pow_succ]
      omega

/-- Bytes are the number that they stand for. -/
theorem leBytes_leValue (bytes : Bytes) : leBytes bytes.length (leValue bytes) = bytes := by
  induction bytes with
  | nil => rfl
  | cons byte rest ih =>
      have hbyte : byte.toNat < 256 := byte.toNat_lt_size
      have hlow : UInt8.ofNat (byte.toNat + 256 * leValue rest) = byte := by
        rw [← UInt8.toNat_inj, UInt8.toNat_ofNat', Nat.add_mul_mod_self_left,
          Nat.mod_eq_of_lt hbyte]
      have hhigh : (byte.toNat + 256 * leValue rest) / 256 = leValue rest := by omega
      rw [leValue, List.length_cons, leBytes, hlow, hhigh, ih]

/-- A number that fits is read back. -/
theorem leValue_leBytes {width value : Nat} (h : value < 256 ^ width) :
    leValue (leBytes width value) = value := by
  induction width generalizing value with
  | zero =>
      rw [Nat.pow_zero, Nat.lt_one_iff] at h
      rw [h]
      rfl
  | succ width ih =>
      rw [Nat.pow_succ] at h
      have hlow : (UInt8.ofNat value).toNat = value % 256 := UInt8.toNat_ofNat'
      rw [leBytes, leValue, hlow, ih (by omega), Nat.mod_add_div]

/-- A number that fits in a byte less leaves the last byte zero. -/
theorem getLast?_of_leValue_lt {bytes : Bytes} {width : Nat} (hlength : bytes.length = width + 1)
    (h : leValue bytes < 256 ^ width) : bytes.getLast? = some 0 := by
  induction bytes generalizing width with
  | nil => cases hlength
  | cons byte rest ih =>
      rw [leValue] at h
      cases width with
      | zero =>
          have hrest : rest = [] := List.eq_nil_of_length_eq_zero (Nat.succ.inj hlength)
          have hbyte : byte = 0 := by
            rw [← UInt8.toNat_inj]
            change byte.toNat = 0
            omega
          rw [hrest, hbyte]
          rfl
      | succ width =>
          have hrest : rest.length = width + 1 := Nat.succ.inj hlength
          rw [Nat.pow_succ] at h
          have hlast := ih hrest (by omega)
          rw [List.getLast?_cons, hlast]
          rfl

@[simp] theorem length_beBytes (width value : Nat) : (beBytes width value).length = width := by
  rw [beBytes, List.length_reverse, length_leBytes]

theorem beValue_lt (bytes : Bytes) : beValue bytes < 256 ^ bytes.length := by
  have h := leValue_lt bytes.reverse
  rwa [List.length_reverse] at h

/-- Bytes of one width are those of the number that they stand for. -/
theorem beValue_eq_iff {bytes : Bytes} {width value : Nat} (hlength : bytes.length = width)
    (hvalue : value < 256 ^ width) : beValue bytes = value ↔ bytes = beBytes width value := by
  constructor
  · intro h
    have hbytes := leBytes_leValue bytes.reverse
    rw [← beValue, h, List.length_reverse, hlength] at hbytes
    rw [beBytes, hbytes, List.reverse_reverse]
  · intro h
    rw [h, beBytes, beValue, List.reverse_reverse, leValue_leBytes hvalue]

/-! ## Slices -/

theorem length_slice {bytes : Bytes} {offset length : Nat} (h : offset + length ≤ bytes.length) :
    (slice bytes offset length).length = length := by
  rw [slice, List.length_take, List.length_drop]
  omega

theorem length_slice_le (bytes : Bytes) (offset length : Nat) :
    (slice bytes offset length).length ≤ length := List.length_take_le _ _

theorem field_lt (bytes : Bytes) (offset width : Nat) : field bytes offset width < 256 ^ width :=
  Nat.lt_of_lt_of_le (leValue_lt _)
    (Nat.pow_le_pow_right (by decide) (length_slice_le bytes offset width))

theorem drop_eq_slice_append (bytes : Bytes) (offset length : Nat) :
    bytes.drop offset = slice bytes offset length ++ bytes.drop (offset + length) := by
  rw [slice, ← List.drop_drop, List.take_append_drop]

theorem slice_append (front middle rest : Bytes) :
    slice (front ++ (middle ++ rest)) front.length middle.length = middle := by
  rw [slice, List.drop_left, List.take_left]

theorem slice_zero (bytes : Bytes) (offset : Nat) : slice bytes offset 0 = [] := List.take_zero

/-- A slice of some length is empty only behind the end. -/
theorem eq_zero_or_le_of_slice_eq_nil {bytes : Bytes} {offset length : Nat}
    (h : slice bytes offset length = []) : length = 0 ∨ bytes.length ≤ offset := by
  rwa [slice, List.take_eq_nil_iff, List.drop_eq_nil_iff] at h

theorem slice_slice {bytes : Bytes} {start size offset length : Nat}
    (h : offset + length ≤ size) :
    slice (slice bytes start size) offset length = slice bytes (start + offset) length := by
  rw [slice, slice, slice, List.drop_take, List.drop_drop, List.take_take,
    Nat.min_eq_left (by omega)]

/-- A field of a record inside a file. -/
theorem field_slice {bytes : Bytes} {start size offset width : Nat} (h : offset + width ≤ size) :
    field (slice bytes start size) offset width = field bytes (start + offset) width := by
  rw [field, field, slice_slice h]

/-- What is left of a record starts with a field. -/
theorem drop_eq_append_iff {bytes front rest : Bytes} {offset length : Nat}
    (hfront : front.length = length) :
    bytes.drop offset = front ++ rest ↔
      slice bytes offset length = front ∧ bytes.drop (offset + length) = rest := by
  constructor
  · intro h
    rw [slice, ← List.drop_drop, h, List.take_left' hfront, List.drop_left' hfront]
    exact ⟨rfl, rfl⟩
  · rintro ⟨hslice, hrest⟩
    rw [drop_eq_slice_append bytes offset length, hslice, hrest]

/-- A numeric field at the front of what is left of a record. -/
theorem drop_eq_leBytes_append {bytes : Bytes} {size : Nat} (h : bytes.length = size)
    (offset width : Nat) (hfits : offset + width ≤ size) :
    bytes.drop offset =
      leBytes width (field bytes offset width) ++ bytes.drop (offset + width) := by
  have hfield := leBytes_leValue (slice bytes offset width)
  rw [length_slice (h ▸ hfits)] at hfield
  rw [field, hfield, ← drop_eq_slice_append]

/-- A field behind the front of a record. -/
theorem field_skip {front : Bytes} {offset : Nat} (h : front.length ≤ offset) (rest : Bytes)
    (width : Nat) :
    field (front ++ rest) offset width = field rest (offset - front.length) width := by
  rw [field, field, slice, slice, List.drop_append, List.drop_eq_nil_of_le h, List.nil_append]

/-- The field that a record starts with. -/
theorem field_front {width value : Nat} (h : value < 256 ^ width) (rest : Bytes) :
    field (leBytes width value ++ rest) 0 width = value := by
  have hslice : slice (leBytes width value ++ rest) 0 width = leBytes width value := by
    rw [slice, List.drop_zero, List.take_left' (length_leBytes width value)]
  rw [field, hslice, leValue_leBytes h]

/-- The only field of a record. -/
theorem field_only {width value : Nat} (h : value < 256 ^ width) :
    field (leBytes width value) 0 width = value := by
  rw [← List.append_nil (leBytes width value), field_front h]

/-! ## Searching -/

/-- The last position at which a pattern starts. -/
def rfind (pattern : Bytes) : Bytes → Option Nat
  | [] => if pattern = [] then some 0 else none
  | byte :: rest =>
      match rfind pattern rest with
      | some position => some (position + 1)
      | none => if pattern <+: byte :: rest then some 0 else none

/-- At the position that is found the pattern starts. -/
theorem prefix_drop_of_rfind {pattern bytes : Bytes} {position : Nat}
    (h : rfind pattern bytes = some position) : pattern <+: bytes.drop position := by
  induction bytes generalizing position with
  | nil =>
      rw [rfind] at h
      split at h
      next hnil =>
        rw [hnil]
        exact List.nil_prefix
      next => cases h
  | cons byte rest ih =>
      rw [rfind] at h
      split at h
      next found hfound =>
        cases h
        exact ih hfound
      next =>
        split at h
        next hprefixed =>
          cases h
          exact hprefixed
        next => cases h

theorem rfind_eq_none_iff {pattern bytes : Bytes} :
    rfind pattern bytes = none ↔ ¬pattern <:+: bytes := by
  induction bytes with
  | nil => simp [rfind]
  | cons byte rest ih =>
      rw [rfind, List.infix_cons_iff, not_or]
      cases hfound : rfind pattern rest with
      | some position => simp [← ih, hfound]
      | none => simp [← ih, hfound]

/-- The last occurrence is at the front when there is no other. -/
theorem rfind_cons_eq_zero {pattern rest : Bytes} {byte : UInt8}
    (hfront : pattern <+: byte :: rest) :
    rfind pattern (byte :: rest) = some 0 ↔ ¬pattern <:+: rest := by
  rw [rfind, ← rfind_eq_none_iff]
  cases rfind pattern rest with
  | some position => simp
  | none => simp [hfront]

/-- What is found at the end is found behind anything. -/
theorem rfind_append {pattern back : Bytes} {position : Nat} (front : Bytes)
    (h : rfind pattern back = some position) :
    rfind pattern (front ++ back) = some (front.length + position) := by
  induction front with
  | nil => rw [List.nil_append, h, List.length_nil, Nat.zero_add]
  | cons byte front ih =>
      rw [List.cons_append, rfind, ih, List.length_cons]
      simp only [Option.some.injEq]
      omega

end Oasi
