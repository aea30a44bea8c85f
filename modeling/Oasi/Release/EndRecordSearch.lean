import Oasi.Release.ArchiveChecks

/-! # The search for the end record

The verifier searches the end of the archive backwards for the signature of the end
record. A record without a comment has its signature in front, so what is found is the
record unless the signature occurs in it a second time.
-/

namespace Oasi

namespace Release

open Reported

/-- The bytes of an end record behind its signature. -/
def endFields (count size offset : Nat) : Bytes :=
  leBytes 2 count ++ (leBytes 4 size ++ leBytes 4 offset)

/-- No second signature overlaps the first, the disk numbers or the comment length, or
starts with the first of the two counts. -/
theorem signature_in_record (count size offset : Nat) :
    rfind eocdSignature (endHeader count size offset).pack = some 0 ↔
      ¬eocdSignature <:+: endFields count size offset := by
  have hpack : (endHeader count size offset).pack =
      80 :: ([75, 5, 6, 0, 0, 0, 0] ++ (leBytes 2 count ++ (endFields count size offset ++
        [0, 0]))) := by
    simp only [EndHeader.pack, endHeader, endFields, eocdSignature, List.append_assoc]
    rfl
  have hfront : eocdSignature <+: (endHeader count size offset).pack := by
    rw [EndHeader.pack]
    exact List.prefix_append _ _
  rw [hpack] at hfront ⊢
  rw [rfind_cons_eq_zero hfront, not_iff_not]
  simp only [endFields, leBytes, eocdSignature, List.cons_append, List.nil_append]
  -- only the bytes matter from here on
  generalize UInt8.ofNat count = low
  generalize UInt8.ofNat (count / 256) = high
  generalize UInt8.ofNat size = first
  generalize UInt8.ofNat (size / 256) = second
  generalize UInt8.ofNat (size / 256 / 256) = third
  generalize UInt8.ofNat (size / 256 / 256 / 256) = fourth
  generalize UInt8.ofNat offset = fifth
  generalize UInt8.ofNat (offset / 256) = sixth
  generalize UInt8.ofNat (offset / 256 / 256) = seventh
  generalize UInt8.ofNat (offset / 256 / 256 / 256) = eighth
  -- a signature that starts at one of the bytes of the first count takes that count twice
  have hfirst : ¬(80 = low ∧ 75 = high ∧ 5 = low ∧ 6 = high) := by
    rintro ⟨rfl, _, hlow, _⟩
    exact absurd hlow (by decide)
  have hsecond : ¬(80 = high ∧ 75 = low ∧ 5 = high ∧ 6 = first) := by
    rintro ⟨rfl, _, hhigh, _⟩
    exact absurd hhigh (by decide)
  simp [List.infix_cons_iff, List.infix_nil, hfirst, hsecond]

/-- What the search makes of an archive whose record is in its place. -/
theorem verifyEocd_record {front record : Bytes} {count size offset position : Nat}
    (hrecord : record.length = 22) (hunpack : EndHeader.unpack record = endHeader count size offset)
    (hfront : front.length = offset + size) (hfind : rfind eocdSignature record = some position) :
    verifyEocd (front ++ record) offset count =
      if position = 0 then ⟨[], .ok (some (offset + size))⟩ else ⟨[.eocdMissing], .ok none⟩ := by
  have hlength : (front ++ record).length = front.length + 22 := by
    rw [List.length_append, hrecord]
  let before := front.drop (front.length + 22 - min (front.length + 22) (22 + 65535))
  have hbefore : before.length = min (front.length + 22) (22 + 65535) - 22 := by
    rw [List.length_drop]
    omega
  have htail : slice (front ++ record) (front.length + 22 - min (front.length + 22) (22 + 65535))
      (min (front.length + 22) (22 + 65535)) = before ++ record := by
    rw [slice, List.drop_append_of_le_length (by omega)]
    exact List.take_of_length_le (by rw [List.length_append, hbefore, hrecord]; omega)
  unfold verifyEocd
  rw [if_neg (by omega)]
  dsimp only
  rw [hlength, htail, rfind_append before hfind]
  dsimp only
  rw [List.length_append, hrecord]
  by_cases hzero : position = 0
  · have hplace : slice (before ++ record) before.length 22 = record := by
      have hslice := slice_append before record []
      rwa [List.append_nil, hrecord] at hslice
    subst hzero
    rw [if_neg (by omega), if_pos rfl]
    have hoffset : front.length + 22 - min (front.length + 22) (22 + 65535) + before.length =
        offset + size := by omega
    simp only [Nat.add_zero, hplace, hunpack, hoffset]
    simp [endHeader, noteIf, hfront]
    rfl
  · rw [if_pos (by omega), if_neg hzero]
    rfl

/-- The verifier accepts a record in its place exactly when the signature does not occur
in the numbers of the record. -/
theorem verifyEocd_clean_iff {archive : Bytes} {count size offset : Nat}
    (hplace : offset + size + 22 = archive.length)
    (hend : EndHeader.unpack (archive.drop (archive.length - 22)) = endHeader count size offset) :
    (verifyEocd archive offset count).Clean (some (offset + size)) ↔
      ¬eocdSignature <:+: endFields count size offset := by
  let record := archive.drop (archive.length - 22)
  have hrecord : record.length = 22 := by
    rw [List.length_drop]
    omega
  have hpack : (endHeader count size offset).pack = record := by
    rw [← hend]
    exact EndHeader.pack_unpack hrecord
  have hfront : (archive.take (archive.length - 22)).length = offset + size := by
    rw [List.length_take]
    omega
  have hstart : eocdSignature <+: record := by
    rw [← hpack, EndHeader.pack]
    exact List.prefix_append _ _
  rw [← signature_in_record, hpack]
  cases hfind : rfind eocdSignature record with
  | none => exact absurd hstart.isInfix (rfind_eq_none_iff.mp hfind)
  | some position =>
      have hverified := verifyEocd_record hrecord hend hfront hfind
      rw [List.take_append_drop] at hverified
      rw [hverified]
      by_cases hzero : position = 0
      · simp [hzero, Clean]
      · simp [hzero, Clean]

/-- The record of one entry that occupies 76 bytes. -/
theorem verifyEocd_clean_small :
    (verifyEocd (List.replicate 76 0 ++ (endHeader 1 46 30).pack) 30 1).Clean (some 76) := by
  refine (@verifyEocd_clean_iff _ 1 46 30 ?_ ?_).mpr ?_
  · rw [List.length_append, List.length_replicate]
    rfl
  · rw [List.length_append, List.length_replicate]
    rfl
  · decide

/-- The low bytes of 19280 entries and of a directory of 2098693 bytes are the signature:
the record is not found, wherever the directory starts. -/
theorem verifyEocd_misses_record :
    ∃ (archive : Bytes) (count size offset : Nat), count < 2 ^ 16 ∧ size < 2 ^ 32 ∧
      offset < 2 ^ 32 ∧ 46 * count ≤ size ∧ offset + size + 22 = archive.length ∧
      EndHeader.unpack (archive.drop (archive.length - 22)) = endHeader count size offset ∧
      verifyEocd archive offset count = ⟨[.eocdMissing], .ok none⟩ := by
  let record := (endHeader 0x4B50 0x200605 0x200000).pack
  let front : Bytes := List.replicate (0x200000 + 0x200605) 0
  have hrecord : record.length = 22 := rfl
  have hunpack : EndHeader.unpack record = endHeader 0x4B50 0x200605 0x200000 := by decide
  have hfront : front.length = 0x200000 + 0x200605 := List.length_replicate
  have hlength : (front ++ record).length = 0x200000 + 0x200605 + 22 := by
    rw [List.length_append, hfront, hrecord]
  have hfind : rfind eocdSignature record = some 10 := by decide
  refine ⟨front ++ record, 0x4B50, 0x200605, 0x200000, by decide, by decide, by decide, by decide,
    hlength.symm, ?_, verifyEocd_record hrecord hunpack hfront hfind⟩
  rw [hlength, Nat.add_sub_cancel, ← hfront, List.drop_left, hunpack]

end Release

end Oasi
