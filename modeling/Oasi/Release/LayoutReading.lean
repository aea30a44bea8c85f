import Mathlib.Data.List.TakeWhile
import Mathlib.Tactic.IntervalCases
import Oasi.Release.AcceptedArchives

/-! # How a layout is read

The reader finds in a layout the entries of its members, and each member where its local
record was put. Only a last name of sixteen bytes can make the bytes in front of the end
record look like a ZIP64 locator.
-/

namespace Oasi

namespace Release

variable {unicode : UnicodeData} {zlib : Zlib} {expected : Mapping}

/-- A member with a portable name and listed data, whose records declare what they hold,
where its local record starts at a cursor. -/
structure Member.Sound (unicode : UnicodeData) (zlib : Zlib) (expected : Mapping) (cursor : Nat)
    (member : Member) : Prop where
  flags : hasOtherFlags member.flagBits = false
  nameLength : member.nameLength = member.nameBytes.length
  extraLength : member.extraLength = 0
  commentLength : member.commentLength = 0
  decoded : decodeFilename member.flagBits member.nameBytes = .ok member.name
  portable : validatePortableName unicode member.name = .ok ()
  listed : expected.lookup member.name = some ⟨(hexdigest member.data).toList, member.data.length⟩
  inflated : zlib.inflate zipDeflated (zlib.deflate member.data) member.data.length =
    .ok member.data
  fits_local : (member.localHeader zlib).Fits
  fits_central : (member.centralHeader unicode zlib cursor).Fits

/-- Members whose local records stand one after the other from a cursor on. -/
inductive SoundRun (unicode : UnicodeData) (zlib : Zlib) (expected : Mapping) :
    Nat → List Member → Prop where
  | nil (cursor : Nat) : SoundRun unicode zlib expected cursor []
  | cons {cursor : Nat} {member : Member} {members : List Member}
      (head : member.Sound unicode zlib expected cursor)
      (tail : SoundRun unicode zlib expected (cursor + (member.localRecord zlib).length) members) :
      SoundRun unicode zlib expected cursor (member :: members)

/-- The entry of a member. -/
def Member.centralEntry (unicode : UnicodeData) (zlib : Zlib) (cursor : Nat) (member : Member) :
    CentralEntry where
  header := member.centralHeader unicode zlib cursor
  info := (member.centralHeader unicode zlib cursor).info 0 member.name

/-- The entries of members whose local records start at a cursor. -/
def centralEntries (unicode : UnicodeData) (zlib : Zlib) : Nat → List Member → List CentralEntry
  | _, [] => []
  | cursor, member :: members =>
      member.centralEntry unicode zlib cursor ::
        centralEntries unicode zlib (cursor + (member.localRecord zlib).length) members

/-! ## Names -/

/-- Neither decoding makes a control character vanish. -/
theorem control_of_decode {flags : Nat} {bytes : Bytes} {name : Text} {byte : UInt8}
    (h : decodeFilename flags bytes = .ok name) (hbyte : byte ∈ bytes) (hlow : byte.toNat < 32) :
    ∃ char ∈ name, char.toNat < 32 := by
  unfold decodeFilename at h
  split at h
  next =>
    split at h
    next => cases h
    next text htext =>
      rw [← fromUtf8_eq_some.mp htext, utf8_eq_encode] at hbyte
      cases h
      obtain ⟨char, hchar, hmem⟩ := List.mem_flatMap.mp hbyte
      by_cases hascii : char.toNat < 128
      · rw [utf8EncodeChar_ascii hascii, List.mem_singleton] at hmem
        have hcode : byte.toNat = char.toNat % 256 := by rw [hmem, UInt8.toNat_ofNat']
        exact ⟨char, hchar, by omega⟩
      · have hhigh := utf8EncodeChar_nonascii (Nat.not_lt.mp hascii) hmem
        rw [UInt8.le_iff_toNat_le] at hhigh
        change 128 ≤ byte.toNat at hhigh
        omega
  next =>
    cases h
    refine ⟨cp437Char byte, List.mem_map_of_mem hbyte, ?_⟩
    rw [cp437Char, if_pos (by omega), toNat_charOfNat (by omega)]
    exact hlow

namespace Member.Sound

variable {cursor : Nat} {member : Member}

theorem printable (h : member.Sound unicode zlib expected cursor) :
    ∀ byte ∈ member.nameBytes, 32 ≤ byte.toNat := by
  intro byte hbyte
  by_contra hlow
  obtain ⟨char, hchar, hcontrol⟩ := control_of_decode h.decoded hbyte (Nat.not_le.mp hlow)
  have hprintable := (portableName_of_validate h.portable).printable char hchar
  omega

theorem nameBytes_ne_nil (h : member.Sound unicode zlib expected cursor) :
    member.nameBytes ≠ [] := by
  intro hnil
  have hdecoded := h.decoded
  rw [hnil, decodeFilename_nil] at hdecoded
  exact (portableName_of_validate h.portable).nonempty (Except.ok.inj hdecoded).symm

/-- No name is cut at a zero. -/
theorem takeWhile_name (h : member.Sound unicode zlib expected cursor) :
    member.name.takeWhile (· ≠ '\x00') = member.name := by
  have hprintable := (portableName_of_validate h.portable).printable
  refine List.takeWhile_eq_self_iff.mpr fun char hchar => decide_eq_true ?_
  rintro rfl
  exact absurd (hprintable _ hchar) (by decide)

theorem length_localRecord (member : Member) :
    (member.localRecord zlib).length =
      30 + (member.nameBytes.length + (zlib.deflate member.data).length) := by
  rw [Member.localRecord, List.length_append, LocalHeader.length_pack rfl, List.length_append]

theorem length_centralRecord (member : Member) (headerOffset : Nat) :
    (member.centralRecord unicode zlib headerOffset).length = 46 + member.nameBytes.length := by
  rw [Member.centralRecord, List.length_append, CentralHeader.length_pack rfl]

end Member.Sound

/-! ## The directory -/

theorem centralRecords_cons (cursor : Nat) (member : Member) (members : List Member) :
    centralRecords unicode zlib 0 cursor (member :: members) =
      (member.centralHeader unicode zlib cursor).pack ++ (member.nameBytes ++
        centralRecords unicode zlib 0 (cursor + (member.localRecord zlib).length) members) := by
  rw [centralRecords, Member.centralRecord, List.append_assoc, Int.sub_zero, Int.toNat_natCast]

/-- One entry is read off the front of the directory. -/
theorem readEntries_cons {cursor size fuel total : Nat} {member : Member} {rest : Bytes}
    {entries : List CentralEntry} (h : member.Sound unicode zlib expected cursor)
    (hmore : total < size)
    (hrest : readEntries 0 size fuel (total + (46 + member.nameBytes.length)) rest = .ok entries) :
    readEntries 0 size (fuel + 1) total
      ((member.centralHeader unicode zlib cursor).pack ++ (member.nameBytes ++ rest)) =
        .ok (member.centralEntry unicode zlib cursor :: entries) := by
  let header := member.centralHeader unicode zlib cursor
  have hlength : header.pack.length = 46 := CentralHeader.length_pack rfl
  have hunpack : CentralHeader.unpack header.pack = header :=
    CentralHeader.unpack_pack rfl h.fits_central
  have hname : slice (header.pack ++ (member.nameBytes ++ rest)) 46 member.nameBytes.length =
      member.nameBytes := by
    rw [← hlength, slice_append]
  have hdrop : (header.pack ++ (member.nameBytes ++ rest)).drop (46 + member.nameBytes.length) =
      rest := by
    rw [← hlength, ← List.drop_drop, List.drop_left, List.drop_left]
  have hnameLength : header.nameLength = member.nameBytes.length := h.nameLength
  have hextraLength : header.extraLength = 0 := h.extraLength
  have hcommentLength : header.commentLength = 0 := h.commentLength
  have hdecoded : decodeFilename header.flagBits member.nameBytes = .ok member.name := h.decoded
  have hsignature : header.signature = centralSignature := rfl
  have hversion : header.extractVersion = 20 := rfl
  change readEntries 0 size (fuel + 1) total (header.pack ++ (member.nameBytes ++ rest)) =
    .ok (⟨header, header.info 0 member.name⟩ :: entries)
  clear_value header
  rw [readEntries, if_neg (Nat.not_le.mpr hmore)]
  dsimp only
  rw [List.take_left' hlength, hunpack, hsignature, hlength]
  simp only [hnameLength, hextraLength, hcommentLength, hname, hdecoded, slice_zero, Nat.add_zero,
    hdrop, hrest, hversion]
  rfl

/-- The directory of sound members is read as their entries. -/
theorem readEntries_centralRecords {cursor size fuel total : Nat} {members : List Member}
    (h : SoundRun unicode zlib expected cursor members)
    (hsize : total + (centralRecords unicode zlib 0 cursor members).length = size)
    (hfuel : members.length ≤ fuel) :
    readEntries 0 size fuel total (centralRecords unicode zlib 0 cursor members) =
      .ok (centralEntries unicode zlib cursor members) := by
  induction h generalizing fuel total with
  | nil cursor => exact readEntries_done (by simp [centralRecords] at hsize; omega)
  | @cons cursor member members head tail ih =>
      cases fuel with
      | zero => cases hfuel
      | succ fuel =>
          rw [centralRecords_cons] at hsize ⊢
          rw [List.length_append, CentralHeader.length_pack rfl, List.length_append] at hsize
          exact readEntries_cons head (by omega)
            (ih (by omega) (Nat.le_of_succ_le_succ hfuel))

/-! ## The end record -/

/-- The archive of members whose directory nothing stands behind but the end record. -/
def plainLayout (unicode : UnicodeData) (zlib : Zlib) (members : List Member) : Bytes :=
  layout unicode zlib members []

/-- The last name has sixteen bytes, and the offset of its local record in front of it is
the signature of a ZIP64 locator. -/
def EndsInLocator (zlib : Zlib) (members : List Member) : Prop :=
  ∃ last ∈ members.getLast?, last.nameBytes.length = 16 ∧
    leBytes 4 (localRecords zlib members.dropLast).length = locator64Signature

/-- The bytes of a central header from the high half of the file size on. -/
def Member.headerTail (unicode : UnicodeData) (cursor : Nat) (member : Member) : Bytes :=
  [UInt8.ofNat (member.data.length / 256 / 256), UInt8.ofNat (member.data.length / 256 / 256 / 256),
    UInt8.ofNat member.nameBytes.length, UInt8.ofNat (member.nameBytes.length / 256), 0, 0, 0, 0,
    UInt8.ofNat member.volume, UInt8.ofNat (member.volume / 256), 0, 0, 0, 0,
    UInt8.ofNat (canonicalMode unicode member.name), 0x81] ++ leBytes 4 cursor

theorem leBytes_externalAttr (name : Text) :
    leBytes 4 ((0o100000 ||| canonicalMode unicode name) <<< 16) =
      [0, 0, UInt8.ofNat (canonicalMode unicode name), 0x81] := by
  rcases ite_eq_or_eq (unicode.lower (pathSuffix name) ∈ executableSuffixes) 0o755 0o644
    with hmode | hmode
  all_goals
    rw [canonicalMode, hmode]
    decide

theorem drop_centralHeader {cursor : Nat} {member : Member}
    (h : member.Sound unicode zlib expected cursor) :
    ((member.centralHeader unicode zlib cursor).pack ++ member.nameBytes).drop 26 =
      member.headerTail unicode cursor ++ member.nameBytes := by
  rw [CentralHeader.pack]
  simp only [Member.centralHeader, h.nameLength, h.extraLength, h.commentLength,
    leBytes_externalAttr, Member.headerTail]
  simp only [leBytes, centralSignature, List.cons_append, List.nil_append, List.drop_succ_cons,
    List.drop_zero]
  rfl

/-- A locator that reaches into the name would put a control character there, and one that
starts in front of the offset would differ from the bytes that every header has. -/
theorem locator_headerTail {cursor : Nat} {member : Member}
    (h : member.Sound unicode zlib expected cursor) :
    ((member.headerTail unicode cursor ++ member.nameBytes).drop member.nameBytes.length).take 4 =
        locator64Signature ↔
      member.nameBytes.length = 16 ∧ leBytes 4 cursor = locator64Signature := by
  have hlength : (member.headerTail unicode cursor).length = 20 := rfl
  have hmode : UInt8.ofNat (canonicalMode unicode member.name) ≠ 80 := by
    rcases ite_eq_or_eq (unicode.lower (pathSuffix member.name) ∈ executableSuffixes) 0o755 0o644
      with hmode | hmode
    all_goals
      rw [canonicalMode, hmode]
      decide
  have hpositive := List.length_pos_of_ne_nil h.nameBytes_ne_nil
  rcases Nat.lt_trichotomy member.nameBytes.length 16 with hshort | hsixteen | hlong
  · refine ⟨fun hlocator => ?_, fun hlocator => by omega⟩
    exfalso
    generalize hn : member.nameBytes.length = n at *
    rw [Member.headerTail, hn] at hlocator
    interval_cases n <;> simp [locator64Signature, hmode] at hlocator
  · have hdrop : (member.headerTail unicode cursor ++ member.nameBytes).drop 16 =
        leBytes 4 cursor ++ member.nameBytes := rfl
    rw [hsixteen, hdrop, List.take_left' (length_leBytes 4 cursor)]
    simp
  · refine ⟨fun hlocator => ?_, fun hlocator => by omega⟩
    exfalso
    have hlast : ((member.headerTail unicode cursor ++ member.nameBytes).drop
        member.nameBytes.length)[3]? = some 7 := by
      rw [← List.getElem?_take_of_lt (by decide : 3 < 4), hlocator]
      rfl
    rw [List.getElem?_drop, List.getElem?_append_right (by omega)] at hlast
    have hprintable := h.printable 7 (List.mem_of_getElem? hlast)
    exact absurd hprintable (by decide)

/-! ## The last member -/

theorem localRecords_append (first second : List Member) :
    localRecords zlib (first ++ second) = localRecords zlib first ++ localRecords zlib second :=
  List.flatMap_append

theorem centralRecords_append (cursor : Nat) (first second : List Member) :
    centralRecords unicode zlib 0 cursor (first ++ second) =
      centralRecords unicode zlib 0 cursor first ++
        centralRecords unicode zlib 0 (cursor + (localRecords zlib first).length) second := by
  induction first generalizing cursor with
  | nil => rfl
  | cons member first ih =>
      rw [List.cons_append, centralRecords, ih, centralRecords, List.append_assoc, localRecords,
        localRecords, List.flatMap_cons, List.length_append, Nat.add_assoc]

theorem SoundRun.last {cursor : Nat} {members : List Member} {member : Member}
    (h : SoundRun unicode zlib expected cursor (members ++ [member])) :
    member.Sound unicode zlib expected (cursor + (localRecords zlib members).length) := by
  induction members generalizing cursor with
  | nil =>
      cases h with
      | cons head tail => exact head
  | cons first members ih =>
      cases h with
      | cons head tail =>
          rw [localRecords, List.flatMap_cons, List.length_append, ← Nat.add_assoc]
          exact ih tail

/-- Where the bytes in front of the end record stand, and what a locator there would be. -/
theorem locator_plainLayout {members : List Member} {last : Member} {rest : Bytes}
    (h : SoundRun unicode zlib expected 0 (members ++ [last])) :
    slice (localRecords zlib (members ++ [last]) ++
        (centralRecords unicode zlib 0 0 (members ++ [last]) ++ rest))
      ((localRecords zlib (members ++ [last])).length +
        (centralRecords unicode zlib 0 0 (members ++ [last])).length - 20) 20 =
      (last.headerTail unicode (localRecords zlib members).length ++ last.nameBytes).drop
        last.nameBytes.length := by
  have hlast := h.last
  rw [Nat.zero_add] at hlast
  obtain ⟨record, hrecord⟩ : ∃ record, record =
      (last.centralHeader unicode zlib (localRecords zlib members).length).pack ++
        last.nameBytes := ⟨_, rfl⟩
  have hlength : record.length = 46 + last.nameBytes.length := by
    rw [hrecord, List.length_append, CentralHeader.length_pack rfl]
  have hdirectory : centralRecords unicode zlib 0 0 (members ++ [last]) =
      centralRecords unicode zlib 0 0 members ++ record := by
    rw [centralRecords_append, Nat.zero_add, centralRecords_cons, centralRecords, List.append_nil,
      hrecord]
  obtain ⟨front, hfront⟩ : ∃ front, front =
      localRecords zlib (members ++ [last]) ++ centralRecords unicode zlib 0 0 members := ⟨_, rfl⟩
  have harchive : localRecords zlib (members ++ [last]) ++
      (centralRecords unicode zlib 0 0 (members ++ [last]) ++ rest) =
        front ++ (record ++ rest) := by
    rw [hdirectory, hfront, List.append_assoc, List.append_assoc]
  have hposition : (localRecords zlib (members ++ [last])).length +
      (centralRecords unicode zlib 0 0 (members ++ [last])).length - 20 =
        front.length + (26 + last.nameBytes.length) := by
    rw [hdirectory, hfront, List.length_append, List.length_append, hlength]
    omega
  have htail : (last.headerTail unicode (localRecords zlib members).length).length = 20 := rfl
  rw [hposition, harchive, slice, ← List.drop_drop, List.drop_left,
    List.drop_append_of_le_length (by omega), hrecord, ← List.drop_drop, drop_centralHeader hlast]
  refine List.take_left' ?_
  rw [List.length_drop, List.length_append, htail]
  omega

/-! ## Opening -/

theorem plainLayout_eq (members : List Member) :
    plainLayout unicode zlib members = localRecords zlib members ++
      (centralRecords unicode zlib 0 0 members ++
        (endHeader members.length (centralRecords unicode zlib 0 0 members).length
          (localRecords zlib members).length).pack) := by
  rw [plainLayout, layout, blockShift, if_pos rfl, List.nil_append, List.length_nil, Nat.add_zero]

theorem length_plainLayout (members : List Member) :
    (plainLayout unicode zlib members).length = (localRecords zlib members).length +
      (centralRecords unicode zlib 0 0 members).length + 22 := by
  rw [plainLayout_eq, List.length_append, List.length_append, EndHeader.length_pack rfl,
    Nat.add_assoc]

theorem endHeader_plainLayout {members : List Member}
    (hfits : (endHeader members.length (centralRecords unicode zlib 0 0 members).length
      (localRecords zlib members).length).Fits) :
    EndHeader.unpack ((plainLayout unicode zlib members).drop
        ((plainLayout unicode zlib members).length - 22)) =
      endHeader members.length (centralRecords unicode zlib 0 0 members).length
        (localRecords zlib members).length := by
  rw [length_plainLayout, Nat.add_sub_cancel, plainLayout_eq, ← List.drop_drop, List.drop_left,
    List.drop_left, EndHeader.unpack_pack rfl hfits]

/-- The number of disks of a locator stands in the name. -/
theorem field_locator_ne_zero {cursor : Nat} {member : Member}
    (h : member.Sound unicode zlib expected cursor) :
    field ((member.headerTail unicode cursor ++ member.nameBytes).drop 16) 4 4 ≠ 0 := by
  have hdrop : (member.headerTail unicode cursor ++ member.nameBytes).drop 16 =
      leBytes 4 cursor ++ member.nameBytes := rfl
  rw [hdrop, field_skip (length_leBytes 4 cursor).le, length_leBytes, Nat.sub_self]
  cases hname : member.nameBytes with
  | nil => exact absurd hname h.nameBytes_ne_nil
  | cons byte rest =>
      have hprintable := h.printable byte (by rw [hname]; exact List.mem_cons_self)
      change byte.toNat + 256 * leValue (rest.take 3) ≠ 0
      omega

/-- The end record of a layout is overridden by nothing, unless the layout ends in a locator:
then it states a number of disks that is not zero. -/
theorem endRecData64_plainLayout {members : List Member} {record : EndRecord}
    (h : SoundRun unicode zlib expected 0 members)
    (hlocation : record.location = (localRecords zlib members).length +
      (centralRecords unicode zlib 0 0 members).length) :
    (¬EndsInLocator zlib members →
        endRecData64 (plainLayout unicode zlib members) record = .ok record) ∧
      (EndsInLocator zlib members →
        endRecData64 (plainLayout unicode zlib members) record = .error .badZipFile) := by
  rcases List.eq_nil_or_concat' members with rfl | ⟨front, last, rfl⟩
  · have hshort : record.location < 20 := by
      rw [hlocation]
      exact Nat.zero_lt_succ 19
    refine ⟨fun _ => by rw [endRecData64, if_pos hshort], ?_⟩
    rintro ⟨_, hlast, _⟩
    cases hlast
  · have hlast := h.last
    rw [Nat.zero_add] at hlast
    have hlong : ¬record.location < 20 := by
      rw [hlocation, centralRecords_append, List.length_append, Nat.zero_add, centralRecords_cons,
        List.length_append, CentralHeader.length_pack rfl]
      omega
    have hlocator := @locator_plainLayout unicode zlib expected front last
      (endHeader (front ++ [last]).length (centralRecords unicode zlib 0 0 (front ++ [last])).length
        (localRecords zlib (front ++ [last])).length).pack h
    rw [← plainLayout_eq, ← hlocation] at hlocator
    have hlength : ((last.headerTail unicode (localRecords zlib front).length ++
        last.nameBytes).drop last.nameBytes.length).length = 20 := by
      rw [List.length_drop, List.length_append, Nat.add_sub_cancel]
      rfl
    have hends : EndsInLocator zlib (front ++ [last]) ↔ last.nameBytes.length = 16 ∧
        leBytes 4 (localRecords zlib front).length = locator64Signature := by
      simp [EndsInLocator]
    rw [hends, ← locator_headerTail hlast, endRecData64, if_neg hlong, hlocator]
    dsimp only
    constructor
    · intro hother
      rw [if_pos (.inr hother)]
    · intro hsignature
      have hsixteen := ((locator_headerTail hlast).mp hsignature).1
      have hdisks := @field_locator_ne_zero _ _ _ (localRecords zlib front).length _ hlast
      rw [if_neg (by simp [hlength, hsignature]), if_pos (.inl (hsixteen ▸ hdisks))]

/-- What the reader makes of a layout. -/
def layoutZip (unicode : UnicodeData) (zlib : Zlib) (members : List Member) : ZipFile where
  record := {
    zip64 := false
    size := (centralRecords unicode zlib 0 0 members).length
    offset := (localRecords zlib members).length
    comment := []
    location := (localRecords zlib members).length +
      (centralRecords unicode zlib 0 0 members).length }
  startDir := (localRecords zlib members).length
  entries := centralEntries unicode zlib 0 members

theorem length_le_centralRecords {shift : Int} (cursor : Nat) (members : List Member) :
    members.length ≤ (centralRecords unicode zlib shift cursor members).length := by
  induction members generalizing cursor with
  | nil => exact Nat.le_refl 0
  | cons member members ih =>
      rw [centralRecords, List.length_append, Member.Sound.length_centralRecord, List.length_cons]
      have hrest := ih (cursor + (member.localRecord zlib).length)
      omega

/-- A layout of sound members is opened, unless it ends in a locator. -/
theorem openZip_plainLayout {members : List Member}
    (h : SoundRun unicode zlib expected 0 members)
    (hfits : (endHeader members.length (centralRecords unicode zlib 0 0 members).length
      (localRecords zlib members).length).Fits) :
    (¬EndsInLocator zlib members →
        openZip (plainLayout unicode zlib members) = .ok (layoutZip unicode zlib members)) ∧
      (EndsInLocator zlib members →
        openZip (plainLayout unicode zlib members) = .error .badZipFile) := by
  have hlength := @length_plainLayout unicode zlib members
  have hrecord := endRecData_of_endHeader (by omega) (endHeader_plainLayout hfits)
  obtain ⟨hplain, hlocator⟩ := @endRecData64_plainLayout unicode zlib expected members
    (layoutZip unicode zlib members).record h rfl
  rw [hlength, Nat.add_sub_cancel] at hrecord
  have hsame : (layoutZip unicode zlib members).record =
    ⟨false, (centralRecords unicode zlib 0 0 members).length,
      (localRecords zlib members).length, [],
      (localRecords zlib members).length + (centralRecords unicode zlib 0 0 members).length⟩ := rfl
  rw [← hsame] at hrecord
  constructor
  · intro hends
    rw [hplain hends] at hrecord
    have hconcat : (layoutZip unicode zlib members).record.concat = 0 := by
      simp [EndRecord.concat, layoutZip]
    have hslice : slice (plainLayout unicode zlib members)
        (layoutZip unicode zlib members).record.offset
        (layoutZip unicode zlib members).record.size = centralRecords unicode zlib 0 0 members := by
      rw [plainLayout_eq]
      exact slice_append _ _ _
    have hentries : readEntries 0 (layoutZip unicode zlib members).record.size
        (centralRecords unicode zlib 0 0 members).length 0
        (centralRecords unicode zlib 0 0 members) =
          .ok (centralEntries unicode zlib 0 members) :=
      readEntries_centralRecords h (Nat.zero_add _) (length_le_centralRecords 0 members)
    rw [openZip, hrecord]
    simp only [Except.map, Except.mapError, ok_bind, hconcat, Int.add_zero, Int.toNat_natCast]
    rw [failIf, if_neg (by omega), ok_bind]
    rw [hslice, hentries]
    rfl
  · intro hends
    rw [hlocator hends] at hrecord
    rw [openZip, hrecord]
    rfl

end Release

end Oasi
