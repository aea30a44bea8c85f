import Oasi.Release.ArchiveChecks

/-! # Members that the checks pin down

An entry that passes every check has the records of a member: both headers follow from
the name, the data and the fields that no check compares. The loop over the local records
puts them one after the other, so an archive without reported errors is a layout.
-/

namespace Oasi

namespace Release

open Reported

variable {unicode : UnicodeData} {zlib : Zlib} {expected : Mapping} {archive : Bytes}

/-- What is known of the entry of a member whose local record starts at a cursor. -/
structure Pinned (unicode : UnicodeData) (zlib : Zlib) (expected : Mapping) (concat : Int)
    (cursor : Nat) (entry : CentralEntry) (member : Member) : Prop where
  unpinned : member.toUnpinned = entry.header.unpinned
  nameBytes : entry.nameBytes = member.nameBytes
  unpack_local : LocalHeader.unpack (member.localHeader zlib).pack = member.localHeader zlib
  unpack_central : CentralHeader.unpack entry.header.pack = entry.header
  centralHeader : entry.header = member.centralHeader unicode zlib (cursor - concat).toNat
  name : entry.info.filename = member.name
  nonempty : member.name ≠ []
  nonzero : '\x00' ∉ member.name
  decoded : decodeFilename member.flagBits member.nameBytes = .ok member.name
  listed : expected.lookup member.name = some ⟨(hexdigest member.data).toList, member.data.length⟩
  inflated : zlib.inflate zipDeflated (zlib.deflate member.data) member.data.length =
    .ok member.data

/-- The member of an entry and its data. -/
def CentralEntry.member (entry : CentralEntry) (data : Bytes) : Member where
  toUnpinned := entry.header.unpinned
  name := entry.info.filename
  data

/-- What the checks on one entry establish, with the bytes that were read. -/
structure SoundEntry (unicode : UnicodeData) (zlib : Zlib) (expected : Mapping) (archive : Bytes)
    (concat : Int) (cursor : Nat) (entry : CentralEntry) (endOffset : Int) (data : Bytes) :
    Prop where
  plain : entry.Plain concat
  offset : entry.info.headerOffset = cursor
  header : (slice archive cursor 30).length = 30
  checkedLocal : SoundLocal archive entry.info cursor (LocalHeader.unpack (slice archive cursor 30))
  checkedAttributes : SoundAttributes unicode entry.info
  checkedMember : ∃ listed, expected.lookup entry.info.filename = some listed ∧
    SoundMember zlib archive entry.info endOffset
      (some (cursor + 30 + (LocalHeader.unpack (slice archive cursor 30)).nameSize +
        (LocalHeader.unpack (slice archive cursor 30)).extraSize)) listed data
  fits : cursor + 30 + (LocalHeader.unpack (slice archive cursor 30)).nameSize +
    (LocalHeader.unpack (slice archive cursor 30)).extraSize + entry.info.compressSize ≤
      archive.length

namespace SoundEntry

variable {concat : Int} {cursor : Nat} {entry : CentralEntry} {endOffset : Int} {data : Bytes}

/-- The name of the local record is the name of the entry. -/
theorem name_eq (h : SoundEntry unicode zlib expected archive concat cursor entry endOffset data) :
    slice archive (cursor + 30) (LocalHeader.unpack (slice archive cursor 30)).nameSize =
        entry.nameBytes ∧
      entry.info.filename = entry.info.origFilename ∧
      decodeFilename entry.header.flagBits entry.nameBytes = .ok entry.info.filename := by
  obtain ⟨listed, _, hmember⟩ := h.checkedMember
  obtain ⟨start, hopen, _⟩ := bind_eq_ok.mp hmember.read
  obtain ⟨hdecoded, _⟩ := openMember_eq_ok hopen
  rw [h.offset, Int.toNat_natCast, h.checkedLocal.flags] at hdecoded
  have hflags : entry.info.flagBits = entry.header.flagBits := by
    rw [h.plain.info]
    rfl
  have hwhole : entry.info.filename = entry.info.origFilename := by
    apply filename_eq_of_decode _ h.checkedLocal.name hdecoded
    rw [h.plain.info]
    rfl
  have hbytes := rawName_of_decode hdecoded
  rw [hflags] at hdecoded hbytes
  refine ⟨hbytes.symm, hwhole, ?_⟩
  rw [CentralEntry.nameBytes, hbytes, hwhole]
  exact hdecoded

theorem flagBits_eq
    (h : SoundEntry unicode zlib expected archive concat cursor entry endOffset data) :
    entry.info.flagBits = entry.header.flagBits := by
  rw [h.plain.info]
  rfl

theorem nameBytes_eq
    (h : SoundEntry unicode zlib expected archive concat cursor entry endOffset data) :
    entry.nameBytes = (entry.member data).nameBytes := by
  rw [CentralEntry.nameBytes, ← h.name_eq.2.1]
  rfl

theorem nameSize_eq
    (h : SoundEntry unicode zlib expected archive concat cursor entry endOffset data) :
    (LocalHeader.unpack (slice archive cursor 30)).nameSize =
      (entry.member data).nameBytes.length := by
  have hfits := h.fits
  rw [← h.nameBytes_eq, ← h.name_eq.1, length_slice (by omega)]

/-- The data compress to the bytes behind the name, all of which are there. -/
theorem compressed_eq
    (h : SoundEntry unicode zlib expected archive concat cursor entry endOffset data) :
    slice archive (cursor + 30 + (entry.member data).nameBytes.length) entry.info.compressSize =
        zlib.deflate data ∧
      entry.info.compressSize = (zlib.deflate data).length := by
  obtain ⟨listed, _, hmember⟩ := h.checkedMember
  obtain ⟨offset, hoffset, hcompressed⟩ := hmember.compressed
  have hfits := h.fits
  cases hoffset
  rw [h.nameSize_eq, h.checkedLocal.extraSize, Nat.add_zero] at hcompressed hfits
  refine ⟨hcompressed, ?_⟩
  rw [← hcompressed, length_slice hfits]

theorem fileSize_eq
    (h : SoundEntry unicode zlib expected archive concat cursor entry endOffset data) :
    entry.info.fileSize = data.length := by
  obtain ⟨listed, _, hmember⟩ := h.checkedMember
  rw [hmember.fileSize, hmember.length]

theorem crc_eq
    (h : SoundEntry unicode zlib expected archive concat cursor entry endOffset data) :
    entry.info.crc = crc32 data := by
  obtain ⟨listed, _, hmember⟩ := h.checkedMember
  exact hmember.crc.symm

/-- Every field of the local header. -/
theorem localHeader_eq
    (h : SoundEntry unicode zlib expected archive concat cursor entry endOffset data) :
    LocalHeader.unpack (slice archive cursor 30) = (entry.member data).localHeader zlib := by
  apply LocalHeader.ext
  case signature => exact h.checkedLocal.signature
  case extractVersion => exact h.checkedLocal.extractVersion.1
  case flags => exact h.checkedLocal.flags.trans h.flagBits_eq
  case compression => exact h.checkedLocal.compression
  case modTime => exact h.checkedLocal.modTime
  case modDate => exact h.checkedLocal.modDate
  case crc32 => exact h.checkedLocal.crc32.trans h.crc_eq
  case compressedSize => exact h.checkedLocal.compressedSize.trans h.compressed_eq.2
  case fileSize => exact h.checkedLocal.fileSize.trans h.fileSize_eq
  case nameSize => exact h.nameSize_eq
  case extraSize => exact h.checkedLocal.extraSize

/-- Every field of the central header. -/
theorem centralHeader_eq
    (h : SoundEntry unicode zlib expected archive concat cursor entry endOffset data) :
    entry.header = (entry.member data).centralHeader unicode zlib (cursor - concat).toNat := by
  have hattributes := h.checkedAttributes
  have hinfo : entry.header.info concat entry.info.origFilename = entry.info := h.plain.info.symm
  have hdateTime : (entry.header.info concat entry.info.origFilename).dateTime =
      expectedTimestamp := (congrArg ZipInfo.dateTime hinfo).trans hattributes.dateTime
  injection hdateTime with hyear hmonth hday hhour hminute hsecond
  apply CentralHeader.ext
  case signature => exact h.plain.signature
  case createVersion =>
    exact (congrArg ZipInfo.createVersion hinfo).trans hattributes.createVersion
  case createSystem => exact (congrArg ZipInfo.createSystem hinfo).trans hattributes.createSystem
  case extractVersion =>
    exact (congrArg ZipInfo.extractVersion hinfo).trans h.checkedLocal.extractVersion.2
  case compressType => exact (congrArg ZipInfo.compressType hinfo).trans hattributes.compressType
  case time => exact time_eq hhour hminute hsecond
  case date => exact date_eq hyear hmonth hday
  case crc32 => exact (congrArg ZipInfo.crc hinfo).trans h.crc_eq
  case compressSize => exact (congrArg ZipInfo.compressSize hinfo).trans h.compressed_eq.2
  case fileSize => exact (congrArg ZipInfo.fileSize hinfo).trans h.fileSize_eq
  case internalAttr => exact (congrArg ZipInfo.internalAttr hinfo).trans hattributes.internalAttr
  case externalAttr =>
    have hexternal : entry.header.externalAttr = entry.info.externalAttr :=
      congrArg ZipInfo.externalAttr hinfo
    have hsize : entry.header.externalAttr < 2 ^ 32 := by
      rw [← h.plain.unpack_pack]
      exact field_lt _ 38 4
    exact hexternal.trans (externalAttr_eq (hexternal ▸ hsize) hattributes.kind hattributes.mode
      hattributes.dosAttributes)
  case headerOffset =>
    have hoffset : (entry.header.headerOffset : Int) + concat = cursor :=
      (congrArg ZipInfo.headerOffset hinfo).trans h.offset
    change entry.header.headerOffset = (cursor - concat).toNat
    omega
  -- The other fields are the ones that the member takes over.
  all_goals rfl

theorem localHeader_pack
    (h : SoundEntry unicode zlib expected archive concat cursor entry endOffset data) :
    ((entry.member data).localHeader zlib).pack = slice archive cursor 30 := by
  rw [← h.localHeader_eq, LocalHeader.pack_unpack h.header]

theorem length_localRecord
    (h : SoundEntry unicode zlib expected archive concat cursor entry endOffset data) :
    ((entry.member data).localRecord zlib).length =
      30 + ((entry.member data).nameBytes.length + entry.info.compressSize) := by
  rw [Member.localRecord, List.length_append, h.localHeader_pack, h.header, List.length_append,
    h.compressed_eq.2]
  rfl

/-- The local record stands at the cursor. -/
theorem drop_eq
    (h : SoundEntry unicode zlib expected archive concat cursor entry endOffset data) :
    archive.drop cursor = (entry.member data).localRecord zlib ++
      archive.drop (cursor + ((entry.member data).localRecord zlib).length) := by
  have hname := h.name_eq.1
  rw [h.nameSize_eq, h.nameBytes_eq] at hname
  calc
    archive.drop cursor = slice archive cursor 30 ++
        (slice archive (cursor + 30) (entry.member data).nameBytes.length ++
          (slice archive (cursor + 30 + (entry.member data).nameBytes.length)
            entry.info.compressSize ++
            archive.drop (cursor + 30 + (entry.member data).nameBytes.length +
              entry.info.compressSize))) := by
      rw [← drop_eq_slice_append, ← drop_eq_slice_append, ← drop_eq_slice_append]
    _ = _ := by
      rw [← h.localHeader_pack, hname, h.compressed_eq.1, h.length_localRecord,
        Member.localRecord, List.append_assoc, List.append_assoc, Nat.add_assoc cursor,
        Nat.add_assoc cursor, Nat.add_assoc 30]
      rfl

/-- The reader ends a name in front of a zero. -/
theorem nonzero (h : SoundEntry unicode zlib expected archive concat cursor entry endOffset data) :
    '\x00' ∉ entry.info.filename := by
  have hfilename : entry.info.filename = entry.info.origFilename.takeWhile (· ≠ '\x00') := by
    rw [h.plain.info]
    rfl
  intro hmem
  rw [hfilename] at hmem
  have hkept := List.all_eq_true.mp List.all_takeWhile _ hmem
  exact absurd rfl (of_decide_eq_true hkept)

/-- What was read is what the compressed data inflate to. -/
theorem inflate_eq
    (h : SoundEntry unicode zlib expected archive concat cursor entry endOffset data) :
    zlib.inflate zipDeflated (zlib.deflate data) data.length = .ok data := by
  obtain ⟨listed, _, hmember⟩ := h.checkedMember
  obtain ⟨start, hopen, hread⟩ := bind_eq_ok.mp hmember.read
  obtain ⟨_, hstart⟩ := openMember_eq_ok hopen
  obtain ⟨inflated, hinflated, hread⟩ := bind_eq_ok.mp hread
  obtain ⟨_, _, hread⟩ := bind_eq_ok.mp hread
  cases hread
  rw [h.offset, Int.toNat_natCast, h.name_eq.1, h.checkedLocal.extraSize, slice_zero,
    List.length_nil, Nat.add_zero, h.nameBytes_eq] at hstart
  rw [hstart, h.compressed_eq.1, h.checkedAttributes.compressType, h.fileSize_eq] at hinflated
  exact hinflated

/-- An entry that passes every check is pinned down. -/
theorem pinned
    (h : SoundEntry unicode zlib expected archive concat cursor entry endOffset data) :
    Pinned unicode zlib expected concat cursor entry (entry.member data) := by
  obtain ⟨listed, hlisted, hmember⟩ := h.checkedMember
  constructor
  case unpinned => rfl
  case nameBytes => exact h.nameBytes_eq
  case unpack_local => rw [h.localHeader_pack, h.localHeader_eq]
  case unpack_central => exact h.plain.unpack_pack
  case centralHeader => exact h.centralHeader_eq
  case name => rfl
  case nonempty =>
    have hportable := h.checkedAttributes.portable
    unfold validatePortableName at hportable
    simp only [bind_eq_ok, failIf_eq_ok, not_or] at hportable
    exact hportable.choose_spec.1.1
  case nonzero => exact h.nonzero
  case decoded =>
    rw [← h.nameBytes_eq]
    exact h.name_eq.2.2
  case listed =>
    change expected.lookup entry.info.filename = some ⟨(hexdigest data).toList, data.length⟩
    rw [hmember.length, hmember.sha256]
    exact hlisted
  case inflated => exact h.inflate_eq

end SoundEntry

/-! ## The loops over the entries -/

/-- Entries whose local records stand one after the other from a cursor on. -/
inductive PinnedRun (unicode : UnicodeData) (zlib : Zlib) (expected : Mapping) (concat : Int) :
    Nat → List CentralEntry → List Member → Prop where
  | nil (cursor : Nat) : PinnedRun unicode zlib expected concat cursor [] []
  | cons {cursor : Nat} {entry : CentralEntry} {member : Member} {entries : List CentralEntry}
      {members : List Member} (head : Pinned unicode zlib expected concat cursor entry member)
      (tail : PinnedRun unicode zlib expected concat (cursor + (member.localRecord zlib).length)
        entries members) :
      PinnedRun unicode zlib expected concat cursor (entry :: entries) (member :: members)

/-- A clean round of the loop over the local records. -/
theorem verifyLocalHeaders_cons {startDir : Nat} {cursor : Int} {info : ZipInfo}
    {infos : List ZipInfo} {offsets : List (Option Nat)}
    (h : (verifyLocalHeaders archive startDir cursor (info :: infos)).Clean offsets) :
    ∃ position : Nat, cursor = position ∧ info.headerOffset = position ∧
      (slice archive position 30).length = 30 ∧
      SoundLocal archive info position (LocalHeader.unpack (slice archive position 30)) ∧
      ∃ rest, offsets = some (position + 30 +
          (LocalHeader.unpack (slice archive position 30)).nameSize +
            (LocalHeader.unpack (slice archive position 30)).extraSize) :: rest ∧
        (verifyLocalHeaders archive startDir (position + 30 +
          (LocalHeader.unpack (slice archive position 30)).nameSize +
            (LocalHeader.unpack (slice archive position 30)).extraSize + info.compressSize : Nat)
          infos).Clean rest := by
  rw [verifyLocalHeaders] at h
  simp only [clean_bind, clean_noteIf, clean_ofExcept, failIf_eq_ok, not_not] at h
  obtain ⟨_, hcursor, _, hnonneg, h⟩ := h
  have hposition : info.headerOffset = info.headerOffset.toNat := by omega
  refine ⟨info.headerOffset.toNat, by omega, hposition, ?_⟩
  split at h
  next => simp [clean_bind] at h
  next hheader =>
    simp only [clean_bind, clean_pure] at h
    obtain ⟨_, hlocal, rest, hrest, hoffsets⟩ := h
    refine ⟨not_not.mp hheader, verifyLocalHeader_clean hlocal, rest, hoffsets.symm, ?_⟩
    exact_mod_cast hrest

theorem verifyLocalHeaders_le {startDir : Nat} {cursor : Int} {infos : List ZipInfo}
    {offsets : List (Option Nat)}
    (h : (verifyLocalHeaders archive startDir cursor infos).Clean offsets) : cursor ≤ startDir := by
  induction infos generalizing cursor offsets with
  | nil =>
      rw [verifyLocalHeaders] at h
      simp only [clean_bind, clean_noteIf, clean_pure, not_not] at h
      obtain ⟨_, hcursor, _⟩ := h
      omega
  | cons info infos ih =>
      obtain ⟨position, hcursor, _, _, _, rest, _, hrest⟩ := verifyLocalHeaders_cons h
      have hle := ih hrest
      omega

/-- A clean round of the loop over the entries, at a listed one. -/
theorem verifyEntries_cons {info : ZipInfo} {endOffset : Int} {dataOffset : Option Nat}
    {rest : List (ZipInfo × Int × Option Nat)} {listed : ExpectedFile}
    (hlisted : expected.lookup info.filename = some listed)
    (h : (verifyEntries unicode zlib archive expected
      ((info, endOffset, dataOffset) :: rest)).Clean ()) :
    SoundAttributes unicode info ∧
      (∃ data, SoundMember zlib archive info endOffset dataOffset listed data) ∧
      (verifyEntries unicode zlib archive expected rest).Clean () := by
  rw [verifyEntries, hlisted] at h
  simp only [clean_bind] at h
  obtain ⟨_, hattributes, _, hmember, hrest⟩ := h
  exact ⟨verifyAttributes_clean hattributes, verifyMember_clean hmember, hrest⟩

/-- Where both loops are clean, the local records fill the archive up to the directory. -/
theorem pinnedRun_of_clean {concat : Int} {startDir cursor : Nat}
    {bounded : List (ZipInfo × Int)} {entries : List CentralEntry} {offsets : List (Option Nat)}
    (hbounded : bounded.map Prod.fst = entries.map CentralEntry.info)
    (hlocals : (verifyLocalHeaders archive startDir cursor
      (entries.map CentralEntry.info)).Clean offsets)
    (hchecked : (verifyEntries unicode zlib archive expected ((bounded.zip offsets).map
      fun ((info, endOffset), offset) => (info, endOffset, offset))).Clean ())
    (hplain : ∀ entry ∈ entries, entry.Plain concat)
    (hlisted : ∀ entry ∈ entries, ∃ listed, expected.lookup entry.info.filename = some listed)
    (hend : startDir ≤ archive.length) :
    ∃ members, PinnedRun unicode zlib expected concat cursor entries members ∧
      (∀ member ∈ members, ∃ bounds ∈ bounded,
        readMember zlib archive bounds.1 bounds.2 = .ok member.data) ∧
      archive.drop cursor = localRecords zlib members ++ archive.drop startDir ∧
      cursor + (localRecords zlib members).length = startDir := by
  induction entries generalizing bounded cursor offsets with
  | nil =>
      rw [List.map_nil, verifyLocalHeaders] at hlocals
      simp only [clean_bind, clean_noteIf, clean_pure, not_not] at hlocals
      obtain ⟨_, hcursor, _⟩ := hlocals
      -- the check behind the loop: the cursor has reached the directory
      have hstart : cursor = startDir := by omega
      refine ⟨[], .nil cursor, by simp, ?_, hstart⟩
      rw [hstart]
      rfl
  | cons entry entries ih =>
      cases bounded with
      | nil => cases hbounded
      | cons bounds bounded =>
          obtain ⟨info, endOffset⟩ := bounds
          obtain ⟨rfl, htail⟩ := List.cons.inj hbounded
          obtain ⟨position, hcursor, hoffset, hheader, hlocal, rest, rfl, hrest⟩ :=
            verifyLocalHeaders_cons hlocals
          cases hcursor
          obtain ⟨listed, hlookup⟩ := hlisted entry List.mem_cons_self
          obtain ⟨hattributes, ⟨data, hmember⟩, hchecked⟩ := verifyEntries_cons hlookup hchecked
          have hle := verifyLocalHeaders_le hrest
          have h : SoundEntry unicode zlib expected archive concat cursor entry endOffset data := by
            exact ⟨hplain entry List.mem_cons_self, hoffset, hheader, hlocal, hattributes,
              ⟨listed, hlookup, hmember⟩, by omega⟩
          -- the verifier advances by the declared sizes, the layout by the length of the record
          have hnext : cursor + 30 + (LocalHeader.unpack (slice archive cursor 30)).nameSize +
              (LocalHeader.unpack (slice archive cursor 30)).extraSize + entry.info.compressSize =
                cursor + ((entry.member data).localRecord zlib).length := by
            rw [h.length_localRecord, h.nameSize_eq, hlocal.extraSize]
            omega
          rw [hnext] at hrest
          obtain ⟨members, hrun, hread, hdrop, htotal⟩ := ih htail hrest hchecked
            (fun other hother => hplain other (List.mem_cons_of_mem _ hother))
            (fun other hother => hlisted other (List.mem_cons_of_mem _ hother))
          refine ⟨entry.member data :: members, .cons h.pinned hrun, ?_, ?_, ?_⟩
          · intro member hmem
            rcases List.mem_cons.mp hmem with rfl | hmem
            · exact ⟨_, List.mem_cons_self, hmember.read⟩
            · obtain ⟨bounds, hbounds, hmemberRead⟩ := hread member hmem
              exact ⟨bounds, List.mem_cons_of_mem _ hbounds, hmemberRead⟩
          · rw [h.drop_eq, hdrop, localRecords, localRecords, List.flatMap_cons,
              List.append_assoc]
          · rw [localRecords, List.flatMap_cons, List.length_append, ← Nat.add_assoc]
            exact htotal

end Release

end Oasi
