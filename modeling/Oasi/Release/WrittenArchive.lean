import Oasi.Release.AllowlistCanonical
import Oasi.Release.ArchiveWriter
import Oasi.Release.LayoutReading

/-! # What the builder writes

The records of the writer are those of the layout, with the flag of a name that is not
ASCII and nothing in front of the end record. The writer gives up before a number
outgrows its field, so what it returns is the layout of sound members.
-/

namespace Oasi

namespace Release

variable {unicode : UnicodeData} {zlib : Zlib} {source : Source} {expected : Mapping}

/-- The member that the writer makes of a name and data. -/
def Member.written (name : Text) (data : Bytes) : Member where
  flagBits := if isAscii name = true then 0 else 0x800
  reserved := 0
  volume := 0
  nameLength := (encode name).length
  extraLength := 0
  commentLength := 0
  name
  data

/-- The entry that the writer keeps of a member. -/
def Member.entry (unicode : UnicodeData) (zlib : Zlib) (member : Member) (headerOffset : Nat) :
    ZipInfo where
  origFilename := member.name
  filename := member.name
  dateTime := expectedTimestamp
  compressType := zipDeflated
  comment := []
  extra := []
  createSystem := 3
  createVersion := 20
  extractVersion := 20
  reserved := 0
  -- the flag of the name is added where a header is packed
  flagBits := 0
  volume := 0
  internalAttr := 0
  externalAttr := (0o100000 ||| canonicalMode unicode member.name) <<< 16
  headerOffset
  crc := crc32 member.data
  compressSize := (zlib.deflate member.data).length
  fileSize := member.data.length

/-- The entries of members whose records start at a cursor. -/
def entriesFrom (unicode : UnicodeData) (zlib : Zlib) : Nat → List Member → List ZipInfo
  | _, [] => []
  | cursor, member :: members =>
      member.entry unicode zlib cursor ::
        entriesFrom unicode zlib (cursor + (member.localRecord zlib).length) members

/-! ## Names -/

theorem isAscii_iff {name : Text} : isAscii name = true ↔ ∀ char ∈ name, char.toNat < 128 := by
  simp [isAscii]

theorem cp437Encode_ascii {name : Text} (h : isAscii name = true) :
    cp437Encode name = some (encode name) := by
  rw [isAscii_iff] at h
  rw [encode, flatMap_utf8EncodeChar_ascii h, cp437Encode]
  induction name with
  | nil => rfl
  | cons char rest ih =>
      obtain ⟨hchar, hrest⟩ := List.forall_mem_cons.mp h
      rw [List.mapM_cons, ih hrest, cp437Byte, if_pos hchar]
      rfl

theorem cp437Decode_ascii {name : Text} (h : isAscii name = true) :
    cp437Decode (encode name) = name := by
  rw [isAscii_iff] at h
  rw [encode, flatMap_utf8EncodeChar_ascii h, cp437Decode, List.map_map]
  conv_rhs => rw [← List.map_id name]
  refine List.map_congr_left fun char hchar => ?_
  have hcode : (UInt8.ofNat char.toNat).toNat = char.toNat := by
    have hlow := h char hchar
    rw [UInt8.toNat_ofNat', Nat.mod_eq_of_lt (by omega)]
  rw [Function.comp_apply, cp437Char, hcode, if_pos (h char hchar), Char.ofNat_toNat, id_eq]

namespace Member

theorem nameBytes_written (name : Text) (data : Bytes) :
    (written name data).nameBytes = encode name := by
  by_cases hascii : isAscii name = true
  · rw [nameBytes, rawName, written]
    dsimp only
    rw [if_pos hascii, if_neg (by decide), cp437Encode_ascii hascii]
    rfl
  · rw [nameBytes, rawName, written]
    dsimp only
    rw [if_neg hascii, if_pos (by decide)]

theorem decoded_written (name : Text) (data : Bytes) :
    decodeFilename (written name data).flagBits (written name data).nameBytes = .ok name := by
  rw [nameBytes_written, written]
  dsimp only
  by_cases hascii : isAscii name = true
  · rw [if_pos hascii, decodeFilename, if_neg (by decide), cp437Decode_ascii hascii]
  · have hdecoded : fromUtf8 (encode name) = some (String.ofList name) := by
      rw [fromUtf8_eq_some, utf8_eq_encode, String.toList_ofList]
    rw [if_neg hascii, decodeFilename, if_pos (by decide), hdecoded]
    dsimp only
    rw [String.toList_ofList]

/-- The bytes and the flag under which a name is packed. -/
theorem encodeFilenameFlags_entry (name : Text) (data : Bytes) (headerOffset : Nat) :
    encodeFilenameFlags ((written name data).entry unicode zlib headerOffset) =
      ((written name data).nameBytes, (written name data).flagBits) := by
  have hname : ((written name data).entry unicode zlib headerOffset).filename = name := rfl
  have hflags : ((written name data).entry unicode zlib headerOffset).flagBits = 0 := rfl
  have hwritten : (written name data).flagBits = if isAscii name = true then 0 else 0x800 := rfl
  rw [nameBytes_written, encodeFilenameFlags, hname, hflags, hwritten]
  by_cases hascii : isAscii name = true
  · rw [if_pos hascii, if_pos hascii, encode, flatMap_utf8EncodeChar_ascii (isAscii_iff.mp hascii)]
  · rw [if_neg hascii, if_neg hascii, Nat.zero_or]

/-! ## Records -/

/-- The local header of the writer is that of the layout. -/
theorem fileHeader_entry (name : Text) (data : Bytes) (headerOffset : Nat) :
    fileHeader ((written name data).entry unicode zlib headerOffset) =
      packed ((written name data).localHeader zlib).Fits
        (((written name data).localHeader zlib).pack ++ (written name data).nameBytes) := by
  unfold fileHeader
  rw [encodeFilenameFlags_entry]
  dsimp only
  rw [show ((written name data).entry unicode zlib headerOffset).extra = [] from rfl,
    List.append_nil]
  rfl

/-- Before the data are compressed the header is packed without their checksum and size. -/
theorem fileHeader_opened {name : Text} {data : Bytes} {headerOffset : Nat}
    (h : ((written name data).localHeader zlib).Fits) :
    ∃ header, fileHeader { (written name data).entry unicode zlib headerOffset with
      crc := 0
      compressSize := 0 } = .ok header := by
  have hname := @encodeFilenameFlags_entry unicode zlib name data headerOffset
  have hfits : LocalHeader.Fits { (written name data).localHeader zlib with
      crc32 := 0
      compressedSize := 0 } := by
    obtain ⟨hshort, hlong⟩ := h
    refine ⟨hshort, ?_⟩
    simp only [List.forall_mem_cons] at hlong ⊢
    exact ⟨by decide, by decide, hlong.2.2⟩
  unfold fileHeader
  rw [show encodeFilenameFlags { (written name data).entry unicode zlib headerOffset with
    crc := 0
    compressSize := 0 } = encodeFilenameFlags ((written name data).entry unicode zlib headerOffset)
      from rfl, hname]
  exact ⟨_, if_pos hfits⟩

/-- The central header, where no number needs a ZIP64 field. -/
theorem centralDirectoryRecord_entry {name : Text} {data : Bytes} {headerOffset : Nat}
    (hdata : data.length ≤ zip64Limit) (hcompressed : (zlib.deflate data).length ≤ zip64Limit)
    (hoffset : headerOffset ≤ zip64Limit) :
    centralDirectoryRecord ((written name data).entry unicode zlib headerOffset) =
      packed ((written name data).centralHeader unicode zlib headerOffset).Fits
        ((written name data).centralRecord unicode zlib headerOffset) := by
  have hfileSize : ((written name data).entry unicode zlib headerOffset).fileSize = data.length :=
    rfl
  have hcompressSize : ((written name data).entry unicode zlib headerOffset).compressSize =
    (zlib.deflate data).length := rfl
  have hheaderOffset : ((written name data).entry unicode zlib headerOffset).headerOffset =
    (headerOffset : Int) := rfl
  have hsizes : ¬(zip64Limit < data.length ∨ zip64Limit < (zlib.deflate data).length) := by omega
  have hposition : ¬(zip64Limit : Int) < headerOffset := by omega
  have hfields : zip64Fields ((written name data).entry unicode zlib headerOffset) = [] := by
    rw [zip64Fields, hfileSize, hcompressSize, hheaderOffset, if_neg hsizes, if_neg hposition]
    rfl
  have hextra : ((written name data).entry unicode zlib headerOffset).extra = [] := rfl
  have hcomment : ((written name data).entry unicode zlib headerOffset).comment = [] := rfl
  unfold centralDirectoryRecord
  rw [encodeFilenameFlags_entry, hfields]
  dsimp only
  rw [if_pos rfl, if_pos rfl, hfileSize, hcompressSize, hheaderOffset, hextra, hcomment,
    decide_eq_false hsizes, if_neg hposition, Int.toNat_natCast, List.append_nil, List.append_nil]
  rw [show (written name data).nameBytes.length = (written name data).nameLength from
    congrArg List.length (nameBytes_written name data)]
  rfl

end Member

theorem packed_eq_ok {fits : Prop} [Decidable fits] {bytes result : Bytes} :
    packed fits bytes = .ok result ↔ fits ∧ bytes = result := by
  by_cases h : fits <;> simp [packed, h]

/-! ## The member of a file -/

/-- What stands in front of a name in a path does not change the suffix. -/
theorem pathSuffix_below {root relative : Text} (h : PortableName relative) :
    pathSuffix (root ++ '/' :: relative) = pathSuffix relative := by
  have hkept : ((relative.splitOn '/').filter fun part => part ≠ [] ∧ part ≠ ['.']) =
      relative.splitOn '/' := by
    refine List.filter_eq_self.mpr fun part hpart => decide_eq_true ?_
    obtain ⟨hempty, hdot, _⟩ := h.components part hpart
    exact ⟨hempty, hdot⟩
  have hname : pathName (root ++ '/' :: relative) = pathName relative := by
    rw [pathName, pathName, List.splitOn_append_cons_self, List.filter_append,
      List.getLast?_append, hkept]
    obtain ⟨last, hlast⟩ := Option.isSome_iff_exists.mp
      (List.getLast?_isSome.mpr (List.splitOn_ne_nil '/' relative))
    rw [hlast]
    rfl
  rw [pathSuffix, pathSuffix, hname]

/-- What the writer makes of the info of a member before it packs the header. -/
theorem memberInfo_opened {relative : Text} (h : PortableName relative) (data : Bytes)
    (headerOffset : Nat) :
    { memberInfo unicode relative (source.path relative) with
      fileSize := data.length
      compressSize := 0
      crc := 0
      flagBits := 0
      headerOffset := headerOffset } =
      { (Member.written relative data).entry unicode zlib headerOffset with
        crc := 0
        compressSize := 0 } := by
  have hfilename : relative.takeWhile (· ≠ '\x00') = relative := by
    refine List.takeWhile_eq_self_iff.mpr fun char hchar => decide_eq_true ?_
    rintro rfl
    exact absurd (h.printable _ hchar) (by decide)
  have hmode : builderMode unicode (source.path relative) = canonicalMode unicode relative := by
    rw [builderMode, Source.path, pathSuffix_below h, canonicalMode]
  rw [memberInfo, hfilename, hmode]
  rfl

/-! ## The writer -/

/-- The output behind the local records of some members. -/
def outputOf (unicode : UnicodeData) (zlib : Zlib) (members : List Member) : Output where
  written := localRecords zlib members
  filelist := entriesFrom unicode zlib 0 members

/-- The limits that the writer checks before a member, and what has to fit its header. -/
structure Writable (zlib : Zlib) (front : List Member) (member : Member) : Prop where
  count : front.length < zipFilecountLimit
  size : 105 * member.data.length ≤ 100 * zip64Limit
  offset : (localRecords zlib front).length ≤ zip64Limit
  compressed : (zlib.deflate member.data).length ≤ zip64Limit
  fits : (member.localHeader zlib).Fits

theorem length_entriesFrom (cursor : Nat) (members : List Member) :
    (entriesFrom unicode zlib cursor members).length = members.length := by
  induction members generalizing cursor with
  | nil => rfl
  | cons member members ih => exact congrArg (· + 1) (ih _)

theorem entriesFrom_append (cursor : Nat) (first second : List Member) :
    entriesFrom unicode zlib cursor (first ++ second) = entriesFrom unicode zlib cursor first ++
      entriesFrom unicode zlib (cursor + (localRecords zlib first).length) second := by
  induction first generalizing cursor with
  | nil => rfl
  | cons member first ih =>
      rw [List.cons_append, entriesFrom, ih, entriesFrom, List.cons_append, localRecords,
        localRecords, List.flatMap_cons, List.length_append, Nat.add_assoc]

/-- The writer appends the local record of a member exactly when it is writable. -/
theorem writestr_eq_ok {front : List Member} {relative : Text} {data : Bytes} {next : Output}
    (h : PortableName relative) :
    writestr zlib (outputOf unicode zlib front)
        (memberInfo unicode relative (source.path relative)) data = .ok next ↔
      Writable zlib front (Member.written relative data) ∧
        next = outputOf unicode zlib (front ++ [Member.written relative data]) := by
  have hopened := @memberInfo_opened unicode zlib source relative h data
    (localRecords zlib front).length
  have hclosed := @Member.fileHeader_entry unicode zlib relative data
    (localRecords zlib front).length
  have hnext : outputOf unicode zlib (front ++ [Member.written relative data]) =
      ⟨localRecords zlib front ++ (((Member.written relative data).localHeader zlib).pack ++
          (Member.written relative data).nameBytes ++ zlib.deflate data),
        entriesFrom unicode zlib 0 front ++ [(Member.written relative data).entry unicode zlib
          (localRecords zlib front).length]⟩ := by
    rw [outputOf, localRecords_append, entriesFrom_append, Nat.zero_add, List.append_assoc]
    simp [localRecords, Member.localRecord, entriesFrom, Member.written]
  rw [hnext]
  generalize hwritten : (localRecords zlib front).length = position at *
  generalize hinfo : ({ memberInfo unicode relative (source.path relative) with
    fileSize := data.length
    compressSize := 0
    crc := 0
    flagBits := 0
    headerOffset := (position : Int) } : ZipInfo) = opened at hopened
  have hwrite : writestr zlib (outputOf unicode zlib front)
      (memberInfo unicode relative (source.path relative)) data = (do
        failIf (100 * zip64Limit < 105 * data.length) .largeZipFile
        writecheck (outputOf unicode zlib front) opened
        let _ ← fileHeader opened
        failIf (zip64Limit < data.length) .runtimeError
        failIf (zip64Limit < (zlib.deflate data).length) .runtimeError
        let header ← fileHeader { opened with
          compressSize := (zlib.deflate data).length
          crc := crc32 data }
        return ⟨localRecords zlib front ++ (header ++ zlib.deflate data),
          entriesFrom unicode zlib 0 front ++ [{ opened with
            compressSize := (zlib.deflate data).length
            crc := crc32 data }]⟩) := by
    rw [← hinfo, ← hwritten]
    rfl
  have hkept : (outputOf unicode zlib front).filelist.length = front.length :=
    length_entriesFrom 0 front
  have hfinal : ({ opened with
      compressSize := (zlib.deflate data).length
      crc := crc32 data } : ZipInfo) =
        (Member.written relative data).entry unicode zlib position := by
    rw [hopened]
    rfl
  rw [hwrite, hfinal, hclosed]
  simp only [bind_eq_ok, failIf_eq_ok, writecheck, packed_eq_ok, hkept]
  constructor
  · rintro ⟨_, hsize, _, ⟨_, hcount, _, _, hoffset⟩, _, _, _, _, _, hcompressed, header,
      ⟨hfits, rfl⟩, hresult⟩
    rw [hopened] at hoffset
    have hposition : ¬(zip64Limit : Int) < position := hoffset
    refine ⟨⟨Nat.not_le.mp hcount, Nat.not_lt.mp hsize, ?_, Nat.not_lt.mp hcompressed, hfits⟩,
      (Except.ok.inj hresult).symm⟩
    omega
  · rintro ⟨hwritable, rfl⟩
    have hcount := hwritable.count
    have hsize : 105 * data.length ≤ 100 * zip64Limit := hwritable.size
    have hoffset := hwritable.offset
    have hcompressed : (zlib.deflate data).length ≤ zip64Limit := hwritable.compressed
    obtain ⟨header, hheader⟩ := @Member.fileHeader_opened unicode zlib relative data position
      hwritable.fits
    rw [hopened]
    refine ⟨(), Nat.not_lt.mpr hsize, (), ⟨(), Nat.not_le.mpr hcount, (), ?_, ?_⟩, header, hheader,
      (), by omega, (), Nat.not_lt.mpr hcompressed, _, ⟨hwritable.fits, rfl⟩, rfl⟩
    · change ¬zip64Limit < data.length
      omega
    · change ¬(zip64Limit : Int) < position
      omega

/-! ## The loop -/

/-- The members that are written for the listed files, behind others. -/
inductive Writes (zlib : Zlib) (source : Source) (expected : Mapping) :
    List Member → List Text → List Member → Prop where
  | nil (front : List Member) : Writes zlib source expected front [] []
  | cons {front : List Member} {relative : Text} {data : Bytes} {names : List Text}
      {members : List Member} (read : source.read expected relative = .ok data)
      (head : Writable zlib front (Member.written relative data))
      (tail : Writes zlib source expected (front ++ [Member.written relative data]) names members) :
      Writes zlib source expected front (relative :: names)
        (Member.written relative data :: members)

theorem Writes.map_name {front members : List Member} {names : List Text}
    (h : Writes zlib source expected front names members) : members.map Member.name = names := by
  induction h with
  | nil front => rfl
  | cons read head tail ih => exact congrArg _ ih

theorem Writes.length_le {front members : List Member} {names : List Text}
    (h : Writes zlib source expected front names members)
    (hfront : front.length ≤ zipFilecountLimit) :
    (front ++ members).length ≤ zipFilecountLimit := by
  induction h with
  | nil front => rwa [List.append_nil]
  | @cons front relative data names members read head tail ih =>
      have hcount := head.count
      rw [List.append_cons]
      apply ih
      rw [List.length_append]
      exact hcount

/-- The loop ends where every file is read and every member is writable. -/
theorem writeMembers_eq_ok {front : List Member} {names : List Text} {output : Output}
    (h : ∀ name ∈ names, PortableName name) :
    writeMembers unicode zlib source expected (outputOf unicode zlib front) names =
        (output, .ok ()) ↔
      ∃ members, Writes zlib source expected front names members ∧
        output = outputOf unicode zlib (front ++ members) := by
  induction names generalizing front with
  | nil =>
      rw [writeMembers, Prod.mk.injEq]
      constructor
      · rintro ⟨rfl, _⟩
        exact ⟨[], .nil front, by rw [List.append_nil]⟩
      · rintro ⟨members, hwrites, rfl⟩
        cases hwrites
        rw [List.append_nil]
        exact ⟨rfl, rfl⟩
  | cons relative names ih =>
      obtain ⟨hname, hnames⟩ := List.forall_mem_cons.mp h
      rw [writeMembers]
      cases hread : source.read expected relative with
      | error error =>
          refine ⟨fun hresult => (by cases hresult), ?_⟩
          rintro ⟨members, hwrites, _⟩
          cases hwrites with
          | cons read head tail => cases hread.symm.trans read
      | ok data =>
          dsimp only
          cases hwrite : writestr zlib (outputOf unicode zlib front)
            (memberInfo unicode relative (source.path relative)) data with
          | error error =>
              refine ⟨fun hresult => (by cases hresult), ?_⟩
              rintro ⟨members, hwrites, _⟩
              cases hwrites with
              | cons read head tail =>
                  cases hread.symm.trans read
                  have hok := (@writestr_eq_ok unicode zlib source front relative data _ hname).mpr
                    ⟨head, rfl⟩
                  cases hwrite.symm.trans hok
          | ok next =>
              obtain ⟨hwritable, rfl⟩ := (writestr_eq_ok hname).mp hwrite
              dsimp only
              rw [ih hnames]
              constructor
              · rintro ⟨members, hwrites, rfl⟩
                exact ⟨_, .cons hread hwritable hwrites, by rw [List.append_assoc]; rfl⟩
              · rintro ⟨members, hwrites, rfl⟩
                cases hwrites with
                | cons read head tail =>
                    cases hread.symm.trans read
                    exact ⟨_, tail, by rw [List.append_assoc]; rfl⟩

/-! ## The directory -/

theorem Writable.fits_central {front : List Member} {name : Text} {data : Bytes}
    (h : Writable zlib front (Member.written name data)) :
    ((Member.written name data).centralHeader unicode zlib
      (localRecords zlib front).length).Fits := by
  have hoffset := h.offset
  have hfits := h.fits
  have hexternal : (0o100000 ||| canonicalMode unicode name) <<< 16 < 256 ^ 4 := by
    rcases ite_eq_or_eq (unicode.lower (pathSuffix name) ∈ executableSuffixes) 0o755 0o644
      with hmode | hmode
    all_goals
      rw [canonicalMode, hmode]
      decide
  have hname : (Member.written name data).nameLength =
    (Member.written name data).nameBytes.length :=
      (congrArg List.length (Member.nameBytes_written name data)).symm
  change _ = ((Member.written name data).localHeader zlib).nameSize at hname
  simp only [LocalHeader.Fits, List.forall_mem_cons] at hfits
  obtain ⟨⟨_, hflags, _, _, _, hnameSize, _⟩, hcrc, hcompressed, hfile, _⟩ := hfits
  rw [← hname] at hnameSize
  have hzero : 0 < 256 ^ 2 := by decide
  simp only [CentralHeader.Fits, List.forall_mem_cons]
  refine ⟨⟨(by decide : 20 < 256 ^ 1), (by decide : 3 < 256 ^ 1), (by decide : 20 < 256 ^ 1),
      (by decide : 0 < 256 ^ 1), by simp⟩,
    ⟨hflags, (by decide : 8 < 256 ^ 2), (by decide : (dosDatetime expectedTimestamp).1 < 256 ^ 2),
      (by decide : (dosDatetime expectedTimestamp).2 < 256 ^ 2), hnameSize, hzero, hzero, hzero,
      hzero, by simp⟩,
    hcrc, hcompressed, hfile, hexternal, ?_, by simp⟩
  change (localRecords zlib front).length < 256 ^ 4
  exact Nat.lt_of_le_of_lt hoffset (by decide)

/-- The central headers of written members are packed one after the other. -/
theorem Writes.mapM_centralDirectoryRecord {front members : List Member} {names : List Text}
    (h : Writes zlib source expected front names members) :
    ∃ records, (entriesFrom unicode zlib (localRecords zlib front).length members).mapM
        centralDirectoryRecord = .ok records ∧
      records.flatten = centralRecords unicode zlib 0 (localRecords zlib front).length members := by
  induction h with
  | nil front => exact ⟨[], rfl, rfl⟩
  | @cons front relative data names members read head tail ih =>
      obtain ⟨records, hrecords, hflatten⟩ := ih
      have hnext : (localRecords zlib (front ++ [Member.written relative data])).length =
          (localRecords zlib front).length +
            ((Member.written relative data).localRecord zlib).length := by
        rw [localRecords_append, List.length_append]
        simp [localRecords]
      rw [hnext] at hrecords hflatten
      have hsize : 105 * data.length ≤ 100 * zip64Limit := head.size
      have hrecord := @Member.centralDirectoryRecord_entry unicode zlib relative data _ (by omega)
        head.compressed head.offset
      rw [packed, if_pos head.fits_central] at hrecord
      refine ⟨(Member.written relative data).centralRecord unicode zlib
        (localRecords zlib front).length :: records, ?_, ?_⟩
      · rw [entriesFrom, List.mapM_cons, hrecord, hrecords]
        rfl
      · rw [List.flatten_cons, hflatten, centralRecords, Int.sub_zero, Int.toNat_natCast]

theorem endHeader_fits {count size offset : Nat} (hcount : count ≤ zipFilecountLimit)
    (hsize : size ≤ zip64Limit) (hoffset : offset ≤ zip64Limit) :
    (endHeader count size offset).Fits := by
  simp only [EndHeader.Fits, List.forall_mem_cons]
  have hcount : count < 256 ^ 2 := Nat.lt_of_le_of_lt hcount (by decide)
  have hzero : 0 < 256 ^ 2 := by decide
  exact ⟨⟨hzero, hzero, hcount, hcount, hzero, by simp⟩,
    Nat.lt_of_le_of_lt hsize (by decide), Nat.lt_of_le_of_lt hoffset (by decide), by simp⟩

/-- What is written behind the members. -/
theorem writeEndRecord_eq_ok {members : List Member} {names : List Text} {archive : Bytes}
    (h : Writes zlib source expected [] names members) :
    writeEndRecord (outputOf unicode zlib members) = .ok archive ↔
      (localRecords zlib members).length ≤ zip64Limit ∧
        (centralRecords unicode zlib 0 0 members).length ≤ zip64Limit ∧
          archive = plainLayout unicode zlib members := by
  obtain ⟨records, hrecords, hflatten⟩ := @Writes.mapM_centralDirectoryRecord unicode _ _ _ _ _ _ h
  have hcount := h.length_le (Nat.zero_le _)
  rw [List.nil_append] at hcount
  change (entriesFrom unicode zlib 0 members).mapM centralDirectoryRecord = .ok records at hrecords
  change records.flatten = centralRecords unicode zlib 0 0 members at hflatten
  have hlength := @length_entriesFrom unicode zlib 0 members
  unfold writeEndRecord
  simp only [outputOf, hrecords, ok_bind, hflatten, hlength]
  simp only [bind_eq_ok, failIf_eq_ok, packed_eq_ok, Nat.not_lt]
  constructor
  · rintro ⟨_, _, _, hrecordSize, _, hdirectorySize, record, ⟨_, rfl⟩, hresult⟩
    refine ⟨Nat.not_lt.mp (failIf_eq_ok.mp hrecordSize), hdirectorySize, ?_⟩
    rw [plainLayout_eq]
    exact (Except.ok.inj hresult).symm
  · rintro ⟨hrecordSize, hdirectorySize, rfl⟩
    refine ⟨(), hcount, (), failIf_eq_ok.mpr (Nat.not_lt.mpr hrecordSize), (), hdirectorySize, _,
      ⟨?_, rfl⟩, ?_⟩
    · exact endHeader_fits hcount hdirectorySize hrecordSize
    · rw [plainLayout_eq]
      rfl

/-- The builder returns an archive exactly when every listed file is read, every member is
writable and the records and the directory stay below the limit; it is then the layout of
the members. -/
theorem writePartial_eq_ok {archive : Bytes} (h : Listing unicode expected) :
    writePartial unicode zlib source expected = .ok archive ↔
      ∃ members, Writes zlib source expected [] (expected.map Prod.fst) members ∧
        (localRecords zlib members).length ≤ zip64Limit ∧
          (centralRecords unicode zlib 0 0 members).length ≤ zip64Limit ∧
            archive = plainLayout unicode zlib members := by
  have hsorted : sorted (expected.map Prod.fst) = expected.map Prod.fst :=
    (List.pairwise_map.mpr h.ordered).insertionSort_eq
  have hportable : ∀ name ∈ expected.map Prod.fst, PortableName name :=
    fun name hname => portableName_of_validate (h.portable name hname)
  have hloop := @writeMembers_eq_ok unicode zlib source expected [] (expected.map Prod.fst)
  unfold writePartial
  rw [hsorted]
  constructor
  · intro hresult
    cases hwritten : writeMembers unicode zlib source expected ⟨[], []⟩
      (expected.map Prod.fst) with
    | mk output ending =>
        rw [hwritten] at hresult
        dsimp only at hresult
        cases hend : writeEndRecord output with
        | error error =>
            rw [hend] at hresult
            cases hresult
        | ok bytes =>
            rw [hend] at hresult
            cases ending with
            | error error => cases hresult
            | ok value =>
                obtain ⟨members, hwrites, rfl⟩ := (hloop hportable).mp hwritten
                cases hresult
                exact ⟨members, hwrites, (writeEndRecord_eq_ok hwrites).mp hend⟩
  · rintro ⟨members, hwrites, hlimits⟩
    have hwritten := (hloop hportable).mpr ⟨members, hwrites, rfl⟩
    have hend := (writeEndRecord_eq_ok hwrites).mpr hlimits
    change writeMembers unicode zlib source expected ⟨[], []⟩
      (expected.map Prod.fst) = _ at hwritten
    rw [hwritten]
    dsimp only
    rw [List.nil_append, hend]
    rfl

end Release

end Oasi
