import Oasi.Release.DirectoryReading

/-! # What the checks of an archive establish

Each check is inverted once: what holds when it records nothing. Together they give every
field of both headers of a member.
-/

namespace Oasi

namespace Release

open Reported

/-- A clean search finds the end record in the last 22 bytes, with every field as it
should be. -/
theorem verifyEocd_clean {archive : Bytes} {startDir entryCount : Nat} {position : Option Nat}
    (h : (verifyEocd archive startDir entryCount).Clean position) :
    ∃ size, startDir + size + 22 = archive.length ∧
      EndHeader.unpack (archive.drop (archive.length - 22)) =
        endHeader entryCount size startDir := by
  unfold verifyEocd at h
  split at h
  next => simp [clean_bind] at h
  next hlong =>
    dsimp only at h
    split at h
    next => simp [clean_bind] at h
    next offset hoffset =>
      split at h
      next => simp [clean_bind] at h
      next hfits =>
        have hstart := prefix_drop_of_rfind hoffset
        generalize hfields : EndHeader.unpack _ = fields at h
        simp only [clean_bind, clean_noteIf, clean_pure, not_not, not_or] at h
        obtain ⟨_, hend, _, ⟨hdisk, hcentralDisk, hentries⟩, _, hcount, _, hcentralOffset, _, hsize,
          _, hcomment, _⟩ := h
        -- the search window ends with the archive, and so does the record that was found
        have hrecord : slice (slice archive (archive.length - min archive.length (22 + 65535))
            (min archive.length (22 + 65535))) offset 22 = archive.drop (archive.length - 22) := by
          rw [slice_slice (by omega), slice, show archive.length -
            min archive.length (22 + 65535) + offset = archive.length - 22 by omega]
          exact List.take_of_length_le (by rw [List.length_drop]; omega)
        have hsignature : fields.signature = eocdSignature := by
          rw [← hfields]
          change slice _ 0 4 = eocdSignature
          rw [slice_slice (by decide), Nat.add_zero]
          exact (List.prefix_iff_eq_take.mp hstart).symm
        rw [hrecord] at hfields
        refine ⟨fields.centralSize, by omega, ?_⟩
        obtain ⟨signature, disk, centralDisk, diskEntries, totalEntries, centralSize, centralOffset,
          commentSize⟩ := fields
        dsimp only at hsignature hdisk hcentralDisk hentries hcount hcentralOffset hcomment
        rw [hfields, hsignature, hdisk, hcentralDisk, hentries, hcount, hcentralOffset, hcomment]
        rfl

/-- The mode and the DOS attributes are all that the external attributes hold. -/
theorem externalAttr_eq {attributes mode : Nat} (hsize : attributes < 2 ^ 32)
    (hkind : attributes >>> 16 &&& 0xFFFF &&& 0o170000 = 0o100000)
    (hmode : attributes >>> 16 &&& 0xFFFF &&& 0o7777 = mode)
    (hdos : attributes &&& 0xFFFF = 0) : attributes = (0o100000 ||| mode) <<< 16 := by
  have hshift : attributes >>> 16 &&& 0xFFFF = attributes >>> 16 := by
    rw [Nat.and_two_pow_sub_one_eq_mod _ 16, Nat.shiftRight_eq_div_pow, Nat.mod_eq_of_lt]
    omega
  have hhigh : attributes >>> 16 = 0o100000 ||| mode := by
    calc
      attributes >>> 16 = attributes >>> 16 &&& 0xFFFF := hshift.symm
      _ = attributes >>> 16 &&& 0xFFFF &&& (0o170000 ||| 0o7777) := by
        rw [Nat.and_assoc]
        rfl
      _ = 0o100000 ||| mode := by rw [Nat.and_or_distrib_left, hkind, hmode]
  rw [Nat.and_two_pow_sub_one_eq_mod _ 16] at hdos
  rw [← hhigh, Nat.shiftLeft_eq, Nat.shiftRight_eq_div_pow]
  omega

/-- Only one date of the header has the fields of the timestamp. -/
theorem date_eq {date : Nat}
    (hyear : date / 512 + 1980 = 2026) (hmonth : date / 32 % 16 = 9) (hday : date % 32 = 2) :
    date = (dosDatetime expectedTimestamp).2 := by
  change date = 23842
  omega

theorem time_eq {time : Nat}
    (hhour : time / 2048 = 0) (hminute : time / 32 % 64 = 0) (hsecond : time % 32 * 2 = 0) :
    time = (dosDatetime expectedTimestamp).1 := by
  change time = 0
  omega

/-! ## The checks on one entry -/

/-- What the checks on the attributes of an entry establish. -/
structure SoundAttributes (unicode : UnicodeData) (info : ZipInfo) : Prop where
  portable : validatePortableName unicode info.filename = .ok ()
  dateTime : info.dateTime = expectedTimestamp
  createSystem : info.createSystem = 3
  createVersion : info.createVersion = 20
  kind : info.externalAttr >>> 16 &&& 0xFFFF &&& 0o170000 = 0o100000
  mode : info.externalAttr >>> 16 &&& 0xFFFF &&& 0o7777 = canonicalMode unicode info.filename
  dosAttributes : info.externalAttr &&& 0xFFFF = 0
  internalAttr : info.internalAttr = 0
  compressType : info.compressType = zipDeflated
  extra : info.extra = []
  comment : info.comment = []

theorem verifyAttributes_clean {unicode : UnicodeData} {info : ZipInfo}
    (h : (verifyAttributes unicode info).Clean ()) : SoundAttributes unicode info := by
  unfold verifyAttributes at h
  dsimp only at h
  split at h
  next => simp [clean_bind] at h
  next hname =>
    simp only [clean_bind, clean_noteIf, not_not, not_or] at h
    obtain ⟨_, _, _, hdate, _, ⟨hsystem, hversion⟩, _, hkind, _, hmode, _, hdos, _, hinternal,
      _, hcompress, _, _, hextra, hcomment⟩ := h
    exact ⟨hname, hdate, hsystem, hversion, hkind, hmode, hdos, hinternal, hcompress, hextra,
      hcomment⟩

/-- What the checks on a local record establish. -/
structure SoundLocal (archive : Bytes) (info : ZipInfo) (position : Nat) (fields : LocalHeader) :
    Prop where
  signature : fields.signature = localSignature
  extractVersion : fields.extractVersion = 20 ∧ info.extractVersion = 20
  flags : fields.flags = info.flagBits
  compression : fields.compression = zipDeflated
  modTime : fields.modTime = (dosDatetime expectedTimestamp).1
  modDate : fields.modDate = (dosDatetime expectedTimestamp).2
  crc32 : fields.crc32 = info.crc
  compressedSize : fields.compressedSize = info.compressSize
  fileSize : fields.fileSize = info.fileSize
  name : expectedNameBytes info = .ok (slice archive (position + 30) fields.nameSize)
  extraSize : fields.extraSize = 0

/-- A name that is expected where it was decoded from is whole. -/
theorem filename_eq_of_decode {info : ZipInfo} {bytes : Bytes}
    (hfilename : info.filename = info.origFilename.takeWhile (· ≠ '\x00'))
    (hexpected : expectedNameBytes info = .ok bytes)
    (hdecoded : decodeFilename info.flagBits bytes = .ok info.origFilename) :
    info.filename = info.origFilename := by
  unfold expectedNameBytes at hexpected
  unfold decodeFilename at hdecoded
  split at hexpected
  next hflag =>
    cases hexpected
    rw [if_pos hflag] at hdecoded
    split at hdecoded
    next => cases hdecoded
    next text htext =>
      have hencoded := fromUtf8_eq_some.mp htext
      rw [utf8_eq_encode, Except.ok.inj hdecoded] at hencoded
      exact (encode_injective hencoded).symm
  next hflag =>
    rw [if_neg hflag] at hdecoded
    split at hexpected
    next => cases hexpected
    next encoded hencoded =>
      have hlength : info.origFilename.length = info.filename.length := by
        rw [← length_cp437Encode hencoded, Except.ok.inj hexpected, ← Except.ok.inj hdecoded,
          cp437Decode, List.length_map]
      have hstarts : info.filename <+: info.origFilename := by
        rw [hfilename]
        exact List.takeWhile_prefix _
      exact hstarts.eq_of_length hlength.symm

theorem verifyLocalHeader_clean {archive : Bytes} {info : ZipInfo} {position : Nat}
    {fields : LocalHeader} (h : (verifyLocalHeader archive info position fields).Clean ()) :
    SoundLocal archive info position fields := by
  unfold verifyLocalHeader at h
  simp only [clean_bind, clean_noteIf, clean_ofExcept, not_not, not_or] at h
  obtain ⟨_, hsignature, _, hversion, _, ⟨hflags, _⟩, _, ⟨hcompression, _⟩, _, ⟨htime, hdate⟩, _,
    ⟨hcrc, hcompressed, hfile⟩, bytes, hbytes, _, hname, _, hextra⟩ := h
  rw [← hname] at hbytes
  exact ⟨hsignature, hversion, hflags, hcompression, htime, hdate, hcrc, hcompressed, hfile, hbytes,
    hextra⟩

/-- A member is opened under the name of its local record. -/
theorem openMember_eq_ok {archive : Bytes} {info : ZipInfo} {endOffset : Int} {start : Nat}
    (h : openMember archive info endOffset = .ok start) :
    let fields := LocalHeader.unpack (slice archive info.headerOffset.toNat 30)
    decodeFilename fields.flags (slice archive (info.headerOffset.toNat + 30) fields.nameSize) =
        .ok info.origFilename ∧
      start = info.headerOffset.toNat + 30 +
        (slice archive (info.headerOffset.toNat + 30) fields.nameSize).length +
        (slice archive (info.headerOffset.toNat + 30 +
          (slice archive (info.headerOffset.toNat + 30) fields.nameSize).length)
            fields.extraSize).length := by
  unfold openMember at h
  simp only [bind_eq_ok, failIf_eq_ok, not_not] at h
  obtain ⟨_, _, _, _, _, _, _, _, name, hname, _, hsame, _, _, _, _, h⟩ := h
  rw [hsame] at hname
  cases h
  exact ⟨hname, rfl⟩

/-- What the checks on the bytes of a listed member establish. -/
structure SoundMember (zlib : Zlib) (archive : Bytes) (info : ZipInfo) (endOffset : Int)
    (dataOffset : Option Nat) (listed : ExpectedFile) (data : Bytes) : Prop where
  fileSize : info.fileSize = listed.size
  read : readMember zlib archive info endOffset = .ok data
  length : data.length = listed.size
  sha256 : (hexdigest data).toList = listed.sha256
  crc : crc32 data = info.crc
  compressed : ∃ offset ∈ dataOffset, slice archive offset info.compressSize = zlib.deflate data

theorem verifyMember_clean {zlib : Zlib} {archive : Bytes} {info : ZipInfo} {endOffset : Int}
    {dataOffset : Option Nat} {listed : ExpectedFile}
    (h : (verifyMember zlib archive info endOffset dataOffset listed).Clean ()) :
    ∃ data, SoundMember zlib archive info endOffset dataOffset listed data := by
  unfold verifyMember at h
  obtain ⟨_, hsize, h⟩ := clean_bind.mp h
  rw [clean_noteIf, not_not] at hsize
  split at h
  next error _ => cases herror : error.isReadFailure <;> simp [herror] at h
  next data hread =>
    simp only [clean_bind, clean_noteIf, not_not, not_or] at h
    obtain ⟨_, ⟨hlength, hsha256⟩, _, hcrc, h⟩ := h
    cases dataOffset with
    | none => simp at h
    | some offset =>
        rw [clean_noteIf, not_not] at h
        exact ⟨data, hsize, hread, hlength, hsha256, hcrc, offset, rfl, h⟩

end Release

end Oasi
