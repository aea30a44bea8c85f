import Oasi.Foundation.Reports
import Oasi.Foundation.Sha256
import Oasi.Release.Allowlist
import Oasi.Release.ZipReader

/-! # The archive verifier

The verifier compares what the reader makes of an archive with the allowlist, walks the
local headers and finds the end record on its own, and collects what it finds wrong.
-/

namespace Oasi

namespace Release

open Reported

inductive ArchiveError where
  | boundary (error : BoundaryError)
  /-- `invalid ZIP: {type}` -/
  | invalidZip (error : PyError)
  /-- `entries are not in ordinal path order` -/
  | notOrdinal
  /-- `duplicate entry name` -/
  | duplicateEntry
  /-- `casefold or Unicode-normalization collision` -/
  | collision
  /-- `archive/allowlist membership mismatch: {missing, unlisted}` -/
  | membershipMismatch (missing unlisted : List Text)
  /-- `unexpected archive comment` -/
  | unexpectedComment
  /-- `archive is too short for EOCD` -/
  | tooShort
  /-- `EOCD record missing` -/
  | eocdMissing
  /-- `trailing bytes or malformed EOCD comment length` -/
  | trailingBytes
  /-- `multi-disk ZIP is not permitted` -/
  | multiDisk
  /-- `EOCD entry count mismatch` -/
  | entryCountMismatch
  /-- `EOCD central-directory offset mismatch` -/
  | centralOffsetMismatch
  /-- `central-directory size or trailing-gap mismatch` -/
  | centralSizeMismatch
  /-- `archive comment is not permitted` -/
  | archiveComment
  /-- `local-record gap or overlap before: {name}` -/
  | gapBefore (name : Text)
  /-- `truncated local header: {name}` -/
  | truncatedHeader (name : Text)
  /-- `bad local-header signature: {name}` -/
  | badSignature (name : Text)
  /-- `extract-version drift: {name}` -/
  | extractVersionDrift (name : Text)
  /-- `flag drift: {name}: {flags}` -/
  | flagDrift (name : Text) (flags : Nat)
  /-- `local compression drift: {name}` -/
  | localCompressionDrift (name : Text)
  /-- `local timestamp drift: {name}` -/
  | localTimestampDrift (name : Text)
  /-- `local/central size or CRC mismatch: {name}` -/
  | localSizeMismatch (name : Text)
  /-- `local/central filename mismatch: {name}` -/
  | localNameMismatch (name : Text)
  /-- `unexpected local extra field: {name}` -/
  | localExtra (name : Text)
  /-- `gap, overlap, or trailing data before central directory` -/
  | gapBeforeDirectory
  /-- `unexpected directory entry: {name}` -/
  | directoryEntry (name : Text)
  /-- `timestamp drift: {name}` -/
  | timestampDrift (name : Text)
  /-- `creator metadata drift: {name}` -/
  | creatorDrift (name : Text)
  /-- `entry is not marked as a regular file: {name}: {mode}` -/
  | notMarkedRegular (name : Text) (mode : Nat)
  /-- `permission drift: {name}: observed {observed} expected {expected}` -/
  | permissionDrift (name : Text) (observed expected : Nat)
  /-- `unexpected DOS attributes: {name}` -/
  | dosAttributes (name : Text)
  /-- `unexpected internal attributes: {name}` -/
  | internalAttributes (name : Text)
  /-- `compression drift: {name}` -/
  | compressionDrift (name : Text)
  /-- `unexpected ZIP flags: {name}: {flags}` -/
  | unexpectedFlags (name : Text) (flags : Nat)
  /-- `unexpected central entry metadata: {name}` -/
  | centralMetadata (name : Text)
  /-- `member size does not match allowlist: {name}` -/
  | sizeNotListed (name : Text)
  /-- `member read failure: {name}: {type}` -/
  | readFailure (name : Text) (error : PyError)
  /-- `member bytes do not match allowlist: {name}` -/
  | bytesNotListed (name : Text)
  /-- `member CRC metadata mismatch: {name}` -/
  | crcMismatch (name : Text)
  /-- `compressed member offset unavailable: {name}` -/
  | offsetUnavailable (name : Text)
  /-- `non-canonical fixed-level DEFLATE stream: {name}` -/
  | nonCanonicalDeflate (name : Text)
  /-- `CRC testzip failure: {name}` -/
  | testzipFailure (name : Text)
  deriving DecidableEq, Repr

/-- Checks that append to the list of errors and may raise. -/
abbrev Verification := Reported ArchiveError PyError

def expectedTimestamp : DateTime := ⟨2026, 9, 2, 0, 0, 0⟩

def zipDeflated : Nat := 8

/-- `PurePosixPath(name).name`: the last component that counts. -/
def pathName (name : Text) : Text :=
  (((name.splitOn '/').filter fun part => part ≠ [] ∧ part ≠ ['.']).getLast?).getD []

/-- `PurePosixPath(name).suffix`: empty unless the last dot is inside. -/
def pathSuffix (name : Text) : Text :=
  let base := pathName name
  let extension := (base.reverse.takeWhile (· ≠ '.')).reverse
  if extension ≠ [] ∧ extension.length + 1 < base.length then '.' :: extension else []

def executableSuffixes : List Text := ([".py", ".sh"]).map String.toList

def canonicalMode (unicode : UnicodeData) (name : Text) : Nat :=
  if unicode.lower (pathSuffix name) ∈ executableSuffixes then 0o755 else 0o644

def expectedNameBytes (info : ZipInfo) : Except PyError Bytes :=
  if info.flagBits.testBit 11 then .ok (encode info.filename)
  else
    match cp437Encode info.filename with
    | none => .error .unicodeError
    | some bytes => .ok bytes

/-- The time and the date of a local header. -/
def dosDatetime (value : DateTime) : Nat × Nat :=
  (value.hour <<< 11 ||| value.minute <<< 5 ||| value.second / 2,
    (value.year - 1980) <<< 9 ||| value.month <<< 5 ||| value.day)

/-- `flags & ~0x800` is not zero. -/
def hasOtherFlags (flags : Nat) : Bool := flags &&& 0x800 != flags

def verifyEocd (archive : Bytes) (startDir entryCount : Nat) : Verification (Option Nat) :=
  if archive.length < 22 then do
    note .tooShort
    return none
  else
    let tailSize := min archive.length (22 + 65535)
    let tail := slice archive (archive.length - tailSize) tailSize
    match rfind eocdSignature tail with
    | none => do
        note .eocdMissing
        return none
    | some relativeOffset =>
        if tail.length < relativeOffset + 22 then do
          note .eocdMissing
          return none
        else do
          let eocdOffset := archive.length - tailSize + relativeOffset
          let fields := EndHeader.unpack (slice tail relativeOffset 22)
          noteIf (eocdOffset + 22 + fields.commentSize ≠ archive.length) .trailingBytes
          noteIf (fields.disk ≠ 0 ∨ fields.centralDisk ≠ 0 ∨
            fields.diskEntries ≠ fields.totalEntries) .multiDisk
          noteIf (fields.totalEntries ≠ entryCount) .entryCountMismatch
          noteIf (fields.centralOffset ≠ startDir) .centralOffsetMismatch
          noteIf (fields.centralOffset + fields.centralSize ≠ eocdOffset) .centralSizeMismatch
          noteIf (fields.commentSize ≠ 0) .archiveComment
          return some eocdOffset

/-- The checks on the header and the name of one local record that is not truncated. -/
def verifyLocalHeader (archive : Bytes) (info : ZipInfo) (position : Nat)
    (fields : LocalHeader) : Verification Unit := do
  let (expectedTime, expectedDate) := dosDatetime expectedTimestamp
  let rawName := slice archive (position + 30) fields.nameSize
  let rawExtra := slice archive (position + 30 + rawName.length) fields.extraSize
  noteIf (fields.signature ≠ localSignature) (.badSignature info.filename)
  noteIf (fields.extractVersion ≠ 20 ∨ info.extractVersion ≠ 20)
    (.extractVersionDrift info.filename)
  noteIf (fields.flags ≠ info.flagBits ∨ hasOtherFlags fields.flags = true)
    (.flagDrift info.filename fields.flags)
  noteIf (fields.compression ≠ zipDeflated ∨ fields.compression ≠ info.compressType)
    (.localCompressionDrift info.filename)
  noteIf (fields.modTime ≠ expectedTime ∨ fields.modDate ≠ expectedDate)
    (.localTimestampDrift info.filename)
  noteIf (fields.crc32 ≠ info.crc ∨ fields.compressedSize ≠ info.compressSize ∨
    fields.fileSize ≠ info.fileSize) (.localSizeMismatch info.filename)
  let nameBytes ← ofExcept (expectedNameBytes info)
  noteIf (rawName ≠ nameBytes) (.localNameMismatch info.filename)
  noteIf (rawExtra ≠ [] ∨ fields.extraSize ≠ 0) (.localExtra info.filename)

/-- The loop over the local records, from a cursor on; the result is where the compressed
data of each starts. -/
def verifyLocalHeaders (archive : Bytes) (startDir : Nat) :
    Int → List ZipInfo → Verification (List (Option Nat))
  | cursor, [] => do
      noteIf (cursor ≠ startDir) .gapBeforeDirectory
      return []
  | cursor, info :: infos => do
      noteIf (info.headerOffset ≠ cursor) (.gapBefore info.filename)
      ofExcept (failIf (info.headerOffset < 0) .osError)
      let position := info.headerOffset.toNat
      let header := slice archive position 30
      if header.length ≠ 30 then
        note (.truncatedHeader info.filename)
        let offsets ← verifyLocalHeaders archive startDir info.headerOffset infos
        return none :: offsets
      else
        let fields := LocalHeader.unpack header
        verifyLocalHeader archive info position fields
        let dataOffset := position + 30 + fields.nameSize + fields.extraSize
        let offsets ← verifyLocalHeaders archive startDir (dataOffset + info.compressSize) infos
        return some dataOffset :: offsets

/-- The checks on the attributes of an entry. -/
def verifyAttributes (unicode : UnicodeData) (info : ZipInfo) : Verification Unit := do
  let name := info.filename
  match validatePortableName unicode name with
  | .error error => note (.boundary error)
  | .ok () => pure ()
  noteIf (name.getLast? = some '/') (.directoryEntry name)
  noteIf (info.dateTime ≠ expectedTimestamp) (.timestampDrift name)
  noteIf (info.createSystem ≠ 3 ∨ info.createVersion ≠ 20) (.creatorDrift name)
  let rawMode := info.externalAttr >>> 16 &&& 0xFFFF
  noteIf (rawMode &&& 0o170000 ≠ 0o100000) (.notMarkedRegular name rawMode)
  let observedMode := rawMode &&& 0o7777
  let expectedMode := canonicalMode unicode name
  noteIf (observedMode ≠ expectedMode) (.permissionDrift name observedMode expectedMode)
  noteIf (info.externalAttr &&& 0xFFFF ≠ 0) (.dosAttributes name)
  noteIf (info.internalAttr ≠ 0) (.internalAttributes name)
  noteIf (info.compressType ≠ zipDeflated) (.compressionDrift name)
  noteIf (hasOtherFlags info.flagBits = true) (.unexpectedFlags name info.flagBits)
  noteIf (info.extra ≠ [] ∨ info.comment ≠ []) (.centralMetadata name)

/-- What the handler around the reading of a member catches. -/
def PyError.isReadFailure : PyError → Bool
  | .osError | .runtimeError | .badZipFile => true
  | _ => false

/-- The checks on the bytes of a listed member. -/
def verifyMember (zlib : Zlib) (archive : Bytes) (info : ZipInfo) (endOffset : Int)
    (dataOffset : Option Nat) (listed : ExpectedFile) : Verification Unit := do
  let name := info.filename
  noteIf (info.fileSize ≠ listed.size) (.sizeNotListed name)
  match readMember zlib archive info endOffset with
  | .error error =>
      if error.isReadFailure then note (.readFailure name error) else ofExcept (.error error)
  | .ok data =>
      noteIf (data.length ≠ listed.size ∨ (hexdigest data).toList ≠ listed.sha256)
        (.bytesNotListed name)
      noteIf (crc32 data ≠ info.crc) (.crcMismatch name)
      match dataOffset with
      | none => note (.offsetUnavailable name)
      | some offset =>
          noteIf (slice archive offset info.compressSize ≠ zlib.deflate data)
            (.nonCanonicalDeflate name)

/-- The loop over the entries, each with its `_end_offset` and its data offset. -/
def verifyEntries (unicode : UnicodeData) (zlib : Zlib) (archive : Bytes) (expected : Mapping) :
    List (ZipInfo × Int × Option Nat) → Verification Unit
  | [] => pure ()
  | (info, endOffset, dataOffset) :: rest => do
      verifyAttributes unicode info
      match expected.lookup info.filename with
      | none => pure ()
      | some listed => verifyMember zlib archive info endOffset dataOffset listed
      verifyEntries unicode zlib archive expected rest

/-- Each entry with its `_end_offset`. -/
def ZipFile.bounded (zip : ZipFile) : List (ZipInfo × Int) :=
  let offsets := endOffsets zip.startDir zip.infolist
  zip.infolist.zipIdx.map fun (info, index) =>
    (info, (offsets.lookup index).getD zip.startDir)

/-- The first member, looked up by name, that cannot be read. -/
def testzip (zlib : Zlib) (archive : Bytes) (all : List (ZipInfo × Int)) :
    List Text → Except PyError (Option Text)
  | [] => .ok none
  | name :: names =>
      match all.reverse.find? fun entry => entry.1.filename = name with
      | none => .error .badZipFile
      | some (info, endOffset) =>
          match readMember zlib archive info endOffset with
          | .error .badZipFile => .ok (some name)
          | .error error => .error error
          | .ok _ => testzip zlib archive all names

/-- The body of the `with` statements. -/
def verifyContents (unicode : UnicodeData) (zlib : Zlib) (expected : Mapping) (archive : Bytes) :
    Verification Unit := do
  let zip ← ofExcept (openZip archive)
  let infos := zip.infolist
  let names := infos.map ZipInfo.filename
  let expectedNames := sorted (expected.map Prod.fst)
  noteIf (names ≠ sorted names) .notOrdinal
  noteIf (¬names.Nodup) .duplicateEntry
  noteIf (¬(names.map fun name => unicode.casefold (unicode.nfc name)).Nodup) .collision
  noteIf (names ≠ expectedNames) (.membershipMismatch (expectedNames.filter (· ∉ names))
    (sorted (names.dedup.filter (· ∉ expectedNames))))
  noteIf (zip.record.comment ≠ []) .unexpectedComment
  let _ ← verifyEocd archive zip.startDir infos.length
  let dataOffsets ← verifyLocalHeaders archive zip.startDir 0 infos
  verifyEntries unicode zlib archive expected
    ((zip.bounded.zip dataOffsets).map fun ((info, endOffset), offset) => (info, endOffset, offset))
  match ← ofExcept (testzip zlib archive zip.bounded names) with
  | none => pure ()
  | some name => note (.testzipFailure name)

/-- What the handler around the whole verification catches. -/
def PyError.isInvalidZip : PyError → Bool
  | .osError | .eofError | .badZipFile => true
  | _ => false

/-- The errors that are reported; an exception that no handler catches is raised. -/
def verifyArchive (unicode : UnicodeData) (zlib : Zlib) (expected : Mapping) (path : PathState) :
    Except PyError (List ArchiveError) :=
  match requirePlainFile path "archive" with
  | .error error => .ok [.boundary error]
  | .ok none => .ok [.invalidZip .osError]
  | .ok (some archive) =>
      let run := verifyContents unicode zlib expected archive
      match run.result with
      | .ok () => .ok run.messages
      | .error error =>
          if error.isInvalidZip then .ok (run.messages ++ [.invalidZip error]) else .error error

end Release

end Oasi
