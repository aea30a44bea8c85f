import Oasi.Release.ArchiveVerifier
import Oasi.Release.SourceFiles

/-! # The archive builder

`write_partial` over the writer of `zipfile` in CPython 3.11 with `allowZip64=False`: one
record after the other on a file that can be sought, then the central directory and the
end record. A number that would need ZIP64 raises instead.
-/

namespace Oasi

namespace Release

/-- `zipfile.ZIP64_LIMIT` -/
def zip64Limit : Nat := 2 ^ 31 - 1

/-- `zipfile.ZIP_FILECOUNT_LIMIT` -/
def zipFilecountLimit : Nat := 2 ^ 16 - 1

/-- What the writer raises. -/
inductive WriteError where
  /-- `LargeZipFile` -/
  | largeZipFile
  /-- `RuntimeError` -/
  | runtimeError
  /-- `struct.error` -/
  | structError
  deriving DecidableEq, Repr

/-- What the builder raises. -/
inductive BuildError where
  | source (error : SourceError)
  | write (error : WriteError)
  deriving DecidableEq, Repr

/-! ## Records -/

/-- `struct.pack` raises where a number does not fit. -/
def packed (fits : Prop) [Decidable fits] (bytes : Bytes) : Except WriteError Bytes :=
  if fits then .ok bytes else .error .structError

/-- `filename.encode("ascii")` succeeds. -/
def isAscii (name : Text) : Bool := name.all fun char => decide (char.toNat < 128)

/-- `_encodeFilenameFlags` -/
def encodeFilenameFlags (info : ZipInfo) : Bytes × Nat :=
  if isAscii info.filename = true then
    (info.filename.map fun char => UInt8.ofNat char.toNat, info.flagBits)
  else (encode info.filename, info.flagBits ||| 0x800)

/-- `FileHeader(zip64=False)`: the local header and the name. -/
def fileHeader (info : ZipInfo) : Except WriteError Bytes :=
  let (dostime, dosdate) := dosDatetime info.dateTime
  let (filename, flagBits) := encodeFilenameFlags info
  let header : LocalHeader := {
    signature := localSignature
    -- two fields of one byte in the format of the writer
    extractVersion := info.extractVersion + 256 * info.reserved
    flags := flagBits
    compression := info.compressType
    modTime := dostime
    modDate := dosdate
    crc32 := info.crc
    compressedSize := info.compressSize
    fileSize := info.fileSize
    nameSize := filename.length
    extraSize := info.extra.length }
  packed header.Fits (header.pack ++ (filename ++ info.extra))

/-- The numbers of an entry that would go into a ZIP64 field. -/
def zip64Fields (info : ZipInfo) : List Nat :=
  (if zip64Limit < info.fileSize ∨ zip64Limit < info.compressSize then
    [info.fileSize, info.compressSize] else []) ++
  (if (zip64Limit : Int) < info.headerOffset then [info.headerOffset.toNat] else [])

/-- The central header of an entry with what follows it. -/
def centralDirectoryRecord (info : ZipInfo) : Except WriteError Bytes :=
  let (dostime, dosdate) := dosDatetime info.dateTime
  let (filename, flagBits) := encodeFilenameFlags info
  let fields := zip64Fields info
  let large := decide (zip64Limit < info.fileSize ∨ zip64Limit < info.compressSize)
  -- the entries of the builder have no extra field that would be stripped here
  let extra := if fields = [] then info.extra
    else leBytes 2 1 ++
      (leBytes 2 (8 * fields.length) ++ (fields.flatMap (leBytes 8) ++ info.extra))
  let minVersion := if fields = [] then 0 else 45
  let header : CentralHeader := {
    signature := centralSignature
    createVersion := max minVersion info.createVersion
    createSystem := info.createSystem
    extractVersion := max minVersion info.extractVersion
    reserved := info.reserved
    flagBits
    compressType := info.compressType
    time := dostime
    date := dosdate
    crc32 := info.crc
    compressSize := if large then 0xFFFFFFFF else info.compressSize
    fileSize := if large then 0xFFFFFFFF else info.fileSize
    nameLength := filename.length
    extraLength := extra.length
    commentLength := info.comment.length
    volume := 0
    internalAttr := info.internalAttr
    externalAttr := info.externalAttr
    headerOffset :=
      if (zip64Limit : Int) < info.headerOffset then 0xFFFFFFFF else info.headerOffset.toNat }
  packed header.Fits (header.pack ++ (filename ++ (extra ++ info.comment)))

/-! ## The writer -/

/-- The file up to `start_dir`, and the entries that were written. -/
structure Output where
  written : Bytes
  filelist : List ZipInfo

/-- `_writecheck` -/
def writecheck (output : Output) (info : ZipInfo) : Except WriteError Unit := do
  failIf (zipFilecountLimit ≤ output.filelist.length) .largeZipFile
  failIf (zip64Limit < info.fileSize) .largeZipFile
  failIf ((zip64Limit : Int) < info.headerOffset) .largeZipFile

/-- `writestr` of the whole data of a member: opening, compressing and closing. -/
def writestr (zlib : Zlib) (output : Output) (info : ZipInfo) (data : Bytes) :
    Except WriteError Output := do
  let opened : ZipInfo := { info with
    fileSize := data.length
    compressSize := 0
    crc := 0
    flagBits := 0
    headerOffset := output.written.length }
  -- `file_size * 1.05 > ZIP64_LIMIT`
  failIf (100 * zip64Limit < 105 * data.length) .largeZipFile
  writecheck output opened
  let _ ← fileHeader opened
  let compressed := zlib.deflate data
  let closed : ZipInfo := { opened with compressSize := compressed.length, crc := crc32 data }
  failIf (zip64Limit < data.length) .runtimeError
  failIf (zip64Limit < compressed.length) .runtimeError
  -- the header is written again in place, with the sizes and the checksum
  let header ← fileHeader closed
  return ⟨output.written ++ (header ++ compressed), output.filelist ++ [closed]⟩

/-- `_write_end_record`: the whole file. -/
def writeEndRecord (output : Output) : Except WriteError Bytes := do
  let records ← output.filelist.mapM centralDirectoryRecord
  let directory := records.flatten
  failIf (zipFilecountLimit < output.filelist.length) .largeZipFile
  failIf (zip64Limit < output.written.length) .largeZipFile
  failIf (zip64Limit < directory.length) .largeZipFile
  let header : EndHeader := {
    signature := eocdSignature
    disk := 0
    centralDisk := 0
    diskEntries := output.filelist.length
    totalEntries := output.filelist.length
    centralSize := directory.length
    centralOffset := output.written.length
    commentSize := 0 }
  let record ← packed header.Fits header.pack
  return output.written ++ (directory ++ record)

/-! ## The builder -/

/-- `canonical_mode` of a path. -/
def builderMode (unicode : UnicodeData) (path : Text) : Nat :=
  if unicode.lower (pathSuffix path) ∈ executableSuffixes then 0o755 else 0o644

/-- The `ZipInfo` of a member, whose file is at a path. -/
def memberInfo (unicode : UnicodeData) (relative path : Text) : ZipInfo where
  origFilename := relative
  filename := relative.takeWhile (· ≠ '\x00')
  dateTime := expectedTimestamp
  compressType := zipDeflated
  comment := []
  extra := []
  createSystem := 3
  createVersion := 20
  extractVersion := 20
  reserved := 0
  flagBits := 0
  volume := 0
  internalAttr := 0
  externalAttr := (0o100000 ||| builderMode unicode path) <<< 16
  headerOffset := 0
  crc := 0
  compressSize := 0
  fileSize := 0

/-- What the builder meets: the directory of the source and each file as it is read. -/
structure Source where
  root : Text
  reading : Text → Reading

/-- The path of a member below the root. -/
def Source.path (source : Source) (relative : Text) : Text := source.root ++ '/' :: relative

/-- `read_stable` of a listed member. -/
def Source.read (source : Source) (expected : Mapping) (relative : Text) :
    Except SourceError Bytes :=
  readStable relative (source.reading relative)
    ((expected.lookup relative).getD ⟨[], 0⟩)

/-- The loop over the members, with what is written when it ends or raises. -/
def writeMembers (unicode : UnicodeData) (zlib : Zlib) (source : Source) (expected : Mapping) :
    Output → List Text → Output × Except BuildError Unit
  | output, [] => (output, .ok ())
  | output, relative :: rest =>
      match source.read expected relative with
      | .error error => (output, .error (.source error))
      | .ok data =>
          match writestr zlib output (memberInfo unicode relative (source.path relative)) data with
          | .error error => (output, .error (.write error))
          | .ok next => writeMembers unicode zlib source expected next rest

/-- `write_partial`: leaving the `with` statement writes the end record in any case, and
what that raises comes first. -/
def writePartial (unicode : UnicodeData) (zlib : Zlib) (source : Source) (expected : Mapping) :
    Except BuildError Bytes :=
  let (output, result) :=
    writeMembers unicode zlib source expected ⟨[], []⟩ (sorted (expected.map Prod.fst))
  match writeEndRecord output with
  | .error error => .error (.write error)
  | .ok archive => result.map fun _ => archive

end Release

end Oasi
