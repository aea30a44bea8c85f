import Mathlib.Data.List.Sort
import Mathlib.Data.Int.Order.Basic
import Oasi.Foundation.CodePage
import Oasi.Foundation.Crc32
import Oasi.Release.PortableNames
import Oasi.Release.ZipRecords

/-! # How an archive is read

The reader is `zipfile` of CPython 3.11. It looks for the end record, lets a ZIP64
record in front of it override it, walks the central directory, and opens a member
through its local header. Compression is a parameter.
-/

namespace Oasi

namespace Release

/-- The exceptions that the handlers tell apart. -/
inductive PyError where
  /-- `BadZipFile` -/
  | badZipFile
  /-- `OSError` -/
  | osError
  /-- `EOFError` -/
  | eofError
  /-- `RuntimeError`, also as `NotImplementedError` -/
  | runtimeError
  /-- `UnicodeDecodeError` and `UnicodeEncodeError` -/
  | unicodeError
  /-- `zlib.error` -/
  | zlibError
  deriving DecidableEq, Repr

/-- Raw DEFLATE as the tools use it. -/
structure Zlib where
  /-- What `compressobj(9, DEFLATED, -15)` makes of the data. -/
  deflate : Bytes → Bytes
  /-- The bytes that reading a member yields, for its compression type, its compressed
  bytes and its file size, before their checksum is compared. -/
  inflate : Nat → Bytes → Nat → Except PyError Bytes

def locator64Signature : Bytes := [80, 75, 6, 7]

def eocd64Signature : Bytes := [80, 75, 6, 6]

/-- What is used of the end record. -/
structure EndRecord where
  /-- Whether the values come from a ZIP64 record. -/
  zip64 : Bool
  size : Nat
  offset : Nat
  comment : Bytes
  location : Nat
  deriving DecidableEq, Repr

/-- A ZIP64 locator and record in front of the end record override it. -/
def endRecData64 (archive : Bytes) (record : EndRecord) : Except PyError EndRecord :=
  if record.location < 20 then .ok record
  else
    let locator := slice archive (record.location - 20) 20
    if locator.length ≠ 20 ∨ locator.take 4 ≠ locator64Signature then .ok record
    else if field locator 4 4 ≠ 0 ∨ 1 < field locator 16 4 then .error .badZipFile
    else if record.location < 76 then .error .osError
    else
      let record64 := slice archive (record.location - 76) 56
      if record64.length ≠ 56 ∨ record64.take 4 ≠ eocd64Signature then .ok record
      else
        .ok { record with
          zip64 := true
          size := field record64 40 8
          offset := field record64 48 8 }

/-- The last signature among the bytes where an end record with a comment may start. -/
def searchEndRecord (archive : Bytes) : Except PyError (Option EndRecord) :=
  let maxCommentStart := archive.length - 65536 - 22
  let data := archive.drop maxCommentStart
  match rfind eocdSignature data with
  | none => .ok none
  -- what stands between the comment and the end of the file is ignored
  | some start =>
      let recData := slice data start 22
      if recData.length ≠ 22 then .ok none
      else
        let header := EndHeader.unpack recData
        let comment := slice data (start + 22) header.commentSize
        (endRecData64 archive ⟨false, header.centralSize, header.centralOffset, comment,
          maxCommentStart + start⟩).map some

/-- An end record without comment is tried first. -/
def endRecData (archive : Bytes) : Except PyError (Option EndRecord) :=
  if archive.length < 22 then .ok none
  else
    let data := archive.drop (archive.length - 22)
    if data.take 4 = eocdSignature ∧ data.drop 20 = [0, 0] then
      let header := EndHeader.unpack data
      (endRecData64 archive
        ⟨false, header.centralSize, header.centralOffset, [], archive.length - 22⟩).map some
    else searchEndRecord archive

/-! ## The central directory -/

structure DateTime where
  year : Nat
  month : Nat
  day : Nat
  hour : Nat
  minute : Nat
  second : Nat
  deriving DecidableEq, Repr

structure ZipInfo where
  origFilename : Text
  filename : Text
  dateTime : DateTime
  compressType : Nat
  comment : Bytes
  extra : Bytes
  createSystem : Nat
  createVersion : Nat
  extractVersion : Nat
  reserved : Nat
  flagBits : Nat
  volume : Nat
  internalAttr : Nat
  externalAttr : Nat
  headerOffset : Int
  crc : Nat
  compressSize : Nat
  fileSize : Nat
  deriving DecidableEq, Repr

/-- UTF-8 under the flag bit 11, code page 437 otherwise. -/
def decodeFilename (flags : Nat) (bytes : Bytes) : Except PyError Text :=
  if flags.testBit 11 then
    match fromUtf8 bytes with
    | none => .error .unicodeError
    | some text => .ok text.toList
  else .ok (cp437Decode bytes)

/-- A value of the ZIP64 extra field, where the field of the header is full. -/
def zip64Value (full : Bool) (value : Nat) (data : Bytes) : Except PyError (Nat × Bytes) :=
  if full then
    if data.length < 8 then .error .badZipFile else .ok (field data 0 8, data.drop 8)
  else .ok (value, data)

def decodeZip64Extra (data : Bytes) (info : ZipInfo) : Except PyError ZipInfo := do
  let (fileSize, data) ← zip64Value
    (info.fileSize == 0xFFFFFFFFFFFFFFFF || info.fileSize == 0xFFFFFFFF) info.fileSize data
  let (compressSize, data) ← zip64Value (info.compressSize == 0xFFFFFFFF) info.compressSize data
  let (headerOffset, _) ← zip64Value (info.headerOffset == 0xFFFFFFFF)
    info.headerOffset.toNat data
  return { info with fileSize, compressSize, headerOffset }

/-- The loop over the extra fields; each takes four bytes at least. -/
def decodeExtra : Nat → Bytes → ZipInfo → Except PyError ZipInfo
  | 0, _, info => .ok info
  | fuel + 1, extra, info =>
      if extra.length < 4 then .ok info
      else do
        let length := field extra 2 2
        failIf (extra.length < length + 4) .badZipFile
        -- the other kinds of fields are skipped
        let info ← if field extra 0 2 = 1 then decodeZip64Extra (slice extra 4 length) info
          else .ok info
        decodeExtra fuel (extra.drop (length + 4)) info

/-- The attributes that come from the fields of the central header. -/
def zipInfo (header : CentralHeader) (filename : Text) (extra comment : Bytes) : ZipInfo where
  origFilename := filename
  filename := filename.takeWhile (· ≠ '\x00')
  dateTime := ⟨header.date / 512 + 1980, header.date / 32 % 16, header.date % 32,
    header.time / 2048, header.time / 32 % 64, header.time % 32 * 2⟩
  compressType := header.compressType
  comment
  extra
  createSystem := header.createSystem
  createVersion := header.createVersion
  extractVersion := header.extractVersion
  reserved := header.reserved
  flagBits := header.flagBits
  volume := header.volume
  internalAttr := header.internalAttr
  externalAttr := header.externalAttr
  headerOffset := header.headerOffset
  crc := header.crc32
  compressSize := header.compressSize
  fileSize := header.fileSize

/-- An entry with the header that it was read from. -/
structure CentralEntry where
  header : CentralHeader
  info : ZipInfo
  deriving DecidableEq, Repr

/-- The loop over the directory of `size` bytes, with the bytes of the entries so far by
their declared lengths. A record takes 46 bytes of the data, so the fuel, one for each
byte, does not run out. -/
def readEntries (concat : Int) (size : Nat) : Nat → Nat → Bytes →
    Except PyError (List CentralEntry)
  | fuel, total, data =>
      if size ≤ total then .ok []
      else
        match fuel with
        | 0 => .error .badZipFile
        | fuel + 1 => do
            let centdir := data.take 46
            failIf (centdir.length ≠ 46) .badZipFile
            let header := CentralHeader.unpack centdir
            failIf (header.signature ≠ centralSignature) .badZipFile
            let filename ← decodeFilename header.flagBits (slice data 46 header.nameLength)
            let extra := slice data (46 + header.nameLength) header.extraLength
            let comment := slice data (46 + header.nameLength + header.extraLength)
              header.commentLength
            -- the version needed to extract
            failIf (63 < header.extractVersion) .runtimeError
            let info ← decodeExtra extra.length extra (zipInfo header filename extra comment)
            let length := 46 + header.nameLength + header.extraLength + header.commentLength
            let entries ← readEntries concat size fuel (total + length) (data.drop length)
            return ⟨header, { info with headerOffset := info.headerOffset + concat }⟩ :: entries

/-- An open archive. -/
structure ZipFile where
  record : EndRecord
  startDir : Nat
  entries : List CentralEntry
  deriving DecidableEq, Repr

def ZipFile.infolist (zip : ZipFile) : List ZipInfo := zip.entries.map CentralEntry.info

/-- By how much the offsets of the archive are shifted. -/
def EndRecord.concat (record : EndRecord) : Int :=
  record.location - record.size - record.offset - if record.zip64 then 76 else 0

def openZip (archive : Bytes) : Except PyError ZipFile := do
  match ← (endRecData archive).mapError fun _ => PyError.badZipFile with
  | none => .error .badZipFile
  | some record =>
      -- `seek` to a negative position raises
      let startDir := record.offset + record.concat
      failIf (startDir < 0) .badZipFile
      -- a directory that is shorter than declared is read as far as it goes
      let data := slice archive startDir.toNat record.size
      let entries ← readEntries record.concat record.size data.length 0 data
      return ⟨record, startDir.toNat, entries⟩

/-- `_end_offset` of each entry: where the next one by offset starts, or the directory. -/
def endOffsets (startDir : Nat) (infos : List ZipInfo) : List (Nat × Int) :=
  let order := infos.zipIdx.insertionSort fun left right =>
    right.1.headerOffset ≤ left.1.headerOffset
  (order.map Prod.snd).zip (startDir :: order.map fun entry => entry.1.headerOffset)

/-! ## Members -/

/-- The checks of `ZipFile.open`, up to the position of the compressed data. -/
def openMember (archive : Bytes) (info : ZipInfo) (endOffset : Int) : Except PyError Nat := do
  failIf (info.headerOffset < 0) .osError
  let position := info.headerOffset.toNat
  let fheader := slice archive position 30
  failIf (fheader.length ≠ 30) .badZipFile
  let header := LocalHeader.unpack fheader
  failIf (header.signature ≠ localSignature) .badZipFile
  let fname := slice archive (position + 30) header.nameSize
  let extra := slice archive (position + 30 + fname.length) header.extraSize
  -- patched data and strong encryption
  failIf (info.flagBits.testBit 5 = true ∨ info.flagBits.testBit 6 = true) .runtimeError
  let name ← decodeFilename header.flags fname
  failIf (name ≠ info.origFilename) .badZipFile
  let start := position + 30 + fname.length + extra.length
  failIf (endOffset < start + info.compressSize) .badZipFile
  -- encrypted, and no password is given
  failIf (info.flagBits.testBit 0 = true) .runtimeError
  return start

/-- All bytes of a member. -/
def readMember (zlib : Zlib) (archive : Bytes) (info : ZipInfo) (endOffset : Int) :
    Except PyError Bytes := do
  let start ← openMember archive info endOffset
  let data ← zlib.inflate info.compressType (slice archive start info.compressSize) info.fileSize
  failIf (crc32 data ≠ info.crc) .badZipFile
  return data

end Release

end Oasi
