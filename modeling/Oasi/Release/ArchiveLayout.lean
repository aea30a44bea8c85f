import Oasi.Release.ArchiveVerifier

/-! # The layout of an archive

Local records one after the other from the first byte on, the central directory, the
ZIP64 block that may stand between it and the end record, and the end record. A member
carries the fields of its central header that no check compares.
-/

namespace Oasi

namespace Release

/-- What the reader hides of a central header, with its flags. -/
structure Unpinned where
  flagBits : Nat
  reserved : Nat
  volume : Nat
  /-- The declared lengths of the name, the extra field and the comment. -/
  nameLength : Nat
  extraLength : Nat
  commentLength : Nat
  deriving DecidableEq, Repr

def CentralHeader.unpinned (header : CentralHeader) : Unpinned where
  flagBits := header.flagBits
  reserved := header.reserved
  volume := header.volume
  nameLength := header.nameLength
  extraLength := header.extraLength
  commentLength := header.commentLength

structure Member extends Unpinned where
  name : Text
  data : Bytes

/-- The bytes of a name under the flags. -/
def rawName (flags : Nat) (name : Text) : Bytes :=
  if flags.testBit 11 then encode name else (cp437Encode name).getD []

namespace Member

def nameBytes (member : Member) : Bytes := rawName member.flagBits member.name

def localHeader (zlib : Zlib) (member : Member) : LocalHeader where
  signature := localSignature
  extractVersion := 20
  flags := member.flagBits
  compression := zipDeflated
  modTime := (dosDatetime expectedTimestamp).1
  modDate := (dosDatetime expectedTimestamp).2
  crc32 := crc32 member.data
  compressedSize := (zlib.deflate member.data).length
  fileSize := member.data.length
  nameSize := member.nameBytes.length
  extraSize := 0

/-- The header, the name and the compressed data. -/
def localRecord (zlib : Zlib) (member : Member) : Bytes :=
  (member.localHeader zlib).pack ++ (member.nameBytes ++ zlib.deflate member.data)

def centralHeader (unicode : UnicodeData) (zlib : Zlib) (member : Member)
    (headerOffset : Nat) : CentralHeader where
  signature := centralSignature
  createVersion := 20
  createSystem := 3
  extractVersion := 20
  reserved := member.reserved
  flagBits := member.flagBits
  compressType := zipDeflated
  time := (dosDatetime expectedTimestamp).1
  date := (dosDatetime expectedTimestamp).2
  crc32 := crc32 member.data
  compressSize := (zlib.deflate member.data).length
  fileSize := member.data.length
  nameLength := member.nameLength
  extraLength := member.extraLength
  commentLength := member.commentLength
  volume := member.volume
  internalAttr := 0
  externalAttr := (0o100000 ||| canonicalMode unicode member.name) <<< 16
  headerOffset

/-- The header and the name. -/
def centralRecord (unicode : UnicodeData) (zlib : Zlib) (member : Member)
    (headerOffset : Nat) : Bytes :=
  (member.centralHeader unicode zlib headerOffset).pack ++ member.nameBytes

end Member

def localRecords (zlib : Zlib) (members : List Member) : Bytes :=
  members.flatMap (Member.localRecord zlib)

/-- The directory of the members whose local records start at a cursor; the offsets are
written less a shift. -/
def centralRecords (unicode : UnicodeData) (zlib : Zlib) (shift : Int) :
    Nat → List Member → Bytes
  | _, [] => []
  | cursor, member :: members =>
      member.centralRecord unicode zlib (cursor - shift).toNat ++
        centralRecords unicode zlib shift (cursor + (member.localRecord zlib).length) members

def endHeader (count centralSize centralOffset : Nat) : EndHeader where
  signature := eocdSignature
  disk := 0
  centralDisk := 0
  diskEntries := count
  totalEntries := count
  centralSize
  centralOffset
  commentSize := 0

/-- By how much a ZIP64 block shifts the offsets of an archive whose directory starts
at a position: the block states the start on its own. -/
def blockShift (startDir : Nat) (block : Bytes) : Int :=
  if block = [] then 0 else startDir - field block 48 8

/-- The archive of the members with a ZIP64 block, which may be empty. -/
def layout (unicode : UnicodeData) (zlib : Zlib) (members : List Member) (block : Bytes) : Bytes :=
  let records := localRecords zlib members
  let directory := centralRecords unicode zlib (blockShift records.length block) 0 members
  records ++ (directory ++ (block ++
    (endHeader members.length (directory.length + block.length) records.length).pack))

end Release

end Oasi
