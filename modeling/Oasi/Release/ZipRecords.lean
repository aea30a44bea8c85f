import Oasi.Foundation.Records

/-! # The records of an archive

The local header, the central header and the end record, as the `struct` formats
`<4s5H3L2H`, `<4s4B4HL2L5H2L` and `<4s4H2LH` unpack them.
-/

namespace Oasi

namespace Release

def localSignature : Bytes := [80, 75, 3, 4]

def centralSignature : Bytes := [80, 75, 1, 2]

def eocdSignature : Bytes := [80, 75, 5, 6]

@[ext] structure LocalHeader where
  signature : Bytes
  extractVersion : Nat
  flags : Nat
  compression : Nat
  modTime : Nat
  modDate : Nat
  crc32 : Nat
  compressedSize : Nat
  fileSize : Nat
  nameSize : Nat
  extraSize : Nat
  deriving DecidableEq, Repr

def LocalHeader.unpack (bytes : Bytes) : LocalHeader where
  signature := slice bytes 0 4
  extractVersion := field bytes 4 2
  flags := field bytes 6 2
  compression := field bytes 8 2
  modTime := field bytes 10 2
  modDate := field bytes 12 2
  crc32 := field bytes 14 4
  compressedSize := field bytes 18 4
  fileSize := field bytes 22 4
  nameSize := field bytes 26 2
  extraSize := field bytes 28 2

def LocalHeader.pack (header : LocalHeader) : Bytes :=
  header.signature ++ (leBytes 2 header.extractVersion ++ (leBytes 2 header.flags ++
    (leBytes 2 header.compression ++ (leBytes 2 header.modTime ++ (leBytes 2 header.modDate ++
      (leBytes 4 header.crc32 ++ (leBytes 4 header.compressedSize ++ (leBytes 4 header.fileSize ++
        (leBytes 2 header.nameSize ++ leBytes 2 header.extraSize)))))))))

theorem LocalHeader.pack_unpack {bytes : Bytes} (h : bytes.length = 30) :
    (LocalHeader.unpack bytes).pack = bytes := by
  have hfield := drop_eq_leBytes_append h
  have hend : bytes.drop 30 = [] := List.drop_eq_nil_of_le (Nat.le_of_eq h)
  symm
  calc
    bytes = slice bytes 0 4 ++ bytes.drop 4 := drop_eq_slice_append bytes 0 4
    _ = (LocalHeader.unpack bytes).pack := by
      rw [hfield 4 2 (by decide), hfield 6 2 (by decide), hfield 8 2 (by decide),
        hfield 10 2 (by decide), hfield 12 2 (by decide), hfield 14 4 (by decide),
        hfield 18 4 (by decide), hfield 22 4 (by decide), hfield 26 2 (by decide),
        hfield 28 2 (by decide), hend, List.append_nil]
      rfl

/-- The numbers fit their fields. -/
def LocalHeader.Fits (header : LocalHeader) : Prop :=
  (∀ value ∈ [header.extractVersion, header.flags, header.compression, header.modTime,
      header.modDate, header.nameSize, header.extraSize], value < 256 ^ 2) ∧
    ∀ value ∈ [header.crc32, header.compressedSize, header.fileSize], value < 256 ^ 4

instance (header : LocalHeader) : Decidable header.Fits := by
  unfold LocalHeader.Fits
  infer_instance

/-- What is packed is unpacked, where it fits. -/
theorem LocalHeader.unpack_pack {header : LocalHeader} (hsignature : header.signature.length = 4)
    (h : header.Fits) : LocalHeader.unpack header.pack = header := by
  simp only [LocalHeader.Fits, List.forall_mem_cons] at h
  obtain ⟨⟨hversion, hflags, hcompression, htime, hdate, hname, hextra, _⟩, hcrc, hcompressed,
    hfile, _⟩ := h
  apply LocalHeader.ext
  case signature => exact List.take_left' hsignature
  all_goals
    rw [LocalHeader.unpack, LocalHeader.pack]
    simp (disch := first | assumption | simp [hsignature]) only [field_skip, field_front,
      field_only, length_leBytes, hsignature, Nat.reduceSub]

@[ext] structure CentralHeader where
  signature : Bytes
  createVersion : Nat
  createSystem : Nat
  extractVersion : Nat
  reserved : Nat
  flagBits : Nat
  compressType : Nat
  time : Nat
  date : Nat
  crc32 : Nat
  compressSize : Nat
  fileSize : Nat
  nameLength : Nat
  extraLength : Nat
  commentLength : Nat
  volume : Nat
  internalAttr : Nat
  externalAttr : Nat
  headerOffset : Nat
  deriving DecidableEq, Repr

def CentralHeader.unpack (bytes : Bytes) : CentralHeader where
  signature := slice bytes 0 4
  createVersion := field bytes 4 1
  createSystem := field bytes 5 1
  extractVersion := field bytes 6 1
  reserved := field bytes 7 1
  flagBits := field bytes 8 2
  compressType := field bytes 10 2
  time := field bytes 12 2
  date := field bytes 14 2
  crc32 := field bytes 16 4
  compressSize := field bytes 20 4
  fileSize := field bytes 24 4
  nameLength := field bytes 28 2
  extraLength := field bytes 30 2
  commentLength := field bytes 32 2
  volume := field bytes 34 2
  internalAttr := field bytes 36 2
  externalAttr := field bytes 38 4
  headerOffset := field bytes 42 4

def CentralHeader.pack (header : CentralHeader) : Bytes :=
  header.signature ++ (leBytes 1 header.createVersion ++ (leBytes 1 header.createSystem ++
    (leBytes 1 header.extractVersion ++ (leBytes 1 header.reserved ++
      (leBytes 2 header.flagBits ++ (leBytes 2 header.compressType ++ (leBytes 2 header.time ++
        (leBytes 2 header.date ++ (leBytes 4 header.crc32 ++ (leBytes 4 header.compressSize ++
          (leBytes 4 header.fileSize ++ (leBytes 2 header.nameLength ++
            (leBytes 2 header.extraLength ++ (leBytes 2 header.commentLength ++
              (leBytes 2 header.volume ++ (leBytes 2 header.internalAttr ++
                (leBytes 4 header.externalAttr ++
                  leBytes 4 header.headerOffset)))))))))))))))))

theorem CentralHeader.pack_unpack {bytes : Bytes} (h : bytes.length = 46) :
    (CentralHeader.unpack bytes).pack = bytes := by
  have hfield := drop_eq_leBytes_append h
  have hend : bytes.drop 46 = [] := List.drop_eq_nil_of_le (Nat.le_of_eq h)
  symm
  calc
    bytes = slice bytes 0 4 ++ bytes.drop 4 := drop_eq_slice_append bytes 0 4
    _ = (CentralHeader.unpack bytes).pack := by
      rw [hfield 4 1 (by decide), hfield 5 1 (by decide), hfield 6 1 (by decide),
        hfield 7 1 (by decide), hfield 8 2 (by decide), hfield 10 2 (by decide),
        hfield 12 2 (by decide), hfield 14 2 (by decide), hfield 16 4 (by decide),
        hfield 20 4 (by decide), hfield 24 4 (by decide), hfield 28 2 (by decide),
        hfield 30 2 (by decide), hfield 32 2 (by decide), hfield 34 2 (by decide),
        hfield 36 2 (by decide), hfield 38 4 (by decide), hfield 42 4 (by decide), hend,
        List.append_nil]
      rfl

def CentralHeader.Fits (header : CentralHeader) : Prop :=
  (∀ value ∈ [header.createVersion, header.createSystem, header.extractVersion,
      header.reserved], value < 256 ^ 1) ∧
    (∀ value ∈ [header.flagBits, header.compressType, header.time, header.date,
      header.nameLength, header.extraLength, header.commentLength, header.volume,
      header.internalAttr], value < 256 ^ 2) ∧
    ∀ value ∈ [header.crc32, header.compressSize, header.fileSize, header.externalAttr,
      header.headerOffset], value < 256 ^ 4

instance (header : CentralHeader) : Decidable header.Fits := by
  unfold CentralHeader.Fits
  infer_instance

theorem CentralHeader.unpack_pack {header : CentralHeader}
    (hsignature : header.signature.length = 4) (h : header.Fits) :
    CentralHeader.unpack header.pack = header := by
  simp only [CentralHeader.Fits, List.forall_mem_cons] at h
  obtain ⟨⟨hcreate, hsystem, hextract, hreserved, _⟩, ⟨hflags, htype, htime, hdate, hname, hextra,
    hcomment, hvolume, hinternal, _⟩, hcrc, hcompress, hfile, hexternal, hoffset, _⟩ := h
  apply CentralHeader.ext
  case signature => exact List.take_left' hsignature
  all_goals
    rw [CentralHeader.unpack, CentralHeader.pack]
    simp (disch := first | assumption | simp [hsignature]) only [field_skip, field_front,
      field_only, length_leBytes, hsignature, Nat.reduceSub]

@[ext] structure EndHeader where
  signature : Bytes
  disk : Nat
  centralDisk : Nat
  diskEntries : Nat
  totalEntries : Nat
  centralSize : Nat
  centralOffset : Nat
  commentSize : Nat
  deriving DecidableEq, Repr

def EndHeader.unpack (bytes : Bytes) : EndHeader where
  signature := slice bytes 0 4
  disk := field bytes 4 2
  centralDisk := field bytes 6 2
  diskEntries := field bytes 8 2
  totalEntries := field bytes 10 2
  centralSize := field bytes 12 4
  centralOffset := field bytes 16 4
  commentSize := field bytes 20 2

def EndHeader.pack (header : EndHeader) : Bytes :=
  header.signature ++ (leBytes 2 header.disk ++ (leBytes 2 header.centralDisk ++
    (leBytes 2 header.diskEntries ++ (leBytes 2 header.totalEntries ++
      (leBytes 4 header.centralSize ++ (leBytes 4 header.centralOffset ++
        leBytes 2 header.commentSize))))))

theorem EndHeader.pack_unpack {bytes : Bytes} (h : bytes.length = 22) :
    (EndHeader.unpack bytes).pack = bytes := by
  have hfield := drop_eq_leBytes_append h
  have hend : bytes.drop 22 = [] := List.drop_eq_nil_of_le (Nat.le_of_eq h)
  symm
  calc
    bytes = slice bytes 0 4 ++ bytes.drop 4 := drop_eq_slice_append bytes 0 4
    _ = (EndHeader.unpack bytes).pack := by
      rw [hfield 4 2 (by decide), hfield 6 2 (by decide), hfield 8 2 (by decide),
        hfield 10 2 (by decide), hfield 12 4 (by decide), hfield 16 4 (by decide),
        hfield 20 2 (by decide), hend, List.append_nil]
      rfl

def EndHeader.Fits (header : EndHeader) : Prop :=
  (∀ value ∈ [header.disk, header.centralDisk, header.diskEntries, header.totalEntries,
      header.commentSize], value < 256 ^ 2) ∧
    ∀ value ∈ [header.centralSize, header.centralOffset], value < 256 ^ 4

instance (header : EndHeader) : Decidable header.Fits := by
  unfold EndHeader.Fits
  infer_instance

theorem EndHeader.unpack_pack {header : EndHeader} (hsignature : header.signature.length = 4)
    (h : header.Fits) : EndHeader.unpack header.pack = header := by
  simp only [EndHeader.Fits, List.forall_mem_cons] at h
  obtain ⟨⟨hdisk, hcentralDisk, hdiskEntries, htotalEntries, hcomment, _⟩, hsize, hoffset, _⟩ := h
  apply EndHeader.ext
  case signature => exact List.take_left' hsignature
  all_goals
    rw [EndHeader.unpack, EndHeader.pack]
    simp (disch := first | assumption | simp [hsignature]) only [field_skip, field_front,
      field_only, length_leBytes, hsignature, Nat.reduceSub]

/-! ## Lengths -/

theorem LocalHeader.length_pack {header : LocalHeader} (h : header.signature.length = 4) :
    header.pack.length = 30 := by simp [LocalHeader.pack, h]

theorem CentralHeader.length_pack {header : CentralHeader} (h : header.signature.length = 4) :
    header.pack.length = 46 := by simp [CentralHeader.pack, h]

theorem EndHeader.length_pack {header : EndHeader} (h : header.signature.length = 4) :
    header.pack.length = 22 := by simp [EndHeader.pack, h]

end Release

end Oasi
