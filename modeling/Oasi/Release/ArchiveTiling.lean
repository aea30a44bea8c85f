import Oasi.Release.ArchiveUniqueness

/-! # Accepted archives as a tiling

A tiled archive is local records, a directory and an end record, without a byte between
them, over them or behind them. An accepted archive is tiled unless a ZIP64 block stands in
front of the end record or the directory declares more than there is.
-/

namespace Oasi

namespace Release

variable {unicode : UnicodeData} {zlib : Zlib} {expected : Mapping}

/-- The bytes of a member: the local header, the name, the compressed data and the central
header. -/
structure Tile where
  header : Bytes
  name : Bytes
  compressed : Bytes
  central : Bytes

def Tile.localRecord (tile : Tile) : Bytes := tile.header ++ (tile.name ++ tile.compressed)

def Tile.centralRecord (tile : Tile) : Bytes := tile.central ++ tile.name

/-- The headers state what stands behind them, and the data are those of the listed name. -/
structure Tile.Holds (zlib : Zlib) (expected : Mapping) (cursor : Nat) (name : Text)
    (tile : Tile) : Prop where
  length_header : tile.header.length = 30
  localSignature : (LocalHeader.unpack tile.header).signature = localSignature
  nameSize : (LocalHeader.unpack tile.header).nameSize = tile.name.length
  extraSize : (LocalHeader.unpack tile.header).extraSize = 0
  compressedSize : (LocalHeader.unpack tile.header).compressedSize = tile.compressed.length
  length_central : tile.central.length = 46
  centralSignature : (CentralHeader.unpack tile.central).signature = centralSignature
  nameLength : (CentralHeader.unpack tile.central).nameLength = tile.name.length
  extraLength : (CentralHeader.unpack tile.central).extraLength = 0
  commentLength : (CentralHeader.unpack tile.central).commentLength = 0
  headerOffset : (CentralHeader.unpack tile.central).headerOffset = cursor
  decoded : decodeFilename (CentralHeader.unpack tile.central).flagBits tile.name = .ok name
  data : ∃ data listed, expected.lookup name = some listed ∧
    zlib.inflate (CentralHeader.unpack tile.central).compressType tile.compressed
      (CentralHeader.unpack tile.central).fileSize = .ok data ∧
    data.length = listed.size ∧ (hexdigest data).toList = listed.sha256

/-- Tiles of some names whose local records stand one after the other from a cursor on. -/
inductive Tiles (zlib : Zlib) (expected : Mapping) : Nat → List Text → List Tile → Prop where
  | nil (cursor : Nat) : Tiles zlib expected cursor [] []
  | cons {cursor : Nat} {name : Text} {tile : Tile} {names : List Text} {tiles : List Tile}
      (head : tile.Holds zlib expected cursor name)
      (tail : Tiles zlib expected (cursor + tile.localRecord.length) names tiles) :
      Tiles zlib expected cursor (name :: names) (tile :: tiles)

/-- The local records of the listed names in ordinal order, their directory and an end
record of 22 bytes, and nothing else. -/
def Tiled (zlib : Zlib) (expected : Mapping) (archive : Bytes) : Prop :=
  ∃ (tiles : List Tile) (ending : Bytes),
    Tiles zlib expected 0 (sorted (expected.map Prod.fst)) tiles ∧
    archive = tiles.flatMap Tile.localRecord ++ (tiles.flatMap Tile.centralRecord ++ ending) ∧
    ending.length = 22 ∧
    EndHeader.unpack ending = endHeader tiles.length (tiles.flatMap Tile.centralRecord).length
      (tiles.flatMap Tile.localRecord).length

/-- The lengths that a central header declares are those of what was read. -/
structure CentralEntry.Exact (entry : CentralEntry) : Prop where
  nameLength : entry.header.nameLength = entry.nameBytes.length
  extraLength : entry.header.extraLength = 0
  commentLength : entry.header.commentLength = 0

instance (entry : CentralEntry) : Decidable entry.Exact :=
  decidable_of_iff (entry.header.nameLength = entry.nameBytes.length ∧
      entry.header.extraLength = 0 ∧ entry.header.commentLength = 0)
    ⟨fun h => ⟨h.1, h.2.1, h.2.2⟩, fun h => ⟨h.nameLength, h.extraLength, h.commentLength⟩⟩

/-- No ZIP64 record is read and the directory declares what is there. -/
def DeclaresExactly (archive : Bytes) : Prop :=
  ∃ zip, openZip archive = .ok zip ∧ zip.record.zip64 = false ∧
    ∀ entry ∈ zip.entries, entry.Exact

instance (archive : Bytes) : Decidable (DeclaresExactly archive) :=
  match hopened : openZip archive with
  | .error _ => isFalse fun h => by
      obtain ⟨zip, hzip, _⟩ := h
      cases hopened.symm.trans hzip
  | .ok zip =>
      decidable_of_iff (zip.record.zip64 = false ∧ ∀ entry ∈ zip.entries, entry.Exact)
        ⟨fun h => ⟨zip, hopened, h⟩, fun ⟨_, hzip, h⟩ =>
          Except.ok.inj (hopened.symm.trans hzip) ▸ h⟩

/-! ## From the layout to the tiling -/

/-- The tile of a pinned entry that declares what is there. -/
theorem Pinned.holds {cursor : Nat} {entry : CentralEntry} {member : Member}
    (h : Pinned unicode zlib expected 0 cursor entry member) (hexact : entry.Exact) :
    Tile.Holds zlib expected cursor member.name
      ⟨(member.localHeader zlib).pack, member.nameBytes, zlib.deflate member.data,
        entry.header.pack⟩ := by
  have hunpack := h.unpack_central
  constructor
  case length_header => exact LocalHeader.length_pack rfl
  case length_central =>
    apply CentralHeader.length_pack
    rw [h.centralHeader]
    rfl
  case localSignature | nameSize | extraSize | compressedSize =>
    rw [h.unpack_local]
    rfl
  case centralSignature =>
    rw [hunpack, h.centralHeader]
    rfl
  case nameLength => rw [hunpack, hexact.nameLength, h.nameBytes]
  case extraLength => rw [hunpack, hexact.extraLength]
  case commentLength => rw [hunpack, hexact.commentLength]
  case headerOffset =>
    rw [hunpack, h.centralHeader]
    change ((cursor : Int) - 0).toNat = cursor
    omega
  case decoded =>
    have hflags : member.flagBits = entry.header.flagBits :=
      congrArg Unpinned.flagBits h.unpinned
    rw [hunpack, ← hflags]
    exact h.decoded
  case data =>
    refine ⟨member.data, _, h.listed, ?_, rfl, rfl⟩
    rw [hunpack, h.centralHeader]
    exact h.inflated

theorem PinnedRun.tiles {cursor : Nat} {entries : List CentralEntry} {members : List Member}
    (h : PinnedRun unicode zlib expected 0 cursor entries members)
    (hexact : ∀ entry ∈ entries, entry.Exact) :
    ∃ tiles, Tiles zlib expected cursor (members.map Member.name) tiles ∧
      tiles.length = members.length ∧
      tiles.flatMap Tile.localRecord = localRecords zlib members ∧
      tiles.flatMap Tile.centralRecord = centralRecords unicode zlib 0 cursor members := by
  induction h with
  | nil cursor => exact ⟨[], .nil cursor, rfl, rfl, rfl⟩
  | cons head tail ih =>
      obtain ⟨hentry, hrest⟩ := List.forall_mem_cons.mp hexact
      obtain ⟨tiles, htiles, hlength, hlocal, hcentral⟩ := ih hrest
      refine ⟨_ :: tiles, .cons (head.holds hentry) htiles, ?_, ?_, ?_⟩
      · rw [List.length_cons, List.length_cons, hlength]
      · rw [List.flatMap_cons, hlocal]
        rfl
      · rw [List.flatMap_cons, hcentral, centralRecords, Member.centralRecord,
          ← head.centralHeader]
        rfl

theorem Accepted.tiled {archive : Bytes} {zip : ZipFile} {size : Nat} {members : List Member}
    (h : Accepted unicode zlib expected archive zip size members)
    (hzip64 : zip.record.zip64 = false) (hexact : ∀ entry ∈ zip.entries, entry.Exact) :
    Tiled zlib expected archive := by
  have hblock : zip.block archive = [] := by rw [ZipFile.block, hzip64]; rfl
  obtain ⟨_, _, hconcat, _⟩ := block_of_endHeader h.ends h.endHeader h.opened
  rw [hblock, blockShift, if_pos rfl] at hconcat
  have hrun := h.run
  rw [hconcat] at hrun
  obtain ⟨tiles, htiles, hlength, hlocal, hcentral⟩ := hrun.tiles hexact
  obtain ⟨hdirectory, hsize⟩ := h.directory_eq
  rw [hblock, hconcat, List.nil_append, ← hcentral] at hdirectory
  rw [hblock, hconcat, List.length_nil, Nat.add_zero, ← hcentral] at hsize
  have hlong := h.ends
  refine ⟨tiles, archive.drop (archive.length - 22), ?_, ?_, ?_, ?_⟩
  · rw [← h.names]
    exact htiles
  · rw [hlocal, ← hdirectory]
    exact h.records
  · rw [List.length_drop]
    omega
  · rw [h.endHeader, hlength, hsize, hlocal, h.startDir]

/-! ## From the tiling to the declared lengths -/

/-- A tiled directory is read with the lengths that it declares. -/
theorem readEntries_tiles {concat : Int} {cursor size fuel total : Nat} {names : List Text}
    {tiles : List Tile} {entries : List CentralEntry} (h : Tiles zlib expected cursor names tiles)
    (hread : readEntries concat size fuel total (tiles.flatMap Tile.centralRecord) = .ok entries)
    (hsize : total + (tiles.flatMap Tile.centralRecord).length = size) :
    ∀ entry ∈ entries, entry.Exact := by
  induction h generalizing size fuel total entries with
  | nil cursor =>
      rw [readEntries_done (by simp at hsize; omega)] at hread
      cases hread
      simp
  | @cons cursor name tile names tiles head tail ih =>
      have hshape : (tile :: tiles).flatMap Tile.centralRecord =
          tile.central ++ (tile.name ++ tiles.flatMap Tile.centralRecord) := by
        rw [List.flatMap_cons, Tile.centralRecord, List.append_assoc]
      have hlength := head.length_central
      rw [hshape] at hread hsize
      rw [List.length_append, List.length_append] at hsize
      obtain ⟨_, header, filename, info, rest, rfl, _, hheader, _, hname, hinfo, hrest, rfl⟩ :=
        readEntries_step (by omega) hread
      rw [List.take_left' hlength] at hheader
      rw [hheader, head.nameLength, head.extraLength, head.commentLength] at hrest
      have hslice : slice (tile.central ++ (tile.name ++ tiles.flatMap Tile.centralRecord)) 46
          header.nameLength = tile.name := by
        rw [hheader, head.nameLength, ← hlength, slice_append]
      have hextra : header.extraLength = 0 := by rw [hheader, head.extraLength]
      -- without extra field and comment the next record follows the name
      have hdrop : (tile.central ++ (tile.name ++ tiles.flatMap Tile.centralRecord)).drop
          (46 + tile.name.length + 0 + 0) = tiles.flatMap Tile.centralRecord := by
        rw [← hlength, Nat.add_zero, ← List.drop_drop, List.drop_left,
          List.drop_left]
      rw [hdrop] at hrest
      rw [hextra, slice_zero] at hinfo
      cases hinfo
      refine List.forall_mem_cons.mpr ⟨⟨?_, hextra, ?_⟩, ih hrest (by omega)⟩
      · have hbytes := rawName_of_decode hname
        rw [hslice] at hbytes
        change header.nameLength = (rawName header.flagBits filename).length
        rw [hbytes, hheader, head.nameLength]
      · change header.commentLength = 0
        rw [hheader, head.commentLength]

/-- A directory of names without a zero does not end in a zero. -/
theorem Tiles.getLast?_ne_zero {cursor : Nat} {names : List Text} {tiles : List Tile}
    (h : Tiles zlib expected cursor names tiles)
    (hnames : ∀ name ∈ names, name ≠ [] ∧ '\x00' ∉ name) :
    (tiles.flatMap Tile.centralRecord).getLast? ≠ some 0 := by
  induction h with
  | nil cursor => simp
  | @cons cursor name tile names tiles head tail ih =>
      obtain ⟨⟨hempty, hzero⟩, hrest⟩ := List.forall_mem_cons.mp hnames
      rw [List.flatMap_cons, Tile.centralRecord, List.getLast?_append, List.getLast?_append]
      cases hlast : (tiles.flatMap Tile.centralRecord).getLast? with
      | some byte =>
          rw [hlast] at ih
          exact ih hrest
      | none =>
          rw [Option.none_or]
          intro hlastZero
          cases hname : tile.name.getLast? with
          | some byte =>
              rw [hname, Option.some_or] at hlastZero
              have hmem : byte ∈ tile.name := List.mem_of_getLast? hname
              rw [Option.some.inj hlastZero] at hmem
              exact hzero (zero_mem_of_decode head.decoded hmem)
          | none =>
              have hdecoded := head.decoded
              rw [List.getLast?_eq_none_iff.mp hname, decodeFilename_nil] at hdecoded
              exact hempty (Except.ok.inj hdecoded).symm

theorem PinnedRun.names_nonzero {concat : Int} {cursor : Nat} {entries : List CentralEntry}
    {members : List Member} (h : PinnedRun unicode zlib expected concat cursor entries members) :
    ∀ name ∈ members.map Member.name, name ≠ [] ∧ '\x00' ∉ name := by
  induction h with
  | nil cursor => simp
  | cons head tail ih => exact List.forall_mem_cons.mpr ⟨⟨head.nonempty, head.nonzero⟩, ih⟩

/-- A tiled archive is read without a ZIP64 record and declares what is there. -/
theorem Accepted.declaresExactly {archive : Bytes} {zip : ZipFile} {size : Nat}
    {members : List Member} (h : Accepted unicode zlib expected archive zip size members)
    (htiled : Tiled zlib expected archive) : DeclaresExactly archive := by
  obtain ⟨tiles, ending, htiles, harchive, hlength, hending⟩ := htiled
  have htotal : archive.length - 22 =
      (tiles.flatMap Tile.localRecord ++ tiles.flatMap Tile.centralRecord).length := by
    rw [harchive, List.length_append, List.length_append, List.length_append, hlength]
    omega
  have hdropEnd : archive.drop (archive.length - 22) = ending := by
    rw [htotal, harchive, ← List.append_assoc, List.drop_left]
  have hheader := h.endHeader
  rw [hdropEnd, hending] at hheader
  have hsize : (tiles.flatMap Tile.centralRecord).length = size :=
    congrArg EndHeader.centralSize hheader
  have hstart : (tiles.flatMap Tile.localRecord).length = zip.startDir :=
    congrArg EndHeader.centralOffset hheader
  obtain ⟨directory, hdrop, _, hentries⟩ := openZip_of_endHeader h.ends h.endHeader h.opened
  have hdirectory : tiles.flatMap Tile.centralRecord = directory ++ zip.block archive := by
    rw [hdropEnd, ← hstart] at hdrop
    rw [harchive, List.drop_left, ← harchive, ← List.append_assoc] at hdrop
    exact List.append_cancel_right hdrop
  obtain ⟨_, _, _, hlast⟩ := block_of_endHeader h.ends h.endHeader h.opened
  have hzip64 : zip.record.zip64 = false := by
    by_contra hzip64
    apply htiles.getLast?_ne_zero
    · rw [← h.names]
      exact h.run.names_nonzero
    · rw [hdirectory, List.getLast?_append, hlast (Bool.not_eq_false _ ▸ hzip64)]
      rfl
  have hblock : zip.block archive = [] := by
    rw [ZipFile.block, hzip64]
    rfl
  rw [hblock, List.append_nil] at hdirectory
  refine ⟨zip, h.opened, hzip64, ?_⟩
  rw [← hdirectory] at hentries
  exact readEntries_tiles htiles hentries (Nat.zero_add _)

/-- An accepted archive is tiled exactly when no ZIP64 record is read and its directory
declares the lengths of what is there. -/
theorem tiled_iff_declaresExactly {archive : Bytes}
    (h : verifyArchive unicode zlib expected (.regular (some archive)) = .ok []) :
    Tiled zlib expected archive ↔ DeclaresExactly archive := by
  obtain ⟨zip, size, members, haccepted⟩ := accepted_of_verifyArchive h
  constructor
  · exact haccepted.declaresExactly
  · rintro ⟨other, hopened, hzip64, hexact⟩
    obtain rfl : zip = other := Except.ok.inj (haccepted.opened.symm.trans hopened)
    exact haccepted.tiled hzip64 hexact

/-- The archive of two files is tiled by their records. -/
theorem tiled_pairArchive : Tiled pairZlib pairExpected (pairArchive 0) :=
  (tiled_iff_declaresExactly verifyArchive_pairArchive).mpr (by decide +kernel)

/-- A ZIP64 record and its locator for the directory of that archive. -/
def zip64Block : Bytes :=
  eocd64Signature ++ leBytes 8 44 ++ leBytes 2 45 ++ leBytes 2 45 ++ leBytes 4 0 ++ leBytes 4 0 ++
    leBytes 8 2 ++ leBytes 8 2 ++ leBytes 8 94 ++ leBytes 8 69 ++
    locator64Signature ++ leBytes 4 0 ++ leBytes 8 163 ++ leBytes 4 1

/-- A ZIP64 block between the directory and the end record is accepted. -/
theorem zip64_block_accepted :
    ∃ expected archive,
      verifyArchive .ascii pairZlib expected (.regular (some archive)) = .ok [] ∧
        ¬Tiled pairZlib expected archive := by
  have haccepted : verifyArchive .ascii pairZlib pairExpected
      (.regular (some (layout .ascii pairZlib (pairMembers 0) zip64Block))) = .ok [] := by
    decide +kernel
  refine ⟨_, _, haccepted, ?_⟩
  obtain ⟨zip, size, members, h⟩ := accepted_of_verifyArchive haccepted
  intro htiled
  exact absurd (h.declaresExactly htiled) (by decide +kernel)

end Release

end Oasi
