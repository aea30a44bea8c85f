import Oasi.Release.PinnedMembers

/-! # Archives without reported errors

A verification that reports nothing has read an archive whose entries are pinned down, one
for each listed name in ordinal order, and every byte of it is accounted for.
-/

namespace Oasi

namespace Release

open Reported

variable {unicode : UnicodeData} {zlib : Zlib} {expected : Mapping} {archive : Bytes}

/-! ## Runs of pinned entries -/

namespace PinnedRun

variable {concat : Int} {cursor : Nat} {entries : List CentralEntry} {members : List Member}

theorem map_unpinned (h : PinnedRun unicode zlib expected concat cursor entries members) :
    members.map Member.toUnpinned = entries.map fun entry => entry.header.unpinned := by
  induction h with
  | nil cursor => rfl
  | cons head tail ih => rw [List.map_cons, List.map_cons, ih, head.unpinned]

theorem map_name (h : PinnedRun unicode zlib expected concat cursor entries members) :
    members.map Member.name = entries.map fun entry => entry.info.filename := by
  induction h with
  | nil cursor => rfl
  | cons head tail ih => rw [List.map_cons, List.map_cons, ih, head.name]

/-- The records of the entries are those of the members. -/
theorem flatMap_record (h : PinnedRun unicode zlib expected concat cursor entries members) :
    entries.flatMap CentralEntry.record = centralRecords unicode zlib concat cursor members := by
  induction h with
  | nil cursor => rfl
  | cons head tail ih =>
      rw [List.flatMap_cons, ih, centralRecords, CentralEntry.record, Member.centralRecord,
        ← head.centralHeader, ← head.nameBytes]

end PinnedRun

/-! ## The whole verification -/

/-- What is known of an archive without reported errors. -/
structure Accepted (unicode : UnicodeData) (zlib : Zlib) (expected : Mapping) (archive : Bytes)
    (zip : ZipFile) (size : Nat) (members : List Member) : Prop where
  opened : openZip archive = .ok zip
  run : PinnedRun unicode zlib expected zip.record.concat 0 zip.entries members
  plain : ∀ entry ∈ zip.entries, entry.info.extra = [] ∧ entry.info.comment = []
  names : members.map Member.name = sorted (expected.map Prod.fst)
  read : ∀ member ∈ members, ∃ bounds ∈ zip.bounded,
    readMember zlib archive bounds.1 bounds.2 = .ok member.data
  records : archive = localRecords zlib members ++ archive.drop zip.startDir
  startDir : (localRecords zlib members).length = zip.startDir
  ends : zip.startDir + size + 22 = archive.length
  endHeader : EndHeader.unpack (archive.drop (archive.length - 22)) =
    endHeader members.length size zip.startDir

theorem ZipFile.map_fst_bounded (zip : ZipFile) : zip.bounded.map Prod.fst = zip.infolist := by
  rw [ZipFile.bounded, List.map_map]
  exact List.zipIdx_map_fst 0 _

theorem length_verifyLocalHeaders {startDir : Nat} {cursor : Int} {infos : List ZipInfo}
    {offsets : List (Option Nat)}
    (h : (verifyLocalHeaders archive startDir cursor infos).Clean offsets) :
    offsets.length = infos.length := by
  induction infos generalizing cursor offsets with
  | nil =>
      rw [verifyLocalHeaders] at h
      simp only [clean_bind, clean_pure] at h
      obtain ⟨_, _, rfl⟩ := h
      rfl
  | cons info infos ih =>
      obtain ⟨_, _, _, _, _, rest, rfl, hrest⟩ := verifyLocalHeaders_cons h
      rw [List.length_cons, List.length_cons, ih hrest]

/-- The attributes of every entry are checked. -/
theorem attributes_of_verifyEntries {entries : List (ZipInfo × Int × Option Nat)}
    (h : (verifyEntries unicode zlib archive expected entries).Clean ()) :
    ∀ entry ∈ entries, SoundAttributes unicode entry.1 := by
  induction entries with
  | nil => simp
  | cons entry entries ih =>
      obtain ⟨info, endOffset, dataOffset⟩ := entry
      rw [verifyEntries] at h
      obtain ⟨_, hattributes, h⟩ := clean_bind.mp h
      refine List.forall_mem_cons.mpr ⟨verifyAttributes_clean hattributes, ?_⟩
      split at h
      next => exact ih h
      next =>
        obtain ⟨_, _, hrest⟩ := clean_bind.mp h
        exact ih hrest

theorem exists_lookup_of_mem_sorted {name : Text} (h : name ∈ sorted (expected.map Prod.fst)) :
    ∃ listed, expected.lookup name = some listed := by
  have hmem : name ∈ expected.map Prod.fst := (List.perm_insertionSort _ _).mem_iff.mp h
  obtain ⟨pair, hpair, hname⟩ := List.mem_map.mp hmem
  apply Option.isSome_iff_exists.mp
  exact List.lookup_isSome_iff.mpr ⟨pair, hpair, beq_iff_eq.mpr hname.symm⟩

/-- A verification that reports nothing establishes all of it. -/
theorem accepted_of_clean (h : (verifyContents unicode zlib expected archive).Clean ()) :
    ∃ zip size members, Accepted unicode zlib expected archive zip size members := by
  unfold verifyContents at h
  simp only [clean_bind, clean_noteIf, clean_ofExcept, not_not] at h
  obtain ⟨zip, hopened, _, _, _, _, _, _, _, hnames, _, _, position, heocd, offsets, hlocals, _,
    hchecked, _⟩ := h
  obtain ⟨size, hends, hendHeader⟩ := verifyEocd_clean heocd
  obtain ⟨directory, hdrop, hsize, hentries⟩ := openZip_of_endHeader hends hendHeader hopened
  have hcounts : zip.bounded.length ≤ offsets.length := by
    rw [length_verifyLocalHeaders hlocals, ← zip.map_fst_bounded, List.length_map]
  -- `zip` stops at the shorter list, and the offsets are not the shorter one
  have hplain : ∀ entry ∈ zip.entries, entry.info.extra = [] ∧ entry.info.comment = [] := by
    intro entry hentry
    have hinfo : entry.info ∈ zip.bounded.map Prod.fst := by
      rw [zip.map_fst_bounded]
      exact List.mem_map_of_mem hentry
    rw [← List.map_fst_zip hcounts, List.map_map] at hinfo
    obtain ⟨triple, htriple, hfst⟩ := List.mem_map.mp hinfo
    have hattributes := attributes_of_verifyEntries hchecked _ (List.mem_map_of_mem htriple)
    rw [← hfst]
    exact ⟨hattributes.extra, hattributes.comment⟩
  obtain ⟨hread, _⟩ := readEntries_plain hentries hplain (.inl (Nat.zero_add _))
  have hlisted : ∀ entry ∈ zip.entries,
      ∃ listed, expected.lookup entry.info.filename = some listed := by
    intro entry hentry
    apply exists_lookup_of_mem_sorted
    rw [← hnames, ZipFile.infolist, List.map_map]
    exact List.mem_map_of_mem hentry
  obtain ⟨members, hrun, hmembers, hrecords, hstart⟩ := pinnedRun_of_clean zip.map_fst_bounded
    hlocals hchecked hread hlisted (by omega)
  have hcount : zip.infolist.length = members.length := by
    have hlength := congrArg List.length hrun.map_name
    rw [List.length_map, List.length_map] at hlength
    rw [ZipFile.infolist, List.length_map, hlength]
  refine ⟨zip, size, members, hopened, hrun, hplain, ?_, hmembers, hrecords, ?_, hends, ?_⟩
  · rw [hrun.map_name, ← hnames, ZipFile.infolist, List.map_map]
    rfl
  · rw [← hstart, Nat.zero_add]
  · rw [hendHeader, hcount]

namespace Accepted

variable {zip : ZipFile} {size : Nat} {members : List Member}

/-- The directory that was read is the records of the members, and the block follows. -/
theorem directory_eq (h : Accepted unicode zlib expected archive zip size members) :
    archive.drop zip.startDir = centralRecords unicode zlib zip.record.concat 0 members ++
        (zip.block archive ++ archive.drop (archive.length - 22)) ∧
      (centralRecords unicode zlib zip.record.concat 0 members).length +
        (zip.block archive).length = size := by
  obtain ⟨directory, hdrop, hsize, hentries⟩ := openZip_of_endHeader h.ends h.endHeader h.opened
  obtain ⟨_, hdirectory⟩ := readEntries_plain hentries h.plain (.inl (Nat.zero_add _))
  rw [h.run.flatMap_record] at hdirectory
  rw [← hdirectory]
  exact ⟨hdrop, hsize⟩

/-- Every byte of an accepted archive follows from its members and the block. -/
theorem layout_eq (h : Accepted unicode zlib expected archive zip size members) :
    archive = layout unicode zlib members (zip.block archive) := by
  obtain ⟨hdirectory, hsize⟩ := h.directory_eq
  obtain ⟨_, _, hconcat, _⟩ := block_of_endHeader h.ends h.endHeader h.opened
  have hlong := h.ends
  have hlength : (archive.drop (archive.length - 22)).length = 22 := by
    rw [List.length_drop]
    omega
  have hpack := EndHeader.pack_unpack hlength
  rw [h.endHeader] at hpack
  calc
    archive = localRecords zlib members ++ archive.drop zip.startDir := h.records
    _ = layout unicode zlib members (zip.block archive) := by
      rw [hdirectory, ← hpack, layout, h.startDir, ← hconcat, hsize]

end Accepted

/-- Nothing is reported where nothing is recorded and nothing raised. -/
theorem clean_of_verifyArchive
    (h : verifyArchive unicode zlib expected (.regular (some archive)) = .ok []) :
    (verifyContents unicode zlib expected archive).Clean () := by
  simp only [verifyArchive, requirePlainFile] at h
  split at h
  next value hresult =>
    exact ⟨Except.ok.inj h, hresult⟩
  next error _ =>
    split at h
    next => simp at h
    next => cases h

theorem accepted_of_verifyArchive
    (h : verifyArchive unicode zlib expected (.regular (some archive)) = .ok []) :
    ∃ zip size members, Accepted unicode zlib expected archive zip size members :=
  accepted_of_clean (clean_of_verifyArchive h)

end Release

end Oasi
