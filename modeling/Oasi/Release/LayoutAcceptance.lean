import Oasi.Foundation.Associations
import Oasi.Release.AllowlistCanonical
import Oasi.Release.EndRecordSearch
import Oasi.Release.LayoutReading

/-! # Layouts that are accepted

The checks have nothing against a layout of sound members in the order of the allowlist.
What remains are the two places where the bytes of a number may be taken for a signature:
the end record, and the offset of the last member in front of a name of sixteen bytes.
-/

namespace Oasi

namespace Release

open Reported

variable {unicode : UnicodeData} {zlib : Zlib} {expected : Mapping}

/-! ## Where the entries end -/

/-- The order in which the reader assigns the ends: from the last entry by offset on. -/
def Behind (left right : ZipInfo × Nat) : Prop := right.1.headerOffset ≤ left.1.headerOffset

instance : DecidableRel Behind := fun left right =>
  inferInstanceAs (Decidable (right.1.headerOffset ≤ left.1.headerOffset))

instance : Std.Total Behind := ⟨fun _ _ => Int.le_total _ _⟩

instance : IsTrans (ZipInfo × Nat) Behind :=
  ⟨fun _ _ _ hfirst hsecond => Int.le_trans hsecond hfirst⟩

/-- Entries of increasing offsets are sorted by turning them around. -/
theorem insertionSort_increasing {infos : List ZipInfo}
    (h : infos.Pairwise fun left right => left.headerOffset < right.headerOffset) :
    infos.zipIdx.insertionSort Behind = infos.zipIdx.reverse := by
  have hoffsets : (infos.zipIdx.map fun entry => entry.1.headerOffset).Pairwise (· < ·) := by
    rw [← List.zipIdx_map_fst 0 infos, List.pairwise_map] at h
    exact List.pairwise_map.mpr h
  have hbehind : infos.zipIdx.reverse.Pairwise Behind :=
    List.pairwise_reverse.mpr ((List.pairwise_map.mp hoffsets).imp fun hlt => Int.le_of_lt hlt)
  have hnodup : (infos.zipIdx.map fun entry => entry.1.headerOffset).Nodup :=
    hoffsets.imp fun hlt => Int.ne_of_lt hlt
  have hperm := List.perm_insertionSort Behind infos.zipIdx
  refine List.Perm.eq_of_pairwise ?_ (List.pairwise_insertionSort Behind _) hbehind
    (hperm.trans (List.reverse_perm _).symm)
  intro left right hleft hright hle hge
  exact List.inj_on_of_nodup_map hnodup (hperm.mem_iff.mp hleft) (List.mem_reverse.mp hright)
    (Int.le_antisymm hge hle)

/-- Where the offsets increase, an entry ends where the next one starts, and the last one
at the directory. -/
theorem endOffsets_increasing {startDir : Nat} {infos : List ZipInfo}
    (h : infos.Pairwise fun left right => left.headerOffset < right.headerOffset) :
    endOffsets startDir infos = ((List.range infos.length).zip
      (infos.map ZipInfo.headerOffset ++ [(startDir : Int)]).tail).reverse := by
  have hindices : infos.zipIdx.map Prod.snd = List.range infos.length := by
    rw [List.zipIdx_map_snd, List.range_eq_range']
  have hoffsets : infos.zipIdx.map (fun entry => entry.1.headerOffset) =
      infos.map ZipInfo.headerOffset := by
    conv_rhs => rw [← List.zipIdx_map_fst 0 infos, List.map_map]
    rfl
  have hends : endOffsets startDir infos = (List.range infos.length).reverse.zip
      (infos.map ZipInfo.headerOffset ++ [(startDir : Int)]).reverse := by
    rw [List.reverse_append, ← hindices, ← hoffsets, ← List.map_reverse, ← List.map_reverse,
      ← insertionSort_increasing h]
    rfl
  cases infos with
  | nil => rfl
  | cons info infos =>
      rw [hends, List.map_cons, List.cons_append, List.tail_cons, List.reverse_cons]
      have hlength : (List.range (info :: infos).length).reverse.length =
          (infos.map ZipInfo.headerOffset ++ [(startDir : Int)]).reverse.length := by simp
      rw [← List.append_nil (List.range (info :: infos).length).reverse,
        List.zip_append hlength, List.zip_nil_left, List.append_nil]
      exact (List.reverse_zipWith (by simp)).symm

/-- Each entry with the offset of the next one, or the directory. -/
theorem bounded_increasing {zip : ZipFile}
    (h : zip.infolist.Pairwise fun left right => left.headerOffset < right.headerOffset) :
    zip.bounded = zip.infolist.zip
      (zip.infolist.map ZipInfo.headerOffset ++ [(zip.startDir : Int)]).tail := by
  unfold ZipFile.bounded
  dsimp only
  rw [endOffsets_increasing h]
  obtain ⟨ends, hends⟩ : ∃ ends, ends =
      (zip.infolist.map ZipInfo.headerOffset ++ [(zip.startDir : Int)]).tail := ⟨_, rfl⟩
  have hlength : ends.length = zip.infolist.length := by simp [hends]
  rw [← hends]
  apply List.ext_getElem
  · simp [hlength]
  · intro index hindex hother
    have hbound : index < zip.infolist.length := by simpa using hindex
    have hend : index < ends.length := by omega
    have hlookup : ((List.range zip.infolist.length).zip ends).reverse.lookup index =
        some ends[index] := by
      rw [lookup_eq_some_iff_mem]
      · refine List.mem_reverse.mpr (List.mem_iff_getElem.mpr ⟨index, by simp; omega, ?_⟩)
        rw [List.getElem_zip, List.getElem_range]
      · rw [List.map_reverse, List.nodup_reverse, List.map_fst_zip (by simp [hlength])]
        exact List.nodup_range
    rw [List.getElem_map, List.getElem_zipIdx, List.getElem_zip]
    dsimp only
    rw [Nat.zero_add, hlookup]
    rfl

/-- The entries of members whose local records start at a cursor, each with where its local
record ends. -/
def memberBounds (unicode : UnicodeData) (zlib : Zlib) : Nat → List Member → List (ZipInfo × Int)
  | _, [] => []
  | cursor, member :: members =>
      ((member.centralEntry unicode zlib cursor).info,
        (cursor + (member.localRecord zlib).length : Nat)) ::
        memberBounds unicode zlib (cursor + (member.localRecord zlib).length) members

/-- The infos of members whose local records start at a cursor. -/
def memberInfos (unicode : UnicodeData) (zlib : Zlib) (cursor : Nat) (members : List Member) :
    List ZipInfo :=
  (centralEntries unicode zlib cursor members).map CentralEntry.info

/-- A central record points to where its local record begins. -/
theorem headerOffset_centralEntry (cursor : Nat) (member : Member) :
    (member.centralEntry unicode zlib cursor).info.headerOffset = cursor := Int.add_zero _

/-- No member begins before the cursor. -/
theorem le_headerOffset {cursor : Nat} {members : List Member} {info : ZipInfo}
    (h : info ∈ memberInfos unicode zlib cursor members) : (cursor : Int) ≤ info.headerOffset := by
  induction members generalizing cursor with
  | nil => cases h
  | cons member members ih =>
      rcases List.mem_cons.mp h with rfl | hmem
      · rw [headerOffset_centralEntry]
      · have hle := ih hmem
        omega

/-- Members begin one after the other. -/
theorem memberInfos_increasing (cursor : Nat) (members : List Member) :
    (memberInfos unicode zlib cursor members).Pairwise
      fun left right => left.headerOffset < right.headerOffset := by
  induction members generalizing cursor with
  | nil => exact .nil
  | cons member members ih =>
      refine List.pairwise_cons.mpr ⟨fun info hinfo => ?_, ih _⟩
      have hle := le_headerOffset hinfo
      have hlength := @Member.Sound.length_localRecord zlib member
      rw [headerOffset_centralEntry]
      omega

/-- Each member ends where the next one begins, and the last at the directory. -/
theorem zip_memberInfos (cursor : Nat) (members : List Member) :
    (memberInfos unicode zlib cursor members).zip
        ((memberInfos unicode zlib cursor members).map ZipInfo.headerOffset ++
          [((cursor + (localRecords zlib members).length : Nat) : Int)]).tail =
      memberBounds unicode zlib cursor members := by
  induction members generalizing cursor with
  | nil => rfl
  | cons member members ih =>
      have hrest := ih (cursor + (member.localRecord zlib).length)
      have htotal : cursor + (localRecords zlib (member :: members)).length =
          cursor + (member.localRecord zlib).length + (localRecords zlib members).length := by
        rw [localRecords, List.flatMap_cons, List.length_append, ← Nat.add_assoc]
        rfl
      rw [memberBounds, ← hrest, htotal]
      cases members with
      | nil => rfl
      | cons second members =>
          have hoffset := @headerOffset_centralEntry unicode zlib
            (cursor + (member.localRecord zlib).length) second
          rw [← hoffset]
          rfl

/-- A member ends where its local record ends. -/
theorem bounded_layoutZip (members : List Member) :
    (layoutZip unicode zlib members).bounded = memberBounds unicode zlib 0 members := by
  have hbounded := @bounded_increasing (layoutZip unicode zlib members)
    (memberInfos_increasing 0 members)
  have hzip := @zip_memberInfos unicode zlib 0 members
  rw [Nat.zero_add] at hzip
  exact hbounded.trans hzip

/-! ## The checks on one member -/

/-- The local record of a member stands at a cursor. -/
def LocalAt (zlib : Zlib) (archive : Bytes) (cursor : Nat) (member : Member) : Prop :=
  member.localRecord zlib <+: archive.drop cursor

namespace LocalAt

variable {archive : Bytes} {cursor : Nat} {member : Member}

/-- A local header is read where it stands. -/
theorem slice_header (h : LocalAt zlib archive cursor member) :
    slice archive cursor 30 = (member.localHeader zlib).pack := by
  obtain ⟨rest, hrest⟩ := h
  rw [slice, ← hrest, Member.localRecord, List.append_assoc,
    List.take_left' (LocalHeader.length_pack rfl)]

/-- A name is read behind its header. -/
theorem slice_name (h : LocalAt zlib archive cursor member) :
    slice archive (cursor + 30) member.nameBytes.length = member.nameBytes := by
  obtain ⟨rest, hrest⟩ := h
  rw [slice, ← List.drop_drop, ← hrest, Member.localRecord, List.append_assoc,
    List.drop_left' (LocalHeader.length_pack rfl), List.append_assoc, List.take_left]

/-- The compressed data is read behind the name. -/
theorem slice_compressed (h : LocalAt zlib archive cursor member) :
    slice archive (cursor + 30 + member.nameBytes.length) (zlib.deflate member.data).length =
      zlib.deflate member.data := by
  obtain ⟨rest, hrest⟩ := h
  rw [slice, ← List.drop_drop, ← List.drop_drop, ← hrest, Member.localRecord, List.append_assoc,
    List.drop_left' (LocalHeader.length_pack rfl), List.append_assoc, List.drop_left,
    List.take_left]

end LocalAt

namespace Member.Sound

variable {archive : Bytes} {cursor : Nat} {member : Member}

/-- Only the flag of the name may be set. -/
theorem testBit_flagBits (h : member.Sound unicode zlib expected cursor) {bit : Nat}
    (hbit : bit ≠ 11) : member.flagBits.testBit bit = false := by
  have hflags := h.flags
  rw [hasOtherFlags, bne_eq_false_iff_eq] at hflags
  rw [← hflags, Nat.testBit_and, show 0x800 = 2 ^ 11 by rfl, Nat.testBit_two_pow_of_ne hbit.symm,
    Bool.and_false]

/-- The name that is expected is the one that is stored. -/
theorem expectedNameBytes_eq (h : member.Sound unicode zlib expected cursor) :
    expectedNameBytes (member.centralEntry unicode zlib cursor).info = .ok member.nameBytes := by
  have hname : (member.centralEntry unicode zlib cursor).info.filename = member.name :=
    h.takeWhile_name
  have hflags : (member.centralEntry unicode zlib cursor).info.flagBits = member.flagBits := rfl
  have hdecoded := h.decoded
  rw [expectedNameBytes, hname, hflags]
  unfold decodeFilename at hdecoded
  split at hdecoded
  next hflag => rw [if_pos hflag, Member.nameBytes, rawName, if_pos hflag]
  next hflag => rw [if_neg hflag, ← Except.ok.inj hdecoded, cp437Encode_decode]

/-- The local header of a sound member is clean. -/
theorem verifyLocalHeader_clean (h : member.Sound unicode zlib expected cursor)
    (hat : LocalAt zlib archive cursor member) :
    (verifyLocalHeader archive (member.centralEntry unicode zlib cursor).info cursor
      (member.localHeader zlib)).Clean () := by
  have hname := hat.slice_name
  have hnameSize : (member.localHeader zlib).nameSize = member.nameBytes.length := rfl
  have hextraSize : (member.localHeader zlib).extraSize = 0 := rfl
  unfold verifyLocalHeader
  simp only [clean_bind, clean_noteIf, clean_ofExcept, exists_const, not_or, not_not, hnameSize,
    hextraSize, hname, slice_zero, h.expectedNameBytes_eq]
  refine ⟨rfl, ⟨rfl, rfl⟩, ⟨rfl, Bool.eq_false_iff.mp h.flags⟩, ⟨rfl, rfl⟩, ⟨rfl, rfl⟩,
    ⟨rfl, rfl, rfl⟩, _, rfl, rfl, trivial, trivial⟩

/-- The attributes of a member are the expected ones. -/
theorem verifyAttributes_clean (h : member.Sound unicode zlib expected cursor) :
    (verifyAttributes unicode (member.centralEntry unicode zlib cursor).info).Clean () := by
  have hname : (member.centralEntry unicode zlib cursor).info.filename = member.name :=
    h.takeWhile_name
  have hslash : member.name.getLast? ≠ some '/' := by
    intro hlast
    obtain ⟨front, hfront⟩ := List.getLast?_eq_some_iff.mp hlast
    have hparts := List.splitOn_append_cons_self (a := '/') front []
    rw [← hfront] at hparts
    have hmem : [] ∈ member.name.splitOn '/' := by
      rw [hparts]
      exact List.mem_append_right _ List.mem_cons_self
    exact ((portableName_of_validate h.portable).components _ hmem).1 rfl
  have hmode : ∀ mode ∈ [0o755, 0o644],
      ((0o100000 ||| mode) <<< 16 >>> 16 &&& 0xFFFF) &&& 0o170000 = 0o100000 ∧
        ((0o100000 ||| mode) <<< 16 >>> 16 &&& 0xFFFF) &&& 0o7777 = mode ∧
          (0o100000 ||| mode) <<< 16 &&& 0xFFFF = 0 := by decide
  have hcanonical : canonicalMode unicode member.name ∈ [0o755, 0o644] := by
    rcases ite_eq_or_eq (unicode.lower (pathSuffix member.name) ∈ executableSuffixes) 0o755 0o644
      with hcase | hcase
    all_goals
      rw [canonicalMode, hcase]
      decide
  have hdate : (member.centralEntry unicode zlib cursor).info.dateTime = expectedTimestamp := by
    change DateTime.mk ((dosDatetime expectedTimestamp).2 / 512 + 1980)
      ((dosDatetime expectedTimestamp).2 / 32 % 16) ((dosDatetime expectedTimestamp).2 % 32)
      ((dosDatetime expectedTimestamp).1 / 2048) ((dosDatetime expectedTimestamp).1 / 32 % 64)
      ((dosDatetime expectedTimestamp).1 % 32 * 2) = _
    decide
  obtain ⟨hkind, hpermission, hdos⟩ := hmode _ hcanonical
  unfold verifyAttributes
  dsimp only
  rw [hname, h.portable]
  simp only [clean_bind, clean_noteIf, exists_const, not_or, not_not]
  exact ⟨hslash, hdate, ⟨rfl, rfl⟩, hkind, hpermission, hdos, rfl, rfl,
    Bool.eq_false_iff.mp h.flags, rfl, rfl⟩

/-- The member is opened where its compressed data start. -/
theorem openMember_eq (h : member.Sound unicode zlib expected cursor)
    (hat : LocalAt zlib archive cursor member) :
    openMember archive (member.centralEntry unicode zlib cursor).info
        (cursor + (member.localRecord zlib).length : Nat) =
      .ok (cursor + 30 + member.nameBytes.length) := by
  have hfifth := h.testBit_flagBits (show 5 ≠ 11 by decide)
  have hsixth := h.testBit_flagBits (show 6 ≠ 11 by decide)
  have hencrypted := h.testBit_flagBits (show 0 ≠ 11 by decide)
  have hnameSize : (member.localHeader zlib).nameSize = member.nameBytes.length := rfl
  have hextraSize : (member.localHeader zlib).extraSize = 0 := rfl
  have hflags : (member.localHeader zlib).flags = member.flagBits := rfl
  have hsignature : (member.localHeader zlib).signature = localSignature := rfl
  have hname : (member.centralEntry unicode zlib cursor).info.origFilename = member.name := rfl
  have hcompressed : (member.centralEntry unicode zlib cursor).info.compressSize =
    (zlib.deflate member.data).length := rfl
  have hinfoFlags : (member.centralEntry unicode zlib cursor).info.flagBits =
    member.flagBits := rfl
  have hpack : (member.localHeader zlib).pack.length = 30 := LocalHeader.length_pack rfl
  have hunpack := @LocalHeader.unpack_pack (member.localHeader zlib) rfl h.fits_local
  have hnonneg : ¬(cursor : Int) < 0 := by omega
  have hroom : ¬(cursor : Int) + (member.localRecord zlib).length <
      cursor + 30 + member.nameBytes.length + (zlib.deflate member.data).length := by
    rw [length_localRecord]
    omega
  unfold openMember
  simp only [headerOffset_centralEntry, Int.toNat_natCast, hat.slice_header,
    hpack, hunpack, hnameSize, hextraSize,
    hflags, hsignature, hname, hcompressed, hinfoFlags, hat.slice_name, slice_zero, h.decoded,
    hfifth, hsixth, hencrypted, ok_bind, List.length_nil]
  simp [failIf, hnonneg, hroom]

/-- What is read are the data of the member. -/
theorem readMember_eq (h : member.Sound unicode zlib expected cursor)
    (hat : LocalAt zlib archive cursor member) :
    readMember zlib archive (member.centralEntry unicode zlib cursor).info
        (cursor + (member.localRecord zlib).length : Nat) = .ok member.data := by
  have hsize : (member.centralEntry unicode zlib cursor).info.compressSize =
    (zlib.deflate member.data).length := rfl
  have hcrc : crc32 member.data = (member.centralEntry unicode zlib cursor).info.crc := rfl
  rw [readMember, h.openMember_eq hat, ok_bind, hsize, hat.slice_compressed]
  change (zlib.inflate zipDeflated (zlib.deflate member.data) member.data.length >>= _) = _
  rw [h.inflated, ok_bind, failIf, if_neg (not_not.mpr hcrc)]
  rfl

end Member.Sound

/-! ## The loops -/

variable {archive : Bytes} {cursor : Nat} {members : List Member}

/-- Where the compressed data of the members start. -/
def dataOffsets (zlib : Zlib) : Nat → List Member → List (Option Nat)
  | _, [] => []
  | cursor, member :: members =>
      some (cursor + 30 + member.nameBytes.length) ::
        dataOffsets zlib (cursor + (member.localRecord zlib).length) members

/-- The first of several records stands at the cursor, and the others behind it. -/
theorem localRecords_prefix {member : Member}
    (h : localRecords zlib (member :: members) <+: archive.drop cursor) :
    LocalAt zlib archive cursor member ∧
      localRecords zlib members <+: archive.drop (cursor + (member.localRecord zlib).length) := by
  obtain ⟨rest, hrest⟩ := h
  rw [localRecords, List.flatMap_cons, List.append_assoc] at hrest
  refine ⟨⟨_, hrest⟩, rest, ?_⟩
  rw [← List.drop_drop, ← hrest, List.drop_left]
  rfl

/-- The local headers of sound members are clean, and the data begins where it should. -/
theorem verifyLocalHeaders_sound {startDir : Nat}
    (h : SoundRun unicode zlib expected cursor members)
    (hat : localRecords zlib members <+: archive.drop cursor)
    (hend : cursor + (localRecords zlib members).length = startDir) :
    (verifyLocalHeaders archive startDir cursor (memberInfos unicode zlib cursor members)).Clean
      (dataOffsets zlib cursor members) := by
  induction h with
  | nil cursor =>
      change (verifyLocalHeaders archive startDir cursor []).Clean []
      rw [verifyLocalHeaders]
      simp only [clean_bind, clean_noteIf, exists_const, clean_pure, and_true, not_not]
      exact_mod_cast hend
  | @cons cursor member members head tail ih =>
      obtain ⟨hhead, htail⟩ := localRecords_prefix hat
      have hlength : (member.localHeader zlib).pack.length = 30 := LocalHeader.length_pack rfl
      have hunpack := @LocalHeader.unpack_pack (member.localHeader zlib) rfl head.fits_local
      have hoffset := @headerOffset_centralEntry unicode zlib cursor member
      have hnext : ((cursor + 30 + (member.localHeader zlib).nameSize +
          (member.localHeader zlib).extraSize : Nat) : Int) +
            (member.centralEntry unicode zlib cursor).info.compressSize =
              (cursor + (member.localRecord zlib).length : Nat) := by
        rw [Member.Sound.length_localRecord]
        change ((cursor + 30 + member.nameBytes.length + 0 : Nat) : Int) +
          (zlib.deflate member.data).length = _
        omega
      have hrest := ih htail (by
        rw [localRecords, List.flatMap_cons, List.length_append, ← Nat.add_assoc] at hend
        exact hend)
      change (verifyLocalHeaders archive startDir cursor
        ((member.centralEntry unicode zlib cursor).info ::
          memberInfos unicode zlib _ members)).Clean (some _ :: dataOffsets zlib _ members)
      rw [verifyLocalHeaders, hoffset]
      simp only [clean_bind, clean_noteIf, clean_ofExcept, exists_const, failIf_eq_ok,
        Int.toNat_natCast, hhead.slice_header, hlength, ne_eq, not_true_eq_false, if_false, hunpack]
      refine ⟨not_false, by omega, (), head.verifyLocalHeader_clean hhead, _, ?_,
        clean_pure.mpr rfl⟩
      rw [hnext]
      exact hrest

/-- The entries with their ends and offsets, as the verifier puts them together. -/
def memberChecks (unicode : UnicodeData) (zlib : Zlib) (cursor : Nat) (members : List Member) :
    List (ZipInfo × Int × Option Nat) :=
  ((memberBounds unicode zlib cursor members).zip (dataOffsets zlib cursor members)).map
    fun ((info, endOffset), offset) => (info, endOffset, offset)

/-- A sound member passes the check of its sizes and digest. -/
theorem verifyMember_sound {member : Member} (h : member.Sound unicode zlib expected cursor)
    (hat : LocalAt zlib archive cursor member) :
    (verifyMember zlib archive (member.centralEntry unicode zlib cursor).info
      (cursor + (member.localRecord zlib).length : Nat)
      (some (cursor + 30 + member.nameBytes.length))
      ⟨(hexdigest member.data).toList, member.data.length⟩).Clean () := by
  have hsize : (member.centralEntry unicode zlib cursor).info.compressSize =
    (zlib.deflate member.data).length := rfl
  have hfileSize : (member.centralEntry unicode zlib cursor).info.fileSize =
    member.data.length := rfl
  have hcrc : (member.centralEntry unicode zlib cursor).info.crc = crc32 member.data := rfl
  have hread := h.readMember_eq hat
  rw [verifyMember]
  simp only [hread, hfileSize, hcrc, hsize, hat.slice_compressed]
  exact clean_bind.mpr ⟨(), by simp, clean_bind.mpr ⟨(), by simp, clean_bind.mpr
    ⟨(), by simp, by simp⟩⟩⟩

/-- Sound members pass all the checks of their entries. -/
theorem verifyEntries_sound (h : SoundRun unicode zlib expected cursor members)
    (hat : localRecords zlib members <+: archive.drop cursor) :
    (verifyEntries unicode zlib archive expected (memberChecks unicode zlib cursor members)).Clean
      () := by
  induction h with
  | nil cursor => exact clean_pure.mpr rfl
  | @cons cursor member members head tail ih =>
      obtain ⟨hhead, htail⟩ := localRecords_prefix hat
      have hname : (member.centralEntry unicode zlib cursor).info.filename = member.name :=
        head.takeWhile_name
      change (verifyEntries unicode zlib archive expected
        (((member.centralEntry unicode zlib cursor).info, _, some _) ::
          memberChecks unicode zlib _ members)).Clean ()
      rw [verifyEntries, hname, head.listed]
      simp only [clean_bind]
      exact ⟨(), head.verifyAttributes_clean, (), verifyMember_sound head hhead, ih htail⟩

/-- Every sound member can be read. -/
theorem readMember_sound (h : SoundRun unicode zlib expected cursor members)
    (hat : localRecords zlib members <+: archive.drop cursor) :
    ∀ bounds ∈ memberBounds unicode zlib cursor members,
      ∃ data, readMember zlib archive bounds.1 bounds.2 = .ok data := by
  induction h with
  | nil cursor => simp [memberBounds]
  | @cons cursor member members head tail ih =>
      obtain ⟨hhead, htail⟩ := localRecords_prefix hat
      exact List.forall_mem_cons.mpr ⟨⟨_, head.readMember_eq hhead⟩, ih htail⟩

/-- Where every entry can be read, no name of one is reported. -/
theorem testzip_eq_none {all : List (ZipInfo × Int)} {names : List Text}
    (hread : ∀ bounds ∈ all, ∃ data, readMember zlib archive bounds.1 bounds.2 = .ok data)
    (hnames : ∀ name ∈ names, ∃ bounds ∈ all, bounds.1.filename = name) :
    testzip zlib archive all names = .ok none := by
  induction names with
  | nil => rfl
  | cons name names ih =>
      obtain ⟨⟨bounds, hbounds, hname⟩, hrest⟩ := List.forall_mem_cons.mp hnames
      rw [testzip]
      cases hfound : all.reverse.find? fun entry => entry.1.filename = name with
      | none =>
          have hnot := List.find?_eq_none.mp hfound bounds (List.mem_reverse.mpr hbounds)
          exact absurd (decide_eq_true hname) hnot
      | some entry =>
          have hentry := List.mem_reverse.mp (List.mem_of_find?_eq_some hfound)
          obtain ⟨data, hdata⟩ := hread entry hentry
          dsimp only
          rw [hdata]
          exact ih hrest

/-! ## The whole verification -/

/-- The search for the end record of a layout. -/
theorem verifyEocd_plainLayout
    (hfits : (endHeader members.length (centralRecords unicode zlib 0 0 members).length
      (localRecords zlib members).length).Fits) :
    (∃ position, (verifyEocd (plainLayout unicode zlib members) (localRecords zlib members).length
        members.length).Clean position) ↔
      ¬eocdSignature <:+: endFields members.length (centralRecords unicode zlib 0 0 members).length
        (localRecords zlib members).length := by
  obtain ⟨record, hrecord⟩ : ∃ record, record = (endHeader members.length
    (centralRecords unicode zlib 0 0 members).length (localRecords zlib members).length).pack :=
      ⟨_, rfl⟩
  have hlength : record.length = 22 := by rw [hrecord, EndHeader.length_pack rfl]
  have hunpack := EndHeader.unpack_pack rfl hfits
  rw [← hrecord] at hunpack
  have hstart : eocdSignature <+: record := by
    rw [hrecord, EndHeader.pack]
    exact List.prefix_append _ _
  rw [← signature_in_record, plainLayout_eq, ← List.append_assoc, ← hrecord]
  cases hfind : rfind eocdSignature record with
  | none => exact absurd hstart.isInfix (rfind_eq_none_iff.mp hfind)
  | some position =>
      rw [verifyEocd_record hlength hunpack List.length_append hfind, Option.some.injEq]
      by_cases hzero : position = 0
      · simp [hzero, Clean]
      · simp [hzero, Clean]

/-- The directory lists the members' names. -/
theorem filename_memberInfos (h : SoundRun unicode zlib expected cursor members) :
    (memberInfos unicode zlib cursor members).map ZipInfo.filename = members.map Member.name := by
  induction h with
  | nil cursor => rfl
  | cons head tail ih =>
      change _ :: List.map ZipInfo.filename (memberInfos unicode zlib _ _) = _
      rw [ih, List.map_cons]
      exact congrArg (· :: _) head.takeWhile_name

/-- The directory lists as many entries as there are members. -/
theorem length_memberInfos (cursor : Nat) (members : List Member) :
    (memberInfos unicode zlib cursor members).length = members.length := by
  induction members generalizing cursor with
  | nil => rfl
  | cons member members ih => exact congrArg (· + 1) (ih _)

/-- The checks have nothing against a layout of sound members under the names of the
allowlist, except where a number looks like a signature. -/
theorem verifyContents_plainLayout (hlisting : Listing unicode expected)
    (h : SoundRun unicode zlib expected 0 members)
    (hnames : members.map Member.name = expected.map Prod.fst)
    (hfits : (endHeader members.length (centralRecords unicode zlib 0 0 members).length
      (localRecords zlib members).length).Fits) :
    (verifyContents unicode zlib expected (plainLayout unicode zlib members)).Clean () ↔
      ¬EndsInLocator zlib members ∧ ¬eocdSignature <:+: endFields members.length
        (centralRecords unicode zlib 0 0 members).length (localRecords zlib members).length := by
  obtain ⟨hopen, hlocator⟩ := openZip_plainLayout h hfits
  by_cases hends : EndsInLocator zlib members
  · -- the archive is not opened
    rw [verifyContents, hlocator hends]
    simp [clean_bind, hends]
  · have hat : localRecords zlib members <+: (plainLayout unicode zlib members).drop 0 := by
      rw [List.drop_zero, plainLayout_eq]
      exact List.prefix_append _ _
    have hinfos : (layoutZip unicode zlib members).infolist = memberInfos unicode zlib 0 members :=
      rfl
    have hstart : (layoutZip unicode zlib members).startDir = (localRecords zlib members).length :=
      rfl
    have hcomment : (layoutZip unicode zlib members).record.comment = [] := rfl
    have hsorted : sorted (expected.map Prod.fst) = expected.map Prod.fst :=
      (List.pairwise_map.mpr hlisting.ordered).insertionSort_eq
    have hfilenames := filename_memberInfos h
    rw [hnames] at hfilenames
    have hlocals := verifyLocalHeaders_sound h hat (Nat.zero_add _)
    have hchecked := verifyEntries_sound h hat
    have htestzip : testzip zlib (plainLayout unicode zlib members)
        (memberBounds unicode zlib 0 members) (expected.map Prod.fst) = .ok none := by
      refine testzip_eq_none (readMember_sound h hat) fun name hname => ?_
      have hbounds : (memberBounds unicode zlib 0 members).map Prod.fst =
          memberInfos unicode zlib 0 members := by
        rw [← bounded_layoutZip, ZipFile.map_fst_bounded]
        rfl
      rw [← hfilenames, ← hbounds, List.map_map] at hname
      exact List.mem_map.mp hname
    rw [← verifyEocd_plainLayout hfits, verifyContents, hopen hends, ofExcept_ok_bind]
    simp only [clean_bind, clean_noteIf, clean_ofExcept, exists_const, not_not, hinfos, hstart,
      hcomment, bounded_layoutZip, hfilenames, hsorted, length_memberInfos, htestzip, hends,
      not_false_eq_true, true_and]
    constructor
    · rintro ⟨_, _, position, heocd, _⟩
      exact ⟨position, heocd⟩
    · rintro ⟨position, heocd⟩
      exact ⟨hlisting.nodup, hlisting.distinct, position, heocd, _, hlocals, (), hchecked, none,
        rfl, clean_pure.mpr rfl⟩

/-- An archive has no violations when its contents are clean. -/
theorem verifyArchive_eq_nil_iff {archive : Bytes} :
    verifyArchive unicode zlib expected (.regular (some archive)) = .ok [] ↔
      (verifyContents unicode zlib expected archive).Clean () := by
  refine ⟨clean_of_verifyArchive, ?_⟩
  rintro ⟨hmessages, hresult⟩
  simp only [verifyArchive, requirePlainFile, hresult, hmessages]

end Release

end Oasi
