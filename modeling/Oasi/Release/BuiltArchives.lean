import Oasi.Release.ArchiveUniqueness
import Oasi.Release.LayoutAcceptance
import Oasi.Release.WrittenArchive

/-! # What the builder makes and the verifier accepts

The builder and the verifier are written against each other: what one writes the other
accepts, but for two coincidences of numbers with signatures, and of all archives that are
accepted it is the one with the header fields of the writer.
-/

namespace Oasi

namespace Release

variable {unicode : UnicodeData} {zlib : Zlib} {source other : Source} {expected : Mapping}

/-! ## The data of the members -/

/-- What was read stably is what the allowlist states. -/
theorem listed_of_readStable {relative : Text} {reading : Reading} {listed : ExpectedFile}
    {data : Bytes} (h : readStable relative reading listed = .ok data) :
    listed = ⟨(hexdigest data).toList, data.length⟩ := by
  unfold readStable at h
  obtain ⟨before, _, h⟩ := bind_eq_ok.mp h
  split at h
  next => cases h
  next opened _ =>
    obtain ⟨_, _, h⟩ := bind_eq_ok.mp h
    split at h
    next content afterRead hcontent _ =>
      simp only [bind_eq_ok, failIf_eq_ok, not_or, not_not] at h
      obtain ⟨_, _, _, _, _, _, _, ⟨hlength, hsha256⟩, h⟩ := h
      cases h
      obtain ⟨sha256, size⟩ := listed
      rw [hlength, hsha256]
    next => cases h

theorem listed_of_read {relative : Text} {data : Bytes} (hname : relative ∈ expected.map Prod.fst)
    (h : source.read expected relative = .ok data) :
    expected.lookup relative = some ⟨(hexdigest data).toList, data.length⟩ := by
  obtain ⟨listed, hlisted⟩ := mem_map_fst_iff.mp hname
  have hread := listed_of_readStable h
  rw [hlisted, Option.getD_some] at hread
  rw [hlisted, hread]

theorem Writes.listed {front members : List Member} {names : List Text}
    (h : Writes zlib source expected front names members)
    (hnames : ∀ name ∈ names, name ∈ expected.map Prod.fst) :
    ∀ member ∈ members, expected.lookup member.name =
      some ⟨(hexdigest member.data).toList, member.data.length⟩ := by
  induction h with
  | nil front => simp
  | cons read head tail ih =>
      obtain ⟨hname, hrest⟩ := List.forall_mem_cons.mp hnames
      exact List.forall_mem_cons.mpr ⟨listed_of_read hname read, ih hrest⟩

theorem Writes.read {front members : List Member} {names : List Text}
    (h : Writes zlib source expected front names members) :
    ∀ member ∈ members, source.read expected member.name = .ok member.data := by
  induction h with
  | nil front => simp
  | cons read head tail ih => exact List.forall_mem_cons.mpr ⟨read, ih⟩

/-- The fields that the writer puts where no check looks. -/
def writtenFields (name : Text) : Unpinned := (Member.written name []).toUnpinned

theorem Writes.map_unpinned {front members : List Member} {names : List Text}
    (h : Writes zlib source expected front names members) :
    members.map Member.toUnpinned = names.map writtenFields := by
  induction h with
  | nil front => rfl
  | cons read head tail ih =>
      rw [List.map_cons, List.map_cons, ih]
      rfl

/-! ## Built archives are accepted -/

/-- A member that was written is sound. -/
theorem Writable.sound {front : List Member} {relative : Text} {data : Bytes}
    (h : Writable zlib front (Member.written relative data))
    (hportable : validatePortableName unicode relative = .ok ())
    (hlisted : expected.lookup relative = some ⟨(hexdigest data).toList, data.length⟩)
    (hinflate : zlib.inflate zipDeflated (zlib.deflate data) data.length = .ok data) :
    (Member.written relative data).Sound unicode zlib expected
      (localRecords zlib front).length where
  flags := by
    change hasOtherFlags (if isAscii relative = true then 0 else 0x800) = false
    rcases ite_eq_or_eq (isAscii relative = true) 0 0x800 with hflags | hflags
    all_goals
      rw [hflags]
      decide
  nameLength := (congrArg List.length (Member.nameBytes_written relative data)).symm
  extraLength := rfl
  commentLength := rfl
  decoded := Member.decoded_written relative data
  portable := hportable
  listed := hlisted
  inflated := hinflate
  fits_local := h.fits
  fits_central := h.fits_central

theorem Writes.soundRun {front members : List Member} {names : List Text}
    (h : Writes zlib source expected front names members) (hlisting : Listing unicode expected)
    (hnames : ∀ name ∈ names, name ∈ expected.map Prod.fst)
    (hinflate : ∀ data, zlib.inflate zipDeflated (zlib.deflate data) data.length = .ok data) :
    SoundRun unicode zlib expected (localRecords zlib front).length members := by
  induction h with
  | nil front => exact .nil _
  | @cons front relative data names members read head tail ih =>
      obtain ⟨hname, hrest⟩ := List.forall_mem_cons.mp hnames
      refine .cons (head.sound (hlisting.portable relative hname) (listed_of_read hname read)
        (hinflate data)) ?_
      have hnext : (localRecords zlib (front ++ [Member.written relative data])).length =
          (localRecords zlib front).length +
            ((Member.written relative data).localRecord zlib).length := by
        rw [localRecords_append, List.length_append]
        simp [localRecords]
      rw [← hnext]
      exact ih hrest

/-- The numbers of the end record contain its signature, or the bytes in front of it start
like a ZIP64 locator. -/
def LooksLikeSignature (archive : Bytes) : Prop :=
  eocdSignature <:+: slice archive (archive.length - 12) 10 ∨
    slice archive (archive.length - 42) 4 = locator64Signature

instance (archive : Bytes) : Decidable (LooksLikeSignature archive) :=
  inferInstanceAs (Decidable (_ ∨ _))

theorem slice_endFields (members : List Member) :
    slice (plainLayout unicode zlib members) ((plainLayout unicode zlib members).length - 12) 10 =
      endFields members.length (centralRecords unicode zlib 0 0 members).length
        (localRecords zlib members).length := by
  have hposition : (plainLayout unicode zlib members).length - 12 =
      (localRecords zlib members ++ centralRecords unicode zlib 0 0 members).length + 10 := by
    rw [length_plainLayout, List.length_append]
    omega
  have hpack (count size offset : Nat) : (endHeader count size offset).pack.drop 10 =
      endFields count size offset ++ [0, 0] := by
    simp only [EndHeader.pack, endHeader, endFields, eocdSignature, List.append_assoc]
    rfl
  rw [hposition, plainLayout_eq, ← List.append_assoc, slice, ← List.drop_drop, List.drop_left,
    hpack]
  exact List.take_left' rfl

theorem slice_locator {members : List Member} (hmembers : members ≠ [])
    (h : SoundRun unicode zlib expected 0 members) :
    slice (plainLayout unicode zlib members) ((plainLayout unicode zlib members).length - 42) 4 =
      locator64Signature ↔ EndsInLocator zlib members := by
  rcases List.eq_nil_or_concat' members with rfl | ⟨front, last, rfl⟩
  · exact absurd rfl hmembers
  · have hlast := h.last
    rw [Nat.zero_add] at hlast
    have hends : EndsInLocator zlib (front ++ [last]) ↔ last.nameBytes.length = 16 ∧
        leBytes 4 (localRecords zlib front).length = locator64Signature := by
      simp [EndsInLocator]
    have hlocator := @locator_plainLayout unicode zlib expected front last
      (endHeader (front ++ [last]).length (centralRecords unicode zlib 0 0 (front ++ [last])).length
        (localRecords zlib (front ++ [last])).length).pack h
    have hposition : (plainLayout unicode zlib (front ++ [last])).length - 42 =
        (localRecords zlib (front ++ [last])).length +
          (centralRecords unicode zlib 0 0 (front ++ [last])).length - 20 := by
      rw [length_plainLayout]
      omega
    rw [hends, ← locator_headerTail hlast, ← hlocator, ← plainLayout_eq, hposition, slice, slice,
      List.take_take]
    rfl

theorem Writes.accepted (hlisting : Listing unicode expected) {members : List Member}
    (hwrites : Writes zlib source expected [] (expected.map Prod.fst) members)
    (hrecords : (localRecords zlib members).length ≤ zip64Limit)
    (hdirectory : (centralRecords unicode zlib 0 0 members).length ≤ zip64Limit)
    (hinflate : ∀ data, zlib.inflate zipDeflated (zlib.deflate data) data.length = .ok data) :
    verifyArchive unicode zlib expected (.regular (some (plainLayout unicode zlib members))) =
        .ok [] ↔
      ¬LooksLikeSignature (plainLayout unicode zlib members) := by
  have hrun := hwrites.soundRun hlisting (fun _ hname => hname) hinflate
  have hcount := hwrites.length_le (Nat.zero_le _)
  have hnonempty : members ≠ [] := by
    rintro rfl
    exact hlisting.nonempty (List.map_eq_nil_iff.mp hwrites.map_name.symm)
  rw [verifyArchive_eq_nil_iff, verifyContents_plainLayout hlisting hrun hwrites.map_name
    (endHeader_fits hcount hdirectory hrecords), LooksLikeSignature, slice_endFields,
    slice_locator hnonempty hrun, not_or, and_comm]

/-- The verifier accepts what the builder returns, except where a number of it looks like
a signature. -/
theorem verifyArchive_writePartial {allowlist : PathState} {archive : Bytes}
    (hallowlist : parseAllowlist unicode allowlist = .ok expected)
    (hinflate : ∀ data, zlib.inflate zipDeflated (zlib.deflate data) data.length = .ok data)
    (hbuilt : writePartial unicode zlib source expected = .ok archive) :
    verifyArchive unicode zlib expected (.regular (some archive)) = .ok [] ↔
      ¬LooksLikeSignature archive := by
  have hlisting := listing_of_parseAllowlist hallowlist
  obtain ⟨members, hwrites, hrecords, hdirectory, rfl⟩ := (writePartial_eq_ok hlisting).mp hbuilt
  exact hwrites.accepted hlisting hrecords hdirectory hinflate

/-! ## One archive for one allowlist -/

/-- What two directories hold for the listed names has one digest for each. -/
theorem Writes.members_eq {front behind members others : List Member} {names : List Text}
    (hfirst : Writes zlib source expected front names members)
    (hsecond : Writes zlib other expected behind names others)
    (hnames : ∀ name ∈ names, name ∈ expected.map Prod.fst)
    (hcollision : ∀ name left right, source.read expected name = .ok left →
      other.read expected name = .ok right → hexdigest left = hexdigest right → left = right) :
    members = others := by
  induction hfirst generalizing behind others with
  | nil front =>
      cases hsecond
      rfl
  | cons read head tail ih =>
      obtain ⟨hname, hrest⟩ := List.forall_mem_cons.mp hnames
      cases hsecond with
      | cons otherRead otherHead otherTail =>
          have hlisted := (listed_of_read hname read).symm.trans (listed_of_read hname otherRead)
          injection hlisted with hlisted
          injection hlisted with hdigest _
          have hdata := hcollision _ _ _ read otherRead (String.toList_injective hdigest)
          rw [hdata, ih otherTail hrest]

/-- Without a collision the archive does not depend on the directory it is built from. -/
theorem writePartial_unique {allowlist : PathState} {first second : Bytes}
    (hallowlist : parseAllowlist unicode allowlist = .ok expected)
    (hfirst : writePartial unicode zlib source expected = .ok first)
    (hsecond : writePartial unicode zlib other expected = .ok second)
    (hcollision : ∀ name left right, source.read expected name = .ok left →
      other.read expected name = .ok right → hexdigest left = hexdigest right → left = right) :
    first = second := by
  have hlisting := listing_of_parseAllowlist hallowlist
  obtain ⟨members, hwrites, _, _, rfl⟩ := (writePartial_eq_ok hlisting).mp hfirst
  obtain ⟨others, hothers, _, _, rfl⟩ := (writePartial_eq_ok hlisting).mp hsecond
  rw [hwrites.members_eq hothers (fun _ hname => hname) hcollision]

theorem unpinned_centralEntries (cursor : Nat) (members : List Member) :
    (centralEntries unicode zlib cursor members).map (fun entry => entry.header.unpinned) =
      members.map Member.toUnpinned := by
  induction members generalizing cursor with
  | nil => rfl
  | cons member members ih => exact congrArg _ (ih _)

/-- Among the archives that the verifier accepts, the one that the builder returns is the one
with the fields of the writer and without a ZIP64 block. -/
theorem writePartial_eq_iff {allowlist : PathState} {archive accepted : Bytes}
    (hallowlist : parseAllowlist unicode allowlist = .ok expected)
    (hinflate : ∀ data, zlib.inflate zipDeflated (zlib.deflate data) data.length = .ok data)
    (hbuilt : writePartial unicode zlib source expected = .ok archive)
    (haccepted : verifyArchive unicode zlib expected (.regular (some accepted)) = .ok [])
    (hcollision : ∀ name left right, source.read expected name = .ok left →
      right ∈ contents zlib accepted → hexdigest left = hexdigest right → left = right) :
    archive = accepted ↔
      unpinnedFields accepted = some (expected.map fun entry => writtenFields entry.1, []) := by
  have hlisting := listing_of_parseAllowlist hallowlist
  obtain ⟨members, hwrites, hrecords, hdirectory, rfl⟩ := (writePartial_eq_ok hlisting).mp hbuilt
  obtain ⟨zip, size, others, hzip⟩ := accepted_of_verifyArchive haccepted
  have hfields := hwrites.map_unpinned
  rw [List.map_map] at hfields
  constructor
  · rintro rfl
    have hrun := hwrites.soundRun hlisting (fun _ hname => hname) hinflate
    obtain ⟨hopen, hlocator⟩ := openZip_plainLayout hrun
      (endHeader_fits (hwrites.length_le (Nat.zero_le _)) hdirectory hrecords)
    by_cases hends : EndsInLocator zlib members
    · cases (hlocator hends).symm.trans hzip.opened
    · rw [unpinnedFields, hopen hends]
      change some ((centralEntries unicode zlib 0 members).map _, []) = _
      rw [unpinned_centralEntries, hfields]
      rfl
  · intro hunpinned
    rw [hzip.unpinnedFields_eq] at hunpinned
    injection hunpinned with hunpinned
    injection hunpinned with hothers hblock
    have hsorted : sorted (expected.map Prod.fst) = expected.map Prod.fst :=
      (List.pairwise_map.mpr hlisting.ordered).insertionSort_eq
    have hmembers : members = others := by
      refine members_eq (hwrites.listed fun _ hname => hname) hzip.run.listed ?_ ?_ ?_
      · exact fun left hleft right hright =>
          hcollision left.name _ _ (hwrites.read left hleft) (hzip.mem_contents hright)
      · rw [hwrites.map_name, hzip.names, hsorted]
      · rw [hothers, hfields]
        rfl
    rw [hmembers, hzip.layout_eq, hblock, plainLayout]

/-! ## Two empty files -/

/-- The empty data are compressed as DEFLATE does, and others kept behind a mark. -/
def markedZlib : Zlib where
  deflate := fun data => if data = [] then [3, 0] else 0 :: data
  inflate := fun _ compressed _ => if compressed = [3, 0] then .ok [] else .ok compressed.tail

theorem inflate_markedZlib (data : Bytes) :
    markedZlib.inflate zipDeflated (markedZlib.deflate data) data.length = .ok data := by
  by_cases hdata : data = []
  · rw [hdata]
    rfl
  · have hmark : ¬(0 :: data : Bytes) = [3, 0] := by
      intro heq
      cases heq
    simp only [markedZlib, if_neg hdata, if_neg hmark, List.tail_cons]

/-- An empty file whose status nothing changes. -/
def emptyReading (inode : Nat) : Reading :=
  let status : Status := ⟨.regular, 1, inode, 0, 0⟩
  ⟨some status, some status, some [], some status, some status⟩

def emptySource (inode : Nat) : Source where
  root := ['s']
  reading := fun _ => emptyReading inode

def emptyFiles : Mapping := [(['a'], emptyFile), (['b'], emptyFile)]

def emptyFilesArchive : Bytes :=
  plainLayout .ascii markedZlib [Member.written ['a'] [], Member.written ['b'] []]

/-- The same archive but for a disk number. -/
def otherDiskArchive : Bytes :=
  plainLayout .ascii markedZlib [{ Member.written ['a'] [] with volume := 1 },
    Member.written ['b'] []]

theorem parseAllowlist_emptyFiles :
    parseAllowlist .ascii (.regular (some (encode lineFeedText))) = .ok emptyFiles :=
  parseAllowlist_eq_ok.mpr ⟨lineFeedText, rfl, parseText_lineFeedText⟩

theorem writePartial_emptySource :
    writePartial .ascii markedZlib (emptySource 1) emptyFiles = .ok emptyFilesArchive := by
  decide +kernel

theorem writePartial_emptySource_two :
    writePartial .ascii markedZlib (emptySource 2) emptyFiles = .ok emptyFilesArchive := by
  decide +kernel

theorem read_emptySource {inode : Nat} {name : Text} {data : Bytes}
    (h : (emptySource inode).read emptyFiles name = .ok data) : data = [] := by
  change readStable name (emptyReading inode) _ = .ok data at h
  simp only [readStable, emptyReading, requirePlainStatus, Except.mapError, ok_bind, bind_eq_ok,
    failIf_eq_ok] at h
  obtain ⟨_, _, _, _, _, _, _, _, h⟩ := h
  exact (Except.ok.inj h).symm

theorem verifyArchive_writePartial_emptySource :
    verifyArchive .ascii markedZlib emptyFiles (.regular (some emptyFilesArchive)) = .ok [] ↔
      ¬LooksLikeSignature emptyFilesArchive :=
  verifyArchive_writePartial parseAllowlist_emptyFiles inflate_markedZlib writePartial_emptySource

/-- Files of other inodes make the same archive. -/
theorem writePartial_unique_emptySource :
    writePartial .ascii markedZlib (emptySource 1) emptyFiles =
      writePartial .ascii markedZlib (emptySource 2) emptyFiles := by
  have hsame : emptyFilesArchive = emptyFilesArchive :=
    writePartial_unique parseAllowlist_emptyFiles writePartial_emptySource
      writePartial_emptySource_two fun _ _ _ hleft hright _ =>
        (read_emptySource hleft).trans (read_emptySource hright).symm
  exact writePartial_emptySource.trans
    ((congrArg Except.ok hsame).trans writePartial_emptySource_two.symm)

theorem writePartial_eq_iff_otherDisk :
    emptyFilesArchive = otherDiskArchive ↔ unpinnedFields otherDiskArchive =
      some (emptyFiles.map fun entry => writtenFields entry.1, []) := by
  refine writePartial_eq_iff parseAllowlist_emptyFiles inflate_markedZlib writePartial_emptySource
    (by decide +kernel) fun _ left right hleft hright _ => ?_
  have hcontents : contents markedZlib otherDiskArchive = [[], []] := by decide +kernel
  rw [hcontents] at hright
  have hempty : right = [] := by simpa using hright
  rw [read_emptySource hleft, hempty]

end Release

end Oasi