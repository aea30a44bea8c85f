import Oasi.Release.AcceptedArchives
import Oasi.Release.AllowlistCanonical

/-! # How much an allowlist says about an archive

Two archives that the verifier accepts under one allowlist differ only where no check
looks: in the flag of the names, the fields of a central header that the reader hides,
and the ZIP64 block that it reads in spite of `allowZip64=False`.
-/

namespace Oasi

namespace Release

variable {unicode : UnicodeData} {zlib : Zlib} {expected : Mapping}

/-- The fields of an archive that no check compares with the allowlist. -/
def unpinnedFields (archive : Bytes) : Option (List Unpinned × Bytes) :=
  match openZip archive with
  | .error _ => none
  | .ok zip => some (zip.entries.map fun entry => entry.header.unpinned, zip.block archive)

/-- The data of the members that can be read. -/
def contents (zlib : Zlib) (archive : Bytes) : List Bytes :=
  match openZip archive with
  | .error _ => []
  | .ok zip =>
      zip.bounded.filterMap fun bounds => (readMember zlib archive bounds.1 bounds.2).toOption

namespace Accepted

variable {archive : Bytes} {zip : ZipFile} {size : Nat} {members : List Member}

theorem unpinnedFields_eq (h : Accepted unicode zlib expected archive zip size members) :
    unpinnedFields archive = some (members.map Member.toUnpinned, zip.block archive) := by
  rw [unpinnedFields, h.opened, h.run.map_unpinned]

theorem mem_contents (h : Accepted unicode zlib expected archive zip size members)
    {member : Member} (hmember : member ∈ members) : member.data ∈ contents zlib archive := by
  obtain ⟨bounds, hbounds, hread⟩ := h.read member hmember
  rw [contents, h.opened]
  refine List.mem_filterMap.mpr ⟨bounds, hbounds, ?_⟩
  rw [hread]
  rfl

end Accepted

theorem PinnedRun.listed {concat : Int} {cursor : Nat} {entries : List CentralEntry}
    {members : List Member} (h : PinnedRun unicode zlib expected concat cursor entries members) :
    ∀ member ∈ members, expected.lookup member.name =
      some ⟨(hexdigest member.data).toList, member.data.length⟩ := by
  induction h with
  | nil cursor => simp
  | cons head tail ih => exact List.forall_mem_cons.mpr ⟨head.listed, ih⟩

/-- Members of one name have one digest, and without a collision the same data. -/
theorem members_eq {first second : List Member}
    (hfirst : ∀ member ∈ first, expected.lookup member.name =
      some ⟨(hexdigest member.data).toList, member.data.length⟩)
    (hsecond : ∀ member ∈ second, expected.lookup member.name =
      some ⟨(hexdigest member.data).toList, member.data.length⟩)
    (hcollision : ∀ left ∈ first, ∀ right ∈ second, hexdigest left.data = hexdigest right.data →
      left.data = right.data)
    (hnames : first.map Member.name = second.map Member.name)
    (hunpinned : first.map Member.toUnpinned = second.map Member.toUnpinned) : first = second := by
  induction first generalizing second with
  | nil => exact (List.map_eq_nil_iff.mp hnames.symm).symm
  | cons left first ih =>
      cases second with
      | nil => cases hnames
      | cons right second =>
          obtain ⟨hname, hnames⟩ := List.cons.inj hnames
          obtain ⟨hfields, hunpinned⟩ := List.cons.inj hunpinned
          have hrest : first = second := by
            apply ih _ _ _ hnames hunpinned
            · exact fun member hmember => hfirst member (List.mem_cons_of_mem _ hmember)
            · exact fun member hmember => hsecond member (List.mem_cons_of_mem _ hmember)
            · intro member hmember other hother
              exact hcollision member (List.mem_cons_of_mem _ hmember) other
                (List.mem_cons_of_mem _ hother)
          have hlookup := hfirst left List.mem_cons_self
          rw [hname, hsecond right List.mem_cons_self] at hlookup
          have hdigest : hexdigest left.data = hexdigest right.data := by
            injection hlookup with hlisted
            injection hlisted with hdigest _
            exact String.toList_injective hdigest.symm
          have hdata := hcollision left List.mem_cons_self right List.mem_cons_self hdigest
          obtain ⟨leftFields, leftName, leftData⟩ := left
          obtain ⟨rightFields, rightName, rightData⟩ := right
          cases hname
          cases hfields
          cases hdata
          rw [hrest]

/-- Without a collision among the members, two accepted archives are the same exactly when
they agree in the fields that no check compares. -/
theorem eq_iff_unpinnedFields {first second : Bytes}
    (hfirst : verifyArchive unicode zlib expected (.regular (some first)) = .ok [])
    (hsecond : verifyArchive unicode zlib expected (.regular (some second)) = .ok [])
    (hcollision : ∀ left ∈ contents zlib first, ∀ right ∈ contents zlib second,
      hexdigest left = hexdigest right → left = right) :
    first = second ↔ unpinnedFields first = unpinnedFields second := by
  constructor
  · rintro rfl
    rfl
  · intro hunpinned
    obtain ⟨firstZip, firstSize, firstMembers, hfirst⟩ := accepted_of_verifyArchive hfirst
    obtain ⟨secondZip, secondSize, secondMembers, hsecond⟩ := accepted_of_verifyArchive hsecond
    rw [hfirst.unpinnedFields_eq, hsecond.unpinnedFields_eq] at hunpinned
    injection hunpinned with hunpinned
    injection hunpinned with hfields hblock
    have hmembers : firstMembers = secondMembers := by
      apply members_eq hfirst.run.listed hsecond.run.listed _ _ hfields
      · exact fun left hleft right hright =>
          hcollision _ (hfirst.mem_contents hleft) _ (hsecond.mem_contents hright)
      · rw [hfirst.names, hsecond.names]
    rw [hfirst.layout_eq, hsecond.layout_eq, hmembers, hblock]

/-! ## A pair of archives -/

/-- DEFLATE on the contents `x` and `yz`. -/
def pairZlib : Zlib where
  deflate := fun data => if data = [120] then [171, 0, 0] else [171, 172, 2, 0]
  inflate := fun _ compressed _ =>
    if compressed = [171, 0, 0] then .ok [120]
    else if compressed = [171, 172, 2, 0] then .ok [121, 122]
    else .error .zlibError

def pairExpected : Mapping :=
  [(['a'],
      ⟨"2d711642b726b04401627ca9fbac32f5c8530fb1903cc4db02258717921a4881".toList, 1⟩),
    (['b'],
      ⟨"68d617d6d2ee5715af77d9795566cfaba9a43a33d14cbbc95831c507c935bad1".toList, 2⟩)]

/-- A file that claims to start on some disk. -/
def plainMember (name : Text) (data : Bytes) (volume : Nat) : Member where
  flagBits := 0
  reserved := 0
  volume
  nameLength := 1
  extraLength := 0
  commentLength := 0
  name
  data

def pairMembers (volume : Nat) : List Member :=
  [plainMember ['a'] [120] 0, plainMember ['b'] [121, 122] volume]

/-- The second of the two files claims to start on this disk. -/
def pairArchive (volume : Nat) : Bytes := layout .ascii pairZlib (pairMembers volume) []

theorem verifyArchive_pairArchive :
    verifyArchive .ascii pairZlib pairExpected (.regular (some (pairArchive 0))) = .ok [] := by
  decide +kernel

theorem verifyArchive_pairArchive_one :
    verifyArchive .ascii pairZlib pairExpected (.regular (some (pairArchive 1))) = .ok [] := by
  decide +kernel

/-- The digests of the two files do not collide. -/
theorem contents_pairArchive {left right : Bytes}
    (hleft : left ∈ contents pairZlib (pairArchive 0))
    (hright : right ∈ contents pairZlib (pairArchive 1))
    (hdigest : hexdigest left = hexdigest right) : left = right := by
  have hzero : contents pairZlib (pairArchive 0) = [[120], [121, 122]] := by decide +kernel
  have hone : contents pairZlib (pairArchive 1) = [[120], [121, 122]] := by decide +kernel
  have hdistinct : hexdigest [120] ≠ hexdigest [121, 122] := by decide +kernel
  rw [hzero, List.mem_pair] at hleft
  rw [hone, List.mem_pair] at hright
  rcases hleft with rfl | rfl <;> rcases hright with rfl | rfl
  · rfl
  · exact absurd hdigest hdistinct
  · exact absurd hdigest.symm hdistinct
  · rfl

/-- The disk numbers are where the two archives differ. -/
theorem eq_iff_unpinnedFields_pairArchive :
    pairArchive 0 = pairArchive 1 ↔
      unpinnedFields (pairArchive 0) = unpinnedFields (pairArchive 1) :=
  eq_iff_unpinnedFields verifyArchive_pairArchive verifyArchive_pairArchive_one
    fun _ hleft _ hright hdigest => contents_pairArchive hleft hright hdigest

/-- Two archives are accepted under one allowlist. -/
theorem two_archives_accepted :
    ∃ expected first second, first ≠ second ∧
      verifyArchive .ascii pairZlib expected (.regular (some first)) = .ok [] ∧
      verifyArchive .ascii pairZlib expected (.regular (some second)) = .ok [] ∧
      ∀ left ∈ contents pairZlib first, ∀ right ∈ contents pairZlib second,
        hexdigest left = hexdigest right → left = right := by
  refine ⟨_, _, _, ?_, verifyArchive_pairArchive, verifyArchive_pairArchive_one, ?_⟩
  · decide +kernel
  · exact fun _ hleft _ hright hdigest => contents_pairArchive hleft hright hdigest

end Release

end Oasi
