import Mathlib.Data.List.Dedup
import Oasi.Foundation.Associations
import Oasi.Release.SourceInspection

/-! # Two tools on one source

What the verifier asks of a source is stated without the order of its walk. The builder
asks for the same, but for how each compares the identities of a file that it looks at
four times.
-/

namespace Oasi

namespace Release

variable {unicode : UnicodeData} {expected : Mapping} {source : SourceDirectory}

/-! ## One file -/

/-- Of distinct elements there is at most one when any two are equal. -/
theorem length_le_one_iff {α : Type} {elements : List α} (h : elements.Nodup) :
    elements.length ≤ 1 ↔ ∀ left ∈ elements, ∀ right ∈ elements, left = right := by
  rcases elements with - | ⟨first, - | ⟨second, rest⟩⟩
  · simp
  · simp
  · have hne : first ≠ second := by
      rintro rfl
      simp at h
    constructor
    · intro hlength
      simp at hlength
    · intro hall
      exact absurd (hall first (by simp) second (by simp)) hne

theorem agree_iff {numbers : List Nat} :
    agree numbers = true ↔
      ∀ left ∈ numbers, ∀ right ∈ numbers, differs left right = false := by
  rw [agree, decide_eq_true_eq, length_le_one_iff (List.nodup_dedup _)]
  simp only [List.mem_dedup, List.mem_filter, decide_eq_true_eq, differs, Bool.and_eq_false_imp,
    bne_eq_false_iff_eq, Bool.and_eq_true, bne_iff_ne, and_imp]
  exact ⟨fun h left hleft right hright hne hnonzero => h left hleft hne right hright hnonzero,
    fun h left hleft hne right hright hnonzero => h left hleft right hright hne hnonzero⟩

/-- What a tool sees of a file that it can read. -/
structure Looks where
  before : Status
  opened : Status
  data : Bytes
  afterRead : Status
  after : Status

def Looks.reading (looks : Looks) : Reading :=
  ⟨some looks.before, some looks.opened, some looks.data, some looks.afterRead, some looks.after⟩

/-- The statuses that are known. -/
def Reading.statuses (reading : Reading) : List Status :=
  [reading.before, reading.opened, reading.afterRead, reading.after].filterMap id

/-- The known numbers of device and inode are those of one file. -/
def Reading.OneFile (reading : Reading) : Prop :=
  agree (reading.statuses.map Status.device) = true ∧
    agree (reading.statuses.map Status.inode) = true

def Reading.OpensRegular (reading : Reading) : Prop :=
  ∀ status, reading.opened = some status → status.kind = .regular

/-- A regular file with the listed bytes, of which the size and the time stay. -/
structure Looks.Steady (looks : Looks) (listed : ExpectedFile) : Prop where
  before_regular : looks.before.kind = .regular
  after_regular : looks.after.kind = .regular
  size_eq : looks.before.size = looks.after.size
  mtime_eq : looks.before.mtimeNs = looks.after.mtimeNs
  length_eq : looks.data.length = listed.size
  digest_eq : (hexdigest looks.data).toList = listed.sha256

theorem requirePlainStatus_eq_ok {status : Option Status} {label : String} {found : Status} :
    requirePlainStatus status label = .ok found ↔ status = some found ∧ found.kind = .regular := by
  cases status with
  | none => simp [requirePlainStatus]
  | some status =>
      cases hkind : status.kind <;> simp [requirePlainStatus, hkind]
      all_goals
        rintro rfl
        simp [hkind]

theorem readStable_eq_ok {relative : Text} {reading : Reading} {listed : ExpectedFile}
    {data : Bytes} :
    readStable relative reading listed = .ok data ↔
      ∃ looks : Looks, looks.reading = reading ∧ looks.data = data ∧ looks.Steady listed ∧
        looks.opened.kind = .regular ∧ sameIdentity looks.before looks.opened = true ∧
        sameIdentity looks.before looks.after = true ∧
        sameIdentity looks.opened looks.afterRead = true := by
  obtain ⟨before, opened, content, afterRead, after⟩ := reading
  constructor
  · intro h
    unfold readStable at h
    obtain ⟨before, hbefore, h⟩ := bind_eq_ok.mp h
    obtain ⟨rfl, hplain⟩ := requirePlainStatus_eq_ok.mp (mapError_eq_ok.mp hbefore)
    split at h
    next => cases h
    next opened hopened =>
      obtain ⟨_, hidentity, h⟩ := bind_eq_ok.mp h
      split at h
      next content afterRead hcontent hafterRead =>
        simp only [bind_eq_ok, failIf_eq_ok, not_or, not_not, mapError_eq_ok,
          requirePlainStatus_eq_ok, Bool.not_eq_false] at h hidentity
        obtain ⟨after, ⟨hafter, hregular⟩, _, hidentities, _, hmetadata, _, hlisted, h⟩ := h
        cases h
        dsimp only at hopened hcontent hafterRead hafter
        subst hopened hcontent hafterRead hafter
        exact ⟨⟨before, opened, _, afterRead, after⟩, rfl, rfl,
          ⟨hplain, hregular, hmetadata.1, hmetadata.2, hlisted.1, hlisted.2⟩, hidentity.2,
          hidentity.1, hidentities.1, hidentities.2⟩
      next => cases h
  · rintro ⟨looks, hreading, rfl, hsteady, hopened, hbefore, hafter, hread⟩
    cases hreading
    simp [readStable, requirePlainStatus, hsteady.before_regular, hsteady.after_regular, hopened,
      hbefore, hafter, hread, hsteady.size_eq, hsteady.mtime_eq, hsteady.length_eq,
      hsteady.digest_eq, Except.mapError, failIf, pure, Except.pure]

theorem stableDigest_eq_nil {relative : Text} {reading : Reading} {listed : ExpectedFile} :
    stableDigest relative reading listed = [] ↔
      ∃ looks : Looks, looks.reading = reading ∧ looks.Steady listed ∧ reading.OneFile := by
  obtain ⟨before, opened, content, afterRead, after⟩ := reading
  constructor
  · intro h
    unfold stableDigest at h
    split at h
    next => cases h
    next before hbefore =>
      split at h
      next opened content afterRead hopened hcontent hafterRead =>
        split at h
        next => cases h
        next after hafter =>
          simp only [List.append_eq_nil_iff, ite_eq_left_iff, ite_eq_right_iff, imp_false,
            List.cons_ne_nil, not_or, not_not, Bool.and_eq_true] at h
          obtain ⟨⟨⟨hone, hmetadata⟩, hlength⟩, hdigest⟩ := h
          obtain ⟨rfl, hplain⟩ := requirePlainStatus_eq_ok.mp hbefore
          obtain ⟨rfl, hregular⟩ := requirePlainStatus_eq_ok.mp hafter
          subst hopened hcontent hafterRead
          exact ⟨⟨before, opened, content, afterRead, after⟩, rfl,
            ⟨hplain, hregular, hmetadata.1, hmetadata.2, hlength, hdigest⟩, hone⟩
      next => cases h
  · rintro ⟨looks, hreading, hsteady, hone⟩
    cases hreading
    simp [Reading.OneFile, Reading.statuses] at hone
    simp [stableDigest, requirePlainStatus, hsteady.before_regular, hsteady.after_regular,
      hsteady.size_eq, hsteady.mtime_eq, hsteady.length_eq, hsteady.digest_eq, hone]

/-- Where all numbers are those of one file, so are the pairs that the builder compares. -/
theorem Reading.OneFile.sameIdentity {looks : Looks} (h : looks.reading.OneFile) :
    Release.sameIdentity looks.before looks.opened = true ∧
      Release.sameIdentity looks.before looks.after = true ∧
      Release.sameIdentity looks.opened looks.afterRead = true := by
  obtain ⟨hdevice, hinode⟩ := h
  have hsame : ∀ left ∈ looks.reading.statuses, ∀ right ∈ looks.reading.statuses,
      Release.sameIdentity left right = true := by
    intro left hleft right hright
    rw [Release.sameIdentity,
      agree_iff.mp hdevice _ (List.mem_map_of_mem hleft) _ (List.mem_map_of_mem hright),
      agree_iff.mp hinode _ (List.mem_map_of_mem hleft) _ (List.mem_map_of_mem hright)]
    rfl
  have hstatuses : looks.reading.statuses =
      [looks.before, looks.opened, looks.afterRead, looks.after] := rfl
  rw [hstatuses] at hsame
  exact ⟨hsame _ (by simp) _ (by simp), hsame _ (by simp) _ (by simp),
    hsame _ (by simp) _ (by simp)⟩

/-- Both tools read one file, where its numbers agree and what is opened is regular. -/
theorem readStable_stableDigest {relative : Text} {reading : Reading} {listed : ExpectedFile} :
    ((∃ data, readStable relative reading listed = .ok data) ∧ reading.OneFile) ↔
      (stableDigest relative reading listed = [] ∧ reading.OpensRegular) := by
  simp only [readStable_eq_ok, stableDigest_eq_nil]
  constructor
  · rintro ⟨⟨data, looks, rfl, _, hsteady, hopened, _⟩, hone⟩
    refine ⟨⟨looks, rfl, hsteady, hone⟩, fun status hstatus => ?_⟩
    rw [← Option.some.inj hstatus]
    exact hopened
  · rintro ⟨⟨looks, rfl, hsteady, hone⟩, hopens⟩
    exact ⟨⟨_, looks, rfl, rfl, hsteady, hopens _ rfl, hone.sameIdentity⟩, hone⟩

/-! ## The directory -/

/-- The source holds the listed files and nothing else that the walk meets. -/
structure Matches (unicode : UnicodeData) (expected : Mapping) (tree : SourceTree) : Prop where
  directory : tree.value.stat = some .directory
  plain : Plain unicode [] tree
  /-- No two files that a file system could take for one. -/
  distinct : ∀ left right, Holds [] tree left → Holds [] tree right →
    unicode.casefold (unicode.nfc left) = unicode.casefold (unicode.nfc right) → left = right
  listed : ∀ name, name ∈ expected.map Prod.fst ↔ Holds [] tree name

theorem visits_start {tree : SourceTree} :
    (∃ found, Visits unicode (Walk.start tree) found) ↔ Plain unicode [] tree := by
  constructor
  · intro ⟨found, hvisits⟩
    exact hvisits.plain _ (List.mem_singleton_self _)
  · intro hplain
    apply visits_of_plain
    simpa [Walk.start] using hplain

theorem Visits.mem_start {tree : SourceTree} {found : List Text}
    (h : Visits unicode (Walk.start tree) found) {name : Text} :
    name ∈ found ↔ Holds [] tree name := by
  simp [h.mem_iff, Walk.start]

theorem sorted_eq_nil {names : List Text} : sorted names = [] ↔ names = [] :=
  ⟨fun h => List.Perm.eq_nil (h ▸ (List.perm_insertionSort _ _).symm), fun h => by rw [h]; rfl⟩

theorem mem_sorted {names : List Text} {name : Text} : name ∈ sorted names ↔ name ∈ names :=
  (List.perm_insertionSort _ _).mem_iff

/-- Neither list has a name that the other lacks. -/
theorem filters_eq_nil {names found : List Text} :
    (names.filter (· ∉ found) = [] ∧ found.filter (· ∉ names) = []) ↔
      ∀ name, name ∈ names ↔ name ∈ found := by
  simp only [List.filter_eq_nil_iff, decide_eq_true_eq, not_not]
  constructor
  · exact fun h name => ⟨h.1 name, h.2 name⟩
  · exact fun h => ⟨fun name => (h name).mp, fun name => (h name).mpr⟩

/-- What is checked of the names that a walk has found. -/
theorem matches_iff :
    Matches unicode expected source.tree ↔ source.tree.value.stat = some .directory ∧
      ∃ found, Visits unicode (Walk.start source.tree) found ∧
        (Walk.folded unicode found).Nodup ∧
        (∀ name, name ∈ expected.map Prod.fst ↔ name ∈ found) := by
  constructor
  · intro h
    obtain ⟨found, hvisits⟩ := visits_start.mpr h.plain
    have hnodup := hvisits.nodup (List.nodup_nil)
    refine ⟨h.directory, found, hvisits, (List.nodup_map_iff_inj_on hnodup).mpr ?_, ?_⟩
    · intro left hleft right hright heq
      exact h.distinct left right (hvisits.mem_start.mp hleft) (hvisits.mem_start.mp hright) heq
    · exact fun name => (h.listed name).trans hvisits.mem_start.symm
  · rintro ⟨hdirectory, found, hvisits, hfolded, hlisted⟩
    refine ⟨hdirectory, visits_start.mp ⟨found, hvisits⟩, ?_, ?_⟩
    · intro left right hleft hright heq
      exact List.inj_on_of_nodup_map hfolded (hvisits.mem_start.mpr hleft)
        (hvisits.mem_start.mpr hright) heq
    · exact fun name => (hlisted name).trans hvisits.mem_start

theorem Builder.inspectSource_eq_ok {tree : SourceTree} {found : List Text} :
    Builder.inspectSource unicode tree = .ok found ↔ tree.value.stat = some .directory ∧
      Visits unicode (Walk.start tree) found ∧ (Walk.folded unicode found).Nodup := by
  unfold Builder.inspectSource
  simp only [bind_eq_ok, failIf_eq_ok, requirePlainDirectory_eq_ok, Builder.inspectPending_eq_ok,
    not_not, exists_const, pure, Except.pure, Except.ok.injEq]
  constructor
  · rintro ⟨hdirectory, _, hvisits, hfolded, rfl⟩
    exact ⟨hdirectory, hvisits, hfolded⟩
  · rintro ⟨hdirectory, hvisits, hfolded⟩
    exact ⟨hdirectory, found, hvisits, hfolded, rfl⟩

theorem Builder.checkSource_eq_ok :
    Builder.checkSource unicode expected source = .ok () ↔
      Matches unicode expected source.tree ∧ ∀ name ∈ expected.map Prod.fst,
        ∃ data, source.read expected name = .ok data := by
  rw [matches_iff]
  unfold Builder.checkSource
  simp only [bind_eq_ok, failIf_eq_ok, Builder.inspectSource_eq_ok, forM_eq_ok, not_or, not_not,
    sorted_eq_nil, filters_eq_nil, mem_sorted, exists_const, pure, Except.pure, and_true]
  constructor
  · rintro ⟨found, ⟨hdirectory, hvisits, hfolded⟩, hlisted, hread⟩
    exact ⟨⟨hdirectory, found, hvisits, hfolded, hlisted⟩, hread⟩
  · rintro ⟨⟨hdirectory, found, hvisits, hfolded, hlisted⟩, hread⟩
    exact ⟨found, ⟨hdirectory, hvisits, hfolded⟩, hlisted, hread⟩

theorem Verifier.inspectSource_eq_nil_of_digests :
    Verifier.inspectSource unicode expected source = [] ↔
      Matches unicode expected source.tree ∧ ∀ name ∈ expected.map Prod.fst,
        stableDigest name (source.reading name) ((expected.lookup name).getD ⟨[], 0⟩) = [] := by
  have hroot := @requirePlainDirectory_eq_ok source.tree.value.stat "source directory" ()
  rw [matches_iff]
  unfold Verifier.inspectSource
  cases hstat : requirePlainDirectory source.tree.value.stat "source directory" with
  | error error =>
      rw [hstat] at hroot
      simp [← hroot]
  | ok _ =>
      dsimp only
      rw [Reported.messages_eq_nil_iff, and_iff_right (hroot.mp hstat)]
      simp only [Reported.clean_bind, Reported.clean_noteIf, Verifier.clean_inspectPending,
        Reported.clean_forM, Reported.clean_noteAll, sorted_eq_nil, mem_sorted, not_not,
        exists_const, List.mem_filter, decide_eq_true_eq]
      constructor
      · rintro ⟨found, hvisits, hfolded, hmissing, hunlisted, hdigests⟩
        have hlisted := filters_eq_nil.mp ⟨hmissing, hunlisted⟩
        refine ⟨⟨found, hvisits, hfolded, hlisted⟩, fun name hname => ?_⟩
        exact hdigests name ⟨hname, (hlisted name).mp hname⟩
      · rintro ⟨⟨found, hvisits, hfolded, hlisted⟩, hdigests⟩
        obtain ⟨hmissing, hunlisted⟩ := filters_eq_nil.mpr hlisted
        exact ⟨found, hvisits, hfolded, hmissing, hunlisted, fun name hname =>
          hdigests name hname.1⟩

/-- What the verifier asks of a source. -/
theorem Verifier.inspectSource_eq_nil :
    Verifier.inspectSource unicode expected source = [] ↔
      Matches unicode expected source.tree ∧ ∀ name listed, expected.lookup name = some listed →
        ∃ looks : Looks, looks.reading = source.reading name ∧ looks.Steady listed ∧
          (source.reading name).OneFile := by
  rw [inspectSource_eq_nil_of_digests]
  simp only [stableDigest_eq_nil, mem_map_fst_iff]
  apply and_congr_right
  intro _
  constructor
  · intro h name listed hlookup
    have hlooks := h name ⟨listed, hlookup⟩
    rwa [hlookup, Option.getD_some] at hlooks
  · intro h name ⟨listed, hlookup⟩
    rw [hlookup, Option.getD_some]
    exact h name listed hlookup

/-- What the verifier still asks of a source that the builder passes. -/
theorem inspectSource_of_checkSource (h : Builder.checkSource unicode expected source = .ok ()) :
    Verifier.inspectSource unicode expected source = [] ↔
      ∀ name ∈ expected.map Prod.fst, (source.reading name).OneFile := by
  rw [Builder.checkSource_eq_ok] at h
  obtain ⟨hmatches, hread⟩ := h
  rw [Verifier.inspectSource_eq_nil_of_digests, and_iff_right hmatches]
  apply forall₂_congr
  intro name hname
  constructor
  · intro hdigest
    obtain ⟨looks, hreading, hsteady, hone⟩ := stableDigest_eq_nil.mp hdigest
    exact hone
  · exact fun hone => (readStable_stableDigest.mp ⟨hread name hname, hone⟩).1

/-- The builder and the verifier pass the same sources, but for the identities that the
builder does not compare and the kind of an open file that the verifier does not look at. -/
theorem checkSource_inspectSource :
    (Builder.checkSource unicode expected source = .ok () ∧
        ∀ name ∈ expected.map Prod.fst, (source.reading name).OneFile) ↔
      (Verifier.inspectSource unicode expected source = [] ∧
        ∀ name ∈ expected.map Prod.fst, (source.reading name).OpensRegular) := by
  rw [Builder.checkSource_eq_ok, Verifier.inspectSource_eq_nil_of_digests, and_assoc, and_assoc,
    ← forall₂_and, ← forall₂_and]
  apply and_congr_right
  intro _
  exact forall₂_congr fun name _ => readStable_stableDigest

end Release

end Oasi
