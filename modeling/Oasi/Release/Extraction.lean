import Oasi.Foundation.FileTree
import Oasi.Release.AllowlistCanonical

/-! # Extraction of the listed files

A file system that is insensitive to case and to normalisation identifies names with one
folded form. The parser compares the folded names as wholes, so they are distinct. It
does not compare a name with the directories of another, so a listed file can stand where
another listed file needs a directory. In the ascending order of the components such
files are neighbours; in that of the names, in which the parser reads them, another name
may stand in between, as `a!` does between `a` and `a/b`.
-/

namespace Oasi

namespace Release

/-- `unicodedata.normalize("NFC", name).casefold()` -/
def foldedName (unicode : UnicodeData) (name : Text) : Text := unicode.casefold (unicode.nfc name)

def foldedNames (unicode : UnicodeData) (mapping : Mapping) : List Text :=
  (mapping.map Prod.fst).map (foldedName unicode)

/-- All listed files can be created below one root, in whatever order. -/
def Extractable (unicode : UnicodeData) (mapping : Mapping) : Prop :=
  ∃ order, order.Perm (foldedNames unicode mapping) ∧
    (FileTree.createAll '/' order).isSome = true

/-- A folded name stands before a separator in another folded name. -/
def HasDirectoryConflict (unicode : UnicodeData) (mapping : Mapping) : Prop :=
  ∃ name ∈ mapping.map Prod.fst, ∃ other ∈ mapping.map Prod.fst,
    foldedName unicode name ++ ['/'] <+: foldedName unicode other

/-- The components of the folded names, in ascending order. -/
def foldedPaths (unicode : UnicodeData) (mapping : Mapping) : List (List Text) :=
  ((foldedNames unicode mapping).map (·.splitOn '/')).insertionSort (· ≤ ·)

/-- None of the folded paths is continued by the next one. -/
def NeighboursApart (unicode : UnicodeData) (mapping : Mapping) : Prop :=
  (foldedPaths unicode mapping).IsChain fun path next => ¬path <+: next

variable {unicode : UnicodeData} {path : PathState} {mapping : Mapping}

instance : Decidable (NeighboursApart unicode mapping) :=
  inferInstanceAs (Decidable (List.IsChain _ _))

/-- The last check of the parser. -/
theorem foldedNames_nodup (h : parseAllowlist unicode path = .ok mapping) :
    (foldedNames unicode mapping).Nodup := by
  unfold parseAllowlist at h
  obtain ⟨content, _, h⟩ := bind_eq_ok.mp h
  split at h
  next => cases h
  next text _ =>
    unfold parseText at h
    obtain ⟨_, _, h⟩ := bind_eq_ok.mp h
    obtain ⟨expected, _, h⟩ := bind_eq_ok.mp h
    obtain ⟨_, _, h⟩ := bind_eq_ok.mp h
    obtain ⟨_, hcollision, h⟩ := bind_eq_ok.mp h
    obtain rfl := Except.ok.inj h
    exact Decidable.not_not.mp (failIf_eq_ok.mp hcollision)

theorem not_hasDirectoryConflict_iff :
    ¬HasDirectoryConflict unicode mapping ↔ ∀ name ∈ foldedNames unicode mapping,
      ∀ other ∈ foldedNames unicode mapping, name ∉ parents '/' other := by
  simp only [foldedNames, HasDirectoryConflict, mem_parents]
  constructor
  · intro hfree folded hfolded other hother hprefix
    obtain ⟨name, hname, rfl⟩ := List.mem_map.mp hfolded
    obtain ⟨file, hfile, rfl⟩ := List.mem_map.mp hother
    exact hfree ⟨name, hname, file, hfile, hprefix⟩
  · rintro hclear ⟨name, hname, other, hother, hprefix⟩
    exact hclear _ (List.mem_map_of_mem hname) _ (List.mem_map_of_mem hother) hprefix

/-- The order in which the files are created does not matter. -/
theorem extractable_iff : Extractable unicode mapping ↔
    (FileTree.createAll '/' (foldedNames unicode mapping)).isSome = true := by
  constructor
  · rintro ⟨order, hperm, hcreated⟩
    exact FileTree.createAll_isSome_of_perm hperm hcreated
  · intro hcreated
    exact ⟨_, List.Perm.refl _, hcreated⟩

theorem extractable_iff_neighboursApart :
    Extractable unicode mapping ↔ NeighboursApart unicode mapping :=
  extractable_iff.trans FileTree.createAll_isSome_iff_isChain

theorem extractable_iff_nodup :
    Extractable unicode mapping ↔
      (foldedNames unicode mapping).Nodup ∧ ¬HasDirectoryConflict unicode mapping := by
  rw [extractable_iff, FileTree.createAll_isSome_iff, not_hasDirectoryConflict_iff]

/-- The folded names of an accepted allowlist are distinct. Its files can be created
together, and no folded name is a directory of another, exactly when no folded path is
continued by the next one. -/
theorem accepted_extractable_iff (h : parseAllowlist unicode path = .ok mapping) :
    (foldedNames unicode mapping).Nodup ∧
      (Extractable unicode mapping ∧ ¬HasDirectoryConflict unicode mapping ↔
        NeighboursApart unicode mapping) := by
  refine ⟨foldedNames_nodup h, ?_⟩
  rw [← extractable_iff_neighboursApart]
  constructor
  · exact And.left
  · intro hextractable
    exact ⟨hextractable, (extractable_iff_nodup.mp hextractable).2⟩

/-- Two files in one directory, and a file whose name stands between them and theirs. -/
def siblingsText : Text :=
  emptyFileLine ['A', '!'] ++ '\n' :: emptyFileLine ['a', '/', 'b'] ++
    '\n' :: emptyFileLine ['a', '/', 'c'] ++ ['\n']

def siblingsMapping : Mapping :=
  [(['A', '!'], emptyFile), (['a', '/', 'b'], emptyFile), (['a', '/', 'c'], emptyFile)]

theorem parseText_siblingsText : parseText .ascii siblingsText = .ok siblingsMapping := by
  decide +kernel

/-- The files share a directory that no listed file stands in for. -/
theorem accepted_extractable_siblings :
    ∃ bytes, parseAllowlist .ascii (.regular (some bytes)) = .ok siblingsMapping ∧
      NeighboursApart .ascii siblingsMapping ∧ Extractable .ascii siblingsMapping ∧
      ¬HasDirectoryConflict .ascii siblingsMapping := by
  have haccepted := parseAllowlist_eq_ok.mpr ⟨siblingsText, rfl, parseText_siblingsText⟩
  have hapart : NeighboursApart .ascii siblingsMapping := by decide
  obtain ⟨hextractable, hfree⟩ := (accepted_extractable_iff haccepted).2.mpr hapart
  exact ⟨_, haccepted, hapart, hextractable, hfree⟩

/-- A file `A` and a file `a/b`. -/
def conflictText : Text := emptyFileLine ['A'] ++ '\n' :: emptyFileLine ['a', '/', 'b'] ++ ['\n']

def conflictMapping : Mapping := [(['A'], emptyFile), (['a', '/', 'b'], emptyFile)]

theorem parseText_conflictText : parseText .ascii conflictText = .ok conflictMapping := by
  decide +kernel

/-- The file `A` has to be the directory of the file `a/b`. -/
theorem accepted_not_extractable :
    ∃ bytes mapping, parseAllowlist .ascii (.regular (some bytes)) = .ok mapping ∧
      ¬Extractable .ascii mapping ∧ HasDirectoryConflict .ascii mapping := by
  have hconflict : HasDirectoryConflict .ascii conflictMapping :=
    ⟨['A'], by decide, ['a', '/', 'b'], by decide, by decide⟩
  refine ⟨_, conflictMapping, parseAllowlist_eq_ok.mpr ⟨conflictText, rfl, parseText_conflictText⟩,
    ?_, hconflict⟩
  intro hextractable
  exact (extractable_iff_nodup.mp hextractable).2 hconflict

end Release

end Oasi
