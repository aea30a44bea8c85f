import Mathlib.Data.List.Induction
import Mathlib.Data.List.Lex
import Mathlib.Data.List.Nodup
import Mathlib.Data.List.Pairwise
import Mathlib.Data.List.Sort

/-! # Files and directories below one root

A path is a text in which a separator stands behind each directory on the way. A file is
created together with the directories it needs; this fails where a file stands in the
way or the place is taken. Which files can be created together does not depend on the
order: in the ascending order of their components it is enough to compare each path with
the next one.
-/

namespace Oasi

section FileTree

variable {α : Type} [DecidableEq α]

/-- The directories on the way to a path. -/
def parents (separator : α) : List α → List (List α)
  | [] => []
  | head :: rest =>
      (if head = separator then [[]] else []) ++ (parents separator rest).map (head :: ·)

theorem mem_parents {separator : α} {directory path : List α} :
    directory ∈ parents separator path ↔ directory ++ [separator] <+: path := by
  induction path generalizing directory with
  | nil => simp [parents]
  | cons head rest ih =>
      cases directory with
      | nil =>
          rw [parents, List.nil_append, List.cons_prefix_cons]
          by_cases hhead : head = separator
          · simp [hhead]
          · simp [hhead, Ne.symm hhead]
      | cons first directory =>
          rw [parents, List.cons_append, List.cons_prefix_cons, ← ih]
          by_cases hhead : head = separator <;> simp [hhead, eq_comm, and_comm]

/-- No path is a directory on the way to itself. -/
theorem not_mem_parents_self (separator : α) (path : List α) : path ∉ parents separator path := by
  intro hmem
  have hlength := (mem_parents.mp hmem).length_le
  rw [List.length_append, List.length_singleton] at hlength
  omega

/-- The files and the directories that exist below the root. -/
structure FileTree (α : Type) where
  files : List (List α)
  directories : List (List α)

namespace FileTree

def empty : FileTree α := ⟨[], []⟩

/-- Creates a file and the directories on the way to it. -/
def create (separator : α) (tree : FileTree α) (path : List α) : Option (FileTree α) :=
  if (∃ directory ∈ parents separator path, directory ∈ tree.files) ∨ path ∈ tree.files ∨
      path ∈ tree.directories then none
  else some ⟨path :: tree.files, parents separator path ++ tree.directories⟩

/-- Creates some files below an empty root, one after the other. -/
def createAll (separator : α) (paths : List (List α)) : Option (FileTree α) :=
  paths.foldlM (create separator) empty

theorem createAll_concat (separator : α) (paths : List (List α)) (path : List α) :
    createAll separator (paths ++ [path]) =
      (createAll separator paths).bind fun tree => tree.create separator path := by
  rw [createAll, List.foldlM_append]
  change (createAll separator paths).bind _ = _
  cases createAll separator paths with
  | none => rfl
  | some tree => simp

/-- The files that were created, and the directories on the way to them. -/
theorem mem_createAll {separator : α} {paths : List (List α)} {tree : FileTree α}
    (h : createAll separator paths = some tree) (path : List α) :
    (path ∈ tree.files ↔ path ∈ paths) ∧
      (path ∈ tree.directories ↔ ∃ file ∈ paths, path ∈ parents separator file) := by
  induction paths using List.reverseRecOn generalizing tree with
  | nil =>
      cases h
      simp [empty]
  | append_singleton paths last ih =>
      rw [createAll_concat, Option.bind_eq_some_iff] at h
      obtain ⟨before, hbefore, hcreate⟩ := h
      rw [create, Option.ite_none_left_eq_some] at hcreate
      obtain ⟨_, hafter⟩ := hcreate
      obtain ⟨hfiles, hdirectories⟩ := ih hbefore
      rw [← Option.some.inj hafter]
      simp [hfiles, hdirectories, or_and_right, exists_or, or_comm]

/-- Files can be created together when their paths differ and none of them is a directory
on the way to another. -/
theorem createAll_isSome_iff {separator : α} {paths : List (List α)} :
    (createAll separator paths).isSome = true ↔
      paths.Nodup ∧ ∀ path ∈ paths, ∀ other ∈ paths, path ∉ parents separator other := by
  induction paths using List.reverseRecOn with
  | nil => simp [createAll]
  | append_singleton paths last ih =>
      have hself := not_mem_parents_self separator last
      rw [createAll_concat]
      cases hcreated : createAll separator paths with
      | none =>
          rw [hcreated] at ih
          simp only [Option.isSome_none, Bool.false_eq_true, false_iff] at ih
          simp only [Option.bind_none, Option.isSome_none, Bool.false_eq_true, false_iff]
          -- what fails for some of the paths fails for all of them
          rintro ⟨hnodup, hfree⟩
          refine ih ⟨hnodup.of_append_left, fun path hpath other hother => ?_⟩
          exact hfree path (List.mem_append_left _ hpath) other (List.mem_append_left _ hother)
      | some tree =>
          have hmem := mem_createAll hcreated
          rw [hcreated, Option.isSome_some] at ih
          obtain ⟨hnodup, hfree⟩ := ih.mp rfl
          rw [Option.bind_some, create]
          simp only [(hmem _).1, (hmem _).2, Option.isSome_ite', not_or, not_exists, not_and]
          rw [List.nodup_append]
          constructor
          · rintro ⟨habove, hnew, hbelow⟩
            refine ⟨⟨hnodup, List.nodup_singleton _, ?_⟩, ?_⟩
            · rintro path hpath other hother rfl
              exact hnew (List.mem_singleton.mp hother ▸ hpath)
            · intro path hpath other hother
              rw [List.mem_append, List.mem_singleton] at hpath hother
              -- the last path is new on one side or the other
              rcases hpath with hpath | rfl <;> rcases hother with hother | rfl
              · exact hfree path hpath other hother
              · exact fun hparent => habove path hparent hpath
              · exact hbelow other hother
              · exact hself
          · rintro ⟨⟨_, _, hdistinct⟩, hfree⟩
            have hlast : last ∈ paths ++ [last] :=
              List.mem_append_right _ (List.mem_singleton_self _)
            refine ⟨fun directory hparent hmem => ?_, fun hmem => ?_, fun file hfile => ?_⟩
            · exact hfree directory (List.mem_append_left _ hmem) last hlast hparent
            · exact hdistinct last hmem last (List.mem_singleton_self _) rfl
            · exact hfree last hlast file (List.mem_append_left _ hfile)

/-- The order in which the files are created does not matter. -/
theorem createAll_isSome_of_perm {separator : α} {paths others : List (List α)}
    (hperm : paths.Perm others) (h : (createAll separator paths).isSome = true) :
    (createAll separator others).isSome = true := by
  rw [createAll_isSome_iff] at h ⊢
  refine ⟨hperm.nodup_iff.mp h.1, fun path hpath other hother => ?_⟩
  exact h.2 path (hperm.mem_iff.mpr hpath) other (hperm.mem_iff.mpr hother)

end FileTree

end FileTree

/-! ## Paths in ascending order -/

section Ascending

variable {α : Type}

/-- Neither list continues the other. -/
def Diverge (first second : List α) : Prop := ¬first <+: second ∧ ¬second <+: first

instance : Std.Symm (@Diverge α) := ⟨fun _ _ h => ⟨h.2, h.1⟩⟩

theorem intercalate_append {separator : List α} {first second : List (List α)}
    (hfirst : first ≠ []) (hsecond : second ≠ []) :
    separator.intercalate (first ++ second) =
      separator.intercalate first ++ separator ++ separator.intercalate second := by
  induction first with
  | nil => exact absurd rfl hfirst
  | cons head rest ih =>
      have hrest : rest ++ second ≠ [] := List.append_ne_nil_of_right_ne_nil rest hsecond
      rw [List.cons_append, List.intercalate_cons_of_ne_nil hrest]
      cases rest with
      | nil => rw [List.nil_append, List.intercalate_singleton]
      | cons next rest =>
          rw [ih (List.cons_ne_nil next rest), List.intercalate_cons_cons]
          simp only [List.append_assoc]

variable [LinearOrder α]

/-- What stands between a list and one that continues it continues it as well. -/
theorem prefix_of_between {first middle last : List α} (hmiddle : first ≤ middle)
    (hlast : middle ≤ last) (hbegins : first <+: last) : first <+: middle := by
  induction first generalizing middle last with
  | nil => exact List.nil_prefix
  | cons head first ih =>
      obtain ⟨rest, rfl⟩ := hbegins
      rw [List.cons_append] at hlast
      cases middle with
      | nil => exact absurd (List.nil_lt_cons head first) (not_lt.mpr hmiddle)
      | cons other middle =>
          rw [← not_lt, List.cons_lt_cons_iff, not_or, not_lt, not_and, not_lt] at hmiddle hlast
          obtain rfl := le_antisymm hmiddle.1 hlast.1
          rw [List.cons_prefix_cons]
          exact ⟨rfl, ih (hmiddle.2 rfl) (hlast.2 rfl) (List.prefix_append first rest)⟩

/-- Lists in ascending order diverge when no list is continued by the next one. -/
theorem pairwise_diverge_iff {lists : List (List α)} (hsorted : lists.Pairwise (· ≤ ·)) :
    lists.Pairwise Diverge ↔ lists.IsChain fun list next => ¬list <+: next := by
  constructor
  · intro h
    exact (h.imp fun hdiverge => hdiverge.1).isChain
  · intro h
    induction lists with
    | nil => exact .nil
    | cons first rest ih =>
        rw [List.pairwise_cons] at hsorted
        refine List.pairwise_cons.mpr ⟨fun last hlast => ?_, ih hsorted.2 h.of_cons⟩
        have hcontinues : ¬first <+: last := by
          cases rest with
          | nil => cases hlast
          | cons second rest =>
              rw [List.isChain_cons_cons] at h
              rcases List.mem_cons.mp hlast with rfl | hlater
              · exact h.1
              · -- the second list stands between the first and the last
                have hbetween := (List.pairwise_cons.mp hsorted.2).1 last hlater
                have hsecond := hsorted.1 second List.mem_cons_self
                exact fun hbegins => h.1 (prefix_of_between hsecond hbetween hbegins)
        refine ⟨hcontinues, fun hbegins => hcontinues ?_⟩
        have hsame := le_antisymm (hsorted.1 last hlast) (not_lt.mp hbegins.le)
        exact hsame ▸ List.prefix_rfl

/-- The components of a path continue those of the directories on the way to it. -/
theorem splitOn_prefix_iff {separator : α} {path other : List α} :
    path.splitOn separator <+: other.splitOn separator ↔
      path = other ∨ path ∈ parents separator other := by
  rw [mem_parents]
  constructor
  · rintro ⟨rest, hparts⟩
    have hother : [separator].intercalate (other.splitOn separator) = other :=
      List.intercalate_splitOn separator
    rw [← hother, ← hparts]
    by_cases hrest : rest = []
    · left
      rw [hrest, List.append_nil, List.intercalate_splitOn]
    · right
      rw [intercalate_append (List.splitOn_ne_nil _ _) hrest, List.intercalate_splitOn]
      exact List.prefix_append _ _
  · rintro (rfl | ⟨rest, rfl⟩)
    · exact List.prefix_rfl
    · rw [List.append_assoc, List.singleton_append, List.splitOn_append_cons_self]
      exact List.prefix_append _ _

/-- Files can be created together when, in the ascending order of their components, no
path is continued by the next one. -/
theorem FileTree.createAll_isSome_iff_isChain {separator : α} {paths : List (List α)} :
    (createAll separator paths).isSome = true ↔
      ((paths.map (·.splitOn separator)).insertionSort (· ≤ ·)).IsChain
        fun path next => ¬path <+: next := by
  rw [← pairwise_diverge_iff (List.pairwise_insertionSort _ _),
    (List.perm_insertionSort _ _).pairwise_iff (Std.Symm.symm _ _), List.pairwise_map,
    createAll_isSome_iff]
  constructor
  · rintro ⟨hnodup, hfree⟩
    refine hnodup.pairwise_of_forall_ne fun path hpath other hother hne => ?_
    simp only [Diverge, splitOn_prefix_iff, not_or]
    exact ⟨⟨hne, hfree path hpath other hother⟩, hne.symm, hfree other hother path hpath⟩
  · intro h
    have hdiverge : ∀ path other, Diverge (path.splitOn separator) (other.splitOn separator) →
        path ≠ other ∧ path ∉ parents separator other := by
      intro path other hdiverge
      have hcontinues := hdiverge.1
      rwa [splitOn_prefix_iff, not_or] at hcontinues
    refine ⟨h.imp fun hpair => (hdiverge _ _ hpair).1, fun path hpath other hother => ?_⟩
    by_cases hsame : path = other
    · exact hsame ▸ not_mem_parents_self separator path
    · exact (hdiverge _ _ (h.forall hpath hother hsame)).2

end Ascending

end Oasi
