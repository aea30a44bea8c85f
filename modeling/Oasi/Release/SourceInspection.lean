import Oasi.Release.SourceTree

/-! # What a source must be

The walk finds exactly the regular files that lie below the source directory, whatever
order the file system lists them in. A source passes when it holds the listed files and
nothing else, each under a portable name and with the listed bytes.
-/

namespace Oasi

namespace Release

open NamedTree (Below)

/-- The walk goes on below a directory. -/
def Entered (entry : Entry) : Prop := entry.stat = some .directory

/-- A walk enters the directories, and nothing else. -/
theorem entered_iff {entry : Entry} : Entered entry ↔ entry.stat = some .directory := Iff.rfl

instance (entry : Entry) : Decidable (Entered entry) := inferInstanceAs (Decidable (_ = _))

/-- The directory is still one, and can be listed, when its turn comes. -/
def Listable (directory : SourceTree) : Prop :=
  directory.value.lstat = some .directory ∧ directory.value.scandir = true

/-- A regular file or a directory under a portable name. -/
def Admitted (unicode : UnicodeData) (path : Path) (node : SourceTree) : Prop :=
  validatePortableName unicode (asPosix path) = .ok () ∧
    (node.value.stat = some .regular ∨ Entered node.value)

/-- Everything below a directory at a path is admitted, and can be listed. -/
structure Plain (unicode : UnicodeData) (path : Path) (directory : SourceTree) : Prop where
  listable : Listable directory
  below : ∀ rest node, Below Entered directory rest node →
    Admitted unicode (path ++ rest) node ∧ (Entered node.value → Listable node)

/-- A regular file lies below a directory at a path. -/
def Holds (path : Path) (directory : SourceTree) (name : Text) : Prop :=
  ∃ rest node, Below Entered directory rest node ∧
    node.value.stat = some .regular ∧ asPosix (path ++ rest) = name

/-- A directory is plain when it can be listed, all its entries are admitted and the directories
among them are plain in turn. -/
theorem plain_iff {unicode : UnicodeData} {path : Path} {directory : SourceTree} :
    Plain unicode path directory ↔ Listable directory ∧ ∀ entry ∈ directory.children,
      Admitted unicode (path ++ [entry.1]) entry.2 ∧
        (Entered entry.2.value → Plain unicode (path ++ [entry.1]) entry.2) := by
  have hbelow := @NamedTree.forall_below_iff _ _ Entered directory fun rest node =>
    Admitted unicode (path ++ rest) node ∧ (Entered node.value → Listable node)
  constructor
  · intro h
    refine ⟨h.listable, fun entry hentry => ?_⟩
    obtain ⟨⟨hadmitted, hlistable⟩, hdeeper⟩ := hbelow.mp h.below entry hentry
    refine ⟨hadmitted, fun hentered => ⟨hlistable hentered, ?_⟩⟩
    simpa only [List.append_assoc, List.singleton_append] using hdeeper hentered
  · intro ⟨hlistable, hchildren⟩
    refine ⟨hlistable, hbelow.mpr fun entry hentry => ?_⟩
    obtain ⟨hadmitted, hplain⟩ := hchildren entry hentry
    refine ⟨⟨hadmitted, fun hentered => (hplain hentered).listable⟩, fun hentered => ?_⟩
    simpa only [List.append_assoc, List.singleton_append] using (hplain hentered).below

/-- A name is held by a directory as one of its files, or by one of its subdirectories. -/
theorem holds_iff {path : Path} {directory : SourceTree} {name : Text} :
    Holds path directory name ↔ ∃ entry ∈ directory.children,
      (entry.2.value.stat = some .regular ∧ asPosix (path ++ [entry.1]) = name) ∨
        (Entered entry.2.value ∧ Holds (path ++ [entry.1]) entry.2 name) := by
  rw [Holds, NamedTree.exists_below_iff]
  simp only [Holds, List.append_assoc, List.singleton_append]

/-! ## One directory -/

namespace Walk

/-- What an admitted entry adds. -/
def add (directory : Path) (walk : Walk) (entry : Text × SourceTree) : Walk :=
  if Entered entry.2.value then walk.push (directory ++ [entry.1], entry.2)
  else walk.discover (asPosix (directory ++ [entry.1]))

/-- What a directory adds. -/
def addAll (walk : Walk) (directory : Path × SourceTree) : Walk :=
  (sortedEntries directory.2).foldl (add directory.1) walk

variable {walk : Walk} {directory : Path} {entries : List (Text × SourceTree)}

/-- Discovering a name adds that name only. -/
theorem mem_discover {relative name : Text} :
    name ∈ (walk.discover relative).discovered ↔
      name ∈ walk.discovered ∨ relative = name := by
  unfold discover
  split
  next hknown =>
    refine ⟨.inl, fun h => h.elim id ?_⟩
    rintro rfl
    exact hknown
  next => simp [eq_comm]

/-- A name is discovered once. -/
theorem nodup_discover {relative : Text} (h : walk.discovered.Nodup) :
    (walk.discover relative).discovered.Nodup := by
  unfold discover
  split
  next => exact h
  next hnew =>
    rw [List.nodup_append]
    refine ⟨h, List.nodup_singleton _, ?_⟩
    intro name hname other hother
    rw [List.mem_singleton.mp hother]
    exact fun heq => hnew (heq ▸ hname)

/-- Entries put the directories among them on the stack. -/
theorem mem_stack_foldl {pending : Path × SourceTree} :
    pending ∈ (entries.foldl (add directory) walk).stack ↔ pending ∈ walk.stack ∨
      ∃ entry ∈ entries, Entered entry.2.value ∧ pending = (directory ++ [entry.1], entry.2) := by
  induction entries generalizing walk with
  | nil => simp
  | cons entry entries ih =>
      rw [List.foldl_cons, ih, List.exists_mem_cons_iff, add]
      split
      next hentered => simp [push, hentered, or_assoc]
      next hentered => simp [discover, hentered]

/-- Entries add the names of what is no directory among them. -/
theorem mem_discovered_foldl {name : Text} :
    name ∈ (entries.foldl (add directory) walk).discovered ↔ name ∈ walk.discovered ∨
      ∃ entry ∈ entries, ¬Entered entry.2.value ∧ asPosix (directory ++ [entry.1]) = name := by
  induction entries generalizing walk with
  | nil => simp
  | cons entry entries ih =>
      rw [List.foldl_cons, ih, List.exists_mem_cons_iff, add]
      split
      next hentered => simp [push, hentered]
      next hentered => simp [mem_discover, hentered, or_assoc]

/-- Entries keep the discovered names distinct. -/
theorem nodup_foldl (h : walk.discovered.Nodup) :
    (entries.foldl (add directory) walk).discovered.Nodup := by
  induction entries generalizing walk with
  | nil => exact h
  | cons entry entries ih =>
      apply ih
      unfold add
      split
      next => exact h
      next => exact nodup_discover h

end Walk

/-- A plain directory is required, and no other kind passes. -/
theorem requirePlainDirectory_eq_ok {kind : Option FileKind} {label : String} {value : Unit} :
    requirePlainDirectory kind label = .ok value ↔ kind = some .directory := by
  rcases kind with - | (- | - | - | -) <;> simp [requirePlainDirectory]

variable {unicode : UnicodeData} {walk next : Walk} {directory : Path × SourceTree}

/-- The builder passes an entry when it is admitted, and adds it to the walk. -/
theorem Builder.inspectEntry_eq_ok {path : Path} {entry : Text × SourceTree} :
    Builder.inspectEntry unicode path walk entry = .ok next ↔
      Admitted unicode (path ++ [entry.1]) entry.2 ∧ walk.add path entry = next := by
  unfold Builder.inspectEntry Admitted Walk.add
  rcases hstat : entry.2.value.stat with - | (- | - | - | -)
  all_goals simp [entered_iff, hstat, bind_eq_ok, mapError_eq_ok, Unique.exists_iff, pure,
    Except.pure]

/-- The verifier finds nothing at an entry when it is admitted, and adds it to the walk. -/
theorem Verifier.clean_inspectEntry {path : Path} {entry : Text × SourceTree} :
    (Verifier.inspectEntry unicode path walk entry).Clean next ↔
      Admitted unicode (path ++ [entry.1]) entry.2 ∧ walk.add path entry = next := by
  unfold Admitted Walk.add
  cases hname : validatePortableName unicode (asPosix (path ++ [entry.1])) with
  | error error => simp [Verifier.inspectEntry, hname, Reported.clean_bind]
  | ok _ =>
      simp only [Verifier.inspectEntry, hname]
      rcases hstat : entry.2.value.stat with - | (- | - | - | -)
      all_goals simp [entered_iff, hstat, Reported.clean_bind]

/-- A directory is visited when it can be listed and its entries are admitted. -/
def Visitable (unicode : UnicodeData) (directory : Path × SourceTree) : Prop :=
  Listable directory.2 ∧ ∀ entry ∈ directory.2.children,
    Admitted unicode (directory.1 ++ [entry.1]) entry.2

/-- Sorting keeps the entries. -/
theorem mem_sortedEntries {tree : SourceTree} {entry : Text × SourceTree} :
    entry ∈ sortedEntries tree ↔ entry ∈ tree.children :=
  (List.perm_insertionSort _ _).mem_iff

/-- The builder passes a directory when it is visitable, and adds its entries. -/
theorem Builder.inspectDirectory_eq_ok :
    Builder.inspectDirectory unicode walk directory = .ok next ↔
      Visitable unicode directory ∧ walk.addAll directory = next := by
  have hentries := @foldlM_eq_ok _ _ _ _ _ _
    (fun state entry result => @inspectEntry_eq_ok unicode state result directory.1 entry)
    (sortedEntries directory.2) walk next
  simp only [mem_sortedEntries] at hentries
  unfold Builder.inspectDirectory Visitable Listable Walk.addAll
  simp only [bind_eq_ok, failIf_eq_ok, requirePlainDirectory_eq_ok, hentries, exists_const,
    Bool.not_eq_false, and_assoc]

/-- The verifier finds nothing in a directory when it is visitable, and adds its entries. -/
theorem Verifier.clean_inspectDirectory :
    (Verifier.inspectDirectory unicode walk directory).Clean next ↔
      Visitable unicode directory ∧ walk.addAll directory = next := by
  have hentries := @Reported.clean_foldlM _ _ _ _ _ _ _
    (fun state entry result => @clean_inspectEntry unicode state result directory.1 entry)
    (sortedEntries directory.2) walk next
  simp only [mem_sortedEntries] at hentries
  have hplain := @requirePlainDirectory_eq_ok directory.2.value.lstat "source directory entry" ()
  unfold Verifier.inspectDirectory Visitable Listable Walk.addAll
  cases hlstat : requirePlainDirectory directory.2.value.lstat "source directory entry" with
  | error error =>
      rw [hlstat] at hplain
      simp [Reported.clean_bind, ← hplain]
  | ok _ =>
      rw [hlstat] at hplain
      have hdirectory := hplain.mp rfl
      dsimp only
      split
      next hscandir => simp [Reported.clean_bind, hscandir]
      next hscandir => simp [hentries, hdirectory, hscandir]

/-! ## The walk -/

/-- The loop over the stack, from a state to the names that it ends with. -/
inductive Visits (unicode : UnicodeData) : Walk → List Text → Prop where
  | done {walk : Walk} (hstack : walk.stack.getLast? = none) :
      Visits unicode walk walk.discovered
  | visit {walk : Walk} {directory : Path × SourceTree} {found : List Text}
      (hlast : walk.stack.getLast? = some directory) (hvisitable : Visitable unicode directory)
      (hrest : Visits unicode (walk.pop.addAll directory) found) : Visits unicode walk found

/-- With nothing on the stack, the walk has found what it discovered. -/
theorem visits_none {found : List Text} (hstack : walk.stack.getLast? = none) :
    Visits unicode walk found ↔ walk.discovered = found := by
  constructor
  · intro h
    cases h with
    | done _ => rfl
    | visit hlast _ _ => cases hstack.symm.trans hlast
  · rintro rfl
    exact .done hstack

/-- A walk visits the last directory on the stack and goes on with its entries added. -/
theorem visits_some {found : List Text} (hlast : walk.stack.getLast? = some directory) :
    Visits unicode walk found ↔
      Visitable unicode directory ∧ Visits unicode (walk.pop.addAll directory) found := by
  constructor
  · intro h
    cases h with
    | done hstack => cases hstack.symm.trans hlast
    | visit hother hvisitable hrest =>
        cases hlast.symm.trans hother
        exact ⟨hvisitable, hrest⟩
  · intro ⟨hvisitable, hrest⟩
    exact .visit hlast hvisitable hrest

/-- The builder's walk succeeds with what the visits find. -/
theorem Builder.inspectPending_eq_ok {found : List Text} :
    Builder.inspectPending unicode walk = .ok found ↔ Visits unicode walk found := by
  fun_induction Builder.inspectPending unicode walk with
  | case1 walk hlast => rw [visits_none hlast, Except.ok.injEq]
  | case2 walk directory hlast error hnext =>
      rw [visits_some hlast]
      simp only [reduceCtorEq, false_iff]
      intro ⟨hvisitable, _⟩
      cases hnext.symm.trans (inspectDirectory_eq_ok.mpr ⟨hvisitable, rfl⟩)
  | case3 walk directory hlast next hnext ih =>
      obtain ⟨hvisitable, rfl⟩ := inspectDirectory_eq_ok.mp hnext
      rw [visits_some hlast, and_iff_right hvisitable, ih]

/-- The verifier's walk is clean with what the visits find. -/
theorem Verifier.clean_inspectPending {found : List Text} :
    (Verifier.inspectPending unicode walk).Clean found ↔ Visits unicode walk found := by
  fun_induction Verifier.inspectPending unicode walk with
  | case1 walk hlast => rw [visits_none hlast, Reported.clean_pure]
  | case2 walk directory hlast visited next hnext ih =>
      rw [visits_some hlast, Reported.clean_bind]
      constructor
      · intro ⟨value, hvisited, hrest⟩
        cases hnext.symm.trans hvisited.2
        obtain ⟨hvisitable, rfl⟩ := clean_inspectDirectory.mp hvisited
        exact ⟨hvisitable, ih.mp hrest⟩
      · intro ⟨hvisitable, hrest⟩
        have hclean : visited.Clean (walk.pop.addAll directory) :=
          clean_inspectDirectory.mpr ⟨hvisitable, rfl⟩
        cases hnext.symm.trans hclean.2
        exact ⟨_, hclean, ih.mpr hrest⟩

/-- A directory that was visited is plain when what it left pending is. -/
theorem plain_of_addAll (hvisitable : Visitable unicode directory)
    (h : ∀ pending ∈ (walk.addAll directory).stack, Plain unicode pending.1 pending.2) :
    Plain unicode directory.1 directory.2 := by
  rw [plain_iff]
  refine ⟨hvisitable.1, fun entry hentry => ⟨hvisitable.2 entry hentry, fun hentered => ?_⟩⟩
  exact h _ (Walk.mem_stack_foldl.mpr
    (.inr ⟨entry, mem_sortedEntries.mpr hentry, hentered, rfl⟩))

/-- The directories that a plain one adds to the stack are plain. -/
theorem addAll_of_plain (h : Plain unicode directory.1 directory.2)
    (hwalk : ∀ pending ∈ walk.stack, Plain unicode pending.1 pending.2) :
    ∀ pending ∈ (walk.addAll directory).stack, Plain unicode pending.1 pending.2 := by
  intro pending hpending
  rcases Walk.mem_stack_foldl.mp hpending with hold | ⟨entry, hentry, hentered, rfl⟩
  · exact hwalk pending hold
  · exact ((plain_iff.mp h).2 entry (mem_sortedEntries.mp hentry)).2 hentered

/-- A visit finds the regular files of a directory and leaves its directories pending. -/
theorem found_addAll (hvisitable : Visitable unicode directory) {name : Text} :
    (name ∈ (walk.addAll directory).discovered ∨
        ∃ pending ∈ (walk.addAll directory).stack, Holds pending.1 pending.2 name) ↔
      name ∈ walk.discovered ∨ (∃ pending ∈ walk.stack, Holds pending.1 pending.2 name) ∨
        Holds directory.1 directory.2 name := by
  unfold Walk.addAll
  rw [Walk.mem_discovered_foldl, @holds_iff directory.1]
  simp only [Walk.mem_stack_foldl, mem_sortedEntries]
  constructor
  · rintro ((hold | ⟨entry, hentry, hfile, hname⟩) | ⟨pending, hpending, hholds⟩)
    · exact .inl hold
    · have hregular := (hvisitable.2 entry hentry).2.resolve_right hfile
      exact .inr (.inr ⟨entry, hentry, .inl ⟨hregular, hname⟩⟩)
    · rcases hpending with hpending | ⟨entry, hentry, hentered, rfl⟩
      · exact .inr (.inl ⟨pending, hpending, hholds⟩)
      · exact .inr (.inr ⟨entry, hentry, .inr ⟨hentered, hholds⟩⟩)
  · rintro (hold | ⟨pending, hpending, hholds⟩ | ⟨entry, hentry, hfound⟩)
    · exact .inl (.inl hold)
    · exact .inr ⟨pending, .inl hpending, hholds⟩
    · rcases hfound with ⟨hregular, hname⟩ | ⟨hentered, hholds⟩
      · have hfile : ¬Entered entry.2.value := by
          rw [entered_iff, hregular]
          decide
        exact .inl (.inr ⟨entry, hentry, hfile, hname⟩)
      · exact .inr ⟨_, .inr ⟨entry, hentry, hentered, rfl⟩, hholds⟩

/-- The stack is its last directory and the others. -/
theorem Walk.mem_stack_iff (hlast : walk.stack.getLast? = some directory)
    {pending : Path × SourceTree} :
    pending ∈ walk.stack ↔ pending ∈ walk.pop.stack ∨ pending = directory := by
  obtain ⟨rest, hstack⟩ := List.getLast?_eq_some_iff.mp hlast
  simp [pop, hstack]

/-- The walk ends when everything that is pending is plain. -/
theorem Visits.plain {found : List Text} (h : Visits unicode walk found) :
    ∀ pending ∈ walk.stack, Plain unicode pending.1 pending.2 := by
  induction h with
  | done hstack =>
      rw [List.getLast?_eq_none_iff.mp hstack]
      simp
  | visit hlast hvisitable hrest ih =>
      intro pending hpending
      rcases (Walk.mem_stack_iff hlast).mp hpending with hold | rfl
      · exact ih pending (Walk.mem_stack_foldl.mpr (.inl hold))
      · exact plain_of_addAll hvisitable ih

/-- A walk over plain directories comes to an end. -/
theorem visits_of_plain (walk : Walk)
    (h : ∀ pending ∈ walk.stack, Plain unicode pending.1 pending.2) :
    ∃ found, Visits unicode walk found := by
  cases hlast : walk.stack.getLast? with
  | none => exact ⟨_, .done hlast⟩
  | some directory =>
      have hstack := @Walk.mem_stack_iff walk directory hlast
      have hplain := h directory (hstack.mpr (.inr rfl))
      have hvisitable : Visitable unicode directory :=
        ⟨hplain.listable, fun entry hentry => ((plain_iff.mp hplain).2 entry hentry).1⟩
      obtain ⟨found, hrest⟩ := visits_of_plain (walk.pop.addAll directory)
        (addAll_of_plain hplain fun pending hpending => h pending (hstack.mpr (.inl hpending)))
      exact ⟨found, .visit hlast hvisitable hrest⟩
termination_by walk.weight
decreasing_by
  rw [Walk.weight_pop hlast]
  exact Builder.weight_inspectDirectory (Builder.inspectDirectory_eq_ok.mpr ⟨hvisitable, rfl⟩)

/-- What the walk finds, with what it has found before. -/
theorem Visits.mem_iff {found : List Text} (h : Visits unicode walk found) {name : Text} :
    name ∈ found ↔ name ∈ walk.discovered ∨
      ∃ pending ∈ walk.stack, Holds pending.1 pending.2 name := by
  induction h with
  | done hstack => simp [List.getLast?_eq_none_iff.mp hstack]
  | visit hlast hvisitable hrest ih =>
      rw [ih, found_addAll hvisitable]
      simp only [Walk.mem_stack_iff hlast, or_and_right, exists_or, exists_eq_left]
      rfl

/-- A walk finds no name twice. -/
theorem Visits.nodup {found : List Text} (h : Visits unicode walk found)
    (hnodup : walk.discovered.Nodup) : found.Nodup := by
  induction h with
  | done hstack => exact hnodup
  | visit hlast hvisitable hrest ih => exact ih (Walk.nodup_foldl hnodup)

end Release

end Oasi
