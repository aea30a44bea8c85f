import Mathlib.Algebra.BigOperators.Group.List.Basic
import Oasi.Foundation.NamedTrees
import Oasi.Foundation.Reports
import Oasi.Release.ArchiveWriter

/-! # The walk over a source directory

Both release tools visit the directories of a source with a stack and note each regular
file under its relative path. The builder stops at the first thing that it does not admit,
the verifier goes on and collects.
-/

namespace Oasi

namespace Release

/-- What a tool meets at one place of a directory. -/
structure Entry where
  /-- `entry.stat(follow_symlinks=False)`; `os.lstat` for the source directory itself. -/
  stat : Option FileKind
  /-- `os.lstat` of a directory when its turn comes. -/
  lstat : Option FileKind
  /-- `os.scandir` of a directory does not raise. -/
  scandir : Bool
  deriving DecidableEq, Repr

/-- A directory with what `os.scandir` lists in it, in whatever order. -/
abbrev SourceTree := NamedTree Text Entry

/-- The components of a path relative to the source directory. -/
abbrev Path := List Text

def asPosix : Path → Text
  | [] => ['.']
  | [name] => name
  | name :: next :: rest => name ++ '/' :: asPosix (next :: rest)

/-- The source as the tools meet it: the directories and the files as they are read. -/
structure SourceDirectory extends Source where
  tree : SourceTree

/-- `require_plain_directory` on a status. -/
def requirePlainDirectory (kind : Option FileKind) (label : String) : Except SourceError Unit :=
  match kind with
  | none => .error (.boundary (.unreadable label))
  | some .link => .error (.boundary (.linked label))
  | some .directory => .ok ()
  | some .regular | some .special => .error (.notDirectory label)

/-- `sorted(iterator, key=lambda item: item.name)` -/
def sortedEntries (directory : SourceTree) : List (Text × SourceTree) :=
  directory.children.insertionSort fun left right => left.1 ≤ right.1

/-- The state of the loop. -/
structure Walk where
  /-- The keys of the dictionary; each stands for the path it is relative of. -/
  discovered : List Text
  /-- The directories that are pending, the next one last. -/
  stack : List (Path × SourceTree)

namespace Walk

/-- Nothing is discovered, and the source directory is pending. -/
def start (tree : SourceTree) : Walk := ⟨[], [([], tree)]⟩

/-- `stack.append(path)` -/
def push (walk : Walk) (directory : Path × SourceTree) : Walk :=
  { walk with stack := walk.stack ++ [directory] }

/-- `discovered[relative] = path` -/
def discover (walk : Walk) (relative : Text) : Walk :=
  { walk with discovered :=
      if relative ∈ walk.discovered then walk.discovered else walk.discovered ++ [relative] }

/-- `stack.pop()` -/
def pop (walk : Walk) : Walk := { walk with stack := walk.stack.dropLast }

/-- The number of nodes that are pending. -/
def weight (walk : Walk) : Nat := (walk.stack.map fun directory => directory.2.size).sum

theorem weight_push (walk : Walk) (directory : Path × SourceTree) :
    (walk.push directory).weight = walk.weight + directory.2.size := by
  simp [weight, push]

theorem weight_discover (walk : Walk) (relative : Text) :
    (walk.discover relative).weight = walk.weight := rfl

theorem weight_pop {walk : Walk} {directory : Path × SourceTree}
    (h : walk.stack.getLast? = some directory) :
    walk.weight = walk.pop.weight + directory.2.size := by
  obtain ⟨rest, hstack⟩ := List.getLast?_eq_some_iff.mp h
  simp [weight, pop, hstack]

/-- The names are `NFC` and folded to lower case before they are compared. -/
def folded (unicode : UnicodeData) (discovered : List Text) : List Text :=
  discovered.map fun name => unicode.casefold (unicode.nfc name)

end Walk

theorem sum_sortedEntries (directory : SourceTree) :
    ((sortedEntries directory).map fun entry => entry.2.size).sum + 1 = directory.size := by
  rw [NamedTree.size_eq]
  congr 1
  exact ((List.perm_insertionSort _ _).map _).sum_eq

/-! ## The builder -/

namespace Builder

/-- One turn of the loop over the entries of a directory. -/
def inspectEntry (unicode : UnicodeData) (directory : Path) (walk : Walk)
    (entry : Text × SourceTree) : Except SourceError Walk := do
  let path := directory ++ [entry.1]
  let relative := asPosix path
  match entry.2.value.stat with
  | none => .error (.cannotStat relative)
  | some kind =>
      (validatePortableName unicode relative).mapError .boundary
      match kind with
      | .link => .error (.linkRejected relative)
      | .directory => return walk.push (path, entry.2)
      | .regular => return walk.discover relative
      | .special => .error (.specialRejected relative)

/-- One turn of the loop over the stack. -/
def inspectDirectory (unicode : UnicodeData) (walk : Walk) (directory : Path × SourceTree) :
    Except SourceError Walk := do
  requirePlainDirectory directory.2.value.lstat "source directory entry"
  failIf (directory.2.value.scandir = false) .cannotEnumerate
  (sortedEntries directory.2).foldlM (inspectEntry unicode directory.1) walk

theorem weight_inspectEntry {unicode : UnicodeData} {directory : Path} (walk : Walk)
    (entry : Text × SourceTree) (next : Walk)
    (h : inspectEntry unicode directory walk entry = .ok next) :
    next.weight ≤ walk.weight + entry.2.size := by
  unfold inspectEntry at h
  split at h
  next => cases h
  next kind _ =>
    obtain ⟨_, _, h⟩ := bind_eq_ok.mp h
    cases kind with
    | regular =>
        cases h
        exact Nat.le_add_right _ _
    | directory =>
        cases h
        exact (Walk.weight_push _ _).le
    | link => cases h
    | special => cases h

theorem weight_inspectDirectory {unicode : UnicodeData} {walk next : Walk}
    {directory : Path × SourceTree}
    (h : inspectDirectory unicode walk directory = .ok next) :
    next.weight < walk.weight + directory.2.size := by
  obtain ⟨_, _, h⟩ := bind_eq_ok.mp h
  obtain ⟨_, _, h⟩ := bind_eq_ok.mp h
  have hsum := sum_sortedEntries directory.2
  have hle := foldlM_le weight_inspectEntry h
  omega

/-- The loop over the stack. Each turn leaves fewer nodes pending. -/
def inspectPending (unicode : UnicodeData) (walk : Walk) : Except SourceError (List Text) :=
  match _hlast : walk.stack.getLast? with
  | none => .ok walk.discovered
  | some directory =>
      match _hnext : inspectDirectory unicode walk.pop directory with
      | .error error => .error error
      | .ok next => inspectPending unicode next
termination_by walk.weight
decreasing_by
  rw [Walk.weight_pop _hlast]
  exact weight_inspectDirectory _hnext

/-- `inspect_source` of the builder. -/
def inspectSource (unicode : UnicodeData) (tree : SourceTree) :
    Except SourceError (List Text) := do
  requirePlainDirectory tree.value.stat "source directory"
  let discovered ← inspectPending unicode (Walk.start tree)
  failIf (¬(Walk.folded unicode discovered).Nodup) .collision
  return discovered

/-- What `main` asks of a source before it creates any output. -/
def checkSource (unicode : UnicodeData) (expected : Mapping) (source : SourceDirectory) :
    Except SourceError Unit := do
  let discovered ← inspectSource unicode source.tree
  let names := expected.map Prod.fst
  let missing := sorted (names.filter (· ∉ discovered))
  let unlisted := sorted (discovered.filter (· ∉ names))
  failIf (missing ≠ [] ∨ unlisted ≠ []) (.mismatch missing unlisted)
  (sorted names).forM fun relative => do
    let _ ← source.read expected relative
    return ()

end Builder

/-! ## The verifier -/

namespace Verifier

open Reported

/-- Checks of a source that append to the list of errors and raise nothing. -/
abbrev Inspection := Reported SourceError Empty

/-- One turn of the loop over the entries of a directory. -/
def inspectEntry (unicode : UnicodeData) (directory : Path) (walk : Walk)
    (entry : Text × SourceTree) : Inspection Walk :=
  let path := directory ++ [entry.1]
  let relative := asPosix path
  match validatePortableName unicode relative with
  | .error error => do
      note (.boundary error)
      return walk
  | .ok () =>
      match entry.2.value.stat with
      | none => do
          note .osError
          return walk
      | some .link => do
          note (.linkRejected relative)
          return walk
      | some .directory => return walk.push (path, entry.2)
      | some .regular => return walk.discover relative
      | some .special => do
          note (.specialRejected relative)
          return walk

/-- One turn of the loop over the stack. -/
def inspectDirectory (unicode : UnicodeData) (walk : Walk) (directory : Path × SourceTree) :
    Inspection Walk :=
  match requirePlainDirectory directory.2.value.lstat "source directory entry" with
  | .error error => do
      note error
      return walk
  | .ok () =>
      if directory.2.value.scandir = false then do
        note .osError
        return walk
      else (sortedEntries directory.2).foldlM (inspectEntry unicode directory.1) walk

theorem weight_inspectEntry {unicode : UnicodeData} {directory : Path} (walk : Walk)
    (entry : Text × SourceTree) (next : Walk)
    (h : (inspectEntry unicode directory walk entry).result = .ok next) :
    next.weight ≤ walk.weight + entry.2.size := by
  have hpush : (walk.push (directory ++ [entry.1], entry.2)).weight =
      walk.weight + entry.2.size := Walk.weight_push _ _
  have hdiscover := Walk.weight_discover walk (asPosix (directory ++ [entry.1]))
  cases hname : validatePortableName unicode (asPosix (directory ++ [entry.1])) with
  | error error =>
      simp only [inspectEntry, hname] at h
      cases h
      omega
  | ok _ =>
      simp only [inspectEntry, hname] at h
      split at h <;> cases h <;> omega

theorem weight_inspectDirectory {unicode : UnicodeData} {walk next : Walk}
    {directory : Path × SourceTree}
    (h : (inspectDirectory unicode walk directory).result = .ok next) :
    next.weight < walk.weight + directory.2.size := by
  have hsum := sum_sortedEntries directory.2
  unfold inspectDirectory at h
  split at h
  next => cases h; omega
  next =>
    split at h
    next => cases h; omega
    next =>
      rw [result_foldlM] at h
      have hle := foldlM_le weight_inspectEntry h
      omega

/-- The loop over the stack. Each turn leaves fewer nodes pending. -/
def inspectPending (unicode : UnicodeData) (walk : Walk) : Inspection (List Text) :=
  match _hlast : walk.stack.getLast? with
  | none => pure walk.discovered
  | some directory =>
      let visited := inspectDirectory unicode walk.pop directory
      match _hnext : visited.result with
      | .ok next => visited >>= fun _ => inspectPending unicode next
termination_by walk.weight
decreasing_by
  rw [Walk.weight_pop _hlast]
  exact weight_inspectDirectory _hnext

/-- `inspect_source` of the verifier: the list of errors. -/
def inspectSource (unicode : UnicodeData) (expected : Mapping) (source : SourceDirectory) :
    List SourceError :=
  match requirePlainDirectory source.tree.value.stat "source directory" with
  | .error error => [error]
  | .ok () =>
      let walked := do
        let discovered ← inspectPending unicode (Walk.start source.tree)
        noteIf (¬(Walk.folded unicode discovered).Nodup) .collision
        let names := expected.map Prod.fst
        let missing := sorted (names.filter (· ∉ discovered))
        let unlisted := sorted (discovered.filter (· ∉ names))
        noteIf (missing ≠ []) (.missing missing)
        noteIf (unlisted ≠ []) (.unlisted unlisted)
        (sorted (names.filter (· ∈ discovered))).forM fun relative =>
          noteAll (stableDigest relative (source.reading relative)
            ((expected.lookup relative).getD ⟨[], 0⟩))
      Reported.messages (walked : Inspection Unit)

end Verifier

end Release

end Oasi
