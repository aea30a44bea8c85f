import Oasi.Foundation.Processes
import Oasi.Release.Publication

/-! # The place that builders publish to

Any number of builders share one output and with it one draft. A file survives a power cut
with its content when it was synced; a move survives when its directory was. What each
builder meets apart from the two files is open and may change at any time.
-/

namespace Oasi

namespace Release

open Builder

abbrev ProcessId := Nat

structure File where
  content : Bytes
  /-- `os.fsync` has returned since the last write. -/
  synced : Bool
  deriving DecidableEq, Repr

/-- One move of a draft to the output. -/
structure Publication where
  process : ProcessId
  file : File
  /-- What the output held before. -/
  replaced : Option File
  deriving DecidableEq, Repr

structure Shelf where
  output : Option File
  draft : Option File
  /-- How many of the latest moves a power cut may undo. -/
  unsynced : Nat
  /-- Who has created the draft; nothing reads this or what follows. -/
  holder : Option ProcessId
  /-- All moves, latest first. -/
  publications : List Publication
  printed : List (ProcessId × Report)

/-- What an action meets apart from the two files. -/
structure Surroundings where
  status : Place → Option Status
  allowlist : PathState
  source : SourceDirectory
  /-- A verifier can read the archive. -/
  readable : Bool
  scribbled : Bytes

namespace Shelf

/-- Before any builder. -/
def start (output draft : Option File) : Shelf := ⟨output, draft, 0, none, [], []⟩

def place (shelf : Shelf) : Target → Option File
  | .draft => shelf.draft
  | .output => shelf.output

/-- The draft holds this, and a power cut may lose it. -/
def write (shelf : Shelf) (content : Bytes) : Shelf :=
  { shelf with draft := shelf.draft.map fun _ => ⟨content, false⟩ }

/-- What the output may hold after a power cut. -/
def survivors (shelf : Shelf) : List (Option File) :=
  shelf.output :: (shelf.publications.take shelf.unsynced).map Publication.replaced

/-- What a verifier makes of the path. -/
def seen (shelf : Shelf) (target : Target) (readable : Bool) : PathState :=
  match shelf.place target with
  | none => .missing
  | some file => .regular (if readable then some file.content else none)

end Shelf

def File.sync (file : File) : File := { file with synced := true }

section Actions

variable (unicode : UnicodeData) (zlib : Zlib)

/-- The reply to an action and the shelf after it, when the system causes no error. -/
def perform (surroundings : Surroundings) (process : ProcessId) :
    (action : Action) → Shelf → Reply action × Shelf
  | .lstat place, shelf => (.ok (surroundings.status place), shelf)
  | .lexists target, shelf => (.ok (shelf.place target).isSome, shelf)
  | .readAllowlist, shelf => (.ok surroundings.allowlist, shelf)
  | .meetSource, shelf => (.ok surroundings.source, shelf)
  | .createDraft, shelf =>
      match shelf.draft with
      | some _ => (.error .osError, shelf)
      | none => (.ok (), { shelf with draft := some ⟨[], false⟩, holder := some process })
  | .scribble, shelf => (.ok (), shelf.write surroundings.scribbled)
  | .readSource, shelf => (.ok surroundings.source.toSource, shelf)
  | .fill archive, shelf => (.ok (), shelf.write archive)
  | .syncDraft, shelf => (.ok (), { shelf with draft := shelf.draft.map File.sync })
  | .read target, shelf =>
      match shelf.place target with
      | none => (.error .osError, shelf)
      | some file => (.ok file.content, shelf)
  | .verify target, shelf =>
      (.ok (Verifier.run unicode zlib [shelf.seen target surroundings.readable]
        surroundings.allowlist (some surroundings.source)), shelf)
  | .replace, shelf =>
      match shelf.draft with
      | none => (.error .osError, shelf)
      | some file =>
          (.ok (), { shelf with
            output := some file
            draft := none
            unsynced := shelf.unsynced + 1
            holder := none
            publications := ⟨process, file, shelf.output⟩ :: shelf.publications })
  | .syncOutput, shelf =>
      match shelf.output with
      | none => (.error .osError, shelf)
      | some file => (.ok (), { shelf with output := some file.sync })
  | .syncParent, shelf => (.ok (), { shelf with unsynced := 0 })
  | .statOutput, shelf =>
      match shelf.output with
      | none => (.error .osError, shelf)
      | some file => (.ok file.content.length, shelf)
  | .print report, shelf =>
      (.ok (), { shelf with printed := (process, report) :: shelf.printed })

/-- What an error of the system leaves behind: a failed write may have written anything. -/
def Damages (action : Action) (before after : Shelf) : Prop :=
  match action with
  | .scribble | .fill _ => ∃ content, after = before.write content
  | _ => after = before

/-- One action of a builder, in whatever surroundings. -/
inductive BuildActs (process : ProcessId) (before : Shelf) (action : Action) :
    Reply action → Shelf → Prop where
  | performed {surroundings : Surroundings} {reply : Reply action} {after : Shelf}
      (hperform : perform unicode zlib surroundings process action before = (reply, after)) :
      BuildActs process before action reply after
  | faulted {after : Shelf} (hdamages : Damages action before after) :
      BuildActs process before action (.error .osError) after

/-! ## What the builders keep together -/

/-- The bytes were built from an allowlist and passed a verifier. -/
structure Vetted (content : Bytes) : Prop where
  built : ∃ allowlist expected source, parseAllowlist unicode allowlist = .ok expected ∧
    writePartial unicode zlib source expected = .ok content
  verified : ∃ allowlist expected source,
    Verifier.Passes unicode zlib [.regular (some content)] allowlist (some source) expected

/-- Each move has put its file in the place of what was there before. -/
inductive Chained (initial : Option File) : List Publication → Option File → Prop where
  | start : Chained initial [] initial
  | publish {publication : Publication} {earlier : List Publication}
      (hearlier : Chained initial earlier publication.replaced) :
      Chained initial (publication :: earlier) (some publication.file)

/-- A process has moved an archive. Where the move is settled, a power cut does not bring
back what was there before. -/
def Moved (process : ProcessId) (content : Bytes) (settled : Prop) (shelf : Shelf) : Prop :=
  ∃ later publication earlier, shelf.publications = later ++ publication :: earlier ∧
    publication.process = process ∧ publication.file.content = content ∧
    (settled → shelf.unsynced ≤ later.length)

/-- The report names the digest of an archive that its process has moved. -/
def Told (nt : Bool) (shelf : Shelf) (process : ProcessId) (report : Report) : Prop :=
  report.verification.passed = true ∧
    ∃ content, report.sha256 = hexdigest content ∧ Moved process content (nt = false) shelf

structure Sound (nt : Bool) (arguments : ProcessId → Arguments) (initial : Option File)
    (shelf : Shelf) : Prop where
  held : ∀ process, shelf.holder = some process → shelf.draft.isSome = true
  chained : Chained initial shelf.publications shelf.output
  vetted : ∀ publication ∈ shelf.publications,
    publication.file.synced = true ∧ Vetted unicode zlib publication.file.content
  spared : ∀ publication ∈ shelf.publications,
    (arguments publication.process).overwrite = false → publication.replaced = none
  told : ∀ telling ∈ shelf.printed, Told nt shelf telling.1 telling.2

end Actions

/-- Moves are added, and at most these can be undone besides those that could before. -/
def Grows (before after : Shelf) : Prop :=
  ∃ later, after.publications = later ++ before.publications ∧
    after.unsynced ≤ before.unsynced + later.length

theorem Grows.of_eq {before after : Shelf}
    (hpublications : after.publications = before.publications)
    (hunsynced : after.unsynced ≤ before.unsynced) : Grows before after :=
  ⟨[], hpublications, hunsynced⟩

theorem Grows.trans {first second third : Shelf} (hfirst : Grows first second)
    (hsecond : Grows second third) : Grows first third := by
  obtain ⟨early, hearly, hunsynced⟩ := hfirst
  obtain ⟨late, hlate, hlater⟩ := hsecond
  refine ⟨late ++ early, by rw [hlate, hearly, List.append_assoc], ?_⟩
  rw [List.length_append]
  omega

/-- What other builders leave alone. -/
structure LeavesShelf (process : ProcessId) (before after : Shelf) : Prop where
  held : before.holder = some process →
    after.holder = some process ∧ after.draft = before.draft ∧ after.output = before.output
  grows : Grows before after

theorem LeavesShelf.refl (process : ProcessId) (shelf : Shelf) :
    LeavesShelf process shelf shelf :=
  ⟨fun h => ⟨h, rfl, rfl⟩, .of_eq rfl (Nat.le_refl _)⟩

theorem LeavesShelf.trans {process : ProcessId} {first second third : Shelf}
    (hfirst : LeavesShelf process first second) (hsecond : LeavesShelf process second third) :
    LeavesShelf process first third := by
  refine ⟨fun hholder => ?_, hfirst.grows.trans hsecond.grows⟩
  obtain ⟨hmiddle, hdraft, houtput⟩ := hfirst.held hholder
  obtain ⟨hlast, hlastDraft, hlastOutput⟩ := hsecond.held hmiddle
  exact ⟨hlast, hlastDraft.trans hdraft, hlastOutput.trans houtput⟩

/-- Builders that share an output. -/
def publishing (unicode : UnicodeData) (zlib : Zlib) (nt : Bool)
    (arguments : ProcessId → Arguments) (initial : Option File) :
    Interference ProcessId Shelf Action Reply where
  Performs := BuildActs unicode zlib
  Invariant := Sound unicode zlib nt arguments initial
  Rely := LeavesShelf
  rely_refl := LeavesShelf.refl
  rely_trans := LeavesShelf.trans

end Release

end Oasi
