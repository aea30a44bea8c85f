import Oasi.Broker.Database
import Oasi.Foundation.Program

/-! # The files of the broker ledger and the actions on them

A ledger lives in a database file and a seal file next to it, which is replaced
through a temporary file. The database has one writer at a time, whose changes
reach the file in one step when it commits: a commit is taken to be atomic, and the
journal that a process killed inside it leaves, with the pages already written, is left
out. The file is one that SQLite has written, so its integrity check finds nothing. Text
files are opened by name and then written by inode, so that a file that was renamed after
it was opened is still the file that is written.
-/

namespace Oasi.Broker

abbrev Handle := Nat

/-! ## Actions -/

/-- What the methods of `Ledger` ask of SQLite and of the file system. -/
inductive Action where
  /-- `path.exists()` -/
  | pathExists
  /-- `seal_path.is_file()` -/
  | sealIsFile
  /-- `seal_path.read_text(...)` -/
  | readSeal
  /-- `path.read_bytes()` -/
  | readDatabase
  /-- `sqlite3.connect(...)` -/
  | connect
  /-- A `PRAGMA` that leaves the database as it is. -/
  | pragma (text : String)
  /-- `CREATE TABLE IF NOT EXISTS attempts` -/
  | createAttempts
  /-- `CREATE TABLE IF NOT EXISTS events` -/
  | createEvents
  | beginImmediate
  | commit
  | rollback
  | selectAttempt
  | insertAttempt (state : String)
  | updateAttempt (update : Update)
  | selectLastHash
  | selectEvents
  /-- `PRAGMA integrity_check` -/
  | integrityCheck
  | insertEvent (row : EventRow)
  /-- `temporary.open("w", ...)` -/
  | openTemporary
  /-- `handle.write(text)` with `handle.flush()` -/
  | writeTemporary (inode : Nat) (text : String)
  /-- `os.fsync(handle.fileno())` -/
  | syncTemporary
  /-- `os.replace(temporary, seal_path)` -/
  | replaceSeal
  /-- `os.open(path.parent, ...)` -/
  | openDirectory
  | syncDirectory
  | closeDirectory
  deriving DecidableEq, Repr

/-- What an action returns when it does not raise. -/
abbrev Result : Action → Type
  | .pathExists | .sealIsFile => Bool
  | .readSeal | .integrityCheck => String
  | .readDatabase => Bytes
  | .selectAttempt => Option AttemptRow
  | .selectLastHash => Option StoredValue
  | .selectEvents => List EventRow
  | .openTemporary => Nat
  | _ => Unit

abbrev Reply (action : Action) : Type := Except Raised (Result action)

/-! ## The world -/

/-- The methods that change the ledger. -/
inductive Operation where
  /-- `Ledger(path)` -/
  | construct
  | prepare
  | consume
  | recordResult (receiptDigest : String)
  | terminal
  deriving DecidableEq, Repr

/-- What the history of a ledger records. -/
inductive Happening where
  /-- An action of a handle, with its reply and the database file it leaves. -/
  | performed (handle : Handle) (action : Action) (reply : Reply action)
      (database : Option Database)
  | returned (handle : Handle) (operation : Operation) (outcome : Except Raised Unit)
  /-- The dispatcher of this handle applies the effect. -/
  | applied (handle : Handle)

structure World where
  /-- The committed contents of the file at `path`, once there is one. -/
  database : Option Database
  /-- The open write transaction: its holder and what it sees. -/
  writer : Option (Handle × Database)
  /-- The contents of text files by inode. -/
  texts : Nat → String
  /-- Inodes from here on are unused. -/
  fresh : Nat
  /-- The inode at `seal_path`. -/
  sealInode : Option Nat
  /-- The inode at the temporary path. -/
  temporaryInode : Option Nat
  /-- What has happened, latest first; nothing reads it. -/
  history : List Happening

namespace World

/-- An empty directory. -/
def empty : World := ⟨none, none, fun _ => "", 0, none, none, []⟩

/-- The database as the statements of a handle see it. -/
def view (world : World) (handle : Handle) : Except Raised Database :=
  match world.writer with
  | some (holder, pending) =>
      if holder = handle then .ok pending else world.database.elim (.error .fileNotFound) .ok
  | none => world.database.elim (.error .fileNotFound) .ok

/-- The inode holds this text from now on. -/
def setText (world : World) (inode : Nat) (text : String) : World :=
  { world with texts := fun other => if other = inode then text else world.texts other }

def record (world : World) (happening : Happening) : World :=
  { world with history := happening :: world.history }

/-- A handle that is closed or whose process ends gives up its transaction. -/
def release (world : World) (handle : Handle) : World :=
  match world.writer with
  | some (holder, _) => if holder = handle then { world with writer := none } else world
  | none => world

end World

def locked : Raised := .operational "database is locked"

/-- A statement that changes tables: inside the transaction of the handle, or
else on its own. -/
def World.write (world : World) (handle : Handle)
    (statement : Database → Except Raised Database) : Except Raised Unit × World :=
  match world.writer with
  | some (holder, pending) =>
      if holder = handle then
        match statement pending with
        | .ok written => (.ok (), { world with writer := some (holder, written) })
        | .error raised => (.error raised, world)
      else (.error locked, world)
  | none =>
      match world.database with
      | none => (.error .fileNotFound, world)
      | some database =>
          match statement database with
          | .ok written =>
              (.ok (), { world with
                database := some { written with changes := database.changes + 1 } })
          | .error raised => (.error raised, world)

def World.read {Value : Type} (world : World) (handle : Handle)
    (statement : Database → Except Raised Value) : Except Raised Value :=
  match world.view handle with
  | .ok database => statement database
  | .error raised => .error raised

/-- A table that exists is left alone, without any lock. -/
def World.create (world : World) (handle : Handle) (present : Database → Bool)
    (statement : Database → Database) : Except Raised Unit × World :=
  match world.view handle with
  | .ok database =>
      if present database then (.ok (), world)
      else world.write handle fun database => .ok (statement database)
  | .error raised => (.error raised, world)

variable (image : Database → Bytes)

/-- The reply to an action and the world after it, when the environment causes
no error. `image` is the file format of the database. -/
def perform (handle : Handle) : (action : Action) → World → Reply action × World
  | .pathExists, world => (.ok world.database.isSome, world)
  | .sealIsFile, world => (.ok world.sealInode.isSome, world)
  | .readSeal, world =>
      match world.sealInode with
      | some inode => (.ok (world.texts inode), world)
      | none => (.error .fileNotFound, world)
  | .readDatabase, world =>
      match world.database with
      | some database => (.ok (image database), world)
      | none => (.error .fileNotFound, world)
  | .connect, world => (.ok (), { world with database := some (world.database.getD .empty) })
  | .pragma _, world => (.ok (), world)
  | .createAttempts, world =>
      world.create handle (·.attempts.isSome) fun database => { database with attempts := some [] }
  | .createEvents, world =>
      world.create handle (·.events.isSome) fun database => { database with events := some [] }
  | .beginImmediate, world =>
      match world.writer with
      | some (holder, _) =>
          if holder = handle then
            (.error (.operational "cannot start a transaction within a transaction"), world)
          else (.error locked, world)
      | none =>
          match world.database with
          | some database => (.ok (), { world with writer := some (handle, database) })
          | none => (.error .fileNotFound, world)
  | .commit, world =>
      match world.writer with
      | some (holder, pending) =>
          if holder = handle then
            (.ok (), { world with
              database := some { pending with changes := pending.changes + 1 }, writer := none })
          else (.error (.operational "cannot commit - no transaction is active"), world)
      | none => (.error (.operational "cannot commit - no transaction is active"), world)
  | .rollback, world =>
      match world.writer with
      | some (holder, _) =>
          if holder = handle then (.ok (), { world with writer := none })
          else (.error (.operational "cannot rollback - no transaction is active"), world)
      | none => (.error (.operational "cannot rollback - no transaction is active"), world)
  | .selectAttempt, world => (world.read handle (·.selectAttempt), world)
  | .insertAttempt state, world => world.write handle (·.insertAttempt state)
  | .updateAttempt update, world => world.write handle (·.updateAttempt update)
  | .selectLastHash, world => (world.read handle (·.selectLastHash), world)
  | .selectEvents, world => (world.read handle (·.eventsTable), world)
  | .integrityCheck, world => (.ok "ok", world)
  | .insertEvent row, world => world.write handle (·.insertEvent row)
  | .openTemporary, world =>
      match world.temporaryInode with
      | some inode => (.ok inode, world.setText inode "")
      | none =>
          (.ok world.fresh, { world.setText world.fresh "" with
            fresh := world.fresh + 1, temporaryInode := some world.fresh })
  | .writeTemporary inode text, world => (.ok (), world.setText inode text)
  | .syncTemporary, world => (.ok (), world)
  | .replaceSeal, world =>
      match world.temporaryInode with
      | some inode =>
          (.ok (), { world with sealInode := some inode, temporaryInode := none })
      | none => (.error .fileNotFound, world)
  | .openDirectory, world => (.ok (), world)
  | .syncDirectory, world => (.ok (), world)
  | .closeDirectory, world => (.ok (), world)

/-- What an error of the environment leaves behind: a failed write may have
written anything. -/
def Damages (action : Action) (before after : World) : Prop :=
  match action with
  | .writeTemporary inode _ => ∃ text, after = before.setText inode text
  | _ => after = before

/-- One action of a handle. `ROLLBACK` ends the transaction in any case. -/
inductive Acts (handle : Handle) (before : World) (action : Action) :
    Reply action → World → Prop where
  | performed {reply : Reply action} {after : World}
      (hperform : perform image handle action before = (reply, after)) :
      Acts handle before action reply (after.record (.performed handle action reply after.database))
  | faulted {after : World} (hdamages : Damages action before after)
      (haction : action ≠ .rollback) :
      Acts handle before action (.error .fault)
        (after.record (.performed handle action (.error .fault) after.database))

/-- One action of a handle without an error of the environment. -/
def Works (handle : Handle) (before : World) (action : Action) (reply : Reply action)
    (after : World) : Prop :=
  ∃ world, perform image handle action before = (reply, world) ∧
    after = world.record (.performed handle action reply world.database)

variable {image}

/-! ## The actions of a transaction -/

section Statement

variable (handle : Handle) (world : World)

/-- A statement changes the copy of its handle, or the file where no transaction is open, or
else fails. -/
theorem World.write_cases (statement : Database → Except Raised Database) :
    (∃ pending written, world.writer = some (handle, pending) ∧ statement pending = .ok written ∧
      world.write handle statement = (.ok (), { world with writer := some (handle, written) })) ∨
    (world.writer = none ∧ ∃ database written, world.database = some database ∧
      statement database = .ok written ∧
      world.write handle statement = (.ok (), { world with
        database := some { written with changes := database.changes + 1 } })) ∨
    ∃ raised, world.write handle statement = (.error raised, world) := by
  unfold World.write
  cases hheld : world.writer with
  | some entry =>
      obtain ⟨holder, pending⟩ := entry
      by_cases hholder : holder = handle
      · subst hholder
        simp only [if_true]
        cases hwritten : statement pending with
        | ok written => exact .inl ⟨pending, written, rfl, hwritten, rfl⟩
        | error raised => exact .inr (.inr ⟨raised, rfl⟩)
      · exact .inr (.inr ⟨locked, if_neg hholder⟩)
  | none =>
      cases hdatabase : world.database with
      | none => exact .inr (.inr ⟨_, rfl⟩)
      | some database =>
          dsimp only
          cases hwritten : statement database with
          | ok written => exact .inr (.inl ⟨rfl, database, written, rfl, hwritten, rfl⟩)
          | error raised => exact .inr (.inr ⟨raised, rfl⟩)

/-- A table that is there is left alone, and one that is not is made by a statement. -/
theorem World.create_cases (present : Database → Bool) (statement : Database → Database) :
    (∃ database, world.view handle = .ok database ∧ present database = true ∧
      world.create handle present statement = (.ok (), world)) ∨
    (∃ database, world.view handle = .ok database ∧ present database = false ∧
      world.create handle present statement =
        world.write handle fun database => .ok (statement database)) ∨
    ∃ raised, world.create handle present statement = (.error raised, world) := by
  unfold World.create
  cases hview : world.view handle with
  | error raised => exact .inr (.inr ⟨raised, rfl⟩)
  | ok database =>
      cases hpresent : present database with
      | true => exact .inl ⟨database, rfl, hpresent, if_pos hpresent⟩
      | false =>
          refine .inr (.inl ⟨database, rfl, hpresent, if_neg ?_⟩)
          rw [hpresent]
          exact Bool.false_ne_true

end Statement

section Transaction

variable (image) (handle : Handle) (world : World)

/-- `BEGIN IMMEDIATE` copies the file if no transaction is open, or else fails. -/
theorem begin_cases :
    (world.writer = none ∧ ∃ database, world.database = some database ∧
      perform image handle .beginImmediate world =
        (.ok (), { world with writer := some (handle, database) })) ∨
    ∃ raised, perform image handle .beginImmediate world = (.error raised, world) := by
  rw [perform]
  cases hheld : world.writer with
  | some entry =>
      right
      dsimp only
      split <;> exact ⟨_, rfl⟩
  | none =>
      cases hdatabase : world.database with
      | some database => exact .inl ⟨rfl, database, rfl, rfl⟩
      | none => exact .inr ⟨_, rfl⟩

/-- `COMMIT` publishes the copy of the handle and closes its transaction, or else fails. -/
theorem commit_cases :
    (∃ pending, world.writer = some (handle, pending) ∧ perform image handle .commit world =
      (.ok (), { world with
        database := some { pending with changes := pending.changes + 1 }, writer := none })) ∨
    (∀ pending, world.writer ≠ some (handle, pending)) ∧
      ∃ raised, perform image handle .commit world = (.error raised, world) := by
  rw [perform]
  cases hheld : world.writer with
  | none => exact .inr ⟨by simp, _, rfl⟩
  | some entry =>
      obtain ⟨holder, pending⟩ := entry
      by_cases hholder : holder = handle
      · subst hholder
        exact .inl ⟨pending, rfl, if_pos rfl⟩
      · exact .inr ⟨by simp [hholder], _, if_neg hholder⟩

/-- `ROLLBACK` drops the copy of the handle, or else fails. -/
theorem rollback_cases :
    (∃ pending, world.writer = some (handle, pending) ∧
      perform image handle .rollback world = (.ok (), { world with writer := none })) ∨
    (∀ pending, world.writer ≠ some (handle, pending)) ∧
      ∃ raised, perform image handle .rollback world = (.error raised, world) := by
  rw [perform]
  cases hheld : world.writer with
  | none => exact .inr ⟨by simp, _, rfl⟩
  | some entry =>
      obtain ⟨holder, pending⟩ := entry
      by_cases hholder : holder = handle
      · subst hholder
        exact .inl ⟨pending, rfl, if_pos rfl⟩
      · exact .inr ⟨by simp [hholder], _, if_neg hholder⟩

end Transaction

theorem Works.acts {handle : Handle} {before after : World} {action : Action}
    {reply : Reply action} (h : Works image handle before action reply after) :
    Acts image handle before action reply after := by
  obtain ⟨world, hperform, rfl⟩ := h
  exact .performed hperform

end Oasi.Broker
