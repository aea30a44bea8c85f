import Oasi.Broker.Handles
import Oasi.Foundation.Checked

/-! # What handles leave to each other

Whatever a handle does, the transaction of another handle stays open and the
database under it stays as it is; tables never vanish; and what the history says
about one handle is written by that handle alone.
-/

namespace Oasi.Broker

/-- Every table of the first database is one of the second. -/
structure Database.Extends (first second : Database) : Prop where
  attempts : first.attempts.isSome → second.attempts.isSome
  events : first.events.isSome → second.events.isSome

theorem Database.Extends.refl (database : Database) : database.Extends database := ⟨id, id⟩

theorem Database.Extends.trans {first second third : Database} (hfirst : first.Extends second)
    (hsecond : second.Extends third) : first.Extends third :=
  ⟨hsecond.attempts ∘ hfirst.attempts, hsecond.events ∘ hfirst.events⟩

namespace World

/-- The rows of the attempts table, none when there is no table or no file. -/
def attemptRows (world : World) : List AttemptRow := world.database.elim [] (·.attemptRows)

def eventRows (world : World) : List EventRow := world.database.elim [] (·.eventRows)

/-- The committed tables hold this phase. -/
structure Holds (world : World) (phase : Phase) : Prop where
  attempts : world.attemptRows = phase.row?.toList
  events : world.eventRows = chainFrom zeroHash phase.milestones

/-- There is a file, and it has both tables. -/
def HasTables (world : World) : Prop :=
  ∃ database, world.database = some database ∧ database.HasTables

/-- The handles that committed the consumption of the attempt, latest first. -/
def committers (world : World) : List Handle :=
  world.history.filterMap fun
    | .performed handle .commit (.ok _) (some database) =>
        if database.attemptRows.any (fun row => row.current && row.state == .text "CONSUMED") then
          some handle
        else none
    | _ => none

/-- The file grows: it does not vanish and keeps its tables. -/
def Grows (before after : World) : Prop :=
  ∀ database, before.database = some database →
    ∃ grown, after.database = some grown ∧ database.Extends grown

/-- A file that stays as it is has grown. -/
theorem grows_of_database {before after : World} (h : after.database = before.database) :
    before.Grows after := by
  intro database hdatabase
  exact ⟨database, h.trans hdatabase, .refl database⟩

theorem Grows.trans {first second third : World} (hfirst : first.Grows second)
    (hsecond : second.Grows third) : first.Grows third := by
  intro database hdatabase
  obtain ⟨middle, hmiddle, hextends⟩ := hfirst database hdatabase
  obtain ⟨last, hlast, hmore⟩ := hsecond middle hmiddle
  exact ⟨last, hlast, hextends.trans hmore⟩

/-- A file that grows keeps its tables. -/
theorem HasTables.grow {before after : World} (htables : before.HasTables)
    (hgrows : before.Grows after) : after.HasTables := by
  obtain ⟨database, hdatabase, hattempts, hevents⟩ := htables
  obtain ⟨grown, hgrown, hextends⟩ := hgrows database hdatabase
  exact ⟨grown, hgrown, ⟨hextends.attempts hattempts, hextends.events hevents⟩⟩

/-- The phase depends on the rows only. -/
theorem Holds.of_rows {before after : World} {phase : Phase} (hholds : before.Holds phase)
    (hattempts : after.attemptRows = before.attemptRows)
    (hevents : after.eventRows = before.eventRows) : after.Holds phase :=
  ⟨hattempts.trans hholds.attempts, hevents.trans hholds.events⟩

end World

/-! ## Single actions -/

/-- The actions that change the file or take part in a transaction. -/
def Action.touches : Action → Bool
  | .connect | .createAttempts | .createEvents | .beginImmediate | .commit | .rollback
  | .insertAttempt _ | .updateAttempt _ | .insertEvent _ => true
  | _ => false

/-- The actions that may change rows. -/
def Action.writes : Action → Bool
  | .commit | .insertAttempt _ | .updateAttempt _ | .insertEvent _ => true
  | _ => false

/-- An action that does not touch the file writes no rows. -/
theorem writes_of_touches {action : Action} (h : action.touches = false) :
    action.writes = false := by
  cases action <;> first | rfl | cases h

/-- The database and the transaction are as before. -/
structure SameStore (before after : World) : Prop where
  database : after.database = before.database
  writer : after.writer = before.writer
  history : after.history = before.history

theorem SameStore.refl (world : World) : SameStore world world := ⟨rfl, rfl, rfl⟩

/-- A text file is not the database. -/
theorem sameStore_setText (world : World) (inode : Nat) (text : String) :
    SameStore world (world.setText inode text) := ⟨rfl, rfl, rfl⟩

section Actions

variable {image : Database → Bytes} {handle : Handle} {before after : World}

/-- A failed action leaves database and transaction as they are. -/
theorem sameStore_of_damages {action : Action} (h : Damages action before after) :
    SameStore before after := by
  cases action with
  | writeTemporary inode text =>
      obtain ⟨written, rfl⟩ := h
      exact sameStore_setText before inode written
  | _ => exact h ▸ SameStore.refl before

/-- An action that is not about the database leaves it as it is. -/
theorem perform_untouched (action : Action) (h : action.touches = false) (world : World) :
    SameStore world (perform image handle action world).2 := by
  cases action with
  | openTemporary =>
      rw [perform]
      split <;> exact ⟨rfl, rfl, rfl⟩
  | readSeal | readDatabase | replaceSeal =>
      rw [perform]
      split <;> exact ⟨rfl, rfl, rfl⟩
  | writeTemporary inode text => exact sameStore_setText world inode text
  | connect | createAttempts | createEvents | beginImmediate | commit | rollback
  | insertAttempt | updateAttempt | insertEvent => cases h
  | _ => exact SameStore.refl world

/-- A statement writes no history. -/
theorem write_history (world : World) (statement : Database → Except Raised Database) :
    (world.write handle statement).2.history = world.history := by
  rcases world.write_cases handle statement with
    ⟨_, _, _, _, hdone⟩ | ⟨_, _, _, _, _, hdone⟩ | ⟨_, hfailed⟩
  · rw [hdone]
  · rw [hdone]
  · rw [hfailed]

/-- The making of a table writes no history. -/
theorem create_history (world : World) (present : Database → Bool)
    (statement : Database → Database) :
    (world.create handle present statement).2.history = world.history := by
  rcases world.create_cases handle present statement with
    ⟨_, _, _, hthere⟩ | ⟨_, _, _, hmade⟩ | ⟨_, hfailed⟩
  · rw [hthere]
  · rw [hmade]
    exact write_history _ _
  · rw [hfailed]

/-- The history is written by steps and not by actions. -/
theorem perform_history (action : Action) (world : World) :
    (perform image handle action world).2.history = world.history := by
  cases htouches : action.touches with
  | false => exact (perform_untouched action htouches world).history
  | true =>
      cases action with
      | connect => rfl
      | createAttempts | createEvents => exact create_history _ _ _
      | insertAttempt | updateAttempt | insertEvent => exact write_history _ _
      | beginImmediate | commit | rollback =>
          rw [perform]
          repeat' split
          all_goals rfl
      | _ => cases htouches

/-- An action adds itself to the history. -/
theorem Acts.history {action : Action} {reply : Reply action}
    (h : Acts image handle before action reply after) :
    after.history = .performed handle action reply after.database :: before.history := by
  cases h with
  | @performed _ world hperform =>
      have hhistory : world.history = before.history := by
        rw [← @perform_history image handle action before, hperform]
      simp only [World.record, hhistory]
  | @faulted world hdamages _ =>
      simp only [World.record, (sameStore_of_damages hdamages).history]

/-- No action reports a consumption. -/
theorem Acts.consumers {action : Action} {reply : Reply action}
    (h : Acts image handle before action reply after) : after.consumers = before.consumers := by
  rw [World.consumers, h.history]
  rfl

/-- No action applies the effect. -/
theorem Acts.appliers {action : Action} {reply : Reply action}
    (h : Acts image handle before action reply after) : after.appliers = before.appliers := by
  rw [World.appliers, h.history]
  rfl

/-- Only commits commit a consumption. -/
theorem Acts.committers {action : Action} {reply : Reply action}
    (h : Acts image handle before action reply after) (haction : action ≠ .commit) :
    after.committers = before.committers := by
  rw [World.committers, h.history, List.filterMap_cons]
  cases action with
  | commit => exact absurd rfl haction
  | _ => rfl

/-- A failed or unrelated action leaves database and transaction as they are. -/
theorem Acts.untouched {action : Action} {reply : Reply action}
    (h : Acts image handle before action reply after) (haction : action.touches = false) :
    after.database = before.database ∧ after.writer = before.writer := by
  cases h with
  | @performed _ world hperform =>
      have hsame := @perform_untouched image handle action haction before
      rw [hperform] at hsame
      exact ⟨hsame.database, hsame.writer⟩
  | @faulted world hdamages _ =>
      have hsame := sameStore_of_damages hdamages
      exact ⟨hsame.database, hsame.writer⟩

/-! ## The store under other handles -/

/-- What an action does to the database and the transaction, as far as other
handles depend on it. -/
structure Coexists (handle : Handle) (before after : World) : Prop where
  others : ∀ other pending, other ≠ handle → before.writer = some (other, pending) →
    after.writer = before.writer ∧ after.database = before.database
  grows : before.Grows after
  writer : ∀ holder pending, after.writer = some (holder, pending) →
    ∃ database, after.database = some database ∧ database.Extends pending

/-- One handle holds the transaction. -/
theorem holder_unique {world : World} {holder other : Handle} {pending current : Database}
    (hholder : world.writer = some (holder, pending))
    (hother : world.writer = some (other, current)) : other = holder := by
  have heq := hother.symm.trans hholder
  rw [Option.some.injEq, Prod.mk.injEq] at heq
  exact heq.1

/-- The open transaction sees every table of the file. -/
def World.WriterExtends (world : World) : Prop :=
  ∀ holder pending, world.writer = some (holder, pending) →
    ∃ database, world.database = some database ∧ database.Extends pending

/-- What leaves database and transaction alone coexists with everything. -/
theorem coexists_of_same {handle : Handle} {before after : World}
    (hwriter : before.WriterExtends) (hdatabase : after.database = before.database)
    (hsame : after.writer = before.writer) : Coexists handle before after := by
  constructor
  · intro other pending _ _
    exact ⟨hsame, hdatabase⟩
  · exact World.grows_of_database hdatabase
  · intro holder pending h
    rw [hdatabase]
    exact hwriter holder pending (hsame ▸ h)

/-- A statement that keeps the tables of the database. -/
def KeepsTables (statement : Database → Except Raised Database) : Prop :=
  ∀ database written, statement database = .ok written → database.Extends written

/-- A statement that keeps the tables coexists with the other handles. -/
theorem coexists_write {statement : Database → Except Raised Database}
    (hstatement : KeepsTables statement) {world : World} (hwriter : world.WriterExtends) :
    Coexists handle world (world.write handle statement).2 := by
  rcases world.write_cases handle statement with
    ⟨pending, written, hheld, hwritten, hdone⟩ |
    ⟨hnone, database, written, hdatabase, hwritten, hdone⟩ | ⟨raised, hfailed⟩
  · rw [hdone]
    -- inside its own transaction the handle changes its copy only
    obtain ⟨database, hdatabase, hextends⟩ := hwriter _ _ hheld
    constructor
    · intro other current hother h
      exact absurd (holder_unique hheld h) hother
    · exact World.grows_of_database rfl
    · intro other current h
      cases h
      exact ⟨database, hdatabase, hextends.trans (hstatement _ _ hwritten)⟩
  · rw [hdone]
    -- outside a transaction the statement commits by itself
    constructor
    · intro other pending _ h
      rw [hnone] at h
      cases h
    · intro current hcurrent
      rw [hdatabase, Option.some.injEq] at hcurrent
      subst hcurrent
      have hextends := hstatement _ _ hwritten
      exact ⟨_, rfl, hextends.attempts, hextends.events⟩
    · intro holder pending h
      exact absurd (hnone.symm.trans h) nofun
  · rw [hfailed]
    exact coexists_of_same hwriter rfl rfl

/-- The making of a table coexists with the other handles. -/
theorem coexists_create {present : Database → Bool} {statement : Database → Database}
    (hstatement : ∀ database : Database, database.Extends (statement database)) {world : World}
    (hwriter : world.WriterExtends) :
    Coexists handle world (world.create handle present statement).2 := by
  rcases world.create_cases handle present statement with
    ⟨_, _, _, hthere⟩ | ⟨_, _, _, hmade⟩ | ⟨_, hfailed⟩
  · rw [hthere]
    exact coexists_of_same hwriter rfl rfl
  · rw [hmade]
    apply coexists_write _ hwriter
    intro current written hwritten
    cases hwritten
    exact hstatement current
  · rw [hfailed]
    exact coexists_of_same hwriter rfl rfl

/-- A new attempt keeps the tables. -/
theorem keepsTables_insertAttempt (state : String) : KeepsTables (·.insertAttempt state) := by
  intro database written h
  simp only [Database.insertAttempt, bind_eq_ok] at h
  obtain ⟨rows, _, h⟩ := h
  split at h
  · cases h
  · cases h
    exact ⟨fun _ => rfl, id⟩

/-- An update keeps the tables. -/
theorem keepsTables_updateAttempt (update : Update) : KeepsTables (·.updateAttempt update) := by
  intro database written h
  simp only [Database.updateAttempt, bind_eq_ok] at h
  obtain ⟨rows, _, h⟩ := h
  cases h
  exact ⟨fun _ => rfl, id⟩

/-- A new event keeps the tables. -/
theorem keepsTables_insertEvent (row : EventRow) : KeepsTables (·.insertEvent row) := by
  intro database written h
  simp only [Database.insertEvent, bind_eq_ok] at h
  obtain ⟨rows, _, h⟩ := h
  cases h
  exact ⟨id, fun _ => rfl⟩

section Transactions

variable {world : World}

/-- Connecting makes an empty database only where there is none. -/
theorem coexists_connect (hwriter : world.WriterExtends) :
    Coexists handle world (perform image handle .connect world).2 := by
  constructor
  · intro other pending _ h
    obtain ⟨database, hdatabase, _⟩ := hwriter other pending h
    exact ⟨rfl, by simp only [perform, hdatabase, Option.getD_some]⟩
  · intro database hdatabase
    exact ⟨database, by simp only [perform, hdatabase, Option.getD_some], .refl database⟩
  · intro holder pending h
    obtain ⟨database, hdatabase, hextends⟩ := hwriter holder pending h
    exact ⟨database, by simp only [perform, hdatabase, Option.getD_some], hextends⟩

/-- The copy that a transaction starts with is the database itself. -/
theorem coexists_begin (hwriter : world.WriterExtends) :
    Coexists handle world (perform image handle .beginImmediate world).2 := by
  rcases begin_cases image handle world with
    ⟨hheld, database, hdatabase, hbegun⟩ | ⟨raised, hfailed⟩
  · rw [hbegun]
    constructor
    · intro other pending _ h
      rw [hheld] at h
      cases h
    · exact World.grows_of_database rfl
    · intro holder pending h
      cases h
      exact ⟨database, hdatabase, .refl database⟩
  · rw [hfailed]
    exact coexists_of_same hwriter rfl rfl

/-- The copy that a commit publishes has only grown since the transaction began. -/
theorem coexists_commit (hwriter : world.WriterExtends) :
    Coexists handle world (perform image handle .commit world).2 := by
  rcases commit_cases image handle world with ⟨pending, hheld, hdone⟩ | ⟨_, raised, hfailed⟩
  · rw [hdone]
    obtain ⟨database, hdatabase, hextends⟩ := hwriter _ _ hheld
    constructor
    · intro other current hother h
      exact absurd (holder_unique hheld h) hother
    · intro current hcurrent
      rw [hdatabase, Option.some.injEq] at hcurrent
      subst hcurrent
      exact ⟨_, rfl, hextends.attempts, hextends.events⟩
    · intro other current h
      cases h
  · rw [hfailed]
    exact coexists_of_same hwriter rfl rfl

/-- A rollback leaves the file as it is. -/
theorem coexists_rollback (hwriter : world.WriterExtends) :
    Coexists handle world (perform image handle .rollback world).2 := by
  rcases rollback_cases image handle world with ⟨pending, hheld, hdone⟩ | ⟨_, raised, hfailed⟩
  · rw [hdone]
    constructor
    · intro other current hother h
      exact absurd (holder_unique hheld h) hother
    · exact World.grows_of_database rfl
    · intro other current h
      cases h
  · rw [hfailed]
    exact coexists_of_same hwriter rfl rfl

end Transactions

/-- Every action of a handle coexists with the other handles. -/
theorem coexists_perform (action : Action) {world : World} (hwriter : world.WriterExtends) :
    Coexists handle world (perform image handle action world).2 := by
  cases htouches : action.touches with
  | false =>
      have hsame := @perform_untouched image handle action htouches world
      exact coexists_of_same hwriter hsame.database hsame.writer
  | true =>
      cases action with
      | connect => exact coexists_connect hwriter
      | createAttempts =>
          apply coexists_create _ hwriter
          intro database
          exact ⟨fun _ => rfl, id⟩
      | createEvents =>
          apply coexists_create _ hwriter
          intro database
          exact ⟨id, fun _ => rfl⟩
      | insertAttempt state => exact coexists_write (keepsTables_insertAttempt state) hwriter
      | updateAttempt update => exact coexists_write (keepsTables_updateAttempt update) hwriter
      | insertEvent row => exact coexists_write (keepsTables_insertEvent row) hwriter
      | beginImmediate => exact coexists_begin hwriter
      | commit => exact coexists_commit hwriter
      | rollback => exact coexists_rollback hwriter
      | _ => cases htouches

/-- Whatever a handle does, it coexists with the other handles. -/
theorem Acts.coexists {action : Action} {reply : Reply action}
    (h : Acts image handle before action reply after) (hwriter : before.WriterExtends) :
    Coexists handle before after := by
  cases h with
  | @performed _ world hperform =>
      have hworld : world = (perform image handle action before).2 := by rw [hperform]
      obtain ⟨hothers, hgrows, hextends⟩ :=
        hworld ▸ @coexists_perform image handle action before hwriter
      exact ⟨hothers, hgrows, hextends⟩
  | @faulted world hdamages _ =>
      have hsame := sameStore_of_damages hdamages
      exact coexists_of_same hwriter hsame.database hsame.writer

/-! ## Who holds the transaction -/

/-- A statement makes nobody the writer. -/
theorem write_writer {statement : Database → Except Raised Database} {world : World}
    {holder : Handle} {pending : Database}
    (h : (world.write handle statement).2.writer = some (holder, pending)) :
    ∃ current, world.writer = some (holder, current) := by
  rcases world.write_cases handle statement with
    ⟨current, written, hheld, _, hdone⟩ | ⟨hnone, _, _, _, _, hdone⟩ | ⟨raised, hfailed⟩
  · rw [hdone] at h
    cases h
    exact ⟨current, hheld⟩
  · rw [hdone] at h
    exact absurd (hnone.symm.trans h) nofun
  · rw [hfailed] at h
    exact ⟨pending, h⟩

/-- The making of a table makes nobody the writer. -/
theorem create_writer {present : Database → Bool} {statement : Database → Database} {world : World}
    {holder : Handle} {pending : Database}
    (h : (world.create handle present statement).2.writer = some (holder, pending)) :
    ∃ current, world.writer = some (holder, current) := by
  rcases world.create_cases handle present statement with
    ⟨_, _, _, hthere⟩ | ⟨_, _, _, hmade⟩ | ⟨_, hfailed⟩
  · rw [hthere] at h
    exact ⟨pending, h⟩
  · rw [hmade] at h
    exact write_writer h
  · rw [hfailed] at h
    exact ⟨pending, h⟩

/-- Only `BEGIN IMMEDIATE` makes its handle the writer. -/
theorem perform_writer {action : Action} {world : World} {holder : Handle} {pending : Database}
    (h : (perform image handle action world).2.writer = some (holder, pending)) :
    holder = handle ∧ action = .beginImmediate ∨
      ∃ current, world.writer = some (holder, current) := by
  cases htouches : action.touches with
  | false => exact .inr ⟨pending, (perform_untouched action htouches world).writer ▸ h⟩
  | true =>
      cases action with
      | connect => exact .inr ⟨pending, h⟩
      | insertAttempt | updateAttempt | insertEvent => exact .inr (write_writer h)
      | createAttempts | createEvents => exact .inr (create_writer h)
      | beginImmediate =>
          rcases begin_cases image handle world with ⟨_, database, _, hbegun⟩ | ⟨raised, hfailed⟩
          · rw [hbegun] at h
            cases h
            exact .inl ⟨rfl, rfl⟩
          · rw [hfailed] at h
            exact .inr ⟨pending, h⟩
      | commit =>
          right
          rcases commit_cases image handle world with ⟨seen, _, hdone⟩ | ⟨_, raised, hfailed⟩
          · rw [hdone] at h
            cases h
          · rw [hfailed] at h
            exact ⟨pending, h⟩
      | rollback =>
          right
          rcases rollback_cases image handle world with ⟨seen, _, hdone⟩ | ⟨_, raised, hfailed⟩
          · rw [hdone] at h
            cases h
          · rw [hfailed] at h
            exact ⟨pending, h⟩
      | _ => cases htouches

/-- Whoever holds the transaction has begun it. -/
theorem Acts.writer {action : Action} {reply : Reply action}
    (h : Acts image handle before action reply after) {holder : Handle} {pending : Database}
    (hwriter : after.writer = some (holder, pending)) :
    holder = handle ∧ action = .beginImmediate ∨
      ∃ current, before.writer = some (holder, current) := by
  cases h with
  | @performed _ world hperform =>
      have hworld : world = (perform image handle action before).2 := by rw [hperform]
      have hheld : world.writer = some (holder, pending) := hwriter
      rw [hworld] at hheld
      exact perform_writer hheld
  | @faulted world hdamages _ =>
      exact .inr ⟨pending, (sameStore_of_damages hdamages).writer ▸ hwriter⟩

/-- The actions that change the file at once, if they change it. -/
def Action.changesFile : Action → Bool
  | .connect | .createAttempts | .createEvents | .commit | .insertAttempt _ | .updateAttempt _
  | .insertEvent _ => true
  | _ => false

/-- Only some actions change the committed file. -/
theorem Acts.sameDatabase {action : Action} {reply : Reply action}
    (h : Acts image handle before action reply after) (haction : action.changesFile = false) :
    after.database = before.database := by
  cases h with
  | @performed _ world hperform =>
      have hworld : world = (perform image handle action before).2 := by rw [hperform]
      subst hworld
      cases action with
      | beginImmediate | rollback =>
          rw [perform]
          repeat' split
          all_goals rfl
      | connect | createAttempts | createEvents | commit | insertAttempt | updateAttempt
      | insertEvent => cases haction
      | _ => exact (perform_untouched _ rfl before).database
  | @faulted world hdamages _ => exact (sameStore_of_damages hdamages).database

/-! ## Rows -/

/-- The two worlds show the same committed rows. -/
structure SameRows (before after : World) : Prop where
  attempts : after.attemptRows = before.attemptRows
  events : after.eventRows = before.eventRows

/-- One file shows one set of rows. -/
theorem sameRows_of_database {before after : World} (h : after.database = before.database) :
    SameRows before after := by
  constructor
  · rw [World.attemptRows, World.attemptRows, h]
  · rw [World.eventRows, World.eventRows, h]

theorem SameRows.trans {first second third : World} (hfirst : SameRows first second)
    (hsecond : SameRows second third) : SameRows first third :=
  ⟨hsecond.attempts.trans hfirst.attempts, hsecond.events.trans hfirst.events⟩

/-- A table that is made is empty, so the rows stay as they are. -/
theorem rows_create {present : Database → Bool} {statement : Database → Database}
    (hattempts : ∀ database : Database, present database = false →
      (statement database).attemptRows = database.attemptRows)
    (hevents : ∀ database : Database, present database = false →
      (statement database).eventRows = database.eventRows) (world : World) :
    SameRows world (world.create handle present statement).2 := by
  rcases world.create_cases handle present statement with
    ⟨_, _, _, hthere⟩ | ⟨seen, hview, hpresent, hmade⟩ | ⟨_, hfailed⟩
  · rw [hthere]
    exact sameRows_of_database rfl
  · rw [hmade]
    rcases world.write_cases handle (fun database => .ok (statement database)) with
      ⟨_, _, _, _, hdone⟩ | ⟨hnone, database, written, hdatabase, hwritten, hdone⟩ | ⟨_, hfailed⟩
    · rw [hdone]
      -- inside a transaction the file does not change
      exact sameRows_of_database rfl
    · rw [hdone]
      rw [World.view, hnone, hdatabase] at hview
      cases hview
      cases hwritten
      constructor
      · rw [World.attemptRows, World.attemptRows, hdatabase]
        exact hattempts seen hpresent
      · rw [World.eventRows, World.eventRows, hdatabase]
        exact hevents seen hpresent
    · rw [hfailed]
      exact sameRows_of_database rfl
  · rw [hfailed]
    exact sameRows_of_database rfl

/-- An action that writes no rows shows the same ones. -/
theorem rows_perform (action : Action) (h : action.writes = false) (world : World) :
    SameRows world (perform image handle action world).2 := by
  cases htouches : action.touches with
  | false => exact sameRows_of_database (perform_untouched action htouches world).database
  | true =>
      cases action with
      | connect =>
          constructor
          · rw [World.attemptRows, World.attemptRows, perform]
            cases world.database <;> rfl
          · rw [World.eventRows, World.eventRows, perform]
            cases world.database <;> rfl
      | createAttempts =>
          apply rows_create
          · intro database hmissing
            rw [Option.isSome_eq_false_iff, Option.isNone_iff_eq_none] at hmissing
            simp only [Database.attemptRows, hmissing, Option.getD_some, Option.getD_none]
          · intro database _
            rfl
      | createEvents =>
          apply rows_create
          · intro database _
            rfl
          · intro database hmissing
            rw [Option.isSome_eq_false_iff, Option.isNone_iff_eq_none] at hmissing
            simp only [Database.eventRows, hmissing, Option.getD_some, Option.getD_none]
      | beginImmediate | rollback =>
          apply sameRows_of_database
          rw [perform]
          repeat' split
          all_goals rfl
      | commit | insertAttempt | updateAttempt | insertEvent => cases h
      | _ => cases htouches

/-- An action that writes no rows shows the same ones, also when it fails. -/
theorem Acts.sameRows {action : Action} {reply : Reply action}
    (h : Acts image handle before action reply after) (haction : action.writes = false) :
    SameRows before after := by
  cases h with
  | @performed _ world hperform =>
      have hworld : world = (perform image handle action before).2 := by rw [hperform]
      obtain ⟨hattempts, hevents⟩ := hworld ▸ @rows_perform image handle action haction before
      exact ⟨hattempts, hevents⟩
  | @faulted world hdamages _ => exact sameRows_of_database (sameStore_of_damages hdamages).database

end Actions

end Oasi.Broker
