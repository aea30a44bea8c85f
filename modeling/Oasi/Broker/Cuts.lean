import Oasi.Broker.Files
import Oasi.Broker.Sealing

/-! # Operations that are cut short

A handle that runs alone is stopped at any point of an operation. Until the
operation makes or commits the database nothing has changed; from then on until
the seal is replaced the seal is that of the old file; afterwards it is that of
the new one.
-/

namespace Oasi.Broker

/-- The phase before an operation, or the one that the operation leads to. -/
def Leads (before : World) (operation : Operation) (phase : Phase) : Prop :=
  before.Holds phase ∨ ∃ old, before.Holds old ∧ operation.next old = some phase

/-- Since then the file was made or committed, and the seal was not replaced. -/
def Exposed (before after : World) : Prop :=
  (before.successes .commit < after.successes .commit ∨
    before.database = none ∧ before.successes .connect < after.successes .connect) ∧
  after.successes .replaceSeal = before.successes .replaceSeal

/-- The seal holds the digest of the file. -/
def World.Sealed (image : Database → Bytes) (world : World) : Prop :=
  ∃ database, world.database = some database ∧
    world.sealText = some (hexdigest (image database) ++ "\n")

structure Untouched (before world : World) : Prop where
  database : world.database = before.database
  sealText : world.sealText = before.sealText
  commits : world.successes .commit = before.successes .commit
  connects : before.database = none → world.successes .connect = before.successes .connect
  replacements : world.successes .replaceSeal = before.successes .replaceSeal

structure Unsealed (operation : Operation) (before world : World) : Prop where
  present : world.database.isSome
  tables : before.database.isSome → world.HasTables
  phase : ∃ phase, Leads before operation phase ∧ world.Holds phase
  sealText : world.sealText = before.sealText
  exposed : Exposed before world

structure Resealed (image : Database → Bytes) (operation : Operation) (before world : World) :
    Prop where
  tables : world.HasTables
  phase : ∃ phase, Leads before operation phase ∧ world.Holds phase
  resealed : world.Sealed image
  replaced : before.successes .replaceSeal < world.successes .replaceSeal

/-- No other handle holds a transaction, and names of files are in order. -/
structure Orderly (handle : Handle) (world : World) : Prop where
  named : world.Named
  grown : world.WriterExtends
  writer : ∀ holder pending, world.writer = some (holder, pending) → holder = handle

/-- What holds wherever an operation is stopped. -/
structure Cut (image : Database → Bytes) (handle : Handle) (operation : Operation)
    (before world : World) : Prop where
  orderly : Orderly handle world
  stage : Untouched before world ∨ Unsealed operation before world ∨
    Resealed image operation before world

/-- The actions that `Exposed` counts. -/
def Action.marks : Action → Bool
  | .commit | .connect | .replaceSeal => true
  | _ => false

section Marks

variable {image : Database → Bytes} {handle : Handle} {operation : Operation}
  {before middle after : World}

/-- Actions that `Exposed` does not count leave its counts. -/
theorem Acts.unmarked {action other : Action} {reply : Reply action}
    (h : Acts image handle middle action reply after) (haction : action.marks = false)
    (hother : other.marks = true) : after.successes other = middle.successes other := by
  apply h.successes_ne
  rintro rfl
  exact Bool.false_ne_true (haction.symm.trans hother)

/-- The file stays exposed while nothing that `Exposed` counts succeeds. -/
theorem Exposed.of_unmarked (hexposed : Exposed before middle)
    (h : ∀ other, Action.marks other = true → after.successes other = middle.successes other) :
    Exposed before after := by
  unfold Exposed
  rw [h _ rfl, h _ rfl, h _ rfl]
  exact hexposed

/-- A phase holds of the tables alone. -/
theorem holds_of_same {phase : Phase} (hholds : middle.Holds phase)
    (hdatabase : after.database = middle.database) : after.Holds phase := by
  have hrows := sameRows_of_database hdatabase
  exact hholds.of_rows hrows.attempts hrows.events

/-- Having tables depends on the database alone. -/
theorem tables_of_same (htables : middle.HasTables) (hdatabase : after.database = middle.database) :
    after.HasTables := htables.grow (World.grows_of_database hdatabase)

/-- What is not sealed yet stays so while tables, seal text and counts stay. -/
theorem Unsealed.of_same (hunsealed : Unsealed operation before middle)
    (hdatabase : after.database = middle.database) (hsealText : after.sealText = middle.sealText)
    (hmarks : ∀ other, Action.marks other = true →
      after.successes other = middle.successes other) : Unsealed operation before after := by
  obtain ⟨phase, hleads, hholds⟩ := hunsealed.phase
  constructor
  · rw [hdatabase]
    exact hunsealed.present
  · exact fun hbefore => tables_of_same (hunsealed.tables hbefore) hdatabase
  · exact ⟨phase, hleads, holds_of_same hholds hdatabase⟩
  · exact hsealText.trans hunsealed.sealText
  · exact hunsealed.exposed.of_unmarked hmarks

/-- What is untouched stays so while tables, seal text and counts stay. -/
theorem Untouched.of_same (huntouched : Untouched before middle)
    (hdatabase : after.database = middle.database) (hsealText : after.sealText = middle.sealText)
    (hmarks : ∀ other, Action.marks other = true →
      after.successes other = middle.successes other) : Untouched before after := by
  constructor
  · exact hdatabase.trans huntouched.database
  · exact hsealText.trans huntouched.sealText
  · exact (hmarks _ rfl).trans huntouched.commits
  · exact fun hnone => (hmarks _ rfl).trans (huntouched.connects hnone)
  · exact (hmarks _ rfl).trans huntouched.replacements

/-- Every action of the handle keeps the world orderly. -/
theorem Orderly.acts {action : Action} {reply : Reply action} (horderly : Orderly handle middle)
    (h : Acts image handle middle action reply after) : Orderly handle after := by
  constructor
  · exact h.named horderly.named
  · exact (h.coexists horderly.grown).writer
  · intro holder pending hheld
    rcases h.writer hheld with ⟨hholder, _⟩ | ⟨current, hcurrent⟩
    · exact hholder
    · exact horderly.writer holder current hcurrent

/-- A cut state stays one while tables, seal text and counts stay. -/
theorem Cut.of_same (hcut : Cut image handle operation before middle)
    (horderly : Orderly handle after) (hdatabase : after.database = middle.database)
    (hsealText : after.sealText = middle.sealText)
    (hmarks : ∀ other, Action.marks other = true →
      after.successes other = middle.successes other) :
    Cut image handle operation before after := by
  refine ⟨horderly, ?_⟩
  rcases hcut.stage with huntouched | hunsealed | hresealed
  · exact .inl (huntouched.of_same hdatabase hsealText hmarks)
  · exact .inr (.inl (hunsealed.of_same hdatabase hsealText hmarks))
  · obtain ⟨phase, hleads, hholds⟩ := hresealed.phase
    obtain ⟨database, hpresent, htext⟩ := hresealed.resealed
    right
    right
    constructor
    · exact tables_of_same hresealed.tables hdatabase
    · exact ⟨phase, hleads, holds_of_same hholds hdatabase⟩
    · exact ⟨database, hdatabase.trans hpresent, hsealText.trans htext⟩
    · rw [hmarks _ rfl]
      exact hresealed.replaced

/-- An action that leaves the database and the seal files alone changes nothing. -/
theorem Cut.quiet {action : Action} {reply : Reply action}
    (hcut : Cut image handle operation before middle)
    (h : Acts image handle middle action reply after) (hfiles : action.onSealFiles = false)
    (hmarks : action.marks = false) (hdatabase : after.database = middle.database) :
    Cut image handle operation before after :=
  hcut.of_same (hcut.orderly.acts h) hdatabase (sealText_of_sameFiles (h.sameFiles hfiles))
    fun _ => h.unmarked hmarks

/-- The handle runs alone and may be stopped at any point. -/
def cutting (image : Database → Bytes) (handle : Handle) (operation : Operation)
    (before : World) : Interference Handle World Action Reply :=
  Interference.solo handle (Acts image) (Cut image handle operation before)

end Marks

/-! ## The seal -/

section Sealing

variable {image : Database → Bytes} {handle : Handle} {operation : Operation}
  {before middle after : World}

/-- The database changed, and the seal is still that of the old file. -/
structure Stale (operation : Operation) (before world : World) : Prop where
  unsealed : Unsealed operation before world
  tables : world.HasTables

/-- A stale seal stays stale while tables, seal text and counts stay. -/
theorem Stale.of_same (hstale : Stale operation before middle)
    (hdatabase : after.database = middle.database) (hsealText : after.sealText = middle.sealText)
    (hmarks : ∀ other, Action.marks other = true →
      after.successes other = middle.successes other) : Stale operation before after :=
  ⟨hstale.unsealed.of_same hdatabase hsealText hmarks, tables_of_same hstale.tables hdatabase⟩

/-- An action that leaves the seal stale leads from a cut state to a cut state. -/
theorem Cut.of_stale (hcut : Cut image handle operation before middle) {action : Action}
    {reply : Reply action} (h : Acts image handle middle action reply after)
    (hstale : Stale operation before after) : Cut image handle operation before after :=
  ⟨hcut.orderly.acts h, .inr (.inl hstale.unsealed)⟩

/-- An action of the seal that leaves the seal as it is. -/
theorem Stale.acts {action : Action} {reply : Reply action}
    (hstale : Stale operation before middle) (h : Acts image handle middle action reply after)
    (htouches : action.touches = false) (hmarks : action.marks = false)
    (hsealText : after.sealText = middle.sealText) : Stale operation before after :=
  hstale.of_same (h.untouched htouches).1 hsealText fun _ => h.unmarked hmarks

/-- The stages of a seal while nothing but the handle moves. -/
def AtStage (image : Database → Bytes) (operation : Operation) (before : World) :
    Stage → World → Prop
  | .begun, world => Stale operation before world
  | .read bytes, world => Stale operation before world ∧ world.Contains image bytes
  | .opened bytes inode, world => Stale operation before world ∧ world.Contains image bytes ∧
      world.temporaryInode = some inode
  | .written bytes inode, world => Stale operation before world ∧ world.Contains image bytes ∧
      world.temporaryInode = some inode ∧ world.texts inode = hexdigest bytes ++ "\n"
  | .replaced, _ => True

/-- Replacing the seal by what was written after reading the file seals it. -/
theorem resealed_of_replace {bytes : Bytes} {inode : Nat} {value : Unit}
    (hnamed : middle.Named) (hat : AtStage image operation before (.written bytes inode) middle)
    (h : Acts image handle middle .replaceSeal (.ok value) after) :
    Resealed image operation before after := by
  obtain ⟨⟨hunsealed, htables⟩, hcontains, htemporary, htext⟩ := hat
  obtain ⟨phase, hleads, hholds⟩ := hunsealed.phase
  have hdatabase := (h.untouched rfl).1
  obtain ⟨_, htexts, hreplaced⟩ := acts_replaceSeal hnamed h
  have hseal : after.sealInode = some inode := by
    rcases hreplaced with ⟨found, _, hfound, hseal, _⟩ | ⟨⟨raised, hraised⟩, _⟩
    · rw [htemporary, Option.some.injEq] at hfound
      exact hfound ▸ hseal
    · cases hraised
  constructor
  · exact tables_of_same htables hdatabase
  · exact ⟨phase, hleads, holds_of_same hholds hdatabase⟩
  · unfold World.Contains at hcontains
    rw [← hdatabase, Option.map_eq_some_iff] at hcontains
    obtain ⟨database, hpresent, hbytes⟩ := hcontains
    refine ⟨database, hpresent, ?_⟩
    rw [World.sealText, hseal, Option.map_some, htexts, htext, hbytes]
  · rw [h.successes, hunsealed.exposed.2]
    simp [Except.isOk, Except.toBool]

/-- What an action of the seal leads to. -/
theorem cut_of_sealing {stage : Stage} {action : Action} {reply : Reply action}
    (hexpects : stage.Expects action) (hcut : Cut image handle operation before middle)
    (hat : AtStage image operation before stage middle)
    (h : Acts image handle middle action reply after) :
    Cut image handle operation before after ∧
      ∀ value, reply = .ok value →
        AtStage image operation before (stage.next action value) after := by
  cases hexpects with
  | checkpoint =>
      refine ⟨hcut.quiet h rfl rfl (h.untouched rfl).1, ?_⟩
      intro value _
      exact hat.acts h rfl rfl (sealText_of_sameFiles (h.sameFiles rfl))
  | readDatabase =>
      refine ⟨hcut.quiet h rfl rfl (h.untouched rfl).1, ?_⟩
      intro bytes hbytes
      exact ⟨hat.acts h rfl rfl (sealText_of_sameFiles (h.sameFiles rfl)),
        (acts_readDatabase h).2 bytes hbytes⟩
  | openTemporary bytes =>
      -- the temporary file is another file than the seal, which keeps its old text
      obtain ⟨hstale, hcontains⟩ := hat
      obtain ⟨_, hsealText, htemporary⟩ := acts_openTemporary hcut.orderly.named h
      have hstale := hstale.acts h rfl rfl hsealText
      refine ⟨hcut.of_stale h hstale, ?_⟩
      intro inode hinode
      exact ⟨hstale, contains_of_same hcontains (h.untouched rfl).1, htemporary inode hinode⟩
  | writeTemporary bytes inode =>
      obtain ⟨hstale, hcontains, hinode⟩ := hat
      obtain ⟨_, htemporary, hsealText, htext⟩ := acts_writeTemporary hcut.orderly.named h
      have hstale := hstale.acts h rfl rfl
        (hsealText fun hseal => hcut.orderly.named.different inode hseal hinode)
      refine ⟨hcut.of_stale h hstale, ?_⟩
      intro value hvalue
      exact ⟨hstale, contains_of_same hcontains (h.untouched rfl).1, htemporary.trans hinode,
        htext hvalue⟩
  | syncTemporary bytes inode =>
      obtain ⟨hstale, hcontains, hinode, htext⟩ := hat
      have hfiles := h.sameFiles rfl
      refine ⟨hcut.quiet h rfl rfl (h.untouched rfl).1, ?_⟩
      intro value _
      refine ⟨hstale.acts h rfl rfl (sealText_of_sameFiles hfiles),
        contains_of_same hcontains (h.untouched rfl).1, hfiles.temporaryInode.trans hinode, ?_⟩
      rw [hfiles.texts]
      exact htext
  | replaceSeal bytes inode =>
      refine ⟨?_, fun _ _ => trivial⟩
      cases reply with
      | ok value =>
          -- from here on the seal is new
          exact ⟨hcut.orderly.acts h,
            .inr (.inr (resealed_of_replace hcut.orderly.named hat h))⟩
      | error raised =>
          obtain ⟨_, _, hreplaced⟩ := acts_replaceSeal hcut.orderly.named h
          have hfiles : SameFiles middle after := by
            rcases hreplaced with ⟨_, hok, _⟩ | ⟨_, hfiles⟩
            · cases hok
            · exact hfiles
          exact hcut.of_stale h (hat.1.of_same (h.untouched rfl).1 (sealText_of_sameFiles hfiles)
            fun _ _ => h.successes_error)
  | openDirectory | syncDirectory | closeDirectory =>
      exact ⟨hcut.quiet h rfl rfl (h.untouched rfl).1, fun _ _ => trivial⟩

/-- The seal of an operation that runs alone. -/
def sealing (image : Database → Bytes) (handle : Handle) (operation : Operation)
    (before : World) : Outline (cutting image handle operation before) handle where
  At := AtStage image operation before
  Failed := fun _ => True
  stays := by
    intro stage middle after hlater hat
    rw [Interference.solo_later hlater]
    exact hat
  fails := fun _ h => h
  acts := by
    intro stage action middle reply after hexpects hcut hat h
    obtain ⟨hafter, hnext⟩ := cut_of_sealing hexpects hcut hat h
    refine ⟨Interference.solo_keeps hafter, ?_⟩
    cases reply with
    | ok value => exact hnext value rfl
    | error raised => trivial
  closes := by
    intro middle reply after hcut _ h
    exact ⟨Interference.solo_keeps (hcut.quiet h rfl rfl (h.untouched rfl).1), trivial⟩

end Sealing

/-! ## Methods -/

/-- A world in which an operation may begin: no transaction is open, and there is
no file yet or a file with both tables. -/
structure Starts (world : World) : Prop where
  named : world.Named
  writer : world.writer = none
  phase : ∃ phase, world.Holds phase
  tables : world.database.isSome → world.HasTables

/-- The handle runs alone and has changed nothing so far. -/
def waiting (image : Database → Bytes) (handle : Handle) (before : World) :
    Interference Handle World Action Reply :=
  Interference.solo handle (Acts image) fun world => Orderly handle world ∧ Untouched before world

section Methods

variable {image : Database → Bytes} {handle : Handle} {operation : Operation}
  {before middle after : World}

/-- Nothing is touched before the first action. -/
theorem Untouched.refl (world : World) : Untouched world world :=
  ⟨rfl, rfl, rfl, fun _ => rfl, rfl⟩

/-- An operation starts in an orderly world. -/
theorem Starts.orderly (hstarts : Starts before) : Orderly handle before := by
  refine ⟨hstarts.named, ?_, ?_⟩
  · intro holder pending hheld
    rw [hstarts.writer] at hheld
    cases hheld
  · intro holder pending hheld
    rw [hstarts.writer] at hheld
    cases hheld

/-- Before its first action, an operation may be cut off. -/
theorem Starts.cut (hstarts : Starts before) : Cut image handle operation before before :=
  ⟨hstarts.orderly, .inl (.refl before)⟩

/-- An action that leaves tables and seal alone, and that `Exposed` does not count, touches
nothing. -/
theorem Untouched.acts {action : Action} {reply : Reply action}
    (huntouched : Untouched before middle)
    (h : Acts image handle middle action reply after) (hfiles : action.onSealFiles = false)
    (hmarks : action.marks = false) (hdatabase : after.database = middle.database) :
    Untouched before after :=
  huntouched.of_same hdatabase (sealText_of_sameFiles (h.sameFiles hfiles))
    fun _ => h.unmarked hmarks

/-- Statements inside a transaction may rely on a handle that has changed nothing so far. -/
theorem hosts_waiting : Hosts image (waiting image handle before) handle True := by
  constructor
  · intro middle action reply after h
    exact .inr ⟨trivial, h⟩
  · intro middle after committed pending hlater hopen
    rw [Interference.solo_later hlater]
    exact hopen
  · intro middle action reply after committed pending written hmiddle hopen haction h hafter
    have hdatabase := hafter.database.trans hopen.database.symm
    have hfiles : action.onSealFiles = false := by cases action <;> first | rfl | cases haction
    have hmarks : action.marks = false := by cases action <;> first | rfl | cases haction
    exact Interference.solo_keeps
      ⟨hmiddle.1.acts h, hmiddle.2.acts h hfiles hmarks hdatabase⟩

/-- After its commit the transaction has made the seal stale. -/
theorem stale_of_commit {committed pending : Database} {old next : Phase}
    (horderly : Orderly handle middle) (huntouched : Untouched before middle)
    (htables : middle.HasTables) (hold : before.Holds old) (hnext : operation.next old = some next)
    (hpending : pending.Holds next) (hopen : middle.Open handle committed pending)
    (h : Acts image handle middle .commit (.ok ()) after) : Stale operation before after := by
  have hcommitted := acts_commit hopen h
  have hdatabase : after.database = some { pending with changes := pending.changes + 1 } := by
    rcases hcommitted with ⟨_, _, hdatabase⟩ | ⟨⟨raised, hraised⟩, _⟩
    · exact hdatabase
    · cases hraised
  have hafter := htables.grow (h.coexists horderly.grown).grows
  refine ⟨⟨?_, fun _ => hafter, ?_, ?_, ?_⟩, hafter⟩
  · rw [hdatabase]
    rfl
  · exact ⟨next, .inr ⟨old, hold, hnext⟩, (holds_of_database hdatabase).mp hpending⟩
  · exact (sealText_of_sameFiles (h.sameFiles rfl)).trans huntouched.sealText
  · constructor
    · left
      rw [h.successes, huntouched.commits]
      simp [Except.isOk, Except.toBool]
    · exact (h.successes_ne (by simp)).trans huntouched.replacements

/-- The part of a method between `BEGIN IMMEDIATE` and its end. -/
theorem cut_statements {statements : LedgerCall Unit} {committed : Database} {old : Phase}
    (hcarries : Carries image operation statements) (horderly : Orderly handle middle)
    (huntouched : Untouched before middle) (hopen : middle.Open handle committed committed)
    (htables : committed.HasTables) (hcommitted : committed.Holds old) (hold : before.Holds old) :
    (cutting image handle operation before).Safe handle (fun _ _ => True)
      (do statements; execute .commit; Ledger._seal : LedgerCall Unit).run middle := by
  apply Interference.safe_call_bind
  have hosts := @hosts_waiting image handle before
  have hsafe := hcarries _ handle True hosts middle committed old hopen htables hcommitted
  have hwaiting : ∀ world, Orderly handle world ∧ Untouched before world →
      Cut image handle operation before world :=
    fun world h => ⟨h.1, .inl h.2⟩
  apply (Interference.Safe.solo_imp hwaiting ⟨horderly, huntouched⟩ hsafe).imp
  rintro outcome written hcut ⟨⟨hwrittenOrderly, hwrittenUntouched⟩, hwithin⟩
  cases outcome with
  | error raised => exact fun last hlast => trivial
  | ok value =>
      obtain ⟨pending, hpendingOpen, next, hnext, hpending⟩ := hwithin
      apply Interference.safe_call_bind
      apply Interference.safe_solo
      intro reply done hcut h
      have hwrittenTables : written.HasTables := ⟨committed, hpendingOpen.database, htables⟩
      cases reply with
      | ok value =>
          have hstale := stale_of_commit hwrittenOrderly hwrittenUntouched hwrittenTables hold hnext
            hpending hpendingOpen h
          refine ⟨hcut.of_stale h hstale, ?_⟩
          exact ((sealing image handle operation before).safe hstale).imp fun _ _ _ _ => trivial
      | error raised =>
          have hdatabase : done.database = written.database := by
            rcases acts_commit hpendingOpen h with ⟨hok, _⟩ | ⟨_, hstill⟩
            · cases hok
            · exact hstill.database.trans hpendingOpen.database.symm
          have hsealText := sealText_of_sameFiles (h.sameFiles rfl)
          exact ⟨⟨hwrittenOrderly.acts h, .inl (hwrittenUntouched.of_same hdatabase hsealText
            fun _ _ => h.successes_error)⟩, fun _ _ => trivial⟩

/-- A method that is stopped at any point has been cut. -/
theorem cut_method (hmethod : operation ≠ .construct) (hstarts : Starts before) :
    (cutting image handle operation before).Safe handle (fun _ _ => True)
      operation.call.run before := by
  obtain ⟨statements, hcall, hcarries⟩ := @exists_statements image operation hmethod
  rw [hcall]
  apply Interference.safe_call_bind
  apply Interference.safe_solo
  intro reply begun hcut hbegin
  have hsame := hbegin.sameDatabase rfl
  refine ⟨hcut.quiet hbegin rfl rfl hsame, ?_⟩
  cases reply with
  | error raised => exact fun _ _ => trivial
  | ok value =>
      obtain ⟨committed, hdatabase, hopen⟩ := acts_begin hbegin rfl
      obtain ⟨old, hold⟩ := hstarts.phase
      obtain ⟨current, hcurrent, htables⟩ := hstarts.tables (by rw [hdatabase]; rfl)
      rw [hdatabase, Option.some.injEq] at hcurrent
      subst hcurrent
      have hcommitted : committed.Holds old :=
        (@holds_of_database _ committed _ committed.changes hdatabase).mpr hold
      have huntouched : Untouched before begun :=
        (Untouched.refl before).acts hbegin rfl rfl hsame
      apply Interference.safe_tryCatch
      apply (cut_statements hcarries (hstarts.orderly.acts hbegin) huntouched hopen htables
        hcommitted hold).imp
      intro outcome after _ _
      cases outcome with
      | ok value => exact fun _ _ => trivial
      | error raised =>
          apply Interference.safe_call_bind
          apply Interference.safe_solo
          intro reply ended hcut hrollback
          refine ⟨hcut.quiet hrollback rfl rfl (hrollback.sameDatabase rfl), ?_⟩
          cases reply with
          | ok value => exact fun last _ => trivial
          | error error => exact fun last _ => trivial

end Methods

/-! ## The constructor -/

section Constructor

variable {image : Database → Bytes} {handle : Handle} {before middle after : World}

/-- The actions of a constructor that finds a file. -/
def Action.settled : Action → Bool
  | .sealIsFile | .readSeal | .readDatabase | .connect | .pragma _ | .createAttempts
  | .createEvents => true
  | _ => false

/-- The checks are among the actions of a constructor that finds a file. -/
theorem settled_of_checks {action : Action} (h : action.checks = true) : action.settled = true := by
  cases action <;> first | rfl | cases h

/-- What is left of a constructor that finds a file. -/
theorem construct_settled : (do
    runIf true Ledger.checkSeal
    execute .connect
    execute (.pragma "PRAGMA journal_mode=DELETE")
    execute (.pragma "PRAGMA synchronous=FULL")
    execute (.pragma "PRAGMA foreign_keys=ON")
    execute .createAttempts
    execute .createEvents
    runIf (!true) Ledger._seal : LedgerCall Unit).run.Uses (·.settled = true) := by
  have hchecks := checkSeal_uses.imp fun _ => settled_of_checks
  repeat' with_reducible first
    | apply uses_execute
    | refine Call.uses_bind ?_ fun _ => ?_
  all_goals first | rfl | exact trivial | exact hchecks

/-- Creating a table that is there changes nothing. -/
theorem create_present {present : Database → Bool} {statement : Database → Database} {world : World}
    {database : Database} (hview : world.view handle = .ok database)
    (hpresent : present database = true) :
    world.create handle present statement = (.ok (), world) := by
  rw [World.create, hview]
  exact if_pos hpresent

/-- A file with both tables stays as it is. -/
theorem settled_database {action : Action} {reply : Reply action} (haction : action.settled = true)
    (hidle : middle.IdleAt handle) (htables : middle.HasTables)
    (h : Acts image handle middle action reply after) : after.database = middle.database := by
  obtain ⟨database, hdatabase, htables⟩ := htables
  have hview : middle.view handle = .ok database := by
    rw [view_of_idle hidle, hdatabase, Option.elim]
  cases h with
  | faulted hdamages _ => exact (sameStore_of_damages hdamages).database
  | @performed _ world hperform =>
      have hworld : world = (perform image handle action middle).2 := by rw [hperform]
      subst hworld
      cases action with
      | connect => simp only [World.record, perform, hdatabase, Option.getD_some]
      | createAttempts =>
          rw [perform, create_present hview htables.attempts]
          rfl
      | createEvents =>
          rw [perform, create_present hview htables.events]
          rfl
      | sealIsFile | pragma => rfl
      | readSeal => exact (perform_untouched .readSeal rfl middle).database
      | readDatabase => exact (perform_untouched .readDatabase rfl middle).database
      | _ => cases haction

/-- A constructor that finds a file neither begins a transaction nor changes rows. -/
theorem settled_quiet {action : Action} (haction : action.settled = true) : action.quiet := by
  cases action <;> simp_all [Action.settled, Action.quiet, Action.writes]

/-- A constructor that finds a file touches nothing. -/
theorem Untouched.settled {action : Action} {reply : Reply action}
    (huntouched : Untouched before middle) (haction : action.settled = true)
    (hpresent : before.database ≠ none) (hdatabase : after.database = middle.database)
    (h : Acts image handle middle action reply after) : Untouched before after := by
  have hfiles : action.onSealFiles = false := by cases action <;> first | rfl | cases haction
  constructor
  · exact hdatabase.trans huntouched.database
  · exact (sealText_of_sameFiles (h.sameFiles hfiles)).trans huntouched.sealText
  · apply Eq.trans (h.successes_ne _) huntouched.commits
    rintro rfl
    cases haction
  · exact fun hnone => absurd hnone hpresent
  · apply Eq.trans (h.successes_ne _) huntouched.replacements
    rintro rfl
    cases haction

/-- A constructor that finds a file with both tables changes nothing. -/
theorem cut_settled {call : LedgerCall Unit} (huses : call.run.Uses (·.settled = true))
    (hpresent : before.database ≠ none) (hidle : middle.IdleAt handle)
    (htables : middle.HasTables) (huntouched : Untouched before middle) :
    (cutting image handle .construct before).Safe handle (fun _ _ => True) call.run middle := by
  have hsafe : (cutting image handle .construct before).Safe handle (fun _ after =>
      after.IdleAt handle ∧ after.HasTables ∧ Untouched before after) call.run middle := by
    apply Interference.safe_of_uses _ _ huses ⟨hidle, htables, huntouched⟩
    · intro first second hlater hfirst
      rw [Interference.solo_later hlater]
      exact hfirst
    · rintro first action reply second haction hcut ⟨hidle, htables, huntouched⟩ h
      have hdatabase := settled_database haction hidle htables h
      have huntouched := huntouched.settled haction hpresent hdatabase h
      exact ⟨Interference.solo_keeps ⟨hcut.orderly.acts h, .inl huntouched⟩,
        idle_of_acts (settled_quiet haction) hidle h, tables_of_same htables hdatabase, huntouched⟩
  exact hsafe.imp fun _ _ _ _ => trivial

/-- A constructor at work on a file it made. -/
structure Making (handle : Handle) (before world : World) : Prop where
  orderly : Orderly handle world
  idle : world.IdleAt handle
  unsealed : Unsealed .construct before world

/-- The actions that make the tables. -/
def Action.makes : Action → Bool
  | .pragma _ | .createAttempts | .createEvents => true
  | _ => false

/-- The actions that make the tables keep the constructor at work on its file. -/
theorem Making.acts {action : Action} {reply : Reply action} (hmaking : Making handle before middle)
    (hnone : before.database = none) (haction : action.makes = true)
    (h : Acts image handle middle action reply after) : Making handle before after := by
  obtain ⟨phase, hleads, hholds⟩ := hmaking.unsealed.phase
  have hquiet : action.quiet := by
    cases action <;> simp_all [Action.makes, Action.quiet, Action.writes]
  have hfiles : action.onSealFiles = false := by cases action <;> first | rfl | cases haction
  have hmarks : action.marks = false := by cases action <;> first | rfl | cases haction
  have hrows := h.sameRows hquiet.1
  constructor
  · exact hmaking.orderly.acts h
  · exact idle_of_acts hquiet hmaking.idle h
  · constructor
    · obtain ⟨database, hdatabase⟩ := Option.isSome_iff_exists.mp hmaking.unsealed.present
      obtain ⟨grown, hgrown, _⟩ := (h.coexists hmaking.orderly.grown).grows database hdatabase
      rw [hgrown]
      rfl
    · intro hpresent
      rw [hnone] at hpresent
      cases hpresent
    · exact ⟨phase, hleads, hholds.of_rows hrows.attempts hrows.events⟩
    · exact (sealText_of_sameFiles (h.sameFiles hfiles)).trans hmaking.unsealed.sealText
    · exact hmaking.unsealed.exposed.of_unmarked fun _ => h.unmarked hmarks

/-- A constructor at work on its file may go on behind an action that makes the tables. -/
theorem making_bind {action : Action} {rest : Result action → LedgerCall Unit}
    (hnone : before.database = none) (haction : action.makes = true)
    (hmaking : Making handle before middle)
    (hrest : ∀ value after, Acts image handle middle action (.ok value) after →
      Making handle before after → (cutting image handle .construct before).Safe handle
        (fun _ _ => True) (rest value).run after) :
    (cutting image handle .construct before).Safe handle (fun _ _ => True)
      (execute action >>= rest).run middle := by
  apply Interference.safe_call_bind
  apply Interference.safe_solo
  intro reply after hcut h
  have hafter := hmaking.acts hnone haction h
  refine ⟨⟨hafter.orderly, .inr (.inl hafter.unsealed)⟩, ?_⟩
  cases reply with
  | ok value => exact hrest value after h hafter
  | error raised => exact fun _ _ => trivial

/-- A constructor that finds no file makes the tables and then seals. -/
theorem cut_making (hnone : before.database = none) (hmaking : Making handle before middle) :
    (cutting image handle .construct before).Safe handle (fun _ _ => True)
      (do
        execute (.pragma "PRAGMA journal_mode=DELETE")
        execute (.pragma "PRAGMA synchronous=FULL")
        execute (.pragma "PRAGMA foreign_keys=ON")
        execute .createAttempts
        execute .createEvents
        Ledger._seal : LedgerCall Unit).run middle := by
  apply making_bind hnone rfl hmaking
  intro _ middle _ hmaking
  apply making_bind hnone rfl hmaking
  intro _ middle _ hmaking
  apply making_bind hnone rfl hmaking
  intro _ middle _ hmaking
  apply making_bind hnone rfl hmaking
  intro _ created hattempts hcreated
  have hasAttempts := acts_createAttempts hmaking.idle hattempts rfl
  apply making_bind hnone rfl hcreated
  intro _ made hevents hmade
  have htables := acts_createEvents hcreated.idle hasAttempts hcreated.orderly.grown hevents rfl
  have hstale : Stale .construct before made := ⟨hmade.unsealed, htables⟩
  exact ((sealing image handle .construct before).safe hstale).imp fun _ _ _ _ => trivial

/-- Connecting to a path without a file makes the file. -/
theorem cut_connect {reply : Reply .connect} (hnone : before.database = none)
    (hphase : ∃ phase, before.Holds phase) (hidle : middle.IdleAt handle)
    (horderly : Orderly handle middle) (huntouched : Untouched before middle)
    (h : Acts image handle middle .connect reply after) :
    Cut image handle .construct before after ∧ (reply = .ok () → Making handle before after) := by
  have hsealText := sealText_of_sameFiles (h.sameFiles rfl)
  cases reply with
  | error raised =>
      have hdatabase : after.database = middle.database := by
        cases h with
        | performed hperform => cases hperform
        | faulted hdamages _ => exact (sameStore_of_damages hdamages).database
      refine ⟨⟨horderly.acts h, .inl ?_⟩, fun hok => by cases hok⟩
      exact huntouched.of_same hdatabase hsealText fun _ _ => h.successes_error
  | ok value =>
      obtain ⟨phase, hholds⟩ := hphase
      have hrows := h.sameRows rfl
      have hconnects : before.successes .connect < after.successes .connect := by
        rw [h.successes, huntouched.connects hnone]
        simp [Except.isOk, Except.toBool]
      have hunsealed : Unsealed .construct before after := by
        constructor
        · cases h with
          | performed hperform =>
              cases hperform
              rfl
        · intro hpresent
          rw [hnone] at hpresent
          cases hpresent
        · exact ⟨phase, .inl hholds, (holds_of_same hholds huntouched.database).of_rows
            hrows.attempts hrows.events⟩
        · exact hsealText.trans huntouched.sealText
        · exact ⟨.inr ⟨hnone, hconnects⟩, (h.successes_ne (by simp)).trans huntouched.replacements⟩
      refine ⟨⟨horderly.acts h, .inr (.inl hunsealed)⟩, fun _ => ?_⟩
      exact ⟨horderly.acts h, idle_of_acts ⟨rfl, by simp⟩ hidle h, hunsealed⟩

/-- A constructor that is stopped at any point has been cut. -/
theorem cut_construct (hstarts : Starts before) :
    (cutting image handle .construct before).Safe handle (fun _ _ => True)
      Operation.construct.call.run before := by
  have hidle : before.IdleAt handle := by
    intro pending hheld
    rw [hstarts.writer] at hheld
    cases hheld
  apply Interference.safe_call_bind
  apply Interference.safe_solo
  intro reply begun hcut h
  have hdatabase := h.sameDatabase rfl
  refine ⟨hcut.quiet h rfl rfl hdatabase, ?_⟩
  cases reply with
  | error raised => exact fun _ _ => trivial
  | ok existed =>
      have hexisted : existed = before.database.isSome := by
        cases h with
        | performed hperform =>
            cases hperform
            rfl
      have huntouched : Untouched before begun := (Untouched.refl before).acts h rfl rfl hdatabase
      have hbegun : begun.IdleAt handle := idle_of_acts ⟨rfl, by simp⟩ hidle h
      cases hpresent : before.database with
      | some database =>
          have htables : begun.HasTables :=
            tables_of_same (hstarts.tables (by rw [hpresent]; rfl)) hdatabase
          rw [hpresent] at hexisted
          subst hexisted
          exact cut_settled construct_settled (by rw [hpresent]; simp) hbegun htables huntouched
      | none =>
          rw [hpresent] at hexisted
          subst hexisted
          -- no file, no check: the next action makes the file
          apply Interference.safe_call_bind
          apply Interference.solo_stays
          apply Interference.safe_call_bind
          apply Interference.safe_solo
          intro reply made hcut hconnect
          obtain ⟨hafter, hok⟩ := cut_connect hpresent hstarts.phase hbegun hcut.orderly huntouched
            hconnect
          refine ⟨hafter, ?_⟩
          cases reply with
          | error raised => exact fun _ _ => trivial
          | ok value => exact cut_making hpresent (hok rfl)

end Constructor

end Oasi.Broker
