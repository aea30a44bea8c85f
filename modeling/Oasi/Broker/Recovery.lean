import Oasi.Broker.Cuts
import Oasi.Broker.Readings
import Oasi.Broker.Schedules

/-! # Recovery from a cut

A later constructor opens what an interrupted operation left behind, and reads
the phase before or after the operation off it, unless the operation was stopped
after it had made or committed the file and before it had replaced the seal.
-/

namespace Oasi.Broker

/-! ## Opening a ledger -/

/-- No digit is white space. -/
theorem not_isSpace_digitChar : ∀ digit < 16, isSpace digit.digitChar = false := by
  decide

/-- Nothing is stripped from a text without white space. -/
theorem dropWhile_isSpace {chars : List Char} (h : ∀ char ∈ chars, isSpace char = false) :
    chars.dropWhile isSpace = chars := by
  cases chars with
  | nil => rfl
  | cons char rest => rw [List.dropWhile_cons, h char List.mem_cons_self]; rfl

/-- The digest is read back from the text that `_seal` writes. -/
theorem strip_hexdigest (message : Bytes) :
    strip (hexdigest message ++ "\n") = hexdigest message := by
  have hspace : ∀ char ∈ (hexdigest message).toList, isSpace char = false := by
    intro char hchar
    obtain ⟨digit, hdigit, rfl⟩ := mem_hexdigest hchar
    exact not_isSpace_digitChar digit hdigit
  have hreverse : ∀ char ∈ (hexdigest message).toList.reverse, isSpace char = false :=
    fun char hchar => hspace char (List.mem_reverse.mp hchar)
  have htext : (hexdigest message ++ "\n").toList = (hexdigest message).toList ++ ['\n'] :=
    String.toList_append
  have hback : String.ofList (hexdigest message).toList = hexdigest message := String.ofList_toList
  rw [strip, htext]
  cases hdigest : (hexdigest message).toList with
  | nil =>
      rw [hdigest] at hback
      exact hback
  | cons char rest =>
      rw [hdigest] at hspace hreverse hback
      rw [List.cons_append, List.dropWhile_cons, hspace char List.mem_cons_self]
      have hends : (char :: (rest ++ ['\n'])).reverse = '\n' :: (char :: rest).reverse := by simp
      rw [if_neg Bool.false_ne_true, hends, List.dropWhile_cons, if_pos (by decide),
        dropWhile_isSpace hreverse, List.reverse_reverse]
      exact hback

section Opening

variable {image : Database → Bytes} {handle : Handle} {world : World} {database : Database}

theorem alone_runIf_false (call : LedgerCall Unit) :
    alone image handle (runIf false call) world = (.ok (), world) := rfl

theorem alone_runIf_true (call : LedgerCall Unit) :
    alone image handle (runIf true call) world = alone image handle call world := rfl

/-- A file without a seal is refused. -/
theorem alone_construct_missing (hdatabase : world.database = some database)
    (hseal : world.sealText = none) :
    alone image handle Ledger.construct world =
      (.error (.protocol "existing ledger has no seal"), world) := by
  have hinode : world.sealInode = none := by
    cases hinode : world.sealInode with
    | none => rfl
    | some inode => simp [World.sealText, hinode] at hseal
  have hexists : perform image handle .pathExists world = (.ok true, world) := by
    rw [perform, hdatabase]
    rfl
  have hmissing : perform image handle .sealIsFile world = (.ok false, world) := by
    rw [perform, hinode]
    rfl
  unfold Ledger.construct
  rw [alone_execute_bind hexists, alone_bind, alone_runIf_true]
  unfold Ledger.checkSeal
  rw [alone_execute_bind hmissing, alone_bind, alone_raiseIf, if_pos rfl]

/-- A file with both tables is opened when the seal holds its digest. -/
theorem alone_construct_existing {text : String} (hidle : world.IdleAt handle)
    (hdatabase : world.database = some database) (htables : database.HasTables)
    (hseal : world.sealText = some text) :
    alone image handle Ledger.construct world =
      if strip text = hexdigest (image database) then (.ok (), world)
      else (.error (.protocol "ledger seal mismatch"), world) := by
  obtain ⟨inode, hinode, htext⟩ := Option.map_eq_some_iff.mp hseal
  have hview : world.view handle = .ok database := by
    rw [view_of_idle hidle, hdatabase, Option.elim]
  have hexists : perform image handle .pathExists world = (.ok true, world) := by
    rw [perform, hdatabase]
    rfl
  have hfound : perform image handle .sealIsFile world = (.ok true, world) := by
    rw [perform, hinode]
    rfl
  have hreadSeal : perform image handle .readSeal world = (.ok text, world) := by
    rw [perform, hinode]
    dsimp only
    rw [htext]
  have hread : perform image handle .readDatabase world = (.ok (image database), world) := by
    rw [perform, hdatabase]
  have hconnect : perform image handle .connect world = (.ok (), world) := by
    rw [perform, hdatabase, Option.getD_some, ← hdatabase]
  -- the statements find both tables and change nothing
  have hattempts : perform image handle .createAttempts world = (.ok (), world) :=
    create_present hview htables.attempts
  have hevents : perform image handle .createEvents world = (.ok (), world) :=
    create_present hview htables.events
  have hcheck : alone image handle Ledger.checkSeal world =
      if strip text = hexdigest (image database) then (.ok (), world)
      else (.error (.protocol "ledger seal mismatch"), world) := by
    unfold Ledger.checkSeal
    rw [alone_execute_bind hfound, alone_bind, alone_raiseIf, if_neg (by simp)]
    dsimp only
    rw [alone_execute_bind hreadSeal, alone_execute_bind hread, alone_raiseIf, ite_not]
  unfold Ledger.construct
  rw [alone_execute_bind hexists, alone_bind, alone_runIf_true, hcheck]
  by_cases hmatch : strip text = hexdigest (image database)
  · rw [if_pos hmatch]
    dsimp only
    rw [alone_execute_bind hconnect, alone_execute_bind rfl, alone_execute_bind rfl,
      alone_execute_bind rfl, alone_execute_bind hattempts, alone_execute_bind hevents]
    rfl
  · rw [if_neg hmatch]

/-- A temporary file is opened without touching the database. -/
theorem perform_openTemporary (world : World) :
    ∃ inode opened, perform image handle .openTemporary world = (.ok inode, opened) ∧
      opened.temporaryInode = some inode ∧ opened.database = world.database ∧
      opened.writer = world.writer := by
  rw [perform]
  cases htemporary : world.temporaryInode with
  | some inode => exact ⟨_, _, rfl, htemporary, rfl, rfl⟩
  | none => exact ⟨_, _, rfl, rfl, rfl, rfl⟩

/-- A seal that nothing interferes with comes through. -/
theorem alone_seal (hdatabase : world.database = some database) :
    ∃ resealed, alone image handle Ledger._seal world = (.ok (), resealed) ∧
      resealed.database = world.database ∧ resealed.writer = world.writer ∧
      resealed.Sealed image := by
  have hread : perform image handle .readDatabase world = (.ok (image database), world) := by
    rw [perform, hdatabase]
  obtain ⟨inode, opened, hopened, htemporary, hkept, hwriter⟩ :=
    @perform_openTemporary image handle world
  have hreplace : ∀ text, perform image handle .replaceSeal (opened.setText inode text) =
      (.ok (),
        { opened.setText inode text with sealInode := some inode, temporaryInode := none }) := by
    intro text
    have hinode : (opened.setText inode text).temporaryInode = some inode := htemporary
    rw [perform, hinode]
  refine ⟨{ opened.setText inode (hexdigest (image database) ++ "\n") with
    sealInode := some inode, temporaryInode := none }, ?_, hkept, hwriter, database,
    hkept.trans hdatabase, ?_⟩
  · unfold Ledger._seal
    rw [alone_execute_bind rfl, alone_execute_bind hread, alone_execute_bind hopened,
      alone_execute_bind rfl, alone_execute_bind rfl, alone_execute_bind (hreplace _),
      alone_execute_bind rfl]
    rfl
  · simp [World.sealText, World.setText]

/-- A path without a file gets one with two empty tables. -/
theorem alone_construct_fresh (hwriter : world.writer = none) (hnone : world.database = none) :
    ∃ opened database, alone image handle Ledger.construct world = (.ok (), opened) ∧
      opened.database = some database ∧ opened.writer = none ∧ opened.Sealed image ∧
      database.HasTables ∧ database.Holds .absent := by
  have hexists : perform image handle .pathExists world = (.ok false, world) := by
    rw [perform, hnone]
    rfl
  have hconnect : perform image handle .connect world =
      (.ok (), { world with database := some .empty }) := by
    rw [perform, hnone, Option.getD_none]
  have hattempts : perform image handle .createAttempts { world with database := some .empty } =
      (.ok (), { world with database := some ⟨some [], none, 1⟩ }) := by
    simp [perform, World.create, World.view, World.write, hwriter, Database.empty]
  have hevents : perform image handle .createEvents
      { world with database := some ⟨some [], none, 1⟩ } =
        (.ok (), { world with database := some ⟨some [], some [], 2⟩ }) := by
    simp [perform, World.create, World.view, World.write, hwriter]
  obtain ⟨resealed, hseal, hdatabase, hheld, hsealed⟩ := @alone_seal image handle
    { world with database := some ⟨some [], some [], 2⟩ } _ rfl
  refine ⟨resealed, ⟨some [], some [], 2⟩, ?_, hdatabase, hheld.trans hwriter, hsealed,
    ⟨rfl, rfl⟩, rfl, rfl⟩
  unfold Ledger.construct
  rw [alone_execute_bind hexists, alone_bind, alone_runIf_false]
  dsimp only
  rw [alone_execute_bind hconnect, alone_execute_bind rfl, alone_execute_bind rfl,
    alone_execute_bind rfl, alone_execute_bind hattempts, alone_execute_bind hevents]
  exact hseal

end Opening

/-! ## Interrupted operations -/

/-- The operation was stopped at this point, by a crash, by its end or after it
had raised, and its handle is gone. -/
def Interrupted (image : Database → Bytes) (handle : Handle) (operation : Operation)
    (before after : World) : Prop :=
  ∃ rest stopped, operation.call.run.Reaches (Acts image handle) before rest stopped ∧
    after = stopped.release handle

/-- A later constructor opens the ledger, which verifies and shows the phase
before or after the operation and the recovery action of that phase. -/
def Recovers (image : Database → Bytes) (operation : Operation) (before after : World) : Prop :=
  ∀ later, ∃ opened phase, alone image later Ledger.construct after = (.ok (), opened) ∧
    Leads before operation phase ∧ Shows image later opened phase

/-- The file before and the file after have one digest. -/
def Collides (image : Database → Bytes) (before after : World) : Prop :=
  ∃ old new, before.database = some old ∧ after.database = some new ∧
    hexdigest (image old) = hexdigest (image new)

/-- The ledgers that operations lead to, none of which was stopped while the
file was exposed. -/
inductive Intact (image : Database → Bytes) : World → Prop where
  | empty : Intact image .empty
  | interrupted {handle : Handle} {operation : Operation} {before after : World}
      (hbefore : Intact image before)
      (hinterrupted : Interrupted image handle operation before after)
      (hunexposed : ¬Exposed before after) : Intact image after

/-- What an intact ledger is: it may be opened, and a file has its seal. -/
structure Survives (image : Database → Bytes) (world : World) : Prop where
  starts : Starts world
  resealed : world.database = none ∧ world.sealText = none ∨ world.Sealed image

section Recovering

variable {image : Database → Bytes} {handle : Handle} {operation : Operation}
  {before stopped after : World}

/-- Wherever an operation stops, the state is a cut one. -/
theorem cut_of_reaches {rest : Program Action Reply (Except Raised Unit)}
    (hstarts : Starts before)
    (hreaches : operation.call.run.Reaches (Acts image handle) before rest stopped) :
    Cut image handle operation before stopped := by
  have hsafe : (cutting image handle operation before).Safe handle (fun _ _ => True)
      operation.call.run before := by
    by_cases hoperation : operation = .construct
    · subst hoperation
      exact cut_construct hstarts
    · exact cut_method hoperation hstarts
  exact (hsafe.reaches (fun _ _ _ _ h => h) hreaches hstarts.cut).2

/-- The end of a handle closes its transaction and leaves the rest. -/
theorem cut_release (hcut : Cut image handle operation before stopped) :
    (stopped.release handle).writer = none ∧
      Cut image handle operation before (stopped.release handle) := by
  rcases release_cases stopped handle with ⟨_, hrelease⟩ | ⟨hidle, hrelease⟩
  · rw [hrelease]
    have horderly : Orderly handle { stopped with writer := none } := by
      refine ⟨hcut.orderly.named.of_sameFiles ⟨rfl, rfl, rfl, rfl⟩, ?_, ?_⟩
      · intro holder pending hheld
        cases hheld
      · intro holder pending hheld
        cases hheld
    exact ⟨rfl, hcut.of_same horderly rfl rfl fun _ _ => rfl⟩
  · rw [hrelease]
    refine ⟨?_, hcut⟩
    cases hheld : stopped.writer with
    | none => rfl
    | some entry =>
        obtain ⟨holder, pending⟩ := entry
        have hholder := hcut.orderly.writer holder pending hheld
        exact absurd (hholder ▸ hheld) (hidle pending)

/-- An interrupted operation leaves a cut state and no writer. -/
theorem Interrupted.cut (hstarts : Starts before)
    (hinterrupted : Interrupted image handle operation before after) :
    after.writer = none ∧ Cut image handle operation before after := by
  obtain ⟨rest, stopped, hreaches, rfl⟩ := hinterrupted
  exact cut_release (cut_of_reaches hstarts hreaches)

/-- What is untouched is not exposed. -/
theorem Untouched.not_exposed (huntouched : Untouched before after) : ¬Exposed before after := by
  rintro ⟨hgrown | ⟨hnone, hgrown⟩, _⟩
  · rw [huntouched.commits] at hgrown
    exact Nat.lt_irrefl _ hgrown
  · rw [huntouched.connects hnone] at hgrown
    exact Nat.lt_irrefl _ hgrown

/-- What is sealed again is not exposed. -/
theorem Resealed.not_exposed (hresealed : Resealed image operation before after) :
    ¬Exposed before after := by
  rintro ⟨_, hsame⟩
  have hgrown := hresealed.replaced
  rw [hsame] at hgrown
  exact Nat.lt_irrefl _ hgrown

/-- An interruption that leaves nothing exposed leaves an intact ledger. -/
theorem Survives.interrupted (hsurvives : Survives image before)
    (hinterrupted : Interrupted image handle operation before after)
    (hunexposed : ¬Exposed before after) : Survives image after := by
  obtain ⟨hwriter, hcut⟩ := hinterrupted.cut hsurvives.starts
  rcases hcut.stage with huntouched | hunsealed | hresealed
  · obtain ⟨phase, hholds⟩ := hsurvives.starts.phase
    constructor
    · refine ⟨hcut.orderly.named, hwriter, ?_, ?_⟩
      · exact ⟨phase, holds_of_same hholds huntouched.database⟩
      · intro hpresent
        rw [huntouched.database] at hpresent
        exact tables_of_same (hsurvives.starts.tables hpresent) huntouched.database
    · rw [World.Sealed, huntouched.database, huntouched.sealText]
      exact hsurvives.resealed
  · exact absurd hunsealed.exposed hunexposed
  · obtain ⟨phase, _, hholds⟩ := hresealed.phase
    exact ⟨⟨hcut.orderly.named, hwriter, ⟨phase, hholds⟩, fun _ => hresealed.tables⟩,
      .inr hresealed.resealed⟩

/-- A ledger that was never made survives. -/
theorem survives_empty : Survives image .empty := by
  constructor
  · refine ⟨⟨?_, ?_, ?_⟩, rfl, ⟨.absent, rfl, rfl⟩, fun h => by cases h⟩
    all_goals
      intro _ h
      cases h
  · exact .inl ⟨rfl, rfl⟩

/-- An intact ledger survives. -/
theorem Intact.survives {world : World} (hintact : Intact image world) : Survives image world := by
  induction hintact with
  | empty => exact survives_empty
  | interrupted _ hinterrupted hunexposed ih => exact ih.interrupted hinterrupted hunexposed

/-! ## When a cut is recovered from -/

/-- Without a writer, every handle is idle. -/
theorem idle_of_writer {world : World} (hwriter : world.writer = none) (handle : Handle) :
    world.IdleAt handle := by
  intro pending hheld
  rw [hwriter] at hheld
  cases hheld

/-- A file is opened when the seal is of a file with the same digest. -/
theorem recovers_of_digest {phase : Phase} {old : Bytes} {new : Database}
    (hwriter : after.writer = none) (hdatabase : after.database = some new)
    (htables : after.HasTables) (hseal : after.sealText = some (hexdigest old ++ "\n"))
    (hdigest : hexdigest old = hexdigest (image new)) (hleads : Leads before operation phase)
    (hholds : after.Holds phase) : Recovers image operation before after := by
  intro later
  obtain ⟨current, hcurrent, htables⟩ := htables
  rw [hdatabase, Option.some.injEq] at hcurrent
  subst hcurrent
  have hidle := idle_of_writer hwriter later
  have hview : after.view later = .ok new := by
    rw [view_of_idle hidle, hdatabase, Option.elim]
  refine ⟨after, phase, ?_, hleads, ?_⟩
  · rw [alone_construct_existing hidle hdatabase htables hseal, strip_hexdigest, if_pos hdigest]
  · exact shows_of_holds hview htables
      ((@holds_of_database _ new _ new.changes hdatabase).mpr hholds)

/-- A sealed state in a phase that the operation leads to recovers. -/
theorem recovers_of_sealed {phase : Phase} (hwriter : after.writer = none)
    (hsealed : after.Sealed image) (htables : after.HasTables)
    (hleads : Leads before operation phase) (hholds : after.Holds phase) :
    Recovers image operation before after := by
  obtain ⟨database, hdatabase, hseal⟩ := hsealed
  exact recovers_of_digest hwriter hdatabase htables hseal rfl hleads hholds

/-- A path without a file shows the attempt absent once it is opened. -/
theorem recovers_of_missing (hwriter : after.writer = none) (hnone : after.database = none)
    (hleads : Leads before operation .absent) : Recovers image operation before after := by
  intro later
  obtain ⟨opened, database, hopened, hdatabase, hheld, _, htables, hholds⟩ :=
    @alone_construct_fresh image later after hwriter hnone
  have hview : opened.view later = .ok database := by
    rw [World.view, hheld, hdatabase]
    rfl
  exact ⟨opened, .absent, hopened, hleads, shows_of_holds hview htables hholds⟩

/-- Without a database, the attempt is absent. -/
theorem eq_absent_of_missing {world : World} {phase : Phase} (hnone : world.database = none)
    (hholds : world.Holds phase) : phase = .absent := by
  have hrows := hholds.attempts
  rw [World.attemptRows, hnone] at hrows
  cases phase with
  | absent => rfl
  | _ => cases hrows

/-- Whatever was interrupted anywhere but between the change of the file and the
new seal, a later constructor recovers from it, and from nothing else, but for
two files with one digest. -/
theorem recovers_iff (hintact : Intact image before)
    (hinterrupted : Interrupted image handle operation before after) :
    Recovers image operation before after ↔
      ¬Exposed before after ∨ Collides image before after := by
  have hsurvives := hintact.survives
  obtain ⟨hwriter, hcut⟩ := hinterrupted.cut hsurvives.starts
  obtain ⟨old, hold⟩ := hsurvives.starts.phase
  rcases hcut.stage with huntouched | hunsealed | hresealed
  · -- nothing has happened to the file
    apply iff_of_true _ (.inl huntouched.not_exposed)
    have hafter : after.Holds old := holds_of_same hold huntouched.database
    rcases hsurvives.resealed with ⟨hnone, _⟩ | hsealed
    · have hmissing := huntouched.database.trans hnone
      exact recovers_of_missing hwriter hmissing
        (.inl (eq_absent_of_missing hmissing hafter ▸ hold))
    · obtain ⟨database, hdatabase, hseal⟩ := hsealed
      have htables := hsurvives.starts.tables (by rw [hdatabase]; rfl)
      exact recovers_of_digest hwriter (huntouched.database.trans hdatabase)
        (tables_of_same htables huntouched.database) (huntouched.sealText.trans hseal) rfl
        (.inl hold) hafter
  · -- the file is new and the seal is old
    obtain ⟨phase, hleads, hholds⟩ := hunsealed.phase
    obtain ⟨new, hnew⟩ := Option.isSome_iff_exists.mp hunsealed.present
    rcases hsurvives.resealed with ⟨hnone, hseal⟩ | ⟨database, hdatabase, hseal⟩
    · -- a file without a seal is refused
      apply iff_of_false
      · intro hrecovers
        obtain ⟨opened, _, hopened, _⟩ := hrecovers handle
        rw [alone_construct_missing hnew (hunsealed.sealText.trans hseal)] at hopened
        cases hopened
      · rintro (hunexposed | ⟨database, _, hdatabase, _⟩)
        · exact hunexposed hunsealed.exposed
        · rw [hnone] at hdatabase
          cases hdatabase
    · have htables := hunsealed.tables (by rw [hdatabase]; rfl)
      have hstale := hunsealed.sealText.trans hseal
      constructor
      · intro hrecovers
        obtain ⟨opened, _, hopened, _⟩ := hrecovers handle
        obtain ⟨current, hcurrent, hcurrentTables⟩ := htables
        rw [hnew, Option.some.injEq] at hcurrent
        subst hcurrent
        rw [alone_construct_existing (idle_of_writer hwriter handle) hnew hcurrentTables hstale,
          strip_hexdigest] at hopened
        -- the old seal is accepted only when the digests are the same
        by_cases hdigest : hexdigest (image database) = hexdigest (image new)
        · exact .inr ⟨database, new, hdatabase, hnew, hdigest⟩
        · rw [if_neg hdigest] at hopened
          cases hopened
      · rintro (hunexposed | ⟨first, second, hfirst, hsecond, hdigest⟩)
        · exact absurd hunsealed.exposed hunexposed
        · rw [hdatabase, Option.some.injEq] at hfirst
          rw [hnew, Option.some.injEq] at hsecond
          subst hfirst hsecond
          exact recovers_of_digest hwriter hnew htables hstale hdigest hleads hholds
  · -- the file is new and so is the seal
    obtain ⟨phase, hleads, hholds⟩ := hresealed.phase
    exact iff_of_true (recovers_of_sealed hwriter hresealed.resealed hresealed.tables hleads hholds)
      (.inl hresealed.not_exposed)

end Recovering

/-! ## A cut between the commit and the seal -/

instance (before after : World) : Decidable (Exposed before after) :=
  inferInstanceAs (Decidable (_ ∧ _))

/-- The world in which a handle that runs alone stops after so many actions. -/
def stopAfter (image : Database → Bytes) (handle : Handle) :
    Nat → Program Action Reply (Except Raised Unit) → World → World
  | count + 1, .act action next, world =>
      let (reply, after) := perform image handle action world
      stopAfter image handle count (next reply)
        (after.record (.performed handle action reply after.database))
  | _, _, world => world

/-- What is left when the handle is gone after so many actions of an operation. -/
def cutAfter (image : Database → Bytes) (handle : Handle) (operation : Operation) (count : Nat)
    (world : World) : World :=
  (stopAfter image handle count operation.call.run world).release handle

/-- A program is stopped after any number of its actions. -/
theorem reaches_stopAfter {image : Database → Bytes} {handle : Handle} (count : Nat)
    (program : Program Action Reply (Except Raised Unit)) (world : World) :
    ∃ rest, program.Reaches (Acts image handle) world rest
      (stopAfter image handle count program world) := by
  induction count generalizing program world with
  | zero => exact ⟨program, .stop⟩
  | succ count ih =>
      cases program with
      | done outcome => exact ⟨.done outcome, .stop⟩
      | act action next =>
          obtain ⟨rest, hrest⟩ := ih (next (perform image handle action world).1) _
          exact ⟨rest, .act (.performed rfl) hrest⟩

/-- A cut after a number of actions is an interruption. -/
theorem interrupted_cutAfter {image : Database → Bytes} {handle : Handle} {operation : Operation}
    (count : Nat) (world : World) :
    Interrupted image handle operation world (cutAfter image handle operation count world) := by
  obtain ⟨rest, hreaches⟩ := @reaches_stopAfter image handle count operation.call.run world
  exact ⟨rest, _, hreaches, rfl⟩

/-- A new ledger. -/
def builtLedger : World := cutAfter Database.countChanges 0 .construct 32 .empty

/-- A new ledger whose `prepare()` was stopped right after its `COMMIT`. -/
def cutLedger : World := cutAfter Database.countChanges 0 .prepare 5 builtLedger

/-- The example's ledger is intact. -/
theorem intact_builtLedger : Intact Database.countChanges builtLedger :=
  .interrupted .empty (interrupted_cutAfter 32 .empty) (by decide +kernel)

/-- The attempt is prepared, and the ledger cannot be opened any more. -/
theorem prepare_stopped_before_seal :
    ∃ before after, Intact Database.countChanges before ∧
      Interrupted Database.countChanges 0 .prepare before after ∧
      after.attemptRows.map (·.state) = [.text "PREPARED"] ∧
      (alone Database.countChanges 1 Ledger.construct after).1 =
        .error (.protocol "ledger seal mismatch") ∧
      ¬Recovers Database.countChanges .prepare before after := by
  have hmismatch : (alone Database.countChanges 1 Ledger.construct cutLedger).1 =
      .error (.protocol "ledger seal mismatch") := by decide +kernel
  refine ⟨builtLedger, cutLedger, intact_builtLedger, interrupted_cutAfter 5 builtLedger,
    by decide +kernel, hmismatch, ?_⟩
  intro hrecovers
  obtain ⟨opened, _, hopened, _⟩ := hrecovers 1
  rw [hopened] at hmismatch
  cases hmismatch

/-- Cut off before its seal, `prepare` recovers only if the two images collide. -/
theorem recovers_iff_before_seal :
    (Recovers Database.countChanges .prepare builtLedger cutLedger ↔
      ¬Exposed builtLedger cutLedger ∨ Collides Database.countChanges builtLedger cutLedger) ∧
      Exposed builtLedger cutLedger :=
  ⟨recovers_iff intact_builtLedger (interrupted_cutAfter 5 builtLedger), by decide +kernel⟩

end Oasi.Broker
