import Oasi.Broker.Recovery
import Oasi.Foundation.Machine

/-! # Methods one after another

Where nothing interferes and the system causes no error, the ledger is a machine of five
phases: each call is answered as its phase tells, whatever handle makes it.
-/

namespace Oasi.Broker

/-! ## The machine of phases -/

/-- The phase after a method, or what the method raises. -/
def Phase.answer (phase : Phase) : Operation → Except Raised Phase
  | .construct => .ok phase
  | .prepare => (Operation.prepare.next phase).elim (.error .integrity) .ok
  | .consume =>
      (Operation.consume.next phase).elim
        (.error (.protocol "attempt is not uniquely prepared")) .ok
  | .recordResult receiptDigest =>
      ((Operation.recordResult receiptDigest).next phase).elim
        (.error (.protocol "result without consumed one-shot")) .ok
  | .terminal =>
      (Operation.terminal.next phase).elim
        (.error (.protocol "terminal without durable result")) .ok

/-- Each method answers whether it passed; one that raises leaves the phase. -/
def phases : Machine Phase Operation (Except Raised Unit) where
  step phase operation :=
    match phase.answer operation with
    | .ok next => (.ok (), next)
    | .error raised => (.error raised, phase)

/-- The ledger with its handles, of which one is called at a time. -/
def serialLedger (image : Database → Bytes) :
    Machine World (Handle × Operation) (Except Raised Unit) where
  step world call := alone image call.1 call.2.call world

/-! ## Statements of a transaction -/

/-- The handle has a transaction open in which it sees these tables. -/
def World.pend (world : World) (handle : Handle) (pending : Database) : World :=
  { world with writer := some (handle, pending) }

section Statements

variable {image : Database → Bytes} {handle : Handle} {world : World} {pending : Database}
  {phase : Phase}

theorem read_pend {Value : Type} (statement : Database → Except Raised Value) :
    (world.pend handle pending).read handle statement = statement pending := by
  have hview : (world.pend handle pending).view handle = .ok pending := if_pos rfl
  exact read_of_view hview statement

theorem write_pend (statement : Database → Except Raised Database) {written : Database}
    (h : statement pending = .ok written) :
    (world.pend handle pending).write handle statement = (.ok (), world.pend handle written) := by
  simp only [World.write, World.pend, if_true, h]

theorem write_pend_error (statement : Database → Except Raised Database) {raised : Raised}
    (h : statement pending = .error raised) :
    (world.pend handle pending).write handle statement =
      (.error raised, world.pend handle pending) := by
  simp only [World.write, World.pend, if_true, h]

theorem hasTables_of_extends {written : Database} (htables : pending.HasTables)
    (hextends : pending.Extends written) : written.HasTables :=
  ⟨hextends.attempts htables.attempts, hextends.events htables.events⟩

/-- What does not raise comes to something. -/
theorem exists_ok {Value : Type} {outcome : Except Raised Value}
    (h : ¬∃ raised, outcome = .error raised) : ∃ value, outcome = .ok value := by
  cases outcome with
  | ok value => exact ⟨value, rfl⟩
  | error raised => exact absurd ⟨raised, rfl⟩ h

theorem alone_appendEvent {milestones : List String} (event : String)
    (htables : pending.HasTables)
    (hevents : pending.eventRows = chainFrom zeroHash milestones) :
    ∃ written,
      alone image handle (Ledger._appendEvent event) (world.pend handle pending) =
        (.ok (), world.pend handle written) ∧
      written.HasTables ∧ written.attemptRows = pending.attemptRows ∧
      written.eventRows = chainFrom zeroHash (milestones ++ [event]) := by
  obtain ⟨last, hlast⟩ := exists_ok (Database.selectLastHash_isOk htables.events)
  obtain ⟨written, hwritten⟩ := @exists_ok _ (pending.insertEvent
    (linkedEvent (hashFrom zeroHash milestones) event)) (Database.insertEvent_isOk htables.events)
  have hselect : perform image handle .selectLastHash (world.pend handle pending) =
      (.ok last, world.pend handle pending) := by
    rw [perform, read_pend, hlast]
  refine ⟨written, ?_, hasTables_of_extends htables (keepsTables_insertEvent _ _ _ hwritten),
    Database.appendEvent_eq hevents hwritten⟩
  unfold Ledger._appendEvent
  rw [alone_execute_bind hselect]
  dsimp only
  rw [Database.eventAfter_last event hevents hlast, alone_bind, alone_orRaise]
  exact write_pend (·.insertEvent _) hwritten

/-- Tables that hold a phase are led to the next one, or the statements raise. -/
def Serves (operation : Operation) (raised : Raised) (statements : LedgerCall Unit) : Prop :=
  ∀ (image : Database → Bytes) (handle : Handle) (world : World) (pending : Database)
    (phase : Phase), pending.HasTables → pending.Holds phase →
    match operation.next phase with
    | some next => ∃ written,
        alone image handle statements (world.pend handle pending) =
          (.ok (), world.pend handle written) ∧ written.HasTables ∧ written.Holds next
    | none => alone image handle statements (world.pend handle pending) =
        (.error raised, world.pend handle pending)

theorem serves_prepare : Serves .prepare .integrity (do
    execute (.insertAttempt "PREPARED")
    Ledger._appendEvent "PREPARED") := by
  intro image handle world pending phase htables hholds
  have hinsert : pending.insertAttempt "PREPARED" =
      if phase.row?.isSome then .error .integrity
      else .ok { pending with attempts := some (phase.row?.toList ++
        Phase.prepared.row?.toList) } := by
    rw [Database.insertAttempt, Database.attemptsTable, (tables_of_holds htables hholds).1]
    dsimp only [bind, Except.bind]
    rw [Phase.any_row?]
    rfl
  cases phase with
  | absent =>
      have hwritten := keepsTables_insertAttempt "PREPARED" _ _ hinsert
      obtain ⟨appended, hrun, happended, hattempts, hevents⟩ := @alone_appendEvent image handle
        world _ _ "PREPARED" (hasTables_of_extends htables hwritten) hholds.events
      refine ⟨appended, ?_, happended, hattempts, hevents⟩
      have hperform : perform image handle (.insertAttempt "PREPARED")
          (world.pend handle pending) = _ := write_pend (·.insertAttempt "PREPARED") hinsert
      rw [alone_execute_bind hperform]
      exact hrun
  | _ =>
      have hperform : perform image handle (.insertAttempt "PREPARED")
          (world.pend handle pending) = _ := write_pend_error (·.insertAttempt "PREPARED") hinsert
      dsimp only [Operation.next]
      rw [alone_bind, alone_execute, hperform]

/-- A method that reads the row of its attempt, checks it and updates it. -/
theorem serves_guarded {operation : Operation} {condition : Option AttemptRow → Prop}
    [∀ row, Decidable (condition row)] {raised : Raised} {update : Update} {event : String}
    (hguards : Guards operation condition update event) :
    Serves operation raised (do
      let row ← execute .selectAttempt
      raiseIf (condition row) raised
      execute (.updateAttempt update)
      Ledger._appendEvent event) := by
  intro image handle world pending phase htables hholds
  have hselect : perform image handle .selectAttempt (world.pend handle pending) =
      (.ok phase.row?, world.pend handle pending) := by
    rw [perform, read_pend, selectAttempt_of_holds htables hholds]
  rw [alone_execute_bind hselect, alone_bind, alone_raiseIf]
  by_cases hcondition : condition phase.row?
  · rw [hguards.refuses phase hcondition, if_pos hcondition]
  · obtain ⟨next, row, hnext, hrow, hcurrent, hupdated, hmilestones⟩ :=
      hguards.advances phase hcondition
    have hrows : pending.attemptRows = [row] := by
      rw [hholds.attempts, hrow]
      rfl
    obtain ⟨written, hwritten⟩ := @exists_ok _ (pending.updateAttempt update)
      (Database.updateAttempt_isOk htables.attempts)
    have hperform : perform image handle (.updateAttempt update) (world.pend handle pending) = _ :=
      write_pend (·.updateAttempt update) hwritten
    obtain ⟨hattempts, hevents⟩ := Database.updateAttempt_eq hrows hcurrent hwritten
    obtain ⟨appended, hrun, happended, hkept, hchain⟩ := @alone_appendEvent image handle
      world written _ event
      (hasTables_of_extends htables (keepsTables_updateAttempt update _ _ hwritten))
      (hevents.trans hholds.events)
    rw [hnext, if_neg hcondition]
    dsimp only
    refine ⟨appended, ?_, happended, ?_, ?_⟩
    · rw [alone_execute_bind hperform]
      exact hrun
    · rw [hkept, hattempts, hupdated]
      rfl
    · rw [hchain, hmilestones]

end Statements

/-! ## Transactions -/

/-- The ledger holds a phase, its seal is up to date and no transaction is open. -/
structure World.Rests (image : Database → Bytes) (world : World) (phase : Phase) : Prop where
  resealed : world.Sealed image
  idle : world.writer = none
  tables : world.HasTables
  holds : world.Holds phase

section Calls

variable {image : Database → Bytes} {handle : Handle} {world : World} {phase : Phase}

theorem perform_begin {database : Database} (hdatabase : world.database = some database)
    (hidle : world.writer = none) :
    perform image handle .beginImmediate world = (.ok (), world.pend handle database) := by
  simp only [perform, hidle, hdatabase, World.pend]

/-- A transaction over statements that come through ends committed and sealed. -/
theorem alone_transaction_ok {statements : LedgerCall Unit} {database pending : Database}
    (hdatabase : world.database = some database) (hidle : world.writer = none)
    (hrun : alone image handle statements (world.pend handle database) =
      (.ok (), world.pend handle pending)) :
    ∃ after, alone image handle (Ledger.transaction statements) world = (.ok (), after) ∧
      after.database = some { pending with changes := pending.changes + 1 } ∧
      after.writer = none ∧ after.Sealed image := by
  have hcommit : perform image handle .commit (world.pend handle pending) =
      (.ok (), { world with
        database := some { pending with changes := pending.changes + 1 }, writer := none }) :=
    if_pos rfl
  obtain ⟨after, hseal, hafter, hwriter, hsealed⟩ := @alone_seal image handle { world with
    database := some { pending with changes := pending.changes + 1 }, writer := none } _ rfl
  refine ⟨after, ?_, hafter, hwriter, hsealed⟩
  unfold Ledger.transaction
  rw [alone_execute_bind (perform_begin hdatabase hidle), alone_tryCatch, alone_bind, hrun]
  dsimp only
  rw [alone_execute_bind hcommit, hseal]

/-- A transaction over statements that raise leaves everything as it was. -/
theorem alone_transaction_error {statements : LedgerCall Unit} {database pending : Database}
    {raised : Raised} (hdatabase : world.database = some database)
    (hidle : world.writer = none)
    (hrun : alone image handle statements (world.pend handle database) =
      (.error raised, world.pend handle pending)) :
    alone image handle (Ledger.transaction statements) world = (.error raised, world) := by
  have hrollback : perform image handle .rollback (world.pend handle pending) =
      (.ok (), { world with writer := none }) := if_pos rfl
  have hback : { world with writer := none } = world := by
    rw [← hidle]
  unfold Ledger.transaction
  rw [alone_execute_bind (perform_begin hdatabase hidle), alone_tryCatch, alone_bind, hrun]
  dsimp only
  rw [alone_execute_bind hrollback, alone_throw, hback]

/-- A method follows its phase. -/
theorem transaction_follows {operation : Operation} {raised : Raised}
    {statements : LedgerCall Unit} (hserves : Serves operation raised statements)
    (hrests : world.Rests image phase) :
    match operation.next phase with
    | some next => ∃ after,
        alone image handle (Ledger.transaction statements) world = (.ok (), after) ∧
          after.Rests image next
    | none =>
        alone image handle (Ledger.transaction statements) world = (.error raised, world) := by
  obtain ⟨database, hdatabase, htables⟩ := hrests.tables
  have hholds : database.Holds phase :=
    (@holds_of_database _ database _ database.changes hdatabase).mpr hrests.holds
  have hstatements := hserves image handle world database phase htables hholds
  cases hnext : operation.next phase with
  | none =>
      rw [hnext] at hstatements
      exact alone_transaction_error hdatabase hrests.idle hstatements
  | some next =>
      rw [hnext] at hstatements
      obtain ⟨written, hrun, hwritten, hheld⟩ := hstatements
      obtain ⟨after, hafter, hcommitted, hwriter, hsealed⟩ :=
        alone_transaction_ok hdatabase hrests.idle hrun
      refine ⟨after, hafter, hsealed, hwriter, ⟨_, hcommitted, ?_⟩, ?_⟩
      · exact ⟨hwritten.attempts, hwritten.events⟩
      · exact (holds_of_database hcommitted).mp hheld

/-- An existing ledger is opened again, and nothing changes. -/
theorem construct_follows (hrests : world.Rests image phase) :
    alone image handle Ledger.construct world = (.ok (), world) := by
  obtain ⟨database, hdatabase, hseal⟩ := hrests.resealed
  obtain ⟨found, hfound, htables⟩ := hrests.tables
  cases hdatabase.symm.trans hfound
  have hidle : world.IdleAt handle := by
    intro pending hheld
    rw [hrests.idle] at hheld
    cases hheld
  rw [alone_construct_existing hidle hdatabase htables hseal, strip_hexdigest, if_pos rfl]

/-- What one call answers, and the phase that it leaves, are those of the machine. -/
theorem call_follows (hrests : world.Rests image phase) (operation : Operation) :
    (alone image handle operation.call world).1 = (phases.step phase operation).1 ∧
      (alone image handle operation.call world).2.Rests image (phases.step phase operation).2 := by
  have hmethod : ∀ {raised statements}, Serves operation raised statements →
      operation.call = Ledger.transaction statements →
      phase.answer operation = (operation.next phase).elim (.error raised) .ok →
      (alone image handle operation.call world).1 = (phases.step phase operation).1 ∧
        (alone image handle operation.call world).2.Rests image
          (phases.step phase operation).2 := by
    intro raised statements hserves hcall hanswer
    have hfollows := @transaction_follows image handle _ _ _ _ _ hserves hrests
    cases hnext : operation.next phase with
    | none =>
        rw [hnext] at hfollows hanswer
        dsimp only [phases]
        rw [hcall, hfollows, hanswer]
        exact ⟨rfl, hrests⟩
    | some next =>
        rw [hnext] at hfollows hanswer
        obtain ⟨after, hafter, hnextRests⟩ := hfollows
        dsimp only [phases]
        rw [hcall, hafter, hanswer]
        exact ⟨rfl, hnextRests⟩
  cases operation with
  | construct =>
      rw [Operation.call, construct_follows hrests]
      exact ⟨rfl, hrests⟩
  | prepare => exact hmethod serves_prepare rfl rfl
  | consume => exact hmethod (serves_guarded guards_consume) rfl rfl
  | recordResult receiptDigest =>
      exact hmethod (serves_guarded (guards_recordResult receiptDigest)) rfl rfl
  | terminal => exact hmethod (serves_guarded guards_terminal) rfl rfl

end Calls

/-! ## Whole runs -/

/-- The ledger behaves like the machine of its phases. -/
theorem serial_simulation (image : Database → Bytes) :
    Simulation (serialLedger image) phases Prod.snd (World.Rests image) where
  answers := fun hrests call => (call_follows hrests call.2).1
  follows := fun hrests call => (call_follows hrests call.2).2

/-- The first constructor makes a ledger at rest. -/
theorem rests_constructed (image : Database → Bytes) (handle : Handle) {world : World}
    (hwriter : world.writer = none) (hnone : world.database = none) :
    ∃ opened, alone image handle Ledger.construct world = (.ok (), opened) ∧
      opened.Rests image .absent := by
  obtain ⟨opened, database, hopened, hdatabase, hheld, hsealed, htables, hholds⟩ :=
    @alone_construct_fresh image handle world hwriter hnone
  exact ⟨opened, hopened, hsealed, hheld, ⟨database, hdatabase, htables⟩,
    (@holds_of_database _ database _ database.changes hdatabase).mp hholds⟩

theorem shows_of_rests {image : Database → Bytes} {world : World} {phase : Phase}
    (hrests : world.Rests image phase) (reader : Handle) : Shows image reader world phase := by
  obtain ⟨database, hdatabase, htables⟩ := hrests.tables
  have hview : world.view reader = .ok database := by
    rw [World.view, hrests.idle, hdatabase]
    rfl
  exact shows_of_holds hview htables
    ((@holds_of_database _ database _ database.changes hdatabase).mpr hrests.holds)

/-- From an empty path on, the calls of any handles, one after another, are answered as
the machine of phases answers them; and then every handle verifies the ledger and reads
the phase that the machine has reached. -/
theorem serial_answers (image : Database → Bytes) (handle : Handle)
    (calls : List (Handle × Operation)) :
    ((serialLedger image).trace .empty ((handle, .construct) :: calls)).map Transition.output =
        (phases.trace .absent (.construct :: calls.map Prod.snd)).map Transition.output ∧
      ∀ reader, Shows image reader
        ((serialLedger image).run .empty ((handle, .construct) :: calls))
        (phases.run .absent (calls.map Prod.snd)) := by
  obtain ⟨opened, hopened, hrests⟩ := @rests_constructed image handle .empty rfl rfl
  have hfirst : (serialLedger image).step .empty (handle, .construct) = (.ok (), opened) := hopened
  constructor
  · have hrest := (serial_simulation image).outputs_eq hrests calls
    rw [Machine.trace, Machine.trace, Machine.transition, hfirst, List.map_cons, List.map_cons,
      hrest]
    rfl
  · intro reader
    rw [Machine.run_cons, hfirst]
    exact shows_of_rests ((serial_simulation image).related_run hrests calls) reader

end Oasi.Broker
