import Oasi.Broker.Statements

/-! # What a handle reads off a ledger

A handle that nothing interferes with reads the phase of the committed tables:
the state, the recovery action and a chain of events that verifies.
-/

namespace Oasi.Broker

/-! ## Calls that run alone -/

section Alone

variable {image : Database → Bytes} {handle : Handle} {First Second : Type}

theorem alone_bind (call : LedgerCall First) (rest : First → LedgerCall Second) (world : World) :
    alone image handle (call >>= rest) world = match alone image handle call world with
      | (.ok value, after) => alone image handle (rest value) after
      | (.error raised, after) => (.error raised, after) := by
  unfold alone
  rw [Call.run_bind, Program.run_bind]
  cases houtcome : call.run.run (perform image handle) world with
  | mk outcome after => cases outcome <;> rfl

theorem alone_tryCatch (call : LedgerCall First) (handler : Raised → LedgerCall First)
    (world : World) :
    alone image handle (tryCatch call handler) world = match alone image handle call world with
      | (.ok value, after) => (.ok value, after)
      | (.error raised, after) => alone image handle (handler raised) after := by
  unfold alone
  rw [Call.run_tryCatch, Program.run_bind]
  cases houtcome : call.run.run (perform image handle) world with
  | mk outcome after => cases outcome <;> rfl

theorem alone_execute (action : Action) (world : World) :
    alone image handle (execute action) world = perform image handle action world := rfl

theorem alone_pure (value : First) (world : World) :
    alone image handle (pure value) world = (.ok value, world) := rfl

theorem alone_throw (raised : Raised) (world : World) :
    alone image handle (throw raised : LedgerCall First) world = (.error raised, world) := rfl

/-- A sequence of two calls passes when both do. -/
theorem passes_bind {call : LedgerCall First} {rest : First → LedgerCall Second} {world : World}
    {result : Second} :
    (alone image handle (call >>= rest) world).1 = .ok result ↔
      ∃ value after, alone image handle call world = (.ok value, after) ∧
        (alone image handle (rest value) after).1 = .ok result := by
  rw [alone_bind]
  rcases alone image handle call world with ⟨outcome, after⟩
  cases outcome with
  | ok value =>
      constructor
      · intro h
        exact ⟨value, after, rfl, h⟩
      · rintro ⟨_, _, hcall, h⟩
        cases hcall
        exact h
  | error raised => simp

theorem alone_orRaise (outcome : Except Raised First) (world : World) :
    alone image handle (orRaise outcome) world = (outcome, world) := by
  cases outcome <;> rfl

theorem alone_raiseIf (condition : Prop) [Decidable condition] (raised : Raised) (world : World) :
    alone image handle (raiseIf condition raised) world =
      if condition then (.error raised, world) else (.ok (), world) := by
  unfold raiseIf
  split <;> rfl

/-- A call goes on after an action that replied normally. -/
theorem alone_execute_bind {action : Action} {rest : Result action → LedgerCall Second}
    {world after : World} {value : Result action}
    (hperform : perform image handle action world = (.ok value, after)) :
    alone image handle (execute action >>= rest) world = alone image handle (rest value) after := by
  rw [alone_bind, alone_execute, hperform]

end Alone

/-! ## Phases -/

/-- The recovery that is prescribed for each phase. -/
def Phase.recoveryAction : Phase → String
  | absent => "NO_ACTION"
  | prepared => "ABORT_WITHOUT_EFFECT"
  | consumed => "BLOCK_NO_REDISPATCH"
  | result _ => "EMIT_TERMINAL_ONLY"
  | terminal _ => "COMPLETE_NO_REDISPATCH"

theorem Phase.state_row? (phase : Phase) :
    phase.row?.elim "ABSENT" (·.state.str) = phase.state := by
  cases phase <;> rfl

theorem Phase.lookup_recoveryActions (phase : Phase) :
    (Ledger.recoveryActions.lookup phase.state).getD "FAIL_CLOSED" = phase.recoveryAction := by
  cases phase <;> rfl

theorem Phase.dispatched_once (phase : Phase) : Ledger.dispatchedTwice phase.row? = .ok false := by
  cases phase <;> rfl

/-- The chain that `_append_event` builds is the chain that `verify` expects. -/
theorem checkChain_chainFrom (previous : String) (milestones : List String) :
    Ledger.checkChain (.text previous) (chainFrom previous milestones) = .ok () := by
  induction milestones generalizing previous with
  | nil => rfl
  | cons event rest ih =>
      rw [chainFrom, Ledger.checkChain, bind_eq_ok]
      refine ⟨_, rfl, ?_⟩
      rw [bind_eq_ok]
      refine ⟨(), failIf_eq_ok.mpr ?_, ih _⟩
      rintro (hprevious | hrecord)
      · exact hprevious rfl
      · exact hrecord rfl

/-! ## Reading -/

/-- What a handle reads off a ledger in this phase. -/
structure Shows (image : Database → Bytes) (handle : Handle) (world : World) (phase : Phase) :
    Prop where
  verify : alone image handle Ledger.verify world = (.ok (), world)
  state : alone image handle Ledger.state world = (.ok phase.state, world)
  recoveryAction :
    alone image handle Ledger.recoveryAction world = (.ok phase.recoveryAction, world)

section Reading

variable {image : Database → Bytes} {handle : Handle} {world : World} {database : Database}
  {phase : Phase}

/-- The rows of a database that holds this phase, when both tables are there. -/
theorem tables_of_holds (htables : database.HasTables) (hholds : database.Holds phase) :
    database.attempts = some phase.row?.toList ∧
      database.events = some (chainFrom zeroHash phase.milestones) := by
  obtain ⟨rows, hrows⟩ := Option.isSome_iff_exists.mp htables.attempts
  obtain ⟨events, hevents⟩ := Option.isSome_iff_exists.mp htables.events
  have hattempts := hholds.attempts
  have hchain := hholds.events
  rw [Database.attemptRows, hrows, Option.getD_some] at hattempts
  rw [Database.eventRows, hevents, Option.getD_some] at hchain
  rw [hrows, hevents, hattempts, hchain]
  exact ⟨rfl, rfl⟩

theorem selectAttempt_of_holds (htables : database.HasTables) (hholds : database.Holds phase) :
    database.selectAttempt = .ok phase.row? := by
  rw [Database.selectAttempt, Database.attemptsTable, (tables_of_holds htables hholds).1]
  exact congrArg Except.ok phase.find?_row?

theorem eventsTable_of_holds (htables : database.HasTables) (hholds : database.Holds phase) :
    database.eventsTable = .ok (chainFrom zeroHash phase.milestones) := by
  rw [Database.eventsTable, (tables_of_holds htables hholds).2]

theorem read_of_view {Value : Type} (hview : world.view handle = .ok database)
    (statement : Database → Except Raised Value) :
    world.read handle statement = statement database := by
  rw [World.read, hview]

variable (hview : world.view handle = .ok database) (htables : database.HasTables)
  (hholds : database.Holds phase)
include hview htables hholds

theorem alone_verify : alone image handle Ledger.verify world = (.ok (), world) := by
  have hevents : perform image handle .selectEvents world =
      (.ok (chainFrom zeroHash phase.milestones), world) := by
    rw [perform, read_of_view hview, eventsTable_of_holds htables hholds]
  have hattempt : perform image handle .selectAttempt world = (.ok phase.row?, world) := by
    rw [perform, read_of_view hview, selectAttempt_of_holds htables hholds]
  unfold Ledger.verify
  rw [alone_execute_bind rfl, alone_bind, alone_raiseIf, if_neg (by simp)]
  dsimp only
  rw [alone_execute_bind hevents, checkChain_chainFrom, alone_bind, alone_orRaise]
  dsimp only
  rw [alone_execute_bind hattempt, phase.dispatched_once, alone_bind, alone_orRaise]
  dsimp only
  rw [alone_raiseIf, if_neg Bool.false_ne_true]

theorem alone_state : alone image handle Ledger.state world = (.ok phase.state, world) := by
  have hattempt : perform image handle .selectAttempt world = (.ok phase.row?, world) := by
    rw [perform, read_of_view hview, selectAttempt_of_holds htables hholds]
  unfold Ledger.state
  rw [alone_execute_bind hattempt, alone_pure, phase.state_row?]

theorem shows_of_holds : Shows image handle world phase := by
  constructor
  · exact alone_verify hview htables hholds
  · exact alone_state hview htables hholds
  · unfold Ledger.recoveryAction
    rw [alone_bind, alone_state hview htables hholds]
    dsimp only
    rw [alone_pure, phase.lookup_recoveryActions]

end Reading

end Oasi.Broker
