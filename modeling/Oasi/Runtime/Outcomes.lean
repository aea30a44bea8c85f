import Oasi.Runtime.Exchanges
import Oasi.Runtime.Run

/-! # Operations up to their devices

What an operation does to the runtime's fields and which effects it has depends
on the two devices only through the success of their calls. The rules below
execute an operation on the fields alone: a call of the ledger may fail or
succeed, and a transaction may be answered or not.
-/

namespace Oasi

/-- A ledger call made with these fields. -/
def RuntimeState.calls (state : RuntimeState) (operation : LedgerOperation) : Effect :=
  .recorded operation state.body state.activeLease

/-- A record call that names the current body. -/
def RuntimeState.records (state : RuntimeState) (event detail : String) (decision : Decision)
    (lease : Option SafetyLease) : Effect :=
  state.calls (.record event detail decision state.body lease)

/-- The world after a ledger call. -/
def World.called (world : World) (operation : LedgerOperation) (ledger : Ledger) : World :=
  { world with
    runtime := { world.runtime with ledger := ledger }
    effects := world.effects ++ [world.runtime.calls operation] }

namespace Runtime

variable {α β : Type}

/-- A ledger call leaves everything but the ledger and the log as it was. -/
theorem callLedger_ends (operation : LedgerOperation) (world : World) :
    Ends (callLedger operation) world
      (fun _ after => ∃ ledger, after = world.called operation ledger)
      (fun _ after => ∃ ledger, after = world.called operation ledger) := by
  rw [callLedger, ends_bind, ends_modify, ends_onPart]
  exact ends_iff.mpr ⟨fun _ ledger _ => ⟨ledger, rfl⟩, fun _ ledger _ => ⟨ledger, rfl⟩⟩

/-- Whatever the devices do, the operation ends in these ways from these fields
and effects. -/
def Runs (operation : Operation α) (nowNs : UInt64) (state : RuntimeState) (effects : List Effect)
    (done : α → RuntimeState → List Effect → Prop)
    (failed : RuntimeState → List Effect → Prop) : Prop :=
  ∀ world : World, world.runtime.toRuntimeState = state → world.effects = effects →
    world.surroundings.nowNs = nowNs →
    Ends operation world
      (fun value after => after.surroundings = world.surroundings ∧
        done value after.runtime.toRuntimeState after.effects)
      (fun _ after => failed after.runtime.toRuntimeState after.effects)

section Rules

variable {nowNs : UInt64} {state : RuntimeState} {effects : List Effect}
  {done : α → RuntimeState → List Effect → Prop} {failed : RuntimeState → List Effect → Prop}

/-- What is promised of a run may be weakened. -/
theorem Runs.mono {operation : Operation α} {done' : α → RuntimeState → List Effect → Prop}
    {failed' : RuntimeState → List Effect → Prop}
    (h : Runs operation nowNs state effects done failed)
    (hdone : ∀ value state effects, done value state effects → done' value state effects)
    (hfailed : ∀ state effects, failed state effects → failed' state effects) :
    Runs operation nowNs state effects done' failed' := fun world hstate heffects hnow =>
  (h world hstate heffects hnow).mono
    (fun _ _ hafter => ⟨hafter.1, hdone _ _ _ hafter.2⟩) (fun _ _ hafter => hfailed _ _ hafter)

/-- A sequence runs its first part and then the second. -/
theorem runs_bind {first : Operation β} {second : β → Operation α}
    (h : Runs first nowNs state effects
      (fun value state effects => Runs (second value) nowNs state effects done failed) failed) :
    Runs (first >>= second) nowNs state effects done failed := by
  intro world hstate heffects hnow
  rw [ends_bind]
  refine (h world hstate heffects hnow).imp ?_
  rintro value middle ⟨hsurroundings, hsecond⟩
  have hends := hsecond middle rfl rfl (hsurroundings ▸ hnow)
  rwa [hsurroundings] at hends

/-- A value alone does nothing. -/
theorem runs_pure {value : α} (h : done value state effects) :
    Runs (pure value) nowNs state effects done failed := by
  rintro world rfl rfl _
  exact ⟨rfl, h⟩

/-- An error does nothing, and fails. -/
theorem runs_throw {error : IoError} (h : failed state effects) :
    Runs (throw error : Operation α) nowNs state effects done failed := by
  rintro world rfl rfl _
  exact h

/-- Reading the state does nothing. -/
theorem runs_self {second : RuntimeState → Operation α}
    (h : Runs (second state) nowNs state effects done failed) :
    Runs (self >>= second) nowNs state effects done failed := by
  refine runs_bind ?_
  rintro world rfl rfl _
  simpa [self] using h

/-- Reading the clock does nothing. -/
theorem runs_monotonicNs {second : UInt64 → Operation α}
    (h : Runs (second nowNs) nowNs state effects done failed) :
    Runs (monotonicNs >>= second) nowNs state effects done failed := by
  refine runs_bind ?_
  rintro world rfl rfl rfl
  simpa [monotonicNs] using h

/-- A change of the state has no effects. -/
theorem runs_update {change : RuntimeState → RuntimeState} {second : PUnit → Operation α}
    (h : Runs (second ⟨⟩) nowNs (change state) effects done failed) :
    Runs (update change >>= second) nowNs state effects done failed := by
  refine runs_bind ?_
  rintro world rfl rfl _
  simpa [update] using h

/-- A result goes on with its value, or fails with its error. -/
theorem runs_liftResult {result : Except IoError β} {second : β → Operation α}
    (hdone : ∀ value, result = .ok value → Runs (second value) nowNs state effects done failed)
    (hfailed : failed state effects) :
    Runs (liftResult result >>= second) nowNs state effects done failed := by
  refine runs_bind ?_
  rintro world rfl rfl _
  rw [ends_liftResult]
  exact ⟨fun value hvalue => ⟨rfl, hdone value hvalue⟩, fun _ _ => hfailed⟩

/-- A value that may be missing goes on when it is found. -/
theorem runs_orThrow {value : Option β} {error : IoError} {second : β → Operation α}
    (hdone : ∀ found, value = some found → Runs (second found) nowNs state effects done failed)
    (hfailed : failed state effects) :
    Runs (orThrow value error >>= second) nowNs state effects done failed := by
  refine runs_bind ?_
  rintro world rfl rfl _
  rw [ends_orThrow]
  exact ⟨fun found hfound => ⟨rfl, hdone found hfound⟩, fun _ => hfailed⟩

/-- A nonce is the checked successor, and there is an error without one. -/
theorem runs_nextTransactionNonce {second : UInt64 → Operation α}
    (hdone : ∀ nonce, checkedSucc state.transactionNonce = some nonce →
      Runs (second nonce) nowNs (state.withNonce nonce) effects done failed)
    (hfailed : failed state effects) :
    Runs (nextTransactionNonce >>= second) nowNs state effects done failed := by
  simp only [nextTransactionNonce, bind_assoc, pure_bind]
  refine runs_self (runs_liftResult (fun nonce hnonce => runs_update (hdone nonce ?_)) hfailed)
  unfold checkedCounterIncrement at hnonce
  split at hnonce
  next next hnext =>
    cases hnonce
    exact hnext
  next => cases hnonce

/-! ## Devices -/

/-- A call of the ledger is one effect, whether it succeeds or not. -/
theorem runs_callLedger {operation : LedgerOperation}
    {done : Unit → RuntimeState → List Effect → Prop}
    (hdone : done () state (effects ++ [state.calls operation]))
    (hfailed : failed state (effects ++ [state.calls operation])) :
    Runs (callLedger operation) nowNs state effects done failed := by
  rintro world rfl rfl _
  refine (callLedger_ends operation world).mono ?_ ?_
  · rintro _ _ ⟨ledger, rfl⟩
    exact ⟨rfl, hdone⟩
  · rintro _ _ ⟨ledger, rfl⟩
    exact hfailed

/-- A record is one effect, whether it succeeds or not. -/
theorem runs_record {event detail : String} {decision : Decision} {lease : Option SafetyLease}
    {done : Unit → RuntimeState → List Effect → Prop}
    (hdone : done () state (effects ++ [state.records event detail decision lease]))
    (hfailed : failed state (effects ++ [state.records event detail decision lease])) :
    Runs (record event detail decision state.body lease) nowNs state effects done failed :=
  runs_callLedger hdone hfailed

/-- What is done on the child adds its effects. -/
theorem runs_onChild {child : ChildProcess} {action : Connection.Action Unit}
    {answered unanswered : List Effect → Prop}
    {done : Except IoError Unit → RuntimeState → List Effect → Prop}
    (haction : ∀ connection, Ends action connection
      (fun _ after => ∃ more, after.effects = connection.effects ++ more ∧ answered more)
      (fun _ after => ∃ more, after.effects = connection.effects ++ more ∧ unanswered more))
    (hanswered : ∀ more, answered more → done (.ok ()) state (effects ++ more))
    (hunanswered : ∀ error more, unanswered more → done (.error error) state (effects ++ more)) :
    Runs (onChild child action) nowNs state effects done failed := by
  rintro world rfl rfl _
  rw [onChild, ends_onPart, ends_attempt]
  refine (haction ⟨child, world.effects⟩).mono ?_ ?_
  · rintro _ after ⟨more, hmore, hdone⟩
    exact ⟨rfl, hmore ▸ hanswered more hdone⟩
  · rintro error after ⟨more, hmore, hdone⟩
    exact ⟨rfl, hmore ▸ hunanswered error more hdone⟩

/-- An exchange is answered, or not, or has no child to speak to. -/
theorem runs_transact {unavailable command : String} {expected : BoundExpectedAck}
    {done : Except IoError Unit → RuntimeState → List Effect → Prop}
    (hunavailable : failed state effects)
    (hanswered : ∀ more, Answered command expected more → done (.ok ()) state (effects ++ more))
    (hunanswered : ∀ error more, Unanswered command more →
      done (.error error) state (effects ++ more)) :
    Runs (transact unavailable command expected) nowNs state effects done failed := by
  rintro world hstate heffects hnow
  simp only [transact, ends_bind, ends_get, ends_orThrow]
  refine ⟨fun child _ => ?_, fun _ => hstate ▸ heffects ▸ hunavailable⟩
  refine @runs_onChild _ _ _ _ child _ (Answered command expected) (Unanswered command) _
    (fun connection => ?_) hanswered hunanswered world hstate heffects hnow
  refine (Connection.transactBound_ends _ command expected connection).mono ?_ ?_
  · rintro _ after ⟨line, _, hline, hafter, _⟩
    exact ⟨_, hafter, _, _, line, hline, rfl⟩
  · rintro _ after ⟨more, hafter, hmore⟩
    exact ⟨more, hafter, hmore⟩

end Rules

end Runtime

/-- The effects of stopping the child. -/
def Stopped (command : String) (expected : BoundExpectedAck) (effects : List Effect) : Prop :=
  ∃ exchanged remaining, Answered command expected exchanged ∧
    effects = exchanged ++ deliveries remaining

/-- The effects of an attempt to stop the child that failed. -/
def Unstopped (command : String) (expected : BoundExpectedAck) (effects : List Effect) : Prop :=
  Unanswered command effects ∨ Stopped command expected effects

namespace Connection

/-- Effects that are all deliveries are the deliveries of their messages. -/
theorem eq_deliveries {effects : List Effect}
    (h : ∀ effect ∈ effects, ∃ message, effect = .delivered message) :
    ∃ messages, effects = deliveries messages := by
  induction effects with
  | nil => exact ⟨[], rfl⟩
  | cons effect rest ih =>
      obtain ⟨message, rfl⟩ := h effect List.mem_cons_self
      obtain ⟨messages, rfl⟩ := ih fun other hother => h other (List.mem_cons_of_mem _ hother)
      exact ⟨message :: messages, rfl⟩

/-- A stop that comes through has its acknowledgement and the exit of the child. -/
theorem stopBound_ends (exchange : Exchange) (exit : ExitWait) (id nonce : UInt64)
    (authority : AuthoritySnapshot) (connection : Connection) :
    Ends (stopBound exchange exit id nonce authority) connection
      (fun _ after => ∃ more, after.effects = connection.effects ++ more ∧
        Stopped (boundStopRequest id nonce authority) (.stop id nonce authority) more)
      (fun _ after => ∃ more, after.effects = connection.effects ++ more ∧
        Unstopped (boundStopRequest id nonce authority) (.stop id nonce authority) more) := by
  simp only [stopBound, ends_bind]
  refine (transactBound_ends exchange _ _ connection).mono ?_ ?_
  · rintro _ middle ⟨line, _, hline, hmiddle, _⟩
    have hanswered : Answered (boundStopRequest id nonce authority) (.stop id nonce authority)
        _ := ⟨exchange.early, exchange.late, line, hline, rfl⟩
    refine (waitForCleanExit_ends exit middle).mono ?_ ?_
    · rintro _ after ⟨hafter, _⟩
      exact ⟨_, by rw [hafter, hmiddle, List.append_assoc], _, _, hanswered, rfl⟩
    · rintro _ after ⟨more, hafter, hmore⟩
      obtain ⟨messages, rfl⟩ := eq_deliveries hmore
      exact ⟨_, by rw [hafter, hmiddle, List.append_assoc], .inr ⟨_, _, hanswered, rfl⟩⟩
  · rintro _ after ⟨more, hafter, hmore⟩
    exact ⟨more, hafter, .inl hmore⟩

end Connection

/-- Stopping the child is answered, or not, or has no child to speak to. -/
theorem Runtime.runs_stopChild {nowNs : UInt64} {state : RuntimeState} {effects : List Effect}
    {failed : RuntimeState → List Effect → Prop} {id nonce : UInt64} {authority : AuthoritySnapshot}
    {done : Except IoError Unit → RuntimeState → List Effect → Prop}
    (hunavailable : failed state effects)
    (hstopped : ∀ more, Stopped (boundStopRequest id nonce authority) (.stop id nonce authority)
      more → done (.ok ()) state (effects ++ more))
    (hunstopped : ∀ error more, Unstopped (boundStopRequest id nonce authority)
      (.stop id nonce authority) more → done (.error error) state (effects ++ more)) :
    Runs (stopChild id nonce authority) nowNs state effects done failed := by
  rintro world hstate heffects hnow
  simp only [stopChild, ends_bind, ends_get, ends_orThrow, ends_modify, ends_pure]
  refine ⟨fun child _ => ?_, fun _ => hstate ▸ heffects ▸ hunavailable⟩
  exact runs_onChild (fun connection => Connection.stopBound_ends _ _ id nonce authority connection)
    hstopped hunstopped world hstate heffects hnow

end Oasi
