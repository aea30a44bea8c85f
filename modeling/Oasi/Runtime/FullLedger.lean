import Oasi.Runtime.Calm
import Oasi.Runtime.Transactions

/-! # A ledger that may be full

Everything but the ledger is calm. An operation may stop at a ledger call that is refused,
or earlier at a check of its own. Wherever it stops, every request that was sent has been
answered, and the fields account for what the child has counted.
-/

namespace Oasi

/-- A ledger call that succeeds on a healthy file leaves it healthy, and a record call does
not seal the ledger. -/
theorem Ledger.perform_healthy {ledger : Ledger} (operation : LedgerOperation)
    (hhealthy : ledger.writer.file.Healthy) :
    Ends (Ledger.perform operation) ledger
      (fun _ after => after.writer.file.Healthy ∧
        (operation.IsRecord → after.isSealed = ledger.isSealed))
      (fun _ _ => True) := by
  refine (Ledger.perform_ends ledger operation).mono ?_ (fun _ _ _ => trivial)
  rintro _ after ⟨⟨written, hnext, happended⟩, hkept⟩
  refine ⟨hkept hhealthy, fun hrecord => ?_⟩
  have hcursor := happended.cursor
  -- only an entry of the kind seal seals the ledger
  have hkind : written.kind = .event := by
    cases hkind : written.kind with
    | event => rfl
    | «seal» =>
        obtain ⟨_, _, _, _, _, rfl⟩ := hrecord
        obtain ⟨_, _, hseal⟩ := (Ledger.nextEntry_kind hnext).mp hkind
        cases hseal
  simp only [Ledger.cursor, Cursor.advance, hkind, Cursor.mk.injEq] at hcursor
  rw [hcursor.2.2.2]
  simp

/-- What is known at a moment of an operation: the fields, whether there is a child, and the
commands that were sent. -/
structure Moment where
  state : RuntimeState
  attended : Bool
  sent : List String

/-- The world is at the moment; the ledger is not sealed before the child was stopped. -/
structure World.Meets (world : World) (surroundings : Surroundings) (moment : Moment) : Prop where
  state : world.runtime.toRuntimeState = moment.state
  surroundings : world.surroundings = surroundings
  healthy : world.runtime.ledger.writer.file.Healthy
  unsealed : moment.attended = true → world.runtime.ledger.isSealed = false
  attended : world.runtime.child.isSome = moment.attended
  child : ∀ child, world.runtime.child = some child → child.Attended
  sent : sentIn world.effects = moment.sent
  accepted : (acceptedIn world.effects).length = moment.sent.length

/-- Every request was answered, and the count is what it is for the child. -/
structure World.Balanced (count : List String → UInt64) (world : World) : Prop where
  accepted : (acceptedIn world.effects).length = (sentIn world.effects).length
  counted : world.runtime.metrics.childActions = count (sentIn world.effects)

namespace Runtime

variable {α β : Type}

/-- The operation returns at a moment that it promises, or stops in a balanced world. -/
def StopsBalanced (count : List String → UInt64) (operation : Operation α)
    (surroundings : Surroundings) (moment : Moment) (done : α → Moment → Prop) : Prop :=
  ∀ world : World, world.Meets surroundings moment →
    Ends operation world
      (fun value after => ∃ moment, after.Meets surroundings moment ∧ done value moment)
      (fun _ after => after.Balanced count)

/-- The fields account for what was sent so far. -/
def InStep (count : List String → UInt64) (moment : Moment) : Prop :=
  moment.state.metrics.childActions = count moment.sent

section Rules

variable {count : List String → UInt64} {surroundings : Surroundings} {moment : Moment}
  {done : α → Moment → Prop}

/-- A world that meets a moment in step is balanced. -/
theorem balanced_of_inStep {world : World} (hworld : world.Meets surroundings moment)
    (hstep : InStep count moment) : world.Balanced count where
  accepted := hworld.accepted.trans (congrArg List.length hworld.sent.symm)
  counted := by
    rw [hworld.sent, ← hstep, ← hworld.state]

/-- A value alone stops where it is. -/
theorem stops_pure {value : α} (h : done value moment) :
    StopsBalanced count (pure value) surroundings moment done :=
  fun _ hworld => ⟨moment, hworld, h⟩

/-- An error may stop a moment that is in step. -/
theorem stops_throw {error : IoError} (hstep : InStep count moment) :
    StopsBalanced count (throw error : Operation α) surroundings moment done :=
  fun _ hworld => balanced_of_inStep hworld hstep

/-- What stops balanced may be followed by what does so from there. -/
theorem stops_bind {first : Operation β} {second : β → Operation α}
    (h : StopsBalanced count first surroundings moment fun value moment =>
      StopsBalanced count (second value) surroundings moment done) :
    StopsBalanced count (first >>= second) surroundings moment done := by
  intro world hworld
  rw [ends_bind]
  refine (h world hworld).imp ?_
  rintro value middle ⟨moment, hmiddle, hsecond⟩
  exact hsecond middle hmiddle

/-- Reading the state keeps the moment. -/
theorem stops_self {second : RuntimeState → Operation α}
    (h : StopsBalanced count (second moment.state) surroundings moment done) :
    StopsBalanced count (self >>= second) surroundings moment done := by
  refine stops_bind fun world hworld => ?_
  simp only [self, ends_bind, ends_get, ends_pure, hworld.state]
  exact ⟨moment, hworld, h⟩

/-- Reading the clock keeps the moment. -/
theorem stops_monotonicNs {second : UInt64 → Operation α}
    (h : StopsBalanced count (second surroundings.nowNs) surroundings moment done) :
    StopsBalanced count (monotonicNs >>= second) surroundings moment done := by
  refine stops_bind fun world hworld => ?_
  simp only [monotonicNs, ends_bind, ends_get, ends_pure, hworld.surroundings]
  exact ⟨moment, hworld, h⟩

/-- A change of the state moves the moment. -/
theorem stops_update {change : RuntimeState → RuntimeState} {second : PUnit → Operation α}
    (h : StopsBalanced count (second ⟨⟩) surroundings
      { moment with state := change moment.state } done) :
    StopsBalanced count (update change >>= second) surroundings moment done := by
  refine stops_bind fun world hworld => ?_
  rw [update, ends_modify]
  refine ⟨{ moment with state := change moment.state }, ?_, h⟩
  exact { hworld with state := congrArg change hworld.state }

/-- A check may fail wherever the fields are in step. -/
theorem stops_liftResult {result : Except IoError β} {second : β → Operation α}
    (hstep : InStep count moment)
    (h : ∀ value, result = .ok value →
      StopsBalanced count (second value) surroundings moment done) :
    StopsBalanced count (liftResult result >>= second) surroundings moment done := by
  cases result with
  | ok value => exact stops_bind (stops_pure (h value rfl))
  | error error => exact stops_bind (stops_throw hstep)

/-- A value that may be missing is an error of a moment in step, or found. -/
theorem stops_orThrow {value : Option β} {error : IoError} {second : β → Operation α}
    (hstep : InStep count moment)
    (h : ∀ found, value = some found →
      StopsBalanced count (second found) surroundings moment done) :
    StopsBalanced count (orThrow value error >>= second) surroundings moment done := by
  cases value with
  | some found => exact stops_bind (stops_pure (h found rfl))
  | none => exact stops_bind (stops_throw hstep)

/-- A value that is there is found. -/
theorem stops_found {value : Option β} {found : β} {error : IoError} {second : β → Operation α}
    (hvalue : value = some found)
    (h : StopsBalanced count (second found) surroundings moment done) :
    StopsBalanced count (orThrow value error >>= second) surroundings moment done := by
  rw [hvalue]
  exact stops_bind (stops_pure h)

/-- A nonce is the checked successor, or its absence an error of a moment in step. -/
theorem stops_nextTransactionNonce {second : UInt64 → Operation α} (hstep : InStep count moment)
    (h : ∀ nonce, checkedSucc moment.state.transactionNonce = some nonce →
      StopsBalanced count (second nonce) surroundings
        { moment with state := moment.state.withNonce nonce } done) :
    StopsBalanced count (nextTransactionNonce >>= second) surroundings moment done := by
  simp only [nextTransactionNonce, bind_assoc, pure_bind]
  exact stops_self (stops_liftResult hstep fun nonce hnonce =>
    stops_update (h nonce (checkedCounterIncrement_eq_ok hnonce)))

/-- A ledger call may be refused. -/
theorem stops_callLedger {operation : LedgerOperation} {done : Unit → Moment → Prop}
    (hrecord : moment.attended = true → operation.IsRecord) (hstep : InStep count moment)
    (h : done () moment) :
    StopsBalanced count (callLedger operation) surroundings moment done := by
  intro world hworld
  have hbalanced := balanced_of_inStep hworld hstep
  rw [callLedger, ends_bind, ends_modify, ends_onPart]
  refine (Ledger.perform_healthy operation hworld.healthy).mono ?_ ?_
  -- the call is noted either way, and is no request
  · rintro _ ledger ⟨hhealthy, hkept⟩
    refine ⟨moment, ?_, h⟩
    exact { hworld with
      healthy := hhealthy
      unsealed := fun hattended => (hkept (hrecord hattended)).trans (hworld.unsealed hattended)
      sent := by simp [hworld.sent]
      accepted := by simp [hworld.accepted] }
  · intro error ledger _
    exact ⟨by simpa using hbalanced.accepted, by simpa using hbalanced.counted⟩

/-- A record without faults keeps the moment. -/
theorem stops_record {event detail : String} {decision : Decision} {body : BodyState}
    {lease : Option SafetyLease} {done : Unit → Moment → Prop} (hstep : InStep count moment)
    (h : done () moment) :
    StopsBalanced count (record event detail decision body lease) surroundings moment done :=
  stops_callLedger (fun _ => ⟨event, detail, decision, body, lease, rfl⟩) hstep h

/-- A request that is answered. -/
theorem stops_transact {unavailable command : String} {expected : BoundExpectedAck}
    {done : Except IoError Unit → Moment → Prop} (hattended : moment.attended = true)
    (hanswers : (surroundings.exchange command).Answers expected)
    (h : done (.ok ()) { moment with sent := moment.sent ++ [command] }) :
    StopsBalanced count (transact unavailable command expected) surroundings moment done := by
  intro world hworld
  obtain ⟨child, hchild⟩ := Option.isSome_iff_exists.mp (hworld.attended.trans hattended)
  simp only [transact, ends_bind, ends_get, hchild, orThrow, ends_pure, onChild, ends_onPart,
    ends_attempt, hworld.surroundings]
  refine ((@Connection.transactBound_answered _ command _ ⟨child, world.effects⟩
    (hworld.child child hchild) hanswers).and (Connection.transactBound_ends _ _ _ _)).mono ?_
    (fun _ _ hfalse => hfalse.1.elim)
  rintro _ after ⟨hafter, line, rest, _, heffects, _⟩
  refine ⟨{ moment with sent := moment.sent ++ [command] }, ?_, h⟩
  exact {
    state := hworld.state
    surroundings := rfl
    healthy := hworld.healthy
    unsealed := hworld.unsealed
    attended := hattended.symm
    child := by
      rintro _ ⟨⟩
      exact hafter
    sent := by simp [heffects, hworld.sent]
    accepted := by simp [heffects, hworld.accepted] }

/-- A STOP that is answered by a child that exits. -/
theorem stops_stopChild {id nonce : UInt64} {authority : AuthoritySnapshot}
    {done : Except IoError Unit → Moment → Prop} (hattended : moment.attended = true)
    (hanswers : (surroundings.exchange (boundStopRequest id nonce authority)).Answers
      (.stop id nonce authority))
    (hclean : (surroundings.exit (boundStopRequest id nonce authority)).Clean)
    (h : done (.ok ()) { moment with
      attended := false, sent := moment.sent ++ [boundStopRequest id nonce authority] }) :
    StopsBalanced count (stopChild id nonce authority) surroundings moment done := by
  intro world hworld
  obtain ⟨child, hchild⟩ := Option.isSome_iff_exists.mp (hworld.attended.trans hattended)
  simp only [stopChild, Connection.stopBound, ends_bind, ends_get, hchild, orThrow, ends_pure,
    onChild, ends_onPart, ends_attempt, ends_modify, hworld.surroundings]
  refine ((@Connection.transactBound_answered _ _ _ ⟨child, world.effects⟩
    (hworld.child child hchild) hanswers).and (Connection.transactBound_ends _ _ _ _)).mono ?_
    (fun _ _ hfalse => hfalse.1.elim)
  rintro _ answered ⟨hanswered, line, rest, _, heffects, _⟩
  refine ((Connection.waitForCleanExit_clean hanswered hclean).and
    (Connection.waitForCleanExit_ends _ _)).mono ?_ (fun _ _ hfalse => hfalse.1.elim)
  rintro _ after ⟨_, hafter, _⟩
  refine ⟨{ moment with
    attended := false, sent := moment.sent ++ [boundStopRequest id nonce authority] }, ?_, h⟩
  exact {
    state := hworld.state
    surroundings := rfl
    healthy := hworld.healthy
    unsealed := fun hattended => absurd hattended Bool.false_ne_true
    attended := rfl
    child := by simp
    sent := by simp [hafter, heffects, hworld.sent]
    accepted := by simp [hafter, heffects, hworld.accepted] }

end Rules

/-! ## The operations -/

section Operations

variable {count : List String → UInt64} {surroundings : Surroundings} {state : RuntimeState}

/-- The moment at which an operation starts. -/
def opening (state : RuntimeState) : Moment := ⟨state, true, []⟩

/-- Wherever the operation ends, the world is balanced, and the child is still attended. -/
def KeepsBalance (count : List String → UInt64) (operation : Operation Unit)
    (surroundings : Surroundings) (state : RuntimeState) : Prop :=
  StopsBalanced count operation surroundings (opening state) fun _ moment =>
    InStep count moment ∧ moment.attended = true

/-- A begin sends nothing and keeps the balance. -/
theorem keepsBalance_begin (hstart : state.metrics.childActions = count []) :
    KeepsBalance count begin surroundings state := by
  refine stops_self ?_
  dsimp only [opening]
  split
  next => exact stops_throw hstart
  next => exact stops_update (stops_record hstart ⟨hstart, rfl⟩)

/-- A quarantine keeps the balance when its rollback counts nothing and is answered. -/
theorem keepsBalance_quarantine {reason : String}
    (hstart : state.metrics.childActions = count [])
    (hcount : ∀ order : RollbackOrder state, count [order.command] = count [])
    (hanswers : ∀ order : RollbackOrder state,
      (surroundings.exchange order.command).Answers order.expected) :
    KeepsBalance count (quarantine reason) surroundings state := by
  refine stops_update (stops_self (stops_orThrow hstart fun rollbacks hrollbacks => ?_))
  refine stops_update (stops_self (stops_bind (stops_record hstart ?_)))
  refine stops_self (stops_nextTransactionNonce hstart fun nonce hnonce => stops_self ?_)
  let order : RollbackOrder state := ⟨rollbacks, nonce, hrollbacks, hnonce⟩
  have hanswered : state.metrics.childActions = count [order.command] :=
    hstart.trans (hcount order).symm
  refine stops_bind (stops_transact rfl (hanswers order) ?_)
  exact stops_update (stops_self (stops_record hanswered ⟨hanswered, rfl⟩))

/-- A reset keeps the balance when its rollback counts nothing and is answered. -/
theorem keepsBalance_reset (hstart : state.metrics.childActions = count [])
    (hcount : ∀ state (order : RollbackOrder state), count [order.command] = count [])
    (hanswers : ∀ epoch generation,
      ∀ order : RollbackOrder ((state.withEpoch epoch).withGeneration generation),
        (surroundings.exchange order.command).Answers order.expected) :
    KeepsBalance count reset surroundings state := by
  refine stops_self (stops_orThrow hstart fun epoch _ => stops_update ?_)
  refine stops_self (stops_orThrow hstart fun generation _ => stops_update ?_)
  exact @keepsBalance_quarantine count surroundings
    ((state.withEpoch epoch).withGeneration generation) _ hstart (hcount _)
    (hanswers epoch generation)

/-- The one count that both sides advance is that of an allowed commit; the parent's other
counters must not run out behind it. -/
theorem keepsBalance_commit (hstart : state.metrics.childActions = count [])
    (hcommits : (checkedSucc state.metrics.allowedCommits).isSome = true)
    (hcount : ∀ order : WorkOrder state, count [order.command] = order.actions)
    (hanswers : ∀ order : WorkOrder state,
      (surroundings.exchange order.command).Answers order.expected) :
    KeepsBalance count commit surroundings state := by
  obtain ⟨allowedCommits, hcommits⟩ := Option.isSome_iff_exists.mp hcommits
  refine stops_self (stops_monotonicNs (stops_update ?_))
  show StopsBalanced count (if state.commitDecision surroundings.nowNs = .allow then
      commitAllowed (state.commitDecision surroundings.nowNs)
    else commitBlocked (state.commitDecision surroundings.nowNs)) surroundings
    (opening (state.consumed surroundings.nowNs)) _
  by_cases hallowed : state.commitDecision surroundings.nowNs = .allow
  · rw [if_pos hallowed]
    refine stops_self (stops_liftResult hstart fun id hid => ?_)
    refine stops_orThrow hstart fun actions hactions => ?_
    refine stops_orThrow hstart fun units hunits => ?_
    refine stops_nextTransactionNonce hstart fun nonce hnonce => stops_self ?_
    let order : WorkOrder state :=
      ⟨id, actions, units, nonce, checkedCounterIncrement_eq_ok hid, hactions, hunits, hnonce⟩
    have hanswered : actions = count [order.command] := (hcount order).symm
    refine stops_bind (stops_transact rfl (hanswers order) ?_)
    -- the child has counted the action, and the parent does so next
    refine stops_bind (stops_pure (stops_self (stops_found hcommits ?_)))
    refine stops_update (stops_self (stops_bind (stops_record hanswered ?_)))
    exact stops_record hanswered ⟨hanswered, rfl⟩
  · rw [if_neg hallowed]
    exact stops_update (stops_self (stops_record hstart ⟨hstart, rfl⟩))

/-- A probe keeps the balance when it counts nothing and is answered. -/
theorem keepsBalance_functionalFreshnessProbe (hstart : state.metrics.childActions = count [])
    (hcount : ∀ order : ProbeOrder state, count [order.command] = count [])
    (hanswers : ∀ order : ProbeOrder state,
      (surroundings.exchange order.command).Answers order.expected) :
    KeepsBalance count functionalFreshnessProbe surroundings state := by
  refine stops_update (stops_self ?_)
  by_cases hrefused : state.countProbe.body.quarantined = false ∨
      state.countProbe.rollbackConfirmed = false
  · refine (if_pos hrefused).symm ▸ ?_
    exact stops_record hstart ⟨hstart, rfl⟩
  · refine (if_neg hrefused).symm ▸ ?_
    refine stops_self (stops_orThrow hstart fun certificate hcertificate => ?_)
    refine stops_self (stops_orThrow hstart fun generation hgeneration => ?_)
    refine stops_nextTransactionNonce hstart fun nonce hnonce => stops_self (stops_self ?_)
    let order : ProbeOrder state :=
      ⟨certificate, generation, nonce, hcertificate, hgeneration, hnonce⟩
    have hanswered : state.metrics.childActions = count [order.command] :=
      hstart.trans (hcount order).symm
    refine stops_bind (stops_record hstart (stops_bind (stops_transact rfl (hanswers order) ?_)))
    -- the new lease may still be refused, after the answer
    refine stops_bind (stops_pure (stops_self (stops_monotonicNs ?_)))
    refine stops_liftResult hanswered fun validUntilNs _ => ?_
    refine stops_update (stops_update (stops_self (stops_bind (stops_record hanswered ?_))))
    exact stops_record hanswered ⟨hanswered, rfl⟩

/-- The end stops balanced when its stop counts nothing and is answered. -/
theorem stopsBalanced_conclude (hstart : state.metrics.childActions = count [])
    (hcount : ∀ nonce,
      count [boundStopRequest state.actionCounter nonce state.authoritySnapshot] = count [])
    (hanswers : ∀ nonce,
      (surroundings.exchange
        (boundStopRequest state.actionCounter nonce state.authoritySnapshot)).Answers
          (.stop state.actionCounter nonce state.authoritySnapshot) ∧
      (surroundings.exit
        (boundStopRequest state.actionCounter nonce state.authoritySnapshot)).Clean) :
    StopsBalanced count conclude surroundings (opening state) fun _ moment =>
      InStep count moment := by
  refine stops_self (stops_nextTransactionNonce hstart fun nonce _ => stops_self ?_)
  have hanswered := hstart.trans (hcount nonce).symm
  obtain ⟨hanswer, hclean⟩ := hanswers nonce
  refine stops_bind (stops_stopChild rfl hanswer hclean ?_)
  -- the child is gone, and so are the checks that it needs
  refine stops_bind (stops_pure (stops_update (stops_self (stops_bind ?_))))
  refine stops_record hanswered (stops_bind ?_)
  exact stops_callLedger nofun hanswered (stops_pure hanswered)

end Operations

/-! ## Turns -/

/-- The child is attended and the ledger is open, full or not. -/
structure Attending (runtime : Runtime) : Prop where
  healthy : runtime.ledger.writer.file.Healthy
  unsealed : runtime.ledger.isSealed = false
  attended : runtime.child.isSome = true
  child : ∀ child, runtime.child = some child → child.Attended

section Turns

variable {count : List String → UInt64} {runtime : Runtime} {occurrence : Occurrence}

/-- A runtime that attends meets its surroundings at the opening moment. -/
theorem Attending.meets (h : Attending runtime)
    (houtcomes : ∀ outcome ∈ occurrence.surroundings.ledgerOutcomes, ¬outcome.Fails) :
    World.Meets ⟨runtime.facing occurrence.surroundings.ledgerOutcomes, occurrence.surroundings, []⟩
      occurrence.surroundings (opening runtime.toRuntimeState) where
  state := rfl
  surroundings := rfl
  healthy := houtcomes
  unsealed := fun _ => h.unsealed
  attended := h.attended
  child := h.child
  sent := rfl
  accepted := rfl

/-- What a turn did, balanced. -/
def BalancedTurn (count : List String → UInt64) (turn : Turn) : Prop :=
  (acceptedIn turn.output.effects).length = (sentIn turn.output.effects).length ∧
    turn.after.metrics.childActions = count (sentIn turn.output.effects)

/-- A turn that does not end the run is balanced when its operation keeps the balance, and the
runtime attends on unless it ends. -/
theorem balanced_transition (h : Attending runtime)
    (houtcomes : ∀ outcome ∈ occurrence.surroundings.ledgerOutcomes, ¬outcome.Fails)
    (hsignal : ¬occurrence.signal.Ends)
    (hkeeps : KeepsBalance count (operationOf occurrence.signal) occurrence.surroundings
      runtime.toRuntimeState) :
    BalancedTurn count (runtimeMachine.transition runtime occurrence) ∧
      ((runtimeMachine.transition runtime occurrence).output.ends = false →
        Attending (runtimeMachine.transition runtime occurrence).after) := by
  have hturn : Ends (turn occurrence.signal)
      ⟨runtime.facing occurrence.surroundings.ledgerOutcomes, occurrence.surroundings, []⟩
      (fun _ after => after.Balanced count ∧ Attending after.runtime)
      (fun _ after => after.Balanced count) := by
    rw [turn_of_not_ends hsignal, ends_bind]
    refine (hkeeps _ (h.meets houtcomes)).imp ?_
    rintro _ after ⟨moment, hmeets, hstep, hattended⟩
    exact ⟨balanced_of_inStep hmeets hstep, hmeets.healthy, hmeets.unsealed hattended,
      hmeets.attended.trans hattended, hmeets.child⟩
  unfold Ends at hturn
  split at hturn
  next value after hvalue =>
    simp only [BalancedTurn, Machine.transition, runtimeMachine, hvalue]
    exact ⟨⟨hturn.1.accepted, hturn.1.counted⟩, fun _ => hturn.2⟩
  next error after herror =>
    simp only [BalancedTurn, Machine.transition, runtimeMachine, herror]
    refine ⟨⟨hturn.accepted, hturn.counted⟩, fun hcontinues => ?_⟩
    cases hcontinues

/-- A turn that ends the run is balanced when its conclusion stops balanced. -/
theorem balanced_conclusion (h : Attending runtime)
    (houtcomes : ∀ outcome ∈ occurrence.surroundings.ledgerOutcomes, ¬outcome.Fails)
    (hsignal : occurrence.signal.Ends)
    (hstops : StopsBalanced count conclude occurrence.surroundings
      (opening runtime.toRuntimeState) fun _ moment => InStep count moment) :
    BalancedTurn count (runtimeMachine.transition runtime occurrence) := by
  have hturn : Ends (turn occurrence.signal)
      ⟨runtime.facing occurrence.surroundings.ledgerOutcomes, occurrence.surroundings, []⟩
      (fun _ after => after.Balanced count) (fun _ after => after.Balanced count) := by
    have hconcludes := (hstops _ (h.meets houtcomes)).imp fun _ after ⟨_, hmeets, hstep⟩ =>
      balanced_of_inStep hmeets hstep
    rcases hsignal with hsignal | hsignal <;> rw [hsignal] <;> exact ends_bind.mpr hconcludes
  unfold Ends at hturn
  split at hturn
  next value after hvalue =>
    simp only [BalancedTurn, Machine.transition, runtimeMachine, hvalue]
    exact ⟨hturn.accepted, hturn.counted⟩
  next error after herror =>
    simp only [BalancedTurn, Machine.transition, runtimeMachine, herror]
    exact ⟨hturn.accepted, hturn.counted⟩

end Turns

end Runtime

end Oasi
