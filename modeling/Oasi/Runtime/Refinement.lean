import Oasi.Runtime.Turns

/-! # The runtime refines the authority machine

Each operation is executed on the fields alone, branch by branch, and every way
it can end is a turn of the authority machine.
-/

namespace Oasi

namespace Runtime

/-- Every way the operation ends is in the relation. -/
def Refines (operation : Operation Unit) (nowNs : UInt64) (state : RuntimeState)
    (relation : List Effect → Bool → RuntimeState → Prop) : Prop :=
  Runs operation nowNs state [] (fun _ after effects => relation effects true after)
    (fun after effects => relation effects false after)

/-- What follows an answered transaction, and how a rejected one fails. -/
theorem runs_orReject {α : Type} {nowNs : UInt64} {state : RuntimeState} {effects : List Effect}
    {done : α → RuntimeState → List Effect → Prop} {failed : RuntimeState → List Effect → Prop}
    {ackResult : Except IoError Unit} {second : Unit → Operation α}
    (hok : ackResult = .ok () → Runs (second ()) nowNs state effects done failed)
    (herror : ∀ error, ackResult = .error error → failed state.rejected
      (effects ++ [state.rejected.records "PROTOCOL_ACK_REJECTED" error.message .blockQuarantine
        none])) :
    Runs (orReject ackResult >>= second) nowNs state effects done failed := by
  cases ackResult with
  | ok _ => exact runs_bind (runs_pure (hok rfl))
  | error error =>
      refine runs_bind (runs_bind (runs_update (runs_self (runs_record ?_ ?_))))
      · exact runs_throw (herror error rfl)
      · exact herror error rfl

theorem checkedCounterIncrement_eq_ok {value next : UInt64} {counterName : String}
    (h : checkedCounterIncrement value counterName = .ok next) : checkedSucc value = some next := by
  unfold checkedCounterIncrement at h
  split at h
  next hnext => rwa [← Except.ok.inj h]
  next => cases h

theorem refines_begin (nowNs : UInt64) (state : RuntimeState) :
    Refines begin nowNs state (AuthorityTurn nowNs state (.event .begin)) := by
  refine runs_self ?_
  cases hpending : state.authorityTransaction.pending with
  | true =>
      rw [AuthorityTransaction.begin_of_pending hpending]
      exact runs_throw (.beginRefused hpending)
  | false =>
      rw [AuthorityTransaction.begin_of_idle hpending]
      refine runs_update (runs_callLedger ?_ ?_)
      · exact .begun hpending true
      · exact .begun hpending false

theorem refines_quarantine (reason : String) (nowNs : UInt64) (state : RuntimeState) :
    Refines (quarantine reason) nowNs state (QuarantineTurn reason state) := by
  refine runs_update (runs_self (runs_orThrow (fun rollbacks hrollbacks => ?_) .overflowed))
  refine runs_update (runs_self (runs_bind (runs_record ?_ ?_)))
  · refine runs_self (runs_nextTransactionNonce (fun nonce hnonce => ?_) ?_)
    · let order : RollbackOrder state := ⟨rollbacks, nonce, hrollbacks, hnonce⟩
      refine runs_self (runs_bind (runs_transact ?_ ?_ ?_))
      · exact .unsent rollbacks nonce
      · intro exchanged hexchanged
        refine runs_update (runs_self (runs_record ?_ ?_))
        · exact .confirmed order exchanged hexchanged true
        · exact .confirmed order exchanged hexchanged false
      · intro error exchanged hexchanged
        refine runs_update (runs_self (runs_bind (runs_record ?_ ?_)))
        · exact runs_throw (.refused order error.message exchanged hexchanged)
        · exact .refused order error.message exchanged hexchanged
    · exact .unsent rollbacks state.transactionNonce
  · exact .unsent rollbacks state.transactionNonce

theorem runs_commitBlocked {nowNs : UInt64} {state : RuntimeState}
    (hblocked : state.commitDecision nowNs ≠ .allow) :
    Runs (commitBlocked (state.commitDecision nowNs)) nowNs (state.consumed nowNs) []
      (fun _ after effects => CommitTurn nowNs state effects true after)
      (fun after effects => CommitTurn nowNs state effects false after) := by
  refine runs_update (runs_self (runs_record ?_ ?_))
  · exact .blocked hblocked true
  · exact .blocked hblocked false

theorem runs_commitAllowed {nowNs : UInt64} {state : RuntimeState}
    (hallowed : state.commitDecision nowNs = .allow) :
    Runs (commitAllowed .allow) nowNs (state.consumed nowNs) []
      (fun _ after effects => CommitTurn nowNs state effects true after)
      (fun after effects => CommitTurn nowNs state effects false after) := by
  have hunsent : CommitTurn nowNs state [] false (state.consumed nowNs) :=
    .unsent hallowed state.transactionNonce
  refine runs_self (runs_liftResult (fun id hid => ?_) hunsent)
  refine runs_orThrow (fun actions hactions => ?_) hunsent
  refine runs_orThrow (fun units hunits => ?_) hunsent
  refine runs_nextTransactionNonce (fun nonce hnonce => ?_) hunsent
  let order : WorkOrder state :=
    ⟨id, actions, units, nonce, checkedCounterIncrement_eq_ok hid, hactions, hunits, hnonce⟩
  refine runs_self (runs_bind (runs_transact (.unsent hallowed nonce) ?_ ?_))
  · intro exchanged hexchanged
    refine runs_orReject (fun _ => ?_) (fun error herror => by cases herror)
    refine runs_self (runs_orThrow (fun allowedCommits hallowedCommits => ?_)
      (.uncounted hallowed order exchanged hexchanged))
    refine runs_update (runs_self (runs_bind (runs_record ?_ ?_)))
    · refine runs_record ?_ ?_
      · rw [List.append_assoc]
        exact .committed hallowed order exchanged hexchanged allowedCommits hallowedCommits _ true
          (List.prefix_rfl) (fun _ => rfl)
      · rw [List.append_assoc]
        exact .committed hallowed order exchanged hexchanged allowedCommits hallowedCommits _ false
          (List.prefix_rfl) (by simp)
    · exact .committed hallowed order exchanged hexchanged allowedCommits hallowedCommits _ false
        (List.prefix_append [_] [_]) (by simp)
  · intro error exchanged hexchanged
    refine runs_orReject (fun hok => by cases hok) (fun _ herror => ?_)
    cases herror
    exact .rejected hallowed order error.message exchanged hexchanged

theorem refines_commit (nowNs : UInt64) (state : RuntimeState) :
    Refines commit nowNs state (CommitTurn nowNs state) := by
  refine runs_self (runs_monotonicNs (runs_update ?_))
  show Runs (if state.commitDecision nowNs = .allow then commitAllowed (state.commitDecision nowNs)
    else commitBlocked (state.commitDecision nowNs)) nowNs (state.consumed nowNs) [] _ _
  by_cases hallowed : state.commitDecision nowNs = .allow
  · rw [if_pos hallowed, hallowed]
    exact runs_commitAllowed hallowed
  · rw [if_neg hallowed]
    exact runs_commitBlocked hallowed

theorem refines_reset (nowNs : UInt64) (state : RuntimeState) :
    Refines reset nowNs state (AuthorityTurn nowNs state (.event .reset)) := by
  refine runs_self (runs_orThrow (fun epoch hepoch => ?_) (.resetOverflowed state.body.epoch))
  refine runs_update (runs_self (runs_orThrow (fun generation hgeneration => ?_)
    (.resetOverflowed epoch)))
  refine runs_update ((refines_quarantine _ nowNs _).mono ?_ ?_)
  · intro _ after effects h
    exact .reset epoch generation hepoch hgeneration h
  · intro after effects h
    exact .reset epoch generation hepoch hgeneration h

theorem runs_probeConfirmed {nowNs : UInt64} {state : RuntimeState}
    (hquarantined : state.body.quarantined = true) (hconfirmed : state.rollbackConfirmed = true) :
    Runs probeConfirmed nowNs state.countProbe []
      (fun _ after effects => ProbeTurn nowNs state effects true after)
      (fun after effects => ProbeTurn nowNs state effects false after) := by
  have hunsent : ProbeTurn nowNs state [] false state.countProbe :=
    .unsent hquarantined hconfirmed state.transactionNonce [] (by simp)
  refine runs_self (runs_orThrow (fun certificate hcertificate => ?_) hunsent)
  refine runs_self (runs_orThrow (fun generation hgeneration => ?_) hunsent)
  refine runs_nextTransactionNonce (fun nonce hnonce => ?_) hunsent
  let order : ProbeOrder state :=
    ⟨certificate, generation, nonce, hcertificate, hgeneration, hnonce⟩
  have hrequested : ∀ effect ∈ [state.records "FUNCTIONAL_FRESHNESS_PROBE_REQUEST" probeDetail
      .blockQuarantine none], ∃ event detail,
      effect = state.records event detail .blockQuarantine none :=
    fun effect heffect => ⟨_, _, List.mem_singleton.mp heffect⟩
  refine runs_self (runs_self (runs_bind (runs_record ?_ ?_)))
  · refine runs_bind (runs_transact ?_ ?_ ?_)
    · exact .unsent hquarantined hconfirmed nonce _ hrequested
    · intro exchanged hexchanged
      refine runs_orReject (fun _ => ?_) (fun error herror => by cases herror)
      refine runs_self (runs_monotonicNs (runs_liftResult (fun validUntilNs hdeadline => ?_) ?_))
      · have hturn := fun records ok => ProbeTurn.recovered hquarantined hconfirmed order exchanged
          hexchanged validUntilNs hdeadline _ rfl records ok
        refine runs_update (runs_update (runs_self (runs_bind (runs_record ?_ ?_))))
        · refine runs_record ?_ ?_
          · simp only [List.nil_append, List.append_assoc, List.singleton_append]
            exact hturn _ true List.prefix_rfl (fun _ => rfl)
          · simp only [List.nil_append, List.append_assoc, List.singleton_append]
            exact hturn _ false List.prefix_rfl (by simp)
        · exact hturn _ false (List.prefix_append [_] [_]) (by simp)
      · exact .expired hquarantined hconfirmed order exchanged hexchanged
    · intro error exchanged hexchanged
      refine runs_orReject (fun hok => by cases hok) (fun _ herror => ?_)
      cases herror
      exact .rejected hquarantined hconfirmed order error.message exchanged hexchanged
  · exact .unsent hquarantined hconfirmed nonce _ hrequested

theorem refines_functionalFreshnessProbe (nowNs : UInt64) (state : RuntimeState) :
    Refines functionalFreshnessProbe nowNs state (ProbeTurn nowNs state) := by
  refine runs_update (runs_self ?_)
  by_cases hrefused : state.body.quarantined = false ∨ state.rollbackConfirmed = false
  · have hcounted : state.countProbe.body.quarantined = false ∨
        state.countProbe.rollbackConfirmed = false := hrefused
    rw [if_pos hcounted]
    refine runs_record ?_ ?_
    · exact .refused hrefused true
    · exact .refused hrefused false
  · have hcounted : ¬(state.countProbe.body.quarantined = false ∨
        state.countProbe.rollbackConfirmed = false) := hrefused
    rw [if_neg hcounted]
    rw [not_or, Bool.not_eq_false, Bool.not_eq_false] at hrefused
    exact runs_probeConfirmed hrefused.1 hrefused.2

/-- The end of a run returns the metrics it ends with. -/
theorem runs_conclude (nowNs : UInt64) (state : RuntimeState) :
    Runs conclude nowNs state []
      (fun metrics after effects => ConcludeTurn state effects true after ∧ metrics = after.metrics)
      (fun after effects => ConcludeTurn state effects false after) := by
  refine runs_self (runs_nextTransactionNonce (fun nonce hnonce => ?_)
    (.unsent state.transactionNonce))
  refine runs_self (runs_bind (runs_stopChild (.unsent nonce) ?_ ?_))
  · intro exchanged hexchanged
    have hturn := ConcludeTurn.concluded nonce hnonce exchanged hexchanged
    refine runs_orReject (fun _ => ?_) (fun error herror => by cases herror)
    refine runs_update (runs_self (runs_bind (runs_record ?_ ?_)))
    · refine runs_bind (runs_callLedger (runs_pure ⟨?_, rfl⟩) ?_)
      · rw [List.append_assoc]
        exact hturn _ true List.prefix_rfl (fun _ => rfl)
      · rw [List.append_assoc]
        exact hturn _ false List.prefix_rfl (by simp)
    · exact hturn _ false (List.prefix_append [_] [_]) (by simp)
  · intro error exchanged hexchanged
    refine runs_orReject (fun hok => by cases hok) (fun _ herror => ?_)
    cases herror
    exact .rejected nonce hnonce error.message exchanged hexchanged

end Runtime

/-- The signal ends the loop of `run`. -/
def Signal.Ends (signal : Signal) : Prop := signal = .event .stop ∨ signal = .disconnected

namespace Runtime

/-- What a turn's result says about its signal. -/
def ResultMatches (signal : Signal) (result : Option Metrics) (after : RuntimeState) : Prop :=
  (result = none ∧ ¬signal.Ends) ∨ (result = some after.metrics ∧ signal.Ends)

theorem runs_continue {nowNs : UInt64} {state : RuntimeState} {signal : Signal}
    {operation : Operation Unit} {relation : List Effect → Bool → RuntimeState → Prop}
    (hsignal : ¬signal.Ends) (h : Refines operation nowNs state relation)
    (hturn : ∀ {effects ok after}, relation effects ok after →
      AuthorityTurn nowNs state signal effects ok after) :
    Runs (operation >>= fun _ => pure (none : Option Metrics)) nowNs state []
      (fun result after effects => AuthorityTurn nowNs state signal effects true after ∧
        ResultMatches signal result after)
      (fun after effects => AuthorityTurn nowNs state signal effects false after) :=
  runs_bind (h.mono (fun _ _ _ hdone => runs_pure ⟨hturn hdone, .inl ⟨rfl, hsignal⟩⟩)
    fun _ _ hfailed => hturn hfailed)

/-- Every turn of the runtime is a turn of the authority machine. -/
theorem refines_turn (signal : Signal) (nowNs : UInt64) (state : RuntimeState) :
    Runs (turn signal) nowNs state []
      (fun result after effects => AuthorityTurn nowNs state signal effects true after ∧
        ResultMatches signal result after)
      (fun after effects => AuthorityTurn nowNs state signal effects false after) := by
  have hconclude : ∀ signal : Signal, signal.Ends →
      Runs (conclude >>= fun metrics => pure (some metrics)) nowNs state []
        (fun result after effects => AuthorityTurn nowNs state signal effects true after ∧
          ResultMatches signal result after)
        (fun after effects => AuthorityTurn nowNs state signal effects false after) := by
    intro signal hsignal
    refine runs_bind ((runs_conclude nowNs state).mono ?_ ?_)
    · rintro _ after effects ⟨hturn, rfl⟩
      exact runs_pure ⟨.conclude signal hsignal hturn, .inr ⟨rfl, hsignal⟩⟩
    · intro after effects hturn
      exact .conclude signal hsignal hturn
  cases signal with
  | disconnected => exact hconclude _ (.inr rfl)
  | timeout =>
      exact runs_continue (by simp [Signal.Ends])
        (refines_quarantine "safety lease expired during silence" nowNs state) .timeout
  | event event =>
      cases event with
      | begin => exact runs_continue (by simp [Signal.Ends]) (refines_begin nowNs state) id
      | commit => exact runs_continue (by simp [Signal.Ends]) (refines_commit nowNs state) .commit
      | reset => exact runs_continue (by simp [Signal.Ends]) (refines_reset nowNs state) id
      | functionalFreshnessProbe =>
          exact runs_continue (by simp [Signal.Ends])
            (refines_functionalFreshnessProbe nowNs state) .probe
      | stop => exact hconclude _ (.inl rfl)

/-- A transition that returned `Ok`. -/
theorem turn_of_ok {runtime : Runtime} {occurrence : Occurrence} {result : Option Metrics}
    (h : (runtimeMachine.transition runtime occurrence).output.result = .ok result) :
    AuthorityTurn occurrence.surroundings.nowNs runtime.toRuntimeState occurrence.signal
        (runtimeMachine.transition runtime occurrence).output.effects true
        (runtimeMachine.transition runtime occurrence).after.toRuntimeState ∧
      ResultMatches occurrence.signal result
        (runtimeMachine.transition runtime occurrence).after.toRuntimeState := by
  have hruns := refines_turn occurrence.signal occurrence.surroundings.nowNs runtime.toRuntimeState
    ⟨runtime.facing occurrence.surroundings.ledgerOutcomes, occurrence.surroundings, []⟩ rfl rfl rfl
  unfold Machine.transition runtimeMachine at h ⊢
  cases hresult : turn occurrence.signal
    ⟨runtime.facing occurrence.surroundings.ledgerOutcomes, occurrence.surroundings, []⟩ with
  | error error world => simp [hresult] at h
  | ok value world =>
      simp only [hresult, Except.ok.injEq] at h ⊢
      exact h ▸ (hruns.of_ok hresult).2

theorem result_of_continues {report : TurnReport} (h : report.ends = false) :
    report.result = .ok none := by
  unfold TurnReport.ends at h
  split at h
  next hresult => exact hresult
  next => cases h

/-- A transition that does not end the run. -/
theorem turn_of_continuing {runtime : Runtime} {occurrence : Occurrence}
    (h : (runtimeMachine.transition runtime occurrence).output.ends = false) :
    AuthorityTurn occurrence.surroundings.nowNs runtime.toRuntimeState occurrence.signal
        (runtimeMachine.transition runtime occurrence).output.effects true
        (runtimeMachine.transition runtime occurrence).after.toRuntimeState ∧
      ¬occurrence.signal.Ends := by
  obtain ⟨hturn, hmatches⟩ := turn_of_ok (result_of_continues h)
  rcases hmatches with ⟨_, hsignal⟩ | ⟨hsome, _⟩
  · exact ⟨hturn, hsignal⟩
  · cases hsome

/-- The transition that ends an accepted run. -/
theorem turn_of_concluding {runtime : Runtime} {occurrence : Occurrence} {metrics : Metrics}
    (h : (runtimeMachine.transition runtime occurrence).output.result = .ok (some metrics)) :
    ConcludeTurn runtime.toRuntimeState
        (runtimeMachine.transition runtime occurrence).output.effects true
        (runtimeMachine.transition runtime occurrence).after.toRuntimeState ∧
      metrics = (runtimeMachine.transition runtime occurrence).after.metrics := by
  obtain ⟨hturn, ⟨hnone, _⟩ | ⟨hmetrics, hsignal⟩⟩ := turn_of_ok h
  · cases hnone
  · refine ⟨?_, Option.some.inj hmetrics⟩
    rcases hsignal with hsignal | hsignal <;> rw [hsignal] at hturn <;> cases hturn
    next hconclude => exact hconclude
    next hconclude => exact hconclude

/-- Any transition. -/
theorem turn_of_transition (runtime : Runtime) (occurrence : Occurrence) :
    ∃ ok, AuthorityTurn occurrence.surroundings.nowNs runtime.toRuntimeState occurrence.signal
        (runtimeMachine.transition runtime occurrence).output.effects ok
        (runtimeMachine.transition runtime occurrence).after.toRuntimeState ∧
      (ok = true ↔ ∃ result,
        (runtimeMachine.transition runtime occurrence).output.result = .ok result) := by
  have hruns := refines_turn occurrence.signal occurrence.surroundings.nowNs runtime.toRuntimeState
    ⟨runtime.facing occurrence.surroundings.ledgerOutcomes, occurrence.surroundings, []⟩ rfl rfl rfl
  unfold Machine.transition runtimeMachine
  cases hresult : turn occurrence.signal
    ⟨runtime.facing occurrence.surroundings.ledgerOutcomes, occurrence.surroundings, []⟩ with
  | error error world =>
      simp only [hresult]
      exact ⟨false, hruns.of_error hresult, by simp⟩
  | ok result world =>
      simp only [hresult]
      exact ⟨true, (hruns.of_ok hresult).2.1, by simp⟩

end Runtime

end Oasi
