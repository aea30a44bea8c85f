import Oasi.Runtime.CalmRun
import Oasi.Runtime.Queue

/-! # Accepted runs

A run that returns `Ok` has taken every message of its child: after the HELLO the
acknowledgements of its requests, in order, the last of them that of the STOP, and
then the end of the output.
-/

namespace Oasi

namespace Runtime

/-- What a run that returned `Ok` consists of. -/
theorem run_eq_ok {runtime : Runtime} {occurrences : List Occurrence} {metrics : Metrics}
    (h : runtime.run occurrences = some (.ok metrics)) :
    ∃ used last, (∀ turn ∈ runtimeMachine.trace runtime used, turn.output.ends = false) ∧
      runtime.history occurrences = runtimeMachine.trace runtime used ++
        [runtimeMachine.transition (runtimeMachine.run runtime used) last] ∧
      (runtimeMachine.transition (runtimeMachine.run runtime used) last).output.result =
        .ok (some metrics) := by
  obtain ⟨used, hcontinues, hhistory | ⟨last, _, hhistory⟩⟩ :=
    runtimeMachine.session_cases TurnReport.ends runtime occurrences
  · rw [run, history, hhistory] at h
    cases hlast : (runtimeMachine.trace runtime used).getLast? with
    | none => simp [hlast] at h
    | some turn =>
        have hresult := result_of_continues (hcontinues turn (List.mem_of_getLast? hlast))
        simp [hlast, hresult] at h
  · refine ⟨used, last, hcontinues, hhistory, ?_⟩
    rw [run, history, hhistory, List.getLast?_concat, Option.bind_some] at h
    split at h
    next => cases h
    next hresult =>
      rw [hresult, ← Except.ok.inj (Option.some.inj h)]
    next => cases h

/-- A run of one turn that ends it. -/
theorem run_of_result {runtime : Runtime} {occurrence : Occurrence} {metrics : Metrics}
    (h : (runtimeMachine.transition runtime occurrence).output.result = .ok (some metrics)) :
    runtime.history [occurrence] = [runtimeMachine.transition runtime occurrence] ∧
      runtime.run [occurrence] = some (.ok metrics) := by
  have hends : (runtimeMachine.transition runtime occurrence).output.ends = true := by
    rw [TurnReport.ends, h]
  have hhistory : runtime.history [occurrence] =
    [runtimeMachine.transition runtime occurrence] := by
    rw [history, Machine.session, if_pos hends]
  refine ⟨hhistory, ?_⟩
  rw [run, hhistory, List.getLast?_singleton, Option.bind_some, h]

/-- A calm run that is stopped. -/
theorem calm_accepted {runtime : Runtime} {state : RuntimeState} {cues : List Cue} {nowNs : UInt64}
    (h : runtime.Poised (3 * cues.length + 2) state) (hfits : state.fitsAll cues = true)
    (hstop : (state.advancedBy cues).fits ⟨nowNs, .event .stop⟩ = true) :
    runtime.run (state.occurrences cues ++
        [(state.advancedBy cues).occurrence ⟨nowNs, .event .stop⟩]) =
      some (.ok ((state.advancedBy cues).advanced ⟨nowNs, .event .stop⟩).metrics) := by
  have hpoised := (calm_trace h hfits).2.1
  obtain ⟨hhistory, _⟩ := run_of_result (@calm_conclusion _ 0 _ _ hpoised hstop)
  rw [run, calm_history h hfits, hhistory, List.getLast?_concat, Option.bind_some,
    @calm_conclusion _ 0 _ _ hpoised hstop]

/-! ## The last turn -/

theorem ends_self {world : World} {done : RuntimeState → World → Prop}
    {failed : IoError → World → Prop} :
    Ends self world done failed ↔ done world.runtime.toRuntimeState world := Iff.rfl

theorem orReject_ends (stopResult : Except IoError Unit) (world : World) :
    Ends (orReject stopResult) world (fun _ after => stopResult = .ok () ∧ after = world)
      (fun _ _ => True) := by
  cases stopResult with
  | ok _ => exact ⟨rfl, rfl⟩
  | error error =>
      simp only [orReject, recordProtocolRejection, update, self, ends_bind, ends_modify, ends_get,
        ends_pure, ends_throw]
      exact (callLedger_ends _ _).mono (fun _ _ _ => trivial) (fun _ _ _ => trivial)

theorem concluded_ends (world : World) :
    Ends (do
      update RuntimeState.assessed
      let state ← self
      record "FINAL" "runtime complete with strict versioned child protocol"
        (if state.metrics.damage = 0 then .allow else .blockAction) state.body state.activeLease
      callLedger (.seal state.body state.activeLease)
      return state.metrics) world
      (fun _ after => after.runtime.child = world.runtime.child ∧
        ∃ records, after.effects = world.effects ++ records)
      (fun _ _ => True) := by
  simp only [update, self, ends_bind, ends_modify, ends_get, ends_pure, record]
  refine (callLedger_ends _ _).mono ?_ (fun _ _ _ => trivial)
  rintro _ _ ⟨ledger, rfl⟩
  refine (callLedger_ends _ _).mono ?_ (fun _ _ _ => trivial)
  rintro _ _ ⟨ledger, rfl⟩
  exact ⟨rfl, _, List.append_assoc _ _ _⟩

theorem nextTransactionNonce_ends (world : World) :
    Ends nextTransactionNonce world
      (fun nonce after => after = world.updated fun state => state.withNonce nonce)
      (fun _ _ => True) := by
  simp only [nextTransactionNonce, self, update, ends_bind, ends_get, ends_pure, ends_modify,
    ends_liftResult, implies_true, and_true]
  exact fun nonce _ => rfl

/-- A request is written and answered, each with what was delivered before it. -/
def Stops (surroundings : Surroundings) (effects : List Effect) : Prop :=
  ∃ command line rest, effects =
    deliveries (surroundings.exchange command).early ++ .sent command ::
      deliveries (surroundings.exchange command).late ++ .accepted line :: rest

/-- A child that was stopped is gone. -/
theorem stopChild_ends (id nonce : UInt64) (authority : AuthoritySnapshot) (world : World) :
    Ends (stopChild id nonce authority) world
      (fun result after => result = .ok () → after.runtime.child = none ∧
        ∃ more, after.effects = world.effects ++ more ∧ Stops world.surroundings more)
      (fun _ _ => True) := by
  simp only [stopChild, ends_bind, ends_get, ends_orThrow, onChild, ends_onPart, ends_attempt,
    ends_modify, ends_pure, Connection.stopBound, implies_true, and_true]
  intro child _
  refine (Connection.transactBound_ends _ _ _ _).mono ?_ (fun _ _ _ hok => absurd hok (by simp))
  rintro _ middle ⟨line, _, _, hmiddle, _⟩
  refine (Connection.waitForCleanExit_ends _ middle).mono ?_ (fun _ _ _ hok => absurd hok (by simp))
  rintro _ after ⟨hafter, _⟩ _
  let command := boundStopRequest id nonce authority
  refine ⟨trivial, _, ?_, command, line,
    deliveries (world.surroundings.exit command).remaining, rfl⟩
  rw [hafter, hmiddle]
  simp only [List.append_assoc, List.cons_append, List.nil_append]
  rfl

theorem conclude_ends (world : World) :
    Ends conclude world
      (fun _ after => after.runtime.child = none ∧
        ∃ more, after.effects = world.effects ++ more ∧ Stops world.surroundings more)
      (fun _ _ => True) := by
  refine ends_bind.mpr (ends_self.mpr (ends_bind.mpr ((nextTransactionNonce_ends world).imp ?_)))
  rintro nonce _ rfl
  refine ends_bind.mpr (ends_self.mpr (ends_bind.mpr ((stopChild_ends _ _ _ _).imp ?_)))
  intro stopResult stopped hstopped
  refine ends_bind.mpr ((orReject_ends stopResult stopped).imp ?_)
  rintro _ _ ⟨hok, rfl⟩
  obtain ⟨hchild, more, heffects, command, line, rest, rfl⟩ := hstopped hok
  refine (concluded_ends _).imp ?_
  rintro _ after ⟨hsame, records, hrecords⟩
  refine ⟨hsame.trans hchild, _, ?_, command, line, rest ++ records, rfl⟩
  rw [hrecords, heffects]
  simp only [World.updated, List.append_assoc, List.cons_append]

theorem conclude_of_result {runtime : Runtime} {occurrence : Occurrence} {metrics : Metrics}
    (h : (runtimeMachine.transition runtime occurrence).output.result = .ok (some metrics)) :
    (runtimeMachine.transition runtime occurrence).after.child = none ∧
      Stops occurrence.surroundings
        (runtimeMachine.transition runtime occurrence).output.effects := by
  obtain ⟨_, ⟨hnone, _⟩ | ⟨_, hsignal⟩⟩ := turn_of_ok h
  · cases hnone
  have hconcludes : turn occurrence.signal = conclude >>= fun metrics => pure (some metrics) := by
    rcases hsignal with hsignal | hsignal <;> rw [hsignal] <;> rfl
  have hends := conclude_ends
    ⟨runtime.facing occurrence.surroundings.ledgerOutcomes, occurrence.surroundings, []⟩
  simp only [Machine.transition, runtimeMachine, hconcludes, bind, EStateM.bind] at h ⊢
  cases hresult : conclude
    ⟨runtime.facing occurrence.surroundings.ledgerOutcomes, occurrence.surroundings, []⟩ with
  | error error world => simp [hresult] at h
  | ok value world =>
      obtain ⟨hchild, more, hmore, hstops⟩ := hends.of_ok hresult
      rw [List.nil_append] at hmore
      simp only [pure, EStateM.pure]
      exact ⟨hchild, hmore ▸ hstops⟩

/-- The last request of an accepted run is the STOP. -/
theorem sentIn_concluded {state after : RuntimeState} {effects : List Effect}
    (h : ConcludeTurn state effects true after) :
    ∃ id nonce authority, sentIn effects =
      [(BoundChildRequest.stop id nonce authority).encode] := by
  cases h with
  | concluded nonce hnonce exchanged hexchanged records ok hrecords hok =>
      refine ⟨state.actionCounter, nonce, state.authoritySnapshot, ?_⟩
      have hsilent := ((onlyRecords_pair _ _ _ _).front hrecords).silent.1
      rw [sentIn_append, hexchanged.projections.1, hsilent, List.append_nil]
      rfl

/-! ## Whole runs -/

/-- The conversation of an accepted run. -/
structure Conclusion (actions : Nat) (queue : List ReaderMessage) (effects : List Effect)
    (requests : List BoundChildRequest) : Prop where
  sent : sentIn effects = requests.map BoundChildRequest.encode
  last : ∃ earlier id nonce authority, requests = earlier ++ [.stop id nonce authority]
  accepted : (acceptedIn effects).map (· ++ "\n") =
    (BoundChildRequest.answers actions requests).map BoundExpectedAck.canonical
  settled : Settled queue effects [.eof]

theorem conclusion_of_run {runtime : Runtime} {occurrences : List Occurrence} {metrics : Metrics}
    {requests : List BoundChildRequest}
    (hrun : runtime.run occurrences = some (.ok metrics))
    (htransactions : Transactions runtime.transactionNonce runtime.metrics.childActions.toNat
      (effectsOf (runtime.history occurrences)) requests) :
    Conclusion runtime.metrics.childActions.toNat runtime.awaiting
      (effectsOf (runtime.history occurrences)) requests := by
  obtain ⟨used, last, hcontinues, hhistory, hresult⟩ := run_eq_ok hrun
  obtain ⟨id, nonce, authority, hstop⟩ := sentIn_concluded (turn_of_concluding hresult).1
  have hsettled : Settled runtime.awaiting (effectsOf (runtime.history occurrences)) [.eof] := by
    have hlast := (taken_transition _ last).2 ⟨_, hresult⟩
    rw [awaiting_of_stopped (conclude_of_result hresult).1] at hlast
    rw [hhistory, effectsOf_append, effectsOf_cons, effectsOf_nil, List.append_nil]
    exact (settled_trace hcontinues).append hlast
  refine ⟨htransactions.sent, ?_, ?_, hsettled⟩
  · have hsent := htransactions.sent
    rw [hhistory, effectsOf_append, effectsOf_cons, effectsOf_nil, List.append_nil, sentIn_append,
      hstop] at hsent
    obtain ⟨earlier, final, hrequests, _, hfinal⟩ := List.map_eq_append_iff.mp hsent.symm
    obtain ⟨request, rest, rfl, hrequest, hrest⟩ := List.map_eq_cons_iff.mp hfinal
    rw [List.map_eq_nil_iff] at hrest
    subst hrest
    exact ⟨earlier, id, nonce, authority, by
      rw [hrequests, BoundChildRequest.encode_injective hrequest]⟩
  · refine htransactions.accepted.eq_of_length ?_
    rw [List.length_map, List.length_map, hsettled.answered, htransactions.sent, List.length_map,
      BoundChildRequest.length_answers]

/-! ## New runtimes -/

/-- What a new runtime finds in the queue. -/
theorem deliveredIn_new {startup : Startup} {runtime : Runtime} {effects : List Effect}
    (hnew : new startup = .ok (runtime, effects)) :
    runtime.metrics.childActions = 0 ∧ ∃ processId greeting, startup.spawned = .ok processId ∧
      greeting ++ "\n" = hello processId.toUInt64 ∧
      deliveredIn effects = .line greeting :: runtime.awaiting := by
  have hlaunched := launched_of_new hnew
  obtain ⟨_, _, hstate⟩ := hlaunched.state
  obtain ⟨processId, greeting, rest, hspawned, hgreeting, hqueue, hchild, rfl⟩ := hlaunched.child
  refine ⟨by rw [hstate]; rfl, processId, greeting, hspawned, hgreeting, ?_⟩
  rw [awaiting_of_child hchild, hqueue]
  simp [RuntimeState.records, RuntimeState.calls]

theorem within_new {startup : Startup} {runtime : Runtime} {effects : List Effect}
    (hnew : new startup = .ok (runtime, effects)) : runtime.Within 100 := by
  obtain ⟨_, _, hstate⟩ := (launched_of_new hnew).state
  have hinitial : (initialState program).Within 100 := by constructor <;> decide
  rw [hstate]
  exact ⟨hinitial.actionCounter, hinitial.childActions, hinitial.allowedCommits,
    hinitial.rollbacks, hinitial.epoch, hinitial.generation, hinitial.certificate,
    hinitial.transactionNonce⟩

/-- A new runtime can be stopped by one acknowledgement, early or late. -/
theorem stop_calmStartup :
    ∃ runtime effects, ∃ expected : BoundExpectedAck, new calmStartup = .ok (runtime, effects) ∧
      runtime.Ready 2 ∧ ∀ early late,
        early ++ late = [.line (trimEndNewlines expected.canonical)] →
        ∃ metrics, (runtimeMachine.transition runtime
          ⟨.event .stop, calmSurroundings 1 early late⟩).output.result = .ok (some metrics) := by
  obtain ⟨runtime, effects, hnew, hready⟩ := @new_calm 2 calmStartup calm_calmStartup (by decide)
  have hwithin := within_new hnew
  obtain ⟨nonce, hnonce⟩ := exists_checkedSucc hwithin.transactionNonce (by decide)
  refine ⟨runtime, effects, .stop runtime.actionCounter nonce runtime.authoritySnapshot, hnew,
    hready, fun early late hdelivered => ?_⟩
  have hcompletes := @completes_conclude (calmSurroundings 1 early late) runtime.toRuntimeState 0
    100 hwithin (by decide) fun nonce' hnonce' => by
      rw [← Option.some.inj (hnonce.symm.trans hnonce')]
      exact ⟨⟨rfl, _, BoundExpectedAck.canonical_eq _, hdelivered⟩,
        ⟨⟨0, _, [], rfl, rfl⟩, rfl, rfl⟩⟩
  exact @ready_conclusion 0 runtime ⟨.event .stop, calmSurroundings 1 early late⟩ hready
    (by simp [calmSurroundings]) (.inl rfl) hcompletes

end Runtime

end Oasi
