import Oasi.Runtime.Accepted
import Oasi.Runtime.Bookkeeping

/-! # The counters and the ledger

A turn moves a counter exactly when it records the events that the counter
counts. While the turns fit the 64-bit range nothing saturates, so the counters of
an accepted run can be read off its ledger and no damage is found at its end.
-/

namespace Oasi

/-- The events of the entries that these effects write. -/
def eventsIn (effects : List Effect) : List String := (labelsIn effects).map EntryLabel.event

@[simp] theorem eventsIn_nil : eventsIn [] = [] := rfl

@[simp] theorem eventsIn_append (first second : List Effect) :
    eventsIn (first ++ second) = eventsIn first ++ eventsIn second := by
  rw [eventsIn, labelsIn_append, List.map_append]
  rfl

@[simp] theorem eventsIn_records (state : RuntimeState) (event detail : String)
    (decision : Decision) (lease : Option SafetyLease) (rest : List Effect) :
    eventsIn (state.records event detail decision lease :: rest) = event :: eventsIn rest := rfl

@[simp] theorem sentIn_records (state : RuntimeState) (event detail : String)
    (decision : Decision) (lease : Option SafetyLease) (rest : List Effect) :
    sentIn (state.records event detail decision lease :: rest) = sentIn rest := rfl

theorem eventsIn_of_recordedIn {effects : List Effect} (h : recordedIn effects = []) :
    eventsIn effects = [] := by
  rw [eventsIn, labelsIn_of_recordedIn h, List.map_nil]

theorem Answered.silent {command : String} {expected : BoundExpectedAck} {effects : List Effect}
    (h : Answered command expected effects) :
    sentIn effects = [command] ∧ eventsIn effects = [] :=
  ⟨h.projections.1, eventsIn_of_recordedIn h.projections.2.2⟩

/-- The counters agree with the events recorded so far and the WORK requests sent,
after at most so many turns. -/
structure Tally (metrics : Metrics) (events : List String) (works turns : Nat) : Prop where
  allowedCommits : metrics.allowedCommits.toNat = events.count "COMMIT"
  childActions : metrics.childActions.toNat = events.count "COMMIT"
  verifiedWorkAcks : metrics.verifiedWorkAcks.toNat = events.count "COMMIT"
  acknowledged : events.count "CHILD_ACK_ACCEPTED" = events.count "COMMIT"
  works : works = events.count "COMMIT"
  blockedCommits : metrics.blockedCommits.toNat = events.count "COMMIT_BLOCKED"
  rollbacks : metrics.rollbacks.toNat = events.count "QUARANTINE"
  rollbackAcks : metrics.rollbackAcks.toNat = events.count "QUARANTINE"
  confirmed : events.count "ROLLBACK_ACK_ACCEPTED" = events.count "QUARANTINE"
  probeRequests : metrics.functionalProbeRequests.toNat =
    events.count "FUNCTIONAL_FRESHNESS_PROBE_REQUEST" +
      events.count "FUNCTIONAL_FRESHNESS_PROBE_REJECTED"
  probeRecoveries : metrics.functionalProbeRecoveries.toNat =
    events.count "FUNCTIONAL_FRESHNESS_PROBE_ACCEPTED"
  recovered : events.count "FUNCTIONAL_FRESHNESS_PROBE_ACCEPTED" =
    events.count "FUNCTIONAL_FRESHNESS_PROBE_REQUEST"
  leases : events.count "LEASE_INSTALLED" =
    events.count "FUNCTIONAL_FRESHNESS_PROBE_ACCEPTED" + 1
  unrejected : events.count "PROTOCOL_ACK_REJECTED" = 0
  unrefused : events.count "ROLLBACK_ACK_REJECTED" = 0
  unfinished : events.count "FINAL" = 0
  bounded : events.count "COMMIT" + events.count "COMMIT_BLOCKED" + events.count "QUARANTINE" +
    (events.count "FUNCTIONAL_FRESHNESS_PROBE_REQUEST" +
      events.count "FUNCTIONAL_FRESHNESS_PROBE_REJECTED") ≤ turns

/-! ## Postings -/

/-- The counters that a turn which returned `Ok` moves, with the events it records
and the WORK requests it sends. -/
inductive Posting (metrics : Metrics) : Metrics → List String → Nat → Prop where
  | begun : Posting metrics metrics ["BEGIN_ACTION"] 0
  | blocked :
      Posting metrics { metrics with
        blockedCommits := saturatingSucc metrics.blockedCommits
        staleOrExpiredBlocked := saturatingSucc metrics.staleOrExpiredBlocked }
        ["COMMIT_BLOCKED"] 0
  | committed (allowedCommits actions : UInt64)
      (hallowedCommits : checkedSucc metrics.allowedCommits = some allowedCommits)
      (hactions : checkedSucc metrics.childActions = some actions) :
      Posting metrics { metrics with
        allowedCommits := allowedCommits
        childActions := actions
        verifiedWorkAcks := saturatingSucc metrics.verifiedWorkAcks }
        ["CHILD_ACK_ACCEPTED", "COMMIT"] 1
  | quarantined (quarantines rollbacks : UInt64)
      (hrollbacks : checkedSucc metrics.rollbacks = some rollbacks) :
      Posting metrics { metrics with
        quarantines := quarantines
        rollbacks := rollbacks
        rollbackAcks := saturatingSucc metrics.rollbackAcks }
        ["QUARANTINE", "ROLLBACK_ACK_ACCEPTED"] 0
  | refused :
      Posting metrics { metrics with
        functionalProbeRequests := saturatingSucc metrics.functionalProbeRequests }
        ["FUNCTIONAL_FRESHNESS_PROBE_REJECTED"] 0
  | recovered :
      Posting metrics { metrics with
        functionalProbeRequests := saturatingSucc metrics.functionalProbeRequests
        functionalProbeRecoveries := saturatingSucc metrics.functionalProbeRecoveries }
        ["FUNCTIONAL_FRESHNESS_PROBE_REQUEST", "LEASE_INSTALLED",
          "FUNCTIONAL_FRESHNESS_PROBE_ACCEPTED"] 0

/-- A counter that has moved in no more than so many turns does not saturate. -/
theorem toNat_saturatingSucc_of_le {value : UInt64} {turns : Nat} (h : value.toNat ≤ turns)
    (hroom : turns + 1 < UInt64.size) : (saturatingSucc value).toNat = value.toNat + 1 := by
  rw [toNat_saturatingSucc]
  omega

theorem Tally.posted {metrics after : Metrics} {events more : List String}
    {works moreWorks turns : Nat} (h : Tally metrics events works turns)
    (hroom : turns + 1 < UInt64.size) (hposting : Posting metrics after more moreWorks) :
    Tally after (events ++ more) (works + moreWorks) (turns + 1) := by
  have hsucc := fun value hvalue => @toNat_saturatingSucc_of_le value turns hvalue hroom
  cases h
  cases hposting with
  | begun => constructor <;> simp <;> omega
  | blocked =>
      have hblocked := hsucc metrics.blockedCommits (by omega)
      constructor <;> simp <;> omega
  | committed allowedCommits actions hallowedCommits hactions =>
      have hallowed := checkedSucc_eq_some.mp hallowedCommits
      have hcounted := checkedSucc_eq_some.mp hactions
      have hverified := hsucc metrics.verifiedWorkAcks (by omega)
      constructor <;> simp <;> omega
  | quarantined quarantines rollbacks hrollbacks =>
      have hrequested := checkedSucc_eq_some.mp hrollbacks
      have hconfirmed := hsucc metrics.rollbackAcks (by omega)
      constructor <;> simp <;> omega
  | refused =>
      have hrequested := hsucc metrics.functionalProbeRequests (by omega)
      constructor <;> simp <;> omega
  | recovered =>
      have hrequested := hsucc metrics.functionalProbeRequests (by omega)
      have hrecovered := hsucc metrics.functionalProbeRecoveries (by omega)
      constructor <;> simp <;> omega

section Turns

variable {state after : RuntimeState} {effects : List Effect}

/-- What a turn posts, and the requests it sends. -/
def Posts (metrics after : Metrics) (effects : List Effect) : Prop :=
  ∃ requests : List BoundChildRequest, sentIn effects = requests.map BoundChildRequest.encode ∧
    Posting metrics after (eventsIn effects) (requests.countP BoundChildRequest.isWork)

theorem posts_quarantine {reason : String}
    (h : QuarantineTurn reason state effects true after) :
    Posts state.metrics after.metrics effects := by
  cases h with
  | confirmed order exchanged hexchanged =>
      obtain ⟨hsent, hevents⟩ := hexchanged.silent
      refine ⟨[.rollback order.rollbacks order.nonce state.authoritySnapshot], ?_, ?_⟩
      · rw [List.cons_append, sentIn_records, sentIn_append, hsent]
        rfl
      · rw [List.cons_append, eventsIn_records, eventsIn_append, hevents]
        exact .quarantined _ order.rollbacks order.nextRollbacks

theorem posts_commit {nowNs : UInt64} (h : CommitTurn nowNs state effects true after) :
    Posts state.metrics after.metrics effects := by
  cases h with
  | blocked hblocked => exact ⟨[], rfl, .blocked⟩
  | committed hallowed order exchanged hexchanged allowedCommits hallowedCommits records ok
      hrecords hok =>
      obtain ⟨hsent, hevents⟩ := hexchanged.silent
      rw [hrecords.eq_of_length (hok rfl)]
      refine ⟨[order.request], ?_, ?_⟩
      · rw [sentIn_append, hsent]
        rfl
      · rw [eventsIn_append, hevents]
        exact .committed allowedCommits order.actions hallowedCommits order.nextActions

theorem posts_probe {nowNs : UInt64} (h : ProbeTurn nowNs state effects true after) :
    Posts state.metrics after.metrics effects := by
  cases h with
  | refused hrefused => exact ⟨[], rfl, .refused⟩
  | recovered hquarantined hconfirmed order exchanged hexchanged validUntilNs hdeadline after hafter
      records ok hrecords hok =>
      obtain ⟨hsent, hevents⟩ := hexchanged.silent
      rw [hrecords.eq_of_length (hok rfl)]
      subst hafter
      refine ⟨[.probe order.certificate order.nonce state.authoritySnapshot], ?_, ?_⟩
      · rw [List.cons_append, sentIn_records, sentIn_append, hsent]
        rfl
      · rw [List.cons_append, eventsIn_records, eventsIn_append, hevents]
        exact .recovered

/-- Every turn that returned `Ok` without ending the run is a posting. -/
theorem posts_turn {nowNs : UInt64} {signal : Signal}
    (h : AuthorityTurn nowNs state signal effects true after) (hsignal : ¬signal.Ends) :
    Posts state.metrics after.metrics effects := by
  cases h with
  | begun hidle => exact ⟨[], rfl, .begun⟩
  | commit hturn => exact posts_commit hturn
  | reset epoch generation hepoch hgeneration hturn =>
      exact @posts_quarantine ((state.withEpoch epoch).withGeneration generation) _ _ _ hturn
  | timeout hturn => exact posts_quarantine hturn
  | probe hturn => exact posts_probe hturn
  | conclude signal hends => exact absurd hends hsignal

/-- Counters that agree with the ledger leave no damage to find. -/
theorem Tally.damage_eq_zero {events : List String} {works turns : Nat}
    (h : Tally state.metrics events works turns) : state.assessed.metrics.damage = 0 := by
  have hactions : state.metrics.childActions = state.metrics.allowedCommits :=
    UInt64.toNat_inj.mp (h.childActions.trans h.allowedCommits.symm)
  have hverified : state.metrics.verifiedWorkAcks = state.metrics.allowedCommits :=
    UInt64.toNat_inj.mp (h.verifiedWorkAcks.trans h.allowedCommits.symm)
  have hrollbacks : state.metrics.rollbackAcks = state.metrics.rollbacks :=
    UInt64.toNat_inj.mp (h.rollbackAcks.trans h.rollbacks.symm)
  simp [RuntimeState.assessed, RuntimeState.withDamage, hactions, hverified, hrollbacks]

/-- The end of an accepted run. -/
theorem concluded_labels {events : List String} {works turns : Nat}
    (h : ConcludeTurn state effects true after)
    (htally : Tally state.metrics events works turns) :
    labelsIn effects = [⟨.event, "FINAL", Decision.allow.toU8⟩,
        ⟨.seal, "LEDGER_SEAL", Decision.allow.toU8⟩] ∧
      after.metrics = { state.metrics with damage := 0 } := by
  have hdamage := htally.damage_eq_zero
  cases h with
  | concluded nonce hnonce exchanged hexchanged records ok hrecords hok =>
      rw [hrecords.eq_of_length (hok rfl), labelsIn_append,
        labelsIn_of_recordedIn hexchanged.projections.2.2, if_pos hdamage]
      refine ⟨rfl, ?_⟩
      show { state.metrics with damage := state.assessed.metrics.damage } = _
      rw [hdamage]

end Turns

/-! ## Runs -/

/-- How many entries carry this event. -/
def eventCount (event : String) (entries : List LedgerEntry) : Nat :=
  (entries.map LedgerEntry.event).count event

/-- The metrics agree with the entries of the ledger and the WORK requests sent. -/
structure Reconciles (metrics : Metrics) (entries : List LedgerEntry) (works : Nat) : Prop where
  damage : metrics.damage = 0
  finals : eventCount "FINAL" entries = 1
  allowed : ∀ entry ∈ entries, entry.event = "FINAL" → entry.decision = Decision.allow.toU8
  childActions : metrics.childActions = metrics.allowedCommits
  verifiedWorkAcks : metrics.verifiedWorkAcks = metrics.allowedCommits
  commits : metrics.allowedCommits.toNat = eventCount "COMMIT" entries
  acknowledged : metrics.allowedCommits.toNat = eventCount "CHILD_ACK_ACCEPTED" entries
  works : metrics.allowedCommits.toNat = works
  blockedCommits : metrics.blockedCommits.toNat = eventCount "COMMIT_BLOCKED" entries
  rollbackAcks : metrics.rollbackAcks = metrics.rollbacks
  rollbacks : metrics.rollbacks.toNat = eventCount "QUARANTINE" entries
  confirmed : metrics.rollbacks.toNat = eventCount "ROLLBACK_ACK_ACCEPTED" entries
  probeRequests : metrics.functionalProbeRequests.toNat =
    eventCount "FUNCTIONAL_FRESHNESS_PROBE_REQUEST" entries +
      eventCount "FUNCTIONAL_FRESHNESS_PROBE_REJECTED" entries
  probeRecoveries : metrics.functionalProbeRecoveries.toNat =
    eventCount "FUNCTIONAL_FRESHNESS_PROBE_ACCEPTED" entries
  leases : metrics.functionalProbeRecoveries.toNat + 1 = eventCount "LEASE_INSTALLED" entries
  unrejected : eventCount "PROTOCOL_ACK_REJECTED" entries = 0
  unrefused : eventCount "ROLLBACK_ACK_REJECTED" entries = 0

namespace Runtime

/-- The tally of everything so far. -/
def Tallied (effects : List Effect) (turns : Nat) (state : RuntimeState) : Prop :=
  ∃ requests : List BoundChildRequest, sentIn effects = requests.map BoundChildRequest.encode ∧
    Tally state.metrics (eventsIn effects) (requests.countP BoundChildRequest.isWork) turns

theorem tallied_new {startup : Startup} {runtime : Runtime} {effects : List Effect}
    (hnew : new startup = .ok (runtime, effects)) : Tallied effects 0 runtime.toRuntimeState := by
  have hlaunched := launched_of_new hnew
  obtain ⟨_, _, hstate⟩ := hlaunched.state
  obtain ⟨_, line, _, _, _, _, _, heffects⟩ := hlaunched.child
  have hmetrics : runtime.metrics = .zero := by
    rw [hstate]
    rfl
  have hevents : eventsIn effects = ["LEASE_INSTALLED"] := by
    rw [heffects, eventsIn_append, eventsIn_of_recordedIn (recordedIn_deliveries _)]
    rfl
  refine ⟨[], ?_, ?_⟩
  · rw [heffects, sentIn_append, sentIn_deliveries]
    rfl
  · rw [hmetrics, hevents]
    constructor <;> decide

theorem tallied_transition {runtime : Runtime} {occurrence : Occurrence} {effects : List Effect}
    {turns : Nat} (h : Tallied effects turns runtime.toRuntimeState)
    (hroom : turns + 1 < UInt64.size)
    (hcontinues : (runtimeMachine.transition runtime occurrence).output.ends = false) :
    Tallied (effects ++ (runtimeMachine.transition runtime occurrence).output.effects) (turns + 1)
      (runtimeMachine.transition runtime occurrence).after.toRuntimeState := by
  obtain ⟨requests, hsent, htally⟩ := h
  obtain ⟨hturn, hsignal⟩ := turn_of_continuing hcontinues
  obtain ⟨more, hmore, hposting⟩ := posts_turn hturn hsignal
  refine ⟨requests ++ more, ?_, ?_⟩
  · rw [sentIn_append, hsent, hmore, List.map_append]
  · rw [eventsIn_append, List.countP_append]
    exact htally.posted hroom hposting

theorem tallied_past {startup : Startup} {runtime : Runtime} {effects : List Effect}
    (hnew : new startup = .ok (runtime, effects)) {occurrences : List Occurrence}
    (hcontinues : ∀ turn ∈ runtimeMachine.trace runtime occurrences, turn.output.ends = false)
    (hroom : (runtimeMachine.trace runtime occurrences).length < UInt64.size) :
    Tallied (effects ++ effectsOf (runtimeMachine.trace runtime occurrences))
      (runtimeMachine.trace runtime occurrences).length
      (runtimeMachine.run runtime occurrences).toRuntimeState := by
  refine runtimeMachine.past_induction (motive := fun turns state =>
    turns.length < UInt64.size →
      Tallied (effects ++ effectsOf turns) turns.length state.toRuntimeState) ?_ ?_ hcontinues hroom
  · intro _
    rw [effectsOf_nil, List.append_nil]
    exact tallied_new hnew
  · intro turns state occurrence hturns hends hroom
    rw [List.length_append, List.length_singleton] at hroom ⊢
    rw [effectsOf_append, effectsOf_cons, effectsOf_nil, List.append_nil, ← List.append_assoc]
    exact tallied_transition (hturns (Nat.lt_of_succ_lt hroom)) hroom hends

/-- The entries of a run whose end was recorded. -/
theorem reconciles_concluded {metrics : Metrics} {labels : List EntryLabel}
    {entries : List LedgerEntry} {works turns : Nat}
    (htally : Tally metrics (labels.map EntryLabel.event) works turns)
    (hentries : entries.map LedgerEntry.label = labels ++
      [⟨.event, "FINAL", Decision.allow.toU8⟩, ⟨.seal, "LEDGER_SEAL", Decision.allow.toU8⟩]) :
    Reconciles { metrics with damage := 0 } entries works := by
  have hcount : ∀ event, eventCount event entries =
      (labels.map EntryLabel.event).count event + ["FINAL", "LEDGER_SEAL"].count event := by
    intro event
    have hevents := congrArg (List.map EntryLabel.event) hentries
    rw [List.map_map, List.map_append] at hevents
    rw [eventCount, ← List.count_append]
    exact congrArg (List.count event) hevents
  have hfinal : ∀ entry ∈ entries, entry.event = "FINAL" →
      entry.decision = Decision.allow.toU8 := by
    intro entry hentry hevent
    have hlabel := List.mem_map_of_mem (f := LedgerEntry.label) hentry
    rw [hentries, List.mem_append] at hlabel
    rcases hlabel with hlabel | hlabel
    · have hnone := List.count_eq_zero.mp htally.unfinished
      exact absurd (hevent ▸ List.mem_map_of_mem (f := EntryLabel.event) hlabel) hnone
    · simp only [List.mem_cons, List.not_mem_nil, or_false] at hlabel
      rcases hlabel with hlabel | hlabel <;> exact congrArg EntryLabel.decision hlabel
  have hactions := UInt64.toNat_inj.mp (htally.childActions.trans htally.allowedCommits.symm)
  have hverified := UInt64.toNat_inj.mp (htally.verifiedWorkAcks.trans htally.allowedCommits.symm)
  have hrollbacks := UInt64.toNat_inj.mp (htally.rollbackAcks.trans htally.rollbacks.symm)
  have hworks := htally.allowedCommits.trans htally.works.symm
  refine ⟨rfl, ?_, hfinal, hactions, hverified, ?_, ?_, hworks, ?_, hrollbacks, ?_, ?_, ?_, ?_, ?_,
    ?_, ?_⟩ <;> cases htally <;> simp [hcount] <;> omega

/-- The sealed ledger of an accepted run verifies, and its entries account for every
counter of the metrics; in particular the run ends without damage. -/
theorem ledger_reconciles {startup : Startup} {runtime : Runtime} {effects : List Effect}
    (hnew : new startup = .ok (runtime, effects)) {occurrences : List Occurrence}
    (hsteps : (runtime.history occurrences).length < 2 ^ 63) {metrics : Metrics}
    (hrun : runtime.run occurrences = some (.ok metrics)) :
    ∃ (last : Turn) (entries : List LedgerEntry) (requests : List BoundChildRequest),
      (runtime.history occurrences).getLast? = some last ∧
      last.after.ledger.file = ledgerFile entries ∧
      (verifyReader last.after.ledger.file).passed = true ∧
      sentIn (effects ++ effectsOf (runtime.history occurrences)) =
        requests.map BoundChildRequest.encode ∧
      Reconciles metrics entries (requests.countP BoundChildRequest.isWork) := by
  obtain ⟨used, last, hcontinues, hhistory, hresult⟩ := run_eq_ok hrun
  have hroom : (runtimeMachine.trace runtime used).length < UInt64.size := by
    have hrange : (2 : Nat) ^ 63 < UInt64.size := by decide
    rw [hhistory, List.length_append, List.length_singleton] at hsteps
    omega
  -- what every turn before the last has posted, and what it has written
  obtain ⟨requests, hsent, htally⟩ := tallied_past hnew hcontinues hroom
  obtain ⟨entries, hholds, hwrote⟩ :=
    booked_transition hresult (booked_past (booked_new hnew) hcontinues)
  have hentries := labelsIn_of_wrote hwrote
  obtain ⟨hturn, rfl⟩ := turn_of_concluding hresult
  obtain ⟨hlabels, hmetrics⟩ := concluded_labels hturn htally
  obtain ⟨id, nonce, authority, hstop⟩ := sentIn_concluded hturn
  rw [labelsIn_append, hlabels] at hentries
  -- the last turn writes the seal
  have hsealed : (chain.reach .start entries).sealSeen = true := by
    have hlabel : ⟨.seal, "LEDGER_SEAL", Decision.allow.toU8⟩ ∈ entries.map LedgerEntry.label := by
      rw [hentries]
      simp
    obtain ⟨entry, hentry, hkind⟩ := List.mem_map.mp hlabel
    exact (Ledger.reach_sealSeen .start entries).mpr
      (.inr ⟨entry, hentry, congrArg EntryLabel.kind hkind⟩)
  refine ⟨_, entries, requests ++ [.stop id nonce authority], ?_, hholds.file,
    verifyReader_passed_iff.mpr ⟨entries, hholds.file, hholds.accepts, hsealed⟩, ?_, ?_⟩
  · rw [hhistory, List.getLast?_concat]
  · rw [hhistory, effectsOf_append, effectsOf_cons, effectsOf_nil, List.append_nil,
      ← List.append_assoc, sentIn_append, hsent, hstop, List.map_append]
    rfl
  · rw [hmetrics, List.countP_append]
    exact reconciles_concluded htally hentries

/-- An accepted run with a commit, a quarantine and the recovery from it. -/
theorem ledger_reconciles_recovery :
    ∃ runtime effects occurrences metrics last entries,
      ∃ requests : List BoundChildRequest, new calmStartup = .ok (runtime, effects) ∧
      runtime.run occurrences = some (.ok metrics) ∧
      metrics.allowedCommits = 1 ∧ metrics.quarantines = 1 ∧ metrics.functionalProbeRecoveries = 1 ∧
      (runtime.history occurrences).getLast? = some last ∧
      last.after.ledger.file = ledgerFile entries ∧
      (verifyReader last.after.ledger.file).passed = true ∧
      sentIn (effects ++ effectsOf (runtime.history occurrences)) =
        requests.map BoundChildRequest.encode ∧
      Reconciles metrics entries (requests.countP BoundChildRequest.isWork) := by
  let cues : List Cue := [⟨1, .event .begin⟩, ⟨2, .event .commit⟩, ⟨3, .timeout⟩,
    ⟨4, .event .functionalFreshnessProbe⟩]
  obtain ⟨runtime, effects, hnew, hpoised⟩ := @poised_calmStartup 14 (by decide)
  have hrun := @calm_accepted _ _ cues 5 hpoised (by decide) (by decide)
  have hlength := runtimeMachine.length_session_le TurnReport.ends runtime
    (calmState.occurrences cues ++ [(calmState.advancedBy cues).occurrence ⟨5, .event .stop⟩])
  rw [List.length_append, RuntimeState.length_occurrences] at hlength
  obtain ⟨last, entries, requests, hlast, hfile, hpassed, hsent, hreconciles⟩ :=
    ledger_reconciles hnew (Nat.lt_of_le_of_lt hlength (by decide)) hrun
  exact ⟨runtime, effects, _, _, last, entries, requests, hnew, hrun, by decide, by decide,
    by decide, hlast, hfile, hpassed, hsent, hreconciles⟩

end Runtime

end Oasi
