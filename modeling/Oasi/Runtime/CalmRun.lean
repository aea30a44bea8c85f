import Oasi.Runtime.Calm
import Oasi.Runtime.Transactions

/-! # Calm runs

A turn that returns `Ok` is determined by its signal and the clock: which request
it makes, and which fields it leaves. In calm surroundings, where each request is
answered after it was written, a list of signals therefore determines a whole run.
-/

namespace Oasi

/-- A signal and the clock at its turn. -/
structure Cue where
  nowNs : UInt64
  signal : Signal
  deriving DecidableEq, Repr

namespace RuntimeState

/-- The fields after a quarantine whose rollback was acknowledged. -/
def rolledBack (state : RuntimeState) : RuntimeState :=
  (state.quarantinedAs (saturatingSucc state.metrics.rollbacks)
    (saturatingSucc state.transactionNonce)).confirmRollback

/-- The fields that an epoch reset changes before its quarantine. -/
def renewed (state : RuntimeState) : RuntimeState :=
  (state.withEpoch (saturatingSucc state.body.epoch)).withGeneration
    (saturatingSucc state.body.generation)

def workRequest (state : RuntimeState) (units : UInt64) : BoundChildRequest :=
  .work (saturatingSucc state.actionCounter) (saturatingSucc state.transactionNonce) units
    state.authoritySnapshot

def rollbackRequest (state : RuntimeState) : BoundChildRequest :=
  .rollback (saturatingSucc state.metrics.rollbacks) (saturatingSucc state.transactionNonce)
    state.authoritySnapshot

def probeRequest (state : RuntimeState) : BoundChildRequest :=
  .probe (saturatingSucc state.body.certificate) (saturatingSucc state.transactionNonce)
    state.authoritySnapshot

def stopRequest (state : RuntimeState) : BoundChildRequest :=
  .stop state.actionCounter (saturatingSucc state.transactionNonce) state.authoritySnapshot

/-- The request of a turn. -/
def requested (state : RuntimeState) (cue : Cue) : Option BoundChildRequest :=
  match cue.signal with
  | .event .begin => none
  | .event .commit =>
      if state.commitDecision cue.nowNs = .allow then state.reflex.workUnits.map state.workRequest
      else none
  | .event .reset => some state.renewed.rollbackRequest
  | .timeout => some state.rollbackRequest
  | .event .functionalFreshnessProbe =>
      if state.body.quarantined && state.rollbackConfirmed then some state.probeRequest else none
  | .event .stop | .disconnected => some state.stopRequest

/-- The fields after a turn that returned `Ok`. -/
def advanced (state : RuntimeState) (cue : Cue) : RuntimeState :=
  match cue.signal with
  | .event .begin => state.captured
  | .event .commit =>
      if state.commitDecision cue.nowNs = .allow then
        ((state.consumed cue.nowNs).withNonce (saturatingSucc state.transactionNonce)).countAllowed
          (saturatingSucc state.actionCounter) (saturatingSucc state.metrics.childActions)
          (saturatingSucc state.metrics.allowedCommits)
      else (state.consumed cue.nowNs).countBlocked
  | .event .reset => state.renewed.rolledBack
  | .timeout => state.rolledBack
  | .event .functionalFreshnessProbe =>
      if state.body.quarantined && state.rollbackConfirmed then
        state.recovered (saturatingSucc state.body.certificate)
          (saturatingSucc state.body.generation) (saturatingSucc state.transactionNonce)
          (cue.nowNs + Runtime.defaultLeaseNs)
      else state.countProbe
  | .event .stop | .disconnected =>
      (state.withNonce (saturatingSucc state.transactionNonce)).assessed

/-- The fields after some turns. -/
def advancedBy (state : RuntimeState) (cues : List Cue) : RuntimeState :=
  cues.foldl advanced state

end RuntimeState

/-! ## Determined turns -/

section Determined

variable {state after : RuntimeState} {effects : List Effect} {nowNs : UInt64}

/-- The fields after a turn, and what it writes to the child. -/
def RuntimeState.Determines (state : RuntimeState) (cue : Cue) (effects : List Effect)
    (after : RuntimeState) : Prop :=
  after = state.advanced cue ∧
    sentIn effects = ((state.requested cue).map BoundChildRequest.encode).toList

theorem QuarantineTurn.determined {reason : String}
    (h : QuarantineTurn reason state effects true after) :
    after = state.rolledBack ∧ sentIn effects = [state.rollbackRequest.encode] := by
  cases h with
  | confirmed order exchanged hexchanged =>
      obtain ⟨rollbacks, nonce, hrollbacks, hnonce⟩ := order
      obtain rfl := checkedSucc_eq_saturatingSucc hrollbacks
      obtain rfl := checkedSucc_eq_saturatingSucc hnonce
      exact ⟨rfl, (hexchanged.projections_append (onlyRecords_singleton _ state.revoked)
        (onlyRecords_singleton _ state.revoked)).1⟩

theorem CommitTurn.determined (h : CommitTurn nowNs state effects true after) :
    state.Determines ⟨nowNs, .event .commit⟩ effects after := by
  cases h with
  | blocked hblocked =>
      refine ⟨(if_neg hblocked).symm, ?_⟩
      simp [RuntimeState.requested, hblocked, RuntimeState.records, RuntimeState.calls]
  | committed hallowed order exchanged hexchanged allowedCommits hallowedCommits records _
      hrecords =>
      obtain ⟨id, actions, units, nonce, hid, hactions, hunits, hnonce⟩ := order
      obtain rfl := checkedSucc_eq_saturatingSucc hid
      obtain rfl := checkedSucc_eq_saturatingSucc hactions
      obtain rfl := checkedSucc_eq_saturatingSucc hnonce
      obtain rfl := checkedSucc_eq_saturatingSucc hallowedCommits
      refine ⟨(if_pos hallowed).symm, ?_⟩
      have hsent := (hexchanged.projections_append onlyRecords_nil
        ((onlyRecords_pair _ _ state state).front hrecords)).1
      rw [RuntimeState.requested, if_pos hallowed, hunits]
      exact hsent

theorem leaseDeadline_eq {validUntilNs : UInt64} (hprogram : state.reflex = Runtime.program)
    (hclock : nowNs.toNat + Runtime.defaultLeaseNs.toNat < UInt64.size)
    (h : state.leaseDeadline nowNs = .ok validUntilNs) :
    validUntilNs = nowNs + Runtime.defaultLeaseNs := by
  have hrange : leaseInRange Runtime.defaultLeaseNs := by decide
  have hadd : checkedAdd nowNs Runtime.defaultLeaseNs = some (nowNs + Runtime.defaultLeaseNs) :=
    if_pos hclock
  rw [RuntimeState.leaseDeadline, hprogram, mapError_eq_ok] at h
  simp [checkedLeaseDeadline, Runtime.program, hrange, failIf, hadd, pure, Except.pure] at h
  exact h.symm

theorem ProbeTurn.determined (hprogram : state.reflex = Runtime.program)
    (hclock : nowNs.toNat + Runtime.defaultLeaseNs.toNat < UInt64.size)
    (h : ProbeTurn nowNs state effects true after) :
    state.Determines ⟨nowNs, .event .functionalFreshnessProbe⟩ effects after := by
  cases h with
  | refused hrefused =>
      have hnot : ¬((state.body.quarantined && state.rollbackConfirmed) = true) := by
        rcases hrefused with hrefused | hrefused <;> simp [hrefused]
      refine ⟨(if_neg hnot).symm, ?_⟩
      simp [RuntimeState.requested, hnot, RuntimeState.records, RuntimeState.calls]
  | recovered hquarantined hconfirmed order exchanged hexchanged validUntilNs hdeadline _ hafter
      records _ hrecords =>
      obtain ⟨certificate, generation, nonce, hcertificate, hgeneration, hnonce⟩ := order
      obtain rfl := checkedSucc_eq_saturatingSucc hcertificate
      obtain rfl := checkedSucc_eq_saturatingSucc hgeneration
      obtain rfl := checkedSucc_eq_saturatingSucc hnonce
      obtain rfl := leaseDeadline_eq hprogram hclock hdeadline
      have hboth : (state.body.quarantined && state.rollbackConfirmed) = true := by
        rw [hquarantined, hconfirmed]
        rfl
      refine ⟨hafter.trans (if_pos hboth).symm, ?_⟩
      rw [RuntimeState.requested, if_pos hboth]
      exact (hexchanged.projections_append (onlyRecords_singleton _ state)
        ((onlyRecords_pair _ _ after after).front hrecords)).1

theorem ConcludeTurn.determined (h : ConcludeTurn state effects true after) :
    after = (state.withNonce (saturatingSucc state.transactionNonce)).assessed ∧
      sentIn effects = [state.stopRequest.encode] := by
  cases h with
  | concluded nonce hnonce exchanged hexchanged records _ hrecords =>
      obtain rfl := checkedSucc_eq_saturatingSucc hnonce
      have hsilent := ((onlyRecords_pair _ _ state state).front hrecords).silent.1
      refine ⟨rfl, ?_⟩
      rw [sentIn_append, hexchanged.projections.1, hsilent, List.append_nil]
      rfl

/-- A turn that returned `Ok` is determined by its signal and the clock. -/
theorem AuthorityTurn.determined {signal : Signal} (hprogram : state.reflex = Runtime.program)
    (hclock : nowNs.toNat + Runtime.defaultLeaseNs.toNat < UInt64.size)
    (h : AuthorityTurn nowNs state signal effects true after) :
    state.Determines ⟨nowNs, signal⟩ effects after := by
  cases h with
  | begun hidle => exact ⟨rfl, rfl⟩
  | commit hturn => exact hturn.determined
  | reset epoch generation hepoch hgeneration hturn =>
      obtain rfl := checkedSucc_eq_saturatingSucc hepoch
      obtain rfl := checkedSucc_eq_saturatingSucc hgeneration
      exact hturn.determined
  | timeout hturn => exact hturn.determined
  | probe hturn => exact hturn.determined hprogram hclock
  | conclude signal hsignal hturn => rcases hsignal with rfl | rfl <;> exact hturn.determined

end Determined

/-! ## Cues -/

namespace RuntimeState

/-- The turn can return `Ok` in calm surroundings: its counters and the clock have room,
and a begin finds nothing pending. -/
def fits (state : RuntimeState) (cue : Cue) : Bool :=
  decide (state.actionCounter.toNat ≤ 1000) && decide (state.metrics.childActions.toNat ≤ 1000) &&
  decide (state.metrics.allowedCommits.toNat ≤ 1000) &&
  decide (state.metrics.rollbacks.toNat ≤ 1000) && decide (state.body.epoch.toNat ≤ 1000) &&
  decide (state.body.generation.toNat ≤ 1000) && decide (state.body.certificate.toNat ≤ 1000) &&
  decide (state.transactionNonce.toNat ≤ 1000) &&
  decide (cue.nowNs.toNat + Runtime.defaultLeaseNs.toNat < UInt64.size) &&
  !(cue.signal == .event .begin && state.authorityTransaction.pending)

/-- Each of some turns fits after those before it, and none ends the run. -/
def fitsAll (state : RuntimeState) : List Cue → Bool
  | [] => true
  | cue :: rest =>
      cue.signal != .event .stop && cue.signal != .disconnected && state.fits cue &&
        (state.advanced cue).fitsAll rest

/-- The acknowledgement that the turn waits for. -/
def awaited (state : RuntimeState) (cue : Cue) : List ReaderMessage :=
  ((state.requested cue).map fun request => .line (trimEndNewlines
    (request.ack (UInt64.ofNat
      (request.counted state.metrics.childActions.toNat))).canonical)).toList

/-- A turn in calm surroundings: its request is answered after it was written. -/
def occurrence (state : RuntimeState) (cue : Cue) : Occurrence :=
  ⟨cue.signal, Runtime.calmSurroundings cue.nowNs [] (state.awaited cue)⟩

/-- The turns of a calm run. -/
def occurrences (state : RuntimeState) : List Cue → List Occurrence
  | [] => []
  | cue :: rest => state.occurrence cue :: (state.advanced cue).occurrences rest

@[simp] theorem length_occurrences (state : RuntimeState) (cues : List Cue) :
    (state.occurrences cues).length = cues.length := by
  induction cues generalizing state with
  | nil => rfl
  | cons cue rest ih => rw [occurrences, List.length_cons, ih, List.length_cons]

theorem fits_within {state : RuntimeState} {cue : Cue} (h : state.fits cue = true) :
    state.Within 1000 ∧ cue.nowNs.toNat + Runtime.defaultLeaseNs.toNat < UInt64.size ∧
      (cue.signal = .event .begin → state.authorityTransaction.pending = false) := by
  simp only [fits, Bool.and_eq_true, decide_eq_true_eq, Bool.not_eq_true', Bool.and_eq_false_iff,
    beq_eq_false_iff_ne] at h
  obtain ⟨⟨⟨⟨⟨⟨⟨⟨⟨h₁, h₂⟩, h₃⟩, h₄⟩, h₅⟩, h₆⟩, h₇⟩, h₈⟩, hclock⟩, hidle⟩ := h
  exact ⟨⟨h₁, h₂, h₃, h₄, h₅, h₆, h₇, h₈⟩, hclock, fun hbegin => hidle.resolve_left (· hbegin)⟩

end RuntimeState

namespace Runtime

variable {runtime : Runtime} {room : Nat} {state other : RuntimeState} {cue : Cue}

/-- A ready runtime with these fields. -/
structure Poised (runtime : Runtime) (room : Nat) (state : RuntimeState) : Prop
    extends Ready runtime room where
  fields : runtime.toRuntimeState = state
  reflex : state.reflex = program

/-- The awaited acknowledgement is the answer to the request. -/
theorem answers_awaited {request : BoundChildRequest} {expected : BoundExpectedAck}
    {command : String} (hrequest : state.requested cue = some request)
    (hexpected : expected = request.ack
      (UInt64.ofNat (request.counted state.metrics.childActions.toNat))) :
    ((state.occurrence cue).surroundings.exchange command).Answers expected := by
  subst hexpected
  refine ⟨rfl, _, BoundExpectedAck.canonical_eq _, ?_⟩
  simp [RuntimeState.occurrence, calmSurroundings, RuntimeState.awaited, hrequest]

theorem answers_rollback (hrequest : state.requested cue = some other.rollbackRequest)
    (order : RollbackOrder other) :
    ((state.occurrence cue).surroundings.exchange order.command).Answers order.expected := by
  obtain ⟨rollbacks, nonce, hrollbacks, hnonce⟩ := order
  obtain rfl := checkedSucc_eq_saturatingSucc hrollbacks
  obtain rfl := checkedSucc_eq_saturatingSucc hnonce
  exact answers_awaited hrequest rfl

theorem answers_work {nowNs : UInt64} (hallowed : state.commitDecision nowNs = .allow)
    (order : WorkOrder state) :
    ((state.occurrence ⟨nowNs, .event .commit⟩).surroundings.exchange order.command).Answers
      order.expected := by
  rw [← order.expected_eq]
  refine answers_awaited ?_ rfl
  obtain ⟨id, actions, units, nonce, hid, hactions, hunits, hnonce⟩ := order
  obtain rfl := checkedSucc_eq_saturatingSucc hid
  obtain rfl := checkedSucc_eq_saturatingSucc hnonce
  rw [RuntimeState.requested, if_pos hallowed, hunits]
  rfl

theorem answers_probe {nowNs : UInt64} (hquarantined : state.body.quarantined = true)
    (hconfirmed : state.rollbackConfirmed = true) (order : ProbeOrder state) :
    ((state.occurrence ⟨nowNs, .event .functionalFreshnessProbe⟩).surroundings.exchange
      order.command).Answers order.expected := by
  obtain ⟨certificate, generation, nonce, hcertificate, hgeneration, hnonce⟩ := order
  obtain rfl := checkedSucc_eq_saturatingSucc hcertificate
  obtain rfl := checkedSucc_eq_saturatingSucc hnonce
  refine @answers_awaited _ _ state.probeRequest _ _ ?_ rfl
  simp [RuntimeState.requested, hquarantined, hconfirmed]

/-- A turn that fits completes in calm surroundings. -/
theorem leavesRoom_occurrence (hprogram : state.reflex = program) (hfits : state.fits cue = true)
    (hends : ¬cue.signal.Ends) :
    LeavesRoom (operationOf cue.signal) (state.occurrence cue).surroundings state room := by
  obtain ⟨hwithin, hclock, hidle⟩ := RuntimeState.fits_within hfits
  have hbound : 1000 + 1 < UInt64.size := by decide
  obtain ⟨nowNs, signal⟩ := cue
  cases signal with
  | timeout => exact leavesRoom_quarantine (by decide) hwithin hbound (answers_rollback rfl)
  | disconnected => exact absurd (.inr rfl) hends
  | event event =>
      cases event with
      | stop => exact absurd (.inl rfl) hends
      | begin => exact leavesRoom_begin (hidle rfl)
      | commit =>
          have hunits : state.reflex.workUnits = some 5000 := by rw [hprogram]; rfl
          exact leavesRoom_commit hwithin hbound hunits answers_work
      | reset =>
          refine leavesRoom_reset hwithin hbound fun epoch generation hepoch hgeneration => ?_
          obtain rfl := checkedSucc_eq_saturatingSucc hepoch
          obtain rfl := checkedSucc_eq_saturatingSucc hgeneration
          exact answers_rollback rfl
      | functionalFreshnessProbe =>
          obtain ⟨validUntilNs, hdeadline⟩ := leaseDeadline_isOk hprogram hclock
          exact leavesRoom_functionalFreshnessProbe hwithin hbound hdeadline answers_probe

theorem reflex_advanced (state : RuntimeState) (cue : Cue) :
    (state.advanced cue).reflex = state.reflex := by
  obtain ⟨nowNs, signal⟩ := cue
  unfold RuntimeState.advanced
  cases signal with
  | timeout => rfl
  | disconnected => rfl
  | event event =>
      cases event with
      | commit => dsimp only; split <;> rfl
      | functionalFreshnessProbe => dsimp only; split <;> rfl
      | begin => rfl
      | reset => rfl
      | stop => rfl

/-- A turn of a calm run. -/
structure CalmTurn (state : RuntimeState) (cue : Cue) (turn : Turn) : Prop where
  input : turn.input = state.occurrence cue
  before : turn.before.toRuntimeState = state
  after : turn.after.toRuntimeState = state.advanced cue
  sent : sentIn turn.output.effects =
    ((state.requested cue).map BoundChildRequest.encode).toList

theorem calmTurn_of_ok (h : runtime.Poised room state) (hfits : state.fits cue = true)
    {result : Option Metrics}
    (hresult : (runtimeMachine.transition runtime (state.occurrence cue)).output.result =
      .ok result) :
    CalmTurn state cue (runtimeMachine.transition runtime (state.occurrence cue)) := by
  have hturn := (turn_of_ok hresult).1
  rw [h.fields] at hturn
  obtain ⟨hafter, hsent⟩ := hturn.determined h.reflex (RuntimeState.fits_within hfits).2.1
  exact ⟨rfl, h.fields, hafter, hsent⟩

/-- One turn of a calm run. -/
theorem calm_transition (h : runtime.Poised (room + 3) state) (hfits : state.fits cue = true)
    (hends : ¬cue.signal.Ends) :
    (runtimeMachine.transition runtime (state.occurrence cue)).output.result = .ok none ∧
      (runtimeMachine.transition runtime (state.occurrence cue)).after.Poised room
        (state.advanced cue) ∧
      CalmTurn state cue (runtimeMachine.transition runtime (state.occurrence cue)) := by
  have hleaves := @leavesRoom_occurrence room state cue h.reflex hfits hends
  rw [← h.fields] at hleaves
  obtain ⟨hresult, hready⟩ := @ready_transition room runtime (state.occurrence cue) h.toReady
    (by simp [RuntimeState.occurrence, calmSurroundings]) hends (h.fields ▸ hleaves)
  have hcalm := calmTurn_of_ok h hfits hresult
  exact ⟨hresult, ⟨hready, hcalm.after, (reflex_advanced state cue).trans h.reflex⟩, hcalm⟩

/-- The turns of a calm run return `Ok`, and each is that of its cue. -/
theorem calm_trace {cues : List Cue} (h : runtime.Poised (3 * cues.length + room) state)
    (hfits : state.fitsAll cues = true) :
    (∀ turn ∈ runtimeMachine.trace runtime (state.occurrences cues),
      turn.output.result = .ok none) ∧
    (runtimeMachine.run runtime (state.occurrences cues)).Poised room (state.advancedBy cues) ∧
    ∀ earlier cue later, cues = earlier ++ cue :: later → ∃ past turn future,
      runtimeMachine.trace runtime (state.occurrences cues) = past ++ turn :: future ∧
        CalmTurn (state.advancedBy earlier) cue turn := by
  induction cues generalizing runtime state with
  | nil =>
      rw [List.length_nil, Nat.mul_zero, Nat.zero_add] at h
      refine ⟨fun turn hturn => absurd hturn List.not_mem_nil, h, ?_⟩
      intro earlier cue later hcues
      cases earlier <;> cases hcues
  | cons cue rest ih =>
      simp only [RuntimeState.fitsAll, Bool.and_eq_true, bne_iff_ne] at hfits
      obtain ⟨⟨⟨hstop, hdisconnected⟩, hfit⟩, hrest⟩ := hfits
      have hends : ¬cue.signal.Ends := fun hends => hends.elim hstop hdisconnected
      have hroom : 3 * (cue :: rest).length + room = 3 * rest.length + room + 3 := by
        rw [List.length_cons]
        omega
      obtain ⟨hresult, hpoised, hcalm⟩ := calm_transition (hroom ▸ h) hfit hends
      obtain ⟨hresults, hlast, hturns⟩ := ih hpoised hrest
      refine ⟨List.forall_mem_cons.mpr ⟨hresult, hresults⟩, hlast, ?_⟩
      rintro (_ | ⟨first, earlier⟩) other later hcues
      · obtain ⟨rfl, rfl⟩ := List.cons.inj hcues
        exact ⟨[], _, _, rfl, hcalm⟩
      · obtain ⟨rfl, rfl⟩ := List.cons.inj hcues
        obtain ⟨past, turn, future, htrace, hturn⟩ := hturns earlier other later rfl
        exact ⟨runtimeMachine.transition runtime (state.occurrence cue) :: past, turn, future,
          congrArg (runtimeMachine.transition runtime (state.occurrence cue) :: ·) htrace, hturn⟩

/-- Each turn of a calm run is that of one of its cues. -/
theorem calm_cue {cues : List Cue} (h : runtime.Poised (3 * cues.length + room) state)
    (hfits : state.fitsAll cues = true) :
    ∀ turn ∈ runtimeMachine.trace runtime (state.occurrences cues), ∃ earlier cue later,
      cues = earlier ++ cue :: later ∧ CalmTurn (state.advancedBy earlier) cue turn := by
  induction cues generalizing runtime state with
  | nil => exact fun turn hturn => absurd hturn List.not_mem_nil
  | cons cue rest ih =>
      simp only [RuntimeState.fitsAll, Bool.and_eq_true, bne_iff_ne] at hfits
      obtain ⟨⟨⟨hstop, hdisconnected⟩, hfit⟩, hrest⟩ := hfits
      have hends : ¬cue.signal.Ends := fun hends => hends.elim hstop hdisconnected
      have hroom : 3 * (cue :: rest).length + room = 3 * rest.length + room + 3 := by
        rw [List.length_cons]
        omega
      obtain ⟨_, hpoised, hcalm⟩ := calm_transition (hroom ▸ h) hfit hends
      intro turn hturn
      rcases List.mem_cons.mp hturn with rfl | hturn
      · exact ⟨[], cue, rest, rfl, hcalm⟩
      · obtain ⟨earlier, other, later, rfl, hother⟩ := ih hpoised hrest turn hturn
        exact ⟨cue :: earlier, other, later, rfl, hother⟩

/-- A calm run goes on after its last cue. -/
theorem calm_history {cues : List Cue} (h : runtime.Poised (3 * cues.length + room) state)
    (hfits : state.fitsAll cues = true) (more : List Occurrence) :
    runtime.history (state.occurrences cues ++ more) =
      runtimeMachine.trace runtime (state.occurrences cues) ++
        (runtimeMachine.run runtime (state.occurrences cues)).history more := by
  refine runtimeMachine.session_append (fun turn hturn => ?_) more
  rw [TurnReport.ends, (calm_trace h hfits).1 turn hturn]

theorem calm_history_eq {cues : List Cue} (h : runtime.Poised (3 * cues.length + room) state)
    (hfits : state.fitsAll cues = true) :
    runtime.history (state.occurrences cues) =
      runtimeMachine.trace runtime (state.occurrences cues) := by
  have hhistory := calm_history h hfits []
  rw [List.append_nil] at hhistory
  rw [hhistory]
  exact List.append_nil _

/-- The turn of one cue in the history of a calm run. -/
theorem calm_turn {cues earlier later : List Cue}
    (h : runtime.Poised (3 * cues.length + room) state) (hfits : state.fitsAll cues = true)
    (hcues : cues = earlier ++ cue :: later) :
    ∃ past turn future, runtime.history (state.occurrences cues) = past ++ turn :: future ∧
      CalmTurn (state.advancedBy earlier) cue turn := by
  rw [calm_history_eq h hfits]
  exact (calm_trace h hfits).2.2 earlier cue later hcues

/-- The end of a calm run. -/
theorem calm_conclusion {nowNs : UInt64} (h : runtime.Poised (room + 2) state)
    (hfits : state.fits ⟨nowNs, .event .stop⟩ = true) :
    (runtimeMachine.transition runtime (state.occurrence ⟨nowNs, .event .stop⟩)).output.result =
      .ok (some (state.advanced ⟨nowNs, .event .stop⟩).metrics) := by
  have hwithin := (RuntimeState.fits_within hfits).1
  have hcompletes := @completes_conclude (state.occurrence ⟨nowNs, .event .stop⟩).surroundings state
    room 1000 hwithin (by decide) fun nonce hnonce => by
      obtain rfl := checkedSucc_eq_saturatingSucc hnonce
      exact ⟨@answers_awaited _ _ state.stopRequest _ _ rfl rfl,
        ⟨⟨0, _, [], rfl, rfl⟩, rfl, rfl⟩⟩
  obtain ⟨metrics, hresult⟩ := @ready_conclusion room runtime
    (state.occurrence ⟨nowNs, .event .stop⟩) h.toReady
    (by simp [RuntimeState.occurrence, calmSurroundings]) (.inl rfl) (h.fields.symm ▸ hcompletes)
  rw [hresult, (turn_of_concluding hresult).2]
  have hafter := (calmTurn_of_ok h hfits hresult).after
  rw [← hafter]

/-! ## A calm start -/

/-- The fields of a runtime that was built at the start of the clock. -/
def calmState : RuntimeState :=
  (initialState program).withLease ((initialState program).leaseUntil defaultLeaseNs)

theorem poised_calmStartup (hroom : room + 1 < UInt64.size) :
    ∃ runtime effects, new calmStartup = .ok (runtime, effects) ∧
      runtime.Poised room calmState := by
  obtain ⟨runtime, effects, hnew, hready⟩ := @new_calm room calmStartup calm_calmStartup hroom
  obtain ⟨validUntilNs, hdeadline, hstate⟩ := (launched_of_new hnew).state
  have hvalid : validUntilNs = defaultLeaseNs :=
    (leaseDeadline_eq rfl (by decide) hdeadline).trans (by decide)
  subst hvalid
  exact ⟨runtime, effects, hnew, hready, hstate, rfl⟩

end Runtime

end Oasi
