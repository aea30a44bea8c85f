import Oasi.Runtime.Consistency
import Oasi.Runtime.Transactions

/-! # Where authority comes from

The lease that a runtime holds was installed since authority was last revoked, a
pending transaction began since then too, and a confirmed rollback belongs to the
most recent quarantine. Work and recovery are traced back to these.
-/

namespace Oasi

/-- The turn quarantines the body. -/
def Quarantines (turn : Turn) : Prop :=
  turn.input.signal = .timeout ∨ turn.input.signal = .event .reset

/-- The turn revokes authority: it quarantines the body, or it fails, as it does
when it rejects an acknowledgement. -/
def Revokes (turn : Turn) : Prop :=
  Quarantines turn ∨ ∃ error, turn.output.result = .error error

/-- The transaction was made in these effects and its acknowledgement accepted. -/
def Acknowledged (request : BoundChildRequest) (effects : List Effect) : Prop :=
  .sent request.encode ∈ effects ∧
    ∃ line actions, .accepted line ∈ effects ∧ line ++ "\n" = (request.ack actions).canonical

/-- The turn quarantined the body and the child acknowledged the rollback, made
for this authority and with a nonce up to the bound. -/
def RollsBack (authority : AuthoritySnapshot) (bound : UInt64) (turn : Turn) : Prop :=
  Quarantines turn ∧ ∃ id nonce, nonce ≤ bound ∧
    Acknowledged (.rollback id nonce authority) turn.output.effects

theorem RollsBack.mono {authority : AuthoritySnapshot} {bound bound' : UInt64} {turn : Turn}
    (h : RollsBack authority bound turn) (hbound : bound ≤ bound') :
    RollsBack authority bound' turn := by
  obtain ⟨hquarantines, id, nonce, hnonce, hacknowledged⟩ := h
  exact ⟨hquarantines, id, nonce, UInt64.le_trans hnonce hbound, hacknowledged⟩

namespace Runtime

/-- The lease was installed, when the runtime was built or in a turn, and no turn
since then revoked authority. -/
def InstalledSince (runtime : Runtime) (past : List Turn) (lease : SafetyLease) : Prop :=
  (runtime.activeLease = some lease ∧ ∀ turn ∈ past, ¬Revokes turn) ∨
    Since (fun turn => ¬Revokes turn) (fun _ turn => Installs turn lease) past

/-- The turn began a transaction under a lease that is still the installed one. -/
def BeginsUnder (runtime : Runtime) (lease : SafetyLease) (past : List Turn) (turn : Turn) : Prop :=
  turn.input.signal = .event .begin ∧ InstalledSince runtime past lease

/-- Neither a commit nor a revocation. -/
def KeepsPending (turn : Turn) : Prop := turn.input.signal ≠ .event .commit ∧ ¬Revokes turn

/-- Where the lease, the pending transaction and the confirmed rollback of a
runtime come from. -/
structure Provenance (runtime : Runtime) (past : List Turn) (state : RuntimeState) : Prop where
  lease : ∀ lease, state.activeLease = some lease → InstalledSince runtime past lease
  begun : state.authorityTransaction.pending = true →
    ∀ lease, state.authorityTransaction.capturedLease = some lease →
      Since KeepsPending (BeginsUnder runtime lease) past
  rollback : state.rollbackConfirmed = true →
    Since (fun turn => ¬Quarantines turn)
      (fun _ turn => RollsBack state.authoritySnapshot state.transactionNonce turn) past

theorem InstalledSince.concat {runtime : Runtime} {past : List Turn} {lease : SafetyLease}
    {turn : Turn} (h : InstalledSince runtime past lease) (hturn : ¬Revokes turn) :
    InstalledSince runtime (past ++ [turn]) lease := by
  rcases h with ⟨hlease, hpast⟩ | hsince
  · refine .inl ⟨hlease, fun other hother => ?_⟩
    rcases List.mem_append.mp hother with hother | hother
    · exact hpast other hother
    · rwa [List.mem_singleton.mp hother]
  · exact .inr (hsince.concat hturn)

theorem acknowledged_of_answered {command : String} {expected : BoundExpectedAck}
    {exchanged effects : List Effect} {request : BoundChildRequest} {actions : UInt64}
    (h : Answered command expected exchanged) (hcommand : command = request.encode)
    (hexpected : expected = request.ack actions) (hsubset : exchanged ⊆ effects) :
    Acknowledged request effects := by
  obtain ⟨hsent, ⟨line, hline, haccepted⟩, _⟩ := h.projections
  refine ⟨hsubset (mem_sentIn.mp ?_), line, actions, hsubset (mem_acceptedIn.mp ?_), ?_⟩
  · rw [hsent, hcommand]
    exact List.mem_singleton.mpr rfl
  · rw [haccepted]
    exact List.mem_singleton.mpr rfl
  · rw [hline, hexpected]

section Steps

variable {runtime : Runtime} {past : List Turn} {turn : Turn} {state after : RuntimeState}

/-- A turn that revokes nothing and keeps the lease, the transaction unless it is a
commit, and the rollback's authority. -/
theorem Provenance.keep (h : Provenance runtime past state) (hrevokes : ¬Revokes turn)
    (hlease : after.activeLease = state.activeLease)
    (hbegun : after.authorityTransaction.pending = true → turn.input.signal ≠ .event .commit ∧
      after.authorityTransaction = state.authorityTransaction)
    (hconfirmed : after.rollbackConfirmed = state.rollbackConfirmed)
    (hauthority : after.authoritySnapshot = state.authoritySnapshot)
    (hnonce : state.transactionNonce ≤ after.transactionNonce) :
    Provenance runtime (past ++ [turn]) after where
  lease := fun lease hheld => (h.lease lease (hlease ▸ hheld)).concat hrevokes
  begun := by
    intro hpending lease hcaptured
    obtain ⟨hsignal, htransaction⟩ := hbegun hpending
    rw [htransaction] at hpending hcaptured
    exact (h.begun hpending lease hcaptured).concat ⟨hsignal, hrevokes⟩
  rollback := by
    intro hrollback
    rw [hauthority]
    refine ((h.rollback (hconfirmed ▸ hrollback)).concat fun hquarantines => hrevokes
      (.inl hquarantines)).mono (fun _ hkeeps => hkeeps) fun _ _ hrolls => hrolls.mono hnonce

/-- A quarantine whose rollback was acknowledged. -/
theorem provenance_quarantine {reason : String} {effects : List Effect}
    (heffects : turn.output.effects = effects) (hquarantines : Quarantines turn)
    (h : QuarantineTurn reason state effects true after) :
    Provenance runtime (past ++ [turn]) after := by
  cases h with
  | confirmed order exchanged hexchanged =>
      refine ⟨(fun _ hlease => by cases hlease), (fun hpending => by cases hpending), fun _ => ?_⟩
      refine since_last ⟨hquarantines, order.rollbacks, order.nonce, UInt64.le_refl _, ?_⟩
      rw [heffects]
      refine @acknowledged_of_answered _ _ _ _ (.rollback order.rollbacks order.nonce
        state.authoritySnapshot) 0 hexchanged rfl rfl fun effect heffect => ?_
      exact List.mem_append_left _ (List.mem_cons_of_mem _ heffect)

theorem provenance_turn {nowNs : UInt64} {signal : Signal} {effects : List Effect}
    (hconsistent : Consistent state) (h : Provenance runtime past state)
    (hbefore : turn.before.toRuntimeState = state) (hafter : turn.after.toRuntimeState = after)
    (hsignal : turn.input.signal = signal) (heffects : turn.output.effects = effects)
    (hresult : ¬∃ error, turn.output.result = .error error)
    (hturn : AuthorityTurn nowNs state signal effects true after) (hends : ¬signal.Ends) :
    Provenance runtime (past ++ [turn]) after := by
  -- only a timeout, a reset and a turn that fails revoke
  have hrevokes : signal ≠ .timeout → signal ≠ .event .reset → ¬Revokes turn := by
    rintro htimeout hreset ((hquarantines | hquarantines) | hfails)
    · exact htimeout (hsignal ▸ hquarantines)
    · exact hreset (hsignal ▸ hquarantines)
    · exact hresult hfails
  cases hturn with
  | begun hidle =>
      have hkeeps := hrevokes (by simp) (by simp)
      refine ⟨fun lease hlease => (h.lease lease hlease).concat hkeeps, ?_, ?_⟩
      · intro _ lease hlease
        exact since_last ⟨hsignal, h.lease lease hlease⟩
      · intro hrollback
        exact (h.rollback hrollback).concat fun hquarantines => hkeeps (.inl hquarantines)
  | commit hcommit =>
      have hkeeps := hrevokes (by simp) (by simp)
      cases hcommit with
      | blocked hblocked =>
          refine h.keep hkeeps rfl (fun hpending => ?_) rfl rfl (UInt64.le_refl _)
          exact absurd ((consumed_pending state nowNs).symm.trans hpending) (by simp)
      | committed hallowed order exchanged hexchanged allowedCommits =>
          refine h.keep hkeeps rfl (fun hpending => ?_) rfl rfl (le_of_checkedSucc order.nextNonce)
          exact absurd ((consumed_pending state nowNs).symm.trans hpending) (by simp)
  | reset epoch generation hepoch hgeneration hquarantine =>
      exact provenance_quarantine heffects (.inr hsignal) hquarantine
  | timeout hquarantine => exact provenance_quarantine heffects (.inl hsignal) hquarantine
  | probe hprobe =>
      have hkeeps := hrevokes (by simp) (by simp)
      have hcommit : turn.input.signal ≠ .event .commit := by simp [hsignal]
      cases hprobe with
      | refused hrefused =>
          exact h.keep hkeeps rfl (fun _ => ⟨hcommit, rfl⟩) rfl rfl (UInt64.le_refl _)
      | recovered hquarantined hconfirmed order exchanged hexchanged validUntilNs hdeadline _
          hrecovered =>
          have hnone := hconsistent.quarantined_iff.mp hquarantined
          -- a probe installs a lease where there was none
          refine ⟨fun lease hlease => .inr (since_last ⟨?_, ?_⟩), ?_, ?_⟩
          · rw [hbefore, hnone]
            simp
          · rw [hafter]
            exact hlease
          · subst hrecovered
            intro hpending lease hcaptured
            exact (h.begun hpending lease hcaptured).concat ⟨hcommit, hkeeps⟩
          · subst hrecovered
            exact (nomatch ·)
  | conclude signal hconcludes => exact absurd hconcludes hends

end Steps

/-- The provenance of a runtime whose turns have all returned `Ok`. -/
theorem provenance_past {runtime : Runtime} (hruntime : Consistent runtime.toRuntimeState)
    (hidle : runtime.authorityTransaction.pending = false)
    (hunconfirmed : runtime.rollbackConfirmed = false) {occurrences : List Occurrence}
    (hcontinues : ∀ turn ∈ runtimeMachine.trace runtime occurrences, turn.output.ends = false) :
    Consistent (runtimeMachine.run runtime occurrences).toRuntimeState ∧
      Provenance runtime (runtimeMachine.trace runtime occurrences)
        (runtimeMachine.run runtime occurrences).toRuntimeState := by
  refine runtimeMachine.past_induction (motive := fun past state =>
    Consistent state.toRuntimeState ∧ Provenance runtime past state.toRuntimeState) ?_ ?_ hcontinues
  · refine ⟨hruntime, fun lease hlease => .inl ⟨hlease, ?_⟩, ?_, ?_⟩
    · exact fun turn hturn => absurd hturn List.not_mem_nil
    · intro hpending
      exact absurd (hidle.symm.trans hpending) (by simp)
    · intro hconfirmed
      exact absurd (hunconfirmed.symm.trans hconfirmed) (by simp)
  · rintro past state occurrence ⟨hconsistent, hprovenance⟩ hends
    obtain ⟨hturn, hsignal⟩ := turn_of_continuing hends
    refine ⟨consistent_turn hconsistent hturn hsignal, ?_⟩
    refine provenance_turn hconsistent hprovenance rfl rfl rfl rfl ?_ hturn hsignal
    rintro ⟨error, herror⟩
    have hresult := result_of_continues hends
    rw [hresult] at herror
    cases herror

theorem provenance_new {startup : Startup} {runtime : Runtime} {effects : List Effect}
    (hnew : new startup = .ok (runtime, effects)) {occurrences : List Occurrence}
    (hcontinues : ∀ turn ∈ runtimeMachine.trace runtime occurrences, turn.output.ends = false) :
    Consistent (runtimeMachine.run runtime occurrences).toRuntimeState ∧
      Provenance runtime (runtimeMachine.trace runtime occurrences)
        (runtimeMachine.run runtime occurrences).toRuntimeState := by
  have hlaunched := launched_of_new hnew
  obtain ⟨_, _, hstate⟩ := hlaunched.state
  refine provenance_past (consistent_launched hlaunched) ?_ ?_ hcontinues <;>
    (rw [hstate]; rfl)

/-! ## Work -/

/-- A commit that is allowed holds the installed lease, which covers the body and
has not expired, and a transaction begun under it is pending. -/
structure Entitled (runtime : Runtime) (past : List Turn) (nowNs : UInt64) (state : RuntimeState)
    (lease : SafetyLease) : Prop where
  held : state.activeLease = some lease
  covers : lease.authority = state.authoritySnapshot
  unexpired : nowNs < lease.validUntilNs
  pending : state.authorityTransaction.pending = true
  begun : Since KeepsPending (BeginsUnder runtime lease) past

theorem entitled_of_allowed {runtime : Runtime} {past : List Turn} {nowNs : UInt64}
    {state : RuntimeState} (hconsistent : Consistent state)
    (hprovenance : Provenance runtime past state)
    (hallowed : state.commitDecision nowNs = .allow) :
    ∃ lease, Entitled runtime past nowNs state lease := by
  obtain ⟨hpending, lease, hcaptured, hactive, hauthorizes⟩ :=
    AuthorityTransaction.commit_eq_allow.mp hallowed
  exact ⟨lease, hactive, hconsistent.leaseCovers lease hactive, hauthorizes.unexpired, hpending,
    hprovenance.begun hpending lease hcaptured⟩

/-- A work request is the request of an allowed commit, for the authority of the
moment. -/
theorem work_of_sent {runtime : Runtime} {occurrence : Occurrence} {id nonce units : UInt64}
    {authority : AuthoritySnapshot}
    (hsent : .sent (boundWorkRequest id nonce units authority) ∈
      (runtimeMachine.transition runtime occurrence).output.effects) :
    occurrence.signal = .event .commit ∧
      runtime.commitDecision occurrence.surroundings.nowNs = .allow ∧
      authority = runtime.authoritySnapshot := by
  obtain ⟨requests, hconversation, _⟩ := converses_transition runtime occurrence
  have hmem : (BoundChildRequest.work id nonce units authority).encode ∈
      requests.map BoundChildRequest.encode := hconversation.sent ▸ mem_sentIn.mpr hsent
  obtain ⟨request, hrequest, hencode⟩ := List.mem_map.mp hmem
  rw [BoundChildRequest.encode_injective hencode] at hrequest
  exact hconversation.permitted _ hrequest rfl

/-- The begins that returned `Ok`. -/
def acceptedBegins (turns : List Turn) : Nat :=
  turns.countP fun turn =>
    decide (turn.input.signal = .event .begin) && turn.output.result.toOption.isSome

/-- The work requests of the turns, with a pending transaction counted as the next
one, do not outnumber the begins. -/
def WorkWithin (turns : List Turn) (pending : Bool) : Prop :=
  ∃ requests : List BoundChildRequest,
    sentIn (effectsOf turns) = requests.map BoundChildRequest.encode ∧
      requests.countP BoundChildRequest.isWork + pending.toNat ≤ acceptedBegins turns

/-- What a turn does to the pending transaction. -/
theorem pending_turn {nowNs : UInt64} {state after : RuntimeState} {signal : Signal}
    {effects : List Effect} (h : AuthorityTurn nowNs state signal effects true after)
    (hends : ¬signal.Ends) :
    (signal = .event .begin ∧ state.authorityTransaction.pending = false) ∨
      after.authorityTransaction.pending = false ∨
      (signal ≠ .event .commit ∧
        after.authorityTransaction.pending = state.authorityTransaction.pending) := by
  cases h with
  | begun hidle => exact .inl ⟨rfl, hidle⟩
  | commit hturn =>
      cases hturn with
      | blocked hblocked => exact .inr (.inl (consumed_pending state nowNs))
      | committed hallowed => exact .inr (.inl (consumed_pending state nowNs))
  | reset epoch generation hepoch hgeneration hturn =>
      cases hturn
      exact .inr (.inl rfl)
  | timeout hturn =>
      cases hturn
      exact .inr (.inl rfl)
  | probe hturn =>
      cases hturn with
      | refused hrefused => exact .inr (.inr ⟨by simp, rfl⟩)
      | recovered hquarantined hconfirmed order exchanged hexchanged validUntilNs hdeadline _
          hrecovered =>
          subst hrecovered
          exact .inr (.inr ⟨by simp, rfl⟩)
  | conclude signal hconcludes => exact absurd hconcludes hends

theorem acceptedBegins_concat (turns : List Turn) (turn : Turn) :
    acceptedBegins turns ≤ acceptedBegins (turns ++ [turn]) := by
  rw [acceptedBegins, acceptedBegins, List.countP_append]
  exact Nat.le_add_right _ _

/-- One more turn requests work at most once, and only in place of the pending
transaction. -/
theorem work_transition (runtime : Runtime) (occurrence : Occurrence) :
    ∃ requests : List BoundChildRequest,
      sentIn (runtimeMachine.transition runtime occurrence).output.effects =
        requests.map BoundChildRequest.encode ∧
      requests.countP BoundChildRequest.isWork ≤ runtime.authorityTransaction.pending.toNat ∧
      (occurrence.signal ≠ .event .commit → requests.countP BoundChildRequest.isWork = 0) := by
  obtain ⟨requests, hconversation, _⟩ := converses_transition runtime occurrence
  have hwork : occurrence.signal ≠ .event .commit ∨ runtime.authorityTransaction.pending = false →
      requests.countP BoundChildRequest.isWork = 0 := by
    intro hidle
    rw [List.countP_eq_zero]
    intro request hrequest hiswork
    obtain ⟨hsignal, hallowed, _⟩ := hconversation.permitted request hrequest hiswork
    have hpending := (AuthorityTransaction.commit_eq_allow.mp hallowed).1
    rcases hidle with hother | hidle
    · exact hother hsignal
    · exact absurd (hidle.symm.trans hpending) (by simp)
  refine ⟨requests, hconversation.sent, ?_, fun hsignal => hwork (.inl hsignal)⟩
  cases hpending : runtime.authorityTransaction.pending with
  | false => exact Nat.le_of_eq (hwork (.inr hpending))
  | true => exact Nat.le_trans List.countP_le_length hconversation.single

theorem WorkWithin.concat {turns : List Turn} {runtime : Runtime} {occurrence : Occurrence}
    (h : WorkWithin turns runtime.authorityTransaction.pending) :
    WorkWithin (turns ++ [runtimeMachine.transition runtime occurrence]) false ∧
      ((runtimeMachine.transition runtime occurrence).output.ends = false →
        WorkWithin (turns ++ [runtimeMachine.transition runtime occurrence])
          (runtimeMachine.transition runtime occurrence).after.authorityTransaction.pending) := by
  obtain ⟨requests, hsent, hcount⟩ := h
  obtain ⟨more, hmore, hwork, hother⟩ := work_transition runtime occurrence
  have hsents : sentIn (effectsOf (turns ++ [runtimeMachine.transition runtime occurrence])) =
      (requests ++ more).map BoundChildRequest.encode := by
    rw [effectsOf_append, effectsOf_cons, effectsOf_nil, List.append_nil, sentIn_append, hsent,
      hmore, List.map_append]
  have hbegins := acceptedBegins_concat turns (runtimeMachine.transition runtime occurrence)
  have hwithin : WorkWithin (turns ++ [runtimeMachine.transition runtime occurrence]) false := by
    refine ⟨requests ++ more, hsents, ?_⟩
    rw [List.countP_append, Bool.toNat_false]
    omega
  refine ⟨hwithin, fun hends => ?_⟩
  obtain ⟨hturn, hsignal⟩ := turn_of_continuing hends
  rcases pending_turn hturn hsignal with ⟨hbegin, hidle⟩ | hconsumed | ⟨hcommit, hsame⟩
  · refine ⟨requests ++ more, hsents, ?_⟩
    have hresult := result_of_continues hends
    have haccepted : acceptedBegins (turns ++ [runtimeMachine.transition runtime occurrence]) =
        acceptedBegins turns + 1 := by
      rw [acceptedBegins, List.countP_append, List.countP_singleton, hresult]
      simp [acceptedBegins, Machine.transition, hbegin, Except.toOption]
    have hnone := hother (by simp [hbegin])
    have hlast := Bool.toNat_le
      (runtimeMachine.transition runtime occurrence).after.authorityTransaction.pending
    rw [List.countP_append, haccepted]
    omega
  · rwa [hconsumed]
  · refine ⟨requests ++ more, hsents, ?_⟩
    have hnone := hother hcommit
    rw [List.countP_append, hsame]
    omega

theorem workWithin_past {runtime : Runtime}
    (hidle : runtime.authorityTransaction.pending = false) {occurrences : List Occurrence}
    (hcontinues : ∀ turn ∈ runtimeMachine.trace runtime occurrences, turn.output.ends = false) :
    WorkWithin (runtimeMachine.trace runtime occurrences)
      (runtimeMachine.run runtime occurrences).authorityTransaction.pending := by
  refine runtimeMachine.past_induction (motive := fun past state =>
    WorkWithin past state.authorityTransaction.pending) ?_ ?_ hcontinues
  · exact ⟨[], rfl, by rw [hidle]; exact Nat.le_refl 0⟩
  · intro past state occurrence hwithin hends
    exact hwithin.concat.2 hends

theorem workWithin_history {runtime : Runtime}
    (hidle : runtime.authorityTransaction.pending = false) (occurrences : List Occurrence) :
    WorkWithin (runtime.history occurrences) false := by
  obtain ⟨used, hcontinues, hhistory | ⟨occurrence, _, hhistory⟩⟩ :=
    runtimeMachine.session_cases TurnReport.ends runtime occurrences
  · obtain ⟨requests, hsent, hcount⟩ := workWithin_past hidle hcontinues
    rw [history, hhistory]
    exact ⟨requests, hsent, Nat.le_trans (Nat.le_add_right _ _) hcount⟩
  · rw [history, hhistory]
    exact (workWithin_past hidle hcontinues).concat.1

/-- Every work request is sent by a commit that is entitled to it, and there are no
more of them than begins. -/
theorem work_entitled {startup : Startup} {runtime : Runtime} {effects : List Effect}
    (hnew : new startup = .ok (runtime, effects)) (occurrences : List Occurrence) :
    (∀ earlier turn later, runtime.history occurrences = earlier ++ turn :: later →
      ∀ id nonce units authority,
        .sent (boundWorkRequest id nonce units authority) ∈ turn.output.effects →
          turn.input.signal = .event .commit ∧
          turn.before.authoritySnapshot = authority ∧
          ∃ lease, lease.authority = authority ∧
            Entitled runtime earlier turn.input.surroundings.nowNs turn.before.toRuntimeState
              lease) ∧
    ∃ requests : List BoundChildRequest,
      sentIn (effectsOf (runtime.history occurrences)) =
        requests.map BoundChildRequest.encode ∧
      requests.countP BoundChildRequest.isWork ≤ acceptedBegins (runtime.history occurrences) := by
  refine ⟨?_, ?_⟩
  · intro earlier turn later hsplit id nonce units authority hsent
    obtain ⟨used, occurrence, rfl, rfl, hcontinues⟩ := runtimeMachine.session_split hsplit
    obtain ⟨hsignal, hallowed, hauthority⟩ := work_of_sent hsent
    obtain ⟨hconsistent, hprovenance⟩ := provenance_new hnew hcontinues
    obtain ⟨lease, hentitled⟩ := entitled_of_allowed hconsistent hprovenance hallowed
    exact ⟨hsignal, hauthority.symm, lease, hentitled.covers.trans hauthority.symm, hentitled⟩
  · obtain ⟨_, _, hstate⟩ := (launched_of_new hnew).state
    have hidle : runtime.authorityTransaction.pending = false := by
      rw [hstate]
      rfl
    exact workWithin_history hidle occurrences

/-- A commit that is entitled by the begin before it. -/
theorem work_entitled_commit :
    ∃ runtime effects occurrences earlier turn later id nonce units authority lease,
      ∃ requests : List BoundChildRequest, new calmStartup = .ok (runtime, effects) ∧
      runtime.history occurrences = earlier ++ turn :: later ∧
      .sent (boundWorkRequest id nonce units authority) ∈ turn.output.effects ∧
      turn.input.signal = .event .commit ∧ turn.before.authoritySnapshot = authority ∧
      lease.authority = authority ∧
      Entitled runtime earlier turn.input.surroundings.nowNs turn.before.toRuntimeState lease ∧
      sentIn (effectsOf (runtime.history occurrences)) =
        requests.map BoundChildRequest.encode ∧
      requests.countP BoundChildRequest.isWork ≤ acceptedBegins (runtime.history occurrences) := by
  obtain ⟨runtime, effects, hnew, hpoised⟩ := @poised_calmStartup 6 (by decide)
  obtain ⟨earlier, turn, later, hsplit, hturn⟩ := @calm_turn runtime 0 _ _
    [⟨1, .event .begin⟩, ⟨2, .event .commit⟩] [⟨1, .event .begin⟩] [] hpoised (by decide) rfl
  obtain ⟨hentitled, requests, hsent, hcount⟩ :=
    work_entitled hnew (calmState.occurrences [⟨1, .event .begin⟩, ⟨2, .event .commit⟩])
  have hwork : .sent (boundWorkRequest 1 1 5000 calmState.authoritySnapshot) ∈
      turn.output.effects := by
    rw [← mem_sentIn, hturn.sent]
    exact List.mem_singleton.mpr rfl
  obtain ⟨hsignal, hauthority, lease, hcovers, hlease⟩ :=
    hentitled earlier turn later hsplit _ _ _ _ hwork
  exact ⟨runtime, effects, _, earlier, turn, later, _, _, _, _, lease, requests, hnew, hsplit,
    hwork, hsignal, hauthority, hcovers, hlease, hsent, hcount⟩

/-! ## Recovery -/

theorem quarantined_of_quarantineTurn {reason : String} {state after : RuntimeState}
    {effects : List Effect} {ok : Bool} (h : QuarantineTurn reason state effects ok after) :
    after.body.quarantined = true := by
  cases h <;> rfl

/-- A body that leaves the quarantine does so in a probe turn, after a confirmed
rollback, and the child acknowledged the probe. -/
theorem probe_of_recovery {nowNs : UInt64} {state after : RuntimeState} {signal : Signal}
    {effects : List Effect} {ok : Bool} (h : AuthorityTurn nowNs state signal effects ok after)
    (hquarantined : state.body.quarantined = true) (hfree : after.body.quarantined = false) :
    signal = .event .functionalFreshnessProbe ∧ state.rollbackConfirmed = true ∧
      ∃ id nonce, state.transactionNonce < nonce ∧
        Acknowledged (.probe id nonce state.authoritySnapshot) effects := by
  have hstays : after.body.quarantined ≠ true := by simp [hfree]
  -- all turns but an accepted probe keep the quarantine or begin one
  cases h with
  | beginRefused hpending => exact absurd hquarantined hstays
  | begun hidle => exact absurd hquarantined hstays
  | commit hturn =>
      cases hturn with
      | blocked hblocked => exact absurd hquarantined hstays
      | unsent hallowed nonce => exact absurd hquarantined hstays
      | rejected hallowed => exact absurd rfl hstays
      | uncounted hallowed => exact absurd hquarantined hstays
      | committed hallowed => exact absurd hquarantined hstays
  | resetOverflowed epoch => exact absurd hquarantined hstays
  | reset epoch generation hepoch hgeneration hturn =>
      exact absurd (quarantined_of_quarantineTurn hturn) hstays
  | timeout hturn => exact absurd (quarantined_of_quarantineTurn hturn) hstays
  | probe hturn =>
      cases hturn with
      | refused hrefused => exact absurd hquarantined hstays
      | unsent hquarantine hconfirmed => exact absurd hquarantined hstays
      | rejected hquarantine => exact absurd rfl hstays
      | expired hquarantine => exact absurd hquarantined hstays
      | recovered hquarantine hconfirmed order exchanged hexchanged validUntilNs hdeadline after =>
          refine ⟨rfl, hconfirmed, order.certificate, order.nonce,
            lt_of_checkedSucc order.nextNonce, ?_⟩
          refine @acknowledged_of_answered _ _ _ _ (.probe order.certificate order.nonce
            state.authoritySnapshot) 0 hexchanged rfl rfl fun effect heffect => ?_
          exact List.mem_append_left _ (List.mem_cons_of_mem _ heffect)
  | conclude signal hsignal hturn =>
      cases hturn with
      | unsent nonce => exact absurd hquarantined hstays
      | rejected nonce => exact absurd rfl hstays
      | concluded nonce => exact absurd hquarantined hstays

/-- A body leaves the quarantine only in a probe that the child acknowledged, after
the rollback of the most recent quarantine was acknowledged for the same authority
with a smaller nonce; and a commit is allowed only for a transaction begun since the
most recent quarantine. -/
theorem recovery_follows_rollback {startup : Startup} {runtime : Runtime} {effects : List Effect}
    (hnew : new startup = .ok (runtime, effects)) (occurrences : List Occurrence) :
    ∀ earlier turn later, runtime.history occurrences = earlier ++ turn :: later →
      (turn.before.body.quarantined = true → turn.after.body.quarantined = false →
        turn.input.signal = .event .functionalFreshnessProbe ∧
        ∃ rollbackNonce id nonce, rollbackNonce < nonce ∧
          Acknowledged (.probe id nonce turn.before.authoritySnapshot) turn.output.effects ∧
          Since (fun between => ¬Revokes between)
            (fun _ quarantine => Quarantines quarantine ∧ ∃ id, Acknowledged
              (.rollback id rollbackNonce turn.before.authoritySnapshot)
              quarantine.output.effects) earlier) ∧
      (turn.input.signal = .event .commit →
        turn.before.commitDecision turn.input.surroundings.nowNs = .allow →
          Since KeepsPending (fun _ begun => begun.input.signal = .event .begin) earlier) := by
  intro earlier turn later hsplit
  obtain ⟨used, occurrence, rfl, rfl, hcontinues⟩ := runtimeMachine.session_split hsplit
  obtain ⟨hconsistent, hprovenance⟩ := provenance_new hnew hcontinues
  refine ⟨fun hquarantined hfree => ?_, fun _ hallowed => ?_⟩
  · obtain ⟨ok, hturn, _⟩ := turn_of_transition (runtimeMachine.run runtime used) occurrence
    obtain ⟨hsignal, hconfirmed, id, nonce, hnonce, hprobe⟩ :=
      probe_of_recovery hturn hquarantined hfree
    obtain ⟨front, quarantine, back, hpast, ⟨hquarantines, rollbackId, rollbackNonce,
      hrollbackNonce,
      hrollback⟩, hback⟩ := hprovenance.rollback hconfirmed
    refine ⟨hsignal, rollbackNonce, id, nonce, UInt64.lt_of_le_of_lt hrollbackNonce hnonce, hprobe,
      front, quarantine, back, hpast, ⟨hquarantines, rollbackId, hrollback⟩, ?_⟩
    rintro between hbetween (hquarantines | ⟨error, herror⟩)
    · exact hback between hbetween hquarantines
    · have hends := hcontinues between (by rw [hpast]; simp [hbetween])
      have hresult := result_of_continues hends
      rw [hresult] at herror
      cases herror
  · obtain ⟨lease, hentitled⟩ := entitled_of_allowed hconsistent hprovenance hallowed
    exact hentitled.begun.mono (fun _ hkeeps => hkeeps) fun _ _ hbegins => hbegins.1

/-- A run with a quarantine, a recovery, and a commit begun after it. -/
theorem recovery_follows_rollback_commit :
    ∃ runtime effects occurrences, new calmStartup = .ok (runtime, effects) ∧
      (∃ earlier probe later rollbackNonce id nonce,
        runtime.history occurrences = earlier ++ probe :: later ∧
        probe.before.body.quarantined = true ∧ probe.after.body.quarantined = false ∧
        probe.input.signal = .event .functionalFreshnessProbe ∧ rollbackNonce < nonce ∧
        Acknowledged (.probe id nonce probe.before.authoritySnapshot) probe.output.effects ∧
        Since (fun between => ¬Revokes between)
          (fun _ quarantine => Quarantines quarantine ∧ ∃ id, Acknowledged
            (.rollback id rollbackNonce probe.before.authoritySnapshot)
            quarantine.output.effects) earlier) ∧
      ∃ earlier commit later, runtime.history occurrences = earlier ++ commit :: later ∧
        commit.input.signal = .event .commit ∧
        commit.before.commitDecision commit.input.surroundings.nowNs = .allow ∧
        Since KeepsPending (fun _ begun => begun.input.signal = .event .begin) earlier := by
  let cues : List Cue := [⟨1, .timeout⟩, ⟨2, .event .functionalFreshnessProbe⟩,
    ⟨3, .event .begin⟩, ⟨4, .event .commit⟩]
  obtain ⟨runtime, effects, hnew, hpoised⟩ := @poised_calmStartup 12 (by decide)
  have hfits : calmState.fitsAll cues = true := by decide
  obtain ⟨past, probe, future, hprobes, hprobe⟩ := @calm_turn runtime 0 _ _ cues
    [⟨1, .timeout⟩] _ hpoised hfits rfl
  obtain ⟨earlier, commit, later, hcommits, hcommit⟩ := @calm_turn runtime 0 _ _ cues
    [⟨1, .timeout⟩, ⟨2, .event .functionalFreshnessProbe⟩, ⟨3, .event .begin⟩] _ hpoised hfits rfl
  have hquarantined : probe.before.body.quarantined = true := by
    rw [hprobe.before]
    rfl
  have hfree : probe.after.body.quarantined = false := by
    rw [hprobe.after]
    rfl
  have hsignal : commit.input.signal = .event .commit := by
    rw [hcommit.input]
    rfl
  have hallowed : commit.before.commitDecision commit.input.surroundings.nowNs = .allow := by
    rw [hcommit.before, hcommit.input]
    decide
  obtain ⟨hprobeSignal, rollbackNonce, id, nonce, hnonce, hacknowledged, hsince⟩ :=
    (recovery_follows_rollback hnew (calmState.occurrences cues) past probe future hprobes).1
      hquarantined hfree
  have hbegun :=
    (recovery_follows_rollback hnew (calmState.occurrences cues) earlier commit later hcommits).2
      hsignal hallowed
  exact ⟨runtime, effects, _, hnew, ⟨past, probe, future, rollbackNonce, id, nonce, hprobes,
    hquarantined, hfree, hprobeSignal, hnonce, hacknowledged, hsince⟩,
    earlier, commit, later, hcommits, hsignal, hallowed, hbegun⟩

end Runtime

end Oasi
