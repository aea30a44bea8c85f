import Oasi.Runtime.Composition
import Oasi.Runtime.Bookkeeping
import Oasi.Runtime.FullLedger

/-! # Agreement of the runtime and its child

The runtime and the child count independently. No acknowledgement is rejected, the two
counts agree after every turn, and a turn fails only when a BEGIN arrives while another one
is pending or when the ledger has no sequence numbers left.
-/

namespace Oasi

/-! ## What a turn does to the counters -/

section Turns

variable {state after : RuntimeState} {effects : List Effect} {nowNs : UInt64} {signal : Signal}
  {bound : Nat}

theorem toNat_le_of_next {value next : UInt64} (h : checkedSucc value = some next)
    (hvalue : value.toNat ≤ bound) : next.toNat ≤ bound + 1 := by
  rw [checkedSucc_eq_some.mp h]
  exact Nat.succ_le_succ hvalue

theorem AuthorityTurn.reflex_eq (h : AuthorityTurn nowNs state signal effects true after) :
    after.reflex = state.reflex := by
  cases h with
  | begun hidle => rfl
  | commit hturn => cases hturn <;> rfl
  | reset epoch generation hepoch hgeneration hturn => cases hturn; rfl
  | timeout hturn => cases hturn; rfl
  | probe hturn =>
      cases hturn with
      | refused hrefused => rfl
      | recovered _ _ order exchanged hexchanged validUntilNs hdeadline _ hafter =>
          subst hafter
          rfl
  | conclude signal hsignal hturn => cases hturn; rfl

/-- A BEGIN that finds another one pending does nothing. -/
theorem AuthorityTurn.refused {ok : Bool}
    (h : AuthorityTurn nowNs state (.event .begin) effects ok after)
    (hpending : state.authorityTransaction.pending = true) :
    effects = [] ∧ ok = false ∧ after = state := by
  cases h with
  | beginRefused _ => exact ⟨rfl, rfl, rfl⟩
  | begun hidle =>
      rw [hpending] at hidle
      cases hidle
  | conclude signal hsignal hturn => rcases hsignal with hsignal | hsignal <;> cases hsignal

/-- A turn moves no counter by more than one. -/
theorem AuthorityTurn.within (h : AuthorityTurn nowNs state signal effects true after)
    (hwithin : state.Within bound) : after.Within (bound + 1) := by
  have kept : ∀ {count : UInt64}, count.toNat ≤ bound → count.toNat ≤ bound + 1 :=
    Nat.le_succ_of_le
  obtain ⟨hids, hactions, hcommits, hrollbacks, hepochs, hgenerations, hcertificates, hnonces⟩ :=
    hwithin
  cases h with
  | begun hidle =>
      exact ⟨kept hids, kept hactions, kept hcommits, kept hrollbacks, kept hepochs,
        kept hgenerations, kept hcertificates, kept hnonces⟩
  | commit hturn =>
      cases hturn with
      | blocked hblocked =>
          exact ⟨kept hids, kept hactions, kept hcommits, kept hrollbacks, kept hepochs,
            kept hgenerations, kept hcertificates, kept hnonces⟩
      | committed hallowed order exchanged hexchanged commits hallowedCommits =>
          exact ⟨toNat_le_of_next order.nextId hids, toNat_le_of_next order.nextActions hactions,
            toNat_le_of_next hallowedCommits hcommits, kept hrollbacks, kept hepochs,
            kept hgenerations, kept hcertificates, toNat_le_of_next order.nextNonce hnonces⟩
  | reset epoch generation hepoch hgeneration hturn =>
      cases hturn with
      | confirmed order =>
          exact ⟨kept hids, kept hactions, kept hcommits,
            toNat_le_of_next order.nextRollbacks hrollbacks, toNat_le_of_next hepoch hepochs,
            toNat_le_of_next hgeneration hgenerations, kept hcertificates,
            toNat_le_of_next order.nextNonce hnonces⟩
  | timeout hturn =>
      cases hturn with
      | confirmed order =>
          exact ⟨kept hids, kept hactions, kept hcommits,
            toNat_le_of_next order.nextRollbacks hrollbacks, kept hepochs, kept hgenerations,
            kept hcertificates, toNat_le_of_next order.nextNonce hnonces⟩
  | probe hturn =>
      cases hturn with
      | refused hrefused =>
          exact ⟨kept hids, kept hactions, kept hcommits, kept hrollbacks, kept hepochs,
            kept hgenerations, kept hcertificates, kept hnonces⟩
      | recovered _ _ order exchanged hexchanged validUntilNs hdeadline _ hafter =>
          subst hafter
          exact ⟨kept hids, kept hactions, kept hcommits, kept hrollbacks, kept hepochs,
            toNat_le_of_next order.nextGeneration hgenerations,
            toNat_le_of_next order.nextCertificate hcertificates,
            toNat_le_of_next order.nextNonce hnonces⟩
  | conclude signal hsignal hturn =>
      cases hturn with
      | concluded nonce hnonce =>
          exact ⟨kept hids, kept hactions, kept hcommits, kept hrollbacks, kept hepochs,
            kept hgenerations, kept hcertificates, toNat_le_of_next hnonce hnonces⟩

/-- A request within the bounds of its parser, and a STOP only at the end of the run. -/
def Permitted (signal : Signal) (request : BoundChildRequest) : Prop :=
  request.WithinUnits ∧ ((AnyRequest.bound request).isStop = true → signal.Ends)

theorem WorkOrder.withinUnits (order : WorkOrder state)
    (hprogram : state.reflex = Runtime.program) : order.request.WithinUnits := by
  have hunits := order.boundedUnits
  rw [hprogram] at hunits
  have hunits : 5000 = order.units := Option.some.inj hunits
  rw [WorkOrder.request, ← hunits]
  exact ⟨by decide, by decide⟩

theorem AuthorityTurn.converses_permitted {ok : Bool} (hprogram : state.reflex = Runtime.program)
    (h : AuthorityTurn nowNs state signal effects ok after) :
    Converses (Permitted signal) state.transactionNonce state.metrics.childActions.toNat effects ok
      after.transactionNonce after.metrics.childActions.toNat := by
  cases h with
  | beginRefused hpending => exact converses_silent rfl rfl (nomatch ·) (nomatch ·)
  | begun hidle => exact (onlyRecords_singleton _ state).converses
  | commit hturn =>
      exact hturn.converses fun _ order => ⟨order.withinUnits hprogram, nofun⟩
  | resetOverflowed epoch => exact converses_silent rfl rfl (nomatch ·) (nomatch ·)
  | reset epoch generation hepoch hgeneration hturn =>
      exact @QuarantineTurn.converses _ ((state.withEpoch epoch).withGeneration generation) _ _ _ _
        (fun _ _ _ => ⟨trivial, nofun⟩) hturn
  | timeout hturn => exact hturn.converses fun _ _ _ => ⟨trivial, nofun⟩
  | probe hturn => exact hturn.converses fun _ _ _ => ⟨trivial, nofun⟩
  | conclude signal hsignal hturn =>
      exact hturn.converses fun _ _ _ => ⟨trivial, fun _ => hsignal⟩

end Turns

/-! ## The invariant -/

/-- The runtime and the child before a turn, after so many turns. -/
structure Coupled (pair : Pair) (steps : Nat) : Prop where
  healthy : pair.runtime.ledger.writer.file.Healthy
  unsealed : pair.runtime.ledger.isSealed = false
  events : pair.runtime.ledger.eventEntries.toNat ≤ pair.runtime.ledger.seq.toNat
  attended : pair.runtime.child.isSome = true
  emptied : ∀ child, pair.runtime.child = some child → child.Attended
  program : pair.runtime.reflex = Runtime.program
  within : pair.runtime.Within (100 + steps)
  running : pair.child.result = none
  actions : pair.child.actions = pair.runtime.metrics.childActions

/-- A clock below its bound and a ledger file that does not fail. -/
structure Occasion.Calm (occasion : Occasion) : Prop where
  clock : occasion.nowNs.toNat < 2 ^ 63
  ledger : ∀ outcome ∈ occasion.ledgerOutcomes, ¬outcome.Fails

abbrev PairTurn := Transition Pair Occasion TurnReport

/-- The ledger has sequence numbers left for a turn. -/
def Pair.HasNumbers (pair : Pair) : Prop :=
  pair.runtime.ledger.seq.toNat + 4 < UInt64.size

/-- Every request of the turn was answered with the acknowledgement that is accepted, the
counts agree after it, and it fails only when it is a BEGIN that is not the first, or when
the ledger is full. -/
structure PairTurn.Agrees (turn : PairTurn) : Prop where
  unrejected : (acceptedIn turn.output.effects).length = (sentIn turn.output.effects).length
  counted : turn.after.child.actions = turn.after.runtime.metrics.childActions
  failure : ∀ error, turn.output.result = .error error →
    (turn.input.signal = .event .begin ∧
      turn.before.runtime.authorityTransaction.pending = true) ∨
    ¬turn.before.HasNumbers

/-- What the child has counted after it was sent some requests. -/
def Occasion.countAfter (describe : Bytes → String) (occasion : Occasion) (child : Child)
    (sent : List String) : UInt64 :=
  (child.iterateAll describe (sent.map occasion.toChild.deliver)).2.actions

section Steps

variable {describe : Bytes → String} {pair : Pair} {occasion : Occasion} {steps : Nat}

theorem Coupled.ready (h : Coupled pair steps) {room : Nat}
    (hroom : pair.runtime.ledger.seq.toNat + room < UInt64.size) : pair.runtime.Ready room where
  ledger := {
    healthy := h.healthy
    unsealed := fun _ => h.unsealed
    seq := hroom
    events := Nat.lt_of_le_of_lt (Nat.add_le_add_right h.events room) hroom }
  attended := h.attended
  child := h.emptied

/-- Each answer is the one that the runtime expects. -/
theorem Coupled.answers (h : Coupled pair steps) {request : BoundChildRequest}
    (hunits : request.WithinUnits)
    (hroom : request.counted pair.runtime.metrics.childActions.toNat < UInt64.size) :
    (occasion.exchange describe pair.child request.encode).Answers
      (request.ack (UInt64.ofNat (request.counted pair.runtime.metrics.childActions.toNat))) := by
  rw [← h.actions] at hroom ⊢
  exact exchange_answers h.running hunits hroom

/-- The parent advances its count for a commit, and the child advances the same one. -/
theorem Coupled.answers_order (h : Coupled pair steps)
    (order : WorkOrder pair.runtime.toRuntimeState) :
    (occasion.exchange describe pair.child order.command).Answers order.expected := by
  rw [← order.expected_eq]
  apply h.answers (order.withinUnits h.program)
  rw [order.counted]
  exact UInt64.toNat_lt_size _

/-- Only the end of a run stops the child. -/
theorem Coupled.stillRunning (h : Coupled pair steps) (hends : ¬occasion.signal.Ends)
    {result : Option Metrics}
    (hresult : ((composition describe).transition pair occasion).output.result = .ok result) :
    ((composition describe).transition pair occasion).after.child.result = none := by
  obtain ⟨ok, hturn, hok⟩ := Runtime.turn_of_transition pair.runtime
    (occasion.occurrence describe pair.child)
  obtain ⟨requests, hconversation, hconversed⟩ := hturn.converses_permitted h.program
  have hconversed := hconversed (hok.mpr ⟨result, hresult⟩)
  have hcounted := hconversed.nextActions_eq
  rw [← h.actions] at hcounted
  have hchild := @iterateAll_requests describe pair.child occasion h.running requests
    hconversed.single (fun request hrequest => (hconversed.permitted request hrequest).1)
    (hcounted ▸ UInt64.toNat_lt_size _)
  rw [← hconversed.sent] at hchild
  refine hchild.2 fun request hrequest => ?_
  cases hstop : (AnyRequest.bound request).isStop with
  | false => rfl
  | true => exact absurd ((hconversed.permitted request hrequest).2 hstop) hends

/-- The answers that the operation of a turn meets let it complete. -/
theorem Coupled.leavesRoom (h : Coupled pair steps) (hcalm : occasion.Calm)
    (hsteps : steps < 2 ^ 63) (hends : ¬occasion.signal.Ends)
    (hbegin : occasion.signal = .event .begin →
      pair.runtime.authorityTransaction.pending = false) (room : Nat) :
    Runtime.LeavesRoom (Runtime.operationOf occasion.signal)
      (occasion.occurrence describe pair.child).surroundings pair.runtime.toRuntimeState room := by
  have hbound : 100 + steps + 1 < UInt64.size := by
    have : UInt64.size = 2 ^ 64 := rfl
    omega
  have hcount := h.within.childActions
  -- requests other than Work are acknowledged without a count
  have hquiet : ∀ {request : BoundChildRequest}, request.isWork = false →
      request.counted pair.runtime.metrics.childActions.toNat < UInt64.size := by
    intro request hwork
    rw [BoundChildRequest.counted, hwork]
    exact UInt64.toNat_lt_size _
  have hrollback : ∀ {state : RuntimeState} (order : RollbackOrder state),
      (occasion.exchange describe pair.child order.command).Answers order.expected := fun order =>
    @Coupled.answers describe pair occasion steps h
      (.rollback order.rollbacks order.nonce _) trivial (hquiet rfl)
  cases hsignal : occasion.signal with
  | timeout =>
      exact Runtime.leavesRoom_quarantine (by decide) h.within hbound hrollback
  | disconnected => exact absurd (.inr hsignal) hends
  | event event =>
      cases event with
      | stop => exact absurd (.inl hsignal) hends
      | begin => exact Runtime.leavesRoom_begin (hbegin hsignal)
      | reset =>
          exact Runtime.leavesRoom_reset h.within hbound fun _ _ _ _ order => hrollback order
      | commit =>
          have hunits : pair.runtime.reflex.workUnits = some 5000 := by
            rw [h.program]
            rfl
          exact Runtime.leavesRoom_commit h.within hbound hunits fun _ order =>
            h.answers_order order
      | functionalFreshnessProbe =>
          have hclock : occasion.nowNs.toNat + Runtime.defaultLeaseNs.toNat < UInt64.size := by
            have hlease : Runtime.defaultLeaseNs.toNat = 50000000 := rfl
            have := hcalm.clock
            have : UInt64.size = 2 ^ 64 := rfl
            omega
          obtain ⟨validUntilNs, hdeadline⟩ := Runtime.leaseDeadline_isOk h.program hclock
          exact Runtime.leavesRoom_functionalFreshnessProbe h.within hbound hdeadline
            fun _ _ order => @Coupled.answers describe pair occasion steps h
              (.probe order.certificate order.nonce _) trivial (hquiet rfl)

theorem Coupled.attending (h : Coupled pair steps) : Runtime.Attending pair.runtime where
  healthy := h.healthy
  unsealed := h.unsealed
  attended := h.attended
  child := h.emptied

/-- The child counts a request as the runtime does. -/
theorem Coupled.countAfter_request (h : Coupled pair steps) {request : BoundChildRequest}
    (hunits : request.WithinUnits)
    (hroom : request.counted pair.runtime.metrics.childActions.toNat < UInt64.size) :
    occasion.countAfter describe pair.child [request.encode] =
      UInt64.ofNat (request.counted pair.runtime.metrics.childActions.toNat) := by
  rw [← h.actions] at hroom ⊢
  exact (@iterateAll_requests describe pair.child occasion h.running [request] le_rfl
    (List.forall_mem_singleton.mpr hunits) hroom).1

theorem Coupled.countAfter_order (h : Coupled pair steps)
    (order : WorkOrder pair.runtime.toRuntimeState) :
    occasion.countAfter describe pair.child [order.command] = order.actions := by
  have hroom : order.request.counted pair.runtime.metrics.childActions.toNat < UInt64.size := by
    rw [order.counted]
    exact UInt64.toNat_lt_size _
  have hcount := @Coupled.countAfter_request describe pair occasion steps h order.request
    (order.withinUnits h.program) hroom
  rw [order.counted, UInt64.ofNat_toNat] at hcount
  exact hcount

/-- Requests other than Work are answered, and do not change the count. -/
theorem Coupled.quiet (h : Coupled pair steps) {request : BoundChildRequest}
    (hunits : request.WithinUnits) (hquiet : request.isWork = false) :
    occasion.countAfter describe pair.child [request.encode] =
        occasion.countAfter describe pair.child [] ∧
      (occasion.exchange describe pair.child request.encode).Answers
        (request.ack pair.runtime.metrics.childActions) := by
  have hcounted : request.counted pair.runtime.metrics.childActions.toNat =
      pair.runtime.metrics.childActions.toNat := by
    rw [BoundChildRequest.counted, hquiet]
    rfl
  have hroom : request.counted pair.runtime.metrics.childActions.toNat < UInt64.size := by
    rw [hcounted]
    exact UInt64.toNat_lt_size _
  have hcount := @Coupled.countAfter_request describe pair occasion steps h request hunits hroom
  have hanswers := @Coupled.answers describe pair occasion steps h request hunits hroom
  rw [hcounted, UInt64.ofNat_toNat] at hcount hanswers
  exact ⟨hcount.trans h.actions.symm, hanswers⟩

/-- Wherever the operation of a turn stops, the counts agree. -/
theorem Coupled.keepsBalance (h : Coupled pair steps) (hsteps : steps < 2 ^ 63)
    (hends : ¬occasion.signal.Ends) :
    Runtime.KeepsBalance (occasion.countAfter describe pair.child)
      (Runtime.operationOf occasion.signal) (occasion.occurrence describe pair.child).surroundings
      pair.runtime.toRuntimeState := by
  have hstart : pair.runtime.metrics.childActions =
      occasion.countAfter describe pair.child [] := h.actions.symm
  have hrollback {state : RuntimeState} (order : RollbackOrder state) :=
    @Coupled.quiet describe pair occasion steps h (.rollback order.rollbacks order.nonce
      state.authoritySnapshot) trivial rfl
  cases hsignal : occasion.signal with
  | timeout =>
      exact Runtime.keepsBalance_quarantine hstart (fun order => (hrollback order).1)
        fun order => (hrollback order).2
  | disconnected => exact absurd (.inr hsignal) hends
  | event event =>
      cases event with
      | stop => exact absurd (.inl hsignal) hends
      | begin => exact Runtime.keepsBalance_begin hstart
      | reset =>
          exact Runtime.keepsBalance_reset hstart (fun _ order => (hrollback order).1)
            fun _ _ order => (hrollback order).2
      | commit =>
          have hbound : 100 + steps + 1 < UInt64.size := by
            have : UInt64.size = 2 ^ 64 := rfl
            omega
          have hcommits := exists_checkedSucc h.within.allowedCommits hbound
          exact Runtime.keepsBalance_commit hstart (Option.isSome_iff_exists.mpr hcommits)
            (fun order => h.countAfter_order order) fun order => h.answers_order order
      | functionalFreshnessProbe =>
          have hprobe (order : ProbeOrder pair.runtime.toRuntimeState) :=
            @Coupled.quiet describe pair occasion steps h (.probe order.certificate order.nonce
              pair.runtime.authoritySnapshot) trivial rfl
          exact Runtime.keepsBalance_functionalFreshnessProbe hstart
            (fun order => (hprobe order).1) fun order => (hprobe order).2

/-- After every turn the requests are answered and the counts agree, whether it fails or not. -/
theorem Coupled.balanced (h : Coupled pair steps) (hcalm : occasion.Calm)
    (hsteps : steps < 2 ^ 63) :
    (acceptedIn ((composition describe).transition pair occasion).output.effects).length =
      (sentIn ((composition describe).transition pair occasion).output.effects).length ∧
    ((composition describe).transition pair occasion).after.child.actions =
      ((composition describe).transition pair occasion).after.runtime.metrics.childActions := by
  have hbalanced : Runtime.BalancedTurn (occasion.countAfter describe pair.child)
      (Runtime.runtimeMachine.transition pair.runtime
        (occasion.occurrence describe pair.child)) := by
    by_cases hends : occasion.signal.Ends
    · refine Runtime.balanced_conclusion h.attending hcalm.ledger hends ?_
      have hstop (nonce : UInt64) := @Coupled.quiet describe pair occasion steps h
        (.stop pair.runtime.actionCounter nonce pair.runtime.authoritySnapshot) trivial rfl
      exact Runtime.stopsBalanced_conclude h.actions.symm (fun nonce => (hstop nonce).1)
        fun nonce => ⟨(hstop nonce).2, exit_clean h.running⟩
    · exact (Runtime.balanced_transition h.attending hcalm.ledger hends
        (h.keepsBalance hsteps hends)).1
  exact ⟨hbalanced.1, hbalanced.2.symm⟩

/-- A turn that does not end the run keeps the runtime and the child together. -/
theorem Coupled.next (h : Coupled pair steps) (hcalm : occasion.Calm) (hsteps : steps < 2 ^ 63)
    (hcontinues : ((composition describe).transition pair occasion).output.ends = false) :
    Coupled ((composition describe).transition pair occasion).after (steps + 1) := by
  have hresult := Runtime.result_of_continues hcontinues
  obtain ⟨hturn, ⟨_, hends⟩ | ⟨hmetrics, _⟩⟩ := Runtime.turn_of_ok hresult
  swap
  · cases hmetrics
  have hattending := (Runtime.balanced_transition h.attending hcalm.ledger hends
    (h.keepsBalance hsteps hends)).2 hcontinues
  exact {
    healthy := hattending.healthy
    unsealed := hattending.unsealed
    events := (Runtime.numbered_transition hresult).2 h.events
    attended := hattending.attended
    emptied := hattending.child
    program := hturn.reflex_eq.trans h.program
    within := hturn.within h.within
    running := h.stillRunning hends hresult
    actions := (h.balanced hcalm hsteps).2 }

/-- With sequence numbers left, a turn that is not refused goes on. -/
theorem Coupled.goes_on (h : Coupled pair steps) (hcalm : occasion.Calm) (hsteps : steps < 2 ^ 63)
    (hnumbers : pair.HasNumbers)
    (hends : ¬occasion.signal.Ends)
    (hbegin : occasion.signal = .event .begin →
      pair.runtime.authorityTransaction.pending = false) :
    ((composition describe).transition pair occasion).output.result = .ok none ∧
      ((composition describe).transition pair occasion).after.runtime.ledger.seq.toNat ≤
        pair.runtime.ledger.seq.toNat + 3 := by
  -- a turn writes at most three entries, and one more is kept for the end
  obtain ⟨room, hroom⟩ : ∃ room, pair.runtime.ledger.seq.toNat + (room + 4) + 1 = UInt64.size := by
    refine ⟨UInt64.size - 1 - (pair.runtime.ledger.seq.toNat + 4), ?_⟩
    have hleft : pair.runtime.ledger.seq.toNat + 4 < UInt64.size := hnumbers
    omega
  have hleaves := @Coupled.leavesRoom describe pair occasion steps h hcalm hsteps hends hbegin
    (room + 1)
  obtain ⟨hresult, hready⟩ := @Runtime.ready_transition (room + 1) pair.runtime
    (occasion.occurrence describe pair.child) (h.ready (by omega)) hcalm.ledger hends hleaves
  refine ⟨hresult, ?_⟩
  have hseq := hready.ledger.seq
  have hsame : ((composition describe).transition pair occasion).after.runtime =
    (Runtime.runtimeMachine.transition pair.runtime
      (occasion.occurrence describe pair.child)).after := rfl
  rw [hsame]
  omega

/-- The last turn of a run stops the child and returns the metrics. -/
theorem Coupled.concludes (h : Coupled pair steps) (hcalm : occasion.Calm)
    (hsteps : steps < 2 ^ 63) (hnumbers : pair.HasNumbers) (hends : occasion.signal.Ends) :
    ∃ metrics, ((composition describe).transition pair occasion).output.result =
      .ok (some metrics) := by
  have hsize : UInt64.size = 2 ^ 64 := rfl
  have hready : pair.runtime.Ready (0 + 2) := by
    apply h.ready
    have hleft : pair.runtime.ledger.seq.toNat + 4 < UInt64.size := hnumbers
    omega
  refine Runtime.ready_conclusion hready hcalm.ledger hends ?_
  refine Runtime.completes_conclude h.within (by omega) fun nonce _ => ?_
  exact ⟨@Coupled.answers describe pair occasion steps h (.stop _ nonce _) trivial
    (UInt64.toNat_lt_size _), exit_clean h.running⟩

/-- A turn of the runtime and the child that are together. -/
theorem Coupled.agrees (h : Coupled pair steps) (hcalm : occasion.Calm) (hsteps : steps < 2 ^ 63) :
    PairTurn.Agrees ((composition describe).transition pair occasion) := by
  obtain ⟨hunrejected, hcounted⟩ := @Coupled.balanced describe pair occasion steps h hcalm hsteps
  refine ⟨hunrejected, hcounted, fun error herror => ?_⟩
  by_contra hcause
  rw [not_or, not_not] at hcause
  obtain ⟨hrefused, hnumbers⟩ := hcause
  by_cases hends : occasion.signal.Ends
  · obtain ⟨metrics, hresult⟩ := @Coupled.concludes describe pair occasion steps h hcalm hsteps
      hnumbers hends
    rw [hresult] at herror
    cases herror
  · have hbegin : occasion.signal = .event .begin →
        pair.runtime.authorityTransaction.pending = false := fun hsignal =>
      Bool.eq_false_iff.mpr fun hpending => hrefused ⟨hsignal, hpending⟩
    have hresult := (@Coupled.goes_on describe pair occasion steps h hcalm hsteps hnumbers hends
      hbegin).1
    rw [hresult] at herror
    cases herror

/-- A turn that does not end the run uses at most three sequence numbers. -/
theorem Coupled.uses (h : Coupled pair steps) (hcalm : occasion.Calm) (hsteps : steps < 2 ^ 63)
    (hnumbers : pair.HasNumbers)
    (hcontinues : ((composition describe).transition pair occasion).output.ends = false) :
    ((composition describe).transition pair occasion).after.runtime.ledger.seq.toNat ≤
      pair.runtime.ledger.seq.toNat + 3 := by
  have hresult := Runtime.result_of_continues hcontinues
  obtain ⟨hturn, ⟨_, hends⟩ | ⟨hmetrics, _⟩⟩ := Runtime.turn_of_ok hresult
  swap
  · cases hmetrics
  refine (h.goes_on hcalm hsteps hnumbers hends fun hsignal => ?_).2
  -- a BEGIN with another one pending would have ended the run
  apply Bool.eq_false_iff.mpr
  intro hpending
  have hsame : (occasion.occurrence describe pair.child).signal = .event .begin := hsignal
  rw [hsame] at hturn
  cases (hturn.refused hpending).2.1

end Steps

/-! ## Runs -/

section Runs

variable {describe : Bytes → String} {pair : Pair} {steps : Nat} {occasions : List Occasion}

/-- The turns of a run of the composition. -/
def turnsOf (describe : Bytes → String) (pair : Pair) (occasions : List Occasion) : List PairTurn :=
  (composition describe).session TurnReport.ends pair occasions

/-- What the runtime meets in a run of the composition. -/
def occurrencesOf (describe : Bytes → String) (pair : Pair) : List Occasion → List Occurrence
  | [] => []
  | occasion :: rest =>
      occasion.occurrence describe pair.child ::
        occurrencesOf describe ((composition describe).transition pair occasion).after rest

/-- A turn of the composition as a turn of the runtime. -/
def PairTurn.ofRuntime (describe : Bytes → String) (turn : PairTurn) : Turn where
  before := turn.before.runtime
  input := turn.input.occurrence describe turn.before.child
  output := turn.output
  after := turn.after.runtime

/-- The runtime in a run of the composition does what it does in the surroundings that
the child makes for it. -/
theorem history_occurrencesOf (pair : Pair) (occasions : List Occasion) :
    pair.runtime.history (occurrencesOf describe pair occasions) =
      (turnsOf describe pair occasions).map (PairTurn.ofRuntime describe) := by
  unfold Runtime.history turnsOf
  induction occasions generalizing pair with
  | nil => rfl
  | cons occasion rest ih =>
      rw [occurrencesOf, Machine.session, Machine.session]
      have hsame : (Runtime.runtimeMachine.transition pair.runtime
        (occasion.occurrence describe pair.child)).output =
          ((composition describe).transition pair occasion).output := rfl
      rw [hsame]
      split
      next => rfl
      next => exact congrArg (_ :: ·) (ih ((composition describe).transition pair occasion).after)

/-- A turn that fails is the last one. -/
theorem eq_concat_of_failed {turn : PairTurn} {error : IoError}
    (hturn : turn ∈ turnsOf describe pair occasions) (herror : turn.output.result = .error error) :
    ∃ earlier, turnsOf describe pair occasions = earlier ++ [turn] := by
  obtain ⟨earlier, later, hsplit⟩ := List.append_of_mem hturn
  cases later with
  | nil => exact ⟨earlier, hsplit⟩
  | cons next later =>
      have hnext : turnsOf describe pair occasions = (earlier ++ [turn]) ++ next :: later := by
        rw [hsplit, List.append_assoc, List.singleton_append]
      obtain ⟨_, _, _, _, hcontinues⟩ := (composition describe).session_split hnext
      have hends := hcontinues turn (List.mem_append_right _ (List.mem_singleton_self _))
      rw [TurnReport.ends, herror] at hends
      cases hends

/-- `run` fails when one of its turns does. -/
theorem run_eq_error {error : IoError} :
    pair.runtime.run (occurrencesOf describe pair occasions) = some (.error error) ↔
      ∃ turn ∈ turnsOf describe pair occasions, turn.output.result = .error error := by
  rw [Runtime.run, history_occurrencesOf, List.getLast?_map]
  constructor
  · intro hrun
    obtain ⟨last, hlast, hresult⟩ := Option.bind_eq_some_iff.mp hrun
    obtain ⟨turn, hturn, rfl⟩ := Option.map_eq_some_iff.mp hlast
    refine ⟨turn, List.mem_of_getLast? hturn, ?_⟩
    have hsame : (PairTurn.ofRuntime describe turn).output = turn.output := rfl
    rw [hsame] at hresult
    split at hresult
    next => cases hresult
    next => cases hresult
    next found hfound => rw [hfound, ← Except.error.inj (Option.some.inj hresult)]
  · rintro ⟨turn, hturn, herror⟩
    obtain ⟨earlier, hsplit⟩ := eq_concat_of_failed hturn herror
    have hsame : (PairTurn.ofRuntime describe turn).output = turn.output := rfl
    rw [hsplit, List.getLast?_concat, Option.map_some, Option.bind_some, hsame, herror]

/-- The runtime and the child agree after every turn of a run. -/
theorem Coupled.agrees_turns (h : Coupled pair steps) (hoccasions : ∀ occasion ∈ occasions,
    occasion.Calm) (hlength : steps + occasions.length < 2 ^ 63) :
    ∀ turn ∈ turnsOf describe pair occasions, PairTurn.Agrees turn := by
  unfold turnsOf
  induction occasions generalizing pair steps with
  | nil => simp [Machine.session]
  | cons occasion rest ih =>
      obtain ⟨hcalm, hrest⟩ := List.forall_mem_cons.mp hoccasions
      rw [List.length_cons] at hlength
      have hagrees := @Coupled.agrees describe pair occasion steps h hcalm (by omega)
      rw [Machine.session]
      split
      next => exact List.forall_mem_singleton.mpr hagrees
      next hcontinues =>
        rw [Bool.not_eq_true] at hcontinues
        have hnext := h.next hcalm (by omega) hcontinues
        exact List.forall_mem_cons.mpr ⟨hagrees, ih hnext hrest (by omega)⟩

/-- So many turns do not use up the sequence numbers. -/
theorem Coupled.hasNumbers (h : Coupled pair steps) (hoccasions : ∀ occasion ∈ occasions,
    occasion.Calm) (hlength : steps + occasions.length < 2 ^ 62)
    (hseq : pair.runtime.ledger.seq.toNat ≤ 3 * steps + 1) :
    ∀ turn ∈ turnsOf describe pair occasions, turn.before.HasNumbers := by
  have hsize : UInt64.size = 2 ^ 64 := rfl
  unfold turnsOf
  induction occasions generalizing pair steps with
  | nil => simp [Machine.session]
  | cons occasion rest ih =>
      obtain ⟨hcalm, hrest⟩ := List.forall_mem_cons.mp hoccasions
      rw [List.length_cons] at hlength
      have hnumbers : pair.HasNumbers := by
        unfold Pair.HasNumbers
        omega
      rw [Machine.session]
      split
      next => exact List.forall_mem_singleton.mpr hnumbers
      next hcontinues =>
        rw [Bool.not_eq_true] at hcontinues
        have hnext := h.next hcalm (by omega) hcontinues
        have hused := h.uses hcalm (by omega) hnumbers hcontinues
        exact List.forall_mem_cons.mpr ⟨hnumbers, ih hnext hrest (by omega) (by omega)⟩

/-- A new runtime and a child after its HELLO. -/
theorem coupled_new {startup : Startup} (hcalm : Runtime.Calm startup) {runtime : Runtime}
    {effects : List Effect} (hnew : Runtime.new startup = .ok (runtime, effects)) :
    Coupled ⟨runtime, .start⟩ 0 ∧ runtime.ledger.seq.toNat ≤ 1 := by
  obtain ⟨other, _, hother, hready⟩ := @Runtime.new_calm (UInt64.size - 2) startup hcalm (by decide)
  obtain ⟨rfl, _⟩ := Prod.mk.inj (Except.ok.inj (hnew.symm.trans hother))
  obtain ⟨_, _, hstate⟩ := (Runtime.launched_of_new hnew).state
  have hsize : UInt64.size = 2 ^ 64 := rfl
  refine ⟨?_, ?_⟩
  · exact {
      healthy := hready.ledger.healthy
      unsealed := hready.ledger.unsealed (by decide)
      events := Runtime.numbered_new hnew
      attended := hready.attended
      emptied := hready.child
      program := by
        rw [hstate]
        rfl
      within := Runtime.within_new hnew
      running := rfl
      actions := by
        rw [hstate]
        rfl }
  · have hseq := hready.ledger.seq
    omega

/-- The first turn of a run is in it, and the others are, unless it ends the run. -/
theorem turnsOf_cons (describe : Bytes → String) (pair : Pair) (occasion : Occasion)
    (rest : List Occasion) :
    (composition describe).transition pair occasion ∈ turnsOf describe pair (occasion :: rest) ∧
      (((composition describe).transition pair occasion).output.result = .ok none →
        ∀ turn ∈ turnsOf describe ((composition describe).transition pair occasion).after rest,
          turn ∈ turnsOf describe pair (occasion :: rest)) := by
  unfold turnsOf
  rw [Machine.session]
  split
  next hends =>
    refine ⟨List.mem_singleton_self _, fun hresult => ?_⟩
    rw [TurnReport.ends, hresult] at hends
    cases hends
  next hcontinues =>
    exact ⟨List.mem_cons_self, fun _ turn hturn => List.mem_cons_of_mem _ hturn⟩

/-! ### Runs that use up the sequence numbers -/

/-- Everything arrives at once. -/
def Pipe.whole : Pipe where
  arrivals
    | [] => []
    | first :: more => [.chunk first more]
  lossless
    | [] => rfl
    | first :: more => by simp [Arrival.bytes]

/-- A turn in which nothing fails and nobody waits. -/
def calmOccasion (signal : Signal) : Occasion where
  signal := signal
  nowNs := 1
  ledgerOutcomes := []
  toChild := .whole
  toParent := .whole
  idlePolls := 0
  statusText := "exit status: 0"
  reaping := Runtime.calmReaping

theorem calm_calmOccasion (signal : Signal) : (calmOccasion signal).Calm where
  clock := (by decide : (1 : UInt64).toNat < 2 ^ 63)
  ledger := by simp [calmOccasion]

/-- The lease expires and is installed again, so often. -/
def renewals : Nat → List Occasion
  | 0 => []
  | count + 1 =>
      calmOccasion .timeout :: calmOccasion (.event .functionalFreshnessProbe) :: renewals count

theorem length_renewals (count : Nat) : (renewals count).length = 2 * count := by
  induction count with
  | zero => rfl
  | succ count ih =>
      rw [renewals, List.length_cons, List.length_cons, ih]
      omega

theorem signal_of_mem_renewals {occasion : Occasion} {count : Nat}
    (h : occasion ∈ renewals count) : occasion.Calm ∧ occasion.signal ≠ .event .begin := by
  induction count with
  | zero => simp [renewals] at h
  | succ count ih =>
      rw [renewals, List.mem_cons, List.mem_cons] at h
      rcases h with rfl | rfl | hrest
      · exact ⟨calm_calmOccasion _, nofun⟩
      · exact ⟨calm_calmOccasion _, nofun⟩
      · exact ih hrest

theorem OnlyRecords.length_labelsIn {effects : List Effect} (h : OnlyRecords effects) :
    (labelsIn effects).length = effects.length := by
  induction effects with
  | nil => rfl
  | cons effect rest ih =>
      obtain ⟨operation, body, lease, rfl⟩ := h effect List.mem_cons_self
      have hrest := ih fun other hother => h other (List.mem_cons_of_mem _ hother)
      exact congrArg Nat.succ hrest

/-- What is written around an exchange. -/
theorem Answered.length_labelsIn {command : String} {expected : BoundExpectedAck}
    {exchanged before records : List Effect} (h : Answered command expected exchanged)
    (hbefore : OnlyRecords before) (hrecords : OnlyRecords records) :
    (labelsIn (before ++ exchanged ++ records)).length = before.length + records.length := by
  rw [labelsIn_append, labelsIn_append, labelsIn_of_recordedIn h.projections.2.2, List.append_nil,
    List.length_append, hbefore.length_labelsIn, hrecords.length_labelsIn]

/-- A quarantine writes two entries, and after it a probe is not refused. -/
theorem QuarantineTurn.used {reason : String} {state after : RuntimeState} {effects : List Effect}
    (h : QuarantineTurn reason state effects true after) :
    (labelsIn effects).length = 2 ∧ after.body.quarantined = true ∧
      after.rollbackConfirmed = true := by
  cases h with
  | confirmed order exchanged hexchanged =>
      exact ⟨hexchanged.length_labelsIn (onlyRecords_singleton _ _) (onlyRecords_singleton _ _),
        rfl, rfl⟩

/-- A probe that is not refused writes three. -/
theorem ProbeTurn.used {nowNs : UInt64} {state after : RuntimeState} {effects : List Effect}
    (h : ProbeTurn nowNs state effects true after) (hquarantined : state.body.quarantined = true)
    (hconfirmed : state.rollbackConfirmed = true) : (labelsIn effects).length = 3 := by
  cases h with
  | refused hrefused => simp [hquarantined, hconfirmed] at hrefused
  | recovered _ _ order exchanged hexchanged _ _ _ _ records _ hrecords hlength =>
      have honly := (onlyRecords_pair _ _ _ _).front hrecords
      refine (hexchanged.length_labelsIn (onlyRecords_singleton _ _) honly).trans ?_
      rw [hlength rfl]
      rfl

theorem result_eq_none {occasion : Occasion} {result : Option Metrics}
    (hends : ¬occasion.signal.Ends)
    (hresult : ((composition describe).transition pair occasion).output.result = .ok result) :
    ((composition describe).transition pair occasion).output.result = .ok none := by
  obtain ⟨_, ⟨rfl, _⟩ | ⟨_, hsignal⟩⟩ := Runtime.turn_of_ok hresult
  · exact hresult
  · exact absurd hsignal hends

/-- An expiry and the renewal after it, when neither fails. -/
theorem renewed {expiry renewal : Occasion} {next : Pair} (hexpiry : expiry.signal = .timeout)
    (hrenewal : renewal.signal = .event .functionalFreshnessProbe)
    (hfirst : ((composition describe).transition pair expiry).output.result = .ok none)
    (hnext : ((composition describe).transition pair expiry).after = next)
    (hsecond : ((composition describe).transition next renewal).output.result = .ok none) :
    ((composition describe).transition next renewal).after.runtime.ledger.seq.toNat =
      pair.runtime.ledger.seq.toNat + 5 := by
  have hsignal : (expiry.occurrence describe pair.child).signal = .timeout := hexpiry
  have hsignal' : (renewal.occurrence describe next.child).signal =
    .event .functionalFreshnessProbe := hrenewal
  obtain ⟨hturn, _⟩ := Runtime.turn_of_ok hfirst
  obtain ⟨hturn', _⟩ := Runtime.turn_of_ok hsecond
  rw [hsignal] at hturn
  rw [hsignal'] at hturn'
  have hafter : (Runtime.runtimeMachine.transition pair.runtime
    (expiry.occurrence describe pair.child)).after = next.runtime := congrArg Pair.runtime hnext
  cases hturn with
  | conclude _ hends => rcases hends with hends | hends <;> cases hends
  -- two entries for the quarantine and three for the probe that it lets through
  | timeout hquarantine =>
      cases hturn' with
      | conclude _ hends => rcases hends with hends | hends <;> cases hends
      | probe hprobe =>
          obtain ⟨hlabels, hquarantined, hconfirmed⟩ := hquarantine.used
          rw [hafter] at hquarantined hconfirmed
          have hlabels' := hprobe.used hquarantined hconfirmed
          have hseq := (Runtime.numbered_transition hfirst).1
          have hseq' := (Runtime.numbered_transition hsecond).1
          rw [hlabels, hafter] at hseq
          rw [hlabels', hseq] at hseq'
          exact hseq'

/-- When none of them fails, each renewal uses up five sequence numbers. -/
theorem renewals_use {count : Nat} (h : ∀ turn ∈ turnsOf describe pair (renewals count),
    ∃ result, turn.output.result = .ok result) :
    ∃ last : Pair, last.runtime.ledger.seq.toNat = pair.runtime.ledger.seq.toNat + 5 * count := by
  induction count generalizing pair with
  | zero => exact ⟨pair, rfl⟩
  | succ count ih =>
      rw [renewals] at h
      obtain ⟨hexpiry, hpast⟩ := turnsOf_cons describe pair (calmOccasion .timeout)
        (calmOccasion (.event .functionalFreshnessProbe) :: renewals count)
      obtain ⟨_, hfirst⟩ := h _ hexpiry
      have hfirst := result_eq_none (by simp [calmOccasion, Signal.Ends]) hfirst
      obtain ⟨hrenewal, hpast'⟩ := turnsOf_cons describe
        ((composition describe).transition pair (calmOccasion .timeout)).after
        (calmOccasion (.event .functionalFreshnessProbe)) (renewals count)
      obtain ⟨_, hsecond⟩ := h _ (hpast hfirst _ hrenewal)
      have hsecond := result_eq_none (by simp [calmOccasion, Signal.Ends]) hsecond
      obtain ⟨last, hlast⟩ := ih fun turn hturn => h turn (hpast hfirst _ (hpast' hsecond _ hturn))
      refine ⟨last, ?_⟩
      rw [hlast, renewed rfl rfl hfirst rfl hsecond]
      omega

/-- So some turn of enough renewals fails. -/
theorem renewals_fail {count : Nat} (hcount : UInt64.size ≤ 5 * count) :
    ∃ turn ∈ turnsOf describe pair (renewals count),
      ∃ error, turn.output.result = .error error := by
  by_contra hfail
  have hsucceeds : ∀ turn ∈ turnsOf describe pair (renewals count),
      ∃ result, turn.output.result = .ok result := by
    intro turn hturn
    cases hresult : turn.output.result with
    | ok result => exact ⟨result, rfl⟩
    | error error => exact absurd ⟨turn, hturn, error, hresult⟩ hfail
  obtain ⟨last, hlast⟩ := renewals_use hsucceeds
  have := last.runtime.ledger.seq.toNat_lt_size
  omega

/-! ### Whole runs -/

/-- In a calm run the runtime and its child agree after every turn, and `run` fails only when
a BEGIN finds another one pending or when the ledger is full. Half of the turns that the
bound allows do not fill it. -/
theorem composition_agrees {startup : Startup} (hcalm : Runtime.Calm startup) {runtime : Runtime}
    {effects : List Effect} (hnew : Runtime.new startup = .ok (runtime, effects))
    (hoccasions : ∀ occasion ∈ occasions, occasion.Calm) (hlength : occasions.length < 2 ^ 63) :
    (∀ turn ∈ turnsOf describe ⟨runtime, .start⟩ occasions, PairTurn.Agrees turn) ∧
    (∀ error, runtime.run (occurrencesOf describe ⟨runtime, .start⟩ occasions) =
        some (.error error) →
      ∃ earlier turn, turnsOf describe ⟨runtime, .start⟩ occasions = earlier ++ [turn] ∧
        ((turn.input.signal = .event .begin ∧
            turn.before.runtime.authorityTransaction.pending = true) ∨
          ¬turn.before.HasNumbers)) ∧
    (occasions.length < 2 ^ 62 →
      ∀ turn ∈ turnsOf describe ⟨runtime, .start⟩ occasions, turn.before.HasNumbers) := by
  obtain ⟨hcoupled, hseq⟩ := coupled_new hcalm hnew
  have hagrees := @Coupled.agrees_turns describe _ 0 occasions hcoupled hoccasions (by omega)
  refine ⟨hagrees, fun error hrun => ?_, fun hfew => ?_⟩
  · obtain ⟨turn, hturn, herror⟩ := (@run_eq_error _ ⟨runtime, .start⟩ _ error).mp hrun
    obtain ⟨earlier, hsplit⟩ := eq_concat_of_failed hturn herror
    exact ⟨earlier, turn, hsplit, (hagrees turn hturn).failure error herror⟩
  · exact hcoupled.hasNumbers hoccasions (by omega) (by omega)

/-- A turn of every kind. -/
def everyTurn : List Occasion :=
  [.event .begin, .event .commit, .timeout, .event .functionalFreshnessProbe, .event .reset,
    .event .stop].map calmOccasion

theorem calm_everyTurn : ∀ occasion ∈ everyTurn, occasion.Calm :=
  List.forall_mem_map.mpr fun signal _ => calm_calmOccasion signal

theorem composition_agrees_calmStartup :
    ∃ runtime effects, Runtime.new Runtime.calmStartup = .ok (runtime, effects) ∧
      ∀ turn ∈ turnsOf (fun _ => "") ⟨runtime, .start⟩ everyTurn,
        PairTurn.Agrees turn ∧ turn.before.HasNumbers := by
  obtain ⟨runtime, effects, hnew, _⟩ :=
    @Runtime.new_calm 0 Runtime.calmStartup Runtime.calm_calmStartup (by decide)
  obtain ⟨hagrees, _, hnumbers⟩ := @composition_agrees (fun _ => "") everyTurn Runtime.calmStartup
    Runtime.calm_calmStartup runtime effects hnew calm_everyTurn (by decide)
  exact ⟨runtime, effects, hnew, fun turn hturn =>
    ⟨hagrees turn hturn, hnumbers (by decide) turn hturn⟩⟩

/-- Renewals use up the sequence numbers before their number reaches the bound, and `run`
fails without any BEGIN. -/
theorem composition_exhausted :
    ∃ runtime effects error, Runtime.Calm Runtime.calmStartup ∧
      Runtime.new Runtime.calmStartup = .ok (runtime, effects) ∧
      (∀ occasion ∈ renewals (2 ^ 62 - 1), occasion.Calm ∧ occasion.signal ≠ .event .begin) ∧
      (renewals (2 ^ 62 - 1)).length < 2 ^ 63 ∧
      runtime.run (occurrencesOf (fun _ => "") ⟨runtime, .start⟩ (renewals (2 ^ 62 - 1))) =
        some (.error error) := by
  obtain ⟨runtime, effects, hnew, _⟩ :=
    @Runtime.new_calm 0 Runtime.calmStartup Runtime.calm_calmStartup (by decide)
  have hcount : UInt64.size ≤ 5 * (2 ^ 62 - 1) := by
    have : UInt64.size = 2 ^ 64 := rfl
    omega
  obtain ⟨turn, hturn, error, herror⟩ :=
    @renewals_fail (fun _ => "") ⟨runtime, .start⟩ (2 ^ 62 - 1) hcount
  refine ⟨runtime, effects, error, Runtime.calm_calmStartup, hnew,
    fun occasion hoccasion => signal_of_mem_renewals hoccasion, ?_,
    (@run_eq_error _ ⟨runtime, .start⟩ _ error).mpr ⟨turn, hturn, herror⟩⟩
  rw [length_renewals]
  omega

end Runs

end Oasi
