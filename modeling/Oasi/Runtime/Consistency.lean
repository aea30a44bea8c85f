import Oasi.Runtime.CalmRun

/-! # Consistent runtimes

Between turns that have returned `Ok`, the lease, the quarantine and the counters
of the runtime agree, and every lease it installs outranks all leases before it.
-/

namespace Oasi

/-- The identities a lease is bound to. -/
def SafetyLease.authority (lease : SafetyLease) : AuthoritySnapshot where
  bodyUid := lease.bodyUid
  epoch := lease.epoch
  generation := lease.generation
  certificate := lease.certificate
  principalId := lease.principalId
  resourceId := lease.resourceId
  actionId := lease.actionId

/-- The lease, the transaction and the quarantine agree. -/
structure Holdings (state : RuntimeState) : Prop where
  quarantined_iff : state.body.quarantined = true ↔ state.activeLease = none
  leaseCovers : ∀ lease, state.activeLease = some lease →
    lease.authority = state.authoritySnapshot
  captured : state.authorityTransaction.pending = true →
    ∀ lease, state.authorityTransaction.capturedLease = some lease →
      state.activeLease = some lease
  rollback : state.rollbackConfirmed = true → state.body.quarantined = true

/-- The counters agree with each other and with the quarantine. -/
structure Counts (state : RuntimeState) : Prop where
  childActions : state.metrics.childActions = state.actionCounter
  allowedCommits : state.metrics.allowedCommits = state.actionCounter
  verifiedWorkAcks : state.metrics.verifiedWorkAcks = state.actionCounter
  quarantines : state.metrics.quarantines.toNat =
    state.metrics.functionalProbeRecoveries.toNat + if state.body.quarantined then 1 else 0
  certificate : state.body.certificate.toNat =
    100 + state.metrics.functionalProbeRecoveries.toNat

structure Consistent (state : RuntimeState) : Prop extends Holdings state, Counts state

section Steps

variable {state : RuntimeState}

theorem consumed_pending (state : RuntimeState) (nowNs : UInt64) :
    (state.consumed nowNs).authorityTransaction.pending = false :=
  AuthorityTransaction.commit_pending _ _ _ _

/-- Fields that do not show in the counts may change. -/
theorem Counts.congr {other : RuntimeState} (h : Counts state)
    (hmetrics : other.metrics.childActions = state.metrics.childActions ∧
      other.metrics.allowedCommits = state.metrics.allowedCommits ∧
      other.metrics.verifiedWorkAcks = state.metrics.verifiedWorkAcks ∧
      other.metrics.quarantines = state.metrics.quarantines ∧
      other.metrics.functionalProbeRecoveries = state.metrics.functionalProbeRecoveries)
    (haction : other.actionCounter = state.actionCounter)
    (hcertificate : other.body.certificate = state.body.certificate)
    (hquarantined : other.body.quarantined = state.body.quarantined) : Counts other := by
  obtain ⟨hactions, hallowed, hverified, hquarantines, hrecoveries⟩ := hmetrics
  refine ⟨?_, ?_, ?_, ?_, ?_⟩
  · rw [hactions, haction, h.childActions]
  · rw [hallowed, haction, h.allowedCommits]
  · rw [hverified, haction, h.verifiedWorkAcks]
  · rw [hquarantines, hrecoveries, hquarantined, h.quarantines]
  · rw [hcertificate, hrecoveries, h.certificate]

/-- The counts of recoveries and quarantines stay within the certificate's range,
so neither saturates. -/
theorem Counts.revoked (h : Counts state) : Counts state.revoked := by
  refine ⟨h.childActions, h.allowedCommits, h.verifiedWorkAcks, ?_, h.certificate⟩
  have hquarantines := h.quarantines
  have hcertificate := h.certificate
  have hlt := state.body.certificate.toNat_lt_size
  show (if state.body.quarantined then state.metrics.quarantines
    else saturatingSucc state.metrics.quarantines).toNat =
      state.metrics.functionalProbeRecoveries.toNat + 1
  cases hquarantined : state.body.quarantined with
  | true =>
      rw [hquarantined] at hquarantines
      exact hquarantines
  | false =>
      simp only [hquarantined, Bool.false_eq_true, if_false, Nat.add_zero] at hquarantines ⊢
      rw [toNat_saturatingSucc]
      omega

theorem holdings_revoked (state : RuntimeState) : Holdings state.revoked where
  quarantined_iff := ⟨fun _ => rfl, fun _ => rfl⟩
  leaseCovers := fun _ hlease => by cases hlease
  captured := fun hpending => by cases hpending
  rollback := fun hconfirmed => by cases hconfirmed

/-- A quarantine that was acknowledged leaves a consistent runtime. -/
theorem consistent_quarantine {reason : String} {effects : List Effect} {after : RuntimeState}
    (h : Counts state) (hturn : QuarantineTurn reason state effects true after) :
    Consistent after := by
  cases hturn with
  | confirmed order exchanged hexchanged =>
      refine ⟨⟨⟨fun _ => rfl, fun _ => rfl⟩, ?_, ?_, fun _ => rfl⟩, h.revoked.congr ?_ rfl rfl rfl⟩
      · exact (holdings_revoked state).leaseCovers
      · exact (holdings_revoked state).captured
      · exact ⟨rfl, rfl, rfl, rfl, rfl⟩

theorem consistent_begun (h : Consistent state) : Consistent state.captured where
  toHoldings := {
    quarantined_iff := h.quarantined_iff
    leaseCovers := h.leaseCovers
    captured := fun _ _ hlease => hlease
    rollback := h.rollback }
  toCounts := h.toCounts.congr ⟨rfl, rfl, rfl, rfl, rfl⟩ rfl rfl rfl

/-- A commit leaves nothing pending. -/
theorem Holdings.consumed (h : Holdings state) (nowNs : UInt64) :
    Holdings (state.consumed nowNs) where
  quarantined_iff := h.quarantined_iff
  leaseCovers := h.leaseCovers
  captured := fun hpending => by simp [consumed_pending] at hpending
  rollback := h.rollback

theorem consistent_commit {nowNs : UInt64} {effects : List Effect} {after : RuntimeState}
    (h : Consistent state) (hturn : CommitTurn nowNs state effects true after) :
    Consistent after := by
  have hholdings := h.toHoldings.consumed nowNs
  cases hturn with
  | blocked hblocked =>
      refine ⟨⟨hholdings.quarantined_iff, hholdings.leaseCovers, hholdings.captured,
        hholdings.rollback⟩, h.toCounts.congr ⟨rfl, rfl, rfl, rfl, rfl⟩ rfl rfl rfl⟩
  | committed hallowed order exchanged hexchanged allowedCommits hallowedCommits records =>
      have hactions := order.nextActions
      have hid := order.nextId
      rw [h.childActions, hid, Option.some.injEq] at hactions
      rw [h.allowedCommits, hid, Option.some.injEq] at hallowedCommits
      refine ⟨⟨hholdings.quarantined_iff, hholdings.leaseCovers, hholdings.captured,
        hholdings.rollback⟩, hactions.symm, hallowedCommits.symm, ?_, h.quarantines,
        h.certificate⟩
      have hverified := checkedSucc_eq_saturatingSucc hid
      rw [← h.verifiedWorkAcks] at hverified
      exact hverified

theorem consistent_probe {nowNs : UInt64} {effects : List Effect} {after : RuntimeState}
    (h : Consistent state) (hturn : ProbeTurn nowNs state effects true after) :
    Consistent after := by
  cases hturn with
  | refused hrefused =>
      exact ⟨⟨h.quarantined_iff, h.leaseCovers, h.captured, h.rollback⟩,
        h.toCounts.congr ⟨rfl, rfl, rfl, rfl, rfl⟩ rfl rfl rfl⟩
  | recovered hquarantined hconfirmed order exchanged hexchanged validUntilNs hdeadline _ hafter
      records _ hrecords hok =>
      subst hafter
      have hcertificate := checkedSucc_eq_some.mp order.nextCertificate
      have hlt := order.certificate.toNat_lt_size
      have hquarantines := h.quarantines
      have hrecoveries := h.certificate
      rw [hquarantined] at hquarantines
      simp only [if_true] at hquarantines
      refine ⟨⟨⟨(nomatch ·), (nomatch ·)⟩, ?_, ?_, (nomatch ·)⟩, h.childActions,
        h.allowedCommits, h.verifiedWorkAcks, ?_, ?_⟩
      · rintro lease hlease
        cases hlease
        rfl
      · intro hpending lease hlease
        -- nothing but an empty capture can be pending while the body is quarantined
        have hactive := h.captured hpending lease hlease
        rw [h.quarantined_iff.mp hquarantined] at hactive
        cases hactive
      · show state.metrics.quarantines.toNat =
          (saturatingSucc state.metrics.functionalProbeRecoveries).toNat + 0
        rw [toNat_saturatingSucc]
        omega
      · show order.certificate.toNat =
          100 + (saturatingSucc state.metrics.functionalProbeRecoveries).toNat
        rw [toNat_saturatingSucc]
        omega

/-- A turn that returned `Ok` keeps the runtime consistent. -/
theorem consistent_turn {nowNs : UInt64} {signal : Signal} {effects : List Effect}
    {after : RuntimeState} (h : Consistent state)
    (hturn : AuthorityTurn nowNs state signal effects true after) (hsignal : ¬signal.Ends) :
    Consistent after := by
  cases hturn with
  | begun hidle => exact consistent_begun h
  | commit hturn => exact consistent_commit h hturn
  | reset epoch generation hepoch hgeneration hturn =>
      refine consistent_quarantine ?_ hturn
      exact h.toCounts.congr ⟨rfl, rfl, rfl, rfl, rfl⟩ rfl rfl rfl
  | timeout hturn => exact consistent_quarantine h.toCounts hturn
  | probe hturn => exact consistent_probe h hturn
  | conclude signal hends hturn => exact absurd hends hsignal

end Steps

/-! ## Histories of leases -/

/-- The body has moved on from the lease, or is still at it. -/
structure SafetyLease.Below (lease : SafetyLease) (body : BodyState) : Prop where
  epoch : lease.epoch ≤ body.epoch
  generation : lease.generation ≤ body.generation
  certificate : lease.certificate ≤ body.certificate

theorem below_of_authority {state : RuntimeState} {lease : SafetyLease}
    (h : lease.authority = state.authoritySnapshot) : lease.Below state.body := by
  simp only [SafetyLease.authority, RuntimeState.authoritySnapshot,
    AuthoritySnapshot.mk.injEq] at h
  obtain ⟨_, hepoch, hgeneration, hcertificate, _⟩ := h
  exact ⟨hepoch ▸ UInt64.le_refl _, hgeneration ▸ UInt64.le_refl _,
    hcertificate ▸ UInt64.le_refl _⟩

/-- The numbers of the body never fall. -/
structure BodyState.Advances (before after : BodyState) : Prop where
  epoch : before.epoch ≤ after.epoch
  generation : before.generation ≤ after.generation
  certificate : before.certificate ≤ after.certificate

theorem BodyState.Advances.rfl {body : BodyState} : body.Advances body :=
  ⟨UInt64.le_refl _, UInt64.le_refl _, UInt64.le_refl _⟩

theorem SafetyLease.Below.trans {lease : SafetyLease} {before after : BodyState}
    (h : lease.Below before) (hadvances : before.Advances after) : lease.Below after where
  epoch := UInt64.le_trans h.epoch hadvances.epoch
  generation := UInt64.le_trans h.generation hadvances.generation
  certificate := UInt64.le_trans h.certificate hadvances.certificate

/-- A lease held after a turn was held before it, unless the turn recovered. -/
def Recovers (before after : RuntimeState) : Prop :=
  before.body.quarantined = true ∧ after.body.quarantined = false ∧
    before.body.epoch = after.body.epoch ∧ before.body.generation < after.body.generation ∧
    before.body.certificate < after.body.certificate

theorem advances_turn {nowNs : UInt64} {state after : RuntimeState} {signal : Signal}
    {effects : List Effect} (hturn : AuthorityTurn nowNs state signal effects true after)
    (hsignal : ¬signal.Ends) :
    state.body.Advances after.body ∧
      (after.activeLease = none ∨ after.activeLease = state.activeLease ∨
        Recovers state after) := by
  cases hturn with
  | begun hidle => exact ⟨.rfl, .inr (.inl rfl)⟩
  | commit hturn => cases hturn <;> exact ⟨.rfl, .inr (.inl rfl)⟩
  | reset epoch generation hepoch hgeneration hturn =>
      cases hturn
      exact ⟨⟨le_of_checkedSucc hepoch, le_of_checkedSucc hgeneration, UInt64.le_refl _⟩, .inl rfl⟩
  | timeout hturn =>
      cases hturn
      exact ⟨⟨UInt64.le_refl _, UInt64.le_refl _, UInt64.le_refl _⟩, .inl rfl⟩
  | probe hturn =>
      cases hturn with
      | refused hrefused => exact ⟨.rfl, .inr (.inl rfl)⟩
      | recovered hquarantined hconfirmed order exchanged hexchanged validUntilNs hdeadline _
          hafter =>
          subst hafter
          refine ⟨⟨UInt64.le_refl _, le_of_checkedSucc order.nextGeneration,
            le_of_checkedSucc order.nextCertificate⟩, .inr (.inr ?_)⟩
          exact ⟨hquarantined, rfl, rfl, lt_of_checkedSucc order.nextGeneration,
            lt_of_checkedSucc order.nextCertificate⟩
  | conclude signal hends => exact absurd hends hsignal

namespace Runtime

/-- The turn installs a lease: it holds after the turn and did not before. -/
def Installs (turn : Turn) (lease : SafetyLease) : Prop :=
  turn.before.activeLease ≠ some lease ∧ turn.after.activeLease = some lease

/-- The lease was installed when the runtime was built or in one of the turns. -/
def InstalledIn (runtime : Runtime) (turns : List Turn) (lease : SafetyLease) : Prop :=
  runtime.activeLease = some lease ∨ ∃ turn ∈ turns, Installs turn lease

theorem consistent_launched {startup : Startup} {runtime : Runtime} {effects : List Effect}
    (h : Launched startup runtime effects) : Consistent runtime.toRuntimeState := by
  obtain ⟨validUntilNs, _, hstate⟩ := h.state
  rw [hstate]
  refine ⟨⟨⟨(nomatch ·), (nomatch ·)⟩, ?_, (nomatch ·), (nomatch ·)⟩, rfl, rfl, rfl, rfl, rfl⟩
  rintro lease hlease
  cases hlease
  rfl

/-- After turns that returned `Ok`, the runtime is consistent and no lease
installed so far outranks its body. -/
theorem consistent_past {runtime : Runtime} (hruntime : Consistent runtime.toRuntimeState)
    {occurrences : List Occurrence}
    (hok : ∀ turn ∈ runtimeMachine.trace runtime occurrences, turn.output.ends = false) :
    Consistent (runtimeMachine.run runtime occurrences).toRuntimeState ∧
      ∀ lease, InstalledIn runtime (runtimeMachine.trace runtime occurrences) lease →
        lease.Below (runtimeMachine.run runtime occurrences).body := by
  refine runtimeMachine.past_induction (motive := fun past state =>
    Consistent state.toRuntimeState ∧ ∀ lease, InstalledIn runtime past lease →
      lease.Below state.body) ?_ ?_ hok
  · refine ⟨hruntime, fun lease hlease => ?_⟩
    rcases hlease with hlease | ⟨_, hturn, _⟩
    · exact below_of_authority (hruntime.leaseCovers lease hlease)
    · cases hturn
  · rintro past state occurrence ⟨hconsistent, hbelow⟩ hcontinues
    obtain ⟨hturn, hsignal⟩ := turn_of_continuing hcontinues
    have hafter := consistent_turn hconsistent hturn hsignal
    refine ⟨hafter, fun lease hlease => ?_⟩
    have hnew : ∀ turn : Turn, Installs turn lease →
        turn = runtimeMachine.transition state occurrence →
        lease.Below (runtimeMachine.transition state occurrence).after.body := by
      rintro _ hinstalls rfl
      exact below_of_authority (hafter.leaseCovers lease hinstalls.2)
    have hold : InstalledIn runtime past lease →
        lease.Below (runtimeMachine.transition state occurrence).after.body :=
      fun hinstalled => (hbelow lease hinstalled).trans (advances_turn hturn hsignal).1
    rcases hlease with hlease | ⟨turn, hmem, hinstalls⟩
    · exact hold (.inl hlease)
    · rcases List.mem_append.mp hmem with hmem | hmem
      · exact hold (.inr ⟨turn, hmem, hinstalls⟩)
      · exact hnew turn hinstalls (List.mem_singleton.mp hmem)

theorem ends_of_result {turn : Turn} (h : turn.output.result = .ok none) :
    turn.output.ends = false := by
  rw [TurnReport.ends, h]

/-- A newly installed lease outranks every lease installed before it. -/
theorem outranks_of_installs {runtime : Runtime} (hruntime : Consistent runtime.toRuntimeState)
    {occurrences : List Occurrence}
    (hok : ∀ turn ∈ runtimeMachine.trace runtime occurrences, turn.output.ends = false)
    {earlier later : List Turn} {turn : Turn}
    (hsplit : runtimeMachine.trace runtime occurrences = earlier ++ turn :: later)
    {lease old : SafetyLease} (hinstalls : Installs turn lease)
    (hold : InstalledIn runtime earlier old) :
    old.generation < lease.generation ∧ old.certificate < lease.certificate ∧
      old.epoch ≤ lease.epoch := by
  obtain ⟨first, occurrence, second, _, rfl, rfl, _⟩ := runtimeMachine.trace_split hsplit
  rw [hsplit] at hok
  have hearlier := fun past hpast => hok past (List.mem_append_left _ hpast)
  obtain ⟨hconsistent, hbelow⟩ := consistent_past hruntime hearlier
  obtain ⟨hturn, hsignal⟩ :=
    turn_of_continuing (hok _ (List.mem_append_right _ List.mem_cons_self))
  have hafter := consistent_turn hconsistent hturn hsignal
  have hauthority := hafter.leaseCovers lease hinstalls.2
  simp only [SafetyLease.authority, RuntimeState.authoritySnapshot,
    AuthoritySnapshot.mk.injEq] at hauthority
  obtain ⟨_, hepoch, hgeneration, hcertificate, _⟩ := hauthority
  have hlow := hbelow old hold
  rcases (advances_turn hturn hsignal).2 with hnone | hsame | hrecovers
  · exact absurd (hnone.symm.trans hinstalls.2) (by simp)
  · exact absurd (hsame.symm.trans hinstalls.2) hinstalls.1
  · obtain ⟨_, _, hsameEpoch, hlessGeneration, hlessCertificate⟩ := hrecovers
    refine ⟨?_, ?_, ?_⟩
    · rw [hgeneration]
      exact UInt64.lt_of_le_of_lt hlow.generation hlessGeneration
    · rw [hcertificate]
      exact UInt64.lt_of_le_of_lt hlow.certificate hlessCertificate
    · rw [hepoch, ← hsameEpoch]
      exact hlow.epoch

/-- After any turns that returned `Ok`, the runtime is consistent, and no
authority tuple was issued twice on the way. -/
theorem consistent_run {startup : Startup} {runtime : Runtime} {effects : List Effect}
    (hnew : new startup = .ok (runtime, effects)) (occurrences : List Occurrence)
    (hok : ∀ turn ∈ runtimeMachine.trace runtime occurrences, turn.output.result = .ok none) :
    Consistent (runtimeMachine.run runtime occurrences).toRuntimeState ∧
    ∀ earlier turn later, runtimeMachine.trace runtime occurrences = earlier ++ turn :: later →
      ∀ lease, Installs turn lease → ∀ old, InstalledIn runtime earlier old →
        old.generation < lease.generation ∧ old.certificate < lease.certificate ∧
          old.epoch ≤ lease.epoch ∧ old.authority ≠ lease.authority := by
  have hruntime := consistent_launched (launched_of_new hnew)
  have hcontinues := fun turn hturn => ends_of_result (hok turn hturn)
  refine ⟨(consistent_past hruntime hcontinues).1, ?_⟩
  intro earlier turn later hsplit lease hinstalls old hold
  obtain ⟨hgeneration, hcertificate, hepoch⟩ :=
    outranks_of_installs hruntime hcontinues hsplit hinstalls hold
  refine ⟨hgeneration, hcertificate, hepoch, fun hsame => ?_⟩
  have hequal : old.generation = lease.generation := congrArg AuthoritySnapshot.generation hsame
  rw [hequal] at hgeneration
  exact absurd hgeneration (UInt64.lt_irrefl _)

/-- A quarantine and the recovery from it: the lease that the probe installs outranks
the one of the startup. -/
theorem consistent_run_recovery :
    ∃ runtime effects occurrences earlier turn later old lease,
      new calmStartup = .ok (runtime, effects) ∧
      runtimeMachine.trace runtime occurrences = earlier ++ turn :: later ∧
      runtime.activeLease = some old ∧ Installs turn lease ∧
      Consistent (runtimeMachine.run runtime occurrences).toRuntimeState ∧
      old.generation < lease.generation ∧ old.certificate < lease.certificate ∧
      old.epoch ≤ lease.epoch ∧ old.authority ≠ lease.authority := by
  obtain ⟨runtime, effects, hnew, hpoised⟩ := @poised_calmStartup 6 (by decide)
  obtain ⟨hresults, _, hturns⟩ := @calm_trace runtime 0 _
    [⟨1, .timeout⟩, ⟨2, .event .functionalFreshnessProbe⟩] hpoised (by decide)
  obtain ⟨earlier, turn, later, htrace, hturn⟩ := hturns [⟨1, .timeout⟩] _ [] rfl
  obtain ⟨hconsistent, hinstalled⟩ := consistent_run hnew _ hresults
  have hold : runtime.activeLease = calmState.activeLease := congrArg _ hpoised.fields
  have hinstalls : Installs turn _ :=
    ⟨by rw [hturn.before]; exact nofun, by rw [hturn.after]; rfl⟩
  exact ⟨runtime, effects, _, earlier, turn, later, _, _, hnew, htrace, hold, hinstalls,
    hconsistent, hinstalled earlier turn later htrace _ hinstalls _ (.inl hold)⟩

end Runtime

end Oasi
