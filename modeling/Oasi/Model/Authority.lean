import Mathlib.Data.List.Basic
import Mathlib.Tactic.IntervalCases

/-! # Authority decisions and the single-use transaction

A commit is authorized against a lease, the body and the request by a ladder of
checks that names the first mismatch. A transaction captures the active lease at
BEGIN; its commit consumes the capture, runs the ladder on the captured lease,
and then requires the lease that is active at commit to agree with it.
-/

namespace Oasi

/-! ## Data -/

inductive Decision where
  | allow
  | blockQuarantine
  | blockBodyUid
  | blockEpoch
  | blockGeneration
  | blockCertificate
  | blockExpired
  | blockPrincipal
  | blockResource
  | blockAction
  | blockNoLease
  deriving DecidableEq, Repr

/-- The `repr(u8)` discriminant. -/
def Decision.toU8 : Decision → UInt8
  | .allow => 0
  | .blockQuarantine => 1
  | .blockBodyUid => 2
  | .blockEpoch => 3
  | .blockGeneration => 4
  | .blockCertificate => 5
  | .blockExpired => 6
  | .blockPrincipal => 7
  | .blockResource => 8
  | .blockAction => 9
  | .blockNoLease => 10

def Decision.asStr : Decision → String
  | .allow => "ALLOW"
  | .blockQuarantine => "BLOCK_QUARANTINE"
  | .blockBodyUid => "BLOCK_BODY_UID"
  | .blockEpoch => "BLOCK_EPOCH"
  | .blockGeneration => "BLOCK_GENERATION"
  | .blockCertificate => "BLOCK_CERTIFICATE"
  | .blockExpired => "BLOCK_EXPIRED"
  | .blockPrincipal => "BLOCK_PRINCIPAL"
  | .blockResource => "BLOCK_RESOURCE"
  | .blockAction => "BLOCK_ACTION"
  | .blockNoLease => "BLOCK_NO_LEASE"

theorem Decision.toU8_le_ten (decision : Decision) : decision.toU8 ≤ 10 := by
  cases decision <;> decide

/-- Every discriminant up to ten is a decision. -/
theorem Decision.exists_toU8 {value : UInt8} (h : value ≤ 10) :
    ∃ decision : Decision, decision.toU8 = value := by
  have hnat : value.toNat ≤ 10 := UInt8.le_iff_toNat_le.mp h
  have hvalue : value = UInt8.ofNat value.toNat := (UInt8.ofNat_toNat).symm
  rw [hvalue]
  generalize value.toNat = number at hnat
  interval_cases number
  · exact ⟨.allow, rfl⟩
  · exact ⟨.blockQuarantine, rfl⟩
  · exact ⟨.blockBodyUid, rfl⟩
  · exact ⟨.blockEpoch, rfl⟩
  · exact ⟨.blockGeneration, rfl⟩
  · exact ⟨.blockCertificate, rfl⟩
  · exact ⟨.blockExpired, rfl⟩
  · exact ⟨.blockPrincipal, rfl⟩
  · exact ⟨.blockResource, rfl⟩
  · exact ⟨.blockAction, rfl⟩
  · exact ⟨.blockNoLease, rfl⟩

structure BodyState where
  bodyUid : UInt64
  epoch : UInt64
  generation : UInt64
  certificate : UInt64
  quarantined : Bool
  deriving DecidableEq, Repr

structure SafetyLease where
  bodyUid : UInt64
  epoch : UInt64
  generation : UInt64
  certificate : UInt64
  validUntilNs : UInt64
  principalId : UInt64
  resourceId : UInt64
  actionId : UInt64
  deriving DecidableEq, Repr

structure CommitRequest where
  nowNs : UInt64
  principalId : UInt64
  resourceId : UInt64
  actionId : UInt64
  deriving DecidableEq, Repr

/-! ## The decision ladders -/

def validateCommit (body : BodyState) (lease : Option SafetyLease) (request : CommitRequest) :
    Decision :=
  match lease with
  | none => .blockNoLease
  | some lease =>
      if body.quarantined then .blockQuarantine
      else if body.bodyUid ≠ lease.bodyUid then .blockBodyUid
      else if body.epoch ≠ lease.epoch then .blockEpoch
      else if body.generation ≠ lease.generation then .blockGeneration
      else if body.certificate ≠ lease.certificate then .blockCertificate
      else if request.nowNs ≥ lease.validUntilNs then .blockExpired
      else if request.principalId ≠ lease.principalId then .blockPrincipal
      else if request.resourceId ≠ lease.resourceId then .blockResource
      else if request.actionId ≠ lease.actionId then .blockAction
      else .allow

def leaseReplacementDecision (capturedLease currentLease : SafetyLease) : Decision :=
  if capturedLease.bodyUid ≠ currentLease.bodyUid then .blockBodyUid
  else if capturedLease.epoch ≠ currentLease.epoch then .blockEpoch
  else if capturedLease.generation ≠ currentLease.generation then .blockGeneration
  else if capturedLease.certificate ≠ currentLease.certificate then .blockCertificate
  else if capturedLease.validUntilNs ≠ currentLease.validUntilNs then .blockExpired
  else if capturedLease.principalId ≠ currentLease.principalId then .blockPrincipal
  else if capturedLease.resourceId ≠ currentLease.resourceId then .blockResource
  else if capturedLease.actionId ≠ currentLease.actionId then .blockAction
  else .allow

/-- The lease covers the body and the request: what every rung of the commit
ladder demands together. -/
structure SafetyLease.Authorizes (lease : SafetyLease) (body : BodyState)
    (request : CommitRequest) : Prop where
  notQuarantined : body.quarantined = false
  bodyUid : body.bodyUid = lease.bodyUid
  epoch : body.epoch = lease.epoch
  generation : body.generation = lease.generation
  certificate : body.certificate = lease.certificate
  unexpired : request.nowNs < lease.validUntilNs
  principalId : request.principalId = lease.principalId
  resourceId : request.resourceId = lease.resourceId
  actionId : request.actionId = lease.actionId

theorem validateCommit_eq_allow {body : BodyState} {lease : Option SafetyLease}
    {request : CommitRequest} :
    validateCommit body lease request = .allow ↔
      ∃ held, lease = some held ∧ held.Authorizes body request := by
  cases lease with
  | none => simp [validateCommit]
  | some held =>
      constructor
      · intro h
        simp only [validateCommit] at h
        repeat' split at h
        all_goals first
          | contradiction
          | skip
        refine ⟨held, rfl, ?_⟩
        constructor <;> simp_all
      · rintro ⟨_, hheld, hauthorizes⟩
        cases hheld
        simp [validateCommit, hauthorizes.notQuarantined, hauthorizes.bodyUid, hauthorizes.epoch,
          hauthorizes.generation, hauthorizes.certificate, hauthorizes.unexpired,
          hauthorizes.principalId, hauthorizes.resourceId, hauthorizes.actionId]

theorem leaseReplacementDecision_eq_allow {capturedLease currentLease : SafetyLease} :
    leaseReplacementDecision capturedLease currentLease = .allow ↔
      capturedLease = currentLease := by
  constructor
  · intro h
    simp only [leaseReplacementDecision] at h
    cases capturedLease
    cases currentLease
    repeat' split at h
    all_goals first
      | contradiction
      | skip
    simp_all
  · rintro rfl
    simp [leaseReplacementDecision]

/-! ## The transaction -/

inductive BeginError where
  | alreadyPending
  deriving DecidableEq, Repr

structure AuthorityTransaction where
  pending : Bool
  capturedLease : Option SafetyLease
  deriving DecidableEq, Repr

namespace AuthorityTransaction

def new : AuthorityTransaction where
  pending := false
  capturedLease := none

def begin (transaction : AuthorityTransaction) (activeLease : Option SafetyLease) :
    Except BeginError Unit × AuthorityTransaction :=
  if transaction.pending then (.error .alreadyPending, transaction)
  else (.ok (), { pending := true, capturedLease := activeLease })

/-- Cancels a pending authorization before any effect may be committed. -/
def abort (transaction : AuthorityTransaction) : Bool × AuthorityTransaction :=
  (transaction.pending, { pending := false, capturedLease := none })

def commit (transaction : AuthorityTransaction) (body : BodyState)
    (currentLease : Option SafetyLease) (request : CommitRequest) :
    Decision × AuthorityTransaction :=
  if transaction.pending = false then (.blockNoLease, transaction)
  else
    let consumed : AuthorityTransaction := { pending := false, capturedLease := none }
    match currentLease with
    | none => (.blockNoLease, consumed)
    | some currentLease =>
        let capturedDecision := validateCommit body transaction.capturedLease request
        if capturedDecision ≠ .allow then (capturedDecision, consumed)
        else
          match transaction.capturedLease with
          | none => (.blockNoLease, consumed)
          | some capturedLease =>
              (leaseReplacementDecision capturedLease currentLease, consumed)

theorem begin_of_pending {transaction : AuthorityTransaction} (h : transaction.pending = true)
    (lease : Option SafetyLease) :
    transaction.begin lease = (.error .alreadyPending, transaction) := by
  simp [begin, h]

theorem begin_of_idle {transaction : AuthorityTransaction} (h : transaction.pending = false)
    (lease : Option SafetyLease) :
    transaction.begin lease = (.ok (), { pending := true, capturedLease := lease }) := by
  simp [begin, h]

/-- A commit leaves nothing pending. -/
theorem commit_pending (transaction : AuthorityTransaction) (body : BodyState)
    (currentLease : Option SafetyLease) (request : CommitRequest) :
    (transaction.commit body currentLease request).2.pending = false := by
  unfold commit
  split
  next hidle => exact hidle
  next =>
    cases currentLease with
    | none => rfl
    | some current =>
        dsimp only
        split
        · rfl
        · split <;> rfl

/-- The one way to an allowed commit: a pending capture of the very lease that
is still active, covering the body and the request. -/
theorem commit_eq_allow {transaction : AuthorityTransaction} {body : BodyState}
    {currentLease : Option SafetyLease} {request : CommitRequest} :
    (transaction.commit body currentLease request).1 = .allow ↔
      transaction.pending = true ∧ ∃ lease, transaction.capturedLease = some lease ∧
        currentLease = some lease ∧ lease.Authorizes body request := by
  cases hpending : transaction.pending with
  | false => simp [commit, hpending]
  | true =>
      cases currentLease with
      | none => simp [commit, hpending]
      | some current =>
          cases hcaptured : transaction.capturedLease with
          | none => simp [commit, hpending, hcaptured, validateCommit]
          | some captured =>
              simp only [commit, hpending, Bool.true_eq_false, if_false, hcaptured,
                Option.some.injEq, true_and]
              split
              next hblocked =>
                constructor
                · intro h
                  exact absurd h hblocked
                · rintro ⟨lease, rfl, rfl, hauthorizes⟩
                  exact absurd (validateCommit_eq_allow.mpr ⟨_, rfl, hauthorizes⟩) hblocked
              next hallowed =>
                rw [leaseReplacementDecision_eq_allow]
                obtain ⟨_, hheld, hauthorizes⟩ := validateCommit_eq_allow.mp (not_not.mp hallowed)
                cases hheld
                constructor
                · rintro rfl
                  exact ⟨_, rfl, rfl, hauthorizes⟩
                · rintro ⟨_, rfl, rfl, _⟩
                  rfl

end AuthorityTransaction

end Oasi
