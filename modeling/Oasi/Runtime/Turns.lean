import Oasi.Runtime.Outcomes

/-! # The authority machine

An abstract account of one turn of the runtime: which of its branches is taken,
which effects it has and what it does to the fields, with the devices reduced to
whether a transaction was answered and whether a record call succeeded. Every
turn of the runtime is a turn of this machine.
-/

namespace Oasi

namespace RuntimeState

def commitDecision (state : RuntimeState) (nowNs : UInt64) : Decision :=
  (state.authorityTransaction.commit state.body state.activeLease (Runtime.commitRequest nowNs)).1

def consumed (state : RuntimeState) (nowNs : UInt64) : RuntimeState :=
  state.withTransaction (state.authorityTransaction.commit state.body state.activeLease
    (Runtime.commitRequest nowNs)).2

def captured (state : RuntimeState) : RuntimeState :=
  state.withTransaction { pending := true, capturedLease := state.activeLease }

/-- The fields at the request of a quarantine. -/
def quarantinedAs (state : RuntimeState) (rollbacks nonce : UInt64) : RuntimeState :=
  (state.revoked.withRollbacks rollbacks).withNonce nonce

/-- The fields after an accepted probe. -/
def recovered (state : RuntimeState) (certificate generation nonce validUntilNs : UInt64) :
    RuntimeState :=
  ((state.countProbe.withNonce nonce).refreshed certificate generation).reauthorized validUntilNs

end RuntimeState

/-! ## Orders -/

/-- The numbers of a work request. -/
structure WorkOrder (state : RuntimeState) where
  id : UInt64
  actions : UInt64
  units : UInt64
  nonce : UInt64
  nextId : checkedSucc state.actionCounter = some id
  nextActions : checkedSucc state.metrics.childActions = some actions
  boundedUnits : state.reflex.workUnits = some units
  nextNonce : checkedSucc state.transactionNonce = some nonce

/-- The numbers of a rollback request. -/
structure RollbackOrder (state : RuntimeState) where
  rollbacks : UInt64
  nonce : UInt64
  nextRollbacks : checkedSucc state.metrics.rollbacks = some rollbacks
  nextNonce : checkedSucc state.transactionNonce = some nonce

/-- The numbers of a probe request. -/
structure ProbeOrder (state : RuntimeState) where
  certificate : UInt64
  generation : UInt64
  nonce : UInt64
  nextCertificate : checkedSucc state.body.certificate = some certificate
  nextGeneration : checkedSucc state.body.generation = some generation
  nextNonce : checkedSucc state.transactionNonce = some nonce

section Orders

variable {state : RuntimeState}

def WorkOrder.command (order : WorkOrder state) : String :=
  boundWorkRequest order.id order.nonce order.units state.authoritySnapshot

def WorkOrder.expected (order : WorkOrder state) : BoundExpectedAck :=
  .work order.id order.nonce order.actions (workDigest order.id order.units)
    state.authoritySnapshot

def RollbackOrder.command (order : RollbackOrder state) : String :=
  boundRollbackRequest order.rollbacks order.nonce state.authoritySnapshot

def RollbackOrder.expected (order : RollbackOrder state) : BoundExpectedAck :=
  .rollback order.rollbacks order.nonce state.authoritySnapshot

def RollbackOrder.quarantined (order : RollbackOrder state) : RuntimeState :=
  state.quarantinedAs order.rollbacks order.nonce

def ProbeOrder.command (order : ProbeOrder state) : String :=
  boundProbeRequest order.certificate order.nonce state.authoritySnapshot

def ProbeOrder.expected (order : ProbeOrder state) : BoundExpectedAck :=
  .probe order.certificate order.nonce state.authoritySnapshot

end Orders

/-! ## Turns -/

/-- A quarantine; the flag says whether it returned `Ok`. -/
inductive QuarantineTurn (reason : String) (state : RuntimeState) :
    List Effect → Bool → RuntimeState → Prop where
  | overflowed : QuarantineTurn reason state [] false state.revoked
  | unsent (rollbacks nonce : UInt64) :
      QuarantineTurn reason state
        [state.revoked.records "QUARANTINE" reason .blockQuarantine none] false
        (state.quarantinedAs rollbacks nonce)
  | refused (order : RollbackOrder state) (error : String) (exchanged : List Effect)
      (hexchanged : Unanswered order.command exchanged) :
      QuarantineTurn reason state
        (state.revoked.records "QUARANTINE" reason .blockQuarantine none :: exchanged ++
          [state.revoked.records "ROLLBACK_ACK_REJECTED" error .blockQuarantine none]) false
        (order.quarantined.withDamage 1)
  | confirmed (order : RollbackOrder state) (exchanged : List Effect)
      (hexchanged : Answered order.command order.expected exchanged) (ok : Bool) :
      QuarantineTurn reason state
        (state.revoked.records "QUARANTINE" reason .blockQuarantine none :: exchanged ++
          [state.revoked.records "ROLLBACK_ACK_ACCEPTED"
            "strict version/id/nonce/checksum validation passed" .blockQuarantine none]) ok
        order.quarantined.confirmRollback

/-- A commit at a reading of the clock. -/
inductive CommitTurn (nowNs : UInt64) (state : RuntimeState) :
    List Effect → Bool → RuntimeState → Prop where
  | blocked (hblocked : state.commitDecision nowNs ≠ .allow) (ok : Bool) :
      CommitTurn nowNs state
        [state.records "COMMIT_BLOCKED" (state.commitDecision nowNs).asStr
          (state.commitDecision nowNs) state.activeLease] ok
        (state.consumed nowNs).countBlocked
  | unsent (hallowed : state.commitDecision nowNs = .allow) (nonce : UInt64) :
      CommitTurn nowNs state [] false ((state.consumed nowNs).withNonce nonce)
  | rejected (hallowed : state.commitDecision nowNs = .allow) (order : WorkOrder state)
      (error : String) (exchanged : List Effect)
      (hexchanged : Unanswered order.command exchanged) :
      CommitTurn nowNs state
        (exchanged ++ [state.rejected.records "PROTOCOL_ACK_REJECTED" error .blockQuarantine none])
        false ((state.consumed nowNs).withNonce order.nonce).rejected
  | uncounted (hallowed : state.commitDecision nowNs = .allow) (order : WorkOrder state)
      (exchanged : List Effect) (hexchanged : Answered order.command order.expected exchanged) :
      CommitTurn nowNs state exchanged false ((state.consumed nowNs).withNonce order.nonce)
  | committed (hallowed : state.commitDecision nowNs = .allow) (order : WorkOrder state)
      (exchanged : List Effect) (hexchanged : Answered order.command order.expected exchanged)
      (allowedCommits : UInt64)
      (hallowedCommits : checkedSucc state.metrics.allowedCommits = some allowedCommits)
      (records : List Effect) (ok : Bool)
      (hrecords : records <+: [state.records "CHILD_ACK_ACCEPTED"
          (Runtime.ackDetail order.id order.nonce order.actions (workDigest order.id order.units))
          .allow state.activeLease,
        state.records "COMMIT" "child action dispatched and strict ACK validated" .allow
          state.activeLease]) (hok : ok = true → records.length = 2) :
      CommitTurn nowNs state (exchanged ++ records) ok
        (((state.consumed nowNs).withNonce order.nonce).countAllowed order.id order.actions
          allowedCommits)

/-- A functional freshness probe. -/
inductive ProbeTurn (nowNs : UInt64) (state : RuntimeState) :
    List Effect → Bool → RuntimeState → Prop where
  | refused (hrefused : state.body.quarantined = false ∨ state.rollbackConfirmed = false)
      (ok : Bool) :
      ProbeTurn nowNs state
        [state.records "FUNCTIONAL_FRESHNESS_PROBE_REJECTED"
          "rollback ACK not confirmed; no reauthorization" .blockQuarantine none] ok
        state.countProbe
  | unsent (hquarantined : state.body.quarantined = true)
      (hconfirmed : state.rollbackConfirmed = true) (nonce : UInt64) (records : List Effect)
      (hrecords : ∀ effect ∈ records, ∃ event detail,
        effect = state.records event detail .blockQuarantine none) :
      ProbeTurn nowNs state records false (state.countProbe.withNonce nonce)
  | rejected (hquarantined : state.body.quarantined = true)
      (hconfirmed : state.rollbackConfirmed = true) (order : ProbeOrder state) (error : String)
      (exchanged : List Effect) (hexchanged : Unanswered order.command exchanged) :
      ProbeTurn nowNs state
        (state.records "FUNCTIONAL_FRESHNESS_PROBE_REQUEST" Runtime.probeDetail .blockQuarantine
            none :: exchanged ++
          [state.rejected.records "PROTOCOL_ACK_REJECTED" error .blockQuarantine none]) false
        (state.countProbe.withNonce order.nonce).rejected
  | expired (hquarantined : state.body.quarantined = true)
      (hconfirmed : state.rollbackConfirmed = true) (order : ProbeOrder state)
      (exchanged : List Effect) (hexchanged : Answered order.command order.expected exchanged) :
      ProbeTurn nowNs state
        (state.records "FUNCTIONAL_FRESHNESS_PROBE_REQUEST" Runtime.probeDetail .blockQuarantine
          none :: exchanged) false (state.countProbe.withNonce order.nonce)
  | recovered (hquarantined : state.body.quarantined = true)
      (hconfirmed : state.rollbackConfirmed = true) (order : ProbeOrder state)
      (exchanged : List Effect) (hexchanged : Answered order.command order.expected exchanged)
      (validUntilNs : UInt64) (hdeadline : state.leaseDeadline nowNs = .ok validUntilNs)
      (after : RuntimeState)
      (hafter : after = state.recovered order.certificate order.generation order.nonce validUntilNs)
      (records : List Effect) (ok : Bool)
      (hrecords : records <+: [after.records "LEASE_INSTALLED"
          "PolicyIr lease duration applied after functional challenge" .allow after.activeLease,
        after.records "FUNCTIONAL_FRESHNESS_PROBE_ACCEPTED"
          "functional child-process liveness/freshness only; no identity or hardware attestation"
          .allow after.activeLease]) (hok : ok = true → records.length = 2) :
      ProbeTurn nowNs state
        (state.records "FUNCTIONAL_FRESHNESS_PROBE_REQUEST" Runtime.probeDetail .blockQuarantine
          none :: exchanged ++ records) ok after

/-- What follows the loop of `run`. -/
inductive ConcludeTurn (state : RuntimeState) : List Effect → Bool → RuntimeState → Prop where
  | unsent (nonce : UInt64) : ConcludeTurn state [] false (state.withNonce nonce)
  | rejected (nonce : UInt64) (hnonce : checkedSucc state.transactionNonce = some nonce)
      (error : String) (exchanged : List Effect)
      (hexchanged : Unstopped
        (boundStopRequest state.actionCounter nonce state.authoritySnapshot)
        (.stop state.actionCounter nonce state.authoritySnapshot) exchanged) :
      ConcludeTurn state
        (exchanged ++ [state.rejected.records "PROTOCOL_ACK_REJECTED" error .blockQuarantine none])
        false (state.withNonce nonce).rejected
  | concluded (nonce : UInt64) (hnonce : checkedSucc state.transactionNonce = some nonce)
      (exchanged : List Effect)
      (hexchanged : Stopped (boundStopRequest state.actionCounter nonce state.authoritySnapshot)
        (.stop state.actionCounter nonce state.authoritySnapshot) exchanged)
      (records : List Effect) (ok : Bool)
      (hrecords : records <+: [state.records "FINAL"
          "runtime complete with strict versioned child protocol"
          (if state.assessed.metrics.damage = 0 then .allow else .blockAction) state.activeLease,
        state.calls (.seal state.body state.activeLease)]) (hok : ok = true → records.length = 2) :
      ConcludeTurn state (exchanged ++ records) ok (state.withNonce nonce).assessed

/-- One turn, with its effects, whether it returned `Ok`, and the fields after it. -/
inductive AuthorityTurn (nowNs : UInt64) (state : RuntimeState) :
    Signal → List Effect → Bool → RuntimeState → Prop where
  | beginRefused (hpending : state.authorityTransaction.pending = true) :
      AuthorityTurn nowNs state (.event .begin) [] false state
  | begun (hidle : state.authorityTransaction.pending = false) (ok : Bool) :
      AuthorityTurn nowNs state (.event .begin)
        [state.records "BEGIN_ACTION" "permit snapshot captured" .allow state.activeLease] ok
        state.captured
  | commit {effects : List Effect} {ok : Bool} {after : RuntimeState}
      (h : CommitTurn nowNs state effects ok after) :
      AuthorityTurn nowNs state (.event .commit) effects ok after
  | resetOverflowed (epoch : UInt64) :
      AuthorityTurn nowNs state (.event .reset) [] false (state.withEpoch epoch)
  | reset (epoch generation : UInt64) (hepoch : checkedSucc state.body.epoch = some epoch)
      (hgeneration : checkedSucc state.body.generation = some generation)
      {effects : List Effect} {ok : Bool} {after : RuntimeState}
      (h : QuarantineTurn "epoch reset invalidated authority"
        ((state.withEpoch epoch).withGeneration generation) effects ok after) :
      AuthorityTurn nowNs state (.event .reset) effects ok after
  | timeout {effects : List Effect} {ok : Bool} {after : RuntimeState}
      (h : QuarantineTurn "safety lease expired during silence" state effects ok after) :
      AuthorityTurn nowNs state .timeout effects ok after
  | probe {effects : List Effect} {ok : Bool} {after : RuntimeState}
      (h : ProbeTurn nowNs state effects ok after) :
      AuthorityTurn nowNs state (.event .functionalFreshnessProbe) effects ok after
  | conclude (signal : Signal) (hsignal : signal = .event .stop ∨ signal = .disconnected)
      {effects : List Effect} {ok : Bool} {after : RuntimeState}
      (h : ConcludeTurn state effects ok after) :
      AuthorityTurn nowNs state signal effects ok after

end Oasi
