import Oasi.Model.Policy
import Oasi.Runtime.Child

/-! # The runtime's operations

The runtime holds the body, the active lease, the authority transaction and its
counters, next to two devices: the ledger and the child. An operation changes
them through one mutable reference, so what it changed before an error stays.
-/

namespace Oasi

structure Metrics where
  allowedCommits : UInt64
  blockedCommits : UInt64
  staleOrExpiredBlocked : UInt64
  childActions : UInt64
  verifiedWorkAcks : UInt64
  quarantines : UInt64
  rollbacks : UInt64
  rollbackAcks : UInt64
  functionalProbeRequests : UInt64
  functionalProbeRecoveries : UInt64
  damage : UInt64
  deriving DecidableEq, Repr

/-- The fields of the runtime other than its devices. -/
structure RuntimeState where
  body : BodyState
  activeLease : Option SafetyLease
  authorityTransaction : AuthorityTransaction
  reflex : ReflexProgram
  metrics : Metrics
  actionCounter : UInt64
  transactionNonce : UInt64
  rollbackConfirmed : Bool
  deriving DecidableEq, Repr

structure Runtime extends RuntimeState where
  ledger : Ledger
  child : Option ChildProcess

/-- What the environment chooses for one operation: the reading of the monotonic
clock, what surrounds a request and the exit of a child that was asked to stop,
both of which may depend on the request, and what the ledger file does. -/
structure Surroundings where
  nowNs : UInt64
  exchange : String → Exchange
  exit : String → ExitWait
  ledgerOutcomes : List IoOutcome

structure World where
  runtime : Runtime
  surroundings : Surroundings
  effects : List Effect

abbrev Operation (α : Type) := EStateM IoError World α

inductive Event where
  | begin
  | commit
  | reset
  | functionalFreshnessProbe
  | stop
  deriving DecidableEq, Repr

/-- What the schedule's channel answers to `recv_timeout`. -/
inductive Signal where
  | event (event : Event)
  | disconnected
  | timeout
  deriving DecidableEq, Repr

def Metrics.zero : Metrics := ⟨0, 0, 0, 0, 0, 0, 0, 0, 0, 0, 0⟩

namespace ReflexProgram

/-- The units of the first instruction, if that is bounded work. -/
def workUnits (program : ReflexProgram) : Option UInt64 :=
  match program.instructions.head? with
  | some (.work units) => some units
  | _ => none

end ReflexProgram

inductive LeaseDeadlineError where
  | durationOutOfRange
  | overflow
  deriving DecidableEq, Repr

def LeaseDeadlineError.message : LeaseDeadlineError → String
  | .durationOutOfRange => "lease duration outside bounds"
  | .overflow => "monotonic lease deadline overflow"

def checkedLeaseDeadline (nowNs durationNs : UInt64) : Except LeaseDeadlineError UInt64 := do
  failIf (¬leaseInRange durationNs) .durationOutOfRange
  match checkedAdd nowNs durationNs with
  | some deadline => return deadline
  | none => .error .overflow

def checkedCounterIncrement (value : UInt64) (counterName : String) : Except IoError UInt64 :=
  match checkedSucc value with
  | some next => .ok next
  | none => .error (.ofMessage (counterName ++ " overflow"))

namespace RuntimeState

def authoritySnapshot (state : RuntimeState) : AuthoritySnapshot where
  bodyUid := state.body.bodyUid
  epoch := state.body.epoch
  generation := state.body.generation
  certificate := state.body.certificate
  principalId := state.reflex.principalId
  resourceId := state.reflex.resourceId
  actionId := state.reflex.actionId

/-- The lease for the current body and program. -/
def leaseUntil (state : RuntimeState) (validUntilNs : UInt64) : SafetyLease where
  bodyUid := state.body.bodyUid
  epoch := state.body.epoch
  generation := state.body.generation
  certificate := state.body.certificate
  validUntilNs := validUntilNs
  principalId := state.reflex.principalId
  resourceId := state.reflex.resourceId
  actionId := state.reflex.actionId

/-- The deadline of a lease installed now. -/
def leaseDeadline (state : RuntimeState) (nowNs : UInt64) : Except IoError UInt64 :=
  (checkedLeaseDeadline nowNs state.reflex.leaseNs).mapError fun error => .ofMessage error.message

/-! ## Changes of the fields -/

def withTransaction (state : RuntimeState) (transaction : AuthorityTransaction) : RuntimeState :=
  { state with authorityTransaction := transaction }

def withNonce (state : RuntimeState) (nonce : UInt64) : RuntimeState :=
  { state with transactionNonce := nonce }

def withLease (state : RuntimeState) (lease : SafetyLease) : RuntimeState :=
  { state with activeLease := some lease }

def withEpoch (state : RuntimeState) (epoch : UInt64) : RuntimeState :=
  { state with body := { state.body with epoch := epoch } }

def withGeneration (state : RuntimeState) (generation : UInt64) : RuntimeState :=
  { state with body := { state.body with generation := generation } }

def withRollbacks (state : RuntimeState) (rollbacks : UInt64) : RuntimeState :=
  { state with metrics := { state.metrics with rollbacks := rollbacks } }

def withDamage (state : RuntimeState) (damage : UInt64) : RuntimeState :=
  { state with metrics := { state.metrics with damage := damage } }

def countBlocked (state : RuntimeState) : RuntimeState :=
  { state with metrics := { state.metrics with
    blockedCommits := saturatingSucc state.metrics.blockedCommits
    staleOrExpiredBlocked := saturatingSucc state.metrics.staleOrExpiredBlocked } }

def countAllowed (state : RuntimeState) (id actions allowedCommits : UInt64) : RuntimeState :=
  { state with
    actionCounter := id
    metrics := { state.metrics with
      allowedCommits := allowedCommits
      childActions := actions
      verifiedWorkAcks := saturatingSucc state.metrics.verifiedWorkAcks } }

def confirmRollback (state : RuntimeState) : RuntimeState :=
  { state with
    rollbackConfirmed := true
    metrics := { state.metrics with rollbackAcks := saturatingSucc state.metrics.rollbackAcks } }

def countProbe (state : RuntimeState) : RuntimeState :=
  { state with metrics := { state.metrics with
    functionalProbeRequests := saturatingSucc state.metrics.functionalProbeRequests } }

/-- The body after a probe whose acknowledgement was accepted. -/
def refreshed (state : RuntimeState) (certificate generation : UInt64) : RuntimeState :=
  { state with body := { state.body with
      certificate := certificate, generation := generation, quarantined := false } }

/-- The lease installed after such a probe. -/
def reauthorized (state : RuntimeState) (validUntilNs : UInt64) : RuntimeState :=
  { state with
    activeLease := some (state.leaseUntil validUntilNs)
    rollbackConfirmed := false
    metrics := { state.metrics with
      functionalProbeRecoveries := saturatingSucc state.metrics.functionalProbeRecoveries } }

/-- What a protocol rejection and a quarantine both begin with. -/
def revoked (state : RuntimeState) : RuntimeState :=
  { state with
    metrics := { state.metrics with
      quarantines :=
        if state.body.quarantined then state.metrics.quarantines
        else saturatingSucc state.metrics.quarantines }
    body := { state.body with quarantined := true }
    activeLease := none
    authorityTransaction := state.authorityTransaction.abort.2
    rollbackConfirmed := false }

/-- The runtime after a protocol rejection. -/
def rejected (state : RuntimeState) : RuntimeState := state.revoked.withDamage 1

/-- The damage that `run` computes after its loop: whether the counters disagree. -/
def assessed (state : RuntimeState) : RuntimeState :=
  let metrics := state.metrics
  let damaged := metrics.childActions != metrics.allowedCommits ||
    metrics.verifiedWorkAcks != metrics.allowedCommits || metrics.rollbackAcks != metrics.rollbacks
  state.withDamage (if damaged then 1 else 0)

end RuntimeState

namespace Runtime

def principalId : UInt64 := 7
def resourceId : UInt64 := 11
def actionId : UInt64 := 13
def defaultLeaseNs : UInt64 := 50000000

/-! ## Access -/

def self : Operation RuntimeState := do
  return (← get).runtime.toRuntimeState

def update (change : RuntimeState → RuntimeState) : Operation Unit :=
  modify fun world =>
    { world with runtime :=
      { world.runtime with toRuntimeState := change world.runtime.toRuntimeState } }

def monotonicNs : Operation UInt64 := do
  return (← get).surroundings.nowNs

/-- The ledger writes one entry. -/
def callLedger (operation : LedgerOperation) : Operation Unit := do
  modify fun world => { world with effects := world.effects ++
    [.recorded operation world.runtime.body world.runtime.activeLease] }
  onPart (fun world => world.runtime.ledger)
    (fun world ledger => { world with runtime := { world.runtime with ledger := ledger } }) id
    (Ledger.perform operation)

def record (event detail : String) (decision : Decision) (body : BodyState)
    (lease : Option SafetyLease) : Operation Unit :=
  callLedger (.record event detail decision body lease)

/-- An action on the child; its result is returned as a value. -/
def onChild (child : ChildProcess) (action : Connection.Action Unit) :
    Operation (Except IoError Unit) :=
  onPart (fun world => ⟨child, world.effects⟩)
    (fun world (connection : Connection) => { world with
      runtime := { world.runtime with child := some connection.child }
      effects := connection.effects }) id (attempt action)

/-- The result of a bound transaction with the child. -/
def transact (unavailable command : String) (expected : BoundExpectedAck) :
    Operation (Except IoError Unit) := do
  let child ← orThrow (← get).runtime.child (.ofMessage unavailable)
  onChild child
    (Connection.transactBound ((← get).surroundings.exchange command) command expected)

def nextTransactionNonce : Operation UInt64 := do
  let nonce ← liftResult (checkedCounterIncrement (← self).transactionNonce "transaction nonce")
  update fun state => state.withNonce nonce
  return nonce

/-! ## Operations -/

def installLease : Operation Unit := do
  let validUntilNs ← liftResult ((← self).leaseDeadline (← monotonicNs))
  update fun state => state.withLease (state.leaseUntil validUntilNs)
  let state ← self
  record "LEASE_INSTALLED" "PolicyIr lease duration applied with checked monotonic addition"
    .allow state.body state.activeLease

def recordProtocolRejection (reason : String) : Operation Unit := do
  update RuntimeState.rejected
  record "PROTOCOL_ACK_REJECTED" reason .blockQuarantine (← self).body none

/-- A rejected acknowledgement is recorded and then reported. -/
def orReject (ackResult : Except IoError Unit) : Operation Unit :=
  match ackResult with
  | .ok () => pure ()
  | .error error => do
      recordProtocolRejection error.message
      throw error

def quarantine (reason : String) : Operation Unit := do
  update RuntimeState.revoked
  let rollbacks ← orThrow (checkedSucc (← self).metrics.rollbacks)
    (.ofMessage "rollback identifier overflow")
  update fun state => state.withRollbacks rollbacks
  record "QUARANTINE" reason .blockQuarantine (← self).body none
  let id := (← self).metrics.rollbacks
  let nonce ← nextTransactionNonce
  let authority := (← self).authoritySnapshot
  let ackResult ← transact "child unavailable during rollback"
    (boundRollbackRequest id nonce authority) (.rollback id nonce authority)
  match ackResult with
  | .ok () => do
      update RuntimeState.confirmRollback
      record "ROLLBACK_ACK_ACCEPTED" "strict version/id/nonce/checksum validation passed"
        .blockQuarantine (← self).body none
  | .error error => do
      update fun state => state.withDamage 1
      record "ROLLBACK_ACK_REJECTED" error.message .blockQuarantine (← self).body none
      throw error

def begin : Operation Unit := do
  let state ← self
  match state.authorityTransaction.begin state.activeLease with
  | (.error .alreadyPending, _) => throw (.ofMessage "BEGIN rejected: AlreadyPending")
  | (.ok (), transaction) => do
      update fun state => state.withTransaction transaction
      record "BEGIN_ACTION" "permit snapshot captured" .allow state.body state.activeLease

def ackDetail (id nonce actions digest : UInt64) : String :=
  "WORK id=" ++ decimal id ++ " nonce=" ++ decimal nonce ++ " actions=" ++ decimal actions ++
    " digest=" ++ hex16 digest

/-- The allowed branch of `commit`. -/
def commitAllowed (decision : Decision) : Operation Unit := do
  let state ← self
  let id ← liftResult (checkedCounterIncrement state.actionCounter "action identifier")
  let actions ← orThrow (checkedSucc state.metrics.childActions)
    (.ofMessage "child action counter overflow")
  let units ← orThrow state.reflex.workUnits
    (.ofMessage "runtime commit has no bounded WORK instruction")
  let nonce ← nextTransactionNonce
  let digest := workDigest id units
  let authority := (← self).authoritySnapshot
  let ackResult ← transact "child unavailable during commit"
    (boundWorkRequest id nonce units authority) (.work id nonce actions digest authority)
  orReject ackResult
  let allowedCommits ← orThrow (checkedSucc (← self).metrics.allowedCommits)
    (.ofMessage "allowed commit counter overflow")
  update fun state => state.countAllowed id actions allowedCommits
  let after ← self
  record "CHILD_ACK_ACCEPTED" (ackDetail id nonce actions digest) .allow after.body
    after.activeLease
  record "COMMIT" "child action dispatched and strict ACK validated" decision after.body
    after.activeLease

/-- The blocked branch of `commit`. -/
def commitBlocked (decision : Decision) : Operation Unit := do
  update RuntimeState.countBlocked
  let state ← self
  record "COMMIT_BLOCKED" decision.asStr decision state.body state.activeLease

def commitRequest (nowNs : UInt64) : CommitRequest := ⟨nowNs, principalId, resourceId, actionId⟩

def commit : Operation Unit := do
  let state ← self
  let request := commitRequest (← monotonicNs)
  let (decision, transaction) :=
    state.authorityTransaction.commit state.body state.activeLease request
  update fun state => state.withTransaction transaction
  if decision = .allow then commitAllowed decision else commitBlocked decision

def reset : Operation Unit := do
  let epoch ← orThrow (checkedSucc (← self).body.epoch) (.ofMessage "body epoch overflow")
  update fun state => state.withEpoch epoch
  let generation ← orThrow (checkedSucc (← self).body.generation)
    (.ofMessage "body generation overflow")
  update fun state => state.withGeneration generation
  quarantine "epoch reset invalidated authority"

def probeDetail : String :=
  "local child-process freshness/liveness challenge; not cryptographic or hardware attestation"

/-- The probe of a body whose rollback was confirmed. -/
def probeConfirmed : Operation Unit := do
  let certificate ← orThrow (checkedSucc (← self).body.certificate)
    (.ofMessage "probe certificate overflow")
  let generation ← orThrow (checkedSucc (← self).body.generation)
    (.ofMessage "probe generation overflow")
  let id := certificate
  let nonce ← nextTransactionNonce
  let authority := (← self).authoritySnapshot
  record "FUNCTIONAL_FRESHNESS_PROBE_REQUEST" probeDetail .blockQuarantine (← self).body none
  let ackResult ← transact "child unavailable during functional probe"
    (boundProbeRequest id nonce authority) (.probe id nonce authority)
  orReject ackResult
  let validUntilNs ← liftResult ((← self).leaseDeadline (← monotonicNs))
  update fun state => state.refreshed certificate generation
  update fun state => state.reauthorized validUntilNs
  let after ← self
  record "LEASE_INSTALLED" "PolicyIr lease duration applied after functional challenge" .allow
    after.body after.activeLease
  record "FUNCTIONAL_FRESHNESS_PROBE_ACCEPTED"
    "functional child-process liveness/freshness only; no identity or hardware attestation" .allow
    after.body after.activeLease

def functionalFreshnessProbe : Operation Unit := do
  update RuntimeState.countProbe
  let state ← self
  if state.body.quarantined = false ∨ state.rollbackConfirmed = false then
    record "FUNCTIONAL_FRESHNESS_PROBE_REJECTED" "rollback ACK not confirmed; no reauthorization"
      .blockQuarantine state.body none
  else
    probeConfirmed

/-! ## The loop -/

/-- The result of stopping the child, which `run` takes out of the runtime. -/
def stopChild (id nonce : UInt64) (authority : AuthoritySnapshot) :
    Operation (Except IoError Unit) := do
  let child ← orThrow (← get).runtime.child (.ofMessage "child unavailable during STOP")
  let surroundings := (← get).surroundings
  let command := boundStopRequest id nonce authority
  let stopResult ← onChild child (Connection.stopBound (surroundings.exchange command)
    (surroundings.exit command) id nonce authority)
  modify fun world => { world with runtime := { world.runtime with child := none } }
  return stopResult

/-- What `run` does after its loop. -/
def conclude : Operation Metrics := do
  let stopId := (← self).actionCounter
  let stopNonce ← nextTransactionNonce
  let stopAuthority := (← self).authoritySnapshot
  let stopResult ← stopChild stopId stopNonce stopAuthority
  orReject stopResult
  update RuntimeState.assessed
  let state ← self
  record "FINAL" "runtime complete with strict versioned child protocol"
    (if state.metrics.damage = 0 then .allow else .blockAction) state.body state.activeLease
  callLedger (.seal state.body state.activeLease)
  return state.metrics

/-- One turn of the loop; a turn that ends the run returns the metrics. -/
def turn : Signal → Operation (Option Metrics)
  | .event .begin => do
      begin
      return none
  | .event .commit => do
      commit
      return none
  | .event .reset => do
      reset
      return none
  | .event .functionalFreshnessProbe => do
      functionalFreshnessProbe
      return none
  | .timeout => do
      quarantine "safety lease expired during silence"
      return none
  | .event .stop | .disconnected => do
      let metrics ← conclude
      return some metrics

end Runtime

end Oasi
