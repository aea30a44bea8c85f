import Oasi.Foundation.Machine
import Oasi.Runtime.Operations

/-! # Runs of the runtime

A run starts with a runtime that `new` returned and takes one turn for each
answer of the schedule's channel, until a turn fails or ends the run. Its history
keeps every turn with the runtime around it and the effects in between.
-/

namespace Oasi

/-- What surrounds the construction of a runtime. -/
structure Startup where
  /-- The result of creating the ledger file. -/
  created : Except IoError Unit
  /-- The result of spawning the child, with its process identifier. -/
  spawned : Except IoError UInt32
  /-- Delivered before the HELLO timeout. -/
  greeting : List ReaderMessage
  disconnected : Bool
  reaping : Reaping
  surroundings : Surroundings

/-- One answer of the schedule's channel, with what surrounds the turn it causes. -/
structure Occurrence where
  signal : Signal
  surroundings : Surroundings

/-- The effects of a turn and its result. -/
structure TurnReport where
  effects : List Effect
  result : Except IoError (Option Metrics)

/-- The turn failed, or it was the last of its run. -/
def TurnReport.ends (report : TurnReport) : Bool :=
  match report.result with
  | .ok none => false
  | _ => true

abbrev Turn := Transition Runtime Occurrence TurnReport

def CompileError.debug : CompileError → String
  | .emptyProgram => "EmptyProgram"
  | .tooManyInstructions => "TooManyInstructions"
  | .workBudgetOutOfRange => "WorkBudgetOutOfRange"
  | .leaseDurationOutOfRange => "LeaseDurationOutOfRange"
  | .missingRollback => "MissingRollback"
  | .identityMismatch => "IdentityMismatch"

namespace Connection

/-- `ChildProcess::spawn_verified` on a child that has been spawned. -/
def expectHello (startup : Startup) (processId : UInt32) : Action Unit := do
  deliver startup.greeting
  let received ← receive startup.disconnected
  acceptHello startup.reaping processId received

end Connection

namespace Runtime

/-- The ledger file's outcomes for the next turn are put in place. -/
def facing (runtime : Runtime) (outcomes : List IoOutcome) : Runtime :=
  { runtime with ledger := runtime.ledger.facing outcomes }

/-! ## Construction -/

def policy : PolicyIr where
  policyId := 1
  principalId := principalId
  resourceId := resourceId
  actionId := actionId
  goal := .executeChildWork 5000
  maxUnits := 100000
  leaseNs := defaultLeaseNs
  rollbackRequired := true

/-- The fields of a runtime before its first lease is installed. -/
def initialState (reflex : ReflexProgram) : RuntimeState where
  body := {
    bodyUid := 0x0A51A
    epoch := 1
    generation := 1
    certificate := 100
    quarantined := false }
  activeLease := none
  authorityTransaction := .new
  reflex := reflex
  metrics := .zero
  actionCounter := 0
  transactionNonce := 0
  rollbackConfirmed := false

def spawnedChild (processId : UInt32) : ChildProcess where
  processId := processId
  inputOpen := true
  responses := []
  readerAttached := true
  reaped := false

/-- The runtime that `new` installs the first lease in. -/
def initialWorld (startup : Startup) (reflex : ReflexProgram)
    (connection : Connection) : World where
  runtime := facing {
    toRuntimeState := initialState reflex
    ledger := .create
    child := some connection.child } startup.surroundings.ledgerOutcomes
  surroundings := startup.surroundings
  effects := connection.effects

/-- `new` from the spawned child on. -/
def launch (startup : Startup) (reflex : ReflexProgram) (processId : UInt32) :
    Except IoError (Runtime × List Effect) :=
  match Connection.expectHello startup processId ⟨spawnedChild processId, []⟩ with
  | .error error _ => .error error
  | .ok _ connection =>
      match installLease (initialWorld startup reflex connection) with
      | .error error _ => .error error
      | .ok _ world => .ok (world.runtime, world.effects)

/-- A new runtime, with the effects of its construction. -/
def new (startup : Startup) : Except IoError (Runtime × List Effect) := do
  let reflex ← (compilePolicy policy).mapError fun error =>
    .ofMessage ("policy compilation failed: " ++ error.debug)
  startup.created
  let processId ← startup.spawned
  launch startup reflex processId

/-! ## Histories -/

def runtimeMachine : Machine Runtime Occurrence TurnReport where
  step runtime occurrence :=
    let surroundings := occurrence.surroundings
    match turn occurrence.signal
      ⟨runtime.facing surroundings.ledgerOutcomes, surroundings, []⟩ with
    | .ok result world => (⟨world.effects, .ok result⟩, world.runtime)
    | .error error world => (⟨world.effects, .error error⟩, world.runtime)

/-- The turns of `run` on this runtime. -/
def history (runtime : Runtime) (occurrences : List Occurrence) : List Turn :=
  runtimeMachine.session TurnReport.ends runtime occurrences

/-- The result of `run`, once it has one. -/
def run (runtime : Runtime) (occurrences : List Occurrence) : Option (Except IoError Metrics) :=
  (runtime.history occurrences).getLast?.bind fun event =>
    match event.output.result with
    | .ok none => none
    | .ok (some metrics) => some (.ok metrics)
    | .error error => some (.error error)

end Runtime

end Oasi
