import Oasi.Broker.Ledger
import Oasi.Broker.Transport

/-! # One run of the broker

A run prepares the attempt in the ledger, starts the guest, sends it the prepare
frame, consumes the attempt when the guest has answered, sends the execute frame and
records the result when the guest has answered again. Whatever it raises, it closes
what it has opened.
-/

namespace Oasi.Broker

/-- `result`, as far as it depends on the run. -/
structure RunOutcome where
  label : String
  state : String
  recoveryAction : String
  prepareTranscriptSha256 : String
  terminalLogSha256 : String
  peerPidVerified : Bool
  peerCredentialStatus : String
  uartStartupNoiseHex : String
  deriving DecidableEq, Repr

/-- What a run asks of its ledger, its channel and its process. -/
inductive RunAction where
  | ledger (action : Action)
  | channel (action : ChannelAction)
  /-- `ledger.close()` -/
  | closeLedger
  /-- `args.socket.exists()` -/
  | socketExists
  /-- `args.log.exists()` -/
  | logExists
  /-- `args.ledger.parent.mkdir(...)` -/
  | makeLedgerParent
  /-- `args.log.parent.mkdir(...)` -/
  | makeLogParent
  /-- `socket.socket(...)` -/
  | openListener
  | bind
  | listen
  /-- `args.log.open("wb")` -/
  | openLog
  /-- `subprocess.Popen(command, stdout=log_handle, ...)` -/
  | spawn
  | closeLog
  /-- `listener.settimeout(...)`, in milliseconds -/
  | setListenerTimeout (milliseconds : Nat)
  | accept
  /-- `hasattr(socket, "SO_PEERCRED")` -/
  | hasPeerCredentials
  /-- `channel.getsockopt(..., SO_PEERCRED, 12)`: the process and the user -/
  | peerCredentials
  /-- `process.pid` -/
  | processId
  /-- `os.getuid()` -/
  | userId
  /-- `process.poll()` -/
  | poll
  /-- `args.log.read_bytes()` -/
  | readLog
  /-- `time.sleep(...)`, in milliseconds -/
  | sleep (milliseconds : Nat)
  | terminate
  /-- `process.wait(timeout=3)` -/
  | wait
  | kill
  | closeChannel
  | closeListener
  /-- `print(json.dumps(result, sort_keys=True))` -/
  | print (result : RunOutcome)
  deriving DecidableEq, Repr

/-- What these return. `accept` says whether it did so before its timeout, `wait` whether
the process ended, `peerCredentials` is missing where the socket does not support it. -/
abbrev RunResult : RunAction → Type
  | .ledger action => Result action
  | .channel action => ChannelResult action
  | .socketExists | .logExists | .accept | .hasPeerCredentials | .wait => Bool
  | .peerCredentials => Option (Int × Int)
  | .processId | .userId => Int
  | .poll => Option Int
  | .readLog => Bytes
  | _ => Unit

abbrev RunReply (action : RunAction) : Type := Except Raised (RunResult action)

abbrev RunCall := Call RunAction RunResult Raised

namespace Dispatch

def ask (action : RunAction) : RunCall (RunResult action) := Call.execute action

def ledgerCall {Value : Type} (call : LedgerCall Value) : RunCall Value :=
  call.inject .ledger fun _ reply => reply

def channelCall {Value : Type} (call : ChannelCall Value) : RunCall Value :=
  call.inject .channel fun _ reply => reply

def ofExcept {Value : Type} : Except Raised Value → RunCall Value
  | .ok value => pure value
  | .error raised => throw raised

/-! ## Waiting for the guest -/

/-- How often each wait of a run looks before its deadline has passed. -/
structure Patience where
  accepting : Nat
  readying : Nat
  ending : Nat

/-- The loop of `accept_qemu_channel`. -/
def acceptLoop : Nat → RunCall Unit
  | 0 => throw (.protocol "transport accept timeout")
  | rounds + 1 => do
      let code : Option Int ← ask .poll
      match code with
      | some code => throw (.protocol ("qemu exited before transport: " ++ toString code))
      | none => do
          let accepted : Bool ← ask .accept
          if accepted then channelCall (Transport.ask (.setTimeout 20000)) else acceptLoop rounds

def acceptQemuChannel (rounds : Nat) : RunCall Unit := do
  ask (.setListenerTimeout 250)
  acceptLoop rounds

/-- What the log holds so far. -/
def currentLog : RunCall Bytes := do
  let present : Bool ← ask .logExists
  if present then ask .readLog else pure []

/-- Looks at the log until all markers are in it. -/
def waitForMarkers (markers : List Bytes) (before late : String) : Nat → RunCall Bytes
  | 0 => throw (.protocol late)
  | rounds + 1 => do
      let data ← currentLog
      if ∀ marker ∈ markers, marker <:+: data then return data
      else do
        let code : Option Int ← ask .poll
        match code with
        | some code => throw (.protocol (before ++ toString code))
        | none => do
            ask (.sleep 50)
            waitForMarkers markers before late rounds

def required : List Bytes :=
  [utf8 "\"success\":true,\"terminal\":true,\"zero_survivors\":true",
    utf8 "\"commit\":false",
    utf8 "OASI2_BROKER_GUEST_PASS"]

def waitForTerminal (rounds : Nat) : RunCall Bytes :=
  waitForMarkers required "qemu exited before terminal: " "guardian terminal timeout" rounds

def waitForGuestReady (rounds : Nat) : RunCall Unit := do
  let _ ← waitForMarkers [utf8 "OASI2_ED25519_OPENSSL_SELFTEST_PASS"]
    "qemu exited before guest readiness: " "guest readiness timeout" rounds

/-- `process.terminate()`, and `process.kill()` when it does not help. -/
def stopProcess : RunCall Unit := do
  ask .terminate
  let ended : Bool ← ask .wait
  if ended then pure ()
  else do
    ask .kill
    let ended : Bool ← ask .wait
    if ended then pure () else throw .fault

/-- A process that has not ended is stopped. -/
def stopIfRunning : RunCall Unit := do
  let code : Option Int ← ask .poll
  match code with
  | some _ => pure ()
  | none => stopProcess

/-! ## The run -/

/-- Which of the variables of `run_qemu` are not `None`. -/
structure Acquired where
  listener : Bool
  process : Bool
  channel : Bool

def optionally (condition : Bool) (call : RunCall Unit) : RunCall Unit :=
  if condition then call else pure ()

/-- The `finally` block of `run_qemu`. -/
def cleanup (acquired : Acquired) : RunCall Unit := do
  optionally acquired.channel (ask .closeChannel)
  optionally acquired.listener (ask .closeListener)
  optionally acquired.process stopIfRunning
  ask .closeLedger

/-- A part of the `try` block, with the variables that are set in it. -/
def guarded {Value : Type} (acquired : Acquired) (body : RunCall Value) : RunCall Value :=
  tryCatch body fun raised => do
    cleanup acquired
    throw raised

/-- The arguments of a run that its text depends on. -/
structure Arguments where
  label : String
  ledger : String
  socket : String
  log : String

/-- The loop over the paths of `run_qemu`. -/
def refuseReplay (args : Arguments) : RunCall Unit := do
  let ledger : Bool ← ledgerCall (execute .pathExists)
  if ledger then throw (.protocol ("refusing replay: " ++ args.ledger))
  else do
    let socket : Bool ← ask .socketExists
    if socket then throw (.protocol ("refusing replay: " ++ args.socket))
    else do
      let log : Bool ← ask .logExists
      if log then throw (.protocol ("refusing replay: " ++ args.log)) else pure ()

/-- `peer_credential_status` -/
def checkPeer : RunCall String := do
  let supported : Bool ← ask .hasPeerCredentials
  if supported then do
    let credentials : Option (Int × Int) ← ask .peerCredentials
    match credentials with
    | none => return "unsupported_wsl1_eopnotsupp"
    | some (peerPid, peerUid) => do
        let pid : Int ← ask .processId
        if peerPid ≠ pid then throw (.protocol "qemu peer credential mismatch")
        else do
          let uid : Int ← ask .userId
          if peerUid ≠ uid then throw (.protocol "qemu peer credential mismatch")
          else return "verified"
  else return "not_available"

/-- From the listening socket to the running guest. -/
def launch : RunCall Unit := do
  ask .bind
  ask .listen
  ask .openLog
  tryCatch (ask .spawn) fun raised => do
    ask .closeLog
    throw raised

/-- From the accepted channel to the printed result. -/
def converse (crypto : Ed25519) (args : Arguments) (patience : Patience)
    (prepareWire prepareDigest executeWire : Bytes) : RunCall RunOutcome := do
  let peerCredentialStatus ← checkPeer
  waitForGuestReady patience.readying
  let uartStartupNoise ← channelCall Transport.drainUartStartupNoise
  channelCall (Transport.ask (.sendAll prepareWire))
  channelCall (Transport.recvReceipt crypto statusPrepared prepareDigest)
  ledgerCall Ledger.consume
  channelCall (Transport.ask (.sendAll executeWire))
  channelCall (Transport.recvReceipt crypto statusEffectReceipt prepareDigest)
  let _ ← waitForTerminal patience.ending
  stopIfRunning
  let terminalLog : Bytes ← ask .readLog
  let resultDigest := hexdigest (terminalLog ++ prepareDigest)
  ledgerCall (Ledger.recordResult resultDigest)
  ledgerCall Ledger.terminal
  ledgerCall Ledger.verify
  let state ← ledgerCall Ledger.state
  let recoveryAction ← ledgerCall Ledger.recoveryAction
  let result : RunOutcome := {
    label := args.label
    state := state
    recoveryAction := recoveryAction
    prepareTranscriptSha256 := hexOf prepareDigest
    terminalLogSha256 := hexdigest terminalLog
    peerPidVerified := peerCredentialStatus == "verified"
    peerCredentialStatus := peerCredentialStatus
    uartStartupNoiseHex := hexOf uartStartupNoise }
  ask (.print result)
  return result

def runQemu (crypto : Ed25519) (args : Arguments) (patience : Patience) : RunCall RunOutcome := do
  refuseReplay args
  ask .makeLedgerParent
  ask .makeLogParent
  ledgerCall Ledger.construct
  ledgerCall Ledger.prepare
  let (prepareWire, prepareDigest) ← ofExcept (signedFrame crypto kindPrepare preparePayload)
  let (executeWire, _) ← ofExcept (signedFrame crypto kindExecute prepareDigest)
  guarded ⟨false, false, false⟩ (ask .openListener)
  guarded ⟨true, false, false⟩ launch
  guarded ⟨true, true, false⟩ do
    ask .closeLog
    acceptQemuChannel patience.accepting
  let outcome ← guarded ⟨true, true, true⟩
    (converse crypto args patience prepareWire prepareDigest executeWire)
  cleanup ⟨true, true, true⟩
  return outcome

end Dispatch

end Oasi.Broker
