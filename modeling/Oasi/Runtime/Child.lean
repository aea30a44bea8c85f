import Oasi.Ledger.Writer
import Oasi.Protocol.Frames

/-! # The child process as its parent sees it

A reader thread hands the child's output to a queue, one message per line. A
transaction writes one request and takes the next message of the queue as its
answer. Which messages arrive, and when, and what the operating system answers
is chosen by the environment; every effect is logged in the order it happens.
-/

namespace Oasi

inductive ReaderMessage where
  | line (text : String)
  | eof
  | error (kind : IoErrorKind) (message : String)
  deriving DecidableEq, Repr

/-- What the runtime does to its surroundings and what they do to it. A recorded
entry stands with the body and the lease the runtime has at that moment. -/
inductive Effect where
  /-- The reader thread puts a message into the queue. -/
  | delivered (message : ReaderMessage)
  /-- A request is written to the child. -/
  | sent (command : String)
  /-- The line passed the validation of the HELLO. -/
  | greeted (line : String)
  /-- The line passed the validation of an acknowledgement. -/
  | accepted (line : String)
  /-- The ledger is called. -/
  | recorded (operation : LedgerOperation) (body : BodyState) (lease : Option SafetyLease)

def deliveries (messages : List ReaderMessage) : List Effect := messages.map .delivered

structure ChildProcess where
  processId : UInt32
  inputOpen : Bool
  responses : List ReaderMessage
  readerAttached : Bool
  reaped : Bool
  deriving DecidableEq, Repr

/-- What the operating system answers while a child is terminated. -/
structure Reaping where
  /-- `try_wait`, and whether the child has exited. -/
  tryWait : Except IoError Bool
  kill : Except IoError Unit
  wait : Except IoError Unit
  readerPanicked : Bool

/-- What surrounds one request. -/
structure Exchange where
  /-- Delivered before the request is written. -/
  early : List ReaderMessage
  /-- The result of writing and flushing the request. -/
  written : Except IoError Unit
  /-- Delivered after that and before the response timeout. -/
  late : List ReaderMessage
  /-- Whether the reader thread is gone when the queue is empty. -/
  disconnected : Bool
  reaping : Reaping

structure ExitStatus where
  success : Bool
  text : String

/-- What surrounds the exit of a stopped child. -/
structure ExitWait where
  /-- The results of `try_wait` until the deadline. -/
  polls : List (Except IoError (Option ExitStatus))
  readerPanicked : Bool
  /-- Delivered until the reader thread ends. -/
  remaining : List ReaderMessage
  reaping : Reaping

/-- A child with the log of effects. -/
structure Connection where
  child : ChildProcess
  effects : List Effect

namespace Connection

abbrev Action (α : Type) := EStateM IoError Connection α

def emit (effect : Effect) : Action Unit :=
  modify fun connection => { connection with effects := connection.effects ++ [effect] }

def onChild (change : ChildProcess → ChildProcess) : Action Unit :=
  modify fun connection => { connection with child := change connection.child }

/-- The reader thread hands over some messages. -/
def deliver (messages : List ReaderMessage) : Action Unit :=
  modify fun connection => {
    child := { connection.child with responses := connection.child.responses ++ messages }
    effects := connection.effects ++ deliveries messages }

/-! ## Termination -/

/-- `kill` on a child that has already exited is no error. -/
def killResult (kill : Except IoError Unit) : Except IoError Unit :=
  match kill with
  | .ok () => .ok ()
  | .error error => if error.kind = .invalidInput then .ok () else .error error

def reap (reaping : Reaping) : Action Unit := do
  let exited ← liftResult reaping.tryWait
  -- it may exit by itself between the two calls
  if exited = false then
    liftResult (killResult reaping.kill)
    liftResult reaping.wait
  onChild fun child => { child with reaped := true }

def joinReader (readerPanicked : Bool) : Action Unit := do
  if (← get).child.readerAttached then
    onChild fun child => { child with readerAttached := false }
    liftResult (failIf (readerPanicked = true) (.ofMessage "child stdout reader panicked"))

def terminateAndReap (reaping : Reaping) : Action Unit := do
  onChild fun child => { child with inputOpen := false }
  if (← get).child.reaped = false then
    reap reaping
  joinReader reaping.readerPanicked

/-- The child is terminated and the failure reported. -/
def cleanupError (reaping : Reaping) (kind : IoErrorKind) (message : String) : Action Unit := do
  match ← attempt (terminateAndReap reaping) with
  | .ok () => throw ⟨kind, message⟩
  | .error (cleanup : IoError) =>
      throw ⟨kind, message ++ "; child cleanup also failed: " ++ cleanup.message⟩

/-! ## Requests -/

/-- The result of `recv_timeout`. -/
inductive Received where
  | message (message : ReaderMessage)
  | timeout
  | disconnected

def receive (disconnected : Bool) : Action Received := do
  match (← get).child.responses with
  | message :: rest => do
      onChild fun child => { child with responses := rest }
      return .message message
  | [] => return if disconnected then .disconnected else .timeout

def writeCommand (written : Except IoError Unit) (command : String) :
    Action (Except IoError Unit) := do
  if (← get).child.inputOpen then
    emit (.sent command)
    return written
  else
    return .error ⟨.brokenPipe, "child stdin is closed"⟩

/-- What a transaction makes of the message it takes from the queue. -/
def acceptBound (reaping : Reaping) (expected : BoundExpectedAck) : Received → Action Unit
  | .message (.line line) =>
      match validateBoundAck line expected with
      | .ok () => emit (.accepted line)
      | .error error =>
          cleanupError reaping .invalidData ("child bound ACK rejected: " ++ error.detail)
  | .message .eof => cleanupError reaping .unexpectedEof "child closed stdout before bound ACK"
  | .message (.error kind message) =>
      cleanupError reaping kind ("child stdout failed: " ++ message)
  | .timeout => cleanupError reaping .timedOut "child bound ACK timeout"
  | .disconnected => cleanupError reaping .brokenPipe "child stdout reader disconnected"

def transactBound (exchange : Exchange) (command : String) (expected : BoundExpectedAck) :
    Action Unit := do
  deliver exchange.early
  match ← writeCommand exchange.written command with
  | .error error =>
      cleanupError exchange.reaping error.kind ("child write failed: " ++ error.message)
  | .ok () => do
      deliver exchange.late
      let received ← receive exchange.disconnected
      acceptBound exchange.reaping expected received

/-! ## The beginning and the end -/

/-- What `expect_hello` makes of the first message. -/
def acceptHello (reaping : Reaping) (processId : UInt32) : Received → Action Unit
  | .message (.line line) =>
      match validateHello line processId.toUInt64 with
      | .ok () => emit (.greeted line)
      | .error error => cleanupError reaping .invalidData ("child HELLO rejected: " ++ error.detail)
  | .message .eof => cleanupError reaping .unexpectedEof "child closed stdout before HELLO"
  | .message (.error kind message) => cleanupError reaping kind ("child HELLO failed: " ++ message)
  | .timeout => cleanupError reaping .timedOut "child HELLO timeout"
  | .disconnected =>
      cleanupError reaping .brokenPipe "child stdout reader disconnected before HELLO"

/-- Polls the child until it has exited or the deadline has passed. -/
def awaitExit (reaping : Reaping) : List (Except IoError (Option ExitStatus)) → Action Unit
  | [] => cleanupError reaping .timedOut "child did not exit after STOP ACK"
  | .error error :: _ => throw error
  | .ok none :: polls => awaitExit reaping polls
  | .ok (some status) :: _ => do
      onChild fun child => { child with reaped := true }
      liftResult (failIf (status.success = false)
        (.ofMessage ("child exited with status " ++ status.text)))

/-- The queue of a finished reader: nothing but one end-of-file notification. -/
def drain (observedEof : Bool) : List ReaderMessage → Except IoError Unit
  | [] => failIf (observedEof = false)
      ⟨.unexpectedEof, "child reader ended without EOF notification"⟩
  | .eof :: rest =>
      if observedEof then .error ⟨.invalidData, "duplicate child EOF notification"⟩
      else drain true rest
  | .line line :: _ => .error ⟨.invalidData, "unexpected child output after STOP ACK: " ++ line⟩
  | .error kind message :: _ => .error ⟨kind, message⟩

def waitForCleanExit (exit : ExitWait) : Action Unit := do
  -- the child sees the end of its input
  onChild fun child => { child with inputOpen := false }
  awaitExit exit.reaping exit.polls
  joinReader exit.readerPanicked
  deliver exit.remaining
  -- everything that the reader has sent by the time it ended
  let connection ← get
  onChild fun child => { child with responses := [] }
  liftResult (drain false connection.child.responses)

def stopBound (exchange : Exchange) (exit : ExitWait) (id nonce : UInt64)
    (authority : AuthoritySnapshot) : Action Unit := do
  transactBound exchange (boundStopRequest id nonce authority) (.stop id nonce authority)
  waitForCleanExit exit

end Connection

end Oasi
