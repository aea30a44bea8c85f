import Oasi.Foundation.Io
import Oasi.Foundation.Machine
import Oasi.Ledger.Entry

/-! # The ledger writer

A ledger owns the buffered file and the counters of its chain. `record` and
`seal` first compute the entry they are about to write, then write and flush it,
and advance the counters last. A call that returns an error at any of these
points keeps whatever it had changed in the buffer and the file.
-/

namespace Oasi

namespace EntryError

def message : EntryError → String
  | .stringTooLong length maximum =>
      "string has " ++ toString length ++ " UTF-8 bytes, maximum is " ++ toString maximum
  | .stringLengthExceedsU32 => "string length exceeds u32"
  | .presentLeaseLacks field => "present lease lacks " ++ field
  | .eventTooLong => "event exceeds 128 UTF-8 bytes"
  | .detailTooLong => "detail exceeds 16384 UTF-8 bytes"

end EntryError

structure Ledger where
  writer : BufWriter
  seq : UInt64
  hash : UInt64
  eventEntries : UInt64
  isSealed : Bool
  deriving DecidableEq, Repr

namespace Ledger

/-- A ledger over a newly created file. -/
def create : Ledger where
  writer := .new
  seq := 0
  hash := 0
  eventEntries := 0
  isSealed := false

def entries (ledger : Ledger) : UInt64 := ledger.seq

def finalHash (ledger : Ledger) : UInt64 := ledger.hash

/-- The bytes the file holds. -/
def file (ledger : Ledger) : Bytes := ledger.writer.file.contents

/-! ## The next entry -/

def alreadySealed : IoError := .ofMessage "ledger is already sealed"
def emptyLedger : IoError := .ofMessage "cannot seal an empty ledger"
def sequenceOverflow : IoError := .ofMessage "ledger sequence overflow"
def eventCountOverflow : IoError := .ofMessage "ledger event count overflow"

/-- `value.ok_or_else(error)`. -/
def okOr (value : Option UInt64) (error : IoError) : Except IoError UInt64 :=
  match value with
  | some value => .ok value
  | none => .error error

def buildEntry (snapshot : LedgerSnapshot) : Except IoError LedgerEntry :=
  (LedgerEntry.fromSnapshot snapshot).mapError fun error => .ofMessage error.message

/-- What `record` computes before it writes: the entry and the next event count. -/
def nextEvent (ledger : Ledger) (event detail : String) (decision : Decision) (body : BodyState)
    (lease : Option SafetyLease) : Except IoError (LedgerEntry × UInt64) := do
  failIf (ledger.isSealed = true) alreadySealed
  let nextSeq ← okOr (checkedSucc ledger.seq) sequenceOverflow
  let nextEventEntries ← okOr (checkedSucc ledger.eventEntries) eventCountOverflow
  let entry ← buildEntry {
    kind := .event
    seq := nextSeq
    event := event
    detail := detail
    decision := decision
    body := body
    lease := lease
    sealedEventCount := none
    sealedEventHash := none
    prevHash := ledger.hash }
  return (entry, nextEventEntries)

/-- What `seal` computes before it writes. -/
def nextSeal (ledger : Ledger) (body : BodyState) (lease : Option SafetyLease) :
    Except IoError LedgerEntry := do
  failIf (ledger.isSealed = true) alreadySealed
  failIf (ledger.eventEntries = 0) emptyLedger
  let nextSeq ← okOr (checkedSucc ledger.seq) sequenceOverflow
  buildEntry {
    kind := .seal
    seq := nextSeq
    event := "LEDGER_SEAL"
    detail := "terminal seal"
    decision := .allow
    body := body
    lease := lease
    sealedEventCount := some ledger.eventEntries
    sealedEventHash := some ledger.hash
    prevHash := ledger.hash }

/-! ## Calls -/

def onWriter (computation : EStateM IoError BufWriter Unit) : EStateM IoError Ledger Unit :=
  onPart Ledger.writer (fun ledger writer => { ledger with writer := writer }) id computation

/-- `entry.write_json(&mut self.writer)`. -/
def writeEntry (entry : LedgerEntry) : EStateM IoError BufWriter Unit :=
  forM (entry.jsonPieces.map utf8) BufWriter.writeAll

def record (event detail : String) (decision : Decision) (body : BodyState)
    (lease : Option SafetyLease) : EStateM IoError Ledger Unit := do
  let (entry, nextEventEntries) ←
    liftResult ((← get).nextEvent event detail decision body lease)
  onWriter (writeEntry entry)
  onWriter BufWriter.flush
  -- a failure above leaves the counters and the hash as they were
  modify fun ledger =>
    { ledger with seq := entry.seq, eventEntries := nextEventEntries, hash := entry.hash }

end Ledger

def Ledger.seal (body : BodyState) (lease : Option SafetyLease) : EStateM IoError Ledger Unit := do
  let entry ← liftResult ((← get).nextSeal body lease)
  Ledger.onWriter (Ledger.writeEntry entry)
  Ledger.onWriter BufWriter.flush
  -- only the seal is synchronized
  Ledger.onWriter BufWriter.settleFile
  modify fun ledger => { ledger with seq := entry.seq, hash := entry.hash, isSealed := true }

/-! ## Runs -/

inductive LedgerOperation where
  | record (event detail : String) (decision : Decision) (body : BodyState)
      (lease : Option SafetyLease)
  | seal (body : BodyState) (lease : Option SafetyLease)

def LedgerOperation.IsRecord (operation : LedgerOperation) : Prop :=
  ∃ event detail decision body lease, operation = .record event detail decision body lease

def LedgerOperation.IsSeal (operation : LedgerOperation) : Prop :=
  ∃ body lease, operation = .seal body lease

/-- One call, with what the file will do with the requests the call makes. -/
structure LedgerCall where
  operation : LedgerOperation
  outcomes : List IoOutcome

namespace Ledger

def perform (operation : LedgerOperation) : EStateM IoError Ledger Unit :=
  match operation with
  | .record event detail decision body lease => record event detail decision body lease
  | .seal body lease => Ledger.seal body lease

/-- The ledger with the file's outcomes for the next call in place. -/
def facing (ledger : Ledger) (outcomes : List IoOutcome) : Ledger :=
  { ledger with writer := { ledger.writer with
      file := { ledger.writer.file with outcomes := outcomes } } }

def ledgerMachine : Machine Ledger LedgerCall (Except IoError Unit) where
  step ledger call :=
    match perform call.operation (ledger.facing call.outcomes) with
    | .ok _ after => (.ok (), after)
    | .error error after => (.error error, after)

/-- The ledger after some calls on a new one. -/
def after (calls : List LedgerCall) : Ledger := ledgerMachine.run create calls

/-- The bytes of the file after these calls and the drop of the ledger. The buffered writer
takes the drop as one more occasion to write what it holds, with outcomes of its own. -/
def dropped (calls : List LedgerCall) (outcomes : List IoOutcome) : Bytes :=
  ((after calls).facing outcomes).writer.drop.contents

/-- The calls on a new ledger with their results. -/
def history (calls : List LedgerCall) : List (Transition Ledger LedgerCall (Except IoError Unit)) :=
  ledgerMachine.trace create calls

end Ledger

end Oasi
