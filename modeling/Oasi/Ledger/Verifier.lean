import Oasi.Foundation.Checked
import Oasi.Foundation.Lines
import Oasi.Ledger.Entry
import Oasi.Ledger.Json

/-! # The ledger verifier

Each line of a ledger is parsed into an entry and checked against its own
canonical encoding and against the running sequence number, hash and seal state.
A line that cannot be parsed ends the scan; every other defect is reported and
the scan goes on. A ledger passes when nothing was reported.
-/

namespace Oasi

def expectedFields : List String :=
  ["schema", "kind", "seq", "event", "detail", "decision", "body_uid", "epoch", "generation",
    "certificate", "quarantined", "lease_present", "lease_body_uid", "lease_epoch",
    "lease_generation", "lease_certificate", "lease_valid_until_ns", "lease_principal_id",
    "lease_resource_id", "lease_action_id", "sealed_event_count", "sealed_event_hash",
    "prev_hash", "hash"]

/-- Why a line is not an entry, one constructor for each message. -/
inductive ParseError where
  /-- The message of the JSON parser. -/
  | json (error : JsonError)
  /-- `field set mismatch; missing={missing:?}, extra={extra:?}` -/
  | fieldSetMismatch (missing extra : List String)
  /-- `wrong ledger schema` -/
  | wrongSchema
  /-- `invalid kind {other:?}` -/
  | invalidKind (other : String)
  /-- `decision is not u8` -/
  | decisionNotU8
  /-- `decision {decision} is outside 0..=10` -/
  | decisionOutside (decision : UInt8)
  /-- `lease_present=true requires all eight lease fields` -/
  | leaseFieldsRequired
  /-- `lease_present=false requires all eight lease fields to be null` -/
  | leaseFieldsForbidden
  /-- `event entries require null seal fields` -/
  | eventSealFields
  /-- `seal entries require non-null seal fields` -/
  | sealSealFields
  /-- `missing field {name:?}` -/
  | missingField (name : String)
  /-- `field {name:?} is not a string` -/
  | notString (name : String)
  /-- `field {name:?} is not u64` -/
  | notU64 (name : String)
  /-- `field {name:?} is not bool` -/
  | notBool (name : String)
  /-- `field {name:?} is neither null nor u64` -/
  | notNullOrU64 (name : String)
  /-- `field {name:?} is not exactly 16 lowercase hexadecimal digits` -/
  | notHashText (name : String)
  /-- `field {name:?} is not a u64 hash` -/
  | notU64Hash (name : String)
  /-- `field {name:?} is neither null nor a hash string` -/
  | notNullOrHash (name : String)
  deriving DecidableEq, Repr

/-! ## Field access -/

section Fields

open FlatJsonParser (JsonMembers)

def getValue (values : JsonMembers) (name : String) : Except ParseError JsonValue :=
  match values.lookup name with
  | some value => .ok value
  | none => .error (.missingField name)

def requireString (values : JsonMembers) (name : String) : Except ParseError String := do
  match ← getValue values name with
  | .string value => .ok value
  | _ => .error (.notString name)

def requireU64 (values : JsonMembers) (name : String) : Except ParseError UInt64 := do
  match ← getValue values name with
  | .number value => .ok value
  | _ => .error (.notU64 name)

def requireBool (values : JsonMembers) (name : String) : Except ParseError Bool := do
  match ← getValue values name with
  | .bool value => .ok value
  | _ => .error (.notBool name)

def requireOptionalU64 (values : JsonMembers) (name : String) :
    Except ParseError (Option UInt64) := do
  match ← getValue values name with
  | .null => .ok none
  | .number value => .ok (some value)
  | _ => .error (.notNullOrU64 name)

def parseHashText (value name : String) : Except ParseError UInt64 :=
  if value.utf8ByteSize ≠ hashHexLen ∨ (utf8 value).all isLowerHex = false then
    .error (.notHashText name)
  else if lowerHexNumber (utf8 value) < UInt64.size then
    .ok (UInt64.ofNat (lowerHexNumber (utf8 value)))
  else .error (.notU64Hash name)

def requireHash (values : JsonMembers) (name : String) : Except ParseError UInt64 := do
  parseHashText (← requireString values name) name

def requireOptionalHash (values : JsonMembers) (name : String) :
    Except ParseError (Option UInt64) := do
  match ← getValue values name with
  | .null => .ok none
  | .string value => (parseHashText value name).map some
  | _ => .error (.notNullOrHash name)

end Fields

/-! ## Entries -/

def parseKind (text : String) : Except ParseError EntryKind :=
  if text = "event" then .ok .event
  else if text = "seal" then .ok .seal
  else .error (.invalidKind text)

def parseDecision (value : UInt64) : Except ParseError UInt8 :=
  if value.toNat ≥ UInt8.size then .error .decisionNotU8
  else if value.toUInt8 > Decision.blockNoLease.toU8 then .error (.decisionOutside value.toUInt8)
  else .ok value.toUInt8

/-- The eight lease values are all present or all absent. -/
def checkLease (leasePresent : Bool) (leaseValues : List (Option UInt64)) :
    Except ParseError Unit :=
  if leasePresent = true ∧ leaseValues.any Option.isNone = true then .error .leaseFieldsRequired
  else if leasePresent = false ∧ leaseValues.any Option.isSome = true then
    .error .leaseFieldsForbidden
  else .ok ()

/-- The two seal values belong to seals. -/
def checkSealFields (kind : EntryKind) (sealedEventCount sealedEventHash : Option UInt64) :
    Except ParseError Unit :=
  match kind with
  | .event =>
      if sealedEventCount.isSome ∨ sealedEventHash.isSome then .error .eventSealFields else .ok ()
  | .seal =>
      if sealedEventCount.isNone ∨ sealedEventHash.isNone then .error .sealSealFields else .ok ()

/-- Keys in one list and not in the other, sorted. -/
def fieldDifference (left right : List String) : List String :=
  (left.filter (· ∉ right)).mergeSort (fun first second => decide (first ≤ second))

def parseEntry (line : String) : Except ParseError LedgerEntry := do
  let values ← (FlatJsonParser.new line).parseObject.mapError .json
  let actualKeys := values.map Prod.fst
  let missing := fieldDifference expectedFields actualKeys
  let extra := fieldDifference actualKeys expectedFields
  failIf (missing ≠ [] ∨ extra ≠ []) (.fieldSetMismatch missing extra)
  let schema ← requireString values "schema"
  failIf (schema ≠ ledgerSchema) .wrongSchema
  let kind ← parseKind (← requireString values "kind")
  let decision ← parseDecision (← requireU64 values "decision")
  let leasePresent ← requireBool values "lease_present"
  let leaseBodyUid ← requireOptionalU64 values "lease_body_uid"
  let leaseEpoch ← requireOptionalU64 values "lease_epoch"
  let leaseGeneration ← requireOptionalU64 values "lease_generation"
  let leaseCertificate ← requireOptionalU64 values "lease_certificate"
  let leaseValidUntilNs ← requireOptionalU64 values "lease_valid_until_ns"
  let leasePrincipalId ← requireOptionalU64 values "lease_principal_id"
  let leaseResourceId ← requireOptionalU64 values "lease_resource_id"
  let leaseActionId ← requireOptionalU64 values "lease_action_id"
  checkLease leasePresent [leaseBodyUid, leaseEpoch, leaseGeneration, leaseCertificate,
    leaseValidUntilNs, leasePrincipalId, leaseResourceId, leaseActionId]
  let sealedEventCount ← requireOptionalU64 values "sealed_event_count"
  let sealedEventHash ← requireOptionalHash values "sealed_event_hash"
  checkSealFields kind sealedEventCount sealedEventHash
  return {
    kind := kind
    seq := ← requireU64 values "seq"
    event := ← requireString values "event"
    detail := ← requireString values "detail"
    decision := decision
    bodyUid := ← requireU64 values "body_uid"
    epoch := ← requireU64 values "epoch"
    generation := ← requireU64 values "generation"
    certificate := ← requireU64 values "certificate"
    quarantined := ← requireBool values "quarantined"
    leasePresent := leasePresent
    leaseBodyUid := leaseBodyUid
    leaseEpoch := leaseEpoch
    leaseGeneration := leaseGeneration
    leaseCertificate := leaseCertificate
    leaseValidUntilNs := leaseValidUntilNs
    leasePrincipalId := leasePrincipalId
    leaseResourceId := leaseResourceId
    leaseActionId := leaseActionId
    sealedEventCount := sealedEventCount
    sealedEventHash := sealedEventHash
    prevHash := ← requireHash values "prev_hash"
    hash := ← requireHash values "hash" }

/-! ## The scan -/

/-- Defects of a ledger, one constructor for each message. All but the last two
are prefixed with `line {line}: `. -/
inductive LedgerIssue where
  /-- `exceeds 131072 bytes` -/
  | lineTooLong (line : UInt64)
  /-- `missing terminal LF` -/
  | missingLf (line : UInt64)
  /-- `blank lines are forbidden` -/
  | blankLine (line : UInt64)
  /-- `invalid UTF-8: {error}` -/
  | invalidUtf8 (line : UInt64)
  /-- The message of `parse_entry`. -/
  | invalidEntry (line : UInt64) (error : ParseError)
  /-- `non-canonical JSON encoding` -/
  | nonCanonical (line : UInt64)
  /-- `seq {seq} != expected {entries}` -/
  | seqMismatch (line seq expected : UInt64)
  /-- `prev_hash {prev_hash:016x} != previous hash {previous_hash:016x}` -/
  | prevHashMismatch (line prevHash previousHash : UInt64)
  /-- `hash {hash:016x} != expected {expected:016x}` -/
  | hashMismatch (line hash expected : UInt64)
  /-- `canonicalization: {error}` -/
  | canonicalization (line : UInt64) (error : EntryError)
  /-- `event appears after seal` -/
  | eventAfterSeal (line : UInt64)
  /-- `duplicate seal` -/
  | duplicateSeal (line : UInt64)
  /-- `invalid seal marker` -/
  | invalidSealMarker (line : UInt64)
  /-- `seal decision is not ALLOW` -/
  | sealDecision (line : UInt64)
  /-- `sealed_event_count is not {event_entries}` -/
  | sealedEventCount (line eventEntries : UInt64)
  /-- `sealed_event_hash does not equal prev_hash` -/
  | sealedEventHash (line : UInt64)
  /-- `ledger is empty` -/
  | ledgerEmpty
  /-- `terminal seal is missing` -/
  | sealMissing
  deriving DecidableEq, Repr

structure VerificationReport where
  entries : UInt64
  eventEntries : UInt64
  finalHash : UInt64
  errors : List LedgerIssue
  deriving DecidableEq, Repr

def VerificationReport.passed (report : VerificationReport) : Bool :=
  report.errors.isEmpty && 0 < report.entries

/-- The local variables of the scan. -/
structure Verifier where
  errors : List LedgerIssue
  entries : UInt64
  eventEntries : UInt64
  previousHash : UInt64
  sealSeen : Bool
  lineNumber : UInt64
  deriving DecidableEq, Repr

/-- How one turn of the loop ends. -/
inductive ScanStep where
  | next (verifier : Verifier)
  | stop (verifier : Verifier)

/-- `u8::is_ascii_whitespace`. -/
def isAsciiWhitespace (byte : UInt8) : Bool :=
  byte == 32 || byte == 9 || byte == 10 || byte == 12 || byte == 13

namespace Verifier

def initial : Verifier where
  errors := []
  entries := 0
  eventEntries := 0
  previousHash := 0
  sealSeen := false
  lineNumber := 0

def push (verifier : Verifier) (issue : LedgerIssue) : Verifier :=
  { verifier with errors := verifier.errors ++ [issue] }

def pushIf (verifier : Verifier) (condition : Bool) (issue : LedgerIssue) : Verifier :=
  if condition then verifier.push issue else verifier

/-- The hash check, which also reports an entry that has no canonical bytes. -/
def checkHash (verifier : Verifier) (entry : LedgerEntry) : Verifier :=
  match entry.expectedHash with
  | .ok expected =>
      verifier.pushIf (entry.hash != expected)
        (.hashMismatch verifier.lineNumber entry.hash expected)
  | .error error => verifier.push (.canonicalization verifier.lineNumber error)

def checkKind (verifier : Verifier) (entry : LedgerEntry) : Verifier :=
  let line := verifier.lineNumber
  match entry.kind with
  | .event =>
      { verifier with eventEntries := saturatingSucc verifier.eventEntries }.pushIf
        verifier.sealSeen (.eventAfterSeal line)
  | .seal =>
      let verifier := verifier.pushIf verifier.sealSeen (.duplicateSeal line)
      let verifier := { verifier with sealSeen := true }
      let verifier := verifier.pushIf
        (entry.event != "LEDGER_SEAL" || entry.detail != "terminal seal") (.invalidSealMarker line)
      let verifier := verifier.pushIf (entry.decision != Decision.allow.toU8) (.sealDecision line)
      let verifier := verifier.pushIf (entry.sealedEventCount != some verifier.eventEntries)
        (.sealedEventCount line verifier.eventEntries)
      verifier.pushIf (entry.sealedEventHash != some entry.prevHash) (.sealedEventHash line)

/-- The line `write_json` would write for an entry, without its final LF. -/
def canonicalLine (entry : LedgerEntry) : Bytes :=
  if entry.writeJson.getLast? = some lf then entry.writeJson.dropLast else entry.writeJson

/-- The encoding and the place of an entry in the sequence. -/
def checkSequence (verifier : Verifier) (bytes : Bytes) (entry : LedgerEntry) : Verifier :=
  let line := verifier.lineNumber
  let verifier := verifier.pushIf (canonicalLine entry != bytes) (.nonCanonical line)
  let verifier := { verifier with entries := saturatingSucc verifier.entries }
  let verifier := verifier.pushIf (entry.seq != verifier.entries)
    (.seqMismatch line entry.seq verifier.entries)
  verifier.pushIf (entry.prevHash != verifier.previousHash)
    (.prevHashMismatch line entry.prevHash verifier.previousHash)

/-- The checks on a parsed entry. -/
def checkEntry (verifier : Verifier) (bytes : Bytes) (entry : LedgerEntry) : Verifier :=
  let verifier := ((verifier.checkSequence bytes entry).checkHash entry).checkKind entry
  { verifier with previousHash := entry.hash }

/-- The part of one turn after the LF was removed. -/
def verifyContent (verifier : Verifier) (bytes : Bytes) : ScanStep :=
  let line := verifier.lineNumber
  if bytes.isEmpty || bytes.all isAsciiWhitespace then .next (verifier.push (.blankLine line))
  else
    match fromUtf8 bytes with
    | none => .stop (verifier.push (.invalidUtf8 line))
    | some text =>
        match parseEntry text with
        | .error error => .stop (verifier.push (.invalidEntry line error))
        | .ok entry => .next (verifier.checkEntry bytes entry)

/-- One turn of the loop, on the bytes up to and including the next LF. -/
def verifyLine (verifier : Verifier) (raw : Bytes) : ScanStep :=
  let verifier := { verifier with lineNumber := saturatingSucc verifier.lineNumber }
  if raw.length > maxLineBytes then .stop (verifier.push (.lineTooLong verifier.lineNumber))
  else if raw.getLast? = some lf then verifier.verifyContent raw.dropLast
  else (verifier.push (.missingLf verifier.lineNumber)).verifyContent raw

/-- The loop, until the stream is exhausted or a line ends the scan. -/
def verifyLoop (verifier : Verifier) (stream : Bytes) : Verifier :=
  if _hstream : stream = [] then verifier
  else
    match verifier.verifyLine (readUntil lf stream).1 with
    | .stop verifier => verifier
    | .next verifier => verifyLoop verifier (readUntil lf stream).2
termination_by stream.length
decreasing_by exact length_readUntil_snd_lt lf _hstream

def report (verifier : Verifier) : VerificationReport :=
  let verifier := verifier.pushIf (verifier.entries == 0) .ledgerEmpty
  let verifier := verifier.pushIf (!verifier.sealSeen) .sealMissing
  { entries := verifier.entries, eventEntries := verifier.eventEntries,
    finalHash := verifier.previousHash, errors := verifier.errors }

end Verifier

/-- The verification of a byte stream that can be read to its end. -/
def verifyReader (stream : Bytes) : VerificationReport :=
  (Verifier.initial.verifyLoop stream).report

end Oasi
