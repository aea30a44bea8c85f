import Oasi.Foundation.Checked
import Oasi.Foundation.Numerals
import Oasi.Model.Authority

/-! # Ledger entries

One entry has two encodings: the canonical bytes that its FNV-1a hash covers,
and the JSON line that is written to the file. Both are total functions of the
fields; only the string bounds and a missing lease value make the first fail.
-/

namespace Oasi

def ledgerSchema : String := "osia-core-r1-r1-ledger-2"

def fnvOffset : UInt64 := 1469598103934665603
def fnvPrime : UInt64 := 1099511628211
def maxEventBytes : Nat := 128
def maxDetailBytes : Nat := 16384
def maxLineBytes : Nat := 131072
def hashHexLen : Nat := 16

def fnv1a (data : Bytes) (seed : UInt64) : UInt64 :=
  data.foldl (fun hash byte => (hash ^^^ byte.toUInt64) * fnvPrime) seed

/-! ## JSON escaping -/

/-- The general category Cc. -/
def isControl (char : Char) : Bool :=
  char.toNat ≤ 0x1f || (0x7f ≤ char.toNat && char.toNat ≤ 0x9f)

/-- The text pushed for one character. -/
def escapeChar (char : Char) : String :=
  if char = '"' then "\\\""
  else if char = '\\' then "\\\\"
  else if char = '\n' then "\\n"
  else if char = '\r' then "\\r"
  else if char = '\t' then "\\t"
  else if char = '\x08' then "\\b"
  else if char = '\x0c' then "\\f"
  else if isControl char then "\\u" ++ paddedHex 4 char.toNat
  else String.singleton char

def escapeJson (value : String) : String :=
  value.toList.foldl (fun out char => out ++ escapeChar char) ""

/-! ## Big-endian encodings -/

/-- The lowest `width` bytes of a number, most significant first. -/
def toBeBytes : Nat → Nat → Bytes
  | 0, _ => []
  | width + 1, value => toBeBytes width (value / 256) ++ [UInt8.ofNat value]

def pushU32 (out : Bytes) (value : UInt32) : Bytes := out ++ toBeBytes 4 value.toNat

def pushU64 (out : Bytes) (value : UInt64) : Bytes := out ++ toBeBytes 8 value.toNat

/-- Failures while an entry is built or encoded. -/
inductive EntryError where
  /-- `string has {length} UTF-8 bytes, maximum is {maximum}` -/
  | stringTooLong (length maximum : Nat)
  /-- `string length exceeds u32` -/
  | stringLengthExceedsU32
  /-- `present lease lacks {field}` -/
  | presentLeaseLacks (field : String)
  /-- `event exceeds 128 UTF-8 bytes` -/
  | eventTooLong
  /-- `detail exceeds 16384 UTF-8 bytes` -/
  | detailTooLong
  deriving DecidableEq, Repr

def pushString (out : Bytes) (value : String) (maximum : Nat) : Except EntryError Bytes :=
  if value.utf8ByteSize > maximum then .error (.stringTooLong value.utf8ByteSize maximum)
  else if value.utf8ByteSize ≥ UInt32.size then .error .stringLengthExceedsU32
  else .ok (pushU32 out (UInt32.ofNat value.utf8ByteSize) ++ utf8 value)

def pushOptionalU64 (out : Bytes) (value : Option UInt64) : Bytes :=
  match value with
  | some value => pushU64 (out ++ [1]) value
  | none => out ++ [0]

/-! ## Entries -/

inductive EntryKind where
  | event
  | seal
  deriving DecidableEq, Repr

def EntryKind.asStr : EntryKind → String
  | .event => "event"
  | .seal => "seal"

def EntryKind.canonicalByte : EntryKind → UInt8
  | .event => 0
  | .seal => 1

structure LedgerEntry where
  kind : EntryKind
  seq : UInt64
  event : String
  detail : String
  decision : UInt8
  bodyUid : UInt64
  epoch : UInt64
  generation : UInt64
  certificate : UInt64
  quarantined : Bool
  leasePresent : Bool
  leaseBodyUid : Option UInt64
  leaseEpoch : Option UInt64
  leaseGeneration : Option UInt64
  leaseCertificate : Option UInt64
  leaseValidUntilNs : Option UInt64
  leasePrincipalId : Option UInt64
  leaseResourceId : Option UInt64
  leaseActionId : Option UInt64
  sealedEventCount : Option UInt64
  sealedEventHash : Option UInt64
  prevHash : UInt64
  hash : UInt64
  deriving DecidableEq, Repr

structure LedgerSnapshot where
  kind : EntryKind
  seq : UInt64
  event : String
  detail : String
  decision : Decision
  body : BodyState
  lease : Option SafetyLease
  sealedEventCount : Option UInt64
  sealedEventHash : Option UInt64
  prevHash : UInt64
  deriving DecidableEq, Repr

/-- `value.ok_or("present lease lacks {field}")` followed by `push_u64`. -/
def pushRequired (out : Bytes) (field : String) (value : Option UInt64) :
    Except EntryError Bytes :=
  match value with
  | some value => .ok (pushU64 out value)
  | none => .error (.presentLeaseLacks field)

namespace LedgerEntry

/-- The eight lease values of an entry that has a lease. -/
def pushLease (out : Bytes) (entry : LedgerEntry) : Except EntryError Bytes := do
  let out ← pushRequired out "lease_body_uid" entry.leaseBodyUid
  let out ← pushRequired out "lease_epoch" entry.leaseEpoch
  let out ← pushRequired out "lease_generation" entry.leaseGeneration
  let out ← pushRequired out "lease_certificate" entry.leaseCertificate
  let out ← pushRequired out "lease_valid_until_ns" entry.leaseValidUntilNs
  let out ← pushRequired out "lease_principal_id" entry.leasePrincipalId
  let out ← pushRequired out "lease_resource_id" entry.leaseResourceId
  pushRequired out "lease_action_id" entry.leaseActionId

def canonicalBytes (entry : LedgerEntry) : Except EntryError Bytes := do
  let out ← pushString [] ledgerSchema (UInt32.size - 1)
  let out := pushU64 (out ++ [entry.kind.canonicalByte]) entry.seq
  let out ← pushString out entry.event maxEventBytes
  let out ← pushString out entry.detail maxDetailBytes
  let out := out ++ [entry.decision]
  let out := pushU64 (pushU64 out entry.bodyUid) entry.epoch
  let out := pushU64 (pushU64 out entry.generation) entry.certificate
  let out := out ++ [entry.quarantined.toUInt8, entry.leasePresent.toUInt8]
  let out ← if entry.leasePresent then entry.pushLease out else .ok out
  let out := pushOptionalU64 out entry.sealedEventCount
  let out := pushOptionalU64 out entry.sealedEventHash
  return pushU64 out entry.prevHash

def expectedHash (entry : LedgerEntry) : Except EntryError UInt64 := do
  return fnv1a (← entry.canonicalBytes) (fnvOffset ^^^ entry.prevHash)

/-- The fields of a snapshot, with the hash still zero. -/
def unhashed (snapshot : LedgerSnapshot) : LedgerEntry where
  kind := snapshot.kind
  seq := snapshot.seq
  event := snapshot.event
  detail := snapshot.detail
  decision := snapshot.decision.toU8
  bodyUid := snapshot.body.bodyUid
  epoch := snapshot.body.epoch
  generation := snapshot.body.generation
  certificate := snapshot.body.certificate
  quarantined := snapshot.body.quarantined
  leasePresent := snapshot.lease.isSome
  leaseBodyUid := snapshot.lease.map (·.bodyUid)
  leaseEpoch := snapshot.lease.map (·.epoch)
  leaseGeneration := snapshot.lease.map (·.generation)
  leaseCertificate := snapshot.lease.map (·.certificate)
  leaseValidUntilNs := snapshot.lease.map (·.validUntilNs)
  leasePrincipalId := snapshot.lease.map (·.principalId)
  leaseResourceId := snapshot.lease.map (·.resourceId)
  leaseActionId := snapshot.lease.map (·.actionId)
  sealedEventCount := snapshot.sealedEventCount
  sealedEventHash := snapshot.sealedEventHash
  prevHash := snapshot.prevHash
  hash := 0

def fromSnapshot (snapshot : LedgerSnapshot) : Except EntryError LedgerEntry := do
  failIf (snapshot.event.utf8ByteSize > maxEventBytes) .eventTooLong
  failIf (snapshot.detail.utf8ByteSize > maxDetailBytes) .detailTooLong
  let entry := unhashed snapshot
  return { entry with hash := ← entry.expectedHash }

end LedgerEntry

/-! ## The JSON line -/

/-- The pieces one optional number is written in. -/
def optionalJsonPieces (name : String) (value : Option UInt64) : List String :=
  match value with
  | some value => [",\"", name, "\":", decimal value]
  | none => [",\"", name, "\":null"]

/-- Display of a boolean. -/
def boolText (value : Bool) : String := if value then "true" else "false"

namespace LedgerEntry

/-- The `write_all` calls of `write_json`, in order: the literal parts of its
format strings and their arguments. -/
def jsonPieces (entry : LedgerEntry) : List String :=
  ["\x7b\"schema\":\"", ledgerSchema, "\",\"kind\":\"", entry.kind.asStr,
    "\",\"seq\":", decimal entry.seq, ",\"event\":\"", escapeJson entry.event,
    "\",\"detail\":\"", escapeJson entry.detail,
    "\",\"decision\":", decimal entry.decision.toUInt64,
    ",\"body_uid\":", decimal entry.bodyUid, ",\"epoch\":", decimal entry.epoch,
    ",\"generation\":", decimal entry.generation, ",\"certificate\":", decimal entry.certificate,
    ",\"quarantined\":", boolText entry.quarantined,
    ",\"lease_present\":", boolText entry.leasePresent] ++
  optionalJsonPieces "lease_body_uid" entry.leaseBodyUid ++
  optionalJsonPieces "lease_epoch" entry.leaseEpoch ++
  optionalJsonPieces "lease_generation" entry.leaseGeneration ++
  optionalJsonPieces "lease_certificate" entry.leaseCertificate ++
  optionalJsonPieces "lease_valid_until_ns" entry.leaseValidUntilNs ++
  optionalJsonPieces "lease_principal_id" entry.leasePrincipalId ++
  optionalJsonPieces "lease_resource_id" entry.leaseResourceId ++
  optionalJsonPieces "lease_action_id" entry.leaseActionId ++
  optionalJsonPieces "sealed_event_count" entry.sealedEventCount ++
  (match entry.sealedEventHash with
    | some value => [",\"sealed_event_hash\":\"", paddedHex 16 value.toNat, "\""]
    | none => [",\"sealed_event_hash\":null"]) ++
  [",\"prev_hash\":\"", paddedHex 16 entry.prevHash.toNat, "\",\"hash\":\"",
    paddedHex 16 entry.hash.toNat, "\"\x7d\n"]

/-- The bytes `write_json` appends to a vector, which never refuses a write. -/
def writeJson (entry : LedgerEntry) : Bytes := (entry.jsonPieces.map utf8).flatten

end LedgerEntry

end Oasi
