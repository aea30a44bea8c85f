import Oasi.Foundation.Sha256
import Oasi.Release.Allowlist

/-! # Reading the source of a release

Both release tools read a source file between two looks at its status, and compare what
they read with the allowlist. The builder stops at the first objection, the verifier
collects them.
-/

namespace Oasi

namespace Release

/-- What a path leads to; a reparse point counts as a link. -/
inductive FileKind where
  | regular
  | directory
  | link
  | special
  deriving DecidableEq, Repr

/-- The fields of `os.stat_result` that the tools look at. -/
structure Status where
  kind : FileKind
  device : Nat
  inode : Nat
  size : Nat
  mtimeNs : Nat
  deriving DecidableEq, Repr

/-- What a tool meets at a source file; `none` where a call raises `OSError`. -/
structure Reading where
  /-- `os.lstat` before the file is opened. -/
  before : Option Status
  /-- `open` and the first `os.fstat`. -/
  opened : Option Status
  data : Option Bytes
  /-- The second `os.fstat`. -/
  afterRead : Option Status
  /-- `os.lstat` after the file was read. -/
  after : Option Status
  deriving DecidableEq, Repr

/-- What is wrong with a source. -/
inductive SourceError where
  | boundary (error : BoundaryError)
  /-- `{label} is not a directory: {path}` -/
  | notDirectory (label : String)
  /-- `cannot enumerate source directory: {type}` -/
  | cannotEnumerate
  /-- `cannot stat source entry: {path}: {type}` -/
  | cannotStat (relative : Text)
  /-- `symlink or reparse point rejected: {relative}` -/
  | linkRejected (relative : Text)
  /-- `non-regular source entry rejected: {relative}` -/
  | specialRejected (relative : Text)
  /-- `source has a Unicode-normalization or casefold collision` -/
  | collision
  /-- `source identity changed before read: {relative}` -/
  | identityBefore (relative : Text)
  /-- `cannot read source file {relative}: {type}` -/
  | cannotRead (relative : Text)
  /-- `source identity changed during read: {relative}` -/
  | identityDuring (relative : Text)
  /-- `source metadata changed during read: {relative}` -/
  | metadataDuring (relative : Text)
  /-- `source content does not match allowlist: {relative}` -/
  | contentMismatch (relative : Text)
  /-- `source size mismatch: {relative}` -/
  | sizeMismatch (relative : Text)
  /-- `source SHA-256 mismatch: {relative}` -/
  | digestMismatch (relative : Text)
  /-- `source files missing: {missing}` -/
  | missing (names : List Text)
  /-- `source files not allowlisted: {unlisted}` -/
  | unlisted (names : List Text)
  /-- `source/allowlist mismatch: {missing, unlisted}` -/
  | mismatch (missing unlisted : List Text)
  /-- The text of an `OSError`. -/
  | osError
  deriving DecidableEq, Repr

/-- `require_plain_file` on a status. -/
def requirePlainStatus (status : Option Status) (label : String) :
    Except BoundaryError Status :=
  match status with
  | none => .error (.unreadable label)
  | some status =>
      match status.kind with
      | .link => .error (.linked label)
      | .directory | .special => .error (.notRegular label)
      | .regular => .ok status

/-- The label of a source file in the messages. -/
def sourceLabel (relative : Text) : String := "source file " ++ String.ofList relative

/-- Numbers that are both known and differ. -/
def differs (left right : Nat) : Bool := left != 0 && right != 0 && left != right

/-- `same_identity` -/
def sameIdentity (left right : Status) : Bool :=
  !differs left.device right.device && !differs left.inode right.inode

/-- `read_stable` -/
def readStable (relative : Text) (reading : Reading) (expected : ExpectedFile) :
    Except SourceError Bytes := do
  let before ← (requirePlainStatus reading.before (sourceLabel relative)).mapError .boundary
  match reading.opened with
  | none => .error (.cannotRead relative)
  | some opened =>
      failIf (sameIdentity before opened = false ∨ opened.kind ≠ .regular)
        (.identityBefore relative)
      match reading.data, reading.afterRead with
      | some data, some afterRead =>
          let after ← (requirePlainStatus reading.after (sourceLabel relative)).mapError .boundary
          failIf (sameIdentity before after = false ∨ sameIdentity opened afterRead = false)
            (.identityDuring relative)
          failIf (before.size ≠ after.size ∨ before.mtimeNs ≠ after.mtimeNs)
            (.metadataDuring relative)
          failIf (data.length ≠ expected.size ∨ (hexdigest data).toList ≠ expected.sha256)
            (.contentMismatch relative)
          return data
      | _, _ => .error (.cannotRead relative)

/-- The known numbers are one. -/
def agree (numbers : List Nat) : Bool := ((numbers.filter (· ≠ 0)).dedup.length ≤ 1 : Bool)

/-- `stable_digest`: every objection to a source file. -/
def stableDigest (relative : Text) (reading : Reading) (expected : ExpectedFile) :
    List SourceError :=
  match requirePlainStatus reading.before (sourceLabel relative) with
  | .error error => [.boundary error]
  | .ok before =>
      match reading.opened, reading.data, reading.afterRead with
      | some opened, some data, some afterRead =>
          match requirePlainStatus reading.after (sourceLabel relative) with
          | .error error => [.boundary error]
          | .ok after =>
              let looks := [before, opened, afterRead, after]
              (if agree (looks.map Status.device) && agree (looks.map Status.inode) then []
                else [.identityDuring relative]) ++
              (if before.size ≠ after.size ∨ before.mtimeNs ≠ after.mtimeNs then
                [.metadataDuring relative] else []) ++
              (if data.length ≠ expected.size then [.sizeMismatch relative] else []) ++
              (if (hexdigest data).toList ≠ expected.sha256 then [.digestMismatch relative]
                else [])
      | _, _, _ => [.cannotRead relative]

end Release

end Oasi
