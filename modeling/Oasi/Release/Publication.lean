import Oasi.Foundation.Program
import Oasi.Release.VerifierRun

/-! # Publishing an archive

The builder writes the archive under a name of its own next to the output, has it verified
there by a process of its own, and moves it to the output in one step. A file that exists
is not created again, so that the first name is also a lock.
-/

namespace Oasi

namespace Release

namespace Builder

/-- What `main` raises. -/
inductive Raised where
  | allowlist (error : AllowlistError)
  | build (error : BuildError)
  /-- `output and partial output must be outside SOURCE_DIR` -/
  | outputInside
  /-- `allowlist is control input and must be outside SOURCE_DIR` -/
  | allowlistInside
  /-- `output filename must end in .zip` -/
  | notZip
  /-- `partial output already exists: {partial}` -/
  | draftExists
  /-- `output already exists (use --overwrite explicitly): {output}` -/
  | outputExists
  /-- `independent archive verification failed: {detail}` -/
  | verificationFailed
  /-- `independent archive verifier returned invalid JSON` -/
  | invalidJson
  /-- `independent archive verifier did not return pass=true` -/
  | notPassed
  /-- `output appeared during build; preserving verified partial: {output}` -/
  | outputAppeared
  /-- `archive hash changed across atomic replacement` -/
  | hashChanged
  | osError
  deriving DecidableEq, Repr

/-- The arguments of a builder, but for the output. The paths are absolute. -/
structure Arguments where
  source : Path
  allowlist : Path
  overwrite : Bool
  deriving DecidableEq, Repr

/-- What is printed at the end. -/
structure Report where
  allowlist : Path
  bytes : Nat
  entries : Nat
  output : Path
  sha256 : String
  verification : Verifier.Report
  deriving DecidableEq, Repr

/-! ## Actions -/

/-- The paths whose status is looked at. -/
inductive Place where
  | source
  | allowlist
  /-- `output.parent` -/
  | parent
  | output
  /-- `verify_archive.py` -/
  | verifier
  deriving DecidableEq, Repr

/-- The two places of an archive. -/
inductive Target where
  /-- `partial` -/
  | draft
  | output
  deriving DecidableEq, Repr

inductive Action where
  /-- `os.lstat(...)` -/
  | lstat (place : Place)
  /-- `path.exists() or os.path.lexists(path)` -/
  | lexists (target : Target)
  /-- What `parse_allowlist` reads. -/
  | readAllowlist
  /-- The source as it is walked over and read for the first time. -/
  | meetSource
  /-- `partial.open("x+b")` -/
  | createDraft
  /-- While the archive is written anything may be in the file. -/
  | scribble
  /-- The source files as they are read for the second time. -/
  | readSource
  /-- The last write. -/
  | fill (archive : Bytes)
  /-- `output_stream.flush()` and `os.fsync(...)` -/
  | syncDraft
  /-- What `digest` reads. -/
  | read (target : Target)
  /-- `subprocess.run(...)` of the verifier -/
  | verify (target : Target)
  /-- `os.replace(partial, output)` -/
  | replace
  /-- `output.open("r+b")` and `os.fsync(...)` -/
  | syncOutput
  /-- `os.open(output.parent, ...)` and `os.fsync(...)` -/
  | syncParent
  /-- `output.stat().st_size` -/
  | statOutput
  | print (report : Report)
  deriving DecidableEq, Repr

/-- What an action returns when it does not raise; a status is missing where `lstat` does. -/
abbrev Result : Action → Type
  | .lstat _ => Option Status
  | .lexists _ => Bool
  | .readAllowlist => PathState
  | .meetSource => SourceDirectory
  | .readSource => Source
  | .read _ => Bytes
  | .verify _ => Verifier.Completed
  | .statOutput => Nat
  | _ => Unit

abbrev Reply (action : Action) : Type := Except Raised (Result action)

abbrev BuildCall := Call Action Result Raised

def ask (action : Action) : BuildCall (Result action) := Call.execute action

def orRaise {Value : Type} : Except Raised Value → BuildCall Value
  | .ok value => pure value
  | .error raised => throw raised

/-- An early return with an error. -/
def check (condition : Prop) [Decidable condition] (raised : Raised) : BuildCall Unit :=
  orRaise (failIf condition raised)

/-! ## The program -/

/-- `is_within`; `nt` says that the platform is Windows, where paths have no case. -/
def isWithin (unicode : UnicodeData) (nt : Bool) (candidate parent : Path) : Bool :=
  let normcase := if nt then unicode.lower else id
  (parent.map normcase).isPrefixOf (candidate.map normcase)

/-- `output.with_name(output.name + ".partial")` -/
def draftPath (output : Path) : Path :=
  output.dropLast ++ [output.getLast?.getD [] ++ ".partial".toList]

def ensureDirectory (place : Place) (label : String) : BuildCall Unit := do
  let status : Option Status ← ask (.lstat place)
  orRaise ((requirePlainDirectory (status.map Status.kind) label).mapError fun error =>
    .build (.source error))

def ensureFile (place : Place) (label : String) : BuildCall Unit := do
  let status : Option Status ← ask (.lstat place)
  let _ ← orRaise ((requirePlainStatus status label).mapError fun error =>
    .build (.source (.boundary error)))
  return ()

section Program

variable (unicode : UnicodeData) (zlib : Zlib) (output : Path) (arguments : Arguments)

/-- What is refused before anything is read. -/
def prepare (nt : Bool) : BuildCall Unit := do
  ensureDirectory .source "source directory"
  ensureFile .allowlist "allowlist"
  ensureDirectory .parent "output parent directory"
  check (isWithin unicode nt output arguments.source = true ∨
    isWithin unicode nt (draftPath output) arguments.source = true) .outputInside
  check (isWithin unicode nt arguments.allowlist arguments.source = true) .allowlistInside
  check (unicode.lower (pathSuffix (asPosix output)) ≠ ".zip".toList) .notZip
  let drafted : Bool ← ask (.lexists .draft)
  check (drafted = true) .draftExists
  let present : Bool ← ask (.lexists .output)
  if present then do
    check (arguments.overwrite = false) .outputExists
    ensureFile .output "existing output"
  else pure ()

/-- Reads every source byte before creating any output. -/
def inspect : BuildCall Mapping := do
  let allowlist : PathState ← ask .readAllowlist
  let expected ← orRaise ((parseAllowlist unicode allowlist).mapError .allowlist)
  let source : SourceDirectory ← ask .meetSource
  orRaise ((checkSource unicode expected source).mapError fun error => .build (.source error))
  return expected

/-- `write_partial` on the file system. -/
def writeDraft (expected : Mapping) : BuildCall Unit := do
  ask .createDraft
  ask .scribble
  let source : Source ← ask .readSource
  let archive ← orRaise ((writePartial unicode zlib source expected).mapError .build)
  ask (.fill archive)
  ask .syncDraft

def invokeIndependentVerifier (target : Target) : BuildCall Verifier.Report := do
  ensureFile .verifier "independent archive verifier"
  let completed : Verifier.Completed ← ask (.verify target)
  check (completed.returncode ≠ 0) .verificationFailed
  match completed.result with
  | none => throw .invalidJson
  | some report => do
      check (report.passed = false) .notPassed
      return report

/-- `fsync_parent_when_supported` -/
def fsyncParentWhenSupported (nt : Bool) : BuildCall Unit :=
  if nt then pure () else ask .syncParent

def refuseAppeared : BuildCall Unit :=
  if arguments.overwrite then pure () else do
    let present : Bool ← ask (.lexists .output)
    check (present = true) .outputAppeared

/-- From the finished draft to the report. -/
def publish (nt : Bool) (expected : Mapping) : BuildCall Report := do
  let drafted : Bytes ← ask (.read .draft)
  let _ ← invokeIndependentVerifier .draft
  refuseAppeared arguments
  ask .replace
  ask .syncOutput
  fsyncParentWhenSupported nt
  let verification ← invokeIndependentVerifier .output
  let published : Bytes ← ask (.read .output)
  check (hexdigest published ≠ hexdigest drafted) .hashChanged
  let bytes : Nat ← ask .statOutput
  let report : Report :=
    ⟨arguments.allowlist, bytes, expected.length, output, hexdigest drafted, verification⟩
  ask (.print report)
  return report

def main (nt : Bool) : BuildCall Report := do
  prepare unicode output arguments nt
  let expected ← inspect unicode
  writeDraft unicode zlib expected
  publish output arguments nt expected

end Program

end Builder

end Release

end Oasi
