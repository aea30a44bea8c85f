import Oasi.Release.BuiltArchives
import Oasi.Release.Shelf

/-! # A builder that runs alone

When nothing else happens and the system causes no error, a builder publishes exactly when
nothing is in its way, the allowlist parses, the source passes with both tools, the writer
stays within its limits and the verifier accepts what was written. What the builder meets
may depend on the two files that it moves: an allowlist that is the output is overwritten
before the second verification. Nothing refuses such an output.
-/

namespace Oasi

namespace Release

open Builder

section Alone

variable {unicode : UnicodeData} {zlib : Zlib} {nt : Bool} {output : Path}
  {arguments : Arguments} {surroundings : Shelf → Surroundings} {process : ProcessId}
  {shelf after : Shelf} {Value : Type} {value : Value}

/-- The outcome of a call when nothing else happens. What it meets is up to the two files. -/
def settled (unicode : UnicodeData) (zlib : Zlib) (surroundings : Shelf → Surroundings)
    (process : ProcessId) (call : BuildCall Value) (shelf : Shelf) :
    Except Raised Value × Shelf :=
  call.alone (fun action before => perform unicode zlib (surroundings before) process action before)
    shelf

/-! ## Single actions -/

/-- A reply, where the shelf stays the same. -/
theorem replied_iff {found : Value} :
    ((.ok found, shelf) : Except Raised Value × Shelf) = (.ok value, after) ↔
      found = value ∧ shelf = after := by
  rw [Prod.mk.injEq, Except.ok.injEq]

/-- A reply that says nothing. -/
theorem done_iff {done : Unit} {found : Shelf} :
    ((.ok (), found) : Except Raised Unit × Shelf) = (.ok done, after) ↔ found = after := by
  rw [Prod.mk.injEq, and_iff_right rfl]

/-- A sequence of two calls returns when both do. -/
theorem settled_bind {First : Type} {call : BuildCall First} {rest : First → BuildCall Value} :
    settled unicode zlib surroundings process (call >>= rest) shelf = (.ok value, after) ↔
      ∃ first middle, settled unicode zlib surroundings process call shelf = (.ok first, middle) ∧
        settled unicode zlib surroundings process (rest first) middle = (.ok value, after) :=
  Call.alone_bind_eq_ok

/-- A value alone leaves the shelf as it is. -/
theorem settled_pure {found : Value} :
    settled unicode zlib surroundings process (pure found) shelf = (.ok value, after) ↔
      found = value ∧ shelf = after :=
  Call.alone_pure_eq_ok

/-- A status is what the surroundings show at the moment. -/
theorem settled_lstat {place : Place} {status : Option Status} :
    @settled (Option Status) unicode zlib surroundings process (ask (.lstat place))
      shelf = (.ok status, after) ↔ (surroundings shelf).status place = status ∧ shelf = after :=
  replied_iff

/-- A target exists when the shelf has a file in its place. -/
theorem settled_lexists {target : Target} {present : Bool} :
    @settled Bool unicode zlib surroundings process (ask (.lexists target)) shelf =
      (.ok present, after) ↔ (shelf.place target).isSome = present ∧ shelf = after :=
  replied_iff

/-- The allowlist is the one that the surroundings show at the moment. -/
theorem settled_readAllowlist {allowlist : PathState} :
    @settled PathState unicode zlib surroundings process (ask .readAllowlist) shelf =
      (.ok allowlist, after) ↔ (surroundings shelf).allowlist = allowlist ∧ shelf = after :=
  replied_iff

/-- The source is the one that the surroundings show at the moment. -/
theorem settled_meetSource {source : SourceDirectory} :
    @settled SourceDirectory unicode zlib surroundings process (ask .meetSource)
      shelf = (.ok source, after) ↔ (surroundings shelf).source = source ∧ shelf = after :=
  replied_iff

/-- A verifier judges what it sees of the target at the moment. -/
theorem settled_verify {target : Target} {completed : Verifier.Completed} :
    @settled Verifier.Completed unicode zlib surroundings process (ask (.verify target))
      shelf = (.ok completed, after) ↔
        Verifier.run unicode zlib [shelf.seen target (surroundings shelf).readable]
            (surroundings shelf).allowlist (some (surroundings shelf).source) = completed ∧
          shelf = after :=
  replied_iff

/-- A target is read when there is a file. -/
theorem settled_read {target : Target} {content : Bytes} :
    @settled Bytes unicode zlib surroundings process (ask (.read target)) shelf =
      (.ok content, after) ↔
        (shelf.place target).map File.content = some content ∧ shelf = after := by
  change perform unicode zlib (surroundings shelf) process (.read target) shelf =
    (.ok content, after) ↔ _
  rw [perform]
  cases shelf.place target with
  | none => simp
  | some file => simp

/-- The files are read as the source has them at the moment. -/
theorem settled_readSource {source : Source} :
    @settled Source unicode zlib surroundings process (ask .readSource) shelf =
      (.ok source, after) ↔ (surroundings shelf).source.toSource = source ∧ shelf = after :=
  replied_iff

/-- A draft is created where there is none. -/
theorem settled_createDraft {done : Unit} :
    @settled Unit unicode zlib surroundings process (ask .createDraft) shelf =
      (.ok done, after) ↔
        shelf.draft = none ∧
          { shelf with draft := some ⟨[], false⟩, holder := some process } = after := by
  change perform unicode zlib (surroundings shelf) process .createDraft shelf =
    (.ok done, after) ↔ _
  rw [perform]
  cases shelf.draft with
  | none => simp
  | some file => simp

/-- Half an archive may be anything, and is not synced. -/
theorem settled_scribble {done : Unit} :
    @settled Unit unicode zlib surroundings process (ask .scribble) shelf =
      (.ok done, after) ↔ shelf.write (surroundings shelf).scribbled = after :=
  done_iff

/-- The last write leaves the whole archive. -/
theorem settled_fill {archive : Bytes} {done : Unit} :
    @settled Unit unicode zlib surroundings process (ask (.fill archive)) shelf =
      (.ok done, after) ↔ shelf.write archive = after :=
  done_iff

/-- A synced draft keeps its content. -/
theorem settled_syncDraft {done : Unit} :
    @settled Unit unicode zlib surroundings process (ask .syncDraft) shelf =
      (.ok done, after) ↔ { shelf with draft := shelf.draft.map File.sync } = after :=
  done_iff

/-- The draft takes the place of the output, and the move may still be undone. -/
theorem settled_replace {done : Unit} :
    @settled Unit unicode zlib surroundings process (ask .replace) shelf = (.ok done, after) ↔
      ∃ file, shelf.draft = some file ∧ { shelf with
        output := some file
        draft := none
        unsynced := shelf.unsynced + 1
        holder := none
        publications := ⟨process, file, shelf.output⟩ :: shelf.publications } = after := by
  change perform unicode zlib (surroundings shelf) process .replace shelf =
    (.ok done, after) ↔ _
  rw [perform]
  cases shelf.draft with
  | none => simp
  | some file => simp

/-- The output is synced when there is one. -/
theorem settled_syncOutput {done : Unit} :
    @settled Unit unicode zlib surroundings process (ask .syncOutput) shelf =
      (.ok done, after) ↔
        ∃ file, shelf.output = some file ∧ { shelf with output := some file.sync } = after := by
  change perform unicode zlib (surroundings shelf) process .syncOutput shelf =
    (.ok done, after) ↔ _
  rw [perform]
  cases shelf.output with
  | none => simp
  | some file => simp

/-- Where directories are synced, no move can be undone any more. -/
theorem settled_fsyncParent {done : Unit} :
    settled unicode zlib surroundings process (fsyncParentWhenSupported nt) shelf =
      (.ok done, after) ↔
        { shelf with unsynced := if nt then shelf.unsynced else 0 } = after := by
  cases nt with
  | true => simp [fsyncParentWhenSupported, settled_pure]
  | false =>
      exact done_iff

/-- The size is that of the output. -/
theorem settled_statOutput {bytes : Nat} :
    @settled Nat unicode zlib surroundings process (ask .statOutput) shelf =
      (.ok bytes, after) ↔
        (∃ file, shelf.output = some file ∧ file.content.length = bytes) ∧ shelf = after := by
  change perform unicode zlib (surroundings shelf) process .statOutput shelf =
    (.ok bytes, after) ↔ _
  rw [perform]
  cases shelf.output with
  | none => simp
  | some file => simp

/-- What is printed is kept, and nothing else changes. -/
theorem settled_print {report : Report} {done : Unit} :
    @settled Unit unicode zlib surroundings process (ask (.print report)) shelf =
      (.ok done, after) ↔
        { shelf with printed := (process, report) :: shelf.printed } = after :=
  done_iff

/-- A branch settles as the one that is taken. -/
theorem settled_ite {condition : Prop} [Decidable condition] {yes no : BuildCall Value} :
    settled unicode zlib surroundings process (if condition then yes else no) shelf =
        (.ok value, after) ↔
      (condition → settled unicode zlib surroundings process yes shelf = (.ok value, after)) ∧
        (¬condition → settled unicode zlib surroundings process no shelf = (.ok value, after)) := by
  split
  next hcondition => simp [hcondition]
  next hcondition => simp [hcondition]

/-- An outcome is returned when it is no error. -/
theorem settled_orRaise {outcome : Except Raised Value} :
    settled unicode zlib surroundings process (orRaise outcome) shelf = (.ok value, after) ↔
      outcome = .ok value ∧ shelf = after := by
  cases outcome with
  | ok found => rw [orRaise, settled_pure, Except.ok.injEq]
  | error raised =>
      rw [orRaise, settled, Call.alone_throw_eq_ok]
      simp

/-- A check is passed when its condition fails. -/
theorem settled_check {condition : Prop} [Decidable condition] {raised : Raised} {value : Unit} :
    settled unicode zlib surroundings process (check condition raised) shelf =
      (.ok value, after) ↔ ¬condition ∧ shelf = after := by
  rw [check, settled_orRaise, failIf_eq_ok]

/-- A place passes as a directory when its status says that it is one. -/
theorem settled_ensureDirectory {place : Place} {label : String} {value : Unit} :
    settled unicode zlib surroundings process (ensureDirectory place label) shelf =
        (.ok value, after) ↔
      ((surroundings shelf).status place).map Status.kind = some .directory ∧ shelf = after := by
  simp only [ensureDirectory, settled_bind, settled_lstat, settled_orRaise, mapError_eq_ok,
    requirePlainDirectory_eq_ok, and_assoc, exists_and_left, exists_eq_left']

/-- A place passes as a file when its status says that it is a regular one. -/
theorem settled_ensureFile {place : Place} {label : String} {value : Unit} :
    settled unicode zlib surroundings process (ensureFile place label) shelf =
        (.ok value, after) ↔
      ((surroundings shelf).status place).map Status.kind = some .regular ∧ shelf = after := by
  simp only [ensureFile, settled_bind, settled_lstat, settled_orRaise, mapError_eq_ok,
    requirePlainStatus_eq_ok, settled_pure, Option.map_eq_some_iff, and_assoc, exists_and_left,
    exists_eq_left', true_and]
  constructor
  · intro ⟨status, hstatus, hregular, hafter⟩
    exact ⟨⟨status, hstatus, hregular⟩, hafter⟩
  · intro ⟨⟨status, hstatus, hregular⟩, hafter⟩
    exact ⟨status, hstatus, hregular, hafter⟩

/-! ## The checks -/

/-- Nothing is in the way of a builder. -/
structure Admissible (unicode : UnicodeData) (output : Path) (arguments : Arguments) (nt : Bool)
    (surroundings : Surroundings) (shelf : Shelf) : Prop where
  source : (surroundings.status .source).map Status.kind = some .directory
  allowlist : (surroundings.status .allowlist).map Status.kind = some .regular
  parent : (surroundings.status .parent).map Status.kind = some .directory
  outside : ¬(isWithin unicode nt output arguments.source = true ∨
    isWithin unicode nt (draftPath output) arguments.source = true)
  allowlist_outside : ¬isWithin unicode nt arguments.allowlist arguments.source = true
  zip : unicode.lower (pathSuffix (asPosix output)) = ".zip".toList
  vacant : shelf.draft = none
  replaceable : shelf.output.isSome = true → arguments.overwrite = true ∧
    (surroundings.status .output).map Status.kind = some .regular

/-- The first checks pass when nothing is in the way of the builder. -/
theorem settled_prepare {value : Unit} :
    settled unicode zlib surroundings process (prepare unicode output arguments nt) shelf =
        (.ok value, after) ↔
      Admissible unicode output arguments nt (surroundings shelf) shelf ∧ shelf = after := by
  simp only [prepare, settled_bind, settled_ensureDirectory, settled_ensureFile, settled_check,
    settled_lexists, and_assoc, exists_and_left, exists_eq_left', exists_const, settled_ite,
    settled_pure, true_and]
  constructor
  · intro ⟨hsource, hallowlist, hparent, houtside, hinside, hzip, hvacant, hpresent, habsent⟩
    refine ⟨⟨hsource, hallowlist, hparent, houtside, hinside, not_not.mp hzip, ?_, ?_⟩, ?_⟩
    · exact Option.not_isSome_iff_eq_none.mp hvacant
    · intro houtput
      obtain ⟨hoverwrite, hregular, _⟩ := hpresent houtput
      exact ⟨Bool.eq_true_of_not_eq_false hoverwrite, hregular⟩
    · by_cases houtput : (shelf.place .output).isSome = true
      · exact (hpresent houtput).2.2
      · exact habsent houtput
  · rintro ⟨h, rfl⟩
    refine ⟨h.source, h.allowlist, h.parent, h.outside, h.allowlist_outside, not_not.mpr h.zip,
      Option.not_isSome_iff_eq_none.mpr h.vacant, ?_, fun _ => rfl⟩
    intro houtput
    obtain ⟨hoverwrite, hregular⟩ := h.replaceable houtput
    exact ⟨ne_false_of_eq_true hoverwrite, hregular, rfl⟩

/-- The second checks pass when the allowlist parses and the source fits it. -/
theorem settled_inspect {expected : Mapping} :
    settled unicode zlib surroundings process (inspect unicode) shelf = (.ok expected, after) ↔
      (parseAllowlist unicode (surroundings shelf).allowlist = .ok expected ∧
        checkSource unicode expected (surroundings shelf).source = .ok ()) ∧ shelf = after := by
  simp only [inspect, settled_readAllowlist, settled_bind, settled_orRaise, settled_meetSource,
    settled_pure, mapError_eq_ok, and_assoc, exists_and_left, exists_eq_left']
  constructor
  · rintro ⟨_, hparsed, _, hsource, rfl, hafter⟩
    exact ⟨hparsed, hsource, hafter⟩
  · intro ⟨hparsed, hsource, hafter⟩
    exact ⟨expected, hparsed, (), hsource, rfl, hafter⟩

/-! ## The archive -/

/-- The shelf with a finished draft. -/
def Shelf.drafted (shelf : Shelf) (process : ProcessId) (archive : Bytes) : Shelf :=
  { shelf with draft := some ⟨archive, true⟩, holder := some process }

/-- The source is not reached through the output or the draft. -/
def SourceApart (surroundings : Shelf → Surroundings) (source : SourceDirectory) : Prop :=
  ∀ shelf, (surroundings shelf).source = source

/-- The draft holds what the writer makes of the source. -/
theorem settled_writeDraft {expected : Mapping} {source : SourceDirectory} {done : Unit}
    (hsource : SourceApart surroundings source) :
    settled unicode zlib surroundings process (writeDraft unicode zlib expected) shelf =
        (.ok done, after) ↔
      shelf.draft = none ∧ ∃ archive,
        writePartial unicode zlib source.toSource expected = .ok archive ∧
        shelf.drafted process archive = after := by
  simp only [writeDraft, settled_bind, settled_createDraft, settled_scribble, settled_readSource,
    settled_orRaise, settled_fill, settled_syncDraft, mapError_eq_ok, and_assoc, exists_and_left,
    exists_eq_left', exists_const, hsource _]
  rfl

/-- A verifier that ends well prints the one report of runs that pass. -/
theorem settled_result {completed : Verifier.Completed} {report : Verifier.Report}
    (hcompleted : completed = ⟨0, some (Verifier.cleanReport 1)⟩) :
    settled unicode zlib surroundings process
        (match completed.result with
        | none => throw .invalidJson
        | some report => do
            check (report.passed = false) .notPassed
            return report) shelf = (.ok report, after) ↔
      Verifier.cleanReport 1 = report ∧ shelf = after := by
  subst hcompleted
  simp only [settled_bind, settled_check, settled_pure, and_assoc, exists_and_left,
    exists_eq_left', exists_const]
  exact and_iff_right Bool.true_eq_false.mp

/-- A verification passes when the script is there and finds no fault. -/
theorem settled_invoke {target : Target} {report : Verifier.Report} :
    settled unicode zlib surroundings process (invokeIndependentVerifier target) shelf =
        (.ok report, after) ↔
      ((surroundings shelf).status .verifier).map Status.kind = some .regular ∧
      (∃ expected, Verifier.Passes unicode zlib [shelf.seen target (surroundings shelf).readable]
        (surroundings shelf).allowlist (some (surroundings shelf).source) expected) ∧
      Verifier.cleanReport 1 = report ∧ shelf = after := by
  simp only [invokeIndependentVerifier, settled_bind, settled_ensureFile, settled_verify,
    settled_check, and_assoc, exists_and_left, exists_eq_left', exists_const]
  apply and_congr_right
  intro _
  rw [not_not, Verifier.returncode_eq_zero]
  apply and_congr_right
  intro ⟨expected, hpasses⟩
  exact settled_result (by rw [Verifier.run, Verifier.main_eq_ok hpasses]; rfl)

/-- Without `--overwrite` the output must still be missing. -/
theorem settled_refuseAppeared {done : Unit} :
    settled unicode zlib surroundings process (refuseAppeared arguments) shelf =
        (.ok done, after) ↔
      (arguments.overwrite = false → shelf.output = none) ∧ shelf = after := by
  simp only [refuseAppeared, settled_ite, settled_pure, settled_bind, settled_lexists,
    settled_check, and_assoc, exists_and_left, exists_eq_left', true_and]
  cases arguments.overwrite with
  | false => simp [Shelf.place]
  | true => simp

/-- What is printed for an archive. -/
def Builder.Arguments.report (arguments : Arguments) (output : Path) (entries : Nat)
    (archive : Bytes) : Report :=
  ⟨arguments.allowlist, archive.length, entries, output, hexdigest archive,
    Verifier.cleanReport 1⟩

/-- The shelf after an archive has been moved to the output. -/
def Shelf.move (shelf : Shelf) (nt : Bool) (process : ProcessId) (archive : Bytes) : Shelf where
  output := some ⟨archive, true⟩
  draft := none
  unsynced := if nt then shelf.unsynced + 1 else 0
  holder := none
  publications := ⟨process, ⟨archive, true⟩, shelf.output⟩ :: shelf.publications
  printed := shelf.printed

/-- The shelf after an archive has been published. -/
def Shelf.publish (shelf : Shelf) (nt : Bool) (process : ProcessId) (archive : Bytes)
    (report : Report) : Shelf :=
  { shelf.move nt process archive with printed := (process, report) :: shelf.printed }

/-- The verifier is there and passes the archive. -/
def Vouches (unicode : UnicodeData) (zlib : Zlib) (surroundings : Surroundings) (archive : Bytes) :
    Prop :=
  (surroundings.status .verifier).map Status.kind = some .regular ∧
    ∃ expected, Verifier.Passes unicode zlib
      [.regular (if surroundings.readable then some archive else none)]
      surroundings.allowlist (some surroundings.source) expected

/-- The archive is verified before the move and after it. -/
theorem settled_publish {expected : Mapping} {archive : Bytes} {report : Report} :
    settled unicode zlib surroundings process (publish output arguments nt expected)
        (shelf.drafted process archive) = (.ok report, after) ↔
      Vouches unicode zlib (surroundings (shelf.drafted process archive)) archive ∧
      (arguments.overwrite = false → shelf.output = none) ∧
      Vouches unicode zlib (surroundings (shelf.move nt process archive)) archive ∧
      arguments.report output expected.length archive = report ∧
      shelf.publish nt process archive report = after := by
  simp only [publish, settled_bind, settled_read, settled_invoke, settled_refuseAppeared,
    settled_check, settled_replace, settled_syncOutput, settled_fsyncParent, settled_statOutput,
    settled_print, settled_pure, and_assoc, exists_and_left, exists_eq_left', exists_const,
    Shelf.seen, Shelf.place, Shelf.drafted, Option.some.injEq, Option.map_some, Vouches]
  constructor
  · rintro ⟨hverifier, hpasses, houtput, hagain, hpassesAgain, _, rfl, hafter⟩
    exact ⟨hverifier, hpasses, houtput, hagain, hpassesAgain, rfl, hafter⟩
  · rintro ⟨hverifier, hpasses, houtput, hagain, hpassesAgain, rfl, hafter⟩
    exact ⟨hverifier, hpasses, houtput, hagain, hpassesAgain, not_not.mpr rfl, rfl, hafter⟩

/-! ## The whole run -/

/-- A run ends well when its checks pass, the archive is built, and the verifier passes it at both
places. -/
theorem settled_main {report : Report} {source : SourceDirectory}
    (hsource : SourceApart surroundings source) :
    settled unicode zlib surroundings process (main unicode zlib output arguments nt) shelf =
        (.ok report, after) ↔
      Admissible unicode output arguments nt (surroundings shelf) shelf ∧
      ∃ expected archive,
        parseAllowlist unicode (surroundings shelf).allowlist = .ok expected ∧
        checkSource unicode expected source = .ok () ∧
        writePartial unicode zlib source.toSource expected = .ok archive ∧
        Vouches unicode zlib (surroundings (shelf.drafted process archive)) archive ∧
        Vouches unicode zlib (surroundings (shelf.move nt process archive)) archive ∧
        arguments.report output expected.length archive = report ∧
        shelf.publish nt process archive report = after := by
  simp only [main, settled_bind, settled_prepare, settled_inspect, settled_writeDraft hsource,
    hsource _, and_assoc, exists_and_left, exists_eq_left', exists_const]
  constructor
  · rintro ⟨hadmissible, expected, hparsed, hchecked, _, _, ⟨archive, hbuilt, rfl⟩, hpublish⟩
    rw [settled_publish] at hpublish
    obtain ⟨hvouched, _, hagain, hreport, hafter⟩ := hpublish
    exact ⟨hadmissible, expected, hparsed, hchecked, archive, hbuilt, hvouched, hagain, hreport,
      hafter⟩
  · intro ⟨hadmissible, expected, hparsed, hchecked, archive, hbuilt, hvouched, hagain, hreport,
      hafter⟩
    refine ⟨hadmissible, expected, hparsed, hchecked, hadmissible.vacant, _,
      ⟨archive, hbuilt, rfl⟩, ?_⟩
    rw [settled_publish]
    refine ⟨hvouched, fun hkeep => ?_, hagain, hreport, hafter⟩
    by_contra houtput
    obtain ⟨hoverwrite, _⟩ := hadmissible.replaceable (Option.isSome_iff_ne_none.mpr houtput)
    cases hkeep.symm.trans hoverwrite

/-- What lets a builder publish an archive. -/
structure Ready (unicode : UnicodeData) (zlib : Zlib) (output : Path) (arguments : Arguments)
    (nt : Bool) (surroundings : Surroundings) (shelf : Shelf) (expected : Mapping)
    (archive : Bytes) : Prop where
  admissible : Admissible unicode output arguments nt surroundings shelf
  verifier : (surroundings.status .verifier).map Status.kind = some .regular
  selfTest : Verifier.permissionPolicySelfTest unicode = []
  parsed : parseAllowlist unicode surroundings.allowlist = .ok expected
  checked : checkSource unicode expected surroundings.source = .ok ()
  oneFile : ∀ name ∈ expected.map Prod.fst, (surroundings.source.reading name).OneFile
  built : writePartial unicode zlib surroundings.source.toSource expected = .ok archive
  readable : surroundings.readable = true
  ordinary : ¬LooksLikeSignature archive

variable {first : Surroundings}

/-- A verifier passes the archive of a builder that is ready. -/
theorem Ready.vouches {expected : Mapping} {archive : Bytes}
    (hinflate : ∀ data, zlib.inflate zipDeflated (zlib.deflate data) data.length = .ok data)
    (h : Ready unicode zlib output arguments nt first shelf expected archive) :
    Vouches unicode zlib first archive := by
  have hlisting := listing_of_parseAllowlist h.parsed
  refine ⟨h.verifier, expected, h.selfTest, h.parsed, ?_, List.cons_ne_nil _ _, ?_⟩
  · intro directory hdirectory
    rw [← Option.some.inj hdirectory]
    exact (inspectSource_of_checkSource h.checked).mpr h.oneFile
  · intro path hpath
    obtain ⟨members, hwrites, hrecords, hdirectory, rfl⟩ :=
      (writePartial_eq_ok hlisting).mp h.built
    rw [List.mem_singleton.mp hpath, if_pos h.readable]
    exact (hwrites.accepted hlisting hrecords hdirectory hinflate).mpr h.ordinary

/-- A builder whose archive is built and passed was ready. -/
theorem ready_of_vouches {expected : Mapping} {archive : Bytes}
    (hinflate : ∀ data, zlib.inflate zipDeflated (zlib.deflate data) data.length = .ok data)
    (hadmissible : Admissible unicode output arguments nt first shelf)
    (hparsed : parseAllowlist unicode first.allowlist = .ok expected)
    (hchecked : checkSource unicode expected first.source = .ok ())
    (hbuilt : writePartial unicode zlib first.source.toSource expected = .ok archive)
    (hvouches : Vouches unicode zlib first archive) :
    Ready unicode zlib output arguments nt first shelf expected archive := by
  obtain ⟨hverifier, found, hpasses⟩ := hvouches
  cases hparsed.symm.trans hpasses.parsed
  have hlisting := listing_of_parseAllowlist hparsed
  have hone := (inspectSource_of_checkSource hchecked).mp (hpasses.inspected _ rfl)
  have hverified := hpasses.verified _ (List.mem_singleton_self _)
  have hreadable : first.readable = true := by
    by_contra hunreadable
    rw [if_neg hunreadable] at hverified
    cases hverified
  rw [if_pos hreadable] at hverified
  obtain ⟨members, hwrites, hrecords, hdirectory, rfl⟩ := (writePartial_eq_ok hlisting).mp hbuilt
  have hordinary := (hwrites.accepted hlisting hrecords hdirectory hinflate).mp hverified
  exact ⟨hadmissible, hverifier, hpasses.selfTest, hparsed, hchecked, hone, hbuilt, hreadable,
    hordinary⟩

/-- The output is not the allowlist. Neither the allowlist nor the source nor the verifier is
reached through the output or the draft: whatever the two files hold, these stay as they were
at first. -/
structure Apart (output : Path) (arguments : Arguments) (surroundings : Shelf → Surroundings)
    (first : Surroundings) : Prop where
  distinct : arguments.allowlist ≠ output
  allowlist : ∀ shelf, (surroundings shelf).allowlist = first.allowlist
  source : SourceApart surroundings first.source
  verifier : ∀ shelf, (surroundings shelf).status .verifier = first.status .verifier
  readable : ∀ shelf, (surroundings shelf).readable = first.readable

/-- The verifier says the same at any time. -/
theorem Apart.vouches_iff (hapart : Apart output arguments surroundings first)
    {archive : Bytes} (shelf : Shelf) :
    Vouches unicode zlib (surroundings shelf) archive ↔ Vouches unicode zlib first archive := by
  rw [Vouches, Vouches, hapart.allowlist, hapart.source, hapart.verifier, hapart.readable]

/-- Alone and without errors of the system, a builder whose output is apart from what it reads
publishes what its writer makes of the source exactly when it is ready, and nothing it checks
on the way fails then. -/
theorem main_publishes_iff {report : Report}
    (hinflate : ∀ data, zlib.inflate zipDeflated (zlib.deflate data) data.length = .ok data)
    (hapart : Apart output arguments surroundings (surroundings shelf)) :
    settled unicode zlib surroundings process (main unicode zlib output arguments nt) shelf =
        (.ok report, after) ↔
      ∃ expected archive,
        Ready unicode zlib output arguments nt (surroundings shelf) shelf expected archive ∧
        arguments.report output expected.length archive = report ∧
        shelf.publish nt process archive report = after := by
  simp only [settled_main hapart.source, hapart.vouches_iff]
  constructor
  · intro ⟨hadmissible, expected, archive, hparsed, hchecked, hbuilt, hvouches, _, hresult⟩
    exact ⟨expected, archive,
      ready_of_vouches hinflate hadmissible hparsed hchecked hbuilt hvouches, hresult⟩
  · intro ⟨expected, archive, hready, hresult⟩
    have hvouches := hready.vouches hinflate
    exact ⟨hready.admissible, expected, archive, hready.parsed, hready.checked, hready.built,
      hvouches, hvouches, hresult⟩

/-! ## An allowlist that is the output -/

/-- An archive ends in the length of its comment, an allowlist in a line feed. -/
theorem plainLayout_not_allowlist {members : List Member} {expected : Mapping} :
    parseAllowlist unicode (.regular (some (plainLayout unicode zlib members))) ≠ .ok expected := by
  intro h
  obtain ⟨text, hbytes, htext⟩ := parseAllowlist_eq_ok.mp h
  obtain ⟨front, rfl⟩ := List.getLast?_eq_some_iff.mp (parseText_eq_ok htext).1
  have hlast : (plainLayout unicode zlib members).getLast? = some 0 := by
    simp [plainLayout, layout, EndHeader.pack, endHeader, leBytes]
  rw [hbytes, encode_append] at hlast
  change (encode front ++ [10]).getLast? = some 0 at hlast
  rw [List.getLast?_append_cons] at hlast
  cases hlast

/-- A builder whose allowlist is its output never ends well. When it is admitted and its
archive is moved, the archive has taken the place of the allowlist. -/
theorem overwritten_allowlist {report : Report} {source : SourceDirectory}
    (hsource : SourceApart surroundings source)
    (hsame : ∀ shelf, (surroundings shelf).allowlist =
      shelf.seen .output (surroundings shelf).readable) :
    settled unicode zlib surroundings process (main unicode zlib output arguments nt) shelf ≠
      (.ok report, after) := by
  intro h
  obtain ⟨_, expected, archive, hparsed, _, hbuilt, _, ⟨_, _, hpasses⟩, _⟩ :=
    (settled_main hsource).mp h
  have hlisting := listing_of_parseAllowlist hparsed
  obtain ⟨members, _, _, _, rfl⟩ := (writePartial_eq_ok hlisting).mp hbuilt
  have hagain := hpasses.parsed
  rw [hsame] at hagain
  generalize Surroundings.readable _ = readable at hagain
  cases readable with
  | true => exact plainLayout_not_allowlist hagain
  | false => cases hagain

end Alone

/-! ## Two empty files -/

/-- The two files, and nothing else. -/
def emptyDirectory : SourceDirectory where
  toSource := emptySource 1
  tree := .node ⟨some .directory, some .directory, true⟩
    [(['a'], .node ⟨some .regular, none, false⟩ []),
      (['b'], .node ⟨some .regular, none, false⟩ [])]

def emptySurroundings (shelf : Shelf) : Surroundings where
  status := fun place =>
    match place with
    | .source | .parent => some ⟨.directory, 1, 1, 0, 0⟩
    | .allowlist | .verifier => some ⟨.regular, 1, 2, 0, 0⟩
    | .output => shelf.output.map fun file => ⟨.regular, 1, 3, file.content.length, 0⟩
  allowlist := .regular (some (encode lineFeedText))
  source := emptyDirectory
  readable := true
  scribbled := [0]

def emptyArguments (overwrite : Bool) : Arguments := ⟨[['s']], [['l']], overwrite⟩

/-- `o.zip` -/
def emptyOutput : Path := ["o.zip".toList]

/-- The two files and their allowlist lie apart from the output. -/
theorem apart_emptySurroundings {overwrite : Bool} (shelf : Shelf) :
    Apart emptyOutput (emptyArguments overwrite) emptySurroundings (emptySurroundings shelf) where
  distinct := by
    change [['l']] ≠ emptyOutput
    decide
  allowlist := fun _ => rfl
  source := fun _ => rfl
  verifier := fun _ => rfl
  readable := fun _ => rfl

/-- Nothing is in the way of a builder of the two files where no draft is. -/
theorem admissible_emptySurroundings {overwrite nt : Bool} {shelf : Shelf}
    (hvacant : shelf.draft = none) (houtput : shelf.output.isSome = true → overwrite = true) :
    Admissible .ascii emptyOutput (emptyArguments overwrite) nt (emptySurroundings shelf)
      shelf where
  source := rfl
  allowlist := rfl
  parent := rfl
  outside := by
    change ¬(isWithin .ascii nt emptyOutput [['s']] = true ∨
      isWithin .ascii nt (draftPath emptyOutput) [['s']] = true)
    cases nt <;> decide +kernel
  allowlist_outside := by
    change ¬isWithin .ascii nt [['l']] [['s']] = true
    cases nt <;> decide
  zip := by decide +kernel
  vacant := hvacant
  replaceable := by
    intro hpresent
    obtain ⟨file, hfile⟩ := Option.isSome_iff_exists.mp hpresent
    refine ⟨houtput hpresent, ?_⟩
    rw [emptySurroundings, hfile]
    rfl

/-- A builder of the two empty files is ready where no draft is in its way. -/
theorem ready_emptyDirectory {overwrite nt : Bool} {shelf : Shelf}
    (hvacant : shelf.draft = none) (houtput : shelf.output.isSome = true → overwrite = true) :
    Ready .ascii markedZlib emptyOutput (emptyArguments overwrite) nt (emptySurroundings shelf)
      shelf emptyFiles emptyFilesArchive where
  admissible := admissible_emptySurroundings hvacant houtput
  verifier := rfl
  selfTest := by decide +kernel
  parsed := parseAllowlist_emptyFiles
  checked := by
    change checkSource .ascii emptyFiles emptyDirectory = .ok ()
    decide +kernel
  oneFile := fun _ _ => ⟨rfl, rfl⟩
  built := writePartial_emptySource
  readable := rfl
  ordinary := by decide +kernel

/-- Two empty files are published in the place of what was there. -/
theorem main_publishes_emptyDirectory :
    ∃ report after, settled .ascii markedZlib emptySurroundings 0
        (main .ascii markedZlib emptyOutput (emptyArguments true) false)
          (.start (some ⟨[0], true⟩) none) = (.ok report, after) ∧
      report.entries = 2 ∧ after.output = some ⟨emptyFilesArchive, true⟩ := by
  have hready := @ready_emptyDirectory true false (.start (some ⟨[0], true⟩) none) rfl fun _ => rfl
  exact ⟨_, _, (main_publishes_iff inflate_markedZlib (apart_emptySurroundings _)).mpr
    ⟨_, _, hready, rfl, rfl⟩, rfl, rfl⟩

end Release

end Oasi
