import Oasi.Release.AllowlistCanonical
import Oasi.Release.SourceAgreement

/-! # One run of the verifier

`main` parses the allowlist, inspects the source where one is given and verifies each
archive. The run passes when none of these records an error.
-/

namespace Oasi

namespace Release

namespace Verifier

/-- The errors that are not those of one archive. -/
inductive GlobalError where
  /-- `canonical mode self-test failed: {name}` -/
  | selfTest (name : Text)
  | source (error : SourceError)
  /-- `source verification skipped because allowlist is invalid` -/
  | skipped
  deriving DecidableEq, Repr

/-- What is printed, as far as it depends on the checks. -/
structure Report where
  errors : List GlobalError
  archives : List (List ArchiveError)
  passed : Bool
  deriving DecidableEq, Repr

/-- What no handler catches. -/
inductive Uncaught where
  /-- `ValueError` -/
  | valueError
  | python (error : PyError)
  deriving DecidableEq, Repr

def selfTestCases : List (Text × Nat) :=
  ([("tools/run.py", 0o755), ("tools/run.sh", 0o755), ("tools/RUN.PY", 0o755),
    ("README.md", 0o644), ("record.json", 0o644), ("notes/x.py.txt", 0o644)]).map
      fun case => (case.1.toList, case.2)

def permissionPolicySelfTest (unicode : UnicodeData) : List GlobalError :=
  (selfTestCases.filter fun case => canonicalMode unicode case.1 ≠ case.2).map
    fun case => .selfTest case.1

/-- The mapping and what is wrong with the allowlist; an empty mapping where it is invalid. -/
def readExpected (unicode : UnicodeData) (allowlist : PathState) :
    Except Uncaught (Mapping × List GlobalError) :=
  match parseAllowlist unicode allowlist with
  | .ok expected => .ok (expected, [])
  | .error (.boundary error) => .ok ([], [.source (.boundary error)])
  | .error .integerTooLong => .error .valueError

def inspectGiven (unicode : UnicodeData) (expected : Mapping) :
    Option SourceDirectory → List GlobalError
  | none => []
  | some source =>
      if expected = [] then [.skipped] else (inspectSource unicode expected source).map .source

def verifyArchives (unicode : UnicodeData) (zlib : Zlib) (expected : Mapping)
    (archives : List PathState) : Except Uncaught (List (List ArchiveError)) :=
  if expected = [] then .ok []
  else archives.mapM fun archive =>
    (verifyArchive unicode zlib expected archive).mapError .python

/-- `main`, up to the printing of its report. -/
def main (unicode : UnicodeData) (zlib : Zlib) (archives : List PathState)
    (allowlist : PathState) (source : Option SourceDirectory) : Except Uncaught Report := do
  let (expected, allowlistErrors) ← readExpected unicode allowlist
  let errors :=
    permissionPolicySelfTest unicode ++ (allowlistErrors ++ inspectGiven unicode expected source)
  let results ← verifyArchives unicode zlib expected archives
  return ⟨errors, results, errors = [] ∧ results ≠ [] ∧ ∀ result ∈ results, result = []⟩

/-! ## The process -/

/-- What is left of a verifier process: its exit status, and what it has printed. -/
structure Completed where
  returncode : Nat
  /-- `none` where it is not JSON. -/
  result : Option Report
  deriving DecidableEq, Repr

def run (unicode : UnicodeData) (zlib : Zlib) (archives : List PathState)
    (allowlist : PathState) (source : Option SourceDirectory) : Completed :=
  match main unicode zlib archives allowlist source with
  | .ok report => ⟨if report.passed then 0 else 1, some report⟩
  -- the traceback goes to the other stream
  | .error _ => ⟨1, none⟩

variable {unicode : UnicodeData} {zlib : Zlib} {archives : List PathState}
  {allowlist : PathState} {source : Option SourceDirectory}

/-- What makes a run pass. -/
structure Passes (unicode : UnicodeData) (zlib : Zlib) (archives : List PathState)
    (allowlist : PathState) (source : Option SourceDirectory) (expected : Mapping) : Prop where
  selfTest : permissionPolicySelfTest unicode = []
  parsed : parseAllowlist unicode allowlist = .ok expected
  inspected : ∀ directory, source = some directory → inspectSource unicode expected directory = []
  given : archives ≠ []
  verified : ∀ archive ∈ archives, verifyArchive unicode zlib expected archive = .ok []

/-- Checks that record nothing leave one empty list each. -/
theorem mapM_eq_ok_nils {α ε μ : Type} {check : α → Except ε (List μ)} {elements : List α}
    {results : List (List μ)} :
    (elements.mapM check = .ok results ∧ ∀ result ∈ results, result = []) ↔
      (∀ element ∈ elements, check element = .ok []) ∧
        results = List.replicate elements.length [] := by
  induction elements generalizing results with
  | nil =>
      constructor
      · rintro ⟨hresults, _⟩
        cases hresults
        simp
      · rintro ⟨_, rfl⟩
        exact ⟨rfl, by simp⟩
  | cons element elements ih =>
      rw [List.mapM_cons, bind_eq_ok, List.forall_mem_cons, List.length_cons, List.replicate_succ]
      constructor
      · rintro ⟨⟨first, hfirst, hrest⟩, hnils⟩
        obtain ⟨others, hothers, hresults⟩ := bind_eq_ok.mp hrest
        cases hresults
        obtain ⟨rfl, hlater⟩ := List.forall_mem_cons.mp hnils
        obtain ⟨hall, rfl⟩ := ih.mp ⟨hothers, hlater⟩
        exact ⟨⟨hfirst, hall⟩, rfl⟩
      · rintro ⟨⟨hfirst, hall⟩, rfl⟩
        obtain ⟨hothers, hnils⟩ := ih.mpr ⟨hall, rfl⟩
        refine ⟨⟨[], hfirst, bind_eq_ok.mpr ⟨_, hothers, rfl⟩⟩, ?_⟩
        exact List.forall_mem_cons.mpr ⟨rfl, hnils⟩

theorem nonempty_of_parse {expected : Mapping}
    (h : parseAllowlist unicode allowlist = .ok expected) : expected ≠ [] :=
  (listing_of_parseAllowlist h).nonempty

theorem readExpected_eq_ok {expected : Mapping} :
    readExpected unicode allowlist = .ok (expected, []) ↔
      parseAllowlist unicode allowlist = .ok expected := by
  unfold readExpected
  split
  next hparsed => simp [hparsed]
  next hparsed => simp [hparsed]
  next hparsed => simp [hparsed]

theorem inspectGiven_eq_nil {expected : Mapping} (hexpected : expected ≠ []) :
    inspectGiven unicode expected source = [] ↔
      ∀ directory, source = some directory → inspectSource unicode expected directory = [] := by
  cases source with
  | none => simp [inspectGiven]
  | some directory => simp [inspectGiven, hexpected]

/-- The report of a run that passes. -/
def cleanReport (count : Nat) : Report := ⟨[], List.replicate count [], true⟩

theorem main_eq_ok {expected : Mapping}
    (h : Passes unicode zlib archives allowlist source expected) :
    main unicode zlib archives allowlist source = .ok (cleanReport archives.length) := by
  have hnonempty := nonempty_of_parse h.parsed
  obtain ⟨harchives, _⟩ := mapM_eq_ok_nils.mpr ⟨fun archive harchive =>
    mapError_eq_ok.mpr (h.verified archive harchive), rfl⟩
  unfold main
  rw [readExpected_eq_ok.mpr h.parsed, ok_bind]
  dsimp only
  rw [verifyArchives, if_neg hnonempty, harchives, ok_bind, h.selfTest,
    (inspectGiven_eq_nil hnonempty).mpr h.inspected]
  have hgiven : archives.length ≠ 0 := fun hlength => h.given (List.length_eq_zero_iff.mp hlength)
  simp [cleanReport, hgiven, pure, Except.pure]

/-- The exit status says whether everything was in order. -/
theorem returncode_eq_zero :
    (run unicode zlib archives allowlist source).returncode = 0 ↔
      ∃ expected, Passes unicode zlib archives allowlist source expected := by
  constructor
  · intro h
    unfold run at h
    split at h
    next report hmain =>
      have hpassed : report.passed = true := by
        by_contra hfailed
        rw [if_neg hfailed] at h
        cases h
      unfold main at hmain
      obtain ⟨⟨expected, errors⟩, hread, hmain⟩ := bind_eq_ok.mp hmain
      obtain ⟨results, hresults, hmain⟩ := bind_eq_ok.mp hmain
      cases hmain
      simp only [decide_eq_true_eq, List.append_eq_nil_iff] at hpassed
      obtain ⟨⟨hselfTest, rfl, hinspected⟩, hnonempty, hnils⟩ := hpassed
      have hparsed := readExpected_eq_ok.mp hread
      have hexpected := nonempty_of_parse hparsed
      rw [verifyArchives, if_neg hexpected] at hresults
      obtain ⟨hverified, rfl⟩ := mapM_eq_ok_nils.mp ⟨hresults, hnils⟩
      refine ⟨expected, hselfTest, hparsed, (inspectGiven_eq_nil hexpected).mp hinspected, ?_, ?_⟩
      · rintro rfl
        exact hnonempty rfl
      · exact fun archive harchive => mapError_eq_ok.mp (hverified archive harchive)
    next => cases h
  · rintro ⟨expected, h⟩
    rw [run, main_eq_ok h]
    rfl

end Verifier

end Release

end Oasi
