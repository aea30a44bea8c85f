import Oasi.Ledger.Tampering

/-! # Recovery of a sealed prefix

An interrupted append leaves a torn fragment behind the last LF. Recovery cuts the
file there, but only when what stays is a sealed ledger; otherwise the file is left
alone. A sealed ledger is therefore restored from every torn tail, and no crash cut
inside it is ever promoted.
-/

namespace Oasi

/-- Failures of a recovery whose file operations succeed. -/
inductive RecoveryError where
  /-- `no complete ledger line` -/
  | noCompleteLine
  /-- `no verified sealed prefix: {errors}` -/
  | noSealedPrefix (errors : List LedgerIssue)
  deriving DecidableEq, Repr

/-- `iter().rposition`: the last place of a byte. -/
def rposition (byte : UInt8) : Bytes → Option Nat
  | [] => none
  | head :: rest =>
      match rposition byte rest with
      | some position => some (position + 1)
      | none => if head = byte then some 0 else none

/-- `File::set_len`: cut off, or padded with zeros. -/
def setLen (file : Bytes) (length : Nat) : Bytes :=
  file.take length ++ List.replicate (length - file.length) 0

/-- The result of `recover_valid_prefix` on a file, and the file afterwards. -/
def recoverValidPrefix (file : Bytes) : Except RecoveryError VerificationReport × Bytes :=
  match (rposition lf file).map (· + 1) with
  | none => (.error .noCompleteLine, file)
  | some prefixLen =>
      let report := verifyReader (file.take prefixLen)
      if report.passed = false then (.error (.noSealedPrefix report.errors), file)
      else if prefixLen ≠ file.length then (.ok report, setLen file prefixLen)
      else (.ok report, file)

/-- The part of a file up to and including its last LF. -/
def completeLines (file : Bytes) : Bytes := (file.reverse.dropWhile (· ≠ lf)).reverse

/-! ## The cut -/

section Cut

variable {front fragment : Bytes}

theorem completeLines_append (hfragment : lf ∉ fragment) :
    completeLines (front ++ lf :: fragment) = front ++ [lf] := by
  have hdropped : (front ++ lf :: fragment).reverse.dropWhile (· ≠ lf) = lf :: front.reverse := by
    rw [List.reverse_append, List.reverse_cons, List.append_assoc,
      List.dropWhile_append_of_pos (by
        intro byte hbyte
        rw [List.mem_reverse] at hbyte
        simpa using fun heq : byte = lf => hfragment (heq ▸ hbyte))]
    simp
  rw [completeLines, hdropped, List.reverse_cons, List.reverse_reverse]

theorem rposition_of_not_mem {byte : UInt8} (h : byte ∉ fragment) :
    rposition byte fragment = none := by
  induction fragment with
  | nil => rfl
  | cons head rest ih =>
      rw [List.mem_cons, not_or] at h
      rw [rposition, ih h.2, if_neg (Ne.symm h.1)]

theorem rposition_append {byte : UInt8} (hfragment : byte ∉ fragment) :
    rposition byte (front ++ byte :: fragment) = some front.length := by
  induction front with
  | nil => rw [List.nil_append, rposition, rposition_of_not_mem hfragment, if_pos rfl]; rfl
  | cons head rest ih => rw [List.cons_append, rposition, ih, List.length_cons]

/-- A file without an LF has no complete line; any other has one last LF. -/
theorem exists_fragment {file : Bytes} (h : lf ∈ file) :
    ∃ front fragment, lf ∉ fragment ∧ file = front ++ lf :: fragment := by
  obtain ⟨fragment, front, hfragment, hfile⟩ := exists_line_of_mem (List.mem_reverse.mpr h)
  refine ⟨front.reverse, fragment.reverse, by simpa using hfragment, ?_⟩
  rw [← List.reverse_reverse file, hfile]
  simp

theorem recoverValidPrefix_of_not_mem {file : Bytes} (h : lf ∉ file) :
    recoverValidPrefix file = (.error .noCompleteLine, file) := by
  rw [recoverValidPrefix, rposition_of_not_mem h]
  rfl

theorem take_complete : (front ++ lf :: fragment).take (front.length + 1) = front ++ [lf] := by
  rw [List.take_length_add_append]
  rfl

theorem recoverValidPrefix_unsealed (hfragment : lf ∉ fragment)
    (hfailed : (verifyReader (front ++ [lf])).passed = false) :
    recoverValidPrefix (front ++ lf :: fragment) =
      (.error (.noSealedPrefix (verifyReader (front ++ [lf])).errors),
        front ++ lf :: fragment) := by
  rw [recoverValidPrefix, rposition_append hfragment]
  simp only [Option.map_some, take_complete, hfailed, if_true]

theorem recoverValidPrefix_sealed (hfragment : lf ∉ fragment)
    (hpassed : (verifyReader (front ++ [lf])).passed = true) :
    recoverValidPrefix (front ++ lf :: fragment) =
      (.ok (verifyReader (front ++ [lf])), front ++ [lf]) := by
  rw [recoverValidPrefix, rposition_append hfragment]
  simp only [Option.map_some, take_complete, hpassed, Bool.true_eq_false, if_false, setLen,
    List.length_append, List.length_cons]
  cases fragment with
  | nil => simp
  | cons byte rest =>
      have hlonger : front.length + 1 ≠ front.length + ((byte :: rest).length + 1) := by simp
      have hpad : front.length + 1 - (front.length + ((byte :: rest).length + 1)) = 0 := by omega
      rw [if_pos hlonger, hpad, List.replicate_zero, List.append_nil]

end Cut

/-! ## What a recovery does -/

section Recovery

variable {file after ledger : Bytes} {report : VerificationReport}

/-- A sealed ledger ends with an LF. -/
theorem exists_front_of_passed (h : (verifyReader ledger).passed = true) :
    ∃ front, ledger = front ++ [lf] := by
  obtain ⟨entries, rfl, _, hsealed⟩ := verifyReader_passed_iff.mp h
  rcases joinLines_eq_nil_or_concat (entries.map LedgerEntry.line) with hempty | hfront
  · have hentries : entries = [] := List.map_eq_nil_iff.mp (joinLines_eq_nil.mp hempty)
    rw [hentries] at hsealed
    cases hsealed
  · exact hfront

theorem recovers_iff_passed :
    (∃ report, (recoverValidPrefix file).1 = .ok report) ↔
      lf ∈ file ∧ (verifyReader (completeLines file)).passed = true := by
  by_cases hfile : lf ∈ file
  · obtain ⟨front, fragment, hfragment, rfl⟩ := exists_fragment hfile
    rw [completeLines_append hfragment]
    cases hpassed : (verifyReader (front ++ [lf])).passed with
    | true => simp [recoverValidPrefix_sealed hfragment hpassed]
    | false => simp [recoverValidPrefix_unsealed hfragment hpassed]
  · simp [recoverValidPrefix_of_not_mem hfile, hfile]

theorem kept_of_recovered (h : (recoverValidPrefix file).1 = .ok report) :
    (recoverValidPrefix file).2 = completeLines file ∧
      report = verifyReader (completeLines file) := by
  obtain ⟨hfile, hpassed⟩ := recovers_iff_passed.mp ⟨report, h⟩
  obtain ⟨front, fragment, hfragment, rfl⟩ := exists_fragment hfile
  rw [completeLines_append hfragment] at hpassed ⊢
  rw [recoverValidPrefix_sealed hfragment hpassed] at h ⊢
  exact ⟨rfl, (Except.ok.inj h).symm⟩

theorem unchanged_of_failed {error : RecoveryError}
    (h : (recoverValidPrefix file).1 = .error error) : (recoverValidPrefix file).2 = file := by
  by_cases hfile : lf ∈ file
  · obtain ⟨front, fragment, hfragment, rfl⟩ := exists_fragment hfile
    cases hpassed : (verifyReader (front ++ [lf])).passed with
    | true =>
        rw [recoverValidPrefix_sealed hfragment hpassed] at h
        cases h
    | false => rw [recoverValidPrefix_unsealed hfragment hpassed]
  · rw [recoverValidPrefix_of_not_mem hfile]

/-- Every torn tail is cut off a sealed ledger. -/
theorem recovered_of_torn {fragment : Bytes} (hledger : (verifyReader ledger).passed = true)
    (hfragment : lf ∉ fragment) :
    recoverValidPrefix (ledger ++ fragment) = (.ok (verifyReader ledger), ledger) := by
  obtain ⟨front, rfl⟩ := exists_front_of_passed hledger
  rw [List.append_assoc, List.singleton_append, recoverValidPrefix_sealed hfragment hledger]

/-- A cut inside a sealed ledger leaves no sealed ledger. -/
theorem not_passed_of_cut {cut : Bytes} (hledger : (verifyReader ledger).passed = true)
    (hcut : cut <+: ledger) (hproper : cut ≠ ledger) (hlf : lf ∈ cut) :
    (verifyReader (completeLines cut)).passed = false := by
  obtain ⟨front, fragment, hfragment, rfl⟩ := exists_fragment hlf
  rw [completeLines_append hfragment]
  apply Bool.eq_false_iff.mpr
  intro hpassed
  have hfront : front ++ [lf] <+: front ++ lf :: fragment := ⟨fragment, by simp⟩
  have heq := eq_of_passed_front hpassed hledger (hfront.trans hcut)
  -- the cut would lie between the ledger and itself
  rw [heq] at hfront
  exact hproper (hcut.eq_of_length_le hfront.length_le)

end Recovery

/-- Recovery succeeds exactly when the complete lines of the file are a sealed
ledger, keeps exactly these lines, and leaves every other file alone. -/
theorem recoverValidPrefix_spec :
    (∀ file, (∃ report, (recoverValidPrefix file).1 = .ok report) ↔
      lf ∈ file ∧ (verifyReader (completeLines file)).passed = true) ∧
    (∀ file report, (recoverValidPrefix file).1 = .ok report →
      (recoverValidPrefix file).2 = completeLines file ∧
        report = verifyReader (completeLines file)) ∧
    (∀ file error, (recoverValidPrefix file).1 = .error error →
      (recoverValidPrefix file).2 = file) ∧
    (∀ ledger fragment, (verifyReader ledger).passed = true → lf ∉ fragment →
      recoverValidPrefix (ledger ++ fragment) = (.ok (verifyReader ledger), ledger)) ∧
    (∀ ledger cut, (verifyReader ledger).passed = true → cut <+: ledger → cut ≠ ledger →
      ∃ error, recoverValidPrefix cut = (.error error, cut)) ∧
    ∀ file report after, recoverValidPrefix file = (.ok report, after) →
      recoverValidPrefix after = (.ok report, after) := by
  refine ⟨fun _ => recovers_iff_passed, fun _ _ => kept_of_recovered,
    fun _ _ => unchanged_of_failed, fun _ _ => recovered_of_torn, ?_, ?_⟩
  · intro ledger cut hledger hcut hproper
    cases hresult : (recoverValidPrefix cut).1 with
    | ok report =>
        obtain ⟨hlf, hpassed⟩ := recovers_iff_passed.mp ⟨report, hresult⟩
        rw [not_passed_of_cut hledger hcut hproper hlf] at hpassed
        cases hpassed
    | error error => exact ⟨error, Prod.ext hresult (unchanged_of_failed hresult)⟩
  · intro file report after h
    have hresult : (recoverValidPrefix file).1 = .ok report := congrArg Prod.fst h
    obtain ⟨hkept, hreport⟩ := kept_of_recovered hresult
    rw [h] at hkept
    have hpassed := (recovers_iff_passed.mp ⟨report, hresult⟩).2
    have hagain := recovered_of_torn hpassed List.not_mem_nil
    rw [List.append_nil] at hagain
    rw [show after = completeLines file from hkept, hagain, hreport]

theorem recoverValidPrefix_spec_boot :
    recoverValidPrefix (ledgerFile Ledger.bootEntries ++ [123, 34]) =
      (.ok (verifyReader (ledgerFile Ledger.bootEntries)), ledgerFile Ledger.bootEntries) := by
  have hpassed : (verifyReader (ledgerFile Ledger.bootEntries)).passed = true :=
    verifyReader_passed_iff.mpr ⟨_, rfl, Ledger.accepts_bootEntries, rfl⟩
  exact recoverValidPrefix_spec.2.2.2.1 _ [123, 34] hpassed (by decide)

end Oasi
