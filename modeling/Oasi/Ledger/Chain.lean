import Oasi.Foundation.Acceptor
import Oasi.Ledger.LineBounds

/-! # What a ledger is

A ledger is a list of entries in which every entry continues the one before it:
its sequence number is the next one, its previous hash is the hash before it, its
own hash covers its canonical bytes, and nothing follows a seal. The counters
saturate where the verifier's do. The verifier accepts exactly the files that
consist of the lines of such a list, and the entries are determined by the file.
-/

namespace Oasi

/-- The fields of a seal over so many events. -/
structure LedgerEntry.Seals (entry : LedgerEntry) (eventEntries : UInt64) : Prop where
  event : entry.event = "LEDGER_SEAL"
  detail : entry.detail = "terminal seal"
  decision : entry.decision = Decision.allow.toU8
  count : entry.sealedEventCount = some eventEntries
  hash : entry.sealedEventHash = some entry.prevHash

/-- What the next entry depends on. -/
structure Cursor where
  entries : UInt64
  eventEntries : UInt64
  previousHash : UInt64
  sealSeen : Bool
  deriving DecidableEq, Repr

namespace Cursor

def start : Cursor := ⟨0, 0, 0, false⟩

def advance (cursor : Cursor) (entry : LedgerEntry) : Cursor where
  entries := saturatingSucc cursor.entries
  eventEntries :=
    match entry.kind with
    | .event => saturatingSucc cursor.eventEntries
    | .seal => cursor.eventEntries
  previousHash := entry.hash
  sealSeen := cursor.sealSeen || entry.kind == .seal

/-- The entry may stand next. -/
structure Continues (cursor : Cursor) (entry : LedgerEntry) : Prop where
  unsealed : cursor.sealSeen = false
  seq : entry.seq = saturatingSucc cursor.entries
  prevHash : entry.prevHash = cursor.previousHash
  hash : entry.expectedHash = .ok entry.hash
  shape : entry.WellShaped
  sealing : entry.kind = .seal → entry.Seals cursor.eventEntries

end Cursor

/-- The acceptor of ledgers. -/
def chain : Acceptor Cursor LedgerEntry where
  Admits := Cursor.Continues
  advance := Cursor.advance

/-- The file that holds these entries. -/
def ledgerFile (entries : List LedgerEntry) : Bytes := joinLines (entries.map LedgerEntry.line)

namespace LedgerEntry

theorem pushString_eq_ok {out result : Bytes} {value : String} {maximum : Nat}
    (h : pushString out value maximum = .ok result) : value.utf8ByteSize ≤ maximum := by
  unfold pushString at h
  split at h
  · cases h
  next hbound => exact Nat.not_lt.mp hbound

/-- Only entries within the bounds have a hash. -/
theorem bounded_of_expectedHash {entry : LedgerEntry} {hash : UInt64}
    (h : entry.expectedHash = .ok hash) : entry.Bounded := by
  unfold expectedHash canonicalBytes at h
  simp only [bind_eq_ok] at h
  obtain ⟨_, ⟨_, _, _, hevent, _, hdetail, _⟩, _⟩ := h
  exact ⟨pushString_eq_ok hevent, pushString_eq_ok hdetail⟩

/-- Different well-shaped entries have different lines. -/
theorem line_injective {first second : LedgerEntry} (hfirst : first.WellShaped)
    (hsecond : second.WellShaped) (h : first.line = second.line) : first = second := by
  obtain ⟨text, htext⟩ := first.exists_text
  have hparsed := parseEntry_line htext hfirst
  rw [parseEntry_line (htext.trans h) hsecond, Except.ok.injEq] at hparsed
  exact hparsed.symm

end LedgerEntry

namespace Verifier

/-- The part of the scan state that later entries are checked against. -/
def cursor (verifier : Verifier) : Cursor :=
  ⟨verifier.entries, verifier.eventEntries, verifier.previousHash, verifier.sealSeen⟩

/-- The same scan state with more defects reported. -/
def noting (verifier : Verifier) (issues : List LedgerIssue) : Verifier :=
  { verifier with errors := verifier.errors ++ issues }

/-- What one conditional report adds. -/
def issueIf (condition : Bool) (issue : LedgerIssue) : List LedgerIssue :=
  if condition then [issue] else []

@[simp] theorem issueIf_eq_nil {condition : Bool} {issue : LedgerIssue} :
    issueIf condition issue = [] ↔ condition = false := by
  cases condition <;> simp [issueIf]

theorem pushIf_eq (verifier : Verifier) (condition : Bool) (issue : LedgerIssue) :
    verifier.pushIf condition issue = verifier.noting (issueIf condition issue) := by
  cases condition <;> simp [pushIf, push, noting, issueIf]

@[simp] theorem noting_noting (verifier : Verifier) (first second : List LedgerIssue) :
    (verifier.noting first).noting second = verifier.noting (first ++ second) := by
  simp [noting]

/-- The encoding and sequence checks count the entry. -/
theorem checkSequence_eq (verifier : Verifier) (bytes : Bytes) (entry : LedgerEntry) :
    ∃ issues, verifier.checkSequence bytes entry =
        { verifier with entries := saturatingSucc verifier.entries }.noting issues ∧
      (issues = [] ↔ entry.line = bytes ∧ entry.seq = saturatingSucc verifier.entries ∧
        entry.prevHash = verifier.previousHash) := by
  let line := verifier.lineNumber
  refine ⟨issueIf (canonicalLine entry != bytes) (.nonCanonical line) ++
    issueIf (entry.seq != saturatingSucc verifier.entries)
      (.seqMismatch line entry.seq (saturatingSucc verifier.entries)) ++
    issueIf (entry.prevHash != verifier.previousHash)
      (.prevHashMismatch line entry.prevHash verifier.previousHash), ?_, ?_⟩
  · simp only [checkSequence, pushIf_eq, noting, List.append_assoc, line]
  · simp [LedgerEntry.canonicalLine_eq]

/-- The hash check reports nothing when the hash is the expected one. -/
theorem checkHash_eq (verifier : Verifier) (entry : LedgerEntry) :
    ∃ issues, verifier.checkHash entry = verifier.noting issues ∧
      (issues = [] ↔ entry.expectedHash = .ok entry.hash) := by
  unfold checkHash
  cases hexpected : entry.expectedHash with
  | ok expected =>
      refine ⟨_, pushIf_eq _ _ _, ?_⟩
      rw [issueIf_eq_nil, bne_eq_false_iff_eq, Except.ok.injEq, eq_comm]
  | error error =>
      exact ⟨[.canonicalization verifier.lineNumber error], rfl, by simp⟩

/-- The checks that depend on the kind. -/
theorem checkKind_eq (verifier : Verifier) (entry : LedgerEntry) :
    ∃ issues, verifier.checkKind entry =
        { verifier with
          eventEntries := (verifier.cursor.advance entry).eventEntries
          sealSeen := (verifier.cursor.advance entry).sealSeen }.noting issues ∧
      (issues = [] ↔ verifier.sealSeen = false ∧
        (entry.kind = .seal → entry.Seals verifier.eventEntries)) := by
  have hsealed : entry.Seals verifier.eventEntries ↔
      entry.event = "LEDGER_SEAL" ∧ entry.detail = "terminal seal" ∧
        entry.decision = Decision.allow.toU8 ∧
        entry.sealedEventCount = some verifier.eventEntries ∧
        entry.sealedEventHash = some entry.prevHash :=
    ⟨fun h => ⟨h.event, h.detail, h.decision, h.count, h.hash⟩,
      fun ⟨hevent, hdetail, hdecision, hcount, hhash⟩ =>
        ⟨hevent, hdetail, hdecision, hcount, hhash⟩⟩
  unfold checkKind
  cases hkind : entry.kind with
  | event =>
      refine ⟨issueIf verifier.sealSeen (.eventAfterSeal verifier.lineNumber), ?_, by simp⟩
      simp [pushIf_eq, noting, Cursor.advance, cursor, hkind]
  | «seal» =>
      let line := verifier.lineNumber
      refine ⟨issueIf verifier.sealSeen (.duplicateSeal line) ++
        issueIf (entry.event != "LEDGER_SEAL" || entry.detail != "terminal seal")
          (.invalidSealMarker line) ++
        issueIf (entry.decision != Decision.allow.toU8) (.sealDecision line) ++
        issueIf (entry.sealedEventCount != some verifier.eventEntries)
          (.sealedEventCount line verifier.eventEntries) ++
        issueIf (entry.sealedEventHash != some entry.prevHash) (.sealedEventHash line), ?_, ?_⟩
      · simp [pushIf_eq, noting, Cursor.advance, cursor, hkind, line]
      · simp [hsealed, and_assoc]

/-- The checks on one entry advance the cursor and report nothing exactly when
the entry continues the ledger and stands in its canonical encoding. -/
theorem checkEntry_eq (verifier : Verifier) (bytes : Bytes) {entry : LedgerEntry}
    (hshape : entry.WellShaped) :
    ∃ issues, (verifier.checkEntry bytes entry).errors = verifier.errors ++ issues ∧
      (issues = [] ↔ entry.line = bytes ∧ verifier.cursor.Continues entry) ∧
      (verifier.checkEntry bytes entry).cursor = verifier.cursor.advance entry := by
  obtain ⟨sequenceIssues, hcheckSequence, hsequence⟩ := checkSequence_eq verifier bytes entry
  obtain ⟨hashIssues, hcheckHash, hhash⟩ := checkHash_eq (verifier.checkSequence bytes entry) entry
  obtain ⟨kindIssues, hcheckKind, hkind⟩ :=
    checkKind_eq ((verifier.checkSequence bytes entry).checkHash entry) entry
  have hchecked : (verifier.checkSequence bytes entry).checkHash entry =
      { verifier with entries := saturatingSucc verifier.entries }.noting
        (sequenceIssues ++ hashIssues) := by
    rw [hcheckHash, hcheckSequence, noting_noting]
  rw [hchecked] at hcheckKind hkind
  refine ⟨sequenceIssues ++ hashIssues ++ kindIssues, ?_, ?_, ?_⟩
  · rw [checkEntry, hchecked, hcheckKind]
    simp [noting]
  · rw [List.append_eq_nil_iff, List.append_eq_nil_iff, hsequence, hhash, hkind]
    constructor
    · rintro ⟨⟨⟨hline, hseq, hprev⟩, hhash⟩, hunsealed, hseal⟩
      exact ⟨hline, hunsealed, hseq, hprev, hhash, hshape, hseal⟩
    · rintro ⟨hline, hcontinues⟩
      exact ⟨⟨⟨hline, hcontinues.seq, hcontinues.prevHash⟩, hcontinues.hash⟩,
        hcontinues.unsealed, hcontinues.sealing⟩
  · rw [checkEntry, hchecked, hcheckKind]
    simp [cursor, noting, Cursor.advance]

/-- The line of an entry reaches the entry checks. -/
theorem verifyLine_line (verifier : Verifier) {entry : LedgerEntry} (hshape : entry.WellShaped)
    (hbounded : entry.Bounded) :
    verifier.verifyLine (entry.line ++ [lf]) =
      .next ({ verifier with lineNumber := saturatingSucc verifier.lineNumber }.checkEntry
        entry.line entry) := by
  obtain ⟨text, htext⟩ := entry.exists_text
  have hutf8 : fromUtf8 entry.line = some text := fromUtf8_eq_some.mpr htext
  have hlength := LedgerEntry.length_line_lt hbounded
  have hfits : ¬(entry.line ++ [lf]).length > maxLineBytes := by
    rw [List.length_append, List.length_singleton]
    omega
  simp only [verifyLine, hfits, if_false, List.getLast?_concat, if_true, List.dropLast_concat,
    verifyContent, entry.line_not_blank, hutf8, LedgerEntry.parseEntry_line htext hshape,
    Bool.false_eq_true]

/-- Content that reports nothing is the line of an entry that continues the ledger. -/
theorem verifyContent_clean {verifier after : Verifier} {bytes : Bytes}
    (hcontent : verifier.verifyContent bytes = .next after) (hclean : after.errors = []) :
    verifier.errors = [] ∧ ∃ entry, entry.line = bytes ∧ verifier.cursor.Continues entry ∧
      after.cursor = verifier.cursor.advance entry := by
  unfold verifyContent at hcontent
  split at hcontent
  · cases hcontent
    simp [push] at hclean
  · split at hcontent
    · cases hcontent
    · split at hcontent
      · cases hcontent
      next entry hentry =>
        cases hcontent
        obtain ⟨issues, herrors, hissues, hcursor⟩ :=
          checkEntry_eq verifier bytes (LedgerEntry.parseEntry_wellShaped hentry)
        rw [herrors, List.append_eq_nil_iff] at hclean
        obtain ⟨hline, hcontinues⟩ := hissues.mp hclean.2
        exact ⟨hclean.1, entry, hline, hcontinues, hcursor⟩

theorem verifyContent_stop {verifier after : Verifier} {bytes : Bytes}
    (hcontent : verifier.verifyContent bytes = .stop after) : after.errors ≠ [] := by
  unfold verifyContent at hcontent
  split at hcontent
  · cases hcontent
  · split at hcontent
    · cases hcontent
      simp [push]
    · split at hcontent
      · cases hcontent
        simp [push]
      · cases hcontent

/-- A line that reports nothing is the line of an entry that continues the ledger. -/
theorem verifyLine_clean {verifier after : Verifier} {raw : Bytes}
    (hline : verifier.verifyLine raw = .next after) (hclean : after.errors = []) :
    verifier.errors = [] ∧ ∃ entry, raw = entry.line ++ [lf] ∧ verifier.cursor.Continues entry ∧
      after.cursor = verifier.cursor.advance entry := by
  unfold verifyLine at hline
  dsimp only at hline
  split at hline
  · cases hline
  · split at hline
    next hterminated =>
      obtain ⟨hverifier, entry, hentry, hcontinues, hcursor⟩ := verifyContent_clean hline hclean
      refine ⟨hverifier, entry, ?_, hcontinues, hcursor⟩
      rw [hentry]
      exact (List.dropLast_append_getLast? lf hterminated).symm
    · have herrors := (verifyContent_clean hline hclean).1
      simp [push] at herrors

/-- A line that ends the scan is reported. -/
theorem verifyLine_stop {verifier after : Verifier} {raw : Bytes}
    (hline : verifier.verifyLine raw = .stop after) : after.errors ≠ [] := by
  unfold verifyLine at hline
  dsimp only at hline
  split at hline
  · cases hline
    simp [push]
  · split at hline
    · exact verifyContent_stop hline
    · exact verifyContent_stop hline

/-- The scan of a file of entries that form a ledger reports nothing. -/
theorem verifyLoop_ledgerFile {verifier : Verifier} {entries : List LedgerEntry}
    (hclean : verifier.errors = []) (haccepts : chain.Accepts verifier.cursor entries) :
    (verifier.verifyLoop (ledgerFile entries)).errors = [] ∧
      (verifier.verifyLoop (ledgerFile entries)).cursor = chain.reach verifier.cursor entries := by
  induction entries generalizing verifier with
  | nil =>
      rw [ledgerFile, List.map_nil, joinLines_nil, verifyLoop]
      exact ⟨hclean, rfl⟩
  | cons entry entries ih =>
      obtain ⟨hcontinues, hrest⟩ := haccepts
      have hbounded := LedgerEntry.bounded_of_expectedHash hcontinues.hash
      obtain ⟨issues, herrors, hissues, hcursor⟩ := checkEntry_eq
        { verifier with lineNumber := saturatingSucc verifier.lineNumber } entry.line
        hcontinues.shape
      rw [hissues.mpr ⟨rfl, hcontinues⟩, List.append_nil] at herrors
      -- one round reads one line, which parses back to its entry
      have hfile : ledgerFile (entry :: entries) = entry.line ++ lf :: ledgerFile entries :=
        joinLines_cons _ _
      rw [hfile, verifyLoop, dif_neg (by simp),
        readUntil_append_delimiter _ entry.lf_not_mem_line,
        verifyLine_line _ hcontinues.shape hbounded]
      have hrun := ih (herrors.trans hclean) (hcursor ▸ hrest)
      rw [hcursor] at hrun
      exact hrun

/-- Only files of entries that form a ledger are scanned without a report. -/
theorem verifyLoop_clean {verifier : Verifier} {stream : Bytes}
    (hclean : (verifier.verifyLoop stream).errors = []) :
    verifier.errors = [] ∧ ∃ entries, stream = ledgerFile entries ∧
      chain.Accepts verifier.cursor entries := by
  induction verifier, stream using verifyLoop.induct with
  | case1 verifier =>
      rw [verifyLoop, dif_pos rfl] at hclean
      exact ⟨hclean, [], rfl, trivial⟩
  -- a scan that stops at a line has reported it
  | case2 verifier stream hstream after hline =>
      rw [verifyLoop, dif_neg hstream, hline] at hclean
      exact absurd hclean (verifyLine_stop hline)
  -- the entry of the line continues the cursor, and the rest was scanned from there
  | case3 verifier stream hstream after hline ih =>
      rw [verifyLoop, dif_neg hstream, hline] at hclean
      obtain ⟨hafter, entries, hrest, haccepts⟩ := ih hclean
      obtain ⟨hverifier, entry, hraw, hcontinues, hcursor⟩ := verifyLine_clean hline hafter
      rw [hcursor] at haccepts
      refine ⟨hverifier, entry :: entries, ?_, hcontinues, haccepts⟩
      have hfile : ledgerFile (entry :: entries) = entry.line ++ lf :: ledgerFile entries :=
        joinLines_cons _ _
      rw [hfile, ← readUntil_append lf stream, hraw, hrest, List.append_assoc,
        List.singleton_append]

end Verifier

/-! ## Acceptance -/

/-- What a scan reports in the end. -/
theorem Verifier.report_eq (verifier : Verifier) :
    verifier.report =
      { entries := verifier.cursor.entries, eventEntries := verifier.cursor.eventEntries,
        finalHash := verifier.cursor.previousHash,
        errors := verifier.errors ++ (issueIf (verifier.cursor.entries == 0) .ledgerEmpty ++
          issueIf (!verifier.cursor.sealSeen) .sealMissing) } := by
  simp only [Verifier.report, pushIf_eq, noting, cursor, List.append_assoc]

/-- The report on a file of entries that form a ledger. -/
theorem verifyReader_ledgerFile {entries : List LedgerEntry}
    (haccepts : chain.Accepts .start entries) :
    verifyReader (ledgerFile entries) =
      { entries := (chain.reach .start entries).entries
        eventEntries := (chain.reach .start entries).eventEntries
        finalHash := (chain.reach .start entries).previousHash
        errors := Verifier.issueIf ((chain.reach .start entries).entries == 0) .ledgerEmpty ++
          Verifier.issueIf (!(chain.reach .start entries).sealSeen) .sealMissing } := by
  obtain ⟨hclean, hcursor⟩ :=
    @Verifier.verifyLoop_ledgerFile Verifier.initial entries rfl haccepts
  have hstart : Verifier.initial.cursor = Cursor.start := rfl
  rw [verifyReader, Verifier.report_eq, hclean, hcursor, hstart, List.nil_append]

theorem advance_entries_ne_zero (cursor : Cursor) (entry : LedgerEntry) :
    (cursor.advance entry).entries ≠ 0 := by
  intro hzero
  have hnat := congrArg UInt64.toNat hzero
  rw [Cursor.advance, toNat_saturatingSucc] at hnat
  simp only [UInt64.size, UInt64.reduceToNat] at hnat
  omega

theorem reach_entries_ne_zero {cursor : Cursor} {entries : List LedgerEntry} (h : entries ≠ []) :
    (chain.reach cursor entries).entries ≠ 0 := by
  obtain ⟨front, last, rfl⟩ := entries.eq_nil_or_concat.resolve_left h
  rw [List.concat_eq_append, chain.reach_concat]
  exact advance_entries_ne_zero _ last

/-- The verifier accepts exactly the files of sealed ledgers. -/
theorem verifyReader_passed_iff {stream : Bytes} :
    (verifyReader stream).passed = true ↔
      ∃ entries, stream = ledgerFile entries ∧ chain.Accepts .start entries ∧
        (chain.reach .start entries).sealSeen = true := by
  constructor
  · intro hpassed
    rw [VerificationReport.passed, Bool.and_eq_true, List.isEmpty_iff, verifyReader,
      Verifier.report_eq] at hpassed
    obtain ⟨hreported, _⟩ := hpassed
    rw [List.append_eq_nil_iff, List.append_eq_nil_iff] at hreported
    obtain ⟨hscan, _, hsealed⟩ := hreported
    obtain ⟨_, entries, hstream, haccepts⟩ := Verifier.verifyLoop_clean hscan
    refine ⟨entries, hstream, haccepts, ?_⟩
    have hcursor := (@Verifier.verifyLoop_ledgerFile Verifier.initial entries rfl haccepts).2
    rw [hstream, hcursor, Verifier.issueIf_eq_nil, Bool.not_eq_false'] at hsealed
    exact hsealed
  · rintro ⟨entries, rfl, haccepts, hsealed⟩
    -- a seal was seen, so there are entries
    have hnonempty : entries ≠ [] := by
      rintro rfl
      cases hsealed
    have hentries := @reach_entries_ne_zero .start entries hnonempty
    rw [verifyReader_ledgerFile haccepts]
    simp only [VerificationReport.passed, hsealed, Bool.and_eq_true, decide_eq_true_eq]
    refine ⟨by simp [hentries, Verifier.issueIf], ?_⟩
    exact UInt64.pos_iff_ne_zero.mpr hentries

theorem wellShaped_of_accepts {cursor : Cursor} {entries : List LedgerEntry}
    (haccepts : chain.Accepts cursor entries) : ∀ entry ∈ entries, entry.WellShaped := by
  induction entries generalizing cursor with
  | nil => simp
  | cons entry rest ih =>
      intro other hother
      rcases List.mem_cons.mp hother with rfl | hother
      · exact haccepts.1.shape
      · exact ih haccepts.2 other hother

/-- Two neighbours of a ledger have different sequence numbers below saturation. -/
theorem seq_ne_of_accepts {cursor : Cursor} {front rest : List LedgerEntry}
    {first second : LedgerEntry}
    (haccepts : chain.Accepts cursor (front ++ first :: second :: rest))
    (hbound : first.seq.toNat + 1 < UInt64.size) : first.seq ≠ second.seq := by
  obtain ⟨_, hfirst, hsecond, _⟩ := chain.accepts_append.mp haccepts
  have hseq : second.seq = saturatingSucc first.seq := by
    rw [hsecond.seq, hfirst.seq]
    rfl
  intro heq
  have hnat := congrArg UInt64.toNat (heq.trans hseq)
  rw [toNat_saturatingSucc] at hnat
  omega

/-- Lines have one reading as entries. -/
theorem map_line_injective {first second : List LedgerEntry}
    (hfirst : ∀ entry ∈ first, entry.WellShaped) (hsecond : ∀ entry ∈ second, entry.WellShaped)
    (h : first.map LedgerEntry.line = second.map LedgerEntry.line) : first = second := by
  induction first generalizing second with
  | nil => exact (List.map_eq_nil_iff.mp h.symm).symm
  | cons entry rest ih =>
      cases second with
      | nil => cases h
      | cons other others =>
          rw [List.map_cons, List.map_cons, List.cons.injEq] at h
          rw [LedgerEntry.line_injective (hfirst entry List.mem_cons_self)
              (hsecond other List.mem_cons_self) h.1,
            ih (fun x hx => hfirst x (List.mem_cons_of_mem _ hx))
              (fun x hx => hsecond x (List.mem_cons_of_mem _ hx)) h.2]

theorem lf_not_mem_map_line {entries : List LedgerEntry} :
    ∀ line ∈ entries.map LedgerEntry.line, lf ∉ line := by
  intro line hline
  obtain ⟨entry, _, rfl⟩ := List.mem_map.mp hline
  exact entry.lf_not_mem_line

/-- A file has one reading as a ledger. -/
theorem ledgerFile_injective {first second : List LedgerEntry}
    (hfirst : ∀ entry ∈ first, entry.WellShaped) (hsecond : ∀ entry ∈ second, entry.WellShaped)
    (h : ledgerFile first = ledgerFile second) : first = second :=
  map_line_injective hfirst hsecond (joinLines_injective lf_not_mem_map_line lf_not_mem_map_line h)

end Oasi
