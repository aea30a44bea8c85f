import Oasi.Ledger.WriterRun

/-! # Which accepted ledgers can be written

The writer refuses two things the verifier lets pass: a seal over no event, and a
sequence number beyond the 64-bit range, where the verifier's counters saturate.
Every other accepted file is the output of one record call for each event and one
seal call.
-/

namespace Oasi

namespace LedgerEntry

/-- The lease that the eight optional fields stand for. -/
theorem exists_lease {entry : LedgerEntry} (hshape : entry.WellShaped) :
    ∃ lease : Option SafetyLease, entry.leasePresent = lease.isSome ∧
      entry.leaseBodyUid = lease.map (·.bodyUid) ∧ entry.leaseEpoch = lease.map (·.epoch) ∧
      entry.leaseGeneration = lease.map (·.generation) ∧
      entry.leaseCertificate = lease.map (·.certificate) ∧
      entry.leaseValidUntilNs = lease.map (·.validUntilNs) ∧
      entry.leasePrincipalId = lease.map (·.principalId) ∧
      entry.leaseResourceId = lease.map (·.resourceId) ∧
      entry.leaseActionId = lease.map (·.actionId) := by
  have hlease := hshape.lease
  cases hpresent : entry.leasePresent with
  | false =>
      refine ⟨none, ?_⟩
      simpa [checkLease, leaseValues, hpresent] using hlease
  | true =>
      simp only [checkLease, leaseValues, hpresent, List.any_cons, List.any_nil, Bool.or_false,
        ite_eq_right_iff, reduceCtorEq, imp_false, true_and, Bool.not_eq_true, Bool.or_eq_false_iff,
        Option.isNone_eq_false_iff, Option.isSome_iff_exists, Bool.true_eq_false, false_and,
        if_false] at hlease
      obtain ⟨⟨bodyUid, huid⟩, ⟨epoch, hepoch⟩, ⟨generation, hgeneration⟩,
        ⟨certificate, hcertificate⟩, ⟨validUntilNs, huntil⟩, ⟨principalId, hprincipal⟩,
        ⟨resourceId, hresource⟩, ⟨actionId, haction⟩⟩ := hlease
      exact ⟨some ⟨bodyUid, epoch, generation, certificate, validUntilNs, principalId, resourceId,
        actionId⟩, rfl, huid, hepoch, hgeneration, hcertificate, huntil, hprincipal, hresource,
        haction⟩

/-- A well-shaped entry is the entry of a snapshot. -/
theorem exists_snapshot {entry : LedgerEntry} (hshape : entry.WellShaped) :
    ∃ decision body lease, { unhashed {
        kind := entry.kind, seq := entry.seq, event := entry.event, detail := entry.detail
        decision := decision, body := body, lease := lease
        sealedEventCount := entry.sealedEventCount, sealedEventHash := entry.sealedEventHash
        prevHash := entry.prevHash } with hash := entry.hash } = entry := by
  obtain ⟨decision, hdecision⟩ := Decision.exists_toU8 hshape.decision
  obtain ⟨lease, hpresent, huid, hepoch, hgeneration, hcertificate, huntil, hprincipal, hresource,
    haction⟩ := exists_lease hshape
  refine ⟨decision, ⟨entry.bodyUid, entry.epoch, entry.generation, entry.certificate,
    entry.quarantined⟩, lease, ?_⟩
  simp only [unhashed, hdecision, ← hpresent, ← huid, ← hepoch, ← hgeneration, ← hcertificate,
    ← huntil, ← hprincipal, ← hresource, ← haction]

/-- The hash covers every field but itself. -/
theorem expectedHash_withHash (entry : LedgerEntry) (hash : UInt64) :
    ({ entry with hash := hash } : LedgerEntry).expectedHash = entry.expectedHash := rfl

theorem fromSnapshot_of_expectedHash {snapshot : LedgerSnapshot} {entry : LedgerEntry}
    (hentry : { unhashed snapshot with hash := entry.hash } = entry)
    (hhash : entry.expectedHash = .ok entry.hash) : fromSnapshot snapshot = .ok entry := by
  obtain ⟨hevent, hdetail⟩ := bounded_of_expectedHash hhash
  rw [← hentry] at hevent hdetail
  have hevent' : ¬snapshot.event.utf8ByteSize > maxEventBytes := Nat.not_lt.mpr hevent
  have hdetail' : ¬snapshot.detail.utf8ByteSize > maxDetailBytes := Nat.not_lt.mpr hdetail
  have hunhashed : (unhashed snapshot).expectedHash = .ok entry.hash := by
    rw [← expectedHash_withHash _ entry.hash, hentry, hhash]
  simp [fromSnapshot, failIf, hevent', hdetail', hunhashed, pure, Except.pure, hentry]

end LedgerEntry

namespace Ledger

theorem checkedSucc_of_lt {value : UInt64} (h : value.toNat + 1 < UInt64.size) :
    checkedSucc value = some (saturatingSucc value) := by
  simp [checkedSucc, saturatingSucc, h]

theorem buildEntry_eq {snapshot : LedgerSnapshot} {entry : LedgerEntry}
    (h : LedgerEntry.fromSnapshot snapshot = .ok entry) : buildEntry snapshot = .ok entry := by
  rw [buildEntry, h]
  rfl

/-- An event that continues the ledger is written by some record call, unless a
counter is exhausted. -/
theorem exists_record {ledger : Ledger} {entry : LedgerEntry}
    (hcontinues : ledger.cursor.Continues entry) (hkind : entry.kind = .event)
    (hseq : ledger.seq.toNat + 1 < UInt64.size)
    (hcount : ledger.eventEntries.toNat + 1 < UInt64.size) :
    ∃ operation : LedgerOperation, operation.IsRecord ∧
      ledger.nextEntry operation = .ok entry := by
  obtain ⟨decision, body, lease, hsnapshot⟩ := LedgerEntry.exists_snapshot hcontinues.shape
  refine ⟨.record entry.event entry.detail decision body lease, ⟨_, _, _, _, _, rfl⟩, ?_⟩
  have hopen : ledger.isSealed = false := hcontinues.unsealed
  have hseal := hcontinues.shape.sealFields
  simp only [hkind, checkSealFields, ite_eq_right_iff, reduceCtorEq, imp_false, not_or,
    Bool.not_eq_true, Option.isSome_eq_false_iff, Option.isNone_iff_eq_none] at hseal
  have hbuilt := LedgerEntry.fromSnapshot_of_expectedHash hsnapshot hcontinues.hash
  rw [hkind, hseal.1, hseal.2, hcontinues.seq, hcontinues.prevHash] at hbuilt
  have hentry := buildEntry_eq hbuilt
  have hcursor : ledger.cursor.entries = ledger.seq ∧ ledger.cursor.previousHash = ledger.hash :=
    ⟨rfl, rfl⟩
  rw [hcursor.1, hcursor.2] at hentry
  simp [nextEntry, nextEvent, failIf, hopen, checkedSucc_of_lt hseq, checkedSucc_of_lt hcount,
    okOr, hentry, pure, Except.pure, Except.map]

/-- A seal that continues the ledger is written by some seal call. -/
theorem exists_seal {ledger : Ledger} {entry : LedgerEntry}
    (hcontinues : ledger.cursor.Continues entry) (hkind : entry.kind = .seal)
    (hseq : ledger.seq.toNat + 1 < UInt64.size) (hevents : ledger.eventEntries ≠ 0) :
    ∃ operation : LedgerOperation, operation.IsSeal ∧ ledger.nextEntry operation = .ok entry := by
  obtain ⟨decision, body, lease, hsnapshot⟩ := LedgerEntry.exists_snapshot hcontinues.shape
  refine ⟨.seal body lease, ⟨_, _, rfl⟩, ?_⟩
  have hopen : ledger.isSealed = false := hcontinues.unsealed
  have hseals := hcontinues.sealing hkind
  have hdecision : decision = .allow := by
    have hfield : decision.toU8 = Decision.allow.toU8 :=
      (congrArg LedgerEntry.decision hsnapshot).trans hseals.decision
    revert hfield
    cases decision <;> decide
  have hbuilt := LedgerEntry.fromSnapshot_of_expectedHash hsnapshot hcontinues.hash
  rw [hkind, hseals.event, hseals.detail, hseals.count, hseals.hash, hdecision, hcontinues.seq,
    hcontinues.prevHash] at hbuilt
  have hentry := buildEntry_eq hbuilt
  have hcursor : ledger.cursor.entries = ledger.seq ∧ ledger.cursor.previousHash = ledger.hash ∧
      ledger.cursor.eventEntries = ledger.eventEntries := ⟨rfl, rfl, rfl⟩
  rw [hcursor.1, hcursor.2.1, hcursor.2.2] at hentry
  simp [nextEntry, nextSeal, failIf, hopen, hevents, checkedSucc_of_lt hseq, okOr, hentry]

/-! ## Runs in which every call succeeds -/

/-- Every call of the run returned `Ok`. -/
def AllOk (calls : List LedgerCall) : Prop := ∀ event ∈ history calls, event.output = .ok ()

theorem allOk_concat {calls : List LedgerCall} {call : LedgerCall} :
    AllOk (calls ++ [call]) ↔
      AllOk calls ∧ (ledgerMachine.step (after calls) call).1 = .ok () := by
  simp only [AllOk, history_concat, List.mem_append, List.mem_singleton]
  constructor
  · intro h
    exact ⟨fun event hevent => h event (.inl hevent), h _ (.inr rfl)⟩
  · rintro ⟨hcalls, hlast⟩ event (hevent | rfl)
    · exact hcalls event hevent
    · exact hlast

theorem nextEntry_seq {ledger : Ledger} {operation : LedgerOperation} {entry : LedgerEntry}
    (h : ledger.nextEntry operation = .ok entry) : entry.seq.toNat = ledger.seq.toNat + 1 := by
  obtain ⟨nextSeq, hash, hseq, rfl⟩ := nextEntry_eq_ok h
  cases operation <;> exact checkedSucc_eq_some.mp hseq

/-- A run of `Ok` calls writes one entry per call and counts it. -/
theorem holds_of_allOk {calls : List LedgerCall} (hok : AllOk calls) :
    ∃ entries, Holds entries (after calls) ∧ entries.length = calls.length ∧
      (after calls).seq.toNat = calls.length := by
  induction calls using List.reverseRecOn with
  | nil => exact ⟨[], holds_create, rfl, rfl⟩
  | append_singleton calls call ih =>
      obtain ⟨hcalls, hlast⟩ := allOk_concat.mp hok
      obtain ⟨entries, hholds, hlength, hseq⟩ := ih hcalls
      obtain ⟨entry, hentry, happended⟩ := step_ok hlast
      refine ⟨entries ++ [entry], ?_, by simp [hlength], ?_⟩
      · rw [after_concat]
        exact hholds.append happended
      · have hcounted : (ledgerMachine.step (after calls) call).2.seq = entry.seq := by
          have hcursor := congrArg Cursor.entries happended.cursor
          exact hcursor.trans happended.continues.seq.symm
        rw [after_concat, hcounted, nextEntry_seq hentry, hseq, List.length_append]
        rfl

/-- The file is what some record calls, at least one, and one seal call write,
each of them returning `Ok`. -/
def LedgerOutput (stream : Bytes) : Prop :=
  ∃ records sealing, records ≠ [] ∧ (∀ call ∈ records, call.operation.IsRecord) ∧
    sealing.operation.IsSeal ∧ AllOk (records ++ [sealing]) ∧
    (after (records ++ [sealing])).file = stream

theorem count_ledgerFile (entries : List LedgerEntry) :
    (ledgerFile entries).count lf = entries.length := by
  rw [ledgerFile, count_joinLines lf_not_mem_map_line, List.length_map]

/-- Within the range of the counters, a chain of events is written by record calls. -/
theorem exists_records {entries : List LedgerEntry} (haccepts : chain.Accepts .start entries)
    (hevents : ∀ entry ∈ entries, entry.kind = .event) (hlength : entries.length < UInt64.size) :
    ∃ records, (∀ call ∈ records, call.operation.IsRecord) ∧ AllOk records ∧
      Holds entries (after records) ∧ (after records).seq.toNat = entries.length ∧
      (after records).eventEntries = (after records).seq := by
  induction entries using List.reverseRecOn with
  | nil => exact ⟨[], by simp, by simp [AllOk, history], holds_create, rfl, rfl⟩
  | append_singleton entries entry ih =>
      obtain ⟨hfront, hlast⟩ := chain.accepts_concat.mp haccepts
      rw [List.length_append, List.length_singleton] at hlength
      obtain ⟨records, hkinds, hok, hholds, hseq, hcount⟩ := ih hfront
        (fun other hother => hevents other (List.mem_append_left _ hother)) (by omega)
      have hcontinues : (after records).cursor.Continues entry := hholds.cursor ▸ hlast
      have hkind := hevents entry (by simp)
      obtain ⟨operation, hoperation, hnext⟩ := exists_record hcontinues hkind (by omega)
        (by rw [hcount]; omega)
      rcases @step_faultless ⟨operation, []⟩ (after records) (by simp [Faultless]) with
        ⟨written, hwritten, houtput, happended⟩ | ⟨error, herror, _, _⟩
      · rw [hnext, Except.ok.injEq] at hwritten
        subst hwritten
        have hcursor := happended.cursor
        simp only [cursor, Cursor.advance, hkind, Cursor.mk.injEq] at hcursor
        refine ⟨records ++ [⟨operation, []⟩], ?_, allOk_concat.mpr ⟨hok, houtput⟩, ?_⟩
        · intro call hcall
          rcases List.mem_append.mp hcall with hcall | hcall
          · exact hkinds call hcall
          · rwa [List.mem_singleton.mp hcall]
        · rw [after_concat]
          refine ⟨hholds.append happended, ?_, ?_⟩
          · rw [hcursor.1, toNat_saturatingSucc, hseq, List.length_append, List.length_singleton]
            omega
          · rw [hcursor.1, hcursor.2.1, hcount]
      · rw [hnext] at herror
        cases herror

/-- An accepted file is a chain of events and its seal. -/
theorem exists_events_seal {entries : List LedgerEntry} (haccepts : chain.Accepts .start entries)
    (hsealed : (chain.reach .start entries).sealSeen = true) :
    ∃ events sealing, entries = events ++ [sealing] ∧ sealing.kind = .seal ∧
      ∀ entry ∈ events, entry.kind = .event := by
  cases entries using List.reverseRecOn with
  | nil => cases hsealed
  | append_singleton events sealing =>
      obtain ⟨_, hlast⟩ := chain.accepts_concat.mp haccepts
      have hopen := hlast.unsealed
      have hnone : ∀ entry ∈ events, ¬entry.kind = .seal := by
        intro entry hentry hkind
        have hseen := (reach_sealSeen .start events).mpr (.inr ⟨entry, hentry, hkind⟩)
        rw [hopen] at hseen
        cases hseen
      refine ⟨events, sealing, rfl, ?_, ?_⟩
      · rcases (reach_sealSeen .start _).mp hsealed with hstart | ⟨entry, hentry, hkind⟩
        · cases hstart
        · rcases List.mem_append.mp hentry with hentry | hentry
          · exact absurd hkind (hnone entry hentry)
          · rwa [← List.mem_singleton.mp hentry]
      · intro entry hentry
        cases hkind : entry.kind with
        | event => rfl
        | «seal» => exact absurd hkind (hnone entry hentry)

/-- A run writes at least two lines, and no more than the sequence numbers count. -/
theorem count_of_ledgerOutput {stream : Bytes} (h : LedgerOutput stream) :
    2 ≤ stream.count lf ∧ stream.count lf < UInt64.size := by
  obtain ⟨records, sealing, hrecords, _, _, hok, rfl⟩ := h
  obtain ⟨entries, hholds, hlength, hseq⟩ := holds_of_allOk hok
  have hpos := List.length_pos_iff.mpr hrecords
  have hlt := (after (records ++ [sealing])).seq.toNat_lt_size
  rw [hholds.file, count_ledgerFile, hlength]
  rw [List.length_append, List.length_singleton] at *
  omega

/-- An accepted file is the output of a run exactly when it holds an event and
its lines fit the 64-bit sequence numbers. -/
theorem ledgerOutput_iff {stream : Bytes} (hpassed : (verifyReader stream).passed = true) :
    LedgerOutput stream ↔ 2 ≤ stream.count lf ∧ stream.count lf < UInt64.size := by
  constructor
  · exact count_of_ledgerOutput
  · rintro ⟨hmany, hfits⟩
    obtain ⟨entries, rfl, haccepts, hsealed⟩ := verifyReader_passed_iff.mp hpassed
    rw [count_ledgerFile] at hmany hfits
    obtain ⟨events, sealing, rfl, hkind, hevents⟩ := exists_events_seal haccepts hsealed
    obtain ⟨hfront, hlast⟩ := chain.accepts_concat.mp haccepts
    rw [List.length_append, List.length_singleton] at hmany hfits
    obtain ⟨records, hkinds, hok, hholds, hseq, hcount⟩ :=
      exists_records hfront hevents (by omega)
    have hcontinues : (after records).cursor.Continues sealing := hholds.cursor ▸ hlast
    obtain ⟨operation, hoperation, hnext⟩ := exists_seal hcontinues hkind (by omega) (by
      intro hzero
      rw [← hcount, hzero] at hseq
      simp at hseq
      omega)
    rcases @step_faultless ⟨operation, []⟩ (after records) (by simp [Faultless]) with
      ⟨written, hwritten, houtput, happended⟩ | ⟨error, herror, _, _⟩
    · rw [hnext, Except.ok.injEq] at hwritten
      subst hwritten
      refine ⟨records, ⟨operation, []⟩, ?_, hkinds, hoperation, allOk_concat.mpr ⟨hok, houtput⟩, ?_⟩
      · rintro rfl
        have hzero : (0 : Nat) = events.length := hseq
        omega
      · rw [after_concat]
        exact (hholds.append happended).file
    · rw [hnext] at herror
      cases herror

/-! ## A small ledger and an empty one -/

/-- One event with its seal. -/
def bootEntries : List LedgerEntry :=
  [{ LedgerEntry.unhashed ⟨.event, 1, "BOOT", "start", .allow, ⟨1, 1, 1, 100, false⟩, none, none,
      none, 0⟩ with hash := 13420533371515736677 },
    { LedgerEntry.unhashed ⟨.seal, 2, "LEDGER_SEAL", "terminal seal", .allow,
      ⟨1, 1, 1, 100, false⟩, none, some 1, some 13420533371515736677, 13420533371515736677⟩ with
      hash := 4718403599655266064 }]

/-- A seal over no event. -/
def emptySeal : LedgerEntry :=
  { LedgerEntry.unhashed ⟨.seal, 1, "LEDGER_SEAL", "terminal seal", .allow,
    ⟨1, 1, 1, 100, false⟩, none, some 0, some 0, 0⟩ with hash := 7269151036293854139 }

theorem accepts_bootEntries : chain.Accepts .start bootEntries := by
  refine ⟨?_, ?_, trivial⟩
  · exact {
      unsealed := rfl
      seq := by decide
      prevHash := rfl
      hash := by decide +kernel
      shape := LedgerEntry.wellShaped_of_snapshot rfl
      sealing := fun hkind => by cases hkind }
  · exact {
      unsealed := rfl
      seq := by decide
      prevHash := rfl
      hash := by decide +kernel
      shape := LedgerEntry.wellShaped_of_snapshot rfl
      sealing := fun _ => ⟨rfl, rfl, rfl, by decide, rfl⟩ }

theorem accepts_emptySeal : chain.Accepts .start [emptySeal] := by
  refine ⟨?_, trivial⟩
  exact {
    unsealed := rfl
    seq := by decide
    prevHash := rfl
    hash := by decide +kernel
    shape := LedgerEntry.wellShaped_of_snapshot rfl
    sealing := fun _ => ⟨rfl, rfl, rfl, rfl, rfl⟩ }

theorem ledgerOutput_iff_boot :
    LedgerOutput (ledgerFile bootEntries) ↔
      2 ≤ (ledgerFile bootEntries).count lf ∧ (ledgerFile bootEntries).count lf < UInt64.size :=
  ledgerOutput_iff (verifyReader_passed_iff.mpr ⟨_, rfl, accepts_bootEntries, rfl⟩)

theorem emptySeal_passed_not_output :
    (verifyReader (ledgerFile [emptySeal])).passed = true ∧
      ¬LedgerOutput (ledgerFile [emptySeal]) := by
  refine ⟨verifyReader_passed_iff.mpr ⟨_, rfl, accepts_emptySeal, rfl⟩, fun houtput => ?_⟩
  have hcount := (count_of_ledgerOutput houtput).1
  rw [count_ledgerFile] at hcount
  simp at hcount

end Ledger

end Oasi
