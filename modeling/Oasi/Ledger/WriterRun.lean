import Oasi.Ledger.Chain
import Oasi.Ledger.Writer

/-! # Runs of the ledger writer

The counters of a ledger are the cursor of the entries it has written. While the
file does not fail, a call either changes nothing and returns an error, or
appends the line of an entry that continues the chain.
-/

namespace Oasi

namespace LedgerEntry

/-- An entry built from a snapshot has the snapshot's fields and its own hash. -/
theorem fromSnapshot_eq_ok {snapshot : LedgerSnapshot} {entry : LedgerEntry}
    (h : fromSnapshot snapshot = .ok entry) :
    ∃ hash, entry = { unhashed snapshot with hash := hash } ∧ entry.expectedHash = .ok hash := by
  unfold fromSnapshot at h
  simp only [bind_eq_ok] at h
  obtain ⟨_, _, _, _, hash, hhash, hentry⟩ := h
  cases hentry
  exact ⟨hash, rfl, hhash⟩

/-- The lease fields of a snapshot agree with its lease flag. -/
theorem wellShaped_of_snapshot {snapshot : LedgerSnapshot} {hash : UInt64}
    (hseal : checkSealFields snapshot.kind snapshot.sealedEventCount snapshot.sealedEventHash =
      .ok ()) :
    ({ unhashed snapshot with hash := hash } : LedgerEntry).WellShaped where
  decision := snapshot.decision.toU8_le_ten
  lease := by cases hlease : snapshot.lease <;> simp [checkLease, leaseValues, unhashed, hlease]
  sealFields := hseal

/-- A string within its limit is written. -/
theorem pushString_isOk (out : Bytes) {value : String} {maximum : Nat}
    (h : value.utf8ByteSize ≤ maximum) (hmaximum : maximum < UInt32.size) :
    ∃ result, pushString out value maximum = .ok result := by
  have hfits : ¬value.utf8ByteSize ≥ UInt32.size := by omega
  simp [pushString, Nat.not_lt.mpr h, hfits]

/-- Strings within their bounds are all that an entry needs. -/
theorem fromSnapshot_isOk {snapshot : LedgerSnapshot}
    (hevent : snapshot.event.utf8ByteSize ≤ maxEventBytes)
    (hdetail : snapshot.detail.utf8ByteSize ≤ maxDetailBytes) :
    ∃ entry, fromSnapshot snapshot = .ok entry := by
  have hschema : ledgerSchema.utf8ByteSize ≤ 4294967295 := by decide
  have hbytes : ∃ bytes, (unhashed snapshot).canonicalBytes = .ok bytes := by
    obtain ⟨schemaBytes, hschemaBytes⟩ := pushString_isOk [] hschema (by decide)
    obtain ⟨eventBytes, heventBytes⟩ := pushString_isOk
      (pushU64 (schemaBytes ++ [snapshot.kind.canonicalByte]) snapshot.seq) hevent (by decide)
    obtain ⟨detailBytes, hdetailBytes⟩ := pushString_isOk eventBytes hdetail (by decide)
    cases hlease : snapshot.lease <;>
      simp [canonicalBytes, hschemaBytes, heventBytes, hdetailBytes, unhashed, hlease, pushLease,
        pushRequired, pure, Except.pure]
  obtain ⟨bytes, hbytes⟩ := hbytes
  have hevent' : ¬snapshot.event.utf8ByteSize > maxEventBytes := Nat.not_lt.mpr hevent
  have hdetail' : ¬snapshot.detail.utf8ByteSize > maxDetailBytes := Nat.not_lt.mpr hdetail
  simp [fromSnapshot, failIf, hevent', hdetail', expectedHash, hbytes, pure, Except.pure]

end LedgerEntry

namespace Ledger

/-- The counters as a place in the chain. -/
def cursor (ledger : Ledger) : Cursor :=
  ⟨ledger.seq, ledger.eventEntries, ledger.hash, ledger.isSealed⟩

/-- A value that is there is returned. -/
theorem okOr_eq_ok {value : Option UInt64} {error : IoError} {result : UInt64} :
    okOr value error = .ok result ↔ value = some result := by
  cases value <;> simp [okOr]

/-- A built entry is the snapshot with its own hash. -/
theorem buildEntry_eq_ok {snapshot : LedgerSnapshot} {entry : LedgerEntry}
    (h : buildEntry snapshot = .ok entry) :
    ∃ hash, entry = { LedgerEntry.unhashed snapshot with hash := hash } ∧
      entry.expectedHash = .ok hash := by
  apply LedgerEntry.fromSnapshot_eq_ok
  unfold buildEntry at h
  cases hbuilt : LedgerEntry.fromSnapshot snapshot with
  | error error => rw [hbuilt] at h; cases h
  | ok built => rw [hbuilt] at h; cases h; rfl

/-- The entry of a record call continues the chain. -/
theorem nextEvent_eq_ok {ledger : Ledger} {event detail : String} {decision : Decision}
    {body : BodyState} {lease : Option SafetyLease} {entry : LedgerEntry} {count : UInt64}
    (h : ledger.nextEvent event detail decision body lease = .ok (entry, count)) :
    ledger.cursor.Continues entry ∧
      ledger.cursor.advance entry = ⟨entry.seq, count, entry.hash, ledger.isSealed⟩ := by
  unfold nextEvent at h
  simp only [bind_eq_ok, failIf_eq_ok, okOr_eq_ok] at h
  obtain ⟨_, hopen, nextSeq, hseq, nextCount, hcount, built, hbuilt, hresult⟩ := h
  cases hresult
  obtain ⟨hash, rfl, hhash⟩ := buildEntry_eq_ok hbuilt
  have hunsealed : ledger.isSealed = false := by simpa using hopen
  refine ⟨?_, ?_⟩
  · exact {
      unsealed := hunsealed
      seq := (checkedSucc_eq_saturatingSucc hseq).symm
      prevHash := rfl
      hash := hhash
      shape := LedgerEntry.wellShaped_of_snapshot rfl
      sealing := fun hkind => by cases hkind }
  · simp [Cursor.advance, cursor, LedgerEntry.unhashed, checkedSucc_eq_saturatingSucc hseq,
      checkedSucc_eq_saturatingSucc hcount]

/-- An event keeps the texts it was called with. -/
theorem nextEvent_strings {ledger : Ledger} {event detail : String} {decision : Decision}
    {body : BodyState} {lease : Option SafetyLease} {result : LedgerEntry × UInt64}
    (h : ledger.nextEvent event detail decision body lease = .ok result) :
    result.1.event = event ∧ result.1.detail = detail := by
  unfold nextEvent at h
  simp only [bind_eq_ok] at h
  obtain ⟨_, _, _, _, _, _, built, hbuilt, hresult⟩ := h
  cases hresult
  obtain ⟨hash, rfl, _⟩ := buildEntry_eq_ok hbuilt
  exact ⟨rfl, rfl⟩

/-- An event is no seal. -/
theorem nextEvent_kind {ledger : Ledger} {event detail : String} {decision : Decision}
    {body : BodyState} {lease : Option SafetyLease} {result : LedgerEntry × UInt64}
    (h : ledger.nextEvent event detail decision body lease = .ok result) :
    result.1.kind = .event := by
  unfold nextEvent at h
  simp only [bind_eq_ok] at h
  obtain ⟨_, _, _, _, _, _, built, hbuilt, hresult⟩ := h
  cases hresult
  obtain ⟨hash, rfl, _⟩ := buildEntry_eq_ok hbuilt
  rfl

/-- The entry of a seal call continues the chain and seals it. -/
theorem nextSeal_eq_ok {ledger : Ledger} {body : BodyState} {lease : Option SafetyLease}
    {entry : LedgerEntry} (h : ledger.nextSeal body lease = .ok entry) :
    ledger.cursor.Continues entry ∧
      ledger.cursor.advance entry = ⟨entry.seq, ledger.eventEntries, entry.hash, true⟩ := by
  unfold nextSeal at h
  simp only [bind_eq_ok, failIf_eq_ok, okOr_eq_ok] at h
  obtain ⟨_, hopen, _, hevents, nextSeq, hseq, hbuilt⟩ := h
  obtain ⟨hash, rfl, hhash⟩ := buildEntry_eq_ok hbuilt
  have hunsealed : ledger.isSealed = false := by simpa using hopen
  refine ⟨?_, ?_⟩
  · exact {
      unsealed := hunsealed
      seq := (checkedSucc_eq_saturatingSucc hseq).symm
      prevHash := rfl
      hash := hhash
      shape := LedgerEntry.wellShaped_of_snapshot rfl
      sealing := fun _ => ⟨rfl, rfl, rfl, rfl, rfl⟩ }
  · simp [Cursor.advance, cursor, LedgerEntry.unhashed, checkedSucc_eq_saturatingSucc hseq]

/-- A record call is refused only by a sealed ledger, an overflow or a string
beyond its bound. -/
theorem nextEvent_isOk {ledger : Ledger} {event detail : String} (decision : Decision)
    (body : BodyState) (lease : Option SafetyLease) (hopen : ledger.isSealed = false)
    (hseq : ledger.seq.toNat + 1 < UInt64.size)
    (hcount : ledger.eventEntries.toNat + 1 < UInt64.size)
    (hevent : event.utf8ByteSize ≤ maxEventBytes) (hdetail : detail.utf8ByteSize ≤ maxDetailBytes) :
    ∃ result, ledger.nextEvent event detail decision body lease = .ok result := by
  obtain ⟨entry, hentry⟩ := @LedgerEntry.fromSnapshot_isOk
    { kind := .event, seq := ledger.seq + 1, event, detail, decision, body, lease,
      sealedEventCount := none, sealedEventHash := none, prevHash := ledger.hash } hevent hdetail
  refine ⟨(entry, ledger.eventEntries + 1), ?_⟩
  simp [nextEvent, failIf, hopen, checkedSucc, hseq, hcount, okOr, buildEntry, hentry,
    Except.mapError, pure, Except.pure]

/-- A seal call is refused only by a sealed or empty ledger or an overflow. -/
theorem nextSeal_isOk {ledger : Ledger} (body : BodyState) (lease : Option SafetyLease)
    (hopen : ledger.isSealed = false) (hevents : ledger.eventEntries ≠ 0)
    (hseq : ledger.seq.toNat + 1 < UInt64.size) :
    ∃ entry, ledger.nextSeal body lease = .ok entry := by
  have hevent : "LEDGER_SEAL".utf8ByteSize ≤ maxEventBytes := by decide
  have hdetail : "terminal seal".utf8ByteSize ≤ maxDetailBytes := by decide
  obtain ⟨entry, hentry⟩ := @LedgerEntry.fromSnapshot_isOk
    { kind := .seal, seq := ledger.seq + 1, event := "LEDGER_SEAL", detail := "terminal seal",
      decision := .allow, body, lease, sealedEventCount := some ledger.eventEntries,
      sealedEventHash := some ledger.hash, prevHash := ledger.hash } hevent hdetail
  refine ⟨entry, ?_⟩
  simp [nextSeal, failIf, hopen, hevents, checkedSucc, hseq, okOr, buildEntry, hentry,
    Except.mapError]

/-! ## Calls on a file that does not fail -/

/-- The entry a call writes when the file does not fail. -/
def nextEntry (ledger : Ledger) (operation : LedgerOperation) : Except IoError LedgerEntry :=
  match operation with
  | .record event detail decision body lease =>
      (ledger.nextEvent event detail decision body lease).map Prod.fst
  | .seal body lease => ledger.nextSeal body lease

/-- The snapshot from which a call builds its entry, once it has its number. -/
def snapshot (ledger : Ledger) (nextSeq : UInt64) : LedgerOperation → LedgerSnapshot
  | .record event detail decision body lease =>
      { kind := .event, seq := nextSeq, event, detail, decision, body, lease,
        sealedEventCount := none, sealedEventHash := none, prevHash := ledger.hash }
  | .seal body lease =>
      { kind := .seal, seq := nextSeq, event := "LEDGER_SEAL", detail := "terminal seal",
        decision := .allow, body, lease, sealedEventCount := some ledger.eventEntries,
        sealedEventHash := some ledger.hash, prevHash := ledger.hash }

/-- An entry has the fields of its call's snapshot. -/
theorem nextEntry_eq_ok {ledger : Ledger} {operation : LedgerOperation} {entry : LedgerEntry}
    (h : ledger.nextEntry operation = .ok entry) :
    ∃ nextSeq hash, checkedSucc ledger.seq = some nextSeq ∧
      entry = { LedgerEntry.unhashed (ledger.snapshot nextSeq operation) with hash := hash } := by
  cases operation with
  | record event detail decision body lease =>
      cases hnext : ledger.nextEvent event detail decision body lease with
      | error error => simp [nextEntry, hnext, Except.map] at h
      | ok result =>
          simp only [nextEntry, hnext, Except.map, Except.ok.injEq] at h
          subst h
          unfold nextEvent at hnext
          simp only [bind_eq_ok, okOr_eq_ok] at hnext
          obtain ⟨_, _, nextSeq, hseq, _, _, built, hbuilt, hresult⟩ := hnext
          cases hresult
          obtain ⟨hash, rfl, _⟩ := buildEntry_eq_ok hbuilt
          exact ⟨nextSeq, hash, hseq, rfl⟩
  | «seal» body lease =>
      have hnext : ledger.nextSeal body lease = .ok entry := h
      unfold nextSeal at hnext
      simp only [bind_eq_ok, okOr_eq_ok] at hnext
      obtain ⟨_, _, _, _, nextSeq, hseq, hbuilt⟩ := hnext
      obtain ⟨hash, rfl, _⟩ := buildEntry_eq_ok hbuilt
      exact ⟨nextSeq, hash, hseq, rfl⟩

/-- The ledger holds these entries and its buffer is empty. -/
structure Holds (entries : List LedgerEntry) (ledger : Ledger) : Prop where
  file : ledger.file = ledgerFile entries
  buffer : ledger.writer.buffer = []
  accepts : chain.Accepts .start entries
  cursor : ledger.cursor = chain.reach .start entries

/-- A new ledger holds no entries. -/
theorem holds_create : Holds [] create := ⟨rfl, rfl, trivial, rfl⟩

/-- A further entry stands behind the file. -/
theorem writeJson_append (entries : List LedgerEntry) (entry : LedgerEntry) :
    ledgerFile entries ++ entry.writeJson = ledgerFile (entries ++ [entry]) := by
  rw [ledgerFile, ledgerFile, List.map_append, joinLines_append, LedgerEntry.writeJson_eq,
    List.map_singleton, joinLines_cons, joinLines_nil]

/-- The ledger has written everything in its buffer and one more entry. -/
structure Appended (ledger : Ledger) (entry : LedgerEntry) (after : Ledger) : Prop where
  continues : ledger.cursor.Continues entry
  cursor : after.cursor = ledger.cursor.advance entry
  file : after.file = ledger.writer.written ++ entry.writeJson
  buffer : after.writer.buffer = []

/-- A ledger holds what was appended. -/
theorem Holds.append {entries : List LedgerEntry} {ledger after : Ledger} {entry : LedgerEntry}
    (hholds : Holds entries ledger) (happended : Appended ledger entry after) :
    Holds (entries ++ [entry]) after where
  file := by
    rw [happended.file, BufWriter.written, hholds.buffer, List.append_nil, ← writeJson_append]
    exact congrArg (· ++ entry.writeJson) hholds.file
  buffer := happended.buffer
  accepts := chain.accepts_concat.mpr ⟨hholds.accepts, hholds.cursor ▸ happended.continues⟩
  cursor := by
    rw [chain.reach_concat, happended.cursor, hholds.cursor]
    rfl

/-- Without a buffer all entries are in the file. -/
theorem file_of_holds {healthy : Prop} {data : Bytes} {writer : BufWriter}
    (h : writer.Holds healthy data) (hbuffer : writer.buffer = []) :
    writer.file.contents = data := by
  have hwritten := h.2
  rwa [BufWriter.written, hbuffer, List.append_nil] at hwritten

/-- A call that succeeds has appended its entry. On a healthy file the only
failures are refusals, which change nothing. -/
theorem perform_ends (ledger : Ledger) (operation : LedgerOperation) :
    Ends (perform operation) ledger
      (fun _ after => (∃ entry, ledger.nextEntry operation = .ok entry ∧
          Appended ledger entry after) ∧
        (ledger.writer.file.Healthy → after.writer.file.Healthy))
      (fun error after => ledger.writer.file.Healthy →
        ledger.nextEntry operation = .error error ∧ after = ledger) := by
  -- the buffer and the file together hold what was written so far
  have hwriter : ledger.writer.Holds ledger.writer.file.Healthy ledger.writer.written := ⟨id, rfl⟩
  cases operation with
  | record event detail decision body lease =>
      simp only [perform, record, ends_bind, ends_get, ends_liftResult, onWriter, ends_onPart,
        ends_modify]
      refine ⟨?_, fun error herror _ => ⟨by simp [nextEntry, herror, Except.map], trivial⟩⟩
      rintro ⟨entry, count⟩ hnext
      obtain ⟨hcontinues, hadvance⟩ := nextEvent_eq_ok hnext
      refine (BufWriter.writePieces_holds _ hwriter).mono (fun _ written hwritten => ?_)
        fun _ _ hsick hhealthy => absurd hhealthy hsick
      refine (BufWriter.flush_holds hwritten).mono (fun _ flushed hflushed => ?_)
        fun _ _ hsick hhealthy => absurd hhealthy hsick
      exact ⟨⟨entry, by simp [nextEntry, hnext, Except.map], hcontinues, hadvance.symm,
        file_of_holds hflushed.1 hflushed.2, hflushed.2⟩, hflushed.1.1⟩
  | «seal» body lease =>
      simp only [perform, Ledger.seal, ends_bind, ends_get, ends_liftResult, onWriter, ends_onPart,
        ends_modify]
      refine ⟨?_, fun error herror _ => ⟨herror, trivial⟩⟩
      intro entry hnext
      obtain ⟨hcontinues, hadvance⟩ := nextSeal_eq_ok hnext
      refine (BufWriter.writePieces_holds _ hwriter).mono (fun _ written hwritten => ?_)
        fun _ _ hsick hhealthy => absurd hhealthy hsick
      refine (BufWriter.flush_holds hwritten).mono (fun _ flushed hflushed => ?_)
        fun _ _ hsick hhealthy => absurd hhealthy hsick
      refine (BufWriter.settleFile_holds hflushed.1).mono (fun _ synced hsynced => ?_)
        fun _ _ hsick hhealthy => absurd hhealthy hsick
      have hbuffer := hsynced.2.trans hflushed.2
      exact ⟨⟨entry, hnext, hcontinues, hadvance.symm, file_of_holds hsynced.1 hbuffer, hbuffer⟩,
        hsynced.1.1⟩

/-- A call that fails keeps the counters, and at most appends to the file. -/
theorem perform_kept (ledger : Ledger) (operation : LedgerOperation) :
    Ends (perform operation) ledger (fun _ _ => True)
      (fun _ after => after.cursor = ledger.cursor ∧ ledger.file <+: after.file) := by
  have hbegins : ledger.writer.Begins ledger.file := List.prefix_rfl
  cases operation with
  | record event detail decision body lease =>
      simp only [perform, record, ends_bind, ends_get, ends_liftResult, onWriter, ends_onPart,
        ends_modify]
      refine ⟨fun result _ => ?_, fun _ _ => ⟨trivial, hbegins⟩⟩
      refine (BufWriter.writePieces_begins _ hbegins).mono (fun _ written hwritten => ?_)
        fun _ _ hafter => ⟨rfl, hafter⟩
      exact (BufWriter.flush_begins hwritten).mono (fun _ _ _ => trivial)
        fun _ _ hafter => ⟨rfl, hafter⟩
  | «seal» body lease =>
      simp only [perform, Ledger.seal, ends_bind, ends_get, ends_liftResult, onWriter, ends_onPart,
        ends_modify]
      refine ⟨fun entry _ => ?_, fun _ _ => ⟨trivial, hbegins⟩⟩
      refine (BufWriter.writePieces_begins _ hbegins).mono (fun _ written hwritten => ?_)
        fun _ _ hafter => ⟨rfl, hafter⟩
      refine (BufWriter.flush_begins hwritten).mono (fun _ flushed hflushed => ?_)
        fun _ _ hafter => ⟨rfl, hafter⟩
      exact (BufWriter.settleFile_begins hflushed).mono (fun _ _ _ => trivial)
        fun _ _ hafter => ⟨rfl, hafter⟩

/-! ## Runs on a file that does not fail -/

/-- Every request of the call to the file is carried out. -/
def Faultless (call : LedgerCall) : Prop := ∀ outcome ∈ call.outcomes, ¬outcome.Fails

/-- What a ledger holds does not depend on the outcomes to come. -/
theorem Holds.facing {entries : List LedgerEntry} {ledger : Ledger} (h : Holds entries ledger)
    (outcomes : List IoOutcome) : Holds entries (ledger.facing outcomes) :=
  ⟨h.file, h.buffer, h.accepts, h.cursor⟩

/-- The next entry does not depend on the writer. -/
theorem nextEntry_withWriter (ledger : Ledger) (writer : BufWriter)
    (operation : LedgerOperation) :
    ({ ledger with writer := writer } : Ledger).nextEntry operation =
      ledger.nextEntry operation := rfl

/-- The next entry does not depend on the outcomes to come. -/
theorem nextEntry_facing (ledger : Ledger) (outcomes : List IoOutcome)
    (operation : LedgerOperation) :
    (ledger.facing outcomes).nextEntry operation = ledger.nextEntry operation := rfl

/-- A call that succeeds has appended its entry. -/
theorem step_ok {ledger : Ledger} {call : LedgerCall}
    (hok : (ledgerMachine.step ledger call).1 = .ok ()) :
    ∃ entry, ledger.nextEntry call.operation = .ok entry ∧
      Appended ledger entry (ledgerMachine.step ledger call).2 := by
  have hends := perform_ends (ledger.facing call.outcomes) call.operation
  rw [nextEntry_facing] at hends
  cases hresult : perform call.operation (ledger.facing call.outcomes) with
  | ok value after =>
      obtain ⟨⟨entry, hentry, hafter⟩, _⟩ := hends.of_ok hresult
      have hstep : (ledgerMachine.step ledger call).2 = after := by simp [ledgerMachine, hresult]
      rw [hstep]
      exact ⟨entry, hentry, hafter.continues, hafter.cursor, hafter.file, hafter.buffer⟩
  | error error after => simp [ledgerMachine, hresult] at hok

/-- One faultless call. -/
theorem step_faultless {call : LedgerCall} (ledger : Ledger) (hfaultless : Faultless call) :
    (∃ entry, ledger.nextEntry call.operation = .ok entry ∧
      (ledgerMachine.step ledger call).1 = .ok () ∧
      Appended ledger entry (ledgerMachine.step ledger call).2) ∨
    (∃ error, ledger.nextEntry call.operation = .error error ∧
      (ledgerMachine.step ledger call).1 = .error error ∧
      (ledgerMachine.step ledger call).2 = ledger.facing call.outcomes) := by
  have hends := perform_ends (ledger.facing call.outcomes) call.operation
  rw [nextEntry_facing] at hends
  cases hresult : perform call.operation (ledger.facing call.outcomes) with
  | ok value after =>
      obtain ⟨⟨entry, hentry, hafter⟩, _⟩ := hends.of_ok hresult
      have hstep : ledgerMachine.step ledger call = (.ok (), after) := by
        simp [ledgerMachine, hresult]
      rw [hstep]
      exact .inl ⟨entry, hentry, rfl, hafter.continues, hafter.cursor, hafter.file, hafter.buffer⟩
  | error error after =>
      obtain ⟨herror, rfl⟩ := hends.of_error hresult hfaultless
      exact .inr ⟨error, herror, by simp [ledgerMachine, hresult], by simp [ledgerMachine, hresult]⟩

/-- The entry a call has written, if it returned `Ok`. -/
def writtenBy (event : Transition Ledger LedgerCall (Except IoError Unit)) : List LedgerEntry :=
  match event.output, event.before.nextEntry event.input.operation with
  | .ok _, .ok entry => [entry]
  | _, _ => []

/-- The entries of the calls that returned `Ok`, in order. -/
def writtenEntries (calls : List LedgerCall) : List LedgerEntry :=
  (history calls).flatMap writtenBy

/-- A further call is a step of the ledger. -/
theorem after_concat (calls : List LedgerCall) (call : LedgerCall) :
    after (calls ++ [call]) = (ledgerMachine.step (after calls) call).2 :=
  ledgerMachine.run_concat create calls call

/-- A further call is a further event. -/
theorem history_concat (calls : List LedgerCall) (call : LedgerCall) :
    history (calls ++ [call]) = history calls ++ [ledgerMachine.transition (after calls) call] :=
  ledgerMachine.trace_concat create calls call

/-- A further call adds what it has written. -/
theorem writtenEntries_concat (calls : List LedgerCall) (call : LedgerCall) :
    writtenEntries (calls ++ [call]) =
      writtenEntries calls ++ writtenBy (ledgerMachine.transition (after calls) call) := by
  simp [writtenEntries, history_concat]

/-- A run on a file that does not fail holds what its calls wrote. -/
theorem holds_after {calls : List LedgerCall} (hfaultless : ∀ call ∈ calls, Faultless call) :
    Holds (writtenEntries calls) (after calls) := by
  induction calls using List.reverseRecOn with
  | nil => exact holds_create
  | append_singleton calls call ih =>
      have hholds := ih fun other hother => hfaultless other (List.mem_append_left _ hother)
      rw [writtenEntries_concat, after_concat]
      rcases step_faultless (after calls) (hfaultless call (by simp)) with
        ⟨entry, hentry, houtput, hafter⟩ | ⟨error, herror, houtput, hafter⟩
      · simpa [writtenBy, Machine.transition, hentry, houtput] using hholds.append hafter
      · rw [hafter]
        simpa [writtenBy, Machine.transition, houtput] using hholds.facing call.outcomes

/-- On a file that does not fail, a call succeeds exactly when it has an entry. -/
theorem output_faultless {calls : List LedgerCall} (hfaultless : ∀ call ∈ calls, Faultless call)
    {event : Transition Ledger LedgerCall (Except IoError Unit)} (hevent : event ∈ history calls) :
    event.output = (event.before.nextEntry event.input.operation).map fun _ => () := by
  induction calls using List.reverseRecOn with
  | nil => cases hevent
  | append_singleton calls call ih =>
      have hearlier : ∀ other ∈ calls, Faultless other :=
        fun other hother => hfaultless other (List.mem_append_left _ hother)
      rw [history_concat, List.mem_append, List.mem_singleton] at hevent
      rcases hevent with hevent | rfl
      · exact ih hearlier hevent
      · rcases step_faultless (after calls) (hfaultless call (by simp)) with
          ⟨entry, hentry, houtput, _⟩ | ⟨error, herror, houtput, _⟩
        · simp [Machine.transition, houtput, hentry, Except.map]
        · simp [Machine.transition, houtput, herror, Except.map]

/-- A call that returns normally has written its entry. -/
theorem exists_written {calls : List LedgerCall} (hfaultless : ∀ call ∈ calls, Faultless call)
    {event : Transition Ledger LedgerCall (Except IoError Unit)} (hevent : event ∈ history calls)
    (hok : event.output = .ok ()) :
    ∃ entry ∈ writtenEntries calls, event.before.nextEntry event.input.operation = .ok entry := by
  have houtput := output_faultless hfaultless hevent
  cases hnext : event.before.nextEntry event.input.operation with
  | error error =>
      rw [hok, hnext] at houtput
      cases houtput
  | ok entry =>
      refine ⟨entry, List.mem_flatMap.mpr ⟨event, hevent, ?_⟩, rfl⟩
      simp [writtenBy, hok, hnext]

/-- Each written entry is that of a call that returned normally. -/
theorem exists_event_of_written {calls : List LedgerCall} {entry : LedgerEntry}
    (h : entry ∈ writtenEntries calls) :
    ∃ event ∈ history calls, event.output = .ok () ∧
      event.before.nextEntry event.input.operation = .ok entry := by
  obtain ⟨event, hevent, hentry⟩ := List.mem_flatMap.mp h
  unfold writtenBy at hentry
  split at hentry
  next houtput hnext =>
    rw [List.mem_singleton] at hentry
    exact ⟨event, hevent, houtput, hentry ▸ hnext⟩
  · cases hentry

/-- An entry is a seal when the operation was one. -/
theorem nextEntry_kind {ledger : Ledger} {operation : LedgerOperation} {entry : LedgerEntry}
    (h : ledger.nextEntry operation = .ok entry) : entry.kind = .seal ↔ operation.IsSeal := by
  obtain ⟨nextSeq, hash, _, rfl⟩ := nextEntry_eq_ok h
  cases operation <;> simp [LedgerEntry.unhashed, snapshot, LedgerOperation.IsSeal]

/-- A seal is seen when there is one among the entries. -/
theorem reach_sealSeen (cursor : Cursor) (entries : List LedgerEntry) :
    (chain.reach cursor entries).sealSeen = true ↔
      cursor.sealSeen = true ∨ ∃ entry ∈ entries, entry.kind = .seal := by
  induction entries generalizing cursor with
  | nil => simp
  | cons entry rest ih =>
      rw [chain.reach_cons, ih]
      simp [chain, Cursor.advance, or_assoc]

/-- Some call of this kind returned `Ok`. -/
def Succeeded (kind : LedgerOperation → Prop) (calls : List LedgerCall) : Prop :=
  ∃ event ∈ history calls, kind event.input.operation ∧ event.output = .ok ()

/-- A seal has succeeded when the verifier sees one. -/
theorem succeeded_seal_iff {calls : List LedgerCall} (hfaultless : ∀ call ∈ calls, Faultless call) :
    Succeeded LedgerOperation.IsSeal calls ↔
      (chain.reach .start (writtenEntries calls)).sealSeen = true := by
  rw [reach_sealSeen]
  constructor
  · rintro ⟨event, hevent, hseal, hok⟩
    obtain ⟨entry, hentry, hnext⟩ := exists_written hfaultless hevent hok
    exact .inr ⟨entry, hentry, (nextEntry_kind hnext).mpr hseal⟩
  · rintro (hstart | ⟨entry, hentry, hkind⟩)
    · cases hstart
    · obtain ⟨event, hevent, hok, hnext⟩ := exists_event_of_written hentry
      exact ⟨event, hevent, (nextEntry_kind hnext).mp hkind, hok⟩

/-- In a run whose file requests all succeed and in which a record call
succeeded, the verifier misses only the seal until the ledger is sealed, and then
passes with the ledger's own counters. -/
theorem verifyReader_written (calls : List LedgerCall)
    (hfaultless : ∀ call ∈ calls, Faultless call)
    (hrecorded : Succeeded LedgerOperation.IsRecord calls) :
    (¬Succeeded LedgerOperation.IsSeal calls →
      (verifyReader (after calls).file).errors = [.sealMissing]) ∧
    (Succeeded LedgerOperation.IsSeal calls →
      verifyReader (after calls).file =
        { entries := (after calls).entries, eventEntries := (after calls).eventEntries,
          finalHash := (after calls).finalHash, errors := [] } ∧
      (verifyReader (after calls).file).passed = true) := by
  have hholds := holds_after hfaultless
  obtain ⟨event, hevent, _, hok⟩ := hrecorded
  obtain ⟨entry, hentry, _⟩ := exists_written hfaultless hevent hok
  -- an event was recorded, so the ledger is not reported as empty
  have hnonempty := @reach_entries_ne_zero .start _ (List.ne_nil_of_mem hentry)
  constructor
  · intro hopen
    rw [succeeded_seal_iff hfaultless, Bool.not_eq_true] at hopen
    rw [hholds.file, verifyReader_ledgerFile hholds.accepts, hopen]
    simp [Verifier.issueIf, hnonempty]
  · intro hsealed
    rw [succeeded_seal_iff hfaultless] at hsealed
    refine ⟨?_, verifyReader_passed_iff.mpr ⟨_, hholds.file, hholds.accepts, hsealed⟩⟩
    rw [hholds.file, verifyReader_ledgerFile hholds.accepts, hsealed]
    rw [← hholds.cursor] at hnonempty ⊢
    have hseq : (after calls).seq ≠ 0 := hnonempty
    simp [Verifier.issueIf, hseq, cursor, Ledger.entries, finalHash]

/-- Without faults a call whose entry can be made returns normally. -/
theorem output_of_nextEntry {calls : List LedgerCall} {ledger : Ledger} {call : LedgerCall}
    {entry : LedgerEntry} (hfaultless : ∀ call ∈ calls, Faultless call)
    (hevent : ledgerMachine.transition ledger call ∈ history calls)
    (hentry : ledger.nextEntry call.operation = .ok entry) :
    (ledgerMachine.transition ledger call).output = .ok () :=
  (output_faultless hfaultless hevent).trans (congrArg (Except.map fun _ => ()) hentry)

/-- The entry of a seal is the next seal. -/
theorem nextEntry_seal (ledger : Ledger) (body : BodyState) (lease : Option SafetyLease) :
    ledger.nextEntry (.seal body lease) = ledger.nextSeal body lease := rfl

/-- A ledger that has just taken its first event can be sealed. -/
theorem nextSeal_of_first {ledger after : Ledger} {entry : LedgerEntry}
    (hcursor : ledger.cursor = .start) (happended : Appended ledger entry after)
    (hkind : entry.kind = .event) (body : BodyState) (lease : Option SafetyLease) :
    ∃ sealing, after.nextSeal body lease = .ok sealing := by
  have hafter := happended.cursor
  rw [hcursor, Cursor.advance, hkind] at hafter
  simp only [cursor, Cursor.mk.injEq] at hafter
  obtain ⟨hseq, hevents, _, hopen⟩ := hafter
  exact nextSeal_isOk body lease hopen (by rw [hevents]; decide) (by rw [hseq]; decide)

/-- A record call whose line is written in two parts. -/
def bootCall : LedgerCall :=
  ⟨.record "BOOT" "start" .allow ⟨1, 1, 1, 100, false⟩ none, [.short 3]⟩

def sealCall : LedgerCall := ⟨.seal ⟨1, 1, 1, 100, false⟩ none, []⟩

def bootCalls : List LedgerCall := [bootCall, sealCall]

/-- The example is without faults. -/
theorem faultless_bootCalls : ∀ call ∈ bootCalls, Faultless call := by
  simp [bootCalls, bootCall, sealCall, Faultless, IoOutcome.Fails]

/-- The two calls succeed on a new ledger. -/
theorem bootCalls_succeed :
    Succeeded LedgerOperation.IsRecord [bootCall] ∧
      Succeeded LedgerOperation.IsRecord bootCalls ∧
      Succeeded LedgerOperation.IsSeal bootCalls := by
  obtain ⟨⟨entry, count⟩, hnext⟩ := @nextEvent_isOk create "BOOT" "start" .allow
    ⟨1, 1, 1, 100, false⟩ none rfl (by decide) (by decide) (by decide) (by decide)
  have hentry : create.nextEntry bootCall.operation = .ok entry :=
    congrArg (Except.map Prod.fst) hnext
  rcases step_faultless create (faultless_bootCalls bootCall List.mem_cons_self) with
    ⟨written, hwritten, _, happended⟩ | ⟨error, herror, _, _⟩
  · obtain rfl := Except.ok.inj (hentry.symm.trans hwritten)
    obtain ⟨sealing, hsealing⟩ := nextSeal_of_first rfl happended (nextEvent_kind hnext)
      ⟨1, 1, 1, 100, false⟩ none
    have hsealed : (ledgerMachine.step create bootCall).2.nextEntry sealCall.operation =
        .ok sealing := by
      rw [sealCall, nextEntry_seal]
      exact hsealing
    have hfirst : ∀ calls, ledgerMachine.transition create bootCall ∈
        history (bootCall :: calls) := fun _ => List.mem_cons_self
    have hlast : ledgerMachine.transition (ledgerMachine.step create bootCall).2 sealCall ∈
        history bootCalls := List.mem_cons_of_mem _ List.mem_cons_self
    have hrecord : bootCall.operation.IsRecord := ⟨_, _, _, _, _, rfl⟩
    have hone : ∀ call ∈ [bootCall], Faultless call :=
      List.forall_mem_singleton.mpr (faultless_bootCalls bootCall List.mem_cons_self)
    exact ⟨⟨_, hfirst [], hrecord, output_of_nextEntry hone (hfirst []) hentry⟩,
      ⟨_, hfirst [sealCall], hrecord,
        output_of_nextEntry faultless_bootCalls (hfirst [sealCall]) hentry⟩,
      _, hlast, ⟨_, _, rfl⟩, output_of_nextEntry faultless_bootCalls hlast hsealed⟩
  · cases hentry.symm.trans herror

/-- The ledger of these calls, before its seal and after it. -/
theorem verifyReader_written_boot :
    (verifyReader (after [bootCall]).file).errors = [.sealMissing] ∧
    verifyReader (after bootCalls).file =
      { entries := (after bootCalls).entries, eventEntries := (after bootCalls).eventEntries,
        finalHash := (after bootCalls).finalHash, errors := [] } ∧
    (verifyReader (after bootCalls).file).passed = true := by
  obtain ⟨hfirst, hrecorded, hsealed⟩ := bootCalls_succeed
  have hfaultless : ∀ call ∈ [bootCall], Faultless call :=
    List.forall_mem_singleton.mpr (faultless_bootCalls bootCall List.mem_cons_self)
  refine ⟨(verifyReader_written [bootCall] hfaultless hfirst).1 ?_,
    (verifyReader_written bootCalls faultless_bootCalls hrecorded).2 hsealed⟩
  rintro ⟨event, hevent, ⟨body, lease, hseal⟩, _⟩
  rw [List.mem_singleton.mp hevent] at hseal
  cases hseal

end Ledger

end Oasi
