import Oasi.Ledger.WriterRun

/-! # Failing file requests

A call that returns an error has not advanced the counters. Its entry may still
stand in the buffer, and then the next request that succeeds, if only that of the
drop, moves it to the file ahead of the entries that follow: the file no longer
agrees with the counters and a seal that succeeds later does not verify. No trace is
left when the failing request is the first of its call and the file takes nothing
afterwards, up to the drop of the ledger.
-/

namespace Oasi

namespace Ledger

/-- The first request to the file fails. -/
def FailsAtOnce (outcomes : List IoOutcome) : Prop := ∃ outcome ∈ outcomes.head?, outcome.Fails

/-- No request fails until, from some call on, the first request of every call does, and
that of the drop. -/
def FaultsAreFinal (calls : List LedgerCall) (outcomes : List IoOutcome) : Prop :=
  ∃ earlier later, calls = earlier ++ later ∧ (∀ call ∈ earlier, Faultless call) ∧
    (∀ call ∈ later, FailsAtOnce call.outcomes) ∧ (later ≠ [] → FailsAtOnce outcomes)

/-- A call whose first request fails does not succeed and leaves file and
counters as they were. -/
theorem perform_broken {ledger : Ledger} {operation : LedgerOperation}
    (hbroken : ledger.writer.file.Broken) :
    Ends (perform operation) ledger (fun _ _ => False)
      (fun _ after => after.cursor = ledger.cursor ∧ after.file = ledger.file) := by
  have hstuck : ledger.writer.Stuck ledger.file := ⟨hbroken, rfl⟩
  cases operation with
  | record event detail decision body lease =>
      simp only [perform, record, ends_bind, ends_get, ends_liftResult, onWriter, ends_onPart,
        ends_modify]
      refine ⟨fun result _ => ?_, fun _ _ => ⟨trivial, trivial⟩⟩
      refine (BufWriter.writePieces_stuck _ hstuck).mono (fun _ written hwritten => ?_)
        fun _ after hafter => ⟨rfl, hafter⟩
      exact (BufWriter.flush_stuck hwritten).mono (fun _ _ hfalse => hfalse.elim)
        fun _ after hafter => ⟨rfl, hafter⟩
  | «seal» body lease =>
      simp only [perform, Ledger.seal, ends_bind, ends_get, ends_liftResult, onWriter, ends_onPart,
        ends_modify]
      refine ⟨fun entry _ => ?_, fun _ _ => ⟨trivial, trivial⟩⟩
      refine (BufWriter.writePieces_stuck _ hstuck).mono (fun _ written hwritten => ?_)
        fun _ after hafter => ⟨rfl, hafter⟩
      exact (BufWriter.flush_stuck hwritten).mono (fun _ _ hfalse => hfalse.elim)
        fun _ after hafter => ⟨rfl, hafter⟩

theorem step_broken {call : LedgerCall} (ledger : Ledger) (hbroken : FailsAtOnce call.outcomes) :
    ∃ error, (ledgerMachine.step ledger call).1 = .error error ∧
      (ledgerMachine.step ledger call).2.cursor = ledger.cursor ∧
      (ledgerMachine.step ledger call).2.file = ledger.file := by
  have hends := @perform_broken (ledger.facing call.outcomes) call.operation hbroken
  cases hresult : perform call.operation (ledger.facing call.outcomes) with
  | ok value after => exact (hends.of_ok hresult).elim
  | error error after =>
      have hstep : ledgerMachine.step ledger call = (.error error, after) := by
        simp [ledgerMachine, hresult]
      rw [hstep]
      exact ⟨error, rfl, hends.of_error hresult⟩

/-- File and counters agree with these entries. -/
structure Agrees (entries : List LedgerEntry) (ledger : Ledger) : Prop where
  file : ledger.file = ledgerFile entries
  accepts : chain.Accepts .start entries
  cursor : ledger.cursor = chain.reach .start entries

/-- Calls whose first request fails write nothing. -/
theorem agrees_append_broken {earlier later : List LedgerCall}
    (hearlier : Agrees (writtenEntries earlier) (after earlier))
    (hlater : ∀ call ∈ later, FailsAtOnce call.outcomes) :
    Agrees (writtenEntries earlier) (after (earlier ++ later)) ∧
      writtenEntries (earlier ++ later) = writtenEntries earlier := by
  induction later using List.reverseRecOn with
  | nil => rw [List.append_nil]; exact ⟨hearlier, rfl⟩
  | append_singleton later call ih =>
      obtain ⟨hagrees, hwritten⟩ := ih fun other hother =>
        hlater other (List.mem_append_left _ hother)
      obtain ⟨error, houtput, hcursor, hfile⟩ :=
        step_broken (after (earlier ++ later)) (hlater call (by simp))
      rw [← List.append_assoc, after_concat, writtenEntries_concat, hwritten]
      refine ⟨⟨hfile.trans hagrees.file, hagrees.accepts, hcursor.trans hagrees.cursor⟩, ?_⟩
      simp [writtenBy, Machine.transition, houtput]

variable {calls : List LedgerCall} {outcomes : List IoOutcome}

theorem agrees_after (hfaults : FaultsAreFinal calls outcomes) :
    Agrees (writtenEntries calls) (after calls) := by
  obtain ⟨earlier, later, rfl, hearlier, hlater, _⟩ := hfaults
  have hholds := holds_after hearlier
  obtain ⟨hagrees, hwritten⟩ :=
    agrees_append_broken ⟨hholds.file, hholds.accepts, hholds.cursor⟩ hlater
  exact hwritten ▸ hagrees

/-- The drop finds an empty buffer, or a file that takes nothing. -/
theorem dropped_of_faultsAreFinal (hfaults : FaultsAreFinal calls outcomes) :
    dropped calls outcomes = (after calls).file := by
  obtain ⟨earlier, later, rfl, hearlier, _, hdrop⟩ := hfaults
  by_cases hlater : later = []
  · rw [hlater, List.append_nil]
    have hbuffer : ((after earlier).facing outcomes).writer.buffer = [] :=
      (holds_after hearlier).buffer
    rw [dropped, BufWriter.drop_empty hbuffer]
    rfl
  · exact BufWriter.drop_stuck ⟨hdrop hlater, rfl⟩

theorem mem_history {event : Transition Ledger LedgerCall (Except IoError Unit)}
    (h : event ∈ history calls) :
    ∃ ledger, ∃ call ∈ calls, event = ledgerMachine.transition ledger call := by
  obtain ⟨earlier, later, hsplit⟩ := List.append_of_mem h
  obtain ⟨first, call, second, rfl, _, hevent, _⟩ := ledgerMachine.trace_split hsplit
  exact ⟨_, call, by simp, hevent⟩

/-- What a call of such a run does. -/
theorem event_of_faultsAreFinal (hfaults : FaultsAreFinal calls outcomes)
    {event : Transition Ledger LedgerCall (Except IoError Unit)} (hevent : event ∈ history calls) :
    (event.output = .ok () ∧
      ∃ entry, event.before.nextEntry event.input.operation = .ok entry) ∨
    (event.output ≠ .ok () ∧ event.after.cursor = event.before.cursor ∧
      event.after.file = event.before.file) := by
  obtain ⟨ledger, call, hcall, rfl⟩ := mem_history hevent
  obtain ⟨earlier, later, rfl, hearlier, hlater, _⟩ := hfaults
  rcases List.mem_append.mp hcall with hcall | hcall
  · rcases step_faultless ledger (hearlier call hcall) with
      ⟨entry, hentry, houtput, _⟩ | ⟨error, _, houtput, hafter⟩
    · exact .inl ⟨houtput, entry, hentry⟩
    · refine .inr ⟨?_, ?_, ?_⟩
      · simp [Machine.transition, houtput]
      · simp only [Machine.transition, hafter]
        rfl
      · simp only [Machine.transition, hafter]
        rfl
  · obtain ⟨error, houtput, hcursor, hfile⟩ := step_broken ledger (hlater call hcall)
    exact .inr ⟨by simp [Machine.transition, houtput], hcursor, hfile⟩

/-- When faults are final, a call that returns an error changes neither counters
nor file, the file consists of the entries of the calls that returned `Ok`, also once
the ledger was dropped, and a sealed ledger verifies. -/
theorem failed_calls_leave_no_trace (calls : List LedgerCall) (outcomes : List IoOutcome)
    (hfaults : FaultsAreFinal calls outcomes) :
    (∀ event ∈ history calls, event.output ≠ .ok () →
      event.after.cursor = event.before.cursor ∧ event.after.file = event.before.file) ∧
    (after calls).file = ledgerFile (writtenEntries calls) ∧
    dropped calls outcomes = ledgerFile (writtenEntries calls) ∧
    (Succeeded LedgerOperation.IsSeal calls →
      (verifyReader (after calls).file).passed = true ∧
      (verifyReader (dropped calls outcomes)).passed = true) := by
  have hagrees := agrees_after hfaults
  have hdropped := dropped_of_faultsAreFinal hfaults
  refine ⟨fun event hevent hfailed => ?_, hagrees.file, hdropped.trans hagrees.file, ?_⟩
  · rcases event_of_faultsAreFinal hfaults hevent with ⟨hok, _⟩ | ⟨_, hunchanged⟩
    · exact absurd hok hfailed
    · exact hunchanged
  · rintro ⟨event, hevent, hseal, hok⟩
    rcases event_of_faultsAreFinal hfaults hevent with ⟨_, entry, hentry⟩ | ⟨hfailed, _⟩
    · have hwritten : entry ∈ writtenEntries calls :=
        List.mem_flatMap.mpr ⟨event, hevent, by simp [writtenBy, hok, hentry]⟩
      rw [hdropped, and_self]
      refine verifyReader_passed_iff.mpr ⟨_, hagrees.file, hagrees.accepts, ?_⟩
      rw [reach_sealSeen]
      exact .inr ⟨entry, hwritten, (nextEntry_kind hentry).mpr hseal⟩
    · exact absurd hok hfailed

/-- A seal that fails, on a file that takes nothing any more, also when the ledger is
dropped. -/
theorem failed_calls_leave_no_trace_final :
    let calls : List LedgerCall :=
      [⟨.record "BOOT" "start" .allow ⟨1, 1, 1, 100, false⟩ none, []⟩,
        ⟨.seal ⟨1, 1, 1, 100, false⟩ none, [.failed (.ofMessage "EIO")]⟩]
    (after calls).file = ledgerFile (writtenEntries calls) ∧
      dropped calls [.failed (.ofMessage "EIO")] = ledgerFile (writtenEntries calls) := by
  intro calls
  have hfaults : FaultsAreFinal calls [.failed (.ofMessage "EIO")] := by
    refine ⟨calls.take 1, calls.drop 1, rfl, ?_, ?_, fun _ => ?_⟩
    · simp [calls, Faultless]
    · simp [calls, FailsAtOnce, IoOutcome.Fails]
    · simp [FailsAtOnce, IoOutcome.Fails]
  obtain ⟨_, hfile, hdropped, _⟩ := failed_calls_leave_no_trace calls _ hfaults
  exact ⟨hfile, hdropped⟩

/-! ## What a failed flush leaves behind -/

/-- A record call whose flush fails at once leaves its whole line in the buffer. -/
theorem record_failed_flush {ledger : Ledger} {event detail : String} {decision : Decision}
    {body : BodyState} {lease : Option SafetyLease} {entry : LedgerEntry} {count : UInt64}
    (hnext : ledger.nextEvent event detail decision body lease = .ok (entry, count))
    (hbuffer : ledger.writer.buffer = []) (hshort : entry.line.length + 1 < BufWriter.capacity)
    (error : IoError) :
    ledgerMachine.step ledger ⟨.record event detail decision body lease, [.failed error]⟩ =
      (.error error, { ledger with writer := ⟨entry.writeJson, ⟨ledger.file, []⟩⟩ }) := by
  have hpieces : (entry.jsonPieces.map utf8).flatten = entry.writeJson := rfl
  have hlength : entry.writeJson.length = entry.line.length + 1 := by
    simp [LedgerEntry.writeJson_eq]
  have hends : Ends (record event detail decision body lease) (ledger.facing [.failed error])
      (fun _ _ => False) (fun failure after => failure = error ∧
        after = { ledger with writer := ⟨entry.writeJson, ⟨ledger.file, []⟩⟩ }) := by
    have hfacing : (ledger.facing [.failed error]).nextEvent event detail decision body lease =
        .ok (entry, count) := hnext
    simp only [record, ends_bind, ends_get, ends_liftResult, onWriter, ends_onPart, ends_modify]
    refine ⟨fun result hresult => ?_, fun failure hfailure => ?_⟩
    · rw [hfacing, Except.ok.injEq] at hresult
      subst hresult
      refine (BufWriter.writePieces_buffered ?_).imp fun _ written hwritten => ?_
      · rw [hpieces, hlength]
        simpa [facing, hbuffer] using hshort
      · rw [hpieces] at hwritten
        have hwriter : written = ⟨entry.writeJson, ⟨ledger.file, [.failed error]⟩⟩ := by
          rw [hwritten]
          simp [facing, hbuffer, file]
        have hnonempty : entry.writeJson ≠ [] := by simp [LedgerEntry.writeJson_eq]
        simp only [Ends, hwriter, BufWriter.flush_failed hnonempty]
        exact ⟨rfl, rfl⟩
    · rw [hfacing] at hfailure
      cases hfailure
  cases hresult : record event detail decision body lease (ledger.facing [.failed error]) with
  | ok value after => exact (hends.of_ok hresult).elim
  | error failure after =>
      obtain ⟨rfl, rfl⟩ := hends.of_error hresult
      simp [ledgerMachine, perform, hresult]

/-- Once a faultless call succeeds after such a failure, the ledger never verifies:
the failed entry and the new one carry the same sequence number. -/
theorem appended_after_failed_flush {entries : List LedgerEntry} {ledger after : Ledger}
    {failedEntry entry : LedgerEntry} (hholds : Holds entries ledger)
    (hfailed : ledger.cursor.Continues failedEntry) (hbound : ledger.seq.toNat + 2 < UInt64.size)
    (happended : Appended { ledger with writer := ⟨failedEntry.writeJson, ⟨ledger.file, []⟩⟩ }
      entry after) :
    after.file = ledgerFile (entries ++ [failedEntry, entry]) ∧
      ∀ rest, (∀ other ∈ rest, LedgerEntry.WellShaped other) →
        (verifyReader (ledgerFile (entries ++ [failedEntry, entry] ++ rest))).passed = false := by
  have hentry : ledger.cursor.Continues entry := happended.continues
  constructor
  · rw [happended.file, BufWriter.written, hholds.file, writeJson_append, writeJson_append,
      List.append_assoc]
    rfl
  · intro rest hrest
    rw [Bool.eq_false_iff]
    intro hpassed
    obtain ⟨found, hfile, haccepts, _⟩ := verifyReader_passed_iff.mp hpassed
    have hshape : ∀ other ∈ entries ++ [failedEntry, entry] ++ rest, other.WellShaped := by
      intro other hother
      simp only [List.mem_append, List.mem_cons, List.not_mem_nil, or_false] at hother
      rcases hother with (hother | rfl | rfl) | hother
      · exact wellShaped_of_accepts hholds.accepts other hother
      · exact hfailed.shape
      · exact hentry.shape
      · exact hrest other hother
    rw [← ledgerFile_injective hshape (wellShaped_of_accepts haccepts) hfile, List.append_assoc]
      at haccepts
    have hseq := hfailed.seq
    refine seq_ne_of_accepts haccepts ?_ (hseq.trans hentry.seq.symm)
    rw [hseq, toNat_saturatingSucc]
    have : ledger.cursor.entries.toNat = ledger.seq.toNat := rfl
    omega

/-- A record call that fails in its flush, the same call again, and a seal. -/
def retriedCalls : List LedgerCall :=
  [⟨.record "BOOT" "start" .allow ⟨1, 1, 1, 100, false⟩ none, [.failed (.ofMessage "EIO")]⟩,
    ⟨.record "BOOT" "start" .allow ⟨1, 1, 1, 100, false⟩ none, []⟩,
    ⟨.seal ⟨1, 1, 1, 100, false⟩ none, []⟩]

theorem retriedCalls_sealed_not_verified :
    Succeeded LedgerOperation.IsSeal retriedCalls ∧
      (verifyReader (after retriedCalls).file).passed = false := by
  have hfaultless : ∀ operation, Faultless ⟨operation, []⟩ := by simp [Faultless]
  obtain ⟨⟨entry, count⟩, hnext⟩ := @nextEvent_isOk create "BOOT" "start" .allow
    ⟨1, 1, 1, 100, false⟩ none rfl (by decide) (by decide) (by decide) (by decide)
  have hshort : entry.line.length + 1 < BufWriter.capacity := by
    have hline := entry.length_line_le
    obtain ⟨hevent, hdetail⟩ := nextEvent_strings hnext
    have hsizes : "BOOT".utf8ByteSize = 4 ∧ "start".utf8ByteSize = 5 := by decide
    rw [hevent, hdetail, hsizes.1, hsizes.2] at hline
    unfold BufWriter.capacity
    omega
  have hfailed := record_failed_flush hnext rfl hshort (.ofMessage "EIO")
  -- The second call finds the counters of the new ledger and succeeds.
  rcases step_faultless { create with writer := ⟨entry.writeJson, ⟨create.file, []⟩⟩ }
      (hfaultless (.record "BOOT" "start" .allow ⟨1, 1, 1, 100, false⟩ none)) with
    ⟨retried, hretried, _, happended⟩ | ⟨error, herror, _, _⟩
  · obtain ⟨hfile, hunverified⟩ := appended_after_failed_flush holds_create
      (nextEvent_eq_ok hnext).1 (by decide) happended
    generalize hledger : (ledgerMachine.step
      { create with writer := ⟨entry.writeJson, ⟨create.file, []⟩⟩ }
      ⟨.record "BOOT" "start" .allow ⟨1, 1, 1, 100, false⟩ none, []⟩).2 = ledger at *
    have hkind : retried.kind = .event := by
      rw [nextEntry_withWriter, nextEntry, hnext, Except.map, Except.ok.injEq] at hretried
      exact hretried ▸ nextEvent_kind hnext
    obtain ⟨sealing, hsealing⟩ := nextSeal_of_first rfl happended hkind ⟨1, 1, 1, 100, false⟩ none
    rcases step_faultless ledger (hfaultless (.seal ⟨1, 1, 1, 100, false⟩ none)) with
      ⟨last, hlast, hoklast, hsealed⟩ | ⟨error, herror, _, _⟩
    · have hafter : after retriedCalls =
          (ledgerMachine.step ledger ⟨.seal ⟨1, 1, 1, 100, false⟩ none, []⟩).2 := by
        rw [after, retriedCalls, Machine.run_cons, hfailed, Machine.run_cons]
        dsimp only
        rw [hledger, Machine.run_cons, Machine.run_nil]
      have hfinal : (after retriedCalls).file = ledgerFile ([] ++ [entry, retried] ++ [last]) := by
        rw [hafter, hsealed.file, BufWriter.written, happended.buffer, List.append_nil,
          ← writeJson_append, ← hfile]
        rfl
      refine ⟨⟨ledgerMachine.transition ledger ⟨.seal ⟨1, 1, 1, 100, false⟩ none, []⟩, ?_, ?_,
        hoklast⟩, ?_⟩
      · rw [← hledger]
        simp only [history, retriedCalls, Machine.trace, hfailed, List.mem_cons, List.not_mem_nil,
          or_false]
        exact .inr (.inr trivial)
      · exact ⟨_, _, rfl⟩
      · rw [hfinal]
        exact hunverified [last] (by simpa using hsealed.continues.shape)
    · rw [nextEntry, hsealing] at herror
      cases herror
  · rw [nextEntry_withWriter, nextEntry, hnext] at herror
    cases herror

end Ledger

end Oasi
