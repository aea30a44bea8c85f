import Oasi.Protocol.FrameReader
import Oasi.Runtime.Accepted

/-! # The child's output

The reader thread turns the bytes of the child's standard output into messages. The
messages of an accepted run determine these bytes: they are the HELLO and the
acknowledgements of the requests, to the last byte.
-/

namespace Oasi

section Reader

variable (describe : Bytes → String)

/-- The messages of the reader thread. -/
def childReader (output : InputStream) : List ReaderMessage :=
  match _hread : readProtocolFrame describe output with
  | (.ok none, _) => [.eof]
  | (.ok (some line), rest) => .line line :: childReader rest
  | (.error error, _) => [.error error.kind error.message]
termination_by output.bytes.length
decreasing_by
  have hbytes := (readProtocolFrame_eq_line describe _hread).1
  rw [hbytes, List.length_append, List.length_cons]
  omega

/-- Lines followed by the end of the file are all there is. -/
theorem bytes_of_messages {lines : List String} {output : InputStream}
    (h : lines.map .line ++ [.eof] <+: childReader describe output) :
    output.failure = none ∧ output.bytes = lines.flatMap fun line => utf8 (line ++ "\n") := by
  induction lines generalizing output with
  | nil =>
      rw [childReader] at h
      split at h
      next rest hread =>
        obtain ⟨hbytes, hfailure⟩ := readProtocolFrame_eq_end describe hread
        exact ⟨hfailure, hbytes⟩
      next => simp at h
      next => simp at h
  | cons line lines ih =>
      rw [childReader] at h
      split at h
      next => simp at h
      next read rest hread =>
        obtain ⟨hbytes, hfailure⟩ := readProtocolFrame_eq_line describe hread
        rw [List.map_cons, List.cons_append, List.cons_prefix_cons] at h
        obtain ⟨hline, hrest⟩ := h
        obtain ⟨hrestFailure, hrestBytes⟩ := ih hrest
        cases hline
        refine ⟨hfailure ▸ hrestFailure, ?_⟩
        rw [hbytes, hrestBytes, List.flatMap_cons, utf8_append, List.append_assoc]
        rfl
      next => simp at h

theorem childReader_lines {lines : List String}
    (hlines : ∀ line ∈ lines, Readable line) :
    childReader describe ⟨lines.flatMap fun line => utf8 (line ++ "\n"), none⟩ =
      lines.map .line ++ [.eof] := by
  induction lines with
  | nil => rw [childReader]; rfl
  | cons line lines ih =>
      have hread := readProtocolFrame_line describe
        (lines.flatMap fun line => utf8 (line ++ "\n")) none (hlines line List.mem_cons_self)
      have hbytes : ((line :: lines).flatMap fun line => utf8 (line ++ "\n")) =
          utf8 line ++ lf :: lines.flatMap fun line => utf8 (line ++ "\n") := by
        rw [List.flatMap_cons, utf8_append, List.append_assoc]
        rfl
      rw [hbytes, childReader]
      split
      next hend =>
        rw [hread] at hend
        cases hend
      next read rest hnext =>
        rw [hread] at hnext
        cases hnext
        rw [ih fun other hother => hlines other (List.mem_cons_of_mem _ hother)]
        rfl
      next herror =>
        rw [hread] at herror
        cases herror

end Reader

namespace Runtime

/-- When a run returns `Ok`, the child's output is its HELLO and one canonical
acknowledgement for each request, in order, the last of them that of the STOP. -/
theorem accepted_stream {startup : Startup} {runtime : Runtime} {effects : List Effect}
    (hnew : new startup = .ok (runtime, effects)) {occurrences : List Occurrence}
    {metrics : Metrics} (hrun : runtime.run occurrences = some (.ok metrics))
    {describe : Bytes → String} {output : InputStream}
    (hdelivered : deliveredIn (effects ++ effectsOf (runtime.history occurrences)) <+:
      childReader describe output) :
    ∃ processId requests, startup.spawned = .ok processId ∧
      sentIn (effectsOf (runtime.history occurrences)) =
        requests.map BoundChildRequest.encode ∧
      (∃ earlier id nonce authority, requests = earlier ++ [.stop id nonce authority]) ∧
      output.failure = none ∧
      output.bytes = utf8 (hello processId.toUInt64) ++
        (BoundChildRequest.answers 0 requests).flatMap fun expected => utf8 expected.canonical := by
  obtain ⟨hactions, processId, greeting, hspawned, hgreeting, hqueue⟩ := deliveredIn_new hnew
  obtain ⟨requests, htransactions⟩ := transactions_of_history runtime occurrences
  obtain ⟨hsent, hlast, haccepted, hsettled⟩ := conclusion_of_run hrun htransactions
  rw [deliveredIn_append, hqueue, List.cons_append, hsettled.left, ← List.cons_append,
    ← List.map_cons] at hdelivered
  obtain ⟨hfailure, hbytes⟩ := bytes_of_messages describe hdelivered
  refine ⟨processId, requests, hspawned, hsent, hlast, hfailure, ?_⟩
  have hlines : ∀ lines : List String,
      (lines.flatMap fun line => utf8 (line ++ "\n")) = (lines.map (· ++ "\n")).flatMap utf8 :=
    fun lines => (List.flatMap_map _ _ lines).symm
  rw [hbytes, hlines, List.map_cons, haccepted, hgreeting, List.flatMap_cons, hactions,
    List.flatMap_map]
  rfl

/-- The messages of an accepted run are those of such an output. -/
theorem exists_output {startup : Startup} {runtime : Runtime} {effects : List Effect}
    (hnew : new startup = .ok (runtime, effects)) {occurrences : List Occurrence}
    {metrics : Metrics} (hrun : runtime.run occurrences = some (.ok metrics))
    (describe : Bytes → String) :
    ∃ output, childReader describe output =
      deliveredIn (effects ++ effectsOf (runtime.history occurrences)) := by
  obtain ⟨_, processId, greeting, _, hgreeting, hqueue⟩ := deliveredIn_new hnew
  obtain ⟨requests, htransactions⟩ := transactions_of_history runtime occurrences
  obtain ⟨_, _, haccepted, hsettled⟩ := conclusion_of_run hrun htransactions
  refine ⟨_, (@childReader_lines describe
    (greeting :: acceptedIn (effectsOf (runtime.history occurrences))) ?_).trans ?_⟩
  · intro line hline
    rcases List.mem_cons.mp hline with rfl | hline
    · exact readable_hello hgreeting
    · have hmem : line ++ "\n" ∈ (acceptedIn (effectsOf (runtime.history occurrences))).map
          (· ++ "\n") := List.mem_map_of_mem hline
      rw [haccepted] at hmem
      obtain ⟨expected, _, hexpected⟩ := List.mem_map.mp hmem
      exact readable_canonical hexpected.symm
  · rw [deliveredIn_append, hqueue, List.cons_append, hsettled.left]
    rfl

theorem accepted_stream_stop :
    ∃ runtime effects occurrence metrics output requests,
      new calmStartup = .ok (runtime, effects) ∧
      runtime.run [occurrence] = some (.ok metrics) ∧
      childReader (fun _ => "") output =
        deliveredIn (effects ++ effectsOf (runtime.history [occurrence])) ∧
      output.bytes = utf8 (hello 1) ++
        (BoundChildRequest.answers 0 requests).flatMap fun expected => utf8 expected.canonical := by
  obtain ⟨runtime, effects, expected, hnew, hready, hstops⟩ := stop_calmStartup
  obtain ⟨metrics, hresult⟩ := hstops [] [.line (trimEndNewlines expected.canonical)] rfl
  have hrun := (run_of_result hresult).2
  obtain ⟨output, houtput⟩ := exists_output hnew hrun fun _ => ""
  obtain ⟨processId, requests, hspawned, _, _, _, hbytes⟩ :=
    accepted_stream hnew hrun ⟨[], by rw [List.append_nil, houtput]⟩
  cases hspawned
  exact ⟨runtime, effects, _, metrics, output, requests, hnew, hrun, houtput, hbytes⟩

end Runtime

end Oasi
