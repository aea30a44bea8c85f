import Oasi.Protocol.Messages

/-! # Delivery in chunks

A pipe delivers its bytes in chunks of any sizes, and a read may be interrupted. The
buffered reader retries and reads on, so the frames it returns are those of the byte
stream alone, wherever the chunks end.
-/

namespace Oasi

/-- What one read of the source returns. -/
inductive Arrival where
  /-- At least one byte. -/
  | chunk (first : UInt8) (more : Bytes)
  /-- The read was interrupted. -/
  | interrupted
  deriving DecidableEq, Repr

def Arrival.bytes : Arrival → Bytes
  | .chunk first more => first :: more
  | .interrupted => []

/-- A buffered reader: the bytes in its buffer, the reads to come, and the error that
follows them, if the end of the file does not. -/
structure Delivery where
  buffer : Bytes
  arrivals : List Arrival
  failure : Option IoError
  deriving DecidableEq, Repr

/-- The outcomes of `fill_buf`. -/
inductive Filled where
  | available (bytes : Bytes)
  | interrupted
  | failed (error : IoError)
  deriving DecidableEq, Repr

namespace Delivery

/-- The byte stream, however it is delivered. -/
def stream (input : Delivery) : InputStream :=
  ⟨input.buffer ++ input.arrivals.flatMap Arrival.bytes, input.failure⟩

/-- `BufRead::fill_buf`: the source is read when the buffer is empty. -/
def fillBuf (input : Delivery) : Filled × Delivery :=
  match input.buffer, input.arrivals, input.failure with
  | byte :: buffer, _, _ => (.available (byte :: buffer), input)
  | [], .chunk first more :: arrivals, _ =>
      (.available (first :: more), { input with buffer := first :: more, arrivals := arrivals })
  | [], .interrupted :: arrivals, _ => (.interrupted, { input with arrivals := arrivals })
  | [], [], some error => (.failed error, input)
  | [], [], none => (.available [], input)

/-- `Take::fill_buf`. -/
def takeFillBuf (limit : Nat) (input : Delivery) : Filled × Delivery :=
  if limit = 0 then (.available [], input)
  else
    match input.fillBuf with
    | (.available bytes, after) => (.available (bytes.take limit), after)
    | other => other

def consume (count : Nat) (input : Delivery) : Delivery :=
  { input with buffer := input.buffer.drop count }

/-- Bytes and reads that are still to come. -/
def weight (input : Delivery) : Nat :=
  input.buffer.length + (input.arrivals.map fun arrival => arrival.bytes.length + 1).sum

/-- What filling the buffer keeps. -/
def Fills (limit : Nat) (input : Delivery) : Filled × Delivery → Prop
  | (.available bytes, after) =>
      after.stream = input.stream ∧ after.weight ≤ input.weight ∧ bytes <+: after.buffer ∧
        bytes.length ≤ limit ∧ (bytes = [] → limit = 0 ∨ input.stream = ⟨[], none⟩)
  | (.interrupted, after) => after.stream = input.stream ∧ after.weight < input.weight
  | (.failed error, after) =>
      0 < limit ∧ input.stream = ⟨[], some error⟩ ∧ after.stream = input.stream

theorem fills_takeFillBuf (limit : Nat) (input : Delivery) :
    Fills limit input (takeFillBuf limit input) := by
  unfold takeFillBuf
  split
  next hlimit =>
    exact ⟨rfl, Nat.le_refl _, List.nil_prefix, Nat.zero_le _, fun _ => .inl hlimit⟩
  next hlimit =>
    obtain ⟨buffer, arrivals, failure⟩ := input
    have htake : ∀ (first : UInt8) (more : Bytes), (first :: more).take limit ≠ [] := by
      intro first more hempty
      rcases List.take_eq_nil_iff.mp hempty with hzero | hnil
      · exact hlimit hzero
      · cases hnil
    cases buffer with
    | cons byte buffer =>
        exact ⟨rfl, Nat.le_refl _, List.take_prefix _ _, List.length_take_le _ _,
          fun hempty => absurd hempty (htake byte buffer)⟩
    | nil =>
        cases arrivals with
        | nil =>
            cases failure with
            | some error => exact ⟨Nat.pos_of_ne_zero hlimit, rfl, rfl⟩
            | none =>
                exact ⟨rfl, Nat.le_refl _, List.take_prefix _ _, List.length_take_le _ _,
                  fun _ => .inr rfl⟩
        | cons arrival arrivals =>
            cases arrival with
            | interrupted =>
                refine ⟨rfl, ?_⟩
                simp [weight, Arrival.bytes]
            | chunk first more =>
                refine ⟨rfl, ?_, List.take_prefix _ _, List.length_take_le _ _,
                  fun hempty => absurd hempty (htake first more)⟩
                simp [weight, Arrival.bytes]

/-- Consumed bytes leave the stream at its front. -/
theorem exists_stream {input : Delivery} {bytes : Bytes} (h : bytes <+: input.buffer) :
    ∃ rest, input.stream = ⟨bytes ++ rest, input.failure⟩ ∧ ∀ count ≤ bytes.length,
      (input.consume count).stream = ⟨bytes.drop count ++ rest, input.failure⟩ := by
  obtain ⟨more, hmore⟩ := h
  refine ⟨more ++ input.arrivals.flatMap Arrival.bytes, ?_, ?_⟩
  · rw [stream, ← hmore, List.append_assoc]
  · intro count hcount
    rw [stream, consume, ← hmore, List.drop_append_of_le_length hcount, List.append_assoc]

theorem weight_consume_lt {input : Delivery} {bytes : Bytes} (h : bytes <+: input.buffer)
    (hnonempty : bytes ≠ []) : (input.consume bytes.length).weight < input.weight := by
  have hpos := List.length_pos_iff.mpr hnonempty
  have hle := h.length_le
  simp only [weight, consume, List.length_drop]
  omega

/-- The loop of `read_until(LF)` behind `take(limit)`. -/
def readUntilLoop (limit : Nat) (out : Bytes) (input : Delivery) :
    Except IoError Bytes × Delivery :=
  match _hfill : takeFillBuf limit input with
  | (.interrupted, after) => readUntilLoop limit out after
  | (.failed error, after) => (.error error, after)
  | (.available bytes, after) =>
      match bytes.findIdx? (· == lf) with
      | some index => (.ok (out ++ bytes.take (index + 1)), after.consume (index + 1))
      | none =>
          if _hempty : bytes = [] then (.ok out, after)
          else readUntilLoop (limit - bytes.length) (out ++ bytes) (after.consume bytes.length)
termination_by input.weight
decreasing_by
  · have hfills := fills_takeFillBuf limit input
    rw [_hfill] at hfills
    exact hfills.2
  · have hfills := fills_takeFillBuf limit input
    rw [_hfill] at hfills
    exact Nat.lt_of_lt_of_le (weight_consume_lt hfills.2.2.1 _hempty) hfills.2.1

end Delivery

/-! ## The bytes that are read -/

section Limits

variable {limit : Nat} {front rest : Bytes} {failure : Option IoError}

theorem readUntilLf_zero (input : InputStream) : readUntilLf 0 input = (.ok [], input) := by
  simp [readUntilLf, readUntil]

theorem readUntilLf_nil (hlimit : 0 < limit) :
    readUntilLf limit ⟨[], failure⟩ =
      (match failure with
        | some error => .error error
        | none => .ok [], ⟨[], failure⟩) := by
  have hlength : ¬0 = limit := Nat.ne_of_lt hlimit
  simp only [readUntilLf, List.take_nil, readUntil, List.getLast?_nil, List.length_nil, hlength,
    reduceCtorEq, or_self, if_false, List.drop_nil]
  cases failure <;> rfl

/-- Bytes without an LF are read before the rest. -/
theorem readUntilLf_append (hfront : lf ∉ front) (hlimit : front.length ≤ limit) :
    readUntilLf limit ⟨front ++ rest, failure⟩ =
      ((readUntilLf (limit - front.length) ⟨rest, failure⟩).1.map (front ++ ·),
        (readUntilLf (limit - front.length) ⟨rest, failure⟩).2) := by
  have hread : (readUntil lf ((front ++ rest).take limit)).1 =
      front ++ (readUntil lf (rest.take (limit - front.length))).1 := by
    rw [List.take_append, List.take_of_length_le hlimit]
    exact readUntil_fst_append _ hfront
  set tail := (readUntil lf (rest.take (limit - front.length))).1 with htail
  have hlast : (front ++ tail).getLast? = some lf ↔ tail.getLast? = some lf := by
    cases htail' : tail.getLast? with
    | some byte => simp [List.getLast?_append, htail']
    | none =>
        rw [List.getLast?_append, htail', Option.none_or]
        refine ⟨fun h => absurd (List.mem_of_getLast? h) hfront, ?_⟩
        intro h
        cases h
  have hlength : (front ++ tail).length = limit ↔ tail.length = limit - front.length := by
    rw [List.length_append]
    omega
  have hdrop : (front ++ rest).drop (front ++ tail).length = rest.drop tail.length := by
    rw [List.length_append, List.drop_append, List.drop_eq_nil_of_le (Nat.le_add_right _ _),
      List.nil_append, Nat.add_sub_cancel_left]
  simp only [readUntilLf, hread, ← htail, hlast, hlength, hdrop]
  split
  next => rfl
  next => cases failure <;> rfl

theorem findIdx?_lf (hfront : lf ∉ front) :
    (front ++ lf :: rest).findIdx? (· == lf) = some front.length := by
  have hnone : front.findIdx? (· == lf) = none := by
    rw [List.findIdx?_eq_none_iff]
    intro byte hbyte
    simpa using fun heq : byte = lf => hfront (heq ▸ hbyte)
  rw [List.findIdx?_append, hnone, List.findIdx?_cons, if_pos (beq_self_eq_true lf)]
  simp

end Limits

namespace Delivery

/-- The loop reads what the stream holds, wherever the chunks end. -/
theorem readUntilLoop_eq (limit : Nat) (out : Bytes) (input : Delivery) :
    (readUntilLoop limit out input).1 = (readUntilLf limit input.stream).1.map (out ++ ·) ∧
      (readUntilLoop limit out input).2.stream = (readUntilLf limit input.stream).2 := by
  fun_induction readUntilLoop limit out input with
  -- an interrupted read changes nothing
  | case1 limit out input after hfill ih =>
      have hfills := fills_takeFillBuf limit input
      rw [hfill] at hfills
      rw [ih.1, ih.2, hfills.1]
      exact ⟨rfl, rfl⟩
  | case2 limit out input error after hfill =>
      have hfills := fills_takeFillBuf limit input
      rw [hfill] at hfills
      obtain ⟨hlimit, hstream, hafter⟩ := hfills
      rw [hafter, hstream, readUntilLf_nil hlimit]
      exact ⟨rfl, rfl⟩
  -- the chunk holds the line feed, so the line ends in it
  | case3 limit out input bytes after hfill index hindex =>
      have hfills := fills_takeFillBuf limit input
      rw [hfill] at hfills
      obtain ⟨hstream, _, hbuffer, hlength, _⟩ := hfills
      have hlf : lf ∈ bytes := by
        have hsome : (bytes.findIdx? (· == lf)).isSome = true := by rw [hindex, Option.isSome_some]
        rw [List.findIdx?_isSome, List.any_eq_true] at hsome
        obtain ⟨byte, hbyte, heq⟩ := hsome
        exact beq_iff_eq.mp heq ▸ hbyte
      obtain ⟨line, more, hline, rfl⟩ := exists_line_of_mem hlf
      rw [findIdx?_lf hline, Option.some.injEq] at hindex
      obtain ⟨rest, hafter, hconsumed⟩ := exists_stream hbuffer
      rw [List.length_append, List.length_cons] at hlength
      have htake : (line ++ lf :: more).take (index + 1) = line ++ [lf] := by
        rw [← hindex, List.take_length_add_append]
        rfl
      have hdrop : (line ++ lf :: more).drop (index + 1) = more := by
        rw [← hindex, List.drop_length_add_append]
        rfl
      rw [← hstream, hafter, List.append_assoc, List.cons_append, readUntilLf_line hline (by omega),
        htake, hconsumed (index + 1) (by simp; omega), hdrop]
      exact ⟨rfl, rfl⟩
  -- nothing is left of the limit or of the stream
  | case4 limit out input after hfill hindex =>
      have hfills := fills_takeFillBuf limit input
      rw [hfill] at hfills
      obtain ⟨hstream, _, _, _, hempty⟩ := hfills
      rcases hempty rfl with rfl | hend
      · rw [readUntilLf_zero, hstream]
        exact ⟨by simp [Except.map], rfl⟩
      · rw [hstream, hend]
        cases limit with
        | zero =>
            rw [readUntilLf_zero]
            exact ⟨by simp [Except.map], rfl⟩
        | succ limit =>
            rw [readUntilLf_nil (Nat.succ_pos limit)]
            exact ⟨by simp [Except.map], rfl⟩
  -- the whole chunk belongs to the line, and the rest of the stream is read next
  | case5 limit out input bytes after hfill hindex hempty ih =>
      have hfills := fills_takeFillBuf limit input
      rw [hfill] at hfills
      obtain ⟨hstream, _, hbuffer, hlength, _⟩ := hfills
      have hlf : lf ∉ bytes := by
        intro hmem
        obtain ⟨line, more, hline, rfl⟩ := exists_line_of_mem hmem
        rw [findIdx?_lf hline] at hindex
        cases hindex
      obtain ⟨rest, hafter, hconsumed⟩ := exists_stream hbuffer
      rw [ih.1, ih.2, hconsumed bytes.length (Nat.le_refl _), List.drop_length, List.nil_append,
        ← hstream, hafter, readUntilLf_append hlf hlength]
      refine ⟨?_, rfl⟩
      cases (readUntilLf (limit - bytes.length) ⟨rest, after.failure⟩).1 with
      | ok read => simp [Except.map]
      | error error => rfl

/-! ## Frames -/

section Frames

variable (describe : Bytes → String)

/-- `read_protocol_frame` on a buffered reader. -/
def readFrame (input : Delivery) : Except IoError (Option String) × Delivery :=
  match readUntilLoop (maxProtocolLine + 2) [] input with
  | (.ok bytes, rest) => (protocolFrame describe bytes, rest)
  | (.error error, rest) => (.error error, rest)

/-- A frame depends on the stream alone. -/
theorem readFrame_eq (input : Delivery) :
    (readFrame describe input).1 = (readProtocolFrame describe input.stream).1 ∧
      (readFrame describe input).2.stream = (readProtocolFrame describe input.stream).2 := by
  obtain ⟨hread, hrest⟩ := readUntilLoop_eq (maxProtocolLine + 2) [] input
  unfold readFrame readProtocolFrame
  cases hloop : readUntilLoop (maxProtocolLine + 2) [] input with
  | mk result rest =>
      cases hbytes : readUntilLf (maxProtocolLine + 2) input.stream with
      | mk read after =>
          rw [hloop, hbytes] at hread hrest
          subst hrest
          cases read with
          | ok bytes =>
              rw [show result = .ok bytes from hread]
              exact ⟨rfl, rfl⟩
          | error error =>
              rw [show result = .error error from hread]
              exact ⟨rfl, rfl⟩

theorem stream_of_readFrame {input rest : Delivery} {line : String}
    (h : readFrame describe input = (.ok (some line), rest)) :
    input.stream.bytes = utf8 line ++ lf :: rest.stream.bytes ∧ rest.failure = input.failure := by
  obtain ⟨hresult, hrest⟩ := readFrame_eq describe input
  rw [h] at hresult hrest
  exact readProtocolFrame_eq_line describe (Prod.ext hresult.symm hrest.symm)

/-- Calls of `read_protocol_frame` until one does not return a line: the lines, and
how the last call ended. -/
def readFrames (input : Delivery) : List String × Except IoError Unit :=
  match _hread : readFrame describe input with
  | (.ok none, _) => ([], .ok ())
  | (.ok (some line), rest) => (line :: (readFrames rest).1, (readFrames rest).2)
  | (.error error, _) => ([], .error error)
termination_by input.stream.bytes.length
decreasing_by
  all_goals
    have hbytes := (stream_of_readFrame describe _hread).1
    rw [hbytes, List.length_append, List.length_cons]
    omega

end Frames

end Delivery

/-- No line can be read: the first one is too long, is no UTF-8 or has no LF. -/
def Unreadable (bytes : Bytes) : Prop :=
  (lf ∉ bytes ∧ bytes ≠ []) ∨ ∃ line rest, lf ∉ line ∧ bytes = line ++ lf :: rest ∧
    (maxProtocolLine < line.length ∨ fromUtf8 line = none)

section Cases

variable (describe : Bytes → String)

theorem protocolFrame_long {bytes : Bytes} (h : maxProtocolLine + 1 < bytes.length) :
    ∃ error, protocolFrame describe bytes = .error error := by
  rw [protocolFrame, if_neg (by omega), if_pos h]
  exact ⟨_, rfl⟩

theorem readProtocolFrame_error {input rest : InputStream} {bytes : Bytes}
    (hread : readUntilLf (maxProtocolLine + 2) input = (.ok bytes, rest))
    (h : ∃ error, protocolFrame describe bytes = .error error) :
    ∃ error rest, readProtocolFrame describe input = (.error error, rest) := by
  obtain ⟨error, herror⟩ := h
  refine ⟨error, rest, ?_⟩
  simp only [readProtocolFrame, hread, herror]

/-- Too many bytes without an LF end the scan at the limit. -/
theorem readUntilLf_long {limit : Nat} {bytes : Bytes} {failure : Option IoError}
    (hlf : lf ∉ bytes.take limit) (hlength : limit ≤ bytes.length) :
    readUntilLf limit ⟨bytes, failure⟩ = (.ok (bytes.take limit), ⟨bytes.drop limit, failure⟩) := by
  have hfront : (bytes.take limit).length = limit := List.length_take_of_le hlength
  have hread := @readUntilLf_append limit _ (bytes.drop limit) failure hlf (Nat.le_of_eq hfront)
  rw [List.take_append_drop, hfront, Nat.sub_self, readUntilLf_zero] at hread
  simpa only [Except.map, List.append_nil] using hread

/-- Fewer bytes without an LF are read to the end of the file. -/
theorem readUntilLf_end {limit : Nat} {bytes : Bytes} (hlf : lf ∉ bytes)
    (hlength : bytes.length < limit) :
    readUntilLf limit ⟨bytes, none⟩ = (.ok bytes, ⟨[], none⟩) := by
  have hread := @readUntilLf_append limit bytes [] none hlf (Nat.le_of_lt hlength)
  rw [List.append_nil, readUntilLf_nil (by omega)] at hread
  simpa only [Except.map, List.append_nil] using hread

theorem protocolFrame_unterminated {bytes : Bytes} (hlf : lf ∉ bytes) (hnonempty : bytes ≠ []) :
    ∃ error, protocolFrame describe bytes = .error error := by
  have hlength := List.length_pos_iff.mpr hnonempty
  rw [protocolFrame, if_neg (by omega)]
  split
  next => exact ⟨_, rfl⟩
  next =>
    rw [if_pos fun hlast => hlf (List.mem_of_getLast? hlast)]
    exact ⟨_, rfl⟩

theorem protocolFrame_malformed {line : Bytes} (hshort : line.length ≤ maxProtocolLine)
    (htext : fromUtf8 line = none) :
    ∃ error, protocolFrame describe (line ++ [lf]) = .error error := by
  have hlength : (line ++ [lf]).length = line.length + 1 := by simp
  rw [protocolFrame, if_neg (by omega), if_neg (by omega), if_neg (by simp), List.dropLast_concat,
    htext]
  exact ⟨_, rfl⟩

/-- One call on a stream: it ends, or a line is read, or there is none to be read. -/
theorem readProtocolFrame_cases (bytes : Bytes) :
    (bytes = [] ∧ readProtocolFrame describe ⟨bytes, none⟩ = (.ok none, ⟨[], none⟩)) ∨
      (∃ line rest, Readable line ∧ bytes = utf8 line ++ lf :: rest ∧
        readProtocolFrame describe ⟨bytes, none⟩ = (.ok (some line), ⟨rest, none⟩)) ∨
      (Unreadable bytes ∧ ∃ error rest,
        readProtocolFrame describe ⟨bytes, none⟩ = (.error error, rest)) := by
  by_cases hlf : lf ∈ bytes
  · obtain ⟨line, rest, hline, rfl⟩ := exists_line_of_mem hlf
    have hconcat : (line ++ [lf]).length = line.length + 1 := by simp
    rcases Nat.lt_or_ge maxProtocolLine line.length with hlong | hshort
    · refine .inr (.inr ⟨.inr ⟨line, rest, hline, rfl, .inl hlong⟩, ?_⟩)
      rcases Nat.lt_or_ge line.length (maxProtocolLine + 2) with hlimit | hlimit
      · -- the LF is the last byte that the limit lets through
        apply readProtocolFrame_error describe (readUntilLf_line hline hlimit)
        exact protocolFrame_long describe (by omega)
      · -- the limit cuts the line, so no LF is read at all
        have htake : (line ++ lf :: rest).take (maxProtocolLine + 2) =
            line.take (maxProtocolLine + 2) := List.take_append_of_le_length hlimit
        have hfront : lf ∉ (line ++ lf :: rest).take (maxProtocolLine + 2) := by
          rw [htake]
          exact fun hmem => hline (List.mem_of_mem_take hmem)
        apply readProtocolFrame_error describe (readUntilLf_long hfront (by simp; omega))
        apply protocolFrame_long describe
        rw [htake, List.length_take_of_le hlimit]
        exact Nat.lt_succ_self _
    · have hread := @readUntilLf_line line rest none (maxProtocolLine + 2) hline (by omega)
      cases htext : fromUtf8 line with
      | some text =>
          obtain rfl := fromUtf8_eq_some.mp htext
          have hreadable : Readable text := ⟨hline, hshort⟩
          exact .inr (.inl ⟨text, rest, hreadable, rfl,
            readProtocolFrame_line describe rest none hreadable⟩)
      | none =>
          refine .inr (.inr ⟨.inr ⟨line, rest, hline, rfl, .inr htext⟩, ?_⟩)
          exact readProtocolFrame_error describe hread
            (protocolFrame_malformed describe hshort htext)
  · by_cases hnil : bytes = []
    · subst hnil
      exact .inl ⟨rfl, readProtocolFrame_end describe⟩
    · refine .inr (.inr ⟨.inl ⟨hlf, hnil⟩, ?_⟩)
      rcases Nat.lt_or_ge bytes.length (maxProtocolLine + 2) with hlimit | hlimit
      · -- the stream ends inside a line that is not too long yet
        apply readProtocolFrame_error describe (readUntilLf_end hlf hlimit)
        exact protocolFrame_unterminated describe hlf hnil
      · have hfront : lf ∉ bytes.take (maxProtocolLine + 2) :=
          fun hmem => hlf (List.mem_of_mem_take hmem)
        apply readProtocolFrame_error describe (readUntilLf_long hfront hlimit)
        apply protocolFrame_long describe
        rw [List.length_take_of_le hlimit]
        exact Nat.lt_succ_self _

end Cases

/-! ## Sequences of calls -/

namespace Delivery

variable (describe : Bytes → String)

/-- A call finds the end, a line or no line, as the stream does. -/
theorem readFrame_cases {input : Delivery} (hfailure : input.failure = none) :
    (input.stream.bytes = [] ∧ (readFrame describe input).1 = .ok none) ∨
      (∃ line rest, Readable line ∧ readFrame describe input = (.ok (some line), rest) ∧
        rest.failure = none ∧ input.stream.bytes = utf8 line ++ lf :: rest.stream.bytes) ∨
      (Unreadable input.stream.bytes ∧ ∃ error, (readFrame describe input).1 = .error error) := by
  have hstream : input.stream = ⟨input.stream.bytes, none⟩ := by rw [← hfailure]; rfl
  obtain ⟨hresult, hrest⟩ := readFrame_eq describe input
  rw [hstream] at hresult hrest
  rcases readProtocolFrame_cases describe input.stream.bytes with
    ⟨hempty, hread⟩ | ⟨line, rest, hline, hbytes, hread⟩ | ⟨hbad, error, rest, hread⟩
  · rw [hread] at hresult
    exact .inl ⟨hempty, hresult⟩
  · rw [hread] at hresult hrest
    refine .inr (.inl ⟨line, _, hline, Prod.ext hresult rfl, ?_, ?_⟩)
    · exact congrArg InputStream.failure hrest
    · rw [hrest, hbytes]
  · rw [hread] at hresult
    exact .inr (.inr ⟨hbad, error, hresult⟩)

/-- The calls return the lines up to the first that cannot be read. -/
theorem readFrames_eq {input : Delivery} (hfailure : input.failure = none) :
    ∃ remaining,
      input.stream.bytes = joinLines ((readFrames describe input).1.map utf8) ++ remaining ∧
      (∀ line ∈ (readFrames describe input).1, Readable line) ∧
      ((remaining = [] ∧ (readFrames describe input).2 = .ok ()) ∨
        (Unreadable remaining ∧ ∃ error, (readFrames describe input).2 = .error error)) := by
  fun_induction readFrames describe input with
  | case1 input after hread =>
      rcases readFrame_cases describe hfailure with ⟨hempty, _⟩ | ⟨line, rest, _, hline, _⟩ |
        ⟨_, error, herror⟩
      · exact ⟨[], hempty, by simp, .inl ⟨rfl, rfl⟩⟩
      · rw [hread] at hline
        cases hline
      · rw [hread] at herror
        cases herror
  | case2 input line rest hread ih =>
      rcases readFrame_cases describe hfailure with ⟨_, hend⟩ | ⟨read, after, hline, hcall, hnone,
        hbytes⟩ | ⟨_, error, herror⟩
      · rw [hread] at hend
        cases hend
      · rw [hread] at hcall
        cases hcall
        obtain ⟨remaining, hrest, hreadable, hending⟩ := ih hnone
        refine ⟨remaining, ?_, List.forall_mem_cons.mpr ⟨hline, hreadable⟩, hending⟩
        rw [hbytes, hrest, List.map_cons, joinLines_cons, List.append_assoc, List.cons_append]
      · rw [hread] at herror
        cases herror
  | case3 input error after hread =>
      rcases readFrame_cases describe hfailure with ⟨_, hend⟩ | ⟨line, rest, _, hline, _⟩ |
        ⟨hbad, _⟩
      · rw [hread] at hend
        cases hend
      · rw [hread] at hline
        cases hline
      · exact ⟨input.stream.bytes, rfl, by simp, .inr ⟨hbad, error, rfl⟩⟩

end Delivery

/-- What is left when no further line is read. -/
def Ended (remaining : Bytes) : Prop := remaining = [] ∨ Unreadable remaining

theorem not_unreadable_nil : ¬Unreadable [] := by
  rintro (⟨_, hnonempty⟩ | ⟨line, rest, _, hbytes, _⟩)
  · exact hnonempty rfl
  · exact absurd hbytes (by simp)

theorem not_ended_line {line : String} {rest : Bytes} (hline : Readable line) :
    ¬Ended (utf8 line ++ lf :: rest) := by
  rintro (hempty | ⟨hlf, _⟩ | ⟨other, more, hother, heq, hbad⟩)
  · exact absurd hempty (by simp)
  · exact hlf (by simp)
  · obtain ⟨rfl, _⟩ := line_cons_inj hline.unbroken hother heq
    rcases hbad with hlong | htext
    · exact absurd hline.short (Nat.not_le.mpr hlong)
    · rw [fromUtf8_utf8] at htext
      cases htext

/-- A stream has one reading as lines and a rest that cannot be read. -/
theorem readable_lines_unique {first second : List String} {restFirst restSecond : Bytes}
    (hfirst : ∀ line ∈ first, Readable line) (hsecond : ∀ line ∈ second, Readable line)
    (hrestFirst : Ended restFirst) (hrestSecond : Ended restSecond)
    (h : joinLines (first.map utf8) ++ restFirst = joinLines (second.map utf8) ++ restSecond) :
    first = second ∧ restFirst = restSecond := by
  induction first generalizing second with
  | nil =>
      cases second with
      | nil => exact ⟨rfl, h⟩
      | cons line second =>
          rw [List.map_cons, joinLines_cons, List.append_assoc, List.cons_append] at h
          rw [show restFirst = _ from h] at hrestFirst
          exact absurd hrestFirst (not_ended_line (hsecond line List.mem_cons_self))
  | cons line first ih =>
      cases second with
      | nil =>
          rw [List.map_cons, joinLines_cons, List.append_assoc, List.cons_append] at h
          rw [show restSecond = _ from h.symm] at hrestSecond
          exact absurd hrestSecond (not_ended_line (hfirst line List.mem_cons_self))
      | cons other second =>
          simp only [List.map_cons, joinLines_cons, List.append_assoc, List.cons_append] at h
          obtain ⟨hline, hrest⟩ := line_cons_inj (hfirst line List.mem_cons_self).unbroken
            (hsecond other List.mem_cons_self).unbroken h
          obtain ⟨hlines, hends⟩ := ih
            (fun line hline => hfirst line (List.mem_cons_of_mem _ hline))
            (fun line hline => hsecond line (List.mem_cons_of_mem _ hline)) hrest
          exact ⟨congrArg₂ List.cons (utf8_injective hline) hlines, hends⟩

namespace Delivery

variable (describe : Bytes → String)

/-- Readable lines are read back, one for each call. -/
theorem readFrames_lines {lines : List String} {input : Delivery}
    (hfailure : input.failure = none) (hlines : ∀ line ∈ lines, Readable line)
    (hbytes : input.stream.bytes = joinLines (lines.map utf8)) :
    readFrames describe input = (lines, .ok ()) := by
  obtain ⟨remaining, hread, hreadable, hending⟩ := readFrames_eq describe hfailure
  obtain ⟨hsame, hempty⟩ := readable_lines_unique hreadable hlines (hending.imp And.left And.left)
    (.inl rfl) (hread.symm.trans (hbytes.trans (List.append_nil _).symm))
  rcases hending with ⟨_, hok⟩ | ⟨hbad, _⟩
  · exact Prod.ext hsame hok
  · rw [hempty] at hbad
    exact absurd hbad not_unreadable_nil

/-- Frames that follow each other are read back as their lines. -/
theorem readFrames_messages {messages : List Message} {input : Delivery}
    (hfailure : input.failure = none)
    (hbytes : input.stream.bytes = messages.flatMap fun message => utf8 message.encode) :
    readFrames describe input = (messages.map Message.line, .ok ()) := by
  apply readFrames_lines describe hfailure
  · intro line hline
    obtain ⟨message, _, rfl⟩ := List.mem_map.mp hline
    exact Message.readable_encode message.line_append
  · rw [hbytes, List.map_map, joinLines, List.flatMap_map]
    apply List.flatMap_congr
    intro message _
    rw [← message.line_append, utf8_append]
    rfl

/-- For every delivery of a byte stream, the calls return its lines up to the first that
is too long, is no UTF-8 or has no LF; a line takes exactly its bytes and its LF, the
end is found exactly when nothing is left, and every frame can be read back. -/
theorem frames_of_delivery :
    (∀ input : Delivery, input.failure = none →
      (∀ line rest, readFrame describe input = (.ok (some line), rest) →
        input.stream.bytes = utf8 line ++ lf :: rest.stream.bytes) ∧
      ((readFrame describe input).1 = .ok none ↔ input.stream.bytes = []) ∧
      ∃ remaining,
        input.stream.bytes = joinLines ((readFrames describe input).1.map utf8) ++ remaining ∧
        (∀ line ∈ (readFrames describe input).1, Readable line) ∧
        ((remaining = [] ∧ (readFrames describe input).2 = .ok ()) ∨
          (Unreadable remaining ∧ ∃ error, (readFrames describe input).2 = .error error))) ∧
    (∀ message : Message, ∃ line, message.encode = line ++ "\n" ∧ Readable line) ∧
    ∀ (input : Delivery) (messages : List Message), input.failure = none →
      input.stream.bytes = messages.flatMap (fun message => utf8 message.encode) →
      readFrames describe input = (messages.map Message.line, .ok ()) := by
  refine ⟨?_, fun message => ⟨message.line, message.line_append.symm,
    Message.readable_encode message.line_append⟩, ?_⟩
  · intro input hfailure
    refine ⟨fun line rest hread => (stream_of_readFrame describe hread).1, ?_,
      readFrames_eq describe hfailure⟩
    rcases readFrame_cases describe hfailure with ⟨hempty, hend⟩ | ⟨line, rest, _, hread, _,
      hbytes⟩ | ⟨hbad, error, herror⟩
    · exact ⟨fun _ => hempty, fun _ => hend⟩
    · rw [hread, hbytes]
      simp
    · rw [herror]
      refine ⟨fun h => absurd h (by simp), ?_⟩
      intro hempty
      rw [hempty] at hbad
      exact absurd hbad not_unreadable_nil
  · intro input messages hfailure hbytes
    exact readFrames_messages describe hfailure hbytes

/-- A greeting that arrives byte by byte, each read interrupted once. -/
def bytewiseHello : Delivery :=
  ⟨[], (utf8 (hello 7)).flatMap fun byte => [.interrupted, .chunk byte []], none⟩

theorem frames_of_delivery_bytewise :
    readFrames (fun _ => "") bytewiseHello = ([Message.line (.hello 7)], .ok ()) := by
  apply (frames_of_delivery _).2.2 bytewiseHello [.hello 7] rfl
  simp [stream, bytewiseHello, List.flatMap_assoc, Arrival.bytes, Message.encode]

end Delivery

end Oasi
