import Oasi.Runtime.Accepted
import Oasi.Runtime.ChildLoop

/-! # The runtime and its child

The two ends of the pipes run together: the child's loop reads what the runtime writes,
and the reader thread hands over what the loop writes. The runtime waits for the answer
to a request before it goes on, and the child for a request. So between the turns both
pipes are empty, and a request finds the child at the beginning of its loop.
-/

namespace Oasi

/-- A pipe loses nothing and keeps the order. It hands over what was written in pieces. -/
structure Pipe where
  arrivals : Bytes → List Arrival
  lossless : ∀ bytes, (arrivals bytes).flatMap Arrival.bytes = bytes

/-- What the reading end gets of a text. -/
def Pipe.deliver (pipe : Pipe) (written : String) : Delivery :=
  ⟨[], pipe.arrivals (utf8 written), none⟩

theorem Pipe.bytes_deliver (pipe : Pipe) (written : String) :
    (pipe.deliver written).stream.bytes = utf8 written := pipe.lossless (utf8 written)

/-- The child between two frames: its own count, and how the loop ended once it has. -/
structure Child where
  actions : UInt64
  result : Option (Except IoError Unit)

namespace Child

/-- The child after its HELLO. -/
def start : Child := ⟨0, none⟩

def ended (child : Child) (result : Except IoError Unit) : Child :=
  { child with result := some result }

section Loop

variable (describe : Bytes → String)

/-- One round of the loop: the frame that is written, if any, and the child after it. -/
def iterate (child : Child) (input : Delivery) : Option String × Child :=
  if child.result.isSome = true then (none, child)
  else
    match (input.readFrame describe).1 with
    | .error error => (none, child.ended (.error error))
    | .ok none =>
        (none, child.ended
          (.error ⟨.unexpectedEof, "child stdin closed before strict STOP request"⟩))
    | .ok (some line) =>
        match serve child.actions line with
        | .error error => (none, child.ended (.error error))
        | .ok (.stopped response) => (some response, child.ended (.ok ()))
        | .ok (.answered response actions) => (some response, { child with actions := actions })

/-- The rounds for some deliveries, with the frames in the order in which they are written. -/
def iterateAll (child : Child) : List Delivery → List String × Child
  | [] => ([], child)
  | input :: inputs =>
      let (response, next) := child.iterate describe input
      let (responses, last) := next.iterateAll inputs
      (response.toList ++ responses, last)

end Loop

/-! ## The loop, round by round -/

variable {describe : Bytes → String} {child : Child}

theorem iterateAll_ended (hended : child.result.isSome = true) (inputs : List Delivery) :
    child.iterateAll describe inputs = ([], child) := by
  induction inputs with
  | nil => rfl
  | cons input inputs ih =>
      rw [iterateAll, iterate, if_pos hended]
      dsimp only
      rw [ih]
      rfl

theorem iterateAll_append (child : Child) (first second : List Delivery) :
    child.iterateAll describe (first ++ second) =
      ((child.iterateAll describe first).1 ++
          ((child.iterateAll describe first).2.iterateAll describe second).1,
        ((child.iterateAll describe first).2.iterateAll describe second).2) := by
  induction first generalizing child with
  | nil => rfl
  | cons input inputs ih =>
      rw [List.cons_append, iterateAll, iterateAll]
      dsimp only
      rw [ih, List.append_assoc]

/-- A delivered line is served by one round. -/
theorem iterate_line (hrunning : child.result = none) {line : String} (hline : Readable line)
    {input : Delivery} (hbytes : input.stream.bytes = utf8 (line ++ "\n")) :
    child.iterate describe input =
      match serve child.actions line with
      | .error error => (none, child.ended (.error error))
      | .ok (.stopped response) => (some response, child.ended (.ok ()))
      | .ok (.answered response actions) => (some response, { child with actions := actions }) := by
  rw [utf8_append] at hbytes
  obtain ⟨_, hread, _⟩ := @Delivery.readFrame_line describe input line [] hline hbytes
  rw [iterate, hrunning, hread]
  rfl

/-- The frames of the loop are those of its rounds, however the lines arrive. -/
theorem serveFrames_iterateAll (hrunning : child.result = none) {lines : List String}
    (hlines : ∀ line ∈ lines, Readable line) {inputs : List Delivery}
    (hinputs : inputs.map (fun input => input.stream.bytes) =
      lines.map fun line => utf8 (line ++ "\n")) {input : Delivery}
    (hfailure : input.failure = none)
    (hbytes : input.stream.bytes = lines.flatMap fun line => utf8 (line ++ "\n")) :
    (serveFrames describe child.actions input).1 = (child.iterateAll describe inputs).1 := by
  induction lines generalizing child inputs input with
  | nil =>
      obtain rfl : inputs = [] := List.map_eq_nil_iff.mp hinputs
      rw [iterateAll]
      rcases input.readFrame_cases describe hfailure with ⟨_, hend⟩ | ⟨_, _, _, _, _, hfull⟩ |
        ⟨_, error, herror⟩
      · -- the end of the input writes nothing
        rw [serveFrames]
        split <;> simp_all
      · rw [hbytes] at hfull
        simp at hfull
      · rw [serveFrames]
        split <;> simp_all
  | cons line lines ih =>
      obtain ⟨first, rest, rfl⟩ : ∃ first rest, inputs = first :: rest := by
        cases inputs with
        | nil => simp at hinputs
        | cons first rest => exact ⟨first, rest, rfl⟩
      rw [List.map_cons, List.map_cons, List.cons.injEq] at hinputs
      obtain ⟨hline, hlines⟩ := List.forall_mem_cons.mp hlines
      have hfront : input.stream.bytes =
          utf8 line ++ lf :: lines.flatMap fun line => utf8 (line ++ "\n") := by
        rw [hbytes, List.flatMap_cons, utf8_append, List.append_assoc]
        rfl
      obtain ⟨after, hafter, hserved⟩ :=
        @AnyRequest.serveFrames_line child.actions describe input _ _ hline hfront
      rw [hserved, iterateAll, iterate_line hrunning hline hinputs.1]
      cases serve child.actions line with
      -- the loop has ended, and the rounds left read nothing
      | error error => simp [iterateAll_ended, ended]
      | ok served =>
          cases served with
          | stopped response => simp [iterateAll_ended, ended]
          | answered response actions =>
              have hkept := (congrArg InputStream.failure hafter).trans hfailure
              have hrest := @ih { child with actions := actions } hrunning hlines rest hinputs.2
                after hkept (congrArg InputStream.bytes hafter)
              simp [hrest]

end Child

/-! ## The composition -/

/-- What the environment still chooses for a turn: the answer of the schedule's channel,
the clock, the ledger file, the pieces in which the pipes hand over, and how often the
exit of the child is polled in vain. -/
structure Occasion where
  signal : Signal
  nowNs : UInt64
  ledgerOutcomes : List IoOutcome
  toChild : Pipe
  toParent : Pipe
  idlePolls : Nat
  statusText : String
  reaping : Reaping

namespace Occasion

variable (describe : Bytes → String)

/-- The round in which the child reads a request. -/
def round (occasion : Occasion) (child : Child) (command : String) : Option String × Child :=
  child.iterate describe (occasion.toChild.deliver command)

/-- The message that the reader thread makes of a frame. -/
def message (occasion : Occasion) (frame : String) : ReaderMessage :=
  match ((occasion.toParent.deliver frame).readFrame describe).1 with
  | .ok (some line) => .line line
  | .ok none => .eof
  | .error error => .error error.kind error.message

/-- The answer of the child; a child that does not answer has closed its output. -/
def exchange (occasion : Occasion) (child : Child) (command : String) : Exchange where
  early := []
  written := .ok ()
  late :=
    match (occasion.round describe child command).1 with
    | some frame => [occasion.message describe frame]
    | none => [.eof]
  disconnected := false
  reaping := occasion.reaping

/-- The child exits with success when its loop returned `Ok`. -/
def exit (occasion : Occasion) (child : Child) (command : String) : ExitWait where
  polls := List.replicate occasion.idlePolls (.ok none) ++
    [.ok (some ⟨(occasion.round describe child command).2.result matches some (.ok ()),
      occasion.statusText⟩)]
  readerPanicked := false
  remaining := [.eof]
  reaping := occasion.reaping

/-- The child is all that the runtime meets beside the clock and the ledger file. -/
def occurrence (occasion : Occasion) (child : Child) : Occurrence where
  signal := occasion.signal
  surroundings := {
    nowNs := occasion.nowNs
    exchange := occasion.exchange describe child
    exit := occasion.exit describe child
    ledgerOutcomes := occasion.ledgerOutcomes }

end Occasion

structure Pair where
  runtime : Runtime
  child : Child

/-- A turn of the runtime, and the rounds of the child for what was sent in it. -/
def composition (describe : Bytes → String) : Machine Pair Occasion TurnReport where
  step pair occasion :=
    let turn := Runtime.runtimeMachine.step pair.runtime (occasion.occurrence describe pair.child)
    (turn.1, {
      runtime := turn.2
      child := (pair.child.iterateAll describe
        ((sentIn turn.1.effects).map occasion.toChild.deliver)).2 })

/-! ### The stream of a run -/

section Streams

variable {describe : Bytes → String}

/-- What the child has to read in some turns, frame by frame. -/
def readIn (turns : List (Transition Pair Occasion TurnReport)) : List Delivery :=
  turns.flatMap fun turn => (sentIn turn.output.effects).map turn.input.toChild.deliver

theorem readIn_cons (turn : Transition Pair Occasion TurnReport)
    (turns : List (Transition Pair Occasion TurnReport)) :
    readIn (turn :: turns) =
      (sentIn turn.output.effects).map turn.input.toChild.deliver ++ readIn turns :=
  List.flatMap_cons

/-- The child of a run has gone through all rounds. -/
theorem child_run (pair : Pair) (occasions : List Occasion) :
    ((composition describe).run pair occasions).child =
      (pair.child.iterateAll describe
        (readIn ((composition describe).trace pair occasions))).2 := by
  induction occasions generalizing pair with
  | nil => rfl
  | cons occasion rest ih =>
      rw [Machine.run_cons, ih, Machine.trace, readIn_cons, Child.iterateAll_append]
      rfl

/-- Every turn writes whole lines. -/
theorem sentIn_transition (pair : Pair) (occasion : Occasion) :
    ∃ lines : List String, (∀ line ∈ lines, Readable line) ∧
      sentIn ((composition describe).transition pair occasion).output.effects =
        lines.map (· ++ "\n") := by
  obtain ⟨ok, hturn, _⟩ := Runtime.turn_of_transition pair.runtime
    (occasion.occurrence describe pair.child)
  obtain ⟨requests, hconversation, _⟩ := hturn.converses
  refine ⟨requests.map fun request => (Message.boundRequest request).line, ?_, ?_⟩
  · rintro _ hline
    obtain ⟨request, _, rfl⟩ := List.mem_map.mp hline
    exact Message.readable_encode (Message.boundRequest request).line_append
  · refine hconversation.sent.trans ?_
    rw [List.map_map]
    exact List.map_congr_left fun request _ => (Message.boundRequest request).line_append.symm

theorem readIn_trace (pair : Pair) (occasions : List Occasion) :
    ∃ lines : List String, (∀ line ∈ lines, Readable line) ∧
      (readIn ((composition describe).trace pair occasions)).map (fun input => input.stream.bytes) =
        lines.map fun line => utf8 (line ++ "\n") := by
  induction occasions generalizing pair with
  | nil => exact ⟨[], by simp, rfl⟩
  | cons occasion rest ih =>
      obtain ⟨lines, hlines, hsent⟩ := @sentIn_transition describe pair occasion
      obtain ⟨more, hmore, hrest⟩ := ih ((composition describe).transition pair occasion).after
      refine ⟨lines ++ more, List.forall_mem_append.mpr ⟨hlines, hmore⟩, ?_⟩
      rw [Machine.trace, readIn_cons, hsent, List.map_append, List.map_append]
      refine congrArg₂ (· ++ ·) ?_ hrest
      rw [List.map_map, List.map_map]
      exact List.map_congr_left fun line _ => occasion.toChild.bytes_deliver (line ++ "\n")

/-- The rounds of a run are the loop of the child over everything that was sent in it. -/
theorem serveFrames_run (pair : Pair) (occasions : List Occasion)
    (hrunning : pair.child.result = none) {input : Delivery} (hfailure : input.failure = none)
    (hbytes : input.stream.bytes = (readIn ((composition describe).trace pair occasions)).flatMap
      fun input => input.stream.bytes) :
    (serveFrames describe pair.child.actions input).1 =
      (pair.child.iterateAll describe
        (readIn ((composition describe).trace pair occasions))).1 := by
  obtain ⟨lines, hlines, hinputs⟩ := @readIn_trace describe pair occasions
  refine Child.serveFrames_iterateAll hrunning hlines hinputs hfailure ?_
  rw [hbytes, List.flatMap_def, hinputs, List.flatMap_def]

end Streams

section Answers

variable {describe : Bytes → String} {child : Child} {occasion : Occasion}
  {request : BoundChildRequest}

/-- The child counts and answers a request. -/
theorem round_request (hrunning : child.result = none) (hunits : request.WithinUnits)
    (hroom : request.counted child.actions.toNat < UInt64.size) :
    occasion.round describe child request.encode =
      (some (request.ack (UInt64.ofNat (request.counted child.actions.toNat))).canonical,
        { actions := UInt64.ofNat (request.counted child.actions.toNat)
          result := if (AnyRequest.bound request).isStop then some (.ok ()) else none }) := by
  have hline := (Message.boundRequest request).line_append
  have hreadable : Readable (Message.boundRequest request).line := Message.readable_encode hline
  have hbytes : (occasion.toChild.deliver request.encode).stream.bytes =
      utf8 ((Message.boundRequest request).line ++ "\n") := by
    rw [Pipe.bytes_deliver, hline]
    rfl
  have hcounted : request.counted child.actions.toNat =
      child.actions.toNat + AnyRequest.workCount [.bound request] := by
    cases request <;> rfl
  rw [Occasion.round, Child.iterate_line hrunning hreadable hbytes]
  cases hstop : (AnyRequest.bound request).isStop with
  | false =>
      have hserved := @AnyRequest.serve_request child.actions (.bound request) hunits hstop
        (hcounted ▸ hroom)
      rw [AnyRequest.message] at hserved
      rw [hserved, hcounted]
      simp [hrunning]
      rfl
  -- a STOP is answered with the count and ends the loop
  | true =>
      have hserved := @AnyRequest.serve_stop child.actions (.bound request) hstop
        (UInt64.ofNat (request.counted child.actions.toNat))
      rw [AnyRequest.message] at hserved
      have hkept : request.counted child.actions.toNat = child.actions.toNat := by
        cases request <;> simp [AnyRequest.isStop] at hstop
        rfl
      rw [hserved, hkept]
      simp [Child.ended]
      rfl

/-- The reader thread hands over an acknowledgement as it was written. -/
theorem message_canonical (expected : BoundExpectedAck) :
    occasion.message describe expected.canonical =
      .line (trimEndNewlines expected.canonical) := by
  have hline := BoundExpectedAck.canonical_eq expected
  have hbytes : (occasion.toParent.deliver expected.canonical).stream.bytes =
      utf8 (trimEndNewlines expected.canonical) ++ lf :: [] := by
    rw [Pipe.bytes_deliver]
    conv_lhs => rw [← hline, utf8_append]
    rfl
  obtain ⟨_, hread, _⟩ := @Delivery.readFrame_line describe _ _ [] (readable_canonical hline) hbytes
  rw [Occasion.message, hread]

/-- The answer to a request is its acknowledgement. -/
theorem exchange_answers (hrunning : child.result = none) (hunits : request.WithinUnits)
    (hroom : request.counted child.actions.toNat < UInt64.size) :
    (occasion.exchange describe child request.encode).Answers
      (request.ack (UInt64.ofNat (request.counted child.actions.toNat))) where
  written := rfl
  delivered := by
    refine ⟨_, BoundExpectedAck.canonical_eq _, ?_⟩
    rw [Occasion.exchange, round_request hrunning hunits hroom]
    simp only [List.nil_append, message_canonical]

/-- The child exits with success after a STOP. -/
theorem exit_clean (hrunning : child.result = none) {id nonce : UInt64}
    {authority : AuthoritySnapshot} :
    (occasion.exit describe child (boundStopRequest id nonce authority)).Clean where
  polls := by
    refine ⟨occasion.idlePolls, _, [], rfl, ?_⟩
    have hround := @round_request describe child occasion (.stop id nonce authority) hrunning
      trivial child.actions.toNat_lt_size
    rw [BoundChildRequest.encode] at hround
    rw [hround]
    rfl
  reader := rfl
  remaining := rfl

/-- The child after the requests of a turn: it has counted the Work among them, and goes
on unless it was stopped. -/
theorem iterateAll_requests (hrunning : child.result = none) {requests : List BoundChildRequest}
    (hsingle : requests.length ≤ 1) (hunits : ∀ request ∈ requests, request.WithinUnits)
    (hroom : BoundChildRequest.countedAll child.actions.toNat requests < UInt64.size) :
    (child.iterateAll describe
      ((requests.map BoundChildRequest.encode).map occasion.toChild.deliver)).2.actions =
        UInt64.ofNat (BoundChildRequest.countedAll child.actions.toNat requests) ∧
    ((∀ request ∈ requests, (AnyRequest.bound request).isStop = false) →
      (child.iterateAll describe ((requests.map BoundChildRequest.encode).map
        occasion.toChild.deliver)).2.result = none) := by
  match requests, hsingle with
  | [], _ =>
      exact ⟨(UInt64.ofNat_toNat).symm, fun _ => hrunning⟩
  | [request], _ =>
      have hround := @round_request describe child occasion request hrunning
        (hunits request List.mem_cons_self) hroom
      rw [Occasion.round] at hround
      simp only [List.map_cons, List.map_nil, Child.iterateAll, hround]
      refine ⟨rfl, fun hstops => ?_⟩
      rw [hstops request List.mem_cons_self]
      rfl

end Answers

end Oasi
