import Oasi.Foundation.Checked
import Oasi.Protocol.Delivery

/-! # The child

The child greets its parent and answers every frame until a STOP. A textual test
decides which of the two families a frame is parsed in; no frame of one family passes
it for the other. So the child writes one acknowledgement for each request, and stops
with an error at the first frame that is no request.
-/

namespace Oasi

/-! ## The loop -/

/-- `text.starts_with(start)`. -/
def startsWith (text start : String) : Bool := start.toList.isPrefixOf text.toList

/-- How a frame was served: with an answer, after which the loop goes on with its
counter, or with the answer to a STOP. -/
inductive Served where
  | answered (response : String) (actions : UInt64)
  | stopped (response : String)
  deriving DecidableEq, Repr

/-- The action counter after one more action. -/
def countAction (actions : UInt64) : Except IoError UInt64 :=
  match checkedSucc actions with
  | some actions => .ok actions
  | none => .error (.ofMessage "child action counter overflow")

def serveBound (actions : UInt64) : BoundChildRequest → Except IoError Served
  | .work id nonce units authority => do
      let actions ← countAction actions
      return .answered (boundWorkAck id nonce actions (workDigest id units) authority) actions
  | .rollback id nonce authority => .ok (.answered (boundRollbackAck id nonce authority) actions)
  | .probe id nonce authority => .ok (.answered (boundProbeAck id nonce authority) actions)
  | .stop id nonce authority => .ok (.stopped (boundStopAck id nonce authority))

def serveUnbound (actions : UInt64) : ChildRequest → Except IoError Served
  | .work id nonce units => do
      let actions ← countAction actions
      return .answered (workAck id nonce actions (workDigest id units)) actions
  | .rollback id nonce => .ok (.answered (rollbackAck id nonce) actions)
  | .probe id nonce => .ok (.answered (probeAck id nonce) actions)
  | .stop id nonce => .ok (.stopped (stopAck id nonce))

/-- The error a frame that cannot be parsed ends the loop with. -/
def invalidRequest (error : ProtocolError) : IoError := ⟨.invalidData, error.detail⟩

/-- One frame. -/
def serve (actions : UInt64) (line : String) : Except IoError Served :=
  if startsWith line (protocolVersion ++ " BOUND_REQUEST ") then do
    let request ← (parseBoundRequest line).mapError invalidRequest
    serveBound actions request
  else do
    let request ← (parseRequest line).mapError invalidRequest
    serveUnbound actions request

section Loop

variable (describe : Bytes → String)

/-- The loop: the frames it writes and how it ends. -/
def serveFrames (actions : UInt64) (input : Delivery) : List String × Except IoError Unit :=
  match _hread : input.readFrame describe with
  | (.error error, _) => ([], .error error)
  | (.ok none, _) =>
      ([], .error ⟨.unexpectedEof, "child stdin closed before strict STOP request"⟩)
  | (.ok (some line), rest) =>
      match serve actions line with
      | .error error => ([], .error error)
      | .ok (.stopped response) => ([response], .ok ())
      | .ok (.answered response actions) =>
          (response :: (serveFrames actions rest).1, (serveFrames actions rest).2)
termination_by input.stream.bytes.length
decreasing_by
  all_goals
    have hbytes := (Delivery.stream_of_readFrame describe _hread).1
    rw [hbytes, List.length_append, List.length_cons]
    omega

/-- `child_loop`, whose writes succeed. -/
def childLoop (processId : UInt32) (input : Delivery) : List String × Except IoError Unit :=
  let (frames, result) := serveFrames describe 0 input
  (hello processId.toUInt64 :: frames, result)

end Loop

/-! ## Requests of both families -/

inductive AnyRequest where
  | unbound (request : ChildRequest)
  | bound (request : BoundChildRequest)
  deriving DecidableEq, Repr

namespace AnyRequest

def message : AnyRequest → Message
  | .unbound request => .unboundRequest request
  | .bound request => .boundRequest request

def WithinUnits : AnyRequest → Prop
  | .unbound request => request.WithinUnits
  | .bound request => request.WithinUnits

def isWork : AnyRequest → Bool
  | .unbound (.work ..) | .bound (.work ..) => true
  | _ => false

def isStop : AnyRequest → Bool
  | .unbound (.stop ..) | .bound (.stop ..) => true
  | _ => false

/-- The acknowledgement of a child that has counted so many actions. -/
def ack (actions : UInt64) : AnyRequest → Message
  | .unbound (.work id nonce units) => .unboundAck (.work id nonce actions (workDigest id units))
  | .unbound (.rollback id nonce) => .unboundAck (.rollback id nonce)
  | .unbound (.probe id nonce) => .unboundAck (.probe id nonce)
  | .unbound (.stop id nonce) => .unboundAck (.stop id nonce)
  | .bound request => .boundAck (request.ack actions)

/-- The Work requests of both kinds in a list. -/
def workCount (requests : List AnyRequest) : Nat := requests.countP isWork

/-- The acknowledgements of a list of requests, after so many actions. -/
def answers (actions : Nat) : List AnyRequest → List Message
  | [] => []
  | request :: rest =>
      request.ack (UInt64.ofNat (actions + workCount [request])) ::
        answers (actions + workCount [request]) rest

/-- The bytes of a list of requests. -/
def encoded (requests : List AnyRequest) : Bytes :=
  requests.flatMap fun request => utf8 request.message.encode

end AnyRequest

/-! ## Serving one frame -/

theorem startsWith_append (start rest : String) : startsWith (start ++ rest) start = true := by
  rw [startsWith, List.isPrefixOf_iff_prefix, String.toList_append]
  exact List.prefix_append _ _

/-- A frame starts with the version and its direction. -/
theorem Message.exists_line (message : Message) :
    ∃ rest, message.line = protocolVersion ++ " " ++ message.direction ++ " " ++ rest := by
  obtain ⟨checksum, hframe⟩ := message.exists_frame
  have hline := line_of_frame (message.line_append.trans hframe)
  refine ⟨joinWords (message.arguments ++ [hex16 checksum]), ?_⟩
  rw [hline, words, List.cons_append, List.cons_append, joinWords_cons (by simp),
    joinWords_cons (by simp)]
  simp only [String.append_assoc]

theorem startsWith_bound (request : BoundChildRequest) :
    startsWith (Message.boundRequest request).line
      (protocolVersion ++ " BOUND_REQUEST ") = true := by
  obtain ⟨rest, hline⟩ := (Message.boundRequest request).exists_line
  have hstart : protocolVersion ++ " " ++ "BOUND_REQUEST" ++ " " =
      protocolVersion ++ " BOUND_REQUEST " := by decide +kernel
  rw [hline, Message.direction, hstart]
  exact startsWith_append _ _

theorem startsWith_unbound (request : ChildRequest) :
    startsWith (Message.unboundRequest request).line (protocolVersion ++ " BOUND_REQUEST ") =
      false := by
  obtain ⟨rest, hline⟩ := (Message.unboundRequest request).exists_line
  apply Bool.eq_false_iff.mpr
  intro hstart
  have hchars : (Message.unboundRequest request).line.toList =
      (protocolVersion ++ " " ++ "REQUEST" ++ " ").toList ++ rest.toList := by
    rw [hline, String.toList_append, Message.direction]
  rw [startsWith, List.isPrefixOf_iff_prefix, hchars] at hstart
  -- the first letter of the direction already differs
  have hfront : (protocolVersion ++ " B").toList <+:
    (protocolVersion ++ " BOUND_REQUEST ").toList := by
    decide +kernel
  have hline_front : (protocolVersion ++ " B").toList <+:
      (protocolVersion ++ " " ++ "REQUEST" ++ " ").toList :=
    List.prefix_of_prefix_length_le (hfront.trans hstart) (List.prefix_append _ _)
      (by decide +kernel)
  revert hline_front
  decide +kernel

variable {actions : UInt64}

theorem countAction_eq (h : actions.toNat + 1 < UInt64.size) :
    countAction actions = .ok (UInt64.ofNat (actions.toNat + 1)) := by
  have hnext : checkedSucc actions = some (UInt64.ofNat (actions.toNat + 1)) := by
    rw [checkedSucc_eq_some]
    exact UInt64.toNat_ofNat_of_lt h
  rw [countAction, hnext]

namespace AnyRequest

/-- The parser of its family reads a request back. -/
theorem serve_eq {request : AnyRequest} (hunits : request.WithinUnits) :
    serve actions request.message.line =
      match request with
      | .unbound request => serveUnbound actions request
      | .bound request => serveBound actions request := by
  cases request with
  | unbound request =>
      have hparsed := parseRequest_encode (Message.unboundRequest request).line_append hunits
      rw [serve, message, startsWith_unbound, hparsed]
      rfl
  | bound request =>
      have hparsed := parseBoundRequest_encode (Message.boundRequest request).line_append hunits
      rw [serve, message, startsWith_bound, hparsed]
      rfl

/-- A request is answered, and the loop goes on with the actions counted. -/
theorem serve_request {request : AnyRequest} (hunits : request.WithinUnits)
    (hstop : request.isStop = false)
    (hroom : actions.toNat + workCount [request] < UInt64.size) :
    serve actions request.message.line =
      .ok (.answered
        (request.ack (UInt64.ofNat (actions.toNat + workCount [request]))).encode
        (UInt64.ofNat (actions.toNat + workCount [request]))) := by
  rw [serve_eq hunits]
  have hkept : ∀ response, (.ok (.answered response actions) : Except IoError Served) =
      .ok (.answered response (UInt64.ofNat (actions.toNat + 0))) := by
    intro response
    rw [Nat.add_zero, UInt64.ofNat_toNat]
  cases request with
  | unbound request =>
      cases request with
      | work id nonce units =>
          simp only [serveUnbound, countAction_eq hroom]
          rfl
      | rollback id nonce => exact hkept _
      | probe id nonce => exact hkept _
      | stop id nonce => cases hstop
  | bound request =>
      cases request with
      | work id nonce units authority =>
          simp only [serveBound, countAction_eq hroom]
          rfl
      | rollback id nonce authority => exact hkept _
      | probe id nonce authority => exact hkept _
      | stop id nonce authority => cases hstop

/-- A STOP is answered last. -/
theorem serve_stop {request : AnyRequest} (hstop : request.isStop = true) (counted : UInt64) :
    serve actions request.message.line = .ok (.stopped (request.ack counted).encode) := by
  cases request with
  | unbound request =>
      cases request with
      | stop id nonce => exact @serve_eq actions (.unbound (.stop id nonce)) trivial
      | _ => cases hstop
  | bound request =>
      cases request with
      | stop id nonce authority =>
          exact @serve_eq actions (.bound (.stop id nonce authority)) trivial
      | _ => cases hstop

/-- A full counter refuses the next action. -/
theorem serve_overflow {request : AnyRequest} (hunits : request.WithinUnits)
    (hwork : request.isWork = true) (hfull : actions.toNat + 1 = UInt64.size) :
    serve actions request.message.line =
      .error (.ofMessage "child action counter overflow") := by
  have hcount : countAction actions = .error (.ofMessage "child action counter overflow") := by
    rw [countAction, checkedSucc, if_neg (by omega)]
  rw [serve_eq hunits]
  cases request with
  | unbound request =>
      cases request with
      | work id nonce units =>
          simp only [serveUnbound, hcount]
          rfl
      | _ => cases hwork
  | bound request =>
      cases request with
      | work id nonce units authority =>
          simp only [serveBound, hcount]
          rfl
      | _ => cases hwork

/-- A line that is the frame of no request within the bounds is refused. -/
theorem serve_refused {line : String}
    (h : ∀ request : AnyRequest, request.WithinUnits → request.message.line ≠ line) :
    ∃ error, serve actions line = .error error := by
  have hmessage : ∀ message : Message, line ++ "\n" = message.encode → message.line = line := by
    intro message hline
    exact append_newline_injective (message.line_append.trans hline.symm)
  unfold serve
  split
  · cases hparsed : parseBoundRequest line with
    | error error => exact ⟨invalidRequest error, rfl⟩
    | ok request =>
        obtain ⟨hline, hunits⟩ := encode_of_parseBoundRequest hparsed
        exact absurd (hmessage (.boundRequest request) hline) (h (.bound request) hunits)
  · cases hparsed : parseRequest line with
    | error error => exact ⟨invalidRequest error, rfl⟩
    | ok request =>
        obtain ⟨hline, hunits⟩ := encode_of_parseRequest hparsed
        exact absurd (hmessage (.unboundRequest request) hline) (h (.unbound request) hunits)

end AnyRequest

/-! ## Serving a stream -/

section Stream

variable (describe : Bytes → String)

/-- The next line of a stream is the next frame. -/
theorem Delivery.readFrame_line {input : Delivery} {line : String} {rest : Bytes}
    (hline : Readable line) (hbytes : input.stream.bytes = utf8 line ++ lf :: rest) :
    ∃ after, input.readFrame describe = (.ok (some line), after) ∧
      after.stream = ⟨rest, input.failure⟩ := by
  obtain ⟨hresult, hrest⟩ := readFrame_eq describe input
  have hstream : input.stream = ⟨utf8 line ++ lf :: rest, input.failure⟩ := by rw [← hbytes]; rfl
  rw [hstream, readProtocolFrame_line describe rest input.failure hline] at hresult hrest
  exact ⟨_, Prod.ext hresult rfl, hrest⟩

namespace AnyRequest

theorem encoded_cons (request : AnyRequest) (rest : List AnyRequest) (tail : Bytes) :
    encoded (request :: rest) ++ tail =
      utf8 request.message.line ++ lf :: (encoded rest ++ tail) := by
  rw [encoded, List.flatMap_cons, ← request.message.line_append, utf8_append, List.append_assoc,
    List.append_assoc]
  rfl

/-- The first line of the stream is served first. -/
theorem serveFrames_line {input : Delivery} {line : String} {rest : Bytes}
    (hline : Readable line) (hbytes : input.stream.bytes = utf8 line ++ lf :: rest) :
    ∃ after : Delivery, after.stream = ⟨rest, input.failure⟩ ∧
      serveFrames describe actions input =
        match serve actions line with
        | .error error => ([], .error error)
        | .ok (.stopped response) => ([response], .ok ())
        | .ok (.answered response actions) =>
            (response :: (serveFrames describe actions after).1,
              (serveFrames describe actions after).2) := by
  obtain ⟨after, hread, hstream⟩ := input.readFrame_line describe hline hbytes
  refine ⟨after, hstream, ?_⟩
  rw [serveFrames]
  split
  next herror =>
    rw [hread] at herror
    cases herror
  next hend =>
    rw [hread] at hend
    cases hend
  next read other hnext =>
    rw [hread] at hnext
    cases hnext
    rfl

/-- Requests at the front of the stream are answered one by one. -/
theorem serveFrames_requests {requests : List AnyRequest} {input : Delivery} {tail : Bytes}
    (hrequests : ∀ request ∈ requests, request.WithinUnits ∧ request.isStop = false)
    (hroom : actions.toNat + workCount requests < UInt64.size)
    (hbytes : input.stream.bytes = encoded requests ++ tail) :
    ∃ after : Delivery, after.stream = ⟨tail, input.failure⟩ ∧
      serveFrames describe actions input =
        ((answers actions.toNat requests).map Message.encode ++
          (serveFrames describe (UInt64.ofNat (actions.toNat + workCount requests)) after).1,
          (serveFrames describe (UInt64.ofNat (actions.toNat + workCount requests)) after).2) := by
  induction requests generalizing actions input with
  | nil =>
      refine ⟨input, ?_, ?_⟩
      · rw [← show input.stream.bytes = tail from hbytes]
        rfl
      · rw [show workCount [] = 0 from rfl, Nat.add_zero, UInt64.ofNat_toNat]
        rfl
  | cons request rest ih =>
      obtain ⟨⟨hunits, hstop⟩, hrest⟩ := List.forall_mem_cons.mp hrequests
      have hcount : workCount (request :: rest) = workCount [request] + workCount rest := by
        rw [workCount, workCount, workCount, ← List.countP_append]
        rfl
      have hactions : (UInt64.ofNat (actions.toNat + workCount [request])).toNat =
          actions.toNat + workCount [request] := UInt64.toNat_ofNat_of_lt (by omega)
      rw [encoded_cons] at hbytes
      obtain ⟨next, hnext, hserved⟩ := @serveFrames_line actions describe input _ _
        (Message.readable_encode request.message.line_append) hbytes
      obtain ⟨after, hafter, hfinal⟩ :=
        @ih (UInt64.ofNat (actions.toNat + workCount [request])) next
        hrest (by omega) (congrArg InputStream.bytes hnext)
      refine ⟨after, ?_, ?_⟩
      · rw [hafter]
        exact congrArg (InputStream.mk tail) (congrArg InputStream.failure hnext)
      · rw [hserved, serve_request hunits hstop (by omega)]
        simp only [hfinal, hactions, hcount, answers, List.map_cons, List.cons_append,
          Nat.add_assoc]

/-- A STOP ends the loop, whatever follows it. -/
theorem serveFrames_stop {stop : AnyRequest} {input : Delivery} {more : Bytes}
    (hstop : stop.isStop = true) (hbytes : input.stream.bytes = encoded [stop] ++ more)
    (counted : UInt64) :
    serveFrames describe actions input = ([(stop.ack counted).encode], .ok ()) := by
  rw [encoded_cons] at hbytes
  obtain ⟨after, _, hserved⟩ := @serveFrames_line actions describe input _ _
    (Message.readable_encode stop.message.line_append) hbytes
  rw [hserved, serve_stop hstop counted]

/-- Bytes at whose front there is no request end the loop with an error. -/
theorem serveFrames_refused {input : Delivery} (hfailure : input.failure = none)
    (hrefused : ∀ request : AnyRequest, request.WithinUnits →
      ¬utf8 request.message.encode <+: input.stream.bytes) :
    ∃ error, serveFrames describe actions input = ([], .error error) := by
  rcases input.readFrame_cases describe hfailure with ⟨_, hend⟩ | ⟨line, rest, hline, _, _,
    hbytes⟩ | ⟨_, error, herror⟩
  · rw [serveFrames]
    split <;> simp_all
  · obtain ⟨after, _, hserved⟩ := @serveFrames_line actions describe input _ _ hline hbytes
    obtain ⟨error, herror⟩ := @serve_refused actions line fun request hunits hsame => by
      apply hrefused request hunits
      rw [hbytes, ← request.message.line_append, hsame, utf8_append]
      exact ⟨rest.stream.bytes, by rw [List.append_assoc]; rfl⟩
    refine ⟨error, ?_⟩
    rw [hserved, herror]
  · rw [serveFrames]
    split <;> simp_all

theorem length_answers (before : Nat) (requests : List AnyRequest) :
    (answers before requests).length = requests.length := by
  induction requests generalizing before with
  | nil => rfl
  | cons request rest ih => rw [answers, List.length_cons, ih, List.length_cons]

theorem getElem?_answers (before : Nat) (requests : List AnyRequest) (index : Nat) :
    (answers before requests)[index]? = requests[index]?.map fun request =>
      request.ack (UInt64.ofNat (before + workCount (requests.take (index + 1)))) := by
  induction requests generalizing before index with
  | nil => rfl
  | cons request rest ih =>
      cases index with
      | zero => rfl
      | succ index =>
          have hcount : workCount ((request :: rest).take (index + 2)) =
              workCount [request] + workCount (rest.take (index + 1)) := by
            rw [workCount, workCount, workCount, ← List.countP_append]
            rfl
          rw [answers, List.getElem?_cons_succ, List.getElem?_cons_succ, ih, hcount]
          simp only [Nat.add_assoc]

theorem answers_concat (before : Nat) (requests : List AnyRequest) (last : AnyRequest) :
    answers before (requests ++ [last]) = answers before requests ++
      [last.ack (UInt64.ofNat (before + workCount requests + workCount [last]))] := by
  induction requests generalizing before with
  | nil => rfl
  | cons request rest ih =>
      have hcount : workCount (request :: rest) = workCount [request] + workCount rest := by
        rw [workCount, workCount, workCount, ← List.countP_append]
        rfl
      rw [List.cons_append, answers, ih, answers, hcount, List.cons_append]
      simp only [Nat.add_assoc]

/-- An acknowledgement passes the validation against itself. -/
theorem accepts_ack (request : AnyRequest) (counted : UInt64) :
    (request.ack counted).Accepts (request.ack counted).line := by
  have hline := (request.ack counted).line_append
  cases request with
  | unbound request => cases request <;> exact Message.validateAck_eq_ok.mpr hline
  | bound request => exact validateBoundAck_eq_ok.mpr hline

/-- The frames are a greeting and one acknowledgement for each request, which are read
back line by line and pass the validation against what is expected of them. -/
def Acknowledged (processId : UInt32) (requests : List AnyRequest) (frames : List String) : Prop :=
  ∃ lines : List String, frames = hello processId.toUInt64 :: lines.map (· ++ "\n") ∧
    lines.length = requests.length ∧
    (∀ output : Delivery, output.failure = none → output.stream.bytes = frames.flatMap utf8 →
      output.readFrames describe =
        ((Message.hello processId.toUInt64).line :: lines, .ok ())) ∧
    ∀ index (hindex : index < requests.length), ∃ line, lines[index]? = some line ∧
      (requests[index].ack (UInt64.ofNat (workCount (requests.take (index + 1))))).Accepts line

theorem acknowledged_answers (processId : UInt32) (requests : List AnyRequest) :
    Acknowledged describe processId requests
      (hello processId.toUInt64 :: (answers 0 requests).map Message.encode) := by
  have hlines : (answers 0 requests).map Message.encode =
      ((answers 0 requests).map Message.line).map (· ++ "\n") := by
    rw [List.map_map]
    apply List.map_congr_left
    intro message _
    exact message.line_append.symm
  refine ⟨(answers 0 requests).map Message.line, by rw [hlines],
    by rw [List.length_map, length_answers], ?_, ?_⟩
  · intro output hfailure hbytes
    have hmessages : output.stream.bytes =
        (Message.hello processId.toUInt64 :: answers 0 requests).flatMap
          fun message => utf8 message.encode := by
      rw [hbytes, List.flatMap_cons, List.flatMap_cons, List.flatMap_map]
      rfl
    exact output.readFrames_messages describe hfailure hmessages
  · intro index hindex
    refine ⟨_, ?_, accepts_ack _ _⟩
    rw [List.getElem?_map, getElem?_answers, List.getElem?_eq_getElem hindex, Nat.zero_add]
    rfl

/-- The child acknowledges every request before a STOP and the STOP itself, and then
ends; at the first bytes that are no request it has acknowledged those before and fails. -/
theorem requests_acknowledged (processId : UInt32) {requests : List AnyRequest}
    (hrequests : ∀ request ∈ requests, request.WithinUnits ∧ request.isStop = false)
    (hcount : workCount requests < UInt64.size) :
    (∀ (stop : AnyRequest) (input : Delivery) (more : Bytes), stop.isStop = true →
      input.stream.bytes = encoded (requests ++ [stop]) ++ more →
      ∃ frames, childLoop describe processId input = (frames, .ok ()) ∧
        Acknowledged describe processId (requests ++ [stop]) frames) ∧
    ∀ (input : Delivery) (tail : Bytes), input.failure = none →
      input.stream.bytes = encoded requests ++ tail →
      (∀ request : AnyRequest, request.WithinUnits → ¬utf8 request.message.encode <+: tail) →
      ∃ frames error, childLoop describe processId input = (frames, .error error) ∧
        Acknowledged describe processId requests frames := by
  have hroom : (0 : UInt64).toNat + workCount requests < UInt64.size := by
    rwa [UInt64.toNat_zero, Nat.zero_add]
  constructor
  · intro stop input more hstop hbytes
    have hencoded : encoded (requests ++ [stop]) = encoded requests ++ encoded [stop] :=
      List.flatMap_append
    rw [hencoded, List.append_assoc] at hbytes
    obtain ⟨after, hafter, hserved⟩ := serveFrames_requests describe hrequests hroom hbytes
    refine ⟨_, ?_, acknowledged_answers describe processId (requests ++ [stop])⟩
    rw [childLoop, hserved, serveFrames_stop describe hstop (congrArg InputStream.bytes hafter) _,
      answers_concat, List.map_append]
    rfl
  · intro input tail hfailure hbytes hrefused
    obtain ⟨after, hafter, hserved⟩ := serveFrames_requests describe hrequests hroom hbytes
    have htail : after.stream.bytes = tail := congrArg InputStream.bytes hafter
    have hended : after.failure = none := (congrArg InputStream.failure hafter).trans hfailure
    obtain ⟨error, herror⟩ := @serveFrames_refused
      (UInt64.ofNat ((0 : UInt64).toNat + workCount requests))
      describe after hended (htail ▸ hrefused)
    refine ⟨_, error, ?_, acknowledged_answers describe processId requests⟩
    rw [childLoop, hserved, herror, List.append_nil]
    rfl

/-- The counter takes one action less than there are 64-bit words: the next Work request
is refused, and no STOP is reached. -/
theorem full_counter_refuses :
    ∃ (requests : List AnyRequest) (stop : AnyRequest),
      (∀ request ∈ requests, request.WithinUnits ∧ request.isStop = false) ∧
      stop.isStop = true ∧
      ∀ (describe : Bytes → String) (processId : UInt32) (input : Delivery),
        input.stream.bytes = encoded (requests ++ [stop]) →
        ∃ error, (childLoop describe processId input).2 = .error error := by
  let work : AnyRequest := .unbound (.work 1 1 1)
  let stop : AnyRequest := .bound (.stop 2 2 ⟨1, 1, 1, 1, 1, 1, 1⟩)
  have hwork : work.WithinUnits ∧ work.isStop = false := ⟨⟨by decide, by decide⟩, rfl⟩
  refine ⟨List.replicate (UInt64.size - 1) work ++ [work], stop, ?_, rfl, ?_⟩
  · intro request hrequest
    rcases List.mem_append.mp hrequest with hfirst | hlast
    · rw [List.eq_of_mem_replicate hfirst]
      exact hwork
    · rw [List.mem_singleton.mp hlast]
      exact hwork
  · intro describe processId input hbytes
    have hcount : workCount (List.replicate (UInt64.size - 1) work) = UInt64.size - 1 := by
      have hcounted : work.isWork = true := rfl
      rw [workCount, List.countP_replicate, if_pos hcounted]
    have hencoded : input.stream.bytes =
        encoded (List.replicate (UInt64.size - 1) work) ++ encoded [work, stop] := by
      rw [hbytes, List.append_assoc]
      exact List.flatMap_append
    obtain ⟨after, hafter, hserved⟩ := @serveFrames_requests 0 describe _ input _
      (fun request hrequest => List.eq_of_mem_replicate hrequest ▸ hwork)
      (by rw [hcount]; decide) hencoded
    rw [hcount] at hserved
    have hnext := congrArg InputStream.bytes hafter
    rw [← List.append_nil (encoded [work, stop]), encoded_cons] at hnext
    obtain ⟨_, _, hrefused⟩ := @serveFrames_line
      (UInt64.ofNat ((0 : UInt64).toNat + (UInt64.size - 1))) describe after _ _
      (Message.readable_encode work.message.line_append) hnext
    rw [serve_overflow hwork.1 rfl (by decide)] at hrefused
    rw [childLoop, hserved, hrefused]
    exact ⟨_, rfl⟩

/-- Work of both families and a probe before a STOP, all in one chunk. -/
def mixedRequests : List AnyRequest :=
  [.unbound (.work 1 1 5), .bound (.work 2 2 7 ⟨1, 1, 1, 100, 1, 10, 20⟩), .unbound (.probe 3 3)]

theorem requests_acknowledged_mixed :
    ∃ frames, childLoop (fun _ => "") 7
        ⟨encoded (mixedRequests ++ [.unbound (.stop 4 4)]), [.chunk 0 []], none⟩ =
          (frames, .ok ()) ∧
      Acknowledged (fun _ => "") 7 (mixedRequests ++ [.unbound (.stop 4 4)]) frames := by
  have hrequests : ∀ request ∈ mixedRequests, request.WithinUnits ∧ request.isStop = false := by
    intro request hrequest
    simp only [mixedRequests, List.mem_cons, List.not_mem_nil, or_false] at hrequest
    rcases hrequest with rfl | rfl | rfl
    · exact ⟨⟨by decide, by decide⟩, rfl⟩
    · exact ⟨⟨by decide, by decide⟩, rfl⟩
    · exact ⟨trivial, rfl⟩
  exact (requests_acknowledged (fun _ => "") 7 hrequests (by decide)).1 (.unbound (.stop 4 4)) _ [0]
    rfl rfl

end AnyRequest

end Stream

end Oasi
