import Oasi.Model.Policy
import Oasi.Protocol.Requests
import Oasi.Protocol.Tokens

/-! # Parsing requests

A request is accepted when its line is the canonical encoding of the numbers found
in it, and a work request only within the bound on its units. So the parsers are
the inverses of the encoders, over every line.
-/

namespace Oasi

inductive ChildRequest where
  | work (id nonce units : UInt64)
  | rollback (id nonce : UInt64)
  | probe (id nonce : UInt64)
  | stop (id nonce : UInt64)
  deriving DecidableEq, Repr

/-! ## Unbound frames -/

def workRequest (id nonce units : UInt64) : String :=
  frame [protocolVersion, "REQUEST", "WORK", decimal id, decimal nonce, decimal units]
    (protocolChecksum "REQUEST" "WORK" [id, nonce, units])

/-- A frame with an identifier and a nonce. -/
def simpleFrame (direction operation : String) (id nonce : UInt64) : String :=
  frame [protocolVersion, direction, operation, decimal id, decimal nonce]
    (protocolChecksum direction operation [id, nonce])

def rollbackRequest : UInt64 → UInt64 → String := simpleFrame "REQUEST" "ROLLBACK"

def probeRequest : UInt64 → UInt64 → String := simpleFrame "REQUEST" "PROBE"

def stopRequest : UInt64 → UInt64 → String := simpleFrame "REQUEST" "STOP"

def workAck (id nonce actions digest : UInt64) : String :=
  frame [protocolVersion, "ACK", "WORK", decimal id, decimal nonce, decimal actions, hex16 digest]
    (protocolChecksum "ACK" "WORK" [id, nonce, actions, digest])

def rollbackAck : UInt64 → UInt64 → String := simpleFrame "ACK" "ROLLBACK"

def probeAck : UInt64 → UInt64 → String := simpleFrame "ACK" "PROBE"

def stopAck : UInt64 → UInt64 → String := simpleFrame "ACK" "STOP"

/-- The canonical encoding. -/
def ChildRequest.encode : ChildRequest → String
  | .work id nonce units => workRequest id nonce units
  | .rollback id nonce => rollbackRequest id nonce
  | .probe id nonce => probeRequest id nonce
  | .stop id nonce => stopRequest id nonce

/-! ## Parsers -/

def parseWork (line : String) : Except ProtocolError ChildRequest := do
  let tokens ← exactTokens line 7
  let id ← parseCanonicalU64 (tokenAt tokens 3) "work id"
  let nonce ← parseCanonicalU64 (tokenAt tokens 4) "work nonce"
  let units ← parseCanonicalU64 (tokenAt tokens 5) "work units"
  failIf (units = 0 ∨ maxWorkUnits < units) ⟨"work units outside protocol bounds"⟩
  failIf (trimEndNewlines (workRequest id nonce units) ≠ line) ⟨"WORK request checksum mismatch"⟩
  return .work id nonce units

/-- The branches of `parse_request` for the other operations. -/
def parseSimple (operation field : String) (request : UInt64 → UInt64 → ChildRequest)
    (line : String) : Except ProtocolError ChildRequest := do
  let tokens ← exactTokens line 6
  let id ← parseCanonicalU64 (tokenAt tokens 3) (field ++ " id")
  let nonce ← parseCanonicalU64 (tokenAt tokens 4) (field ++ " nonce")
  failIf (trimEndNewlines (simpleFrame "REQUEST" operation id nonce) ≠ line)
    ⟨operation ++ " request checksum mismatch"⟩
  return request id nonce

def parseRequest (line : String) : Except ProtocolError ChildRequest :=
  match (splitWhitespace line).take 3 with
  | [version, direction, operation] =>
      if version ≠ protocolVersion ∨ direction ≠ "REQUEST" then
        .error ⟨"wrong protocol version or request type"⟩
      else if operation = "WORK" then parseWork line
      else if operation = "ROLLBACK" then parseSimple "ROLLBACK" "rollback" .rollback line
      else if operation = "PROBE" then parseSimple "PROBE" "probe" .probe line
      else if operation = "STOP" then parseSimple "STOP" "stop" .stop line
      else .error ⟨"unknown request operation"⟩
  | _ => .error ⟨"wrong protocol version or request type"⟩

def authorityFromTokens (tokens : List String) (start : Nat) :
    Except ProtocolError AuthoritySnapshot := do
  return {
    bodyUid := ← parseCanonicalU64 (tokenAt tokens start) "authority body_uid"
    epoch := ← parseCanonicalU64 (tokenAt tokens (start + 1)) "authority epoch"
    generation := ← parseCanonicalU64 (tokenAt tokens (start + 2)) "authority generation"
    certificate := ← parseCanonicalU64 (tokenAt tokens (start + 3)) "authority certificate"
    principalId := ← parseCanonicalU64 (tokenAt tokens (start + 4)) "authority principal"
    resourceId := ← parseCanonicalU64 (tokenAt tokens (start + 5)) "authority resource"
    actionId := ← parseCanonicalU64 (tokenAt tokens (start + 6)) "authority action" }

def parseBoundWork (line : String) : Except ProtocolError BoundChildRequest := do
  let tokens ← exactTokens line 14
  let id ← parseCanonicalU64 (tokenAt tokens 3) "work id"
  let nonce ← parseCanonicalU64 (tokenAt tokens 4) "work nonce"
  let units ← parseCanonicalU64 (tokenAt tokens 5) "work units"
  failIf (units = 0 ∨ maxWorkUnits < units) ⟨"work units outside protocol bounds"⟩
  let authority ← authorityFromTokens tokens 6
  failIf (trimEndNewlines (boundWorkRequest id nonce units authority) ≠ line)
    ⟨"bound WORK request checksum mismatch"⟩
  return .work id nonce units authority

def parseBoundSimple (operation line : String) : Except ProtocolError BoundChildRequest := do
  let tokens ← exactTokens line 13
  let id ← parseCanonicalU64 (tokenAt tokens 3) "request id"
  let nonce ← parseCanonicalU64 (tokenAt tokens 4) "request nonce"
  let authority ← authorityFromTokens tokens 5
  failIf (trimEndNewlines (boundSimpleRequest operation id nonce authority) ≠ line)
    ⟨"bound request checksum mismatch"⟩
  return if operation = "ROLLBACK" then .rollback id nonce authority
    else if operation = "PROBE" then .probe id nonce authority
    else .stop id nonce authority

def parseBoundRequest (line : String) : Except ProtocolError BoundChildRequest :=
  match (splitWhitespace line).take 3 with
  | [version, direction, operation] =>
      if version ≠ protocolVersion ∨ direction ≠ "BOUND_REQUEST" then
        .error ⟨"wrong protocol version or bound request type"⟩
      else if operation = "WORK" then parseBoundWork line
      else if operation = "ROLLBACK" ∨ operation = "PROBE" ∨ operation = "STOP" then
        parseBoundSimple operation line
      else .error ⟨"unknown bound request operation"⟩
  | _ => .error ⟨"wrong protocol version or bound request type"⟩

/-! ## What the parsers accept -/

theorem parseWork_eq_ok {line : String} {request : ChildRequest}
    (h : parseWork line = .ok request) :
    ∃ id nonce units, request = .work id nonce units ∧ line ++ "\n" = workRequest id nonce units ∧
      units ≠ 0 ∧ units ≤ maxWorkUnits := by
  simp only [parseWork, bind_eq_ok, failIf_eq_ok, not_not, not_or, UInt64.not_lt] at h
  obtain ⟨tokens, _, id, _, nonce, _, units, _, _, ⟨hpositive, hunits⟩, _, hline, hrequest⟩ := h
  cases hrequest
  refine ⟨id, nonce, units, rfl, ?_, hpositive, hunits⟩
  rw [← hline]
  exact (frame_eq _ _).symm

theorem parseSimple_eq_ok {operation field line : String}
    {make : UInt64 → UInt64 → ChildRequest} {request : ChildRequest}
    (h : parseSimple operation field make line = .ok request) :
    ∃ id nonce, request = make id nonce ∧
      line ++ "\n" = simpleFrame "REQUEST" operation id nonce := by
  simp only [parseSimple, bind_eq_ok, failIf_eq_ok, not_not] at h
  obtain ⟨tokens, _, id, _, nonce, _, _, hline, hrequest⟩ := h
  cases hrequest
  refine ⟨id, nonce, rfl, ?_⟩
  rw [← hline]
  exact (frame_eq _ _).symm

theorem parseBoundWork_eq_ok {line : String} {request : BoundChildRequest}
    (h : parseBoundWork line = .ok request) :
    ∃ id nonce units authority, request = .work id nonce units authority ∧
      line ++ "\n" = boundWorkRequest id nonce units authority ∧ units ≠ 0 ∧
      units ≤ maxWorkUnits := by
  simp only [parseBoundWork, bind_eq_ok, failIf_eq_ok, not_not, not_or, UInt64.not_lt] at h
  obtain ⟨tokens, _, id, _, nonce, _, units, _, _, ⟨hpositive, hunits⟩, authority, _, _, hline,
    hrequest⟩ := h
  cases hrequest
  refine ⟨id, nonce, units, authority, rfl, ?_, hpositive, hunits⟩
  rw [← hline]
  exact (frame_eq _ _).symm

theorem parseBoundSimple_eq_ok {operation line : String} {request : BoundChildRequest}
    (hoperation : operation = "ROLLBACK" ∨ operation = "PROBE" ∨ operation = "STOP")
    (h : parseBoundSimple operation line = .ok request) :
    line ++ "\n" = request.encode ∧ request.isWork = false := by
  simp only [parseBoundSimple, bind_eq_ok, failIf_eq_ok, not_not] at h
  obtain ⟨tokens, _, id, _, nonce, _, authority, _, _, hline, hrequest⟩ := h
  cases hrequest
  rw [← hline]
  rcases hoperation with rfl | rfl | rfl <;> exact ⟨(frame_eq _ _).symm, rfl⟩

/-! ## What the parsers read off a canonical line -/

/-- The tokens of a frame: its header, its numerals and the checksum. -/
theorem exactTokens_frame {line direction operation : String} {values : List UInt64}
    {checksum : UInt64} {count : Nat} (hdirection : Token direction) (hoperation : Token operation)
    (hcount : values.length + 4 = count)
    (h : line ++ "\n" =
      frame ([protocolVersion, direction, operation] ++ values.map decimal) checksum) :
    splitWhitespace line =
        [protocolVersion, direction, operation] ++ values.map decimal ++ [hex16 checksum] ∧
      exactTokens line count =
        .ok ([protocolVersion, direction, operation] ++ values.map decimal ++
          [hex16 checksum]) := by
  have hwords : ∀ word ∈ [protocolVersion, direction, operation] ++ values.map decimal ++
      [hex16 checksum], Token word := by
    refine token_concat_hex16 (token_append ?_ (token_map_decimal values)) checksum
    exact token_header hdirection hoperation
  rw [line_of_frame h]
  refine ⟨splitWhitespace_joinWords hwords, ?_⟩
  have htokens := exactTokens_joinWords hwords
  have hlength : ([protocolVersion, direction, operation] ++ values.map decimal ++
      [hex16 checksum]).length = count := by
    simp only [List.length_append, List.length_map, List.length_cons, List.length_nil]
    omega
  rwa [hlength] at htokens

theorem trimEndNewlines_of_frame {line : String} {words : List String} {checksum : UInt64}
    (h : line ++ "\n" = frame words checksum) : trimEndNewlines (frame words checksum) = line :=
  append_newline_injective ((frame_eq words checksum).symm.trans h.symm)

theorem parseRequest_work {line : String} {id nonce units : UInt64}
    (h : line ++ "\n" = workRequest id nonce units) (hpositive : units ≠ 0)
    (hunits : units ≤ maxWorkUnits) : parseRequest line = .ok (.work id nonce units) := by
  obtain ⟨hsplit, htokens⟩ := @exactTokens_frame line "REQUEST" "WORK" [id, nonce, units] _ 7
    (by decide +kernel) (by decide +kernel) rfl h
  have hline := trimEndNewlines_of_frame h
  have hwork : parseWork line = .ok (.work id nonce units) := by
    simp [parseWork, htokens, tokenAt, failIf, bind, Except.bind, pure, Except.pure, hpositive,
      UInt64.not_lt.mpr hunits, workRequest, hline]
  simp [parseRequest, hsplit, hwork]

theorem parseRequest_simple {line operation field : String}
    {make : UInt64 → UInt64 → ChildRequest} {id nonce : UInt64} (hoperation : Token operation)
    (h : line ++ "\n" = simpleFrame "REQUEST" operation id nonce) :
    (splitWhitespace line).take 3 = [protocolVersion, "REQUEST", operation] ∧
      parseSimple operation field make line = .ok (make id nonce) := by
  obtain ⟨hsplit, htokens⟩ := @exactTokens_frame line "REQUEST" operation [id, nonce] _ 6
    (by decide +kernel) hoperation rfl h
  have hline := trimEndNewlines_of_frame h
  refine ⟨by simp [hsplit], ?_⟩
  simp [parseSimple, htokens, tokenAt, failIf, bind, Except.bind, pure, Except.pure, simpleFrame,
    hline]

theorem parseBoundRequest_work {line : String} {id nonce units : UInt64}
    {authority : AuthoritySnapshot} (h : line ++ "\n" = boundWorkRequest id nonce units authority)
    (hpositive : units ≠ 0) (hunits : units ≤ maxWorkUnits) :
    parseBoundRequest line = .ok (.work id nonce units authority) := by
  have hframe := h
  rw [boundWorkRequest_eq] at hframe
  obtain ⟨hsplit, htokens⟩ := @exactTokens_frame line "BOUND_REQUEST" "WORK"
    ([id, nonce, units] ++ authorityFields authority) _ 14
    (by decide +kernel) (by decide +kernel) rfl hframe
  have hline : trimEndNewlines (boundWorkRequest id nonce units authority) = line :=
    trimEndNewlines_of_frame h
  have hwork : parseBoundWork line = .ok (.work id nonce units authority) := by
    simp only [authorityFields, List.cons_append, List.nil_append, List.map_cons, List.map_nil]
      at htokens
    simp [parseBoundWork, htokens, tokenAt, authorityFromTokens, failIf, bind, Except.bind, pure,
      Except.pure, hpositive, UInt64.not_lt.mpr hunits, hline]
  simp [parseBoundRequest, hsplit, hwork]

theorem parseBoundRequest_simple {line operation : String} {id nonce : UInt64}
    {authority : AuthoritySnapshot}
    (hoperation : operation = "ROLLBACK" ∨ operation = "PROBE" ∨ operation = "STOP")
    (h : line ++ "\n" = boundSimpleRequest operation id nonce authority) :
    parseBoundRequest line = .ok (if operation = "ROLLBACK" then .rollback id nonce authority
      else if operation = "PROBE" then .probe id nonce authority
      else .stop id nonce authority) := by
  have htoken : Token operation := by
    rcases hoperation with rfl | rfl | rfl <;> decide +kernel
  have hwork : operation ≠ "WORK" := by
    rcases hoperation with rfl | rfl | rfl <;> decide +kernel
  have hframe := h
  rw [boundSimpleRequest_eq] at hframe
  obtain ⟨hsplit, htokens⟩ := @exactTokens_frame line "BOUND_REQUEST" operation
    ([id, nonce] ++ authorityFields authority) _ 13 (by decide +kernel) htoken rfl hframe
  have hline : trimEndNewlines (boundSimpleRequest operation id nonce authority) = line :=
    trimEndNewlines_of_frame h
  have hsimple : parseBoundSimple operation line = .ok (if operation = "ROLLBACK" then
      .rollback id nonce authority else if operation = "PROBE" then .probe id nonce authority
      else .stop id nonce authority) := by
    simp only [authorityFields, List.cons_append, List.nil_append, List.map_cons, List.map_nil]
      at htokens
    simp [parseBoundSimple, htokens, tokenAt, authorityFromTokens, failIf, bind, Except.bind, pure,
      Except.pure, hline]
  simp [parseBoundRequest, hsplit, hwork, hoperation, hsimple]

/-! ## The parsers invert the encoders -/

/-- The units of a work request are within the protocol's bounds. -/
def ChildRequest.WithinUnits : ChildRequest → Prop
  | .work _ _ units => 1 ≤ units ∧ units ≤ maxWorkUnits
  | _ => True

def BoundChildRequest.WithinUnits : BoundChildRequest → Prop
  | .work _ _ units _ => 1 ≤ units ∧ units ≤ maxWorkUnits
  | _ => True

theorem one_le_iff_ne_zero {units : UInt64} : 1 ≤ units ↔ units ≠ 0 := by
  rw [UInt64.le_iff_toNat_le, Ne, ← UInt64.toNat_inj]
  exact Nat.one_le_iff_ne_zero

theorem parseRequest_encode {line : String} {request : ChildRequest}
    (h : line ++ "\n" = request.encode) (hunits : request.WithinUnits) :
    parseRequest line = .ok request := by
  cases request with
  | work id nonce units => exact parseRequest_work h (one_le_iff_ne_zero.mp hunits.1) hunits.2
  | rollback id nonce =>
      obtain ⟨hsplit, hsimple⟩ :=
        @parseRequest_simple line "ROLLBACK" "rollback" .rollback id nonce (by decide +kernel) h
      simp [parseRequest, hsplit, hsimple]
  | probe id nonce =>
      obtain ⟨hsplit, hsimple⟩ :=
        @parseRequest_simple line "PROBE" "probe" .probe id nonce (by decide +kernel) h
      simp [parseRequest, hsplit, hsimple]
  | stop id nonce =>
      obtain ⟨hsplit, hsimple⟩ :=
        @parseRequest_simple line "STOP" "stop" .stop id nonce (by decide +kernel) h
      simp [parseRequest, hsplit, hsimple]

theorem parseBoundRequest_encode {line : String} {request : BoundChildRequest}
    (h : line ++ "\n" = request.encode) (hunits : request.WithinUnits) :
    parseBoundRequest line = .ok request := by
  cases request with
  | work id nonce units authority =>
      exact parseBoundRequest_work h (one_le_iff_ne_zero.mp hunits.1) hunits.2
  | rollback id nonce authority => exact parseBoundRequest_simple (.inl rfl) h
  | probe id nonce authority => exact parseBoundRequest_simple (.inr (.inl rfl)) h
  | stop id nonce authority => exact parseBoundRequest_simple (.inr (.inr rfl)) h

theorem encode_of_parseRequest {line : String} {request : ChildRequest}
    (h : parseRequest line = .ok request) :
    line ++ "\n" = request.encode ∧ request.WithinUnits := by
  unfold parseRequest at h
  split at h
  next version direction operation _ =>
    split_ifs at h
    next =>
      obtain ⟨id, nonce, units, rfl, hline, hpositive, hunits⟩ := parseWork_eq_ok h
      exact ⟨hline, one_le_iff_ne_zero.mpr hpositive, hunits⟩
    next =>
      obtain ⟨id, nonce, rfl, hline⟩ := parseSimple_eq_ok h
      exact ⟨hline, trivial⟩
    next =>
      obtain ⟨id, nonce, rfl, hline⟩ := parseSimple_eq_ok h
      exact ⟨hline, trivial⟩
    next =>
      obtain ⟨id, nonce, rfl, hline⟩ := parseSimple_eq_ok h
      exact ⟨hline, trivial⟩
  next => cases h

theorem encode_of_parseBoundRequest {line : String} {request : BoundChildRequest}
    (h : parseBoundRequest line = .ok request) :
    line ++ "\n" = request.encode ∧ request.WithinUnits := by
  unfold parseBoundRequest at h
  split at h
  next version direction operation _ =>
    split_ifs at h
    next =>
      obtain ⟨id, nonce, units, authority, rfl, hline, hpositive, hunits⟩ := parseBoundWork_eq_ok h
      exact ⟨hline, one_le_iff_ne_zero.mpr hpositive, hunits⟩
    next hoperation =>
      obtain ⟨hline, hwork⟩ := parseBoundSimple_eq_ok hoperation h
      refine ⟨hline, ?_⟩
      cases request with
      | work id nonce units authority => cases hwork
      | rollback id nonce authority => trivial
      | probe id nonce authority => trivial
      | stop id nonce authority => trivial
  next => cases h

/-- Every accepted line is the canonical encoding of the request read from it, and
every canonical encoding of a request within the bounds is accepted as that request. -/
theorem requests_round_trip (line : String) :
    (∀ request, parseRequest line = .ok request ↔
      line ++ "\n" = request.encode ∧ request.WithinUnits) ∧
    ∀ request, parseBoundRequest line = .ok request ↔
      line ++ "\n" = request.encode ∧ request.WithinUnits :=
  ⟨fun _ => ⟨encode_of_parseRequest, fun h => parseRequest_encode h.1 h.2⟩,
    fun _ => ⟨encode_of_parseBoundRequest, fun h => parseBoundRequest_encode h.1 h.2⟩⟩

end Oasi
