import Oasi.Protocol.Frames

/-! # Bound requests and their acknowledgements

A bound request names its operation, its transaction and the authority it is
made under. The child answers it with the one acknowledgement that repeats these
and, for work, counts the actions so far.
-/

namespace Oasi

inductive BoundChildRequest where
  | work (id nonce units : UInt64) (authority : AuthoritySnapshot)
  | rollback (id nonce : UInt64) (authority : AuthoritySnapshot)
  | probe (id nonce : UInt64) (authority : AuthoritySnapshot)
  | stop (id nonce : UInt64) (authority : AuthoritySnapshot)
  deriving DecidableEq, Repr

namespace BoundChildRequest

/-- The canonical encoding. -/
def encode : BoundChildRequest → String
  | .work id nonce units authority => boundWorkRequest id nonce units authority
  | .rollback id nonce authority => boundRollbackRequest id nonce authority
  | .probe id nonce authority => boundProbeRequest id nonce authority
  | .stop id nonce authority => boundStopRequest id nonce authority

def nonce : BoundChildRequest → UInt64
  | .work _ nonce _ _ | .rollback _ nonce _ | .probe _ nonce _ | .stop _ nonce _ => nonce

def authority : BoundChildRequest → AuthoritySnapshot
  | .work _ _ _ authority | .rollback _ _ authority | .probe _ _ authority
  | .stop _ _ authority => authority

def isWork : BoundChildRequest → Bool
  | .work .. => true
  | _ => false

/-- The acknowledgement of a child that has counted so many actions. -/
def ack (actions : UInt64) : BoundChildRequest → BoundExpectedAck
  | .work id nonce units authority => .work id nonce actions (workDigest id units) authority
  | .rollback id nonce authority => .rollback id nonce authority
  | .probe id nonce authority => .probe id nonce authority
  | .stop id nonce authority => .stop id nonce authority

/-- The actions counted once the request has been carried out. -/
def counted (actions : Nat) (request : BoundChildRequest) : Nat :=
  if request.isWork then actions + 1 else actions

/-- The acknowledgements of a sequence of requests, after so many actions. -/
def answers (actions : Nat) : List BoundChildRequest → List BoundExpectedAck
  | [] => []
  | request :: rest =>
      request.ack (UInt64.ofNat (request.counted actions)) :: answers (request.counted actions) rest

/-- The actions after a sequence of requests. -/
def countedAll (actions : Nat) (requests : List BoundChildRequest) : Nat :=
  requests.foldl counted actions

@[simp] theorem length_answers (actions : Nat) (requests : List BoundChildRequest) :
    (answers actions requests).length = requests.length := by
  induction requests generalizing actions with
  | nil => rfl
  | cons request rest ih => rw [answers, List.length_cons, ih, List.length_cons]

theorem answers_append (actions : Nat) (first second : List BoundChildRequest) :
    answers actions (first ++ second) =
      answers actions first ++ answers (countedAll actions first) second := by
  induction first generalizing actions with
  | nil => rfl
  | cons request rest ih =>
      rw [List.cons_append, answers, ih, answers, List.cons_append]
      rfl

/-! ## What an encoding determines -/

def operation : BoundChildRequest → String
  | .work .. => "WORK"
  | .rollback .. => "ROLLBACK"
  | .probe .. => "PROBE"
  | .stop .. => "STOP"

/-- The numbers between the operation and the authority. -/
def numbers : BoundChildRequest → List UInt64
  | .work id nonce units _ => [id, nonce, units]
  | .rollback id nonce _ | .probe id nonce _ | .stop id nonce _ => [id, nonce]

def fields (request : BoundChildRequest) : List UInt64 :=
  request.numbers ++ authorityFields request.authority

theorem spaceless_operation (request : BoundChildRequest) : Spaceless request.operation := by
  have hoperations : ∀ operation ∈ ["WORK", "ROLLBACK", "PROBE", "STOP"], Spaceless operation := by
    decide
  exact hoperations _ (by cases request <;> simp [operation])

theorem encode_eq (request : BoundChildRequest) :
    request.encode =
      frame ([protocolVersion, "BOUND_REQUEST", request.operation] ++ request.fields.map decimal)
        (protocolChecksum "BOUND_REQUEST" request.operation request.fields) := by
  cases request with
  | work id nonce units authority => exact boundWorkRequest_eq id nonce units authority
  | rollback id nonce authority => exact boundSimpleRequest_eq "ROLLBACK" id nonce authority
  | probe id nonce authority => exact boundSimpleRequest_eq "PROBE" id nonce authority
  | stop id nonce authority => exact boundSimpleRequest_eq "STOP" id nonce authority

theorem length_numbers {first second : BoundChildRequest}
    (h : first.operation = second.operation) : first.numbers.length = second.numbers.length := by
  cases first <;> cases second <;> simp_all [operation, numbers]

theorem eq_of_parts {first second : BoundChildRequest}
    (hoperation : first.operation = second.operation) (hnumbers : first.numbers = second.numbers)
    (hauthority : first.authority = second.authority) : first = second := by
  cases first <;> cases second <;> simp_all [operation, numbers, authority]

/-- Different requests have different encodings. -/
theorem encode_injective {first second : BoundChildRequest} (h : first.encode = second.encode) :
    first = second := by
  rw [encode_eq, encode_eq] at h
  obtain ⟨hoperation, hfields⟩ :=
    request_injective first.spaceless_operation second.spaceless_operation h
  obtain ⟨hnumbers, hauthority⟩ := List.append_inj hfields (length_numbers hoperation)
  exact eq_of_parts hoperation hnumbers (authorityFields_injective hauthority)

end BoundChildRequest

namespace BoundExpectedAck

def nonce : BoundExpectedAck → UInt64
  | .work _ nonce _ _ _ | .rollback _ nonce _ | .probe _ nonce _ | .stop _ nonce _ => nonce

/-- An acknowledgement names its nonce after its operation and its identifier. -/
theorem canonical_words (expected : BoundExpectedAck) :
    ∃ operation id rest checksum,
      expected.canonical =
        frame ([protocolVersion, "BOUND_ACK", operation, id, decimal expected.nonce] ++ rest)
          checksum ∧
      ∀ word ∈ [protocolVersion, "BOUND_ACK", operation, id, decimal expected.nonce] ++ rest,
        Spaceless word := by
  have hheader : ∀ word ∈ [protocolVersion, "BOUND_ACK"], Spaceless word := by decide
  have hwords : ∀ {operation id nonce rest}, Spaceless operation →
      (∀ word ∈ rest, Spaceless word) →
      ∀ word ∈ [protocolVersion, "BOUND_ACK", operation, decimal id, decimal nonce] ++ rest,
        Spaceless word := by
    intro operation id nonce rest hoperation hrest word hword
    simp only [List.cons_append, List.nil_append, List.mem_cons] at hword
    rcases hword with rfl | rfl | rfl | rfl | rfl | hword
    · exact hheader _ (by simp)
    · exact hheader _ (by simp)
    · exact hoperation
    · exact spaceless_decimal _
    · exact spaceless_decimal _
    · exact hrest word hword
  -- the digest of WORK is the only word that is not decimal
  cases expected with
  | work id nonce actions digest authority =>
      refine ⟨"WORK", decimal id,
        [decimal actions, hex16 digest] ++ (authorityFields authority).map decimal, _, rfl,
        hwords (by decide) fun word hword => ?_⟩
      rcases List.mem_append.mp hword with hword | hword
      · simp only [List.mem_cons, List.not_mem_nil, or_false] at hword
        rcases hword with rfl | rfl
        · exact spaceless_decimal _
        · exact spaceless_hex16 _
      · exact spaceless_map_decimal _ word hword
  | rollback id nonce authority =>
      exact ⟨"ROLLBACK", decimal id, _, _, rfl, hwords (by decide) (spaceless_map_decimal _)⟩
  | probe id nonce authority =>
      exact ⟨"PROBE", decimal id, _, _, rfl, hwords (by decide) (spaceless_map_decimal _)⟩
  | stop id nonce authority =>
      exact ⟨"STOP", decimal id, _, _, rfl, hwords (by decide) (spaceless_map_decimal _)⟩

/-- The same frame acknowledges transactions of one nonce only. -/
theorem nonce_eq_of_canonical {first second : BoundExpectedAck}
    (h : first.canonical = second.canonical) : first.nonce = second.nonce := by
  obtain ⟨operation, id, rest, checksum, hfirst, hfirstWords⟩ := first.canonical_words
  obtain ⟨operation', id', rest', checksum', hsecond, hsecondWords⟩ := second.canonical_words
  rw [hfirst, hsecond] at h
  have hwords := frame_injective hfirstWords hsecondWords h
  simp only [List.cons_append, List.cons.injEq] at hwords
  exact decimal_injective hwords.2.2.2.2.1

/-- No line passes the validation of two transactions with different nonces. -/
theorem nonce_eq_of_validated {line : String} {first second : BoundExpectedAck}
    (hfirst : validateBoundAck line first = .ok ())
    (hsecond : validateBoundAck line second = .ok ()) :
    first.nonce = second.nonce := by
  rw [validateBoundAck_eq_ok] at hfirst hsecond
  exact nonce_eq_of_canonical (hfirst.symm.trans hsecond)

end BoundExpectedAck

@[simp] theorem BoundChildRequest.nonce_ack (request : BoundChildRequest) (actions : UInt64) :
    (request.ack actions).nonce = request.nonce := by
  cases request <;> rfl

end Oasi
