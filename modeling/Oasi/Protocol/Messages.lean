import Oasi.Protocol.FrameReader
import Oasi.Protocol.Parse

/-! # The messages of the protocol

A frame of either family carries one message: a greeting, a request or an
acknowledgement. The words before the checksum determine the message, so a line has
one meaning at most, whichever validator reads it and whatever its checksum.
-/

namespace Oasi

/-! ## Unbound acknowledgements -/

inductive ExpectedAck where
  | work (id nonce actions digest : UInt64)
  | rollback (id nonce : UInt64)
  | probe (id nonce : UInt64)
  | stop (id nonce : UInt64)
  deriving DecidableEq, Repr

/-- The frame an acknowledgement is compared with. -/
def ExpectedAck.canonical : ExpectedAck → String
  | .work id nonce actions digest => workAck id nonce actions digest
  | .rollback id nonce => rollbackAck id nonce
  | .probe id nonce => probeAck id nonce
  | .stop id nonce => stopAck id nonce

def validateAck (line : String) (expected : ExpectedAck) : Except ProtocolError Unit :=
  let expectedLine := trimEndNewlines expected.canonical
  failIf (line ≠ expectedLine)
    ⟨"ACK mismatch: expected `" ++ expectedLine ++ "`, observed `" ++ line ++ "`"⟩

/-! ## Messages -/

/-- What a frame says. -/
inductive Message where
  | hello (instanceId : UInt64)
  | unboundRequest (request : ChildRequest)
  | unboundAck (expected : ExpectedAck)
  | boundRequest (request : BoundChildRequest)
  | boundAck (expected : BoundExpectedAck)
  deriving DecidableEq, Repr

namespace Message

/-- The frame of a message. -/
def encode : Message → String
  | .hello instanceId => Oasi.hello instanceId
  | .unboundRequest request => request.encode
  | .unboundAck expected => expected.canonical
  | .boundRequest request => request.encode
  | .boundAck expected => expected.canonical

/-- The frame without its line ending. -/
def line (message : Message) : String := trimEndNewlines message.encode

/-- A line is accepted with this meaning by the validator in charge. -/
def Accepts (line : String) : Message → Prop
  | .hello instanceId => validateHello line instanceId = .ok ()
  | .unboundRequest request => parseRequest line = .ok request
  | .unboundAck expected => validateAck line expected = .ok ()
  | .boundRequest request => parseBoundRequest line = .ok request
  | .boundAck expected => validateBoundAck line expected = .ok ()

end Message

/-! ## The words of a message -/

theorem hex16_injective {first second : UInt64} (h : hex16 first = hex16 second) :
    first = second := by
  have hvalue : ∀ value : UInt64, lowerHexNumber (utf8 (hex16 value)) = value.toNat := by
    intro value
    rw [hex16, lowerHexNumber_paddedHex]
    exact Nat.mod_eq_of_lt value.toNat_lt_size
  rw [← UInt64.toNat_inj, ← hvalue first, h, hvalue]

@[simp] theorem decimal_inj {first second : UInt64} :
    decimal first = decimal second ↔ first = second :=
  ⟨decimal_injective, congrArg decimal⟩

@[simp] theorem hex16_inj {first second : UInt64} : hex16 first = hex16 second ↔ first = second :=
  ⟨hex16_injective, congrArg hex16⟩

theorem Token.spaceless {word : String} (h : Token word) : Spaceless word := by
  intro hspace
  have hgraphic := (h.graphic ' ' hspace).1
  exact absurd hgraphic (by decide)

/-- The words of the authority behind the other words. -/
def authorityWords (authority : AuthoritySnapshot) : List String :=
  (authorityFields authority).map decimal

@[simp] theorem authorityWords_inj {first second : AuthoritySnapshot} :
    authorityWords first = authorityWords second ↔ first = second :=
  ⟨fun h => authorityFields_injective (map_decimal_injective h), congrArg authorityWords⟩

def ChildRequest.words : ChildRequest → List String
  | .work id nonce units => ["WORK", decimal id, decimal nonce, decimal units]
  | .rollback id nonce => ["ROLLBACK", decimal id, decimal nonce]
  | .probe id nonce => ["PROBE", decimal id, decimal nonce]
  | .stop id nonce => ["STOP", decimal id, decimal nonce]

def ExpectedAck.words : ExpectedAck → List String
  | .work id nonce actions digest =>
      ["WORK", decimal id, decimal nonce, decimal actions, hex16 digest]
  | .rollback id nonce => ["ROLLBACK", decimal id, decimal nonce]
  | .probe id nonce => ["PROBE", decimal id, decimal nonce]
  | .stop id nonce => ["STOP", decimal id, decimal nonce]

def BoundChildRequest.words : BoundChildRequest → List String
  | .work id nonce units authority =>
      ["WORK", decimal id, decimal nonce, decimal units] ++ authorityWords authority
  | .rollback id nonce authority =>
      ["ROLLBACK", decimal id, decimal nonce] ++ authorityWords authority
  | .probe id nonce authority => ["PROBE", decimal id, decimal nonce] ++ authorityWords authority
  | .stop id nonce authority => ["STOP", decimal id, decimal nonce] ++ authorityWords authority

def BoundExpectedAck.words : BoundExpectedAck → List String
  | .work id nonce actions digest authority =>
      ["WORK", decimal id, decimal nonce, decimal actions, hex16 digest] ++ authorityWords authority
  | .rollback id nonce authority =>
      ["ROLLBACK", decimal id, decimal nonce] ++ authorityWords authority
  | .probe id nonce authority => ["PROBE", decimal id, decimal nonce] ++ authorityWords authority
  | .stop id nonce authority => ["STOP", decimal id, decimal nonce] ++ authorityWords authority

theorem ChildRequest.words_injective {first second : ChildRequest}
    (h : first.words = second.words) : first = second := by
  cases first <;> cases second <;> simp_all [words]

theorem ExpectedAck.words_injective {first second : ExpectedAck}
    (h : first.words = second.words) : first = second := by
  cases first <;> cases second <;> simp_all [words]

theorem BoundChildRequest.words_injective {first second : BoundChildRequest}
    (h : first.words = second.words) : first = second := by
  cases first <;> cases second <;> simp_all [words]

theorem BoundExpectedAck.words_injective {first second : BoundExpectedAck}
    (h : first.words = second.words) : first = second := by
  cases first <;> cases second <;> simp_all [words]

namespace Message

/-- The word that tells the five validators apart. -/
def direction : Message → String
  | .hello _ => "HELLO"
  | .unboundRequest _ => "REQUEST"
  | .unboundAck _ => "ACK"
  | .boundRequest _ => "BOUND_REQUEST"
  | .boundAck _ => "BOUND_ACK"

/-- The words behind it. -/
def arguments : Message → List String
  | .hello instanceId => [decimal instanceId]
  | .unboundRequest request => request.words
  | .unboundAck expected => expected.words
  | .boundRequest request => request.words
  | .boundAck expected => expected.words

/-- The words of the frame before its checksum. -/
def words (message : Message) : List String :=
  protocolVersion :: message.direction :: message.arguments

/-- No two messages have the same words. -/
theorem words_injective {first second : Message} (h : first.words = second.words) :
    first = second := by
  obtain ⟨hdirection, harguments⟩ := List.cons.inj (List.cons.inj h).2
  cases first <;> cases second <;> simp [direction] at hdirection
  case hello.hello => exact congrArg hello (decimal_injective (List.cons.inj harguments).1)
  case unboundRequest.unboundRequest =>
    exact congrArg unboundRequest (ChildRequest.words_injective harguments)
  case unboundAck.unboundAck => exact congrArg unboundAck (ExpectedAck.words_injective harguments)
  case boundRequest.boundRequest =>
    exact congrArg boundRequest (BoundChildRequest.words_injective harguments)
  case boundAck.boundAck => exact congrArg boundAck (BoundExpectedAck.words_injective harguments)

/-- Every frame is the words of its message and a checksum. -/
theorem exists_frame (message : Message) :
    ∃ checksum, message.encode = frame message.words checksum := by
  cases message with
  | hello instanceId => exact ⟨_, rfl⟩
  | unboundRequest request => cases request <;> exact ⟨_, rfl⟩
  | unboundAck expected => cases expected <;> exact ⟨_, rfl⟩
  | boundRequest request => cases request <;> exact ⟨_, rfl⟩
  | boundAck expected => cases expected <;> exact ⟨_, rfl⟩

theorem line_append (message : Message) : message.line ++ "\n" = message.encode := by
  obtain ⟨checksum, hframe⟩ := message.exists_frame
  rw [line, hframe]
  exact (frame_eq message.words checksum).symm

theorem token_authorityWords (authority : AuthoritySnapshot) :
    ∀ word ∈ authorityWords authority, Token word :=
  token_map_decimal (authorityFields authority)

/-- The words of a frame are tokens. -/
theorem token_arguments (message : Message) : ∀ word ∈ message.arguments, Token word := by
  have hwork : Token "WORK" := by decide +kernel
  have hrollback : Token "ROLLBACK" := by decide +kernel
  have hprobe : Token "PROBE" := by decide +kernel
  have hstop : Token "STOP" := by decide +kernel
  cases message with
  | hello instanceId => exact List.forall_mem_singleton.mpr (token_decimal instanceId)
  | unboundRequest request =>
      cases request <;> simp [arguments, ChildRequest.words, token_decimal, hwork, hrollback,
        hprobe, hstop]
  | unboundAck expected =>
      cases expected <;> simp [arguments, ExpectedAck.words, token_decimal, token_hex16, hwork,
        hrollback, hprobe, hstop]
  | boundRequest request =>
      cases request <;> simpa [arguments, BoundChildRequest.words, token_decimal, hwork, hrollback,
        hprobe, hstop] using token_authorityWords _
  | boundAck expected =>
      cases expected <;> simpa [arguments, BoundExpectedAck.words, token_decimal, token_hex16,
        hwork, hrollback, hprobe, hstop] using token_authorityWords _

/-- There are few of them. -/
theorem length_arguments_le (message : Message) : message.arguments.length ≤ 12 := by
  cases message with
  | hello instanceId => exact Nat.succ_le_succ (Nat.zero_le _)
  | unboundRequest request => cases request <;> simp [arguments, ChildRequest.words]
  | unboundAck expected => cases expected <;> simp [arguments, ExpectedAck.words]
  | boundRequest request =>
      cases request <;> simp [arguments, BoundChildRequest.words, authorityWords, authorityFields]
  | boundAck expected =>
      cases expected <;> simp [arguments, BoundExpectedAck.words, authorityWords, authorityFields]

theorem token_words (message : Message) : ∀ word ∈ message.words, Token word := by
  have hversion : Token protocolVersion := by decide +kernel
  have hdirection : Token message.direction := by
    have hdirections : ∀ direction ∈ ["HELLO", "REQUEST", "ACK", "BOUND_REQUEST", "BOUND_ACK"],
        Token direction := by decide +kernel
    exact hdirections _ (by cases message <;> simp [direction])
  intro word hword
  simp only [words, List.mem_cons] at hword
  rcases hword with rfl | rfl | hword
  · exact hversion
  · exact hdirection
  · exact message.token_arguments word hword

/-- Every frame is short enough to be read back, whatever its fields. -/
theorem readable_encode {message : Message} {line : String} (h : line ++ "\n" = message.encode) :
    Readable line := by
  obtain ⟨checksum, hframe⟩ := message.exists_frame
  apply readable_frame message.token_words _ (h.trans hframe)
  have hlength := message.length_arguments_le
  simp only [words, List.length_cons]
  omega

/-- Different messages have different frames. -/
theorem encode_injective {first second : Message} (h : first.encode = second.encode) :
    first = second := by
  obtain ⟨firstChecksum, hfirst⟩ := first.exists_frame
  obtain ⟨secondChecksum, hsecond⟩ := second.exists_frame
  rw [hfirst, hsecond] at h
  apply words_injective
  -- nothing is asked of the checksums
  exact frame_injective (fun word hword => (first.token_words word hword).spaceless)
    (fun word hword => (second.token_words word hword).spaceless) h

/-! ## Acceptance -/

theorem validateAck_eq_ok {line : String} {expected : ExpectedAck} :
    validateAck line expected = .ok () ↔ line ++ "\n" = expected.canonical := by
  obtain ⟨checksum, hframe⟩ := (unboundAck expected).exists_frame
  have hcanonical : expected.canonical = frame (unboundAck expected).words checksum := hframe
  rw [validateAck, failIf_eq_ok, not_not, hcanonical]
  constructor
  · rintro rfl
    exact (frame_eq _ _).symm
  · intro h
    exact (trimEndNewlines_of_frame h).symm

/-- An accepted line is the frame of its meaning. -/
theorem encode_of_accepts {line : String} {message : Message} (h : message.Accepts line) :
    line ++ "\n" = message.encode := by
  cases message with
  | hello instanceId => exact validateHello_eq_ok.mp h
  | unboundRequest request => exact (encode_of_parseRequest h).1
  | unboundAck expected => exact validateAck_eq_ok.mp h
  | boundRequest request => exact (encode_of_parseBoundRequest h).1
  | boundAck expected => exact validateBoundAck_eq_ok.mp h

/-- A line is accepted for one meaning at most, among all validators and all the
values that they expect. -/
theorem meaning_unique {line : String} {first second : Message} (hfirst : first.Accepts line)
    (hsecond : second.Accepts line) : first = second := by
  apply encode_injective
  rw [← encode_of_accepts hfirst, ← encode_of_accepts hsecond]

theorem meaning_unique_hello :
    ∃! message : Message, message.Accepts (trimEndNewlines (Oasi.hello 7)) := by
  have hhello : Message.Accepts (trimEndNewlines (Oasi.hello 7)) (.hello 7) :=
    validateHello_eq_ok.mpr (frame_eq _ _).symm
  exact ⟨.hello 7, hhello, fun _ hother => meaning_unique hother hhello⟩

end Message

end Oasi
