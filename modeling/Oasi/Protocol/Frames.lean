import Oasi.Foundation.Words
import Oasi.Ledger.Entry

/-! # Frames of the bound child protocol

A frame is one line of words: the protocol version, the direction, the
operation, the numbers and a checksum over all of them. A bound frame also
carries the seven identities of an authority snapshot. An acknowledgement is
validated by comparing it with the one frame that the request calls for.
-/

namespace Oasi

def protocolVersion : String := "OSIA-R1R1/1"

/-- Authority identity captured by the parent and echoed by the child. -/
structure AuthoritySnapshot where
  bodyUid : UInt64
  epoch : UInt64
  generation : UInt64
  certificate : UInt64
  principalId : UInt64
  resourceId : UInt64
  actionId : UInt64
  deriving DecidableEq, Repr

inductive BoundExpectedAck where
  | work (id nonce actions digest : UInt64) (authority : AuthoritySnapshot)
  | rollback (id nonce : UInt64) (authority : AuthoritySnapshot)
  | probe (id nonce : UInt64) (authority : AuthoritySnapshot)
  | stop (id nonce : UInt64) (authority : AuthoritySnapshot)
  deriving DecidableEq, Repr

structure ProtocolError where
  detail : String
  deriving DecidableEq, Repr

/-! ## Checksums -/

/-- The lowest `width` bytes of a number, least significant first. -/
def toLeBytes : Nat → Nat → Bytes
  | 0, _ => []
  | width + 1, value => UInt8.ofNat value :: toLeBytes width (value / 256)

def fnvBytes (hash : UInt64) (bytes : Bytes) : UInt64 :=
  bytes.foldl (fun hash byte => (hash ^^^ byte.toUInt64) * fnvPrime) hash

def fnvSegment (hash : UInt64) (bytes : Bytes) : UInt64 :=
  fnvBytes (fnvBytes hash (toLeBytes 8 bytes.length)) bytes

def protocolChecksum (direction operation : String) (fields : List UInt64) : UInt64 :=
  let hash := fnvSegment fnvOffset (utf8 protocolVersion)
  let hash := fnvSegment hash (utf8 direction)
  let hash := fnvSegment hash (utf8 operation)
  let hash := fnvBytes hash (toLeBytes 8 fields.length)
  fields.foldl (fun hash field => fnvBytes hash (toLeBytes 8 field.toNat)) hash

def hex16 (value : UInt64) : String := paddedHex 16 value.toNat

/-! ## Encoders -/

/-- One frame: the words, the checksum and the line ending. -/
def frame (words : List String) (checksum : UInt64) : String :=
  joinWords (words ++ [hex16 checksum]) ++ "\n"

def authorityFields (authority : AuthoritySnapshot) : List UInt64 :=
  [authority.bodyUid, authority.epoch, authority.generation, authority.certificate,
    authority.principalId, authority.resourceId, authority.actionId]

def hello (instanceId : UInt64) : String :=
  frame [protocolVersion, "HELLO", decimal instanceId]
    (protocolChecksum "HELLO" "INSTANCE" [instanceId])

def boundWorkRequest (id nonce units : UInt64) (authority : AuthoritySnapshot) : String :=
  frame ([protocolVersion, "BOUND_REQUEST", "WORK", decimal id, decimal nonce, decimal units] ++
      (authorityFields authority).map decimal)
    (protocolChecksum "BOUND_REQUEST" "WORK" ([id, nonce, units] ++ authorityFields authority))

def boundSimpleRequest (operation : String) (id nonce : UInt64) (authority : AuthoritySnapshot) :
    String :=
  frame ([protocolVersion, "BOUND_REQUEST", operation, decimal id, decimal nonce] ++
      (authorityFields authority).map decimal)
    (protocolChecksum "BOUND_REQUEST" operation ([id, nonce] ++ authorityFields authority))

def boundRollbackRequest : UInt64 → UInt64 → AuthoritySnapshot → String :=
  boundSimpleRequest "ROLLBACK"

def boundProbeRequest : UInt64 → UInt64 → AuthoritySnapshot → String := boundSimpleRequest "PROBE"

def boundStopRequest : UInt64 → UInt64 → AuthoritySnapshot → String := boundSimpleRequest "STOP"

def boundWorkAck (id nonce actions digest : UInt64) (authority : AuthoritySnapshot) : String :=
  frame ([protocolVersion, "BOUND_ACK", "WORK", decimal id, decimal nonce, decimal actions,
      hex16 digest] ++ (authorityFields authority).map decimal)
    (protocolChecksum "BOUND_ACK" "WORK"
      ([id, nonce, actions, digest] ++ authorityFields authority))

def boundSimpleAck (operation : String) (id nonce : UInt64) (authority : AuthoritySnapshot) :
    String :=
  frame ([protocolVersion, "BOUND_ACK", operation, decimal id, decimal nonce] ++
      (authorityFields authority).map decimal)
    (protocolChecksum "BOUND_ACK" operation ([id, nonce] ++ authorityFields authority))

def boundRollbackAck : UInt64 → UInt64 → AuthoritySnapshot → String := boundSimpleAck "ROLLBACK"

def boundProbeAck : UInt64 → UInt64 → AuthoritySnapshot → String := boundSimpleAck "PROBE"

def boundStopAck : UInt64 → UInt64 → AuthoritySnapshot → String := boundSimpleAck "STOP"

/-! ## Validation -/

def validateHello (line : String) (instanceId : UInt64) : Except ProtocolError Unit :=
  let expected := trimEndNewlines (hello instanceId)
  failIf (line ≠ expected)
    ⟨"HELLO mismatch: expected `" ++ expected ++ "`, observed `" ++ line ++ "`"⟩

/-- The frame an acknowledgement is compared with. -/
def BoundExpectedAck.canonical : BoundExpectedAck → String
  | .work id nonce actions digest authority => boundWorkAck id nonce actions digest authority
  | .rollback id nonce authority => boundRollbackAck id nonce authority
  | .probe id nonce authority => boundProbeAck id nonce authority
  | .stop id nonce authority => boundStopAck id nonce authority

def validateBoundAck (line : String) (expected : BoundExpectedAck) : Except ProtocolError Unit :=
  let expectedLine := trimEndNewlines expected.canonical
  failIf (line ≠ expectedLine)
    ⟨"bound ACK mismatch: expected `" ++ expectedLine ++ "`, observed `" ++ line ++ "`"⟩

/-! ## The digest of bounded work -/

/-- `value.rotate_left(count)` for `0 < count < 64`. -/
def rotateLeft (value count : UInt64) : UInt64 := (value <<< count) ||| (value >>> (64 - count))

/-- The accumulator after so many units. -/
def digestRounds (seed : UInt64) : Nat → UInt64
  | 0 => seed
  | index + 1 =>
      (rotateLeft (digestRounds seed index) 7 ^^^ UInt64.ofNat index * 0xd6e8feb86659fd93) +
        0xa0761d6478bd642f

def workDigest (id units : UInt64) : UInt64 :=
  digestRounds (id ^^^ rotateLeft units 17 ^^^ 0x9e3779b97f4a7c15) units.toNat

/-! ## What a frame determines -/

theorem spaceless_hex16 (value : UInt64) : Spaceless (hex16 value) := spaceless_paddedHex _ _

theorem toList_getLast?_joinWords (words : List String) {word : String} {char : Char}
    (h : word.toList.getLast? = some char) :
    (joinWords (words ++ [word])).toList.getLast? = some char := by
  cases words with
  | nil => simpa [joinWords] using h
  | cons head rest =>
      rw [joinWords, String.intercalate_append_of_ne_nil (by simp) (by simp),
        String.intercalate_singleton, String.toList_append, List.getLast?_append, h, Option.some_or]

theorem exists_last_hexDigit (value : UInt64) :
    ∃ char, (hex16 value).toList.getLast? = some char ∧ char ≠ '\n' := by
  have hlast : (hex16 value).toList.getLast? = some (value.toNat % 16).digitChar := by
    rw [hex16, paddedHex, String.toList_ofList, hexDigits, List.getLast?_concat]
  refine ⟨_, hlast, ?_⟩
  have hdigits : ∀ digit < 16, digit.digitChar ≠ '\n' := by decide
  exact hdigits _ (Nat.mod_lt _ (by decide))

/-- Trimming a frame removes its line ending. -/
theorem trimEndNewlines_frame (words : List String) (checksum : UInt64) :
    trimEndNewlines (frame words checksum) = joinWords (words ++ [hex16 checksum]) := by
  obtain ⟨char, hlast, hchar⟩ := exists_last_hexDigit checksum
  exact trimEndNewlines_line (toList_getLast?_joinWords words hlast) hchar

theorem frame_eq (words : List String) (checksum : UInt64) :
    frame words checksum = trimEndNewlines (frame words checksum) ++ "\n" := by
  rw [trimEndNewlines_frame, frame]

theorem append_newline_injective {first second : String} (h : first ++ "\n" = second ++ "\n") :
    first = second :=
  (String.append_left_inj "\n").mp h

theorem BoundExpectedAck.exists_frame (expected : BoundExpectedAck) :
    ∃ words checksum, expected.canonical = frame words checksum := by
  cases expected with
  | work id nonce actions digest authority => exact ⟨_, _, rfl⟩
  | rollback id nonce authority => exact ⟨_, _, rfl⟩
  | probe id nonce authority => exact ⟨_, _, rfl⟩
  | stop id nonce authority => exact ⟨_, _, rfl⟩

theorem BoundExpectedAck.canonical_eq (expected : BoundExpectedAck) :
    trimEndNewlines expected.canonical ++ "\n" = expected.canonical := by
  obtain ⟨words, checksum, hframe⟩ := expected.exists_frame
  rw [hframe]
  exact (frame_eq words checksum).symm

/-- An acknowledgement passes exactly when its line is the canonical frame. -/
theorem validateBoundAck_eq_ok {line : String} {expected : BoundExpectedAck} :
    validateBoundAck line expected = .ok () ↔ line ++ "\n" = expected.canonical := by
  obtain ⟨words, checksum, hframe⟩ := expected.exists_frame
  rw [validateBoundAck, failIf_eq_ok, not_not, hframe]
  constructor
  · rintro rfl
    exact (frame_eq words checksum).symm
  · intro h
    rw [frame_eq words checksum] at h
    exact append_newline_injective h

theorem validateHello_eq_ok {line : String} {instanceId : UInt64} :
    validateHello line instanceId = .ok () ↔ line ++ "\n" = hello instanceId := by
  rw [validateHello, failIf_eq_ok, not_not, hello]
  constructor
  · rintro rfl
    exact (frame_eq _ _).symm
  · intro h
    rw [frame_eq] at h
    exact append_newline_injective h

theorem spaceless_concat_hex16 {words : List String} (hwords : ∀ word ∈ words, Spaceless word)
    (checksum : UInt64) : ∀ word ∈ words ++ [hex16 checksum], Spaceless word := by
  intro word hword
  rcases List.mem_append.mp hword with hword | hword
  · exact hwords word hword
  · rw [List.mem_singleton.mp hword]
    exact spaceless_hex16 checksum

/-- A frame determines the words before its checksum. -/
theorem frame_injective {first second : List String} {firstChecksum secondChecksum : UInt64}
    (hfirst : ∀ word ∈ first, Spaceless word) (hsecond : ∀ word ∈ second, Spaceless word)
    (h : frame first firstChecksum = frame second secondChecksum) : first = second := by
  unfold frame at h
  have hwords := joinWords_injective (spaceless_concat_hex16 hfirst firstChecksum)
    (spaceless_concat_hex16 hsecond secondChecksum) (by simp) (by simp)
    (append_newline_injective h)
  rw [← List.concat_eq_append, ← List.concat_eq_append] at hwords
  exact List.init_eq_of_concat_eq hwords

theorem spaceless_map_decimal (values : List UInt64) :
    ∀ word ∈ values.map decimal, Spaceless word := by
  intro word hword
  obtain ⟨value, _, rfl⟩ := List.mem_map.mp hword
  exact spaceless_decimal value

theorem map_decimal_injective {first second : List UInt64}
    (h : first.map decimal = second.map decimal) : first = second :=
  List.map_injective_iff.mpr (fun _ _ => decimal_injective) h

theorem authorityFields_injective {first second : AuthoritySnapshot}
    (h : authorityFields first = authorityFields second) : first = second := by
  cases first
  cases second
  simpa [authorityFields] using h

/-- The words of a request: its operation and its numbers. -/
theorem spaceless_requestWords {operation : String} (hoperation : Spaceless operation)
    (values : List UInt64) :
    ∀ word ∈ [protocolVersion, "BOUND_REQUEST", operation] ++ values.map decimal,
      Spaceless word := by
  have hheader : ∀ word ∈ [protocolVersion, "BOUND_REQUEST"], Spaceless word := by decide
  intro word hword
  rcases List.mem_append.mp hword with hword | hword
  · rcases List.mem_append.mp (show word ∈ [protocolVersion, "BOUND_REQUEST"] ++ [operation] from
      hword) with hword | hword
    · exact hheader word hword
    · rwa [List.mem_singleton.mp hword]
  · exact spaceless_map_decimal values word hword

theorem boundWorkRequest_eq (id nonce units : UInt64) (authority : AuthoritySnapshot) :
    boundWorkRequest id nonce units authority =
      frame ([protocolVersion, "BOUND_REQUEST", "WORK"] ++
          ([id, nonce, units] ++ authorityFields authority).map decimal)
        (protocolChecksum "BOUND_REQUEST" "WORK"
          ([id, nonce, units] ++ authorityFields authority)) :=
  rfl

theorem boundSimpleRequest_eq (operation : String) (id nonce : UInt64)
    (authority : AuthoritySnapshot) :
    boundSimpleRequest operation id nonce authority =
      frame ([protocolVersion, "BOUND_REQUEST", operation] ++
          ([id, nonce] ++ authorityFields authority).map decimal)
        (protocolChecksum "BOUND_REQUEST" operation ([id, nonce] ++ authorityFields authority)) :=
  rfl

/-- Requests of one operation determine their numbers, and requests of different
operations differ. -/
theorem request_injective {operation operation' : String} {values values' : List UInt64}
    {checksum checksum' : UInt64} (hoperation : Spaceless operation)
    (hoperation' : Spaceless operation')
    (h : frame ([protocolVersion, "BOUND_REQUEST", operation] ++ values.map decimal) checksum =
      frame ([protocolVersion, "BOUND_REQUEST", operation'] ++ values'.map decimal) checksum') :
    operation = operation' ∧ values = values' := by
  have hwords := frame_injective (spaceless_requestWords hoperation values)
    (spaceless_requestWords hoperation' values') h
  obtain ⟨hheader, hvalues⟩ := List.append_inj hwords rfl
  rw [List.cons.injEq, List.cons.injEq, List.cons.injEq] at hheader
  exact ⟨hheader.2.2.1, map_decimal_injective hvalues⟩

end Oasi
