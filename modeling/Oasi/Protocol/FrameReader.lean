import Oasi.Foundation.Io
import Oasi.Protocol.Requests
import Oasi.Protocol.Tokens

/-! # Reading frames

A pipe is read one bounded line at a time. A line that is too long, is not UTF-8 or
ends before its line ending is an error, so the lines that were read are, with
their line endings, the bytes that were consumed.
-/

namespace Oasi

/-- What is still to come out of a pipe, and the error it ends with, if it does not
end with the end of the file. -/
structure InputStream where
  bytes : Bytes
  failure : Option IoError

def maxProtocolLine : Nat := 1024

/-- `input.take(limit).read_until(LF)`: at most so many bytes, up to and including the
first LF. -/
def readUntilLf (limit : Nat) (input : InputStream) : Except IoError Bytes × InputStream :=
  let bytes := (readUntil lf (input.bytes.take limit)).1
  let rest := { input with bytes := input.bytes.drop bytes.length }
  if bytes.getLast? = some lf ∨ bytes.length = limit then (.ok bytes, rest)
  else
    match input.failure with
    | some error => (.error error, rest)
    | none => (.ok bytes, rest)

/-- A line that can be read as one frame. -/
structure Readable (line : String) : Prop where
  unbroken : lf ∉ utf8 line
  short : (utf8 line).length ≤ maxProtocolLine

section Reader

-- how the decoder describes bytes that are not UTF-8
variable (describe : Bytes → String)

/-- What `read_protocol_frame` makes of the bytes it has read. -/
def protocolFrame (bytes : Bytes) : Except IoError (Option String) :=
  if bytes.length = 0 then .ok none
  else if bytes.length > maxProtocolLine + 1 then
    .error ⟨.invalidData, "protocol line exceeds bound"⟩
  else if bytes.getLast? ≠ some lf then
    .error ⟨.unexpectedEof, "protocol line truncated before newline"⟩
  else
    match fromUtf8 bytes.dropLast with
    | some line => .ok (some line)
    | none => .error ⟨.invalidData, describe bytes.dropLast⟩

def readProtocolFrame (input : InputStream) : Except IoError (Option String) × InputStream :=
  match readUntilLf (maxProtocolLine + 2) input with
  | (.ok bytes, rest) => (protocolFrame describe bytes, rest)
  | (.error error, rest) => (.error error, rest)

/-! ## What was read -/

theorem protocolFrame_eq_line {bytes : Bytes} {line : String}
    (h : protocolFrame describe bytes = .ok (some line)) : bytes = utf8 line ++ [lf] := by
  unfold protocolFrame at h
  split at h
  next => cases h
  next =>
    split at h
    next => cases h
    next =>
      split at h
      next => cases h
      next hlast =>
        rw [not_not] at hlast
        split at h
        next text htext =>
          cases h
          rw [fromUtf8_eq_some.mp htext]
          exact (List.dropLast_append_getLast? _ hlast).symm
        next => cases h

theorem protocolFrame_eq_end {bytes : Bytes} (h : protocolFrame describe bytes = .ok none) :
    bytes = [] := by
  unfold protocolFrame at h
  split at h
  next hempty => exact List.length_eq_zero_iff.mp hempty
  next =>
    split at h
    next => cases h
    next =>
      split at h
      next => cases h
      next => split at h <;> cases h

theorem protocolFrame_line {line : String} (hbound : (utf8 line).length ≤ maxProtocolLine) :
    protocolFrame describe (utf8 line ++ [lf]) = .ok (some line) := by
  have hlength : (utf8 line ++ [lf]).length = (utf8 line).length + 1 := by simp
  rw [protocolFrame, if_neg (by omega), if_neg (by omega), if_neg (by simp)]
  simp

theorem readUntil_take (limit : Nat) (bytes : Bytes) :
    (readUntil lf (bytes.take limit)).1 ++
      bytes.drop (readUntil lf (bytes.take limit)).1.length = bytes := by
  have hfront : (readUntil lf (bytes.take limit)).1 <+: bytes :=
    ⟨_, by
      rw [← List.append_assoc, readUntil_append, List.take_append_drop]⟩
  exact List.prefix_iff_eq_append.mp hfront

theorem readUntilLf_eq_ok {limit : Nat} {input rest : InputStream} {bytes : Bytes}
    (h : readUntilLf limit input = (.ok bytes, rest)) :
    input.bytes = bytes ++ rest.bytes ∧ rest.failure = input.failure ∧
      (bytes = [] → 0 < limit → input.bytes = [] ∧ input.failure = none) := by
  have hconsumed := readUntil_take limit input.bytes
  by_cases hcomplete : (readUntil lf (input.bytes.take limit)).1.getLast? = some lf ∨
      (readUntil lf (input.bytes.take limit)).1.length = limit
  · simp only [readUntilLf, if_pos hcomplete, Prod.mk.injEq, Except.ok.injEq] at h
    obtain ⟨rfl, rfl⟩ := h
    refine ⟨hconsumed.symm, rfl, fun hempty hlimit => ?_⟩
    rw [hempty] at hcomplete
    rcases hcomplete with hlast | hlength
    · cases hlast
    · rw [List.length_nil] at hlength
      omega
  · simp only [readUntilLf, if_neg hcomplete] at h
    split at h
    next => cases h
    next hfailure =>
      rw [Prod.mk.injEq, Except.ok.injEq] at h
      obtain ⟨rfl, rfl⟩ := h
      refine ⟨hconsumed.symm, rfl, fun hempty hlimit => ⟨?_, hfailure⟩⟩
      by_contra hbytes
      refine readUntil_fst_ne_nil lf (fun htake => ?_) hempty
      rcases List.take_eq_nil_iff.mp htake with hzero | hnil
      · omega
      · exact hbytes hnil

/-- A line within the bound is read whole. -/
theorem readUntilLf_line {line rest : Bytes} {failure : Option IoError} {limit : Nat}
    (hline : lf ∉ line) (hbound : line.length < limit) :
    readUntilLf limit ⟨line ++ lf :: rest, failure⟩ = (.ok (line ++ [lf]), ⟨rest, failure⟩) := by
  have htake : (line ++ lf :: rest).take limit =
      line ++ lf :: rest.take (limit - line.length - 1) := by
    obtain ⟨more, hmore⟩ : ∃ more, limit = line.length + (more + 1) :=
      ⟨limit - line.length - 1, by omega⟩
    rw [hmore, List.take_length_add_append, List.take_succ_cons]
    simp
  have hread : (readUntil lf ((line ++ lf :: rest).take limit)).1 = line ++ [lf] := by
    rw [htake, readUntil_append_delimiter _ hline]
  simp only [readUntilLf, hread]
  rw [if_pos (.inl (by simp))]
  simp

theorem readProtocolFrame_eq_line {input rest : InputStream} {line : String}
    (h : readProtocolFrame describe input = (.ok (some line), rest)) :
    input.bytes = utf8 line ++ lf :: rest.bytes ∧ rest.failure = input.failure := by
  unfold readProtocolFrame at h
  split at h
  next bytes middle hread =>
    obtain ⟨hbytes, hfailure, _⟩ := readUntilLf_eq_ok hread
    rw [Prod.mk.injEq] at h
    obtain ⟨hframe, rfl⟩ := h
    rw [hbytes, protocolFrame_eq_line describe hframe, List.append_assoc]
    exact ⟨rfl, hfailure⟩
  next => cases h

theorem readProtocolFrame_eq_end {input rest : InputStream}
    (h : readProtocolFrame describe input = (.ok none, rest)) :
    input.bytes = [] ∧ input.failure = none := by
  unfold readProtocolFrame at h
  split at h
  next bytes middle hread =>
    obtain ⟨_, _, hend⟩ := readUntilLf_eq_ok hread
    rw [Prod.mk.injEq] at h
    exact hend (protocolFrame_eq_end describe h.1) (Nat.succ_pos _)
  next => cases h

theorem readProtocolFrame_line {line : String} (rest : Bytes) (failure : Option IoError)
    (hline : Readable line) :
    readProtocolFrame describe ⟨utf8 line ++ lf :: rest, failure⟩ =
      (.ok (some line), ⟨rest, failure⟩) := by
  have hshort := hline.short
  rw [readProtocolFrame, readUntilLf_line hline.unbroken (by omega)]
  simp only [protocolFrame_line describe hline.short]

theorem readProtocolFrame_end :
    readProtocolFrame describe ⟨[], none⟩ = (.ok none, ⟨[], none⟩) := rfl

end Reader

/-! ## Frames can be read -/

theorem readable_frame {line : String} {words : List String} {checksum : UInt64}
    (hwords : ∀ word ∈ words, Token word) (hcount : words.length ≤ 20)
    (h : line ++ "\n" = frame words checksum) : Readable line := by
  have hall := token_concat_hex16 hwords checksum
  rw [line_of_frame h]
  refine ⟨lf_not_mem_joinWords hall, ?_⟩
  have hlength := length_utf8_joinWords hall
  rw [List.length_append, List.length_singleton] at hlength
  have hbound : maxProtocolLine = 1024 := rfl
  omega

theorem readable_hello {line : String} {instanceId : UInt64}
    (h : line ++ "\n" = hello instanceId) : Readable line := by
  refine readable_frame (@token_append [protocolVersion, "HELLO"] [decimal instanceId] ?_ ?_)
    (by simp) h
  · decide +kernel
  · exact token_map_decimal [instanceId]

theorem readable_canonical {line : String} {expected : BoundExpectedAck}
    (h : line ++ "\n" = expected.canonical) : Readable line := by
  have hsimple : ∀ {operation : String} {id nonce : UInt64} {authority : AuthoritySnapshot},
      Token operation → line ++ "\n" = boundSimpleAck operation id nonce authority →
        Readable line := by
    intro operation id nonce authority hoperation h
    refine @readable_frame line ([protocolVersion, "BOUND_ACK", operation] ++
      ([id, nonce] ++ authorityFields authority).map decimal) _ ?_ (by simp [authorityFields]) h
    exact token_append (token_header (by decide +kernel) hoperation) (token_map_decimal _)
  cases expected with
  | work id nonce actions digest authority =>
      refine @readable_frame line ([protocolVersion, "BOUND_ACK", "WORK"] ++
        ([id, nonce, actions].map decimal ++ ([hex16 digest] ++
          (authorityFields authority).map decimal))) _ ?_ (by simp [authorityFields]) h
      refine token_append (token_header (by decide +kernel) (by decide +kernel)) ?_
      refine token_append (token_map_decimal _) (token_append ?_ (token_map_decimal _))
      exact List.forall_mem_singleton.mpr (token_hex16 digest)
  | rollback id nonce authority =>
      exact @hsimple "ROLLBACK" id nonce authority (by decide +kernel) h
  | probe id nonce authority => exact @hsimple "PROBE" id nonce authority (by decide +kernel) h
  | stop id nonce authority => exact @hsimple "STOP" id nonce authority (by decide +kernel) h

end Oasi
