import Oasi.Broker.Database
import Oasi.Foundation.Checked
import Oasi.Foundation.Records

/-! # Frames and receipts

The broker sends signed frames to the guest and gets signed receipts back. Both
are records of fixed layout in network order, behind a count of their bytes.
-/

namespace Oasi.Broker

/-- The signatures of the `cryptography` package, under keys given as raw bytes. -/
structure Ed25519 where
  /-- `Ed25519PrivateKey.from_private_bytes(seed).sign(message)` -/
  sign : (seed message : Bytes) → Bytes
  /-- Whether `Ed25519PublicKey.from_public_bytes(key).verify(signature, message)`
  does not raise. -/
  verify : (key signature message : Bytes) → Bool
  length_sign : ∀ seed message, (sign seed message).length = 64

def magic : Bytes := utf8 "OASI2BT1"
def receiptMagic : Bytes := utf8 "OASI2BR2"
def version : Nat := 1
def kindPrepare : Nat := 1
def kindExecute : Nat := 2
def statusPrepared : Nat := 0x81
def statusEffectReceipt : Nat := 0x82
def leaseEpoch : Nat := 1
def maxFrame : Nat := 512

/-- `HEADER.size` -/
def headerSize : Nat := 80

/-- `RECEIPT_CORE.size` -/
def receiptCoreSize : Nat := 54
def receiptSignatureBytes : Nat := 64

/-- `b"rfc8032-test-2".ljust(16, b"\0")` -/
def keyId : Bytes := utf8 "rfc8032-test-2" ++ [0, 0]

/-- `CONTEXT` -/
def contextDigest : Bytes := sha256 (utf8 "OASI:S1:FIXTURE:CTX")
def preparePayload : Bytes := utf8 "FIXTURE_NOOP_V1"

def testOnlyPrivateSeed : Bytes :=
  [0x4c, 0xcd, 0x08, 0x9b, 0x28, 0xff, 0x96, 0xda, 0x9d, 0xb6, 0xc3, 0x46, 0xec, 0x11, 0x4e, 0x0f,
    0x5b, 0x8a, 0x31, 0x9f, 0x35, 0xab, 0xa6, 0x24, 0xda, 0x8c, 0xf6, 0xed, 0x4f, 0xb8, 0xa6, 0xfb]

def guestReceiptFixturePublicKey : Bytes :=
  [0xd7, 0x5a, 0x98, 0x01, 0x82, 0xb1, 0x0a, 0xb7, 0xd5, 0x4b, 0xfe, 0xd3, 0xc9, 0x64, 0x07, 0x3a,
    0x0e, 0xe1, 0x72, 0xf3, 0xda, 0xa6, 0x23, 0x25, 0xaf, 0x02, 0x1a, 0x68, 0xf7, 0x07, 0x51, 0x1a]

/-! ## Frames -/

/-- `HEADER.pack(...)` -/
def packHeader (kind : Nat) (payload : Bytes) : Bytes :=
  magic ++ (beBytes 1 version ++ (beBytes 1 kind ++ (beBytes 4 generation ++
    (beBytes 8 attempt ++ (beBytes 8 leaseEpoch ++ (contextDigest ++ (keyId ++
      beBytes 2 payload.length)))))))

/-- The frame behind a count of its bytes, and the digest of the frame. -/
def signedFrame (crypto : Ed25519) (kind : Nat) (payload : Bytes) :
    Except Raised (Bytes × Bytes) :=
  if kind ∉ [kindPrepare, kindExecute] ∨ payload.length > 128 then
    .error (.protocol "frame bounds")
  else
    let signed := packHeader kind payload ++ payload
    let raw := signed ++ crypto.sign testOnlyPrivateSeed signed
    .ok (beBytes 2 raw.length ++ raw, sha256 raw)

/-! ## Receipts -/

structure ReceiptCore where
  magic : Bytes
  version : Nat
  status : Nat
  generation : Nat
  attempt : Nat
  digest : Bytes
  deriving DecidableEq, Repr

/-- `RECEIPT_CORE.unpack(core)` -/
def ReceiptCore.unpack (core : Bytes) : ReceiptCore where
  magic := slice core 0 8
  version := beValue (slice core 8 1)
  status := beValue (slice core 9 1)
  generation := beValue (slice core 10 4)
  attempt := beValue (slice core 14 8)
  digest := slice core 22 32

def parseReceipt (crypto : Ed25519) (raw : Bytes) (expectedStatus : Nat) (expectedDigest : Bytes) :
    Except Raised Unit :=
  if raw.length ≠ receiptCoreSize + receiptSignatureBytes then .error (.protocol "receipt length")
  else
    let core := raw.take receiptCoreSize
    let signature := raw.drop receiptCoreSize
    if crypto.verify guestReceiptFixturePublicKey signature core = false then
      .error (.protocol "guest receipt fixture signature")
    else
      let fields := ReceiptCore.unpack core
      if fields.magic ≠ receiptMagic ∨ fields.version ≠ version ∨ fields.status ≠ expectedStatus ∨
          fields.generation ≠ generation ∨ fields.attempt ≠ attempt ∨
          fields.digest ≠ expectedDigest then
        .error (.protocol "receipt binding")
      else .ok ()

/-- The core that a receipt of this status for this digest has. -/
def receiptCore (status : Nat) (digest : Bytes) : Bytes :=
  receiptMagic ++ (beBytes 1 version ++ (beBytes 1 status ++ (beBytes 4 generation ++
    (beBytes 8 attempt ++ digest))))

/-- A receipt that the guest's key vouches for, as it stands on the wire. -/
structure Receipt (crypto : Ed25519) (status : Nat) (digest wire : Bytes) : Prop where
  status_lt : status < 256
  length_digest : digest.length = 32
  signed : ∃ signature : Bytes, signature.length = receiptSignatureBytes ∧
    crypto.verify guestReceiptFixturePublicKey signature (receiptCore status digest) = true ∧
    wire = beBytes 2 (receiptCoreSize + receiptSignatureBytes) ++
      (receiptCore status digest ++ signature)

/-! ## Lengths -/

theorem length_magic : magic.length = 8 := by decide

theorem length_receiptMagic : receiptMagic.length = 8 := by decide

theorem length_keyId : keyId.length = 16 := by decide

theorem length_contextDigest : contextDigest.length = 32 := length_sha256 _

theorem length_packHeader (kind : Nat) (payload : Bytes) :
    (packHeader kind payload).length = headerSize := by
  simp only [packHeader, List.length_append, length_magic, length_beBytes, length_contextDigest,
    length_keyId]
  rfl

theorem length_receiptCore {status : Nat} {digest : Bytes} (hdigest : digest.length = 32) :
    (receiptCore status digest).length = receiptCoreSize := by
  simp only [receiptCore, List.length_append, length_receiptMagic, length_beBytes, hdigest]
  rfl

/-! ## What a frame says -/

/-- The frame that is made of a payload, with its signature. -/
def rawFrame (crypto : Ed25519) (kind : Nat) (payload : Bytes) : Bytes :=
  packHeader kind payload ++ payload ++
    crypto.sign testOnlyPrivateSeed (packHeader kind payload ++ payload)

/-- A frame as it stands on the wire. -/
def framed (raw : Bytes) : Bytes := beBytes 2 raw.length ++ raw

/-- A kind and a payload that `signed_frame` takes. -/
def FrameFits (frame : Nat × Bytes) : Prop :=
  (frame.1 = kindPrepare ∨ frame.1 = kindExecute) ∧ frame.2.length ≤ 128

/-- Exactly these frames are made. -/
theorem signedFrame_eq_ok {crypto : Ed25519} {kind : Nat} {payload wire digest : Bytes} :
    signedFrame crypto kind payload = .ok (wire, digest) ↔
      FrameFits (kind, payload) ∧ wire = framed (rawFrame crypto kind payload) ∧
        digest = sha256 (rawFrame crypto kind payload) := by
  have hbounds : ¬(kind ∉ [kindPrepare, kindExecute] ∨ payload.length > 128) ↔
      FrameFits (kind, payload) := by
    rw [not_or, not_not, Nat.not_lt, FrameFits]
    simp
  rw [signedFrame, ← hbounds]
  by_cases hrefused : kind ∉ [kindPrepare, kindExecute] ∨ payload.length > 128
  · rw [if_pos hrefused]
    exact iff_of_false (by simp) fun h => h.1 hrefused
  · rw [if_neg hrefused, Except.ok.injEq, Prod.mk.injEq]
    simp only [hrefused, not_false_eq_true, true_and]
    exact ⟨fun h => ⟨h.1.symm, h.2.symm⟩, fun h => ⟨h.1.symm, h.2.symm⟩⟩

theorem length_rawFrame (crypto : Ed25519) (kind : Nat) (payload : Bytes) :
    (rawFrame crypto kind payload).length = headerSize + payload.length + 64 := by
  rw [rawFrame, List.length_append, List.length_append, length_packHeader, crypto.length_sign]

/-- The header tells the kind and the length of the payload. -/
theorem packHeader_injective {first second : Nat} {payload other : Bytes} (hfirst : first < 256)
    (hsecond : second < 256) (hpayload : payload.length < 65536) (hother : other.length < 65536)
    (h : packHeader first payload = packHeader second other) :
    first = second ∧ payload.length = other.length := by
  unfold packHeader at h
  have hkinds := List.append_inj_right (List.append_inj_right h rfl) rfl
  have hkind := (beValue_eq_iff (length_beBytes 1 second) hfirst).mpr
    (List.append_inj_left hkinds (by simp)).symm
  have hsize := List.append_inj_right (List.append_inj_right (List.append_inj_right
    (List.append_inj_right (List.append_inj_right (List.append_inj_right hkinds (by simp))
      (by simp)) (by simp)) (by simp)) (by simp)) (by simp)
  have hlength := (beValue_eq_iff (length_beBytes 2 other.length) hpayload).mpr hsize.symm
  rw [(beValue_eq_iff (length_beBytes 1 second) hsecond).mpr rfl] at hkind
  rw [(beValue_eq_iff (length_beBytes 2 other.length) hother).mpr rfl] at hlength
  exact ⟨hkind.symm, hlength.symm⟩

theorem rawFrame_injective {crypto : Ed25519} {first second : Nat × Bytes}
    (hfirst : FrameFits first) (hsecond : FrameFits second)
    (h : rawFrame crypto first.1 first.2 = rawFrame crypto second.1 second.2) :
    first = second := by
  have hkinds : ∀ frame, FrameFits frame → frame.1 < 256 := by
    rintro frame ⟨hprepare | hexecute, _⟩
    · rw [hprepare]
      decide
    · rw [hexecute]
      decide
  have hpayloads : ∀ frame : Nat × Bytes, FrameFits frame → frame.2.length < 65536 :=
    fun frame hframe => Nat.lt_of_le_of_lt hframe.2 (by decide)
  rw [rawFrame, rawFrame, List.append_assoc, List.append_assoc] at h
  obtain ⟨hheader, hrest⟩ :=
    List.append_inj h (by rw [length_packHeader, length_packHeader])
  obtain ⟨hkind, hlength⟩ := packHeader_injective (hkinds first hfirst) (hkinds second hsecond)
    (hpayloads first hfirst) (hpayloads second hsecond) hheader
  exact Prod.ext hkind (List.append_inj_left hrest hlength)

/-- Frames on a stream can be told apart, and so can what comes behind them. -/
theorem framed_selfDelimiting (crypto : Ed25519) :
    SelfDelimiting FrameFits fun frame => framed (rawFrame crypto frame.1 frame.2) := by
  have hcount : SelfDelimiting (· < 65536) (beBytes 2) := by
    apply selfDelimiting_of_length fun count _ => length_beBytes 2 count
    intro first second hfirst hsecond h
    have hvalue := (beValue_eq_iff (length_beBytes 2 second) hfirst).mpr h.symm
    rw [(beValue_eq_iff (length_beBytes 2 second) hsecond).mpr rfl] at hvalue
    exact hvalue.symm
  apply hcount.counted
  · intro frame hframe
    have hpayload := hframe.2
    rw [length_rawFrame, headerSize]
    omega
  · intro first second hfirst hsecond h
    exact rawFrame_injective hfirst hsecond h

/-! ## Which receipts are accepted -/

/-- The fields of a core are the expected ones exactly when the core is. -/
theorem unpack_eq_iff {core : Bytes} {status : Nat} {digest : Bytes}
    (hcore : core.length = receiptCoreSize) (hstatus : status < 256)
    (hdigest : digest.length = 32) :
    ReceiptCore.unpack core = ⟨receiptMagic, version, status, generation, attempt, digest⟩ ↔
      core = receiptCore status digest := by
  have hlength : core.length = 54 := hcore
  have hnumber : ∀ {offset width value : Nat}, offset + width ≤ 54 → value < 256 ^ width →
      (beValue (slice core offset width) = value ↔
        slice core offset width = beBytes width value) := by
    intro offset width value hfits hvalue
    exact beValue_eq_iff (length_slice (hlength ▸ hfits)) hvalue
  have hend : core.drop 54 = [] := List.drop_eq_nil_of_le (Nat.le_of_eq hlength)
  rw [← @List.drop_zero UInt8 core, receiptCore, drop_eq_append_iff length_receiptMagic,
    drop_eq_append_iff (length_beBytes 1 version), drop_eq_append_iff (length_beBytes 1 status),
    drop_eq_append_iff (length_beBytes 4 generation), drop_eq_append_iff (length_beBytes 8 attempt),
    ← List.append_nil digest, drop_eq_append_iff hdigest, List.append_nil, List.drop_zero,
    ReceiptCore.unpack, ReceiptCore.mk.injEq, hnumber (by decide) (by decide),
    hnumber (by decide) hstatus, hnumber (by decide) (by decide), hnumber (by decide) (by decide)]
  simp only [hend, and_true]

/-- What the fields of a core can be. -/
theorem unpack_bounds {core : Bytes} (hcore : core.length = receiptCoreSize) :
    (ReceiptCore.unpack core).status < 256 ∧ (ReceiptCore.unpack core).digest.length = 32 := by
  have hlength : core.length = 54 := hcore
  have hstatus : (slice core 9 1).length = 1 := length_slice (by omega)
  have hlt := beValue_lt (slice core 9 1)
  rw [hstatus] at hlt
  exact ⟨hlt, length_slice (by omega)⟩

/-- A receipt of the right length is accepted when its signature and its fields are right. -/
theorem parseReceipt_append {crypto : Ed25519} {core signature : Bytes} {status : Nat}
    {digest : Bytes} (hcore : core.length = receiptCoreSize)
    (hsignature : signature.length = receiptSignatureBytes) :
    parseReceipt crypto (core ++ signature) status digest = .ok () ↔
      crypto.verify guestReceiptFixturePublicKey signature core = true ∧
        ReceiptCore.unpack core = ⟨receiptMagic, version, status, generation, attempt, digest⟩ := by
  have hlength : (core ++ signature).length = receiptCoreSize + receiptSignatureBytes := by
    rw [List.length_append, hcore, hsignature]
  rw [parseReceipt, if_neg (not_not_intro hlength), List.take_left' hcore, List.drop_left' hcore]
  dsimp only
  by_cases hverifies : crypto.verify guestReceiptFixturePublicKey signature core = true
  · rw [if_neg (by simp [hverifies])]
    cases hfields : ReceiptCore.unpack core
    simp [hverifies, ← not_and_or]
  · simp [hverifies]

/-- Exactly the receipts of the guest's key are accepted. -/
theorem parseReceipt_eq_ok_iff {crypto : Ed25519} {raw : Bytes} {status : Nat} {digest : Bytes} :
    parseReceipt crypto raw status digest = .ok () ↔
      Receipt crypto status digest
        (beBytes 2 (receiptCoreSize + receiptSignatureBytes) ++ raw) := by
  constructor
  · intro h
    have hlength : raw.length = receiptCoreSize + receiptSignatureBytes := by
      by_contra hlength
      rw [parseReceipt, if_pos hlength] at h
      cases h
    have hcore : (raw.take receiptCoreSize).length = receiptCoreSize := by
      rw [List.length_take, hlength]
      rfl
    have hsignature : (raw.drop receiptCoreSize).length = receiptSignatureBytes := by
      rw [List.length_drop, hlength]
      rfl
    rw [← List.take_append_drop receiptCoreSize raw, parseReceipt_append hcore hsignature] at h
    obtain ⟨hverifies, hfields⟩ := h
    have hbounds := unpack_bounds hcore
    rw [hfields] at hbounds
    have hreceipt := (unpack_eq_iff hcore hbounds.1 hbounds.2).mp hfields
    refine ⟨hbounds.1, hbounds.2, raw.drop receiptCoreSize, hsignature, hreceipt ▸ hverifies, ?_⟩
    rw [← hreceipt, List.take_append_drop]
  · rintro ⟨hstatus, hdigest, signature, hsignature, hverifies, hwire⟩
    have hcore := @length_receiptCore status digest hdigest
    rw [List.append_cancel_left hwire, parseReceipt_append hcore hsignature]
    exact ⟨hverifies, (unpack_eq_iff hcore hstatus hdigest).mpr rfl⟩

end Oasi.Broker
