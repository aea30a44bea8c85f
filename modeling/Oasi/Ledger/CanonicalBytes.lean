import Oasi.Foundation.Codes
import Oasi.Ledger.LineBounds

/-! # The canonical bytes of an entry

The bytes under the hash are the fields one after the other, each in a
self-delimiting code: fixed-width numbers, length-prefixed strings, tagged optional
numbers, and a block of lease values that a preceding byte announces. The bytes
therefore determine every field that they cover.
-/

namespace Oasi

/-! ## The codes of the fields -/

theorem length_toBeBytes (width value : Nat) : (toBeBytes width value).length = width := by
  induction width generalizing value with
  | zero => rfl
  | succ width ih => rw [toBeBytes, List.length_append, ih, List.length_singleton]

theorem toBeBytes_injective {width first second : Nat} (hfirst : first < 256 ^ width)
    (hsecond : second < 256 ^ width) (h : toBeBytes width first = toBeBytes width second) :
    first = second := by
  induction width generalizing first second with
  | zero => omega
  | succ width ih =>
      rw [toBeBytes, toBeBytes, ← List.concat_eq_append, ← List.concat_eq_append,
        List.concat_inj] at h
      have hhigh := ih (by omega) (by omega) h.1
      have hlow := congrArg UInt8.toNat h.2
      simp only [UInt8.toNat_ofNat', Nat.reducePow] at hlow
      omega

/-- The code of one number field. -/
def bigEndian64 (value : UInt64) : Bytes := toBeBytes 8 value.toNat

theorem selfDelimiting_bigEndian64 : SelfDelimiting (fun _ => True) bigEndian64 := by
  apply selfDelimiting_of_length
  · intro value _
    exact length_toBeBytes 8 value.toNat
  · intro first second _ _ h
    apply UInt64.toNat_inj.mp
    exact toBeBytes_injective first.toNat_lt_size second.toNat_lt_size h

theorem selfDelimiting_byte {Value : Type} {code : Value → UInt8}
    (hcode : Function.Injective code) : SelfDelimiting (fun _ => True) fun value => [code value] :=
  selfDelimiting_of_length (fun _ _ => rfl) fun _ _ _ _ h => hcode (List.cons.inj h).1

/-- The code of a string that its length announces. -/
def countedText (text : String) : Bytes := toBeBytes 4 text.utf8ByteSize ++ utf8 text

theorem selfDelimiting_countedText :
    SelfDelimiting (fun text => text.utf8ByteSize < 256 ^ 4) countedText := by
  have hlength : SelfDelimiting (· < 256 ^ 4) (toBeBytes 4) :=
    selfDelimiting_of_length (fun value _ => length_toBeBytes 4 value)
      fun _ _ hfirst hsecond h => toBeBytes_injective hfirst hsecond h
  exact hlength.counted (fun _ h => h) fun _ _ _ _ h => utf8_injective h

/-- The code of an optional number field. -/
def taggedNumber : Option UInt64 → Bytes
  | none => [0]
  | some value => 1 :: bigEndian64 value

theorem selfDelimiting_taggedNumber : SelfDelimiting (fun _ => True) taggedNumber := by
  intro first second restFirst restSecond _ _ h
  have htags : (0 : UInt8) ≠ 1 := by decide
  apply selfDelimiting_bigEndian64.tagged htags (fun _ _ => trivial) (fun _ _ => trivial)
  cases first <;> cases second <;> exact h

theorem canonicalByte_injective : Function.Injective EntryKind.canonicalByte := by
  intro first second h
  cases first <;> cases second <;> first | rfl | cases h

theorem toUInt8_injective : Function.Injective Bool.toUInt8 := by
  intro first second h
  cases first <;> cases second <;> first | rfl | cases h

/-! ## Entries -/

namespace LedgerEntry

/-- The shape of the optional fields and of the strings. -/
structure Shaped (entry : LedgerEntry) : Prop where
  present : entry.leasePresent = true → ∀ value ∈ entry.leaseValues, value.isSome = true
  absent : entry.leasePresent = false → ∀ value ∈ entry.leaseValues, value = none
  sealedEventCount : entry.sealedEventCount.isSome = true ↔ entry.kind = .seal
  sealedEventHash : entry.sealedEventHash.isSome = true ↔ entry.kind = .seal
  bounded : entry.Bounded

/-- The code of the lease values that are present. -/
def leaseBlock (entry : LedgerEntry) : Bytes :=
  if entry.leasePresent then
    entry.leaseValues.flatMap fun value => (value.map bigEndian64).getD []
  else []

/-- The codes of the fields that the hash covers. -/
def encoding (entry : LedgerEntry) : Bytes :=
  countedText ledgerSchema ++ ([entry.kind.canonicalByte] ++ (bigEndian64 entry.seq ++
    (countedText entry.event ++ (countedText entry.detail ++ ([entry.decision] ++
      (bigEndian64 entry.bodyUid ++ (bigEndian64 entry.epoch ++ (bigEndian64 entry.generation ++
        (bigEndian64 entry.certificate ++ ([entry.quarantined.toUInt8] ++
          ([entry.leasePresent.toUInt8] ++ (entry.leaseBlock ++
            (taggedNumber entry.sealedEventCount ++ (taggedNumber entry.sealedEventHash ++
              bigEndian64 entry.prevHash))))))))))))))

theorem pushRequired_eq {out : Bytes} {field : String} {value : Option UInt64}
    (h : value.isSome = true) :
    pushRequired out field value = .ok (out ++ (value.map bigEndian64).getD []) := by
  obtain ⟨number, rfl⟩ := Option.isSome_iff_exists.mp h
  rfl

theorem pushString_eq {out : Bytes} {value : String} {maximum : Nat}
    (hmaximum : value.utf8ByteSize ≤ maximum) (hsize : value.utf8ByteSize < 256 ^ 4) :
    pushString out value maximum = .ok (out ++ countedText value) := by
  have hword : ¬value.utf8ByteSize ≥ UInt32.size := Nat.not_le.mpr hsize
  have hnumber : (UInt32.ofNat value.utf8ByteSize).toNat = value.utf8ByteSize :=
    UInt32.toNat_ofNat_of_lt hsize
  rw [pushString, if_neg (Nat.not_lt.mpr hmaximum), if_neg hword, pushU32, hnumber, countedText,
    List.append_assoc]

theorem pushOptionalU64_eq (out : Bytes) (value : Option UInt64) :
    pushOptionalU64 out value = out ++ taggedNumber value := by
  cases value with
  | none => rfl
  | some value => rw [pushOptionalU64, pushU64, taggedNumber, List.append_assoc]; rfl

variable {entry first second : LedgerEntry}

theorem pushLease_eq (hpresent : ∀ value ∈ entry.leaseValues, value.isSome = true) (out : Bytes) :
    pushLease out entry =
      .ok (out ++ entry.leaseValues.flatMap fun value => (value.map bigEndian64).getD []) := by
  simp only [leaseValues, List.forall_mem_cons] at hpresent
  obtain ⟨hbodyUid, hepoch, hgeneration, hcertificate, huntil, hprincipal, hresource, haction,
    _⟩ := hpresent
  simp only [pushLease, pushRequired_eq hbodyUid, pushRequired_eq hepoch,
    pushRequired_eq hgeneration, pushRequired_eq hcertificate, pushRequired_eq huntil,
    pushRequired_eq hprincipal, pushRequired_eq hresource, pushRequired_eq haction, ok_bind,
    leaseValues, List.flatMap_cons, List.flatMap_nil, List.append_assoc, List.append_nil]

theorem Shaped.canonicalBytes_eq (h : entry.Shaped) :
    entry.canonicalBytes = .ok entry.encoding := by
  obtain ⟨hevent, hdetail⟩ := h.bounded
  have hevent_word : entry.event.utf8ByteSize < 256 ^ 4 := Nat.lt_of_le_of_lt hevent (by decide)
  have hdetail_word : entry.detail.utf8ByteSize < 256 ^ 4 := Nat.lt_of_le_of_lt hdetail (by decide)
  have hschema : ledgerSchema.utf8ByteSize ≤ UInt32.size - 1 := by decide
  simp only [canonicalBytes, pushString_eq hschema (by decide), pushString_eq hevent hevent_word,
    pushString_eq hdetail hdetail_word, ok_bind, pushOptionalU64_eq, pushU64, encoding, leaseBlock,
    bigEndian64]
  cases hpresent : entry.leasePresent with
  | true =>
      simp only [if_true, pushLease_eq (h.present hpresent), ok_bind]
      simp
      rfl
  | false =>
      simp
      rfl

/-- The announced block determines the lease values. -/
theorem leaseBlock_cut (hfirst : first.Shaped) (hsecond : second.Shaped)
    (hpresent : first.leasePresent = second.leasePresent) {restFirst restSecond : Bytes}
    (h : first.leaseBlock ++ restFirst = second.leaseBlock ++ restSecond) :
    first.leaseValues = second.leaseValues ∧ restFirst = restSecond := by
  cases hsome : first.leasePresent with
  | true =>
      rw [leaseBlock, leaseBlock, ← hpresent, hsome, if_pos rfl, if_pos rfl] at h
      have hcode : SelfDelimiting (fun value : Option UInt64 => value.isSome = true)
          fun value => (value.map bigEndian64).getD [] := by
        intro left right restLeft restRight hleft hright heq
        obtain ⟨left, rfl⟩ := Option.isSome_iff_exists.mp hleft
        obtain ⟨right, rfl⟩ := Option.isSome_iff_exists.mp hright
        obtain ⟨hvalues, hrest⟩ := selfDelimiting_bigEndian64 trivial trivial heq
        exact ⟨congrArg some hvalues, hrest⟩
      exact hcode.flatMap (hfirst.present hsome) (hsecond.present (hpresent ▸ hsome)) rfl h
  | false =>
      rw [leaseBlock, leaseBlock, ← hpresent, hsome] at h
      refine ⟨?_, h⟩
      rw [List.eq_replicate_of_mem (hfirst.absent hsome),
        List.eq_replicate_of_mem (hsecond.absent (hpresent ▸ hsome))]
      rfl

/-- The covered fields can be read off the front of a byte string in one way. -/
theorem encoding_cut (hfirst : first.Shaped) (hsecond : second.Shaped)
    {restFirst restSecond : Bytes}
    (h : first.encoding ++ restFirst = second.encoding ++ restSecond) :
    { first with hash := second.hash } = second ∧ restFirst = restSecond := by
  have hsize : ∀ {text : String} {maximum : Nat}, text.utf8ByteSize ≤ maximum →
      maximum < 256 ^ 4 → text.utf8ByteSize < 256 ^ 4 := Nat.lt_of_le_of_lt
  have hschema : ledgerSchema.utf8ByteSize < 256 ^ 4 := by decide
  simp only [encoding, List.append_assoc] at h
  obtain ⟨_, h⟩ := selfDelimiting_countedText hschema hschema h
  obtain ⟨hkind, h⟩ := selfDelimiting_byte canonicalByte_injective trivial trivial h
  obtain ⟨hseq, h⟩ := selfDelimiting_bigEndian64 trivial trivial h
  obtain ⟨hevent, h⟩ := selfDelimiting_countedText (hsize hfirst.bounded.1 (by decide))
    (hsize hsecond.bounded.1 (by decide)) h
  obtain ⟨hdetail, h⟩ := selfDelimiting_countedText (hsize hfirst.bounded.2 (by decide))
    (hsize hsecond.bounded.2 (by decide)) h
  obtain ⟨hdecision, h⟩ := selfDelimiting_byte Function.injective_id trivial trivial h
  obtain ⟨hbodyUid, h⟩ := selfDelimiting_bigEndian64 trivial trivial h
  obtain ⟨hepoch, h⟩ := selfDelimiting_bigEndian64 trivial trivial h
  obtain ⟨hgeneration, h⟩ := selfDelimiting_bigEndian64 trivial trivial h
  obtain ⟨hcertificate, h⟩ := selfDelimiting_bigEndian64 trivial trivial h
  obtain ⟨hquarantined, h⟩ := selfDelimiting_byte toUInt8_injective trivial trivial h
  obtain ⟨hpresent, h⟩ := selfDelimiting_byte toUInt8_injective trivial trivial h
  obtain ⟨hlease, h⟩ := leaseBlock_cut hfirst hsecond hpresent h
  obtain ⟨hcount, h⟩ := selfDelimiting_taggedNumber trivial trivial h
  obtain ⟨hsealed, h⟩ := selfDelimiting_taggedNumber trivial trivial h
  obtain ⟨hprev, h⟩ := selfDelimiting_bigEndian64 trivial trivial h
  refine ⟨?_, h⟩
  simp only [leaseValues, List.cons.injEq] at hlease
  obtain ⟨hleaseBodyUid, hleaseEpoch, hleaseGeneration, hleaseCertificate, hleaseUntil,
    hleasePrincipal, hleaseResource, hleaseAction, _⟩ := hlease
  cases first
  cases second
  dsimp only at *
  simp only [LedgerEntry.mk.injEq]
  exact ⟨hkind, hseq, hevent, hdetail, hdecision, hbodyUid, hepoch, hgeneration, hcertificate,
    hquarantined, hpresent, hleaseBodyUid, hleaseEpoch, hleaseGeneration, hleaseCertificate,
    hleaseUntil, hleasePrincipal, hleaseResource, hleaseAction, hcount, hsealed, hprev, trivial⟩

/-- An encoding at the start of another is all of it. -/
theorem encoding_of_front (hfirst : first.Shaped) (hsecond : second.Shaped)
    (h : first.encoding <+: second.encoding) :
    { first with hash := second.hash } = second ∧ first.encoding = second.encoding := by
  obtain ⟨rest, hrest⟩ := h
  obtain ⟨hfields, hempty⟩ := encoding_cut hfirst hsecond (hrest.trans (List.append_nil _).symm)
  rw [hempty, List.append_nil] at hrest
  exact ⟨hfields, hrest⟩

/-- The parser demands the shape; the bounds are those of the hash. -/
theorem WellShaped.shaped (h : entry.WellShaped) (hbounded : entry.Bounded) : entry.Shaped := by
  have hlease := h.lease
  have hseal := h.sealFields
  unfold checkLease at hlease
  unfold checkSealFields at hseal
  have hvalues : (entry.sealedEventCount.isSome = true ↔ entry.kind = .seal) ∧
      (entry.sealedEventHash.isSome = true ↔ entry.kind = .seal) := by
    cases hkind : entry.kind <;> cases hcount : entry.sealedEventCount <;>
      cases hhash : entry.sealedEventHash <;> simp [hkind, hcount, hhash] at hseal ⊢
  refine ⟨?_, ?_, hvalues.1, hvalues.2, hbounded⟩
  · intro hpresent value hvalue
    rw [hpresent] at hlease
    by_contra hnone
    rw [if_pos ⟨rfl, List.any_eq_true.mpr ⟨value, hvalue, by simpa using hnone⟩⟩] at hlease
    cases hlease
  · intro habsent value hvalue
    rw [habsent, if_neg (by simp)] at hlease
    by_contra hsome
    rw [if_pos ⟨rfl, List.any_eq_true.mpr ⟨value, hvalue, Option.isSome_iff_ne_none.mpr hsome⟩⟩]
      at hlease
    cases hlease

/-- Canonical bytes exist for every entry of the shape that is parsed, determine
all its fields except the hash, and are never a proper part of other canonical bytes. -/
theorem canonicalBytes_unambiguous (hfirst : first.Shaped) (hsecond : second.Shaped) :
    ∃ firstBytes secondBytes, first.canonicalBytes = .ok firstBytes ∧
      second.canonicalBytes = .ok secondBytes ∧
      (firstBytes = secondBytes → { first with hash := second.hash } = second) ∧
      (firstBytes <+: secondBytes → firstBytes = secondBytes) ∧
      (secondBytes <+: firstBytes → firstBytes = secondBytes) := by
  refine ⟨first.encoding, second.encoding, hfirst.canonicalBytes_eq, hsecond.canonicalBytes_eq,
    ?_, ?_, ?_⟩
  · intro h
    exact (encoding_of_front hfirst hsecond (h ▸ List.prefix_rfl)).1
  · intro h
    exact (encoding_of_front hfirst hsecond h).2
  · intro h
    exact (encoding_of_front hsecond hfirst h).2.symm

/-- An event that carries a lease. -/
def leasedEvent : LedgerEntry :=
  unhashed ⟨.event, 1, "BOOT", "start", .allow, ⟨1, 1, 1, 100, false⟩,
    some ⟨1, 1, 1, 100, 5000, 7, 8, 9⟩, none, none, 0⟩

/-- A seal without one. -/
def leaselessSeal : LedgerEntry :=
  unhashed ⟨.seal, 2, "SEAL", "", .allow, ⟨1, 1, 1, 100, false⟩, none, some 1, some 77, 77⟩

theorem canonicalBytes_unambiguous_event_seal :
    ∃ firstBytes secondBytes, leasedEvent.canonicalBytes = .ok firstBytes ∧
      leaselessSeal.canonicalBytes = .ok secondBytes ∧ ¬firstBytes <+: secondBytes := by
  have hevent : leasedEvent.Shaped := by
    apply WellShaped.shaped ⟨by decide, rfl, rfl⟩
    exact ⟨Nat.le_of_ble_eq_true rfl, Nat.le_of_ble_eq_true rfl⟩
  have hseal : leaselessSeal.Shaped := by
    apply WellShaped.shaped ⟨by decide, rfl, rfl⟩
    exact ⟨Nat.le_of_ble_eq_true rfl, Nat.le_of_ble_eq_true rfl⟩
  obtain ⟨firstBytes, secondBytes, hfirst, hsecond, hequal, hfront, _⟩ :=
    canonicalBytes_unambiguous hevent hseal
  refine ⟨firstBytes, secondBytes, hfirst, hsecond, ?_⟩
  intro h
  have hkind : leasedEvent.kind = leaselessSeal.kind := congrArg kind (hequal (hfront h))
  cases hkind

end LedgerEntry

end Oasi
