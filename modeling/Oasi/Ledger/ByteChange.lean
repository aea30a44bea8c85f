import Mathlib.Data.List.Basic
import Oasi.Ledger.Admission

/-! # One changed byte under the hash

A step of FNV-1a is a bijection of the 64-bit state and tells any two bytes
apart. A difference of one byte is therefore never absorbed by the bytes after
it, and a ledger in which one entry is exchanged for such a neighbour under the
same hash is rejected.
-/

namespace Oasi

/-- Byte strings of one length that differ at exactly one place. -/
structure DiffersInOneByte (first second : Bytes) : Prop where
  length : first.length = second.length
  place : ∃! index : Nat, first[index]? ≠ second[index]?

theorem differsInOneByte_of_split {front rest : Bytes} {old new : UInt8} (hne : old ≠ new) :
    DiffersInOneByte (front ++ old :: rest) (front ++ new :: rest) := by
  constructor
  · simp only [List.length_append, List.length_cons]
  · refine ⟨front.length, by simpa using hne, ?_⟩
    intro index hindex
    by_contra hother
    apply hindex
    rcases Nat.lt_or_gt_of_ne hother with hlt | hgt
    · rw [List.getElem?_append_left hlt, List.getElem?_append_left hlt]
    · obtain ⟨offset, hoffset⟩ := Nat.exists_eq_add_of_lt hgt
      rw [hoffset, List.getElem?_append_right (by omega), List.getElem?_append_right (by omega)]
      have hplace : front.length + offset + 1 - front.length = offset + 1 := by omega
      rw [hplace, List.getElem?_cons_succ, List.getElem?_cons_succ]

/-- The place of the difference cuts both strings into equal parts. -/
theorem DiffersInOneByte.exists_split {first second : Bytes} (h : DiffersInOneByte first second) :
    ∃ front old new rest, old ≠ new ∧ first = front ++ old :: rest ∧
      second = front ++ new :: rest := by
  obtain ⟨hlength, place, hplace, honly⟩ := h
  have hsame : ∀ index, index ≠ place → first[index]? = second[index]? := by
    intro index hindex
    by_contra hne
    exact hindex (honly index hne)
  have hfirst : place < first.length := by
    by_contra hbound
    apply hplace
    rw [List.getElem?_eq_none (by omega), List.getElem?_eq_none (by omega)]
  have hsecond : place < second.length := hlength ▸ hfirst
  refine ⟨first.take place, first[place], second[place], first.drop (place + 1), ?_, ?_, ?_⟩
  · intro heq
    apply hplace
    rw [List.getElem?_eq_getElem hfirst, List.getElem?_eq_getElem hsecond, heq]
  · rw [← List.drop_eq_getElem_cons hfirst, List.take_append_drop]
  · have htake : first.take place = second.take place := by
      apply List.ext_getElem?
      intro index
      by_cases hindex : index < place
      · rw [List.getElem?_take_of_lt hindex, List.getElem?_take_of_lt hindex,
          hsame index (by omega)]
      · rw [List.getElem?_take_eq_none (by omega), List.getElem?_take_eq_none (by omega)]
    have hdrop : first.drop (place + 1) = second.drop (place + 1) := by
      apply List.ext_getElem?
      intro index
      rw [List.getElem?_drop, List.getElem?_drop, hsame _ (by omega)]
    rw [htake, hdrop, ← List.drop_eq_getElem_cons hsecond, List.take_append_drop]

/-! ## The hash -/

/-- A fold whose steps are injective in the state is injective in the state. -/
theorem foldl_injective {State Item : Type} {step : State → Item → State}
    (hstep : ∀ item, Function.Injective fun state => step state item) (items : List Item) :
    Function.Injective fun state => items.foldl step state := by
  induction items with
  | nil => exact fun _ _ h => h
  | cons item items ih => exact fun first second h => hstep item (ih h)

/-- The inverse of the FNV prime modulo 2^64. -/
def fnvPrimeInverse : UInt64 := 14886173955864302971

theorem mul_fnvPrime_injective : Function.Injective fun value : UInt64 => value * fnvPrime := by
  intro first second h
  have hinverse : fnvPrime * fnvPrimeInverse = 1 := by decide
  calc first = first * fnvPrime * fnvPrimeInverse := by
        rw [UInt64.mul_assoc, hinverse, UInt64.mul_one]
    _ = second * fnvPrime * fnvPrimeInverse := congrArg (· * fnvPrimeInverse) h
    _ = second := by rw [UInt64.mul_assoc, hinverse, UInt64.mul_one]

theorem xor_left_injective (mask : UInt64) : Function.Injective fun value => value ^^^ mask := by
  intro first second h
  have hcancel := congrArg (· ^^^ mask) h
  simpa only [UInt64.xor_assoc, UInt64.xor_self, UInt64.xor_zero] using hcancel

theorem xor_right_injective (mask : UInt64) : Function.Injective fun value => mask ^^^ value := by
  intro first second h
  apply xor_left_injective mask
  simpa only [UInt64.xor_comm] using h

theorem toUInt64_injective : Function.Injective UInt8.toUInt64 := by
  intro first second h
  apply UInt8.toNat_inj.mp
  rw [← UInt8.toNat_toUInt64, h, UInt8.toNat_toUInt64]

theorem fnv1a_append (front rest : Bytes) (seed : UInt64) :
    fnv1a (front ++ rest) seed = fnv1a rest (fnv1a front seed) := List.foldl_append

theorem fnv1a_cons (byte : UInt8) (rest : Bytes) (seed : UInt64) :
    fnv1a (byte :: rest) seed = fnv1a rest ((seed ^^^ byte.toUInt64) * fnvPrime) := by
  rw [fnv1a, List.foldl_cons, fnv1a]

/-- Different chaining values stay different over the same bytes. -/
theorem fnv1a_injective (bytes : Bytes) : Function.Injective (fnv1a bytes) := by
  apply foldl_injective
  intro byte first second h
  exact xor_left_injective byte.toUInt64 (mul_fnvPrime_injective h)

/-- From one chaining value, strings that differ in one byte hash differently. -/
theorem fnv1a_ne {first second : Bytes} (h : DiffersInOneByte first second) (seed : UInt64) :
    fnv1a first seed ≠ fnv1a second seed := by
  obtain ⟨front, old, new, rest, hne, rfl, rfl⟩ := h.exists_split
  intro heq
  rw [fnv1a_append, fnv1a_append, fnv1a_cons, fnv1a_cons] at heq
  -- the bytes after the difference are bijections of the state
  have hstates := fnv1a_injective rest heq
  have hbytes := xor_right_injective _ (mul_fnvPrime_injective hstates)
  exact hne (toUInt64_injective hbytes)

/-! ## Entries -/

theorem expectedHash_of_canonicalBytes {entry : LedgerEntry} {bytes : Bytes}
    (hbytes : entry.canonicalBytes = .ok bytes) :
    entry.expectedHash = .ok (fnv1a bytes (fnvOffset ^^^ entry.prevHash)) := by
  rw [LedgerEntry.expectedHash, hbytes]
  rfl

/-- Entries that follow the same hash and differ in one canonical byte have
different hashes. -/
theorem expectedHash_ne {first second : LedgerEntry} {firstBytes secondBytes : Bytes}
    (hprev : second.prevHash = first.prevHash) (hfirst : first.canonicalBytes = .ok firstBytes)
    (hsecond : second.canonicalBytes = .ok secondBytes)
    (hdiffers : DiffersInOneByte firstBytes secondBytes) :
    second.expectedHash ≠ first.expectedHash := by
  rw [expectedHash_of_canonicalBytes hfirst, expectedHash_of_canonicalBytes hsecond, hprev]
  intro heq
  exact fnv1a_ne hdiffers _ (Except.ok.inj heq).symm

theorem hash_of_accepts {cursor : Cursor} {entries : List LedgerEntry}
    (haccepts : chain.Accepts cursor entries) :
    ∀ entry ∈ entries, entry.expectedHash = .ok entry.hash := by
  induction entries generalizing cursor with
  | nil => simp
  | cons entry rest ih =>
      intro other hother
      rcases List.mem_cons.mp hother with rfl | hother
      · exact haccepts.1.hash
      · exact ih haccepts.2 other hother

/-- Every line of an accepted file is the line of an entry whose hash is right. -/
theorem hash_of_passed {entries : List LedgerEntry}
    (hshapes : ∀ entry ∈ entries, entry.WellShaped)
    (hpassed : (verifyReader (ledgerFile entries)).passed = true) :
    ∀ entry ∈ entries, entry.expectedHash = .ok entry.hash := by
  obtain ⟨accepted, hfile, haccepts, _⟩ := verifyReader_passed_iff.mp hpassed
  rw [ledgerFile_injective hshapes (wellShaped_of_accepts haccepts) hfile]
  exact hash_of_accepts haccepts

/-- An accepted ledger in which one entry is exchanged for one that keeps the
hashes and differs in one canonical byte is rejected; two such entries never
have the same expected hash, nor do their bytes from any chaining value. -/
theorem one_byte_change_rejected {entries : List LedgerEntry}
    (hshapes : ∀ entry ∈ entries, entry.WellShaped)
    (hpassed : (verifyReader (ledgerFile entries)).passed = true) :
    (∀ index (hindex : index < entries.length) (changed : LedgerEntry) (before after : Bytes),
      changed.WellShaped → changed.prevHash = entries[index].prevHash →
      changed.hash = entries[index].hash → entries[index].canonicalBytes = .ok before →
      changed.canonicalBytes = .ok after → DiffersInOneByte before after →
      (verifyReader (ledgerFile (entries.set index changed))).passed = false) ∧
    ∀ (first second : LedgerEntry) (before after : Bytes), second.prevHash = first.prevHash →
      first.canonicalBytes = .ok before → second.canonicalBytes = .ok after →
      DiffersInOneByte before after →
      second.expectedHash ≠ first.expectedHash ∧
        ∀ chaining, fnv1a after chaining ≠ fnv1a before chaining := by
  constructor
  · intro index hindex changed before after hshape hprev hhash hbefore hafter hdiffers
    apply Bool.eq_false_iff.mpr
    intro hpassedChanged
    have hshapesChanged : ∀ entry ∈ entries.set index changed, entry.WellShaped := by
      intro entry hentry
      rcases List.mem_or_eq_of_mem_set hentry with hold | rfl
      · exact hshapes entry hold
      · exact hshape
    have hmem : changed ∈ entries.set index changed := List.mem_set hindex changed
    have hchanged := hash_of_passed hshapesChanged hpassedChanged changed hmem
    have hkept := hash_of_passed hshapes hpassed entries[index] (List.getElem_mem hindex)
    apply expectedHash_ne hprev hbefore hafter hdiffers
    rw [hchanged, hkept, hhash]
  · intro first second before after hprev hbefore hafter hdiffers
    refine ⟨expectedHash_ne hprev hbefore hafter hdiffers, ?_⟩
    intro chaining heq
    exact fnv1a_ne hdiffers chaining heq.symm

/-- The opening event with the quarantine byte set, under the hash of the clear one. -/
def quarantinedBoot : LedgerEntry :=
  { LedgerEntry.unhashed ⟨.event, 1, "BOOT", "start", .allow, ⟨1, 1, 1, 100, true⟩, none, none,
      none, 0⟩ with hash := 13420533371515736677 }

theorem one_byte_change_rejected_boot :
    (verifyReader (ledgerFile (Ledger.bootEntries.set 0 quarantinedBoot))).passed = false := by
  have hsplit : ∃ front rest, Ledger.bootEntries[0].canonicalBytes = .ok (front ++ 0 :: rest) ∧
      quarantinedBoot.canonicalBytes = .ok (front ++ 1 :: rest) := by
    let bytes := Ledger.bootEntries[0].canonicalBytes.toOption.getD []
    exact ⟨bytes.take 87, bytes.drop 88, by decide +kernel, by decide +kernel⟩
  obtain ⟨front, rest, hbefore, hafter⟩ := hsplit
  have hpassed : (verifyReader (ledgerFile Ledger.bootEntries)).passed = true :=
    verifyReader_passed_iff.mpr ⟨_, rfl, Ledger.accepts_bootEntries, rfl⟩
  have hshapes := wellShaped_of_accepts Ledger.accepts_bootEntries
  have hshape : quarantinedBoot.WellShaped := LedgerEntry.wellShaped_of_snapshot rfl
  exact (one_byte_change_rejected hshapes hpassed).1 0 (by decide) _ _ _ hshape rfl rfl hbefore
    hafter (differsInOneByte_of_split (by decide))

end Oasi
