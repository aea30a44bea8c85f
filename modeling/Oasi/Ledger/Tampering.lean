import Mathlib.Data.Finite.Prod
import Oasi.Ledger.Admission

/-! # Tampering with whole lines and at the ends

An accepted file cannot be cut, extended or rearranged into another accepted
file. Cutting and extending fail because the seal is last and nothing follows
it. Rearranging fails because the sequence number of a line tells its place, as
long as the numbers do not saturate; no step depends on the hash.
-/

namespace Oasi

/-! ## Cuts and extensions -/

theorem joinLines_eq_nil_or_concat (lines : List Bytes) :
    joinLines lines = [] ∨ ∃ front, joinLines lines = front ++ [lf] := by
  cases lines using List.reverseRecOn with
  | nil => exact .inl rfl
  | append_singleton lines line =>
      exact .inr ⟨joinLines lines ++ line, by simp [joinLines_cons]⟩

/-- A file of lines that is the beginning of another one ends at a line boundary. -/
theorem ledgerFile_prefix {first second : List LedgerEntry}
    (hfirst : ∀ entry ∈ first, entry.WellShaped) (hsecond : ∀ entry ∈ second, entry.WellShaped)
    (h : ledgerFile first <+: ledgerFile second) : first <+: second := by
  obtain ⟨count, fragment, _, hfragment, hfile, _⟩ :=
    prefix_joinLines lf_not_mem_map_line h
  have hfile : joinLines (first.map LedgerEntry.line) =
      joinLines ((second.map LedgerEntry.line).take count) ++ fragment := hfile
  have hempty : fragment = [] := by
    rcases joinLines_eq_nil_or_concat (first.map LedgerEntry.line) with hnil | ⟨front, hfront⟩
    · rw [hnil] at hfile
      exact (List.append_eq_nil_iff.mp hfile.symm).2
    · cases fragment using List.reverseRecOn with
      | nil => rfl
      | append_singleton fragment byte =>
          rw [hfront, ← List.append_assoc] at hfile
          have hbyte := (List.append_inj' hfile rfl).2
          rw [List.cons.injEq] at hbyte
          exact absurd (by simp [← hbyte.1]) hfragment
  rw [hempty, List.append_nil, ← List.map_take] at hfile
  have htake : ∀ entry ∈ second.take count, entry.WellShaped :=
    fun entry hentry => hsecond entry (List.mem_of_mem_take hentry)
  rw [ledgerFile_injective hfirst htake hfile]
  exact List.take_prefix count second

/-- Nothing follows a seal. -/
theorem eq_of_sealed_front {first second : List LedgerEntry}
    (hsealed : (chain.reach .start first).sealSeen = true)
    (hsecond : chain.Accepts .start second) (h : first <+: second) : first = second := by
  obtain ⟨rest, rfl⟩ := h
  have hfinal : ∀ entry, ¬chain.Admits (chain.reach .start first) entry := by
    intro entry hadmits
    rw [hadmits.unsealed] at hsealed
    cases hsealed
  rw [chain.accepts_append_of_final hfinal hsecond, List.append_nil]

/-- Two accepted files of which one begins the other are equal. -/
theorem eq_of_passed_front {first second : Bytes} (hfirst : (verifyReader first).passed = true)
    (hsecond : (verifyReader second).passed = true) (h : first <+: second) : first = second := by
  obtain ⟨firstEntries, rfl, hfirstAccepts, hfirstSealed⟩ := verifyReader_passed_iff.mp hfirst
  obtain ⟨secondEntries, rfl, hsecondAccepts, _⟩ := verifyReader_passed_iff.mp hsecond
  have hentries := ledgerFile_prefix (wellShaped_of_accepts hfirstAccepts)
    (wellShaped_of_accepts hsecondAccepts) h
  rw [eq_of_sealed_front hfirstSealed hsecondAccepts hentries]

/-! ## Rearrangements -/

/-- The sequence number tells the place, up to saturation. -/
theorem seq_of_accepts {cursor : Cursor} {entries : List LedgerEntry}
    (haccepts : chain.Accepts cursor entries) {index : Nat} (hindex : index < entries.length) :
    entries[index].seq.toNat = min (cursor.entries.toNat + index + 1) (UInt64.size - 1) := by
  induction entries generalizing cursor index with
  | nil => cases hindex
  | cons entry rest ih =>
      cases index with
      | zero =>
          rw [List.getElem_cons_zero, haccepts.1.seq, toNat_saturatingSucc, Nat.add_zero]
      | succ index =>
          rw [List.getElem_cons_succ, ih haccepts.2 (by simpa using hindex)]
          have hnext : (chain.advance cursor entry).entries = saturatingSucc cursor.entries := rfl
          rw [hnext, toNat_saturatingSucc]
          omega

/-- A seal is the last entry. -/
theorem seal_is_last {entries : List LedgerEntry} (haccepts : chain.Accepts .start entries)
    {index : Nat} (hindex : index < entries.length) (hkind : entries[index].kind = .seal) :
    index + 1 = entries.length := by
  have hsealed : (chain.reach .start (entries.take (index + 1))).sealSeen = true := by
    rw [Ledger.reach_sealSeen]
    refine .inr ⟨entries[index], ?_, hkind⟩
    rw [List.take_succ_eq_append_getElem hindex]
    exact List.mem_append_right _ (List.mem_singleton.mpr rfl)
  have hwhole := eq_of_sealed_front hsealed haccepts (List.take_prefix (index + 1) entries)
  have hlength := congrArg List.length hwhole
  rw [List.length_take] at hlength
  omega

/-- Every entry of the drawn ledger stands at its own place in the original,
until the sequence numbers saturate. -/
theorem place_of_drawn {entries drawn : List LedgerEntry} (haccepts : chain.Accepts .start entries)
    (hdrawn : chain.Accepts .start drawn) (hsubset : ∀ entry ∈ drawn, entry ∈ entries)
    (hfits : entries.length < UInt64.size) {index : Nat} (hindex : index < drawn.length) :
    ∃ (place : Nat) (hplace : place < entries.length), drawn[index] = entries[place] ∧
      place + 1 = min (index + 1) (UInt64.size - 1) := by
  obtain ⟨place, hplace, hentry⟩ := List.getElem_of_mem (hsubset _ (List.getElem_mem hindex))
  have hseq := seq_of_accepts hdrawn hindex
  rw [← hentry, seq_of_accepts haccepts hplace] at hseq
  have hstart : Cursor.start.entries.toNat = 0 := rfl
  refine ⟨place, hplace, hentry.symm, ?_⟩
  omega

theorem exists_last_seal {entries : List LedgerEntry} (haccepts : chain.Accepts .start entries)
    (hsealed : (chain.reach .start entries).sealSeen = true) :
    ∃ (last : Nat) (hlast : last < entries.length), entries[last].kind = .seal ∧
      last + 1 = entries.length := by
  rcases (Ledger.reach_sealSeen .start entries).mp hsealed with hstart | ⟨entry, hentry, hkind⟩
  · cases hstart
  · obtain ⟨last, hlast, rfl⟩ := List.getElem_of_mem hentry
    exact ⟨last, hlast, hkind, seal_is_last haccepts hlast hkind⟩

/-- Entries drawn from a ledger within the 64-bit sequence numbers form a sealed
ledger only as the whole of it. -/
theorem eq_of_drawn {entries drawn : List LedgerEntry} (haccepts : chain.Accepts .start entries)
    (hdrawn : chain.Accepts .start drawn)
    (hdrawnSealed : (chain.reach .start drawn).sealSeen = true)
    (hsubset : ∀ entry ∈ drawn, entry ∈ entries) (hfits : entries.length < UInt64.size) :
    drawn = entries := by
  have hplaces := fun index => @place_of_drawn entries drawn haccepts hdrawn hsubset hfits index
  have hlength : drawn.length = entries.length := by
    obtain ⟨last, hlast, hkind, hend⟩ := exists_last_seal hdrawn hdrawnSealed
    obtain ⟨place, hplace, hentry, hsame⟩ := hplaces last hlast
    have hplaceEnd := seal_is_last haccepts hplace (hentry ▸ hkind)
    -- the drawn ledger has its seal already where the original has it
    obtain ⟨other, hother, hsecond, hotherSame⟩ := hplaces place (by omega)
    have hfirst : other = place := by omega
    subst hfirst
    have hseal : drawn[other].kind = .seal := by rw [hsecond, ← hentry, hkind]
    have := seal_is_last hdrawn (by omega) hseal
    omega
  refine List.ext_getElem hlength fun index hindex hbound => ?_
  obtain ⟨place, hplace, hentry, hsame⟩ := hplaces index hindex
  have hplaceIndex : place = index := by omega
  subst hplaceIndex
  exact hentry

/-- The lines of an accepted file without LF are the lines of its entries. -/
theorem exists_entries_of_passed {lines : List Bytes} (hlines : ∀ line ∈ lines, lf ∉ line)
    (hpassed : (verifyReader (joinLines lines)).passed = true) :
    ∃ entries, lines = entries.map LedgerEntry.line ∧ chain.Accepts .start entries ∧
      (chain.reach .start entries).sealSeen = true := by
  obtain ⟨entries, hfile, haccepts, hsealed⟩ := verifyReader_passed_iff.mp hpassed
  exact ⟨entries, joinLines_injective hlines lf_not_mem_map_line hfile, haccepts, hsealed⟩

theorem mem_of_map_line_subset {entries drawn : List LedgerEntry}
    (hentries : ∀ entry ∈ entries, entry.WellShaped) (hdrawn : ∀ entry ∈ drawn, entry.WellShaped)
    (hsubset : ∀ line ∈ drawn.map LedgerEntry.line, line ∈ entries.map LedgerEntry.line) :
    ∀ entry ∈ drawn, entry ∈ entries := by
  intro entry hentry
  obtain ⟨other, hother, hline⟩ := List.mem_map.mp (hsubset _ (List.mem_map_of_mem hentry))
  rwa [← LedgerEntry.line_injective (hentries other hother) (hdrawn entry hentry) hline]

/-- No cut and no extension of an accepted file is accepted, and, as long as its
lines can be counted in 64 bits, no other file made of its lines. -/
theorem passed_rigid {stream : Bytes} (hpassed : (verifyReader stream).passed = true) :
    (∃ lines, stream = joinLines lines ∧ (∀ line ∈ lines, lf ∉ line) ∧
      (lines.length < UInt64.size → ∀ drawn, (∀ line ∈ drawn, line ∈ lines) →
        (verifyReader (joinLines drawn)).passed = true → drawn = lines)) ∧
    (∀ front, front <+: stream → (verifyReader front).passed = true → front = stream) ∧
    (∀ extra, (verifyReader (stream ++ extra)).passed = true → extra = []) := by
  refine ⟨?_, ?_, ?_⟩
  · obtain ⟨entries, hfile, haccepts, _⟩ := verifyReader_passed_iff.mp hpassed
    refine ⟨entries.map LedgerEntry.line, hfile, lf_not_mem_map_line, ?_⟩
    rintro hfits drawn hsubset hdrawnPassed
    rw [List.length_map] at hfits
    obtain ⟨drawnEntries, rfl, hdrawn, hdrawnSealed⟩ := exists_entries_of_passed
      (fun line hline => lf_not_mem_map_line line (hsubset line hline)) hdrawnPassed
    have hmem := mem_of_map_line_subset (wellShaped_of_accepts haccepts)
      (wellShaped_of_accepts hdrawn) hsubset
    rw [eq_of_drawn haccepts hdrawn hdrawnSealed hmem hfits]
  · intro front hfront hfrontPassed
    exact eq_of_passed_front hfrontPassed hpassed hfront
  · intro extra hextra
    have hwhole := eq_of_passed_front hpassed hextra (List.prefix_append stream extra)
    exact List.self_eq_append_right.mp hwhole

theorem passed_rigid_boot :
    (verifyReader (ledgerFile Ledger.bootEntries ++ [lf])).passed = false := by
  have hboot : (verifyReader (ledgerFile Ledger.bootEntries)).passed = true :=
    verifyReader_passed_iff.mpr ⟨_, rfl, Ledger.accepts_bootEntries, rfl⟩
  exact Bool.eq_false_iff.mpr fun h => List.cons_ne_nil _ _ ((passed_rigid hboot).2.2 [lf] h)

/-! ## Beyond the range of the counters -/

instance : Finite Cursor := by
  let word (value : UInt64) : Fin UInt64.size := ⟨value.toNat, value.toNat_lt_size⟩
  have hword : word.Injective := fun first second h =>
    UInt64.toNat_inj.mp (Fin.mk.inj_iff.mp h)
  refine Finite.of_injective
    (fun cursor : Cursor => (word cursor.entries, word cursor.eventEntries,
      word cursor.previousHash, cursor.sealSeen)) fun first second h => ?_
  simp only [Prod.mk.injEq, hword.eq_iff] at h
  obtain ⟨hentries, hevents, hprevious, hsealSeen⟩ := h
  cases first
  cases second
  simp_all only

namespace Cursor

/-- The entry of a snapshot whose strings fit. -/
def entryOf (snapshot : LedgerSnapshot) : LedgerEntry :=
  match LedgerEntry.fromSnapshot snapshot with
  | .ok entry => entry
  | .error _ => LedgerEntry.unhashed snapshot

theorem continues_entryOf {cursor : Cursor} {snapshot : LedgerSnapshot}
    (hopen : cursor.sealSeen = false) (hseq : snapshot.seq = saturatingSucc cursor.entries)
    (hprev : snapshot.prevHash = cursor.previousHash)
    (hevent : snapshot.event.utf8ByteSize ≤ maxEventBytes)
    (hdetail : snapshot.detail.utf8ByteSize ≤ maxDetailBytes)
    (hfields : checkSealFields snapshot.kind snapshot.sealedEventCount snapshot.sealedEventHash =
      .ok ())
    (hseals : ∀ hash, snapshot.kind = .seal →
      LedgerEntry.Seals { LedgerEntry.unhashed snapshot with hash := hash } cursor.eventEntries) :
    cursor.Continues (entryOf snapshot) ∧ (entryOf snapshot).kind = snapshot.kind := by
  obtain ⟨entry, hbuilt⟩ := LedgerEntry.fromSnapshot_isOk hevent hdetail
  obtain ⟨hash, hentry, hhash⟩ := LedgerEntry.fromSnapshot_eq_ok hbuilt
  have hentryOf : entryOf snapshot = entry := by rw [entryOf, hbuilt]
  have hown : entry.hash = hash := by rw [hentry]
  have hkind : entry.kind = snapshot.kind := by rw [hentry]; rfl
  rw [hentryOf]
  refine ⟨⟨hopen, ?_, ?_, by rw [hhash, hown], ?_, ?_⟩, hkind⟩
  · rw [hentry]
    exact hseq
  · rw [hentry]
    exact hprev
  · rw [hentry]
    exact LedgerEntry.wellShaped_of_snapshot hfields
  · intro hsealKind
    rw [hentry]
    exact hseals hash (hkind ▸ hsealKind)

/-- An event and a seal that continue a cursor. -/
def nextTick (cursor : Cursor) : LedgerEntry :=
  entryOf ⟨.event, saturatingSucc cursor.entries, "TICK", "", .allow, ⟨1, 1, 1, 100, false⟩, none,
    none, none, cursor.previousHash⟩

def nextClosing (cursor : Cursor) : LedgerEntry :=
  entryOf ⟨.seal, saturatingSucc cursor.entries, "LEDGER_SEAL", "terminal seal", .allow,
    ⟨1, 1, 1, 100, false⟩, none, some cursor.eventEntries, some cursor.previousHash,
    cursor.previousHash⟩

theorem continues_nextTick {cursor : Cursor} (hopen : cursor.sealSeen = false) :
    cursor.Continues cursor.nextTick ∧ cursor.nextTick.kind = .event := by
  have hevent : "TICK".utf8ByteSize ≤ maxEventBytes := by decide
  exact continues_entryOf hopen rfl rfl hevent (Nat.zero_le _) rfl fun _ hseal => by cases hseal

theorem continues_nextClosing {cursor : Cursor} (hopen : cursor.sealSeen = false) :
    cursor.Continues cursor.nextClosing ∧ cursor.nextClosing.kind = .seal := by
  have hevent : "LEDGER_SEAL".utf8ByteSize ≤ maxEventBytes := by decide
  have hdetail : "terminal seal".utf8ByteSize ≤ maxDetailBytes := by decide
  exact continues_entryOf hopen rfl rfl hevent hdetail rfl fun _ _ => ⟨rfl, rfl, rfl, rfl, rfl⟩

/-- Events without end. -/
def ticks (count : Nat) : List LedgerEntry := chain.trail nextTick count .start

theorem accepts_ticks (count : Nat) :
    chain.Accepts .start (ticks count) ∧ (chain.reach .start (ticks count)).sealSeen = false := by
  refine @Acceptor.accepts_trail _ _ chain nextTick (fun cursor => cursor.sealSeen = false)
    (fun cursor hopen => (continues_nextTick hopen).1) (fun cursor hopen => ?_) count .start rfl
  have hkind := (continues_nextTick hopen).2
  show (cursor.sealSeen || cursor.nextTick.kind == .seal) = false
  rw [hopen, hkind]
  rfl

/-- So many events and the seal that the cursor after them asks for. -/
def closed (count : Nat) : List LedgerEntry :=
  ticks count ++ [nextClosing (chain.reach .start (ticks count))]

theorem passed_closed (count : Nat) : (verifyReader (ledgerFile (closed count))).passed = true := by
  obtain ⟨haccepts, hopen⟩ := accepts_ticks count
  obtain ⟨hcontinues, hkind⟩ := continues_nextClosing hopen
  refine verifyReader_passed_iff.mpr ⟨closed count, rfl, ?_, ?_⟩
  · exact chain.accepts_concat.mpr ⟨haccepts, hcontinues⟩
  · exact (Ledger.reach_sealSeen .start _).mpr (.inr ⟨_, by simp [closed], hkind⟩)

end Cursor

/-- There are finitely many cursors, so some accepted file is accepted again
after a run of its events is left out. -/
theorem passed_with_events_left_out :
    ¬∀ stream, (verifyReader stream).passed = true →
      ∀ lines, stream = joinLines lines → (∀ line ∈ lines, lf ∉ line) →
        ∀ drawn, (∀ line ∈ drawn, line ∈ lines) →
          (verifyReader (joinLines drawn)).passed = true → drawn = lines := by
  intro hclaim
  obtain ⟨few, many, hlt, hmeet⟩ := chain.exists_trails_meet Cursor.nextTick .start
  have hmeet : chain.reach .start (Cursor.ticks few) = chain.reach .start (Cursor.ticks many) :=
    hmeet
  have hfront : Cursor.ticks few <+: Cursor.ticks many :=
    chain.trail_prefix Cursor.nextTick (Nat.le_of_lt hlt) .start
  have hsubset : ∀ line ∈ (Cursor.closed few).map LedgerEntry.line,
      line ∈ (Cursor.closed many).map LedgerEntry.line := by
    intro line hline
    obtain ⟨entry, hentry, rfl⟩ := List.mem_map.mp hline
    refine List.mem_map_of_mem ?_
    rcases List.mem_append.mp hentry with hentry | hentry
    · exact List.mem_append_left _ (hfront.subset hentry)
    · rw [hmeet] at hentry
      exact List.mem_append_right _ hentry
  have heq := hclaim _ (Cursor.passed_closed many) _ rfl lf_not_mem_map_line _ hsubset
    (Cursor.passed_closed few)
  have hlength := congrArg List.length heq
  simp only [List.length_map, Cursor.closed, Cursor.ticks, List.length_append,
    Acceptor.length_trail, List.length_singleton] at hlength
  omega

end Oasi
