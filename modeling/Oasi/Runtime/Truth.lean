import Oasi.Runtime.Bookkeeping
import Oasi.Runtime.CalmRun
import Oasi.Runtime.Consistency

/-! # What the recorded entries say

Each ledger call names a body and a lease, and the entry that it writes carries the
fields of these. Every call of the runtime names the body and the lease it has,
except the rejection of a probe, which names no lease whether or not there is one.
-/

namespace Oasi

/-- The body and the lease that a ledger call names. -/
def LedgerOperation.named : LedgerOperation → BodyState × Option SafetyLease
  | .record _ _ _ body lease => (body, lease)
  | .seal body lease => (body, lease)

/-- The entry's body fields are those of the body. Its lease fields are those of the
lease, and absent without one. -/
structure LedgerEntry.Names (entry : LedgerEntry) (body : BodyState) (lease : Option SafetyLease) :
    Prop where
  bodyUid : entry.bodyUid = body.bodyUid
  epoch : entry.epoch = body.epoch
  generation : entry.generation = body.generation
  certificate : entry.certificate = body.certificate
  quarantined : entry.quarantined = body.quarantined
  leasePresent : entry.leasePresent = lease.isSome
  leaseBodyUid : entry.leaseBodyUid = lease.map (·.bodyUid)
  leaseEpoch : entry.leaseEpoch = lease.map (·.epoch)
  leaseGeneration : entry.leaseGeneration = lease.map (·.generation)
  leaseCertificate : entry.leaseCertificate = lease.map (·.certificate)
  leaseValidUntilNs : entry.leaseValidUntilNs = lease.map (·.validUntilNs)
  leasePrincipalId : entry.leasePrincipalId = lease.map (·.principalId)
  leaseResourceId : entry.leaseResourceId = lease.map (·.resourceId)
  leaseActionId : entry.leaseActionId = lease.map (·.actionId)

/-- The call names the body and the lease of its moment. -/
def LedgerMoment.Truthful (moment : LedgerMoment) : Prop :=
  moment.operation.named = (moment.body, moment.lease)

/-- The moment of a ledger call is named truthfully; other effects name nothing. -/
def Effect.Truthful : Effect → Prop
  | .recorded operation body lease => LedgerMoment.Truthful ⟨operation, body, lease⟩
  | _ => True

/-! ## Entries and calls -/

/-- An entry names one body and one lease. -/
theorem LedgerEntry.Names.unique {entry : LedgerEntry} {body body' : BodyState}
    {lease lease' : Option SafetyLease} (h : entry.Names body lease)
    (h' : entry.Names body' lease') : (body, lease) = (body', lease') := by
  have hbody : body = body' := by
    cases body
    cases body'
    simp only [BodyState.mk.injEq]
    exact ⟨h.bodyUid.symm.trans h'.bodyUid, h.epoch.symm.trans h'.epoch,
      h.generation.symm.trans h'.generation, h.certificate.symm.trans h'.certificate,
      h.quarantined.symm.trans h'.quarantined⟩
  have hpresent := h.leasePresent.symm.trans h'.leasePresent
  rw [hbody, Prod.mk.injEq]
  refine ⟨rfl, ?_⟩
  cases lease with
  | none =>
      cases lease' with
      | none => rfl
      | some other => cases hpresent
  | some lease =>
      cases lease' with
      | none => cases hpresent
      | some other =>
          cases lease
          cases other
          simp only [Option.some.injEq, SafetyLease.mk.injEq]
          exact ⟨Option.some.inj (h.leaseBodyUid.symm.trans h'.leaseBodyUid),
            Option.some.inj (h.leaseEpoch.symm.trans h'.leaseEpoch),
            Option.some.inj (h.leaseGeneration.symm.trans h'.leaseGeneration),
            Option.some.inj (h.leaseCertificate.symm.trans h'.leaseCertificate),
            Option.some.inj (h.leaseValidUntilNs.symm.trans h'.leaseValidUntilNs),
            Option.some.inj (h.leasePrincipalId.symm.trans h'.leasePrincipalId),
            Option.some.inj (h.leaseResourceId.symm.trans h'.leaseResourceId),
            Option.some.inj (h.leaseActionId.symm.trans h'.leaseActionId)⟩

/-- An entry names the body and the lease that its call was given. -/
theorem names_of_nextEntry {ledger : Ledger} {operation : LedgerOperation} {entry : LedgerEntry}
    (h : ledger.nextEntry operation = .ok entry) :
    entry.Names operation.named.1 operation.named.2 := by
  obtain ⟨nextSeq, hash, _, rfl⟩ := Ledger.nextEntry_eq_ok h
  cases operation <;>
    exact ⟨rfl, rfl, rfl, rfl, rfl, rfl, rfl, rfl, rfl, rfl, rfl, rfl, rfl, rfl⟩

/-- An entry carries the moment of its call exactly when the call names it. -/
theorem LedgerMoment.Wrote.names_iff {moment : LedgerMoment} {entry : LedgerEntry}
    (h : moment.Wrote entry) : entry.Names moment.body moment.lease ↔ moment.Truthful := by
  obtain ⟨ledger, hentry⟩ := h
  have hnames := names_of_nextEntry hentry
  constructor
  · exact fun htrue => hnames.unique htrue
  · intro htruthful
    rw [htruthful] at hnames
    exact hnames

/-- Entries name the body and the lease of their moments exactly when all the moments are truthful.
-/
theorem forall₂_names_iff {moments : List LedgerMoment} {entries : List LedgerEntry}
    (h : List.Forall₂ LedgerMoment.Wrote moments entries) :
    List.Forall₂ (fun moment entry => entry.Names moment.body moment.lease) moments entries ↔
      ∀ moment ∈ moments, moment.Truthful := by
  induction h with
  | nil => simp
  | cons hwrote _ ih => rw [List.forall₂_cons, List.forall_mem_cons, hwrote.names_iff, ih]

/-- The moments of some effects are truthful exactly when the effects are. -/
theorem truthful_moments_iff {effects : List Effect} :
    (∀ moment ∈ momentsIn effects, moment.Truthful) ↔ ∀ effect ∈ effects, effect.Truthful := by
  simp only [momentsIn, List.mem_filterMap, forall_exists_index, and_imp]
  constructor
  · intro htruthful effect heffect
    cases effect with
    | recorded operation body lease => exact htruthful _ _ heffect rfl
    | _ => trivial
  · rintro htruthful moment effect heffect hmoment
    have heffect := htruthful effect heffect
    cases effect with
    | recorded operation body lease =>
        cases hmoment
        exact heffect
    | _ => cases hmoment

/-! ## Effects -/

/-- A record is truthful when its lease is the active one. -/
theorem truthful_records {state : RuntimeState} {event detail : String} {decision : Decision}
    {lease : Option SafetyLease} :
    (state.records event detail decision lease).Truthful ↔ lease = state.activeLease := by
  simp [RuntimeState.records, RuntimeState.calls, Effect.Truthful, LedgerMoment.Truthful,
    LedgerOperation.named]

/-- A seal with the runtime's own body and lease is truthful. -/
theorem truthful_seal (state : RuntimeState) :
    (state.calls (.seal state.body state.activeLease)).Truthful := rfl

/-- Effects without ledger calls. -/
theorem truthful_of_recordedIn {effects : List Effect} (h : recordedIn effects = []) :
    ∀ effect ∈ effects, effect.Truthful := by
  rw [← truthful_moments_iff, momentsIn_of_recordedIn h]
  exact fun _ hmoment => absurd hmoment List.not_mem_nil

/-- An exchange without an answer calls no ledger. -/
theorem Unanswered.truthful {command : String} {effects : List Effect}
    (h : Unanswered command effects) : ∀ effect ∈ effects, effect.Truthful :=
  truthful_of_recordedIn h.projections.2.2

/-- An answered exchange calls no ledger. -/
theorem Answered.truthful {command : String} {expected : BoundExpectedAck} {effects : List Effect}
    (h : Answered command expected effects) : ∀ effect ∈ effects, effect.Truthful :=
  truthful_of_recordedIn h.projections.2.2

/-- A stop that is answered calls no ledger. -/
theorem Stopped.truthful {command : String} {expected : BoundExpectedAck} {effects : List Effect}
    (h : Stopped command expected effects) : ∀ effect ∈ effects, effect.Truthful :=
  truthful_of_recordedIn h.projections.2.2

section Lists

variable {first second : List Effect}

/-- Truthful effects may be joined. -/
theorem truthful_append (hfirst : ∀ effect ∈ first, effect.Truthful)
    (hsecond : ∀ effect ∈ second, effect.Truthful) :
    ∀ effect ∈ first ++ second, effect.Truthful := by
  intro effect heffect
  exact (List.mem_append.mp heffect).elim (hfirst effect) (hsecond effect)

/-- A truthful effect may be put before truthful ones. -/
theorem truthful_cons {head : Effect} (hhead : head.Truthful)
    (hsecond : ∀ effect ∈ second, effect.Truthful) :
    ∀ effect ∈ head :: second, effect.Truthful :=
  List.forall_mem_cons.mpr ⟨hhead, hsecond⟩

/-- A truthful effect may stand alone. -/
theorem truthful_singleton {head : Effect} (hhead : head.Truthful) :
    ∀ effect ∈ [head], effect.Truthful :=
  truthful_cons hhead fun _ heffect => absurd heffect List.not_mem_nil

/-- What comes first among truthful effects is truthful. -/
theorem truthful_front (hfront : first <+: second)
    (hsecond : ∀ effect ∈ second, effect.Truthful) : ∀ effect ∈ first, effect.Truthful :=
  fun effect heffect => hsecond effect (hfront.subset heffect)

end Lists

section Turns

variable {state after : RuntimeState} {effects : List Effect} {ok : Bool}

/-- A quarantine records the body and the lease that it found or made. -/
theorem QuarantineTurn.truthful {reason : String}
    (h : QuarantineTurn reason state effects ok after) : ∀ effect ∈ effects, effect.Truthful := by
  have hrevoked : ∀ event detail, (state.revoked.records event detail .blockQuarantine
      none).Truthful := fun _ _ => truthful_records.mpr rfl
  cases h with
  | overflowed => exact fun _ heffect => absurd heffect List.not_mem_nil
  | unsent rollbacks nonce => exact truthful_singleton (hrevoked _ _)
  | refused order error exchanged hexchanged =>
      exact truthful_append (truthful_cons (hrevoked _ _) hexchanged.truthful)
        (truthful_singleton (hrevoked _ _))
  | confirmed order exchanged hexchanged =>
      exact truthful_append (truthful_cons (hrevoked _ _) hexchanged.truthful)
        (truthful_singleton (hrevoked _ _))

/-- A commit records the lease that was active when it began. -/
theorem CommitTurn.truthful {nowNs : UInt64} (h : CommitTurn nowNs state effects ok after) :
    ∀ effect ∈ effects, effect.Truthful := by
  cases h with
  | blocked hblocked => exact truthful_singleton (truthful_records.mpr rfl)
  | unsent hallowed nonce => exact fun _ heffect => absurd heffect List.not_mem_nil
  | rejected hallowed order error exchanged hexchanged =>
      exact truthful_append hexchanged.truthful (truthful_singleton (truthful_records.mpr rfl))
  | uncounted hallowed order exchanged hexchanged => exact hexchanged.truthful
  | committed hallowed order exchanged hexchanged allowedCommits hallowedCommits records ok
      hrecords =>
      refine truthful_append hexchanged.truthful (truthful_front hrecords ?_)
      exact truthful_cons (truthful_records.mpr rfl) (truthful_singleton (truthful_records.mpr rfl))

/-- A probe of a runtime without a lease. -/
theorem ProbeTurn.truthful {nowNs : UInt64} (h : ProbeTurn nowNs state effects ok after)
    (hnone : state.activeLease = none) : ∀ effect ∈ effects, effect.Truthful := by
  have hstate : ∀ event detail, (state.records event detail .blockQuarantine none).Truthful :=
    fun _ _ => truthful_records.mpr hnone.symm
  cases h with
  | refused hrefused => exact truthful_singleton (hstate _ _)
  | unsent hquarantined hconfirmed nonce records hrecords =>
      intro effect heffect
      obtain ⟨event, detail, rfl⟩ := hrecords effect heffect
      exact hstate event detail
  | rejected hquarantined hconfirmed order error exchanged hexchanged =>
      exact truthful_append (truthful_cons (hstate _ _) hexchanged.truthful)
        (truthful_singleton (truthful_records.mpr rfl))
  | expired hquarantined hconfirmed order exchanged hexchanged =>
      exact truthful_cons (hstate _ _) hexchanged.truthful
  | recovered hquarantined hconfirmed order exchanged hexchanged validUntilNs hdeadline after
      hafter records ok hrecords =>
      refine truthful_append (truthful_cons (hstate _ _) hexchanged.truthful)
        (truthful_front hrecords ?_)
      exact truthful_cons (truthful_records.mpr rfl) (truthful_singleton (truthful_records.mpr rfl))

/-- The end records and seals with the runtime's own body and lease. -/
theorem ConcludeTurn.truthful (h : ConcludeTurn state effects ok after) :
    ∀ effect ∈ effects, effect.Truthful := by
  cases h with
  | unsent nonce => exact fun _ heffect => absurd heffect List.not_mem_nil
  | rejected nonce hnonce error exchanged hexchanged =>
      refine truthful_append ?_ (truthful_singleton (truthful_records.mpr rfl))
      exact hexchanged.elim Unanswered.truthful Stopped.truthful
  | concluded nonce hnonce exchanged hexchanged records ok hrecords =>
      refine truthful_append hexchanged.truthful (truthful_front hrecords ?_)
      exact truthful_cons (truthful_records.mpr rfl) (truthful_singleton (truthful_seal state))

/-- A consistent runtime names what it has, unless it probes a body that is not
quarantined. -/
theorem truthful_turn {nowNs : UInt64} {signal : Signal} (hconsistent : Consistent state)
    (h : AuthorityTurn nowNs state signal effects ok after)
    (hprobe : signal = .event .functionalFreshnessProbe → state.body.quarantined = true) :
    ∀ effect ∈ effects, effect.Truthful := by
  cases h with
  | beginRefused hpending => exact fun _ heffect => absurd heffect List.not_mem_nil
  | begun hidle => exact truthful_singleton (truthful_records.mpr rfl)
  | commit hturn => exact hturn.truthful
  | resetOverflowed epoch => exact fun _ heffect => absurd heffect List.not_mem_nil
  | reset epoch generation hepoch hgeneration hturn => exact hturn.truthful
  | timeout hturn => exact hturn.truthful
  | probe hturn => exact hturn.truthful (hconsistent.quarantined_iff.mp (hprobe rfl))
  | conclude signal hsignal hturn => exact hturn.truthful

/-- The rejection of a probe denies the lease that a consistent runtime has. -/
theorem untruthful_probe {nowNs : UInt64} (hconsistent : Consistent state)
    (h : AuthorityTurn nowNs state (.event .functionalFreshnessProbe) effects ok after)
    (hactive : state.body.quarantined = false) : ∃ effect ∈ effects, ¬effect.Truthful := by
  have hlease : state.activeLease ≠ none := fun hnone => by
    rw [hconsistent.quarantined_iff.mpr hnone] at hactive
    cases hactive
  have hquarantined : state.body.quarantined ≠ true := by simp [hactive]
  cases h with
  | conclude signal hsignal => simp at hsignal
  | probe hturn =>
      cases hturn with
      | refused hrefused =>
          refine ⟨_, List.mem_singleton.mpr rfl, ?_⟩
          rw [truthful_records]
          exact fun hnone => hlease hnone.symm
      | unsent hquarantine => exact absurd hquarantine hquarantined
      | rejected hquarantine => exact absurd hquarantine hquarantined
      | expired hquarantine => exact absurd hquarantine hquarantined
      | recovered hquarantine => exact absurd hquarantine hquarantined

end Turns

namespace Runtime

/-- A new runtime records its own body and lease. -/
theorem truthful_new {startup : Startup} {runtime : Runtime} {effects : List Effect}
    (hnew : new startup = .ok (runtime, effects)) : ∀ effect ∈ effects, effect.Truthful := by
  obtain ⟨_, line, _, _, _, _, _, rfl⟩ := (launched_of_new hnew).child
  refine truthful_append ?_ (truthful_cons trivial (truthful_singleton (truthful_records.mpr rfl)))
  intro effect heffect
  obtain ⟨message, _, rfl⟩ := mem_deliveries.mp heffect
  trivial

/-! ## Rejected probes -/

/-- The call that records the rejection of a probe. -/
def rejection (body : BodyState) (outcomes : List IoOutcome) : LedgerCall where
  operation := .record "FUNCTIONAL_FRESHNESS_PROBE_REJECTED"
    "rollback ACK not confirmed; no reauthorization" .blockQuarantine body none
  outcomes := outcomes

/-- A probe finds its body quarantined, or its rejection cannot be recorded. -/
def ProbesInOrder (turn : Turn) : Prop :=
  turn.input.signal = .event .functionalFreshnessProbe →
    turn.before.body.quarantined = true ∨
      ∃ error, (Ledger.ledgerMachine.step turn.before.ledger
        (rejection turn.before.body turn.input.surroundings.ledgerOutcomes)).1 = .error error

/-- The probe of an unquarantined body is one call of the ledger. -/
theorem unquarantinedProbe_ends {runtime : Runtime} {occurrence : Occurrence}
    (hsignal : occurrence.signal = .event .functionalFreshnessProbe)
    (hactive : runtime.body.quarantined = false) :
    Ends (turn occurrence.signal) (turnWorld runtime occurrence)
      (fun _ _ => (Ledger.ledgerMachine.step runtime.ledger
        (rejection runtime.body occurrence.surroundings.ledgerOutcomes)).1 = .ok ())
      (fun error after =>
        (Ledger.ledgerMachine.step runtime.ledger
          (rejection runtime.body occurrence.surroundings.ledgerOutcomes)).1 = .error error ∧
        Misses (turnWorld runtime occurrence) after) := by
  have hrefused : runtime.toRuntimeState.countProbe.body.quarantined = false ∨
      runtime.toRuntimeState.countProbe.rollbackConfirmed = false := .inl hactive
  rw [hsignal]
  simp only [turn, functionalFreshnessProbe, ends_bind, update, self, ends_modify, ends_get,
    ends_pure, turnWorld, facing]
  rw [if_pos hrefused, record, callLedger, ends_bind, ends_modify, ends_onPart]
  refine ends_iff.mpr ⟨fun _ after hok => ?_, fun error after herror => ?_⟩
  · have hperform : Ledger.perform
        (rejection runtime.body occurrence.surroundings.ledgerOutcomes).operation
        (runtime.ledger.facing occurrence.surroundings.ledgerOutcomes) = .ok () after := hok
    simp only [Ledger.ledgerMachine, rejection] at hperform ⊢
    rw [hperform]
  · have hperform : Ledger.perform
        (rejection runtime.body occurrence.surroundings.ledgerOutcomes).operation
        (runtime.ledger.facing occurrence.surroundings.ledgerOutcomes) = .error error after :=
      herror
    obtain ⟨hcursor, hfile⟩ := (Ledger.perform_kept _ _).of_error hperform
    refine ⟨?_, ⟨_, momentsIn_append _ _⟩, hcursor, hfile⟩
    simp only [Ledger.ledgerMachine, rejection] at hperform ⊢
    rw [hperform]
    rfl

/-- A turn that returned `Ok` named truthfully exactly when its probe was in order. -/
theorem truthful_transition {runtime : Runtime} {occurrence : Occurrence}
    (hconsistent : Consistent runtime.toRuntimeState) {result : Option Metrics}
    (hresult : (runtimeMachine.transition runtime occurrence).output.result = .ok result) :
    (∀ moment ∈ momentsIn (runtimeMachine.transition runtime occurrence).output.effects,
      moment.Truthful) ↔ ProbesInOrder (runtimeMachine.transition runtime occurrence) := by
  obtain ⟨ok, hturn, _⟩ := turn_of_transition runtime occurrence
  rw [truthful_moments_iff]
  constructor
  · intro htruthful hprobe
    by_contra hactive
    rw [not_or, Bool.not_eq_true] at hactive
    have hsignal : occurrence.signal = .event .functionalFreshnessProbe := hprobe
    rw [hsignal] at hturn
    obtain ⟨effect, heffect, hfalse⟩ := untruthful_probe hconsistent hturn hactive.1
    exact hfalse (htruthful effect heffect)
  · intro hprobes
    refine truthful_turn hconsistent hturn fun hprobe => ?_
    rcases hprobes hprobe with hquarantined | ⟨error, herror⟩
    · exact hquarantined
    · -- the record call of a turn that returned `Ok` has not failed
      by_contra hactive
      rw [Bool.not_eq_true] at hactive
      obtain ⟨_, _, _, hdone, _⟩ := ends_transition (unquarantinedProbe_ends hprobe hactive)
      cases herror.symm.trans (hdone result hresult)

/-! ## Chronicles -/

/-- The calls of a run that returned `Ok` with the entries they wrote. Only the last call
may have failed; the file holds nothing but these entries unless it did. -/
structure Chronicle (effects : List Effect) (ledger : Ledger) (moments : List LedgerMoment)
    (entries : List LedgerEntry) : Prop where
  calls : momentsIn effects = moments ∨ ∃ missed, momentsIn effects = moments ++ [missed]
  wrote : List.Forall₂ LedgerMoment.Wrote moments entries
  accepts : chain.Accepts .start entries
  cursor : ledger.cursor = chain.reach .start entries
  file : ledgerFile entries <+: ledger.file
  whole : momentsIn effects = moments → ledger.file = ledgerFile entries

/-- Booked effects have a chronicle of the entries they wrote. -/
theorem chronicle_of_booked {effects : List Effect} {ledger : Ledger} (h : Booked effects ledger) :
    ∃ entries, Chronicle effects ledger (momentsIn effects) entries := by
  obtain ⟨entries, hholds, hwrote⟩ := h
  exact ⟨entries, .inl rfl, hwrote, hholds.accepts, hholds.cursor,
    hholds.file ▸ List.prefix_rfl, fun _ => hholds.file⟩

/-- A call that failed leaves what was booked before it. -/
theorem chronicle_of_misses {runtime : Runtime} {occurrence : Occurrence} {effects : List Effect}
    {middle after : World} (h : Booked effects runtime.ledger)
    (hbooks : Books (turnWorld runtime occurrence) middle) (hmisses : Misses middle after) :
    ∃ entries, Chronicle (effects ++ after.effects) after.runtime.ledger
      (momentsIn (effects ++ middle.effects)) entries := by
  obtain ⟨entries, hholds, hwrote⟩ := h.after hbooks
  obtain ⟨missed, hmoments⟩ := hmisses.moment
  have hcalls : momentsIn (effects ++ after.effects) =
      momentsIn (effects ++ middle.effects) ++ [missed] := by
    rw [momentsIn_append, momentsIn_append, hmoments, List.append_assoc]
  refine ⟨entries, .inr ⟨missed, hcalls⟩, hwrote, hholds.accepts,
    hmisses.cursor.trans hholds.cursor, hholds.file ▸ hmisses.file, fun hall => ?_⟩
  rw [hcalls] at hall
  simp at hall

/-- What the last turn of a run leaves. -/
theorem chronicle_transition {runtime : Runtime} {effects : List Effect}
    (hconsistent : Consistent runtime.toRuntimeState) (h : Booked effects runtime.ledger)
    (occurrence : Occurrence) :
    ∃ moments entries,
      Chronicle (effects ++ (runtimeMachine.transition runtime occurrence).output.effects)
        (runtimeMachine.transition runtime occurrence).after.ledger
        (momentsIn effects ++ moments) entries ∧
      ((∀ moment ∈ moments, moment.Truthful) ↔
        ProbesInOrder (runtimeMachine.transition runtime occurrence)) := by
  cases hresult : (runtimeMachine.transition runtime occurrence).output.result with
  | ok result =>
      obtain ⟨entries, hchronicle⟩ := chronicle_of_booked (booked_transition hresult h)
      rw [momentsIn_append] at hchronicle
      exact ⟨_, entries, hchronicle, truthful_transition hconsistent hresult⟩
  | error error =>
      by_cases hactive : occurrence.signal = .event .functionalFreshnessProbe ∧
          runtime.body.quarantined = false
      · -- the rejection was not recorded
        obtain ⟨after, hruntime, heffects, _, hfailed⟩ :=
          ends_transition (unquarantinedProbe_ends hactive.1 hactive.2)
        obtain ⟨hstep, hmisses⟩ := hfailed error hresult
        obtain ⟨entries, hchronicle⟩ := chronicle_of_misses h (Books.refl _) hmisses
        rw [hruntime, heffects, turnWorld, List.append_nil] at hchronicle
        refine ⟨[], entries, by rwa [List.append_nil], ?_⟩
        exact iff_of_true (fun _ hmoment => absurd hmoment List.not_mem_nil)
          fun _ => .inr ⟨error, hstep⟩
      · -- every call of the turn named truthfully, whichever of them failed
        have hquarantined : occurrence.signal = .event .functionalFreshnessProbe →
            runtime.body.quarantined = true := fun hprobe => by
          by_contra hfalse
          exact hactive ⟨hprobe, Bool.not_eq_true _ ▸ hfalse⟩
        obtain ⟨ok, hturn, _⟩ := turn_of_transition runtime occurrence
        have htruthful := truthful_moments_iff.mpr (truthful_turn hconsistent hturn hquarantined)
        have horder : ProbesInOrder (runtimeMachine.transition runtime occurrence) :=
          fun hprobe => .inl (hquarantined hprobe)
        obtain ⟨after, hruntime, heffects, _, hfailed⟩ :=
          lawful_transition lawful_books runtime occurrence
        rw [← heffects] at htruthful ⊢
        rw [← hruntime]
        rcases hfailed error hresult with hbooks | ⟨middle, hbooks, hmisses⟩
        · obtain ⟨entries, hchronicle⟩ := chronicle_of_booked (h.after hbooks)
          rw [momentsIn_append] at hchronicle
          exact ⟨_, entries, hchronicle, iff_of_true htruthful horder⟩
        · obtain ⟨entries, hchronicle⟩ := chronicle_of_misses h hbooks hmisses
          obtain ⟨missed, hmoments⟩ := hmisses.moment
          rw [momentsIn_append] at hchronicle
          refine ⟨_, entries, hchronicle, iff_of_true (fun moment hmoment => ?_) horder⟩
          refine htruthful moment ?_
          rw [hmoments]
          exact List.mem_append_left _ hmoment

/-- The ledger as the turns of a run leave it. -/
def lastLedger (runtime : Runtime) (occurrences : List Occurrence) : Ledger :=
  match (runtime.history occurrences).getLast? with
  | some last => last.after.ledger
  | none => runtime.ledger

/-- The last ledger is the one after the last turn. -/
theorem lastLedger_concat {runtime : Runtime} {occurrences : List Occurrence} {past : List Turn}
    {last : Turn} (h : runtime.history occurrences = past ++ [last]) :
    runtime.lastLedger occurrences = last.after.ledger := by
  rw [lastLedger, h, List.getLast?_concat]

/-- The last ledger of a trace is that of the runtime it reaches. -/
theorem lastLedger_trace {runtime : Runtime} {occurrences used : List Occurrence}
    (h : runtime.history occurrences = runtimeMachine.trace runtime used) :
    runtime.lastLedger occurrences = (runtimeMachine.run runtime used).ledger := by
  rcases List.eq_nil_or_concat used with rfl | ⟨first, last, rfl⟩
  · rw [lastLedger, h]
    rfl
  · rw [List.concat_eq_append, Machine.trace_concat] at h
    rw [lastLedger_concat h, List.concat_eq_append, Machine.run_concat]
    rfl

/-- The turns of a run before its last one name truthfully when their probes are in order. -/
theorem truthful_past {startup : Startup} {runtime : Runtime} {effects : List Effect}
    (hnew : new startup = .ok (runtime, effects)) {used : List Occurrence}
    (hcontinues : ∀ turn ∈ runtimeMachine.trace runtime used, turn.output.ends = false) :
    (∀ moment ∈ momentsIn (effects ++ effectsOf (runtimeMachine.trace runtime used)),
      moment.Truthful) ↔ ∀ turn ∈ runtimeMachine.trace runtime used, ProbesInOrder turn := by
  induction used using List.reverseRecOn with
  | nil =>
      refine iff_of_true ?_ fun turn hturn => absurd hturn List.not_mem_nil
      rw [Machine.trace_nil, effectsOf_nil, List.append_nil]
      exact truthful_moments_iff.mpr (truthful_new hnew)
  | append_singleton used occurrence ih =>
      rw [Machine.trace_concat] at hcontinues ⊢
      have hbefore := fun turn hturn => hcontinues turn (List.mem_append_left _ hturn)
      have hresult := result_of_continues
        (hcontinues _ (List.mem_append_right _ (List.mem_singleton.mpr rfl)))
      have hconsistent := (consistent_past (consistent_launched (launched_of_new hnew)) hbefore).1
      rw [effectsOf_append, effectsOf_cons, effectsOf_nil, List.append_nil, ← List.append_assoc,
        momentsIn_append, List.forall_mem_append, List.forall_mem_append, ih hbefore,
        truthful_transition hconsistent hresult, List.forall_mem_singleton]

/-- In every run, the entries that the ledger file holds carry the body and the lease of
their moments exactly when each probe finds its body quarantined, unless the ledger does
not take the probe's rejection. -/
theorem truthful_iff {startup : Startup} {runtime : Runtime} {effects : List Effect}
    (hnew : new startup = .ok (runtime, effects)) (occurrences : List Occurrence) :
    ∃ moments entries,
      Chronicle (effects ++ effectsOf (runtime.history occurrences))
        (runtime.lastLedger occurrences) moments entries ∧
      (List.Forall₂ (fun moment entry => entry.Names moment.body moment.lease) moments entries ↔
        ∀ turn ∈ runtime.history occurrences, ProbesInOrder turn) := by
  obtain ⟨used, hcontinues, hhistory⟩ :=
    runtimeMachine.session_cases TurnReport.ends runtime occurrences
  have hbooked := booked_past (booked_new hnew) hcontinues
  have hpast := truthful_past hnew hcontinues
  rcases hhistory with hhistory | ⟨occurrence, _, hhistory⟩
  · obtain ⟨entries, hchronicle⟩ := chronicle_of_booked hbooked
    rw [lastLedger_trace hhistory, history, hhistory]
    exact ⟨_, entries, hchronicle, (forall₂_names_iff hchronicle.wrote).trans hpast⟩
  · have hconsistent := (consistent_past (consistent_launched (launched_of_new hnew)) hcontinues).1
    obtain ⟨moments, entries, hchronicle, hlast⟩ :=
      chronicle_transition hconsistent hbooked occurrence
    rw [lastLedger_concat hhistory, history, hhistory, effectsOf_append, effectsOf_cons,
      effectsOf_nil, List.append_nil, ← List.append_assoc]
    refine ⟨_, entries, hchronicle, (forall₂_names_iff hchronicle.wrote).trans ?_⟩
    rw [List.forall_mem_append, List.forall_mem_append, List.forall_mem_singleton, hpast, hlast]

/-- A calm run with a quarantine and the probe that recovers from it. -/
theorem truthful_iff_recovery :
    ∃ runtime effects occurrences moments entries,
      new calmStartup = .ok (runtime, effects) ∧
      (∃ turn ∈ runtime.history occurrences,
        turn.input.signal = .event .functionalFreshnessProbe) ∧
      Chronicle (effects ++ effectsOf (runtime.history occurrences))
        (runtime.lastLedger occurrences) moments entries ∧
      List.Forall₂ (fun moment entry => entry.Names moment.body moment.lease) moments entries := by
  let cues : List Cue := [⟨1, .timeout⟩, ⟨2, .event .functionalFreshnessProbe⟩]
  have hfits : calmState.fitsAll cues = true := by decide
  obtain ⟨runtime, effects, hnew, hpoised⟩ := @poised_calmStartup (3 * cues.length + 0) (by decide)
  obtain ⟨past, probe, future, hsplit, hprobe⟩ :=
    @calm_turn _ _ _ _ cues [⟨1, .timeout⟩] [] hpoised hfits rfl
  obtain ⟨moments, entries, hchronicle, hnames⟩ :=
    truthful_iff hnew (calmState.occurrences cues)
  refine ⟨runtime, effects, calmState.occurrences cues, moments, entries, hnew,
    ⟨probe, ?_, ?_⟩, hchronicle, hnames.mpr ?_⟩
  · rw [hsplit]
    exact List.mem_append_right _ List.mem_cons_self
  · rw [hprobe.input]
    rfl
  · intro turn hturn hsignal
    rw [calm_history_eq hpoised hfits] at hturn
    obtain ⟨earlier, cue, later, hcues, hcalm⟩ := calm_cue hpoised hfits turn hturn
    rw [hcalm.input] at hsignal
    left
    rw [hcalm.before]
    -- the probe comes after the quarantine
    rcases earlier with _ | ⟨first, _ | ⟨second, earlier⟩⟩
    · obtain ⟨rfl, rfl⟩ := List.cons.inj hcues
      cases hsignal
    · obtain ⟨rfl, hcues⟩ := List.cons.inj hcues
      decide
    · simp [cues] at hcues

/-- A probe right after the start writes an entry that denies the lease. -/
theorem untruthful_early_probe :
    ∃ runtime effects occurrences moments entries,
      new calmStartup = .ok (runtime, effects) ∧
      Chronicle (effects ++ effectsOf (runtime.history occurrences))
        (runtime.lastLedger occurrences) moments entries ∧
      ¬List.Forall₂ (fun moment entry => entry.Names moment.body moment.lease) moments entries := by
  let cue : Cue := ⟨1, .event .functionalFreshnessProbe⟩
  obtain ⟨runtime, effects, hnew, hpoised⟩ := @poised_calmStartup 3 (by decide)
  obtain ⟨hresult, _⟩ := @calm_transition _ 0 _ cue hpoised (by decide)
    (by rintro (hstop | hstop) <;> cases hstop)
  have hhistory : runtime.history [calmState.occurrence cue] =
      [] ++ [runtimeMachine.transition runtime (calmState.occurrence cue)] := by
    rw [history, Machine.session]
    split <;> rfl
  obtain ⟨entries, hchronicle⟩ :=
    chronicle_of_booked (booked_transition hresult (booked_new hnew))
  refine ⟨runtime, effects, [calmState.occurrence cue], momentsIn (effects ++
    (runtimeMachine.transition runtime (calmState.occurrence cue)).output.effects), entries, hnew,
    ?_, fun hnames => ?_⟩
  · rwa [lastLedger_concat hhistory, hhistory, List.nil_append, effectsOf_cons, effectsOf_nil,
      List.append_nil]
  · obtain ⟨ok, hturn, _⟩ := turn_of_transition runtime (calmState.occurrence cue)
    have hactive : runtime.body.quarantined = false := by
      rw [hpoised.fields]
      rfl
    obtain ⟨effect, heffect, hfalse⟩ :=
      untruthful_probe (consistent_launched (launched_of_new hnew)) hturn hactive
    have htruthful := truthful_moments_iff.mp ((forall₂_names_iff hchronicle.wrote).mp hnames)
    exact hfalse (htruthful effect (List.mem_append_right _ heffect))

end Runtime

end Oasi
