import Oasi.Ledger.Admission
import Oasi.Runtime.Laws
import Oasi.Runtime.Transactions

/-! # The entries behind the ledger calls

Each call of the ledger that returns `Ok` adds one entry to the file, so the entries
of a run are read off its effects. Of the calls of one operation only the last may
fail, and it adds none.
-/

namespace Oasi

/-- What an entry and the call that writes it have in common. -/
structure EntryLabel where
  kind : EntryKind
  event : String
  decision : UInt8
  deriving DecidableEq, Repr

def LedgerEntry.label (entry : LedgerEntry) : EntryLabel :=
  ⟨entry.kind, entry.event, entry.decision⟩

def LedgerOperation.label : LedgerOperation → EntryLabel
  | .record event _ decision _ _ => ⟨.event, event, decision.toU8⟩
  | .seal _ _ => ⟨.seal, "LEDGER_SEAL", Decision.allow.toU8⟩

/-- The labels of the entries that these effects write. -/
def labelsIn (effects : List Effect) : List EntryLabel :=
  (recordedIn effects).map LedgerOperation.label

@[simp] theorem labelsIn_append (first second : List Effect) :
    labelsIn (first ++ second) = labelsIn first ++ labelsIn second := by
  rw [labelsIn, recordedIn_append, List.map_append]
  rfl

/-- Without records there are no labels. -/
theorem labelsIn_of_recordedIn {effects : List Effect} (h : recordedIn effects = []) :
    labelsIn effects = [] := by
  rw [labelsIn, h, List.map_nil]

/-- An entry has the label of its operation. -/
theorem label_of_nextEntry {ledger : Ledger} {operation : LedgerOperation} {entry : LedgerEntry}
    (h : ledger.nextEntry operation = .ok entry) : entry.label = operation.label := by
  obtain ⟨nextSeq, hash, _, rfl⟩ := Ledger.nextEntry_eq_ok h
  cases operation <;> rfl

/-- A ledger call, with the body and the lease at its time. -/
structure LedgerMoment where
  operation : LedgerOperation
  body : BodyState
  lease : Option SafetyLease

def Effect.moment? : Effect → Option LedgerMoment
  | .recorded operation body lease => some ⟨operation, body, lease⟩
  | _ => none

/-- The calls of the ledger with their moments. -/
def momentsIn (effects : List Effect) : List LedgerMoment := effects.filterMap Effect.moment?

@[simp] theorem momentsIn_append (first second : List Effect) :
    momentsIn (first ++ second) = momentsIn first ++ momentsIn second := List.filterMap_append

/-- The records are the operations of the ledger's moments. -/
theorem recordedIn_eq (effects : List Effect) :
    recordedIn effects = (momentsIn effects).map LedgerMoment.operation := by
  rw [recordedIn, momentsIn, List.map_filterMap]
  refine List.filterMap_congr fun effect _ => ?_
  cases effect <;> rfl

/-- Without records the ledger has no moments. -/
theorem momentsIn_of_recordedIn {effects : List Effect} (h : recordedIn effects = []) :
    momentsIn effects = [] := by
  rwa [recordedIn_eq, List.map_eq_nil_iff] at h

/-- The entry is the one that the call computes from some ledger. -/
def LedgerMoment.Wrote (moment : LedgerMoment) (entry : LedgerEntry) : Prop :=
  ∃ ledger : Ledger, ledger.nextEntry moment.operation = .ok entry

/-- Entries that were written for the moments have their labels. -/
theorem labelsIn_of_wrote {effects : List Effect} {entries : List LedgerEntry}
    (h : List.Forall₂ LedgerMoment.Wrote (momentsIn effects) entries) :
    entries.map LedgerEntry.label = labelsIn effects := by
  rw [labelsIn, recordedIn_eq, List.map_map]
  generalize momentsIn effects = moments at h ⊢
  induction h with
  | nil => rfl
  | cons hwrote _ ih =>
      obtain ⟨ledger, hentry⟩ := hwrote
      rw [List.map_cons, List.map_cons, ih, label_of_nextEntry hentry]
      rfl

namespace Runtime

/-- Each call in between has written its entry. -/
def Books (world after : World) : Prop :=
  ∃ moments written, momentsIn after.effects = momentsIn world.effects ++ moments ∧
    List.Forall₂ LedgerMoment.Wrote moments written ∧
    ∀ entries, Ledger.Holds entries world.runtime.ledger →
      Ledger.Holds (entries ++ written) after.runtime.ledger

/-- Where nothing happens the books agree. -/
theorem Books.refl (world : World) : Books world world :=
  ⟨[], [], (List.append_nil _).symm, .nil, fun entries hholds => by rwa [List.append_nil]⟩

/-- Books that agree at each of two steps agree over both. -/
theorem Books.trans {first second third : World} (h : Books first second)
    (hnext : Books second third) : Books first third := by
  obtain ⟨moments, written, hmoments, hwrote, hholds⟩ := h
  obtain ⟨others, more, hothers, hmore, hthen⟩ := hnext
  refine ⟨moments ++ others, written ++ more, ?_, List.rel_append hwrote hmore,
    fun entries hentries => ?_⟩
  · rw [hothers, hmoments, List.append_assoc]
  · rw [← List.append_assoc]
    exact hthen _ (hholds entries hentries)

/-- A call that failed: the counters stay, and at most the file has grown. -/
structure Misses (world after : World) : Prop where
  moment : ∃ moment, momentsIn after.effects = momentsIn world.effects ++ [moment]
  cursor : after.runtime.ledger.cursor = world.runtime.ledger.cursor
  file : world.runtime.ledger.file <+: after.runtime.ledger.file

/-- Each call in between has written its entry, except a last one that failed. -/
def BooksAllButOne (world after : World) : Prop :=
  Books world after ∨ ∃ middle, Books world middle ∧ Misses middle after

/-- The last record may be missing at the end of the second step. -/
theorem BooksAllButOne.trans {first second third : World} (h : Books first second)
    (hnext : BooksAllButOne second third) : BooksAllButOne first third := by
  rcases hnext with hnext | ⟨middle, hnext, hmisses⟩
  · exact .inl (h.trans hnext)
  · exact .inr ⟨middle, h.trans hnext, hmisses⟩

/-- Nothing was recorded and the ledger was left alone. -/
structure Silent (world after : World) : Prop where
  ledger : after.runtime.ledger = world.runtime.ledger
  effects : ∃ more, after.effects = world.effects ++ more ∧ recordedIn more = []

/-- Where nothing happens nothing is recorded. -/
theorem Silent.refl (world : World) : Silent world world := ⟨rfl, [], (List.append_nil _).symm, rfl⟩

/-- What is silent is no moment of the ledger. -/
theorem Silent.moments {world after : World} (h : Silent world after) :
    momentsIn after.effects = momentsIn world.effects := by
  obtain ⟨more, heffects, hmore⟩ := h.effects
  rw [heffects, momentsIn_append, momentsIn_of_recordedIn hmore, List.append_nil]

/-- What is silent adds no label. -/
theorem Silent.labels {world after : World} (h : Silent world after) :
    labelsIn after.effects = labelsIn world.effects := by
  simp only [labelsIn, recordedIn_eq, h.moments]

/-- What a child does is not recorded. -/
theorem onChild_silent {child : ChildProcess} {action : Connection.Action Unit} {world : World}
    (haction : Ends action ⟨child, world.effects⟩
      (fun _ after => ∃ more, after.effects = world.effects ++ more ∧ recordedIn more = [])
      (fun _ after => ∃ more, after.effects = world.effects ++ more ∧ recordedIn more = [])) :
    Ends (onChild child action) world (fun _ after => Silent world after)
      (fun _ after => Silent world after) := by
  rw [onChild, ends_onPart, ends_attempt]
  exact haction.mono (fun _ _ hmore => ⟨rfl, hmore⟩) fun _ _ hmore => ⟨rfl, hmore⟩

/-- A transaction, answered or not, makes no call of the ledger. -/
theorem transact_silent (unavailable command : String) (expected : BoundExpectedAck)
    (world : World) :
    Ends (transact unavailable command expected) world (fun _ after => Silent world after)
      (fun _ after => Silent world after) := by
  simp only [transact, ends_bind, ends_get, ends_orThrow]
  refine ⟨fun child _ => onChild_silent ?_, fun _ => Silent.refl world⟩
  refine (Connection.transactBound_ends _ command expected _).mono ?_ ?_
  · rintro _ after ⟨_, _, _, heffects, _⟩
    exact ⟨_, heffects, by simp⟩
  · rintro _ after ⟨more, heffects, hmore⟩
    exact ⟨more, heffects, hmore.projections.2.2⟩

/-- The stop of the child is not recorded. -/
theorem stopChild_silent (id nonce : UInt64) (authority : AuthoritySnapshot) (world : World) :
    Ends (stopChild id nonce authority) world (fun _ after => Silent world after)
      (fun _ after => Silent world after) := by
  simp only [stopChild, ends_bind, ends_get, ends_orThrow, ends_modify, ends_pure]
  refine ⟨fun child _ => (@onChild_silent child _ world ?_).mono ?_ fun _ _ hafter => hafter,
    fun _ => Silent.refl world⟩
  · refine (Connection.stopBound_ends _ _ id nonce authority _).mono ?_ ?_
    · rintro _ after ⟨more, heffects, hstopped⟩
      exact ⟨more, heffects, hstopped.projections.2.2⟩
    · rintro _ after ⟨more, heffects, hunstopped⟩
      exact ⟨more, heffects, hunstopped.elim (·.projections.2.2) (·.projections.2.2)⟩
  · intro _ middle hmiddle
    exact ⟨hmiddle.ledger, hmiddle.effects⟩

/-- A relation between the entries and the effects is kept when each call of the ledger
that succeeds keeps it; one that is left where a call has failed, when that call does. -/
theorem lawful_of_calls {holds fails : World → World → Prop} (refl : ∀ world, holds world world)
    (trans : ∀ {first second third}, holds first second → holds second third → holds first third)
    (weaken : ∀ {first second}, holds first second → fails first second)
    (fails_trans : ∀ {first second third}, holds first second → fails second third →
      fails first third)
    (silent : ∀ {world after}, Silent world after → holds world after)
    (calls : ∀ operation world, Ends (callLedger operation) world (fun _ after => holds world after)
      (fun _ after => fails world after)) :
    Lawful holds holds fails where
  refl := refl
  trans := trans
  weaken := weaken
  breaks_weaken := weaken
  fails_trans := fails_trans
  update := fun _ world => silent ⟨rfl, (Silent.refl world).effects⟩
  breaks_update := fun _ _ _ hbefore =>
    trans hbefore (silent ⟨rfl, (Silent.refl _).effects⟩)
  callLedger := calls
  breaks_callLedger := fun operation _ world hbefore =>
    (calls operation world).mono (fun _ _ hafter => trans hbefore hafter)
      fun _ _ hafter => fails_trans hbefore hafter
  transact := fun unavailable command expected world =>
    (transact_silent unavailable command expected world).mono
      (fun _ _ hsilent => ⟨fun _ => silent hsilent, silent hsilent⟩)
      fun _ _ hsilent => weaken (silent hsilent)
  stopChild := fun id nonce authority world =>
    (stopChild_silent id nonce authority world).mono
      (fun _ _ hsilent => ⟨fun _ => silent hsilent, silent hsilent⟩)
      fun _ _ hsilent => weaken (silent hsilent)

/-- What is silent keeps the books. -/
theorem books_of_silent {world after : World} (h : Silent world after) : Books world after := by
  refine ⟨[], [], ?_, .nil, fun entries hholds => ?_⟩
  · rw [h.moments, List.append_nil]
  · rwa [h.ledger, List.append_nil]

/-- A call of the ledger that returns is in the books, and one that raises is missing. -/
theorem callLedger_books (operation : LedgerOperation) (world : World) :
    Ends (callLedger operation) world (fun _ after => Books world after)
      (fun _ after => BooksAllButOne world after) := by
  rw [callLedger, ends_bind, ends_modify, ends_onPart]
  refine ends_iff.mpr ⟨fun _ after hok => ?_, fun _ after herror => ?_⟩
  · obtain ⟨entry, hentry, happended⟩ :=
      ((Ledger.perform_ends world.runtime.ledger operation).of_ok hok).1
    exact ⟨[⟨operation, world.runtime.body, world.runtime.activeLease⟩], [entry],
      momentsIn_append _ _, .cons ⟨_, hentry⟩ .nil, fun entries hholds => hholds.append happended⟩
  · obtain ⟨hcursor, hfile⟩ :=
      (Ledger.perform_kept world.runtime.ledger operation).of_error herror
    exact .inr ⟨world, Books.refl world, ⟨_, momentsIn_append _ _⟩, hcursor, hfile⟩

/-- To keep books is a law of the operations. -/
theorem lawful_books : Lawful Books Books BooksAllButOne :=
  lawful_of_calls Books.refl Books.trans .inl BooksAllButOne.trans books_of_silent callLedger_books

/-- The ledger has used one sequence number for each call in between, and has counted no
more events than that. -/
structure Numbered (world after : World) : Prop where
  seq : after.runtime.ledger.seq.toNat + (labelsIn world.effects).length =
    world.runtime.ledger.seq.toNat + (labelsIn after.effects).length
  events : world.runtime.ledger.eventEntries.toNat ≤ world.runtime.ledger.seq.toNat →
    after.runtime.ledger.eventEntries.toNat ≤ after.runtime.ledger.seq.toNat

/-- Numbers that rise with the labels at each of two steps do so over both. -/
theorem Numbered.trans {first second third : World} (h : Numbered first second)
    (hnext : Numbered second third) : Numbered first third where
  seq := by
    have hfirst := h.seq
    have hsecond := hnext.seq
    omega
  events := fun hevents => hnext.events (h.events hevents)

/-- What is silent takes no number. -/
theorem numbered_of_silent {world after : World} (h : Silent world after) :
    Numbered world after where
  seq := by rw [h.ledger, h.labels]
  events := by
    rw [h.ledger]
    exact id

/-- A call of the ledger that returns takes one number. -/
theorem callLedger_numbered (operation : LedgerOperation) (world : World) :
    Ends (callLedger operation) world (fun _ after => Numbered world after) (fun _ _ => True) := by
  rw [callLedger, ends_bind, ends_modify, ends_onPart]
  refine (Ledger.perform_ends world.runtime.ledger operation).mono ?_ fun _ _ _ => trivial
  rintro _ after ⟨⟨entry, hentry, happended⟩, _⟩
  have hcursor := happended.cursor
  simp only [Ledger.cursor, Cursor.advance, Cursor.mk.injEq] at hcursor
  obtain ⟨hseq, hevents, _, _⟩ := hcursor
  have hnumber := Ledger.nextEntry_seq hentry
  have hfits := entry.seq.toNat_lt_size
  rw [← UInt64.toNat_inj, toNat_saturatingSucc] at hseq
  have hcount : after.eventEntries.toNat ≤ world.runtime.ledger.eventEntries.toNat + 1 := by
    rw [hevents]
    split
    next =>
      rw [toNat_saturatingSucc]
      omega
    next => exact Nat.le_succ _
  refine ⟨?_, fun hbefore => ?_⟩
  · have hlabels : (labelsIn [Effect.recorded operation world.runtime.body
        world.runtime.activeLease]).length = 1 := rfl
    rw [labelsIn_append, List.length_append, hlabels]
    dsimp only
    omega
  · dsimp only
    omega

/-- To number entries is a law of the operations. -/
theorem lawful_numbered : Lawful Numbered Numbered fun _ _ => True :=
  lawful_of_calls (fun world => numbered_of_silent (Silent.refl world)) Numbered.trans
    (fun _ => trivial) (fun _ _ => trivial) numbered_of_silent callLedger_numbered

/-! ## Runs -/

/-- The file holds the entries that these effects write, and nothing is left to flush. -/
def Booked (effects : List Effect) (ledger : Ledger) : Prop :=
  ∃ entries, Ledger.Holds entries ledger ∧
    List.Forall₂ LedgerMoment.Wrote (momentsIn effects) entries

/-- The world in which a turn begins. -/
def turnWorld (runtime : Runtime) (occurrence : Occurrence) : World :=
  ⟨runtime.facing occurrence.surroundings.ledgerOutcomes, occurrence.surroundings, []⟩

/-- What holds at the end of a turn, by whether it returned `Ok`. -/
theorem ends_transition {runtime : Runtime} {occurrence : Occurrence}
    {done : Option Metrics → World → Prop} {failed : IoError → World → Prop}
    (hturn : Ends (turn occurrence.signal) (turnWorld runtime occurrence) done failed) :
    ∃ after : World, after.runtime = (runtimeMachine.transition runtime occurrence).after ∧
      after.effects = (runtimeMachine.transition runtime occurrence).output.effects ∧
      (∀ result, (runtimeMachine.transition runtime occurrence).output.result = .ok result →
        done result after) ∧
      ∀ error, (runtimeMachine.transition runtime occurrence).output.result = .error error →
        failed error after := by
  simp only [turnWorld, Machine.transition, runtimeMachine] at hturn ⊢
  unfold Ends at hturn
  split at hturn
  next value after hvalue =>
    rw [hvalue]
    exact ⟨after, rfl, rfl, fun _ hdone => Except.ok.inj hdone ▸ hturn,
      fun _ hfailed => by cases hfailed⟩
  next error after herror =>
    rw [herror]
    refine ⟨after, rfl, rfl, fun _ hdone => ?_, fun _ hfailed => Except.error.inj hfailed ▸ hturn⟩
    cases hdone

/-- What a turn keeps. -/
theorem lawful_transition {holds breaks fails : World → World → Prop}
    (hlawful : Lawful holds breaks fails) (runtime : Runtime) (occurrence : Occurrence) :
    ∃ after : World, after.runtime = (runtimeMachine.transition runtime occurrence).after ∧
      after.effects = (runtimeMachine.transition runtime occurrence).output.effects ∧
      (∀ result, (runtimeMachine.transition runtime occurrence).output.result = .ok result →
        holds (turnWorld runtime occurrence) after) ∧
      ∀ error, (runtimeMachine.transition runtime occurrence).output.result = .error error →
        fails (turnWorld runtime occurrence) after :=
  ends_transition (abides_turn hlawful occurrence.signal (turnWorld runtime occurrence))

/-- What the construction keeps, from an empty ledger on. -/
theorem lawful_new {holds breaks fails : World → World → Prop}
    (hlawful : Lawful holds breaks fails) {startup : Startup} {runtime : Runtime}
    {effects : List Effect}
    (hnew : new startup = .ok (runtime, effects)) :
    ∃ world after : World,
      world.runtime.ledger = Ledger.create.facing startup.surroundings.ledgerOutcomes ∧
      momentsIn world.effects = [] ∧ holds world after ∧ after.runtime = runtime ∧
      after.effects = effects := by
  unfold new at hnew
  simp only [bind_eq_ok] at hnew
  obtain ⟨reflex, _, _, _, processId, _, hlaunch⟩ := hnew
  unfold launch at hlaunch
  have hhello := Connection.expectHello_ends startup processId
  cases hexpect : Connection.expectHello startup processId ⟨spawnedChild processId, []⟩ with
  | error error connection => simp [hexpect] at hlaunch
  | ok _ connection =>
      obtain ⟨line, _, _, _, _, heffects⟩ := hhello.of_ok hexpect
      have hinstalls : Abides holds fails installLease := by
        refine abides_bind hlawful (abides_self hlawful) fun state => ?_
        refine abides_bind hlawful (abides_monotonicNs hlawful) fun nowNs => ?_
        refine abides_bind hlawful (abides_liftResult hlawful _) fun _ => ?_
        refine abides_bind hlawful (abides_update hlawful _) fun _ => ?_
        refine abides_bind hlawful (abides_self hlawful) fun _ => ?_
        exact abides_record hlawful _ _ _ _ _
      cases hinstall : installLease (initialWorld startup reflex connection) with
      | error error world => simp [hexpect, hinstall] at hlaunch
      | ok _ world =>
          simp only [hexpect, hinstall, Except.ok.injEq, Prod.mk.injEq] at hlaunch
          obtain ⟨rfl, rfl⟩ := hlaunch
          refine ⟨_, world, rfl, ?_, (hinstalls _).of_ok hinstall, rfl, rfl⟩
          rw [initialWorld, heffects]
          exact momentsIn_of_recordedIn (by simp)

/-- The entries that a turn adds. -/
theorem Booked.after {runtime : Runtime} {occurrence : Occurrence} {effects : List Effect}
    {after : World} (h : Booked effects runtime.ledger)
    (hbooks : Books (turnWorld runtime occurrence) after) :
    Booked (effects ++ after.effects) after.runtime.ledger := by
  obtain ⟨entries, hholds, hwrote⟩ := h
  obtain ⟨moments, written, hmoments, hwritten, hafter⟩ := hbooks
  refine ⟨entries ++ written, hafter entries (hholds.facing _), ?_⟩
  rw [momentsIn_append, hmoments]
  exact List.rel_append hwrote hwritten

/-- A turn that returned `Ok`. -/
theorem booked_transition {runtime : Runtime} {occurrence : Occurrence} {effects : List Effect}
    {result : Option Metrics}
    (hresult : (runtimeMachine.transition runtime occurrence).output.result = .ok result)
    (h : Booked effects runtime.ledger) :
    Booked (effects ++ (runtimeMachine.transition runtime occurrence).output.effects)
      (runtimeMachine.transition runtime occurrence).after.ledger := by
  obtain ⟨after, hruntime, heffects, hbooks, _⟩ :=
    lawful_transition lawful_books runtime occurrence
  rw [← hruntime, ← heffects]
  exact h.after (hbooks result hresult)

/-- The sequence numbers that a turn used when it returned `Ok`. -/
theorem numbered_transition {runtime : Runtime} {occurrence : Occurrence}
    {result : Option Metrics}
    (hresult : (runtimeMachine.transition runtime occurrence).output.result = .ok result) :
    (runtimeMachine.transition runtime occurrence).after.ledger.seq.toNat =
      runtime.ledger.seq.toNat +
        (labelsIn (runtimeMachine.transition runtime occurrence).output.effects).length ∧
    (runtime.ledger.eventEntries.toNat ≤ runtime.ledger.seq.toNat →
      (runtimeMachine.transition runtime occurrence).after.ledger.eventEntries.toNat ≤
        (runtimeMachine.transition runtime occurrence).after.ledger.seq.toNat) := by
  obtain ⟨after, hruntime, heffects, hnumbers, _⟩ :=
    lawful_transition lawful_numbered runtime occurrence
  have hnumbered := hnumbers result hresult
  rw [← hruntime, ← heffects]
  exact ⟨hnumbered.seq, hnumbered.events⟩

/-- A new runtime. -/
theorem booked_new {startup : Startup} {runtime : Runtime} {effects : List Effect}
    (hnew : new startup = .ok (runtime, effects)) : Booked effects runtime.ledger := by
  obtain ⟨world, after, hledger, hsilent, ⟨moments, written, hmoments, hwritten, hafter⟩, rfl,
    rfl⟩ := lawful_new lawful_books hnew
  refine ⟨written, hafter [] (hledger ▸ Ledger.holds_create.facing _), ?_⟩
  rwa [hmoments, hsilent, List.nil_append]

/-- A new runtime has not counted more events than numbers. -/
theorem numbered_new {startup : Startup} {runtime : Runtime} {effects : List Effect}
    (hnew : new startup = .ok (runtime, effects)) :
    runtime.ledger.eventEntries.toNat ≤ runtime.ledger.seq.toNat := by
  obtain ⟨world, after, hledger, _, hnumbered, rfl, _⟩ := lawful_new lawful_numbered hnew
  apply hnumbered.events
  rw [hledger]
  exact Nat.le_refl _

/-- Every turn before the last returned `Ok`. -/
theorem booked_past {runtime : Runtime} {effects : List Effect}
    (h : Booked effects runtime.ledger) {occurrences : List Occurrence}
    (hcontinues : ∀ turn ∈ runtimeMachine.trace runtime occurrences, turn.output.ends = false) :
    Booked (effects ++ effectsOf (runtimeMachine.trace runtime occurrences))
      (runtimeMachine.run runtime occurrences).ledger := by
  refine runtimeMachine.past_induction (motive := fun turns state =>
    Booked (effects ++ effectsOf turns) state.ledger) ?_ ?_ hcontinues
  · rwa [effectsOf_nil, List.append_nil]
  · intro turns state occurrence hturns hends
    rw [effectsOf_append, effectsOf_cons, effectsOf_nil, List.append_nil, ← List.append_assoc]
    exact booked_transition (result_of_continues hends) hturns

end Runtime

end Oasi
