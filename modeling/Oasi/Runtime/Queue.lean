import Oasi.Runtime.Laws
import Oasi.Runtime.Transactions

/-! # The response queue

The queue hands over the child's messages in the order of their delivery. An
accepted acknowledgement is the oldest message not yet taken, and it is accepted
after its request was written, whenever it was delivered.
-/

namespace Oasi

/-- From a queue of these messages: at every moment the accepted lines are the front
of all messages so far, and at most as many as the requests. -/
structure Taken (queue : List ReaderMessage) (effects : List Effect) : Prop where
  oldest : ∀ moment, moment <+: effects →
    (acceptedIn moment).map .line <+: queue ++ deliveredIn moment
  requested : ∀ moment, moment <+: effects →
    (acceptedIn moment).length ≤ (sentIn moment).length

/-- Every request was answered, and these messages are left in the queue. -/
structure Settled (queue : List ReaderMessage) (effects : List Effect)
    (rest : List ReaderMessage) : Prop extends Taken queue effects where
  left : queue ++ deliveredIn effects = (acceptedIn effects).map .line ++ rest
  answered : (acceptedIn effects).length = (sentIn effects).length

section Queues

variable {queue middle rest : List ReaderMessage} {first second effects : List Effect}

/-- A moment of two phases is a moment of the first or lies in the second. -/
theorem moment_cases {moment : List Effect} (h : moment <+: first ++ second) :
    moment <+: first ∨ ∃ more, more <+: second ∧ moment = first ++ more := by
  obtain ⟨tail, htail⟩ := h
  rcases List.append_eq_append_iff.mp htail with ⟨more, hfirst, _⟩ | ⟨more, hmoment, hsecond⟩
  · exact .inl ⟨more, hfirst.symm⟩
  · exact .inr ⟨more, ⟨tail, hsecond.symm⟩, hmoment⟩

/-- What begins effects without an acceptance has none. -/
theorem acceptedIn_moment {moment : List Effect} (h : moment <+: effects)
    (hnone : acceptedIn effects = []) : acceptedIn moment = [] := by
  have hfront : acceptedIn moment <+: acceptedIn effects := h.filterMap _
  rwa [hnone, List.prefix_nil] at hfront

/-- Effects without an acceptance take nothing off the queue. -/
theorem taken_of_unaccepted (hnone : acceptedIn effects = []) : Taken queue effects where
  oldest := fun moment hmoment => by
    rw [acceptedIn_moment hmoment hnone]
    exact List.nil_prefix
  requested := fun moment hmoment => by
    rw [acceptedIn_moment hmoment hnone]
    exact Nat.zero_le _

/-- Effects without a line settle on the queue with what they deliver. -/
theorem settled_of_silent (haccepted : acceptedIn effects = []) (hsent : sentIn effects = []) :
    Settled queue effects (queue ++ deliveredIn effects) where
  toTaken := taken_of_unaccepted haccepted
  left := by rw [haccepted, List.map_nil, List.nil_append]
  answered := by rw [haccepted, hsent]

/-- Nothing passes the queue. -/
theorem settled_of_still (haccepted : acceptedIn effects = []) (hsent : sentIn effects = [])
    (hdelivered : deliveredIn effects = []) : Settled queue effects queue := by
  have hsettled := @settled_of_silent queue effects haccepted hsent
  rwa [hdelivered, List.append_nil] at hsettled

/-- What was taken stays taken while nothing is accepted. -/
theorem Taken.append_unaccepted (h : Taken queue first) (hnone : acceptedIn second = []) :
    Taken queue (first ++ second) where
  oldest := by
    intro moment hmoment
    rcases moment_cases hmoment with hmoment | ⟨more, hmore, rfl⟩
    · exact h.oldest moment hmoment
    · rw [acceptedIn_append, acceptedIn_moment hmore hnone, List.append_nil, deliveredIn_append,
        ← List.append_assoc]
      exact (h.oldest first List.prefix_rfl).trans (List.prefix_append _ _)
  requested := by
    intro moment hmoment
    rcases moment_cases hmoment with hmoment | ⟨more, hmore, rfl⟩
    · exact h.requested moment hmoment
    · rw [acceptedIn_append, acceptedIn_moment hmore hnone, List.append_nil, sentIn_append,
        List.length_append]
      exact Nat.le_trans (h.requested first List.prefix_rfl) (Nat.le_add_right _ _)

/-- What is taken after settled effects is taken of them all. -/
theorem Settled.append_taken (h : Settled queue first middle) (hsecond : Taken middle second) :
    Taken queue (first ++ second) where
  oldest := by
    intro moment hmoment
    rcases moment_cases hmoment with hmoment | ⟨more, hmore, rfl⟩
    · exact h.oldest moment hmoment
    · rw [acceptedIn_append, List.map_append, deliveredIn_append, ← List.append_assoc, h.left,
        List.append_assoc]
      exact (List.prefix_append_right_inj _).mpr (hsecond.oldest more hmore)
  requested := by
    intro moment hmoment
    rcases moment_cases hmoment with hmoment | ⟨more, hmore, rfl⟩
    · exact h.requested moment hmoment
    · rw [acceptedIn_append, sentIn_append, List.length_append, List.length_append, h.answered]
      exact Nat.add_le_add_left (hsecond.requested more hmore) _

/-- Settled effects may be joined. -/
theorem Settled.append (h : Settled queue first middle) (hsecond : Settled middle second rest) :
    Settled queue (first ++ second) rest where
  toTaken := h.append_taken hsecond.toTaken
  left := by
    rw [deliveredIn_append, ← List.append_assoc, h.left, List.append_assoc, hsecond.left,
      acceptedIn_append, List.map_append, List.append_assoc]
  answered := by
    rw [acceptedIn_append, sentIn_append, List.length_append, List.length_append, h.answered,
      hsecond.answered]

/-- A transaction takes one message. -/
theorem settled_transaction {command line : String} {early late : List ReaderMessage}
    (hqueue : queue ++ early ++ late = .line line :: rest) :
    Settled queue (deliveries early ++ .sent command :: deliveries late ++ [.accepted line])
      rest := by
  have hwritten : Taken queue (deliveries early ++ .sent command :: deliveries late) :=
    taken_of_unaccepted (by simp)
  refine ⟨⟨fun moment hmoment => ?_, fun moment hmoment => ?_⟩, ?_, by simp⟩
  · rcases List.prefix_concat_iff.mp hmoment with rfl | hmoment
    · simp only [acceptedIn_append, acceptedIn_deliveries, acceptedIn_cons, deliveredIn_append,
        deliveredIn_deliveries, deliveredIn_cons, Effect.accepted?, Effect.delivered?,
        Option.toList_none, Option.toList_some, List.nil_append, List.append_nil, acceptedIn_nil,
        deliveredIn_nil, List.map_singleton, ← List.append_assoc, hqueue]
      exact ⟨rest, rfl⟩
    · exact hwritten.oldest moment hmoment
  · rcases List.prefix_concat_iff.mp hmoment with rfl | hmoment
    · simp
    · exact hwritten.requested moment hmoment
  · simpa [← List.append_assoc] using hqueue

end Queues

namespace Runtime

/-- The messages not yet taken. Of a child that was stopped only the end of its
output is left. -/
def awaiting (runtime : Runtime) : List ReaderMessage :=
  match runtime.child with
  | some child => child.responses
  | none => [.eof]

/-- A runtime with a child awaits its responses. -/
theorem awaiting_of_child {runtime : Runtime} {child : ChildProcess}
    (h : runtime.child = some child) : runtime.awaiting = child.responses := by
  rw [awaiting, h]

/-- A runtime without a child awaits the end only. -/
theorem awaiting_of_stopped {runtime : Runtime} (h : runtime.child = none) :
    runtime.awaiting = [.eof] := by
  rw [awaiting, h]

/-- What a device call that succeeded takes from the queue. -/
def Settles (before after : World) : Prop :=
  ∃ more, after.effects = before.effects ++ more ∧
    Settled before.runtime.awaiting more after.runtime.awaiting

/-- What any device call takes from it. -/
def Takes (before after : World) : Prop :=
  ∃ more, after.effects = before.effects ++ more ∧ Taken before.runtime.awaiting more

/-- Nothing to do settles. -/
theorem Settles.refl (world : World) : Settles world world :=
  ⟨[], (List.append_nil _).symm, settled_of_still rfl rfl rfl⟩

/-- What settles may be followed by what settles. -/
theorem Settles.trans {first second third : World} (h : Settles first second)
    (hsecond : Settles second third) : Settles first third := by
  obtain ⟨more, hmore, hsettled⟩ := h
  obtain ⟨rest, hrest, hthird⟩ := hsecond
  exact ⟨more ++ rest, by rw [hrest, hmore, List.append_assoc], hsettled.append hthird⟩

/-- What settles takes. -/
theorem Settles.takes {before after : World} (h : Settles before after) : Takes before after := by
  obtain ⟨more, hmore, hsettled⟩ := h
  exact ⟨more, hmore, hsettled.toTaken⟩

/-- What settles may be followed by what takes. -/
theorem Settles.trans_takes {first second third : World} (h : Settles first second)
    (hsecond : Takes second third) : Takes first third := by
  obtain ⟨more, hmore, hsettled⟩ := h
  obtain ⟨rest, hrest, htaken⟩ := hsecond
  exact ⟨more ++ rest, by rw [hrest, hmore, List.append_assoc], hsettled.append_taken htaken⟩

/-- A call of the ledger settles. -/
theorem settles_called (world : World) (operation : LedgerOperation) (ledger : Ledger) :
    Settles world (world.called operation ledger) :=
  ⟨[world.runtime.calls operation], rfl, settled_of_still rfl rfl rfl⟩

/-- A call of the ledger may follow what takes. -/
theorem Takes.called {first world : World} (h : Takes first world) (operation : LedgerOperation)
    (ledger : Ledger) : Takes first (world.called operation ledger) := by
  obtain ⟨more, hmore, htaken⟩ := h
  refine ⟨more ++ [world.runtime.calls operation], ?_, htaken.append_unaccepted rfl⟩
  rw [World.called, hmore, List.append_assoc]

/-- An exchange settles when it is answered, and takes in any case. -/
theorem transact_settles (unavailable command : String) (expected : BoundExpectedAck)
    (world : World) :
    Ends (transact unavailable command expected) world
      (fun result after => (result = .ok () → Settles world after) ∧ Takes world after)
      (fun _ after => Takes world after) := by
  simp only [transact, ends_bind, ends_get, ends_orThrow, onChild, ends_onPart, ends_attempt]
  refine ⟨fun child hchild => ?_, fun _ => (Settles.refl world).takes⟩
  have hawaiting := awaiting_of_child hchild
  refine (Connection.transactBound_ends _ command expected ⟨child, world.effects⟩).mono ?_ ?_
  · rintro _ after ⟨line, rest, _, heffects, hqueue, hafter⟩
    have hsettles : Settles world
        { world with
          runtime := { world.runtime with child := some after.child }
          effects := after.effects } := by
      refine ⟨_, heffects, ?_⟩
      rw [hawaiting, awaiting, hafter]
      exact settled_transaction hqueue
    exact ⟨fun _ => hsettles, hsettles.takes⟩
  · rintro error after ⟨more, heffects, hmore⟩
    exact ⟨fun hok => absurd hok (by simp), more, heffects,
      taken_of_unaccepted hmore.projections.2.1⟩

/-- Stopping the child takes everything there is. -/
theorem stopBound_settles (exchange : Exchange) (exit : ExitWait) (id nonce : UInt64)
    (authority : AuthoritySnapshot) (connection : Connection) :
    Ends (Connection.stopBound exchange exit id nonce authority) connection
      (fun _ after => ∃ more, after.effects = connection.effects ++ more ∧
        Settled connection.child.responses more [.eof])
      (fun _ after => ∃ more, after.effects = connection.effects ++ more ∧
        Taken connection.child.responses more) := by
  rw [Connection.stopBound, ends_bind]
  refine (Connection.transactBound_ends exchange _ _ connection).mono ?_ ?_
  · rintro _ middle ⟨line, rest, _, hmiddle, hqueue, hchild⟩
    have hsettled := @settled_transaction connection.child.responses rest
      (boundStopRequest id nonce authority) line _ _ hqueue
    refine (Connection.waitForCleanExit_ends exit middle).mono ?_ ?_
    · rintro _ after ⟨hafter, hexit⟩
      rw [hchild] at hexit
      refine ⟨_, by rw [hafter, hmiddle, List.append_assoc], hsettled.append ?_⟩
      have hremaining := @settled_of_silent rest (deliveries exit.remaining) (by simp) (by simp)
      rwa [deliveredIn_deliveries, hexit] at hremaining
    · rintro _ after ⟨more, hafter, hmore⟩
      obtain ⟨messages, rfl⟩ := Connection.eq_deliveries hmore
      refine ⟨_, by rw [hafter, hmiddle, List.append_assoc], ?_⟩
      exact hsettled.toTaken.append_unaccepted (acceptedIn_deliveries messages)
  · rintro _ after ⟨more, hafter, hmore⟩
    exact ⟨more, hafter, taken_of_unaccepted hmore.projections.2.1⟩

/-- Stopping the child settles when it is answered, and takes in any case. -/
theorem stopChild_settles (id nonce : UInt64) (authority : AuthoritySnapshot) (world : World) :
    Ends (stopChild id nonce authority) world
      (fun result after => (result = .ok () → Settles world after) ∧ Takes world after)
      (fun _ after => Takes world after) := by
  simp only [stopChild, ends_bind, ends_get, ends_orThrow, onChild, ends_onPart, ends_attempt,
    ends_modify, ends_pure]
  refine ⟨fun child hchild => ?_, fun _ => (Settles.refl world).takes⟩
  have hawaiting := awaiting_of_child hchild
  refine (stopBound_settles _ _ id nonce authority ⟨child, world.effects⟩).mono ?_ ?_
  · rintro _ after ⟨more, heffects, hsettled⟩
    rw [← hawaiting] at hsettled
    exact ⟨fun _ => ⟨more, heffects, hsettled⟩, more, heffects, hsettled.toTaken⟩
  · rintro error after ⟨more, heffects, htaken⟩
    rw [← hawaiting] at htaken
    exact ⟨fun hok => absurd hok (by simp), more, heffects, htaken⟩

/-- Settling and taking are lawful. -/
theorem lawful_settles : Lawful Settles Takes Takes where
  refl := Settles.refl
  trans := Settles.trans
  weaken := Settles.takes
  breaks_weaken := id
  fails_trans := Settles.trans_takes
  update := fun _ world => Settles.refl world
  breaks_update := fun _ _ _ h => h
  callLedger := by
    intro operation world
    refine (callLedger_ends operation world).mono ?_ ?_
    · rintro _ _ ⟨ledger, rfl⟩
      exact settles_called world operation ledger
    · rintro _ _ ⟨ledger, rfl⟩
      exact (settles_called world operation ledger).takes
  breaks_callLedger := by
    intro operation first world hbreaks
    refine (callLedger_ends operation world).mono ?_ ?_
    · rintro _ _ ⟨ledger, rfl⟩
      exact hbreaks.called operation ledger
    · rintro _ _ ⟨ledger, rfl⟩
      exact hbreaks.called operation ledger
  transact := transact_settles
  stopChild := stopChild_settles

/-! ## Turns and runs -/

/-- What a turn takes from the queue. -/
theorem taken_transition (runtime : Runtime) (occurrence : Occurrence) :
    Taken runtime.awaiting (runtimeMachine.transition runtime occurrence).output.effects ∧
      ((∃ result, (runtimeMachine.transition runtime occurrence).output.result = .ok result) →
        Settled runtime.awaiting (runtimeMachine.transition runtime occurrence).output.effects
          (runtimeMachine.transition runtime occurrence).after.awaiting) := by
  have hturn := abides_turn lawful_settles occurrence.signal
    ⟨runtime.facing occurrence.surroundings.ledgerOutcomes, occurrence.surroundings, []⟩
  simp only [Machine.transition, runtimeMachine]
  unfold Ends at hturn
  split at hturn
  next result after hresult =>
    obtain ⟨more, hmore, hsettled⟩ := hturn
    rw [hresult]
    rw [List.nil_append] at hmore
    subst hmore
    exact ⟨hsettled.toTaken, fun _ => hsettled⟩
  next error after hresult =>
    obtain ⟨more, hmore, htaken⟩ := hturn
    rw [hresult]
    rw [List.nil_append] at hmore
    subst hmore
    refine ⟨htaken, ?_⟩
    rintro ⟨_, herror⟩
    cases herror

/-- A trace that goes on to its end settles on what its runtime awaits. -/
theorem settled_trace {runtime : Runtime} {occurrences : List Occurrence}
    (hcontinues : ∀ turn ∈ runtimeMachine.trace runtime occurrences, turn.output.ends = false) :
    Settled runtime.awaiting (effectsOf (runtimeMachine.trace runtime occurrences))
      (runtimeMachine.run runtime occurrences).awaiting := by
  refine runtimeMachine.past_induction
    (motive := fun turns state => Settled runtime.awaiting (effectsOf turns) state.awaiting)
    (settled_of_still rfl rfl rfl) ?_ hcontinues
  intro turns state occurrence hturns hends
  rw [effectsOf_append, effectsOf_cons, effectsOf_nil, List.append_nil]
  exact hturns.append ((taken_transition state occurrence).2 ⟨none, result_of_continues hends⟩)

/-- What a run takes from the queue. -/
theorem taken_history (runtime : Runtime) (occurrences : List Occurrence) :
    Taken runtime.awaiting (effectsOf (runtime.history occurrences)) := by
  obtain ⟨used, hcontinues, hhistory | ⟨last, _, hhistory⟩⟩ :=
    runtimeMachine.session_cases TurnReport.ends runtime occurrences
  · rw [history, hhistory]
    exact (settled_trace hcontinues).toTaken
  · rw [history, hhistory, effectsOf_append, effectsOf_cons, effectsOf_nil, List.append_nil]
    exact (settled_trace hcontinues).append_taken (taken_transition _ last).1

end Runtime

end Oasi
