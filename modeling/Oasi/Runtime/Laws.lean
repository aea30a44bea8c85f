import Oasi.Runtime.Turns

/-! # Laws of the devices

A relation between the worlds before and after a device call extends to whole
operations when it composes and the fields do not matter to it. Where a
transaction is not answered and where an operation fails, weaker relations are all
that is left.
-/

namespace Oasi

/-- The world with other fields. -/
def World.updated (world : World) (change : RuntimeState → RuntimeState) : World :=
  { world with runtime :=
    { world.runtime with toRuntimeState := change world.runtime.toRuntimeState } }

namespace Runtime

variable {α β : Type}

/-- A relation that every successful device call establishes, one that is left when a
transaction was not answered, and one that is left when an operation has failed. -/
structure Lawful (holds breaks fails : World → World → Prop) : Prop where
  refl : ∀ world, holds world world
  trans : ∀ {first second third}, holds first second → holds second third → holds first third
  weaken : ∀ {first second}, holds first second → fails first second
  breaks_weaken : ∀ {first second}, breaks first second → fails first second
  fails_trans : ∀ {first second third}, holds first second → fails second third →
    fails first third
  update : ∀ change world, holds world (world.updated change)
  breaks_update : ∀ change {first world}, breaks first world →
    breaks first (world.updated change)
  callLedger : ∀ operation world, Ends (callLedger operation) world
    (fun _ after => holds world after) (fun _ after => fails world after)
  breaks_callLedger : ∀ operation {first world}, breaks first world →
    Ends (Runtime.callLedger operation) world (fun _ after => breaks first after)
      (fun _ after => fails first after)
  transact : ∀ unavailable command expected world,
    Ends (transact unavailable command expected) world
      (fun result after => (result = .ok () → holds world after) ∧ breaks world after)
      (fun _ after => fails world after)
  stopChild : ∀ id nonce authority world,
    Ends (stopChild id nonce authority) world
      (fun result after => (result = .ok () → holds world after) ∧ breaks world after)
      (fun _ after => fails world after)

/-- The operation keeps to the laws. -/
def Abides (holds fails : World → World → Prop) (operation : Operation α) : Prop :=
  ∀ world, Ends operation world (fun _ after => holds world after)
    (fun _ after => fails world after)

/-- The operation fails, from where a transaction was not answered. -/
def Breaks (breaks fails : World → World → Prop) (operation : Operation α) : Prop :=
  ∀ first world, breaks first world →
    Ends operation world (fun _ _ => False) (fun _ after => fails first after)

section Rules

variable {holds breaks fails : World → World → Prop}

/-- A value abides by every law. -/
theorem abides_pure (hlawful : Lawful holds breaks fails) (value : α) :
    Abides holds fails (pure value : Operation α) := fun world => hlawful.refl world

/-- An error abides by every law. -/
theorem abides_throw (hlawful : Lawful holds breaks fails) (error : IoError) :
    Abides holds fails (throw error : Operation α) := fun world =>
  hlawful.weaken (hlawful.refl world)

/-- A sequence abides by a law when both of its parts do. -/
theorem abides_bind (hlawful : Lawful holds breaks fails) {first : Operation β}
    {second : β → Operation α} (hfirst : Abides holds fails first)
    (hsecond : ∀ value, Abides holds fails (second value)) :
    Abides holds fails (first >>= second) := by
  intro world
  rw [ends_bind]
  refine (hfirst world).imp fun value middle hmiddle => ?_
  exact (hsecond value middle).mono (fun _ _ hafter => hlawful.trans hmiddle hafter)
    fun _ _ hafter => hlawful.fails_trans hmiddle hafter

/-- To read the state breaks no law. -/
theorem abides_self (hlawful : Lawful holds breaks fails) : Abides holds fails self := fun world =>
  hlawful.refl world

/-- To read the clock breaks no law. -/
theorem abides_monotonicNs (hlawful : Lawful holds breaks fails) : Abides holds fails monotonicNs :=
  fun world => hlawful.refl world

/-- A change of the state abides by the law that allows it. -/
theorem abides_update (hlawful : Lawful holds breaks fails) (change : RuntimeState → RuntimeState) :
    Abides holds fails (update change) := fun world => hlawful.update change world

/-- A result abides by every law. -/
theorem abides_liftResult (hlawful : Lawful holds breaks fails) (result : Except IoError α) :
    Abides holds fails (liftResult result) := by
  cases result with
  | ok value => exact abides_pure hlawful value
  | error error => exact abides_throw hlawful error

/-- A value or an error abides by every law. -/
theorem abides_orThrow (hlawful : Lawful holds breaks fails) (value : Option α) (error : IoError) :
    Abides holds fails (orThrow value error) := by
  cases value with
  | some found => exact abides_pure hlawful found
  | none => exact abides_throw hlawful error

/-- To take a nonce abides by the law. -/
theorem abides_nextTransactionNonce (hlawful : Lawful holds breaks fails) :
    Abides holds fails nextTransactionNonce :=
  abides_bind hlawful (abides_self hlawful) fun _ =>
    abides_bind hlawful (abides_liftResult hlawful _) fun _ =>
      abides_bind hlawful (abides_update hlawful _) fun _ => abides_pure hlawful _

/-- A record abides by the law of the ledger. -/
theorem abides_record (hlawful : Lawful holds breaks fails) (event detail : String)
    (decision : Decision) (body : BodyState) (lease : Option SafetyLease) :
    Abides holds fails (record event detail decision body lease) :=
  hlawful.callLedger _

/-- An error keeps what was broken broken. -/
theorem breaks_throw (hlawful : Lawful holds breaks fails) (error : IoError) :
    Breaks breaks fails (throw error : Operation α) := fun _ _ hbreaks =>
  hlawful.breaks_weaken hbreaks

/-- What is broken stays so when the state is read. -/
theorem breaks_self {second : RuntimeState → Operation α}
    (hsecond : ∀ state, Breaks breaks fails (second state)) :
    Breaks breaks fails (self >>= second) := by
  intro first world hbreaks
  simp only [self, ends_bind, ends_get, ends_pure]
  exact hsecond _ first world hbreaks

/-- What is broken stays so when the state is changed. -/
theorem breaks_update (hlawful : Lawful holds breaks fails) {change : RuntimeState → RuntimeState}
    {second : PUnit → Operation α} (hsecond : Breaks breaks fails (second ⟨⟩)) :
    Breaks breaks fails (update change >>= second) := by
  intro first world hbreaks
  rw [ends_bind]
  exact hsecond first _ (hlawful.breaks_update change hbreaks)

/-- What is broken stays so when something is recorded. -/
theorem breaks_record (hlawful : Lawful holds breaks fails) {event detail : String}
    {decision : Decision} {body : BodyState} {lease : Option SafetyLease}
    {second : Unit → Operation α} (hsecond : Breaks breaks fails (second ())) :
    Breaks breaks fails (record event detail decision body lease >>= second) := by
  intro first world hbreaks
  rw [ends_bind]
  exact (hlawful.breaks_callLedger _ hbreaks).imp fun _ _ hafter => hsecond first _ hafter

/-- A transaction followed by what its answer calls for; without one that fails. -/
theorem abides_answered (hlawful : Lawful holds breaks fails)
    {transaction : Operation (Except IoError Unit)} {second : Except IoError Unit → Operation α}
    (htransaction : ∀ world, Ends transaction world
      (fun result after => (result = .ok () → holds world after) ∧ breaks world after)
      (fun _ after => fails world after))
    (hanswered : Abides holds fails (second (.ok ())))
    (hunanswered : ∀ error, Breaks breaks fails (second (.error error))) :
    Abides holds fails (transaction >>= second) := by
  intro world
  rw [ends_bind]
  refine (htransaction world).imp ?_
  rintro result middle ⟨hholds, hbreaks⟩
  cases result with
  | ok _ =>
      exact (hanswered middle).mono (fun _ _ hafter => hlawful.trans (hholds rfl) hafter)
        fun _ _ hafter => hlawful.fails_trans (hholds rfl) hafter
  | error error =>
      exact (hunanswered error world middle hbreaks).mono (fun _ _ hfalse => hfalse.elim)
        fun _ _ hafter => hafter

/-- Where nothing is rejected the rest decides. -/
theorem abides_orReject_ok (hlawful : Lawful holds breaks fails) {second : Unit → Operation α}
    (hsecond : Abides holds fails (second ())) :
    Abides holds fails (orReject (.ok ()) >>= second) :=
  abides_bind hlawful (abides_pure hlawful ()) fun _ => hsecond

/-- A rejection leaves the rest undone. -/
theorem breaks_orReject_error (hlawful : Lawful holds breaks fails) (error : IoError)
    (second : Unit → Operation α) : Breaks breaks fails (orReject (.error error) >>= second) := by
  have hrejects : Breaks breaks fails (orReject (.error error)) := by
    refine fun first world hbreaks => ?_
    simp only [orReject, recordProtocolRejection, bind_assoc]
    refine breaks_update hlawful (breaks_self fun _ => ?_) first world hbreaks
    exact breaks_record hlawful (breaks_throw hlawful error)
  intro first world hbreaks
  rw [ends_bind]
  exact (hrejects first world hbreaks).imp fun _ _ hfalse => hfalse.elim

end Rules

/-! ## Operations -/

section Operations

variable {holds breaks fails : World → World → Prop}

/-- A begin abides by every law. -/
theorem abides_begin (hlawful : Lawful holds breaks fails) : Abides holds fails begin := by
  refine abides_bind hlawful (abides_self hlawful) fun state => ?_
  cases hpending : state.authorityTransaction.pending with
  | true =>
      rw [AuthorityTransaction.begin_of_pending hpending]
      exact abides_throw hlawful _
  | false =>
      rw [AuthorityTransaction.begin_of_idle hpending]
      exact abides_bind hlawful (abides_update hlawful _) fun _ => abides_record hlawful _ _ _ _ _

/-- A quarantine abides by every law. -/
theorem abides_quarantine (hlawful : Lawful holds breaks fails) (reason : String) :
    Abides holds fails (quarantine reason) := by
  refine abides_bind hlawful (abides_update hlawful _) fun _ => ?_
  refine abides_bind hlawful (abides_self hlawful) fun _ => ?_
  refine abides_bind hlawful (abides_orThrow hlawful _ _) fun _ => ?_
  refine abides_bind hlawful (abides_update hlawful _) fun _ => ?_
  refine abides_bind hlawful (abides_self hlawful) fun _ => ?_
  refine abides_bind hlawful (abides_record hlawful _ _ _ _ _) fun _ => ?_
  refine abides_bind hlawful (abides_self hlawful) fun _ => ?_
  refine abides_bind hlawful (abides_nextTransactionNonce hlawful) fun _ => ?_
  refine abides_bind hlawful (abides_self hlawful) fun _ => ?_
  refine abides_answered hlawful (hlawful.transact _ _ _) ?_ fun error => ?_
  · refine abides_bind hlawful (abides_update hlawful _) fun _ => ?_
    exact abides_bind hlawful (abides_self hlawful) fun _ => abides_record hlawful _ _ _ _ _
  · refine breaks_update hlawful (breaks_self fun _ => ?_)
    exact breaks_record hlawful (breaks_throw hlawful error)

/-- A commit that is allowed abides by every law. -/
theorem abides_commitAllowed (hlawful : Lawful holds breaks fails) (decision : Decision) :
    Abides holds fails (commitAllowed decision) := by
  refine abides_bind hlawful (abides_self hlawful) fun state => ?_
  refine abides_bind hlawful (abides_liftResult hlawful _) fun _ => ?_
  refine abides_bind hlawful (abides_orThrow hlawful _ _) fun _ => ?_
  refine abides_bind hlawful (abides_orThrow hlawful _ _) fun _ => ?_
  refine abides_bind hlawful (abides_nextTransactionNonce hlawful) fun _ => ?_
  refine abides_bind hlawful (abides_self hlawful) fun _ => ?_
  refine abides_answered hlawful (hlawful.transact _ _ _) ?_ fun error =>
    breaks_orReject_error hlawful error _
  refine abides_orReject_ok hlawful ?_
  refine abides_bind hlawful (abides_self hlawful) fun _ => ?_
  refine abides_bind hlawful (abides_orThrow hlawful _ _) fun _ => ?_
  refine abides_bind hlawful (abides_update hlawful _) fun _ => ?_
  refine abides_bind hlawful (abides_self hlawful) fun _ => ?_
  refine abides_bind hlawful (abides_record hlawful _ _ _ _ _) fun _ => ?_
  exact abides_record hlawful _ _ _ _ _

/-- A commit that is blocked abides by every law. -/
theorem abides_commitBlocked (hlawful : Lawful holds breaks fails) (decision : Decision) :
    Abides holds fails (commitBlocked decision) := by
  refine abides_bind hlawful (abides_update hlawful _) fun _ => ?_
  exact abides_bind hlawful (abides_self hlawful) fun _ => abides_record hlawful _ _ _ _ _

/-- A commit abides by every law. -/
theorem abides_commit (hlawful : Lawful holds breaks fails) : Abides holds fails commit := by
  refine abides_bind hlawful (abides_self hlawful) fun state => ?_
  refine abides_bind hlawful (abides_monotonicNs hlawful) fun nowNs => ?_
  refine abides_bind hlawful (abides_update hlawful _) fun _ => ?_
  show Abides holds fails (if state.commitDecision nowNs = .allow
    then commitAllowed (state.commitDecision nowNs)
    else commitBlocked (state.commitDecision nowNs))
  by_cases hallowed : state.commitDecision nowNs = .allow
  · rw [if_pos hallowed]
    exact abides_commitAllowed hlawful _
  · rw [if_neg hallowed]
    exact abides_commitBlocked hlawful _

/-- A reset abides by every law. -/
theorem abides_reset (hlawful : Lawful holds breaks fails) : Abides holds fails reset := by
  refine abides_bind hlawful (abides_self hlawful) fun _ => ?_
  refine abides_bind hlawful (abides_orThrow hlawful _ _) fun _ => ?_
  refine abides_bind hlawful (abides_update hlawful _) fun _ => ?_
  refine abides_bind hlawful (abides_self hlawful) fun _ => ?_
  refine abides_bind hlawful (abides_orThrow hlawful _ _) fun _ => ?_
  exact abides_bind hlawful (abides_update hlawful _) fun _ => abides_quarantine hlawful _

/-- A probe abides by every law. -/
theorem abides_functionalFreshnessProbe (hlawful : Lawful holds breaks fails) :
    Abides holds fails functionalFreshnessProbe := by
  refine abides_bind hlawful (abides_update hlawful _) fun _ => ?_
  refine abides_bind hlawful (abides_self hlawful) fun state => ?_
  by_cases hrefused : state.body.quarantined = false ∨ state.rollbackConfirmed = false
  · rw [if_pos hrefused]
    exact abides_record hlawful _ _ _ _ _
  · rw [if_neg hrefused]
    refine abides_bind hlawful (abides_self hlawful) fun _ => ?_
    refine abides_bind hlawful (abides_orThrow hlawful _ _) fun _ => ?_
    refine abides_bind hlawful (abides_self hlawful) fun _ => ?_
    refine abides_bind hlawful (abides_orThrow hlawful _ _) fun _ => ?_
    refine abides_bind hlawful (abides_nextTransactionNonce hlawful) fun _ => ?_
    refine abides_bind hlawful (abides_self hlawful) fun _ => ?_
    refine abides_bind hlawful (abides_self hlawful) fun _ => ?_
    refine abides_bind hlawful (abides_record hlawful _ _ _ _ _) fun _ => ?_
    refine abides_answered hlawful (hlawful.transact _ _ _) ?_ fun error =>
      breaks_orReject_error hlawful error _
    refine abides_orReject_ok hlawful ?_
    refine abides_bind hlawful (abides_self hlawful) fun _ => ?_
    refine abides_bind hlawful (abides_monotonicNs hlawful) fun _ => ?_
    refine abides_bind hlawful (abides_liftResult hlawful _) fun _ => ?_
    refine abides_bind hlawful (abides_update hlawful _) fun _ => ?_
    refine abides_bind hlawful (abides_update hlawful _) fun _ => ?_
    refine abides_bind hlawful (abides_self hlawful) fun _ => ?_
    exact abides_bind hlawful (abides_record hlawful _ _ _ _ _) fun _ =>
      abides_record hlawful _ _ _ _ _

/-- What `run` does once the child has been stopped. -/
theorem abides_concluded (hlawful : Lawful holds breaks fails) :
    Abides holds fails (do
      update RuntimeState.assessed
      let state ← self
      record "FINAL" "runtime complete with strict versioned child protocol"
        (if state.metrics.damage = 0 then .allow else .blockAction) state.body state.activeLease
      callLedger (.seal state.body state.activeLease)
      return state.metrics) := by
  refine abides_bind hlawful (abides_update hlawful _) fun _ => ?_
  refine abides_bind hlawful (abides_self hlawful) fun _ => ?_
  refine abides_bind hlawful (abides_record hlawful _ _ _ _ _) fun _ => ?_
  exact abides_bind hlawful (hlawful.callLedger _) fun _ => abides_pure hlawful _

/-- The end abides by every law. -/
theorem abides_conclude (hlawful : Lawful holds breaks fails) : Abides holds fails conclude := by
  refine abides_bind hlawful (abides_self hlawful) fun _ => ?_
  refine abides_bind hlawful (abides_nextTransactionNonce hlawful) fun _ => ?_
  refine abides_bind hlawful (abides_self hlawful) fun _ => ?_
  refine abides_answered hlawful (hlawful.stopChild _ _ _) ?_ fun error =>
    breaks_orReject_error hlawful error _
  exact abides_orReject_ok hlawful (abides_concluded hlawful)

/-- Every turn keeps to the laws of the devices. -/
theorem abides_turn (hlawful : Lawful holds breaks fails) (signal : Signal) :
    Abides holds fails (turn signal) := by
  have hcontinues : ∀ {operation : Operation Unit}, Abides holds fails operation →
      Abides holds fails (operation >>= fun _ => pure (none : Option Metrics)) :=
    fun hoperation => abides_bind hlawful hoperation fun _ => abides_pure hlawful _
  have hconcludes : Abides holds fails (conclude >>= fun metrics => pure (some metrics)) :=
    abides_bind hlawful (abides_conclude hlawful) fun _ => abides_pure hlawful _
  cases signal with
  | disconnected => exact hconcludes
  | timeout => exact hcontinues (abides_quarantine hlawful _)
  | event event =>
      cases event with
      | begin => exact hcontinues (abides_begin hlawful)
      | commit => exact hcontinues (abides_commit hlawful)
      | reset => exact hcontinues (abides_reset hlawful)
      | functionalFreshnessProbe => exact hcontinues (abides_functionalFreshnessProbe hlawful)
      | stop => exact hconcludes

end Operations

end Runtime

end Oasi
