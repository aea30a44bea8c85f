import Oasi.Protocol.Requests
import Oasi.Runtime.Startup

/-! # Transactions of a run

A turn makes at most one transaction, with the next nonce. What the run has sent
and accepted is read off its effects, so the transactions of a run are the
concatenation of those of its turns, and their nonces increase.
-/

namespace Oasi

/-! ## What the effects say -/

namespace Effect

@[simp] def sent? : Effect → Option String
  | .sent command => some command
  | _ => none

@[simp] def accepted? : Effect → Option String
  | .accepted line => some line
  | _ => none

@[simp] def delivered? : Effect → Option ReaderMessage
  | .delivered message => some message
  | _ => none

@[simp] def recorded? : Effect → Option LedgerOperation
  | .recorded operation _ _ => some operation
  | _ => none

end Effect

/-- The requests that were written, oldest first. -/
def sentIn (effects : List Effect) : List String := effects.filterMap Effect.sent?

/-- The lines that were accepted as acknowledgements. -/
def acceptedIn (effects : List Effect) : List String := effects.filterMap Effect.accepted?

/-- The messages that the reader thread put into the queue. -/
def deliveredIn (effects : List Effect) : List ReaderMessage :=
  effects.filterMap Effect.delivered?

/-- The calls of the ledger. -/
def recordedIn (effects : List Effect) : List LedgerOperation :=
  effects.filterMap Effect.recorded?

section Projections

variable (effect : Effect) (first second : List Effect) (messages : List ReaderMessage)

theorem filterMap_cons_toList {α β : Type} (read : α → Option β) (head : α) (rest : List α) :
    (head :: rest).filterMap read = (read head).toList ++ rest.filterMap read := by
  rw [List.filterMap_cons]
  cases read head <;> rfl

@[simp] theorem sentIn_nil : sentIn [] = [] := rfl

@[simp] theorem acceptedIn_nil : acceptedIn [] = [] := rfl

@[simp] theorem deliveredIn_nil : deliveredIn [] = [] := rfl

@[simp] theorem recordedIn_nil : recordedIn [] = [] := rfl

@[simp] theorem sentIn_cons : sentIn (effect :: second) = effect.sent?.toList ++ sentIn second :=
  filterMap_cons_toList _ _ _

@[simp] theorem acceptedIn_cons :
    acceptedIn (effect :: second) = effect.accepted?.toList ++ acceptedIn second :=
  filterMap_cons_toList _ _ _

@[simp] theorem deliveredIn_cons :
    deliveredIn (effect :: second) = effect.delivered?.toList ++ deliveredIn second :=
  filterMap_cons_toList _ _ _

@[simp] theorem recordedIn_cons :
    recordedIn (effect :: second) = effect.recorded?.toList ++ recordedIn second :=
  filterMap_cons_toList _ _ _

@[simp] theorem sentIn_append : sentIn (first ++ second) = sentIn first ++ sentIn second :=
  List.filterMap_append

@[simp] theorem acceptedIn_append :
    acceptedIn (first ++ second) = acceptedIn first ++ acceptedIn second := List.filterMap_append

@[simp] theorem deliveredIn_append :
    deliveredIn (first ++ second) = deliveredIn first ++ deliveredIn second :=
  List.filterMap_append

@[simp] theorem recordedIn_append :
    recordedIn (first ++ second) = recordedIn first ++ recordedIn second := List.filterMap_append

@[simp] theorem sentIn_deliveries : sentIn (deliveries messages) = [] := by
  induction messages with
  | nil => rfl
  | cons message rest ih => exact ih

@[simp] theorem acceptedIn_deliveries : acceptedIn (deliveries messages) = [] := by
  induction messages with
  | nil => rfl
  | cons message rest ih => exact ih

@[simp] theorem deliveredIn_deliveries : deliveredIn (deliveries messages) = messages := by
  induction messages with
  | nil => rfl
  | cons message rest ih => exact congrArg (message :: ·) ih

@[simp] theorem recordedIn_deliveries : recordedIn (deliveries messages) = [] := by
  induction messages with
  | nil => rfl
  | cons message rest ih => exact ih

end Projections

/-- Effects that are nothing but calls of the ledger. -/
def OnlyRecords (effects : List Effect) : Prop :=
  ∀ effect ∈ effects, ∃ operation body lease, effect = .recorded operation body lease

/-- Records send nothing, accept nothing and deliver nothing. -/
theorem OnlyRecords.silent {effects : List Effect} (h : OnlyRecords effects) :
    sentIn effects = [] ∧ acceptedIn effects = [] ∧ deliveredIn effects = [] := by
  induction effects with
  | nil => exact ⟨rfl, rfl, rfl⟩
  | cons effect rest ih =>
      obtain ⟨operation, body, lease, rfl⟩ := h effect List.mem_cons_self
      exact ih fun other hother => h other (List.mem_cons_of_mem _ hother)

/-- What comes first among records are records. -/
theorem OnlyRecords.front {effects more : List Effect} (h : OnlyRecords more)
    (hfront : effects <+: more) : OnlyRecords effects :=
  fun effect heffect => h effect (hfront.subset heffect)

/-- A call of the ledger is a record. -/
theorem onlyRecords_singleton (operation : LedgerOperation) (state : RuntimeState) :
    OnlyRecords [state.calls operation] := by
  intro effect heffect
  rw [List.mem_singleton.mp heffect]
  exact ⟨_, _, _, rfl⟩

/-- Two calls of the ledger are records. -/
theorem onlyRecords_pair (operation operation' : LedgerOperation) (state state' : RuntimeState) :
    OnlyRecords [state.calls operation, state'.calls operation'] := by
  intro effect heffect
  simp only [List.mem_cons, List.not_mem_nil, or_false] at heffect
  rcases heffect with rfl | rfl <;> exact ⟨_, _, _, rfl⟩

/-- An exchange without an answer accepts nothing and sends its command at most. -/
theorem Unanswered.projections {command : String} {effects : List Effect}
    (h : Unanswered command effects) :
    (sentIn effects = [] ∨ sentIn effects = [command]) ∧ acceptedIn effects = [] ∧
      recordedIn effects = [] := by
  obtain ⟨early, late, rfl | rfl⟩ := h <;> simp

/-- An answered exchange sends its command once and accepts the expected line. -/
theorem Answered.projections {command : String} {expected : BoundExpectedAck}
    {effects : List Effect} (h : Answered command expected effects) :
    sentIn effects = [command] ∧
      (∃ line, line ++ "\n" = expected.canonical ∧ acceptedIn effects = [line]) ∧
      recordedIn effects = [] := by
  obtain ⟨early, late, line, hline, rfl⟩ := h
  refine ⟨by simp, ⟨line, hline, by simp⟩, by simp⟩

/-- A stop that is answered sends its command once and accepts the expected line. -/
theorem Stopped.projections {command : String} {expected : BoundExpectedAck}
    {effects : List Effect} (h : Stopped command expected effects) :
    sentIn effects = [command] ∧
      (∃ line, line ++ "\n" = expected.canonical ∧ acceptedIn effects = [line]) ∧
      recordedIn effects = [] := by
  obtain ⟨exchanged, remaining, hexchanged, rfl⟩ := h
  obtain ⟨hsent, ⟨line, hline, haccepted⟩, hrecorded⟩ := hexchanged.projections
  refine ⟨by simp [hsent], ⟨line, hline, by simp [haccepted]⟩, by simp [hrecorded]⟩

/-! ## The conversation of a turn -/

/-- At most one request, a permitted one with the next nonce; what was accepted are
the acknowledgements of the requests, as far as there are any. -/
structure Conversation (permits : BoundChildRequest → Prop) (nonce : UInt64) (actions : Nat)
    (effects : List Effect) (requests : List BoundChildRequest) : Prop where
  single : requests.length ≤ 1
  permitted : ∀ request ∈ requests, permits request
  nonces : ∀ request ∈ requests, checkedSucc nonce = some request.nonce
  sent : sentIn effects = requests.map BoundChildRequest.encode
  accepted : (acceptedIn effects).map (· ++ "\n") <+:
    (BoundChildRequest.answers actions requests).map BoundExpectedAck.canonical

/-- Every request was answered, and the counters follow the requests. -/
structure Conversed (permits : BoundChildRequest → Prop) (nonce : UInt64) (actions : Nat)
    (effects : List Effect) (requests : List BoundChildRequest) (nextNonce : UInt64)
    (nextActions : Nat) : Prop extends Conversation permits nonce actions effects requests where
  answered : (acceptedIn effects).map (· ++ "\n") =
    (BoundChildRequest.answers actions requests).map BoundExpectedAck.canonical
  nextNonce_eq : nextNonce = (requests.map BoundChildRequest.nonce).getLastD nonce
  nextActions_eq : nextActions = BoundChildRequest.countedAll actions requests

/-- What the effects of a turn say to the child, by whether it returned `Ok`. -/
def Converses (permits : BoundChildRequest → Prop) (nonce : UInt64) (actions : Nat)
    (effects : List Effect) (ok : Bool) (nextNonce : UInt64) (nextActions : Nat) : Prop :=
  ∃ requests, Conversation permits nonce actions effects requests ∧
    (ok = true → Conversed permits nonce actions effects requests nextNonce nextActions)

section Conversations

variable {permits : BoundChildRequest → Prop} {nonce nextNonce : UInt64} {actions nextActions : Nat}
  {effects : List Effect} {ok : Bool}

/-- Effects without a line in either direction are a conversation of no requests. -/
theorem converses_silent (hsent : sentIn effects = []) (haccepted : acceptedIn effects = [])
    (hnonce : ok = true → nextNonce = nonce) (hactions : ok = true → nextActions = actions) :
    Converses permits nonce actions effects ok nextNonce nextActions := by
  have hconversation : Conversation permits nonce actions effects [] :=
    ⟨Nat.zero_le 1, by simp, by simp, hsent, by simp [haccepted]⟩
  exact ⟨[], hconversation, fun hok =>
    ⟨hconversation, by rw [haccepted]; rfl, hnonce hok, hactions hok⟩⟩

/-- Records are a conversation of no requests and leave the numbers as they are. -/
theorem OnlyRecords.converses (h : OnlyRecords effects) :
    Converses permits nonce actions effects ok nonce actions :=
  converses_silent h.silent.1 h.silent.2.1 (fun _ => rfl) (fun _ => rfl)

/-- A turn that fails without an answer. -/
theorem converses_unanswered {request : BoundChildRequest} (hpermits : permits request)
    (hnonce : checkedSucc nonce = some request.nonce)
    (hsent : sentIn effects = [] ∨ sentIn effects = [request.encode])
    (haccepted : acceptedIn effects = []) :
    Converses permits nonce actions effects false nextNonce nextActions := by
  rcases hsent with hsent | hsent
  · exact converses_silent hsent haccepted (nomatch ·) (nomatch ·)
  · exact ⟨[request], ⟨Nat.le_refl 1, List.forall_mem_singleton.mpr hpermits,
      List.forall_mem_singleton.mpr hnonce, hsent, by simp [haccepted]⟩, (nomatch ·)⟩

/-- A turn with an answered request. -/
theorem converses_answered {request : BoundChildRequest} (hpermits : permits request)
    (hnonce : checkedSucc nonce = some request.nonce) (hsent : sentIn effects = [request.encode])
    (haccepted : ∃ line,
      line ++ "\n" = (request.ack (UInt64.ofNat (request.counted actions))).canonical ∧
        acceptedIn effects = [line])
    (hnext : ok = true → nextNonce = request.nonce)
    (hactions : ok = true → nextActions = request.counted actions) :
    Converses permits nonce actions effects ok nextNonce nextActions := by
  obtain ⟨line, hline, haccepted⟩ := haccepted
  have hanswered : (acceptedIn effects).map (· ++ "\n") =
      (BoundChildRequest.answers actions [request]).map BoundExpectedAck.canonical := by
    rw [haccepted, List.map_singleton, hline]
    rfl
  have hconversation : Conversation permits nonce actions effects [request] :=
    ⟨Nat.le_refl 1, List.forall_mem_singleton.mpr hpermits,
      List.forall_mem_singleton.mpr hnonce, hsent, hanswered ▸ List.prefix_rfl⟩
  exact ⟨[request], hconversation, fun hok =>
    ⟨hconversation, hanswered, hnext hok, hactions hok⟩⟩

end Conversations

section Turns

variable {permits : BoundChildRequest → Prop} {state after : RuntimeState}
  {effects : List Effect} {ok : Bool}

/-- The answered request followed by records. -/
theorem Answered.projections_append {command : String} {expected : BoundExpectedAck}
    {exchanged before records : List Effect} (h : Answered command expected exchanged)
    (hbefore : OnlyRecords before) (hrecords : OnlyRecords records) :
    sentIn (before ++ exchanged ++ records) = [command] ∧
      ∃ line, line ++ "\n" = expected.canonical ∧
        acceptedIn (before ++ exchanged ++ records) = [line] := by
  obtain ⟨hsent, ⟨line, hline, haccepted⟩, _⟩ := h.projections
  refine ⟨by simp [hsent, hbefore.silent, hrecords.silent], line, hline, ?_⟩
  simp [haccepted, hbefore.silent, hrecords.silent]

/-- Records around an exchange without an answer change nothing about its lines. -/
theorem Unanswered.projections_append {command : String} {exchanged before records : List Effect}
    (h : Unanswered command exchanged) (hbefore : OnlyRecords before)
    (hrecords : OnlyRecords records) :
    (sentIn (before ++ exchanged ++ records) = [] ∨
        sentIn (before ++ exchanged ++ records) = [command]) ∧
      acceptedIn (before ++ exchanged ++ records) = [] := by
  obtain ⟨hsent, haccepted, _⟩ := h.projections
  refine ⟨?_, by simp [haccepted, hbefore.silent, hrecords.silent]⟩
  rcases hsent with hsent | hsent
  · exact .inl (by simp [hsent, hbefore.silent, hrecords.silent])
  · exact .inr (by simp [hsent, hbefore.silent, hrecords.silent])

/-- A quarantine asks for at most one rollback, under the next nonce. -/
theorem QuarantineTurn.converses {reason : String}
    (hpermits : ∀ id nonce authority, permits (.rollback id nonce authority))
    (h : QuarantineTurn reason state effects ok after) :
    Converses permits state.transactionNonce state.metrics.childActions.toNat effects ok
      after.transactionNonce after.metrics.childActions.toNat := by
  cases h with
  | overflowed => exact converses_silent rfl rfl (nomatch ·) (nomatch ·)
  | unsent rollbacks nonce => exact converses_silent rfl rfl (nomatch ·) (nomatch ·)
  | refused order error exchanged hexchanged =>
      obtain ⟨hsent, haccepted⟩ := hexchanged.projections_append
        (onlyRecords_singleton _ state.revoked) (onlyRecords_singleton _ state.revoked)
      exact converses_unanswered (hpermits order.rollbacks order.nonce state.authoritySnapshot)
        order.nextNonce hsent haccepted
  | confirmed order exchanged hexchanged =>
      obtain ⟨hsent, haccepted⟩ := hexchanged.projections_append
        (onlyRecords_singleton _ state.revoked) (onlyRecords_singleton _ state.revoked)
      exact converses_answered (hpermits order.rollbacks order.nonce state.authoritySnapshot)
        order.nextNonce hsent haccepted (fun _ => rfl) (fun _ => rfl)

/-- The request of a work order. -/
def WorkOrder.request (order : WorkOrder state) : BoundChildRequest :=
  .work order.id order.nonce order.units state.authoritySnapshot

/-- A work order counts one action more than the child has taken. -/
theorem WorkOrder.counted (order : WorkOrder state) :
    order.request.counted state.metrics.childActions.toNat = order.actions.toNat := by
  have hactions := checkedSucc_eq_some.mp order.nextActions
  rw [hactions]
  rfl

/-- The acknowledgement that a work order expects names its own count of actions. -/
theorem WorkOrder.expected_eq (order : WorkOrder state) :
    order.request.ack (UInt64.ofNat (order.request.counted state.metrics.childActions.toNat)) =
      order.expected := by
  rw [order.counted, UInt64.ofNat_toNat, WorkOrder.request, BoundChildRequest.ack,
    WorkOrder.expected]

theorem onlyRecords_nil : OnlyRecords [] := fun _ heffect => absurd heffect List.not_mem_nil

/-- A commit asks for at most one piece of work, under the next nonce. -/
theorem CommitTurn.converses {nowNs : UInt64}
    (hpermits : state.commitDecision nowNs = .allow → ∀ order : WorkOrder state,
      permits order.request) (h : CommitTurn nowNs state effects ok after) :
    Converses permits state.transactionNonce state.metrics.childActions.toNat effects ok
      after.transactionNonce after.metrics.childActions.toNat := by
  have hanswered : ∀ {order : WorkOrder state} {exchanged records : List Effect},
      Answered order.command order.expected exchanged → OnlyRecords records →
      sentIn (exchanged ++ records) = [order.request.encode] ∧
        ∃ line, line ++ "\n" = (order.request.ack (UInt64.ofNat
            (order.request.counted state.metrics.childActions.toNat))).canonical ∧
          acceptedIn (exchanged ++ records) = [line] := by
    intro order exchanged records hexchanged hrecords
    rw [order.expected_eq]
    exact hexchanged.projections_append onlyRecords_nil hrecords
  cases h with
  | blocked hblocked => exact (onlyRecords_singleton _ state).converses
  | unsent hallowed nonce => exact converses_silent rfl rfl (nomatch ·) (nomatch ·)
  | rejected hallowed order error exchanged hexchanged =>
      obtain ⟨hsent, haccepted⟩ := hexchanged.projections_append onlyRecords_nil
        (onlyRecords_singleton _ state.rejected)
      exact converses_unanswered (hpermits hallowed order) order.nextNonce hsent haccepted
  | uncounted hallowed order exchanged hexchanged =>
      obtain ⟨hsent, haccepted⟩ := hanswered hexchanged onlyRecords_nil
      rw [List.append_nil] at hsent haccepted
      exact converses_answered (hpermits hallowed order) order.nextNonce hsent haccepted
        (nomatch ·) (nomatch ·)
  | committed hallowed order exchanged hexchanged allowedCommits hallowedCommits records ok
      hrecords =>
      obtain ⟨hsent, haccepted⟩ :=
        hanswered hexchanged ((onlyRecords_pair _ _ state state).front hrecords)
      exact converses_answered (hpermits hallowed order) order.nextNonce hsent haccepted
        (fun _ => rfl) (fun _ => order.counted.symm)

/-- A probe asks at most once, under the next nonce. -/
theorem ProbeTurn.converses {nowNs : UInt64}
    (hpermits : ∀ id nonce authority, permits (.probe id nonce authority))
    (h : ProbeTurn nowNs state effects ok after) :
    Converses permits state.transactionNonce state.metrics.childActions.toNat effects ok
      after.transactionNonce after.metrics.childActions.toNat := by
  cases h with
  | refused hrefused => exact (onlyRecords_singleton _ state).converses
  | unsent hquarantined hconfirmed nonce records hrecords =>
      have honly : OnlyRecords effects := fun effect heffect => by
        obtain ⟨event, detail, rfl⟩ := hrecords effect heffect
        exact ⟨_, _, _, rfl⟩
      exact converses_silent honly.silent.1 honly.silent.2.1 (nomatch ·) (nomatch ·)
  | rejected hquarantined hconfirmed order error exchanged hexchanged =>
      obtain ⟨hsent, haccepted⟩ := hexchanged.projections_append
        (onlyRecords_singleton _ state) (onlyRecords_singleton _ state.rejected)
      exact converses_unanswered (hpermits order.certificate order.nonce state.authoritySnapshot)
        order.nextNonce hsent haccepted
  | expired hquarantined hconfirmed order exchanged hexchanged =>
      obtain ⟨hsent, haccepted⟩ := hexchanged.projections_append
        (onlyRecords_singleton _ state) onlyRecords_nil
      rw [List.append_nil] at hsent haccepted
      exact converses_answered (hpermits order.certificate order.nonce state.authoritySnapshot)
        order.nextNonce hsent haccepted (nomatch ·) (nomatch ·)
  | recovered hquarantined hconfirmed order exchanged hexchanged validUntilNs hdeadline after
      hafter records ok hrecords =>
      obtain ⟨hsent, haccepted⟩ := hexchanged.projections_append
        (onlyRecords_singleton _ state) ((onlyRecords_pair _ _ after after).front hrecords)
      subst hafter
      exact converses_answered (hpermits order.certificate order.nonce state.authoritySnapshot)
        order.nextNonce hsent haccepted (fun _ => rfl) (fun _ => rfl)

/-- The end asks for at most one stop, under the next nonce. -/
theorem ConcludeTurn.converses
    (hpermits : ∀ id nonce authority, permits (.stop id nonce authority))
    (h : ConcludeTurn state effects ok after) :
    Converses permits state.transactionNonce state.metrics.childActions.toNat effects ok
      after.transactionNonce after.metrics.childActions.toNat := by
  have hanswered : ∀ {nonce : UInt64} {exchanged records : List Effect} {ok : Bool} {next : UInt64}
      {actions : Nat}, checkedSucc state.transactionNonce = some nonce →
      Stopped (boundStopRequest state.actionCounter nonce state.authoritySnapshot)
        (.stop state.actionCounter nonce state.authoritySnapshot) exchanged →
      OnlyRecords records → (ok = true → next = nonce) →
      (ok = true → actions = state.metrics.childActions.toNat) →
      Converses permits state.transactionNonce state.metrics.childActions.toNat
        (exchanged ++ records) ok
        next actions := by
    intro nonce exchanged records ok next actions hnonce hexchanged hrecords hnext hactions
    obtain ⟨hsent, ⟨line, hline, haccepted⟩, _⟩ := hexchanged.projections
    refine converses_answered (hpermits state.actionCounter nonce state.authoritySnapshot) hnonce
      ?_ ⟨line, hline, ?_⟩ hnext hactions
    · rw [sentIn_append, hsent, hrecords.silent.1]
      rfl
    · rw [acceptedIn_append, haccepted, hrecords.silent.2.1]
      rfl
  cases h with
  | unsent nonce => exact converses_silent rfl rfl (nomatch ·) (nomatch ·)
  | rejected nonce hnonce error exchanged hexchanged =>
      rcases hexchanged with hexchanged | hexchanged
      · obtain ⟨hsent, haccepted⟩ := hexchanged.projections_append onlyRecords_nil
          (onlyRecords_singleton _ state.rejected)
        exact converses_unanswered (hpermits state.actionCounter nonce state.authoritySnapshot)
          hnonce hsent haccepted
      · exact hanswered hnonce hexchanged (onlyRecords_singleton _ _) (nomatch ·) (nomatch ·)
  | concluded nonce hnonce exchanged hexchanged records ok hrecords =>
      exact hanswered hnonce hexchanged ((onlyRecords_pair _ _ state state).front hrecords)
        (fun _ => rfl) (fun _ => rfl)

/-- Work is requested by a commit that is allowed, for the authority of the moment. -/
def MayRequest (nowNs : UInt64) (state : RuntimeState) (signal : Signal)
    (request : BoundChildRequest) : Prop :=
  request.isWork = true → signal = .event .commit ∧ state.commitDecision nowNs = .allow ∧
    request.authority = state.authoritySnapshot

/-- Every turn makes at most one transaction. -/
theorem AuthorityTurn.converses {nowNs : UInt64} {signal : Signal}
    (h : AuthorityTurn nowNs state signal effects ok after) :
    Converses (MayRequest nowNs state signal) state.transactionNonce
      state.metrics.childActions.toNat effects ok
      after.transactionNonce after.metrics.childActions.toNat := by
  cases h with
  | beginRefused hpending => exact converses_silent rfl rfl (nomatch ·) (nomatch ·)
  | begun hidle => exact (onlyRecords_singleton _ state).converses
  | commit hturn => exact hturn.converses fun hallowed _ _ => ⟨rfl, hallowed, rfl⟩
  | resetOverflowed epoch => exact converses_silent rfl rfl (nomatch ·) (nomatch ·)
  | reset epoch generation hepoch hgeneration hturn =>
      exact @QuarantineTurn.converses _ ((state.withEpoch epoch).withGeneration generation) _ _ _ _
        (fun _ _ _ => nofun) hturn
  | timeout hturn => exact hturn.converses fun _ _ _ => nofun
  | probe hturn => exact hturn.converses fun _ _ _ => nofun
  | conclude signal hsignal hturn => exact hturn.converses fun _ _ _ => nofun

/-! ### Exhaustion -/

/-- The turns that cannot return `Ok` without a new nonce. -/
def RuntimeState.needsNonce (state : RuntimeState) (nowNs : UInt64) : Signal → Bool
  | .event .begin => false
  | .event .commit => decide (state.commitDecision nowNs = .allow)
  | .event .functionalFreshnessProbe => state.body.quarantined && state.rollbackConfirmed
  | .event .reset | .event .stop | .timeout | .disconnected => true

/-- A quarantine that comes through has found a nonce. -/
theorem QuarantineTurn.nextNonce {reason : String}
    (h : QuarantineTurn reason state effects true after) :
    ∃ nonce, checkedSucc state.transactionNonce = some nonce := by
  cases h with
  | confirmed order => exact ⟨order.nonce, order.nextNonce⟩

/-- A turn that needs a nonce and returned `Ok` was given one. -/
theorem AuthorityTurn.nextNonce {nowNs : UInt64} {signal : Signal}
    (h : AuthorityTurn nowNs state signal effects true after)
    (hneeds : state.needsNonce nowNs signal = true) :
    ∃ nonce, checkedSucc state.transactionNonce = some nonce := by
  cases h with
  | begun hidle => exact absurd hneeds Bool.false_ne_true
  | commit hturn =>
      cases hturn with
      | blocked hblocked => exact absurd (of_decide_eq_true hneeds) hblocked
      | committed hallowed order => exact ⟨order.nonce, order.nextNonce⟩
  | reset epoch generation hepoch hgeneration hturn => exact hturn.nextNonce
  | timeout hturn => exact hturn.nextNonce
  | probe hturn =>
      cases hturn with
      | refused hrefused =>
          rw [RuntimeState.needsNonce, Bool.and_eq_true] at hneeds
          simp [hneeds] at hrefused
      | recovered hquarantined hconfirmed order => exact ⟨order.nonce, order.nextNonce⟩
  | conclude signal hsignal hturn =>
      cases hturn with
      | concluded nonce hnonce => exact ⟨nonce, hnonce⟩

end Turns

/-! ## The transactions of a run -/

/-- The requests of a sequence of turns, with increasing nonces beyond the first
one, and the acknowledgements that were accepted for them. -/
structure Transactions (nonce : UInt64) (actions : Nat) (effects : List Effect)
    (requests : List BoundChildRequest) : Prop where
  sent : sentIn effects = requests.map BoundChildRequest.encode
  increasing : (requests.map BoundChildRequest.nonce).Pairwise (· < ·)
  later : ∀ request ∈ requests, nonce < request.nonce
  accepted : (acceptedIn effects).map (· ++ "\n") <+:
    (BoundChildRequest.answers actions requests).map BoundExpectedAck.canonical

section Transactions

variable {permits : BoundChildRequest → Prop} {nonce nextNonce : UInt64}
  {actions nextActions : Nat} {first second effects : List Effect}
  {requests more : List BoundChildRequest}

/-- A conversation is a run of transactions in the order of its requests. -/
theorem Conversation.transactions (h : Conversation permits nonce actions effects requests) :
    Transactions nonce actions effects requests where
  sent := h.sent
  increasing := by
    match requests, h.single with
    | [], _ => exact .nil
    | [request], _ => exact List.pairwise_singleton _ _
  later := fun request hrequest => lt_of_checkedSucc (h.nonces request hrequest)
  accepted := h.accepted

/-- The nonce never falls, and no request is ahead of it. -/
theorem Conversed.nonce_le
    (h : Conversed permits nonce actions effects requests nextNonce nextActions) :
    nonce ≤ nextNonce ∧ ∀ request ∈ requests, request.nonce ≤ nextNonce := by
  have hnext := h.nextNonce_eq
  match requests, h.single, h.nonces with
  | [], _, _ => exact ⟨hnext ▸ UInt64.le_refl _, by simp⟩
  | [request], _, hnonces =>
      have hsame : nextNonce = request.nonce := hnext
      refine ⟨hsame ▸ UInt64.le_of_lt (lt_of_checkedSucc (hnonces request ?_)), ?_⟩
      · exact List.mem_singleton.mpr rfl
      · intro other hother
        rw [List.mem_singleton.mp hother, hsame]
        exact UInt64.le_refl _

/-- The transactions of a turn that returned `Ok`, and of what follows it. -/
theorem Conversed.append (h : Conversed permits nonce actions first requests nextNonce nextActions)
    (hmore : Transactions nextNonce nextActions second more) :
    Transactions nonce actions (first ++ second) (requests ++ more) where
  sent := by rw [sentIn_append, h.sent, hmore.sent, List.map_append]
  increasing := by
    rw [List.map_append, List.pairwise_append]
    refine ⟨h.toConversation.transactions.increasing, hmore.increasing, ?_⟩
    intro early hearly late hlate
    obtain ⟨request, hrequest, rfl⟩ := List.mem_map.mp hearly
    obtain ⟨other, hother, rfl⟩ := List.mem_map.mp hlate
    exact UInt64.lt_of_le_of_lt (h.nonce_le.2 request hrequest) (hmore.later other hother)
  later := by
    intro request hrequest
    rcases List.mem_append.mp hrequest with hrequest | hrequest
    · exact lt_of_checkedSucc (h.nonces request hrequest)
    · exact UInt64.lt_of_le_of_lt h.nonce_le.1 (hmore.later request hrequest)
  accepted := by
    have hactions := h.nextActions_eq
    subst hactions
    rw [acceptedIn_append, List.map_append, h.answered, BoundChildRequest.answers_append,
      List.map_append]
    exact (List.prefix_append_right_inj _).mpr hmore.accepted

end Transactions

/-- The effects of some turns. -/
def effectsOf (turns : List Turn) : List Effect := turns.flatMap fun turn => turn.output.effects

@[simp] theorem effectsOf_nil : effectsOf [] = [] := rfl

@[simp] theorem effectsOf_cons (turn : Turn) (turns : List Turn) :
    effectsOf (turn :: turns) = turn.output.effects ++ effectsOf turns := List.flatMap_cons

@[simp] theorem effectsOf_append (first second : List Turn) :
    effectsOf (first ++ second) = effectsOf first ++ effectsOf second := List.flatMap_append

namespace Runtime

/-- What any transition says to the child. -/
theorem converses_transition (runtime : Runtime) (occurrence : Occurrence) :
    ∃ requests, Conversation
        (MayRequest occurrence.surroundings.nowNs runtime.toRuntimeState occurrence.signal)
        runtime.transactionNonce runtime.metrics.childActions.toNat
        (runtimeMachine.transition runtime occurrence).output.effects requests ∧
      ((∃ result, (runtimeMachine.transition runtime occurrence).output.result = .ok result) →
        Conversed
          (MayRequest occurrence.surroundings.nowNs runtime.toRuntimeState occurrence.signal)
          runtime.transactionNonce runtime.metrics.childActions.toNat
          (runtimeMachine.transition runtime occurrence).output.effects requests
          (runtimeMachine.transition runtime occurrence).after.transactionNonce
          (runtimeMachine.transition runtime occurrence).after.metrics.childActions.toNat) := by
  obtain ⟨ok, hturn, hok⟩ := turn_of_transition runtime occurrence
  obtain ⟨requests, hconversation, hconversed⟩ := hturn.converses
  exact ⟨requests, hconversation, fun hresult => hconversed (hok.mpr hresult)⟩

/-- The transactions of a run. -/
theorem transactions_of_history (runtime : Runtime) (occurrences : List Occurrence) :
    ∃ requests, Transactions runtime.transactionNonce runtime.metrics.childActions.toNat
      (effectsOf (runtime.history occurrences)) requests := by
  unfold history
  induction occurrences generalizing runtime with
  | nil => exact ⟨[], rfl, .nil, by simp, List.prefix_rfl⟩
  | cons occurrence rest ih =>
      obtain ⟨requests, hconversation, hconversed⟩ := converses_transition runtime occurrence
      rw [Machine.session]
      split
      next hends =>
        refine ⟨requests, ?_⟩
        rw [effectsOf_cons, effectsOf_nil, List.append_nil]
        exact hconversation.transactions
      next hcontinues =>
        rw [Bool.not_eq_true] at hcontinues
        obtain ⟨more, hmore⟩ := ih (runtimeMachine.transition runtime occurrence).after
        refine ⟨requests ++ more, ?_⟩
        rw [effectsOf_cons]
        exact (hconversed ⟨none, result_of_continues hcontinues⟩).append hmore

end Runtime

/-! ## Acknowledgements of other transactions -/

/-- A line is among the accepted ones when an effect accepts it. -/
theorem mem_acceptedIn {line : String} {effects : List Effect} :
    line ∈ acceptedIn effects ↔ .accepted line ∈ effects := by
  rw [acceptedIn, List.mem_filterMap]
  constructor
  · rintro ⟨effect, heffect, haccepted⟩
    cases effect <;> simp at haccepted
    exact haccepted ▸ heffect
  · exact fun heffect => ⟨_, heffect, rfl⟩

/-- A command is among the sent ones when an effect sends it. -/
theorem mem_sentIn {command : String} {effects : List Effect} :
    command ∈ sentIn effects ↔ .sent command ∈ effects := by
  rw [sentIn, List.mem_filterMap]
  constructor
  · rintro ⟨effect, heffect, hsent⟩
    cases effect <;> simp at hsent
    exact hsent ▸ heffect
  · exact fun heffect => ⟨_, heffect, rfl⟩

/-- Each expected answer is the acknowledgement of one of the requests. -/
theorem mem_answers {actions : Nat} {requests : List BoundChildRequest}
    {expected : BoundExpectedAck} (h : expected ∈ BoundChildRequest.answers actions requests) :
    ∃ request ∈ requests, ∃ count, expected = request.ack count := by
  induction requests generalizing actions with
  | nil => cases h
  | cons request rest ih =>
      rcases List.mem_cons.mp h with rfl | h
      · exact ⟨request, List.mem_cons_self, _, rfl⟩
      · obtain ⟨other, hother, hexpected⟩ := ih h
        exact ⟨other, List.mem_cons_of_mem _ hother, hexpected⟩

/-- What was accepted in a turn acknowledges the request of that turn only. -/
theorem Conversation.nonce_of_accepted {permits : BoundChildRequest → Prop} {nonce : UInt64}
    {actions : Nat} {effects : List Effect} {requests : List BoundChildRequest}
    (h : Conversation permits nonce actions effects requests) {line : String}
    (hline : .accepted line ∈ effects) {expected : BoundExpectedAck}
    (hvalid : validateBoundAck line expected = .ok ()) :
    ∃ request ∈ requests, request.nonce = expected.nonce := by
  have hmem := h.accepted.subset (List.mem_map_of_mem (mem_acceptedIn.mpr hline))
  obtain ⟨other, hother, hcanonical⟩ := List.mem_map.mp hmem
  obtain ⟨request, hrequest, count, rfl⟩ := mem_answers hother
  have hsame := BoundExpectedAck.nonce_eq_of_validated
    (validateBoundAck_eq_ok.mpr hcanonical.symm) hvalid
  exact ⟨request, hrequest, by rw [← hsame, BoundChildRequest.nonce_ack]⟩

namespace Runtime

/-- A line accepted in the past acknowledges no transaction still to come. -/
theorem nonce_le_of_accepted {runtime : Runtime} {occurrences : List Occurrence}
    (hcontinues : ∀ turn ∈ runtimeMachine.trace runtime occurrences, turn.output.ends = false)
    {past : Turn} (hpast : past ∈ runtimeMachine.trace runtime occurrences) {line : String}
    (hline : .accepted line ∈ past.output.effects) {expected : BoundExpectedAck}
    (hvalid : validateBoundAck line expected = .ok ()) :
    expected.nonce ≤ (runtimeMachine.run runtime occurrences).transactionNonce := by
  refine runtimeMachine.past_induction (motive := fun turns state =>
    ∀ past ∈ turns, .accepted line ∈ past.output.effects →
      expected.nonce ≤ state.transactionNonce)
    (fun past hpast => absurd hpast List.not_mem_nil) ?_ hcontinues past hpast hline
  intro turns state occurrence hturns hends turn hturn hline
  obtain ⟨requests, hconversation, hconversed⟩ := converses_transition state occurrence
  have hnext := (hconversed ⟨none, result_of_continues hends⟩).nonce_le
  rcases List.mem_append.mp hturn with hturn | hturn
  · exact UInt64.le_trans (hturns turn hturn hline) hnext.1
  · rw [List.mem_singleton.mp hturn] at hline
    obtain ⟨request, hrequest, hnonce⟩ := hconversation.nonce_of_accepted hline hvalid
    exact hnonce ▸ hnext.2 request hrequest

/-- A turn that needs a nonce fails when the counter is exhausted. -/
theorem error_of_exhausted (runtime : Runtime) (occurrence : Occurrence)
    (hexhausted : checkedSucc runtime.transactionNonce = none)
    (hneeds : runtime.needsNonce occurrence.surroundings.nowNs occurrence.signal = true) :
    ∃ error, (runtimeMachine.transition runtime occurrence).output.result = .error error := by
  cases hresult : (runtimeMachine.transition runtime occurrence).output.result with
  | error error => exact ⟨error, rfl⟩
  | ok result =>
      obtain ⟨ok, hturn, hok⟩ := turn_of_transition runtime occurrence
      obtain rfl := hok.mpr ⟨result, hresult⟩
      obtain ⟨nonce, hnonce⟩ := hturn.nextNonce hneeds
      exact absurd (hexhausted.symm.trans hnonce) nofun

/-- The result of a run is that of its last turn. -/
theorem run_of_error {runtime : Runtime} {occurrences : List Occurrence} {earlier : List Turn}
    {turn : Turn} {error : IoError} (hhistory : runtime.history occurrences = earlier ++ [turn])
    (herror : turn.output.result = .error error) :
    runtime.run occurrences = some (.error error) := by
  rw [run, hhistory, List.getLast?_concat, Option.bind_some, herror]

/-- The nonces of a run increase, whatever the counter starts with: no line
acknowledges two of its transactions, a line that was accepted in an earlier turn
is rejected in a later one. A turn that finds the counter exhausted sends nothing
and does not move it, and if it needs a nonce it is the last one and the run
returns its error. -/
theorem nonces_increase (runtime : Runtime) (occurrences : List Occurrence) :
    (∃ requests : List BoundChildRequest,
      sentIn (effectsOf (runtime.history occurrences)) =
        requests.map BoundChildRequest.encode ∧
      (requests.map BoundChildRequest.nonce).Pairwise (· < ·) ∧
      requests.Pairwise fun earlier later => ∀ line actions actions',
        validateBoundAck line (earlier.ack actions) = .ok () →
          validateBoundAck line (later.ack actions') ≠ .ok ()) ∧
    (∀ earlier turn later, runtime.history occurrences = earlier ++ turn :: later →
      (∀ past ∈ earlier, ∀ line, .accepted line ∈ past.output.effects →
        ∀ request : BoundChildRequest, .sent request.encode ∈ turn.output.effects →
          ∀ actions, validateBoundAck line (request.ack actions) ≠ .ok ()) ∧
      (checkedSucc turn.before.transactionNonce = none →
        sentIn turn.output.effects = [] ∧
          (∀ result, turn.output.result = .ok result →
            turn.after.transactionNonce = turn.before.transactionNonce) ∧
          (turn.before.needsNonce turn.input.surroundings.nowNs turn.input.signal = true →
            later = [] ∧ ∃ error, turn.output.result = .error error ∧
              runtime.run occurrences = some (.error error)))) := by
  refine ⟨?_, ?_⟩
  · obtain ⟨requests, htransactions⟩ := transactions_of_history runtime occurrences
    refine ⟨requests, htransactions.sent, htransactions.increasing, ?_⟩
    -- one line validates against one nonce only
    refine (List.pairwise_map.mp htransactions.increasing).imp ?_
    intro earlier later hless line actions actions' hearlier hlater
    have hsame := BoundExpectedAck.nonce_eq_of_validated hearlier hlater
    rw [BoundChildRequest.nonce_ack, BoundChildRequest.nonce_ack] at hsame
    exact absurd (hsame ▸ hless) (UInt64.lt_irrefl _)
  · intro earlier turn later hsplit
    obtain ⟨used, occurrence, rfl, rfl, hcontinues⟩ := runtimeMachine.session_split hsplit
    obtain ⟨requests, hconversation, hconversed⟩ :=
      converses_transition (runtimeMachine.run runtime used) occurrence
    refine ⟨?_, ?_⟩
    · intro past hpast line hline request hrequest actions hvalid
      -- what was accepted lies below the counter, and a request beyond it
      have hold := nonce_le_of_accepted hcontinues hpast hline hvalid
      have hmem : request.encode ∈ requests.map BoundChildRequest.encode :=
        hconversation.sent ▸ mem_sentIn.mpr hrequest
      obtain ⟨other, hother, hencode⟩ := List.mem_map.mp hmem
      rw [BoundChildRequest.encode_injective hencode] at hother
      have hnew := lt_of_checkedSucc (hconversation.nonces request hother)
      rw [BoundChildRequest.nonce_ack] at hold
      exact absurd (UInt64.lt_of_le_of_lt hold hnew) (UInt64.lt_irrefl _)
    · intro hexhausted
      -- every request takes the next nonce, and there is none
      have hnone : requests = [] := by
        refine List.eq_nil_iff_forall_not_mem.mpr fun request hrequest => ?_
        have hnonce := hconversation.nonces request hrequest
        exact absurd (hexhausted.symm.trans hnonce) (by simp)
      subst hnone
      refine ⟨hconversation.sent, ?_, ?_⟩
      · exact fun result hresult => (hconversed ⟨result, hresult⟩).nextNonce_eq
      · intro hneeds
        obtain ⟨error, herror⟩ :=
          error_of_exhausted (runtimeMachine.run runtime used) occurrence hexhausted hneeds
        have hends : (runtimeMachine.transition (runtimeMachine.run runtime used)
            occurrence).output.ends = true := by
          rw [TurnReport.ends, herror]
        obtain rfl := runtimeMachine.session_ends hsplit hends
        exact ⟨rfl, error, herror, run_of_error hsplit herror⟩

end Runtime

end Oasi
