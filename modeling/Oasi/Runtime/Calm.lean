import Oasi.Ledger.WriterRun
import Oasi.Runtime.Startup

/-! # Calm surroundings

When the ledger file carries out every request, its counters have room, and the
child's queue holds the acknowledgement that is waited for, no operation fails.
-/

namespace Oasi

/-- A computation that cannot fail returns a value. -/
theorem Ends.exists_ok {ε σ α : Type} {computation : EStateM ε σ α} {state : σ}
    {done : α → σ → Prop} (h : Ends computation state done fun _ _ => False) :
    ∃ value after, computation state = .ok value after ∧ done value after := by
  unfold Ends at h
  cases hresult : computation state with
  | ok value after =>
      rw [hresult] at h
      exact ⟨value, after, rfl, h⟩
  | error error after =>
      rw [hresult] at h
      exact h.elim

namespace Ledger

/-- A ledger on a healthy file that can take so many more entries. -/
structure HasRoom (ledger : Ledger) (room : Nat) : Prop where
  healthy : ledger.writer.file.Healthy
  unsealed : 0 < room → ledger.isSealed = false
  seq : ledger.seq.toNat + room < UInt64.size
  events : ledger.eventEntries.toNat + room < UInt64.size

/-- A record takes one place of a ledger with room. -/
theorem record_hasRoom {ledger : Ledger} {room : Nat} {event detail : String} {decision : Decision}
    {body : BodyState} {lease : Option SafetyLease} (h : ledger.HasRoom (room + 1))
    (hevent : event.utf8ByteSize ≤ maxEventBytes) (hdetail : detail.utf8ByteSize ≤ maxDetailBytes) :
    Ends (perform (.record event detail decision body lease)) ledger
      (fun _ after => after.HasRoom room ∧ after.eventEntries ≠ 0) (fun _ _ => False) := by
  have hseq := h.seq
  have hevents := h.events
  refine (perform_ends ledger (.record event detail decision body lease)).mono ?_ ?_
  · rintro _ after ⟨⟨written, hnext, happended⟩, hhealthy⟩
    have hcursor := happended.cursor
    have hkind : written.kind = .event := by
      cases hkind : written.kind with
      | event => rfl
      | «seal» =>
          obtain ⟨_, _, hseal⟩ := (nextEntry_kind hnext).mp hkind
          cases hseal
    simp only [cursor, Cursor.advance, hkind, Cursor.mk.injEq] at hcursor
    obtain ⟨hafterSeq, hafterEvents, _, hafterSealed⟩ := hcursor
    have hcount : after.eventEntries.toNat = ledger.eventEntries.toNat + 1 := by
      rw [hafterEvents, toNat_saturatingSucc]
      omega
    refine ⟨⟨hhealthy h.healthy, fun _ => ?_, ?_, by omega⟩, ?_⟩
    · rw [hafterSealed, h.unsealed (Nat.succ_pos room)]
      rfl
    · rw [hafterSeq, toNat_saturatingSucc]
      omega
    · intro hzero
      rw [hzero] at hcount
      simp at hcount
  · intro error after hrefused
    obtain ⟨result, hresult⟩ := @nextEvent_isOk ledger event detail decision body lease
      (h.unsealed (Nat.succ_pos room)) (by omega) (by omega) hevent hdetail
    have herror := (hrefused h.healthy).1
    simp [nextEntry, hresult, Except.map] at herror

/-- A seal takes the last place. -/
theorem seal_hasRoom {ledger : Ledger} {body : BodyState} {lease : Option SafetyLease}
    (h : ledger.HasRoom 1) (hevents : ledger.eventEntries ≠ 0) :
    Ends (perform (.seal body lease)) ledger (fun _ after => after.HasRoom 0)
      (fun _ _ => False) := by
  have hseq := h.seq
  refine (perform_ends ledger (.seal body lease)).mono ?_ ?_
  · rintro _ after ⟨_, hhealthy⟩
    refine ⟨hhealthy h.healthy, fun hroom => absurd hroom (Nat.lt_irrefl 0), ?_, ?_⟩
    · exact after.seq.toNat_lt_size
    · exact after.eventEntries.toNat_lt_size
  · intro error after hrefused
    obtain ⟨entry, hentry⟩ := nextSeal_isOk body lease (h.unsealed Nat.one_pos) hevents hseq
    have herror : ledger.nextSeal body lease = .error error := (hrefused h.healthy).1
    rw [hentry] at herror
    cases herror

/-- A new ledger has all its room. -/
theorem create_hasRoom {room : Nat} (h : room < UInt64.size) : create.HasRoom room where
  healthy := fun _ houtcome => by cases houtcome
  unsealed := fun _ => rfl
  seq := by simpa [create] using h
  events := by simpa [create] using h

/-- The next turn finds the file as healthy as its outcomes say. -/
theorem HasRoom.facing {ledger : Ledger} {room : Nat} {outcomes : List IoOutcome}
    (h : ledger.HasRoom room) (houtcomes : ∀ outcome ∈ outcomes, ¬outcome.Fails) :
    (ledger.facing outcomes).HasRoom room where
  healthy := houtcomes
  unsealed := h.unsealed
  seq := h.seq
  events := h.events

/-- A ledger with room has less room as well. -/
theorem HasRoom.le {ledger : Ledger} {room less : Nat} (h : ledger.HasRoom room)
    (hless : less ≤ room) : ledger.HasRoom less where
  healthy := h.healthy
  unsealed := fun hpositive => h.unsealed (Nat.lt_of_lt_of_le hpositive hless)
  seq := Nat.lt_of_le_of_lt (Nat.add_le_add_left hless _) h.seq
  events := Nat.lt_of_le_of_lt (Nat.add_le_add_left hless _) h.events

end Ledger

/-- Nothing is delivered but the acknowledgement that is waited for. -/
structure Exchange.Answers (exchange : Exchange) (expected : BoundExpectedAck) : Prop where
  written : exchange.written = .ok ()
  delivered : ∃ line, line ++ "\n" = expected.canonical ∧
    exchange.early ++ exchange.late = [.line line]

/-- The child exits with success, which some poll finds, and leaves nothing but the end
of its output. -/
structure ExitWait.Clean (exit : ExitWait) : Prop where
  polls : ∃ idle status polls,
    exit.polls = List.replicate idle (.ok none) ++ .ok (some status) :: polls ∧
      status.success = true
  reader : exit.readerPanicked = false
  remaining : exit.remaining = [.eof]

/-- The parent holds the pipe to the child and has taken all of its messages. -/
structure ChildProcess.Attended (child : ChildProcess) : Prop where
  inputOpen : child.inputOpen = true
  responses : child.responses = []

namespace Connection

/-- A request that is answered. -/
theorem transactBound_answered {exchange : Exchange} {command : String}
    {expected : BoundExpectedAck} {connection : Connection}
    (hattended : connection.child.Attended) (hanswers : exchange.Answers expected) :
    Ends (transactBound exchange command expected) connection
      (fun _ after => after.child.Attended) (fun _ _ => False) := by
  obtain ⟨line, hline, hdelivered⟩ := hanswers.delivered
  have hacceptable := validateBoundAck_eq_ok.mpr hline
  simp only [transactBound, ends_bind, deliver, ends_modify, writeCommand, ends_get,
    hattended.inputOpen, if_true, emit, ends_pure, hanswers.written, receive, hattended.responses,
    List.nil_append, hdelivered, onChild, acceptBound, hacceptable]
  exact ⟨rfl, rfl⟩

/-- A poll that finds the child running changes nothing. -/
theorem awaitExit_idle (reaping : Reaping) (idle : Nat)
    (polls : List (Except IoError (Option ExitStatus))) :
    awaitExit reaping (List.replicate idle (.ok none) ++ polls) = awaitExit reaping polls := by
  induction idle with
  | zero => rfl
  | succ idle ih =>
      rw [List.replicate_succ, List.cons_append, awaitExit]
      exact ih

/-- A child that exits cleanly is waited for without an error. -/
theorem waitForCleanExit_clean {exit : ExitWait} {connection : Connection}
    (hattended : connection.child.Attended) (hclean : exit.Clean) :
    Ends (waitForCleanExit exit) connection (fun _ _ => True) (fun _ _ => False) := by
  obtain ⟨idle, status, polls, hpolls, hstatus⟩ := hclean.polls
  simp only [waitForCleanExit, ends_bind, onChild, ends_modify, hpolls, awaitExit_idle, awaitExit,
    joinReader, hstatus, hclean.reader, failIf, ends_get, Bool.true_eq_false, Bool.false_eq_true,
    if_false, liftResult, ends_pure, deliver]
  cases connection.child.readerAttached <;>
    simp only [if_true, if_false, Bool.false_eq_true, ends_bind, ends_modify, ends_pure,
      hattended.responses, hclean.remaining, List.nil_append, drain, failIf, Bool.true_eq_false]

/-- A stop that is answered, with a clean exit, comes through. -/
theorem stopBound_answered {exchange : Exchange} {exit : ExitWait} {id nonce : UInt64}
    {authority : AuthoritySnapshot} {connection : Connection}
    (hattended : connection.child.Attended)
    (hanswers : exchange.Answers (.stop id nonce authority)) (hclean : exit.Clean) :
    Ends (stopBound exchange exit id nonce authority) connection (fun _ _ => True)
      (fun _ _ => False) := by
  rw [stopBound, ends_bind]
  exact (transactBound_answered hattended hanswers).imp fun _ _ hafter =>
    waitForCleanExit_clean hafter hclean

end Connection

/-! ## Operations that complete -/

/-- What an operation that cannot fail depends on: the fields, the room in the
ledger, and whether there is a child. -/
structure Scene where
  state : RuntimeState
  room : Nat
  attended : Bool

structure World.Shows (world : World) (surroundings : Surroundings) (scene : Scene) : Prop where
  state : world.runtime.toRuntimeState = scene.state
  surroundings : world.surroundings = surroundings
  ledger : world.runtime.ledger.HasRoom scene.room
  attended : world.runtime.child.isSome = scene.attended
  child : ∀ child, world.runtime.child = some child → child.Attended

namespace Runtime

variable {α β : Type}

/-- The operation returns a value, and leaves the scene it promises. -/
def Completes (operation : Operation α) (surroundings : Surroundings) (scene : Scene)
    (done : α → Scene → Prop) : Prop :=
  ∀ world : World, world.Shows surroundings scene →
    Ends operation world
      (fun value after => ∃ scene, after.Shows surroundings scene ∧ done value scene)
      (fun _ _ => False)

section Rules

variable {surroundings : Surroundings} {scene : Scene} {done : α → Scene → Prop}

/-- A value comes through. -/
theorem completes_pure {value : α} (h : done value scene) :
    Completes (pure value) surroundings scene done := fun _ hworld => ⟨scene, hworld, h⟩

/-- A sequence comes through when its second part does behind the first. -/
theorem completes_bind {first : Operation β} {second : β → Operation α}
    (h : Completes first surroundings scene fun value scene =>
      Completes (second value) surroundings scene done) :
    Completes (first >>= second) surroundings scene done := by
  intro world hworld
  rw [ends_bind]
  refine (h world hworld).imp ?_
  rintro value middle ⟨scene, hmiddle, hsecond⟩
  exact hsecond middle hmiddle

/-- The state is read as it is. -/
theorem completes_self {second : RuntimeState → Operation α}
    (h : Completes (second scene.state) surroundings scene done) :
    Completes (self >>= second) surroundings scene done := by
  refine completes_bind fun world hworld => ?_
  simp only [self, ends_bind, ends_get, ends_pure, hworld.state]
  exact ⟨scene, hworld, h⟩

/-- The clock is read as the surroundings show it. -/
theorem completes_monotonicNs {second : UInt64 → Operation α}
    (h : Completes (second surroundings.nowNs) surroundings scene done) :
    Completes (monotonicNs >>= second) surroundings scene done := by
  refine completes_bind fun world hworld => ?_
  simp only [monotonicNs, ends_bind, ends_get, ends_pure, hworld.surroundings]
  exact ⟨scene, hworld, h⟩

/-- A change of the state comes through. -/
theorem completes_update {change : RuntimeState → RuntimeState} {second : PUnit → Operation α}
    (h : Completes (second ⟨⟩) surroundings { scene with state := change scene.state } done) :
    Completes (update change >>= second) surroundings scene done := by
  refine completes_bind fun world hworld => ?_
  rw [update, ends_modify]
  refine ⟨{ scene with state := change scene.state }, ?_, h⟩
  exact { hworld with state := congrArg change hworld.state }

/-- A result that is no error comes through. -/
theorem completes_liftResult {result : Except IoError β} {value : β} {second : β → Operation α}
    (hresult : result = .ok value) (h : Completes (second value) surroundings scene done) :
    Completes (liftResult result >>= second) surroundings scene done := by
  rw [hresult]
  exact completes_bind (completes_pure h)

/-- A value that is there comes through. -/
theorem completes_orThrow {value : Option β} {found : β} {error : IoError}
    {second : β → Operation α} (hvalue : value = some found)
    (h : Completes (second found) surroundings scene done) :
    Completes (orThrow value error >>= second) surroundings scene done := by
  rw [hvalue]
  exact completes_bind (completes_pure h)

/-- A counter below its limit is incremented. -/
theorem checkedCounterIncrement_of_some {value next : UInt64} {counterName : String}
    (h : checkedSucc value = some next) : checkedCounterIncrement value counterName = .ok next := by
  rw [checkedCounterIncrement, h]

/-- A nonce is found as long as there is one. -/
theorem completes_nextTransactionNonce {nonce : UInt64} {second : UInt64 → Operation α}
    (hnonce : checkedSucc scene.state.transactionNonce = some nonce)
    (h : Completes (second nonce) surroundings { scene with state := scene.state.withNonce nonce }
      done) :
    Completes (nextTransactionNonce >>= second) surroundings scene done := by
  simp only [nextTransactionNonce, bind_assoc, pure_bind]
  exact completes_self (completes_liftResult (checkedCounterIncrement_of_some hnonce)
    (completes_update h))

/-- A record call within the bounds, on a ledger with room. -/
theorem completes_record {event detail : String} {decision : Decision} {body : BodyState}
    {lease : Option SafetyLease} {room : Nat} {done : Unit → Scene → Prop}
    (hroom : scene.room = room + 1) (hevent : event.utf8ByteSize ≤ maxEventBytes)
    (hdetail : detail.utf8ByteSize ≤ maxDetailBytes) (h : done () { scene with room := room }) :
    Completes (record event detail decision body lease) surroundings scene done := by
  intro world hworld
  rw [record, callLedger, ends_bind, ends_modify, ends_onPart]
  have hledger := hworld.ledger
  rw [hroom] at hledger
  refine (Ledger.record_hasRoom hledger hevent hdetail).mono ?_ (fun _ _ hfalse => hfalse)
  rintro _ ledger ⟨hafter, _⟩
  refine ⟨{ scene with room := room }, ?_, h⟩
  exact { hworld with ledger := hafter }

/-- A request that is answered comes through. -/
theorem completes_transact {unavailable command : String} {expected : BoundExpectedAck}
    {done : Except IoError Unit → Scene → Prop} (hattended : scene.attended = true)
    (hanswers : (surroundings.exchange command).Answers expected) (h : done (.ok ()) scene) :
    Completes (transact unavailable command expected) surroundings scene done := by
  intro world hworld
  obtain ⟨child, hchild⟩ := Option.isSome_iff_exists.mp (hworld.attended.trans hattended)
  simp only [transact, ends_bind, ends_get, hchild, orThrow, ends_pure, onChild, ends_onPart,
    ends_attempt, hworld.surroundings]
  refine (@Connection.transactBound_answered _ command _ ⟨child, world.effects⟩
    (hworld.child child hchild) hanswers).mono ?_ (fun _ _ hfalse => hfalse.elim)
  intro _ after hafter
  refine ⟨scene, ⟨hworld.state, rfl, hworld.ledger, hattended.symm, ?_⟩, h⟩
  rintro _ ⟨⟩
  exact hafter

/-- Stopping the child leaves no child. -/
theorem completes_stopChild {id nonce : UInt64} {authority : AuthoritySnapshot}
    {done : Except IoError Unit → Scene → Prop} (hattended : scene.attended = true)
    (hanswers : (surroundings.exchange (boundStopRequest id nonce authority)).Answers
      (.stop id nonce authority))
    (hclean : (surroundings.exit (boundStopRequest id nonce authority)).Clean)
    (h : done (.ok ()) { scene with attended := false }) :
    Completes (stopChild id nonce authority) surroundings scene done := by
  intro world hworld
  obtain ⟨child, hchild⟩ := Option.isSome_iff_exists.mp (hworld.attended.trans hattended)
  simp only [stopChild, ends_bind, ends_get, hchild, orThrow, ends_pure, onChild, ends_onPart,
    ends_attempt, ends_modify, hworld.surroundings]
  refine (@Connection.stopBound_answered _ _ _ _ _ ⟨child, world.effects⟩
    (hworld.child child hchild) hanswers hclean).mono ?_ (fun _ _ hfalse => hfalse.elim)
  intro _ after _
  exact ⟨{ scene with attended := false }, ⟨hworld.state, rfl, hworld.ledger, rfl, by simp⟩, h⟩

/-- The last two ledger calls of a run. -/
theorem completes_recordAndSeal {event detail : String} {decision : Decision}
    {body body' : BodyState} {lease lease' : Option SafetyLease} {room : Nat}
    {done : Unit → Scene → Prop} (hroom : scene.room = room + 2)
    (hevent : event.utf8ByteSize ≤ maxEventBytes) (hdetail : detail.utf8ByteSize ≤ maxDetailBytes)
    (h : done () { scene with room := 0 }) :
    Completes (record event detail decision body lease >>= fun _ => callLedger (.seal body' lease'))
      surroundings scene done := by
  intro world hworld
  have hledger := hworld.ledger
  rw [hroom] at hledger
  simp only [record, callLedger, ends_bind, ends_modify, ends_onPart]
  refine (Ledger.record_hasRoom hledger hevent hdetail).mono ?_ (fun _ _ hfalse => hfalse)
  rintro _ recorded ⟨hrecorded, hevents⟩
  refine (Ledger.seal_hasRoom (hrecorded.le (Nat.le_add_left 1 room)) hevents).mono ?_
    (fun _ _ hfalse => hfalse)
  intro _ ledger hafter
  refine ⟨{ scene with room := 0 }, ?_, h⟩
  exact { hworld with ledger := hafter }

end Rules

end Runtime

/-! ## The runtime's operations -/

/-- No counter of the runtime is beyond the bound. -/
structure RuntimeState.Within (state : RuntimeState) (bound : Nat) : Prop where
  actionCounter : state.actionCounter.toNat ≤ bound
  childActions : state.metrics.childActions.toNat ≤ bound
  allowedCommits : state.metrics.allowedCommits.toNat ≤ bound
  rollbacks : state.metrics.rollbacks.toNat ≤ bound
  epoch : state.body.epoch.toNat ≤ bound
  generation : state.body.generation.toNat ≤ bound
  certificate : state.body.certificate.toNat ≤ bound
  transactionNonce : state.transactionNonce.toNat ≤ bound

/-- A number with room above it has a successor. -/
theorem exists_checkedSucc {value : UInt64} {bound : Nat} (h : value.toNat ≤ bound)
    (hbound : bound + 1 < UInt64.size) : ∃ next, checkedSucc value = some next := by
  refine ⟨value + 1, ?_⟩
  rw [checkedSucc_eq_some, toNat_succ (by omega)]

namespace Runtime

variable {surroundings : Surroundings} {state : RuntimeState} {room bound : Nat}

/-- The scene of an operation with a child. -/
def attendedBy (state : RuntimeState) (room : Nat) : Scene := ⟨state, room, true⟩

/-- The operation completes with room left for the rest. -/
def LeavesRoom (operation : Operation Unit) (surroundings : Surroundings) (state : RuntimeState)
    (room : Nat) : Prop :=
  Completes operation surroundings (attendedBy state (room + 3)) fun _ scene =>
    room ≤ scene.room ∧ scene.attended = true

/-- A begin takes one place of the ledger. -/
theorem leavesRoom_begin (hidle : state.authorityTransaction.pending = false) :
    LeavesRoom begin surroundings state room := by
  refine completes_self ?_
  rw [attendedBy, AuthorityTransaction.begin_of_idle hidle]
  refine completes_update (completes_record rfl (by decide) (by decide) ⟨?_, rfl⟩)
  exact Nat.le_add_right room 2

/-- A quarantine whose rollback is answered comes through. -/
theorem completes_quarantine {reason : String} {rollbacks nonce : UInt64}
    {done : Unit → Scene → Prop} (hreason : reason.utf8ByteSize ≤ maxDetailBytes)
    (hrollbacks : checkedSucc state.metrics.rollbacks = some rollbacks)
    (hnonce : checkedSucc state.transactionNonce = some nonce)
    (hanswers : ∀ order : RollbackOrder state,
      (surroundings.exchange order.command).Answers order.expected)
    (h : ∀ state, done () (attendedBy state (room + 1))) :
    Completes (quarantine reason) surroundings (attendedBy state (room + 3)) done := by
  refine completes_update (completes_self (completes_orThrow hrollbacks ?_))
  refine completes_update (completes_self (completes_bind ?_))
  refine completes_record rfl (by decide) hreason ?_
  refine completes_self (completes_nextTransactionNonce hnonce (completes_self ?_))
  refine completes_bind (completes_transact rfl
    (hanswers ⟨rollbacks, nonce, hrollbacks, hnonce⟩) ?_)
  refine completes_update (completes_self ?_)
  exact completes_record rfl (by decide) (by decide) (h _)

/-- A quarantine leaves room for what follows. -/
theorem leavesRoom_quarantine {reason : String} (hreason : reason.utf8ByteSize ≤ maxDetailBytes)
    (hwithin : state.Within bound) (hbound : bound + 1 < UInt64.size)
    (hanswers : ∀ order : RollbackOrder state,
      (surroundings.exchange order.command).Answers order.expected) :
    LeavesRoom (quarantine reason) surroundings state room := by
  obtain ⟨rollbacks, hrollbacks⟩ := exists_checkedSucc hwithin.rollbacks hbound
  obtain ⟨nonce, hnonce⟩ := exists_checkedSucc hwithin.transactionNonce hbound
  exact completes_quarantine hreason hrollbacks hnonce hanswers fun _ => ⟨Nat.le_succ room, rfl⟩

/-- A reset leaves room for what follows. -/
theorem leavesRoom_reset (hwithin : state.Within bound) (hbound : bound + 1 < UInt64.size)
    (hanswers : ∀ epoch generation, checkedSucc state.body.epoch = some epoch →
      checkedSucc state.body.generation = some generation →
      ∀ order : RollbackOrder ((state.withEpoch epoch).withGeneration generation),
        (surroundings.exchange order.command).Answers order.expected) :
    LeavesRoom reset surroundings state room := by
  obtain ⟨epoch, hepoch⟩ := exists_checkedSucc hwithin.epoch hbound
  obtain ⟨generation, hgeneration⟩ := exists_checkedSucc hwithin.generation hbound
  obtain ⟨rollbacks, hrollbacks⟩ := exists_checkedSucc hwithin.rollbacks hbound
  obtain ⟨nonce, hnonce⟩ := exists_checkedSucc hwithin.transactionNonce hbound
  refine completes_self (completes_orThrow hepoch (completes_update ?_))
  refine completes_self (completes_orThrow hgeneration (completes_update ?_))
  exact completes_quarantine (by decide) hrollbacks hnonce
    (hanswers epoch generation hepoch hgeneration) fun _ => ⟨Nat.le_succ room, rfl⟩

/-- The detail of an acknowledgement fits into an entry. -/
theorem length_ackDetail (id nonce actions digest : UInt64) :
    (ackDetail id nonce actions digest).utf8ByteSize ≤ maxDetailBytes := by
  have hid := length_decimal_le id
  have hnonce := length_decimal_le nonce
  have hactions := length_decimal_le actions
  have hdigest : (hex16 digest).utf8ByteSize = 16 := by
    rw [← length_utf8, hex16, utf8_paddedHex, List.length_map, length_hexDigits]
  rw [length_utf8] at hid hnonce hactions
  simp only [ackDetail, String.utf8ByteSize_append, hdigest]
  have hwords : "WORK id=".utf8ByteSize + " nonce=".utf8ByteSize + " actions=".utf8ByteSize +
    " digest=".utf8ByteSize + 76 ≤ maxDetailBytes := by decide
  omega

/-- The program's first instruction is bounded work. -/
theorem leavesRoom_commit {units : UInt64} (hwithin : state.Within bound)
    (hbound : bound + 1 < UInt64.size) (hunits : state.reflex.workUnits = some units)
    (hanswers : state.commitDecision surroundings.nowNs = .allow → ∀ order : WorkOrder state,
      (surroundings.exchange order.command).Answers order.expected) :
    LeavesRoom commit surroundings state room := by
  refine completes_self (completes_monotonicNs (completes_update ?_))
  show Completes (if state.commitDecision surroundings.nowNs = .allow then
      commitAllowed (state.commitDecision surroundings.nowNs)
    else commitBlocked (state.commitDecision surroundings.nowNs)) surroundings
    (attendedBy (state.consumed surroundings.nowNs) (room + 3)) _
  by_cases hallowed : state.commitDecision surroundings.nowNs = .allow
  · rw [if_pos hallowed]
    obtain ⟨id, hid⟩ := exists_checkedSucc hwithin.actionCounter hbound
    obtain ⟨actions, hactions⟩ := exists_checkedSucc hwithin.childActions hbound
    obtain ⟨allowedCommits, hcommits⟩ := exists_checkedSucc hwithin.allowedCommits hbound
    obtain ⟨nonce, hnonce⟩ := exists_checkedSucc hwithin.transactionNonce hbound
    refine completes_self (completes_liftResult (checkedCounterIncrement_of_some hid) ?_)
    refine completes_orThrow hactions (completes_orThrow hunits ?_)
    refine completes_nextTransactionNonce hnonce (completes_self ?_)
    refine completes_bind (completes_transact rfl
      (hanswers hallowed ⟨id, actions, units, nonce, hid, hactions, hunits, hnonce⟩) ?_)
    refine completes_bind (completes_pure (completes_self (completes_orThrow hcommits ?_)))
    refine completes_update (completes_self (completes_bind ?_))
    refine completes_record rfl (by decide) (length_ackDetail _ _ _ _) ?_
    exact completes_record rfl (by decide) (by decide) ⟨Nat.le_succ room, rfl⟩
  · rw [if_neg hallowed]
    refine completes_update (completes_self ?_)
    refine completes_record rfl (by decide) ?_ ⟨Nat.le_add_right room 2, rfl⟩
    cases state.commitDecision surroundings.nowNs <;> decide

/-- A probe that is answered comes through. -/
theorem completes_probeConfirmed (hwithin : state.Within bound) (hbound : bound + 1 < UInt64.size)
    {validUntilNs : UInt64} (hdeadline : state.leaseDeadline surroundings.nowNs = .ok validUntilNs)
    (hanswers : ∀ order : ProbeOrder state,
      (surroundings.exchange order.command).Answers order.expected) :
    LeavesRoom probeConfirmed surroundings state.countProbe room := by
  obtain ⟨certificate, hcertificate⟩ := exists_checkedSucc hwithin.certificate hbound
  obtain ⟨generation, hgeneration⟩ := exists_checkedSucc hwithin.generation hbound
  obtain ⟨nonce, hnonce⟩ := exists_checkedSucc hwithin.transactionNonce hbound
  refine completes_self (completes_orThrow hcertificate ?_)
  refine completes_self (completes_orThrow hgeneration ?_)
  refine completes_nextTransactionNonce hnonce (completes_self (completes_self ?_))
  refine completes_bind (completes_record rfl (by decide) (by decide) ?_)
  refine completes_bind (completes_transact rfl
    (hanswers ⟨certificate, generation, nonce, hcertificate, hgeneration, hnonce⟩) ?_)
  refine completes_bind (completes_pure (completes_self (completes_monotonicNs ?_)))
  refine completes_liftResult hdeadline (completes_update (completes_update (completes_self ?_)))
  refine completes_bind (completes_record rfl (by decide) (by decide) ?_)
  exact completes_record rfl (by decide) (by decide) ⟨Nat.le_refl room, rfl⟩

/-- A probe leaves room for what follows. -/
theorem leavesRoom_functionalFreshnessProbe (hwithin : state.Within bound)
    (hbound : bound + 1 < UInt64.size) {validUntilNs : UInt64}
    (hdeadline : state.leaseDeadline surroundings.nowNs = .ok validUntilNs)
    (hanswers : state.body.quarantined = true → state.rollbackConfirmed = true →
      ∀ order : ProbeOrder state, (surroundings.exchange order.command).Answers order.expected) :
    LeavesRoom functionalFreshnessProbe surroundings state room := by
  refine completes_update (completes_self ?_)
  by_cases hrefused : state.countProbe.body.quarantined = false ∨
      state.countProbe.rollbackConfirmed = false
  · refine (if_pos hrefused).symm ▸ ?_
    exact completes_record rfl (by decide) (by decide) ⟨Nat.le_add_right room 2, rfl⟩
  · refine (if_neg hrefused).symm ▸ ?_
    have hconfirmed := not_or.mp hrefused
    simp only [Bool.not_eq_false] at hconfirmed
    exact completes_probeConfirmed hwithin hbound hdeadline (hanswers hconfirmed.1 hconfirmed.2)

/-- The end of a run. -/
theorem completes_conclude (hwithin : state.Within bound) (hbound : bound + 1 < UInt64.size)
    (hanswers : ∀ nonce, checkedSucc state.transactionNonce = some nonce →
      (surroundings.exchange
        (boundStopRequest state.actionCounter nonce state.authoritySnapshot)).Answers
          (.stop state.actionCounter nonce state.authoritySnapshot) ∧
      (surroundings.exit
        (boundStopRequest state.actionCounter nonce state.authoritySnapshot)).Clean) :
    Completes conclude surroundings (attendedBy state (room + 2)) fun _ _ => True := by
  obtain ⟨nonce, hnonce⟩ := exists_checkedSucc hwithin.transactionNonce hbound
  obtain ⟨hanswered, hclean⟩ := hanswers nonce hnonce
  refine completes_self (completes_nextTransactionNonce hnonce (completes_self ?_))
  refine completes_bind (completes_stopChild rfl hanswered hclean ?_)
  refine completes_bind (completes_pure (completes_update (completes_self ?_)))
  rw [← bind_assoc]
  refine completes_bind (completes_recordAndSeal rfl (by decide) (by decide) ?_)
  exact completes_pure trivial

/-! ## Turns -/

/-- A runtime with an attended child and room in its ledger. -/
structure Ready (runtime : Runtime) (room : Nat) : Prop where
  ledger : runtime.ledger.HasRoom room
  attended : runtime.child.isSome = true
  child : ∀ child, runtime.child = some child → child.Attended

/-- A runtime that is ready faces the surroundings of the turn. -/
theorem Ready.shows {runtime : Runtime} {occurrence : Occurrence} (h : runtime.Ready room)
    (houtcomes : ∀ outcome ∈ occurrence.surroundings.ledgerOutcomes, ¬outcome.Fails) :
    World.Shows ⟨runtime.facing occurrence.surroundings.ledgerOutcomes, occurrence.surroundings, []⟩
      occurrence.surroundings (attendedBy runtime.toRuntimeState room) where
  state := rfl
  surroundings := rfl
  ledger := h.ledger.facing houtcomes
  attended := h.attended
  child := h.child

/-- The operation of a signal that does not end the run. -/
def operationOf : Signal → Operation Unit
  | .event .begin => begin
  | .event .commit => commit
  | .event .reset => reset
  | .event .functionalFreshnessProbe => functionalFreshnessProbe
  | .timeout => quarantine "safety lease expired during silence"
  | .event .stop | .disconnected => pure ()

/-- A turn that does not end the run is its operation alone. -/
theorem turn_of_not_ends {signal : Signal} (h : ¬signal.Ends) :
    turn signal = operationOf signal >>= fun _ => pure none := by
  unfold Signal.Ends at h
  cases signal with
  | timeout => rfl
  | disconnected => simp at h
  | event event =>
      cases event with
      | stop => simp at h
      | begin => rfl
      | commit => rfl
      | reset => rfl
      | functionalFreshnessProbe => rfl

/-- A turn whose operation leaves room returns `Ok` and leaves a ready runtime. -/
theorem ready_transition {runtime : Runtime} {occurrence : Occurrence}
    (h : runtime.Ready (room + 3))
    (houtcomes : ∀ outcome ∈ occurrence.surroundings.ledgerOutcomes, ¬outcome.Fails)
    (hsignal : ¬occurrence.signal.Ends)
    (hleaves : LeavesRoom (operationOf occurrence.signal) occurrence.surroundings
      runtime.toRuntimeState room) :
    (runtimeMachine.transition runtime occurrence).output.result = .ok none ∧
      (runtimeMachine.transition runtime occurrence).after.Ready room := by
  have hcompletes := hleaves _ (h.shows houtcomes)
  have hturn : Ends (turn occurrence.signal)
      ⟨runtime.facing occurrence.surroundings.ledgerOutcomes, occurrence.surroundings, []⟩
      (fun result after => result = none ∧ after.runtime.Ready room) (fun _ _ => False) := by
    rw [turn_of_not_ends hsignal, ends_bind]
    refine hcompletes.imp ?_
    rintro _ after ⟨scene, hshows, hroom, hattended⟩
    exact ⟨rfl, hshows.ledger.le hroom, hshows.attended.trans hattended, hshows.child⟩
  obtain ⟨result, after, hresult, rfl, hready⟩ := hturn.exists_ok
  simp only [Machine.transition, runtimeMachine, hresult]
  exact ⟨trivial, hready⟩

/-- The last turn of a run returns the metrics. -/
theorem ready_conclusion {runtime : Runtime} {occurrence : Occurrence}
    (h : runtime.Ready (room + 2))
    (houtcomes : ∀ outcome ∈ occurrence.surroundings.ledgerOutcomes, ¬outcome.Fails)
    (hsignal : occurrence.signal.Ends)
    (hconcludes : Completes conclude occurrence.surroundings
      (attendedBy runtime.toRuntimeState (room + 2)) fun _ _ => True) :
    ∃ metrics, (runtimeMachine.transition runtime occurrence).output.result =
      .ok (some metrics) := by
  have hcompletes := hconcludes _ (h.shows houtcomes)
  have hturn : Ends (turn occurrence.signal)
      ⟨runtime.facing occurrence.surroundings.ledgerOutcomes, occurrence.surroundings, []⟩
      (fun result _ => ∃ metrics, result = some metrics) (fun _ _ => False) := by
    rcases hsignal with hsignal | hsignal <;>
      (rw [hsignal]; exact ends_bind.mpr (hcompletes.imp fun metrics _ _ => ⟨metrics, rfl⟩))
  obtain ⟨result, after, hresult, metrics, rfl⟩ := hturn.exists_ok
  refine ⟨metrics, ?_⟩
  simp only [Machine.transition, runtimeMachine, hresult]

/-! ## Construction -/

/-- A startup in which nothing fails and the child says nothing but its HELLO. -/
structure Calm (startup : Startup) : Prop where
  created : startup.created = .ok ()
  greeting : ∃ processId line, startup.spawned = .ok processId ∧
    line ++ "\n" = hello processId.toUInt64 ∧ startup.greeting = [.line line]
  clock : startup.surroundings.nowNs.toNat + defaultLeaseNs.toNat < UInt64.size
  ledger : ∀ outcome ∈ startup.surroundings.ledgerOutcomes, ¬outcome.Fails

/-- A lease has a deadline as long as the clock has room. -/
theorem leaseDeadline_isOk {nowNs : UInt64} (hprogram : state.reflex = program)
    (hclock : nowNs.toNat + defaultLeaseNs.toNat < UInt64.size) :
    ∃ validUntilNs, state.leaseDeadline nowNs = .ok validUntilNs := by
  refine ⟨nowNs + defaultLeaseNs, ?_⟩
  have hrange : leaseInRange defaultLeaseNs := by decide
  have hadd : checkedAdd nowNs defaultLeaseNs = some (nowNs + defaultLeaseNs) := if_pos hclock
  have hdeadline : checkedLeaseDeadline nowNs program.leaseNs = .ok (nowNs + defaultLeaseNs) := by
    simp [checkedLeaseDeadline, program, hrange, failIf, hadd, pure, Except.pure]
  rw [RuntimeState.leaseDeadline, hprogram, hdeadline]
  rfl

/-- A lease is installed and takes one place of the ledger. -/
theorem completes_installLease {validUntilNs : UInt64}
    (hdeadline : state.leaseDeadline surroundings.nowNs = .ok validUntilNs) :
    Completes installLease surroundings (attendedBy state (room + 1))
      fun _ scene => scene.room = room ∧ scene.attended = true := by
  refine completes_self (completes_monotonicNs (completes_liftResult hdeadline ?_))
  refine completes_update (completes_self ?_)
  exact completes_record rfl (by decide) (by decide) ⟨rfl, rfl⟩

/-- A calm start comes through with a lease and a ledger with room. -/
theorem launch_calm {startup : Startup} {reflex : ReflexProgram} {processId : UInt32}
    {line : String} {validUntilNs : UInt64} (hline : line ++ "\n" = hello processId.toUInt64)
    (hgreeting : startup.greeting = [.line line])
    (houtcomes : ∀ outcome ∈ startup.surroundings.ledgerOutcomes, ¬outcome.Fails)
    (hdeadline : (initialState reflex).leaseDeadline startup.surroundings.nowNs = .ok validUntilNs)
    (hroom : room + 1 < UInt64.size) :
    ∃ runtime effects, launch startup reflex processId = .ok (runtime, effects) ∧
      runtime.Ready room := by
  have hexpect : Ends (Connection.expectHello startup processId) ⟨spawnedChild processId, []⟩
      (fun _ after => after.child.Attended) (fun _ _ => False) := by
    have hvalid := validateHello_eq_ok.mpr hline
    simp only [Connection.expectHello, ends_bind, Connection.deliver, ends_modify, hgreeting,
      spawnedChild, List.nil_append, Connection.receive, ends_get, Connection.onChild, ends_pure,
      Connection.acceptHello, hvalid, Connection.emit]
    exact ⟨rfl, rfl⟩
  obtain ⟨_, connection, hconnection, hattended⟩ := hexpect.exists_ok
  have hshows : (initialWorld startup reflex connection).Shows startup.surroundings
      (attendedBy (initialState reflex) (room + 1)) := {
    state := rfl
    surroundings := rfl
    ledger := (Ledger.create_hasRoom hroom).facing houtcomes
    attended := rfl
    child := by
      rintro _ ⟨⟩
      exact hattended }
  obtain ⟨_, world, hworld, scene, hafter, hleft, hchild⟩ :=
    (completes_installLease hdeadline _ hshows).exists_ok
  refine ⟨world.runtime, world.effects, ?_, hleft ▸ hafter.ledger, hafter.attended.trans hchild,
    hafter.child⟩
  simp only [launch, hconnection, hworld]

/-- A calm construction succeeds. -/
theorem new_calm {startup : Startup} (h : Calm startup) (hroom : room + 1 < UInt64.size) :
    ∃ runtime effects, new startup = .ok (runtime, effects) ∧ runtime.Ready room := by
  obtain ⟨processId, line, hspawned, hline, hgreeting⟩ := h.greeting
  obtain ⟨validUntilNs, hdeadline⟩ :=
    @leaseDeadline_isOk (initialState program) startup.surroundings.nowNs rfl h.clock
  obtain ⟨runtime, effects, hlaunch, hready⟩ :=
    launch_calm hline hgreeting h.ledger hdeadline hroom
  refine ⟨runtime, effects, ?_, hready⟩
  unfold new
  rw [compilePolicy_policy, h.created, hspawned]
  exact hlaunch

/-- Every call succeeds, and the child exits when asked. -/
def calmReaping : Reaping := ⟨.ok true, .ok (), .ok (), false⟩

/-- Every request is answered by these messages. -/
def calmSurroundings (nowNs : UInt64) (early late : List ReaderMessage) : Surroundings where
  nowNs := nowNs
  exchange := fun _ => ⟨early, .ok (), late, false, calmReaping⟩
  exit := fun _ => ⟨[.ok (some ⟨true, "exit status: 0"⟩)], false, [.eof], calmReaping⟩
  ledgerOutcomes := []

def calmStartup : Startup where
  created := .ok ()
  spawned := .ok 1
  greeting := [.line (trimEndNewlines (hello 1))]
  disconnected := false
  reaping := calmReaping
  surroundings := calmSurroundings 0 [] []

theorem calm_calmStartup : Calm calmStartup where
  created := rfl
  greeting := ⟨1, trimEndNewlines (hello 1), rfl, (frame_eq _ _).symm, rfl⟩
  clock := by decide
  ledger := by simp [calmStartup, calmSurroundings]

end Runtime

end Oasi
