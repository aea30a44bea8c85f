import Oasi.Runtime.Child

/-! # What a transaction leaves behind

A transaction that succeeds has written its request and taken the oldest message
of the queue, which is the canonical acknowledgement; nothing says when that
message was delivered. A transaction that fails has written at most its request.
-/

namespace Oasi

/-- The effects of a transaction that has not accepted an acknowledgement. -/
def Unanswered (command : String) (effects : List Effect) : Prop :=
  ∃ early late, effects = deliveries early ∨
    effects = deliveries early ++ .sent command :: deliveries late

/-- The effects of a transaction that has accepted one. -/
def Answered (command : String) (expected : BoundExpectedAck) (effects : List Effect) : Prop :=
  ∃ early late line, line ++ "\n" = expected.canonical ∧
    effects = deliveries early ++ .sent command :: deliveries late ++ [.accepted line]

theorem mem_deliveries {messages : List ReaderMessage} {effect : Effect} :
    effect ∈ deliveries messages ↔ ∃ message ∈ messages, effect = .delivered message := by
  simp only [deliveries, List.mem_map, eq_comm]

namespace Connection

/-- The computation logs nothing. -/
def Quiet {α : Type} (action : Action α) : Prop :=
  ∀ connection, Ends action connection (fun _ after => after.effects = connection.effects)
    (fun _ after => after.effects = connection.effects)

theorem quiet_onChild (change : ChildProcess → ChildProcess) : Quiet (onChild change) := by
  intro connection
  simp [onChild]

theorem quiet_liftResult {α : Type} (result : Except IoError α) : Quiet (liftResult result) := by
  intro connection
  simp

theorem Quiet.bind {α β : Type} {first : Action α} {second : α → Action β} (hfirst : Quiet first)
    (hsecond : ∀ value, Quiet (second value)) : Quiet (first >>= second) := by
  intro connection
  rw [ends_bind]
  refine (hfirst connection).imp fun value middle hmiddle => ?_
  refine (hsecond value middle).mono ?_ ?_
  · intro _ after hafter
    rw [hafter, hmiddle]
  · intro _ after hafter
    rw [hafter, hmiddle]

theorem quiet_pure {α : Type} (value : α) : Quiet (pure value) := fun _ => rfl

theorem quiet_get : Quiet (get : Action Connection) := fun _ => rfl

theorem Quiet.ite {condition : Prop} [Decidable condition] {α : Type} {first second : Action α}
    (hfirst : Quiet first) (hsecond : Quiet second) :
    Quiet (if condition then first else second) := by
  by_cases h : condition
  · rwa [if_pos h]
  · rwa [if_neg h]

theorem quiet_reap (reaping : Reaping) : Quiet (reap reaping) := by
  refine (quiet_liftResult _).bind fun exited => ?_
  refine Quiet.ite ?_ (quiet_onChild _)
  exact (quiet_liftResult _).bind fun _ => (quiet_liftResult _).bind fun _ => quiet_onChild _

theorem quiet_joinReader (readerPanicked : Bool) : Quiet (joinReader readerPanicked) :=
  quiet_get.bind fun _ =>
    Quiet.ite ((quiet_onChild _).bind fun _ => quiet_liftResult _) (quiet_pure _)

theorem quiet_terminateAndReap (reaping : Reaping) : Quiet (terminateAndReap reaping) :=
  (quiet_onChild _).bind fun _ => quiet_get.bind fun _ =>
    Quiet.ite ((quiet_reap reaping).bind fun _ => quiet_joinReader _) (quiet_joinReader _)

/-- A cleanup fails, whatever the operating system answers, and logs nothing. -/
theorem cleanupError_ends (reaping : Reaping) (kind : IoErrorKind) (message : String)
    (connection : Connection) :
    Ends (cleanupError reaping kind message) connection (fun _ _ => False)
      (fun _ after => after.effects = connection.effects) := by
  simp only [cleanupError, ends_bind, ends_attempt]
  refine (quiet_terminateAndReap reaping connection).mono ?_ ?_
  · intro _ after hafter
    simpa using hafter
  · intro cleanup after hafter
    simpa using hafter

/-! ## Requests -/

theorem receive_ends (disconnected : Bool) (connection : Connection) :
    Ends (receive disconnected) connection
      (fun received after => after.effects = connection.effects ∧
        ∀ message, received = .message message →
          ∃ rest, connection.child.responses = message :: rest ∧
            after.child = { connection.child with responses := rest })
      (fun _ _ => False) := by
  simp only [receive, ends_bind, ends_get]
  cases hresponses : connection.child.responses with
  | nil =>
      cases disconnected <;> simp
  | cons message rest => simp [onChild]

theorem acceptBound_ends (reaping : Reaping) (expected : BoundExpectedAck) (received : Received)
    (connection : Connection) :
    Ends (acceptBound reaping expected received) connection
      (fun _ after => ∃ line, received = .message (.line line) ∧
        line ++ "\n" = expected.canonical ∧ after.child = connection.child ∧
        after.effects = connection.effects ++ [.accepted line])
      (fun _ after => after.effects = connection.effects) := by
  have hcleanup : ∀ kind message, Ends (cleanupError reaping kind message) connection
      (fun _ after => ∃ line, received = .message (.line line) ∧
        line ++ "\n" = expected.canonical ∧ after.child = connection.child ∧
        after.effects = connection.effects ++ [.accepted line])
      (fun _ after => after.effects = connection.effects) := fun kind message =>
    (cleanupError_ends reaping kind message connection).imp fun _ _ hfalse => hfalse.elim
  cases received with
  | timeout => exact hcleanup _ _
  | disconnected => exact hcleanup _ _
  | message message =>
      cases message with
      | eof => exact hcleanup _ _
      | error kind text => exact hcleanup _ _
      | line line =>
          cases hvalid : validateBoundAck line expected with
          | error error =>
              simp only [acceptBound, hvalid]
              exact hcleanup _ _
          | ok _ =>
              have hline := validateBoundAck_eq_ok.mp hvalid
              simpa [acceptBound, hvalid, emit] using hline

/-- An accepted acknowledgement is the oldest message of the queue. -/
theorem transactBound_ends (exchange : Exchange) (command : String) (expected : BoundExpectedAck)
    (connection : Connection) :
    Ends (transactBound exchange command expected) connection
      (fun _ after => ∃ line rest, line ++ "\n" = expected.canonical ∧
        after.effects = connection.effects ++ (deliveries exchange.early ++
          .sent command :: deliveries exchange.late ++ [.accepted line]) ∧
        connection.child.responses ++ exchange.early ++ exchange.late = .line line :: rest ∧
        after.child = { connection.child with responses := rest })
      (fun _ after => ∃ effects, after.effects = connection.effects ++ effects ∧
        Unanswered command effects) := by
  simp only [transactBound, ends_bind, deliver, ends_modify, writeCommand, ends_get, ends_ite]
  refine ⟨fun _ => ?_, fun _ => ?_⟩
  · simp only [emit, ends_modify, ends_pure]
    cases hwritten : exchange.written with
    | error error =>
        refine (cleanupError_ends _ _ _ _).mono (fun _ _ hfalse => hfalse.elim) ?_
        intro _ after hafter
        exact ⟨_, by simpa [deliveries] using hafter, exchange.early, [], .inr rfl⟩
    | ok _ =>
        simp only [ends_bind, ends_modify]
        refine (receive_ends exchange.disconnected _).mono ?_ (fun _ _ hfalse => hfalse.elim)
        rintro received middle ⟨heffects, hmessage⟩
        refine (acceptBound_ends exchange.reaping expected received middle).mono ?_ ?_
        · rintro _ after ⟨line, rfl, hline, hchild, hafter⟩
          obtain ⟨rest, hresponses, hmiddle⟩ := hmessage _ rfl
          exact ⟨line, rest, hline, by simp [hafter, heffects], hresponses,
            by rw [hchild, hmiddle]⟩
        · intro _ after hafter
          refine ⟨_, ?_, exchange.early, exchange.late, .inr rfl⟩
          simp [hafter, heffects]
  · rw [ends_pure]
    refine (cleanupError_ends _ _ _ _).mono (fun _ _ hfalse => hfalse.elim) ?_
    intro _ after hafter
    exact ⟨_, hafter, exchange.early, [], .inl rfl⟩

/-! ## The exit -/

theorem drain_eq_ok {messages : List ReaderMessage} :
    drain false messages = .ok () ↔ messages = [.eof] := by
  cases messages with
  | nil => simp [drain]
  | cons message rest =>
      cases message with
      | line line => simp [drain]
      | error kind text => simp [drain]
      | eof =>
          cases rest with
          | nil => simp [drain]
          | cons second rest => cases second <;> simp [drain]

theorem quiet_awaitExit (reaping : Reaping)
    (polls : List (Except IoError (Option ExitStatus))) (connection : Connection) :
    Ends (awaitExit reaping polls) connection
      (fun _ after => after.effects = connection.effects ∧
        after.child.responses = connection.child.responses)
      (fun _ after => after.effects = connection.effects) := by
  induction polls with
  | nil =>
      exact (cleanupError_ends _ _ _ _).imp fun _ _ hfalse => hfalse.elim
  | cons poll polls ih =>
      cases poll with
      | error error => simp [awaitExit]
      | ok status =>
          cases status with
          | none => exact ih
          | some status => simp [awaitExit, onChild]

theorem joinReader_ends (readerPanicked : Bool) (connection : Connection) :
    Ends (joinReader readerPanicked) connection
      (fun _ after => after.effects = connection.effects ∧
        after.child.responses = connection.child.responses)
      (fun _ after => after.effects = connection.effects) := by
  simp [joinReader, onChild]

/-- A clean exit leaves nothing in the queue but the end of the output. -/
theorem waitForCleanExit_ends (exit : ExitWait) (connection : Connection) :
    Ends (waitForCleanExit exit) connection
      (fun _ after => after.effects = connection.effects ++ deliveries exit.remaining ∧
        connection.child.responses ++ exit.remaining = [.eof])
      (fun _ after => ∃ effects, after.effects = connection.effects ++ effects ∧
        ∀ effect ∈ effects, ∃ message, effect = .delivered message) := by
  simp only [waitForCleanExit, ends_bind, onChild, ends_modify]
  refine (quiet_awaitExit exit.reaping exit.polls _).mono ?_ ?_
  · rintro _ waited ⟨hwaited, hwaitedQueue⟩
    refine (joinReader_ends exit.readerPanicked waited).mono ?_ ?_
    · rintro _ joined ⟨hjoined, hjoinedQueue⟩
      simp only [deliver, ends_modify, ends_get, ends_liftResult]
      refine ⟨fun _ hdrain => ?_, fun _ _ => ?_⟩
      · rw [drain_eq_ok] at hdrain
        refine ⟨by simp [hjoined, hwaited], ?_⟩
        rw [← hdrain, hjoinedQueue, hwaitedQueue]
      · refine ⟨deliveries exit.remaining, by simp [hjoined, hwaited], ?_⟩
        intro effect heffect
        obtain ⟨message, _, heffect⟩ := mem_deliveries.mp heffect
        exact ⟨message, heffect⟩
    · intro _ after hafter
      exact ⟨[], by simp [hafter, hwaited], by simp⟩
  · intro _ after hafter
    exact ⟨[], by simp [hafter], by simp⟩

end Connection

end Oasi
