import Oasi.Runtime.Refinement

/-! # New runtimes

A new runtime has taken the child's HELLO from the queue, holds the lease that
covers its body, and has nothing pending.
-/

namespace Oasi

namespace Connection

theorem acceptHello_ends (reaping : Reaping) (processId : UInt32) (received : Received)
    (connection : Connection) :
    Ends (acceptHello reaping processId received) connection
      (fun _ after => ∃ line, received = .message (.line line) ∧
        line ++ "\n" = hello processId.toUInt64 ∧ after.child = connection.child ∧
        after.effects = connection.effects ++ [.greeted line])
      (fun _ _ => True) := by
  have hcleanup : ∀ kind message, Ends (cleanupError reaping kind message) connection
      (fun _ after => ∃ line, received = .message (.line line) ∧
        line ++ "\n" = hello processId.toUInt64 ∧ after.child = connection.child ∧
        after.effects = connection.effects ++ [.greeted line])
      (fun _ _ => True) := fun kind message =>
    (cleanupError_ends reaping kind message connection).mono (fun _ _ hfalse => hfalse.elim)
      fun _ _ _ => trivial
  cases received with
  | timeout => exact hcleanup _ _
  | disconnected => exact hcleanup _ _
  | message message =>
      cases message with
      | eof => exact hcleanup _ _
      | error kind text => exact hcleanup _ _
      | line line =>
          cases hvalid : validateHello line processId.toUInt64 with
          | error error =>
              simp only [acceptHello, hvalid]
              exact hcleanup _ _
          | ok _ =>
              have hline := validateHello_eq_ok.mp hvalid
              simpa [acceptHello, hvalid, emit] using hline

/-- The HELLO is the first message of the child. -/
theorem expectHello_ends (startup : Startup) (processId : UInt32) :
    Ends (expectHello startup processId) ⟨Runtime.spawnedChild processId, []⟩
      (fun _ after => ∃ line rest, line ++ "\n" = hello processId.toUInt64 ∧
        startup.greeting = .line line :: rest ∧
        after.child = { Runtime.spawnedChild processId with responses := rest } ∧
        after.effects = deliveries startup.greeting ++ [.greeted line])
      (fun _ _ => True) := by
  simp only [expectHello, ends_bind, deliver, ends_modify]
  refine (receive_ends startup.disconnected _).mono ?_ (fun _ _ hfalse => hfalse.elim)
  rintro received middle ⟨heffects, hmessage⟩
  refine (acceptHello_ends startup.reaping processId received middle).imp ?_
  rintro _ after ⟨line, rfl, hline, hchild, hafter⟩
  obtain ⟨rest, hresponses, hmiddle⟩ := hmessage _ rfl
  exact ⟨line, rest, hline, hresponses, by rw [hchild, hmiddle], by rw [hafter, heffects]; rfl⟩

end Connection

namespace Runtime

theorem installLease_ends (world : World) :
    Ends installLease world
      (fun _ after => ∃ validUntilNs,
        world.runtime.leaseDeadline world.surroundings.nowNs = .ok validUntilNs ∧
        after.runtime.toRuntimeState =
          world.runtime.withLease (world.runtime.leaseUntil validUntilNs) ∧
        after.runtime.child = world.runtime.child ∧
        after.effects = world.effects ++ [after.runtime.records "LEASE_INSTALLED"
          "PolicyIr lease duration applied with checked monotonic addition" .allow
          after.runtime.activeLease])
      (fun _ _ => True) := by
  simp only [installLease, self, monotonicNs, update, ends_bind, ends_get, ends_pure,
    ends_liftResult, ends_modify, implies_true, and_true]
  intro validUntilNs hdeadline
  refine (callLedger_ends _ _).mono ?_ (fun _ _ _ => trivial)
  rintro _ _ ⟨ledger, rfl⟩
  exact ⟨validUntilNs, hdeadline, rfl, rfl, rfl⟩

theorem launch_eq_ok {startup : Startup} {reflex : ReflexProgram} {processId : UInt32}
    {runtime : Runtime} {effects : List Effect}
    (h : launch startup reflex processId = .ok (runtime, effects)) :
    (∃ validUntilNs,
      (initialState reflex).leaseDeadline startup.surroundings.nowNs = .ok validUntilNs ∧
      runtime.toRuntimeState =
        (initialState reflex).withLease ((initialState reflex).leaseUntil validUntilNs)) ∧
    ∃ line rest, line ++ "\n" = hello processId.toUInt64 ∧ startup.greeting = .line line :: rest ∧
      runtime.child = some { spawnedChild processId with responses := rest } ∧
      effects = deliveries startup.greeting ++ [.greeted line,
        runtime.records "LEASE_INSTALLED"
          "PolicyIr lease duration applied with checked monotonic addition" .allow
          runtime.activeLease] := by
  unfold launch at h
  have hhello := Connection.expectHello_ends startup processId
  cases hexpect : Connection.expectHello startup processId ⟨spawnedChild processId, []⟩ with
  | error error connection => simp [hexpect] at h
  | ok _ connection =>
      obtain ⟨line, rest, hline, hgreeting, hchild, heffects⟩ := hhello.of_ok hexpect
      have hinstalls := installLease_ends (initialWorld startup reflex connection)
      cases hinstall : installLease (initialWorld startup reflex connection) with
      | error error world => simp [hexpect, hinstall] at h
      | ok _ world =>
          obtain ⟨validUntilNs, hdeadline, hstate, hworldChild, hworldEffects⟩ :=
            hinstalls.of_ok hinstall
          simp only [hexpect, hinstall, Except.ok.injEq, Prod.mk.injEq] at h
          obtain ⟨rfl, rfl⟩ := h
          refine ⟨⟨validUntilNs, hdeadline, hstate⟩, line, rest, hline, hgreeting, ?_, ?_⟩
          · rw [hworldChild]
            exact congrArg some hchild
          · rw [hworldEffects, initialWorld, heffects, List.append_assoc]
            rfl

/-- The program that the runtime's policy compiles to. -/
def program : ReflexProgram where
  reflexId := 1
  instructions := [.work 5000]
  principalId := principalId
  resourceId := resourceId
  actionId := actionId
  leaseNs := defaultLeaseNs

theorem compilePolicy_policy : compilePolicy policy = .ok program := by
  decide +kernel

/-- What a successful construction returns. -/
structure Launched (startup : Startup) (runtime : Runtime) (effects : List Effect) : Prop where
  state : ∃ validUntilNs,
    (initialState program).leaseDeadline startup.surroundings.nowNs = .ok validUntilNs ∧
    runtime.toRuntimeState =
      (initialState program).withLease ((initialState program).leaseUntil validUntilNs)
  child : ∃ processId line rest, startup.spawned = .ok processId ∧
    line ++ "\n" = hello processId.toUInt64 ∧ startup.greeting = .line line :: rest ∧
    runtime.child = some { spawnedChild processId with responses := rest } ∧
    effects = deliveries startup.greeting ++ [.greeted line,
      runtime.records "LEASE_INSTALLED"
        "PolicyIr lease duration applied with checked monotonic addition" .allow
        runtime.activeLease]

theorem launched_of_new {startup : Startup} {runtime : Runtime} {effects : List Effect}
    (h : new startup = .ok (runtime, effects)) : Launched startup runtime effects := by
  unfold new at h
  rw [compilePolicy_policy] at h
  simp only [bind_eq_ok, Except.mapError, Except.ok.injEq, exists_eq_left'] at h
  obtain ⟨_, _, processId, hspawned, hlaunch⟩ := h
  obtain ⟨hstate, line, rest, hline, hgreeting, hchild, heffects⟩ := launch_eq_ok hlaunch
  exact ⟨hstate, processId, line, rest, hspawned, hline, hgreeting, hchild, heffects⟩

end Runtime

end Oasi
