import Oasi.Foundation.Checked

/-! # Policies and reflex programs

A policy is compiled to a reflex program of one instruction. Compilation and
verification check the same bounds, so a compiled program always verifies.
-/

namespace Oasi

def maxLeaseNs : UInt64 := 1000000000
def minLeaseNs : UInt64 := 1
def maxWorkUnits : UInt64 := 1000000

inductive Goal where
  | executeChildWork (units : UInt64)
  | pauseChild
  deriving DecidableEq, Repr

structure PolicyIr where
  policyId : UInt64
  principalId : UInt64
  resourceId : UInt64
  actionId : UInt64
  goal : Goal
  maxUnits : UInt64
  leaseNs : UInt64
  rollbackRequired : Bool
  deriving DecidableEq, Repr

inductive ReflexInstruction where
  | work (units : UInt64)
  | pause
  deriving DecidableEq, Repr

structure ReflexProgram where
  reflexId : UInt64
  instructions : List ReflexInstruction
  principalId : UInt64
  resourceId : UInt64
  actionId : UInt64
  leaseNs : UInt64
  deriving DecidableEq, Repr

/-- The failures of compilation; the source never reports `identityMismatch`. -/
inductive CompileError where
  | emptyProgram
  | tooManyInstructions
  | workBudgetOutOfRange
  | leaseDurationOutOfRange
  | missingRollback
  | identityMismatch
  deriving DecidableEq, Repr

/-- `(MIN_LEASE_NS..=MAX_LEASE_NS).contains(&lease_ns)`. -/
def leaseInRange (leaseNs : UInt64) : Prop := minLeaseNs ≤ leaseNs ∧ leaseNs ≤ maxLeaseNs

instance (leaseNs : UInt64) : Decidable (leaseInRange leaseNs) :=
  inferInstanceAs (Decidable (_ ∧ _))

/-- The instruction's work stays within the budget. -/
def ReflexInstruction.InBudget : ReflexInstruction → Prop
  | .work units => units ≠ 0 ∧ units ≤ maxWorkUnits
  | .pause => True

instance (instruction : ReflexInstruction) : Decidable instruction.InBudget :=
  match instruction with
  | .work _ => inferInstanceAs (Decidable (_ ∧ _))
  | .pause => inferInstanceAs (Decidable True)

def verifyReflex (program : ReflexProgram) : Except CompileError Unit := do
  failIf (program.instructions = []) .emptyProgram
  failIf (program.instructions.length > 8) .tooManyInstructions
  failIf (¬leaseInRange program.leaseNs) .leaseDurationOutOfRange
  failIf (∃ instruction ∈ program.instructions, ¬instruction.InBudget) .workBudgetOutOfRange

/-- The instruction that carries out a policy's goal. -/
def compileGoal (policy : PolicyIr) : Except CompileError ReflexInstruction :=
  match policy.goal with
  | .executeChildWork units =>
      if units = 0 ∨ units > policy.maxUnits ∨ policy.maxUnits > maxWorkUnits then
        .error .workBudgetOutOfRange
      else .ok (.work units)
  | .pauseChild => .ok .pause

def compilePolicy (policy : PolicyIr) : Except CompileError ReflexProgram := do
  failIf (policy.rollbackRequired = false) .missingRollback
  failIf (¬leaseInRange policy.leaseNs) .leaseDurationOutOfRange
  let instruction ← compileGoal policy
  let program : ReflexProgram := {
    reflexId := policy.policyId
    instructions := [instruction]
    principalId := policy.principalId
    resourceId := policy.resourceId
    actionId := policy.actionId
    leaseNs := policy.leaseNs }
  verifyReflex program
  return program

theorem inBudget_of_compileGoal {policy : PolicyIr} {instruction : ReflexInstruction}
    (h : compileGoal policy = .ok instruction) : instruction.InBudget := by
  unfold compileGoal at h
  split at h
  · split at h
    · cases h
    next hbounds =>
      rw [not_or, not_or, UInt64.not_lt, UInt64.not_lt] at hbounds
      cases h
      exact ⟨hbounds.1, UInt64.le_trans hbounds.2.1 hbounds.2.2⟩
  · cases h
    trivial

/-- A compiled program carries the policy's identities and lease duration, holds
one instruction within the budget, and verifies. -/
theorem compilePolicy_eq_ok {policy : PolicyIr} {program : ReflexProgram}
    (h : compilePolicy policy = .ok program) :
    program.principalId = policy.principalId ∧ program.resourceId = policy.resourceId ∧
      program.actionId = policy.actionId ∧ program.leaseNs = policy.leaseNs ∧
      leaseInRange program.leaseNs ∧
      (∃ instruction, program.instructions = [instruction] ∧ instruction.InBudget) ∧
      verifyReflex program = .ok () := by
  unfold compilePolicy at h
  simp only [bind_eq_ok, failIf_eq_ok] at h
  obtain ⟨_, _, _, hlease, instruction, hinstruction, _, hverified, hprogram⟩ := h
  cases hprogram
  exact ⟨rfl, rfl, rfl, rfl, not_not.mp hlease,
    ⟨instruction, rfl, inBudget_of_compileGoal hinstruction⟩, hverified⟩

end Oasi
