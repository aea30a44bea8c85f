import Mathlib.Data.List.Perm.Subperm
import Oasi.Broker.Schedules
import Oasi.Broker.Sharing

/-! # The attempt is consumed once

Whatever handles do to one ledger, with crashes and errors of the environment
anywhere, the attempt is consumed at most once, and the tables, the chain of
events and the recovery table tell the same story.
-/

namespace Oasi.Broker

/-! ## Runs -/

/-- The systems that any interleaving leads to, with crashes and errors of the
environment anywhere. -/
def Reachable (image : Database → Bytes) (system : System) : Prop :=
  Relation.ReflTransGen (StepOrCrash (Acts image)) .start system

theorem governs_start (image : Database → Bytes) : (discipline image).Governs .start := by
  constructor
  · refine ⟨⟨.absent, ⟨rfl, rfl⟩, rfl⟩, ?_, ?_, ?_⟩
    · intro holder pending h
      cases h
    · intro handle
      exact Nat.le_refl 0
    · intro handle
      exact Nat.le_refl 0
  · intro handle
    exact ⟨(fun pending h => by cases h), fun hready => by cases hready⟩

theorem governs_of_reachable {image : Database → Bytes} {system : System}
    (hreachable : Reachable image system) : (discipline image).Governs system := by
  induction hreachable with
  | refl => exact governs_start image
  | tail _ hstep ih =>
      cases hstep with
      | step hstep => exact ih.step hstep
      | crash handle =>
          obtain ⟨hkeeps, hidle⟩ := @keeps_release image handle _ ih.invariant
          exact ih.set hkeeps ⟨hidle, fun hready => by cases hready⟩

theorem reachable_follow (image : Database → Bytes) (choices : List Choice) :
    Reachable image (System.start.follow image choices) := by
  apply Relation.ReflTransGen.mono _ _ _ (System.follow_steps .start choices)
  intro before after hstep
  exact .step (hstep.mono fun _ _ _ _ _ hworks => hworks.acts)

/-- A list in which every owner stands no more often than in another one is no longer. -/
theorem length_le_of_count_le {first second : List Handle}
    (h : ∀ handle, first.count handle ≤ second.count handle) : first.length ≤ second.length :=
  (List.subperm_ext_iff.mpr fun handle _ => h handle).length_le

/-- In every history at most one `consume()` returns normally, so that the
effect is applied at most once. -/
theorem consume_returns_once {image : Database → Bytes} {system : System}
    (hreachable : Reachable image system) :
    system.world.consumers.length ≤ 1 ∧ system.world.appliers.length ≤ 1 := by
  have hsound : system.world.Sound := (governs_of_reachable hreachable).invariant
  obtain ⟨phase, _, hcount⟩ := hsound.phase
  have honce : phase.dispatchCount ≤ 1 := by cases phase <;> simp [Phase.dispatchCount]
  have hconsumed := length_le_of_count_le hsound.consumed
  have happlied := length_le_of_count_le hsound.applied
  omega

/-- Two handles race for one attempt: the second one consumes it and applies the
effect, the first one is refused. -/
theorem consume_returns_once_in_a_race :
    ∃ system, Reachable Database.countChanges system ∧ system.world.consumers = [1] ∧
      system.world.appliers = [1] ∧ system.world.consumers.length ≤ 1 ∧
      system.world.appliers.length ≤ 1 :=
  ⟨System.start.follow Database.countChanges race, reachable_follow _ race, by decide +kernel,
    by decide +kernel, consume_returns_once (reachable_follow _ race)⟩

end Oasi.Broker
