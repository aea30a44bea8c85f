import Mathlib.Logic.Relation
import Oasi.Foundation.Interference

/-! # Processes that share a world

Each process runs one program from its start to its end, and may be cut off anywhere
in between. Any number of them run at the same time, one atomic action after the
other. When every program that may be started is safe, the shared invariant holds
throughout.
-/

namespace Oasi

variable {Agent World Action : Type} {Reply : Action → Type} {Value : Type}

inductive Process (Action : Type) (Reply : Action → Type) (Value : Type) where
  | unborn
  | running (rest : Program Action Reply Value)
  | ended

structure Processes (Agent World Action : Type) (Reply : Action → Type) (Value : Type) where
  world : World
  status : Agent → Process Action Reply Value

/-- What processes do to a world, and which programs they are started with. -/
structure Launching (Agent World Action : Type) (Reply : Action → Type) (Value : Type) where
  Performs : Agent → World → (action : Action) → Reply action → World → Prop
  Program : Agent → Program Action Reply Value → Prop
  /-- What the end of a process, of its own accord or not, does to the world. -/
  release : Agent → World → World

namespace Processes

variable [DecidableEq Agent] (launching : Launching Agent World Action Reply Value)

/-- A world before any process. -/
def start (world : World) : Processes Agent World Action Reply Value := ⟨world, fun _ => .unborn⟩

def set (processes : Processes Agent World Action Reply Value) (agent : Agent)
    (status : Process Action Reply Value) (world : World) :
    Processes Agent World Action Reply Value where
  world := world
  status := fun other => if other = agent then status else processes.status other

inductive Step (processes : Processes Agent World Action Reply Value) :
    Processes Agent World Action Reply Value → Prop where
  | starts {agent : Agent} {program : Program Action Reply Value}
      (hstatus : processes.status agent = .unborn) (hprogram : launching.Program agent program) :
      Step processes (processes.set agent (.running program) processes.world)
  | acts {agent : Agent} {action : Action} {next : Reply action → Program Action Reply Value}
      {reply : Reply action} {after : World}
      (hstatus : processes.status agent = .running (.act action next))
      (hperforms : launching.Performs agent processes.world action reply after) :
      Step processes (processes.set agent (.running (next reply)) after)
  | ends {agent : Agent} {rest : Program Action Reply Value}
      (hstatus : processes.status agent = .running rest) :
      Step processes (processes.set agent .ended (launching.release agent processes.world))

/-- What any interleaving leads to, with processes cut off anywhere. -/
def Reachable (world : World) : Processes Agent World Action Reply Value → Prop :=
  Relation.ReflTransGen (Step launching) (start world)

variable {launching}

/-- A process that runs alone gets through the first part of its program. The others stand
where they stood. -/
theorem reachable_of_bind {First : Type} {world : World}
    {processes : Processes Agent World Action Reply Value} {agent : Agent}
    {respond : (action : Action) → World → Reply action × World}
    (hrespond : ∀ action before,
      launching.Performs agent before action (respond action before).1 (respond action before).2)
    {program : Program Action Reply First} {rest : First → Program Action Reply Value}
    (hreachable : Reachable launching world processes)
    (hstatus : processes.status agent = .running (program >>= rest)) :
    ∃ after, Reachable launching world after ∧
      after.world = (program.run respond processes.world).2 ∧
      after.status agent = .running (rest (program.run respond processes.world).1) ∧
      ∀ other, other ≠ agent → after.status other = processes.status other := by
  induction program generalizing processes with
  | done value => exact ⟨processes, hreachable, rfl, hstatus, fun _ _ => rfl⟩
  | act action next ih =>
      have hstep := Step.acts hstatus (hrespond action processes.world)
      let later := next (respond action processes.world).1 >>= rest
      have hnext : (processes.set agent (.running later)
          (respond action processes.world).2).status agent = .running later := if_pos rfl
      obtain ⟨after, hafter, hworld, hrest, hothers⟩ := ih _ (hreachable.tail hstep) hnext
      refine ⟨after, hafter, hworld, hrest, fun other hother => ?_⟩
      rw [hothers other hother]
      exact if_neg hother

/-- A process that runs alone gets to its end. -/
theorem reachable_of_run {world : World}
    {processes : Processes Agent World Action Reply Value} {agent : Agent}
    {respond : (action : Action) → World → Reply action × World}
    (hrespond : ∀ action before,
      launching.Performs agent before action (respond action before).1 (respond action before).2)
    {program : Program Action Reply Value} (hreachable : Reachable launching world processes)
    (hstatus : processes.status agent = .running program) :
    ∃ after, Reachable launching world after ∧
      after.world = (program.run respond processes.world).2 ∧
      ∀ other, other ≠ agent → after.status other = processes.status other := by
  rw [← Program.bind_done program] at hstatus
  obtain ⟨after, hafter, hworld, _, hothers⟩ := reachable_of_bind hrespond hreachable hstatus
  exact ⟨after, hafter, hworld, hothers⟩

end Processes

/-- Rules under which every program that may be started is safe. -/
structure Guarding (launching : Launching Agent World Action Reply Value) extends
    Interference Agent World Action Reply where
  performs : ∀ {agent before action reply after},
    launching.Performs agent before action reply after → Performs agent before action reply after
  /-- What holds of a process that has not been started. -/
  Untouched : Agent → World → Prop
  untouched_later : ∀ {agent before after}, Untouched agent before →
    toInterference.Later agent before after → Untouched agent after
  starts : ∀ {agent program world}, Invariant world → Untouched agent world →
    launching.Program agent program →
    toInterference.Safe agent (fun _ _ => True) program world
  ends : ∀ {agent world}, Invariant world →
    toInterference.Keeps agent world (launching.release agent world)

namespace Guarding

variable {launching : Launching Agent World Action Reply Value} (rules : Guarding launching)

def Fits (agent : Agent) (world : World) : Process Action Reply Value → Prop
  | .unborn => rules.Untouched agent world
  | .running rest => rules.Safe agent (fun _ _ => True) rest world
  | .ended => True

structure Governs (processes : Processes Agent World Action Reply Value) : Prop where
  invariant : rules.Invariant processes.world
  fits : ∀ agent, rules.Fits agent processes.world (processes.status agent)

variable {rules}

theorem Fits.later {agent : Agent} {before after : World} {status : Process Action Reply Value}
    (hfits : rules.Fits agent before status) (hlater : rules.Later agent before after) :
    rules.Fits agent after status := by
  cases status with
  | unborn => exact rules.untouched_later hfits hlater
  | running rest => exact Interference.Safe.later hfits hlater
  | ended => trivial

variable [DecidableEq Agent] {processes after : Processes Agent World Action Reply Value}

theorem Governs.set {agent : Agent} {status : Process Action Reply Value} {world : World}
    (hgoverns : rules.Governs processes) (hkeeps : rules.Keeps agent processes.world world)
    (hfits : rules.Fits agent world status) : rules.Governs (processes.set agent status world) := by
  constructor
  · exact hkeeps.invariant
  · intro other
    by_cases hother : other = agent
    · subst hother
      simpa only [Processes.set, if_true] using hfits
    · simp only [Processes.set, if_neg hother]
      exact (hgoverns.fits other).later (hkeeps.later hother)

theorem Governs.step (hgoverns : rules.Governs processes)
    (hstep : Processes.Step launching processes after) : rules.Governs after := by
  have hinvariant := hgoverns.invariant
  cases hstep with
  | @starts agent program hstatus hprogram =>
      have hfits := hgoverns.fits agent
      rw [hstatus] at hfits
      have hstay : rules.Keeps agent processes.world processes.world :=
        ⟨hinvariant, fun other _ => rules.rely_refl other _⟩
      exact hgoverns.set hstay (rules.starts hinvariant hfits hprogram)
  | @acts agent action next reply world hstatus hperforms =>
      have hfits := hgoverns.fits agent
      rw [hstatus] at hfits
      obtain ⟨hkeeps, hnext⟩ := Interference.Safe.step hfits hinvariant (rules.performs hperforms)
      exact hgoverns.set hkeeps hnext
  | ends hstatus => exact hgoverns.set (rules.ends hinvariant) trivial

/-- The invariant holds wherever processes get to. -/
theorem invariant_of_reachable {world : World} (hinvariant : rules.Invariant world)
    (huntouched : ∀ agent, rules.Untouched agent world)
    (hreachable : Processes.Reachable launching world processes) :
    rules.Invariant processes.world := by
  have hgoverns : rules.Governs processes := by
    induction hreachable with
    | refl => exact ⟨hinvariant, huntouched⟩
    | tail _ hstep ih => exact ih.step hstep
  exact hgoverns.invariant

end Guarding

end Oasi
