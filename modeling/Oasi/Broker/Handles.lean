import Mathlib.Logic.Relation
import Oasi.Broker.Ledger
import Oasi.Foundation.Interference

/-! # Handles on one ledger

Any number of `Ledger` objects are open on one path. Each runs one call at a
time; the actions of their calls interleave in any order. A handle may be
closed, opened again and lost with its process at any point. A dispatcher that
owns a handle applies the effect at most once for each `consume()` of that
handle that has returned.
-/

namespace Oasi.Broker

inductive Status where
  | absent
  | ready
  | running (operation : Operation) (rest : Program Action Reply (Except Raised Unit))

/-- What is left of a handle after a call: a constructor that raises makes none. -/
def Status.after : Operation → Except Raised Unit → Status
  | .construct, .error _ => .absent
  | _, _ => .ready

/-- A constructor makes a handle, a method needs one. -/
def Status.Admits : Status → Operation → Prop
  | .absent, operation => operation = .construct
  | .ready, operation => operation ≠ .construct
  | .running _ _, _ => False

structure System where
  world : World
  status : Handle → Status

namespace System

def start : System := ⟨.empty, fun _ => .absent⟩

def set (system : System) (handle : Handle) (status : Status) (world : World) : System where
  world := world
  status := fun other => if other = handle then status else system.status other

/-- No call is running. -/
def Idle (system : System) : Prop :=
  ∀ handle operation rest, system.status handle ≠ .running operation rest

end System

namespace World

/-- The handles of the `consume()` calls that have returned normally, latest first. -/
def consumers (world : World) : List Handle :=
  world.history.filterMap fun
    | .returned handle .consume (.ok _) => some handle
    | _ => none

/-- The handles whose dispatcher has applied the effect, latest first. -/
def appliers (world : World) : List Handle :=
  world.history.filterMap fun
    | .applied handle => some handle
    | _ => none

end World

/-- How actions happen. -/
abbrev Performing := Handle → World → (action : Action) → Reply action → World → Prop

/-- One step of one handle. -/
inductive Step (performs : Performing) (system : System) : System → Prop where
  | call {handle : Handle} {operation : Operation}
      (hadmits : (system.status handle).Admits operation) :
      Step performs system
        (system.set handle (.running operation operation.call.run) system.world)
  | act {handle : Handle} {operation : Operation} {action : Action}
      {next : Reply action → Program Action Reply (Except Raised Unit)} {reply : Reply action}
      {after : World} (hstatus : system.status handle = .running operation (.act action next))
      (hperforms : performs handle system.world action reply after) :
      Step performs system (system.set handle (.running operation (next reply)) after)
  | ends {handle : Handle} {operation : Operation} {outcome : Except Raised Unit}
      (hstatus : system.status handle = .running operation (.done outcome)) :
      Step performs system (system.set handle (.after operation outcome)
        (system.world.record (.returned handle operation outcome)))
  | close {handle : Handle} (hstatus : system.status handle = .ready) :
      Step performs system (system.set handle .absent (system.world.release handle))
  | apply {handle : Handle} (hstatus : system.status handle = .ready)
      (hpermitted : system.world.appliers.count handle < system.world.consumers.count handle) :
      Step performs system
        (system.set handle .ready (system.world.record (.applied handle)))

theorem Step.mono {performs wider : Performing}
    {system after : System} (hstep : Step performs system after)
    (h : ∀ handle before action reply after, performs handle before action reply after →
      wider handle before action reply after) : Step wider system after := by
  cases hstep with
  | call hadmits => exact .call hadmits
  | act hstatus hperforms => exact .act hstatus (h _ _ _ _ _ hperforms)
  | ends hstatus => exact .ends hstatus
  | close hstatus => exact .close hstatus
  | apply hstatus hpermitted => exact .apply hstatus hpermitted

/-- A step, or the end of the process of a handle in the middle of anything. -/
inductive StepOrCrash (performs : Performing) (system : System) : System → Prop where
  | step {after : System} (hstep : Step performs system after) : StepOrCrash performs system after
  | crash (handle : Handle) :
      StepOrCrash performs system (system.set handle .absent (system.world.release handle))

/-! ## Disciplines -/

/-- Rules for the actions of handles under which every call of `Ledger` is safe,
with what holds of a handle between its calls and when a call returns. -/
structure Discipline extends Interference Handle World Action Reply where
  /-- Between the calls of a handle; the flag tells whether there is an object. -/
  Rests : Handle → Bool → World → Prop
  Returns : Handle → Operation → Except Raised Unit → World → Prop
  rests_later : ∀ {handle ready before after}, Rests handle ready before →
    toInterference.Later handle before after → Rests handle ready after
  starts : ∀ {handle ready world} (operation : Operation), Invariant world →
    Rests handle ready world → (ready = false ↔ operation = .construct) →
    toInterference.Safe handle (Returns handle operation) operation.call.run world
  returns : ∀ {handle operation outcome world}, Invariant world →
    Returns handle operation outcome world →
    toInterference.Keeps handle world (world.record (.returned handle operation outcome)) ∧
      Rests handle (operation ≠ .construct || outcome.isOk)
        (world.record (.returned handle operation outcome))
  closes : ∀ {handle world}, Invariant world → Rests handle true world →
    toInterference.Keeps handle world (world.release handle) ∧
      Rests handle false (world.release handle)
  applies : ∀ {handle world}, Invariant world → Rests handle true world →
    world.appliers.count handle < world.consumers.count handle →
    toInterference.Keeps handle world (world.record (.applied handle)) ∧
      Rests handle true (world.record (.applied handle))

namespace Discipline

variable (rules : Discipline)

/-- The discipline at one handle. -/
def Fits (handle : Handle) (world : World) : Status → Prop
  | .absent => rules.Rests handle false world
  | .ready => rules.Rests handle true world
  | .running operation rest => rules.Safe handle (rules.Returns handle operation) rest world

structure Governs (system : System) : Prop where
  invariant : rules.Invariant system.world
  fits : ∀ handle, rules.Fits handle system.world (system.status handle)

variable {rules}

theorem Fits.later {handle : Handle} {before after : World} {status : Status}
    (hfits : rules.Fits handle before status) (hlater : rules.Later handle before after) :
    rules.Fits handle after status := by
  cases status with
  | absent => exact rules.rests_later hfits hlater
  | ready => exact rules.rests_later hfits hlater
  | running operation rest => exact Interference.Safe.later hfits hlater

/-- One handle moves as its discipline asks; the others see interference. -/
theorem Governs.set {system : System} {handle : Handle} {status : Status} {world : World}
    (hgoverns : rules.Governs system) (hkeeps : rules.Keeps handle system.world world)
    (hfits : rules.Fits handle world status) : rules.Governs (system.set handle status world) := by
  constructor
  · exact hkeeps.invariant
  · intro other
    by_cases hother : other = handle
    · subst hother
      simpa only [System.set, if_true] using hfits
    · simp only [System.set, if_neg hother]
      exact (hgoverns.fits other).later (hkeeps.later hother)

theorem fits_after {handle : Handle} {world : World} {operation : Operation}
    {outcome : Except Raised Unit}
    (hrests : rules.Rests handle (operation ≠ .construct || outcome.isOk) world) :
    rules.Fits handle world (.after operation outcome) := by
  cases operation with
  | construct =>
      cases outcome with
      | ok value => exact hrests
      | error raised => exact hrests
  | _ => exact hrests

theorem keeps_refl {handle : Handle} {world : World} (h : rules.Invariant world) :
    rules.Keeps handle world world :=
  ⟨h, fun other _ => rules.rely_refl other world⟩

theorem Governs.step {system after : System} (hgoverns : rules.Governs system)
    (hstep : Step rules.Performs system after) : rules.Governs after := by
  have hinvariant := hgoverns.invariant
  cases hstep with
  | @call handle operation hadmits =>
      have hfits := hgoverns.fits handle
      apply hgoverns.set (keeps_refl hinvariant)
      -- a handle that is there may call anything but the constructor
      cases hstatus : system.status handle with
      | absent =>
          rw [hstatus] at hadmits hfits
          exact rules.starts operation hinvariant hfits (iff_of_true rfl hadmits)
      | ready =>
          rw [hstatus] at hadmits hfits
          exact rules.starts operation hinvariant hfits (iff_of_false (by simp) hadmits)
      | running current rest =>
          rw [hstatus] at hadmits
          exact hadmits.elim
  | @act handle operation action next reply world hstatus hperforms =>
      have hfits := hgoverns.fits handle
      rw [hstatus] at hfits
      obtain ⟨hkeeps, hsafe⟩ := Interference.Safe.step hfits hinvariant hperforms
      exact hgoverns.set hkeeps hsafe
  | @ends handle operation outcome hstatus =>
      have hfits := hgoverns.fits handle
      rw [hstatus] at hfits
      have hpost := Interference.Safe.post_value hfits hinvariant
      obtain ⟨hkeeps, hrests⟩ := rules.returns hinvariant hpost
      exact hgoverns.set hkeeps (fits_after hrests)
  | @close handle hstatus =>
      have hfits := hgoverns.fits handle
      rw [hstatus] at hfits
      obtain ⟨hkeeps, hrests⟩ := rules.closes hinvariant hfits
      exact hgoverns.set hkeeps hrests
  | @apply handle hstatus hpermitted =>
      have hfits := hgoverns.fits handle
      rw [hstatus] at hfits
      obtain ⟨hkeeps, hrests⟩ := rules.applies hinvariant hfits hpermitted
      exact hgoverns.set hkeeps hrests

/-- What holds in every system that such steps lead to. -/
theorem Governs.run {system after : System} (hgoverns : rules.Governs system)
    (hrun : Relation.ReflTransGen (Step rules.Performs) system after) : rules.Governs after := by
  induction hrun with
  | refl => exact hgoverns
  | tail _ hstep ih => exact ih.step hstep

end Discipline

end Oasi.Broker
