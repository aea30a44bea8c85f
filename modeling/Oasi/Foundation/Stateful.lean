import Mathlib.Data.List.Basic

/-! # Computations with a mutable state that may fail

A call through a mutable reference keeps what it changed before it failed, so a
failure carries a state too. The postcondition of such a computation has two
parts, one for each way of ending; the weakest precondition of a sequence is
that of its first step, with the second step's as the postcondition.
-/

namespace Oasi

variable {ε ε' σ τ α β : Type}

/-- Every outcome of the computation from this state satisfies the postcondition
for that way of ending. -/
def Ends (computation : EStateM ε σ α) (state : σ) (done : α → σ → Prop)
    (failed : ε → σ → Prop) : Prop :=
  match computation state with
  | .ok value after => done value after
  | .error error after => failed error after

theorem ends_iff {computation : EStateM ε σ α} {state : σ} {done : α → σ → Prop}
    {failed : ε → σ → Prop} :
    Ends computation state done failed ↔
      (∀ value after, computation state = .ok value after → done value after) ∧
      (∀ error after, computation state = .error error after → failed error after) := by
  unfold Ends
  cases computation state with
  | ok value after => simp
  | error error after => simp

theorem Ends.of_ok {computation : EStateM ε σ α} {state after : σ} {value : α}
    {done : α → σ → Prop} {failed : ε → σ → Prop} (h : Ends computation state done failed)
    (hok : computation state = .ok value after) : done value after :=
  (ends_iff.mp h).1 value after hok

theorem Ends.of_error {computation : EStateM ε σ α} {state after : σ} {error : ε}
    {done : α → σ → Prop} {failed : ε → σ → Prop} (h : Ends computation state done failed)
    (herror : computation state = .error error after) : failed error after :=
  (ends_iff.mp h).2 error after herror

/-- Postconditions may be weakened. -/
theorem Ends.mono {computation : EStateM ε σ α} {state : σ} {done done' : α → σ → Prop}
    {failed failed' : ε → σ → Prop} (h : Ends computation state done failed)
    (hdone : ∀ value after, done value after → done' value after)
    (hfailed : ∀ error after, failed error after → failed' error after) :
    Ends computation state done' failed' := by
  unfold Ends at *
  cases hresult : computation state with
  | ok value after => rw [hresult] at h; exact hdone value after h
  | error error after => rw [hresult] at h; exact hfailed error after h

/-- Only what follows success is weakened. -/
theorem Ends.imp {computation : EStateM ε σ α} {state : σ} {done done' : α → σ → Prop}
    {failed : ε → σ → Prop} (h : Ends computation state done failed)
    (hdone : ∀ value after, done value after → done' value after) :
    Ends computation state done' failed :=
  h.mono hdone fun _ _ hfailed => hfailed

/-- A computation that meets two postconditions meets both at once. -/
theorem Ends.and {computation : EStateM ε σ α} {state : σ} {done done' : α → σ → Prop}
    {failed failed' : ε → σ → Prop} (first : Ends computation state done failed)
    (second : Ends computation state done' failed') :
    Ends computation state (fun value after => done value after ∧ done' value after)
      (fun error after => failed error after ∧ failed' error after) := by
  unfold Ends at *
  cases hresult : computation state with
  | ok value after =>
      rw [hresult] at first second
      exact ⟨first, second⟩
  | error error after =>
      rw [hresult] at first second
      exact ⟨first, second⟩

section Rules

variable {state : σ} {failed : ε → σ → Prop}

@[simp] theorem ends_pure {value : α} {done : α → σ → Prop} :
    Ends (pure value) state done failed ↔ done value state := Iff.rfl

@[simp] theorem ends_throw {error : ε} {done : α → σ → Prop} :
    Ends (throw error) state done failed ↔ failed error state := Iff.rfl

@[simp] theorem ends_get {done : σ → σ → Prop} :
    Ends get state done failed ↔ done state state := Iff.rfl

@[simp] theorem ends_modify {update : σ → σ} {done : PUnit → σ → Prop} :
    Ends (modify update) state done failed ↔ done ⟨⟩ (update state) := Iff.rfl

@[simp] theorem ends_bind {first : EStateM ε σ α} {second : α → EStateM ε σ β}
    {done : β → σ → Prop} :
    Ends (first >>= second) state done failed ↔
      Ends first state (fun value after => Ends (second value) after done failed) failed := by
  simp only [Ends, bind, EStateM.bind]
  cases first state <;> rfl

@[simp] theorem ends_map {computation : EStateM ε σ α} {change : α → β} {done : β → σ → Prop} :
    Ends (change <$> computation) state done failed ↔
      Ends computation state (fun value after => done (change value) after) failed := by
  simp only [Ends, Functor.map, EStateM.map]
  cases computation state <;> rfl

@[simp] theorem ends_ite {condition : Prop} [Decidable condition]
    {first second : EStateM ε σ α} {done : α → σ → Prop} :
    Ends (if condition then first else second) state done failed ↔
      (condition → Ends first state done failed) ∧
        (¬condition → Ends second state done failed) := by
  by_cases h : condition <;> simp [h]

end Rules

/-- A fallible value as a step that leaves the state alone. -/
def liftResult (result : Except ε α) : EStateM ε σ α :=
  match result with
  | .ok value => pure value
  | .error error => throw error

@[simp] theorem ends_liftResult {result : Except ε α} {state : σ} {done : α → σ → Prop}
    {failed : ε → σ → Prop} :
    Ends (liftResult result) state done failed ↔
      (∀ value, result = .ok value → done value state) ∧
        (∀ error, result = .error error → failed error state) := by
  cases result with
  | ok value => simp [liftResult]
  | error error => simp [liftResult]

/-- A value that must be present. -/
def orThrow (value : Option α) (error : ε) : EStateM ε σ α :=
  match value with
  | some value => pure value
  | none => throw error

@[simp] theorem ends_orThrow {value : Option α} {error : ε} {state : σ} {done : α → σ → Prop}
    {failed : ε → σ → Prop} :
    Ends (orThrow value error) state done failed ↔
      (∀ found, value = some found → done found state) ∧
        (value = none → failed error state) := by
  cases value with
  | some found => simp [orThrow]
  | none => simp [orThrow]

/-- The result of a computation as a value, whether or not it failed. -/
def attempt (computation : EStateM ε σ α) : EStateM ε' σ (Except ε α) := fun state =>
  match computation state with
  | .ok value after => .ok (.ok value) after
  | .error error after => .ok (.error error) after

@[simp] theorem ends_attempt {computation : EStateM ε σ α} {state : σ}
    {done : Except ε α → σ → Prop} {failed : ε' → σ → Prop} :
    Ends (attempt computation) state done failed ↔
      Ends computation state (fun value after => done (.ok value) after)
        (fun error after => done (.error error) after) := by
  simp only [Ends, attempt]
  cases computation state <;> rfl

/-- A computation on one component of a larger state. -/
def onPart (part : τ → σ) (replace : τ → σ → τ) (liftError : ε → ε')
    (computation : EStateM ε σ α) : EStateM ε' τ α := fun whole =>
  match computation (part whole) with
  | .ok value after => .ok value (replace whole after)
  | .error error after => .error (liftError error) (replace whole after)

@[simp] theorem ends_onPart {part : τ → σ} {replace : τ → σ → τ} {liftError : ε → ε'}
    {computation : EStateM ε σ α} {whole : τ} {done : α → τ → Prop} {failed : ε' → τ → Prop} :
    Ends (onPart part replace liftError computation) whole done failed ↔
      Ends computation (part whole) (fun value after => done value (replace whole after))
        (fun error after => failed (liftError error) (replace whole after)) := by
  simp only [Ends, onPart]
  cases computation (part whole) <;> rfl

/-- A loop over a list keeps an invariant that every turn keeps. -/
theorem ends_forM {items : List α} {turn : α → EStateM ε σ PUnit} {state : σ}
    {invariant : List α → σ → Prop} {failed : ε → σ → Prop} (hstart : invariant items state)
    (hturn : ∀ item rest state, invariant (item :: rest) state →
      Ends (turn item) state (fun _ after => invariant rest after) failed) :
    Ends (forM items turn) state (fun _ after => invariant [] after) failed := by
  induction items generalizing state with
  | nil => exact hstart
  | cons item rest ih =>
      rw [List.forM_cons, ends_bind]
      exact (hturn item rest state hstart).imp fun _ _ hrest => ih hrest

end Oasi
