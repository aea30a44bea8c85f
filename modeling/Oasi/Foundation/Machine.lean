import Mathlib.Data.List.Induction

/-! # Deterministic machines and their histories

A machine answers each input with an output and a new state. Nondeterminism of
an environment is part of the input, so a run is a list of inputs. The trace of
a run keeps every transition with the states around it, which is what statements
about whole histories range over.
-/

namespace Oasi

/-- A machine whose inputs carry every choice of its environment. -/
structure Machine (State Input Output : Type) where
  step : State → Input → Output × State

/-- One executed input, with the states before and after it. -/
structure Transition (State Input Output : Type) where
  before : State
  input : Input
  output : Output
  after : State

namespace Machine

variable {State Input Output : Type} (machine : Machine State Input Output)

def transition (state : State) (input : Input) : Transition State Input Output where
  before := state
  input := input
  output := (machine.step state input).1
  after := (machine.step state input).2

/-- The state a list of inputs leads to. -/
def run (start : State) (inputs : List Input) : State :=
  inputs.foldl (fun state input => (machine.step state input).2) start

/-- The transitions of a run, oldest first. -/
def trace (start : State) : List Input → List (Transition State Input Output)
  | [] => []
  | input :: rest =>
      machine.transition start input :: trace (machine.step start input).2 rest

@[simp] theorem run_nil (start : State) : machine.run start [] = start := rfl

theorem run_cons (start : State) (input : Input) (rest : List Input) :
    machine.run start (input :: rest) = machine.run (machine.step start input).2 rest := rfl

theorem run_append (start : State) (first second : List Input) :
    machine.run start (first ++ second) = machine.run (machine.run start first) second :=
  List.foldl_append

theorem run_concat (start : State) (inputs : List Input) (input : Input) :
    machine.run start (inputs ++ [input]) = (machine.step (machine.run start inputs) input).2 := by
  rw [run_append, run_cons, run_nil]

@[simp] theorem trace_nil (start : State) : machine.trace start [] = [] := rfl

theorem trace_append (start : State) (first second : List Input) :
    machine.trace start (first ++ second) =
      machine.trace start first ++ machine.trace (machine.run start first) second := by
  induction first generalizing start with
  | nil => rfl
  | cons input rest ih =>
      rw [List.cons_append, trace, ih, trace, run_cons, List.cons_append]

theorem trace_concat (start : State) (inputs : List Input) (input : Input) :
    machine.trace start (inputs ++ [input]) =
      machine.trace start inputs ++ [machine.transition (machine.run start inputs) input] :=
  trace_append machine start inputs [input]

/-- A splitting of a trace comes from a splitting of its inputs. -/
theorem trace_split {start : State} {inputs : List Input}
    {earlier later : List (Transition State Input Output)}
    {event : Transition State Input Output}
    (h : machine.trace start inputs = earlier ++ event :: later) :
    ∃ first input second, inputs = first ++ input :: second ∧
      earlier = machine.trace start first ∧
      event = machine.transition (machine.run start first) input ∧
      later = machine.trace event.after second := by
  induction inputs generalizing start earlier with
  | nil => cases earlier <;> simp at h
  | cons input rest ih =>
      rw [trace] at h
      cases earlier with
      | nil =>
          rw [List.nil_append, List.cons.injEq] at h
          obtain ⟨rfl, rfl⟩ := h
          exact ⟨[], input, rest, rfl, rfl, rfl, rfl⟩
      | cons head earlier =>
          rw [List.cons_append, List.cons.injEq] at h
          obtain ⟨rfl, hrest⟩ := h
          obtain ⟨first, middle, second, rfl, rfl, hevent, hlater⟩ := ih hrest
          exact ⟨input :: first, middle, second, rfl, rfl, hevent, hlater⟩

/-! ## Runs that end -/

/-- The transitions up to and including the first whose output ends the run. -/
def session (ends : Output → Bool) (start : State) :
    List Input → List (Transition State Input Output)
  | [] => []
  | input :: rest =>
      if ends (machine.transition start input).output then [machine.transition start input]
      else machine.transition start input ::
        session ends (machine.transition start input).after rest

theorem length_session_le (ends : Output → Bool) (start : State) (inputs : List Input) :
    (machine.session ends start inputs).length ≤ inputs.length := by
  induction inputs generalizing start with
  | nil => exact Nat.le_refl 0
  | cons input rest ih =>
      rw [session]
      split
      · simp
      · exact Nat.succ_le_succ (ih _)

/-- Before any transition of a session lies a trace that has not ended. -/
theorem session_split {ends : Output → Bool} {start : State} {inputs : List Input}
    {earlier later : List (Transition State Input Output)}
    {event : Transition State Input Output}
    (h : machine.session ends start inputs = earlier ++ event :: later) :
    ∃ used input, earlier = machine.trace start used ∧
      event = machine.transition (machine.run start used) input ∧
      ∀ past ∈ earlier, ends past.output = false := by
  induction inputs generalizing start earlier with
  | nil => cases earlier <;> simp [session] at h
  | cons input rest ih =>
      rw [session] at h
      split at h
      next hends =>
        cases earlier with
        | nil =>
            rw [List.nil_append, List.cons.injEq] at h
            exact ⟨[], input, rfl, h.1.symm, by simp⟩
        | cons head earlier => simp at h
      next hcontinues =>
        rw [Bool.not_eq_true] at hcontinues
        cases earlier with
        | nil =>
            rw [List.nil_append, List.cons.injEq] at h
            exact ⟨[], input, rfl, h.1.symm, by simp⟩
        | cons head earlier =>
            rw [List.cons_append, List.cons.injEq] at h
            obtain ⟨rfl, hrest⟩ := h
            obtain ⟨used, next, rfl, hevent, hpast⟩ := ih hrest
            refine ⟨input :: used, next, rfl, hevent, ?_⟩
            intro past hmem
            rcases List.mem_cons.mp hmem with rfl | hmem
            · exact hcontinues
            · exact hpast past hmem

/-- A transition that ends a session is its last. -/
theorem session_ends {ends : Output → Bool} {start : State} {inputs : List Input}
    {earlier later : List (Transition State Input Output)}
    {event : Transition State Input Output}
    (h : machine.session ends start inputs = earlier ++ event :: later)
    (hends : ends event.output = true) : later = [] := by
  cases later with
  | nil => rfl
  | cons next later =>
      have hsplit : machine.session ends start inputs = (earlier ++ [event]) ++ next :: later := by
        rw [h, List.append_assoc, List.singleton_append]
      obtain ⟨_, _, _, _, hcontinues⟩ := machine.session_split hsplit
      have hlast : event ∈ earlier ++ [event] :=
        List.mem_append_right _ (List.mem_singleton.mpr rfl)
      exact absurd ((hcontinues event hlast).symm.trans hends) Bool.false_ne_true

/-- A session is a trace that has not ended, or one followed by the transition that
ends it. -/
theorem session_cases (ends : Output → Bool) (start : State) (inputs : List Input) :
    ∃ used, (∀ past ∈ machine.trace start used, ends past.output = false) ∧
      (machine.session ends start inputs = machine.trace start used ∨
        ∃ input, ends (machine.transition (machine.run start used) input).output = true ∧
          machine.session ends start inputs =
            machine.trace start used ++ [machine.transition (machine.run start used) input]) := by
  induction inputs generalizing start with
  | nil => exact ⟨[], fun past hpast => absurd hpast List.not_mem_nil, .inl rfl⟩
  | cons input rest ih =>
      rw [session]
      split
      next hends =>
        exact ⟨[], fun past hpast => absurd hpast List.not_mem_nil, .inr ⟨input, hends, rfl⟩⟩
      next hcontinues =>
        rw [Bool.not_eq_true] at hcontinues
        obtain ⟨used, hused, hsession⟩ := ih (machine.transition start input).after
        refine ⟨input :: used, List.forall_mem_cons.mpr ⟨hcontinues, hused⟩, ?_⟩
        rcases hsession with hsession | ⟨last, hends, hsession⟩
        · exact .inl (by rw [hsession]; rfl)
        · exact .inr ⟨last, hends, by rw [hsession]; rfl⟩

/-- A session begins with any trace that does not end. -/
theorem session_append {ends : Output → Bool} {start : State} {first : List Input}
    (hcontinues : ∀ event ∈ machine.trace start first, ends event.output = false)
    (second : List Input) :
    machine.session ends start (first ++ second) =
      machine.trace start first ++ machine.session ends (machine.run start first) second := by
  induction first generalizing start with
  | nil => rfl
  | cons input rest ih =>
      have hhead := hcontinues _ List.mem_cons_self
      have hrest := ih fun event hevent => hcontinues event (List.mem_cons_of_mem _ hevent)
      rw [List.cons_append, session, if_neg (by simp [hhead])]
      exact congrArg (machine.transition start input :: ·) hrest

/-- What holds of the empty past and is kept by every transition that does not
end the run holds of every past that has not ended. -/
theorem past_induction {motive : List (Transition State Input Output) → State → Prop}
    {ends : Output → Bool} {start : State} (hstart : motive [] start)
    (hstep : ∀ past state input, motive past state →
      ends (machine.transition state input).output = false →
      motive (past ++ [machine.transition state input]) (machine.transition state input).after)
    {inputs : List Input}
    (hcontinues : ∀ event ∈ machine.trace start inputs, ends event.output = false) :
    motive (machine.trace start inputs) (machine.run start inputs) := by
  induction inputs using List.reverseRecOn with
  | nil => exact hstart
  | append_singleton inputs input ih =>
      rw [trace_concat] at hcontinues ⊢
      rw [run_concat]
      refine hstep _ _ _ (ih fun event hevent => ?_) ?_
      · exact hcontinues event (List.mem_append_left _ hevent)
      · exact hcontinues _ (List.mem_append_right _ (List.mem_singleton.mpr rfl))

end Machine

/-! ## Simulation -/

/-- One machine answers like another on states that are related. -/
structure Simulation {State Other Input Label Output : Type} (machine : Machine State Input Output)
    (other : Machine Other Label Output) (label : Input → Label)
    (Related : State → Other → Prop) : Prop where
  answers : ∀ {state otherState}, Related state otherState → ∀ input,
    (machine.step state input).1 = (other.step otherState (label input)).1
  follows : ∀ {state otherState}, Related state otherState → ∀ input,
    Related (machine.step state input).2 (other.step otherState (label input)).2

namespace Simulation

variable {State Other Input Label Output : Type} {machine : Machine State Input Output}
  {other : Machine Other Label Output} {label : Input → Label} {Related : State → Other → Prop}
  {state : State} {otherState : Other}

theorem related_run (h : Simulation machine other label Related)
    (hrelated : Related state otherState) (inputs : List Input) :
    Related (machine.run state inputs) (other.run otherState (inputs.map label)) := by
  induction inputs generalizing state otherState with
  | nil => exact hrelated
  | cons input rest ih => exact ih (h.follows hrelated input)

/-- Whole runs give the same outputs. -/
theorem outputs_eq (h : Simulation machine other label Related)
    (hrelated : Related state otherState) (inputs : List Input) :
    (machine.trace state inputs).map Transition.output =
      (other.trace otherState (inputs.map label)).map Transition.output := by
  induction inputs generalizing state otherState with
  | nil => rfl
  | cons input rest ih =>
      rw [List.map_cons, Machine.trace, Machine.trace, List.map_cons, List.map_cons]
      exact congrArg₂ List.cons (h.answers hrelated input) (ih (h.follows hrelated input))

end Simulation

/-! ## Since -/

/-- Some event of the past was marked, given what came before it, and every event
since then keeps a property. -/
def Since {α : Type} (keeps : α → Prop) (marks : List α → α → Prop) (past : List α) : Prop :=
  ∃ earlier event later, past = earlier ++ event :: later ∧ marks earlier event ∧
    ∀ between ∈ later, keeps between

section Since

variable {α : Type} {keeps keeps' : α → Prop} {marks marks' : List α → α → Prop} {past : List α}
  {event : α}

theorem since_last (h : marks past event) : Since keeps marks (past ++ [event]) :=
  ⟨past, event, [], rfl, h, fun _ hbetween => absurd hbetween List.not_mem_nil⟩

theorem Since.concat (h : Since keeps marks past) (hevent : keeps event) :
    Since keeps marks (past ++ [event]) := by
  obtain ⟨earlier, marked, later, rfl, hmarked, hlater⟩ := h
  refine ⟨earlier, marked, later ++ [event], by simp, hmarked, ?_⟩
  intro between hbetween
  rcases List.mem_append.mp hbetween with hbetween | hbetween
  · exact hlater between hbetween
  · rwa [List.mem_singleton.mp hbetween]

theorem Since.mono (h : Since keeps marks past) (hkeeps : ∀ event, keeps event → keeps' event)
    (hmarks : ∀ earlier event, marks earlier event → marks' earlier event) :
    Since keeps' marks' past := by
  obtain ⟨earlier, marked, later, hpast, hmarked, hlater⟩ := h
  exact ⟨earlier, marked, later, hpast, hmarks _ _ hmarked,
    fun between hbetween => hkeeps between (hlater between hbetween)⟩

end Since

end Oasi
