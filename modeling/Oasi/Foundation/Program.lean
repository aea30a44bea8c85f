/-! # Programs over atomic actions

A program performs one atomic action after the other and sees the reply of each.
What an action does to the world is left to whoever runs the program, so that
one text can be run alone, interleaved with others or cut short.
-/

namespace Oasi

inductive Program (Action : Type) (Reply : Action → Type) (Value : Type) : Type where
  | done (value : Value)
  | act (action : Action) (next : Reply action → Program Action Reply Value)

namespace Program

variable {Action : Type} {Reply : Action → Type} {Value Other World : Type}

protected def bind : Program Action Reply Value → (Value → Program Action Reply Other) →
    Program Action Reply Other
  | done value, rest => rest value
  | act action next, rest => act action fun reply => (next reply).bind rest

instance : Monad (Program Action Reply) where
  pure := done
  bind := Program.bind

@[simp] theorem pure_eq_done (value : Value) :
    (pure value : Program Action Reply Value) = done value := rfl

@[simp] theorem done_bind (value : Value) (rest : Value → Program Action Reply Other) :
    done value >>= rest = rest value := rfl

@[simp] theorem act_bind (action : Action) (next : Reply action → Program Action Reply Value)
    (rest : Value → Program Action Reply Other) :
    act action next >>= rest = act action fun reply => next reply >>= rest := rfl

theorem bind_done (program : Program Action Reply Value) : program >>= done = program := by
  induction program with
  | done value => rfl
  | act action next ih =>
      rw [act_bind]
      congr 1
      funext reply
      exact ih reply

/-! ## The actions of a program -/

/-- Whatever the replies, the program performs only such actions. -/
def Uses (allowed : Action → Prop) : Program Action Reply Value → Prop
  | done _ => True
  | act action next => allowed action ∧ ∀ reply, (next reply).Uses allowed

theorem Uses.imp {allowed wider : Action → Prop} {program : Program Action Reply Value}
    (huses : program.Uses allowed) (h : ∀ action, allowed action → wider action) :
    program.Uses wider := by
  induction program with
  | done value => trivial
  | act action next ih => exact ⟨h action huses.1, fun reply => ih reply (huses.2 reply)⟩

theorem uses_bind {allowed : Action → Prop} {program : Program Action Reply Value}
    {rest : Value → Program Action Reply Other} (hprogram : program.Uses allowed)
    (hrest : ∀ value, (rest value).Uses allowed) : (program >>= rest).Uses allowed := by
  induction program with
  | done value => exact hrest value
  | act action next ih => exact ⟨hprogram.1, fun reply => ih reply (hprogram.2 reply)⟩

/-! ## More actions -/

/-- The program over wider actions, each of its own standing for one of them. -/
def inject {Wider : Type} {Answer : Wider → Type} (embed : Action → Wider)
    (reply : ∀ action, Answer (embed action) → Reply action) :
    Program Action Reply Value → Program Wider Answer Value
  | done value => done value
  | act action next =>
      act (embed action) fun answer => (next (reply action answer)).inject embed reply

theorem inject_bind {Wider : Type} {Answer : Wider → Type} (embed : Action → Wider)
    (reply : ∀ action, Answer (embed action) → Reply action)
    (program : Program Action Reply Value) (rest : Value → Program Action Reply Other) :
    (program >>= rest).inject embed reply =
      program.inject embed reply >>= fun value => (rest value).inject embed reply := by
  induction program with
  | done value => rfl
  | act action next ih =>
      rw [act_bind, inject, inject, act_bind]
      congr 1
      funext answer
      exact ih _

/-! ## Running alone -/

/-- The value a program ends with when nothing else runs and each action
answers as given. -/
def run (perform : (action : Action) → World → Reply action × World) :
    Program Action Reply Value → World → Value × World
  | done value, world => (value, world)
  | act action next, world =>
      run perform (next (perform action world).1) (perform action world).2

@[simp] theorem run_done (perform : (action : Action) → World → Reply action × World)
    (value : Value) (world : World) : (done value).run perform world = (value, world) := rfl

theorem run_bind (perform : (action : Action) → World → Reply action × World)
    (program : Program Action Reply Value) (rest : Value → Program Action Reply Other)
    (world : World) :
    (program >>= rest).run perform world =
      (rest (program.run perform world).1).run perform (program.run perform world).2 := by
  induction program generalizing world with
  | done value => rfl
  | act action next ih =>
      rw [act_bind, run, ih]
      rfl

/-- How far the program may get when nothing else runs and its actions happen as given. -/
inductive Reaches (performs : World → (action : Action) → Reply action → World → Prop) :
    Program Action Reply Value → World → Program Action Reply Value → World → Prop where
  | stop {program : Program Action Reply Value} {world : World} :
      Reaches performs program world program world
  | act {action : Action} {next : Reply action → Program Action Reply Value}
      {reply : Reply action} {before middle after : World} {rest : Program Action Reply Value}
      (hperforms : performs before action reply middle)
      (hrest : Reaches performs (next reply) middle rest after) :
      Reaches performs (act action next) before rest after

end Program

/-! ## Programs that raise -/

/-- A program whose actions may raise instead of replying, and that may raise itself. -/
abbrev Call (Action : Type) (Result : Action → Type) (Raised : Type) :=
  ExceptT Raised (Program Action fun action => Except Raised (Result action))

namespace Call

variable {Action : Type} {Result : Action → Type} {Raised Value Other : Type}

/-- One action. -/
def execute (action : Action) : Call Action Result Raised (Result action) :=
  ExceptT.mk (.act action .done)

/-- Both ends of a call, as the program it is. -/
theorem run_bind (call : Call Action Result Raised Value)
    (rest : Value → Call Action Result Raised Other) :
    (call >>= rest).run = call.run >>= fun
      | .ok value => (rest value).run
      | .error raised => .done (.error raised) := by
  rw [ExceptT.run_bind]
  congr 1

/-- `try: ... finally: cleanup`: what the cleanup raises takes the place of everything else. -/
def ensuring (body : Call Action Result Raised Value) (cleanup : Call Action Result Raised Unit) :
    Call Action Result Raised Value := do
  let value ← tryCatch body fun raised => do
    cleanup
    throw raised
  cleanup
  return value

/-- The call over wider actions. -/
def inject {Wider : Type} {Answer : Wider → Type} (embed : Action → Wider)
    (result : ∀ action, Except Raised (Answer (embed action)) → Except Raised (Result action))
    (call : Call Action Result Raised Value) : Call Wider Answer Raised Value :=
  ExceptT.mk (call.run.inject embed result)

theorem run_tryCatch (call : Call Action Result Raised Value)
    (handler : Raised → Call Action Result Raised Value) :
    (tryCatch call handler).run = call.run >>= fun
      | .ok value => .done (.ok value)
      | .error raised => (handler raised).run := rfl

section Inject

variable {Wider : Type} {Answer : Wider → Type} {embed : Action → Wider}
  {result : ∀ action, Except Raised (Answer (embed action)) → Except Raised (Result action)}

theorem inject_bind (call : Call Action Result Raised Value)
    (rest : Value → Call Action Result Raised Other) :
    (call >>= rest).inject embed result =
      call.inject embed result >>= fun value => (rest value).inject embed result := by
  apply ExceptT.ext
  rw [run_bind, inject, ExceptT.run_mk, run_bind, Program.inject_bind, inject, ExceptT.run_mk]
  congr 1
  funext outcome
  cases outcome <;> rfl

theorem inject_pure (value : Value) :
    (pure value : Call Action Result Raised Value).inject embed result = pure value := rfl

theorem inject_throw (raised : Raised) :
    (throw raised : Call Action Result Raised Value).inject embed result = throw raised := rfl

theorem inject_tryCatch (call : Call Action Result Raised Value)
    (handler : Raised → Call Action Result Raised Value) :
    (tryCatch call handler).inject embed result =
      tryCatch (call.inject embed result) fun raised => (handler raised).inject embed result := by
  apply ExceptT.ext
  rw [run_tryCatch, inject, ExceptT.run_mk, run_tryCatch, Program.inject_bind, inject,
    ExceptT.run_mk]
  congr 1
  funext outcome
  cases outcome <;> rfl

theorem inject_ensuring (body : Call Action Result Raised Value)
    (cleanup : Call Action Result Raised Unit) :
    (body.ensuring cleanup).inject embed result =
      (body.inject embed result).ensuring (cleanup.inject embed result) := by
  unfold ensuring
  simp only [inject_bind, inject_tryCatch, inject_throw, inject_pure]

end Inject

/-! ## Running alone -/

/-- The outcome of a call when nothing else runs and each action answers as given. -/
def alone {World : Type}
    (perform : (action : Action) → World → Except Raised (Result action) × World)
    (call : Call Action Result Raised Value) (world : World) : Except Raised Value × World :=
  call.run.run perform world

section Alone

variable {World : Type}
  {perform : (action : Action) → World → Except Raised (Result action) × World}
  {before after : World}

theorem alone_pure_eq_ok {value result : Value} :
    (pure value : Call Action Result Raised Value).alone perform before = (.ok result, after) ↔
      value = result ∧ before = after := by
  change (Except.ok value, before) = (.ok result, after) ↔ _
  rw [Prod.mk.injEq, Except.ok.injEq]

theorem alone_throw_eq_ok {raised : Raised} {result : Value} :
    (throw raised : Call Action Result Raised Value).alone perform before = (.ok result, after) ↔
      False := by
  change (Except.error raised, before) = (.ok result, after) ↔ _
  rw [Prod.mk.injEq]
  simp

/-- A sequence of two calls returns when both do. -/
theorem alone_bind_eq_ok {call : Call Action Result Raised Value}
    {rest : Value → Call Action Result Raised Other} {result : Other} :
    (call >>= rest).alone perform before = (.ok result, after) ↔
      ∃ value middle, call.alone perform before = (.ok value, middle) ∧
        (rest value).alone perform middle = (.ok result, after) := by
  have hbind : (call >>= rest).alone perform before =
      match call.alone perform before with
      | (.ok value, middle) => (rest value).alone perform middle
      | (.error raised, middle) => (.error raised, middle) := by
    rw [alone, run_bind, Program.run_bind, alone]
    rcases call.run.run perform before with ⟨raised | value, middle⟩
    · rfl
    · rfl
  rw [hbind]
  rcases call.alone perform before with ⟨raised | value, middle⟩
  · simp
  · constructor
    · exact fun h => ⟨value, middle, rfl, h⟩
    · rintro ⟨_, _, hcall, h⟩
      cases hcall
      exact h

end Alone

theorem uses_execute {allowed : Action → Prop} {action : Action} (h : allowed action) :
    (execute action : Call Action Result Raised _).run.Uses allowed :=
  ⟨h, fun _ => trivial⟩

theorem uses_bind {allowed : Action → Prop} {call : Call Action Result Raised Value}
    {rest : Value → Call Action Result Raised Other} (hcall : call.run.Uses allowed)
    (hrest : ∀ value, (rest value).run.Uses allowed) : (call >>= rest).run.Uses allowed := by
  rw [run_bind]
  apply Program.uses_bind hcall
  intro outcome
  cases outcome with
  | ok value => exact hrest value
  | error raised => exact trivial

theorem uses_tryCatch {allowed : Action → Prop} {call : Call Action Result Raised Value}
    {handler : Raised → Call Action Result Raised Value} (hcall : call.run.Uses allowed)
    (hhandler : ∀ raised, (handler raised).run.Uses allowed) :
    (tryCatch call handler).run.Uses allowed := by
  rw [run_tryCatch]
  apply Program.uses_bind hcall
  intro outcome
  cases outcome with
  | ok value => exact trivial
  | error raised => exact hhandler raised

end Call

end Oasi
