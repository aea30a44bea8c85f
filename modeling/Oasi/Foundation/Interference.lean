import Oasi.Foundation.Program

/-! # Interleaved programs

Agents run programs over one world, one atomic action at a time. An agent relies
on what the others leave alone and on an invariant that everybody keeps; in
return each of its own actions keeps the invariant and what the others rely on.
A program is safe at a world when this holds of every action it will ever
perform, whatever happens in between, and its value meets a postcondition.
-/

namespace Oasi

structure Interference (Agent World Action : Type) (Reply : Action → Type) where
  Performs : Agent → World → (action : Action) → Reply action → World → Prop
  Invariant : World → Prop
  Rely : Agent → World → World → Prop
  rely_refl : ∀ agent world, Rely agent world world
  rely_trans : ∀ {agent first second third}, Rely agent first second → Rely agent second third →
    Rely agent first third

namespace Interference

variable {Agent World Action Value Other : Type} {Reply : Action → Type}
  (sharing : Interference Agent World Action Reply)

/-- What the other agents may have made of the world. -/
structure Later (agent : Agent) (before after : World) : Prop where
  invariant : sharing.Invariant after
  rely : sharing.Rely agent before after

/-- What an action of the agent owes the other agents. -/
structure Keeps (agent : Agent) (before after : World) : Prop where
  invariant : sharing.Invariant after
  others : ∀ other, other ≠ agent → sharing.Rely other before after

def Safe (agent : Agent) (post : Value → World → Prop) : Program Action Reply Value → World → Prop
  | .done value, world => ∀ after, sharing.Later agent world after → post value after
  | .act action next, world => ∀ middle, sharing.Later agent world middle →
      ∀ reply after, sharing.Performs agent middle action reply after →
        sharing.Keeps agent middle after ∧ Safe agent post (next reply) after

variable {sharing} {agent : Agent} {post : Value → World → Prop}

theorem Later.refl {world : World} (h : sharing.Invariant world) :
    sharing.Later agent world world :=
  ⟨h, sharing.rely_refl agent world⟩

theorem Later.trans {first second third : World} (hfirst : sharing.Later agent first second)
    (hsecond : sharing.Later agent second third) : sharing.Later agent first third :=
  ⟨hsecond.invariant, sharing.rely_trans hfirst.rely hsecond.rely⟩

/-- An action of one agent is interference to every other one. -/
theorem Keeps.later {other : Agent} {before after : World} (h : sharing.Keeps agent before after)
    (hother : other ≠ agent) : sharing.Later other before after :=
  ⟨h.invariant, h.others other hother⟩

/-- Interference does not take safety away. -/
theorem Safe.later {program : Program Action Reply Value} {before after : World}
    (hsafe : sharing.Safe agent post program before) (hlater : sharing.Later agent before after) :
    sharing.Safe agent post program after := by
  cases program with
  | done value => exact fun last hlast => hsafe last (hlater.trans hlast)
  | act action next => exact fun middle hmiddle => hsafe middle (hlater.trans hmiddle)

/-- Safety may be shown at the world in which the agent moves next. -/
theorem safe_of_later {program : Program Action Reply Value} {world : World}
    (h : ∀ after, sharing.Later agent world after → sharing.Safe agent post program after) :
    sharing.Safe agent post program world := by
  cases program with
  | done value => exact fun last hlast => h last hlast last (.refl hlast.invariant)
  | act action next =>
      exact fun middle hmiddle => h middle hmiddle middle (.refl hmiddle.invariant)

theorem safe_act {action : Action} {next : Reply action → Program Action Reply Value}
    {world : World}
    (h : ∀ middle, sharing.Later agent world middle → ∀ reply after,
      sharing.Performs agent middle action reply after →
        sharing.Keeps agent middle after ∧ sharing.Safe agent post (next reply) after) :
    sharing.Safe agent post (.act action next) world := h

theorem safe_done {value : Value} {world : World}
    (h : ∀ after, sharing.Later agent world after → post value after) :
    sharing.Safe agent post (.done value) world := h

theorem safe_bind {program : Program Action Reply Other}
    {rest : Other → Program Action Reply Value} {world : World}
    (h : sharing.Safe agent (fun value after => sharing.Safe agent post (rest value) after)
      program world) :
    sharing.Safe agent post (program >>= rest) world := by
  induction program generalizing world with
  | done value => exact safe_of_later h
  | act action next ih =>
      rw [Program.act_bind]
      apply safe_act
      intro middle hmiddle reply after hperforms
      obtain ⟨hkeeps, hnext⟩ := h middle hmiddle reply after hperforms
      exact ⟨hkeeps, ih reply hnext⟩

theorem Safe.imp {weaker : Value → World → Prop} {program : Program Action Reply Value}
    {world : World} (hsafe : sharing.Safe agent post program world)
    (h : ∀ value after, sharing.Invariant after → post value after → weaker value after) :
    sharing.Safe agent weaker program world := by
  induction program generalizing world with
  | done value => exact fun after hafter => h value after hafter.invariant (hsafe after hafter)
  | act action next ih =>
      intro middle hmiddle reply after hperforms
      obtain ⟨hkeeps, hnext⟩ := hsafe middle hmiddle reply after hperforms
      exact ⟨hkeeps, ih reply hnext⟩

/-- The action that a safe program is about to perform. -/
theorem Safe.step {action : Action} {next : Reply action → Program Action Reply Value}
    {before after : World} {reply : Reply action}
    (hsafe : sharing.Safe agent post (.act action next) before)
    (hinvariant : sharing.Invariant before)
    (hperforms : sharing.Performs agent before action reply after) :
    sharing.Keeps agent before after ∧ sharing.Safe agent post (next reply) after :=
  hsafe before (.refl hinvariant) reply after hperforms

theorem Safe.post_value {value : Value} {world : World}
    (hsafe : sharing.Safe agent post (.done value) world) (hinvariant : sharing.Invariant world) :
    post value world := hsafe world (.refl hinvariant)

theorem Safe.and {other : Value → World → Prop} {program : Program Action Reply Value}
    {world : World} (hsafe : sharing.Safe agent post program world)
    (hother : sharing.Safe agent other program world) :
    sharing.Safe agent (fun value after => post value after ∧ other value after) program world := by
  induction program generalizing world with
  | done value => exact safe_done fun after hafter => ⟨hsafe after hafter, hother after hafter⟩
  | act action next ih =>
      apply safe_act
      intro middle hmiddle reply after hperforms
      obtain ⟨hkeeps, hnext⟩ := hsafe middle hmiddle reply after hperforms
      exact ⟨hkeeps, ih reply hnext (hother middle hmiddle reply after hperforms).2⟩

/-- An assertion that neither the agent nor the others take away may be kept
alongside any safe program. -/
theorem Safe.frame {assertion : World → Prop}
    (hstable : ∀ before after, sharing.Later agent before after → assertion before →
      assertion after)
    (hacts : ∀ before action reply after, sharing.Invariant before → assertion before →
      sharing.Performs agent before action reply after → assertion after)
    {program : Program Action Reply Value} {world : World}
    (hsafe : sharing.Safe agent post program world) (hworld : assertion world) :
    sharing.Safe agent (fun value after => post value after ∧ assertion after) program world := by
  induction program generalizing world with
  | done value =>
      exact safe_done fun after hafter => ⟨hsafe after hafter, hstable world after hafter hworld⟩
  | act action next ih =>
      apply safe_act
      intro middle hmiddle reply after hperforms
      obtain ⟨hkeeps, hnext⟩ := hsafe middle hmiddle reply after hperforms
      have hassertion := hstable world middle hmiddle hworld
      exact ⟨hkeeps, ih reply hnext (hacts middle action reply after hmiddle.invariant hassertion
        hperforms)⟩

/-- A program whose actions all keep a stable assertion keeps it. -/
theorem safe_of_uses {allowed : Action → Prop} {assertion : World → Prop}
    (hstable : ∀ before after, sharing.Later agent before after → assertion before →
      assertion after)
    (hkeeps : ∀ before action reply after, allowed action → sharing.Invariant before →
      assertion before → sharing.Performs agent before action reply after →
        sharing.Keeps agent before after ∧ assertion after)
    {program : Program Action Reply Value} (huses : program.Uses allowed) {world : World}
    (hworld : assertion world) :
    sharing.Safe agent (fun _ after => assertion after) program world := by
  induction program generalizing world with
  | done value => exact safe_done fun after hafter => hstable world after hafter hworld
  | act action next ih =>
      apply safe_act
      intro middle hmiddle reply after hperforms
      have hassertion := hstable world middle hmiddle hworld
      obtain ⟨hkeep, hafter⟩ :=
        hkeeps middle action reply after huses.1 hmiddle.invariant hassertion hperforms
      exact ⟨hkeep, ih reply (huses.2 reply) hafter⟩

/-- A program that is safe over one part of a world is safe over the world, when the rest
of it may keep an assertion. -/
theorem safe_inject {Whole Wider : Type} {Answer : Wider → Type}
    {whole : Interference Agent Whole Wider Answer} {embed : Action → Wider}
    {answers : ∀ action, Answer (embed action) → Reply action} {part : Whole → World}
    {allowed : Action → Prop} {assertion : Whole → Prop}
    (hlater : ∀ before after, whole.Later agent before after →
      sharing.Later agent (part before) (part after))
    (hstable : ∀ before after, whole.Later agent before after → assertion before →
      assertion after)
    (hacts : ∀ before action answer after, allowed action → whole.Invariant before →
      assertion before → whole.Performs agent before (embed action) answer after →
        sharing.Performs agent (part before) action (answers action answer) (part after) ∧
          (sharing.Keeps agent (part before) (part after) →
            whole.Keeps agent before after ∧ assertion after))
    {program : Program Action Reply Value} (huses : program.Uses allowed) {world : Whole}
    (hsafe : sharing.Safe agent post program (part world)) (hworld : assertion world) :
    whole.Safe agent (fun value after => post value (part after) ∧ assertion after)
      (program.inject embed answers) world := by
  induction program generalizing world with
  | done value =>
      exact safe_done fun after hafter =>
        ⟨hsafe (part after) (hlater world after hafter), hstable world after hafter hworld⟩
  | act action next ih =>
      apply safe_act
      intro middle hmiddle answer after hperforms
      have hassertion := hstable world middle hmiddle hworld
      obtain ⟨hperformed, hwhole⟩ :=
        hacts middle action answer after huses.1 hmiddle.invariant hassertion hperforms
      obtain ⟨hkeeps, hnext⟩ :=
        hsafe (part middle) (hlater world middle hmiddle) _ _ hperformed
      obtain ⟨hkeepsWhole, hafter⟩ := hwhole hkeeps
      exact ⟨hkeepsWhole, ih _ (huses.2 _) hnext hafter⟩

/-- A safe program that runs without interference stays safe wherever it is stopped. -/
theorem Safe.reaches {performs : World → (action : Action) → Reply action → World → Prop}
    (hperforms : ∀ before action reply after, performs before action reply after →
      sharing.Performs agent before action reply after)
    {program rest : Program Action Reply Value} {before after : World}
    (hreaches : program.Reaches performs before rest after)
    (hsafe : sharing.Safe agent post program before) (hinvariant : sharing.Invariant before) :
    sharing.Safe agent post rest after ∧ sharing.Invariant after := by
  induction hreaches with
  | stop => exact ⟨hsafe, hinvariant⟩
  | act hact _ ih =>
      obtain ⟨hkeeps, hnext⟩ := hsafe.step hinvariant (hperforms _ _ _ _ hact)
      exact ih hnext hkeeps.invariant

/-- An agent that nobody interferes with, and what its actions keep. -/
def solo (agent : Agent)
    (performs : Agent → World → (action : Action) → Reply action → World → Prop)
    (invariant : World → Prop) : Interference Agent World Action Reply where
  Performs := performs
  Invariant := invariant
  Rely := fun other before after => other = agent → after = before
  rely_refl := fun _ _ _ => rfl
  rely_trans := fun hfirst hsecond hagent => (hsecond hagent).trans (hfirst hagent)

section Solo

variable {performs : Agent → World → (action : Action) → Reply action → World → Prop}
  {invariant : World → Prop}

theorem solo_later {before after : World}
    (h : (solo agent performs invariant).Later agent before after) : after = before :=
  h.rely rfl

theorem solo_keeps {before after : World} (h : invariant after) :
    (solo agent performs invariant).Keeps agent before after :=
  ⟨h, fun _ hother hagent => absurd hagent hother⟩

/-- Nothing happens to a world in which the agent has ended. -/
theorem solo_stays {world : World} {post : World → Prop} (h : post world) :
    ∀ after, (solo agent performs invariant).Later agent world after → post after := by
  intro after hlater
  rw [solo_later hlater]
  exact h

/-- What a program keeps when it keeps more than it has to. -/
theorem Safe.solo_imp {narrow : World → Prop} (h : ∀ world, narrow world → invariant world)
    {program : Program Action Reply Value} {world : World} (hworld : narrow world)
    (hsafe : (solo agent performs narrow).Safe agent post program world) :
    (solo agent performs invariant).Safe agent (fun value after => narrow after ∧ post value after)
      program world := by
  induction program generalizing world with
  | done value =>
      intro after hafter
      rw [solo_later hafter]
      exact ⟨hworld, hsafe world (.refl hworld)⟩
  | act action next ih =>
      intro middle hmiddle reply after hperforms
      rw [solo_later hmiddle] at hperforms ⊢
      obtain ⟨hkeeps, hnext⟩ := hsafe.step hworld hperforms
      exact ⟨solo_keeps (h after hkeeps.invariant), ih reply hkeeps.invariant hnext⟩

end Solo

/-! ## Calls -/

section Calls

variable {Result : Action → Type} {Raised : Type}
  {calls : Interference Agent World Action fun action => Except Raised (Result action)}
  {ends : Except Raised Value → World → Prop}

theorem safe_call_bind {call : Call Action Result Raised Other}
    {rest : Other → Call Action Result Raised Value} {world : World}
    (h : calls.Safe agent (fun outcome after => match outcome with
      | .ok value => calls.Safe agent ends (rest value).run after
      | .error raised => ∀ last, calls.Later agent after last → ends (.error raised) last)
      call.run world) :
    calls.Safe agent ends (call >>= rest).run world := by
  rw [Call.run_bind]
  apply safe_bind
  apply h.imp
  intro outcome after _ houtcome
  cases outcome with
  | ok value => exact houtcome
  | error raised => exact safe_done houtcome

theorem safe_tryCatch {call : Call Action Result Raised Value}
    {handler : Raised → Call Action Result Raised Value} {world : World}
    (h : calls.Safe agent (fun outcome after => match outcome with
      | .ok value => ∀ last, calls.Later agent after last → ends (.ok value) last
      | .error raised => calls.Safe agent ends (handler raised).run after)
      call.run world) :
    calls.Safe agent ends (tryCatch call handler).run world := by
  rw [Call.run_tryCatch]
  apply safe_bind
  apply h.imp
  intro outcome after _ houtcome
  cases outcome with
  | ok value => exact safe_done houtcome
  | error raised => exact houtcome

/-- One action, from the world it happens in. -/
theorem safe_execute {action : Action} {post : Except Raised (Result action) → World → Prop}
    {world : World}
    (h : ∀ middle, calls.Later agent world middle → ∀ reply after,
      calls.Performs agent middle action reply after → calls.Keeps agent middle after ∧
        ∀ last, calls.Later agent after last → post reply last) :
    calls.Safe agent post (Call.execute action : Call Action Result Raised _).run world := by
  apply safe_act
  intro middle hmiddle reply after hperforms
  obtain ⟨hkeeps, hpost⟩ := h middle hmiddle reply after hperforms
  exact ⟨hkeeps, safe_done hpost⟩

/-- One action of an agent that nobody interferes with. -/
theorem safe_solo {performs : Agent → World → (action : Action) →
      Except Raised (Result action) → World → Prop} {invariant : World → Prop} {action : Action}
    {post : Except Raised (Result action) → World → Prop} {world : World}
    (h : ∀ reply after, invariant world → performs agent world action reply after →
      invariant after ∧ post reply after) :
    (solo agent performs invariant).Safe agent post
      (Call.execute action : Call Action Result Raised _).run world := by
  apply safe_execute
  intro middle hmiddle reply after hperforms
  have hinvariant := hmiddle.invariant
  rw [solo_later hmiddle] at hperforms hinvariant
  obtain ⟨hafter, hpost⟩ := h reply after hinvariant hperforms
  exact ⟨solo_keeps hafter, solo_stays hpost⟩

end Calls

end Interference

end Oasi
