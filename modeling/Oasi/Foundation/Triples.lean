import Oasi.Foundation.Interference

/-! # Calls between assertions

What a call among other agents makes of an assertion when it returns. A call that
raises has only kept the rules of its agent; what is to be done then is safe from
every world.
-/

namespace Oasi.Interference

variable {Agent World Action Value Other : Type} {Result : Action → Type} {Raised : Type}
  (calls : Interference Agent World Action fun action => Except Raised (Result action))

/-- Other agents do not take the assertion away. -/
def Stable (agent : Agent) (assertion : World → Prop) : Prop :=
  ∀ before after, calls.Later agent before after → assertion before → assertion after

/-- From the first assertion the call is safe and leads to the second one if it returns. -/
def Leads (agent : Agent) (pre : World → Prop) (call : Call Action Result Raised Value)
    (post : Value → World → Prop) : Prop :=
  ∀ world, pre world → calls.Safe agent
    (fun outcome after => ∀ value, outcome = .ok value → post value after) call.run world

variable {calls} {agent : Agent} {pre : World → Prop} {post : Value → World → Prop}

/-! ## Facts -/

theorem Stable.fact {assertion : World → Prop} {fact : Prop} (h : calls.Stable agent assertion) :
    calls.Stable agent fun world => fact ∧ assertion world :=
  fun before after hlater hbefore => ⟨hbefore.1, h before after hlater hbefore.2⟩

theorem Stable.some {Index : Type} {assertion : Index → World → Prop}
    (h : ∀ index, calls.Stable agent (assertion index)) :
    calls.Stable agent fun world => ∃ index, assertion index world := by
  rintro before after hlater ⟨index, hindex⟩
  exact ⟨index, h index before after hlater hindex⟩

theorem leads_fact {fact : Prop} {call : Call Action Result Raised Value}
    (h : fact → calls.Leads agent pre call post) :
    calls.Leads agent (fun world => fact ∧ pre world) call post :=
  fun world hworld => h hworld.1 world hworld.2

theorem leads_some {Index : Type} {assertion : Index → World → Prop}
    {call : Call Action Result Raised Value}
    (h : ∀ index, calls.Leads agent (assertion index) call post) :
    calls.Leads agent (fun world => ∃ index, assertion index world) call post :=
  fun world ⟨index, hindex⟩ => h index world hindex

/-! ## Rules -/

theorem Leads.weaken {narrow : World → Prop} {wide : Value → World → Prop}
    {call : Call Action Result Raised Value} (h : calls.Leads agent pre call post)
    (hpre : ∀ world, narrow world → pre world)
    (hpost : ∀ value world, post value world → wide value world) :
    calls.Leads agent narrow call wide := by
  intro world hworld
  apply (h world (hpre world hworld)).imp
  intro outcome after _ hafter value hvalue
  exact hpost value after (hafter value hvalue)

theorem leads_bind {middle : Other → World → Prop} {call : Call Action Result Raised Other}
    {rest : Other → Call Action Result Raised Value} (hcall : calls.Leads agent pre call middle)
    (hrest : ∀ value, calls.Leads agent (middle value) (rest value) post) :
    calls.Leads agent pre (call >>= rest) post := by
  intro world hworld
  apply safe_call_bind
  apply (hcall world hworld).imp
  intro outcome after _ hafter
  cases outcome with
  | ok value => exact hrest value after (hafter value rfl)
  | error raised => exact fun _ _ value hvalue => by cases hvalue

theorem leads_pure {value : Value} (hstable : calls.Stable agent pre)
    (h : ∀ world, pre world → post value world) :
    calls.Leads agent pre (pure value) post := by
  intro world hworld
  apply safe_done
  intro after hafter result hresult
  cases hresult
  exact h after (hstable world after hafter hworld)

theorem leads_throw {raised : Raised} :
    calls.Leads agent pre (throw raised : Call Action Result Raised Value) post :=
  fun _ _ _ _ _ hvalue => by cases hvalue

theorem leads_tryCatch {call : Call Action Result Raised Value}
    {handler : Raised → Call Action Result Raised Value}
    (hstable : ∀ value, calls.Stable agent (post value))
    (hcall : calls.Leads agent pre call post)
    (hhandler : ∀ raised, calls.Leads agent (fun _ => True) (handler raised) post) :
    calls.Leads agent pre (tryCatch call handler) post := by
  intro world hworld
  apply safe_tryCatch
  apply (hcall world hworld).imp
  intro outcome after _ hafter
  cases outcome with
  | ok value =>
      intro last hlast result hresult
      cases hresult
      exact hstable value after last hlast (hafter value rfl)
  | error raised => exact hhandler raised after trivial

theorem leads_ensuring {body : Call Action Result Raised Value}
    {cleanup : Call Action Result Raised Unit} (hstable : ∀ value, calls.Stable agent (post value))
    (hbody : calls.Leads agent pre body post)
    (hcleanup : ∀ value, calls.Leads agent (post value) cleanup fun _ => post value)
    (hraised : calls.Leads agent (fun _ => True) cleanup fun _ _ => True) :
    calls.Leads agent pre (body.ensuring cleanup) post := by
  apply leads_bind
  · apply leads_tryCatch hstable hbody
    intro raised
    apply leads_bind hraised
    intro _
    exact leads_throw
  · intro value
    apply leads_bind (hcleanup value)
    intro _
    exact leads_pure (hstable value) fun _ => id

/-- One action, from the world it happens in. -/
theorem leads_execute {action : Action} {post : Result action → World → Prop}
    (hpre : calls.Stable agent pre) (hpost : ∀ value, calls.Stable agent (post value))
    (h : ∀ before reply after, calls.Invariant before → pre before →
      calls.Performs agent before action reply after →
        calls.Keeps agent before after ∧ ∀ value, reply = .ok value → post value after) :
    calls.Leads agent pre (Call.execute action) post := by
  intro world hworld
  apply safe_execute
  intro middle hmiddle reply after hperforms
  obtain ⟨hkeeps, hafter⟩ :=
    h middle reply after hmiddle.invariant (hpre world middle hmiddle hworld) hperforms
  refine ⟨hkeeps, ?_⟩
  intro last hlast value hvalue
  exact hpost value after last hlast (hafter value hvalue)

/-- Actions that all keep a stable assertion keep it. -/
theorem leads_of_uses {allowed : Action → Prop} {call : Call Action Result Raised Value}
    (hstable : calls.Stable agent pre)
    (hkeeps : ∀ before action reply after, allowed action → calls.Invariant before →
      pre before → calls.Performs agent before action reply after →
        calls.Keeps agent before after ∧ pre after)
    (huses : call.run.Uses allowed) : calls.Leads agent pre call fun _ => pre := by
  intro world hworld
  apply (safe_of_uses hstable hkeeps huses hworld).imp
  intro outcome after _ hafter value _
  exact hafter

end Oasi.Interference
