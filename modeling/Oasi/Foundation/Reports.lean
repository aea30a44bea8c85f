import Oasi.Foundation.Checked

/-! # Computations that record messages

A checker records what it finds wrong and goes on; it may also raise an error, and
then keeps what it recorded. A clean run records nothing and raises nothing, and it
is clean in each of its steps.
-/

namespace Oasi

/-- What was recorded, and the result or the error that ended the computation. -/
structure Reported (μ ε α : Type) where
  messages : List μ
  result : Except ε α
  deriving DecidableEq

namespace Reported

variable {μ ε α β : Type}

instance : Monad (Reported μ ε) where
  pure value := ⟨[], .ok value⟩
  bind first second :=
    match first.result with
    | .error error => ⟨first.messages, .error error⟩
    | .ok value => ⟨first.messages ++ (second value).messages, (second value).result⟩

/-- Nothing recorded and nothing raised. -/
def Clean (computation : Reported μ ε α) (value : α) : Prop :=
  computation.messages = [] ∧ computation.result = .ok value

def note (message : μ) : Reported μ ε Unit := ⟨[message], .ok ()⟩

def noteAll (messages : List μ) : Reported μ ε Unit := ⟨messages, .ok ()⟩

def noteIf (condition : Prop) [Decidable condition] (message : μ) : Reported μ ε Unit :=
  if condition then note message else pure ()

def ofExcept (result : Except ε α) : Reported μ ε α := ⟨[], result⟩

theorem clean_bind {first : Reported μ ε α} {second : α → Reported μ ε β} {result : β} :
    (first >>= second).Clean result ↔
      ∃ value, first.Clean value ∧ (second value).Clean result := by
  obtain ⟨messages, outcome⟩ := first
  cases outcome with
  | error error => simp [Clean, bind]
  | ok value =>
      simp only [Clean, bind, List.append_eq_nil_iff, Except.ok.injEq]
      constructor
      · rintro ⟨⟨hfirst, hsecond⟩, hresult⟩
        exact ⟨value, ⟨hfirst, rfl⟩, hsecond, hresult⟩
      · rintro ⟨_, ⟨hfirst, rfl⟩, hsecond, hresult⟩
        exact ⟨⟨hfirst, hsecond⟩, hresult⟩

/-- What was recorded has no part in the result. -/
theorem result_bind (first : Reported μ ε α) (second : α → Reported μ ε β) :
    (first >>= second).result = first.result >>= fun value => (second value).result := by
  obtain ⟨messages, outcome⟩ := first
  cases outcome <;> rfl

theorem result_foldlM {σ : Type} (step : σ → α → Reported μ ε σ) (elements : List α)
    (state : σ) : (elements.foldlM step state).result =
      elements.foldlM (fun state element => (step state element).result) state := by
  induction elements generalizing state with
  | nil => rfl
  | cons element elements ih => simp only [List.foldlM_cons, result_bind, ih]

@[simp] theorem clean_pure {value result : α} :
    (pure value : Reported μ ε α).Clean result ↔ value = result := by
  simp [Clean, pure]

/-- A loop over steps is clean when every element is good, with the plain loop's result. -/
theorem clean_foldlM {σ : Type} {step : σ → α → Reported μ ε σ} {good : α → Prop}
    {next : σ → α → σ}
    (h : ∀ state element result,
      (step state element).Clean result ↔ good element ∧ next state element = result)
    {elements : List α} {state result : σ} :
    (elements.foldlM step state).Clean result ↔
      (∀ element ∈ elements, good element) ∧ elements.foldl next state = result := by
  induction elements generalizing state with
  | nil => simp
  | cons element elements ih =>
      rw [List.foldlM_cons, clean_bind, List.forall_mem_cons, List.foldl_cons]
      constructor
      · rintro ⟨middle, hstep, hrest⟩
        obtain ⟨hgood, rfl⟩ := (h _ _ _).mp hstep
        obtain ⟨hall, hresult⟩ := ih.mp hrest
        exact ⟨⟨hgood, hall⟩, hresult⟩
      · rintro ⟨⟨hgood, hall⟩, hresult⟩
        exact ⟨_, (h _ _ _).mpr ⟨hgood, rfl⟩, ih.mpr ⟨hall, hresult⟩⟩

@[simp] theorem clean_note {message : μ} {result : Unit} :
    (note message : Reported μ ε Unit).Clean result ↔ False := by
  simp [Clean, note]

@[simp] theorem clean_noteAll {messages : List μ} {result : Unit} :
    (noteAll messages : Reported μ ε Unit).Clean result ↔ messages = [] := by
  simp [Clean, noteAll]

@[simp] theorem clean_noteIf {condition : Prop} [Decidable condition] {message : μ}
    {result : Unit} : (noteIf condition message : Reported μ ε Unit).Clean result ↔ ¬condition := by
  by_cases h : condition <;> simp [noteIf, h]

@[simp] theorem clean_ofExcept {outcome : Except ε α} {result : α} :
    (ofExcept outcome : Reported μ ε α).Clean result ↔ outcome = .ok result := by
  simp [Clean, ofExcept]

/-- A loop over checks is clean when every check is. -/
theorem clean_forM {elements : List α} {body : α → Reported μ ε Unit} {result : Unit} :
    (elements.forM body).Clean result ↔ ∀ element ∈ elements, (body element).Clean () := by
  induction elements with
  | nil => exact clean_pure.trans (by simp)
  | cons element elements ih =>
      rw [List.forall_mem_cons, ← ih]
      change (body element >>= fun _ => elements.forM body).Clean result ↔ _
      rw [clean_bind]
      exact ⟨fun ⟨_, hfirst, hrest⟩ => ⟨hfirst, hrest⟩, fun ⟨hfirst, hrest⟩ => ⟨(), hfirst, hrest⟩⟩

/-- A computation that raises nothing is clean when it records nothing. -/
theorem messages_eq_nil_iff {computation : Reported μ Empty α} :
    computation.messages = [] ↔ ∃ value, computation.Clean value := by
  obtain ⟨messages, result⟩ := computation
  cases result with
  | error error => exact error.elim
  | ok value => simp [Clean]

theorem ofExcept_ok_bind {value : α} {second : α → Reported μ ε β} :
    (ofExcept (.ok value) >>= second) = second value := rfl

/-! ## Checks that decide a property -/

/-- The check raises nothing, and records nothing exactly when the property holds. -/
def Decides (check : Reported μ ε Unit) (property : Prop) : Prop :=
  check.result = .ok () ∧ (check.messages = [] ↔ property)

namespace Decides

variable {check second : Reported μ ε Unit} {property other : Prop}

theorem congr (h : check.Decides property) (hiff : property ↔ other) : check.Decides other :=
  ⟨h.1, h.2.trans hiff⟩

theorem pure_unit : (pure () : Reported μ ε Unit).Decides True := ⟨rfl, by simp [pure]⟩

theorem note_message (message : μ) : (note message : Reported μ ε Unit).Decides False :=
  ⟨rfl, by simp [note]⟩

theorem noteIf_condition (condition : Prop) [Decidable condition] (message : μ) :
    (noteIf condition message : Reported μ ε Unit).Decides ¬condition := by
  unfold noteIf
  split
  next hcondition => exact (note_message message).congr (by simp [hcondition])
  next hcondition => exact pure_unit.congr (by simp [hcondition])

theorem bind_unit (hcheck : check.Decides property) (hsecond : second.Decides other) :
    (check >>= fun _ => second).Decides (property ∧ other) := by
  obtain ⟨messages, result⟩ := check
  obtain ⟨rfl, hmessages⟩ := hcheck
  refine ⟨hsecond.1, ?_⟩
  rw [← hmessages, ← hsecond.2]
  exact List.append_eq_nil_iff

theorem ofExcept_bind {found : α} {rest : α → Reported μ ε Unit} {outcome : Except ε α}
    (houtcome : outcome = .ok found) (h : (rest found).Decides property) :
    (ofExcept outcome >>= rest).Decides property := by
  rw [houtcome]
  exact h

/-- A loop decides that the property holds of each element. -/
theorem forM_list {elements : List α} {body : α → Reported μ ε Unit} {holds : α → Prop}
    (h : ∀ element ∈ elements, (body element).Decides (holds element)) :
    (elements.forM body).Decides (∀ element ∈ elements, holds element) := by
  induction elements with
  | nil => exact pure_unit.congr (by simp)
  | cons element elements ih =>
      have hhead := h element List.mem_cons_self
      have htail := ih fun element helement => h element (List.mem_cons_of_mem _ helement)
      exact (hhead.bind_unit htail).congr List.forall_mem_cons.symm

end Decides

end Reported

end Oasi
