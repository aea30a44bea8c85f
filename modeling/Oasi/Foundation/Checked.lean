import Mathlib.Algebra.GroupWithZero.Nat
import Mathlib.Data.List.Basic

/-! # Checked computations

Inversion of a sequence of fallible steps, and the additions of unsigned machine
words that report or absorb an overflow instead of wrapping.
-/

namespace Oasi

variable {ε α β : Type}

/-- A sequence of two fallible steps succeeds when both do. -/
theorem bind_eq_ok {first : Except ε α} {second : α → Except ε β} {result : β} :
    (first >>= second) = .ok result ↔ ∃ value, first = .ok value ∧ second value = .ok result := by
  cases first with
  | error error => simp [bind, Except.bind]
  | ok value => simp [bind, Except.bind]

@[simp] theorem ok_bind (value : α) (second : α → Except ε β) :
    (Except.ok value >>= second) = second value := rfl

theorem mapError_eq_ok {δ : Type} {convert : ε → δ} {outcome : Except ε α} {value : α} :
    outcome.mapError convert = .ok value ↔ outcome = .ok value := by
  cases outcome <;> simp [Except.mapError]

/-- An early return with an error. -/
def failIf (condition : Prop) [Decidable condition] (error : ε) : Except ε Unit :=
  if condition then .error error else .ok ()

@[simp] theorem failIf_eq_ok {condition : Prop} [Decidable condition] {error : ε} {value : Unit} :
    failIf condition error = .ok value ↔ ¬condition := by
  by_cases h : condition <;> simp [failIf, h]

/-- A loop over checks succeeds when every check does. -/
theorem forM_eq_ok {elements : List α} {check : α → Except ε Unit} :
    elements.forM check = .ok () ↔ ∀ element ∈ elements, check element = .ok () := by
  induction elements with
  | nil => simp [List.forM, pure, Except.pure]
  | cons element elements ih =>
      rw [List.forall_mem_cons, ← ih]
      change (check element >>= fun _ => elements.forM check) = .ok () ↔ _
      rw [bind_eq_ok]
      exact ⟨fun ⟨_, hfirst, hrest⟩ => ⟨hfirst, hrest⟩, fun ⟨hfirst, hrest⟩ => ⟨(), hfirst, hrest⟩⟩

/-- A loop over steps succeeds when every element is good, with the plain loop's result. -/
theorem foldlM_eq_ok {σ : Type} {step : σ → α → Except ε σ} {good : α → Prop}
    {next : σ → α → σ}
    (h : ∀ state element result,
      step state element = .ok result ↔ good element ∧ next state element = result)
    {elements : List α} {state result : σ} :
    elements.foldlM step state = .ok result ↔
      (∀ element ∈ elements, good element) ∧ elements.foldl next state = result := by
  induction elements generalizing state with
  | nil => simp [pure, Except.pure]
  | cons element elements ih =>
      rw [List.foldlM_cons, bind_eq_ok, List.forall_mem_cons, List.foldl_cons]
      constructor
      · rintro ⟨middle, hstep, hrest⟩
        obtain ⟨hgood, rfl⟩ := (h _ _ _).mp hstep
        obtain ⟨hall, hresult⟩ := ih.mp hrest
        exact ⟨⟨hgood, hall⟩, hresult⟩
      · rintro ⟨⟨hgood, hall⟩, hresult⟩
        exact ⟨_, (h _ _ _).mpr ⟨hgood, rfl⟩, ih.mpr ⟨hall, hresult⟩⟩

/-- What each step adds at most, a loop adds at most together. -/
theorem foldlM_le {σ : Type} {step : σ → α → Except ε σ} {measure : σ → Nat} {cost : α → Nat}
    (h : ∀ state element result, step state element = .ok result →
      measure result ≤ measure state + cost element)
    {elements : List α} {state result : σ} (hloop : elements.foldlM step state = .ok result) :
    measure result ≤ measure state + (elements.map cost).sum := by
  induction elements generalizing state with
  | nil =>
      cases hloop
      exact Nat.le_refl _
  | cons element elements ih =>
      rw [List.foldlM_cons, bind_eq_ok] at hloop
      obtain ⟨middle, hstep, hrest⟩ := hloop
      have hfirst := h _ _ _ hstep
      have hlater := ih hrest
      rw [List.map_cons, List.sum_cons]
      omega

/-- `u64::checked_add(1)`. -/
def checkedSucc (value : UInt64) : Option UInt64 :=
  if value.toNat + 1 < UInt64.size then some (value + 1) else none

/-- `u64::checked_add`. -/
def checkedAdd (first second : UInt64) : Option UInt64 :=
  if first.toNat + second.toNat < UInt64.size then some (first + second) else none

/-- `u64::saturating_add(1)`. -/
def saturatingSucc (value : UInt64) : UInt64 :=
  if value.toNat + 1 < UInt64.size then value + 1 else value

theorem toNat_succ {value : UInt64} (h : value.toNat + 1 < UInt64.size) :
    (value + 1).toNat = value.toNat + 1 := by
  rw [UInt64.toNat_add]
  exact Nat.mod_eq_of_lt h

theorem checkedSucc_eq_some {value next : UInt64} :
    checkedSucc value = some next ↔ next.toNat = value.toNat + 1 := by
  unfold checkedSucc
  split
  next hfits =>
    rw [Option.some.injEq, ← UInt64.toNat_inj, toNat_succ hfits, eq_comm]
  next hoverflow =>
    have := next.toNat_lt_size
    constructor
    · rintro ⟨⟩
    · omega

theorem toNat_saturatingSucc (value : UInt64) :
    (saturatingSucc value).toNat = min (value.toNat + 1) (UInt64.size - 1) := by
  unfold saturatingSucc
  have := value.toNat_lt_size
  split
  next hfits =>
    rw [toNat_succ hfits]
    omega
  next hoverflow => omega

theorem checkedSucc_eq_saturatingSucc {value next : UInt64} (h : checkedSucc value = some next) :
    saturatingSucc value = next := by
  have hnext := checkedSucc_eq_some.mp h
  have hlt := next.toNat_lt_size
  rw [← UInt64.toNat_inj, toNat_saturatingSucc, hnext]
  omega

theorem lt_of_checkedSucc {value next : UInt64} (h : checkedSucc value = some next) :
    value < next := by
  have hnext := checkedSucc_eq_some.mp h
  rw [UInt64.lt_iff_toNat_lt]
  omega

theorem le_of_checkedSucc {value next : UInt64} (h : checkedSucc value = some next) :
    value ≤ next := UInt64.le_of_lt (lt_of_checkedSucc h)

end Oasi
