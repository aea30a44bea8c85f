import Mathlib.Data.Fintype.Pigeonhole
import Mathlib.Data.List.Basic

/-! # Deterministic acceptors

An acceptor reads a list of items. Which item it admits next depends on a state
that the items read so far determine.
-/

namespace Oasi

structure Acceptor (State Item : Type) where
  Admits : State → Item → Prop
  advance : State → Item → State

namespace Acceptor

variable {State Item : Type} (acceptor : Acceptor State Item)

/-- The state after some items. -/
def reach (state : State) (items : List Item) : State := items.foldl acceptor.advance state

/-- Every item is admitted where it stands. -/
def Accepts : State → List Item → Prop
  | _, [] => True
  | state, item :: rest => acceptor.Admits state item ∧ Accepts (acceptor.advance state item) rest

@[simp] theorem reach_nil (state : State) : acceptor.reach state [] = state := rfl

@[simp] theorem reach_cons (state : State) (item : Item) (rest : List Item) :
    acceptor.reach state (item :: rest) = acceptor.reach (acceptor.advance state item) rest := rfl

theorem reach_append (state : State) (first second : List Item) :
    acceptor.reach state (first ++ second) = acceptor.reach (acceptor.reach state first) second :=
  List.foldl_append

theorem reach_concat (state : State) (items : List Item) (item : Item) :
    acceptor.reach state (items ++ [item]) =
      acceptor.advance (acceptor.reach state items) item :=
  acceptor.reach_append state items [item]

@[simp] theorem accepts_nil (state : State) : acceptor.Accepts state [] := trivial

@[simp] theorem accepts_cons {state : State} {item : Item} {rest : List Item} :
    acceptor.Accepts state (item :: rest) ↔
      acceptor.Admits state item ∧ acceptor.Accepts (acceptor.advance state item) rest := Iff.rfl

theorem accepts_append {state : State} {first second : List Item} :
    acceptor.Accepts state (first ++ second) ↔
      acceptor.Accepts state first ∧ acceptor.Accepts (acceptor.reach state first) second := by
  induction first generalizing state with
  | nil => simp
  | cons item rest ih => simp [ih, and_assoc]

theorem accepts_concat {state : State} {items : List Item} {item : Item} :
    acceptor.Accepts state (items ++ [item]) ↔
      acceptor.Accepts state items ∧ acceptor.Admits (acceptor.reach state items) item := by
  simp [accepts_append]

/-- Nothing follows a state that admits no item. -/
theorem accepts_append_of_final {state : State} {items more : List Item}
    (hfinal : ∀ item, ¬acceptor.Admits (acceptor.reach state items) item)
    (h : acceptor.Accepts state (items ++ more)) : more = [] := by
  cases more with
  | nil => rfl
  | cons item rest => exact absurd (acceptor.accepts_append.mp h).2.1 (hfinal item)

/-! ## Items chosen by the state -/

/-- So many items, each chosen by the state it is read in. -/
def trail (choose : State → Item) : Nat → State → List Item
  | 0, _ => []
  | count + 1, state =>
      choose state :: trail choose count (acceptor.advance state (choose state))

@[simp] theorem length_trail (choose : State → Item) (count : Nat) (state : State) :
    (acceptor.trail choose count state).length = count := by
  induction count generalizing state with
  | zero => rfl
  | succ count ih => rw [trail, List.length_cons, ih]

/-- A shorter trail is the beginning of a longer one. -/
theorem trail_prefix (choose : State → Item) {first second : Nat} (h : first ≤ second)
    (state : State) : acceptor.trail choose first state <+: acceptor.trail choose second state := by
  induction first generalizing second state with
  | zero => exact List.nil_prefix
  | succ first ih =>
      cases second with
      | zero => omega
      | succ second => exact List.prefix_cons_inj _ |>.mpr (ih (by omega) _)

theorem accepts_trail {choose : State → Item} {invariant : State → Prop}
    (hadmits : ∀ state, invariant state → acceptor.Admits state (choose state))
    (hstep : ∀ state, invariant state → invariant (acceptor.advance state (choose state)))
    (count : Nat) {state : State} (hstate : invariant state) :
    acceptor.Accepts state (acceptor.trail choose count state) ∧
      invariant (acceptor.reach state (acceptor.trail choose count state)) := by
  induction count generalizing state with
  | zero => exact ⟨trivial, hstate⟩
  | succ count ih =>
      obtain ⟨haccepts, hreach⟩ := ih (hstep state hstate)
      exact ⟨⟨hadmits state hstate, haccepts⟩, hreach⟩

/-- With finitely many states, two trails of different lengths end in one state. -/
theorem exists_trails_meet [Finite State] (choose : State → Item) (state : State) :
    ∃ first second, first < second ∧
      acceptor.reach state (acceptor.trail choose first state) =
        acceptor.reach state (acceptor.trail choose second state) := by
  obtain ⟨first, second, hne, hmeet⟩ := Finite.exists_ne_map_eq_of_infinite
    fun count => acceptor.reach state (acceptor.trail choose count state)
  rcases Nat.lt_or_gt_of_ne hne with hlt | hgt
  · exact ⟨first, second, hlt, hmeet⟩
  · exact ⟨second, first, hgt, hmeet.symm⟩

end Acceptor

end Oasi
