import Mathlib.Algebra.GroupWithZero.Nat
import Mathlib.Data.List.Basic

/-! # Trees with named children

A node holds a value and lists its children with their names. A path of names leads from
a node to those below it, through nodes whose values let it pass.
-/

namespace Oasi

inductive NamedTree (ν α : Type) where
  | node (value : α) (children : List (ν × NamedTree ν α))

namespace NamedTree

variable {ν α : Type}

def value : NamedTree ν α → α
  | node value _ => value

def children : NamedTree ν α → List (ν × NamedTree ν α)
  | node _ children => children

mutual

/-- The number of nodes. -/
def size : NamedTree ν α → Nat
  | node _ children => sizes children + 1

def sizes : List (ν × NamedTree ν α) → Nat
  | [] => 0
  | (_, child) :: rest => child.size + sizes rest

end

theorem sizes_eq_sum (children : List (ν × NamedTree ν α)) :
    sizes children = (children.map fun child => child.2.size).sum := by
  induction children with
  | nil => rfl
  | cons child rest ih => rw [sizes, ih, List.map_cons, List.sum_cons]

theorem size_eq (tree : NamedTree ν α) :
    tree.size = (tree.children.map fun child => child.2.size).sum + 1 := by
  cases tree with
  | node value children => rw [size, sizes_eq_sum, NamedTree.children]

/-! ## Paths -/

/-- A path leads to a node below another one; each node on the way is entered. -/
inductive Below (enters : α → Prop) : NamedTree ν α → List ν → NamedTree ν α → Prop where
  | child {tree child : NamedTree ν α} {name : ν} (hchild : (name, child) ∈ tree.children) :
      Below enters tree [name] child
  | deeper {tree child node : NamedTree ν α} {name : ν} {path : List ν}
      (hchild : (name, child) ∈ tree.children) (henters : enters child.value)
      (hbelow : Below enters child path node) : Below enters tree (name :: path) node

variable {enters : α → Prop} {tree : NamedTree ν α}

/-- What holds of every node below is shown for the children and below them. -/
theorem forall_below_iff {holds : List ν → NamedTree ν α → Prop} :
    (∀ path node, Below enters tree path node → holds path node) ↔
      ∀ child ∈ tree.children, holds [child.1] child.2 ∧ (enters child.2.value →
        ∀ path node, Below enters child.2 path node → holds (child.1 :: path) node) := by
  constructor
  · intro h child hchild
    refine ⟨h _ _ (.child hchild), ?_⟩
    intro henters path node hbelow
    exact h _ _ (.deeper hchild henters hbelow)
  · intro h path node hbelow
    cases hbelow with
    | child hchild => exact (h _ hchild).1
    | deeper hchild henters hbelow => exact (h _ hchild).2 henters _ _ hbelow

theorem exists_below_iff {holds : List ν → NamedTree ν α → Prop} :
    (∃ path node, Below enters tree path node ∧ holds path node) ↔
      ∃ child ∈ tree.children, holds [child.1] child.2 ∨ (enters child.2.value ∧
        ∃ path node, Below enters child.2 path node ∧ holds (child.1 :: path) node) := by
  constructor
  · intro ⟨path, last, hbelow, hholds⟩
    cases hbelow with
    | child hchild => exact ⟨_, hchild, .inl hholds⟩
    | deeper hchild henters hbelow =>
        exact ⟨_, hchild, .inr ⟨henters, _, _, hbelow, hholds⟩⟩
  · intro ⟨child, hchild, h⟩
    cases h with
    | inl hholds => exact ⟨_, _, .child hchild, hholds⟩
    | inr h =>
        obtain ⟨henters, path, last, hbelow, hholds⟩ := h
        exact ⟨_, _, .deeper hchild henters hbelow, hholds⟩

end NamedTree

end Oasi
