import Mathlib.Order.Basic
import Mathlib.Tactic.Common
import Mathlib.Order.Lattice

/-!
# Search trees

A node of a search tree has separators, and children before, between and after them. `IsSlot` says between
which separators a key belongs, and `Way` is the path that a key takes to a leaf. Nothing is assumed of the
order of the separators: the slot of a key is before the first separator that is greater.
-/

namespace CS640.Lib

variable {α P : Type} [LinearOrder α] {key : Nat → α} {n i j : Nat} {k : α}

/-- `k` belongs after `j` of the `n` separators. -/
structure IsSlot (key : Nat → α) (n : Nat) (k : α) (j : Nat) : Prop where
  le : j ≤ n
  before : ∀ i < j, key i ≤ k
  next : j < n → k < key j

theorem exists_isSlot (key : Nat → α) (n : Nat) (k : α) : ∃ j, IsSlot key n k j := by
  induction n with
  | zero => exact ⟨0, Nat.le_refl 0, nofun, nofun⟩
  | succ n ih =>
      obtain ⟨j, hj⟩ := ih
      rcases Nat.lt_or_ge j n with hlt | hge
      · exact ⟨j, Nat.le_succ_of_le hj.le, hj.before, fun _ => hj.next hlt⟩
      · -- all separators so far are at most `k`: the last one decides
        have heq : j = n := Nat.le_antisymm hj.le hge
        subst heq
        rcases lt_or_ge k (key j) with hlt | hle
        · exact ⟨j, Nat.le_succ j, hj.before, fun _ => hlt⟩
        · refine ⟨j + 1, Nat.le_refl _, fun i hi => ?_, fun h => absurd h (Nat.lt_irrefl _)⟩
          rcases Nat.lt_succ_iff_lt_or_eq.mp hi with hi | rfl
          · exact hj.before i hi
          · exact hle

/-- The nodes of a tree: how many separators each has, the separators and the children. -/
structure SearchTree (α P : Type) where
  count : P → Nat
  key : P → Nat → α
  child : P → Nat → P

/-- The nodes that `k` passes from a node of the given level down to a leaf. -/
inductive Way (t : SearchTree α P) (k : α) : (level : Nat) → P → List P → Prop
  | leaf (p : P) : Way t k 0 p [p]
  | node {level j : Nat} {p : P} {nodes : List P} :
      IsSlot (t.key p) (t.count p) k j → Way t k level (t.child p j) nodes →
      Way t k (level + 1) p (p :: nodes)

namespace Way

variable {t t' : SearchTree α P} {level : Nat} {p : P} {nodes nodes' : List P}

/-- There is a way for each key, and just one. -/
theorem exists_way (t : SearchTree α P) (k : α) (level : Nat) (p : P) : ∃ nodes, Way t k level p nodes := by
  induction level generalizing p with
  | zero => exact ⟨[p], .leaf p⟩
  | succ level ih =>
      obtain ⟨j, hj⟩ := exists_isSlot (t.key p) (t.count p) k
      obtain ⟨nodes, hway⟩ := ih (t.child p j)
      exact ⟨p :: nodes, .node hj hway⟩

theorem length (h : Way t k level p nodes) : nodes.length = level + 1 := by
  induction h with
  | leaf => rfl
  | node _ _ ih => rw [List.length_cons, ih]

theorem head (h : Way t k level p nodes) : nodes[0]? = some p := by
  cases h <;> rfl

end Way

end CS640.Lib
