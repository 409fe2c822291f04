import Mathlib.Algebra.BigOperators.Group.Finset.Basic
import Mathlib.Algebra.Order.BigOperators.Group.Finset
import Mathlib.Order.Interval.Finset.Nat

/-!
# Tilings of an interval

Items `i` of a finite set lie at `off i` and are `len i` long. `Tiles s off len a b` says that they are
not empty, do not overlap and fill the interval from `a` to `b`.

Taking one item out of a tiling and moving the items below it up by its length leaves a tiling again
(`Tiles.remove`); the items that move fill what is below it (`Tiles.sum_below`), from the start of the
tiling (`Tiles.exists_start`).
-/

namespace CS640.Lib

open Finset

variable {ι : Type} {s : Finset ι} {off len : ι → Nat} {a b : Nat} {k : ι}

/-- No two of the items overlap. -/
def Apart (s : Finset ι) (off len : ι → Nat) : Prop :=
  ∀ i ∈ s, ∀ j ∈ s, i ≠ j → off i + len i ≤ off j ∨ off j + len j ≤ off i

/-- Items that do not overlap are no longer than the interval they are in. -/
theorem sum_len_le (off : ι → Nat) (within : ∀ i ∈ s, a ≤ off i ∧ off i + len i ≤ b) (apart : Apart s off len) :
    ∑ i ∈ s, len i ≤ b - a := by
  classical
  have hdisjoint : ∀ i ∈ s, ∀ j ∈ s, i ≠ j →
      Disjoint (Ico (off i) (off i + len i)) (Ico (off j) (off j + len j)) := by
    intro i hi j hj hne
    rw [disjoint_left]
    intro x hxi hxj
    rw [mem_Ico] at hxi hxj
    rcases apart i hi j hj hne with h | h <;> omega
  have hsub : s.biUnion (fun i => Ico (off i) (off i + len i)) ⊆ Ico a b := by
    intro x hx
    obtain ⟨i, hi, hx⟩ := mem_biUnion.mp hx
    have := within i hi
    rw [mem_Ico] at hx ⊢
    omega
  calc ∑ i ∈ s, len i = ∑ i ∈ s, #(Ico (off i) (off i + len i)) := by simp
    _ = #(s.biUnion fun i => Ico (off i) (off i + len i)) := (card_biUnion hdisjoint).symm
    _ ≤ #(Ico a b) := card_le_card hsub
    _ = b - a := Nat.card_Ico a b

/-- The items fill the interval from `a` to `b`. -/
structure Tiles (s : Finset ι) (off len : ι → Nat) (a b : Nat) : Prop where
  le : a ≤ b
  pos : ∀ i ∈ s, 0 < len i
  within : ∀ i ∈ s, a ≤ off i ∧ off i + len i ≤ b
  apart : Apart s off len
  sum : ∑ i ∈ s, len i = b - a

namespace Tiles

theorem empty (b : Nat) : Tiles (∅ : Finset ι) off len b b where
  le := le_refl b
  pos i hi := absurd hi (notMem_empty i)
  within i hi := absurd hi (notMem_empty i)
  apart i hi := absurd hi (notMem_empty i)
  sum := by simp

theorem congr {off' len' : ι → Nat} (h : Tiles s off len a b) (hoff : ∀ i ∈ s, off' i = off i)
    (hlen : ∀ i ∈ s, len' i = len i) : Tiles s off' len' a b where
  le := h.le
  pos i hi := by
    rw [hlen i hi]
    exact h.pos i hi
  within i hi := by
    rw [hoff i hi, hlen i hi]
    exact h.within i hi
  apart i hi j hj hne := by
    rw [hoff i hi, hlen i hi, hoff j hj, hlen j hj]
    exact h.apart i hi j hj hne
  sum := by rw [sum_congr rfl hlen, h.sum]

/-- Another item is either below the item `k` or above it. -/
theorem below_or_above (h : Tiles s off len a b) (hk : k ∈ s) {i : ι} (hi : i ∈ s) (hne : i ≠ k) :
    off i < off k ∧ off i + len i ≤ off k ∨ off k ≤ off i ∧ off k + len k ≤ off i := by
  have hpos := h.pos i hi
  have hposk := h.pos k hk
  rcases h.apart i hi k hk hne with h' | h' <;> omega

section Erase

variable [DecidableEq ι]

/-- The items below `k` fill the interval below it. -/
theorem sum_below (h : Tiles s off len a b) (hk : k ∈ s) :
    ∑ i ∈ s with off i < off k, len i = off k - a := by
  have hkin := h.within k hk
  have hbelow : ∑ i ∈ s with off i < off k, len i ≤ off k - a := by
    apply sum_len_le off
    · intro i hi
      obtain ⟨hi, hlt⟩ := mem_filter.mp hi
      have hne : i ≠ k := by
        rintro rfl
        exact absurd hlt (lt_irrefl _)
      have := h.within i hi
      rcases h.below_or_above hk hi hne with h' | h' <;> omega
    · intro i hi j hj
      exact h.apart i (mem_filter.mp hi).1 j (mem_filter.mp hj).1
  have habove : ∑ i ∈ (s.filter fun i => ¬ off i < off k).erase k, len i ≤
      b - (off k + len k) := by
    apply sum_len_le off
    · intro i hi
      obtain ⟨hne, hi⟩ := mem_erase.mp hi
      obtain ⟨hi, hge⟩ := mem_filter.mp hi
      have := h.within i hi
      rcases h.below_or_above hk hi hne with h' | h' <;> omega
    · intro i hi j hj
      exact h.apart i (mem_filter.mp (mem_of_mem_erase hi)).1 j
        (mem_filter.mp (mem_of_mem_erase hj)).1
  have hmem : k ∈ s.filter fun i => ¬ off i < off k :=
    mem_filter.mpr ⟨hk, lt_irrefl _⟩
  have hsplit := sum_filter_add_sum_filter_not s (fun i => off i < off k) len
  have hk' := add_sum_erase _ len hmem
  have hsum := h.sum
  omega

/-- If there is anything below `k`, then something lies at the start. -/
theorem exists_start (h : Tiles s off len a b) (hk : k ∈ s) (hlt : a < off k) :
    ∃ i ∈ s, off i = a := by
  by_contra hnone
  have hsum := h.sum_below hk
  have hle : ∑ i ∈ s with off i < off k, len i ≤ off k - (a + 1) := by
    apply sum_len_le off
    · intro i hi
      obtain ⟨hi, hlt⟩ := mem_filter.mp hi
      have hne : i ≠ k := by
        rintro rfl
        exact absurd hlt (lt_irrefl _)
      have hne' : off i ≠ a := fun heq => hnone ⟨i, hi, heq⟩
      have := h.within i hi
      rcases h.below_or_above hk hi hne with h' | h' <;> omega
    · intro i hi j hj
      exact h.apart i (mem_filter.mp hi).1 j (mem_filter.mp hj).1
  omega

/-- A new item just below the others. -/
theorem insert (h : Tiles s off len a b) (hk : k ∉ s) (hpos : 0 < len k) (hle : len k ≤ a)
    (hoff : off k = a - len k) : Tiles (insert k s) off len (a - len k) b where
  le := by
    have := h.le
    omega
  pos i hi := by
    rcases mem_insert.mp hi with rfl | hi
    · exact hpos
    · exact h.pos i hi
  within i hi := by
    have hab := h.le
    rcases mem_insert.mp hi with rfl | hi
    · omega
    · have := h.within i hi
      omega
  apart i hi j hj hne := by
    rcases mem_insert.mp hi with rfl | hi'
    · rcases mem_insert.mp hj with rfl | hj'
      · exact absurd rfl hne
      · have := h.within j hj'
        omega
    · rcases mem_insert.mp hj with rfl | hj'
      · have := h.within i hi'
        omega
      · exact h.apart i hi' j hj' hne
  sum := by
    have hab := h.le
    rw [sum_insert hk, h.sum]
    omega

/-- Taking `k` out and moving what is below it up by its length. -/
theorem remove (h : Tiles s off len a b) (hk : k ∈ s) :
    Tiles (s.erase k) (fun i => if off i < off k then off i + len k else off i) len (a + len k) b where
  le := by
    have := h.within k hk
    omega
  pos i hi := h.pos i (mem_of_mem_erase hi)
  within i hi := by
    obtain ⟨hne, hi⟩ := mem_erase.mp hi
    have hi' := h.within i hi
    have hk' := h.within k hk
    rcases h.below_or_above hk hi hne with h' | h'
    · rw [if_pos h'.1]
      omega
    · rw [if_neg (by omega)]
      omega
  apart i hi j hj hne := by
    obtain ⟨hik, hi⟩ := mem_erase.mp hi
    obtain ⟨hjk, hj⟩ := mem_erase.mp hj
    have hij := h.apart i hi j hj hne
    dsimp only
    rcases h.below_or_above hk hi hik with hi' | hi' <;>
      rcases h.below_or_above hk hj hjk with hj' | hj'
    · rw [if_pos hi'.1, if_pos hj'.1]
      omega
    · rw [if_pos hi'.1, if_neg (by omega)]
      omega
    · rw [if_neg (by omega), if_pos hj'.1]
      omega
    · rw [if_neg (by omega), if_neg (by omega)]
      exact hij
  sum := by
    have hsum := add_sum_erase s len hk
    have := h.sum
    have := h.within k hk
    omega

end Erase

end Tiles

end CS640.Lib
