import Mathlib.Data.List.Nodup
import Mathlib.Logic.Function.Basic
import Mathlib.Tactic.Common

/-!
# Chained hash tables

A table of chains: a key is looked for, put in front of, or taken out of the chain at its index.
No chain holds a key twice, which the type of tables says. What a table means is the partial map
`get`; `get_insert` and `get_erase` are all that is needed of the chains.
-/

namespace CS640.Lib

/-- Chains of entries, with the index of each key. -/
structure ChainedTable (K V : Type) where
  index : K → Nat
  chains : Nat → List (K × V)
  nodup : ∀ i, ((chains i).map Prod.fst).Nodup

namespace ChainedTable

variable {K V : Type} [DecidableEq K]

/-- The first entry with the key. -/
def find (k : K) : List (K × V) → Option V
  | [] => none
  | e :: l => if e.1 = k then some e.2 else find k l

/-- Take out the first entry with the key. -/
def remove (k : K) : List (K × V) → List (K × V)
  | [] => []
  | e :: l => if e.1 = k then l else e :: remove k l

theorem find_eq_none {k : K} {l : List (K × V)} : find k l = none ↔ k ∉ l.map Prod.fst := by
  induction l with
  | nil => simp [find]
  | cons e l ih =>
      rw [find]
      by_cases he : e.1 = k
      · simp [he]
      · rw [if_neg he, ih]
        simp [Ne.symm he]

theorem remove_sublist (k : K) (l : List (K × V)) : (remove k l).Sublist l := by
  induction l with
  | nil => exact .slnil
  | cons e l ih =>
      rw [remove]
      split
      · exact List.sublist_cons_self _ _
      · exact ih.cons_cons _

theorem find_remove {k k' : K} {l : List (K × V)} (h : (l.map Prod.fst).Nodup) :
    find k' (remove k l) = if k' = k then none else find k' l := by
  induction l with
  | nil => simp [find, remove]
  | cons e l ih =>
      obtain ⟨he, hl⟩ := List.nodup_cons.mp h
      rw [remove]
      by_cases hk : e.1 = k
      · rw [if_pos hk]
        by_cases hk' : k' = k
        · rw [if_pos hk', find_eq_none, hk', ← hk]
          exact he
        · have hne : e.1 ≠ k' := by
            intro h
            exact hk' (h.symm.trans hk)
          rw [if_neg hk', find, if_neg hne]
      · rw [if_neg hk, find, find, ih hl]
        by_cases hk' : e.1 = k'
        · have hne : k' ≠ k := by
            intro h
            exact hk (hk'.trans h)
          rw [if_pos hk', if_neg hne, if_pos hk']
        · rw [if_neg hk', if_neg hk']

/-- The entry that is found, with what stands before it. -/
theorem exists_of_find {k : K} {v : V} {l : List (K × V)} (h : find k l = some v) :
    ∃ l₁ l₂, l = l₁ ++ (k, v) :: l₂ ∧ k ∉ l₁.map Prod.fst := by
  induction l with
  | nil => simp [find] at h
  | cons e l ih =>
      rw [find] at h
      by_cases he : e.1 = k
      · rw [if_pos he, Option.some.injEq] at h
        exact ⟨[], l, by rw [← he, ← h]; rfl, by simp⟩
      · rw [if_neg he] at h
        obtain ⟨l₁, l₂, rfl, hl₁⟩ := ih h
        exact ⟨e :: l₁, l₂, rfl, by simp [Ne.symm he, hl₁]⟩

theorem remove_append {k : K} {v : V} {l₁ l₂ : List (K × V)} (h : k ∉ l₁.map Prod.fst) :
    remove k (l₁ ++ (k, v) :: l₂) = l₁ ++ l₂ := by
  induction l₁ with
  | nil => simp [remove]
  | cons e l₁ ih =>
      rw [List.map_cons, List.mem_cons, not_or] at h
      rw [List.cons_append, remove, if_neg (Ne.symm h.1), ih h.2]
      rfl

/-- A table without entries. -/
def empty (index : K → Nat) : ChainedTable K V where
  index := index
  chains := fun _ => []
  nodup := fun _ => List.nodup_nil

/-- The value of a key. -/
def get (t : ChainedTable K V) (k : K) : Option V := find k (t.chains (t.index k))

/-- Put a new key in front of its chain. A table that has the key stays as it is. -/
def insert (t : ChainedTable K V) (k : K) (v : V) : ChainedTable K V :=
  if h : t.get k = none then
    { t with
      chains := Function.update t.chains (t.index k) ((k, v) :: t.chains (t.index k))
      nodup := by
        intro i
        by_cases hi : i = t.index k
        · subst hi
          rw [Function.update_self]
          exact List.nodup_cons.mpr ⟨find_eq_none.mp h, t.nodup _⟩
        · rw [Function.update_of_ne hi]
          exact t.nodup i }
  else t

/-- Take a key out of its chain. -/
def erase (t : ChainedTable K V) (k : K) : ChainedTable K V :=
  { t with
    chains := Function.update t.chains (t.index k) (remove k (t.chains (t.index k)))
    nodup := by
      intro i
      by_cases hi : i = t.index k
      · subst hi
        rw [Function.update_self]
        exact ((remove_sublist k _).map Prod.fst).nodup (t.nodup _)
      · rw [Function.update_of_ne hi]
        exact t.nodup i }

theorem chains_insert {t : ChainedTable K V} {k : K} (h : t.get k = none) (v : V) :
    (t.insert k v).chains = Function.update t.chains (t.index k) ((k, v) :: t.chains (t.index k)) := by
  rw [insert, dif_pos h]

@[simp] theorem index_insert (t : ChainedTable K V) (k : K) (v : V) : (t.insert k v).index = t.index := by
  rw [insert]
  split <;> rfl

theorem chains_erase (t : ChainedTable K V) (k : K) :
    (t.erase k).chains = Function.update t.chains (t.index k) (remove k (t.chains (t.index k))) := rfl

@[simp] theorem index_erase (t : ChainedTable K V) (k : K) : (t.erase k).index = t.index := rfl

@[simp] theorem get_empty (index : K → Nat) (k : K) :
    (empty index : ChainedTable K V).get k = none := rfl

/-- **Insertion binds the key and no other.** -/
theorem get_insert {t : ChainedTable K V} {k : K} (h : t.get k = none) (v : V) (k' : K) :
    (t.insert k v).get k' = if k' = k then some v else t.get k' := by
  rw [insert, dif_pos h]
  show find k' (Function.update t.chains (t.index k) _ (t.index k')) = _
  by_cases hi : t.index k' = t.index k
  · rw [hi, Function.update_self, find]
    by_cases hk : k' = k
    · simp [hk]
    · rw [if_neg (Ne.symm hk), if_neg hk, ← hi]
      rfl
  · have hk : k' ≠ k := by
      rintro rfl
      exact hi rfl
    rw [Function.update_of_ne hi, if_neg hk]
    rfl

/-- **Erasure unbinds the key and no other.** -/
theorem get_erase (t : ChainedTable K V) (k k' : K) :
    (t.erase k).get k' = if k' = k then none else t.get k' := by
  show find k' (Function.update t.chains (t.index k) _ (t.index k')) = _
  by_cases hi : t.index k' = t.index k
  · rw [hi, Function.update_self, find_remove (t.nodup _), ← hi]
    rfl
  · have hk : k' ≠ k := by
      rintro rfl
      exact hi rfl
    rw [Function.update_of_ne hi, if_neg hk]
    rfl

end ChainedTable

end CS640.Lib
