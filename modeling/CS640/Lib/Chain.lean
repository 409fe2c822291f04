import Mathlib.Data.List.Nodup
import Mathlib.Data.List.Pairwise
import Mathlib.Tactic.Common

/-!
# Linked chains

Nodes of a type `α` are linked by a function `next`, and `null` marks the end. `Seg` is a stretch of
such a list and `Chain` a list that runs to its end. A chain is determined by its first node
(`Chain.unique`) and never meets a node twice (`Chain.nodup`), so a change of `next` at one node is
a change of the list at one place: `Chain.congr` is the frame rule, `Chain.unlink` and `Chain.link`
take a node out after its predecessor and put one in.
-/

namespace CS640.Lib

variable {α : Type} {next next' : α → α} {null : α}

/-- From `a`, following `next`, the nodes met before `b` are `l`, and none of them is `null`. -/
inductive Seg (next : α → α) (null : α) : α → List α → α → Prop
  | nil (a : α) : Seg next null a [] a
  | cons {a b : α} {l : List α} : a ≠ null → Seg next null (next a) l b → Seg next null a (a :: l) b

/-- From `a`, following `next` to its end, the nodes met are `l`. -/
abbrev Chain (next : α → α) (null : α) (a : α) (l : List α) : Prop := Seg next null a l null

namespace Seg

theorem head_eq {a b x : α} {l : List α} (h : Seg next null a (x :: l) b) : a = x := by
  cases h; rfl

theorem tail {a b x : α} {l : List α} (h : Seg next null a (x :: l) b) :
    Seg next null (next x) l b := by
  cases h with
  | cons _ h => exact h

theorem eq_of_nil {a b : α} (h : Seg next null a [] b) : a = b := by
  cases h; rfl

theorem append_iff {a c : α} {l₁ l₂ : List α} :
    Seg next null a (l₁ ++ l₂) c ↔ ∃ b, Seg next null a l₁ b ∧ Seg next null b l₂ c := by
  constructor
  · intro h
    induction l₁ generalizing a with
    | nil => exact ⟨a, .nil a, h⟩
    | cons x l₁ ih =>
        cases h with
        | cons hx h =>
            obtain ⟨b, h₁, h₂⟩ := ih h
            exact ⟨b, .cons hx h₁, h₂⟩
  · rintro ⟨b, h₁, h₂⟩
    induction h₁ with
    | nil => exact h₂
    | cons hx _ ih => exact .cons hx (ih h₂)

theorem ne_null {a b x : α} {l : List α} (h : Seg next null a l b) (hx : x ∈ l) : x ≠ null := by
  induction h with
  | nil => cases hx
  | cons ha _ ih =>
      rcases List.mem_cons.mp hx with rfl | hx
      · exact ha
      · exact ih hx

/-- A segment depends on the links of its own nodes only. -/
theorem congr {a b : α} {l : List α} (h : Seg next null a l b)
    (hn : ∀ x ∈ l, next' x = next x) : Seg next' null a l b := by
  induction h with
  | nil a => exact .nil a
  | @cons a b l ha _ ih =>
      refine .cons ha ?_
      rw [hn a List.mem_cons_self]
      exact ih fun x hx => hn x (List.mem_cons_of_mem _ hx)

end Seg

namespace Chain

theorem eq_nil_of_null {l : List α} (h : Chain next null null l) : l = [] := by
  cases h with
  | nil => rfl
  | cons hne _ => exact absurd rfl hne

/-- A node that is not `null` starts its chain. -/
theorem exists_cons {a : α} {l : List α} (h : Chain next null a l) (ha : a ≠ null) :
    ∃ l', l = a :: l' ∧ Chain next null (next a) l' := by
  cases h with
  | nil => exact absurd rfl ha
  | cons _ h => exact ⟨_, rfl, h⟩

/-- **A chain is determined by where it starts.** -/
theorem unique {a : α} {l l' : List α} (h : Chain next null a l) (h' : Chain next null a l') :
    l = l' := by
  induction l generalizing a l' with
  | nil =>
      rw [Seg.eq_of_nil h] at h'
      exact (eq_nil_of_null h').symm
  | cons x l ih =>
      obtain rfl := Seg.head_eq h
      obtain ⟨t, rfl, ht⟩ := exists_cons h' (Seg.ne_null h List.mem_cons_self)
      rw [ih h.tail ht]

/-- The links from a node on reach the end after the nodes that follow it in the chain. -/
theorem drop {a x : α} {l₁ l₂ : List α} (h : Chain next null a (l₁ ++ x :: l₂)) :
    Chain next null x (x :: l₂) := by
  obtain ⟨b, _, h₂⟩ := Seg.append_iff.mp h
  obtain rfl := Seg.head_eq h₂
  exact h₂

/-- A chain starts at its first node, or at the end. -/
theorem eq_headD {a : α} {l : List α} (h : Chain next null a l) : a = l.headD null := by
  cases l with
  | nil => exact Seg.eq_of_nil h
  | cons y l => exact Seg.head_eq h

/-- The link of a node is the node after it, or the end. -/
theorem next_eq {a x : α} {l₁ l₂ : List α} (h : Chain next null a (l₁ ++ x :: l₂)) :
    next x = l₂.headD null := by
  have h₂ : Chain next null (next x) l₂ := (drop h).tail
  exact eq_headD h₂

/-- A node of a chain is the first one, or the link of the node before it. -/
theorem head_or_next {a x : α} {l₁ l₂ : List α} (h : Chain next null a (l₁ ++ x :: l₂)) :
    l₁ = [] ∧ x = a ∨ ∃ l₀ y, l₁ = l₀ ++ [y] ∧ next y = x := by
  rcases List.eq_nil_or_concat' l₁ with rfl | ⟨l₀, y, rfl⟩
  · exact Or.inl ⟨rfl, (Seg.head_eq h).symm⟩
  · refine Or.inr ⟨l₀, y, rfl, ?_⟩
    rw [List.append_assoc] at h
    exact next_eq h

/-- **A chain meets no node twice**: from the second meeting on it would have to go through the
nodes after the first one again, and so never end. -/
theorem nodup {a : α} {l : List α} (h : Chain next null a l) : l.Nodup := by
  induction l generalizing a with
  | nil => exact List.nodup_nil
  | cons x l ih =>
      refine List.nodup_cons.mpr ⟨fun hx => ?_, ih h.tail⟩
      obtain ⟨l₁, l₂, rfl⟩ := List.append_of_mem hx
      have h : Chain next null a ([] ++ x :: (l₁ ++ x :: l₂)) := h
      have h₁ : Chain next null x (x :: (l₁ ++ x :: l₂)) := drop h
      have h₂ : Chain next null x (x :: l₂) := drop h₁.tail
      have := congrArg List.length (unique h₁ h₂)
      simp at this
      omega

/-- Taking out the node after `p`. -/
theorem unlink {a p x : α} {l₁ l₂ : List α} (h : Chain next null a (l₁ ++ p :: x :: l₂))
    (hp : next' p = next x) (hn : ∀ y ∈ l₁ ++ l₂, next' y = next y) :
    Chain next' null a (l₁ ++ p :: l₂) := by
  obtain ⟨b, h₁, h₂⟩ := Seg.append_iff.mp h
  obtain rfl := Seg.head_eq h₂
  have hpx : next b = x := Seg.head_eq h₂.tail
  refine Seg.append_iff.mpr ⟨b, h₁.congr fun y hy => hn y (List.mem_append_left _ hy), ?_⟩
  refine .cons (Seg.ne_null h₂ List.mem_cons_self) ?_
  rw [hp]
  subst hpx
  exact h₂.tail.tail.congr fun y hy => hn y (List.mem_append_right _ hy)

/-- Putting a new node `x` in after `p`. -/
theorem link {a p x : α} {l₁ l₂ : List α} (h : Chain next null a (l₁ ++ p :: l₂))
    (hx : x ≠ null) (hp : next' p = x) (hxn : next' x = next p)
    (hn : ∀ y ∈ l₁ ++ l₂, next' y = next y) :
    Chain next' null a (l₁ ++ p :: x :: l₂) := by
  obtain ⟨b, h₁, h₂⟩ := Seg.append_iff.mp h
  obtain rfl := Seg.head_eq h₂
  refine Seg.append_iff.mpr ⟨b, h₁.congr fun y hy => hn y (List.mem_append_left _ hy), ?_⟩
  refine .cons (Seg.ne_null h₂ List.mem_cons_self) ?_
  rw [hp]
  refine .cons hx ?_
  rw [hxn]
  exact h₂.tail.congr fun y hy => hn y (List.mem_append_right _ hy)

end Chain

end CS640.Lib
