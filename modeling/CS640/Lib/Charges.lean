import CS640.Lib.Prog
import Mathlib.Algebra.Order.Monoid.Defs

/-!
# What calls cost

`Costs φ k l x s`: from `s` the call `x` raises the measure `φ` by at most `k` if it returns, and by at most `l`
if it ends in another way. The rules follow the structure of the calls, and the amounts add up. For an amortised
bound the measure is the cost so far and a potential: what the one takes out of the other is free.
-/

namespace CS640.Lib.Prog

variable {ε σ α β M : Type}

def Costs [Add M] [LE M] (φ : σ → M) (k l : M) (x : Prog ε σ α) (s : σ) : Prop :=
  wp x (fun _ t => φ t ≤ φ s + k) (fun _ t => φ t ≤ φ s + l) s

namespace Costs

variable [AddCommMonoid M] [PartialOrder M] {φ : σ → M} {i j k l m n : M} {x : Prog ε σ α} {s t : σ}

theorem of_ok {a : α} (h : x s = (.ok a, t)) (hk : φ t ≤ φ s + k) : Costs φ k l x s :=
  (wp_of_ok h).mpr hk

theorem of_error {e : Exit ε} (h : x s = (.error e, t)) (hl : φ t ≤ φ s + l) : Costs φ k l x s :=
  (wp_of_error h).mpr hl

/-- A call that is the same one on this state. -/
theorem congr {y : Prog ε σ α} (h : Costs φ k l x s) (heq : y s = x s) : Costs φ k l y s := by
  unfold Costs wp
  rw [heq]
  exact h

/-- What is not changed costs nothing. -/
theorem of_eq (h : wp x (fun _ t => φ t = φ s) (fun _ t => φ t = φ s) s) : Costs φ 0 0 x s := by
  apply wp_mono h
  · intro _ t ht
    rw [ht, add_zero]
  · intro _ t ht
    rw [ht, add_zero]

theorem pure (a : α) : Costs φ 0 l (Pure.pure a : Prog ε σ α) s := (add_zero (φ s)).ge

theorem throw (e : ε) : Costs φ k 0 (Prog.throw e : Prog ε σ α) s := (add_zero (φ s)).ge

theorem modify {f : σ → σ} (h : φ (f s) ≤ φ s + k) : Costs φ k l (Prog.modify f : Prog ε σ Unit) s := h

theorem get {f : σ → Prog ε σ α} (h : Costs φ k l (f s) s) : Costs φ k l (Prog.get >>= f) s := h

theorem ite {c : Prop} [Decidable c] {y : Prog ε σ α} (hx : c → Costs φ k l x s)
    (hy : ¬ c → Costs φ k l y s) : Costs φ k l (if c then x else y) s :=
  (wp_ite x y).mpr ⟨hx, hy⟩

/-- A call whose value is put into another one. -/
theorem map (h : Costs φ k l x s) (f : α → β) : Costs φ k l (x >>= fun a => Pure.pure (f a)) s :=
  (wp_bind x _).mpr h

variable [IsOrderedAddMonoid M]

theorem weaken (h : Costs φ k l x s) (hk : k ≤ m) (hl : l ≤ n) : Costs φ m n x s :=
  wp_mono h (fun _ _ ht => ht.trans (add_le_add_right hk _)) fun _ _ ht => ht.trans (add_le_add_right hl _)

/-- The amounts of two calls, one after the other. -/
theorem bind {f : α → Prog ε σ β} (hx : Costs φ k l x s)
    (hf : ∀ a t, x s = (.ok a, t) → Costs φ i j (f a) t) (hm : k + i ≤ m) (hl : l ≤ n)
    (hn : k + j ≤ n) : Costs φ m n (x >>= f) s := by
  rcases hr : x s with ⟨e | a, t⟩
  · have ht := (wp_of_error hr).mp hx
    exact of_error (bind_of_error hr) (ht.trans (add_le_add_right hl _))
  · have ht := (wp_of_ok hr).mp hx
    have hrest := hf a t hr
    have hsum : ∀ {c d : M}, k + c ≤ d → ∀ u, φ u ≤ φ t + c → φ u ≤ φ s + d := by
      intro c d hd u hu
      calc φ u
        _ ≤ φ t + c := hu
        _ ≤ φ s + k + c := add_le_add_left ht _
        _ = φ s + (k + c) := add_assoc _ _ _
        _ ≤ φ s + d := add_le_add_right hd _
    rw [Costs, wp_bind, wp_of_ok hr]
    exact wp_mono hrest (fun _ u hu => hsum hm u hu) fun _ u hu => hsum hn u hu

/-- A call behind one that costs nothing. -/
theorem free_bind {f : α → Prog ε σ β} (hx : Costs φ 0 0 x s)
    (hf : ∀ a t, x s = (.ok a, t) → Costs φ k l (f a) t) (hl : 0 ≤ l) : Costs φ k l (x >>= f) s :=
  hx.bind hf (zero_add k).le hl (zero_add l).le

end Costs

end CS640.Lib.Prog
