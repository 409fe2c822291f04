import CS640.Lib.Prog

/-!
# Calls in lockstep

Two implementations of one call work on states of different types. From states that a relation `R` relates
they are in lockstep if they end in the same way, with the same value, in states that `R` relates again.
The rules follow the structure of the calls, so that only the places where the implementations differ are
left to be compared.
-/

namespace CS640.Lib

namespace Prog

variable {ε σ τ α β : Type} {R : σ → τ → Prop} {s : σ} {t : τ}

/-- The calls `x` on `s` and `y` on `t` end alike. -/
structure Lockstep (R : σ → τ → Prop) (x : Prog ε σ α) (y : Prog ε τ α) (s : σ) (t : τ) : Prop where
  result : (x s).1 = (y t).1
  state : R (x s).2 (y t).2

namespace Lockstep

variable {x x' : Prog ε σ α} {y y' : Prog ε τ α}

theorem pure (a : α) (h : R s t) : Lockstep R (Pure.pure a : Prog ε σ α) (Pure.pure a) s t := ⟨rfl, h⟩

theorem throw (e : ε) (h : R s t) : Lockstep R (Prog.throw e : Prog ε σ α) (Prog.throw e) s t := ⟨rfl, h⟩

theorem modify {f : σ → σ} {g : τ → τ} (h : R (f s) (g t)) :
    Lockstep R (Prog.modify f : Prog ε σ Unit) (Prog.modify g) s t := ⟨rfl, h⟩

theorem assert (b : Bool) (h : R s t) :
    Lockstep R (Prog.assert b : Prog ε σ Unit) (Prog.assert b) s t := by
  cases b with
  | false => exact ⟨rfl, h⟩
  | true => exact ⟨rfl, h⟩

/-- The states that are read may differ, as long as the rest is in lockstep. -/
theorem get {f : σ → Prog ε σ α} {g : τ → Prog ε τ α} (h : Lockstep R (f s) (g t) s t) :
    Lockstep R (Prog.get >>= f) (Prog.get >>= g) s t := ⟨h.result, h.state⟩

theorem bind {f : α → Prog ε σ β} {g : α → Prog ε τ β} (h : Lockstep R x y s t)
    (hf : ∀ a s' t', x s = (.ok a, s') → y t = (.ok a, t') → R s' t' → Lockstep R (f a) (g a) s' t') :
    Lockstep R (x >>= f) (y >>= g) s t := by
  rcases hx : x s with ⟨_ | a, s'⟩ <;> rcases hy : y t with ⟨_ | b, t'⟩
  · obtain ⟨hresult, hstate⟩ := h
    rw [hx, hy] at hresult hstate
    cases hresult
    exact ⟨by rw [bind_of_error hx, bind_of_error hy], by rw [bind_of_error hx, bind_of_error hy]; exact hstate⟩
  · have hresult := h.result
    rw [hx, hy] at hresult
    cases hresult
  · have hresult := h.result
    rw [hx, hy] at hresult
    cases hresult
  · obtain ⟨hresult, hstate⟩ := h
    rw [hx, hy] at hresult hstate
    cases hresult
    obtain ⟨hresult, hstate⟩ := hf a s' t' hx hy hstate
    exact ⟨by rw [bind_of_ok hx, bind_of_ok hy, hresult], by rw [bind_of_ok hx, bind_of_ok hy]; exact hstate⟩

theorem ite {c d : Prop} [Decidable c] [Decidable d] (hc : c ↔ d) (h : c → Lockstep R x y s t)
    (h' : ¬ c → Lockstep R x' y' s t) : Lockstep R (if c then x else x') (if d then y else y') s t := by
  by_cases hcond : c
  · rw [if_pos hcond, if_pos (hc.mp hcond)]
    exact h hcond
  · rw [if_neg hcond, if_neg fun hd => hcond (hc.mpr hd)]
    exact h' hcond

/-- Handlers that catch the same exceptions. -/
theorem tryCatch {handler : ε → Option (Prog ε σ α)} {handler' : ε → Option (Prog ε τ α)}
    (h : Lockstep R x y s t) (hhandler : ∀ e s' t', R s' t' →
      Option.Rel (fun x y => Lockstep R x y s' t') (handler e) (handler' e)) :
    Lockstep R (Prog.tryCatch x handler) (Prog.tryCatch y handler') s t := by
  have hsame : ∀ {r s' t'}, Prog.tryCatch x handler s = (r, s') → Prog.tryCatch y handler' t = (r, t') →
      R s' t' → Lockstep R (Prog.tryCatch x handler) (Prog.tryCatch y handler') s t :=
    fun hx hy hstate => ⟨by rw [hx, hy], by rw [hx, hy]; exact hstate⟩
  obtain ⟨hresult, hstate⟩ := h
  rcases hx : x s with ⟨r, s'⟩
  rcases hy : y t with ⟨r', t'⟩
  rw [hx, hy] at hresult hstate
  cases hresult
  by_cases hr : ∃ e, r = .error (.throw e)
  · obtain ⟨e, rfl⟩ := hr
    have hcaught := hhandler e s' t' hstate
    cases hx' : handler e with
    | some x' =>
        cases hy' : handler' e with
        | some y' =>
            rw [hx', hy'] at hcaught
            cases hcaught with
            | some hrest =>
                exact ⟨by rw [tryCatch_of_caught hx hx', tryCatch_of_caught hy hy', hrest.result],
                  by rw [tryCatch_of_caught hx hx', tryCatch_of_caught hy hy']; exact hrest.state⟩
        | none =>
            rw [hx', hy'] at hcaught
            cases hcaught
    | none =>
        cases hy' : handler' e with
        | some y' =>
            rw [hx', hy'] at hcaught
            cases hcaught
        | none => exact hsame (tryCatch_of_uncaught hx hx') (tryCatch_of_uncaught hy hy') hstate
  · have hr : ∀ e, r ≠ .error (.throw e) := fun e he => hr ⟨e, he⟩
    exact hsame (tryCatch_of_other hx hr) (tryCatch_of_other hy hr) hstate

/-- Calls that are the same on the two states. -/
theorem congr (h : Lockstep R x y s t) (hx : x' s = x s) (hy : y' t = y t) : Lockstep R x' y' s t := by
  obtain ⟨hresult, hstate⟩ := h
  exact ⟨by rw [hx, hy, hresult], by rw [hx, hy]; exact hstate⟩

end Lockstep

end Prog

end CS640.Lib
