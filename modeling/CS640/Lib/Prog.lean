import Mathlib.Logic.Basic
import Mathlib.Tactic.Common

/-!
# Stateful calls that may not return

A call of an imperative function runs on a state and either returns a value or leaves in another
way: by an exception, by a failed assertion, by never returning at all, or by running into
undefined behaviour. Whatever it does, it leaves a state behind: an exception does not undo what
was done before it was thrown.

* `Prog` — the calls, with their monad;
* `Prog.wp` — weakest preconditions with one postcondition for the normal return and one for the
  other exits, and the rules that compute them;
* `forRange` — the counting loop, and its invariant rule.

A fact about a call is stated as `wp x Q E s` and proved by taking `x` apart with the rules; where a call is already
known to have run, `wp_of_ok` and `wp_of_error` turn the statement into one about the result. Four kinds of facts
come up so often that they have a name and their own rules, which go through a call without a postcondition in
between: `Throws`, `Exits`, `Keeps` and `Leads`.
-/

namespace CS640.Lib

/-- The ways a call ends without returning. -/
inductive Exit (ε : Type) where
  | throw (e : ε)
  | abort
  | diverge
  | undefined
  deriving DecidableEq, Repr

/-- A call on states `σ` with exceptions `ε`. -/
def Prog (ε σ α : Type) : Type := σ → Except (Exit ε) α × σ

namespace Prog

variable {ε σ τ α β : Type}

/-- Return `a`, touching nothing. -/
protected def pure (a : α) : Prog ε σ α := fun s => (.ok a, s)

/-- Run `x`, then `f` on what it returns; every other exit of `x` is the exit of the whole. -/
protected def bind (x : Prog ε σ α) (f : α → Prog ε σ β) : Prog ε σ β := fun s =>
  match x s with
  | (.ok a, s') => f a s'
  | (.error e, s') => (.error e, s')

instance : Monad (Prog ε σ) where
  pure := Prog.pure
  bind := Prog.bind

/-- Leave without returning. -/
def exit (e : Exit ε) : Prog ε σ α := fun s => (.error e, s)

/-- Leave by an exception. -/
def throw (e : ε) : Prog ε σ α := exit (.throw e)

/-- `assert`: a false condition ends the program. -/
def assert (b : Bool) : Prog ε σ Unit := if b then pure () else exit .abort

/-- The current state. -/
def get : Prog ε σ σ := fun s => (.ok s, s)

/-- Change the state. -/
def modify (f : σ → σ) : Prog ε σ Unit := fun s => (.ok (), f s)

/-- `try`/`catch` around `x` for the exceptions `handler` has an answer to. -/
def tryCatch (x : Prog ε σ α) (handler : ε → Option (Prog ε σ α)) : Prog ε σ α := fun s =>
  match x s with
  | (.error (.throw e), s') =>
    match handler e with
    | some h => h s'
    | none => (.error (.throw e), s')
  | r => r

/-- Run a call on a part of a larger state: `view` reads the part, `put` writes it back. -/
def zoom (view : τ → σ) (put : σ → τ → τ) (x : Prog ε σ α) : Prog ε τ α := fun t =>
  ((x (view t)).1, put (x (view t)).2 t)

/-! ## What a call does, step by step

For a call whose result is known, the rest of the program can be rewritten (`bind_of_ok`, `bind_of_error`). The
rules are equations, so a concrete run can be followed with them as well.
-/

@[simp] theorem pure_apply (a : α) (s : σ) : (pure a : Prog ε σ α) s = (.ok a, s) := rfl

@[simp] theorem exit_apply (e : Exit ε) (s : σ) : (exit e : Prog ε σ α) s = (.error e, s) := rfl

@[simp] theorem throw_apply (e : ε) (s : σ) :
    (throw e : Prog ε σ α) s = (.error (.throw e), s) := rfl

@[simp] theorem get_apply (s : σ) : (get : Prog ε σ σ) s = (.ok s, s) := rfl

@[simp] theorem modify_apply (f : σ → σ) (s : σ) :
    (modify f : Prog ε σ Unit) s = (.ok (), f s) := rfl

theorem bind_apply (x : Prog ε σ α) (f : α → Prog ε σ β) (s : σ) :
    (x >>= f) s = match x s with
      | (.ok a, s') => f a s'
      | (.error e, s') => (.error e, s') := rfl

theorem bind_of_ok {x : Prog ε σ α} {f : α → Prog ε σ β} {s s' : σ} {a : α}
    (h : x s = (.ok a, s')) : (x >>= f) s = f a s' := by
  rw [bind_apply, h]

theorem bind_of_error {x : Prog ε σ α} {f : α → Prog ε σ β} {s s' : σ} {e : Exit ε}
    (h : x s = (.error e, s')) : (x >>= f) s = (.error e, s') := by
  rw [bind_apply, h]

section TryCatch

variable {x y : Prog ε σ α} {handler : ε → Option (Prog ε σ α)} {s t : σ} {e : ε}

theorem tryCatch_of_caught (h : x s = (.error (.throw e), t)) (hy : handler e = some y) :
    tryCatch x handler s = y t := by
  rw [tryCatch, h]
  dsimp only
  rw [hy]

theorem tryCatch_of_uncaught (h : x s = (.error (.throw e), t)) (hnone : handler e = none) :
    tryCatch x handler s = (.error (.throw e), t) := by
  rw [tryCatch, h]
  dsimp only
  rw [hnone]

theorem tryCatch_of_other {r : Except (Exit ε) α} (h : x s = (r, t)) (hr : ∀ e, r ≠ .error (.throw e)) :
    tryCatch x handler s = (r, t) := by
  rw [tryCatch, h]
  -- An exception is excluded; a normal return and the other exits go through.
  rcases r with (e | _ | _ | _) | _
  · exact absurd rfl (hr e)
  all_goals rfl

end TryCatch

/-! ## Weakest preconditions

Two postconditions, since an exception does not undo what was done. The rules are equivalences wherever the
construct allows it, and nothing is lost by rewriting with them.
-/

/-- `wp x Q E s`: from `s`, if `x` returns `a` then `Q a` holds of the state it leaves, and if it
ends in another way `e` then `E e` does. -/
def wp (x : Prog ε σ α) (Q : α → σ → Prop) (E : Exit ε → σ → Prop) (s : σ) : Prop :=
  match x s with
  | (.ok a, s') => Q a s'
  | (.error e, s') => E e s'

variable {Q Q' : α → σ → Prop} {E E' : Exit ε → σ → Prop} {s : σ}

@[simp] theorem wp_pure (a : α) : wp (pure a : Prog ε σ α) Q E s ↔ Q a s := Iff.rfl

@[simp] theorem wp_exit (e : Exit ε) : wp (exit e : Prog ε σ α) Q E s ↔ E e s := Iff.rfl

@[simp] theorem wp_throw (e : ε) : wp (throw e : Prog ε σ α) Q E s ↔ E (.throw e) s := Iff.rfl

@[simp] theorem wp_get {Q : σ → σ → Prop} : wp (get : Prog ε σ σ) Q E s ↔ Q s s := Iff.rfl

@[simp] theorem wp_modify {Q : Unit → σ → Prop} (f : σ → σ) :
    wp (modify f : Prog ε σ Unit) Q E s ↔ Q () (f s) := Iff.rfl

@[simp] theorem wp_bind (x : Prog ε σ β) (f : β → Prog ε σ α) :
    wp (x >>= f) Q E s ↔ wp x (fun b => wp (f b) Q E) E s := by
  unfold wp
  rw [bind_apply]
  rcases x s with ⟨_ | _, _⟩ <;> rfl

/-- What `handler` makes of an exit of the call it is around. -/
def handled (handler : ε → Option (Prog ε σ α)) (Q : α → σ → Prop) (E : Exit ε → σ → Prop) :
    Exit ε → σ → Prop
  | .throw e, t =>
    match handler e with
    | some y => wp y Q E t
    | none => E (.throw e) t
  | e, t => E e t

theorem wp_tryCatch (x : Prog ε σ α) (handler : ε → Option (Prog ε σ α)) :
    wp (tryCatch x handler) Q E s ↔ wp x Q (handled handler Q E) s := by
  unfold wp tryCatch
  -- Only an exception goes to the handler.
  rcases x s with ⟨(e | _ | _ | _) | _, t⟩
  · dsimp only [handled]
    cases handler e <;> rfl
  · rfl
  · rfl
  · rfl
  · rfl

theorem wp_assert {Q : Unit → σ → Prop} (b : Bool) :
    wp (assert b : Prog ε σ Unit) Q E s ↔ (b = true → Q () s) ∧ (b = false → E .abort s) := by
  cases b <;> simp [assert]

theorem wp_ite {c : Prop} [Decidable c] (x y : Prog ε σ α) :
    wp (if c then x else y) Q E s ↔ (c → wp x Q E s) ∧ (¬ c → wp y Q E s) := by
  by_cases h : c <;> simp [h]

/-- The consequence rule. -/
theorem wp_mono {x : Prog ε σ α} (hx : wp x Q E s) (hQ : ∀ a t, Q a t → Q' a t)
    (hE : ∀ e t, E e t → E' e t) : wp x Q' E' s := by
  unfold wp at hx ⊢
  rcases hr : x s with ⟨_ | _, _⟩
  · rw [hr] at hx; exact hE _ _ hx
  · rw [hr] at hx; exact hQ _ _ hx

/-- Two facts about one call. -/
theorem wp_and {x : Prog ε σ α} (h : wp x Q E s) (h' : wp x Q' E' s) :
    wp x (fun a t => Q a t ∧ Q' a t) (fun e t => E e t ∧ E' e t) s := by
  unfold wp at h h' ⊢
  rcases hr : x s with ⟨_ | _, _⟩
  · rw [hr] at h h'
    exact ⟨h, h'⟩
  · rw [hr] at h h'
    exact ⟨h, h'⟩

/-- What holds however a call ends. -/
theorem wp_of_forall {x : Prog ε σ α} (hQ : ∀ a t, Q a t) (hE : ∀ e t, E e t) : wp x Q E s := by
  unfold wp
  split
  · exact hQ _ _
  · exact hE _ _

/-- A call that cannot end in another way returns. -/
theorem exists_ok_of_wp {x : Prog ε σ α} (h : wp x Q (fun _ _ => False) s) :
    ∃ a t, x s = (.ok a, t) ∧ Q a t := by
  unfold wp at h
  rcases hr : x s with ⟨_ | _, _⟩
  · rw [hr] at h
    exact h.elim
  · rw [hr] at h
    exact ⟨_, _, rfl, h⟩

theorem wp_of_ok {x : Prog ε σ α} {a : α} {t : σ} (h : x s = (.ok a, t)) :
    wp x Q E s ↔ Q a t := by
  unfold wp; rw [h]

theorem wp_of_error {x : Prog ε σ α} {e : Exit ε} {t : σ} (h : x s = (.error e, t)) :
    wp x Q E s ↔ E e t := by
  unfold wp; rw [h]

/-- What is to hold of the state however the call ends. -/
theorem wp_of_state {I : σ → Prop} {x : Prog ε σ α} {r : Except (Exit ε) α} {t : σ} (h : x s = (r, t)) :
    wp x (fun _ => I) (fun _ => I) s ↔ I t := by
  unfold wp
  rw [h]
  cases r <;> rfl

/-- What is to hold when a call throws, where nothing is said about a program that is at its end. -/
def onThrow (P : ε → σ → Prop) : Exit ε → σ → Prop
  | .throw e, t => P e t
  | _, _ => True

theorem onThrow_intro {P : ε → σ → Prop} {t : σ} (h : ∀ x, P x t) (e : Exit ε) :
    onThrow P e t := by
  cases e with
  | throw x => exact h x
  | _ => trivial

theorem onThrow_mono {P P' : ε → σ → Prop} {e : Exit ε} {t t' : σ} (he : onThrow P e t)
    (h : ∀ x, P x t → P' x t') : onThrow P' e t' := by
  cases e with
  | throw x => exact h x he
  | _ => trivial

@[simp] theorem onThrow_throw {P : ε → σ → Prop} {e : ε} {t : σ} :
    onThrow P (.throw e) t ↔ P e t := Iff.rfl

@[simp] theorem onThrow_undefined {P : ε → σ → Prop} {t : σ} : onThrow P .undefined t := trivial

theorem wp_zoom {ρ : Type} {view : ρ → σ} {put : σ → ρ → ρ} {x : Prog ε σ α}
    {Q : α → ρ → Prop} {E : Exit ε → ρ → Prop} {t : ρ} :
    wp (zoom view put x) Q E t ↔
      wp x (fun a s' => Q a (put s' t)) (fun e s' => E e (put s' t)) (view t) := by
  unfold wp zoom
  rcases x (view t) with ⟨_ | _, _⟩ <;> rfl

/-! ## Which exceptions a call throws

Of the exits, `Throws` looks at exceptions only, `Exits` at all. Neither says anything about the state.
-/

/-- Every exception that `x` throws is one of `P`. -/
def Throws (P : ε → Prop) (x : Prog ε σ α) : Prop :=
  ∀ s, wp x (fun _ _ => True) (onThrow fun e _ => P e) s

namespace Throws

variable {P : ε → Prop}

theorem apply {x : Prog ε σ α} (h : Throws P x) (s : σ) :
    wp x (fun _ _ => True) (onThrow fun e _ => P e) s := h s

theorem bind {x : Prog ε σ β} {f : β → Prog ε σ α} (hx : Throws P x) (hf : ∀ b, Throws P (f b)) :
    Throws P (x >>= f) := by
  intro s
  rw [wp_bind]
  refine wp_mono (hx s) ?_ fun _ _ he => he
  intro b t _
  exact hf b t

theorem ite {c : Prop} [Decidable c] {x y : Prog ε σ α} (hx : c → Throws P x)
    (hy : ¬ c → Throws P y) : Throws P (if c then x else y) := by
  intro s
  rw [wp_ite]
  exact ⟨fun h => hx h s, fun h => hy h s⟩

theorem pure (a : α) : Throws P (Pure.pure a : Prog ε σ α) := fun _ => trivial

theorem throw {e : ε} (h : P e) : Throws P (Prog.throw e : Prog ε σ α) := fun _ => h

theorem assert (b : Bool) : Throws P (Prog.assert b : Prog ε σ Unit) := by
  intro s
  rw [wp_assert]
  exact ⟨fun _ => trivial, fun _ => trivial⟩

/-- A call that always returns. -/
theorem of_ok {x : Prog ε σ α} (h : ∀ s, ∃ a t, x s = (.ok a, t)) : Throws P x := by
  intro s
  obtain ⟨a, t, hr⟩ := h s
  rw [wp_of_ok hr]
  trivial

end Throws

/-- However `x` ends without returning, it does so in one of the ways `P`. -/
def Exits (P : Exit ε → Prop) (x : Prog ε σ α) : Prop :=
  ∀ s, wp x (fun _ _ => True) (fun e _ => P e) s

namespace Exits

variable {P : Exit ε → Prop}

theorem pure (a : α) : Exits P (Pure.pure a : Prog ε σ α) := fun _ => trivial

theorem exit {e : Exit ε} (h : P e) : Exits P (Prog.exit e : Prog ε σ α) := fun _ => h

theorem get : Exits P (Prog.get : Prog ε σ σ) := fun _ => trivial

theorem modify (f : σ → σ) : Exits P (Prog.modify f : Prog ε σ Unit) := fun _ => trivial

theorem bind {x : Prog ε σ β} {f : β → Prog ε σ α} (hx : Exits P x) (hf : ∀ b, Exits P (f b)) :
    Exits P (x >>= f) := by
  intro s
  rw [wp_bind]
  refine wp_mono (hx s) ?_ fun _ _ he => he
  intro b t _
  exact hf b t

theorem ite {c : Prop} [Decidable c] {x y : Prog ε σ α} (hx : c → Exits P x)
    (hy : ¬ c → Exits P y) : Exits P (if c then x else y) := by
  intro s
  rw [wp_ite]
  exact ⟨fun h => hx h s, fun h => hy h s⟩

theorem of_ok {x : Prog ε σ α} (h : ∀ s, ∃ a t, x s = (.ok a, t)) : Exits P x := by
  intro s
  obtain ⟨a, t, hr⟩ := h s
  rw [wp_of_ok hr]
  trivial

theorem zoom {τ : Type} {view : σ → τ} {put : τ → σ → σ} {x : Prog ε τ α} (hx : Exits P x) :
    Exits P (Prog.zoom view put x) := by
  intro s
  rw [wp_zoom]
  exact hx (view s)

end Exits

/-! ## What a call keeps however it ends

An invariant that is kept on every way out. The rules have one premise for each part of the call, so `Keeps` of a
composed call needs no state in the proof.
-/

/-- `I` holds after `x`, whichever way `x` ends, if it held before. -/
def Keeps (I : σ → Prop) (x : Prog ε σ α) : Prop :=
  ∀ s, I s → wp x (fun _ t => I t) (fun _ t => I t) s

namespace Keeps

variable {I : σ → Prop}

theorem apply {x : Prog ε σ α} (h : Keeps I x) {s : σ} (hs : I s) : I (x s).2 := by
  have hrun : x s = ((x s).1, (x s).2) := rfl
  exact (wp_of_state hrun).mp (h s hs)

/-- A call that is given by what it does. -/
theorem of_state {x : Prog ε σ α} (h : ∀ s, I s → I (x s).2) : Keeps I x := by
  intro s hs
  have hrun : x s = ((x s).1, (x s).2) := rfl
  exact (wp_of_state hrun).mpr (h s hs)

theorem pure (a : α) : Keeps I (Pure.pure a : Prog ε σ α) := fun _ h => h

theorem exit (e : Exit ε) : Keeps I (Prog.exit e : Prog ε σ α) := fun _ h => h

theorem throw (e : ε) : Keeps I (Prog.throw e : Prog ε σ α) := fun _ h => h

theorem get : Keeps I (Prog.get : Prog ε σ σ) := fun _ h => h

theorem modify {f : σ → σ} (h : ∀ s, I s → I (f s)) : Keeps I (Prog.modify f : Prog ε σ Unit) := h

theorem bind {x : Prog ε σ β} {f : β → Prog ε σ α} (hx : Keeps I x) (hf : ∀ b, Keeps I (f b)) :
    Keeps I (x >>= f) := by
  intro s hs
  rw [wp_bind]
  apply wp_mono (hx s hs)
  · intro b t ht
    exact hf b t ht
  · intro _ _ he
    exact he

theorem ite {c : Prop} [Decidable c] {x y : Prog ε σ α} (hx : c → Keeps I x)
    (hy : ¬ c → Keeps I y) : Keeps I (if c then x else y) := by
  intro s hs
  rw [wp_ite]
  exact ⟨fun h => hx h s hs, fun h => hy h s hs⟩

theorem tryCatch {x : Prog ε σ α} {handler : ε → Option (Prog ε σ α)} (hx : Keeps I x)
    (hhandler : ∀ e y, handler e = some y → Keeps I y) : Keeps I (Prog.tryCatch x handler) := by
  intro s hs
  rw [wp_tryCatch]
  apply wp_mono (hx s hs)
  · intro _ _ ht
    exact ht
  · intro e t ht
    -- The handler runs in the state that the exception has left.
    cases e with
    | throw e =>
        dsimp only [handled]
        split
        · next y hy => exact hhandler e y hy t ht
        · exact ht
    | _ => exact ht

/-- A call on a part of the state. -/
theorem zoom {τ : Type} {J : τ → Prop} {view : σ → τ} {put : τ → σ → σ} {x : Prog ε τ α}
    (hx : Keeps J x) (hview : ∀ s, I s → J (view s)) (hput : ∀ s t, I s → J t → I (put t s)) :
    Keeps I (Prog.zoom view put x) := by
  intro s hs
  rw [wp_zoom]
  apply wp_mono (hx (view s) (hview s hs))
  · intro _ t ht
    exact hput s t hs ht
  · intro _ t ht
    exact hput s t hs ht

end Keeps

/-! ## What holds of a call that returns

A weaker reading: nothing is said of a call that does not return. The assertion may change on the way, so that
`Leads` composes like a Hoare triple.
-/

/-- If `I` holds and `x` returns, then `J` holds. -/
structure Leads (I J : σ → Prop) (x : Prog ε σ α) : Prop where
  wp : ∀ s, I s → wp x (fun _ t => J t) (fun _ _ => True) s

/-- `I` holds after `x`, if it held before and `x` returns. -/
abbrev Preserves (I : σ → Prop) (x : Prog ε σ α) : Prop := Leads I I x

namespace Leads

variable {I J K : σ → Prop} {x : Prog ε σ α}

theorem apply {s t : σ} {a : α} (h : Leads I J x) (hs : I s) (hrun : x s = (.ok a, t)) : J t := by
  have hwp := h.wp s hs
  rwa [wp_of_ok hrun] at hwp

/-- A call that never returns. -/
theorem of_error (h : ∀ s, ∃ e t, x s = (.error e, t)) : Leads I J x := by
  constructor
  intro s _
  obtain ⟨e, t, hrun⟩ := h s
  rw [wp_of_error hrun]
  trivial

theorem weaken (h : Leads I J x) (hJ : ∀ s, J s → K s) : Leads I K x :=
  ⟨fun s hs => wp_mono (h.wp s hs) (fun _ => hJ) fun _ _ _ => trivial⟩

theorem pure (a : α) (h : ∀ s, I s → J s) : Leads I J (Pure.pure a : Prog ε σ α) := ⟨h⟩

theorem exit (e : Exit ε) : Leads I J (Prog.exit e : Prog ε σ α) := ⟨fun _ _ => trivial⟩

theorem throw (e : ε) : Leads I J (Prog.throw e : Prog ε σ α) := ⟨fun _ _ => trivial⟩

theorem get : Leads I I (Prog.get : Prog ε σ σ) := ⟨fun _ h => h⟩

theorem modify {f : σ → σ} (h : ∀ s, I s → J (f s)) : Leads I J (Prog.modify f : Prog ε σ Unit) := ⟨h⟩

theorem bind {f : α → Prog ε σ β} (hx : Leads I J x) (hf : ∀ a, Leads J K (f a)) :
    Leads I K (x >>= f) := by
  constructor
  intro s hs
  rw [wp_bind]
  exact wp_mono (hx.wp s hs) (fun a t ht => (hf a).wp t ht) fun _ _ _ => trivial

theorem ite {c : Prop} [Decidable c] {y : Prog ε σ α} (hx : c → Leads I J x)
    (hy : ¬ c → Leads I J y) : Leads I J (if c then x else y) := by
  split
  · next h => exact hx h
  · next h => exact hy h

end Leads

/-! ## The counting loop

`forFrom` is the loop with its index, so that the induction of a proof can start anywhere; `forRange` starts at 0.
Besides the invariant rule there are two rules for loops of which most rounds do nothing, as in a search.
-/

/-- `k` rounds of `body`, the first at index `i`. -/
def forFrom (body : Nat → Prog ε σ Unit) : (k i : Nat) → Prog ε σ Unit
  | 0, _ => pure ()
  | k + 1, i => do
    body i
    forFrom body k (i + 1)

/-- `for (i = 0; i < n; i++) body(i)`. -/
def forRange (n : Nat) (body : Nat → Prog ε σ Unit) : Prog ε σ Unit := forFrom body n 0

theorem wp_forFrom {body : Nat → Prog ε σ Unit} {I : Nat → σ → Prop} {n : Nat}
    (step : ∀ i < n, ∀ s, I i s → wp (body i) (fun _ => I (i + 1)) E s) :
    ∀ (k i : Nat) (s : σ), i + k = n → I i s → wp (forFrom body k i) (fun _ => I n) E s := by
  intro k
  -- Over the rounds that are left; `I` moves on with the index.
  induction k with
  | zero =>
      rintro i s rfl h
      exact h
  | succ k ih =>
      intro i s hn h
      rw [forFrom, wp_bind]
      exact wp_mono (step i (by omega) s h) (fun _ t ht => ih (i + 1) t (by omega) ht)
        (fun _ _ he => he)

/-- The invariant rule: what holds before the loop and is kept by every round holds after it. -/
theorem wp_forRange {body : Nat → Prog ε σ Unit} {I : Nat → σ → Prop} {n : Nat} {s : σ}
    (start : I 0 s) (step : ∀ i < n, ∀ s, I i s → wp (body i) (fun _ => I (i + 1)) E s) :
    wp (forRange n body) (fun _ => I n) E s :=
  wp_forFrom step n 0 s (by omega) start

/-- Rounds that do nothing. -/
theorem forFrom_skip {body : Nat → Prog ε σ Unit} {s : σ} : ∀ (k i : Nat),
    (∀ j, i ≤ j → j < i + k → body j s = (.ok (), s)) → forFrom body k i s = (.ok (), s) := by
  intro k
  induction k with
  | zero => exact fun _ _ => rfl
  | succ k ih =>
      intro i h
      rw [forFrom, bind_of_ok (h i (Nat.le_refl i) (by omega))]
      exact ih (i + 1) fun j hj hjk => h j (by omega) (by omega)

/-- A loop of which only round `v` does something. -/
theorem forFrom_only {body : Nat → Prog ε σ Unit} {s : σ} {v : Nat} : ∀ (k i : Nat), i ≤ v →
    v < i + k → (∀ j, i ≤ j → j < v → body j s = (.ok (), s)) →
    (∀ t, body v s = (.ok (), t) → ∀ j, v < j → j < i + k → body j t = (.ok (), t)) →
    forFrom body k i s = body v s := by
  intro k
  -- Over the rounds, as long as they come before round `v`.
  induction k with
  | zero =>
      intro i hi hv
      omega
  | succ k ih =>
      intro i hi hv hbefore hafter
      rw [forFrom]
      -- Before `v` the round does nothing; at `v` all later ones do nothing.
      rcases Nat.lt_or_eq_of_le hi with hlt | heq
      · rw [bind_of_ok (hbefore i (Nat.le_refl i) hlt)]
        apply ih (i + 1) hlt (by omega)
        · exact fun j hj hjv => hbefore j (by omega) hjv
        · exact fun t ht j hj hjk => hafter t ht j hj (by omega)
      · subst heq
        rcases hr : body i s with ⟨e | _, t⟩
        · exact bind_of_error hr
        · rw [bind_of_ok hr]
          exact forFrom_skip k (i + 1) fun j hj hjk => hafter t hr j hj (by omega)

/-- A loop whose first round does not return. -/
theorem forRange_of_error {body : Nat → Prog ε σ Unit} {n : Nat} {e : Exit ε} {s t : σ} (hn : 0 < n)
    (h : body 0 s = (.error e, t)) : forRange n body s = (.error e, t) := by
  obtain ⟨rounds, rfl⟩ := Nat.exists_eq_add_one_of_ne_zero (Nat.ne_of_gt hn)
  exact bind_of_error h

theorem forRange_only {body : Nat → Prog ε σ Unit} {s : σ} {n v : Nat} (hv : v < n)
    (hbefore : ∀ j < v, body j s = (.ok (), s))
    (hafter : ∀ t, body v s = (.ok (), t) → ∀ j, v < j → j < n → body j t = (.ok (), t)) :
    forRange n body s = body v s := by
  apply forFrom_only n 0 (Nat.zero_le v) (by omega)
  · exact fun j _ hj => hbefore j hj
  · exact fun t ht j hj hjn => hafter t ht j hj (by omega)

theorem Keeps.forRange {I : σ → Prop} {body : Nat → Prog ε σ Unit} (n : Nat)
    (h : ∀ i, Keeps I (body i)) : Keeps I (forRange n body) := by
  intro s hs
  exact wp_forRange (I := fun _ => I) hs fun i _ t ht => h i t ht

theorem Exits.forRange {P : Exit ε → Prop} {body : Nat → Prog ε σ Unit} (n : Nat)
    (h : ∀ i, Exits P (body i)) : Exits P (forRange n body) := by
  intro s
  have hloop : wp (Prog.forRange n body) (fun _ _ => True) (fun e _ => P e) s :=
    wp_forRange (I := fun _ _ => True) trivial fun i _ t _ => h i t
  exact hloop

end Prog

end CS640.Lib
