import Mathlib.Tactic.Common

/-!
# Runs

A system is a relation `step s a t` between states, labelled by what was done. `Run step s l t` is a
run of it. The rules here turn a fact about one step into a fact about all runs.
-/

namespace CS640.Lib

variable {σ α : Type} {step : σ → α → σ → Prop}

/-- From `s` the steps labelled `l`, one after another, lead to `t`. -/
inductive Run (step : σ → α → σ → Prop) : σ → List α → σ → Prop
  | nil (s : σ) : Run step s [] s
  | cons {s t u : σ} {a : α} {l : List α} :
      step s a t → Run step t l u → Run step s (a :: l) u

namespace Run

variable {s t : σ} {l : List α}

/-- What every step keeps, every run keeps. -/
theorem invariant {I : σ → Prop} (h : Run step s l t) (start : I s)
    (keep : ∀ s a t, I s → step s a t → I t) : I t := by
  -- over the run: the invariant is handed on from the first state to the next
  induction h with
  | nil => exact start
  | cons hstep _ ih =>
      apply ih
      exact keep _ _ _ start hstep

/-! ## Steps that are a function

Where a step can be taken in one way only, a run is known by its labels: `AllOk` says that all of them may be taken,
and `Always` that something holds in every state on the way, the first and the last among them.
-/

/-- The steps of a function `after`, where `ok` allows them. -/
def guarded (ok : σ → α → Prop) (after : σ → α → σ) (s : σ) (a : α) (t : σ) : Prop :=
  ok s a ∧ t = after s a

variable {ok : σ → α → Prop} {after : σ → α → σ}

/-- `ok` allows each of `l`, one after another. -/
def AllOk (ok : σ → α → Prop) (after : σ → α → σ) : σ → List α → Prop
  | _, [] => True
  | s, a :: l => ok s a ∧ AllOk ok after (after s a) l

theorem of_allOk : ∀ {l : List α} {s : σ}, AllOk ok after s l →
    Run (guarded ok after) s l (l.foldl after s)
  | [], _, _ => .nil _
  | _ :: _, _, ⟨ha, hl⟩ => .cons ⟨ha, rfl⟩ (of_allOk hl)

instance decidableAllOk [∀ s, DecidablePred (ok s)] : ∀ (s : σ) (l : List α), Decidable (AllOk ok after s l)
  | _, [] => isTrue trivial
  | s, a :: l =>
    match inferInstanceAs (Decidable (ok s a)), decidableAllOk (after s a) l with
    | isTrue ha, isTrue hl => isTrue ⟨ha, hl⟩
    | isFalse ha, _ => isFalse fun h => ha h.1
    | isTrue _, isFalse hl => isFalse fun h => hl h.2

/-- Two conditions that are the same in every state with the invariant `I` are the same along a run. -/
theorem allOk_congr {ok' : σ → α → Prop} {I : σ → Prop} (hiff : ∀ s a, I s → (ok s a ↔ ok' s a))
    (keep : ∀ s a, I s → ok s a → I (after s a)) {l : List α} {s : σ} (start : I s) :
    AllOk ok after s l ↔ AllOk ok' after s l := by
  induction l generalizing s with
  | nil => exact Iff.rfl
  | cons a l ih =>
      constructor
      · rintro ⟨ha, hl⟩
        exact ⟨(hiff s a start).mp ha, (ih (keep s a start ha)).mp hl⟩
      · rintro ⟨ha, hl⟩
        have ha := (hiff s a start).mpr ha
        exact ⟨ha, (ih (keep s a start ha)).mpr hl⟩

/-- `P` holds of every state that the steps `l` lead to, one after another. -/
def Always (P : σ → Prop) (after : σ → α → σ) : σ → List α → Prop
  | s, [] => P s
  | s, a :: l => P s ∧ Always P after (after s a) l

variable {P : σ → Prop}

theorem Always.head {l : List α} {s : σ} (h : Always P after s l) : P s := by
  cases l with
  | nil => exact h
  | cons a l => exact h.1

/-- If the good steps keep the invariant `I`, and a step that is not good leads to a state without `P`, then
`P` holds all along a run just if all its steps are good. -/
theorem always_iff {I : σ → Prop} {good : σ → α → Prop} (holds : ∀ s, I s → P s)
    (keep : ∀ s a, I s → ok s a → good s a → I (after s a))
    -- over the labels; at the first step that is not good both sides fail
    (bad : ∀ s a, I s → ok s a → P (after s a) → good s a) {l : List α} {s : σ} (start : I s)
    (h : AllOk ok after s l) : Always P after s l ↔ AllOk good after s l := by
  induction l generalizing s with
  | nil => exact ⟨fun _ => trivial, fun _ => holds s start⟩
  | cons a l ih =>
      obtain ⟨ha, hl⟩ := h
      constructor
      · rintro ⟨-, halways⟩
        have hgood := bad s a start ha halways.head
        exact ⟨hgood, (ih (keep s a start ha hgood) hl).mp halways⟩
      · rintro ⟨hgood, hrest⟩
        exact ⟨holds s start, (ih (keep s a start ha hgood) hl).mpr hrest⟩

end Run

end CS640.Lib
