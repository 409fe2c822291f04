import Mathlib.Logic.Function.Basic
import Mathlib.Data.List.Basic
import Mathlib.Tactic.Common

/-!
# Rebuilding a state in stages

A state has components, and each of a list of stages builds one of them from others: it sets its component,
whatever that was before, or leaves everything as it is. If no stage builds what an earlier one depends on,
then after a first run every component is what its stage would build (`built_runAll`), and a second run
changes nothing (`runAll_of_built`).
-/

namespace CS640.Lib.Stages

variable {ι α : Type} [DecidableEq ι]

structure Stage (ι α : Type) [DecidableEq ι] where
  index : ι
  deps : List ι
  run : (ι → α) → ι → α
  build : (ι → α) → α
  build_congr : ∀ {s t : ι → α}, (∀ j ∈ deps, s j = t j) → build s = build t
  run_cases : ∀ s, run s = s ∨ run s = Function.update s index (build s)
  not_self : index ∉ deps

/-- One stage after the other. -/
def runAll (stages : List (Stage ι α)) (s : ι → α) : ι → α := stages.foldl (fun s st => st.run s) s

/-- What a stage depends on, and what it builds, is not built later. -/
def Ordered (stages : List (Stage ι α)) : Prop :=
  stages.Pairwise fun st later => later.index ≠ st.index ∧ later.index ∉ st.deps

/-- The component of a stage is what the stage would build. -/
def Stage.Built (st : Stage ι α) (s : ι → α) : Prop := s st.index = st.build s

variable {st : Stage ι α} {stages : List (Stage ι α)} {s t : ι → α} {j : ι} {a : α}

theorem Stage.run_of_ne (h : j ≠ st.index) : st.run s j = s j := by
  rcases st.run_cases s with hrun | hrun
  · rw [hrun]
  · rw [hrun, Function.update_of_ne h]

theorem Stage.run_of_built (h : st.Built s) : st.run s = s := by
  rcases st.run_cases s with hrun | hrun
  · exact hrun
  · rw [hrun, ← h, Function.update_eq_self]

/-- Components that no stage builds stay as they are. -/
theorem runAll_of_ne (h : ∀ st ∈ stages, j ≠ st.index) : runAll stages s j = s j := by
  induction stages generalizing s with
  | nil => rfl
  | cons st stages ih =>
      obtain ⟨hst, hrest⟩ := List.forall_mem_cons.mp h
      calc runAll (st :: stages) s j = runAll stages (st.run s) j := rfl
        _ = st.run s j := ih hrest
        _ = s j := Stage.run_of_ne hst

/-- **After the first run**, if every stage builds its component where that is still `a`. -/
theorem built_runAll (horder : Ordered stages)
    (hbuilds : ∀ st ∈ stages, ∀ s, s st.index = a → st.run s = Function.update s st.index (st.build s))
    (hs : ∀ st ∈ stages, s st.index = a) : ∀ st ∈ stages, st.Built (runAll stages s) := by
  induction stages generalizing s with
  | nil => exact fun _ h => by cases h
  | cons st stages ih =>
      obtain ⟨hlater, horder⟩ := List.pairwise_cons.mp horder
      obtain ⟨hst, hrest⟩ := List.forall_mem_cons.mp hbuilds
      obtain ⟨hsst, hsrest⟩ := List.forall_mem_cons.mp hs
      have hrun : st.run s = Function.update s st.index (st.build s) := hst s hsst
      refine List.forall_mem_cons.mpr ⟨?_, ih horder hrest fun st' hst' => ?_⟩
      · -- neither the component nor what it was built from changes any more
        have hdeps : ∀ k ∈ st.deps, runAll (st :: stages) s k = s k := by
          intro k hk
          apply runAll_of_ne
          refine List.forall_mem_cons.mpr ⟨?_, fun st' hst' => ?_⟩
          · rintro rfl
            exact st.not_self hk
          · rintro rfl
            exact (hlater st' hst').2 hk
        calc runAll (st :: stages) s st.index = st.run s st.index :=
              runAll_of_ne fun st' hst' => (hlater st' hst').1.symm
          _ = st.build s := by rw [hrun, Function.update_self]
          _ = st.build (runAll (st :: stages) s) := (st.build_congr hdeps).symm
      · show st.run s st'.index = a
        rw [Stage.run_of_ne (hlater st' hst').1]
        exact hsrest st' hst'

/-- **A second run** changes nothing, whether its stages build or not. -/
theorem runAll_of_built (h : ∀ st ∈ stages, st.Built s) : runAll stages s = s := by
  induction stages with
  | nil => rfl
  | cons st stages ih =>
      obtain ⟨hst, hrest⟩ := List.forall_mem_cons.mp h
      rw [runAll, List.foldl_cons, Stage.run_of_built hst]
      exact ih hrest

end CS640.Lib.Stages
