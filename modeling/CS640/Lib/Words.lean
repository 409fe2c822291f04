import Mathlib.Data.List.Basic
import Mathlib.Data.List.TakeWhile
import Mathlib.Tactic.Common

/-!
# Words

The words of a text are its maximal runs of characters that are not delimiters. `strtok` finds them one
by one. `positions` says where in a list of words a word is.

Texts are taken apart at a first or a last delimiter (`first_delimiter`, `last_delimiter`), and the words on its two
sides do not depend on each other (`words_append_cons`). The other lemmas follow from these.
-/

namespace CS640.Lib

variable {α : Type} {p : α → Bool} {text : List α}

/-- The words of a text whose delimiters are the characters with `p`. -/
def words (p : α → Bool) (text : List α) : List (List α) :=
  (text.splitOnP p).filter fun w => !w.isEmpty

/-- The first word, and what comes after the delimiter that ends it. -/
def strtok (p : α → Bool) (text : List α) : Option (List α × List α) :=
  match text.dropWhile p with
  | [] => none
  | c :: rest =>
    some ((c :: rest).takeWhile (fun c => !p c), ((c :: rest).dropWhile (fun c => !p c)).tail)

theorem words_nil : words p [] = [] := by
  simp [words, List.splitOnP_nil]

/-- A delimiter keeps the words on its sides apart. -/
theorem words_append_cons (xs ys : List α) {d : α} (hd : p d = true) :
    words p (xs ++ d :: ys) = words p xs ++ words p ys := by
  rw [words, List.splitOnP_append_cons xs ys hd, List.filter_append]
  rfl

theorem words_cons (ys : List α) {d : α} (hd : p d = true) : words p (d :: ys) = words p ys := by
  have h := words_append_cons [] ys hd
  rwa [words_nil, List.nil_append] at h

/-- A text without delimiters is one word. -/
theorem words_run {r : List α} (h : ∀ c ∈ r, p c = false) :
    words p r = if r = [] then [] else [r] := by
  rw [words, List.splitOnP_eq_singleton h]
  cases r with
  | nil => rfl
  | cons c r => rfl

/-- A text that is a run of other characters, or has a first delimiter. -/
theorem first_delimiter (text : List α) :
    (∀ c ∈ text, p c = false) ∨
      ∃ r d rest, text = r ++ d :: rest ∧ (∀ c ∈ r, p c = false) ∧ p d = true := by
  induction text with
  | nil => exact Or.inl nofun
  | cons c text ih =>
      -- the delimiter comes now, or somewhere in the rest, or never
      cases hc : p c with
      | true => exact Or.inr ⟨[], c, text, rfl, nofun, hc⟩
      | false =>
          rcases ih with h | ⟨r, d, rest, rfl, hr, hd⟩
          · exact Or.inl (by simpa [hc] using h)
          · exact Or.inr ⟨c :: r, d, rest, rfl, by simpa [hc] using hr, hd⟩

/-- A text that is a run of other characters, or has a last delimiter. -/
theorem last_delimiter (text : List α) :
    (∀ c ∈ text, p c = false) ∨
      ∃ before d r, text = before ++ d :: r ∧ (∀ c ∈ r, p c = false) ∧ p d = true := by
  induction text with
  | nil => exact Or.inl nofun
  | cons c text ih =>
      rcases ih with h | ⟨before, d, r, rfl, hr, hd⟩
      · -- no delimiter in the rest: the last one is here, or there is none
        cases hc : p c with
        | true => exact Or.inr ⟨[], c, text, rfl, h, hc⟩
        | false => exact Or.inl (by simpa [hc] using h)
      · exact Or.inr ⟨c :: before, d, r, rfl, hr, hd⟩

theorem words_eq_nil (h : ∀ c ∈ text, p c = true) : words p text = [] := by
  induction text with
  | nil => exact words_nil
  | cons c text ih =>
      simp only [List.mem_cons, forall_eq_or_imp] at h
      rw [words_cons text h.1, ih h.2]

theorem words_eq_nil_iff : words p text = [] ↔ ∀ c ∈ text, p c = true := by
  refine ⟨fun h => ?_, words_eq_nil⟩
  induction text with
  | nil => exact nofun
  | cons c text ih =>
      cases hc : p c with
      | true =>
          rw [words_cons text hc] at h
          simpa [hc] using ih h
      | false =>
          -- the run that begins here is a word
          exfalso
          rcases first_delimiter (p := p) (c :: text) with hrun | ⟨r, d, rest, heq, hrun, hd⟩
          · rw [words_run hrun] at h
            cases h
          · rw [heq, words_append_cons r rest hd, words_run hrun, List.append_eq_nil_iff] at h
            cases r with
            | nil =>
                cases heq
                rw [hc] at hd
                cases hd
            | cons b r => cases h.1

/-- Delimiters at the end of a text add nothing. -/
theorem words_append_delimiters (xs : List α) {ys : List α} (h : ∀ c ∈ ys, p c = true) :
    words p (xs ++ ys) = words p xs := by
  cases ys with
  | nil => rw [List.append_nil]
  | cons d ys =>
      have hnone := words_eq_nil fun c hc => h c (List.mem_cons_of_mem d hc)
      rw [words_append_cons xs ys (h d List.mem_cons_self), hnone, List.append_nil]

/-- Between two words there is a delimiter. -/
theorem length_words : ∀ text : List α, 2 * (words p text).length ≤ text.length + 1 := by
  intro text
  -- over the length, as the rest after a delimiter is shorter
  induction hn : text.length using Nat.strong_induction_on generalizing text with
  | _ n ih =>
      rcases first_delimiter (p := p) text with hrun | ⟨r, d, rest, rfl, hrun, hd⟩
      · rw [words_run hrun]
        cases text with
        | nil => simp
        | cons c r =>
            simp only [List.length_cons] at hn
            simp
            omega
      · simp only [List.length_append, List.length_cons] at hn
        have hrest := ih rest.length (by omega) rest rfl
        rw [words_append_cons r rest hd, words_run hrun, List.length_append]
        -- an empty run between two delimiters adds no word
        cases r with
        | nil =>
            simp only [List.length_nil] at hn
            simp
            omega
        | cons c r =>
            simp only [List.length_cons] at hn
            simp
            omega

/-- A text ends in a run, maybe an empty one, and the words before it stay as they are whatever
follows. -/
theorem words_last (text : List α) :
    ∃ pre r ws, text = pre ++ r ∧ (∀ c ∈ r, p c = false) ∧
      (∀ rest, words p (text ++ rest) = ws ++ words p (r ++ rest)) ∧ 2 * ws.length ≤ pre.length := by
  rcases last_delimiter (p := p) text with hrun | ⟨before, d, r, rfl, hrun, hd⟩
  · exact ⟨[], text, [], rfl, hrun, fun rest => rfl, Nat.le_refl 0⟩
  · refine ⟨before ++ [d], r, words p before, by simp, hrun, fun rest => ?_, ?_⟩
    · rw [List.append_assoc, List.cons_append, words_append_cons before (r ++ rest) hd]
    · simpa using length_words before

/-! ## Words one by one

`strtok` drops the delimiters at the front and takes the run behind them. By `strtok_words` it agrees with `words`,
and callers use it by the number of words that are left: `strtok_of_nil` and `strtok_of_cons`.
-/

theorem strtok_nil : strtok p [] = none := rfl

theorem strtok_cons (text : List α) {d : α} (hd : p d = true) : strtok p (d :: text) = strtok p text := by
  simp [strtok, hd]

theorem strtok_run {r : List α} (hne : r ≠ []) (h : ∀ c ∈ r, p c = false) :
    strtok p r = some (r, []) := by
  have htake : r.takeWhile (fun c => !p c) = r := by
    rw [List.takeWhile_eq_self_iff]
    simpa using h
  have hdrop : r.dropWhile (fun c => !p c) = [] := by
    rw [List.dropWhile_eq_nil_iff]
    simpa using h
  cases r with
  | nil => exact absurd rfl hne
  | cons c r =>
      rw [strtok, List.dropWhile_cons_of_neg (by simp [h c List.mem_cons_self])]
      simp only [htake, hdrop, List.tail_nil]

theorem strtok_run_cons {r : List α} (rest : List α) {d : α} (hne : r ≠ []) (h : ∀ c ∈ r, p c = false)
    (hd : p d = true) : strtok p (r ++ d :: rest) = some (r, rest) := by
  have htake : (r ++ d :: rest).takeWhile (fun c => !p c) = r := by
    rw [List.takeWhile_append_of_pos (by simpa using h), List.takeWhile_cons_of_neg (by simp [hd]),
      List.append_nil]
  have hdrop : (r ++ d :: rest).dropWhile (fun c => !p c) = d :: rest := by
    rw [List.dropWhile_append_of_pos (by simpa using h), List.dropWhile_cons_of_neg (by simp [hd])]
  cases r with
  | nil => exact absurd rfl hne
  | cons c r =>
      rw [List.cons_append] at htake hdrop ⊢
      rw [strtok, List.dropWhile_cons_of_neg (by simp [h c List.mem_cons_self])]
      simp only [htake, hdrop, List.tail_cons]

/-- `strtok` finds the first word, if there is one. -/
theorem strtok_words (text : List α) :
    strtok p text = none ∧ words p text = [] ∨
      ∃ w rest, strtok p text = some (w, rest) ∧ words p text = w :: words p rest := by
  induction text with
  | nil => exact Or.inl ⟨strtok_nil, words_nil⟩
  | cons c text ih =>
      -- a delimiter at the front is dropped; otherwise the first word begins here
      cases hc : p c with
      | true =>
          rw [strtok_cons text hc, words_cons text hc]
          exact ih
      | false =>
          right
          rcases first_delimiter (p := p) (c :: text) with hrun | ⟨r, d, rest, heq, hrun, hd⟩
          · refine ⟨_, [], strtok_run (List.cons_ne_nil c text) hrun, ?_⟩
            rw [words_run hrun, words_nil]
            rfl
          · have hne : r ≠ [] := by
              rintro rfl
              cases heq
              rw [hc] at hd
              cases hd
            rw [heq]
            refine ⟨r, rest, strtok_run_cons rest hne hrun hd, ?_⟩
            rw [words_append_cons r rest hd, words_run hrun, if_neg hne]
            rfl

/-- At the end of the words there is none left. -/
theorem strtok_of_nil (h : words p text = []) : strtok p text = none := by
  rcases strtok_words (p := p) text with ⟨hnone, _⟩ | ⟨w, rest, _, hwords⟩
  · exact hnone
  · rw [h] at hwords
    cases hwords

/-- Before a word, `strtok` finds it and leaves the others. -/
theorem strtok_of_cons {w : List α} {ws : List (List α)} (h : words p text = w :: ws) :
    ∃ rest, strtok p text = some (w, rest) ∧ words p rest = ws := by
  rcases strtok_words (p := p) text with ⟨_, hwords⟩ | ⟨w', rest, hsome, hwords⟩
  · rw [h] at hwords
    cases hwords
  · rw [h] at hwords
    cases hwords
    exact ⟨rest, hsome, rfl⟩

/-- The words are runs of other characters of the text. -/
theorem mem_words {w : List α} (h : w ∈ words p text) :
    w ≠ [] ∧ ∀ c ∈ w, p c = false ∧ c ∈ text := by
  induction hn : text.length using Nat.strong_induction_on generalizing text with
  | _ n ih =>
      rcases first_delimiter (p := p) text with hrun | ⟨r, d, rest, rfl, hrun, hd⟩
      · rw [words_run hrun] at h
        split at h
        · cases h
        · next hne =>
            rw [List.mem_singleton] at h
            rw [h]
            exact ⟨hne, fun c hc => ⟨hrun c hc, hc⟩⟩
      · rw [words_append_cons r rest hd, List.mem_append, words_run hrun] at h
        -- the word is the first run, or one of the rest
        rcases h with h | h
        · split at h
          · cases h
          · next hne =>
              rw [List.mem_singleton] at h
              rw [h]
              exact ⟨hne, fun c hc => ⟨hrun c hc, by simp [hc]⟩⟩
        · simp only [List.length_append, List.length_cons] at hn
          obtain ⟨hne, hw⟩ := ih rest.length (by omega) h rfl
          exact ⟨hne, fun c hc => ⟨(hw c hc).1, by simp [(hw c hc).2]⟩⟩

/-! ## Where a word is

The positions of a word, counted from a given one on. A list can be recovered from the positions of its elements, so
two lists with the same positions are the same.
-/

variable {β : Type} [DecidableEq β]

/-- The positions of `u` in a list whose first element has position `j`. -/
def positions (u : β) : Nat → List β → List Nat
  | _, [] => []
  | j, w :: ws => if w = u then j :: positions u (j + 1) ws else positions u (j + 1) ws

theorem length_positions (u : β) (j : Nat) (ws : List β) : (positions u j ws).length ≤ ws.length := by
  induction ws generalizing j with
  | nil => exact Nat.le_refl 0
  | cons w ws ih =>
      rw [positions]
      have h := ih (j + 1)
      split
      · simpa using h
      · exact Nat.le_succ_of_le h

theorem mem_positions {u : β} {i : Nat} {j : Nat} {ws : List β} :
    i ∈ positions u j ws ↔ j ≤ i ∧ ws[i - j]? = some u := by
  induction ws generalizing j with
  | nil => simp [positions]
  | cons w ws ih =>
      have hstep : i ∈ positions u (j + 1) ws ↔ j < i ∧ (w :: ws)[i - j]? = some u := by
        rw [ih]
        by_cases hlt : j < i
        · rw [show i - j = (i - (j + 1)) + 1 by omega, List.getElem?_cons_succ]
          exact Iff.rfl
        · have hle : ¬ j + 1 ≤ i := by omega
          simp [hlt, hle]
      rw [positions]
      split
      · next hw =>
          rw [List.mem_cons, hstep]
          -- the position is that of the element at the front, or one behind it
          by_cases heq : i = j
          · simp [heq, hw]
          · simp only [heq, false_or]
            constructor
            · exact fun h => ⟨Nat.le_of_lt h.1, h.2⟩
            · exact fun h => ⟨by omega, h.2⟩
      · next hw =>
          rw [hstep]
          constructor
          · exact fun h => ⟨Nat.le_of_lt h.1, h.2⟩
          · rintro ⟨hle, hget⟩
            by_cases heq : i = j
            · rw [heq, Nat.sub_self, List.getElem?_cons_zero, Option.some.injEq] at hget
              exact absurd hget hw
            · exact ⟨by omega, hget⟩

/-- A list is known by the positions of its elements. -/
theorem eq_of_positions {xs ys : List β} (j : Nat)
    (h : ∀ u, u ∈ xs ∨ u ∈ ys → positions u j xs = positions u j ys) : xs = ys := by
  apply List.ext_getElem?
  intro i
  have hmem : ∀ u, u ∈ xs ∨ u ∈ ys → (xs[i]? = some u ↔ ys[i]? = some u) := by
    intro u hu
    have hx : i + j ∈ positions u j xs ↔ _ := mem_positions
    have hy : i + j ∈ positions u j ys ↔ _ := mem_positions
    rw [h u hu, hy] at hx
    simpa using hx.symm
  -- an element of one list is found in the other at the same place
  cases hx : xs[i]? with
  | some u =>
      exact ((hmem u (Or.inl (List.mem_of_getElem? hx))).mp hx).symm
  | none =>
      cases hy : ys[i]? with
      | some u =>
          have hu := (hmem u (Or.inr (List.mem_of_getElem? hy))).mpr hy
          rw [hx] at hu
          cases hu
      | none => rfl

end CS640.Lib
