import Mathlib.Data.List.Basic
import Mathlib.Tactic.Common

/-!
# Quoted literals

A text is put between quotes with each of its own quotes written twice. `readLiteral` takes such a
literal off the front of a text: a quote that another one follows stands for a quote, any other quote
closes the literal. `readLiteral_iff` says what it accepts, in both directions; a reader and a writer
that agree are all that the users of this module need.
-/

namespace CS640.Lib.Quoting

variable {α : Type} [DecidableEq α] {q a b : α} {s text raw rest : List α}

/-- A text with its quotes doubled. -/
def escape (q : α) (text : List α) : List α := text.flatMap fun a => if a = q then [q, q] else [a]

/-- A text as a literal. -/
def literal (q : α) (text : List α) : List α := q :: (escape q text ++ [q])

/-- What stands behind an opening quote: the text up to the closing quote, and what is left. -/
def readBody (q : α) : List α → Option (List α × List α)
  | [] => none
  | [a] => if a = q then some ([], []) else none
  | a :: b :: s =>
    if a = q then
      if b = q then (readBody q s).map fun r => (q :: r.1, r.2)
      else some ([], b :: s)
    else (readBody q (b :: s)).map fun r => (a :: r.1, r.2)

def readLiteral (q : α) : List α → Option (List α × List α)
  | [] => none
  | a :: s => if a = q then readBody q s else none

/-- Quotes stand in adjacent pairs only. -/
inductive Paired (q : α) : List α → Prop
  | nil : Paired q []
  | quotes {s : List α} : Paired q s → Paired q (q :: q :: s)
  | cons {a : α} {s : List α} : a ≠ q → Paired q s → Paired q (a :: s)

/-! ## Doubling

`escape` works character by character, so it distributes over appended texts, and a text without quotes is not
changed.
-/

@[simp] theorem escape_nil : escape q [] = [] := rfl

@[simp] theorem escape_quote : escape q (q :: text) = q :: q :: escape q text := by
  simp [escape]

@[simp] theorem escape_cons (ha : a ≠ q) : escape q (a :: text) = a :: escape q text := by
  simp [escape, ha]

@[simp] theorem escape_append : escape q (raw ++ text) = escape q raw ++ escape q text := by
  simp [escape]

/-- A text without quotes is written as it is. -/
theorem escape_of_not_mem (h : q ∉ text) : escape q text = text := by
  induction text with
  | nil => rfl
  | cons a text ih =>
      obtain ⟨ha, htext⟩ := List.ne_and_not_mem_of_not_mem_cons h
      rw [escape_cons ha.symm, ih htext]

theorem paired_escape (q : α) (text : List α) : Paired q (escape q text) := by
  induction text with
  | nil => exact .nil
  | cons a text ih =>
      -- a quote becomes two, any other character stays
      by_cases ha : a = q
      · subst ha
        rw [escape_quote]
        exact .quotes ih
      · rw [escape_cons ha]
        exact .cons ha ih

/-! ## Reading

`readBody` follows the text by one or two characters at a time, and its induction has a case for each way in which a
text can begin. Reading what was written gives the text back (`readBody_complete`), and what was read had been
written so (`readBody_sound`).
-/

@[simp] theorem readBody_quote :
    readBody q (q :: q :: s) = (readBody q s).map fun r => (q :: r.1, r.2) := by
  simp [readBody]

@[simp] theorem readBody_cons (ha : a ≠ q) :
    readBody q (a :: s) = (readBody q s).map fun r => (a :: r.1, r.2) := by
  cases s with
  | nil => simp [readBody, ha]
  | cons b s => rw [readBody, if_neg ha]

/-- A quote that no other one follows closes the literal. -/
theorem readBody_close (h : rest.head? ≠ some q) : readBody q (q :: rest) = some ([], rest) := by
  cases rest with
  | nil => simp [readBody]
  | cons b rest =>
      have hb : b ≠ q := by simpa using h
      simp [readBody, hb]

theorem readBody_complete (h : rest.head? ≠ some q) :
    readBody q (escape q text ++ q :: rest) = some (text, rest) := by
  induction text with
  | nil => exact readBody_close h
  | cons a text ih =>
      by_cases ha : a = q
      · subst ha
        simp [ih]
      · simp [ha, ih]

theorem readBody_sound (h : readBody q s = some (text, rest)) :
    s = escape q text ++ q :: rest ∧ rest.head? ≠ some q := by
  -- a case for each branch of the reader
  induction s using readBody.induct q generalizing text with
  | case1 => simp [readBody] at h
  | case2 =>
      obtain ⟨rfl, rfl⟩ : [] = text ∧ [] = rest := by simpa [readBody] using h
      simp
  | case3 a ha => simp [readBody, ha] at h
  | case4 s ih =>
      rw [readBody_quote, Option.map_eq_some_iff] at h
      obtain ⟨⟨t, r⟩, hread, hr⟩ := h
      obtain ⟨rfl, rfl⟩ : q :: t = text ∧ r = rest := by simpa using hr
      obtain ⟨rfl, hrest⟩ := ih hread
      exact ⟨by simp, hrest⟩
  | case5 b s hb =>
      obtain ⟨rfl, rfl⟩ : [] = text ∧ b :: s = rest := by simpa [readBody, hb] using h
      simp [hb]
  | case6 a b s ha ih =>
      rw [readBody_cons ha, Option.map_eq_some_iff] at h
      obtain ⟨⟨t, r⟩, hread, hr⟩ := h
      obtain ⟨rfl, rfl⟩ : a :: t = text ∧ r = rest := by simpa using hr
      obtain ⟨hs, hrest⟩ := ih hread
      exact ⟨by simp [ha, hs], hrest⟩

/-- **What is read is what was written.** A literal is read off a text if and only if the text begins
with it, and no quote follows. -/
theorem readLiteral_iff :
    readLiteral q s = some (text, rest) ↔ s = literal q text ++ rest ∧ rest.head? ≠ some q := by
  have happend : literal q text ++ rest = q :: (escape q text ++ q :: rest) := by simp [literal]
  constructor
  · intro h
    cases s with
    | nil => simp [readLiteral] at h
    | cons a s =>
        by_cases ha : a = q
        · rw [readLiteral, if_pos ha] at h
          obtain ⟨rfl, hrest⟩ := readBody_sound h
          exact ⟨by rw [happend, ha], hrest⟩
        · simp [readLiteral, ha] at h
  · rintro ⟨rfl, hrest⟩
    rw [happend, readLiteral, if_pos rfl]
    exact readBody_complete hrest

/-- What is left is a suffix of what was there. -/
theorem suffix_of_readLiteral (h : readLiteral q s = some (text, rest)) : rest <:+ s := by
  obtain ⟨rfl, _⟩ := readLiteral_iff.1 h
  exact List.suffix_append (literal q text) rest

/-- A character put before a text is not lost: whatever follows, the text alone is not what is read. -/
theorem readBody_ne (hb : b ≠ q) : readBody q (b :: (text ++ s)) ≠ some (text, rest) := by
  induction text with
  | nil =>
      intro h
      rw [readBody_cons hb, Option.map_eq_some_iff] at h
      obtain ⟨_, _, hr⟩ := h
      simp at hr
  | cons a text ih =>
      intro h
      rw [readBody_cons hb, Option.map_eq_some_iff] at h
      obtain ⟨⟨t, r⟩, hread, hr⟩ := h
      -- what was put before is the first character, and then the rest is shifted by one as well
      obtain ⟨⟨rfl, rfl⟩, rfl⟩ : (b = a ∧ t = text) ∧ r = rest := by simpa using hr
      exact ih hread

/-! ## Texts and their doublings

A text that is not doubled where it should be is still a text, and the statement it stands in may even be a
statement. What follows says when the two are the same, alone and with something behind them.
-/

theorem length_le_escape (q : α) (text : List α) : text.length ≤ (escape q text).length := by
  induction text with
  | nil => exact Nat.le_refl _
  | cons a text ih =>
      by_cases ha : a = q
      · subst ha
        rw [escape_quote]
        simp only [List.length_cons]
        omega
      · rw [escape_cons ha]
        exact Nat.succ_le_succ ih

/-- Only quotes are added. -/
theorem count_escape (ha : a ≠ q) (text : List α) : (escape q text).count a = text.count a := by
  induction text with
  | nil => rfl
  | cons c text ih =>
      by_cases hc : c = q
      · subst hc
        rw [escape_quote, List.count_cons_of_ne ha.symm, List.count_cons_of_ne ha.symm,
          List.count_cons_of_ne ha.symm, ih]
      · rw [escape_cons hc, List.count_cons, List.count_cons, ih]

theorem count_quote_escape (q : α) (text : List α) : (escape q text).count q = 2 * text.count q := by
  induction text with
  | nil => rfl
  | cons a text ih =>
      by_cases ha : a = q
      · subst ha
        rw [escape_quote, List.count_cons_self, List.count_cons_self, List.count_cons_self, ih]
        omega
      · rw [escape_cons ha, List.count_cons_of_ne ha, List.count_cons_of_ne ha, ih]

/-- A text and its doubling part at the first quote of the text, and do not meet again. -/
theorem not_mem_of_append_eq {k : Nat} (ha : a ≠ q) (hb : b ≠ q)
    (h : text ++ a :: s = List.replicate k q ++ (escape q text ++ b :: rest)) : k = 0 ∧ q ∉ text := by
  induction text generalizing k with
  | nil =>
      cases k with
      | zero => exact ⟨rfl, List.not_mem_nil⟩
      | succ k => exact absurd (List.cons.inj h).1 ha
  | cons c text ih =>
      -- the doubling may be ahead by `k` quotes
      cases k with
      | zero =>
          by_cases hc : c = q
          · -- from here on the doubling is ahead by one quote
            subst hc
            rw [escape_quote] at h
            have hone : 1 = 0 ∧ c ∉ text := ih (List.cons.inj h).2
            exact absurd hone.1 (by decide)
          · rw [escape_cons hc] at h
            obtain ⟨-, hmem⟩ := ih (k := 0) (List.cons.inj h).2
            exact ⟨rfl, by simp [Ne.symm hc, hmem]⟩
      | succ k =>
          obtain ⟨rfl, htail⟩ := List.cons.inj h
          have htail : text ++ a :: s = List.replicate k c ++ (escape c (c :: text) ++ b :: rest) := htail
          have hmore : text ++ a :: s = List.replicate (k + 2) c ++ (escape c text ++ b :: rest) := by
            rw [htail, escape_quote, List.replicate_add, List.append_assoc]
            rfl
          exact absurd (ih hmore).1 (by simp)

theorem escape_eq_self_iff : escape q text = text ↔ q ∉ text := by
  refine ⟨fun h hmem => ?_, escape_of_not_mem⟩
  have hcount := count_quote_escape q text
  have hpos := List.count_pos_iff.mpr hmem
  rw [h] at hcount
  omega

/-- A text between quotes is a literal for itself only if it has none. -/
theorem literal_eq_iff : q :: (text ++ [q]) = literal q text ↔ q ∉ text := by
  rw [← escape_eq_self_iff, literal, List.cons_inj_right, List.append_left_inj, eq_comm]

theorem length_le_literal (q : α) (text : List α) : (q :: (text ++ [q])).length ≤ (literal q text).length := by
  have hlen := length_le_escape q text
  simp only [literal, List.length_cons, List.length_append]
  omega

end CS640.Lib.Quoting
