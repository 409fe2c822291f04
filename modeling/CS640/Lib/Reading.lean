import Mathlib.Data.List.Infix
import Mathlib.Data.List.DropRight
import Mathlib.Tactic.Common

/-!
# Readers

A reader takes a value off the front of a text and leaves the rest, or fails. `after` reads behind a fixed
piece of text, `orWord` reads a word that stands for no value in place of the value, `digits` and `number`
read a numeral. What a reader leaves is a suffix of what it was given: the end of a text is the same for
all who read it.
-/

namespace CS640.Lib.Reading

variable {σ α : Type}

abbrev Reader (σ α : Type) := List σ → Option (α × List σ)

/-- `r` behind the text `piece`. -/
def after [DecidableEq σ] (piece : List σ) (r : Reader σ α) : Reader σ α := fun s =>
  (s.dropPrefix? piece).bind r

/-- What `r` reads, or none where `word` stands. -/
def orWord [DecidableEq σ] (word : List σ) (r : Reader σ α) : Reader σ (Option α) := fun s =>
  match s.dropPrefix? word with
  | some rest => some (none, rest)
  | none => (r s).map fun p => (some p.1, p.2)

/-- A digit at least, and as many as there are. -/
def digits : Reader Char (List Char) := fun s =>
  if s.takeWhile Char.isDigit = [] then none
  else some (s.takeWhile Char.isDigit, s.dropWhile Char.isDigit)

/-- The number that a text of decimal digits stands for. -/
def decimal (ds : List Char) : Nat := Nat.ofDigitChars 10 ds 0

def number : Reader Char Nat := fun s => (digits s).map fun p => (decimal p.1, p.2)

/-- A reader leaves a suffix of what it was given. -/
def Leaves (r : Reader σ α) : Prop := ∀ {s a rest}, r s = some (a, rest) → rest <:+ s

theorem Leaves.map {β : Type} {r : Reader σ α} {f : α → β} (h : Leaves r) :
    Leaves fun s => (r s).map fun p => (f p.1, p.2) := by
  intro s b rest hread
  obtain ⟨⟨a, t⟩, hr, heq⟩ := Option.map_eq_some_iff.1 hread
  cases heq
  exact h hr

section

variable [DecidableEq σ] {piece word s : List σ} {r : Reader σ α}

/-! ## Fixed texts

A text is read by what reads it, and then the rest is read on.
-/

@[simp] theorem dropPrefix?_append : (piece ++ s).dropPrefix? piece = some s :=
  List.dropPrefix?_append_of_beq s (BEq.rfl (a := piece))

@[simp] theorem after_append : after piece r (piece ++ s) = r s := by
  rw [after, dropPrefix?_append, Option.bind_some]

@[simp] theorem orWord_append : orWord word r (word ++ s) = some (none, s) := by
  rw [orWord, dropPrefix?_append]

/-- The first character tells the value from the word. -/
theorem orWord_of_head {c d : σ} (hcd : c ≠ d) :
    orWord (d :: word) r (c :: s) = (r (c :: s)).map fun p => (some p.1, p.2) := by
  have hword : (c :: s).dropPrefix? (d :: word) = none := by simp [List.dropPrefix?, hcd]
  rw [orWord, hword]

theorem suffix_of_dropPrefix? {rest : List σ} (h : s.dropPrefix? piece = some rest) : rest <:+ s := by
  obtain ⟨front, rfl, _⟩ := List.dropPrefix?_eq_some_iff.1 h
  exact List.suffix_append front rest

theorem Leaves.after (h : Leaves r) : Leaves (after piece r) := by
  intro s a rest hread
  obtain ⟨t, ht, hread⟩ := Option.bind_eq_some_iff.1 hread
  exact (h hread).trans (suffix_of_dropPrefix? ht)

theorem Leaves.orWord (h : Leaves r) : Leaves (orWord word r) := by
  intro s a rest hread
  cases hword : s.dropPrefix? word with
  | some t =>
      rw [Reading.orWord, hword] at hread
      cases hread
      exact suffix_of_dropPrefix? hword
  | none =>
      rw [Reading.orWord, hword] at hread
      exact h.map hread

end

/-! ## Numerals

Digits are taken as long as there are any, so a numeral is read up to a character that is no digit.
-/

section

variable {ds es s rest : List Char} {c : Char}

theorem takeWhile_digits (hds : ∀ d ∈ ds, d.isDigit) (hc : ¬ c.isDigit) :
    (ds ++ c :: s).takeWhile Char.isDigit = ds := by
  rw [List.takeWhile_append_of_pos hds]
  simp [hc]

theorem dropWhile_digits (hds : ∀ d ∈ ds, d.isDigit) (hc : ¬ c.isDigit) :
    (ds ++ c :: s).dropWhile Char.isDigit = c :: s := by
  rw [List.dropWhile_append_of_pos hds]
  simp [hc]

theorem digits_append (hne : ds ≠ []) (hds : ∀ d ∈ ds, d.isDigit) (hc : ¬ c.isDigit) :
    digits (ds ++ c :: s) = some (ds, c :: s) := by
  rw [digits, takeWhile_digits hds hc, dropWhile_digits hds hc, if_neg hne]

theorem number_append (hne : ds ≠ []) (hds : ∀ d ∈ ds, d.isDigit) (hc : ¬ c.isDigit) :
    number (ds ++ c :: s) = some (decimal ds, c :: s) := by
  rw [number, digits_append hne hds hc, Option.map_some]

theorem digits_sound (h : digits s = some (ds, rest)) :
    s = ds ++ rest ∧ ds ≠ [] ∧ ∀ d ∈ ds, d.isDigit := by
  rw [digits] at h
  split at h
  · cases h
  · next hne =>
      cases h
      exact ⟨(List.takeWhile_append_dropWhile).symm, hne, fun d hd => List.mem_takeWhile_imp hd⟩

theorem leaves_number : Leaves number := by
  refine Leaves.map fun {s ds rest} h => ?_
  obtain ⟨rfl, _⟩ := digits_sound h
  exact List.suffix_append ds rest

@[simp] theorem decimal_toDigits (n : Nat) : decimal (Nat.toDigits 10 n) = n :=
  Nat.ofDigitChars_ten_toDigits

theorem isDigit_of_mem_toDigits (n : Nat) : ∀ d ∈ Nat.toDigits 10 n, d.isDigit = true := fun _ =>
  Nat.isDigit_of_mem_toDigits (by decide) (by decide)

/-- The digits that a text ends with, behind the last character that is none. -/
theorem rtakeWhile_digits (hds : ∀ d ∈ ds, d.isDigit) (hc : ¬ c.isDigit) :
    (s ++ c :: ds).rtakeWhile Char.isDigit = ds := by
  have hreverse : (s ++ c :: ds).reverse = ds.reverse ++ c :: s.reverse := by simp
  have hdigits : ∀ d ∈ ds.reverse, d.isDigit := fun d hd => hds d (List.mem_reverse.1 hd)
  rw [List.rtakeWhile, hreverse, takeWhile_digits hdigits hc, List.reverse_reverse]

/-- The numeral at the end of a text is the same for all who read it. -/
theorem digits_unique {s t tail : List Char} (hds : ∀ d ∈ ds, d.isDigit) (hes : ∀ d ∈ es, d.isDigit)
    (hc : ¬ c.isDigit) (h : s ++ c :: (ds ++ tail) = t ++ c :: (es ++ tail)) : ds = es := by
  have hends : s ++ c :: ds = t ++ c :: es := by
    rw [← List.append_left_inj tail]
    simpa using h
  calc ds = (s ++ c :: ds).rtakeWhile Char.isDigit := (rtakeWhile_digits hds hc).symm
    _ = (t ++ c :: es).rtakeWhile Char.isDigit := by rw [hends]
    _ = es := rtakeWhile_digits hes hc

end

end CS640.Lib.Reading
