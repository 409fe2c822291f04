import CS640.Lib.Listing
import CS640.Lib.Quoting
import Mathlib.Data.List.Forall2

/-!
# Values of SQL

In a list of values stand `NULL`, in any case, numerals, and texts between single quotes in which two of them
stand for one. A number is known by its numeral. `Value.write` is how a value is written, and `Value.Proper` says
which values every server takes for what they are when they are written so. Servers read other texts as well;
which ones is left open here. `value` is a reader for nothing but values written so (`listOf_write`), for
servers that are to be run.
-/

namespace CS640.Lib.Values

open Lib.Reading Lib.Quoting

/-- A value in a statement. -/
inductive Value
  | null
  | number (numeral : List Char)
  | text (text : List Char)
  deriving DecidableEq, Repr

/-- Digits, with a point in front of, between or behind them. -/
def isUnsigned (s : List Char) : Bool :=
  match s.dropWhile Char.isDigit with
  | [] => s != []
  | c :: fraction => c == '.' && fraction.all Char.isDigit && (s.head? != some '.' || fraction != [])

def isNumeral (s : List Char) : Bool := isUnsigned (if s.head? = some '-' then s.tail else s)

def isNull (s : List Char) : Bool := s.map Char.toLower == ['n', 'u', 'l', 'l']

namespace Value

/-- How a value is written, `word` standing for none. -/
def write (word : List Char) : Value → List Char
  | null => word
  | number numeral => numeral
  | text s => literal '\'' s

/-- Numbers are numerals, and no text has a NUL, which would end the statement. -/
def Proper : Value → Prop
  | null => True
  | number numeral => isNumeral numeral = true
  | text s => '\x00' ∉ s

instance : DecidablePred Proper
  | null => inferInstanceAs (Decidable True)
  | number numeral => inferInstanceAs (Decidable (isNumeral numeral = true))
  | text s => inferInstanceAs (Decidable ('\x00' ∉ s))

end Value

/-- A value ends in front of these. -/
def isEnd (c : Char) : Bool := c == ',' || c == ')'

/-- A value that is not between single quotes. -/
def bareValue : Reader Char Value := fun s =>
  let word := s.takeWhile (!isEnd ·)
  if isNull word then some (.null, s.dropWhile (!isEnd ·))
  else if isNumeral word then some (.number word, s.dropWhile (!isEnd ·))
  else none

def value : Reader Char Value := fun s =>
  if s.head? = some '\'' then (readLiteral '\'' s).map fun p => (.text p.1, p.2) else bareValue s

variable {s text : List Char} {c : Char}

/-! ## Words

A word that stands without quotes is `NULL` or a numeral. No word is both, and neither of them has a comma, a
parenthesis or a single quote in it.
-/

theorem mem_unsigned (h : isUnsigned s = true) : s ≠ [] ∧ ∀ c ∈ s, c.isDigit = true ∨ c = '.' := by
  have hsplit := List.takeWhile_append_dropWhile (p := Char.isDigit) (l := s)
  rw [isUnsigned] at h
  split at h
  · next hdrop =>
      refine ⟨by simpa using h, fun c hc => Or.inl ?_⟩
      rw [hdrop, List.append_nil] at hsplit
      rw [← hsplit] at hc
      exact List.mem_takeWhile_imp hc
  · next c fraction hdrop =>
      simp only [Bool.and_eq_true, beq_iff_eq, List.all_eq_true] at h
      obtain ⟨⟨rfl, hfraction⟩, -⟩ := h
      rw [hdrop] at hsplit
      refine ⟨?_, fun c hc => ?_⟩
      · rintro rfl
        simp at hsplit
      · rw [← hsplit, List.mem_append, List.mem_cons] at hc
        rcases hc with hc | rfl | hc
        · exact Or.inl (List.mem_takeWhile_imp hc)
        · exact Or.inr rfl
        · exact Or.inl (hfraction c hc)

theorem mem_numeral (h : isNumeral s = true) :
    s ≠ [] ∧ ∀ c ∈ s, c.isDigit = true ∨ c = '.' ∨ c = '-' := by
  rw [isNumeral] at h
  cases s with
  | nil => cases h
  | cons a s =>
      refine ⟨List.cons_ne_nil a s, fun c hc => ?_⟩
      by_cases ha : a = '-'
      · rw [if_pos (by simp [ha])] at h
        rcases List.mem_cons.mp hc with rfl | hc
        · exact Or.inr (Or.inr ha)
        · exact ((mem_unsigned h).2 c hc).imp_right Or.inl
      · rw [if_neg (by simpa using ha)] at h
        exact ((mem_unsigned h).2 c hc).imp_right Or.inl

theorem toLower_of_mem_null (h : isNull s = true) (hc : c ∈ s) : c.toLower ∈ ['n', 'u', 'l'] := by
  have hmem : c.toLower ∈ s.map Char.toLower := List.mem_map_of_mem hc
  rw [beq_iff_eq.mp h] at hmem
  simpa using hmem

theorem toLower_of_isDigit (h : c.isDigit = true) : c.toLower = c := by
  have hupper : ¬ (c.val ≥ 'A'.val ∧ c.val ≤ 'Z'.val) := by
    rintro ⟨hle, -⟩
    have hdigit : c.val ≤ '9'.val := by simpa [Char.isDigit] using (Bool.and_eq_true_iff.mp h).2
    exact absurd (UInt32.le_trans hle hdigit) (by decide)
  exact dif_neg hupper

theorem isNull_eq_false (h : ∃ c ∈ s, c.toLower ∉ ['n', 'u', 'l']) : isNull s = false := by
  obtain ⟨c, hc, hnot⟩ := h
  rw [Bool.eq_false_iff]
  exact fun hnull => hnot (toLower_of_mem_null hnull hc)

theorem isNull_numeral (h : isNumeral s = true) : isNull s = false := by
  obtain ⟨hne, hmem⟩ := mem_numeral h
  cases s with
  | nil => exact absurd rfl hne
  | cons c s =>
      refine isNull_eq_false ⟨c, List.mem_cons_self, ?_⟩
      -- it begins with a digit, a point or a minus sign, and so does not begin with `n`
      rcases hmem c List.mem_cons_self with hdigit | rfl | rfl
      · rw [toLower_of_isDigit hdigit]
        intro hword
        simp only [List.mem_cons, List.not_mem_nil, or_false] at hword
        rcases hword with rfl | rfl | rfl <;> cases hdigit
      · decide
      · decide

theorem isEnd_eq_false (h : c.isDigit = true ∨ c = '.' ∨ c = '-') : isEnd c = false := by
  rcases h with h | rfl | rfl
  · by_contra hend
    simp only [isEnd, Bool.not_eq_false, Bool.or_eq_true, beq_iff_eq] at hend
    rcases hend with rfl | rfl <;> cases h
  · rfl
  · rfl

theorem isEnd_of (h : c = ',' ∨ c = ')') : isEnd c = true := by
  rcases h with rfl | rfl <;> rfl

/-- A value that is not between single quotes goes up to the next comma or parenthesis. -/
theorem bareValue_append {word : List Char} (hword : ∀ c ∈ word, isEnd c = false) (hc : isEnd c = true) :
    bareValue (word ++ c :: s) =
      if isNull word then some (.null, c :: s)
      else if isNumeral word then some (.number word, c :: s)
      else none := by
  have hall : ∀ a ∈ word, (!isEnd a) = true := fun a ha => by rw [hword a ha]; rfl
  have htake : (word ++ c :: s).takeWhile (!isEnd ·) = word := by
    rw [List.takeWhile_append_of_pos hall]
    simp [hc]
  have hdrop : (word ++ c :: s).dropWhile (!isEnd ·) = c :: s := by
    rw [List.dropWhile_append_of_pos hall]
    simp [hc]
  simp only [bareValue, htake, hdrop]

/-! ## What is written for a value

Each of the three forms is read back in front of a comma or a parenthesis, and so is a list of them.
-/

theorem stands_null (h : isNull s = true) : Stands (Ended ',' ')') value s .null := by
  have hnot : ∀ c, c.toLower ∉ ['n', 'u', 'l'] → c ∉ s := fun c hc hmem => hc (toLower_of_mem_null h hmem)
  rintro _ ⟨c, rest, rfl, hc⟩
  -- no comma and no parenthesis is in the word
  have hword : ∀ a ∈ s, isEnd a = false := by
    intro a ha
    rw [isEnd, Bool.or_eq_false_iff, beq_eq_false_iff_ne, beq_eq_false_iff_ne]
    constructor <;> rintro rfl
    · exact hnot _ (by decide) ha
    · exact hnot _ (by decide) ha
  -- and it does not begin with a single quote
  have hquote : (s ++ c :: rest).head? ≠ some '\'' := by
    cases s with
    | nil => cases h
    | cons a s =>
        intro heq
        obtain rfl : a = '\'' := by simpa using heq
        exact hnot _ (by decide) List.mem_cons_self
  rw [value, if_neg hquote, bareValue_append hword (isEnd_of hc), if_pos h]

theorem stands_numeral (h : isNumeral s = true) : Stands (Ended ',' ')') value s (.number s) := by
  obtain ⟨hne, hmem⟩ := mem_numeral h
  rintro _ ⟨c, rest, rfl, hc⟩
  have hquote : (s ++ c :: rest).head? ≠ some '\'' := by
    cases s with
    | nil => exact absurd rfl hne
    | cons a s =>
        intro heq
        obtain rfl : a = '\'' := by simpa using heq
        rcases hmem '\'' List.mem_cons_self with h | h | h <;> cases h
  have hbare := bareValue_append (s := rest) (fun a ha => isEnd_eq_false (hmem a ha)) (isEnd_of hc)
  rw [value, if_neg hquote, hbare, isNull_numeral h, if_neg Bool.false_ne_true, if_pos h]

theorem stands_literal (text : List Char) : Stands (Ended ',' ')') value (literal '\'' text) (.text text) := by
  rintro _ ⟨c, s, rfl, hc⟩
  have hnext : (c :: s).head? ≠ some '\'' := by
    rcases hc with rfl | rfl <;> simp
  have hread : readLiteral '\'' (literal '\'' text ++ c :: s) = some (text, c :: s) :=
    readLiteral_iff.2 ⟨rfl, hnext⟩
  have hquote : (literal '\'' text ++ c :: s).head? = some '\'' := rfl
  rw [value, if_pos hquote, hread]
  rfl

theorem stands_write {word : List Char} (hword : isNull word = true) {v : Value} (hv : v.Proper) :
    Stands (Ended ',' ')') value (v.write word) v := by
  -- by the form of the value
  cases v with
  | null => exact stands_null hword
  | number numeral => exact stands_numeral hv
  | text text => exact stands_literal text

/-- **Values that are written are read back.** -/
theorem listOf_write {word rest : List Char} (hword : isNull word = true) {vs : List Value} (hne : vs ≠ [])
    (hvs : ∀ v ∈ vs, v.Proper) {n : Nat} (hn : vs.length ≤ n) :
    listOf ',' ')' value n ([','].intercalate (vs.map (Value.write word)) ++ ')' :: rest) = some (vs, rest) := by
  refine listOf_complete (by decide) ?_ (by simpa using hne) (by simpa using hn)
  rw [List.forall₂_map_left_iff, List.forall₂_same]
  exact fun v hv => stands_write hword (hvs v hv)

end CS640.Lib.Values
