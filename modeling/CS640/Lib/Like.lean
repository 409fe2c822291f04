import Mathlib.Data.List.Infix
import Mathlib.Data.List.Forall2
import Mathlib.Tactic.Common

/-!
# Patterns with wildcards

The patterns of SQL's `LIKE`: a percent sign stands for any text, an underscore for any character, and a
character behind a backslash for itself. Which characters are the same is a parameter. A pattern between two
percent signs is found in the texts that have a part which it matches (`matches_between`); a pattern without
wildcards matches what is the same character by character (`matches_plain`).
-/

namespace CS640.Lib.Like

inductive Piece
  | any
  | one
  | char (c : Char)
  deriving DecidableEq, Repr

/-- The pieces of a pattern, unless it ends with a backslash that stands for nothing. -/
def pieces : List Char → Option (List Piece)
  | [] => some []
  | '\\' :: c :: s => (pieces s).map (.char c :: ·)
  | ['\\'] => none
  | c :: s => (pieces s).map ((if c = '%' then .any else if c = '_' then .one else .char c) :: ·)

def matchesPieces (same : Char → Char → Bool) : List Piece → List Char → Bool
  | [], s => s == []
  | .any :: p, s => s.tails.any (matchesPieces same p)
  | .one :: _, [] => false
  | .one :: p, _ :: s => matchesPieces same p s
  | .char _ :: _, [] => false
  | .char c :: p, d :: s => same c d && matchesPieces same p s

/-- `text LIKE pattern`. -/
def like (same : Char → Char → Bool) (pattern text : List Char) : Bool :=
  ((pieces pattern).map fun p => matchesPieces same p text).getD false

/-- A character of a pattern that stands for itself. -/
def Plain (c : Char) : Prop := c ≠ '%' ∧ c ≠ '_' ∧ c ≠ '\\'

variable {same : Char → Char → Bool} {p q : List Piece} {s t text : List Char} {c : Char}

/-! ## Pieces

A pattern is read once into pieces, and a backslash is gone from them. A pattern that is complete can be followed by
another one.
-/

theorem pieces_plain_cons (hc : Plain c) : pieces (c :: s) = (pieces s).map (.char c :: ·) := by
  obtain ⟨hpercent, hunderscore, hbackslash⟩ := hc
  rw [pieces]
  · simp [hpercent, hunderscore]
  · rintro a u rfl
    exact absurd rfl hbackslash
  · rintro rfl
    exact absurd rfl hbackslash

theorem pieces_percent : pieces ('%' :: s) = (pieces s).map (.any :: ·) := by
  rw [pieces]
  · simp
  · intro a u h
    cases h
  · intro h
    cases h

theorem pieces_plain (hs : ∀ c ∈ s, Plain c) : pieces s = some (s.map .char) := by
  -- over the text; no character of it is read with the one behind it
  induction s with
  | nil => rfl
  | cons c s ih =>
      obtain ⟨hc, hs⟩ := List.forall_mem_cons.mp hs
      rw [pieces_plain_cons hc, ih hs]
      rfl

/-- A percent sign behind a pattern that is complete. -/
theorem pieces_append (h : pieces s = some p) : pieces (s ++ t) = (pieces t).map (p ++ ·) := by
  induction s using pieces.induct generalizing p with
  | case1 =>
      cases h
      simp
  | case2 c s ih =>
      rw [pieces, Option.map_eq_some_iff] at h
      obtain ⟨p, hp, rfl⟩ := h
      rw [List.cons_append, List.cons_append, pieces, ih hp, Option.map_map]
      rfl
  | case3 => cases h
  | case4 c s hescape hlast ih =>
      rw [pieces, Option.map_eq_some_iff] at h
      · obtain ⟨p, hp, rfl⟩ := h
        rw [List.cons_append, pieces, ih hp, Option.map_map]
        · rfl
        · rintro a u rfl hu
          -- the text may not end with a backslash, which would take the first character of what follows
          cases s with
          | nil => exact hlast rfl rfl
          | cons b s =>
              cases hu
              exact hescape _ s rfl rfl
        · rintro rfl hnil
          exact hlast rfl (List.append_eq_nil_iff.mp hnil).1
      · exact hescape
      · exact hlast

/-! ## Matches

What a pattern matches is settled piece by piece; only `any` has a choice, of where the rest begins.
-/

@[simp] theorem matches_nil : matchesPieces same [] s = true ↔ s = [] := by
  simp [matchesPieces]

@[simp] theorem matches_char_cons {d : Char} :
    matchesPieces same (.char c :: p) (d :: s) = true ↔ same c d = true ∧ matchesPieces same p s = true := by
  simp [matchesPieces]

theorem matches_any : matchesPieces same (.any :: p) s = true ↔ ∃ u, u <:+ s ∧ matchesPieces same p u = true := by
  simp [matchesPieces]

/-- Patterns that are joined match what is joined. -/
theorem matches_append : matchesPieces same (p ++ q) s = true ↔
    ∃ t u, s = t ++ u ∧ matchesPieces same p t = true ∧ matchesPieces same q u = true := by
  -- over the pieces of the first pattern; the text is cut where it ends
  induction p generalizing s with
  | nil => simp
  | cons a p ih =>
      cases a with
      | any =>
          simp only [List.cons_append, matches_any, ih]
          constructor
          · rintro ⟨_, ⟨v, rfl⟩, t, u, rfl, ht, hu⟩
            exact ⟨v ++ t, u, by simp, ⟨t, List.suffix_append v t, ht⟩, hu⟩
          · rintro ⟨_, u, rfl, ⟨t, ⟨v, rfl⟩, ht⟩, hu⟩
            exact ⟨t ++ u, ⟨v, by simp⟩, t, u, rfl, ht, hu⟩
      | one =>
          cases s with
          | nil => simp [matchesPieces]
          | cons d s =>
              simp only [List.cons_append, matchesPieces, ih]
              constructor
              · rintro ⟨t, u, rfl, ht, hu⟩
                exact ⟨d :: t, u, rfl, ht, hu⟩
              · rintro ⟨_ | ⟨e, t⟩, u, heq, ht, hu⟩
                · cases ht
                · cases heq
                  exact ⟨t, u, rfl, ht, hu⟩
      | char c =>
          cases s with
          | nil => simp [matchesPieces]
          | cons d s =>
              simp only [List.cons_append, matches_char_cons, ih]
              constructor
              · rintro ⟨hsame, t, u, rfl, ht, hu⟩
                exact ⟨d :: t, u, rfl, matches_char_cons.mpr ⟨hsame, ht⟩, hu⟩
              · rintro ⟨_ | ⟨e, t⟩, u, heq, ht, hu⟩
                · cases ht
                · cases heq
                  obtain ⟨hsame, ht⟩ := matches_char_cons.mp ht
                  exact ⟨hsame, t, u, rfl, ht, hu⟩

/-- **Between percent signs** a pattern is looked for in the text. -/
theorem matches_between (p : List Piece) : matchesPieces same (.any :: (p ++ [.any])) s = true ↔
    ∃ t, t <:+: s ∧ matchesPieces same p t = true := by
  have hend : ∀ u, matchesPieces same [.any] u = true := fun u => matches_any.mpr ⟨[], List.nil_suffix, rfl⟩
  simp only [matches_any, matches_append, hend, and_true]
  constructor
  · rintro ⟨_, hsuffix, t, u, rfl, ht⟩
    exact ⟨t, (List.prefix_append t u).isInfix.trans hsuffix.isInfix, ht⟩
  · rintro ⟨t, ⟨v, u, rfl⟩, ht⟩
    exact ⟨t ++ u, ⟨v, by simp⟩, t, u, rfl, ht⟩

theorem matches_plain : matchesPieces same (s.map .char) t = true ↔ List.Forall₂ (fun c d => same c d) s t := by
  induction s generalizing t with
  | nil => simp
  | cons c s ih =>
      cases t with
      | nil => simp [matchesPieces]
      | cons d t => simp [matchesPieces, ih]

/-- Words without wildcards are looked for as they are. -/
theorem like_between (hs : ∀ c ∈ s, Plain c) : like same ('%' :: (s ++ ['%'])) text = true ↔
    ∃ t, t <:+: text ∧ List.Forall₂ (fun c d => same c d) s t := by
  have hpercent : pieces ['%'] = some [.any] := rfl
  have hpieces : pieces ('%' :: (s ++ ['%'])) = some (.any :: (s.map .char ++ [.any])) := by
    rw [pieces_percent, pieces_append (pieces_plain hs), hpercent]
    rfl
  rw [like, hpieces]
  simp only [Option.map_some, Option.getD_some, matches_between, matches_plain]

end CS640.Lib.Like
