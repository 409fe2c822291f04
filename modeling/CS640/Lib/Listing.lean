import CS640.Lib.Reading

/-!
# Lists of values

Values are written one by one, with a separator between them and a closing character behind the last one.
Two such lists of texts come out the same if and only if they are the same text by text, under one of two
conditions: no text of one list is longer than the one of the other in its place (`intercalate_eq_iff`), or two
texts in the same place are the same or cannot be taken for each other whatever follows
(`intercalate_close_eq_iff`).

`listOf` reads such a list back, and `sepBy` reads values for as long as a separating text follows. A text
stands for a value where the reader takes exactly this text off in front of what may follow a value
(`Stands`). Texts that stand for their values are read as the list of them (`listOf_complete`,
`sepBy_complete`).
-/

namespace CS640.Lib.Reading

variable {σ α : Type}

/-- At most the given number of values. -/
def listOf [DecidableEq σ] (sep close : σ) (r : Reader σ α) : Nat → Reader σ (List α)
  | 0, _ => none
  | n + 1, s => do
    let (a, s) ← r s
    match s with
    | [] => none
    | c :: s =>
      if c = sep then (listOf sep close r n s).map fun p => (a :: p.1, p.2)
      else if c = close then some ([a], s)
      else none

/-- At most the given number of values. -/
def sepBy [DecidableEq σ] (sep : List σ) (r : Reader σ α) : Nat → Reader σ (List α)
  | 0, _ => none
  | n + 1, s => do
    let (a, s) ← r s
    match s.dropPrefix? sep with
    | some s => (sepBy sep r n s).map fun p => (a :: p.1, p.2)
    | none => some ([a], s)

/-- A text before each separator, and the separators alone. -/
theorem flatMap_intercalate {texts : List (List σ)} {sep : List σ} (hne : texts ≠ []) :
    texts.flatMap (· ++ sep) = sep.intercalate texts ++ sep := by
  induction texts with
  | nil => exact absurd rfl hne
  | cons text texts ih =>
      cases texts with
      | nil => simp
      | cons u texts =>
          rw [List.flatMap_cons, ih (List.cons_ne_nil u texts), List.intercalate_cons_cons]
          simp

/-- A text that is joined is as long as there are separators at least. -/
theorem length_intercalate {sep : List σ} (hsep : sep ≠ []) (texts : List (List σ)) :
    texts.length ≤ (sep.intercalate texts).length + 1 := by
  have hpos := List.length_pos_of_ne_nil hsep
  -- over the texts; with two or more there is a separator
  induction texts with
  | nil => exact Nat.zero_le _
  | cons text texts ih =>
      cases texts with
      | nil => simp
      | cons u texts =>
          rw [List.intercalate_cons_cons]
          simp only [List.length_append, List.length_cons] at ih ⊢
          omega

/-- Longer texts make a longer list. -/
theorem length_intercalate_le {sep : List σ} {texts others : List (List σ)}
    (h : List.Forall₂ (fun s t => s.length ≤ t.length) texts others) :
    (sep.intercalate texts).length ≤ (sep.intercalate others).length := by
  induction h with
  | nil => exact Nat.le_refl _
  | @cons s t texts others hst hrest ih =>
      cases hrest with
      | nil => simpa using hst
      | cons hu hrest =>
          rw [List.intercalate_cons_cons, List.intercalate_cons_cons]
          simp only [List.length_append]
          omega

/-- **No text is longer than the other one.** Then the two lists come out the same only if they are. -/
theorem intercalate_eq_iff {sep : List σ} {texts others : List (List σ)}
    (h : List.Forall₂ (fun s t => s.length ≤ t.length) texts others) :
    sep.intercalate texts = sep.intercalate others ↔ texts = others := by
  refine ⟨fun heq => ?_, fun heq => by rw [heq]⟩
  induction h with
  | nil => rfl
  | @cons s t texts others hst hrest ih =>
      cases hrest with
      | nil =>
          rw [List.intercalate_singleton, List.intercalate_singleton] at heq
          rw [heq]
      | @cons u v texts others hu hrest =>
          have hmore : (sep.intercalate (u :: texts)).length ≤ (sep.intercalate (v :: others)).length :=
            length_intercalate_le (List.Forall₂.cons hu hrest)
          rw [List.intercalate_cons_cons, List.intercalate_cons_cons, List.append_assoc, List.append_assoc] at heq
          -- both parts of the one side are no longer than those of the other, and together they are as long
          have hlen := congrArg List.length heq
          simp only [List.length_append] at hlen
          obtain ⟨rfl, htail⟩ := List.append_inj heq (by omega)
          rw [ih (List.append_cancel_left htail)]

/-- Whatever follows, one text is not taken for the other. -/
def Apart (follows : List σ → Prop) (text other : List σ) : Prop :=
  ∀ s t, follows s → follows t → text ++ s ≠ other ++ t

theorem apart_of_head {follows : List σ → Prop} {text other : List σ} {a b : σ} (ha : text.head? = some a)
    (hb : other.head? = some b) (hne : a ≠ b) : Apart follows text other := by
  obtain ⟨text, rfl⟩ := List.head?_eq_some_iff.1 ha
  obtain ⟨other, rfl⟩ := List.head?_eq_some_iff.1 hb
  exact fun _ _ _ _ heq => hne (List.cons.inj heq).1

/-- `text` is read as `a` in front of what may follow a value. -/
def Stands (follows : List σ → Prop) (r : Reader σ α) (text : List σ) (a : α) : Prop :=
  ∀ s, follows s → r (text ++ s) = some (a, s)

/-- A separator or the closing character. -/
def Ended (sep close : σ) (s : List σ) : Prop := ∃ c t, s = c :: t ∧ (c = sep ∨ c = close)

theorem ended_sep {sep close : σ} (s : List σ) : Ended sep close (sep :: s) := ⟨sep, s, rfl, Or.inl rfl⟩

theorem ended_close {sep close : σ} (s : List σ) : Ended sep close (close :: s) := ⟨close, s, rfl, Or.inr rfl⟩

/-- A separating text, or what comes after all values. -/
def Followed (sep rest s : List σ) : Prop := (∃ t, s = sep ++ t) ∨ s = rest

/-- What is written behind the first text of a list. -/
def behindFirst (sep close : σ) (texts : List (List σ)) : List σ :=
  if texts = [] then [close] else sep :: ([sep].intercalate texts ++ [close])

theorem intercalate_cons_close (sep close : σ) (text : List σ) (texts : List (List σ)) :
    [sep].intercalate (text :: texts) ++ [close] = text ++ behindFirst sep close texts := by
  cases texts with
  | nil => rw [List.intercalate_singleton, behindFirst, if_pos rfl]
  | cons u texts => simp [behindFirst]

theorem ended_behindFirst (sep close : σ) (texts : List (List σ)) :
    Ended sep close (behindFirst sep close texts) := by
  rw [behindFirst]
  split
  · exact ended_close []
  · exact ended_sep _

/-- **Texts that are the same or apart.** Then two lists come out the same only if they are. -/
theorem intercalate_close_eq_iff {sep close : σ} (hne : close ≠ sep) {texts others : List (List σ)}
    (h : ∀ p ∈ texts.zip others, p.1 = p.2 ∨ Apart (Ended sep close) p.1 p.2) (htexts : texts ≠ [])
    (hothers : others ≠ []) :
    [sep].intercalate texts ++ [close] = [sep].intercalate others ++ [close] ↔ texts = others := by
  refine ⟨fun heq => ?_, fun heq => by rw [heq]⟩
  -- over the texts, from the left
  induction texts generalizing others with
  | nil => exact absurd rfl htexts
  | cons text texts ih =>
      obtain ⟨other, others, rfl⟩ := List.exists_cons_of_ne_nil hothers
      obtain ⟨hhead, hrest⟩ := List.forall_mem_cons.mp h
      rw [intercalate_cons_close, intercalate_cons_close] at heq
      obtain rfl : text = other :=
        hhead.resolve_right fun hapart => hapart _ _ (ended_behindFirst ..) (ended_behindFirst ..) heq
      have hbehind := List.append_cancel_left heq
      rw [behindFirst, behindFirst] at hbehind
      -- one list ends here if and only if the other one does
      split at hbehind
      · next hend =>
          split at hbehind
          · next hend' => rw [hend, hend']
          · exact absurd (List.cons.inj hbehind).1 hne
      · next hmore =>
          split at hbehind
          · exact absurd (List.cons.inj hbehind).1.symm hne
          · next hmore' => rw [ih hrest hmore hmore' (List.cons.inj hbehind).2]

section

variable [DecidableEq σ] {sep close : σ} {r : Reader σ α} {s rest text : List σ} {a : α} {as : List α}
  {n : Nat}

theorem listOf_sep (h : r s = some (a, sep :: rest)) :
    listOf sep close r (n + 1) s = (listOf sep close r n rest).map fun p => (a :: p.1, p.2) := by
  simp [listOf, h]

theorem listOf_close (hne : close ≠ sep) (h : r s = some (a, close :: rest)) :
    listOf sep close r (n + 1) s = some ([a], rest) := by
  simp [listOf, h, hne]

/-- **Values that are written one by one are read as a list.** -/
theorem listOf_complete (hne : close ≠ sep) {texts : List (List σ)}
    (h : List.Forall₂ (Stands (Ended sep close) r) texts as) (htexts : texts ≠ []) (hn : texts.length ≤ n) :
    listOf sep close r n ([sep].intercalate texts ++ close :: rest) = some (as, rest) := by
  -- over the values, as each is read in front of what follows it
  induction h generalizing n with
  | nil => exact absurd rfl htexts
  | @cons text a texts as htext hrest ih =>
      obtain ⟨n, rfl⟩ := Nat.exists_eq_succ_of_ne_zero (Nat.ne_of_gt (Nat.lt_of_lt_of_le (by simp) hn))
      rw [List.length_cons, Nat.succ_le_succ_iff] at hn
      cases hrest with
      | nil =>
          rw [List.intercalate_singleton]
          exact listOf_close hne (htext _ (ended_close rest))
      | @cons u b us bs hu hus =>
          have hread := ih (List.cons_ne_nil u us) hn
          rw [List.intercalate_cons_cons, List.append_assoc, List.append_assoc, List.singleton_append,
            listOf_sep (htext _ (ended_sep _)), hread]
          rfl

end

/-! ## Separating texts

The same for a separator of several characters, where the end of the list is any text that does not begin with it.
-/

section

variable [DecidableEq σ] {sep : List σ} {r : Reader σ α} {s rest text : List σ} {a : α} {as : List α} {n : Nat}

theorem sepBy_more (h : r s = some (a, sep ++ rest)) :
    sepBy sep r (n + 1) s = (sepBy sep r n rest).map fun p => (a :: p.1, p.2) := by
  simp [sepBy, h]

theorem sepBy_last (hrest : rest.dropPrefix? sep = none) (h : r s = some (a, rest)) :
    sepBy sep r (n + 1) s = some ([a], rest) := by
  simp [sepBy, h, hrest]

theorem sepBy_complete (hrest : rest.dropPrefix? sep = none) {texts : List (List σ)}
    (h : List.Forall₂ (Stands (Followed sep rest) r) texts as) (htexts : texts ≠ []) (hn : texts.length ≤ n) :
    sepBy sep r n (sep.intercalate texts ++ rest) = some (as, rest) := by
  induction h generalizing n with
  | nil => exact absurd rfl htexts
  | @cons text a texts as htext hmore ih =>
      obtain ⟨n, rfl⟩ := Nat.exists_eq_succ_of_ne_zero (Nat.ne_of_gt (Nat.lt_of_lt_of_le (by simp) hn))
      rw [List.length_cons, Nat.succ_le_succ_iff] at hn
      cases hmore with
      | nil =>
          rw [List.intercalate_singleton]
          exact sepBy_last hrest (htext rest (Or.inr rfl))
      | @cons u b us bs hu hus =>
          have hread := ih (List.cons_ne_nil u us) hn
          rw [List.intercalate_cons_cons, List.append_assoc, List.append_assoc,
            sepBy_more (htext _ (Or.inl ⟨_, rfl⟩)), hread]
          rfl

end

end CS640.Lib.Reading
