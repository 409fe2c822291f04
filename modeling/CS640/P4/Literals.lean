import CS640.P4.Tokenizer
import CS640.Lib.Quoting

/-!
# Tokens as SQL literals

`main` puts the tokens of the columns of text between single quotes and the others into the statement
as they are. `getToken` doubles the single quotes of a token only if `is_single_quote` is set. The scan
sets it whenever it meets one, and a token has only what the scan of the same call went over: the flag is
never off when a token needs it.

Main result: `tokens_safe`, for every line and every number of calls.
-/

namespace CS640.P4

open Lib.Quoting

/-- What stands for a field without a value. -/
def nullToken : List Char := ['n', 'u', 'l', 'l']

/-- What `main` appends to the statement for a column of text. -/
def quotedColumn (token : List Char) : List Char :=
  if token != nullToken then '\'' :: (token ++ ['\'']) else token

/-- A token whose single quotes are doubled, so that between single quotes it is a literal for a part of
the line, or of the word for a field without a value. -/
def Safe (line token : List Char) : Prop :=
  ∃ raw, (raw <:+: line ∨ raw <:+: nullToken) ∧ token = escape '\'' raw ∧ Paired '\'' token ∧
    ∀ rest, rest.head? ≠ some '\'' →
      readLiteral '\'' ('\'' :: (token ++ '\'' :: rest)) = some (raw, rest)

theorem Safe.of_escape {line raw : List Char} (h : raw <:+: line ∨ raw <:+: nullToken) :
    Safe line (escape '\'' raw) := by
  refine ⟨raw, h, rfl, paired_escape _ _, fun rest hrest => ?_⟩
  rw [readLiteral_iff]
  exact ⟨by simp [literal], hrest⟩

theorem Safe.mono {line line' token : List Char} (h : Safe line token) (hline : line <:+: line') :
    Safe line' token := by
  obtain ⟨raw, hraw, hsafe⟩ := h
  exact ⟨raw, hraw.imp_left fun hraw => hraw.trans hline, hsafe⟩

namespace Tokenizer

variable {tk u : Tokenizer} {token ret it : List Char} {c : Char}

/-! ## A call

The loop of `tokenize` first: it returns a part of what it went over, or the word for a field without a value, and
the flag is set if a single quote is in it. `getToken` shortens that or not, and doubles it if the flag is set.
-/

theorem isSingleQuote_quote (h : '\'' ∈ token → tk.isSingleQuote = true) :
    '\'' ∈ token ++ [c] → (tk.quote c).isSingleQuote = true := by
  intro hmem
  -- the character is a single quote, or one is in the token already
  by_cases hc : c = '\''
  · subst hc
    rfl
  · have hmem : '\'' ∈ token := by
      simpa [Ne.symm hc] using hmem
    rw [quote]
    split
    · exact h hmem
    · simp [h hmem]

theorem rest_quote : (tk.quote c).rest = tk.rest := by
  rw [quote]
  split
  · rfl
  · split <;> rfl

/-- What the loop leaves: a part of what it went over, and the flag set for the single quotes in it. -/
structure Scanned (tk : Tokenizer) (token it ret : List Char) (u : Tokenizer) : Prop where
  part : ret <+: token ++ it ∨ ret = nullToken
  single : '\'' ∈ ret → u.isSingleQuote = true
  rest : u.rest = tk.rest ∨ u.rest <:+ it

theorem scan_scanned (h : tk.scan token it = (ret, u)) (hsingle : '\'' ∈ token → tk.isSingleQuote = true) :
    Scanned tk token it ret u := by
  -- over what is left of the line; the flag knows of the single quotes up to here
  induction it generalizing tk token with
  | nil =>
      obtain ⟨rfl, rfl⟩ : [] = ret ∧ tk = u := by simpa [scan] using h
      exact ⟨Or.inl (List.nil_prefix), by simp, Or.inl rfl⟩
  | cons c it ih =>
      rw [scan] at h
      split at h
      · obtain ⟨rfl, rfl⟩ : [] = ret ∧ tk = u := by simpa using h
        exact ⟨Or.inl (List.nil_prefix), by simp, Or.inl rfl⟩
      · dsimp only at h
        have hquote := isSingleQuote_quote (c := c) hsingle
        split at h
        · -- the character the loop stops at is not in the token
          obtain ⟨hret, rfl⟩ := Prod.mk.inj h
          refine ⟨?_, fun hmem => ?_, Or.inr (List.suffix_cons c it)⟩
          · split at hret
            · exact Or.inr hret.symm
            · exact Or.inl (hret ▸ List.prefix_append token (c :: it))
          · split at hret
            · simp [← hret] at hmem
            · exact hquote (List.mem_append_left _ (hret ▸ hmem))
        · obtain ⟨hpart, hset, hrest⟩ := ih h hquote
          refine ⟨?_, hset, ?_⟩
          · rwa [List.append_assoc] at hpart
          · rw [rest_quote] at hrest
            exact hrest.imp_right fun hsuffix => hsuffix.trans (List.suffix_cons c it)

/-- `tokenize` returns a part of what is left of the line. -/
theorem tokenize_scanned (h : tk.tokenize = (ret, u)) :
    (ret <:+: tk.rest ∨ ret = nullToken) ∧ ('\'' ∈ ret → u.isSingleQuote = true) ∧ u.rest <:+ tk.rest := by
  obtain ⟨hpart, hsingle, hrest⟩ := scan_scanned h (by simp)
  refine ⟨hpart.imp_left fun hpre => hpre.isInfix, hsingle, ?_⟩
  rcases hrest with hrest | hrest
  · exact hrest ▸ List.suffix_refl tk.rest
  · exact hrest

theorem not_mem_null : '\x00' ∉ nullToken := by decide

/-- The second half of `getToken` returns a doubled text. -/
theorem finish_safe {line raw : List Char} (hraw : raw <:+: line ∨ raw <:+: nullToken)
    (hnul : '\x00' ∉ line) (hsingle : '\'' ∈ raw → tk.isSingleQuote = true) :
    Safe line (finish raw tk).1 := by
  have hnul : '\x00' ∉ raw := by
    intro hmem
    rcases hraw with hraw | hraw
    · exact hnul (hraw.mem hmem)
    · exact not_mem_null (hraw.mem hmem)
  rw [finish_eq hnul hsingle]
  show Safe line (reads raw)
  rw [reads]
  split
  · have hnull : Safe line (escape '\'' nullToken) := Safe.of_escape (Or.inr (List.infix_refl _))
    exact hnull
  · exact Safe.of_escape hraw

/-- **A call of `getToken`**, whatever flags the calls before it have left. -/
theorem getToken_safe (hnul : '\x00' ∉ tk.rest) (h : tk.getToken = some (token, u)) :
    Safe tk.rest token ∧ u.rest <:+ tk.rest := by
  rcases htok : tk.tokenize with ⟨ret, v⟩
  obtain ⟨hpart, hsingle, hrest⟩ := tokenize_scanned htok
  rw [getToken, htok] at h
  cases ret with
  -- a token without characters, which is returned at once
  | nil =>
      obtain ⟨rfl, rfl⟩ : [] = token ∧ v = u := by simpa using h
      have hempty : Safe tk.rest (escape '\'' []) := Safe.of_escape (Or.inl List.nil_infix)
      exact ⟨hempty, hrest⟩
  | cons c ret =>
      have hall : c :: ret <:+: tk.rest ∨ c :: ret <:+: nullToken := by
        rcases hpart with hpart | hnull
        · exact Or.inl hpart
        · exact Or.inr (by rewrite [hnull]; exact List.infix_refl _)
      dsimp only at h
      split at h
      · -- two characters fewer than the scan went over
        split at h
        · cases h
        · have hsub : ret.dropLast <:+: c :: ret :=
            (List.dropLast_prefix ret).isInfix.trans (List.suffix_cons c ret).isInfix
          have hraw : ret.dropLast <:+: tk.rest ∨ ret.dropLast <:+: nullToken :=
            hall.imp hsub.trans hsub.trans
          obtain ⟨rfl, rfl⟩ := Prod.mk.inj (Option.some.inj h)
          exact ⟨finish_safe hraw hnul fun hmem => hsingle (hsub.mem hmem), hrest⟩
      · obtain ⟨rfl, rfl⟩ := Prod.mk.inj (Option.some.inj h)
        exact ⟨finish_safe hall hnul hsingle, hrest⟩

/-! ## A line

The next call goes on with what the one before has left, which is a part of the line again.
-/

theorem getTokens_safe {n : Nat} {tokens : List (List Char)} (hnul : '\x00' ∉ tk.rest)
    (h : getTokens n tk = some tokens) : ∀ token ∈ tokens, Safe tk.rest token := by
  -- over the calls, on what is left of the line
  induction n generalizing tk tokens with
  | zero =>
      obtain rfl : [] = tokens := by simpa [getTokens] using h
      simp
  | succ n ih =>
      cases hcall : tk.getToken with
      | none => simp [getTokens, hcall] at h
      | some r =>
          obtain ⟨token, u⟩ := r
          rw [getTokens_succ hcall, Option.map_eq_some_iff] at h
          obtain ⟨tokens, htokens, rfl⟩ := h
          obtain ⟨hsafe, hrest⟩ := getToken_safe hnul hcall
          have hall := ih (fun hmem => hnul (hrest.mem hmem)) htokens
          intro a ha
          rcases List.mem_cons.mp ha with rfl | ha
          · exact hsafe
          · exact (hall a ha).mono hrest.isInfix

end Tokenizer

open Tokenizer

/-- **Tokens as literals.** Whatever a line has, every token that a call of `getToken` on it returns has
its single quotes in pairs, and is one literal between single quotes. -/
theorem tokens_safe (str : List Char) (d : Char) (hnul : '\x00' ∉ str) (n : Nat)
    (tokens : List (List Char)) (h : getTokens n (new str d) = some tokens) :
    ∀ token ∈ tokens, Safe str token :=
  getTokens_safe hnul h

/-- `'a,"O',x","`, which ends in a double quote that nothing closes. -/
theorem tokens_safe_unbalanced :
    Safe ['\'', 'a', ',', '"', 'O', '\'', ',', 'x', '"', ',', '"'] ['\'', '\'', 'a'] ∧
      Safe ['\'', 'a', ',', '"', 'O', '\'', ',', 'x', '"', ',', '"'] ['O', '\'', '\'', ',', 'x'] ∧
      Safe ['\'', 'a', ',', '"', 'O', '\'', ',', 'x', '"', ',', '"'] [] := by
  have hsafe := tokens_safe ['\'', 'a', ',', '"', 'O', '\'', ',', 'x', '"', ',', '"'] ',' (by decide) 3
    [['\'', '\'', 'a'], ['O', '\'', '\'', ',', 'x'], []] (by decide)
  exact ⟨hsafe _ (by simp), hsafe _ (by simp), hsafe _ (by simp)⟩

end CS640.P4
