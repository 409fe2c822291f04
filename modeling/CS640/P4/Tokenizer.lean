import Mathlib.Data.List.Basic
import Mathlib.Data.List.TakeWhile
import Mathlib.Tactic.Common

/-!
# The tokenizer of p4

`Tokenizer` takes the lines of the census files apart. `start_ptr` and `end_ptr` point into `source`; here
the tokenizer has what is left of the line from `start_ptr` on, `*end_ptr` being the NUL after it. Since
`start_ptr` never passes `end_ptr`, the message about that is left out.

Main result: `tokens_iff`, for which lines `getToken` returns one token for each field.

The proof follows a line from left to right. `scan_text` carries the loop over the inside of a field,
`tokenize_plain` and `tokenize_quoted` over a whole one, and `getToken_field` says what a call returns at a field
that something ends, leaving the tokenizer as a new one on the rest of the line. Only the last field of a line that
nothing ends is different (`getToken_last`): there the loop stops one character early. `getTokens_line` puts the
fields together.
-/

namespace CS640.P4

structure Tokenizer where
  rest : List Char
  delim : Char
  isDoubleQuote : Bool
  completeDoubleQuote : Bool
  isSingleQuote : Bool
  deriving DecidableEq, Repr

namespace Tokenizer

/-- `Tokenizer::Tokenizer`. -/
def new (str : List Char) (d : Char) : Tokenizer where
  rest := str
  delim := d
  isDoubleQuote := false
  completeDoubleQuote := false
  isSingleQuote := false

/-- `*it`. -/
def peek (it : List Char) : Char := it.headD '\x00'

/-- The flags after a character. -/
def quote (c : Char) (tk : Tokenizer) : Tokenizer :=
  if c = '"' then { tk with isDoubleQuote := !tk.isDoubleQuote, completeDoubleQuote := true }
  else if c = '\'' then { tk with isSingleQuote := true }
  else tk

/-- The loop of `tokenize`, `token` being what is between `start_ptr` and `it`. -/
def scan (tk : Tokenizer) (token : List Char) : List Char → List Char × Tokenizer
  | [] => ([], tk)
  | c :: it =>
    if c = '\x00' then ([], tk)
    else
      let tk := tk.quote c
      if !tk.isDoubleQuote && (c == tk.delim || peek it == '\x00') then
        (if token = [] then ['n', 'u', 'l', 'l'] else token, { tk with rest := it })
      else scan tk (token ++ [c]) it

/-- `Tokenizer::tokenize`. -/
def tokenize (tk : Tokenizer) : List Char × Tokenizer := tk.scan [] tk.rest

/-- The loop over a token that doubles its single quotes. -/
def double : List Char → List Char
  | [] => []
  | c :: pos =>
    if c = '\x00' then []
    else if c = '\'' then '\'' :: '\'' :: double pos
    else c :: double pos

/-- The loop meets a single quote. -/
def meetsQuote (ret : List Char) : Bool := (ret.takeWhile (· != '\x00')).contains '\''

/-- The second half of `getToken`, for the token without its double quotes. -/
def finish (ret : List Char) (tk : Tokenizer) : List Char × Tokenizer :=
  let token := if tk.isSingleQuote then double ret else ret
  let tk := { tk with isSingleQuote := tk.isSingleQuote && !meetsQuote ret }
  (if peek ret = 'X' ∨ peek ret = ',' then ['n', 'u', 'l', 'l'] else token, tk)

/-- `Tokenizer::getToken`. The range without the quotes of a token of one character is inverted. -/
def getToken (tk : Tokenizer) : Option (List Char × Tokenizer) :=
  match tk.tokenize with
  | ([], tk) => some ([], tk)
  | (c :: ret, tk) =>
    if tk.completeDoubleQuote then
      if ret = [] then none
      else some (finish ret.dropLast { tk with completeDoubleQuote := false })
    else some (finish (c :: ret) tk)

/-- What the first `n` calls of `getToken` return. -/
def getTokens : Nat → Tokenizer → Option (List (List Char))
  | 0, _ => some []
  | n + 1, tk => do
    let (token, tk) ← tk.getToken
    let tokens ← getTokens n tk
    return token :: tokens

end Tokenizer

/-! ## Lines of fields

What a line of the files is meant to say. `Field` is the value, `source` the way it is written and `token` the text
that belongs into the statement; `Read` is the condition of the main result.
-/

/-- A field of a line, and how it is written. -/
inductive Field where
  | plain (text : List Char)
  | quoted (text : List Char)
  deriving DecidableEq, Repr

namespace Field

def text : Field → List Char
  | plain text => text
  | quoted text => text

def source : Field → List Char
  | plain text => text
  | quoted text => '"' :: (text ++ ['"'])

/-- What may be in a field. -/
def Valid : Field → Prop
  | plain text => ∀ c ∈ text, c ≠ ',' ∧ c ≠ '"' ∧ c ≠ '\r' ∧ c ≠ '\x00'
  | quoted text => ∀ c ∈ text, c ≠ '"' ∧ c ≠ '\r' ∧ c ≠ '\x00'

/-- A text with its apostrophes doubled. -/
def doubled (text : List Char) : List Char := text.flatMap fun c => if c = '\'' then ['\'', '\''] else [c]

/-- The token that stands for a field. -/
def token (f : Field) : List Char :=
  if f.text = [] ∨ f.text = ['X'] then ['n', 'u', 'l', 'l'] else doubled f.text

/-- The fields that are read right: those that do not begin with `X`, apart from `X` itself, and, between
quotes, those that are not empty and do not begin with a comma. -/
def Read (f : Field) : Prop :=
  (f.text.head? = some 'X' → f.text = ['X']) ∧
    ∀ text, f = quoted text → text ≠ [] ∧ text.head? ≠ some ','

end Field

/-- The fields joined by commas, and what ends the line. -/
def line (ending : List Char) : List Field → List Char
  | [] => ending
  | [f] => f.source ++ ending
  | f :: g :: fields => f.source ++ ',' :: line ending (g :: fields)

/-! ## A token

The loops of `tokenize` and `getToken` as functions of the text they go over. The flags need care: `isSingleQuote`
is set in one loop and cleared in the other, so `afterText` keeps it for the text that has been read.
-/

namespace Tokenizer

variable {tk u : Tokenizer} {token text ret it : List Char} {c d : Char}

theorem doubled_cons (c : Char) (text : List Char) :
    Field.doubled (c :: text) = (if c = '\'' then ['\'', '\''] else [c]) ++ Field.doubled text := rfl

theorem double_eq (h : '\x00' ∉ text) : double text = Field.doubled text := by
  -- Over the characters of the text, none of which is the NUL that ends the loop.
  induction text with
  | nil => rfl
  | cons c text ih =>
      simp only [List.mem_cons, not_or] at h
      rw [double, if_neg (Ne.symm h.1), doubled_cons, ih h.2]
      split <;> rfl

theorem doubled_of_not_mem (h : '\'' ∉ text) : Field.doubled text = text := by
  induction text with
  | nil => rfl
  | cons c text ih =>
      simp only [List.mem_cons, not_or] at h
      rw [doubled_cons, if_neg (Ne.symm h.1), ih h.2]
      rfl

theorem meetsQuote_eq (h : '\x00' ∉ text) : meetsQuote text = decide ('\'' ∈ text) := by
  -- No NUL in the text, so the loop sees all of it.
  have hall : text.takeWhile (· != '\x00') = text := by
    rw [List.takeWhile_eq_self_iff]
    intro c hc
    simp only [bne_iff_ne]
    rintro rfl
    exact h hc
  simp [meetsQuote, hall]

@[simp] theorem peek_cons (c : Char) (it : List Char) : peek (c :: it) = c := rfl

theorem tokenize_new (str : List Char) (d : Char) :
    (new str d).tokenize = (new str d).scan [] str := rfl

/-- What `getToken` makes of a token without its double quotes. -/
def reads (ret : List Char) : List Char :=
  if peek ret = 'X' ∨ peek ret = ',' then ['n', 'u', 'l', 'l'] else Field.doubled ret

/-- The flags after a text. -/
def afterText (tk : Tokenizer) (text : List Char) : Tokenizer :=
  { tk with isSingleQuote := tk.isSingleQuote || decide ('\'' ∈ text) }

/-- The loop goes on over a character. -/
theorem scan_cons (hc : c ≠ '\x00')
    (hgo : (tk.quote c).isDoubleQuote = true ∨ c ≠ (tk.quote c).delim ∧ peek it ≠ '\x00') :
    tk.scan token (c :: it) = (tk.quote c).scan (token ++ [c]) it := by
  rw [scan, if_neg hc]
  -- Inside quotes nothing stops it; outside it takes neither the delimiter nor the last character.
  rcases hgo with hgo | ⟨hdelim, hnext⟩
  · simp [hgo]
  · simp [hdelim, hnext]

/-- The loop stops at a character. -/
theorem scan_stop (hc : c ≠ '\x00') (hquote : (tk.quote c).isDoubleQuote = false)
    (hstop : c = (tk.quote c).delim ∨ peek it = '\x00') :
    tk.scan token (c :: it) =
      (if token = [] then ['n', 'u', 'l', 'l'] else token, { tk.quote c with rest := it }) := by
  rw [scan, if_neg hc]
  rcases hstop with hstop | hstop
  · simp [hquote, ← hstop]
  · simp [hquote, hstop]

theorem quote_of_ne (hc : c ≠ '"') : tk.quote c = tk.afterText [c] := by
  rw [quote, if_neg hc, afterText]
  by_cases h : c = '\''
  · simp [h]
  · simp [h, Ne.symm h]

theorem afterText_cons (c : Char) (text : List Char) :
    (tk.afterText [c]).afterText text = tk.afterText (c :: text) := by
  simp [afterText, Bool.or_assoc]

/-- Over a text the loop does not stop; outside of quotes, it must not have the delimiter. -/
theorem scan_text (hd : d ≠ '\x00') :
    ∀ {text : List Char} {tk : Tokenizer} {token : List Char},
      (∀ c ∈ text, c ≠ '"' ∧ c ≠ '\x00' ∧ (tk.isDoubleQuote = false → c ≠ tk.delim)) →
      tk.scan token (text ++ d :: it) = (tk.afterText text).scan (token ++ text) (d :: it)
  | [], tk, token, _ => by simp [afterText]
  | c :: text, tk, token, h => by
      obtain ⟨hquote, hnul, hdelim⟩ := h c List.mem_cons_self
      -- What comes next is a character of the text, or `d` after the last one.
      have hnext : peek (text ++ d :: it) ≠ '\x00' := by
        cases text with
        | nil => exact hd
        | cons b text => exact (h b (by simp)).2.1
      have hgo : (tk.quote c).isDoubleQuote = true ∨
          c ≠ (tk.quote c).delim ∧ peek (text ++ d :: it) ≠ '\x00' := by
        rw [quote_of_ne hquote]
        -- An open quote stays open over the text.
        by_cases hopen : tk.isDoubleQuote = true
        · exact Or.inl hopen
        · exact Or.inr ⟨hdelim (by simpa using hopen), hnext⟩
      have hrest : ∀ b ∈ text, b ≠ '"' ∧ b ≠ '\x00' ∧
          ((tk.afterText [c]).isDoubleQuote = false → b ≠ (tk.afterText [c]).delim) :=
        fun b hb => h b (List.mem_cons_of_mem _ hb)
      rw [List.cons_append, scan_cons hnul hgo, quote_of_ne hquote, scan_text hd hrest,
        afterText_cons, List.append_assoc]
      rfl

/-- What is left of `getToken` after the double quotes are off. -/
theorem finish_eq (hnul : '\x00' ∉ ret) (hsingle : '\'' ∈ ret → tk.isSingleQuote = true) :
    finish ret tk =
      (reads ret, { tk with isSingleQuote := tk.isSingleQuote && !decide ('\'' ∈ ret) }) := by
  have htoken : (if tk.isSingleQuote then double ret else ret) = Field.doubled ret := by
    -- Either the quotes are doubled, or there is none to double.
    split
    · exact double_eq hnul
    · next h =>
        rw [doubled_of_not_mem]
        intro hmem
        exact h (hsingle hmem)
  rw [finish, htoken, meetsQuote_eq hnul, reads]

theorem getToken_unquoted (htok : tk.tokenize = (ret, u)) (hne : ret ≠ [])
    (hcomplete : u.completeDoubleQuote = false) : tk.getToken = some (finish ret u) := by
  cases ret with
  | nil => exact absurd rfl hne
  | cons c ret => simp [getToken, htok, hcomplete]

theorem getToken_quoted (htok : tk.tokenize = ('"' :: (ret ++ [c]), u))
    (hcomplete : u.completeDoubleQuote = true) :
    tk.getToken = some (finish ret { u with completeDoubleQuote := false }) := by
  simp [getToken, htok, hcomplete]

end Tokenizer

/-! ## A field

A field that is followed by a comma or by the carriage return. The two ends behave alike: neither is a quote, and
the loop stops at either, at a comma because it is the delimiter, at a carriage return because the NUL comes next.
-/

open Tokenizer

variable {f : Field} {d : Char} {it : List Char}

/-- What a call of `getToken` returns at a field. -/
def Field.output : Field → List Char
  | plain text => reads (if text = [] then ['n', 'u', 'l', 'l'] else text)
  | quoted text => reads text

/-- What comes after a field: a comma, or a carriage return at the end of the line. -/
def Ends (d : Char) (it : List Char) : Prop := d = ',' ∨ d = '\r' ∧ it = []

theorem Ends.ne_nul (h : Ends d it) : d ≠ '\x00' := by
  rcases h with rfl | ⟨rfl, _⟩ <;> decide

theorem Ends.quote (h : Ends d it) (tk : Tokenizer) : tk.quote d = tk := by
  rcases h with rfl | ⟨rfl, _⟩ <;> rfl

/-- Outside of quotes the loop stops there. -/
theorem Ends.scan {tk : Tokenizer} {token : List Char} (h : Ends d it)
    (hdelim : tk.delim = ',') (hquote : tk.isDoubleQuote = false) :
    tk.scan token (d :: it) =
      (if token = [] then ['n', 'u', 'l', 'l'] else token, { tk with rest := it }) := by
  have hstop : d = (tk.quote d).delim ∨ peek it = '\x00' := by
    rw [h.quote]
    -- A comma is the delimiter, a carriage return the last character.
    rcases h with rfl | ⟨_, rfl⟩
    · exact Or.inl hdelim.symm
    · exact Or.inr rfl
  rw [scan_stop h.ne_nul (by rwa [h.quote]) hstop, h.quote]

theorem tokenize_plain {text : List Char} (hvalid : (Field.plain text).Valid) (h : Ends d it) :
    (new (text ++ d :: it) ',').tokenize =
      (if text = [] then ['n', 'u', 'l', 'l'] else text, (new it ',').afterText text) := by
  have htext : ∀ c ∈ text, c ≠ '"' ∧ c ≠ '\x00' ∧
      ((new (text ++ d :: it) ',').isDoubleQuote = false → c ≠ ',') := by
    intro c hc
    obtain ⟨hcomma, hquote, _, hnul⟩ := hvalid c hc
    exact ⟨hquote, hnul, fun _ => hcomma⟩
  rw [tokenize_new, scan_text h.ne_nul htext, h.scan rfl rfl]
  rfl

theorem tokenize_quoted {text : List Char} (hvalid : (Field.quoted text).Valid) (h : Ends d it) :
    (new ('"' :: (text ++ '"' :: d :: it)) ',').tokenize =
      ('"' :: (text ++ ['"']),
        { (new it ',').afterText text with completeDoubleQuote := true }) := by
  let tk : Tokenizer := { new ('"' :: (text ++ '"' :: d :: it)) ',' with
    isDoubleQuote := true
    completeDoubleQuote := true }
  -- between the quotes, the loop goes over commas as well
  have htext : ∀ c ∈ text, c ≠ '"' ∧ c ≠ '\x00' ∧ (tk.isDoubleQuote = false → c ≠ tk.delim) := by
    intro c hc
    obtain ⟨hquote, _, hnul⟩ := hvalid c hc
    exact ⟨hquote, hnul, nofun⟩
  have hopen : (new ('"' :: (text ++ '"' :: d :: it)) ',').quote '"' = tk := rfl
  have hclose : ((tk.afterText text).quote '"').isDoubleQuote = false := rfl
  have hdelim : '"' ≠ ((tk.afterText text).quote '"').delim := show '"' ≠ ',' by decide
  have hnext : peek (d :: it) ≠ '\x00' := h.ne_nul
  rw [tokenize_new, scan_cons (by decide) (Or.inl rfl), hopen, scan_text (by decide) htext,
    scan_cons (by decide) (Or.inr ⟨hdelim, hnext⟩), h.scan rfl hclose]
  simp [tk, afterText, Tokenizer.quote, new]

/-- The flags are all off again after a token. -/
theorem finish_afterText {text : List Char} (hnul : '\x00' ∉ text) (it : List Char) :
    finish text ((new it ',').afterText text) = (reads text, new it ',') := by
  rw [finish_eq hnul (fun h => by simp [afterText, h])]
  simp [afterText, new]

theorem getToken_field (hvalid : f.Valid) (h : Ends d it) :
    (new (f.source ++ d :: it) ',').getToken = some (f.output, new it ',') := by
  cases f with
  | plain text =>
      have htok := tokenize_plain hvalid h
      have hnul : '\x00' ∉ text := fun hmem => (hvalid _ hmem).2.2.2 rfl
      -- An empty field is read as if it said null.
      by_cases hempty : text = []
      · rw [if_pos hempty] at htok
        rw [Field.source, getToken_unquoted htok (by simp) rfl, Field.output, if_pos hempty, hempty]
        rfl
      · rw [if_neg hempty] at htok
        rw [Field.source, getToken_unquoted htok hempty rfl, Field.output, if_neg hempty,
          finish_afterText hnul]
  | quoted text =>
      have htok := tokenize_quoted hvalid h
      have hnul : '\x00' ∉ text := fun hmem => (hvalid _ hmem).2.2 rfl
      have hsource : (Field.quoted text).source ++ d :: it = '"' :: (text ++ '"' :: d :: it) := by
        simp [Field.source]
      rw [hsource, getToken_quoted htok rfl, Field.output, ← finish_afterText hnul]
      rfl

/-- A doubled text begins as the text does. -/
theorem doubled_ne_null {c : Char} (hc : c ≠ 'n') (text : List Char) :
    Field.doubled (c :: text) ≠ ['n', 'u', 'l', 'l'] := by
  rw [doubled_cons]
  split
  · simp
  · simp [hc]

theorem reads_eq_iff (c : Char) (text : List Char) :
    reads (c :: text) =
        (if c :: text = ['X'] then ['n', 'u', 'l', 'l'] else Field.doubled (c :: text)) ↔
      (c = 'X' → text = []) ∧ c ≠ ',' := by
  rw [reads, peek_cons]
  -- By the first character: an `X` or a comma make the whole field null, whatever comes after it.
  by_cases hx : c = 'X'
  · by_cases htext : text = []
    · simp [hx, htext]
    · have hne := doubled_ne_null (show 'X' ≠ 'n' by decide) text
      simp [hx, htext, hne.symm]
  · by_cases hcomma : c = ','
    · have hne := doubled_ne_null (show ',' ≠ 'n' by decide) text
      simp [hcomma, hne.symm]
    · simp [hx, hcomma]

/-- A field is read right if and only if what `getToken` returns is its token. -/
theorem output_eq_token_iff (hvalid : f.Valid) : f.output = f.token ↔ f.Read := by
  cases f with
  | plain text =>
      cases text with
      | nil => simp [Field.output, Field.token, Field.Read, Field.text, reads, peek, Field.doubled]
      | cons c text =>
          have hcomma : c ≠ ',' := (hvalid c List.mem_cons_self).1
          have hiff := reads_eq_iff c text
          simp only [Field.output, Field.token, Field.Read, Field.text, reduceCtorEq, if_false,
            false_or]
          rw [hiff]
          simp only [List.head?_cons, Option.some.injEq, List.cons.injEq]
          grind
  | quoted text =>
      cases text with
      | nil => simp [Field.output, Field.token, Field.Read, Field.text, reads, peek, Field.doubled]
      | cons c text =>
          have hiff := reads_eq_iff c text
          simp only [Field.output, Field.token, Field.Read, Field.text, reduceCtorEq, false_or]
          rw [hiff]
          simp only [List.head?_cons, Option.some.injEq, List.cons.injEq]
          grind

theorem length_doubled_append (text : List Char) (c : Char) :
    (Field.doubled text).length < (Field.doubled (text ++ [c])).length := by
  simp only [Field.doubled, List.flatMap_append, List.length_append, List.flatMap_cons]
  split <;> simp

theorem token_ne_nil (f : Field) : f.token ≠ [] := by
  rw [Field.token]
  split
  · simp
  · next h =>
      cases htext : f.text with
      | nil => exact absurd (Or.inl htext) h
      | cons c text =>
          rw [doubled_cons]
          split <;> simp

/-- Without its last character, a text of two or more characters is not read as its token. -/
theorem reads_ne_doubled {text : List Char} (hne : text ≠ []) (c : Char) :
    reads text ≠ Field.doubled (text ++ [c]) := by
  cases text with
  | nil => exact absurd rfl hne
  | cons b text =>
      rw [reads, peek_cons]
      split
      · -- A field read as null is not one that begins with `n`.
        next h =>
          have hb : b ≠ 'n' := by
            rintro rfl
            simp at h
          exact (doubled_ne_null hb (text ++ [c])).symm
      · intro heq
        -- Doubling the apostrophes does not make up for the character that is missing.
        have hlen := length_doubled_append (b :: text) c
        rw [← heq] at hlen
        omega

/-! ## A line

The last field, when the file does not end with a carriage return. The test for the NUL looks one character ahead,
so the loop leaves before the last character is taken.
-/

/-- What the last field gives when nothing ends the line: its last character is not part of its token,
and of a token between quotes, the character before it is taken off as well. -/
def Field.outputLast : Field → Option (List Char)
  | plain text =>
    if text = [] then some []
    else some (reads (if text.dropLast = [] then ['n', 'u', 'l', 'l'] else text.dropLast))
  | quoted text => if text = [] then none else some (reads text.dropLast)

theorem append_ne_X {text : List Char} (hne : text ≠ []) (c : Char) : text ++ [c] ≠ ['X'] := by
  intro heq
  have hlen := congrArg List.length heq
  have hpos := List.length_pos_of_ne_nil hne
  simp only [List.length_append, List.length_cons, List.length_nil] at hlen
  omega

theorem outputLast_eq_token_iff : f.outputLast = some f.token ↔ f = .plain ['X'] := by
  have hne := token_ne_nil f
  cases f with
  | plain text =>
      rcases List.eq_nil_or_concat text with rfl | ⟨text, c, rfl⟩
      · simp [Field.outputLast, hne.symm]
      · -- Of a field of one character nothing is left, and nothing is read as null: right for `X` only.
        by_cases hempty : text = []
        · by_cases hx : c = 'X'
          · simp [Field.outputLast, Field.token, Field.text, hempty, hx, reads, Field.doubled]
          · have hone : Field.doubled [c] ≠ ['n', 'u', 'l', 'l'] := by
              rw [doubled_cons]
              split <;> simp [Field.doubled]
            simp [Field.outputLast, Field.token, Field.text, hempty, hx, reads, hone.symm,
              show Field.doubled ['n', 'u', 'l', 'l'] = ['n', 'u', 'l', 'l'] from rfl]
        · have hread := reads_ne_doubled hempty c
          -- A longer field loses its last character.
          have hlong := append_ne_X hempty c
          simp [Field.outputLast, Field.token, Field.text, hempty, hlong, hread]
  | quoted text =>
      rcases List.eq_nil_or_concat text with rfl | ⟨text, c, rfl⟩
      · simp [Field.outputLast]
      · -- Of a quoted field of one character the token is empty, and the end of the row for the caller.
        by_cases hempty : text = []
        · have hnil : reads [] = [] := rfl
          simpa [Field.outputLast, hempty, hnil] using hne.symm
        · have hread := reads_ne_doubled hempty c
          have hlong := append_ne_X hempty c
          simp [Field.outputLast, Field.token, Field.text, hempty, hlong, hread]

theorem tokenize_plain_last {text : List Char} {c : Char} (hvalid : (Field.plain (text ++ [c])).Valid) :
    (new (text ++ [c]) ',').tokenize =
      (if text = [] then ['n', 'u', 'l', 'l'] else text, (new [] ',').afterText (text ++ [c])) := by
  have htext : ∀ b ∈ text, b ≠ '"' ∧ b ≠ '\x00' ∧
      ((new (text ++ [c]) ',').isDoubleQuote = false → b ≠ ',') := by
    intro b hb
    obtain ⟨hcomma, hquote, _, hnul⟩ := hvalid b (List.mem_append_left _ hb)
    exact ⟨hquote, hnul, fun _ => hcomma⟩
  obtain ⟨_, hquote, _, hnul⟩ := hvalid c (List.mem_append_right _ List.mem_cons_self)
  have hflags : ((new (text ++ [c]) ',').afterText text).quote c =
      (new (text ++ [c]) ',').afterText (text ++ [c]) := by
    rw [quote_of_ne hquote]
    simp [afterText, Bool.or_assoc, Bool.decide_or]
  rw [tokenize_new, scan_text hnul htext, scan_stop hnul (by rw [hflags]; rfl) (Or.inr rfl), hflags]
  rfl

theorem tokenize_quoted_last {text : List Char} (hvalid : (Field.quoted text).Valid) :
    (new ('"' :: (text ++ ['"'])) ',').tokenize =
      ('"' :: text, { (new [] ',').afterText text with completeDoubleQuote := true }) := by
  let tk : Tokenizer := { new ('"' :: (text ++ ['"'])) ',' with
    isDoubleQuote := true
    completeDoubleQuote := true }
  -- As in `tokenize_quoted`: the loop goes over commas between the quotes.
  have htext : ∀ c ∈ text, c ≠ '"' ∧ c ≠ '\x00' ∧ (tk.isDoubleQuote = false → c ≠ tk.delim) := by
    intro c hc
    obtain ⟨hquote, _, hnul⟩ := hvalid c hc
    exact ⟨hquote, hnul, nofun⟩
  have hopen : (new ('"' :: (text ++ ['"'])) ',').quote '"' = tk := rfl
  have hclose : ((tk.afterText text).quote '"').isDoubleQuote = false := rfl
  rw [tokenize_new, scan_cons (by decide) (Or.inl rfl), hopen, scan_text (by decide) htext,
    scan_stop (by decide) hclose (Or.inr rfl)]
  simp [tk, afterText, Tokenizer.quote, new]

/-- The token that `finish` returns, and a tokenizer that has as much left. -/
theorem finish_last {tk : Tokenizer} {ret token : List Char} (hnul : '\x00' ∉ ret)
    (hsingle : '\'' ∈ ret → tk.isSingleQuote = true) (hrest : tk.rest = []) (htoken : token = reads ret) :
    ∃ u : Tokenizer, u.rest = [] ∧ some (finish ret tk) = some (token, u) := by
  rw [finish_eq hnul hsingle, htoken]
  exact ⟨{ tk with isSingleQuote := tk.isSingleQuote && !decide ('\'' ∈ ret) }, hrest, rfl⟩

theorem getToken_last (hvalid : f.Valid) :
    ∃ u : Tokenizer, u.rest = [] ∧
      (new f.source ',').getToken = f.outputLast.map fun token => (token, u) := by
  cases f with
  | plain text =>
      rcases List.eq_nil_or_concat text with rfl | ⟨text, c, rfl⟩
      · -- Nothing is left of the line.
        exact ⟨_, rfl, rfl⟩
      · rw [List.concat_eq_append] at hvalid ⊢
        have htok := tokenize_plain_last hvalid
        have hmap : Field.outputLast (.plain (text ++ [c])) =
            some (reads (if text = [] then ['n', 'u', 'l', 'l'] else text)) := by
          simp [Field.outputLast]
        by_cases hempty : text = []
        · rw [if_pos hempty] at htok hmap
          rw [Field.source, getToken_unquoted htok (by simp) rfl, hmap]
          exact finish_last (by simp) (by simp) rfl rfl
        · have hnul : '\x00' ∉ text := fun hmem =>
            (hvalid _ (List.mem_append_left _ hmem)).2.2.2 rfl
          rw [if_neg hempty] at htok hmap
          rw [Field.source, getToken_unquoted htok hempty rfl, hmap]
          exact finish_last hnul (fun hmem => by simp [afterText, hmem]) rfl rfl
  | quoted text =>
      have htok := tokenize_quoted_last hvalid
      rcases List.eq_nil_or_concat text with rfl | ⟨text, c, rfl⟩
      · -- Nothing between the quotes: `getToken` takes off more than there is.
        exact ⟨new [] ',', rfl, rfl⟩
      · rw [List.concat_eq_append] at hvalid htok ⊢
        have hnul : '\x00' ∉ text := fun hmem => (hvalid _ (List.mem_append_left _ hmem)).2.2 rfl
        have hmap : Field.outputLast (.quoted (text ++ [c])) = some (reads text) := by
          simp [Field.outputLast]
        rw [Field.source, getToken_quoted htok rfl, hmap]
        exact finish_last hnul (fun hmem => by simp [afterText, hmem]) rfl rfl

/-! ## A line

The fields of a line are read one after another, and then there is the call that finds its end. All but the last
are followed by a comma, so only the last one may be read short (`getToken_last`).
-/

theorem getTokens_succ {tk u : Tokenizer} {token : List Char} (h : tk.getToken = some (token, u))
    (n : Nat) : getTokens (n + 1) tk = (getTokens n u).map (token :: ·) := by
  rw [getTokens, h]
  show (getTokens n u).bind (fun tokens => some (token :: tokens)) = _
  cases getTokens n u <;> rfl

theorem getTokens_cons_iff {tk u : Tokenizer} {token a : List Char} {tokens : List (List Char)} {n : Nat}
    (h : tk.getToken = some (token, u)) :
    getTokens (n + 1) tk = some (a :: tokens) ↔ token = a ∧ getTokens n u = some tokens := by
  rw [getTokens_succ h]
  cases getTokens n u with
  | none => simp
  | some l => simp

/-- At the end of the line. -/
theorem getTokens_end {u : Tokenizer} (h : u.rest = []) : getTokens 1 u = some [[]] := by
  have htok : u.getToken = some ([], u) := by
    simp [getToken, tokenize, h, scan]
  rw [getTokens_succ htok]
  rfl

/-- The line ends with a carriage return, or with a field that is just `X`. -/
def EndsWell (ending : List Char) (fields : List Field) : Prop :=
  ending = ['\r'] ∨ fields.getLast? = some (.plain ['X'])

theorem getTokens_line (ending : List Char) (hending : ending = ['\r'] ∨ ending = []) :
    ∀ (fields : List Field), fields ≠ [] → (∀ f ∈ fields, f.Valid) →
      (getTokens (fields.length + 1) (new (line ending fields) ',') =
          some (fields.map Field.token ++ [[]]) ↔
        (∀ f ∈ fields, f.Read) ∧ EndsWell ending fields)
  | [], hne, _ => absurd rfl hne
  | [f], _, hvalid => by
      have hf := hvalid f List.mem_cons_self
      -- With a carriage return the last field is like the others. Without one it is read short.
      rcases hending with rfl | rfl
      · have hends : Ends '\r' [] := Or.inr ⟨rfl, rfl⟩
        have htok : (new (line ['\r'] [f]) ',').getToken = some (f.output, new [] ',') :=
          getToken_field hf hends
        have hend : getTokens 1 (new [] ',') = some [[]] := getTokens_end rfl
        show getTokens (1 + 1) _ = some (f.token :: [[]]) ↔ _
        rw [getTokens_cons_iff htok, output_eq_token_iff hf, hend]
        simp [EndsWell]
      · obtain ⟨u, hu, htok⟩ := getToken_last hf
        have hline : line [] [f] = f.source := List.append_nil _
        have hread : f = .plain ['X'] → f.Read := by
          rintro rfl
          simp [Field.Read, Field.text]
        have hlast := outputLast_eq_token_iff (f := f)
        show getTokens (1 + 1) _ = some (f.token :: [[]]) ↔ _
        rw [hline]
        cases houtput : f.outputLast with
        -- The text between the quotes was empty, and no token is returned.
        | none =>
            rw [houtput] at htok hlast
            have hnone : getTokens (1 + 1) (new f.source ',') = none := by simp [getTokens, htok]
            have hne : f ≠ .plain ['X'] := fun h => nomatch hlast.mpr h
            simp [hnone, EndsWell, hne]
        | some token =>
            rw [houtput] at htok hlast
            rw [Option.some.injEq] at hlast
            rw [getTokens_cons_iff htok, getTokens_end hu, hlast]
            simpa [EndsWell] using hread
  | f :: g :: fields, _, hvalid => by
      have hf := hvalid f List.mem_cons_self
      have htok : (new (line ending (f :: g :: fields)) ',').getToken =
          some (f.output, new (line ending (g :: fields)) ',') := getToken_field hf (Or.inl rfl)
      have ih := getTokens_line ending hending (g :: fields) (List.cons_ne_nil _ _)
        fun h hh => hvalid h (List.mem_cons_of_mem _ hh)
      show getTokens (((g :: fields).length + 1) + 1) _ =
        some (f.token :: ((g :: fields).map Field.token ++ [[]])) ↔ _
      rw [getTokens_cons_iff htok, output_eq_token_iff hf, ih]
      simp [EndsWell, and_assoc]

/-- **The tokenizer.** For a line of fields, `getToken` returns the token of each field and then the
empty token if and only if each field is read right and the line ends with a carriage return or with a
field that is just `X`. -/
theorem tokens_iff (fields : List Field) (ending : List Char) (hne : fields ≠ [])
    (hvalid : ∀ f ∈ fields, f.Valid) (hending : ending = ['\r'] ∨ ending = []) :
    (getTokens (fields.length + 1) (new (line ending fields) ',') =
        some (fields.map Field.token ++ [[]]) ∧ ∀ f ∈ fields, f.token ≠ []) ↔
      (∀ f ∈ fields, f.Read) ∧ EndsWell ending fields := by
  rw [getTokens_line ending hending fields hne hvalid]
  exact and_iff_left fun f _ => token_ne_nil f

/-- `O'Brien,"Madison, WI",X,` and a carriage return. -/
theorem tokens_quoted :
    let fields : List Field := [.plain ['O', '\'', 'B'], .quoted ['M', ',', ' ', 'W'], .plain ['X'], .plain []]
    getTokens 5 (new (line ['\r'] fields) ',') = some [['O', '\'', '\'', 'B'], ['M', ',', ' ', 'W'],
      ['n', 'u', 'l', 'l'], ['n', 'u', 'l', 'l'], []] := by
  intro fields
  have hread : ∀ f ∈ fields, f.Read := by
    simp [fields, Field.Read, Field.text]
  have hvalid : ∀ f ∈ fields, f.Valid := by
    simp [fields, Field.Valid]
  exact ((tokens_iff fields ['\r'] (by decide) hvalid (Or.inl rfl)).mpr ⟨hread, Or.inl rfl⟩).1

/-- An empty field between double quotes ends the row. -/
theorem tokens_truncated :
    let fields : List Field := [.quoted [], .plain ['a']]
    (∀ f ∈ fields, f.Valid) ∧ fields.map Field.token = [['n', 'u', 'l', 'l'], ['a']] ∧
      getTokens 3 (new (line ['\r'] fields) ',') = some [[], ['a'], []] ∧
      ¬ (getTokens 3 (new (line ['\r'] fields) ',') = some (fields.map Field.token ++ [[]]) ∧
        ∀ f ∈ fields, f.token ≠ []) := by
  refine ⟨?_, by decide, by decide, by decide⟩
  simp [Field.Valid]

end CS640.P4
