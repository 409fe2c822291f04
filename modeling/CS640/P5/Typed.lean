import CS640.P5.Inspect

/-!
# What is typed and what the update says

A form has texts for the columns of text and decimal digits for the columns of numbers. The update that
Commit sends for it is read column by column. `getTypeNow` puts a blank before a text: as long as the
columns before it were left empty, no text that is not empty is read as it was typed, apostrophes or not
(`Typed.texts_empty`). The state at the end of the update is always the one of the page.

A column is read behind the piece of the statement that comes before it, and what is left is the rest of the
statement. So the statement is read from left to right, each column by its own lemma: `Figures.read` for numbers,
and `Reads` for texts.
-/

namespace CS640.P5

open Lib.Reading Lib.Quoting

/-- What is typed in the field of a number: decimal digits, or nothing. -/
structure Figures where
  text : Text
  digits : ∀ c ∈ text, c.isDigit

structure Typed where
  region : Text
  division : Text
  stname : Text
  popest2010 : Figures
  popest2011 : Figures
  huest2010 : Figures
  huest2011 : Figures

variable {t s : Text} {c : Char} {f id : Figures} {typed : Typed} {u : Update} {n : Option Nat}

namespace Figures

/-- The number that was typed, NULL when the field was left empty. -/
def value (f : Figures) : Option Nat := if f.text = [] then none else some (decimal f.text)

/-- The number that the update sets. -/
def stored (f : Figures) : Option Nat := if empty f.text then none else some (decimal f.text)

/-- A column of numbers as it is shown. -/
def ofColumn (n : Option Nat) : Figures where
  text := (figure n).getD []
  digits := by
    cases n with
    | none => intro c hc; cases hc
    | some n => exact isDigit_of_mem_toDigits n

end Figures

/-- The value of a text, NULL when it was left empty. -/
def textValue (t : Text) : Option Text := if t = [] then none else some t

namespace Typed

/-- The fields with what was typed, sent by Submit. -/
def request (typed : Typed) : Request
  | .region => some typed.region
  | .division => some typed.division
  | .stname => some typed.stname
  | .popest2010 => some typed.popest2010.text
  | .popest2011 => some typed.popest2011.text
  | .huest2010 => some typed.huest2010.text
  | .huest2011 => some typed.huest2011.text
  | .SubmitBtn => some "Submit".toList
  | _ => none

/-- What Submit puts into the session. -/
def updates (typed : Typed) (id : Figures) : List (Option Text) :=
  [some id.text, some typed.region, some typed.division, some typed.stname, some typed.popest2010.text,
    some typed.popest2011.text, some typed.huest2010.text, some typed.huest2011.text]

/-- The row with exactly what was typed. -/
def row (typed : Typed) (state : Option Nat) : Row where
  state
  region := textValue typed.region
  division := textValue typed.division
  name := textValue typed.stname
  popestimate2010 := typed.popest2010.value
  popestimate2011 := typed.popest2011.value
  huest_2010 := typed.huest2010.value
  huest_2011 := typed.huest2011.value

/-- The row that the update sets, with the texts as they are read. -/
def stored (typed : Typed) (id : Figures) (region division name : Option Text) : Row where
  state := id.stored
  region
  division
  name
  popestimate2010 := typed.popest2010.stored
  popestimate2011 := typed.popest2011.stored
  huest_2010 := typed.huest2010.stored
  huest_2011 := typed.huest2011.stored

end Typed

/-! ## Numbers

An empty field and the field `0` are taken for nothing by `empty`, as in PHP. Any other numeral is read as the
number that was typed.
-/

theorem empty_iff : empty t = true ↔ t = [] ∨ t = "0".toList := by
  simp [empty]

theorem getTypeNow_empty (h : empty t = true) (stringFlag : Nat) :
    getTypeNow (some t) stringFlag = "NULL".toList := if_pos h

namespace Figures

/-- A single zero is the only numeral that is taken for nothing. -/
theorem stored_eq_value_iff : f.stored = f.value ↔ f.text ≠ "0".toList := by
  constructor
  · intro h hzero
    simp [stored, value, empty, hzero] at h
  · intro h
    -- apart from the zero, both take nothing but an empty field for nothing
    have hempty : empty f.text = true ↔ f.text = [] := by rw [empty_iff, or_iff_left h]
    simp only [stored, value, hempty]

theorem ofColumn_eq_nil : (ofColumn n).text = [] ↔ n = none := by
  cases n with
  | none => simp [ofColumn, figure]
  | some n => simp [ofColumn, figure, Nat.toDigits_ne_nil]

@[simp] theorem value_ofColumn : (ofColumn n).value = n := by
  cases n with
  | none => rfl
  | some n => simp [value, ofColumn, figure, Nat.toDigits_ne_nil]

/-- Zero is the number that is shown as `0`. -/
theorem ofColumn_eq_zero : (ofColumn n).text = "0".toList ↔ n = some 0 := by
  constructor
  · intro h
    have hvalue : (ofColumn n).value = some 0 := by
      rw [value, h]
      rfl
    rwa [value_ofColumn] at hvalue
  · rintro rfl
    rfl

theorem stored_ofColumn_iff : (ofColumn n).stored = n ↔ n ≠ some 0 := by
  have h := stored_eq_value_iff (f := ofColumn n)
  rwa [value_ofColumn, ne_eq, ofColumn_eq_zero] at h

theorem decimal_ofColumn {k : Nat} : decimal (ofColumn (some k)).text = k := by
  show decimal (Nat.toDigits 10 k) = k
  rw [decimal_toDigits]

/-- What the update sets of a number is read, whatever follows that is not a digit. -/
theorem read (f : Figures) (hs : s.head? = some c) (hc : ¬ c.isDigit) :
    numberColumn (getTypeNow (some f.text) 0 ++ s) = some (f.stored, s) := by
  obtain ⟨s, rfl⟩ := List.head?_eq_some_iff.1 hs
  -- nothing was typed, or a zero: the column is NULL
  cases hempty : empty f.text with
  | true =>
      have hstored : f.stored = none := if_pos hempty
      rw [getTypeNow_empty hempty, numberColumn, orWord_append, hstored]
  | false =>
      have hne : f.text ≠ [] := by
        intro hnil
        simp [empty, hnil] at hempty
      have hread := number_append (s := s) hne f.digits hc
      obtain ⟨d, ds, hds⟩ := List.exists_cons_of_ne_nil hne
      -- a digit is not the first letter of NULL
      have hd : d ≠ 'N' := by
        rintro rfl
        have hdigit := f.digits 'N' (by simp [hds])
        exact absurd hdigit (by decide)
      have htext : getTypeNow (some f.text) 0 = f.text := by simp [getTypeNow, hempty]
      have hword : "NULL".toList = 'N' :: "ULL".toList := rfl
      rw [htext, numberColumn, stored, hempty, hword]
      rw [hds, List.cons_append] at hread ⊢
      rw [orWord_of_head hd, hread]
      rfl

end Figures

/-! ## Texts

A text goes between quotes with a blank on both sides. Without apostrophes it is read with the blanks. With
apostrophes the reading may stop anywhere, but what is read begins with the blank in any case, and it ends at a
place that depends on the quotes, so it is never the text itself (`textColumn_ne`).
-/

/-- How the update is read where a text was typed. -/
def Reads (t : Text) (v : Option Text) : Prop :=
  ∀ s, s.head? = some ',' → textColumn (getTypeNow (some t) 1 ++ s) = some (v, s)

theorem textColumn_null (h : empty t = true) : textColumn (getTypeNow (some t) 1 ++ s) = some (none, s) := by
  rw [getTypeNow_empty h, textColumn, orWord_append]

theorem reads_empty (h : empty t = true) : Reads t none := fun _ _ => textColumn_null h

theorem textColumn_quoted (h : empty t = false) :
    textColumn (getTypeNow (some t) 1 ++ s) =
      (readBody '\'' (' ' :: (t ++ (" '".toList ++ s)))).map fun p => (some p.1, p.2) := by
  have htext : getTypeNow (some t) 1 ++ s = '\'' :: ' ' :: (t ++ (" '".toList ++ s)) := by
    simp [getTypeNow, h]
  have hquote : '\'' ≠ 'N' := by decide
  have hword : "NULL".toList = 'N' :: "ULL".toList := rfl
  rw [htext, textColumn, hword, orWord_of_head hquote, readLiteral, if_pos rfl]

/-- A text without apostrophes gets a blank on both sides. -/
theorem reads_padded (h : empty t = false) (ht : '\'' ∉ t) : Reads t (some (' ' :: (t ++ [' ']))) := by
  intro s hs
  have hpad : '\'' ∉ ' ' :: (t ++ [' ']) := by simpa using ht
  have hbody : ' ' :: (t ++ (" '".toList ++ s)) =
      escape '\'' (' ' :: (t ++ [' '])) ++ '\'' :: s := by
    rw [escape_of_not_mem hpad]
    simp
  rw [textColumn_quoted h, hbody, readBody_complete (by simp [hs])]
  rfl

/-- A text that is not empty is not read as it was typed. -/
theorem textColumn_ne {v : Option Text} {rest : Text}
    (h : textColumn (getTypeNow (some t) 1 ++ s) = some (v, rest)) (ht : t ≠ []) : v ≠ some t := by
  -- a text that is taken for nothing is NULL, any other one is read between quotes
  cases hempty : empty t with
  | true =>
      rw [textColumn_null hempty] at h
      cases h
      intro hv
      cases hv
  | false =>
      rw [textColumn_quoted hempty, Option.map_eq_some_iff] at h
      obtain ⟨⟨t', rest'⟩, hread, hv⟩ := h
      cases hv
      intro ht'
      cases ht'
      -- the blank behind the quote is read as well, whatever apostrophes follow
      exact readBody_ne (by decide) hread

/-- So a column that is read as it was typed was left empty. -/
theorem textColumn_empty {v : Option Text} {rest : Text}
    (h : textColumn (getTypeNow (some t) 1 ++ s) = some (v, rest)) (hv : t ≠ [] → v = some t) :
    t = [] ∧ v = none ∧ rest = s := by
  -- nothing was typed, or a text that is not read as it was typed
  by_cases ht : t = []
  · subst ht
    rw [textColumn_null rfl] at h
    cases h
    exact ⟨rfl, rfl, rfl⟩
  · exact absurd (hv ht) (textColumn_ne h ht)

/-! ## The update

`parse_updateQuery` reads the whole statement, if each text is read somehow. The converse, `texts_empty`, goes
through the columns in order, since only a column that was left empty says where the next one begins.
-/

namespace Typed

theorem updateQuery_eq (typed : Typed) (id : Figures) :
    updateQuery (typed.updates id) (some id.text) =
      "UPDATE gooi.pop_housing_estimate_state SET state = ".toList ++ (getTypeNow (some id.text) 0 ++
      (", region = ".toList ++ (getTypeNow (some typed.region) 1 ++
      (", division = ".toList ++ (getTypeNow (some typed.division) 1 ++
      (", name = ".toList ++ (getTypeNow (some typed.stname) 1 ++
      (", popestimate2010 = ".toList ++ (getTypeNow (some typed.popest2010.text) 0 ++
      (", popestimate2011 = ".toList ++ (getTypeNow (some typed.popest2011.text) 0 ++
      (", huest_2010 = ".toList ++ (getTypeNow (some typed.huest2010.text) 0 ++
      (", huest_2011 = ".toList ++ (getTypeNow (some typed.huest2011.text) 0 ++
      (" WHERE state = ".toList ++ (id.text ++ ";".toList))))))))))))))))) := by
  unfold updateQuery
  simp only [updates, List.getD_cons_zero, List.getD_cons_succ, Option.getD_some, List.append_assoc]

/-- Texts that are read are what the update sets. -/
theorem parse_updateQuery {region division name : Option Text} (hid : id.text ≠ [])
    (hregion : Reads typed.region region) (hdivision : Reads typed.division division)
    (hname : Reads typed.stname name) :
    parseUpdate (updateQuery (typed.updates id) (some id.text)) =
      some ⟨typed.stored id region division name, decimal id.text⟩ := by
  have hcomma : ¬ (',' : Char).isDigit := by decide
  have hblank : ¬ (' ' : Char).isDigit := by decide
  rw [updateQuery_eq, parseUpdate_eq_some_iff]
  exact ⟨_, _, _, _, _, _, _, _, _,
    after_append.trans (id.read rfl hcomma),
    after_append.trans (hregion _ rfl),
    after_append.trans (hdivision _ rfl),
    after_append.trans (hname _ rfl),
    after_append.trans (typed.popest2010.read rfl hcomma),
    after_append.trans (typed.popest2011.read rfl hcomma),
    after_append.trans (typed.huest2010.read rfl hcomma),
    after_append.trans (typed.huest2011.read rfl hblank),
    dropPrefix?_append, lastNumber_eq_some_iff.2 ⟨id.text, hid, id.digits, rfl, rfl⟩⟩

/-- Whatever was typed, an update that can be read is for the state of the page. -/
theorem key_eq (h : parseUpdate (updateQuery (typed.updates id) (some id.text)) = some u) :
    id.text ≠ [] ∧ u.key = decimal id.text := by
  -- the end of the statement does not depend on what was typed
  obtain ⟨front, hfront⟩ : ∃ front, updateQuery (typed.updates id) (some id.text) =
      front ++ " WHERE state = ".toList ++ id.text ++ ";".toList := ⟨_, rfl⟩
  have hends : front ++ " WHERE state = ".toList ++ id.text ++ ";".toList =
      (front ++ " WHERE state =".toList) ++ ' ' :: (id.text ++ ";".toList) := by simp
  rw [hfront, hends] at h
  exact key_of_parseUpdate id.digits h

/-- A column is read in one way. -/
theorem column_eq {piece s' rest : Text} {α : Type} {r : Reader Char α} {a b : α}
    (hr : r s = some (a, s')) (h : after piece r (piece ++ s) = some (b, rest)) : b = a ∧ rest = s' := by
  rw [after_append, hr] at h
  cases h
  exact ⟨rfl, rfl⟩

/-- **Only empty texts are read as they were typed.** If the update sets what was typed in the columns of
text, then nothing was. -/
theorem texts_empty (h : parseUpdate (updateQuery (typed.updates id) (some id.text)) = some u)
    (hregion : typed.region ≠ [] → u.values.region = some typed.region)
    (hdivision : typed.division ≠ [] → u.values.division = some typed.division)
    (hname : typed.stname ≠ [] → u.values.name = some typed.stname) :
    typed.region = [] ∧ typed.division = [] ∧ typed.stname = [] ∧
      u.values = typed.stored id none none none := by
  have hcomma : ¬ (',' : Char).isDigit := by decide
  have hblank : ¬ (' ' : Char).isDigit := by decide
  rw [updateQuery_eq, parseUpdate_eq_some_iff] at h
  obtain ⟨s₁, s₂, s₃, s₄, s₅, s₆, s₇, s₈, s₉, h₁, h₂, h₃, h₄, h₅, h₆, h₇, h₈, _, _⟩ := h
  obtain ⟨hstate, rfl⟩ := column_eq (id.read rfl hcomma) h₁
  -- a column that was left empty is NULL, and leaves the next one at the front
  obtain ⟨hregion, hregion', rfl⟩ := textColumn_empty (after_append.symm.trans h₂) hregion
  obtain ⟨hdivision, hdivision', rfl⟩ := textColumn_empty (after_append.symm.trans h₃) hdivision
  obtain ⟨hname, hname', rfl⟩ := textColumn_empty (after_append.symm.trans h₄) hname
  obtain ⟨hpopest2010, rfl⟩ := column_eq (typed.popest2010.read rfl hcomma) h₅
  obtain ⟨hpopest2011, rfl⟩ := column_eq (typed.popest2011.read rfl hcomma) h₆
  obtain ⟨hhuest2010, rfl⟩ := column_eq (typed.huest2010.read rfl hcomma) h₇
  obtain ⟨hhuest2011, rfl⟩ := column_eq (typed.huest2011.read rfl hblank) h₈
  refine ⟨hregion, hdivision, hname, ?_⟩
  show Row.mk u.values.state u.values.region u.values.division u.values.name
    u.values.popestimate2010 u.values.popestimate2011 u.values.huest_2010 u.values.huest_2011 = _
  rw [hstate, hregion', hdivision', hname', hpopest2010, hpopest2011, hhuest2010, hhuest2011]
  rfl

end Typed

end CS640.P5
