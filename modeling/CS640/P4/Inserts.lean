import CS640.Lib.Values
import CS640.P4.Literals

/-!
# Lines as rows

`main` makes a statement of each line of a census file: the tokens of the line with commas between them,
those of the columns of text between single quotes. `insertValues` is the statement that inserts given values,
a text being a literal there and a number its numeral.

Main result: `insertLine_iff`, for which lines the two are the same text. What a database makes of the statement
does not come into it.
-/

namespace CS640.P4

open Lib.Reading Lib.Quoting Lib.Values Tokenizer

/-! ## Tables

`load.h` has one function for each table. They differ in the name of the table and in the columns that they put
between quotes.
-/

/-- The tables of `load.h`. -/
inductive Table
  | sumlev
  | sex
  | race
  | region
  | division
  | origin
  | huUnitStateLevel
  | popEstMetroMicro
  | popEstPrMunSexAge
  | popEstPrMunicipios
  | popEstPrSexAge
  | popEstStateAgeSexRaceOrigin
  | popEstCitiesTowns
  | popEstStateCounty
  | popEstNationStatePr
  deriving DecidableEq, Repr

namespace Table

def name : Table → List Char
  | sumlev => "SUMLEV".toList
  | sex => "SEX".toList
  | race => "RACE".toList
  | region => "REGION".toList
  | division => "DIVISION".toList
  | origin => "ORIGIN".toList
  | huUnitStateLevel => "HU_UNIT_STATE_LEVEL".toList
  | popEstMetroMicro => "POP_EST_METRO_MICRO".toList
  | popEstPrMunSexAge => "POP_EST_PR_MUN_SEX_AGE".toList
  | popEstPrMunicipios => "POP_EST_PR_MUNICIPIOS".toList
  | popEstPrSexAge => "POP_EST_PR_SEX_AGE".toList
  | popEstStateAgeSexRaceOrigin => "POP_EST_STATE_AGE_SEX_RACE_ORIGIN".toList
  | popEstCitiesTowns => "POP_EST_CITIES_TOWNS".toList
  | popEstStateCounty => "POP_EST_STATE_COUNTY".toList
  | popEstNationStatePr => "POP_EST_NATION_STATE_PR".toList

/-- The values of `charcount` at which `main` puts a token between single quotes. -/
def isText : Table → Nat → Bool
  | sumlev, charcount => charcount == 1
  | sex, charcount => charcount == 1
  | race, charcount => charcount == 1
  | region, charcount => charcount == 1
  | division, charcount => charcount == 1
  | origin, charcount => charcount == 1
  | huUnitStateLevel, charcount => charcount == 4
  | popEstMetroMicro, charcount => charcount == 3 || charcount == 4
  | popEstPrMunSexAge, charcount => charcount == 2
  | popEstPrMunicipios, charcount => charcount == 2
  | popEstPrSexAge, charcount => charcount == 2
  | popEstStateAgeSexRaceOrigin, _ => false
  | popEstCitiesTowns, charcount => charcount == 6 || charcount == 7
  | popEstStateCounty, charcount => charcount == 5 || charcount == 6
  | popEstNationStatePr, charcount => charcount == 4

theorem name_ne_space (t : Table) : t.name.all (· != ' ') = true := by cases t <;> decide +kernel

end Table

/-! ## Statements

The text of a statement is put together in a stream. There is no count of the columns: the loop ends at the first
empty token, whatever made it empty.
-/

/-- How `main` begins a statement. -/
def insertInto (t : Table) : List Char := "INSERT INTO ".toList ++ t.name ++ " VALUES(".toList

/-- The loop over the tokens of a line, for at most the given number of further calls of `getToken`. -/
def appendTokens (isText : Nat → Bool) :
    (calls charcount : Nat) → (token : List Char) → Tokenizer → (stream : List Char) → Option (List Char)
  | 0, _, token, _, stream => if token = [] then some stream else none
  | calls + 1, charcount, token, tk, stream =>
    if token = [] then some stream
    else do
      let stream := stream ++ if isText charcount then quotedColumn token else token
      let (token, tk) ← tk.getToken
      let stream := if token != [] then stream ++ [','] else stream
      appendTokens isText calls (charcount + 1) token tk stream

/-- The statement for a line. -/
def insertLine (t : Table) (line : List Char) : Option (List Char) := do
  let (token, tk) ← (new line ',').getToken
  let stream ← appendTokens t.isText line.length 0 token tk (insertInto t)
  return stream ++ [')']

/-! ## Values

An empty field stands for no value, and so does a single `X`. Every other field stands for its text, in a column of
text, or for the number that has the text as its numeral.
-/

/-- The statement that inserts these values. -/
def insertValues (t : Table) (vs : List Value) : List Char :=
  insertInto t ++ ([','].intercalate (vs.map (Value.write nullToken)) ++ [')'])

namespace Field

/-- The value that a field stands for. -/
def value (isText : Bool) (f : Field) : Value :=
  if f.text = [] ∨ f.text = ['X'] then .null
  else if isText then .text f.text
  else .number f.text

/-- The fields whose values are put into the statement: those that are read right, but not `null` as a text, and
no numbers with single quotes in them, which are doubled as if they were texts. -/
def Loads (isText : Bool) (f : Field) : Prop :=
  f.Read ∧
    match isText with
    | true => f.text ≠ nullToken
    | false => '\'' ∉ f.text

/-- The text of the token of a field, before its single quotes are doubled. -/
def raw : Field → List Char
  | plain text => if text = [] then nullToken else text
  | quoted text => text

/-- What is appended for a field. -/
def column (isText : Bool) (f : Field) : List Char := if isText then quotedColumn f.output else f.output

end Field

/-- The values of the fields of a line, from column `charcount` on. -/
def values (isText : Nat → Bool) : (charcount : Nat) → List Field → List Value
  | _, [] => []
  | charcount, f :: fields => f.value (isText charcount) :: values isText (charcount + 1) fields

/-- The row that a line stands for. -/
def row (t : Table) (fields : List Field) : List Value := values t.isText 0 fields

variable {s text raw : List Char} {c : Char} {f : Field} {fields : List Field} {isText : Bool}

/-! ## A column

What is appended for a field is what is written for its value, or the two begin differently, or the single quotes
of a number tell them apart. In each case nothing that follows makes them the same.
-/

namespace Field

theorem output_eq (f : Field) : f.output = reads f.raw := by cases f <;> rfl

theorem output_eq_nil_iff : f.output = [] ↔ f = .quoted [] := by
  have hreads : ∀ raw, reads raw = [] ↔ raw = [] := by
    intro raw
    -- Only an empty text is read as an empty token: null is not empty, and doubling adds.
    cases raw with
    | nil => exact iff_of_true rfl rfl
    | cons c raw =>
        rw [reads]
        split
        · simp
        · rw [doubled_cons]
          split <;> simp
  rw [output_eq, hreads]
  cases f with
  | plain text => by_cases h : text = [] <;> simp [Field.raw, h, nullToken]
  | quoted text => simp [Field.raw]

end Field

theorem doubled_eq_null_iff : Field.doubled raw = nullToken ↔ raw = nullToken := by
  constructor
  · intro h
    -- With a single quote in it the doubled text has one as well, and `null` has none.
    by_cases hmem : '\'' ∈ raw
    · have hdoubled : '\'' ∈ Field.doubled raw := List.mem_flatMap.mpr ⟨'\'', hmem, by simp⟩
      rw [h] at hdoubled
      exact absurd hdoubled (by decide)
    · rwa [doubled_of_not_mem hmem] at h
  · rintro rfl
    rfl

/-- A text is told from its doubling by what is behind its last single quote. -/
theorem apart_doubled (hquote : '\'' ∈ text) : Apart (Ended ',' ')') (Field.doubled text) text := by
  rintro _ _ ⟨c, s, rfl, hc⟩ ⟨d, t, rfl, hd⟩ heq
  -- What ends a column is no single quote.
  have hne : ∀ c, c = ',' ∨ c = ')' → c ≠ '\'' := by
    rintro _ (rfl | rfl) <;> decide
  have happend : text ++ d :: t = List.replicate 0 '\'' ++ (escape '\'' text ++ c :: s) := heq.symm
  exact (not_mem_of_append_eq (hne d hd) (hne c hc) happend).2 hquote

theorem column_null (h : f.output = nullToken) (isText : Bool) : f.column isText = nullToken := by
  cases isText with
  | true =>
      rw [Field.column, if_pos rfl, h]
      rfl
  | false => rw [Field.column, if_neg Bool.false_ne_true, h]

/-- What is written for the value of a field that has one. -/
theorem write_value (h : ¬ (f.text = [] ∨ f.text = ['X'])) (isText : Bool) :
    (f.value isText).write nullToken = if isText then literal '\'' f.text else f.text := by
  rw [Field.value, if_neg h]
  cases isText <;> rfl

theorem Field.read_plain : (plain text).Read ↔ (text.head? = some 'X' → text = ['X']) := by
  simp [Field.Read, Field.text]

theorem Field.read_quoted : (quoted (c :: text)).Read ↔ (c = 'X' → c :: text = ['X']) ∧ c ≠ ',' := by
  simp [Field.Read, Field.text]

/-- A field that is not read right is taken for one without a value. -/
theorem column_of_not_read (hvalid : f.Valid) (hne : f ≠ .quoted []) (h : ¬ f.Read) (isText : Bool) :
    Apart (Ended ',' ')') (f.column isText) ((f.value isText).write nullToken) := by
  -- The field begins with an `X` or with a comma, and has more than the `X`.
  obtain ⟨c, text, htext, hword, hx⟩ : ∃ c text, f.text = c :: text ∧ (c = 'X' ∨ c = ',') ∧ c :: text ≠ ['X'] := by
    cases f with
    | plain text =>
        obtain ⟨hhead, hx⟩ := Classical.not_imp.mp (mt Field.read_plain.2 h)
        obtain ⟨text, rfl⟩ := List.head?_eq_some_iff.1 hhead
        exact ⟨'X', text, rfl, Or.inl rfl, hx⟩
    | quoted text =>
        obtain ⟨c, text, rfl⟩ := List.exists_cons_of_ne_nil fun hempty => hne (congrArg Field.quoted hempty)
        rw [Field.read_quoted] at h
        refine ⟨c, text, rfl, by tauto, ?_⟩
        rintro heq
        obtain rfl := (List.cons.inj heq).1
        exact h ⟨fun _ => heq, by decide⟩
  have hraw : f.raw = c :: text := by cases f <;> simp_all [Field.raw, Field.text]
  have houtput : f.output = nullToken := by
    rw [Field.output_eq, hraw, reads, if_pos (by simpa using hword)]
    rfl
  rw [column_null houtput, write_value (by rw [htext]; simpa using hx), htext]
  -- A text is written with a quote in front, a number with the character that the field begins with; null has
  -- neither.
  cases isText with
  | true => exact apart_of_head (a := 'n') (b := '\'') rfl rfl (by decide)
  | false => exact apart_of_head (a := 'n') (b := c) rfl rfl (by rcases hword with rfl | rfl <;> decide)

/-- **A column** has what is written for the value of its field, if the field is loaded, and else a text that is
not taken for it. -/
theorem column_cases (hvalid : f.Valid) (hne : f ≠ .quoted []) (isText : Bool) :
    f.Loads isText ∧ f.column isText = (f.value isText).write nullToken ∨
      ¬ f.Loads isText ∧ Apart (Ended ',' ')') (f.column isText) ((f.value isText).write nullToken) := by
  -- By whether the field is read right, then by whether it has a value, then by the kind of column.
  by_cases hread : f.Read
  · have houtput := (output_eq_token_iff hvalid).2 hread
    rw [Field.token] at houtput
    split at houtput
    · next hnull =>
        refine Or.inl ⟨⟨hread, ?_⟩, by rw [column_null houtput, Field.value, if_pos hnull]; rfl⟩
        rcases hnull with htext | htext <;> cases isText <;> rw [htext] <;> decide
    · next hvalue =>
        rw [write_value hvalue, Field.column, houtput]
        cases isText with
        | true =>
            -- A text that reads `null` goes into the statement without quotes.
            by_cases hnull : f.text = nullToken
            · refine Or.inr ⟨fun h => h.2 hnull, ?_⟩
              rw [hnull]
              exact apart_of_head (a := 'n') (b := '\'') rfl rfl (by decide)
            · refine Or.inl ⟨⟨hread, hnull⟩, ?_⟩
              rw [if_pos rfl, if_pos rfl, quotedColumn, if_pos (by simpa [doubled_eq_null_iff] using hnull)]
              rfl
        | false =>
            -- In a number the quotes have been doubled.
            by_cases hquote : '\'' ∈ f.text
            · exact Or.inr ⟨fun h => h.2 hquote, apart_doubled hquote⟩
            · exact Or.inl ⟨⟨hread, hquote⟩, doubled_of_not_mem hquote⟩
  · exact Or.inr ⟨fun h => hread h.1, column_of_not_read hvalid hne hread isText⟩

/-! ## A line

The columns of a line, up to the field that ends it early (`columns`), against the values of all fields.
`appendTokens_line` follows the loop, `columns_eq_iff` compares.
-/

section Line

variable {isText : Nat → Bool} {k : Nat}

/-- What is appended for the fields of a line, up to the first one whose token is empty. -/
def columns (isText : Nat → Bool) : (charcount : Nat) → List Field → List (List Char)
  | _, [] => []
  | charcount, f :: fields =>
    if f = .quoted [] then []
    else f.column (isText charcount) :: columns isText (charcount + 1) fields

/-- Every field has the property in its column. -/
def EveryColumn (isText : Nat → Bool) (P : Bool → Field → Prop) : (charcount : Nat) → List Field → Prop
  | _, [] => True
  | charcount, f :: fields => P (isText charcount) f ∧ EveryColumn isText P (charcount + 1) fields

theorem everyColumn_iff {P : Bool → Field → Prop} :
    EveryColumn isText P k fields ↔ ∀ i f, fields[i]? = some f → P (isText (k + i)) f := by
  -- Over the fields, the column moving on with them.
  induction fields generalizing k with
  | nil => exact iff_of_true trivial fun _ _ h => by cases h
  | cons g fields ih =>
      rw [EveryColumn, ih]
      constructor
      · rintro ⟨hg, hall⟩ (_ | i) f h
        · cases h
          exact hg
        · have hf := hall i f h
          rwa [Nat.add_right_comm] at hf
      · intro hall
        refine ⟨hall 0 g rfl, fun i f h => ?_⟩
        have hf := hall (i + 1) f h
        rwa [Nat.add_right_comm]

/-- What is left of a line behind a field. -/
def behind (fields : List Field) : List Char := if fields = [] then [] else line ['\r'] fields

theorem getToken_line (hvalid : f.Valid) :
    (new (line ['\r'] (f :: fields)) ',').getToken = some (f.output, new (behind fields) ',') := by
  cases fields with
  | nil => exact getToken_field hvalid (Or.inr ⟨rfl, rfl⟩)
  | cons g fields => exact getToken_field hvalid (Or.inl rfl)

theorem length_line (fields : List Field) : fields.length ≤ (line ['\r'] fields).length := by
  -- Each field has a comma or the carriage return after it.
  induction fields with
  | nil => exact Nat.zero_le _
  | cons f fields ih =>
      cases fields with
      | nil => simp [line]
      | cons g fields =>
          simp only [line, List.length_append, List.length_cons] at ih ⊢
          omega

theorem appendTokens_end (calls : Nat) (tk : Tokenizer) (stream : List Char) :
    appendTokens isText calls k [] tk stream = some stream := by
  cases calls <;> rfl

theorem appendTokens_cons {calls : Nat} {token token' stream : List Char} {tk tk' : Tokenizer}
    (hne : token ≠ []) (h : tk.getToken = some (token', tk')) :
    appendTokens isText (calls + 1) k token tk stream =
      appendTokens isText calls (k + 1) token' tk'
        (if token' != [] then stream ++ (if isText k then quotedColumn token else token) ++ [',']
          else stream ++ if isText k then quotedColumn token else token) := by
  rw [appendTokens, if_neg hne, h]
  rfl

/-- The loop appends the columns, with commas between them. -/
theorem appendTokens_line {calls : Nat} (stream : List Char) (hvalid : ∀ g ∈ f :: fields, g.Valid)
    (hcalls : fields.length < calls) :
    appendTokens isText calls k f.output (new (behind fields) ',') stream =
      some (stream ++ [','].intercalate (columns isText k (f :: fields))) := by
  -- Over the fields behind the one whose token is at hand.
  induction fields generalizing f calls k stream with
  | nil =>
      obtain ⟨calls, rfl⟩ := Nat.exists_eq_succ_of_ne_zero (Nat.ne_of_gt hcalls)
      -- An empty text between quotes is an empty token: nothing is appended.
      by_cases hf : f = .quoted []
      · rw [Field.output_eq_nil_iff.2 hf, appendTokens_end, columns, if_pos hf]
        simp
      · have hend : (new (behind []) ',').getToken = some ([], new [] ',') := rfl
        rw [appendTokens_cons (fun h => hf (Field.output_eq_nil_iff.1 h)) hend, appendTokens_end, columns,
          if_neg hf, columns, List.intercalate_singleton]
        rfl
  | cons g fields ih =>
      obtain ⟨calls, rfl⟩ := Nat.exists_eq_succ_of_ne_zero (Nat.ne_of_gt (Nat.zero_lt_of_lt hcalls))
      obtain ⟨hfv, hrest⟩ := List.forall_mem_cons.mp hvalid
      obtain ⟨hgv, -⟩ := List.forall_mem_cons.mp hrest
      by_cases hf : f = .quoted []
      · rw [Field.output_eq_nil_iff.2 hf, appendTokens_end, columns, if_pos hf]
        simp
      · have hnext : (new (behind (g :: fields)) ',').getToken = some (g.output, new (behind fields) ',') :=
          getToken_line hgv
        have hcons : columns isText k (f :: g :: fields) =
            f.column (isText k) :: columns isText (k + 1) (g :: fields) := by rw [columns, if_neg hf]
        rw [appendTokens_cons (fun h => hf (Field.output_eq_nil_iff.1 h)) hnext,
          ih _ hrest (Nat.lt_of_succ_lt_succ hcalls), hcons]
        by_cases hg : g = .quoted []
        · -- the token is empty, and the row ends here
          have hempty : columns isText (k + 1) (g :: fields) = [] := by rw [columns, if_pos hg]
          rw [if_neg (by simp [Field.output_eq_nil_iff.2 hg]), hempty, List.intercalate_singleton]
          simp [Field.column]
        · have hcolumns : columns isText (k + 1) (g :: fields) ≠ [] := by
            rw [columns, if_neg hg]
            exact List.cons_ne_nil _ _
          rw [if_pos (by simpa [Field.output_eq_nil_iff] using hg), List.intercalate_cons_of_ne_nil hcolumns]
          simp [Field.column]

theorem insertLine_eq (t : Table) (hvalid : ∀ g ∈ f :: fields, g.Valid) :
    insertLine t (line ['\r'] (f :: fields)) =
      some (insertInto t ++ ([','].intercalate (columns t.isText 0 (f :: fields)) ++ [')'])) := by
  obtain ⟨hf, -⟩ := List.forall_mem_cons.mp hvalid
  have hcalls : fields.length < (line ['\r'] (f :: fields)).length := length_line (f :: fields)
  have hloop : appendTokens t.isText (line ['\r'] (f :: fields)).length 0 f.output (new (behind fields) ',')
      (insertInto t) = _ := appendTokens_line (insertInto t) hvalid hcalls
  rw [insertLine, getToken_line hf]
  show (appendTokens t.isText _ 0 f.output (new (behind fields) ',') (insertInto t)).bind _ = _
  rw [hloop, Option.bind_some, List.append_assoc]
  rfl

theorem not_loads_empty (isText : Bool) : ¬ (Field.quoted []).Loads isText := fun h => (h.1.2 [] rfl).1 rfl

/-- The columns are what is written for the values of the fields if and only if each of them is loaded. -/
theorem columns_eq_iff (hvalid : ∀ g ∈ fields, g.Valid) :
    columns isText k fields = (values isText k fields).map (Value.write nullToken) ↔
      EveryColumn isText (fun isText f => f.Loads isText) k fields := by
  -- Over the fields. An empty text between quotes stops the columns, not the values.
  induction fields generalizing k with
  | nil => exact iff_of_true rfl trivial
  | cons f fields ih =>
      obtain ⟨hf, hrest⟩ := List.forall_mem_cons.mp hvalid
      by_cases hempty : f = .quoted []
      · rw [columns, if_pos hempty]
        refine iff_of_false (by simp [values]) fun hall => ?_
        rw [hempty] at hall
        exact not_loads_empty _ hall.1
      · rw [columns, if_neg hempty, values, List.map_cons, List.cons.injEq, ih hrest, EveryColumn]
        refine and_congr_left fun _ => ?_
        -- This column is the value of its field or apart from it, and then the two rows differ.
        rcases column_cases hf hempty (isText k) with ⟨hloads, heq⟩ | ⟨hloads, hapart⟩
        · exact iff_of_true heq hloads
        · refine iff_of_false (fun heq => ?_) hloads
          exact hapart [','] [','] (ended_sep []) (ended_sep []) (by rw [heq])

/-- In front of the first empty field between quotes, each column is the same or apart. -/
theorem columns_zip (hvalid : ∀ g ∈ fields, g.Valid) :
    ∀ p ∈ (columns isText k fields).zip ((values isText k fields).map (Value.write nullToken)),
      p.1 = p.2 ∨ Apart (Ended ',' ')') p.1 p.2 := by
  induction fields generalizing k with
  | nil => exact fun _ h => by cases h
  | cons f fields ih =>
      obtain ⟨hf, hrest⟩ := List.forall_mem_cons.mp hvalid
      by_cases hempty : f = .quoted []
      · rw [columns, if_pos hempty]
        exact fun _ h => by cases h
      · rw [columns, if_neg hempty, values, List.map_cons, List.zip_cons_cons]
        refine List.forall_mem_cons.mpr ⟨?_, ih hrest⟩
        rcases column_cases hf hempty (isText k) with ⟨-, heq⟩ | ⟨-, hapart⟩
        · exact Or.inl heq
        · exact Or.inr hapart

theorem everyColumn_loads (t : Table) (fields : List Field) :
    EveryColumn t.isText (fun isText f => f.Loads isText) 0 fields ↔
      ∀ (i : Nat) (f : Field), fields[i]? = some f → f.Loads (t.isText i) := by
  rw [everyColumn_iff]
  simp only [Nat.zero_add]

/-- **The statement for a line inserts the values of its fields** if and only if each field is loaded in its
column. -/
theorem insertLine_iff (t : Table) (fields : List Field) (hne : fields ≠ [])
    (hvalid : ∀ f ∈ fields, f.Valid) :
    insertLine t (line ['\r'] fields) = some (insertValues t (row t fields)) ↔
      ∀ (i : Nat) (f : Field), fields[i]? = some f → f.Loads (t.isText i) := by
  obtain ⟨f, fields, rfl⟩ := List.exists_cons_of_ne_nil hne
  rw [← everyColumn_loads, insertLine_eq t hvalid, Option.some.injEq, insertValues, List.append_right_inj, row]
  by_cases hempty : f = .quoted []
  · -- the row ends before the first value
    rw [columns, if_pos hempty, hempty]
    refine iff_of_false (fun heq => ?_) fun hall => not_loads_empty _ hall.1
    rw [values, List.map_cons, intercalate_cons_close] at heq
    exact absurd (List.cons.inj heq).1 (by decide)
  · have hcolumns : columns t.isText 0 (f :: fields) ≠ [] := by
      rw [columns, if_neg hempty]
      exact List.cons_ne_nil _ _
    rw [intercalate_close_eq_iff (by decide) (columns_zip hvalid) hcolumns (by simp [values]),
      columns_eq_iff hvalid]

/-- `4,"O'B, C"` and a carriage return. -/
theorem insertLine_quoted :
    insertLine .region (line ['\r'] [.plain ['4'], .quoted ['O', '\'', 'B', ',', ' ', 'C']]) =
      some (insertValues .region [.number ['4'], .text ['O', '\'', 'B', ',', ' ', 'C']]) := by
  refine (insertLine_iff .region _ (List.cons_ne_nil _ _) ?_).2 ?_
  · simp [Field.Valid]
  · rintro (_ | _ | i) f h
    · cases h
      exact ⟨by simp [Field.Read, Field.text], show '\'' ∉ ['4'] by decide⟩
    · cases h
      exact ⟨⟨by simp [Field.text], by simp⟩, show _ ≠ nullToken by decide⟩
    · cases h

/-! ## The number of calls

The loop has no bound in the source. In the model it has, and here is why the bound does not count: every token that
is not empty takes a character off the line.
-/

/-- A token that is not empty is taken off the line. -/
theorem scan_length {tk u : Tokenizer} {token ret it : List Char} (h : tk.scan token it = (ret, u))
    (hne : ret ≠ []) : u.rest.length < it.length := by
  -- Along the loop: it ends behind the character it is at.
  induction it generalizing tk token with
  | nil =>
      cases h
      exact absurd rfl hne
  | cons c it ih =>
      rw [scan] at h
      split at h
      · cases h
        exact absurd rfl hne
      · dsimp only at h
        split at h
        · cases h
          exact Nat.lt_succ_self _
        · exact Nat.lt_succ_of_lt (ih h)

theorem getToken_length {tk u : Tokenizer} {token : List Char} (h : tk.getToken = some (token, u))
    (hne : token ≠ []) : u.rest.length < tk.rest.length := by
  rcases htok : tk.tokenize with ⟨ret, v⟩
  rw [getToken, htok] at h
  cases ret with
  | nil =>
      cases h
      exact absurd rfl hne
  | cons c ret =>
      have hlen : v.rest.length < tk.rest.length := scan_length htok (List.cons_ne_nil c ret)
      dsimp only at h
      split at h
      · -- Taking off the quotes makes the token shorter, not the line longer.
        split at h
        · cases h
        · cases h
          exact hlen
      · cases h
        exact hlen

theorem appendTokens_succ {calls : Nat} {token stream : List Char} {tk : Tokenizer}
    (h : tk.rest.length < calls) :
    appendTokens isText (calls + 1) k token tk stream = appendTokens isText calls k token tk stream := by
  induction calls generalizing k token tk stream with
  | zero => exact absurd h (Nat.not_lt_zero _)
  | succ calls ih =>
      -- An empty token ends the loop, however many rounds are left.
      by_cases hempty : token = []
      · rw [hempty, appendTokens_end, appendTokens_end]
      · cases hcall : tk.getToken with
        | none => rw [appendTokens, appendTokens, if_neg hempty, if_neg hempty, hcall]; rfl
        | some r =>
            obtain ⟨token', tk'⟩ := r
            rw [appendTokens_cons hempty hcall, appendTokens_cons hempty hcall]
            -- The next token is empty, or the line has become shorter.
            by_cases hnext : token' = []
            · rw [hnext, appendTokens_end, appendTokens_end]
            · have hlen := getToken_length hcall hnext
              exact ih (by omega)

/-- There are no more calls than the line has characters. -/
theorem insertLine_calls (t : Table) (line : List Char) {calls : Nat} (h : line.length ≤ calls) :
    insertLine t line = (new line ',').getToken.bind fun r =>
      (appendTokens t.isText calls 0 r.1 r.2 (insertInto t)).map (· ++ [')']) := by
  -- From the length of the line upwards.
  induction calls, h using Nat.le_induction with
  | base =>
      rw [insertLine]
      cases (new line ',').getToken with
      | none => rfl
      | some r => exact (Option.map_eq_bind).symm
  | succ calls hle ih =>
      rw [ih]
      cases hcall : (new line ',').getToken with
      | none => rfl
      | some r =>
          obtain ⟨token, tk⟩ := r
          rw [Option.bind_some, Option.bind_some]
          by_cases hempty : token = []
          · rw [hempty, appendTokens_end, appendTokens_end]
          · have hlen : tk.rest.length < line.length := getToken_length hcall hempty
            rw [appendTokens_succ (Nat.lt_of_lt_of_le hlen hle)]

end Line

end CS640.P4
