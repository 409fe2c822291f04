import CS640.P4.Inserts

/-!
# Lines that `strtok` takes apart

For the tables of sexes, races, divisions and origins `main` uses `strtok` in place of the tokenizer. It
skips empty fields, does not know quotes, and leaves the carriage return at the end of the line.

Main result: `insertStrtok_iff`, for which lines the statement is the one that inserts the fields of the line as
values.

A line is a list of texts joined by commas (`line_eq_pieces`). `strtok_intercalate` is one call on it,
`appendStrtok_pieces` the whole loop; then the columns are compared with the values, first column by column
(`pieces_eq_iff`), and then as texts, which amounts to the same since commas are in neither
(`intercalate_columns_iff`).
-/

namespace CS640.P4

open Lib.Reading Lib.Quoting Lib.Values Tokenizer

/-! ## Statements

These four tables have no field with a comma in it, so quotes are not looked for, and single quotes in a text are
not doubled.
-/

/-- `strtok` with the delimiter `","`: the next token, and where the next call begins. -/
def strtok (s : List Char) : Option (List Char × List Char) :=
  let s := s.dropWhile (· == ',')
  if s = [] then none else some (s.takeWhile (· != ','), (s.dropWhile (· != ',')).tail)

/-- What is appended for a token. -/
def strtokColumn (isText : Bool) (token : List Char) : List Char :=
  if token != ['X'] then
    if isText then '\'' :: (token ++ ['\'']) else token
  else nullToken

/-- The loop over the tokens of a line, for at most the given number of further calls of `strtok`. -/
def appendStrtok (isText : Nat → Bool) :
    (calls charcount : Nat) → (token : Option (List Char × List Char)) → (stream : List Char) →
      Option (List Char)
  | _, _, none, stream => some stream
  | 0, _, some _, _ => none
  | calls + 1, charcount, some (token, rest), stream =>
    let stream := stream ++ strtokColumn (isText charcount) token
    let token := strtok rest
    let stream := if token.isSome then stream ++ [','] else stream
    appendStrtok isText calls (charcount + 1) token stream

/-- The statement for a line. A C string ends at the first NUL. -/
def insertStrtok (t : Table) (line : List Char) : Option (List Char) := do
  let target_line := line.takeWhile (· != '\x00')
  let stream ← appendStrtok t.isText line.length 0 (strtok target_line) (insertInto t)
  return stream ++ [')']

/-- The texts whose values are put into the statement: those that are there, and, in a column of text, have no single
quotes, since these are not doubled. -/
def LoadsStrtok (isText : Bool) (text : List Char) : Prop :=
  text ≠ [] ∧ (isText = true → '\'' ∉ text)

/-! ## A column

The piece that the last column is made of has what ends the line in it.
-/

variable {isText : Bool} {text ending s rest : List Char} {c : Char}

theorem write_plain (h : ¬ (text = [] ∨ text = ['X'])) (isText : Bool) :
    ((Field.plain text).value isText).write nullToken = if isText then literal '\'' text else text :=
  write_value (f := .plain text) h isText

theorem strtokColumn_eq_iff (hne : text ≠ []) :
    strtokColumn isText text = ((Field.plain text).value isText).write nullToken ↔ LoadsStrtok isText text := by
  have hnot : '\'' ∉ ['X'] := by decide
  -- A text that is `X` is put in as null, like its value.
  by_cases hx : text = ['X']
  · subst hx
    exact iff_of_true rfl ⟨hne, fun _ => hnot⟩
  · rw [strtokColumn, if_pos (by simpa using hx), write_plain (by tauto)]
    cases isText with
    | true => simpa [LoadsStrtok, hne] using literal_eq_iff
    | false => simp [LoadsStrtok, hne]

theorem write_ne_nil (isText : Bool) (text : List Char) : ((Field.plain text).value isText).write nullToken ≠ [] := by
  -- Null is written as a word, a text between quotes, a number as it is.
  by_cases hnull : text = [] ∨ text = ['X']
  · rw [Field.value, Field.text, if_pos hnull]
    exact List.cons_ne_nil _ _
  · rw [write_plain hnull]
    cases isText with
    | true => exact List.cons_ne_nil _ _
    | false => exact fun hempty => hnull (Or.inl hempty)

/-- A carriage return is in no value. -/
theorem strtokColumn_return (isText : Bool) (text : List Char) :
    strtokColumn isText (text ++ ['\r']) ≠ ((Field.plain text).value isText).write nullToken := by
  intro heq
  have hx : text ++ ['\r'] ≠ ['X'] := by
    intro hx
    have hlast := congrArg List.getLast? hx
    simp at hlast
  -- it is counted once more on the left
  have hleft : (strtokColumn isText (text ++ ['\r'])).count '\r' = text.count '\r' + 1 := by
    rw [strtokColumn, if_pos (by simpa using hx)]
    cases isText <;> simp
  have hright : (((Field.plain text).value isText).write nullToken).count '\r' ≤ text.count '\r' := by
    by_cases hnull : text = [] ∨ text = ['X']
    · rw [Field.value, Field.text, if_pos hnull]
      exact Nat.zero_le _
    · rw [write_plain hnull]
      cases isText with
      | true =>
          have hescape : (escape '\'' text).count '\r' = text.count '\r' := count_escape (by decide) text
          simp [literal, hescape]
      | false => exact Nat.le_refl _
  rw [heq] at hleft
  omega

/-! ## A line

What is between the commas may be empty, and is then left out by `strtok`. So the columns are those of the texts
that are there, and the other texts have moved up.
-/

section Line

variable {isText : Nat → Bool} {k : Nat} {p : List Char} {ps texts : List (List Char)}

/-- The texts between the commas, what ends the line being a part of the last one. -/
def pieces (ending : List Char) : List (List Char) → List (List Char)
  | [] => []
  | [text] => [text ++ ending]
  | text :: u :: texts => text :: pieces ending (u :: texts)

def strtokColumns (isText : Nat → Bool) : (charcount : Nat) → List (List Char) → List (List Char)
  | _, [] => []
  | charcount, token :: tokens =>
    strtokColumn (isText charcount) token :: strtokColumns isText (charcount + 1) tokens

theorem line_eq_pieces (ending : List Char) (hne : texts ≠ []) :
    line ending (texts.map .plain) = [','].intercalate (pieces ending texts) := by
  -- Over the texts; the last one has the end of the line.
  induction texts with
  | nil => exact absurd rfl hne
  | cons text texts ih =>
      cases texts with
      | nil => simp [line, pieces, Field.source]
      | cons u texts =>
          have hcons : pieces ending (u :: texts) ≠ [] := by
            cases texts <;> simp [pieces]
          rw [pieces, List.intercalate_cons_of_ne_nil hcons, ← ih (List.cons_ne_nil _ _)]
          simp [line, Field.source]

theorem length_pieces (ending : List Char) (texts : List (List Char)) :
    (pieces ending texts).length = texts.length := by
  induction texts with
  | nil => rfl
  | cons text texts ih =>
      cases texts with
      | nil => rfl
      | cons u texts => simpa [pieces] using ih

theorem pieces_nil (texts : List (List Char)) : pieces [] texts = texts := by
  induction texts with
  | nil => rfl
  | cons text texts ih =>
      cases texts with
      | nil => simp [pieces]
      | cons u texts => simpa [pieces] using ih

/-- A call of `strtok` passes over an empty text. -/
theorem strtok_intercalate (hp : ',' ∉ p) :
    strtok ([','].intercalate (p :: ps)) =
      if p = [] then strtok ([','].intercalate ps) else some (p, [','].intercalate ps) := by
  obtain ⟨t, hjoin, ht⟩ : ∃ t, [','].intercalate (p :: ps) = p ++ t ∧
      (t = [] ∧ ps = [] ∨ t = ',' :: [','].intercalate ps) := by
    -- Behind `p` there is nothing, or a comma and the others.
    cases ps with
    | nil => exact ⟨[], by simp, Or.inl ⟨rfl, rfl⟩⟩
    | cons q ps =>
        refine ⟨',' :: [','].intercalate (q :: ps), ?_, Or.inr rfl⟩
        rw [List.intercalate_cons_cons, List.append_assoc]
        rfl
  rw [hjoin]
  -- An empty text: the call goes on to the next comma.
  by_cases hempty : p = []
  · rw [if_pos hempty, hempty, List.nil_append]
    rcases ht with ⟨rfl, rfl⟩ | rfl
    · rfl
    · simp [strtok]
  · -- Otherwise the token is `p`, which has no comma.
    have hall : ∀ a ∈ p, (a != ',') = true := by
      intro a ha
      rw [bne_iff_ne]
      rintro rfl
      exact hp ha
    have hstart : (p ++ t).dropWhile (· == ',') = p ++ t := by
      cases p with
      | nil => exact absurd rfl hempty
      | cons a p =>
          have ha : a ≠ ',' := by simpa using hall a List.mem_cons_self
          simp [ha]
    have htake : (p ++ t).takeWhile (· != ',') = p := by
      rw [List.takeWhile_append_of_pos hall]
      rcases ht with ⟨rfl, -⟩ | rfl <;> simp
    have hdrop : ((p ++ t).dropWhile (· != ',')).tail = [','].intercalate ps := by
      rw [List.dropWhile_append_of_pos hall]
      rcases ht with ⟨rfl, rfl⟩ | rfl <;> simp
    simp only [strtok, hstart, htake, hdrop]
    rw [if_neg (by simp [hempty]), if_neg hempty]

theorem strtok_isSome (hps : ∀ p ∈ ps, ',' ∉ p) :
    (strtok ([','].intercalate ps)).isSome = true ↔ ps.filter (· != []) ≠ [] := by
  -- There is another token if there is a text that is not empty.
  induction ps with
  | nil => exact iff_of_false (by simp [strtok]) (by simp)
  | cons p ps ih =>
      obtain ⟨hp, hrest⟩ := List.forall_mem_cons.mp hps
      rw [strtok_intercalate hp]
      by_cases hempty : p = []
      · rw [if_pos hempty, List.filter_cons_of_neg (by simp [hempty])]
        exact ih hrest
      · rw [if_neg hempty, List.filter_cons_of_pos (by simp [hempty])]
        exact iff_of_true rfl (List.cons_ne_nil _ _)

theorem appendStrtok_pieces {calls : Nat} (stream : List Char) (hps : ∀ p ∈ ps, ',' ∉ p)
    (hcalls : (ps.filter (· != [])).length ≤ calls) :
    appendStrtok isText calls k (strtok ([','].intercalate ps)) stream =
      some (stream ++ [','].intercalate (strtokColumns isText k (ps.filter (· != [])))) := by
  -- Over the texts. An empty one takes no round and makes no column.
  induction ps generalizing calls k stream with
  | nil =>
      have hend : strtok ([','].intercalate []) = none := rfl
      rw [hend, appendStrtok]
      simp [strtokColumns]
  | cons p ps ih =>
      obtain ⟨hp, hrest⟩ := List.forall_mem_cons.mp hps
      rw [strtok_intercalate hp]
      by_cases hempty : p = []
      · rw [List.filter_cons_of_neg (by simp [hempty])] at hcalls ⊢
        rw [if_pos hempty]
        exact ih stream hrest hcalls
      · rw [List.filter_cons_of_pos (by simp [hempty])] at hcalls ⊢
        obtain ⟨calls, rfl⟩ := Nat.exists_eq_succ_of_ne_zero (Nat.ne_of_gt (Nat.lt_of_lt_of_le (by simp) hcalls))
        rw [if_neg hempty, appendStrtok, strtokColumns]
        rw [ih _ hrest (Nat.le_of_succ_le_succ hcalls)]
        have hsome := strtok_isSome hrest
        -- A comma is put behind the column only if another token comes.
        by_cases hmore : ps.filter (· != []) = []
        · rw [if_neg (by rw [hsome]; simpa using hmore), hmore, strtokColumns, List.intercalate_singleton]
          simp
        · have hcolumns : strtokColumns isText (k + 1) (ps.filter (· != [])) ≠ [] := by
            obtain ⟨q, qs, hcons⟩ := List.exists_cons_of_ne_nil hmore
            rw [hcons, strtokColumns]
            exact List.cons_ne_nil _ _
          rw [if_pos (hsome.2 hmore), List.intercalate_cons_of_ne_nil hcolumns]
          simp

/-- A text of a line, which neither `strtok` nor the end of a C string cuts. -/
def Uncut (text : List Char) : Prop := ∀ c ∈ text, c ≠ ',' ∧ c ≠ '\x00'

theorem uncut_pieces (htexts : ∀ text ∈ texts, Uncut text) {ending : List Char}
    (hending : ending = [] ∨ ending = ['\r']) : ∀ p ∈ pieces ending texts, Uncut p := by
  induction texts with
  | nil => exact fun _ hp => by cases hp
  | cons text texts ih =>
      obtain ⟨htext, hrest⟩ := List.forall_mem_cons.mp htexts
      cases texts with
      | nil =>
          intro p hp c hc
          rw [List.mem_singleton.mp hp, List.mem_append] at hc
          -- The carriage return is neither a comma nor a NUL.
          rcases hc with hc | hc
          · exact htext c hc
          · rcases hending with rfl | rfl
            · cases hc
            · rw [List.mem_singleton.mp hc]
              decide
      | cons u texts => exact List.forall_mem_cons.mpr ⟨htext, ih hrest⟩

/-- Each text that is not empty has a character of the line. -/
theorem length_filter_le (ps : List (List Char)) :
    (ps.filter (· != [])).length ≤ ([','].intercalate ps).length := by
  induction ps with
  | nil => exact Nat.zero_le _
  | cons p ps ih =>
      have hcons : p.length + ([','].intercalate ps).length ≤ ([','].intercalate (p :: ps)).length := by
        -- With the comma behind it, unless it is the last.
        cases ps with
        | nil => simp
        | cons q ps =>
            rw [List.intercalate_cons_cons]
            simp only [List.length_append]
            omega
      by_cases hempty : p = []
      · rw [List.filter_cons_of_neg (by simp [hempty])]
        omega
      · have hpos := List.length_pos_of_ne_nil hempty
        rw [List.filter_cons_of_pos (by simp [hempty]), List.length_cons]
        omega

theorem mem_intercalate {c : Char} (h : c ∈ [','].intercalate ps) : c = ',' ∨ ∃ p ∈ ps, c ∈ p := by
  induction ps with
  | nil => cases h
  | cons p ps ih =>
      cases ps with
      | nil => exact Or.inr ⟨p, List.mem_cons_self, by simpa using h⟩
      | cons q ps =>
          rw [List.intercalate_cons_cons, List.mem_append, List.mem_append, List.mem_singleton] at h
          rcases h with (h | h) | h
          · exact Or.inr ⟨p, List.mem_cons_self, h⟩
          · exact Or.inl h
          · rcases ih h with h | ⟨r, hr, hc⟩
            · exact Or.inl h
            · exact Or.inr ⟨r, List.mem_cons_of_mem _ hr, hc⟩

theorem insertStrtok_eq (t : Table) (hps : ∀ p ∈ ps, Uncut p) :
    insertStrtok t ([','].intercalate ps) =
      some (insertInto t ++
        ([','].intercalate (strtokColumns t.isText 0 (ps.filter (· != []))) ++ [')'])) := by
  have hnul : ∀ c ∈ [','].intercalate ps, (c != '\x00') = true := by
    intro c hc
    -- The line has no NUL, so all of it is the string.
    rw [bne_iff_ne]
    rcases mem_intercalate hc with rfl | ⟨p, hp, hc⟩
    · decide
    · exact (hps p hp c hc).2
  have hcommas : ∀ p ∈ ps, ',' ∉ p := fun p hp hmem => (hps p hp _ hmem).1 rfl
  have hloop : appendStrtok t.isText ([','].intercalate ps).length 0 (strtok ([','].intercalate ps))
      (insertInto t) = _ := appendStrtok_pieces (insertInto t) hcommas (length_filter_le ps)
  rw [insertStrtok]
  simp only [List.takeWhile_eq_self_iff.mpr hnul]
  rw [hloop]
  simp

/-- No comma is put into a column. -/
theorem not_mem_strtokColumns (hps : ∀ p ∈ ps, Uncut p) : ∀ column ∈ strtokColumns isText k ps, ',' ∉ column := by
  induction ps generalizing k with
  | nil => exact fun _ h => by cases h
  | cons p ps ih =>
      obtain ⟨hp, hrest⟩ := List.forall_mem_cons.mp hps
      refine List.forall_mem_cons.mpr ⟨?_, ih hrest⟩
      have hmem : ',' ∉ p := fun hmem => (hp _ hmem).1 rfl
      rw [strtokColumn]
      split
      · split
        · simp [hmem]
        · exact hmem
      · decide

theorem not_mem_write {b : Bool} (htext : Uncut text) : ',' ∉ ((Field.plain text).value b).write nullToken := by
  by_cases hnull : text = [] ∨ text = ['X']
  · rw [Field.value, Field.text, if_pos hnull]
    show ',' ∉ nullToken
    decide
  · have hmem : ',' ∉ text := fun hmem => (htext _ hmem).1 rfl
    rw [write_plain hnull]
    cases b with
    | true =>
        have hescape : ',' ∉ escape '\'' text := by
          rwa [← List.count_eq_zero, count_escape (by decide), List.count_eq_zero]
        simp [literal, hescape]
    | false => exact hmem

/-- Nor is one written for a value. -/
theorem not_mem_values (htexts : ∀ text ∈ texts, Uncut text) :
    ∀ t ∈ (values isText k (texts.map .plain)).map (Value.write nullToken), ',' ∉ t := by
  induction texts generalizing k with
  | nil => exact fun _ h => by cases h
  | cons text texts ih =>
      obtain ⟨htext, hrest⟩ := List.forall_mem_cons.mp htexts
      exact List.forall_mem_cons.mpr ⟨not_mem_write htext, ih hrest⟩

/-- The columns are what is written for the values if and only if there is no carriage return and every text is
loaded. -/
theorem pieces_eq_iff {ending : List Char} (hending : ending = [] ∨ ending = ['\r']) (htexts : texts ≠ [])
    (hne : ∀ p ∈ pieces ending texts, p ≠ []) :
    strtokColumns isText k (pieces ending texts) =
        (values isText k (texts.map .plain)).map (Value.write nullToken) ↔
      ending = [] ∧ EveryColumn isText (fun b f => LoadsStrtok b f.text) k (texts.map .plain) := by
  induction texts generalizing k with
  | nil => exact absurd rfl htexts
  | cons text texts ih =>
      cases texts with
      | nil =>
          have hlast : strtokColumn (isText k) (text ++ ending) =
                ((Field.plain text).value (isText k)).write nullToken ↔
              ending = [] ∧ LoadsStrtok (isText k) text := by
            -- The last piece: with the carriage return in it, it is no value.
            rcases hending with rfl | rfl
            · rw [List.append_nil, strtokColumn_eq_iff (by simpa [pieces] using hne), and_iff_right rfl]
            · exact iff_of_false (strtokColumn_return _ _) fun h => by cases h.1
          simp [pieces, strtokColumns, values, EveryColumn, hlast, Field.text]
      | cons u texts =>
          obtain ⟨htext, hrest⟩ := List.forall_mem_cons.mp hne
          have htail := ih (k := k + 1) (List.cons_ne_nil u texts) hrest
          show strtokColumn (isText k) text :: strtokColumns isText (k + 1) (pieces ending (u :: texts)) =
            ((Field.plain text).value (isText k)).write nullToken ::
              (values isText (k + 1) ((u :: texts).map .plain)).map (Value.write nullToken) ↔ _
          rw [List.cons.injEq, strtokColumn_eq_iff htext, htail]
          show _ ↔ ending = [] ∧ LoadsStrtok (isText k) text ∧
            EveryColumn isText (fun b f => LoadsStrtok b f.text) (k + 1) ((u :: texts).map .plain)
          tauto

theorem length_strtokColumns (k : Nat) (ps : List (List Char)) : (strtokColumns isText k ps).length = ps.length := by
  induction ps generalizing k with
  | nil => rfl
  | cons p ps ih => simp [strtokColumns, ih]

theorem length_values (k : Nat) (fields : List Field) : (values isText k fields).length = fields.length := by
  induction fields generalizing k with
  | nil => rfl
  | cons f fields ih => simp [values, ih]

/-- Lists of columns are the same if they come out the same. -/
theorem intercalate_columns_iff (htexts : texts ≠ []) (huncut : ∀ text ∈ texts, Uncut text)
    (hps : ∀ p ∈ ps, Uncut p) :
    [','].intercalate (strtokColumns isText k ps) =
        [','].intercalate ((values isText k (texts.map .plain)).map (Value.write nullToken)) ↔
      strtokColumns isText k ps = (values isText k (texts.map .plain)).map (Value.write nullToken) := by
  refine ⟨fun heq => ?_, fun heq => by rw [heq]⟩
  obtain ⟨text, texts, rfl⟩ := List.exists_cons_of_ne_nil htexts
  have hvalues : ∀ v ∈ (values isText k ((text :: texts).map .plain)).map (Value.write nullToken), ',' ∉ v :=
    not_mem_values huncut
  have hright := List.splitOn_intercalate ',' hvalues (List.cons_ne_nil _ _)
  cases ps with
  | nil =>
      -- nothing is appended, but something is written for each value
      have hnil : [','].intercalate (strtokColumns isText k []) = [] := rfl
      rw [hnil] at heq
      rw [← heq] at hright
      exact absurd (List.cons.inj hright).1.symm (write_ne_nil (isText k) text)
  | cons p ps =>
      have hcolumns : ∀ column ∈ strtokColumns isText k (p :: ps), ',' ∉ column := not_mem_strtokColumns hps
      have hleft := List.splitOn_intercalate ',' hcolumns (List.cons_ne_nil _ _)
      rw [← hleft, heq, hright]

theorem everyColumn_strtok (t : Table) (texts : List (List Char)) :
    EveryColumn t.isText (fun b f => LoadsStrtok b f.text) 0 (texts.map .plain) ↔
      ∀ (i : Nat) (text : List Char), texts[i]? = some text → LoadsStrtok (t.isText i) text := by
  rw [everyColumn_iff]
  simp [Field.text]

/-- A field that is empty is skipped, and then there are too few columns. -/
theorem filter_pieces_iff {ending : List Char} (hending : ending = [] ∨ ending = ['\r']) (htexts : texts ≠ []) :
    strtokColumns isText k ((pieces ending texts).filter (· != [])) =
        (values isText k (texts.map .plain)).map (Value.write nullToken) ↔
      ending = [] ∧ EveryColumn isText (fun b f => LoadsStrtok b f.text) k (texts.map .plain) := by
  -- If a piece is empty there are too few columns, and its text is not loaded.
  by_cases hall : ∀ p ∈ pieces ending texts, p ≠ []
  · have hfilter : (pieces ending texts).filter (· != []) = pieces ending texts := by
      rw [List.filter_eq_self]
      simpa using hall
    rw [hfilter, pieces_eq_iff hending htexts hall]
  · refine iff_of_false (fun heq => hall ?_) ?_
    · -- As many columns as values: then nothing was filtered out.
      have hlen := congrArg List.length heq
      rw [length_strtokColumns, List.length_map, length_values, List.length_map,
        ← length_pieces ending texts] at hlen
      have hfilter := List.filter_sublist.eq_of_length hlen
      simpa using List.filter_eq_self.mp hfilter
    · rintro ⟨rfl, hloads⟩
      rw [pieces_nil] at hall
      refine hall fun p hp => ?_
      obtain ⟨i, hi, rfl⟩ := List.mem_iff_getElem.mp hp
      rw [everyColumn_iff] at hloads
      exact (hloads i (.plain texts[i]) (by simp [hi])).1

/-- **The statement for a line inserts the values of its fields** if and only if the line has no carriage return,
and each field is loaded in its column. -/
theorem insertStrtok_iff (t : Table) (texts : List (List Char)) (hne : texts ≠ [])
    (huncut : ∀ text ∈ texts, Uncut text) (ending : List Char) (hending : ending = [] ∨ ending = ['\r']) :
    insertStrtok t (line ending (texts.map .plain)) = some (insertValues t (row t (texts.map .plain))) ↔
      ending = [] ∧ ∀ (i : Nat) (text : List Char), texts[i]? = some text → LoadsStrtok (t.isText i) text := by
  have hps := uncut_pieces huncut hending
  have hfiltered : ∀ p ∈ (pieces ending texts).filter (· != []), Uncut p := fun p hp =>
    hps p (List.mem_of_mem_filter hp)
  rw [line_eq_pieces ending hne, insertStrtok_eq t hps, Option.some.injEq, insertValues, List.append_right_inj,
    List.append_left_inj, row, intercalate_columns_iff hne huncut hfiltered, filter_pieces_iff hending hne,
    everyColumn_strtok]

/-- `1,Male`, without a carriage return. -/
theorem insertStrtok_male :
    insertStrtok .sex (line [] [.plain ['1'], .plain ['M', 'a', 'l', 'e']]) =
      some (insertValues .sex [.number ['1'], .text ['M', 'a', 'l', 'e']]) := by
  refine (insertStrtok_iff .sex [['1'], ['M', 'a', 'l', 'e']] (List.cons_ne_nil _ _) ?_ [] (Or.inl rfl)).2
    ⟨rfl, ?_⟩
  · simp [Uncut]
  · rintro (_ | _ | i) text h
    · cases h
      exact ⟨List.cons_ne_nil _ _, fun h => by cases h⟩
    · cases h
      exact ⟨List.cons_ne_nil _ _, fun _ => show '\'' ∉ _ by decide⟩
    · cases h

/-! ## The number of calls

Every call of `strtok` that returns a token leaves a shorter rest, so the loop ends, whatever the line.
-/

theorem strtok_length {s token rest : List Char} (h : strtok s = some (token, rest)) :
    rest.length < s.length := by
  rw [strtok] at h
  split at h
  · cases h
  · next hne =>
      cases h
      have hpos := List.length_pos_of_ne_nil hne
      have hstart := (List.dropWhile_suffix (l := s) (· == ',')).length_le
      have hrest := (List.dropWhile_suffix (l := s.dropWhile (· == ',')) (· != ',')).length_le
      rw [List.length_tail]
      omega

theorem appendStrtok_some {calls : Nat} {s stream : List Char} (h : s.length ≤ calls) :
    ∃ stream', appendStrtok isText calls k (strtok s) stream = some stream' := by
  -- Over the rounds, of which there are as many as characters left.
  induction calls generalizing k s stream with
  | zero =>
      obtain rfl : s = [] := List.eq_nil_of_length_eq_zero (Nat.le_zero.mp h)
      exact ⟨stream, rfl⟩
  | succ calls ih =>
      cases hcall : strtok s with
      | none => exact ⟨stream, rfl⟩
      | some r =>
          obtain ⟨token, rest⟩ := r
          have hlen := strtok_length hcall
          exact ih (by omega)

/-- Every line makes a statement. -/
theorem insertStrtok_some (t : Table) (line : List Char) : ∃ stream, insertStrtok t line = some stream := by
  have hlen := (List.takeWhile_prefix (l := line) (· != '\x00')).length_le
  obtain ⟨stream, hstream⟩ : ∃ stream, appendStrtok t.isText line.length 0
      (strtok (line.takeWhile (· != '\x00'))) (insertInto t) = some stream := appendStrtok_some hlen
  refine ⟨stream ++ [')'], ?_⟩
  rw [insertStrtok]
  simp only [hstream]
  rfl

end Line

end CS640.P4
