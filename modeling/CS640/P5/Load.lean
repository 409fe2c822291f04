import CS640.Lib.Values
import CS640.P5.Statements

/-!
# Loading estimates

`load.php` sends an insertion for each record of a CSV file, all of them in one transaction, and commits if the
last one was accepted. It puts single quotes around three of the columns, and `NULL` for an empty text in the
others. `insertValues` is the statement that inserts given values, and a server is only relied on for such
statements: a record with single quotes may end the statement early and begin another one, and then nothing is
known.

Main results: `insertQuery_iff`, for which records the statement is the one that inserts the texts of the record;
`load_transaction`, that all records are inserted or none; `load_again`, that a file that is loaded again
changes nothing.
-/

namespace CS640.P5

open Lib.Reading Lib.Quoting Lib.Values
open scoped List

/-! ## Statements

The statement that the page makes of a record, and the one that it ought to be.
-/

/-- A record of the file, as `fgetcsv` returns it. -/
abbrev Record := List Text

/-- The columns that are put between single quotes. -/
def isQuoted (c : Nat) : Bool := c ≥ 1 && c ≤ 3

def column (c : Nat) (data : Text) : Text :=
  let data := if isQuoted c then '\'' :: (data ++ ['\'']) else data
  if data.length = 0 then "NULL".toList else data

/-- The loop over the columns. -/
def appendColumns : (c : Nat) → (data : Record) → (strv : Text) → Text
  | _, [], strv => strv
  | c, text :: data, strv => appendColumns (c + 1) data (strv ++ (column c text ++ [',']))

def insertQuery (data : Record) : Text :=
  let strv := appendColumns 0 data "VALUES (".toList
  let strv := strv.set (strv.length - 1) ')'
  "INSERT INTO gooi.POP_HOUSING_ESTIMATE_STATE ".toList ++ strv ++ ";".toList

/-- The statement that inserts these values. -/
def insertValues (vs : List Value) : Text :=
  "INSERT INTO gooi.POP_HOUSING_ESTIMATE_STATE VALUES (".toList ++
    ([','].intercalate (vs.map (Value.write "NULL".toList)) ++ ')' :: ";".toList)

/-- What a column of a record stands for. -/
def columnValue (c : Nat) (text : Text) : Value :=
  if isQuoted c then .text text else if text = [] then .null else .number text

def recordValues : (c : Nat) → Record → List Value
  | _, [] => []
  | c, text :: data => columnValue c text :: recordValues (c + 1) data

/-- A record that can be loaded: its statement inserts its texts, and these are proper values, so that there are
numerals or nothing in the columns of numbers. -/
structure Loadable (data : Record) : Prop where
  ne_nil : data ≠ []
  unquoted : ∀ (c : Nat) (text : Text), data[c]? = some text → isQuoted c = true → '\'' ∉ text
  proper : ∀ v ∈ recordValues 0 data, v.Proper

variable {data : Record} {text : Text} {c : Nat}

/-! ## Columns

What is put into the statement for a column is as long as what is written for its value, or shorter by the single
quotes in it. So the statements are the same only if all columns are.
-/

/-- The columns between the parentheses. -/
def columnTexts : (c : Nat) → Record → List Text
  | _, [] => []
  | c, text :: data => column c text :: columnTexts (c + 1) data

theorem appendColumns_eq (c : Nat) (data : Record) (strv : Text) :
    appendColumns c data strv = strv ++ (columnTexts c data).flatMap (· ++ [',']) := by
  -- Over the columns, from any one on.
  induction data generalizing c strv with
  | nil => simp [appendColumns, columnTexts]
  | cons text data ih => simp [appendColumns, columnTexts, ih]

theorem set_last (s : Text) (a b : Char) : (s ++ [a]).set ((s ++ [a]).length - 1) b = s ++ [b] := by
  simp

/-- The last comma becomes the parenthesis. -/
theorem insertQuery_eq (hne : data ≠ []) :
    insertQuery data = "INSERT INTO gooi.POP_HOUSING_ESTIMATE_STATE VALUES (".toList ++
      ([','].intercalate (columnTexts 0 data) ++ ')' :: ";".toList) := by
  have hcolumns : columnTexts 0 data ≠ [] := by
    cases data with
    | nil => exact absurd rfl hne
    | cons text data => exact List.cons_ne_nil _ _
  have hword : "INSERT INTO gooi.POP_HOUSING_ESTIMATE_STATE VALUES (".toList =
      "INSERT INTO gooi.POP_HOUSING_ESTIMATE_STATE ".toList ++ "VALUES (".toList := rfl
  unfold insertQuery
  rw [appendColumns_eq, flatMap_intercalate hcolumns, ← List.append_assoc, hword]
  dsimp only
  rw [set_last]
  simp only [List.append_assoc, List.cons_append, List.nil_append]

theorem column_quoted (hquoted : isQuoted c = true) (text : Text) :
    column c text = '\'' :: (text ++ ['\'']) ∧
      (columnValue c text).write "NULL".toList = literal '\'' text := by
  unfold column columnValue
  rw [if_pos hquoted, if_pos hquoted]
  exact ⟨if_neg (by simp), rfl⟩

/-- A number is put into the statement as it is. -/
theorem column_number (hquoted : isQuoted c = false) (text : Text) :
    column c text = (columnValue c text).write "NULL".toList := by
  unfold column columnValue
  rw [hquoted, if_neg Bool.false_ne_true, if_neg Bool.false_ne_true]
  -- An empty text becomes `NULL`, any other is left as it is.
  by_cases hempty : text = []
  · subst hempty
    rfl
  · rw [if_neg hempty]
    exact if_neg (by simpa using hempty)

theorem column_eq_iff : column c text = (columnValue c text).write "NULL".toList ↔
    (isQuoted c = true → '\'' ∉ text) := by
  cases hquoted : isQuoted c with
  | true =>
      -- Between single quotes: `column` does not double the ones inside, `literal` does.
      obtain ⟨hcolumn, hwrite⟩ := column_quoted hquoted text
      rw [hcolumn, hwrite, literal_eq_iff]
      exact ⟨fun h _ => h, fun h => h rfl⟩
  | false => exact iff_of_true (column_number hquoted text) fun h => by cases h

theorem length_column_le (c : Nat) (text : Text) :
    (column c text).length ≤ ((columnValue c text).write "NULL".toList).length := by
  cases hquoted : isQuoted c with
  | true =>
      obtain ⟨hcolumn, hwrite⟩ := column_quoted hquoted text
      rw [hcolumn, hwrite]
      exact length_le_literal '\'' text
  | false => rw [column_number hquoted]

theorem columns_length_le (c : Nat) (data : Record) :
    List.Forall₂ (fun s t => s.length ≤ t.length) (columnTexts c data)
      ((recordValues c data).map (Value.write "NULL".toList)) := by
  induction data generalizing c with
  | nil => exact .nil
  | cons text data ih => exact .cons (length_column_le c text) (ih (c + 1))

theorem columns_eq_iff (c : Nat) (data : Record) :
    columnTexts c data = (recordValues c data).map (Value.write "NULL".toList) ↔
      ∀ (i : Nat) (text : Text), data[i]? = some text → isQuoted (c + i) = true → '\'' ∉ text := by
  induction data generalizing c with
  | nil => exact iff_of_true rfl fun _ _ h => by cases h
  | cons text data ih =>
      rw [columnTexts, recordValues, List.map_cons, List.cons.injEq, column_eq_iff, ih]
      -- The first column, and then the others, one further on.
      constructor
      · rintro ⟨hhead, htail⟩ (_ | i) u hu
        · cases hu
          exact hhead
        · have hcolumn := htail i u hu
          rwa [Nat.add_right_comm] at hcolumn
      · intro hall
        refine ⟨hall 0 text rfl, fun i u hu => ?_⟩
        have hcolumn := hall (i + 1) u hu
        rwa [Nat.add_right_comm]

/-- **The statement for a record inserts its texts** if and only if there are no single quotes in the columns that are
put between some. -/
theorem insertQuery_iff (data : Record) (hne : data ≠ []) :
    insertQuery data = insertValues (recordValues 0 data) ↔
      ∀ (c : Nat) (text : Text), data[c]? = some text → isQuoted c = true → '\'' ∉ text := by
  have hcolumns : [','].intercalate _ = [','].intercalate _ ↔ _ := intercalate_eq_iff (columns_length_le 0 data)
  rw [columns_eq_iff] at hcolumns
  simp only [Nat.zero_add] at hcolumns
  rw [← hcolumns, insertQuery_eq hne]
  unfold insertValues
  generalize "INSERT INTO gooi.POP_HOUSING_ESTIMATE_STATE VALUES (".toList = front
  generalize ')' :: ";".toList = back
  rw [List.append_right_inj, List.append_left_inj]

/-- A single quote in a name is not inserted as one. -/
theorem insertQuery_hawaii :
    insertQuery ["15".toList, [], [], "Hawaii".toList] =
        insertValues [.number "15".toList, .text [], .text [], .text "Hawaii".toList] ∧
      insertQuery ["15".toList, [], [], "Hawai'i".toList] ≠
        insertValues [.number "15".toList, .text [], .text [], .text "Hawai'i".toList] := by
  constructor
  · refine (insertQuery_iff ["15".toList, [], [], "Hawaii".toList] (List.cons_ne_nil _ _)).mpr ?_
    -- Columns 1 to 3 are between quotes.
    rintro (_ | _ | _ | _ | c) text h
    · exact fun h => by cases h
    · cases h
      exact fun _ => List.not_mem_nil
    · cases h
      exact fun _ => List.not_mem_nil
    · cases h
      exact fun _ => show '\'' ∉ "Hawaii".toList by decide
    · cases h
  · intro h
    have hall := (insertQuery_iff ["15".toList, [], [], "Hawai'i".toList] (List.cons_ne_nil _ _)).mp h
    have hquote : ¬ '\'' ∉ "Hawai'i".toList := by decide
    exact hquote (hall 3 _ rfl rfl)

theorem Loadable.insertQuery (h : Loadable data) : insertQuery data = insertValues (recordValues 0 data) :=
  (insertQuery_iff data h.ne_nil).mpr h.unquoted

theorem Loadable.values_ne_nil (h : Loadable data) : recordValues 0 data ≠ [] := by
  obtain ⟨text, data, rfl⟩ := List.exists_cons_of_ne_nil h.ne_nil
  exact List.cons_ne_nil _ _

/-! ## The page

`load` is the page after the button has been pressed. `fopen` and `fgetcsv` are given by the records of the files.
-/

inductive Echo
  | beginFail
  | inserted (row : Int)
  | commitFail
  | rollbackFail
  | failed
  | invalidPath
  deriving DecidableEq

/-- A connection: `pg_exec`, and whether it succeeds. -/
structure Client (δ : Type) where
  exec : Text → δ → δ × Bool

variable {δ : Type}

/-- The loop over the records, with `$row` and `$is_success`. -/
def insertRecords (client : Client δ) : (file : List Record) → (row isSuccess : Nat) → δ → (Nat × Nat) × δ
  | [], row, isSuccess, d => ((row, isSuccess), d)
  | data :: file, row, isSuccess, d =>
    if row = 1 then insertRecords client file (row + 1) isSuccess d
    else
      let (d, ret) := client.exec (insertQuery data) d
      insertRecords client file (row + 1) (if ret then 0 else 1) d

/-- A request, with the path that was sent by the button; `fopen` finds a file at a path, or none. -/
def load (client : Client δ) (fopen : Text → Option (List Record)) (request : Option Text) (d : δ) :
    δ × List Echo :=
  let path := request.bind fun path => if path.length > 0 then some ("./".toList ++ path) else none
  let (d, ret) := client.exec "BEGIN TRANSACTION;".toList d
  let begun := if ret then [] else [.beginFail]
  match path.bind fopen with
  | none => (d, begun ++ if request.isSome then [.invalidPath] else [])
  | some file =>
    let ((row, isSuccess), d) := insertRecords client file 1 0 d
    if isSuccess = 0 then
      let (d, ret) := client.exec "COMMIT;".toList d
      (d, begun ++ [if ret then .inserted ((row : Int) - 2) else .commitFail])
    else
      let (d, ret) := client.exec "ROLLBACK;".toList d
      (d, begun ++ (if ret then [] else [.rollbackFail]) ++ [.failed])

/-! ## Transactions

A transaction of PostgreSQL has three states, and once a statement in it has failed nothing but its end is accepted.
`Client.Standard` asks for no more than this, and of insertions for those of proper values only.
-/

/-- What a connection sees: the table that is committed, and the one that a transaction has made of it unless
a statement of it has failed. -/
inductive View
  | idle (table : Table)
  | active (table working : Table)
  | aborted (table : Table)

def View.committed : View → Table
  | idle table => table
  | active table _ => table
  | aborted table => table

/-- What a server does with the statements of the page, as far as they insert proper values. `effect` is what such
values make of a table, unless they are refused. -/
structure Client.Standard (client : Client δ) (view : δ → View) (effect : Table → List Value → Option Table) :
    Prop where
  beginTransaction : ∀ {d table}, view d = .idle table →
    ∃ d', client.exec "BEGIN TRANSACTION;".toList d = (d', true) ∧ view d' = .active table table
  insert : ∀ {d table working working' vs}, vs ≠ [] → (∀ v ∈ vs, v.Proper) → view d = .active table working →
    effect working vs = some working' →
    ∃ d', client.exec (insertValues vs) d = (d', true) ∧ view d' = .active table working'
  refuse : ∀ {d table working vs}, vs ≠ [] → (∀ v ∈ vs, v.Proper) → view d = .active table working →
    effect working vs = none →
    ∃ d', client.exec (insertValues vs) d = (d', false) ∧ view d' = .aborted table
  /-- A transaction that has failed refuses everything. -/
  aborted : ∀ {d table vs}, vs ≠ [] → (∀ v ∈ vs, v.Proper) → view d = .aborted table →
    ∃ d', client.exec (insertValues vs) d = (d', false) ∧ view d' = .aborted table
  commit : ∀ {d table working}, view d = .active table working →
    ∃ d', client.exec "COMMIT;".toList d = (d', true) ∧ view d' = .idle working
  rollback : ∀ {d table}, view d = .aborted table →
    ∃ d', client.exec "ROLLBACK;".toList d = (d', true) ∧ view d' = .idle table

/-! ## A client

It takes the values off an insertion, and fails on statements of other forms.
-/

def parseInsert (query : Text) : Option (List Value) := do
  let s ← query.dropPrefix? "INSERT INTO gooi.POP_HOUSING_ESTIMATE_STATE VALUES (".toList
  let (values, rest) ← listOf ',' ')' value s.length s
  if rest = ";".toList then some values else none

/-- Values that are written come back. -/
theorem parseInsert_insertValues {vs : List Value} (hne : vs ≠ []) (hvs : ∀ v ∈ vs, v.Proper) :
    parseInsert (insertValues vs) = some vs := by
  have hlen := length_intercalate (List.cons_ne_nil ',' []) (vs.map (Value.write "NULL".toList))
  have hread : ∀ n, vs.length ≤ n →
      listOf ',' ')' value n ([','].intercalate (vs.map (Value.write "NULL".toList)) ++ ')' :: ";".toList) =
        some (vs, ";".toList) := fun n hn => listOf_write (by decide) hne hvs hn
  -- The values are read up to the parenthesis, given as many rounds as there are characters.
  unfold parseInsert insertValues
  rewrite [dropPrefix?_append]
  rw [Option.bind_eq_bind, Option.bind_some, hread]
  · rfl
  · rw [List.length_map] at hlen
    rw [List.length_append]
    exact hlen.trans (Nat.add_le_add_left (by decide) _)

def Client.reference (effect : Table → List Value → Option Table) : Client View where
  exec query d :=
    if query = "BEGIN TRANSACTION;".toList then
      match d with
      | .idle table => (.active table table, true)
      | d => (d, true)
    else if query = "COMMIT;".toList then
      match d with
      | .active _ working => (.idle working, true)
      | .aborted table => (.idle table, true)
      | d => (d, true)
    else if query = "ROLLBACK;".toList then (.idle d.committed, true)
    else
      match d with
      | .idle table => (.idle (((parseInsert query).bind (effect table)).getD table),
          ((parseInsert query).bind (effect table)).isSome)
      | .active table working =>
        match (parseInsert query).bind (effect working) with
        | some working => (.active table working, true)
        | none => (.aborted table, false)
      | .aborted table => (.aborted table, false)

theorem Client.reference_standard (effect : Table → List Value → Option Table) :
    (Client.reference effect).Standard id effect := by
  -- An insertion is none of the other three statements: it begins with another letter.
  have hother : ∀ vs, insertValues vs ≠ "BEGIN TRANSACTION;".toList ∧ insertValues vs ≠ "COMMIT;".toList ∧
      insertValues vs ≠ "ROLLBACK;".toList := by
    intro vs
    have hhead : (insertValues vs).head? = some 'I' := rfl
    refine ⟨?_, ?_, ?_⟩ <;>
    · intro heq
      rw [heq] at hhead
      exact absurd hhead (by decide)
  have hactive : ∀ {vs table working}, vs ≠ [] → (∀ v ∈ vs, v.Proper) →
      (reference effect).exec (insertValues vs) (.active table working) =
        match effect working vs with
        | some working => (.active table working, true)
        | none => (.aborted table, false) := by
    intro vs table working hne hvs
    obtain ⟨hbegin, hcommit, hrollback⟩ := hother vs
    simp only [reference, if_neg hbegin, if_neg hcommit, if_neg hrollback, parseInsert_insertValues hne hvs,
      Option.bind_some]
  constructor
  · rintro _ table rfl
    exact ⟨_, rfl, rfl⟩
  · rintro _ table working working' vs hne hvs rfl heffect
    exact ⟨_, by rw [hactive hne hvs, heffect], rfl⟩
  · rintro _ table working vs hne hvs rfl heffect
    exact ⟨_, by rw [hactive hne hvs, heffect], rfl⟩
  · rintro _ table vs _ _ rfl
    obtain ⟨hbegin, hcommit, hrollback⟩ := hother vs
    exact ⟨_, by simp only [reference, if_neg hbegin, if_neg hcommit, if_neg hrollback], rfl⟩
  · rintro _ table working rfl
    exact ⟨_, rfl, rfl⟩
  · rintro _ table rfl
    exact ⟨_, rfl, rfl⟩

variable {client : Client δ} {view : δ → View} {effect : Table → List Value → Option Table} {d : δ}
  {file records : List Record} {table table' working : Table}

/-! ## All or nothing

The flag `$is_success` is set anew by every insertion. It still tells whether one of them has failed, since a
transaction that has failed refuses all that come after.
-/

/-- The table with all records. -/
def insertAll (effect : Table → List Value → Option Table) (table : Table) (records : List Record) : Option Table :=
  records.foldlM (fun table data => effect table (recordValues 0 data)) table

theorem insertRecords_cons {d' : δ} {row : Nat} {ret : Bool} (hrow : 1 < row) (isSuccess : Nat)
    (hexec : client.exec (insertQuery data) d = (d', ret)) :
    insertRecords client (data :: records) row isSuccess d =
      insertRecords client records (row + 1) (if ret then 0 else 1) d' := by
  rw [insertRecords, if_neg (Nat.ne_of_gt hrow), hexec]

/-- After a failure every insertion fails, and the flag stays set. -/
theorem insertRecords_aborted (h : client.Standard view effect) (hrecords : ∀ data ∈ records, Loadable data)
    (hd : view d = .aborted table) {row : Nat} (hrow : 1 < row) :
    ∃ d', insertRecords client records row 1 d = ((row + records.length, 1), d') ∧ view d' = .aborted table := by
  -- Over the records; each of them is refused.
  induction records generalizing row d with
  | nil => exact ⟨d, rfl, hd⟩
  | cons data records ih =>
      obtain ⟨hdata, hrest⟩ := List.forall_mem_cons.mp hrecords
      obtain ⟨d₁, hexec, hview⟩ := h.aborted hdata.values_ne_nil hdata.proper hd
      rw [← hdata.insertQuery] at hexec
      obtain ⟨d', hrun, hend⟩ := ih hrest hview (Nat.lt_succ_of_lt hrow)
      refine ⟨d', ?_, hend⟩
      rw [insertRecords_cons hrow 1 hexec, List.length_cons, ← Nat.add_assoc, Nat.add_right_comm]
      exact hrun

/-- The flag tells whether the transaction has failed. -/
theorem insertRecords_active (h : client.Standard view effect) (hrecords : ∀ data ∈ records, Loadable data)
    (hd : view d = .active table working) {row : Nat} (hrow : 1 < row) :
    ∃ d' flag, insertRecords client records row 0 d = ((row + records.length, flag), d') ∧
      match insertAll effect working records with
      | some working' => flag = 0 ∧ view d' = .active table working'
      | none => flag = 1 ∧ view d' = .aborted table := by
  -- Over the records. When one is refused, `insertRecords_aborted` has the rest.
  induction records generalizing row d working with
  | nil => exact ⟨d, 0, rfl, rfl, hd⟩
  | cons data records ih =>
      obtain ⟨hdata, hrest⟩ := List.forall_mem_cons.mp hrecords
      rw [insertAll, List.foldlM_cons, List.length_cons, ← Nat.add_assoc, Nat.add_right_comm]
      cases heffect : effect working (recordValues 0 data) with
      | some working' =>
          obtain ⟨d₁, hexec, hview⟩ := h.insert hdata.values_ne_nil hdata.proper hd heffect
          rw [← hdata.insertQuery] at hexec
          obtain ⟨d', flag, hrun, hend⟩ := ih hrest hview (Nat.lt_succ_of_lt hrow)
          exact ⟨d', flag, (insertRecords_cons hrow 0 hexec).trans hrun, hend⟩
      | none =>
          obtain ⟨d₁, hexec, hview⟩ := h.refuse hdata.values_ne_nil hdata.proper hd heffect
          rw [← hdata.insertQuery] at hexec
          obtain ⟨d', hrun, hend⟩ := insertRecords_aborted h hrest hview (Nat.lt_succ_of_lt hrow)
          exact ⟨d', 1, (insertRecords_cons hrow 0 hexec).trans hrun, rfl, hend⟩

/-- The path that is opened for a text in the form. -/
def pathOf (text : Text) : Text := "./".toList ++ text

theorem load_apply (h : client.Standard view effect) (hd : view d = .idle table)
    {fopen : Text → Option (List Record)} {path : Text} (hpath : path ≠ [])
    (hfile : fopen (pathOf path) = some file) (hrecords : ∀ data ∈ file.tail, Loadable data) :
    ∃ d', load client fopen (some path) d =
        (d', [if (insertAll effect table file.tail).isSome then .inserted ((file.length : Int) - 1) else .failed]) ∧
      view d' = .idle ((insertAll effect table file.tail).getD table) := by
  obtain ⟨d₀, hbegin, hview₀⟩ := h.beginTransaction hd
  have hopen : ((some path).bind fun path => if path.length > 0 then some ("./".toList ++ path) else none).bind
      fopen = some file := by
    rw [Option.bind_some, if_pos (List.length_pos_of_ne_nil hpath)]
    exact hfile
  -- the first record is skipped, and the others are counted behind it
  obtain ⟨d₁, flag, row, hrun, hrow, hend⟩ : ∃ d₁ flag row,
      insertRecords client file 1 0 d₀ = ((row, flag), d₁) ∧
      (row : Int) - 2 = (file.length : Int) - 1 ∧
      match insertAll effect table file.tail with
      | some working' => flag = 0 ∧ view d₁ = .active table working'
      | none => flag = 1 ∧ view d₁ = .aborted table := by
    cases file with
    | nil => exact ⟨d₀, 0, 1, rfl, rfl, rfl, hview₀⟩
    | cons header records =>
        obtain ⟨d₁, flag, hrun, hend⟩ :=
          insertRecords_active h hrecords hview₀ (Nat.lt_succ_self 1)
        refine ⟨d₁, flag, 1 + 1 + records.length, ?_, by rw [List.length_cons]; omega, hend⟩
        rw [insertRecords, if_pos rfl]
        exact hrun
  -- By what the insertions come to.
  cases hall : insertAll effect table file.tail with
  | some working =>
      rw [hall] at hend
      obtain ⟨rfl, hview₁⟩ := hend
      obtain ⟨d₂, hcommit, hview₂⟩ := h.commit hview₁
      refine ⟨d₂, ?_, hview₂⟩
      simp only [load, hbegin, hopen, hrun, hcommit, hrow, if_true, List.nil_append, Option.isSome_some]
  | none =>
      rw [hall] at hend
      obtain ⟨rfl, hview₁⟩ := hend
      obtain ⟨d₂, hrollback, hview₂⟩ := h.rollback hview₁
      refine ⟨d₂, ?_, hview₂⟩
      simp only [load, hbegin, hopen, hrun, hrollback, if_true, List.nil_append, Nat.one_ne_zero, if_false,
        Option.isSome_none, Bool.false_eq_true]

/-- Values that are in the table as a row are refused, as by a key, and a row that is inserted stays. -/
def Keyed (effect : Table → List Value → Option Table) : Prop :=
  ∀ table table' vs, effect table vs = some table' →
    ∃ row, table' ~ row :: table ∧ ∀ other, row ∈ other → effect other vs = none

theorem insertAll_grows (hkeyed : Keyed effect) (h : insertAll effect table records = some table') :
    table ⊆ table' := by
  -- Over the records: each adds one row.
  induction records generalizing table with
  | nil =>
      cases h
      exact List.Subset.refl _
  | cons data records ih =>
      obtain ⟨next, hnext, hrest⟩ := Option.bind_eq_some_iff.mp h
      obtain ⟨row, hperm, -⟩ := hkeyed table next _ hnext
      exact fun r hr => ih hrest (hperm.mem_iff.mpr (List.mem_cons_of_mem _ hr))

/-- A table that all records were inserted into refuses the first of them. -/
theorem insertAll_again (hkeyed : Keyed effect) (hne : records ≠ [])
    (h : insertAll effect table records = some table') : insertAll effect table' records = none := by
  obtain ⟨data, records, rfl⟩ := List.exists_cons_of_ne_nil hne
  obtain ⟨next, hnext, hrest⟩ := Option.bind_eq_some_iff.mp h
  obtain ⟨row, hperm, hrefused⟩ := hkeyed table next _ hnext
  -- The row of the first record is still there at the end, and it is refused.
  have hmem : row ∈ table' := insertAll_grows hkeyed hrest (hperm.mem_iff.mpr List.mem_cons_self)
  rw [insertAll, List.foldlM_cons, hrefused table' hmem]
  rfl

/-- **Loading again.** With a key, a file that is loaded a second time changes nothing, whether it was loaded the
first time or not; and unless it has no records, it is said to fail. -/
theorem load_again (h : client.Standard view effect) (hkeyed : Keyed effect) (hd : view d = .idle table)
    (fopen : Text → Option (List Record)) (path : Text) (hpath : path ≠ [])
    (file : List Record) (hfile : fopen (pathOf path) = some file) (hrecords : ∀ data ∈ file.tail, Loadable data) :
    let once := load client fopen (some path) d
    let twice := load client fopen (some path) once.1
    view twice.1 = view once.1 ∧ (file.tail ≠ [] → twice.2 = [.failed]) := by
  obtain ⟨d₁, hload, hview₁⟩ := load_apply h hd hpath hfile hrecords
  obtain ⟨d₂, hagain, hview₂⟩ := load_apply h hview₁ hpath hfile hrecords
  simp only [hload, hagain]
  -- Without records the second time is like the first: nothing happens.
  by_cases hne : file.tail = []
  · refine ⟨?_, fun h => absurd hne h⟩
    rw [hview₂, hview₁, hne]
    rfl
  · have hnone : insertAll effect ((insertAll effect table file.tail).getD table) file.tail = none := by
      -- Either the file was loaded, and is refused now, or it was refused before as well.
      cases hall : insertAll effect table file.tail with
      | some table' => exact insertAll_again hkeyed hne hall
      | none => exact hall
    rw [hview₂, hview₁, hnone]
    exact ⟨rfl, fun _ => rfl⟩

/-- The columns of a row. -/
def Row.ofValues : List Value → Option Row
  | [.number state, .text region, .text division, .text name, .number popestimate2010, .number popestimate2011,
      .number huest_2010, .number huest_2011] =>
    some ⟨some (decimal state), some region, some division, some name, some (decimal popestimate2010),
      some (decimal popestimate2011), some (decimal huest_2010), some (decimal huest_2011)⟩
  | _ => none

/-- A table with a key inserts rows without NULL. -/
def referenceEffect (table : Table) (vs : List Value) : Option Table :=
  match Row.ofValues vs with
  | none => none
  | some row => if ∃ r ∈ table, r.state = row.state then none else some (table ++ [row])

theorem referenceEffect_keyed : Keyed referenceEffect := by
  intro table table' vs h
  unfold referenceEffect at h ⊢
  cases hrow : Row.ofValues vs with
  | none =>
      rw [hrow] at h
      cases h
  | some row =>
      rw [hrow] at h
      dsimp only at h ⊢
      -- Refused for its key, or appended.
      split at h
      · cases h
      · cases h
        exact ⟨row, List.perm_append_singleton row table, fun other hmem => if_pos ⟨row, hmem, rfl⟩⟩

/-- The names of the columns, and one record. -/
def alabamaFile : List Record :=
  [["State".toList], ["1".toList, "South".toList, "East South Central".toList, "Alabama".toList,
    "4784762".toList, "4803689".toList, "2173898".toList, "2182088".toList]]

theorem loadable_alabamaFile : ∀ data ∈ alabamaFile.tail, Loadable data := by
  refine List.forall_mem_singleton.mpr ⟨List.cons_ne_nil _ _, ?_, ?_⟩
  · intro c text h hquoted
    obtain ⟨hlow, hhigh⟩ : 1 ≤ c ∧ c ≤ 3 := by simpa [isQuoted] using hquoted
    obtain rfl | rfl | rfl : c = 1 ∨ c = 2 ∨ c = 3 := by omega
    all_goals
      cases h
      decide +kernel
  · decide +kernel

theorem load_again_alabama :
    let client := Client.reference referenceEffect
    let once := load client (fun _ => some alabamaFile) (some ['a']) (.idle [])
    let twice := load client (fun _ => some alabamaFile) (some ['a']) once.1
    twice.1 = once.1 ∧ twice.2 = [.failed] := by
  obtain ⟨hview, hfailed⟩ := load_again (Client.reference_standard referenceEffect) referenceEffect_keyed
    (d := .idle []) rfl (fun _ => some alabamaFile) ['a'] (by simp) alabamaFile rfl loadable_alabamaFile
  exact ⟨hview, hfailed (by simp [alabamaFile])⟩

end CS640.P5
