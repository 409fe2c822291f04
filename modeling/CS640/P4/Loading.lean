import CS640.Lib.Stages
import CS640.P4.Strtok
import Mathlib.Data.Multiset.Basic

/-!
# Loading the census

`main` of p4 makes the tables one after the other and loads each from its file. SQLite is a parameter: it
makes a table that is empty, and a statement that inserts values has them accepted as a row or refused, which
depends on the rows of the table and of the tables it refers to. A table that cannot be made is not loaded. The
rows of a table have no order; that of the statements decides which of them are accepted.

Nothing is said of statements that insert no proper values, so only files without any are considered. Main
results: `main_records`, which rows there are in the end; and `main_twice`, that loading again changes nothing.
Both start from tables without rows, as they are in a new database.
-/

namespace CS640.P4

open Lib.Reading Lib.Stages Lib.Values

variable {ρ : Type}

namespace Table

/-- The tables in the order in which `main` loads them. -/
def all : List Table :=
  [sumlev, sex, race, region, division, origin, huUnitStateLevel, popEstMetroMicro, popEstPrMunSexAge,
    popEstPrMunicipios, popEstPrSexAge, popEstStateAgeSexRaceOrigin, popEstCitiesTowns, popEstStateCounty,
    popEstNationStatePr]

/-- The tables whose lines `strtok` takes apart. -/
def usesStrtok : Table → Bool
  | sex | race | division | origin => true
  | _ => false

/-- The `REFERENCES` of a table in `load.h`. -/
def references : Table → List Table
  | huUnitStateLevel => [sumlev, region, division]
  | popEstPrMunSexAge => [sumlev]
  | popEstPrMunicipios => [sumlev]
  | popEstPrSexAge => [sumlev, sex]
  | popEstStateAgeSexRaceOrigin => [sumlev, region, division, sex, origin, race]
  | popEstCitiesTowns => [sumlev]
  | popEstStateCounty => [sumlev, region, division]
  | popEstNationStatePr => [sumlev, region, division]
  | _ => []

theorem mem_all (t : Table) : t ∈ all := by cases t <;> decide

/-- No table is loaded before one that it refers to. -/
theorem ordered_all : all.Pairwise fun t later => later ≠ t ∧ later ∉ t.references := by decide

theorem not_self (t : Table) : t ∉ t.references := by cases t <;> decide

end Table

/-! ## SQLite

What `main` relies on is said of the statements that it sends: those that make a table, those that insert proper
values, and four others, which leave all tables as they are.
-/

/-- The rows of each table, in no order. -/
abbrev Database (ρ : Type) := Table → Multiset ρ

/-- `sqlite3_exec`, for the statements `createTable_…` of `load.h` and for the other ones: the database after
it, and whether it failed. -/
structure SQLite (ρ : Type) where
  create : Table → Database ρ → Database ρ × Bool
  exec : List Char → Database ρ → Database ρ × Bool

/-- What SQLite does with the statements of `main`. The row that is stored for some values, if the types and
the constraints of the table let them in, is given by `admits`. -/
structure SQLite.Standard (sql : SQLite ρ) (admits : Table → Database ρ → List Value → Option ρ) : Prop where
  create_ok : ∀ {t db}, (sql.create t db).2 = false → (sql.create t db).1 = Function.update db t 0
  create_error : ∀ {t db}, (sql.create t db).2 = true → (sql.create t db).1 = db
  /-- A table without rows is referred to by none. -/
  create_empty : ∀ {t db}, db t = 0 → (sql.create t db).2 = false
  insert : ∀ {db} t {vs}, vs ≠ [] → (∀ v ∈ vs, v.Proper) →
    (sql.exec (insertValues t vs) db).1 =
      match admits t db vs with
      | some r => Function.update db t (r ::ₘ db t)
      | none => db
  pragma : ∀ db, (sql.exec "PRAGMA Foreign_Keys=ON".toList db).1 = db
  beginTransaction : ∀ db, (sql.exec "BEGIN TRANSACTION".toList db).1 = db
  commitTransaction : ∀ db, (sql.exec "COMMIT TRANSACTION".toList db).1 = db
  commit : ∀ db, (sql.exec "COMMIT".toList db).1 = db
  admits_congr : ∀ {t db db'} vs, db t = db' t → (∀ p ∈ t.references, db p = db' p) →
    admits t db vs = admits t db' vs

/-! ## A database

It takes the name of the table and the values off a statement. A row is accepted unless the table has it, and a
table with rows is not made anew while one that refers to it has rows as well.
-/

/-- The name of the table and the values of a statement. -/
def parseInsert (query : List Char) : Option (List Char × List Value) := do
  let s ← query.dropPrefix? "INSERT INTO ".toList
  let s' ← (s.dropWhile (· != ' ')).dropPrefix? " VALUES(".toList
  let (values, rest) ← listOf ',' ')' value s'.length s'
  if rest = [] then some (s.takeWhile (· != ' '), values) else none

def SQLite.reference : SQLite (List Value) where
  create t db :=
    if db t ≠ 0 ∧ ∃ u ∈ Table.all, t ∈ u.references ∧ db u ≠ 0 then (db, true)
    else (Function.update db t 0, false)
  exec query db :=
    match parseInsert query with
    | none => (db, false)
    | some (name, vs) =>
      match Table.all.find? (·.name == name) with
      | none => (db, true)
      | some t => if vs ∈ db t then (db, true) else (Function.update db t (vs ::ₘ db t), false)

def SQLite.referenceAdmits (t : Table) (db : Database (List Value)) (vs : List Value) : Option (List Value) :=
  if vs ∈ db t then none else some vs

theorem Table.find_name (t : Table) : Table.all.find? (·.name == t.name) = some t := by
  cases t <;> decide +kernel

/-- Values that are written come back. -/
theorem parseInsert_insertValues (t : Table) {vs : List Value} (hne : vs ≠ []) (hvs : ∀ v ∈ vs, v.Proper) :
    parseInsert (insertValues t vs) = some (t.name, vs) := by
  have hname : ∀ c ∈ t.name, (c != ' ') = true := List.all_eq_true.mp t.name_ne_space
  generalize htail : [','].intercalate (vs.map (Value.write nullToken)) ++ [')'] = s
  -- The name ends at the blank in front of `VALUES`.
  have htake : (t.name ++ (" VALUES(".toList ++ s)).takeWhile (· != ' ') = t.name := by
    rw [List.takeWhile_append_of_pos hname]
    simp
  have hdrop : (t.name ++ (" VALUES(".toList ++ s)).dropWhile (· != ' ') = " VALUES(".toList ++ s := by
    rw [List.dropWhile_append_of_pos hname]
    simp
  have hquery : insertValues t vs = "INSERT INTO ".toList ++ (t.name ++ (" VALUES(".toList ++ s)) := by
    unfold insertValues insertInto
    rw [htail, List.append_assoc, List.append_assoc]
  have hread : listOf ',' ')' value s.length s = some (vs, []) := by
    have hlen := length_intercalate (List.cons_ne_nil ',' []) (vs.map (Value.write nullToken))
    rw [← htail]
    exact listOf_write rfl hne hvs (by simpa using hlen)
  unfold parseInsert
  rewrite [hquery, dropPrefix?_append]
  simp only [Option.bind_eq_bind, Option.bind_some]
  rewrite [hdrop, dropPrefix?_append, htake]
  simp only [Option.bind_some, hread, if_true]

theorem SQLite.reference_standard : SQLite.reference.Standard SQLite.referenceAdmits where
  create_ok {t db} h := by
    simp only [SQLite.reference] at h ⊢
    split at h
    · cases h
    · next hnot => rw [if_neg hnot]
  create_error {t db} h := by
    simp only [SQLite.reference] at h ⊢
    split at h
    · next hyes => rw [if_pos hyes]
    · cases h
  create_empty {t db} h := by simp [SQLite.reference, h]
  insert {db} t {vs} hne hvs := by
    simp only [SQLite.reference, SQLite.referenceAdmits, parseInsert_insertValues t hne hvs, t.find_name]
    split <;> rfl
  pragma db := by
    -- None of the four other statements is an insertion.
    have hparse : parseInsert "PRAGMA Foreign_Keys=ON".toList = none := by decide +kernel
    simp only [SQLite.reference, hparse]
  beginTransaction db := by
    have hparse : parseInsert "BEGIN TRANSACTION".toList = none := by decide +kernel
    simp only [SQLite.reference, hparse]
  commitTransaction db := by
    have hparse : parseInsert "COMMIT TRANSACTION".toList = none := by decide +kernel
    simp only [SQLite.reference, hparse]
  commit db := by
    have hparse : parseInsert "COMMIT".toList = none := by decide +kernel
    simp only [SQLite.reference, hparse]
  admits_congr vs h _ := by rw [SQLite.referenceAdmits, SQLite.referenceAdmits, h]

/-! ## The program

`main` skips the line with the names of the columns and sends a statement for each line after it. Errors are printed
and otherwise passed over, so the program does not stop at a row that is refused.
-/

/-- What `getline` returns, call by call; `cur` has been read of the line at hand. -/
def getlines (cur : List Char) : List Char → List (List Char)
  | [] => if cur = [] then [] else [cur]
  | c :: s => if c = '\n' then cur :: getlines [] s else getlines (cur ++ [c]) s

/-- The statement for a line. -/
def statement (t : Table) (line : List Char) : Option (List Char) :=
  if t.usesStrtok then insertStrtok t line else insertLine t line

/-- The loop over the lines. An error is printed, and the loop goes on. -/
def loadLines (sql : SQLite ρ) (t : Table) : (lines : List (List Char)) → Database ρ → Option (Database ρ)
  | [], db => some db
  | line :: lines, db => do
    let stream ← statement t line
    loadLines sql t lines (sql.exec stream db).1

/-- One table. The first line of its file is skipped. -/
def load (sql : SQLite ρ) (t : Table) (file : List Char) (db : Database ρ) : Option (Database ρ) :=
  let (db, rc) := sql.create t db
  if rc = true then some db
  else do
    let db := (sql.exec "BEGIN TRANSACTION".toList db).1
    let db ← loadLines sql t (getlines [] file).tail db
    return (sql.exec "COMMIT TRANSACTION".toList db).1

/-- `main`, with the file of each table. -/
def main (sql : SQLite ρ) (files : Table → List Char) (db : Database ρ) : Option (Database ρ) := do
  let db := (sql.exec "PRAGMA Foreign_Keys=ON".toList db).1
  let db ← Table.all.foldlM (fun db t => load sql t (files t) db) db
  return (sql.exec "COMMIT".toList db).1

/-- The rows that are accepted of the given values, one after the other, in a table that is empty. -/
def rowsOf (admits : Table → Database ρ → List Value → Option ρ) (t : Table) (db : Database ρ)
    (vss : List (List Value)) : Multiset ρ :=
  vss.foldl (fun rows vs =>
    match admits t (Function.update db t rows) vs with
    | some r => r ::ₘ rows
    | none => rows) 0

/-- The statement for a line inserts the given values. -/
structure Inserts (t : Table) (line : List Char) (vs : List Value) : Prop where
  statement : statement t line = some (insertValues t vs)
  ne_nil : vs ≠ []
  proper : ∀ v ∈ vs, v.Proper

variable {sql : SQLite ρ} {admits : Table → Database ρ → List Value → Option ρ} {t : Table}
  {db : Database ρ} {lines : List (List Char)} {vss : List (List Value)}

/-! ## A table

What the statements for one table make of the database: the rows that are accepted are added to it, and no other
table changes.
-/

theorem loadLines_apply (h : sql.Standard admits) (hreads : List.Forall₂ (Inserts t) lines vss)
    (db : Database ρ) (rows : Multiset ρ) :
    loadLines sql t lines (Function.update db t rows) = some (Function.update db t
      (vss.foldl (fun rows vs =>
        match admits t (Function.update db t rows) vs with
        | some r => r ::ₘ rows
        | none => rows) rows)) := by
  -- Over the lines, for any rows that are in the table already.
  induction hreads generalizing rows with
  | nil => rfl
  | @cons line vs lines vss hline _ ih =>
      have hinsert : (sql.exec (insertValues t vs) (Function.update db t rows)).1 = _ :=
        h.insert t hline.ne_nil hline.proper
      rw [loadLines, hline.statement, Option.bind_eq_bind, Option.bind_some, List.foldl_cons, hinsert]
      -- The row is accepted, or refused and nothing changes.
      cases hadmits : admits t (Function.update db t rows) vs with
      | some r =>
          dsimp only
          rw [Function.update_self, Function.update_idem]
          exact ih (r ::ₘ rows)
      | none => exact ih rows

/-- A table is left as it is, or has the rows of its file that are accepted. -/
theorem load_apply (h : sql.Standard admits) {file : List Char}
    (hreads : List.Forall₂ (Inserts t) (getlines [] file).tail vss) (db : Database ρ) :
    load sql t file db =
      some (if (sql.create t db).2 = true then db else Function.update db t (rowsOf admits t db vss)) := by
  rw [load]
  rcases hcreate : sql.create t db with ⟨db', rc⟩
  -- The table could not be made, and is left as it is; or it is empty now.
  cases rc with
  | true =>
      have hkept : (sql.create t db).1 = db := h.create_error (by rw [hcreate])
      rw [hcreate] at hkept
      simpa using hkept
  | false =>
      have hmade : db' = Function.update db t 0 := by
        have hok : (sql.create t db).1 = Function.update db t 0 := h.create_ok (by rw [hcreate])
        rwa [hcreate] at hok
      have hlines := loadLines_apply h hreads db 0
      simp only [Bool.false_eq_true, if_false, h.beginTransaction, h.commitTransaction]
      rw [hmade, hlines]
      rfl

/-- The rows of a table depend on the tables it refers to only. -/
theorem rowsOf_congr (h : sql.Standard admits) {db db' : Database ρ}
    (hsame : ∀ p ∈ t.references, db p = db' p) (vss : List (List Value)) :
    rowsOf admits t db vss = rowsOf admits t db' vss := by
  have hadmits : ∀ rows vs, admits t (Function.update db t rows) vs =
      admits t (Function.update db' t rows) vs := by
    -- A statement looks at its own table and at the ones it refers to.
    intro rows vs
    apply h.admits_congr vs
    · rw [Function.update_self, Function.update_self]
    · intro p hp
      have hne : p ≠ t := by
        rintro rfl
        exact p.not_self hp
      rw [Function.update_of_ne hne, Function.update_of_ne hne]
      exact hsame p hp
  simp only [rowsOf, hadmits]

/-! ## All of them

Each table is a stage that depends on the tables it refers to, and these come before it. From `Lib.Stages` it
follows that the result is what each stage makes of it, so that running them again makes no difference.
-/

section Stages

variable (h : sql.Standard admits) {files : Table → List Char} {vss : Table → List (List Value)}

/-- A table, as a stage of the whole. -/
def stage (vss : Table → List (List Value)) (t : Table) : Stage Table (Multiset ρ) where
  index := t
  deps := t.references
  run db := if (sql.create t db).2 = true then db else Function.update db t (rowsOf admits t db (vss t))
  build db := rowsOf admits t db (vss t)
  build_congr hsame := rowsOf_congr h hsame _
  run_cases db := by
    split
    · exact Or.inl rfl
    · exact Or.inr rfl
  not_self := t.not_self

theorem foldlM_stages (hreads : ∀ t, List.Forall₂ (Inserts t) (getlines [] (files t)).tail (vss t))
    (tables : List Table) (db : Database ρ) :
    tables.foldlM (fun db t => load sql t (files t) db) db = some (runAll (tables.map (stage h vss)) db) := by
  -- Over the tables.
  induction tables generalizing db with
  | nil => rfl
  | cons t tables ih =>
      rw [List.foldlM_cons, load_apply h (hreads t), Option.bind_eq_bind, Option.bind_some, ih]
      rfl

theorem main_apply (hreads : ∀ t, List.Forall₂ (Inserts t) (getlines [] (files t)).tail (vss t))
    (db : Database ρ) : main sql files db = some (runAll (Table.all.map (stage h vss)) db) := by
  rw [main, h.pragma, foldlM_stages h hreads, Option.bind_eq_bind, Option.bind_some, h.commit]
  rfl

/-- In the end every table has the rows that are accepted of its file. -/
theorem built_main : ∀ t, (runAll (Table.all.map (stage h vss)) fun _ => 0) t =
    rowsOf admits t (runAll (Table.all.map (stage h vss)) fun _ => 0) (vss t) := by
  have horder : Ordered (Table.all.map (stage h vss)) := by
    rw [Ordered, List.pairwise_map]
    exact Table.ordered_all
  have hbuilt := built_runAll (s := fun _ => 0) horder (a := 0) ?_ ?_
  · intro t
    exact hbuilt _ (List.mem_map_of_mem t.mem_all)
  · intro st hst s hs
    -- On a new database no table fails to be made.
    obtain ⟨t, -, rfl⟩ := List.mem_map.mp hst
    have hmade : (sql.create t s).2 = false := h.create_empty hs
    exact if_neg (by simp [hmade])
  · exact fun _ _ => rfl

end Stages

/-! ## Files

A file has a line with the names of the columns, and one for each record. Which records are put into statements as
they are was settled for a line; here the values have to be proper as well.
-/

/-- What ends a line, for its last field to be a value. -/
def Table.ending (t : Table) : List Char := if t.usesStrtok then [] else ['\r']

/-- A record that can be loaded: its statement inserts its fields as values, and these are proper, so that there
are numerals in the columns of numbers. -/
def Loadable (t : Table) (fields : List Field) : Prop :=
  fields ≠ [] ∧ (∀ f ∈ fields, '\n' ∉ f.text) ∧ (∀ v ∈ row t fields, v.Proper) ∧
    match t.usesStrtok with
    | true => ∃ texts : List (List Char), fields = texts.map .plain ∧ (∀ text ∈ texts, Uncut text) ∧
        ∀ (i : Nat) (text : List Char), texts[i]? = some text → LoadsStrtok (t.isText i) text
    | false => (∀ f ∈ fields, f.Valid) ∧
        ∀ (i : Nat) (f : Field), fields[i]? = some f → f.Loads (t.isText i)

/-- A file of records, below a line with the names of the columns. -/
def fileOf (t : Table) (header : List Char) (records : List (List Field)) : List Char :=
  header ++ '\n' :: records.flatMap fun fields => line t.ending fields ++ ['\n']

theorem getlines_line {cur l s : List Char} (hl : '\n' ∉ l) :
    getlines cur (l ++ '\n' :: s) = (cur ++ l) :: getlines [] s := by
  -- Up to the newline, one character after the other.
  induction l generalizing cur with
  | nil => simp [getlines]
  | cons c l ih =>
      obtain ⟨hc, hl⟩ := List.ne_and_not_mem_of_not_mem_cons hl
      rw [List.cons_append, getlines, if_neg hc.symm, ih hl]
      simp

theorem not_mem_line {ending : List Char} (hending : '\n' ∉ ending) {fields : List Field}
    (h : ∀ f ∈ fields, '\n' ∉ f.text) : '\n' ∉ line ending fields := by
  have hsource : ∀ f : Field, '\n' ∉ f.text → '\n' ∉ f.source := by
    intro f hf
    cases f with
    | plain text => exact hf
    | quoted text =>
        have hf : '\n' ∉ text := hf
        simp [Field.source, hf]
  -- Neither the fields nor the commas between them have a newline.
  induction fields with
  | nil => exact hending
  | cons f fields ih =>
      obtain ⟨hf, hrest⟩ := List.forall_mem_cons.mp h
      cases fields with
      | nil => simp [line, hsource f hf, hending]
      | cons g fields =>
          have hline := ih hrest
          simp [line, hsource f hf, hline]

theorem inserts_line {fields : List Field} (h : Loadable t fields) :
    Inserts t (line t.ending fields) (row t fields) := by
  obtain ⟨hne, -, hproper, h⟩ := h
  have hrow : row t fields ≠ [] := by
    rw [← List.length_pos_iff_ne_nil, row, length_values]
    exact List.length_pos_of_ne_nil hne
  refine ⟨?_, hrow, hproper⟩
  unfold statement Table.ending
  -- By the way the line is taken apart.
  cases hstrtok : t.usesStrtok with
  | true =>
      rw [hstrtok] at h
      obtain ⟨texts, rfl, huncut, hloads⟩ := h
      have htexts : texts ≠ [] := by simpa using hne
      exact (insertStrtok_iff t texts htexts huncut [] (Or.inl rfl)).2 ⟨rfl, hloads⟩
  | false =>
      rw [hstrtok] at h
      exact (insertLine_iff t fields hne h.1).2 h.2

/-- The lines of a file are its records. -/
theorem inserts_fileOf {header : List Char} (hheader : '\n' ∉ header) {records : List (List Field)}
    (h : ∀ fields ∈ records, Loadable t fields) :
    List.Forall₂ (Inserts t) (getlines [] (fileOf t header records)).tail (records.map (row t)) := by
  have hending : '\n' ∉ t.ending := by
    rw [Table.ending]
    split <;> simp
  rw [fileOf, getlines_line hheader, List.tail_cons]
  -- Over the records.
  induction records with
  | nil => exact .nil
  | cons fields records ih =>
      obtain ⟨hfields, hrest⟩ := List.forall_mem_cons.mp h
      rw [List.flatMap_cons, List.append_assoc, List.singleton_append,
        getlines_line (not_mem_line hending hfields.2.1)]
      exact .cons (inserts_line hfields) (ih hrest)

/-- **The census database.** From files of records, and tables without rows, each table gets the rows of its
records, taken in their order, that its constraints let in, given the rows in the tables that it refers to. -/
theorem main_records (h : sql.Standard admits) (header : Table → List Char)
    (records : Table → List (List Field)) (hheader : ∀ t, '\n' ∉ header t)
    (hrecords : ∀ t, ∀ fields ∈ records t, Loadable t fields) :
    ∃ db, main sql (fun t => fileOf t (header t) (records t)) (fun _ => 0) = some db ∧
      ∀ t, db t = rowsOf admits t db ((records t).map (row t)) := by
  have hreads := fun t => inserts_fileOf (t := t) (hheader t) (hrecords t)
  exact ⟨_, main_apply h hreads _, built_main h⟩

/-- Records for two of the tables. -/
def twoTables : Table → List (List Field)
  | .sumlev => [[.plain ['0', '1', '0'], .plain ['N']], [.plain ['0', '1', '0'], .plain ['N']]]
  | .sex => [[.plain ['1'], .plain ['M']]]
  | _ => []

theorem loadable_twoTables : ∀ t, ∀ fields ∈ twoTables t, Loadable t fields := by
  intro t fields h
  cases t
  case sumlev =>
    obtain rfl : fields = [.plain ['0', '1', '0'], .plain ['N']] := by simpa [twoTables] using h
    refine ⟨by simp, by simp [Field.text], by decide, by simp [Field.Valid], ?_⟩
    rintro (_ | _ | i) f hf
    · cases hf
      exact ⟨by simp [Field.Read, Field.text], show '\'' ∉ ['0', '1', '0'] by decide⟩
    · cases hf
      exact ⟨⟨by simp [Field.text], by simp⟩, show _ ≠ nullToken by decide⟩
    · cases hf
  case sex =>
    obtain rfl : fields = [.plain ['1'], .plain ['M']] := by simpa [twoTables] using h
    refine ⟨by simp, by simp [Field.text], by decide, [['1'], ['M']], rfl, by simp [Uncut], ?_⟩
    rintro (_ | _ | i) text htext
    · cases htext
      exact ⟨by simp, fun h => by cases h⟩
    · cases htext
      exact ⟨by simp, fun _ => show '\'' ∉ ['M'] by decide⟩
    · cases htext
  all_goals exact absurd h List.not_mem_nil

theorem main_records_two : ∃ db,
    main SQLite.reference (fun t => fileOf t ['h'] (twoTables t)) (fun _ => 0) = some db ∧
      db .sumlev = {[.number ['0', '1', '0'], .text ['N']]} := by
  obtain ⟨db, hmain, hrows⟩ := main_records SQLite.reference_standard (fun _ => ['h']) twoTables
    (fun _ => by decide) loadable_twoTables
  exact ⟨db, hmain, hrows .sumlev⟩

/-- **Loading again** changes nothing, whichever tables can be made anew, if each line of the files but the first
inserts proper values. -/
theorem main_twice (h : sql.Standard admits) (files : Table → List Char)
    (hfiles : ∀ t, ∀ line ∈ (getlines [] (files t)).tail, ∃ vs, Inserts t line vs) :
    ∃ db, main sql files (fun _ => 0) = some db ∧ main sql files db = some db := by
  have hvss : ∀ t, ∃ vss, List.Forall₂ (Inserts t) (getlines [] (files t)).tail vss := by
    intro t
    have hlines := hfiles t
    generalize (getlines [] (files t)).tail = lines at hlines
    -- One list of values for each line.
    induction lines with
    | nil => exact ⟨[], .nil⟩
    | cons line lines ih =>
        obtain ⟨⟨vs, hvs⟩, hrest⟩ := List.forall_mem_cons.mp hlines
        obtain ⟨vss, hvss⟩ := ih hrest
        exact ⟨vs :: vss, .cons hvs hvss⟩
  choose vss hreads using hvss
  refine ⟨_, main_apply h hreads _, ?_⟩
  rw [main_apply h hreads, runAll_of_built]
  intro st hst
  obtain ⟨t, -, rfl⟩ := List.mem_map.mp hst
  exact built_main h t

theorem exists_of_inserts (h : List.Forall₂ (Inserts t) lines vss) : ∀ line ∈ lines, ∃ vs, Inserts t line vs := by
  induction h with
  | nil => exact fun _ h => by cases h
  | cons hline _ ih => exact List.forall_mem_cons.mpr ⟨⟨_, hline⟩, ih⟩

theorem main_twice_two : ∃ db,
    main SQLite.reference (fun t => fileOf t ['h'] (twoTables t)) (fun _ => 0) = some db ∧
      main SQLite.reference (fun t => fileOf t ['h'] (twoTables t)) db = some db :=
  main_twice SQLite.reference_standard _ fun t =>
    exists_of_inserts (inserts_fileOf (by decide) (loadable_twoTables t))

end CS640.P4
