import CS640.P5.Desks

/-!
# The site

Any number of visitors send requests to the pages in any order. Each has a session, and all use one table.
`site_simulates`: whatever they do, the table is the one that the desks say, and so is every session. So a commit
writes what its visitor has submitted last over the row of the state that was visited last, and a search that
was left through the index takes the draft away. `last_commit_wins`: of several commits to a row the last one
stays, and what the others wrote is lost.

The desks say nothing of quotes and wildcards, and the servers are relied on for statements of the expected forms
only. So the visitors type none (`Act.Unquoted`), and press the buttons that their desks offer.

The proof is a simulation: `Held` relates a session to a desk, `Simulates` the whole site to the office,
`serve_simulates` carries one request, and the rest is an induction on the requests.
-/

namespace CS640.P5

open Lib.Reading Lib.Values
open scoped List

/-! ## Requests

The pages with what they share. A visitor is known to the site by the session only, and the table is the same for
all.
-/

/-- `delete.php`: what a request makes of the table, and whether it succeeded if anything was tried. -/
def delete (server : Server) (confirm : Text) (table : Table) : Table × Option Bool :=
  if confirm = "Yes".toList then
    let ret := server.exec table "TRUNCATE TABLE gooi.POP_HOUSING_ESTIMATE_STATE;".toList
    (ret.1, some ret.2.isSome)
  else (table, none)

/-- A request to one of the pages. -/
inductive Call
  | inspect (request : Request)
  | index (search : Option Post)
  | load (path : Option Text)
  | delete (confirm : Text)

/-- The server as each page uses it: `load.php` opens a connection for its transaction, and closing it leaves
what was committed. -/
structure Site (δ : Type) where
  host : Host
  client : Client δ
  connect : Table → δ
  close : δ → Table
  fopen : Text → Option (List Record)

structure Shared (V : Type) where
  visitors : V → Visitor
  table : Table

variable {δ V : Type} [DecidableEq V]

def serve (site : Site δ) (s : Shared V) (v : V) : Call → Shared V
  | .inspect request =>
    let w := (inspect site.host.toServer request ⟨(s.visitors v).session, s.table⟩).1
    ⟨Function.update s.visitors v { s.visitors v with session := w.session }, w.table⟩
  | .index search =>
    let w := (index site.host search (s.visitors v) s.table).1
    ⟨Function.update s.visitors v w.1, w.2⟩
  | .load path => ⟨s.visitors, site.close (load site.client site.fopen path (site.connect s.table)).1⟩
  | .delete confirm => ⟨s.visitors, (delete site.host.toServer confirm s.table).1⟩

/-- The request of what a visitor does. -/
def Act.call : Act → Call
  | .visit state => .inspect (Request.link (Nat.toDigits 10 state))
  | .edit => .inspect (Request.press .EditBtn "Edit".toList)
  | .submit typed => .inspect typed.request
  | .cancel => .inspect (Request.press .CancelBtn "Cancel".toList)
  | .commit => .inspect (Request.press .CommitBtn "Commit".toList)
  | .search form => .index (some form.post)
  | .index => .index none
  | .load path => .load path
  | .delete confirm => .delete confirm

def serveAll (site : Site δ) (acts : List (V × Act)) (s : Shared V) : Shared V :=
  acts.foldl (fun s p => serve site s p.1 p.2.call) s

/-- No single quotes are typed, and no wildcards; and a file that is loaded has records that can be. -/
def Act.Unquoted (fopen : Text → Option (List Record)) : Act → Prop
  | .submit typed => '\'' ∉ typed.region ∧ '\'' ∉ typed.division ∧ '\'' ∉ typed.stname
  | .search form => form.Plain
  | .load path => ∀ file, opened fopen path = some file → ∀ data ∈ file.tail, Loadable data
  | _ => True

/-- What the pages rely on. -/
structure Site.Standard (site : Site δ) (lower : Char → Char) (effect : Table → List Value → Option Table) :
    Prop where
  host : site.host.Standard lower
  client : ∃ view, site.client.Standard view effect ∧ (∀ table, view (site.connect table) = .idle table) ∧
    ∀ d, site.close d = (view d).committed
  truncate : ∀ table,
    (site.host.exec table "TRUNCATE TABLE gooi.POP_HOUSING_ESTIMATE_STATE;".toList).1 = []
  /-- The rows of a table have no order. -/
  effect_perm : ∀ {table table' vs working}, table ~ table' → effect table vs = some working →
    ∃ working', effect table' vs = some working' ∧ working ~ working'

variable {site : Site δ} {lower : Char → Char} {effect : Table → List Value → Option Table} {server : Server}
  {session : Session} {table table' : Table} {visitor : Visitor} {desk : Desk} {act : Act} {v : V}
  {id : Option Text} {typed : Typed} {t : Text}

/-! ## Requests to the page of a state

What Submit leaves in the session, and what Commit sends of it.
-/

/-- What Submit puts into the session. -/
def Typed.drafted (typed : Typed) (id : Option Text) : List (Option Text) :=
  [id, some typed.region, some typed.division, some typed.stname, some typed.popest2010.text,
    some typed.popest2011.text, some typed.huest2010.text, some typed.huest2011.text]

theorem inspect_press_commit : (inspect server (Request.press .CommitBtn "Commit".toList) ⟨session, table⟩).1 =
    ⟨session, (server.exec (server.exec table (updateQuery session.updates session.state)).1
      (lookupQuery session.state)).1⟩ := rfl

/-! ## Drafts

The texts in a session are put into an update only when it is sent. Whichever state it is sent for then, it is
read as the row of the draft.
-/

/-- How a number in the session is read. -/
def ReadsNumber (value : Option Text) (n : Option Nat) : Prop :=
  ∀ c s, ¬ c.isDigit → numberColumn (getTypeNow value 0 ++ c :: s) = some (n, c :: s)

def ReadsText (value : Option Text) (t : Option Text) : Prop :=
  ∀ s, s.head? = some ',' → textColumn (getTypeNow value 1 ++ s) = some (t, s)

theorem readsNumber_none : ReadsNumber none none := by
  intro c s _
  show numberColumn ("NULL".toList ++ c :: s) = _
  rw [numberColumn, orWord_append]

theorem readsText_none : ReadsText none none := by
  intro s _
  show textColumn ("NULL".toList ++ s) = _
  rw [textColumn, orWord_append]

theorem readsNumber_figures (f : Figures) : ReadsNumber (some f.text) f.stored :=
  fun _ _ hc => f.read rfl hc

theorem readsText_saved (ht : '\'' ∉ t) : ReadsText (some t) (savedText t) := by
  rw [savedText]
  -- A text that counts as empty becomes NULL, any other is padded.
  cases hempty : empty t with
  | true => exact reads_empty hempty
  | false => exact reads_padded hempty ht

/-- The state of a page. -/
theorem readsNumber_page (page : Option Nat) :
    ReadsNumber (page.map (Nat.toDigits 10)) (page.bind fun k => if k = 0 then none else some k) := by
  -- Without a page there is no state; the state 0 is stored as none.
  cases page with
  | none => exact readsNumber_none
  | some k =>
      have hread := readsNumber_figures (.ofColumn (some k))
      have hstored : (Figures.ofColumn (some k)).stored = if k = 0 then none else some k := by
        by_cases hk : k = 0
        · subst hk
          rfl
        · rw [if_neg hk]
          exact Figures.stored_ofColumn_iff.mpr (by simpa using hk)
      rw [hstored] at hread
      exact hread

/-- Columns that are read are what an update sets, whichever row it is for. -/
theorem parse_update {state region division name popestimate2010 popestimate2011 huest_2010 huest_2011 :
      Option Text} {row : Row} {key : Figures} (hkey : key.text ≠ []) (hstate : ReadsNumber state row.state)
    (hregion : ReadsText region row.region) (hdivision : ReadsText division row.division)
    (hname : ReadsText name row.name) (hpop2010 : ReadsNumber popestimate2010 row.popestimate2010)
    (hpop2011 : ReadsNumber popestimate2011 row.popestimate2011) (hhu2010 : ReadsNumber huest_2010 row.huest_2010)
    (hhu2011 : ReadsNumber huest_2011 row.huest_2011) :
    parseUpdate (updateQuery [state, region, division, name, popestimate2010, popestimate2011, huest_2010,
      huest_2011] (some key.text)) = some ⟨row, decimal key.text⟩ := by
  have hcomma : ¬ (',' : Char).isDigit := by decide
  have hblank : ¬ (' ' : Char).isDigit := by decide
  have hquery : updateQuery [state, region, division, name, popestimate2010, popestimate2011, huest_2010,
      huest_2011] (some key.text) =
      "UPDATE gooi.pop_housing_estimate_state SET state = ".toList ++ (getTypeNow state 0 ++
      (", region = ".toList ++ (getTypeNow region 1 ++
      (", division = ".toList ++ (getTypeNow division 1 ++
      (", name = ".toList ++ (getTypeNow name 1 ++
      (", popestimate2010 = ".toList ++ (getTypeNow popestimate2010 0 ++
      (", popestimate2011 = ".toList ++ (getTypeNow popestimate2011 0 ++
      (", huest_2010 = ".toList ++ (getTypeNow huest_2010 0 ++
      (", huest_2011 = ".toList ++ (getTypeNow huest_2011 0 ++
      (" WHERE state = ".toList ++ (key.text ++ ";".toList))))))))))))))))) := by
    unfold updateQuery
    simp only [List.getD_cons_zero, List.getD_cons_succ, Option.getD_some, List.append_assoc]
  rw [hquery, parseUpdate_eq_some_iff]
  exact ⟨_, _, _, _, _, _, _, _, _,
    after_append.trans (hstate _ _ hcomma),
    after_append.trans (hregion _ rfl),
    after_append.trans (hdivision _ rfl),
    after_append.trans (hname _ rfl),
    after_append.trans (hpop2010 _ _ hcomma),
    after_append.trans (hpop2011 _ _ hcomma),
    after_append.trans (hhu2010 _ _ hcomma),
    after_append.trans (hhu2011 _ _ hblank),
    dropPrefix?_append, lastNumber_eq_some_iff.2 ⟨key.text, hkey, key.digits, rfl, rfl⟩⟩

/-- The updates in the session make the row of a draft. -/
def Drafts (updates : List (Option Text)) (draft : Row) : Prop :=
  ∀ k, parseUpdate (updateQuery updates (some (Nat.toDigits 10 k))) = some ⟨draft, k⟩

theorem parse_page {values : Row} {updates : List (Option Text)} {k : Nat}
    (h : parseUpdate (updateQuery updates (some (Figures.ofColumn (some k)).text)) =
      some ⟨values, decimal (Figures.ofColumn (some k)).text⟩) :
    parseUpdate (updateQuery updates (some (Nat.toDigits 10 k))) = some ⟨values, k⟩ := by
  rw [Figures.decimal_ofColumn] at h
  exact h

theorem page_ne_nil (k : Nat) : (Figures.ofColumn (some k)).text ≠ [] :=
  fun hnil => Option.some_ne_none k (Figures.ofColumn_eq_nil.mp hnil)

theorem drafts_nothing : Drafts [] Row.null := fun k =>
  parse_page (parse_update (page_ne_nil k) readsNumber_none readsText_none readsText_none
    readsText_none readsNumber_none readsNumber_none readsNumber_none readsNumber_none)

theorem drafts_saved (page : Option Nat) (hregion : '\'' ∉ typed.region) (hdivision : '\'' ∉ typed.division)
    (hname : '\'' ∉ typed.stname) :
    Drafts (typed.drafted (page.map (Nat.toDigits 10))) (typed.saved page) := fun k =>
  parse_page (parse_update (page_ne_nil k) (readsNumber_page page) (readsText_saved hregion)
    (readsText_saved hdivision) (readsText_saved hname) (readsNumber_figures _) (readsNumber_figures _)
    (readsNumber_figures _) (readsNumber_figures _))

/-! ## One request

Each act is followed through the page that serves it. The desks of the other visitors are not touched, since their
sessions are not; only the table is shared.
-/

/-- The session is what lies on the desk. -/
structure Held (visitor : Visitor) (desk : Desk) : Prop where
  page : visitor.session.state = desk.page.map (Nat.toDigits 10)
  draft : Drafts visitor.session.updates desk.draft
  searched : visitor.backup.isSome = desk.searched

theorem held_new : Held Visitor.new Desk.new := ⟨rfl, drafts_nothing, rfl⟩

structure Simulates (s : Shared V) (office : Office V) : Prop where
  held : ∀ v, Held (s.visitors v) (office.desks v)
  table : s.table ~ office.table

theorem Simulates.update {s : Shared V} {office : Office V} (h : Simulates s office) (v : V)
    (hheld : Held visitor desk) (htable : table ~ table') :
    Simulates ⟨Function.update s.visitors v visitor, table⟩ ⟨Function.update office.desks v desk, table'⟩ where
  held w := by
    show Held (Function.update s.visitors v visitor w) (Function.update office.desks v desk w)
    -- The visitor of the request, and the others.
    by_cases hw : w = v
    · subst hw
      rw [Function.update_self, Function.update_self]
      exact hheld
    · rw [Function.update_of_ne hw, Function.update_of_ne hw]
      exact h.held w
  table := htable

/-- What lies on the other desks, if nothing is changed on this one. -/
theorem Simulates.keep {s : Shared V} {office : Office V} (h : Simulates s office) (v : V)
    (htable : table ~ table') : Simulates ⟨s.visitors, table⟩
      ⟨Function.update office.desks v (office.desks v), table'⟩ where
  held w := by
    show Held (s.visitors w) (Function.update office.desks v (office.desks v) w)
    rw [Function.update_eq_self]
    exact h.held w
  table := htable

/-- A lookup leaves the table. -/
theorem lookup_page (h : site.Standard lower effect) {page : Option Nat} (hpage : page ≠ none) (table : Table) :
    (site.host.exec table (lookupQuery (page.map (Nat.toDigits 10)))).1 ~ table := by
  obtain ⟨k, rfl⟩ := Option.ne_none_iff_exists'.mp hpage
  exact look_perm h.host.toStandard (page_ne_nil k) table

/-- A commit makes the update of the desk. -/
theorem commit_page (h : site.Standard lower effect) {updates : List (Option Text)} {draft : Row}
    (hdraft : Drafts updates draft) {page : Option Nat} (hpage : page ≠ none) (htable : table ~ table') :
    (site.host.exec table (updateQuery updates (page.map (Nat.toDigits 10)))).1 ~
      ((page.map fun key => (⟨draft, key⟩ : Update)).map fun u => u.apply table').getD table' := by
  obtain ⟨k, rfl⟩ := Option.ne_none_iff_exists'.mp hpage
  -- The update of the session is that of the desk; the rows may be in another order.
  calc (site.host.exec table (updateQuery updates (some (Nat.toDigits 10 k)))).1
    _ ~ Update.apply ⟨draft, k⟩ table := h.host.toStandard.update (hdraft k)
    _ ~ Update.apply ⟨draft, k⟩ table' := Update.apply_perm _ htable

theorem insertAll_perm (h : site.Standard lower effect) {records : List Record} {working : Table}
    (htable : table ~ table') (hall : insertAll effect table records = some working) :
    ∃ working', insertAll effect table' records = some working' ∧ working ~ working' := by
  -- Over the records, the two tables having the same rows all the time.
  induction records generalizing table table' with
  | nil =>
      cases hall
      exact ⟨table', rfl, htable⟩
  | cons data records ih =>
      obtain ⟨next, hnext, hrest⟩ := Option.bind_eq_some_iff.mp hall
      obtain ⟨next', hnext', hperm⟩ := h.effect_perm htable hnext
      obtain ⟨working', hrest', hworking⟩ := ih hperm hrest
      exact ⟨working', by rw [insertAll, List.foldlM_cons, hnext']; exact hrest', hworking⟩

theorem loaded_perm (h : site.Standard lower effect) (path : Option Text) (htable : table ~ table') :
    loaded effect site.fopen path table ~ loaded effect site.fopen path table' := by
  unfold loaded
  split
  · next file _ =>
      cases hall : insertAll effect table file.tail with
      | some working =>
          obtain ⟨working', hall', hperm⟩ := insertAll_perm h htable hall
          rw [hall']
          exact hperm
      | none =>
          -- If one table lets all records in, so does the other.
          have hall' : insertAll effect table' file.tail = none := by
            cases hall' : insertAll effect table' file.tail with
            | none => rfl
            | some working' =>
                obtain ⟨working, hsome, -⟩ := insertAll_perm h htable.symm hall'
                rw [hall] at hsome
                cases hsome
          rw [hall']
          exact htable
  · exact htable

/-- What is committed when the page is done. -/
theorem close_load (h : site.Standard lower effect) {path : Option Text}
    (hrecords : ∀ file, opened site.fopen path = some file → ∀ data ∈ file.tail, Loadable data) (table : Table) :
    site.close (load site.client site.fopen path (site.connect table)).1 =
      loaded effect site.fopen path table := by
  obtain ⟨view, hclient, hconnect, hclose⟩ := h.client
  obtain ⟨d₀, hbegin, hview₀⟩ := hclient.beginTransaction (hconnect table)
  have hpath : (path.bind fun path => if path.length > 0 then some ("./".toList ++ path) else none).bind
      site.fopen = opened site.fopen path := by
    cases path with
    | none => rfl
    | some path => cases path <;> rfl
  rw [hclose]
  -- A transaction is open in any case, and without a file it is never committed.
  unfold loaded
  cases hfile : opened site.fopen path with
  | none =>
      simp only [load, hbegin, hpath, hfile, hview₀, View.committed]
  | some file =>
      obtain ⟨located, hat, hfopen⟩ := Option.bind_eq_some_iff.mp hfile
      obtain ⟨path, rfl, hpathOf⟩ := Option.bind_eq_some_iff.mp hat
      split at hpathOf
      · cases hpathOf
      · next hne =>
          cases hpathOf
          obtain ⟨d', hload, hview⟩ := load_apply hclient (hconnect table) hne hfopen (hrecords file hfile)
          rw [hload, hview]
          rfl

/-- **One request** does what its act does on the desks. -/
theorem serve_simulates (h : site.Standard lower effect) {s : Shared V} {office : Office V}
    (hs : Simulates s office) (v : V) (hact : act.Unquoted site.fopen) (hoffers : (office.desks v).Offers act) :
    Simulates (serve site s v act.call) (office.after effect site.fopen v act) := by
  obtain ⟨hpage, hdraft, hsearched⟩ := hs.held v
  have hlookup : (office.desks v).page ≠ none →
      (site.host.exec s.table (lookupQuery (s.visitors v).session.state)).1 ~ office.table := by
    intro hopen
    rw [hpage]
    exact (lookup_page h hopen _).trans hs.table
  -- One act after the other, each with the page that serves it.
  cases act with
  | visit k =>
      have hlook := look_perm h.host.toStandard (page_ne_nil k) s.table
      exact hs.update v ⟨rfl, hdraft, hsearched⟩ (hlook.trans hs.table)
  | edit => exact hs.update v ⟨hpage, hdraft, hsearched⟩ (hlookup hoffers)
  | submit typed =>
      obtain ⟨hregion, hdivision, hname⟩ := hact
      refine hs.update v ⟨hpage, ?_, hsearched⟩ (hlookup hoffers)
      show Drafts (typed.drafted (s.visitors v).session.state) (typed.saved (office.desks v).page)
      rw [hpage]
      exact drafts_saved _ hregion hdivision hname
  | cancel => exact hs.update v ⟨hpage, drafts_nothing, hsearched⟩ (hlookup hoffers)
  | commit =>
      refine hs.update v ⟨hpage, hdraft, hsearched⟩ ?_
      rw [inspect_press_commit, hpage]
      exact (lookup_page h hoffers _).trans (commit_page h hdraft hoffers hs.table)
  | search form =>
      obtain ⟨table', rows, others, hindex, hkept, -⟩ := index_search h.host hact (s.visitors v) s.table
      simp only [Act.call, serve, hindex]
      exact hs.update v ⟨hpage, hdraft, rfl⟩ (hkept.trans hs.table)
  | index =>
      obtain ⟨hbounds, hvalues⟩ := h.host.bounds s.table
      simp only [Act.call, serve, index, hvalues, Option.isSome_none, Bool.false_eq_true, if_false]
      refine hs.update v ?_ (hbounds.trans hs.table)
      -- The session is destroyed if it has a search, and the desk is cleared then.
      show Held (if (s.visitors v).backup.isSome = true then Visitor.new else s.visitors v)
        (if (office.desks v).searched = true then Desk.new else office.desks v)
      rw [hsearched]
      split
      · exact held_new
      · exact hs.held v
  | load path =>
      refine hs.keep v ?_
      rw [close_load h hact]
      exact loaded_perm h path hs.table
  | delete confirm =>
      refine hs.keep v ?_
      show (delete site.host.toServer confirm s.table).1 ~ if confirm = "Yes".toList then [] else office.table
      unfold delete
      split
      · rw [h.truncate]
      · exact hs.table

/-! ## All requests

The requests come one after the other, whoever they are from; nothing is assumed about the order.
-/

theorem serveAll_simulates (h : site.Standard lower effect) {acts : List (V × Act)}
    (hacts : ∀ p ∈ acts, p.2.Unquoted site.fopen) {s : Shared V} {office : Office V}
    (hoffered : Offered office.desks acts) (hs : Simulates s office) :
    Simulates (serveAll site acts s) (office.afterAll effect site.fopen acts) := by
  -- Over the requests.
  induction acts generalizing s office with
  | nil => exact hs
  | cons p acts ih =>
      obtain ⟨hact, hrest⟩ := List.forall_mem_cons.mp hacts
      exact ih hrest hoffered.2 (serve_simulates h hs p.1 hact hoffered.1)

omit [DecidableEq V] in
theorem simulates_new (table : Table) :
    Simulates (⟨fun _ => Visitor.new, table⟩ : Shared V) ⟨fun _ => Desk.new, table⟩ :=
  ⟨fun _ => held_new, .refl _⟩

/-- **The site does what the desks say**, in every order of the requests of any visitors: the table is theirs, and
each session has the page of its desk, and a commit that would make the draft of its desk. -/
theorem site_simulates (h : site.Standard lower effect) (acts : List (V × Act))
    (hacts : ∀ p ∈ acts, p.2.Unquoted site.fopen) (hoffered : Offered (fun _ => Desk.new) acts) (table : Table) :
    let s := serveAll site acts ⟨fun _ => Visitor.new, table⟩
    let office := Office.afterAll effect site.fopen acts ⟨fun _ => Desk.new, table⟩
    s.table ~ office.table ∧ ∀ v,
      (s.visitors v).session.state = (office.desks v).page.map (Nat.toDigits 10) ∧
      ∀ k, parseUpdate (updateQuery (s.visitors v).session.updates (some (Nat.toDigits 10 k))) =
        some ⟨(office.desks v).draft, k⟩ := by
  have hsim := serveAll_simulates h hacts hoffered (simulates_new table)
  exact ⟨hsim.table, fun v => ⟨(hsim.held v).page, (hsim.held v).draft⟩⟩

/-- **The last commit stays.** As long as nothing is loaded or deleted, and no commit writes a draft of another
state, a row has what was committed last for its state, whoever has committed it. What was committed before is
lost. -/
theorem last_commit_wins (h : site.Standard lower effect) (acts : List (V × Act))
    (hacts : ∀ p ∈ acts, p.2.Unquoted site.fopen ∧ p.2.Edits) (hoffered : Offered (fun _ => Desk.new) acts)
    (hkeeps : ∀ u ∈ updatesOf (fun _ => Desk.new) acts, u.values.state = some u.key) (table : Table) :
    (serveAll site acts ⟨fun _ => Visitor.new, table⟩).table ~ table.map fun row =>
      (((updatesOf (fun _ => Desk.new) acts).reverse.find? fun u => row.state = some u.key).map
        Update.values).getD row := by
  have hsim := serveAll_simulates h (fun p hp => (hacts p hp).1) hoffered (simulates_new table)
  have htable : (Office.afterAll effect site.fopen acts ⟨fun _ => Desk.new, table⟩).table = _ :=
    table_acts (fun p hp => (hacts p hp).2) ⟨fun _ => Desk.new, table⟩
  rw [foldl_apply] at htable
  refine hsim.table.trans ?_
  rw [htable]
  exact .of_eq (List.map_congr_left fun row _ => last_update hkeeps row)

/-! ## A site

For the examples: a host and a client that keep to the assumptions, on one table in memory.
-/

/-- A site without files. -/
def Site.reference : Site View where
  host := .reference Char.toLower fun table query =>
    if query = "TRUNCATE TABLE gooi.POP_HOUSING_ESTIMATE_STATE;".toList then ([], some []) else (table, none)
  client := .reference referenceEffect
  connect := .idle
  close := View.committed
  fopen _ := none

theorem referenceEffect_perm {vs : List Value} {working : Table} (hperm : table ~ table')
    (h : referenceEffect table vs = some working) :
    ∃ working', referenceEffect table' vs = some working' ∧ working ~ working' := by
  unfold referenceEffect at h ⊢
  cases hrow : Row.ofValues vs with
  | none =>
      rw [hrow] at h
      cases h
  | some row =>
      rw [hrow] at h
      dsimp only at h ⊢
      have hmem : (∃ r ∈ table', r.state = row.state) ↔ ∃ r ∈ table, r.state = row.state := by
        simp only [hperm.mem_iff]
      -- Both tables have the state or neither.
      split at h
      · cases h
      · next hnew =>
          cases h
          exact ⟨table' ++ [row], by rw [if_neg (fun hold => hnew (hmem.mp hold))], hperm.append_right _⟩

theorem Site.reference_standard : Site.reference.Standard Char.toLower referenceEffect where
  host := Host.reference_standard _ _
  client := ⟨id, Client.reference_standard _, fun _ => rfl, fun _ => rfl⟩
  truncate table := by
    have hselect : parseSelect "TRUNCATE TABLE gooi.POP_HOUSING_ESTIMATE_STATE;".toList = none := rfl
    have hupdate : parseUpdate "TRUNCATE TABLE gooi.POP_HOUSING_ESTIMATE_STATE;".toList = none := rfl
    have hsearch : parseSearch "TRUNCATE TABLE gooi.POP_HOUSING_ESTIMATE_STATE;".toList = none := rfl
    simp only [reference, Host.reference, Server.reference, hselect, hupdate, hsearch, if_true]
  effect_perm := referenceEffect_perm

/-- Two visitors open the page of the first state, and both change its region. -/
def renamed (region : Text) : Typed :=
  ⟨region, [], [], .ofColumn none, .ofColumn none, .ofColumn none, .ofColumn none⟩

def twoVisitors : List (Bool × Act) :=
  [(false, .visit 1), (true, .visit 1), (false, .submit (renamed ['a'])), (true, .submit (renamed ['b'])),
    (false, .commit), (true, .search southern), (true, .commit)]

theorem unquoted_twoVisitors : ∀ p ∈ twoVisitors, p.2.Unquoted Site.reference.fopen ∧ p.2.Edits := by
  simp [twoVisitors, Act.Unquoted, Act.Edits, renamed, southern_plain]

theorem offered_twoVisitors : Offered (fun _ => Desk.new) twoVisitors := by
  simp [twoVisitors, Offered, Desk.Offers, Desk.after, Function.update]

theorem site_simulates_two :
    let s := serveAll Site.reference twoVisitors ⟨fun _ => Visitor.new, [alabama]⟩
    s.table ~ [(renamed ['b']).saved (some 1)] := by
  have hsim := (site_simulates Site.reference_standard twoVisitors (fun p hp => (unquoted_twoVisitors p hp).1)
    offered_twoVisitors [alabama]).1
  exact hsim

theorem last_commit_wins_two :
    (serveAll Site.reference twoVisitors ⟨fun _ => Visitor.new, [alabama]⟩).table ~
      [(renamed ['b']).saved (some 1)] :=
  last_commit_wins Site.reference_standard twoVisitors unquoted_twoVisitors offered_twoVisitors
    (by decide +kernel) [alabama]

end CS640.P5
