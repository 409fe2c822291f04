import CS640.P5.RoundTrip
import CS640.P5.Search
import Mathlib.Data.List.MinMax

/-!
# The index

`index.php` shows the form of the search and, if it was sent, the table of what was found, with a link to the page
of each state. The form shows what was searched, and on a first visit the greatest and the least number of each
column. It keeps a search in the session until the index is opened once more, and then ends the session.

Main results: `search_finds`, that the table shows exactly the rows that were asked for; `search_inspect`, where
its links lead; `search_defaults`, what the form of a first visit shows and finds. They are about forms that ask for
what they say: keywords without quotes and wildcards, and decimal digits for bounds.
-/

namespace CS640.P5

open Lib.Reading Lib.Quoting Lib.Like
open scoped List

/-! ## The page

The queries are sent to a `Host`; the form of a search is a `Post` as in the other page.
-/

/-- A server that also answers in columns of its own. -/
structure Host extends Server where
  figures : Table → Text → Table × Option (List (List (Option Nat)))

def boundsQuery : Text :=
  "select max(popestimate2010), min(popestimate2010), max(popestimate2011), min(popestimate2011), ".toList ++
    "max(huest_2010), min(huest_2010), max(huest_2011), min(huest_2011) ".toList ++
    "from gooi.pop_housing_estimate_state;".toList

/-- A line of the table of results: two texts, and the state in the link. -/
structure Line where
  strOut : Text
  strOut2 : Text
  id : Text
  deriving DecidableEq

structure Results where
  recordFound : Nat
  lines : List Line
  deriving DecidableEq

/-- `pg_fetch_all_columns`. -/
def fetchAll (rows : List Row) (column : Nat) : List (Option Text) := rows.map fun row => row.fetch.getD column none

def results (rows : List Row) : Results :=
  let qArray := fetchAll rows 3
  let regionArray := fetchAll rows 1
  let idArray := fetchAll rows 0
  { recordFound := rows.length
    lines := (List.range qArray.length).map fun i =>
      { strOut := display (qArray.getD i none)
        strOut2 := display (regionArray.getD i none)
        id := (idArray.getD i none).getD [] } }

/-- What the form shows on a first visit. -/
def defaults (result : List (Option Nat)) : Post
  | .state_keywords => []
  | .region_keywords => []
  | .div_keywords => []
  | .max_popest2010 => (figure (result.getD 0 none)).getD []
  | .min_popest2010 => (figure (result.getD 1 none)).getD []
  | .max_popest2011 => (figure (result.getD 2 none)).getD []
  | .min_popest2011 => (figure (result.getD 3 none)).getD []
  | .max_huest2010 => (figure (result.getD 4 none)).getD []
  | .min_huest2010 => (figure (result.getD 5 none)).getD []
  | .max_huest2011 => (figure (result.getD 6 none)).getD []
  | .min_huest2011 => (figure (result.getD 7 none)).getD []

/-- `$_SESSION` of both pages. -/
structure Visitor where
  session : Session
  backup : Option Post

/-- A session without variables. -/
def Visitor.new : Visitor := ⟨⟨none, []⟩, none⟩

/-- The values in the form, and what is behind it if a search was sent: nothing if it failed. -/
structure IndexPage where
  fields : Post
  results : Option (Option Results)

/-- The index for a search or a visit, and no page if the query for the numbers fails. -/
def index (host : Host) (search : Option Post) (visitor : Visitor) (table : Table) :
    (Visitor × Table) × Option IndexPage :=
  let result := host.figures table boundsQuery
  match result.2 with
  | none => ((visitor, result.1), none)
  | some rows =>
    let backup := search.orElse fun _ => visitor.backup
    let fields : Post :=
      match backup, rows.head? with
      | some post, _ => post
      | none, some row => defaults row
      | none, none => fun _ => []
    -- a search has closed the session before, and then there is none to be destroyed
    let visitor :=
      if search.isSome then { visitor with backup }
      else if backup.isSome then Visitor.new
      else visitor
    match search with
    | none => ((visitor, result.1), some ⟨fields, none⟩)
    | some post =>
      let ret := host.exec result.1 (searchQuery post)
      ((visitor, ret.1), some ⟨fields, some (ret.2.map results)⟩)

/-! ## Hosts

A host answers the statements on one state and the searches, and it knows the greatest and the least numbers.
-/

def greatest (column : NumberColumn) (table : Table) : Option Nat := (table.filterMap (·.number column)).max?

def least (column : NumberColumn) (table : Table) : Option Nat := (table.filterMap (·.number column)).min?

structure Host.Standard (host : Host) (lower : Char → Char) : Prop extends
    host.toServer.Standard, host.toServer.Searches lower where
  bounds : ∀ table, (host.figures table boundsQuery).1 ~ table ∧ (host.figures table boundsQuery).2 =
    some [[greatest .popestimate2010 table, least .popestimate2010 table,
      greatest .popestimate2011 table, least .popestimate2011 table,
      greatest .huest_2010 table, least .huest_2010 table, greatest .huest_2011 table, least .huest_2011 table]]

/-- A host that does `other` with the statements of other forms. -/
def Host.reference (lower : Char → Char) (other : Table → Text → Table × Option (List Row)) : Host where
  toServer := Server.reference fun table query =>
    match parseSearch query with
    | some conditions => (table, some (table.filter fun row => conditions.all (·.holds lower row)))
    | none => other table query
  figures table _ := (table, some [[greatest .popestimate2010 table, least .popestimate2010 table,
    greatest .popestimate2011 table, least .popestimate2011 table,
    greatest .huest_2010 table, least .huest_2010 table, greatest .huest_2011 table, least .huest_2011 table]])

theorem parseSearch_of_parseSelect {query : Text} {k : Nat} (h : parseSelect query = some k) :
    parseSearch query = none := by
  obtain ⟨s, hs, _⟩ := Option.bind_eq_some_iff.1 h
  obtain ⟨word, rfl, hword⟩ := List.dropPrefix?_eq_some_iff.1 hs
  obtain rfl : word = "SELECT * FROM gooi.pop_housing_estimate_state where state = ".toList := by
    simpa using hword
  rfl

theorem parseUpdate_of_parseSearch {query : Text} {conditions : List Condition}
    (h : parseSearch query = some conditions) : parseUpdate query = none := by
  obtain ⟨s, hs, _⟩ := Option.bind_eq_some_iff.1 h
  obtain ⟨word, rfl, hword⟩ := List.dropPrefix?_eq_some_iff.1 hs
  obtain rfl : word = "SELECT * FROM gooi.pop_housing_estimate_state ".toList := by simpa using hword
  rfl

theorem Host.reference_standard (lower : Char → Char) (other : Table → Text → Table × Option (List Row)) :
    (Host.reference lower other).Standard lower where
  toStandard := Server.reference_standard
  search {table conditions} hcomplete := by
    have h := parseSearch_searchStatement hcomplete
    generalize searchStatement conditions = query at h ⊢
    have hselect : parseSelect query = none := by
      cases hk : parseSelect query with
      | none => rfl
      | some k =>
          rw [parseSearch_of_parseSelect hk] at h
          cases h
    have hexec : (Host.reference lower other).exec table query =
        (table, some (table.filter fun row => conditions.all (·.holds lower row))) := by
      simp only [Host.reference, Server.reference, hselect, parseUpdate_of_parseSearch h, h]
    rw [hexec]
    exact ⟨.refl _, _, rfl, .refl _⟩
  bounds table := ⟨.refl _, rfl⟩

/-- A host that fails on statements of other forms. -/
def failing : Host := .reference Char.toLower fun table _ => (table, none)

theorem failing_standard : failing.Standard Char.toLower := Host.reference_standard _ _

/-! ## What is found

The conditions of a form are put in terms of what the form asks for. A keyword is looked for anywhere in a text,
since it stands between percent signs, and in any case.
-/

/-- Keywords, and numbers in decimal digits. -/
structure SearchForm where
  keywords : TextColumn → Text
  minimum : NumberColumn → Figures
  maximum : NumberColumn → Figures

def SearchForm.post (form : SearchForm) : Post
  | .state_keywords => form.keywords .name
  | .region_keywords => form.keywords .region
  | .div_keywords => form.keywords .division
  | .min_popest2010 => (form.minimum .popestimate2010).text
  | .max_popest2010 => (form.maximum .popestimate2010).text
  | .min_popest2011 => (form.minimum .popestimate2011).text
  | .max_popest2011 => (form.maximum .popestimate2011).text
  | .min_huest2010 => (form.minimum .huest_2010).text
  | .max_huest2010 => (form.maximum .huest_2010).text
  | .min_huest2011 => (form.minimum .huest_2011).text
  | .max_huest2011 => (form.maximum .huest_2011).text

/-- The row has all that was typed: the keywords somewhere in its texts, in any case, and numbers between the
bounds. NULL is no number, and has no keywords. -/
structure SearchForm.Finds (lower : Char → Char) (form : SearchForm) (row : Row) : Prop where
  keywords : ∀ column, form.keywords column ≠ [] →
    ∃ t ∈ row.text column, (form.keywords column).map lower <:+: t.map lower
  minimum : ∀ column n, (form.minimum column).value = some n → ∃ m ∈ row.number column, n ≤ m
  maximum : ∀ column n, (form.maximum column).value = some n → ∃ m ∈ row.number column, m ≤ n

/-- The keywords have neither single quotes nor what stands for something else in a pattern, and no NUL. -/
def SearchForm.Plain (form : SearchForm) : Prop :=
  ∀ column, ∀ c ∈ form.keywords column, Lib.Like.Plain c ∧ c ≠ '\'' ∧ c ≠ '\x00'

/-- The line of a row. -/
def Row.line (row : Row) : Line := ⟨display row.name, display row.region, (figure row.state).getD []⟩

variable {host : Host} {lower : Char → Char} {form : SearchForm} {row : Row} {table table' : Table}
  {visitor : Visitor} {s t : Text}

theorem infix_map_iff : s.map lower <:+: t.map lower ↔ ∃ part, part <:+: t ∧ s.map lower = part.map lower := by
  -- A part of the text in small letters is a part of the text, in small letters.
  constructor
  · rintro ⟨a, b, h⟩
    obtain ⟨l, u, rfl, hl, -⟩ := List.map_eq_append_iff.mp h.symm
    obtain ⟨v, part, rfl, -, hpart⟩ := List.map_eq_append_iff.mp hl
    exact ⟨part, ⟨v, u, rfl⟩, hpart.symm⟩
  · rintro ⟨part, hpart, heq⟩
    rw [heq]
    exact hpart.map lower

theorem forall₂_sameLower : List.Forall₂ (fun c d => sameLower lower c d = true) s t ↔
    s.map lower = t.map lower := by
  rw [← List.forall₂_eq_eq_eq, List.forall₂_map_left_iff, List.forall₂_map_right_iff]
  simp only [sameLower, beq_iff_eq]

namespace SearchForm

theorem post_keywords (column : TextColumn) : form.post column.keywords = form.keywords column := by
  cases column <;> rfl

theorem post_minimum (column : NumberColumn) : form.post column.minimum = (form.minimum column).text := by
  cases column <;> rfl

theorem post_maximum (column : NumberColumn) : form.post column.maximum = (form.maximum column).text := by
  cases column <;> rfl

theorem mem_entries {e : Entry} : e ∈ form.post.entries ↔
    (∃ column, e = .keywords column (form.keywords column)) ∨
      (∃ column, e = .minimum column (form.minimum column).text) ∨
        ∃ column, e = .maximum column (form.maximum column).text := by
  simp only [Post.mem_entries, post_keywords, post_minimum, post_maximum]

/-- The conditions hold of the rows that have what was typed. -/
theorem holds_iff (hplain : form.Plain) :
    (form.post.criteria.all (·.holds lower row)) = true ↔ form.Finds lower row := by
  -- Between percent signs the keyword may stand anywhere.
  have hlike : ∀ column, (Condition.like column ('%' :: (form.keywords column ++ ['%']))).holds lower row = true ↔
      ∃ t ∈ row.text column, (form.keywords column).map lower <:+: t.map lower := by
    intro column
    have hkeywords : ∀ c ∈ form.keywords column, Lib.Like.Plain c := fun c hc => (hplain column c hc).1
    simp only [Condition.holds, Option.any_eq_true, like_between hkeywords, forall₂_sameLower,
      infix_map_iff, Option.mem_def]
  have hvalue : ∀ (f : Figures) n, f.value = some n ↔ f.text ≠ [] ∧ decimal f.text = n := by
    intro f n
    by_cases hempty : f.text = [] <;> simp [Figures.value, hempty]
  have hall : (form.post.criteria.all (·.holds lower row)) = true ↔
      ∀ e ∈ form.post.entries, e.given = true → e.condition.holds lower row = true := by
    simp only [Post.criteria, List.all_eq_true, List.forall_mem_map, List.mem_filter, and_imp]
  rw [hall]
  constructor
  · -- From the conditions to the form, one kind of entry after the other, and back.
    intro h
    refine ⟨fun column hne => (hlike column).mp (h _ (mem_entries.mpr (Or.inl ⟨column, rfl⟩)) ?_), ?_, ?_⟩
    · simpa [Entry.given] using hne
    · intro column n hn
      obtain ⟨hne, rfl⟩ := (hvalue _ _).mp hn
      have hmin := h _ (mem_entries.mpr (Or.inr (Or.inl ⟨column, rfl⟩))) (by simpa [Entry.given] using hne)
      simpa [Entry.condition, Condition.holds, Option.any_eq_true] using hmin
    · intro column n hn
      obtain ⟨hne, rfl⟩ := (hvalue _ _).mp hn
      have hmax := h _ (mem_entries.mpr (Or.inr (Or.inr ⟨column, rfl⟩))) (by simpa [Entry.given] using hne)
      simpa [Entry.condition, Condition.holds, Option.any_eq_true] using hmax
  · intro h e he hgiven
    rcases mem_entries.mp he with ⟨column, rfl⟩ | ⟨column, rfl⟩ | ⟨column, rfl⟩
    · exact (hlike column).mpr (h.keywords column (by simpa [Entry.given] using hgiven))
    · have hmin := h.minimum column _ ((hvalue _ _).mpr ⟨by simpa [Entry.given] using hgiven, rfl⟩)
      simpa [Entry.condition, Condition.holds, Option.any_eq_true] using hmin
    · have hmax := h.maximum column _ ((hvalue _ _).mpr ⟨by simpa [Entry.given] using hgiven, rfl⟩)
      simpa [Entry.condition, Condition.holds, Option.any_eq_true] using hmax

end SearchForm

theorem results_eq (rows : List Row) : results rows = ⟨rows.length, rows.map Row.line⟩ := by
  have hlines : (List.range (fetchAll rows 3).length).map (fun i =>
      (⟨display ((fetchAll rows 3).getD i none), display ((fetchAll rows 1).getD i none),
        ((fetchAll rows 0).getD i none).getD []⟩ : Line)) = rows.map Row.line := by
    -- Line by line.
    apply List.ext_getElem
    · simp [fetchAll]
    · intro i hi hrow
      simp [fetchAll, Row.line, Row.fetch] at hi hrow ⊢
      simp [hi]
  simp only [results, hlines]

/-! ## Searches

The statement of a form is the one its conditions stand for when no keyword has a single quote (`searchQuery_iff`).
So the host filters the table by them, and `holds_iff` says what that means in terms of the form.
-/

theorem criteria_complete (hplain : form.Plain) : ∀ c ∈ form.post.criteria, c.Complete := by
  intro c hc
  obtain ⟨e, he, rfl⟩ := List.mem_map.mp hc
  obtain ⟨he, hgiven⟩ := List.mem_filter.mp he
  -- By the kind of entry: a keyword is a whole pattern, a bound is a numeral.
  rcases SearchForm.mem_entries.mp he with ⟨column, rfl⟩ | ⟨column, rfl⟩ | ⟨column, rfl⟩
  · have hkeywords := pieces_plain fun c hc => (hplain column c hc).1
    refine ⟨?_, fun hmem => ?_⟩
    · rw [pieces_percent, pieces_append hkeywords]
      rfl
    · have hmem : '\x00' ∈ form.keywords column := by simpa using hmem
      exact (hplain column _ hmem).2.2 rfl
  · exact ⟨by simpa [Entry.given] using hgiven, (form.minimum column).digits⟩
  · exact ⟨by simpa [Entry.given] using hgiven, (form.maximum column).digits⟩

/-- What the host answers to a search. -/
theorem exec_search (hhost : host.Standard lower) (hplain : form.Plain) (table : Table) :
    (host.exec table (searchQuery form.post)).1 ~ table ∧
      ∃ rows others, (host.exec table (searchQuery form.post)).2 = some rows ∧ table ~ rows ++ others ∧
        (∀ row ∈ rows, form.Finds lower row) ∧ ∀ row ∈ others, ¬ form.Finds lower row := by
  -- No keyword has a quote, so the statement is not cut short.
  have hquery : searchQuery form.post = searchStatement form.post.criteria := by
    rw [searchQuery_iff]
    intro column hquote
    rw [SearchForm.post_keywords] at hquote
    exact (hplain column _ hquote).2.1 rfl
  have hanswer : (host.exec table (searchQuery form.post)).1 ~ table ∧
      ∃ rows, (host.exec table (searchQuery form.post)).2 = some rows ∧
        rows ~ table.filter fun row => form.post.criteria.all (·.holds lower row) := by
    rw [hquery]
    exact hhost.search (criteria_complete hplain)
  obtain ⟨hkept, rows, hrows, hperm⟩ := hanswer
  refine ⟨hkept, rows, table.filter (fun row => !form.post.criteria.all (·.holds lower row)), hrows, ?_, ?_, ?_⟩
  · -- What is found and what is not found make up the table.
    calc table
      _ ~ table.filter (fun row => form.post.criteria.all (·.holds lower row)) ++
            table.filter (fun row => !form.post.criteria.all (·.holds lower row)) :=
          (List.filter_append_perm _ _).symm
      _ ~ _ := hperm.symm.append_right _
  · intro row hrow
    exact (SearchForm.holds_iff hplain).mp (List.mem_filter.mp (hperm.mem_iff.mp hrow)).2
  · intro row hrow hfinds
    have hall := (SearchForm.holds_iff hplain).mpr hfinds
    simp [hall] at hrow

/-- What the index makes of a search. -/
theorem index_search (hhost : host.Standard lower) (hplain : form.Plain) (visitor : Visitor) (table : Table) :
    ∃ table' rows others, index host (some form.post) visitor table =
        (({ visitor with backup := some form.post }, table'),
          some ⟨form.post, some (some ⟨rows.length, rows.map Row.line⟩)⟩) ∧
      table' ~ table ∧ table ~ rows ++ others ∧
        (∀ row ∈ rows, form.Finds lower row) ∧ ∀ row ∈ others, ¬ form.Finds lower row := by
  obtain ⟨hbounds, hvalues⟩ := hhost.bounds table
  obtain ⟨hkept, rows, others, hrows, hperm, hfound, hmissed⟩ :=
    exec_search hhost hplain (host.figures table boundsQuery).1
  refine ⟨_, rows, others, ?_, hkept.trans hbounds, hbounds.symm.trans hperm, hfound, hmissed⟩
  simp [index, hvalues, hrows, results_eq]

/-- **The table of results** has a line for each row that has all that was typed, and for no other row. The
form still shows what was typed. -/
theorem search_finds (hhost : host.Standard lower) (hplain : form.Plain) (visitor : Visitor) (table : Table) :
    ∃ rows others, (index host (some form.post) visitor table).2 =
        some ⟨form.post, some (some ⟨rows.length, rows.map Row.line⟩)⟩ ∧
      (index host (some form.post) visitor table).1.2 ~ table ∧ table ~ rows ++ others ∧
        (∀ row ∈ rows, form.Finds lower row) ∧ ∀ row ∈ others, ¬ form.Finds lower row := by
  obtain ⟨table', rows, others, hindex, hkept, hrows⟩ := index_search hhost hplain visitor table
  rw [hindex]
  exact ⟨rows, others, rfl, hkept, hrows⟩

/-- A search for the keyword `SOUTH` among the regions. -/
def southern : SearchForm where
  keywords
    | .region => "SOUTH".toList
    | _ => []
  minimum _ := ⟨[], fun _ hc => by cases hc⟩
  maximum _ := ⟨[], fun _ hc => by cases hc⟩

theorem southern_plain : southern.Plain := by
  intro column
  cases column
  · intro c hc
    cases hc
  · intro c hc
    have hword : c ∈ ['S', 'O', 'U', 'T', 'H'] := hc
    simp only [List.mem_cons, List.not_mem_nil, or_false] at hword
    rcases hword with rfl | rfl | rfl | rfl | rfl <;>
      exact ⟨⟨by decide, by decide, by decide⟩, by decide, by decide⟩
  · intro c hc
    cases hc

theorem southern_finds_alabama : southern.Finds Char.toLower alabama where
  keywords column hne := by
    cases column
    · exact absurd rfl hne
    · exact ⟨"South".toList, rfl, by decide⟩
    · exact absurd rfl hne
  minimum _ _ hn := by cases hn
  maximum _ _ hn := by cases hn

theorem search_finds_alabama : ∃ rows : List Row,
    (index failing (some southern.post) Visitor.new [alabama]).2 =
      some ⟨southern.post, some (some ⟨rows.length, rows.map Row.line⟩)⟩ ∧ alabama ∈ rows := by
  obtain ⟨rows, others, hpage, -, hperm, -, hmissed⟩ :=
    search_finds failing_standard southern_plain Visitor.new [alabama]
  refine ⟨rows, hpage, ?_⟩
  rcases List.mem_append.mp (hperm.mem_iff.mp (List.mem_singleton.mpr rfl)) with hmem | hmem
  · exact hmem
  · exact absurd southern_finds_alabama (hmissed _ hmem)

/-! ## Links

A line of the results has the state of its row in the link, and the other page shows the first row of that state.
The lookup changes no row, so the table is still the one that was searched.
-/

theorem id_line_iff {o : Row} : o.line.id = row.id.text ↔ o.state = row.state := by
  constructor
  · intro h
    have htext : (Figures.ofColumn o.state).text = (Figures.ofColumn row.state).text := h
    have hvalue : (Figures.ofColumn o.state).value = (Figures.ofColumn row.state).value := by
      unfold Figures.value
      rw [htext]
    rwa [Figures.value_ofColumn, Figures.value_ofColumn] at hvalue
  · intro h
    show (figure o.state).getD [] = (figure row.state).getD []
    rw [h]

/-- The link to a state shows the row of the state. -/
theorem link_shows {server : Server} {session : Session} (hserver : server.Standard)
    (hrow : row ∈ table) (hstate : row.state ≠ none) (honly : ∀ o ∈ table, o.state = row.state → o = row) :
    (inspect server (Request.link row.id.text) ⟨session, table⟩).2.cells = cells false row.fetch := by
  have hid := Row.id_ne_nil hstate
  obtain ⟨r, hr, hsame, hshown⟩ := exists_shown hserver hid (w := ⟨session, table⟩) hrow (Row.state_eq hstate)
  obtain rfl := honly r hr hsame
  obtain ⟨rows, hrows, hhead⟩ : ∃ rows,
      (server.exec table (lookupQuery (some r.id.text))).2 = some rows ∧ rows.head? = some r :=
    Option.bind_eq_some_iff.mp hshown
  simp [inspect, Request.link, hrows, hhead]

/-- **The links of the results.** There is one to a state if and only if its row has all that was typed, and it
leads to a page that shows the row. -/
theorem search_inspect (hhost : host.Standard lower) (hplain : form.Plain) (visitor : Visitor) (table : Table)
    (row : Row) (hrow : row ∈ table) (hstate : row.state ≠ none)
    (honly : ∀ o ∈ table, o.state = row.state → o = row) :
    ((∃ page found, (index host (some form.post) visitor table).2 = some page ∧
        page.results = some (some found) ∧ ∃ line ∈ found.lines, line.id = row.id.text) ↔
      form.Finds lower row) ∧
    (inspect host.toServer (Request.link row.id.text)
      ⟨(index host (some form.post) visitor table).1.1.session,
        (index host (some form.post) visitor table).1.2⟩).2.cells = cells false row.fetch := by
  obtain ⟨table', rows, others, hindex, hkept, hperm, hfound, hmissed⟩ := index_search hhost hplain visitor table
  rw [hindex]
  -- A line with this state is that of the row, which is found; and a row that is found has its line.
  refine ⟨⟨?_, fun hfinds => ?_⟩, ?_⟩
  · rintro ⟨page, found, hpage, hresults, line, hline, hid⟩
    cases hpage
    cases hresults
    obtain ⟨o, ho, rfl⟩ := List.mem_map.mp hline
    have hmem : o ∈ table := hperm.mem_iff.mpr (List.mem_append_left _ ho)
    obtain rfl := honly o hmem (id_line_iff.mp hid)
    exact hfound o ho
  · have hmem : row ∈ rows := by
      rcases List.mem_append.mp (hperm.mem_iff.mp hrow) with hmem | hmem
      · exact hmem
      · exact absurd hfinds (hmissed row hmem)
    exact ⟨_, _, rfl, rfl, row.line, List.mem_map_of_mem hmem, rfl⟩
  · exact link_shows hhost.toStandard (hkept.mem_iff.mpr hrow) hstate fun o ho =>
      honly o (hkept.mem_iff.mp ho)

theorem search_inspect_alabama :
    (∃ page found,
      (index failing (some southern.post) Visitor.new [alabama]).2 = some page ∧
        page.results = some (some found) ∧ ∃ line ∈ found.lines, line.id = alabama.id.text) ∧
    (inspect failing.toServer (Request.link alabama.id.text)
      ⟨(index failing (some southern.post) Visitor.new [alabama]).1.1.session,
        (index failing (some southern.post) Visitor.new [alabama]).1.2⟩).2.cells =
      cells false alabama.fetch := by
  obtain ⟨hlink, hcells⟩ := search_inspect failing_standard southern_plain Visitor.new
    [alabama] alabama (List.mem_singleton.mpr rfl) (Option.some_ne_none 1)
    (fun o ho _ => List.mem_singleton.mp ho)
  exact ⟨hlink.mpr southern_finds_alabama, hcells⟩

/-! ## The first visit

Its form shows the numbers between which all others lie. So it asks for rows that have some number in each column,
unless no row has one there.
-/

/-- What the form of a first visit asks for. -/
def SearchForm.first (table : Table) : SearchForm where
  keywords _ := []
  minimum column := .ofColumn (least column table)
  maximum column := .ofColumn (greatest column table)

theorem least_iff {column : NumberColumn} {n : Nat} : least column table = some n ↔
    (∃ o ∈ table, o.number column = some n) ∧ ∀ o ∈ table, ∀ m ∈ o.number column, n ≤ m := by
  rw [least, List.min?_eq_some_iff]
  simp only [List.mem_filterMap, forall_exists_index, and_imp, Option.mem_def]
  exact and_congr_right fun _ => ⟨fun h o ho m hm => h m o ho hm, fun h m o ho hm => h o ho m hm⟩

theorem greatest_iff {column : NumberColumn} {n : Nat} : greatest column table = some n ↔
    (∃ o ∈ table, o.number column = some n) ∧ ∀ o ∈ table, ∀ m ∈ o.number column, m ≤ n := by
  rw [greatest, List.max?_eq_some_iff]
  simp only [List.mem_filterMap, forall_exists_index, and_imp, Option.mem_def]
  exact and_congr_right fun _ => ⟨fun h o ho m hm => h m o ho hm, fun h m o ho hm => h o ho m hm⟩

/-- It finds the rows that have a number wherever a row has one. -/
theorem finds_first_iff (hrow : row ∈ table) : (SearchForm.first table).Finds lower row ↔
    ∀ column, (∃ o ∈ table, o.number column ≠ none) → row.number column ≠ none := by
  constructor
  · rintro h column ⟨o, ho, hne⟩
    -- Some row has a number in the column, so there is a least one, and it was asked for.
    have hsome : least column table ≠ none := by
      rw [least, Ne, List.min?_eq_none_iff, List.filterMap_eq_nil_iff]
      exact fun hnone => hne (hnone o ho)
    obtain ⟨n, hn⟩ := Option.ne_none_iff_exists'.mp hsome
    obtain ⟨m, hm, -⟩ := h.minimum column n (Figures.value_ofColumn.trans hn)
    rw [Option.mem_def.mp hm]
    exact Option.some_ne_none m
  · intro h
    -- Wherever a bound was asked for, some row has a number, and so has this one, which lies within the bounds.
    have hnumber : ∀ column, (∃ o ∈ table, ∃ n, o.number column = some n) →
        ∃ m, row.number column = some m := by
      rintro column ⟨o, ho, n, hn⟩
      exact Option.ne_none_iff_exists'.mp (h column ⟨o, ho, by simp [hn]⟩)
    refine ⟨fun column hne => absurd rfl hne, fun column n hn => ?_, fun column n hn => ?_⟩
    · have hleast := least_iff.mp (Figures.value_ofColumn.symm.trans hn)
      obtain ⟨o, ho, hvalue⟩ := hleast.1
      obtain ⟨m, hm⟩ := hnumber column ⟨o, ho, n, hvalue⟩
      exact ⟨m, hm, hleast.2 row hrow m hm⟩
    · have hgreatest := greatest_iff.mp (Figures.value_ofColumn.symm.trans hn)
      obtain ⟨o, ho, hvalue⟩ := hgreatest.1
      obtain ⟨m, hm⟩ := hnumber column ⟨o, ho, n, hvalue⟩
      exact ⟨m, hm, hgreatest.2 row hrow m hm⟩

/-- The form of a first visit. -/
theorem index_first (hhost : host.Standard lower) (hbackup : visitor.backup = none) (table : Table) :
    (index host none visitor table).2 = some ⟨(SearchForm.first table).post, none⟩ ∧
      (index host none visitor table).1.1 = visitor ∧ (index host none visitor table).1.2 ~ table := by
  obtain ⟨hbounds, hvalues⟩ := hhost.bounds table
  have hfields : defaults [greatest .popestimate2010 table, least .popestimate2010 table,
      greatest .popestimate2011 table, least .popestimate2011 table, greatest .huest_2010 table,
      least .huest_2010 table, greatest .huest_2011 table, least .huest_2011 table] =
      (SearchForm.first table).post := by
    -- Field by field.
    funext name
    cases name <;> rfl
  refine ⟨?_, ?_, ?_⟩
  · simp [index, hvalues, hbackup, hfields]
  · simp [index, hvalues, hbackup]
  · simpa [index, hvalues, hbackup] using hbounds

/-- The fields come back from a browser as they are. -/
theorem post_first {browser : Browser} (hbrowser : browser.Standard) (table : Table) :
    (fun name => browser.value ((SearchForm.first table).post name)) = (SearchForm.first table).post := by
  have hfigures : ∀ f : Figures, browser.value f.text = f.text := fun f => hbrowser _ (plain_of_digits f.digits)
  have hnil : browser.value [] = [] := hbrowser [] fun _ hc => by cases hc
  funext name
  -- The keywords are empty, and digits come back as they are.
  cases name with
  | state_keywords | region_keywords | div_keywords => exact hnil
  | _ => exact hfigures _

/-- **What a first visit shows and finds.** The form has the least and the greatest number of each column. If it is
sent as it is, the results have the rows that have a number in every column in which a row has one, and no other
rows. -/
theorem search_defaults (hhost : host.Standard lower) (browser : Browser) (hbrowser : browser.Standard)
    (visitor : Visitor) (hbackup : visitor.backup = none) (table : Table) :
    ∃ page rows others, (index host none visitor table).2 = some page ∧
      page.fields = (SearchForm.first table).post ∧
      (index host (some fun name => browser.value (page.fields name)) (index host none visitor table).1.1
          (index host none visitor table).1.2).2.bind IndexPage.results =
        some (some ⟨rows.length, rows.map Row.line⟩) ∧
      table ~ rows ++ others ∧
        (∀ row ∈ rows, ∀ column, (∃ o ∈ table, o.number column ≠ none) → row.number column ≠ none) ∧
        ∀ row ∈ others, ∃ column, (∃ o ∈ table, o.number column ≠ none) ∧ row.number column = none := by
  obtain ⟨hpage, -, hkept⟩ := index_first hhost hbackup table
  have hplain : (SearchForm.first table).Plain := fun _ _ hc => by cases hc
  obtain ⟨_, rows, others, hresults, -, hperm, hfound, hmissed⟩ := index_search hhost hplain
    (index host none visitor table).1.1 (index host none visitor table).1.2
  have htable : table ~ rows ++ others := hkept.symm.trans hperm
  refine ⟨_, rows, others, hpage, rfl, ?_, htable, fun row hrow => ?_, fun row hrow => ?_⟩
  · rw [post_first hbrowser, hresults]
    rfl
  · exact (finds_first_iff (htable.mem_iff.mpr (List.mem_append_left _ hrow))).mp (hfound row hrow)
  · have hnot := hmissed row hrow
    rw [finds_first_iff (htable.mem_iff.mpr (List.mem_append_right _ hrow))] at hnot
    push Not at hnot
    exact hnot

/-- A state without numbers is not found. -/
theorem search_defaults_unknown :
    let unknown : Row := ⟨some 2, none, none, none, none, none, none, none⟩
    let host := failing
    ∃ page, ∃ rows others : List Row, (index host none Visitor.new [alabama, unknown]).2 = some page ∧
      (index host (some page.fields) (index host none Visitor.new [alabama, unknown]).1.1
          (index host none Visitor.new [alabama, unknown]).1.2).2.bind IndexPage.results =
        some (some ⟨rows.length, rows.map Row.line⟩) ∧
      [alabama, unknown] ~ rows ++ others ∧ unknown ∉ rows := by
  intro unknown host
  obtain ⟨page, rows, others, hpage, -, hresults, hperm, hfound, -⟩ :=
    search_defaults failing_standard ⟨fun t => t⟩ (fun _ _ => rfl)
      Visitor.new rfl [alabama, unknown]
  refine ⟨page, rows, others, hpage, hresults, hperm, fun hmem => ?_⟩
  exact hfound unknown hmem .popestimate2010 ⟨alabama, List.mem_cons_self, Option.some_ne_none _⟩ rfl

end CS640.P5
