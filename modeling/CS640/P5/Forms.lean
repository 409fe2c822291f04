import CS640.P5.Typed
import Mathlib.Logic.Function.Iterate

/-!
# Rounds of a form

What one round of Edit, Submit and Commit makes of the table: what the update says that is sent for the
form (`edit_perm`). A form that is sent as it is says what the page showed, and the texts come back with a
blank on both sides. Round after round the blanks add up (`edit_pads`).

A round is three requests, each of which runs the lookup once more (`edit_eq`). For a server that reads the
statements the lookups change nothing but the order of the rows, so a round amounts to the update (`edit_perm`).
-/

namespace CS640.P5

open Lib.Reading
open scoped List

/-- The text of the link to a row. -/
def Row.id (row : Row) : Figures := Figures.ofColumn row.state

variable {server : Server} {browser : Browser} {fill : Page → Request} {w : World} {row : Row}
  {others table : Table} {typed : Typed} {id : Figures} {u : Update} {session : Session}

/-! ## Requests

The session has the state of the page and what was submitted last. A round makes four statements of these: the
lookup of each request, and the update of Commit before its lookup.
-/

/-- What the lookup leaves of a table. -/
def look (server : Server) (id : Figures) (table : Table) : Table :=
  (server.exec table (lookupQuery (some id.text))).1

/-- The page that Edit leads to. -/
def editPage (server : Server) (w : World) : Page :=
  (inspect server (Request.press .EditBtn "Edit".toList) w).2

theorem inspect_edit (hid : w.session.state = some id.text) :
    (inspect server (Request.press .EditBtn "Edit".toList) w).1 = ⟨w.session, look server id w.table⟩ := by
  show World.mk w.session (server.exec w.table (lookupQuery w.session.state)).1 = _
  rw [hid, look]

theorem inspect_submit (hid : w.session.state = some id.text) :
    (inspect server typed.request w).1 = ⟨⟨some id.text, typed.updates id⟩, look server id w.table⟩ := by
  obtain ⟨⟨state, updates⟩, table⟩ := w
  cases hid
  rfl

theorem inspect_commit (hid : w.session.state = some id.text) :
    (inspect server (Request.press .CommitBtn "Commit".toList) w).1 =
      ⟨w.session, look server id (server.exec w.table (updateQuery w.session.updates (some id.text))).1⟩ := by
  obtain ⟨⟨state, updates⟩, table⟩ := w
  cases hid
  rfl

/-- What is sent by Submit is committed in the state of the page. -/
theorem edit_eq (hid : w.session.state = some id.text) (hfill : fill (editPage server w) = typed.request) :
    edit server fill w = ⟨⟨some id.text, typed.updates id⟩,
      look server id (server.exec (look server id (look server id w.table))
        (updateQuery (typed.updates id) (some id.text))).1⟩ := by
  show (inspect server (Request.press .CommitBtn "Commit".toList)
    (inspect server (fill (editPage server w))
      (inspect server (Request.press .EditBtn "Edit".toList) w).1).1).1 = _
  rw [hfill, inspect_edit hid, inspect_submit (w := ⟨w.session, look server id w.table⟩) hid,
    inspect_commit rfl]

/-! ## Forms

The page shows a row, and the browser sends what its fields show. Columns of numbers come back as they were, since
digits mean the same to every browser; columns of text depend on `browser.value`.
-/

theorem plain_of_digits {t : Text} (h : ∀ c ∈ t, c.isDigit) : Plain t := by
  intro c hc
  obtain ⟨hlow, hhigh⟩ : '0' ≤ c ∧ c ≤ '9' := by simpa [Char.isDigit, Char.le_def] using h c hc
  have hquote : c ≠ '\'' := by
    rintro rfl
    exact absurd hlow (by decide)
  have hamp : c ≠ '&' := by
    rintro rfl
    exact absurd hlow (by decide)
  exact ⟨Char.le_trans (by decide : ' ' ≤ '0') hlow, Char.le_trans hhigh (by decide : '9' ≤ '~'), hquote, hamp⟩

/-- What is typed in a form that is sent as it is. -/
def Row.form (row : Row) (browser : Browser) : Typed where
  region := browser.value (row.region.getD [])
  division := browser.value (row.division.getD [])
  stname := browser.value (row.name.getD [])
  popest2010 := .ofColumn row.popestimate2010
  popest2011 := .ofColumn row.popestimate2011
  huest2010 := .ofColumn row.huest_2010
  huest2011 := .ofColumn row.huest_2011

theorem submit_editPage (hbrowser : browser.Standard)
    (hrow : (server.exec w.table (lookupQuery w.session.state)).2.bind List.head? = some row) :
    (editPage server w).submit browser = (row.form browser).request := by
  have hcells : (editPage server w).cells = cells true row.fetch := by
    simp [editPage, inspect, Request.press, hrow]
  -- the fields of numbers have digits only, which every browser reads as they are
  have hfigure : ∀ n, browser.value ((figure n).getD []) = (Figures.ofColumn n).text := fun n =>
    hbrowser _ (plain_of_digits (Figures.ofColumn n).digits)
  funext name
  rw [Page.submit, hcells]
  cases name <;> simp [cells, cell, Row.fetch, Row.form, Typed.request, hfigure]

/-! ## Servers

What is used of a server: a lookup that it can read changes no rows, and an update that it can read does what it
says. An update that cannot be read may do anything, and `Server.adding` adds a row then.
-/

theorem parseSelect_lookupQuery (hid : id.text ≠ []) :
    parseSelect (lookupQuery (some id.text)) = some (decimal id.text) := by
  unfold lookupQuery parseSelect
  rw [List.append_assoc, dropPrefix?_append, Option.bind_some, lastNumber_eq_some_iff]
  exact ⟨id.text, hid, id.digits, rfl, rfl⟩

theorem look_perm (hserver : server.Standard) (hid : id.text ≠ []) (table : Table) :
    look server id table ~ table := (hserver.select (parseSelect_lookupQuery hid)).1

/-- Commit makes of the table what the update says. -/
theorem edit_perm (hserver : server.Standard) (fill : Page → Request) (w : World)
    (hstate : w.session.state = some id.text) (hfill : fill (editPage server w) = typed.request)
    (hparse : parseUpdate (updateQuery (typed.updates id) (some id.text)) = some u) :
    (edit server fill w).table ~ u.apply w.table := by
  have hid := (Typed.key_eq hparse).1
  rw [edit_eq hstate hfill]
  calc look server id (server.exec (look server id (look server id w.table))
        (updateQuery (typed.updates id) (some id.text))).1
    _ ~ (server.exec (look server id (look server id w.table))
        (updateQuery (typed.updates id) (some id.text))).1 := look_perm hserver hid _
    _ ~ u.apply (look server id (look server id w.table)) := hserver.update hparse
    _ ~ u.apply w.table := u.apply_perm ((look_perm hserver hid _).trans (look_perm hserver hid _))

/-- The page shows a row of its state. -/
theorem exists_shown (hserver : server.Standard) (hid : id.text ≠ [])
    (hrow : row ∈ w.table) (hkey : row.state = some (decimal id.text)) :
    ∃ r ∈ w.table, r.state = row.state ∧
      (server.exec w.table (lookupQuery (some id.text))).2.bind List.head? = some r := by
  obtain ⟨_, rows, hrows, hperm⟩ : look server id w.table ~ w.table ∧ _ :=
    hserver.select (parseSelect_lookupQuery hid)
  have hmem : row ∈ rows := hperm.mem_iff.2 (List.mem_filter.2 ⟨hrow, by simp [hkey]⟩)
  -- the rows of the lookup are those with the state of the page, and the first of them is shown
  cases rows with
  | nil => cases hmem
  | cons r rows =>
      obtain ⟨hr, hstate⟩ := List.mem_filter.1 (hperm.mem_iff.1 List.mem_cons_self)
      exact ⟨r, hr, by simpa [hkey] using hstate, by rw [hrows]; rfl⟩

theorem Row.id_ne_nil (hstate : row.state ≠ none) : row.id.text ≠ [] := fun h =>
  hstate (Figures.ofColumn_eq_nil.1 h)

theorem Row.state_eq (hstate : row.state ≠ none) : row.state = some (decimal row.id.text) := by
  obtain ⟨k, hk⟩ := Option.ne_none_iff_exists'.1 hstate
  rw [Row.id, hk, Figures.decimal_ofColumn]

/-- A server may do anything with an update that it cannot read. -/
theorem length_edit_lt (fill : Page → Request) (w : World) (hstate : w.session.state = some id.text)
    (hfill : fill (editPage Server.adding w) = typed.request)
    (hparse : parseUpdate (updateQuery (typed.updates id) (some id.text)) = none) :
    w.table.length < (edit Server.adding fill w).table.length := by
  have hselect : parseSelect (updateQuery (typed.updates id) (some id.text)) = none := by
    rw [Typed.updateQuery_eq]
    rfl
  have hlook : ∀ table : Table, table.length ≤ (look Server.adding id table).length := fun table =>
    Server.length_adding_le table _
  rw [edit_eq hstate hfill]
  calc w.table.length
    _ ≤ (look Server.adding id (look Server.adding id w.table)).length := (hlook _).trans (hlook _)
    _ < (Server.adding.exec (look Server.adding id (look Server.adding id w.table))
          (updateQuery (typed.updates id) (some id.text))).1.length :=
        Server.length_adding_lt hselect hparse
    _ ≤ _ := hlook _

/-- When the update keeps the numbers that the form of a row shows. -/
theorem Row.stored_form_iff {a b c a' b' c' : Option Text} :
    (row.form browser).stored row.id a b c = { row with region := a', division := b', name := c' } ↔
      row.state ≠ some 0 ∧ a = a' ∧ b = b' ∧ c = c' ∧ row.popestimate2010 ≠ some 0 ∧
        row.popestimate2011 ≠ some 0 ∧ row.huest_2010 ≠ some 0 ∧ row.huest_2011 ≠ some 0 := by
  simp only [Typed.stored, Row.form, Row.id, Row.mk.injEq, Figures.stored_ofColumn_iff]

/-! ## Round after round

A row is `Clear` if nothing in it is changed by the form but the blanks. It stays so when blanks are added, so the
round can be repeated.
-/

def pad (n : Nat) (t : Text) : Text := List.replicate n ' ' ++ t ++ List.replicate n ' '

/-- A row whose texts have `n` more blanks on both sides. -/
def Row.padded (n : Nat) (row : Row) : Row where
  __ := row
  region := row.region.map (pad n)
  division := row.division.map (pad n)
  name := row.name.map (pad n)

theorem pad_zero : pad 0 = fun t => t := by
  funext t
  simp [pad]

theorem pad_succ (n : Nat) : pad (n + 1) = pad 1 ∘ pad n := by
  funext t
  have hleft : List.replicate (n + 1) ' ' = ' ' :: List.replicate n ' ' := List.replicate_succ
  have hright : List.replicate (n + 1) ' ' = List.replicate n ' ' ++ [' '] := List.replicate_succ'
  calc pad (n + 1) t = ' ' :: List.replicate n ' ' ++ t ++ (List.replicate n ' ' ++ [' ']) := by
        rw [pad, ← hleft, ← hright]
    _ = (pad 1 ∘ pad n) t := by simp [pad]

namespace Row

@[simp] theorem padded_zero (row : Row) : row.padded 0 = row := by
  simp [padded, pad_zero]

theorem padded_succ (n : Nat) (row : Row) : row.padded (n + 1) = (row.padded n).padded 1 := by
  simp only [padded, pad_succ n, Option.map_map]

end Row

/-- A row whose form comes back from a browser as it was, and with nothing that is taken for nothing. -/
structure Row.Clear (row : Row) : Prop where
  state_ne_none : row.state ≠ none
  state_ne_zero : row.state ≠ some 0
  region : ∀ t ∈ row.region, Plain t ∧ empty t = false
  division : ∀ t ∈ row.division, Plain t ∧ empty t = false
  name : ∀ t ∈ row.name, Plain t ∧ empty t = false
  popestimate2010 : row.popestimate2010 ≠ some 0
  popestimate2011 : row.popestimate2011 ≠ some 0
  huest_2010 : row.huest_2010 ≠ some 0
  huest_2011 : row.huest_2011 ≠ some 0

theorem reads_shown (hbrowser : browser.Standard) {v : Option Text}
    (hv : ∀ t ∈ v, Plain t ∧ empty t = false) :
    Reads (browser.value (v.getD [])) (v.map (pad 1)) := by
  -- a column without a text is shown and sent as an empty one
  cases v with
  | none =>
      rw [hbrowser _ fun _ hc => by cases hc]
      exact reads_empty rfl
  | some t =>
      obtain ⟨hplain, hempty⟩ := hv t rfl
      show Reads (browser.value t) (some (pad 1 t))
      rw [hbrowser t hplain]
      exact reads_padded hempty fun hquote => (hplain _ hquote).2.2.1 rfl

/-- A form that is sent as it is: every text gets two blanks. -/
theorem edit_form (h : row.Clear) (hserver : server.Standard) (hbrowser : browser.Standard)
    (hstate : w.session.state = some row.id.text) (hrow : row ∈ w.table)
    (honly : ∀ r ∈ w.table, r.state = row.state → r = row) :
    (edit server (Page.submit browser) w).session.state = some row.id.text ∧
      (edit server (Page.submit browser) w).table ~
        Update.apply ⟨row.padded 1, decimal row.id.text⟩ w.table := by
  have hid := Row.id_ne_nil h.state_ne_none
  obtain ⟨r, hr, hrstate, hshown⟩ := exists_shown hserver hid hrow (Row.state_eq h.state_ne_none)
  obtain rfl := honly r hr hrstate
  have hfill := submit_editPage hbrowser (by rw [hstate]; exact hshown)
  have hparse := (r.form browser).parse_updateQuery hid (reads_shown hbrowser h.region)
    (reads_shown hbrowser h.division) (reads_shown hbrowser h.name)
  have hvalues : (r.form browser).stored r.id (r.region.map (pad 1)) (r.division.map (pad 1))
      (r.name.map (pad 1)) = r.padded 1 :=
    Row.stored_form_iff.2 ⟨h.state_ne_zero, rfl, rfl, rfl, h.popestimate2010, h.popestimate2011,
      h.huest_2010, h.huest_2011⟩
  rw [hvalues] at hparse
  exact ⟨by rw [edit_eq hstate hfill], edit_perm hserver _ w hstate hfill hparse⟩

theorem empty_pad {t : Text} (ht : empty t = false) (n : Nat) : empty (pad n t) = false := by
  cases n with
  | zero => rwa [pad_zero]
  | succ n => simp [empty, pad, List.replicate_succ]

theorem pad_clear {v : Option Text} (hv : ∀ t ∈ v, Plain t ∧ empty t = false) (n : Nat) :
    ∀ t ∈ v.map (pad n), Plain t ∧ empty t = false := by
  intro t ht
  obtain ⟨t, htv, rfl⟩ := Option.map_eq_some_iff.1 ht
  refine ⟨fun c hc => ?_, empty_pad (hv t htv).2 n⟩
  have hblank : ∀ c ∈ List.replicate n ' ', ' ' ≤ c ∧ c ≤ '~' ∧ c ≠ '\'' ∧ c ≠ '&' := by
    intro c hc
    rw [List.eq_of_mem_replicate hc]
    decide
  -- a character of the padded text is a blank, or one of the text
  rcases List.mem_append.1 hc with hc | hc
  · rcases List.mem_append.1 hc with hc | hc
    · exact hblank c hc
    · exact (hv t htv).1 c hc
  · exact hblank c hc

theorem Row.Clear.padded (h : row.Clear) (n : Nat) : (row.padded n).Clear where
  state_ne_none := h.state_ne_none
  state_ne_zero := h.state_ne_zero
  region := pad_clear h.region n
  division := pad_clear h.division n
  name := pad_clear h.name n
  popestimate2010 := h.popestimate2010
  popestimate2011 := h.popestimate2011
  huest_2010 := h.huest_2010
  huest_2011 := h.huest_2011

/-- **The blanks add up.** A form that is committed as it is pads the texts of its row, round after
round. -/
theorem edit_pads (h : row.Clear) (hserver : server.Standard) (hbrowser : browser.Standard)
    (htable : table ~ row :: others) (hothers : ∀ o ∈ others, o.state ≠ row.state) (n : Nat) :
    ((edit server (Page.submit browser))^[n]
        (visit server row.id.text ⟨session, table⟩)).session.state = some row.id.text ∧
      ((edit server (Page.submit browser))^[n] (visit server row.id.text ⟨session, table⟩)).table ~
        row.padded n :: others := by
  -- over the rounds; the table has the padded row and the others before each of them
  induction n with
  | zero =>
      rw [Row.padded_zero]
      exact ⟨rfl, (look_perm hserver (Row.id_ne_nil h.state_ne_none) table).trans htable⟩
  | succ n ih =>
      obtain ⟨hstate, hperm⟩ := ih
      rw [Function.iterate_succ_apply', Row.padded_succ]
      have honly : ∀ r ∈ ((edit server (Page.submit browser))^[n]
          (visit server row.id.text ⟨session, table⟩)).table, r.state = row.state → r = row.padded n := by
        intro r hr hrstate
        -- the row itself, or another one, whose state differs
        rcases List.mem_cons.1 (hperm.mem_iff.1 hr) with heq | hother
        · exact heq
        · exact absurd hrstate (hothers r hother)
      obtain ⟨hsession, hupdate⟩ := edit_form (h.padded n) hserver hbrowser hstate
        (hperm.mem_iff.2 List.mem_cons_self) honly
      refine ⟨hsession, hupdate.trans ?_⟩
      have hkey : (row.padded n).state = some (decimal (row.padded n).id.text) :=
        Row.state_eq (h.padded n).state_ne_none
      exact (Update.apply_perm _ hperm).trans <| (Update.apply_perm_iff hkey).2
        ⟨rfl, fun o ho hsame => absurd hsame (hothers o ho)⟩

/-- A row with one text. -/
def iowa : Row where
  state := some 19
  region := none
  division := none
  name := some "Iowa".toList
  popestimate2010 := some 3049883
  popestimate2011 := some 3062309
  huest_2010 := none
  huest_2011 := none

theorem iowa_clear : iowa.Clear where
  state_ne_none := Option.some_ne_none _
  state_ne_zero := by decide
  region _ ht := by cases ht
  division _ ht := by cases ht
  name t ht := by
    obtain rfl := Option.some.inj ht
    refine ⟨fun c hc => ?_, rfl⟩
    have hword : c ∈ ['I', 'o', 'w', 'a'] := hc
    simp only [List.mem_cons, List.not_mem_nil, or_false] at hword
    rcases hword with rfl | rfl | rfl | rfl <;> decide
  popestimate2010 := by decide
  popestimate2011 := by decide
  huest_2010 := by decide
  huest_2011 := by decide

theorem edit_pads_iowa :
    ((edit Server.adding (Page.submit ⟨fun t => t⟩))^[3]
      (visit Server.adding iowa.id.text ⟨⟨none, []⟩, [iowa]⟩)).table ~ [iowa.padded 3] :=
  (edit_pads iowa_clear Server.adding_standard (fun _ _ => rfl) (.refl _) (fun _ ho => by cases ho) 3).2

end CS640.P5
