import CS640.P5.Forms

/-!
# Edit round trips

A row is edited on its page: what was typed goes through the session into an update, and the server reads
the update. `RoundTrips` says that the row is then exactly what was typed, and no other row is changed;
`KeepsForm` says that a form that is committed as it is, any number of times, changes nothing.

Main result: `edit_roundTrips_iff`, when the page does so. The blanks of `getTypeNow` let no text through, and
its emptiness test takes a zero for nothing.

For the one direction, the update is read and says what was typed. For the other one a single server suffices, the
one that adds a row where it cannot read a statement: if no row is added, the update was read, and it must set what
was typed in every column (`exists_update`).
-/

namespace CS640.P5

open Lib.Reading
open scoped List

/-- After a visit, Edit, Submit of what is typed and Commit, each column of the row has what was typed,
and the others are as they were. -/
def RoundTrips (row : Row) (others : Table) (typed : Typed) : Prop :=
  ∀ server : Server, server.Standard → ∀ session table, table ~ row :: others →
    (edit server (fun _ => typed.request) (visit server row.id.text ⟨session, table⟩)).table ~
      typed.row row.state :: others

/-- Whatever number of times the form is committed as it is, the table is as it was. -/
def KeepsForm (row : Row) (others : Table) : Prop :=
  ∀ server : Server, server.Standard → ∀ browser : Browser, browser.Standard →
    ∀ session table, table ~ row :: others → ∀ n,
      ((edit server (Page.submit browser))^[n] (visit server row.id.text ⟨session, table⟩)).table ~
        row :: others

/-- The state is a number other than zero, the fields of text were left empty, in no field of a number
stands a single zero, and no other row of the state differs. -/
structure Typed.Exact (typed : Typed) (state : Option Nat) (others : Table) : Prop where
  state_ne_none : state ≠ none
  state_ne_zero : state ≠ some 0
  region : typed.region = []
  division : typed.division = []
  stname : typed.stname = []
  popest2010 : typed.popest2010.text ≠ "0".toList
  popest2011 : typed.popest2011.text ≠ "0".toList
  huest2010 : typed.huest2010.text ≠ "0".toList
  huest2011 : typed.huest2011.text ≠ "0".toList
  others : ∀ o ∈ others, o.state = state → o = typed.row state

/-- The state is a number other than zero, the columns of text are NULL, no column of numbers has a zero,
and no other row of the state differs. -/
structure Row.Exact (row : Row) (others : Table) : Prop where
  state_ne_none : row.state ≠ none
  state_ne_zero : row.state ≠ some 0
  region : row.region = none
  division : row.division = none
  name : row.name = none
  popestimate2010 : row.popestimate2010 ≠ some 0
  popestimate2011 : row.popestimate2011 ≠ some 0
  huest_2010 : row.huest_2010 ≠ some 0
  huest_2011 : row.huest_2011 ≠ some 0
  others : ∀ o ∈ others, o.state = row.state → o = row

variable {server : Server} {browser : Browser} {fill : Page → Request} {w : World} {row : Row}
  {others table : Table} {typed : Typed} {id : Figures} {u : Update} {session : Session}

/-! ## Round trips

An update sets what was typed where no text was typed and no zero, and it changes no other row where none has the
state.
-/

/-- When the update sets what was typed. -/
theorem Typed.stored_eq_row_iff (hregion : typed.region = []) (hdivision : typed.division = [])
    (hname : typed.stname = []) :
    typed.stored row.id none none none = typed.row row.state ↔
      row.state ≠ some 0 ∧ typed.popest2010.text ≠ "0".toList ∧ typed.popest2011.text ≠ "0".toList ∧
        typed.huest2010.text ≠ "0".toList ∧ typed.huest2011.text ≠ "0".toList := by
  have hnil : textValue [] = none := rfl
  simp only [Typed.stored, Typed.row, Row.id, hregion, hdivision, hname, hnil, Row.mk.injEq, true_and,
    Figures.stored_ofColumn_iff, Figures.stored_eq_value_iff]

theorem roundTrips_of_exact (h : typed.Exact row.state others) : RoundTrips row others typed := by
  intro server hserver session table htable
  have hid := Row.id_ne_nil h.state_ne_none
  have hempty : Reads [] none := reads_empty rfl
  have hparse := typed.parse_updateQuery hid (by rwa [h.region]) (by rwa [h.division]) (by rwa [h.stname])
  have hvalues : typed.stored row.id none none none = typed.row row.state :=
    (Typed.stored_eq_row_iff h.region h.division h.stname).2
      ⟨h.state_ne_zero, h.popest2010, h.popest2011, h.huest2010, h.huest2011⟩
  rw [hvalues] at hparse
  calc _ ~ Update.apply ⟨typed.row row.state, decimal row.id.text⟩ (look server row.id table) :=
        edit_perm hserver _ _ rfl rfl hparse
    _ ~ Update.apply ⟨typed.row row.state, decimal row.id.text⟩ (row :: others) :=
        Update.apply_perm _ ((look_perm hserver hid table).trans htable)
    _ ~ typed.row row.state :: others :=
        (Update.apply_perm_iff (Row.state_eq h.state_ne_none)).2 ⟨rfl, h.others⟩

/-- What a server that adds rows makes of an edit: where no row is added, the update was read, and it says
what became of the row. -/
theorem exists_update {row' : Row} {fill : Page → Request}
    (hfill : fill (editPage Server.adding (visit Server.adding row.id.text ⟨session, row :: others⟩)) =
      typed.request)
    (h : (edit Server.adding fill (visit Server.adding row.id.text ⟨session, row :: others⟩)).table ~
      row' :: others) :
    row.state ≠ none ∧ ∃ u, parseUpdate (updateQuery (typed.updates row.id) (some row.id.text)) = some u ∧
      u.values = row' ∧ ∀ o ∈ others, o.state = row.state → o = row' := by
  -- was the update read?
  cases hparse : parseUpdate (updateQuery (typed.updates row.id) (some row.id.text)) with
  | none =>
      have hvisit : (row :: others).length ≤ (look Server.adding row.id (row :: others)).length :=
        Server.length_adding_le _ _
      have hedit := length_edit_lt _ _ rfl hfill hparse
      rw [h.length_eq] at hedit
      exact absurd (hvisit.trans_lt hedit) (lt_irrefl _)
  | some u =>
      obtain ⟨hid, hkey⟩ := Typed.key_eq hparse
      have hstate : row.state ≠ none := fun hnone => hid (Figures.ofColumn_eq_nil.2 hnone)
      have hupdate : u.apply (row :: others) ~ row' :: others :=
        calc u.apply (row :: others)
          _ ~ u.apply (look Server.adding row.id (row :: others)) :=
              u.apply_perm (look_perm Server.adding_standard hid _).symm
          _ ~ _ := (edit_perm Server.adding_standard _ _ rfl hfill hparse).symm
          _ ~ row' :: others := h
      obtain ⟨hvalues, hothers⟩ := (Update.apply_perm_iff (by rw [hkey, Row.state_eq hstate])).1 hupdate
      exact ⟨hstate, u, rfl, hvalues, fun o ho hsame => (hothers o ho hsame).trans hvalues⟩

theorem exact_of_roundTrips (h : RoundTrips row others typed) : typed.Exact row.state others := by
  have hround := h Server.adding Server.adding_standard ⟨none, []⟩ (row :: others) (.refl _)
  obtain ⟨hstate, u, hparse, hvalues, hothers⟩ := exists_update rfl hround
  obtain ⟨hregion, hdivision, hname, hstored⟩ := Typed.texts_empty hparse
    (fun hne => by rw [hvalues]; exact if_neg hne)
    (fun hne => by rw [hvalues]; exact if_neg hne)
    (fun hne => by rw [hvalues]; exact if_neg hne)
  obtain ⟨hzero, hpopest2010, hpopest2011, hhuest2010, hhuest2011⟩ :=
    (Typed.stored_eq_row_iff hregion hdivision hname).1 (hstored.symm.trans hvalues)
  exact ⟨hstate, hzero, hregion, hdivision, hname, hpopest2010, hpopest2011, hhuest2010, hhuest2011, hothers⟩

/-! ## Forms as they are

A form that is sent as it is has the texts of its row, so what holds of a typed form is applied to `row.form`.
Without texts there is nothing to pad, and a round leaves the row as it was.
-/

theorem Row.Exact.clear (h : row.Exact others) : row.Clear where
  state_ne_none := h.state_ne_none
  state_ne_zero := h.state_ne_zero
  region t ht := by simp [h.region] at ht
  division t ht := by simp [h.division] at ht
  name t ht := by simp [h.name] at ht
  popestimate2010 := h.popestimate2010
  popestimate2011 := h.popestimate2011
  huest_2010 := h.huest_2010
  huest_2011 := h.huest_2011

/-- A row without texts has nothing to pad. -/
theorem Row.Exact.padded (h : row.Exact others) (n : Nat) : row.padded n = row := by
  obtain ⟨state, region, division, name, popestimate2010, popestimate2011, huest_2010, huest_2011⟩ := row
  obtain ⟨rfl, rfl, rfl⟩ : region = none ∧ division = none ∧ name = none := ⟨h.region, h.division, h.name⟩
  rfl

/-- One more round of a form as it is. -/
theorem keepsForm_step (h : row.Exact others) (hserver : server.Standard) (hbrowser : browser.Standard)
    (hstate : w.session.state = some row.id.text) (htable : w.table ~ row :: others) :
    (edit server (Page.submit browser) w).session.state = some row.id.text ∧
      (edit server (Page.submit browser) w).table ~ row :: others := by
  have honly : ∀ r ∈ w.table, r.state = row.state → r = row := by
    intro r hr hrstate
    -- the row itself, or another one of its state, which must not differ
    rcases List.mem_cons.1 (htable.mem_iff.1 hr) with heq | hother
    · exact heq
    · exact h.others r hother hrstate
  have hmem : row ∈ w.table := htable.mem_iff.2 List.mem_cons_self
  obtain ⟨hsession, hupdate⟩ := edit_form h.clear hserver hbrowser hstate hmem honly
  rw [h.padded] at hupdate
  refine ⟨hsession, ?_⟩
  calc (edit server (Page.submit browser) w).table
    _ ~ Update.apply ⟨row, decimal row.id.text⟩ w.table := hupdate
    _ ~ Update.apply ⟨row, decimal row.id.text⟩ (row :: others) := Update.apply_perm _ htable
    _ ~ row :: others := (Update.apply_perm_iff (Row.state_eq h.state_ne_none)).2 ⟨rfl, h.others⟩

theorem keepsForm_of_exact (h : row.Exact others) : KeepsForm row others := by
  intro server hserver browser hbrowser session table htable n
  have hid := Row.id_ne_nil h.state_ne_none
  have hrun : ((edit server (Page.submit browser))^[n]
        (visit server row.id.text ⟨session, table⟩)).session.state = some row.id.text ∧
      ((edit server (Page.submit browser))^[n] (visit server row.id.text ⟨session, table⟩)).table ~
        row :: others := by
    -- over the rounds
    induction n with
    | zero => exact ⟨rfl, (look_perm hserver hid table).trans htable⟩
    | succ n ih =>
        rw [Function.iterate_succ_apply']
        exact keepsForm_step h hserver hbrowser ih.1 ih.2
  exact hrun.2

/-- A text that is shown is a text of the row. -/
theorem eq_some_of_shown {v : Option Text} (h : v.getD [] ≠ []) : v = some (v.getD []) := by
  cases v with
  | none => exact absurd rfl h
  | some t => rfl

theorem exact_of_keepsForm (h : KeepsForm row others) : row.Exact others := by
  have hrun := h Server.adding Server.adding_standard ⟨fun t => t⟩ (fun _ _ => rfl) ⟨none, []⟩
    (row :: others) (.refl _)
  -- the link to a row without a state has no number, and already the visit is a statement of another form
  have hstate : row.state ≠ none := by
    intro hnone
    have hid : row.id.text = [] := Figures.ofColumn_eq_nil.2 hnone
    have hvisit : (row :: others).length < (look Server.adding row.id (row :: others)).length := by
      rw [look, hid]
      exact Server.length_adding_lt rfl rfl
    exact absurd (hrun 0).length_eq hvisit.ne'
  have hid := Row.id_ne_nil hstate
  have hkey := Row.state_eq hstate
  have hlook := look_perm Server.adding_standard hid (row :: others)
  obtain ⟨r, hr, hrstate, hshown⟩ := exists_shown Server.adding_standard hid
    (w := visit Server.adding row.id.text ⟨⟨none, []⟩, row :: others⟩)
    (hlook.mem_iff.2 List.mem_cons_self) hkey
  have hbrowser : Browser.Standard ⟨fun t => t⟩ := fun _ _ => rfl
  have hfill := submit_editPage hbrowser hshown
  obtain ⟨_, u, hparse, hvalues, hothers⟩ := exists_update hfill (hrun 1)
  obtain rfl : r = row := by
    rcases List.mem_cons.1 (hlook.mem_iff.1 hr) with heq | hother
    · exact heq
    · exact hothers r hother hrstate
  obtain ⟨_, _, _, hstored⟩ := Typed.texts_empty hparse
    (fun hne => by rw [hvalues]; exact eq_some_of_shown hne)
    (fun hne => by rw [hvalues]; exact eq_some_of_shown hne)
    (fun hne => by rw [hvalues]; exact eq_some_of_shown hne)
  obtain ⟨hzero, hregion, hdivision, hname, hpopestimate2010, hpopestimate2011, hhuest_2010,
    hhuest_2011⟩ := Row.stored_form_iff.1 (hstored.symm.trans hvalues)
  exact ⟨hstate, hzero, hregion.symm, hdivision.symm, hname.symm, hpopestimate2010, hpopestimate2011,
    hhuest_2010, hhuest_2011, hothers⟩

/-- **When an edit is exact.** The page saves exactly what was typed if and only if no text was typed at
all, no single zero stands for a number, the state is a number other than zero, and no other row of the
state differs from what was typed; it keeps a form that is committed as it is under the same conditions on
the row. -/
theorem edit_roundTrips_iff (row : Row) (others : Table) :
    (∀ typed, RoundTrips row others typed ↔ typed.Exact row.state others) ∧
      (KeepsForm row others ↔ row.Exact others) :=
  ⟨fun _ => ⟨exact_of_roundTrips, roundTrips_of_exact⟩, exact_of_keepsForm, keepsForm_of_exact⟩

/-- The first row that is loaded. -/
def alabama : Row where
  state := some 1
  region := some "South".toList
  division := some "East South Central".toList
  name := some "Alabama".toList
  popestimate2010 := some 4784762
  popestimate2011 := some 4803689
  huest_2010 := some 2173898
  huest_2011 := some 2182088

/-- A server that fails on other statements does not keep the row: its texts get blanks, typed again or
sent as they are. -/
theorem roundTrips_alabama :
    ¬ RoundTrips alabama [] (alabama.form ⟨fun t => t⟩) ∧ ¬ KeepsForm alabama [] := by
  constructor
  · intro h
    have hround := h (Server.reference fun table _ => (table, none)) Server.reference_standard ⟨none, []⟩
      [alabama] (.refl _)
    revert hround
    decide
  · intro h
    have hround := h (Server.reference fun table _ => (table, none)) Server.reference_standard
      ⟨fun t => t⟩ (fun _ _ => rfl) ⟨none, []⟩ [alabama] (.refl _) 1
    revert hround
    decide

end CS640.P5
