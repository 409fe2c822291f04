import CS640.Lib.Quoting
import CS640.Lib.Reading

/-!
# Statements on the table of estimates

A server reads a statement off its text. `parseUpdate` and `parseSelect` read the two forms of statement
that the pages send for one state: `NULL`, numerals, and texts between single quotes in which two single
quotes stand for one. `Server.Standard` says what a server does with a statement of these forms, and
nothing about other texts. A column of numbers has room for every number, a column of text for every text,
and the rows of a table have no order.

The readers follow the texts that the pages build, piece by piece. So what they read is known where a text was built
(`parseUpdate_eq_some_iff`), and whatever stands in its texts, the state at the end of an update is the last numeral
of the statement (`key_of_parseUpdate`).
-/

namespace CS640.P5

open Lib.Reading Lib.Quoting
open scoped List

abbrev Text := List Char

/-- A row of `gooi.pop_housing_estimate_state`. -/
structure Row where
  state : Option Nat
  region : Option Text
  division : Option Text
  name : Option Text
  popestimate2010 : Option Nat
  popestimate2011 : Option Nat
  huest_2010 : Option Nat
  huest_2011 : Option Nat
  deriving DecidableEq

abbrev Table := List Row

/-- An update that sets every column of the rows of one state. -/
structure Update where
  values : Row
  key : Nat
  deriving DecidableEq

def Update.row (u : Update) (row : Row) : Row := if row.state = some u.key then u.values else row

def Update.apply (u : Update) (table : Table) : Table := table.map u.row

def numberColumn : Reader Char (Option Nat) := orWord "NULL".toList number

def textColumn : Reader Char (Option Text) := orWord "NULL".toList (readLiteral '\'')

/-- The state a statement ends with. -/
def lastNumber (s : Text) : Option Nat :=
  (number s).bind fun p => if p.2 = ";".toList then some p.1 else none

def parseUpdate (query : Text) : Option Update := do
  let (state, s) ← after "UPDATE gooi.pop_housing_estimate_state SET state = ".toList numberColumn query
  let (region, s) ← after ", region = ".toList textColumn s
  let (division, s) ← after ", division = ".toList textColumn s
  let (name, s) ← after ", name = ".toList textColumn s
  let (popestimate2010, s) ← after ", popestimate2010 = ".toList numberColumn s
  let (popestimate2011, s) ← after ", popestimate2011 = ".toList numberColumn s
  let (huest_2010, s) ← after ", huest_2010 = ".toList numberColumn s
  let (huest_2011, s) ← after ", huest_2011 = ".toList numberColumn s
  let key ← (s.dropPrefix? " WHERE state = ".toList).bind lastNumber
  return ⟨⟨state, region, division, name, popestimate2010, popestimate2011, huest_2010, huest_2011⟩, key⟩

def parseSelect (query : Text) : Option Nat :=
  (query.dropPrefix? "SELECT * FROM gooi.pop_housing_estimate_state where state = ".toList).bind lastNumber

/-- What a statement leaves of a table, and the rows it answers with unless it fails. -/
structure Server where
  exec : Table → Text → Table × Option (List Row)

structure Server.Standard (server : Server) : Prop where
  update : ∀ {table query u}, parseUpdate query = some u →
    (server.exec table query).1 ~ u.apply table
  select : ∀ {table query k}, parseSelect query = some k →
    (server.exec table query).1 ~ table ∧
      ∃ rows, (server.exec table query).2 = some rows ∧ rows ~ table.filter (·.state = some k)

/-- A server that does `other` with the statements of other forms. -/
def Server.reference (other : Table → Text → Table × Option (List Row)) : Server where
  exec table query :=
    match parseSelect query, parseUpdate query with
    | some k, _ => (table, some (table.filter (·.state = some k)))
    | none, some u => (u.apply table, some [])
    | none, none => other table query

variable {table table' : Table} {query s : Text} {u : Update} {k : Nat}
  {other : Table → Text → Table × Option (List Row)}

/-! ## Reading

Readers take something off the front of a text, and what they leave is a suffix. So the last piece of a statement
can be found from behind, where a numeral has one place to begin.
-/

theorem leaves_numberColumn : Leaves numberColumn := Leaves.orWord leaves_number

theorem leaves_textColumn : Leaves textColumn :=
  Leaves.orWord fun {_ _ _} h => suffix_of_readLiteral h

theorem lastNumber_eq_some_iff :
    lastNumber s = some k ↔
      ∃ ds, ds ≠ [] ∧ (∀ d ∈ ds, d.isDigit) ∧ s = ds ++ ";".toList ∧ k = decimal ds := by
  -- a numeral, and nothing behind it but the semicolon
  constructor
  · intro h
    obtain ⟨⟨n, rest⟩, hnumber, hrest⟩ := Option.bind_eq_some_iff.1 h
    obtain ⟨⟨ds, rest'⟩, hdigits, hn⟩ := Option.map_eq_some_iff.1 hnumber
    cases hn
    obtain ⟨rfl, hne, hds⟩ := digits_sound hdigits
    split at hrest
    · next hend =>
        cases hrest
        exact ⟨ds, hne, hds, congrArg (ds ++ ·) hend, rfl⟩
    · cases hrest
  · rintro ⟨ds, hne, hds, rfl, rfl⟩
    have hsemicolon : ¬ (';' : Char).isDigit := by decide
    show (number (ds ++ [';'])).bind _ = _
    rw [number_append hne hds hsemicolon, Option.bind_some]
    rfl

/-- One column after the other, and the state at the end. -/
theorem parseUpdate_eq_some_iff :
    parseUpdate query = some u ↔
      ∃ s₁ s₂ s₃ s₄ s₅ s₆ s₇ s₈ s₉,
        after "UPDATE gooi.pop_housing_estimate_state SET state = ".toList numberColumn query =
          some (u.values.state, s₁) ∧
        after ", region = ".toList textColumn s₁ = some (u.values.region, s₂) ∧
        after ", division = ".toList textColumn s₂ = some (u.values.division, s₃) ∧
        after ", name = ".toList textColumn s₃ = some (u.values.name, s₄) ∧
        after ", popestimate2010 = ".toList numberColumn s₄ = some (u.values.popestimate2010, s₅) ∧
        after ", popestimate2011 = ".toList numberColumn s₅ = some (u.values.popestimate2011, s₆) ∧
        after ", huest_2010 = ".toList numberColumn s₆ = some (u.values.huest_2010, s₇) ∧
        after ", huest_2011 = ".toList numberColumn s₇ = some (u.values.huest_2011, s₈) ∧
        s₈.dropPrefix? " WHERE state = ".toList = some s₉ ∧ lastNumber s₉ = some u.key := by
  obtain ⟨⟨a, b, c, d, e, f, g, h⟩, key⟩ := u
  simp only [parseUpdate, Option.bind_eq_bind, Option.bind_eq_some_iff, Prod.exists, Option.pure_def,
    Option.some.injEq, Update.mk.injEq, Row.mk.injEq]
  constructor
  · rintro ⟨_, s₁, h₁, _, s₂, h₂, _, s₃, h₃, _, s₄, h₄, _, s₅, h₅, _, s₆, h₆, _, s₇, h₇, _, s₈, h₈, _,
      ⟨s₉, h₉, hkey⟩, ⟨rfl, rfl, rfl, rfl, rfl, rfl, rfl, rfl⟩, rfl⟩
    exact ⟨s₁, s₂, s₃, s₄, s₅, s₆, s₇, s₈, s₉, h₁, h₂, h₃, h₄, h₅, h₆, h₇, h₈, h₉, hkey⟩
  · rintro ⟨s₁, s₂, s₃, s₄, s₅, s₆, s₇, s₈, s₉, h₁, h₂, h₃, h₄, h₅, h₆, h₇, h₈, h₉, hkey⟩
    exact ⟨_, s₁, h₁, _, s₂, h₂, _, s₃, h₃, _, s₄, h₄, _, s₅, h₅, _, s₆, h₆, _, s₇, h₇, _, s₈, h₈, _,
      ⟨s₉, h₉, hkey⟩, ⟨rfl, rfl, rfl, rfl, rfl, rfl, rfl, rfl⟩, rfl⟩

/-- However the texts are quoted, an update is for the state at its end. -/
theorem key_of_parseUpdate {front ds : Text} (hds : ∀ d ∈ ds, d.isDigit)
    (h : parseUpdate (front ++ ' ' :: (ds ++ ";".toList)) = some u) : ds ≠ [] ∧ u.key = decimal ds := by
  obtain ⟨s₁, s₂, s₃, s₄, s₅, s₆, s₇, s₈, s₉, h₁, h₂, h₃, h₄, h₅, h₆, h₇, h₈, h₉, hkey⟩ :=
    parseUpdate_eq_some_iff.1 h
  -- what the columns leave is a suffix, so the numeral there is the one at the end
  have hsuffix : s₈ <:+ front ++ ' ' :: (ds ++ ";".toList) :=
    (leaves_numberColumn.after h₈).trans <| (leaves_numberColumn.after h₇).trans <|
    (leaves_numberColumn.after h₆).trans <| (leaves_numberColumn.after h₅).trans <|
    (leaves_textColumn.after h₄).trans <| (leaves_textColumn.after h₃).trans <|
    (leaves_textColumn.after h₂).trans <| leaves_numberColumn.after h₁
  obtain ⟨es, hne, hes, rfl, hes'⟩ := lastNumber_eq_some_iff.1 hkey
  obtain ⟨word, rfl, hword⟩ := List.dropPrefix?_eq_some_iff.1 h₉
  obtain ⟨before, hbefore⟩ := hsuffix
  obtain rfl : word = " WHERE state = ".toList := by simpa using hword
  have hends : (before ++ " WHERE state =".toList) ++ ' ' :: (es ++ ";".toList) =
      front ++ ' ' :: (ds ++ ";".toList) := by
    rw [← hbefore]
    simp
  obtain rfl := digits_unique hes hds (by decide) hends
  exact ⟨hne, hes'⟩

theorem parseUpdate_of_parseSelect (h : parseSelect query = some k) : parseUpdate query = none := by
  obtain ⟨s, hs, _⟩ := Option.bind_eq_some_iff.1 h
  obtain ⟨word, rfl, hword⟩ := List.dropPrefix?_eq_some_iff.1 hs
  obtain rfl : word = "SELECT * FROM gooi.pop_housing_estimate_state where state = ".toList := by
    simpa using hword
  rfl

/-! ## Servers

`apply_perm_iff` says when an update changes the row that it is meant for and no other. The reference server does
what the statements say, and what it does with other texts is a parameter: `adding` is the one that shows where a
text was not read.
-/

namespace Update

theorem apply_perm (u : Update) (h : table ~ table') : u.apply table ~ u.apply table' :=
  h.map u.row

theorem row_values (u : Update) : u.row u.values = u.values := by
  rw [row, ite_self]

/-- When an update makes one row another and leaves the rest of the table: it sets the values of the
other, and the rest has no different row of that state. -/
theorem apply_perm_iff {row row' : Row} {others : Table} (hkey : row.state = some u.key) :
    u.apply (row :: others) ~ row' :: others ↔
      u.values = row' ∧ ∀ o ∈ others, o.state = row.state → o = u.values := by
  have hrow : u.row row = u.values := if_pos hkey
  have hcons : u.apply (row :: others) = u.values :: u.apply others := by
    rw [apply, List.map_cons, hrow, apply]
  rw [hcons]
  constructor
  · intro h
    -- no row of these values is lost by the update, so the first row is the one that is new
    have hcount : others.count u.values ≤ (u.apply others).count u.values := by
      have hmap := List.count_le_count_map (l := others) (f := u.row) (x := u.values)
      rwa [row_values] at hmap
    have hvalues : u.values = row' := by
      by_contra hne
      have heq := h.count_eq u.values
      rw [List.count_cons_self, List.count_cons_of_ne (Ne.symm hne)] at heq
      omega
    subst hvalues
    have hothers : u.apply others ~ others := (List.perm_cons u.values).1 h
    refine ⟨rfl, fun o ho hstate => ?_⟩
    obtain ⟨p, hp, rfl⟩ := List.mem_map.1 (hothers.mem_iff.2 ho)
    -- a row with the state was set to the values, any other one is as it was
    by_cases hpkey : p.state = some u.key
    · exact if_pos hpkey
    · have hp : u.row p = p := if_neg hpkey
      rw [hp, hkey] at hstate
      exact absurd hstate hpkey
  · rintro ⟨rfl, hothers⟩
    have hsame : u.apply others = others := by
      rw [apply, List.map_congr_left (g := id), List.map_id]
      intro o ho
      -- a row of the state has the values already, and another one is left alone
      by_cases hstate : o.state = some u.key
      · rw [Update.row, if_pos hstate, hothers o ho (hstate.trans hkey.symm), id]
      · rw [Update.row, if_neg hstate, id]
    rw [hsame]

@[simp] theorem length_apply (u : Update) (table : Table) : (u.apply table).length = table.length :=
  List.length_map ..

end Update

namespace Server

theorem reference_standard : (reference other).Standard where
  update {table query u} h := by
    have hselect : parseSelect query = none := by
      cases hk : parseSelect query with
      | none => rfl
      | some k =>
          rw [parseUpdate_of_parseSelect hk] at h
          cases h
    have hexec : (reference other).exec table query = (u.apply table, some []) := by
      simp only [reference, hselect, h]
    rw [hexec]
  select {table query k} h := by
    have hexec : (reference other).exec table query =
        (table, some (table.filter (·.state = some k))) := by simp only [reference, h]
    rw [hexec]
    exact ⟨.refl _, _, rfl, .refl _⟩

/-- A server that adds a row at the statements of other forms. -/
def adding : Server := reference fun table _ => (⟨none, none, none, none, none, none, none, none⟩ :: table, none)

theorem adding_standard : adding.Standard := reference_standard

theorem length_adding_le (table : Table) (query : Text) :
    table.length ≤ (adding.exec table query).1.length := by
  simp only [adding, reference]
  split <;> simp

theorem length_adding_lt (hselect : parseSelect query = none) (hupdate : parseUpdate query = none) :
    table.length < (adding.exec table query).1.length := by
  simp [adding, reference, hselect, hupdate]

end Server

end CS640.P5
