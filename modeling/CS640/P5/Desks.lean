import CS640.P5.Load
import CS640.P5.Index

/-!
# Desks

What the pages are for, without statements and sessions. Every visitor has a desk: the page that lies on it, and
a draft, which is the row that a commit writes over the one of the page. All visitors share the table. A commit
takes the draft as it is, whoever has changed the row since the page was opened.

The buttons of a page are on the desk with it. A desk without a page offers none of them (`Desk.Offers`); the
site has no other way to keep a visitor from sending an update for no state at all.

Main result: `last_update`, which row there is after a number of updates that keep the states.
-/

namespace CS640.P5

open Lib.Values
open scoped List

/-- What a visitor does. -/
inductive Act
  | visit (state : Nat)
  | edit
  | submit (typed : Typed)
  | cancel
  | commit
  | search (form : SearchForm)
  | index
  | load (path : Option Text)
  | delete (confirm : Text)

/-- The row of a commit without a draft. -/
def Row.null : Row := ⟨none, none, none, none, none, none, none, none⟩

/-- A text gets a blank on both sides, and a single zero is taken for nothing. -/
def savedText (t : Text) : Option Text := if empty t then none else some (' ' :: (t ++ [' ']))

/-- What is saved of what is typed, on the page of a state. -/
def Typed.saved (typed : Typed) (page : Option Nat) : Row where
  state := page.bind fun k => if k = 0 then none else some k
  region := savedText typed.region
  division := savedText typed.division
  name := savedText typed.stname
  popestimate2010 := typed.popest2010.stored
  popestimate2011 := typed.popest2011.stored
  huest_2010 := typed.huest2010.stored
  huest_2011 := typed.huest2011.stored

structure Desk where
  page : Option Nat
  draft : Row
  searched : Bool

namespace Desk

def new : Desk := ⟨none, .null, false⟩

/-- The index clears a desk that was used for a search. -/
def after (desk : Desk) : Act → Desk
  | .visit state => { desk with page := some state }
  | .submit typed => { desk with draft := typed.saved desk.page }
  | .cancel => { desk with draft := .null }
  | .search _ => { desk with searched := true }
  | .index => if desk.searched then new else desk
  | .edit | .commit | .load _ | .delete _ => desk

/-- The buttons of the page of a state are there if such a page is. -/
def Offers (desk : Desk) : Act → Prop
  | .edit | .submit _ | .cancel | .commit => desk.page ≠ none
  | .visit _ | .search _ | .index | .load _ | .delete _ => True

/-- The update that is made, if any. -/
def update? (desk : Desk) : Act → Option Update
  | .commit => desk.page.map fun key => ⟨desk.draft, key⟩
  | _ => none

end Desk

/-- The file that a request to load opens. -/
def opened (fopen : Text → Option (List Record)) (path : Option Text) : Option (List Record) :=
  (path.bind fun path => if path = [] then none else some (pathOf path)).bind fopen

/-- What such a request makes of a table. -/
def loaded (effect : Table → List Value → Option Table) (fopen : Text → Option (List Record)) (path : Option Text)
    (table : Table) : Table :=
  match opened fopen path with
  | some file => (insertAll effect table file.tail).getD table
  | none => table

section

variable {V : Type} [DecidableEq V] {effect : Table → List Value → Option Table} {fopen : Text → Option (List Record)}
  {v : V} {act : Act} {acts : List (V × Act)} {desks : V → Desk} {table : Table} {u : Update} {us : List Update}
  {row : Row}

structure Office (V : Type) where
  desks : V → Desk
  table : Table

def Office.after (effect : Table → List Value → Option Table) (fopen : Text → Option (List Record)) (office : Office V)
    (v : V) (act : Act) : Office V where
  desks := Function.update office.desks v ((office.desks v).after act)
  table :=
    match act with
    | .commit => (((office.desks v).update? .commit).map fun u => u.apply office.table).getD office.table
    | .load path => loaded effect fopen path office.table
    | .delete confirm => if confirm = "Yes".toList then [] else office.table
    | _ => office.table

def Office.afterAll (effect : Table → List Value → Option Table) (fopen : Text → Option (List Record))
    (acts : List (V × Act)) (office : Office V) : Office V :=
  acts.foldl (fun office p => office.after effect fopen p.1 p.2) office

/-- The updates that are made, one after the other. -/
def updatesOf : (desks : V → Desk) → List (V × Act) → List Update
  | _, [] => []
  | desks, (v, act) :: acts =>
    ((desks v).update? act).toList ++ updatesOf (Function.update desks v ((desks v).after act)) acts

/-- Every act is one that the desk offers at the time. -/
def Offered : (desks : V → Desk) → List (V × Act) → Prop
  | _, [] => True
  | desks, (v, act) :: acts =>
    (desks v).Offers act ∧ Offered (Function.update desks v ((desks v).after act)) acts

/-- Nothing is loaded, and nothing deleted. -/
def Act.Edits : Act → Prop
  | .load _ | .delete _ => False
  | _ => True

/-! ## Updates

An update goes over all rows of its state. After a number of them, one after the other, the last one that was for a
state has settled its rows, as long as none of them moves a row to another state.
-/

/-- Without loading and deleting, the table has the updates. -/
theorem table_acts (hedits : ∀ p ∈ acts, p.2.Edits) (office : Office V) :
    (office.afterAll effect fopen acts).table =
      (updatesOf office.desks acts).foldl (fun table u => u.apply table) office.table := by
  induction acts generalizing office with
  | nil => rfl
  | cons p acts ih =>
      obtain ⟨v, act⟩ := p
      obtain ⟨hact, hrest⟩ := List.forall_mem_cons.mp hedits
      rw [updatesOf, List.foldl_append]
      refine (ih hrest (office.after effect fopen v act)).trans ?_
      congr 1
      cases act with
      | commit =>
          simp only [Office.after, Desk.update?]
          cases (office.desks v).page <;> rfl
      | load path => cases hact
      | delete confirm => cases hact
      | _ => rfl

/-- Updates of a table are updates of its rows. -/
theorem foldl_apply (us : List Update) (table : Table) :
    us.foldl (fun table u => u.apply table) table = table.map fun row => us.foldl (fun row u => u.row row) row := by
  induction us generalizing table with
  | nil => simp
  | cons u us ih =>
      rw [List.foldl_cons, ih, Update.apply, List.map_map]
      rfl

/-- **The last update** of a state is what a row has, if no update changes the state. -/
theorem last_update (hkeeps : ∀ u ∈ us, u.values.state = some u.key) (row : Row) :
    us.foldl (fun row u => u.row row) row =
      ((us.reverse.find? fun u => row.state = some u.key).map Update.values).getD row := by
  have hstate : ∀ us : List Update, (∀ u ∈ us, u.values.state = some u.key) → ∀ row : Row,
      (us.foldl (fun row u => u.row row) row).state = row.state := by
    intro us hkeeps
    induction us with
    | nil => exact fun _ => rfl
    | cons u us ih =>
        obtain ⟨hu, hrest⟩ := List.forall_mem_cons.mp hkeeps
        intro row
        rw [List.foldl_cons, ih hrest, Update.row]
        split
        · next hkey => rw [hu, hkey]
        · rfl
  induction us using List.reverseRecOn with
  | nil => rfl
  | append_singleton us u ih =>
      have hrest : ∀ u ∈ us, u.values.state = some u.key := fun u hu => hkeeps u (List.mem_append_left _ hu)
      rw [List.foldl_append, List.foldl_cons, List.foldl_nil, List.reverse_append, List.reverse_singleton,
        List.singleton_append, Update.row, hstate us hrest]
      by_cases hkey : row.state = some u.key
      · rw [if_pos hkey, List.find?_cons_of_pos (by simpa using hkey)]
        rfl
      · rw [if_neg hkey, List.find?_cons_of_neg (by simpa using hkey)]
        exact ih hrest

end

end CS640.P5
