import CS640.P5.Statements

/-!
# The page of one state

`inspect.php` shows the row of one state. The buttons of the page lead through three requests: Edit shows
the row in fields of text, Submit puts what was typed into the session and asks for a confirmation, Commit
makes an update of what the session has. Every request answers with the page it leads to.

The text of a field stands between single quotes in the page as it is. What a browser makes of it is the
browser's: `Browser.Standard` says that plain texts come back as they are.
-/

namespace CS640.P5

/-- What a request has a value for: the fields of the page, and its buttons. -/
inductive Name
  | state
  | region
  | division
  | stname
  | popest2010
  | popest2011
  | huest2010
  | huest2011
  | EditBtn
  | CommitBtn
  | SubmitBtn
  | CancelBtn
  deriving DecidableEq

/-- `$_GET`, with nothing under the names that are not set. -/
abbrev Request := Name → Option Text

/-- `$_SESSION`. A list that was never set counts nothing, as an empty one. -/
structure Session where
  state : Option Text
  updates : List (Option Text)

/-- A line of the form: a text to read, or a field to type in. -/
inductive Cell
  | text (t : Text)
  | input (name : Name) (value : Text)
  deriving DecidableEq

structure Page where
  id : Option Text
  failed : Bool
  confirm : Bool
  cells : List Cell
  button : Name
  status : Option Bool

/-- `empty($str)` of a string. -/
def empty (str : Text) : Bool := str == [] || str == "0".toList

def getTypeNow (str : Option Text) (stringFlag : Nat) : Text :=
  match str with
  | none => "NULL".toList
  | some str =>
      if empty str then "NULL".toList
      else if stringFlag = 1 then "' ".toList ++ str ++ " '".toList
      else str

/-- The update that Commit sends. -/
def updateQuery (updates : List (Option Text)) (id : Option Text) : Text :=
  "UPDATE gooi.pop_housing_estimate_state SET state = ".toList ++ getTypeNow (updates.getD 0 none) 0 ++
  ", region = ".toList ++ getTypeNow (updates.getD 1 none) 1 ++
  ", division = ".toList ++ getTypeNow (updates.getD 2 none) 1 ++
  ", name = ".toList ++ getTypeNow (updates.getD 3 none) 1 ++
  ", popestimate2010 = ".toList ++ getTypeNow (updates.getD 4 none) 0 ++
  ", popestimate2011 = ".toList ++ getTypeNow (updates.getD 5 none) 0 ++
  ", huest_2010 = ".toList ++ getTypeNow (updates.getD 6 none) 0 ++
  ", huest_2011 = ".toList ++ getTypeNow (updates.getD 7 none) 0 ++
  " WHERE state = ".toList ++ id.getD [] ++ ";".toList

/-- The query for lookup. -/
def lookupQuery (id : Option Text) : Text :=
  "SELECT * FROM gooi.pop_housing_estimate_state where state = ".toList ++ id.getD [] ++ ";".toList

/-- A column of numbers as the client gets it. -/
def figure (n : Option Nat) : Option Text := n.map (Nat.toDigits 10)

/-- `pg_fetch_row`: the columns of a row as texts. -/
def Row.fetch (row : Row) : List (Option Text) :=
  [figure row.state, row.region, row.division, row.name, figure row.popestimate2010,
    figure row.popestimate2011, figure row.huest_2010, figure row.huest_2011]

/-- A value between the tags of the page. -/
def display (value : Option Text) : Text :=
  if (value.getD []).length = 0 then "UNKNOWN".toList else value.getD []

def cell (editing : Bool) (name : Name) (value : Option Text) : Cell :=
  if editing then .input name (value.getD []) else .text (display value)

def cells (editing : Bool) (form : List (Option Text)) : List Cell :=
  [.text (display (form.getD 0 none)),
    cell editing .region (form.getD 1 none),
    cell editing .division (form.getD 2 none),
    cell editing .stname (form.getD 3 none),
    cell editing .popest2010 (form.getD 4 none),
    cell editing .popest2011 (form.getD 5 none),
    cell editing .huest2010 (form.getD 6 none),
    cell editing .huest2011 (form.getD 7 none)]

/-- The session of a visitor, and the table. -/
structure World where
  session : Session
  table : Table

def inspect (server : Server) (request : Request) (w : World) : World × Page :=
  let isset name := (request name).isSome
  -- a request without a button is a new visit
  let session :=
    if !isset .EditBtn && !isset .CommitBtn && !isset .SubmitBtn && !isset .CancelBtn then
      { w.session with state := request .state }
    else w.session
  let id := session.state
  -- the lookup comes after the update, and shows what it left
  let update :=
    if isset .CommitBtn then server.exec w.table (updateQuery session.updates id) else (w.table, none)
  let ret := server.exec update.1 (lookupQuery id)
  let record := ((ret.2.bind List.head?).map Row.fetch).getD []
  let session :=
    if isset .SubmitBtn then
      { session with
        updates := [id, request .region, request .division, request .stname, request .popest2010,
          request .popest2011, request .huest2010, request .huest2011] }
    else session
  let session := if isset .CancelBtn then { session with updates := [] } else session
  -- the form shows what was typed when it asks for the confirmation, and the row otherwise
  let form := if session.updates.length > 0 && isset .SubmitBtn then session.updates else record
  let page :=
    { id
      failed := ret.2.isNone
      confirm := isset .SubmitBtn
      cells := cells (isset .EditBtn) form
      button :=
        if isset .EditBtn then .SubmitBtn else if isset .SubmitBtn then .CommitBtn else .EditBtn
      status := if isset .CommitBtn then some update.2.isSome else none }
  (⟨session, ret.1⟩, page)

/-- What a browser takes for the value of a field whose value stands in the page as a text. -/
structure Browser where
  value : Text → Text

/-- The characters that stand for themselves between single quotes in a page. -/
def Plain (t : Text) : Prop := ∀ c ∈ t, ' ' ≤ c ∧ c ≤ '~' ∧ c ≠ '\'' ∧ c ≠ '&'

def Browser.Standard (browser : Browser) : Prop := ∀ t, Plain t → browser.value t = t

namespace Request

/-- The link of the index to a state. -/
def link (id : Text) : Request
  | .state => some id
  | _ => none

/-- A form without fields, sent by one of its buttons. -/
def press (button : Name) (value : Text) : Request := fun name =>
  if name = button then some value else none

end Request

/-- The form of a page as it is, sent by Submit. -/
def Page.submit (browser : Browser) (page : Page) : Request := fun name =>
  if name = .SubmitBtn then some "Submit".toList
  else page.cells.findSome? fun
    | .input n value => if n = name then some (browser.value value) else none
    | .text _ => none

/-- A visit to the page of a state. -/
def visit (server : Server) (id : Text) (w : World) : World := (inspect server (Request.link id) w).1

/-- Edit, Submit with the fields that `fill` makes of the page that Edit leads to, and Commit. -/
def edit (server : Server) (fill : Page → Request) (w : World) : World :=
  let edited := inspect server (Request.press .EditBtn "Edit".toList) w
  let submitted := inspect server (fill edited.2) edited.1
  (inspect server (Request.press .CommitBtn "Commit".toList) submitted.1).1

end CS640.P5
