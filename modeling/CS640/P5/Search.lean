import CS640.Lib.Like
import CS640.Lib.Listing
import CS640.P5.Forms

/-!
# The search of the index

`index.php` makes one condition of each field that is not empty, and cuts the end off what it has put together.
Keywords are put between percent signs, and these between single quotes, as they are. `searchStatement` is the
statement with given conditions, a pattern being a literal there; `Server.Searches` says which rows a server
answers it with.

Main result: `searchQuery_iff`, when the statement of the page is the one with the conditions that were typed.
-/

namespace CS640.P5

open Lib.Reading Lib.Quoting Lib.Like
open scoped List

/-! ## Statements

The statement as the page puts it together, and the one that the conditions stand for. The page compares lengths
with `!= 0`, so a field with a blank in it counts as given.
-/

/-- The fields of the form. -/
inductive SearchName
  | state_keywords
  | region_keywords
  | div_keywords
  | min_popest2010
  | max_popest2010
  | min_popest2011
  | max_popest2011
  | min_huest2010
  | max_huest2010
  | min_huest2011
  | max_huest2011
  deriving DecidableEq

/-- `$_POST` of the form. -/
abbrev Post := SearchName → Text

/-- What is appended for keywords. -/
def addKeywords (column keywords str : Text) : Text :=
  if keywords.length ≠ 0 then str ++ (column ++ " ILIKE '%".toList) ++ (keywords ++ "%'  AND  ".toList)
  else str

/-- What is appended for a number. -/
def addBound (column comparison bound str : Text) : Text :=
  if bound.length ≠ 0 then str ++ (column ++ comparison) ++ (bound ++ "  AND  ".toList) else str

def searchQuery (post : Post) : Text :=
  let str := "SELECT * FROM gooi.pop_housing_estimate_state where ".toList
  let str := addKeywords "name".toList (post .state_keywords) str
  let str := addKeywords "region".toList (post .region_keywords) str
  let str := addKeywords "division".toList (post .div_keywords) str
  let str := addBound "popestimate2010".toList " >= ".toList (post .min_popest2010) str
  let str := addBound "popestimate2010".toList " <= ".toList (post .max_popest2010) str
  let str := addBound "popestimate2011".toList " >= ".toList (post .min_popest2011) str
  let str := addBound "popestimate2011".toList " <= ".toList (post .max_popest2011) str
  let str := addBound "huest_2010".toList " >= ".toList (post .min_huest2010) str
  let str := addBound "huest_2010".toList " <= ".toList (post .max_huest2010) str
  let str := addBound "huest_2011".toList " >= ".toList (post .min_huest2011) str
  let str := addBound "huest_2011".toList " <= ".toList (post .max_huest2011) str
  str.take (str.length - 6) ++ " ;".toList

/-! ## Conditions

What the fields mean for a row. A condition on a column that is NULL is not met, whatever it says.
-/

inductive TextColumn
  | name
  | region
  | division
  deriving DecidableEq

inductive NumberColumn
  | popestimate2010
  | popestimate2011
  | huest_2010
  | huest_2011
  deriving DecidableEq

namespace TextColumn

def all : List TextColumn := [name, region, division]

def word : TextColumn → Text
  | name => "name".toList
  | region => "region".toList
  | division => "division".toList

/-- The field for its keywords. -/
def keywords : TextColumn → SearchName
  | name => .state_keywords
  | region => .region_keywords
  | division => .div_keywords

end TextColumn

namespace NumberColumn

def all : List NumberColumn := [popestimate2010, popestimate2011, huest_2010, huest_2011]

def word : NumberColumn → Text
  | popestimate2010 => "popestimate2010".toList
  | popestimate2011 => "popestimate2011".toList
  | huest_2010 => "huest_2010".toList
  | huest_2011 => "huest_2011".toList

/-- The fields for its bounds. -/
def minimum : NumberColumn → SearchName
  | popestimate2010 => .min_popest2010
  | popestimate2011 => .min_popest2011
  | huest_2010 => .min_huest2010
  | huest_2011 => .min_huest2011

def maximum : NumberColumn → SearchName
  | popestimate2010 => .max_popest2010
  | popestimate2011 => .max_popest2011
  | huest_2010 => .max_huest2010
  | huest_2011 => .max_huest2011

end NumberColumn

def Row.text (row : Row) : TextColumn → Option Text
  | .name => row.name
  | .region => row.region
  | .division => row.division

def Row.number (row : Row) : NumberColumn → Option Nat
  | .popestimate2010 => row.popestimate2010
  | .popestimate2011 => row.popestimate2011
  | .huest_2010 => row.huest_2010
  | .huest_2011 => row.huest_2011

/-- A condition on a column: a pattern for its text, or a bound for its number. -/
inductive Condition
  | like (column : TextColumn) (pattern : Text)
  | least (column : NumberColumn) (bound : Text)
  | most (column : NumberColumn) (bound : Text)
  deriving DecidableEq

/-- Two characters are the same if they are so in lower case. -/
def sameLower (lower : Char → Char) (c d : Char) : Bool := lower c == lower d

namespace Condition

/-- No condition holds of NULL. -/
def holds (lower : Char → Char) : Condition → Row → Bool
  | like column pattern, row => (row.text column).any (Lib.Like.like (sameLower lower) pattern)
  | least column bound, row => (row.number column).any (decimal bound ≤ ·)
  | most column bound, row => (row.number column).any (· ≤ decimal bound)

/-- The condition in a statement. -/
def write : Condition → Text
  | like column pattern => column.word ++ " ILIKE ".toList ++ literal '\'' pattern
  | least column bound => column.word ++ " >= ".toList ++ bound
  | most column bound => column.word ++ " <= ".toList ++ bound

/-- A server accepts the pattern, and the bound is a numeral. -/
def Complete : Condition → Prop
  | like _ pattern => (pieces pattern).isSome ∧ '\x00' ∉ pattern
  | least _ bound => bound ≠ [] ∧ ∀ c ∈ bound, c.isDigit
  | most _ bound => bound ≠ [] ∧ ∀ c ∈ bound, c.isDigit

end Condition

/-- The statement with these conditions. -/
def searchStatement (conditions : List Condition) : Text :=
  "SELECT * FROM gooi.pop_housing_estimate_state ".toList ++
    if conditions = [] then " ;".toList
    else "where ".toList ++ ("  AND  ".toList.intercalate (conditions.map Condition.write) ++ "  ;".toList)

/-- What a server does with a search, its lower case being `lower`. -/
structure Server.Searches (server : Server) (lower : Char → Char) : Prop where
  search : ∀ {table conditions}, (∀ c ∈ conditions, c.Complete) →
    (server.exec table (searchStatement conditions)).1 ~ table ∧
      ∃ rows, (server.exec table (searchStatement conditions)).2 = some rows ∧
        rows ~ table.filter fun row => conditions.all (·.holds lower row)

/-! ## What is typed

Every field has some text. A field that was left empty puts no condition, and all others do, whether or not the
text makes sense as a pattern or as a numeral.
-/

/-- A field of the form with its text. -/
inductive Entry
  | keywords (column : TextColumn) (text : Text)
  | minimum (column : NumberColumn) (bound : Text)
  | maximum (column : NumberColumn) (bound : Text)

namespace Entry

/-- The field is not empty. -/
def given : Entry → Bool
  | keywords _ text => text.length != 0
  | minimum _ bound => bound.length != 0
  | maximum _ bound => bound.length != 0

/-- The condition as the page writes it. -/
def text : Entry → Text
  | keywords column text => column.word ++ " ILIKE '%".toList ++ (text ++ "%'".toList)
  | minimum column bound => column.word ++ " >= ".toList ++ bound
  | maximum column bound => column.word ++ " <= ".toList ++ bound

def condition : Entry → Condition
  | keywords column text => .like column ('%' :: (text ++ ['%']))
  | minimum column bound => .least column bound
  | maximum column bound => .most column bound

def Unquoted : Entry → Prop
  | keywords _ text => '\'' ∉ text
  | minimum _ _ => True
  | maximum _ _ => True

/-- What is appended for the field. -/
def add (e : Entry) (str : Text) : Text := if e.given then str ++ (e.text ++ "  AND  ".toList) else str

end Entry

namespace Post

/-- The fields, in the order of the form. -/
def entries (post : Post) : List Entry :=
  (TextColumn.all.map fun column => .keywords column (post column.keywords)) ++
    NumberColumn.all.flatMap fun column =>
      [.minimum column (post column.minimum), .maximum column (post column.maximum)]

/-- What was typed. -/
def criteria (post : Post) : List Condition := (post.entries.filter Entry.given).map Entry.condition

end Post

variable {s t rest : Text} {post : Post} {e : Entry} {es : List Entry} {c : Condition} {cs : List Condition}

theorem Post.mem_entries : e ∈ post.entries ↔
    (∃ column : TextColumn, e = .keywords column (post column.keywords)) ∨
      (∃ column : NumberColumn, e = .minimum column (post column.minimum)) ∨
        ∃ column : NumberColumn, e = .maximum column (post column.maximum) := by
  have htext : ∀ column, column ∈ TextColumn.all := fun column => by cases column <;> decide
  have hnumber : ∀ column, column ∈ NumberColumn.all := fun column => by cases column <;> decide
  simp only [entries, List.mem_append, List.mem_map, List.mem_flatMap, htext, hnumber, true_and,
    List.mem_cons, List.not_mem_nil, or_false, exists_or, eq_comm]

/-! ## The statement of the page

The fields add their conditions one after the other, each with an `AND` behind it, and then the end is cut off:
the last `AND`, or the word in front of the conditions if there are none.
-/

theorem add_eq (es : List Entry) (str : Text) :
    es.foldl (fun str e => e.add str) str =
      str ++ (es.filter Entry.given).flatMap fun e => e.text ++ "  AND  ".toList := by
  -- Over the fields: one that is not given adds nothing.
  induction es generalizing str with
  | nil => simp
  | cons e es ih =>
      rw [List.foldl_cons, ih, Entry.add]
      cases hgiven : e.given <;> simp [hgiven]

theorem add_keywords (column : TextColumn) (text str : Text) :
    (Entry.keywords column text).add str = addKeywords column.word text str := by
  have hend : "%'  AND  ".toList = "%'".toList ++ "  AND  ".toList := rfl
  unfold Entry.add Entry.text Entry.given addKeywords
  simp only [hend, List.append_assoc, bne_iff_ne]

theorem add_minimum (column : NumberColumn) (bound str : Text) :
    (Entry.minimum column bound).add str = addBound column.word " >= ".toList bound str := by
  unfold Entry.add Entry.text Entry.given addBound
  simp only [List.append_assoc, bne_iff_ne]

theorem add_maximum (column : NumberColumn) (bound str : Text) :
    (Entry.maximum column bound).add str = addBound column.word " <= ".toList bound str := by
  unfold Entry.add Entry.text Entry.given addBound
  simp only [List.append_assoc, bne_iff_ne]

/-- The form puts its fields into the statement one after the other. -/
theorem searchQuery_eq_add (post : Post) :
    searchQuery post =
      let str := post.entries.foldl (fun str e => e.add str)
        "SELECT * FROM gooi.pop_housing_estimate_state where ".toList
      str.take (str.length - 6) ++ " ;".toList := by
  unfold searchQuery
  generalize "SELECT * FROM gooi.pop_housing_estimate_state where ".toList = str
  simp only [Post.entries, TextColumn.all, NumberColumn.all, List.map_cons, List.map_nil,
    List.flatMap_cons, List.flatMap_nil, List.cons_append, List.nil_append, List.foldl_cons, List.foldl_nil,
    add_keywords, add_minimum, add_maximum]
  rfl

theorem take_append_six (s t : Text) (ht : t.length = 6) : (s ++ t).take ((s ++ t).length - 6) = s := by
  rw [List.length_append, ht, Nat.add_sub_cancel, List.take_left]

/-- What is cut off is the last AND, or the word in front of the conditions if there are none. -/
theorem searchQuery_eq (post : Post) :
    searchQuery post = "SELECT * FROM gooi.pop_housing_estimate_state ".toList ++
      if post.entries.filter Entry.given = [] then " ;".toList
      else "where ".toList ++
        ("  AND  ".toList.intercalate ((post.entries.filter Entry.given).map Entry.text) ++ "  ;".toList) := by
  have hwhere : "SELECT * FROM gooi.pop_housing_estimate_state where ".toList =
      "SELECT * FROM gooi.pop_housing_estimate_state ".toList ++ "where ".toList := rfl
  rw [searchQuery_eq_add, add_eq]
  -- Without conditions the six characters are `where` and its blank, otherwise the last `AND`, but for one blank.
  by_cases hnone : post.entries.filter Entry.given = []
  · simp only [hnone, List.flatMap_nil, List.append_nil, if_pos]
    rw [hwhere, take_append_six _ _ rfl]
  · have hmap : (post.entries.filter Entry.given).flatMap (fun e => e.text ++ "  AND  ".toList) =
        ((post.entries.filter Entry.given).map Entry.text).flatMap (· ++ "  AND  ".toList) := by
      rw [List.flatMap_map]
    have hsep : "  AND  ".toList = " ".toList ++ " AND  ".toList := rfl
    have hend : "  ;".toList = " ".toList ++ " ;".toList := rfl
    rw [if_neg hnone, hmap, flatMap_intercalate (by simpa using hnone)]
    dsimp only
    rw [hwhere, hend]
    generalize "  AND  ".toList.intercalate _ = conditions
    rw [hsep, ← List.append_assoc, ← List.append_assoc, take_append_six _ _ rfl]
    simp

/-! ## Quotes

A keyword with a single quote is shorter in the statement of the page than as a literal, and nothing else makes
the one longer than the other.
-/

theorem Entry.text_keywords (column : TextColumn) (text : Text) :
    (Entry.keywords column text).text =
      (column.word ++ " ILIKE ".toList) ++ '\'' :: ('%' :: (text ++ ['%']) ++ ['\'']) := by
  simp [Entry.text]

theorem Entry.text_eq_iff : e.text = e.condition.write ↔ e.Unquoted := by
  -- Only keywords are put between quotes.
  cases e with
  | keywords column text =>
      rw [Entry.text_keywords]
      show _ = (column.word ++ " ILIKE ".toList) ++ literal '\'' ('%' :: (text ++ ['%'])) ↔ _
      rw [List.append_right_inj, literal_eq_iff]
      simp [Entry.Unquoted]
  | minimum column bound => exact iff_of_true rfl trivial
  | maximum column bound => exact iff_of_true rfl trivial

theorem Entry.length_text_le (e : Entry) : e.text.length ≤ e.condition.write.length := by
  cases e with
  | keywords column text =>
      rw [Entry.text_keywords]
      show _ ≤ ((column.word ++ " ILIKE ".toList) ++ literal '\'' ('%' :: (text ++ ['%']))).length
      generalize column.word ++ " ILIKE ".toList = front
      rw [List.length_append, List.length_append]
      exact Nat.add_le_add_left (length_le_literal '\'' _) _
  | minimum column bound => exact Nat.le_refl _
  | maximum column bound => exact Nat.le_refl _

/-- The conditions come out the same if and only if each of them does. -/
theorem entries_eq_iff (es : List Entry) :
    "  AND  ".toList.intercalate (es.map Entry.text) =
        "  AND  ".toList.intercalate ((es.map Entry.condition).map Condition.write) ↔ ∀ e ∈ es, e.Unquoted := by
  have hlength : List.Forall₂ (fun s t => s.length ≤ t.length) (es.map Entry.text)
      ((es.map Entry.condition).map Condition.write) := by
    rw [List.map_map, List.forall₂_map_left_iff, List.forall₂_map_right_iff, List.forall₂_same]
    exact fun e _ => e.length_text_le
  rw [intercalate_eq_iff hlength, List.map_map, List.map_inj_left]
  exact forall₂_congr fun e _ => Entry.text_eq_iff

/-- **The statement of the page has the conditions that were typed** if and only if there is no single quote among the
keywords. -/
theorem searchQuery_iff (post : Post) :
    searchQuery post = searchStatement post.criteria ↔ ∀ column : TextColumn, '\'' ∉ post column.keywords := by
  have hquery : searchQuery post = searchStatement post.criteria ↔
      ∀ e ∈ post.entries.filter Entry.given, e.Unquoted := by
    have hjoined := entries_eq_iff (post.entries.filter Entry.given)
    rw [← hjoined, searchQuery_eq]
    unfold searchStatement Post.criteria
    -- With nothing given, the two statements are the same word for word.
    by_cases hnone : post.entries.filter Entry.given = []
    · rw [hnone]
      exact iff_of_true rfl rfl
    · have hsome : (post.entries.filter Entry.given).map Entry.condition ≠ [] := by simpa using hnone
      rw [if_neg hnone, if_neg hsome]
      generalize "SELECT * FROM gooi.pop_housing_estimate_state ".toList = front
      generalize "where ".toList = word
      generalize "  ;".toList = back
      rw [List.append_right_inj, List.append_right_inj, List.append_left_inj]
  rw [hquery]
  constructor
  · intro h column
    -- An empty field has no quote; of the others each is as it would be as a literal.
    by_cases hempty : post column.keywords = []
    · rw [hempty]
      exact List.not_mem_nil
    · have hmem : Entry.keywords column (post column.keywords) ∈ post.entries :=
        Post.mem_entries.mpr (Or.inl ⟨column, rfl⟩)
      exact h _ (List.mem_filter.mpr ⟨hmem, by simpa [Entry.given] using hempty⟩)
  · intro h e he
    have hentry := Post.mem_entries.mp (List.mem_filter.mp he).1
    -- The bounds have no part in it.
    rcases hentry with ⟨column, rfl⟩ | ⟨column, rfl⟩ | ⟨column, rfl⟩
    · exact h column
    · trivial
    · trivial

/-! ## A reader

It takes the conditions off a statement with complete ones, for servers that are to be run.
-/

def condition : Reader Char Condition := fun s =>
  let word := s.takeWhile (· != ' ')
  let s := s.dropWhile (· != ' ')
  match TextColumn.all.find? (·.word == word), NumberColumn.all.find? (·.word == word) with
  | some column, _ =>
    (after " ILIKE ".toList (readLiteral '\'') s).map fun p => (.like column p.1, p.2)
  | none, some column =>
    match after " >= ".toList digits s with
    | some (bound, s) => some (.least column bound, s)
    | none => (after " <= ".toList digits s).map fun p => (.most column p.1, p.2)
  | none, none => none

def parseSearch (query : Text) : Option (List Condition) := do
  let s ← query.dropPrefix? "SELECT * FROM gooi.pop_housing_estimate_state ".toList
  match s.dropPrefix? "where ".toList with
  | none => if s = " ;".toList then some [] else none
  | some s => do
    let (conditions, rest) ← sepBy "  AND  ".toList condition s.length s
    if rest = "  ;".toList then some conditions else none

/-- What follows a condition begins with a blank. -/
theorem head_of_followed (h : Followed "  AND  ".toList "  ;".toList s) : s.head? = some ' ' := by
  rcases h with ⟨t, rfl⟩ | rfl <;> rfl

theorem takeWhile_word {word : Text} (hword : word.all (· != ' ') = true) :
    (word ++ ' ' :: s).takeWhile (· != ' ') = word ∧ (word ++ ' ' :: s).dropWhile (· != ' ') = ' ' :: s := by
  have hall : ∀ c ∈ word, (c != ' ') = true := List.all_eq_true.mp hword
  rw [List.takeWhile_append_of_pos hall, List.dropWhile_append_of_pos hall]
  simp

theorem TextColumn.read (column : TextColumn) (s : Text) :
    P5.condition (column.word ++ ' ' :: s) =
      (after " ILIKE ".toList (readLiteral '\'') (' ' :: s)).map fun p => (.like column p.1, p.2) := by
  have hword : column.word.all (· != ' ') = true := by cases column <;> decide +kernel
  have hfind : TextColumn.all.find? (·.word == column.word) = some column := by
    cases column <;> decide +kernel
  obtain ⟨htake, hdrop⟩ := takeWhile_word (s := s) hword
  simp only [P5.condition, htake, hdrop, hfind]

theorem NumberColumn.read (column : NumberColumn) (s : Text) :
    P5.condition (column.word ++ ' ' :: s) =
      match after " >= ".toList digits (' ' :: s) with
      | some (bound, s) => some (.least column bound, s)
      | none => (after " <= ".toList digits (' ' :: s)).map fun p => (.most column p.1, p.2) := by
  have hword : column.word.all (· != ' ') = true := by cases column <;> decide +kernel
  have htext : TextColumn.all.find? (·.word == column.word) = none := by cases column <;> decide +kernel
  have hfind : NumberColumn.all.find? (·.word == column.word) = some column := by
    cases column <;> decide +kernel
  obtain ⟨htake, hdrop⟩ := takeWhile_word (s := s) hword
  simp only [P5.condition, htake, hdrop, htext, hfind]

theorem read_bound {bound : Text} (h : bound ≠ [] ∧ ∀ c ∈ bound, c.isDigit) (hs : s.head? = some ' ') :
    digits (bound ++ s) = some (bound, s) := by
  obtain ⟨s, rfl⟩ := List.head?_eq_some_iff.1 hs
  exact digits_append h.1 h.2 (by decide)

/-- A condition that is complete is read back. -/
theorem Condition.stands (h : c.Complete) :
    Stands (Followed "  AND  ".toList "  ;".toList) P5.condition c.write c := by
  intro s hs
  have hblank := head_of_followed hs
  -- By the kind of condition; the column is told by the word in front of the first blank.
  cases c with
  | like column pattern =>
      have htext : (Condition.like column pattern).write ++ s =
          column.word ++ ' ' :: ("ILIKE ".toList ++ (literal '\'' pattern ++ s)) := by simp [Condition.write]
      have hword : ' ' :: ("ILIKE ".toList ++ (literal '\'' pattern ++ s)) =
          " ILIKE ".toList ++ (literal '\'' pattern ++ s) := rfl
      have hread : readLiteral '\'' (literal '\'' pattern ++ s) = some (pattern, s) :=
        readLiteral_iff.2 ⟨rfl, by simp [hblank]⟩
      rw [htext, column.read, hword, after_append, hread]
      rfl
  | least column bound =>
      have htext : (Condition.least column bound).write ++ s =
          column.word ++ ' ' :: (">= ".toList ++ (bound ++ s)) := by simp [Condition.write]
      have hword : ' ' :: (">= ".toList ++ (bound ++ s)) = " >= ".toList ++ (bound ++ s) := rfl
      rw [htext, column.read, hword, after_append, read_bound h hblank]
  | most column bound =>
      have htext : (Condition.most column bound).write ++ s =
          column.word ++ ' ' :: ("<= ".toList ++ (bound ++ s)) := by simp [Condition.write]
      -- The reader tries the other comparison first, which fails at its first character.
      have hother : after " >= ".toList digits (' ' :: ("<= ".toList ++ (bound ++ s))) = none := rfl
      have hword : ' ' :: ("<= ".toList ++ (bound ++ s)) = " <= ".toList ++ (bound ++ s) := rfl
      rw [htext, column.read, hother, hword, after_append, read_bound h hblank]
      rfl

/-- **A statement with complete conditions is read back.** -/
theorem parseSearch_searchStatement (h : ∀ c ∈ cs, c.Complete) : parseSearch (searchStatement cs) = some cs := by
  unfold parseSearch searchStatement
  rewrite [dropPrefix?_append]
  simp only [Option.bind_eq_bind, Option.bind_some]
  -- Without conditions the statement ends at once.
  by_cases hnone : cs = []
  · subst hnone
    rfl
  · rw [if_neg hnone, dropPrefix?_append]
    have hstands : List.Forall₂ (Stands (Followed "  AND  ".toList "  ;".toList) P5.condition)
        (cs.map Condition.write) cs := by
      rw [List.forall₂_map_left_iff, List.forall₂_same]
      exact fun c hc => Condition.stands (h c hc)
    have hsep : "  AND  ".toList ≠ [] := List.cons_ne_nil _ _
    have hlen := length_intercalate hsep (cs.map Condition.write)
    have hroom : (cs.map Condition.write).length ≤
        ("  AND  ".toList.intercalate (cs.map Condition.write) ++ "  ;".toList).length := by
      have hend : 1 ≤ "  ;".toList.length := by decide
      rw [List.length_append]
      omega
    have hread := sepBy_complete rfl hstands (by simpa using hnone) hroom
    dsimp only
    rw [hread]
    rfl

end CS640.P5
