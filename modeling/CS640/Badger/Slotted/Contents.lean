import CS640.Badger.Slotted.Calls
import CS640.Badger.Scan.Records

/-!
# What a page shows of its records

The record in each slot (`recordAt`), which is what getting it by its id and walking over the page show, and
the calls of `StoreOp` on a page that is in order: they return and store, or throw and do nothing
(`run_cases`). None of this depends on the link to the next page.
-/

namespace CS640.Badger

open CS640.Lib Prog

variable {D : Type} [DataArea D]

namespace Page

/-- The record in slot `n`, if there is one. -/
def recordAt (p : Page D) (n : Nat) : Option (List UInt8) :=
  if 0 < n ∧ n ≤ p.header.numSlots ∧ (p.slot n).used = true then some (p.record n) else none

variable {p q : Page D} {n : Nat} {b : List UInt8}

theorem recordAt_eq_some : p.recordAt n = some b ↔ p.Holds n ∧ p.record n = b := by
  unfold recordAt
  split
  · next h => simp [h, Holds]
  · next h => simp [h, Holds]

/-- A walk over the page comes to the record. -/
theorem mem_records_iff : (n, b) ∈ p.records ↔ p.recordAt n = some b := by
  rw [mem_records, recordAt_eq_some, eq_comm (a := b)]

/-! ## The link

The next page is a number in the header that no call on records reads, so a page is in order just if it is without
its link (`Page.contents`).
-/

theorem tidy_of_contents (h : p.contents.Tidy) : p.Tidy where
  counted :=
    { layout := h.counted.layout.renumber p.header.currentPageNumber p.header.nextPageNumber
      free := h.counted.free }
  last := h.last

theorem tidy_contents (h : p.Tidy) : p.contents.Tidy where
  counted :=
    { layout := h.counted.layout.renumber p.header.currentPageNumber invalidNumber
      free := h.counted.free }
  last := h.last

end Page

namespace Store

variable {page : Page D} {live : RecordId → Option (List UInt8)}

theorem kept_of_contents (h : (Store.mk page.contents live).Kept) : (Store.mk page live).Kept where
  tidy := Page.tidy_of_contents h.tidy
  inv := ⟨(Page.tidy_of_contents h.tidy).counted.layout, h.inv.live⟩
  held := h.held

theorem kept_contents (h : (Store.mk page live).Kept) : (Store.mk page.contents live).Kept where
  tidy := Page.tidy_contents h.tidy
  inv := ⟨(Page.tidy_contents h.tidy).counted.layout, h.inv.live⟩
  held := h.held

/-- The page has just the live records. -/
theorem Kept.recordAt {s : Store D} (h : s.Kept) (n : Nat) :
    s.page.recordAt n = s.live ⟨s.page.pageNumber, n⟩ := by
  apply Option.ext
  intro b
  rw [Page.recordAt_eq_some]
  constructor
  · rintro ⟨hn, rfl⟩
    obtain ⟨data, hdata⟩ := Option.ne_none_iff_exists'.mp (h.held n hn)
    obtain ⟨-, -, hrecord⟩ := h.inv.live _ data hdata
    rw [hrecord]
    exact hdata
  · intro hlive
    exact (h.inv.live _ b hlive).2

/-- A page in order keeps the records that it has. -/
theorem kept_of_recordAt (htidy : page.Tidy) (hlive : ∀ n, live ⟨page.pageNumber, n⟩ = page.recordAt n)
    (honly : ∀ id, id.pageNumber ≠ page.pageNumber → live id = none) : (Store.mk page live).Kept where
  tidy := htidy
  inv := by
    refine ⟨htidy.counted.layout, ?_⟩
    intro id b hid
    dsimp only at hid ⊢
    have hpage : id.pageNumber = page.pageNumber := by
      by_contra hne
      rw [honly id hne] at hid
      cases hid
    obtain ⟨p, n⟩ := id
    obtain rfl : p = page.pageNumber := hpage
    rw [hlive, Page.recordAt_eq_some] at hid
    exact ⟨rfl, hid⟩
  held n hn := by
    dsimp only
    rw [hlive, Page.recordAt_eq_some.mpr ⟨hn, rfl⟩]
    exact Option.some_ne_none _

end Store

/-! ## The calls

All three calls in one form, with the id of the record and what is in its slot afterwards. So whoever goes over
the calls of a run has one case to look at.
-/

/-- The call, with the id of its record for an answer. -/
def StoreOp.run : StoreOp → Prog Exn (Page D) RecordId
  | .insert recordData => Page.insertRecord recordData
  | .update id recordData => do
    Page.updateRecord id recordData
    pure id
  | .delete id => do
    Page.deleteRecord id
    pure id

/-- The record after the call. -/
def StoreOp.data : StoreOp → Option (List UInt8)
  | .insert recordData => some recordData
  | .update _ recordData => some recordData
  | .delete _ => none

/-- A call that is `Calm` returns and leaves the page in order, or throws and leaves it as it is. -/
theorem Store.Kept.run_cases {s : Store D} {op : StoreOp} (h : s.Kept) (hcalm : s.Calm op) :
    (∃ id page, op.run s.page = (.ok id, page) ∧ id.pageNumber = s.page.pageNumber ∧
        page.pageNumber = s.page.pageNumber ∧ (Store.mk page (Function.update s.live id op.data)).Kept) ∨
      ∃ e, op.run s.page = (.error (.throw e), s.page) := by
  -- by the call; an insertion that has no room and an id that is refused throw
  cases op with
  | insert data =>
      rcases h.insert_cases hcalm with ⟨-, n, page, hcall, -, hkept⟩ | ⟨-, hcall⟩
      · have hlive := hkept.inv.live ⟨s.page.pageNumber, n⟩ data (Function.update_self ..)
        exact Or.inl ⟨_, page, hcall, rfl, hlive.1.symm, hkept⟩
      · exact Or.inr ⟨_, hcall⟩
  | update id data =>
      rcases hcalm with hrefuses | ⟨hlive, ha⟩
      · exact Or.inr ⟨_, bind_of_error (Page.updateRecord_refused hrefuses)⟩
      · obtain ⟨hid, -⟩ := h.inv.holds_of_live hlive
        rcases h.update_known data hlive ha with ⟨page, hcall, hkept⟩ | hcall
        · have hlive' := hkept.inv.live id data (Function.update_self ..)
          exact Or.inl ⟨id, page, bind_of_ok hcall, hid, hlive'.1.symm.trans hid, hkept⟩
        · exact Or.inr ⟨_, bind_of_error hcall⟩
  | delete id =>
      rcases hcalm with hrefuses | ⟨hlive, ha⟩
      · exact Or.inr ⟨_, bind_of_error (Page.deleteRecord_refused hrefuses)⟩
      · obtain ⟨hid, hn⟩ := h.inv.holds_of_live hlive
        obtain ⟨page, hcall, hsame, hgone, htidy⟩ := Page.deleteRecord_tidy h.tidy hid hn ha
        exact Or.inl ⟨id, page, bind_of_ok hcall, hid, hsame.pageNumber, h.removed hid hsame hgone htidy⟩

end CS640.Badger
