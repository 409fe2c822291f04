import CS640.Badger.Slotted.Records
import CS640.Lib.Run

/-!
# The slotted page as a record store

Any sequence of calls of `insertRecord`, `updateRecord` and `deleteRecord` on a page, next to what each
live record id should read as. A page keeps its records as long as no record is removed that is not
`Aligned`; otherwise the bytes of another record may be lost (`recordStore_lost`). Both versions do the
same here.

Each call has a rule of the form "from a page with the layout, it changes one record and leaves the others":
`SameBut` for what is left alone, `Stored` for the record that is written. The rules say nothing about calls that
throw, as these leave the page or are excluded in `Ok`. The invariant of a run is `Inv`: the page has the layout,
and each live id leads to a slot that holds its bytes.
-/

namespace CS640.Badger

open CS640.Lib Prog

variable {D : Type} [DataArea D]

namespace Page

variable {p q r : Page D} {k m n : Nat} {id : RecordId} {data : List UInt8}

/-! ## The calls

The rules of the single calls. `updateRecord` removes the old record and keeps its slot, so it is composed of the
rules for removing and for adding (`SameBut.trans`).
-/

theorem SameBut.trans (h : SameBut p k q) (h' : SameBut q k r) : SameBut p k r where
  pageNumber := h'.pageNumber.trans h.pageNumber
  layout := h'.layout
  holds m hne := (h'.holds m hne).trans (h.holds m hne)
  record m hne hm := (h'.record m hne ((h.holds m hne).mpr hm)).trans (h.record m hne hm)

/-- `q` is `p` with the record `data` in slot `k`. -/
structure Stored (p : Page D) (k : Nat) (data : List UInt8) (q : Page D) : Prop where
  same : SameBut p k q
  holds : q.Holds k
  record : q.record k = data

theorem validateRecordId_of_holds (h : p.Readable) (hid : id.pageNumber = p.pageNumber)
    (hn : p.Holds id.slotNumber) : validateRecordId id p = (.ok (), p) := by
  have hle := h.slot_le_dataSize hn
  have hpos := hn.1
  unfold validateRecordId
  rw [bind_of_ok (get_apply p), if_neg (not_not.mpr hid), if_neg (by omega),
    if_neg fun hbeyond => absurd hn.2.1 (Nat.not_le.mpr hbeyond.1), if_neg (by simp [hn.2.2])]
  rfl

/-- A record reads back. -/
theorem getRecord_of_holds (h : p.Readable) (hid : id.pageNumber = p.pageNumber)
    (hn : p.Holds id.slotNumber) : getRecord id p = (.ok (p.record id.slotNumber), p) := by
  have hwithin : (p.slot id.slotNumber).itemOffset + (p.slot id.slotNumber).itemLength ≤ dataSize :=
    h.within _ hn
  unfold getRecord
  rw [bind_of_ok (validateRecordId_of_holds h hid hn), bind_of_ok (get_apply p)]
  rw [if_neg (by omega), Nat.min_eq_left (by omega)]
  rfl

theorem released_removeData {b : Bool} (h : p.Layout) (hk : p.Holds k) (ha : p.Aligned k) :
    Released (removeData k p) k (releaseSlot k b (removeData k p)) := by
  have hd := dataRemoved_removeData h hk ha
  apply released_releaseSlot
  · rw [hd.header]
    exact h.lower
  · exact hd.full
  · exact hk.1
  · exact h.slot_le_dataSize hk

/-- Where a record is removed and its slot kept, its space is free. -/
theorem room_removed (h : p.Layout) (hk : p.Holds k) (ha : p.Aligned k)
    (hspace : ¬ data.length > p.getFreeSpace + (p.slot k).itemLength) :
    (releaseSlot k false (removeData k p)).Layout ∧
      (releaseSlot k false (removeData k p)).header.numSlots = p.header.numSlots ∧
      data.length ≤ (releaseSlot k false (removeData k p)).getFreeSpace := by
  have hd := dataRemoved_removeData h hk ha
  have hr := released_removeData (b := false) h hk ha
  have hslots : (releaseSlot k false (removeData k p)).header.numSlots = p.header.numSlots := by
    rw [numSlots_releaseSlot_false, hd.header]
  refine ⟨(sameBut_removed h hk hd hr).layout, hslots, ?_⟩
  have hle := h.le
  have hlow := h.lower
  unfold getFreeSpace at hspace ⊢
  rw [hr.lower, hslots, upper_removed h hk hd hr]
  unfold lengthOf
  omega

theorem deleteRecordAllow_of_holds {b : Bool} (h : p.Layout) (hid : id.pageNumber = p.pageNumber)
    (hn : p.Holds id.slotNumber) : deleteRecordAllow id b p =
      (.ok (), releaseSlot id.slotNumber b (removeData id.slotNumber p)) := by
  unfold deleteRecordAllow
  rw [bind_of_ok (validateRecordId_of_holds h.readable hid hn), bind_of_ok (modify_apply _ p)]
  rfl

/-- `deleteRecord` takes the one record away. -/
theorem wp_deleteRecord (h : p.Layout) (hid : id.pageNumber = p.pageNumber)
    (hn : p.Holds id.slotNumber) (ha : p.Aligned id.slotNumber) :
    wp (deleteRecord id) (fun _ q => SameBut p id.slotNumber q) (fun _ _ => False) p := by
  unfold deleteRecord
  rw [wp_of_ok (deleteRecordAllow_of_holds h hid hn)]
  exact sameBut_removed h hn (dataRemoved_removeData h hn ha) (released_removeData h hn ha)

/-- A record goes into a slot that is free, if there is room for it. -/
theorem wp_insertRecordInSlot (h : p.Layout) (hk : 0 < k) (hle : k ≤ p.header.numSlots)
    (hspace : (p.slot k).used = false → data.length ≤ p.getFreeSpace) :
    wp (insertRecordInSlot k data) (fun _ q => Stored p k data q) (fun _ _ => True) p := by
  unfold insertRecordInSlot
  rw [wp_bind, wp_get, wp_ite, wp_ite]
  refine ⟨fun _ => trivial, fun _ => ⟨fun _ => trivial, fun hfree => ?_⟩⟩
  have hfree := Bool.eq_false_of_not_eq_true hfree
  have hspace := hspace hfree
  exact ⟨sameBut_fillSlot h hspace hk hle hfree, holds_fillSlot_self h hspace hk hle,
    record_fillSlot_self h hspace hk hle⟩

theorem wp_updateRecord (h : p.Layout) (hid : id.pageNumber = p.pageNumber)
    (hn : p.Holds id.slotNumber) (ha : p.Aligned id.slotNumber) :
    wp (updateRecord id data) (fun _ q => Stored p id.slotNumber data q) (fun _ _ => True) p := by
  have hd := dataRemoved_removeData h hn ha
  have hr := released_removeData (b := false) h hn ha
  have hsame := sameBut_removed h hn hd hr
  unfold updateRecord
  rw [wp_bind, wp_of_ok (validateRecordId_of_holds h.readable hid hn), wp_bind, wp_get, wp_ite]
  refine ⟨fun _ => trivial, fun hspace => ?_⟩
  obtain ⟨-, hslots, hroom⟩ := room_removed h hn ha hspace
  rw [wp_bind, wp_of_ok (deleteRecordAllow_of_holds h hid hn)]
  apply wp_mono (wp_insertRecordInSlot hsame.layout hn.1 (by rw [hslots]; exact hn.2.1) fun _ => hroom)
  · intro _ q hq
    exact ⟨hsame.trans hq.same, hq.holds, hq.record⟩
  · exact fun _ _ _ => trivial

theorem sameBut_addSlot (h : p.Layout)
    (hroom : p.header.freeSpaceLowerBound + slotSize ≤ p.header.freeSpaceUpperBound)
    (hfree : (p.slot (p.header.numSlots + 1)).used = false) :
    SameBut p (p.header.numSlots + 1) p.addSlot := by
  have hholds : ∀ m, p.addSlot.Holds m ↔ p.Holds m := by
    intro m
    -- a new slot that does not read as in use holds nothing
    constructor
    · intro ⟨hm, hle, hused⟩
      have hne : m ≠ p.header.numSlots + 1 := by
        intro heq
        have hused : (p.slot m).used = true := hused
        rw [heq, hfree] at hused
        exact absurd hused (by simp)
      have hle : m ≤ p.header.numSlots + 1 := hle
      exact ⟨hm, by omega, hused⟩
    · intro ⟨hm, hle, hused⟩
      exact ⟨hm, Nat.le_succ_of_le hle, hused⟩
  have hfilled : p.addSlot.filled = p.filled := by
    ext m
    rw [mem_filled, mem_filled, hholds]
    rfl
  refine ⟨rfl, ⟨h.full, rfl, ?_, ?_, ?_, ?_⟩, fun m _ => hholds m, fun _ _ _ => rfl⟩
  · have hlower := h.lower
    dsimp only [addSlot]
    simp only [slotSize] at hlower hroom ⊢
    omega
  · rw [hfilled]
    exact h.tiles
  · intro m hm
    exact h.offset_le m ((hholds m).mp hm)
  · intro m hm hle
    show ¬ NoFlag p.data m
    by_cases heq : m = p.header.numSlots + 1
    · rw [heq]
      exact not_noFlag_of_unused hfree
    · have hle : m ≤ p.header.numSlots + 1 := hle
      exact h.flags m hm (by omega)

/-- The slot is one of the page, and if it is free, then the page is as before and has room. -/
theorem wp_getAvailableSlot (h : p.Layout) (hspace : hasSpaceForRecord data p = true) :
    wp getAvailableSlot
      (fun n q => 0 < n ∧ n ≤ q.header.numSlots ∧ q.pageNumber = p.pageNumber ∧
        ((q.slot n).used = false →
          ¬ p.Holds n ∧ SameBut p n q ∧ data.length ≤ q.getFreeSpace))
      (fun _ _ => True) p := by
  unfold hasSpaceForRecord at hspace
  rw [decide_eq_true_iff] at hspace
  unfold getAvailableSlot
  rw [wp_bind, wp_get, wp_ite]
  -- a slot that is free is reused, or a new one is added
  constructor
  · intro hreuse
    rw [if_neg (by omega)] at hspace
    rw [wp_bind, wp_assert]
    refine ⟨fun hvalid => ?_, fun _ => trivial⟩
    rw [wp_pure]
    cases hfind : (List.range' 1 p.header.numSlots).find? fun i => !(p.slot i).used with
    | none => simp [hfind] at hvalid
    | some n =>
        have hmem := List.mem_of_find?_eq_some hfind
        rw [List.mem_range'_1] at hmem
        rw [Option.getD_some]
        refine ⟨by omega, by omega, rfl, fun hfree => ⟨?_, ?_, hspace⟩⟩
        · intro hn
          rw [hn.2.2] at hfree
          exact absurd hfree (by simp)
        · exact ⟨rfl, h, fun _ _ => Iff.rfl, fun _ _ _ => rfl⟩
  · intro hnone
    rw [if_pos (by omega)] at hspace
    rw [wp_bind, wp_modify, wp_pure]
    refine ⟨Nat.succ_pos _, le_refl _, rfl, fun hfree => ⟨?_, ?_, ?_⟩⟩
    · intro hn
      exact absurd hn.2.1 (Nat.not_succ_le_self _)
    · have hle := h.le
      apply sameBut_addSlot h _ hfree
      unfold getFreeSpace at hspace
      simp only [slotSize] at hspace ⊢
      omega
    · have hlower := h.lower
      unfold getFreeSpace at hspace ⊢
      dsimp only [addSlot]
      simp only [slotSize] at hspace hlower ⊢
      omega

/-- `insertRecord` adds the one record, in a slot that holds none. -/
theorem wp_insertRecord (h : p.Layout) :
    wp (insertRecord data)
      (fun id q => id.pageNumber = p.pageNumber ∧ ¬ p.Holds id.slotNumber ∧
        Stored p id.slotNumber data q)
      (fun _ _ => True) p := by
  unfold insertRecord
  rw [wp_bind, wp_get, wp_ite]
  refine ⟨fun _ => trivial, fun hspace => ?_⟩
  have hspace : hasSpaceForRecord data p = true := Bool.eq_true_of_not_eq_false hspace
  rw [wp_bind]
  apply wp_mono (wp_getAvailableSlot h hspace) _ fun _ _ _ => trivial
  intro n q hq
  obtain ⟨hn, hle, hnumber, hfree⟩ := hq
  rw [wp_bind]
  -- a new slot may read as in use, and then nothing is inserted
  cases hused : (q.slot n).used with
  | true =>
      have hthrow : insertRecordInSlot n data q = (.error (.throw (.slotInUse q.pageNumber n)), q) := by
        have hne : n ≠ 0 := Nat.pos_iff_ne_zero.mp hn
        unfold insertRecordInSlot
        rw [bind_of_ok (get_apply q), if_neg (by simp [hle, hne]), if_pos hused]
        rfl
      rw [wp_of_error hthrow]
      trivial
  | false =>
      obtain ⟨hnew, hsame, hspace⟩ := hfree hused
      apply wp_mono (wp_insertRecordInSlot hsame.layout hn hle fun _ => hspace) _ fun _ _ _ => trivial
      intro _ r hr
      exact ⟨rfl, hnew, hsame.trans hr.same, hr.holds, hr.record⟩

end Page

/-! ## Runs

What is inserted and updated last is kept beside the page, by record id. A run of calls that return keeps `Inv`, by
the rules of the calls, and `Inv` says what is read.
-/

/-- A call on a page. -/
inductive StoreOp where
  | insert (recordData : List UInt8)
  | update (recordId : RecordId) (recordData : List UInt8)
  | delete (recordId : RecordId)
  deriving DecidableEq

/-- A page, and for each live record id the bytes last inserted or updated under it. -/
structure Store (D : Type) where
  page : Page D
  live : RecordId → Option (List UInt8)

namespace Store

/-- A page from `initialize`, and nothing inserted yet. -/
def new (pageNumber : Nat) : Store D := ⟨Page.init.setPageNumber pageNumber, fun _ => none⟩

/-- One call. A call that throws leaves the contents of all records as they were. -/
def next (s : Store D) : StoreOp → Store D
  | .insert recordData =>
    match Page.insertRecord recordData s.page with
    | (.ok id, page) => ⟨page, Function.update s.live id (some recordData)⟩
    | (.error _, page) => ⟨page, s.live⟩
  | .update id recordData =>
    match Page.updateRecord id recordData s.page with
    | (.ok _, page) => ⟨page, Function.update s.live id (some recordData)⟩
    | (.error _, page) => ⟨page, s.live⟩
  | .delete id =>
    match Page.deleteRecord id s.page with
    | (.ok _, page) => ⟨page, Function.update s.live id none⟩
    | (.error _, page) => ⟨page, s.live⟩

/-- The call returns normally, and its record id is live. -/
def Ok (s : Store D) : StoreOp → Prop
  | .insert recordData => ∃ id page, Page.insertRecord recordData s.page = (.ok id, page)
  | .update id recordData =>
    s.live id ≠ none ∧ ∃ page, Page.updateRecord id recordData s.page = (.ok (), page)
  | .delete id => s.live id ≠ none ∧ ∃ page, Page.deleteRecord id s.page = (.ok (), page)

/-- No record is removed that is not `Aligned`. -/
def OkAligned (s : Store D) : StoreOp → Prop
  | .insert recordData => s.Ok (.insert recordData)
  | .update id recordData => s.Ok (.update id recordData) ∧ s.page.Aligned id.slotNumber
  | .delete id => s.Ok (.delete id) ∧ s.page.Aligned id.slotNumber

/-- Every live record id reads back, and a new record gets an id that is not live. -/
structure Sound (s : Store D) : Prop where
  reads : ∀ id data, s.live id = some data → Page.getRecord id s.page = (.ok data, s.page)
  fresh : ∀ data id page, Page.insertRecord data s.page = (.ok id, page) → s.live id = none

structure Inv (s : Store D) : Prop where
  layout : s.page.Layout
  live : ∀ id data, s.live id = some data →
    id.pageNumber = s.page.pageNumber ∧ s.page.Holds id.slotNumber ∧
      s.page.record id.slotNumber = data

variable {s : Store D} {page : Page D} {id : RecordId} {data : List UInt8} {op : StoreOp}

theorem inv_new (pageNumber : Nat) : (new pageNumber : Store D).Inv where
  layout := Page.layout_init.renumber pageNumber invalidNumber
  live _ _ h := by cases h

/-- What is live under other ids stays. -/
theorem Inv.of_sameBut (h : s.Inv) (hid : id.pageNumber = s.page.pageNumber)
    (hsame : Page.SameBut s.page id.slotNumber page) (new : Option (List UInt8))
    (hnew : ∀ data, new = some data → page.Holds id.slotNumber ∧ page.record id.slotNumber = data) :
    (Store.mk page (Function.update s.live id new)).Inv where
  layout := hsame.layout
  live id' data hlive := by
    dsimp only at hlive ⊢
    -- the id of the call, and the other ids, whose slots are other ones
    by_cases heq : id' = id
    · rw [heq, Function.update_self] at hlive
      rw [heq, hsame.pageNumber]
      exact ⟨hid, hnew data hlive⟩
    · rw [Function.update_of_ne heq] at hlive
      obtain ⟨hpage, hholds, hrecord⟩ := h.live id' data hlive
      have hne : id'.slotNumber ≠ id.slotNumber := by
        intro hslot
        apply heq
        cases id
        cases id'
        simp_all
      rw [hsame.pageNumber, hsame.holds _ hne, hsame.record _ hne hholds]
      exact ⟨hpage, hholds, hrecord⟩

theorem Inv.holds_of_live (h : s.Inv) (hlive : s.live id ≠ none) :
    id.pageNumber = s.page.pageNumber ∧ s.page.Holds id.slotNumber := by
  obtain ⟨data, hdata⟩ := Option.ne_none_iff_exists'.mp hlive
  obtain ⟨hid, hholds, _⟩ := h.live id data hdata
  exact ⟨hid, hholds⟩

theorem inv_next (h : s.Inv) (hok : s.OkAligned op) : (s.next op).Inv := by
  cases op with
  | insert data =>
      obtain ⟨id, page, hcall⟩ := hok
      have hstored : wp (Page.insertRecord data) _ _ _ := Page.wp_insertRecord h.layout
      rw [wp_of_ok hcall] at hstored
      obtain ⟨hid, _, hsame, hholds, hrecord⟩ := hstored
      have hnext : s.next (.insert data) = ⟨page, Function.update s.live id (some data)⟩ := by
        simp only [next, hcall]
      rw [hnext]
      apply h.of_sameBut hid hsame
      intro data' heq
      cases heq
      exact ⟨hholds, hrecord⟩
  | update id data =>
      obtain ⟨⟨hlive, page, hcall⟩, haligned⟩ := hok
      obtain ⟨hid, hholds⟩ := h.holds_of_live hlive
      have hstored : wp (Page.updateRecord id data) _ _ _ :=
        Page.wp_updateRecord h.layout hid hholds haligned
      rw [wp_of_ok hcall] at hstored
      have hnext : s.next (.update id data) = ⟨page, Function.update s.live id (some data)⟩ := by
        simp only [next, hcall]
      rw [hnext]
      apply h.of_sameBut hid hstored.same
      intro data' heq
      cases heq
      exact ⟨hstored.holds, hstored.record⟩
  | delete id =>
      obtain ⟨⟨hlive, page, hcall⟩, haligned⟩ := hok
      obtain ⟨hid, hholds⟩ := h.holds_of_live hlive
      have hsame := Page.wp_deleteRecord h.layout hid hholds haligned
      rw [wp_of_ok hcall] at hsame
      have hnext : s.next (.delete id) = ⟨page, Function.update s.live id none⟩ := by
        simp only [next, hcall]
      rw [hnext]
      apply h.of_sameBut hid hsame
      intro data heq
      cases heq

theorem sound_of_inv (h : s.Inv) : s.Sound where
  reads id data hlive := by
    obtain ⟨hid, hholds, hrecord⟩ := h.live id data hlive
    rw [Page.getRecord_of_holds h.layout.readable hid hholds, hrecord]
  fresh data id page hcall := by
    have hstored : wp (Page.insertRecord data) _ _ _ := Page.wp_insertRecord h.layout
    rw [wp_of_ok hcall] at hstored
    -- a live id has its slot in use, and the record went to a slot that was free
    by_contra hlive
    exact hstored.2.1 (h.holds_of_live hlive).2

/-- **A page is a record store**, in every run that removes no record that is not `Aligned`. -/
theorem recordStore (pageNumber : Nat) {ops : List StoreOp} {s : Store D}
    (h : Run (Run.guarded OkAligned next) (new pageNumber) ops s) : s.Sound := by
  apply sound_of_inv
  apply h.invariant (inv_new pageNumber)
  intro s op t hs hstep
  obtain ⟨hok, rfl⟩ := hstep
  exact inv_next hs hok

/-- Records of all kinds come, change and go. -/
theorem recordStore_moves :
    let ops : List StoreOp :=
      [.insert [1, 2, 3], .insert [4, 5], .insert [], .delete ⟨7, 1⟩, .insert [6], .update ⟨7, 2⟩ [7, 8, 9]]
    let s : Store CharArea := ops.foldl next (new 7)
    s.live ⟨7, 1⟩ = some [6] ∧ s.live ⟨7, 2⟩ = some [7, 8, 9] ∧ s.live ⟨7, 3⟩ = some [] ∧ s.Sound := by
  refine ⟨by rfl, by rfl, by rfl, recordStore 7 (Run.of_allOk ?_)⟩
  exact ⟨⟨_, _, rfl⟩, ⟨_, _, rfl⟩, ⟨_, _, rfl⟩, ⟨⟨by decide, _, rfl⟩, by decide⟩, ⟨_, _, rfl⟩,
    ⟨⟨by decide, _, rfl⟩, by decide⟩, trivial⟩

/-- The empty record in slot 2 keeps the offset 8173 of the record in slot 1 when that is deleted. Two
records of one byte later, deleting the record above moves the byte at 8173 and not the one at 8174. -/
theorem recordStore_lost :
    let ops : List StoreOp :=
      [.insert [1, 2, 3], .insert [], .delete ⟨7, 1⟩, .insert [7], .insert [9], .delete ⟨7, 1⟩]
    let s : Store CharArea := ops.foldl next (new 7)
    Run (Run.guarded Ok next) (new 7) ops s ∧ s.live ⟨7, 3⟩ = some [9] ∧
      (Page.getRecord ⟨7, 3⟩ s.page).1 = .ok [0] ∧ ¬ s.Sound := by
  refine ⟨Run.of_allOk ?_, by rfl, by rfl, ?_⟩
  · exact ⟨⟨_, _, rfl⟩, ⟨_, _, rfl⟩, ⟨by decide, _, rfl⟩, ⟨_, _, rfl⟩, ⟨_, _, rfl⟩,
      ⟨by decide, _, rfl⟩, trivial⟩
  · -- slot 3 reads back as 0, and 9 was inserted
    intro hsound
    have hread := congrArg Prod.fst (hsound.reads ⟨7, 3⟩ [9] (by rfl))
    have hzero : Except.ok [0] = (Except.ok [9] : Except (Exit Exn) (List UInt8)) := hread
    cases hzero

end Store

end CS640.Badger
