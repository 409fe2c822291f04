import CS640.Badger.Slotted.Counts

/-!
# What the calls on a page end with

Any sequence of calls on a page, those that throw included. `insertRecord` returns when there is room and
throws `InsufficientSpaceException` when there is none (`insertsRight_iff`), a record id that is not live
is turned away (`rejectsStale_iff`), and the records tile the end of the page (`laidOut`).

The first two have their limits. A slot that is allocated may read as in use (`insertsRight_remains`), and
`validateRecordId` does not compare the slot number with `num_slots` (`rejectsStale_beyond`).

A state of a run is a page with a note of the records that are live (`Store`). `Kept` says that the page has these
records and no others; `kept_next` that every call keeps it, also one that throws, and `kept_of_run` that it holds
in every run.
-/

namespace CS640.Badger

open CS640.Lib Prog DataArea Finset

variable {D : Type} [DataArea D]

namespace Page

variable {p q : Page D} {id : RecordId} {data : List UInt8}

/-! ## Record ids that are turned away

`Refuses` is the test of `validateRecordId` as it stands. The other calls throw `InvalidRecordException` for its
sake only (`throwsInvalidRecord_iff`).
-/

/-- `validateRecordId` throws. -/
def Refuses (p : Page D) (id : RecordId) : Prop :=
  id.pageNumber ≠ p.pageNumber ∨
    0 < id.slotNumber ∧ slotSize * id.slotNumber ≤ dataSize ∧ (p.slot id.slotNumber).used = false

instance (p : Page D) : DecidablePred p.Refuses := fun _ => by
  unfold Refuses
  infer_instance

/-- The call throws `InvalidRecordException`. -/
def ThrowsInvalidRecord {α : Type} (call : Prog Exn (Page D) α) (p : Page D) : Prop :=
  ∃ id n, (call p).1 = .error (.throw (.invalidRecord id n))

theorem validateRecordId_of_refuses (h : p.Refuses id) :
    validateRecordId id p = (.error (.throw (.invalidRecord id p.pageNumber)), p) := by
  unfold validateRecordId
  rw [bind_of_ok (get_apply p)]
  -- The page number is tested first.
  by_cases hid : id.pageNumber = p.pageNumber
  · obtain ⟨hpos, hle, hunused⟩ := h.resolve_left (not_not.mpr hid)
    rw [if_neg (not_not.mpr hid), if_neg (by omega),
      if_neg fun hbeyond => not_noFlag_of_unused hunused hbeyond.2, if_pos hunused]
    rfl
  · rw [if_pos hid]
    rfl

/-- Otherwise the id is taken, or the slot is outside of the data area, or there is no flag in its
place. -/
theorem validateRecordId_of_not_refuses (h : ¬ p.Refuses id) :
    validateRecordId id p = (.ok (), p) ∨ validateRecordId id p = (.error .undefined, p) := by
  unfold Refuses at h
  push Not at h
  unfold validateRecordId
  rw [bind_of_ok (get_apply p), if_neg (not_not.mpr h.1)]
  -- Slot 0 and slots beyond the area are not read at all.
  by_cases hout : id.slotNumber = 0 ∨ dataSize < slotSize * id.slotNumber
  · rw [if_pos hout]
    exact Or.inr rfl
  · have hused := h.2 (by omega) (by omega)
    rw [if_neg hout]
    by_cases hbeyond : p.header.numSlots < id.slotNumber ∧ NoFlag p.data id.slotNumber
    · rw [if_pos hbeyond]
      exact Or.inr rfl
    · rw [if_neg hbeyond, if_neg (by simp [hused])]
      exact Or.inl rfl

theorem not_refuses_of_holds (h : p.Layout) (hid : id.pageNumber = p.pageNumber)
    (hn : p.Holds id.slotNumber) : ¬ p.Refuses id := by
  intro hrefuses
  have hvalid := validateRecordId_of_holds h.readable hid hn
  rw [validateRecordId_of_refuses hrefuses] at hvalid
  cases hvalid

section Validated

variable {α : Type} {call : Prog Exn (Page D) α}

/-- A call that begins with `validateRecordId` throws what that throws. -/
theorem bind_of_refuses (h : p.Refuses id) : (validateRecordId id >>= fun _ => call) p =
    (.error (.throw (.invalidRecord id p.pageNumber)), p) :=
  bind_of_error (validateRecordId_of_refuses h)

/-- What comes after `validateRecordId` does not throw `InvalidRecordException`. -/
theorem throwsInvalidRecord_iff (hcall : validateRecordId id p = (.ok (), p) →
      wp call (fun _ _ => True) (fun e _ => ∀ id n, e ≠ .throw (.invalidRecord id n)) p) :
    ThrowsInvalidRecord (validateRecordId id >>= fun _ => call) p ↔ p.Refuses id := by
  constructor
  · intro ⟨id', n, hthrow⟩
    by_contra hnot
    -- The id has passed, or its slot cannot be read, which is no exception.
    rcases validateRecordId_of_not_refuses hnot with hok | hundefined
    · have hcall := hcall hok
      rw [bind_of_ok hok] at hthrow
      have hresult : call p = (.error (.throw (.invalidRecord id' n)), (call p).2) :=
        Prod.ext hthrow rfl
      rw [wp_of_error hresult] at hcall
      exact hcall id' n rfl
    · rw [bind_of_error hundefined] at hthrow
      cases hthrow
  · intro hrefuses
    exact ⟨id, p.pageNumber, congrArg Prod.fst (bind_of_refuses hrefuses)⟩

end Validated

/-- What `e` says is not that a record id is invalid. -/
def OtherExit (e : Exit Exn) : Prop := ∀ id n, e ≠ .throw (.invalidRecord id n)

theorem exits_insertRecordInSlot (n : Nat) (data : List UInt8) :
    Exits OtherExit (insertRecordInSlot n data : Prog Exn (Page D) Unit) := by
  unfold insertRecordInSlot
  -- None of its exits has to do with the id.
  refine Exits.bind Exits.get fun p => Exits.ite (fun _ => ?_) fun _ => Exits.ite (fun _ => ?_) fun _ => ?_
  · exact Exits.exit fun _ _ h => by cases h
  · exact Exits.exit fun _ _ h => by cases h
  · exact Exits.modify _

theorem getRecord_throws : ThrowsInvalidRecord (getRecord id) p ↔ p.Refuses id := by
  unfold getRecord
  apply throwsInvalidRecord_iff
  intro _
  rw [wp_bind, wp_get, wp_ite]
  refine ⟨fun _ => ?_, fun _ => trivial⟩
  intro _ _ h
  cases h

theorem deleteRecord_throws : ThrowsInvalidRecord (deleteRecord id) p ↔ p.Refuses id := by
  unfold deleteRecord deleteRecordAllow
  apply throwsInvalidRecord_iff
  intro _
  rw [wp_bind, wp_modify, wp_modify]
  trivial

theorem updateRecord_throws : ThrowsInvalidRecord (updateRecord id data) p ↔ p.Refuses id := by
  unfold updateRecord
  apply throwsInvalidRecord_iff
  intro hvalid
  rw [wp_bind, wp_get, wp_ite]
  refine ⟨fun _ => ?_, fun _ => ?_⟩
  · intro _ _ h
    cases h
  · -- the second time `validateRecordId` sees the same page
    unfold deleteRecordAllow
    rw [wp_bind, wp_bind, wp_of_ok hvalid, wp_bind, wp_modify, wp_modify]
    exact exits_insertRecordInSlot _ _ _

theorem getRecord_refused (h : p.Refuses id) :
    getRecord id p = (.error (.throw (.invalidRecord id p.pageNumber)), p) :=
  bind_of_refuses h

theorem updateRecord_refused (h : p.Refuses id) :
    updateRecord id data p = (.error (.throw (.invalidRecord id p.pageNumber)), p) :=
  bind_of_refuses h

theorem deleteRecord_refused (h : p.Refuses id) :
    deleteRecord id p = (.error (.throw (.invalidRecord id p.pageNumber)), p) :=
  bind_of_refuses h

/-- A slot that is allocated and reads as in use. -/
theorem insertRecord_slotInUse (hspace : hasSpaceForRecord data p = true)
    (hfree : p.header.numFreeSlots = 0) (hused : (p.slot (p.header.numSlots + 1)).used = true) :
    insertRecord data p =
      (.error (.throw (.slotInUse p.pageNumber (p.header.numSlots + 1))), p.addSlot) := by
  have hslot : getAvailableSlot p = (.ok (p.header.numSlots + 1), p.addSlot) := by
    unfold getAvailableSlot
    rw [bind_of_ok (get_apply p), if_neg (by omega), bind_of_ok (modify_apply _ p)]
    rfl
  have hinsert : insertRecordInSlot (p.header.numSlots + 1) data p.addSlot =
      (.error (.throw (.slotInUse p.pageNumber (p.header.numSlots + 1))), p.addSlot) := by
    have hused : (p.addSlot.slot (p.header.numSlots + 1)).used = true := hused
    unfold insertRecordInSlot
    rw [bind_of_ok (get_apply p.addSlot), if_neg (by simp [addSlot]), if_pos hused]
    rfl
  unfold insertRecord
  rw [bind_of_ok (get_apply p), if_neg (by simp [hspace]), bind_of_ok hslot, bind_of_error hinsert]

end Page

/-! ## Runs

`Calm` is the condition on a call in the state that it is made in.
-/

namespace Store

/-- The id is turned away, or it is the one of a record that can be removed. -/
def Known (s : Store D) (id : RecordId) : Prop :=
  s.page.Refuses id ∨ s.live id ≠ none ∧ s.page.Aligned id.slotNumber

/-- No slot is allocated that reads as in use, and no record is removed that is not `Aligned`. -/
def Calm (s : Store D) : StoreOp → Prop
  | .insert recordData => s.page.SlotReady recordData
  | .update id _ => s.Known id
  | .delete id => s.Known id

instance (s : Store D) : DecidablePred s.Calm
  | .insert recordData => inferInstanceAs (Decidable (s.page.SlotReady recordData))
  | .update id _ => inferInstanceAs (Decidable (_ ∨ s.live id ≠ none ∧ _))
  | .delete id => inferInstanceAs (Decidable (_ ∨ s.live id ≠ none ∧ _))

/-- The page is in order, and it holds the live records and no others. -/
structure Kept (s : Store D) : Prop where
  tidy : s.page.Tidy
  inv : s.Inv
  held : ∀ n, s.page.Holds n → s.live ⟨s.page.pageNumber, n⟩ ≠ none

variable {s : Store D} {page : Page D} {id : RecordId} {data : List UInt8} {op : StoreOp}

theorem kept_new (pageNumber : Nat) : (new pageNumber : Store D).Kept where
  tidy := Page.tidy_init pageNumber
  inv := inv_new pageNumber
  held _ h := absurd (h.1.trans_le h.2.1) (Nat.lt_irrefl 0)

namespace Kept

variable (h : s.Kept)

include h

/-- A record was stored. -/
theorem stored (hid : id.pageNumber = s.page.pageNumber)
    (hstored : Page.Stored s.page id.slotNumber data page) (htidy : page.Tidy) :
    (Store.mk page (Function.update s.live id (some data))).Kept where
  tidy := htidy
  inv := by
    apply h.inv.of_sameBut hid hstored.same
    intro data' heq
    cases heq
    exact ⟨hstored.holds, hstored.record⟩
  held n hn := by
    have hsame := hstored.same
    dsimp only at hn ⊢
    -- The record that was stored, and the others, which are as they were.
    by_cases heq : (⟨page.pageNumber, n⟩ : RecordId) = id
    · rw [heq, Function.update_self]
      exact Option.some_ne_none data
    · have hne : n ≠ id.slotNumber := by
        intro hslot
        apply heq
        rw [hsame.pageNumber, ← hid, hslot]
      rw [Function.update_of_ne heq, hsame.pageNumber]
      exact h.held n ((hsame.holds n hne).mp hn)

/-- A record was taken away. -/
theorem removed (hid : id.pageNumber = s.page.pageNumber)
    (hsame : Page.SameBut s.page id.slotNumber page) (hgone : ¬ page.Holds id.slotNumber)
    (htidy : page.Tidy) : (Store.mk page (Function.update s.live id none)).Kept where
  tidy := htidy
  inv := by
    apply h.inv.of_sameBut hid hsame
    intro _ heq
    cases heq
  held n hn := by
    dsimp only at hn ⊢
    have hne : n ≠ id.slotNumber := by
      intro hslot
      rw [hslot] at hn
      exact hgone hn
    have hid' : (⟨page.pageNumber, n⟩ : RecordId) ≠ id := by
      intro heq
      exact hne (congrArg RecordId.slotNumber heq)
    rw [Function.update_of_ne hid', hsame.pageNumber]
    exact h.held n ((hsame.holds n hne).mp hn)

theorem not_refuses (hlive : s.live id ≠ none) : ¬ s.page.Refuses id := by
  obtain ⟨hid, hn⟩ := h.inv.holds_of_live hlive
  exact Page.not_refuses_of_holds h.tidy.counted.layout hid hn

/-! ### What each call does

From a page that is kept: the call returns and the page with its note is kept again, or throws with the page as it
was. `kept_next` puts the calls together.
-/

theorem insert_cases (hready : s.page.SlotReady data) :
    Page.hasSpaceForRecord data s.page = true ∧ (∃ n page,
        Page.insertRecord data s.page = (.ok ⟨s.page.pageNumber, n⟩, page) ∧
        s.live ⟨s.page.pageNumber, n⟩ = none ∧
        (Store.mk page (Function.update s.live ⟨s.page.pageNumber, n⟩ (some data))).Kept) ∨
      Page.hasSpaceForRecord data s.page = false ∧ Page.insertRecord data s.page = (.error (.throw
        (.insufficientSpace s.page.pageNumber data.length s.page.getFreeSpace)), s.page) := by
  rcases Page.insertRecord_tidy h.tidy hready with ⟨hspace, n, page, hcall, hnew, hstored, htidy⟩ | hfull
  · refine Or.inl ⟨hspace, n, page, hcall, ?_, h.stored rfl hstored htidy⟩
    -- A live record would be in the slot, and then the slot would not be new.
    by_contra hlive
    exact hnew (h.inv.holds_of_live hlive).2
  · exact Or.inr hfull

theorem delete_known (hlive : s.live id ≠ none) (ha : s.page.Aligned id.slotNumber) :
    ∃ page, Page.deleteRecord id s.page = (.ok (), page) ∧
      (Store.mk page (Function.update s.live id none)).Kept := by
  obtain ⟨hid, hn⟩ := h.inv.holds_of_live hlive
  obtain ⟨page, hcall, hsame, hgone, htidy⟩ := Page.deleteRecord_tidy h.tidy hid hn ha
  exact ⟨page, hcall, h.removed hid hsame hgone htidy⟩

theorem update_known (data : List UInt8) (hlive : s.live id ≠ none) (ha : s.page.Aligned id.slotNumber) :
    (∃ page, Page.updateRecord id data s.page = (.ok (), page) ∧
        (Store.mk page (Function.update s.live id (some data))).Kept) ∨
      Page.updateRecord id data s.page = (.error (.throw (.insufficientSpace s.page.pageNumber
        data.length (s.page.getFreeSpace + s.page.lengthOf id.slotNumber))), s.page) := by
  obtain ⟨hid, hn⟩ := h.inv.holds_of_live hlive
  rcases Page.updateRecord_tidy h.tidy hid hn ha with ⟨page, hcall, hstored, htidy⟩ | hfull
  · exact Or.inl ⟨page, hcall, h.stored hid hstored htidy⟩
  · exact Or.inr hfull

end Kept

/-- Every call leaves the page in order. -/
theorem kept_next (h : s.Kept) (hcalm : s.Calm op) : (s.next op).Kept := by
  -- By the call; an id that is refused changes nothing.
  cases op with
  | insert data =>
      rcases h.insert_cases hcalm with ⟨-, n, page, hcall, -, hkept⟩ | ⟨-, hcall⟩
      · simp only [next, hcall]
        exact hkept
      · simp only [next, hcall]
        exact h
  | update id data =>
      rcases hcalm with hrefuses | ⟨hlive, ha⟩
      · simp only [next, Page.updateRecord_refused hrefuses]
        exact h
      · rcases h.update_known data hlive ha with ⟨page, hcall, hkept⟩ | hcall
        · simp only [next, hcall]
          exact hkept
        · simp only [next, hcall]
          exact h
  | delete id =>
      rcases hcalm with hrefuses | ⟨hlive, ha⟩
      · simp only [next, Page.deleteRecord_refused hrefuses]
        exact h
      · obtain ⟨page, hcall, hkept⟩ := h.delete_known hlive ha
        simp only [next, hcall]
        exact hkept

theorem kept_of_run {pageNumber : Nat} {ops : List StoreOp}
    (h : Run (Run.guarded Calm next) (new pageNumber) ops s) : s.Kept := by
  apply h.invariant (kept_new pageNumber)
  intro s op t hs hstep
  obtain ⟨hcalm, rfl⟩ := hstep
  exact kept_next hs hcalm

/-! ## Adding records

`SlotReady` says that a slot that is allocated reads as not in use. With it `insertRecord` returns when there is
room.
-/

/-- If there is room for the record, `insertRecord` returns an id that is not live; otherwise it throws
`InsufficientSpaceException` and does nothing. -/
structure InsertsRight (s : Store D) (recordData : List UInt8) : Prop where
  room : Page.hasSpaceForRecord recordData s.page = true →
    ∃ id page, Page.insertRecord recordData s.page = (.ok id, page) ∧ s.live id = none
  full : Page.hasSpaceForRecord recordData s.page = false →
    Page.insertRecord recordData s.page = (.error (.throw (.insufficientSpace s.page.pageNumber
      recordData.length s.page.getFreeSpace)), s.page)

/-- **Adding records**: as long as no slot is allocated that reads as in use, and no record is removed
that is not `Aligned`, `insertRecord` succeeds exactly when there is room. -/
theorem insertsRight_iff (pageNumber : Nat) {ops : List StoreOp} {s : Store D}
    (h : Run (Run.guarded Calm next) (new pageNumber) ops s) (recordData : List UInt8) :
    s.InsertsRight recordData ↔ s.page.SlotReady recordData := by
  have hkept := kept_of_run h
  constructor
  · -- A slot that is allocated and reads as in use makes the call throw, with the slot allocated already.
    intro hright hspace
    obtain ⟨id, page, hcall, -⟩ := hright.room hspace
    by_contra hnot
    push Not at hnot
    have hused := Bool.eq_true_of_not_eq_false hnot.2
    rw [Page.insertRecord_slotInUse hspace (Nat.eq_zero_of_not_pos (by omega)) hused] at hcall
    cases hcall
  · intro hready
    rcases hkept.insert_cases hready with ⟨hspace, n, page, hcall, hnew, -⟩ | ⟨hspace, hcall⟩
    · refine ⟨fun _ => ⟨_, page, hcall, hnew⟩, fun hfull => ?_⟩
      rw [hspace] at hfull
      cases hfull
    · refine ⟨fun hroom => ?_, fun _ => hcall⟩
      rw [hspace] at hroom
      cases hroom

/-- Slots come and go, and the page is full in between. -/
theorem insertsRight_moves :
    let ops : List StoreOp :=
      [.insert [1, 2, 3], .insert [4, 5], .delete ⟨7, 1⟩, .delete ⟨7, 1⟩, .insert (List.replicate 9000 6),
        .update ⟨7, 2⟩ [7, 8, 9]]
    let s : Store CharArea := ops.foldl next (new 7)
    s.live ⟨7, 2⟩ = some [7, 8, 9] ∧ s.InsertsRight [6] := by
  refine ⟨by decide +kernel, (insertsRight_iff 7 (Run.of_allOk ?_) [6]).mpr (by decide +kernel)⟩
  exact ⟨by decide +kernel, by decide +kernel, by decide +kernel, by decide +kernel, by decide +kernel,
    by decide +kernel, trivial⟩

set_option maxRecDepth 100000 in
/-- The record in slot 2 lies from byte 12 on, and its bytes there stay when it is moved up. -/
theorem insertsRight_remains :
    let ops : List StoreOp :=
      [.insert (List.replicate 100 1), .insert (List.replicate 8064 1), .delete ⟨7, 1⟩, .insert [7]]
    let s : Store StringArea := ops.foldl next (new 7)
    Run (Run.guarded Ok next) (new 7) ops s ∧ Page.hasSpaceForRecord [8] s.page = true ∧
      (Page.insertRecord [8] s.page).1 = .error (.throw (.slotInUse 7 3)) ∧
      (Page.insertRecord [8] s.page).2 ≠ s.page ∧ ¬ s.InsertsRight [8] := by
  refine ⟨Run.of_allOk ?_, by rfl, by rfl, ?_, ?_⟩
  · exact ⟨⟨_, _, rfl⟩, ⟨_, _, rfl⟩, ⟨by decide +kernel, _, rfl⟩, ⟨_, _, rfl⟩, trivial⟩
  · -- The page has one slot more than before.
    intro heq
    have hslots : 3 = 2 := congrArg (fun p => p.header.numSlots) heq
    cases hslots
  · intro hright
    obtain ⟨id, page, hcall, -⟩ := hright.room (by rfl)
    have hthrow : Except.error (Exit.throw (Exn.slotInUse 7 3)) = (Except.ok id : Except (Exit Exn) RecordId) :=
      congrArg Prod.fst hcall
    cases hthrow

/-! ## Stale record ids

An id may have any page and any slot number. `validateRecordId` compares the page and then reads the flag of the
slot, whether or not the page has such a slot.
-/

/-- The call throws `InvalidRecordException` if the id is not live and only then, and then it does
nothing. -/
def TurnsAway {α : Type} (s : Store D) (id : RecordId) (call : Prog Exn (Page D) α) : Prop :=
  (Page.ThrowsInvalidRecord call s.page ↔ s.live id = none) ∧
    (Page.ThrowsInvalidRecord call s.page → (call s.page).2 = s.page)

/-- All calls with the id turn it away if it is stale. -/
structure RejectsStale (s : Store D) (id : RecordId) : Prop where
  get : s.TurnsAway id (Page.getRecord id)
  update : ∀ recordData, s.TurnsAway id (Page.updateRecord id recordData)
  delete : s.TurnsAway id (Page.deleteRecord id)

/-- The slot is one of the page, or `validateRecordId` throws all the same. -/
def Checked (p : Page D) (id : RecordId) : Prop :=
  (0 < id.slotNumber ∧ id.slotNumber ≤ p.header.numSlots) ∨ p.Refuses id

/-- The slot of a live record is one of the page and in use. -/
theorem Kept.refuses_iff (h : s.Kept) (id : RecordId) :
    (s.page.Refuses id ↔ s.live id = none) ↔ Checked s.page id := by
  constructor
  · intro hiff
    by_cases hlive : s.live id = none
    · exact Or.inr (hiff.mpr hlive)
    · obtain ⟨-, hpos, hle, -⟩ := h.inv.holds_of_live hlive
      exact Or.inl ⟨hpos, hle⟩
  · intro hchecked
    constructor
    · intro hrefuses
      by_contra hlive
      exact h.not_refuses hlive hrefuses
    · intro hlive
      -- The slot is one of the page: then the flag tells, and a slot in use has a live record.
      rcases hchecked with ⟨hpos, hle⟩ | hrefuses
      · by_contra hnot
        unfold Page.Refuses at hnot
        push Not at hnot
        have hlayout := h.tidy.counted.layout
        have harea : slotSize * id.slotNumber ≤ dataSize :=
          (Nat.mul_le_mul_left slotSize hle).trans hlayout.slots_le_dataSize
        have hused := Bool.eq_true_of_not_eq_false (hnot.2 hpos harea)
        have hheld := h.held id.slotNumber ⟨hpos, hle, hused⟩
        rw [← hnot.1] at hheld
        exact hheld hlive
      · exact hrefuses

/-- **Stale ids**: under the same conditions an id is turned away exactly when it is not live, if its slot
number is one of the page or what is read in its place is zero. -/
theorem rejectsStale_iff (pageNumber : Nat) {ops : List StoreOp} {s : Store D}
    (h : Run (Run.guarded Calm next) (new pageNumber) ops s) (id : RecordId) :
    s.RejectsStale id ↔ Checked s.page id := by
  rw [← (kept_of_run h).refuses_iff id]
  constructor
  · intro hrejects
    rw [← Page.getRecord_throws]
    exact hrejects.get.1
  · -- Each of the three calls throws for a refused id, and before it changes anything.
    intro hiff
    refine ⟨⟨?_, fun hthrow => ?_⟩, fun data => ⟨?_, fun hthrow => ?_⟩, ⟨?_, fun hthrow => ?_⟩⟩
    · rw [Page.getRecord_throws]
      exact hiff
    · rw [Page.getRecord_refused (Page.getRecord_throws.mp hthrow)]
    · rw [Page.updateRecord_throws]
      exact hiff
    · rw [Page.updateRecord_refused (Page.updateRecord_throws.mp hthrow)]
    · rw [Page.deleteRecord_throws]
      exact hiff
    · rw [Page.deleteRecord_refused (Page.deleteRecord_throws.mp hthrow)]

/-- The id of a record that was deleted, whose slot was cut off. -/
theorem rejectsStale_moves :
    let ops : List StoreOp := [.insert [1, 2, 3], .insert [4, 5], .delete ⟨7, 2⟩, .update ⟨7, 2⟩ [6]]
    let s : Store CharArea := ops.foldl next (new 7)
    s.page.header.numSlots = 1 ∧ s.RejectsStale ⟨7, 2⟩ := by
  refine ⟨by rfl, (rejectsStale_iff 7 (Run.of_allOk ?_) ⟨7, 2⟩).mpr (Or.inr (by decide +kernel))⟩
  exact ⟨by decide +kernel, by decide +kernel, by decide +kernel, by decide +kernel, trivial⟩

set_option maxRecDepth 100000 in
/-- Slot 1362 would lie where the record in slot 1 is, whose bytes read as a flag that is set. -/
theorem rejectsStale_beyond :
    let ops : List StoreOp := [.insert (List.replicate 10 1)]
    let s : Store StringArea := ops.foldl next (new 7)
    Run (Run.guarded Ok next) (new 7) ops s ∧ s.live ⟨7, 1362⟩ = none ∧
      Page.validateRecordId ⟨7, 1362⟩ s.page = (.ok (), s.page) ∧ ¬ s.RejectsStale ⟨7, 1362⟩ := by
  refine ⟨Run.of_allOk ⟨⟨_, _, rfl⟩, trivial⟩, by rfl, by rfl, ?_⟩
  -- The id is not live, so `deleteRecord` ought to throw.
  intro hrejects
  obtain ⟨_, _, hthrow⟩ := hrejects.delete.1.mpr (by rfl)
  cases hthrow

end Store

end CS640.Badger
