import CS640.Badger.Slotted.Calls

/-!
# Pages of records that are not empty

No caller stores an empty record. Without empty records every used slot is part of the tiling, every
removal is `Aligned`, and as long as no call throws anything but `InsufficientSpaceException` the header
counts what is on the page (`laidOut`). Deleting all records then gives the whole page back.

Two invariants are kept side by side: `Kept`, by which the page is tidy and its used slots are the live ids, and
`Filled`, by which no live record is empty. From these `LaidOut` follows without another look at the calls
(`laidOut_of_kept`).
-/

namespace CS640.Badger

open CS640.Lib Prog DataArea Finset

variable {D : Type} [DataArea D]

namespace Store

/-- The call returned, or it threw `InsufficientSpaceException`. -/
def Ended {α : Type} (r : Except (Exit Exn) α) : Prop :=
  (∃ a, r = .ok a) ∨ ∃ n size space, r = .error (.throw (.insufficientSpace n size space))

/-- A call with a live id, and with a record that is not empty. It returns or throws
`InsufficientSpaceException`. -/
def Plain (s : Store D) : StoreOp → Prop
  | .insert recordData => recordData ≠ [] ∧ Ended (Page.insertRecord recordData s.page).1
  | .update id recordData =>
    recordData ≠ [] ∧ s.live id ≠ none ∧ Ended (Page.updateRecord id recordData s.page).1
  | .delete id => s.live id ≠ none ∧ Ended (Page.deleteRecord id s.page).1

/-- Nothing is left on the page. -/
structure Whole (p : Page D) : Prop where
  numSlots : p.header.numSlots = 0
  numFreeSlots : p.header.numFreeSlots = 0
  space : p.getFreeSpace = dataSize

/-- The header is right, and the live records tile the end of the data area. -/
structure LaidOut (s : Store D) : Prop where
  lower : s.page.header.freeSpaceLowerBound = slotSize * s.page.header.numSlots
  le : s.page.header.freeSpaceLowerBound ≤ s.page.header.freeSpaceUpperBound
  upper : s.page.header.freeSpaceUpperBound + ∑ n ∈ s.page.usedSlots, s.page.lengthOf n = dataSize
  tiles : Tiles s.page.usedSlots s.page.offsetOf s.page.lengthOf s.page.header.freeSpaceUpperBound dataSize
  records : ∀ id data, s.live id = some data ↔ id.pageNumber = s.page.pageNumber ∧
    id.slotNumber ∈ s.page.usedSlots ∧ s.page.record id.slotNumber = data
  free : s.page.header.numFreeSlots =
    #{n ∈ Icc 1 s.page.header.numSlots | (s.page.slot n).used = false}
  last : s.page.header.numSlots = 0 ∨ (s.page.slot s.page.header.numSlots).used = true
  /-- With one slot more, or one free slot more, the numbers still have 16 bits. -/
  fits : s.page.header.freeSpaceLowerBound + slotSize < 2 ^ 16 ∧
    s.page.header.freeSpaceUpperBound < 2 ^ 16 ∧ s.page.header.numSlots + 1 < 2 ^ 16 ∧
    s.page.header.numFreeSlots + 1 < 2 ^ 16
  /-- Deleting all records, in any order, succeeds and leaves nothing. -/
  emptied : ∀ ids : List RecordId, ids.Nodup → (∀ id, id ∈ ids ↔ s.live id ≠ none) →
    ∃ t, Run (Run.guarded Ok next) s (ids.map .delete) t ∧ Whole t.page

/-- No live record is empty. -/
def Filled (s : Store D) : Prop := ∀ id, s.live id ≠ some []

variable {s t : Store D} {page : Page D} {id : RecordId} {data : List UInt8} {op : StoreOp}

/-! ## Records that are not empty

With such records the slots in use are those that are tiled, so the offset of each is at or above the bound of the
free space.
-/

namespace Kept

variable (h : s.Kept) (hfilled : s.Filled)

include h

/-- What is in a used slot is live. -/
theorem live_record {n : Nat} (hn : s.page.Holds n) :
    s.live ⟨s.page.pageNumber, n⟩ = some (s.page.record n) := by
  obtain ⟨data, hdata⟩ := Option.ne_none_iff_exists'.mp (h.held n hn)
  rw [hdata, (h.inv.live _ data hdata).2.2]

include hfilled

theorem length_pos {n : Nat} (hn : s.page.Holds n) : 0 < s.page.lengthOf n := by
  rw [Nat.pos_iff_ne_zero]
  intro hzero
  apply hfilled ⟨s.page.pageNumber, n⟩
  rw [h.live_record hn]
  unfold Page.record
  rw [show (s.page.slot n).itemLength = 0 from hzero]
  rfl

theorem filled_eq : s.page.filled = s.page.usedSlots := by
  ext n
  rw [Page.mem_filled, Page.mem_usedSlots]
  exact and_iff_left_of_imp (h.length_pos hfilled)

/-- Every removal is `Aligned`. -/
theorem aligned (k : Nat) : s.page.Aligned k := by
  intro _ _ m hm hused
  obtain ⟨hpos, hle⟩ := mem_Icc.mp hm
  have hn : s.page.Holds m := ⟨hpos, hle, hused⟩
  exact h.tidy.counted.layout.upper_le_offset hn (h.length_pos hfilled hn)

/-- A call that does not throw `SlotInUseException` is calm. -/
theorem calm_of_plain (hplain : s.Plain op) : s.Calm op := by
  -- a case for each call; only an insertion takes a new slot
  cases op with
  | insert data =>
      intro hspace
      by_contra hnot
      push Not at hnot
      have hused := Bool.eq_true_of_not_eq_false hnot.2
      have hended := hplain.2
      rw [Page.insertRecord_slotInUse hspace (by omega) hused] at hended
      rcases hended with ⟨_, hok⟩ | ⟨_, _, _, hthrow⟩
      · cases hok
      · cases hthrow
  | update id data => exact Or.inr ⟨hplain.2.1, h.aligned hfilled _⟩
  | delete id => exact Or.inr ⟨hplain.1, h.aligned hfilled _⟩

end Kept

omit [DataArea D] in
theorem Filled.stored (h : s.Filled) (hdata : data ≠ []) :
    (Store.mk page (Function.update s.live id (some data))).Filled := by
  intro id'
  dsimp only
  by_cases heq : id' = id
  · rw [heq, Function.update_self]
    exact fun hsome => hdata (Option.some.inj hsome)
  · rw [Function.update_of_ne heq]
    exact h id'

omit [DataArea D] in
theorem Filled.removed (h : s.Filled) : (Store.mk page (Function.update s.live id none)).Filled := by
  intro id'
  dsimp only
  by_cases heq : id' = id
  · rw [heq, Function.update_self]
    intro hsome
    cases hsome
  · rw [Function.update_of_ne heq]
    exact h id'

theorem filled_next (h : s.Filled) (hplain : s.Plain op) : (s.next op).Filled := by
  -- what a call writes is not empty, and a call that throws writes nothing
  cases op with
  | insert data =>
      rcases hcall : Page.insertRecord data s.page with ⟨_ | id, page⟩
      · simp only [next, hcall]
        exact h
      · simp only [next, hcall]
        exact h.stored hplain.1
  | update id data =>
      rcases hcall : Page.updateRecord id data s.page with ⟨_ | _, page⟩
      · simp only [next, hcall]
        exact h
      · simp only [next, hcall]
        exact h.stored hplain.1
  | delete id =>
      rcases hcall : Page.deleteRecord id s.page with ⟨_ | _, page⟩
      · simp only [next, hcall]
        exact h
      · simp only [next, hcall]
        exact h.removed

/-! ## The layout

The layout is read off the invariants. That all records can be deleted is an induction on the ids, as each removal
leaves the invariants with one live id less.
-/

/-- Deleting a record leaves the others. -/
theorem delete_live (h : s.Kept) (hfilled : s.Filled) (hlive : s.live id ≠ none) :
    s.Ok (.delete id) ∧ (s.next (.delete id)).Kept ∧ (s.next (.delete id)).Filled ∧
      (s.next (.delete id)).live = Function.update s.live id none := by
  obtain ⟨page, hcall, hkept⟩ := h.delete_known hlive (h.aligned hfilled _)
  refine ⟨⟨hlive, page, hcall⟩, ?_⟩
  simp only [next, hcall]
  exact ⟨hkept, hfilled.removed, trivial⟩

/-- A page without live records is empty. -/
theorem Kept.whole (h : s.Kept) (hnone : ∀ id, s.live id = none) : Whole s.page := by
  have hunused : s.page.usedSlots = ∅ := by
    apply eq_empty_of_forall_notMem
    intro n hn
    exact h.held n (Page.mem_usedSlots.mp hn) (hnone _)
  have hslots : s.page.header.numSlots = 0 := by
    rcases h.tidy.last with hzero | hlast
    · exact hzero
    · exact absurd (hnone _) (h.held _ hlast)
  have hlayout := h.tidy.counted.layout
  have hfree := h.tidy.counted.free_le
  have hempty : s.page.filled = ∅ := by
    apply eq_empty_of_forall_notMem
    intro n hn
    exact h.held n (Page.mem_filled.mp hn).1 (hnone _)
  have hsum := hlayout.tiles.sum
  have hle := hlayout.tiles.le
  have hlower := hlayout.lower
  rw [hempty, sum_empty] at hsum
  refine ⟨hslots, by omega, ?_⟩
  unfold Page.getFreeSpace
  rw [hlower, hslots]
  omega

theorem emptied_of_kept : ∀ (ids : List RecordId) {s : Store D}, s.Kept → s.Filled → ids.Nodup →
    (∀ id, id ∈ ids ↔ s.live id ≠ none) →
    ∃ t, Run (Run.guarded Ok next) s (ids.map .delete) t ∧ Whole t.page := by
  intro ids
  -- over the ids that are to be deleted
  induction ids with
  | nil =>
      intro s hkept hfilled _ hids
      refine ⟨s, .nil s, hkept.whole fun id => ?_⟩
      by_contra hlive
      exact absurd ((hids id).mpr hlive) List.not_mem_nil
  | cons id ids ih =>
      intro s hkept hfilled hnodup hids
      obtain ⟨hnot, hnodup⟩ := List.nodup_cons.mp hnodup
      obtain ⟨hok, hkept', hfilled', hlive⟩ :=
        delete_live hkept hfilled ((hids id).mp List.mem_cons_self)
      obtain ⟨t, hrun, hwhole⟩ := ih hkept' hfilled' hnodup fun id' => by
        rw [hlive]
        -- the id is not live any more, and the others are as before
        by_cases heq : id' = id
        · rw [heq, Function.update_self]
          exact iff_of_false hnot (not_not.mpr rfl)
        · rw [Function.update_of_ne heq, ← hids id', List.mem_cons, or_iff_right heq]
      exact ⟨t, .cons ⟨hok, rfl⟩ hrun, hwhole⟩

theorem laidOut_of_kept (h : s.Kept) (hfilled : s.Filled) : s.LaidOut := by
  have hlayout := h.tidy.counted.layout
  have htiles := hlayout.tiles
  rw [h.filled_eq hfilled] at htiles
  have hupper := hlayout.upper_le
  have hle := hlayout.le
  have hlower := hlayout.lower
  have hslots := hlayout.numSlots_lt
  have hfree := h.tidy.counted.free_le
  refine ⟨hlower, hle, ?_, htiles, fun id data => ⟨fun hlive => ?_, ?_⟩, ?_, ?_, ?_, ?_⟩
  · have hsum := htiles.sum
    omega
  · obtain ⟨hid, hn, hrecord⟩ := h.inv.live id data hlive
    exact ⟨hid, Page.mem_usedSlots.mpr hn, hrecord⟩
  · intro ⟨hid, hn, hrecord⟩
    rw [← hrecord, ← h.live_record (Page.mem_usedSlots.mp hn), ← hid]
  · -- the slots are those in use and those that are not
    have hcount := h.tidy.counted.free
    have hsplit := card_filter_add_card_filter_not (s := Icc 1 s.page.header.numSlots)
      fun n => (s.page.slot n).used = true
    simp only [Bool.not_eq_true, Nat.card_Icc] at hsplit
    unfold Page.usedSlots at hcount
    omega
  · exact h.tidy.last.imp_right fun hlast => hlast.2.2
  · simp only [dataSize, pageSize, pageHeaderSize, slotSize] at *
    omega
  · exact fun ids hnodup hids => emptied_of_kept ids h hfilled hnodup hids

/-- **The layout** of a page of records that are not empty. -/
theorem laidOut (pageNumber : Nat) {ops : List StoreOp} {s : Store D}
    (h : Run (Run.guarded Plain next) (new pageNumber) ops s) : s.LaidOut := by
  have hkept : s.Kept ∧ s.Filled := by
    apply h.invariant ⟨kept_new pageNumber, fun _ hsome => by cases hsome⟩
    intro s op t ⟨hkept, hfilled⟩ hstep
    obtain ⟨hplain, rfl⟩ := hstep
    exact ⟨kept_next hkept (hkept.calm_of_plain hfilled hplain), filled_next hfilled hplain⟩
  exact laidOut_of_kept hkept.1 hkept.2

set_option maxRecDepth 100000 in
/-- A record that is too long, a slot that is cut off and one that is used again. -/
theorem laidOut_moves :
    let ops : List StoreOp :=
      [.insert [1, 2, 3], .insert [4, 5], .insert (List.replicate 8160 6), .delete ⟨7, 1⟩, .insert [6],
        .insert [8, 8], .update ⟨7, 2⟩ [7, 8, 9], .delete ⟨7, 3⟩]
    let s : Store CharArea := ops.foldl next (new 7)
    s.page.header.numSlots = 2 ∧ s.page.getFreeSpace = 8160 ∧ s.LaidOut := by
  refine ⟨by rfl, by rfl, laidOut 7 (Run.of_allOk ?_)⟩
  exact ⟨⟨by decide, Or.inl ⟨_, rfl⟩⟩, ⟨by decide, Or.inl ⟨_, rfl⟩⟩,
    ⟨List.cons_ne_nil _ _, Or.inr ⟨_, _, _, rfl⟩⟩, ⟨by decide +kernel, Or.inl ⟨_, rfl⟩⟩,
    ⟨by decide, Or.inl ⟨_, rfl⟩⟩, ⟨by decide, Or.inl ⟨_, rfl⟩⟩,
    ⟨by decide, by decide +kernel, Or.inl ⟨_, rfl⟩⟩, ⟨by decide +kernel, Or.inl ⟨_, rfl⟩⟩, trivial⟩

end Store

end CS640.Badger
