import CS640.Badger.Slotted.Store

/-!
# The counts in a page header

`num_free_slots` is the number of slots that are not in use, and the last slot is in use (`Tidy`). So
`insertRecord` finds a slot whenever `num_free_slots` says that there is one. A slot that it has to
allocate reads as in use if a byte of a record that was moved is left where the slot comes to be: nothing
clears the free space. `SlotReady` says that this does not happen, and then each of the three calls ends
as it is to.

All counts are numbers of 16 bits in the source, and are computed modulo `2 ^ 16`. There are far fewer slots than
that on a page, so no count wraps (`Layout.numSlots_lt`), and `num_free_slots` is the number of slots less the
number of those in use, as sets.
-/

namespace CS640.Badger

open CS640.Lib Prog DataArea Finset

variable {D : Type} [DataArea D]

namespace Page

/-- What is in front of the unused slots at the end is a used slot. -/
theorem used_of_trailing (d : D) (n : Nat) :
    n - trailingUnused d n = 0 ∨ (getSlot (n - trailingUnused d n) d).used = true := by
  -- over the slots, from the last one down
  induction n with
  | zero => exact Or.inl rfl
  | succ n ih =>
      unfold trailingUnused
      split
      · next hused => exact Or.inr hused
      · rw [Nat.add_sub_add_right]
        exact ih

/-- The slots in use. -/
def usedSlots (p : Page D) : Finset Nat := (Icc 1 p.header.numSlots).filter fun n => (p.slot n).used = true

/-- If `insertRecord` takes a new slot for the record, then it does not read as in use. -/
def SlotReady (p : Page D) (recordData : List UInt8) : Prop :=
  hasSpaceForRecord recordData p = true →
    0 < p.header.numFreeSlots ∨ (p.slot (p.header.numSlots + 1)).used = false

instance (p : Page D) : DecidablePred p.SlotReady := fun _ => by
  unfold SlotReady
  infer_instance

/-- The records lie where they belong, and `num_free_slots` is right. -/
structure Counted (p : Page D) : Prop where
  layout : p.Layout
  free : p.header.numFreeSlots + #p.usedSlots = p.header.numSlots

/-- Besides, the last slot is in use. -/
structure Tidy (p : Page D) : Prop where
  counted : p.Counted
  last : p.header.numSlots = 0 ∨ p.Holds p.header.numSlots

variable {p p' q : Page D} {k m n : Nat} {id : RecordId} {data : List UInt8}

theorem mem_usedSlots : n ∈ p.usedSlots ↔ p.Holds n := by
  rw [usedSlots, mem_filter, mem_Icc, and_assoc]
  rfl

theorem tidy_init (pageNumber : Nat) : ((init : Page D).setPageNumber pageNumber).Tidy where
  counted :=
    { layout := layout_init.renumber pageNumber invalidNumber
      free := rfl }
  last := Or.inl rfl

theorem Counted.free_le (h : p.Counted) : p.header.numFreeSlots ≤ p.header.numSlots := by
  have hfree := h.free
  omega

/-- There are few enough slots for their number to be one of 16 bits. -/
theorem Layout.numSlots_lt (h : p.Layout) : p.header.numSlots + 1 < 2 ^ 16 := by
  have hle := h.slots_le_dataSize
  simp only [slotSize, dataSize, pageSize, pageHeaderSize] at hle
  omega

/-- An unused slot is there if `num_free_slots` says so. -/
theorem Counted.exists_free (h : p.Counted) (hpos : 0 < p.header.numFreeSlots) :
    ∃ n, 1 ≤ n ∧ n ≤ p.header.numSlots ∧ (p.slot n).used = false := by
  by_contra hnone
  push Not at hnone
  have hall : p.usedSlots = Icc 1 p.header.numSlots := by
    apply filter_true_of_mem
    intro n hn
    obtain ⟨hpos, hle⟩ := mem_Icc.mp hn
    exact Bool.eq_true_of_not_eq_false (hnone n hpos hle)
  have hfree := h.free
  rw [hall, Nat.card_Icc] at hfree
  omega

/-! ## Adding

A slot that is filled joins the slots in use, and a slot that is added does not.
-/

section Fill

variable (h : p.Counted) (hspace : data.length ≤ p.getFreeSpace) (hk : 0 < k)
  (hle : k ≤ p.header.numSlots)

include h hspace hk hle

theorem usedSlots_fillSlot : (fillSlot k data p).usedSlots = insert k p.usedSlots := by
  ext m
  rw [mem_insert, mem_usedSlots, mem_usedSlots]
  -- the slot itself is in use afterwards, and the others as before
  by_cases heq : m = k
  · rw [heq]
    exact iff_of_true (holds_fillSlot_self h.layout hspace hk hle) (Or.inl rfl)
  · rw [holds_fillSlot_of_ne h.layout hspace hk hle heq]
    exact (or_iff_right heq).symm

variable (hfree : (p.slot k).used = false)

include hfree

theorem counted_fillSlot : (fillSlot k data p).Counted where
  layout := (sameBut_fillSlot h.layout hspace hk hle hfree).layout
  free := by
    have hnot : k ∉ p.usedSlots := by
      intro hmem
      rw [(mem_usedSlots.mp hmem).2.2] at hfree
      cases hfree
    have hcard : #p.usedSlots < #(Icc 1 p.header.numSlots) := by
      apply card_lt_card
      refine (ssubset_iff_of_subset (filter_subset _ _)).mpr ⟨k, mem_Icc.mpr ⟨hk, hle⟩, hnot⟩
    have hcount := h.free
    have hlt := h.layout.numSlots_lt
    rw [Nat.card_Icc] at hcard
    rw [usedSlots_fillSlot h hspace hk hle, card_insert_of_notMem hnot]
    show (p.header.numFreeSlots + 2 ^ 16 - 1) % 2 ^ 16 + (#p.usedSlots + 1) = p.header.numSlots
    omega

theorem tidy_fillSlot (hlast : k = p.header.numSlots ∨ p.Holds p.header.numSlots) :
    (fillSlot k data p).Tidy where
  counted := counted_fillSlot h hspace hk hle hfree
  last := by
    right
    -- the last slot was in use before, or it is the one that is filled
    rcases hlast with heq | hlast
    · have hself := holds_fillSlot_self h.layout hspace hk hle
      rw [heq] at hself ⊢
      exact hself
    · by_cases heq : k = p.header.numSlots
      · have hself := holds_fillSlot_self h.layout hspace hk hle
        rw [heq] at hself ⊢
        exact hself
      · exact (holds_fillSlot_of_ne h.layout hspace hk hle (Ne.symm heq)).mpr hlast

end Fill

/-- A new slot. -/
theorem counted_addSlot (h : p.Counted)
    (hroom : p.header.freeSpaceLowerBound + slotSize ≤ p.header.freeSpaceUpperBound)
    (hfree : (p.slot (p.header.numSlots + 1)).used = false) : p.addSlot.Counted where
  layout := (sameBut_addSlot h.layout hroom hfree).layout
  free := by
    have hsame : p.addSlot.usedSlots = p.usedSlots := by
      ext m
      rw [mem_usedSlots, mem_usedSlots]
      by_cases heq : m = p.header.numSlots + 1
      · rw [heq]
        apply iff_of_false
        · intro hholds
          have hused : (p.slot (p.header.numSlots + 1)).used = true := hholds.2.2
          rw [hfree] at hused
          cases hused
        · intro hholds
          exact absurd hholds.2.1 (Nat.not_succ_le_self _)
      · exact (sameBut_addSlot h.layout hroom hfree).holds m heq
    have hcount := h.free
    rw [hsame]
    show p.header.numFreeSlots + 1 + #p.usedSlots = p.header.numSlots + 1
    omega

/-! ## Removing

With compaction `deleteRecord` cuts off all unused slots at the end. As `num_free_slots` is lowered by as many, it
must be known that no more are cut off than there are.
-/

/-- With compaction the slot array ends with a used slot, or it did not before. -/
theorem releaseSlot_last (p : Page D) (k : Nat) :
    k = p.header.numSlots ∧ ((releaseSlot k true p).header.numSlots = 0 ∨
        (releaseSlot k true p).Holds (releaseSlot k true p).header.numSlots) ∨
      k ≠ p.header.numSlots ∧ (releaseSlot k true p).header.numSlots = p.header.numSlots := by
  -- slots are cut off only when the last one is released
  by_cases heq : k = p.header.numSlots
  · refine Or.inl ⟨heq, ?_⟩
    have hslots : (releaseSlot k true p).header.numSlots = p.header.numSlots - 1 -
        trailingUnused (putSlot k ⟨false, 0, 0⟩ p.data) (p.header.numSlots - 1) := by
      unfold releaseSlot
      dsimp only
      rw [if_pos ⟨rfl, heq⟩]
      show p.header.numSlots - (_ + 1) = _
      rw [Nat.add_comm _ 1, Nat.sub_add_eq]
      rfl
    have hdata : (releaseSlot k true p).data = putSlot k ⟨false, 0, 0⟩ p.data := by
      unfold releaseSlot
      dsimp only
      rw [if_pos ⟨rfl, heq⟩]
      rfl
    rcases used_of_trailing (putSlot k ⟨false, 0, 0⟩ p.data) (p.header.numSlots - 1) with hzero | hused
    · exact Or.inl (hslots.trans hzero)
    · rw [← hslots, ← hdata] at hused
      rcases Nat.eq_zero_or_pos (releaseSlot k true p).header.numSlots with hzero | hpos
      · exact Or.inl hzero
      · exact Or.inr ⟨hpos, le_rfl, hused⟩
  · refine Or.inr ⟨heq, ?_⟩
    unfold releaseSlot
    dsimp only
    rw [if_neg fun hcut => heq hcut.2]
    rfl

/-- How many slots are cut off. -/
theorem releaseSlot_counts (p : Page D) (hk : 0 < k) (b : Bool) :
    ∃ cut ≤ p.header.numSlots, (releaseSlot k b p).header.numSlots = p.header.numSlots - cut ∧
      (releaseSlot k b p).header.numFreeSlots =
        ((p.header.numFreeSlots + 1) % 2 ^ 16 + 2 ^ 16 - cut) % 2 ^ 16 := by
  unfold releaseSlot
  dsimp only
  split
  · next hcut =>
      have hcut : k = p.header.numSlots := hcut.2
      have htrail := trailingUnused_le (n := p.header.numSlots - 1) (d := putSlot k ⟨false, 0, 0⟩ p.data)
      refine ⟨trailingUnused (putSlot k ⟨false, 0, 0⟩ p.data) (p.header.numSlots - 1) + 1, ?_, rfl, rfl⟩
      omega
  · refine ⟨0, Nat.zero_le _, rfl, ?_⟩
    show (p.header.numFreeSlots + 1) % 2 ^ 16 = _
    omega

section Remove

variable {b : Bool} (h : p.Counted) (hk : p.Holds k) (hd : DataRemoved p k p')

include h hk hd

theorem usedSlots_removed (hr : Released p' k q) : q.usedSlots = p.usedSlots.erase k := by
  ext m
  rw [mem_erase, mem_usedSlots, mem_usedSlots, holds_removed h.layout hk hd hr, and_comm]

theorem counted_removed : (releaseSlot k b p').Counted := by
  have hlower : p'.header.freeSpaceLowerBound = slotSize * p'.header.numSlots := by
    rw [hd.header]
    exact h.layout.lower
  have hr : Released p' k (releaseSlot k b p') :=
    released_releaseSlot hlower hd.full hk.1 (h.layout.slot_le_dataSize hk)
  have hlayout := layout_removed h.layout hk hd hr
  refine ⟨hlayout, ?_⟩
  have hused := usedSlots_removed h hk hd hr
  have hcard := card_erase_of_mem (mem_usedSlots.mpr hk)
  have hpos := card_pos.mpr ⟨k, mem_usedSlots.mpr hk⟩
  have hcount := h.free
  have hlt := h.layout.numSlots_lt
  -- no more slots are cut off than there are unused ones
  have hcut : #(releaseSlot k b p').usedSlots ≤ (releaseSlot k b p').header.numSlots := by
    have hsub := card_le_card (filter_subset (fun n => ((releaseSlot k b p').slot n).used = true)
      (Icc 1 (releaseSlot k b p').header.numSlots))
    rw [Nat.card_Icc] at hsub
    exact hsub
  rw [hused, hcard] at hcut ⊢
  obtain ⟨cut, hle, hslots, hfree⟩ := releaseSlot_counts p' hk.1 b
  rw [hd.header] at hle hslots hfree
  rw [hfree]
  rw [hslots] at hcut ⊢
  omega

end Remove

theorem tidy_removed (h : p.Tidy) (hk : p.Holds k) (hd : DataRemoved p k p') :
    (releaseSlot k true p').Tidy where
  counted := counted_removed h.counted hk hd
  last := by
    have hlower : p'.header.freeSpaceLowerBound = slotSize * p'.header.numSlots := by
      rw [hd.header]
      exact h.counted.layout.lower
    have hr : Released p' k (releaseSlot k true p') :=
      released_releaseSlot hlower hd.full hk.1 (h.counted.layout.slot_le_dataSize hk)
    rcases releaseSlot_last p' k with ⟨-, hlast⟩ | ⟨hne, hslots⟩
    · -- slots were cut off down to one in use, or the last slot is another one
      exact hlast
    · right
      rw [hd.header] at hne hslots
      rw [hslots, holds_removed h.counted.layout hk hd hr]
      rcases h.last with hzero | hlast
      · exact absurd (hk.1.trans_le hk.2.1) (by omega)
      · exact ⟨hlast, Ne.symm hne⟩

/-! ## The calls

Each call ends in one of the ways that its contract names, with the page tidy again. For `insertRecord` this takes
`SlotReady`; the other two need no new slot.
-/

/-- A slot is found, or made. -/
theorem getAvailableSlot_tidy (h : p.Tidy) (hready : p.SlotReady data)
    (hspace : hasSpaceForRecord data p = true) :
    ∃ n q, getAvailableSlot p = (.ok n, q) ∧ (q.slot n).used = false ∧ q.Counted ∧
      (n = q.header.numSlots ∨ q.Holds q.header.numSlots) := by
  have hready := hready hspace
  unfold hasSpaceForRecord at hspace
  rw [decide_eq_true_iff] at hspace
  unfold getAvailableSlot
  rw [bind_of_ok (get_apply p)]
  -- no slot is free, so a new one is added; or the first free one is taken
  rcases Nat.eq_zero_or_pos p.header.numFreeSlots with hzero | hpos
  · rw [if_neg (by omega), bind_of_ok (modify_apply _ p)]
    have hfree : (p.slot (p.header.numSlots + 1)).used = false := by
      rcases hready with hpos | hfree
      · omega
      · exact hfree
    have hroom : p.header.freeSpaceLowerBound + slotSize ≤ p.header.freeSpaceUpperBound := by
      have hle := h.counted.layout.le
      rw [if_pos hzero] at hspace
      unfold getFreeSpace at hspace
      omega
    exact ⟨_, _, rfl, hfree, counted_addSlot h.counted hroom hfree, Or.inl rfl⟩
  · rw [if_pos hpos]
    obtain ⟨m, hm, hmle, hmfree⟩ := h.counted.exists_free hpos
    cases hfind : (List.range' 1 p.header.numSlots).find? fun i => !(p.slot i).used with
    | none =>
        have hall := List.find?_eq_none.mp hfind m (List.mem_range'_1.mpr ⟨hm, by omega⟩)
        rw [hmfree] at hall
        exact absurd rfl hall
    | some n =>
        have hmem := List.mem_range'_1.mp (List.mem_of_find?_eq_some hfind)
        have hn := List.find?_some hfind
        have hvalid : (n != invalidSlot) = true := bne_iff_ne.mpr (Nat.ne_of_gt hmem.1)
        refine ⟨n, p, ?_, ?_, h.counted, ?_⟩
        · rw [Option.getD_some, assert, if_pos hvalid]
          rfl
        · simpa using hn
        · rcases h.last with hzero | hlast
          · omega
          · exact Or.inr hlast

theorem insertRecordInSlot_of_unused (data : List UInt8) (hk : 0 < k) (hle : k ≤ p.header.numSlots)
    (hunused : (p.slot k).used = false) :
    insertRecordInSlot k data p = (.ok (), fillSlot k data p) := by
  unfold insertRecordInSlot
  rw [bind_of_ok (get_apply p), if_neg (by simp [hle, Nat.ne_of_gt hk]), if_neg (by simp [hunused])]
  rfl

/-- `insertRecord` adds the record if there is room for it, and otherwise does nothing. -/
theorem insertRecord_tidy (h : p.Tidy) (hready : p.SlotReady data) :
    hasSpaceForRecord data p = true ∧ (∃ n q, insertRecord data p = (.ok ⟨p.pageNumber, n⟩, q) ∧
        ¬ p.Holds n ∧ Stored p n data q ∧ q.Tidy) ∨
      hasSpaceForRecord data p = false ∧ insertRecord data p =
        (.error (.throw (.insufficientSpace p.pageNumber data.length p.getFreeSpace)), p) := by
  unfold insertRecord
  rw [bind_of_ok (get_apply p)]
  cases hspace : hasSpaceForRecord data p with
  | false =>
      rw [if_pos rfl]
      exact Or.inr ⟨rfl, rfl⟩
  | true =>
      obtain ⟨n, q, hslot, hunused, hcounted, hlast⟩ := getAvailableSlot_tidy h hready hspace
      have hwp : wp getAvailableSlot _ _ p := wp_getAvailableSlot h.counted.layout hspace
      rw [wp_of_ok hslot] at hwp
      obtain ⟨hn, hle, hnumber, hfree⟩ := hwp
      obtain ⟨hnew, hsame, hroom⟩ := hfree hunused
      have hfill := insertRecordInSlot_of_unused data hn hle hunused
      have hlayout := hcounted.layout
      refine Or.inl ⟨rfl, n, fillSlot n data q, ?_, hnew, ?_, ?_⟩
      · rw [if_neg (by simp), bind_of_ok hslot, bind_of_ok hfill]
        rfl
      · exact ⟨hsame.trans (sameBut_fillSlot hlayout hroom hn hle hunused),
          holds_fillSlot_self hlayout hroom hn hle, record_fillSlot_self hlayout hroom hn hle⟩
      · exact tidy_fillSlot hcounted hroom hn hle hunused hlast

/-- `deleteRecord` takes the record away. -/
theorem deleteRecord_tidy (h : p.Tidy) (hid : id.pageNumber = p.pageNumber) (hn : p.Holds id.slotNumber)
    (ha : p.Aligned id.slotNumber) : ∃ q, deleteRecord id p = (.ok (), q) ∧
      SameBut p id.slotNumber q ∧ ¬ q.Holds id.slotNumber ∧ q.Tidy := by
  have hlayout := h.counted.layout
  have hd := dataRemoved_removeData hlayout hn ha
  have hr := released_removeData (b := true) hlayout hn ha
  refine ⟨_, deleteRecordAllow_of_holds hlayout hid hn, sameBut_removed hlayout hn hd hr, ?_,
    tidy_removed h hn hd⟩
  rw [holds_removed hlayout hn hd hr]
  exact fun hholds => hholds.2 rfl

/-- `updateRecord` replaces the record if there is room for the new one, and otherwise does nothing. -/
theorem updateRecord_tidy (h : p.Tidy) (hid : id.pageNumber = p.pageNumber) (hn : p.Holds id.slotNumber)
    (ha : p.Aligned id.slotNumber) :
    (∃ q, updateRecord id data p = (.ok (), q) ∧ Stored p id.slotNumber data q ∧ q.Tidy) ∨
      updateRecord id data p = (.error (.throw (.insufficientSpace p.pageNumber data.length
        (p.getFreeSpace + p.lengthOf id.slotNumber))), p) := by
  have hlayout := h.counted.layout
  have hd := dataRemoved_removeData hlayout hn ha
  have hr := released_removeData (b := false) hlayout hn ha
  have hcounted : (releaseSlot id.slotNumber false (removeData id.slotNumber p)).Counted :=
    counted_removed h.counted hn hd
  unfold updateRecord
  rw [bind_of_ok (validateRecordId_of_holds hlayout.readable hid hn), bind_of_ok (get_apply p)]
  by_cases hroom : data.length > p.getFreeSpace + (p.slot id.slotNumber).itemLength
  · rw [if_pos hroom]
    exact Or.inr rfl
  · obtain ⟨-, hslots, hspace⟩ := room_removed hlayout hn ha hroom
    rw [if_neg hroom, bind_of_ok (deleteRecordAllow_of_holds hlayout hid hn)]
    generalize releaseSlot id.slotNumber false (removeData id.slotNumber p) = q at *
    have hunused : (q.slot id.slotNumber).used = false := by
      rw [slot_removed hlayout hn hd hr hn.1 hn.2.1, if_pos rfl]
    have hle : id.slotNumber ≤ q.header.numSlots := by
      rw [hslots]
      exact hn.2.1
    have hfill := insertRecordInSlot_of_unused data hn.1 hle hunused
    have hsame := (sameBut_removed hlayout hn hd hr).trans
      (sameBut_fillSlot hcounted.layout hspace hn.1 hle hunused)
    refine Or.inl ⟨_, hfill, ⟨hsame, holds_fillSlot_self hcounted.layout hspace hn.1 hle,
      record_fillSlot_self hcounted.layout hspace hn.1 hle⟩, ?_⟩
    apply tidy_fillSlot hcounted hspace hn.1 hle hunused
    -- the slot of the record may be the last one
    by_cases heq : id.slotNumber = p.header.numSlots
    · exact Or.inl (heq.trans hslots.symm)
    · right
      rw [hslots, holds_removed hlayout hn hd hr]
      rcases h.last with hzero | hlast
      · exact absurd (hn.1.trans_le hn.2.1) (by omega)
      · exact ⟨hlast, Ne.symm heq⟩

end Page

end CS640.Badger
