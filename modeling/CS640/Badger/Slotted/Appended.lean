import CS640.Badger.Slotted.Counts

/-!
# Pages that are only added to

As long as `insertRecord` is the only call on a new page, the records are in the slots in turn, and the
space between the slots and the records is as it was at the beginning. A slot that is allocated there does
not read as in use, so the next record goes in exactly if there is room for it and for its slot.
-/

namespace CS640.Badger

open CS640.Lib Prog DataArea

variable {D : Type} [DataArea D]

/-- The bytes that records take up, with their slots. -/
def spaceFor (data : List (List UInt8)) : Nat := (data.map fun d => d.length + slotSize).sum

@[simp] theorem spaceFor_nil : spaceFor [] = 0 := rfl

@[simp] theorem spaceFor_singleton (d : List UInt8) : spaceFor [d] = d.length + slotSize := by
  simp [spaceFor]

@[simp] theorem spaceFor_append (data data' : List (List UInt8)) :
    spaceFor (data ++ data') = spaceFor data + spaceFor data' := by
  simp [spaceFor]

namespace Page

/-- The records of the page are `data`, in the slots from the first on, and nothing else was written. -/
structure Appended (p : Page D) (data : List (List UInt8)) : Prop where
  tidy : p.Tidy
  numSlots : p.header.numSlots = data.length
  holds : ∀ n < data.length, p.Holds (n + 1)
  record : ∀ n (h : n < data.length), p.record (n + 1) = data[n]
  space : p.getFreeSpace + spaceFor data = dataSize
  blank : ∀ j, p.header.freeSpaceLowerBound ≤ j → j < p.header.freeSpaceUpperBound → byte p.data j = 0

theorem appended_init (pageNumber : Nat) : ((init : Page CharArea).setPageNumber pageNumber).Appended [] where
  tidy := tidy_init pageNumber
  numSlots := rfl
  holds n h := by cases h
  record n h := by cases h
  space := rfl
  blank _ _ _ := rfl

variable {p : Page D} {data : List (List UInt8)} {d : List UInt8}

/-- A new slot is taken if no slot is free. -/
theorem insertRecord_new (hspace : hasSpaceForRecord d p = true) (hfree : p.header.numFreeSlots = 0)
    (hunused : (p.slot (p.header.numSlots + 1)).used = false) :
    insertRecord d p =
      (.ok ⟨p.pageNumber, p.header.numSlots + 1⟩, fillSlot (p.header.numSlots + 1) d p.addSlot) := by
  have hslot : getAvailableSlot p = (.ok (p.header.numSlots + 1), p.addSlot) := by
    unfold getAvailableSlot
    rw [bind_of_ok (get_apply p), if_neg (by omega), bind_of_ok (modify_apply _ p)]
    rfl
  have hfill : insertRecordInSlot (p.header.numSlots + 1) d p.addSlot = _ :=
    insertRecordInSlot_of_unused d (Nat.succ_pos _) (Nat.le_refl _) hunused
  unfold insertRecord
  rw [bind_of_ok (get_apply p), if_neg (by simp [hspace]), bind_of_ok hslot, bind_of_ok hfill]
  rfl

namespace Appended

variable (h : p.Appended data)

include h

/-- No slot is free. -/
theorem numFreeSlots : p.header.numFreeSlots = 0 := by
  have hall : p.usedSlots = Finset.Icc 1 p.header.numSlots := by
    apply Finset.filter_true_of_mem
    intro n hn
    obtain ⟨hpos, hle⟩ := Finset.mem_Icc.mp hn
    obtain ⟨n, rfl⟩ := Nat.exists_eq_succ_of_ne_zero (Nat.ne_of_gt hpos)
    rw [h.numSlots] at hle
    exact (h.holds n hle).2.2
  have hfree := h.tidy.counted.free
  rw [hall, Nat.card_Icc] at hfree
  omega

theorem hasSpace_iff : hasSpaceForRecord d p = true ↔ spaceFor (data ++ [d]) ≤ dataSize := by
  have hspace := h.space
  simp only [hasSpaceForRecord, h.numFreeSlots, if_true, decide_eq_true_iff, spaceFor_append,
    spaceFor_singleton]
  omega

/-- There is no room for the record. -/
theorem insertRecord_full (hfull : ¬ spaceFor (data ++ [d]) ≤ dataSize) :
    insertRecord d p =
      (.error (.throw (.insufficientSpace p.pageNumber d.length p.getFreeSpace)), p) := by
  have hspace : hasSpaceForRecord d p = false := by
    rw [← Bool.not_eq_true, h.hasSpace_iff]
    exact hfull
  unfold insertRecord
  rw [bind_of_ok (get_apply p), if_pos hspace]
  rfl

section Room

variable (hroom : spaceFor (data ++ [d]) ≤ dataSize)

include hroom

theorem bounds : p.header.freeSpaceLowerBound + (d.length + slotSize) ≤ p.header.freeSpaceUpperBound := by
  have hsum := h.space
  have hle := h.tidy.counted.layout.le
  rw [spaceFor_append, spaceFor_singleton] at hroom
  unfold getFreeSpace at hsum
  omega

/-- The used byte of the new slot is one of the free space. -/
theorem unused : (p.slot (p.header.numSlots + 1)).used = false := by
  have hbounds := h.bounds hroom
  have hpos : 0 < slotSize := by decide
  have hblank := h.blank p.header.freeSpaceLowerBound (Nat.le_refl _) (by omega)
  have hposition : slotPosition (p.header.numSlots + 1) = p.header.freeSpaceLowerBound := by
    rw [slotPosition, Nat.add_sub_cancel, Nat.mul_comm, h.tidy.counted.layout.lower]
  show (byte p.data (slotPosition (p.header.numSlots + 1)) != 0) = false
  rw [hposition, hblank]
  rfl

/-- The record goes into the next slot. -/
theorem insertRecord_room : insertRecord d p =
    (.ok ⟨p.pageNumber, data.length + 1⟩, fillSlot (data.length + 1) d p.addSlot) := by
  rw [insertRecord_new (h.hasSpace_iff.mpr hroom) h.numFreeSlots (h.unused hroom), h.numSlots]

theorem stored : Stored p (data.length + 1) d (fillSlot (data.length + 1) d p.addSlot) ∧
    (fillSlot (data.length + 1) d p.addSlot).Tidy := by
  rcases insertRecord_tidy h.tidy (fun _ => Or.inr (h.unused hroom)) with
    ⟨-, n, q, hcall, -, hstored, htidy⟩ | ⟨hnone, -⟩
  · rw [h.insertRecord_room hroom] at hcall
    obtain ⟨hslot, rfl⟩ := Prod.mk.inj hcall
    obtain rfl : data.length + 1 = n := (RecordId.mk.inj (Except.ok.inj hslot)).2
    exact ⟨hstored, htidy⟩
  · rw [h.hasSpace_iff.mpr hroom] at hnone
    cases hnone

/-- What is between the slots and the records is still as it was. -/
theorem blank_fillSlot : ∀ j, slotSize * (data.length + 1) ≤ j →
    j < p.header.freeSpaceUpperBound - d.length →
    byte (fillSlot (data.length + 1) d p.addSlot).data j = 0 := by
  intro j hlow hhigh
  have hbounds := h.bounds hroom
  have hlower := h.tidy.counted.layout.lower
  have hadd : p.addSlot.Layout := (counted_addSlot h.tidy.counted (by omega) (h.unused hroom)).layout
  have hspace : d.length ≤ p.addSlot.getFreeSpace := by
    show d.length ≤ p.header.freeSpaceUpperBound - slotSize * (p.header.numSlots + 1)
    simp only [slotSize] at hlower hbounds ⊢
    omega
  have hle : data.length + 1 ≤ p.addSlot.header.numSlots := by
    show data.length + 1 ≤ p.header.numSlots + 1
    rw [h.numSlots]
  have hslots : slotSize * (data.length + 1) ≤ dataSize :=
    (Nat.mul_le_mul_left _ hle).trans hadd.slots_le_dataSize
  rw [byte_copy_fill hadd hspace (Nat.succ_pos _) hle, if_neg]
  · rw [byte_putSlot_of_le hadd.full (Nat.succ_pos _) (Nat.le_refl _) hslots hlow]
    apply h.blank j _ (by omega)
    rw [h.numSlots] at hlower
    simp only [slotSize] at hlower hlow
    omega
  · show ¬ (p.header.freeSpaceUpperBound - d.length ≤ j ∧ _)
    omega

theorem fillSlot_appended : (fillSlot (data.length + 1) d p.addSlot).Appended (data ++ [d]) := by
  obtain ⟨hstored, htidy⟩ := h.stored hroom
  have hbounds := h.bounds hroom
  have hlower := h.tidy.counted.layout.lower
  have hlast : ∀ n < (data ++ [d]).length, n ≠ data.length → n < data.length := by
    intro n hn hne
    rw [List.length_append, List.length_singleton] at hn
    omega
  constructor
  case tidy => exact htidy
  case numSlots =>
    show p.header.numSlots + 1 = _
    rw [h.numSlots, List.length_append, List.length_singleton]
  case holds =>
    intro n hn
    by_cases heq : n = data.length
    · rw [heq]
      exact hstored.holds
    · exact (hstored.same.holds (n + 1) (by omega)).mpr (h.holds n (hlast n hn heq))
  case record =>
    intro n hn
    by_cases heq : n = data.length
    · subst heq
      simp [hstored.record]
    · have hlt := hlast n hn heq
      rw [hstored.same.record (n + 1) (by omega) (h.holds n hlt), h.record n hlt,
        List.getElem_append_left hlt]
  case space =>
    have hsum := h.space
    unfold getFreeSpace at hsum
    show p.header.freeSpaceUpperBound - d.length - slotSize * (p.header.numSlots + 1) + _ = _
    rw [spaceFor_append, spaceFor_singleton]
    simp only [slotSize] at hlower hbounds ⊢
    omega
  case blank =>
    intro j hlow hhigh
    have hlow : slotSize * (p.header.numSlots + 1) ≤ j := hlow
    rw [h.numSlots] at hlow
    exact h.blank_fillSlot hroom j hlow hhigh

end Room

end Appended

end Page

end CS640.Badger
