import CS640.Badger.Slotted.Layout

/-!
# Removing and adding records

What `deleteRecord` and `insertRecordInSlot` make of the records of a page: the one record goes or
comes, every other record keeps its slot and its bytes, and the layout is kept.

Both changes move bytes, so what is to be shown is where each byte comes from. `Released` has what `deleteRecord`
writes after it has moved the data, and the lemmas `…_removed` compare a page before and after; the lemmas `…_fill`
and `…_fillSlot` do so for a record that is added.
-/

namespace CS640.Badger.Page

open CS640.Lib DataArea Finset

variable {D : Type} [DataArea D] {p p' q : Page D} {k m n : Nat} {b : Bool} {data : List UInt8}

/-! ## Records

A record is its bytes, from the offset in its slot. Two pages have the same record in a slot if the bytes are the
same, wherever they are.
-/

/-- The record in slot `n` of `p` is in slot `n` of `q`. -/
theorem record_congr (hlen : q.lengthOf n = p.lengthOf n)
    (hbytes : ∀ i < p.lengthOf n, byte q.data (q.offsetOf n + i) = byte p.data (p.offsetOf n + i)) :
    q.record n = p.record n := by
  unfold record
  rw [show (q.slot n).itemLength = (p.slot n).itemLength from hlen]
  apply List.map_congr_left
  intro i hi
  exact hbytes i (List.mem_range.mp hi)

/-- `q` has the records of `p`, but for the one in slot `k`. -/
structure SameBut (p : Page D) (k : Nat) (q : Page D) : Prop where
  pageNumber : q.pageNumber = p.pageNumber
  layout : q.Layout
  holds : ∀ m, m ≠ k → (q.Holds m ↔ p.Holds m)
  record : ∀ m, m ≠ k → p.Holds m → q.record m = p.record m

/-! ## Removing

The records between the removed one and the free space move up by its length, so their offsets change and their
bytes do not. Slots at the end that are free are cut off.
-/

/-- What the end of `deleteRecord` makes of `p`: slot `k` and the slots that are cut off are free. -/
structure Released (p : Page D) (k : Nat) (q : Page D) : Prop where
  data : q.data = putSlot k ⟨false, 0, 0⟩ p.data
  pageNumber : q.pageNumber = p.pageNumber
  upper : q.header.freeSpaceUpperBound =
    (p.header.freeSpaceUpperBound + p.lengthOf k) % 2 ^ 16
  lower : q.header.freeSpaceLowerBound = slotSize * q.header.numSlots
  numSlots_le : q.header.numSlots ≤ p.header.numSlots
  unused : ∀ m, q.header.numSlots < m → m ≤ p.header.numSlots → (q.slot m).used = false

theorem released_releaseSlot (hlower : p.header.freeSpaceLowerBound = slotSize * p.header.numSlots)
    (hfull : Full p.data) (hk : 0 < k) (hle : slotSize * k ≤ dataSize) :
    Released p k (releaseSlot k b p) := by
  unfold releaseSlot
  dsimp only
  -- If `k` is the last slot it is cut off, with the free slots in front of it.
  split
  · next hcut =>
      have hcut : k = p.header.numSlots := hcut.2
      subst hcut
      have htrail := trailingUnused_le (n := p.header.numSlots - 1)
        (d := putSlot p.header.numSlots ⟨false, 0, 0⟩ p.data)
      refine ⟨rfl, rfl, rfl, ?_, Nat.sub_le _ _, ?_⟩
      · dsimp only [setSlot]
        rw [hlower]
        simp only [slotSize]
        omega
      · intro m hlow hhigh
        dsimp only [setSlot] at hlow
        -- Slot `k` has just been cleared; the others were free already.
        by_cases heq : m = p.header.numSlots
        · rw [heq]
          unfold slot setSlot
          dsimp only
          rw [getSlot_putSlot hfull hk hle ⟨by simp, by simp⟩ hk, if_pos rfl]
        · apply used_eq_false_of_trailing (n := p.header.numSlots - 1)
          · dsimp only [setSlot]
            omega
          · omega
  · refine ⟨rfl, rfl, rfl, hlower, le_refl _, ?_⟩
    intro m hlow hhigh
    exact absurd hhigh (Nat.not_le.mpr hlow)

theorem numSlots_releaseSlot_false : (releaseSlot k false p).header.numSlots = p.header.numSlots := by
  simp [releaseSlot, setSlot]

section Removed

variable (h : p.Layout) (hk : p.Holds k) (hd : DataRemoved p k p') (hr : Released p' k q)

include hk hd

theorem slot_dataRemoved_self : p'.slot k = p.slot k := by
  rw [hd.slots k hk.1 hk.2.1]
  apply if_neg
  intro hlt
  exact absurd hlt.2 (lt_irrefl _)

include h hr

theorem slot_removed (hm : 0 < m) (hle : m ≤ p.header.numSlots) : q.slot m =
    if m = k then ⟨false, 0, 0⟩
    else if (p.slot m).used = true ∧ p.offsetOf m < p.offsetOf k then
      { p.slot m with itemOffset := p.offsetOf m + p.lengthOf k }
    else p.slot m := by
  unfold slot
  rw [hr.data, getSlot_putSlot hd.full hk.1 (h.slot_le_dataSize hk) ⟨by simp, by simp⟩ hm]
  congr 1
  exact hd.slots m hm hle

theorem holds_removed : q.Holds m ↔ p.Holds m ∧ m ≠ k := by
  have hle := hr.numSlots_le
  rw [hd.header] at hle
  -- A slot that is in use afterwards was so before, and is not `k`.
  constructor
  · rintro ⟨hm, hmle, hused⟩
    rw [slot_removed h hk hd hr hm (by omega)] at hused
    have hne : m ≠ k := by
      rintro rfl
      simp at hused
    rw [if_neg hne] at hused
    refine ⟨⟨hm, by omega, ?_⟩, hne⟩
    split at hused
    · next hbefore => exact hbefore.1
    · exact hused
  · rintro ⟨⟨hm, hmle, hused⟩, hne⟩
    have hslot := slot_removed h hk hd hr hm hmle
    rw [if_neg hne] at hslot
    -- One that was in use and is not `k` still is, and slots in use are not cut off.
    have hqused : (q.slot m).used = true := by
      rw [hslot]
      split
      · exact hused
      · exact hused
    refine ⟨hm, ?_, hqused⟩
    by_contra hcut
    rw [hr.unused m (by omega) (by rw [hd.header]; exact hmle)] at hqused
    exact absurd hqused (by simp)

theorem offset_removed (hm : p.Holds m) (hne : m ≠ k) : q.offsetOf m =
    if p.offsetOf m < p.offsetOf k then p.offsetOf m + p.lengthOf k else p.offsetOf m := by
  have hslot := slot_removed h hk hd hr hm.1 hm.2.1
  rw [if_neg hne] at hslot
  rw [show q.offsetOf m = (q.slot m).itemOffset from rfl, hslot]
  simp only [hm.2.2, true_and]
  split <;> rfl

theorem length_removed (hm : p.Holds m) (hne : m ≠ k) : q.lengthOf m = p.lengthOf m := by
  have hslot := slot_removed h hk hd hr hm.1 hm.2.1
  rw [if_neg hne] at hslot
  unfold lengthOf
  rw [hslot]
  split <;> rfl

theorem filled_removed : q.filled = p.filled.erase k := by
  ext m
  rw [mem_erase, mem_filled, mem_filled, holds_removed h hk hd hr]
  constructor
  · rintro ⟨⟨hm, hne⟩, hlen⟩
    rw [length_removed h hk hd hr hm hne] at hlen
    exact ⟨hne, hm, hlen⟩
  · rintro ⟨hne, hm, hlen⟩
    rw [length_removed h hk hd hr hm hne]
    exact ⟨⟨hm, hne⟩, hlen⟩

theorem upper_removed :
    q.header.freeSpaceUpperBound = p.header.freeSpaceUpperBound + p.lengthOf k := by
  have hself := slot_dataRemoved_self hk hd
  have hlen : p'.lengthOf k = p.lengthOf k := by
    unfold lengthOf
    rw [hself]
  -- The free space ends at the end of the area at most, so its bound is stored as it is.
  have hle : p.header.freeSpaceUpperBound + p.lengthOf k ≤ dataSize := by
    have hwithin := h.within hk
    rcases Nat.eq_zero_or_pos (p.lengthOf k) with hzero | hpos
    · rw [hzero]
      exact h.upper_le
    · have := h.upper_le_offset hk hpos
      omega
  rw [hr.upper, hd.header, hlen]
  apply Nat.mod_eq_of_lt
  simp only [dataSize, pageSize, pageHeaderSize] at hle
  omega

theorem tiles_removed :
    Tiles q.filled q.offsetOf q.lengthOf q.header.freeSpaceUpperBound dataSize := by
  rw [filled_removed h hk hd hr, upper_removed h hk hd hr]
  have hoff : ∀ m ∈ p.filled.erase k, q.offsetOf m =
      if p.offsetOf m < p.offsetOf k then p.offsetOf m + p.lengthOf k else p.offsetOf m := by
    intro m hm
    obtain ⟨hne, hm⟩ := mem_erase.mp hm
    exact offset_removed h hk hd hr (mem_filled.mp hm).1 hne
  have hlen : ∀ m ∈ p.filled.erase k, q.lengthOf m = p.lengthOf m := by
    intro m hm
    obtain ⟨hne, hm⟩ := mem_erase.mp hm
    exact length_removed h hk hd hr (mem_filled.mp hm).1 hne
  -- With a hole where the record was, which the move closes.
  by_cases hmem : k ∈ p.filled
  · exact (h.tiles.remove hmem).congr hoff hlen
  · -- an empty record leaves no hole
    have hzero : p.lengthOf k = 0 := by
      by_contra hpos
      exact hmem (mem_filled.mpr ⟨hk, Nat.pos_of_ne_zero hpos⟩)
    rw [erase_eq_of_notMem hmem] at hoff hlen ⊢
    rw [hzero] at hoff ⊢
    simp only [Nat.add_zero, ite_self] at hoff
    exact h.tiles.congr hoff hlen

theorem layout_removed : q.Layout where
  full := by
    rw [hr.data]
    exact full_putSlot hd.full
  lower := hr.lower
  le := by
    have hslots := h.slots_le
    have hle := hr.numSlots_le
    rw [hd.header] at hle
    rw [hr.lower, upper_removed h hk hd hr]
    simp only [slotSize] at hslots ⊢
    omega
  tiles := tiles_removed h hk hd hr
  offset_le m hm := by
    obtain ⟨hm, hne⟩ := (holds_removed h hk hd hr).mp hm
    have hwithin := h.within hk
    have hoff := h.offset_le m hm
    rw [offset_removed h hk hd hr hm hne]
    -- An offset grows by the length of the removed record at most.
    split <;> omega
  flags m hm hle := by
    have hslots := hr.numSlots_le
    rw [hd.header] at hslots
    rw [hr.data]
    apply noFlag_putSlot hd.full hk.1 (h.slot_le_dataSize hk) hm
    exact hd.flags m hm (hle.trans hslots) (h.flags m hm (hle.trans hslots))

theorem record_removed (hm : p.Holds m) (hne : m ≠ k) : q.record m = p.record m := by
  apply record_congr (length_removed h hk hd hr hm hne)
  intro i hi
  have hupper := h.upper_le_offset hm (by omega)
  have hslots := h.slots_le
  -- Above the free space the slot that is cleared has changed nothing.
  have hbyte : ∀ j, p.header.freeSpaceUpperBound ≤ j → byte q.data j = byte p'.data j := by
    intro j hj
    rw [hr.data]
    exact byte_putSlot_of_le hd.full hk.1 hk.2.1 h.slots_le_dataSize (hslots.trans hj)
  rw [offset_removed h hk hd hr hm hne]
  rcases Nat.eq_zero_or_pos (p.lengthOf k) with hzero | hpos
  · -- an empty record may lie anywhere, within another record too, but nothing moves
    simp only [hzero, Nat.add_zero, ite_self]
    rw [hbyte _ (by omega)]
    rcases Nat.lt_or_ge (p.offsetOf m + i) (p.offsetOf k) with hlt | hge
    · have hbelow := hd.below _ (by omega) hlt
      rwa [hzero, Nat.add_zero] at hbelow
    · exact hd.above _ (by omega) (by omega)
  · have hapart := h.tiles.below_or_above (mem_filled.mpr ⟨hk, hpos⟩)
      (mem_filled.mpr ⟨hm, by omega⟩) hne
    -- Below the removed record the bytes have moved, above it they have not.
    split
    · next hlt =>
        rw [hbyte _ (by omega), Nat.add_right_comm]
        exact hd.below _ (by omega) (by omega)
    · next hge =>
        rw [hbyte _ (by omega)]
        exact hd.above _ (by omega) (by omega)

theorem sameBut_removed : SameBut p k q where
  pageNumber := hr.pageNumber.trans (congrArg PageHeader.currentPageNumber hd.header)
  layout := layout_removed h hk hd hr
  holds m hne := by
    rw [holds_removed h hk hd hr]
    exact and_iff_left hne
  record m hne hm := record_removed h hk hd hr hm hne

end Removed

/-! ## Adding

A record is copied to the upper end of the free space and its slot written. The slots grow from below, so the two do
not meet as long as there is room.
-/

section Fill

variable (h : p.Layout) (hspace : data.length ≤ p.getFreeSpace)

include h hspace

/-- The record comes to lie between the slots and the other records. -/
theorem space_fill : slotSize * p.header.numSlots + data.length ≤ p.header.freeSpaceUpperBound := by
  have hle := h.le
  have hlower := h.lower
  unfold getFreeSpace at hspace
  omega

theorem fits_fill : PageSlot.Fits
    ⟨true, p.header.freeSpaceUpperBound - data.length, data.length⟩ := by
  have hupper := h.upper_le
  have hroom := space_fill h hspace
  simp only [dataSize, pageSize, pageHeaderSize] at hupper
  exact ⟨by dsimp only; omega, by dsimp only; omega⟩

variable (hk : 0 < k) (hle : k ≤ p.header.numSlots)

include hk hle

/-- The slots after slot `k` is written. -/
theorem getSlot_fill (hm : 0 < m) :
    getSlot m (putSlot k ⟨true, p.header.freeSpaceUpperBound - data.length, data.length⟩ p.data) =
      if m = k then ⟨true, p.header.freeSpaceUpperBound - data.length, data.length⟩
      else p.slot m :=
  getSlot_putSlot h.full hk ((Nat.mul_le_mul_left _ hle).trans h.slots_le_dataSize)
    (fits_fill h hspace) hm

/-- The bytes after the record is copied. -/
theorem byte_copy_fill (j : Nat) : byte (fillSlot k data p).data j =
    if p.header.freeSpaceUpperBound - data.length ≤ j ∧ j < p.header.freeSpaceUpperBound then
      data.getD (j - (p.header.freeSpaceUpperBound - data.length)) 0
    else byte (putSlot k ⟨true, p.header.freeSpaceUpperBound - data.length, data.length⟩ p.data) j := by
  have hroom := space_fill h hspace
  have hupper := h.upper_le
  have hself := getSlot_fill h hspace hk hle hk
  rw [if_pos rfl] at hself
  have hend : p.header.freeSpaceUpperBound - data.length + data.length =
      p.header.freeSpaceUpperBound := by omega
  unfold fillSlot setSlot
  dsimp only
  -- The copy goes where slot `k` says, and slot `k` is not hit by it.
  rw [byte_copy j (full_putSlot h.full)]
  · rw [hself, hend]
  · rw [hself, hend]
    exact hupper
  · rw [hself, hend]
    intro d' hd'
    rw [← hself]
    apply getSlot_congr
    intro j _ hj
    apply hd'
    left
    rw [slotPosition_add hk] at hj
    simp only [slotSize] at hroom hj
    dsimp only
    omega

theorem full_fillSlot : Full (fillSlot k data p).data := by
  have hupper := h.upper_le
  have hroom := space_fill h hspace
  have hself := getSlot_fill h hspace hk hle hk
  rw [if_pos rfl] at hself
  unfold fillSlot setSlot
  dsimp only
  apply full_copy (full_putSlot h.full)
  rw [hself]
  dsimp only
  omega

theorem slot_fillSlot (hm : 0 < m) (hmle : m ≤ p.header.numSlots) :
    (fillSlot k data p).slot m =
      if m = k then ⟨true, p.header.freeSpaceUpperBound - data.length, data.length⟩
      else p.slot m := by
  rw [← getSlot_fill h hspace hk hle hm]
  have hroom := space_fill h hspace
  apply getSlot_congr
  intro j _ hj
  -- A slot lies below the free space, where nothing was copied.
  rw [byte_copy_fill h hspace hk hle, if_neg]
  rw [slotPosition_add hm] at hj
  simp only [slotSize] at hroom hj
  omega

/-- The record does not reach into the slots. -/
theorem flag_fillSlot (hm : 0 < m) (hmle : m ≤ p.header.numSlots) :
    ¬ NoFlag (fillSlot k data p).data m := by
  have hput := noFlag_putSlot (s := ⟨true, p.header.freeSpaceUpperBound - data.length, data.length⟩)
    h.full hk ((Nat.mul_le_mul_left _ hle).trans h.slots_le_dataSize) hm (h.flags m hm hmle)
  have hroom := space_fill h hspace
  have hpos := slotPosition_add hm
  unfold NoFlag at hput ⊢
  rw [byte_copy_fill h hspace hk hle, if_neg]
  · exact hput
  · simp only [slotSize] at hroom hpos
    omega

theorem slot_fillSlot_self : (fillSlot k data p).slot k =
    ⟨true, p.header.freeSpaceUpperBound - data.length, data.length⟩ := by
  rw [slot_fillSlot h hspace hk hle hk hle, if_pos rfl]

theorem slot_fillSlot_of_ne (hm : 0 < m) (hmle : m ≤ p.header.numSlots) (hne : m ≠ k) :
    (fillSlot k data p).slot m = p.slot m := by
  rw [slot_fillSlot h hspace hk hle hm hmle, if_neg hne]

theorem holds_fillSlot_self : (fillSlot k data p).Holds k := by
  refine ⟨hk, hle, ?_⟩
  rw [slot_fillSlot_self h hspace hk hle]

theorem record_fillSlot_self : (fillSlot k data p).record k = data := by
  have hroom := space_fill h hspace
  unfold record
  rw [slot_fillSlot_self h hspace hk hle]
  apply List.ext_getElem
  · -- Byte by byte.
    simp
  · intro i hi hlen
    rw [List.getElem_map, List.getElem_range]
    dsimp only
    rw [byte_copy_fill h hspace hk hle, if_pos (by omega), Nat.add_sub_cancel_left,
      List.getD_eq_getElem _ _ hlen]

theorem holds_fillSlot_of_ne (hne : m ≠ k) : (fillSlot k data p).Holds m ↔ p.Holds m := by
  constructor
  · intro ⟨hm, hmle, hused⟩
    rw [slot_fillSlot_of_ne h hspace hk hle hm hmle hne] at hused
    exact ⟨hm, hmle, hused⟩
  · intro ⟨hm, hmle, hused⟩
    refine ⟨hm, hmle, ?_⟩
    rw [slot_fillSlot_of_ne h hspace hk hle hm hmle hne]
    exact hused

theorem record_fillSlot_of_ne (hm : p.Holds m) (hne : m ≠ k) :
    (fillSlot k data p).record m = p.record m := by
  have hslot := slot_fillSlot_of_ne h hspace hk hle hm.1 hm.2.1 hne
  have hroom := space_fill h hspace
  have hoff : (fillSlot k data p).offsetOf m = p.offsetOf m := congrArg PageSlot.itemOffset hslot
  apply record_congr (congrArg PageSlot.itemLength hslot)
  intro i hi
  -- The record is above the free space, where nothing was copied.
  have hupper := h.upper_le_offset hm (by omega)
  rw [hoff, byte_copy_fill h hspace hk hle, if_neg (by omega)]
  exact byte_putSlot_of_le h.full hk hle h.slots_le_dataSize (by omega)

variable (hfree : (p.slot k).used = false)

include hfree

theorem tiles_fillSlot : Tiles (fillSlot k data p).filled (fillSlot k data p).offsetOf
    (fillSlot k data p).lengthOf (p.header.freeSpaceUpperBound - data.length) dataSize := by
  have hself := slot_fillSlot_self h hspace hk hle
  -- Slot `k` was free, so it is none of the filled ones, and those have not changed.
  have hnot : k ∉ p.filled := by
    intro hmem
    rw [(mem_filled.mp hmem).1.2.2] at hfree
    exact absurd hfree (by simp)
  have hold : Tiles p.filled (fillSlot k data p).offsetOf (fillSlot k data p).lengthOf
      p.header.freeSpaceUpperBound dataSize := by
    have hslot : ∀ m ∈ p.filled, (fillSlot k data p).slot m = p.slot m := by
      intro m hmem
      have hm := (mem_filled.mp hmem).1
      exact slot_fillSlot_of_ne h hspace hk hle hm.1 hm.2.1 fun heq => hnot (heq ▸ hmem)
    exact h.tiles.congr (fun m hm => congrArg PageSlot.itemOffset (hslot m hm))
      fun m hm => congrArg PageSlot.itemLength (hslot m hm)
  have hlen : (fillSlot k data p).lengthOf k = data.length := congrArg PageSlot.itemLength hself
  -- The new record counts only if it has bytes.
  have hmem : ∀ m, m ∈ (fillSlot k data p).filled ↔ m = k ∧ 0 < data.length ∨ m ∈ p.filled := by
    intro m
    by_cases heq : m = k
    · subst heq
      rw [mem_filled, hlen]
      simp [hnot, holds_fillSlot_self h hspace hk hle]
    · rw [mem_filled, mem_filled, holds_fillSlot_of_ne h hspace hk hle heq]
      simp only [heq, false_and, false_or, and_congr_right_iff]
      intro hm
      unfold lengthOf
      rw [slot_fillSlot_of_ne h hspace hk hle hm.1 hm.2.1 heq]
  -- An empty record takes no room; any other one is put in front of the rest.
  rcases Nat.eq_zero_or_pos data.length with hzero | hpos
  · have hsame : (fillSlot k data p).filled = p.filled := by
      ext m
      simp [hmem, hzero]
    rw [hsame, hzero]
    exact hold
  · have hinsert : (fillSlot k data p).filled = insert k p.filled := by
      ext m
      simp [hmem, hpos]
    have hroom := space_fill h hspace
    rw [hinsert]
    have htiles := hold.insert hnot (by omega) (by omega)
    rw [hlen] at htiles
    exact htiles (congrArg PageSlot.itemOffset hself)

theorem sameBut_fillSlot : SameBut p k (fillSlot k data p) where
  pageNumber := rfl
  layout :=
    { full := full_fillSlot h hspace hk hle
      lower := h.lower
      le := by
        have hroom := space_fill h hspace
        have hlower := h.lower
        dsimp only [fillSlot, setSlot]
        omega
      tiles := tiles_fillSlot h hspace hk hle hfree
      offset_le := by
        intro m hm
        -- The record that was added, and the others.
        by_cases heq : m = k
        · have hupper := h.upper_le
          unfold offsetOf
          rw [heq, slot_fillSlot_self h hspace hk hle]
          dsimp only
          omega
        · rw [holds_fillSlot_of_ne h hspace hk hle heq] at hm
          unfold offsetOf
          rw [slot_fillSlot_of_ne h hspace hk hle hm.1 hm.2.1 heq]
          exact h.offset_le m hm
      flags := fun m hm hmle => flag_fillSlot h hspace hk hle hm hmle }
  holds m hne := holds_fillSlot_of_ne h hspace hk hle hne
  record m hne hm := record_fillSlot_of_ne h hspace hk hle hm hne

end Fill

end CS640.Badger.Page
