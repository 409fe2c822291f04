import CS640.Badger.Slotted.Slots

/-!
# The layout of a slotted page

The records that are not empty fill the space from `free_space_upper_bound` to the end of the data
area. An empty record has an offset too, and nothing keeps that offset at or above the bound: when the
hole below a deleted record closes, an empty record at the deleted one's offset stays where it is.
`deleteRecord` takes the least offset in use for the start of the bytes to move, so such an empty
record leads it to the wrong place; `Aligned` says that it does not.

* `Layout` — the invariant;
* `DataRemoved` — what is left of a page from which the bytes of a record are removed;
* `dataRemoved_removeData` — the code removes them so, if the record is aligned.
-/

namespace CS640.Badger

open CS640.Lib DataArea Finset

variable {D : Type} [DataArea D]

namespace Page

/-- Slot `n` holds a record. -/
def Holds (p : Page D) (n : Nat) : Prop :=
  0 < n ∧ n ≤ p.header.numSlots ∧ (p.slot n).used = true

/-- The record in slot `n`. -/
def record (p : Page D) (n : Nat) : List UInt8 :=
  (List.range (p.slot n).itemLength).map fun i => byte p.data ((p.slot n).itemOffset + i)

/-- The slots that hold a record that is not empty. -/
def filled (p : Page D) : Finset Nat :=
  (Icc 1 p.header.numSlots).filter fun n => (p.slot n).used = true ∧ 0 < (p.slot n).itemLength

def offsetOf (p : Page D) (n : Nat) : Nat := (p.slot n).itemOffset

def lengthOf (p : Page D) (n : Nat) : Nat := (p.slot n).itemLength

/-- The records of a page lie where they belong. -/
structure Layout (p : Page D) : Prop where
  full : Full p.data
  lower : p.header.freeSpaceLowerBound = slotSize * p.header.numSlots
  le : p.header.freeSpaceLowerBound ≤ p.header.freeSpaceUpperBound
  tiles : Tiles p.filled p.offsetOf p.lengthOf p.header.freeSpaceUpperBound dataSize
  offset_le : ∀ n, p.Holds n → p.offsetOf n ≤ dataSize
  flags : ∀ n, 0 < n → n ≤ p.header.numSlots → ¬ NoFlag p.data n

/-- The slots and the records lie within the data area, which is all it takes to read them. -/
structure Readable (p : Page D) : Prop where
  slots : slotSize * p.header.numSlots ≤ dataSize
  within : ∀ n, p.Holds n → p.offsetOf n + p.lengthOf n ≤ dataSize

/-- The record in slot `k` can be removed without moving the wrong bytes: it is empty, no bytes are to
be moved, or all offsets are at or above the bound of the free space. -/
def Aligned (p : Page D) (k : Nat) : Prop :=
  0 < p.lengthOf k → (∃ m ∈ p.filled, p.offsetOf m < p.offsetOf k) →
    ∀ m ∈ Icc 1 p.header.numSlots, (p.slot m).used = true →
      p.header.freeSpaceUpperBound ≤ p.offsetOf m

instance (p : Page D) : DecidablePred p.Aligned := fun _ => by
  unfold Aligned
  infer_instance

variable {p : Page D} {k m n i j : Nat}

theorem mem_filled : n ∈ p.filled ↔ p.Holds n ∧ 0 < p.lengthOf n := by
  simp only [filled, Holds, lengthOf, mem_filter, mem_Icc]
  constructor
  · rintro ⟨⟨hpos, hle⟩, hused, hlen⟩
    exact ⟨⟨hpos, hle, hused⟩, hlen⟩
  · rintro ⟨⟨hpos, hle, hused⟩, hlen⟩
    exact ⟨⟨hpos, hle⟩, hused, hlen⟩

theorem layout_init : (init : Page D).Layout where
  full := full_zeros
  lower := rfl
  le := Nat.zero_le _
  tiles := .empty _
  offset_le n h := absurd h.2.1 (by simp [init, Nat.pos_iff_ne_zero.mp h.1])
  flags n hn hle := absurd (hn.trans_le hle) (Nat.lt_irrefl 0)

namespace Layout

variable (h : p.Layout)

include h

theorem upper_le : p.header.freeSpaceUpperBound ≤ dataSize := h.tiles.le

/-- The slot array ends before the records begin. -/
theorem slots_le : slotSize * p.header.numSlots ≤ p.header.freeSpaceUpperBound := by
  rw [← h.lower]
  exact h.le

theorem slots_le_dataSize : slotSize * p.header.numSlots ≤ dataSize := h.slots_le.trans h.upper_le

/-- A record that is not empty lies behind the free space. -/
theorem upper_le_offset (hn : p.Holds n) (hlen : 0 < p.lengthOf n) :
    p.header.freeSpaceUpperBound ≤ p.offsetOf n :=
  (h.tiles.within n (mem_filled.mpr ⟨hn, hlen⟩)).1

/-- Every record lies within the data area. -/
theorem within (hn : p.Holds n) : p.offsetOf n + p.lengthOf n ≤ dataSize := by
  -- an empty record has an offset within the area, any other one is a tile
  rcases Nat.eq_zero_or_pos (p.lengthOf n) with hlen | hlen
  · rw [hlen]
    exact h.offset_le n hn
  · exact (h.tiles.within n (mem_filled.mpr ⟨hn, hlen⟩)).2

theorem readable : p.Readable := ⟨h.slots_le_dataSize, fun _ => h.within⟩

/-- The page numbers in the header do not matter. -/
theorem renumber (current next : Nat) :
    (⟨{ p.header with currentPageNumber := current, nextPageNumber := next }, p.data⟩ : Page D).Layout where
  full := h.full
  lower := h.lower
  le := h.le
  tiles := h.tiles
  offset_le := h.offset_le
  flags := h.flags

end Layout

theorem Readable.slot_le_dataSize (h : p.Readable) (hn : p.Holds n) : slotSize * n ≤ dataSize := by
  have hle := h.slots
  have hn := hn.2.1
  simp only [slotSize] at hle ⊢
  omega

theorem Layout.slot_le_dataSize (h : p.Layout) (hn : p.Holds n) : slotSize * n ≤ dataSize :=
  h.readable.slot_le_dataSize hn

/-- A slot is read from below the free space. -/
theorem getSlot_eq_slot {d : D} (hn : 0 < n) (hle : n ≤ p.header.numSlots)
    (hd : ∀ j, j < slotSize * p.header.numSlots → byte d j = byte p.data j) :
    getSlot n d = p.slot n := by
  apply getSlot_congr
  intro j _ hj
  apply hd
  rw [slotPosition_add hn] at hj
  exact hj.trans_le (Nat.mul_le_mul_left _ hle)

/-! ## Removing a record

Three steps of the source: the record is overwritten with zeros, the offsets of the slots below it are shifted, and
the bytes below it are moved up by its length. After each step, the lemmas say which byte is where (`byte_zeroed`,
`Shifted`, `byte_moved`), and that the slots can still be read.
-/

/-- The bytes that move belong to the records that are not empty and lie below. -/
theorem sum_before {d : D} (hd : ∀ m, 0 < m → m ≤ p.header.numSlots → getSlot m d = p.slot m) :
    ∑ m ∈ Icc 1 p.header.numSlots with Before d (p.offsetOf k) m, (getSlot m d).itemLength =
      ∑ m ∈ p.filled with p.offsetOf m < p.offsetOf k, p.lengthOf m := by
  symm
  -- the records that only the loop counts are empty, so they add nothing
  apply sum_subset_zero_on_sdiff
  · intro m hm
    obtain ⟨hm, hlt⟩ := mem_filter.mp hm
    obtain ⟨⟨hpos, hle, hused⟩, _⟩ := mem_filled.mp hm
    refine mem_filter.mpr ⟨mem_Icc.mpr ⟨hpos, hle⟩, ?_⟩
    unfold Before
    rw [hd m hpos hle]
    exact ⟨hused, hlt⟩
  · intro m hm
    obtain ⟨hm, hnot⟩ := mem_sdiff.mp hm
    obtain ⟨hmem, hbefore⟩ := mem_filter.mp hm
    obtain ⟨hpos, hle⟩ := mem_Icc.mp hmem
    unfold Before at hbefore
    rw [hd m hpos hle] at hbefore ⊢
    by_contra hlen
    apply hnot
    refine mem_filter.mpr ⟨mem_filled.mpr ⟨⟨hpos, hle, hbefore.1⟩, ?_⟩, hbefore.2⟩
    exact Nat.pos_of_ne_zero hlen
  · intro m hm
    obtain ⟨hm, _⟩ := mem_filter.mp hm
    obtain ⟨⟨hpos, hle, _⟩, _⟩ := mem_filled.mp hm
    rw [hd m hpos hle]
    rfl

section Remove

variable (h : p.Layout) (hk : p.Holds k)

include h hk

/-- The bytes after the record is overwritten. -/
theorem byte_zeroed : ∀ j, byte (copy p.data (getSlot k) PageSlot.itemLength PageSlot.itemOffset
      fun _ => 0) j =
    if p.offsetOf k ≤ j ∧ j < p.offsetOf k + p.lengthOf k then 0 else byte p.data j := by
  intro j
  apply byte_copy j h.full (h.within hk)
  intro d' hd'
  apply getSlot_eq_slot hk.1 hk.2.1
  intro j hj
  apply hd'
  -- an empty record overwrites nothing; any other one lies behind the slots
  rcases Nat.eq_zero_or_pos (p.lengthOf k) with hlen | hlen
  · have hlen : (getSlot k p.data).itemLength = 0 := hlen
    omega
  · left
    exact hj.trans_le (h.slots_le.trans (h.upper_le_offset hk hlen))

theorem getSlot_zeroed (hn : 0 < n) (hle : n ≤ p.header.numSlots) :
    getSlot n (copy p.data (getSlot k) PageSlot.itemLength PageSlot.itemOffset fun _ => 0) =
      p.slot n := by
  apply getSlot_eq_slot hn hle
  intro j hj
  rw [byte_zeroed h hk, if_neg]
  intro hin
  have hlen : 0 < p.lengthOf k := by omega
  have := h.upper_le_offset hk hlen
  have := h.slots_le
  omega

end Remove

/-! What is moved, where `r` is what the loop over the slots has made of the area `z`. -/

section Move

variable {z : D} {r : D × Nat × Nat} (h : p.Layout) (hk : p.Holds k)
  (hz : ∀ m, 0 < m → m ≤ p.header.numSlots → getSlot m z = p.slot m)
  (hr : Shifted z (p.slot k) p.header.numSlots p.header.numSlots r)

include hz hr

theorem moveBytes_eq :
    r.2.2 = ∑ m ∈ p.filled with p.offsetOf m < p.offsetOf k, p.lengthOf m := by
  rw [hr.moveBytes]
  exact sum_before hz

include hk

theorem getSlot_shifted_self : getSlot k r.1 = p.slot k := by
  rw [hr.slots k hk.1 hk.2.1, hz k hk.1 hk.2.1]
  apply if_neg
  rintro ⟨_, hbefore⟩
  unfold Before at hbefore
  rw [hz k hk.1 hk.2.1] at hbefore
  exact lt_irrefl _ hbefore.2

include h

/-- The bytes that are moved are there. -/
theorem moveOffset_add_le : r.2.1 + r.2.2 ≤ dataSize := by
  have hbefore := hr.moveOffset_le_before
  have hle : r.2.1 ≤ p.offsetOf k := hr.moveOffset_le
  have hoff := h.offset_le k hk
  have hsum : ∑ m ∈ p.filled with p.offsetOf m < p.offsetOf k, p.lengthOf m ≤ dataSize - r.2.1 := by
    -- the records that are moved lie side by side from `r.2.1` on
    apply sum_len_le p.offsetOf
    · intro m hm
      obtain ⟨hm, hlt⟩ := Finset.mem_filter.mp hm
      obtain ⟨⟨hpos, hmle, hused⟩, _⟩ := mem_filled.mp hm
      have hmove := hbefore m hpos hmle
      unfold Before at hmove
      rw [hz m hpos hmle] at hmove
      exact ⟨hmove ⟨hused, hlt⟩, (h.tiles.within m hm).2⟩
    · intro m hm m' hm'
      exact h.tiles.apart m (mem_filter.mp hm).1 m' (mem_filter.mp hm').1
  rw [← moveBytes_eq hz hr] at hsum
  omega

/-- If a record that is not empty is removed, then what lies below it is moved. -/
theorem moved_eq (ha : p.Aligned k) (hlen : 0 < p.lengthOf k) :
    r.2.2 = p.offsetOf k - p.header.freeSpaceUpperBound ∧
      (0 < r.2.2 → r.2.1 = p.header.freeSpaceUpperBound) := by
  have hmem := mem_filled.mpr ⟨hk, hlen⟩
  have hbytes : r.2.2 = p.offsetOf k - p.header.freeSpaceUpperBound := by
    rw [moveBytes_eq hz hr]
    exact h.tiles.sum_below hmem
  refine ⟨hbytes, fun hpos => ?_⟩
  -- some record starts at the bound of the free space, and no offset is below it
  obtain ⟨i, hi, hstart⟩ := h.tiles.exists_start hmem (by omega)
  have hlt : p.offsetOf i < p.offsetOf k := by omega
  obtain ⟨⟨hipos, hile, hiused⟩, _⟩ := mem_filled.mp hi
  have hupper := ha hlen ⟨i, hi, hlt⟩
  apply Nat.le_antisymm
  · have hmove := hr.moveOffset_le_before i hipos hile
    unfold Before at hmove
    rw [hz i hipos hile] at hmove
    rw [← hstart]
    exact hmove ⟨hiused, hlt⟩
  · rcases hr.moveOffset_mem with hoff | ⟨m, hmpos, hmle, hbefore, hoff⟩
    · rw [hoff]
      exact h.upper_le_offset hk hlen
    · unfold Before at hbefore
      rw [hz m hmpos hmle] at hbefore hoff
      rw [hoff]
      exact hupper m (mem_Icc.mpr ⟨hmpos, hmle⟩) hbefore.1

/-- There is room for what is moved. -/
theorem moved_le (ha : p.Aligned k) (hmove : 0 < r.2.2) :
    r.2.1 + (getSlot k r.1).itemLength + r.2.2 ≤ dataSize := by
  have hwithin := h.within hk
  have hle := moveOffset_add_le h hk hz hr
  have hlength : (getSlot k r.1).itemLength = p.lengthOf k := by
    rw [getSlot_shifted_self hk hz hr]
    rfl
  rw [hlength]
  -- for an empty record nothing is moved further than it lies
  rcases Nat.eq_zero_or_pos (p.lengthOf k) with hlen | hlen
  · omega
  · obtain ⟨hbytes, hoff⟩ := moved_eq h hk hz hr ha hlen
    have hoff := hoff hmove
    omega

/-- The bytes after the hole is closed. -/
theorem byte_moved (ha : p.Aligned k) (j : Nat) :
    byte (if r.2.2 > 0 then
        copy r.1 (getSlot k) (fun _ => r.2.2) (fun slot => r.2.1 + slot.itemLength)
          fun i => byte r.1 (r.2.1 + i)
      else r.1) j =
      if p.header.freeSpaceUpperBound + p.lengthOf k ≤ j ∧ j < p.offsetOf k + p.lengthOf k then
        byte r.1 (j - p.lengthOf k)
      else byte r.1 j := by
  have hlength : (getSlot k r.1).itemLength = p.lengthOf k := by
    rw [getSlot_shifted_self hk hz hr]
    rfl
  rcases Nat.eq_zero_or_pos (p.lengthOf k) with hlen | hlen
  · -- the record is empty: every byte is copied to where it is
    simp only [hlen, Nat.sub_zero, ite_self]
    split
    · next hmove =>
        apply byte_copy_self j hr.full
        · exact moved_le h hk hz hr ha hmove
        · intro i _
          rw [hlength, hlen, Nat.add_zero]
    · rfl
  · obtain ⟨hbytes, hoff⟩ := moved_eq h hk hz hr ha hlen
    split
    · next hmove =>
        have hoff := hoff hmove
        have hpos : r.2.1 + (getSlot k r.1).itemLength =
            p.header.freeSpaceUpperBound + p.lengthOf k := by
          rw [hlength, hoff]
        rw [byte_copy j hr.full (moved_le h hk hz hr ha hmove)]
        · rw [hpos, hbytes, hoff]
          by_cases hin : p.header.freeSpaceUpperBound + p.lengthOf k ≤ j ∧
              j < p.offsetOf k + p.lengthOf k
          · rw [if_pos hin, if_pos (by omega)]
            congr 1
            omega
          · rw [if_neg hin, if_neg (by omega)]
        · -- the slot lies before the bytes that are written
          rw [hpos]
          intro d' hd'
          apply getSlot_congr
          intro j _ hj
          apply hd'
          left
          rw [slotPosition_add hk.1] at hj
          have hslots := h.slots_le
          have := hk.2.1
          simp only [slotSize] at hslots hj
          omega
    · rw [if_neg (by omega)]

end Move

/-- `p'` is `p` without the bytes of the record in slot `k`. -/
structure DataRemoved (p : Page D) (k : Nat) (p' : Page D) : Prop where
  header : p'.header = p.header
  full : Full p'.data
  slots : ∀ m, 0 < m → m ≤ p.header.numSlots → p'.slot m =
    if (p.slot m).used = true ∧ p.offsetOf m < p.offsetOf k then
      { p.slot m with itemOffset := p.offsetOf m + p.lengthOf k }
    else p.slot m
  flags : ∀ m, 0 < m → m ≤ p.header.numSlots → ¬ NoFlag p.data m → ¬ NoFlag p'.data m
  below : ∀ j, p.header.freeSpaceUpperBound ≤ j → j < p.offsetOf k →
    byte p'.data (j + p.lengthOf k) = byte p.data j
  above : ∀ j, p.header.freeSpaceUpperBound ≤ j → p.offsetOf k + p.lengthOf k ≤ j →
    byte p'.data j = byte p.data j

theorem dataRemoved_removeData (h : p.Layout) (hk : p.Holds k) (ha : p.Aligned k) :
    DataRemoved p k (removeData k p) := by
  have hz : ∀ m, 0 < m → m ≤ p.header.numSlots → _ := fun m => getSlot_zeroed h hk (n := m)
  have hzbyte := byte_zeroed h hk
  have hzfull : Full (copy p.data (getSlot k) PageSlot.itemLength PageSlot.itemOffset fun _ => 0) :=
    full_copy h.full (h.within hk)
  unfold removeData
  generalize copy p.data (getSlot k) PageSlot.itemLength PageSlot.itemOffset (fun _ => 0) = z at *
  have hself := hz k hk.1 hk.2.1
  have hr := shifted_foldl hzfull hk.1 hk.2.1 h.slots_le_dataSize
    (by rw [hself]; exact h.within hk) _ (le_refl _)
  dsimp only
  generalize (List.range' 1 p.header.numSlots).foldl (shiftSlot k) (z, (getSlot k z).itemOffset, 0) = r
    at *
  rw [hself] at hr
  have hmoved := byte_moved h hk hz hr ha
  have hmovedFull : Full (if r.2.2 > 0 then
      copy r.1 (getSlot k) (fun _ => r.2.2) (fun slot => r.2.1 + slot.itemLength)
        fun i => byte r.1 (r.2.1 + i)
    else r.1) := by
    split
    · next hmove => exact full_copy hr.full (moved_le h hk hz hr ha hmove)
    · exact hr.full
  generalize (if r.2.2 > 0 then
      copy r.1 (getSlot k) (fun _ => r.2.2) (fun slot => r.2.1 + slot.itemLength)
        fun i => byte r.1 (r.2.1 + i)
    else r.1) = moved at *
  have hslots := h.slots_le
  refine ⟨rfl, hmovedFull, ?_, ?_, ?_, ?_⟩
  · -- the slots lie below the free space, where no byte was moved
    intro m hm hle
    have hread : getSlot m moved = getSlot m r.1 := by
      apply getSlot_congr
      intro j _ hj
      rw [hmoved j, if_neg]
      rw [slotPosition_add hm] at hj
      simp only [slotSize] at hslots hj
      omega
    calc getSlot m moved = getSlot m r.1 := hread
      _ = _ := hr.slots m hm hle
      _ = _ := by
        simp only [hle, true_and, Before, hz m hm hle]
        rfl
  · -- the flags lie below the free space, where only the loop over the slots writes
    intro m hm hle hflag
    have hpos := slotPosition_add hm
    have hlow : slotPosition m < p.header.freeSpaceUpperBound := by
      simp only [slotSize] at hslots hpos
      omega
    have hzflag : ¬ NoFlag z m := by
      unfold NoFlag at hflag ⊢
      rw [hzbyte, if_neg]
      · exact hflag
      · intro hin
        have := h.upper_le_offset hk (by omega)
        omega
    have hrflag := hr.flags m hm hzflag
    show ¬ 1 < byte moved (slotPosition m)
    rw [hmoved, if_neg (by omega)]
    exact hrflag
  · -- a byte below the record is moved up
    intro j hlow hlt
    rw [hmoved, if_pos (by omega), Nat.add_sub_cancel, hr.records j (by omega), hzbyte,
      if_neg (by omega)]
  · -- a byte behind the record stays
    intro j hlow hge
    rw [hmoved, if_neg (by omega), hr.records j (by omega), hzbyte, if_neg (by omega)]

end Page

end CS640.Badger
