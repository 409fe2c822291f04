import CS640.Badger.Slotted.Page
import CS640.Lib.Tiling
import Mathlib.Algebra.Order.Interval.Finset.SuccPred
import Mathlib.Data.Nat.SuccPred

/-!
# The slot array

What a read of a slot sees of a write to a slot, and what the first loop of `deleteRecord` does to
the slot array. Nothing here looks at the records.

Key lemmas: `getSlot_putSlot`, by which slots can be written independently of each other, and `shifted_foldl`, which
says what the loop has computed after all its rounds, with `Shifted` for its invariant.
-/

namespace CS640.Badger

open CS640.Lib DataArea Page

variable {D : Type} [DataArea D] {d d' : D} {i j m n : Nat} {s : PageSlot}

/-! ## Numbers

The offset and the length of a record are numbers of 16 bits, stored as two bytes.
-/

theorem full_write16 (h : Full d) : Full (write16 d i n) := by
  unfold write16
  exact full_setByte (full_setByte h)

theorem byte_write16 (h : Full d) (hi : i + 1 < dataSize) (j : Nat) :
    byte (write16 d i n) j =
      if j = i + 1 then UInt8.ofNat (n / 256) else if j = i then UInt8.ofNat n else byte d j := by
  unfold write16
  rw [byte_setByte j (full_setByte h) hi, byte_setByte j h (by omega)]

theorem read16_write16 (h : Full d) (hi : i + 1 < dataSize) (hn : n < 2 ^ 16) :
    read16 (write16 d i n) i = n := by
  simp only [read16, byte_write16 h hi, if_true, if_neg (show i ≠ i + 1 by omega), UInt8.toNat_ofNat']
  omega

theorem read16_congr (h : byte d' i = byte d i) (h' : byte d' (i + 1) = byte d (i + 1)) :
    read16 d' i = read16 d i := by
  rw [read16, h, h', read16]

theorem read16_lt : read16 d i < 2 ^ 16 := by
  have h := (byte d i).toNat_lt
  have h' := (byte d (i + 1)).toNat_lt
  unfold read16
  omega

/-! ## Slots

A slot has six bytes: a flag, one that is never used, and the two numbers. The flag is read as a `bool`, which has a
value only if the byte is 0 or 1 (`NoFlag`).
-/

namespace PageSlot

/-- The numbers of the slot have 16 bits. -/
def Fits (s : PageSlot) : Prop := s.itemOffset < 2 ^ 16 ∧ s.itemLength < 2 ^ 16

end PageSlot

theorem fits_getSlot : (getSlot n d).Fits := ⟨read16_lt, read16_lt⟩

/-- Slots do not overlap. -/
theorem slotPosition_apart (hm : 0 < m) (hn : 0 < n) (hne : m ≠ n) :
    slotPosition m + slotSize ≤ slotPosition n ∨ slotPosition n + slotSize ≤ slotPosition m := by
  simp only [slotPosition, slotSize]
  omega

theorem slotPosition_add (hn : 0 < n) : slotPosition n + slotSize = slotSize * n := by
  simp only [slotPosition, slotSize]
  omega

theorem full_putSlot (h : Full d) : Full (putSlot n s d) := by
  unfold putSlot
  exact full_write16 (full_write16 (full_setByte h))

section Put

variable (h : Full d) (hn : slotPosition n + slotSize ≤ dataSize)

include h hn

/-- Writing a slot changes nothing outside of it. -/
theorem byte_putSlot (hj : j < slotPosition n ∨ slotPosition n + slotSize ≤ j) :
    byte (putSlot n s d) j = byte d j := by
  unfold putSlot
  simp only [slotSize] at hn hj
  rw [byte_write16 (full_write16 (full_setByte h)) (by omega),
    byte_write16 (full_setByte h) (by omega), byte_setByte j h (by omega)]
  simp only [if_neg (show j ≠ slotPosition n by omega), if_neg (show j ≠ slotPosition n + 2 by omega),
    if_neg (show j ≠ slotPosition n + 2 + 1 by omega), if_neg (show j ≠ slotPosition n + 4 by omega),
    if_neg (show j ≠ slotPosition n + 4 + 1 by omega)]

/-- A slot that was written reads back. -/
theorem getSlot_putSlot_self (hs : s.Fits) : getSlot n (putSlot n s d) = s := by
  simp only [slotSize] at hn
  have hfull := full_setByte (i := slotPosition n) (b := if s.used then 1 else 0) h
  -- the flag is not touched by what is written after it
  have hused : byte (putSlot n s d) (slotPosition n) = if s.used then 1 else 0 := by
    unfold putSlot
    rw [byte_write16 (full_write16 hfull) (by omega), if_neg (by omega), if_neg (by omega),
      byte_write16 hfull (by omega), if_neg (by omega), if_neg (by omega),
      byte_setByte _ h (by omega)]
    exact if_pos rfl
  have hoffset : read16 (putSlot n s d) (slotPosition n + 2) = s.itemOffset := by
    rw [← read16_write16 (i := slotPosition n + 2) hfull (by omega) hs.1]
    unfold putSlot
    apply read16_congr
    · rw [byte_write16 (full_write16 hfull) (by omega), if_neg (by omega), if_neg (by omega)]
    · rw [byte_write16 (full_write16 hfull) (by omega), if_neg (by omega), if_neg (by omega)]
  have hlength : read16 (putSlot n s d) (slotPosition n + 4) = s.itemLength :=
    read16_write16 (full_write16 hfull) (by omega) hs.2
  unfold getSlot
  rw [hused, hoffset, hlength]
  cases s with
  | mk used itemOffset itemLength => cases used <;> rfl

end Put

/-- A slot is read from its own bytes. -/
theorem getSlot_congr (h : ∀ j, slotPosition n ≤ j → j < slotPosition n + slotSize →
    byte d' j = byte d j) : getSlot n d' = getSlot n d := by
  simp only [slotSize] at h
  unfold getSlot
  rw [h _ (by omega) (by omega), read16_congr (h _ (by omega) (by omega)) (h _ (by omega) (by omega)),
    read16_congr (h _ (by omega) (by omega)) (h _ (by omega) (by omega))]

theorem getSlot_putSlot_of_ne (h : Full d) (hn : 0 < n) (hle : slotSize * n ≤ dataSize) (hm : 0 < m)
    (hne : m ≠ n) : getSlot m (putSlot n s d) = getSlot m d := by
  apply getSlot_congr
  intro j hlow hhigh
  apply byte_putSlot h
  · rw [slotPosition_add hn]
    exact hle
  · rcases slotPosition_apart hm hn hne with h' | h' <;> omega

theorem getSlot_putSlot (h : Full d) (hn : 0 < n) (hle : slotSize * n ≤ dataSize) (hs : s.Fits)
    (hm : 0 < m) : getSlot m (putSlot n s d) = if m = n then s else getSlot m d := by
  split
  · next heq =>
      rw [heq]
      apply getSlot_putSlot_self h _ hs
      rw [slotPosition_add hn]
      exact hle
  · next hne => exact getSlot_putSlot_of_ne h hn hle hm hne

theorem not_noFlag_of_unused (h : (getSlot n d).used = false) : ¬ NoFlag d n := by
  have hzero : byte d (slotPosition n) = 0 := by simpa [getSlot] using h
  unfold NoFlag
  rw [hzero]
  decide

/-- A flag that is written is zero or one. -/
theorem noFlag_putSlot (h : Full d) (hn : 0 < n) (hle : slotSize * n ≤ dataSize) (hm : 0 < m)
    (hflag : ¬ NoFlag d m) : ¬ NoFlag (putSlot n s d) m := by
  have hpos := slotPosition_add hn
  simp only [slotSize] at hpos hle
  unfold NoFlag at hflag ⊢
  -- the slot that is written gets a flag of 0 or 1, and the others keep theirs
  by_cases heq : m = n
  · have hfull := full_setByte (i := slotPosition n) (b := if s.used then 1 else 0) h
    unfold putSlot
    rw [heq, byte_write16 (full_write16 hfull) (by omega), if_neg (by omega), if_neg (by omega),
      byte_write16 hfull (by omega), if_neg (by omega), if_neg (by omega),
      byte_setByte _ h (by omega), if_pos rfl]
    cases s.used <;> decide
  · rw [byte_putSlot h (by simp only [slotSize]; omega)]
    · exact hflag
    · have hapart := slotPosition_apart hm hn heq
      simp only [slotSize] at hapart ⊢
      omega

/-- Bytes behind the first `k` slots stay when one of these is written. -/
theorem byte_putSlot_of_le (h : Full d) (hn : 0 < n) {k : Nat} (hnk : n ≤ k)
    (hle : slotSize * k ≤ dataSize) (hj : slotSize * k ≤ j) :
    byte (putSlot n s d) j = byte d j := by
  have hpos := slotPosition_add hn
  simp only [slotSize] at hpos hle hj
  apply byte_putSlot h
  · simp only [slotSize]
    omega
  · right
    simp only [slotSize]
    omega

/-! ## Shifting the slots

The loop of `deleteRecord` passes over the slots and adds the length of the deleted record to the offset of each
record below it. Meanwhile it finds the lowest of these offsets and adds up their lengths. `skip` and `shift` are
the two kinds of rounds.
-/

/-- Slot `m` is in use and its record begins before `offset`. -/
def Before (d : D) (offset m : Nat) : Prop :=
  (getSlot m d).used = true ∧ (getSlot m d).itemOffset < offset

instance : DecidablePred (Before d n) := fun _ => inferInstanceAs (Decidable (_ ∧ _))

/-- What the first `i` rounds of the loop in `deleteRecord` have made of `d`, `move_offset` and
`move_bytes`, of `k` slots, where the record at `slot` is deleted. -/
structure Shifted (d : D) (slot : PageSlot) (k i : Nat) (r : D × Nat × Nat) : Prop where
  full : Full r.1
  records : ∀ j, slotSize * k ≤ j → byte r.1 j = byte d j
  slots : ∀ m, 0 < m → m ≤ k → getSlot m r.1 =
    if m ≤ i ∧ Before d slot.itemOffset m then
      { getSlot m d with itemOffset := (getSlot m d).itemOffset + slot.itemLength }
    else getSlot m d
  flags : ∀ m, 0 < m → ¬ NoFlag d m → ¬ NoFlag r.1 m
  moveOffset_le : r.2.1 ≤ slot.itemOffset
  moveOffset_le_before : ∀ m, 0 < m → m ≤ i → Before d slot.itemOffset m →
    r.2.1 ≤ (getSlot m d).itemOffset
  moveOffset_mem : r.2.1 = slot.itemOffset ∨
    ∃ m, 0 < m ∧ m ≤ i ∧ Before d slot.itemOffset m ∧ r.2.1 = (getSlot m d).itemOffset
  moveBytes : r.2.2 = ∑ m ∈ Finset.Icc 1 i with Before d slot.itemOffset m, (getSlot m d).itemLength

namespace Shifted

variable {k : Nat} {r : D × Nat × Nat} {slot : PageSlot}

theorem zero (h : Full d) : Shifted d slot k 0 (d, slot.itemOffset, 0) where
  full := h
  records _ _ := rfl
  slots m hm _ := by rw [if_neg (by omega)]
  flags _ _ hflag := hflag
  moveOffset_le := le_refl _
  moveOffset_le_before m hm hi _ := by omega
  moveOffset_mem := .inl rfl
  moveBytes := by simp

/-- The round for a slot that stays. -/
theorem skip (h : Shifted d slot k i r) (hskip : ¬ Before d slot.itemOffset (i + 1)) :
    Shifted d slot k (i + 1) r where
  full := h.full
  records := h.records
  slots m hm hk := by
    rw [h.slots m hm hk]
    -- the slot of this round is read as before, and the earlier ones as the invariant says
    by_cases heq : m = i + 1
    · subst heq
      rw [if_neg (by omega), if_neg fun hand => hskip hand.2]
    · congr 1
      simp only [eq_iff_iff, and_congr_left_iff]
      omega
  flags := h.flags
  moveOffset_le := h.moveOffset_le
  moveOffset_le_before m hm hi hbefore := by
    by_cases heq : m = i + 1
    · exact absurd (heq ▸ hbefore) hskip
    · exact h.moveOffset_le_before m hm (by omega) hbefore
  moveOffset_mem := h.moveOffset_mem.imp_right fun ⟨m, hm, hi, hbefore⟩ =>
    ⟨m, hm, by omega, hbefore⟩
  moveBytes := by
    rw [← Finset.insert_Icc_right_eq_Icc_add_one (by omega), Finset.filter_insert, if_neg hskip]
    exact h.moveBytes

/-- The round for a slot that is shifted. -/
theorem shift (h : Shifted d slot k i r) (hk : i + 1 ≤ k) (hle : slotSize * k ≤ dataSize)
    (hslot : slot.itemOffset + slot.itemLength ≤ dataSize)
    (hbefore : Before d slot.itemOffset (i + 1)) :
    Shifted d slot k (i + 1)
      (putSlot (i + 1)
          { getSlot (i + 1) d with
            itemOffset := (getSlot (i + 1) d).itemOffset + slot.itemLength } r.1,
        if (getSlot (i + 1) d).itemOffset < r.2.1 then (getSlot (i + 1) d).itemOffset else r.2.1,
        r.2.2 + (getSlot (i + 1) d).itemLength) where
  full := full_putSlot h.full
  records j hj := by
    rw [byte_putSlot_of_le h.full (by omega) hk hle hj]
    exact h.records j hj
  slots m hm hmk := by
    have hfits : PageSlot.Fits { getSlot (i + 1) d with
        itemOffset := (getSlot (i + 1) d).itemOffset + slot.itemLength } := by
      have hlt := hbefore.2
      simp only [dataSize, pageSize, pageHeaderSize] at hslot
      exact ⟨by dsimp only; omega, fits_getSlot.2⟩
    simp only [slotSize] at hle
    rw [getSlot_putSlot h.full (by omega) (by simp only [slotSize]; omega) hfits hm]
    -- the slot of this round is shifted now, and the others stay
    by_cases heq : m = i + 1
    · subst heq
      rw [if_pos rfl, if_pos ⟨le_refl _, hbefore⟩]
    · rw [if_neg heq, h.slots m hm hmk]
      congr 1
      simp only [eq_iff_iff, and_congr_left_iff]
      omega
  flags m hm hflag := by
    have hone : slotSize * (i + 1) ≤ dataSize := (Nat.mul_le_mul_left slotSize hk).trans hle
    exact noFlag_putSlot h.full (Nat.succ_pos i) hone hm (h.flags m hm hflag)
  moveOffset_le := by
    have hlt := hbefore.2
    have := h.moveOffset_le
    dsimp only
    split <;> omega
  moveOffset_le_before m hm hi hbefore' := by
    dsimp only
    by_cases heq : m = i + 1
    · subst heq
      split <;> omega
    · have := h.moveOffset_le_before m hm (by omega) hbefore'
      split <;> omega
  moveOffset_mem := by
    dsimp only
    -- the offset of this slot is the lowest one so far, or the lowest one stays
    split
    · exact .inr ⟨i + 1, by omega, le_refl _, hbefore, rfl⟩
    · exact h.moveOffset_mem.imp_right fun ⟨m, hm, hi, hbefore'⟩ => ⟨m, hm, by omega, hbefore'⟩
  moveBytes := by
    rw [← Finset.insert_Icc_right_eq_Icc_add_one (by omega), Finset.filter_insert, if_pos hbefore,
      Finset.sum_insert (by simp), ← h.moveBytes]
    exact Nat.add_comm _ _

end Shifted

/-- The loop, of which the deleted record's own slot is not affected. -/
theorem shifted_foldl {k : Nat} (h : Full d) (hn : 0 < n) (hnk : n ≤ k) (hle : slotSize * k ≤ dataSize)
    (hslot : (getSlot n d).itemOffset + (getSlot n d).itemLength ≤ dataSize) :
    ∀ i ≤ k, Shifted d (getSlot n d) k i
      ((List.range' 1 i).foldl (shiftSlot n) (d, (getSlot n d).itemOffset, 0)) := by
  intro i
  -- over the rounds
  induction i with
  | zero => exact fun _ => .zero h
  | succ i ih =>
      intro hi
      have ih := ih (by omega)
      rw [List.range'_1_concat, List.foldl_append]
      generalize (List.range' 1 i).foldl (shiftSlot n) (d, (getSlot n d).itemOffset, 0) = r at ih
      have hself : getSlot n r.1 = getSlot n d := by
        rw [ih.slots n hn hnk]
        exact if_neg fun hand => absurd hand.2.2 (lt_irrefl _)
      have hother : getSlot (i + 1) r.1 = getSlot (i + 1) d := by
        rw [ih.slots (i + 1) (by omega) hi]
        exact if_neg (by omega)
      simp only [List.foldl_cons, List.foldl_nil, shiftSlot, Nat.add_comm 1 i, hself, hother]
      split
      · next hbefore => exact ih.shift hi hle hslot hbefore
      · next hskip => exact ih.skip hskip

/-! ## The end of the slot array

`deleteRecord` counts the unused slots at the end of the slot array, from the last one down.
-/

theorem trailingUnused_le : trailingUnused d n ≤ n := by
  induction n with
  | zero => exact le_refl 0
  | succ n ih =>
      unfold trailingUnused
      split <;> omega

/-- The trailing slots are not in use. -/
theorem used_eq_false_of_trailing (hlow : n - trailingUnused d n < m) (hhigh : m ≤ n) :
    (getSlot m d).used = false := by
  induction n with
  | zero => omega
  | succ n ih =>
      unfold trailingUnused at hlow
      split at hlow
      · omega
      · next hunused =>
          by_cases heq : m = n + 1
          · rw [heq]
            exact Bool.eq_false_of_not_eq_true hunused
          · exact ih (by omega) (by omega)

end CS640.Badger
