import CS640.Badger.Page
import Mathlib.Data.List.Range
import Mathlib.Data.List.GetD
import Mathlib.Algebra.Group.Nat.Defs

/-!
# Data areas

The bytes of the data area of a page, where the slot array and the records are, and what the two
versions do with them. p3 copies byte by byte, and reads the slot it copies for anew in every round;
p2 calls `std::string::replace`.
-/

namespace CS640.Badger

/-- `PageSlot`. -/
structure PageSlot where
  used : Bool
  itemOffset : Nat
  itemLength : Nat
  deriving DecidableEq, Repr

/-- `sizeof(PageSlot)`: a flag, a byte of padding and two 16-bit numbers. -/
abbrev slotSize : Nat := 6

/-- The operations on data areas. `copy d read count pos src` writes the bytes `src 0`, `src 1`, and so
on, as many as `count` and from where `pos` says of the slot `read`; `Full` areas have `DATA_SIZE`
bytes. -/
class DataArea (D : Type) extends PageData D where
  byte : D → Nat → UInt8
  setByte : D → Nat → UInt8 → D
  copy : D → (D → PageSlot) → (PageSlot → Nat) → (PageSlot → Nat) → (Nat → UInt8) → D
  Full : D → Prop
  full_zeros : Full zeros
  full_setByte : ∀ {d i b}, Full d → Full (setByte d i b)
  byte_setByte : ∀ {d i b} j, Full d → i < dataSize →
    byte (setByte d i b) j = if j = i then b else byte d j
  full_copy : ∀ {d read count pos src}, Full d →
    pos (read d) + count (read d) ≤ dataSize → Full (copy d read count pos src)
  /-- What is copied is there afterwards, if the slot is not part of what is written to. -/
  byte_copy : ∀ {d read count pos src} j, Full d → pos (read d) + count (read d) ≤ dataSize →
    (∀ d', (∀ j, j < pos (read d) ∨ pos (read d) + count (read d) ≤ j → byte d' j = byte d j) →
      read d' = read d) →
    byte (copy d read count pos src) j =
      if pos (read d) ≤ j ∧ j < pos (read d) + count (read d) then src (j - pos (read d))
      else byte d j
  /-- Copying what is there already changes nothing. -/
  byte_copy_self : ∀ {d read count pos src} j, Full d →
    pos (read d) + count (read d) ≤ dataSize →
    (∀ i < count (read d), src i = byte d (pos (read d) + i)) →
    byte (copy d read count pos src) j = byte d j

/-! ## p3

The data of a page is an array of `char`, and the loops of `page.cpp` copy into it. In each round the slot is read
anew to see how far the loop goes and where it writes. That it copies what was meant rests on the slot not being
part of what is written to, which is `hstable`.
-/

namespace CharArea

variable (read : CharArea → PageSlot) (count pos : PageSlot → Nat) (src : Nat → UInt8)

/-- `for (i = 0; i < count; i++) data_[i + pos] = src[i]`, from `i` on. The counter has 16 bits, or what
it counts to has. -/
def copyFrom : (fuel i : Nat) → CharArea → CharArea
  | 0, _, d => d
  | fuel + 1, i, d =>
    if i < count (read d) then
      copyFrom fuel (i + 1) (Function.update d (pos (read d) + i) (src i))
    else d

variable {read count pos src}

theorem copyFrom_apply {d : CharArea} {s : PageSlot} (hstable : ∀ d' : CharArea,
    (∀ j, j < pos s ∨ pos s + count s ≤ j → d' j = d j) → read d' = s) (fuel : Nat) :
    ∀ (i : Nat) (d' : CharArea), count s - i ≤ fuel → i ≤ count s →
      (∀ j, d' j = if pos s ≤ j ∧ j < pos s + i then src (j - pos s) else d j) →
      ∀ j, copyFrom read count pos src fuel i d' j =
        if pos s ≤ j ∧ j < pos s + count s then src (j - pos s) else d j := by
  have hread : ∀ (i : Nat) (d' : CharArea), i ≤ count s →
      (∀ j, d' j = if pos s ≤ j ∧ j < pos s + i then src (j - pos s) else d j) → read d' = s := by
    intro i d' hi hd'
    apply hstable
    intro j hj
    rw [hd', if_neg]
    omega
  -- on the rounds that are left; so far `i` bytes were copied, and the slot reads as before
  induction fuel with
  | zero =>
      intro i d' hfuel hi hd' j
      have hi : i = count s := by omega
      rw [copyFrom, hd', hi]
  | succ fuel ih =>
      intro i d' hfuel hi hd' j
      rw [copyFrom, hread i d' hi hd']
      split
      · next hlt =>
          apply ih (i + 1) _ (by omega) hlt
          intro j
          by_cases hj : j = pos s + i
          · rw [hj, Function.update_self, if_pos (by omega)]
            congr 1
            omega
          · rw [Function.update_of_ne hj, hd']
            by_cases hin : pos s ≤ j ∧ j < pos s + i
            · rw [if_pos hin, if_pos (by omega)]
            · rw [if_neg hin, if_neg (by omega)]
      · next hge =>
          have hi : i = count s := by omega
          rw [hd', hi]

theorem copyFrom_self {d : CharArea}
    (hsrc : ∀ i < count (read d), src i = d (pos (read d) + i)) (fuel : Nat) :
    ∀ i, copyFrom read count pos src fuel i d = d := by
  -- on the rounds that are left; what is written is there already
  induction fuel with
  | zero => exact fun _ => rfl
  | succ fuel ih =>
      intro i
      rw [copyFrom]
      split
      · next hlt =>
          rw [hsrc i hlt, Function.update_eq_self]
          exact ih (i + 1)
      · rfl

end CharArea

instance : DataArea CharArea where
  byte d i := d i
  setByte d i b := Function.update d i b
  copy d read count pos src := CharArea.copyFrom read count pos src (2 ^ 16) 0 d
  Full _ := True
  full_zeros := trivial
  full_setByte _ := trivial
  byte_setByte j _ _ := Function.update_apply _ _ _ j
  full_copy _ _ := trivial
  byte_copy {d read count pos src} j _ hle hstable := by
    apply CharArea.copyFrom_apply hstable (2 ^ 16) 0 d
    · simp only [dataSize, pageSize, pageHeaderSize] at hle
      omega
    · exact Nat.zero_le _
    · intro j
      rw [if_neg (by omega)]
  byte_copy_self {d read count pos src} j _ _ hsrc := by
    rw [CharArea.copyFrom_self hsrc]

/-! ## p2

The data is a `std::string`, and the copying is one call of `replace` for as many characters as there were, so
its length stays what it is.
-/

namespace StringArea

/-- `data_.replace(pos, count, str)` with `count` bytes from `src` as `str`. -/
def replace (d : StringArea) (pos count : Nat) (src : Nat → UInt8) : StringArea :=
  d.take pos ++ ((List.range count).map src ++ d.drop (pos + count))

variable {d : StringArea} {pos count : Nat} {src : Nat → UInt8}

theorem length_replace (h : pos + count ≤ d.length) : (d.replace pos count src).length = d.length := by
  simp only [replace, List.length_append, List.length_take, List.length_map, List.length_range,
    List.length_drop]
  omega

theorem getD_replace (h : pos + count ≤ d.length) (j : Nat) :
    (d.replace pos count src).getD j 0 =
      if pos ≤ j ∧ j < pos + count then src (j - pos) else d.getD j 0 := by
  have hlen : (d.take pos).length = pos := by
    rw [List.length_take]
    omega
  simp only [List.getD_eq_getElem?_getD, replace]
  by_cases hlow : j < pos
  · rw [if_neg (by omega), List.getElem?_append_left (by omega), List.getElem?_take_of_lt hlow]
  · rw [List.getElem?_append_right (by omega), hlen]
    by_cases hmid : j < pos + count
    · rw [if_pos (by omega), List.getElem?_append_left (by simp; omega), List.getElem?_map,
        List.getElem?_range (by omega)]
      rfl
    · rw [if_neg (by omega), List.getElem?_append_right (by simp; omega), List.getElem?_drop]
      congr 2
      simp
      omega

theorem getD_set {i : Nat} (h : i < d.length) (b : UInt8) (j : Nat) :
    (d.set i b).getD j 0 = if j = i then b else d.getD j 0 := by
  simp only [List.getD_eq_getElem?_getD, List.getElem?_set]
  by_cases hj : i = j
  · subst hj
    simp [h]
  · rw [if_neg hj, if_neg (Ne.symm hj)]

end StringArea

instance : DataArea StringArea where
  byte d i := d.getD i 0
  setByte d i b := d.set i b
  copy d read count pos src := d.replace (pos (read d)) (count (read d)) src
  Full d := d.length = dataSize
  full_zeros := List.length_replicate
  full_setByte h := (List.length_set).trans h
  byte_setByte {d i b} j h hi := StringArea.getD_set (h ▸ hi) b j
  full_copy {d read count pos src} h hle := (StringArea.length_replace (h ▸ hle)).trans h
  byte_copy {d read count pos src} j h hle _ := StringArea.getD_replace (h ▸ hle) j
  byte_copy_self {d read count pos src} j h hle hsrc := by
    rw [StringArea.getD_replace (h ▸ hle)]
    split
    · next hj =>
        rw [hsrc _ (by omega)]
        congr 1
        omega
    · rfl

end CS640.Badger
