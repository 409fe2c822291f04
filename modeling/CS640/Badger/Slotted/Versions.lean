import CS640.Badger.Slotted.Tiled

/-!
# The two versions of the slotted page

`Page` has what the two versions of `page.cpp` share, with what they do differently as `DataArea.copy`,
which knows no bounds. Here every access has its bounds. In p2 `substr` and `replace` throw
`std::out_of_range`, which nobody catches, if the position is behind the end, and cut the count at the
end, so a string can grow or shrink. In p3 the loops write byte after byte, read the slot they write for anew
in every round, and run into undefined behaviour where an index is out of range.

On a page in order none of this happens, and the calls are those of `Page`: `insertRecord_eq`,
`deleteRecordAllow_eq`, `updateRecord_eq` and `getRecord_eq`.

The model of the calls is written once, over a class that has the four edits of the data area as fields, with what
is asked of them. Both versions give an instance. The edits are compared with `DataArea.copy` under `Behind`, which
says that all bytes in question are in the data area and that none of them belongs to the slot.
-/

namespace CS640.Badger

open CS640.Lib Prog DataArea

/-- From `pos` on, `count` bytes are in the data area, behind the slot that says where. -/
structure Behind {D : Type} [DataArea D] (slotNumber : Nat) (count pos : PageSlot → Nat) (p : Page D) :
    Prop where
  full : DataArea.Full p.data
  slot : 0 < slotNumber
  below : slotSize * slotNumber ≤ pos (p.slot slotNumber)
  le : pos (p.slot slotNumber) + count (p.slot slotNumber) ≤ dataSize

/-- How a version edits the data area, and that it does what `DataArea.copy` does where all is in bounds. -/
class PageVersion (D : Type) extends DataArea D where
  /-- `substr(pos, n)` of the data area. -/
  substr : (pos n : Nat) → Prog Exn (Page D) (List UInt8)
  /-- The part of `deleteRecord` that overwrites the record. -/
  zeroRecord : (slotNumber : Nat) → Prog Exn (Page D) Unit
  /-- The part of `deleteRecord` that shifts `data_to_move` to the right. -/
  moveData : (slotNumber moveOffset moveBytes : Nat) → (dataToMove : List UInt8) → Prog Exn (Page D) Unit
  /-- The end of `insertRecordInSlot`. -/
  writeRecord : (slotNumber : Nat) → (recordData : List UInt8) → Prog Exn (Page D) Unit
  substr_eq : ∀ {pos n} {p : Page D}, DataArea.Full p.data → pos + n ≤ dataSize →
    substr pos n p = (.ok ((List.range n).map fun i => byte p.data (pos + i)), p)
  zeroRecord_eq : ∀ {n} {p : Page D}, Behind n PageSlot.itemLength PageSlot.itemOffset p →
    zeroRecord n p = (.ok (), { p with
      data := copy p.data (getSlot n) PageSlot.itemLength PageSlot.itemOffset fun _ => 0 })
  moveData_eq : ∀ {n moveOffset moveBytes} {src : Nat → UInt8} {p : Page D},
    Behind n (fun _ => moveBytes) (fun slot => moveOffset + slot.itemLength) p →
    moveData n moveOffset moveBytes ((List.range moveBytes).map src) p = (.ok (), { p with
      data := copy p.data (getSlot n) (fun _ => moveBytes) (fun slot => moveOffset + slot.itemLength) src })
  writeRecord_eq : ∀ {n} {recordData : List UInt8} {p : Page D},
    Behind n PageSlot.itemLength PageSlot.itemOffset p → (p.slot n).itemLength = recordData.length →
    writeRecord n recordData p = (.ok (), { p with
      data := copy p.data (getSlot n) PageSlot.itemLength PageSlot.itemOffset fun i => recordData.getD i 0 })

/-! ## p2

The data area is a `std::string`, so an edit is one `replace`. It has the same number of bytes to take out and to
put in on a page in order, and the string keeps its length.
-/

namespace StringArea

/-- `data_.substr(pos, n)`. -/
def substr (pos n : Nat) : Prog Exn (Page StringArea) (List UInt8) := do
  let p ← get
  if pos > p.data.length then exit .abort else pure ((p.data.drop pos).take n)

/-- `data_.replace(pos, n, str)`. -/
def splice (pos n : Nat) (str : List UInt8) : Prog Exn (Page StringArea) Unit := do
  let p ← get
  if pos > p.data.length then exit .abort
  else modify fun p => { p with data := p.data.take pos ++ (str ++ p.data.drop (pos + n)) }

theorem substr_eq {pos n : Nat} {p : Page StringArea} (hfull : DataArea.Full p.data)
    (hle : pos + n ≤ dataSize) :
    substr pos n p = (.ok ((List.range n).map fun i => byte p.data (pos + i)), p) := by
  have hlen : p.data.length = dataSize := hfull
  -- the two lists have the same length, and the same byte at each place
  have hbytes : (p.data.drop pos).take n = (List.range n).map fun i => byte p.data (pos + i) := by
    apply List.ext_getElem
    · simp only [List.length_take, List.length_drop, List.length_map, List.length_range]
      omega
    · intro i hi _
      rw [List.length_take, List.length_drop] at hi
      simp [byte, List.getD_eq_getElem?_getD, List.getElem?_eq_getElem (show pos + i < p.data.length by omega)]
  rw [substr, bind_of_ok (get_apply p), if_neg (by omega), hbytes]
  rfl

/-- With as many bytes as it takes out, `replace` is `DataArea.copy`. -/
theorem splice_eq {n : Nat} {count pos : PageSlot → Nat} {src : Nat → UInt8} {p : Page StringArea}
    (h : Behind n count pos p) :
    splice (pos (p.slot n)) (count (p.slot n)) ((List.range (count (p.slot n))).map src) p =
      (.ok (), { p with data := copy p.data (getSlot n) count pos src }) := by
  have hlen : p.data.length = dataSize := h.full
  have hle := h.le
  rw [splice, bind_of_ok (get_apply p), if_neg (by omega)]
  rfl

end StringArea

instance : PageVersion StringArea where
  substr := StringArea.substr
  zeroRecord slotNumber := do
    let p ← get
    let slot := p.slot slotNumber
    StringArea.splice slot.itemOffset slot.itemLength (List.replicate slot.itemLength 0)
  moveData slotNumber moveOffset moveBytes dataToMove := do
    let p ← get
    let slot := p.slot slotNumber
    StringArea.splice (moveOffset + slot.itemLength) moveBytes dataToMove
  writeRecord slotNumber recordData := do
    let p ← get
    let slot := p.slot slotNumber
    StringArea.splice slot.itemOffset slot.itemLength recordData
  substr_eq := StringArea.substr_eq
  zeroRecord_eq {n p} h := by
    have hzeros : List.replicate (p.slot n).itemLength (0 : UInt8) =
        (List.range (p.slot n).itemLength).map fun _ => 0 := by simp
    rw [bind_of_ok (get_apply p), hzeros]
    exact StringArea.splice_eq h
  moveData_eq {n moveOffset moveBytes src p} h := by
    rw [bind_of_ok (get_apply p)]
    exact StringArea.splice_eq h
  writeRecord_eq {n recordData p} h hlen := by
    -- the bytes of the record, by their positions
    have hrecord : recordData = (List.range (p.slot n).itemLength).map fun i => recordData.getD i 0 := by
      apply List.ext_getElem
      · simp [hlen]
      · intro i hi _
        simp [List.getD_eq_getElem?_getD, List.getElem?_eq_getElem hi]
    rw [bind_of_ok (get_apply p)]
    conv_lhs => rw [hrecord]
    exact StringArea.splice_eq h

/-! ## p3

The data area is an array of `char`, and an edit is a loop. Since its bounds are read from the slot in each round,
the induction needs that the slot stays as it was.
-/

namespace CharArea

/-- `std::string(data_, DATA_SIZE).substr(pos, n)`. -/
def substr (pos n : Nat) : Prog Exn (Page CharArea) (List UInt8) := do
  let p ← get
  if pos > dataSize then exit .abort
  else pure ((((List.range dataSize).map p.data).drop pos).take n)

/-- `data_[i] = b`. -/
def store (i : Nat) (b : UInt8) : Prog Exn (Page CharArea) Unit :=
  if i < dataSize then modify fun p => { p with data := Function.update p.data i b }
  else exit .undefined

/-- `for (i = 0; i < count; i++) data_[i + pos] = src[i]`, from `i` on. The counter has 16 bits, or what it
counts to has: a loop of more rounds never ends. -/
def copyLoop (slotNumber : Nat) (count pos : PageSlot → Nat) (src : Nat → Option UInt8) :
    (fuel i : Nat) → Prog Exn (Page CharArea) Unit
  | 0, _ => exit .diverge
  | fuel + 1, i => do
    let p ← get
    let slot := p.slot slotNumber
    if i < count slot then
      match src i with
      | none => exit .undefined
      | some b => do
        store (i + pos slot) b
        copyLoop slotNumber count pos src fuel (i + 1)
    else pure ()

/-- `str[i]`, which is the terminating NUL at the end of the string. -/
def charAt (str : List UInt8) (i : Nat) : Option UInt8 := if i ≤ str.length then some (str.getD i 0) else none

theorem substr_eq {pos n : Nat} {p : Page CharArea} (hle : pos + n ≤ dataSize) :
    substr pos n p = (.ok ((List.range n).map fun i => byte p.data (pos + i)), p) := by
  have hbytes : (((List.range dataSize).map p.data).drop pos).take n =
      (List.range n).map fun i => byte p.data (pos + i) := by
    apply List.ext_getElem
    · simp only [List.length_take, List.length_drop, List.length_map, List.length_range]
      omega
    · intro i hi _
      simp [byte]
  rw [substr, bind_of_ok (get_apply p), if_neg (by omega), hbytes]
  rfl

/-- The loop does not touch the slot it reads, so it is `DataArea.copy`. -/
theorem copyLoop_eq {n : Nat} {count pos : PageSlot → Nat} {src : Nat → Option UInt8} {str : Nat → UInt8}
    {s : PageSlot} (hn : 0 < n) (hbelow : slotSize * n ≤ pos s) (hle : pos s + count s ≤ dataSize)
    (hsrc : ∀ i < count s, src i = some (str i)) (fuel : Nat) :
    ∀ (i : Nat) (p : Page CharArea), p.slot n = s → count s - i ≤ fuel →
      copyLoop n count pos src (fuel + 1) i p =
        (.ok (), { p with data := copyFrom (getSlot n) count pos str fuel i p.data }) := by
  -- over the rounds that are left; the slot is `s` in each of them
  induction fuel with
  | zero =>
      intro i p hslot hfuel
      rw [copyLoop, bind_of_ok (get_apply p), hslot, if_neg (by omega)]
      rfl
  | succ fuel ih =>
      intro i p hslot hfuel
      have hread : getSlot n p.data = s := hslot
      rw [copyLoop, bind_of_ok (get_apply p), hslot, copyFrom, hread]
      by_cases hi : i < count s
      · -- what is written lies behind the slot, so the next round reads the same slot
        have hkept : Page.slot { p with data := Function.update p.data (i + pos s) (str i) } n = s := by
          refine Eq.trans (getSlot_congr fun j _ hj => ?_) hslot
          rw [slotPosition_add hn] at hj
          exact Function.update_of_ne (by omega) _ _
        have hstore : store (i + pos s) (str i) p =
            (.ok (), { p with data := Function.update p.data (i + pos s) (str i) }) := by
          rw [store, if_pos (by omega)]
          rfl
        rw [if_pos hi, hsrc i hi, if_pos hi]
        dsimp only
        rw [bind_of_ok hstore, ih (i + 1) _ hkept (by omega), Nat.add_comm i (pos s)]
      · rw [if_neg hi, if_neg hi]
        rfl

theorem copyLoop_eq_copy {n : Nat} {count pos : PageSlot → Nat} {src : Nat → Option UInt8}
    {str : Nat → UInt8} {p : Page CharArea} (h : Behind n count pos p)
    (hsrc : ∀ i < count (p.slot n), src i = some (str i)) :
    copyLoop n count pos src (2 ^ 16 + 1) 0 p =
      (.ok (), { p with data := copy p.data (getSlot n) count pos str }) := by
  have hle := h.le
  simp only [dataSize, pageSize, pageHeaderSize] at hle
  exact copyLoop_eq h.slot h.below h.le hsrc (2 ^ 16) 0 p rfl (by omega)

end CharArea

instance : PageVersion CharArea where
  substr := CharArea.substr
  zeroRecord slotNumber :=
    CharArea.copyLoop slotNumber PageSlot.itemLength PageSlot.itemOffset (fun _ => some 0) (2 ^ 16 + 1) 0
  moveData slotNumber moveOffset moveBytes dataToMove :=
    CharArea.copyLoop slotNumber (fun _ => moveBytes) (fun slot => moveOffset + slot.itemLength)
      (CharArea.charAt dataToMove) (2 ^ 16 + 1) 0
  writeRecord slotNumber recordData :=
    CharArea.copyLoop slotNumber PageSlot.itemLength PageSlot.itemOffset (CharArea.charAt recordData)
      (2 ^ 16 + 1) 0
  substr_eq _ := CharArea.substr_eq
  zeroRecord_eq h := CharArea.copyLoop_eq_copy h fun _ _ => rfl
  moveData_eq {n moveOffset moveBytes src p} h := by
    refine CharArea.copyLoop_eq_copy h fun i hi => ?_
    have hi : i < moveBytes := hi
    simp [CharArea.charAt, List.getD_eq_getElem?_getD, hi, Nat.le_of_lt hi]
  writeRecord_eq {n recordData p} h hlen := by
    refine CharArea.copyLoop_eq_copy h fun i hi => ?_
    rw [CharArea.charAt, if_pos (by omega)]

/-! ## The calls

The functions of `page.cpp`, over what the versions do differently. What they share is taken from `Page`.
-/

namespace Versions

open PageVersion

variable {D : Type} [PageVersion D]

/-- `Page::getRecord`. -/
def getRecord (recordId : RecordId) : Prog Exn (Page D) (List UInt8) := do
  Page.validateRecordId recordId
  let p ← get
  let slot := p.slot recordId.slotNumber
  substr slot.itemOffset slot.itemLength

/-- The part of `deleteRecord` that closes the hole. -/
def closeHole (slotNumber : Nat) : Prog Exn (Page D) Unit := do
  let p ← get
  let (shifted, moveOffset, moveBytes) := (List.range' 1 p.header.numSlots).foldl
    (Page.shiftSlot slotNumber) (p.data, (p.slot slotNumber).itemOffset, 0)
  modify fun p => { p with data := shifted }
  if moveBytes > 0 then do
    let dataToMove ← substr moveOffset moveBytes
    moveData slotNumber moveOffset moveBytes dataToMove
  else pure ()

/-- `Page::deleteRecord(record_id, allow_slot_compaction)`. -/
def deleteRecordAllow (recordId : RecordId) (allowSlotCompaction : Bool) : Prog Exn (Page D) Unit := do
  Page.validateRecordId recordId
  zeroRecord recordId.slotNumber
  closeHole recordId.slotNumber
  modify (Page.releaseSlot recordId.slotNumber allowSlotCompaction)

/-- `Page::deleteRecord`. -/
def deleteRecord (recordId : RecordId) : Prog Exn (Page D) Unit := deleteRecordAllow recordId true

/-- The part of `insertRecordInSlot` that writes the slot and the header. -/
def takeSlot (slotNumber : Nat) (recordData : List UInt8) (p : Page D) : Page D :=
  let itemOffset := p.header.freeSpaceUpperBound - recordData.length
  { header :=
      { p.header with
        freeSpaceUpperBound := itemOffset
        numFreeSlots := (p.header.numFreeSlots + 2 ^ 16 - 1) % 2 ^ 16 }
    data := putSlot slotNumber ⟨true, itemOffset, recordData.length⟩ p.data }

/-- `Page::insertRecordInSlot`. -/
def insertRecordInSlot (slotNumber : Nat) (recordData : List UInt8) : Prog Exn (Page D) Unit := do
  let p ← get
  if slotNumber > p.header.numSlots ∨ slotNumber = invalidSlot then
    throw (.invalidSlot p.pageNumber slotNumber)
  else if (p.slot slotNumber).used = true then throw (.slotInUse p.pageNumber slotNumber)
  else do
    modify (takeSlot slotNumber recordData)
    writeRecord slotNumber recordData

/-- `Page::insertRecord`. -/
def insertRecord (recordData : List UInt8) : Prog Exn (Page D) RecordId := do
  let p ← get
  if Page.hasSpaceForRecord recordData p = false then
    throw (.insufficientSpace p.pageNumber recordData.length p.getFreeSpace)
  else do
    let slotNumber ← Page.getAvailableSlot
    insertRecordInSlot slotNumber recordData
    pure ⟨p.pageNumber, slotNumber⟩

/-- `Page::updateRecord`. -/
def updateRecord (recordId : RecordId) (recordData : List UInt8) : Prog Exn (Page D) Unit := do
  Page.validateRecordId recordId
  let p ← get
  let freeSpaceAfterDelete := p.getFreeSpace + (p.slot recordId.slotNumber).itemLength
  if recordData.length > freeSpaceAfterDelete then
    throw (.insufficientSpace p.pageNumber recordData.length freeSpaceAfterDelete)
  else do
    deleteRecordAllow recordId false
    insertRecordInSlot recordId.slotNumber recordData

/-! ## On a page in order

Each call is followed up to the edit, where the state is one to which the law of the version applies. The hypotheses
are those of `Page`: the slot that is named holds a record, and it can be removed without moving the wrong bytes.
-/

open Page

variable {p q : Page D} {k n : Nat} {id : RecordId} {data : List UInt8}

theorem getRecord_eq (h : p.Layout) (hid : id.pageNumber = p.pageNumber) (hn : p.Holds id.slotNumber) :
    getRecord id p = Page.getRecord id p := by
  have hwithin : (p.slot id.slotNumber).itemOffset + (p.slot id.slotNumber).itemLength ≤ dataSize :=
    h.within hn
  rw [Page.getRecord_of_holds h.readable hid hn, getRecord,
    bind_of_ok (validateRecordId_of_holds h.readable hid hn), bind_of_ok (get_apply p)]
  exact substr_eq h.full hwithin

/-- The record to be removed lies behind its slot. -/
theorem behind_record (h : p.Layout) (hk : p.Holds k) (hlen : 0 < p.lengthOf k) :
    Behind k PageSlot.itemLength PageSlot.itemOffset p where
  full := h.full
  slot := hk.1
  below := ((Nat.mul_le_mul_left _ hk.2.1).trans h.slots_le).trans (h.upper_le_offset hk hlen)
  le := h.within hk

/-- The hole is closed as in `removeData`. -/
theorem closeHole_eq (h : p.Layout) (hk : p.Holds k) (ha : p.Aligned k) (hlen : 0 < p.lengthOf k) :
    closeHole k { p with
        data := copy p.data (getSlot k) PageSlot.itemLength PageSlot.itemOffset fun _ => 0 } =
      (.ok (), removeData k p) := by
  -- the slots are read as before, since only the record was overwritten
  have hz : ∀ m, 0 < m → m ≤ p.header.numSlots → _ := fun m => getSlot_zeroed h hk (n := m)
  have hzfull : DataArea.Full (copy p.data (getSlot k) PageSlot.itemLength PageSlot.itemOffset fun _ => 0) :=
    full_copy h.full (h.within hk)
  unfold removeData
  generalize copy p.data (getSlot k) PageSlot.itemLength PageSlot.itemOffset (fun _ => 0) = z at *
  have hself : getSlot k z = p.slot k := hz k hk.1 hk.2.1
  have hr := shifted_foldl hzfull hk.1 hk.2.1 h.slots_le_dataSize
    (by rw [hself]; exact h.within hk) _ (le_refl _)
  rw [closeHole, bind_of_ok (get_apply _)]
  dsimp only [Page.slot]
  generalize (List.range' 1 p.header.numSlots).foldl (shiftSlot k) (z, (getSlot k z).itemOffset, 0) = r
    at *
  obtain ⟨shifted, moveOffset, moveBytes⟩ := r
  rw [hself] at hr
  rw [bind_of_ok (modify_apply _ _)]
  dsimp only
  -- there are bytes to be moved, or the record was the one next to the free space
  by_cases hmove : moveBytes > 0
  · have hle := moved_le h hk hz hr ha hmove
    obtain ⟨-, hoff⟩ := moved_eq h hk hz hr ha hlen
    have hbehind : Behind k (fun _ => moveBytes) (fun slot => moveOffset + slot.itemLength)
        { p with data := shifted } :=
      { full := hr.full
        slot := hk.1
        below := by
          have hslots := h.slots_le
          have hle := hk.2.1
          have hoff : moveOffset = _ := hoff hmove
          simp only [slotSize] at hslots ⊢
          omega
        le := hle }
    rw [if_pos hmove, if_pos hmove, bind_of_ok (substr_eq hr.full (moveOffset_add_le h hk hz hr))]
    exact moveData_eq hbehind
  · rw [if_neg hmove, if_neg hmove]
    rfl

theorem deleteRecordAllow_eq {b : Bool} (h : p.Layout) (hid : id.pageNumber = p.pageNumber)
    (hn : p.Holds id.slotNumber) (ha : p.Aligned id.slotNumber) (hlen : 0 < p.lengthOf id.slotNumber) :
    deleteRecordAllow id b p = Page.deleteRecordAllow id b p := by
  rw [Page.deleteRecordAllow_of_holds h hid hn, deleteRecordAllow,
    bind_of_ok (validateRecordId_of_holds h.readable hid hn),
    bind_of_ok (zeroRecord_eq (behind_record h hn hlen)), bind_of_ok (closeHole_eq h hn ha hlen)]
  rfl

theorem insertRecordInSlot_eq (hk : 0 < k) (hle : k ≤ p.header.numSlots)
    (hroom : (p.slot k).used = false → p.Layout ∧ data.length ≤ p.getFreeSpace) :
    insertRecordInSlot k data p = Page.insertRecordInSlot k data p := by
  rw [insertRecordInSlot, Page.insertRecordInSlot, bind_of_ok (get_apply p), bind_of_ok (get_apply p)]
  by_cases hvalid : k > p.header.numSlots ∨ k = invalidSlot
  · rw [if_pos hvalid, if_pos hvalid]
  · rw [if_neg hvalid, if_neg hvalid]
    by_cases hused : (p.slot k).used = true
    · rw [if_pos hused, if_pos hused]
    · -- the slot is free: it is written with its new place, and the record goes there
      obtain ⟨h, hspace⟩ := hroom (Bool.eq_false_of_not_eq_true hused)
      have hself := getSlot_fill h hspace hk hle hk
      rw [if_pos rfl] at hself
      have hslot : (takeSlot k data p).slot k =
          ⟨true, p.header.freeSpaceUpperBound - data.length, data.length⟩ := hself
      have hroom := space_fill h hspace
      have hupper := h.upper_le
      have hbehind : Behind k PageSlot.itemLength PageSlot.itemOffset (takeSlot k data p) :=
        { full := full_putSlot h.full
          slot := hk
          below := by
            rw [hslot]
            simp only [slotSize] at hroom ⊢
            omega
          le := by
            rw [hslot]
            dsimp only
            omega }
      rw [if_neg hused, if_neg hused, bind_of_ok (modify_apply _ p)]
      rw [writeRecord_eq hbehind (by rw [hslot])]
      rfl

theorem insertRecord_eq (h : p.Layout) : insertRecord data p = Page.insertRecord data p := by
  rw [insertRecord, Page.insertRecord, bind_of_ok (get_apply p), bind_of_ok (get_apply p)]
  by_cases hspace : hasSpaceForRecord data p = false
  · rw [if_pos hspace, if_pos hspace]
  · rw [if_neg hspace, if_neg hspace]
    have hwp : wp getAvailableSlot _ _ p := wp_getAvailableSlot h (Bool.eq_true_of_not_eq_false hspace)
    -- the number of the slot comes from the list of free slots, or is a new one
    rcases hslot : getAvailableSlot p with ⟨_ | n, q⟩
    · rw [bind_of_error hslot, bind_of_error hslot]
    · rw [wp_of_ok hslot] at hwp
      obtain ⟨hn, hle, -, hfree⟩ := hwp
      have hroom : (q.slot n).used = false → q.Layout ∧ data.length ≤ q.getFreeSpace := by
        intro hunused
        obtain ⟨-, hsame, hspace⟩ := hfree hunused
        exact ⟨hsame.layout, hspace⟩
      rw [bind_of_ok hslot, bind_of_ok hslot, bind_apply, insertRecordInSlot_eq hn hle hroom]
      rfl

theorem updateRecord_eq (h : p.Layout) (hid : id.pageNumber = p.pageNumber) (hn : p.Holds id.slotNumber)
    (ha : p.Aligned id.slotNumber) (hlen : 0 < p.lengthOf id.slotNumber) :
    updateRecord id data p = Page.updateRecord id data p := by
  have hvalid := validateRecordId_of_holds h.readable hid hn
  have hdelete := Page.deleteRecordAllow_of_holds (b := false) h hid hn
  rw [updateRecord, Page.updateRecord, bind_of_ok hvalid, bind_of_ok hvalid, bind_of_ok (get_apply p),
    bind_of_ok (get_apply p)]
  -- the old record and the free space have room for the new record, or it is refused
  by_cases hspace : data.length > p.getFreeSpace + (p.slot id.slotNumber).itemLength
  · rw [if_pos hspace, if_pos hspace]
  · obtain ⟨hlayout, hslots, hroom⟩ := room_removed h hn ha hspace
    rw [if_neg hspace, if_neg hspace, bind_apply, deleteRecordAllow_eq h hid hn ha hlen, ← bind_apply,
      bind_of_ok hdelete, bind_of_ok hdelete]
    exact insertRecordInSlot_eq hn.1 (hslots ▸ hn.2.1) fun _ => ⟨hlayout, hroom⟩

end Versions

end CS640.Badger
