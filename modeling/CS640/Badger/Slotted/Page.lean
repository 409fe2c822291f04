import CS640.Badger.Slotted.Area
import CS640.Lib.Prog

/-!
# Slotted pages

The record operations of `Page`, in `page.cpp` of p2 and p3. The slot array grows from the start of the
data area up, the records from its end down; a record is known by its slot, and deleting one closes
the hole it leaves by moving the records below it up.

A slot number is used as an index without a check in `validateRecordId`; where it leads out of the data
area the behaviour is undefined. So it is where the slot lies behind the last one, on a byte that is
neither zero nor one: no `bool` has such a value, and the two tests `used` and `!used` may both come out
true. The slots of a page have the flags that were written into them (`Layout.flags`), unless a slot was
allocated over remains of a record; its flag is read as in use if it is not zero, which is what the test in
`insertRecordInSlot` comes to.
-/

namespace CS640.Badger

open CS640.Lib Prog DataArea

variable {D : Type} [DataArea D]

/-! ## The slot array

A slot has six bytes: the flag, a byte that is never written, and two numbers of 16 bits. Slots are read and
written where they are, so slot `n` is there for every `n`, also behind the last one of the page.
-/

/-- The 16-bit number at `i`. -/
def read16 (d : D) (i : Nat) : Nat := (byte d i).toNat + 256 * (byte d (i + 1)).toNat

def write16 (d : D) (i n : Nat) : D :=
  setByte (setByte d i (UInt8.ofNat n)) (i + 1) (UInt8.ofNat (n / 256))

/-- Where slot `n` is. Slots are numbered from one. -/
def slotPosition (n : Nat) : Nat := (n - 1) * slotSize

/-- `Page::getSlot`, read. -/
def getSlot (n : Nat) (d : D) : PageSlot where
  used := byte d (slotPosition n) != 0
  itemOffset := read16 d (slotPosition n + 2)
  itemLength := read16 d (slotPosition n + 4)

/-- `Page::getSlot`, written through. -/
def putSlot (n : Nat) (slot : PageSlot) (d : D) : D :=
  write16 (write16 (setByte d (slotPosition n) (if slot.used then 1 else 0)) (slotPosition n + 2)
    slot.itemOffset) (slotPosition n + 4) slot.itemLength

/-! ## The operations

In the order of `page.cpp`: the space that is left, the check of a record id, getting, deleting, inserting and
updating a record. A number of 16 bits wraps around, as it does in the code.
-/

namespace Page

def slot (p : Page D) (n : Nat) : PageSlot := getSlot n p.data

def setSlot (n : Nat) (s : PageSlot) (p : Page D) : Page D := { p with data := putSlot n s p.data }

/-- `Page::getFreeSpace`. -/
def getFreeSpace (p : Page D) : Nat := p.header.freeSpaceUpperBound - p.header.freeSpaceLowerBound

/-- `Page::hasSpaceForRecord`. -/
def hasSpaceForRecord (recordData : List UInt8) (p : Page D) : Bool :=
  let recordSize := recordData.length
  let recordSize := if p.header.numFreeSlots = 0 then recordSize + slotSize else recordSize
  decide (recordSize ≤ p.getFreeSpace)

/-- The byte where the flag of slot `n` is cannot be that of a `bool`. -/
def NoFlag (d : D) (n : Nat) : Prop := 1 < byte d (slotPosition n)

instance (d : D) : DecidablePred (NoFlag d) := fun _ => inferInstanceAs (Decidable (_ < _))

/-- `Page::validateRecordId`. -/
def validateRecordId (recordId : RecordId) : Prog Exn (Page D) Unit := do
  let p ← get
  if recordId.pageNumber ≠ p.pageNumber then throw (.invalidRecord recordId p.pageNumber)
  else if recordId.slotNumber = 0 ∨ dataSize < slotSize * recordId.slotNumber then exit .undefined
  -- behind the last slot there may be anything
  else if p.header.numSlots < recordId.slotNumber ∧ NoFlag p.data recordId.slotNumber then
    exit .undefined
  else if (p.slot recordId.slotNumber).used = false then
    throw (.invalidRecord recordId p.pageNumber)
  else pure ()

/-- `Page::getRecord`. `substr` throws an exception nobody catches if the offset is out of range. -/
def getRecord (recordId : RecordId) : Prog Exn (Page D) (List UInt8) := do
  validateRecordId recordId
  let p ← get
  let slot := p.slot recordId.slotNumber
  if slot.itemOffset > dataSize then exit .abort
  else
    pure ((List.range (min slot.itemLength (dataSize - slot.itemOffset))).map fun i =>
      byte p.data (slot.itemOffset + i))

/-- One round of the first loop of `deleteRecord`, on the data area, `move_offset` and `move_bytes`. -/
def shiftSlot (slotNumber : Nat) (r : D × Nat × Nat) (i : Nat) : D × Nat × Nat :=
  let (d, moveOffset, moveBytes) := r
  let slot := getSlot slotNumber d
  let otherSlot := getSlot i d
  if otherSlot.used = true ∧ otherSlot.itemOffset < slot.itemOffset then
    (putSlot i { otherSlot with itemOffset := otherSlot.itemOffset + slot.itemLength } d,
      if otherSlot.itemOffset < moveOffset then otherSlot.itemOffset else moveOffset,
      moveBytes + otherSlot.itemLength)
  else r

/-- The part of `deleteRecord` that overwrites the record and closes the hole. -/
def removeData (slotNumber : Nat) (p : Page D) : Page D :=
  let zeroed := copy p.data (getSlot slotNumber) PageSlot.itemLength PageSlot.itemOffset fun _ => 0
  let (shifted, moveOffset, moveBytes) := (List.range' 1 p.header.numSlots).foldl
    (shiftSlot slotNumber) (zeroed, (getSlot slotNumber zeroed).itemOffset, 0)
  let moved :=
    if moveBytes > 0 then
      copy shifted (getSlot slotNumber) (fun _ => moveBytes)
        (fun slot => moveOffset + slot.itemLength) fun i => byte shifted (moveOffset + i)
    else shifted
  { p with data := moved }

/-- The number of unused slots at the end of the first `n`. -/
def trailingUnused (d : D) : (n : Nat) → Nat
  | 0 => 0
  | n + 1 => if (getSlot (n + 1) d).used = true then 0 else trailingUnused d n + 1

/-- The part of `deleteRecord` that gives the slot back. -/
def releaseSlot (slotNumber : Nat) (allowSlotCompaction : Bool) (p : Page D) : Page D :=
  let slot := p.slot slotNumber
  let p : Page D := (p.setSlot slotNumber ⟨false, 0, 0⟩)
  let header :=
    { p.header with
      freeSpaceUpperBound := (p.header.freeSpaceUpperBound + slot.itemLength) % 2 ^ 16
      numFreeSlots := (p.header.numFreeSlots + 1) % 2 ^ 16 }
  if allowSlotCompaction = true ∧ slotNumber = header.numSlots then
    let numSlotsToDelete := trailingUnused p.data (header.numSlots - 1) + 1
    { p with header :=
        { header with
          numSlots := header.numSlots - numSlotsToDelete
          numFreeSlots := (header.numFreeSlots + 2 ^ 16 - numSlotsToDelete) % 2 ^ 16
          freeSpaceLowerBound := header.freeSpaceLowerBound - slotSize * numSlotsToDelete } }
  else { p with header := header }

/-- `Page::deleteRecord(record_id, allow_slot_compaction)`. -/
def deleteRecordAllow (recordId : RecordId) (allowSlotCompaction : Bool) :
    Prog Exn (Page D) Unit := do
  validateRecordId recordId
  modify (removeData recordId.slotNumber)
  modify (releaseSlot recordId.slotNumber allowSlotCompaction)

/-- `Page::deleteRecord`. -/
def deleteRecord (recordId : RecordId) : Prog Exn (Page D) Unit := deleteRecordAllow recordId true

/-- The part of `getAvailableSlot` that allocates a slot. -/
def addSlot (p : Page D) : Page D :=
  { p with header :=
      { p.header with
        numSlots := p.header.numSlots + 1
        numFreeSlots := p.header.numFreeSlots + 1
        freeSpaceLowerBound := slotSize * (p.header.numSlots + 1) } }

/-- `Page::getAvailableSlot`. -/
def getAvailableSlot : Prog Exn (Page D) Nat := do
  let p ← get
  if p.header.numFreeSlots > 0 then
    let slotNumber := ((List.range' 1 p.header.numSlots).find? fun i => !(p.slot i).used).getD
      invalidSlot
    assert (slotNumber != invalidSlot)
    pure slotNumber
  else do
    modify addSlot
    pure (p.header.numSlots + 1)

/-- The end of `insertRecordInSlot`. -/
def fillSlot (slotNumber : Nat) (recordData : List UInt8) (p : Page D) : Page D :=
  let itemOffset := p.header.freeSpaceUpperBound - recordData.length
  let p : Page D := p.setSlot slotNumber ⟨true, itemOffset, recordData.length⟩
  { header :=
      { p.header with
        freeSpaceUpperBound := itemOffset
        numFreeSlots := (p.header.numFreeSlots + 2 ^ 16 - 1) % 2 ^ 16 }
    data := copy p.data (getSlot slotNumber) PageSlot.itemLength PageSlot.itemOffset fun i =>
      recordData.getD i 0 }

/-- `Page::insertRecordInSlot`. -/
def insertRecordInSlot (slotNumber : Nat) (recordData : List UInt8) : Prog Exn (Page D) Unit := do
  let p ← get
  if slotNumber > p.header.numSlots ∨ slotNumber = invalidSlot then
    throw (.invalidSlot p.pageNumber slotNumber)
  else if (p.slot slotNumber).used = true then throw (.slotInUse p.pageNumber slotNumber)
  else modify (fillSlot slotNumber recordData)

/-- `Page::insertRecord`. -/
def insertRecord (recordData : List UInt8) : Prog Exn (Page D) RecordId := do
  let p ← get
  if hasSpaceForRecord recordData p = false then
    throw (.insufficientSpace p.pageNumber recordData.length p.getFreeSpace)
  else do
    let slotNumber ← getAvailableSlot
    insertRecordInSlot slotNumber recordData
    pure ⟨p.pageNumber, slotNumber⟩

/-- `Page::updateRecord`. -/
def updateRecord (recordId : RecordId) (recordData : List UInt8) : Prog Exn (Page D) Unit := do
  validateRecordId recordId
  let p ← get
  let freeSpaceAfterDelete := p.getFreeSpace + (p.slot recordId.slotNumber).itemLength
  if recordData.length > freeSpaceAfterDelete then
    throw (.insufficientSpace p.pageNumber recordData.length freeSpaceAfterDelete)
  else do
    deleteRecordAllow recordId false
    insertRecordInSlot recordId.slotNumber recordData

end Page

end CS640.Badger
