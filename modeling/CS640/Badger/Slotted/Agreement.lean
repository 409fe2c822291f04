import CS640.Badger.Slotted.Versions
import CS640.Lib.Lockstep

/-!
# The agreement of the two versions

From pages with the same header and the same bytes, the calls of the two versions end alike and leave pages
with the same header and the same bytes again, as long as the pages are in order. What one version does with
splices the other does with loops over regions that overlap; `DataArea` says of both which byte ends up
where.

* `Agree` — the relation, between pages over any two kinds of data areas;
* `versions_agree` — the runs;
* `versions_diverge` — a run in which a slot was allocated that reads as in use.

Each version is first shown to do on a page in order what `Page` says (`run_eq`), so that the agreement is one of
the definitions of `Page` with themselves, over two kinds of data areas. There it is a lockstep of two programs:
every step keeps `Agree`, and every branch is taken in both or in neither.
-/

namespace CS640.Badger

open CS640.Lib Prog DataArea

variable {D E : Type} [DataArea D] [DataArea E]

/-! ## Data areas

Areas are compared byte by byte, and what is read of an area, or written to it at a place within it, is then the
same in both.
-/

/-- The same bytes. -/
structure SameBytes (d : D) (e : E) : Prop where
  full : DataArea.Full d
  full' : DataArea.Full e
  bytes : ∀ j, byte d j = byte e j

namespace SameBytes

variable {d : D} {e : E} {i j k n : Nat} {s : PageSlot}

theorem read16 (h : SameBytes d e) (i : Nat) : read16 d i = read16 e i := by
  simp [Badger.read16, h.bytes]

theorem getSlot (h : SameBytes d e) (n : Nat) : getSlot n d = getSlot n e := by
  simp [Badger.getSlot, h.bytes, h.read16]

theorem setByte (h : SameBytes d e) (hi : i < dataSize) (b : UInt8) :
    SameBytes (setByte d i b) (setByte e i b) where
  full := full_setByte h.full
  full' := full_setByte h.full'
  bytes j := by rw [byte_setByte j h.full hi, byte_setByte j h.full' hi, h.bytes]

theorem write16 (h : SameBytes d e) (hi : i + 1 < dataSize) (n : Nat) :
    SameBytes (write16 d i n) (write16 e i n) :=
  (h.setByte (Nat.lt_of_succ_lt hi) _).setByte hi _

theorem putSlot (h : SameBytes d e) (hn : 0 < n) (hle : slotSize * n ≤ dataSize) (s : PageSlot) :
    SameBytes (putSlot n s d) (putSlot n s e) := by
  rw [← slotPosition_add hn] at hle
  simp only [slotSize] at hle
  exact ((h.setByte (by omega) _).write16 (by omega) _).write16 (by omega) _

theorem trailingUnused (h : SameBytes d e) (n : Nat) :
    Page.trailingUnused d n = Page.trailingUnused e n := by
  induction n with
  | zero => rfl
  | succ n ih => rw [Page.trailingUnused, Page.trailingUnused, h.getSlot, ih]

/-- A round of the first loop of `deleteRecord`. -/
theorem shiftSlot {r : D × Nat × Nat} {r' : E × Nat × Nat} (h : SameBytes r.1 r'.1) (hmoved : r.2 = r'.2)
    (hi : 0 < i) (hle : slotSize * i ≤ dataSize) :
    SameBytes (Page.shiftSlot k r i).1 (Page.shiftSlot k r' i).1 ∧
      (Page.shiftSlot k r i).2 = (Page.shiftSlot k r' i).2 := by
  obtain ⟨d, moved⟩ := r
  obtain ⟨e, moved'⟩ := r'
  dsimp only at h hmoved
  subst hmoved
  simp only [Page.shiftSlot, h.getSlot]
  split
  · exact ⟨h.putSlot hi hle _, rfl⟩
  · exact ⟨h, rfl⟩

/-- The loop. -/
theorem foldl_shiftSlot {l : List Nat} {r : D × Nat × Nat} {r' : E × Nat × Nat} (h : SameBytes r.1 r'.1)
    (hmoved : r.2 = r'.2) (hl : ∀ i ∈ l, 0 < i ∧ slotSize * i ≤ dataSize) :
    SameBytes (l.foldl (Page.shiftSlot k) r).1 (l.foldl (Page.shiftSlot k) r').1 ∧
      (l.foldl (Page.shiftSlot k) r).2 = (l.foldl (Page.shiftSlot k) r').2 := by
  induction l generalizing r r' with
  | nil => exact ⟨h, hmoved⟩
  -- the round is the same in both, since it reads the slots of areas with the same bytes
  | cons i l ih =>
      obtain ⟨hi, hle⟩ := hl i List.mem_cons_self
      obtain ⟨h, hmoved⟩ := h.shiftSlot (k := k) hmoved hi hle
      exact ih h hmoved fun j hj => hl j (List.mem_cons_of_mem _ hj)

end SameBytes

/-! ## Pages

A page is its header and its data area. What a call asks of a page before it writes anything is a function of the
header and of the slots, and these agree.
-/

/-- The same header and the same bytes. -/
structure Agree (p : Page D) (q : Page E) : Prop where
  header : p.header = q.header
  data : SameBytes p.data q.data

namespace Agree

open Page

variable {p : Page D} {q : Page E} {k n : Nat} {data : List UInt8}

theorem slot (h : Agree p q) (n : Nat) : p.slot n = q.slot n := h.data.getSlot n

theorem pageNumber (h : Agree p q) : p.pageNumber = q.pageNumber := by
  rw [Page.pageNumber, h.header, Page.pageNumber]

theorem getFreeSpace (h : Agree p q) : p.getFreeSpace = q.getFreeSpace := by
  rw [Page.getFreeSpace, h.header, Page.getFreeSpace]

theorem hasSpaceForRecord (h : Agree p q) (data : List UInt8) :
    Page.hasSpaceForRecord data p = Page.hasSpaceForRecord data q := by
  rw [Page.hasSpaceForRecord, h.header, h.getFreeSpace, Page.hasSpaceForRecord]

theorem addSlot (h : Agree p q) : Agree p.addSlot q.addSlot where
  header := by rw [Page.addSlot, Page.addSlot, h.header]
  data := h.data

theorem releaseSlot (h : Agree p q) (hk : 0 < k) (hle : slotSize * k ≤ dataSize) (b : Bool) :
    Agree (releaseSlot k b p) (releaseSlot k b q) := by
  have hput : SameBytes (putSlot k ⟨false, 0, 0⟩ p.data) (putSlot k ⟨false, 0, 0⟩ q.data) :=
    h.data.putSlot hk hle _
  simp only [Page.releaseSlot, Page.setSlot, h.header, h.slot, hput.trailingUnused]
  -- the last slot goes with the free slots before it, any other one is only marked
  by_cases hcut : b = true ∧ k = q.header.numSlots
  · simp only [hcut, and_self, ↓reduceIte]
    exact ⟨rfl, hcut.2 ▸ hput⟩
  · simp only [hcut, ↓reduceIte]
    exact ⟨rfl, hput⟩

theorem fillSlot (h : Agree p q) (hp : p.Layout) (hq : q.Layout) (hspace : data.length ≤ p.getFreeSpace)
    (hk : 0 < k) (hle : k ≤ p.header.numSlots) : Agree (fillSlot k data p) (fillSlot k data q) where
  header := by simp only [Page.fillSlot, Page.setSlot, h.header]
  data := by
    have hspace' : data.length ≤ q.getFreeSpace := h.getFreeSpace ▸ hspace
    have hle' : k ≤ q.header.numSlots := h.header ▸ hle
    have hput := h.data.putSlot hk ((Nat.mul_le_mul_left _ hle).trans hp.slots_le_dataSize)
      ⟨true, p.header.freeSpaceUpperBound - data.length, data.length⟩
    refine ⟨full_fillSlot hp hspace hk hle, full_fillSlot hq hspace' hk hle', fun j => ?_⟩
    rw [byte_copy_fill hp hspace hk hle, byte_copy_fill hq hspace' hk hle', hput.bytes, h.header]

/-! ### Removing

The data area is changed in three steps, which the versions make in different ways. What they have in common is
where each byte ends up: `zeroed` and `shifted` are the first two steps, and `byte_removeData` is the third.
-/

section Removing

variable {p : Page D}

/-- The data area when the record is overwritten, and when the slots are shifted. -/
def zeroed (k : Nat) (p : Page D) : D :=
  copy p.data (getSlot k) PageSlot.itemLength PageSlot.itemOffset fun _ => 0

def shifted (k : Nat) (p : Page D) : D × Nat × Nat :=
  (List.range' 1 p.header.numSlots).foldl (shiftSlot k) (zeroed k p, (getSlot k (zeroed k p)).itemOffset, 0)

variable (h : p.Layout) (hk : p.Holds k)

include h hk

theorem shifted_removeData : Shifted (zeroed k p) (p.slot k) p.header.numSlots p.header.numSlots (shifted k p) := by
  have hself : getSlot k (zeroed k p) = p.slot k := getSlot_zeroed h hk hk.1 hk.2.1
  have hr : Shifted (zeroed k p) (getSlot k (zeroed k p)) p.header.numSlots p.header.numSlots (shifted k p) := by
    have hwithin : (getSlot k (zeroed k p)).itemOffset + (getSlot k (zeroed k p)).itemLength ≤ dataSize := by
      rw [hself]
      exact h.within hk
    exact shifted_foldl (full_copy h.full (h.within hk)) hk.1 hk.2.1 h.slots_le_dataSize hwithin _ (le_refl _)
  rwa [hself] at hr

/-- Which byte ends up where. -/
theorem byte_removeData (ha : p.Aligned k) (j : Nat) : byte (removeData k p).data j =
    if p.header.freeSpaceUpperBound + p.lengthOf k ≤ j ∧ j < p.offsetOf k + p.lengthOf k then
      byte (shifted k p).1 (j - p.lengthOf k)
    else byte (shifted k p).1 j :=
  byte_moved h hk (fun _ hm hle => getSlot_zeroed h hk hm hle) (shifted_removeData h hk) ha j

end Removing

theorem holds (h : Agree p q) (hk : p.Holds k) : q.Holds k := by
  rw [Page.Holds, ← h.header, ← h.slot]
  exact hk

/-- The bytes of the record are overwritten, the slots are shifted, and the hole is closed. -/
theorem removeData (h : Agree p q) (hp : p.Layout) (hq : q.Layout) (hk : p.Holds k) (ha : p.Aligned k)
    (ha' : q.Aligned k) : Agree (removeData k p) (removeData k q) where
  header := h.header
  data := by
    have hk' : q.Holds k := h.holds hk
    have hoffset : p.offsetOf k = q.offsetOf k := by rw [offsetOf, h.slot, offsetOf]
    have hlength : p.lengthOf k = q.lengthOf k := by rw [lengthOf, h.slot, lengthOf]
    have hzeroed : SameBytes (zeroed k p) (zeroed k q) :=
      { full := full_copy hp.full (hp.within hk)
        full' := full_copy hq.full (hq.within hk')
        bytes := by
          intro j
          rw [zeroed, zeroed, byte_zeroed hp hk, byte_zeroed hq hk', hoffset, hlength, h.data.bytes] }
    have hshifted : SameBytes (shifted k p).1 (shifted k q).1 := by
      rw [shifted, shifted, h.header]
      -- the loops start from the same record and go over slots that are within the area
      refine (hzeroed.foldl_shiftSlot ?_ fun i hi => ?_).1
      · rw [hzeroed.getSlot]
      · have hle := hq.slots_le_dataSize
        rw [List.mem_range'_1] at hi
        simp only [slotSize] at hle ⊢
        omega
    refine ⟨(dataRemoved_removeData hp hk ha).full, (dataRemoved_removeData hq hk' ha').full, fun j => ?_⟩
    rw [byte_removeData hp hk ha, byte_removeData hq hk' ha', h.header, hoffset, hlength, hshifted.bytes,
      hshifted.bytes]

/-! ### The calls

The calls in lockstep, each through the steps of its definition. Where a step takes a page in order, that it still
is one comes from what is known of the call.
-/

variable {id : RecordId}

theorem getAvailableSlot (h : Agree p q) :
    Lockstep Agree Page.getAvailableSlot Page.getAvailableSlot p q := by
  unfold Page.getAvailableSlot
  refine .get (.ite (by rw [h.header]) (fun _ => ?_) fun _ => ?_)
  · simp only [h.slot, h.header]
    refine .bind (.assert _ h) fun _ p' q' hp hq h' => .pure _ ?_
    exact h'
  · rw [h.header]
    exact .bind (.modify h.addSlot) fun _ _ _ _ _ h' => .pure _ h'

theorem insertRecordInSlot (h : Agree p q) (hk : 0 < k) (hle : k ≤ p.header.numSlots)
    (hroom : (p.slot k).used = false → p.Layout ∧ q.Layout ∧ data.length ≤ p.getFreeSpace) :
    Lockstep Agree (Page.insertRecordInSlot k data) (Page.insertRecordInSlot k data) p q := by
  unfold Page.insertRecordInSlot
  refine .get (.ite (by rw [h.header]) (fun _ => ?_) fun _ => .ite (by rw [h.slot]) (fun _ => ?_) fun hused => ?_)
  · rw [h.pageNumber]
    exact .throw _ h
  · rw [h.pageNumber]
    exact .throw _ h
  · obtain ⟨hp, hq, hspace⟩ := hroom (Bool.eq_false_of_not_eq_true hused)
    exact .modify (h.fillSlot hp hq hspace hk hle)

theorem insertRecord (h : Agree p q) (hp : p.Layout) (hq : q.Layout) :
    Lockstep Agree (Page.insertRecord data) (Page.insertRecord data) p q := by
  unfold Page.insertRecord
  refine .get (.ite (by rw [h.hasSpaceForRecord]) (fun _ => ?_) fun hspace => ?_)
  · rw [h.pageNumber, h.getFreeSpace]
    exact .throw _ h
  · -- the slot that is found is the same, and it fits if it is not in use
    have hspace := Bool.eq_true_of_not_eq_false hspace
    refine .bind h.getAvailableSlot fun n p' q' hrun hrun' h' => ?_
    have hwp : wp Page.getAvailableSlot _ _ p := wp_getAvailableSlot hp hspace
    have hwp' : wp Page.getAvailableSlot _ _ q := wp_getAvailableSlot hq (h.hasSpaceForRecord data ▸ hspace)
    rw [wp_of_ok hrun] at hwp
    rw [wp_of_ok hrun'] at hwp'
    obtain ⟨hn, hle, -, hfree⟩ := hwp
    obtain ⟨-, -, -, hfree'⟩ := hwp'
    refine .bind (h'.insertRecordInSlot hn hle fun hunused => ?_) fun _ _ _ _ _ h' => ?_
    · obtain ⟨-, hsame, hroom⟩ := hfree hunused
      obtain ⟨-, hsame', -⟩ := hfree' (h'.slot n ▸ hunused)
      exact ⟨hsame.layout, hsame'.layout, hroom⟩
    · rw [h.pageNumber]
      exact .pure _ h'

theorem deleteRecordAllow (h : Agree p q) (hp : p.Layout) (hq : q.Layout) (hid : id.pageNumber = p.pageNumber)
    (hn : p.Holds id.slotNumber) (ha : p.Aligned id.slotNumber) (ha' : q.Aligned id.slotNumber) (b : Bool) :
    Lockstep Agree (Page.deleteRecordAllow id b) (Page.deleteRecordAllow id b) p q := by
  have hid' : id.pageNumber = q.pageNumber := hid.trans h.pageNumber
  have hdelete := deleteRecordAllow_of_holds (b := b) hp hid hn
  have hdelete' := deleteRecordAllow_of_holds (b := b) hq hid' (h.holds hn)
  have hremoved := (h.removeData hp hq hn ha ha').releaseSlot hn.1 (hp.slot_le_dataSize hn) b
  exact ⟨by rw [hdelete, hdelete'], by rw [hdelete, hdelete']; exact hremoved⟩

theorem updateRecord (h : Agree p q) (hp : p.Layout) (hq : q.Layout) (hid : id.pageNumber = p.pageNumber)
    (hn : p.Holds id.slotNumber) (ha : p.Aligned id.slotNumber) (ha' : q.Aligned id.slotNumber) :
    Lockstep Agree (Page.updateRecord id data) (Page.updateRecord id data) p q := by
  have hid' : id.pageNumber = q.pageNumber := hid.trans h.pageNumber
  have hvalid := validateRecordId_of_holds hp.readable hid hn
  have hvalid' := validateRecordId_of_holds hq.readable hid' (h.holds hn)
  have hagree : Lockstep Agree (validateRecordId id) (validateRecordId id) p q :=
    ⟨by rw [hvalid, hvalid'], by rw [hvalid, hvalid']; exact h⟩
  unfold Page.updateRecord
  refine hagree.bind fun _ p' q' hrun hrun' h => .get ?_
  obtain rfl : p = p' := congrArg Prod.snd (hvalid.symm.trans hrun)
  obtain rfl : q = q' := congrArg Prod.snd (hvalid'.symm.trans hrun')
  -- the record does not fit, or it is deleted and put in again
  refine .ite (by rw [h.getFreeSpace, h.slot]) (fun _ => ?_) fun hspace => ?_
  · rw [h.pageNumber, h.getFreeSpace, h.slot]
    exact .throw _ h
  · have hspace' : ¬ data.length > q.getFreeSpace + (q.slot id.slotNumber).itemLength := by
      rwa [← h.getFreeSpace, ← h.slot]
    obtain ⟨hlayout, hslots, hroom⟩ := room_removed hp hn ha hspace
    obtain ⟨hlayout', -, -⟩ := room_removed hq (h.holds hn) ha' hspace'
    have hdelete := deleteRecordAllow_of_holds (b := false) hp hid hn
    have hdelete' := deleteRecordAllow_of_holds (b := false) hq hid' (h.holds hn)
    refine (h.deleteRecordAllow hp hq hid hn ha ha' false).bind fun _ p' q' hrun hrun' h => ?_
    obtain rfl : _ = p' := congrArg Prod.snd (hdelete.symm.trans hrun)
    obtain rfl : _ = q' := congrArg Prod.snd (hdelete'.symm.trans hrun')
    exact h.insertRecordInSlot hn.1 (hslots ▸ hn.2.1) fun _ => ⟨hlayout, hlayout', hroom⟩

theorem getRecord (h : Agree p q) (hp : p.Layout) (hq : q.Layout) (hid : id.pageNumber = p.pageNumber)
    (hn : p.Holds id.slotNumber) : Lockstep Agree (Page.getRecord id) (Page.getRecord id) p q := by
  have hget := getRecord_of_holds hp.readable hid hn
  have hget' := getRecord_of_holds hq.readable (hid.trans h.pageNumber) (h.holds hn)
  have hrecord : p.record id.slotNumber = q.record id.slotNumber := by
    simp only [record, h.slot, h.data.bytes]
  exact ⟨by rw [hget, hget', hrecord], by rw [hget, hget']; exact h⟩

end Agree

/-! ## Runs

A run keeps both stores in order and in step. A call outside of the condition may leave a page out of order, which
is why the last call of a run is considered on its own.
-/

inductive PageCall where
  | insertRecord (recordData : List UInt8)
  | updateRecord (recordId : RecordId) (recordData : List UInt8)
  | deleteRecord (recordId : RecordId)
  | getRecord (recordId : RecordId)
  | hasSpaceForRecord (recordData : List UInt8)
  deriving DecidableEq

/-- What a call returns. -/
inductive Reply where
  | none
  | recordId (id : RecordId)
  | record (data : List UInt8)
  | hasSpace (b : Bool)
  deriving DecidableEq

namespace PageCall

/-- A call, in a version. -/
def run {D : Type} [PageVersion D] : PageCall → Prog Exn (Page D) Reply
  | insertRecord recordData => do
    let id ← Versions.insertRecord recordData
    return .recordId id
  | updateRecord recordId recordData => do
    Versions.updateRecord recordId recordData
    return .none
  | deleteRecord recordId => do
    Versions.deleteRecord recordId
    return .none
  | getRecord recordId => do
    let data ← Versions.getRecord recordId
    return .record data
  | hasSpaceForRecord recordData => do
    let p ← get
    return .hasSpace (Page.hasSpaceForRecord recordData p)

/-- A call, as in `Page`. -/
def shared {D : Type} [DataArea D] : PageCall → Prog Exn (Page D) Reply
  | insertRecord recordData => do
    let id ← Page.insertRecord recordData
    return .recordId id
  | updateRecord recordId recordData => do
    Page.updateRecord recordId recordData
    return .none
  | deleteRecord recordId => do
    Page.deleteRecord recordId
    return .none
  | getRecord recordId => do
    let data ← Page.getRecord recordId
    return .record data
  | hasSpaceForRecord recordData => do
    let p ← get
    return .hasSpace (Page.hasSpaceForRecord recordData p)

/-- The live ids after a call, from how it ended. -/
def liveAfter (live : RecordId → Option (List UInt8)) :
    PageCall → Except (Exit Exn) Reply → RecordId → Option (List UInt8)
  | insertRecord recordData, .ok (.recordId id) => Function.update live id (some recordData)
  | updateRecord recordId recordData, .ok _ => Function.update live recordId (some recordData)
  | deleteRecord recordId, .ok _ => Function.update live recordId none
  | _, _ => live

/-- The call has a live id, and a record that is not empty. -/
def InDomain (live : RecordId → Option (List UInt8)) : PageCall → Prop
  | insertRecord recordData => recordData ≠ []
  | updateRecord recordId recordData => live recordId ≠ none ∧ recordData ≠ []
  | deleteRecord recordId => live recordId ≠ none
  | getRecord recordId => live recordId ≠ none
  | hasSpaceForRecord recordData => recordData ≠ []

instance (live : RecordId → Option (List UInt8)) : DecidablePred (InDomain live)
  | insertRecord recordData => inferInstanceAs (Decidable (recordData ≠ []))
  | updateRecord recordId recordData => inferInstanceAs (Decidable (live recordId ≠ none ∧ recordData ≠ []))
  | deleteRecord recordId => inferInstanceAs (Decidable (live recordId ≠ none))
  | getRecord recordId => inferInstanceAs (Decidable (live recordId ≠ none))
  | hasSpaceForRecord recordData => inferInstanceAs (Decidable (recordData ≠ []))

/-- If the call has a slot allocated, then the slot does not read as in use. -/
def Ready {D : Type} [DataArea D] (p : Page D) : PageCall → Prop
  | insertRecord recordData => p.SlotReady recordData
  | _ => True

instance {D : Type} [DataArea D] (p : Page D) : DecidablePred (Ready p)
  | insertRecord recordData => inferInstanceAs (Decidable (p.SlotReady recordData))
  | updateRecord _ _ => isTrue trivial
  | deleteRecord _ => isTrue trivial
  | getRecord _ => isTrue trivial
  | hasSpaceForRecord _ => isTrue trivial

end PageCall

namespace Store

variable {D : Type} [PageVersion D] {s : Store D} {c : PageCall}

/-- The store after a call. -/
def call (s : Store D) (c : PageCall) : Store D :=
  ⟨(c.run s.page).2, c.liveAfter s.live (c.run s.page).1⟩

/-- The page is in order, and no record is empty. -/
structure InOrder (s : Store D) : Prop where
  kept : s.Kept
  filled : s.Filled

namespace InOrder

variable (h : s.InOrder)

include h

theorem layout : s.page.Layout := h.kept.tidy.counted.layout

/-- What is known of the record of a live id. -/
theorem live {id : RecordId} (hlive : s.live id ≠ none) : id.pageNumber = s.page.pageNumber ∧
    s.page.Holds id.slotNumber ∧ s.page.Aligned id.slotNumber ∧ 0 < s.page.lengthOf id.slotNumber := by
  obtain ⟨hid, hn⟩ := h.kept.inv.holds_of_live hlive
  exact ⟨hid, hn, h.kept.aligned h.filled _, h.kept.length_pos h.filled hn⟩

/-- Every access is in bounds. -/
theorem run_eq (hdom : c.InDomain s.live) : c.run s.page = c.shared s.page := by
  cases c with
  | insertRecord data =>
      rw [PageCall.run, PageCall.shared, bind_apply, Versions.insertRecord_eq h.layout]
      rfl
  | updateRecord id data =>
      obtain ⟨hid, hn, ha, hlen⟩ := h.live hdom.1
      rw [PageCall.run, PageCall.shared, bind_apply, Versions.updateRecord_eq h.layout hid hn ha hlen]
      rfl
  | deleteRecord id =>
      obtain ⟨hid, hn, ha, hlen⟩ := h.live hdom
      rw [PageCall.run, PageCall.shared, bind_apply, Versions.deleteRecord,
        Versions.deleteRecordAllow_eq h.layout hid hn ha hlen]
      rfl
  | getRecord id =>
      obtain ⟨hid, hn, -, -⟩ := h.live hdom
      rw [PageCall.run, PageCall.shared, bind_apply, Versions.getRecord_eq h.layout hid hn]
      rfl
  | hasSpaceForRecord data => rfl

/-- A call that has no slot allocated that reads as in use returns and leaves the page in order, or throws
and leaves it alone. -/
theorem shared_cases (hdom : c.InDomain s.live) (hready : c.Ready s.page) :
    (∃ reply page, c.shared s.page = (.ok reply, page) ∧
      InOrder (⟨page, c.liveAfter s.live (.ok reply)⟩ : Store D)) ∨
    ∃ e, c.shared s.page = (.error (.throw e), s.page) := by
  cases c with
  | insertRecord data =>
      rcases h.kept.insert_cases hready with ⟨-, n, page, hcall, -, hkept⟩ | ⟨-, hcall⟩
      · refine Or.inl ⟨.recordId ⟨s.page.pageNumber, n⟩, page, ?_, hkept, h.filled.stored hdom⟩
        rw [PageCall.shared, bind_of_ok hcall]
        rfl
      · exact Or.inr ⟨_, by rw [PageCall.shared, bind_of_error hcall]⟩
  | updateRecord id data =>
      obtain ⟨-, -, ha, -⟩ := h.live hdom.1
      rcases h.kept.update_known data hdom.1 ha with ⟨page, hcall, hkept⟩ | hcall
      · refine Or.inl ⟨.none, page, ?_, hkept, h.filled.stored hdom.2⟩
        rw [PageCall.shared, bind_of_ok hcall]
        rfl
      · exact Or.inr ⟨_, by rw [PageCall.shared, bind_of_error hcall]⟩
  | deleteRecord id =>
      obtain ⟨-, -, ha, -⟩ := h.live hdom
      obtain ⟨page, hcall, hkept⟩ := h.kept.delete_known hdom ha
      refine Or.inl ⟨.none, page, ?_, hkept, h.filled.removed⟩
      rw [PageCall.shared, bind_of_ok hcall]
      rfl
  | getRecord id =>
      obtain ⟨hid, hn, -, -⟩ := h.live hdom
      refine Or.inl ⟨.record (s.page.record id.slotNumber), s.page, ?_, h⟩
      rw [PageCall.shared, bind_of_ok (Page.getRecord_of_holds h.layout.readable hid hn)]
      rfl
  | hasSpaceForRecord data => exact Or.inl ⟨_, s.page, rfl, h⟩

/-- The call returns or throws. -/
theorem ended (hdom : c.InDomain s.live) :
    (∃ reply, (c.run s.page).1 = .ok reply) ∨ ∃ e, (c.run s.page).1 = .error (.throw e) := by
  rw [h.run_eq hdom]
  -- a call that is ready, or an insertion that finds its new slot in use
  by_cases hready : c.Ready s.page
  · rcases h.shared_cases hdom hready with ⟨reply, page, hcall, -⟩ | ⟨e, hcall⟩
    · exact Or.inl ⟨reply, by rw [hcall]⟩
    · exact Or.inr ⟨e, by rw [hcall]⟩
  · -- only an insertion allocates a slot
    cases c with
    | insertRecord data =>
        unfold PageCall.Ready Page.SlotReady at hready
        push Not at hready
        obtain ⟨hspace, hfree, hused⟩ := hready
        have hcall := Page.insertRecord_slotInUse hspace (by omega) (Bool.eq_true_of_not_eq_false hused)
        exact Or.inr ⟨_, by rw [PageCall.shared, bind_of_error hcall]⟩
    | _ => exact absurd trivial hready

/-- A call that has no slot allocated that reads as in use leaves the page in order. -/
theorem call (hdom : c.InDomain s.live) (hready : c.Ready s.page) : (s.call c).InOrder := by
  rw [Store.call, h.run_eq hdom]
  -- the call has returned, or it has thrown and left the page
  rcases h.shared_cases hdom hready with ⟨reply, page, hcall, horder⟩ | ⟨e, hcall⟩
  · rw [hcall]
    exact horder
  · have hlive : c.liveAfter s.live (.error (.throw e)) = s.live := by cases c <;> rfl
    rw [hcall, hlive]
    exact h

/-- A slot is allocated that reads as in use. -/
theorem call_slotInUse {data : List UInt8} (hdata : data ≠ [])
    (hspace : Page.hasSpaceForRecord data s.page = true) (hfree : s.page.header.numFreeSlots = 0)
    (hused : (s.page.slot (s.page.header.numSlots + 1)).used = true) :
    s.call (.insertRecord data) = ⟨s.page.addSlot, s.live⟩ := by
  have hdom : PageCall.InDomain s.live (.insertRecord data) := hdata
  have hcall := Page.insertRecord_slotInUse hspace hfree hused
  rw [Store.call, h.run_eq hdom, PageCall.shared, bind_of_error hcall]
  rfl

end InOrder

theorem inOrder_new (pageNumber : Nat) : (new pageNumber : Store D).InOrder where
  kept := kept_new pageNumber
  filled _ h := by cases h

end Store

/-- The calls of the two versions on pages that agree. -/
theorem Agree.run {A B : Type} [PageVersion A] [PageVersion B] {s : Store A} {t : Store B} {c : PageCall}
    (h : Agree s.page t.page) (hs : s.InOrder) (ht : t.InOrder) (hlive : s.live = t.live)
    (hdom : c.InDomain s.live) : Lockstep Agree c.run c.run s.page t.page := by
  have hdom' : c.InDomain t.live := hlive ▸ hdom
  refine Lockstep.congr ?_ (hs.run_eq hdom) (ht.run_eq hdom')
  have hp := hs.layout
  have hq := ht.layout
  cases c with
  | insertRecord data => exact (h.insertRecord hp hq).bind fun _ _ _ _ _ h => .pure _ h
  | updateRecord id data =>
      obtain ⟨hid, hn, ha, -⟩ := hs.live hdom.1
      obtain ⟨-, -, ha', -⟩ := ht.live hdom'.1
      exact (h.updateRecord hp hq hid hn ha ha').bind fun _ _ _ _ _ h => .pure _ h
  | deleteRecord id =>
      obtain ⟨hid, hn, ha, -⟩ := hs.live hdom
      obtain ⟨-, -, ha', -⟩ := ht.live hdom'
      exact (h.deleteRecordAllow hp hq hid hn ha ha' true).bind fun _ _ _ _ _ h => .pure _ h
  | getRecord id =>
      obtain ⟨hid, hn, -, -⟩ := hs.live hdom
      exact (h.getRecord hp hq hid hn).bind fun _ _ _ _ _ h => .pure _ h
  | hasSpaceForRecord data =>
      refine .get ?_
      rw [h.hasSpaceForRecord]
      exact .pure _ h

namespace Versions

/-- The page in the two versions. -/
abbrev Pair : Type := Store StringArea × Store CharArea

/-- The same call on both. -/
def both (r : Pair) (c : PageCall) : Pair := (r.1.call c, r.2.call c)

/-- The call is one of the domain, and no slot is allocated that reads as in use. -/
def Calm (r : Pair) (c : PageCall) : Prop := c.InDomain r.1.live ∧ c.Ready r.1.page

instance (r : Pair) : DecidablePred (Calm r) := fun _ => inferInstanceAs (Decidable (_ ∧ _))

/-- What both versions keep. -/
structure InStep (r : Pair) : Prop where
  string : r.1.InOrder
  chars : r.2.InOrder
  agree : Agree r.1.page r.2.page
  live : r.1.live = r.2.live

/-- A call does the same in the two versions: it returns the same or throws the same, and leaves the same
header and the same `DATA_SIZE` bytes. -/
structure SameCall (r : Pair) (c : PageCall) : Prop where
  ended : (∃ reply, (c.run r.1.page).1 = .ok reply) ∨ ∃ e, (c.run r.1.page).1 = .error (.throw e)
  result : (c.run r.1.page).1 = (c.run r.2.page).1
  header : (c.run r.1.page).2.header = (c.run r.2.page).2.header
  length : (c.run r.1.page).2.data.length = dataSize
  bytes : (c.run r.1.page).2.data = (List.range dataSize).map (c.run r.2.page).2.data

variable {r : Pair} {c : PageCall}

theorem agree_new (pageNumber : Nat) :
    Agree (Store.new pageNumber : Store StringArea).page (Store.new pageNumber : Store CharArea).page where
  header := rfl
  data :=
    { full := full_zeros
      full' := full_zeros
      bytes := by
        intro j
        show (List.replicate dataSize (0 : UInt8)).getD j 0 = 0
        simp [List.getD_eq_getElem?_getD, List.getElem?_replicate]
        split <;> rfl }

theorem inStep_new (pageNumber : Nat) : InStep (Store.new pageNumber, Store.new pageNumber) where
  string := Store.inOrder_new pageNumber
  chars := Store.inOrder_new pageNumber
  agree := agree_new pageNumber
  live := rfl

theorem ready_iff (h : Agree r.1.page r.2.page) : c.Ready r.1.page ↔ c.Ready r.2.page := by
  cases c with
  | insertRecord data =>
      simp only [PageCall.Ready, Page.SlotReady, h.hasSpaceForRecord, h.header, h.slot]
  | _ => exact Iff.rfl

theorem InStep.both (h : InStep r) (hcalm : Calm r c) : InStep (both r c) := by
  obtain ⟨hdom, hready⟩ := hcalm
  have hdom' : c.InDomain r.2.live := h.live ▸ hdom
  obtain ⟨hresult, hagree⟩ := h.agree.run h.string h.chars h.live hdom
  refine ⟨h.string.call hdom hready, h.chars.call hdom' ((ready_iff h.agree).mp hready), hagree, ?_⟩
  show c.liveAfter r.1.live (c.run r.1.page).1 = c.liveAfter r.2.live (c.run r.2.page).1
  rw [hresult, h.live]

theorem InStep.sameCall (h : InStep r) (hdom : c.InDomain r.1.live) : SameCall r c := by
  obtain ⟨hresult, hagree⟩ := h.agree.run h.string h.chars h.live hdom
  have hlength : (c.run r.1.page).2.data.length = dataSize := hagree.data.full
  refine ⟨h.string.ended hdom, hresult, hagree.header, hlength, ?_⟩
  apply List.ext_getElem
  · rw [hlength, List.length_map, List.length_range]
  · intro i hi _
    have hbyte : (c.run r.1.page).2.data.getD i 0 = (c.run r.2.page).2.data i := hagree.data.bytes i
    rw [List.getD_eq_getElem?_getD, List.getElem?_eq_getElem hi] at hbyte
    simpa using hbyte

theorem inStep_run {pageNumber : Nat} {calls : List PageCall}
    (h : Run (Run.guarded Calm both) (Store.new pageNumber, Store.new pageNumber) calls r) : InStep r := by
  refine h.invariant (inStep_new pageNumber) ?_
  rintro r c - hr ⟨hcalm, rfl⟩
  exact hr.both hcalm

/-- **The two versions agree.** In every run from a new page with live ids and records that are not empty in
which no slot is allocated that reads as in use, the calls do the same in both. -/
theorem versions_agree (pageNumber : Nat) {calls : List PageCall} {r : Pair}
    (h : Run (Run.guarded Calm both) (Store.new pageNumber, Store.new pageNumber) calls r) (c : PageCall)
    (hdom : c.InDomain r.1.live) : SameCall r c :=
  (inStep_run h).sameCall hdom

/-- The condition can be read off either version. -/
theorem calm_iff (h : InStep r) : Calm r c ↔ c.InDomain r.2.live ∧ c.Ready r.2.page := by
  rw [Calm, h.live, ready_iff h.agree]

/-- Records of different lengths come, change and go. -/
theorem versions_agree_moves :
    let calls : List PageCall :=
      [.insertRecord [1, 2, 3], .insertRecord [4, 5], .getRecord ⟨7, 1⟩, .deleteRecord ⟨7, 1⟩, .insertRecord [6],
        .hasSpaceForRecord [7], .updateRecord ⟨7, 2⟩ [7, 8, 9]]
    let r := calls.foldl both (Store.new 7, Store.new 7)
    SameCall r (.deleteRecord ⟨7, 2⟩) := by
  intro calls r
  have hiff : Run.AllOk Calm both (Store.new 7, Store.new 7) calls ↔ Run.AllOk
      (fun r c => c.InDomain r.2.live ∧ c.Ready r.2.page) both (Store.new 7, Store.new 7) calls :=
    Run.allOk_congr (I := InStep) (fun _ _ h => calm_iff h) (fun _ _ h hcalm => h.both hcalm) (inStep_new 7)
  have hrun := Run.of_allOk (hiff.mpr (by decide +kernel))
  refine versions_agree 7 hrun _ ?_
  rw [(inStep_run hrun).live]
  decide +kernel

/-! ### A slot that reads as in use

The long record has bytes that read as slots. When it is moved up, these bytes stay where new slots are allocated,
and the next allocation takes one of them for a slot in use.
-/

/-- A record of 8064 bytes. Where a slot is read from its first bytes, the slot is in use and says that its
record has 20 bytes from the start of the data area on. -/
def longRecord : List UInt8 := [1, 0, 0, 0, 20, 0] ++ List.replicate 8058 1

/-- The long record comes to lie right behind two slots, and is moved up when the record above it goes. -/
def movedUp : List PageCall :=
  [.insertRecord (List.replicate 100 1), .insertRecord longRecord, .deleteRecord ⟨7, 1⟩, .insertRecord [7]]

/-- The page then. The bytes behind the two slots are still those of the long record. -/
def movedUpHeader : PageHeader := ⟨12, 111, 2, 0, 7, 0⟩

def movedUpData : StringArea :=
  [1, 0, 111, 0, 1, 0, 1, 0, 112, 0, 128, 31] ++
    ([1, 0, 0, 0, 20, 0] ++ (List.replicate 93 1 ++ (7 :: longRecord)))

def movedUpPair : Pair := movedUp.foldl both (Store.new 7, Store.new 7)

set_option maxRecDepth 100000 in
theorem movedUp_eval : Run.AllOk Calm both (Store.new 7, Store.new 7) movedUp ∧
    movedUpPair.1.page = ⟨movedUpHeader, movedUpData⟩ := by decide +kernel

theorem inStep_movedUp : InStep movedUpPair := inStep_run (Run.of_allOk movedUp_eval.1)

theorem chars_movedUp : movedUpPair.2.page = ⟨movedUpHeader, fun j => movedUpData.getD j 0⟩ := by
  obtain ⟨hheader, -, -, hbytes⟩ := inStep_movedUp.agree
  rw [movedUp_eval.2] at hheader hbytes
  cases hpage : movedUpPair.2.page with
  | mk header data =>
      rw [hpage] at hheader hbytes
      have hdata : data = fun j => movedUpData.getD j 0 := funext fun j => (hbytes j).symm
      rw [hdata, ← show movedUpHeader = header from hheader]

/-- Both versions allocate a slot behind the two and throw `SlotInUseException`. -/
theorem both_movedUp : both movedUpPair (.insertRecord [8]) =
    (⟨Page.addSlot ⟨movedUpHeader, movedUpData⟩, movedUpPair.1.live⟩,
      ⟨Page.addSlot ⟨movedUpHeader, fun j => movedUpData.getD j 0⟩, movedUpPair.2.live⟩) := by
  have hstring := movedUp_eval.2
  have hchars := chars_movedUp
  rw [both, inStep_movedUp.string.call_slotInUse (by decide) (by rw [hstring]; decide +kernel)
      (by rw [hstring]; rfl) (by rw [hstring]; decide +kernel),
    inStep_movedUp.chars.call_slotInUse (by decide) (by rw [hchars]; decide +kernel) (by rw [hchars]; rfl)
      (by rw [hchars]; decide +kernel), hstring, hchars]

/-- In p2 the slots move in one piece, and the length of the record to be deleted reads as 256 afterwards. In
p3 the loop overwrites the length while it reads it, and writes on where it then leads. -/
theorem versions_diverge :
    let calls := movedUp ++ [.insertRecord [8]]
    let r := calls.foldl both (Store.new 7, Store.new 7)
    Run (Run.guarded (fun r c => PageCall.InDomain r.1.live c) both) (Store.new 7, Store.new 7) calls r ∧
      PageCall.InDomain r.1.live (.deleteRecord ⟨7, 1⟩) ∧
      ((PageCall.deleteRecord ⟨7, 1⟩).run r.1.page).2.header.freeSpaceUpperBound = 367 ∧
      ((PageCall.deleteRecord ⟨7, 1⟩).run r.2.page).2.header.freeSpaceUpperBound = 112 ∧
      ¬ SameCall r (.deleteRecord ⟨7, 1⟩) := by
  intro calls r
  have hr : r = both movedUpPair (.insertRecord [8]) := List.foldl_append
  have hlive : movedUpPair.1.live ⟨7, 1⟩ ≠ none := by
    have hholds : movedUpPair.1.page.Holds 1 := by
      rw [movedUp_eval.2]
      exact ⟨by decide, by decide, by decide +kernel⟩
    have hnumber : movedUpPair.1.page.pageNumber = 7 := by
      rw [movedUp_eval.2]
      rfl
    exact hnumber ▸ inStep_movedUp.string.kept.held 1 hholds
  have hstring : ((PageCall.deleteRecord ⟨7, 1⟩).run r.1.page).2.header.freeSpaceUpperBound = 367 := by
    rw [hr, both_movedUp]
    decide +kernel
  have hchars : ((PageCall.deleteRecord ⟨7, 1⟩).run r.2.page).2.header.freeSpaceUpperBound = 112 := by
    rw [hr, both_movedUp]
    decide +kernel
  refine ⟨Run.of_allOk ?_, ?_, hstring, hchars, fun hsame => ?_⟩
  · obtain ⟨h₁, h₂, h₃, h₄, -⟩ := movedUp_eval.1
    exact ⟨h₁.1, h₂.1, h₃.1, h₄.1, by decide, trivial⟩
  · rw [hr, both_movedUp]
    simp only [PageCall.InDomain]
    exact hlive
  · have hheader := congrArg PageHeader.freeSpaceUpperBound hsame.header
    rw [hstring, hchars] at hheader
    cases hheader

end Versions

end CS640.Badger
