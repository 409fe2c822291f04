import CS640.Badger.Buffer.Room
import CS640.Badger.Buffer.Coherence
import CS640.Badger.Scan.Records

/-!
# The pool under a scan

`Scannable` is what a scan needs to find: a file whose used list is in order and a pool in which a frame is
not pinned, every frame that may have to be written back can be so, and no dirty frame of another object
has other records of the file. Besides, the pool must have no old copy of a page under the address of the
scan's own object (`NoStale`); nothing in the code sees to that. `ScanInv` is what is left of this while the
scan goes on, whatever the clock evicts: the file and the pages under the scan's object show the records
that the file began with, and every frame has the pins it had, and one more where the scan is.

`Scannable.scanInv` sets `ScanInv` up, and `scanned`, `written`, `evicted`, `loaded` and `marked` keep it under the
five changes that a call of the buffer manager makes. A frame is only evicted while the scan is nowhere, so the
frame that the scan is at is never a victim.
-/

namespace CS640.Badger

open CS640.Lib Prog
open CS640.Badger.BufMgr

variable {D : Type} [DataArea D]

/-!
## What a scan needs

`FStream.Relation` is about the file alone, `Scannable` about the whole system, `InPlace` about what the writing
back of dirty frames may do to the file meanwhile.
-/

/-- A relation: a file whose used list is `used`. -/
structure FStream.Relation (st : FStream D) (used : List Nat) : Prop where
  owned : ∃ free, st.Owned free
  chain : Chain st.next 0 st.header.firstUsedPage used
  mem : ∀ p, p ∈ used ↔ ∃ d, st.stored p = some d
  readable : ∀ p ∈ used, (st.page p).Readable

/-- The system as a scan of the file `fn`, through the object at `f`, is to find it. -/
structure Scannable (s : Sys D) (f : Nat) (fn : FileName) (used : List Nat) : Prop where
  table : TableInv s
  size : 2 * s.numBufs < 2 ^ 32
  room : ∃ i < s.numBufs, (s.desc i).pinCnt = 0
  object : s.objects f = some ⟨.page, fn⟩
  same : ∀ a b oa ob, s.objects a = some oa → s.objects b = some ob → oa.filename = ob.filename → oa = ob
  owned : ∃ free, (s.streams fn).Owned free
  chain : Chain (s.streams fn).next 0 (s.streams fn).header.firstUsedPage used
  mem : ∀ p, p ∈ used ↔ ∃ d, (s.streams fn).stored p = some d
  readable : ∀ p ∈ used, ((s.streams fn).page p).Readable
  /-- A dirty frame that is not pinned can be written back, and if it is of the file it has the records
  that the file has. -/
  writable : ∀ i, Victim s i → (s.desc i).dirty = true → ∃ o, s.objects (s.desc i).file = some o ∧
    o.kind.InOrder (s.streams o.filename) ∧
    (o.kind = .page → (onDisk s o (s.desc i).pageNo).isSome = true ∧
      (s.frame i).pageNumber = (s.desc i).pageNo) ∧
    (o.filename = fn →
      Page.Shows ((s.streams fn).page (s.desc i).pageNo) (s.desc i).pageNo (s.frame i))

theorem Scannable.relation {s : Sys D} {f : Nat} {fn : FileName} {used : List Nat}
    (h : Scannable s f fn used) : (s.streams fn).Relation used :=
  ⟨h.owned, h.chain, h.mem, h.readable⟩

/-- What every call of such a scan relies on. -/
structure Opened (s : Sys D) (f : Nat) (fn : FileName) : Prop where
  table : TableInv s
  object : s.objects f = some ⟨.page, fn⟩
  same : ∀ a b oa ob, s.objects a = some oa → s.objects b = some ob → oa.filename = ob.filename → oa = ob
  size : 2 * s.numBufs < 2 ^ 32

theorem Scannable.opened {s : Sys D} {f : Nat} {fn : FileName} {used : List Nat}
    (h : Scannable s f fn used) : Opened s f fn :=
  ⟨h.table, h.object, h.same, h.size⟩

/-- Every frame is pinned, when the pin of a scan that is at frame `cur` is not counted. -/
def Full (s : Sys D) (cur : Option Nat) : Prop :=
  ∀ i < s.numBufs, (if cur = some i then 1 else 0) < (s.desc i).pinCnt

theorem Scannable.not_full {s : Sys D} {f : Nat} {fn : FileName} {used : List Nat}
    (h : Scannable s f fn used) : ¬ Full s none := by
  intro hfull
  obtain ⟨i, hi, hpin⟩ := h.room
  have hpos : 0 < (s.desc i).pinCnt := hfull i hi
  rw [hpin] at hpos
  cases hpos

/-- Every page of the file that is in the pool under the address `f` has the records that the file has. -/
def NoStale (s : Sys D) (f : Nat) (fn : FileName) (used : List Nat) : Prop :=
  ∀ p i, p ∈ used → s.entry f p = some i → Page.Shows ((s.streams fn).page p) p (s.frame i)

/-- The used list of the file `st` is `used`, and its pages have the records that they had in `st₀`. -/
structure InPlace (st₀ : FStream D) (used : List Nat) (st : FStream D) : Prop where
  owned : ∃ free, st.Owned free
  chain : Chain st.next 0 st.header.firstUsedPage used
  stored : ∀ p ∈ used, ∃ d, st.stored p = some d
  shows : ∀ p ∈ used, Page.Shows (st₀.page p) p (st.page p)

namespace InPlace

variable {st₀ st st' : FStream D} {used l : List Nat}

theorem refl (h : st.Relation used) : InPlace st used st where
  owned := h.owned
  chain := h.chain
  stored p hp := (h.mem p).mp hp
  shows p hp := by
    obtain ⟨free, ho⟩ := h.owned
    obtain ⟨d, hd⟩ := (h.mem p).mp hp
    exact ⟨(ho.of_stored hd).2.2.2.1, h.readable p hp, rfl⟩

theorem trans (h : InPlace st₀ used st) (h' : InPlace st used st') : InPlace st₀ used st' where
  owned := h'.owned
  chain := h'.chain
  stored := h'.stored
  shows p hp := (h.shows p hp).trans (h'.shows p hp)

/-- What is in place is so for itself. -/
theorem self (h : InPlace st₀ used st) : InPlace st used st where
  owned := h.owned
  chain := h.chain
  stored := h.stored
  shows p hp := (h.shows p hp).of_both (h.shows p hp)

theorem liveRecords (h : InPlace st₀ used st) (hl : ∀ p ∈ l, p ∈ used) :
    st.liveRecords l = st₀.liveRecords l := by
  apply List.flatMap_congr
  intro p hp
  rw [(h.shows p (hl p hp)).records]

/-- Writing a page with the same records. -/
theorem put {p : Nat} {d pg : Page D} (h : InPlace st₀ used st) (hp : st.stored p = some d)
    (hshows : Page.Shows (st₀.page p) p pg) :
    InPlace st₀ used (st.put p (pg.setNextPageNumber (st.next p))) := by
  obtain ⟨free, howned⟩ := h.owned
  obtain ⟨hpos, hlt, -, -, -⟩ := howned.of_stored hp
  -- Only page `p` has changed.
  have hpage : ∀ q, (st.put p (pg.setNextPageNumber (st.next p))).page q =
      if q = p then pg.setNextPageNumber (st.next p) else st.page q := by
    intro q
    split
    · next hq =>
        rw [hq]
        exact FStream.put_page_self _
    · next hq => exact FStream.put_page_of_ne _ hq
  constructor
  case owned => exact ⟨free, howned.put hp hshows.number⟩
  case chain =>
    apply Seg.congr h.chain
    -- The number of the next page is that of the page in the file, not the one in the frame.
    intro q _
    rw [FStream.next, hpage]
    split
    · next hq =>
        rw [hq]
        rfl
    · rfl
  case stored =>
    intro q hq
    have hne : (pg.setNextPageNumber (st.next p)).pageNumber ≠ 0 := by
      rw [Page.pageNumber_setNextPageNumber, hshows.number]
      exact Nat.ne_of_gt hpos
    rw [FStream.stored_put hlt hne]
    -- The page that is written, and the pages that are not.
    by_cases hqp : q = p
    · rw [hqp, Function.update_self]
      exact ⟨_, rfl⟩
    · rw [Function.update_of_ne hqp]
      exact h.stored q hq
  case shows =>
    intro q hq
    rw [hpage]
    split
    · next hqp =>
        rw [hqp]
        exact hshows.setNextPageNumber _
    · exact h.shows q hq

end InPlace

/-!
## The invariant

Two systems stand in it, the one that the scan found and the one it has come to. The pins of other callers are those
of the first, and so are the pages in their frames; everything else may have been replaced.
-/

/-- The system in a scan that found it as `s₀` and is at frame `cur`. -/
structure ScanInv (s₀ : Sys D) (f : Nat) (fn : FileName) (used : List Nat) (cur : Option Nat)
    (s : Sys D) : Prop where
  table : TableInv s
  objects : s.objects = s₀.objects
  numBufs : s.numBufs = s₀.numBufs
  count : ∀ i, (s.desc i).pinCnt = (s₀.desc i).pinCnt + if cur = some i then 1 else 0
  kept : ∀ i, 0 < (s₀.desc i).pinCnt →
    (s.desc i).file = (s₀.desc i).file ∧ (s.desc i).pageNo = (s₀.desc i).pageNo
  file : InPlace (s₀.streams fn) used (s.streams fn)
  current : ∀ p i, p ∈ used → s.entry f p = some i → Page.Shows ((s₀.streams fn).page p) p (s.frame i)
  writable : ∀ i, (s.desc i).valid = true → (s₀.desc i).pinCnt = 0 → (s.desc i).dirty = true →
    ∃ o, s.objects (s.desc i).file = some o ∧ o.kind.InOrder (s.streams o.filename) ∧
      (o.kind = .page → (onDisk s o (s.desc i).pageNo).isSome = true ∧
        (s.frame i).pageNumber = (s.desc i).pageNo) ∧
      (o.filename = fn →
        Page.Shows ((s₀.streams fn).page (s.desc i).pageNo) (s.desc i).pageNo (s.frame i))

variable {s₀ s t : Sys D} {f : Nat} {fn : FileName} {used : List Nat} {cur cur' : Option Nat} {i p : Nat}

theorem Scannable.scanInv (h : Scannable s f fn used) (hcurrent : NoStale s f fn used) :
    ScanInv s f fn used none s where
  table := h.table
  objects := rfl
  numBufs := rfl
  count _ := rfl
  kept _ _ := ⟨rfl, rfl⟩
  file := InPlace.refl h.relation
  current := hcurrent
  writable i hv hpin hdirty := h.writable i ⟨hv, hpin⟩ hdirty

namespace ScanInv

/-- A frame that nobody has pinned, while the scan is nowhere. -/
theorem unpinned (h : ScanInv s₀ f fn used none s) (hpin : (s.desc i).pinCnt = 0) :
    (s₀.desc i).pinCnt = 0 := by
  rw [h.count i] at hpin
  exact hpin

theorem scanned (h : ScanInv s₀ f fn used cur s) (ht : Scanned s t) (hinv : PoolInv t) :
    ScanInv s₀ f fn used cur t where
  table := h.table.scanned ht hinv.hand
  objects := ht.objects.trans h.objects
  numBufs := ht.numBufs.trans h.numBufs
  count i := by
    rw [ht.desc i]
    exact h.count i
  kept i hi := by
    rw [ht.desc i]
    exact h.kept i hi
  file := by
    rw [ht.streams]
    exact h.file
  current p i hp hi := by
    rw [ht.entry] at hi
    rw [ht.frame]
    exact h.current p i hp hi
  writable i hv hpin hdirty := by
    rw [ht.desc i] at hv hdirty ⊢
    simp only [onDisk, ht.objects, ht.streams, ht.frame]
    exact h.writable i hv hpin hdirty

/-- A frame that may be evicted is written to its file. -/
theorem written (ho : Opened s₀ f fn) (h : ScanInv s₀ f fn used cur s)
    (hv : (s.desc i).valid = true) (hpin : (s₀.desc i).pinCnt = 0) (hdirty : (s.desc i).dirty = true) :
    ∃ o st, s.objects (s.desc i).file = some o ∧
      o.writePage (s.desc i).pageNo (s.frame i) (s.streams o.filename) = (.ok (), st) ∧
      ScanInv s₀ f fn used cur (s.setStreams (Function.update s.streams o.filename st)) := by
  have hsame := ho.same
  have hobject := ho.object
  rw [← h.objects] at hsame hobject
  obtain ⟨o, ho, horder, hpage, hshows⟩ := h.writable i hv hpin hdirty
  obtain ⟨st, hr, hputs⟩ := FileObject.writePage_puts horder hpage
  refine ⟨o, st, ho, hr, ?_⟩
  constructor
  case table => exact h.table.setStreams _
  case objects => exact h.objects
  case numBufs => exact h.numBufs
  case count => exact h.count
  case kept => exact h.kept
  case file =>
    rw [Sys.streams_setStreams]
    by_cases hfn : o.filename = fn
    · -- a page of the file itself, with the records that the file has
      obtain rfl := hsame _ _ o _ ho hobject hfn
      obtain ⟨hsome, -⟩ := hpage rfl
      obtain ⟨d, hd⟩ := Option.isSome_iff_exists.mp hsome
      have hd : (s.streams fn).stored (s.desc i).pageNo = some d := hd
      obtain ⟨free, howned⟩ := h.file.owned
      have hwrite := PageFile.writePage_of_stored fn howned hd (s.frame i)
      obtain rfl : _ = st := congrArg Prod.snd (hwrite.symm.trans hr)
      rw [Function.update_self]
      exact h.file.put hd (hshows rfl)
    · rw [Function.update_of_ne (Ne.symm hfn)]
      exact h.file
  case current => exact h.current
  case writable =>
    intro j hjv hjpin hjdirty
    -- The other frames can still be written back: their file is in order, and no page has left its used list.
    obtain ⟨o', ho', horder', hpage', hshows'⟩ := h.writable j hjv hjpin hjdirty
    refine ⟨o', ho', ?_⟩
    rw [onDisk, Sys.streams_setStreams]
    by_cases hname : o'.filename = o.filename
    · obtain rfl := hsame _ _ o' o ho' ho hname
      rw [Function.update_self]
      refine ⟨hputs.order, fun hkind => ⟨?_, (hpage' hkind).2⟩, hshows'⟩
      -- Another page of the same object may be the page that was written, when its frame has an old number.
      by_cases hp : (s.desc j).pageNo = (s.desc i).pageNo
      · rw [Sys.desc_setStreams, hp, hputs.own]
        rfl
      · rw [Sys.desc_setStreams, hputs.used hkind _ hp]
        exact (hpage' hkind).1
    · rw [Function.update_of_ne hname]
      exact ⟨horder', hpage', hshows'⟩

/-- Emptying a frame, while the scan is nowhere. -/
theorem evicted (h : ScanInv s₀ f fn used none s) (hv : Victim s i) :
    ScanInv s₀ f fn used none
      ((s.dropEntry (s.desc i).file (s.desc i).pageNo).setDesc i BufDesc.clear) where
  table := h.table.evict hv.valid
  objects := h.objects
  numBufs := h.numBufs
  count j := by
    rw [Sys.desc_setDesc]
    split
    · next hji =>
        rw [hji, h.unpinned hv.unpinned]
        rfl
    · exact h.count j
  kept j hj := by
    -- A pinned frame is not the victim.
    have hji : j ≠ i := by
      intro hji
      rw [hji, h.unpinned hv.unpinned] at hj
      cases hj
    rw [Sys.desc_setDesc, if_neg hji]
    exact h.kept j hj
  file := h.file
  current p j hp hj := h.current p j hp (h.table.pool.entry_evict hj).1
  writable j hjv hjpin hjdirty := by
    by_cases hji : j = i
    · rw [Sys.desc_setDesc, if_pos hji] at hjv
      cases hjv
    · rw [Sys.desc_setDesc, if_neg hji] at hjv hjdirty ⊢
      exact h.writable j hjv hjpin hjdirty

/-- Putting a page of the file into a frame that is not in use, where the scan then is. -/
theorem loaded (h : ScanInv s₀ f fn used none s) (hv : (s.desc i).valid = false) (hi : i < s.numBufs)
    (hnone : s.entry f p = none) (hp : p ∈ used) :
    ScanInv s₀ f fn used (some i)
      (((s.setFrame i ((s.streams fn).page p)).setDesc i (BufDesc.set f p)).putEntry f p i) := by
  -- A frame that is not in use is clear, so nobody had it pinned.
  have hclear := h.table.pool.invalid i hv
  have hpin : (s₀.desc i).pinCnt = 0 := by
    apply h.unpinned
    rw [← hclear]
    rfl
  have hdesc : ∀ j, ((((s.setFrame i ((s.streams fn).page p)).setDesc i
      (BufDesc.set f p)).putEntry f p i).desc j) = if j = i then BufDesc.set f p (s.desc i) else s.desc j :=
    fun j => Sys.desc_setDesc _ i j _
  have hframe : ∀ j, (((s.setFrame i ((s.streams fn).page p)).setDesc i
      (BufDesc.set f p)).putEntry f p i).frame j = if j = i then (s.streams fn).page p else s.frame j :=
    fun j => Sys.frame_setFrame s i j _
  constructor
  case table => exact h.table.load hv hi hnone _
  case objects => exact h.objects
  case numBufs => exact h.numBufs
  case count =>
    intro j
    rw [hdesc]
    -- The new frame has the one pin of the scan, the others theirs.
    by_cases hji : j = i
    · rw [if_pos hji, hji, hpin, if_pos rfl]
      rfl
    · rw [if_neg hji, if_neg (by simpa using Ne.symm hji)]
      exact h.count j
  case kept =>
    intro j hj
    have hji : j ≠ i := by
      intro hji
      rw [hji, hpin] at hj
      cases hj
    rw [hdesc, if_neg hji]
    exact h.kept j hj
  case file => exact h.file
  case current =>
    intro q j hq hj
    have hentry := Sys.entry_putEntry (s := (s.setFrame i ((s.streams fn).page p)).setDesc i
      (BufDesc.set f p)) i f q hnone
    rw [hentry] at hj
    split at hj
    · -- the page that was read
      next heq =>
        cases hj
        rw [hframe, if_pos rfl, heq.2]
        exact h.file.shows p hp
    · -- A page that was in the pool before is in another frame.
      have hji : j ≠ i := by
        intro hji
        have hj : s.entry f q = some j := hj
        rw [hji] at hj
        rw [(h.table.pool.entry f q i hj).1] at hv
        cases hv
      rw [hframe, if_neg hji]
      exact h.current q j hq hj
  case writable =>
    intro j hjv hjpin hjdirty
    rw [hdesc] at hjv hjdirty ⊢
    -- The new frame is not dirty.
    by_cases hji : j = i
    · rw [if_pos hji] at hjdirty
      cases hjdirty
    · rw [if_neg hji] at hjv hjdirty ⊢
      rw [hframe, if_neg hji]
      exact h.writable j hjv hjpin hjdirty

/-- Pinning and unpinning the frame of a page. -/
theorem marked (h : ScanInv s₀ f fn used cur s) (hv : (s.desc i).valid = true) {g : BufDesc → BufDesc}
    (hg : ∀ d, (g d).valid = d.valid ∧ (g d).file = d.file ∧ (g d).pageNo = d.pageNo ∧
      (g d).frameNo = d.frameNo) (hdirty : ∀ d, (g d).dirty = d.dirty)
    (hcount : ∀ j, ((s.setDesc i g).desc j).pinCnt =
      (s₀.desc j).pinCnt + if cur' = some j then 1 else 0) :
    ScanInv s₀ f fn used cur' (s.setDesc i g) := by
  have hsame : ∀ j, ((s.setDesc i g).desc j).valid = (s.desc j).valid ∧
      ((s.setDesc i g).desc j).file = (s.desc j).file ∧
      ((s.setDesc i g).desc j).pageNo = (s.desc j).pageNo ∧
      ((s.setDesc i g).desc j).dirty = (s.desc j).dirty := by
    intro j
    rw [Sys.desc_setDesc]
    split
    · next hji =>
        rw [hji]
        exact ⟨(hg _).1, (hg _).2.1, (hg _).2.2.1, hdirty _⟩
    · exact ⟨rfl, rfl, rfl, rfl⟩
  exact
    { table := h.table.mark hv hg
      objects := h.objects
      numBufs := h.numBufs
      count := hcount
      kept := fun j hj => by
        rw [(hsame j).2.1, (hsame j).2.2.1]
        exact h.kept j hj
      file := h.file
      current := h.current
      writable := fun j hjv hjpin hjdirty => by
        rw [(hsame j).1] at hjv
        rw [(hsame j).2.2.2] at hjdirty
        rw [(hsame j).2.1, (hsame j).2.2.1]
        exact h.writable j hjv hjpin hjdirty }

/-- In a full pool no page comes or goes. -/
theorem entry_full (ho : Opened s₀ f fn) (hfull : Full s₀ none) (h : ScanInv s₀ f fn used cur s) (g q : Nat) :
    s.entry g q = none ↔ s₀.entry g q = none := by
  -- Every frame is in use and holds the page it held when the scan began.
  have hkept : ∀ i < s₀.numBufs, (s.desc i).valid = true ∧ (s₀.desc i).valid = true ∧
      (s.desc i).file = (s₀.desc i).file ∧ (s.desc i).pageNo = (s₀.desc i).pageNo := by
    intro i hi
    have hpos : 0 < (s₀.desc i).pinCnt := hfull i hi
    refine ⟨h.table.pool.valid_of_pinned ?_, ho.table.pool.valid_of_pinned hpos, h.kept i hpos⟩
    rw [h.count i]
    exact Nat.add_pos_left hpos _
  constructor
  · -- A page that is in the pool of one of the two states is in the same frame in the other.
    intro hnone
    by_contra hentry
    obtain ⟨i, hi⟩ := Option.ne_none_iff_exists'.mp hentry
    obtain ⟨hv, rfl, rfl⟩ := ho.table.pool.entry g q i hi
    obtain ⟨hvalid, -, hfile, hpage⟩ := hkept i (ho.table.pool.valid_lt i hv)
    rw [← hfile, ← hpage, h.table.full i hvalid] at hnone
    cases hnone
  · intro hnone
    by_contra hentry
    obtain ⟨i, hi⟩ := Option.ne_none_iff_exists'.mp hentry
    obtain ⟨hv, rfl, rfl⟩ := h.table.pool.entry g q i hi
    have hlt := h.table.pool.valid_lt i hv
    rw [h.numBufs] at hlt
    obtain ⟨-, hvalid, hfile, hpage⟩ := hkept i hlt
    rw [hfile, hpage, ho.table.full i hvalid] at hnone
    cases hnone

end ScanInv

/-! ## The calls of a scan

What `allocBuf`, `readPage`, `unPinPage` and the iterator of the file do in a state with the invariant. Either there
is an unpinned frame and the call does what it is for, or every frame is pinned and the call throws
`BufferExceededException`; there is no third outcome.
-/

section Calls

open P3.BufMgr

variable (ho : Opened s₀ f fn)

include ho

/-- The scan has its object. -/
theorem object_scan (h : ScanInv s₀ f fn used cur s) : s.objects f = some ⟨.page, fn⟩ := by
  rw [h.objects]
  exact ho.object

/-- A frame is found for the next page, or all frames are pinned. -/
theorem allocBuf_scan (h : ScanInv s₀ f fn used none s) :
    wp allocBuf
      (fun i t => ScanInv s₀ f fn used none t ∧ (t.desc i).valid = false ∧ i < t.numBufs ∧
        (∀ p, s.entry f p = none → t.entry f p = none) ∧ ¬ Full s₀ none)
      (fun e t => e = .throw .bufferExceeded ∧ ScanInv s₀ f fn used none t ∧ Full s₀ none) s := by
  have hsize := ho.size
  rw [← h.numBufs] at hsize
  have hroom : ∀ {u : Sys D} {i : Nat}, ScanInv s₀ f fn used none u → i < u.numBufs →
      (u.desc i).pinCnt = 0 → ¬ Full s₀ none := by
    intro u i hu hi hpin hfull
    rw [hu.numBufs] at hi
    have hpos : 0 < (s₀.desc i).pinCnt := hfull i hi
    rw [hu.unpinned hpin] at hpos
    cases hpos
  apply wp_allocBuf_table h.table hsize
  · -- Nothing can be evicted: every frame is pinned, and the scan itself has none.
    intro t ht hinv hheld
    refine ⟨rfl, h.scanned ht hinv, ?_⟩
    intro i hi
    rw [← h.numBufs] at hi
    have hpos := (hheld i hi).2
    rw [h.count i] at hpos
    exact hpos
  · -- The clock has stopped at a frame that is not in use.
    intro t ht hinv hv
    have hnext := h.scanned ht hinv
    refine ⟨hnext, hv, hinv.hand, ?_, hroom hnext hinv.hand ?_⟩
    · intro p hp
      rw [ht.entry]
      exact hp
    · rw [← hinv.invalid _ hv]
      rfl
  · -- It has stopped at an unpinned one, whose page is written back if it is dirty.
    intro t ht hinv hv
    have h := h.scanned ht hinv
    have hroom := hroom h hinv.hand hv.unpinned
    -- a page that was not there has not come in
    have hnone : ∀ p, s.entry f p = none →
        ((t.dropEntry (t.desc t.clockHand).file (t.desc t.clockHand).pageNo)).entry f p = none := by
      intro p hp
      rw [← ht.entry] at hp
      rw [Sys.entry_dropEntry, hp, ite_self]
    have hempty : ∀ u : Sys D, ((u.setDesc t.clockHand BufDesc.clear).desc t.clockHand).valid = false := by
      intro u
      rw [Sys.desc_setDesc, if_pos rfl]
      rfl
    rw [writeBack, wp_bind, wp_get, wp_ite]
    constructor
    · intro hdirty
      obtain ⟨o, st, hobject, hwrite, hnext⟩ := h.written ho hv.valid (h.unpinned hv.unpinned) hdirty
      have hobject : (t.dropEntry (t.desc t.clockHand).file (t.desc t.clockHand).pageNo).objects
          (t.desc t.clockHand).file = some o := hobject
      rw [Sys.desc_dropEntry, Sys.frame_dropEntry, wp_onFile hobject, Sys.streams_dropEntry, wp_of_ok hwrite]
      exact ⟨hnext.evicted ⟨hv.valid, hv.unpinned⟩, hempty _, hinv.hand, hnone, hroom⟩
    · intro _
      exact ⟨h.evicted hv, hempty _, hinv.hand, hnone, hroom⟩

/-- A page of the file is pinned, or it is not in the pool and all frames are pinned. -/
theorem readPage_scan (h : ScanInv s₀ f fn used none s) (hp : p ∈ used) :
    (∃ i t, P3.BufMgr.readPage f p s = (.ok i, t) ∧ ScanInv s₀ f fn used (some i) t ∧
      t.entry f p = some i ∧ (s.entry f p = none → ¬ Full s₀ none)) ∨
    ∃ t, P3.BufMgr.readPage f p s = (.error (.throw .bufferExceeded), t) ∧ ScanInv s₀ f fn used none t ∧
      s.entry f p = none ∧ Full s₀ none := by
  have hobject := object_scan ho h
  have hwp : wp (P3.BufMgr.readPage f p)
      (fun i t => ScanInv s₀ f fn used (some i) t ∧ t.entry f p = some i ∧
        (s.entry f p = none → ¬ Full s₀ none))
      (fun e t => e = .throw .bufferExceeded ∧ ScanInv s₀ f fn used none t ∧ s.entry f p = none ∧
        Full s₀ none) s := by
    apply wp_readPage hobject
    · -- The page is in the pool.
      intro i hi
      refine ⟨h.marked (h.table.pool.entry f p i hi).1 (fun _ => ⟨rfl, rfl, rfl, rfl⟩) (fun _ => rfl) ?_,
        hi, fun hnone => ?_⟩
      · intro j
        have hcount := h.count j
        rw [if_neg (by simp)] at hcount
        rw [Sys.desc_setDesc]
        by_cases hji : j = i
        · rw [if_pos hji, hji, if_pos rfl, ← hji, hcount]
        · rw [if_neg hji, if_neg (by simpa using Ne.symm hji)]
          exact hcount
      · rw [hi] at hnone
        cases hnone
    · -- It is not, and a frame must be found.
      intro hnone
      apply wp_mono (allocBuf_scan ho h)
      · rintro i t ⟨h, hv, hi, hkeep, hroom⟩
        obtain ⟨d, hd⟩ := h.file.stored p hp
        obtain ⟨free, howned⟩ := h.file.owned
        have hobject := object_scan ho h
        have hread : FileObject.readPage ⟨.page, fn⟩ p (t.streams fn) = _ :=
          PageFile.readPage_of_stored fn howned hd
        rw [wp_onFile hobject, wp_of_ok hread, Sys.setStream_self]
        have hmiss := hkeep p hnone
        have hnone' : ((t.setFrame i ((t.streams fn).page p)).setDesc i (BufDesc.set f p)).entry f p = none :=
          hmiss
        rw [wp_of_ok (insert_apply hnone')]
        refine ⟨h.loaded hv hi hmiss hp, ?_, fun _ => hroom⟩
        rw [Sys.entry_putEntry i f p hnone', if_pos ⟨rfl, rfl⟩]
      · rintro e t ⟨rfl, h, hfull⟩
        exact ⟨rfl, h, hnone, hfull⟩
  rcases hr : P3.BufMgr.readPage f p s with ⟨e | i, t⟩
  · rw [wp_of_error hr] at hwp
    obtain ⟨rfl, ht, hnone, hfull⟩ := hwp
    exact Or.inr ⟨t, rfl, ht, hnone, hfull⟩
  · rw [wp_of_ok hr] at hwp
    exact Or.inl ⟨i, t, rfl, hwp⟩

/-- The page that a scan is at is unpinned. -/
theorem unPinPage_scan (h : ScanInv s₀ f fn used (some i) s) (hi : s.entry f p = some i) :
    ∃ t, P3.BufMgr.unPinPage f p false s = (.ok (), t) ∧ ScanInv s₀ f fn used none t := by
  have hobject := object_scan ho h
  have hpin : (s.desc i).pinCnt = (s₀.desc i).pinCnt + 1 := by
    rw [h.count i, if_pos rfl]
  have hwp : wp (P3.BufMgr.unPinPage f p false) (fun _ t => ScanInv s₀ f fn used none t)
      (fun _ _ => False) s := by
    apply wp_unPinPage hobject
    · -- The page has an entry, and it is pinned, so neither of the exceptions is thrown.
      intro hnone
      rw [hi] at hnone
      cases hnone
    · intro j hj hzero
      rw [hi] at hj
      cases hj
      omega
    · intro j hj _
      rw [hi] at hj
      cases hj
      refine h.marked (g := fun d => { d with dirty := false || d.dirty, pinCnt := d.pinCnt - 1 })
        (h.table.pool.entry f p i hi).1 (fun _ => ⟨rfl, rfl, rfl, rfl⟩) (fun _ => rfl) ?_
      intro j
      have hcount := h.count j
      rw [Sys.desc_setDesc]
      -- One pin less on the frame of the scan.
      by_cases hji : j = i
      · rw [if_pos hji, hji]
        show (s.desc i).pinCnt - 1 = _
        rw [hpin]
        rfl
      · rw [if_neg (by simpa using Ne.symm hji)] at hcount
        rw [if_neg hji, hcount]
        rfl
  obtain ⟨_, t, hrun, ht⟩ := exists_ok_of_wp hwp
  exact ⟨t, hrun, ht⟩

/-- What `FileIterator` reads at a page of the file. -/
theorem pageNumber_scan {scan : FileScan} (h : ScanInv s₀ f fn used cur s) (hfile : scan.file = f)
    (hp : scan.filePageIter ∈ used) : FileScan.pageNumber scan s = (.ok scan.filePageIter, s) := by
  have hobject := object_scan ho h
  obtain ⟨d, hd⟩ := h.file.stored _ hp
  obtain ⟨free, howned⟩ := h.file.owned
  have hread : FileObject.readPage ⟨.page, fn⟩ scan.filePageIter (s.streams fn) = _ :=
    PageFile.readPage_of_stored fn howned hd
  have hpage : onFile f (fun file => file.readPage scan.filePageIter) s =
      (.ok ((s.streams fn).page scan.filePageIter), s) := by
    rw [onFile_apply hobject, hread, Sys.setStream_self]
  rw [FileScan.pageNumber, hfile, bind_of_ok hpage, pure_apply, (howned.of_stored hd).2.2.2.1]

/-- `FileIterator::operator++` finds the next page of the used list, or the end. -/
theorem readPageHeader_scan {l₁ l₂ : List Nat} (h : ScanInv s₀ f fn used cur s)
    (hused : used = l₁ ++ p :: l₂) :
    ∃ header : PageHeader, onFile f (fun _ => FStream.readPageHeader p) s = (.ok header, s) ∧
      header.nextPageNumber = l₂.headD 0 := by
  have hobject := object_scan ho h
  have hp : p ∈ used := by simp [hused]
  obtain ⟨d, hd⟩ := h.file.stored p hp
  obtain ⟨free, howned⟩ := h.file.owned
  obtain ⟨hpos, hlt, -, -, -⟩ := howned.of_stored hd
  refine ⟨((s.streams fn).page p).header, ?_, ?_⟩
  · rw [onFile_apply hobject, FStream.readPageHeader_apply howned.ready (howned.holds p hpos hlt),
      Sys.setStream_self]
  · -- The list of used pages is a chain, and `p` has what comes after it as its next page.
    have hchain := h.file.chain
    rw [hused] at hchain
    exact Chain.next_eq hchain

/-- `PageFile::begin` is at the first page of the used list, or at the end. -/
theorem begin_scan (h : ScanInv s₀ f fn used cur s) :
    PageFile.begin f s = (.ok (used.headD 0), s) := by
  have hobject := object_scan ho h
  obtain ⟨free, howned⟩ := h.file.owned
  have hheader : onFile f (fun _ => FStream.readHeader) s = (.ok (s.streams fn).header, s) := by
    rw [onFile_apply hobject, FStream.readHeader_apply howned.ready, Sys.setStream_self]
  rw [PageFile.begin, bind_of_ok hheader, pure_apply, Chain.eq_headD h.file.chain]

end Calls

end CS640.Badger
