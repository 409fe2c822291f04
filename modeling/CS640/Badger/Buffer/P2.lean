import CS640.Badger.Buffer.Invariant
import CS640.Badger.File.Throws
import Mathlib.Data.Finset.Card

/-!
# The buffer manager of p2

`BufMgr` of `p2/bufmgr/src/buffer.cpp`, and a rule for each of its calls. It differs from that of p3 in
what it does with the frame it takes: a dirty page is not written back alone, the whole of its file is
flushed, and a clean page is taken out of the hash table but stays in its descriptor until the caller
fills the frame.

The clock runs until it finds a frame or has met more pinned pages than there are frames
(`clock_count`, which has 32 bits in the source); the model bounds its rounds, and `wp_clock` shows that
the bound is never reached.

The rules are stated for any postcondition, with one hypothesis for each way in which the call can go, so that a
property of the pool is proved by saying what becomes of it on each of them. `Evictable` collects what an invariant
has to survive for `allocBuf` and `flushFile` to keep it; every invariant of this version is shown to be one.

* `wp_clock`: the loop ends within its bound.
* `wp_allocBuf`, `allocBuf_taken`: the frame that is taken, in general and under an invariant.
* `wp_flushFile`: the loop over the frames of a file.
* `wp_readPage`, `wp_allocPage`, `wp_unPinPage`, `wp_disposePage`: the calls.
-/

namespace CS640.Badger.P2

open CS640.Lib Prog
open CS640.Badger.BufMgr

variable {D : Type}

/-!
## The program

The functions of the class in the order in which they call each other.
-/

namespace BufMgr

/-- Write frame `i` to its file if it is dirty. -/
def writeBack (i : Nat) : Prog Exn (Sys D) Unit := do
  let s ← get
  if (s.desc i).dirty = true then
    onFile (s.desc i).file fun file => P2.File.writePage file.filename (s.frame i)
  else pure ()

/-- One round of the loop of `flushFile`. -/
def flushFrame (file i : Nat) : Prog Exn (Sys D) Unit := do
  let s ← get
  let desc := s.desc i
  if desc.file = file then
    if desc.pinCnt > 0 then do
      let name ← filename desc.file
      throw (.pagePinned name desc.pageNo i)
    else if (s.frame i).pageNumber ≠ desc.pageNo ∨ desc.valid = false then
      throw (.badBuffer i desc.dirty desc.valid desc.refbit)
    else do
      writeBack i
      remove file desc.pageNo
      modify (Sys.setDesc i BufDesc.clear)
  else pure ()

/-- `BufMgr::flushFile`. -/
def flushFile (file : Nat) : Prog Exn (Sys D) Unit := do
  let s ← get
  forRange s.numBufs (flushFrame file)

/-- What the loop of `allocBuf` does at a frame it may take. -/
def vacate : Prog Exn (Sys D) Unit := do
  let s ← get
  let desc := s.desc s.clockHand
  if desc.dirty = true then do
    flushFile desc.file
    let s ← get
    modify (Sys.setDesc s.clockHand fun d => { d with dirty := false })
  else remove desc.file desc.pageNo

/-- The loop of `allocBuf`, for at most `fuel` rounds. -/
def clock : (fuel clockCount : Nat) → Prog Exn (Sys D) Unit
  | 0, _ => exit .diverge
  | fuel + 1, clockCount => do
    advanceClock
    let s ← get
    let desc := s.desc s.clockHand
    if desc.valid = true then
      if desc.refbit = true then do
        modify (Sys.setDesc s.clockHand fun d => { d with refbit := false })
        clock fuel clockCount
      else if desc.pinCnt > 0 then
        if clockCount + 1 > s.numBufs then throw .bufferExceeded
        else clock fuel (clockCount + 1)
      else vacate
    else pure ()

/-- `BufMgr::allocBuf`. -/
def allocBuf : Prog Exn (Sys D) Nat := do
  let s ← get
  clock (2 * s.numBufs + 2) 0
  let s ← get
  pure (s.desc s.clockHand).frameNo

/-- `BufMgr::readPage`. -/
def readPage [PageData D] (file pageNo : Nat) : Prog Exn (Sys D) Nat :=
  tryCatch
    (do
      let frameCheck ← lookup file pageNo
      modify (Sys.setDesc frameCheck fun d => { d with refbit := true, pinCnt := d.pinCnt + 1 })
      pure frameCheck)
    (onHashNotFound do
      let frameNo ← allocBuf
      let page ← onFile file fun file => PageFile.readPage file.filename pageNo
      modify (Sys.setFrame frameNo page)
      insert file pageNo frameNo
      modify (Sys.setDesc frameNo (BufDesc.set file pageNo))
      pure frameNo)

/-- `BufMgr::unPinPage`. -/
def unPinPage (file pageNo : Nat) (dirty : Bool) : Prog Exn (Sys D) Unit :=
  tryCatch
    (do
      let frameNo ← lookup file pageNo
      let s ← get
      if (s.desc frameNo).pinCnt = 0 then do
        let name ← filename (s.desc frameNo).file
        throw (.pageNotPinned name (s.desc frameNo).pageNo frameNo)
      else
        modify (Sys.setDesc frameNo fun d =>
          { d with pinCnt := d.pinCnt - 1, dirty := dirty || d.dirty }))
    (onHashNotFound (pure ()))

/-- The part of `disposePage` that takes the page out of the pool. -/
def dropPage (file pageNo : Nat) : Prog Exn (Sys D) Unit :=
  tryCatch
    (do
      let frameNo ← lookup file pageNo
      let s ← get
      if (s.desc frameNo).pinCnt > 0 then do
        let name ← filename (s.desc frameNo).file
        throw (.pagePinned name (s.desc frameNo).pageNo frameNo)
      else do
        modify (Sys.setDesc frameNo BufDesc.clear)
        remove file pageNo)
    (onHashNotFound (pure ()))

/-- `BufMgr::disposePage`. -/
def disposePage [PageData D] (file pageNo : Nat) : Prog Exn (Sys D) Unit := do
  dropPage file pageNo
  onFile file fun file => PageFile.deletePage file.filename pageNo

/-- `BufMgr::allocPage`. Returns the page number and the frame. -/
def allocPage [PageData D] (file : Nat) : Prog Exn (Sys D) (Nat × Nat) := do
  let frame ← allocBuf
  let page ← onFile file fun file => P2.File.allocatePage file.filename
  modify (Sys.setFrame frame page)
  modify (Sys.setDesc frame (BufDesc.set file page.pageNumber))
  insert file page.pageNumber frame
  pure (page.pageNumber, frame)

/-- `BufMgr::~BufMgr`, up to the release of the memory. What is thrown out of a destructor ends the
program. -/
def destroy : Prog Exn (Sys D) Unit := do
  let s ← get
  forRange s.numBufs fun i => do
    let s ← get
    if (s.desc i).dirty = true then flushFile (s.desc i).file else pure ()

/-- Make a call on the `BufMgr` of p2. -/
def call [PageData D] : BufOp → Prog Exn (Sys D) BufReply
  | .readPage file pageNo => do
    let frameNo ← BufMgr.readPage file pageNo
    pure (.page pageNo frameNo)
  | .allocPage file => do
    let (pageNo, frameNo) ← BufMgr.allocPage file
    pure (.page pageNo frameNo)
  | .unPinPage file pageNo dirty => do
    BufMgr.unPinPage file pageNo dirty
    pure .done
  | .flushFile file => do
    BufMgr.flushFile file
    pure .done
  | .disposePage file pageNo => do
    BufMgr.disposePage file pageNo
    pure .done

/-! ## The clock

Each round either clears a reference bit or counts a pinned frame, if it does not end the loop. So the number of
bits that are set and the room that the counter has left go down together, and `allocBuf` gives the loop as many
rounds as both can be at most, and one more.
-/

/-- The number of frames whose reference bit is set. -/
def referenced (s : Sys D) : Nat :=
  ((Finset.range s.numBufs).filter fun i => (s.desc i).refbit = true).card

theorem referenced_le (s : Sys D) : referenced s ≤ s.numBufs := by
  have hle := Finset.card_filter_le (Finset.range s.numBufs) fun i => (s.desc i).refbit = true
  rw [Finset.card_range] at hle
  exact hle

/-- Clearing a reference bit. -/
theorem referenced_clear {s : Sys D} {i : Nat} (hi : i < s.numBufs)
    (hbit : (s.desc i).refbit = true) :
    referenced (s.setDesc i fun d => { d with refbit := false }) + 1 = referenced s := by
  have herase : (Finset.range s.numBufs).filter (fun j =>
      ((s.setDesc i fun d => { d with refbit := false }).desc j).refbit = true) =
      ((Finset.range s.numBufs).filter fun j => (s.desc j).refbit = true).erase i := by
    ext j
    rw [Finset.mem_filter, Finset.mem_erase, Finset.mem_filter, Sys.desc_setDesc]
    by_cases hji : j = i
    · simp [hji]
    · simp [hji]
  have hmem : i ∈ (Finset.range s.numBufs).filter fun j => (s.desc j).refbit = true :=
    Finset.mem_filter.mpr ⟨Finset.mem_range.mpr hi, hbit⟩
  rw [referenced, Sys.numBufs_setDesc, herase]
  exact Finset.card_erase_add_one hmem

/-- The rule of `clock`: it gives up because of the pins, or stops at a frame that is not in use, or at
one that it may take. With as much fuel as `allocBuf` gives it, it always ends. -/
theorem wp_clock {Q : Unit → Sys D → Prop} {E : Exit Exn → Sys D → Prop} :
    ∀ (fuel count : Nat) (s : Sys D), s.clockHand < s.numBufs → count ≤ s.numBufs →
      referenced s + (s.numBufs + 1 - count) < fuel →
      (∀ t, Scanned s t → t.clockHand < t.numBufs → E (.throw .bufferExceeded) t) →
      (∀ t, Scanned s t → t.clockHand < t.numBufs → (t.desc t.clockHand).valid = false → Q () t) →
      (∀ t, Scanned s t → t.clockHand < t.numBufs → Victim t t.clockHand → wp vacate Q E t) →
      wp (clock fuel count) Q E s := by
  intro fuel
  induction fuel with
  | zero =>
      intro count s _ _ hfuel
      exact absurd hfuel (Nat.not_lt_zero _)
  | succ fuel ih =>
      intro count s hlt hcount hfuel hfull hfree hvictim
      set t := s.setClockHand ((s.clockHand + 1) % s.numBufs) with ht
      have hst : Scanned s t := scanned_tick s _
      have hhand : t.clockHand < t.numBufs := Nat.mod_lt _ (Nat.zero_lt_of_lt hlt)
      have href : referenced t = referenced s := rfl
      have hnum : t.numBufs = s.numBufs := rfl
      rw [clock, wp_bind]
      show wp (do
        let s ← get
        _) Q E t
      rw [wp_bind, wp_get]
      dsimp only
      rw [wp_ite]
      constructor
      · -- the frame is in use: its bit is set, it is pinned, or it may be taken
        intro hv
        rw [wp_ite]
        constructor
        · intro hbit
          -- one reference bit less
          have hclear := referenced_clear hhand hbit
          have hst' := hst.trans (scanned_clearRefbit t t.clockHand hv)
          rw [wp_bind, wp_modify]
          apply ih count (Sys.setDesc t.clockHand (fun d => { d with refbit := false }) t) hhand hcount
          · rw [Sys.numBufs_setDesc]
            omega
          · exact fun u hu huh => hfull u (hst'.trans hu) huh
          · exact fun u hu huh hui => hfree u (hst'.trans hu) huh hui
          · exact fun u hu huh huv => hvictim u (hst'.trans hu) huh huv
        · intro _
          rw [wp_ite]
          constructor
          · intro _
            rw [wp_ite]
            constructor
            · intro _
              exact hfull t hst hhand
            · intro hmore
              -- one more pinned page
              apply ih (count + 1) t hhand
              · omega
              · omega
              · exact fun u hu huh => hfull u (hst.trans hu) huh
              · exact fun u hu huh hui => hfree u (hst.trans hu) huh hui
              · exact fun u hu huh huv => hvictim u (hst.trans hu) huh huv
          · intro hpin
            exact hvictim t hst hhand ⟨hv, by omega⟩
      · -- the frame is not in use, and the loop ends
        intro hv
        exact hfree t hst hhand (by simpa using hv)

/-- **The rule of `allocBuf`.** Too many pages are pinned, or the clock stops at a frame that is not in
use, at a clean page, whose hash entry goes, or at a dirty one, whose file is flushed. -/
theorem wp_allocBuf {Q : Nat → Sys D → Prop} {E : Exit Exn → Sys D → Prop} {s : Sys D}
    (h : TableInv s) (hfull : ∀ t, Scanned s t → TableInv t → E (.throw .bufferExceeded) t)
    (hfree : ∀ t, Scanned s t → TableInv t → (t.desc t.clockHand).valid = false → Q t.clockHand t)
    (hclean : ∀ t, Scanned s t → TableInv t → Victim t t.clockHand →
      (t.desc t.clockHand).dirty = false →
      Q t.clockHand (t.dropEntry (t.desc t.clockHand).file (t.desc t.clockHand).pageNo))
    (hdirty : ∀ t, Scanned s t → TableInv t → Victim t t.clockHand →
      (t.desc t.clockHand).dirty = true →
      wp (flushFile (t.desc t.clockHand).file) (fun _ u => u.clockHand = t.clockHand ∧
        (u.desc t.clockHand).frameNo = t.clockHand ∧
        Q t.clockHand (u.setDesc t.clockHand fun d => { d with dirty := false })) E t) :
    wp allocBuf Q E s := by
  have hfuel : referenced s + (s.numBufs + 1 - 0) < 2 * s.numBufs + 2 := by
    have hle := referenced_le s
    omega
  rw [allocBuf, wp_bind, wp_get, wp_bind]
  apply wp_clock _ 0 s h.pool.hand (Nat.zero_le _) hfuel
  · intro t ht hhand
    exact hfull t ht (h.scanned ht hhand)
  · intro t ht hhand hv
    have hinv := h.scanned ht hhand
    rw [wp_bind, wp_get, wp_pure, hinv.pool.frameNo]
    exact hfree t ht hinv hv
  · intro t ht hhand hv
    have hinv := h.scanned ht hhand
    rw [vacate, wp_bind, wp_get]
    dsimp only
    rw [wp_ite]
    constructor
    · -- a dirty page: the file is flushed, and the frame that is returned is still the one with the hand
      intro hd
      rw [wp_bind]
      refine wp_mono (hdirty t ht hinv hv hd) ?_ fun _ _ he => he
      intro _ u hu
      obtain ⟨hclock, hno, hq⟩ := hu
      have hno' : ((u.setDesc t.clockHand fun d => { d with dirty := false }).desc
          t.clockHand).frameNo = t.clockHand := by
        rw [Sys.desc_setDesc, if_pos rfl]
        exact hno
      rw [wp_bind, wp_get, wp_modify, hclock, wp_bind, wp_get, wp_pure, Sys.clockHand_setDesc, hclock,
        hno']
      exact hq
    · -- a clean page: its entry goes, which it has because the table is full
      intro hd
      have hd : (t.desc t.clockHand).dirty = false := by simpa using hd
      rw [wp_of_ok (remove_apply (hinv.full _ hv.valid)), wp_bind, wp_get, wp_pure,
        Sys.clockHand_dropEntry, Sys.desc_dropEntry, hinv.pool.frameNo]
      exact hclean t ht hinv hv hd

/-! ## Flushing a file

Of the frames of the file, those before `k` have been emptied after `k` rounds. `wp_flushFrame` has the four ways of
a round, and `Flushed` what the rounds so far have done to the pool.
-/

section Rules

variable {s : Sys D} {E : Exit Exn → Sys D → Prop} {file pageNo : Nat} {object : FileObject}

/-- Writing a frame back changes nothing but the streams. -/
theorem wp_writeBack_any {Q : Unit → Sys D → Prop} {i : Nat}
    (hQ : ∀ streams, Q () (s.setStreams streams)) (hE : ∀ e streams, E e (s.setStreams streams)) :
    wp (writeBack i) Q E s := by
  rw [writeBack, wp_bind, wp_get, wp_ite]
  constructor
  · intro _
    exact wp_onFile_any (fun _ => hQ) hE
  · intro _
    exact hQ s.streams

theorem wp_flushFrame {Q : Unit → Sys D → Prop} {i : Nat} (hf : s.objects file = some object)
    (h : TableInv s) (hother : ((s.desc i).valid = true → (s.desc i).file ≠ file) → Q () s)
    (hpinned : (s.desc i).file = file → 0 < (s.desc i).pinCnt →
      E (.throw (.pagePinned object.filename (s.desc i).pageNo i)) s)
    (hbad : (s.desc i).file = file →
      (s.frame i).pageNumber ≠ (s.desc i).pageNo ∨ (s.desc i).valid = false →
      E (.throw (.badBuffer i (s.desc i).dirty (s.desc i).valid (s.desc i).refbit)) s)
    (hflush : Victim s i → (s.desc i).file = file → (s.frame i).pageNumber = (s.desc i).pageNo →
      wp (writeBack i) (fun _ t => Q () ((t.dropEntry (s.desc i).file (s.desc i).pageNo).setDesc i
        BufDesc.clear)) E s) :
    wp (flushFrame file i) Q E s := by
  rw [flushFrame, wp_bind, wp_get]
  dsimp only
  rw [wp_ite]
  constructor
  · -- a frame of the file: pinned, out of order, or to be written back
    intro hfile
    rw [wp_ite]
    constructor
    · intro hpin
      have hf' : s.objects (s.desc i).file = some object := by
        rw [hfile]
        exact hf
      rw [wp_bind, wp_of_ok (filename_apply hf'), wp_throw]
      exact hpinned hfile hpin
    · intro hpin
      rw [wp_ite]
      constructor
      · intro hb
        rw [wp_throw]
        exact hbad hfile hb
      · intro hgood
        obtain ⟨hnum, hv⟩ : (s.frame i).pageNumber = (s.desc i).pageNo ∧ (s.desc i).valid = true := by
          simpa using hgood
        rw [wp_bind]
        have hstreams : wp (writeBack i) (fun _ t => ∃ streams, t = s.setStreams streams)
            (fun _ _ => True) s :=
          wp_writeBack_any (fun streams => ⟨streams, rfl⟩) fun _ _ => trivial
        refine wp_mono (wp_and (hflush ⟨hv, by omega⟩ hfile hnum) hstreams) ?_ fun _ _ he => he.1
        intro _ t ht
        obtain ⟨hq, streams, rfl⟩ := ht
        have hhit : (s.setStreams streams).entry file (s.desc i).pageNo = some i := by
          rw [← hfile]
          exact h.full i hv
        rw [hfile] at hq
        rw [wp_bind, wp_of_ok (remove_apply hhit), wp_modify]
        exact hq
  · intro hfile
    rw [wp_pure]
    exact hother fun _ => hfile

/-- The frames below `k` hold no page of `f` any more; otherwise `t` is like `s`, but for frames that
have been emptied. -/
structure Flushed (s : Sys D) (f k : Nat) (t : Sys D) : Prop where
  objects : t.objects = s.objects
  numBufs : t.numBufs = s.numBufs
  clockHand : t.clockHand = s.clockHand
  desc : ∀ j, t.desc j = s.desc j ∨ t.desc j = (s.desc j).clear
  entry : ∀ f' p', s.entry f' p' = none → t.entry f' p' = none
  gone : ∀ j < k, (t.desc j).valid = true → (t.desc j).file ≠ f

theorem Flushed.skip {f k : Nat} {t : Sys D} (h : Flushed s f k t)
    (hk : (t.desc k).valid = true → (t.desc k).file ≠ f) : Flushed s f (k + 1) t where
  objects := h.objects
  numBufs := h.numBufs
  clockHand := h.clockHand
  desc := h.desc
  entry := h.entry
  gone j hj := by
    rcases Nat.lt_succ_iff_lt_or_eq.mp hj with hj | rfl
    · exact h.gone j hj
    · exact hk

theorem Flushed.evict {f k : Nat} {t : Sys D} (h : Flushed s f k t)
    (streams : FileName → FStream D) :
    Flushed s f (k + 1) (((t.setStreams streams).dropEntry (t.desc k).file (t.desc k).pageNo).setDesc k
      BufDesc.clear) where
  objects := h.objects
  numBufs := h.numBufs
  clockHand := h.clockHand
  desc j := by
    rw [Sys.desc_setDesc]
    -- the frame of this round, and those before it
    split
    · next hj =>
        subst hj
        apply Or.inr
        show (t.desc j).clear = _
        rcases h.desc j with hj | hj
        · rw [hj]
        · rw [hj]
          rfl
    · exact h.desc j
  entry f' p' hnone := by
    rw [Sys.entry_setDesc, Sys.entry_dropEntry]
    split
    · rfl
    · exact h.entry f' p' hnone
  gone j hj := by
    rw [Sys.desc_setDesc]
    split
    · intro hv
      cases hv
    · next hjk => exact h.gone j (by omega)

/-- **The rule of `flushFile`**, for an invariant that writing a page back and emptying its frame
keeps. -/
theorem wp_flushFile {I : Sys D → Prop} (hf : s.objects file = some object) (start : I s)
    (table : ∀ t, I t → TableInv t)
    (keep : ∀ t i, I t → t.objects = s.objects → Victim t i →
      (t.frame i).pageNumber = (t.desc i).pageNo →
      wp (writeBack i)
        (fun _ u => I ((u.dropEntry (t.desc i).file (t.desc i).pageNo).setDesc i BufDesc.clear))
        (onThrow fun e u => I u ∧ e.IsInvalidPage) t) :
    wp (flushFile file) (fun _ t => I t ∧ Flushed s file s.numBufs t)
      (onThrow fun e t => I t ∧ t.objects = s.objects ∧ ∀ name p, e ≠ .hashNotFound name p) s := by
  rw [flushFile, wp_bind, wp_get]
  apply wp_forRange (I := fun k t => I t ∧ Flushed s file k t)
  · exact ⟨start, rfl, rfl, rfl, fun _ => Or.inl rfl, fun _ _ h => h, fun _ hj => absurd hj (Nat.not_lt_zero _)⟩
  · intro i _ t ht
    obtain ⟨ht, hflushed⟩ := ht
    have hf' : t.objects file = some object := by
      rw [hflushed.objects]
      exact hf
    apply wp_flushFrame hf' (table t ht)
    · -- a frame of another file, a pinned one, one that is out of order, and one that is written back
      intro hother
      exact ⟨ht, hflushed.skip hother⟩
    · intro _ _
      exact ⟨ht, hflushed.objects, fun _ _ h => by cases h⟩
    · intro _ _
      exact ⟨ht, hflushed.objects, fun _ _ h => by cases h⟩
    · intro hv _ hnum
      have hstreams : wp (writeBack i) (fun _ u => ∃ streams, u = t.setStreams streams)
          (onThrow fun _ u => u.objects = t.objects) t := by
        apply wp_writeBack_any
        · exact fun streams => ⟨streams, rfl⟩
        · intro e streams
          cases e with
          | throw x => rfl
          | _ => trivial
      refine wp_mono (wp_and (keep t i ht hflushed.objects hv hnum) hstreams) ?_ ?_
      · intro _ u hu
        obtain ⟨hinv, streams, rfl⟩ := hu
        exact ⟨hinv, hflushed.evict streams⟩
      · intro e u he
        cases e with
        | throw x =>
            obtain ⟨⟨hinv, p, name, rfl⟩, hobj⟩ := he
            exact ⟨hinv, hobj.trans hflushed.objects, fun _ _ h => by cases h⟩
        | _ => trivial

/-! ## Invariants

The frame that `allocBuf` returns is between two states: it is not free, since its descriptor may still name the
page that has gone, and it is not in use. `Taken` says that the invariant holds once the frame is cleared, and
setting the descriptor for the new page does as if it had been (`load_cleared`).
-/

/-- What `allocBuf` and `flushFile` do to a pool keeps `I`. -/
structure Evictable (I : Sys D → Prop) : Prop where
  table : ∀ t, I t → TableInv t
  live : ∀ t i, I t → (t.desc i).valid = true → (t.objects (t.desc i).file).isSome = true
  scanned : ∀ t u, I t → Scanned t u → TableInv u → I u
  evict : ∀ t i, I t → Victim t i → (t.desc i).dirty = false →
    I ((t.dropEntry (t.desc i).file (t.desc i).pageNo).setDesc i BufDesc.clear)
  writeBack : ∀ t i, I t → Victim t i → (t.frame i).pageNumber = (t.desc i).pageNo →
    wp (writeBack i)
      (fun _ u => I ((u.dropEntry (t.desc i).file (t.desc i).pageNo).setDesc i BufDesc.clear))
      (onThrow fun e u => I u ∧ e.IsInvalidPage) t

/-- Frame `i` of `t` has been taken for a page that `s` may not have: once it is cleared, the
invariant holds. A frame that was in use may not be cleared yet. -/
structure Taken (I : Sys D → Prop) (s : Sys D) (i : Nat) (t : Sys D) : Prop where
  cleared : I (t.setDesc i BufDesc.clear)
  lt : i < t.numBufs
  objects : t.objects = s.objects
  entry : ∀ f p, s.entry f p = none → t.entry f p = none

theorem Taken.settled {I : Sys D → Prop} {i : Nat} {t : Sys D} (h : Taken I s i t)
    (hv : (t.desc i).clear = t.desc i) : I t := by
  have hinv := h.cleared
  rw [Sys.setDesc_eq_self _ hv] at hinv
  exact hinv

/-- Setting a descriptor leaves nothing of what was in it. -/
theorem load_cleared (t : Sys D) (i f p : Nat) (pg : Page D) :
    ((t.setDesc i BufDesc.clear).setFrame i pg).setDesc i (BufDesc.set f p) =
      (t.setFrame i pg).setDesc i (BufDesc.set f p) := by
  show ((t.setFrame i pg).setDesc i BufDesc.clear).setDesc i (BufDesc.set f p) = _
  rw [Sys.setDesc_setDesc]
  rfl

/-- A file throws nothing but `InvalidPageException`, and changes nothing but the streams. -/
theorem wp_onFile_throws {α : Type} {x : FileObject → Prog Exn (FStream D) α} {f : Nat}
    (hx : ∀ o, Throws Exn.IsInvalidPage (x o)) :
    wp (onFile f x) (fun _ u => ∃ streams, u = s.setStreams streams)
      (onThrow fun e u => e.IsInvalidPage ∧ ∃ streams, u = s.setStreams streams) s := by
  cases ho : s.objects f with
  | none =>
      rw [wp_onFile_dangling ho]
      trivial
  | some o =>
      rw [wp_onFile ho]
      refine wp_mono (hx o _) ?_ ?_
      · intro a st _
        exact ⟨_, rfl⟩
      · intro e st he
        cases e with
        | throw x => exact ⟨he, _, rfl⟩
        | _ => trivial

theorem allocatePage_throws [PageData D] (fn : FileName) :
    Throws Exn.IsInvalidPage (P2.File.allocatePage (D := D) fn) := by
  apply (PageFile.allocatePage_throws fn).bind
  intro r
  exact Throws.pure r.2

/-- **`allocBuf` under an invariant.** -/
theorem allocBuf_taken {I : Sys D → Prop} (hI : Evictable I) (h : I s) :
    wp allocBuf
      (fun i t => Taken I s i t ∧ ((t.desc i).valid = false → (t.desc i).clear = t.desc i))
      (onThrow fun e t => I t ∧ t.objects = s.objects ∧ ∀ name p, e ≠ .hashNotFound name p) s := by
  apply wp_allocBuf (hI.table s h)
  · intro t ht hinv
    exact ⟨hI.scanned s t h ht hinv, ht.objects, fun _ _ h => by cases h⟩
  · -- the frame is free already
    intro t ht hinv hv
    have hclear := hinv.pool.invalid _ hv
    refine ⟨⟨?_, hinv.pool.hand, ht.objects, ?_⟩, fun _ => hclear⟩
    · rw [Sys.setDesc_eq_self _ hclear]
      exact hI.scanned s t h ht hinv
    · intro f p hnone
      rw [ht.entry]
      exact hnone
  · -- a clean page is evicted
    intro t ht hinv hv hclean
    refine ⟨⟨hI.evict t _ (hI.scanned s t h ht hinv) hv hclean, hinv.pool.hand, ht.objects, ?_⟩, ?_⟩
    · intro f p hnone
      rw [Sys.entry_dropEntry, ht.entry, hnone]
      split <;> rfl
    · intro hinvalid
      exact absurd hv.valid (by rw [Sys.desc_dropEntry] at hinvalid; simp [hinvalid])
  · -- a dirty page is flushed with its file
    intro t ht hinv hv hdirty
    have ht' := hI.scanned s t h ht hinv
    obtain ⟨object, hobject⟩ := Option.isSome_iff_exists.mp (hI.live t _ ht' hv.valid)
    refine wp_mono (wp_flushFile hobject ht' hI.table fun u i hu _ huv => hI.writeBack u i hu huv) ?_ ?_
    · intro _ u hu
      obtain ⟨hu, hflushed⟩ := hu
      have htable := hI.table u hu
      -- the frame the clock stopped at has been emptied with the others of its file
      have hgone : (u.desc t.clockHand).valid = false := by
        rcases hflushed.desc t.clockHand with hdesc | hdesc
        · cases huv : (u.desc t.clockHand).valid with
          | false => rfl
          | true =>
              have hne := hflushed.gone t.clockHand hinv.pool.hand huv
              rw [hdesc] at hne
              exact absurd rfl hne
        · rw [hdesc]
          rfl
      have hclear := htable.pool.invalid _ hgone
      have hclean : (u.desc t.clockHand).dirty = false := by
        rw [← hclear]
        rfl
      have hsame : u.setDesc t.clockHand (fun d => { d with dirty := false }) = u := by
        apply Sys.setDesc_eq_self
        rw [← hclean]
      rw [hsame]
      refine ⟨hflushed.clockHand, htable.pool.frameNo _, ⟨?_, ?_, ?_, ?_⟩, fun _ => hclear⟩
      · rw [Sys.setDesc_eq_self _ hclear]
        exact hu
      · rw [hflushed.numBufs]
        exact hinv.pool.hand
      · exact hflushed.objects.trans ht.objects
      · intro f p hnone
        apply hflushed.entry
        rw [ht.entry]
        exact hnone
    · intro e u he
      exact onThrow_mono he fun x hx => ⟨hx.1, hx.2.1.trans ht.objects, hx.2.2⟩

/-! ## The rules of the other calls

A page that has an entry never asks for a frame. For another one the call goes through `allocBuf`, the file and the
hash table, and may end at each of them.
-/

/-- A page that has an entry is pinned once more. -/
theorem readPage_hit [PageData D] {i : Nat} (h : s.entry file pageNo = some i) :
    readPage file pageNo s =
      (.ok i, s.setDesc i fun d => { d with refbit := true, pinCnt := d.pinCnt + 1 }) := by
  have hwp : wp (readPage file pageNo) (fun a t => a = i ∧
      t = s.setDesc i fun d => { d with refbit := true, pinCnt := d.pinCnt + 1 })
      (fun _ _ => False) s := by
    rw [readPage, wp_tryCatch, wp_bind, wp_of_ok (lookup_apply h)]
    exact ⟨rfl, rfl⟩
  obtain ⟨a, t, hr, rfl, rfl⟩ := exists_ok_of_wp hwp
  exact hr

/-- **The rule of `readPage`**, under an invariant: a page that has an entry is pinned once more; for
another one a frame is taken, the file may throw, and otherwise the frame is filled and entered. -/
theorem wp_readPage [PageData D] {I : Sys D → Prop} {Q : Nat → Sys D → Prop} (hI : Evictable I)
    (h : I s) (hf : s.objects file = some object)
    (hhit : ∀ i, s.entry file pageNo = some i →
      Q i (s.setDesc i fun d => { d with refbit := true, pinCnt := d.pinCnt + 1 }))
    (hfull : ∀ e t, allocBuf s = (.error e, t) → E e t)
    (hthrow : ∀ i t e u, s.entry file pageNo = none → allocBuf s = (.ok i, t) → Taken I s i t →
      ((t.desc i).valid = false → (t.desc i).clear = t.desc i) →
      onFile file (fun file => PageFile.readPage file.filename pageNo) t = (.error e, u) → E e u)
    (hload : ∀ i t pg streams, Taken I s i t →
      onFile file (fun file => PageFile.readPage file.filename pageNo) t =
        (.ok pg, t.setStreams streams) → t.entry file pageNo = none →
      Q i ((((t.setStreams streams).setFrame i pg).setDesc i (BufDesc.set file pageNo)).putEntry file
        pageNo i)) :
    wp (readPage file pageNo) Q E s := by
  cases hentry : s.entry file pageNo with
  | some i =>
      rw [wp_of_ok (readPage_hit hentry)]
      exact hhit i hentry
  | none =>
      rw [readPage, wp_tryCatch, wp_bind, wp_of_error (lookup_missing hf hentry)]
      show wp (allocBuf >>= _) Q E s
      have hspec := allocBuf_taken hI h
      -- a miss: a frame is taken, or there is none
      rcases hr : allocBuf s with ⟨e | i, t⟩
      · rw [wp_bind, wp_of_error hr]
        exact hfull e t hr
      · rw [wp_of_ok hr] at hspec
        obtain ⟨htaken, hfree⟩ := hspec
        rw [wp_bind, wp_of_ok hr, wp_bind]
        have hfile := wp_onFile_throws (s := t) (f := file)
          fun o => PageFile.readPage_throws o.filename pageNo
        -- the file has the page, or throws
        rcases hr' : onFile file (fun o => PageFile.readPage o.filename pageNo) t with ⟨e | pg, u⟩
        · rw [wp_of_error hr']
          exact hthrow i t e u hentry hr htaken hfree hr'
        · rw [wp_of_ok hr'] at hfile ⊢
          obtain ⟨streams, rfl⟩ := hfile
          have hnone := htaken.entry file pageNo hentry
          have hinsert := insert_apply (s := (t.setStreams streams).setFrame i pg) (i := i) hnone
          rw [wp_bind, wp_modify, wp_bind, wp_of_ok hinsert]
          exact hload i t pg streams htaken hr' hnone

/-- **The rule of `allocPage`**, under an invariant. The page the file hands out may have an entry
already. -/
theorem wp_allocPage [PageData D] {I : Sys D → Prop} {Q : Nat × Nat → Sys D → Prop}
    (hI : Evictable I) (h : I s) (hf : s.objects file = some object)
    (hfull : ∀ e t, allocBuf s = (.error e, t) → E e t)
    (hthrow : ∀ i t e u, allocBuf s = (.ok i, t) → Taken I s i t →
      ((t.desc i).valid = false → (t.desc i).clear = t.desc i) →
      onFile file (fun file => P2.File.allocatePage file.filename) t = (.error e, u) → E e u)
    (hpresent : ∀ i t pg streams j, allocBuf s = (.ok i, t) → Taken I s i t →
      onFile file (fun file => P2.File.allocatePage file.filename) t =
        (.ok pg, t.setStreams streams) → t.entry file pg.pageNumber = some j →
      E (.throw (.hashAlreadyPresent object.filename pg.pageNumber j))
        (((t.setStreams streams).setFrame i pg).setDesc i (BufDesc.set file pg.pageNumber)))
    (hload : ∀ i t pg streams, Taken I s i t →
      onFile file (fun file => P2.File.allocatePage file.filename) t =
        (.ok pg, t.setStreams streams) → t.entry file pg.pageNumber = none →
      Q (pg.pageNumber, i) ((((t.setStreams streams).setFrame i pg).setDesc i
        (BufDesc.set file pg.pageNumber)).putEntry file pg.pageNumber i)) :
    wp (allocPage file) Q E s := by
  have hspec := allocBuf_taken hI h
  rcases hr : allocBuf s with ⟨e | i, t⟩
  · rw [allocPage, wp_bind, wp_of_error hr]
    exact hfull e t hr
  · rw [wp_of_ok hr] at hspec
    obtain ⟨htaken, hfree⟩ := hspec
    rw [allocPage, wp_bind, wp_of_ok hr, wp_bind]
    have hfile := wp_onFile_throws (s := t) (f := file) fun o => allocatePage_throws o.filename
    -- the file allocates a page, or throws
    rcases hr' : onFile file (fun o => P2.File.allocatePage o.filename) t with ⟨e | pg, u⟩
    · rw [wp_of_error hr']
      exact hthrow i t e u hr htaken hfree hr'
    · rw [wp_of_ok hr'] at hfile ⊢
      obtain ⟨streams, rfl⟩ := hfile
      rw [wp_bind, wp_modify, wp_bind, wp_modify, wp_bind]
      cases hentry : t.entry file pg.pageNumber with
      | none =>
          have hinsert := insert_apply (s := ((t.setStreams streams).setFrame i pg).setDesc i
            (BufDesc.set file pg.pageNumber)) (i := i) hentry
          rw [wp_of_ok hinsert]
          exact hload i t pg streams htaken hr' hentry
      -- the table has an entry for the new page already, from the time before it was deleted
      | some j =>
          have hf' : (((t.setStreams streams).setFrame i pg).setDesc i
              (BufDesc.set file pg.pageNumber)).objects file = some object := by
            show t.objects file = some object
            rw [htaken.objects]
            exact hf
          have hinsert := insert_present (i := i) hf' hentry
          rw [wp_of_error hinsert]
          exact hpresent i t pg streams j hr htaken hr' hentry

/-- Giving back a pin on a page that has no entry does nothing. -/
theorem wp_unPinPage {Q : Unit → Sys D → Prop} {dirty : Bool} (hf : s.objects file = some object)
    (hpool : PoolInv s) (hnone : s.entry file pageNo = none → Q () s)
    (hzero : ∀ i, s.entry file pageNo = some i → (s.desc i).pinCnt = 0 →
      E (.throw (.pageNotPinned object.filename pageNo i)) s)
    (hpin : ∀ i, s.entry file pageNo = some i → (s.desc i).pinCnt ≠ 0 →
      Q () (s.setDesc i fun d => { d with dirty := dirty || d.dirty, pinCnt := d.pinCnt - 1 })) :
    wp (unPinPage file pageNo dirty) Q E s := by
  rw [unPinPage, wp_tryCatch, wp_bind]
  cases hentry : s.entry file pageNo with
  | none =>
      rw [wp_of_error (lookup_missing hf hentry)]
      exact hnone hentry
  | some i =>
      obtain ⟨-, hfile, hp⟩ := hpool.entry file pageNo i hentry
      rw [wp_of_ok (lookup_apply hentry), wp_bind, wp_get, wp_ite]
      constructor
      · intro h0
        have hf' : s.objects (s.desc i).file = some object := by
          rw [hfile]
          exact hf
        rw [wp_bind, wp_of_ok (filename_apply hf'), wp_throw, hp]
        exact hzero i hentry h0
      · intro h0
        exact hpin i hentry h0

theorem wp_disposePage [PageData D] {Q : Unit → Sys D → Prop} (hf : s.objects file = some object)
    (hpool : PoolInv s)
    (hpinned : ∀ i, s.entry file pageNo = some i → (s.desc i).pinCnt ≠ 0 →
      E (.throw (.pagePinned object.filename pageNo i)) s)
    (hnone : s.entry file pageNo = none →
      wp (onFile file fun file => PageFile.deletePage file.filename pageNo) Q E s)
    (hsome : ∀ i, s.entry file pageNo = some i → (s.desc i).pinCnt = 0 →
      wp (onFile file fun file => PageFile.deletePage file.filename pageNo) Q E
        ((s.dropEntry file pageNo).setDesc i BufDesc.clear)) :
    wp (disposePage file pageNo) Q E s := by
  rw [disposePage, wp_bind, dropPage, wp_tryCatch, wp_bind]
  cases hentry : s.entry file pageNo with
  | none =>
      rw [wp_of_error (lookup_missing hf hentry)]
      exact hnone hentry
  | some i =>
      obtain ⟨-, hfile, hp⟩ := hpool.entry file pageNo i hentry
      rw [wp_of_ok (lookup_apply hentry), wp_bind, wp_get, wp_ite]
      constructor
      · intro hpin
        have hf' : s.objects (s.desc i).file = some object := by
          rw [hfile]
          exact hf
        rw [wp_bind, wp_of_ok (filename_apply hf'), wp_throw, hp]
        exact hpinned i hentry (by omega)
      · intro hpin
        have hhit : (s.setDesc i BufDesc.clear).entry file pageNo = some i := hentry
        rw [wp_bind, wp_modify, wp_of_ok (remove_apply hhit)]
        exact hsome i hentry (by omega)

end Rules

end BufMgr

end CS640.Badger.P2
