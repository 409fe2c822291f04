import CS640.Badger.Buffer.Invariant
import Mathlib.Algebra.Group.Nat.Defs

/-!
# The buffer manager of p3

`BufMgr` of `p3/btree/src/buffer.cpp`, and a rule for each of its calls, which says once what the call
can do: `wp_allocBuf` has every way `allocBuf` can end, with the state it leaves. A pointer to a page
is the number of its frame.

The rules are stated with one hypothesis for each way a call can go, in the order of the source, so that a proof
about a call is a case analysis and never an unfolding. Where the ends of a call depend on an invariant there is a
second rule under it (`wp_allocBuf_hashed`, `wp_flushFrame`).

Unlike the manager of p2, this one looks a page up by asking the hash table and catching its exception, takes the
evicted page out of the table before it writes it, and enters a page after it has been read.
-/

namespace CS640.Badger.P3

open CS640.Lib Prog
open CS640.Badger.BufMgr

variable {D : Type}

namespace BufMgr

/-- The loop of `allocBuf`, for the given number of rounds more. Returns `numScanned` and `found`. -/
def scan : (rounds numScanned : Nat) → Prog Exn (Sys D) (Nat × Bool)
  | 0, numScanned => pure (numScanned, false)
  | rounds + 1, numScanned => do
    advanceClock
    let s ← get
    let tmpbuf := s.desc s.clockHand
    if tmpbuf.valid = false then pure (numScanned + 1, false)
    else if tmpbuf.refbit = false then
      if tmpbuf.pinCnt = 0 then do
        remove tmpbuf.file tmpbuf.pageNo
        pure (numScanned + 1, true)
      else scan rounds (numScanned + 1)
    else do
      modify (Sys.setDesc s.clockHand fun d => { d with refbit := false })
      scan rounds (numScanned + 1)

/-- Write frame `i` to its file if it is dirty. -/
def writeBack (i : Nat) : Prog Exn (Sys D) Unit := do
  let s ← get
  if (s.desc i).dirty = true then
    onFile (s.desc i).file fun file => file.writePage (s.desc i).pageNo (s.frame i)
  else pure ()

/-- `2*numBufs`, in 32 bits. -/
def scanBound (s : Sys D) : Nat := 2 * s.numBufs % 2 ^ 32

/-- `BufMgr::allocBuf`. -/
def allocBuf : Prog Exn (Sys D) Nat := do
  let s ← get
  let (numScanned, found) ← scan (scanBound s) 0
  if found = false ∧ numScanned ≥ scanBound s then throw .bufferExceeded
  else do
    let s ← get
    writeBack s.clockHand
    modify (Sys.setDesc s.clockHand BufDesc.clear)
    pure s.clockHand

/-- `BufMgr::readPage`. -/
def readPage [PageData D] (file pageNo : Nat) : Prog Exn (Sys D) Nat :=
  tryCatch
    (do
      let frameNo ← lookup file pageNo
      modify (Sys.setDesc frameNo fun d => { d with refbit := true, pinCnt := d.pinCnt + 1 })
      pure frameNo)
    (onHashNotFound do
      let frameNo ← allocBuf
      let page ← onFile file fun file => file.readPage pageNo
      modify (Sys.setFrame frameNo page)
      modify (Sys.setDesc frameNo (BufDesc.set file pageNo))
      insert file pageNo frameNo
      pure frameNo)

/-- `BufMgr::unPinPage`. -/
def unPinPage (file pageNo : Nat) (dirty : Bool) : Prog Exn (Sys D) Unit := do
  let frameNo ← lookup file pageNo
  modify (Sys.setDesc frameNo fun d => { d with dirty := dirty || d.dirty })
  let s ← get
  if (s.desc frameNo).pinCnt = 0 then do
    let name ← filename file
    throw (.pageNotPinned name pageNo frameNo)
  else
    modify (Sys.setDesc frameNo fun d => { d with pinCnt := d.pinCnt - 1 })

/-- One round of the loop of `flushFile`. -/
def flushFrame (file i : Nat) : Prog Exn (Sys D) Unit := do
  let s ← get
  let tmpbuf := s.desc i
  if tmpbuf.valid = true ∧ tmpbuf.file = file then
    if tmpbuf.pinCnt > 0 then do
      let name ← filename file
      throw (.pagePinned name tmpbuf.pageNo tmpbuf.frameNo)
    else do
      writeBack i
      modify (Sys.setDesc i fun d => { d with dirty := false })
      remove file tmpbuf.pageNo
      modify (Sys.setDesc i BufDesc.clear)
  else if tmpbuf.valid = false ∧ tmpbuf.file = file then
    throw (.badBuffer tmpbuf.frameNo tmpbuf.dirty tmpbuf.valid tmpbuf.refbit)
  else pure ()

/-- `BufMgr::flushFile`. -/
def flushFile (file : Nat) : Prog Exn (Sys D) Unit := do
  let s ← get
  forRange s.numBufs (flushFrame file)

/-- `BufMgr::disposePage`. -/
def disposePage [PageData D] (file pageNo : Nat) : Prog Exn (Sys D) Unit := do
  let frameNo ← lookup file pageNo
  modify (Sys.setDesc frameNo BufDesc.clear)
  remove file pageNo
  onFile file fun file => file.deletePage pageNo

/-- `BufMgr::allocPage`. Returns the page number and the frame. -/
def allocPage [PageData D] (file : Nat) : Prog Exn (Sys D) (Nat × Nat) := do
  let frameNo ← allocBuf
  let (pageNo, page) ← onFile file FileObject.allocatePage
  modify (Sys.setFrame frameNo page)
  modify (Sys.setDesc frameNo (BufDesc.set file pageNo))
  insert file pageNo frameNo
  pure (pageNo, frameNo)

/-- `BufMgr::~BufMgr`, up to the release of the memory. -/
def destroy : Prog Exn (Sys D) Unit := do
  let s ← get
  forRange s.numBufs fun i => do
    let s ← get
    if (s.desc i).valid = true then writeBack i else pure ()

/-- Make a call on the `BufMgr` of p3. -/
def call [PageData D] : BufOp → Prog Exn (Sys D) BufReply
  | .readPage file pageNo => do
    let frameNo ← BufMgr.readPage file pageNo
    pure (.page pageNo frameNo)
  | .allocPage file => do
    let (pageNo, frameNo) ← BufMgr.allocPage file
    pure (.page pageNo frameNo)
  | .unPinPage file pageNo dirty => do
    BufMgr.unPinPage file pageNo dirty
    pure .done
  | .flushFile file => do
    BufMgr.flushFile file
    pure .done
  | .disposePage file pageNo => do
    BufMgr.disposePage file pageNo
    pure .done

/-! ## The clock

`scan` can only end in three ways, and it has changed nothing but the clock and referenced bits by then. The
induction on its rounds is here, and only here.
-/

/-- `advanceClock`. -/
def tick (s : Sys D) : Sys D := s.setClockHand ((s.clockHand + 1) % s.numBufs)

/-- One round of the loop of `allocBuf`, at the frame that the clock comes to. -/
theorem wp_scan_succ {Q : Nat × Bool → Sys D → Prop} {E : Exit Exn → Sys D → Prop} {rounds n : Nat}
    {s : Sys D} {i : Nat} (hi : (s.clockHand + 1) % s.numBufs = i)
    (hfree : (s.desc i).valid = false → Q (n + 1, false) (tick s))
    (hvictim : Victim s i → (s.desc i).refbit = false →
      wp (remove (s.desc i).file (s.desc i).pageNo) (fun _ u => Q (n + 1, true) u) E (tick s))
    (hpinned : (s.desc i).valid = true → (s.desc i).refbit = false → (s.desc i).pinCnt ≠ 0 →
      wp (scan rounds (n + 1)) Q E (tick s))
    (hpass : (s.desc i).valid = true → (s.desc i).refbit = true →
      wp (scan rounds (n + 1)) Q E ((tick s).setDesc i fun d => { d with refbit := false })) :
    wp (scan (rounds + 1) n) Q E s := by
  subst hi
  rw [scan, wp_bind]
  show wp (do
    let s ← get
    _) Q E (tick s)
  rw [wp_bind, wp_get]
  dsimp only
  rw [wp_ite]
  -- The frame is not in use: `allocBuf` has it.
  refine ⟨fun hv => hfree hv, fun hv => ?_⟩
  have hv := eq_true_of_ne_false hv
  rw [wp_ite]
  constructor
  · -- In use, and not referenced since the clock was here: taken, unless it is pinned.
    intro hbit
    rw [wp_ite]
    constructor
    · intro hpin
      rw [wp_bind]
      exact hvictim ⟨hv, hpin⟩ hbit
    · exact fun hpin => hpinned hv hbit hpin
  · -- Referenced: the bit goes, and the clock goes on.
    intro hbit
    rw [wp_bind, wp_modify]
    exact hpass hv (eq_true_of_ne_false hbit)

/-- The rule of `scan`: the clock stops because it has come round often enough, at a frame that is
not in use, or at one that may be taken, whose page it then takes out of the hash table. -/
theorem wp_scan {Q : Nat × Bool → Sys D → Prop} {E : Exit Exn → Sys D → Prop} :
    ∀ (rounds n : Nat) (s : Sys D), s.clockHand < s.numBufs →
      (∀ t, Scanned s t → t.clockHand < t.numBufs → Q (n + rounds, false) t) →
      (∀ t k, Scanned s t → t.clockHand < t.numBufs → (t.desc t.clockHand).valid = false →
        Q (k, false) t) →
      (∀ t, Scanned s t → t.clockHand < t.numBufs → Victim t t.clockHand →
        wp (remove (t.desc t.clockHand).file (t.desc t.clockHand).pageNo)
          (fun _ u => ∀ k, Q (k, true) u) E t) →
      wp (scan rounds n) Q E s := by
  intro rounds
  induction rounds with
  -- No round is left.
  | zero =>
      intro n s hhand hend _ _
      exact hend s (Scanned.refl s) hhand
  | succ rounds ih =>
      intro n s hlt hend hfree hvictim
      -- The clock moves first, and each branch goes on from there. What the rest of the loop comes to is moved from
      -- the clock of `s` in any case.
      have hst : Scanned s (tick s) := scanned_tick s _
      have hhand : (tick s).clockHand < (tick s).numBufs := Nat.mod_lt _ (Nat.zero_lt_of_lt hlt)
      have hlater : ∀ t, Scanned s t → t.clockHand < t.numBufs → wp (scan rounds (n + 1)) Q E t := by
        intro t ht hth
        apply ih (n + 1) t hth
        · intro u hu huh
          rw [show n + 1 + rounds = n + (rounds + 1) by omega]
          exact hend u (ht.trans hu) huh
        · exact fun u k hu huh hui => hfree u k (ht.trans hu) huh hui
        · exact fun u hu huh huv => hvictim u (ht.trans hu) huh huv
      apply wp_scan_succ rfl
      · exact fun hv => hfree (tick s) _ hst hhand hv
      · intro hv _
        exact wp_mono (hvictim (tick s) hst hhand ⟨hv.valid, hv.unpinned⟩) (fun _ u hu => hu _)
          fun _ _ he => he
      · exact fun _ _ _ => hlater _ hst hhand
      · exact fun hv _ => hlater _ (hst.trans (scanned_clearRefbit (tick s) _ hv)) hhand

/-- What `scan` ends in, as a fact about its result. -/
theorem scan_spec {s : Sys D} (hhand : s.clockHand < s.numBufs) (rounds : Nat) :
    wp (scan rounds 0)
      (fun r u => r.2 = false ∧ Scanned s u ∧ u.clockHand < u.numBufs ∧
          ((u.desc u.clockHand).valid = false ∨ r.1 = rounds) ∨
        r.2 = true ∧ ∃ t, Scanned s t ∧ t.clockHand < t.numBufs ∧ Victim t t.clockHand ∧
          remove (t.desc t.clockHand).file (t.desc t.clockHand).pageNo t = (.ok (), u))
      (fun e u => ∃ t, Scanned s t ∧ t.clockHand < t.numBufs ∧ Victim t t.clockHand ∧
        remove (t.desc t.clockHand).file (t.desc t.clockHand).pageNo t = (.error e, u)) s := by
  apply wp_scan rounds 0 s hhand
  · -- The last round is over, the clock has stopped at a free frame, or at a victim.
    intro t ht hh
    exact Or.inl ⟨rfl, ht, hh, Or.inr (Nat.zero_add _)⟩
  · intro t k ht hh hv
    exact Or.inl ⟨rfl, ht, hh, Or.inl hv⟩
  · intro t ht hh hv
    unfold wp
    split
    · next hr => exact fun k => Or.inr ⟨rfl, t, ht, hh, hv, hr⟩
    · next hr => exact ⟨t, ht, hh, hv, hr⟩

/-- **The rule of `allocBuf`.** The clock has come round in vain, or stops at a frame that is not in
use, or takes the page of a frame out of the hash table, to write it back. -/
theorem wp_allocBuf {Q : Nat → Sys D → Prop} {E : Exit Exn → Sys D → Prop} {s : Sys D}
    (h : PoolInv s)
    (hfull : ∀ t k, Scanned s t → PoolInv t → scan (scanBound s) 0 s = (.ok (k, false), t) →
      scanBound s ≤ k → E (.throw .bufferExceeded) t)
    (hfree : ∀ t, Scanned s t → PoolInv t → (t.desc t.clockHand).valid = false → Q t.clockHand t)
    (hmissing : ∀ t e u, Scanned s t → PoolInv t → Victim t t.clockHand →
      remove (t.desc t.clockHand).file (t.desc t.clockHand).pageNo t = (.error e, u) → E e u)
    (hvictim : ∀ t k u, Scanned s t → PoolInv t → Victim t t.clockHand →
      remove (t.desc t.clockHand).file (t.desc t.clockHand).pageNo t = (.ok (), u) →
      scan (scanBound s) 0 s = (.ok (k, true), u) → u.clockHand = t.clockHand →
      wp (writeBack t.clockHand)
        (fun _ u => Q t.clockHand (u.setDesc t.clockHand BufDesc.clear)) E u) :
    wp allocBuf Q E s := by
  have hspec := scan_spec h.hand (scanBound s)
  rw [allocBuf, wp_bind, wp_get]
  -- By what the loop ended in. It may have thrown: the page of the victim was not in the table.
  rcases hr : scan (scanBound s) 0 s with ⟨e | ⟨k, found⟩, u⟩
  · rw [wp_of_error hr] at hspec
    obtain ⟨t, ht, hhand, hv, hremove⟩ := hspec
    rw [wp_bind, wp_of_error hr]
    exact hmissing t e u ht (h.scanned ht hhand) hv hremove
  · rw [wp_of_ok hr] at hspec
    rw [wp_bind, wp_of_ok hr]
    rcases hspec with ⟨hfound, hu, hhand, hend⟩ | ⟨hfound, t, ht, hhand, hv, hremove⟩
    · -- Without a victim: the rounds are used up, or the frame is free, and clearing it changes nothing.
      obtain rfl : found = false := hfound
      have hinv := h.scanned hu hhand
      rw [wp_ite]
      refine ⟨fun hk => hfull u k hu hinv hr hk.2, fun hk => ?_⟩
      have hvalid : (u.desc u.clockHand).valid = false := by
        rcases hend with hv | hend
        · exact hv
        · exact absurd ⟨rfl, Nat.le_of_eq hend.symm⟩ hk
      have hclear := hinv.invalid _ hvalid
      have hdirty : (u.desc u.clockHand).dirty = false := by
        rw [← hclear]
        rfl
      rw [wp_bind, wp_get, wp_bind, writeBack, wp_bind, wp_get, hdirty, if_neg Bool.false_ne_true,
        wp_pure, wp_bind, wp_modify, wp_pure, Sys.setDesc_eq_self _ hclear]
      exact hfree u hu hinv hvalid
    · -- With a victim, whose page is written back from the frame where the clock stands.
      obtain rfl : found = true := hfound
      have hclock : u.clockHand = t.clockHand := by
        have hspec : wp (remove (t.desc t.clockHand).file (t.desc t.clockHand).pageNo) _ _ t :=
          remove_clockHand
        rw [wp_of_ok hremove] at hspec
        exact hspec
      have hwp := hvictim t k u ht (h.scanned ht hhand) hv hremove hr hclock
      dsimp only
      rw [wp_ite]
      refine ⟨fun hf => absurd hf.1 (Ne.symm Bool.false_ne_true), fun _ => ?_⟩
      rw [wp_bind, wp_get, wp_bind, hclock]
      exact hwp

/-- **The rule of `allocBuf` where the hash table has the pages that nobody has pinned**: the page of the frame
that it takes is found there. -/
theorem wp_allocBuf_hashed {Q : Nat → Sys D → Prop} {E : Exit Exn → Sys D → Prop} {s : Sys D}
    (h : HashedInv s)
    (hfull : ∀ t k, Scanned s t → PoolInv t → scan (scanBound s) 0 s = (.ok (k, false), t) →
      scanBound s ≤ k → E (.throw .bufferExceeded) t)
    (hfree : ∀ t, Scanned s t → PoolInv t → (t.desc t.clockHand).valid = false → Q t.clockHand t)
    (hvictim : ∀ t k, Scanned s t → PoolInv t → Victim t t.clockHand →
      scan (scanBound s) 0 s =
        (.ok (k, true), t.dropEntry (t.desc t.clockHand).file (t.desc t.clockHand).pageNo) →
      wp (writeBack t.clockHand) (fun _ u => Q t.clockHand (u.setDesc t.clockHand BufDesc.clear)) E
        (t.dropEntry (t.desc t.clockHand).file (t.desc t.clockHand).pageNo)) :
    wp allocBuf Q E s := by
  have hentry : ∀ {t}, Scanned s t → PoolInv t → Victim t t.clockHand →
      t.entry (t.desc t.clockHand).file (t.desc t.clockHand).pageNo = some t.clockHand :=
    fun ht hinv hv => (h.scanned ht hinv).hashed _ hv.valid hv.unpinned
  apply wp_allocBuf h.pool hfull hfree
  · -- The table has the page, so `remove` cannot throw.
    intro t e u ht hinv hv hremove
    rw [remove_apply (hentry ht hinv hv)] at hremove
    cases hremove
  · intro t k u ht hinv hv hremove hscan _
    rw [remove_apply (hentry ht hinv hv)] at hremove
    cases hremove
    exact hvictim t k ht hinv hv hscan

/-! ## The rules of the other calls

One rule for each call. The functions of the `File` objects stay inside as `onFile`, for the caller to say what they
do.
-/

section Rules

variable {s : Sys D} {E : Exit Exn → Sys D → Prop} {file pageNo : Nat} {object : FileObject}

/-- A page that has an entry is pinned once more. -/
theorem readPage_hit [PageData D] {i : Nat} (h : s.entry file pageNo = some i) :
    readPage file pageNo s =
      (.ok i, s.setDesc i fun d => { d with refbit := true, pinCnt := d.pinCnt + 1 }) := by
  have hwp : wp (readPage file pageNo) (fun a t => a = i ∧
      t = s.setDesc i fun d => { d with refbit := true, pinCnt := d.pinCnt + 1 })
      (fun _ _ => False) s := by
    rw [readPage, wp_tryCatch, wp_bind, wp_of_ok (lookup_apply h)]
    exact ⟨rfl, rfl⟩
  obtain ⟨a, t, hr, rfl, rfl⟩ := exists_ok_of_wp hwp
  exact hr

/-- A page that has an entry is pinned once more; for another one a frame is taken, filled from the
file and entered. -/
theorem wp_readPage [PageData D] {Q : Nat → Sys D → Prop} (hf : s.objects file = some object)
    (hhit : ∀ i, s.entry file pageNo = some i →
      Q i (s.setDesc i fun d => { d with refbit := true, pinCnt := d.pinCnt + 1 }))
    (hmiss : s.entry file pageNo = none → wp allocBuf (fun i t =>
      wp (onFile file fun file => file.readPage pageNo)
        (fun page u => wp (insert file pageNo i) (fun _ => Q i) E
          ((u.setFrame i page).setDesc i (BufDesc.set file pageNo))) E t) E s) :
    wp (readPage file pageNo) Q E s := by
  cases hentry : s.entry file pageNo with
  | some i =>
      rw [wp_of_ok (readPage_hit hentry)]
      exact hhit i hentry
  | none =>
      -- The lookup throws, and the handler does the rest.
      rw [readPage, wp_tryCatch, wp_bind, wp_of_error (lookup_missing hf hentry)]
      show wp (allocBuf >>= _) Q E s
      rw [wp_bind]
      refine wp_mono (hmiss hentry) ?_ fun _ _ he => he
      intro i t ht
      rw [wp_bind]
      refine wp_mono ht ?_ fun _ _ he => he
      intro page u hu
      rw [wp_bind, wp_modify, wp_bind, wp_modify, wp_bind]
      exact hu

theorem wp_allocPage [PageData D] {Q : Nat × Nat → Sys D → Prop} (h : wp allocBuf (fun i t =>
      wp (onFile file FileObject.allocatePage)
        (fun r u => wp (insert file r.1 i) (fun _ => Q (r.1, i)) E
          ((u.setFrame i r.2).setDesc i (BufDesc.set file r.1))) E t) E s) :
    wp (allocPage file) Q E s := by
  rw [allocPage, wp_bind]
  refine wp_mono h ?_ fun _ _ he => he
  intro i t ht
  rw [wp_bind]
  refine wp_mono ht ?_ fun _ _ he => he
  intro r u hu
  rw [wp_bind, wp_modify, wp_bind, wp_modify, wp_bind]
  exact hu

theorem wp_unPinPage {Q : Unit → Sys D → Prop} {dirty : Bool} (hf : s.objects file = some object)
    (hnone : s.entry file pageNo = none →
      E (.throw (.hashNotFound object.filename pageNo)) s)
    (hzero : ∀ i, s.entry file pageNo = some i → (s.desc i).pinCnt = 0 →
      E (.throw (.pageNotPinned object.filename pageNo i))
        (s.setDesc i fun d => { d with dirty := dirty || d.dirty }))
    (hpin : ∀ i, s.entry file pageNo = some i → (s.desc i).pinCnt ≠ 0 →
      Q () (s.setDesc i fun d => { d with dirty := dirty || d.dirty, pinCnt := d.pinCnt - 1 })) :
    wp (unPinPage file pageNo dirty) Q E s := by
  rw [unPinPage, wp_bind]
  cases hentry : s.entry file pageNo with
  | none =>
      rw [wp_of_error (lookup_missing hf hentry)]
      exact hnone hentry
  | some i =>
      rw [wp_of_ok (lookup_apply hentry), wp_bind, wp_modify, wp_bind, wp_get]
      have hcnt : ((s.setDesc i fun d => { d with dirty := dirty || d.dirty }).desc i).pinCnt =
          (s.desc i).pinCnt := by
        rw [Sys.desc_setDesc, if_pos rfl]
      rw [hcnt, wp_ite]
      -- The dirty bit is set before the pin count is looked at.
      constructor
      · intro h0
        rw [wp_bind, wp_of_ok (filename_apply (by simpa using hf)), wp_throw]
        exact hzero i hentry h0
      · intro h0
        rw [wp_modify, Sys.setDesc_setDesc]
        exact hpin i hentry h0

/-- Writing a frame back changes nothing but the streams. -/
theorem wp_writeBack_any {Q : Unit → Sys D → Prop} {i : Nat}
    (hQ : ∀ streams, Q () (s.setStreams streams)) (hE : ∀ e streams, E e (s.setStreams streams)) :
    wp (writeBack i) Q E s := by
  rw [writeBack, wp_bind, wp_get, wp_ite]
  constructor
  · intro _
    exact wp_onFile_any (fun _ => hQ) hE
  · intro _
    exact hQ s.streams

/-- One round of `flushFile`, where the hash table has the page of every frame that is in use and not
pinned. -/
theorem wp_flushFrame {Q : Unit → Sys D → Prop} {i : Nat} (hf : s.objects file = some object)
    (hentry : (s.desc i).valid = true → (s.desc i).pinCnt = 0 →
      s.entry (s.desc i).file (s.desc i).pageNo = some i)
    (hother : (s.desc i).file ≠ file → Q () s)
    (hpinned : (s.desc i).valid = true → (s.desc i).file = file → 0 < (s.desc i).pinCnt →
      E (.throw (.pagePinned object.filename (s.desc i).pageNo (s.desc i).frameNo)) s)
    (hinvalid : (s.desc i).valid = false → (s.desc i).file = file →
      E (.throw (.badBuffer (s.desc i).frameNo (s.desc i).dirty (s.desc i).valid
        (s.desc i).refbit)) s)
    (hflush : Victim s i → (s.desc i).file = file → wp (writeBack i) (fun _ t =>
      Q () ((t.dropEntry file (s.desc i).pageNo).setDesc i BufDesc.clear)) E s) :
    wp (flushFrame file i) Q E s := by
  rw [flushFrame, wp_bind, wp_get]
  dsimp only
  rw [wp_ite]
  constructor
  · -- A frame of the file in use: pinned, or written back and cleared.
    rintro ⟨hv, hfile⟩
    rw [wp_ite]
    constructor
    · intro hpin
      rw [wp_bind, wp_of_ok (filename_apply hf), wp_throw]
      exact hpinned hv hfile hpin
    · intro hpin
      have hpin : (s.desc i).pinCnt = 0 := by omega
      rw [wp_bind]
      -- The entry is looked for after the page has been written, in a state that has other streams only.
      have hstreams : wp (writeBack i) (fun _ t => ∃ streams, t = s.setStreams streams)
          (fun _ _ => True) s :=
        wp_writeBack_any (fun streams => ⟨streams, rfl⟩) fun _ _ => trivial
      refine wp_mono (wp_and (hflush ⟨hv, hpin⟩ hfile) hstreams) ?_ fun _ _ he => he.1
      rintro _ t ⟨hq, streams, rfl⟩
      have hhit : ((s.setStreams streams).setDesc i fun d => { d with dirty := false }).entry file
          (s.desc i).pageNo = some i := by
        rw [← hfile]
        exact hentry hv hpin
      rw [wp_bind, wp_modify, wp_bind, wp_of_ok (remove_apply hhit), wp_modify,
        Sys.setDesc_dropEntry, Sys.setDesc_setDesc]
      exact hq
  · -- Not of the file, or not in use. A frame that is not in use makes the call throw if it has the file still.
    intro hnot
    rw [wp_ite]
    constructor
    · rintro ⟨hv, hfile⟩
      rw [wp_throw]
      exact hinvalid hv hfile
    · intro hnot'
      rw [wp_pure]
      apply hother
      intro hfile
      cases hv : (s.desc i).valid with
      | true => exact hnot ⟨hv, hfile⟩
      | false => exact hnot' ⟨hv, hfile⟩

theorem wp_disposePage [PageData D] {Q : Unit → Sys D → Prop} (hf : s.objects file = some object)
    (hnone : s.entry file pageNo = none → E (.throw (.hashNotFound object.filename pageNo)) s)
    (hsome : ∀ i, s.entry file pageNo = some i →
      wp (onFile file fun file => file.deletePage pageNo) Q E
        ((s.dropEntry file pageNo).setDesc i BufDesc.clear)) :
    wp (disposePage file pageNo) Q E s := by
  rw [disposePage, wp_bind]
  cases hentry : s.entry file pageNo with
  | none =>
      rw [wp_of_error (lookup_missing hf hentry)]
      exact hnone hentry
  | some i =>
      -- The descriptor has been cleared, but the entry is there.
      have hhit : (s.setDesc i BufDesc.clear).entry file pageNo = some i := hentry
      rw [wp_of_ok (lookup_apply hentry), wp_bind, wp_modify, wp_bind,
        wp_of_ok (remove_apply hhit)]
      exact hsome i hentry

end Rules

/-! ## What the calls keep

A predicate that every single change to a pool keeps, and every function of the files, is kept by the calls, whether
they return or throw. These are for facts that do not depend on the order of the changes.
-/

section Keep

variable {I : Sys D → Prop}

theorem writeBack_keeps (hwrite : ∀ f p pg, Keeps I (onFile f fun file => file.writePage p pg)) (i : Nat) :
    Keeps I (writeBack i) := by
  apply Keeps.get.bind
  intro s
  exact Keeps.ite (fun _ => hwrite _ _ _) fun _ => Keeps.pure _

theorem scan_keeps (hhand : ∀ s n, I s → I (s.setClockHand n)) (hdesc : ∀ s i g, I s → I (s.setDesc i g))
    (hdrop : ∀ s f p, I s → I (s.dropEntry f p)) (rounds : Nat) :
    ∀ numScanned, Keeps I (scan rounds numScanned) := by
  -- Over the rounds of the loop.
  induction rounds with
  | zero => exact fun _ => Keeps.pure _
  | succ rounds ih =>
      intro numScanned
      apply Keeps.bind
      · exact Keeps.get.bind fun s => Keeps.modify fun t ht => hhand t _ ht
      · intro _
        apply Keeps.get.bind
        intro s
        apply Keeps.ite
        · exact fun _ => Keeps.pure _
        · intro _
          apply Keeps.ite
          · intro _
            apply Keeps.ite
            · exact fun _ => (remove_keeps fun t ht => hdrop t _ _ ht).bind fun _ => Keeps.pure _
            · exact fun _ => ih _
          · exact fun _ => (Keeps.modify fun t ht => hdesc t _ _ ht).bind fun _ => ih _

theorem allocBuf_keeps (hhand : ∀ s n, I s → I (s.setClockHand n)) (hdesc : ∀ s i g, I s → I (s.setDesc i g))
    (hdrop : ∀ s f p, I s → I (s.dropEntry f p))
    (hwrite : ∀ f p pg, Keeps I (onFile f fun file => file.writePage p pg)) : Keeps I allocBuf := by
  apply Keeps.get.bind
  intro s
  apply (scan_keeps hhand hdesc hdrop _ _).bind
  rintro ⟨numScanned, found⟩
  -- All frames are pinned, or the page is written back and the descriptor cleared.
  apply Keeps.ite
  · exact fun _ => Keeps.throw _
  · intro _
    apply Keeps.get.bind
    intro t
    apply (writeBack_keeps hwrite _).bind
    intro _
    exact (Keeps.modify fun u hu => hdesc u _ _ hu).bind fun _ => Keeps.pure _

theorem unPinPage_keeps (hdesc : ∀ s i g, I s → I (s.setDesc i g)) (f p : Nat) (dirty : Bool) :
    Keeps I (unPinPage f p dirty) := by
  apply (lookup_keeps f p).bind
  intro i
  apply Keeps.bind
  · exact Keeps.modify fun t ht => hdesc t _ _ ht
  · intro _
    apply Keeps.get.bind
    intro s
    apply Keeps.ite
    · exact fun _ => (filename_keeps f).bind fun _ => Keeps.throw _
    · exact fun _ => Keeps.modify fun t ht => hdesc t _ _ ht

theorem flushFile_keeps (hdesc : ∀ s i g, I s → I (s.setDesc i g)) (hdrop : ∀ s f p, I s → I (s.dropEntry f p))
    (hwrite : ∀ f p pg, Keeps I (onFile f fun file => file.writePage p pg)) (f : Nat) :
    Keeps I (flushFile f) := by
  apply Keeps.get.bind
  intro s
  apply Keeps.forRange
  intro i
  apply Keeps.get.bind
  intro t
  apply Keeps.ite
  · -- A frame in use of the file, then the two branches that leave the pool alone.
    intro _
    apply Keeps.ite
    · exact fun _ => (filename_keeps f).bind fun _ => Keeps.throw _
    · intro _
      apply (writeBack_keeps hwrite i).bind
      intro _
      apply Keeps.bind
      · exact Keeps.modify fun u hu => hdesc u _ _ hu
      · intro _
        apply (remove_keeps fun u hu => hdrop u _ _ hu).bind
        exact fun _ => Keeps.modify fun u hu => hdesc u _ _ hu
  · intro _
    exact Keeps.ite (fun _ => Keeps.throw _) fun _ => Keeps.pure _

theorem disposePage_keeps [PageData D] (hdesc : ∀ s i g, I s → I (s.setDesc i g))
    (hdrop : ∀ s f p, I s → I (s.dropEntry f p))
    (hdelete : ∀ f p, Keeps I (onFile f fun file => file.deletePage p)) (f p : Nat) :
    Keeps I (disposePage f p) := by
  apply (lookup_keeps f p).bind
  intro i
  apply Keeps.bind
  · exact Keeps.modify fun t ht => hdesc t _ _ ht
  · intro _
    exact (remove_keeps fun u hu => hdrop u _ _ hu).bind fun _ => hdelete f p

/-- What the changes to a pool and the functions of the `File` objects keep, the calls keep. -/
theorem call_keeps [PageData D] (hhand : ∀ s n, I s → I (s.setClockHand n))
    (hdesc : ∀ s i g, I s → I (s.setDesc i g)) (hframe : ∀ s i page, I s → I (s.setFrame i page))
    (hput : ∀ s f p i, I s → I (s.putEntry f p i)) (hdrop : ∀ s f p, I s → I (s.dropEntry f p))
    (hread : ∀ f p, Keeps I (onFile f fun file => file.readPage p))
    (hwrite : ∀ f p page, Keeps I (onFile f fun file => file.writePage p page))
    (hallocate : ∀ f, Keeps I (onFile f FileObject.allocatePage))
    (hdelete : ∀ f p, Keeps I (onFile f fun file => file.deletePage p)) (op : BufOp) :
    Keeps I (call op) := by
  have halloc : Keeps I allocBuf := allocBuf_keeps hhand hdesc hdrop hwrite
  -- the page is put into the frame, the frame described, and the page entered
  have hload : ∀ {α : Type} f p i (page : Page D) (a : α), Keeps I (do
      modify (Sys.setFrame i page)
      modify (Sys.setDesc i (BufDesc.set f p))
      insert f p i
      pure a) := by
    intro α f p i page a
    apply (Keeps.modify fun s hs => hframe s i page hs).bind
    intro _
    apply (Keeps.modify fun s hs => hdesc s i _ hs).bind
    intro _
    exact (insert_keeps fun s hs => hput s f p i hs).bind fun _ => Keeps.pure a
  cases op with
  | readPage f p =>
      -- The body of `try`, and the handler for a page that is not in the pool.
      refine Keeps.bind (Keeps.tryCatch ?_ (onHashNotFound_keeps ?_)) fun _ => Keeps.pure _
      · apply (lookup_keeps f p).bind
        intro i
        exact (Keeps.modify fun s hs => hdesc s i _ hs).bind fun _ => Keeps.pure i
      · apply halloc.bind
        intro i
        exact (hread f p).bind fun page => hload f p i page i
  | allocPage f =>
      refine Keeps.bind ?_ fun _ => Keeps.pure _
      apply halloc.bind
      intro i
      exact (hallocate f).bind fun r => hload f r.1 i r.2 (r.1, i)
  | unPinPage f p dirty => exact (unPinPage_keeps hdesc f p dirty).bind fun _ => Keeps.pure _
  | flushFile f => exact (flushFile_keeps hdesc hdrop hwrite f).bind fun _ => Keeps.pure _
  | disposePage f p => exact (disposePage_keeps hdesc hdrop hdelete f p).bind fun _ => Keeps.pure _

end Keep

end BufMgr

end CS640.Badger.P3
