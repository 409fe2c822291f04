import CS640.Badger.Buffer.Calls

/-!
# The invariants of a buffer pool

What both versions of the buffer manager keep, whatever their files do. `PoolInv` says that an entry
of the hash table names a frame that holds its page; `PinInv` that the pin counts are the numbers of
pins held, so that a pinned page keeps its frame. The lemmas are about the changes a buffer manager
makes to a pool: the clock moves, a frame is emptied, filled, pinned and unpinned.

The invariants form layers. `PoolInv` asks only that the table does not lie; `TableInv` and `HashedInv` add, in two
strengths, that it leaves nothing out; `PinInv` relates the pool to a list of pins that is not in the program at
all, and that the callers are held to.

Each layer has one lemma for each change, under the same names:

* `scanned`: the clock has moved;
* `evict`: the entry of a frame is dropped and its descriptor cleared;
* `load`, `enter`: a page is put into a frame, and entered;
* `mark`: a descriptor changes in its counts and bits only.

The operations of both versions are sequences of these changes, so their proofs chain these lemmas and do not look
into a descriptor.
-/

namespace CS640.Badger.BufMgr

open CS640.Lib Prog

variable {D : Type}

/-! ## The clock

The scan for a victim writes nothing but the clock hand and referenced bits. `Scanned` says so for a whole scan at
once, so that what follows needs no induction on the ticks.
-/

/-- The clock has moved on from `s`: referenced bits have been cleared, and nothing else. -/
structure Scanned (s t : Sys D) : Prop where
  objects : t.objects = s.objects
  streams : t.streams = s.streams
  numBufs : t.numBufs = s.numBufs
  frame : ∀ i, t.frame i = s.frame i
  entry : ∀ f p, t.entry f p = s.entry f p
  desc : ∀ i, t.desc i = { s.desc i with refbit := (t.desc i).refbit }
  invalid : ∀ i, (s.desc i).valid = false → t.desc i = s.desc i

theorem Scanned.refl (s : Sys D) : Scanned s s :=
  ⟨rfl, rfl, rfl, fun _ => rfl, fun _ _ => rfl, fun _ => rfl, fun _ _ => rfl⟩

theorem Scanned.valid {s t : Sys D} (h : Scanned s t) (i : Nat) :
    (t.desc i).valid = (s.desc i).valid := by
  rw [h.desc i]

theorem Scanned.trans {s t u : Sys D} (h : Scanned s t) (h' : Scanned t u) : Scanned s u where
  objects := h'.objects.trans h.objects
  streams := h'.streams.trans h.streams
  numBufs := h'.numBufs.trans h.numBufs
  frame i := (h'.frame i).trans (h.frame i)
  entry f p := (h'.entry f p).trans (h.entry f p)
  desc i := by
    rw [h'.desc i, h.desc i]
  invalid i hi := by
    rw [h'.invalid i ((h.valid i).trans hi), h.invalid i hi]

/-- One tick of the clock. -/
theorem scanned_tick (s : Sys D) (n : Nat) : Scanned s (s.setClockHand n) :=
  ⟨rfl, rfl, rfl, fun _ => rfl, fun _ _ => rfl, fun _ => rfl, fun _ _ => rfl⟩

theorem scanned_clearRefbit (s : Sys D) (i : Nat) (hv : (s.desc i).valid = true) :
    Scanned s (s.setDesc i fun d => { d with refbit := false }) where
  objects := rfl
  streams := rfl
  numBufs := rfl
  frame _ := rfl
  entry _ _ := rfl
  desc j := by
    rw [Sys.desc_setDesc]
    split
    · next h => rw [h]
    · rfl
  invalid j hj := by
    rw [Sys.desc_setDesc]
    split
    · next h =>
        subst h
        rw [hv] at hj
        cases hj
    · rfl

/-- Frame `i` may be taken for another page. -/
structure Victim (s : Sys D) (i : Nat) : Prop where
  valid : (s.desc i).valid = true
  unpinned : (s.desc i).pinCnt = 0

/-! ## The invariant of every pool

The entries of the table are the weak point of the structure: they name frames by number, and nothing in the code
keeps a frame from being filled again while an old entry still names it. `PoolInv.entry` says that this does not
happen, and the other fields are what it takes to keep it.
-/

/-- What holds of a pool whatever its files do: an entry of the hash table names a frame that holds
its page, and the descriptor of a frame that is not in use is clear. -/
structure PoolInv (s : Sys D) : Prop where
  hand : s.clockHand < s.numBufs
  frameNo : ∀ i, (s.desc i).frameNo = i
  valid_lt : ∀ i, (s.desc i).valid = true → i < s.numBufs
  invalid : ∀ i, (s.desc i).valid = false → (s.desc i).clear = s.desc i
  entry : ∀ f p i, s.entry f p = some i →
    (s.desc i).valid = true ∧ (s.desc i).file = f ∧ (s.desc i).pageNo = p

theorem PoolInv.scanned {s t : Sys D} (h : PoolInv s) (ht : Scanned s t)
    (hhand : t.clockHand < t.numBufs) : PoolInv t where
  hand := hhand
  frameNo i := by
    rw [ht.desc i]
    exact h.frameNo i
  valid_lt i hi := by
    rw [ht.numBufs]
    exact h.valid_lt i ((ht.valid i).symm.trans hi)
  invalid i hi := by
    have hi : (s.desc i).valid = false := (ht.valid i).symm.trans hi
    rw [ht.invalid i hi]
    exact h.invalid i hi
  entry f p i hi := by
    rw [ht.entry] at hi
    rw [ht.desc i]
    exact h.entry f p i hi

namespace PoolInv

variable {s : Sys D} {i f p : Nat}

theorem valid_of_pinned (h : PoolInv s) (hpin : 0 < (s.desc i).pinCnt) : (s.desc i).valid = true := by
  by_contra hv
  rw [← h.invalid i (Bool.eq_false_of_not_eq_true hv)] at hpin
  cases hpin

theorem setStreams (h : PoolInv s) (streams : FileName → FStream D) :
    PoolInv (s.setStreams streams) :=
  ⟨h.hand, h.frameNo, h.valid_lt, h.invalid, h.entry⟩

theorem setFrame (h : PoolInv s) (i : Nat) (pg : Page D) : PoolInv (s.setFrame i pg) :=
  ⟨h.hand, h.frameNo, h.valid_lt, h.invalid, h.entry⟩

/-- Counting pins and marking a frame do not change what it holds. -/
theorem mark (h : PoolInv s) (hv : (s.desc i).valid = true) {g : BufDesc → BufDesc}
    (hg : ∀ d, (g d).valid = d.valid ∧ (g d).file = d.file ∧ (g d).pageNo = d.pageNo ∧
      (g d).frameNo = d.frameNo) : PoolInv (s.setDesc i g) := by
  have hsame : ∀ j, ((s.setDesc i g).desc j).valid = (s.desc j).valid ∧
      ((s.setDesc i g).desc j).file = (s.desc j).file ∧
      ((s.setDesc i g).desc j).pageNo = (s.desc j).pageNo ∧
      ((s.setDesc i g).desc j).frameNo = (s.desc j).frameNo := by
    intro j
    rw [Sys.desc_setDesc]
    split
    · -- The changed frame: `g` leaves these four fields as they are. Any other frame has not been touched.
      next hji =>
        subst hji
        exact hg _
    · exact ⟨rfl, rfl, rfl, rfl⟩
  refine ⟨h.hand, fun j => ?_, fun j hj => ?_, fun j hj => ?_, fun f p j hj => ?_⟩
  · rw [(hsame j).2.2.2]
    exact h.frameNo j
  · exact h.valid_lt j ((hsame j).1.symm.trans hj)
  · -- The marked frame is in use, so it is not the one asked about.
    have hne : j ≠ i := by
      rintro rfl
      rw [(hsame j).1, hv] at hj
      cases hj
    rw [Sys.desc_setDesc, if_neg hne] at hj ⊢
    exact h.invalid j hj
  · rw [(hsame j).1, (hsame j).2.1, (hsame j).2.2.1]
    exact h.entry f p j hj

/-- The entries that are left when frame `i` is emptied. -/
theorem entry_evict (h : PoolInv s) {g : BufDesc → BufDesc} {j : Nat}
    (hj : ((s.dropEntry (s.desc i).file (s.desc i).pageNo).setDesc i g).entry f p = some j) :
    s.entry f p = some j ∧ j ≠ i := by
  rw [Sys.entry_setDesc, Sys.entry_dropEntry] at hj
  by_cases heq : f = (s.desc i).file ∧ p = (s.desc i).pageNo
  · -- The entry that has just been dropped is not there any more.
    rw [if_pos heq] at hj
    cases hj
  · rw [if_neg heq] at hj
    -- Another entry that names `i` would be one for the page of `i`, and that one has been dropped.
    refine ⟨hj, ?_⟩
    rintro rfl
    obtain ⟨-, rfl, rfl⟩ := h.entry f p j hj
    exact heq ⟨rfl, rfl⟩

/-- Emptying a frame. -/
theorem evict (h : PoolInv s) (i : Nat) :
    PoolInv ((s.dropEntry (s.desc i).file (s.desc i).pageNo).setDesc i BufDesc.clear) := by
  refine ⟨h.hand, fun j => ?_, fun j hj => ?_, fun j hj => ?_, fun f p j hj => ?_⟩
  · -- Frame by frame: `i` is cleared, the others are as they were.
    by_cases hji : j = i
    · subst hji
      rw [Sys.desc_setDesc, if_pos rfl]
      exact h.frameNo j
    · rw [Sys.desc_setDesc, if_neg hji]
      exact h.frameNo j
  · by_cases hji : j = i
    · rw [Sys.desc_setDesc, if_pos hji] at hj
      cases hj
    · rw [Sys.desc_setDesc, if_neg hji] at hj
      exact h.valid_lt j hj
  · by_cases hji : j = i
    · rw [Sys.desc_setDesc, if_pos hji]
      rfl
    · rw [Sys.desc_setDesc, if_neg hji] at hj ⊢
      exact h.invalid j hj
  · obtain ⟨hj, hne⟩ := h.entry_evict hj
    rw [Sys.desc_setDesc, if_neg hne]
    exact h.entry f p j hj

/-- Putting a page into a frame that is not in use. -/
theorem load (h : PoolInv s) (hv : (s.desc i).valid = false) (hi : i < s.numBufs) (pg : Page D) :
    PoolInv ((s.setFrame i pg).setDesc i (BufDesc.set f p)) := by
  refine ⟨h.hand, fun j => ?_, fun j hj => ?_, fun j hj => ?_, fun f' p' j hj => ?_⟩
  · by_cases hji : j = i
    · subst hji
      rw [Sys.desc_setDesc, if_pos rfl]
      exact h.frameNo j
    · rw [Sys.desc_setDesc, if_neg hji]
      exact h.frameNo j
  · by_cases hji : j = i
    · subst hji
      exact hi
    · rw [Sys.desc_setDesc, if_neg hji] at hj
      exact h.valid_lt j hj
  · by_cases hji : j = i
    · rw [Sys.desc_setDesc, if_pos hji] at hj
      cases hj
    · rw [Sys.desc_setDesc, if_neg hji] at hj ⊢
      exact h.invalid j hj
  · -- No entry names `i` before: the frame was not in use.
    have hj' := h.entry f' p' j hj
    have hji : j ≠ i := by
      rintro rfl
      rw [hv] at hj'
      cases hj'.1
    rw [Sys.desc_setDesc, if_neg hji]
    exact hj'

/-- Entering a page that is in its frame. -/
theorem enter (h : PoolInv s) (hnone : s.entry f p = none) (hv : (s.desc i).valid = true)
    (hf : (s.desc i).file = f) (hp : (s.desc i).pageNo = p) : PoolInv (s.putEntry f p i) := by
  refine ⟨h.hand, h.frameNo, h.valid_lt, h.invalid, fun f' p' j hj => ?_⟩
  rw [Sys.entry_putEntry _ _ _ hnone] at hj
  split at hj
  · -- The new entry, and below it one that was there already.
    next heq =>
      obtain ⟨rfl, rfl⟩ := heq
      cases hj
      exact ⟨hv, hf, hp⟩
  · exact h.entry f' p' j hj

end PoolInv

/-! ## The hash table is complete

With this field the table can be read from the frames: two frames in use have different pages. It is what the first
version keeps, which enters every page it loads.
-/

/-- Besides, the hash table has the page of every frame that is in use. -/
structure TableInv (s : Sys D) : Prop where
  pool : PoolInv s
  full : ∀ i, (s.desc i).valid = true → s.entry (s.desc i).file (s.desc i).pageNo = some i

namespace TableInv

variable {s t : Sys D} {i f p : Nat}

theorem scanned (h : TableInv s) (ht : Scanned s t) (hhand : t.clockHand < t.numBufs) :
    TableInv t where
  pool := h.pool.scanned ht hhand
  full j hj := by
    rw [ht.desc j] at hj ⊢
    rw [ht.entry]
    exact h.full j hj

theorem setStreams (h : TableInv s) (streams : FileName → FStream D) :
    TableInv (s.setStreams streams) :=
  ⟨h.pool.setStreams streams, h.full⟩

theorem evict (h : TableInv s) (hv : (s.desc i).valid = true) :
    TableInv ((s.dropEntry (s.desc i).file (s.desc i).pageNo).setDesc i BufDesc.clear) where
  pool := h.pool.evict i
  full j hj := by
    by_cases hji : j = i
    · rw [Sys.desc_setDesc, if_pos hji] at hj
      cases hj
    · rw [Sys.desc_setDesc, if_neg hji] at hj ⊢
      have hentry := h.full j hj
      -- The entry of `j` has not been dropped: the dropped one names `i`.
      rw [Sys.entry_setDesc, Sys.entry_dropEntry, if_neg]
      · exact hentry
      · intro heq
        simp only [Sys.desc_dropEntry] at heq
        rw [heq.1, heq.2, h.full i hv] at hentry
        exact hji (Option.some.inj hentry).symm

/-- Putting a page into a frame that is not in use, and entering it. -/
theorem load (h : TableInv s) (hv : (s.desc i).valid = false) (hi : i < s.numBufs)
    (hnone : s.entry f p = none) (pg : Page D) :
    TableInv (((s.setFrame i pg).setDesc i (BufDesc.set f p)).putEntry f p i) where
  pool := by
    apply (h.pool.load hv hi pg).enter hnone
    · rw [Sys.desc_setDesc, if_pos rfl]
      rfl
    · rw [Sys.desc_setDesc, if_pos rfl]
      rfl
    · rw [Sys.desc_setDesc, if_pos rfl]
      rfl
  full j hj := by
    have hnone' : ((s.setFrame i pg).setDesc i (BufDesc.set f p)).entry f p = none := hnone
    rw [Sys.entry_putEntry _ _ _ hnone', Sys.desc_putEntry]
    -- The page just entered, and then the pages of the other frames.
    by_cases hji : j = i
    · subst hji
      rw [Sys.desc_setDesc, if_pos rfl]
      exact if_pos ⟨rfl, rfl⟩
    · rw [Sys.desc_putEntry, Sys.desc_setDesc, if_neg hji] at hj
      have hj' := h.full j hj
      rw [Sys.desc_setDesc, if_neg hji, if_neg]
      · exact hj'
      · -- A second frame with the page `p` of `f` would have an entry for it already.
        intro heq
        simp only [Sys.desc_setFrame] at heq
        rw [heq.1, heq.2, hnone] at hj'
        cases hj'

/-- Counting pins and marking a frame do not change what it holds. -/
theorem mark (h : TableInv s) (hv : (s.desc i).valid = true) {g : BufDesc → BufDesc}
    (hg : ∀ d, (g d).valid = d.valid ∧ (g d).file = d.file ∧ (g d).pageNo = d.pageNo ∧
      (g d).frameNo = d.frameNo) : TableInv (s.setDesc i g) where
  pool := h.pool.mark hv hg
  full j hj := by
    by_cases hji : j = i
    · subst hji
      rw [Sys.desc_setDesc, if_pos rfl, (hg _).2.1, (hg _).2.2.1]
      exact h.full j hv
    · rw [Sys.desc_setDesc, if_neg hji] at hj ⊢
      exact h.full j hj

end TableInv

/-! ## The pages of unpinned frames are in the hash table

The weaker form, for a version that may leave a page out of the table as long as somebody has it pinned: when its
page is given up the frame must be found again.
-/

/-- Besides, the hash table has the page of every frame that is in use and not pinned. -/
structure HashedInv (s : Sys D) : Prop where
  pool : PoolInv s
  hashed : ∀ i, (s.desc i).valid = true → (s.desc i).pinCnt = 0 →
    s.entry (s.desc i).file (s.desc i).pageNo = some i

namespace HashedInv

variable {s t : Sys D} {i f p : Nat}

theorem scanned (h : HashedInv s) (ht : Scanned s t) (hinv : PoolInv t) : HashedInv t where
  pool := hinv
  hashed i hv hp := by
    rw [ht.desc i] at hv hp ⊢
    rw [ht.entry]
    exact h.hashed i hv hp

theorem setStreams (h : HashedInv s) (streams : FileName → FStream D) :
    HashedInv (s.setStreams streams) :=
  ⟨h.pool.setStreams streams, h.hashed⟩

/-- Emptying a frame that has an entry. -/
theorem evict (h : HashedInv s) (hi : s.entry (s.desc i).file (s.desc i).pageNo = some i) :
    HashedInv ((s.dropEntry (s.desc i).file (s.desc i).pageNo).setDesc i BufDesc.clear) where
  pool := h.pool.evict i
  hashed j hj hpj := by
    by_cases hji : j = i
    · rw [Sys.desc_setDesc, if_pos hji] at hj
      cases hj
    · rw [Sys.desc_setDesc, if_neg hji] at hj hpj ⊢
      have hentry := h.hashed j hj hpj
      rw [Sys.entry_setDesc, Sys.entry_dropEntry, if_neg]
      · exact hentry
      · rintro ⟨hf, hpn⟩
        simp only [Sys.desc_dropEntry] at hf hpn
        rw [hf, hpn, hi] at hentry
        exact hji (Option.some.inj hentry).symm

/-- Putting a page into a frame without entering it: the frame stays pinned. -/
theorem loadOnly (h : HashedInv s) (hv : (s.desc i).valid = false) (hi : i < s.numBufs)
    (pg : Page D) : HashedInv ((s.setFrame i pg).setDesc i (BufDesc.set f p)) where
  pool := h.pool.load hv hi pg
  hashed j hj hpj := by
    -- The new frame has one pin, so it need not be in the table.
    by_cases hji : j = i
    · rw [Sys.desc_setDesc, if_pos hji] at hpj
      cases hpj
    · rw [Sys.desc_setDesc, if_neg hji] at hj hpj ⊢
      exact h.hashed j hj hpj

/-- Putting a page into a frame that is not in use, and entering it. -/
theorem load (h : HashedInv s) (hv : (s.desc i).valid = false) (hi : i < s.numBufs)
    (hnone : s.entry f p = none) (pg : Page D) :
    HashedInv (((s.setFrame i pg).setDesc i (BufDesc.set f p)).putEntry f p i) where
  pool := by
    apply (h.pool.load hv hi pg).enter hnone
    all_goals
      rw [Sys.desc_setDesc, if_pos rfl]
      rfl
  hashed j hj hpj := by
    have hnone' : ((s.setFrame i pg).setDesc i (BufDesc.set f p)).entry f p = none := hnone
    rw [Sys.entry_putEntry _ _ _ hnone', Sys.desc_putEntry]
    by_cases hji : j = i
    · subst hji
      rw [Sys.desc_setDesc, if_pos rfl]
      exact if_pos ⟨rfl, rfl⟩
    · have hj' := (h.loadOnly hv hi pg).hashed j hj hpj
      rw [if_neg]
      · exact hj'
      · -- Nobody else has the page: it had no entry.
        rintro ⟨hf, hp⟩
        rw [hf, hp, hnone'] at hj'
        cases hj'

/-- Counting pins and marking a frame that has an entry. -/
theorem mark (h : HashedInv s) (hi : s.entry f p = some i) {g : BufDesc → BufDesc}
    (hg : ∀ d, (g d).valid = d.valid ∧ (g d).file = d.file ∧ (g d).pageNo = d.pageNo ∧
      (g d).frameNo = d.frameNo) : HashedInv (s.setDesc i g) where
  pool := h.pool.mark (h.pool.entry f p i hi).1 hg
  hashed j hj hpj := by
    by_cases hji : j = i
    · subst hji
      obtain ⟨-, hf, hp⟩ := h.pool.entry f p j hi
      rw [Sys.desc_setDesc, if_pos rfl, (hg _).2.1, (hg _).2.2.1, hf, hp]
      exact hi
    · rw [Sys.desc_setDesc, if_neg hji] at hj hpj ⊢
      exact h.hashed j hj hpj

end HashedInv

/-! ## Pins

A pin is the promise of a frame to a caller. The pool has only a count for it, so the list of pins stands beside the
pool, and `PinInv` says that the counts are those of the list. Pins are taken and given back in several ways; all of
them go through `PinInv.recount`, which asks only how the numbers change.
-/

/-- The pool `s` knows of the pins `pins`. -/
structure PinInv (s : Sys D) (pins : List Pin) : Prop where
  pool : PoolInv s
  hashed : ∀ i, (s.desc i).valid = true → (s.desc i).pinCnt = 0 →
    s.entry (s.desc i).file (s.desc i).pageNo = some i
  counted : ∀ f p i, s.entry f p = some i → (s.desc i).pinCnt = pinsOn pins f p
  held : ∀ pin ∈ pins, s.entry pin.file pin.pageNo = some pin.frame

/-- A new pool. -/
theorem pinInv_new [PageData D] (objects : Nat → Option FileObject)
    (streams : FileName → FStream D) {bufs : Nat} (h : 1 ≤ bufs) :
    PinInv ⟨objects, streams, .new bufs⟩ [] where
  pool :=
    { hand := Nat.sub_lt h Nat.one_pos
      frameNo := fun _ => rfl
      valid_lt := fun _ hv => by cases hv
      invalid := fun _ _ => rfl
      entry := fun _ _ _ hi => by cases hi }
  hashed _ hv := by cases hv
  counted _ _ _ hi := by cases hi
  held _ hpin := by cases hpin

namespace PinInv

variable {s t : Sys D} {pins : List Pin} {i f p : Nat}

theorem pinsOn_eq_zero (h : PinInv s pins) (hnone : s.entry f p = none) : pinsOn pins f p = 0 := by
  by_contra hne
  obtain ⟨pin, hpin, rfl, rfl⟩ := pinsOn_pos_iff.mp (Nat.pos_of_ne_zero hne)
  rw [h.held pin hpin] at hnone
  cases hnone

/-- The frame of a pin is in use and pinned. -/
theorem frame_pinned (h : PinInv s pins) {pin : Pin} (hpin : pin ∈ pins) :
    (s.desc pin.frame).valid = true ∧ (s.desc pin.frame).pinCnt ≠ 0 := by
  have hentry := h.held pin hpin
  refine ⟨(h.pool.entry _ _ _ hentry).1, ?_⟩
  rw [h.counted _ _ _ hentry]
  exact Nat.ne_of_gt (pinsOn_pos_iff.mpr ⟨pin, hpin, rfl, rfl⟩)

theorem hashedInv (h : PinInv s pins) : HashedInv s := ⟨h.pool, h.hashed⟩

theorem scanned (h : PinInv s pins) (ht : Scanned s t) (hinv : PoolInv t) : PinInv t pins where
  pool := hinv
  hashed := (h.hashedInv.scanned ht hinv).hashed
  counted f p i hi := by
    rw [ht.entry] at hi
    rw [ht.desc i]
    exact h.counted f p i hi
  held pin hpin := by
    rw [ht.entry]
    exact h.held pin hpin

/-- What the files do is of no concern to the pins. -/
theorem setStreams (h : PinInv s pins) (streams : FileName → FStream D) :
    PinInv (s.setStreams streams) pins :=
  ⟨h.pool.setStreams streams, h.hashed, h.counted, h.held⟩

/-- Nor is what is in a frame. -/
theorem setFrame (h : PinInv s pins) (i : Nat) (pg : Page D) : PinInv (s.setFrame i pg) pins :=
  ⟨h.pool.setFrame i pg, h.hashed, h.counted, h.held⟩

/-- A pinned page has another entry than a page without pins. -/
theorem held_evict (h : PinInv s pins) (hi : s.entry (s.desc i).file (s.desc i).pageNo = some i)
    (hp : (s.desc i).pinCnt = 0) {pin : Pin} (hpin : pin ∈ pins) {g : BufDesc → BufDesc} :
    ((s.dropEntry (s.desc i).file (s.desc i).pageNo).setDesc i g).entry pin.file pin.pageNo =
      some pin.frame := by
  rw [Sys.entry_setDesc, Sys.entry_dropEntry, if_neg]
  · exact h.held pin hpin
  · -- Suppose the pin were on the page of `i`: then `i` is its frame, which has no pin.
    rintro ⟨hf, hpn⟩
    have hheld := h.held pin hpin
    rw [hf, hpn, hi] at hheld
    have hpinned := (h.frame_pinned hpin).2
    rw [← Option.some.inj hheld] at hpinned
    exact hpinned hp

/-- Emptying the frame of an unpinned page. -/
theorem evict (h : PinInv s pins) (hi : s.entry (s.desc i).file (s.desc i).pageNo = some i)
    (hp : (s.desc i).pinCnt = 0) :
    PinInv ((s.dropEntry (s.desc i).file (s.desc i).pageNo).setDesc i BufDesc.clear) pins where
  pool := h.pool.evict i
  hashed := (h.hashedInv.evict hi).hashed
  counted f p j hj := by
    obtain ⟨hj, hne⟩ := h.pool.entry_evict hj
    rw [Sys.desc_setDesc, if_neg hne]
    exact h.counted f p j hj
  held _ hpin := h.held_evict hi hp hpin

/-- Emptying the frame of a page, with the pins on it. -/
theorem discard (h : PinInv s pins) (hi : s.entry (s.desc i).file (s.desc i).pageNo = some i) :
    PinInv ((s.dropEntry (s.desc i).file (s.desc i).pageNo).setDesc i BufDesc.clear)
      (pins.filter fun pin => !pin.On (s.desc i).file (s.desc i).pageNo) where
  pool := h.pool.evict i
  hashed := (h.hashedInv.evict hi).hashed
  counted f p j hj := by
    obtain ⟨hj, hne⟩ := h.pool.entry_evict hj
    -- An entry that is left is not one for the discarded page, so the filter takes none of its pins.
    have hother : ¬ ((s.desc i).file = f ∧ (s.desc i).pageNo = p) := by
      rintro ⟨rfl, rfl⟩
      exact hne (Option.some.inj (hj.symm.trans hi))
    rw [Sys.desc_setDesc, if_neg hne, Sys.desc_dropEntry, h.counted f p j hj, pinsOn_filter_of_ne hother]
  held pin hpin := by
    obtain ⟨hpin, hon⟩ := List.mem_filter.mp hpin
    rw [Sys.entry_setDesc, Sys.entry_dropEntry, if_neg]
    · exact h.held pin hpin
    · intro heq
      rw [Pin.on_iff.mpr heq] at hon
      cases hon

/-- Putting a page into a frame that is not in use, and entering it. -/
theorem load (h : PinInv s pins) (hv : (s.desc i).valid = false) (hi : i < s.numBufs)
    (hnone : s.entry f p = none) (pg : Page D) :
    PinInv (((s.setFrame i pg).setDesc i (BufDesc.set f p)).putEntry f p i) (⟨f, p, i, false⟩ :: pins) := by
  have hentry : ∀ f' p', (((s.setFrame i pg).setDesc i (BufDesc.set f p)).putEntry f p i).entry f' p' =
      if f' = f ∧ p' = p then some i else s.entry f' p' :=
    fun f' p' => Sys.entry_putEntry _ f' p' hnone
  have hother : ∀ f' p' j, s.entry f' p' = some j → j ≠ i := by
    rintro f' p' j hj rfl
    rw [(h.pool.entry f' p' j hj).1] at hv
    cases hv
  constructor
  case pool => exact (h.hashedInv.load hv hi hnone pg).pool
  case hashed => exact (h.hashedInv.load hv hi hnone pg).hashed
  case counted =>
    intro f' p' j hj
    rw [hentry] at hj
    rw [pinsOn_cons]
    -- The page itself goes from no pin to one; of every other page nothing has changed.
    by_cases heq : f' = f ∧ p' = p
    · rw [if_pos heq] at hj
      cases hj
      obtain ⟨rfl, rfl⟩ := heq
      rw [h.pinsOn_eq_zero hnone, Sys.desc_putEntry, Sys.desc_setDesc, if_pos rfl]
      simp [BufDesc.set]
    · rw [if_neg heq] at hj
      have hne : ¬ (f = f' ∧ p = p') := by
        rintro ⟨rfl, rfl⟩
        exact heq ⟨rfl, rfl⟩
      rw [Sys.desc_putEntry, Sys.desc_setDesc, if_neg (hother f' p' j hj), if_neg hne]
      exact h.counted f' p' j hj
  case held =>
    intro pin hpin
    rw [hentry]
    rcases List.mem_cons.mp hpin with rfl | hpin
    · exact if_pos ⟨rfl, rfl⟩
    · rw [if_neg]
      · exact h.held pin hpin
      · -- A pin on `p` of `f` held before would have an entry.
        rintro ⟨hf, hp⟩
        have := h.held pin hpin
        rw [hf, hp, hnone] at this
        cases this

/-- Putting a page into a frame without entering it: the frame stays pinned, and nobody's. -/
theorem loadOnly (h : PinInv s pins) (hv : (s.desc i).valid = false) (hi : i < s.numBufs)
    (pg : Page D) : PinInv ((s.setFrame i pg).setDesc i (BufDesc.set f p)) pins where
  pool := h.pool.load hv hi pg
  hashed := (h.hashedInv.loadOnly hv hi pg).hashed
  counted f' p' j hj := by
    have hji : j ≠ i := by
      rintro rfl
      rw [(h.pool.entry f' p' j hj).1] at hv
      cases hv
    rw [Sys.desc_setDesc, if_neg hji]
    exact h.counted f' p' j hj
  held := h.held

/-- Taking and giving back pins on a page that has an entry: the count goes to that of `pins'`. -/
theorem recount (h : PinInv s pins) (hi : s.entry f p = some i) {g : BufDesc → BufDesc}
    (hg : ∀ d, (g d).valid = d.valid ∧ (g d).file = d.file ∧ (g d).pageNo = d.pageNo ∧
      (g d).frameNo = d.frameNo) {pins' : List Pin}
    (hcount : ∀ f' p', pinsOn pins' f' p' =
      if f' = f ∧ p' = p then (g (s.desc i)).pinCnt else pinsOn pins f' p')
    (hsub : ∀ pin ∈ pins', pin ∈ pins ∨ pin = ⟨f, p, i, false⟩) :
    PinInv (s.setDesc i g) pins' where
  pool := h.pool.mark (h.pool.entry f p i hi).1 hg
  hashed := (h.hashedInv.mark hi hg).hashed
  counted f' p' j hj := by
    rw [hcount]
    -- The count of the page is what `g` makes of it; another page has another frame, which has not changed.
    by_cases heq : f' = f ∧ p' = p
    · obtain ⟨rfl, rfl⟩ := heq
      have hj : s.entry f' p' = some j := hj
      rw [hi] at hj
      cases hj
      rw [Sys.desc_setDesc, if_pos rfl, if_pos ⟨rfl, rfl⟩]
    · have hji : j ≠ i := by
        rintro rfl
        obtain ⟨-, hf, hp⟩ := h.pool.entry f p j hi
        obtain ⟨-, hf', hp'⟩ := h.pool.entry f' p' j hj
        exact heq ⟨hf'.symm.trans hf, hp'.symm.trans hp⟩
      rw [Sys.desc_setDesc, if_neg hji, if_neg heq]
      exact h.counted f' p' j hj
  held pin hpin := by
    rcases hsub pin hpin with hpin | rfl
    · exact h.held pin hpin
    · exact hi

end PinInv

section Pins

variable {s : Sys D} {pins : List Pin}

/-- One more pin on a page that has an entry. -/
theorem PinInv.pin {f p i : Nat} (h : PinInv s pins) (hi : s.entry f p = some i) :
    PinInv (s.setDesc i fun d => { d with refbit := true, pinCnt := d.pinCnt + 1 })
      (⟨f, p, i, false⟩ :: pins) := by
  refine h.recount hi (fun _ => ?_) ?_ ?_
  · exact ⟨rfl, rfl, rfl, rfl⟩
  · intro f' p'
    rw [pinsOn_cons]
    -- The page itself, then another page.
    by_cases heq : f' = f ∧ p' = p
    · obtain ⟨rfl, rfl⟩ := heq
      simp [h.counted f' p' i hi]
    · have hne : ¬ (f = f' ∧ p = p') := by
        rintro ⟨rfl, rfl⟩
        exact heq ⟨rfl, rfl⟩
      simp [heq, hne]
  · intro pin hpin
    rcases List.mem_cons.mp hpin with rfl | hpin
    · exact Or.inr rfl
    · exact Or.inl hpin

/-- One pin less. -/
theorem PinInv.unpin {f p i : Nat} {dirty : Bool} (h : PinInv s pins) (hi : s.entry f p = some i)
    (hcnt : (s.desc i).pinCnt ≠ 0) :
    PinInv (s.setDesc i fun d => { d with dirty := dirty || d.dirty, pinCnt := d.pinCnt - 1 })
      (pins.eraseP (Pin.On f p)) := by
  have hpos : 0 < pinsOn pins f p := by
    rw [← h.counted f p i hi]
    exact Nat.pos_of_ne_zero hcnt
  refine h.recount hi (fun _ => ?_) ?_ ?_
  · exact ⟨rfl, rfl, rfl, rfl⟩
  · intro f' p'
    rw [pinsOn_eraseP pins f p f' p' hpos]
    by_cases heq : f' = f ∧ p' = p
    · obtain ⟨rfl, rfl⟩ := heq
      simp [h.counted f' p' i hi]
    · simp [heq]
  · intro pin hpin
    exact Or.inl (List.mem_of_mem_eraseP hpin)

/-- The frames of pins are as they were. -/
def SameFrames (pins : List Pin) (s t : Sys D) : Prop := ∀ pin ∈ pins, t.frame pin.frame = s.frame pin.frame

/-- A frame just taken is that of no pin, so it may be filled. -/
theorem PinInv.sameFrames_load {i : Nat} (h : PinInv s pins) (hv : (s.desc i).valid = false)
    (pg : Page D) : SameFrames pins s (s.setFrame i pg) := by
  intro pin hpin
  rw [Sys.frame_setFrame, if_neg]
  intro hi
  have hvalid := (h.frame_pinned hpin).1
  rw [hi, hv] at hvalid
  cases hvalid

/-- Marking a page that has an entry dirty does nothing to the pins. -/
theorem PinInv.markDirty {f p i : Nat} {dirty : Bool} (h : PinInv s pins) (hi : s.entry f p = some i) :
    PinInv (s.setDesc i fun d => { d with dirty := dirty || d.dirty }) pins := by
  refine h.recount hi (fun _ => ?_) ?_ fun pin hpin => Or.inl hpin
  · exact ⟨rfl, rfl, rfl, rfl⟩
  · intro f' p'
    split
    · -- The count of this page has not changed, and `pins` has the same pins.
      next heq =>
        obtain ⟨rfl, rfl⟩ := heq
        exact (h.counted f' p' i hi).symm
    · rfl

/-- Giving back one pin in particular. -/
theorem PinInv.unpinOne {pin : Pin} {dirty : Bool} (h : PinInv s pins) (hpin : pin ∈ pins) :
    PinInv (s.setDesc pin.frame fun d => { d with
        dirty := dirty || d.dirty, pinCnt := d.pinCnt - 1 }) (pins.erase pin) := by
  refine h.recount (h.held pin hpin) (fun _ => ?_) ?_ ?_
  · exact ⟨rfl, rfl, rfl, rfl⟩
  · intro f' p'
    rw [pinsOn_erase hpin]
    -- The page of the pin, then another page.
    by_cases heq : f' = pin.file ∧ p' = pin.pageNo
    · obtain ⟨rfl, rfl⟩ := heq
      simp [h.counted _ _ _ (h.held pin hpin)]
    · have hne : ¬ (pin.file = f' ∧ pin.pageNo = p') := by
        rintro ⟨rfl, rfl⟩
        exact heq ⟨rfl, rfl⟩
      simp [heq, hne]
  · intro q hq
    exact Or.inl (List.mem_of_mem_erase hq)

/-- Which of the pins has been used to change the page does not count. -/
theorem PinInv.repin {pin : Pin} (h : PinInv s pins) (hpin : pin ∈ pins) :
    PinInv s ({ pin with changed := true } :: pins.erase pin) where
  pool := h.pool
  hashed := h.hashed
  counted f p i hi := by
    rw [h.counted f p i hi, pinsOn_cons, pinsOn_erase hpin]
    by_cases heq : pin.file = f ∧ pin.pageNo = p
    · -- The pin was there, so taking it out and putting it back gives the same number.
      have hpos := pinsOn_pos_iff.mpr ⟨pin, hpin, heq⟩
      simp only [heq, and_self, if_true]
      omega
    · simp [heq]
  held q hq := by
    rcases List.mem_cons.mp hq with rfl | hq
    · exact h.held pin hpin
    · exact h.held q (List.mem_of_mem_erase hq)

end Pins

end CS640.Badger.BufMgr
