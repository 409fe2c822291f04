import CS640.Badger.Buffer.P3
import Mathlib.Data.Nat.Find

/-!
# Second chance in p3

`FirstStop s k` says, of the pool before the call alone, that the clock has to stop at its tick `k`: the
frame it comes to is free, or it is not pinned and its reference bit is clear or has been cleared on the
way. The clock may come to each frame twice.

Main result: `P3.BufMgr.allocBuf_secondChance`. In every pool that a run leads to, `allocBuf` refuses just
a full pool, and otherwise takes the frame of the first stop.

The specification needs no clock that runs: which frame the clock comes to at a tick, and whether it has been there
before, is arithmetic of the hand. `Swept` says what a clock that has run for `k` ticks has left behind, in these
terms, and `scan_swept` that the loop of `allocBuf` keeps to it until the first stop.

* `no_stop_iff`: there is no stop just in a full pool.
* `scan_swept`: the loop, by induction on its rounds.
* `allocBuf_free`, `allocBuf_victim`, `allocBuf_full`: the three ways in which the call ends.
* `allocBuf_takes`: what taking the frame changes.
-/

namespace CS640.Badger.P3.BufMgr

open CS640.Lib Prog
open CS640.Badger.BufMgr

variable {D : Type} {s t u : Sys D} {k : Nat}

/-! ## Where the clock has to stop

The clock comes to every frame in each round. A frame that is not pinned is passed in the first round at most for
its bit, and not in the second one; so the clock finds no place to stop in two rounds only if all frames are pinned.
-/

/-- The frame that the clock comes to at tick `k`; the first tick is tick 0. -/
def frameAt (s : Sys D) (k : Nat) : Nat := (s.clockHand + 1 + k) % s.numBufs

/-- The clock has come to frame `i` before tick `k`. -/
def Met (s : Sys D) (k i : Nat) : Prop := ∃ m < k, frameAt s m = i

instance (s : Sys D) (k i : Nat) : Decidable (Met s k i) :=
  inferInstanceAs (Decidable (∃ m < k, frameAt s m = i))

/-- The reference bit is clear when the clock comes to the frame: it has been so, or since the clock came
to the frame before. -/
def BitClear (s : Sys D) (k : Nat) : Prop :=
  (s.desc (frameAt s k)).refbit = false ∨ Met s k (frameAt s k)

instance (s : Sys D) (k : Nat) : Decidable (BitClear s k) := inferInstanceAs (Decidable (_ ∨ _))

def StopsAt (s : Sys D) (k : Nat) : Prop :=
  (s.desc (frameAt s k)).valid = false ∨ (s.desc (frameAt s k)).pinCnt = 0 ∧ BitClear s k

instance (s : Sys D) (k : Nat) : Decidable (StopsAt s k) := inferInstanceAs (Decidable (_ ∨ _))

/-- Tick `k` is the first of two sweeps at which the clock has to stop. -/
structure FirstStop (s : Sys D) (k : Nat) : Prop where
  bound : k < 2 * s.numBufs
  stops : StopsAt s k
  first : ∀ m < k, ¬ StopsAt s m

/-- The frame is in use and pinned. -/
def Held (d : BufDesc) : Prop := d.valid = true ∧ 0 < d.pinCnt

theorem met_succ {i : Nat} : Met s (k + 1) i ↔ Met s k i ∨ frameAt s k = i := by
  constructor
  · rintro ⟨m, hm, hi⟩
    rcases Nat.lt_succ_iff_lt_or_eq.mp hm with hm | rfl
    · exact Or.inl ⟨m, hm, hi⟩
    · exact Or.inr hi
  · rintro (⟨m, hm, hi⟩ | hi)
    · exact ⟨m, Nat.lt_succ_of_lt hm, hi⟩
    · exact ⟨k, Nat.lt_succ_self k, hi⟩

/-- The clock comes round. -/
theorem frameAt_add (s : Sys D) (k : Nat) : frameAt s (k + s.numBufs) = frameAt s k := by
  rw [frameAt, frameAt, ← Nat.add_assoc, Nat.add_mod_right]

/-- The clock comes to every frame in its first round. -/
theorem exists_frameAt (hhand : s.clockHand < s.numBufs) {i : Nat} (hi : i < s.numBufs) :
    ∃ k < s.numBufs, frameAt s k = i := by
  -- a frame after the hand comes in this turn, the others after the hand has passed the last frame
  by_cases hlater : s.clockHand < i
  · refine ⟨i - (s.clockHand + 1), by omega, ?_⟩
    have hat : s.clockHand + 1 + (i - (s.clockHand + 1)) = i := by omega
    rw [frameAt, hat, Nat.mod_eq_of_lt hi]
  · refine ⟨i + s.numBufs - (s.clockHand + 1), by omega, ?_⟩
    have hat : s.clockHand + 1 + (i + s.numBufs - (s.clockHand + 1)) = i + s.numBufs := by omega
    rw [frameAt, hat, Nat.add_mod_right, Nat.mod_eq_of_lt hi]

theorem frameAt_lt (hhand : s.clockHand < s.numBufs) (k : Nat) : frameAt s k < s.numBufs :=
  Nat.mod_lt _ (Nat.zero_lt_of_lt hhand)

/-- The clock has no place to stop just where all frames are pinned: a frame it has passed in the first
round, it can pass in the second one for its pins only. -/
theorem no_stop_iff (hhand : s.clockHand < s.numBufs) :
    (∀ k < 2 * s.numBufs, ¬ StopsAt s k) ↔ ∀ i < s.numBufs, Held (s.desc i) := by
  constructor
  · intro h i hi
    obtain ⟨k, hk, rfl⟩ := exists_frameAt hhand hi
    have hagain := h (k + s.numBufs) (by omega)
    rw [StopsAt, BitClear, frameAt_add] at hagain
    rw [not_or, Bool.not_eq_false] at hagain
    refine ⟨hagain.1, Nat.pos_of_ne_zero fun hzero => hagain.2 ⟨hzero, Or.inr ?_⟩⟩
    exact ⟨k, by omega, rfl⟩
  · -- the tick at which the clock would stop: at a free frame, or at one that is not pinned
    rintro h k - (hv | ⟨hpin, -⟩)
    · rw [(h _ (frameAt_lt hhand k)).1] at hv
      cases hv
    · exact absurd hpin (Nat.ne_of_gt (h _ (frameAt_lt hhand k)).2)

/-- A frame that is free stops the clock in the first round. -/
theorem FirstStop.lt_of_free (h : FirstStop s k) (hv : (s.desc (frameAt s k)).valid = false) :
    k < s.numBufs := by
  by_contra hge
  have hback := frameAt_add s (k - s.numBufs)
  rw [Nat.sub_add_cancel (Nat.le_of_not_lt hge)] at hback
  have hpos : 0 < s.numBufs := by
    have := h.bound
    omega
  apply h.first (k - s.numBufs) (by omega)
  left
  rw [← hback]
  exact hv

/-! ## What the clock leaves behind

The frames that the clock has met have lost their bits, and the others are as they were. At the next tick the frame
is one of these four kinds: free, to be taken, pinned with a clear bit, or with its bit set.
-/

/-- The clock has passed `k` frames of `s`. -/
structure Swept (s : Sys D) (k : Nat) (t : Sys D) : Prop where
  scanned : Scanned s t
  clockHand : t.clockHand = (s.clockHand + k) % s.numBufs
  met : ∀ i, Met s k i → t.desc i = { s.desc i with refbit := false }
  unmet : ∀ i, ¬ Met s k i → t.desc i = s.desc i

namespace Swept

theorem refl (hhand : s.clockHand < s.numBufs) : Swept s 0 s where
  scanned := Scanned.refl s
  clockHand := (Nat.mod_eq_of_lt hhand).symm
  met := by
    rintro i ⟨m, hm, -⟩
    exact absurd hm (Nat.not_lt_zero m)
  unmet _ _ := rfl

/-- The next frame. -/
theorem next (h : Swept s k t) : (t.clockHand + 1) % t.numBufs = frameAt s k := by
  rw [h.clockHand, h.scanned.numBufs, Nat.mod_add_mod, frameAt, Nat.add_right_comm]

theorem tick_clockHand (h : Swept s k t) : (tick t).clockHand = frameAt s k := h.next

theorem tick_scanned (h : Swept s k t) : Scanned s (tick t) := h.scanned.trans (scanned_tick t _)

/-- When the clock comes to the frame, its bit is as `BitClear` says. -/
theorem bit (h : Swept s k t) : (t.desc (frameAt s k)).refbit = false ↔ BitClear s k := by
  by_cases hmet : Met s k (frameAt s k)
  · rw [h.met _ hmet]
    exact ⟨fun _ => Or.inr hmet, fun _ => rfl⟩
  · rw [h.unmet _ hmet]
    exact ⟨Or.inl, fun hb => hb.resolve_right hmet⟩

/-- A frame whose bit is clear is passed as it is. -/
theorem pass (h : Swept s k t) (hbit : (t.desc (frameAt s k)).refbit = false) :
    Swept s (k + 1) (tick t) where
  scanned := h.tick_scanned
  clockHand := by
    rw [h.tick_clockHand, frameAt, Nat.add_right_comm, Nat.add_assoc]
  met := by
    intro i hi
    show t.desc i = _
    rcases met_succ.mp hi with hi | rfl
    · exact h.met i hi
    · rw [h.scanned.desc, hbit]
  unmet := by
    intro i hi
    exact h.unmet i fun hmet => hi (met_succ.mpr (Or.inl hmet))

/-- The bit of another one is cleared. -/
theorem clear (h : Swept s k t) (hv : (t.desc (frameAt s k)).valid = true) :
    Swept s (k + 1) ((tick t).setDesc (frameAt s k) fun d => { d with refbit := false }) where
  scanned := h.tick_scanned.trans (scanned_clearRefbit (tick t) _ hv)
  clockHand := by
    rw [Sys.clockHand_setDesc, h.tick_clockHand, frameAt, Nat.add_right_comm, Nat.add_assoc]
  met := by
    intro i hi
    rw [Sys.desc_setDesc]
    -- the frame of this tick, and those that were met before it
    by_cases heq : i = frameAt s k
    · rw [if_pos heq, heq]
      show { t.desc (frameAt s k) with refbit := false } = _
      rw [h.scanned.desc]
    · rw [if_neg heq]
      exact h.met i ((met_succ.mp hi).resolve_right (Ne.symm heq))
  unmet := by
    intro i hi
    rw [Sys.desc_setDesc, if_neg]
    · exact h.unmet i fun hmet => hi (met_succ.mpr (Or.inl hmet))
    · intro heq
      exact hi (met_succ.mpr (Or.inr heq.symm))

end Swept

/-- The clock has stopped at its tick `k`, with `found` and the pool `u`. -/
def Stopped (s : Sys D) (k : Nat) (found : Bool) (u : Sys D) : Prop :=
  ∃ t, Swept s k t ∧
    ((s.desc (frameAt s k)).valid = false ∧ found = false ∧ u = tick t ∨
      Victim s (frameAt s k) ∧ found = true ∧
        u = (tick t).dropEntry (s.desc (frameAt s k)).file (s.desc (frameAt s k)).pageNo)

/-- How the loop of `allocBuf` ends after at most `n` rounds: they are over and the clock had no place to
stop, or it has stopped at the first one. -/
def Ends (s : Sys D) (n : Nat) (r : Nat × Bool) (u : Sys D) : Prop :=
  r = (n, false) ∧ Swept s n u ∧ (∀ m < n, ¬ StopsAt s m) ∨
    ∃ m < n, StopsAt s m ∧ (∀ j < m, ¬ StopsAt s j) ∧ r.1 = m + 1 ∧ Stopped s m r.2 u

/-- The loop of `allocBuf` is in its round `k`, and the clock had no place to stop so far. -/
theorem scan_swept (h : HashedInv s) : ∀ (rounds k : Nat) (t : Sys D), Swept s k t →
    (∀ m < k, ¬ StopsAt s m) →
    wp (scan rounds k) (Ends s (k + rounds)) (fun _ _ => False) t := by
  intro rounds
  induction rounds with
  | zero =>
      intro k t ht hgo
      exact Or.inl ⟨rfl, ht, hgo⟩
  | succ rounds ih =>
      intro k t ht hgo
      have hvalid := ht.scanned.valid (frameAt s k)
      have hdesc := ht.scanned.desc (frameAt s k)
      -- the frame is passed
      have hnext : ∀ {u}, Swept s (k + 1) u → ¬ StopsAt s k →
          wp (scan rounds (k + 1)) (Ends s (k + 1 + rounds)) (fun _ _ => False) u := by
        intro u hu hnot
        apply ih (k + 1) u hu
        intro m hm
        rcases Nat.lt_succ_iff_lt_or_eq.mp hm with hm | rfl
        · exact hgo m hm
        · exact hnot
      rw [show k + (rounds + 1) = k + 1 + rounds by omega]
      apply wp_scan_succ ht.next
      · -- a free frame ends the loop
        intro hv
        rw [hvalid] at hv
        exact Or.inr ⟨k, by omega, Or.inl hv, hgo, rfl, t, ht, Or.inl ⟨hv, rfl, rfl⟩⟩
      · -- a frame that may be taken ends it too, once its entry has been removed
        intro hv hbit
        have hvictim : Victim s (frameAt s k) := by
          refine ⟨hvalid.symm.trans hv.valid, ?_⟩
          have hpin := hv.unpinned
          rw [hdesc] at hpin
          exact hpin
        have hentry := h.hashed _ hvictim.valid hvictim.unpinned
        rw [hdesc]
        have hentry' : (tick t).entry (s.desc (frameAt s k)).file (s.desc (frameAt s k)).pageNo =
            some (frameAt s k) := (ht.scanned.entry _ _).trans hentry
        rw [wp_of_ok (remove_apply hentry')]
        exact Or.inr ⟨k, by omega, Or.inr ⟨hvictim.unpinned, ht.bit.mp hbit⟩, hgo, rfl, t, ht,
          Or.inr ⟨hvictim, rfl, rfl⟩⟩
      · -- a pinned frame is passed
        intro hv hbit hpin
        apply hnext (ht.pass hbit)
        rintro (hv' | ⟨hzero, -⟩)
        · rw [← hvalid, hv] at hv'
          cases hv'
        · rw [hdesc] at hpin
          exact hpin hzero
      · -- a frame whose bit is set is passed, and loses the bit
        intro hv hbit
        apply hnext (ht.clear hv)
        rintro (hv' | ⟨-, hclear⟩)
        · rw [← hvalid, hv] at hv'
          cases hv'
        · rw [ht.bit.mpr hclear] at hbit
          cases hbit

/-! ## The frame that is taken

The write is made after the entry of the page has been dropped and the bits of other frames have been cleared.
Neither of these is seen by the file, so whether the write goes through can be asked of the pool before the call.
-/

theorem FirstStop.unique {m : Nat} (hk : FirstStop s k) (hstop : StopsAt s m)
    (hfirst : ∀ j < m, ¬ StopsAt s j) : m = k := by
  rcases Nat.lt_trichotomy m k with hlt | rfl | hlt
  · exact absurd hstop (hk.first m hlt)
  · rfl
  · exact absurd hk.stops (hfirst k hlt)

/-- The loop, where the clock has to stop. -/
theorem FirstStop.scan (hk : FirstStop s k) (h : HashedInv s) :
    ∃ found u, scan (2 * s.numBufs) 0 s = (.ok (k + 1, found), u) ∧ Stopped s k found u := by
  have hscan := scan_swept h (2 * s.numBufs) 0 s (Swept.refl h.pool.hand)
    fun m hm => absurd hm (Nat.not_lt_zero m)
  obtain ⟨⟨numScanned, found⟩, u, hr, hends⟩ := exists_ok_of_wp hscan
  rw [Nat.zero_add] at hends
  -- the rounds cannot be over, since the clock had to stop in one of them
  rcases hends with ⟨-, -, hnone⟩ | ⟨m, -, hstop, hfirst, hcount, hstopped⟩
  · exact absurd hk.stops (hnone k hk.bound)
  · obtain rfl := hk.unique hstop hfirst
    obtain rfl : numScanned = m + 1 := hcount
    exact ⟨found, u, hr, hstopped⟩

/-- The streams `σ` are those of `s` with frame `i` written to its file, if it is dirty. -/
structure WrittenBack (s : Sys D) (i : Nat) (σ : FileName → FStream D) : Prop where
  dirty : (s.desc i).dirty = true →
    onFile (s.desc i).file (fun file => file.writePage (s.desc i).pageNo (s.frame i)) s =
      (.ok (), s.setStreams σ)
  clean : (s.desc i).dirty = false → σ = s.streams

/-- Writing a frame back is the same where the clock has moved on. -/
theorem writeBack_scanned (ht : Scanned s t) {i : Nat} (hok : (writeBack i s).1.isOk = true) (f p : Nat) :
    ∃ σ, WrittenBack s i σ ∧
      writeBack i (t.dropEntry f p) = (.ok (), (t.dropEntry f p).setStreams σ) := by
  have hdesc := ht.desc i
  rw [writeBack, bind_of_ok (get_apply s)] at hok
  rw [writeBack, bind_of_ok (get_apply _)]
  cases hdirty : (s.desc i).dirty with
  -- a clean frame is not written at all
  | false =>
      have hdirty' : ((t.dropEntry f p).desc i).dirty = false := by
        rw [Sys.desc_dropEntry, hdesc]
        exact hdirty
      refine ⟨s.streams, ⟨fun h => ?_, fun _ => rfl⟩, ?_⟩
      · rw [hdirty] at h
        cases h
      · rw [if_neg (by rw [hdirty']; exact Bool.false_ne_true), ← ht.streams]
        rfl
  -- the object, the page and the stream are the same in both pools
  | true =>
      have hdirty' : ((t.dropEntry f p).desc i).dirty = true := by
        rw [Sys.desc_dropEntry, hdesc]
        exact hdirty
      rw [if_pos hdirty] at hok
      rw [if_pos hdirty']
      cases hobject : s.objects (s.desc i).file with
      | none =>
          rw [onFile, bind_of_ok (get_apply s), hobject] at hok
          cases hok
      | some object =>
          have hfile : ((t.dropEntry f p).desc i).file = (s.desc i).file := by
            rw [Sys.desc_dropEntry, hdesc]
          have hpage : ((t.dropEntry f p).desc i).pageNo = (s.desc i).pageNo := by
            rw [Sys.desc_dropEntry, hdesc]
          have hobject' : (t.dropEntry f p).objects ((t.dropEntry f p).desc i).file = some object := by
            rw [hfile, Sys.objects_dropEntry, ht.objects]
            exact hobject
          rw [onFile_apply hobject] at hok
          rw [onFile_apply hobject', hpage, Sys.frame_dropEntry, ht.frame, Sys.streams_dropEntry, ht.streams]
          rcases hwrite : object.writePage (s.desc i).pageNo (s.frame i) (s.streams object.filename)
            with ⟨e | _, st⟩
          · rw [hwrite] at hok
            cases hok
          · refine ⟨Function.update s.streams object.filename st, ⟨fun _ => ?_, fun h => ?_⟩, ?_⟩
            · rw [onFile_apply hobject, hwrite]
              rfl
            · rw [hdirty] at h
              cases h
            · rw [← ht.streams]
              rfl

/-- A free frame is taken as it is. -/
theorem allocBuf_free (h : HashedInv s) (hsmall : s.numBufs < 2 ^ 31) (hk : FirstStop s k)
    (hv : (s.desc (frameAt s k)).valid = false) :
    ∃ u, Swept s k u ∧ allocBuf s = (.ok (frameAt s k), tick u) := by
  obtain ⟨found, u, hscan, t, ht, ⟨-, rfl, rfl⟩ | ⟨hvictim, -⟩⟩ := hk.scan h
  · have hbound : scanBound s = 2 * s.numBufs := by
      rw [scanBound]
      omega
    have hearly := hk.lt_of_free hv
    have hnotMet : (tick t).desc (frameAt s k) = s.desc (frameAt s k) := ht.scanned.invalid _ hv
    have hclear := h.pool.invalid _ hv
    have hdirty : ((tick t).desc (tick t).clockHand).dirty = false := by
      rw [ht.tick_clockHand, hnotMet, ← hclear]
      rfl
    refine ⟨t, ht, ?_⟩
    rw [allocBuf, bind_of_ok (get_apply s), hbound, bind_of_ok hscan]
    dsimp only
    rw [if_neg (by omega), bind_of_ok (get_apply _)]
    have hwrite : writeBack (tick t).clockHand (tick t) = (.ok (), tick t) := by
      rw [writeBack, bind_of_ok (get_apply _), if_neg (by rw [hdirty]; exact Bool.false_ne_true)]
      rfl
    have hself : (tick t).setDesc (tick t).clockHand BufDesc.clear = tick t := by
      apply Sys.setDesc_eq_self
      rw [ht.tick_clockHand, hnotMet]
      exact hclear
    rw [bind_of_ok hwrite, bind_of_ok (modify_apply _ _), hself, ht.tick_clockHand]
    rfl
  · rw [hvictim.valid] at hv
    cases hv

/-- An unpinned frame is written back, taken out of the hash table and cleared. -/
theorem allocBuf_victim (h : HashedInv s) (hsmall : s.numBufs < 2 ^ 31) (hk : FirstStop s k)
    (hv : (s.desc (frameAt s k)).valid = true) (hw : (writeBack (frameAt s k) s).1.isOk = true) :
    ∃ u σ, Swept s k u ∧ Victim s (frameAt s k) ∧ WrittenBack s (frameAt s k) σ ∧
      allocBuf s = (.ok (frameAt s k),
        (((tick u).dropEntry (s.desc (frameAt s k)).file (s.desc (frameAt s k)).pageNo).setStreams
          σ).setDesc (frameAt s k) BufDesc.clear) := by
  obtain ⟨found, u, hscan, t, ht, ⟨hfree, -⟩ | ⟨hvictim, rfl, rfl⟩⟩ := hk.scan h
  · rw [hv] at hfree
    cases hfree
  · have hbound : scanBound s = 2 * s.numBufs := by
      rw [scanBound]
      omega
    obtain ⟨σ, hσ, hwrite⟩ := writeBack_scanned ht.tick_scanned hw
      (s.desc (frameAt s k)).file (s.desc (frameAt s k)).pageNo
    refine ⟨t, σ, ht, hvictim, hσ, ?_⟩
    rw [allocBuf, bind_of_ok (get_apply s), hbound, bind_of_ok hscan]
    dsimp only
    rw [if_neg (by simp), bind_of_ok (get_apply _), Sys.clockHand_dropEntry, ht.tick_clockHand]
    have hwrite : writeBack (frameAt s k) ((tick t).dropEntry (s.desc (frameAt s k)).file
      (s.desc (frameAt s k)).pageNo) = _ := hwrite
    rw [bind_of_ok hwrite, bind_of_ok (modify_apply _ _)]
    rfl

/-- In a full pool the clock comes round twice, to where it was. -/
theorem allocBuf_full (h : HashedInv s) (hsmall : s.numBufs < 2 ^ 31)
    (hnone : ∀ k < 2 * s.numBufs, ¬ StopsAt s k) :
    ∃ u, allocBuf s = (.error (.throw .bufferExceeded), u) ∧ Swept s (2 * s.numBufs) u := by
  have hscan := scan_swept h (2 * s.numBufs) 0 s (Swept.refl h.pool.hand)
    fun m hm => absurd hm (Nat.not_lt_zero m)
  obtain ⟨r, u, hr, hends⟩ := exists_ok_of_wp hscan
  rw [Nat.zero_add] at hends
  have hbound : scanBound s = 2 * s.numBufs := by
    rw [scanBound]
    omega
  -- the loop has come to its end, at tick `2 * numBufs`
  rcases hends with ⟨rfl, hu, -⟩ | ⟨m, hm, hstop, -⟩
  · refine ⟨u, ?_, hu⟩
    rw [allocBuf, bind_of_ok (get_apply s), hbound, bind_of_ok hr]
    dsimp only
    rw [if_pos ⟨rfl, Nat.le_refl _⟩]
    rfl
  · exact absurd hstop (hnone m hm)

/-- What taking the frame of tick `k` changes. -/
structure Taken (s : Sys D) (k : Nat) (t : Sys D) : Prop where
  clockHand : t.clockHand = frameAt s k
  numBufs : t.numBufs = s.numBufs
  objects : t.objects = s.objects
  frame : ∀ i, t.frame i = s.frame i
  cleared : t.desc (frameAt s k) = (s.desc (frameAt s k)).clear
  met : ∀ i, i ≠ frameAt s k → Met s k i → t.desc i = { s.desc i with refbit := false }
  unmet : ∀ i, i ≠ frameAt s k → ¬ Met s k i → t.desc i = s.desc i
  written : WrittenBack s (frameAt s k) t.streams
  entry : ∀ f p, t.entry f p =
    if (s.desc (frameAt s k)).valid = true ∧ f = (s.desc (frameAt s k)).file ∧
      p = (s.desc (frameAt s k)).pageNo then none else s.entry f p

/-- Where the clock has to stop, the frame is taken. -/
theorem allocBuf_takes (h : HashedInv s) (hsmall : s.numBufs < 2 ^ 31) (hk : FirstStop s k)
    (hw : (writeBack (frameAt s k) s).1.isOk = true) :
    ∃ t, allocBuf s = (.ok (frameAt s k), t) ∧ Taken s k t ∧ HashedInv t := by
  have hlt := frameAt_lt h.pool.hand k
  cases hv : (s.desc (frameAt s k)).valid with
  | false =>
      -- a frame that is not in use: the table and the files stay
      obtain ⟨u, hu, hcall⟩ := allocBuf_free h hsmall hk hv
      have hscanned := hu.tick_scanned
      have hclear := h.pool.invalid _ hv
      have hhand : (tick u).clockHand < (tick u).numBufs := by
        rw [hu.tick_clockHand, hscanned.numBufs]
        exact hlt
      refine ⟨tick u, hcall, ?_, h.scanned hscanned (h.pool.scanned hscanned hhand)⟩
      constructor
      case clockHand => exact hu.tick_clockHand
      case numBufs => exact hscanned.numBufs
      case objects => exact hscanned.objects
      case frame => exact hscanned.frame
      case cleared => rw [hclear, hscanned.invalid _ hv]
      case met => exact fun i _ hi => hu.met i hi
      case unmet => exact fun i _ hi => hu.unmet i hi
      case written =>
        have hclean : (s.desc (frameAt s k)).dirty = false := by
          rw [← hclear]
          rfl
        refine ⟨fun hd => ?_, fun _ => hscanned.streams⟩
        rw [hclean] at hd
        cases hd
      case entry =>
        intro f p
        rw [if_neg]
        · exact hscanned.entry f p
        · rintro ⟨hv', -⟩
          rw [hv] at hv'
          cases hv'
  | true =>
      -- a victim: its page may be written back, and its entry goes
      obtain ⟨u, σ, hu, hvictim, hσ, hcall⟩ := allocBuf_victim h hsmall hk hv hw
      have hscanned := hu.tick_scanned
      have hhand : (tick u).clockHand < (tick u).numBufs := by
        rw [hu.tick_clockHand, hscanned.numBufs]
        exact hlt
      have hinv := h.scanned hscanned (h.pool.scanned hscanned hhand)
      have hdesc := hscanned.desc (frameAt s k)
      have hfile : ((tick u).desc (frameAt s k)).file = (s.desc (frameAt s k)).file := by rw [hdesc]
      have hpage : ((tick u).desc (frameAt s k)).pageNo = (s.desc (frameAt s k)).pageNo := by rw [hdesc]
      have hentry : (tick u).entry ((tick u).desc (frameAt s k)).file
          ((tick u).desc (frameAt s k)).pageNo = some (frameAt s k) := by
        rw [hfile, hpage, hscanned.entry]
        exact h.hashed _ hvictim.valid hvictim.unpinned
      have hevict := hinv.evict hentry
      rw [hfile, hpage] at hevict
      refine ⟨_, hcall, ?_, hevict.setStreams σ⟩
      constructor
      case clockHand => exact hu.tick_clockHand
      case numBufs => exact hscanned.numBufs
      case objects => exact hscanned.objects
      case frame => exact hscanned.frame
      case cleared =>
        rw [Sys.desc_setDesc, if_pos rfl, Sys.desc_setStreams, Sys.desc_dropEntry, hdesc]
        rfl
      case met =>
        intro i hne hi
        rw [Sys.desc_setDesc, if_neg hne]
        exact hu.met i hi
      case unmet =>
        intro i hne hi
        rw [Sys.desc_setDesc, if_neg hne]
        exact hu.unmet i hi
      case written => exact hσ
      case entry =>
        intro f p
        rw [Sys.entry_setDesc, Sys.entry_setStreams, Sys.entry_dropEntry, hscanned.entry]
        simp only [hv, true_and]

/-- The first stop, when there is one. -/
theorem exists_firstStop (h : ∃ m < 2 * s.numBufs, StopsAt s m) : ∃ k, FirstStop s k := by
  classical
  obtain ⟨hbound, hstops⟩ := Nat.find_spec h
  refine ⟨Nat.find h, hbound, hstops, fun m hm hstop => ?_⟩
  exact Nat.find_min h hm ⟨Nat.lt_trans hm hbound, hstop⟩

/-- `allocBuf` is second-chance replacement: it refuses just a full pool, of which it changes the reference
bits, and it takes the frame of the first stop. -/
structure SecondChance (s : Sys D) : Prop where
  refuses : (allocBuf s).1 = .error (.throw .bufferExceeded) ↔ ∀ i < s.numBufs, Held (s.desc i)
  bits : (allocBuf s).1 = .error (.throw .bufferExceeded) →
    Scanned s (allocBuf s).2 ∧ (allocBuf s).2.clockHand = s.clockHand
  takes : (allocBuf s).1 ≠ .error (.throw .bufferExceeded) →
    ∃ k t, FirstStop s k ∧ allocBuf s = (.ok (frameAt s k), t) ∧ Taken s k t

/-- The write of the page that the clock is to take is not refused. -/
def Writable (s : Sys D) : Prop := ∀ k, FirstStop s k → (writeBack (frameAt s k) s).1.isOk = true

theorem secondChance_of_hashedInv (h : HashedInv s) (hsmall : s.numBufs < 2 ^ 31) (hw : Writable s) :
    SecondChance s := by
  by_cases hstop : ∃ m < 2 * s.numBufs, StopsAt s m
  · -- the clock stops, so the call returns, and the pool was not full
    obtain ⟨k, hk⟩ := exists_firstStop hstop
    obtain ⟨t, hcall, ht, -⟩ := allocBuf_takes h hsmall hk (hw k hk)
    have hgoes : (allocBuf s).1 ≠ .error (.throw .bufferExceeded) := by
      rw [hcall]
      exact nofun
    refine ⟨⟨fun hr => absurd hr hgoes, fun hheld => ?_⟩, fun hr => absurd hr hgoes,
      fun _ => ⟨k, t, hk, hcall, ht⟩⟩
    exact absurd hk.stops ((no_stop_iff h.pool.hand).mpr hheld k hk.bound)
  · -- the clock does not stop, so the pool is full and the call throws
    have hnone : ∀ k < 2 * s.numBufs, ¬ StopsAt s k := fun k hk hs => hstop ⟨k, hk, hs⟩
    obtain ⟨u, hcall, hu⟩ := allocBuf_full h hsmall hnone
    have hrefused : (allocBuf s).1 = .error (.throw .bufferExceeded) := by rw [hcall]
    refine ⟨⟨fun _ => (no_stop_iff h.pool.hand).mp hnone, fun _ => hrefused⟩, fun _ => ?_,
      fun hr => absurd hrefused hr⟩
    rw [hcall]
    refine ⟨hu.scanned, ?_⟩
    rw [hu.clockHand, Nat.add_mul_mod_self_right, Nat.mod_eq_of_lt h.pool.hand]

/-! ## The calls

`HashedInv` is all that the clock asks of the pool: every frame that may be taken has its entry. It is kept by every
call, as long as the pages that are replaced can be written.
-/

/-- The frame that `allocBuf` returns is free, and no page has been entered. -/
theorem allocBuf_hashed (h : HashedInv s) (hsmall : s.numBufs < 2 ^ 31) (hw : Writable s) :
    wp allocBuf
      (fun i t => HashedInv t ∧ t.numBufs = s.numBufs ∧ (t.desc i).valid = false ∧ i < t.numBufs ∧
        ∀ f p, s.entry f p = none → t.entry f p = none)
      (fun _ t => HashedInv t ∧ t.numBufs = s.numBufs) s := by
  by_cases hstop : ∃ m < 2 * s.numBufs, StopsAt s m
  · obtain ⟨k, hk⟩ := exists_firstStop hstop
    obtain ⟨t, hcall, ht, hinv⟩ := allocBuf_takes h hsmall hk (hw k hk)
    rw [wp_of_ok hcall]
    refine ⟨hinv, ht.numBufs, ?_, ?_, fun f p hnone => ?_⟩
    · rw [ht.cleared]
      rfl
    · rw [ht.numBufs]
      exact frameAt_lt h.pool.hand k
    · rw [ht.entry, hnone, ite_self]
  · obtain ⟨u, hcall, hu⟩ := allocBuf_full h hsmall fun k hk hs => hstop ⟨k, hk, hs⟩
    rw [wp_of_error hcall]
    have hhand : u.clockHand < u.numBufs := by
      rw [hu.clockHand, hu.scanned.numBufs]
      exact Nat.mod_lt _ (Nat.zero_lt_of_lt h.pool.hand)
    exact ⟨h.scanned hu.scanned (h.pool.scanned hu.scanned hhand), hu.scanned.numBufs⟩

/-- A page is put into a frame that is free. If it has an entry already, the frame stays pinned for good. -/
theorem load_hashed (h : HashedInv s) {i f p : Nat} (hv : (s.desc i).valid = false) (hi : i < s.numBufs)
    (pg : Page D) :
    wp (insert f p i) (fun _ t => HashedInv t ∧ t.numBufs = s.numBufs)
      (fun _ t => HashedInv t ∧ t.numBufs = s.numBufs) ((s.setFrame i pg).setDesc i (BufDesc.set f p)) := by
  apply wp_insert
  · intro hnone
    exact ⟨h.load hv hi hnone pg, rfl⟩
  · intro _ _ _ _
    exact ⟨h.loadOnly hv hi pg, rfl⟩
  · intro _
    exact ⟨h.loadOnly hv hi pg, rfl⟩

/-- A round of `flushFile`. -/
theorem flushFrame_hashed (h : HashedInv s) {f i : Nat} {object : FileObject}
    (hf : s.objects f = some object) :
    wp (flushFrame f i) (fun _ t => HashedInv t ∧ t.numBufs = s.numBufs ∧ t.objects = s.objects)
      (fun _ t => HashedInv t ∧ t.numBufs = s.numBufs) s := by
  apply wp_flushFrame hf (h.hashed i)
  · intro _
    exact ⟨h, rfl, rfl⟩
  · intro _ _ _
    exact ⟨h, rfl⟩
  · intro _ _
    exact ⟨h, rfl⟩
  · intro hv hfile
    apply wp_writeBack_any
    · intro streams
      rw [← hfile]
      exact ⟨(h.evict (h.hashed i hv.valid hv.unpinned)).setStreams streams, rfl, rfl⟩
    · intro _ streams
      exact ⟨h.setStreams streams, rfl⟩

/-- The call may have to make room. -/
def MakesRoom (s : Sys D) : BufOp → Prop
  | .readPage file pageNo => s.entry file pageNo = none
  | .allocPage _ => True
  | _ => False

theorem call_hashed [PageData D] (h : HashedInv s) (hsmall : s.numBufs < 2 ^ 31) (op : BufOp)
    {object : FileObject} (hf : s.objects op.file = some object) (hw : MakesRoom s op → Writable s) :
    wp (call op) (fun _ t => HashedInv t ∧ t.numBufs = s.numBufs)
      (fun _ t => HashedInv t ∧ t.numBufs = s.numBufs) s := by
  cases op with
  | readPage f p =>
      rw [call, wp_bind]
      apply wp_readPage hf
      · intro i hi
        exact ⟨h.mark hi fun _ => ⟨rfl, rfl, rfl, rfl⟩, rfl⟩
      · -- a miss: the page goes into the frame that has been freed
        intro hnone
        refine wp_mono (allocBuf_hashed h hsmall (hw hnone)) ?_ fun _ _ he => he
        rintro i t ⟨ht, hnum, hv, hi, -⟩
        rw [← hnum]
        apply wp_onFile_any
        · intro pg streams
          exact load_hashed (ht.setStreams streams) hv hi pg
        · intro _ streams
          exact ⟨ht.setStreams streams, rfl⟩
  | allocPage f =>
      rw [call, wp_bind]
      apply wp_allocPage
      refine wp_mono (allocBuf_hashed h hsmall (hw trivial)) ?_ fun _ _ he => he
      rintro i t ⟨ht, hnum, hv, hi, -⟩
      rw [← hnum]
      apply wp_onFile_any
      · rintro ⟨p, pg⟩ streams
        exact load_hashed (ht.setStreams streams) hv hi pg
      · intro _ streams
        exact ⟨ht.setStreams streams, rfl⟩
  | unPinPage f p dirty =>
      rw [call, wp_bind]
      apply wp_unPinPage hf
      · intro _
        exact ⟨h, rfl⟩
      · intro i hi _
        exact ⟨h.mark hi fun _ => ⟨rfl, rfl, rfl, rfl⟩, rfl⟩
      · intro i hi _
        exact ⟨h.mark hi fun _ => ⟨rfl, rfl, rfl, rfl⟩, rfl⟩
  | flushFile f =>
      rw [call, wp_bind, flushFile, wp_bind, wp_get]
      refine wp_mono (wp_forRange (I := fun _ (t : Sys D) =>
        HashedInv t ∧ t.numBufs = s.numBufs ∧ t.objects = s.objects) ⟨h, rfl, rfl⟩ ?_)
        (fun _ t ht => ⟨ht.1, ht.2.1⟩) fun _ _ he => he
      rintro i - t ⟨ht, hnum, hobj⟩
      rw [← hnum, ← hobj]
      exact flushFrame_hashed ht (by rw [hobj]; exact hf)
  | disposePage f p =>
      rw [call, wp_bind]
      apply wp_disposePage hf
      · intro _
        exact ⟨h, rfl⟩
      · -- the page is in the pool: it goes from there before the file is asked
        intro i hi
        obtain ⟨-, rfl, rfl⟩ := h.pool.entry f p i hi
        have hevict := h.evict hi
        apply wp_onFile_any
        · intro _ streams
          exact ⟨hevict.setStreams streams, rfl⟩
        · intro _ streams
          exact ⟨hevict.setStreams streams, rfl⟩

/-! ## Runs

Between calls anything may be done to the objects, the files and the pages in the frames. The table and the
descriptors are only changed by calls.
-/

/-- The events considered: calls are made with a `File` object that exists, and no write of a page that is
replaced is refused. -/
def WritesSucceed (s : Sys D) : PoolEvent D → Prop
  | .call op => (s.objects op.file).isSome = true ∧ (MakesRoom s op → Writable s)
  | .outside _ _ _ => True

theorem outcome_hashed [PageData D] (h : HashedInv s) (hsmall : s.numBufs < 2 ^ 31) {e : PoolEvent D}
    (hok : WritesSucceed s e) :
    HashedInv (outcome P3.BufMgr.call s e) ∧ (outcome P3.BufMgr.call s e).numBufs = s.numBufs := by
  cases e with
  | call op =>
      obtain ⟨hlive, hw⟩ := hok
      obtain ⟨object, hf⟩ := Option.isSome_iff_exists.mp hlive
      exact (wp_of_state (I := fun t => HashedInv t ∧ t.numBufs = s.numBufs) rfl).mp
        (call_hashed h hsmall op hf hw)
  | outside objects streams frames =>
      exact ⟨⟨⟨h.pool.hand, h.pool.frameNo, h.pool.valid_lt, h.pool.invalid, h.pool.entry⟩, h.hashed⟩, rfl⟩

/-- **`allocBuf` is second-chance replacement**, in every pool that a run leads to. -/
theorem allocBuf_secondChance [PageData D] (objects : Nat → Option FileObject)
    (streams : FileName → FStream D) (bufs : Nat) (hbufs : 1 ≤ bufs) (hsmall : bufs < 2 ^ 31)
    {events : List (PoolEvent D)} {s : Sys D}
    (h : Run (Run.guarded WritesSucceed (outcome P3.BufMgr.call)) ⟨objects, streams, .new bufs⟩ events s)
    (hw : Writable s) : SecondChance s := by
  have hinv : HashedInv s ∧ s.numBufs = bufs := by
    apply h.invariant (I := fun s => HashedInv s ∧ s.numBufs = bufs)
    · exact ⟨(pinInv_new objects streams hbufs).hashedInv, rfl⟩
    · rintro s e _ ⟨hs, rfl⟩ ⟨hok, rfl⟩
      exact outcome_hashed hs hsmall hok
  apply secondChance_of_hashedInv hinv.1 _ hw
  rw [hinv.2]
  exact hsmall

/-- Three frames, with all bits set, of which only the last is not pinned: the clock stops there at the last
tick of its second round. -/
theorem allocBuf_lastTick :
    let events : List (PoolEvent StringArea) :=
      [.call (.allocPage 1), .call (.allocPage 1), .call (.allocPage 1), .call (.unPinPage 1 3 true)]
    let s := events.foldl (outcome P3.BufMgr.call) ⟨twoFiles, newStreams true, .new 3⟩
    SecondChance s ∧ FirstStop s 5 := by
  have hall : ∀ s : Sys StringArea,
      (∀ k < 2 * s.numBufs, (writeBack (frameAt s k) s).1.isOk = true) → Writable s :=
    fun s h k hk => h k hk.bound
  refine ⟨allocBuf_secondChance twoFiles (newStreams true) 3 (by decide) (by decide) (Run.of_allOk
    ⟨⟨rfl, fun _ => hall _ ?_⟩, ⟨rfl, fun _ => hall _ ?_⟩, ⟨rfl, fun _ => hall _ ?_⟩, ⟨rfl, nofun⟩, trivial⟩)
    (hall _ ?_), ?_, ?_, ?_⟩
  all_goals decide +kernel

end CS640.Badger.P3.BufMgr
