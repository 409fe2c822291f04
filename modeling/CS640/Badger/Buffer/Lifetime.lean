import CS640.Badger.Buffer.P3

/-!
# Frames and the objects their pages came through

A frame of p3 holds the address of the `File` object its page was read through. No call makes a frame
hold an address other than that of the object it is called with, and the ones that were there.

Main result: `call_live`. A call may take frames, fill them, mark them and clear them, and may fail at any point of
this. In each state on the way the frames that are in use have pages of objects that exist: only filling a frame
makes it hold an address, and that is the one the call was made with.
-/

namespace CS640.Badger.P3.BufMgr

open CS640.Lib Prog
open CS640.Badger.BufMgr

variable {D : Type} {objects : Nat → Option FileObject} {s t : Sys D} {f p i : Nat}

/-- The objects are `objects`, and the frames in use are known to them. -/
structure FramesLive (objects : Nat → Option FileObject) (s : Sys D) : Prop where
  pool : PoolInv s
  same : s.objects = objects
  live : ∀ i, (s.desc i).valid = true → (objects (s.desc i).file).isSome = true

namespace FramesLive

theorem entries (h : FramesLive objects s) (hi : s.entry f p = some i) :
    (objects f).isSome = true := by
  obtain ⟨hv, rfl, rfl⟩ := h.pool.entry f p i hi
  exact h.live i hv

theorem scanned (h : FramesLive objects s) (ht : Scanned s t) (hinv : PoolInv t) :
    FramesLive objects t where
  pool := hinv
  same := ht.objects.trans h.same
  live j hj := by
    rw [ht.desc j] at hj ⊢
    exact h.live j hj

theorem setStreams (h : FramesLive objects s) (streams : FileName → FStream D) :
    FramesLive objects (s.setStreams streams) :=
  ⟨h.pool.setStreams streams, h.same, h.live⟩

theorem setFrame (h : FramesLive objects s) (i : Nat) (pg : Page D) :
    FramesLive objects (s.setFrame i pg) :=
  ⟨h.pool.setFrame i pg, h.same, h.live⟩

theorem dropEntry (h : FramesLive objects s) : FramesLive objects (s.dropEntry f p) where
  pool :=
    { hand := h.pool.hand
      frameNo := h.pool.frameNo
      valid_lt := h.pool.valid_lt
      invalid := h.pool.invalid
      entry := by
        intro f' p' j hj
        rw [Sys.entry_dropEntry] at hj
        split at hj
        · cases hj
        · exact h.pool.entry f' p' j hj }
  same := h.same
  live := h.live

theorem evict (h : FramesLive objects s) (i : Nat) :
    FramesLive objects
      ((s.dropEntry (s.desc i).file (s.desc i).pageNo).setDesc i BufDesc.clear) where
  pool := h.pool.evict i
  same := h.same
  live j hj := by
    -- a cleared frame is not in use
    by_cases hji : j = i
    · rw [Sys.desc_setDesc, if_pos hji] at hj
      cases hj
    · rw [Sys.desc_setDesc, if_neg hji] at hj ⊢
      exact h.live j hj

theorem mark (h : FramesLive objects s) (hv : (s.desc i).valid = true) {g : BufDesc → BufDesc}
    (hg : ∀ d, (g d).valid = d.valid ∧ (g d).file = d.file ∧ (g d).pageNo = d.pageNo ∧
      (g d).frameNo = d.frameNo) : FramesLive objects (s.setDesc i g) where
  pool := h.pool.mark hv hg
  same := h.same
  live j hj := by
    rw [Sys.desc_setDesc] at hj ⊢
    split
    · next hji =>
        rw [(hg _).2.1, ← hji]
        exact h.live j (hji ▸ hv)
    · next hji =>
        rw [if_neg hji] at hj
        exact h.live j hj

/-- Putting a page into a frame, with the object it was read through. -/
theorem load (h : FramesLive objects s) (hf : (objects f).isSome = true)
    (hv : (s.desc i).valid = false) (hi : i < s.numBufs) (pg : Page D) :
    FramesLive objects ((s.setFrame i pg).setDesc i (BufDesc.set f p)) where
  pool := h.pool.load hv hi pg
  same := h.same
  live j hj := by
    rw [Sys.desc_setDesc] at hj ⊢
    split
    · exact hf
    · next hji =>
        rw [if_neg hji] at hj
        exact h.live j hj

theorem enter (h : FramesLive objects s) (hnone : s.entry f p = none)
    (hv : (s.desc i).valid = true) (hf : (s.desc i).file = f) (hp : (s.desc i).pageNo = p) :
    FramesLive objects (s.putEntry f p i) :=
  ⟨h.pool.enter hnone hv hf hp, h.same, h.live⟩

/-- What a pool holds does not depend on what else there is. -/
theorem of_mgr {objects' : Nat → Option FileObject} (h : FramesLive objects s) (hmgr : t.mgr = s.mgr)
    (ht : t.objects = objects')
    (hlive : ∀ i, (s.desc i).valid = true → (objects' (s.desc i).file).isSome = true) :
    FramesLive objects' t := by
  have hdesc : t.desc = s.desc := congrArg BufMgr.bufDescTable hmgr
  have hentry : t.entry = s.entry := by
    unfold Sys.entry
    rw [hmgr]
  have hpool := h.pool
  -- each part of the invariant speaks of the pool, or of the objects alone
  refine ⟨⟨?_, ?_, ?_, ?_, ?_⟩, ht, ?_⟩
  · unfold Sys.clockHand Sys.numBufs
    rw [hmgr]
    exact hpool.hand
  · rw [hdesc]
    exact hpool.frameNo
  · rw [hdesc]
    unfold Sys.numBufs
    rw [hmgr]
    exact hpool.valid_lt
  · rw [hdesc]
    exact hpool.invalid
  · rw [hdesc, hentry]
    exact hpool.entry
  · rw [hdesc]
    exact hlive

end FramesLive

/-! ## The calls

One lemma for each function, from `allocBuf` on. They are stated with `Keeps`, so they hold for every way in which a
call can end.
-/

/-- The frame that `allocBuf` returns is not in use. -/
theorem allocBuf_live (h : FramesLive objects s) :
    wp allocBuf
      (fun i t => FramesLive objects t ∧ (t.desc i).valid = false ∧ i < t.numBufs)
      (fun _ t => FramesLive objects t) s := by
  -- no frame, a free one, an entry that is missing, or a victim that is written
  apply wp_allocBuf h.pool
  · intro t k ht hinv _ _
    exact h.scanned ht hinv
  · intro t ht hinv hv
    exact ⟨h.scanned ht hinv, hv, hinv.hand⟩
  · intro t e u ht hinv _ hremove
    have hkeeps : Keeps (FramesLive (D := D) objects)
        (remove (t.desc t.clockHand).file (t.desc t.clockHand).pageNo) :=
      remove_keeps fun u hu => hu.dropEntry
    have hkept := hkeeps t (h.scanned ht hinv)
    rw [wp_of_error hremove] at hkept
    exact hkept
  · intro t k u ht hinv hv hremove _ _
    have hlive := h.scanned ht hinv
    have hdrop : u = t.dropEntry (t.desc t.clockHand).file (t.desc t.clockHand).pageNo := by
      -- the victim was entered in the table, or its removal would have thrown
      cases hentry : t.entry (t.desc t.clockHand).file (t.desc t.clockHand).pageNo with
      | some i =>
          rw [remove_apply hentry] at hremove
          exact (congrArg Prod.snd hremove).symm
      | none =>
          obtain ⟨object, hobject⟩ := Option.isSome_iff_exists.mp (hlive.live _ hv.valid)
          have hobject : t.objects (t.desc t.clockHand).file = some object := by
            rw [hlive.same]
            exact hobject
          have hthrow := remove_missing hobject hentry
          rw [hremove] at hthrow
          cases hthrow
    subst hdrop
    apply wp_writeBack_any
    · intro streams
      refine ⟨(hlive.evict _).setStreams streams, ?_, hinv.hand⟩
      rw [Sys.desc_setDesc, if_pos rfl]
      rfl
    · intro _ streams
      exact hlive.dropEntry.setStreams streams

/-- Filling and entering a frame that is not in use. -/
theorem fill_live (h : FramesLive objects s) (hf : (objects f).isSome = true)
    (hv : (s.desc i).valid = false) (hi : i < s.numBufs) (streams : FileName → FStream D)
    (pg : Page D) :
    wp (insert f p i) (fun _ t => FramesLive objects t) (fun _ t => FramesLive objects t)
      (((s.setStreams streams).setFrame i pg).setDesc i (BufDesc.set f p)) := by
  have hload := (h.setStreams streams).load (p := p) hf hv hi pg
  -- the page is entered, or it is in the table already and the call throws
  cases hentry : s.entry f p with
  | none =>
      have hentry' :
          (((s.setStreams streams).setFrame i pg).setDesc i (BufDesc.set f p)).entry f p = none := hentry
      have hinsert := insert_apply (i := i) hentry'
      rw [wp_of_ok hinsert]
      have hself : ((((s.setStreams streams).setFrame i pg).setDesc i (BufDesc.set f p)).desc i) =
          BufDesc.set f p (s.desc i) := by
        rw [Sys.desc_setDesc, if_pos rfl]
        rfl
      apply hload.enter hentry
      · rw [hself]
        rfl
      · rw [hself]
        rfl
      · rw [hself]
        rfl
  | some j =>
      obtain ⟨object, hobject⟩ := Option.isSome_iff_exists.mp hf
      have hobject : (((s.setStreams streams).setFrame i pg).setDesc i (BufDesc.set f p)).objects f =
          some object := by
        rw [hload.same]
        exact hobject
      rw [wp_of_error (insert_present hobject hentry)]
      exact hload

theorem readPage_live [PageData D] (hf : (objects f).isSome = true) (p : Nat) :
    Keeps (FramesLive (D := D) objects) (readPage f p) := by
  intro s h
  obtain ⟨object, hobject⟩ := Option.isSome_iff_exists.mp hf
  have hobject : s.objects f = some object := by
    rw [h.same]
    exact hobject
  apply wp_readPage hobject
  · intro i hi
    exact h.mark (h.pool.entry f p i hi).1 fun _ => ⟨rfl, rfl, rfl, rfl⟩
  · intro _
    apply wp_mono (allocBuf_live h) _ fun _ _ he => he
    intro i t ht
    obtain ⟨ht, hv, hi⟩ := ht
    apply wp_onFile_any
    · intro pg streams
      exact fill_live ht hf hv hi streams pg
    · intro _ streams
      exact ht.setStreams streams

theorem allocPage_live [PageData D] (hf : (objects f).isSome = true) :
    Keeps (FramesLive (D := D) objects) (allocPage f) := by
  intro s h
  apply wp_allocPage
  apply wp_mono (allocBuf_live h) _ fun _ _ he => he
  intro i t ht
  obtain ⟨ht, hv, hi⟩ := ht
  apply wp_onFile_any
  · intro r streams
    exact fill_live ht hf hv hi streams r.2
  · intro _ streams
    exact ht.setStreams streams

theorem unPinPage_live (hf : (objects f).isSome = true) (p : Nat) (dirty : Bool) :
    Keeps (FramesLive (D := D) objects) (unPinPage f p dirty) := by
  intro s h
  obtain ⟨object, hobject⟩ := Option.isSome_iff_exists.mp hf
  have hobject : s.objects f = some object := by
    rw [h.same]
    exact hobject
  apply wp_unPinPage hobject
  · exact fun _ => h
  · intro i hi _
    exact h.mark (h.pool.entry f p i hi).1 fun _ => ⟨rfl, rfl, rfl, rfl⟩
  · intro i hi _
    exact h.mark (h.pool.entry f p i hi).1 fun _ => ⟨rfl, rfl, rfl, rfl⟩

theorem flushFrame_live (f i : Nat) : Keeps (FramesLive (D := D) objects) (flushFrame f i) := by
  intro s h
  unfold flushFrame
  rw [wp_bind, wp_get]
  dsimp only
  rw [wp_ite]
  -- a frame of the file is flushed unless it is pinned; a free frame makes the call throw
  refine ⟨fun hmine => ?_, fun _ => ?_⟩
  · obtain ⟨hv, rfl⟩ := hmine
    rw [wp_ite]
    refine ⟨fun _ => (filename_keeps _).bind (fun _ => Keeps.throw _) s h, fun _ => ?_⟩
    rw [wp_bind]
    apply wp_writeBack_any
    · intro streams
      have hmark := (h.setStreams streams).mark (g := fun d => { d with dirty := false }) hv
        fun _ => ⟨rfl, rfl, rfl, rfl⟩
      rw [wp_bind, wp_modify, wp_bind]
      cases hentry : s.entry (s.desc i).file (s.desc i).pageNo with
      | some j =>
          rw [wp_of_ok (remove_apply (s := (s.setStreams streams).setDesc i _) hentry), wp_modify,
            Sys.setDesc_dropEntry, Sys.setDesc_setDesc]
          exact (h.evict i).setStreams streams
      | none =>
          obtain ⟨object, hobject⟩ := Option.isSome_iff_exists.mp (h.live i hv)
          have hobject : s.objects (s.desc i).file = some object := by
            rw [h.same]
            exact hobject
          rw [wp_of_error (remove_missing (s := (s.setStreams streams).setDesc i _) hobject hentry)]
          exact hmark
    · intro _ streams
      exact h.setStreams streams
  · exact Keeps.ite (fun _ => Keeps.throw _) (fun _ => Keeps.pure _) s h

theorem disposePage_live [PageData D] (hf : (objects f).isSome = true) (p : Nat) :
    Keeps (FramesLive (D := D) objects) (disposePage f p) := by
  intro s h
  obtain ⟨object, hobject⟩ := Option.isSome_iff_exists.mp hf
  have hobject : s.objects f = some object := by
    rw [h.same]
    exact hobject
  apply wp_disposePage hobject
  · exact fun _ => h
  · intro i hi
    obtain ⟨-, rfl, rfl⟩ := h.pool.entry f p i hi
    apply wp_onFile_any
    · intro _ streams
      exact (h.evict i).setStreams streams
    · intro _ streams
      exact (h.evict i).setStreams streams

/-- **Every call keeps the frames with objects that exist**, if it is made with one. -/
theorem call_live [PageData D] (op : BufOp) (hf : (objects op.file).isSome = true) :
    Keeps (FramesLive (D := D) objects) (call op) := by
  cases op with
  | readPage f p => exact (readPage_live hf p).bind fun _ => Keeps.pure _
  | allocPage f => exact (allocPage_live hf).bind fun _ => Keeps.pure _
  | unPinPage f p dirty => exact (unPinPage_live hf p dirty).bind fun _ => Keeps.pure _
  | flushFile f =>
      have hflush : Keeps (FramesLive (D := D) objects) (flushFile f) :=
        Keeps.get.bind fun _ => Keeps.forRange _ fun i => flushFrame_live f i
      exact hflush.bind fun _ => Keeps.pure _
  | disposePage f p => exact (disposePage_live hf p).bind fun _ => Keeps.pure _

end CS640.Badger.P3.BufMgr
