import CS640.Badger.Buffer.P3
import CS640.Badger.Buffer.Clients
import CS640.Badger.File.Keep

/-!
# The buffer manager of p3 is transparent

Main result: `P3.BufMgr.transparent`. In every run, with whatever calls fail in between, a page is
read with the data last released for it and what the holders of pins have written since, and the
destructor leaves the data last released in the file of every page that no holder of a pin has
changed.

A reader may see what has not been released (`transparent_shared`): all the pins on a page are on one
frame.

`CacheInv` says of a pool that it is a cache of its files: what is known of a page is in its frame, and in its file
as well unless the frame is dirty. The module shows of each call that it keeps this:

* `allocBuf_cache`, `readPage_cache`, `allocPage_cache`, `flushFile_cache` and `unPin_cache`: the calls one by one,
  put together in `call_cache`.
* `destroy_cache`: the destructor, whose loop has the invariant `Drained`.
* `inv_after` and `transparent_of_inv`: one step of a run, and what the invariant says to a client.
-/

namespace CS640.Badger.P3.BufMgr

open CS640.Lib Prog
open CS640.Badger.BufMgr

variable {D : Type} [PageData D]

section Calls

variable {s t : Sys D} {pins : List Pin} {latest : Nat → Nat → Option (Page D)} {f p i : Nat}

/-! ### Making room

What `allocBuf` does to the other pages is nothing, but for the file of the page that it writes back. -/

/-- Writing back the frame of a page that its file takes; the hash table does not matter to it. -/
theorem writeBack_stored (hwrite : ∃ o st, s.objects (s.desc i).file = some o ∧
      o.writePage (s.desc i).pageNo (s.frame i) (s.streams o.filename) = (.ok (), st) ∧
      Stored s.objects s.streams o (s.desc i).pageNo (o.kind.normal (s.frame i))
        (Function.update s.streams o.filename st))
    (u : Sys D) (hdesc : u.desc i = s.desc i) (hframe : u.frame i = s.frame i)
    (hstreams : u.streams = s.streams) (hobj : u.objects = s.objects) :
    ∃ streams, writeBack i u = (.ok (), u.setStreams streams) ∧
      ((s.desc i).dirty = false ∧ streams = s.streams ∨
        ∃ o, s.objects (s.desc i).file = some o ∧
          Stored s.objects s.streams o (s.desc i).pageNo (o.kind.normal (s.frame i)) streams) := by
  rw [writeBack, bind_of_ok (get_apply u), hdesc, hframe]
  cases hdirty : (s.desc i).dirty with
  -- a clean frame: nothing is written
  | false =>
      refine ⟨s.streams, ?_, Or.inl ⟨rfl, rfl⟩⟩
      rw [if_neg Bool.false_ne_true, ← hstreams]
      rfl
  -- a dirty one: its page goes to the file
  | true =>
      obtain ⟨o, st, ho, hwrite, hst⟩ := hwrite
      refine ⟨_, ?_, Or.inr ⟨o, ho, hst⟩⟩
      have ho' : u.objects (s.desc i).file = some o := by
        rw [hobj]
        exact ho
      have hwrite' : o.writePage (s.desc i).pageNo (s.frame i) (u.streams o.filename) =
          (.ok (), st) := by
        rw [hstreams]
        exact hwrite
      rw [if_pos rfl, ← hstreams, onFile_apply ho', hwrite']
      rfl

/-- The pages of `t` are in the same frames in `s`, and as dirty, and the pages that can be read from
their files in `s` can be so in `t`. -/
structure Leaves (s t : Sys D) : Prop where
  entry : ∀ f p j, t.entry f p = some j → s.entry f p = some j ∧ (t.desc j).dirty = (s.desc j).dirty
  mayRead : ∀ a o p, s.objects a = some o → o.kind.MayRead (s.streams o.filename) p →
    o.kind.MayRead (t.streams o.filename) p

namespace Leaves

omit [PageData D]

theorem of_scanned (h : Scanned s t) : Leaves s t where
  entry f p j hj := by
    rw [h.entry] at hj
    refine ⟨hj, ?_⟩
    rw [h.desc j]
  mayRead a o p _ hread := by
    rw [h.streams]
    exact hread

/-- A page that is not in `s` is not in `t`. -/
theorem none (h : Leaves s t) (hnone : s.entry f p = none) : t.entry f p = none := by
  cases hj : t.entry f p with
  | none => rfl
  | some j =>
      have hj' := (h.entry f p j hj).1
      rw [hnone] at hj'
      cases hj'

/-- The frame that the clock came to is emptied. -/
theorem evicted (h : Scanned s t) (hinv : PoolInv t) {streams : FileName → FStream D}
    (hread : ∀ a o p, t.objects a = some o → o.kind.MayRead (t.streams o.filename) p →
      o.kind.MayRead (streams o.filename) p) :
    Leaves s (((t.setStreams streams).dropEntry (t.desc i).file (t.desc i).pageNo).setDesc i
      BufDesc.clear) where
  entry f p j hj := by
    obtain ⟨hj', hne⟩ := hinv.entry_evict hj
    obtain ⟨hs, hdirty⟩ := (of_scanned h).entry f p j hj'
    refine ⟨hs, ?_⟩
    rw [Sys.desc_setDesc, if_neg hne]
    exact hdirty
  mayRead a o p ha hmay := by
    rw [← h.objects] at ha
    rw [← h.streams] at hmay
    exact hread a o p ha hmay

end Leaves

/-- Writing back and emptying the frame of an unpinned page. -/
theorem writeBack_evict (h : CacheInv s pins latest) (hv : Victim s i) (u : Sys D)
    (hdesc : u.desc i = s.desc i) (hframe : u.frame i = s.frame i)
    (hstreams : u.streams = s.streams) (hobj : u.objects = s.objects) :
    ∃ streams, writeBack i u = (.ok (), u.setStreams streams) ∧
      CacheInv (((s.setStreams streams).dropEntry (s.desc i).file (s.desc i).pageNo).setDesc i
        BufDesc.clear) pins latest ∧
      ∀ a o p, s.objects a = some o → o.kind.MayRead (s.streams o.filename) p →
        o.kind.MayRead (streams o.filename) p := by
  obtain ⟨streams, hrun, hcase⟩ := writeBack_stored (h.writePage_stored (h.full i hv.valid)) u hdesc
    hframe hstreams hobj
  refine ⟨streams, hrun, ?_⟩
  -- either way the frame may be emptied: its file has the data already, or has got it now
  rcases hcase with ⟨hclean, rfl⟩ | ⟨o, ho, hst⟩
  · exact ⟨h.evict_clean hv hclean, fun _ _ _ _ hread => hread⟩
  · exact ⟨h.evict_written hv ho hst, fun _ _ _ ha => hst.mayRead ha⟩

theorem allocBuf_cache (h : CacheInv s pins latest) :
    wp allocBuf
      (fun i t => CacheInv t pins latest ∧ (t.desc i).valid = false ∧ i < t.numBufs ∧
        t.objects = s.objects ∧ Leaves s t)
      (onThrow fun _ t => CacheInv t pins latest ∧ t.objects = s.objects) s := by
  apply wp_allocBuf_hashed h.pinInv.hashedInv
  · -- the clock found no frame
    intro t k ht hinv _ _
    exact ⟨h.scanned ht hinv, ht.objects⟩
  · -- it came to a free frame
    intro t ht hinv hv
    exact ⟨h.scanned ht hinv, hv, hinv.hand, ht.objects, Leaves.of_scanned ht⟩
  · -- it came to an unpinned page, which is written back and dropped from the table first
    intro t k ht hinv hv _
    obtain ⟨streams, hrun, hevict, hread⟩ := writeBack_evict (h.scanned ht hinv) hv (t.dropEntry
      (t.desc t.clockHand).file (t.desc t.clockHand).pageNo) rfl rfl rfl rfl
    rw [wp_of_ok hrun]
    refine ⟨hevict, ?_, hinv.hand, ht.objects, Leaves.evicted ht hinv hread⟩
    rw [Sys.desc_setDesc, if_pos rfl]
    rfl

/-! ### The calls

One specification for each call: what it returns with keeps `CacheInv` for the pins and the texts after it, and
what it throws with keeps it for those before. Where a page is read from its file this is so if the reading does not
cost the stream (`MayLoad`).
-/

/-- If the page is not in the pool, then reading it from its file does not cost the stream. -/
def MayLoad (s : Sys D) (o : FileObject) (f p : Nat) : Prop :=
  s.entry f p = none → o.kind.MayRead (s.streams o.filename) p

/-- A `PageFile` refuses to read what it does not have, so only of a `BlobFile` may a `readPage` return that
has cost the stream. -/
theorem readPage_cache (h : CacheInv s pins latest) {o : FileObject} (ho : s.objects f = some o) :
    wp (readPage f p)
      (fun i t => (o.kind = .blob → MayLoad s o f p) →
        CacheInv t (⟨f, p, i, false⟩ :: pins) latest ∧ t.objects = s.objects)
      (onThrow fun _ t => MayLoad s o f p → CacheInv t pins latest ∧ t.objects = s.objects) s := by
  apply wp_readPage ho
  · -- the page is in the pool: only the pin count and the bit change
    intro i hi _
    refine ⟨h.mark hi (fun _ => ⟨rfl, rfl, rfl, rfl⟩) (h.pinInv.pin hi) ?_ ?_, rfl⟩
    · intro hdirty
      exact ⟨hdirty, CacheState.unchanged_cons.mp⟩
    · intro f' p' _
      exact CacheState.unchanged_cons.mp
  · -- it is not, so a frame is taken and the page is read into it
    intro hnone
    refine wp_mono (allocBuf_cache h) ?_ fun _ _ he => onThrow_mono he fun _ ht _ => ht
    rintro i t ⟨ht, hv, hi, hobj, hleaves⟩
    have ho' : t.objects f = some o := by
      rw [hobj]
      exact ho
    have horder := ht.order f o ho'
    have hmissing : t.entry f p = none := hleaves.none hnone
    have hread : MayLoad s o f p → o.kind.MayRead (t.streams o.filename) p :=
      fun hload => hleaves.mayRead f o p ho (hload hnone)
    have hself := t.setStream_self o.filename
    rw [wp_onFile ho']
    have hinsert : ∀ (u : Sys D) (pg : Page D), u.entry f p = none →
        insert f p i ((u.setFrame i pg).setDesc i (BufDesc.set f p)) =
          (.ok (), ((u.setFrame i pg).setDesc i (BufDesc.set f p)).putEntry f p i) :=
      fun u pg hu => insert_apply hu
    cases hdisk : onDisk t o p with
    -- the file has the page: it is read, and it is what is known of it
    | some d =>
        obtain ⟨pg, hr, hdata, hnum⟩ := FileObject.readPage_of_held horder hdisk
        rw [wp_of_ok hr, hself, wp_of_ok (hinsert t pg hmissing)]
        intro _
        refine ⟨ht.load hv hi hmissing ho' ?_ ?_, hobj⟩
        · intro hkind
          rw [hdisk]
          exact ⟨rfl, hnum hkind⟩
        · intro d' hd'
          have := ht.inFile f o p d' ho' hmissing hd'
          rw [hdisk] at this
          rw [hdata]
          exact Option.some.inj this
    -- the file has no such page: a `BlobFile` returns an empty one, and a `PageFile` throws
    | none =>
        refine wp_mono (FileObject.readPage_of_not_held horder hdisk) ?_ ?_
        · rintro pg st ⟨hkind, hsame⟩
          rw [wp_of_ok (hinsert (t.setStream o.filename st) pg hmissing)]
          intro hload
          obtain rfl := hsame (hread (hload hkind))
          rw [hself]
          refine ⟨ht.load hv hi hmissing ho' ?_ ?_, hobj⟩
          · intro hk
            rw [hkind] at hk
            cases hk
          · intro d' hd'
            have := ht.inFile f o p d' ho' hmissing hd'
            rw [hdisk] at this
            cases this
        · intro e st hsame
          apply onThrow_intro
          intro _ hload
          obtain rfl := hsame (hread hload)
          rw [hself]
          exact ⟨ht, hobj⟩

theorem allocPage_cache (h : CacheInv s pins latest) {o : FileObject} (ho : s.objects f = some o) :
    wp (allocPage f)
      (fun r t => CacheInv t (⟨f, r.1, r.2, false⟩ :: pins)
        (noteData latest f r.1 (o.kind.normal (t.frame r.2))) ∧ t.objects = s.objects)
      (onThrow fun e t => CacheInv t pins latest ∧ t.objects = s.objects ∨
        ∃ name p i, e = .hashAlreadyPresent name p i) s := by
  apply wp_allocPage
  refine wp_mono (allocBuf_cache h) ?_ fun e t he => onThrow_mono he fun _ => Or.inl
  rintro i t ⟨ht, hv, hi, hobj, -⟩
  have ho' : t.objects f = some o := by
    rw [hobj]
    exact ho
  rw [wp_onFile ho']
  refine wp_mono (FileObject.allocatePage_puts (ht.order f o ho')) ?_ ?_
  · rintro ⟨p, pg⟩ st ⟨hst, hpage⟩
    dsimp only at hst hpage ⊢
    cases hp : t.entry f p with
    -- the table has the new page already: only a blob can hand it out again
    | some j =>
        have hinsert : insert f p i (((t.setStream o.filename st).setFrame i pg).setDesc i
            (BufDesc.set f p)) = (.error (.throw (.hashAlreadyPresent o.filename p j)),
            ((t.setStream o.filename st).setFrame i pg).setDesc i (BufDesc.set f p)) :=
          insert_present ho' hp
        rw [wp_of_error hinsert]
        exact Or.inr ⟨_, _, _, rfl⟩
    -- the page is new to the pool, and its data is what the file was given
    | none =>
        have hstored := ht.stored ho' hst
        have hnew := ht.newPage ho' hp hstored
        have hinsert : insert f p i (((t.setStream o.filename st).setFrame i pg).setDesc i
            (BufDesc.set f p)) = (.ok (), (((t.setStream o.filename st).setFrame i pg).setDesc i
            (BufDesc.set f p)).putEntry f p i) := insert_apply hp
        rw [wp_of_ok hinsert]
        refine ⟨?_, hobj⟩
        rw [Sys.frame_putEntry, Sys.frame_loaded]
        apply hnew.load hv hi hp ho'
        · intro hkind
          refine ⟨?_, (hpage hkind).1⟩
          rw [onDisk, Sys.streams_setStreams, hstored.own]
          rfl
        · intro d hd
          rw [noteData, if_pos ⟨rfl, rfl⟩] at hd
          exact Option.some.inj hd
  · -- the file refuses, and its stream is as it was
    rintro e st rfl
    have hself := t.setStream_self o.filename
    rw [hself]
    cases e with
    | throw x => exact Or.inl ⟨ht, hobj⟩
    | _ => trivial

theorem flushFrame_cache (h : CacheInv s pins latest) {o : FileObject} (ho : s.objects f = some o) :
    wp (flushFrame f i) (fun _ t => CacheInv t pins latest ∧ t.objects = s.objects)
      (onThrow fun _ t => CacheInv t pins latest ∧ t.objects = s.objects) s := by
  -- in order: the frame is not of this file; it is pinned; it is not valid; it is written back and emptied
  apply wp_flushFrame ho (fun hv _ => h.full i hv)
  · intro _
    exact ⟨h, rfl⟩
  · intro _ _ _
    exact ⟨h, rfl⟩
  · intro _ _
    exact ⟨h, rfl⟩
  · intro hv hfile
    obtain ⟨streams, hrun, hevict, -⟩ := writeBack_evict h hv s rfl rfl rfl rfl
    rw [wp_of_ok hrun, ← hfile]
    exact ⟨hevict, rfl⟩

theorem flushFile_cache (h : CacheInv s pins latest) {o : FileObject} (ho : s.objects f = some o) :
    wp (flushFile f) (fun _ t => CacheInv t pins latest ∧ t.objects = s.objects)
      (onThrow fun _ t => CacheInv t pins latest ∧ t.objects = s.objects) s := by
  rw [flushFile, wp_bind, wp_get]
  apply wp_forRange (I := fun _ t => CacheInv t pins latest ∧ t.objects = s.objects) ⟨h, rfl⟩
  rintro i - t ⟨ht, hobj⟩
  have ho' : t.objects f = some o := by
    rw [hobj]
    exact ho
  refine wp_mono (flushFrame_cache ht ho') ?_ ?_
  · rintro _ u ⟨hu, hobj'⟩
    exact ⟨hu, hobj'.trans hobj⟩
  · intro e u he
    exact onThrow_mono he fun _ hu => ⟨hu.1, hu.2.trans hobj⟩

/-- An `unPinPage` that returns takes a pin back; one that fails may mark its page dirty. -/
theorem unPin_cache (h : CacheInv s pins latest) {o : FileObject} (ho : s.objects f = some o) (p : Nat)
    (dirty : Bool) :
    wp (call (.unPinPage f p dirty))
      (fun _ t => 0 < pinsOn pins f p ∧ ∃ i, s.entry f p = some i ∧ t = s.setDesc i fun d =>
        { d with dirty := dirty || d.dirty, pinCnt := d.pinCnt - 1 })
      (onThrow fun _ t => CacheInv t pins latest) s := by
  rw [call, wp_bind]
  apply wp_unPinPage ho
  · -- the page has no pin, or is not in the pool
    intro _
    exact h
  · -- the call throws, but the frame has been marked dirty already
    intro i hi _
    refine h.mark hi (fun _ => ?_) (h.pinInv.markDirty hi) ?_ ?_
    · exact ⟨rfl, rfl, rfl, rfl⟩
    · intro hd
      exact ⟨(Bool.or_eq_false_iff.mp hd).2, id⟩
    · intro _ _ _ hun
      exact hun
  · intro i hi hcnt
    refine ⟨?_, i, hi, rfl⟩
    rw [← h.pinInv.counted f p i hi]
    exact Nat.pos_of_ne_zero hcnt

/-- The destructor has come to frame `k`: the files have the data of the pages in the frames before it. -/
structure Drained (s : Sys D) (pins : List Pin) (latest : Nat → Nat → Option (Page D)) (k : Nat)
    (streams : FileName → FStream D) : Prop where
  cache : CacheInv (s.setStreams streams) pins latest
  onDisk : ∀ f o p i d, s.objects f = some o → s.entry f p = some i → i < k → latest f p = some d →
    Unchanged pins f p → onDisk (s.setStreams streams) o p = some d

namespace Drained

variable {k : Nat} {streams : FileName → FStream D}

theorem start (h : CacheInv s pins latest) : Drained s pins latest 0 s.streams :=
  ⟨h, fun _ _ _ _ _ _ _ hlt => absurd hlt (Nat.not_lt_zero _)⟩

/-- A frame is passed over that is not in use, or whose file has its data. -/
theorem skip (h : Drained s pins latest k streams)
    (hclean : (s.desc k).valid = true → (s.desc k).dirty = false) :
    Drained s pins latest (k + 1) streams where
  cache := h.cache
  onDisk f o p i d ho hi hlt hd hun := by
    -- the frames before `k` are settled already; frame `k` is clean, so its file has its data
    rcases Nat.lt_succ_iff_lt_or_eq.mp hlt with hlt | rfl
    · exact h.onDisk f o p i d ho hi hlt hd hun
    · have hv := (h.cache.pinInv.pool.entry f p i hi).1
      exact (h.cache.inFrame f o p i d ho hi hd).2 (hclean hv) hun

/-- The page of a frame has been written to its file. -/
theorem write (h : Drained s pins latest k streams) (hv : (s.desc k).valid = true) {o' : FileObject}
    (ho' : s.objects (s.desc k).file = some o') {streams' : FileName → FStream D}
    (hst : Stored s.objects streams o' (s.desc k).pageNo (o'.kind.normal (s.frame k)) streams') :
    Drained s pins latest (k + 1) streams' where
  cache := h.cache.writeFrame (h.cache.full k hv) ho' hst
  onDisk f o p i d ho hi hlt hd hun := by
    -- the file of frame `k` gets its data, and no write to one page takes away another
    by_cases hik : i = k
    · subst hik
      obtain ⟨-, rfl, rfl⟩ := h.cache.pinInv.pool.entry f p i hi
      obtain rfl := Option.some.inj (ho'.symm.trans ho)
      have hdata : o'.kind.normal (s.frame i) = d := (h.cache.inFrame _ o' _ i d ho hi hd).1
      rw [← hdata]
      exact hst.own
    · apply hst.keep f o p d ho (h.cache.apart ho ho' _) (h.onDisk f o p i d ho hi (by omega) hd hun)
      rintro ⟨rfl, rfl⟩
      exact hik (Option.some.inj (hi.symm.trans (h.cache.full k hv)))

end Drained

/-- The destructor writes back every page whose file does not have its data. -/
theorem destroy_cache (h : CacheInv s pins latest) :
    ∃ streams, destroy s = (.ok (), s.setStreams streams) ∧
      ∀ f o p d, s.objects f = some o → latest f p = some d → Unchanged pins f p →
        onDisk (s.setStreams streams) o p = some d := by
  have hloop : wp destroy
      (fun _ t => ∃ streams, t = s.setStreams streams ∧ Drained s pins latest s.numBufs streams)
      (fun _ _ => False) s := by
    rw [destroy, wp_bind, wp_get]
    apply wp_forRange (I := fun k (t : Sys D) => ∃ streams, t = s.setStreams streams ∧
      Drained s pins latest k streams) ⟨s.streams, rfl, Drained.start h⟩
    intro k _ t hdrained
    obtain ⟨streams, rfl, hdrained⟩ := hdrained
    rw [wp_bind, wp_get, wp_ite]
    constructor
    · -- the frame is in use
      intro hv
      obtain ⟨streams', hrun, hcase⟩ := writeBack_stored
        (hdrained.cache.writePage_stored (hdrained.cache.full k hv)) _ rfl rfl rfl rfl
      rw [wp_of_ok hrun]
      refine ⟨streams', rfl, ?_⟩
      -- it was clean, or it has been written just now
      rcases hcase with ⟨hclean, rfl⟩ | ⟨o, ho, hst⟩
      · exact hdrained.skip fun _ => hclean
      · exact hdrained.write hv ho hst
    · intro hv
      exact ⟨streams, rfl, hdrained.skip fun hv' => absurd hv' hv⟩
  obtain ⟨_, t, hr, streams, rfl, hdrained⟩ := exists_ok_of_wp hloop
  refine ⟨streams, hr, ?_⟩
  -- when the loop is done, a page is in no frame, or in one that the loop has passed
  intro f o p d ho hd hun
  cases hentry : s.entry f p with
  | none => exact hdrained.cache.inFile f o p d ho hentry hd
  | some i =>
      obtain ⟨hv, -, -⟩ := h.pinInv.pool.entry f p i hentry
      exact hdrained.onDisk f o p i d ho hentry (h.pinInv.pool.valid_lt i hv) hd hun

/-- The call costs no stream. -/
def Spares (s : Sys D) : BufOp → Prop
  | .readPage f p => ∀ o, s.objects f = some o → MayLoad s o f p
  | _ => True

/-- **Every call keeps the pool a cache of its files**, unless it costs a stream. -/
theorem call_cache (h : CacheInv s pins latest) {op : BufOp} {o : FileObject}
    (ho : s.objects op.file = some o) (hunpin : op.IsUnPin = false)
    (hdispose : ∀ f p, op ≠ .disposePage f p) (hspares : Spares s op) :
    wp (call op)
      (fun r t => CacheInv t (op.notePins (.ok r) pins) (op.notePages (.ok r) t latest))
      (onThrow fun e t => CacheInv t pins latest ∨ ∃ name p i, e = .hashAlreadyPresent name p i)
      s := by
  cases op with
  | readPage f p =>
      rw [call, wp_bind]
      refine wp_mono (readPage_cache h ho) ?_ ?_
      · intro i t ht
        exact (ht fun _ => hspares o ho).1
      · intro e t he
        exact onThrow_mono he fun _ ht => Or.inl (ht (hspares o ho)).1
  | allocPage f =>
      rw [call, wp_bind]
      refine wp_mono (allocPage_cache h ho) ?_ ?_
      · intro r t ht
        have ho' : t.objects f = some o := by
          rw [ht.2]
          exact ho
        show CacheInv t _ (noteAt latest f r.1 (shown t f r.2))
        rw [noteAt_shown ho']
        exact ht.1
      · intro e t he
        exact onThrow_mono he fun _ ht => ht.imp_left And.left
  | unPinPage f p dirty => cases hunpin
  | flushFile f =>
      rw [call, wp_bind]
      refine wp_mono (flushFile_cache h ho) ?_ ?_
      · intro _ t ht
        exact ht.1
      · intro e t he
        exact onThrow_mono he fun _ ht => Or.inl ht.1
  | disposePage f p => exact absurd rfl (hdispose f p)

end Calls

/-! ## The streams

No call makes a stream of another kind, or one `File` object of another. So where all streams return the
bytes last written in the beginning, they do so throughout, and no call costs one. -/

/-- `t` has the `File` objects of `s`, and streams of the same kinds. -/
structure Steady (s t : Sys D) : Prop where
  objects : t.objects = s.objects
  sticky : ∀ fn, (t.streams fn).sticky = (s.streams fn).sticky

section Steady

variable {s t : Sys D}

omit [PageData D] in
theorem Steady.refl (s : Sys D) : Steady s s := ⟨rfl, fun _ => rfl⟩

omit [PageData D] in
theorem onFile_steady {α : Type} (f : Nat) {x : FileObject → Prog Exn (FStream D) α}
    (hx : ∀ o b, Keeps (fun st => st.sticky = b) (x o)) : Keeps (Steady s) (onFile f x) := by
  intro t ht
  cases ho : t.objects f with
  | none =>
      rw [wp_onFile_dangling ho]
      exact ht
  -- only the stream of the file of this object is replaced, by one of its kind
  | some o =>
      have hstream : ∀ st : FStream D, st.sticky = (t.streams o.filename).sticky →
          Steady s (t.setStream o.filename st) := by
        intro st hst
        refine ⟨ht.objects, fun fn => ?_⟩
        show (Function.update t.streams o.filename st fn).sticky = _
        by_cases hfn : fn = o.filename
        · rw [hfn, Function.update_self, hst, ht.sticky]
        · rw [Function.update_of_ne hfn, ht.sticky]
      rw [wp_onFile ho]
      exact wp_mono (hx o _ _ rfl) (fun _ st => hstream st) fun _ st => hstream st

theorem call_steady (op : BufOp) : Keeps (Steady s) (call op) := by
  apply call_keeps
  case hhand => exact fun _ _ h => ⟨h.objects, h.sticky⟩
  case hdesc => exact fun _ _ _ h => ⟨h.objects, h.sticky⟩
  case hframe => exact fun _ _ _ h => ⟨h.objects, h.sticky⟩
  case hput => exact fun _ _ _ _ h => ⟨h.objects, h.sticky⟩
  case hdrop => exact fun _ _ _ h => ⟨h.objects, h.sticky⟩
  case hread => exact fun f p => onFile_steady f fun o b => (FStream.allKeep_sticky b).object_readPage o p
  case hwrite =>
    exact fun f p page => onFile_steady f fun o b => (FStream.allKeep_sticky b).object_writePage o p page
  case hallocate => exact fun f => onFile_steady f fun o b => (FStream.allKeep_sticky b).object_allocatePage o
  case hdelete =>
    exact fun f p => onFile_steady f fun o b => (FStream.allKeep_sticky b).object_deletePage o p

theorem after_steady (s : CacheState D) (e : CacheEvent D) : Steady s.sys (s.after call e).sys := by
  cases e with
  | call op => exact (call_steady op).apply (Steady.refl s.sys)
  | unPin pin dirty =>
      have ht := (call_steady (.unPinPage pin.file pin.pageNo dirty)).apply (Steady.refl s.sys)
      unfold CacheState.after
      dsimp only
      split
      · next hr =>
          rw [hr] at ht
          split <;> exact ht
      · next hr =>
          rw [hr] at ht
          exact ht
  | write pin page => exact ⟨rfl, fun _ => rfl⟩

/-- The streams of the files return the bytes last written. -/
def Rereads (s : Sys D) : Prop := ∀ a o, s.objects a = some o → (s.streams o.filename).sticky = false

omit [PageData D] in
theorem Steady.rereads (h : Steady s t) (hs : Rereads s) : Rereads t := by
  intro a o ha
  rw [h.objects] at ha
  rw [h.sticky]
  exact hs a o ha

omit [PageData D] in
theorem Rereads.mayLoad (h : Rereads s) {f p : Nat} {o : FileObject} (ho : s.objects f = some o) :
    MayLoad s o f p := by
  intro _ hsticky
  rw [h f o ho] at hsticky
  cases hsticky

omit [PageData D] in
theorem Rereads.spares (h : Rereads s) (op : BufOp) : Spares s op := by
  cases op with
  | readPage f p => exact fun _ ho => h.mayLoad ho
  | _ => trivial

end Steady

/-! ## Runs

A run is one of clients that dispose of no page: what `disposePage` does to a page that has not been written back is
another matter. The invariant of a run is `CacheState.Inv` together with that no stream is sticky; the second is
what the first needs of a step that throws.
-/

section Runs

variable {s : CacheState D}

/-- The events considered: those of clients that dispose of no page, where no call ends in a
`HashAlreadyPresentException`. -/
def CacheOk (s : CacheState D) (e : CacheEvent D) : Prop :=
  s.Ok call e ∧
    match e with
    | .call op => (∀ f p, op ≠ .disposePage f p) ∧
        ∀ name p i, (call op s.sys).1 ≠ .error (.throw (.hashAlreadyPresent name p i))
    | _ => True

/-- Among these, the events whose calls cost no stream. -/
def OkSpares (s : CacheState D) (e : CacheEvent D) : Prop :=
  CacheOk s e ∧ ∀ op, e = .call op → Spares s.sys op

/-- What clients see of the pool is what they have put there. -/
structure Transparent (s : CacheState D) : Prop where
  read : ∀ f p o i t, s.sys.objects f = some o → readPage f p s.sys = (.ok i, t) →
    (∀ d, s.latest f p = some d → o.kind.normal (t.frame i) = d) ∧
      (o.kind = .page → (s.latest f p).isSome = true)
  same : ∀ f p, Unchanged s.pins f p → s.released f p = s.latest f p
  closed : ∃ t, destroy s.sys = (.ok (), t) ∧ ∀ f o p d, t.objects f = some o →
    s.released f p = some d → Unchanged s.pins f p → onDisk t o p = some d

theorem inv_after (h : s.Inv) {e : CacheEvent D} (hok : OkSpares s e) : (s.after call e).Inv := by
  obtain ⟨⟨hok, hcall⟩, hspares⟩ := hok
  cases e with
  | call op =>
      obtain ⟨hlive, hunpin, hgo⟩ := hok
      obtain ⟨hdispose, hpresent⟩ := hcall
      obtain ⟨o, ho⟩ := Option.isSome_iff_exists.mp hlive
      have hspec := call_cache h.cache ho hunpin hdispose (hspares op rfl)
      apply CacheState.inv_call h hunpin
      apply Proceeds.of_wp hgo hspec
        (P := fun r t => CacheInv t (op.notePins r s.pins) (op.notePages r t s.latest))
      · exact fun r t _ ht => ht
      · intro e t hr ht
        rw [op.notePins_throw, op.notePages_throw]
        -- no page is in the table twice, by the condition on the events
        rcases ht with ht | ⟨f, p, i, rfl⟩
        · exact ht
        · exact absurd (congrArg Prod.fst hr) (hpresent f p i)
  | unPin pin dirty =>
      obtain ⟨hlive, hgo, hpin⟩ := hok
      obtain ⟨o, ho⟩ := Option.isSome_iff_exists.mp hlive
      have hspec := unPin_cache h.cache ho pin.pageNo dirty
      rcases hr : call (.unPinPage pin.file pin.pageNo dirty) s.sys with ⟨r, t⟩
      rw [hr] at hgo
      rw [CacheState.after, hr]
      rcases hgo.cases with ⟨r, rfl⟩ | ⟨e, rfl⟩
      · rw [wp_of_ok hr] at hspec
        obtain ⟨hpos, i, hi, rfl⟩ := hspec
        -- the pin given back is one that the client holds; without a pin on the page the call would have thrown
        rcases hpin with ⟨hmem, hchanged⟩ | hnone
        · obtain rfl := Option.some.inj (hi.symm.trans (h.cache.pinInv.held pin hmem))
          dsimp only
          rw [if_pos hmem]
          exact CacheState.inv_unPin h hmem hchanged
        · omega
      · rw [wp_of_error hr] at hspec
        exact ⟨hspec, h.same⟩
  | write pin page => exact CacheState.inv_write h hok

/-- A page that is read shows what is known of it. -/
theorem reads_of_inv (h : s.Inv) {f p i : Nat} {o : FileObject} {t : Sys D} (ho : s.sys.objects f = some o)
    (hload : o.kind = .blob → MayLoad s.sys o f p) (hr : readPage f p s.sys = (.ok i, t)) :
    (∀ d, s.latest f p = some d → o.kind.normal (t.frame i) = d) ∧
      (o.kind = .page → (s.latest f p).isSome = true) := by
  have hspec := readPage_cache h.cache (p := p) ho
  rw [wp_of_ok hr] at hspec
  obtain ⟨ht, hobj⟩ := hspec hload
  -- what `readPage` returns is pinned afterwards, and there the invariant says what it shows
  have ho' : t.objects f = some o := by
    rw [hobj]
    exact ho
  have hi := ht.pinInv.held _ List.mem_cons_self
  constructor
  · intro d hd
    exact (ht.inFrame f o p i d ho' hi hd).1
  · intro hkind
    obtain ⟨o', ho'', hpage⟩ := ht.cached f p i hi
    obtain rfl := Option.some.inj (ho''.symm.trans ho')
    exact ht.known f o' p ho' hkind (hpage hkind).1

theorem transparent_of_inv (h : s.Inv) (hrereads : Rereads s.sys) : Transparent s := by
  constructor
  case read => exact fun f p o i t ho hr => reads_of_inv h ho (fun _ => hrereads.mayLoad ho) hr
  case same => exact h.same
  case closed =>
    obtain ⟨streams, hr, hdisk⟩ := destroy_cache h.cache
    refine ⟨_, hr, ?_⟩
    intro f o p d ho hd hun
    rw [h.same f p hun] at hd
    exact hdisk f o p d ho hd hun

end Runs

/-- **The pool is transparent**, in every run of calls on files in good order, each with one `File`
object. -/
theorem transparent (objects : Nat → Option FileObject) (streams : FileName → FStream D) (bufs : Nat)
    (hbufs : 1 ≤ bufs)
    (hone : ∀ a b oa ob, objects a = some oa → objects b = some ob → oa.filename = ob.filename →
      a = b)
    (hsound : ∀ a o, objects a = some o → o.kind.Sound (streams o.filename))
    {events : List (CacheEvent D)} {s : CacheState D}
    (h : Run (Run.guarded CacheOk (CacheState.after call)) (CacheState.new objects streams bufs)
      events s) : Transparent s := by
  have hinv : s.Inv ∧ Rereads s.sys := by
    apply h.invariant (I := fun s => s.Inv ∧ Rereads s.sys)
    · exact ⟨CacheState.inv_new hbufs hone fun a o ho => (hsound a o ho).inOrder, fun a o ho => (hsound a o ho).1⟩
    · intro s e t hs hstep
      obtain ⟨hok, rfl⟩ := hstep
      exact ⟨inv_after hs.1 ⟨hok, fun op _ => hs.2.spares op⟩, (after_steady s e).rereads hs.2⟩
  exact transparent_of_inv hinv.1 hinv.2

/-- One frame: a page is written to, released, evicted by another one and read again. -/
theorem transparent_evicts :
    let pin : Pin := ⟨1, 1, 0, false⟩
    let events : List (CacheEvent CharArea) :=
      [.call (.allocPage 1), .write pin (pageOne fun _ => 7), .unPin { pin with changed := true } true,
        .call (.allocPage 2), .unPin ⟨2, 1, 0, false⟩ false, .call (.readPage 1 1)]
    let s := events.foldl (CacheState.after call) (CacheState.new twoFiles (newStreams false) 1)
    (s.sys.frame 0).data 5 = 7 ∧ Transparent s := by
  refine ⟨by decide +kernel, transparent twoFiles (newStreams false) 1 (by decide)
    (fun a b oa ob => CacheState.twoFiles_one) (fun a o => CacheState.twoFiles_sound)
    (Run.of_allOk ?_)⟩
  refine ⟨?allocated, ?written, ?released, ?evicted, ?givenBack, ?readAgain, trivial⟩
  case allocated =>
    refine ⟨⟨rfl, rfl, trivial⟩, ?_, ?_⟩
    · intro _ _ h
      cases h
    · intro _ _ _ h
      cases h
  case written =>
    refine ⟨⟨List.mem_cons_self, ?_⟩, trivial⟩
    intro _ _ _
    rfl
  case released => exact ⟨⟨rfl, trivial, Or.inl ⟨List.mem_cons_self, fun _ => rfl⟩⟩, trivial⟩
  case evicted =>
    refine ⟨⟨rfl, rfl, trivial⟩, ?_, ?_⟩
    · intro _ _ h
      cases h
    · intro _ _ _ h
      cases h
  case givenBack => exact ⟨⟨rfl, trivial, Or.inl ⟨List.mem_cons_self, fun h => by cases h⟩⟩, trivial⟩
  case readAgain =>
    refine ⟨⟨rfl, rfl, by decide +kernel⟩, ?_, ?_⟩
    · intro _ _ h
      cases h
    · intro _ _ _ h
      have hfails : Except.isOk _ = false := congrArg Except.isOk h
      revert hfails
      decide +kernel

/-- One frame: a second client reads a page that the first one has written to and not yet released,
and sees what was not released. Both give their pins back. -/
theorem transparent_shared :
    let pin : Pin := ⟨1, 1, 0, false⟩
    let new := CacheState.new twoFiles (newStreams false) 1
    let before : List (CacheEvent CharArea) := [.call (.allocPage 1), .write pin (pageOne fun _ => 7)]
    let rest : List (CacheEvent CharArea) :=
      [.call (.readPage 1 1), .unPin pin false, .unPin { pin with changed := true } true]
    let s := before.foldl (CacheState.after call) new
    let t := (before ++ rest).foldl (CacheState.after call) new
    Run (Run.guarded CacheOk (CacheState.after call)) new (before ++ rest) t ∧ t.pins = [] ∧
      ∃ u d, readPage 1 1 s.sys = (.ok 0, u) ∧ s.released 1 1 = some d ∧
        FileKind.normal .page (u.frame 0) ≠ d := by
  refine ⟨Run.of_allOk ?_, rfl, _, _, rfl, rfl, ?_⟩
  · refine ⟨?allocated, ?written, ?shared, ?givenBack, ?released, trivial⟩
    case allocated =>
      refine ⟨⟨rfl, rfl, trivial⟩, ?_, ?_⟩
      · intro _ _ h
        cases h
      · intro _ _ _ h
        cases h
    case written =>
      refine ⟨⟨List.mem_cons_self, ?_⟩, trivial⟩
      intro _ _ _
      rfl
    case shared =>
      refine ⟨⟨rfl, rfl, trivial⟩, ?_, ?_⟩
      · intro _ _ h
        cases h
      · intro _ _ _ h
        cases h
    case givenBack => exact ⟨⟨rfl, trivial, Or.inl ⟨List.mem_cons_self, fun h => by cases h⟩⟩, trivial⟩
    case released => exact ⟨⟨rfl, trivial, Or.inl ⟨List.mem_cons_self, fun _ => rfl⟩⟩, trivial⟩
  · intro h
    have hdata : (7 : UInt8) = 0 := congrFun (congrArg Page.data h) 5
    cases hdata

end CS640.Badger.P3.BufMgr
