import CS640.Badger.Buffer.Transparent
import CS640.Badger.Buffer.Coherence

/-!
# Several handles of a file in p3

Main result: `P3.BufMgr.coherence`. In every run in which a page is read from its file only while no other
`File` object on the file has it dirty, and is released dirty, or disposed of, only while no other one has it
in the pool, a `readPage` through any object returns the data last released through any of them, and the
destructor leaves that data in the file.

The pool itself sees to none of this: to it, the page of each object is a page of its own
(`coherence_stale`).

The pool knows a page by the address of a `File` object, so two objects on one file have two frames for a page of
it. What makes them one is stated once, as `SharedInv` of `Coherence`; here each call of the manager is shown to
keep it:

* `readPage_shared`, `allocPage_shared`, `flushFile_shared`, `disposePage_shared`, `unPinPage_shared`: the calls,
  each under what an orderly client promises for it.
* `destroy_shared`: the destructor, whose loop has the invariant `Closing`.
* `sharedInv_after` and `coherent_of_sharedInv`: one step of a run, and what the invariant says to a client.
-/

namespace CS640.Badger.P3.BufMgr

open CS640.Lib Prog
open CS640.Badger.BufMgr

variable {D : Type}

section Calls

variable [PageData D] {s t : Sys D} {pins : List Pin} {released : FileName → Nat → Option (Page D)} {f p i : Nat}
  {o : FileObject}

/-!
## The calls

Each specification has the same shape: after the call, however it ended, the invariant holds of the pool that is
left and of the pins and the data the clients then have. A frame is lost only to an eviction, and `Leaves` says what
an eviction leaves of the frames that a call still has to do with.
-/

/-- Writing back and emptying the frame of an unpinned page. -/
theorem writeBack_leaves (h : SharedInv s pins released) (hv : Victim s i) (u : Sys D)
    (hdesc : u.desc i = s.desc i) (hframe : u.frame i = s.frame i) (hstreams : u.streams = s.streams)
    (hobj : u.objects = s.objects) :
    ∃ streams, writeBack i u = (.ok (), u.setStreams streams) ∧
      SharedInv (((s.setStreams streams).dropEntry (s.desc i).file (s.desc i).pageNo).setDesc i
        BufDesc.clear) pins released ∧
      ∀ a o p, s.objects a = some o → o.kind.MayRead (s.streams o.filename) p →
        o.kind.MayRead (streams o.filename) p := by
  obtain ⟨streams, hrun, hcase⟩ := writeBack_stored (h.writePage_stored (h.full i hv.valid)) u hdesc
    hframe hstreams hobj
  refine ⟨streams, hrun, ?_⟩
  rcases hcase with ⟨hclean, rfl⟩ | ⟨o, ho, hst⟩
  · -- a clean frame is emptied without a write, and the file is as it was
    exact ⟨h.evict_clean hv hclean, fun _ _ _ _ hread => hread⟩
  · exact ⟨h.evict_written hv ho hst, fun _ _ _ ha => hst.mayRead ha⟩

theorem allocBuf_shared (h : SharedInv s pins released) :
    wp allocBuf
      (fun i t => SharedInv t pins released ∧ (t.desc i).valid = false ∧ i < t.numBufs ∧
        t.objects = s.objects ∧ Leaves s t)
      (onThrow fun _ t => SharedInv t pins released ∧ t.objects = s.objects) s := by
  apply wp_allocBuf_hashed h.pinInv.hashedInv
  · -- the clock found no frame
    intro t k ht hinv _ _
    exact ⟨h.scanned ht hinv, ht.objects⟩
  · -- it came to a free frame
    intro t ht hinv hv
    exact ⟨h.scanned ht hinv, hv, hinv.hand, ht.objects, Leaves.of_scanned ht⟩
  · -- it came to an unpinned page, which is written back and dropped from the table first
    intro t k ht hinv hv _
    obtain ⟨streams, hrun, hevict, hread⟩ := writeBack_leaves (h.scanned ht hinv) hv (t.dropEntry
      (t.desc t.clockHand).file (t.desc t.clockHand).pageNo) rfl rfl rfl rfl
    rw [wp_of_ok hrun]
    refine ⟨hevict, ?_, hinv.hand, ht.objects, Leaves.evicted ht hinv hread⟩
    rw [Sys.desc_setDesc, if_pos rfl]
    rfl

/-- No object on the file of the one at `f` has the page in a dirty frame. -/
def CleanElsewhere (s : Sys D) (f p : Nat) : Prop :=
  ∀ o g j, s.objects f = some o → s.objects g = some o → s.entry g p = some j → (s.desc j).dirty = false

/-- No other object on the file of the one at `f` has the page in the pool. -/
def AbsentElsewhere (s : Sys D) (f p : Nat) : Prop :=
  ∀ o g, s.objects f = some o → s.objects g = some o → g ≠ f → s.entry g p = none

theorem readPage_shared (h : SharedInv s pins released) (ho : s.objects f = some o)
    (hmiss : s.entry f p = none → CleanElsewhere s f p ∧ o.kind.MayRead (s.streams o.filename) p) :
    wp (readPage f p)
      (fun i t => SharedInv t (⟨f, p, i, false⟩ :: pins) released ∧ t.objects = s.objects)
      (onThrow fun _ t => SharedInv t pins released ∧ t.objects = s.objects) s := by
  apply wp_readPage ho
  · -- the page is in the pool: only the pin count and the bit change
    intro i hi
    refine ⟨h.mark hi (fun _ => ⟨rfl, rfl, rfl, rfl⟩) (h.pinInv.pin hi) id ?_, rfl⟩
    intro f' p'
    exact CacheState.unchanged_cons.mp
  · -- it is not, so a frame is taken and the page is read into it
    intro hnone
    refine wp_mono (allocBuf_shared h) ?_ fun _ _ he => he
    intro i t hspec
    obtain ⟨ht, hv, hi, hobj, hleaves⟩ := hspec
    have ho' : t.objects f = some o := by
      rw [hobj]
      exact ho
    have horder := ht.order f o ho'
    have hread := hleaves.mayRead f o p ho (hmiss hnone).2
    have hself := t.setStream_self o.filename
    have hmissing : t.entry f p = none := hleaves.none hnone
    have hclean' : ∀ g j, t.objects g = some o → t.entry g p = some j → (t.desc j).dirty = false := by
      intro g j hg hj
      rw [hobj] at hg
      obtain ⟨hj', hdirty⟩ := hleaves.entry g p j hj
      rw [hdirty]
      exact (hmiss hnone).1 o g j ho hg hj'
    rw [wp_onFile ho']
    have hinsert : ∀ pg : Page D, insert f p i ((t.setFrame i pg).setDesc i (BufDesc.set f p)) =
        (.ok (), ((t.setFrame i pg).setDesc i (BufDesc.set f p)).putEntry f p i) :=
      fun pg => insert_apply hmissing
    -- the file has what was released last
    have hdata : ∀ d, released o.filename p = some d → onDisk t o p = some d :=
      fun d hd => ht.onDisk_of_absent ho' hclean' hd
    cases hdisk : onDisk t o p with
    -- the file has the page: it is read, and it is what was released last
    | some d =>
        obtain ⟨pg, hr, hpg, hnum⟩ := FileObject.readPage_of_held horder hdisk
        rw [wp_of_ok hr, hself, wp_of_ok (hinsert pg)]
        refine ⟨ht.load hv hi hmissing ho' hclean' ?_ ?_, hobj⟩
        · intro hkind
          rw [hdisk]
          exact ⟨rfl, hnum hkind⟩
        · intro d' hd'
          have hsame := hdata d' hd'
          rw [hdisk] at hsame
          rw [hpg]
          exact Option.some.inj hsame
    -- the file has no such page: a `PageFile` throws, and a `BlobFile` returns an empty page
    | none =>
        refine wp_mono (FileObject.readPage_of_not_held horder hdisk) ?_ ?_
        · intro pg st hpg
          obtain ⟨hkind, hsame⟩ := hpg
          obtain rfl := hsame hread
          rw [hself, wp_of_ok (hinsert pg)]
          refine ⟨ht.load hv hi hmissing ho' hclean' ?_ ?_, hobj⟩
          · intro hk
            rw [hkind] at hk
            cases hk
          · intro d' hd'
            have hsame := hdata d' hd'
            rw [hdisk] at hsame
            cases hsame
        · intro e st hsame
          obtain rfl := hsame hread
          rw [hself]
          exact onThrow_intro (fun _ => ⟨ht, hobj⟩) e

/-- The page that is handed out is in the pool under no object, if its file does not know which pages are
in use. -/
theorem allocPage_shared (h : SharedInv s pins released) (ho : s.objects f = some o) :
    wp (allocPage f)
      (fun r t => (o.kind = .blob → ∀ g, s.objects g = some o → s.entry g r.1 = none) →
        SharedInv t (⟨f, r.1, r.2, false⟩ :: pins)
          (putPage released o.filename r.1 (some (o.kind.normal (t.frame r.2)))) ∧ t.objects = s.objects)
      (onThrow fun e t => SharedInv t pins released ∧ t.objects = s.objects ∨
        o.kind = .blob ∧ ∃ name p i, e = .hashAlreadyPresent name p i) s := by
  apply wp_allocPage
  refine wp_mono (allocBuf_shared h) ?_ fun e t he => onThrow_mono he fun _ => Or.inl
  intro i t hspec
  obtain ⟨ht, hv, hi, hobj, hleaves⟩ := hspec
  have ho' : t.objects f = some o := by
    rw [hobj]
    exact ho
  rw [wp_onFile ho']
  refine wp_mono (FileObject.allocatePage_puts (ht.order f o ho')) ?_ ?_
  · intro r st hr
    obtain ⟨p, pg⟩ := r
    obtain ⟨hst, hpage⟩ := hr
    dsimp only at hst hpage ⊢
    -- a paged file hands out a page that it does not have, and the pool has no such page
    have hfresh : o.kind = .page → ∀ g, t.objects g = some o → t.entry g p = none := by
      intro hkind g hg
      cases hj : t.entry g p with
      | none => rfl
      | some j =>
          obtain ⟨o', hg', hheld⟩ := ht.cached g p j hj
          obtain rfl := Option.some.inj (hg'.symm.trans hg)
          have hsome := (hheld hkind).1
          rw [onDisk, (hpage hkind).2] at hsome
          cases hsome
    cases hp : t.entry f p with
    -- the table has the new page under this object: only a blob can hand it out again
    | some j =>
        have hinsert : insert f p i (((t.setStream o.filename st).setFrame i pg).setDesc i
            (BufDesc.set f p)) = (.error (.throw (.hashAlreadyPresent o.filename p j)),
            ((t.setStream o.filename st).setFrame i pg).setDesc i (BufDesc.set f p)) :=
          insert_present ho' hp
        rw [wp_of_error hinsert]
        refine Or.inr ⟨?_, _, _, _, rfl⟩
        cases hkind : o.kind with
        | blob => rfl
        | page =>
            rw [hfresh hkind f ho'] at hp
            cases hp
    -- the page is new to the pool, and its data is what the file was given
    | none =>
        have hinsert : insert f p i (((t.setStream o.filename st).setFrame i pg).setDesc i
            (BufDesc.set f p)) = (.ok (), (((t.setStream o.filename st).setFrame i pg).setDesc i
            (BufDesc.set f p)).putEntry f p i) := insert_apply hp
        rw [wp_of_ok hinsert]
        intro hblob
        -- no object on the file has it, by the kind of file or by what an orderly client promises
        have hnone : ∀ g, t.objects g = some o → t.entry g p = none := by
          intro g hg
          cases hkind : o.kind with
          | page => exact hfresh hkind g hg
          | blob =>
              rw [hobj] at hg
              exact hleaves.none (hblob hkind g hg)
        have hstored := ht.stored ho' hst
        have hnew := ht.newPage hnone hstored ho'
        refine ⟨?_, hobj⟩
        rw [Sys.frame_putEntry, Sys.frame_loaded]
        apply hnew.load hv hi hp ho'
        · intro g j hg hj
          have hj : t.entry g p = some j := hj
          rw [hnone g hg] at hj
          cases hj
        · intro hkind
          refine ⟨?_, (hpage hkind).1⟩
          rw [onDisk, Sys.streams_setStreams, hstored.own]
          rfl
        · intro d hd
          rw [putPage_self] at hd
          exact Option.some.inj hd
  · -- the file refuses, and its stream is as it was
    intro e st he
    obtain rfl := he
    have hself := t.setStream_self o.filename
    rw [hself]
    cases e with
    | throw x => exact Or.inl ⟨ht, hobj⟩
    | _ => trivial

theorem flushFile_shared (h : SharedInv s pins released) (ho : s.objects f = some o) :
    wp (flushFile f) (fun _ t => SharedInv t pins released ∧ t.objects = s.objects)
      (onThrow fun _ t => SharedInv t pins released ∧ t.objects = s.objects) s := by
  rw [flushFile, wp_bind, wp_get]
  apply wp_forRange (I := fun _ t => SharedInv t pins released ∧ t.objects = s.objects) ⟨h, rfl⟩
  intro i _ t hinv
  obtain ⟨ht, hobj⟩ := hinv
  have ho' : t.objects f = some o := by
    rw [hobj]
    exact ho
  -- in order: the frame is not of this file; it is pinned; it is not valid; it is written back and emptied
  apply wp_flushFrame ho' (fun hv _ => ht.full i hv)
  · exact fun _ => ⟨ht, hobj⟩
  · exact fun _ _ _ => ⟨ht, hobj⟩
  · exact fun _ _ => ⟨ht, hobj⟩
  · intro hv hfile
    obtain ⟨streams, hrun, hevict, -⟩ := writeBack_leaves ht hv t rfl rfl rfl rfl
    rw [wp_of_ok hrun, ← hfile]
    exact ⟨hevict, hobj⟩

/-- A page that no other object has in the pool is deleted; a refusal costs what was in its frame. -/
theorem disposePage_shared (h : SharedInv s pins released) (ho : s.objects f = some o)
    (hunpinned : ∀ i, s.entry f p = some i → (s.desc i).pinCnt = 0) (honly : AbsentElsewhere s f p)
    (hrefused : ∀ i, s.entry f p = some i → (s.desc i).dirty = true →
      ∀ e u, onFile f (fun o => o.deletePage p) s ≠ (.error (.throw e), u)) :
    wp (disposePage f p) (fun _ t => SharedInv t pins (putPage released o.filename p none) ∧
        t.objects = s.objects)
      (onThrow fun _ t => SharedInv t pins released) s := by
  apply wp_disposePage ho
  · -- the page is not in the pool, and the table refuses before the file is asked
    intro _
    exact h
  · intro i hi
    obtain ⟨hvalid, rfl, rfl⟩ := h.pinInv.pool.entry f p i hi
    have hv : Victim s i := ⟨hvalid, hunpinned i hi⟩
    have hpage : o.kind = .page → (o.kind.held (s.streams o.filename) (s.desc i).pageNo).isSome =
        true := by
      obtain ⟨o', ho', hpage⟩ := h.cached _ _ i hi
      obtain rfl := Option.some.inj (ho'.symm.trans ho)
      exact fun hkind => (hpage hkind).1
    -- `t` is the pool without the frame: that much has happened before the file is asked
    set t := (s.dropEntry (s.desc i).file (s.desc i).pageNo).setDesc i BufDesc.clear with ht
    have ho' : t.objects (s.desc i).file = some o := ho
    have hspec := FileObject.deletePage_deletes (h.order _ o ho) fun hkind =>
      FileKind.mayRead_of_held (hpage hkind)
    rw [wp_onFile ho']
    rcases hr : o.deletePage (s.desc i).pageNo (s.streams o.filename) with ⟨e | _, st⟩
    · -- the file refuses, so the page stays in it, but the frame is gone
      rw [wp_of_error hr] at hspec
      obtain rfl := hspec
      have hr' : o.deletePage (s.desc i).pageNo (t.streams o.filename) =
          (.error e, t.streams o.filename) := hr
      rw [wp_of_error hr', t.setStream_self]
      cases e with
      | throw x =>
          cases hdirty : (s.desc i).dirty with
          | false => exact h.evict_clean hv hdirty
          | true =>
              have hthrow := onFile_apply (x := fun o => o.deletePage (s.desc i).pageNo) ho
              rw [hr] at hthrow
              -- a dirty frame would be lost here, which the hypothesis rules out
              exact absurd hthrow (hrefused i hi hdirty x _)
      | _ => trivial
    · -- the page is deleted, and nothing is known of it any more
      rw [wp_of_ok hr] at hspec
      obtain ⟨horder, hgone, hkeep, -⟩ := hspec
      have hr' : o.deletePage (s.desc i).pageNo (t.streams o.filename) = (.ok (), st) := hr
      rw [wp_of_ok hr']
      have hst := h.deleted_update ho horder hgone hkeep
      exact ⟨h.forget hv ho (fun a ha hne => honly o a ho ha hne) hst, rfl⟩

/-- An `unPinPage` that returns takes a pin back; one that fails may mark its page dirty. -/
theorem unPinPage_shared (h : SharedInv s pins released) (ho : s.objects f = some o) (dirty : Bool) :
    wp (call (.unPinPage f p dirty))
      (fun _ t => 0 < pinsOn pins f p ∧ ∃ i, s.entry f p = some i ∧ t = s.setDesc i fun d =>
        { d with dirty := dirty || d.dirty, pinCnt := d.pinCnt - 1 })
      (onThrow fun _ t => SharedInv t pins released) s := by
  rw [call, wp_bind]
  apply wp_unPinPage ho
  · -- the page has no pin, or is not in the pool
    intro _
    exact h
  · -- the call throws, but the frame has been marked dirty already
    intro i hi _
    refine h.mark hi (fun _ => ?_) (h.pinInv.markDirty hi) ?_ fun _ _ => id
    · exact ⟨rfl, rfl, rfl, rfl⟩
    · intro hdirty
      exact Bool.or_eq_true_iff.mpr (Or.inr hdirty)
  · intro i hi hcnt
    refine ⟨?_, i, hi, rfl⟩
    rw [← h.pinInv.counted f p i hi]
    exact Nat.pos_of_ne_zero hcnt

/-! ## The destructor

The loop goes over the frames once and writes back those that are dirty. Whatever is not in its file after the
frames before `k` must be in a dirty frame from `k` on: that is `settled`, and when `k` is the number of frames
there is no such frame left.
-/

/-- The frames before `k` have been written back, and `streams` is what the files are then. -/
structure Closing (s : Sys D) (pins : List Pin) (released : FileName → Nat → Option (Page D)) (k : Nat)
    (streams : FileName → FStream D) : Prop where
  order : ∀ a o, s.objects a = some o → o.kind.InOrder (streams o.filename)
  cached : ∀ f p i, s.entry f p = some i → ∃ o, s.objects f = some o ∧ (o.kind = .page →
    (o.kind.held (streams o.filename) p).isSome = true ∧ (s.frame i).pageNumber = p)
  settled : ∀ a o p d, s.objects a = some o → released o.filename p = some d →
    (∀ g, s.objects g = some o → Unchanged pins g p) → o.kind.held (streams o.filename) p = some d ∨
      ∃ g i, k ≤ i ∧ s.objects g = some o ∧ s.entry g p = some i ∧ (s.desc i).dirty = true

theorem Closing.start (h : SharedInv s pins released) : Closing s pins released 0 s.streams where
  order := h.order
  cached := h.cached
  settled a o p d ho hd _ := by
    rcases h.inFile a o p d ho hd with hdisk | ⟨g, hg, ⟨i, hi, hdirty⟩, -⟩
    · exact Or.inl hdisk
    · exact Or.inr ⟨g, i, Nat.zero_le i, hg, hi, hdirty⟩

namespace Closing

variable {k : Nat} {streams : FileName → FStream D}

/-- A frame that is not dirty is left alone. -/
theorem skip (h : Closing s pins released k streams) (hclean : (s.desc k).dirty = false) :
    Closing s pins released (k + 1) streams where
  order := h.order
  cached := h.cached
  settled a o p d ho hd hun := by
    rcases h.settled a o p d ho hd hun with hdisk | ⟨g, i, hk, hg, hi, hdirty⟩
    · exact Or.inl hdisk
    · -- the dirty frame that still has the data is not the one that is skipped
      have hne : i ≠ k := by
        intro hik
        rw [hik, hclean] at hdirty
        cases hdirty
      exact Or.inr ⟨g, i, by omega, hg, hi, hdirty⟩

/-- The page of a frame in use is written to its file. -/
theorem write (hinv : SharedInv s pins released) (h : Closing s pins released k streams)
    (hv : (s.desc k).valid = true) :
    ∃ o st, s.objects (s.desc k).file = some o ∧
      o.writePage (s.desc k).pageNo (s.frame k) (streams o.filename) = (.ok (), st) ∧
      Closing s pins released (k + 1) (Function.update streams o.filename st) := by
  have hentry := hinv.full k hv
  obtain ⟨o, ho, hpage⟩ := h.cached _ _ k hentry
  obtain ⟨st, hr, hstores⟩ := FileObject.writePage_puts (h.order _ o ho) hpage
  have hst := stored_update hinv.same h.order ho hstores
  refine ⟨o, st, ho, hr, hst.order, ?_, ?_⟩
  · intro f p i hi
    obtain ⟨o', ho', hpage'⟩ := h.cached f p i hi
    refine ⟨o', ho', fun hkind => ⟨?_, (hpage' hkind).2⟩⟩
    -- the page that was written, or another one
    by_cases heq : o' = o ∧ p = (s.desc k).pageNo
    · obtain ⟨rfl, rfl⟩ := heq
      rw [hst.own]
      rfl
    · rw [hst.used f o' p ho' hkind heq]
      exact (hpage' hkind).1
  · intro a o' p d ho' hd hun
    by_cases heq : o' = o ∧ p = (s.desc k).pageNo
    · -- the frame has what was released last
      obtain ⟨rfl, rfl⟩ := heq
      have hdata := hinv.inFrame _ o' _ k d ho hentry hd (hun _ ho)
      rw [hst.own, hdata]
      exact Or.inl rfl
    · rcases h.settled a o' p d ho' hd hun with hdisk | ⟨g, i, hk, hg, hi, hdirty⟩
      · exact Or.inl (hst.keep a o' p d ho' heq hdisk)
      · -- the frame that still has the data is of another page, so it is not frame `k`
        have hne : i ≠ k := by
          intro hik
          rw [hik] at hi
          obtain ⟨-, rfl, rfl⟩ := hinv.pinInv.pool.entry g p k hi
          exact heq ⟨Option.some.inj (hg.symm.trans ho), rfl⟩
        exact Or.inr ⟨g, i, by omega, hg, hi, hdirty⟩

end Closing

/-- The destructor leaves the data last released in the files. -/
theorem destroy_shared (h : SharedInv s pins released) :
    ∃ streams, destroy s = (.ok (), s.setStreams streams) ∧
      Closing s pins released s.numBufs streams := by
  have hloop : wp destroy
      (fun _ t => ∃ streams, t = s.setStreams streams ∧ Closing s pins released s.numBufs streams)
      (fun _ _ => False) s := by
    rw [destroy, wp_bind, wp_get]
    apply wp_forRange (I := fun k (t : Sys D) => ∃ streams, t = s.setStreams streams ∧
      Closing s pins released k streams) ⟨s.streams, rfl, Closing.start h⟩
    intro k _ t hclosing
    obtain ⟨streams, rfl, hclosing⟩ := hclosing
    rw [wp_bind, wp_get, wp_ite]
    constructor
    · -- the frame is in use
      intro hv
      have hdesc : (s.setStreams streams).desc k = s.desc k := rfl
      rw [writeBack, wp_bind, wp_get, wp_ite, hdesc]
      constructor
      · intro _
        obtain ⟨o, st, ho, hr, hnext⟩ := hclosing.write h hv
        have ho' : (s.setStreams streams).objects (s.desc k).file = some o := ho
        have hr' : o.writePage (s.desc k).pageNo ((s.setStreams streams).frame k)
            ((s.setStreams streams).streams o.filename) = (.ok (), st) := hr
        rw [wp_onFile ho', wp_of_ok hr']
        exact ⟨_, rfl, hnext⟩
      · intro hclean
        exact ⟨streams, rfl, hclosing.skip (by simpa using hclean)⟩
    · -- a frame that is not in use is not dirty
      intro hv
      have hv' : (s.desc k).valid = false := by simpa using hv
      have hclear := h.pinInv.pool.invalid k hv'
      refine ⟨streams, rfl, hclosing.skip ?_⟩
      rw [← hclear]
      rfl
  obtain ⟨_, t, hr, streams, rfl, hclosing⟩ := exists_ok_of_wp hloop
  exact ⟨streams, hr, hclosing⟩

end Calls

/-! ## Runs

A client is one of several programs, each with its own object on the file. What they have in common is the file, so
the note of what was released last is kept by the name of the file and not by the address of the object.
-/

/-- A pool, the pins its clients hold, and the data last released for the pages of each file, under any
object. -/
structure HandleState (D : Type) where
  sys : Sys D
  pins : List Pin
  released : FileName → Nat → Option (Page D)

/-- The note `m` with the data of one page of the file of the object at `f` replaced. -/
def putAt (t : Sys D) (m : FileName → Nat → Option (Page D)) (f p : Nat) (v : Option (Page D)) :
    FileName → Nat → Option (Page D) :=
  match t.objects f with
  | some o => putPage m o.filename p v
  | none => m

theorem putAt_object {s : Sys D} {f : Nat} {o : FileObject} (ho : s.objects f = some o)
    (released : FileName → Nat → Option (Page D)) (p : Nat) (v : Option (Page D)) :
    putAt s released f p v = putPage released o.filename p v := by
  rw [putAt, ho]

theorem putAt_shown {s : Sys D} {f : Nat} {o : FileObject} (ho : s.objects f = some o)
    (released : FileName → Nat → Option (Page D)) (p i : Nat) :
    putAt s released f p (shown s f i) =
      putPage released o.filename p (some (o.kind.normal (s.frame i))) := by
  rw [putAt_object ho, shown, ho]
  rfl

/-- What is known of the pages of files after `op` has answered `r` and left `t`. -/
def noteFiles (op : BufOp) (r : Except (Exit Exn) BufReply) (t : Sys D)
    (m : FileName → Nat → Option (Page D)) : FileName → Nat → Option (Page D) :=
  match op, r with
  | .allocPage file, .ok (.page pageNo frameNo) => putAt t m file pageNo (shown t file frameNo)
  | .disposePage file pageNo, .ok _ => putAt t m file pageNo none
  | _, _ => m

theorem noteFiles_throw (op : BufOp) (e : Exn) (t : Sys D) (m : FileName → Nat → Option (Page D)) :
    noteFiles op (.error (.throw e)) t m = m := by
  cases op <;> rfl

namespace HandleState

/-- The pool of `bufs` frames, with files that exist already. -/
def new [PageData D] (kinds : FileName → FileKind) (objects : Nat → Option FileObject)
    (streams : FileName → FStream D) (bufs : Nat) : HandleState D where
  sys := ⟨objects, streams, .new bufs⟩
  pins := []
  released fn p := (kinds fn).held (streams fn) p

/-- What an event leaves. -/
def after [PageData D] (s : HandleState D) : CacheEvent D → HandleState D
  | .call op =>
    let r := call op s.sys
    { sys := r.2
      pins := op.notePins r.1 s.pins
      released := noteFiles op r.1 r.2 s.released }
  | .unPin pin dirty =>
    match call (.unPinPage pin.file pin.pageNo dirty) s.sys with
    | (.ok _, t) =>
      if pin ∈ s.pins then
        { sys := t
          pins := s.pins.erase pin
          released := if dirty = true then
              putAt t s.released pin.file pin.pageNo (shown t pin.file pin.frame)
            else s.released }
      else { s with sys := t }
    | (.error _, t) => { s with sys := t }
  | .write pin page =>
    { s with
      sys := s.sys.setFrame pin.frame page
      pins := { pin with changed := true } :: s.pins.erase pin }

/-- What the clients of one object have of the pages, as a `CacheState`. -/
def view (s : HandleState D) : CacheState D where
  sys := s.sys
  pins := s.pins
  latest f p := (s.sys.objects f).bind fun o => s.released o.filename p
  released f p := (s.sys.objects f).bind fun o => s.released o.filename p

/-- The events considered, as for files with one object each. -/
def Ok [PageData D] (s : HandleState D) (e : CacheEvent D) : Prop := s.view.Ok call e

/-- What keeps the pages of several objects alike. A page is read from its file only while no object on
the file has it dirty, and where the read leaves no `failbit` behind; it is released dirty, or disposed of,
only while no other object has it in the pool. A page that is disposed of is not pinned, and if it is dirty
its file does not refuse. A `BlobFile` hands out no page that is in the pool. -/
def Orderly [PageData D] (s : HandleState D) : CacheEvent D → Prop
  | .call (.readPage f p) => s.sys.entry f p = none → CleanElsewhere s.sys f p ∧
      ∀ o, s.sys.objects f = some o → o.kind.MayRead (s.sys.streams o.filename) p
  | .call (.allocPage f) => ∀ o, s.sys.objects f = some o → o.kind = .blob →
      (∀ r t, allocPage f s.sys = (.ok r, t) →
        ∀ g, s.sys.objects g = some o → s.sys.entry g r.1 = none) ∧
      ∀ name p i, (allocPage f s.sys).1 ≠ .error (.throw (.hashAlreadyPresent name p i))
  | .call (.disposePage f p) => AbsentElsewhere s.sys f p ∧
      ∀ i, s.sys.entry f p = some i → (s.sys.desc i).pinCnt = 0 ∧
        ((s.sys.desc i).dirty = true → ∀ e u,
          onFile f (fun o => o.deletePage p) s.sys ≠ (.error (.throw e), u))
  | .unPin pin dirty => pin ∈ s.pins → dirty = true → AbsentElsewhere s.sys pin.file pin.pageNo
  | _ => True

variable [PageData D] {s : HandleState D}

/-- What clients see of the pool, through any object, is what was released last, under whichever. -/
structure Coherent (s : HandleState D) : Prop where
  /-- A page that is read has the data released last, unless a holder of a pin on it under the same object
  is changing it. -/
  read : ∀ f p o i t, s.sys.objects f = some o → s.Orderly (.call (.readPage f p)) →
    readPage f p s.sys = (.ok i, t) → Unchanged s.pins f p →
    (∀ d, s.released o.filename p = some d → o.kind.normal (t.frame i) = d) ∧
      (o.kind = .page → (s.released o.filename p).isSome = true)
  /-- The data released last is in the file, or in a dirty frame while no other object has the page. -/
  kept : ∀ f o p d, s.sys.objects f = some o → s.released o.filename p = some d →
    onDisk s.sys o p = some d ∨ ∃ g i, s.sys.objects g = some o ∧ s.sys.entry g p = some i ∧
      (s.sys.desc i).dirty = true ∧ (Unchanged s.pins g p → o.kind.normal (s.sys.frame i) = d) ∧
      AbsentElsewhere s.sys g p
  /-- The destructor leaves it in the file, unless a holder of a pin is changing the page. -/
  closed : ∃ t, destroy s.sys = (.ok (), t) ∧ ∀ f o p d, t.objects f = some o →
    s.released o.filename p = some d → (∀ g, t.objects g = some o → Unchanged s.pins g p) →
    onDisk t o p = some d

/-- A new pool over files in good order, each of one kind. -/
theorem sharedInv_new {kinds : FileName → FileKind} {objects : Nat → Option FileObject}
    {streams : FileName → FStream D} {bufs : Nat} (hbufs : 1 ≤ bufs)
    (hkinds : ∀ a o, objects a = some o → o.kind = kinds o.filename)
    (horder : ∀ a o, objects a = some o → o.kind.InOrder (streams o.filename)) :
    SharedInv (new kinds objects streams bufs).sys [] (new kinds objects streams bufs).released :=
  sharedInv_start hbufs hkinds horder

/-- **Every orderly call keeps the data that was released last.** -/
theorem call_shared (h : SharedInv s.sys s.pins s.released) {op : BufOp} {o : FileObject}
    (ho : s.sys.objects op.file = some o) (hunpin : op.IsUnPin = false)
    (horderly : s.Orderly (.call op)) :
    wp (call op)
      (fun r t => SharedInv t (op.notePins (.ok r) s.pins) (noteFiles op (.ok r) t s.released))
      (onThrow fun _ t => SharedInv t s.pins s.released) s.sys := by
  cases op with
  | readPage f p =>
      have ho : s.sys.objects f = some o := ho
      rw [call, wp_bind]
      refine wp_mono (readPage_shared h ho fun hnone =>
        ⟨(horderly hnone).1, (horderly hnone).2 o ho⟩) ?_ ?_
      · intro i t ht
        exact ht.1
      · intro e t he
        exact onThrow_mono he fun _ ht => ht.1
  | allocPage f =>
      have ho : s.sys.objects f = some o := ho
      have hspec := allocPage_shared h ho
      rw [call, wp_bind]
      -- the pages handed out are noted under what the call leaves, so its two ends are taken apart here
      rcases hr : allocPage f s.sys with ⟨e | r, t⟩
      · rw [wp_of_error hr] at hspec ⊢
        cases e with
        | throw x =>
            -- a blob page may be in the table already, which an orderly call rules out
            rcases hspec with ht | ⟨hblob, name, p, i, rfl⟩
            · exact ht.1
            · exact absurd (congrArg Prod.fst hr) ((horderly o ho hblob).2 name p i)
        | _ => trivial
      · rw [wp_of_ok hr] at hspec ⊢
        obtain ⟨ht, hobj⟩ := hspec fun hblob => (horderly o ho hblob).1 r t hr
        have ho' : t.objects f = some o := by
          rw [hobj]
          exact ho
        show SharedInv t _ (putAt t s.released f r.1 (shown t f r.2))
        rw [putAt_shown ho']
        exact ht
  | unPinPage f p dirty => cases hunpin
  | flushFile f =>
      have ho : s.sys.objects f = some o := ho
      rw [call, wp_bind]
      refine wp_mono (flushFile_shared h ho) ?_ ?_
      · intro _ t ht
        exact ht.1
      · intro e t he
        exact onThrow_mono he fun _ ht => ht.1
  | disposePage f p =>
      have ho : s.sys.objects f = some o := ho
      obtain ⟨honly, hentry⟩ := horderly
      rw [call, wp_bind]
      refine wp_mono (disposePage_shared h ho (fun i hi => (hentry i hi).1) honly fun i hi =>
        (hentry i hi).2) ?_ fun e t he => he
      intro _ t ht
      have ho' : t.objects f = some o := by
        rw [ht.2]
        exact ho
      show SharedInv t _ (putAt t s.released f p none)
      rw [putAt_object ho']
      exact ht.1

/-- A client gives back a pin, with the page changed only if it says so. -/
theorem unPin_shared (h : SharedInv s.sys s.pins s.released) {pin : Pin} {dirty : Bool}
    (hpin : pin ∈ s.pins) (hchanged : pin.changed = true → dirty = true)
    (horderly : s.Orderly (.unPin pin dirty)) :
    let t := s.sys.setDesc pin.frame fun d =>
      { d with dirty := dirty || d.dirty, pinCnt := d.pinCnt - 1 }
    SharedInv t (s.pins.erase pin) (if dirty = true then
      putAt t s.released pin.file pin.pageNo (shown t pin.file pin.frame) else s.released) := by
  intro t
  obtain ⟨o, ho, -⟩ := h.cached _ _ _ (h.pinInv.held pin hpin)
  have ho' : t.objects pin.file = some o := ho
  rw [putAt_shown ho']
  exact h.unPin hpin hchanged ho fun hdirty a ha hne => horderly hpin hdirty o a ho ha hne

/-- The steps considered keep the data that was released last. -/
theorem sharedInv_after (h : SharedInv s.sys s.pins s.released) {e : CacheEvent D}
    (hok : s.Ok e ∧ s.Orderly e) :
    SharedInv (s.after e).sys (s.after e).pins (s.after e).released := by
  obtain ⟨hok, horderly⟩ := hok
  cases e with
  | call op =>
      obtain ⟨hlive, hunpin, hgo⟩ := hok
      obtain ⟨o, ho⟩ := Option.isSome_iff_exists.mp hlive
      have hgo : Proceeds (call op s.sys).1 := hgo
      have hspec := call_shared h ho hunpin horderly
      apply Proceeds.of_wp hgo hspec
        (P := fun r t => SharedInv t (op.notePins r s.pins) (noteFiles op r t s.released))
      · exact fun r t _ ht => ht
      · intro e t _ ht
        rw [op.notePins_throw, noteFiles_throw]
        exact ht
  | unPin pin dirty =>
      obtain ⟨hlive, hgo, hpin⟩ := hok
      obtain ⟨o, ho⟩ := Option.isSome_iff_exists.mp hlive
      have hgo : Proceeds (call (.unPinPage pin.file pin.pageNo dirty) s.sys).1 := hgo
      have ho : s.sys.objects pin.file = some o := ho
      have hspec := unPinPage_shared (p := pin.pageNo) h ho dirty
      rcases hr : call (.unPinPage pin.file pin.pageNo dirty) s.sys with ⟨r, t⟩
      rw [hr] at hgo
      rw [after, hr]
      rcases hgo.cases with ⟨r, rfl⟩ | ⟨e, rfl⟩
      · rw [wp_of_ok hr] at hspec
        obtain ⟨hpos, i, hi, rfl⟩ := hspec
        -- the pin given back is one that the client holds, so it is the frame of the page
        rcases hpin with ⟨hmem, hchanged⟩ | hnone
        · have hmem : pin ∈ s.pins := hmem
          obtain rfl := Option.some.inj (hi.symm.trans (h.pinInv.held pin hmem))
          dsimp only
          rw [if_pos hmem]
          exact unPin_shared h hmem hchanged horderly
        · -- there was no pin on the page, so the call would have thrown
          have hnone : pinsOn s.pins pin.file pin.pageNo = 0 := hnone
          omega
      · rw [wp_of_error hr] at hspec
        exact hspec
  | write pin page =>
      obtain ⟨hpin, hnum⟩ := hok
      obtain ⟨o, ho, -⟩ := h.cached _ _ _ (h.pinInv.held pin hpin)
      exact h.write hpin ho (hnum o ho)

theorem coherent_of_sharedInv (h : SharedInv s.sys s.pins s.released) : Coherent s := by
  constructor
  case read =>
    -- what `readPage` returns is pinned in the state after it, and there the invariant says what it shows
    intro f p o i t ho horderly hr hun
    have hspec := readPage_shared h ho fun hnone => ⟨(horderly hnone).1, (horderly hnone).2 o ho⟩
    rw [wp_of_ok hr] at hspec
    obtain ⟨ht, hobj⟩ := hspec
    have ho' : t.objects f = some o := by
      rw [hobj]
      exact ho
    have hi := ht.pinInv.held _ List.mem_cons_self
    constructor
    · intro d hd
      exact ht.inFrame f o p i d ho' hi hd (CacheState.unchanged_cons.mpr hun)
    · intro hkind
      obtain ⟨o', ho'', hpage⟩ := ht.cached f p i hi
      obtain rfl := Option.some.inj (ho''.symm.trans ho')
      exact ht.known f o' p ho' hkind (hpage hkind).1
  case kept =>
    intro f o p d ho hd
    rcases h.inFile f o p d ho hd with hdisk | ⟨g, hg, ⟨i, hi, hdirty⟩, honly⟩
    · exact Or.inl hdisk
    · -- it is in a dirty frame, and no other object has the page
      refine Or.inr ⟨g, i, hg, hi, hdirty, h.inFrame g o p i d hg hi hd, ?_⟩
      intro o' a hg' ha hne
      obtain rfl := Option.some.inj (hg'.symm.trans hg)
      exact honly a ha hne
  case closed =>
    obtain ⟨streams, hr, hclosing⟩ := destroy_shared h
    refine ⟨_, hr, ?_⟩
    intro f o p d ho hd hun
    rcases hclosing.settled f o p d ho hd hun with hdisk | ⟨g, i, hk, -, hi, -⟩
    · exact hdisk
    · -- no frame is left to be written
      have hlt := h.pinInv.pool.valid_lt i (h.pinInv.pool.entry g p i hi).1
      omega

end HandleState

open HandleState

/-- **The objects on a file show one store**, in every orderly run on files in good order. -/
theorem coherence [PageData D] (kinds : FileName → FileKind) (objects : Nat → Option FileObject)
    (streams : FileName → FStream D) (bufs : Nat) (hbufs : 1 ≤ bufs)
    (hkinds : ∀ a o, objects a = some o → o.kind = kinds o.filename)
    (horder : ∀ a o, objects a = some o → o.kind.InOrder (streams o.filename))
    {events : List (CacheEvent D)} {s : HandleState D}
    (h : Run (Run.guarded (fun s e => s.Ok e ∧ s.Orderly e) after)
      (HandleState.new kinds objects streams bufs) events s) : Coherent s := by
  apply coherent_of_sharedInv
  have hstart : SharedInv (HandleState.new kinds objects streams bufs).sys []
      (HandleState.new kinds objects streams bufs).released := sharedInv_new hbufs hkinds horder
  apply h.invariant (I := fun s => SharedInv s.sys s.pins s.released) hstart
  intro s e t hs hstep
  obtain ⟨hok, rfl⟩ := hstep
  exact sharedInv_after hs hok

/-- Two `File` objects on one file. -/
def sharedFile : Nat → Option FileObject := fun a => if a = 1 ∨ a = 2 then some ⟨.page, "f"⟩ else none

theorem sharedFile_cases {a : Nat} {o : FileObject} (h : sharedFile a = some o) :
    (a = 1 ∨ a = 2) ∧ o = ⟨.page, "f"⟩ := by
  unfold sharedFile at h
  split at h
  · next ha => exact ⟨ha, (Option.some.inj h).symm⟩
  · cases h

/-- A page is written to through one object, and flushed before it is read through the other one. -/
theorem coherence_flushed :
    let pin : Pin := ⟨1, 1, 0, false⟩
    let events : List (CacheEvent CharArea) :=
      [.call (.allocPage 1), .write pin (pageOne fun _ => 7), .unPin { pin with changed := true } true,
        .call (.flushFile 1), .call (.readPage 2 1)]
    let s := events.foldl after (HandleState.new (fun _ => .page) sharedFile (newStreams true) 2)
    (s.sys.frame 0).data 5 = 7 ∧ Coherent s := by
  refine ⟨rfl, coherence (fun _ => .page) sharedFile (newStreams true) 2 (by decide) ?_ ?_
    (Run.of_allOk ?_)⟩
  · intro a o ho
    rw [(sharedFile_cases ho).2]
  · intro a o ho
    rw [(sharedFile_cases ho).2]
    exact ⟨[], FStream.owned_newStream _ _ _⟩
  · refine ⟨⟨⟨rfl, rfl, trivial⟩, ?_⟩, ⟨⟨List.mem_cons_self, ?_⟩, trivial⟩,
      ⟨⟨rfl, trivial, Or.inl ⟨List.mem_cons_self, fun _ => rfl⟩⟩, ?_⟩,
      ⟨⟨rfl, rfl, trivial⟩, trivial⟩, ⟨⟨rfl, rfl, trivial⟩, ?_⟩, trivial⟩
    · intro o ho hblob
      have ho : sharedFile 1 = some o := ho
      rw [(sharedFile_cases ho).2] at hblob
      cases hblob
    · intro _ _ _
      rfl
    · intro _ _ o a _ ha hne
      have ha : sharedFile a = some o := ha
      rcases (sharedFile_cases ha).1 with rfl | rfl
      · exact absurd rfl hne
      · rfl
    · intro _
      constructor
      · intro o g j _ hg hj
        have hg : sharedFile g = some o := hg
        rcases (sharedFile_cases hg).1 with rfl | rfl
        · cases hj
        · cases hj
      · intro o ho _
        have ho : sharedFile 2 = some o := ho
        rw [(sharedFile_cases ho).2]
        exact Or.inl rfl

/-- Two frames: a page is in the pool under both objects. The one under object 2 is released first, and the
one under object 1 is written to and released after it; a reader under object 2 gets the old data. When the
frames are flushed, that of object 2 last, the file has the old data too, and the update is lost. -/
theorem coherence_stale :
    let pin : Pin := ⟨1, 1, 0, false⟩
    let new := HandleState.new (fun _ => .page) sharedFile (newStreams true) 2
    let before : List (CacheEvent CharArea) :=
      [.call (.allocPage 1), .call (.readPage 2 1), .unPin ⟨2, 1, 1, false⟩ true, .write pin (pageOne fun _ => 7),
        .unPin { pin with changed := true } true]
    let rest : List (CacheEvent CharArea) := [.call (.flushFile 1), .call (.flushFile 2)]
    let s := before.foldl after new
    let t := (before ++ rest).foldl after new
    Run (Run.guarded HandleState.Ok after) new before s ∧
      Run (Run.guarded HandleState.Ok after) new (before ++ rest) t ∧ s.pins = [] ∧ t.pins = [] ∧
      (∃ d, s.released "f" 1 = some d ∧ t.released "f" 1 = some d ∧ d.data 5 = 7) ∧
      (∃ u, readPage 2 1 s.sys = (.ok 1, u) ∧ (u.frame 1).data 5 = 0) ∧
      (∃ d, onDisk t.sys ⟨.page, "f"⟩ 1 = some d ∧ d.data 5 = 0) ∧ ¬ Coherent s ∧ ¬ Coherent t := by
  refine ⟨Run.of_allOk ?_, Run.of_allOk ?_, rfl, rfl, ⟨_, rfl, rfl, rfl⟩, ⟨_, rfl, rfl⟩, ⟨_, rfl, rfl⟩,
    ?_, ?_⟩
  · -- the run to the stale read is one of legal calls, and so is the run to the flushes
    refine ⟨⟨rfl, rfl, trivial⟩, ⟨rfl, rfl, trivial⟩,
      ⟨rfl, trivial, Or.inl ⟨List.mem_cons_self, fun _ => rfl⟩⟩,
      ⟨List.mem_cons_self, fun _ _ _ => rfl⟩,
      ⟨rfl, trivial, Or.inl ⟨List.mem_cons_self, fun _ => rfl⟩⟩, trivial⟩
  · refine ⟨⟨rfl, rfl, trivial⟩, ⟨rfl, rfl, trivial⟩,
      ⟨rfl, trivial, Or.inl ⟨List.mem_cons_self, fun _ => rfl⟩⟩,
      ⟨List.mem_cons_self, fun _ _ _ => rfl⟩,
      ⟨rfl, trivial, Or.inl ⟨List.mem_cons_self, fun _ => rfl⟩⟩,
      ⟨rfl, rfl, trivial⟩, ⟨rfl, rfl, trivial⟩, trivial⟩
  · -- a reader under object 2 would get the sevens, and it gets what the file had first
    intro hcoherent
    have hread := hcoherent.read 2 1 ⟨.page, "f"⟩ 1 _ rfl (fun hnone => by cases hnone) rfl
      fun _ hpin => by cases hpin
    have hdata := congrFun (congrArg Page.data (hread.1 _ rfl)) 5
    cases hdata
  · -- after both flushes neither the file nor a frame has them
    intro hcoherent
    rcases hcoherent.kept 1 ⟨.page, "f"⟩ 1 _ rfl rfl with hdisk | ⟨g, i, hg, hi, -⟩
    · have hdata := congrFun (congrArg Page.data (Option.some.inj hdisk)) 5
      cases hdata
    · have hg : sharedFile g = some ⟨.page, "f"⟩ := hg
      rcases (sharedFile_cases hg).1 with rfl | rfl
      · cases hi
      · cases hi

end CS640.Badger.P3.BufMgr
