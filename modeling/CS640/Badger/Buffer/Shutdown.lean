import CS640.Badger.Buffer.Coherence
import CS640.Badger.Buffer.Updates

/-!
# Shutting p2 down

The destructor of p2 calls `flushFile` for the file of each dirty page. `flushFile` refuses a file that has a
pinned page, and the destructor does not catch that.

Main result: `P2.BufMgr.shutsDown_iff`. In every pool that a run of settling calls leads to, the destructor
returns, with the data last released for every dirty page in its file, if and only if no file with a dirty
page has a pinned one.

`Flushable` is the invariant of the runs, and of the loop of the destructor too.

The invariant speaks of `kept`, the data that the pool and its files have of each page together. A run keeps two
facts about it: what is in a dirty frame was released last (`Flushable.dirty`), and what is in no dirty frame is in
the file (`SharedInv`). The destructor only makes dirty frames fewer, so once it has returned everything that was
kept is in the files.

* `Flushable.fewer`: the step that most calls come down to, fewer pages with what they had.
* `flushable_after`: every event of a run keeps the invariant.
* `destroy_closing`: the loop of the destructor, up to the pinned page that stops it.
-/

namespace CS640.Badger.P2.BufMgr

open CS640.Lib Prog
open CS640.Badger.BufMgr

variable {D : Type} [PageData D]

/-! ## Pools that can be flushed

`SharedInv` is the invariant of a pool in which several objects may be on a file. Here each file has one object,
which gives the last field, and every file is a paged one. The lemmas of the section say for each part of a call
what becomes of the invariant: the clock, the eviction of a page, a new pin, and a page that is loaded.
-/

/-- The pool and its files, with one `File` object each, together have the data `kept`, and that is the data
last released for a page whose frame is dirty. -/
structure Flushable (pins : List Pin) (released : Nat → Nat → Option (Page D))
    (kept : FileName → Nat → Option (Page D)) (s : Sys D) : Prop where
  shared : SharedInv s pins kept
  paged : ∀ a o, s.objects a = some o → o.kind = .page
  one : ∀ a b oa ob, s.objects a = some oa → s.objects b = some ob → oa.filename = ob.filename → a = b
  null : s.objects 0 = none
  dirty : ∀ f o p i, s.objects f = some o → s.entry f p = some i → (s.desc i).dirty = true →
    released f p = kept o.filename p

section Calls

variable {s t : Sys D} {pins pins' : List Pin} {released released' : Nat → Nat → Option (Page D)}
  {kept kept' : FileName → Nat → Option (Page D)} {f p i : Nat} {o : FileObject} {pg : Page D}

namespace Flushable

/-- A pool that has fewer pages, and in its frames what they had. -/
theorem fewer (h : Flushable pins released kept s) (ht : SharedInv t pins' kept')
    (hobj : t.objects = s.objects)
    (hleft : ∀ f p i, t.entry f p = some i → s.entry f p = some i ∧ (t.desc i).dirty = (s.desc i).dirty)
    (hsame : ∀ f o p i, s.objects f = some o → t.entry f p = some i →
      released' f p = released f p ∧ kept' o.filename p = kept o.filename p) :
    Flushable pins' released' kept' t where
  shared := ht
  paged a o ha := by
    rw [hobj] at ha
    exact h.paged a o ha
  one a b oa ob ha hb := by
    rw [hobj] at ha hb
    exact h.one a b oa ob ha hb
  null := by
    rw [hobj]
    exact h.null
  dirty f o p i ho hi hdirty := by
    rw [hobj] at ho
    obtain ⟨hi', hd⟩ := hleft f p i hi
    obtain ⟨hr, hk⟩ := hsame f o p i ho hi
    rw [hd] at hdirty
    rw [hr, hk]
    exact h.dirty f o p i ho hi' hdirty

theorem scanned (h : Flushable pins released kept s) (ht : Scanned s t) (hinv : PoolInv t) :
    Flushable pins released kept t := by
  refine h.fewer (h.shared.scanned ht hinv) ht.objects ?_ fun _ _ _ _ _ _ => ⟨rfl, rfl⟩
  intro f p i hi
  rw [ht.entry] at hi
  refine ⟨hi, ?_⟩
  rw [ht.desc i]

omit [PageData D] in
/-- The entries that are left when a frame has been emptied. -/
theorem left (hpool : PoolInv s) (f p j : Nat)
    (hj : ((s.dropEntry (s.desc i).file (s.desc i).pageNo).setDesc i BufDesc.clear).entry f p = some j) :
    s.entry f p = some j ∧
      (((s.dropEntry (s.desc i).file (s.desc i).pageNo).setDesc i BufDesc.clear).desc j).dirty =
        (s.desc j).dirty := by
  obtain ⟨hj, hne⟩ := hpool.entry_evict hj
  rw [Sys.desc_setDesc, if_neg hne]
  exact ⟨hj, rfl⟩

theorem evict_clean (h : Flushable pins released kept s) (hv : Victim s i)
    (hclean : (s.desc i).dirty = false) :
    Flushable pins released kept
      ((s.dropEntry (s.desc i).file (s.desc i).pageNo).setDesc i BufDesc.clear) :=
  h.fewer (h.shared.evict_clean hv hclean) rfl (left h.shared.pinInv.pool) fun _ _ _ _ _ _ => ⟨rfl, rfl⟩

/-- Writing back and emptying the frame of an unpinned page. -/
theorem writeBack (h : Flushable pins released kept s) (hv : Victim s i) :
    wp (writeBack i)
      (fun _ t => Flushable pins released kept
        ((t.dropEntry (s.desc i).file (s.desc i).pageNo).setDesc i BufDesc.clear))
      (fun _ _ => False) s := by
  rw [BufMgr.writeBack, wp_bind, wp_get, wp_ite]
  -- a dirty page is written first, and the file then has what was in the frame
  constructor
  · intro _
    obtain ⟨o, st, ho, hwrite, hst⟩ := h.shared.writePage_stored (h.shared.full i hv.valid)
    have hkind := h.paged _ o ho
    have hnum : (s.frame i).pageNumber = (s.desc i).pageNo := by
      obtain ⟨o', ho', hpage⟩ := h.shared.cached _ _ i (h.shared.full i hv.valid)
      obtain rfl := Option.some.inj (ho'.symm.trans ho)
      exact (hpage hkind).2
    have hwrite' : P2.File.writePage o.filename (s.frame i) (s.streams o.filename) = (.ok (), st) := by
      rw [P2.File.writePage, hnum, ← hwrite, FileObject.writePage, hkind]
    have hleft := left (i := i) h.shared.pinInv.pool
    rw [wp_onFile ho, wp_of_ok hwrite']
    exact h.fewer (h.shared.evict_written hv ho hst) rfl hleft fun _ _ _ _ _ _ => ⟨rfl, rfl⟩
  · intro hclean
    exact h.evict_clean hv (by simpa using hclean)

/-- Pinning and unpinning the frame of a page. -/
theorem mark (h : Flushable pins released kept s) (hi : s.entry f p = some i) {g : BufDesc → BufDesc}
    (hg : ∀ d, (g d).valid = d.valid ∧ (g d).file = d.file ∧ (g d).pageNo = d.pageNo ∧
      (g d).frameNo = d.frameNo) (hpins : PinInv (s.setDesc i g) pins')
    (hdirty : (g (s.desc i)).dirty = (s.desc i).dirty)
    (hun : ∀ f' p', Unchanged pins' f' p' → Unchanged pins f' p') :
    Flushable pins' released kept (s.setDesc i g) := by
  have hshared := h.shared.mark hi hg hpins (fun hd => hdirty.trans hd) hun
  refine h.fewer hshared rfl ?_ fun _ _ _ _ _ _ => ⟨rfl, rfl⟩
  intro f p j hj
  refine ⟨hj, ?_⟩
  rw [Sys.desc_setDesc]
  split
  · next hji =>
      rw [hji]
      exact hdirty
  · rfl

/-- Putting a page of a file into a frame that is not in use, and entering it. -/
theorem load (h : Flushable pins released kept s) (hv : (s.desc i).valid = false) (hi : i < s.numBufs)
    (hnone : s.entry f p = none) (ho : s.objects f = some o) {streams : FileName → FStream D}
    (hst : SharedInv (s.setStreams streams) pins kept')
    (hstored : (streams o.filename).stored p = some pg.contents) (hnum : pg.pageNumber = p)
    (hdata : ∀ d, kept' o.filename p = some d → pg.contents = d)
    (hsame : ∀ f' o' p', s.objects f' = some o' → ¬ (f' = f ∧ p' = p) →
      released' f' p' = released f' p' ∧ kept' o'.filename p' = kept o'.filename p') :
    Flushable (⟨f, p, i, false⟩ :: pins) released' kept'
      ((((s.setStreams streams).setFrame i pg).setDesc i (BufDesc.set f p)).putEntry f p i) := by
  have hkind := h.paged f o ho
  have hentry : ∀ f' p', ((((s.setStreams streams).setFrame i pg).setDesc i
      (BufDesc.set f p)).putEntry f p i).entry f' p' =
      if f' = f ∧ p' = p then some i else s.entry f' p' := fun f' p' => Sys.entry_putEntry _ f' p' hnone
  constructor
  case shared =>
    apply hst.load hv hi hnone ho
    · -- no other object is on the file
      intro g j hg hj
      obtain rfl := h.one g f o o hg ho rfl
      have hj : s.entry g p = some j := hj
      rw [hnone] at hj
      cases hj
    · intro _
      refine ⟨?_, hnum⟩
      rw [onDisk, Sys.streams_setStreams, hkind]
      show ((streams o.filename).stored p).isSome = true
      rw [hstored]
      rfl
    · intro d hd
      rw [hkind]
      exact hdata d hd
  case paged => exact h.paged
  case one => exact h.one
  case null => exact h.null
  case dirty =>
    intro f' o' p' j ho' hj hdirty
    rw [hentry] at hj
    rw [Sys.desc_putEntry, Sys.desc_setDesc] at hdirty
    by_cases heq : f' = f ∧ p' = p
    · rw [if_pos heq] at hj
      cases hj
      rw [if_pos rfl] at hdirty
      cases hdirty
    · rw [if_neg heq] at hj
      have hji : j ≠ i := by
        rintro rfl
        rw [(h.shared.pinInv.pool.entry f' p' j hj).1] at hv
        cases hv
      rw [if_neg hji] at hdirty
      obtain ⟨hr, hk⟩ := hsame f' o' p' ho' heq
      rw [hr, hk]
      exact h.dirty f' o' p' j ho' hj hdirty

/-- Notes on the page of one object. -/
theorem note_of_ne (h : Flushable pins released kept s) (ho : s.objects f = some o) {f' p' : Nat}
    {o' : FileObject} (ho' : s.objects f' = some o') (hne : ¬ (f' = f ∧ p' = p)) (v w : Option (Page D)) :
    noteAt released f p v f' p' = released f' p' ∧
      putPage kept o.filename p w o'.filename p' = kept o'.filename p' := by
  refine ⟨if_neg hne, putPage_of_ne _ _ fun heq => hne ⟨?_, heq.2⟩⟩
  exact h.one f' f o' o ho' ho heq.1

end Flushable

theorem evictable_flushable : Evictable (Flushable pins released kept) where
  table t h := h.shared.table
  live t i h hv := by
    obtain ⟨o, ho, -⟩ := h.shared.cached _ _ _ (h.shared.full i hv)
    rw [ho]
    rfl
  scanned t u h hu hinv := h.scanned hu hinv.pool
  evict t i h hv hclean := h.evict_clean hv hclean
  writeBack t i h hv _ := wp_mono (h.writeBack hv) (fun _ _ hu => hu) fun _ _ he => he.elim

/-! ## The calls

The calls are put together from those parts by the lemmas of the module on runs that settle: `wp_readPage_settles`
and `wp_allocPage_settles` ask what becomes of the invariant where the page is read or allocated in the file, and
leave the frame to the clock. `kept` changes where a page comes or goes.
-/

theorem readPage_flushable (h : Flushable pins released kept s) (ho : s.objects f = some o) (hp : p ≠ 0) :
    wp (readPage f p) (fun i t => Flushable (⟨f, p, i, false⟩ :: pins) released kept t)
      (Fails (Flushable pins released kept) s (.readPage f p)) s := by
  apply wp_readPage_settles evictable_flushable h ho
  · -- a hit: the frame has one more pin
    intro i hi
    refine h.mark hi (fun _ => ?_) (h.shared.pinInv.pin hi) rfl ?_
    · exact ⟨rfl, rfl, rfl, rfl⟩
    · exact fun _ _ => CacheState.unchanged_cons.mp
  · -- a miss that fails: the file is as it was
    intro t e u ht ho' hr'
    have horder := ht.shared.order f o ho'
    rw [ht.paged f o ho'] at horder
    have hspec := onFile_readPage (p := p) ho' horder
    rw [wp_of_error hr'] at hspec
    obtain rfl := hspec fun _ => Or.inr ⟨rfl, hp⟩
    exact ht
  · -- a miss: the page that has been read goes into the frame
    intro i t pg streams htaken ho' hr' hnone
    have hkind := htaken.cleared.paged f o ho'
    have horder := htaken.cleared.shared.order f o ho'
    rw [hkind] at horder
    have hspec := onFile_readPage (p := p) ho' horder
    rw [wp_of_ok hr'] at hspec
    obtain ⟨hsame, hstored, hnum⟩ := hspec
    obtain rfl : streams = t.streams := congrArg Sys.streams hsame
    have hv : ((t.setDesc i BufDesc.clear).desc i).valid = false := by
      rw [Sys.desc_setDesc, if_pos rfl]
      rfl
    rw [← load_cleared]
    apply htaken.cleared.load hv htaken.lt hnone ho' htaken.cleared.shared hstored hnum
    · intro d hd
      -- the file has what was kept, since no frame has the page
      have hdisk := htaken.cleared.shared.onDisk_of_absent ho' (fun g j hg hj => ?_) hd
      · rw [onDisk, hkind] at hdisk
        exact Option.some.inj (hstored.symm.trans hdisk)
      · obtain rfl := htaken.cleared.one g f o o hg ho' rfl
        have hj : t.entry g p = some j := hj
        rw [hnone] at hj
        cases hj
    · exact fun _ _ _ _ _ => ⟨rfl, rfl⟩

theorem allocPage_flushable (h : Flushable pins released kept s) (ho : s.objects f = some o) :
    wp (allocPage f)
      (fun r t => ∃ kept', Flushable (⟨f, r.1, r.2, false⟩ :: pins)
        (noteAt released f r.1 (shown t f r.2)) kept' t)
      (Fails (Flushable pins released kept) s (.allocPage f)) s := by
  apply wp_allocPage_settles evictable_flushable h ho
  · intro t e u ht ho' hr'
    have horder := ht.shared.order f o ho'
    rw [ht.paged f o ho'] at horder
    have hspec := onFile_allocatePage ho' horder
    rw [wp_of_error hr'] at hspec
    obtain rfl := hspec
    exact ht
  · intro i t pg streams htaken ho' hr' hnone
    have hkind := htaken.cleared.paged f o ho'
    have horder := htaken.cleared.shared.order f o ho'
    rw [hkind] at horder
    have hspec := onFile_allocatePage ho' horder
    rw [wp_of_ok hr'] at hspec
    obtain ⟨st, hsame, hputs, -⟩ := hspec
    obtain rfl : streams = Function.update t.streams o.filename st := congrArg Sys.streams hsame
    have hv : ((t.setDesc i BufDesc.clear).desc i).valid = false := by
      rw [Sys.desc_setDesc, if_pos rfl]
      rfl
    -- no object has the new page in the pool
    have habsent : ∀ g, (t.setDesc i BufDesc.clear).objects g = some o →
        (t.setDesc i BufDesc.clear).entry g pg.pageNumber = none := by
      intro g hg
      obtain rfl := htaken.cleared.one g f o o hg ho' rfl
      exact hnone
    have hstored := htaken.cleared.shared.stored (p := pg.pageNumber) (d := pg.contents) ho'
      (by rw [hkind]; exact hputs)
    have hnew := htaken.cleared.shared.newPage habsent hstored ho'
    set u := (((t.setStreams (Function.update t.streams o.filename st)).setFrame i pg).setDesc i
      (BufDesc.set f pg.pageNumber)).putEntry f pg.pageNumber i with hu
    have hshown : shown u f i = some pg.contents := by
      have hou : u.objects f = some o := ho'
      have hframe : u.frame i = pg := by
        rw [hu, Sys.frame_putEntry, Sys.frame_loaded]
      rw [shown, hou, hframe, Option.map_some, hkind]
      rfl
    refine ⟨putPage kept o.filename pg.pageNumber (some pg.contents), ?_⟩
    show Flushable _ (noteAt released f pg.pageNumber (shown u f i)) _ u
    rw [hshown, hu, ← load_cleared]
    apply htaken.cleared.load hv htaken.lt hnone ho' hnew ?_ rfl
    · intro d hd
      rw [putPage_self] at hd
      exact Option.some.inj hd
    · exact fun f' o' p' ho'' hne => htaken.cleared.note_of_ne ho' ho'' hne _ _
    · rw [Function.update_self]
      exact hputs.own

/-- A page that is disposed of is not in the pool any more, unless it is pinned. -/
theorem disposePage_flushable (h : Flushable pins released kept s) (ho : s.objects f = some o)
    (hp : p ≠ 0) :
    wp (disposePage f p) (fun _ t => ∃ kept', Flushable pins (noteAt released f p none) kept' t)
      (onThrow fun _ t => ∃ kept', Flushable pins released kept' t) s := by
  have hkind := h.paged f o ho
  have horder := h.shared.order f o ho
  rw [hkind] at horder
  have hspec := deletePage_deletes o.filename horder fun _ => Or.inr ⟨rfl, hp⟩
  -- whatever the file answers, once no frame has the page
  have hdelete : ∀ t : Sys D, t.objects = s.objects → t.streams = s.streams →
      (∀ g q j, t.entry g q = some j → s.entry g q = some j ∧ (t.desc j).dirty = (s.desc j).dirty) →
      t.entry f p = none →
      (∀ st, FileKind.page.InOrder st → (∀ q, q ≠ p → st.stored q = (s.streams o.filename).stored q) →
        SharedInv (t.setStream o.filename st) pins (putPage kept o.filename p (st.stored p))) →
      wp (onFile f fun o => PageFile.deletePage o.filename p)
        (fun _ u => ∃ kept', Flushable pins (noteAt released f p none) kept' u)
        (onThrow fun _ u => ∃ kept', Flushable pins released kept' u) t := by
    intro t hobj hstreams hleft hgone hshared
    have ho' : t.objects f = some o := by
      rw [hobj]
      exact ho
    have hne : ∀ {g q j}, t.entry g q = some j → ¬ (g = f ∧ q = p) := by
      rintro g q j hj ⟨rfl, rfl⟩
      rw [hgone] at hj
      cases hj
    rw [wp_onFile ho', hstreams]
    -- the page is gone from the file, or the file has refused and is as it was
    refine wp_mono hspec ?_ ?_
    · intro _ st hst
      obtain ⟨horder', -, hkeep, -⟩ := hst
      refine ⟨_, h.fewer (hshared st horder' hkeep) hobj hleft ?_⟩
      exact fun g og q j hg hj => h.note_of_ne ho hg (hne hj) _ _
    · intro e st he
      obtain rfl := he
      refine onThrow_intro (fun _ => ⟨_, h.fewer (hshared _ horder fun _ _ => rfl) hobj hleft ?_⟩) e
      exact fun g og q j hg hj => ⟨rfl, (h.note_of_ne ho hg (hne hj) none _).2⟩
  have honly : ∀ g, s.objects g = some o → g ≠ f → s.entry g p = none :=
    fun g hg hne => absurd (h.one g f o o hg ho rfl) hne
  -- the file is in order and has its other pages
  have hupdate : ∀ st : FStream D, FileKind.page.InOrder st →
      (∀ q, q ≠ p → st.stored q = (s.streams o.filename).stored q) →
      (∀ a oa, s.objects a = some oa →
        oa.kind.InOrder (Function.update s.streams o.filename st oa.filename)) ∧
      (∀ a oa q, s.objects a = some oa → ¬ (oa = o ∧ q = p) →
        oa.kind.held (Function.update s.streams o.filename st oa.filename) q =
          oa.kind.held (s.streams oa.filename) q) ∧
      o.kind.held (Function.update s.streams o.filename st o.filename) p = st.stored p := by
    intro st horder' hkeep
    refine ⟨h.shared.update_order ho ?_, h.shared.update_keep ho ?_, ?_⟩
    · rw [hkind]
      exact horder'
    · rw [hkind]
      exact hkeep
    · rw [Function.update_self, hkind]
      rfl
  apply wp_disposePage ho h.shared.pinInv.pool
  · -- the page is pinned, it is not in the pool, or it is taken out of the pool
    intro i _ _
    exact ⟨kept, h⟩
  · intro hnone
    apply hdelete s rfl rfl (fun _ _ _ hj => ⟨hj, rfl⟩) hnone
    intro st horder' hkeep
    obtain ⟨hord, hheld, hown⟩ := hupdate st horder' hkeep
    rw [← hown]
    refine h.shared.putAbsent ho ?_ hord ?_ fun a oa q ha _ hne => hheld a oa q ha hne
    · intro g hg
      by_cases hgf : g = f
      · rw [hgf]
        exact hnone
      · exact honly g hg hgf
    · intro a oa q d ha hne hd
      rw [hheld a oa q ha hne]
      exact hd
  · intro i hi hpin
    obtain ⟨hv, rfl, rfl⟩ := h.shared.pinInv.pool.entry f p i hi
    apply hdelete ((s.dropEntry (s.desc i).file (s.desc i).pageNo).setDesc i BufDesc.clear) rfl rfl
      (Flushable.left h.shared.pinInv.pool)
    · rw [Sys.entry_setDesc, Sys.entry_dropEntry, if_pos ⟨rfl, rfl⟩]
    · intro st horder' hkeep
      obtain ⟨hord, hheld, hown⟩ := hupdate st horder' hkeep
      rw [← hown]
      exact h.shared.discard hv ho honly (h.shared.pinInv.evict hi hpin) (fun _ _ _ => id) hord hheld

/-- The calls that give no pin back. -/
theorem call_flushable (h : Flushable pins released kept s) {op : BufOp} (ho : s.objects op.file = some o)
    (hunpin : op.IsUnPin = false) (hnames : NamesPage op) :
    wp (call op)
      (fun r t => ∃ kept', Flushable (op.notePins (.ok r) pins) (op.notePages (.ok r) t released) kept' t)
      (onThrow fun _ t => Settles s op → ∃ kept', Flushable pins released kept' t) s := by
  -- the calls that settle; a call that has thrown leaves the invariant if it settles
  cases op with
  | readPage f p =>
      rw [call, wp_bind]
      refine wp_mono (readPage_flushable h ho hnames) (fun _ _ ht => ⟨kept, ht⟩) ?_
      intro e t he
      exact onThrow_mono he fun _ hx hsettles => ⟨kept, hx.1 hsettles⟩
  | allocPage f =>
      rw [call, wp_bind]
      refine wp_mono (allocPage_flushable h ho) (fun _ _ ht => ht) ?_
      intro e t he
      exact onThrow_mono he fun _ hx hsettles => ⟨kept, hx.1 hsettles⟩
  | unPinPage f p dirty => cases hunpin
  | flushFile f =>
      rw [call, wp_bind]
      refine wp_mono (wp_flushFile ho h evictable_flushable.table fun t i ht _ =>
        evictable_flushable.writeBack t i ht) ?_ ?_
      · intro _ t ht
        exact ⟨kept, ht.1⟩
      · intro e t he
        exact onThrow_mono he fun _ hx _ => ⟨kept, hx.1⟩
  | disposePage f p =>
      rw [call, wp_bind]
      refine wp_mono (disposePage_flushable h ho hnames) (fun _ _ ht => ht) ?_
      intro e t he
      exact onThrow_mono he fun _ hx _ => hx

/-- A client gives back a pin, with the page changed only if it says so. -/
theorem Flushable.unPin (h : Flushable pins released kept s) {pin : Pin} {dirty : Bool} (hpin : pin ∈ pins)
    (hchanged : pin.changed = true → dirty = true) :
    let t := s.setDesc pin.frame fun d => { d with dirty := dirty || d.dirty, pinCnt := d.pinCnt - 1 }
    ∃ kept', Flushable (pins.erase pin) (pin.noteRelease dirty t released) kept' t := by
  intro t
  have hentry := h.shared.pinInv.held pin hpin
  obtain ⟨o, ho, -⟩ := h.shared.cached _ _ _ hentry
  have hshared := h.shared.unPin hpin hchanged ho fun _ a ha hne => absurd (h.one a _ o o ha ho rfl) hne
  have hdesc : ∀ j, j ≠ pin.frame → t.desc j = s.desc j := by
    intro j hj
    rw [Sys.desc_setDesc, if_neg hj]
  refine ⟨_, hshared, h.paged, h.one, h.null, ?_⟩
  intro f o' p j ho' hj hdirty
  have hj : s.entry f p = some j := hj
  have ho' : s.objects f = some o' := ho'
  -- released clean: nothing is noted, so it was clean already or it stays noted as it was
  cases hd : dirty with
  | false =>
      rw [Pin.noteRelease, if_neg Bool.false_ne_true, if_neg Bool.false_ne_true]
      apply h.dirty f o' p j ho' hj
      by_cases hji : j = pin.frame
      · rw [hji]
        rw [hji, Sys.desc_setDesc, if_pos rfl, hd] at hdirty
        exact hdirty
      · rw [hdesc j hji] at hdirty
        exact hdirty
  | true =>
      rw [Pin.noteRelease, if_pos rfl, if_pos rfl]
      -- released dirty: what is noted is what the frame has
      by_cases heq : f = pin.file ∧ p = pin.pageNo
      · obtain ⟨rfl, rfl⟩ := heq
        obtain rfl := Option.some.inj (ho'.symm.trans ho)
        have ht : t.objects pin.file = some o' := ho
        rw [noteAt, if_pos ⟨rfl, rfl⟩, putPage_self, shown, ht]
        rfl
      · obtain ⟨hr, hk⟩ := h.note_of_ne ho ho' heq (shown t pin.file pin.frame)
          (some (o.kind.normal (s.frame pin.frame)))
        rw [hr, hk]
        apply h.dirty f o' p j ho' hj
        have hji : j ≠ pin.frame := by
          rintro rfl
          obtain ⟨-, hf, hp⟩ := h.shared.pinInv.pool.entry _ _ _ hentry
          obtain ⟨-, hf', hp'⟩ := h.shared.pinInv.pool.entry _ _ _ hj
          exact heq ⟨hf'.symm.trans hf, hp'.symm.trans hp⟩
        rw [hdesc j hji] at hdirty
        exact hdirty

end Calls

/-! ## Runs

A pin that is given back is the one event that changes what was released last, and the write before it the one that
changes a frame without a call. Both are shown to keep the invariant for the pins that the clients hold.
-/

/-- Among the events considered, those whose calls settle the frame they take. -/
def OkSettles (s : CacheState D) (e : CacheEvent D) : Prop :=
  s.Ok call e ∧ ∀ op, e = .call op → Settles s.sys op ∧ NamesPage op

theorem flushable_after {s : CacheState D} {kept : FileName → Nat → Option (Page D)}
    (h : Flushable s.pins s.released kept s.sys) {e : CacheEvent D} (hok : OkSettles s e) :
    ∃ kept', Flushable (s.after call e).pins (s.after call e).released kept' (s.after call e).sys := by
  obtain ⟨hok, hsettles⟩ := hok
  -- the pins and the notes after each event are those that `CacheState.after` gives it
  cases e with
  | call op =>
      obtain ⟨hlive, hunpin, hgo⟩ := hok
      obtain ⟨o, ho⟩ := Option.isSome_iff_exists.mp hlive
      have hspec := call_flushable h ho hunpin (hsettles op rfl).2
      apply Proceeds.of_wp hgo hspec (P := fun r t =>
        ∃ kept', Flushable (op.notePins r s.pins) (op.notePages r t s.released) kept' t)
      · exact fun r t _ ht => ht
      · intro e t _ ht
        rw [op.notePins_throw, op.notePages_throw]
        exact ht (hsettles op rfl).1
  | unPin pin dirty =>
      rcases after_unPin h.shared.pinInv hok with hsame | ⟨hmem, hchanged, hafter⟩
      · rw [hsame]
        exact ⟨kept, h⟩
      · rw [hafter]
        exact h.unPin hmem hchanged
  | write pin page =>
      obtain ⟨hpin, hnum⟩ := hok
      obtain ⟨o, ho, -⟩ := h.shared.cached _ _ _ (h.shared.pinInv.held pin hpin)
      exact ⟨kept, h.shared.write hpin ho (hnum o ho), h.paged, h.one, h.null, h.dirty⟩

/-! ## The destructor

Two loops are nested here. `Emptied` is the invariant of the inner one, over the frames of one file, and `Closing`
that of the outer one, over all frames. Both hold what has been done next to what has not, so that a pin that stops
the inner loop can be traced back to the state before the destructor.
-/

section Destroy

variable {s t : Sys D} {pins : List Pin} {released : Nat → Nat → Option (Page D)}
  {kept : FileName → Nat → Option (Page D)} {f k : Nat} {o : FileObject}

/-- The frames of `f` before `k` have been emptied, and none of their pages was pinned. -/
structure Emptied (s : Sys D) (f k : Nat) (t : Sys D) : Prop where
  objects : t.objects = s.objects
  numBufs : t.numBufs = s.numBufs
  unpinned : ∀ i < k, (s.desc i).file = f → (s.desc i).pinCnt = 0
  cleared : ∀ i < k, (s.desc i).file = f → t.desc i = (s.desc i).clear
  others : ∀ i, ¬ (i < k ∧ (s.desc i).file = f) → t.desc i = s.desc i

omit [PageData D] in
theorem Emptied.start : Emptied s f 0 s where
  objects := rfl
  numBufs := rfl
  unpinned _ hi := absurd hi (Nat.not_lt_zero _)
  cleared _ hi := absurd hi (Nat.not_lt_zero _)
  others _ _ := rfl

omit [PageData D] in
theorem Emptied.skip (h : Emptied s f k t) (hk : (s.desc k).file ≠ f) : Emptied s f (k + 1) t := by
  have hlt : ∀ i < k + 1, (s.desc i).file = f → i < k := by
    intro i hi hfile
    -- the round over a frame of another file
    rcases Nat.lt_succ_iff_lt_or_eq.mp hi with hi | rfl
    · exact hi
    · exact absurd hfile hk
  exact
    { objects := h.objects
      numBufs := h.numBufs
      unpinned := fun i hi hfile => h.unpinned i (hlt i hi hfile) hfile
      cleared := fun i hi hfile => h.cleared i (hlt i hi hfile) hfile
      others := fun i hi => h.others i fun hik => hi ⟨Nat.lt_succ_of_lt hik.1, hik.2⟩ }

omit [PageData D] in
theorem Emptied.next (h : Emptied s f k t) (hpin : (s.desc k).pinCnt = 0) (hfile : (s.desc k).file = f)
    (streams : FileName → FStream D) (p : Nat) :
    Emptied s f (k + 1) (((t.setStreams streams).dropEntry f p).setDesc k BufDesc.clear) where
  objects := h.objects
  numBufs := h.numBufs
  unpinned i hi hof := by
    rcases Nat.lt_succ_iff_lt_or_eq.mp hi with hi | rfl
    · exact h.unpinned i hi hof
    · exact hpin
  cleared i hi hof := by
    rw [Sys.desc_setDesc]
    split
    · -- the frame of this round is cleared, and those before it stay cleared
      next hik =>
        show (t.desc k).clear = _
        rw [hik, h.others k fun hk => Nat.lt_irrefl k hk.1]
    · next hik => exact h.cleared i (Nat.lt_of_le_of_ne (Nat.le_of_lt_succ hi) hik) hof
  others i hi := by
    have hik : i ≠ k := by
      rintro rfl
      exact hi ⟨Nat.lt_succ_self i, hfile⟩
    rw [Sys.desc_setDesc, if_neg hik]
    exact h.others i fun hlt => hi ⟨Nat.lt_succ_of_lt hlt.1, hlt.2⟩

/-- A frame of a file is in use. -/
theorem Flushable.valid_of_file (h : Flushable pins released kept s) (ho : s.objects f = some o) {i : Nat}
    (hfile : (s.desc i).file = f) : (s.desc i).valid = true := by
  cases hv : (s.desc i).valid with
  | true => rfl
  | false =>
      -- a frame that is not in use names the null object
      rw [← h.shared.pinInv.pool.invalid i hv] at hfile
      have hzero : 0 = f := hfile
      rw [← hzero, h.null] at ho
      cases ho

/-- `flushFile` empties the frames of the file, or comes to a pinned page of it. -/
theorem flushFile_emptied (h : Flushable pins released kept s) (ho : s.objects f = some o) :
    wp (flushFile f) (fun _ t => Flushable pins released kept t ∧ Emptied s f s.numBufs t)
      (fun e _ => ∃ i, (s.desc i).file = f ∧ 0 < (s.desc i).pinCnt ∧
        e = .throw (.pagePinned o.filename (s.desc i).pageNo i)) s := by
  rw [flushFile, wp_bind, wp_get]
  apply wp_forRange (I := fun k (t : Sys D) => Flushable pins released kept t ∧ Emptied s f k t)
    ⟨h, Emptied.start⟩
  intro k _ t ht
  obtain ⟨ht, hemptied⟩ := ht
  have hdesc : t.desc k = s.desc k := hemptied.others k fun hk => Nat.lt_irrefl k hk.1
  have ho' : t.objects f = some o := by
    rw [hemptied.objects]
    exact ho
  apply wp_flushFrame ho' ht.shared.table
  · -- the cases of a frame: of another file, pinned, out of order, or to be written back
    intro hother
    refine ⟨ht, hemptied.skip fun hfile => ?_⟩
    rw [← hdesc] at hfile
    exact hother (ht.valid_of_file ho' hfile) hfile
  · intro hfile hpin
    rw [hdesc] at hfile hpin ⊢
    exact ⟨k, hfile, hpin, rfl⟩
  · intro hfile hbad
    have hv := ht.valid_of_file ho' hfile
    obtain ⟨o', ho'', hpage⟩ := ht.shared.cached _ _ k (ht.shared.full k hv)
    rcases hbad with hnum | hinvalid
    · exact absurd (hpage (ht.paged _ o' ho'')).2 hnum
    · rw [hv] at hinvalid
      cases hinvalid
  · intro hv hfile _
    have hstreams : wp (writeBack k) (fun _ u => ∃ streams, u = t.setStreams streams)
        (fun _ _ => True) t :=
      wp_writeBack_any (fun streams => ⟨streams, rfl⟩) fun _ _ => trivial
    refine wp_mono (wp_and (ht.writeBack hv) hstreams) ?_ fun _ _ he => he.1.elim
    intro _ u hu
    obtain ⟨hu, streams, rfl⟩ := hu
    refine ⟨hu, ?_⟩
    rw [hfile]
    rw [hdesc] at hfile
    apply hemptied.next _ hfile
    rw [← hdesc]
    exact hv.unpinned

/-- The files of the dirty frames before `k` have been flushed, and none of their pages was pinned. -/
structure Closing (s : Sys D) (k : Nat) (t : Sys D) : Prop where
  objects : t.objects = s.objects
  numBufs : t.numBufs = s.numBufs
  desc : ∀ i, t.desc i = s.desc i ∨ t.desc i = (s.desc i).clear ∧
    ∀ j, (s.desc j).file = (s.desc i).file → (s.desc j).pinCnt = 0
  clean : ∀ i < k, (t.desc i).dirty = false

omit [PageData D] in
/-- A frame that is in use is as it was. -/
theorem Closing.desc_of_valid (h : Closing s k t) {i : Nat} (hv : (t.desc i).valid = true) :
    t.desc i = s.desc i := by
  rcases h.desc i with hdesc | ⟨hdesc, -⟩
  · exact hdesc
  · rw [hdesc] at hv
    cases hv

/-- The destructor leaves no frame dirty, or comes to a pinned page of a file with a dirty one. -/
theorem destroy_closing (h : Flushable pins released kept s) :
    wp destroy (fun _ t => Flushable pins released kept t ∧ Closing s s.numBufs t)
      (fun _ _ => ∃ i j, (s.desc i).dirty = true ∧ (s.desc j).file = (s.desc i).file ∧
        0 < (s.desc j).pinCnt) s := by
  rw [destroy, wp_bind, wp_get]
  apply wp_forRange (I := fun k (t : Sys D) => Flushable pins released kept t ∧ Closing s k t)
  · exact ⟨h, rfl, rfl, fun _ => Or.inl rfl, fun _ hi => absurd hi (Nat.not_lt_zero _)⟩
  intro k _ t ht
  obtain ⟨ht, hclosing⟩ := ht
  rw [wp_bind, wp_get, wp_ite]
  constructor
  · -- a dirty frame: its file is flushed, and then no frame of the file is in use
    intro hdirty
    have hv : (t.desc k).valid = true := by
      cases hv : (t.desc k).valid with
      | true => rfl
      | false =>
          rw [← ht.shared.pinInv.pool.invalid k hv] at hdirty
          cases hdirty
    have hk := hclosing.desc_of_valid hv
    obtain ⟨o, ho, -⟩ := ht.shared.cached _ _ k (ht.shared.full k hv)
    refine wp_mono (flushFile_emptied ht ho) ?_ ?_
    · intro _ u hu
      obtain ⟨hu, hemptied⟩ := hu
      -- a frame of the file was in use, so it is one that has been emptied
      have hfile : ∀ i, (t.desc i).file = (t.desc k).file →
          i < t.numBufs ∧ t.desc i = s.desc i := by
        intro i hfile
        have hvalid := ht.valid_of_file ho hfile
        exact ⟨ht.shared.pinInv.pool.valid_lt i hvalid, hclosing.desc_of_valid hvalid⟩
      have hunpinned : ∀ j, (s.desc j).file = (t.desc k).file → (s.desc j).pinCnt = 0 := by
        intro j hj
        rcases hclosing.desc j with hdesc | ⟨-, hun⟩
        · rw [← hdesc] at hj ⊢
          exact hemptied.unpinned j (hfile j hj).1 hj
        · exact hun j rfl
      refine ⟨hu, hemptied.objects.trans hclosing.objects, hemptied.numBufs.trans hclosing.numBufs, ?_, ?_⟩
      · intro i
        by_cases hi : (t.desc i).file = (t.desc k).file
        · obtain ⟨hlt, hdesc⟩ := hfile i hi
          apply Or.inr
          rw [hemptied.cleared i hlt hi, hdesc]
          rw [hdesc] at hi
          refine ⟨rfl, fun j hj => hunpinned j (hj.trans hi)⟩
        · -- frames of other files are as they were before this round
          rw [hemptied.others i fun hof => hi hof.2]
          exact hclosing.desc i
      · intro i hi
        by_cases hof : (t.desc i).file = (t.desc k).file
        · rw [hemptied.cleared i (hfile i hof).1 hof]
          rfl
        · rw [hemptied.others i fun hof' => hof hof'.2]
          rcases Nat.lt_succ_iff_lt_or_eq.mp hi with hi | rfl
          · exact hclosing.clean i hi
          · exact absurd rfl hof
    · intro e u he
      obtain ⟨j, hfile, hpin, -⟩ := he
      have hj := hclosing.desc_of_valid (ht.valid_of_file ho hfile)
      rw [hk] at hdirty
      rw [hj, hk] at hfile
      rw [hj] at hpin
      exact ⟨k, j, hdirty, hfile, hpin⟩
  · -- a clean frame is passed over
    intro hclean
    refine ⟨ht, hclosing.objects, hclosing.numBufs, hclosing.desc, fun i hi => ?_⟩
    rcases Nat.lt_succ_iff_lt_or_eq.mp hi with hi | rfl
    · exact hclosing.clean i hi
    · simpa using hclean

end Destroy

/-- The destructor returns, and the files have what was released last for the pages in dirty frames. -/
structure ShutsDown (s : CacheState D) : Prop where
  returns : (destroy s.sys).1 = .ok ()
  written : ∀ i o, (s.sys.desc i).dirty = true → s.sys.objects (s.sys.desc i).file = some o →
    ∃ d, s.released (s.sys.desc i).file (s.sys.desc i).pageNo = some d ∧
      onDisk (destroy s.sys).2 o (s.sys.desc i).pageNo = some d

theorem shutsDown_of_flushable {s : CacheState D} {kept : FileName → Nat → Option (Page D)}
    (h : Flushable s.pins s.released kept s.sys) :
    ShutsDown s ↔ ∀ i j, (s.sys.desc i).dirty = true → (s.sys.desc j).file = (s.sys.desc i).file →
      (s.sys.desc j).pinCnt = 0 := by
  have hspec := destroy_closing h
  -- the destructor throws, or it returns
  rcases hr : destroy s.sys with ⟨e | _, t⟩
  · rw [wp_of_error hr] at hspec
    obtain ⟨i, j, hdirty, hfile, hpin⟩ := hspec
    constructor
    · intro hdown
      have hreturns := hdown.returns
      rw [hr] at hreturns
      cases hreturns
    · intro hunpinned
      have hzero := hunpinned i j hdirty hfile
      omega
  · rw [wp_of_ok hr] at hspec
    obtain ⟨ht, hclosing⟩ := hspec
    have hvalid : ∀ i, (s.sys.desc i).dirty = true → (s.sys.desc i).valid = true := by
      intro i hdirty
      cases hv : (s.sys.desc i).valid with
      | true => rfl
      | false =>
          rw [← h.shared.pinInv.pool.invalid i hv] at hdirty
          cases hdirty
    have hclean : ∀ i, (t.desc i).valid = true → (t.desc i).dirty = false := by
      intro i hv
      have hlt := ht.shared.pinInv.pool.valid_lt i hv
      rw [hclosing.numBufs] at hlt
      exact hclosing.clean i hlt
    constructor
    · intro _ i j hdirty hfile
      -- a frame that is still as it was is not dirty any more, which it was
      rcases hclosing.desc i with hdesc | ⟨-, hunpinned⟩
      · have hv := hvalid i hdirty
        rw [← hdesc] at hdirty hv
        rw [hclean i hv] at hdirty
        cases hdirty
      · exact hunpinned j hfile
    · intro _
      refine ⟨by rw [hr], fun i o hdirty ho => ?_⟩
      have hentry := h.shared.full i (hvalid i hdirty)
      obtain ⟨o', ho', hpage⟩ := h.shared.cached _ _ i hentry
      obtain rfl := Option.some.inj (ho'.symm.trans ho)
      have hkind := h.paged _ o' ho
      obtain ⟨d, hd⟩ := Option.isSome_iff_exists.mp (h.shared.known _ o' _ ho hkind (hpage hkind).1)
      refine ⟨d, (h.dirty _ o' _ i ho hentry hdirty).trans hd, ?_⟩
      -- no frame is dirty any more, so all that is kept is in the files
      have ht' : t.objects (s.sys.desc i).file = some o' := by
        rw [hclosing.objects]
        exact ho
      rw [hr]
      apply ht.shared.onDisk_of_absent ht' _ hd
      intro g j _ hj
      exact hclean j (ht.shared.pinInv.pool.entry g _ j hj).1

/-- **When shutting down writes everything back**, in every pool that a run of settling calls leads to. -/
theorem shutsDown_iff (objects : Nat → Option FileObject) (streams : FileName → FStream D) (bufs : Nat)
    (hbufs : 1 ≤ bufs)
    (hone : ∀ a b oa ob, objects a = some oa → objects b = some ob → oa.filename = ob.filename →
      a = b)
    (hnull : objects 0 = none) (hpaged : ∀ a o, objects a = some o → o.kind = .page)
    (horder : ∀ a o, objects a = some o → o.kind.InOrder (streams o.filename))
    {events : List (CacheEvent D)} {s : CacheState D}
    (h : Run (Run.guarded OkSettles (CacheState.after call)) (CacheState.new objects streams bufs)
      events s) :
    ShutsDown s ↔ ∀ i j, (s.sys.desc i).dirty = true → (s.sys.desc j).file = (s.sys.desc i).file →
      (s.sys.desc j).pinCnt = 0 := by
  have hinv : ∃ kept, Flushable s.pins s.released kept s.sys := by
    apply h.invariant (I := fun s => ∃ kept, Flushable s.pins s.released kept s.sys)
    · have hshared : SharedInv ⟨objects, streams, .new bufs⟩ []
          fun fn p => FileKind.page.held (streams fn) p := sharedInv_start hbufs hpaged horder
      exact ⟨_, hshared, hpaged, hone, hnull, fun _ _ _ _ _ hi => by cases hi⟩
    · intro s e t hs hstep
      obtain ⟨hok, rfl⟩ := hstep
      obtain ⟨kept, hs⟩ := hs
      exact flushable_after hs hok
  obtain ⟨kept, hflushable⟩ := hinv
  exact shutsDown_of_flushable hflushable

/-- A page of one file is dirty, and one of the other file is pinned. -/
theorem shutsDown_pinned :
    let pin : Pin := ⟨1, 1, 0, false⟩
    let events : List (CacheEvent StringArea) :=
      [.call (.allocPage 1), .write pin (pageOne (List.replicate dataSize 7)), .unPin { pin with changed := true } true,
        .call (.allocPage 2)]
    let s := events.foldl (CacheState.after call) (CacheState.new twoFiles (newStreams true) 2)
    s.pins = [⟨2, 1, 1, false⟩] ∧ ShutsDown s := by
  refine ⟨rfl, (shutsDown_iff twoFiles (newStreams true) 2 (by decide)
    (fun a b oa ob => CacheState.twoFiles_one) rfl (fun a o => CacheState.twoFiles_paged)
    (fun a o => CacheState.twoFiles_inOrder true) (Run.of_allOk ?_)).mpr ?_⟩
  · refine ⟨⟨⟨rfl, rfl, trivial⟩, ?_⟩, ⟨⟨List.mem_cons_self, ?_⟩, nofun⟩,
      ⟨⟨rfl, trivial, Or.inl ⟨List.mem_cons_self, fun _ => rfl⟩⟩, nofun⟩,
      ⟨⟨rfl, rfl, trivial⟩, ?_⟩, trivial⟩
    · rintro _ ⟨⟩
      refine ⟨fun i t h => ?_, trivial⟩
      cases h
      exact ⟨fun page u h => by cases h; rfl, fun e u h => by cases h⟩
    · intro _ _ _
      rfl
    · rintro _ ⟨⟩
      refine ⟨fun i t h => ?_, trivial⟩
      cases h
      exact ⟨fun page u h => by cases h; rfl, fun e u h => by cases h⟩
  · -- frame 0 is the dirty one
    rintro (_ | _ | i) (_ | _ | j) hdirty hfile
    case zero.zero => rfl
    case zero.succ.zero =>
      have hfile : 2 = 1 := hfile
      cases hfile
    case zero.succ.succ => rfl
    all_goals cases hdirty

/-- A client has a pin left on a page of the first file, which another client has released dirty. The
destructor is left by the exception, and an update of the second file, of which no page is pinned, is lost. -/
theorem shutsDown_lost :
    let pin : Pin := ⟨1, 1, 0, false⟩
    let other : Pin := ⟨2, 1, 1, false⟩
    let events : List (CacheEvent StringArea) :=
      [.call (.allocPage 1), .call (.readPage 1 1), .write pin (pageOne (List.replicate dataSize 7)),
        .unPin { pin with changed := true } true, .call (.allocPage 2),
        .write other (pageOne (List.replicate dataSize 7)), .unPin { other with changed := true } true]
    let new := CacheState.new twoFiles (newStreams true) 2
    let s := events.foldl (CacheState.after call) new
    Run (Run.guarded OkSettles (CacheState.after call)) new events s ∧ s.pins = [pin] ∧
      (∃ d, s.released 2 1 = some d ∧ d.data.head? = some 7) ∧
      (∃ t, destroy s.sys = (.error (.throw (.pagePinned "f" 1 0)), t) ∧
        ∃ d, onDisk t ⟨.page, "g"⟩ 1 = some d ∧ d.data.head? = some 0) ∧
      ¬ ShutsDown s := by
  refine ⟨Run.of_allOk ?_, rfl, ⟨_, by rfl, by rfl⟩, ⟨_, by rfl, _, by rfl, by rfl⟩, ?_⟩
  · refine ⟨⟨⟨rfl, rfl, trivial⟩, ?_⟩, ⟨⟨rfl, rfl, trivial⟩, ?_⟩,
      ⟨⟨List.mem_cons_of_mem _ List.mem_cons_self, ?_⟩, nofun⟩,
      ⟨⟨rfl, trivial, Or.inl ⟨List.mem_cons_self, fun _ => rfl⟩⟩, nofun⟩,
      ⟨⟨rfl, rfl, trivial⟩, ?_⟩, ⟨⟨List.mem_cons_self, ?_⟩, nofun⟩,
      ⟨⟨rfl, trivial, Or.inl ⟨List.mem_cons_self, fun _ => rfl⟩⟩, nofun⟩, trivial⟩
    · rintro _ ⟨⟩
      refine ⟨fun i t h => ?_, trivial⟩
      cases h
      exact ⟨fun page u h => by cases h; rfl, fun e u h => by cases h⟩
    · rintro _ ⟨⟩
      refine ⟨fun hnone => ?_, Nat.one_ne_zero⟩
      cases hnone
    · intro _ _ _
      rfl
    · rintro _ ⟨⟩
      refine ⟨fun i t h => ?_, trivial⟩
      cases h
      exact ⟨fun page u h => by cases h; rfl, fun e u h => by cases h⟩
    · intro _ _ _
      rfl
  · intro hdown
    have hreturns : Except.error _ = Except.ok () := hdown.returns
    cases hreturns

end CS640.Badger.P2.BufMgr
