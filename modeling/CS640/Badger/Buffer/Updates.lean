import CS640.Badger.Buffer.Representation
import CS640.Badger.Buffer.Clients

/-!
# Updates of p2

Main result: `P2.BufMgr.keepsUpdates`. In every run in which each call settles the frame it takes, and
no dirty page is dropped by a `disposePage` that its file then refuses, a page is read with the data
last released for it and what the holders of pins have written since.

Otherwise an update can be lost (`keepsUpdates_lost`): a frame that was left without a hash entry holds
an old version of a page, and its next eviction takes away the entry of the frame that has the new one.

`PagedCache` is the invariant of a cache (`CacheInv`) over paged files; each call is shown to keep it
(`readPage_updates`, `allocPage_updates`, `disposePage_updates`, `call_updates`), together with `latest`, the data
that a client may expect to read. The two conditions of the main result enter where a call throws: `Keeps` rules out
the two ends of a call after which the pool has forgotten a page that only it had.
-/

namespace CS640.Badger.P2.BufMgr

open CS640.Lib Prog
open CS640.Badger.BufMgr

variable {D : Type} [PageData D]

/-! ## The files

What the functions of `PageFile` do to a file in good order. A read, or an allocation, that throws has changed
nothing.
-/

section Files

variable {st : FStream D} {p : Nat} (fn : FileName)

/-- A page that the file has is read, and nothing changes. -/
theorem readPage_reads (h : FileKind.page.InOrder st) :
    wp (PageFile.readPage fn p)
      (fun pg t => t = st ∧ st.stored p = some pg.contents ∧ pg.pageNumber = p)
      (fun _ t => FileKind.page.MayRead st p → t = st) st := by
  -- Either the file has the page, or the read does not return.
  cases hp : st.stored p with
  | some d =>
      obtain ⟨pg, hr, hpg, hnum⟩ := FileObject.readPage_of_held (o := ⟨.page, fn⟩) h hp
      have hr : PageFile.readPage fn p st = (.ok pg, st) := hr
      rw [wp_of_ok hr]
      exact ⟨rfl, congrArg some hpg.symm, hnum rfl⟩
  | none =>
      refine wp_mono (FileObject.readPage_of_not_held (o := ⟨.page, fn⟩) h hp) ?_ fun _ _ he => he
      intro pg t ht
      cases ht.1

theorem allocatePage_puts (h : FileKind.page.InOrder st) :
    wp (P2.File.allocatePage fn)
      (fun pg t => FileObject.Puts .page st pg.pageNumber pg.contents t ∧ st.stored pg.pageNumber = none)
      (fun _ t => t = st) st := by
  rw [P2.File.allocatePage, wp_bind]
  refine wp_mono (FileObject.allocatePage_puts (o := ⟨.page, fn⟩) h) ?_ fun _ _ he => he
  intro r t hr
  obtain ⟨hst, hpage⟩ := hr
  obtain ⟨hnum, hfresh⟩ := hpage rfl
  rw [wp_pure, hnum]
  exact ⟨hst, hfresh⟩

/-- A page is deleted, or everything is as it was. -/
theorem deletePage_deletes (h : FileKind.page.InOrder st) (hread : FileKind.page.MayRead st p) :
    wp (PageFile.deletePage fn p)
      (fun _ t => FileKind.page.InOrder t ∧ t.stored p = none ∧ (∀ q, q ≠ p → t.stored q = st.stored q) ∧
        t.sticky = st.sticky)
      (fun _ t => t = st) st :=
  FileObject.deletePage_deletes (o := ⟨.page, fn⟩) h fun _ => hread

end Files

/-! ## The calls

The rules of `P2` ask what happens at the ends of a call. A frame that has been taken is described by `Taken`: the
pool is as it was, apart from that frame, which is clear.
-/

/-- The pool is a cache of its files, which all are paged files. -/
structure PagedCache (pins : List Pin) (latest : Nat → Nat → Option (Page D)) (s : Sys D) : Prop where
  cache : CacheInv s pins latest
  paged : ∀ a o, s.objects a = some o → o.kind = .page

section Calls

variable {s : Sys D} {pins : List Pin} {latest : Nat → Nat → Option (Page D)}

theorem evictable_pagedCache : Evictable (PagedCache pins latest) where
  table t h := h.cache.table
  -- A frame in use has an entry, so its file has an object.
  live t i h hv := by
    obtain ⟨o, ho, -⟩ := h.cache.cached _ _ _ (h.cache.full i hv)
    rw [ho]
    rfl
  scanned t u h hu hinv := by
    refine ⟨h.cache.scanned hu hinv.pool, ?_⟩
    rw [hu.objects]
    exact h.paged
  evict t i h hv hclean := ⟨h.cache.evict_clean hv hclean, h.paged⟩
  writeBack t i h hv hnum := by
    rw [writeBack, wp_bind, wp_get, wp_ite]
    constructor
    · -- A dirty page is written to its file, which then has what clients see.
      intro hdirty
      obtain ⟨o, st, ho, hwrite, hst⟩ := h.cache.writePage_stored (h.cache.full i hv.valid)
      have hwrite' : P2.File.writePage o.filename (t.frame i) (t.streams o.filename) = (.ok (), st) := by
        rw [P2.File.writePage, hnum, ← hwrite, FileObject.writePage, h.paged _ o ho]
      rw [wp_onFile ho, wp_of_ok hwrite']
      exact ⟨h.cache.evict_written hv ho hst, h.paged⟩
    · intro hclean
      exact ⟨h.cache.evict_clean hv (by simpa using hclean), h.paged⟩

theorem onFile_readPage {t : Sys D} {f p : Nat} {o : FileObject} (ho : t.objects f = some o)
    (h : FileKind.page.InOrder (t.streams o.filename)) :
    wp (onFile f fun o => PageFile.readPage o.filename p)
      (fun pg u => u = t ∧ (t.streams o.filename).stored p = some pg.contents ∧ pg.pageNumber = p)
      (fun _ u => FileKind.page.MayRead (t.streams o.filename) p → u = t) t := by
  rw [wp_onFile ho]
  refine wp_mono (readPage_reads o.filename h) ?_ ?_
  · intro pg st hpg
    obtain ⟨rfl, hstored, hnum⟩ := hpg
    exact ⟨t.setStream_self _, hstored, hnum⟩
  · intro e st he hread
    obtain rfl := he hread
    exact t.setStream_self _

theorem onFile_allocatePage {t : Sys D} {f : Nat} {o : FileObject} (ho : t.objects f = some o)
    (h : FileKind.page.InOrder (t.streams o.filename)) :
    wp (onFile f fun o => P2.File.allocatePage o.filename)
      (fun pg u => ∃ st, u = t.setStream o.filename st ∧
        FileObject.Puts .page (t.streams o.filename) pg.pageNumber pg.contents st ∧
        (t.streams o.filename).stored pg.pageNumber = none)
      (fun _ u => u = t) t := by
  rw [wp_onFile ho]
  refine wp_mono (allocatePage_puts o.filename h) ?_ ?_
  · intro pg st hpg
    exact ⟨st, rfl, hpg⟩
  · intro e st he
    obtain rfl := he
    exact t.setStream_self _

/-- Filling and entering a frame that has been taken. -/
theorem Taken.loadPage {t : Sys D} {i f p : Nat} {o : FileObject} {pg : Page D} {streams}
    {latest' : Nat → Nat → Option (Page D)} (htaken : Taken (PagedCache pins latest) s i t)
    (h : CacheInv ((t.setStreams streams).setDesc i BufDesc.clear) pins latest')
    (ho : t.objects f = some o) (hnone : t.entry f p = none)
    (hstored : (streams o.filename).stored p = some pg.contents) (hnum : pg.pageNumber = p)
    (hdata : ∀ d, latest' f p = some d → pg.contents = d) :
    PagedCache (⟨f, p, i, false⟩ :: pins) latest'
      ((((t.setStreams streams).setFrame i pg).setDesc i (BufDesc.set f p)).putEntry f p i) := by
  have hkind : o.kind = .page := htaken.cleared.paged f o ho
  have hv : (((t.setStreams streams).setDesc i BufDesc.clear).desc i).valid = false := by
    rw [Sys.desc_setDesc, if_pos rfl]
    rfl
  -- The frame is cleared first, which makes no difference to a frame that is filled next.
  refine ⟨?_, htaken.cleared.paged⟩
  rw [← load_cleared]
  apply h.load hv htaken.lt hnone ho
  · intro _
    refine ⟨?_, hnum⟩
    show (o.kind.held (streams o.filename) p).isSome = true
    rw [hkind]
    show ((streams o.filename).stored p).isSome = true
    rw [hstored]
    rfl
  · intro d hd
    rw [hkind]
    exact hdata d hd

/-- Calls that keep updates: they settle the frame they take, and a dirty page that is not pinned is not
disposed of where its file refuses to delete it. -/
def Keeps (s : Sys D) (op : BufOp) : Prop :=
  Settles s op ∧ ∀ f p, op = .disposePage f p → ∀ i, s.entry f p = some i → (s.desc i).pinCnt = 0 →
    (s.desc i).dirty = true →
    ∀ e u, onFile f (fun o => PageFile.deletePage o.filename p) s ≠ (.error (.throw e), u)

/-- The call is not one for `Page::INVALID_NUMBER`. A read of that page, which no file has, leaves an
`std::fstream` with its `failbit` set, and it writes nothing more. -/
def NamesPage : BufOp → Prop
  | .readPage _ pageNo => pageNo ≠ invalidNumber
  | .disposePage _ pageNo => pageNo ≠ invalidNumber
  | _ => True

theorem order_paged (h : PagedCache pins latest s) {f : Nat} {o : FileObject} (ho : s.objects f = some o) :
    FileKind.page.InOrder (s.streams o.filename) := by
  have horder := h.cache.order f o ho
  rw [h.paged f o ho] at horder
  exact horder

/-- A page that is in the pool is pinned. -/
theorem PagedCache.pin (h : PagedCache pins latest s) {f p i : Nat} (hi : s.entry f p = some i) :
    PagedCache (⟨f, p, i, false⟩ :: pins) latest
      (s.setDesc i fun d => { d with refbit := true, pinCnt := d.pinCnt + 1 }) := by
  refine ⟨?_, h.paged⟩
  refine h.cache.mark hi (fun _ => ?_) (h.cache.pinInv.pin hi) ?_ ?_
  · exact ⟨rfl, rfl, rfl, rfl⟩
  · -- A frame that is dirty stays so, and what is unchanged with one pin more was so before.
    intro hdirty
    exact ⟨hdirty, CacheState.unchanged_cons.mp⟩
  · intro f' p' _
    exact CacheState.unchanged_cons.mp

/-- A page that its file has comes into a frame. -/
theorem Taken.readPage {t : Sys D} {i f p : Nat} {o : FileObject} {pg : Page D} {streams}
    (htaken : Taken (PagedCache pins latest) s i t) (ho : t.objects f = some o)
    (hr : onFile f (fun o => PageFile.readPage o.filename p) t = (.ok pg, t.setStreams streams))
    (hnone : t.entry f p = none) :
    PagedCache (⟨f, p, i, false⟩ :: pins) latest
      ((((t.setStreams streams).setFrame i pg).setDesc i (BufDesc.set f p)).putEntry f p i) := by
  have hspec := onFile_readPage (p := p) ho (order_paged htaken.cleared ho)
  rw [wp_of_ok hr] at hspec
  obtain ⟨hsame, hstored, hnum⟩ := hspec
  -- Reading has not changed the file, so the page has what `latest` says of a page that is in no frame.
  obtain rfl : streams = t.streams := congrArg Sys.streams hsame
  apply htaken.loadPage htaken.cleared.cache ho hnone hstored hnum
  intro d hd
  have hdisk := htaken.cleared.cache.inFile f o p d ho hnone hd
  rw [onDisk, htaken.cleared.paged f o ho] at hdisk
  exact Option.some.inj (hstored.symm.trans hdisk)

/-- A `readPage` that returns, of whatever page. -/
theorem readPage_returns (h : PagedCache pins latest s) {f p : Nat} {o : FileObject}
    (ho : s.objects f = some o) :
    wp (readPage f p) (fun i t => PagedCache (⟨f, p, i, false⟩ :: pins) latest t) (fun _ _ => True) s := by
  apply wp_readPage evictable_pagedCache h ho
  · exact fun _ => h.pin
  · exact fun _ _ _ => trivial
  · exact fun _ _ _ _ _ _ _ _ _ => trivial
  · -- The page comes from its file into the frame that was taken; the other ends throw.
    intro i t pg streams htaken hr' hnone
    have ho' : t.objects f = some o := by
      rw [htaken.objects]
      exact ho
    exact Taken.readPage htaken ho' hr' hnone

theorem readPage_updates (h : PagedCache pins latest s) {f p : Nat} {o : FileObject}
    (ho : s.objects f = some o) (hp : p ≠ invalidNumber) :
    wp (readPage f p) (fun i t => PagedCache (⟨f, p, i, false⟩ :: pins) latest t)
      (Fails (PagedCache pins latest) s (.readPage f p)) s := by
  apply wp_readPage_settles evictable_pagedCache h ho
  · exact fun _ => h.pin
  · -- a file in good order throws before it does anything
    intro t e u ht ho' hr'
    have hspec := onFile_readPage (p := p) ho' (order_paged ht ho')
    rw [wp_of_error hr'] at hspec
    obtain rfl := hspec fun _ => Or.inr ⟨rfl, hp⟩
    exact ht
  · exact fun i t pg streams htaken => Taken.readPage htaken

theorem allocPage_updates (h : PagedCache pins latest s) {f : Nat} {o : FileObject}
    (ho : s.objects f = some o) :
    wp (allocPage f)
      (fun r t => PagedCache (⟨f, r.1, r.2, false⟩ :: pins) (noteAt latest f r.1 (shown t f r.2)) t)
      (Fails (PagedCache pins latest) s (.allocPage f)) s := by
  apply wp_allocPage_settles evictable_pagedCache h ho
  · -- The allocation throws: the frame is clear, and the file as it was.
    intro t e u ht ho' hr'
    have hspec := onFile_allocatePage ho' (order_paged ht ho')
    rw [wp_of_error hr'] at hspec
    obtain rfl := hspec
    exact ht
  · intro i t pg streams htaken ho' hr' hnone
    have hkind := htaken.cleared.paged f o ho'
    have hspec := onFile_allocatePage ho' (order_paged htaken.cleared ho')
    rw [wp_of_ok hr'] at hspec
    obtain ⟨st, hsame, hst, -⟩ := hspec
    obtain rfl : streams = Function.update t.streams o.filename st := congrArg Sys.streams hsame
    -- The file has a new page, of which `latest` knows from now on.
    have hstored := htaken.cleared.cache.stored (p := pg.pageNumber) (d := pg.contents) ho'
      (by rw [hkind]; exact hst)
    have hnew := htaken.cleared.cache.newPage ho' hnone hstored
    set u := (((t.setStreams (Function.update t.streams o.filename st)).setFrame i pg).setDesc i
      (BufDesc.set f pg.pageNumber)).putEntry f pg.pageNumber i with hu
    -- What the client is shown is what is in the frame, and that is the page of the file.
    have hshown : noteAt latest f pg.pageNumber (shown u f i) =
        noteData latest f pg.pageNumber pg.contents := by
      have hou : u.objects f = some o := ho'
      have hframe : u.frame i = pg := by
        rw [hu, Sys.frame_putEntry, Sys.frame_loaded]
      rw [noteAt_shown hou, hkind, hframe]
      rfl
    show PagedCache _ (noteAt latest f pg.pageNumber (shown u f i)) u
    rw [hshown]
    have hown : (Function.update t.streams o.filename st o.filename).stored pg.pageNumber =
        some pg.contents := by
      rw [Function.update_self]
      exact hst.own
    apply htaken.loadPage hnew ho' hnone hown rfl
    intro d hd
    rw [noteData, if_pos ⟨rfl, rfl⟩] at hd
    exact Option.some.inj hd

/-- What is deleted from one file leaves the other files alone. -/
theorem deletedAt (h : PagedCache pins latest s) {f p : Nat} {o : FileObject}
    (ho : s.objects f = some o) {st : FStream D} (horder : FileKind.page.InOrder st)
    (hgone : st.stored p = none) (hkeep : ∀ q, q ≠ p → st.stored q = (s.streams o.filename).stored q) :
    DeletedAt s f p (Function.update s.streams o.filename st) := by
  -- Another object is one for another file.
  have hother : ∀ a oa, s.objects a = some oa → a ≠ f →
      Function.update s.streams o.filename st oa.filename = s.streams oa.filename := by
    intro a oa ha hne
    apply Function.update_of_ne
    intro hname
    exact hne (h.cache.one a f oa o ha ho hname)
  have hself : Function.update s.streams o.filename st o.filename = st := Function.update_self ..
  constructor
  · intro a oa ha
    -- The object itself, then the others.
    by_cases haf : a = f
    · subst haf
      obtain rfl := Option.some.inj (ha.symm.trans ho)
      rw [hself, h.paged a oa ha]
      exact horder
    · rw [hother a oa ha haf]
      exact h.cache.order a oa ha
  · intro o' ho'
    obtain rfl := Option.some.inj (ho'.symm.trans ho)
    rw [hself, h.paged f o' ho']
    exact hgone
  · intro a oa q ha hne
    by_cases haf : a = f
    · subst haf
      obtain rfl := Option.some.inj (ha.symm.trans ho)
      rw [hself, onDisk, h.paged a oa ha]
      show st.stored q = (s.streams oa.filename).stored q
      exact hkeep q fun hq => hne ⟨rfl, hq⟩
    · rw [hother a oa ha haf]
      rfl

/-- Deleting a page from its file, once it is in no frame. -/
theorem onFile_deletePage {t : Sys D} (h : PagedCache pins latest s) {f p : Nat} {o : FileObject}
    (ho : s.objects f = some o) (hp : p ≠ invalidNumber) (hpins : PinInv t pins) (htable : TableInv t)
    (hobj : t.objects = s.objects) (hstreams : t.streams = s.streams) (hgone : t.entry f p = none)
    (hframes : ∀ f' p' j, t.entry f' p' = some j →
      s.entry f' p' = some j ∧ t.desc j = s.desc j ∧ t.frame j = s.frame j)
    (hrest : ∀ f' p', ¬ (f' = f ∧ p' = p) → t.entry f' p' = none → s.entry f' p' = none) :
    wp (onFile f fun o => PageFile.deletePage o.filename p)
      (fun _ u => PagedCache pins (noteAt latest f p none) u)
      (fun e u => u = t ∧
        ∃ v, onFile f (fun o => PageFile.deletePage o.filename p) s = (.error e, v)) t := by
  have ho' : t.objects f = some o := by
    rw [hobj]
    exact ho
  have hspec := deletePage_deletes o.filename (order_paged h ho) fun _ => Or.inr ⟨rfl, hp⟩
  have hs := onFile_apply (x := fun o => PageFile.deletePage o.filename p) ho
  rw [wp_onFile ho', hstreams]
  rcases hr : PageFile.deletePage o.filename p (s.streams o.filename) with ⟨e | _, st⟩
  · -- The file refuses, in `s` as in `t`: the streams are the same.
    rw [wp_of_error hr] at hspec ⊢
    obtain rfl := hspec
    rw [hr] at hs
    refine ⟨?_, _, hs⟩
    rw [← hstreams]
    exact t.setStream_self _
  · rw [wp_of_ok hr] at hspec ⊢
    obtain ⟨horder, hgone', hkeep, -⟩ := hspec
    have hdeleted := deletedAt h ho horder hgone' hkeep
    rw [← hstreams] at hdeleted
    refine ⟨?_, ?_⟩
    · exact h.cache.forget (hpins.setStreams _) (htable.setStreams _) hobj hgone hframes hrest hdeleted
    · intro a oa ha
      apply h.paged a oa
      rw [← hobj]
      exact ha

theorem disposePage_updates (h : PagedCache pins latest s) {f p : Nat} {o : FileObject}
    (ho : s.objects f = some o) (hp : p ≠ invalidNumber) :
    wp (disposePage f p) (fun _ t => PagedCache pins (noteAt latest f p none) t)
      (onThrow fun _ t => Keeps s (.disposePage f p) → PagedCache pins latest t) s := by
  apply wp_disposePage ho h.cache.pinInv.pool
  · -- The page is pinned, and the call throws before it changes anything.
    intro i _ _ _
    exact h
  · -- The page is not in the pool.
    intro hnone
    refine wp_mono (onFile_deletePage h ho hp h.cache.pinInv h.cache.table rfl rfl hnone
      (fun f' p' j hj => ⟨hj, rfl, rfl⟩) fun f' p' _ hnone => hnone) (fun _ _ ht => ht) ?_
    intro e t he
    cases e with
    | throw x =>
        intro _
        obtain ⟨rfl, -⟩ := he
        exact h
    | _ => trivial
  · -- It is in a frame, which is emptied before the file is asked.
    intro i hi hpin
    obtain ⟨hv, hfile, hpage⟩ := h.cache.pinInv.pool.entry f p i hi
    have hvictim : Victim s i := ⟨hv, hpin⟩
    have hpins := h.cache.pinInv.evict (h.cache.full i hv) hpin
    have htable := h.cache.table.evict hv
    rw [hfile, hpage] at hpins htable
    refine wp_mono (onFile_deletePage h ho hp hpins htable rfl rfl ?_ ?_ ?_) (fun _ _ ht => ht) ?_
    · rw [Sys.entry_setDesc, Sys.entry_dropEntry, if_pos ⟨rfl, rfl⟩]
    · intro f' p' j hj
      rw [← hfile, ← hpage] at hj
      obtain ⟨hj, hne⟩ := h.cache.pinInv.pool.entry_evict hj
      refine ⟨hj, ?_, rfl⟩
      rw [Sys.desc_setDesc, if_neg hne]
      rfl
    · intro f' p' hne hnone
      rw [Sys.entry_setDesc, Sys.entry_dropEntry, if_neg hne] at hnone
      exact hnone
    · intro e t he
      cases e with
      | throw x =>
          intro hkeeps
          obtain ⟨rfl, v, hv'⟩ := he
          -- the page was not dirty, so its file has what clients see
          have hclean : (s.desc i).dirty = false := by
            cases hdirty : (s.desc i).dirty with
            | false => rfl
            | true => exact absurd hv' (hkeeps.2 f p rfl i hi hpin hdirty x v)
          have hevict := h.cache.evict_clean hvictim hclean
          rw [hfile, hpage] at hevict
          exact ⟨hevict, h.paged⟩
      | _ => trivial

/-- The calls that give no pin back. -/
theorem call_updates (h : PagedCache pins latest s) {op : BufOp} {o : FileObject}
    (ho : s.objects op.file = some o) (hunpin : op.IsUnPin = false) (hnames : NamesPage op) :
    wp (call op)
      (fun r t => PagedCache (op.notePins (.ok r) pins) (op.notePages (.ok r) t latest) t)
      (onThrow fun _ t => Keeps s op → PagedCache pins latest t) s := by
  -- Call by call; the condition on calls is used where they throw only.
  cases op with
  | readPage f p =>
      rw [call, wp_bind]
      refine wp_mono (readPage_updates h ho hnames) (fun _ _ ht => ht) ?_
      intro e t he
      exact onThrow_mono he fun _ hx hkeeps => hx.1 hkeeps.1
  | allocPage f =>
      rw [call, wp_bind]
      refine wp_mono (allocPage_updates h ho) (fun _ _ ht => ht) ?_
      intro e t he
      exact onThrow_mono he fun _ hx hkeeps => hx.1 hkeeps.1
  | unPinPage f p dirty => cases hunpin
  | flushFile f =>
      rw [call, wp_bind]
      refine wp_mono (wp_flushFile ho h evictable_pagedCache.table fun t i ht _ =>
        evictable_pagedCache.writeBack t i ht) ?_ ?_
      · intro _ t ht
        exact ht.1
      · intro e t he
        exact onThrow_mono he fun _ hx _ => hx.1
  | disposePage f p =>
      rw [call, wp_bind]
      exact disposePage_updates h ho hnames

/-- An `unPinPage` that returns takes a pin back, if there is one. -/
theorem unPin_updates (h : PinInv s pins) {f : Nat} {o : FileObject} (ho : s.objects f = some o) (p : Nat)
    (dirty : Bool) :
    wp (call (.unPinPage f p dirty))
      (fun _ t => pinsOn pins f p = 0 ∧ t = s ∨
        0 < pinsOn pins f p ∧ ∃ i, s.entry f p = some i ∧ t = s.setDesc i fun d =>
          { d with dirty := dirty || d.dirty, pinCnt := d.pinCnt - 1 })
      (onThrow fun _ t => t = s) s := by
  rw [call, wp_bind]
  apply wp_unPinPage ho h.pool
  · intro hnone
    exact Or.inl ⟨h.pinsOn_eq_zero hnone, rfl⟩
  · intro i _ _
    rfl
  · intro i hi hcnt
    refine Or.inr ⟨?_, i, hi, rfl⟩
    rw [← h.counted f p i hi]
    exact Nat.pos_of_ne_zero hcnt

end Calls

/-! ## Runs

`OkKeeps` is the condition on an event in the state that it happens in; `ReadsReleased` is what a client sees of the
invariant.
-/

/-- Among the events considered, those whose calls keep updates. -/
def OkKeeps (s : CacheState D) (e : CacheEvent D) : Prop :=
  s.Ok call e ∧ ∀ op, e = .call op → Keeps s.sys op ∧ NamesPage op

/-- A page is read with the data last released for it and what holders of pins have written since. -/
structure ReadsReleased (s : CacheState D) : Prop where
  read : ∀ f p i t, (s.sys.objects f).isSome = true → readPage f p s.sys = (.ok i, t) →
    s.latest f p = some (t.frame i).contents
  same : ∀ f p, Unchanged s.pins f p → s.released f p = s.latest f p

section Runs

variable {s : CacheState D}

/-- A pin is given back, or everything is as it was. -/
theorem after_unPin (h : PinInv s.sys s.pins) {pin : Pin} {dirty : Bool} (hok : s.Ok call (.unPin pin dirty)) :
    s.after call (.unPin pin dirty) = s ∨ pin ∈ s.pins ∧ (pin.changed = true → dirty = true) ∧
      s.after call (.unPin pin dirty) =
        let t := s.sys.setDesc pin.frame fun d =>
          { d with dirty := dirty || d.dirty, pinCnt := d.pinCnt - 1 }
        { sys := t
          pins := s.pins.erase pin
          latest := pin.noteRelease dirty t s.latest
          released := pin.noteRelease dirty t s.released } := by
  obtain ⟨hlive, hgo, hpin⟩ := hok
  obtain ⟨o, ho⟩ := Option.isSome_iff_exists.mp hlive
  have hspec := unPin_updates h ho pin.pageNo dirty
  rcases hr : call (.unPinPage pin.file pin.pageNo dirty) s.sys with ⟨r, t⟩
  rw [hr] at hgo
  rw [CacheState.after, hr]
  -- The call has returned, or it has thrown and changed nothing.
  rcases hgo.cases with ⟨r, rfl⟩ | ⟨e, rfl⟩
  · rw [wp_of_ok hr] at hspec
    dsimp only
    rcases hspec with ⟨hnone, rfl⟩ | ⟨hpos, i, hi, rfl⟩
    · -- nobody has the page pinned
      have hmem : pin ∉ s.pins := by
        intro hmem
        have hpos := pinsOn_pos_iff.mpr ⟨pin, hmem, rfl, rfl⟩
        omega
      rw [if_neg hmem]
      exact Or.inl rfl
    · rcases hpin with ⟨hmem, hchanged⟩ | hnone
      · obtain rfl := Option.some.inj (hi.symm.trans (h.held pin hmem))
        rw [if_pos hmem]
        exact Or.inr ⟨hmem, hchanged, rfl⟩
      · omega
  · rw [wp_of_error hr] at hspec
    obtain rfl := hspec
    exact Or.inl rfl

theorem inv_after (h : s.Inv) (hpaged : ∀ a o, s.sys.objects a = some o → o.kind = .page)
    {e : CacheEvent D} (hok : OkKeeps s e) :
    (s.after call e).Inv ∧ ∀ a o, (s.after call e).sys.objects a = some o → o.kind = .page := by
  obtain ⟨hok, hkeeps⟩ := hok
  have hcache : PagedCache s.pins s.latest s.sys := ⟨h.cache, hpaged⟩
  cases e with
  | call op =>
      obtain ⟨hlive, hunpin, hgo⟩ := hok
      obtain ⟨o, ho⟩ := Option.isSome_iff_exists.mp hlive
      have hspec := call_updates hcache ho hunpin (hkeeps op rfl).2
      have hafter : PagedCache (op.notePins (call op s.sys).1 s.pins)
          (op.notePages (call op s.sys).1 (call op s.sys).2 s.latest) (call op s.sys).2 := by
        apply Proceeds.of_wp hgo hspec
          (P := fun r t => PagedCache (op.notePins r s.pins) (op.notePages r t s.latest) t)
        · exact fun r t _ ht => ht
        · intro e t _ ht
          rw [op.notePins_throw, op.notePages_throw]
          exact ht (hkeeps op rfl).1
      exact ⟨CacheState.inv_call h hunpin hafter.cache, hafter.paged⟩
  | unPin pin dirty =>
      -- Nothing happens, or the pin is given back as the invariant asks.
      rcases after_unPin h.cache.pinInv hok with hsame | ⟨hmem, hchanged, hafter⟩
      · rw [hsame]
        exact ⟨h, hpaged⟩
      · rw [hafter]
        exact ⟨CacheState.inv_unPin h hmem hchanged, hpaged⟩
  | write pin page => exact ⟨CacheState.inv_write h hok, hpaged⟩

theorem readsReleased_of_inv (h : s.Inv)
    (hpaged : ∀ a o, s.sys.objects a = some o → o.kind = .page) : ReadsReleased s := by
  constructor
  case read =>
    intro f p i t hlive hr
    obtain ⟨o, ho⟩ := Option.isSome_iff_exists.mp hlive
    have hspec := readPage_returns ⟨h.cache, hpaged⟩ (p := p) ho
    -- The page has been read into frame `i` with a pin on it, so the table has it there and the invariant knows its
    -- data.
    rw [wp_of_ok hr] at hspec
    have hi := hspec.cache.pinInv.held _ List.mem_cons_self
    obtain ⟨o', ho', hpage⟩ := hspec.cache.cached f p i hi
    have hkind := hspec.paged f o' ho'
    obtain ⟨d, hd⟩ := Option.isSome_iff_exists.mp
      (hspec.cache.known f o' p ho' hkind (hpage hkind).1)
    have hdata := (hspec.cache.inFrame f o' p i d ho' hi hd).1
    rw [hkind] at hdata
    rw [hd, ← hdata]
    rfl
  case same => exact h.same

end Runs

/-- **No update is lost**, in every run of calls that keep updates, on paged files in good order, each
with one `File` object. -/
theorem keepsUpdates (objects : Nat → Option FileObject) (streams : FileName → FStream D) (bufs : Nat)
    (hbufs : 1 ≤ bufs)
    (hone : ∀ a b oa ob, objects a = some oa → objects b = some ob → oa.filename = ob.filename →
      a = b)
    (hpaged : ∀ a o, objects a = some o → o.kind = .page)
    (horder : ∀ a o, objects a = some o → o.kind.InOrder (streams o.filename))
    {events : List (CacheEvent D)} {s : CacheState D}
    (h : Run (Run.guarded OkKeeps (CacheState.after call)) (CacheState.new objects streams bufs)
      events s) : ReadsReleased s := by
  have hinv : s.Inv ∧ ∀ a o, s.sys.objects a = some o → o.kind = .page := by
    apply h.invariant (I := fun s => s.Inv ∧ ∀ a o, s.sys.objects a = some o → o.kind = .page)
    · exact ⟨CacheState.inv_new hbufs hone horder, hpaged⟩
    · -- By induction on the run.
      intro s e t hs hstep
      obtain ⟨hok, rfl⟩ := hstep
      exact inv_after hs.1 hs.2 hok
  exact readsReleased_of_inv hinv.1 hinv.2

/-- One frame: a page is written to, released, flushed to make room for another one and read again. -/
theorem keepsUpdates_evicts :
    let pin : Pin := ⟨1, 1, 0, false⟩
    let events : List (CacheEvent StringArea) :=
      [.call (.allocPage 1), .write pin (pageOne (List.replicate dataSize 7)), .unPin { pin with changed := true } true,
        .call (.allocPage 2), .unPin ⟨2, 1, 0, false⟩ false, .call (.readPage 1 1)]
    let s := events.foldl (CacheState.after call) (CacheState.new twoFiles (newStreams true) 1)
    (s.sys.frame 0).data.head? = some 7 ∧ ReadsReleased s := by
  refine ⟨by decide +kernel, keepsUpdates twoFiles (newStreams true) 1 (by decide)
    (fun a b oa ob => CacheState.twoFiles_one) (fun a o => CacheState.twoFiles_paged)
    (fun a o => CacheState.twoFiles_inOrder true) (Run.of_allOk ?_)⟩
  · refine ⟨⟨⟨rfl, rfl, trivial⟩, ?_⟩, ⟨⟨List.mem_cons_self, ?_⟩, ?_⟩,
      ⟨⟨rfl, trivial, Or.inl ⟨List.mem_cons_self, fun _ => rfl⟩⟩, ?_⟩,
      ⟨⟨rfl, rfl, trivial⟩, ?_⟩,
      ⟨⟨rfl, trivial, Or.inl ⟨List.mem_cons_self, fun h => by cases h⟩⟩, ?_⟩,
      ⟨⟨rfl, rfl, trivial⟩, ?_⟩, trivial⟩
    · -- The allocations settle their frame, and the read does not throw; the other events are no calls.
      rintro _ ⟨⟩
      refine ⟨⟨fun i t h => ?_, fun _ _ h => by cases h⟩, trivial⟩
      cases h
      exact ⟨fun page u h => by cases h; rfl, fun e u h => by cases h⟩
    · intro _ _ _; rfl
    · intro _ h; cases h
    · intro _ h; cases h
    · rintro _ ⟨⟩
      refine ⟨⟨fun i t h => ?_, fun _ _ h => by cases h⟩, trivial⟩
      cases h
      exact ⟨fun page u h => by cases h; rfl, fun e u h => by cases h⟩
    · intro _ h; cases h
    · rintro _ ⟨⟩
      refine ⟨⟨fun _ i t h e u h' => ?_, fun _ _ h => by cases h⟩, Nat.one_ne_zero⟩
      cases h
      cases h'

/-- Two frames: page 1 of the first file is left in frame 0 without a hash entry by a call that throws,
read into frame 1, written to and released dirty. The eviction of frame 0 takes away the entry of frame
1; once frame 0 is free again, the page is read from the file, as it was before the update. Every pin
has been given back. -/
theorem keepsUpdates_lost :
    let pin : Pin := ⟨1, 1, 1, false⟩
    let events : List (CacheEvent StringArea) :=
      [.call (.allocPage 1), .unPin ⟨1, 1, 0, false⟩ false, .call (.readPage 1 9),
        .call (.readPage 1 9), .call (.readPage 1 9), .call (.readPage 1 1),
        .write pin (pageOne (List.replicate dataSize 7)), .unPin { pin with changed := true } true, .call (.allocPage 2),
        .unPin ⟨2, 1, 0, false⟩ false, .call (.disposePage 2 1)]
    let new := CacheState.new twoFiles (newStreams true) 2
    let s := events.foldl (CacheState.after call) new
    Run (Run.guarded (CacheState.Ok call) (CacheState.after call)) new events s ∧ s.pins = [] ∧
      (∃ d, s.released 1 1 = some d ∧ d.data.head? = some 7) ∧
      (∃ t, readPage 1 1 s.sys = (.ok 0, t) ∧ (t.frame 0).data.head? = some 0) ∧
      ¬ ReadsReleased s := by
  refine ⟨Run.of_allOk ?_, by rfl, ⟨_, by rfl, by rfl⟩, ⟨_, by rfl, by rfl⟩, ?_⟩
  · refine ⟨⟨rfl, rfl, trivial⟩,
      ⟨rfl, trivial, Or.inl ⟨List.mem_cons_self, fun h => by cases h⟩⟩,
      ⟨rfl, rfl, trivial⟩, ⟨rfl, rfl, trivial⟩, ⟨rfl, rfl, trivial⟩, ⟨rfl, rfl, trivial⟩,
      ⟨List.mem_cons_self, fun _ _ _ => rfl⟩,
      ⟨rfl, trivial, Or.inl ⟨List.mem_cons_self, fun _ => rfl⟩⟩,
      ⟨rfl, rfl, trivial⟩,
      ⟨rfl, trivial, Or.inl ⟨List.mem_cons_self, fun h => by cases h⟩⟩,
      ⟨rfl, rfl, trivial⟩, trivial⟩
  · -- The file has zeros where the last release wrote sevens.
    intro hsafe
    have hlatest := hsafe.read 1 1 0 _ (by rfl) (by rfl)
    have hdata := congrArg (fun d => d.bind fun d => d.data.head?) hlatest
    cases hdata

end CS640.Badger.P2.BufMgr
