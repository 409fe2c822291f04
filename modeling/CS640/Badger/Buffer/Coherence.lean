import CS640.Badger.Buffer.Clients

/-!
# Several `File` objects on one file

A pool knows files by the addresses of their `File` objects, so a page can be in it once for each object
on its file. `SharedInv s pins released` is the invariant under which such a pool still stands for one
store: `released` is the data last released for a page of a file, under whichever object. A frame has it,
unless the holder of a pin is changing it, and the file has it too, unless just one object has the page in
the pool, in a dirty frame.

The lemmas are about the changes that a buffer manager makes to a pool, as those of `CacheInv`, which is
for files with one object each.

The eight fields of the invariant are kept by each of the changes: a page is written to its file (`writeFrame`),
evicted (`evict`), loaded (`load`), pinned or marked (`mark`), released dirty (`release`), written to by a client
(`write`), deleted (`discard`, `forget`). In most of them the page that the change is about is told from the others,
and the others are as they were.
-/

namespace CS640.Badger.BufMgr

open CS640.Lib Prog

variable {D : Type}

/-- The note `m` on the pages of files with the data of one page replaced. -/
def putPage (m : FileName → Nat → Option (Page D)) (fn : FileName) (p : Nat) (v : Option (Page D)) :
    FileName → Nat → Option (Page D) :=
  fun fn' p' => if fn' = fn ∧ p' = p then v else m fn' p'

theorem putPage_self (m : FileName → Nat → Option (Page D)) (fn : FileName) (p : Nat)
    (v : Option (Page D)) : putPage m fn p v fn p = v :=
  if_pos ⟨rfl, rfl⟩

theorem putPage_of_ne (m : FileName → Nat → Option (Page D)) {fn fn' : FileName} {p p' : Nat}
    (v : Option (Page D)) (h : ¬ (fn' = fn ∧ p' = p)) : putPage m fn p v fn' p' = m fn' p' :=
  if_neg h

/-- Only the object at `f` has page `p` of the file of `o` in the pool, in a dirty frame. -/
def DirtyAt (s : Sys D) (o : FileObject) (p f : Nat) : Prop :=
  s.objects f = some o ∧ (∃ i, s.entry f p = some i ∧ (s.desc i).dirty = true) ∧
    ∀ g, s.objects g = some o → g ≠ f → s.entry g p = none

structure SharedInv [PageData D] (s : Sys D) (pins : List Pin)
    (released : FileName → Nat → Option (Page D)) : Prop where
  pinInv : PinInv s pins
  full : ∀ i, (s.desc i).valid = true → s.entry (s.desc i).file (s.desc i).pageNo = some i
  same : ∀ a b oa ob, s.objects a = some oa → s.objects b = some ob → oa.filename = ob.filename → oa = ob
  order : ∀ a o, s.objects a = some o → o.kind.InOrder (s.streams o.filename)
  cached : ∀ f p i, s.entry f p = some i → ∃ o, s.objects f = some o ∧
    (o.kind = .page → (onDisk s o p).isSome = true ∧ (s.frame i).pageNumber = p)
  known : ∀ f o p, s.objects f = some o → o.kind = .page → (onDisk s o p).isSome = true →
    (released o.filename p).isSome = true
  inFrame : ∀ f o p i d, s.objects f = some o → s.entry f p = some i → released o.filename p = some d →
    Unchanged pins f p → o.kind.normal (s.frame i) = d
  inFile : ∀ f o p d, s.objects f = some o → released o.filename p = some d →
    onDisk s o p = some d ∨ ∃ g, DirtyAt s o p g

namespace SharedInv

variable [PageData D] {s t : Sys D} {pins pins' : List Pin} {released : FileName → Nat → Option (Page D)}
  {f p i : Nat} {o : FileObject} {d pg : Page D}

theorem table (h : SharedInv s pins released) : TableInv s := ⟨h.pinInv.pool, h.full⟩

/-! ## The files

What a file has of a page is known in two cases: no object has the page in a dirty frame, or the frame has just been
written. Objects on one file are alike, so a page of the file is known by the file and the number.
-/

/-- Objects on one file are alike. -/
theorem eq_of_name (h : SharedInv s pins released) {a b : Nat} {oa ob : FileObject}
    (ha : s.objects a = some oa) (hb : s.objects b = some ob) (hname : oa.filename = ob.filename) :
    oa = ob := h.same a b oa ob ha hb hname

theorem stored (h : SharedInv s pins released) (ho : s.objects f = some o) {st : FStream D}
    (hst : FileObject.Puts o.kind (s.streams o.filename) p d st) :
    Stored s.objects s.streams o p d (Function.update s.streams o.filename st) :=
  stored_update h.same h.order ho hst

/-- The file of a cached page takes the page back. -/
theorem writePage_stored (h : SharedInv s pins released) (hi : s.entry f p = some i) :
    ∃ o st, s.objects f = some o ∧
      o.writePage p (s.frame i) (s.streams o.filename) = (.ok (), st) ∧
      Stored s.objects s.streams o p (o.kind.normal (s.frame i))
        (Function.update s.streams o.filename st) := by
  obtain ⟨o, ho, hpage⟩ := h.cached f p i hi
  obtain ⟨st, hr, hst⟩ := FileObject.writePage_puts (h.order f o ho) hpage
  exact ⟨o, st, ho, hr, h.stored ho hst⟩

/-- A frame that is not dirty has what the file has. -/
theorem onDisk_of_clean (h : SharedInv s pins released) (ho : s.objects f = some o)
    (hi : s.entry f p = some i) (hclean : (s.desc i).dirty = false)
    (hd : released o.filename p = some d) : onDisk s o p = some d := by
  rcases h.inFile f o p d ho hd with hdisk | ⟨g, -, ⟨j, hj, hdirty⟩, honly⟩
  · exact hdisk
  · -- the dirty frame is this one, or the page is not in the pool under this object
    by_cases hfg : f = g
    · subst hfg
      obtain rfl := Option.some.inj (hi.symm.trans hj)
      rw [hclean] at hdirty
      cases hdirty
    · rw [honly f ho hfg] at hi
      cases hi

/-- So has the file of a page that no object has in a dirty frame. -/
theorem onDisk_of_absent (h : SharedInv s pins released) (ho : s.objects f = some o)
    (hclean : ∀ g i, s.objects g = some o → s.entry g p = some i → (s.desc i).dirty = false)
    (hd : released o.filename p = some d) : onDisk s o p = some d := by
  rcases h.inFile f o p d ho hd with hdisk | ⟨g, hg, ⟨j, hj, hdirty⟩, -⟩
  · exact hdisk
  · rw [hclean g j hg hj] at hdirty
    cases hdirty

/-- No holder of a pin is changing the page in an unpinned frame. -/
theorem unchanged_of_victim (h : SharedInv s pins released) (hv : Victim s i) :
    Unchanged pins (s.desc i).file (s.desc i).pageNo := by
  intro pin hpin hf hp
  have hpos := pinsOn_pos_iff.mpr ⟨pin, hpin, hf, hp⟩
  rw [← h.pinInv.counted _ _ i (h.full i hv.valid), hv.unpinned] at hpos
  cases hpos

/-- Writing the data last released for a page to its file, from a frame. -/
theorem writeFrame (h : SharedInv s pins released) (hi : s.entry f p = some i)
    (ho : s.objects f = some o) (hun : Unchanged pins f p) {streams : FileName → FStream D}
    (hst : Stored s.objects s.streams o p (o.kind.normal (s.frame i)) streams) :
    SharedInv (s.setStreams streams) pins released where
  pinInv := h.pinInv.setStreams streams
  full := h.full
  same := h.same
  order := hst.order
  cached f' p' j hj := by
    obtain ⟨o', ho', hpage⟩ := h.cached f' p' j hj
    refine ⟨o', ho', fun hkind => ⟨?_, (hpage hkind).2⟩⟩
    -- the page that is written, and the other pages
    by_cases heq : o' = o ∧ p' = p
    · obtain ⟨rfl, rfl⟩ := heq
      rw [onDisk, Sys.streams_setStreams, hst.own]
      rfl
    · rw [onDisk, Sys.streams_setStreams, hst.used f' o' p' ho' hkind heq]
      exact (hpage hkind).1
  known f' o' p' ho' hkind hsome := by
    by_cases heq : o' = o ∧ p' = p
    · obtain ⟨rfl, rfl⟩ := heq
      obtain ⟨o'', ho'', hpage⟩ := h.cached f p' i hi
      obtain rfl := Option.some.inj (ho''.symm.trans ho)
      exact h.known f o'' p' ho hkind (hpage hkind).1
    · rw [onDisk, Sys.streams_setStreams, hst.used f' o' p' ho' hkind heq] at hsome
      exact h.known f' o' p' ho' hkind hsome
  inFrame := h.inFrame
  inFile f' o' p' d ho' hd := by
    by_cases heq : o' = o ∧ p' = p
    · obtain ⟨rfl, rfl⟩ := heq
      apply Or.inl
      rw [← h.inFrame f o' p' i d ho hi hd hun]
      exact hst.own
    · rcases h.inFile f' o' p' d ho' hd with hdisk | hdirty
      · exact Or.inl (hst.keep f' o' p' d ho' heq hdisk)
      · exact Or.inr hdirty

/-- What becomes of a page of a file that no object has in the pool counts as released. -/
theorem putAbsent (h : SharedInv s pins released) (ho : s.objects f = some o)
    (hnone : ∀ g, s.objects g = some o → s.entry g p = none) {streams : FileName → FStream D}
    (horder : ∀ a oa, s.objects a = some oa → oa.kind.InOrder (streams oa.filename))
    (hkeep : ∀ a oa q d', s.objects a = some oa → ¬ (oa = o ∧ q = p) →
      oa.kind.held (s.streams oa.filename) q = some d' → oa.kind.held (streams oa.filename) q = some d')
    (hused : ∀ a oa q, s.objects a = some oa → oa.kind = .page → ¬ (oa = o ∧ q = p) →
      oa.kind.held (streams oa.filename) q = oa.kind.held (s.streams oa.filename) q) :
    SharedInv (s.setStreams streams) pins
      (putPage released o.filename p (o.kind.held (streams o.filename) p)) := by
  -- the page is that of no other object
  have hne : ∀ {f' o' p'}, s.objects f' = some o' → ¬ (o' = o ∧ p' = p) →
      ¬ (o'.filename = o.filename ∧ p' = p) := by
    intro f' o' p' ho' hne heq
    exact hne ⟨h.eq_of_name ho' ho heq.1, heq.2⟩
  have hheld : ∀ {f' o' p' j}, s.objects f' = some o' → s.entry f' p' = some j → ¬ (o' = o ∧ p' = p) := by
    intro f' o' p' j ho' hj heq
    obtain ⟨rfl, rfl⟩ := heq
    rw [hnone f' ho'] at hj
    cases hj
  constructor
  case pinInv => exact h.pinInv.setStreams streams
  case full => exact h.full
  case same => exact h.same
  case order => exact horder
  case cached =>
    intro f' p' j hj
    obtain ⟨o', ho', hpage⟩ := h.cached f' p' j hj
    refine ⟨o', ho', fun hkind => ⟨?_, (hpage hkind).2⟩⟩
    rw [onDisk, Sys.streams_setStreams, hused f' o' p' ho' hkind (hheld ho' hj)]
    exact (hpage hkind).1
  case known =>
    intro f' o' p' ho' hkind hsome
    rw [onDisk, Sys.streams_setStreams] at hsome
    by_cases heq : o' = o ∧ p' = p
    · obtain ⟨rfl, rfl⟩ := heq
      rw [putPage_self]
      exact hsome
    · rw [putPage_of_ne _ _ (hne ho' heq)]
      rw [hused f' o' p' ho' hkind heq] at hsome
      exact h.known f' o' p' ho' hkind hsome
  case inFrame =>
    intro f' o' p' j d' ho' hj hd hun
    rw [putPage_of_ne _ _ (hne ho' (hheld ho' hj))] at hd
    exact h.inFrame f' o' p' j d' ho' hj hd hun
  case inFile =>
    intro f' o' p' d' ho' hd
    by_cases heq : o' = o ∧ p' = p
    · obtain ⟨rfl, rfl⟩ := heq
      rw [putPage_self] at hd
      exact Or.inl hd
    · rw [putPage_of_ne _ _ (hne ho' heq)] at hd
      rcases h.inFile f' o' p' d' ho' hd with hdisk | hdirty
      · exact Or.inl (hkeep f' o' p' d' ho' heq hdisk)
      · exact Or.inr hdirty

/-- A new page in a file, which no object has in the pool. -/
theorem newPage (h : SharedInv s pins released)
    (hnone : ∀ g, s.objects g = some o → s.entry g p = none) {streams : FileName → FStream D}
    (hst : Stored s.objects s.streams o p d streams) (ho : s.objects f = some o) :
    SharedInv (s.setStreams streams) pins (putPage released o.filename p (some d)) := by
  rw [← hst.own]
  exact h.putAbsent ho hnone hst.order hst.keep hst.used

/-! ## The frames

A frame is known by the object and the number of its page, and for these there is one entry. What is asked of a
change of descriptors is that frames only get dirty, and that fewer pages count as changed by a client.
-/

omit [PageData D] in
theorem dirtyAt_scanned (ht : Scanned s t) : DirtyAt t o p f ↔ DirtyAt s o p f := by
  simp only [DirtyAt, ht.objects, ht.entry]
  have hdirty : ∀ i, (t.desc i).dirty = (s.desc i).dirty := fun i => by rw [ht.desc i]
  simp only [hdirty]

theorem scanned (h : SharedInv s pins released) (ht : Scanned s t) (hinv : PoolInv t) :
    SharedInv t pins released where
  pinInv := h.pinInv.scanned ht hinv
  full := (h.table.scanned ht hinv.hand).full
  same a b oa ob ha hb := by
    rw [ht.objects] at ha hb
    exact h.same a b oa ob ha hb
  order a oa ha := by
    rw [ht.objects] at ha
    rw [ht.streams]
    exact h.order a oa ha
  cached f p j hj := by
    rw [ht.entry] at hj
    simp only [onDisk, ht.objects, ht.frame, ht.streams]
    exact h.cached f p j hj
  known f o p ho hkind hsome := by
    rw [ht.objects] at ho
    rw [onDisk, ht.streams] at hsome
    exact h.known f o p ho hkind hsome
  inFrame f o p j d ho hj hd hun := by
    rw [ht.objects] at ho
    rw [ht.entry] at hj
    rw [ht.frame]
    exact h.inFrame f o p j d ho hj hd hun
  inFile f o p d ho hd := by
    rw [ht.objects] at ho
    simp only [onDisk, ht.streams, dirtyAt_scanned ht]
    exact h.inFile f o p d ho hd

/-- Emptying the frame of an unpinned page whose data the file has. -/
theorem evict (h : SharedInv s pins released) (hv : Victim s i)
    (hdisk : ∀ o d, s.objects (s.desc i).file = some o →
      released o.filename (s.desc i).pageNo = some d → onDisk s o (s.desc i).pageNo = some d) :
    SharedInv ((s.dropEntry (s.desc i).file (s.desc i).pageNo).setDesc i BufDesc.clear) pins
      released where
  pinInv := h.pinInv.evict (h.full i hv.valid) hv.unpinned
  full := (h.table.evict hv.valid).full
  same := h.same
  order := h.order
  cached f p j hj := h.cached f p j (h.pinInv.pool.entry_evict hj).1
  known := h.known
  inFrame f o p j d ho hj hd hun :=
    h.inFrame f o p j d ho (h.pinInv.pool.entry_evict hj).1 hd hun
  inFile f o p d ho hd := by
    rcases h.inFile f o p d ho hd with hd' | ⟨g, hg, ⟨j, hj, hdirty⟩, honly⟩
    · exact Or.inl hd'
    · -- the frame that is emptied was the dirty one, and the file has its data
      by_cases hji : j = i
      · subst hji
        obtain ⟨-, rfl, rfl⟩ := h.pinInv.pool.entry g p j hj
        exact Or.inl (hdisk o d hg hd)
      · refine Or.inr ⟨g, hg, ⟨j, ?_, ?_⟩, fun g' hg' hne => ?_⟩
        · rw [Sys.entry_setDesc, Sys.entry_dropEntry, if_neg]
          · exact hj
          · intro heq
            rw [heq.1, heq.2, h.full i hv.valid] at hj
            exact hji (Option.some.inj hj).symm
        · rw [Sys.desc_setDesc, if_neg hji]
          exact hdirty
        · rw [Sys.entry_setDesc, Sys.entry_dropEntry, honly g' hg' hne]
          split <;> rfl

/-- Emptying the frame of an unpinned page that is not dirty. -/
theorem evict_clean (h : SharedInv s pins released) (hv : Victim s i)
    (hclean : (s.desc i).dirty = false) :
    SharedInv ((s.dropEntry (s.desc i).file (s.desc i).pageNo).setDesc i BufDesc.clear) pins
      released := by
  apply h.evict hv
  intro o d ho hd
  exact h.onDisk_of_clean ho (h.full i hv.valid) hclean hd

/-- Emptying the frame of an unpinned page that has been written to its file. -/
theorem evict_written (h : SharedInv s pins released) (hv : Victim s i)
    (ho : s.objects (s.desc i).file = some o) {streams : FileName → FStream D}
    (hst : Stored s.objects s.streams o (s.desc i).pageNo (o.kind.normal (s.frame i)) streams) :
    SharedInv (((s.setStreams streams).dropEntry (s.desc i).file (s.desc i).pageNo).setDesc i
      BufDesc.clear) pins released := by
  have hun := h.unchanged_of_victim hv
  apply (h.writeFrame (h.full i hv.valid) ho hun hst).evict ⟨hv.valid, hv.unpinned⟩
  intro o' d ho' hd
  obtain rfl := Option.some.inj (ho'.symm.trans ho)
  rw [← h.inFrame _ o' _ i d ho (h.full i hv.valid) hd hun]
  exact hst.own

/-- Putting a page of a file, which no object has in a dirty frame, into a frame that is not in use, and
entering it. -/
theorem load (h : SharedInv s pins released) (hv : (s.desc i).valid = false) (hi : i < s.numBufs)
    (hnone : s.entry f p = none) (ho : s.objects f = some o)
    (hclean : ∀ g j, s.objects g = some o → s.entry g p = some j → (s.desc j).dirty = false)
    (hpage : o.kind = .page → (onDisk s o p).isSome = true ∧ pg.pageNumber = p)
    (hdata : ∀ d, released o.filename p = some d → o.kind.normal pg = d) :
    SharedInv (((s.setFrame i pg).setDesc i (BufDesc.set f p)).putEntry f p i)
      (⟨f, p, i, false⟩ :: pins) released := by
  have hentry : ∀ f' p', (((s.setFrame i pg).setDesc i (BufDesc.set f p)).putEntry f p i).entry f' p' =
      if f' = f ∧ p' = p then some i else s.entry f' p' :=
    fun f' p' => Sys.entry_putEntry _ f' p' hnone
  have hother : ∀ {f' p' j}, s.entry f' p' = some j → j ≠ i := by
    intro f' p' j hj hji
    rw [hji] at hj
    rw [(h.pinInv.pool.entry f' p' i hj).1] at hv
    cases hv
  have hframe : ∀ j, (((s.setFrame i pg).setDesc i (BufDesc.set f p)).putEntry f p i).frame j =
      if j = i then pg else s.frame j := fun j => Sys.frame_setFrame s i j pg
  constructor
  case pinInv => exact h.pinInv.load hv hi hnone pg
  case full => exact (h.table.load hv hi hnone pg).full
  case same => exact h.same
  case order => exact h.order
  case cached =>
    intro f' p' j hj
    rw [hentry] at hj
    -- the new page, and the pages that were in the pool
    by_cases heq : f' = f ∧ p' = p
    · rw [if_pos heq] at hj
      cases hj
      obtain ⟨rfl, rfl⟩ := heq
      refine ⟨o, ho, fun hkind => ⟨(hpage hkind).1, ?_⟩⟩
      rw [hframe, if_pos rfl]
      exact (hpage hkind).2
    · rw [if_neg heq] at hj
      rw [hframe, if_neg (hother hj)]
      exact h.cached f' p' j hj
  case known => exact h.known
  case inFrame =>
    intro f' o' p' j d ho' hj hd hun
    rw [hentry] at hj
    by_cases heq : f' = f ∧ p' = p
    · -- the page that is put there has the data that was released last
      rw [if_pos heq] at hj
      cases hj
      obtain ⟨rfl, rfl⟩ := heq
      obtain rfl := Option.some.inj (ho'.symm.trans ho)
      rw [hframe, if_pos rfl]
      exact hdata d hd
    · rw [if_neg heq] at hj
      rw [hframe, if_neg (hother hj)]
      exact h.inFrame f' o' p' j d ho' hj hd fun pin hpin => hun pin (List.mem_cons_of_mem _ hpin)
  case inFile =>
    intro f' o' p' d ho' hd
    by_cases heq : o' = o ∧ p' = p
    · -- no frame has the page dirty, so it is in the file
      obtain ⟨rfl, rfl⟩ := heq
      exact Or.inl (h.onDisk_of_absent ho' hclean hd)
    · -- any other page is where it was
      rcases h.inFile f' o' p' d ho' hd with hdisk | ⟨g, hg, ⟨j, hj, hdirty⟩, honly⟩
      · exact Or.inl hdisk
      · have hkey : ∀ g', s.objects g' = some o' → ¬ (g' = f ∧ p' = p) := by
          intro g' hg' hfp
          obtain ⟨rfl, rfl⟩ := hfp
          exact heq ⟨Option.some.inj (hg'.symm.trans ho), rfl⟩
        refine Or.inr ⟨g, hg, ⟨j, ?_, ?_⟩, fun g' hg' hne => ?_⟩
        · rw [hentry, if_neg (hkey g hg)]
          exact hj
        · rw [Sys.desc_putEntry, Sys.desc_setDesc, if_neg (hother hj)]
          exact hdirty
        · rw [hentry, if_neg (hkey g' hg')]
          exact honly g' hg' hne

omit [PageData D] in
/-- What a dirty frame is of, if descriptors only get dirty. -/
theorem dirtyAt_mark {g : BufDesc → BufDesc}
    (hdirty : (s.desc i).dirty = true → (g (s.desc i)).dirty = true) (h : DirtyAt s o p f) :
    DirtyAt (s.setDesc i g) o p f := by
  obtain ⟨ho, ⟨j, hj, hd⟩, honly⟩ := h
  refine ⟨ho, ⟨j, hj, ?_⟩, honly⟩
  rw [Sys.desc_setDesc]
  split
  · next hji =>
      rw [hji] at hd
      exact hdirty hd
  · exact hd

/-- Pinning, unpinning and marking dirty the frame of a page. -/
theorem mark (h : SharedInv s pins released) (hi : s.entry f p = some i) {g : BufDesc → BufDesc}
    (hg : ∀ d, (g d).valid = d.valid ∧ (g d).file = d.file ∧ (g d).pageNo = d.pageNo ∧
      (g d).frameNo = d.frameNo) (hpins : PinInv (s.setDesc i g) pins')
    (hdirty : (s.desc i).dirty = true → (g (s.desc i)).dirty = true)
    (hun : ∀ f' p', Unchanged pins' f' p' → Unchanged pins f' p') :
    SharedInv (s.setDesc i g) pins' released where
  pinInv := hpins
  full := (h.table.mark (h.pinInv.pool.entry f p i hi).1 hg).full
  same := h.same
  order := h.order
  cached := h.cached
  known := h.known
  inFrame f' o' p' j d ho hj hd hun' := h.inFrame f' o' p' j d ho hj hd (hun f' p' hun')
  inFile f' o' p' d ho' hd := by
    rcases h.inFile f' o' p' d ho' hd with hdisk | ⟨a, ha⟩
    · exact Or.inl hdisk
    · exact Or.inr ⟨a, dirtyAt_mark hdirty ha⟩

/-- A page is released dirty, while no other object has it in the pool. -/
theorem release (h : SharedInv s pins released) (hi : s.entry f p = some i) {g : BufDesc → BufDesc}
    (hg : ∀ d, (g d).valid = d.valid ∧ (g d).file = d.file ∧ (g d).pageNo = d.pageNo ∧
      (g d).frameNo = d.frameNo) (hpins : PinInv (s.setDesc i g) pins')
    (hdirty : (g (s.desc i)).dirty = true) (ho : s.objects f = some o)
    (honly : ∀ a, s.objects a = some o → a ≠ f → s.entry a p = none)
    (hun : ∀ f' p', ¬ (f' = f ∧ p' = p) → Unchanged pins' f' p' → Unchanged pins f' p') :
    SharedInv (s.setDesc i g) pins'
      (putPage released o.filename p (some (o.kind.normal (s.frame i)))) where
  pinInv := hpins
  full := (h.table.mark (h.pinInv.pool.entry f p i hi).1 hg).full
  same := h.same
  order := h.order
  cached := h.cached
  known f' o' p' ho' hkind hsome := by
    by_cases heq : o'.filename = o.filename ∧ p' = p
    · rw [heq.1, heq.2, putPage_self]
      rfl
    · rw [putPage_of_ne _ _ heq]
      exact h.known f' o' p' ho' hkind hsome
  inFrame f' o' p' j d ho' hj hd hun' := by
    -- the page that is released; only one object has it
    by_cases heq : o'.filename = o.filename ∧ p' = p
    · obtain ⟨hname, rfl⟩ := heq
      obtain rfl := h.eq_of_name ho' ho hname
      have hff : f' = f := by
        by_contra hne
        have hj : s.entry f' p' = some j := hj
        rw [honly f' ho' hne] at hj
        cases hj
      subst hff
      obtain rfl := Option.some.inj (hi.symm.trans hj)
      rw [putPage_self] at hd
      exact Option.some.inj hd
    · rw [putPage_of_ne _ _ heq] at hd
      apply h.inFrame f' o' p' j d ho' hj hd (hun f' p' _ hun')
      intro hfp
      obtain ⟨rfl, rfl⟩ := hfp
      exact heq ⟨congrArg FileObject.filename (Option.some.inj (ho'.symm.trans ho)), rfl⟩
  inFile f' o' p' d ho' hd := by
    by_cases heq : o'.filename = o.filename ∧ p' = p
    · obtain ⟨hname, rfl⟩ := heq
      obtain rfl := h.eq_of_name ho' ho hname
      refine Or.inr ⟨f, ho, ⟨i, hi, ?_⟩, honly⟩
      rw [Sys.desc_setDesc, if_pos rfl]
      exact hdirty
    · rw [putPage_of_ne _ _ heq] at hd
      rcases h.inFile f' o' p' d ho' hd with hdisk | ⟨a, ha⟩
      · exact Or.inl hdisk
      · exact Or.inr ⟨a, dirtyAt_mark (fun _ => hdirty) ha⟩

/-- A client gives back a pin, with the page changed only if it says so. -/
theorem unPin (h : SharedInv s pins released) {pin : Pin} {dirty : Bool} (hpin : pin ∈ pins)
    (hchanged : pin.changed = true → dirty = true) (ho : s.objects pin.file = some o)
    (honly : dirty = true → ∀ a, s.objects a = some o → a ≠ pin.file → s.entry a pin.pageNo = none) :
    SharedInv (s.setDesc pin.frame fun d => { d with dirty := dirty || d.dirty, pinCnt := d.pinCnt - 1 })
      (pins.erase pin) (if dirty = true then
        putPage released o.filename pin.pageNo (some (o.kind.normal (s.frame pin.frame))) else released) := by
  have hentry := h.pinInv.held pin hpin
  have hpins : PinInv (s.setDesc pin.frame fun d =>
      { d with dirty := dirty || d.dirty, pinCnt := d.pinCnt - 1 }) (pins.erase pin) :=
    h.pinInv.unpinOne hpin
  -- released clean, the note stays as it was
  cases hdirty : dirty with
  | false =>
      rw [if_neg Bool.false_ne_true]
      rw [hdirty] at hpins
      refine h.mark hentry (fun _ => ?_) hpins ?_ ?_
      · exact ⟨rfl, rfl, rfl, rfl⟩
      · exact id
      · -- the page was not changed under this pin
        intro f p hun q hq hf hp
        by_cases hqpin : q = pin
        · cases hq' : pin.changed with
          | false => rw [hqpin, hq']
          | true =>
              rw [hchanged hq'] at hdirty
              cases hdirty
        · exact hun q ((List.mem_erase_of_ne hqpin).mpr hq) hf hp
  -- released dirty, the note is what the frame has
  | true =>
      rw [if_pos rfl]
      rw [hdirty] at hpins
      refine h.release hentry (fun _ => ?_) hpins rfl ho (honly hdirty) ?_
      · exact ⟨rfl, rfl, rfl, rfl⟩
      · intro f p hne hun q hq hf hp
        have hqpin : q ≠ pin := by
          intro hq'
          rw [hq'] at hf hp
          exact hne ⟨hf.symm, hp.symm⟩
        exact hun q ((List.mem_erase_of_ne hqpin).mpr hq) hf hp

/-- A client writes to a page it has pinned. -/
theorem write (h : SharedInv s pins released) {pin : Pin} (hpin : pin ∈ pins)
    (ho : s.objects pin.file = some o) (hnum : o.kind = .page → pg.pageNumber = pin.pageNo) :
    SharedInv (s.setFrame pin.frame pg) ({ pin with changed := true } :: pins.erase pin) released := by
  have hentry := h.pinInv.held pin hpin
  have hframe : ∀ j, (s.setFrame pin.frame pg).frame j = if j = pin.frame then pg else s.frame j :=
    fun j => Sys.frame_setFrame s pin.frame j pg
  have hkey : ∀ {f p}, s.entry f p = some pin.frame → f = pin.file ∧ p = pin.pageNo := by
    intro f p hi
    obtain ⟨-, hf, hp⟩ := h.pinInv.pool.entry _ _ _ hentry
    obtain ⟨-, hf', hp'⟩ := h.pinInv.pool.entry f p _ hi
    exact ⟨hf'.symm.trans hf, hp'.symm.trans hp⟩
  constructor
  case pinInv => exact (h.pinInv.setFrame pin.frame pg).repin hpin
  case full => exact h.full
  case same => exact h.same
  case order => exact h.order
  case cached =>
    intro f p j hj
    obtain ⟨o', ho', hpage⟩ := h.cached f p j hj
    refine ⟨o', ho', fun hkind => ⟨(hpage hkind).1, ?_⟩⟩
    rw [hframe]
    split
    · next hji =>
        subst hji
        obtain ⟨rfl, rfl⟩ := hkey hj
        obtain rfl := Option.some.inj (ho'.symm.trans ho)
        exact hnum hkind
    · exact (hpage hkind).2
  case known => exact h.known
  case inFrame =>
    intro f o' p j d ho' hj hd hun
    rw [hframe]
    -- the page that is written to is not asked for, and no other page is in its frame
    by_cases heq : f = pin.file ∧ p = pin.pageNo
    · -- the page is being changed by the holder of this pin
      have hchanged := hun _ List.mem_cons_self heq.1.symm heq.2.symm
      cases hchanged
    · have hji : j ≠ pin.frame := by
        intro hji
        rw [hji] at hj
        exact heq (hkey hj)
      rw [if_neg hji]
      apply h.inFrame f o' p j d ho' hj hd
      intro q hq hf hp
      by_cases hqpin : q = pin
      · subst hqpin
        exact absurd ⟨hf.symm, hp.symm⟩ heq
      · exact hun q (List.mem_cons_of_mem _ ((List.mem_erase_of_ne hqpin).mpr hq)) hf hp
  case inFile => exact h.inFile

/-! ## Deleting a page

A page that is deleted may still be in the pool under the object that deletes it. It goes from there, and then what
the file has of it, which may be nothing, is what was released.
-/

/-- The streams `τ` have the data of `σ`, but for page `p` of the file of `o`, which is gone. -/
structure Deleted (objects : Nat → Option FileObject) (σ : FileName → FStream D) (o : FileObject)
    (p : Nat) (τ : FileName → FStream D) : Prop where
  order : ∀ a oa, objects a = some oa → oa.kind.InOrder (τ oa.filename)
  gone : o.kind.held (τ o.filename) p = none
  keep : ∀ a oa q, objects a = some oa → ¬ (oa = o ∧ q = p) →
    oa.kind.held (τ oa.filename) q = oa.kind.held (σ oa.filename) q

/-- What is done to one file leaves the other files alone. -/
theorem update_of_ne (h : SharedInv s pins released) (ho : s.objects f = some o) (st : FStream D) {a : Nat}
    {oa : FileObject} (ha : s.objects a = some oa) (hne : oa ≠ o) :
    Function.update s.streams o.filename st oa.filename = s.streams oa.filename := by
  apply Function.update_of_ne
  intro hname
  exact hne (h.eq_of_name ha ho hname)

theorem update_order (h : SharedInv s pins released) (ho : s.objects f = some o) {st : FStream D}
    (horder : o.kind.InOrder st) : ∀ a oa, s.objects a = some oa →
      oa.kind.InOrder (Function.update s.streams o.filename st oa.filename) := by
  intro a oa ha
  by_cases hoa : oa = o
  · rw [hoa, Function.update_self]
    exact horder
  · rw [h.update_of_ne ho st ha hoa]
    exact h.order a oa ha

theorem update_keep (h : SharedInv s pins released) (ho : s.objects f = some o) {st : FStream D}
    (hkeep : ∀ q, q ≠ p → o.kind.held st q = o.kind.held (s.streams o.filename) q) :
    ∀ a oa q, s.objects a = some oa → ¬ (oa = o ∧ q = p) →
      oa.kind.held (Function.update s.streams o.filename st oa.filename) q =
        oa.kind.held (s.streams oa.filename) q := by
  intro a oa q ha hne
  -- the file itself, and the other files
  by_cases hoa : oa = o
  · subst hoa
    rw [Function.update_self]
    exact hkeep q fun hq => hne ⟨rfl, hq⟩
  · rw [h.update_of_ne ho st ha hoa]

theorem deleted_update (h : SharedInv s pins released) (ho : s.objects f = some o) {st : FStream D}
    (horder : o.kind.InOrder st) (hgone : o.kind.held st p = none)
    (hkeep : ∀ q, q ≠ p → o.kind.held st q = o.kind.held (s.streams o.filename) q) :
    Deleted s.objects s.streams o p (Function.update s.streams o.filename st) where
  order := h.update_order ho horder
  gone := by
    rw [Function.update_self]
    exact hgone
  keep := h.update_keep ho hkeep

/-- A page that no other object has in the pool is gone from its frame; what its file has of it then counts
as released. -/
theorem discard (h : SharedInv s pins released) (hvalid : (s.desc i).valid = true)
    (ho : s.objects (s.desc i).file = some o)
    (honly : ∀ a, s.objects a = some o → a ≠ (s.desc i).file → s.entry a (s.desc i).pageNo = none)
    (hpins : PinInv ((s.dropEntry (s.desc i).file (s.desc i).pageNo).setDesc i BufDesc.clear) pins')
    (hun : ∀ f' p', ¬ (f' = (s.desc i).file ∧ p' = (s.desc i).pageNo) → Unchanged pins' f' p' →
      Unchanged pins f' p') {streams : FileName → FStream D}
    (horder : ∀ a oa, s.objects a = some oa → oa.kind.InOrder (streams oa.filename))
    (hkeep : ∀ a oa q, s.objects a = some oa → ¬ (oa = o ∧ q = (s.desc i).pageNo) →
      oa.kind.held (streams oa.filename) q = oa.kind.held (s.streams oa.filename) q) :
    SharedInv (((s.dropEntry (s.desc i).file (s.desc i).pageNo).setDesc i BufDesc.clear).setStreams
      streams) pins' (putPage released o.filename (s.desc i).pageNo
        (o.kind.held (streams o.filename) (s.desc i).pageNo)) := by
  set p := (s.desc i).pageNo with hp
  have hfull := h.full i hvalid
  -- the pages that are left
  have hleft : ∀ {f' o' p' j}, s.objects f' = some o' →
      ((s.dropEntry (s.desc i).file p).setDesc i BufDesc.clear).entry f' p' = some j →
      s.entry f' p' = some j ∧ j ≠ i ∧ ¬ (o' = o ∧ p' = p) := by
    intro f' o' p' j ho' hj
    obtain ⟨hj', hji⟩ := h.pinInv.pool.entry_evict hj
    refine ⟨hj', hji, fun heq => ?_⟩
    obtain ⟨rfl, rfl⟩ := heq
    -- under this object the page was in the frame that has been emptied, and no other object had it
    by_cases hff : f' = (s.desc i).file
    · rw [hff, hfull] at hj'
      exact hji (Option.some.inj hj').symm
    · rw [honly f' ho' hff] at hj'
      cases hj'
  have hname : ∀ {f' o' p'}, s.objects f' = some o' → ¬ (o' = o ∧ p' = p) →
      ¬ (o'.filename = o.filename ∧ p' = p) := by
    intro f' o' p' ho' hne heq
    exact hne ⟨h.eq_of_name ho' ho heq.1, heq.2⟩
  constructor
  case pinInv => exact hpins.setStreams streams
  case full => exact (h.table.evict hvalid).full
  case same => exact h.same
  case order => exact horder
  case cached =>
    intro f' p' j hj
    obtain ⟨o', ho', hpage⟩ := h.cached f' p' j (h.pinInv.pool.entry_evict hj).1
    obtain ⟨-, -, hne⟩ := hleft ho' hj
    refine ⟨o', ho', fun hkind => ?_⟩
    rw [onDisk, Sys.streams_setStreams, hkeep f' o' p' ho' hne]
    exact hpage hkind
  case known =>
    intro f' o' p' ho' hkind hsome
    rw [onDisk, Sys.streams_setStreams] at hsome
    by_cases heq : o' = o ∧ p' = p
    · obtain ⟨rfl, rfl⟩ := heq
      rw [putPage_self]
      exact hsome
    · rw [hkeep f' o' p' ho' heq] at hsome
      rw [putPage_of_ne _ _ (hname ho' heq)]
      exact h.known f' o' p' ho' hkind hsome
  case inFrame =>
    intro f' o' p' j d ho' hj hd hunchanged
    obtain ⟨hj', -, hne⟩ := hleft ho' hj
    rw [putPage_of_ne _ _ (hname ho' hne)] at hd
    apply h.inFrame f' o' p' j d ho' hj' hd (hun f' p' _ hunchanged)
    intro heq
    rw [heq.1] at ho'
    exact hne ⟨Option.some.inj (ho'.symm.trans ho), heq.2⟩
  case inFile =>
    intro f' o' p' d ho' hd
    -- what the file has of the page is the note
    by_cases heq : o' = o ∧ p' = p
    · obtain ⟨rfl, rfl⟩ := heq
      rw [putPage_self] at hd
      exact Or.inl hd
    · rw [putPage_of_ne _ _ (hname ho' heq)] at hd
      rcases h.inFile f' o' p' d ho' hd with hdisk | ⟨g, hg, ⟨j, hj, hdirty⟩, honly'⟩
      · apply Or.inl
        rw [onDisk, Sys.streams_setStreams, hkeep f' o' p' ho' heq]
        exact hdisk
      · have hkey : ∀ g', s.objects g' = some o' → ¬ (g' = (s.desc i).file ∧ p' = p) := by
          intro g' hg' hfp
          rw [hfp.1] at hg'
          exact heq ⟨Option.some.inj (hg'.symm.trans ho), hfp.2⟩
        refine Or.inr ⟨g, hg, ⟨j, ?_, ?_⟩, fun g' hg' hne => ?_⟩
        · rw [Sys.entry_setStreams, Sys.entry_setDesc, Sys.entry_dropEntry, if_neg (hkey g hg)]
          exact hj
        · have hji : j ≠ i := by
            intro hji
            obtain ⟨-, hf, hp'⟩ := h.pinInv.pool.entry g p' j hj
            rw [hji] at hf hp'
            exact hkey g hg ⟨hf.symm, hp'.symm⟩
          rw [Sys.desc_setStreams, Sys.desc_setDesc, if_neg hji]
          exact hdirty
        · rw [Sys.entry_setStreams, Sys.entry_setDesc, Sys.entry_dropEntry, if_neg (hkey g' hg')]
          exact honly' g' hg' hne

/-- A page that no other object has in the pool is gone from its frame and from its file. -/
theorem forget (h : SharedInv s pins released) (hv : Victim s i) (ho : s.objects (s.desc i).file = some o)
    (honly : ∀ a, s.objects a = some o → a ≠ (s.desc i).file → s.entry a (s.desc i).pageNo = none)
    {streams : FileName → FStream D} (hst : Deleted s.objects s.streams o (s.desc i).pageNo streams) :
    SharedInv (((s.dropEntry (s.desc i).file (s.desc i).pageNo).setDesc i BufDesc.clear).setStreams
      streams) pins (putPage released o.filename (s.desc i).pageNo none) := by
  rw [← hst.gone]
  apply h.discard hv.valid ho honly (h.pinInv.evict (h.full i hv.valid) hv.unpinned) _ hst.order hst.keep
  exact fun _ _ _ hun => hun

end SharedInv

/-- A new pool over files in good order, each of one kind. -/
theorem sharedInv_start [PageData D] {kinds : FileName → FileKind} {objects : Nat → Option FileObject}
    {streams : FileName → FStream D} {bufs : Nat} (hbufs : 1 ≤ bufs)
    (hkinds : ∀ a o, objects a = some o → o.kind = kinds o.filename)
    (horder : ∀ a o, objects a = some o → o.kind.InOrder (streams o.filename)) :
    SharedInv ⟨objects, streams, .new bufs⟩ [] fun fn p => (kinds fn).held (streams fn) p := by
  have hheld : ∀ a o p, objects a = some o →
      (kinds o.filename).held (streams o.filename) p = o.kind.held (streams o.filename) p := by
    intro a o p ho
    rw [hkinds a o ho]
  constructor
  case pinInv => exact pinInv_new objects streams hbufs
  case full =>
    intro _ hv
    cases hv
  case same =>
    intro a b oa ob ha hb hname
    obtain ⟨kind, fn⟩ := oa
    obtain ⟨kind', fn'⟩ := ob
    obtain rfl : fn = fn' := hname
    obtain rfl : kind = kinds fn := hkinds a _ ha
    obtain rfl : kind' = kinds fn := hkinds b _ hb
    rfl
  case order => exact horder
  case cached =>
    intro _ _ _ hi
    cases hi
  case known =>
    intro f o p ho _ hsome
    show ((kinds o.filename).held (streams o.filename) p).isSome = true
    rw [hheld f o p ho]
    exact hsome
  case inFrame =>
    intro _ _ _ _ _ _ hi
    cases hi
  case inFile =>
    intro f o p d ho hd
    apply Or.inl
    rw [← hd]
    exact (hheld f o p ho).symm

end CS640.Badger.BufMgr
