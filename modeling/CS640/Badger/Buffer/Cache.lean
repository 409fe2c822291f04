import CS640.Badger.Buffer.Invariant
import CS640.Badger.File.Object

/-!
# A pool as a cache of its files

`CacheInv s pins latest` is the invariant under which a pool and its files together stand for one
plain store: `latest` is the data that clients have last seen in a page or put there, and it is in
the frame of the page if it has one, and in the file otherwise. A frame that is neither dirty nor
being changed by the holder of a pin has the data of the file.

It is shared by the two versions; each has its own proof that its calls keep the invariant, put
together from the changes in this file. All `File` objects are on different files.

The changes come in three groups: what happens to the files while no frame changes (`writeFrame`, `newPage`,
`forget`), what happens to frames while no file changes (`scanned`, `evict`, `load`, `mark`), and what clients do
(`noteFrame`, `write`). Each keeps every field of the invariant, most of them because nothing they speak of has
changed.
-/

namespace CS640.Badger.BufMgr

open CS640.Lib Prog

variable {D : Type}

/-- No holder of a pin on the page has changed it. -/
def Unchanged (pins : List Pin) (f p : Nat) : Prop :=
  ∀ pin ∈ pins, pin.file = f → pin.pageNo = p → pin.changed = false

/-- The note `m` on pages with the data of one page replaced. -/
def noteData (m : Nat → Nat → Option (Page D)) (f p : Nat) (d : Page D) :
    Nat → Nat → Option (Page D) :=
  fun f' p' => if f' = f ∧ p' = p then some d else m f' p'

/-- The data that the file of `o` has under `p`. -/
def onDisk (s : Sys D) (o : FileObject) (p : Nat) : Option (Page D) :=
  o.kind.held (s.streams o.filename) p

/-! ## Data that is stored

What a write to one file leaves of all of them. `Stored` speaks of every object on a file, so that the invariant can
be carried over without a look at the streams themselves.
-/

/-- The streams `τ` have the data of `σ`, and `d` under page `p` of the file of `o`. -/
structure Stored [PageData D] (objects : Nat → Option FileObject) (σ : FileName → FStream D)
    (o : FileObject) (p : Nat) (d : Page D) (τ : FileName → FStream D) : Prop where
  order : ∀ a oa, objects a = some oa → oa.kind.InOrder (τ oa.filename)
  sticky : ∀ fn, (τ fn).sticky = (σ fn).sticky
  own : o.kind.held (τ o.filename) p = some d
  keep : ∀ a oa q d', objects a = some oa → ¬ (oa = o ∧ q = p) →
    oa.kind.held (σ oa.filename) q = some d' → oa.kind.held (τ oa.filename) q = some d'
  used : ∀ a oa q, objects a = some oa → oa.kind = .page → ¬ (oa = o ∧ q = p) →
    oa.kind.held (τ oa.filename) q = oa.kind.held (σ oa.filename) q

/-- What is stored in one file leaves the other files alone. -/
theorem stored_update [PageData D] {objects : Nat → Option FileObject} {σ : FileName → FStream D}
    {f p : Nat} {o : FileObject} {d : Page D} {st : FStream D}
    (hsame : ∀ a b oa ob, objects a = some oa → objects b = some ob → oa.filename = ob.filename → oa = ob)
    (horder : ∀ a oa, objects a = some oa → oa.kind.InOrder (σ oa.filename)) (ho : objects f = some o)
    (hst : FileObject.Puts o.kind (σ o.filename) p d st) :
    Stored objects σ o p d (Function.update σ o.filename st) := by
  -- A stream of another file has not been updated.
  have hother : ∀ a oa, objects a = some oa → oa ≠ o →
      Function.update σ o.filename st oa.filename = σ oa.filename := by
    intro a oa ha hne
    apply Function.update_of_ne
    intro hname
    exact hne (hsame a f oa o ha ho hname)
  have hself : Function.update σ o.filename st o.filename = st := Function.update_self ..
  constructor
  · intro a oa ha
    by_cases hoa : oa = o
    · rw [hoa, hself]
      exact hst.order
    · rw [hother a oa ha hoa]
      exact horder a oa ha
  · intro fn
    by_cases hname : fn = o.filename
    · rw [hname, hself]
      exact hst.sticky
    · rw [Function.update_of_ne hname]
  · rw [hself]
    exact hst.own
  · intro a oa q d' ha hne hd'
    by_cases hoa : oa = o
    · subst hoa
      rw [hself]
      exact hst.keep q (fun hq => hne ⟨rfl, hq⟩) d' hd'
    · rw [hother a oa ha hoa]
      exact hd'
  · intro a oa q ha hkind hne
    by_cases hoa : oa = o
    · subst hoa
      rw [hself]
      exact hst.used hkind q fun hq => hne ⟨rfl, hq⟩
    · rw [hother a oa ha hoa]

/-- What could be read can be read. -/
theorem Stored.mayRead [PageData D] {objects : Nat → Option FileObject} {σ τ : FileName → FStream D}
    {o : FileObject} {p : Nat} {d : Page D} (h : Stored objects σ o p d τ) {a q : Nat} {oa : FileObject}
    (ha : objects a = some oa) (hread : oa.kind.MayRead (σ oa.filename) q) :
    oa.kind.MayRead (τ oa.filename) q := by
  intro hsticky
  rw [h.sticky] at hsticky
  rcases hread hsticky with hsome | hpage
  · -- A page that could be read because the file has it: it has it still, this one or another.
    apply Or.inl
    by_cases heq : oa = o ∧ q = p
    · obtain ⟨rfl, rfl⟩ := heq
      rw [h.own]
      rfl
    · obtain ⟨d', hd'⟩ := Option.isSome_iff_exists.mp hsome
      rw [h.keep a oa q d' ha heq hd']
      rfl
  · exact Or.inr hpage

/-! ## The invariant

`inFrame` and `inFile` are the point: the data of a page is in one place or in the other. The other fields keep them
true, `cached` so that an eviction can write the page back, and `known` so that no page of a file goes unnoticed.
-/

structure CacheInv [PageData D] (s : Sys D) (pins : List Pin)
    (latest : Nat → Nat → Option (Page D)) : Prop where
  pinInv : PinInv s pins
  full : ∀ i, (s.desc i).valid = true → s.entry (s.desc i).file (s.desc i).pageNo = some i
  one : ∀ a b oa ob, s.objects a = some oa → s.objects b = some ob → oa.filename = ob.filename →
    a = b
  order : ∀ a o, s.objects a = some o → o.kind.InOrder (s.streams o.filename)
  cached : ∀ f p i, s.entry f p = some i → ∃ o, s.objects f = some o ∧
    (o.kind = .page → (onDisk s o p).isSome = true ∧ (s.frame i).pageNumber = p)
  known : ∀ f o p, s.objects f = some o → o.kind = .page → (onDisk s o p).isSome = true →
    (latest f p).isSome = true
  inFrame : ∀ f o p i d, s.objects f = some o → s.entry f p = some i → latest f p = some d →
    o.kind.normal (s.frame i) = d ∧
      ((s.desc i).dirty = false → Unchanged pins f p → onDisk s o p = some d)
  inFile : ∀ f o p d, s.objects f = some o → s.entry f p = none → latest f p = some d →
    onDisk s o p = some d

/-- The streams `streams` have the data of `s`, but for page `p` of file `f`, which is gone. -/
structure DeletedAt [PageData D] (s : Sys D) (f p : Nat) (streams : FileName → FStream D) : Prop where
  order : ∀ a o, s.objects a = some o → o.kind.InOrder (streams o.filename)
  gone : ∀ o, s.objects f = some o → o.kind.held (streams o.filename) p = none
  keep : ∀ a o q, s.objects a = some o → ¬ (a = f ∧ q = p) →
    o.kind.held (streams o.filename) q = onDisk s o q

namespace CacheInv

variable [PageData D] {s t : Sys D} {pins pins' : List Pin} {latest : Nat → Nat → Option (Page D)}
  {f p i : Nat} {o : FileObject} {d pg : Page D}

theorem table (h : CacheInv s pins latest) : TableInv s := ⟨h.pinInv.pool, h.full⟩

theorem alike (h : CacheInv s pins latest) {a b : Nat} {oa ob : FileObject} (ha : s.objects a = some oa)
    (hb : s.objects b = some ob) (hname : oa.filename = ob.filename) : oa = ob := by
  obtain rfl := h.one a b oa ob ha hb hname
  exact Option.some.inj (ha.symm.trans hb)

/-! ## The files

Of the page concerned the file has something else than before; of the others, what it had (`apart`).
-/

/-- The file of another object is another file. -/
theorem apart (h : CacheInv s pins latest) {a q : Nat} {oa : FileObject} (ha : s.objects a = some oa)
    (ho : s.objects f = some o) (hne : ¬ (a = f ∧ q = p)) : ¬ (oa = o ∧ q = p) := by
  intro heq
  exact hne ⟨h.one a f oa o ha ho (congrArg FileObject.filename heq.1), heq.2⟩

theorem stored (h : CacheInv s pins latest) (ho : s.objects f = some o) {st : FStream D}
    (hst : FileObject.Puts o.kind (s.streams o.filename) p d st) :
    Stored s.objects s.streams o p d (Function.update s.streams o.filename st) :=
  stored_update (fun _ _ _ _ => h.alike) h.order ho hst

/-- The file of a cached page takes the page back. -/
theorem writePage_stored (h : CacheInv s pins latest) (hi : s.entry f p = some i) :
    ∃ o st, s.objects f = some o ∧
      o.writePage p (s.frame i) (s.streams o.filename) = (.ok (), st) ∧
      Stored s.objects s.streams o p (o.kind.normal (s.frame i))
        (Function.update s.streams o.filename st) := by
  obtain ⟨o, ho, hpage⟩ := h.cached f p i hi
  obtain ⟨st, hr, hst⟩ := FileObject.writePage_puts (h.order f o ho) hpage
  exact ⟨o, st, ho, hr, h.stored ho hst⟩

/-- Writing the page of a frame to its file. -/
theorem writeFrame (h : CacheInv s pins latest) (hi : s.entry f p = some i)
    (ho : s.objects f = some o) {streams : FileName → FStream D}
    (hst : Stored s.objects s.streams o p (o.kind.normal (s.frame i)) streams) :
    CacheInv (s.setStreams streams) pins latest where
  pinInv := h.pinInv.setStreams streams
  full := h.full
  one := h.one
  order := hst.order
  cached f' p' j hj := by
    obtain ⟨o', ho', hpage⟩ := h.cached f' p' j hj
    refine ⟨o', ho', fun hkind => ⟨?_, (hpage hkind).2⟩⟩
    -- The page itself is what has just been written; of the others the file has what it had.
    by_cases heq : f' = f ∧ p' = p
    · obtain ⟨rfl, rfl⟩ := heq
      obtain rfl := Option.some.inj (ho'.symm.trans ho)
      rw [onDisk, Sys.streams_setStreams, hst.own]
      rfl
    · rw [onDisk, Sys.streams_setStreams, hst.used f' o' p' ho' hkind (h.apart ho' ho heq)]
      exact (hpage hkind).1
  known f' o' p' ho' hkind hsome := by
    by_cases heq : f' = f ∧ p' = p
    · -- The page is in the pool, so it was known before.
      obtain ⟨rfl, rfl⟩ := heq
      obtain ⟨o'', ho'', hpage⟩ := h.cached f' p' i hi
      obtain rfl := Option.some.inj (ho''.symm.trans ho')
      exact h.known f' o'' p' ho' hkind (hpage hkind).1
    · rw [onDisk, Sys.streams_setStreams, hst.used f' o' p' ho' hkind (h.apart ho' ho heq)] at hsome
      exact h.known f' o' p' ho' hkind hsome
  inFrame f' o' p' j d ho' hj hd := by
    obtain ⟨hdata, hclean⟩ := h.inFrame f' o' p' j d ho' hj hd
    refine ⟨hdata, fun hdirty hun => ?_⟩
    -- Of the written page the file has what is in its frame, dirty or not.
    by_cases heq : f' = f ∧ p' = p
    · obtain ⟨rfl, rfl⟩ := heq
      obtain rfl := Option.some.inj (hj.symm.trans hi)
      obtain rfl := Option.some.inj (ho'.symm.trans ho)
      rw [← hdata]
      exact hst.own
    · exact hst.keep f' o' p' d ho' (h.apart ho' ho heq) (hclean hdirty hun)
  inFile f' o' p' d ho' hnone hd := by
    apply hst.keep f' o' p' d ho' (h.apart ho' ho _) (h.inFile f' o' p' d ho' hnone hd)
    -- The written page is in a frame.
    rintro ⟨rfl, rfl⟩
    have hnone : s.entry f' p' = none := hnone
    rw [hi] at hnone
    cases hnone

/-- A new page in a file. -/
theorem newPage (h : CacheInv s pins latest) (ho : s.objects f = some o) (hnone : s.entry f p = none)
    {streams : FileName → FStream D} (hst : Stored s.objects s.streams o p d streams) :
    CacheInv (s.setStreams streams) pins (noteData latest f p d) where
  pinInv := h.pinInv.setStreams streams
  full := h.full
  one := h.one
  order := hst.order
  cached f' p' j hj := by
    obtain ⟨o', ho', hpage⟩ := h.cached f' p' j hj
    refine ⟨o', ho', fun hkind => ⟨?_, (hpage hkind).2⟩⟩
    -- The new page is in no frame.
    have hne : ¬ (f' = f ∧ p' = p) := by
      rintro ⟨rfl, rfl⟩
      have hj : s.entry f' p' = some j := hj
      rw [hnone] at hj
      cases hj
    rw [onDisk, Sys.streams_setStreams, hst.used f' o' p' ho' hkind (h.apart ho' ho hne)]
    exact (hpage hkind).1
  known f' o' p' ho' hkind hsome := by
    rw [noteData]
    -- The new page is known by the note, the others as before.
    split
    · rfl
    · next hne =>
        rw [onDisk, Sys.streams_setStreams, hst.used f' o' p' ho' hkind (h.apart ho' ho hne)] at hsome
        exact h.known f' o' p' ho' hkind hsome
  inFrame f' o' p' j d' ho' hj hd := by
    have hne : ¬ (f' = f ∧ p' = p) := by
      rintro ⟨rfl, rfl⟩
      have hj : s.entry f' p' = some j := hj
      rw [hnone] at hj
      cases hj
    rw [noteData, if_neg hne] at hd
    obtain ⟨hdata, hclean⟩ := h.inFrame f' o' p' j d' ho' hj hd
    exact ⟨hdata, fun hdirty hun => hst.keep f' o' p' d' ho' (h.apart ho' ho hne) (hclean hdirty hun)⟩
  inFile f' o' p' d' ho' hnone' hd := by
    rw [noteData] at hd
    split at hd
    · -- The new page is in its file already.
      next heq =>
        obtain ⟨rfl, rfl⟩ := heq
        obtain rfl := Option.some.inj (ho'.symm.trans ho)
        cases hd
        exact hst.own
    · next hne => exact hst.keep f' o' p' d' ho' (h.apart ho' ho hne) (h.inFile f' o' p' d' ho' hnone' hd)

/-- A page is gone from its file, and from its frame if it had one. -/
theorem forget (h : CacheInv s pins latest) (hpins : PinInv t pins) (htable : TableInv t)
    (hobj : t.objects = s.objects) (hgone : t.entry f p = none)
    (hframes : ∀ f' p' j, t.entry f' p' = some j →
      s.entry f' p' = some j ∧ t.desc j = s.desc j ∧ t.frame j = s.frame j)
    (hrest : ∀ f' p', ¬ (f' = f ∧ p' = p) → t.entry f' p' = none → s.entry f' p' = none)
    (hst : DeletedAt s f p t.streams) :
    CacheInv t pins fun f' p' => if f' = f ∧ p' = p then none else latest f' p' where
  pinInv := hpins
  full := htable.full
  one a b oa ob ha hb := by
    rw [hobj] at ha hb
    exact h.one a b oa ob ha hb
  order a o ha := by
    rw [hobj] at ha
    exact hst.order a o ha
  cached f' p' j hj := by
    obtain ⟨hj', -, hframe⟩ := hframes f' p' j hj
    obtain ⟨o', ho', hpage⟩ := h.cached f' p' j hj'
    have hne : ¬ (f' = f ∧ p' = p) := by
      rintro ⟨rfl, rfl⟩
      rw [hgone] at hj
      cases hj
    refine ⟨o', hobj ▸ ho', fun hkind => ?_⟩
    rw [onDisk, hst.keep f' o' p' ho' hne, hframe]
    exact hpage hkind
  known f' o' p' ho' hkind hsome := by
    rw [hobj] at ho'
    rw [onDisk] at hsome
    -- The page is in no file any more, and nobody knows of it.
    split
    · next heq =>
        obtain ⟨rfl, rfl⟩ := heq
        rw [hst.gone o' ho'] at hsome
        cases hsome
    · next hne =>
        rw [hst.keep f' o' p' ho' hne] at hsome
        exact h.known f' o' p' ho' hkind hsome
  inFrame f' o' p' j d ho' hj hd := by
    rw [hobj] at ho'
    obtain ⟨hj', hdesc, hframe⟩ := hframes f' p' j hj
    split at hd
    · -- Nothing is said of the page itself.
      cases hd
    · next hne =>
        rw [hdesc, hframe, onDisk, hst.keep f' o' p' ho' hne]
        exact h.inFrame f' o' p' j d ho' hj' hd
  inFile f' o' p' d ho' hnone hd := by
    rw [hobj] at ho'
    split at hd
    · cases hd
    · next hne =>
        rw [onDisk, hst.keep f' o' p' ho' hne]
        exact h.inFile f' o' p' d ho' (hrest f' p' hne hnone) hd

/-! ## The frames

A frame is emptied only when the file has its data, so `inFile` holds of its page afterwards.
-/

theorem scanned (h : CacheInv s pins latest) (ht : Scanned s t) (hinv : PoolInv t) :
    CacheInv t pins latest where
  pinInv := h.pinInv.scanned ht hinv
  full := (h.table.scanned ht hinv.hand).full
  one a b oa ob ha hb := by
    rw [ht.objects] at ha hb
    exact h.one a b oa ob ha hb
  order a oa ha := by
    rw [ht.objects] at ha
    rw [ht.streams]
    exact h.order a oa ha
  cached f p j hj := by
    rw [ht.entry] at hj
    simp only [onDisk, ht.objects, ht.frame, ht.streams]
    exact h.cached f p j hj
  known f o p ho hkind hsome := by
    rw [ht.objects] at ho
    rw [onDisk, ht.streams] at hsome
    exact h.known f o p ho hkind hsome
  inFrame f o p j d ho hj hd := by
    rw [ht.objects] at ho
    rw [ht.entry] at hj
    rw [ht.frame, ht.desc j, onDisk, ht.streams]
    exact h.inFrame f o p j d ho hj hd
  inFile f o p d ho hnone hd := by
    rw [ht.objects] at ho
    rw [ht.entry] at hnone
    rw [onDisk, ht.streams]
    exact h.inFile f o p d ho hnone hd

/-- Emptying the frame of an unpinned page whose data the file has. -/
theorem evict (h : CacheInv s pins latest) (hv : Victim s i)
    (hdisk : ∀ o d, s.objects (s.desc i).file = some o →
      latest (s.desc i).file (s.desc i).pageNo = some d → onDisk s o (s.desc i).pageNo = some d) :
    CacheInv ((s.dropEntry (s.desc i).file (s.desc i).pageNo).setDesc i BufDesc.clear) pins latest where
  pinInv := h.pinInv.evict (h.full i hv.valid) hv.unpinned
  full := (h.table.evict hv.valid).full
  one := h.one
  order := h.order
  cached f p j hj := h.cached f p j (h.pinInv.pool.entry_evict hj).1
  known := h.known
  inFrame f o p j d ho hj hd := by
    obtain ⟨hj, hne⟩ := h.pinInv.pool.entry_evict hj
    rw [Sys.desc_setDesc, if_neg hne]
    exact h.inFrame f o p j d ho hj hd
  inFile f o p d ho hnone hd := by
    rw [Sys.entry_setDesc, Sys.entry_dropEntry] at hnone
    -- Of the page itself the file has the data by hypothesis.
    by_cases heq : f = (s.desc i).file ∧ p = (s.desc i).pageNo
    · obtain ⟨rfl, rfl⟩ := heq
      exact hdisk o d ho hd
    · rw [if_neg heq] at hnone
      exact h.inFile f o p d ho hnone hd

/-- The file has the data of an unpinned page that is not dirty. -/
theorem onDisk_of_clean (h : CacheInv s pins latest) (hv : Victim s i)
    (hclean : (s.desc i).dirty = false) (ho : s.objects (s.desc i).file = some o)
    (hd : latest (s.desc i).file (s.desc i).pageNo = some d) :
    onDisk s o (s.desc i).pageNo = some d := by
  apply (h.inFrame _ o _ i d ho (h.full i hv.valid) hd).2 hclean
  -- Nobody has the page pinned, so nobody has changed it.
  intro pin hpin hf hp
  have hpos := pinsOn_pos_iff.mpr ⟨pin, hpin, hf, hp⟩
  rw [← h.pinInv.counted _ _ i (h.full i hv.valid), hv.unpinned] at hpos
  cases hpos

/-- Emptying the frame of an unpinned page that is not dirty. -/
theorem evict_clean (h : CacheInv s pins latest) (hv : Victim s i)
    (hclean : (s.desc i).dirty = false) :
    CacheInv ((s.dropEntry (s.desc i).file (s.desc i).pageNo).setDesc i BufDesc.clear) pins
      latest := by
  apply h.evict hv
  intro o d ho hd
  exact h.onDisk_of_clean hv hclean ho hd

/-- Emptying the frame of an unpinned page that has been written to its file. -/
theorem evict_written (h : CacheInv s pins latest) (hv : Victim s i)
    (ho : s.objects (s.desc i).file = some o) {streams : FileName → FStream D}
    (hst : Stored s.objects s.streams o (s.desc i).pageNo (o.kind.normal (s.frame i)) streams) :
    CacheInv (((s.setStreams streams).dropEntry (s.desc i).file (s.desc i).pageNo).setDesc i
      BufDesc.clear) pins latest := by
  -- Written first, and then evicted from a file that has its data.
  apply (h.writeFrame (h.full i hv.valid) ho hst).evict ⟨hv.valid, hv.unpinned⟩
  intro o' d ho' hd
  obtain rfl := Option.some.inj (ho'.symm.trans ho)
  rw [← (h.inFrame _ o' _ i d ho (h.full i hv.valid) hd).1]
  exact hst.own

/-- Putting a page of a file into a frame that is not in use, and entering it. -/
theorem load (h : CacheInv s pins latest) (hv : (s.desc i).valid = false) (hi : i < s.numBufs)
    (hnone : s.entry f p = none) (ho : s.objects f = some o)
    (hpage : o.kind = .page → (onDisk s o p).isSome = true ∧ pg.pageNumber = p)
    (hdata : ∀ d, latest f p = some d → o.kind.normal pg = d) :
    CacheInv (((s.setFrame i pg).setDesc i (BufDesc.set f p)).putEntry f p i)
      (⟨f, p, i, false⟩ :: pins) latest := by
  have hentry : ∀ f' p', (((s.setFrame i pg).setDesc i (BufDesc.set f p)).putEntry f p i).entry f' p' =
      if f' = f ∧ p' = p then some i else s.entry f' p' :=
    fun f' p' => Sys.entry_putEntry _ f' p' hnone
  have hother : ∀ f' p' j, s.entry f' p' = some j → j ≠ i := by
    rintro f' p' j hj rfl
    rw [(h.pinInv.pool.entry f' p' j hj).1] at hv
    cases hv
  -- Only frame `i` has other data.
  have hframe : ∀ j, (((s.setFrame i pg).setDesc i (BufDesc.set f p)).putEntry f p i).frame j =
      if j = i then pg else s.frame j := fun j => Sys.frame_setFrame s i j pg
  constructor
  case pinInv => exact h.pinInv.load hv hi hnone pg
  case full => exact (h.table.load hv hi hnone pg).full
  case one => exact h.one
  case order => exact h.order
  case cached =>
    intro f' p' j hj
    rw [hentry] at hj
    -- The page that is loaded, and then the ones that were there.
    by_cases heq : f' = f ∧ p' = p
    · rw [if_pos heq] at hj
      cases hj
      obtain ⟨rfl, rfl⟩ := heq
      refine ⟨o, ho, fun hkind => ⟨(hpage hkind).1, ?_⟩⟩
      rw [hframe, if_pos rfl]
      exact (hpage hkind).2
    · rw [if_neg heq] at hj
      rw [hframe, if_neg (hother f' p' j hj)]
      exact h.cached f' p' j hj
  case known => exact h.known
  case inFrame =>
    intro f' o' p' j d ho' hj hd
    rw [hentry] at hj
    by_cases heq : f' = f ∧ p' = p
    · rw [if_pos heq] at hj
      cases hj
      obtain ⟨rfl, rfl⟩ := heq
      obtain rfl := Option.some.inj (ho'.symm.trans ho)
      rw [hframe, if_pos rfl]
      -- Its data is that of the file, from which it comes.
      exact ⟨hdata d hd, fun _ _ => h.inFile f' o' p' d ho hnone hd⟩
    · rw [if_neg heq] at hj
      rw [hframe, if_neg (hother f' p' j hj), Sys.desc_putEntry, Sys.desc_setDesc,
        if_neg (hother f' p' j hj)]
      obtain ⟨hdata', hclean⟩ := h.inFrame f' o' p' j d ho' hj hd
      refine ⟨hdata', fun hdirty hun => hclean hdirty ?_⟩
      intro pin hpin
      exact hun pin (List.mem_cons_of_mem _ hpin)
  case inFile =>
    intro f' o' p' d ho' hnone' hd
    rw [hentry] at hnone'
    split at hnone'
    · cases hnone'
    · exact h.inFile f' o' p' d ho' hnone' hd

/-- Pinning, unpinning and marking dirty the frame of a page. -/
theorem mark (h : CacheInv s pins latest) (hi : s.entry f p = some i) {g : BufDesc → BufDesc}
    (hg : ∀ d, (g d).valid = d.valid ∧ (g d).file = d.file ∧ (g d).pageNo = d.pageNo ∧
      (g d).frameNo = d.frameNo) (hpins : PinInv (s.setDesc i g) pins')
    (hself : (g (s.desc i)).dirty = false → (s.desc i).dirty = false ∧
      (Unchanged pins' f p → Unchanged pins f p))
    (hrest : ∀ f' p', ¬ (f' = f ∧ p' = p) → Unchanged pins' f' p' → Unchanged pins f' p') :
    CacheInv (s.setDesc i g) pins' latest where
  pinInv := hpins
  full := (h.table.mark (h.pinInv.pool.entry f p i hi).1 hg).full
  one := h.one
  order := h.order
  cached := h.cached
  known := h.known
  inFrame f' o' p' j d ho hj hd := by
    obtain ⟨hdata, hclean⟩ := h.inFrame f' o' p' j d ho hj hd
    refine ⟨hdata, fun hdirty hun => ?_⟩
    -- The marked frame has the page of `f` and `p` only, and no other page is in it.
    by_cases hji : j = i
    · subst hji
      obtain ⟨-, hf, hp⟩ := h.pinInv.pool.entry f p j hi
      obtain ⟨-, hf', hp'⟩ := h.pinInv.pool.entry f' p' j hj
      obtain rfl := hf.symm.trans hf'
      obtain rfl := hp.symm.trans hp'
      rw [Sys.desc_setDesc, if_pos rfl] at hdirty
      obtain ⟨hold, hun'⟩ := hself hdirty
      exact hclean hold (hun' hun)
    · rw [Sys.desc_setDesc, if_neg hji] at hdirty
      apply hclean hdirty (hrest f' p' _ hun)
      rintro ⟨rfl, rfl⟩
      exact hji (Option.some.inj (hj.symm.trans hi))
  inFile := h.inFile

/-- A dirty frame's data is what clients see. -/
theorem noteFrame (h : CacheInv s pins latest) (hi : s.entry f p = some i)
    (hdirty : (s.desc i).dirty = true) (ho : s.objects f = some o) :
    CacheInv s pins (noteData latest f p (o.kind.normal (s.frame i))) where
  pinInv := h.pinInv
  full := h.full
  one := h.one
  order := h.order
  cached := h.cached
  known f' o' p' ho' hkind hsome := by
    rw [noteData]
    split
    · rfl
    · exact h.known f' o' p' ho' hkind hsome
  inFrame f' o' p' j d ho' hj hd := by
    rw [noteData] at hd
    split at hd
    · -- The page is in the frame with the data noted, and being dirty its file may have anything.
      next heq =>
        obtain ⟨rfl, rfl⟩ := heq
        obtain rfl := Option.some.inj (hj.symm.trans hi)
        obtain rfl := Option.some.inj (ho'.symm.trans ho)
        refine ⟨Option.some.inj hd, fun hclean => ?_⟩
        rw [hdirty] at hclean
        cases hclean
    · exact h.inFrame f' o' p' j d ho' hj hd
  inFile f' o' p' d ho' hnone hd := by
    rw [noteData] at hd
    split at hd
    · -- The page is in a frame.
      next heq =>
        obtain ⟨rfl, rfl⟩ := heq
        rw [hi] at hnone
        cases hnone
    · exact h.inFile f' o' p' d ho' hnone hd

/-- A client writes to a page it has pinned. -/
theorem write (h : CacheInv s pins latest) {pin : Pin} (hpin : pin ∈ pins)
    (ho : s.objects pin.file = some o) (hnum : o.kind = .page → pg.pageNumber = pin.pageNo) :
    CacheInv (s.setFrame pin.frame pg) ({ pin with changed := true } :: pins.erase pin)
      (noteData latest pin.file pin.pageNo (o.kind.normal pg)) := by
  have hentry := h.pinInv.held pin hpin
  have hframe : ∀ j, (s.setFrame pin.frame pg).frame j = if j = pin.frame then pg else s.frame j :=
    fun j => Sys.frame_setFrame s pin.frame j pg
  -- No other page is in the frame of the pin.
  have hkey : ∀ {f p}, s.entry f p = some pin.frame → f = pin.file ∧ p = pin.pageNo := by
    intro f p hi
    obtain ⟨-, hf, hp⟩ := h.pinInv.pool.entry _ _ _ hentry
    obtain ⟨-, hf', hp'⟩ := h.pinInv.pool.entry f p _ hi
    exact ⟨hf'.symm.trans hf, hp'.symm.trans hp⟩
  constructor
  case pinInv => exact (h.pinInv.setFrame pin.frame pg).repin hpin
  case full => exact h.full
  case one => exact h.one
  case order => exact h.order
  case cached =>
    intro f p j hj
    obtain ⟨o', ho', hpage⟩ := h.cached f p j hj
    refine ⟨o', ho', fun hkind => ⟨(hpage hkind).1, ?_⟩⟩
    rw [hframe]
    split
    · next hji =>
        subst hji
        obtain ⟨rfl, rfl⟩ := hkey hj
        obtain rfl := Option.some.inj (ho'.symm.trans ho)
        exact hnum hkind
    · exact (hpage hkind).2
  case known =>
    intro f o' p ho' hkind hsome
    rw [noteData]
    split
    · rfl
    · exact h.known f o' p ho' hkind hsome
  case inFrame =>
    intro f o' p j d ho' hj hd
    rw [noteData] at hd
    rw [hframe]
    by_cases heq : f = pin.file ∧ p = pin.pageNo
    · rw [if_pos heq] at hd
      obtain ⟨rfl, rfl⟩ := heq
      obtain rfl := Option.some.inj (hj.symm.trans hentry)
      obtain rfl := Option.some.inj (ho'.symm.trans ho)
      rw [if_pos rfl]
      refine ⟨Option.some.inj hd, fun _ hun => ?_⟩
      -- the page is being changed by the holder of this pin
      have := hun _ List.mem_cons_self rfl rfl
      cases this
    · rw [if_neg heq] at hd
      have hji : j ≠ pin.frame := by
        rintro rfl
        exact heq (hkey hj)
      rw [if_neg hji]
      obtain ⟨hdata, hclean⟩ := h.inFrame f o' p j d ho' hj hd
      refine ⟨hdata, fun hdirty hun => hclean hdirty ?_⟩
      intro q hq hf hp
      -- The pin of the call is on the page that was written, so another one has stayed.
      by_cases hqpin : q = pin
      · subst hqpin
        exact absurd ⟨hf.symm, hp.symm⟩ heq
      · exact hun q (List.mem_cons_of_mem _ ((List.mem_erase_of_ne hqpin).mpr hq)) hf hp
  case inFile =>
    intro f o' p d ho' hnone hd
    rw [noteData] at hd
    split at hd
    · next heq =>
        obtain ⟨rfl, rfl⟩ := heq
        have hnone : s.entry pin.file pin.pageNo = none := hnone
        rw [hentry] at hnone
        cases hnone
    · exact h.inFile f o' p d ho' hnone hd

end CacheInv

end CS640.Badger.BufMgr
