import CS640.Badger.Buffer.SharedFiles

/-!
# Pages disposed of at any time

Runs of p3 in which `disposePage` may be called on any page, pinned or dirty, and whatever its file answers.
Where the page is in the pool it is out of it afterwards, so the pins on it are gone too, and all that is
left of it is what its file has. Each file has one `File` object.

`Session.Inv` is what such runs keep: `SharedInv`, and that a `BlobFile` has no page in the pool under the
number of the next one it hands out.

The pins on a page that is disposed of are void, which `HandleState.dispose` says; in that, `HandleState.next`
differs from the plain `after`. `Session.orderly` shows that every other event meets the condition of
`sharedInv_after`, and `Session.next` puts both together.
-/

namespace CS640.Badger.P3.BufMgr

open CS640.Lib Prog
open CS640.Badger.BufMgr

variable {D : Type}

/-! ## The numbers of the pages of a blob file

A page that a `BlobFile` hands out must not be in the pool already, or entering it throws. It cannot be, since its
number is that of the next page, and all pages in the pool have numbers below. Only `allocatePage` changes that
number, so for every other function of a file it is enough to count (`onFile_counts`).
-/

/-- The pages that the pool has of a `BlobFile` have numbers below that of the next one. -/
structure Numbered (objects : Nat → Option FileObject) (s : Sys D) : Prop where
  live : s.objects = objects
  lt : ∀ f p i o, s.entry f p = some i → objects f = some o → o.kind = .blob →
    p < (s.streams o.filename).header.numPages

/-- Objects on one file are alike. -/
def Alike (objects : Nat → Option FileObject) : Prop :=
  ∀ a b oa ob, objects a = some oa → objects b = some ob → oa.filename = ob.filename → oa = ob

section Numbered

variable {objects : Nat → Option FileObject} {s t : Sys D} {f p i : Nat} {o : FileObject}

/-- Only `allocatePage` changes the number of pages. -/
theorem blob_writePage_keeps (n p : Nat) (pg : Page D) :
    Keeps (fun st => st.header.numPages = n) (BlobFile.writePage p pg) := by
  intro st hst
  -- On a stream that has failed nothing is written; otherwise the page is, and the header is not touched.
  cases hfail : st.failbit with
  | true =>
      have hr : BlobFile.writePage p pg st = (.ok (), st) := by
        simp [BlobFile.writePage, FStream.writeWholePage, hfail]
      rw [wp_of_ok hr]
      exact hst
  | false =>
      have hr : BlobFile.writePage p pg st = (.ok (), st.put p pg) := by
        simp [BlobFile.writePage, FStream.writeWholePage, hfail, FStream.put]
      rw [wp_of_ok hr]
      exact hst

theorem blob_readPage_keeps [PageData D] (n p : Nat) :
    Keeps (fun st => st.header.numPages = n) (BlobFile.readPage (D := D) p) := by
  intro st hst
  -- A read that is too short sets a bit, and leaves the header alone.
  cases hread : st.readable (pagePosition p) pageSize with
  | true =>
      have hr : BlobFile.readPage p st = (.ok (st.page p), st) := by
        simp [BlobFile.readPage, FStream.readWholePage, hread]
      rw [wp_of_ok hr]
      exact hst
  | false =>
      have hr : BlobFile.readPage p st = (.ok Page.init, st.fail) := by
        simp [BlobFile.readPage, FStream.readWholePage, hread]
      rw [wp_of_ok hr]
      exact hst

/-- A stream on which the number of pages has not gone down. -/
theorem Numbered.setStream (h : Numbered objects s) (halike : Alike objects) (ho : objects f = some o)
    {st : FStream D}
    (hst : o.kind = .blob → (s.streams o.filename).header.numPages ≤ st.header.numPages) :
    Numbered objects (s.setStream o.filename st) := by
  refine ⟨h.live, fun f' p' j o' hj hf' hblob => ?_⟩
  have hlt := h.lt f' p' j o' hj hf' hblob
  show p' < (Function.update s.streams o.filename st o'.filename).header.numPages
  -- The stream of the same file, or of another one.
  by_cases hname : o'.filename = o.filename
  · obtain rfl := halike f' f o' o hf' ho hname
    rw [Function.update_self]
    exact Nat.lt_of_lt_of_le hlt (hst hblob)
  · rw [Function.update_of_ne hname]
    exact hlt

/-- `I` depends on the streams by the numbers of pages of the `BlobFile`s only. -/
def CountsPages (I : Sys D → Prop) : Prop :=
  ∀ s f o st, s.objects f = some o →
    (o.kind = .blob → st.header.numPages = (s.streams o.filename).header.numPages) → I s →
    I (s.setStream o.filename st)

theorem countsPages_numbered (halike : Alike objects) : CountsPages (Numbered (D := D) objects) := by
  intro s f o st ho hst h
  rw [h.live] at ho
  exact h.setStream halike ho fun hblob => Nat.le_of_eq (hst hblob).symm

/-- Besides, the `BlobFile` at `f` has `n` pages. -/
structure Counted (objects : Nat → Option FileObject) (f n : Nat) (s : Sys D) : Prop where
  numbered : Numbered objects s
  count : ∀ o, objects f = some o → o.kind = .blob → (s.streams o.filename).header.numPages = n

theorem countsPages_counted {n : Nat} (halike : Alike objects) :
    CountsPages (Counted (D := D) objects f n) := by
  intro s g o st ho hst h
  refine ⟨countsPages_numbered halike s g o st ho hst h.numbered, fun o' ho' hblob => ?_⟩
  show (Function.update s.streams o.filename st o'.filename).header.numPages = n
  rw [h.numbered.live] at ho
  by_cases hname : o'.filename = o.filename
  · obtain rfl := halike f g o' o ho' ho hname
    rw [Function.update_self, hst hblob]
    exact h.count o' ho' hblob
  · rw [Function.update_of_ne hname]
    exact h.count o' ho' hblob

theorem Counted.start (h : Numbered objects s) (ho : s.objects f = some o) :
    Counted objects f (s.streams o.filename).header.numPages s := by
  refine ⟨h, fun o' ho' _ => ?_⟩
  rw [← h.live, ho] at ho'
  cases ho'
  rfl

section Counts

variable {I : Sys D → Prop} (hI : CountsPages I)
include hI

/-- A file operation that leaves the number of pages of a `BlobFile` as it is. -/
theorem onFile_counts {α : Type} (f : Nat) {x : FileObject → Prog Exn (FStream D) α}
    (hx : ∀ o n, o.kind = .blob → Keeps (fun st => st.header.numPages = n) (x o)) :
    Keeps I (onFile f x) := by
  intro s hs
  cases ho : s.objects f with
  | none =>
      rw [wp_onFile_dangling ho]
      exact hs
  | some o =>
      rw [wp_onFile ho]
      -- For a `PageFile` nothing is asked: `I` does not look at its numbers.
      cases hkind : o.kind with
      | blob =>
          refine wp_mono (hx o _ hkind _ rfl) ?_ ?_
          · exact fun _ st hst => hI s f o st ho (fun _ => hst) hs
          · exact fun _ st hst => hI s f o st ho (fun _ => hst) hs
      | page =>
          have hpage : ∀ st, I (s.setStream o.filename st) := by
            intro st
            apply hI s f o st ho _ hs
            intro hblob
            rw [hkind] at hblob
            cases hblob
          exact wp_of_forall (fun _ st => hpage st) fun _ st => hpage st

theorem writePage_counts (f p : Nat) (pg : Page D) : Keeps I (onFile f fun file => file.writePage p pg) := by
  apply onFile_counts hI
  intro o n hblob
  simp only [FileObject.writePage, hblob]
  exact blob_writePage_keeps n p pg

variable [PageData D]

theorem readPage_counts (f p : Nat) : Keeps I (onFile f fun file => file.readPage p) := by
  apply onFile_counts hI
  intro o n hblob
  simp only [FileObject.readPage, hblob]
  exact blob_readPage_keeps n p

theorem deletePage_counts (f p : Nat) : Keeps I (onFile f fun file => file.deletePage p) := by
  apply onFile_counts hI
  intro o n hblob
  simp only [FileObject.deletePage, hblob]
  exact Keeps.throw _

end Counts

/-- A page that is dropped has no number any more. -/
theorem Numbered.dropEntry (h : Numbered objects s) (f p : Nat) : Numbered objects (s.dropEntry f p) := by
  refine ⟨h.live, fun f' p' j o hj hf' hblob => ?_⟩
  rw [Sys.entry_dropEntry] at hj
  split at hj
  · cases hj
  · exact h.lt f' p' j o hj hf' hblob

theorem Numbered.putEntry (h : Numbered objects s) (hnone : s.entry f p = none)
    (hlt : ∀ o, objects f = some o → o.kind = .blob → p < (s.streams o.filename).header.numPages) :
    Numbered objects (s.putEntry f p i) := by
  refine ⟨h.live, fun f' p' j o hj hf' hblob => ?_⟩
  rw [Sys.entry_putEntry _ _ _ hnone] at hj
  split at hj
  · next heq =>
      obtain ⟨rfl, rfl⟩ := heq
      exact hlt o hf' hblob
  · exact h.lt f' p' j o hj hf' hblob

/-- A page that is entered has a number below that of the next one. -/
theorem insert_numbered (hlt : ∀ o, objects f = some o → o.kind = .blob →
      p < (s.streams o.filename).header.numPages) (h : Numbered objects s) :
    wp (insert f p i) (fun _ t => Numbered objects t) (fun _ t => Numbered objects t) s := by
  apply wp_insert
  · exact fun hnone => h.putEntry hnone hlt
  · exact fun _ _ _ _ => h
  · exact fun _ => h

/-- Making room leaves the numbers of pages as they are. -/
theorem allocBuf_counted {n : Nat} (halike : Alike objects) :
    Keeps (Counted (D := D) objects f n) allocBuf :=
  allocBuf_keeps (fun _ _ h => ⟨⟨h.numbered.live, h.numbered.lt⟩, h.count⟩)
    (fun _ _ _ h => ⟨⟨h.numbered.live, h.numbered.lt⟩, h.count⟩)
    (fun _ g q h => ⟨h.numbered.dropEntry g q, h.count⟩) (writePage_counts (countsPages_counted halike))

end Numbered

/-! ## The calls

`disposePage` of a page that is in the pool, and what the calls make of the numbers.
-/

section Calls

variable [PageData D] {objects : Nat → Option FileObject} {s t : Sys D} {pins : List Pin}
  {released : FileName → Nat → Option (Page D)} {f p i : Nat} {o : FileObject}

/-- A page that is in the pool is out of it, whatever its file answers. -/
theorem disposePage_apply (ho : s.objects f = some o) (hi : s.entry f p = some i)
    {r : Except (Exit Exn) Unit} {st : FStream D} (hdelete : o.deletePage p (s.streams o.filename) = (r, st)) :
    disposePage f p s = (r, ((s.dropEntry f p).setDesc i BufDesc.clear).setStream o.filename st) := by
  have hhit : (s.setDesc i BufDesc.clear).entry f p = some i := hi
  have ho' : ((s.dropEntry f p).setDesc i BufDesc.clear).objects f = some o := ho
  have hdelete' : o.deletePage p (((s.dropEntry f p).setDesc i BufDesc.clear).streams o.filename) = (r, st) :=
    hdelete
  rw [disposePage, bind_of_ok (lookup_apply hi), bind_of_ok (modify_apply _ _),
    bind_of_ok (remove_apply hhit), Sys.setDesc_dropEntry, onFile_apply ho', hdelete']

/-- The page is deleted from its file, or the file is as it was. -/
theorem disposePage_leaves (h : SharedInv s pins released) (ho : s.objects f = some o)
    (hi : s.entry f p = some i) :
    ∃ r st, o.deletePage p (s.streams o.filename) = (r, st) ∧
      disposePage f p s = (r, ((s.dropEntry f p).setDesc i BufDesc.clear).setStream o.filename st) ∧
      o.kind.InOrder st ∧ (∀ q, q ≠ p → o.kind.held st q = o.kind.held (s.streams o.filename) q) ∧
      (r = .ok () ∧ o.kind.held st p = none ∨ (∃ e, r = .error e) ∧ st = s.streams o.filename) := by
  -- A page in the pool is one that its file has, so deleting it may read it.
  have hpage : o.kind = .page → (o.kind.held (s.streams o.filename) p).isSome = true := by
    obtain ⟨o', ho', hpage⟩ := h.cached f p i hi
    obtain rfl := Option.some.inj (ho'.symm.trans ho)
    exact fun hkind => (hpage hkind).1
  have hspec := FileObject.deletePage_deletes (h.order f o ho) fun hkind => FileKind.mayRead_of_held (hpage hkind)
  rcases hr : o.deletePage p (s.streams o.filename) with ⟨r, st⟩
  refine ⟨r, st, rfl, disposePage_apply ho hi hr, ?_⟩
  -- Either the file refuses and is as it was, or the page is gone.
  rcases r with e | _
  · rw [wp_of_error hr] at hspec
    obtain rfl := hspec
    exact ⟨h.order f o ho, fun _ _ => rfl, Or.inr ⟨⟨e, rfl⟩, rfl⟩⟩
  · rw [wp_of_ok hr] at hspec
    obtain ⟨horder, hgone, hkeep, -⟩ := hspec
    exact ⟨horder, hkeep, Or.inl ⟨rfl, hgone⟩⟩

/-- A page of a `BlobFile` that is read has a number below that of the next one. -/
theorem readPage_keeps_numbered (halike : Alike objects) (hn : Numbered objects s) (ho : s.objects f = some o)
    (hlt : s.entry f p = none → o.kind = .blob → p < (s.streams o.filename).header.numPages) :
    wp (readPage f p) (fun _ t => Numbered objects t) (fun _ t => Numbered objects t) s := by
  apply wp_readPage ho
  · exact fun _ _ => ⟨hn.live, hn.lt⟩
  · intro hnone
    -- Room is made, the page is read, and both leave the number of pages as it is.
    refine wp_mono (allocBuf_counted halike s (Counted.start hn ho)) ?_ fun _ _ he => he.numbered
    intro i t ht
    refine wp_mono (readPage_counts (countsPages_counted halike) f p t ht) ?_ fun _ _ he => he.numbered
    intro pg u hu
    refine insert_numbered ?_ ⟨hu.numbered.live, hu.numbered.lt⟩
    intro o' ho' hblob
    have hcount := hu.count o' ho' hblob
    rw [← hn.live, ho] at ho'
    cases ho'
    show p < (u.streams o.filename).header.numPages
    rw [hcount]
    exact hlt hnone hblob

/-- The writes of the pages that make room succeed. -/
theorem allocBuf_refuses (h : SharedInv s pins released) :
    wp allocBuf (fun _ _ => True) (fun e _ => e = .throw .bufferExceeded) s := by
  apply wp_allocBuf_hashed h.pinInv.hashedInv
  · exact fun _ _ _ _ _ _ => rfl
  · exact fun _ _ _ _ => trivial
  · intro t k ht hinv hv _
    obtain ⟨streams, hrun, -⟩ := writeBack_leaves (h.scanned ht hinv) hv (t.dropEntry
      (t.desc t.clockHand).file (t.desc t.clockHand).pageNo) rfl rfl rfl rfl
    rw [wp_of_ok hrun]
    trivial

/-- In a `BlobFile`, a new page has the number of the next one; it is not in the pool. -/
theorem allocPage_numbered (h : SharedInv s pins released) (halike : Alike objects)
    (hn : Numbered objects s) (ho : s.objects f = some o) :
    wp (allocPage f)
      (fun r t => Numbered objects t ∧ (o.kind = .blob → s.entry f r.1 = none))
      (fun e t => Numbered objects t ∧
        (o.kind = .blob → ∀ name p i, e ≠ .throw (.hashAlreadyPresent name p i))) s := by
  apply wp_allocPage
  have hshared := wp_and (allocBuf_shared h) (allocBuf_refuses h)
  refine wp_mono (wp_and hshared (allocBuf_counted halike s (Counted.start hn ho))) ?_ ?_
  · rintro i t ⟨⟨⟨ht, hv, hi, hobj, hleaves⟩, -⟩, hnt, hcount⟩
    have ho' : t.objects f = some o := by
      rw [hobj]
      exact ho
    have hof : objects f = some o := by
      rw [← hnt.live]
      exact ho'
    rw [wp_onFile ho']
    obtain ⟨kind, fn⟩ := o
    -- A page of a `PageFile` may have any number.
    cases kind with
    | page =>
        have hpage : ∀ st, Numbered objects (t.setStream fn st) :=
          fun st => hnt.setStream halike hof nofun
        refine wp_of_forall ?_ fun e st => ⟨hpage st, nofun⟩
        rintro ⟨p, pg⟩ st
        have hlt : ∀ o, objects f = some o → o.kind = .blob →
            p < ((t.setStream fn st).streams o.filename).header.numPages := by
          intro o ho hblob
          rw [hof] at ho
          cases ho
          cases hblob
        refine wp_mono (insert_numbered hlt ⟨(hpage st).live, (hpage st).lt⟩) ?_ ?_
        · exact fun _ u hu => ⟨hu, nofun⟩
        · exact fun _ u hu => ⟨hu, nofun⟩
    | blob =>
        obtain ⟨header, hpages, hrun⟩ := BlobFile.allocatePage_apply (ht.order f _ ho')
        have hrun : FileObject.allocatePage ⟨.blob, fn⟩ (t.streams fn) = _ := hrun
        rw [wp_of_ok hrun]
        dsimp only
        -- the new page has no entry, since its number is not below itself
        have hcount : (t.streams fn).header.numPages = (s.streams fn).header.numPages := hcount _ hof rfl
        set p := (t.streams fn).header.numPages with hp
        have hfresh : s.entry f p = none := by
          cases hj : s.entry f p with
          | none => rfl
          | some j =>
              have hlt := hn.lt f p j ⟨.blob, fn⟩ hj (by rw [← hn.live]; exact ho) rfl
              rw [hcount] at hlt
              exact absurd hlt (Nat.lt_irrefl _)
        have hnone : t.entry f p = none := hleaves.none hfresh
        set u := ((t.setStream fn ((FStream.put (t.streams fn) p Page.init).setHeader header)).setFrame i
          Page.init).setDesc i (BufDesc.set f p) with hu
        have hstream : u.streams fn = (FStream.put (t.streams fn) p Page.init).setHeader header :=
          Function.update_self ..
        -- The header says one page more, and the numbers below the old one are below the new one.
        have hput : Numbered objects u := by
          have hmore : Numbered objects
              (t.setStream fn ((FStream.put (t.streams fn) p Page.init).setHeader header)) :=
            hnt.setStream halike hof fun _ =>
              Nat.le_of_lt (Nat.lt_of_lt_of_eq (Nat.lt_succ_self _) hpages.symm)
          exact ⟨hmore.live, hmore.lt⟩
        have hnone' : u.entry f p = none := hnone
        rw [wp_of_ok (insert_apply hnone')]
        refine ⟨hput.putEntry hnone' ?_, fun _ => hfresh⟩
        intro o' ho' _
        rw [hof] at ho'
        cases ho'
        show p < (u.streams fn).header.numPages
        rw [hstream]
        show p < header.numPages
        omega
  · rintro e t ⟨⟨-, rfl⟩, hnt⟩
    exact ⟨hnt.numbered, nofun⟩

/-- The other calls enter no page. -/
theorem call_keeps_numbered (halike : Alike objects) (op : BufOp) (hread : ∀ f p, op ≠ .readPage f p)
    (halloc : ∀ f, op ≠ .allocPage f) : Keeps (Numbered (D := D) objects) (call op) := by
  have hcounts := countsPages_numbered (D := D) halike
  have hdesc : ∀ (s : Sys D) i g, Numbered objects s → Numbered objects (s.setDesc i g) :=
    fun _ _ _ h => ⟨h.live, h.lt⟩
  have hdrop : ∀ (s : Sys D) f p, Numbered objects s → Numbered objects (s.dropEntry f p) :=
    fun _ f p h => h.dropEntry f p
  cases op with
  | readPage f p => exact absurd rfl (hread f p)
  | allocPage f => exact absurd rfl (halloc f)
  | unPinPage f p dirty => exact (unPinPage_keeps hdesc f p dirty).bind fun _ => Keeps.pure _
  | flushFile f => exact (flushFile_keeps hdesc hdrop (writePage_counts hcounts) f).bind fun _ => Keeps.pure _
  | disposePage f p =>
      exact (disposePage_keeps hdesc hdrop (deletePage_counts hcounts) f p).bind fun _ => Keeps.pure _

end Calls

/-! ## Runs

In these runs each file has one object, so a page is in the pool under one address at most.
-/

/-- Each file has one object. -/
def Single (objects : Nat → Option FileObject) : Prop :=
  ∀ a b oa ob, objects a = some oa → objects b = some ob → oa.filename = ob.filename → a = b

theorem Single.alike {objects : Nat → Option FileObject} (h : Single objects) : Alike objects := by
  intro a b oa ob ha hb hname
  obtain rfl := h a b oa ob ha hb hname
  exact Option.some.inj (ha.symm.trans hb)

namespace HandleState

variable [PageData D] {objects : Nat → Option FileObject} {s : HandleState D}

/-- What `disposePage` leaves of a page that is in the pool: the pins on it are void, and what its file has
of it counts as released. -/
def dispose (s : HandleState D) (f p : Nat) : HandleState D :=
  let r := call (.disposePage f p) s.sys
  { sys := r.2
    pins := s.pins.filter fun pin => !pin.On f p
    released := putAt r.2 s.released f p (filed r.2 f p) }

/-- What an event leaves. -/
def next (s : HandleState D) : CacheEvent D → HandleState D
  | .call (.disposePage f p) =>
    if (s.sys.entry f p).isSome = true then s.dispose f p else s.after (.call (.disposePage f p))
  | e => s.after e

/-- A page is read where that costs its stream nothing, and from a `BlobFile` only if the file has it: the
writes after a short read are lost. -/
def ReadsWhole (s : HandleState D) : CacheEvent D → Prop
  | .call (.readPage f p) => s.sys.entry f p = none → ∀ o, s.sys.objects f = some o →
      o.kind.MayRead (s.sys.streams o.filename) p ∧
        (o.kind = .blob → p < (s.sys.streams o.filename).header.numPages)
  | _ => True

/-- What runs of this kind keep. -/
structure Session (objects : Nat → Option FileObject) (s : HandleState D) : Prop where
  shared : SharedInv s.sys s.pins s.released
  numbered : Numbered objects s.sys

theorem dispose_sys {f p : Nat} {r : Except (Exit Exn) Unit} {t : Sys D}
    (hrun : disposePage f p s.sys = (r, t)) : (s.dispose f p).sys = t := by
  show (call (.disposePage f p) s.sys).2 = t
  rw [call]
  -- The call adds its answer only.
  rcases r with e | a
  · rw [bind_of_error hrun]
  · rw [bind_of_ok hrun]
    rfl

theorem dispose_released {f p : Nat} {r : Except (Exit Exn) Unit} {t : Sys D} {o : FileObject}
    (hrun : disposePage f p s.sys = (r, t)) (ho : t.objects f = some o) :
    (s.dispose f p).released = putPage s.released o.filename p (onDisk t o p) := by
  show putAt (s.dispose f p).sys s.released f p (filed (s.dispose f p).sys f p) = _
  rw [dispose_sys hrun, putAt_object ho, filed_of_object ho]

/-- A page that is in the pool is gone from it, with the pins on it. -/
theorem Session.dispose (h : Session objects s) (hsingle : Single objects) {f p i : Nat} {o : FileObject}
    (ho : s.sys.objects f = some o) (hi : s.sys.entry f p = some i) : Session objects (s.dispose f p) := by
  have halike := hsingle.alike
  obtain ⟨hvalid, rfl, rfl⟩ := h.shared.pinInv.pool.entry f p i hi
  obtain ⟨r, st, -, hrun, horder, hkeep, -⟩ := disposePage_leaves h.shared ho hi
  set t := ((s.sys.dropEntry (s.sys.desc i).file (s.sys.desc i).pageNo).setDesc i BufDesc.clear).setStream
    o.filename st with ht
  have hdiscard : SharedInv t (s.pins.filter fun pin => !pin.On (s.sys.desc i).file (s.sys.desc i).pageNo)
      (putPage s.released o.filename (s.sys.desc i).pageNo
        (o.kind.held (t.streams o.filename) (s.sys.desc i).pageNo)) := by
    apply h.shared.discard hvalid ho _ (h.shared.pinInv.discard hi) _ (h.shared.update_order ho horder)
      (h.shared.update_keep ho hkeep)
    · -- No other object is on the file, so the page is under no other address.
      intro a ha hne
      exact absurd (hsingle a _ o o (h.numbered.live ▸ ha) (h.numbered.live ▸ ho) rfl) hne
    · -- A pin that is left is one on another page.
      intro f' p' hne hun pin hpin hf hp
      apply hun pin _ hf hp
      apply List.mem_filter.mpr
      refine ⟨hpin, ?_⟩
      rw [Bool.not_eq_true', Bool.eq_false_iff]
      intro hon
      rw [Pin.on_iff, hf, hp] at hon
      exact hne hon
  have ho' : t.objects (s.sys.desc i).file = some o := ho
  refine ⟨?_, ?_⟩
  · rw [dispose_released hrun ho', dispose_sys hrun]
    exact hdiscard
  · have hnumbered := call_keeps_numbered hsingle.alike (.disposePage (s.sys.desc i).file
      (s.sys.desc i).pageNo) nofun nofun s.sys h.numbered
    show Numbered objects (call (.disposePage (s.sys.desc i).file (s.sys.desc i).pageNo) s.sys).2
    rcases hr : call (.disposePage (s.sys.desc i).file (s.sys.desc i).pageNo) s.sys with ⟨e | a, u⟩
    · rw [wp_of_error hr] at hnumbered
      exact hnumbered
    · rw [wp_of_ok hr] at hnumbered
      exact hnumbered

/-- No other object is on the file. -/
theorem Session.absentElsewhere (h : Session objects s) (hsingle : Single objects) (f p : Nat) :
    AbsentElsewhere s.sys f p := by
  intro o g ho hg hne
  rw [h.numbered.live] at ho hg
  exact absurd (hsingle g f o o hg ho rfl) hne

theorem Session.cleanElsewhere (h : Session objects s) (hsingle : Single objects) {f p : Nat}
    (hnone : s.sys.entry f p = none) : CleanElsewhere s.sys f p := by
  intro o g j ho hg hj
  -- Under `f` itself it is not in the pool, under other addresses there is no object.
  by_cases hgf : g = f
  · rw [hgf, hnone] at hj
    cases hj
  · rw [h.absentElsewhere hsingle f p o g ho hg hgf] at hj
    cases hj

/-- So every event is orderly but a `disposePage` of a page that is in the pool. -/
theorem Session.orderly (h : Session objects s) (hsingle : Single objects) {e : CacheEvent D}
    (hok : s.Ok e) (hreads : s.ReadsWhole e)
    (hdispose : ∀ f p, e = .call (.disposePage f p) → s.sys.entry f p = none) : s.Orderly e := by
  cases e with
  | call op =>
      cases op with
      | readPage f p =>
          intro hnone
          exact ⟨h.cleanElsewhere hsingle hnone, fun o ho => (hreads hnone o ho).1⟩
      | allocPage f =>
          intro o ho hblob
          have hspec := allocPage_numbered h.shared hsingle.alike h.numbered ho
          constructor
          · -- The new page is under no address: not under that of the call, and the others are not on this file.
            intro r t hr g hg
            rw [wp_of_ok hr] at hspec
            by_cases hgf : g = f
            · rw [hgf]
              exact hspec.2 hblob
            · exact h.absentElsewhere hsingle f r.1 o g ho hg hgf
          · -- Entering it does not throw.
            intro name p i hthrow
            rcases hr : allocPage f s.sys with ⟨e | r, t⟩
            · rw [wp_of_error hr] at hspec
              rw [hr] at hthrow
              exact hspec.2 hblob name p i (Except.error.inj hthrow)
            · rw [hr] at hthrow
              cases hthrow
      | unPinPage f p dirty => trivial
      | flushFile f => trivial
      | disposePage f p =>
          refine ⟨h.absentElsewhere hsingle f p, fun i hi => ?_⟩
          rw [hdispose f p rfl] at hi
          cases hi
  | unPin pin dirty => exact fun _ _ => h.absentElsewhere hsingle _ _
  | write pin page => trivial

/-- However a call ends, the numbers of the pages of blob files are in order. -/
theorem Session.call_numbered (h : Session objects s) (hsingle : Single objects) (op : BufOp)
    (hlive : (s.sys.objects op.file).isSome = true) (hreads : s.ReadsWhole (.call op)) :
    Numbered objects (call op s.sys).2 := by
  obtain ⟨o, ho⟩ := Option.isSome_iff_exists.mp hlive
  have hspec : wp (call op) (fun _ t => Numbered objects t) (fun _ t => Numbered objects t) s.sys := by
    cases op with
    | readPage f p =>
        rw [call, wp_bind]
        exact readPage_keeps_numbered hsingle.alike h.numbered ho fun hnone => (hreads hnone o ho).2
    | allocPage f =>
        rw [call, wp_bind]
        refine wp_mono (allocPage_numbered h.shared hsingle.alike h.numbered ho) ?_ fun _ _ he => he.1
        exact fun _ _ ht => ht.1
    | unPinPage f p dirty =>
        exact call_keeps_numbered hsingle.alike (.unPinPage f p dirty) (by simp) (by simp) s.sys h.numbered
    | flushFile f =>
        exact call_keeps_numbered hsingle.alike (.flushFile f) (by simp) (by simp) s.sys h.numbered
    | disposePage f p =>
        exact call_keeps_numbered hsingle.alike (.disposePage f p) (by simp) (by simp) s.sys h.numbered
  rcases hr : call op s.sys with ⟨e | r, t⟩
  · rw [wp_of_error hr] at hspec
    exact hspec
  · rw [wp_of_ok hr] at hspec
    exact hspec

/-- **Every event keeps the session.** -/
theorem Session.next (h : Session objects s) (hsingle : Single objects) {e : CacheEvent D}
    (hok : s.Ok e ∧ s.ReadsWhole e) : Session objects (s.next e) := by
  obtain ⟨hok, hreads⟩ := hok
  have hkeep : (∀ f p, e = .call (.disposePage f p) → s.sys.entry f p = none) →
      SharedInv (s.after e).sys (s.after e).pins (s.after e).released :=
    fun hdispose => sharedInv_after h.shared ⟨hok, h.orderly hsingle hok hreads hdispose⟩
  cases e with
  | call op =>
      have hnumbered : Numbered objects (s.after (.call op)).sys := h.call_numbered hsingle op hok.1 hreads
      cases op with
      | disposePage f p =>
          -- In the pool or not: only in the first case `next` differs from `after`.
          show Session objects (if (s.sys.entry f p).isSome = true then s.dispose f p
            else s.after (.call (.disposePage f p)))
          split
          · next hsome =>
              obtain ⟨i, hi⟩ := Option.isSome_iff_exists.mp hsome
              obtain ⟨o, ho⟩ := Option.isSome_iff_exists.mp hok.1
              exact h.dispose hsingle ho hi
          · next hnone =>
              refine ⟨hkeep fun f' p' heq => ?_, hnumbered⟩
              cases heq
              exact Option.not_isSome_iff_eq_none.mp hnone
      | readPage f p => exact ⟨hkeep (by simp), hnumbered⟩
      | allocPage f => exact ⟨hkeep (by simp), hnumbered⟩
      | unPinPage f p dirty => exact ⟨hkeep (by simp), hnumbered⟩
      | flushFile f => exact ⟨hkeep (by simp), hnumbered⟩
  | unPin pin dirty =>
      refine ⟨hkeep (by simp), ?_⟩
      have hcall := h.call_numbered hsingle (.unPinPage pin.file pin.pageNo dirty) hok.1 trivial
      show Numbered objects (s.after (.unPin pin dirty)).sys
      rw [after]
      -- Giving back a pin is the call, with a note of what was released.
      rcases hr : call (.unPinPage pin.file pin.pageNo dirty) s.sys with ⟨e | r, t⟩
      · rw [hr] at hcall
        exact hcall
      · rw [hr] at hcall
        dsimp only
        split
        · exact hcall
        · exact hcall
  | write pin page => exact ⟨hkeep (by simp), h.numbered.live, h.numbered.lt⟩

end HandleState

open HandleState

/-- What every run on files in good order keeps, where each file has one object. -/
theorem session_run [PageData D] (kinds : FileName → FileKind) (objects : Nat → Option FileObject)
    (streams : FileName → FStream D) (bufs : Nat) (hbufs : 1 ≤ bufs) (hsingle : Single objects)
    (hkinds : ∀ a o, objects a = some o → o.kind = kinds o.filename)
    (horder : ∀ a o, objects a = some o → o.kind.InOrder (streams o.filename))
    {events : List (CacheEvent D)} {s : HandleState D}
    (h : Run (Run.guarded (fun s e => s.Ok e ∧ s.ReadsWhole e) HandleState.next)
      (HandleState.new kinds objects streams bufs) events s) : Session objects s := by
  apply h.invariant (I := Session objects)
  · -- A new pool is empty.
    refine ⟨sharedInv_new hbufs hkinds horder, rfl, ?_⟩
    intro _ _ _ _ hi
    cases hi
  · rintro s e _ hs ⟨hok, rfl⟩
    exact hs.next hsingle hok

end CS640.Badger.P3.BufMgr
