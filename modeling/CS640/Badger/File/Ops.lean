import CS640.Badger.File.Owned

/-!
# What the operations of a paged file do to its pages

One lemma for each operation of `PageFile` on a file whose ownership is right: what becomes of
`stored`, and that the ownership is right afterwards. Where an operation ends in an exception, or
goes round the used list forever, the file is as it was.

The operations that change the links of the used list walk along it first. `walkFrom_spec` says what such a walk
comes back with, by induction on its fuel: nothing but pages as they are on disk, and an ending that depends on how
it was left. Its users need two things of it: the page that gets a new link is a page in use as it is on disk
(`Relinked`), and the assertion in `allocatePage` holds.

What is written is then compared with `stored`: the new page, the neighbour in the used list and the header are
written one after the other, and only the first of them changes what is stored.
-/

namespace CS640.Badger

open CS640.Lib Prog FStream

variable {D : Type} [PageData D]

/-- An exit of a walk over the used list: it has met a free page, or it never ends. -/
def WalkFails (e : Exit Exn) : Prop := IsInvalidPage e ∨ e = .diverge

namespace FStream

/-- `pg` is a page in use, as it is on disk. -/
def OnDisk (s : FStream D) (pg : Page D) : Prop :=
  (∃ d, s.stored pg.pageNumber = some d) ∧ s.page pg.pageNumber = pg

/-- `pg` is no page, or a page in use, as it is on disk but for its link. -/
def Relinked (s : FStream D) (pg : Page D) : Prop :=
  pg.pageNumber = 0 ∨
    (∃ d, s.stored pg.pageNumber = some d) ∧
      ∃ m, pg = (s.page pg.pageNumber).setNextPageNumber m

variable {s : FStream D} {free : List Nat} {p : Nat} {d : Page D}

omit [PageData D] in
theorem OnDisk.relinked {pg : Page D} (h : s.OnDisk pg) (m : Nat) :
    s.Relinked (pg.setNextPageNumber m) := by
  refine Or.inr ⟨h.1, m, ?_⟩
  rw [Page.pageNumber_setNextPageNumber, h.2]

theorem Owned.onDisk (h : s.Owned free) (hp : s.stored p = some d) : s.OnDisk (s.page p) := by
  obtain ⟨-, -, -, hnum, -⟩ := h.of_stored hp
  unfold OnDisk
  rw [hnum]
  exact ⟨⟨d, hp⟩, rfl⟩

/-- Writing back a relinked page changes nothing that is stored. -/
theorem Owned.putRelinked (h : s.Owned free) {pg : Page D} (hpg : s.Relinked pg)
    (hne : pg.pageNumber ≠ 0) :
    (s.put pg.pageNumber pg).Owned free ∧ (s.put pg.pageNumber pg).stored = s.stored := by
  rcases hpg with h0 | ⟨⟨d, hd⟩, m, hm⟩
  · exact absurd h0 hne
  · refine ⟨h.put hd rfl, ?_⟩
    have hst := stored_put_link h hd m
    rwa [← hm] at hst

end FStream

namespace PageFile

variable {s : FStream D} {free : List Nat} {p : Nat} {d : Page D} (fn : FileName)

/-! ## Reading

A page in use is read, and any other number is refused. A page that is free has the number `0` on disk; number `0`
itself has no page, and is below the number of pages.
-/

theorem readPageAllow_of_holds (h : s.Ready) (hp : s.Holds p) (allow : Bool)
    (hu : allow = true ∨ (s.page p).pageNumber ≠ 0) :
    readPageAllow fn p allow s = (.ok (s.page p), s) := by
  rw [readPageAllow, bind_of_ok (readWholePage_apply h hp)]
  rcases hu with rfl | hu
  · rfl
  · have hu : (s.page p).isUsed = true := Page.isUsed_eq_true.mpr hu
    simp [hu]

/-- A page in use is read as it is on disk. -/
theorem readPage_of_stored (h : s.Owned free) (hp : s.stored p = some d) :
    readPage fn p s = (.ok (s.page p), s) := by
  obtain ⟨hpos, hlt, -, hnum, -⟩ := h.of_stored hp
  rw [readPage, bind_of_ok (readHeader_apply h.ready), if_neg (Nat.not_le.mpr hlt)]
  exact readPageAllow_of_holds fn h.ready (h.holds p hpos hlt) false (Or.inr (by omega))

/-- Any other page number is refused. Number `0` can cost the stream, since nothing was ever
written at its position. -/
theorem readPage_of_not_stored (h : s.Owned free) (hp : s.stored p = none) :
    ∃ s', readPage fn p s = (.error (.throw (.invalidPage p fn)), s') ∧
      (s' = s ∨ p = 0 ∧ s' = s.fail) := by
  -- three cases: beyond the last page, a free page, and number `0` where nothing was ever written
  by_cases hge : s.header.numPages ≤ p
  · refine ⟨s, ?_, Or.inl rfl⟩
    rw [readPage, bind_of_ok (readHeader_apply h.ready), if_pos hge]
    rfl
  have hnum : (s.page p).pageNumber = 0 := stored_eq_none.mp hp (by omega)
  rw [readPage, bind_of_ok (readHeader_apply h.ready), if_neg hge, readPageAllow]
  by_cases hh : s.Holds p
  · refine ⟨s, ?_, Or.inl rfl⟩
    have hu : (s.page p).isUsed = false := Page.isUsed_eq_false.mpr hnum
    rw [bind_of_ok (readWholePage_apply h.ready hh)]
    simp [hu]
  · have h0 : p = 0 := by
      by_contra hne
      exact hh (h.holds p (by omega) (by omega))
    refine ⟨s.fail, ?_, Or.inr ⟨h0, rfl⟩⟩
    have hr : readWholePage p s = (.ok Page.init, s.fail) := by
      have hh : ¬ pagePosition p + pageSize ≤ s.size := hh
      simp [readWholePage, readable, hh]
    have hu : (Page.init : Page D).isUsed = false := rfl
    rw [bind_of_ok hr]
    simp [hu]

/-! ## Walking the used list

`walkFrom` follows the links from a page until its `stop` holds. The invariant is that the page it has met last is
as on disk. A free page in the list ends it by `InvalidPageException`, and a cycle by its fuel.
-/

/-- What a walk from `iter`, with `last` met so far, comes back with. -/
structure WalkEnds (s : FStream D) (stop : Page D → Bool) (iter : Nat) (last : Option (Page D))
    (r : Option (Page D) × Bool) : Prop where
  onDisk : ∀ pg, r.1 = some pg → s.OnDisk pg
  found : r.2 = true → ∃ pg, r.1 = some pg ∧ stop pg = true
  ended : r.2 = false → iter = 0 ∧ r.1 = last ∨
    ∃ pg, r.1 = some pg ∧ stop pg = false ∧ pg.nextPageNumber = 0

theorem walkFrom_spec (h : s.Owned free) (stop : Page D → Bool) :
    ∀ (fuel iter : Nat) (last : Option (Page D)), (∀ pg, last = some pg → s.OnDisk pg) →
      wp (walkFrom fn stop fuel iter last)
        (fun r s' => s' = s ∧ WalkEnds s stop iter last r)
        (fun e s' => s' = s ∧ WalkFails e) s := by
  intro fuel
  -- by induction on the number of links that are followed
  induction fuel with
  | zero =>
      intro iter last _
      exact ⟨rfl, Or.inr rfl⟩
  | succ fuel ih =>
      intro iter last hlast
      rw [walkFrom, wp_ite]
      refine ⟨fun h0 => ⟨rfl, hlast, by simp, fun _ => Or.inl ⟨h0, rfl⟩⟩, fun hne => ?_⟩
      cases hst : s.stored iter with
      | none =>
          -- a free page in the list: reading it throws
          obtain ⟨s', hr, hs'⟩ := readPage_of_not_stored fn h hst
          have hs : s' = s := by
            rcases hs' with hs | ⟨h0, -⟩
            · exact hs
            · exact absurd h0 hne
          rw [wp_bind, wp_of_error hr]
          exact ⟨hs, Or.inl trivial⟩
      | some d =>
          -- a page in use: it is where the walk stops, or the next one follows
          obtain ⟨hpos, hlt, -, -, -⟩ := h.of_stored hst
          rw [wp_bind, wp_of_ok (readPage_of_stored fn h hst), wp_ite]
          have hdisk : ∀ pg, some (s.page iter) = some pg → s.OnDisk pg := by
            rintro _ ⟨⟩
            exact h.onDisk hst
          refine ⟨fun hs => ⟨rfl, hdisk, fun _ => ⟨_, rfl, hs⟩, by simp⟩, fun hs => ?_⟩
          rw [wp_bind, wp_of_ok (readPageHeader_apply h.ready (h.holds iter hpos hlt))]
          refine wp_mono (ih _ _ hdisk) ?_ fun _ _ he => he
          rintro r t ⟨ht, hr⟩
          refine ⟨ht, hr.onDisk, hr.found, fun hf => Or.inr ?_⟩
          rcases hr.ended hf with ⟨h0, hl⟩ | hl
          · exact ⟨_, hl, by simpa using hs, h0⟩
          · exact hl

theorem walk_spec (h : s.Owned free) (stop : Page D → Bool) :
    wp (walk fn stop)
      (fun r s' => s' = s ∧ WalkEnds s stop s.header.firstUsedPage none r)
      (fun e s' => s' = s ∧ WalkFails e) s := by
  rw [walk, wp_bind, wp_of_ok (readHeader_apply h.ready)]
  exact walkFrom_spec fn h stop _ _ _ (by simp)

/-! ## Allocating

The page comes from the free list if there is one, or from the end of the file. In both cases it is put into the
used list behind some page, the neighbour, whose link is written anew.
-/

/-- The page at which a walk was left by its `break`, with another link. -/
theorem WalkEnds.relinked {stop : Page D → Bool} {iter : Nat} {last : Option (Page D)}
    {r : Option (Page D) × Bool} (h : WalkEnds s stop iter last r) (m : Nat) :
    s.Relinked ((if r.2 = true then r.1.getD Page.init else Page.init).setNextPageNumber m) := by
  split
  · next hf =>
      obtain ⟨pg, hpg, -⟩ := h.found hf
      rw [hpg, Option.getD_some]
      exact (h.onDisk pg hpg).relinked m
  · exact Or.inl rfl

theorem insertReused_spec (h : s.Owned free) (hd : FileHeader) (np : Page D) :
    wp (insertReused fn hd np)
      (fun r s' => s' = s ∧ r.1.numPages = hd.numPages ∧ r.1.firstFreePage = hd.firstFreePage ∧
        r.1.numFreePages = hd.numFreePages ∧ r.2.1.contents = np.contents ∧ s.Relinked r.2.2)
      (fun e s' => s' = s ∧ WalkFails e) s := by
  rw [insertReused, wp_ite]
  constructor
  · intro _
    refine ⟨rfl, rfl, rfl, rfl, ?_, Or.inl rfl⟩
    dsimp only
    split <;> rfl
  · intro _
    rw [wp_bind]
    refine wp_mono (walk_spec fn h _) ?_ fun _ _ he => he
    rintro ⟨last, found⟩ t ⟨rfl, hw⟩
    exact ⟨rfl, rfl, rfl, rfl, rfl, hw.relinked _⟩

/-- The assertion of `appendNew` holds: the walk to a page without a successor cannot come to the
end of the list without having met one. -/
theorem appendNew_spec (h : s.Owned free) (hd : FileHeader)
    (hu : hd.firstUsedPage = s.header.firstUsedPage) :
    wp (appendNew fn hd)
      (fun r s' => s' = s ∧ r.1.numPages = hd.numPages + 1 ∧
        r.1.firstFreePage = hd.firstFreePage ∧ r.1.numFreePages = hd.numFreePages ∧
        r.2.1.contents = Page.init.setPageNumber hd.numPages ∧ s.Relinked r.2.2)
      (fun e s' => s' = s ∧ WalkFails e) s := by
  rw [appendNew, wp_ite]
  constructor
  · intro _
    exact ⟨rfl, rfl, rfl, rfl, rfl, Or.inl rfl⟩
  · intro hne
    rw [wp_bind]
    refine wp_mono (walk_spec fn h _) ?_ fun _ _ he => he
    rintro ⟨last, found⟩ t ⟨rfl, hw⟩
    -- a walk that ended has met no page, or a last one without a successor, at which it stops
    have hfound : found = true := by
      by_contra hf
      rcases hw.ended (by simpa using hf) with ⟨h0, -⟩ | ⟨pg, -, hs, h0⟩
      · exact hne (hu.trans h0)
      · simp [h0] at hs
    obtain ⟨pg, hpg, -⟩ := hw.found hfound
    obtain rfl : last = some pg := hpg
    have hused : pg.isUsed = true := by
      obtain ⟨⟨d, hd⟩, hpage⟩ := hw.onDisk pg rfl
      rw [Page.isUsed_eq_true, ← hpage]
      exact (stored_eq_some.mp hd).2.1
    have hrel := hw.relinked t.header.numPages
    rw [wp_bind, wp_assert]
    subst hfound
    refine ⟨fun _ => ⟨rfl, rfl, rfl, rfl, rfl, hw.relinked _⟩, fun hf => ?_⟩
    rw [if_pos rfl, Option.getD_some, hused] at hf
    cases hf

omit [PageData D] in
theorem storeAllocated_apply (h : s.Ready) (hd : FileHeader) (np ep : Page D) :
    storeAllocated hd np ep s = (.ok (np.pageNumber, np),
      (if ep.pageNumber ≠ 0 then (s.put np.pageNumber np).put ep.pageNumber ep
        else s.put np.pageNumber np).setHeader hd) := by
  have h₁ : (s.put np.pageNumber np).Ready := h.put np
  rw [storeAllocated, bind_of_ok (writeWholePage_apply h np.header np)]
  by_cases he : ep.pageNumber = 0
  · simp only [he, ne_eq, not_true_eq_false, if_false]
    exact bind_of_ok (writeHeader_apply h₁ hd)
  · simp only [he, ne_eq, not_false_eq_true, if_true]
    rw [bind_of_ok (writeWholePage_apply h₁ ep.header ep)]
    exact bind_of_ok (writeHeader_apply (h₁.put ep) hd)

/-- `allocatePage` has handed out page `n`. -/
structure Allocated (s : FStream D) (n : Nat) (pg : Page D) (s' : FStream D) : Prop where
  ne_zero : n ≠ 0
  fresh : s.stored n = none
  pageNumber : pg.pageNumber = n
  empty : pg.contents = Page.init.setPageNumber n
  stored : s'.stored = Function.update s.stored n (some (Page.init.setPageNumber n))
  owned : ∃ free, s'.Owned free
  sticky : s'.sticky = s.sticky

/-- The writes of `allocatePage`, once the new page has its place. -/
theorem storeAllocated_spec {n : Nat} {hd : FileHeader} {np ep : Page D} (h : s.Ready)
    (hn : n ≠ 0) (hfresh : s.stored n = none) (hnp : np.contents = Page.init.setPageNumber n)
    (hep : s.Relinked ep) {free' : List Nat} (howned : ((s.put n np).setHeader hd).Owned free')
    (hst : ((s.put n np).setHeader hd).stored = Function.update s.stored n (some np.contents))
    {E : Exit Exn → FStream D → Prop} :
    wp (storeAllocated hd np ep) (fun r s' => Allocated s r.1 r.2 s') E s := by
  have hnum : np.pageNumber = n := by
    rw [← Page.pageNumber_contents, hnp]
    rfl
  rw [wp_of_ok (storeAllocated_apply h hd np ep), hnum]
  rw [hnp] at hst
  -- there is no neighbour, or it gets its new link
  by_cases he : ep.pageNumber = 0
  · simp only [he, ne_eq, not_true_eq_false, if_false]
    exact ⟨hn, hfresh, hnum, hnp, hst, ⟨_, howned⟩, rfl⟩
  · simp only [he, ne_eq, not_false_eq_true, if_true]
    -- the neighbour is another page, so it is still as the walk has read it
    have hne : ep.pageNumber ≠ n := by
      rintro rfl
      rcases hep with h0 | ⟨⟨d, hd⟩, -⟩
      · exact he h0
      · rw [hfresh] at hd
        cases hd
    have hrel : ((s.put n np).setHeader hd).Relinked ep := by
      rcases hep with h0 | ⟨⟨d, hd'⟩, m, hm⟩
      · exact Or.inl h0
      · refine Or.inr ⟨⟨d, ?_⟩, m, ?_⟩
        · rw [hst, Function.update_of_ne hne]
          exact hd'
        · show ep = ((s.put n np).page ep.pageNumber).setNextPageNumber m
          rw [put_page_of_ne np hne]
          exact hm
    obtain ⟨ho, hs⟩ := howned.putRelinked hrel he
    exact ⟨hn, hfresh, hnum, hnp, hs.trans hst, ⟨_, ho⟩, rfl⟩

/-- **`allocatePage` hands out an unused page, empty**, and leaves every other page as it was. -/
theorem allocatePage_spec (h : s.Owned free) :
    wp (allocatePage fn) (fun r s' => Allocated s r.1 r.2 s')
      (fun e s' => s' = s ∧ WalkFails e) s := by
  rw [allocatePage, wp_bind, wp_of_ok (readHeader_apply h.ready), wp_ite]
  constructor
  · -- the free list has a page, which is reused
    intro hpos
    obtain ⟨n, free, rfl⟩ : ∃ n free', free = n :: free' := by
      cases free with
      | nil =>
          have hlen := h.length
          simp only [List.length_nil] at hlen
          omega
      | cons n free => exact ⟨n, free, rfl⟩
    have hfirst : s.header.firstFreePage = n := Seg.head_eq h.chain
    have hn : 0 < n := h.pos_of_mem List.mem_cons_self
    have hlt := h.free_lt n List.mem_cons_self
    have hfree : s.stored n = none :=
      h.stored_eq_none_iff.mpr (Or.inr (Or.inr List.mem_cons_self))
    rw [wp_bind, hfirst, wp_of_ok (readPageAllow_of_holds fn h.ready (h.holds n hn hlt) true
      (Or.inl rfl)), wp_bind]
    refine wp_mono (insertReused_spec fn h _ _) ?_ fun _ _ he => he
    rintro ⟨hd, np, ep⟩ t ⟨rfl, h₁, h₂, h₃, h₄, h₅⟩
    dsimp only at h₁ h₂ h₃ h₄ h₅
    have hnp : np.contents = Page.init.setPageNumber n := by
      rw [h₄, Page.contents_setPageNumber, h.free_page n List.mem_cons_self]
    have hnum : np.pageNumber = n := by
      rw [← Page.pageNumber_contents, hnp]
      rfl
    have howned : ((t.put n np).setHeader hd).Owned free := h.take hnum h₁ h₂ h₃
    have hst : ((t.put n np).setHeader hd).stored =
        Function.update t.stored n (some np.contents) := by
      rw [stored_setHeader (s := t.put n np) h₁]
      exact stored_put hlt (by omega)
    rw [wp_bind, wp_assert]
    constructor
    · intro _
      exact storeAllocated_spec h.ready (by omega) hfree hnp h₅ howned hst
    · -- the assertion: the count of free pages is `0` exactly when the list is empty
      intro hassert
      exfalso
      have hlen := howned.length
      have hchain := howned.chain
      change free.length = hd.numFreePages at hlen
      change Chain _ 0 hd.firstFreePage free at hchain
      cases free with
      | nil =>
          have h0 : hd.firstFreePage = 0 := Seg.eq_of_nil hchain
          simp only [List.length_nil] at hlen
          simp [← hlen, h0] at hassert
      | cons m free =>
          have hm : hd.firstFreePage = m := Seg.head_eq hchain
          have hm0 : m ≠ 0 := Seg.ne_null hchain List.mem_cons_self
          simp only [List.length_cons] at hlen
          simp [← hlen, hm, hm0] at hassert
  · -- no page is free: the file grows by one
    intro hzero
    have hfree : free = [] := List.eq_nil_of_length_eq_zero (by have := h.length; omega)
    subst hfree
    have hfresh : s.stored s.header.numPages = none :=
      h.stored_eq_none_iff.mpr (Or.inr (Or.inl le_rfl))
    rw [wp_bind]
    refine wp_mono (appendNew_spec fn h _ rfl) ?_ fun _ _ he => he
    rintro ⟨hd, np, ep⟩ t ⟨rfl, h₁, h₂, h₃, h₄, h₅⟩
    dsimp only at h₁ h₂ h₃ h₄ h₅
    -- the number of the new page is the old number of pages
    have hn : t.header.numPages ≠ 0 := by have := h.numPages; omega
    have hnum : np.pageNumber = t.header.numPages := by
      rw [← Page.pageNumber_contents, h₄]
      rfl
    exact storeAllocated_spec h.ready hn hfresh h₄ h₅ (h.extend hnum h₁ h₂ h₃)
      (stored_extend hn hnum h₁)

/-! ## Writing and deleting

`writePage` keeps the link that is on disk, so it changes the contents of one page and no list. `deletePage` relinks
the page before the deleted one and puts the page at the head of the free list.
-/

/-- A page in use is written, and keeps the link it has on disk. -/
theorem writePage_of_stored (h : s.Owned free) (hp : s.stored p = some d) (pg : Page D) :
    writePage fn p pg s = (.ok (), s.put p (pg.setNextPageNumber (s.next p))) := by
  obtain ⟨hpos, hlt, -, hnum, -⟩ := h.of_stored hp
  have hne : (s.page p).header.currentPageNumber ≠ invalidNumber := by
    show (s.page p).pageNumber ≠ 0
    omega
  rw [writePage, bind_of_ok (readPageHeader_apply h.ready (h.holds p hpos hlt)), if_neg hne]
  exact writeWholePage_apply h.ready _ pg

/-- Writing a page that is not in use is refused, or goes to a place outside the file. -/
theorem writePage_of_not_stored (h : s.Owned free)
    (hs : s.sticky = true → 0 < p ∧ p < s.header.numPages) (hp : s.stored p = none) {pg : Page D}
    (hn : pg.pageNumber = p) :
    wp (writePage fn p pg)
      (fun _ s' => s'.Owned free ∧ s'.stored = s.stored ∧ s'.sticky = s.sticky ∧
        s'.header = s.header ∧ ∀ q, q ≠ p → s'.page q = s.page q)
      (fun e s' => s' = s ∧ IsInvalidPage e) s := by
  by_cases hout : p = 0 ∨ s.header.numPages ≤ p
  · -- what is read of the page header is no header of this file, or none at all
    have hread : ∃ hd, readPageHeader p s = (.ok hd, s) := by
      unfold readPageHeader
      split
      · exact ⟨_, rfl⟩
      · have hsticky : s.sticky = false := by
          by_contra hcon
          have := hs (by simpa using hcon)
          omega
        rw [fail_of_not_sticky hsticky]
        exact ⟨_, rfl⟩
    obtain ⟨hd, hr⟩ := hread
    rw [writePage, wp_bind, wp_of_ok hr, wp_ite]
    refine ⟨fun _ => ⟨rfl, trivial⟩, fun _ => ?_⟩
    rw [wp_of_ok (writeWholePage_apply h.ready _ pg)]
    have hn : (pg.setNextPageNumber hd.nextPageNumber).pageNumber = p := hn
    obtain ⟨ho, hst⟩ := h.putOutside hout hn
    exact ⟨ho, hst, rfl, rfl, fun q hq => put_page_of_ne _ hq⟩
  · -- a free page: the number in its header is `0`
    have hnum : (s.page p).header.currentPageNumber = invalidNumber :=
      stored_eq_none.mp hp (by omega)
    have hh : s.Holds p := h.holds p (by omega) (by omega)
    rw [writePage, wp_bind, wp_of_ok (readPageHeader_apply h.ready hh), if_pos hnum]
    exact ⟨rfl, trivial⟩

theorem deletePage_of_not_stored (h : s.Owned free) (hp : s.stored p = none) :
    ∃ s', deletePage fn p s = (.error (.throw (.invalidPage p fn)), s') ∧
      (s' = s ∨ p = 0 ∧ s' = s.fail) := by
  obtain ⟨s', hr, hs'⟩ := readPage_of_not_stored fn h hp
  refine ⟨s', ?_, hs'⟩
  rw [deletePage, bind_of_ok (readHeader_apply h.ready)]
  exact bind_of_error hr

theorem unlinkUsed_spec (h : s.Owned free) (hd : FileHeader) (ep : Page D) :
    wp (unlinkUsed fn hd p ep)
      (fun r s' => s' = s ∧ r.1.numPages = hd.numPages ∧ r.1.firstFreePage = hd.firstFreePage ∧
        r.1.numFreePages = hd.numFreePages ∧ s.Relinked r.2)
      (fun e s' => s' = s ∧ WalkFails e) s := by
  rw [unlinkUsed, wp_ite]
  refine ⟨fun _ => ⟨rfl, rfl, rfl, rfl, Or.inl rfl⟩, fun _ => ?_⟩
  rw [wp_bind]
  refine wp_mono (walk_spec fn h _) ?_ fun _ _ he => he
  rintro ⟨last, found⟩ t ⟨rfl, hw⟩
  -- the page before is unused, so nothing is written to it, or it is as on disk
  refine ⟨rfl, rfl, rfl, rfl, ?_⟩
  cases last with
  | none =>
      refine Or.inl ?_
      dsimp only
      split <;> rfl
  | some pg =>
      have hpg : t.OnDisk pg := hw.onDisk pg rfl
      dsimp only [Option.getD_some]
      split
      · exact hpg.relinked _
      · exact hpg.relinked pg.nextPageNumber

/-- **`deletePage` takes a page out of use**, and leaves every other page as it was. -/
theorem deletePage_of_stored (h : s.Owned free) (hp : s.stored p = some d) :
    wp (deletePage fn p)
      (fun _ s' => s'.stored = Function.update s.stored p none ∧ (∃ free', s'.Owned free') ∧
        s'.sticky = s.sticky)
      (fun e s' => s' = s ∧ WalkFails e) s := by
  rw [deletePage, wp_bind, wp_of_ok (readHeader_apply h.ready), wp_bind,
    wp_of_ok (readPage_of_stored fn h hp), wp_bind]
  refine wp_mono (unlinkUsed_spec fn h _ _) ?_ fun _ _ he => he
  rintro ⟨hd, prev⟩ t ⟨rfl, h₁, h₂, h₃, h₄⟩
  dsimp only at h₁ h₂ h₃ h₄ ⊢
  -- what is left to do, from a file that differs from the first one in links only
  have finish : ∀ t' : FStream D, t'.Owned free → t'.stored = t.stored →
      t'.header = t.header → t'.sticky = t.sticky →
      wp (do
          let freePage : Page D := Page.init.setNextPageNumber hd.firstFreePage
          writeWholePage p freePage.header freePage
          writeHeader { hd with firstFreePage := p, numFreePages := hd.numFreePages + 1 })
        (fun _ s' => s'.stored = Function.update t.stored p none ∧ (∃ free', s'.Owned free') ∧
          s'.sticky = t.sticky)
        (fun e s' => s' = t ∧ WalkFails e) t' := by
    intro t' ho hst hhd hsticky
    have hp' : t'.stored p = some d := by rw [hst]; exact hp
    rw [wp_bind, wp_of_ok (writeWholePage_apply ho.ready _ _),
      wp_of_ok (writeHeader_apply (ho.ready.put _) _), h₂, ← hhd]
    refine ⟨?_, ⟨p :: free, ho.release hp' ?_ rfl ?_⟩, hsticky⟩
    · rw [← hst]
      exact stored_release rfl (by rw [hhd]; exact h₁)
    · rw [hhd]; exact h₁
    · rw [hhd]
      show hd.numFreePages + 1 = t.header.numFreePages + 1
      rw [h₃]
  -- the page before the deleted one is written with its new link, if there is one
  by_cases hu : prev.isUsed = true
  · rw [if_pos hu, wp_bind, wp_of_ok (writeWholePage_apply h.ready _ _)]
    obtain ⟨ho, hst⟩ := h.putRelinked h₄ (Page.isUsed_eq_true.mp hu)
    exact finish _ ho hst rfl rfl
  · rw [if_neg hu]
    exact finish t h rfl rfl rfl

end PageFile

end CS640.Badger
