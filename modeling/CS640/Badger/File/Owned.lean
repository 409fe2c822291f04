import CS640.Badger.File.PageFile
import CS640.Lib.Chain

/-!
# Who owns a page of a paged file

`Owned s free` says that the free list of the file is `free`, that it holds exactly the unused pages,
and that every other page carries its own number. It says nothing about the used list: the walks
over that list only ever write back a page they have read, with another link, and a page on the free
list is not one they can read.

`stored s p` is what the file has under the page number `p`. Each operation of `PageFile` has one
lemma here that says what it does to `stored`, in every way it can end.

A file is changed by writing pages and headers, so there is one lemma for each combination of these that the
operations make: a page that stays in use (`put`), one outside the file (`putOutside`), the first free page
(`take`), one more page (`extend`) and a page that is freed (`release`). The free list is a `Chain` through the
links of its pages, and such a chain depends on the links of its own pages alone (`Seg.congr`).
-/

namespace CS640.Badger

open CS640.Lib Prog FStream

variable {D : Type}

namespace FStream

/-- The contents of page `p`, if it is in use. -/
def stored (s : FStream D) (p : Nat) : Option (Page D) :=
  if p < s.header.numPages ∧ (s.page p).pageNumber ≠ 0 then some (s.page p).contents else none

structure Owned [PageData D] (s : FStream D) (free : List Nat) : Prop where
  ready : s.Ready
  numPages : 0 < s.header.numPages
  chain : Chain s.next 0 s.header.firstFreePage free
  length : free.length = s.header.numFreePages
  free_lt : ∀ p ∈ free, p < s.header.numPages
  free_page : ∀ p ∈ free, (s.page p).contents = Page.init
  used_page : ∀ p, 0 < p → p < s.header.numPages → p ∉ free → (s.page p).pageNumber = p
  page_zero : (s.page 0).pageNumber = 0
  holds : ∀ p, 0 < p → p < s.header.numPages → s.Holds p

variable {s : FStream D} {free : List Nat} {p : Nat} {d : Page D}

theorem stored_eq_some : s.stored p = some d ↔
    p < s.header.numPages ∧ (s.page p).pageNumber ≠ 0 ∧ (s.page p).contents = d := by
  unfold stored
  split
  · -- by the test in `stored`
    next h => simp [h]
  · next h =>
      simp only [reduceCtorEq, false_iff]
      rintro ⟨h₁, h₂, -⟩
      exact h ⟨h₁, h₂⟩

theorem stored_eq_none : s.stored p = none ↔
    (p < s.header.numPages → (s.page p).pageNumber = 0) := by
  simp [stored]

theorem stored_put (hlt : p < s.header.numPages) {pg : Page D} (hn : pg.pageNumber ≠ 0) :
    (s.put p pg).stored = Function.update s.stored p (some pg.contents) := by
  funext q
  -- the page that is written, and any other one
  by_cases hq : q = p
  · subst hq
    simp [stored, hlt, hn]
  · simp [stored, put_page_of_ne pg hq, hq]

theorem stored_setHeader {hd : FileHeader} (h : hd.numPages = s.header.numPages) :
    (s.setHeader hd).stored = s.stored := by
  funext q
  simp [stored, setHeader, h]

theorem stored_extend (hn : s.header.numPages ≠ 0) {pg : Page D}
    (hpg : pg.pageNumber = s.header.numPages) {hd : FileHeader}
    (h₁ : hd.numPages = s.header.numPages + 1) :
    ((s.put s.header.numPages pg).setHeader hd).stored =
      Function.update s.stored s.header.numPages (some pg.contents) := by
  funext q
  by_cases hq : q = s.header.numPages
  · subst hq
    simp [stored, setHeader, h₁, hpg, hn]
  · have hlt : q < s.header.numPages + 1 ↔ q < s.header.numPages := by omega
    simp [stored, setHeader, h₁, put_page_of_ne pg hq, hq, hlt]

theorem stored_release {pg : Page D} (hpg : pg.pageNumber = 0) {hd : FileHeader}
    (h₁ : hd.numPages = s.header.numPages) :
    ((s.put p pg).setHeader hd).stored = Function.update s.stored p none := by
  funext q
  by_cases hq : q = p
  · subst hq
    simp [stored, setHeader, hpg]
  · simp [stored, setHeader, h₁, put_page_of_ne pg hq, hq]

variable [PageData D]

namespace Owned

/-! ## Used pages and free pages

The page numbers of a file fall into three kinds: those in use, those on the free list, and those out of range, to
which `0` belongs.
-/

theorem pageNumber_of_mem (h : s.Owned free) (hp : p ∈ free) : (s.page p).pageNumber = 0 := by
  rw [← Page.pageNumber_contents, h.free_page p hp, Page.pageNumber_init]

theorem pos_of_mem (h : s.Owned free) (hp : p ∈ free) : 0 < p :=
  Nat.pos_of_ne_zero (Seg.ne_null h.chain hp)

theorem nodup (h : s.Owned free) : free.Nodup := Chain.nodup h.chain

/-- A page in use is not page `0`, is not free, and carries its number. -/
theorem of_stored (h : s.Owned free) (hp : s.stored p = some d) :
    0 < p ∧ p < s.header.numPages ∧ p ∉ free ∧ (s.page p).pageNumber = p ∧
      (s.page p).contents = d := by
  obtain ⟨hlt, hne, hd⟩ := stored_eq_some.mp hp
  have hpos : 0 < p := by
    -- page `0` has the number 0, so it is not in use
    rcases Nat.eq_zero_or_pos p with rfl | hpos
    · exact absurd h.page_zero hne
    · exact hpos
  have hfree : p ∉ free := fun hmem => hne (h.pageNumber_of_mem hmem)
  exact ⟨hpos, hlt, hfree, h.used_page p hpos hlt hfree, hd⟩

theorem stored_of_not_mem (h : s.Owned free) (hpos : 0 < p) (hlt : p < s.header.numPages)
    (hp : p ∉ free) : s.stored p = some (s.page p).contents := by
  refine stored_eq_some.mpr ⟨hlt, ?_, rfl⟩
  rw [h.used_page p hpos hlt hp]
  exact Nat.ne_of_gt hpos

theorem stored_eq_none_iff (h : s.Owned free) :
    s.stored p = none ↔ p = 0 ∨ s.header.numPages ≤ p ∨ p ∈ free := by
  constructor
  · intro hp
    by_contra hcon
    simp only [not_or, Nat.not_le] at hcon
    obtain ⟨h0, hlt, hmem⟩ := hcon
    rw [h.stored_of_not_mem (Nat.pos_of_ne_zero h0) hlt hmem] at hp
    cases hp
  · -- each of the three kinds has the number 0 on disk
    rintro (rfl | hge | hmem)
    · exact stored_eq_none.mpr fun _ => h.page_zero
    · exact stored_eq_none.mpr fun hlt => absurd hlt (Nat.not_lt.mpr hge)
    · exact stored_eq_none.mpr fun _ => h.pageNumber_of_mem hmem

/-! ## Writing pages and headers

No page of the free list is written here, so its chain is as before.
-/

/-- Writing a page in use, under its number, keeps the ownership. -/
theorem put (h : s.Owned free) {pg : Page D} (hp : s.stored p = some d) (hn : pg.pageNumber = p) :
    (s.put p pg).Owned free := by
  obtain ⟨hpos, hlt, hfree, -, -⟩ := h.of_stored hp
  have hne : ∀ q ∈ free, q ≠ p := fun q hq hqp => hfree (hqp ▸ hq)
  refine
    { ready := h.ready.put pg
      numPages := h.numPages
      chain := h.chain.congr fun q hq => ?_
      length := h.length
      free_lt := h.free_lt
      free_page := fun q hq => ?_
      used_page := fun q hqpos hqlt hqfree => ?_
      page_zero := ?_
      holds := fun q hqpos hqlt => (h.holds q hqpos hqlt).put _ _ }
  · show ((s.put p pg).page q).nextPageNumber = (s.page q).nextPageNumber
    rw [put_page_of_ne pg (hne q hq)]
  · rw [put_page_of_ne pg (hne q hq)]
    exact h.free_page q hq
  · by_cases hqp : q = p
    · subst hqp
      rw [put_page_self, hn]
    · rw [put_page_of_ne pg hqp]
      exact h.used_page q hqpos hqlt hqfree
  · rw [put_page_of_ne pg (Nat.ne_of_lt hpos)]
    exact h.page_zero

/-- Writing outside the file keeps everything as it is, so long as page `0` is not taken for a page
in use. -/
theorem putOutside (h : s.Owned free) (hp : p = 0 ∨ s.header.numPages ≤ p) {pg : Page D}
    (hn : pg.pageNumber = p) : (s.put p pg).Owned free ∧ (s.put p pg).stored = s.stored := by
  have hne : ∀ q, 0 < q → q < s.header.numPages → q ≠ p := by omega
  constructor
  · refine
      { ready := h.ready.put pg
        numPages := h.numPages
        chain := h.chain.congr fun q hq => ?_
        length := h.length
        free_lt := h.free_lt
        free_page := fun q hq => ?_
        used_page := fun q hqpos hqlt hqfree => ?_
        page_zero := ?_
        holds := fun q hqpos hqlt => (h.holds q hqpos hqlt).put _ _ }
    · show ((s.put p pg).page q).nextPageNumber = (s.page q).nextPageNumber
      rw [put_page_of_ne pg (hne q (h.pos_of_mem hq) (h.free_lt q hq))]
    · rw [put_page_of_ne pg (hne q (h.pos_of_mem hq) (h.free_lt q hq))]
      exact h.free_page q hq
    · rw [put_page_of_ne pg (hne q hqpos hqlt)]
      exact h.used_page q hqpos hqlt hqfree
    · -- page `0` itself may be written, by a page with the number 0
      by_cases h0 : p = 0
      · subst h0
        rw [put_page_self, hn]
      · rw [put_page_of_ne pg (Ne.symm h0)]
        exact h.page_zero
  · funext q
    -- the page that is written was none of the file, and is none
    by_cases hq : q = p
    · subst hq
      have hnone : s.stored q = none :=
        h.stored_eq_none_iff.mpr (by omega)
      rw [hnone, stored_eq_none, put_header, put_page_self]
      omega
    · simp [stored, put_page_of_ne pg hq]

end Owned

/-- Writing a page back with another link leaves everything stored as it was. -/
theorem stored_put_link (h : s.Owned free) (hp : s.stored p = some d) (n : Nat) :
    (s.put p ((s.page p).setNextPageNumber n)).stored = s.stored := by
  obtain ⟨hpos, hlt, hfree, hnum, hd⟩ := h.of_stored hp
  have hne : ((s.page p).setNextPageNumber n).pageNumber ≠ 0 := by
    rw [Page.pageNumber_setNextPageNumber, hnum]
    exact Nat.ne_of_gt hpos
  rw [stored_put hlt hne]
  funext q
  by_cases hq : q = p
  · subst hq
    simp [hp, hd]
  · simp [hq]

namespace Owned

/-! ## Taking a page off the free list, adding a page, and freeing one

These change the free list, at its head. The header must be written too, so the lemmas are about both, with what the
header has to say.
-/

theorem take {n : Nat} (h : s.Owned (n :: free)) {pg : Page D} (hn : pg.pageNumber = n)
    {hd : FileHeader} (h₁ : hd.numPages = s.header.numPages)
    (h₂ : hd.firstFreePage = s.next n) (h₃ : hd.numFreePages = s.header.numFreePages - 1) :
    ((s.put n pg).setHeader hd).Owned free := by
  have hpos : 0 < n := h.pos_of_mem List.mem_cons_self
  obtain ⟨hnfree, -⟩ := List.nodup_cons.mp h.nodup
  have hne : ∀ q ∈ free, q ≠ n := fun q hq hqn => hnfree (hqn ▸ hq)
  have hmem : ∀ q ∈ free, q ∈ n :: free := fun q hq => List.mem_cons_of_mem _ hq
  refine
    { ready := (h.ready.put pg).setHeader hd
      numPages := h₁ ▸ h.numPages
      chain := ?_
      length := ?_
      free_lt := fun q hq => h₁ ▸ h.free_lt q (hmem q hq)
      free_page := fun q hq => ?_
      used_page := fun q hqpos hqlt hqfree => ?_
      page_zero := ?_
      holds := fun q hqpos hqlt => (h.holds q hqpos (h₁ ▸ hqlt)).put _ pg }
  · show Chain _ 0 hd.firstFreePage free
    rw [h₂]
    refine h.chain.tail.congr fun q hq => ?_
    show ((s.put n pg).page q).nextPageNumber = (s.page q).nextPageNumber
    rw [put_page_of_ne pg (hne q hq)]
  · have hlen := h.length
    simp only [List.length_cons] at hlen
    show free.length = hd.numFreePages
    omega
  · show ((s.put n pg).page q).contents = Page.init
    rw [put_page_of_ne pg (hne q hq)]
    exact h.free_page q (hmem q hq)
  · show ((s.put n pg).page q).pageNumber = q
    -- the page is in use now, with its own number
    by_cases hqn : q = n
    · subst hqn
      rw [put_page_self, hn]
    · rw [put_page_of_ne pg hqn]
      refine h.used_page q hqpos (h₁ ▸ hqlt) ?_
      simp [hqn, hqfree]
  · show ((s.put n pg).page 0).pageNumber = 0
    rw [put_page_of_ne pg (Nat.ne_of_lt hpos)]
    exact h.page_zero

theorem extend (h : s.Owned free) {pg : Page D} (hn : pg.pageNumber = s.header.numPages)
    {hd : FileHeader} (h₁ : hd.numPages = s.header.numPages + 1)
    (h₂ : hd.firstFreePage = s.header.firstFreePage)
    (h₃ : hd.numFreePages = s.header.numFreePages) :
    ((s.put s.header.numPages pg).setHeader hd).Owned free := by
  have hne : ∀ q ∈ free, q ≠ s.header.numPages := fun q hq => Nat.ne_of_lt (h.free_lt q hq)
  refine
    { ready := (h.ready.put pg).setHeader hd
      numPages := by show 0 < hd.numPages; omega
      chain := ?_
      length := h₃ ▸ h.length
      free_lt := fun q hq => ?_
      free_page := fun q hq => ?_
      used_page := fun q hqpos hqlt hqfree => ?_
      page_zero := ?_
      holds := fun q hqpos hqlt => ?_ }
  · show Chain _ 0 hd.firstFreePage free
    rw [h₂]
    refine h.chain.congr fun q hq => ?_
    show ((s.put _ pg).page q).nextPageNumber = (s.page q).nextPageNumber
    rw [put_page_of_ne pg (hne q hq)]
  · show q < hd.numPages
    have hqlt := h.free_lt q hq
    omega
  · show ((s.put _ pg).page q).contents = Page.init
    rw [put_page_of_ne pg (hne q hq)]
    exact h.free_page q hq
  · show ((s.put _ pg).page q).pageNumber = q
    have hqlt : q < hd.numPages := hqlt
    by_cases hqn : q = s.header.numPages
    · subst hqn
      rw [put_page_self, hn]
    · rw [put_page_of_ne pg hqn]
      exact h.used_page q hqpos (by omega) hqfree
  · show ((s.put _ pg).page 0).pageNumber = 0
    rw [put_page_of_ne pg (Nat.ne_of_lt h.numPages)]
    exact h.page_zero
  · have hqlt : q < hd.numPages := hqlt
    -- the new page fills the end of the file
    by_cases hqn : q = s.header.numPages
    · subst hqn
      exact holds_put_self pg
    · exact (h.holds q hqpos (by omega)).put _ pg

theorem release (h : s.Owned free) (hp : s.stored p = some d) {hd : FileHeader}
    (h₁ : hd.numPages = s.header.numPages) (h₂ : hd.firstFreePage = p)
    (h₃ : hd.numFreePages = s.header.numFreePages + 1) :
    ((s.put p (Page.init.setNextPageNumber s.header.firstFreePage)).setHeader hd).Owned
      (p :: free) := by
  obtain ⟨hpos, hlt, hfree, -, -⟩ := h.of_stored hp
  have hne : ∀ q ∈ free, q ≠ p := fun q hq hqp => hfree (hqp ▸ hq)
  set pg : Page D := Page.init.setNextPageNumber s.header.firstFreePage with hpg
  refine
    { ready := (h.ready.put pg).setHeader hd
      numPages := h₁ ▸ h.numPages
      chain := ?_
      length := ?_
      free_lt := fun q hq => ?_
      free_page := fun q hq => ?_
      used_page := fun q hqpos hqlt hqfree => ?_
      page_zero := ?_
      holds := fun q hqpos hqlt => (h.holds q hqpos (h₁ ▸ hqlt)).put _ pg }
  · show Chain _ 0 hd.firstFreePage (p :: free)
    rw [h₂]
    refine .cons (Nat.ne_of_gt hpos) ?_
    show Chain _ 0 ((s.put p pg).page p).nextPageNumber free
    rw [put_page_self]
    refine h.chain.congr fun q hq => ?_
    show ((s.put p pg).page q).nextPageNumber = (s.page q).nextPageNumber
    rw [put_page_of_ne pg (hne q hq)]
  · have hlen := h.length
    show (p :: free).length = hd.numFreePages
    rw [List.length_cons]
    omega
  · show q < hd.numPages
    rcases List.mem_cons.mp hq with rfl | hq
    · omega
    · have := h.free_lt q hq
      omega
  · show ((s.put p pg).page q).contents = Page.init
    -- the page is free now, or it was before
    rcases List.mem_cons.mp hq with rfl | hq
    · rw [put_page_self, hpg]
      rfl
    · rw [put_page_of_ne pg (hne q hq)]
      exact h.free_page q hq
  · show ((s.put p pg).page q).pageNumber = q
    simp only [List.mem_cons, not_or] at hqfree
    rw [put_page_of_ne pg hqfree.1]
    exact h.used_page q hqpos (h₁ ▸ hqlt) hqfree.2
  · show ((s.put p pg).page 0).pageNumber = 0
    rw [put_page_of_ne pg (Nat.ne_of_lt hpos)]
    exact h.page_zero

end Owned

/-- A new file has no pages, used or free. -/
theorem owned_newStream (sticky : Bool) (hd : FileHeader) (pd : PageHeader) :
    (PageFile.newStream sticky hd pd : FStream D).Owned [] where
  ready := ⟨rfl, Nat.le_refl _⟩
  numPages := Nat.one_pos
  chain := .nil 0
  length := rfl
  free_lt := by simp
  free_page := by simp
  used_page p hpos hlt := by
    have hlt : p < 1 := hlt
    omega
  page_zero := rfl
  holds p hpos hlt := by
    have hlt : p < 1 := hlt
    omega

end FStream

end CS640.Badger
