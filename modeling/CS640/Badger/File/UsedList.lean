import CS640.Badger.File.Ownership
import Mathlib.Data.List.Perm.Subperm

/-!
# The used list of a paged file

Main result: `PageFile.usedList`. As long as no page is allocated while the used list is empty and
two or more pages are free, the used list runs through exactly the pages in use, in increasing order,
so that every walk over it comes to its end.

The one allocation left out is where the code goes wrong: a page taken off the free list keeps its
link, which is overwritten when the page is put before or after another page in use but not when
there is none (`usedList_broken`).

The list is a `Chain` of the library, and a call changes it in one place. The proof finds the place first
(`walk_stops`: a walk over an intact list stops after a prefix without stops), then computes the writes, and then
says what the chain is with these writes. What is stored is known from the module on ownership, so that a run only
has to keep the list of it.

* `walkFrom_of_chain`, `iterateFrom_of_chain`: the two loops over the list end.
* `Placed`: the two ways in which `allocatePage` enters a page. `storeAllocated_placed`: its writes make the list.
* `unlinkUsed_of_linked`: how `deletePage` takes a page out.
* `FileOp.call_linked`: the step lemma of the run.
-/

namespace CS640.Badger

open CS640.Lib Prog FStream

variable {D : Type} [PageData D]

/-- The used list is `used`, it is increasing, and it is the list of the pages in use. -/
structure FStream.Linked (s : FStream D) (used : List Nat) : Prop where
  chain : Chain s.next 0 s.header.firstUsedPage used
  sorted : used.Pairwise (· < ·)
  mem : ∀ p, p ∈ used ↔ ∃ d, s.stored p = some d

namespace PageFile

variable {s : FStream D} {free used : List Nat} {p n : Nat} {d : Page D} (fn : FileName)

/-! ## Walks over an intact list

The loops of the source have no bound of their own. They are modelled with a bound, and a chain is shorter than the
bound since its pages are different and below `numPages` (`length_lt`). So the bound is never reached on an intact
list.
-/

/-- A walk over a chain of used pages ends, at the first page it has to stop at if there is one. -/
theorem walkFrom_of_chain (h : s.Owned free) (stop : Page D → Bool) :
    ∀ (l : List Nat) (fuel iter : Nat) (last : Option (Page D)), Chain s.next 0 iter l →
      (∀ x ∈ l, ∃ d, s.stored x = some d) → l.length < fuel →
      ∃ r, walkFrom fn stop fuel iter last s = (.ok r, s) ∧
        ∀ x, l.find? (fun x => stop (s.page x)) = some x → r = (some (s.page x), true) := by
  intro l
  -- induction on the list, with one round of the loop for each page of it
  induction l with
  | nil =>
      intro fuel iter last hc _ hfuel
      obtain ⟨fuel, rfl⟩ := Nat.exists_eq_succ_of_ne_zero (Nat.ne_of_gt hfuel)
      refine ⟨(last, false), ?_, by simp⟩
      rw [walkFrom, if_pos (Seg.eq_of_nil hc)]
      rfl
  | cons x l ih =>
      intro fuel iter last hc hu hfuel
      obtain ⟨fuel, rfl⟩ : ∃ k, fuel = k + 1 := ⟨fuel - 1, by omega⟩
      obtain rfl := Seg.head_eq hc
      obtain ⟨d, hd⟩ := hu iter List.mem_cons_self
      obtain ⟨hpos, hlt, -, -, -⟩ := h.of_stored hd
      rw [walkFrom, if_neg (Nat.ne_of_gt hpos), bind_of_ok (readPage_of_stored fn h hd)]
      -- the walk stops here, or it goes on with the rest of the list
      by_cases hs : stop (s.page iter) = true
      · refine ⟨(some (s.page iter), true), ?_, ?_⟩
        · rw [if_pos hs]
          rfl
        · intro x hx
          rw [List.find?_cons_of_pos (p := fun x => stop (s.page x)) hs] at hx
          cases hx
          rfl
      · rw [if_neg hs, bind_of_ok (readPageHeader_apply h.ready (h.holds iter hpos hlt)),
          List.find?_cons_of_neg (p := fun x => stop (s.page x)) hs]
        apply ih
        · exact hc.tail
        · exact fun x hx => hu x (List.mem_cons_of_mem _ hx)
        · simpa using hfuel

theorem length_lt (h : s.Owned free) (hl : s.Linked used) : used.length < s.header.numPages + 1 := by
  have hsub : used ⊆ List.range s.header.numPages := by
    intro p hp
    obtain ⟨d, hd⟩ := (hl.mem p).mp hp
    exact List.mem_range.mpr (h.of_stored hd).2.1
  have := (List.subperm_of_subset (Chain.nodup hl.chain) hsub).length_le
  simp at this
  omega

theorem walk_of_linked (h : s.Owned free) (hl : s.Linked used) (stop : Page D → Bool) :
    ∃ r, walk fn stop s = (.ok r, s) ∧
      ∀ x, used.find? (fun x => stop (s.page x)) = some x → r = (some (s.page x), true) := by
  rw [walk, bind_of_ok (readHeader_apply h.ready)]
  exact walkFrom_of_chain fn h stop used _ _ _ hl.chain (fun x hx => (hl.mem x).mp hx)
    (length_lt h hl)

/-- A walk that has to stop somewhere in the list stops after a prefix without stops. -/
theorem walk_stops (h : s.Owned free) (hl : s.Linked used) (stop : Page D → Bool)
    (hstop : ∃ x ∈ used, stop (s.page x) = true) :
    ∃ l₁ x l₂, used = l₁ ++ x :: l₂ ∧ stop (s.page x) = true ∧
      (∀ y ∈ l₁, stop (s.page y) = false) ∧ walk fn stop s = (.ok (some (s.page x), true), s) := by
  obtain ⟨r, hr, hfind⟩ := walk_of_linked fn h hl stop
  cases hf : used.find? (fun x => stop (s.page x)) with
  | none =>
      obtain ⟨x, hx, hs⟩ := hstop
      exact absurd hs (List.find?_eq_none.mp hf x hx)
  | some x =>
      obtain ⟨hs, l₁, l₂, hsplit, hl₁⟩ := List.find?_eq_some_iff_append.mp hf
      refine ⟨l₁, x, l₂, hsplit, hs, ?_, ?_⟩
      · intro y hy
        simpa using hl₁ y hy
      · rw [hr, hfind x hf]

theorem iterateFrom_of_chain (h : s.Owned free) :
    ∀ (l : List Nat) (fuel iter : Nat), Chain s.next 0 iter l →
      (∀ x ∈ l, ∃ d, s.stored x = some d) → l.length < fuel →
      iterateFrom fn fuel iter s = (.ok (l.map s.page), s) := by
  intro l
  induction l with
  | nil =>
      intro fuel iter hc _ hfuel
      obtain ⟨fuel, rfl⟩ := Nat.exists_eq_succ_of_ne_zero (Nat.ne_of_gt hfuel)
      rw [iterateFrom, if_pos (Seg.eq_of_nil hc)]
      rfl
  | cons x l ih =>
      intro fuel iter hc hu hfuel
      obtain ⟨fuel, rfl⟩ : ∃ k, fuel = k + 1 := ⟨fuel - 1, by omega⟩
      obtain rfl := Seg.head_eq hc
      obtain ⟨d, hd⟩ := hu iter List.mem_cons_self
      obtain ⟨hpos, hlt, -, -, -⟩ := h.of_stored hd
      have hrest := ih fuel (s.page iter).header.nextPageNumber hc.tail
        (fun x hx => hu x (List.mem_cons_of_mem _ hx)) (by simpa using hfuel)
      rw [iterateFrom, if_neg (Nat.ne_of_gt hpos), bind_of_ok (readPage_of_stored fn h hd),
        bind_of_ok (readPageHeader_apply h.ready (h.holds iter hpos hlt)), bind_of_ok hrest]
      rfl

/-! ## Putting a page into the list

`allocatePage` writes up to two pages and the header. What they are to be is settled by one of two functions, for a
page from the free list and for a new one, and both leave it in the form of `Placed`.
-/

/-- The new page `np`, with number `n`, and the page before it `ep`, as they are to be written with
the file header `hd` for the used list to become `used'`. -/
inductive Placed (s : FStream D) (used : List Nat) (n : Nat) (hd : FileHeader) (np : Page D) :
    Page D → List Nat → Prop
  | first {ep : Page D} : hd.firstUsedPage = n → np.nextPageNumber = s.header.firstUsedPage →
      ep.pageNumber = 0 → Placed s used n hd np ep (n :: used)
  | after {l₁ l₂ : List Nat} {x : Nat} : used = l₁ ++ x :: l₂ →
      hd.firstUsedPage = s.header.firstUsedPage → np.nextPageNumber = s.next x →
      Placed s used n hd np ((s.page x).setNextPageNumber n) (l₁ ++ x :: n :: l₂)

omit [PageData D] in
theorem Placed.mem {hd : FileHeader} {np ep : Page D} {used' : List Nat}
    (h : Placed s used n hd np ep used') : ∀ p, p ∈ used' ↔ p = n ∨ p ∈ used := by
  intro p
  cases h with
  | first => exact List.mem_cons
  | after hu =>
      subst hu
      simp only [List.mem_append, List.mem_cons]
      tauto

/-- The writes of `allocatePage` make the used list what it is to be. -/
theorem storeAllocated_placed (h : s.Owned free) (hl : s.Linked used) {hd : FileHeader}
    {np ep : Page D} {used' : List Nat} (hn : n ≠ 0) (hfresh : n ∉ used)
    (hnp : np.pageNumber = n) (hp : Placed s used n hd np ep used')
    {E : Exit Exn → FStream D → Prop} :
    wp (storeAllocated hd np ep)
      (fun r t => r.1 = n ∧ Chain t.next 0 t.header.firstUsedPage used') E s := by
  rw [wp_of_ok (storeAllocated_apply h.ready hd np ep), hnp]
  refine ⟨rfl, ?_⟩
  have hput : ∀ y ∈ used, ((s.put n np).page y) = s.page y := by
    intro y hy
    apply put_page_of_ne
    intro hyn
    exact hfresh (hyn ▸ hy)
  -- the new page first, or behind page `x`, which is written too
  cases hp with
  | first hhd hnext hep =>
      simp only [hep, ne_eq, not_true_eq_false, if_false]
      show Chain (s.put n np).next 0 hd.firstUsedPage (n :: used)
      rw [hhd]
      refine .cons hn ?_
      show Chain _ 0 ((s.put n np).page n).nextPageNumber used
      rw [put_page_self, hnext]
      apply hl.chain.congr
      intro y hy
      show ((s.put n np).page y).nextPageNumber = _
      rw [hput y hy]
      rfl
  | @after l₁ l₂ x hu hhd hnext =>
      have hx : x ∈ used := by simp [hu]
      obtain ⟨d, hd'⟩ := (hl.mem x).mp hx
      obtain ⟨hpos, -, -, hnum, -⟩ := h.of_stored hd'
      have hnx : n ≠ x := by
        rintro rfl
        exact hfresh hx
      have hep : ((s.page x).setNextPageNumber n).pageNumber = x := hnum
      rw [hep, if_pos (Nat.ne_of_gt hpos)]
      set t := (s.put n np).put x ((s.page x).setNextPageNumber n) with ht
      show Chain t.next 0 hd.firstUsedPage _
      rw [hhd]
      have hc := hl.chain
      rw [hu] at hc
      apply hc.link hn
      · show (t.page x).nextPageNumber = n
        rw [ht, put_page_self]
        rfl
      · show (t.page n).nextPageNumber = s.next x
        rw [ht, put_page_of_ne _ hnx, put_page_self, hnext]
      · -- all other links are as they were
        intro y hy
        have hyx : y ≠ x := by
          rintro rfl
          have hnd := Chain.nodup hc
          simp only [List.nodup_append, List.nodup_cons, List.mem_append, List.mem_cons] at hnd hy
          grind
        have hyu : y ∈ used := by
          rw [hu]
          simp only [List.mem_append, List.mem_cons] at hy ⊢
          tauto
        show (t.page y).nextPageNumber = (s.page y).nextPageNumber
        rw [ht, put_page_of_ne _ hyx, hput y hyu]

/-- A list that is increasing stays so when `n` is put between the numbers below it and the numbers
above it. -/
theorem sorted_insert {l₁ l₂ : List Nat} {x : Nat} (h : (l₁ ++ x :: l₂).Pairwise (· < ·))
    (hx : x < n) (hl₂ : l₂ = [] ∨ n < l₂.headD 0) :
    (l₁ ++ x :: n :: l₂).Pairwise (· < ·) := by
  have hn : ∀ y ∈ l₂, n < y := by
    intro y hy
    -- the numbers behind the place are at least the one at its end
    cases l₂ with
    | nil => simp at hy
    | cons z l₂ =>
        have hz : n < z := by simpa using hl₂
        have hs := (List.pairwise_append.mp h).2.1
        simp only [List.pairwise_cons] at hs
        rcases List.mem_cons.mp hy with rfl | hy
        · exact hz
        · exact Nat.lt_trans hz (hs.2.1 y hy)
  simp only [List.pairwise_append, List.pairwise_cons, List.mem_cons] at h ⊢
  obtain ⟨h₁, ⟨hx₂, h₂⟩, h₁₂⟩ := h
  refine ⟨h₁, ⟨?_, hn, h₂⟩, ?_⟩
  · rintro y (rfl | hy)
    · exact hx
    · exact hx₂ y hy
  · rintro a ha b (rfl | rfl | hb)
    · exact h₁₂ a ha b (Or.inl rfl)
    · exact Nat.lt_trans (h₁₂ a ha x (Or.inl rfl)) hx
    · exact h₁₂ a ha b (Or.inr hb)

omit [PageData D] in
/-- The last page of the list has no successor. -/
theorem exists_last (hl : s.Linked used) (hne : s.header.firstUsedPage ≠ 0) :
    ∃ x ∈ used, (s.page x).nextPageNumber = 0 := by
  obtain ⟨l, rfl, -⟩ := Chain.exists_cons hl.chain hne
  obtain ⟨l₀, x, hx⟩ := List.eq_nil_or_concat' (s.header.firstUsedPage :: l) |>.resolve_left
    (List.cons_ne_nil _ _)
  have hc := hl.chain
  rw [hx] at hc ⊢
  exact ⟨x, by simp, Chain.next_eq hc⟩

/-- The first branch finds the place of a page taken off the free list, unless there is no page in
use and the page still has a link. -/
theorem insertReused_placed (h : s.Owned free) (hl : s.Linked used) (hd : FileHeader) (np : Page D)
    (hd₁ : hd.firstUsedPage = s.header.firstUsedPage) (hfresh : np.pageNumber ∉ used)
    (hlink : s.header.firstUsedPage = 0 → np.nextPageNumber = 0) :
    ∃ hd' np' ep used', insertReused fn hd np s = (.ok (hd', np', ep), s) ∧
      Placed s used np.pageNumber hd' np' ep used' ∧ used'.Pairwise (· < ·) := by
  rw [insertReused, hd₁]
  -- no page is in use, or the new one comes before the first
  by_cases hcond : s.header.firstUsedPage = invalidNumber ∨ s.header.firstUsedPage > np.pageNumber
  · rw [if_pos hcond]
    refine ⟨_, _, _, _, rfl, .first rfl ?_ rfl, ?_⟩
    · split
      · rfl
      · rcases hcond with h0 | hgt
        · rw [hlink h0, h0]
        · contradiction
    · refine List.pairwise_cons.mpr ⟨?_, hl.sorted⟩
      intro y hy
      -- everything in the list comes after the first page
      have hne : s.header.firstUsedPage ≠ 0 := by
        intro h0
        have hc := hl.chain
        rw [h0] at hc
        rw [Chain.eq_nil_of_null hc] at hy
        cases hy
      have hgt : np.pageNumber < s.header.firstUsedPage := by
        rcases hcond with h0 | hgt
        · exact absurd h0 hne
        · exact hgt
      obtain ⟨l, rfl, -⟩ := Chain.exists_cons hl.chain hne
      rcases List.mem_cons.mp hy with rfl | hy
      · exact hgt
      · exact Nat.lt_trans hgt ((List.pairwise_cons.mp hl.sorted).1 y hy)
  · -- the walk stops at the last page whose successor is not below the new one, or at the end
    rw [if_neg hcond]
    obtain ⟨hne, hle⟩ := not_or.mp hcond
    obtain ⟨z, hz, hz0⟩ := exists_last hl hne
    obtain ⟨l₁, x, l₂, rfl, hstop, hbefore, hwalk⟩ := walk_stops fn h hl
      (fun page => decide (page.nextPageNumber > np.pageNumber) ||
        page.nextPageNumber == invalidNumber) ⟨z, hz, by simp [hz0]⟩
    rw [bind_of_ok hwalk]
    have hnext : s.next x = l₂.headD 0 := Chain.next_eq hl.chain
    have hxn : x ≠ np.pageNumber := by
      rintro rfl
      simp at hfresh
    refine ⟨_, _, _, _, rfl, .after rfl hd₁ rfl, sorted_insert hl.sorted ?_ ?_⟩
    · -- the page before it comes first, or after a page at which the walk did not stop
      rcases Chain.head_or_next hl.chain with ⟨-, rfl⟩ | ⟨l₀, y, rfl, hy⟩
      · omega
      · have hyn := hbefore y (by simp)
        have hyx : (s.page y).nextPageNumber = x := hy
        simp [hyx] at hyn
        omega
    · have hx : (s.page x).nextPageNumber = l₂.headD 0 := hnext
      simp [hx] at hstop
      cases l₂ with
      | nil => exact Or.inl rfl
      | cons z l₂ =>
          have hz : z ≠ 0 := Seg.ne_null hl.chain (by simp)
          right
          simpa [hz] using hstop

/-- The other branch puts the new page at the end. -/
theorem appendNew_placed (h : s.Owned free) (hl : s.Linked used) :
    ∃ hd np ep used', appendNew fn s.header s = (.ok (hd, np, ep), s) ∧
      np.pageNumber = s.header.numPages ∧
      Placed s used s.header.numPages hd np ep used' ∧ used'.Pairwise (· < ·) := by
  have hlt : ∀ y ∈ used, y < s.header.numPages := by
    intro y hy
    obtain ⟨d, hd⟩ := (hl.mem y).mp hy
    exact (h.of_stored hd).2.1
  rw [appendNew]
  by_cases h0 : s.header.firstUsedPage = invalidNumber
  · rw [if_pos h0]
    have hc := hl.chain
    rw [show s.header.firstUsedPage = 0 from h0] at hc
    obtain rfl := Chain.eq_nil_of_null hc
    refine ⟨_, _, _, _, rfl, rfl, .first rfl ?_ rfl, List.pairwise_singleton _ _⟩
    rw [h0]
    rfl
  · -- pages are in use, and the walk stops at the last of them
    rw [if_neg h0]
    obtain ⟨z, hz, hz0⟩ := exists_last hl h0
    obtain ⟨l₁, x, l₂, rfl, hstop, -, hwalk⟩ := walk_stops fn h hl
      (fun page => page.nextPageNumber == invalidNumber) ⟨z, hz, by simp [hz0]⟩
    have hx0 : (s.page x).nextPageNumber = 0 := by simpa using hstop
    have hl₂ : l₂ = [] := by
      cases l₂ with
      | nil => rfl
      | cons z l₂ =>
          have hxz : s.next x = z := Chain.next_eq hl.chain
          exact absurd (hxz.symm.trans hx0) (Seg.ne_null hl.chain (by simp))
    subst hl₂
    obtain ⟨d, hd⟩ := (hl.mem x).mp (by simp)
    have hused : (s.page x).isUsed = true := Page.isUsed_eq_true.mpr (stored_eq_some.mp hd).2.1
    rw [bind_of_ok hwalk]
    refine ⟨{ s.header with numPages := s.header.numPages + 1 },
      Page.init.setPageNumber s.header.numPages, _, _, ?_, rfl, .after rfl rfl hx0.symm,
      sorted_insert hl.sorted (hlt x (by simp)) (Or.inl rfl)⟩
    dsimp only [if_true, Option.getD_some]
    rw [if_pos rfl, hused]
    rfl

/-- `allocatePage` may be called: if there is no page in use, at most one page is free. -/
def ListsApart (s : FStream D) : Prop :=
  s.header.firstUsedPage ≠ 0 ∨ s.header.numFreePages ≤ 1

/-- **`allocatePage` keeps the used list intact.** -/
theorem allocatePage_linked (h : s.Owned free) (hl : s.Linked used) (hapart : ListsApart s) :
    wp (allocatePage fn)
      (fun r t => ∃ used', Chain t.next 0 t.header.firstUsedPage used' ∧ used'.Pairwise (· < ·) ∧
        ∀ p, p ∈ used' ↔ p = r.1 ∨ p ∈ used)
      (fun e _ => e = .abort) s := by
  have hstore : ∀ {n : Nat} {hd : FileHeader} {np ep : Page D} {used' : List Nat}, n ≠ 0 →
      n ∉ used → np.pageNumber = n → Placed s used n hd np ep used' → used'.Pairwise (· < ·) →
      wp (storeAllocated hd np ep)
        (fun r t => ∃ used', Chain t.next 0 t.header.firstUsedPage used' ∧
          used'.Pairwise (· < ·) ∧ ∀ p, p ∈ used' ↔ p = r.1 ∨ p ∈ used)
        (fun e _ => e = .abort) s := by
    -- once the place is known, it is for the two functions only to have found it
    intro n hd np ep used' hn hfresh hnp hp hs
    refine wp_mono (storeAllocated_placed h hl hn hfresh hnp hp) ?_ fun _ _ he => he
    rintro r t ⟨rfl, hc⟩
    exact ⟨used', hc, hs, hp.mem⟩
  have hnot : ∀ {n : Nat}, s.stored n = none → n ∉ used := by
    intro n hn hmem
    obtain ⟨d, hd⟩ := (hl.mem n).mp hmem
    rw [hn] at hd
    cases hd
  rw [allocatePage, wp_bind, wp_of_ok (readHeader_apply h.ready), wp_ite]
  constructor
  · -- a page of the free list is taken; it must not come with a link to another free page
    intro hpos
    obtain ⟨n, free, rfl⟩ : ∃ n free', free = n :: free' := by
      cases free with
      | nil =>
          have hlen := h.length
          simp only [List.length_nil] at hlen
          omega
      | cons n free => exact ⟨n, free, rfl⟩
    have hfirst : s.header.firstFreePage = n := Seg.head_eq h.chain
    have hn : 0 < n := h.pos_of_mem List.mem_cons_self
    have hlt := h.free_lt n List.mem_cons_self
    have hfree : s.stored n = none :=
      h.stored_eq_none_iff.mpr (Or.inr (Or.inr List.mem_cons_self))
    -- a page that has a link to another free page must not be the only page in use
    have hlink : s.header.firstUsedPage = 0 → ((s.page n).setPageNumber n).nextPageNumber = 0 := by
      intro h0
      have hlen := h.length
      rcases hapart with hne | hle
      · exact absurd h0 hne
      · obtain rfl : free = [] := by
          apply List.eq_nil_of_length_eq_zero
          simp only [List.length_cons] at hlen
          omega
        have hchain : Chain s.next 0 s.header.firstFreePage ([] ++ [n]) := h.chain
        exact Chain.next_eq hchain
    rw [wp_bind, hfirst, wp_of_ok (readPageAllow_of_holds fn h.ready (h.holds n hn hlt) true
      (Or.inl rfl)), wp_bind]
    obtain ⟨hd', np', ep, used', hr, hp, hs⟩ := insertReused_placed fn h hl
      { s.header with
        firstFreePage := ((s.page n).setPageNumber n).nextPageNumber
        numFreePages := s.header.numFreePages - 1 }
      ((s.page n).setPageNumber n) rfl (hnot hfree) hlink
    rw [wp_of_ok hr, wp_bind, wp_assert]
    have hspec := insertReused_spec fn h
      { s.header with
        firstFreePage := ((s.page n).setPageNumber n).nextPageNumber
        numFreePages := s.header.numFreePages - 1 } ((s.page n).setPageNumber n)
    rw [wp_of_ok hr] at hspec
    have hnum : np'.pageNumber = n := by
      rw [← Page.pageNumber_contents, hspec.2.2.2.2.1]
      rfl
    exact ⟨fun _ => hstore (by omega) (hnot hfree) hnum hp hs, fun _ => rfl⟩
  · -- a new page, with the next number
    intro _
    have hfresh : s.stored s.header.numPages = none :=
      h.stored_eq_none_iff.mpr (Or.inr (Or.inl le_rfl))
    have hn : s.header.numPages ≠ 0 := Nat.ne_of_gt h.numPages
    obtain ⟨hd, np, ep, used', hr, hnum, hp, hs⟩ := appendNew_placed fn h hl
    rw [wp_bind, wp_of_ok hr]
    exact hstore hn (hnot hfresh) hnum hp hs

/-! ## Taking a page out of the list

`deletePage` looks for the page whose link is the number of the one that goes. That there is one, and only one, is
because the list has no repetitions.
-/

/-- What is left of a list without repetitions when `p` is taken out. -/
theorem mem_without {l₁ l₂ : List Nat} (h : (l₁ ++ p :: l₂).Nodup) (q : Nat) :
    q ∈ l₁ ++ l₂ ↔ q ≠ p ∧ q ∈ l₁ ++ p :: l₂ := by
  have hp : p ∉ l₁ ++ l₂ := (List.nodup_middle.mp h).notMem
  constructor
  · intro hq
    refine ⟨?_, ?_⟩
    · rintro rfl
      exact hp hq
    · simp only [List.mem_append, List.mem_cons] at hq ⊢
      tauto
  · rintro ⟨hne, hq⟩
    simp only [List.mem_append, List.mem_cons] at hq ⊢
    tauto

/-- The search of `deletePage` finds the page before `p`. -/
theorem unlinkUsed_of_linked (h : s.Owned free) (hl : s.Linked used) (hp : s.stored p = some d) :
    (∃ l, used = p :: l ∧ unlinkUsed fn s.header p (s.page p) s =
      (.ok ({ s.header with firstUsedPage := s.next p }, Page.init), s)) ∨
    ∃ l₁ x l₂, used = l₁ ++ x :: p :: l₂ ∧ unlinkUsed fn s.header p (s.page p) s =
      (.ok (s.header, (s.page x).setNextPageNumber (s.next p)), s) := by
  obtain ⟨l₁, l₂, hu⟩ := List.append_of_mem ((hl.mem p).mpr ⟨d, hp⟩)
  obtain ⟨hpos, -, -, hnum, -⟩ := h.of_stored hp
  have hc := hl.chain
  rw [hu] at hc
  rw [unlinkUsed]
  -- the page is the first one, or some page has a link to it
  rcases Chain.head_or_next hc with ⟨rfl, hfirst⟩ | ⟨l₀, y, rfl, hy⟩
  · refine Or.inl ⟨l₂, hu, ?_⟩
    rw [if_pos hfirst]
    rfl
  · right
    have hne : p ≠ s.header.firstUsedPage := by
      -- otherwise the list would come back to its first page
      intro hpf
      have hc' : Chain s.next 0 p (p :: l₂) := Chain.drop hc
      rw [hpf] at hc'
      have := congrArg List.length (Chain.unique hc hc')
      simp at this
      omega
    obtain ⟨l₁, x, l₂, hu', hstop, -, hwalk⟩ := walk_stops fn h hl
      (fun page => page.nextPageNumber == (s.page p).pageNumber)
      ⟨y, by simp [hu], by
        have hy : (s.page y).nextPageNumber = p := hy
        simp [hnum, hy]⟩
    have hxp : s.next x = p := by
      have := beq_iff_eq.mp hstop
      rw [hnum] at this
      exact this
    have hc' := hl.chain
    rw [hu'] at hc'
    obtain ⟨l₃, rfl⟩ : ∃ l₃, l₂ = p :: l₃ := by
      have hhead := Chain.next_eq hc'
      cases l₂ with
      | nil =>
          rw [hxp] at hhead
          simp at hhead
          omega
      | cons z l₂ => exact ⟨l₂, by rw [← hxp, hhead]; rfl⟩
    refine ⟨l₁, x, l₃, hu', ?_⟩
    rw [if_neg hne, bind_of_ok hwalk]
    rfl

/-- **`deletePage` keeps the used list intact**, and finds its way. -/
theorem deletePage_linked (h : s.Owned free) (hl : s.Linked used) (hp : s.stored p = some d) :
    ∃ t, deletePage fn p s = (.ok (), t) ∧ ∃ used', Chain t.next 0 t.header.firstUsedPage used' ∧
      used'.Pairwise (· < ·) ∧ ∀ q, q ∈ used' ↔ q ≠ p ∧ q ∈ used := by
  have hnodup := Chain.nodup hl.chain
  rw [deletePage, bind_of_ok (readHeader_apply h.ready), bind_of_ok (readPage_of_stored fn h hp)]
  rcases unlinkUsed_of_linked fn h hl hp with ⟨l, rfl, hr⟩ | ⟨l₁, x, l₂, rfl, hr⟩
  · -- the first page in use: the header takes its link
    rw [bind_of_ok hr]
    have hunused : (Page.init : Page D).isUsed = false := rfl
    dsimp only
    rw [hunused, if_neg Bool.false_ne_true, bind_of_ok (writeWholePage_apply h.ready _ _),
      writeHeader_apply (h.ready.put _) _]
    refine ⟨_, rfl, l, ?_, (List.pairwise_cons.mp hl.sorted).2, ?_⟩
    · refine hl.chain.tail.congr fun y hy => ?_
      have hyp : y ≠ p := by
        rintro rfl
        exact (List.nodup_cons.mp hnodup).1 hy
      show ((s.put p _).page y).nextPageNumber = _
      rw [put_page_of_ne _ hyp]
      rfl
    · have hnodup' : ([] ++ p :: l).Nodup := hnodup
      exact mem_without hnodup'
  · -- a page behind `x`, which takes its link
    rw [bind_of_ok hr]
    obtain ⟨dx, hdx⟩ := (hl.mem x).mp (by simp)
    obtain ⟨hxpos, -, -, hxnum, -⟩ := h.of_stored hdx
    have hused : ((s.page x).setNextPageNumber (s.next p)).isUsed = true := by
      rw [Page.isUsed_eq_true, Page.pageNumber_setNextPageNumber, hxnum]
      omega
    have hsplit : l₁ ++ x :: p :: l₂ = (l₁ ++ [x]) ++ p :: l₂ := by simp
    have hxp : x ≠ p := by
      rintro rfl
      have := (List.nodup_append.mp hnodup).2.1
      simp at this
    dsimp only
    rw [if_pos hused, bind_of_ok (writeWholePage_apply h.ready _ _),
      bind_of_ok (writeWholePage_apply (h.ready.put _) _ _),
      writeHeader_apply ((h.ready.put _).put _) _, Page.pageNumber_setNextPageNumber, hxnum]
    refine ⟨_, rfl, l₁ ++ x :: l₂, ?_, ?_, ?_⟩
    · refine hl.chain.unlink ?_ fun y hy => ?_
      · show (((s.put x _).put p _).page x).nextPageNumber = _
        rw [put_page_of_ne _ hxp, put_page_self]
        rfl
      · have hyp : y ≠ p := by
          rintro rfl
          rw [hsplit] at hnodup
          have := ((mem_without hnodup y).mp (by
            simp only [List.mem_append, List.mem_cons] at hy ⊢
            tauto)).1
          contradiction
        have hyx : y ≠ x := by
          rintro rfl
          have := ((mem_without hnodup y).mp (by
            simp only [List.mem_append, List.mem_cons] at hy ⊢
            tauto)).1
          contradiction
        show (((s.put x _).put p _).page y).nextPageNumber = _
        rw [put_page_of_ne _ hyp, put_page_of_ne _ hyx]
        rfl
    · apply List.Pairwise.sublist _ hl.sorted
      simp
    · intro q
      rw [hsplit] at hnodup ⊢
      rw [← mem_without hnodup q]
      simp

end PageFile

/-! ## Runs

The invariant of a run is that some list is the used list. Reading leaves it, writing leaves every link, and the
other two calls change it as the sections above have it.
-/

/-- The one call after which the used list need not be intact is an allocation that has no page in
use to link the new page to, and a link to another free page in it. -/
def FileOp.KeepsListsApart (s : FStream D) : FileOp D → Prop
  | .allocate => PageFile.ListsApart s
  | _ => True

omit [PageData D] in
@[simp] theorem FileOp.keepsListsApart_withJunk {op : FileOp D} {s : FStream D} {hd : FileHeader}
    {pd : PageHeader} : op.KeepsListsApart (s.withJunk hd pd) ↔ op.KeepsListsApart s := by
  cases op <;> rfl

namespace FileOp

variable {s : FStream D} {free used : List Nat} {v : Version} {fn : FileName}

theorem allocate_linked (h : s.Owned free) (hl : s.Linked used) (hapart : PageFile.ListsApart s) :
    wp ((allocate : FileOp D).call v fn)
      (fun r t => ∃ n pg, r = .allocated n pg ∧ ∃ used',
        Chain t.next 0 t.header.firstUsedPage used' ∧ used'.Pairwise (· < ·) ∧
          ∀ p, p ∈ used' ↔ p = n ∨ p ∈ used)
      (fun e _ => e = .abort) s := by
  have hspec := wp_and (PageFile.allocatePage_linked fn h hl hapart)
    (PageFile.allocatePage_spec fn h)
  cases v with
  | p2 =>
      rw [call, wp_bind, P2.File.allocatePage, wp_bind]
      refine wp_mono hspec ?_ fun _ _ he => he.1
      rintro r t ⟨ht, ha⟩
      refine ⟨_, _, rfl, ?_⟩
      rw [ha.pageNumber]
      exact ht
  | p3 =>
      rw [call, wp_bind]
      exact wp_mono hspec (fun r t ht => ⟨_, _, rfl, ht.1⟩) fun _ _ he => he.1

theorem call_linked (op : FileOp D) (hop : op.WritesOwnNumber) (hapart : op.KeepsListsApart s)
    (hin : s.sticky = true → op.InFile s) (h : s.Owned free) (hl : s.Linked used) :
    wp (op.call v fn) (fun _ t => ∃ used', t.Linked used') (fun _ t => t = s) s := by
  -- what is stored afterwards is known, so it is enough to have a list of those pages
  suffices hlist : wp (op.call v fn) (fun r t => ∃ used',
      Chain t.next 0 t.header.firstUsedPage used' ∧ used'.Pairwise (· < ·) ∧
        ∀ p, p ∈ used' ↔ ∃ d, op.note (.ok r) s.stored p = some d) (fun _ _ => True) s by
    refine wp_mono (wp_and hlist (op.call_spec hop h hin)) ?_ fun _ _ he => he.2
    rintro r t ⟨⟨used', hc, hs, hm⟩, -, -, hst⟩
    refine ⟨used', hc, hs, ?_⟩
    rw [hst]
    exact hm
  -- `allocate` and `delete` change the list, `read` and `write` keep it
  cases op with
  | allocate =>
      refine wp_mono (allocate_linked h hl hapart) ?_ fun _ _ _ => trivial
      rintro _ t ⟨n, pg, rfl, used', hc, hs, hm⟩
      refine ⟨used', hc, hs, fun p => ?_⟩
      rw [hm]
      by_cases hpn : p = n
      · simp [note, hpn]
      · simp [note, hpn, hl.mem]
  | read p =>
      have hsame : ∀ r : FileReply D, ∃ used', Chain s.next 0 s.header.firstUsedPage used' ∧
          used'.Pairwise (· < ·) ∧ ∀ q, q ∈ used' ↔ ∃ d, note (.read p) (.ok r) s.stored q = some d :=
        fun _ => ⟨used, hl.chain, hl.sorted, hl.mem⟩
      rw [call, wp_bind]
      cases hp : s.stored p with
      | some d =>
          rw [wp_of_ok (PageFile.readPage_of_stored fn h hp)]
          exact hsame _
      | none =>
          obtain ⟨t, hr, -⟩ := PageFile.readPage_of_not_stored fn h hp
          rw [wp_of_error hr]
          trivial
  | write p pg =>
      rw [write_call hop, wp_bind]
      cases hp : s.stored p with
      | some d =>
          rw [wp_of_ok (PageFile.writePage_of_stored fn h hp pg)]
          -- the link of the page is the one it had, whatever is written to it
          refine ⟨used, hl.chain.congr fun x _ => ?_, hl.sorted, fun q => ?_⟩
          · by_cases hxp : x = p
            · subst hxp
              show ((s.put x _).page x).nextPageNumber = _
              rw [put_page_self]
              rfl
            · show ((s.put p _).page x).nextPageNumber = _
              rw [put_page_of_ne _ hxp]
              rfl
          · by_cases hqp : q = p
            · simp [note, hqp, hl.mem, hp]
            · simp [note, hqp, hl.mem, hp]
      | none =>
          refine wp_mono (PageFile.writePage_of_not_stored fn h hin hp hop) ?_ fun _ _ _ => trivial
          rintro _ t ⟨-, -, -, hhd, hpage⟩
          -- a page that is not stored is not in the list, so that nothing of the list is written
          refine ⟨used, ?_, hl.sorted, ?_⟩
          · rw [hhd]
            refine hl.chain.congr fun x hx => ?_
            have hxp : x ≠ p := by
              rintro rfl
              obtain ⟨d, hd⟩ := (hl.mem x).mp hx
              rw [hp] at hd
              cases hd
            show (t.page x).nextPageNumber = _
            rw [hpage x hxp]
            rfl
          · simpa [note, hp] using hl.mem
  | delete p =>
      rw [call, wp_bind]
      cases hp : s.stored p with
      | some d =>
          obtain ⟨t, hr, used', hc, hs, hm⟩ := PageFile.deletePage_linked fn h hl hp
          rw [wp_of_ok hr]
          refine ⟨used', hc, hs, fun q => ?_⟩
          rw [hm]
          by_cases hqp : q = p
          · simp [note, hqp]
          · simp [note, hqp, hl.mem]
      | none =>
          obtain ⟨t, hr, -⟩ := PageFile.deletePage_of_not_stored fn h hp
          rw [wp_of_error hr]
          trivial

end FileOp

/-- The used list of the file `fn` is whole in the state `s`: it has the pages in use in ascending order, a
`FileIterator` enumerates them, every walk over the file ends, and allocating and deleting find their way. -/
structure FileState.Intact (v : Version) (fn : FileName) (s : FileState D) : Prop where
  list : ∃ used, Chain s.stream.next 0 s.stream.header.firstUsedPage used ∧
    used.Pairwise (· < ·) ∧ ∀ p, p ∈ used ↔ s.stream.Used p
  iterator : ∀ hd pd, ∃ pages, PageFile.iterate fn (s.stream.withJunk hd pd) =
    (.ok pages, s.stream.withJunk hd pd) ∧ (pages.map Page.pageNumber).Pairwise (· < ·) ∧
      ∀ p, p ∈ pages.map Page.pageNumber ↔ s.stream.Used p
  walks : ∀ hd pd stop, ∃ r, PageFile.walk fn stop (s.stream.withJunk hd pd) =
    (.ok r, s.stream.withJunk hd pd)
  allocate : ∀ hd pd, PageFile.ListsApart s.stream → ∃ r t,
    (FileOp.allocate : FileOp D).call v fn (s.stream.withJunk hd pd) = (.ok r, t)
  delete : ∀ hd pd p, s.stream.Used p → ∃ r t,
    (FileOp.delete p : FileOp D).call v fn (s.stream.withJunk hd pd) = (.ok r, t)

namespace FileState

variable {v : Version} {fn : FileName} {s : FileState D}

omit [PageData D] in
theorem linked_withJunk {s : FStream D} {used : List Nat} (h : s.Linked used) (hd : FileHeader)
    (pd : PageHeader) : (s.withJunk hd pd).Linked used :=
  ⟨h.chain, h.sorted, h.mem⟩

theorem intact_of_linked {used : List Nat} (h : s.Tracked) (hl : s.stream.Linked used) :
    s.Intact v fn := by
  obtain ⟨free, ho⟩ := h.owned
  have hmem : ∀ p, p ∈ used ↔ s.stream.Used p := by
    intro p
    rw [hl.mem, ho.used_iff]
  constructor
  case list => exact ⟨used, hl.chain, hl.sorted, hmem⟩
  case iterator =>
    intro hd pd
    have hnum : (used.map s.stream.page).map Page.pageNumber = used := by
      rw [List.map_map]
      conv_rhs => rw [← List.map_id used]
      apply List.map_congr_left
      intro p hp
      obtain ⟨d, hd'⟩ := (hl.mem p).mp hp
      exact (ho.of_stored hd').2.2.2.1
    refine ⟨used.map s.stream.page, ?_, ?_, ?_⟩
    · rw [PageFile.iterate, bind_of_ok (readHeader_apply ho.withJunk.ready)]
      exact PageFile.iterateFrom_of_chain fn ho.withJunk used _ _ hl.chain
        (fun x hx => (hl.mem x).mp hx) (PageFile.length_lt ho.withJunk (linked_withJunk hl hd pd))
    · rw [hnum]
      exact hl.sorted
    · rw [hnum]
      exact hmem
  case walks =>
    intro hd pd stop
    obtain ⟨r, hr, -⟩ :=
      PageFile.walk_of_linked fn ho.withJunk (linked_withJunk hl hd pd) stop
    exact ⟨r, hr⟩
  case allocate =>
    intro hd pd hapart
    have hlinked : wp (FileOp.allocate.call v fn) _ _ _ :=
      FileOp.allocate_linked ho.withJunk (linked_withJunk hl hd pd) hapart
    have hwp := wp_and hlinked (FileOp.allocate_spec ho.withJunk)
    obtain ⟨r, t, hr, -⟩ := exists_ok_of_wp (wp_mono hwp (fun _ _ h => h) fun e _ he => by
      obtain ⟨rfl, -, he⟩ := he
      rcases he with he | he
      · exact he
      · cases he)
    exact ⟨r, t, hr⟩
  case delete =>
    intro hd pd p hp
    obtain ⟨d, hd'⟩ := ho.used_iff.mp hp
    obtain ⟨t, ht, -⟩ := PageFile.deletePage_linked fn ho.withJunk (linked_withJunk hl hd pd) hd'
    exact ⟨.done, t, bind_of_ok ht⟩

end FileState

/-- The calls after which the used list stays intact. -/
structure FileCall.Orderly (s : FileState D) (c : FileCall D) : Prop where
  ownNumber : c.op.WritesOwnNumber
  apart : c.op.KeepsListsApart s.stream
  inFile : s.stream.sticky = true → c.op.InFile s.stream

namespace PageFile

/-- **The used list is the increasing list of the pages in use**, in every run in which no page is
allocated while none is in use and two or more are free. On an `std::fstream` the run must also keep
from page number `0`, at whose place nothing was ever written. -/
theorem usedList (v : Version) (fn : FileName) (sticky : Bool) {calls : List (FileCall D)}
    {s : FileState D} (h : Run (Run.guarded FileCall.Orderly (FileCall.after v fn))
      (FileState.new sticky) calls s) : s.Intact v fn := by
  have hinv : s.Tracked ∧ ∃ used, s.stream.Linked used := by
    apply h.invariant
    · refine ⟨FileState.tracked_new sticky, [], .nil 0, .nil, ?_⟩
      intro p
      rw [← FileState.tracked_new sticky |>.noted]
      simp [FileState.new]
    · rintro s c _ ⟨hs, used, hl⟩ ⟨hc, rfl⟩
      obtain ⟨free, ho⟩ := hs.owned
      refine ⟨(hs.after hc.ownNumber hc.inFile).1, ?_⟩
      have hspec : wp (c.op.call v fn) _ _ (s.stream.withJunk c.junkHeader c.junkPageHeader) :=
        c.op.call_linked hc.ownNumber (by simpa using hc.apart) (by simpa using hc.inFile)
          ho.withJunk (FileState.linked_withJunk hl _ _)
      unfold FileCall.after
      -- a call that has thrown leaves the stream, and one that has returned leaves a list
      rcases hr : c.result v fn s with ⟨r | r, t⟩
      · have ht : t = _ := (wp_of_error (x := c.op.call v fn) hr).mp hspec
        subst ht
        exact ⟨used, FileState.linked_withJunk hl _ _⟩
      · exact (wp_of_ok (x := c.op.call v fn) hr).mp hspec
  obtain ⟨hs, used, hl⟩ := hinv
  exact FileState.intact_of_linked hs hl

/-- Three pages, the one in the middle deleted and put back into its place. -/
theorem usedList_reuse :
    let calls : List (FileCall CharArea) :=
      [.allocate, .allocate, .allocate, .delete 2, .write 3 ⟨⟨0, 0, 0, 0, 3, 9⟩, fun _ => 7⟩,
        .allocate].map fun op => ⟨op, ⟨0, 0, 0, 0⟩, ⟨0, 0, 0, 0, 5, 0⟩⟩
    let s := calls.foldl (FileCall.after .p3 "f") (FileState.new true)
    s.stream.next 1 = 2 ∧ s.Intact .p3 "f" := by
  refine ⟨rfl, usedList .p3 "f" true (Run.of_allOk ?_)⟩
  exact ⟨⟨trivial, Or.inr (by decide), fun _ => trivial⟩,
    ⟨trivial, Or.inl (by decide), fun _ => trivial⟩,
    ⟨trivial, Or.inl (by decide), fun _ => trivial⟩, ⟨trivial, trivial, fun _ => Nat.succ_ne_zero 1⟩,
    ⟨rfl, trivial, fun _ => ⟨Nat.succ_pos 2, Nat.lt_succ_self 3⟩⟩,
    ⟨trivial, Or.inl (by decide), fun _ => trivial⟩, trivial⟩

/-- Two pages, both deleted, and one allocated: page `2` is in use again, and the used list goes on
from it to page `1`, which is free. -/
theorem usedList_broken :
    let calls : List (FileCall CharArea) :=
      [.allocate, .allocate, .delete 1, .delete 2, .allocate].map
        fun op => ⟨op, ⟨0, 0, 0, 0⟩, ⟨0, 0, 0, 0, 0, 0⟩⟩
    let s := calls.foldl (FileCall.after .p3 "f") (FileState.new true)
    Run (Run.guarded (FileCall.Ok .p3 "f") (FileCall.after .p3 "f")) (FileState.new true) calls s ∧
      ¬ s.Intact .p3 "f" := by
  intro calls s
  constructor
  · exact Run.of_allOk ⟨⟨trivial, trivial⟩, ⟨trivial, trivial⟩, ⟨trivial, trivial⟩,
      ⟨trivial, trivial⟩, ⟨trivial, trivial⟩, trivial⟩
  · -- the chain that the file does have ends at a page that is free
    intro hs
    obtain ⟨used, hc, -, hm⟩ := hs.list
    have hc' : Chain s.stream.next 0 s.stream.header.firstUsedPage [2, 1] :=
      .cons (by decide) (.cons (by decide) (.nil 0))
    have hused : s.stream.Used 1 := by
      rw [← hm, Chain.unique hc hc']
      decide
    have hfree : (s.stream.page 1).isUsed = false := by decide
    rw [hused.2.2] at hfree
    cases hfree

end PageFile

end CS640.Badger
