import CS640.Badger.File.Calls
import CS640.Badger.File.Keep

/-!
# Page numbers that are rejected

`readPage` and `deletePage` reject a page number beyond the file before they touch the stream, and the
number of a free page after they have read it. Neither leaves a trace (`harmless_iff`). Number `0` passes
the check, `pagePosition(0)` wraps around to a position far beyond the end of the file, and the read
that comes back short sets `failbit`: from then on the stream does nothing (`harmless_zero`).

All this holds whatever the calls before were, so nothing is asked of the links in the file: it is enough
that the file holds as many pages as its header says (`Counted`).

The condition is exact. That it is enough is shown by going through `readPage` and `deletePage`: where the bytes of
the page are there, no read comes back short, and a call that throws has come no further than reading
(`readPage_still`, `deletePage_still`). That it is necessary is shown by a later call that can tell: a stream with
`failbit` set answers `allocatePage` with what is on the stack.

* `AllKeep.call`: what all operations of the stream keep, the calls keep.
* `FileOp.call_counted`: `Counted` is kept by every call, whatever it answers.
* `not_harmless_of_failbit`: the call that can tell.
-/

namespace CS640.Badger

open CS640.Lib Prog FStream

variable {D : Type}

namespace FStream

theorem AllKeep.call [PageData D] {I : FStream D → Prop} (h : AllKeep I) (fn : FileName) (v : Version)
    (op : FileOp D) : Keeps I (op.call v fn) := by
  cases op with
  | allocate =>
      cases v with
      | p2 =>
          apply Keeps.bind
          · exact (h.allocatePage fn).bind fun _ => Keeps.pure _
          · exact fun _ => Keeps.pure _
      | p3 => exact (h.allocatePage fn).bind fun _ => Keeps.pure _
  | read p => exact (h.readPage fn p).bind fun _ => Keeps.pure _
  | write p page =>
      cases v with
      | p2 => exact (h.writePageChecked fn _ page).bind fun _ => Keeps.pure _
      | p3 => exact (h.writePageChecked fn p page).bind fun _ => Keeps.pure _
  | delete p => exact (h.deletePage fn p).bind fun _ => Keeps.pure _

/-! ## A stream with `failbit` set

With `failbit` set neither reads nor writes change anything, and what is read is what the stack has. So every call
leaves such a stream as it is.
-/

variable {s t : FStream D} {n m : Nat}

theorem fail_of_failbit (h : s.failbit = true) : s.fail = s := by
  cases s
  simp_all [fail]

/-- It does nothing any more. -/
theorem allKeep_of_failbit [PageData D] (h : s.failbit = true) : AllKeep (· = s) where
  header t ht := by
    subst ht
    simp [wp, readHeader, readable, h, fail_of_failbit h]
  page n t ht := by
    subst ht
    simp [wp, readWholePage, readable, h, fail_of_failbit h]
  pageHeader n t ht := by
    subst ht
    simp [wp, readPageHeader, readable, h, fail_of_failbit h]
  writePage n header page t ht := by
    subst ht
    simp [wp, writeWholePage, h]
  writeHeader header t ht := by
    subst ht
    simp [wp, writeHeader, h]

/-! ## The file holds the pages of its header

`Holding n m` has two numbers, since `allocatePage` writes the page before the header that counts it: between the
two writes the file holds one page more than its header says.
-/

/-- The header says that there are `n` pages. Unless the stream does nothing any more, the file holds
those below `m`. -/
structure Holding (n m : Nat) (s : FStream D) : Prop where
  numPages : s.header.numPages = n
  sticky : s.sticky = true
  size : s.failbit = false → fileHeaderSize ≤ s.size
  holds : s.failbit = false → ∀ p, 0 < p → p < m → s.Holds p

/-- The file holds as many pages as its header says. -/
def Counted (s : FStream D) : Prop := 0 < s.header.numPages ∧ s.Holding s.header.numPages s.header.numPages

theorem Holding.counted (h : s.Holding n n) (hn : 0 < n) : s.Counted := by
  unfold Counted
  rw [h.numPages]
  exact ⟨hn, h⟩

theorem Holding.failbit_fail (h : s.Holding n m) : s.fail.failbit = true := by
  show (s.failbit || s.sticky) = true
  rw [h.sticky, Bool.or_true]

theorem Holding.fail (h : s.Holding n m) : s.fail.Holding n m where
  numPages := h.numPages
  sticky := h.sticky
  size hlive := by
    rw [h.failbit_fail] at hlive
    cases hlive
  holds hlive := by
    rw [h.failbit_fail] at hlive
    cases hlive

theorem Holding.put (h : s.Holding n m) (p : Nat) (pg : Page D) : (s.put p pg).Holding n m where
  numPages := h.numPages
  sticky := h.sticky
  size hlive := (h.size hlive).trans (le_max_left _ _)
  holds hlive q hpos hlt := (h.holds hlive q hpos hlt).put p pg

theorem Holding.of_failbit (h : s.Holding n m) (hdead : s.failbit = true) (k : Nat) : s.Holding n k where
  numPages := h.numPages
  sticky := h.sticky
  size hlive := by
    rw [hdead] at hlive
    cases hlive
  holds hlive := by
    rw [hdead] at hlive
    cases hlive

/-- A read comes back with what it was to read, or it comes back short. -/
theorem readHeader_cases (s : FStream D) : readHeader s = (.ok s.header, s) ∨
    readHeader s = (.ok s.junkHeader, s.fail) := by
  unfold readHeader
  split
  · exact Or.inl rfl
  · exact Or.inr rfl

theorem readPageHeader_cases (s : FStream D) (p : Nat) : readPageHeader p s = (.ok (s.page p).header, s) ∨
    readPageHeader p s = (.ok s.junkPageHeader, s.fail) := by
  unfold readPageHeader
  split
  · exact Or.inl rfl
  · exact Or.inr rfl

theorem writeWholePage_of_failbit (h : s.failbit = true) (p : Nat) (header : PageHeader) (page : Page D) :
    writeWholePage p header page s = (.ok (), s) := by
  unfold writeWholePage
  rw [if_pos h]

theorem writeWholePage_of_live (h : s.failbit = false) (p : Nat) (header : PageHeader) (page : Page D) :
    writeWholePage p header page s = (.ok (), s.put p { page with header := header }) := by
  unfold writeWholePage
  rw [if_neg (by simp [h])]
  rfl

theorem writeWholePage_holding (p : Nat) (header : PageHeader) (page : Page D) (h : s.Holding n m) :
    wp (writeWholePage p header page) (fun _ t => t.Holding n m) (fun _ _ => False) s := by
  cases hlive : s.failbit with
  | true =>
      -- the write does nothing, and nothing is asked of a stream that is dead
      rw [wp_of_ok (writeWholePage_of_failbit hlive p header page)]
      exact h
  | false =>
      rw [wp_of_ok (writeWholePage_of_live hlive p header page)]
      exact h.put p _

/-- One page more. -/
theorem writeWholePage_next (header : PageHeader) (page : Page D) (h : s.Holding n n) :
    wp (writeWholePage n header page) (fun _ t => t.Holding n (n + 1)) (fun _ _ => False) s := by
  cases hlive : s.failbit with
  | true =>
      rw [wp_of_ok (writeWholePage_of_failbit hlive n header page)]
      exact h.of_failbit hlive _
  | false =>
      rw [wp_of_ok (writeWholePage_of_live hlive n header page)]
      have hput : (s.put n { page with header := header }).Holding n n := h.put n _
      refine ⟨hput.numPages, hput.sticky, hput.size, fun hlive p hpos hlt => ?_⟩
      -- the new page is the one that has just been written
      rcases Nat.lt_succ_iff_lt_or_eq.mp hlt with hlt | heq
      · exact hput.holds hlive p hpos hlt
      · rw [heq]
        exact holds_put_self _

/-- The header may be written once the pages are there. -/
theorem writeHeader_counted {header : FileHeader} (hn : 0 < n) (hpos : 0 < header.numPages)
    (h : s.Holding n header.numPages) :
    wp (writeHeader header) (fun _ t => t.Counted) (fun _ _ => False) s := by
  cases hlive : s.failbit with
  | true =>
      have hdead : writeHeader header s = (.ok (), s) := by
        unfold writeHeader
        rw [if_pos hlive]
      rw [wp_of_ok hdead]
      exact (h.of_failbit hlive n).counted hn
  | false =>
      have hwrite : writeHeader header s = (.ok (), s.setHeader header) :=
        writeHeader_apply ⟨hlive, h.size hlive⟩ header
      rw [wp_of_ok hwrite]
      exact Holding.counted ⟨rfl, h.sticky, h.size, h.holds⟩ hpos

variable [PageData D]

theorem readWholePage_cases (s : FStream D) (p : Nat) : readWholePage p s = (.ok (s.page p), s) ∨
    readWholePage p s = (.ok Page.init, s.fail) := by
  unfold readWholePage
  split
  · exact Or.inl rfl
  · exact Or.inr rfl

/-- Reading keeps the pages there. -/
theorem readsKeep_holding (n m : Nat) : ReadsKeep (D := D) (Holding n m) where
  header t ht := by
    rcases readHeader_cases t with h | h
    · rw [wp_of_ok h]
      exact ht
    · rw [wp_of_ok h]
      exact ht.fail
  page p t ht := by
    rcases readWholePage_cases t p with h | h
    · rw [wp_of_ok h]
      exact ht
    · rw [wp_of_ok h]
      exact ht.fail
  pageHeader p t ht := by
    rcases readPageHeader_cases t p with h | h
    · rw [wp_of_ok h]
      exact ht
    · rw [wp_of_ok h]
      exact ht.fail

end FStream

namespace PageFile

variable {s : FStream D} {n m p : Nat} {header : FileHeader} {newPage existingPage page : Page D}
  (fn : FileName)

/-! ### Allocating

The writes come last, and by then it is settled whether the header counts one page more. The functions before them
only read.
-/

/-- Once the new page is there, the header may count it. -/
theorem storeAllocated_counted (hn : 0 < n) (h : s.Holding n n)
    (hcount : header.numPages = n ∨ header.numPages = n + 1 ∧ newPage.pageNumber = n) :
    wp (storeAllocated header newPage existingPage)
      (fun r t => r = (newPage.pageNumber, newPage) ∧ t.Counted) (fun _ _ => False) s := by
  have hpos : 0 < header.numPages := by omega
  have hfirst : wp (writeWholePage newPage.pageNumber newPage.header newPage)
      (fun _ t => t.Holding n header.numPages) (fun _ _ => False) s := by
    -- the page was there already, or it is the next one
    rcases hcount with hsame | ⟨hnext, hnumber⟩
    · rw [hsame]
      exact writeWholePage_holding _ _ _ h
    · rw [hnext, hnumber]
      exact writeWholePage_next _ _ h
  have hlast : ∀ t : FStream D, t.Holding n header.numPages →
      wp (do writeHeader header; pure (newPage.pageNumber, newPage) : Prog Exn (FStream D) (Nat × Page D))
        (fun r t => r = (newPage.pageNumber, newPage) ∧ t.Counted) (fun _ _ => False) t := by
    intro t ht
    rw [wp_bind]
    refine wp_mono (writeHeader_counted hn hpos ht) ?_ fun _ _ he => he
    exact fun _ _ ht => ⟨rfl, ht⟩
  unfold storeAllocated
  rw [wp_bind]
  refine wp_mono hfirst ?_ fun _ _ he => he
  intro _ t ht
  rw [wp_ite]
  refine ⟨fun _ => ?_, fun _ => hlast t ht⟩
  rw [wp_bind]
  refine wp_mono (writeWholePage_holding _ _ _ ht) ?_ fun _ _ he => he
  exact fun _ u hu => hlast u hu

variable [PageData D]

theorem insertReused_holding (header : FileHeader) (newPage : Page D) (h : s.Holding n n) :
    wp (insertReused fn header newPage)
      (fun r t => r.1.numPages = header.numPages ∧ r.2.1.pageNumber = newPage.pageNumber ∧ t.Holding n n)
      (fun _ t => t.Holding n n) s := by
  unfold insertReused
  rw [wp_ite]
  constructor
  · intro _
    refine ⟨rfl, ?_, h⟩
    dsimp only
    split <;> rfl
  · intro _
    rw [wp_bind]
    refine wp_mono ((readsKeep_holding n n).walk fn _ s h) ?_ fun _ _ he => he
    exact fun _ _ ht => ⟨rfl, rfl, ht⟩

theorem appendNew_holding (header : FileHeader) (h : s.Holding n n) :
    wp (appendNew fn header)
      (fun r t => r.1.numPages = header.numPages + 1 ∧ r.2.1.pageNumber = header.numPages ∧ t.Holding n n)
      (fun _ t => t.Holding n n) s := by
  unfold appendNew
  rw [wp_ite]
  refine ⟨fun _ => ⟨rfl, rfl, h⟩, fun _ => ?_⟩
  rw [wp_bind]
  refine wp_mono ((readsKeep_holding n n).walk fn _ s h) ?_ fun _ _ he => he
  intro r t ht
  rw [wp_bind, wp_assert]
  exact ⟨fun _ => ⟨rfl, rfl, ht⟩, fun _ => ht⟩

/-- The new page is the first free one or comes after the last. -/
theorem allocatePage_counted (hready : s.Ready) (hn : 0 < s.header.numPages)
    (h : s.Holding s.header.numPages s.header.numPages) :
    wp (allocatePage fn)
      (fun r t => (r.1 = s.header.firstFreePage ∨ r.1 = s.header.numPages) ∧ r.2.pageNumber = r.1 ∧
        t.Counted)
      (fun _ t => t.Counted) s := by
  unfold allocatePage
  rw [wp_bind, wp_of_ok (readHeader_apply hready), wp_ite]
  constructor
  · -- a page from the free list: the header counts as many pages as before
    intro _
    rw [wp_bind]
    refine wp_mono ((readsKeep_holding _ _).readPageAllow fn _ _ s h) ?_ fun _ _ he => he.counted hn
    intro freePage t ht
    rw [wp_bind]
    refine wp_mono (insertReused_holding fn _ _ ht) ?_ fun _ _ he => he.counted hn
    intro r u hu
    obtain ⟨hcount, hnumber, hu⟩ := hu
    rw [wp_bind, wp_assert]
    refine ⟨fun _ => ?_, fun _ => hu.counted hn⟩
    refine wp_mono (storeAllocated_counted hn hu (Or.inl hcount)) ?_ fun _ _ he => he.elim
    intro r' v hv
    rw [hv.1]
    exact ⟨Or.inl hnumber, rfl, hv.2⟩
  · -- a new page: the header counts one more, and it is there
    intro _
    rw [wp_bind]
    refine wp_mono (appendNew_holding fn _ h) ?_ fun _ _ he => he.counted hn
    intro r t ht
    obtain ⟨hcount, hnumber, ht⟩ := ht
    refine wp_mono (storeAllocated_counted hn ht (Or.inr ⟨hcount, hnumber⟩)) ?_ fun _ _ he => he.elim
    intro r' v hv
    rw [hv.1]
    exact ⟨Or.inr hnumber, rfl, hv.2⟩

/-! ### The other operations

The other operations leave the number of pages as it is.
-/

omit [PageData D] in
theorem writePage_counted (p : Nat) (page : Page D) (hn : 0 < s.header.numPages)
    (h : s.Holding s.header.numPages s.header.numPages) :
    wp (writePage fn p page) (fun _ t => t.Counted) (fun _ t => t.Counted) s := by
  have hread : ∃ header t, readPageHeader p s = (.ok header, t) ∧
      t.Holding s.header.numPages s.header.numPages := by
    rcases readPageHeader_cases s p with hr | hr
    · exact ⟨_, _, hr, h⟩
    · exact ⟨_, _, hr, h.fail⟩
  obtain ⟨header, t, hr, ht⟩ := hread
  unfold writePage
  rw [wp_bind, wp_of_ok hr, wp_ite]
  refine ⟨fun _ => ht.counted hn, fun _ => ?_⟩
  exact wp_mono (writeWholePage_holding _ _ _ ht) (fun _ _ hu => hu.counted hn) fun _ _ he => he.elim

theorem unlinkUsed_holding (header : FileHeader) (p : Nat) (page : Page D) (h : s.Holding n n) :
    wp (unlinkUsed fn header p page)
      (fun r t => r.1.numPages = header.numPages ∧ t.Holding n n) (fun _ t => t.Holding n n) s := by
  unfold unlinkUsed
  rw [wp_ite]
  refine ⟨fun _ => ⟨rfl, h⟩, fun _ => ?_⟩
  rw [wp_bind]
  refine wp_mono ((readsKeep_holding n n).walk fn _ s h) ?_ fun _ _ he => he
  exact fun _ _ ht => ⟨rfl, ht⟩

omit [PageData D] in
/-- The last writes of `deletePage`. -/
theorem storeDeleted_counted (hn : 0 < n) (hcount : header.numPages = n) (h : s.Holding n n) :
    wp (do writeWholePage p page.header page; writeHeader header : Prog Exn (FStream D) Unit)
      (fun _ t => t.Counted) (fun _ _ => False) s := by
  rw [wp_bind]
  refine wp_mono (writeWholePage_holding _ _ _ h) ?_ fun _ _ he => he
  intro _ t ht
  apply writeHeader_counted hn (by omega)
  rw [hcount]
  exact ht

theorem deletePage_counted (p : Nat) (hready : s.Ready) (hn : 0 < s.header.numPages)
    (h : s.Holding s.header.numPages s.header.numPages) :
    wp (deletePage fn p) (fun _ t => t.Counted) (fun _ t => t.Counted) s := by
  unfold deletePage
  rw [wp_bind, wp_of_ok (readHeader_apply hready), wp_bind]
  refine wp_mono ((readsKeep_holding _ _).readPage fn p s h) ?_ fun _ _ he => he.counted hn
  intro existingPage t ht
  rw [wp_bind]
  refine wp_mono (unlinkUsed_holding fn _ p existingPage ht) ?_ fun _ _ he => he.counted hn
  intro r u hu
  obtain ⟨hcount, hu⟩ := hu
  rw [wp_ite]
  -- the page before it, if there is one, is written too
  constructor
  · intro _
    rw [wp_bind]
    refine wp_mono (writeWholePage_holding _ _ _ hu) ?_ fun _ _ he => he.elim
    intro _ v hv
    exact wp_mono (storeDeleted_counted hn hcount hv) (fun _ _ hw => hw) fun _ _ he => he.elim
  · intro _
    exact wp_mono (storeDeleted_counted hn hcount hu) (fun _ _ hw => hw) fun _ _ he => he.elim

end PageFile

/-! ## Every call

`Counted` is what is left of a file in order after calls that may have broken its lists. A stream that does nothing
keeps it as it keeps everything.
-/

namespace FileOp

variable [PageData D] {v : Version} {fn : FileName} {s : FStream D}

theorem call_counted (op : FileOp D) (h : s.Counted) :
    wp (op.call v fn) (fun _ t => t.Counted) (fun _ t => t.Counted) s := by
  obtain ⟨hn, hholding⟩ := h
  cases hlive : s.failbit with
  | true =>
      -- nothing changes, so what was held still is
      apply wp_mono ((allKeep_of_failbit hlive).call fn v op s rfl)
      · intro _ t ht
        rw [ht]
        exact hholding.counted hn
      · intro _ t ht
        rw [ht]
        exact hholding.counted hn
  | false =>
      have hready : s.Ready := ⟨hlive, hholding.size hlive⟩
      cases op with
      | allocate =>
          have hallocate := PageFile.allocatePage_counted fn hready hn hholding
          cases v with
          | p2 =>
              rw [call, P2.File.allocatePage, wp_bind, wp_bind]
              exact wp_mono hallocate (fun _ _ ht => ht.2.2) fun _ _ he => he
          | p3 =>
              rw [call, wp_bind]
              exact wp_mono hallocate (fun _ _ ht => ht.2.2) fun _ _ he => he
      | read p =>
          rw [call, wp_bind]
          exact wp_mono ((readsKeep_holding _ _).readPage fn p s hholding) (fun _ _ ht => ht.counted hn)
            fun _ _ he => he.counted hn
      | write p page =>
          cases v with
          | p2 =>
              rw [call, P2.File.writePage, wp_bind]
              exact PageFile.writePage_counted fn _ page hn hholding
          | p3 =>
              rw [call, wp_bind]
              exact PageFile.writePage_counted fn p page hn hholding
      | delete p =>
          rw [call, wp_bind]
          exact PageFile.deletePage_counted fn p hready hn hholding

end FileOp

namespace FileCall

variable [PageData D] {v : Version} {fn : FileName}

theorem counted_after {s : FileState D} (c : FileCall D) (h : s.stream.Counted) :
    (c.after v fn s).stream.Counted := by
  have hjunk : (s.stream.withJunk c.junkHeader c.junkPageHeader).Counted :=
    ⟨h.1, h.2.numPages, h.2.sticky, h.2.size, h.2.holds⟩
  have hspec : wp (c.op.call v fn) _ _ _ := c.op.call_counted hjunk
  unfold after
  rcases hr : c.result v fn s with ⟨r | r, t⟩
  · exact (wp_of_error (x := c.op.call v fn) hr).mp hspec
  · exact (wp_of_ok (x := c.op.call v fn) hr).mp hspec

/-- Whatever the calls are. -/
theorem counted_foldl (calls : List (FileCall D)) :
    ∀ s : FileState D, s.stream.Counted → (calls.foldl (after v fn) s).stream.Counted := by
  induction calls with
  | nil => exact fun _ h => h
  | cons c calls ih => exact fun s h => ih _ (counted_after c h)

end FileCall

theorem FStream.counted_new [PageData D] : (FileState.new true : FileState D).stream.Counted := by
  refine ⟨Nat.one_pos, rfl, rfl, fun _ => Nat.le_refl _, fun _ p hpos hlt => ?_⟩
  exact absurd hlt (Nat.not_lt.mpr hpos)

/-! ## Reading leaves no trace

Two statements are proved of each loop and call: it leaves the stream as it is, and the page number that it has read
is below `numPages`. The second one is what the next read of a walk needs.
-/

namespace PageFile

variable [PageData D] {s : FStream D} {p : Nat} (fn : FileName)

section Live

variable (h : s.Counted) (hlive : s.failbit = false)

include h hlive

/-- Where the bytes are there, `readPage` changes nothing. -/
theorem readPage_still (hp : p ≠ 0 ∨ s.Holds 0) :
    wp (readPage fn p) (fun _ t => t = s ∧ p < s.header.numPages) (fun _ t => t = s) s := by
  have hready : s.Ready := ⟨hlive, h.2.size hlive⟩
  unfold readPage
  rw [wp_bind, wp_of_ok (readHeader_apply hready), wp_ite]
  -- the page is beyond the file, and the stream has not been touched
  refine ⟨fun _ => rfl, fun hlt => ?_⟩
  have hlt := Nat.lt_of_not_le hlt
  have hholds : s.Holds p := by
    -- page `0` only if the bytes are there, any other page because the file holds it
    rcases Nat.eq_zero_or_pos p with hzero | hpos
    · rw [hzero] at hp ⊢
      exact hp.resolve_left (not_not.mpr rfl)
    · exact h.2.holds hlive p hpos hlt
  unfold readPageAllow
  rw [wp_bind, wp_of_ok (readWholePage_apply hready hholds), wp_ite]
  exact ⟨fun _ => rfl, fun _ => ⟨rfl, hlt⟩⟩

theorem walkFrom_still (stop : Page D → Bool) : ∀ (fuel iter : Nat) (last : Option (Page D)),
    wp (walkFrom fn stop fuel iter last) (fun _ t => t = s) (fun _ t => t = s) s := by
  have hready : s.Ready := ⟨hlive, h.2.size hlive⟩
  intro fuel
  induction fuel with
  -- induction on the rounds: the walk ends, or it goes on from a stream that is still the same
  | zero => exact fun _ _ => rfl
  | succ fuel ih =>
      intro iter last
      unfold walkFrom
      rw [wp_ite]
      refine ⟨fun _ => rfl, fun hne => ?_⟩
      rw [wp_bind]
      refine wp_mono (readPage_still fn h hlive (Or.inl hne)) ?_ fun _ _ he => he
      intro page t ht
      obtain ⟨rfl, hlt⟩ := ht
      rw [wp_ite]
      refine ⟨fun _ => rfl, fun _ => ?_⟩
      have hholds := h.2.holds hlive iter (Nat.pos_of_ne_zero hne) hlt
      rw [wp_bind, wp_of_ok (readPageHeader_apply hready hholds)]
      exact ih _ _

/-- If `deletePage` does not return, it has changed nothing either. -/
theorem deletePage_still (hp : p ≠ 0 ∨ s.Holds 0) :
    wp (deletePage fn p) (fun _ _ => True) (fun _ t => t = s) s := by
  have hready : s.Ready := ⟨hlive, h.2.size hlive⟩
  have hwrite : ∀ (n : Nat) (page : Page D) (t : FStream D),
      ∃ u, writeWholePage n page.header page t = (.ok (), u) := by
    intro n page t
    unfold writeWholePage
    split <;> exact ⟨_, rfl⟩
  have hheader : ∀ (header : FileHeader) (t : FStream D), ∃ u, writeHeader header t = (.ok (), u) := by
    intro header t
    unfold writeHeader
    split <;> exact ⟨_, rfl⟩
  unfold deletePage
  rw [wp_bind, wp_of_ok (readHeader_apply hready), wp_bind]
  refine wp_mono (readPage_still fn h hlive hp) ?_ fun _ _ he => he
  intro existingPage t ht
  obtain ⟨rfl, -⟩ := ht
  have hunlink : wp (unlinkUsed fn t.header p existingPage) (fun _ u => u = t) (fun _ u => u = t) t := by
    unfold unlinkUsed
    rw [wp_ite]
    refine ⟨fun _ => rfl, fun _ => ?_⟩
    unfold walk
    rw [wp_bind, wp_bind, wp_of_ok (readHeader_apply hready)]
    exact wp_mono (walkFrom_still fn h hlive _ _ _ _) (fun _ _ hu => hu) fun _ _ he => he
  rw [wp_bind]
  refine wp_mono hunlink ?_ fun _ _ he => he
  intro r u _
  -- the writes return
  rw [wp_ite]
  constructor
  · intro _
    obtain ⟨v, hv⟩ := hwrite r.2.pageNumber r.2 u
    rw [wp_bind, wp_of_ok hv]
    obtain ⟨w, hw⟩ := hwrite p (Page.init.setNextPageNumber r.1.firstFreePage) v
    rw [wp_bind, wp_of_ok hw]
    obtain ⟨x, hx⟩ := hheader _ w
    rw [wp_of_ok hx]
    trivial
  · intro _
    obtain ⟨w, hw⟩ := hwrite p (Page.init.setNextPageNumber r.1.firstFreePage) u
    rw [wp_bind, wp_of_ok hw]
    obtain ⟨x, hx⟩ := hheader _ w
    rw [wp_of_ok hx]
    trivial

/-- Number `0` is read far beyond the end of the file. -/
theorem readPage_zero (hshort : ¬ s.Holds 0) :
    readPage fn 0 s = (.error (.throw (.invalidPage 0 fn)), s.fail) := by
  have hready : s.Ready := ⟨hlive, h.2.size hlive⟩
  have hread : readWholePage 0 s = (.ok Page.init, s.fail) := by
    have hshort : ¬ pagePosition 0 + pageSize ≤ s.size := hshort
    simp [readWholePage, readable, hshort]
  have hunused : (Page.init : Page D).isUsed = false := rfl
  unfold readPage
  rw [bind_of_ok (readHeader_apply hready), if_neg (Nat.not_le.mpr h.1)]
  unfold readPageAllow
  rw [bind_of_ok hread, if_pos (by simp [hunused])]
  rfl

end Live

/-- A stream that does nothing has no pages. -/
theorem readPage_dead (hdead : s.failbit = true) (p : Nat) :
    readPage fn p s = (.error (.throw (.invalidPage p fn)), s) := by
  have hheader : readHeader s = (.ok s.junkHeader, s) := by
    unfold readHeader
    rw [if_neg (by simp [readable, hdead]), fail_of_failbit hdead]
  have hpage : readWholePage p s = (.ok Page.init, s) := by
    unfold readWholePage
    rw [if_neg (by simp [readable, hdead]), fail_of_failbit hdead]
  have hunused : (Page.init : Page D).isUsed = false := rfl
  unfold readPage
  rw [bind_of_ok hheader]
  -- the check against the bytes on the stack, or the page that could not be read
  by_cases hge : p ≥ s.junkHeader.numPages
  · rw [if_pos hge]
    rfl
  · unfold readPageAllow
    rw [if_neg hge, bind_of_ok hpage, if_pos (by simp [hunused])]
    rfl

/-- On a stream that does nothing, `allocatePage` goes by what is on the stack. -/
theorem allocatePage_dead (hdead : s.failbit = true) {n : Nat} (hjunk : s.junkHeader = ⟨n, 0, 0, 0⟩) :
    allocatePage fn s = (.ok (n, Page.init.setPageNumber n), s) := by
  have hread : readHeader s = (.ok ⟨n, 0, 0, 0⟩, s) := by
    rw [← hjunk]
    unfold readHeader
    rw [if_neg (by simp [readable, hdead]), fail_of_failbit hdead]
  have hwrite : ∀ header : FileHeader, writeHeader header s = (.ok (), s) := by
    intro header
    unfold writeHeader
    rw [if_pos hdead]
  have hstore : ∀ (header : FileHeader) (newPage : Page D),
      storeAllocated header newPage Page.init s = (.ok (newPage.pageNumber, newPage), s) := by
    intro header newPage
    rw [storeAllocated, bind_of_ok (writeWholePage_of_failbit hdead _ _ _)]
    exact bind_of_ok (hwrite header)
  unfold allocatePage
  rw [bind_of_ok hread, if_neg (by simp)]
  exact hstore _ _

end PageFile

namespace FileOp

variable [PageData D] (v : Version) (fn : FileName) {s : FStream D}

theorem allocate_number (h : s.Counted) (hlive : s.failbit = false) :
    wp ((allocate : FileOp D).call v fn)
      (fun r _ => ∃ n page, r = .allocated n page ∧ (n = s.header.firstFreePage ∨ n = s.header.numPages))
      (fun _ _ => True) s := by
  -- the number is one of two, whatever is on the stack
  have hallocate := PageFile.allocatePage_counted fn ⟨hlive, h.2.size hlive⟩ h.1 h.2
  cases v with
  | p2 =>
      rw [call, P2.File.allocatePage, wp_bind, wp_bind]
      refine wp_mono hallocate ?_ fun _ _ _ => trivial
      intro r t hr
      exact ⟨r.2.pageNumber, r.2, rfl, by rw [hr.2.1]; exact hr.1⟩
  | p3 =>
      rw [call, wp_bind]
      refine wp_mono hallocate ?_ fun _ _ _ => trivial
      exact fun r _ hr => ⟨r.1, r.2, rfl, hr.1⟩

theorem allocate_dead (hdead : s.failbit = true) {n : Nat} (hjunk : s.junkHeader = ⟨n, 0, 0, 0⟩) :
    (allocate : FileOp D).call v fn s = (.ok (.allocated n (Page.init.setPageNumber n)), s) := by
  have hallocate := PageFile.allocatePage_dead fn hdead hjunk
  cases v with
  | p2 =>
      have hpage : P2.File.allocatePage fn s = (.ok (Page.init.setPageNumber n), s) := by
        rw [P2.File.allocatePage, bind_of_ok hallocate]
        rfl
      rw [call, bind_of_ok hpage]
      rfl
  | p3 =>
      rw [call, bind_of_ok hallocate]
      rfl

end FileOp

/-! ## Rejected calls

Whether a call does harm is asked of all later calls, with any bytes on the stack, and of the iterator after them.
Since the stack is a part of each call, two streams that differ in what was on it are the same for this question.
-/

namespace FileCall

variable [PageData D] (v : Version) (fn : FileName)

/-- The replies to `calls`, one after the other. -/
def replies (s : FileState D) : List (FileCall D) → List (Except (Exit Exn) (FileReply D))
  | [] => []
  | c :: calls => (c.result v fn s).1 :: replies (c.after v fn s) calls

/-- All later calls behave as if `c` had not been made: those of a file, and a `FileIterator` after any
number of them. -/
structure Harmless (s : FileState D) (c : FileCall D) : Prop where
  replies : ∀ calls, replies v fn (c.after v fn s) calls = replies v fn s calls
  iterate : ∀ (calls : List (FileCall D)) hd pd,
    (PageFile.iterate fn ((calls.foldl (after v fn) (c.after v fn s)).stream.withJunk hd pd)).1 =
      (PageFile.iterate fn ((calls.foldl (after v fn) s).stream.withJunk hd pd)).1

variable {v fn} {s t : FileState D} {c : FileCall D}

/-- A call sees the stream only with its own bytes on the stack. -/
theorem result_congr (h : ∀ hd pd, s.stream.withJunk hd pd = t.stream.withJunk hd pd) (c : FileCall D) :
    c.result v fn s = c.result v fn t := by
  unfold result
  rw [h]

theorem replies_congr (calls : List (FileCall D)) :
    ∀ {s t : FileState D}, (∀ hd pd, s.stream.withJunk hd pd = t.stream.withJunk hd pd) →
      replies v fn s calls = replies v fn t calls ∧
        ∀ hd pd, (calls.foldl (after v fn) s).stream.withJunk hd pd =
          (calls.foldl (after v fn) t).stream.withJunk hd pd := by
  induction calls with
  | nil => exact fun h => ⟨rfl, h⟩
  -- the two streams give the same result, and after it they differ only in the stack again
  | cons c calls ih =>
      intro s t h
      have hresult : c.result v fn s = c.result v fn t := result_congr h c
      have hafter : (c.after v fn s).stream = (c.after v fn t).stream := congrArg Prod.snd hresult
      obtain ⟨hreplies, hstream⟩ := ih (s := c.after v fn s) (t := c.after v fn t) (by simp [hafter])
      exact ⟨by rw [replies, replies, hresult, hreplies], hstream⟩

theorem harmless_of_still (h : (c.after v fn s).stream = s.stream.withJunk c.junkHeader c.junkPageHeader) :
    Harmless v fn s c := by
  have hsame : ∀ hd pd, (c.after v fn s).stream.withJunk hd pd = s.stream.withJunk hd pd := by
    intro hd pd
    rw [h]
    rfl
  constructor
  · exact fun calls => (replies_congr calls hsame).1
  · intro calls hd pd
    rw [(replies_congr calls hsame).2]

/-- After a short read the next page that is allocated is one that is on the stack. -/
theorem not_harmless_of_failbit (h : s.stream.Counted) (hlive : s.stream.failbit = false)
    (hdead : (c.after v fn s).stream.failbit = true) : ¬ Harmless v fn s c := by
  intro hharmless
  -- neither the first free page nor the next new one
  obtain ⟨n, hfree, hnext⟩ : ∃ n, n ≠ s.stream.header.firstFreePage ∧ n ≠ s.stream.header.numPages :=
    ⟨s.stream.header.firstFreePage + s.stream.header.numPages + 1, by omega, by omega⟩
  -- the call that tells them apart: the stack has `n`, and the live stream does not answer `n`
  have hreplies := hharmless.replies [⟨.allocate, ⟨n, 0, 0, 0⟩, ⟨0, 0, 0, 0, 0, 0⟩⟩]
  have hreply := List.head_eq_of_cons_eq hreplies
  have hstack := FileOp.allocate_dead v fn
    (s := (c.after v fn s).stream.withJunk ⟨n, 0, 0, 0⟩ ⟨0, 0, 0, 0, 0, 0⟩) hdead rfl
  unfold result at hreply
  dsimp only at hreply
  rw [hstack] at hreply
  have hcounted : (s.stream.withJunk ⟨n, 0, 0, 0⟩ ⟨0, 0, 0, 0, 0, 0⟩).Counted :=
    ⟨h.1, h.2.numPages, h.2.sticky, h.2.size, h.2.holds⟩
  have hsplit : ∀ (t : FStream D) r, ((FileOp.allocate : FileOp D).call v fn t).1 = .ok r →
      (FileOp.allocate : FileOp D).call v fn t = (.ok r, ((FileOp.allocate : FileOp D).call v fn t).2) :=
    fun _ _ h => Prod.ext h rfl
  have hnumber := FileOp.allocate_number v fn hcounted hlive
  rw [wp_of_ok (hsplit _ _ hreply.symm)] at hnumber
  obtain ⟨m, page, heq, hm⟩ := hnumber
  cases heq
  rcases hm with hm | hm
  · exact hfree hm
  · exact hnext hm

/-- A call that does not return leaves the stream as it was, where the bytes of its page are there. -/
theorem still_of_error {p : Nat} (h : s.stream.Counted) (hop : c.op = .read p ∨ c.op = .delete p)
    {e : Exit Exn} (hrejected : (c.result v fn s).1 = .error e)
    (hp : p ≠ 0 ∨ s.stream.failbit = true ∨ s.stream.Holds 0) :
    (c.after v fn s).stream = s.stream.withJunk c.junkHeader c.junkPageHeader := by
  have hcounted : (s.stream.withJunk c.junkHeader c.junkPageHeader).Counted :=
    ⟨h.1, h.2.numPages, h.2.sticky, h.2.size, h.2.holds⟩
  unfold after result at *
  generalize hs : s.stream.withJunk c.junkHeader c.junkPageHeader = t at *
  have hcall : c.op.call v fn t = (.error e, (c.op.call v fn t).2) := Prod.ext hrejected rfl
  -- a dead stream, or one on which the page can be read
  cases hlive : t.failbit with
  | true =>
      have hstill := (allKeep_of_failbit hlive).call fn v c.op t rfl
      rw [wp_of_error hcall] at hstill
      exact hstill
  | false =>
      have hlive' : s.stream.failbit = false := by
        rw [← hs] at hlive
        exact hlive
      have hp : p ≠ 0 ∨ t.Holds 0 := by
        rw [hlive'] at hp
        rw [← hs]
        exact hp.imp_right fun hp => hp.resolve_left (by simp)
      have hstill : wp (c.op.call v fn) (fun _ _ => True) (fun _ u => u = t) t := by
        rcases hop with hop | hop
        · rw [hop, FileOp.call, wp_bind]
          exact wp_mono (PageFile.readPage_still fn hcounted hlive hp) (fun _ _ _ => trivial)
            fun _ _ he => he
        · rw [hop, FileOp.call, wp_bind]
          exact wp_mono (PageFile.deletePage_still fn hcounted hlive hp) (fun _ _ _ => trivial)
            fun _ _ he => he
      rw [wp_of_error hcall] at hstill
      exact hstill

/-- Page `0` costs the stream. -/
theorem failbit_zero (h : s.stream.Counted) (hop : c.op = .read 0 ∨ c.op = .delete 0)
    (hlive : s.stream.failbit = false) (hshort : ¬ s.stream.Holds 0) :
    (c.after v fn s).stream.failbit = true := by
  have hcounted : (s.stream.withJunk c.junkHeader c.junkPageHeader).Counted :=
    ⟨h.1, h.2.numPages, h.2.sticky, h.2.size, h.2.holds⟩
  have hready : (s.stream.withJunk c.junkHeader c.junkPageHeader).Ready := ⟨hlive, h.2.size hlive⟩
  have hread := PageFile.readPage_zero fn hcounted hlive hshort
  unfold after result
  rcases hop with hop | hop
  · rw [hop, FileOp.call, bind_of_error hread]
    exact hcounted.2.failbit_fail
  · have hdelete : PageFile.deletePage fn 0 (s.stream.withJunk c.junkHeader c.junkPageHeader) =
        (.error (.throw (.invalidPage 0 fn)), (s.stream.withJunk c.junkHeader c.junkPageHeader).fail) := by
      rw [PageFile.deletePage, bind_of_ok (readHeader_apply hready)]
      exact bind_of_error hread
    rw [hop, FileOp.call, bind_of_error hdelete]
    exact hcounted.2.failbit_fail

/-- **Rejected page numbers.** In any state of a file, whatever the calls before were, a `readPage` or
`deletePage` that throws does no harm if and only if the page number is not `0`, or the stream does
nothing any more anyway, or the file is so long that it has bytes where page `0` is read. -/
theorem harmless_iff (v : Version) (fn : FileName) (calls : List (FileCall D)) (c : FileCall D) (p : Nat)
    (hop : c.op = .read p ∨ c.op = .delete p) (e : Exit Exn)
    (hrejected : (c.result v fn (calls.foldl (after v fn) (FileState.new true))).1 = .error e) :
    let s := calls.foldl (after v fn) (FileState.new true)
    Harmless v fn s c ↔ p ≠ 0 ∨ s.stream.failbit = true ∨ s.stream.Holds 0 := by
  intro s
  have hcounted : s.stream.Counted := counted_foldl calls _ counted_new
  constructor
  · -- page `0` on a live stream without the bytes
    intro hharmless
    by_contra hnot
    push Not at hnot
    obtain ⟨rfl, hlive, hshort⟩ := hnot
    have hlive := Bool.eq_false_of_not_eq_true hlive
    exact not_harmless_of_failbit hcounted hlive (failbit_zero hcounted hop hlive hshort) hharmless
  · intro hp
    exact harmless_of_still (still_of_error hcounted hop hrejected hp)

/-- A page number that the file does not have yet. -/
theorem harmless_beyond :
    Harmless .p3 "f" ([⟨.allocate, ⟨0, 0, 0, 0⟩, ⟨0, 0, 0, 0, 0, 0⟩⟩].foldl (after .p3 "f")
      (FileState.new true : FileState CharArea)) ⟨.delete 5, ⟨0, 0, 0, 0⟩, ⟨0, 0, 0, 0, 0, 0⟩⟩ :=
  (harmless_iff .p3 "f" _ _ 5 (Or.inr rfl) (.throw (.invalidPage 5 "f")) (by rfl)).mpr (Or.inl (by decide))

/-- Page `1` can be read, whatever is on the stack, and after page `0` was rejected it cannot. -/
theorem harmless_zero :
    let s : FileState CharArea :=
      [⟨.allocate, ⟨0, 0, 0, 0⟩, ⟨0, 0, 0, 0, 0, 0⟩⟩].foldl (after .p2 "f") (FileState.new true)
    let c : FileCall CharArea := ⟨.read 0, ⟨0, 0, 0, 0⟩, ⟨0, 0, 0, 0, 0, 0⟩⟩
    (c.result .p2 "f" s).1 = .error (.throw (.invalidPage 0 "f")) ∧
      (∀ hd pd, (result .p2 "f" s ⟨.read 1, hd, pd⟩).1 = .ok (.page (Page.init.setPageNumber 1))) ∧
      (∀ hd pd, (result .p2 "f" (c.after .p2 "f" s) ⟨.read 1, hd, pd⟩).1 =
        .error (.throw (.invalidPage 1 "f"))) ∧ ¬ Harmless .p2 "f" s c := by
  have hdead : ∀ s : FileState CharArea, s.stream.failbit = true → ∀ hd pd,
      (result .p2 "f" s ⟨.read 1, hd, pd⟩).1 = .error (.throw (.invalidPage 1 "f")) := by
    intro s hs hd pd
    have hdead : (s.stream.withJunk hd pd).failbit = true := hs
    unfold result
    dsimp only
    rw [FileOp.call, bind_of_error (PageFile.readPage_dead "f" hdead 1)]
  refine ⟨by rfl, fun hd pd => by rfl, hdead _ (by rfl), ?_⟩
  exact not_harmless_of_failbit (counted_foldl _ _ counted_new) (by rfl) (by rfl)

end FileCall

end CS640.Badger
