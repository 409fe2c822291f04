import CS640.Badger.File.Calls

/-!
# Page ownership of a paged file

Main result: `PageFile.ownership`. In every run of a newly created file, on a stream that returns the
bytes last written, the free list holds exactly the unused pages, `allocatePage` hands out an unused
page and hands it out empty, and `readPage` finds exactly the pages in use, with the data last
written. None of it depends on the list of used pages, which need not be intact.
-/

namespace CS640.Badger

open CS640.Lib Prog FStream

variable {D : Type} [PageData D]

/-- Page `p` of the file is in use. -/
def FStream.Used (s : FStream D) (p : Nat) : Prop :=
  0 < p ∧ p < s.header.numPages ∧ (s.page p).isUsed = true

/-- What can be relied on in a state `s` of the file `fn`, whatever lies on the stack of the next
call. -/
structure FileState.Reliable (v : Version) (fn : FileName) (s : FileState D) : Prop where
  freeList : ∃ free, Chain s.stream.next 0 s.stream.header.firstFreePage free ∧
    free.length = s.stream.header.numFreePages ∧ free.Nodup ∧
    (∀ p ∈ free, ¬ s.stream.Used p) ∧
    ∀ p, 1 ≤ p → p < s.stream.header.numPages → (s.stream.Used p ↔ p ∉ free)
  noted : ∀ p, s.stream.Used p ↔ (s.noted p).isSome = true
  allocate : ∀ hd pd n pg t,
    (FileOp.allocate : FileOp D).call v fn (s.stream.withJunk hd pd) = (.ok (.allocated n pg), t) →
      ¬ s.stream.Used n ∧ pg.contents = Page.init.setPageNumber n
  assertions : ∀ hd pd t,
    (FileOp.allocate : FileOp D).call v fn (s.stream.withJunk hd pd) ≠ (.error .abort, t)
  read_used : ∀ hd pd p, 1 ≤ p → s.stream.Used p → ∃ pg t,
    (FileOp.read p).call v fn (s.stream.withJunk hd pd) = (.ok (.page pg), t) ∧
      s.noted p = some pg.contents
  read_unused : ∀ hd pd p, 1 ≤ p → ¬ s.stream.Used p → ∃ t,
    (FileOp.read p : FileOp D).call v fn (s.stream.withJunk hd pd) =
      (.error (.throw (.invalidPage p fn)), t)

namespace FStream

variable {s : FStream D} {free : List Nat} {p : Nat}

theorem Owned.used_iff (h : s.Owned free) : s.Used p ↔ ∃ d, s.stored p = some d := by
  constructor
  · rintro ⟨-, hlt, hu⟩
    exact ⟨_, stored_eq_some.mpr ⟨hlt, Page.isUsed_eq_true.mp hu, rfl⟩⟩
  · rintro ⟨d, hd⟩
    obtain ⟨hpos, hlt, -, hnum, -⟩ := h.of_stored hd
    refine ⟨hpos, hlt, Page.isUsed_eq_true.mpr ?_⟩
    omega

theorem Owned.not_used_iff (h : s.Owned free) : ¬ s.Used p ↔ s.stored p = none := by
  rw [h.used_iff, ← Option.isSome_iff_exists, Option.not_isSome_iff_eq_none]

theorem Owned.used_iff_not_mem (h : s.Owned free) (hpos : 1 ≤ p) (hlt : p < s.header.numPages) :
    s.Used p ↔ p ∉ free := by
  rw [← not_iff_not, h.not_used_iff, h.stored_eq_none_iff, not_not]
  constructor
  · rintro (h0 | hge | hmem)
    · omega
    · omega
    · exact hmem
  · intro hmem
    exact Or.inr (Or.inr hmem)

end FStream

namespace FileState

variable {v : Version} {fn : FileName} {s : FileState D}

theorem Tracked.allocate (h : s.Tracked) (hd : FileHeader) (pd : PageHeader) :
    wp ((FileOp.allocate : FileOp D).call v fn)
      (fun r _ => ∃ n pg, r = .allocated n pg ∧ ¬ s.stream.Used n ∧
        pg.contents = Page.init.setPageNumber n)
      (fun e _ => WalkFails e) (s.stream.withJunk hd pd) := by
  obtain ⟨free, ho⟩ := h.owned
  have ho' : (s.stream.withJunk hd pd).Owned free := ho.withJunk
  refine wp_mono (FileOp.allocate_spec ho') ?_ fun _ _ he => he.2
  rintro r t ⟨n, pg, rfl, ha⟩
  refine ⟨n, pg, rfl, ?_, ha.empty⟩
  rw [ho.not_used_iff]
  exact ha.fresh

/-- Ownership, with a note that is right, is all one needs. -/
theorem Tracked.reliable (h : s.Tracked) : s.Reliable v fn := by
  obtain ⟨free, ho⟩ := h.owned
  have hread : ∀ hd pd p, (FileOp.read p : FileOp D).call v fn (s.stream.withJunk hd pd) =
      (do let page ← PageFile.readPage fn p; pure (.page page) : Prog _ _ _)
        (s.stream.withJunk hd pd) := fun _ _ _ => rfl
  constructor
  case freeList =>
    refine ⟨free, ho.chain, ho.length, ho.nodup, ?_, ?_⟩
    · intro p hp
      rw [ho.not_used_iff, ho.stored_eq_none_iff]
      exact Or.inr (Or.inr hp)
    · intro p hpos hlt
      exact ho.used_iff_not_mem hpos hlt
  case noted =>
    intro p
    rw [ho.used_iff, h.noted, Option.isSome_iff_exists]
  case allocate =>
    intro hd pd n pg t hcall
    have hspec : wp (FileOp.allocate.call v fn) _ _ _ := h.allocate hd pd
    rw [wp_of_ok hcall] at hspec
    obtain ⟨_, _, hr, hfresh, hempty⟩ := hspec
    cases hr
    exact ⟨hfresh, hempty⟩
  case assertions =>
    intro hd pd t hcall
    have hspec : wp (FileOp.allocate.call v fn) _ _ _ := h.allocate hd pd
    rw [wp_of_error hcall] at hspec
    rcases hspec with hspec | hspec
    · exact hspec
    · cases hspec
  case read_used =>
    intro hd pd p _ hu
    obtain ⟨d, hd'⟩ := ho.used_iff.mp hu
    refine ⟨s.stream.page p, s.stream.withJunk hd pd, ?_, ?_⟩
    · rw [hread]
      exact bind_of_ok (PageFile.readPage_of_stored fn ho.withJunk hd')
    · rw [h.noted, hd', (ho.of_stored hd').2.2.2.2]
  case read_unused =>
    intro hd pd p _ hu
    have hnone := ho.not_used_iff.mp hu
    have ho' : (s.stream.withJunk hd pd).Owned free := ho.withJunk
    obtain ⟨t, hr, -⟩ := PageFile.readPage_of_not_stored fn ho' hnone
    refine ⟨t, ?_⟩
    rw [hread]
    exact bind_of_error hr

end FileState

namespace PageFile

/-- **Every page of a file is in use or free, never both**, in every run of calls that return or
refuse a page. -/
theorem ownership (v : Version) (fn : FileName) {calls : List (FileCall D)} {s : FileState D}
    (h : Run (Run.guarded (FileCall.Ok v fn) (FileCall.after v fn)) (FileState.new false) calls s) :
    s.Reliable v fn := by
  have hinv : s.Tracked ∧ s.stream.sticky = false := by
    apply h.invariant ⟨FileState.tracked_new false, rfl⟩
    rintro s c _ ⟨hs, hsticky⟩ ⟨⟨hop, -⟩, rfl⟩
    have hafter : (c.after v fn s).Tracked ∧ _ := hs.after hop (by simp [hsticky])
    obtain ⟨ht, hts⟩ := hafter
    exact ⟨ht, hts.trans hsticky⟩
  exact hinv.1.reliable

/-- Two pages, the first written and deleted, and its number given out again. -/
theorem ownership_reuse :
    let calls : List (FileCall CharArea) :=
      [.allocate, .allocate, .write 1 ⟨⟨0, 0, 0, 0, 1, 9⟩, fun _ => 7⟩, .delete 1, .allocate].map
        fun op => ⟨op, ⟨0, 0, 0, 0⟩, ⟨0, 0, 0, 0, 5, 0⟩⟩
    let s := calls.foldl (FileCall.after .p3 "f") (FileState.new false)
    s.stream.header.numPages = 3 ∧ s.Reliable .p3 "f" := by
  refine ⟨rfl, ownership .p3 "f" (Run.of_allOk ?_)⟩
  exact ⟨⟨trivial, trivial⟩, ⟨trivial, trivial⟩, ⟨rfl, trivial⟩, ⟨trivial, trivial⟩,
    ⟨trivial, trivial⟩, trivial⟩

end PageFile

end CS640.Badger
