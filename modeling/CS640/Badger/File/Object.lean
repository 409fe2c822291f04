import CS640.Badger.File.BlobFile
import CS640.Badger.File.Ops

/-!
# What a file object does to the data in its file

`FileObject.held` is the data that a file has under a page number: the contents of a page in use for
a `PageFile`, the bytes written at its place for a `BlobFile`. The lemmas are about files in good
order (`Sound`) on a stream that returns the bytes last written.
-/

namespace CS640.Badger

open CS640.Lib Prog FStream

variable {D : Type}

namespace FileKind

/-- The data of a page, as far as it is the client's: the link of a page in a `PageFile` is not. -/
def normal (kind : FileKind) (pg : Page D) : Page D :=
  match kind with
  | .page => pg.contents
  | .blob => pg

/-- The data that a file has under a page number. -/
def held (kind : FileKind) (s : FStream D) (p : Nat) : Option (Page D) :=
  match kind with
  | .page => s.stored p
  | .blob => if pagePosition p + pageSize ≤ s.size then some (s.page p) else none

/-- The file is in good order. -/
def InOrder [PageData D] (kind : FileKind) (s : FStream D) : Prop :=
  match kind with
  | .page => ∃ free, s.Owned free
  | .blob => s.Ready

/-- The file is in good order, and its stream returns the bytes last written. -/
def Sound [PageData D] (kind : FileKind) (s : FStream D) : Prop :=
  s.sticky = false ∧
    match kind with
    | .page => ∃ free, s.Owned free
    | .blob => s.Ready

/-- A read of the page is not one that leaves an `std::fstream` with its `failbit` set. -/
def MayRead (kind : FileKind) (s : FStream D) (p : Nat) : Prop :=
  s.sticky = true → (held kind s p).isSome = true ∨ kind = .page ∧ p ≠ 0

theorem Sound.inOrder [PageData D] {kind : FileKind} {s : FStream D} (h : kind.Sound s) :
    kind.InOrder s := h.2

theorem mayRead_of_held {kind : FileKind} {s : FStream D} {p : Nat} (h : (kind.held s p).isSome = true) :
    kind.MayRead s p :=
  fun _ => Or.inl h

/-- A short read that costs the stream is one of page `0` of a `PageFile`. -/
theorem MayRead.fail_eq {kind : FileKind} {s : FStream D} {p : Nat} (h : kind.MayRead s p)
    (hp : kind.held s p = none) (hzero : kind = .page → p = 0) : s.fail = s := by
  cases hsticky : s.sticky with
  | false => exact fail_of_not_sticky hsticky
  | true =>
      rcases h hsticky with hsome | ⟨hkind, hne⟩
      · rw [hp] at hsome
        cases hsome
      · exact absurd (hzero hkind) hne

theorem held_blob_put_self {s : FStream D} {p : Nat} (pg : Page D) :
    held .blob (s.put p pg) p = some pg := by
  have hh : pagePosition p + pageSize ≤ (s.put p pg).size := holds_put_self pg
  simp [held, hh]

/-- Writing a page makes the file no shorter. -/
theorem held_blob_put_of_ne {s : FStream D} {p q : Nat} {d : Page D} (pg : Page D) (hq : q ≠ p)
    (h : held .blob s q = some d) : held .blob (s.put p pg) q = some d := by
  simp only [held] at h ⊢
  split at h
  · next hh =>
      have hh' : pagePosition q + pageSize ≤ (s.put p pg).size := Holds.put p pg hh
      rw [if_pos hh', put_page_of_ne pg hq]
      exact h
  · cases h

end FileKind

namespace FileObject

variable [PageData D] {o : FileObject} {s : FStream D} {p : Nat} {d : Page D}

/-- Data that is there is read. -/
theorem readPage_of_held (h : o.kind.InOrder s) (hp : o.kind.held s p = some d) :
    ∃ pg, o.readPage p s = (.ok pg, s) ∧ o.kind.normal pg = d ∧
      (o.kind = .page → pg.pageNumber = p) := by
  obtain ⟨kind, fn⟩ := o
  cases kind with
  | page =>
      obtain ⟨free, ho⟩ := h
      have hst : s.stored p = some d := hp
      obtain ⟨-, -, -, hnum, hd⟩ := ho.of_stored hst
      exact ⟨s.page p, PageFile.readPage_of_stored fn ho hst, hd, fun _ => hnum⟩
  | blob =>
      have hready : s.Ready := h
      simp only [FileKind.held] at hp
      split at hp
      · next hh =>
          cases hp
          exact ⟨s.page p, readWholePage_apply hready hh, rfl, fun hk => by cases hk⟩
      · cases hp

/-- Where there is none, a `PageFile` refuses and a `BlobFile` returns something. The stream may be lost. -/
theorem readPage_of_not_held (h : o.kind.InOrder s) (hp : o.kind.held s p = none) :
    wp (o.readPage p) (fun _ t => o.kind = .blob ∧ (o.kind.MayRead s p → t = s))
      (fun _ t => o.kind.MayRead s p → t = s) s := by
  obtain ⟨kind, fn⟩ := o
  cases kind with
  | page =>
      obtain ⟨free, ho⟩ := h
      obtain ⟨t, hr, ht⟩ := PageFile.readPage_of_not_stored fn ho hp
      have hrun : FileObject.readPage ⟨.page, fn⟩ p s = (.error _, t) := hr
      rw [wp_of_error hrun]
      intro hread
      rcases ht with rfl | ⟨hzero, rfl⟩
      · rfl
      · exact hread.fail_eq hp fun _ => hzero
  | blob =>
      have hshort : ¬ pagePosition p + pageSize ≤ s.size := by
        intro hh
        simp only [FileKind.held, if_pos hh] at hp
        cases hp
      have hrun : FileObject.readPage ⟨.blob, fn⟩ p s = (.ok Page.init, s.fail) := by
        show readWholePage p s = _
        simp [readWholePage, readable, hshort]
      rw [wp_of_ok hrun]
      exact ⟨rfl, fun hread => hread.fail_eq hp fun h => by cases h⟩

/-- `t` has the data of `s`, and under `p` it has `d`. -/
structure Puts (kind : FileKind) (s : FStream D) (p : Nat) (d : Page D) (t : FStream D) : Prop where
  order : kind.InOrder t
  sticky : t.sticky = s.sticky
  own : kind.held t p = some d
  keep : ∀ q, q ≠ p → ∀ d', kind.held s q = some d' → kind.held t q = some d'
  used : kind = .page → ∀ q, q ≠ p → kind.held t q = kind.held s q

/-- A page of the file is written to it. -/
theorem writePage_puts (h : o.kind.InOrder s) {pg : Page D}
    (hpage : o.kind = .page → (o.kind.held s p).isSome = true ∧ pg.pageNumber = p) :
    ∃ t, o.writePage p pg s = (.ok (), t) ∧ Puts o.kind s p (o.kind.normal pg) t := by
  obtain ⟨kind, fn⟩ := o
  cases kind with
  | page =>
      obtain ⟨hsome, hnum⟩ := hpage rfl
      obtain ⟨free, ho⟩ := h
      obtain ⟨d, hd⟩ := Option.isSome_iff_exists.mp hsome
      have hd : s.stored p = some d := hd
      obtain ⟨hpos, hlt, -, -, -⟩ := ho.of_stored hd
      have hne : (pg.setNextPageNumber (s.next p)).pageNumber ≠ 0 := by
        rw [Page.pageNumber_setNextPageNumber, hnum]
        omega
      have hst := stored_put hlt hne
      refine ⟨_, PageFile.writePage_of_stored fn ho hd pg, ?_⟩
      have hother : ∀ q, q ≠ p → (s.put p (pg.setNextPageNumber (s.next p))).stored q = s.stored q := by
        intro q hq
        rw [hst, Function.update_of_ne hq]
      refine ⟨⟨free, ho.put hd hnum⟩, rfl, ?_, ?_, fun _ => hother⟩
      · show (s.put p (pg.setNextPageNumber (s.next p))).stored p = _
        rw [hst, Function.update_self]
        rfl
      · intro q hq d' hd'
        exact (hother q hq).trans hd'
  | blob =>
      have hready : s.Ready := h
      refine ⟨_, writeWholePage_apply hready pg.header pg, ?_⟩
      refine ⟨hready.put _, rfl, ?_, ?_, fun hk => by cases hk⟩
      · exact FileKind.held_blob_put_self pg
      · intro q hq d' hd'
        exact FileKind.held_blob_put_of_ne pg hq hd'

/-- A new page is put under a number that no data was under, if the file knows which ones are. -/
theorem allocatePage_puts (h : o.kind.InOrder s) :
    wp o.allocatePage
      (fun r t => Puts o.kind s r.1 (o.kind.normal r.2) t ∧
        (o.kind = .page → r.2.pageNumber = r.1 ∧ o.kind.held s r.1 = none))
      (fun _ t => t = s) s := by
  obtain ⟨kind, fn⟩ := o
  cases kind with
  | page =>
      obtain ⟨free, ho⟩ := h
      refine wp_mono (PageFile.allocatePage_spec fn ho) ?_ fun _ _ he => he.1
      intro r t ha
      have hown : t.stored r.1 = some r.2.contents := by
        rw [ha.stored, Function.update_self, ha.empty]
      have hother : ∀ q, q ≠ r.1 → t.stored q = s.stored q := by
        intro q hq
        rw [ha.stored, Function.update_of_ne hq]
      refine ⟨⟨ha.owned, ha.sticky, hown, ?_, fun _ => hother⟩, fun _ => ?_⟩
      · intro q hq d' hd'
        exact (hother q hq).trans hd'
      · exact ⟨ha.pageNumber, ha.fresh⟩
  | blob =>
      have hready : s.Ready := h
      obtain ⟨hd, -, hrun⟩ := BlobFile.allocatePage_apply hready
      have hrun : FileObject.allocatePage ⟨.blob, fn⟩ s = _ := hrun
      rw [wp_of_ok hrun]
      refine ⟨⟨(hready.put _).setHeader hd, rfl, ?_, ?_, fun hk => by cases hk⟩,
        fun hk => by cases hk⟩
      · exact FileKind.held_blob_put_self Page.init
      · intro q hq d' hd'
        exact FileKind.held_blob_put_of_ne Page.init hq hd'

/-- A page of a paged file is deleted, or everything is as it was; a `BlobFile` deletes nothing. -/
theorem deletePage_deletes (h : o.kind.InOrder s) (hread : o.kind = .page → o.kind.MayRead s p) :
    wp (o.deletePage p)
      (fun _ t => o.kind.InOrder t ∧ o.kind.held t p = none ∧
        (∀ q, q ≠ p → o.kind.held t q = o.kind.held s q) ∧ t.sticky = s.sticky)
      (fun _ t => t = s) s := by
  obtain ⟨kind, fn⟩ := o
  cases kind with
  | page =>
      obtain ⟨free, ho⟩ := h
      cases hp : s.stored p with
      | some d =>
          refine wp_mono (PageFile.deletePage_of_stored fn ho hp) ?_ fun e t he => he.1
          intro _ t ht
          obtain ⟨hst, hfree, hsticky⟩ := ht
          refine ⟨hfree, ?_, fun q hq => ?_, hsticky⟩
          · show t.stored p = none
            rw [hst, Function.update_self]
          · show t.stored q = s.stored q
            rw [hst, Function.update_of_ne hq]
      | none =>
          obtain ⟨t, hr, ht⟩ := PageFile.deletePage_of_not_stored fn ho hp
          have hrun : FileObject.deletePage ⟨.page, fn⟩ p s = (.error _, t) := hr
          rw [wp_of_error hrun]
          rcases ht with rfl | ⟨hzero, rfl⟩
          · rfl
          · exact (hread rfl).fail_eq hp fun _ => hzero
  | blob => rfl

end FileObject

end CS640.Badger
