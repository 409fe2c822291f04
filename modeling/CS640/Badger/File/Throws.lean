import CS640.Badger.File.BlobFile

/-!
# The exceptions of files

The only exception that the operations of a file throw is `InvalidPageException`, whatever is in the
file and on its stream.
-/

namespace CS640.Badger

open CS640.Lib Prog FStream

variable {D : Type}

/-- An `InvalidPageException`. -/
def Exn.IsInvalidPage (e : Exn) : Prop := ∃ p name, e = .invalidPage p name

namespace FStream

theorem readHeader_throws {P : Exn → Prop} : Throws P (readHeader (D := D)) := by
  apply Throws.of_ok
  intro s
  rw [readHeader]
  split <;> exact ⟨_, _, rfl⟩

theorem writeHeader_returns (header : FileHeader) (s : FStream D) :
    ∃ a t, writeHeader header s = (.ok a, t) := by
  rw [writeHeader]
  split <;> exact ⟨_, _, rfl⟩

theorem writeHeader_throws {P : Exn → Prop} (header : FileHeader) :
    Throws P (writeHeader (D := D) header) :=
  Throws.of_ok (writeHeader_returns header)

theorem readWholePage_throws [PageData D] {P : Exn → Prop} (p : Nat) :
    Throws P (readWholePage (D := D) p) := by
  apply Throws.of_ok
  intro s
  rw [readWholePage]
  split <;> exact ⟨_, _, rfl⟩

theorem readPageHeader_returns (p : Nat) (s : FStream D) :
    ∃ a t, readPageHeader p s = (.ok a, t) := by
  rw [readPageHeader]
  split <;> exact ⟨_, _, rfl⟩

theorem readPageHeader_throws {P : Exn → Prop} (p : Nat) :
    Throws P (readPageHeader (D := D) p) :=
  Throws.of_ok (readPageHeader_returns p)

theorem writeWholePage_returns (p : Nat) (header : PageHeader) (pg : Page D) (s : FStream D) :
    ∃ a t, writeWholePage p header pg s = (.ok a, t) := by
  rw [writeWholePage]
  split <;> exact ⟨_, _, rfl⟩

theorem writeWholePage_throws {P : Exn → Prop} (p : Nat) (header : PageHeader) (pg : Page D) :
    Throws P (writeWholePage p header pg) :=
  Throws.of_ok (writeWholePage_returns p header pg)

end FStream

namespace PageFile

variable [PageData D] (fn : FileName)

theorem readPageAllow_throws (p : Nat) (allow : Bool) :
    Throws Exn.IsInvalidPage (readPageAllow (D := D) fn p allow) := by
  apply (readWholePage_throws p).bind
  intro page
  apply Throws.ite
  · intro _
    exact Throws.throw ⟨p, fn, rfl⟩
  · intro _
    exact Throws.pure page

theorem readPage_throws (p : Nat) : Throws Exn.IsInvalidPage (readPage (D := D) fn p) := by
  apply readHeader_throws.bind
  intro header
  apply Throws.ite
  · intro _
    exact Throws.throw ⟨p, fn, rfl⟩
  · intro _
    exact readPageAllow_throws fn p false

theorem walkFrom_throws (stop : Page D → Bool) :
    ∀ (fuel iter : Nat) (last : Option (Page D)),
      Throws Exn.IsInvalidPage (walkFrom fn stop fuel iter last) := by
  intro fuel
  induction fuel with
  | zero => exact fun _ _ _ => trivial
  | succ fuel ih =>
      intro iter last
      apply Throws.ite
      · intro _
        exact Throws.pure _
      · intro _
        apply (readPage_throws fn iter).bind
        intro page
        apply Throws.ite
        · intro _
          exact Throws.pure _
        · intro _
          apply (readPageHeader_throws iter).bind
          intro header
          exact ih _ _

theorem walk_throws (stop : Page D → Bool) : Throws Exn.IsInvalidPage (walk fn stop) := by
  apply readHeader_throws.bind
  intro header
  exact walkFrom_throws fn stop _ _ _

theorem insertReused_throws (header : FileHeader) (newPage : Page D) :
    Throws Exn.IsInvalidPage (insertReused fn header newPage) := by
  apply Throws.ite
  · intro _
    exact Throws.pure _
  · intro _
    apply (walk_throws fn _).bind
    intro r
    exact Throws.pure _

theorem appendNew_throws (header : FileHeader) :
    Throws Exn.IsInvalidPage (appendNew (D := D) fn header) := by
  apply Throws.ite
  · intro _
    exact Throws.pure _
  · intro _
    apply (walk_throws fn _).bind
    intro r
    apply (Throws.assert _).bind
    intro _
    exact Throws.pure _

omit [PageData D] in
theorem storeAllocated_throws (header : FileHeader) (newPage existingPage : Page D) :
    Throws Exn.IsInvalidPage (storeAllocated header newPage existingPage) := by
  apply (writeWholePage_throws _ _ _).bind
  intro _
  apply Throws.ite
  · intro _
    apply (writeWholePage_throws _ _ _).bind
    intro _
    apply (writeHeader_throws _).bind
    intro _
    exact Throws.pure _
  · intro _
    apply (writeHeader_throws _).bind
    intro _
    exact Throws.pure _

theorem allocatePage_throws : Throws Exn.IsInvalidPage (allocatePage (D := D) fn) := by
  apply readHeader_throws.bind
  intro header
  apply Throws.ite
  · intro _
    apply (readPageAllow_throws fn _ _).bind
    intro freePage
    apply (insertReused_throws fn _ _).bind
    intro r
    apply (Throws.assert _).bind
    intro _
    exact storeAllocated_throws _ _ _
  · intro _
    apply (appendNew_throws fn _).bind
    intro r
    exact storeAllocated_throws _ _ _

omit [PageData D] in
theorem writePage_throws (p : Nat) (pg : Page D) :
    Throws Exn.IsInvalidPage (writePage fn p pg) := by
  apply (readPageHeader_throws p).bind
  intro header
  apply Throws.ite
  · intro _
    exact Throws.throw ⟨p, fn, rfl⟩
  · intro _
    exact writeWholePage_throws _ _ _

theorem unlinkUsed_throws (header : FileHeader) (p : Nat) (pg : Page D) :
    Throws Exn.IsInvalidPage (unlinkUsed fn header p pg) := by
  apply Throws.ite
  · intro _
    exact Throws.pure _
  · intro _
    apply (walk_throws fn _).bind
    intro r
    exact Throws.pure _

theorem deletePage_throws (p : Nat) : Throws Exn.IsInvalidPage (deletePage (D := D) fn p) := by
  apply readHeader_throws.bind
  intro header
  apply (readPage_throws fn p).bind
  intro existingPage
  apply (unlinkUsed_throws fn _ _ _).bind
  intro r
  apply Throws.ite
  · intro _
    apply (writeWholePage_throws _ _ _).bind
    intro _
    apply (writeWholePage_throws _ _ _).bind
    intro _
    exact writeHeader_throws _
  · intro _
    apply (writeWholePage_throws _ _ _).bind
    intro _
    exact writeHeader_throws _

end PageFile

end CS640.Badger
