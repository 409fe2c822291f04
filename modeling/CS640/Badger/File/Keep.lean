import CS640.Badger.File.BlobFile

/-!
# What the operations on files keep

A property of the stream that its reads and writes keep is kept by the functions of `PageFile` and
`BlobFile`, and so by those of every `File` object.

One such property is whether a short read costs the stream (`allKeep_sticky`): it is a property of the class
of the stream, and no operation changes it.
-/

namespace CS640.Badger

open CS640.Lib Prog FStream

variable {D : Type}

namespace FStream

/-! ## Paged files

Every operation is put together from five: the reads of the file header, of a page and of its header, and
the two writes. What these five keep, the operations keep, whatever they find in the file and however they
end. A `readPage` needs the reads only. -/

/-- The reads keep `I`. -/
structure ReadsKeep [PageData D] (I : FStream D → Prop) : Prop where
  header : Keeps I readHeader
  page : ∀ n, Keeps I (readWholePage n)
  pageHeader : ∀ n, Keeps I (readPageHeader n)

/-- So do the writes. -/
structure AllKeep [PageData D] (I : FStream D → Prop) : Prop extends ReadsKeep I where
  writePage : ∀ n header page, Keeps I (writeWholePage n header page)
  writeHeader : ∀ header, Keeps I (writeHeader header)

namespace ReadsKeep

variable [PageData D] {I : FStream D → Prop} (h : ReadsKeep I) (fn : FileName)

include h

theorem readPageAllow (n : Nat) (allow : Bool) : Keeps I (PageFile.readPageAllow fn n allow) := by
  apply (h.page n).bind
  intro page
  exact Keeps.ite (fun _ => Keeps.throw _) fun _ => Keeps.pure page

theorem readPage (n : Nat) : Keeps I (PageFile.readPage fn n) := by
  apply h.header.bind
  intro header
  exact Keeps.ite (fun _ => Keeps.throw _) fun _ => h.readPageAllow fn n false

theorem walkFrom (stop : Page D → Bool) :
    ∀ (fuel iter : Nat) (last : Option (Page D)), Keeps I (PageFile.walkFrom fn stop fuel iter last) := by
  intro fuel
  induction fuel with
  | zero => exact fun _ _ => Keeps.exit _
  | succ fuel ih =>
      intro iter last
      apply Keeps.ite
      · exact fun _ => Keeps.pure _
      · intro _
        apply (h.readPage fn iter).bind
        intro page
        apply Keeps.ite
        · exact fun _ => Keeps.pure _
        · intro _
          apply (h.pageHeader iter).bind
          exact fun header => ih _ _

theorem walk (stop : Page D → Bool) : Keeps I (PageFile.walk fn stop) := by
  apply h.header.bind
  exact fun header => h.walkFrom fn stop _ _ _

end ReadsKeep

namespace AllKeep

variable [PageData D] {I : FStream D → Prop} (h : AllKeep I) (fn : FileName)

include h

theorem storeAllocated (header : FileHeader) (newPage existingPage : Page D) :
    Keeps I (PageFile.storeAllocated header newPage existingPage) := by
  apply (h.writePage _ _ _).bind
  intro _
  apply Keeps.ite
  · intro _
    apply (h.writePage _ _ _).bind
    intro _
    exact (h.writeHeader _).bind fun _ => Keeps.pure _
  · intro _
    exact (h.writeHeader _).bind fun _ => Keeps.pure _

theorem allocatePage : Keeps I (PageFile.allocatePage (D := D) fn) := by
  apply h.header.bind
  intro header
  apply Keeps.ite
  · intro _
    apply (h.readPageAllow fn _ _).bind
    intro freePage
    apply Keeps.bind
    · apply Keeps.ite
      · exact fun _ => Keeps.pure _
      · intro _
        exact (h.walk fn _).bind fun _ => Keeps.pure _
    · intro r
      apply Keeps.bind
      · exact Keeps.ite (fun _ => Keeps.pure _) fun _ => Keeps.exit _
      · exact fun _ => h.storeAllocated _ _ _
  · intro _
    apply Keeps.bind
    · apply Keeps.ite
      · exact fun _ => Keeps.pure _
      · intro _
        apply (h.walk fn _).bind
        intro r
        apply Keeps.bind
        · exact Keeps.ite (fun _ => Keeps.pure _) fun _ => Keeps.exit _
        · exact fun _ => Keeps.pure _
    · exact fun r => h.storeAllocated _ _ _

theorem deletePage (n : Nat) : Keeps I (PageFile.deletePage fn n) := by
  apply h.header.bind
  intro header
  apply (h.readPage fn n).bind
  intro existingPage
  apply Keeps.bind
  · apply Keeps.ite
    · exact fun _ => Keeps.pure _
    · intro _
      exact (h.walk fn _).bind fun _ => Keeps.pure _
  · intro r
    apply Keeps.ite
    · intro _
      apply (h.writePage _ _ _).bind
      intro _
      exact (h.writePage _ _ _).bind fun _ => h.writeHeader _
    · intro _
      exact (h.writePage _ _ _).bind fun _ => h.writeHeader _

theorem writePageChecked (n : Nat) (page : Page D) : Keeps I (PageFile.writePage fn n page) := by
  apply (h.pageHeader n).bind
  intro header
  exact Keeps.ite (fun _ => Keeps.throw _) fun _ => h.writePage _ _ _

end AllKeep

/-! ## File objects

The virtual functions of `File`. A `BlobFile` does one read or write, or a few in a row. -/

namespace AllKeep

variable [PageData D] {I : FStream D → Prop} (h : AllKeep I) (file : FileObject)

include h

theorem object_readPage (n : Nat) : Keeps I (file.readPage n) := by
  obtain ⟨kind, fn⟩ := file
  cases kind with
  | page => exact h.readPage fn n
  | blob => exact h.page n

theorem object_writePage (n : Nat) (page : Page D) : Keeps I (file.writePage n page) := by
  obtain ⟨kind, fn⟩ := file
  cases kind with
  | page => exact h.writePageChecked fn n page
  | blob => exact h.writePage n page.header page

theorem object_allocatePage : Keeps I (file.allocatePage (D := D)) := by
  obtain ⟨kind, fn⟩ := file
  cases kind with
  | page => exact h.allocatePage fn
  | blob =>
      apply h.header.bind
      intro header
      apply (h.writePage _ _ _).bind
      intro _
      exact (h.writeHeader _).bind fun _ => Keeps.pure _

theorem object_deletePage (n : Nat) : Keeps I (file.deletePage (D := D) n) := by
  obtain ⟨kind, fn⟩ := file
  cases kind with
  | page => exact h.deletePage fn n
  | blob => exact Keeps.throw _

end AllKeep

/-- A stream stays of its kind. -/
theorem allKeep_sticky [PageData D] (b : Bool) : AllKeep fun s : FStream D => s.sticky = b where
  header := Keeps.of_state fun s hs => by
    unfold readHeader
    split <;> exact hs
  page n := Keeps.of_state fun s hs => by
    unfold readWholePage
    split <;> exact hs
  pageHeader n := Keeps.of_state fun s hs => by
    unfold readPageHeader
    split <;> exact hs
  writePage n header page := Keeps.of_state fun s hs => by
    unfold writeWholePage
    split <;> exact hs
  writeHeader header := Keeps.of_state fun s hs => by
    unfold FStream.writeHeader
    split <;> exact hs

end FStream

end CS640.Badger
