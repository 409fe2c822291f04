import Mathlib.Logic.Function.Basic
import Mathlib.Order.MinMax
import Mathlib.Tactic.Common
import CS640.Badger.Page
import Mathlib.Algebra.Group.Nat.Defs

/-!
# The stream under a file

A file on disk is a `FileHeader` followed by the pages, page `p` at `pagePosition p`. It is read and
written through one `std::fstream`. A read past the end of the file comes back short; what a short
read was to fill keeps what it held before, which is a fresh `Page` in `readPage` and whatever lies
on the stack in `readHeader` and `readPageHeader` (`junkHeader`, `junkPageHeader`).

A short read also sets `failbit`, and an `std::fstream` with `failbit` set ignores every further
seek, read and write. `sticky` says whether the stream behaves so: it is `true` for `std::fstream`,
and `false` for the idealised stream that always returns the bytes last written.
-/

namespace CS640.Badger

open CS640.Lib

/-- Metadata at the beginning of a file. -/
structure FileHeader where
  numPages : Nat
  firstUsedPage : Nat
  numFreePages : Nat
  firstFreePage : Nat
  deriving DecidableEq, Repr

/-- `sizeof(FileHeader)`. -/
abbrev fileHeaderSize : Nat := 16

/-- `File::pagePosition`. The subtraction is one of 32-bit words, so page `0` comes last. -/
def pagePosition (pageNumber : Nat) : Nat :=
  fileHeaderSize + (pageNumber + 2 ^ 32 - 1) % 2 ^ 32 * pageSize

/-- The bytes of a file, a page at a time, and the state of the stream on them. -/
structure FStream (D : Type) where
  header : FileHeader
  page : Nat → Page D
  size : Nat
  failbit : Bool
  sticky : Bool
  junkHeader : FileHeader
  junkPageHeader : PageHeader

namespace FStream

variable {D : Type}

/-- `n` bytes at position `pos` can be read. -/
def readable (s : FStream D) (pos n : Nat) : Bool := !s.failbit && decide (pos + n ≤ s.size)

/-- The stream after a short read. -/
def fail (s : FStream D) : FStream D := { s with failbit := s.failbit || s.sticky }

/-- `File::readHeader`. -/
def readHeader : Prog Exn (FStream D) FileHeader := fun s =>
  if s.readable 0 fileHeaderSize then (.ok s.header, s) else (.ok s.junkHeader, s.fail)

/-- `File::writeHeader`. -/
def writeHeader (header : FileHeader) : Prog Exn (FStream D) Unit := fun s =>
  if s.failbit then (.ok (), s)
  else (.ok (), { s with header := header, size := max s.size fileHeaderSize })

/-- The seek and the two reads of `readPage` into a fresh page. -/
def readWholePage [PageData D] (pageNumber : Nat) : Prog Exn (FStream D) (Page D) := fun s =>
  if s.readable (pagePosition pageNumber) pageSize then (.ok (s.page pageNumber), s)
  else (.ok Page.init, s.fail)

/-- `File::readPageHeader`. -/
def readPageHeader (pageNumber : Nat) : Prog Exn (FStream D) PageHeader := fun s =>
  if s.readable (pagePosition pageNumber) pageHeaderSize then (.ok (s.page pageNumber).header, s)
  else (.ok s.junkPageHeader, s.fail)

/-- `File::writePage(page_number, header, new_page)`. -/
def writeWholePage (pageNumber : Nat) (header : PageHeader) (newPage : Page D) :
    Prog Exn (FStream D) Unit := fun s =>
  if s.failbit then (.ok (), s)
  else
    (.ok (), { s with
      page := Function.update s.page pageNumber { newPage with header := header }
      size := max s.size (pagePosition pageNumber + pageSize) })

/-- The file holds the bytes of page `p`. -/
def Holds (s : FStream D) (p : Nat) : Prop := pagePosition p + pageSize ≤ s.size

/-- The stream can be used, and the file has its header. -/
structure Ready (s : FStream D) : Prop where
  failbit : s.failbit = false
  size : fileHeaderSize ≤ s.size

/-- The links between the pages on disk. -/
def next (s : FStream D) (p : Nat) : Nat := (s.page p).nextPageNumber

variable {s : FStream D} {p : Nat}

theorem fail_of_not_sticky (h : s.sticky = false) : s.fail = s := by
  cases s
  simp_all [fail]

theorem readHeader_apply (h : s.Ready) : readHeader s = (.ok s.header, s) := by
  simp [readHeader, readable, h.failbit, h.size]

/-- The stream after the file header has been written. -/
def setHeader (s : FStream D) (header : FileHeader) : FStream D := { s with header := header }

theorem writeHeader_apply (h : s.Ready) (header : FileHeader) :
    writeHeader header s = (.ok (), s.setHeader header) := by
  have hs : max s.size fileHeaderSize = s.size := max_eq_left h.size
  simp [writeHeader, h.failbit, hs, setHeader]

theorem readWholePage_apply [PageData D] (h : s.Ready) (hp : s.Holds p) :
    readWholePage p s = (.ok (s.page p), s) := by
  have hp : pagePosition p + pageSize ≤ s.size := hp
  simp [readWholePage, readable, h.failbit, hp]

theorem readPageHeader_apply (h : s.Ready) (hp : s.Holds p) :
    readPageHeader p s = (.ok (s.page p).header, s) := by
  have hp : pagePosition p + pageSize ≤ s.size := hp
  have hp : pagePosition p + pageHeaderSize ≤ s.size := by
    simp only [pageSize, pageHeaderSize] at hp ⊢; omega
  simp [readPageHeader, readable, h.failbit, hp]

/-- The stream after page `p` has been written with the bytes of `pg`. -/
def put (s : FStream D) (p : Nat) (pg : Page D) : FStream D :=
  { s with
    page := Function.update s.page p pg
    size := max s.size (pagePosition p + pageSize) }

theorem writeWholePage_apply (h : s.Ready) (hd : PageHeader) (pg : Page D) :
    writeWholePage p hd pg s = (.ok (), s.put p { pg with header := hd }) := by
  simp [writeWholePage, h.failbit, put]

@[simp] theorem put_header (pg : Page D) : (s.put p pg).header = s.header := rfl

@[simp] theorem put_sticky (pg : Page D) : (s.put p pg).sticky = s.sticky := rfl

@[simp] theorem put_page_self (pg : Page D) : (s.put p pg).page p = pg := by
  simp [put]

theorem put_page_of_ne {q : Nat} (pg : Page D) (h : q ≠ p) :
    (s.put p pg).page q = s.page q := by
  simp [put, h]

theorem Ready.put (h : s.Ready) (pg : Page D) : (s.put p pg).Ready :=
  ⟨h.failbit, le_trans h.size (le_max_left _ _)⟩

theorem Ready.setHeader (h : s.Ready) (header : FileHeader) : (s.setHeader header).Ready :=
  ⟨h.failbit, h.size⟩

theorem Holds.put (q : Nat) (pg : Page D) (h : s.Holds p) : (s.put q pg).Holds p :=
  le_trans h (le_max_left _ _)

theorem holds_put_self (pg : Page D) : (s.put p pg).Holds p := le_max_right _ _

end FStream

end CS640.Badger
