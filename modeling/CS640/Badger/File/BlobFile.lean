import CS640.Badger.File.PageFile

/-!
# Blob files and file objects

`BlobFile` of p3 numbers its pages and does nothing more for them: a page is whatever bytes were
written at its place, and no page is ever freed. A `File` object is a `PageFile` or a `BlobFile`
with a name; its virtual functions are those of its kind.
-/

namespace CS640.Badger

open CS640.Lib Prog FStream

variable {D : Type} [PageData D]

namespace BlobFile

/-- `BlobFile::readPage`. -/
def readPage (pageNumber : Nat) : Prog Exn (FStream D) (Page D) := readWholePage pageNumber

/-- `BlobFile::writePage`. -/
def writePage (pageNumber : Nat) (newPage : Page D) : Prog Exn (FStream D) Unit :=
  writeWholePage pageNumber newPage.header newPage

/-- `BlobFile::allocatePage`. The new page does not get a number of its own. -/
def allocatePage : Prog Exn (FStream D) (Nat × Page D) := do
  let header ← readHeader
  let newPageNumber := header.numPages
  let header :=
    if header.firstUsedPage = invalidNumber then { header with firstUsedPage := header.numPages }
    else header
  writePage newPageNumber Page.init
  writeHeader { header with numPages := header.numPages + 1 }
  pure (newPageNumber, Page.init)

theorem allocatePage_apply {s : FStream D} (h : s.Ready) :
    ∃ header : FileHeader, header.numPages = s.header.numPages + 1 ∧ allocatePage s =
      (.ok (s.header.numPages, Page.init), (s.put s.header.numPages Page.init).setHeader header) := by
  have hwrite : writePage s.header.numPages Page.init s = (.ok (), s.put s.header.numPages Page.init) :=
    writeWholePage_apply h _ Page.init
  let header := if s.header.firstUsedPage = invalidNumber then
    { s.header with firstUsedPage := s.header.numPages } else s.header
  have hpages : header.numPages = s.header.numPages := by
    dsimp only [header]
    split <;> rfl
  refine ⟨{ header with numPages := header.numPages + 1 }, congrArg (· + 1) hpages, ?_⟩
  rw [allocatePage, bind_of_ok (readHeader_apply h), bind_of_ok hwrite,
    bind_of_ok (writeHeader_apply (h.put _) _)]
  rfl

/-- `BlobFile::deletePage`, which is not supported. -/
def deletePage (filename : FileName) (pageNumber : Nat) : Prog Exn (FStream D) Unit :=
  throw (.invalidPage pageNumber filename)

end BlobFile

/-- The classes below `File`. -/
inductive FileKind where
  | page
  | blob
  deriving DecidableEq, Repr

/-- A `File` object. -/
structure FileObject where
  kind : FileKind
  filename : FileName
  deriving DecidableEq, Repr

namespace FileObject

variable (file : FileObject)

def readPage (pageNumber : Nat) : Prog Exn (FStream D) (Page D) :=
  match file.kind with
  | .page => PageFile.readPage file.filename pageNumber
  | .blob => BlobFile.readPage pageNumber

def writePage (pageNumber : Nat) (newPage : Page D) : Prog Exn (FStream D) Unit :=
  match file.kind with
  | .page => PageFile.writePage file.filename pageNumber newPage
  | .blob => BlobFile.writePage pageNumber newPage

def allocatePage : Prog Exn (FStream D) (Nat × Page D) :=
  match file.kind with
  | .page => PageFile.allocatePage file.filename
  | .blob => BlobFile.allocatePage

def deletePage (pageNumber : Nat) : Prog Exn (FStream D) Unit :=
  match file.kind with
  | .page => PageFile.deletePage file.filename pageNumber
  | .blob => BlobFile.deletePage file.filename pageNumber

end FileObject

end CS640.Badger
