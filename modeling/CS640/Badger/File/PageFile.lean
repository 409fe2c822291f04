import CS640.Badger.File.Stream

/-!
# Paged files

`PageFile` of `p3/btree/src/file.cpp`, which is the class `File` of `p2/bufmgr/src/file.cpp`: the
used pages of a file are linked in a list that starts in the file header, and so are the free ones.
The two versions differ in how the page number is passed to `writePage` and returned by
`allocatePage`, and in nothing else.

The walks over the used list (`FileIterator`) are one definition, `walk`, with the condition of
their `break` as a parameter. A used list with a cycle is walked forever; the model says so with
`Exit.diverge`, after more rounds than the file has pages.
-/

namespace CS640.Badger

open CS640.Lib Prog FStream

namespace PageFile

variable {D : Type} [PageData D] (filename : FileName)

/-- `readPage(page_number, allow_free)`. -/
def readPageAllow (pageNumber : Nat) (allowFree : Bool) : Prog Exn (FStream D) (Page D) := do
  let page ← readWholePage pageNumber
  if !allowFree && !page.isUsed then throw (.invalidPage pageNumber filename)
  else pure page

/-- `readPage(page_number)`, which is also `FileIterator::operator*`. -/
def readPage (pageNumber : Nat) : Prog Exn (FStream D) (Page D) := do
  let header ← readHeader
  if pageNumber ≥ header.numPages then throw (.invalidPage pageNumber filename)
  else readPageAllow filename pageNumber false

/-- At most `fuel` rounds of `for (iter = ...; iter != end(); ++iter)` with a body that reads `*iter`
and breaks at a page with `stop`. Returns the page met last, and whether the loop was left by the
`break`. -/
def walkFrom (stop : Page D → Bool) :
    (fuel : Nat) → (iter : Nat) → (last : Option (Page D)) →
      Prog Exn (FStream D) (Option (Page D) × Bool)
  | 0, _, _ => exit .diverge
  | fuel + 1, iter, last => do
    if iter = invalidNumber then pure (last, false)
    else
      let page ← readPage filename iter
      if stop page then pure (some page, true)
      else
        let header ← readPageHeader iter
        walkFrom stop fuel header.nextPageNumber (some page)

/-- The loop from `begin()`. -/
def walk (stop : Page D → Bool) : Prog Exn (FStream D) (Option (Page D) × Bool) := do
  let header ← readHeader
  walkFrom filename stop (header.numPages + 1) header.firstUsedPage none

/-- At most `fuel` rounds of a `FileIterator` loop that reads every page. -/
def iterateFrom : (fuel : Nat) → (iter : Nat) → Prog Exn (FStream D) (List (Page D))
  | 0, _ => exit .diverge
  | fuel + 1, iter => do
    if iter = invalidNumber then pure []
    else
      let page ← readPage filename iter
      let header ← readPageHeader iter
      let rest ← iterateFrom fuel header.nextPageNumber
      pure (page :: rest)

/-- The pages a `FileIterator` enumerates, from `begin()` to `end()`. -/
def iterate : Prog Exn (FStream D) (List (Page D)) := do
  let header ← readHeader
  iterateFrom filename (header.numPages + 1) header.firstUsedPage

/-- The first branch of `allocatePage` after a page has been taken off the free list: its place in
the used list. Returns the new file header, the new page and the page before it, or a fresh page if
there is none. -/
def insertReused (header : FileHeader) (newPage : Page D) :
    Prog Exn (FStream D) (FileHeader × Page D × Page D) := do
  if header.firstUsedPage = invalidNumber ∨ header.firstUsedPage > newPage.pageNumber then
    let linked :=
      if header.firstUsedPage > newPage.pageNumber then
        newPage.setNextPageNumber header.firstUsedPage
      else newPage
    pure ({ header with firstUsedPage := newPage.pageNumber }, linked, Page.init)
  else
    let (last, found) ← walk filename fun page =>
      decide (page.nextPageNumber > newPage.pageNumber) || page.nextPageNumber == invalidNumber
    let nextPageNumber := (last.map Page.nextPageNumber).getD invalidNumber
    let existingPage := if found then last.getD Page.init else Page.init
    pure (header, newPage.setNextPageNumber nextPageNumber,
      existingPage.setNextPageNumber newPage.pageNumber)

/-- The other branch: a new page at the end of the file and of the used list. -/
def appendNew (header : FileHeader) : Prog Exn (FStream D) (FileHeader × Page D × Page D) := do
  let newPage := Page.init.setPageNumber header.numPages
  if header.firstUsedPage = invalidNumber then
    pure ({ header with firstUsedPage := newPage.pageNumber, numPages := header.numPages + 1 },
      newPage, Page.init)
  else
    let (last, found) ← walk filename fun page => page.nextPageNumber == invalidNumber
    let existingPage := if found then last.getD Page.init else Page.init
    assert existingPage.isUsed
    pure ({ header with numPages := header.numPages + 1 }, newPage,
      existingPage.setNextPageNumber newPage.pageNumber)

/-- The writes at the end of `allocatePage`. -/
def storeAllocated (header : FileHeader) (newPage existingPage : Page D) :
    Prog Exn (FStream D) (Nat × Page D) := do
  writeWholePage newPage.pageNumber newPage.header newPage
  if existingPage.pageNumber ≠ invalidNumber then
    writeWholePage existingPage.pageNumber existingPage.header existingPage
  writeHeader header
  pure (newPage.pageNumber, newPage)

/-- `allocatePage`. -/
def allocatePage : Prog Exn (FStream D) (Nat × Page D) := do
  let header ← readHeader
  if header.numFreePages > 0 then
    let freePage ← readPageAllow filename header.firstFreePage true
    let freePage := freePage.setPageNumber header.firstFreePage
    let header :=
      { header with
        firstFreePage := freePage.nextPageNumber
        numFreePages := header.numFreePages - 1 }
    let (header, newPage, existingPage) ← insertReused filename header freePage
    assert ((header.numFreePages == 0) == (header.firstFreePage == invalidNumber))
    storeAllocated header newPage existingPage
  else
    let (header, newPage, existingPage) ← appendNew filename header
    storeAllocated header newPage existingPage

/-- `writePage(page_number, new_page)`. The link to the next page is kept as it is on disk. -/
def writePage (pageNumber : Nat) (newPage : Page D) : Prog Exn (FStream D) Unit := do
  let header ← readPageHeader pageNumber
  if header.currentPageNumber = invalidNumber then throw (.invalidPage pageNumber filename)
  else
    writeWholePage pageNumber { newPage.header with nextPageNumber := header.nextPageNumber } newPage

/-- The part of `deletePage` that takes a page out of the used list, on the file header and the page
before it; a fresh page stands for none. -/
def unlinkUsed (header : FileHeader) (pageNumber : Nat) (existingPage : Page D) :
    Prog Exn (FStream D) (FileHeader × Page D) := do
  if pageNumber = header.firstUsedPage then
    pure ({ header with firstUsedPage := existingPage.nextPageNumber }, Page.init)
  else
    let (last, found) ← walk filename fun page => page.nextPageNumber == existingPage.pageNumber
    let previousPage := last.getD Page.init
    pure (header,
      if found then previousPage.setNextPageNumber existingPage.nextPageNumber else previousPage)

/-- `deletePage`. -/
def deletePage (pageNumber : Nat) : Prog Exn (FStream D) Unit := do
  let header ← readHeader
  let existingPage ← readPage filename pageNumber
  let (header, previousPage) ← unlinkUsed filename header pageNumber existingPage
  let freePage := Page.init.setNextPageNumber header.firstFreePage
  if previousPage.isUsed then
    writeWholePage previousPage.pageNumber previousPage.header previousPage
  writeWholePage pageNumber freePage.header freePage
  writeHeader
    { header with firstFreePage := pageNumber, numFreePages := header.numFreePages + 1 }

/-- The stream of a newly created file. -/
def newStream (sticky : Bool) (junkHeader : FileHeader) (junkPageHeader : PageHeader) :
    FStream D where
  header := ⟨1, 0, 0, 0⟩
  page := fun _ => Page.zero
  size := fileHeaderSize
  failbit := false
  sticky := sticky
  junkHeader := junkHeader
  junkPageHeader := junkPageHeader

end PageFile

namespace P2.File

variable {D : Type} [PageData D] (filename : FileName)

/-- `File::allocatePage` of p2. -/
def allocatePage : Prog Exn (FStream D) (Page D) := do
  let (_, newPage) ← PageFile.allocatePage filename
  pure newPage

/-- `File::writePage` of p2, which takes the page number from the page. -/
def writePage (newPage : Page D) : Prog Exn (FStream D) Unit :=
  PageFile.writePage filename newPage.pageNumber newPage

end P2.File

end CS640.Badger
