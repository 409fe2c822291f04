import CS640.Badger.Buffer.P3
import CS640.Badger.Scan.Files
import CS640.Badger.Slotted.Page

/-!
# Scanning a relation

`FileScan` of `filescan.cpp`, with the iterators over the pages of a file and over the records of a
page. A scan has a `PageFile` object of its own and keeps the page it is at pinned. Its destructor gives
the pin back and deletes the object; the pages it has read stay in the pool.
-/

namespace CS640.Badger

open CS640.Lib Prog

variable {D : Type} [DataArea D]

/-- `PageIterator`. -/
structure PageIterator where
  page : Option Nat
  currentRecord : RecordId
  deriving DecidableEq, Repr

/-- `FileScan`. Its `FileIterator` is on `file` and is known by its page number. -/
structure FileScan where
  file : Nat
  curPage : Option Nat
  curDirtyFlag : Bool
  filePageIter : Nat
  pageRecordIter : PageIterator
  deriving DecidableEq, Repr

/-- A scan and the system it runs in. -/
structure Scanning (D : Type) where
  scan : FileScan
  sys : Sys D

/-! ## Iterators

An iterator over a page is at a record id of it, and slot 0 is the end. An iterator over a file is at a page
number, and takes the next one from the page that it is at.
-/

/-- `PageIterator::getNextUsedSlot`. -/
def Page.getNextUsedSlot (start : Nat) (p : Page D) : Nat :=
  ((List.range' (start + 1) (p.header.numSlots - start)).find? fun i => (p.slot i).used).getD
    invalidSlot

namespace PageIterator

/-- What a null pointer points to is not there. -/
def deref (page : Option Nat) : Prog Exn (Sys D) (Page D) := do
  let s ← get
  match page with
  | some i => pure (s.frame i)
  | none => exit .undefined

/-- `PageIterator::PageIterator`, which is `Page::begin`. -/
def begin (page : Option Nat) : Prog Exn (Sys D) PageIterator := do
  let p ← deref page
  pure ⟨page, ⟨p.pageNumber, p.getNextUsedSlot invalidSlot⟩⟩

/-- `PageIterator::operator++`. -/
def next (iter : PageIterator) : Prog Exn (Sys D) PageIterator := do
  assert iter.page.isSome
  let p ← deref iter.page
  pure ⟨iter.page, ⟨p.pageNumber, p.getNextUsedSlot iter.currentRecord.slotNumber⟩⟩

/-- `PageIterator::operator==`, against `Page::end` of a page. -/
def atEnd (iter : PageIterator) (page : Option Nat) : Prog Exn (Sys D) Bool := do
  let p ← deref page
  let q ← deref iter.page
  pure (q.pageNumber == p.pageNumber && iter.currentRecord == ⟨p.pageNumber, invalidSlot⟩)

/-- `PageIterator::operator*`. -/
def getRecord (iter : PageIterator) : Prog Exn (Sys D) (List UInt8) :=
  match iter.page with
  | some i => zoom (fun s => s.frame i) (Sys.setFrame i) (Page.getRecord iter.currentRecord)
  | none => exit .undefined

end PageIterator

namespace PageFile

/-- `PageFile::begin`. -/
def begin (file : Nat) : Prog Exn (Sys D) Nat := do
  let header ← BufMgr.onFile file fun _ => FStream.readHeader
  pure header.firstUsedPage

end PageFile

namespace FileScan

/-- A call on the pool, the files and the frames. -/
def onSys {α : Type} (x : Prog Exn (Sys D) α) : Prog Exn (Scanning D) α :=
  zoom Scanning.sys (fun sys t => { t with sys := sys }) x

/-- Change the members of the scan. -/
def set (f : FileScan → FileScan) : Prog Exn (Scanning D) Unit :=
  modify fun t => { t with scan := f t.scan }

/-- The members of the scan. -/
def self : Prog Exn (Scanning D) FileScan := do
  let t ← get
  pure t.scan

/-- `(*filePageIter).page_number()`, which reads the page from the file. -/
def pageNumber (scan : FileScan) : Prog Exn (Sys D) Nat := do
  let page ← BufMgr.onFile scan.file fun file => file.readPage scan.filePageIter
  pure page.pageNumber

/-- `FileScan::FileScan`, with the address of its `PageFile`. -/
def construct (file : Nat) (name : FileName) : Prog Exn (World D) FileScan := do
  File.construct file .page name false
  let iter ← World.onSys (PageFile.begin file)
  pure ⟨file, none, false, iter, ⟨none, ⟨invalidNumber, invalidSlot⟩⟩⟩

/-- Pin the page that `filePageIter` is at, and start on its records. -/
def readCurrent : Prog Exn (Scanning D) Unit := do
  let scan ← self
  let pageNo ← onSys (pageNumber scan)
  let frame ← onSys (P3.BufMgr.readPage scan.file pageNo)
  set fun scan => { scan with curPage := some frame }

/-- `pageRecordIter = curPage->begin()`. -/
def beginRecords : Prog Exn (Scanning D) Unit := do
  let scan ← self
  let iter ← onSys (PageIterator.begin scan.curPage)
  set fun scan => { scan with pageRecordIter := iter }

/-- `pageRecordIter == curPage->end()`. -/
def recordsDone : Prog Exn (Scanning D) Bool := do
  let scan ← self
  onSys (scan.pageRecordIter.atEnd scan.curPage)

/-- Read the record the scan is at, and return its id. -/
def current : Prog Exn (Scanning D) RecordId := do
  let scan ← self
  let _rec ← onSys scan.pageRecordIter.getRecord
  pure scan.pageRecordIter.currentRecord

/-- The loop of `scanNext`, for at most the given number of rounds. -/
def advance : (rounds : Nat) → Prog Exn (Scanning D) RecordId
  | 0 => exit .diverge
  | rounds + 1 => do
    let done ← recordsDone
    if done = true then do
      let scan ← self
      let pageNo ← onSys (pageNumber scan)
      onSys (P3.BufMgr.unPinPage scan.file pageNo scan.curDirtyFlag)
      set fun scan => { scan with curPage := none, curDirtyFlag := false }
      let header ← onSys (BufMgr.onFile scan.file fun _ => FStream.readPageHeader scan.filePageIter)
      set fun scan => { scan with filePageIter := header.nextPageNumber }
      if header.nextPageNumber = invalidNumber then throw .endOfFile
      else do
        readCurrent
        beginRecords
        advance rounds
    else current

/-- `++pageRecordIter`, and the loop. -/
def nextRecord (rounds : Nat) : Prog Exn (Scanning D) RecordId := do
  let scan ← self
  let iter ← onSys scan.pageRecordIter.next
  set fun scan => { scan with pageRecordIter := iter }
  advance rounds

/-- `FileScan::scanNext`, if its loop makes at most the given number of rounds. -/
def scanNext (rounds : Nat) : Prog Exn (Scanning D) RecordId := do
  let scan ← self
  if scan.filePageIter = invalidNumber then throw .endOfFile
  else if scan.curPage = none then do
    -- the first record of the first page of the file
    let iter ← onSys (PageFile.begin scan.file)
    set fun scan => { scan with filePageIter := iter }
    if iter = invalidNumber then throw .endOfFile
    else do
      readCurrent
      set fun scan => { scan with curDirtyFlag := false }
      beginRecords
      let done ← recordsDone
      if done = false then current
      else nextRecord rounds
  else nextRecord rounds

/-- `FileScan::getRecord`. -/
def getRecord : Prog Exn (Scanning D) (List UInt8) := do
  let scan ← self
  onSys scan.pageRecordIter.getRecord

/-- `FileScan::markDirty`. -/
def markDirty : Prog Exn (Scanning D) Unit := set fun scan => { scan with curDirtyFlag := true }

/-- `FileScan::~FileScan`. An exception that leaves a destructor ends the program. -/
def destroy (scan : FileScan) : Prog Exn (World D) Unit := do
  if scan.curPage.isSome = true then
    tryCatch
      (World.onSys do
        let pageNo ← pageNumber scan
        P3.BufMgr.unPinPage scan.file pageNo scan.curDirtyFlag
        let _iter ← PageFile.begin scan.file
        pure ())
      fun _ => some (exit .abort)
  else pure ()
  File.destroy scan.file

end FileScan

end CS640.Badger
