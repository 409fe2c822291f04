import CS640.Badger.BTree.Node
import CS640.Lib.Prog

/-!
# The index

`BTreeIndex` of `btree.cpp`: its pages, the way down its tree, its destructor and its scans, for keys of type
`INTEGER`. What inserts an entry, and the constructor, which does little else, are the same functions for all
key types and follow in `KeyTypes`.

The index reads and writes its pages through the buffer manager of p3, which is taken here to be a plain
store of pages with their pins: that it is one, as long as it finds frames, is what
`P3.BufMgr.transparent` says. All that is written to pages here is released dirty. A page that was never
written, page `0` among them, reads as a new page. An access to an array outside its bounds is undefined,
and so is reading a member that was not set.
-/

namespace CS640.Badger

open CS640.Lib Prog

/-- The values of `Operator`. -/
inductive Operator where
  | LT
  | LTE
  | GTE
  | GT
  deriving DecidableEq, Repr

/-- What the calls of an index throw. Unpinning a page that has no pin throws
`HashNotFoundException` instead when the page is no longer in the pool. -/
inductive IndexExn where
  | badIndexInfo
  | badOpcodes
  | badScanrange
  | indexScanCompleted
  | pageNotPinned (pageNo : Nat)
  | pagePinned
  | scanNotInitialized
  deriving DecidableEq, Repr

/-- `BTreeIndex`, with the pages of its file and the pins it has on them. -/
structure BTreeIndex where
  pages : Nat → Words
  numPages : Nat
  pins : List Nat
  rootPageNum : Nat
  attrByteOffset : Int
  scanExecuting : Bool
  nextEntry : Option Nat
  currentPageNum : Option Nat
  lowValInt : Int
  highValInt : Int
  lowOp : Operator
  highOp : Operator

namespace BTreeIndex

/-- A call on an index. -/
abbrev Call : Type → Type := Prog IndexExn BTreeIndex

/-- `headerPageNum`. -/
def headerPageNum : Nat := 1

/-- Before the constructor: nothing is set, and the file has no pages. -/
def new : BTreeIndex where
  pages := fun _ => Words.fresh
  numPages := 1
  pins := []
  rootPageNum := 0
  attrByteOffset := 0
  scanExecuting := false
  nextEntry := none
  currentPageNum := none
  lowValInt := 0
  highValInt := 0
  lowOp := .LT
  highOp := .LT

/-! ## Pages

The calls of the buffer manager that the index makes, as far as the index sees them: which page, and whether it is
pinned. An exception is thrown where a page is unpinned that has no pin, and where a file is flushed that has one.
-/

/-- `BufMgr::readPage`. -/
def readPage (pageNo : Nat) : Call Words := do
  modify fun s => { s with pins := pageNo :: s.pins }
  let s ← get
  pure (s.pages pageNo)

/-- `BufMgr::allocPage`. -/
def allocPage : Call Nat := do
  let s ← get
  modify fun s =>
    { s with
      pages := Function.update s.pages s.numPages Words.fresh
      numPages := s.numPages + 1
      pins := s.numPages :: s.pins }
  pure s.numPages

/-- `BufMgr::unPinPage`. -/
def unPinPage (pageNo : Nat) (_dirty : Bool) : Call Unit := do
  let s ← get
  if pageNo ∈ s.pins then modify fun s => { s with pins := s.pins.erase pageNo }
  else throw (.pageNotPinned pageNo)

/-- `BufMgr::flushFile`. -/
def flushFile : Call Unit := do
  let s ← get
  if s.pins = [] then pure () else throw .pagePinned

/-- Change a page that is pinned. -/
def update (pageNo : Nat) (f : Words → Words) : Call Unit :=
  modify fun s => { s with pages := Function.update s.pages pageNo (f (s.pages pageNo)) }

/-- An index into an array of the given size. -/
def inArray (size : Nat) (i : Int) : Call Nat :=
  if 0 ≤ i ∧ i < size then pure i.toNat else exit .undefined

/-- The value of a member, if it was set. -/
def member {α : Type} : Option α → Call α
  | some a => pure a
  | none => exit .undefined

/-! ## What the calls on pages do

One equation for each of them, for where it returns and where it does not, so that the calls of the index are
followed without looking into these.
-/

section Apply

variable {s : BTreeIndex}

theorem readPage_apply (pageNo : Nat) (s : BTreeIndex) :
    readPage pageNo s = (.ok (s.pages pageNo), { s with pins := pageNo :: s.pins }) := rfl

theorem unPinPage_head {pageNo : Nat} (pins : List Nat) (dirty : Bool)
    (h : s.pins = pageNo :: pins) :
    unPinPage pageNo dirty s = (.ok (), { s with pins := pins }) := by
  simp [unPinPage, bind_apply, h]

theorem update_apply (pageNo : Nat) (f : Words → Words) (s : BTreeIndex) :
    update pageNo f s =
      (.ok (), { s with pages := Function.update s.pages pageNo (f (s.pages pageNo)) }) := rfl

theorem allocPage_apply (s : BTreeIndex) : allocPage s = (.ok s.numPages, { s with
    pages := Function.update s.pages s.numPages Words.fresh
    numPages := s.numPages + 1
    pins := s.numPages :: s.pins }) := rfl

theorem inArray_ok {size : Nat} {i : Int} (h0 : 0 ≤ i) (h : i < size) :
    inArray size i s = (.ok i.toNat, s) := by
  simp [inArray, h0, h]

theorem inArray_undefined {size : Nat} {i : Int} (h : ¬ (0 ≤ i ∧ i < size)) :
    inArray size i s = (.error .undefined, s) := by
  simp only [inArray, if_neg h]
  rfl

end Apply

theorem inArray_preserves {I : BTreeIndex → Prop} (size : Nat) (i : Int) : Preserves I (inArray size i) :=
  .ite (fun _ => .pure _ fun _ h => h) fun _ => .exit _

/-! ## The way down

Both functions look in a node for the first key that is greater than the one they are given and go on at a child
next to it. Their loops end where the node has the expected level, so the steps are bounded by `fuel`.
-/

/-- The first index from `index` on, of at most `rounds`, whose key is greater than `key`, or the one
after them. -/
def keysUpTo (page : Words) (key : Int) : (rounds index : Nat) → Call Nat
  | 0, index => pure index
  | rounds + 1, index => do
    let i ← inArray intArrayNonLeafSize index
    if key ≥ NonLeafNodeInt.key page i then keysUpTo page key rounds (index + 1)
    else pure index

/-- Read `pageNoArray[index]`. -/
def child (page : Words) (index : Nat) : Call Nat := do
  let i ← inArray (intArrayNonLeafSize + 1) index
  pure (NonLeafNodeInt.pageNo page i)

section Untouched

variable {I : BTreeIndex → Prop}

theorem child_preserves (page : Words) (index : Nat) : Preserves I (child page index) :=
  (inArray_preserves _ _).bind fun _ => .pure _ fun _ h => h

theorem keysUpTo_preserves (page : Words) (key : Int) (rounds index : Nat) :
    Preserves I (keysUpTo page key rounds index) := by
  -- on the rounds that are left
  induction rounds generalizing index with
  | zero => exact .pure index fun _ h => h
  | succ rounds ih =>
      exact (inArray_preserves _ _).bind fun _ => .ite (fun _ => ih _) fun _ => .pure _ fun _ h => h

end Untouched

mutual

/-- `BTreeIndex::lookForTargetLeaf`, with at most `fuel` steps down or rounds of its loop. -/
def lookForTargetLeaf (key : Int) : (fuel root : Nat) → Call Nat
  | 0, _ => exit .diverge
  | fuel + 1, root => do
    let rootPage ← readPage root
    targetLoop key fuel root rootPage

/-- The loop of `lookForTargetLeaf`. Its inner loop goes on to `sizeof(keyArray)`, and where the page
below a node of level 1 has no greater key, it starts over. -/
def targetLoop (key : Int) : (fuel root : Nat) → (rootPage : Words) → Call Nat
  | 0, _, _ => exit .diverge
  | fuel + 1, root, rootPage =>
    if NonLeafNodeInt.level rootPage ≥ 1 then do
      let index ← keysUpTo rootPage key NonLeafNodeInt.keyArraySize 0
      let next ← child rootPage (index + 1)
      unPinPage root false
      if NonLeafNodeInt.level rootPage = 1 then do
        let nonleafPage ← readPage next
        let i ← keysUpTo nonleafPage key nonleafPage.validEntryNum.toNat 0
        if i < nonleafPage.validEntryNum then child nonleafPage i
        else targetLoop key fuel root rootPage
      else lookForTargetLeaf key fuel next
    else pure invalidNumber

end

/-- `BTreeIndex::lookForNonLeafAboveLeaf`, with at most `fuel` steps down. -/
def lookForNonLeafAboveLeaf (key targetLevel : Int) : (fuel root : Nat) → Call Nat
  | 0, _ => exit .diverge
  | fuel + 1, root => do
    let metapage ← readPage headerPageNum
    if IndexMetaInfo.isRootLeafPage metapage = true then pure (IndexMetaInfo.rootPageNo metapage)
    else do
      let rootPage ← readPage root
      if NonLeafNodeInt.level rootPage ≥ targetLevel then do
        let index ← keysUpTo rootPage key rootPage.validEntryNum.toNat 0
        let next ← child rootPage index
        unPinPage root false
        if NonLeafNodeInt.level rootPage = targetLevel then pure next
        else lookForNonLeafAboveLeaf key targetLevel fuel next
      else pure invalidNumber

/-! ## Keys and destruction

The key of a record, and the end of an index: no scan is executing, the current leaf is unpinned and the file is
flushed.
-/

/-- The `int` at `offset` of a record, which the constructor reads from `c_str()`. -/
def keyOf (offset : Int) (record : List UInt8) : Option Int :=
  if 0 ≤ offset ∧ offset + intSize ≤ record.length + 1 then
    some (signed (ofBytes (((record ++ [0]).drop offset.toNat).take intSize)))
  else none

/-- `BTreeIndex::~BTreeIndex`. An exception that leaves a destructor ends the program. -/
def destroy : Call Unit :=
  tryCatch
    (do
      modify fun s => { s with scanExecuting := false }
      let s ← get
      let currentPageNum ← member s.currentPageNum
      unPinPage currentPageNum false
      flushFile)
    fun _ => some (exit .abort)

/-! ## Scans

`startScan` looks for a leaf and for the entry in it to begin with, `scanNext` takes one entry, or goes to the
right sibling for it, and `endScan` gives up the pin on the current leaf. The members of the scan are not reset.
-/

/-- The loop of `startScan` over the keys of a leaf, from `index` on. -/
def seek (leaf : Words) (lowVal : Int) (lowOp : Operator) : (rounds index : Nat) → Call Unit
  | 0, _ => pure ()
  | rounds + 1, index => do
    let i ← inArray intArrayLeafSize index
    if lowVal ≥ LeafNodeInt.key leaf i then do
      modify fun s => { s with nextEntry := some i }
      if lowOp = .GTE ∧ lowVal = LeafNodeInt.key leaf i then pure ()
      else seek leaf lowVal lowOp rounds (index + 1)
    else seek leaf lowVal lowOp rounds (index + 1)

/-- Set the scan to an entry of the leaf it is to start in. -/
def seekInLeaf (leaf : Nat) : Call Unit := do
  modify fun s => { s with currentPageNum := some leaf }
  let leafNode ← readPage leaf
  let s ← get
  seek leafNode s.lowValInt s.lowOp leafNode.validEntryNum.toNat 0
  unPinPage leaf false

/-- The loop of `startScan` over the keys of a non-leaf node, from `targetIndex` on. -/
def leafIndex (page : Words) (lowVal : Int) (lowOp : Operator) :
    (rounds targetIndex : Nat) → Call Nat
  | 0, targetIndex => pure targetIndex
  | rounds + 1, targetIndex =>
    if lowOp = .GT ∨ lowOp = .GTE then do
      let i ← inArray intArrayNonLeafSize targetIndex
      if lowVal < NonLeafNodeInt.key page i then pure targetIndex
      else leafIndex page lowVal lowOp rounds (targetIndex + 1)
    else leafIndex page lowVal lowOp rounds (targetIndex + 1)

/-- `lowOp` and `highOp` are values of the enumeration. -/
def validOp (op : Operator) : Prop := ¬ (op ≠ .LT ∧ op ≠ .LTE ∧ op ≠ .GTE ∧ op ≠ .GT)

instance (op : Operator) : Decidable (validOp op) := inferInstanceAs (Decidable (¬ _))

/-- What `startScan` does after its checks, which leave a pin on the meta page. -/
def beginScan (fuel : Nat) (rootIsLeaf : Bool) : Call Unit := do
  let s ← get
  if rootIsLeaf = false then do
    let target ← lookForNonLeafAboveLeaf s.lowValInt 1 fuel s.rootPageNum
    let nonleafPage ← readPage target
    let targetIndex ← leafIndex nonleafPage s.lowValInt s.lowOp nonleafPage.validEntryNum.toNat 0
    if targetIndex ≥ nonleafPage.validEntryNum then throw .badScanrange
    else do
      let leaf ← child nonleafPage targetIndex
      unPinPage target false
      seekInLeaf leaf
  else seekInLeaf s.rootPageNum

/-- `BTreeIndex::startScan`; `fuel` is for the way down to a leaf. -/
def startScan (fuel : Nat) (lowVal : Int) (lowOp : Operator) (highVal : Int) (highOp : Operator) :
    Call Unit := do
  let s ← get
  if s.scanExecuting = true then pure ()
  else do
    modify fun s => { s with scanExecuting := true, lowOp := lowOp, highOp := highOp }
    if ¬ validOp lowOp ∨ ¬ validOp highOp then do
      modify fun s => { s with scanExecuting := false }
      throw .badOpcodes
    else do
      let metapage ← readPage headerPageNum
      modify fun s => { s with lowValInt := lowVal, highValInt := highVal }
      if lowVal > highVal then do
        modify fun s => { s with scanExecuting := false }
        throw .badScanrange
      else beginScan fuel (IndexMetaInfo.isRootLeafPage metapage)

/-- The leaf that `scanNext` takes its entry from: the current one, or the one to its right. Returns
its page number, the leaf and the index of the entry. -/
def nextLeaf : Call (Nat × Words × Nat) := do
  let s ← get
  let currentPageNum ← member s.currentPageNum
  let leafNode ← readPage currentPageNum
  let nextEntry ← member s.nextEntry
  if nextEntry ≥ leafNode.validEntryNum then do
    let rightSib := LeafNodeInt.rightSibPageNo leafNode
    unPinPage currentPageNum false
    modify fun s => { s with currentPageNum := some rightSib }
    let leafNode ← readPage rightSib
    modify fun s => { s with nextEntry := some 0 }
    pure (rightSib, leafNode, 0)
  else pure (currentPageNum, leafNode, nextEntry)

/-- `BTreeIndex::scanNext`. Returns what is in `outRid` afterwards. -/
def scanNext (outRid : RecordId) : Call RecordId := do
  let s ← get
  if s.scanExecuting = false then throw .scanNotInitialized
  else do
    let (currentPageNum, leafNode, nextEntry) ← nextLeaf
    if nextEntry < leafNode.validEntryNum then do
      let i ← inArray intArrayLeafSize nextEntry
      if s.highOp = .LT ∧ LeafNodeInt.key leafNode i = s.highValInt then do
        unPinPage currentPageNum false
        throw .indexScanCompleted
      else if LeafNodeInt.key leafNode i > s.highValInt then do
        unPinPage currentPageNum false
        throw .indexScanCompleted
      else do
        modify fun s => { s with nextEntry := some (nextEntry + 1) }
        pure (LeafNodeInt.rid leafNode i)
    else pure outRid

/-- `BTreeIndex::endScan`. -/
def endScan : Call Unit := do
  let s ← get
  if s.scanExecuting = false then throw .scanNotInitialized
  else do
    let currentPageNum ← member s.currentPageNum
    unPinPage currentPageNum false
    modify fun s => { s with scanExecuting := false }

end BTreeIndex
end CS640.Badger
