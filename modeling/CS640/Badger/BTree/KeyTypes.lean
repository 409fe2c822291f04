import CS640.Badger.BTree.Index

/-!
# Indices over keys of any type

The functions of `btree.cpp` that insert an entry are templates over the structure of a leaf, and those that only
copy branch on the type of the key. Here a `LeafFormat` is what a leaf looks like and a `KeyType` is what else
depends on the key, and every function is written once: `insertLeafPage` for a `LeafFormat`, and `insertEntry` and
the constructor for a `KeyType`. For keys of type `INTEGER` they are the functions of `BTreeIndex` at the end.

A `double` is its two words. For a key of type `STRING` the functions are given the address of a `std::string`
and copy what is there, so the bytes of that object are a parameter, and so is the way down below a root that
is no leaf, which no constructor takes (`insertEntry_preserves`).

`splitAndInsertLeafPage` takes `sizeof(keyArray)`, a number of bytes, for the number of keys, and so the
first entry it moves is not in the arrays (`splitAndInsertLeafPage_undefined`): what it does afterwards,
and the functions for non-leaf nodes that only it calls, is not modelled.
-/

namespace CS640.Badger

open CS640.Lib Prog

/-- `Datatype`. -/
inductive Datatype where
  | INTEGER
  | DOUBLE
  | STRING
  deriving DecidableEq, Repr

/-- The value of the enumerator. -/
def Datatype.value : Datatype → Int
  | .INTEGER => 0
  | .DOUBLE => 1
  | .STRING => 2

theorem Datatype.value_inj {type type' : Datatype} (h : type.value = type'.value) : type = type' := by
  cases type <;> cases type' <;> first | rfl | cases h

/-! ## Sizes

What `INTARRAYLEAFSIZE` is for leaves with keys of type `INTEGER`, which are in `Node`.
-/

/-- `sizeof(double)`. -/
def doubleSize : Nat := 8

/-- `STRINGSIZE`. -/
def stringSize : Nat := 10

/-- `DOUBLEARRAYLEAFSIZE`. -/
def doubleArrayLeafSize : Nat := (pageSize - pageIdSize - intSize) / (doubleSize + recordIdSize)

/-- `STRINGARRAYLEAFSIZE`. -/
def stringArrayLeafSize : Nat := (pageSize - pageIdSize - intSize) / (10 + recordIdSize)

/-! ## Leaves

`LeafNodeDouble` and `LeafNodeString`. In the one the keys begin at an address that their size divides, so there
is a word between the number of entries and them; in the other they are bytes, ten a key, and the record ids begin
at the first word behind them.
-/

/-- The characters up to the `NUL`. -/
def cString (src : List UInt8) : List UInt8 := src.takeWhile (· ≠ 0)

/-- What `strncpy(dest, src, n)` writes. -/
def strncpy (n : Nat) (src : List UInt8) : List UInt8 :=
  cString (src.take n) ++ List.replicate (n - (cString (src.take n)).length) 0

/-- The record id in two words. -/
def ridAt (p : Words) (i : Nat) : RecordId := ⟨(p i).toNat, (p (i + 1)).toNat⟩

def setRidAt (p : Words) (i : Nat) (r : RecordId) : Words := (p.set i r.pageNumber).set (i + 1) r.slotNumber

namespace LeafNodeDouble

/-- The keys begin at an address that is divisible by their size. -/
def key (p : Words) (i : Nat) : Int × Int := (p (2 + 2 * i), p (2 + 2 * i + 1))

def rid (p : Words) (i : Nat) : RecordId := ridAt p (2 + 2 * doubleArrayLeafSize + 2 * i)

def setEntry (p : Words) (i : Nat) (k : Int × Int) (r : RecordId) : Words :=
  setRidAt ((p.set (2 + 2 * i) k.1).set (2 + 2 * i + 1) k.2) (2 + 2 * doubleArrayLeafSize + 2 * i) r

end LeafNodeDouble

namespace LeafNodeString

/-- The bytes of key `i` begin here. -/
def keyByte (i : Nat) : Nat := intSize + stringSize * i

/-- `ridArray` begins at this word. -/
def ridWord : Nat := (intSize + stringSize * stringArrayLeafSize) / 4

def key (p : Words) (i : Nat) : List UInt8 :=
  (List.range stringSize).map fun k => UInt8.ofNat (p.byte (keyByte i + k)).toNat

def rid (p : Words) (i : Nat) : RecordId := ridAt p (ridWord + 2 * i)

def setEntry (p : Words) (i : Nat) (k : List UInt8) (r : RecordId) : Words :=
  setRidAt (Words.copyBytes (keyByte i) (strncpy stringSize k) p) (ridWord + 2 * i) r

end LeafNodeString

/-! ## Keys of records

What the constructor reads from a record that a scan returned, at the offset of the attribute: the characters of
`c_str()`, so there is one more than the record has, and behind it nothing is defined.
-/

/-- The `double` at `offset` of a record. -/
def doubleOf (offset : Int) (record : List UInt8) : Option (Int × Int) :=
  if 0 ≤ offset ∧ offset + doubleSize ≤ record.length + 1 then
    let bytes := ((record ++ [0]).drop offset.toNat).take doubleSize
    some (signed (ofBytes (bytes.take 4)), signed (ofBytes (bytes.drop 4)))
  else none

/-- The string at `offset` of a record, which must end within `keyHolder`. -/
def stringOf (offset : Int) (record : List UInt8) : Option (List UInt8) :=
  if 0 ≤ offset ∧ offset ≤ record.length then
    let keyHolder := strncpy stringSize ((record ++ [0]).drop offset.toNat)
    if 0 ∈ keyHolder then some (cString keyHolder) else none
  else none

/-! ## What a leaf looks like

The entries of a leaf are two arrays, of keys and of record ids, and the templates see them only through their
sizes and through reading and writing the entry at an index. A leaf has room for some entries, and a key has more
than one byte: that is all that the results about any format rest on.
-/

/-- `T_leafFormat`. -/
structure LeafFormat where
  Key : Type
  leafSize : Nat
  keySize : Nat
  key : Words → Nat → Key
  rid : Words → Nat → RecordId
  setEntry : Words → Nat → Key → RecordId → Words
  leafSize_pos : 0 < leafSize
  keySize_ge : 2 ≤ keySize

namespace LeafFormat

/-- Leaves with keys of type `INTEGER`. -/
def int : LeafFormat where
  Key := Int
  leafSize := intArrayLeafSize
  keySize := intSize
  key := LeafNodeInt.key
  rid := LeafNodeInt.rid
  setEntry := LeafNodeInt.setEntry
  leafSize_pos := by decide
  keySize_ge := by decide

/-- Leaves with keys of type `DOUBLE`. -/
def double : LeafFormat where
  Key := Int × Int
  leafSize := doubleArrayLeafSize
  keySize := doubleSize
  key := LeafNodeDouble.key
  rid := LeafNodeDouble.rid
  setEntry := LeafNodeDouble.setEntry
  leafSize_pos := by decide
  keySize_ge := by decide

/-- Leaves with keys of type `STRING`. -/
def string : LeafFormat where
  Key := List UInt8
  leafSize := stringArrayLeafSize
  keySize := stringSize
  key := LeafNodeString.key
  rid := LeafNodeString.rid
  setEntry := LeafNodeString.setEntry
  leafSize_pos := by decide
  keySize_ge := by decide

open BTreeIndex

variable (F : LeafFormat)

/-- `sizeof(keyArray)`. -/
def keyArraySize : Nat := F.leafSize * F.keySize

/-- `sizeof(ridArray)`. -/
def ridArraySize : Nat := F.leafSize * recordIdSize

/-- `BTreeIndex::copyToLeaf`. -/
def copyToLeaf (page : Nat) (index : Int) (key : F.Key) (rid : RecordId) : Call Unit := do
  let i ← inArray F.leafSize index
  update page fun p => F.setEntry p i key rid

/-- `end_of_array` of `splitAndInsertLeafPage`. -/
def endOfArray : Nat :=
  if F.keyArraySize % 2 > 0 then F.keyArraySize / 2 + 1 else F.keyArraySize / 2

/-- `BTreeIndex::splitAndInsertLeafPage`, to the end of its first loop, which no run gets past. -/
def splitAndInsertLeafPage (firstLeaf : Nat) : Call Unit := do
  let _firstLeafPage ← readPage firstLeaf
  let secondLeaf ← allocPage
  update firstLeaf fun p => p.setValidEntryNum F.endOfArray
  update secondLeaf fun p => p.setValidEntryNum (F.keyArraySize - F.endOfArray)
  forRange F.endOfArray fun secondArrayIndex => do
    let i ← inArray F.leafSize (secondArrayIndex + F.endOfArray)
    let s ← get
    F.copyToLeaf secondLeaf secondArrayIndex (F.key (s.pages firstLeaf) i) (F.rid (s.pages firstLeaf) i)

/-- `BTreeIndex::insertLeafPage`. -/
def insertLeafPage (firstLeaf : Nat) (key : F.Key) (rid : RecordId) : Call Unit := do
  let firstLeafPage ← readPage firstLeaf
  let index := firstLeafPage.validEntryNum
  if index < F.ridArraySize then do
    F.copyToLeaf firstLeaf index key rid
    update firstLeaf fun p => p.setValidEntryNum (p.validEntryNum + 1)
    unPinPage firstLeaf true
  else do
    unPinPage firstLeaf false
    F.splitAndInsertLeafPage firstLeaf

/-! ## Inserting into a leaf

Three cases: there is room; there is none, but there are fewer entries than `ridArray` has bytes; or there are as
many, and then the leaf is split. Only in the first does the call return.
-/

variable {s : BTreeIndex} {page : Nat}

theorem leafSize_le_ridArraySize : F.leafSize ≤ F.ridArraySize :=
  Nat.le_mul_of_pos_right _ (by decide)

theorem copyToLeaf_apply {i : Int} (h0 : 0 ≤ i) (h : i < F.leafSize) (k : F.Key) (r : RecordId) :
    F.copyToLeaf page i k r s = (.ok (), { s with
      pages := Function.update s.pages page (F.setEntry (s.pages page) i.toNat k r) }) := by
  rw [copyToLeaf, bind_of_ok (inArray_ok h0 h), update_apply]

/-- The leaf with one more entry: it is written behind the others, and then it is counted. -/
def append (p : Words) (k : F.Key) (r : RecordId) : Words :=
  let q := F.setEntry p p.validEntryNum.toNat k r
  q.setValidEntryNum (q.validEntryNum + 1)

theorem insertLeafPage_room (h0 : 0 ≤ (s.pages page).validEntryNum)
    (hroom : (s.pages page).validEntryNum < F.leafSize) (k : F.Key) (r : RecordId) :
    F.insertLeafPage page k r s = (.ok (), { s with
      pages := Function.update s.pages page (F.append (s.pages page) k r) }) := by
  have hsize : (s.pages page).validEntryNum < F.ridArraySize := by
    have hle := F.leafSize_le_ridArraySize
    omega
  rw [insertLeafPage, bind_of_ok (readPage_apply page s)]
  rw [if_pos hsize, bind_of_ok (F.copyToLeaf_apply h0 hroom k r), bind_of_ok (update_apply _ _ _),
    unPinPage_head s.pins true rfl]
  dsimp only
  rw [Function.update_idem, Function.update_self, append]

/-- Without room it is written outside the arrays, as long as the number of entries is below that of bytes. -/
theorem insertLeafPage_outside (hsize : (s.pages page).validEntryNum < F.ridArraySize)
    (hout : ¬ (0 ≤ (s.pages page).validEntryNum ∧ (s.pages page).validEntryNum < F.leafSize)) (k : F.Key)
    (r : RecordId) : F.insertLeafPage page k r s = (.error .undefined, { s with pins := page :: s.pins }) := by
  have hcopy : ∀ t, F.copyToLeaf page (s.pages page).validEntryNum k r t = (.error .undefined, t) := fun t =>
    bind_of_error (inArray_undefined hout)
  rw [insertLeafPage, bind_of_ok (readPage_apply page s)]
  rw [if_pos hsize, bind_of_error (hcopy _)]

/-- The first entry that a split moves is not in the arrays. -/
theorem splitAndInsertLeafPage_undefined (firstLeaf : Nat) (s : BTreeIndex) :
    ∃ t, F.splitAndInsertLeafPage firstLeaf s = (.error .undefined, t) := by
  have hsize : F.leafSize * 2 ≤ F.keyArraySize := Nat.mul_le_mul_left F.leafSize F.keySize_ge
  have hpos := F.leafSize_pos
  have hend : F.leafSize ≤ F.endOfArray := by
    unfold endOfArray
    split <;> omega
  -- so the loop does not get past its first round
  have houtside : ¬ (0 ≤ ((0 : Nat) : Int) + (F.endOfArray : Nat) ∧
      ((0 : Nat) : Int) + (F.endOfArray : Nat) < F.leafSize) := by omega
  rw [splitAndInsertLeafPage, bind_of_ok (readPage_apply firstLeaf s), bind_of_ok (allocPage_apply _),
    bind_of_ok (update_apply _ _ _), bind_of_ok (update_apply _ _ _)]
  exact ⟨_, forRange_of_error (by omega) (bind_of_error (inArray_undefined houtside))⟩

theorem insertLeafPage_split (hsize : ¬ (s.pages page).validEntryNum < F.ridArraySize) (k : F.Key)
    (r : RecordId) : ∃ t, F.insertLeafPage page k r s = (.error .undefined, t) := by
  obtain ⟨t, hundefined⟩ := F.splitAndInsertLeafPage_undefined page { s with pins := s.pins }
  refine ⟨t, ?_⟩
  rw [insertLeafPage, bind_of_ok (readPage_apply page s)]
  rw [if_neg hsize, bind_of_ok (unPinPage_head s.pins false rfl), hundefined]

/-- What is read is unpinned again, if the insertion returns. -/
theorem insertLeafPage_leads {I J : BTreeIndex → Prop} (hread : Leads I J (readPage page))
    (hunpin : ∀ dirty, Leads J I (unPinPage page dirty)) (hupdate : ∀ f, Preserves J (update page f))
    (k : F.Key) (r : RecordId) : Preserves I (F.insertLeafPage page k r) := by
  refine hread.bind fun _ => .ite (fun _ => ?_) fun _ => ?_
  · -- there is room: two changes to the page between reading and unpinning it
    refine .bind (.bind (inArray_preserves _ _) fun _ => hupdate _) fun _ => ?_
    exact (hupdate _).bind fun _ => hunpin _
  · -- there is none: the page is unpinned first, and a split does not return
    exact (hunpin _).bind fun _ =>
      .of_error fun s => ⟨.undefined, F.splitAndInsertLeafPage_undefined page s⟩

end LeafFormat

/-! ## Key types

What is left to be said of a type of keys is its value of `Datatype`, where in a record its key is, and the way down
to a leaf, which compares keys.
-/

/-- `T` and `T_leafFormat`, and how a key is read from a record. -/
structure KeyType extends LeafFormat where
  value : Datatype
  keyOf : Int → RecordId → List UInt8 → Option Key
  lookForTargetLeaf : Key → Nat → BTreeIndex.Call Nat

/-- Keys of type `INTEGER`. -/
def intKey (fuel : Nat) : KeyType where
  toLeafFormat := .int
  value := .INTEGER
  keyOf offset _ record := BTreeIndex.keyOf offset record
  lookForTargetLeaf key root := BTreeIndex.lookForTargetLeaf key fuel root

/-- Keys of type `DOUBLE`. -/
def doubleKey (lookForTargetLeaf : Int × Int → Nat → BTreeIndex.Call Nat) : KeyType where
  toLeafFormat := .double
  value := .DOUBLE
  keyOf offset _ record := doubleOf offset record
  lookForTargetLeaf := lookForTargetLeaf

/-- Keys of type `STRING`, where `object` is what is at the address of the `std::string` that is made for a
record and its key. -/
def stringKey (object : RecordId → List UInt8 → List UInt8)
    (lookForTargetLeaf : List UInt8 → Nat → BTreeIndex.Call Nat) : KeyType where
  toLeafFormat := .string
  value := .STRING
  keyOf offset rid record := (stringOf offset record).map (object rid)
  lookForTargetLeaf := lookForTargetLeaf

namespace KeyType

open BTreeIndex

variable (T : KeyType)

/-- `BTreeIndex::insertEntry`. -/
def insertEntry (key : T.Key) (rid : RecordId) : Call Unit := do
  let metapage ← readPage headerPageNum
  unPinPage headerPageNum false
  let s ← get
  if IndexMetaInfo.isRootLeafPage metapage = true then T.insertLeafPage s.rootPageNum key rid
  else do
    let target ← T.lookForTargetLeaf key s.rootPageNum
    T.insertLeafPage target key rid

/-- `BTreeIndex::createInitialTree`. -/
def createInitialTree : List (RecordId × List UInt8) → Call Unit
  | [] => modify fun s => { s with scanExecuting := false }
  | (rid, record) :: relation => do
    let s ← get
    let key ← member (T.keyOf s.attrByteOffset rid record)
    T.insertEntry key rid
    createInitialTree relation

/-- `BTreeIndex::BTreeIndex`, where the index file does not exist yet. -/
def construct (relationName : List UInt8) (attrByteOffset : Int) (relation : List (RecordId × List UInt8)) :
    Call Unit := do
  modify fun s => { s with attrByteOffset := attrByteOffset, scanExecuting := false }
  let metaPage ← allocPage
  unPinPage metaPage true
  let _metapage ← readPage metaPage
  if relationName.length ≤ IndexMetaInfo.relationNameSize then
    update metaPage (Words.copyBytes 0 relationName)
  else exit .undefined
  update metaPage fun p => IndexMetaInfo.setAttrByteOffset p attrByteOffset
  update metaPage fun p => IndexMetaInfo.setAttrType p T.value.value
  let rootPage ← allocPage
  modify fun s => { s with rootPageNum := rootPage }
  unPinPage rootPage true
  let _rootPage ← readPage rootPage
  update metaPage fun p => IndexMetaInfo.setRootPageNo p rootPage
  update metaPage fun p => IndexMetaInfo.setIsRootLeafPage p true
  update rootPage fun p => p.setValidEntryNum 0
  unPinPage rootPage true
  unPinPage metaPage true
  T.createInitialTree relation
  -- the relation name is printed, up to its `NUL`
  let s ← get
  if IndexMetaInfo.terminated (s.pages metaPage) = true then flushFile
  else exit .undefined

/-! ## The meta page while the tree is built

The root that the constructor makes is a leaf, and stays one as long as every insertion returns. So what is written
to the meta page before the first record is what is there after the last.
-/

section Insert

variable {s : BTreeIndex} (key : T.Key) (rid : RecordId)

/-- What `insertEntry` does first: whether the root is a leaf, it reads from the meta page. -/
theorem insertEntry_rootLeaf (hleaf : IndexMetaInfo.isRootLeafPage (s.pages headerPageNum) = true) :
    T.insertEntry key rid s = T.insertLeafPage s.rootPageNum key rid s := by
  rw [insertEntry, bind_of_ok (readPage_apply headerPageNum s),
    bind_of_ok (unPinPage_head s.pins false rfl), bind_of_ok (get_apply _), if_pos hleaf]

/-- Below a root that is no leaf it looks for one. -/
theorem insertEntry_below (hleaf : IndexMetaInfo.isRootLeafPage (s.pages headerPageNum) = false) :
    T.insertEntry key rid s = (do
      let target ← T.lookForTargetLeaf key s.rootPageNum
      T.insertLeafPage target key rid : Call Unit) s := by
  rw [insertEntry, bind_of_ok (readPage_apply headerPageNum s),
    bind_of_ok (unPinPage_head s.pins false rfl), bind_of_ok (get_apply _), if_neg (by simp [hleaf])]

end Insert

/-- The meta page is `metapage`, and the root is page 2. -/
def MetaIs (metapage : Words) (s : BTreeIndex) : Prop :=
  s.pages headerPageNum = metapage ∧ s.rootPageNum = 2

variable {metapage : Words}

/-- What is written to another page is not written to the meta page. -/
theorem update_preserves {pageNo : Nat} (hne : pageNo ≠ headerPageNum) (f : Words → Words) :
    Preserves (MetaIs metapage) (update pageNo f) := by
  constructor
  intro s h
  rw [wp_of_ok (update_apply pageNo f s)]
  exact ⟨(Function.update_of_ne hne.symm _ s.pages).trans h.1, h.2⟩

theorem unPinPage_preserves (pageNo : Nat) (dirty : Bool) :
    Preserves (MetaIs metapage) (unPinPage pageNo dirty) :=
  Leads.get.bind fun _ => .ite (fun _ => .modify fun _ h => h) fun _ => .throw _

theorem insertLeafPage_preserves {pageNo : Nat} (hne : pageNo ≠ headerPageNum) (key : T.Key) (rid : RecordId) :
    Preserves (MetaIs metapage) (T.insertLeafPage pageNo key rid) :=
  T.insertLeafPage_leads ⟨fun _ h => h⟩ (unPinPage_preserves _) (update_preserves hne) key rid

/-- The root is a leaf, so there is no way down. -/
theorem insertEntry_preserves (hleaf : IndexMetaInfo.isRootLeafPage metapage = true) (key : T.Key)
    (rid : RecordId) : Preserves (MetaIs metapage) (T.insertEntry key rid) := by
  constructor
  rintro s ⟨hmeta, hroot⟩
  have hne : s.rootPageNum ≠ headerPageNum := by
    rw [hroot]
    decide
  unfold wp
  rw [T.insertEntry_rootLeaf key rid (hmeta.symm ▸ hleaf)]
  exact (T.insertLeafPage_preserves hne key rid).wp s ⟨hmeta, hroot⟩

theorem createInitialTree_preserves (hleaf : IndexMetaInfo.isRootLeafPage metapage = true)
    (relation : List (RecordId × List UInt8)) : Preserves (MetaIs metapage) (T.createInitialTree relation) := by
  -- over the records; the step is one insertion
  induction relation with
  | nil => exact .modify fun _ h => h
  | cons x relation ih =>
      refine Leads.get.bind fun s => ?_
      refine Leads.bind (J := MetaIs metapage) ?_ fun key => (T.insertEntry_preserves hleaf key x.1).bind fun _ => ih
      -- the key of a record that has none is not read
      cases T.keyOf s.attrByteOffset x.1 x.2 with
      | none => exact .exit _
      | some key => exact .pure _ fun _ h => h

end KeyType

/-! ## Keys of type `INTEGER`

The members of `BTreeIndex` that the results about one index and its scans are about.
-/

namespace BTreeIndex

/-- `BTreeIndex::splitAndInsertLeafPage<int, LeafNodeInt>`. -/
def splitAndInsertLeafPage (firstLeaf : Nat) : Call Unit := LeafFormat.int.splitAndInsertLeafPage firstLeaf

/-- `BTreeIndex::insertLeafPage<int, LeafNodeInt>`. -/
def insertLeafPage (firstLeaf : Nat) (key : Int) (rid : RecordId) : Call Unit :=
  LeafFormat.int.insertLeafPage firstLeaf key rid

/-- `BTreeIndex::insertEntry`; `fuel` is for the way down to a leaf. -/
def insertEntry (fuel : Nat) (key : Int) (rid : RecordId) : Call Unit := (intKey fuel).insertEntry key rid

/-- `BTreeIndex::createInitialTree`. -/
def createInitialTree (fuel : Nat) (relation : List (RecordId × List UInt8)) : Call Unit :=
  (intKey fuel).createInitialTree relation

theorem createInitialTree_cons (fuel : Nat) (rid : RecordId) (record : List UInt8)
    (relation : List (RecordId × List UInt8)) :
    createInitialTree fuel ((rid, record) :: relation) = (do
      let s ← get
      let key ← member (keyOf s.attrByteOffset record)
      insertEntry fuel key rid
      createInitialTree fuel relation : Call Unit) := rfl

/-- `BTreeIndex::BTreeIndex`, where the index file does not exist yet. -/
def construct (fuel : Nat) (relationName : List UInt8) (attrByteOffset : Int)
    (relation : List (RecordId × List UInt8)) : Call Unit :=
  (intKey fuel).construct relationName attrByteOffset relation

end BTreeIndex
end CS640.Badger
