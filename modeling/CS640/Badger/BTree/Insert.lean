import CS640.Badger.BTree.KeyTypes

/-!
# Insertion

As long as the root of an index is a leaf with room, an entry is appended to it, whatever its key is
(`insertEntry_append`). The entry after the last that has room is written outside the arrays
(`insertEntry_full`), so in a run that is defined the root stays a leaf.
-/

namespace CS640.Badger

open CS640.Lib Prog

/-- `RIDKeyPair<int>`, an entry of an index. -/
structure RIDKeyPair where
  rid : RecordId
  key : Int
  deriving DecidableEq, Repr

/-! ## Writing an entry of a leaf

Reading an entry after one was written. The two arrays and what follows them do not overlap, as long as the entry
is inside of the arrays.
-/

namespace LeafNodeInt

variable {p : Words} {i j : Nat} {k : Int} {r : RecordId}

theorem key_setEntry (hj : j < intArrayLeafSize) :
    key (setEntry p i k r) j = if j = i then k else key p j := by
  unfold key setEntry
  rw [Words.set_of_ne _ _ (by omega), Words.set_of_ne _ _ (by omega)]
  split
  · next h => rw [h, Words.set_self]
  · next h => rw [Words.set_of_ne _ _ (by omega)]

theorem rid_setEntry (hi : i < intArrayLeafSize) :
    rid (setEntry p i k r) j = if j = i then r else rid p j := by
  unfold rid setEntry
  rw [Words.set_of_ne _ _ (by omega : 1 + intArrayLeafSize + 2 * j ≠ _)]
  split
  · next h => simp [h]
  · next h =>
      rw [Words.set_of_ne _ _ (by omega), Words.set_of_ne _ _ (by omega),
        Words.set_of_ne _ _ (by omega), Words.set_of_ne _ _ (by omega),
        Words.set_of_ne _ _ (by omega)]

theorem rightSibPageNo_setEntry (hi : i < intArrayLeafSize) :
    rightSibPageNo (setEntry p i k r) = rightSibPageNo p := by
  unfold rightSibPageNo setEntry
  rw [Words.set_of_ne _ _ (by omega), Words.set_of_ne _ _ (by omega),
    Words.set_of_ne _ _ (by omega)]

theorem validEntryNum_setEntry : (setEntry p i k r).validEntryNum = p.validEntryNum := by
  unfold Words.validEntryNum setEntry
  rw [Words.set_of_ne _ _ (by omega), Words.set_of_ne _ _ (by omega),
    Words.set_of_ne _ _ (by omega)]

/-! ## Writing the number of entries

The number of entries is the first word of a leaf, and nothing else is.
-/

theorem key_setValidEntryNum (p : Words) (n : Int) (i : Nat) :
    key (p.setValidEntryNum n) i = key p i :=
  Words.set_of_ne p n (by omega)

theorem rid_setValidEntryNum (p : Words) (n : Int) (i : Nat) :
    rid (p.setValidEntryNum n) i = rid p i := by
  unfold rid Words.setValidEntryNum
  rw [Words.set_of_ne _ _ (by omega), Words.set_of_ne _ _ (by omega)]

theorem rightSibPageNo_setValidEntryNum (p : Words) (n : Int) :
    rightSibPageNo (p.setValidEntryNum n) = rightSibPageNo p := by
  unfold rightSibPageNo Words.setValidEntryNum
  rw [Words.set_of_ne _ _ (by omega)]

/-! ## Leaves as lists of entries

A leaf holds a list of entries if its arrays begin with them. An entry that is appended is written first and
counted then.
-/

/-- The entries of a leaf are `entries`. -/
structure Holds (p : Words) (entries : List RIDKeyPair) : Prop where
  count : p.validEntryNum = entries.length
  bound : entries.length ≤ intArrayLeafSize
  key : ∀ i (h : i < entries.length), LeafNodeInt.key p i = entries[i].key
  rid : ∀ i (h : i < entries.length), LeafNodeInt.rid p i = entries[i].rid

/-- The leaf with one more entry at its end. -/
def append (p : Words) (e : RIDKeyPair) : Words :=
  (setEntry p p.validEntryNum.toNat e.key e.rid).setValidEntryNum (p.validEntryNum + 1)

theorem rightSibPageNo_append {entries : List RIDKeyPair} (h : Holds p entries)
    (hroom : entries.length < intArrayLeafSize) (e : RIDKeyPair) :
    rightSibPageNo (append p e) = rightSibPageNo p := by
  rw [append, rightSibPageNo_setValidEntryNum, h.count, Int.toNat_natCast,
    rightSibPageNo_setEntry hroom]

theorem Holds.append {entries : List RIDKeyPair} (h : Holds p entries)
    (hroom : entries.length < intArrayLeafSize) (e : RIDKeyPair) :
    Holds (append p e) (entries ++ [e]) := by
  have hcount : p.validEntryNum.toNat = entries.length := by
    rw [h.count, Int.toNat_natCast]
  constructor
  · simp [LeafNodeInt.append, Words.validEntryNum, Words.setValidEntryNum, ← h.count]
  · simpa using Nat.succ_le_of_lt hroom
  · -- the keys: the new entry is the last, and the others are where they were
    intro i hi
    rw [List.length_append, List.length_singleton] at hi
    rw [LeafNodeInt.append, key_setValidEntryNum, hcount, key_setEntry (by omega)]
    split
    · next heq => simp [heq]
    · next hne =>
        rw [List.getElem_append_left (by omega)]
        exact h.key i (by omega)
  · -- the record ids, in the same way
    intro i hi
    rw [List.length_append, List.length_singleton] at hi
    rw [LeafNodeInt.append, rid_setValidEntryNum, hcount, rid_setEntry hroom]
    split
    · next heq => simp [heq]
    · next hne =>
        rw [List.getElem_append_left (by omega)]
        exact h.rid i (by omega)

end LeafNodeInt

namespace BTreeIndex

variable {s : BTreeIndex} {entries : List RIDKeyPair}

/-! ## Indices whose root is a leaf

The only shape that an index has in a run that is defined. Page 0 is in it because the last leaf gives its number
for the right sibling, and a scan reads that page.
-/

/-- The root is a leaf, on page 2, with these entries; it has no right sibling, and nobody has written
page `0`. -/
structure LeafRoot (s : BTreeIndex) (entries : List RIDKeyPair) : Prop where
  root : s.rootPageNum = 2
  isLeaf : IndexMetaInfo.isRootLeafPage (s.pages headerPageNum) = true
  holds : LeafNodeInt.Holds (s.pages 2) entries
  sibling : LeafNodeInt.rightSibPageNo (s.pages 2) = 0
  unwritten : s.pages 0 = Words.fresh

/-- The index with one more entry at the end of the leaf. -/
def appended (s : BTreeIndex) (e : RIDKeyPair) : BTreeIndex :=
  { s with pages := Function.update s.pages 2 (LeafNodeInt.append (s.pages 2) e) }

@[simp] theorem pages_appended_self (s : BTreeIndex) (e : RIDKeyPair) :
    (s.appended e).pages 2 = LeafNodeInt.append (s.pages 2) e := by
  simp [appended]

theorem pages_appended_of_ne (s : BTreeIndex) (e : RIDKeyPair) {pageNo : Nat} (h : pageNo ≠ 2) :
    (s.appended e).pages pageNo = s.pages pageNo := by
  simp [appended, h]

theorem LeafRoot.appended (h : LeafRoot s entries) (hroom : entries.length < intArrayLeafSize)
    -- page 2 is written, the meta page and page 0 are not
    (e : RIDKeyPair) : LeafRoot (s.appended e) (entries ++ [e]) where
  root := h.root
  isLeaf := by
    rw [pages_appended_of_ne _ _ (by decide)]
    exact h.isLeaf
  holds := by
    rw [pages_appended_self]
    exact h.holds.append hroom e
  sibling := by
    rw [pages_appended_self, LeafNodeInt.rightSibPageNo_append h.holds hroom e]
    exact h.sibling
  unwritten := by
    rw [pages_appended_of_ne _ _ (by decide)]
    exact h.unwritten

/-- An entry is appended to a leaf with room. -/
theorem insertLeafPage_apply {page : Nat} (h0 : 0 ≤ (s.pages page).validEntryNum)
    (hroom : (s.pages page).validEntryNum < intArrayLeafSize) (e : RIDKeyPair) :
    insertLeafPage page e.key e.rid s = (.ok (), { s with
      pages := Function.update s.pages page (LeafNodeInt.append (s.pages page) e) }) := by
  -- both write the entry and add one to the count, which the entry does not touch
  have happend : LeafFormat.int.append (s.pages page) e.key e.rid = LeafNodeInt.append (s.pages page) e :=
    congrArg (Words.setValidEntryNum _ <| · + 1) LeafNodeInt.validEntryNum_setEntry
  rw [← happend]
  exact LeafFormat.int.insertLeafPage_room h0 hroom e.key e.rid

theorem insertLeafPage_append (h : LeafRoot s entries) (hroom : entries.length < intArrayLeafSize)
    (e : RIDKeyPair) : insertLeafPage 2 e.key e.rid s = (.ok (), s.appended e) := by
  have hcount := h.holds.count
  exact insertLeafPage_apply (by omega) (by omega) e

theorem insertLeafPage_full (h : LeafRoot s entries) (hfull : entries.length = intArrayLeafSize)
    (k : Int) (r : RecordId) :
    insertLeafPage 2 k r s = (.error .undefined, { s with pins := 2 :: s.pins }) := by
  have hcount := h.holds.count
  have hroom : ((s.pages 2).validEntryNum : Int) = LeafFormat.int.leafSize := hcount.trans (congrArg _ hfull)
  have hsize : LeafFormat.int.leafSize < LeafFormat.int.ridArraySize := by decide
  exact LeafFormat.int.insertLeafPage_outside (by omega) (by omega) k r

theorem insertEntry_eq (h : LeafRoot s entries) (fuel : Nat) (k : Int) (r : RecordId) :
    insertEntry fuel k r s = insertLeafPage 2 k r s := by
  rw [insertEntry, (intKey fuel).insertEntry_rootLeaf k r h.isLeaf, h.root]
  rfl

theorem insertEntry_append (h : LeafRoot s entries) (hroom : entries.length < intArrayLeafSize)
    (fuel : Nat) (e : RIDKeyPair) :
    insertEntry fuel e.key e.rid s = (.ok (), s.appended e) := by
  rw [insertEntry_eq h, insertLeafPage_append h hroom]

theorem insertEntry_full (h : LeafRoot s entries) (hfull : entries.length = intArrayLeafSize)
    (fuel : Nat) (k : Int) (r : RecordId) :
    insertEntry fuel k r s = (.error .undefined, { s with pins := 2 :: s.pins }) := by
  rw [insertEntry_eq h, insertLeafPage_full h hfull]

end BTreeIndex
end CS640.Badger
