import CS640.Badger.Page
import Mathlib.Logic.Function.Basic
import Mathlib.Algebra.Group.Int.Defs
import Mathlib.Algebra.Group.Nat.Defs

/-!
# The pages of an index

An index lays its own structures over the pages of its file (`IndexMetaInfo`, `LeafNodeInt` and
`NonLeafNodeInt` of `btree.h`). All their members but the relation name are 32-bit words, so a page is
seen here as its words, which are integers; a word that is read as a page number was written as one.
Words of a page that nobody has written are those of `Page::Page` (`fresh`).
-/

namespace CS640.Badger

/-- The words of a page. -/
abbrev Words : Type := Nat → Int

/-- `n` as a signed word. -/
def signed (n : Nat) : Int := if n % 2 ^ 32 < 2 ^ 31 then n % 2 ^ 32 else n % 2 ^ 32 - 2 ^ 32

/-- The number whose bytes are these, the least significant one first. -/
def ofBytes : List UInt8 → Nat
  | [] => 0
  | b :: bytes => b.toNat + 256 * ofBytes bytes

/-- The words of a page: four of the header, and then those of the data. -/
def Page.words (p : Page CharArea) : Words
  | 0 => signed (p.header.freeSpaceLowerBound + 2 ^ 16 * p.header.freeSpaceUpperBound)
  | 1 => signed (p.header.numSlots + 2 ^ 16 * p.header.numFreeSlots)
  | 2 => signed p.header.currentPageNumber
  | 3 => signed p.header.nextPageNumber
  | i + 4 => signed (ofBytes [p.data (4 * i), p.data (4 * i + 1), p.data (4 * i + 2),
      p.data (4 * i + 3)])

namespace Words

/-- The words of a new page. -/
def fresh : Words := fun i => if i = 0 then 2 ^ 16 * dataSize else 0

theorem words_init : (Page.init : Page CharArea).words = fresh := by
  funext i
  match i with
  | 0 => decide
  | 1 => decide
  | 2 => decide
  | 3 => decide
  | _ + 4 => rfl

/-- Write word `i`. -/
def set (p : Words) (i : Nat) (w : Int) : Words := Function.update p i w

@[simp] theorem set_self (p : Words) (i : Nat) (w : Int) : p.set i w i = w := by
  simp [set]

@[simp] theorem set_of_ne (p : Words) {i j : Nat} (w : Int) (h : j ≠ i) : p.set i w j = p j := by
  simp [set, h]

/-! ## Bytes

The members that are not words: the relation name, the flag of the meta page and the keys of type `STRING`. Byte
`k` is in word `k / 4`, the least significant one first.
-/

/-- Byte `k` of a page. -/
def byte (p : Words) (k : Nat) : Int := p (k / 4) / 256 ^ (k % 4) % 256

/-- Write byte `k`. -/
def setByte (p : Words) (k : Nat) (b : UInt8) : Words :=
  p.set (k / 4) (p (k / 4) + (b.toNat - p.byte k) * 256 ^ (k % 4))

theorem setByte_of_ne (p : Words) {i k : Nat} (b : UInt8) (h : i ≠ k / 4) :
    p.setByte k b i = p i :=
  set_of_ne p _ h

theorem byte_setByte (p : Words) (k : Nat) (b : UInt8) : (p.setByte k b).byte k = b.toNat := by
  have hb := b.toNat_lt
  have hpow : k % 4 = 0 ∨ k % 4 = 1 ∨ k % 4 = 2 ∨ k % 4 = 3 := by omega
  simp only [byte, setByte, set_self]
  -- the place of the byte in its word, so that the power of 256 is a number
  rcases hpow with h | h | h | h
  all_goals
    simp only [h]
    omega

theorem byte_setByte_of_ne (p : Words) {j k : Nat} (b : UInt8) (h : j ≠ k) :
    (p.setByte k b).byte j = p.byte j := by
  have hb := b.toNat_lt
  by_cases hword : j / 4 = k / 4
  · have hj : j % 4 = 0 ∨ j % 4 = 1 ∨ j % 4 = 2 ∨ j % 4 = 3 := by omega
    have hk : k % 4 = 0 ∨ k % 4 = 1 ∨ k % 4 = 2 ∨ k % 4 = 3 := by omega
    have hjk : j % 4 ≠ k % 4 := by omega
    simp only [byte, setByte, hword, set_self]
    -- two different bytes of one word
    rcases hj with hj | hj | hj | hj <;> rcases hk with hk | hk | hk | hk
    all_goals
      simp only [hj, hk] at hjk ⊢
      omega
  · rw [byte, setByte_of_ne _ _ hword]
    rfl

/-- `std::copy` of `bytes` to the bytes from `k` on. -/
def copyBytes : (k : Nat) → (bytes : List UInt8) → Words → Words
  | _, [], p => p
  | k, b :: bytes, p => copyBytes (k + 1) bytes (p.setByte k b)

theorem byte_copyBytes (bytes : List UInt8) :
    ∀ (k : Nat) (p : Words) (j : Nat), (copyBytes k bytes p).byte j =
      if k ≤ j ∧ j < k + bytes.length then ((bytes.getD (j - k) 0).toNat : Int) else p.byte j := by
  -- over the bytes: the first one is written, and then the others behind it
  induction bytes with
  | nil =>
      intro k p j
      rw [if_neg (by simp)]
      rfl
  | cons b bytes ih =>
      intro k p j
      rw [copyBytes, ih (k + 1)]
      by_cases hj : j = k
      · subst hj
        rw [if_neg (by omega), if_pos (by simp only [List.length_cons]; omega), byte_setByte,
          -- byte `j` is one of those behind the first, or none that is written
          Nat.sub_self, List.getD_cons_zero]
      · rw [byte_setByte_of_ne _ _ hj]
        by_cases hin : k + 1 ≤ j ∧ j < k + 1 + bytes.length
        · have hsub : j - k = j - (k + 1) + 1 := by omega
          rw [if_pos hin, if_pos (by simp only [List.length_cons]; omega), hsub,
            List.getD_cons_succ]
        · rw [if_neg hin, if_neg (by simp only [List.length_cons]; omega)]

end Words

/-! ## The meta page

`IndexMetaInfo`, on page 1. The constructor fills it in, and it is read when an index is opened again.
-/

namespace IndexMetaInfo

/-- `sizeof(relationName)`. -/
def relationNameSize : Nat := 20

/-- `relationName` is the name of no more than its bytes: one of them is `NUL`. -/
def terminated (p : Words) : Bool := (List.range relationNameSize).any fun k => p.byte k == 0

def attrByteOffset (p : Words) : Int := p 5

/-- The number of the key type. -/
def attrType (p : Words) : Int := p 6

def rootPageNo (p : Words) : Nat := (p 7).toNat

/-- A `bool` has one byte. -/
def isRootLeafPage (p : Words) : Bool := p.byte 32 != 0

def setAttrByteOffset (p : Words) (offset : Int) : Words := p.set 5 offset

def setAttrType (p : Words) (type : Int) : Words := p.set 6 type

def setRootPageNo (p : Words) (pageNo : Nat) : Words := p.set 7 pageNo

def setIsRootLeafPage (p : Words) (b : Bool) : Words := p.setByte 32 (if b then 1 else 0)

end IndexMetaInfo

/-! ## Leaves

`LeafNodeInt`: the number of entries, `keyArray`, `ridArray` and the page to the right, in this order. A record
id takes two words.
-/

/-- `sizeof(int)`. -/
def intSize : Nat := 4

/-- `sizeof(PageId)`. -/
def pageIdSize : Nat := 4

/-- `sizeof(RecordId)`: a `SlotId` has two bytes, and two more follow it. -/
def recordIdSize : Nat := 8

/-- `INTARRAYLEAFSIZE`. -/
def intArrayLeafSize : Nat := (pageSize - pageIdSize - intSize) / (intSize + recordIdSize)

/-- `INTARRAYNONLEAFSIZE`. -/
def intArrayNonLeafSize : Nat :=
  (pageSize - intSize - pageIdSize - intSize) / (intSize + pageIdSize)

/-- `validEntry_num`, which is the first member of both kinds of node. -/
def Words.validEntryNum (p : Words) : Int := p 0

def Words.setValidEntryNum (p : Words) (n : Int) : Words := p.set 0 n

namespace LeafNodeInt

def key (p : Words) (i : Nat) : Int := p (1 + i)

def rid (p : Words) (i : Nat) : RecordId :=
  ⟨(p (1 + intArrayLeafSize + 2 * i)).toNat, (p (1 + intArrayLeafSize + 2 * i + 1)).toNat⟩

def rightSibPageNo (p : Words) : Nat := (p (1 + intArrayLeafSize + 2 * intArrayLeafSize)).toNat

/-- `keyArray[i] = k` and `ridArray[i] = r`. -/
def setEntry (p : Words) (i : Nat) (k : Int) (r : RecordId) : Words :=
  ((p.set (1 + i) k).set (1 + intArrayLeafSize + 2 * i) r.pageNumber).set
    (1 + intArrayLeafSize + 2 * i + 1) r.slotNumber

end LeafNodeInt

/-! ## Non-leaf nodes

`NonLeafNodeInt`: the number of keys, the level, `keyArray` and `pageNoArray`, which has one more than there are
keys. Its `keyArraySize` is a number of bytes, and some loops take it for one of keys.
-/

namespace NonLeafNodeInt

/-- `sizeof(keyArray)`. -/
def keyArraySize : Nat := intArrayNonLeafSize * intSize

def level (p : Words) : Int := p 1

def key (p : Words) (i : Nat) : Int := p (2 + i)

def pageNo (p : Words) (i : Nat) : Nat := (p (2 + intArrayNonLeafSize + i)).toNat

end NonLeafNodeInt
end CS640.Badger
