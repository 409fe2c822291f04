import CS640.Badger.BTree.Capacity
import CS640.Badger.BTree.Structure
import Mathlib.Logic.Relation

/-!
# Splitting a leaf

`splitAndInsertLeafPage` moves the upper half of a leaf to a new one with a loop whose indices count bytes
instead of entries, and the first of them is outside of `keyArray`. So no run gets to what follows the loop:
to inserting the entry, to the link between the leaves and to the parent. Here all that is an arbitrary call
`rest` (`splitAndInsertLeafPageThen`), and the results hold whatever it is.

Main results: `not_splitsRight`, that no split leaves two leaves with the entries, and `not_splitsConnected`,
that no insertion returns with a new leaf in the tree.
-/

namespace CS640.Badger

open CS640.Lib Prog

namespace BTreeIndex

/-- `BTreeIndex::splitAndInsertLeafPage`, with what it does after its first loop. -/
def splitAndInsertLeafPageThen (firstLeaf : Nat) (rest : Call Unit) : Call Unit := do
  splitAndInsertLeafPage firstLeaf
  rest

variable {s t : BTreeIndex}

/-- The first entry that is moved, at index `1364`, is not in the arrays. -/
theorem splitAndInsertLeafPage_undefined (firstLeaf : Nat) (s : BTreeIndex) :
    ∃ t, splitAndInsertLeafPage firstLeaf s = (.error .undefined, t) :=
  LeafFormat.int.splitAndInsertLeafPage_undefined firstLeaf s

/-- Nothing that follows the loop is reached. -/
theorem splitAndInsertLeafPageThen_eq (firstLeaf : Nat) (rest : Call Unit) :
    splitAndInsertLeafPageThen firstLeaf rest = splitAndInsertLeafPage firstLeaf := by
  funext s
  obtain ⟨t, hrun⟩ := splitAndInsertLeafPage_undefined firstLeaf s
  rw [splitAndInsertLeafPageThen, bind_of_error hrun, hrun]

/-! ## The entries of the two leaves

What a split is for: the entries of the leaf and the new one, in order, on two leaves that follow each other, with
a key in the parent that separates them. That is stated for any call `rest` behind the loop, so it is not a matter of
what the rest of the function does.
-/

/-- The leaf and a new one to its right hold the entries `old` of the leaf and `e`, in the order of the keys,
and the first key of the new one is what separates them in a parent. -/
structure LeafSplit (s t : BTreeIndex) (firstLeaf secondLeaf : Nat) (old : List RIDKeyPair) (e : RIDKeyPair)
    (first second : List RIDKeyPair) : Prop where
  allocated : s.numPages ≤ secondLeaf ∧ secondLeaf < t.numPages
  holdsFirst : LeafNodeInt.Holds (t.pages firstLeaf) first
  holdsSecond : LeafNodeInt.Holds (t.pages secondLeaf) second
  perm : (first ++ second).Perm (old ++ [e])
  sorted : ((first ++ second).map RIDKeyPair.key).Pairwise (· ≤ ·)
  count : (t.pages firstLeaf).validEntryNum + (t.pages secondLeaf).validEntryNum = old.length + 1
  sibling : t.rightSib firstLeaf = secondLeaf ∧ t.rightSib secondLeaf = s.rightSib firstLeaf
  separator : ∃ e' ∈ second.head?, ∃ parent i, NonLeafNodeInt.key (t.pages parent) i = e'.key ∧
    NonLeafNodeInt.pageNo (t.pages parent) (i + 1) = secondLeaf

/-- Splitting a leaf with entries `old` returns with the entries and `e` on the two leaves. -/
def SplitsRight (s : BTreeIndex) (firstLeaf : Nat) (old : List RIDKeyPair) (e : RIDKeyPair)
    (rest : Call Unit) : Prop :=
  ∃ t secondLeaf first second, splitAndInsertLeafPageThen firstLeaf rest s = (.ok (), t) ∧
    LeafSplit s t firstLeaf secondLeaf old e first second

/-- **Splitting a leaf.** No split of any leaf, for any entry, is right. -/
theorem not_splitsRight (s : BTreeIndex) (firstLeaf : Nat) (old : List RIDKeyPair) (e : RIDKeyPair)
    (rest : Call Unit) : ¬ SplitsRight s firstLeaf old e rest := by
  rintro ⟨t, secondLeaf, first, second, hrun, -⟩
  obtain ⟨u, hundefined⟩ := splitAndInsertLeafPage_undefined firstLeaf s
  rw [splitAndInsertLeafPageThen_eq, hundefined] at hrun
  cases hrun

/-- An index with as many entries as its root, a leaf, has room for. -/
theorem exists_full (k : Int) (r : RecordId) :
    ∃ s, LeafRoot s (List.replicate intArrayLeafSize ⟨r, k⟩) := by
  obtain ⟨s, -, hs, -⟩ := insertAll_ok 0 (List.replicate intArrayLeafSize ⟨r, k⟩) (leafRoot_opened [114] 0)
    (by simp)
  exact ⟨s, by simpa using hs⟩

theorem sorted_replicate (n : Nat) (k : Int) (r : RecordId) :
    ((List.replicate n (⟨r, k⟩ : RIDKeyPair)).map RIDKeyPair.key).Pairwise (· ≤ ·) := by
  rw [List.map_replicate, List.pairwise_replicate]
  exact Or.inr (Int.le_refl k)

/-- The split of a full leaf with the key `0` throughout. -/
theorem splitsRight_full :
    ∃ s old, LeafNodeInt.Holds (s.pages 2) old ∧ old.length = intArrayLeafSize ∧
      (old.map RIDKeyPair.key).Pairwise (· ≤ ·) ∧
      ∀ rest, ∃ t, splitAndInsertLeafPageThen 2 rest s = (.error .undefined, t) := by
  obtain ⟨s, hs⟩ := exists_full 0 ⟨1, 1⟩
  refine ⟨s, _, hs.holds, List.length_replicate, sorted_replicate _ _ _, fun rest => ?_⟩
  rw [splitAndInsertLeafPageThen_eq]
  exact splitAndInsertLeafPage_undefined 2 s

/-! ## The tree after a split

The same question for the tree as a whole, where an insertion is all that is run: whether the new leaf is below the
root, the leaves that were there still are, and nothing is below itself.
-/

/-- `q` is a child of the node `p`. -/
def Child (s : BTreeIndex) (p q : Nat) : Prop :=
  Node s false p ∧ ∃ j : Nat, (j : Int) ≤ (s.pages p).validEntryNum ∧ NonLeafNodeInt.pageNo (s.pages p) j = q

/-- The leaves of `s` and a new one are in the tree `t`, where no node is below itself; if the root of `s` was
a leaf, it and the new one are the children of the new root. -/
structure StaysConnected (s t : BTreeIndex) (newLeaf : Nat) : Prop where
  allocated : s.numPages ≤ newLeaf ∧ newLeaf < t.numPages
  leaves : ∀ pageNo, Node s true pageNo → Node t true pageNo
  added : Node t true newLeaf
  acyclic : ∀ p, ¬ Relation.TransGen (Child t) p p
  root : IndexMetaInfo.isRootLeafPage (s.pages headerPageNum) = true →
    (t.pages t.rootPageNum).validEntryNum = 1 ∧
      NonLeafNodeInt.pageNo (t.pages t.rootPageNum) 0 = s.rootPageNum ∧
      NonLeafNodeInt.pageNo (t.pages t.rootPageNum) 1 = newLeaf

/-! ## The way down

`readPage` and `unPinPage` are known only by how they lead from one condition on the index to another, so that what
follows here is used for the number of pages and, elsewhere, for the number of pins.
-/

section Descent

variable {I J : BTreeIndex → Prop} (hread : ∀ pageNo, Leads I J (readPage pageNo))
  (hunpin : ∀ pageNo dirty, Leads J I (unPinPage pageNo dirty))

include hread hunpin

/-- Down to a leaf, and the loop on the way: one page is read more than are unpinned. -/
theorem lookForTargetLeaf_leads (key : Int) (fuel : Nat) :
    (∀ root, Leads I J (lookForTargetLeaf key fuel root)) ∧
      ∀ root page, Preserves J (targetLoop key fuel root page) := by
  induction fuel with
  | zero => exact ⟨fun _ => .exit _, fun _ _ => .exit _⟩
  | succ fuel ih =>
      refine ⟨fun root => (hread root).bind fun page => ih.2 root page, fun root page => ?_⟩
      rw [targetLoop]
      refine .ite (fun _ => ?_) fun _ => .pure _ fun _ h => h
      refine (keysUpTo_preserves _ _ _ _).bind fun _ => (child_preserves _ _).bind fun next =>
        (hunpin _ _).bind fun _ => ?_
      refine .ite (fun _ => ?_) fun _ => ih.1 next
      -- the page that is read here is not unpinned
      refine (hread _).bind fun _ => (keysUpTo_preserves _ _ _ _).bind fun _ => ?_
      exact .ite (fun _ => child_preserves _ _) fun _ => ih.2 _ _

end Descent

/-! ## No page is added

Only `allocPage` adds a page, and of the calls of an insertion only the split allocates one, which does not return.
-/

section NumPages

variable {n : Nat}

theorem readPage_numPages (pageNo : Nat) : Preserves (fun s => s.numPages = n) (readPage pageNo) :=
  ⟨fun _ h => h⟩

theorem update_numPages (pageNo : Nat) (f : Words → Words) :
    Preserves (fun s => s.numPages = n) (update pageNo f) := ⟨fun _ h => h⟩

theorem unPinPage_numPages (pageNo : Nat) (dirty : Bool) :
    Preserves (fun s => s.numPages = n) (unPinPage pageNo dirty) :=
  Leads.get.bind fun _ => .ite (fun _ => .modify fun _ h => h) fun _ => .throw _

theorem insertLeafPage_numPages (firstLeaf : Nat) (key : Int) (rid : RecordId) :
    Preserves (fun s => s.numPages = n) (insertLeafPage firstLeaf key rid) :=
  LeafFormat.int.insertLeafPage_leads (readPage_numPages _) (unPinPage_numPages _) (update_numPages _) key rid

theorem insertEntry_numPages (fuel : Nat) (key : Int) (rid : RecordId) :
    Preserves (fun s => s.numPages = n) (insertEntry fuel key rid) := by
  refine (readPage_numPages _).bind fun _ => (unPinPage_numPages _ _).bind fun _ =>
    Leads.get.bind fun _ => .ite (fun _ => ?_) fun _ => ?_
  · exact insertLeafPage_numPages _ _ _
  · exact ((lookForTargetLeaf_leads readPage_numPages unPinPage_numPages _ _).1 _).bind fun _ =>
      insertLeafPage_numPages _ _ _

end NumPages

/-- **Splits and the tree.** No insertion returns with a new leaf in the tree. -/
theorem not_splitsConnected (fuel : Nat) (s : BTreeIndex) (key : Int) (rid : RecordId) :
    ¬ ∃ t newLeaf, insertEntry fuel key rid s = (.ok (), t) ∧ StaysConnected s t newLeaf := by
  rintro ⟨t, newLeaf, hrun, hconnected⟩
  have hsame : t.numPages = s.numPages := (insertEntry_numPages fuel key rid).apply rfl hrun
  have hpages := hconnected.allocated
  omega

/-- The insertion into a full leaf that is the root. -/
theorem insertEntry_rootFull :
    ∃ s, WellFormed s ∧ (∃ leaf, Node s true leaf ∧ (s.pages leaf).validEntryNum = intArrayLeafSize) ∧
      ∀ fuel key rid, ∃ t, insertEntry fuel key rid s = (.error .undefined, t) := by
  obtain ⟨s, hs⟩ := exists_full 0 ⟨1, 1⟩
  refine ⟨s, hs.wellFormed (sorted_replicate _ _ _), ⟨s.rootPageNum, ?_, ?_⟩, fun fuel key rid => ?_⟩
  · have hnode := Node.root (s := s)
    rwa [hs.isLeaf] at hnode
  · rw [hs.root, hs.holds.count, List.length_replicate]
  · exact ⟨_, insertEntry_full hs List.length_replicate fuel key rid⟩

end BTreeIndex
end CS640.Badger
