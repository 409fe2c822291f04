import CS640.Badger.BTree.Build
import CS640.Lib.Chain

/-!
# The tree under the root

`WellFormed` says that the pages of an index are a B+ tree. Main result: `BTreeIndex.wellFormed_iff`. After
inserting entries into an empty index, they are one exactly when the entries came in the order of their
keys and fit into one leaf: `insertEntry` appends.
-/

namespace CS640.Badger

open CS640.Lib Prog

/-- What is below a node, from left to right: the pages met, the leaves among them, and the keys. -/
structure Below where
  ids : List Nat
  leaves : List Nat
  keys : List Int

/-- The first `n` keys of a node. -/
def firstKeys (key : Nat → Int) (n : Nat) : List Int := (List.range n).map key

/-- Page `pageNo` is the root of a tree of the given level: a leaf is of level `0`. -/
inductive Subtree (pages : Nat → Words) : (level pageNo : Nat) → Below → Prop
  | leaf {pageNo n : Nat} :
      (pages pageNo).validEntryNum = n → n ≤ intArrayLeafSize →
      (firstKeys (LeafNodeInt.key (pages pageNo)) n).Pairwise (· ≤ ·) →
      Subtree pages 0 pageNo ⟨[pageNo], [pageNo], firstKeys (LeafNodeInt.key (pages pageNo)) n⟩
  | node {level pageNo n : Nat} {child : Nat → Below} :
      (pages pageNo).validEntryNum = n → n ≤ intArrayNonLeafSize →
      NonLeafNodeInt.level (pages pageNo) = level + 1 →
      (firstKeys (NonLeafNodeInt.key (pages pageNo)) n).Pairwise (· ≤ ·) →
      (∀ j ≤ n, Subtree pages level (NonLeafNodeInt.pageNo (pages pageNo) j) (child j)) →
      (∀ j ≤ n, ∀ k ∈ (child j).keys,
        (0 < j → NonLeafNodeInt.key (pages pageNo) (j - 1) ≤ k) ∧
        (j < n → k ≤ NonLeafNodeInt.key (pages pageNo) j)) →
      Subtree pages (level + 1) pageNo
        ⟨pageNo :: (List.range (n + 1)).flatMap fun j => (child j).ids,
          (List.range (n + 1)).flatMap fun j => (child j).leaves,
          (List.range (n + 1)).flatMap fun j => (child j).keys⟩

namespace BTreeIndex

variable {s : BTreeIndex} {entries : List RIDKeyPair}

/-- The link from a leaf to the one on its right. -/
def rightSib (s : BTreeIndex) (pageNo : Nat) : Nat := LeafNodeInt.rightSibPageNo (s.pages pageNo)

/-- The pages under the root are a B+ tree: they are met once each, and the links between the leaves
give the leaves from left to right, in the order of their keys. -/
structure WellFormedAt (s : BTreeIndex) (level : Nat) (b : Below) : Prop where
  tree : Subtree s.pages level s.rootPageNum b
  rootIsLeaf : IndexMetaInfo.isRootLeafPage (s.pages headerPageNum) = true ↔ level = 0
  nodup : b.ids.Nodup
  siblings : ∀ first, b.leaves.head? = some first → Chain s.rightSib invalidNumber first b.leaves
  sorted : b.keys.Pairwise (· ≤ ·)

def WellFormed (s : BTreeIndex) : Prop := ∃ level b, WellFormedAt s level b

/-- The keys of a leaf that holds `entries`. -/
theorem firstKeys_eq {p : Words} (h : LeafNodeInt.Holds p entries) :
    firstKeys (LeafNodeInt.key p) entries.length = entries.map RIDKeyPair.key := by
  apply List.ext_getElem
  · simp [firstKeys]
  · intro i hi _
    have hi : i < entries.length := by simpa [firstKeys] using hi
    simp [firstKeys, h.key i hi]

theorem LeafRoot.wellFormed (h : LeafRoot s entries)
    (hsorted : (entries.map RIDKeyPair.key).Pairwise (· ≤ ·)) : WellFormed s := by
  have hkeys := firstKeys_eq h.holds
  have htree := Subtree.leaf h.holds.count h.holds.bound (by rwa [hkeys])
  refine ⟨0, ⟨[2], [2], firstKeys (LeafNodeInt.key (s.pages 2)) entries.length⟩, ?_⟩
  constructor
  · rw [h.root]
    exact htree
  · exact ⟨fun _ => rfl, fun _ => h.isLeaf⟩
  · exact List.nodup_singleton 2
  · intro first hfirst
    cases hfirst
    refine .cons (by decide) ?_
    rw [rightSib, h.sibling]
    exact .nil _
  · rwa [hkeys]

theorem LeafRoot.sorted (h : LeafRoot s entries) (hwell : WellFormed s) :
    (entries.map RIDKeyPair.key).Pairwise (· ≤ ·) := by
  obtain ⟨level, b, hwell⟩ := hwell
  have hlevel := hwell.rootIsLeaf.mp h.isLeaf
  subst hlevel
  have htree := hwell.tree
  rw [h.root] at htree
  cases htree with
  | leaf hcount _ hsorted =>
      have hn := h.holds.count.symm.trans hcount
      have hn := Int.ofNat_inj.mp hn
      rwa [← hn, firstKeys_eq h.holds] at hsorted

/-- **When the index is a B+ tree.** Inserting `entries` into an empty index returns and leaves a B+ tree
if and only if the name of the relation fits into the meta page, there are no more entries than a leaf
has room for, and their keys come in non-decreasing order. -/
theorem wellFormed_iff (fuel : Nat) (name : List UInt8) (offset : Int) (entries : List RIDKeyPair) :
    (∃ t, build fuel name offset [] entries new = (.ok (), t) ∧ WellFormed t) ↔
      NameFits name ∧ entries.length ≤ intArrayLeafSize ∧
        (entries.map RIDKeyPair.key).Pairwise (· ≤ ·) := by
  have hrel : entriesOf offset [] = some [] := rfl
  constructor
  · rintro ⟨t, hrun, hwell⟩
    by_cases h : NameFits name ∧ ([] ++ entries).length ≤ intArrayLeafSize
    · obtain ⟨u, hrun', hu, _⟩ := build_ok fuel h.1 hrel h.2
      rw [hrun] at hrun'
      cases hrun'
      exact ⟨h.1, h.2, hu.sorted hwell⟩
    · obtain ⟨u, hrun'⟩ := build_undefined fuel hrel h
      rw [hrun] at hrun'
      cases hrun'
  · rintro ⟨hname, hbound, hsorted⟩
    obtain ⟨t, hrun, ht, _⟩ := build_ok fuel hname hrel hbound
    exact ⟨t, hrun, ht.wellFormed hsorted⟩

/-- Two entries whose keys do not come in order. -/
theorem wellFormed_unsorted :
    ¬ ∃ t, build 0 [114] 0 [] [⟨⟨1, 1⟩, 2⟩, ⟨⟨1, 2⟩, 1⟩] new = (.ok (), t) ∧ WellFormed t := by
  rintro ⟨t, hrun, hwell⟩
  obtain ⟨u, hrun', hu, _⟩ : ∃ s, build 0 [114] 0 [] [⟨⟨1, 1⟩, 2⟩, ⟨⟨1, 2⟩, 1⟩] new = (.ok (), s) ∧
      LeafRoot s ([] ++ [⟨⟨1, 1⟩, 2⟩, ⟨⟨1, 2⟩, 1⟩]) ∧ Idle s :=
    build_ok 0 (by decide) rfl (by decide)
  rw [hrun] at hrun'
  cases hrun'
  exact absurd (hu.sorted hwell) (by decide)

end BTreeIndex
end CS640.Badger
