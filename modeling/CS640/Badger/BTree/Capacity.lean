import CS640.Badger.BTree.Build

/-!
# How much a node holds

`WithinArrays` says of a sequence of insertions that all indices lie inside their arrays, that no node
has more entries than its arrays have room for, and that a leaf that is full is split. Main result:
`BTreeIndex.withinArrays_iff`. It holds as long as there are no more entries than a leaf has room for:
`insertLeafPage` compares the number of entries with the size of `ridArray` in bytes.
-/

namespace CS640.Badger

open CS640.Lib Prog

namespace BTreeIndex

/-- The nodes under the root, and which of them are leaves. -/
inductive Node (s : BTreeIndex) : (leaf : Bool) → (pageNo : Nat) → Prop
  | root : Node s (IndexMetaInfo.isRootLeafPage (s.pages headerPageNum)) s.rootPageNum
  | child {pageNo j : Nat} : Node s false pageNo → (j : Int) ≤ (s.pages pageNo).validEntryNum →
      Node s (decide (NonLeafNodeInt.level (s.pages pageNo) = 1)) (NonLeafNodeInt.pageNo (s.pages pageNo) j)

/-- No node has more entries than its arrays have room for. -/
structure NodesFit (s : BTreeIndex) : Prop where
  leaf : ∀ pageNo, Node s true pageNo → (s.pages pageNo).validEntryNum ≤ intArrayLeafSize
  nonLeaf : ∀ pageNo, Node s false pageNo → (s.pages pageNo).validEntryNum ≤ intArrayNonLeafSize

/-- Inserted into a full leaf, the entry leads to `splitAndInsertLeafPage`. -/
def SplitsFull (s : BTreeIndex) (e : RIDKeyPair) : Prop :=
  ∀ pageNo, Node s true pageNo → (s.pages pageNo).validEntryNum = intArrayLeafSize →
    insertLeafPage pageNo e.key e.rid s = (do
      let _firstLeafPage ← readPage pageNo
      unPinPage pageNo false
      splitAndInsertLeafPage pageNo : Call Unit) s

/-- Inserting `entries` one after the other goes outside of no array, before and after each of them all
nodes fit, and no full leaf is appended to. -/
structure WithinArrays (fuel : Nat) (s : BTreeIndex) (entries : List RIDKeyPair) : Prop where
  inside : (insertAll fuel entries s).1 ≠ .error .undefined
  fit : ∀ k ≤ entries.length, ∀ t, insertAll fuel (entries.take k) s = (.ok (), t) → NodesFit t
  split : ∀ k (h : k < entries.length), ∀ t, insertAll fuel (entries.take k) s = (.ok (), t) →
    SplitsFull t entries[k]

variable {s t : BTreeIndex} {entries built : List RIDKeyPair}

/-! ## Where the root is a leaf

Then it is the only node, and it holds what was inserted. Insertions stay inside until the leaf is full, and the
one after that is undefined (`insertAll_undefined`), so no leaf is ever split.
-/

/-- The root is the only node. -/
theorem LeafRoot.node (h : LeafRoot s entries) {leaf : Bool} {pageNo : Nat} (hnode : Node s leaf pageNo) :
    -- the root is a leaf, so it has no children
    leaf = true ∧ pageNo = 2 := by
  induction hnode with
  | root => exact ⟨h.isLeaf, h.root⟩
  | child _ _ ih => cases ih.1

theorem LeafRoot.nodesFit (h : LeafRoot s entries) : NodesFit s where
  leaf pageNo hnode := by
    rw [(h.node hnode).2, h.holds.count]
    exact Int.ofNat_le.mpr h.holds.bound
  nonLeaf pageNo hnode := by cases (h.node hnode).1

/-- There is no full leaf yet. -/
theorem LeafRoot.splitsFull (h : LeafRoot s entries) (hroom : entries.length < intArrayLeafSize)
    (e : RIDKeyPair) : SplitsFull s e := by
  intro pageNo hnode hfull
  rw [(h.node hnode).2, h.holds.count] at hfull
  exact absurd (Int.ofNat_inj.mp hfull) (Nat.ne_of_lt hroom)

theorem LeafRoot.withinArrays (fuel : Nat) (h : LeafRoot s built) (entries : List RIDKeyPair) :
    WithinArrays fuel s entries ↔ (built ++ entries).length ≤ intArrayLeafSize := by
  constructor
  · intro hwithin
    by_contra hmany
    -- the entry that has no room is written outside the arrays
    obtain ⟨t, hrun⟩ := insertAll_undefined fuel entries h (Nat.lt_of_not_le hmany)
    apply hwithin.inside
    rw [hrun]
  · intro hbound
    have hlen : (built ++ entries).length = built.length + entries.length := List.length_append
    -- after `k` of the entries the root is a leaf that holds them
    have hbuilt : ∀ k ≤ entries.length, ∀ t, insertAll fuel (entries.take k) s = (.ok (), t) →
        LeafRoot t (built ++ entries.take k) ∧ (built ++ entries.take k).length = built.length + k := by
      intro k hk t hrun
      have hlen' : (built ++ entries.take k).length = built.length + k := by
        rw [List.length_append, List.length_take, Nat.min_eq_left hk]
      obtain ⟨t', hrun', ht, -⟩ := insertAll_ok fuel (entries.take k) h (by omega)
      rw [hrun] at hrun'
      cases hrun'
      exact ⟨ht, hlen'⟩
    refine ⟨?_, fun k hk t hrun => ?_, fun k hk t hrun => ?_⟩
    · obtain ⟨t, hrun, -⟩ := insertAll_ok fuel entries h hbound
      rw [hrun]
      exact fun hundefined => by cases hundefined
    · exact (hbuilt k hk t hrun).1.nodesFit
    · obtain ⟨ht, hlen'⟩ := hbuilt k (Nat.le_of_lt hk) t hrun
      exact ht.splitsFull (by omega) _

/-! ## All indices

Both begin with a root that is a leaf: one without entries, and one with those of the relation, since the
constructor inserts them in the same way.
-/

/-- **How many entries fit.** The insertions into an empty index, which the constructor itself begins
with, and those into an index that the constructor has returned, stay within the arrays if and only if
there are never more entries than a leaf has room for. -/
theorem withinArrays_iff (fuel : Nat) (name : List UInt8) (offset : Int) :
    (∀ entries, WithinArrays fuel (opened name offset) entries ↔ entries.length ≤ intArrayLeafSize) ∧
      ∀ relation built s, entriesOf offset relation = some built →
        construct fuel name offset relation new = (.ok (), s) →
        ∀ entries, WithinArrays fuel s entries ↔ (built ++ entries).length ≤ intArrayLeafSize := by
  constructor
  · intro entries
    exact (leafRoot_opened name offset).withinArrays fuel entries
  · intro relation built s hrel hrun entries
    by_cases hfits : NameFits name ∧ built.length ≤ intArrayLeafSize
    · -- the constructor returns only if all the records of the relation have room
      obtain ⟨t, hrun', ht, -⟩ := construct_ok fuel hfits.1 hrel hfits.2
      rw [hrun] at hrun'
      cases hrun'
      exact ht.withinArrays fuel entries
    · obtain ⟨t, hrun'⟩ := construct_fails fuel hrel hfits
      rw [hrun] at hrun'
      cases hrun'

/-- One entry from the relation, two more in the other order of keys. -/
theorem withinArrays_three :
    ∃ s, construct 0 [114] 0 [(⟨1, 1⟩, [5, 0, 0, 0])] new = (.ok (), s) ∧
      WithinArrays 0 s [⟨⟨1, 2⟩, 7⟩, ⟨⟨1, 3⟩, 6⟩] := by
  have hrel : entriesOf 0 [(⟨1, 1⟩, [5, 0, 0, 0])] = some [⟨⟨1, 1⟩, 5⟩] := by decide
  have hname : NameFits [114] := by decide
  obtain ⟨s, hrun, -⟩ := construct_ok 0 hname hrel (by decide)
  exact ⟨s, hrun, ((withinArrays_iff 0 [114] 0).2 _ _ s hrel hrun _).mpr (by decide)⟩

/-- The entry after the last that has room. -/
theorem withinArrays_beyond :
    ¬ WithinArrays 0 (opened [114] 0) (List.replicate (intArrayLeafSize + 1) ⟨⟨1, 1⟩, 0⟩) := by
  rw [(leafRoot_opened [114] 0).withinArrays, List.nil_append, List.length_replicate]
  exact Nat.not_succ_le_self _

end BTreeIndex
end CS640.Badger
