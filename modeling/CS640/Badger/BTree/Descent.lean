import CS640.Badger.BTree.Structure
import CS640.Lib.SearchTree
import Mathlib.Algebra.Order.Group.Unbundled.Int

/-!
# The ways down

A key belongs into one leaf of a tree, and there is one way there. `lookForTargetLeaf` goes on past the
valid keys, takes the child after the one that it should, and at level `1` reads that child, which is a
leaf, as if it were a node of level `1` itself. `lookForNonLeafAboveLeaf` takes the right children and one
of them too many.

Main results: `not_descendsRight` and `not_samePlace`. In no tree does either function find the node that
it looks for.

Both negative results rest on the same observation about `keysUpTo`: it stops at the first key that is greater, or
leaves the array. So what a search does beyond the valid keys depends on words that mean nothing, and pages can be
found (`astray`, `withKeys`) that are the same node as before and lead the search out of the array.
-/

namespace CS640.Badger

open CS640.Lib Prog

/-- The nodes of an index. -/
def searchTree (pages : Nat → Words) : SearchTree Int Nat where
  count p := (pages p).validEntryNum.toNat
  key p := NonLeafNodeInt.key (pages p)
  child p := NonLeafNodeInt.pageNo (pages p)

/-- Two pages that are the same non-leaf node: what they have beyond their valid entries may differ. -/
structure SameNode (p p' : Words) : Prop where
  count : p'.validEntryNum = p.validEntryNum
  level : NonLeafNodeInt.level p' = NonLeafNodeInt.level p
  key : ∀ i < p.validEntryNum.toNat, NonLeafNodeInt.key p' i = NonLeafNodeInt.key p i
  pageNo : ∀ i ≤ p.validEntryNum.toNat, NonLeafNodeInt.pageNo p' i = NonLeafNodeInt.pageNo p i

theorem SameNode.refl (p : Words) : SameNode p p := ⟨rfl, rfl, fun _ _ => rfl, fun _ _ => rfl⟩

/-! ## Ways in a tree

The way of a key is a path in the tree that `searchTree` reads off the pages (`Lib.SearchTree`). It meets each page
once, since the pages below two children are different.
-/

namespace Subtree

variable {pages : Nat → Words} {level pageNo : Nat} {b : Below} {key : Int} {nodes : List Nat}

theorem root_mem (h : Subtree pages level pageNo b) : pageNo ∈ b.ids := by
  cases h <;> exact List.mem_cons_self

/-- What is below a child is below its parent. -/
theorem sublist_flatMap (child : Nat → List Nat) {j n : Nat} (hj : j ≤ n) :
    List.Sublist (child j) ((List.range (n + 1)).flatMap child) := by
  rw [List.flatMap_def]
  exact List.sublist_flatten_of_mem (List.mem_map_of_mem (List.mem_range.mpr (Nat.lt_succ_of_le hj)))

/-- Two children have no page in common. -/
theorem disjoint_children {child : Nat → List Nat} {i j n : Nat}
    (h : ((List.range (n + 1)).flatMap child).Nodup) (hij : i < j) (hj : j ≤ n) :
    (child i).Disjoint (child j) := by
  have hpair := (List.nodup_flatMap.mp h).2
  rw [List.pairwise_iff_getElem] at hpair
  have hdisj := hpair i j (by simp; omega) (by simp; omega) hij
  simpa [Function.onFun] using hdisj

/-- A way meets pages of the tree, from the top down. -/
theorem way_sublist (h : Subtree pages level pageNo b) (hway : Way (searchTree pages) key level pageNo nodes) :
    List.Sublist nodes b.ids := by
  -- Down the tree, as the way does.
  induction h generalizing nodes with
  | leaf =>
      cases hway
      exact List.Sublist.refl _
  | @node level pageNo n child hcount _ _ _ _ _ ih =>
      cases hway with
      | @node _ j _ nodes hslot hway =>
          have hj : j ≤ n := by
            have hle := hslot.le
            simpa [searchTree, hcount] using hle
          exact ((ih j hj hway).trans (sublist_flatMap (fun j => (child j).ids) hj)).cons_cons pageNo

end Subtree

namespace BTreeIndex

variable {s t : BTreeIndex} {level : Nat} {b : Below} {key : Int} {page : Words}

/-! ## The loops over the keys of a node

`keysUpTo` has three ends: a greater key, the end of its rounds, and the end of the array, whichever comes first.
-/

/-- The loop ends at the first key that is greater. -/
theorem keysUpTo_found {rounds index j : Nat} (hle : index ≤ j) (hj : j < index + rounds)
    (hsize : j < intArrayNonLeafSize)
    (hbefore : ∀ i, index ≤ i → i < j → NonLeafNodeInt.key page i ≤ key)
    (hnext : key < NonLeafNodeInt.key page j) (s : BTreeIndex) :
    keysUpTo page key rounds index s = (.ok j, s) := by
  -- Over the rounds up to `j`.
  induction rounds generalizing index with
  | zero => omega
  | succ rounds ih =>
      have hin : (index : Int) < intArrayNonLeafSize := by omega
      rw [keysUpTo, bind_of_ok (inArray_ok (by omega) hin), Int.toNat_natCast]
      by_cases heq : index = j
      · subst heq
        have hnot : ¬ key ≥ NonLeafNodeInt.key page index := by omega
        rw [if_neg hnot]
        rfl
      · rw [if_pos (hbefore index (Nat.le_refl _) (by omega))]
        exact ih (by omega) (by omega) fun i hi => hbefore i (by omega)

/-- Without a greater key it goes to its end. -/
theorem keysUpTo_end {rounds index : Nat} (hsize : index + rounds ≤ intArrayNonLeafSize)
    (hbefore : ∀ i, index ≤ i → i < index + rounds → NonLeafNodeInt.key page i ≤ key) (s : BTreeIndex) :
    keysUpTo page key rounds index s = (.ok (index + rounds), s) := by
  induction rounds generalizing index with
  | zero => rfl
  | succ rounds ih =>
      have hin : (index : Int) < intArrayNonLeafSize := by omega
      rw [keysUpTo, bind_of_ok (inArray_ok (by omega) hin), Int.toNat_natCast,
        if_pos (hbefore index (Nat.le_refl _) (by omega)),
        ih (by omega) fun i hi hi' => hbefore i (by omega) (by omega)]
      congr 2
      omega

/-- If it has more rounds than there are keys, it leaves the array. -/
theorem keysUpTo_undefined {rounds index : Nat} (hindex : index ≤ intArrayNonLeafSize)
    (hsize : intArrayNonLeafSize < index + rounds)
    (hbefore : ∀ i, index ≤ i → i < intArrayNonLeafSize → NonLeafNodeInt.key page i ≤ key)
    (s : BTreeIndex) : keysUpTo page key rounds index s = (.error .undefined, s) := by
  -- Over the rounds; at the last index of the array there is no element to compare with.
  induction rounds generalizing index with
  | zero => omega
  | succ rounds ih =>
      rw [keysUpTo]
      by_cases heq : index = intArrayNonLeafSize
      · rw [bind_of_error (inArray_undefined (by omega))]
      · have hin : (index : Int) < intArrayNonLeafSize := by omega
        rw [bind_of_ok (inArray_ok (by omega) hin), Int.toNat_natCast,
          if_pos (hbefore index (Nat.le_refl _) (by omega))]
        exact ih (by omega) (by omega) fun i hi => hbefore i (by omega)

/-- Over the valid keys it finds the slot. -/
theorem keysUpTo_slot {n j : Nat} (hslot : IsSlot (NonLeafNodeInt.key page) n key j)
    (hn : n ≤ intArrayNonLeafSize) (s : BTreeIndex) : keysUpTo page key n 0 s = (.ok j, s) := by
  -- The slot is that of a greater key, or the one behind the last key.
  rcases Nat.lt_or_ge j n with hlt | hge
  · exact keysUpTo_found (Nat.zero_le j) (by omega) (by omega) (fun i _ => hslot.before i) (hslot.next hlt) s
  · have heq : j = n := Nat.le_antisymm hslot.le hge
    subst heq
    have hend : keysUpTo page key j 0 s = (.ok (0 + j), s) :=
      keysUpTo_end (by omega) (fun i _ hi => hslot.before i (by omega)) s
    simpa using hend

theorem child_apply {i : Nat} (h : i ≤ intArrayNonLeafSize) (s : BTreeIndex) :
    child page i s = (.ok (NonLeafNodeInt.pageNo page i), s) := by
  rw [child, bind_of_ok (inArray_ok (by omega) (by omega)), Int.toNat_natCast]
  rfl

/-! ## The way to the leaf of an insertion

The loop of `lookForTargetLeaf` is given the size of the key array in bytes as its number of rounds, which is more
than there are keys. `DescendsRight` asks for the right leaf whatever is in the words that are not valid; the two
lemmas on nodes say how a page with the same valid words fails.
-/

/-- Whatever the pages hold beyond the valid entries of the non-leaf nodes on the way, `lookForTargetLeaf`
returns the leaf that `key` belongs into. -/
def DescendsRight (s : BTreeIndex) (level : Nat) (key : Int) : Prop :=
  ∃ nodes leaf, Way (searchTree s.pages) key level s.rootPageNum nodes ∧ nodes[level]? = some leaf ∧
    ∀ pages, (∀ p ∈ nodes.take level, SameNode (s.pages p) (pages p)) →
      ∃ fuel t, lookForTargetLeaf key fuel s.rootPageNum { s with pages := pages } = (.ok leaf, t)

/-- A page on which the search for `key` goes astray: at level `1`, with no greater key. -/
def astray (key : Int) : Words := fun w => if w = 0 then 2000 else if w = 1 then 1 else key

theorem keysUpTo_astray {rounds : Nat} (h : intArrayNonLeafSize < rounds) (s : BTreeIndex) :
    keysUpTo (astray key) key rounds 0 s = (.error .undefined, s) := by
  refine keysUpTo_undefined (Nat.zero_le _) (by omega) (fun i _ _ => ?_) s
  have hkey : NonLeafNodeInt.key (astray key) i = key := by
    simp [NonLeafNodeInt.key, astray]
    omega
  exact le_of_eq hkey

/-- The loop over the keys of a node is given more rounds than there are keys. -/
theorem size_lt_keyArraySize : intArrayNonLeafSize < NonLeafNodeInt.keyArraySize := by decide

/-- The search does not return from a page where it goes astray. -/
theorem lookForTargetLeaf_astray {pageNo leaf : Nat} (h : s.pages pageNo = astray key) (fuel : Nat) :
    lookForTargetLeaf key fuel pageNo s ≠ (.ok leaf, t) := by
  intro hrun
  -- Too few rounds to come down at all, and then the page itself.
  match fuel with
  | 0 => cases hrun
  | 1 => cases hrun
  | fuel + 2 =>
      have hlevel : NonLeafNodeInt.level (astray key) ≥ 1 := by simp [NonLeafNodeInt.level, astray]
      rw [lookForTargetLeaf, bind_of_ok (readPage_apply pageNo s), h, targetLoop, if_pos hlevel,
        bind_of_error (keysUpTo_astray size_lt_keyArraySize _)] at hrun
      cases hrun

/-- The node with `key` in place of all keys from the `n`-th on. -/
def withKeys (p : Words) (n : Nat) (key : Int) : Words := fun w =>
  if 2 + n ≤ w ∧ w < 2 + intArrayNonLeafSize then key else p w

theorem sameNode_withKeys {p : Words} {n : Nat} (h : p.validEntryNum = n) (key : Int) :
    SameNode p (withKeys p n key) where
  count := by simp [Words.validEntryNum, withKeys]
  level := by
    rw [NonLeafNodeInt.level, withKeys, if_neg (by omega)]
    rfl
  key := by
    intro i hi
    rw [NonLeafNodeInt.key, withKeys, if_neg (by omega)]
    rfl
  pageNo := by
    intro i _
    rw [NonLeafNodeInt.pageNo, withKeys, if_neg (by omega)]
    rfl

/-- A node where all valid keys are passed and the others are too. -/
theorem lookForTargetLeaf_withKeys {p : Words} {n root leaf : Nat} (hpage : s.pages root = withKeys p n key)
    (hlevel : NonLeafNodeInt.level p ≥ 1) (hbefore : ∀ i < n, NonLeafNodeInt.key p i ≤ key) (fuel : Nat) :
    lookForTargetLeaf key fuel root s ≠ (.ok leaf, t) := by
  intro hrun
  match fuel with
  | 0 => cases hrun
  | 1 => cases hrun
  | fuel + 2 =>
      have hlevel' : NonLeafNodeInt.level (withKeys p n key) ≥ 1 := by
        rw [NonLeafNodeInt.level, withKeys, if_neg (by omega)]
        exact hlevel
      -- Valid or not, no key of the node is greater.
      have hkeys : ∀ i, 0 ≤ i → i < intArrayNonLeafSize → NonLeafNodeInt.key (withKeys p n key) i ≤ key := by
        intro i _ hi
        rw [NonLeafNodeInt.key, withKeys]
        split
        · exact Int.le_refl key
        · exact hbefore i (by omega)
      rw [lookForTargetLeaf, bind_of_ok (readPage_apply root s), hpage, targetLoop, if_pos hlevel',
        bind_of_error (keysUpTo_undefined (Nat.zero_le _) (by decide) hkeys _)] at hrun
      cases hrun

/-- A node with a greater valid key, whose second child from there leads astray. -/
theorem lookForTargetLeaf_next {n j root leaf : Nat} (hn : n ≤ intArrayNonLeafSize) (hj : j < n)
    (hslot : IsSlot (NonLeafNodeInt.key (s.pages root)) n key j)
    (hlevel : NonLeafNodeInt.level (s.pages root) ≥ 1)
    (hnext : s.pages (NonLeafNodeInt.pageNo (s.pages root) (j + 1)) = astray key) (fuel : Nat) :
    lookForTargetLeaf key fuel root s ≠ (.ok leaf, t) := by
  intro hrun
  match fuel with
  | 0 => cases hrun
  | 1 => cases hrun
  | fuel + 2 =>
      have hsize : NonLeafNodeInt.keyArraySize = 4088 := rfl
      have hbound : intArrayNonLeafSize = 1022 := rfl
      rw [lookForTargetLeaf, bind_of_ok (readPage_apply root s), targetLoop, if_pos hlevel,
        bind_of_ok (keysUpTo_found (Nat.zero_le j) (by omega) (by omega) (fun i _ => hslot.before i)
          (hslot.next hj) _),
        bind_of_ok (child_apply (by omega) _), bind_of_ok (unPinPage_head s.pins false rfl)] at hrun
      split at hrun
      · -- the child is read as a node of level `1`, and has no greater key
        rw [bind_of_ok (readPage_apply _ _)] at hrun
        dsimp only at hrun
        rw [hnext] at hrun
        have hcount : (astray key).validEntryNum.toNat = 2000 := rfl
        rw [hcount, bind_of_error (keysUpTo_astray (by decide) _)] at hrun
        cases hrun
      · exact lookForTargetLeaf_astray hnext _ hrun

/-- **The way down of an insertion.** In no tree, and for no key, does `lookForTargetLeaf` find the leaf by
what is valid on the way. -/
theorem not_descendsRight (h : WellFormedAt s level b) (hlevel : 1 ≤ level) (key : Int) :
    ¬ DescendsRight s level key := by
  rintro ⟨nodes, leaf, hway, -, hreturns⟩
  obtain ⟨level, rfl⟩ : ∃ l, level = l + 1 := Nat.exists_eq_add_one_of_ne_zero (by omega)
  have htree := h.tree
  have hnodup := h.nodup
  generalize hroot : s.rootPageNum = root at htree hway
  cases htree with
  -- By whether the node has a greater key. In both cases the page that is changed is the same node, or is not on the
  -- way.
  | @node _ _ n child hcount hbound hlev _ hsub _ =>
      cases hway with
      | @node _ j _ nodes hslot hway =>
          have hslot : IsSlot (NonLeafNodeInt.key (s.pages root)) n key j := by
            simpa [searchTree, hcount] using hslot
          have hlev : NonLeafNodeInt.level (s.pages root) ≥ 1 := by omega
          by_cases hj : j < n
          · -- the child after the right one is not on the way: let it lead astray
            have hchildren : ((List.range (n + 1)).flatMap fun j => (child j).ids).Nodup :=
              (List.nodup_cons.mp hnodup).2
            have hmem := (hsub (j + 1) hj).root_mem
            have hroot' : NonLeafNodeInt.pageNo (s.pages root) (j + 1) ≠ root := by
              intro heq
              rw [heq] at hmem
              exact (List.nodup_cons.mp hnodup).1
                ((Subtree.sublist_flatMap (fun j => (child j).ids) hj).subset hmem)
            have hway' : NonLeafNodeInt.pageNo (s.pages root) (j + 1) ∉ nodes := by
              intro hin
              have hin := ((hsub j hslot.le).way_sublist hway).subset hin
              exact Subtree.disjoint_children hchildren (Nat.lt_succ_self j) hj hin hmem
            obtain ⟨fuel, t, hrun⟩ := hreturns
              (Function.update s.pages (NonLeafNodeInt.pageNo (s.pages root) (j + 1)) (astray key)) (by
                intro p hp
                rw [Function.update_of_ne]
                · exact .refl _
                · rintro rfl
                  rcases List.mem_cons.mp (List.mem_of_mem_take hp) with hp | hp
                  · exact hroot' hp
                  · exact hway' hp)
            rw [hroot] at hrun
            have hpage : Function.update s.pages (NonLeafNodeInt.pageNo (s.pages root) (j + 1)) (astray key)
                root = s.pages root := Function.update_of_ne hroot'.symm _ _
            refine lookForTargetLeaf_next hbound hj ?_ ?_ ?_ fuel hrun
            · dsimp only
              rwa [hpage]
            · dsimp only
              rwa [hpage]
            · dsimp only
              rw [hpage, Function.update_self]
          · -- all valid keys are passed: let the others be passed too
            have heq : j = n := Nat.le_antisymm hslot.le (Nat.le_of_not_lt hj)
            obtain ⟨fuel, t, hrun⟩ := hreturns
              (Function.update s.pages root (withKeys (s.pages root) n key)) (by
                intro p _
                by_cases hp : p = root
                · rw [hp, Function.update_self]
                  exact sameNode_withKeys hcount key
                · rw [Function.update_of_ne hp]
                  exact .refl _)
            rw [hroot] at hrun
            refine lookForTargetLeaf_withKeys (Function.update_self ..) hlev ?_ fuel hrun
            intro i hi
            exact hslot.before i (by omega)

/-! ## The way down of a scan

`lookForNonLeafAboveLeaf` counts its rounds right, but tests the level before it goes down and returns the child it
has just looked up.
-/

/-- `lookForNonLeafAboveLeaf` finds the node of each level on the way, and a scan from `key` on starts in the
leaf into which `key` is inserted. -/
def SamePlace (s : BTreeIndex) (level : Nat) (key : Int) : Prop :=
  ∃ nodes, Way (searchTree s.pages) key level s.rootPageNum nodes ∧
    (∀ t, 1 ≤ t → t ≤ level → ∃ fuel u p, nodes[level - t]? = some p ∧
      lookForNonLeafAboveLeaf key t fuel s.rootPageNum s = (.ok p, u)) ∧
    ∀ high highOp, key ≤ high → s.scanExecuting = false → ∃ fuel u v leaf,
      startScan fuel key .GTE high highOp s = (.ok (), u) ∧ u.currentPageNum = some leaf ∧
        lookForTargetLeaf key fuel s.rootPageNum s = (.ok leaf, v)

/-- A step down: the child is the right one, and a pin stays on the meta page. -/
theorem lookForNonLeafAboveLeaf_succ {p n j fuel : Nat} {target : Int}
    (hroot : IndexMetaInfo.isRootLeafPage (s.pages headerPageNum) = false)
    (hcount : (s.pages p).validEntryNum = n) (hbound : n ≤ intArrayNonLeafSize)
    (hslot : IsSlot (NonLeafNodeInt.key (s.pages p)) n key j)
    (hge : NonLeafNodeInt.level (s.pages p) ≥ target) :
    lookForNonLeafAboveLeaf key target (fuel + 1) p s =
      (if NonLeafNodeInt.level (s.pages p) = target then pure (NonLeafNodeInt.pageNo (s.pages p) j)
        else lookForNonLeafAboveLeaf key target fuel (NonLeafNodeInt.pageNo (s.pages p) j) : Call Nat)
        { s with pins := headerPageNum :: s.pins } := by
  rw [lookForNonLeafAboveLeaf, bind_of_ok (readPage_apply headerPageNum s), if_neg (by simp [hroot]),
    bind_of_ok (readPage_apply p _), if_pos hge, hcount, Int.toNat_natCast,
    bind_of_ok (keysUpTo_slot hslot hbound _), bind_of_ok (child_apply (Nat.le_trans hslot.le hbound) _),
    bind_of_ok (unPinPage_head _ false rfl)]

/-- `lookForNonLeafAboveLeaf` returns the child of the node of the level that is asked for, if it has the
rounds to get there. -/
theorem lookForNonLeafAboveLeaf_apply {pages : Nat → Words} {p target : Nat} {nodes : List Nat}
    (htree : Subtree pages level p b) (hway : Way (searchTree pages) key level p nodes)
    (hroot : IndexMetaInfo.isRootLeafPage (pages headerPageNum) = false)
    (htarget : 1 ≤ target) (hle : target ≤ level) :
    ∀ (s : BTreeIndex) (fuel : Nat), s.pages = pages →
      (fuel ≤ level - target → ∃ u, lookForNonLeafAboveLeaf key target fuel p s = (.error .diverge, u)) ∧
        (level - target < fuel → ∃ u q, nodes[level - target + 1]? = some q ∧
          lookForNonLeafAboveLeaf key target fuel p s = (.ok q, u)) := by
  -- Down the tree. On the level that is asked for the function stops; above it the tree below the child has the rest.
  induction htree generalizing nodes with
  | leaf => omega
  | @node level p n child hcount hbound hlev _ hsub _ ih =>
      rintro s (_ | fuel) rfl
      · exact ⟨fun _ => ⟨_, rfl⟩, fun h => absurd h (Nat.not_lt_zero _)⟩
      cases hway with
      | @node _ j _ nodes hslot hway =>
          have hslot : IsSlot (NonLeafNodeInt.key (s.pages p)) n key j := by
            simpa [searchTree, hcount] using hslot
          rw [lookForNonLeafAboveLeaf_succ hroot hcount hbound hslot (by omega)]
          by_cases hlast : target = level + 1
          · -- here is the level: but it is the child that is returned
            subst hlast
            rw [if_pos (by omega), Nat.sub_self, List.getElem?_cons_succ, hway.head]
            exact ⟨fun h => absurd h (Nat.not_succ_le_zero _), fun _ => ⟨_, _, rfl, rfl⟩⟩
          · rw [if_neg (by omega)]
            have hsucc : level + 1 - target = level - target + 1 := by omega
            rw [hsucc, List.getElem?_cons_succ]
            obtain ⟨hshort, hlong⟩ := ih j hslot.le hway (by omega)
              { s with pins := headerPageNum :: s.pins } fuel rfl
            exact ⟨fun h => hshort (Nat.le_of_succ_le_succ h), fun h => hlong (Nat.lt_of_succ_lt_succ h)⟩

/-- **The way down of a scan.** In no tree, for no key and no level does `lookForNonLeafAboveLeaf` find the
node of that level on the way: it returns the node below. -/
theorem not_samePlace (h : WellFormedAt s level b) (hlevel : 1 ≤ level) (key : Int) :
    ¬ SamePlace s level key ∧
      ∃ nodes, Way (searchTree s.pages) key level s.rootPageNum nodes ∧
        ∀ t, 1 ≤ t → t ≤ level → ∃ fuel u p, nodes[level - t + 1]? = some p ∧
          lookForNonLeafAboveLeaf key t fuel s.rootPageNum s = (.ok p, u) := by
  have hroot : IndexMetaInfo.isRootLeafPage (s.pages headerPageNum) = false := by
    -- The root of a tree with a level is no leaf.
    cases hleaf : IndexMetaInfo.isRootLeafPage (s.pages headerPageNum) with
    | false => rfl
    | true =>
        have hzero := h.rootIsLeaf.mp hleaf
        omega
  constructor
  · rintro ⟨nodes, hway, hfinds, -⟩
    obtain ⟨fuel, u, p, hp, hrun⟩ := hfinds 1 (Nat.le_refl 1) hlevel
    obtain ⟨hshort, hlong⟩ := lookForNonLeafAboveLeaf_apply h.tree hway hroot (Nat.le_refl 1) hlevel s fuel rfl
    rcases Nat.lt_or_ge (level - 1) fuel with hfuel | hfuel
    · -- a node and its child are different pages
      obtain ⟨v, q, hq, hrun'⟩ := hlong hfuel
      rw [hrun] at hrun'
      cases hrun'
      have hnodup := (h.tree.way_sublist hway).nodup h.nodup
      have hlen := hway.length
      have heq := (List.getElem?_inj (by omega) hnodup).mp (hp.trans hq.symm)
      omega
    · -- With too few rounds it does not return.
      obtain ⟨v, hrun'⟩ := hshort hfuel
      rw [hrun] at hrun'
      cases hrun'
  · obtain ⟨nodes, hway⟩ := Way.exists_way (searchTree s.pages) key level s.rootPageNum
    refine ⟨nodes, hway, fun t ht htl => ?_⟩
    obtain ⟨u, q, hq, hrun⟩ :=
      (lookForNonLeafAboveLeaf_apply h.tree hway hroot ht htl s (level - t + 1) rfl).2 (Nat.lt_succ_self _)
    exact ⟨_, u, q, hq, hrun⟩

/-! ## A tree of two leaves

The smallest tree with a way down, on which both functions are run.
-/

/-- A leaf with one entry. -/
def singleLeaf (key : Int) (rid : RecordId) (rightSib : Nat) : Words :=
  ((LeafNodeInt.setEntry Words.fresh 0 key rid).setValidEntryNum 1).set
    (1 + intArrayLeafSize + 2 * intArrayLeafSize) rightSib

/-- A node of level `1` with one key. -/
def singleNode (key : Int) (left right : Nat) : Words :=
  ((((Words.fresh.setValidEntryNum 1).set 1 1).set 2 key).set (2 + intArrayNonLeafSize) left).set
    (2 + intArrayNonLeafSize + 1) right

/-- The keys `5` and `10` on two leaves, and a root over them. -/
def twoLeaves : BTreeIndex :=
  { new with
    pages := fun pageNo =>
      if pageNo = 2 then singleLeaf 5 ⟨1, 1⟩ 3
      else if pageNo = 3 then singleLeaf 10 ⟨1, 2⟩ 0
      else if pageNo = 4 then singleNode 10 2 3
      else Words.fresh
    numPages := 5
    rootPageNum := 4 }

/-- What is below the children of the root. -/
def twoLeavesChild (j : Nat) : Below := if j = 0 then ⟨[2], [2], [5]⟩ else ⟨[3], [3], [10]⟩

theorem twoLeaves_wellFormed : WellFormedAt twoLeaves 1 ⟨[4, 2, 3], [2, 3], [5, 10]⟩ where
  tree := by
    have hleft : Subtree twoLeaves.pages 0 2 ⟨[2], [2], [5]⟩ :=
      .leaf (n := 1) rfl (by decide) (by decide)
    have hright : Subtree twoLeaves.pages 0 3 ⟨[3], [3], [10]⟩ :=
      .leaf (n := 1) rfl (by decide) (by decide)
    have hnode : ∀ j ≤ 1, Subtree twoLeaves.pages 0 (NonLeafNodeInt.pageNo (twoLeaves.pages 4) j)
        (twoLeavesChild j) := by
      intro j hj
      -- The left child has `5`, the right one `10`.
      obtain rfl | rfl : j = 0 ∨ j = 1 := by omega
      · exact hleft
      · exact hright
    refine .node (n := 1) rfl (by decide) rfl (by decide) hnode ?_
    intro j hj
    obtain rfl | rfl : j = 0 ∨ j = 1 := by omega
    · decide
    · decide
  rootIsLeaf := by decide
  nodup := by decide
  siblings := by
    rintro first hfirst
    cases hfirst
    exact .cons (by decide) (.cons (by decide) (.nil _))
  sorted := by decide

theorem way_twoLeaves : Way (searchTree twoLeaves.pages) 5 1 twoLeaves.rootPageNum [4, 2] :=
  .node (j := 0) ⟨by decide, nofun, by decide⟩ (.leaf 2)

theorem not_descendsRight_twoLeaves : ¬ DescendsRight twoLeaves 1 10 :=
  not_descendsRight twoLeaves_wellFormed (by decide) 10

/-- The key `5` belongs on page `2`, but the search reads page `3` as a node, starts over there and unpins
the root once too often. -/
theorem lookForTargetLeaf_twoLeaves :
    (∃ b, WellFormedAt twoLeaves 1 b) ∧ Way (searchTree twoLeaves.pages) 5 1 twoLeaves.rootPageNum [4, 2] ∧
      ∀ fuel leaf t, lookForTargetLeaf 5 fuel twoLeaves.rootPageNum twoLeaves ≠ (.ok leaf, t) := by
  refine ⟨⟨_, twoLeaves_wellFormed⟩, way_twoLeaves, ?_⟩
  -- After three rounds it has left the tree.
  intro fuel leaf t hrun
  match fuel with
  | 0 => cases hrun
  | 1 => cases hrun
  | 2 => cases hrun
  | fuel + 3 => cases hrun

theorem not_samePlace_twoLeaves : ¬ SamePlace twoLeaves 1 10 :=
  (not_samePlace twoLeaves_wellFormed (by decide) 10).1

/-- For the key `5` the node of level `1` is the root, and page `2`, a leaf, is returned. -/
theorem lookForNonLeafAboveLeaf_twoLeaves :
    (∃ b, WellFormedAt twoLeaves 1 b) ∧ Way (searchTree twoLeaves.pages) 5 1 twoLeaves.rootPageNum [4, 2] ∧
      ∀ fuel p t, lookForNonLeafAboveLeaf 5 1 fuel twoLeaves.rootPageNum twoLeaves = (.ok p, t) → p = 2 := by
  refine ⟨⟨_, twoLeaves_wellFormed⟩, way_twoLeaves, ?_⟩
  intro fuel p t hrun
  match fuel with
  | 0 => cases hrun
  | fuel + 1 =>
      cases hrun
      rfl

end BTreeIndex
end CS640.Badger
