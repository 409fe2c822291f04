import CS640.Badger.BTree.Structure

/-!
# Scanning an index

`startScan_ok` and the rules of `scanNext` say what a scan of an index does whose root is a leaf. It starts
at an entry that is at or below the low end of the range (`startIndex`) and returns what follows in the leaf,
in the order of insertion, up to the first key above the range. Past the last entry
it goes on to page `0`, which reads as a leaf full of zero keys.

The three calls are functions of the members, up to the pins: `startScan_leaf`, `scanNext_open` and `endScan_open`
have their results in closed form, where a leaf is read at `position` and answers with `reply`. What the main
results need of them is `startScan_ok`, `scanNext_entry` and `scanNext_end`.
-/

namespace CS640.Badger

open CS640.Lib Prog

/-! ## Ranges

`InRange` is what the arguments of `startScan` ask of a key, `Stops` the test that `scanNext` makes.
-/

/-- The key satisfies both bounds. -/
def InRange (low : Int) (lowOp : Operator) (high : Int) (highOp : Operator) (key : Int) : Prop :=
  (if lowOp = .GT then low < key else low ≤ key) ∧ (if highOp = .LT then key < high else key ≤ high)

instance (low : Int) (lowOp : Operator) (high : Int) (highOp : Operator) (key : Int) :
    Decidable (InRange low lowOp high highOp key) :=
  inferInstanceAs (Decidable (_ ∧ _))

/-- The key ends a scan. -/
def Stops (high : Int) (highOp : Operator) (key : Int) : Prop := highOp = .LT ∧ key = high ∨ key > high

instance (high : Int) (highOp : Operator) (key : Int) : Decidable (Stops high highOp key) :=
  inferInstanceAs (Decidable (_ ∨ _))

section Ranges

variable {low high key : Int} {lowOp highOp : Operator}

theorem inRange_iff : InRange low lowOp high highOp key ↔
    (lowOp = .GT → low < key) ∧ low ≤ key ∧ ¬ Stops high highOp key := by
  unfold InRange Stops
  -- Four combinations of operators.
  split <;> split <;> simp_all <;> omega

theorem InRange.low_le (h : InRange low lowOp high highOp key) : low ≤ key := (inRange_iff.mp h).2.1

theorem InRange.not_stops (h : InRange low lowOp high highOp key) : ¬ Stops high highOp key :=
  (inRange_iff.mp h).2.2

end Ranges

/-! ## Where a scan starts

The loop of `startScan` over a leaf, as a function of the entries. It does not stop at the first key in the range
but remembers the last one at or below the low end, so where it ends up depends on the order of the entries.
-/

/-- The index at which the loop of `startScan` leaves `nextEntry`, for entries from `index` on. -/
def startIndex (low : Int) (lowOp : Operator) :
    (entries : List RIDKeyPair) → (index : Nat) → (nextEntry : Option Nat) → Option Nat
  | [], _, nextEntry => nextEntry
  | e :: entries, index, nextEntry =>
    if low ≥ e.key then
      if lowOp = .GTE ∧ low = e.key then some index
      else startIndex low lowOp entries (index + 1) (some index)
    else startIndex low lowOp entries (index + 1) nextEntry

/-- Where `nextEntry` is after the entries `seen`, none of which has stopped the loop: at the last one
whose key is at most `low`. -/
def LastUpTo (low : Int) (seen : List RIDKeyPair) : Option Nat → Prop
  | none => ∀ x ∈ seen, low < x.key
  | some j => ∃ before e after, seen = before ++ e :: after ∧ before.length = j ∧ e.key ≤ low ∧
      ∀ x ∈ after, low < x.key

theorem LastUpTo.above {low : Int} {seen : List RIDKeyPair} {j : Option Nat} (h : LastUpTo low seen j)
    {x : RIDKeyPair} (hx : low < x.key) : LastUpTo low (seen ++ [x]) j := by
  -- The entry is above the low end, so the last one below it is where it was.
  cases j with
  | none =>
      intro y hy
      rcases List.mem_append.mp hy with hy | hy
      · exact h y hy
      · rw [List.mem_singleton.mp hy]
        exact hx
  | some j =>
      obtain ⟨before, e, after, rfl, hj, he, hafter⟩ := h
      refine ⟨before, e, after ++ [x], by simp, hj, he, fun y hy => ?_⟩
      rcases List.mem_append.mp hy with hy | hy
      · exact hafter y hy
      · rw [List.mem_singleton.mp hy]
        exact hx

theorem lastUpTo_snoc {low : Int} (seen : List RIDKeyPair) {x : RIDKeyPair} (hx : x.key ≤ low) :
    LastUpTo low (seen ++ [x]) (some seen.length) :=
  ⟨seen, x, [], rfl, rfl, hx, fun _ hy => absurd hy List.not_mem_nil⟩

/-- Between `before` and `after`, `e` is the entry that a scan starts at: with `GTE` the first one whose
key is `low`; with `GT`, or when there is none, the last one whose key is at most `low`. -/
structure StartsAt (low : Int) (lowOp : Operator) (before : List RIDKeyPair) (e : RIDKeyPair)
    (after : List RIDKeyPair) : Prop where
  key_le : e.key ≤ low
  before_ne : lowOp = .GTE → ∀ x ∈ before, x.key ≠ low
  last : ¬ (lowOp = .GTE ∧ e.key = low) → ∀ x ∈ after, low < x.key

/-- What `startScan` makes of `nextEntry`, if it was not set before. -/
def Started (low : Int) (lowOp : Operator) (entries : List RIDKeyPair) : Option Nat → Prop
  | none => ∀ x ∈ entries, low < x.key
  | some j => ∃ before e after, entries = before ++ e :: after ∧ before.length = j ∧
      StartsAt low lowOp before e after

theorem startIndex_spec {low : Int} {lowOp : Operator} (rest : List RIDKeyPair) :
    ∀ (seen : List RIDKeyPair) (j : Option Nat), LastUpTo low seen j →
      (lowOp = .GTE → ∀ x ∈ seen, x.key ≠ low) →
      Started low lowOp (seen ++ rest) (startIndex low lowOp rest seen.length j) := by
  -- Over the entries that are left; `seen` are those the loop has passed.
  induction rest with
  | nil =>
      intro seen j h hne
      rw [List.append_nil, startIndex]
      cases j with
      | none => exact h
      | some j =>
          obtain ⟨before, e, after, rfl, hj, he, hafter⟩ := h
          exact ⟨before, e, after, rfl, hj, he,
            fun hop x hx => hne hop x (List.mem_append_left _ hx), fun _ => hafter⟩
  | cons x rest ih =>
      intro seen j h hne
      -- one more entry seen, the scan not being stopped by it
      have hsnoc : ∀ k, LastUpTo low (seen ++ [x]) k → (lowOp = .GTE → x.key ≠ low) →
          Started low lowOp (seen ++ x :: rest) (startIndex low lowOp rest (seen.length + 1) k) := by
        intro k hk hx
        have hnext := ih (seen ++ [x]) k hk fun hop y hy => by
          rcases List.mem_append.mp hy with hy | hy
          · exact hne hop y hy
          · rw [List.mem_singleton.mp hy]
            exact hx hop
        simpa using hnext
      rw [startIndex]
      split
      · -- At or below the low end: the loop stops here, or remembers the entry.
        next hle =>
          split
          · next hstop =>
              exact ⟨seen, x, rest, rfl, rfl, hle, hne, fun h => absurd ⟨hstop.1, hstop.2.symm⟩ h⟩
          · next hgo =>
              exact hsnoc _ (lastUpTo_snoc seen hle) fun hop heq => hgo ⟨hop, heq.symm⟩
      · next habove =>
          exact hsnoc _ (h.above (by omega)) fun _ => by omega

theorem started_startIndex (low : Int) (lowOp : Operator) (entries : List RIDKeyPair) :
    Started low lowOp entries (startIndex low lowOp entries 0 none) :=
  startIndex_spec entries [] none (fun _ hx => absurd hx List.not_mem_nil)
    fun _ _ hx => absurd hx List.not_mem_nil

theorem startIndex_above {low : Int} {lowOp : Operator} {entries : List RIDKeyPair}
    (h : ∀ x ∈ entries, low < x.key) (index : Nat) (nextEntry : Option Nat) :
    startIndex low lowOp entries index nextEntry = nextEntry := by
  induction entries generalizing index with
  | nil => rfl
  | cons x entries ih =>
      have hx := h x List.mem_cons_self
      rw [startIndex, if_neg (by omega), ih fun y hy => h y (List.mem_cons_of_mem _ hy)]

/-- The entry that a scan starts at does not depend on where `nextEntry` was, if there is one. -/
theorem startIndex_eq_none_iff {low : Int} {lowOp : Operator} {entries : List RIDKeyPair} (index : Nat)
    (nextEntry : Option Nat) :
    startIndex low lowOp entries index nextEntry = startIndex low lowOp entries index none ↔
      nextEntry = none ∨ ∃ e ∈ entries, e.key ≤ low := by
  -- Over the entries: the first one at or below the low end settles it.
  induction entries generalizing index with
  | nil => simp [startIndex]
  | cons x entries ih =>
      rw [startIndex, startIndex]
      by_cases hx : low ≥ x.key
      · -- from here on it is where `x` is, or further
        rw [if_pos hx, if_pos hx]
        exact iff_of_true rfl (Or.inr ⟨x, List.mem_cons_self, hx⟩)
      · rw [if_neg hx, if_neg hx, ih]
        simp [hx]

theorem StartsAt.startIndex {low : Int} {lowOp : Operator} {before : List RIDKeyPair} {e : RIDKeyPair}
    {after : List RIDKeyPair} (h : StartsAt low lowOp before e after) (index : Nat)
    (nextEntry : Option Nat) :
    startIndex low lowOp (before ++ e :: after) index nextEntry = some (index + before.length) := by
  -- Over the entries in front of the one that it starts at.
  induction before generalizing index nextEntry with
  | nil =>
      rw [List.nil_append, CS640.Badger.startIndex, if_pos h.key_le]
      split
      · rfl
      · next hgo => exact startIndex_above (h.last fun hstop => hgo ⟨hstop.1, hstop.2.symm⟩) _ _
  | cons x before ih =>
      have hx : ¬ (lowOp = .GTE ∧ low = x.key) := fun hstop =>
        h.before_ne hstop.1 x List.mem_cons_self hstop.2.symm
      have hrest : StartsAt low lowOp before e after :=
        ⟨h.key_le, fun hop y hy => h.before_ne hop y (List.mem_cons_of_mem _ hy), h.last⟩
      have hlen : index + (x :: before).length = index + 1 + before.length := by
        rw [List.length_cons]
        omega
      rw [List.cons_append, CS640.Badger.startIndex, if_neg hx, ih hrest, ih hrest, ite_self, hlen]

/-! ## The calls of a scan

`startScan` checks its arguments, reads the meta page and goes down to a leaf, which here is the root. It leaves the
meta page pinned.
-/

namespace BTreeIndex

variable {s : BTreeIndex} {entries : List RIDKeyPair}

theorem member_some {α : Type} (a : α) (s : BTreeIndex) : member (some a) s = (.ok a, s) := rfl

/-- The loop of `startScan`, when it is at the entries `rest`. -/
theorem seek_apply {leaf : Words} (h : LeafNodeInt.Holds leaf entries) (low : Int)
    (lowOp : Operator) (rest : List RIDKeyPair) :
    ∀ (seen : List RIDKeyPair) (s : BTreeIndex), entries = seen ++ rest →
      seek leaf low lowOp rest.length seen.length s = (.ok (), { s with
        nextEntry := startIndex low lowOp rest seen.length s.nextEntry }) := by
  -- Over the entries that are left, as `startIndex` does.
  induction rest with
  | nil => intro seen s _; rfl
  | cons x rest ih =>
      intro seen s heq
      have hlen : seen.length < entries.length := by
        simp [heq]
      have hbound := h.bound
      have hkey : LeafNodeInt.key leaf seen.length = x.key := by
        rw [h.key _ hlen]
        simp [heq]
      have hrest := fun t => ih (seen ++ [x]) t (by simpa using heq)
      simp only [List.length_append, List.length_singleton] at hrest
      rw [List.length_cons, seek, bind_of_ok (inArray_ok (by omega) (by omega)), Int.toNat_natCast,
        startIndex, hkey]
      -- One case for each branch of the loop.
      split
      · rw [bind_of_ok (modify_apply _ _)]
        split
        · rfl
        · rw [hrest]
      · rw [hrest]

theorem seekInLeaf_apply {leaf : Nat} (h : LeafNodeInt.Holds (s.pages leaf) entries) :
    seekInLeaf leaf s = (.ok (), { s with
      currentPageNum := some leaf
      nextEntry := startIndex s.lowValInt s.lowOp entries 0 s.nextEntry }) := by
  rw [seekInLeaf, bind_of_ok (modify_apply _ _), bind_of_ok (readPage_apply leaf _)]
  dsimp only
  rw [bind_of_ok (get_apply _), h.count, Int.toNat_natCast]
  refine (bind_of_ok (seek_apply h s.lowValInt s.lowOp entries [] _ rfl)).trans ?_
  rw [unPinPage_head s.pins false rfl]
  rfl

/-- A scan of an index with these entries, at an entry of a page. -/
structure ScanAt (s : BTreeIndex) (entries : List RIDKeyPair) (high : Int) (highOp : Operator)
    (pageNo : Nat) (next : Option Nat) : Prop extends LeafRoot s entries where
  executing : s.scanExecuting = true
  highVal : s.highValInt = high
  highOp : s.highOp = highOp
  current : s.currentPageNum = some pageNo
  next : s.nextEntry = next

theorem validOp_all (op : Operator) : validOp op := by
  cases op <;> decide

/-- The index after the checks of `startScan`. -/
def begun (s : BTreeIndex) (low : Int) (lowOp : Operator) (high : Int) (highOp : Operator) : BTreeIndex :=
  { s with
    scanExecuting := true
    lowOp := lowOp
    highOp := highOp
    lowValInt := low
    highValInt := high
    pins := headerPageNum :: s.pins }

/-- `startScan` where no scan is open. -/
theorem startScan_closed (hclosed : s.scanExecuting = false) (fuel : Nat) (low : Int) (lowOp : Operator)
    (high : Int) (highOp : Operator) : startScan fuel low lowOp high highOp s =
      if low > high then
        (.error (.throw .badScanrange), { s.begun low lowOp high highOp with scanExecuting := false })
      else beginScan fuel (IndexMetaInfo.isRootLeafPage (s.pages headerPageNum))
        (s.begun low lowOp high highOp) := by
  rw [startScan, bind_of_ok (get_apply s), if_neg (by simp [hclosed]), bind_of_ok (modify_apply _ _),
    if_neg (by simp [validOp_all]), bind_of_ok (readPage_apply _ _), bind_of_ok (modify_apply _ _)]
  -- The scan is marked as executing before the range is looked at, and unmarked before the exception.
  split
  · rw [bind_of_ok (modify_apply _ _), throw_apply]
    rfl
  · rfl

/-- A scan that is open is left as it is. -/
theorem startScan_open (hexec : s.scanExecuting = true) (fuel : Nat) (low : Int) (lowOp : Operator)
    (high : Int) (highOp : Operator) : startScan fuel low lowOp high highOp s = (.ok (), s) := by
  rw [startScan, bind_of_ok (get_apply s), if_pos hexec, pure_apply]

theorem beginScan_leaf (fuel : Nat) (s : BTreeIndex) : beginScan fuel true s = seekInLeaf s.rootPageNum s := by
  rw [beginScan, bind_of_ok (get_apply s), if_neg Bool.noConfusion]

/-- A scan begins, where the root is a leaf. -/
theorem beginScan_apply (h : LeafRoot s entries) (fuel : Nat) : beginScan fuel true s = (.ok (), { s with
    currentPageNum := some 2
    nextEntry := startIndex s.lowValInt s.lowOp entries 0 s.nextEntry }) := by
  rw [beginScan_leaf]
  exact (congrFun (congrArg seekInLeaf h.root) s).trans (seekInLeaf_apply h.holds)

/-- `startScan` where no scan is open and the root is a leaf. -/
theorem startScan_leaf (h : LeafRoot s entries) (hclosed : s.scanExecuting = false) (fuel : Nat)
    {low high : Int} (lowOp highOp : Operator) (hle : low ≤ high) :
    startScan fuel low lowOp high highOp s = (.ok (), { s.begun low lowOp high highOp with
      currentPageNum := some 2
      nextEntry := startIndex low lowOp entries 0 s.nextEntry }) := by
  have hroot : LeafRoot (s.begun low lowOp high highOp) entries :=
    ⟨h.root, h.isLeaf, h.holds, h.sibling, h.unwritten⟩
  rw [startScan_closed hclosed, if_neg (by omega), h.isLeaf]
  exact beginScan_apply hroot fuel

theorem startScan_ok (h : LeafRoot s entries) (hidle : Idle s) (fuel : Nat) {low high : Int}
    (lowOp highOp : Operator) (hle : low ≤ high) :
    ∃ t, startScan fuel low lowOp high highOp s = (.ok (), t) ∧
      ScanAt t entries high highOp 2 (startIndex low lowOp entries 0 none) := by
  refine ⟨_, startScan_leaf h hidle.scanExecuting fuel lowOp highOp hle, ?_⟩
  rw [hidle.nextEntry]
  exact ⟨⟨h.root, h.isLeaf, h.holds, h.sibling, h.unwritten⟩, rfl, rfl, rfl, rfl, rfl⟩

/-! ## What `scanNext` does

A leaf is found first (`nextLeaf`): the one that the scan is on, or, when that is used up, its right sibling. Then
one entry is looked at. Every way `scanNext` can end is in `reply`.
-/

section ScanNext

variable {t : BTreeIndex} {high : Int} {highOp : Operator} {pageNo next : Nat}

/-- What `scanNext` makes of an entry of a leaf. -/
def reply (leaf : Words) (next : Nat) (high : Int) (highOp : Operator) (outRid : RecordId) :
    Except (Exit IndexExn) RecordId :=
  if (next : Int) < leaf.validEntryNum then
    if next < intArrayLeafSize then
      if Stops high highOp (LeafNodeInt.key leaf next) then .error (.throw .indexScanCompleted)
      else .ok (LeafNodeInt.rid leaf next)
    else .error .undefined
  else .ok outRid

/-- Where the scan is then: it goes on if an entry was returned. -/
def advanced (leaf : Words) (next : Nat) (high : Int) (highOp : Operator) (nextEntry : Option Nat) : Option Nat :=
  if (next : Int) < leaf.validEntryNum ∧ next < intArrayLeafSize ∧ ¬ Stops high highOp (LeafNodeInt.key leaf next)
  then some (next + 1) else nextEntry

theorem advanced_of_reply {leaf : Words} {next : Nat} {high : Int} {highOp : Operator} (nextEntry : Option Nat)
    (hlt : (next : Int) < leaf.validEntryNum) (hin : next < intArrayLeafSize)
    (hgo : ¬ Stops high highOp (LeafNodeInt.key leaf next)) :
    advanced leaf next high highOp nextEntry = some (next + 1) :=
  if_pos ⟨hlt, hin, hgo⟩

theorem advanced_of_not {leaf : Words} {next : Nat} {high : Int} {highOp : Operator} (nextEntry : Option Nat)
    (h : (next : Int) < leaf.validEntryNum → next < intArrayLeafSize →
      Stops high highOp (LeafNodeInt.key leaf next)) :
    advanced leaf next high highOp nextEntry = nextEntry :=
  if_neg fun hall => hall.2.2 (h hall.1 hall.2.1)

/-- The end of `scanNext`. -/
theorem scanNext_of_nextLeaf_ok {pageNo next : Nat} {leaf : Words} {pins : List Nat} (outRid : RecordId)
    (hexec : s.scanExecuting = true)
    (hleaf : nextLeaf s = (.ok (pageNo, leaf, next), { t with pins := pageNo :: pins })) :
    ∃ pins', (pins' = pins ∨ pins' = pageNo :: pins) ∧
      scanNext outRid s = (reply leaf next s.highValInt s.highOp outRid, { t with
        pins := pins'
        nextEntry := advanced leaf next s.highValInt s.highOp t.nextEntry }) := by
  have hunpin : unPinPage pageNo false { t with pins := pageNo :: pins } = (.ok (), { t with pins := pins }) :=
    unPinPage_head _ false rfl
  rw [scanNext, bind_of_ok (get_apply s), if_neg (by simp [hexec]), bind_of_ok hleaf]
  dsimp only
  -- The index is below the number of entries the leaf says it has, which may be more than there is room for.
  by_cases hlt : (next : Int) < leaf.validEntryNum
  · rw [if_pos hlt, reply, if_pos hlt]
    by_cases hin : next < intArrayLeafSize
    · rw [bind_of_ok (inArray_ok (by omega) (by omega)), Int.toNat_natCast, if_pos hin]
      by_cases hstop : Stops s.highValInt s.highOp (LeafNodeInt.key leaf next)
      · refine ⟨pins, Or.inl rfl, ?_⟩
        rw [advanced_of_not _ fun _ _ => hstop, if_pos hstop]
        -- Both tests for the end of the range unpin the page.
        rcases hstop with heq | hgt
        · rw [if_pos heq, bind_of_ok hunpin, throw_apply]
        · split
          · rw [bind_of_ok hunpin, throw_apply]
          · rw [bind_of_ok hunpin, throw_apply]
      · refine ⟨pageNo :: pins, Or.inr rfl, ?_⟩
        rw [advanced_of_reply _ hlt hin hstop, if_neg hstop, if_neg fun h => hstop (Or.inl h),
          if_neg fun h => hstop (Or.inr h), bind_of_ok (modify_apply _ _), pure_apply]
    · refine ⟨pageNo :: pins, Or.inr rfl, ?_⟩
      rw [advanced_of_not _ fun _ h => absurd h hin, bind_of_error (inArray_undefined (by omega)), if_neg hin]
  · refine ⟨pageNo :: pins, Or.inr rfl, ?_⟩
    rw [advanced_of_not _ fun h => absurd h hlt, reply, if_neg hlt, if_neg hlt, pure_apply]

/-- The leaf that `scanNext` takes its entry from, of a scan that is on page `p`. -/
theorem nextLeaf_apply {p next : Nat} (hcurrent : s.currentPageNum = some p) (hnext : s.nextEntry = some next) :
    ((next : Int) < (s.pages p).validEntryNum →
      nextLeaf s = (.ok (p, s.pages p, next), { s with pins := p :: s.pins })) ∧
    (¬ (next : Int) < (s.pages p).validEntryNum →
      nextLeaf s = (.ok (s.rightSib p, s.pages (s.rightSib p), 0), { s with
        currentPageNum := some (s.rightSib p)
        nextEntry := some 0
        pins := s.rightSib p :: s.pins })) := by
  have hstart : nextLeaf s = (do
      if (next : Int) ≥ (s.pages p).validEntryNum then do
        let rightSib := LeafNodeInt.rightSibPageNo (s.pages p)
        unPinPage p false
        modify fun s => { s with currentPageNum := some rightSib }
        let leafNode ← readPage rightSib
        modify fun s => { s with nextEntry := some 0 }
        pure (rightSib, leafNode, 0)
      else pure (p, s.pages p, next) : Call (Nat × Words × Nat)) { s with pins := p :: s.pins } := by
    rw [nextLeaf, bind_of_ok (get_apply s), hcurrent, bind_of_ok (member_some _ s),
      bind_of_ok (readPage_apply _ s)]
    dsimp only
    rw [hnext, bind_of_ok (member_some _ _), hcurrent]
  rw [hstart]
  constructor
  · intro hlt
    rw [if_neg (by omega), pure_apply]
  · intro hge
    rw [if_pos (by omega), bind_of_ok (unPinPage_head s.pins false rfl), bind_of_ok (modify_apply _ _),
      bind_of_ok (readPage_apply _ _), bind_of_ok (modify_apply _ _), pure_apply]
    rfl

/-- The page of the entry that is next, and its index there. -/
def position (s : BTreeIndex) (p next : Nat) : Nat × Nat :=
  if (next : Int) < (s.pages p).validEntryNum then (p, next) else (s.rightSib p, 0)

/-- What `scanNext` returns, and what it makes of the scan, depends on the members for it. -/
theorem scanNext_open {p next : Nat} (outRid : RecordId) (hexec : s.scanExecuting = true)
    (hcurrent : s.currentPageNum = some p) (hnext : s.nextEntry = some next) :
    ∃ pins, (pins = s.pins ∨ pins = (s.position p next).1 :: s.pins) ∧ scanNext outRid s =
      (reply (s.pages (s.position p next).1) (s.position p next).2 s.highValInt s.highOp outRid, { s with
        pins := pins
        currentPageNum := some (s.position p next).1
        nextEntry := advanced (s.pages (s.position p next).1) (s.position p next).2 s.highValInt s.highOp
          (some (s.position p next).2) }) := by
  obtain ⟨hsame, hright⟩ := nextLeaf_apply hcurrent hnext
  -- The entry is on this page, or it is the first of the next.
  by_cases hlt : (next : Int) < (s.pages p).validEntryNum
  · obtain ⟨pins, hpins, hrun⟩ := scanNext_of_nextLeaf_ok (t := s) outRid hexec (hsame hlt)
    rw [position, if_pos hlt]
    exact ⟨pins, hpins, by rw [hrun, hcurrent, hnext]⟩
  · obtain ⟨pins, hpins, hrun⟩ := scanNext_of_nextLeaf_ok (t := { s with
      currentPageNum := some (s.rightSib p)
      nextEntry := some 0 }) outRid hexec (hright hlt)
    rw [position, if_neg hlt]
    exact ⟨pins, hpins, hrun⟩

/-- Without a place in a leaf it reads a member that was not set. -/
theorem scanNext_nowhere {p : Nat} (outRid : RecordId) (hexec : s.scanExecuting = true)
    (hcurrent : s.currentPageNum = some p) (hnext : s.nextEntry = none) :
    scanNext outRid s = (.error .undefined, { s with pins := p :: s.pins }) := by
  have hleaf : nextLeaf s = (.error .undefined, { s with pins := p :: s.pins }) := by
    rw [nextLeaf, bind_of_ok (get_apply s), hcurrent, bind_of_ok (member_some _ s),
      bind_of_ok (readPage_apply _ s)]
    dsimp only
    rw [hnext, hcurrent]
    rfl
  rw [scanNext, bind_of_ok (get_apply s), if_neg (by simp [hexec]), bind_of_error hleaf]

theorem scanNext_noPage (outRid : RecordId) (hexec : s.scanExecuting = true) (hcurrent : s.currentPageNum = none) :
    scanNext outRid s = (.error .undefined, s) := by
  have hleaf : nextLeaf s = (.error .undefined, s) := by
    rw [nextLeaf, bind_of_ok (get_apply s), hcurrent]
    rfl
  rw [scanNext, bind_of_ok (get_apply s), if_neg (by simp [hexec]), bind_of_error hleaf]

theorem scanNext_closed (outRid : RecordId) (hclosed : s.scanExecuting = false) :
    scanNext outRid s = (.error (.throw .scanNotInitialized), s) := by
  rw [scanNext, bind_of_ok (get_apply s), if_pos hclosed, throw_apply]

/-! ## What `endScan` does

`endScan` unpins the page that the scan is on, and throws if it is not pinned.
-/

theorem endScan_closed (hclosed : s.scanExecuting = false) :
    endScan s = (.error (.throw .scanNotInitialized), s) := by
  rw [endScan, bind_of_ok (get_apply s), if_pos hclosed, throw_apply]

theorem endScan_open {p : Nat} (hexec : s.scanExecuting = true) (hcurrent : s.currentPageNum = some p) :
    endScan s = if p ∈ s.pins then (.ok (), { s with pins := s.pins.erase p, scanExecuting := false })
      else (.error (.throw (.pageNotPinned p)), s) := by
  rw [endScan, bind_of_ok (get_apply s), if_neg (by simp [hexec]), hcurrent, bind_of_ok (member_some p s),
    bind_apply, unPinPage, bind_of_ok (get_apply s)]
  -- The page is pinned, or the pool throws.
  by_cases hmem : p ∈ s.pins
  · simp [hmem, hcurrent]
  · simp [hmem]

/-! ## A scan of an index whose root is a leaf

The leaf has no right sibling, and its field for one is `0`. Page `0` is read like a new page: its first word, the
number of entries to a leaf, is large, and the others are zeros.
-/

/-- A scan that is at an entry of its page. -/
theorem scanNext_entry (outRid : RecordId) (h : ScanAt s entries high highOp pageNo (some next))
    (hnext : (next : Int) < (s.pages pageNo).validEntryNum) (hin : next < intArrayLeafSize) :
    (Stops high highOp (LeafNodeInt.key (s.pages pageNo) next) →
      ∃ u, scanNext outRid s = (.error (.throw .indexScanCompleted), u)) ∧
    (¬ Stops high highOp (LeafNodeInt.key (s.pages pageNo) next) →
      ∃ u, scanNext outRid s = (.ok (LeafNodeInt.rid (s.pages pageNo) next), u) ∧
        ScanAt u entries high highOp pageNo (some (next + 1))) := by
  obtain ⟨pins, -, hrun⟩ := scanNext_open outRid h.executing h.current h.next
  rw [position, if_pos hnext, h.highVal, h.highOp] at hrun
  dsimp only at hrun
  constructor
  · intro hstop
    rw [reply, if_pos hnext, if_pos hin, if_pos hstop] at hrun
    exact ⟨_, hrun⟩
  · intro hgo
    rw [reply, if_pos hnext, if_pos hin, if_neg hgo, advanced_of_reply _ hnext hin hgo] at hrun
    exact ⟨_, hrun, ⟨⟨h.root, h.isLeaf, h.holds, h.sibling, h.unwritten⟩, h.executing, rfl, rfl, rfl, rfl⟩⟩

/-- A scan that is past the last entry goes on to page `0`, whose first key is `0`. -/
theorem scanNext_end (outRid : RecordId) (h : ScanAt s entries high highOp 2 (some entries.length)) :
    (Stops high highOp 0 → ∃ u, scanNext outRid s = (.error (.throw .indexScanCompleted), u)) ∧
    (¬ Stops high highOp 0 → ∃ r u, scanNext outRid s = (.ok r, u) ∧
      ScanAt u entries high highOp 0 (some 1)) := by
  obtain ⟨pins, -, hrun⟩ := scanNext_open outRid h.executing h.current h.next
  have hpast : ¬ ((entries.length : Nat) : Int) < (s.pages 2).validEntryNum :=
    Int.not_lt.mpr (Int.le_of_eq h.holds.count)
  rw [position, if_neg hpast, rightSib, h.sibling, h.highVal, h.highOp, h.unwritten] at hrun
  dsimp only at hrun
  -- As a leaf, page `0` has entries, and the first of them has key `0`.
  have hlt : ((0 : Nat) : Int) < Words.fresh.validEntryNum := by decide
  have hin : 0 < intArrayLeafSize := by decide
  have hkey : LeafNodeInt.key Words.fresh 0 = 0 := rfl
  constructor
  · intro hstop
    rw [reply, if_pos hlt, if_pos hin, hkey, if_pos hstop] at hrun
    exact ⟨_, hrun⟩
  · intro hgo
    rw [reply, if_pos hlt, if_pos hin, hkey, if_neg hgo, advanced_of_reply _ hlt hin hgo] at hrun
    exact ⟨_, _, hrun, ⟨⟨h.root, h.isLeaf, h.holds, h.sibling, h.unwritten⟩, h.executing, rfl, rfl, rfl, rfl⟩⟩

/-- Page `0` has more entries than there is room for. -/
theorem scanNext_full (outRid : RecordId) (h : ScanAt s entries high highOp 0 (some next))
    (hfull : next = intArrayLeafSize) : ∃ u, scanNext outRid s = (.error .undefined, u) := by
  obtain ⟨pins, -, hrun⟩ := scanNext_open outRid h.executing h.current h.next
  have hnext : (next : Int) < (s.pages 0).validEntryNum := by
    rw [h.unwritten, hfull]
    decide
  rw [position, if_pos hnext, reply, if_pos hnext, if_neg (Nat.not_lt.mpr (Nat.le_of_eq hfull.symm))] at hrun
  exact ⟨_, hrun⟩

/-- A scan without a place to start at. -/
theorem scanNext_unset (outRid : RecordId) (h : ScanAt s entries high highOp pageNo none) :
    ∃ u, scanNext outRid s = (.error .undefined, u) :=
  ⟨_, scanNext_nowhere outRid h.executing h.current h.next⟩

end ScanNext

end BTreeIndex
end CS640.Badger
