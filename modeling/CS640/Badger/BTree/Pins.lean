import CS640.Badger.BTree.Scan
import CS640.Badger.BTree.Split

/-!
# The pins of an index

An insertion, and a scan from `startScan` to `endScan`, should leave the pins as they were, and in between a
scan should have the current leaf pinned and nothing else. `startScan` never unpins the meta page, and
`lookForTargetLeaf` never unpins the page that it read last.

Main result: `disciplined_iff`. Only insertions into a root that is a leaf with room are disciplined.

The functions on the way down are long, and what they read does not matter here. So they are not followed step by
step: `Leads` composes what each step does to a number of pins. For insertions the number is the length of the list
of pins, and an insertion below the root adds one (`insertEntry_length`). For scans it is the number of pins of the
meta page, which never goes down (`startScan_pins`, `startScan_throws`).
-/

namespace CS640.Badger

open CS640.Lib Prog

/-- What a client uses an index for: an insertion, or a scan that takes at most `rounds` entries. -/
inductive Use where
  | insert (key : Int) (rid : RecordId)
  | scan (lowVal : Int) (lowOp : Operator) (highVal : Int) (highOp : Operator) (rounds : Nat)

namespace BTreeIndex

/-- Call `scanNext`, `rounds` times or until it says that the scan is completed. -/
def fetch : (rounds : Nat) → Call Unit
  | 0 => pure ()
  | rounds + 1 =>
    tryCatch
      (do
        let _rid ← scanNext ⟨0, 0⟩
        fetch rounds)
      fun
        | .indexScanCompleted => some (pure ())
        | _ => none

/-- A scan before its end. -/
def scanFor (fuel : Nat) (lowVal : Int) (lowOp : Operator) (highVal : Int) (highOp : Operator)
    (rounds : Nat) : Call Unit := do
  startScan fuel lowVal lowOp highVal highOp
  fetch rounds

/-- A scan. -/
def scanCycle (fuel : Nat) (lowVal : Int) (lowOp : Operator) (highVal : Int) (highOp : Operator)
    (rounds : Nat) : Call Unit := do
  scanFor fuel lowVal lowOp highVal highOp rounds
  endScan

/-- Each page has as many pins as before. -/
def SamePins (s t : BTreeIndex) : Prop := ∀ p, t.pins.count p = s.pins.count p

/-- Besides the pins that there were, the current leaf has one at most. -/
def OnePin (s t : BTreeIndex) : Prop :=
  ∀ p, t.pins.count p ≤ s.pins.count p + if t.currentPageNum = some p then 1 else 0

/-- A cycle is over: it has returned, and in it the current leaf was pinned at most; or `startScan` has
thrown, and not because a page had no pin. -/
def CycleEnds (fuel : Nat) (lowVal : Int) (lowOp : Operator) (highVal : Int) (highOp : Operator)
    (rounds : Nat) (s t : BTreeIndex) : Prop :=
  (scanCycle fuel lowVal lowOp highVal highOp rounds s = (.ok (), t) ∧
    ∀ k ≤ rounds, ∃ u, scanFor fuel lowVal lowOp highVal highOp k s = (.ok (), u) ∧ OnePin s u) ∨
  ∃ e, startScan fuel lowVal lowOp highVal highOp s = (.error (.throw e), t) ∧ ∀ p, e ≠ .pageNotPinned p

/-- Each insertion returns and each cycle is over with the pins as they were. -/
def Disciplined (fuel : Nat) : BTreeIndex → List Use → Prop
  | _, [] => True
  | s, .insert key rid :: uses =>
    ∃ t, insertEntry fuel key rid s = (.ok (), t) ∧ SamePins s t ∧ Disciplined fuel t uses
  | s, .scan lowVal lowOp highVal highOp rounds :: uses =>
    ∃ t, CycleEnds fuel lowVal lowOp highVal highOp rounds s t ∧ SamePins s t ∧ Disciplined fuel t uses

/-- An index between two uses: no scan is open, and the root is not the meta page. -/
structure Between (s : BTreeIndex) : Prop where
  closed : s.scanExecuting = false
  root : s.rootPageNum ≠ headerPageNum

/-- The root is a leaf with room for `n` more entries. -/
def RootHasRoom (s : BTreeIndex) (n : Nat) : Prop :=
  IndexMetaInfo.isRootLeafPage (s.pages headerPageNum) = true ∧
    0 ≤ (s.pages s.rootPageNum).validEntryNum ∧
    (s.pages s.rootPageNum).validEntryNum + n ≤ intArrayLeafSize

variable {s t : BTreeIndex} {key : Int} {rid : RecordId}

theorem SamePins.length_eq (h : SamePins s t) : t.pins.length = s.pins.length :=
  (List.perm_iff_count.mpr h).length_eq

/-! ## Insertion where the root is a leaf

Such an insertion reads and unpins the meta page and the root, and its only effect is the entry at the end of the
leaf, `withEntry`. It returns exactly where the leaf has room.
-/

/-- The index with one more entry at the end of its root, a leaf. -/
def withEntry (s : BTreeIndex) (e : RIDKeyPair) : BTreeIndex :=
  { s with pages := Function.update s.pages s.rootPageNum (LeafNodeInt.append (s.pages s.rootPageNum) e) }

theorem insertEntry_withEntry (h : RootHasRoom s 1) (fuel : Nat) (e : RIDKeyPair) :
    insertEntry fuel e.key e.rid s = (.ok (), s.withEntry e) := by
  obtain ⟨hleaf, hnonneg, hroom⟩ := h
  rw [insertEntry, (intKey fuel).insertEntry_rootLeaf e.key e.rid hleaf]
  exact insertLeafPage_apply hnonneg (by omega) e

/-- Without room, the entry is written outside the arrays, or the split begins to move entries from there. -/
theorem rootHasRoom_of_insertEntry {fuel : Nat}
    (hleaf : IndexMetaInfo.isRootLeafPage (s.pages headerPageNum) = true)
    (hrun : insertEntry fuel key rid s = (.ok (), t)) : RootHasRoom s 1 := by
  rw [insertEntry, (intKey fuel).insertEntry_rootLeaf key rid hleaf] at hrun
  -- three kinds of leaf: with room inside the array, with a count that is outside of it, and full
  by_cases hsize : (s.pages s.rootPageNum).validEntryNum < LeafFormat.int.ridArraySize
  · by_cases hin : 0 ≤ (s.pages s.rootPageNum).validEntryNum ∧
        (s.pages s.rootPageNum).validEntryNum < intArrayLeafSize
    · exact ⟨hleaf, hin.1, by omega⟩
    · have hundefined := LeafFormat.int.insertLeafPage_outside hsize hin key rid
      cases hundefined.symm.trans hrun
  · obtain ⟨u, hundefined⟩ := LeafFormat.int.insertLeafPage_split hsize key rid
    cases hundefined.symm.trans hrun

theorem pages_withEntry_meta (h : s.rootPageNum ≠ headerPageNum) (e : RIDKeyPair) :
    (s.withEntry e).pages headerPageNum = s.pages headerPageNum :=
  Function.update_of_ne h.symm _ _

theorem rootHasRoom_withEntry (hroot : s.rootPageNum ≠ headerPageNum) (e : RIDKeyPair) (n : Nat)
    (h : RootHasRoom s 1) : RootHasRoom (s.withEntry e) n ↔ RootHasRoom s (n + 1) := by
  have hcount : ((s.withEntry e).pages (s.withEntry e).rootPageNum).validEntryNum =
      (s.pages s.rootPageNum).validEntryNum + 1 := by
    simp [withEntry, LeafNodeInt.append, Words.validEntryNum, Words.setValidEntryNum]
  have hnonneg := h.2.1
  rw [RootHasRoom, RootHasRoom, pages_withEntry_meta hroot, hcount]
  constructor
  · rintro ⟨hleaf, -, hroom⟩
    exact ⟨hleaf, hnonneg, by omega⟩
  · rintro ⟨hleaf, -, hroom⟩
    exact ⟨hleaf, by omega, by omega⟩

/-! ## Insertion below a root that is no leaf

Only the number of pins is counted. Each step down reads a page and unpins one, but the last page that is read stays
pinned, whichever leaf it is and whatever becomes of the entry there.
-/

section Length

variable {n : Nat}

theorem readPage_length (pageNo : Nat) :
    Leads (fun s => s.pins.length = n) (fun s => s.pins.length = n + 1) (readPage pageNo) :=
  ⟨fun _ h => congrArg Nat.succ h⟩

theorem update_length (pageNo : Nat) (f : Words → Words) :
    Preserves (fun s => s.pins.length = n) (update pageNo f) := ⟨fun _ h => h⟩

theorem unPinPage_length (pageNo : Nat) (dirty : Bool) :
    Leads (fun s => s.pins.length = n + 1) (fun s => s.pins.length = n) (unPinPage pageNo dirty) := by
  constructor
  intro s hs
  rw [unPinPage, wp_bind, wp_get, wp_ite]
  refine ⟨fun hmem => ?_, fun _ => trivial⟩
  have herase := List.length_erase_of_mem hmem
  rw [hs, Nat.add_sub_cancel] at herase
  exact herase

end Length

/-- An insertion below a root that is no leaf leaves a pin. -/
theorem insertEntry_length {fuel : Nat}
    (hleaf : IndexMetaInfo.isRootLeafPage (s.pages headerPageNum) = false)
    (hrun : insertEntry fuel key rid s = (.ok (), t)) : t.pins.length = s.pins.length + 1 := by
  rw [insertEntry, (intKey fuel).insertEntry_below key rid hleaf] at hrun
  have hlength : Leads (fun s' => s'.pins.length = s.pins.length)
      (fun t' => t'.pins.length = s.pins.length + 1) (do
        let target ← lookForTargetLeaf key fuel s.rootPageNum
        insertLeafPage target key rid : Call Unit) :=
    ((lookForTargetLeaf_leads readPage_length unPinPage_length key fuel).1 _).bind fun target =>
      LeafFormat.int.insertLeafPage_leads (readPage_length _) (unPinPage_length _) (update_length _) key rid
  exact hlength.apply rfl hrun

/-! ## Scans

A scan pins the meta page when it starts, and again at each level on its way down, and unpins none of these. So
after `startScan` there is a pin besides that of the current leaf, which `seekInLeaf` has even unpinned.
-/

section Scans

variable {fuel : Nat} {low high : Int} {lowOp highOp : Operator}

theorem seek_current (leaf : Words) (low : Int) (lowOp : Operator) (pins : List Nat) (current : Option Nat)
    (rounds index : Nat) :
    Preserves (fun s => s.pins = pins ∧ s.currentPageNum = current) (seek leaf low lowOp rounds index) := by
  -- over the entries that are left to look at
  induction rounds generalizing index with
  | zero => exact .pure _ fun _ h => h
  | succ rounds ih =>
      refine (inArray_preserves _ _).bind fun i => .ite (fun _ => ?_) fun _ => ih _
      refine Leads.bind (J := fun s => s.pins = pins ∧ s.currentPageNum = current) (.modify fun _ h => h)
        fun _ => ?_
      exact .ite (fun _ => .pure _ fun _ h => h) fun _ => ih _

/-- The scan is set to a leaf, which is unpinned again. -/
theorem seekInLeaf_current (leaf : Nat) (pins : List Nat) :
    Leads (fun s => s.pins = pins) (fun s => s.pins = pins ∧ s.currentPageNum = some leaf)
      (seekInLeaf leaf) := by
  refine Leads.bind (J := fun s => s.pins = pins ∧ s.currentPageNum = some leaf) (.modify fun _ h => ⟨h, rfl⟩)
    fun _ => ?_
  refine Leads.bind (J := fun s => s.pins = leaf :: pins ∧ s.currentPageNum = some leaf)
    ⟨fun _ h => ⟨congrArg _ h.1, h.2⟩⟩ fun page => Leads.get.bind fun s => ?_
  refine (seek_current _ _ _ _ _ _ _).bind fun _ => ⟨fun s h => ?_⟩
  rw [wp_of_ok (unPinPage_head pins false h.1)]
  exact ⟨rfl, h.2⟩

/-- A page is read: it is pinned besides what was. -/
theorem readPage_pins (pageNo n : Nat) : Leads (fun s => n ≤ s.pins.count headerPageNum)
    (fun s => ∃ pins, s.pins = pageNo :: pins ∧ n ≤ pins.count headerPageNum) (readPage pageNo) :=
  ⟨fun s h => ⟨s.pins, rfl, h⟩⟩

theorem unPinPage_pins (pageNo n : Nat) (dirty : Bool) :
    Leads (fun s => ∃ pins, s.pins = pageNo :: pins ∧ n ≤ pins.count headerPageNum)
      (fun s => n ≤ s.pins.count headerPageNum) (unPinPage pageNo dirty) := by
  constructor
  rintro s ⟨pins, hpins, hcount⟩
  rw [wp_of_ok (unPinPage_head pins dirty hpins)]
  exact hcount

/-- A scan pins the meta page again on its way down, and does not unpin it. -/
theorem lookForNonLeafAboveLeaf_pins (key target : Int) (fuel : Nat) :
    ∀ root n, Leads (fun s => n ≤ s.pins.count headerPageNum) (fun s => n + 1 ≤ s.pins.count headerPageNum)
      (lookForNonLeafAboveLeaf key target fuel root) := by
  -- over the pages on the way down; the meta page is read anew at each
  induction fuel with
  | zero => exact fun _ _ => .exit _
  | succ fuel ih =>
      intro root n
      refine Leads.bind (J := fun s => n + 1 ≤ s.pins.count headerPageNum) ⟨fun s h => ?_⟩ fun metapage => ?_
      · rw [wp_of_ok (readPage_apply _ s), List.count_cons_self]
        exact Nat.succ_le_succ h
      refine .ite (fun _ => .pure _ fun _ h => h) fun _ => ?_
      refine (readPage_pins root (n + 1)).bind fun rootPage => .ite (fun _ => ?_) fun _ => .pure _ ?_
      · refine (keysUpTo_preserves _ _ _ _).bind fun _ => (child_preserves _ _).bind fun next =>
          (unPinPage_pins _ _ _).bind fun _ => ?_
        -- each step further down leaves one more
        exact .ite (fun _ => .pure _ fun _ h => h) fun _ =>
          (ih next (n + 1)).weaken fun _ h => Nat.le_of_succ_le h
      · rintro s ⟨pins, hpins, hcount⟩
        rw [hpins]
        exact Nat.le_trans hcount List.count_le_count_cons

theorem leafIndex_preserves {I : BTreeIndex → Prop} (page : Words) (low : Int) (lowOp : Operator)
    (rounds index : Nat) : Preserves I (leafIndex page low lowOp rounds index) := by
  induction rounds generalizing index with
  | zero => exact .pure _ fun _ h => h
  | succ rounds ih =>
      refine .ite (fun _ => ?_) fun _ => ih _
      exact (inArray_preserves _ _).bind fun _ => .ite (fun _ => .pure _ fun _ h => h) fun _ => ih _

theorem beginScan_pins (fuel n : Nat) : Leads (fun s => n ≤ s.pins.count headerPageNum)
    (fun s => n + 1 ≤ s.pins.count headerPageNum) (beginScan fuel false) := by
  refine Leads.get.bind fun s => .ite (fun _ => ?_) fun h => absurd rfl h
  refine (lookForNonLeafAboveLeaf_pins _ _ _ _ n).bind fun target => (readPage_pins _ _).bind fun page =>
    (leafIndex_preserves _ _ _ _ _).bind fun index => .ite (fun _ => .throw _) fun _ => ?_
  refine (child_preserves _ _).bind fun leaf => (unPinPage_pins _ _ _).bind fun _ => ⟨fun t ht => ?_⟩
  exact wp_mono ((seekInLeaf_current leaf t.pins).wp t rfl) (fun _ u hu => hu.1 ▸ ht) fun _ _ _ => trivial

/-- A scan that is started has a pin on the meta page. -/
theorem startScan_pins (h : Between s) (hrun : startScan fuel low lowOp high highOp s = (.ok (), t)) :
    ¬ OnePin s t := by
  intro hone
  have hmeta := hone headerPageNum
  rw [startScan_closed h.closed] at hrun
  split at hrun
  · cases hrun
  -- a root that is a leaf is scanned at once, another one after a way down
  cases hleaf : IndexMetaInfo.isRootLeafPage (s.pages headerPageNum) with
  | true =>
      rw [hleaf, beginScan_leaf] at hrun
      obtain ⟨hpins, hcurrent⟩ := (seekInLeaf_current _ (headerPageNum :: s.pins)).apply rfl hrun
      have hroot : (s.begun low lowOp high highOp).rootPageNum ≠ headerPageNum := h.root
      rw [hpins, hcurrent, List.count_cons_self, if_neg fun heq => hroot (Option.some.inj heq)] at hmeta
      omega
  | false =>
      -- there the way down has left one more
      rw [hleaf] at hrun
      have hcount := (beginScan_pins fuel (s.pins.count headerPageNum + 1)).apply
        (by exact Nat.le_of_eq List.count_cons_self.symm) hrun
      split at hmeta <;> omega

/-! ## Scans that throw

A scan that throws may have stopped anywhere. Either a page had no pin when it was to be unpinned, which no cycle
may end with, or `NoSuchKeyFoundException` is thrown where the meta page is pinned once more.
-/

/-- The exception of a page that has no pin. -/
def NotPinned (e : IndexExn) : Prop := ∃ p, e = .pageNotPinned p

theorem get_throws : Throws NotPinned (Prog.get : Prog IndexExn BTreeIndex BTreeIndex) := fun _ => trivial

theorem modify_throws (f : BTreeIndex → BTreeIndex) : Throws NotPinned (modify f : Call Unit) :=
  fun _ => trivial

theorem undefined_throws {α : Type} : Throws NotPinned (exit .undefined : Call α) := fun _ => trivial

theorem diverge_throws {α : Type} : Throws NotPinned (exit .diverge : Call α) := fun _ => trivial

theorem readPage_throws (pageNo : Nat) : Throws NotPinned (readPage pageNo) := fun _ => trivial

section Irreducible

-- the calls below are compared by their rules, not by what they do to a state
attribute [local irreducible] Throws wp

theorem inArray_throws (size : Nat) (i : Int) : Throws NotPinned (inArray size i) :=
  .ite (fun _ => .pure _) fun _ => undefined_throws

theorem child_throws (page : Words) (index : Nat) : Throws NotPinned (child page index) :=
  (inArray_throws _ _).bind fun _ => .pure _

theorem unPinPage_throws (pageNo : Nat) (dirty : Bool) : Throws NotPinned (unPinPage pageNo dirty) :=
  get_throws.bind fun _ => .ite (fun _ => modify_throws _) fun _ => .throw ⟨pageNo, rfl⟩

theorem keysUpTo_throws (page : Words) (key : Int) (rounds index : Nat) :
    Throws NotPinned (keysUpTo page key rounds index) := by
  induction rounds generalizing index with
  -- no key of the node is above `key`
  | zero => exact .pure index
  | succ rounds ih => exact (inArray_throws _ _).bind fun _ => .ite (fun _ => ih _) fun _ => .pure _

theorem leafIndex_throws (page : Words) (low : Int) (lowOp : Operator) (rounds index : Nat) :
    Throws NotPinned (leafIndex page low lowOp rounds index) := by
  induction rounds generalizing index with
  | zero => exact .pure index
  | succ rounds ih =>
      refine .ite (fun _ => ?_) fun _ => ih _
      exact (inArray_throws _ _).bind fun _ => .ite (fun _ => .pure _) fun _ => ih _

theorem seekInLeaf_throws (leaf : Nat) : Throws NotPinned (seekInLeaf leaf) := by
  have hseek : ∀ page low lowOp rounds index, Throws NotPinned (seek page low lowOp rounds index) := by
    intro page low lowOp rounds
    induction rounds with
    | zero => exact fun _ => .pure _
    | succ rounds ih =>
        intro index
        refine (inArray_throws _ _).bind fun _ => .ite (fun _ => ?_) fun _ => ih _
        exact (modify_throws _).bind fun _ => .ite (fun _ => .pure _) fun _ => ih _
  exact (modify_throws _).bind fun _ => (readPage_throws _).bind fun _ => get_throws.bind fun _ =>
    (hseek _ _ _ _ _).bind fun _ => unPinPage_throws _ _

theorem lookForNonLeafAboveLeaf_throws (key target : Int) (fuel : Nat) :
    ∀ root, Throws NotPinned (lookForNonLeafAboveLeaf key target fuel root) := by
  induction fuel with
  | zero => exact fun _ => diverge_throws
  | succ fuel ih =>
      intro root
      refine (readPage_throws _).bind fun _ => .ite (fun _ => .pure _) fun _ => (readPage_throws _).bind
        fun _ => .ite (fun _ => ?_) fun _ => .pure _
      refine (keysUpTo_throws _ _ _ _).bind fun _ => (child_throws _ _).bind fun next =>
        (unPinPage_throws _ _).bind fun _ => ?_
      exact .ite (fun _ => .pure _) fun _ => ih next

/-- What a scan of a tree does after the way down, besides throwing that there is no place to start at. -/
theorem childScan_throws (page : Words) (index target : Nat) : Throws NotPinned (do
    let leaf ← child page index
    unPinPage target false
    seekInLeaf leaf : Call Unit) :=
  (child_throws _ _).bind fun _ => (unPinPage_throws _ _).bind fun _ => seekInLeaf_throws _

/-- Where there is no place to start at, the meta page and the node above are still pinned. -/
theorem beginScan_throws (fuel : Nat) {n : Nat} (hcount : n ≤ s.pins.count headerPageNum) :
    wp (beginScan fuel false) (fun _ _ => True)
      (onThrow fun e t => NotPinned e ∨ n ≤ t.pins.count headerPageNum) s := by
  rw [beginScan, wp_bind, wp_get, if_pos rfl, wp_bind]
  refine wp_mono (wp_and ((lookForNonLeafAboveLeaf_pins _ _ fuel _ n).wp s hcount)
    ((lookForNonLeafAboveLeaf_throws _ _ fuel _).apply s)) ?_ fun _ _ he => onThrow_mono he.2 fun _ => Or.inl
  rintro target t ⟨ht, -⟩
  rw [wp_bind, wp_of_ok (readPage_apply target t), wp_bind]
  generalize hpage : t.pages target = page
  refine wp_mono (wp_and ((leafIndex_preserves (I := fun u => n ≤ u.pins.count headerPageNum) _ _ _ _ _).wp _
    (by exact Nat.le_trans (Nat.le_of_succ_le ht) List.count_le_count_cons)) ((leafIndex_throws _ _ _ _ _).apply _))
    ?_ fun _ _ he => onThrow_mono he.2 fun _ => Or.inl
  rintro index u ⟨hu, -⟩
  rw [wp_ite, wp_throw]
  -- there is no place to start at: the count has not gone down since the way down
  refine ⟨fun _ => Or.inr hu, fun _ => ?_⟩
  have hthrows := (childScan_throws page index target).apply u
  exact wp_mono hthrows (fun _ _ _ => trivial) fun _ _ he => onThrow_mono he fun _ => Or.inl

end Irreducible

theorem startScan_throws {e : IndexExn} (h : Between s)
    (hrun : startScan fuel low lowOp high highOp s = (.error (.throw e), t)) (hexn : ¬ NotPinned e) :
    ¬ SamePins s t := by
  intro hsame
  have hmeta := hsame headerPageNum
  have hbegun : (s.begun low lowOp high highOp).pins.count headerPageNum = s.pins.count headerPageNum + 1 :=
    List.count_cons_self
  rw [startScan_closed h.closed] at hrun
  -- either the range is refused, and the meta page is pinned already by then
  split at hrun
  · cases hrun
    exact absurd (hmeta.symm.trans hbegun) (Nat.ne_of_lt (Nat.lt_succ_self _))
  cases hleaf : IndexMetaInfo.isRootLeafPage (s.pages headerPageNum) with
  | true =>
      rw [hleaf, beginScan_leaf] at hrun
      have hthrows := seekInLeaf_throws (s.begun low lowOp high highOp).rootPageNum
        (s.begun low lowOp high highOp)
      rw [wp_of_error hrun] at hthrows
      exact hexn hthrows
  | false =>
      rw [hleaf] at hrun
      have hthrows := beginScan_throws fuel (Nat.le_of_eq hbegun.symm)
      rw [wp_of_error hrun] at hthrows
      rcases hthrows with hpin | hcount
      · exact hexn hpin
      · omega

/-- No cycle leaves the pins as they were. -/
theorem not_samePins_of_cycleEnds {rounds : Nat} (h : Between s)
    (hends : CycleEnds fuel low lowOp high highOp rounds s t) : ¬ SamePins s t := by
  -- a cycle that returned has started its scan, in zero rounds of it
  rcases hends with ⟨-, hone⟩ | ⟨e, hrun, hexn⟩
  · obtain ⟨u, hrun, hu⟩ := hone 0 (Nat.zero_le rounds)
    have hstart : startScan fuel low lowOp high highOp s = (.ok (), u) := by
      rw [scanFor, bind_apply] at hrun
      split at hrun
      · next heq => rw [heq, ← hrun, fetch, pure_apply]
      · cases hrun
    exact absurd hu (startScan_pins h hstart)
  · exact startScan_throws h hrun fun ⟨p, hp⟩ => hexn p hp

end Scans

/-! ## Sequences of uses

The last uses of a sequence start where the first use has ended. Only insertions into the root end as they should,
so the state after the first use is known: it is `withEntry`.
-/

theorem between_withEntry (h : Between s) (e : RIDKeyPair) : Between (s.withEntry e) := ⟨h.closed, h.root⟩

/-- **The pins of an index.** A sequence of insertions and scans leaves the pins as they were after each of
them, if and only if there are only insertions, into a root that is a leaf with room for all of them. -/
theorem disciplined_iff (h : Between s) (fuel : Nat) (uses : List Use) :
    Disciplined fuel s uses ↔
      (∀ u ∈ uses, ∃ key rid, u = .insert key rid) ∧ (uses ≠ [] → RootHasRoom s uses.length) := by
  -- over the uses, from the index that the first one leaves
  induction uses generalizing s with
  | nil => simp [Disciplined]
  | cons u uses ih =>
      cases u with
      | scan lowVal lowOp highVal highOp rounds =>
          rw [Disciplined]
          constructor
          · -- a scan is never disciplined, so neither side holds
            rintro ⟨t, hends, hsame, -⟩
            exact absurd hsame (not_samePins_of_cycleEnds h hends)
          · rintro ⟨hinserts, -⟩
            obtain ⟨key, rid, heq⟩ := hinserts _ List.mem_cons_self
            cases heq
      | insert key rid =>
          have hrest := ih (between_withEntry h ⟨rid, key⟩)
          rw [Disciplined]
          constructor
          · rintro ⟨t, hrun, hsame, hdisciplined⟩
            cases hleaf : IndexMetaInfo.isRootLeafPage (s.pages headerPageNum) with
            | false =>
                -- the way down to a leaf has left a pin
                have hlength := insertEntry_length hleaf hrun
                rw [hsame.length_eq] at hlength
                omega
            | true =>
                have hroom := rootHasRoom_of_insertEntry hleaf hrun
                rw [insertEntry_withEntry hroom fuel ⟨rid, key⟩] at hrun
                cases hrun
                obtain ⟨hinserts, hrooms⟩ := hrest.mp hdisciplined
                refine ⟨by simpa using hinserts, fun _ => ?_⟩
                cases uses with
                | nil => exact hroom
                | cons u uses =>
                    exact (rootHasRoom_withEntry h.root _ _ hroom).mp (hrooms (List.cons_ne_nil u uses))
          · -- the root has room for all the entries, so for the first and then for the others
            rintro ⟨hinserts, hrooms⟩
            have hrooms := hrooms (List.cons_ne_nil _ _)
            have hroom : RootHasRoom s 1 := ⟨hrooms.1, hrooms.2.1, by
              have hle := hrooms.2.2
              rw [List.length_cons] at hle
              omega⟩
            refine ⟨s.withEntry ⟨rid, key⟩, insertEntry_withEntry hroom fuel ⟨rid, key⟩, fun _ => rfl, ?_⟩
            refine hrest.mpr ⟨fun u hu => hinserts u (List.mem_cons_of_mem _ hu), fun _ => ?_⟩
            exact (rootHasRoom_withEntry h.root _ _ hroom).mpr hrooms

/-- Two insertions into an index that was just created. -/
theorem disciplined_opened :
    Disciplined 0 (opened [114] 0) [.insert 5 ⟨1, 1⟩, .insert 3 ⟨1, 2⟩] :=
  (disciplined_iff ⟨rfl, by decide⟩ 0 _).mpr ⟨by simp, fun _ => ⟨by decide, by decide, by decide⟩⟩

/-- A scan of an index with one entry, up to its end: `endScan` throws `PageNotPinnedException`. -/
theorem scanCycle_notPinned :
    ¬ Disciplined 0 ((opened [114] 0).withEntry ⟨⟨1, 1⟩, -5⟩) [.scan (-5) .GTE (-1) .LTE 2] ∧
      (scanCycle 0 (-5) .GTE (-1) .LTE 2 ((opened [114] 0).withEntry ⟨⟨1, 1⟩, -5⟩)).1 =
        .error (.throw (.pageNotPinned 0)) := by
  constructor
  · rintro ⟨t, hends, hsame, -⟩
    exact not_samePins_of_cycleEnds (between_withEntry ⟨rfl, by decide⟩ _) hends hsame
  · rfl

end BTreeIndex
end CS640.Badger
