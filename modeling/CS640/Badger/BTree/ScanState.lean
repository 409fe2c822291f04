import CS640.Badger.BTree.Close

/-!
# The scans of an index as a state machine

Whether a scan is open, a client knows from what its calls have returned: `startScan` opens one, and `endScan`
or a `startScan` that throws leaves none open. What a scan returns depends on the members for it only
(`replies_sameScan`), so it obeys the bounds it was started with if `startScan` sets these as it does when there
has been no scan before.

Main result: `scansRight_iff`. A `startScan` that finds a scan open returns at once; it throws only for bounds in
the wrong order, and then the meta page keeps a pin; and where no key is up to the low bound, the position of the
scan before is kept.

A client is the index with one bit, whether it believes that a scan is open. `Right` says what each call should do
in terms of that bit alone, and `Meets` is the condition on the members before the call under which it does:

* `scanNext_sameScan` and `startScan_rested`: what a call returns is determined by the members for scans, and what
  they are after a `startScan` on an index at rest.
* `right_iff_meets`: one call, with one lemma for each of the three.
* `inv_after`: the bit stays the value of `scanExecuting`, so the two can be compared after any number of calls.
-/

namespace CS640.Badger

open CS640.Lib Prog

/-- The calls of a scan. -/
inductive ScanCall where
  | startScan (lowVal : Int) (lowOp : Operator) (highVal : Int) (highOp : Operator)
  | scanNext (outRid : RecordId)
  | endScan

namespace ScanCall

def op : ScanCall → IndexOp
  | startScan lowVal lowOp highVal highOp => .startScan lowVal lowOp highVal highOp
  | scanNext outRid => .scanNext outRid
  | endScan => .endScan

/-- Whether a scan is open after a call, by how the call has ended. -/
def opens (isOpen : Bool) : ScanCall → Except (Exit IndexExn) Unit → Bool
  | startScan .., .ok _ => true
  | startScan .., .error _ => false
  | scanNext _, _ => isOpen
  | endScan, .ok _ => false
  | endScan, .error _ => isOpen

end ScanCall

namespace BTreeIndex

/-- The entries of the root, a leaf. -/
def rootEntries (s : BTreeIndex) : List RIDKeyPair :=
  (List.range (s.pages s.rootPageNum).validEntryNum.toNat).map fun i =>
    ⟨LeafNodeInt.rid (s.pages s.rootPageNum) i, LeafNodeInt.key (s.pages s.rootPageNum) i⟩

/-- The index as if there had been no scan. -/
def rested (s : BTreeIndex) : BTreeIndex :=
  { s with scanExecuting := false, nextEntry := none, currentPageNum := none }

/-- The members for scans are the same. -/
structure SameScan (s t : BTreeIndex) : Prop where
  scanExecuting : s.scanExecuting = t.scanExecuting
  nextEntry : s.nextEntry = t.nextEntry
  currentPageNum : s.currentPageNum = t.currentPageNum
  lowValInt : s.lowValInt = t.lowValInt
  highValInt : s.highValInt = t.highValInt
  lowOp : s.lowOp = t.lowOp
  highOp : s.highOp = t.highOp

/-- The operators are those of a range, and there is an entry in it. -/
structure Findable (s : BTreeIndex) (low : Int) (lowOp : Operator) (high : Int) (highOp : Operator) :
    Prop where
  low_op : lowOp = .GT ∨ lowOp = .GTE
  high_op : highOp = .LT ∨ highOp = .LTE
  low_le : low ≤ high
  entry : ∃ e ∈ s.rootEntries, InRange low lowOp high highOp e.key

/-- The scan that is open has these bounds and is at its start. -/
structure AtStart (s : BTreeIndex) (low : Int) (lowOp : Operator) (high : Int) (highOp : Operator) :
    Prop where
  lowVal : s.lowValInt = low
  highVal : s.highValInt = high
  low_op : s.lowOp = lowOp
  high_op : s.highOp = highOp
  current : s.currentPageNum = some s.rootPageNum
  next : s.nextEntry = startIndex low lowOp s.rootEntries 0 none

/-- The scan is at an entry; below `validEntry_num` it is in the arrays. -/
def InLeaf (s : BTreeIndex) : Prop :=
  ∃ p next, s.currentPageNum = some p ∧ s.nextEntry = some next ∧
    ((next : Int) < (s.pages p).validEntryNum → next < intArrayLeafSize)

end BTreeIndex

/-! ## Clients

What a scan should be is stated for a client that sees how its calls end and nothing of the members. A call is right
if it opens, answers or ends the scan that the client has asked for.
-/

/-- An index, and what a client knows of its scan. -/
structure Client where
  isOpen : Bool
  index : BTreeIndex

/-- The call returns or throws, and throws `ScanNotInitializedException` just when no scan is open. -/
def Answers {α : Type} (isOpen : Bool) : Except (Exit IndexExn) α → Prop
  | .ok _ => isOpen = true
  | .error (.throw e) => e = .scanNotInitialized ↔ isOpen = false
  | .error _ => False

namespace Client

open BTreeIndex

/-- After a call. -/
def after (fuel : Nat) (c : Client) (k : ScanCall) : Client where
  isOpen := k.opens c.isOpen (call fuel k.op c.index).1
  index := (call fuel k.op c.index).2

/-- What a call should do: a `startScan` that has something to find opens a scan, whatever scan there was
before, and any other throws, and leaves no scan open and no page newly pinned. -/
def Right (fuel : Nat) (c : Client) : ScanCall → Prop
  | .startScan low lowOp high highOp =>
    (Findable c.index low lowOp high highOp → ∃ t u, startScan fuel low lowOp high highOp c.index = (.ok (), t) ∧
      startScan fuel low lowOp high highOp c.index.rested = (.ok (), u) ∧ SameScan u t) ∧
    (¬ Findable c.index low lowOp high highOp → ∃ e t,
      startScan fuel low lowOp high highOp c.index = (.error (.throw e), t) ∧ t.scanExecuting = false ∧
        ∀ p, t.pins.count p ≤ c.index.pins.count p)
  | .scanNext outRid => Answers c.isOpen (scanNext outRid c.index).1
  | .endScan => Answers c.isOpen (endScan c.index).1

/-- The condition under which a call does that. -/
def Meets (c : Client) : ScanCall → Prop
  | .startScan low lowOp high highOp =>
    Findable c.index low lowOp high highOp ∧
    (c.isOpen = false → c.index.nextEntry = none ∨ ∃ e ∈ c.index.rootEntries, e.key ≤ low) ∧
    (c.isOpen = true → AtStart c.index low lowOp high highOp)
  | .scanNext _ => c.isOpen = true → InLeaf c.index
  | .endScan => True

end Client

/-! ## What a scan depends on

`nextEntry`, `currentPageNum` and the bounds are all that a scan keeps between its calls. Two indices that agree on
them and on the pages answer alike, whatever was called before.
-/

namespace BTreeIndex

variable {s t : BTreeIndex}

/-- Two indices with the same pages and the same scan: `scanNext` does the same to both. -/
theorem scanNext_sameScan (h : SameScan s t) (hpages : s.pages = t.pages) (outRid : RecordId) :
    (scanNext outRid s).1 = (scanNext outRid t).1 ∧ SameScan (scanNext outRid s).2 (scanNext outRid t).2 ∧
      (scanNext outRid s).2.pages = (scanNext outRid t).2.pages := by
  cases hexec : s.scanExecuting with
  -- no scan is open, and both throw at once
  | false =>
      rw [scanNext_closed outRid hexec, scanNext_closed outRid (h.scanExecuting.symm.trans hexec)]
      exact ⟨rfl, h, hpages⟩
  | true =>
      have hexec' := h.scanExecuting.symm.trans hexec
      cases hcurrent : s.currentPageNum with
      -- a scan is open, but its leaf was never set
      | none =>
          rw [scanNext_noPage outRid hexec hcurrent,
            scanNext_noPage outRid hexec' (h.currentPageNum.symm.trans hcurrent)]
          exact ⟨rfl, h, hpages⟩
      | some p =>
          have hcurrent' := h.currentPageNum.symm.trans hcurrent
          cases hnext : s.nextEntry with
          -- its position was never set
          | none =>
              rw [scanNext_nowhere outRid hexec hcurrent hnext,
                scanNext_nowhere outRid hexec' hcurrent' (h.nextEntry.symm.trans hnext)]
              exact ⟨rfl, ⟨h.1, h.2, h.3, h.4, h.5, h.6, h.7⟩, hpages⟩
          -- it is at a position, which is looked up on pages that are the same
          | some next =>
              obtain ⟨pins, -, hs⟩ := scanNext_open outRid hexec hcurrent hnext
              obtain ⟨pins', -, ht⟩ := scanNext_open outRid hexec' hcurrent' (h.nextEntry.symm.trans hnext)
              have hposition : t.position p next = s.position p next := by
                rw [position, position, rightSib, rightSib, hpages]
              rw [hs, ht, hposition, hpages, h.highValInt, h.highOp]
              exact ⟨rfl, ⟨h.scanExecuting, rfl, rfl, h.lowValInt, rfl, h.lowOp, rfl⟩, rfl⟩

/-- How calls of `scanNext` end, one after another. -/
def replies : BTreeIndex → List RecordId → List (Except (Exit IndexExn) RecordId)
  | _, [] => []
  | s, outRid :: outRids => (scanNext outRid s).1 :: replies (scanNext outRid s).2 outRids

/-- So all that a scan will return is determined by its members and the pages. -/
theorem replies_sameScan (h : SameScan s t) (hpages : s.pages = t.pages) (outRids : List RecordId) :
    replies s outRids = replies t outRids := by
  induction outRids generalizing s t with
  | nil => rfl
  | cons outRid outRids ih =>
      obtain ⟨hreply, hsame, hpages'⟩ := scanNext_sameScan h hpages outRid
      rw [replies, replies, hreply, ih hsame hpages']

/-- An entry is answered, if it is in the arrays. -/
theorem answers_reply {leaf : Words} {next : Nat} {high : Int} {highOp : Operator} {outRid : RecordId} :
    Answers true (reply leaf next high highOp outRid) ↔
      ((next : Int) < leaf.validEntryNum → next < intArrayLeafSize) := by
  unfold reply
  split
  · next hlt =>
      split
      · -- an entry in the arrays: it is returned, or it ends the scan
        next hin =>
          have hanswers : Answers true (if Stops high highOp (LeafNodeInt.key leaf next) then
              .error (.throw .indexScanCompleted) else .ok (LeafNodeInt.rid leaf next) :
              Except (Exit IndexExn) RecordId) := by
            split <;> simp [Answers]
          exact iff_of_true hanswers fun _ => hin
      · -- `nextEntry` is below `validEntry_num` and outside the arrays, so reading it is undefined
        next hin => exact iff_of_false id fun h => hin (h hlt)
  · next hlt => exact iff_of_true rfl fun h => absurd h hlt

end BTreeIndex

namespace Client

open BTreeIndex

variable {c : Client} {fuel : Nat} {k : ScanCall}

/-! ## Every call

The invariant ties the bit of the client to the members. Under it each of the three calls is compared with what it
should do, and the comparison is exact: the condition is not only enough but needed.
-/

/-- The flag says what the client knows, and a scan that is open is in a leaf. -/
structure Inv (c : Client) : Prop where
  scanned : Scanned c.index
  executing : c.index.scanExecuting = c.isOpen
  current : c.isOpen = true → ∃ p, c.index.currentPageNum = some p

theorem rootEntries_eq {s : BTreeIndex} {entries : List RIDKeyPair} (h : LeafRoot s entries) :
    s.rootEntries = entries := by
  have hcount := h.holds.count
  rw [rootEntries, h.root, hcount, Int.toNat_natCast]
  apply List.ext_getElem
  · simp
  · intro i hi hlt
    simp [h.holds.key i hlt, h.holds.rid i hlt]

theorem answers_scanNext (h : Inv c) (outRid : RecordId) :
    Answers c.isOpen (scanNext outRid c.index).1 ↔ (c.isOpen = true → InLeaf c.index) := by
  cases hopen : c.isOpen with
  -- the client knows of no scan: the call throws `ScanNotInitializedException`
  | false =>
      rw [scanNext_closed outRid (h.executing.trans hopen)]
      simp [Answers]
  | true =>
      have hexec := h.executing.trans hopen
      obtain ⟨p, hcurrent⟩ := h.current hopen
      cases hnext : c.index.nextEntry with
      -- `nextEntry` was never set: reading it is undefined
      | none =>
          rw [scanNext_nowhere outRid hexec hcurrent hnext]
          simp [Answers, InLeaf, hnext]
      | some next =>
          obtain ⟨pins, -, hrun⟩ := scanNext_open outRid hexec hcurrent hnext
          have hinleaf : InLeaf c.index ↔
              ((next : Int) < (c.index.pages p).validEntryNum → next < intArrayLeafSize) := by
            simp [InLeaf, hcurrent, hnext]
          rw [hrun, answers_reply, hinleaf, position]
          -- in this leaf, or at the start of its right sibling, which has an entry 0
          split
          · simp
          · next hge => exact iff_of_true (fun _ => (by decide : 0 < intArrayLeafSize)) fun _ hlt => absurd hlt hge

/-- `endScan` unpins the current leaf, or throws that it has no pin. -/
theorem answers_endScan (h : Inv c) : Answers c.isOpen (endScan c.index).1 := by
  cases hopen : c.isOpen with
  | false =>
      rw [endScan_closed (h.executing.trans hopen)]
      simp [Answers]
  | true =>
      obtain ⟨p, hcurrent⟩ := h.current hopen
      rw [endScan_open (h.executing.trans hopen) hcurrent]
      split <;> simp [Answers]

section StartScan

variable {low high : Int} {lowOp highOp : Operator} {entries : List RIDKeyPair}

theorem rootEntries_congr {s t : BTreeIndex} (hpages : s.pages = t.pages) (hroot : s.rootPageNum = t.rootPageNum) :
    s.rootEntries = t.rootEntries := by
  rw [rootEntries, rootEntries, hpages, hroot]

/-- A scan that is at its start is the same as another on the same pages just if that is at its start. -/
theorem sameScan_iff_atStart {s t : BTreeIndex} (hs : AtStart s low lowOp high highOp)
    (hexec : s.scanExecuting = t.scanExecuting) (hpages : s.pages = t.pages)
    (hroot : s.rootPageNum = t.rootPageNum) : SameScan s t ↔ AtStart t low lowOp high highOp := by
  have hentries := rootEntries_congr hpages hroot
  constructor
  · intro h
    exact ⟨h.lowValInt.symm.trans hs.lowVal, h.highValInt.symm.trans hs.highVal, h.lowOp.symm.trans hs.low_op,
      h.highOp.symm.trans hs.high_op, hroot ▸ h.currentPageNum.symm.trans hs.current,
      hentries ▸ h.nextEntry.symm.trans hs.next⟩
  · intro ht
    refine ⟨hexec, ?_, ?_, hs.lowVal.trans ht.lowVal.symm, hs.highVal.trans ht.highVal.symm,
      hs.low_op.trans ht.low_op.symm, hs.high_op.trans ht.high_op.symm⟩
    · rw [hs.next, ht.next, hentries]
    · rw [hs.current, ht.current, hroot]

/-- What a scan starts with, where there has been none. -/
theorem startScan_rested (hroot : LeafRoot c.index entries) (fuel : Nat) (lowOp highOp : Operator)
    (hle : low ≤ high) :
    ∃ u, startScan fuel low lowOp high highOp c.index.rested = (.ok (), u) ∧ u.scanExecuting = true ∧
      u.pages = c.index.pages ∧ u.rootPageNum = c.index.rootPageNum ∧ AtStart u low lowOp high highOp := by
  have hrested : LeafRoot c.index.rested entries :=
    ⟨hroot.root, hroot.isLeaf, hroot.holds, hroot.sibling, hroot.unwritten⟩
  refine ⟨_, startScan_leaf hrested rfl fuel lowOp highOp hle, rfl, rfl, rfl, rfl, rfl, rfl, rfl, ?_, ?_⟩
  · exact congrArg some hroot.root.symm
  · exact congrArg (startIndex low lowOp · 0 none) (rootEntries_eq hroot).symm

/-- Where no scan is open, the scan is at its start if `nextEntry` was not set, or is set anew. -/
theorem startScan_fresh (hroot : LeafRoot c.index entries) (hclosed : c.index.scanExecuting = false) (fuel : Nat)
    (lowOp highOp : Operator) (hle : low ≤ high) :
    ∃ t, startScan fuel low lowOp high highOp c.index = (.ok (), t) ∧ t.scanExecuting = true ∧
      t.pages = c.index.pages ∧ t.rootPageNum = c.index.rootPageNum ∧ t.currentPageNum = some 2 ∧
      (AtStart t low lowOp high highOp ↔ c.index.nextEntry = none ∨ ∃ e ∈ c.index.rootEntries, e.key ≤ low) := by
  refine ⟨_, startScan_leaf hroot hclosed fuel lowOp highOp hle, rfl, rfl, rfl, rfl, ?_⟩
  -- the position is set anew just if a key is up to the low bound; otherwise the one before stays
  rw [rootEntries_eq hroot, ← startIndex_eq_none_iff 0 c.index.nextEntry]
  constructor
  · intro h
    have hnext : startIndex low lowOp entries 0 c.index.nextEntry =
        startIndex low lowOp c.index.rootEntries 0 none := h.next
    rwa [rootEntries_eq hroot] at hnext
  · intro h
    refine ⟨rfl, rfl, rfl, rfl, congrArg some hroot.root.symm, h.trans ?_⟩
    exact congrArg (startIndex low lowOp · 0 none) (rootEntries_eq hroot).symm

/-- Where there is nothing to find, it returns, or leaves a pin on the meta page. -/
theorem right_of_not_findable (h : Inv c) (hfind : ¬ Findable c.index low lowOp high highOp) :
    ¬ Right fuel c (.startScan low lowOp high highOp) := by
  rintro ⟨-, hthrows⟩
  obtain ⟨e, t, hrun, -, hpins⟩ := hthrows hfind
  cases hopen : c.isOpen with
  -- a scan is open, so the call returns, though there is nothing to find
  | true =>
      rw [startScan_open (h.executing.trans hopen)] at hrun
      cases hrun
  | false =>
      have hclosed := h.executing.trans hopen
      by_cases hle : low ≤ high
      · -- over a leaf it returns, whether or not a key is in the range
        obtain ⟨entries, hroot⟩ := h.scanned.root
        rw [startScan_leaf hroot hclosed fuel lowOp highOp hle] at hrun
        cases hrun
      · -- `badScanRange` comes after the meta page was read, which stays pinned
        rw [startScan_closed hclosed, if_pos (by omega)] at hrun
        cases hrun
        have hmeta : (headerPageNum :: c.index.pins).count headerPageNum ≤ c.index.pins.count headerPageNum :=
          hpins headerPageNum
        rw [List.count_cons_self] at hmeta
        omega

theorem right_startScan (h : Inv c) : Right fuel c (.startScan low lowOp high highOp) ↔
    Meets c (.startScan low lowOp high highOp) := by
  by_cases hfind : Findable c.index low lowOp high highOp
  · -- there is something to find: the question is whether the scan that results is at its start
    obtain ⟨entries, hroot⟩ := h.scanned.root
    obtain ⟨u, hrested, hexec, hpages, hpage, hstart⟩ := startScan_rested hroot fuel lowOp highOp hfind.low_le
    have hright : ∀ t, startScan fuel low lowOp high highOp c.index = (.ok (), t) → t.scanExecuting = true →
        t.pages = c.index.pages → t.rootPageNum = c.index.rootPageNum →
        (Right fuel c (.startScan low lowOp high highOp) ↔ AtStart t low lowOp high highOp) := by
      intro t hrun hexec' hpages' hpage'
      rw [← sameScan_iff_atStart hstart (hexec.trans hexec'.symm) (hpages.trans hpages'.symm)
        (hpage.trans hpage'.symm)]
      constructor
      · rintro ⟨hfound, -⟩
        obtain ⟨t', u', hrun', hrested', hsame⟩ := hfound hfind
        rw [hrun] at hrun'
        rw [hrested] at hrested'
        cases hrun'
        cases hrested'
        exact hsame
      · intro hsame
        exact ⟨fun _ => ⟨t, u, hrun, hrested, hsame⟩, fun hno => absurd hfind hno⟩
    cases hopen : c.isOpen with
    | true =>
        -- the call returns at once
        have hexec := h.executing.trans hopen
        rw [hright _ (startScan_open hexec fuel low lowOp high highOp) hexec rfl rfl]
        simp [Meets, hfind, hopen]
    | false =>
        obtain ⟨t, hrun, hexec', hpages', hpage', -, hiff⟩ :=
          startScan_fresh hroot (h.executing.trans hopen) fuel lowOp highOp hfind.low_le
        rw [hright t hrun hexec' hpages' hpage', hiff]
        simp [Meets, hfind, hopen]
  · -- there is nothing to find: the condition fails, and the call is not right either
    exact iff_of_false (right_of_not_findable h hfind) fun hmeets => hfind hmeets.1

end StartScan

/-- A call does what it should just if the condition is met. -/
theorem right_iff_meets (h : Inv c) (k : ScanCall) : Right fuel c k ↔ Meets c k := by
  cases k with
  | startScan low lowOp high highOp => exact right_startScan h
  | scanNext outRid => exact answers_scanNext h outRid
  | endScan => exact iff_of_true (answers_endScan h) trivial

/-! ## What a call keeps

The invariant is kept by every call that is right. A `startScan` without anything to find is none of them, so it
need not be followed here.
-/

theorem call_scanNext (s : BTreeIndex) (outRid : RecordId) :
    (call fuel (.scanNext outRid) s).2 = (scanNext outRid s).2 := by
  rw [call, bind_apply]
  split
  · next h => rw [h, pure_apply]
  · next h => rw [h]

/-- `scanNext` leaves a scan that is open so, and in a leaf. -/
theorem scanNext_current {s : BTreeIndex} {p : Nat} (outRid : RecordId) (hexec : s.scanExecuting = true)
    (hcurrent : s.currentPageNum = some p) :
    (scanNext outRid s).2.scanExecuting = true ∧ ∃ q, (scanNext outRid s).2.currentPageNum = some q := by
  cases hnext : s.nextEntry with
  | none =>
      rw [scanNext_nowhere outRid hexec hcurrent hnext]
      exact ⟨hexec, p, hcurrent⟩
  | some next =>
      obtain ⟨pins, -, hrun⟩ := scanNext_open outRid hexec hcurrent hnext
      rw [hrun]
      exact ⟨hexec, _, rfl⟩

/-- `endScan` closes the scan if it returns. -/
theorem inv_endScan (h : Inv c) : Inv (after fuel c .endScan) := by
  have hscanned : Scanned (call fuel .endScan c.index).2 := endScan_keeps.apply h.scanned
  suffices hboth : (call fuel .endScan c.index).2.scanExecuting = (after fuel c .endScan).isOpen ∧
      ((after fuel c .endScan).isOpen = true → ∃ p, (call fuel .endScan c.index).2.currentPageNum = some p) from
    ⟨hscanned, hboth.1, hboth.2⟩
  cases hopen : c.isOpen with
  | false =>
      have hclosed := h.executing.trans hopen
      simp [after, call, ScanCall.op, endScan_closed hclosed, ScanCall.opens, hopen, hclosed]
  | true =>
      obtain ⟨p, hcurrent⟩ := h.current hopen
      have hexec := h.executing.trans hopen
      -- `endScan` unpins the leaf and closes the scan, or it throws and closes nothing
      by_cases hmem : p ∈ c.index.pins
      · simp [after, call, ScanCall.op, endScan_open hexec hcurrent, hmem, ScanCall.opens]
      · simp [after, call, ScanCall.op, endScan_open hexec hcurrent, hmem, ScanCall.opens, hopen, hexec,
          hcurrent]

theorem inv_after (h : Inv c) (hright : Right fuel c k) : Inv (after fuel c k) := by
  have hscanned : Scanned (after fuel c k).index := (call_keeps fuel k.op).apply h.scanned
  cases k with
  | startScan low lowOp high highOp =>
      by_cases hfind : Findable c.index low lowOp high highOp
      · -- a scan was open: nothing has changed
        cases hopen : c.isOpen with
        | true =>
            have hexec := h.executing.trans hopen
            have hrun : call fuel (ScanCall.startScan low lowOp high highOp).op c.index = (.ok (), c.index) :=
              startScan_open hexec fuel low lowOp high highOp
            rw [after, hrun]
            exact ⟨h.scanned, hexec, fun _ => h.current hopen⟩
        -- none was: the scan is set up on the root, which is a leaf
        | false =>
            obtain ⟨entries, hroot⟩ := h.scanned.root
            obtain ⟨t, hrun, hexec, -, -, hcurrent, -⟩ :=
              startScan_fresh hroot (h.executing.trans hopen) fuel lowOp highOp hfind.low_le
            have hrun : call fuel (ScanCall.startScan low lowOp high highOp).op c.index = (.ok (), t) := hrun
            rw [after, hrun] at hscanned ⊢
            exact ⟨hscanned, hexec, fun _ => ⟨2, hcurrent⟩⟩
      · exact absurd hright (right_of_not_findable h hfind)
  | scanNext outRid =>
      have hindex : (after fuel c (.scanNext outRid)).index = (scanNext outRid c.index).2 :=
        call_scanNext c.index outRid
      cases hopen : c.isOpen with
      | false =>
          have hclosed := h.executing.trans hopen
          rw [scanNext_closed outRid hclosed] at hindex
          exact ⟨hscanned, (congrArg _ hindex).trans (hclosed.trans hopen.symm),
            fun htrue => absurd (hopen.symm.trans htrue) Bool.noConfusion⟩
      | true =>
          -- it moves on, in this leaf or to the next
          obtain ⟨p, hcurrent⟩ := h.current hopen
          obtain ⟨hexec, q, hq⟩ := scanNext_current outRid (h.executing.trans hopen) hcurrent
          rw [← hindex] at hexec hq
          exact ⟨hscanned, hexec.trans hopen.symm, fun _ => ⟨q, hq⟩⟩
  | endScan => exact inv_endScan h

/-- **The scans of an index.** In every sequence of calls on any index that the program can build, each does
what it should if and only if each meets the condition. -/
theorem scansRight_iff {name : List UInt8} {offset : Int} {relation : List (RecordId × List UInt8)}
    {further : List RIDKeyPair} {s : BTreeIndex}
    (hbuilt : build fuel name offset relation further new = (.ok (), s)) (calls : List ScanCall) :
    Run.AllOk (Right fuel) (after fuel) ⟨false, s⟩ calls ↔ Run.AllOk Meets (after fuel) ⟨false, s⟩ calls := by
  obtain ⟨entries, hroot, hidle⟩ := build_cases hbuilt
  have hstart : Inv ⟨false, s⟩ := ⟨Scanned.of_leafRoot hroot hidle, hidle.scanExecuting, Bool.noConfusion⟩
  exact Run.allOk_congr (fun c k h => right_iff_meets h k) (fun c k h => inv_after h) hstart

/-- An index with the keys `5` and `10`. -/
def twoKeys : BTreeIndex := (build 0 [114] 0 [] [⟨⟨1, 1⟩, 5⟩, ⟨⟨1, 2⟩, 10⟩] new).2

theorem build_twoKeys : build 0 [114] 0 [] [⟨⟨1, 1⟩, 5⟩, ⟨⟨1, 2⟩, 10⟩] new = (.ok (), twoKeys) := rfl

theorem findable_twoKeys : Findable twoKeys 5 .GTE 7 .LTE :=
  ⟨Or.inr rfl, Or.inr rfl, by decide, ⟨⟨1, 1⟩, 5⟩, List.mem_cons_self, by decide⟩

/-- A scan of the index, after two calls that throw. -/
theorem scansRight_twoKeys :
    Run.AllOk (Right 0) (after 0) ⟨false, twoKeys⟩
      [.scanNext ⟨0, 0⟩, .endScan, .startScan 5 .GTE 7 .LTE, .scanNext ⟨0, 0⟩] := by
  refine (scansRight_iff build_twoKeys _).mpr ⟨Bool.noConfusion, trivial, ⟨?_, ?_, ?_⟩, fun _ => ?_, trivial⟩
  · exact findable_twoKeys
  · exact fun _ => Or.inl rfl
  · exact Bool.noConfusion
  · exact ⟨2, 0, rfl, rfl, by decide⟩

/-- A scan that is started while one is open: the old bounds stay. -/
theorem scansRight_again :
    ¬ Run.AllOk (Right 0) (after 0) ⟨false, twoKeys⟩ [.startScan 5 .GTE 7 .LTE, .startScan 10 .GTE 12 .LTE] := by
  -- the first call is right; the second finds a scan open and leaves its bounds as they are
  rintro ⟨-, ⟨hfound, -⟩, -⟩
  have hfind : Findable (after 0 ⟨false, twoKeys⟩ (.startScan 5 .GTE 7 .LTE)).index 10 .GTE 12 .LTE :=
    ⟨Or.inr rfl, Or.inr rfl, by decide, ⟨⟨1, 2⟩, 10⟩, List.mem_cons_of_mem _ List.mem_cons_self, by decide⟩
  obtain ⟨t, u, hrun, hrested, hsame⟩ := hfound hfind
  cases hrun
  cases hrested
  exact absurd hsame.lowValInt (by decide)

end Client
end CS640.Badger
