import CS640.Badger.BTree.Scan
import CS640.Lib.Run

/-!
# Closing an index

Main result: `BTreeIndex.destroy_never`. The destructor of an index unpins the page of the last scan, and
then every page of the index must be unpinned. Before the first scan there is no such page, and a scan
leaves its pin on the meta page.

The proof is an invariant of runs, `Scanned`: once a scan was started, the meta page has a pin, and no call takes it
away, since a scan is never on the meta page. The destructor flushes the file after it has unpinned the page of the
scan, and that fails for the pin that is left.
-/

namespace CS640.Badger

open CS640.Lib Prog

/-- The calls of a client of an index. -/
inductive IndexOp where
  | insertEntry (key : Int) (rid : RecordId)
  | startScan (lowVal : Int) (lowOp : Operator) (highVal : Int) (highOp : Operator)
  | scanNext (outRid : RecordId)
  | endScan

namespace BTreeIndex

/-- Make a call, without regard to what it returns. -/
def call (fuel : Nat) : IndexOp → Call Unit
  | .insertEntry key rid => insertEntry fuel key rid
  | .startScan lowVal lowOp highVal highOp => startScan fuel lowVal lowOp highVal highOp
  | .scanNext outRid => do
    let _rid ← scanNext outRid
    pure ()
  | .endScan => endScan

/-- A call that returns, or throws an exception that the client catches. -/
inductive Step (fuel : Nat) : BTreeIndex → IndexOp → BTreeIndex → Prop
  | returns {s t : BTreeIndex} {op : IndexOp} : call fuel op s = (.ok (), t) → Step fuel s op t
  | throws {s t : BTreeIndex} {op : IndexOp} {e : IndexExn} :
      call fuel op s = (.error (.throw e), t) → Step fuel s op t

/-! ## What is pinned

One lemma for each call, for every way in which it can end. `insertEntry` leaves pins alone or adds one, `startScan`
adds one, and `scanNext` and `endScan` unpin the page of the scan, which is the leaf or page `0`.
-/

/-- The root is a leaf, and if a scan was ever started, it is in that leaf or on page `0`, and the meta
page has a pin. -/
structure Scanned (s : BTreeIndex) : Prop where
  root : ∃ entries, LeafRoot s entries
  current : ∀ p, s.currentPageNum = some p → (p = 2 ∨ p = 0) ∧ headerPageNum ∈ s.pins

namespace Scanned

variable {s : BTreeIndex}

theorem of_leafRoot {entries : List RIDKeyPair} (h : LeafRoot s entries) (hidle : Idle s) :
    Scanned s where
  root := ⟨entries, h⟩
  current p hp := by
    rw [hidle.currentPageNum] at hp
    cases hp

/-- The leaves that a scan comes to have no right sibling. -/
theorem sibling (h : Scanned s) {p : Nat} (hp : p = 2 ∨ p = 0) :
    LeafNodeInt.rightSibPageNo (s.pages p) = 0 := by
  obtain ⟨entries, hroot⟩ := h.root
  rcases hp with rfl | rfl
  · exact hroot.sibling
  · rw [hroot.unwritten]
    rfl

/-- Changing other members, with the pins on the meta page kept. -/
theorem congr {t : BTreeIndex} (h : Scanned s) (hpages : t.pages = s.pages)
    (hroot : t.rootPageNum = s.rootPageNum) (hcurrent : t.currentPageNum = s.currentPageNum)
    (hpins : headerPageNum ∈ s.pins → headerPageNum ∈ t.pins) : Scanned t where
  root := by
    obtain ⟨entries, hr⟩ := h.root
    exact ⟨entries, hroot.trans hr.root, hpages ▸ hr.isLeaf, hpages ▸ hr.holds, hpages ▸ hr.sibling,
      hpages ▸ hr.unwritten⟩
  current p hp := by
    rw [hcurrent] at hp
    exact ⟨(h.current p hp).1, hpins (h.current p hp).2⟩

end Scanned

/-- Unpinning a page other than the meta page. -/
theorem unPinPage_keeps {p : Nat} (hp : p ≠ headerPageNum) (dirty : Bool) :
    Keeps Scanned (unPinPage p dirty) := by
  refine Keeps.get.bind fun s => Keeps.ite (fun _ => Keeps.modify ?_) fun _ => Keeps.throw _
  intro t h
  exact h.congr rfl rfl rfl fun hmem => (List.mem_erase_of_ne (Ne.symm hp)).mpr hmem

theorem insertEntry_keeps (fuel : Nat) (key : Int) (rid : RecordId) :
    Keeps Scanned (insertEntry fuel key rid) := by
  intro s h
  obtain ⟨entries, hroot⟩ := h.root
  -- the entry goes into the leaf, or the leaf is split, with undefined behaviour
  by_cases hroom : entries.length < intArrayLeafSize
  · rw [wp_of_ok (insertEntry_append hroot hroom fuel ⟨rid, key⟩)]
    exact ⟨⟨_, hroot.appended hroom ⟨rid, key⟩⟩, h.current⟩
  · have hfull : entries.length = intArrayLeafSize := by
      have hbound := hroot.holds.bound
      omega
    rw [wp_of_error (insertEntry_full hroot hfull fuel key rid)]
    exact h.congr rfl rfl rfl (List.mem_cons_of_mem 2)

/-- Page `0` is to the right of the leaf, and of itself. -/
theorem scanNext_keeps (outRid : RecordId) : Keeps Scanned (scanNext outRid) := by
  intro s h
  -- a scan that is not open, or has no page or no entry, returns at once with an exception
  cases hexec : s.scanExecuting with
  | false => exact (wp_of_state (scanNext_closed outRid hexec)).mpr h
  | true =>
      cases hcurrent : s.currentPageNum with
      | none => exact (wp_of_state (scanNext_noPage outRid hexec hcurrent)).mpr h
      | some p =>
          obtain ⟨hp, hpin⟩ := h.current p hcurrent
          cases hnext : s.nextEntry with
          | none =>
              rw [wp_of_state (scanNext_nowhere outRid hexec hcurrent hnext)]
              exact h.congr rfl rfl rfl (List.mem_cons_of_mem p)
          | some next =>
              obtain ⟨pins, hpins, hrun⟩ := scanNext_open outRid hexec hcurrent hnext
              obtain ⟨entries, hroot⟩ := h.root
              rw [wp_of_state hrun]
              refine ⟨⟨entries, hroot.root, hroot.isLeaf, hroot.holds, hroot.sibling, hroot.unwritten⟩, ?_⟩
              rintro q ⟨rfl⟩
              constructor
              · -- the scan stays on its page, or goes on to page `0`
                rw [position]
                split
                · exact hp
                · exact Or.inr (h.sibling hp)
              · rcases hpins with rfl | rfl
                · exact hpin
                · exact List.mem_cons_of_mem _ hpin

/-- The meta page gets a pin, if the scan begins and if it does not. -/
theorem startScan_keeps (fuel : Nat) (lowVal : Int) (lowOp : Operator) (highVal : Int)
    (highOp : Operator) : Keeps Scanned (startScan fuel lowVal lowOp highVal highOp) := by
  intro s h
  obtain ⟨entries, hroot⟩ := h.root
  cases hexec : s.scanExecuting with
  | true => exact (wp_of_state (startScan_open hexec fuel lowVal lowOp highVal highOp)).mpr h
  | false =>
      -- the scan begins, or the range is refused
      by_cases hle : lowVal ≤ highVal
      · rw [wp_of_state (startScan_leaf hroot hexec fuel lowOp highOp hle)]
        refine ⟨⟨entries, hroot.root, hroot.isLeaf, hroot.holds, hroot.sibling, hroot.unwritten⟩, ?_⟩
        rintro q ⟨rfl⟩
        exact ⟨Or.inl rfl, List.mem_cons_self⟩
      · have hrun := startScan_closed hexec fuel lowVal lowOp highVal highOp
        rw [if_pos (by omega)] at hrun
        rw [wp_of_state hrun]
        exact h.congr rfl rfl rfl (List.mem_cons_of_mem _)

theorem endScan_keeps : Keeps Scanned endScan := by
  intro s h
  rw [endScan, wp_bind, wp_get, wp_ite]
  refine ⟨fun _ => h, fun _ => ?_⟩
  cases hcurrent : s.currentPageNum with
  | none => exact h
  | some p =>
      have hp : p ≠ headerPageNum := by
        rcases (h.current p hcurrent).1 with rfl | rfl <;> decide
      rw [wp_bind, wp_of_ok (member_some p s)]
      refine (unPinPage_keeps hp false).bind (fun _ => Keeps.modify ?_) s h
      intro t ht
      exact ht.congr rfl rfl rfl id

theorem call_keeps (fuel : Nat) (op : IndexOp) : Keeps Scanned (call fuel op) := by
  cases op with
  | insertEntry key rid => exact insertEntry_keeps fuel key rid
  | startScan lowVal lowOp highVal highOp => exact startScan_keeps fuel lowVal lowOp highVal highOp
  | scanNext outRid => exact (scanNext_keeps outRid).bind fun _ => Keeps.pure _
  | endScan => exact endScan_keeps

theorem step_scanned {fuel : Nat} {op : IndexOp} {s t : BTreeIndex} (h : Scanned s)
    (hstep : Step fuel s op t) : Scanned t := by
  have hkeeps := call_keeps fuel op s h
  cases hstep with
  | returns hrun => rwa [wp_of_ok hrun] at hkeeps
  | throws hrun => rwa [wp_of_error hrun] at hkeeps

/-! ## The destructor

Without a scan there is no page to unpin, and the destructor reads a member that was never set. With one, either the
page of the scan has no pin any more, or the file cannot be flushed.
-/

/-- The destructor of such an index does not return. -/
theorem destroy_scanned {s : BTreeIndex} (h : Scanned s) (u : BTreeIndex) :
    destroy s ≠ (.ok (), u) := by
  suffices hfail : wp destroy (fun _ _ => False) (fun _ _ => True) s by
    intro hrun
    rwa [wp_of_ok hrun] at hfail
  rw [destroy, wp_tryCatch, wp_bind, wp_modify, wp_bind, wp_get]
  cases hcurrent : s.currentPageNum with
  | none => trivial
  | some p =>
      obtain ⟨hp, hpin⟩ := h.current p hcurrent
      have hmeta : headerPageNum ≠ p := by
        rcases hp with rfl | rfl <;> decide
      rw [wp_bind, wp_of_ok (member_some p _), wp_bind, unPinPage, wp_bind, wp_get, wp_ite]
      refine ⟨fun _ => ?_, fun _ => trivial⟩
      -- the meta page has a pin left
      rw [wp_modify, flushFile, wp_bind, wp_get, wp_ite]
      have hleft := (List.mem_erase_of_ne hmeta).mpr hpin
      exact ⟨fun hnil => (List.ne_nil_of_mem hleft hnil).elim, fun _ => trivial⟩

/-- **An index is never closed.** Whatever is inserted into an index and scanned in it, its destructor
does not return: it ends the program, or reads a member that was never set. -/
theorem destroy_never {fuel : Nat} {name : List UInt8} {offset : Int}
    {relation : List (RecordId × List UInt8)} {ops : List IndexOp} {s t : BTreeIndex}
    (hbuilt : construct fuel name offset relation new = (.ok (), s))
    (hrun : Run (Step fuel) s ops t) : ∀ u, destroy t ≠ (.ok (), u) := by
  obtain ⟨built, hroot, hidle⟩ := construct_cases hbuilt
  have hscanned := hrun.invariant (Scanned.of_leafRoot hroot hidle) fun _ _ _ h hstep =>
    step_scanned h hstep
  exact destroy_scanned hscanned

/-- After a scan that was ended, its page has no pin left. -/
theorem destroy_ended :
    ((do
      construct 0 [114] 0 [(⟨1, 1⟩, [5, 0, 0, 0])]
      startScan 0 5 .GTE 7 .LTE
      let _rid ← scanNext ⟨0, 0⟩
      endScan
      destroy : Call Unit) new).1 = .error .abort := by
  rfl

/-- An index with one entry and a scan of it that has returned the entry. -/
theorem destroy_never_scanned :
    ∃ s t, construct 0 [114] 0 [(⟨1, 1⟩, [5, 0, 0, 0])] new = (.ok (), s) ∧
      Run (Step 0) s [.startScan 5 .GTE 7 .LTE, .scanNext ⟨0, 0⟩] t ∧ ∀ u, destroy t ≠ (.ok (), u) := by
  obtain ⟨s, hbuilt, hs, hidle⟩ : ∃ s, construct 0 [114] 0 [(⟨1, 1⟩, [5, 0, 0, 0])] new = (.ok (), s) ∧
      LeafRoot s [⟨⟨1, 1⟩, 5⟩] ∧ Idle s := construct_ok 0 (by decide) (by decide) (by decide)
  have hle : (5 : Int) ≤ 7 := by decide
  obtain ⟨t, hstart, hat⟩ := startScan_ok hs hidle 0 .GTE .LTE hle
  have hat : ScanAt t [⟨⟨1, 1⟩, 5⟩] 7 .LTE 2 (some 0) := hat
  obtain ⟨u, hnext, _⟩ := (scanNext_entry ⟨0, 0⟩ hat
    (by rw [hat.holds.count]; decide) (by decide)).2 (by rw [hat.holds.key 0 (by decide)]; decide)
  have hcall : call 0 (.scanNext ⟨0, 0⟩) t = (.ok (), u) := by
    rw [call, bind_of_ok hnext]
    rfl
  have hfirst : Step 0 s (.startScan 5 .GTE 7 .LTE) t := Step.returns hstart
  have hrun := Run.cons hfirst (Run.cons (Step.returns hcall) (Run.nil u))
  exact ⟨s, u, hbuilt, hrun, destroy_never hbuilt hrun⟩

end BTreeIndex
end CS640.Badger
