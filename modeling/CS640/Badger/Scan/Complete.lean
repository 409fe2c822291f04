import CS640.Badger.Scan.Lifetime
import CS640.Badger.Scan.Pool

/-!
# What a scan returns

`Position` says where a scan is and which records it has still to return. A call of `scanNext` returns the
first of these, or throws if there is none, and is then in front of the others (`scanNext_delivers`). The
loop of `scanNext` runs over the pages without a record that follow, so the induction is on the pages that
are left.

Main result: `FileScan.complete`. Every statement about a call is made for a pool that may be full as well:
`Outcome` says what the call does if it comes to a page that finds no frame, and what it does otherwise. The module
on scans that are resumed uses the first part, this one the second.

* `advance_outcome`: the loop of `scanNext`.
* `scanNext_start`, `scanNext_page`: the call from each of the positions, and `scanNext_delivers` for all of them.
* `Position.after`: `n` calls go on by `n` records.
* `construct_away`: a scan that has been created is in front of the first page.
-/

namespace CS640.Badger

open CS640.Lib Prog
open CS640.Badger.BufMgr

variable {D : Type} [DataArea D]

namespace FileScan

/-!
## Positions

A scan is in front of the first page, at a slot of a page that it has pinned, or behind the last page. The records
that are to come are computed from the file as it was when the scan was created, since a scan changes nothing in it.
-/

/-- The members of a scan that is at slot `n` of page `p`, in frame `i`. -/
def atSlot (f i p n : Nat) : FileScan := ⟨f, some i, false, p, ⟨some i, ⟨p, n⟩⟩⟩

/-- The members of a scan that has no page pinned. -/
def away (f p : Nat) (iter : PageIterator) : FileScan := ⟨f, none, false, p, iter⟩

/-- Where a scan is, and the records of the file that it has still to return. -/
inductive Position (s₀ : Sys D) (f : Nat) (fn : FileName) (used : List Nat) :
    List (RecordId × List UInt8) → Scanning D → Prop
  | start {s : Sys D} (iter : PageIterator) (inv : ScanInv s₀ f fn used none s) :
      Position s₀ f fn used ((s₀.streams fn).liveRecords used) ⟨away f (used.headD 0) iter, s⟩
  | page {s : Sys D} {i p : Nat} (n : Nat) {l₁ l₂ : List Nat} (split : used = l₁ ++ p :: l₂)
      (inv : ScanInv s₀ f fn used (some i) s) (entry : s.entry f p = some i) :
      Position s₀ f fn used
        (((s.frame i).recordsAfter n).map (onPage p) ++ (s₀.streams fn).liveRecords l₂)
        ⟨atSlot f i p n, s⟩
  | ended {s : Sys D} (iter : PageIterator) (inv : ScanInv s₀ f fn used none s) :
      Position s₀ f fn used [] ⟨away f 0 iter, s⟩

/-- The records `rest` are still to come, and `x` returns the first of them, or throws if there is none. -/
def Delivers (s₀ : Sys D) (f : Nat) (fn : FileName) (used : List Nat)
    (rest : List (RecordId × List UInt8)) (x : Prog Exn (Scanning D) RecordId) (t : Scanning D) : Prop :=
  match rest with
  | [] => ∃ iter s, x t = (.error (.throw .endOfFile), ⟨away f 0 iter, s⟩) ∧ ScanInv s₀ f fn used none s
  | r :: rest => ∃ u, x t = (.ok r.1, u) ∧ Position s₀ f fn used rest u ∧ getRecord u = (.ok r.2, u)

variable {s₀ s u : Sys D} {f i p n : Nat} {fn : FileName} {used l₁ l₂ : List Nat}
  {rest : List (RecordId × List UInt8)} {scan : FileScan} {t : Scanning D}

theorem Delivers.of_eq {x x' : Prog Exn (Scanning D) RecordId} {t' : Scanning D} (hx : x t = x' t')
    (h : Delivers s₀ f fn used rest x' t') : Delivers s₀ f fn used rest x t := by
  cases rest with
  | nil =>
      obtain ⟨iter, s, hr, hs⟩ := h
      exact ⟨iter, s, hx.trans hr, hs⟩
  | cons r rest =>
      obtain ⟨u, hr, hu⟩ := h
      exact ⟨u, hx.trans hr, hu⟩

omit [DataArea D] in
theorem onSys_of_ok {α : Type} {x : Prog Exn (Sys D) α} {a : α} (h : x s = (.ok a, u)) :
    onSys x ⟨scan, s⟩ = (.ok a, ⟨scan, u⟩) := by
  unfold onSys zoom
  dsimp only
  rw [h]

omit [DataArea D] in
theorem self_bind_apply {α : Type} (x : FileScan → Prog Exn (Scanning D) α) :
    (self >>= x) ⟨scan, s⟩ = x scan ⟨scan, s⟩ := rfl

omit [DataArea D] in
theorem set_bind_apply {α : Type} (g : FileScan → FileScan) (x : Prog Exn (Scanning D) α) :
    (do set g; x) ⟨scan, s⟩ = x ⟨g scan, s⟩ := rfl

/-! ## On a page

The members of the scan are few, and each of the functions of the iterator is computed for a scan at a slot.
`getNextUsedSlot` answers with the next record of the page, or with `0` behind the last one.
-/

/-- The records of the file are those of its pages in the pool. -/
theorem liveRecords_cons (h : ScanInv s₀ f fn used (some i) s) (hp : p ∈ used) (hi : s.entry f p = some i)
    (l : List Nat) : (s₀.streams fn).liveRecords (p :: l) =
      ((s.frame i).recordsAfter 0).map (onPage p) ++ (s₀.streams fn).liveRecords l := by
  rw [FStream.liveRecords, List.flatMap_cons, ← (h.current p i hp hi).records]
  rfl

section Page

variable (h : ScanInv s₀ f fn used (some i) s) (hp : p ∈ used) (hi : s.entry f p = some i)

include h hp hi

/-- `pageRecordIter = curPage->begin()`. -/
theorem beginRecords_apply (iter : PageIterator) :
    beginRecords ⟨⟨f, some i, false, p, iter⟩, s⟩ =
      (.ok (), ⟨atSlot f i p ((s.frame i).getNextUsedSlot 0), s⟩) := by
  have hbegin := PageIterator.begin_apply s i
  rw [(h.current p i hp hi).number] at hbegin
  rw [beginRecords, self_bind_apply, bind_of_ok (onSys_of_ok hbegin)]
  rfl

theorem recordsDone_apply (n : Nat) :
    recordsDone ⟨atSlot f i p n, s⟩ = (.ok (n == 0), ⟨atSlot f i p n, s⟩) := by
  have hend := PageIterator.atEnd_apply s i n
  rw [(h.current p i hp hi).number] at hend
  exact onSys_of_ok hend

/-- A scan at a record reads it. -/
theorem getRecord_atSlot (hn : (s.frame i).Holds n) :
    getRecord ⟨atSlot f i p n, s⟩ = (.ok ((s.frame i).record n), ⟨atSlot f i p n, s⟩) := by
  have hshows := h.current p i hp hi
  have hread := PageIterator.getRecord_apply hshows.readable hn
  rw [hshows.number] at hread
  exact onSys_of_ok hread

theorem current_apply (hn : (s.frame i).Holds n) :
    current ⟨atSlot f i p n, s⟩ = (.ok ⟨p, n⟩, ⟨atSlot f i p n, s⟩) :=
  bind_of_ok (getRecord_atSlot h hp hi hn)

/-- `++pageRecordIter`. -/
theorem nextRecord_apply (n rounds : Nat) :
    nextRecord rounds ⟨atSlot f i p n, s⟩ =
      advance rounds ⟨atSlot f i p ((s.frame i).getNextUsedSlot n), s⟩ := by
  have hnext := PageIterator.next_apply s i ⟨p, n⟩
  rw [(h.current p i hp hi).number] at hnext
  have hrun : onSys (atSlot f i p n).pageRecordIter.next ⟨atSlot f i p n, s⟩ = _ := onSys_of_ok hnext
  rw [nextRecord, self_bind_apply, bind_of_ok hrun]
  rfl

end Page

/-- A scan that has come to a record returns it. -/
theorem current_delivers {m : Nat} (split : used = l₁ ++ p :: l₂) (h : ScanInv s₀ f fn used (some i) s)
    (hi : s.entry f p = some i) (hm : (s.frame i).Holds m) :
    Delivers s₀ f fn used
      (onPage p (m, (s.frame i).record m) :: (((s.frame i).recordsAfter m).map (onPage p) ++
        (s₀.streams fn).liveRecords l₂))
      current ⟨atSlot f i p m, s⟩ := by
  have hp : p ∈ used := by simp [split]
  exact ⟨_, current_apply h hp hi hm, .page m split h hi, getRecord_atSlot h hp hi hm⟩

/-- At a record the loop ends. -/
theorem advance_at_record {m : Nat} (h : ScanInv s₀ f fn used (some i) s) (hp : p ∈ used)
    (hi : s.entry f p = some i) (hm : (s.frame i).Holds m) (rounds : Nat) :
    advance (rounds + 1) ⟨atSlot f i p m, s⟩ = current ⟨atSlot f i p m, s⟩ := by
  have hslot : (m == 0) = false := beq_eq_false_iff_ne.mpr (Nat.ne_of_gt hm.1)
  rw [advance, bind_of_ok (recordsDone_apply h hp hi m), hslot, if_neg Bool.false_ne_true]

/-! ## From page to page

Between two pages the scan unpins the one and pins the other, and it is here that the pool may be full. Whether it
will be is known in advance: all frames but those of the scan are pinned, and a page that is not in the pool comes
before the next record (`Misses`).
-/

/-- From the pages `l` on, a page that is not in the pool comes before the next record. -/
def Misses (s : Sys D) (f : Nat) (fn : FileName) : List Nat → Prop
  | [] => False
  | p :: l => s.entry f p = none ∨ ((s.streams fn).page p).records = [] ∧ Misses s f fn l

/-- Over a page that is in the pool the scan goes on. -/
theorem full_misses_cons {l : List Nat} (hhit : Full s₀ none → s₀.entry f p ≠ none) :
    Full s₀ none ∧ Misses s₀ f fn (p :: l) ↔
      Full s₀ none ∧ ((s₀.streams fn).page p).records = [] ∧ Misses s₀ f fn l := by
  constructor
  · rintro ⟨hfull, hmiss | hmisses⟩
    · exact absurd hmiss (hhit hfull)
    · exact ⟨hfull, hmisses⟩
  · rintro ⟨hfull, hmisses⟩
    exact ⟨hfull, Or.inr hmisses⟩

/-- On its way to a page `x` finds that all frames are pinned. -/
def Exceeds (s₀ : Sys D) (f : Nat) (fn : FileName) (used : List Nat)
    (x : Prog Exn (Scanning D) RecordId) (t : Scanning D) : Prop :=
  ∃ p iter s, p ∈ used ∧ x t = (.error (.throw .bufferExceeded), ⟨away f p iter, s⟩) ∧
    ScanInv s₀ f fn used none s

/-- What `x` does, which is stuck or not. -/
structure Outcome (s₀ : Sys D) (f : Nat) (fn : FileName) (used : List Nat) (stuck : Prop)
    (rest : List (RecordId × List UInt8)) (x : Prog Exn (Scanning D) RecordId) (t : Scanning D) : Prop where
  delivers : ¬ stuck → Delivers s₀ f fn used rest x t
  exceeds : stuck → Exceeds s₀ f fn used x t

namespace Outcome

variable {stuck stuck' : Prop} {x x' : Prog Exn (Scanning D) RecordId} {t' : Scanning D}

theorem of_eq (hx : x t = x' t') (hstuck : stuck ↔ stuck') (h : Outcome s₀ f fn used stuck' rest x' t') :
    Outcome s₀ f fn used stuck rest x t where
  delivers hnot := (h.delivers fun h => hnot (hstuck.mpr h)).of_eq hx
  exceeds hyes := by
    obtain ⟨p, iter, s, hp, hr, hs⟩ := h.exceeds (hstuck.mp hyes)
    exact ⟨p, iter, s, hp, hx.trans hr, hs⟩

theorem of_delivers (hnot : ¬ stuck) (h : Delivers s₀ f fn used rest x t) :
    Outcome s₀ f fn used stuck rest x t :=
  ⟨fun _ => h, fun hyes => absurd hyes hnot⟩

theorem of_exceeds (hyes : stuck) (h : Exceeds s₀ f fn used x t) : Outcome s₀ f fn used stuck rest x t :=
  ⟨fun hnot => absurd hyes hnot, fun _ => h⟩

end Outcome

section Pages

variable (ho : Opened s₀ f fn)

include ho

/-- The scan goes to page `p`, or finds the pool full. -/
theorem readCurrent_scan (h : ScanInv s₀ f fn used none s) (hp : p ∈ used) (iter : PageIterator) :
    (∃ i u, readCurrent ⟨away f p iter, s⟩ = (.ok (), ⟨⟨f, some i, false, p, iter⟩, u⟩) ∧
      ScanInv s₀ f fn used (some i) u ∧ u.entry f p = some i ∧ (Full s₀ none → s₀.entry f p ≠ none)) ∨
    ∃ u, readCurrent ⟨away f p iter, s⟩ = (.error (.throw .bufferExceeded), ⟨away f p iter, u⟩) ∧
      ScanInv s₀ f fn used none u ∧ s₀.entry f p = none ∧ Full s₀ none := by
  have hnumber : pageNumber (away f p iter) s = (.ok p, s) := pageNumber_scan ho h rfl hp
  have hcall : readCurrent ⟨away f p iter, s⟩ =
      (do let frame ← onSys (P3.BufMgr.readPage f p); set fun scan => { scan with curPage := some frame })
        ⟨away f p iter, s⟩ := by
    rw [readCurrent, self_bind_apply, bind_of_ok (onSys_of_ok hnumber)]
    rfl
  rcases readPage_scan ho h hp with ⟨i, u, hread, hnext, hi, hroom⟩ | ⟨u, hread, hnext, hnone, hfull⟩
  · refine Or.inl ⟨i, u, ?_, hnext, hi, fun hfull hnone => ?_⟩
    · rw [hcall, bind_of_ok (onSys_of_ok hread)]
      rfl
    · exact hroom ((h.entry_full ho hfull f p).mpr hnone) hfull
  · refine Or.inr ⟨u, ?_, hnext, (h.entry_full ho hfull f p).mp hnone, hfull⟩
    have hread : onSys (P3.BufMgr.readPage f p) ⟨away f p iter, s⟩ =
        (.error (.throw .bufferExceeded), ⟨away f p iter, u⟩) := by
      unfold onSys zoom
      dsimp only
      rw [hread]
    rw [hcall, bind_of_error hread]

/-- Behind the last record of a page the loop gives the page back and goes to the next one. -/
theorem advance_turn (split : used = l₁ ++ p :: l₂) (h : ScanInv s₀ f fn used (some i) s)
    (hi : s.entry f p = some i) (rounds : Nat) :
    ∃ u, ScanInv s₀ f fn used none u ∧ advance (rounds + 1) ⟨atSlot f i p 0, s⟩ =
      (if l₂.headD 0 = 0 then throw .endOfFile
        else do readCurrent; beginRecords; advance rounds : Prog Exn (Scanning D) RecordId)
      ⟨away f (l₂.headD 0) ⟨some i, ⟨p, 0⟩⟩, u⟩ := by
  have hp : p ∈ used := by simp [split]
  have hnumber : pageNumber (atSlot f i p 0) s = (.ok p, s) := pageNumber_scan ho h rfl hp
  obtain ⟨u, hunpin, hu⟩ := unPinPage_scan ho h hi
  obtain ⟨header, hheader, hnext⟩ := readPageHeader_scan ho hu split
  have hunpin : onSys (P3.BufMgr.unPinPage (atSlot f i p 0).file p (atSlot f i p 0).curDirtyFlag)
      ⟨atSlot f i p 0, s⟩ = _ := onSys_of_ok hunpin
  have hheader : ∀ scan, onSys (onFile (atSlot f i p 0).file fun _ =>
      FStream.readPageHeader (atSlot f i p 0).filePageIter) ⟨scan, u⟩ = (.ok header, ⟨scan, u⟩) :=
    fun _ => onSys_of_ok hheader
  refine ⟨u, hu, ?_⟩
  rw [advance, bind_of_ok (recordsDone_apply h hp hi 0), if_pos (beq_self_eq_true 0),
    self_bind_apply, bind_of_ok (onSys_of_ok hnumber), bind_of_ok hunpin, set_bind_apply,
    bind_of_ok (hheader _), set_bind_apply, hnext]
  rfl

/-- **The loop of `scanNext`** goes over the pages without a record. -/
theorem advance_outcome (l₂ : List Nat) : ∀ (l₁ : List Nat) (rounds p i n : Nat) (s : Sys D),
    used = l₁ ++ p :: l₂ → l₂.length < rounds → ScanInv s₀ f fn used (some i) s → s.entry f p = some i →
    Outcome s₀ f fn used (Full s₀ none ∧ (s.frame i).recordsAfter n = [] ∧ Misses s₀ f fn l₂)
      (((s.frame i).recordsAfter n).map (onPage p) ++ (s₀.streams fn).liveRecords l₂) (advance rounds)
      ⟨atSlot f i p ((s.frame i).getNextUsedSlot n), s⟩ := by
  induction l₂ with
  -- the last page: behind its last record the file ends
  | nil =>
      intro l₁ rounds p i n s split hrounds h hi
      have hp : p ∈ used := by simp [split]
      obtain ⟨rounds, rfl⟩ := Nat.exists_eq_succ_of_ne_zero (Nat.ne_of_gt hrounds)
      apply Outcome.of_delivers fun hstuck => hstuck.2.2
      rcases (s.frame i).getNextUsedSlot_cases n with ⟨hslot, hnone⟩ | ⟨hm, hrecords⟩
      · rw [hslot, hnone]
        obtain ⟨u, hu, hturn⟩ := advance_turn ho split h hi rounds
        exact ⟨_, u, hturn, hu⟩
      · rw [hrecords]
        exact (current_delivers split h hi hm).of_eq (advance_at_record h hp hi hm rounds)
  -- a page follows: it is read when this one has no more records
  | cons q l₂ ih =>
      intro l₁ rounds p i n s split hrounds h hi
      have hp : p ∈ used := by simp [split]
      obtain ⟨rounds, rfl⟩ := Nat.exists_eq_succ_of_ne_zero (Nat.ne_of_gt (Nat.zero_lt_of_lt hrounds))
      rcases (s.frame i).getNextUsedSlot_cases n with ⟨hslot, hnone⟩ | ⟨hm, hrecords⟩
      · rw [hslot, hnone]
        obtain ⟨u, hu, hturn⟩ := advance_turn ho split h hi rounds
        have hq : q ∈ used := by simp [split]
        have hne : q ≠ 0 := Seg.ne_null h.file.chain hq
        rw [List.headD_cons, if_neg hne] at hturn
        rcases readCurrent_scan ho hu hq ⟨some i, ⟨p, 0⟩⟩ with ⟨j, v, hread, hv, hj, hhit⟩ |
          ⟨v, hread, hv, hmiss, hfull⟩
        · -- page `q` is in the pool now, and the rest is by induction
          rw [bind_of_ok hread, bind_of_ok (beginRecords_apply hv hq hj _)] at hturn
          rw [List.map_nil, List.nil_append, liveRecords_cons hv hq hj]
          have hnext := ih (l₁ ++ [p]) rounds q j 0 v (by simp [split]) (Nat.lt_of_succ_lt_succ hrounds) hv hj
          apply Outcome.of_eq hturn _ hnext
          -- page `q` was in the pool, if that is full
          have hrecords : (v.frame j).recordsAfter 0 = ((s₀.streams fn).page q).records :=
            (hv.current q j hq hj).records
          rw [hrecords, ← full_misses_cons hhit]
          exact and_congr_right fun _ => and_iff_right rfl
        · apply Outcome.of_exceeds ⟨hfull, rfl, Or.inl hmiss⟩
          rw [bind_of_error hread] at hturn
          exact ⟨q, _, v, hq, hturn, hv⟩
      · rw [hrecords]
        apply Outcome.of_delivers fun hstuck => List.cons_ne_nil _ _ hstuck.2.1
        exact (current_delivers split h hi hm).of_eq (advance_at_record h hp hi hm rounds)

/-- A scan that has no page starts with the first page of the file, wherever its `filePageIter` is. -/
theorem scanNext_first {l₂ : List Nat} (h : ScanInv s₀ f fn (p :: l₂) none s) {q : Nat} (hq : q ≠ 0)
    (iter : PageIterator) (rounds : Nat) :
    scanNext rounds ⟨away f q iter, s⟩ =
      (do
        readCurrent
        set fun scan => { scan with curDirtyFlag := false }
        beginRecords
        let done ← recordsDone
        if done = false then current else nextRecord rounds : Prog Exn (Scanning D) RecordId)
      ⟨away f p iter, s⟩ := by
  have hne : p ≠ 0 := Seg.ne_null h.file.chain List.mem_cons_self
  have hbegin : ∀ scan, onSys (PageFile.begin (away f q iter).file) ⟨scan, s⟩ = (.ok p, ⟨scan, s⟩) :=
    fun _ => onSys_of_ok (begin_scan ho h)
  have hiter : (away f q iter).filePageIter ≠ invalidNumber := hq
  have hcur : (away f q iter).curPage = none := rfl
  rw [scanNext, self_bind_apply, if_neg hiter, if_pos hcur, bind_of_ok (hbegin _), set_bind_apply,
    if_neg hne]
  rfl

/-- **The first call of `scanNext`**, and any call while the scan has no page. -/
theorem scanNext_start {rounds q : Nat} (hrounds : used.length ≤ rounds)
    (h : ScanInv s₀ f fn used none s) (hused : used ≠ []) (hq : q ≠ 0) (iter : PageIterator) :
    Outcome s₀ f fn used (Full s₀ none ∧ Misses s₀ f fn used) ((s₀.streams fn).liveRecords used)
      (scanNext rounds) ⟨away f q iter, s⟩ := by
  obtain ⟨p, l₂, rfl⟩ := List.exists_cons_of_ne_nil hused
  have hp : p ∈ p :: l₂ := List.mem_cons_self
  have hfirst := scanNext_first ho h hq iter rounds
  -- the first page is in the pool after the call, or the pool was full
  rcases readCurrent_scan ho h hp iter with ⟨i, u, hread, hu, hi, hhit⟩ | ⟨u, hread, hu, hmiss, hfull⟩
  · have hbegin := beginRecords_apply hu hp hi iter
    rw [bind_of_ok hread, set_bind_apply] at hfirst
    have hfirst := hfirst.trans (bind_of_ok hbegin)
    rw [bind_of_ok (recordsDone_apply hu hp hi _)] at hfirst
    rw [liveRecords_cons hu hp hi]
    have split : p :: l₂ = [] ++ p :: l₂ := rfl
    have hrecords : (u.frame i).recordsAfter 0 = ((s₀.streams fn).page p).records :=
      (hu.current p i hp hi).records
    have hstuck : Full s₀ none ∧ Misses s₀ f fn (p :: l₂) ↔
        Full s₀ none ∧ (u.frame i).recordsAfter 0 = [] ∧ Misses s₀ f fn l₂ := by
      rw [hrecords]
      exact full_misses_cons hhit
    rcases (u.frame i).getNextUsedSlot_cases 0 with ⟨hslot, -⟩ | ⟨hm, hsome⟩
    · -- the iterator is at its end and is moved on all the same
      rw [hslot, if_neg (by simp)] at hfirst
      apply Outcome.of_eq (hfirst.trans (nextRecord_apply hu hp hi 0 rounds)) hstuck
      exact advance_outcome ho l₂ [] rounds p i 0 u split (Nat.lt_of_succ_le hrounds) hu hi
    · rw [if_pos (beq_eq_false_iff_ne.mpr (Nat.ne_of_gt hm.1))] at hfirst
      apply Outcome.of_eq hfirst hstuck
      rw [hsome]
      apply Outcome.of_delivers fun hstuck => List.cons_ne_nil _ _ hstuck.2.1
      exact current_delivers split hu hi hm
  · rw [bind_of_error hread] at hfirst
    exact Outcome.of_exceeds ⟨hfull, Or.inl hmiss⟩ ⟨p, iter, u, hp, hfirst, hu⟩

/-- **The later calls of `scanNext`**. -/
theorem scanNext_page {rounds : Nat} (hrounds : used.length ≤ rounds) (split : used = l₁ ++ p :: l₂)
    (h : ScanInv s₀ f fn used (some i) s) (hi : s.entry f p = some i) (n : Nat) :
    Outcome s₀ f fn used (Full s₀ none ∧ (s.frame i).recordsAfter n = [] ∧ Misses s₀ f fn l₂)
      (((s.frame i).recordsAfter n).map (onPage p) ++ (s₀.streams fn).liveRecords l₂)
      (scanNext rounds) ⟨atSlot f i p n, s⟩ := by
  have hp : p ∈ used := by simp [split]
  have hne : (atSlot f i p n).filePageIter ≠ invalidNumber := Seg.ne_null h.file.chain hp
  have hlen : l₂.length < rounds := by
    rw [split, List.length_append, List.length_cons] at hrounds
    omega
  -- the scan has a page, so the call only moves the iterator on
  have hnext : scanNext rounds ⟨atSlot f i p n, s⟩ = nextRecord rounds ⟨atSlot f i p n, s⟩ := by
    rw [scanNext, self_bind_apply, if_neg hne, if_neg (by simp [atSlot])]
  apply Outcome.of_eq (hnext.trans (nextRecord_apply h hp hi n rounds)) Iff.rfl
  exact advance_outcome ho l₂ l₁ rounds p i n s split hlen h hi

end Pages

/-- **A call of `scanNext`** returns the next record, or throws if there is none. -/
theorem scanNext_delivers (hs : Scannable s₀ f fn used) {rounds : Nat} (hrounds : used.length ≤ rounds)
    (h : Position s₀ f fn used rest t) : Delivers s₀ f fn used rest (scanNext rounds) t := by
  have ho := hs.opened
  cases h with
  | @start s iter inv =>
      rcases used with _ | ⟨p, l₂⟩
      · exact ⟨iter, _, rfl, inv⟩
      · have hne : p ≠ 0 := Seg.ne_null inv.file.chain List.mem_cons_self
        apply (scanNext_start ho hrounds inv (List.cons_ne_nil p l₂) hne iter).delivers
        exact fun hstuck => hs.not_full hstuck.1
  | @page s i p n l₁ l₂ split inv entry =>
      apply (scanNext_page ho hrounds split inv entry n).delivers
      exact fun hstuck => hs.not_full hstuck.1
  | ended iter inv => exact ⟨iter, _, rfl, inv⟩

/-! ## A whole scan

What one call does is turned into what `n` calls do, with the records dropped one by one from the list. The
destructor is shown to give back what the scan has from each of the positions.
-/

/-- The scan after `n` calls of `scanNext`. -/
def after (rounds : Nat) (t : Scanning D) : (n : Nat) → Scanning D
  | 0 => t
  | n + 1 => (scanNext rounds (after rounds t n)).2

/-- Every frame has the pins that it has in `s`, and the frames that are pinned there have their pages. -/
structure SamePins (s t : Sys D) : Prop where
  count : ∀ i, (t.desc i).pinCnt = (s.desc i).pinCnt
  kept : ∀ i, 0 < (s.desc i).pinCnt →
    (t.desc i).file = (s.desc i).file ∧ (t.desc i).pageNo = (s.desc i).pageNo

theorem ScanInv.samePins (h : ScanInv s₀ f fn used none s) : SamePins s₀ s := ⟨h.count, h.kept⟩

/-- What a scan of the file `fn` that is created in the world `w` is to do, call by call. -/
structure Complete (w : World D) (scan : FileScan) (fn : FileName) (used : List Nat) (rounds : Nat) :
    Prop where
  /-- The live records of the file, no one of them twice. -/
  live : ∀ id bytes, (id, bytes) ∈ (w.sys.streams fn).liveRecords used ↔
    (∃ d, (w.sys.streams fn).stored id.pageNumber = some d) ∧
      ((w.sys.streams fn).page id.pageNumber).Holds id.slotNumber ∧
      bytes = ((w.sys.streams fn).page id.pageNumber).record id.slotNumber
  once : (((w.sys.streams fn).liveRecords used).map Prod.fst).Nodup
  /-- They are returned one after another. -/
  next : ∀ n r, ((w.sys.streams fn).liveRecords used)[n]? = some r →
    (scanNext rounds (after rounds ⟨scan, w.sys⟩ n)).1 = .ok r.1 ∧
      getRecord (after rounds ⟨scan, w.sys⟩ (n + 1)) =
        (.ok r.2, after rounds ⟨scan, w.sys⟩ (n + 1))
  /-- Every further call throws, and has no page pinned. -/
  atEnd : ∀ n, ((w.sys.streams fn).liveRecords used).length ≤ n →
    (scanNext rounds (after rounds ⟨scan, w.sys⟩ n)).1 = .error (.throw .endOfFile) ∧
      SamePins w.sys (after rounds ⟨scan, w.sys⟩ (n + 1)).sys
  /-- The scan can be destroyed after any of the calls, and then has no page pinned. -/
  destroyed : ∀ n, ∃ w', destroy (after rounds ⟨scan, w.sys⟩ n).scan
      { w with sys := (after rounds ⟨scan, w.sys⟩ n).sys } = (.ok (), w') ∧ SamePins w.sys w'.sys

section Whole

variable (hs : Scannable s₀ f fn used)

include hs

/-- A call goes on by one record. -/
theorem Position.next {rounds : Nat} (hrounds : used.length ≤ rounds)
    (h : Position s₀ f fn used rest t) :
    Position s₀ f fn used rest.tail (scanNext rounds t).2 := by
  have hdelivers := scanNext_delivers hs hrounds h
  -- at the end the scan has no page any more, and stays there
  cases rest with
  | nil =>
      obtain ⟨iter, s, hr, hinv⟩ := hdelivers
      rw [hr]
      exact .ended iter hinv
  | cons r rest =>
      obtain ⟨u, hr, hu, -⟩ := hdelivers
      rw [hr]
      exact hu

/-- `n` calls go on by `n` records. -/
theorem Position.after {rounds : Nat} (hrounds : used.length ≤ rounds)
    (h : Position s₀ f fn used rest t) (n : Nat) :
    Position s₀ f fn used (rest.drop n) (after rounds t n) := by
  induction n with
  | zero => exact h
  | succ n ih =>
      have hnext := ih.next hs hrounds
      rw [List.tail_drop] at hnext
      exact hnext

/-- `~FileScan` gives back the page that the scan is at. -/
theorem destroy_unpins (h : Position s₀ f fn used rest t) (w : World D) :
    ∃ w', destroy t.scan { w with sys := t.sys } = (.ok (), w') ∧ SamePins s₀ w'.sys := by
  -- the `PageFile` goes with the scan, and the pool is not touched by that
  have hend : ∀ s, ScanInv s₀ f fn used none s →
      wp (File.destroy f) (fun _ w' => SamePins s₀ w'.sys) (fun _ _ => False) { w with sys := s } := by
    intro s hs'
    obtain ⟨w', hr, hmgr, -⟩ := destroy_reopened (w := { w with sys := s }) (object_scan hs.opened hs')
    rw [wp_of_ok hr]
    have hdesc : ∀ i, w'.sys.desc i = s.desc i := by
      intro i
      rw [Sys.desc, hmgr]
      rfl
    constructor
    · intro i
      rw [hdesc]
      exact hs'.count i
    · intro i hi
      rw [hdesc]
      exact hs'.kept i hi
  have hwp : wp (destroy t.scan) (fun _ w' => SamePins s₀ w'.sys) (fun _ _ => False)
      { w with sys := t.sys } := by
    unfold destroy
    dsimp only
    cases h with
    | start iter inv =>
        rw [if_neg (by simp [away])]
        exact hend _ inv
    -- the page is unpinned first, which may be shown as for a call of `scanNext`
    | @page s i p n l₁ l₂ split inv entry =>
        have hp : p ∈ used := by simp [split]
        obtain ⟨u, hunpin, hu⟩ := unPinPage_scan hs.opened inv entry
        have hnumber : pageNumber (atSlot f i p n) s = (.ok p, s) := pageNumber_scan hs.opened inv rfl hp
        rw [if_pos (by simp [atSlot]), wp_bind, wp_tryCatch]
        unfold World.onSys
        rw [wp_zoom, wp_bind, wp_of_ok hnumber]
        show wp (P3.BufMgr.unPinPage f p false >>= _) _ _ s
        rw [wp_bind, wp_of_ok hunpin]
        show wp (PageFile.begin f >>= _) _ _ u
        rw [wp_bind, wp_of_ok (begin_scan hs.opened hu)]
        exact hend u hu
    | ended iter inv =>
        rw [if_neg (by simp [away])]
        exact hend _ inv
  obtain ⟨_, w', hr, hw⟩ := exists_ok_of_wp hwp
  exact ⟨w', hr, hw⟩

end Whole

omit [DataArea D] in
/-- A header after which the stream can still be used is that of the file. -/
theorem readHeader_ready {st st' : FStream D} {header : FileHeader}
    (h : FStream.readHeader st = (.ok header, st')) (hready : st'.Ready) :
    st' = st ∧ header = st.header := by
  unfold FStream.readHeader at h
  split at h
  · cases h
    exact ⟨rfl, rfl⟩
  · next hshort =>
      -- a short read leaves the stream with its `failbit`, or was one of a stream that had it
      cases h
      obtain ⟨hfail, hsize⟩ := hready
      simp only [FStream.fail, Bool.or_eq_false_iff] at hfail hsize
      simp [FStream.readable, hfail.1, hsize] at hshort

/-- A scan that has been created is in front of the first page. -/
theorem construct_away {name : FileName} {w w' : World D} (hopen : construct f name w = (.ok scan, w'))
    (hrelation : (w'.sys.streams name).Relation used) : ∃ iter, scan = away f (used.headD 0) iter := by
  unfold construct at hopen
  have hconstruct := Badger.construct_reopened f .page name false w
  -- the constructor opens the file and reads its header
  rcases hfile : File.construct f .page name false w with ⟨e | _, w₁⟩
  · rw [bind_of_error hfile] at hopen
    cases hopen
  · rw [wp_of_ok hfile] at hconstruct
    have hobject : w₁.sys.objects f = some ⟨.page, name⟩ := by
      rw [hconstruct.2, Function.update_self]
    obtain ⟨header, st, hread⟩ : ∃ header st,
        FStream.readHeader (w₁.sys.streams name) = (.ok header, st) := by
      unfold FStream.readHeader
      split
      · exact ⟨_, _, rfl⟩
      · exact ⟨_, _, rfl⟩
    have hbegin : PageFile.begin f w₁.sys = (.ok header.firstUsedPage, w₁.sys.setStream name st) := by
      have hheader := onFile_apply (x := fun _ => FStream.readHeader) hobject
      rw [hread] at hheader
      rw [PageFile.begin, bind_of_ok hheader]
      rfl
    have hrun : World.onSys (PageFile.begin f) w₁ =
        (.ok header.firstUsedPage, { w₁ with sys := w₁.sys.setStream name st }) := by
      unfold World.onSys zoom
      rw [hbegin]
    rw [bind_of_ok hfile, bind_of_ok hrun] at hopen
    cases hopen
    have hstream : (w₁.sys.setStream name st).streams name = st := Function.update_self ..
    obtain ⟨⟨free, howned⟩, hchain, -, -⟩ := hrelation
    rw [hstream] at howned hchain
    obtain ⟨rfl, rfl⟩ := readHeader_ready hread howned.ready
    refine ⟨⟨none, ⟨invalidNumber, invalidSlot⟩⟩, ?_⟩
    rw [← Chain.eq_headD hchain]
    rfl

/-- **A scan returns every live record of its file once**, and leaves no page pinned, if the pool has no old
copy of a page under the address of its `PageFile`. -/
theorem complete {name : FileName} {rounds : Nat} {w w' : World D}
    (hopen : construct f name w = (.ok scan, w')) (hs : Scannable w'.sys f name used)
    (hstale : NoStale w'.sys f name used) (hrounds : used.length ≤ rounds) :
    Complete w' scan name used rounds := by
  obtain ⟨iter, rfl⟩ := construct_away hopen hs.relation
  have hstart : Position w'.sys f name used ((w'.sys.streams name).liveRecords used)
      ⟨away f (used.headD 0) iter, w'.sys⟩ := .start iter (hs.scanInv hstale)
  constructor
  case live =>
    intro id bytes
    rw [FStream.mem_liveRecords, hs.mem]
  case once => exact FStream.liveRecords_nodup (Chain.nodup hs.chain)
  case next =>
    intro n r hr
    have hpos := hstart.after hs hrounds n
    obtain ⟨hlt, hget⟩ := List.getElem?_eq_some_iff.mp hr
    rw [List.drop_eq_getElem_cons hlt, hget] at hpos
    obtain ⟨u, hnext, -, hrecord⟩ := scanNext_delivers hs hrounds hpos
    rw [after, hnext]
    exact ⟨rfl, hrecord⟩
  case atEnd =>
    intro n hn
    have hpos := hstart.after hs hrounds n
    rw [List.drop_eq_nil_of_le hn] at hpos
    obtain ⟨iter, s, hend, hinv⟩ := scanNext_delivers hs hrounds hpos
    rw [after, hend]
    exact ⟨rfl, ScanInv.samePins hinv⟩
  case destroyed =>
    intro n
    exact destroy_unpins hs (hstart.after hs hrounds n) w'

/-! ## Two pages

A file of two pages is enough for what is hard: a page without records that is gone over, and a record that is
deleted. It is given as a whole, with its header and pages, and the facts that a scan needs of it are shown for any
two pages.
-/

/-- A file of two pages, one after the other. -/
def twoPages (first second : Page CharArea) : FStream CharArea where
  header := ⟨3, 1, 0, 0⟩
  page p :=
    match p with
    | 1 => (first.setPageNumber 1).setNextPageNumber 2
    | 2 => (second.setPageNumber 2).setNextPageNumber 0
    | _ => Page.zero
  size := fileHeaderSize + 2 * pageSize
  failbit := false
  sticky := true
  junkHeader := ⟨0, 0, 0, 0⟩
  junkPageHeader := ⟨0, 0, 0, 0, 0, 0⟩

theorem twoPages_owned (first second : Page CharArea) : (twoPages first second).Owned [] where
  ready := ⟨rfl, Nat.le_add_right _ _⟩
  numPages := Nat.succ_pos 2
  chain := .nil 0
  length := rfl
  free_lt p hp := by cases hp
  free_page p hp := by cases hp
  used_page p hpos hlt _ := by
    have hlt : p < 3 := hlt
    obtain rfl | rfl : p = 1 ∨ p = 2 := by omega
    · rfl
    · rfl
  page_zero := rfl
  holds p hpos hlt := by
    have hlt : p < 3 := hlt
    show pagePosition p + pageSize ≤ fileHeaderSize + 2 * pageSize
    obtain rfl | rfl : p = 1 ∨ p = 2 := by omega
    · decide
    · decide

theorem relation_twoPages {first second : Page CharArea} (hfirst : first.Readable)
    (hsecond : second.Readable) : (twoPages first second).Relation [1, 2] where
  owned := ⟨[], twoPages_owned first second⟩
  chain := .cons Nat.one_ne_zero (.cons (Nat.succ_ne_zero 1) (.nil 0))
  mem p := by
    constructor
    · intro hp
      rcases List.mem_pair.mp hp with rfl | rfl
      · exact ⟨_, rfl⟩
      · exact ⟨_, rfl⟩
    · rintro ⟨d, hd⟩
      obtain ⟨hpos, hlt, -⟩ := (twoPages_owned first second).of_stored hd
      have hlt : p < 3 := hlt
      exact List.mem_pair.mpr (by omega)
  readable p hp := by
    rcases List.mem_pair.mp hp with rfl | rfl
    · exact ⟨hfirst.slots, hfirst.within⟩
    · exact ⟨hsecond.slots, hsecond.within⟩

/-- What a scan needs to find, where the pool has no dirty frame and the file has two pages. -/
theorem scannable_twoPages {s : Sys CharArea} {first second : Page CharArea} (htable : TableInv s)
    (hsize : s.numBufs = 1) (hpin : (s.desc 0).pinCnt = 0)
    (hclean : ∀ i, (s.desc i).valid = true → (s.desc i).dirty = false)
    (hobject : s.objects 1 = some ⟨.page, "f"⟩)
    (honly : ∀ a o, s.objects a = some o → o = ⟨.page, "f"⟩)
    (hstream : s.streams "f" = twoPages first second) (hfirst : first.Readable)
    (hsecond : second.Readable) : Scannable s 1 "f" [1, 2] where
  table := htable
  size := by
    rw [hsize]
    decide
  room := ⟨0, by rw [hsize]; exact Nat.one_pos, hpin⟩
  object := hobject
  same a b oa ob ha hb _ := by rw [honly a oa ha, honly b ob hb]
  owned := by
    rw [hstream]
    exact (relation_twoPages hfirst hsecond).owned
  chain := by
    rw [hstream]
    exact (relation_twoPages hfirst hsecond).chain
  mem := by
    rw [hstream]
    exact (relation_twoPages hfirst hsecond).mem
  readable := by
    rw [hstream]
    exact (relation_twoPages hfirst hsecond).readable
  writable i hi hdirty := by
    rw [hclean i hi.valid] at hdirty
    cases hdirty

theorem readable_init : (Page.init : Page CharArea).Readable := Page.layout_init.readable

/-- A page with the given record. -/
def recordPage (recordData : List UInt8) : Page CharArea := (Page.insertRecord recordData Page.init).2

theorem readable_recordPage : (recordPage [2]).Readable where
  slots := by decide +kernel
  within n hn := by
    obtain ⟨hpos, hle, -⟩ := hn
    have hle : n ≤ 1 := hle
    obtain rfl : n = 1 := by omega
    decide +kernel

/-- A page with a deleted record and another one behind it. -/
def deletedFirst : Page CharArea :=
  (Page.deleteRecord ⟨0, 1⟩ (Page.insertRecord [5, 6] (recordPage [4])).2).2

theorem readable_deletedFirst : deletedFirst.Readable where
  slots := by decide +kernel
  within n hn := by
    obtain ⟨hpos, hle, hused⟩ := hn
    have hle : n ≤ 2 := hle
    obtain rfl | rfl : n = 1 ∨ n = 2 := by omega
    · cases hused
    · decide +kernel

/-- One frame: the first page has no records, and of the two of the second one the first is deleted. -/
theorem complete_skips :
    let start : World CharArea :=
      (ScanState.new (fun _ => twoPages Page.init deletedFirst) (fun name => name == "f") 1).world
    ∃ scan w, construct 1 "f" start = (.ok scan, w) ∧
      (w.sys.streams "f").liveRecords [1, 2] = [(⟨2, 2⟩, [5, 6])] ∧ Complete w scan "f" [1, 2] 2 := by
  intro start
  have hopen : construct 1 "f" start =
      (.ok (away 1 1 ⟨none, ⟨invalidNumber, invalidSlot⟩⟩), (construct 1 "f" start).2) := rfl
  refine ⟨_, _, hopen, by decide +kernel, complete hopen ?_ ?_ (by decide)⟩
  · have htable : TableInv (construct 1 "f" start).2.sys :=
      ⟨(pinInv_new _ _ Nat.one_pos).pool, fun _ hv => by cases hv⟩
    refine scannable_twoPages htable rfl rfl (fun _ hv => by cases hv) rfl ?_ rfl readable_init
      readable_deletedFirst
    intro a o ha
    have ha : Function.update (fun _ => none) 1 (some ⟨.page, "f"⟩) a = some o := ha
    rw [Function.update_apply] at ha
    split at ha
    · exact (Option.some.inj ha).symm
    · cases ha
  · intro p i _ hi
    cases hi

omit [DataArea D] in
/-- A pool with the given pages in its first frames and in the hash table. -/
theorem tableInv_of_frames (hsize : n ≤ s.numBufs) (hhand : s.clockHand < s.numBufs)
    (hframe : ∀ i, (s.desc i).frameNo = i) (hused : ∀ i < n, (s.desc i).valid = true)
    (hother : ∀ i, n ≤ i → (s.desc i).valid = false ∧ (s.desc i).clear = s.desc i)
    (hentry : ∀ f p i, s.entry f p = some i ↔ i < n ∧ (s.desc i).file = f ∧ (s.desc i).pageNo = p) :
    TableInv s := by
  have hlt : ∀ i, (s.desc i).valid = true → i < n := by
    intro i hi
    by_contra hge
    rw [(hother i (Nat.le_of_not_lt hge)).1] at hi
    cases hi
  constructor
  · constructor
    case hand => exact hhand
    case frameNo => exact hframe
    case valid_lt => exact fun i hi => Nat.lt_of_lt_of_le (hlt i hi) hsize
    case invalid =>
      intro i hi
      apply (hother i _).2
      by_contra hlt
      rw [hused i (Nat.lt_of_not_le hlt)] at hi
      cases hi
    case entry =>
      intro f p i hi
      obtain ⟨hlt, hfile, hpage⟩ := (hentry f p i).mp hi
      exact ⟨hused i hlt, hfile, hpage⟩
  · exact fun i hi => (hentry _ _ i).mpr ⟨hlt i hi, rfl, rfl⟩

/-- A scan reads the first page of a relation and is destroyed; the page stays in its frame. The relation is
removed and made anew, and the `PageFile` of the next scan is put where that of the first one was. Nothing
else is in the pool, and the scan returns a record of the old relation. -/
theorem complete_stale :
    let start : ScanState CharArea :=
      .new (fun _ => twoPages (recordPage [1]) Page.init) (fun name => name == "f") 1
    let events : List (ScanEvent CharArea) :=
      [.openScan 10 1 "f", .scanNext 10 1, .closeScan 10, .removeFile "f", .openFile 2 .page "f" true,
        .writeFile "f" (twoPages (recordPage [2]) Page.init), .closeFile 2]
    let s := events.foldl ScanState.after start
    Run (Run.guarded ScanState.Ok ScanState.after) start events s ∧
      ∃ scan w, construct 1 "f" s.world = (.ok scan, w) ∧ Scannable w.sys 1 "f" [1, 2] ∧
        (∀ i, (w.sys.desc i).valid = true → (w.sys.desc i).file = 1) ∧
        ¬ Complete w scan "f" [1, 2] 2 := by
  refine ⟨Run.of_allOk ?_, away 1 1 ⟨none, ⟨invalidNumber, invalidSlot⟩⟩, _, Prod.ext (by rfl) rfl, ?_, ?_, ?_⟩
  · refine ⟨⟨trivial, rfl, by decide, rfl⟩, ⟨trivial, trivial⟩, ⟨trivial, trivial⟩, ⟨trivial, trivial⟩,
      ⟨trivial, by decide, rfl⟩, ⟨trivial, trivial⟩, ⟨trivial, rfl, ?_⟩, trivial⟩
    intro scan self hself
    have hscans : Function.update (Function.update (Function.update (fun _ => none) 10 _) 10 _) 10
        none scan = some self := hself
    by_cases hscan : scan = 10
    · rw [hscan, Function.update_self] at hscans
      cases hscans
    · rw [Function.update_of_ne hscan, Function.update_of_ne hscan,
        Function.update_of_ne hscan] at hscans
      cases hscans
  · refine scannable_twoPages ?_ (by rfl) (by rfl) ?_ (by rfl) ?_ (by rfl) readable_recordPage readable_init
    · refine tableInv_of_frames (n := 1) (Nat.le_refl 1) Nat.one_pos ?_ ?_ ?_ ?_
      · rintro (_ | i)
        · rfl
        · rfl
      · rintro (_ | i) hi
        · rfl
        · omega
      · rintro (_ | i) hi
        · cases hi
        · exact ⟨rfl, rfl⟩
      · intro f p i
        -- the page of the first scan is the only one that was put into the hash table
        have hentry : ((ScanState.new (D := CharArea) (fun _ => twoPages Page.init Page.init)
            (fun _ => true) 1).world.sys.putEntry 1 1 0).entry f p =
            if f = 1 ∧ p = 1 then some 0 else none := Sys.entry_putEntry 0 f p rfl
        apply (iff_of_eq (congrArg (fun entry => entry = some i) hentry)).trans
        rcases i with _ | i
        · show _ ↔ _ ∧ 1 = f ∧ 1 = p
          grind
        · grind
    · intro i hi
      rcases i with _ | i
      · rfl
      · cases hi
    · intro a o ha
      have ha : Function.update (Function.update (Function.update (Function.update (Function.update
        (fun _ => none) 1 _) 1 none) 2 _) 2 none) 1 (some ⟨.page, "f"⟩) a = some o := ha
      by_cases hone : a = 1
      · rw [hone, Function.update_self] at ha
        exact (Option.some.inj ha).symm
      · by_cases htwo : a = 2
        · rw [htwo, Function.update_of_ne (by decide), Function.update_self] at ha
          cases ha
        · rw [Function.update_of_ne hone, Function.update_of_ne htwo, Function.update_of_ne htwo,
            Function.update_of_ne hone, Function.update_of_ne hone] at ha
          cases ha
  · intro i hi
    rcases i with _ | i
    · rfl
    · cases hi
  · intro hcomplete
    obtain ⟨-, hrecord⟩ := hcomplete.next 0 (⟨1, 1⟩, [2]) (by decide +kernel)
    have hold : (.ok [1] : Except (Exit Exn) (List UInt8)) = .ok [2] := congrArg Prod.fst hrecord
    cases hold

end FileScan

end CS640.Badger
