import CS640.Badger.Scan.FileScan
import CS640.Badger.Slotted.Store

/-!
# The records of a page and of a file

The live records in the order in which a scan is to come to them, and the iterator over those of one page:
`PageIterator::operator++` goes from a slot to the next one that is used (`getNextUsedSlot_cases`).
-/

namespace CS640.Badger

open CS640.Lib Prog

variable {D : Type} [DataArea D]

namespace Page

/-- The live records of a page behind slot `n`, with their slots. -/
def recordsAfter (n : Nat) (p : Page D) : List (Nat × List UInt8) :=
  ((List.range' (n + 1) (p.header.numSlots - n)).filter fun i => (p.slot i).used).map fun i =>
    (i, p.record i)

/-- The live records of a page, in the order of their slots. -/
def records (p : Page D) : List (Nat × List UInt8) := p.recordsAfter 0

variable {p : Page D}

theorem recordsAfter_end {n : Nat} (h : p.header.numSlots ≤ n) : p.recordsAfter n = [] := by
  rw [recordsAfter, Nat.sub_eq_zero_of_le h]
  rfl

theorem recordsAfter_succ {n : Nat} (h : n < p.header.numSlots) :
    p.recordsAfter n =
      if (p.slot (n + 1)).used = true then (n + 1, p.record (n + 1)) :: p.recordsAfter (n + 1)
      else p.recordsAfter (n + 1) := by
  have hlen : p.header.numSlots - n = p.header.numSlots - (n + 1) + 1 := by omega
  rw [recordsAfter, hlen, List.range'_succ, List.filter_cons]
  split <;> rfl

theorem getNextUsedSlot_end {n : Nat} (h : p.header.numSlots ≤ n) : p.getNextUsedSlot n = 0 := by
  rw [getNextUsedSlot, Nat.sub_eq_zero_of_le h]
  rfl

theorem getNextUsedSlot_succ {n : Nat} (h : n < p.header.numSlots) :
    p.getNextUsedSlot n = if (p.slot (n + 1)).used = true then n + 1 else p.getNextUsedSlot (n + 1) := by
  have hlen : p.header.numSlots - n = p.header.numSlots - (n + 1) + 1 := by omega
  rw [getNextUsedSlot, hlen, List.range'_succ, List.find?_cons]
  cases (p.slot (n + 1)).used <;> rfl

/-- `getNextUsedSlot` finds the next live record, or there is none. -/
theorem getNextUsedSlot_cases (p : Page D) (n : Nat) :
    p.getNextUsedSlot n = 0 ∧ p.recordsAfter n = [] ∨
      p.Holds (p.getNextUsedSlot n) ∧ p.recordsAfter n =
        (p.getNextUsedSlot n, p.record (p.getNextUsedSlot n)) :: p.recordsAfter (p.getNextUsedSlot n) := by
  -- by induction on the number of slots behind `n`
  obtain ⟨k, hk⟩ : ∃ k, p.header.numSlots - n = k := ⟨_, rfl⟩
  induction k generalizing n with
  | zero =>
      have hend : p.header.numSlots ≤ n := by omega
      exact Or.inl ⟨getNextUsedSlot_end hend, recordsAfter_end hend⟩
  | succ k ih =>
      have hlt : n < p.header.numSlots := by omega
      rw [getNextUsedSlot_succ hlt, recordsAfter_succ hlt]
      split
      · next hused => exact Or.inr ⟨⟨Nat.succ_pos n, hlt, hused⟩, rfl⟩
      · exact ih (n + 1) (by omega)

/-- The records of a page are those in its used slots. -/
theorem mem_records {k : Nat} {b : List UInt8} : (k, b) ∈ p.records ↔ p.Holds k ∧ b = p.record k := by
  rw [records, recordsAfter, List.mem_map]
  constructor
  · rintro ⟨i, hi, heq⟩
    cases heq
    rw [List.mem_filter, List.mem_range'_1] at hi
    obtain ⟨⟨hpos, hlt⟩, hused⟩ := hi
    exact ⟨⟨by omega, by omega, hused⟩, rfl⟩
  · rintro ⟨⟨hpos, hle, hused⟩, rfl⟩
    refine ⟨k, ?_, rfl⟩
    rw [List.mem_filter, List.mem_range'_1]
    exact ⟨⟨by omega, by omega⟩, hused⟩

/-- The records of a page come in the order of their slots. -/
theorem records_sorted (p : Page D) : (p.records.map Prod.fst).Pairwise (· < ·) := by
  have hslots : p.records.map Prod.fst =
      (List.range' 1 p.header.numSlots).filter fun i => (p.slot i).used := by
    rw [records, recordsAfter, List.map_map]
    exact List.map_id _
  rw [hslots]
  exact List.Pairwise.filter _ (List.pairwise_lt_range' ..)

/-- The records behind a slot are those of the page with a later slot. -/
theorem recordsAfter_eq_filter (p : Page D) (n : Nat) :
    p.recordsAfter n = p.records.filter fun r => n < r.1 := by
  rw [records, recordsAfter, recordsAfter, List.filter_map, List.filter_filter]
  congr 1
  rcases Nat.le_total n p.header.numSlots with hle | hge
  · -- no slot up to `n` counts
    have hsplit := List.range'_append_1 (s := 1) (m := n) (n := p.header.numSlots - n)
    rw [Nat.add_sub_cancel' hle, Nat.add_comm 1 n] at hsplit
    rw [Nat.zero_add, Nat.sub_zero, ← hsplit, List.filter_append]
    have hfront : (List.range' 1 n).filter (fun i => decide (n < i) && (p.slot i).used) = [] := by
      rw [List.filter_eq_nil_iff]
      intro i hi
      have hlt := (List.mem_range'_1.mp hi).2
      simp only [Bool.and_eq_true, decide_eq_true_eq]
      omega
    show _ = List.filter (fun i => decide (n < i) && (p.slot i).used) (List.range' 1 n) ++ _
    rw [hfront, List.nil_append]
    apply List.filter_congr
    intro i hi
    have hle := (List.mem_range'_1.mp hi).1
    have hlt : decide (n < i) = true := decide_eq_true (by omega)
    show _ = (decide (n < i) && (p.slot i).used)
    rw [hlt, Bool.true_and]
  · rw [Nat.sub_eq_zero_of_le hge]
    symm
    show List.filter (fun i => decide (n < i) && (p.slot i).used) _ = []
    rw [List.filter_eq_nil_iff]
    intro i hi
    have hlt := (List.mem_range'_1.mp hi).2
    simp only [Bool.and_eq_true, decide_eq_true_eq]
    omega

/-- `pg` is page `p`, and has the live records of `q`. -/
structure Shows (q : Page D) (p : Nat) (pg : Page D) : Prop where
  number : pg.pageNumber = p
  readable : pg.Readable
  records : pg.records = q.records

/-- The link to the next page does not matter to the records. -/
theorem Shows.setNextPageNumber {q pg : Page D} {k : Nat} (h : Shows q k pg) (n : Nat) :
    Shows q k (pg.setNextPageNumber n) :=
  ⟨h.number, ⟨h.readable.slots, h.readable.within⟩, h.records⟩

theorem Shows.recordsAfter {q pg : Page D} {k : Nat} (h : Shows q k pg) (n : Nat) :
    pg.recordsAfter n = q.recordsAfter n := by
  rw [recordsAfter_eq_filter, recordsAfter_eq_filter, h.records]

/-- A page with the records of one that has those of `q`. -/
theorem Shows.trans {q q' pg : Page D} {k k' : Nat} (h : Shows q k q') (h' : Shows q' k' pg) :
    Shows q k' pg :=
  ⟨h'.number, h'.readable, h'.records.trans h.records⟩

/-- Two pages with the records of `q` have each other's. -/
theorem Shows.of_both {q q' pg : Page D} {k k' : Nat} (h : Shows q k q') (h' : Shows q k' pg) :
    Shows q' k' pg :=
  ⟨h'.number, h'.readable, h'.records.trans h.records.symm⟩

end Page

/-- A record of page `p`, with its id. -/
def onPage (p : Nat) (r : Nat × List UInt8) : RecordId × List UInt8 := (⟨p, r.1⟩, r.2)

/-- The live records of the pages `used` of a file, with their ids. -/
def FStream.liveRecords (st : FStream D) (used : List Nat) : List (RecordId × List UInt8) :=
  used.flatMap fun p => (st.page p).records.map (onPage p)

namespace FStream

variable {st : FStream D} {used : List Nat}

/-- The live records are those in the used slots of the pages. -/
theorem mem_liveRecords {id : RecordId} {b : List UInt8} : (id, b) ∈ st.liveRecords used ↔
    id.pageNumber ∈ used ∧ (st.page id.pageNumber).Holds id.slotNumber ∧
      b = (st.page id.pageNumber).record id.slotNumber := by
  rw [liveRecords, List.mem_flatMap]
  constructor
  · rintro ⟨p, hp, hmem⟩
    obtain ⟨⟨k, b'⟩, hr, heq⟩ := List.mem_map.mp hmem
    cases heq
    exact ⟨hp, Page.mem_records.mp hr⟩
  · rintro ⟨hp, hrecord⟩
    refine ⟨id.pageNumber, hp, List.mem_map.mpr ⟨(id.slotNumber, b), ?_, rfl⟩⟩
    exact Page.mem_records.mpr hrecord

/-- No id is there twice. -/
theorem liveRecords_nodup (h : used.Nodup) : ((st.liveRecords used).map Prod.fst).Nodup := by
  induction used with
  | nil => exact List.nodup_nil
  | cons p l ih =>
      obtain ⟨hp, hl⟩ := List.nodup_cons.mp h
      rw [liveRecords, List.flatMap_cons, List.map_append, List.nodup_append']
      refine ⟨?_, ih hl, ?_⟩
      · have hslots : ((st.page p).records.map Prod.fst).Nodup :=
          (st.page p).records_sorted.imp fun hlt => Nat.ne_of_lt hlt
        have hids : ((st.page p).records.map (onPage p)).map Prod.fst =
            ((st.page p).records.map Prod.fst).map (RecordId.mk p) := by
          rw [List.map_map, List.map_map]
          rfl
        rw [hids]
        exact hslots.map fun _ _ heq => (RecordId.mk.inj heq).2
      · intro id hmem hmem'
        obtain ⟨r, hr, rfl⟩ := List.mem_map.mp hmem
        obtain ⟨r', hr', heq⟩ := List.mem_map.mp hmem'
        obtain ⟨k, -, rfl⟩ := List.mem_map.mp hr
        have hpage := (mem_liveRecords.mp (show (r'.1, r'.2) ∈ st.liveRecords l from hr')).1
        rw [heq] at hpage
        exact hp hpage

end FStream

namespace PageIterator

variable {s : Sys D} {i n : Nat}

/-- An iterator at a record reads that record. -/
theorem getRecord_apply (h : (s.frame i).Readable) (hn : (s.frame i).Holds n) :
    getRecord ⟨some i, ⟨(s.frame i).pageNumber, n⟩⟩ s = (.ok ((s.frame i).record n), s) := by
  have hread : Page.getRecord ⟨(s.frame i).pageNumber, n⟩ (s.frame i) = _ :=
    Page.getRecord_of_holds h rfl hn
  unfold getRecord zoom
  dsimp only
  rw [hread, s.setFrame_self]

theorem begin_apply (s : Sys D) (i : Nat) :
    begin (some i) s =
      (.ok ⟨some i, ⟨(s.frame i).pageNumber, (s.frame i).getNextUsedSlot 0⟩⟩, s) := rfl

theorem next_apply (s : Sys D) (i : Nat) (id : RecordId) :
    next ⟨some i, id⟩ s =
      (.ok ⟨some i, ⟨(s.frame i).pageNumber, (s.frame i).getNextUsedSlot id.slotNumber⟩⟩, s) := rfl

omit [DataArea D] in
/-- An iterator on a page is at its end if it has no slot. -/
theorem atEnd_apply (s : Sys D) (i n : Nat) :
    atEnd ⟨some i, ⟨(s.frame i).pageNumber, n⟩⟩ (some i) s = (.ok (n == 0), s) := by
  show (_, s) = _
  congr 2
  rw [Bool.eq_iff_iff]
  simp

end PageIterator

end CS640.Badger
