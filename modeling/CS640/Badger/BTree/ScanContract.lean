import CS640.Badger.BTree.Scan

/-!
# What a scan of an index returns

Main result: `BTreeIndex.scanContract`, which says when a scan of an index built over a relation returns
the entries in its range, in the order of their keys, and then ends.

A scan goes from the entry it starts at to the first one that ends it, in the order of insertion, whatever lies in
between. So it returns the right entries only where the entries in the range were inserted one after the other and
in order. The proof has two halves:

* `scans_iff`: what repeated calls of `scanNext` return, by induction on the entries that are left;
* `serves_of_startsAt` and `Serves.startsAt`: a scan serves its range exactly if that list has the right entries,
  and only the rids of it are known to the caller.
-/

namespace CS640.Badger

open CS640.Lib Prog

namespace BTreeIndex

/-- `scanNext`, called again and again, returns `rids` and then ends the scan. -/
inductive Scans : (outRid : RecordId) → (s : BTreeIndex) → (rids : List RecordId) → Prop
  | done {outRid : RecordId} {s t : BTreeIndex} :
      scanNext outRid s = (.error (.throw .indexScanCompleted), t) → Scans outRid s []
  | next {outRid r : RecordId} {s t : BTreeIndex} {rids : List RecordId} :
      scanNext outRid s = (.ok r, t) → Scans r t rids → Scans outRid s (r :: rids)

variable {s : BTreeIndex} {entries : List RIDKeyPair} {low high : Int} {lowOp highOp : Operator}
  {outRid : RecordId} {rids : List RecordId}

/-! ## The run of a scan

`Scans` has the results of `scanNext` and not its states, so a run of it is taken apart by what the call does in
this state. Past the last entry the scan goes on to page `0`, which was never written. There all keys are `0` and
the count of entries is a large one, so a scan that does not stop at once runs out of the array.
-/

theorem Scans.of_error {e : Exit IndexExn} {t : BTreeIndex} (h : Scans outRid s rids)
    (hrun : scanNext outRid s = (.error e, t)) : e = .throw .indexScanCompleted ∧ rids = [] := by
  cases h with
  | done hrun' =>
      rw [hrun] at hrun'
      cases hrun'
      exact ⟨rfl, rfl⟩
  | next hrun' _ =>
      rw [hrun] at hrun'
      cases hrun'

theorem Scans.of_ok {r : RecordId} {t : BTreeIndex} (h : Scans outRid s rids)
    (hrun : scanNext outRid s = (.ok r, t)) : ∃ rest, rids = r :: rest ∧ Scans r t rest := by
  cases h with
  | done hrun' =>
      rw [hrun] at hrun'
      cases hrun'
  | next hrun' hrest =>
      rw [hrun] at hrun'
      cases hrun'
      exact ⟨_, rfl, hrest⟩

theorem key_fresh (i : Nat) : LeafNodeInt.key Words.fresh i = 0 := by
  simp [LeafNodeInt.key, Words.fresh]

theorem scanNext_unwritten (outRid : RecordId) {next : Nat} (hgo : ¬ Stops high highOp 0)
    (hat : ScanAt s entries high highOp 0 (some next)) (hin : next < intArrayLeafSize) :
    ∃ r u, scanNext outRid s = (.ok r, u) ∧ ScanAt u entries high highOp 0 (some (next + 1)) := by
  have hsize : ((intArrayLeafSize : Nat) : Int) < Words.fresh.validEntryNum := by decide
  have hkey : LeafNodeInt.key (s.pages 0) next = 0 := by
    rw [hat.unwritten, key_fresh]
  obtain ⟨u, hrun, hu⟩ := (scanNext_entry outRid hat
    (by rw [hat.unwritten]; omega) hin).2 (by rwa [hkey])
  exact ⟨_, u, hrun, hu⟩

/-- A scan does not end on page `0`: its keys are all the same, and there are more than there is room
for. -/
theorem not_scans_unwritten (hgo : ¬ Stops high highOp 0) (h : Scans outRid s rids) :
    -- over the run; the position stays inside the array as long as there is an entry to return
    ∀ next ≤ intArrayLeafSize, ¬ ScanAt s entries high highOp 0 (some next) := by
  induction h with
  | @done outRid s t hrun =>
      intro next hnext hat
      rcases Nat.lt_or_eq_of_le hnext with hin | hfull
      · obtain ⟨r, u, hrun', _⟩ := scanNext_unwritten outRid hgo hat hin
        rw [hrun] at hrun'
        cases hrun'
      · obtain ⟨u, hrun'⟩ := scanNext_full outRid hat hfull
        rw [hrun] at hrun'
        cases hrun'
  | @next outRid r s t rids hrun _ ih =>
      intro next hnext hat
      rcases Nat.lt_or_eq_of_le hnext with hin | hfull
      · obtain ⟨r', u, hrun', hu⟩ := scanNext_unwritten outRid hgo hat hin
        rw [hrun] at hrun'
        cases hrun'
        exact ih (next + 1) hin hu
      · obtain ⟨u, hrun'⟩ := scanNext_full outRid hat hfull
        rw [hrun] at hrun'
        cases hrun'

/-- The key of the first of these entries; past the last entry, that of page `0`. -/
def nextKey (after : List RIDKeyPair) : Int := (after.head?.map RIDKeyPair.key).getD 0

/-- What a scan returns from the entries `rest` on: those before the first that ends it. -/
theorem scans_iff (rest : List RIDKeyPair) :
    ∀ {s : BTreeIndex} {outRid : RecordId} {rids : List RecordId} {seen : List RIDKeyPair},
      entries = seen ++ rest → ScanAt s entries high highOp 2 (some seen.length) →
      (Scans outRid s rids ↔ ∃ mid after, rest = mid ++ after ∧
        (∀ x ∈ mid, ¬ Stops high highOp x.key) ∧ Stops high highOp (nextKey after) ∧
        rids = mid.map RIDKeyPair.rid) := by
  -- over the entries that are left, with those that were passed in `seen`
  induction rest with
  | nil =>
      intro s outRid rids seen heq hat
      have hend : entries.length = seen.length := by simp [heq]
      rw [← hend] at hat
      obtain ⟨hstop, hgo⟩ := scanNext_end outRid hat
      constructor
      · intro h
        -- past the last entry: the key `0` of page 0 ends the scan, or it runs out of the array there
        by_cases hzero : Stops high highOp 0
        · obtain ⟨u, hrun⟩ := hstop hzero
          exact ⟨[], [], rfl, fun _ hx => absurd hx List.not_mem_nil, hzero, (h.of_error hrun).2⟩
        · obtain ⟨r, u, hrun, hu⟩ := hgo hzero
          obtain ⟨_, _, hrest⟩ := h.of_ok hrun
          exact absurd hu (not_scans_unwritten hzero hrest 1 (by decide))
      · rintro ⟨mid, after, hnil, _, hzero, rfl⟩
        obtain ⟨rfl, rfl⟩ := List.append_eq_nil_iff.mp hnil.symm
        obtain ⟨u, hrun⟩ := hstop hzero
        exact .done hrun
  | cons x rest ih =>
      intro s outRid rids seen heq hat
      have hlen : seen.length < entries.length := by simp [heq]
      have hbound := hat.holds.bound
      have hentry : entries[seen.length] = x := by simp [heq]
      obtain ⟨hstop, hgo⟩ := scanNext_entry outRid hat
        (by rw [hat.holds.count]; omega) (by omega)
      rw [hat.holds.key _ hlen, hentry] at hstop hgo
      rw [hat.holds.rid _ hlen, hentry] at hgo
      -- the entry ends the scan, or it is returned and the scan goes on behind it
      by_cases hx : Stops high highOp x.key
      · obtain ⟨u, hrun⟩ := hstop hx
        constructor
        · intro h
          exact ⟨[], x :: rest, rfl, fun _ hy => absurd hy List.not_mem_nil, hx,
            (h.of_error hrun).2⟩
        · rintro ⟨mid, after, hsplit, hmid, _, rfl⟩
          cases mid with
          | nil => exact .done hrun
          | cons y mid =>
              cases hsplit
              exact absurd hx (hmid x List.mem_cons_self)
      · obtain ⟨u, hrun, hu⟩ := hgo hx
        have heq' : entries = (seen ++ [x]) ++ rest := by simpa using heq
        have hnext : ∀ rids, Scans x.rid u rids ↔ _ := fun rids => ih heq' (by simpa using hu)
        constructor
        · intro h
          obtain ⟨rids', rfl, hrest⟩ := h.of_ok hrun
          obtain ⟨mid, after, hsplit, hmid, hafter, rfl⟩ := (hnext rids').mp hrest
          refine ⟨x :: mid, after, by rw [hsplit]; rfl, fun y hy => ?_, hafter, rfl⟩
          rcases List.mem_cons.mp hy with rfl | hy
          · exact hx
          · exact hmid y hy
        · rintro ⟨mid, after, hsplit, hmid, hafter, rfl⟩
          cases mid with
          | nil =>
              -- the scan would end at `x`
              rw [List.nil_append] at hsplit
              rw [← hsplit] at hafter
              exact absurd hafter hx
          | cons y mid =>
              cases hsplit
              exact .next hrun ((hnext _).mpr
                ⟨mid, after, rfl, fun y hy => hmid y (List.mem_cons_of_mem _ hy), hafter, rfl⟩)

/-! ## What the contract says

Both conditions speak of the list of entries in the order in which they were inserted. A scan that serves its range
returns the entries from the first on, or ends at its first entry with nothing in the range.
-/

/-- The scan of a range returns the entries in it, each once and in the order of their keys, and then
ends. -/
def Serves (fuel : Nat) (s : BTreeIndex) (entries : List RIDKeyPair) (low : Int) (lowOp : Operator)
    (high : Int) (highOp : Operator) (outRid : RecordId) : Prop :=
  ∃ (t : BTreeIndex) (l : List RIDKeyPair), startScan fuel low lowOp high highOp s = (.ok (), t) ∧
    l.Perm (entries.filter fun e => InRange low lowOp high highOp e.key) ∧
    (l.map RIDKeyPair.key).Pairwise (· ≤ ·) ∧ Scans outRid t (l.map RIDKeyPair.rid)

/-- The entries in the range were inserted one after the other, in the order of their keys, the first
one with the key `low`, and the entry after them ends the scan. -/
def InsertedInOrder (entries : List RIDKeyPair) (low : Int) (lowOp : Operator) (high : Int)
    (highOp : Operator) : Prop :=
  ∃ (before : List RIDKeyPair) (e : RIDKeyPair) (mid after : List RIDKeyPair),
    entries = before ++ e :: mid ++ after ∧ e.key = low ∧
    ((e :: mid).map RIDKeyPair.key).Pairwise (· ≤ ·) ∧
    (∀ x ∈ e :: mid, InRange low lowOp high highOp x.key) ∧
    (∀ x ∈ before ++ after, ¬ InRange low lowOp high highOp x.key) ∧
    Stops high highOp (nextKey after)

/-- There are no keys between `low` and `high`, and the scan starts at an entry that ends it: with `GTE`
some entry has the key `low`, with `GT` the last one that was inserted with a key up to `low`. -/
def EndsAtOnce (entries : List RIDKeyPair) (low : Int) (lowOp : Operator) (high : Int)
    (highOp : Operator) : Prop :=
  low = high ∧ highOp = .LT ∧ ∃ before e after, entries = before ++ e :: after ∧ e.key = low ∧
    (lowOp = .GT → ∀ x ∈ after, low < x.key)

/-- The entries in the range are those in the middle. -/
theorem filter_middle {p : RIDKeyPair → Prop} [DecidablePred p] {before mid after : List RIDKeyPair}
    (hmid : ∀ x ∈ mid, p x) (hout : ∀ x ∈ before ++ after, ¬ p x) :
    (before ++ mid ++ after).filter p = mid := by
  have hbefore : before.filter p = [] := by
    rw [List.filter_eq_nil_iff]
    exact fun x hx => by simpa using hout x (List.mem_append_left _ hx)
  have hafter : after.filter p = [] := by
    rw [List.filter_eq_nil_iff]
    exact fun x hx => by simpa using hout x (List.mem_append_right _ hx)
  have hself : mid.filter p = mid := by
    rw [List.filter_eq_self]
    exact fun x hx => by simpa using hmid x hx
  rw [List.filter_append, List.filter_append, hbefore, hafter, hself, List.nil_append, List.append_nil]

/-- If there are no more entries in the range than those in the middle, there are no others. -/
theorem not_outside {p : RIDKeyPair → Prop} [DecidablePred p] {before mid after : List RIDKeyPair}
    (hmid : ∀ x ∈ mid, p x)
    (hlen : ((before ++ mid ++ after).filter p).length = mid.length) :
    ∀ x ∈ before ++ after, ¬ p x := by
  have hself : mid.filter p = mid := by
    rw [List.filter_eq_self]
    exact fun x hx => by simpa using hmid x hx
  rw [List.filter_append, List.filter_append, hself, List.length_append, List.length_append] at hlen
  have hbefore : (before.filter p).length = 0 := by omega
  have hafter : (after.filter p).length = 0 := by omega
  intro x hx
  rcases List.mem_append.mp hx with hx | hx
  · simpa using List.filter_eq_nil_iff.mp (List.length_eq_zero_iff.mp hbefore) x hx
  · simpa using List.filter_eq_nil_iff.mp (List.length_eq_zero_iff.mp hafter) x hx

/-- Where a rid has one key, entries with the same rids have the same keys. -/
theorem keys_eq_of_rids_eq
    (hkeys : ∀ x ∈ entries, ∀ y ∈ entries, x.rid = y.rid → x.key = y.key) {l : List RIDKeyPair} :
    ∀ {m : List RIDKeyPair}, (∀ x ∈ l, x ∈ entries) → (∀ x ∈ m, x ∈ entries) →
      l.map RIDKeyPair.rid = m.map RIDKeyPair.rid → l.map RIDKeyPair.key = m.map RIDKeyPair.key := by
  induction l with
  | nil =>
      intro m _ _ h
      rw [List.map_eq_nil_iff.mp h.symm]
  | cons x l ih =>
      intro m hl hm h
      cases m with
      | nil => cases h
      | cons y m =>
          rw [List.map_cons, List.map_cons] at h ⊢
          obtain ⟨hrid, hrest⟩ := List.cons.inj h
          rw [hkeys x (hl x List.mem_cons_self) y (hm y List.mem_cons_self) hrid,
            ih (fun z hz => hl z (List.mem_cons_of_mem _ hz))
              (fun z hz => hm z (List.mem_cons_of_mem _ hz)) hrest]

section Serves

variable (h : LeafRoot s entries) (hidle : Idle s) (fuel : Nat) (hle : low ≤ high)
include h hidle hle

/-- A scan that starts at `e` and returns `mid`. -/
theorem serves_of_startsAt {before mid rest : List RIDKeyPair} {e : RIDKeyPair}
    {after : List RIDKeyPair} (heq : entries = before ++ e :: after)
    (hfirst : StartsAt low lowOp before e after) (hsplit : e :: after = mid ++ rest)
    (hmid : ∀ x ∈ mid, ¬ Stops high highOp x.key) (hrest : Stops high highOp (nextKey rest))
    (hperm : mid.Perm (entries.filter fun e => InRange low lowOp high highOp e.key))
    (hsorted : (mid.map RIDKeyPair.key).Pairwise (· ≤ ·)) :
    Serves fuel s entries low lowOp high highOp outRid := by
  obtain ⟨t, hstart, hat⟩ := startScan_ok h hidle fuel lowOp highOp hle
  have hindex := hfirst.startIndex 0 none
  rw [Nat.zero_add, ← heq] at hindex
  rw [hindex] at hat
  exact ⟨t, mid, hstart, hperm, hsorted,
    (scans_iff (e :: after) heq hat).mpr ⟨mid, rest, hsplit, hmid, hrest, rfl⟩⟩

/-- What a scan that serves its range does: it starts somewhere, and the entries from there to the one
that ends it have the rids of those in the range. -/
theorem Serves.startsAt (hserves : Serves fuel s entries low lowOp high highOp outRid) :
    ∃ (before : List RIDKeyPair) (e : RIDKeyPair) (after mid rest l : List RIDKeyPair),
      entries = before ++ e :: after ∧ StartsAt low lowOp before e after ∧ e :: after = mid ++ rest ∧
      (∀ x ∈ mid, ¬ Stops high highOp x.key) ∧ Stops high highOp (nextKey rest) ∧
      l.Perm (entries.filter fun e => InRange low lowOp high highOp e.key) ∧
      (l.map RIDKeyPair.key).Pairwise (· ≤ ·) ∧ l.map RIDKeyPair.rid = mid.map RIDKeyPair.rid := by
  obtain ⟨t, hstart, hat⟩ := startScan_ok h hidle fuel lowOp highOp hle
  have hstarted := started_startIndex low lowOp entries
  obtain ⟨t', l, hstart', hperm, hsorted, hscans⟩ := hserves
  rw [hstart] at hstart'
  cases hstart'
  -- a scan that has found no entry to start at fails in its first call
  cases hj : startIndex low lowOp entries 0 none with
  | none =>
      rw [hj] at hat
      obtain ⟨u, hrun⟩ := scanNext_unset outRid hat
      cases (hscans.of_error hrun).1
  | some j =>
      rw [hj] at hat hstarted
      obtain ⟨before, e, after, heq, rfl, hfirst⟩ := hstarted
      obtain ⟨mid, rest, hsplit, hmid, hrest, hrids⟩ := (scans_iff (e :: after) heq hat).mp hscans
      exact ⟨before, e, after, mid, rest, l, heq, hfirst, hsplit, hmid, hrest, hperm, hsorted, hrids⟩

theorem InsertedInOrder.serves (hop : lowOp = .GTE)
    (hin : InsertedInOrder entries low lowOp high highOp) :
    Serves fuel s entries low lowOp high highOp outRid := by
  obtain ⟨before, e, mid, after, heq, hkey, hsorted, hmid, hout, hstop⟩ := hin
  have hlow : InRange low lowOp high highOp low := hkey ▸ hmid e List.mem_cons_self
  have heq' : entries = before ++ e :: (mid ++ after) := by
    rw [heq]
    simp
  have hsplit : e :: (mid ++ after) = (e :: mid) ++ after := rfl
  refine serves_of_startsAt h hidle fuel hle heq' ?_ hsplit
    (fun x hx => (hmid x hx).not_stops) hstop ?_ hsorted
  · refine ⟨Int.le_of_eq hkey, fun _ x hx heqx => ?_, fun hne => absurd ⟨hop, hkey⟩ hne⟩
    exact hout x (List.mem_append_left _ hx) (heqx ▸ hlow)
  · rw [heq, filter_middle hmid hout]

theorem EndsAtOnce.serves (hop : lowOp = .GT ∨ lowOp = .GTE)
    (hends : EndsAtOnce entries low lowOp high highOp) :
    Serves fuel s entries low lowOp high highOp outRid := by
  obtain ⟨rfl, hlt, before, e, after, heq, hkey, hlast⟩ := hends
  -- the entry that the scan starts at
  have hstarts : ∃ before e after, entries = before ++ e :: after ∧
      StartsAt low lowOp before e after ∧ e.key = low := by
    -- with `GT` it is the last one with a key up to `low`, with `GTE` the first one with the key
    rcases hop with rfl | rfl
    · exact ⟨before, e, after, heq, ⟨Int.le_of_eq hkey, nofun, fun _ => hlast rfl⟩, hkey⟩
    · have hfind : (entries.find? fun x => x.key == low).isSome := by
        rw [List.find?_isSome]
        exact ⟨e, by simp [heq], by simp [hkey]⟩
      obtain ⟨first, hfirst⟩ := Option.isSome_iff_exists.mp hfind
      obtain ⟨hlow, before, after, heq', hne⟩ := List.find?_eq_some_iff_append.mp hfirst
      have hlow : first.key = low := by simpa using hlow
      exact ⟨before, first, after, heq', ⟨Int.le_of_eq hlow, fun _ x hx => by simpa using hne x hx,
        fun h => absurd ⟨rfl, hlow⟩ h⟩, hlow⟩
  obtain ⟨before, e, after, heq, hfirst, hkey⟩ := hstarts
  have hnone : (entries.filter fun e => InRange low lowOp low highOp e.key) = [] := by
    rw [List.filter_eq_nil_iff]
    intro x _ hx
    have hx := of_decide_eq_true hx
    rcases Int.lt_or_eq_of_le hx.low_le with hgt | heq
    · exact hx.not_stops (Or.inr hgt)
    · exact hx.not_stops (Or.inl ⟨hlt, heq.symm⟩)
  refine serves_of_startsAt h hidle fuel hle heq hfirst (List.nil_append (e :: after)).symm
    (fun _ hx => absurd hx List.not_mem_nil) ?_ ?_ .nil
  · exact Or.inl ⟨hlt, hkey⟩
  · rw [hnone]

/-- Where a rid has one key, a scan that serves its range meets one of the two conditions. -/
theorem Serves.condition (hop : lowOp = .GT ∨ lowOp = .GTE)
    (hkeys : ∀ x ∈ entries, ∀ y ∈ entries, x.rid = y.rid → x.key = y.key)
    (hserves : Serves fuel s entries low lowOp high highOp outRid) :
    EndsAtOnce entries low lowOp high highOp ∨
      lowOp = .GTE ∧ InsertedInOrder entries low lowOp high highOp := by
  obtain ⟨before, e, after, mid, rest, l, heq, hfirst, hsplit, hmid, hrest, hperm, hsorted, hrids⟩ :=
    hserves.startsAt h hidle fuel hle
  cases mid with
  | nil =>
      -- the first entry ends the scan
      rw [List.nil_append] at hsplit
      rw [← hsplit] at hrest
      have hkey := hfirst.key_le
      rcases hrest with ⟨hlt, hhigh⟩ | hhigh
      · have hhigh : e.key = high := hhigh
        have hlow : e.key = low := by omega
        refine Or.inl ⟨by omega, hlt, before, e, after, heq, hlow, fun hgt => ?_⟩
        exact hfirst.last fun hgte => by rw [hgt] at hgte; cases hgte.1
      · have hhigh : e.key > high := hhigh
        omega
  | cons x mid =>
      obtain ⟨rfl, rfl⟩ := List.cons.inj hsplit
      have heq' : entries = before ++ e :: mid ++ rest := by
        rw [heq]
        simp
      have hl : ∀ x ∈ l, x ∈ entries ∧ InRange low lowOp high highOp x.key := by
        intro x hx
        simpa using hperm.mem_iff.mp hx
      have hmem : ∀ x ∈ e :: mid, x ∈ entries := by
        intro x hx
        rw [heq']
        exact List.mem_append_left _ (List.mem_append_right _ hx)
      have hsame := keys_eq_of_rids_eq hkeys (fun x hx => (hl x hx).1) hmem hrids
      -- so what the scan returns is in the range
      have hin : ∀ x ∈ e :: mid, InRange low lowOp high highOp x.key := by
        intro x hx
        have hx := List.mem_map_of_mem (f := RIDKeyPair.key) hx
        rw [← hsame] at hx
        obtain ⟨y, hy, hkey⟩ := List.mem_map.mp hx
        exact hkey ▸ (hl y hy).2
      have he := hin e List.mem_cons_self
      have hkey : e.key = low := Int.le_antisymm hfirst.key_le he.low_le
      have hgte : lowOp = .GTE := by
        rcases hop with hgt | hgte
        · have hlow := (inRange_iff.mp he).1 hgt
          omega
        · exact hgte
      -- and as many entries as there are in the range, so there are no others
      have hout : ∀ x ∈ before ++ rest, ¬ InRange low lowOp high highOp x.key := by
        apply not_outside hin
        rw [← heq', ← hperm.length_eq]
        simpa using congrArg List.length hrids
      exact Or.inr ⟨hgte, before, e, mid, rest, heq', hkey, hsame ▸ hsorted, hin, hout, hrest⟩

end Serves

/-! ## The contract

One half of the equivalence needs no assumption on the rids. In the other one only rids are observed, so two entries
with one rid and different keys could be taken for each other.
-/

/-- **When a scan keeps its contract.** Over an index built over a relation, with further entries
inserted, a scan of a range returns the entries in it, each once and in the order of their keys, and then
ends: if the name of the relation fits into the meta page, the entries fit into one leaf, and they either
make the scan end at once or are in order where the range is. Where a rid has one key, only if. -/
theorem scanContract (fuel : Nat) (name : List UInt8) (offset : Int)
    (relation : List (RecordId × List UInt8)) (built further : List RIDKeyPair)
    (hrel : entriesOf offset relation = some built) (low high : Int) (lowOp highOp : Operator)
    (hlow : lowOp = .GT ∨ lowOp = .GTE) (hle : low ≤ high) (outRid : RecordId) :
    ((NameFits name ∧ (built ++ further).length ≤ intArrayLeafSize ∧
        (EndsAtOnce (built ++ further) low lowOp high highOp ∨
          lowOp = .GTE ∧ InsertedInOrder (built ++ further) low lowOp high highOp)) →
      ∃ s, build fuel name offset relation further new = (.ok (), s) ∧
        Serves fuel s (built ++ further) low lowOp high highOp outRid) ∧
    ((∀ x ∈ built ++ further, ∀ y ∈ built ++ further, x.rid = y.rid → x.key = y.key) →
      (∃ s, build fuel name offset relation further new = (.ok (), s) ∧
        Serves fuel s (built ++ further) low lowOp high highOp outRid) →
      NameFits name ∧ (built ++ further).length ≤ intArrayLeafSize ∧
        (EndsAtOnce (built ++ further) low lowOp high highOp ∨
          lowOp = .GTE ∧ InsertedInOrder (built ++ further) low lowOp high highOp)) := by
  constructor
  · rintro ⟨hname, hbound, hcond⟩
    obtain ⟨s, hrun, hs, hidle⟩ := build_ok fuel hname hrel hbound
    refine ⟨s, hrun, ?_⟩
    rcases hcond with hends | ⟨hgte, horder⟩
    · exact hends.serves hs hidle fuel hle hlow
    · exact horder.serves hs hidle fuel hle hgte
  · rintro hkeys ⟨s, hrun, hserves⟩
    -- an index that could not be built is not scanned
    by_cases hfits : NameFits name ∧ (built ++ further).length ≤ intArrayLeafSize
    · obtain ⟨t, hrun', ht, hidle⟩ := build_ok fuel hfits.1 hrel hfits.2
      rw [hrun] at hrun'
      cases hrun'
      exact ⟨hfits.1, hfits.2, hserves.condition ht hidle fuel hle hlow hkeys⟩
    · obtain ⟨t, hrun'⟩ := build_undefined fuel hrel hfits
      rw [hrun] at hrun'
      cases hrun'

/-- The record of a relation and the next entry are in the range, the entry after them is above it. -/
theorem scanContract_inOrder :
    ∃ s, build 0 [114] 0 [(⟨1, 1⟩, [5, 0, 0, 0])] [⟨⟨1, 2⟩, 6⟩, ⟨⟨1, 3⟩, 9⟩] new = (.ok (), s) ∧
      Serves 0 s ([⟨⟨1, 1⟩, 5⟩] ++ [⟨⟨1, 2⟩, 6⟩, ⟨⟨1, 3⟩, 9⟩]) 5 .GTE 7 .LTE ⟨0, 0⟩ := by
  apply (scanContract 0 [114] 0 [(⟨1, 1⟩, [5, 0, 0, 0])] [⟨⟨1, 1⟩, 5⟩] [⟨⟨1, 2⟩, 6⟩, ⟨⟨1, 3⟩, 9⟩]
    (by decide) 5 7 .GTE .LTE (Or.inr rfl) (by decide) ⟨0, 0⟩).1
  refine ⟨by decide, by decide, Or.inr ⟨rfl, [], ⟨⟨1, 1⟩, 5⟩, [⟨⟨1, 2⟩, 6⟩], [⟨⟨1, 3⟩, 9⟩], rfl, rfl,
    by decide, by decide, by decide, by decide⟩⟩

/-- A scan from above `1` starts at the entry with the key `1`. -/
theorem scanContract_below :
    ∃ s, build 0 [114] 0 [] [⟨⟨1, 1⟩, 1⟩, ⟨⟨1, 2⟩, 2⟩] new = (.ok (), s) ∧
      ¬ Serves 0 s [⟨⟨1, 1⟩, 1⟩, ⟨⟨1, 2⟩, 2⟩] 1 .GT 2 .LTE ⟨0, 0⟩ := by
  obtain ⟨s, hrun, hs, hidle⟩ : ∃ s, build 0 [114] 0 [] [⟨⟨1, 1⟩, 1⟩, ⟨⟨1, 2⟩, 2⟩] new = (.ok (), s) ∧
      LeafRoot s ([] ++ [⟨⟨1, 1⟩, 1⟩, ⟨⟨1, 2⟩, 2⟩]) ∧ Idle s :=
    build_ok 0 (by decide) rfl (by decide)
  refine ⟨s, hrun, fun hserves => ?_⟩
  rcases hserves.condition hs hidle 0 (by decide) (Or.inl rfl) (by decide) with hends | hgte
  · exact absurd hends.1 (by decide)
  · exact absurd hgte.1 (by decide)

end BTreeIndex
end CS640.Badger
