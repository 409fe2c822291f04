import CS640.Badger.Scan.Complete

/-!
# Scanning on after a full pool

A `FileScan` gives its page back before it reads the next one, and `curPage` is null in between, as it is
before the first page. If the pool refuses the next page (`BufferExceededException`), the next call takes the
scan for one that has not started.

Main result: `resumes_iff`. In every run of `scanNext` calls, with anything done to the pool between them, the
scan goes on with the next record after every exception just if no call is made while it is `Stuck`: at the
last record of a page, with every frame pinned by others, and a page to come that is not in the pool.

Between two calls anything may be done to the pool, so nothing is carried over but the place of the scan (`Where`).
Each call is taken to be one of a scan that has found the pool as it is now, less its own pin (`withoutPin`), so
that what `Complete` says of the calls of one scan can be used for each of them.

* `Serves.scanInv`: the invariant of a scan, from what the pool is to have at the time of the call.
* `Where.outcome`: what a call does from each place.
* `inv_after`: a step that is no call of a stuck scan keeps the place.
* `not_resumes_of_stuck`: the call of a stuck scan loses it.
-/

namespace CS640.Badger

open CS640.Lib Prog
open CS640.Badger.BufMgr

variable {D : Type} [DataArea D]

/-!
## The pool without the scan

What the pool looks like to others: the frame of the scan has one pin less.
-/

/-- The system without the pin of a scan at frame `cur`. -/
def Sys.withoutPin (s : Sys D) (cur : Option Nat) : Sys D :=
  match cur with
  | some i => s.setDesc i fun d => { d with pinCnt := d.pinCnt - 1 }
  | none => s

section WithoutPin

omit [DataArea D]

variable (s : Sys D) (cur : Option Nat)

@[simp] theorem Sys.withoutPin_objects : (s.withoutPin cur).objects = s.objects := by cases cur <;> rfl

@[simp] theorem Sys.withoutPin_streams : (s.withoutPin cur).streams = s.streams := by cases cur <;> rfl

@[simp] theorem Sys.withoutPin_numBufs : (s.withoutPin cur).numBufs = s.numBufs := by cases cur <;> rfl

@[simp] theorem Sys.withoutPin_entry (f p : Nat) : (s.withoutPin cur).entry f p = s.entry f p := by
  cases cur <;> rfl

theorem Sys.withoutPin_desc (i : Nat) : (s.withoutPin cur).desc i =
    { s.desc i with pinCnt := (s.desc i).pinCnt - if cur = some i then 1 else 0 } := by
  cases cur with
  | none => rfl
  | some j =>
      show (s.setDesc j fun d => { d with pinCnt := d.pinCnt - 1 }).desc i = _
      rw [Sys.desc_setDesc]
      -- the frame that the scan has pinned, and the other frames
      by_cases hij : i = j
      · subst hij
        rw [if_pos rfl, if_pos rfl]
      · rw [if_neg hij, if_neg (by simpa using Ne.symm hij)]
        rfl

end WithoutPin

namespace FileScan

/-- The system as a scan of the relation `st` is to find it when it is called. -/
structure Serves (st : FStream D) (fn : FileName) (used : List Nat) (t : Scanning D) : Prop where
  table : TableInv t.sys
  size : 2 * t.sys.numBufs < 2 ^ 32
  object : t.sys.objects t.scan.file = some ⟨.page, fn⟩
  same : ∀ a b oa ob, t.sys.objects a = some oa → t.sys.objects b = some ob →
    oa.filename = ob.filename → oa = ob
  /-- The relation is what it was. -/
  file : InPlace st used (t.sys.streams fn)
  /-- So are its pages in the pool under the object of the scan. -/
  current : ∀ p i, p ∈ used → t.sys.entry t.scan.file p = some i →
    Page.Shows (st.page p) p (t.sys.frame i)
  /-- The page that the scan is at is where it was, and the pin of the scan has not been taken away. -/
  held : ∀ i, t.scan.curPage = some i →
    t.sys.entry t.scan.file t.scan.filePageIter = some i ∧ 0 < (t.sys.desc i).pinCnt
  /-- A dirty frame that nobody but the scan has pinned can be written back, and if it is of the file it
  has the records that the file has. -/
  writable : ∀ i, (t.sys.desc i).valid = true →
    (t.sys.desc i).pinCnt ≤ (if t.scan.curPage = some i then 1 else 0) → (t.sys.desc i).dirty = true →
    ∃ o, t.sys.objects (t.sys.desc i).file = some o ∧ o.kind.InOrder (t.sys.streams o.filename) ∧
      (o.kind = .page → (onDisk t.sys o (t.sys.desc i).pageNo).isSome = true ∧
        (t.sys.frame i).pageNumber = (t.sys.desc i).pageNo) ∧
      (o.filename = fn →
        Page.Shows ((t.sys.streams fn).page (t.sys.desc i).pageNo) (t.sys.desc i).pageNo (t.sys.frame i))

namespace Serves

variable {st : FStream D} {fn : FileName} {used : List Nat} {t : Scanning D}

theorem tableInv (h : Serves st fn used t) : TableInv (t.sys.withoutPin t.scan.curPage) := by
  cases hcur : t.scan.curPage with
  | none => exact h.table
  -- only the number of pins is another one
  | some i =>
      have hv := (h.table.pool.entry _ _ i (h.held i hcur).1).1
      exact h.table.mark (g := fun d => { d with pinCnt := d.pinCnt - 1 }) hv fun _ => ⟨rfl, rfl, rfl, rfl⟩

theorem opened (h : Serves st fn used t) :
    Opened (t.sys.withoutPin t.scan.curPage) t.scan.file fn where
  table := h.tableInv
  object := by
    rw [Sys.withoutPin_objects]
    exact h.object
  same := by
    rw [Sys.withoutPin_objects]
    exact h.same
  size := by
    rw [Sys.withoutPin_numBufs]
    exact h.size

omit [DataArea D] in
theorem full_iff (t : Scanning D) :
    Full (t.sys.withoutPin t.scan.curPage) none ↔ Full t.sys t.scan.curPage := by
  unfold Full
  rw [Sys.withoutPin_numBufs]
  apply forall₂_congr
  intro i _
  rw [Sys.withoutPin_desc]
  exact Nat.sub_pos_iff_lt

/-- The call starts as one of a scan that has found the system without its pin. -/
theorem scanInv (h : Serves st fn used t) :
    ScanInv (t.sys.withoutPin t.scan.curPage) t.scan.file fn used t.scan.curPage t.sys where
  table := h.table
  objects := (Sys.withoutPin_objects ..).symm
  numBufs := (Sys.withoutPin_numBufs ..).symm
  count i := by
    rw [Sys.withoutPin_desc]
    symm
    apply Nat.sub_add_cancel
    -- the pin that was taken off is put back
    split
    · next hcur => exact (h.held i hcur).2
    · exact Nat.zero_le _
  kept i _ := by
    rw [Sys.withoutPin_desc]
    exact ⟨rfl, rfl⟩
  file := by
    rw [Sys.withoutPin_streams]
    exact h.file.self
  current p i hp hi := by
    rw [Sys.withoutPin_streams]
    exact (h.file.shows p hp).of_both (h.current p i hp hi)
  writable i hv hpin hdirty := by
    rw [Sys.withoutPin_desc] at hpin
    rw [Sys.withoutPin_streams]
    exact h.writable i hv (Nat.le_of_sub_eq_zero hpin) hdirty

end Serves

/-! ## Where a call finds the pool full

A call comes to a page that is not in the pool before it comes to a record, and no frame is free: whether this is so
can be seen before the call. It does harm only when the scan has a page, since it is this page that is forgotten; a
scan without a page starts again where it was.
-/

/-- The pages that the next call goes on to, one after another, until it comes to a record. -/
def pagesAhead (used : List Nat) (scan : FileScan) : List Nat :=
  match scan.curPage with
  | some _ => (used.dropWhile fun p => p != scan.filePageIter).tail
  | none => if scan.filePageIter = invalidNumber then [] else used

/-- The next call comes to a page that is not in the pool before it comes to a record, and every frame is
pinned by others than the scan. -/
structure Blocked (fn : FileName) (used : List Nat) (t : Scanning D) : Prop where
  full : Full t.sys t.scan.curPage
  last : ∀ i, t.scan.curPage = some i →
    (t.sys.frame i).recordsAfter t.scan.pageRecordIter.currentRecord.slotNumber = []
  misses : Misses t.sys t.scan.file fn (pagesAhead used t.scan)

/-- It is blocked, and the scan has a page to give back. -/
structure Stuck (fn : FileName) (used : List Nat) (t : Scanning D) : Prop where
  started : t.scan.curPage ≠ none
  blocked : Blocked fn used t

/-- Where a scan of the relation `st` is between two calls, and the records that it has still to return. -/
inductive Where (st : FStream D) (f : Nat) (used : List Nat) :
    List (RecordId × List UInt8) → FileScan → Prop
  | start {q : Nat} (iter : PageIterator) (some : used ≠ []) (ahead : q ≠ 0) :
      Where st f used (st.liveRecords used) (away f q iter)
  | page (i n : Nat) {p : Nat} {l₁ l₂ : List Nat} (split : used = l₁ ++ p :: l₂) :
      Where st f used (((st.page p).recordsAfter n).map (onPage p) ++ st.liveRecords l₂) (atSlot f i p n)
  | ended (iter : PageIterator) : Where st f used [] (away f 0 iter)

section Calls

variable {st : FStream D} {s₀ s : Sys D} {f p : Nat} {fn : FileName} {used l₁ l₂ : List Nat}
  {rest : List (RecordId × List UInt8)} {scan : FileScan} {t : Scanning D}

omit [DataArea D] in
theorem pagesAhead_atSlot (hnodup : used.Nodup) (split : used = l₁ ++ p :: l₂) (i n : Nat) :
    pagesAhead used (atSlot f i p n) = l₂ := by
  subst split
  have hp : p ∉ l₁ := fun hp => (List.nodup_append.mp hnodup).2.2 p hp p List.mem_cons_self rfl
  -- the pages before the one that the scan is at are other pages
  have hfront : ∀ q ∈ l₁, (q != p) = true := by
    intro q hq
    rw [bne_iff_ne]
    rintro rfl
    exact hp hq
  show (List.dropWhile (fun q => q != p) (l₁ ++ p :: l₂)).tail = l₂
  rw [List.dropWhile_append_of_pos hfront, List.dropWhile_cons, if_neg (by simp)]
  rfl

theorem misses_withoutPin (cur : Option Nat) (l : List Nat) :
    Misses (s.withoutPin cur) f fn l ↔ Misses s f fn l := by
  induction l with
  | nil => exact Iff.rfl
  | cons p l ih =>
      rw [Misses, Misses, Sys.withoutPin_entry, Sys.withoutPin_streams, ih]

/-- A call leaves the scan at one of these places. -/
theorem Position.place (hplace : InPlace st used (s₀.streams fn)) (h : Position s₀ f fn used rest t) :
    Where st f used rest t.scan := by
  cases h with
  -- an empty file has no record, and the scan of it is at the end
  | @start s iter inv =>
      rw [hplace.liveRecords fun _ hp => hp]
      rcases used with _ | ⟨p, l⟩
      · exact .ended iter
      · exact .start iter (List.cons_ne_nil p l) (Seg.ne_null inv.file.chain List.mem_cons_self)
  | @page s i p n l₁ l₂ split inv entry =>
      have hp : p ∈ used := by simp [split]
      have hl : ∀ q ∈ l₂, q ∈ used := by
        intro q hq
        simp [split, hq]
      have hshows := (hplace.shows p hp).trans (inv.current p i hp entry)
      rw [hplace.liveRecords hl, hshows.recordsAfter n]
      exact .page i n split
  | ended iter inv => exact .ended iter

/-- **What a call does**, wherever the scan is: it goes on, or it is blocked. -/
theorem Where.outcome {rounds : Nat} (h : Where st f used rest scan) (hs : Serves st fn used ⟨scan, s⟩)
    (hrounds : used.length ≤ rounds) :
    Outcome (s.withoutPin scan.curPage) f fn used (Blocked fn used ⟨scan, s⟩) rest (scanNext rounds)
      ⟨scan, s⟩ := by
  have ho := hs.opened
  have hinv := hs.scanInv
  have hchain := hs.file.chain
  have hlive : ∀ l, (∀ p ∈ l, p ∈ used) → (s.streams fn).liveRecords l = st.liveRecords l :=
    fun l hl => hs.file.liveRecords hl
  cases h with
  -- a scan without a page comes to the first record of the file
  | @start q iter hused hq =>
      have houtcome := scanNext_start ho hrounds hinv hused hq iter
      rw [Sys.withoutPin_streams, hlive used fun _ hp => hp] at houtcome
      apply Outcome.of_eq rfl _ houtcome
      rw [Serves.full_iff ⟨away f q iter, s⟩, misses_withoutPin]
      have hahead : pagesAhead used (away f q iter) = used := if_neg hq
      constructor
      · rintro ⟨hfull, -, hmisses⟩
        rw [hahead] at hmisses
        exact ⟨hfull, hmisses⟩
      · rintro ⟨hfull, hmisses⟩
        refine ⟨hfull, nofun, ?_⟩
        rw [hahead]
        exact hmisses
  -- a scan with a page comes to the records behind its slot first
  | @page i n p l₁ l₂ split =>
      have hentry := (hs.held i rfl).1
      have hp : p ∈ used := by simp [split]
      have houtcome := scanNext_page ho hrounds split hinv hentry n
      rw [Sys.withoutPin_streams, hlive l₂ fun q hq => by simp [split, hq]] at houtcome
      have hrecords := (hs.current p i hp hentry).recordsAfter n
      rw [← hrecords]
      apply Outcome.of_eq rfl _ houtcome
      rw [Serves.full_iff ⟨atSlot f i p n, s⟩, misses_withoutPin]
      have hahead : pagesAhead used (atSlot f i p n) = l₂ :=
        pagesAhead_atSlot (Chain.nodup hchain) split i n
      constructor
      · rintro ⟨hfull, hlast, hmisses⟩
        rw [hahead] at hmisses
        exact ⟨hfull, hlast i rfl, hmisses⟩
      · rintro ⟨hfull, hlast, hmisses⟩
        refine ⟨hfull, fun j hj => ?_, ?_⟩
        · cases hj
          exact hlast
        · rw [hahead]
          exact hmisses
  | ended iter =>
      apply Outcome.of_delivers fun hblocked => hblocked.misses
      exact ⟨iter, s, rfl, hinv⟩

theorem Where.file_eq (h : Where st f used rest scan) : scan.file = f := by
  cases h <;> rfl

/-- A scan without a page that is blocked has all records still to return. -/
theorem Where.eq_all (h : Where st f used rest scan) (hcur : scan.curPage = none)
    (hblocked : Blocked fn used ⟨scan, s⟩) : rest = st.liveRecords used := by
  cases h with
  | start => rfl
  | page => cases hcur
  | ended => exact absurd hblocked.misses id

end Calls

end FileScan

/-! ## Runs

The caller has the scan, the system and the ids that it has been given. That a scan goes on is asked for every pool
that would serve it, so that what the pool does next does not matter.
-/

/-- A scan and its system, with the ids that the calls of `scanNext` have returned so far. -/
structure Caller (D : Type) where
  scan : FileScan
  sys : Sys D
  returned : List RecordId

/-- What happens next: a call of `scanNext`, or others change the system. -/
inductive CallerStep (D : Type) where
  | scanNext (rounds : Nat)
  | others (sys : Sys D)

namespace Caller

open FileScan

def scanning (c : Caller D) : Scanning D := ⟨c.scan, c.sys⟩

def after (c : Caller D) : CallerStep D → Caller D
  | .scanNext rounds =>
    match FileScan.scanNext rounds c.scanning with
    | (.ok rid, t) => ⟨t.scan, t.sys, c.returned ++ [rid]⟩
    | (.error _, t) => ⟨t.scan, t.sys, c.returned⟩
  | .others sys => { c with sys := sys }

/-- The steps considered: a call is made in a system that serves the scan, and its loop may go to the end. -/
def Ok (st : FStream D) (fn : FileName) (used : List Nat) (c : Caller D) : CallerStep D → Prop
  | .scanNext rounds => Serves st fn used c.scanning ∧ used.length ≤ rounds
  | .others _ => True

/-- Among them, those that are no call of a scan that is stuck. -/
def Unstuck (fn : FileName) (used : List Nat) (c : Caller D) : CallerStep D → Prop
  | .scanNext _ => ¬ Stuck fn used c.scanning
  | .others _ => True

/-- The call `x` returns the first of the records `rest`, or finds that there is none. -/
def Returns (rest : List (RecordId × List UInt8)) (x : Prog Exn (Scanning D) RecordId) (t : Scanning D) :
    Prop :=
  match rest with
  | [] => (x t).1 = .error (.throw .endOfFile)
  | r :: _ => (x t).1 = .ok r.1 ∧ (getRecord (x t).2).1 = .ok r.2

/-- The scan has returned the records of the relation up to some place, each of them once, and whatever has
become of the pool, it goes on from there as soon as a frame is free. -/
structure Resumes (st : FStream D) (fn : FileName) (used : List Nat) (c : Caller D) : Prop where
  returned : c.returned = ((st.liveRecords used).take c.returned.length).map Prod.fst
  once : c.returned.Nodup
  next : ∀ sys rounds, Serves st fn used ⟨c.scan, sys⟩ → used.length ≤ rounds → ¬ Full sys c.scan.curPage →
    Returns ((st.liveRecords used).drop c.returned.length) (FileScan.scanNext rounds) ⟨c.scan, sys⟩
  full : ∀ sys rounds, Serves st fn used ⟨c.scan, sys⟩ → used.length ≤ rounds →
    Returns ((st.liveRecords used).drop c.returned.length) (FileScan.scanNext rounds) ⟨c.scan, sys⟩ ∨
      (FileScan.scanNext rounds ⟨c.scan, sys⟩).1 = .error (.throw .bufferExceeded)

/-- The scan is in front of the records of the relation that have not been returned. -/
structure Inv (st : FStream D) (f : Nat) (used : List Nat) (c : Caller D) : Prop where
  place : ∃ done rest, st.liveRecords used = done ++ rest ∧ c.returned = done.map Prod.fst ∧
    Where st f used rest c.scan
  begun : c.scan.curPage ≠ none → c.returned ≠ []

section Steps

variable {st : FStream D} {s₀ : Sys D} {f rounds : Nat} {fn : FileName} {used : List Nat}
  {done rest : List (RecordId × List UInt8)} {c : Caller D}

theorem returns_of_delivers {t : Scanning D} {x : Prog Exn (Scanning D) RecordId}
    (h : Delivers s₀ f fn used rest x t) : Returns rest x t := by
  cases rest with
  | nil =>
      obtain ⟨iter, s, hr, -⟩ := h
      show (x t).1 = _
      rw [hr]
  | cons r rest =>
      obtain ⟨u, hr, -, hrecord⟩ := h
      show (x t).1 = _ ∧ (getRecord (x t).2).1 = _
      rw [hr, hrecord]
      exact ⟨rfl, rfl⟩

/-- A call that goes on. -/
theorem inv_delivered (hsplit : st.liveRecords used = done ++ rest) (hdone : c.returned = done.map Prod.fst)
    (hplace : InPlace st used (s₀.streams fn))
    (h : Delivers s₀ f fn used rest (FileScan.scanNext rounds) c.scanning) :
    Inv st f used (c.after (.scanNext rounds)) := by
  unfold after
  dsimp only
  cases rest with
  | nil =>
      obtain ⟨iter, s, hr, -⟩ := h
      rw [hr]
      exact ⟨⟨done, [], hsplit, hdone, .ended iter⟩, fun hcur => absurd rfl hcur⟩
  | cons r rest =>
      obtain ⟨u, hr, hu, -⟩ := h
      rw [hr]
      refine ⟨⟨done ++ [r], rest, ?_, ?_, hu.place hplace⟩, fun _ => by simp⟩
      · rw [hsplit, List.append_assoc]
        rfl
      · show c.returned ++ [r.1] = _
        rw [hdone, List.map_append]
        rfl

/-- A call that is blocked leaves the scan in front of the first page. -/
theorem after_exceeded (h : Exceeds s₀ f fn used (FileScan.scanNext rounds) c.scanning) :
    ∃ p iter s, p ∈ used ∧ ScanInv s₀ f fn used none s ∧
      c.after (.scanNext rounds) = ⟨away f p iter, s, c.returned⟩ := by
  obtain ⟨p, iter, s, hp, hr, hs⟩ := h
  refine ⟨p, iter, s, hp, hs, ?_⟩
  unfold after
  dsimp only
  rw [hr]

/-- **What one step keeps**, if it is no call of a scan that is stuck. -/
theorem inv_after (h : c.Inv st f used) {e : CallerStep D} (hok : c.Ok st fn used e)
    (hunstuck : c.Unstuck fn used e) : Inv st f used (c.after e) := by
  cases e with
  | others sys => exact ⟨h.place, h.begun⟩
  | scanNext rounds =>
      obtain ⟨hs, hrounds⟩ := hok
      obtain ⟨done, rest, hsplit, hdone, hwhere⟩ := h.place
      have houtcome := hwhere.outcome hs hrounds
      have hplace : InPlace st used ((c.sys.withoutPin c.scan.curPage).streams fn) := by
        rw [Sys.withoutPin_streams]
        exact hs.file
      by_cases hblocked : Blocked fn used c.scanning
      · -- the scan has no page, and starts again; it has not returned a record yet
        have hcur : c.scan.curPage = none := by
          by_contra hcur
          exact hunstuck ⟨hcur, hblocked⟩
        obtain ⟨p, iter, s, hp, hinv, hafter⟩ := after_exceeded (houtcome.exceeds hblocked)
        rw [hafter]
        refine ⟨⟨done, rest, hsplit, hdone, ?_⟩, fun hcur => absurd rfl hcur⟩
        rw [hwhere.eq_all hcur hblocked]
        exact .start iter (List.ne_nil_of_mem hp) (Seg.ne_null hinv.file.chain hp)
      · -- the call has returned a record, or has found the end
        exact inv_delivered hsplit hdone hplace (houtcome.delivers hblocked)

/-- What the place of the scan says of the next call. -/
theorem resumes_of_inv (hnodup : ((st.liveRecords used).map Prod.fst).Nodup) (h : c.Inv st f used) :
    c.Resumes st fn used := by
  obtain ⟨done, rest, hsplit, hdone, hwhere⟩ := h.place
  have hlength : c.returned.length = done.length := by rw [hdone, List.length_map]
  constructor
  case returned => rw [hlength, hsplit, List.take_left, hdone]
  case once =>
    rw [hsplit, List.map_append] at hnodup
    rw [hdone]
    exact (List.nodup_append.mp hnodup).1
  case next =>
    intro sys rounds hs hrounds hroom
    rw [hlength, hsplit, List.drop_left]
    have houtcome := hwhere.outcome hs hrounds
    exact returns_of_delivers (houtcome.delivers fun hblocked => hroom hblocked.full)
  case full =>
    intro sys rounds hs hrounds
    rw [hlength, hsplit, List.drop_left]
    have houtcome := hwhere.outcome hs hrounds
    -- the call returns, or it finds the pool full
    by_cases hblocked : Blocked fn used ⟨c.scan, sys⟩
    · obtain ⟨p, iter, s, -, hr, -⟩ := houtcome.exceeds hblocked
      right
      rw [hr]
    · exact Or.inl (returns_of_delivers (houtcome.delivers hblocked))

/-- A pool in which nothing is left serves a scan that has no page. -/
theorem serves_fresh {s : Sys D} {p : Nat} {iter : PageIterator} (ho : Opened s₀ f fn)
    (hplace : InPlace st used (s₀.streams fn)) (h : ScanInv s₀ f fn used none s) :
    Serves st fn used ⟨away f p iter, { s with mgr := .new s.numBufs }⟩ where
  table := by
    have hpos : 1 ≤ s.numBufs := Nat.zero_lt_of_lt h.table.pool.hand
    exact ⟨(pinInv_new s.objects s.streams hpos).pool, fun _ hv => by cases hv⟩
  size := by
    show 2 * s.numBufs < 2 ^ 32
    rw [h.numBufs]
    exact ho.size
  object := by
    have hobject := object_scan ho h
    exact hobject
  same := by
    show ∀ a b oa ob, s.objects a = some oa → s.objects b = some ob → _
    rw [h.objects]
    exact ho.same
  file := hplace.trans h.file
  current p i _ hi := by cases hi
  held i hi := by cases hi
  writable i hv := by cases hv

/-- **A call of a scan that is stuck** leaves it in front of the first page, and the next one returns a record
that has been returned. -/
theorem not_resumes_of_stuck (hnodup : ((st.liveRecords used).map Prod.fst).Nodup) (h : c.Inv st f used)
    (hok : c.Ok st fn used (.scanNext rounds)) (hstuck : Stuck fn used c.scanning) :
    ¬ Resumes st fn used (c.after (.scanNext rounds)) := by
  intro hresumes
  obtain ⟨hs, hrounds⟩ := hok
  obtain ⟨done, rest, hsplit, hdone, hwhere⟩ := h.place
  have hplace : InPlace st used ((c.sys.withoutPin c.scan.curPage).streams fn) := by
    rw [Sys.withoutPin_streams]
    exact hs.file
  have ho := hs.opened
  rw [show c.scanning.scan.file = f from hwhere.file_eq] at ho
  obtain ⟨p, iter, s, hp, hinv, hafter⟩ :=
    after_exceeded ((hwhere.outcome hs hrounds).exceeds hstuck.blocked)
  rw [hafter] at hresumes
  -- the pool is emptied, and the scan is called again
  have hfresh : Serves st fn used ⟨away f p iter, { s with mgr := .new s.numBufs }⟩ :=
    serves_fresh ho hplace hinv
  have hroom : ¬ Full ({ s with mgr := .new s.numBufs } : Sys D) none := fun hfull =>
    absurd (hfull 0 (Nat.zero_lt_of_lt hinv.table.pool.hand)) (Nat.lt_irrefl 0)
  have hagain := hresumes.next _ used.length hfresh (Nat.le_refl _) hroom
  have hstart : Where st f used (st.liveRecords used) (away f p iter) :=
    .start iter (List.ne_nil_of_mem hp) (Seg.ne_null hinv.file.chain hp)
  have hfirst := returns_of_delivers
    ((hstart.outcome hfresh (Nat.le_refl _)).delivers fun hblocked => hroom hblocked.full)
  have hlength : c.returned.length = done.length := by rw [hdone, List.length_map]
  rw [hlength, hsplit, List.drop_left] at hagain
  rw [hsplit] at hfirst hnodup
  -- the scan had a page, so it had returned a record, and the first one comes again
  rcases done with _ | ⟨d, done⟩
  · exact h.begun hstuck.started hdone
  · -- either no record was to come, or a later one than the first
    cases rest with
    | nil =>
        have hend : (.ok d.1 : Except (Exit Exn) RecordId) = .error (.throw .endOfFile) :=
          hfirst.1.symm.trans hagain
        cases hend
    | cons r rest =>
        have hsame : (.ok d.1 : Except (Exit Exn) RecordId) = .ok r.1 := hfirst.1.symm.trans hagain.1
        have hmem : r.1 ∈ (done ++ r :: rest).map Prod.fst := List.mem_map.mpr ⟨r, by simp, rfl⟩
        rw [← Except.ok.inj hsame] at hmem
        exact (List.nodup_cons.mp hnodup).1 hmem

end Steps

/-- **A scan goes on after every exception** in just those runs in which it is not called while it is
stuck. -/
theorem resumes_iff {f : Nat} {fn : FileName} {used : List Nat} {w w' : World D} {scan : FileScan}
    (hopen : construct f fn w = (.ok scan, w')) (hrelation : (w'.sys.streams fn).Relation used)
    {steps : List (CallerStep D)}
    (hok : Run.AllOk (Ok (w'.sys.streams fn) fn used) after ⟨scan, w'.sys, []⟩ steps) :
    Run.Always (Resumes (w'.sys.streams fn) fn used) after ⟨scan, w'.sys, []⟩ steps ↔
      Run.AllOk (Unstuck fn used) after ⟨scan, w'.sys, []⟩ steps := by
  have hnodup : (((w'.sys.streams fn).liveRecords used).map Prod.fst).Nodup :=
    FStream.liveRecords_nodup (Chain.nodup hrelation.chain)
  obtain ⟨iter, rfl⟩ := construct_away hopen hrelation
  have hstart : Inv (w'.sys.streams fn) f used ⟨away f (used.headD 0) iter, w'.sys, []⟩ := by
    refine ⟨⟨[], _, rfl, rfl, ?_⟩, fun hcur => absurd rfl hcur⟩
    rcases used with _ | ⟨p, l⟩
    · exact .ended iter
    · exact .start iter (List.cons_ne_nil p l) (Seg.ne_null hrelation.chain List.mem_cons_self)
  apply Run.always_iff (I := Inv (w'.sys.streams fn) f used) (fun c hc => resumes_of_inv hnodup hc) _ _
    hstart hok
  · -- a step that is not one of a stuck scan keeps the invariant, and one of a stuck scan ends it
    exact fun c e hc hok hunstuck => inv_after hc hok hunstuck
  · intro c e hc hok hresumes
    cases e with
    | others sys => trivial
    | scanNext rounds => exact fun hstuck => not_resumes_of_stuck hnodup hc hok hstuck hresumes

/-! ## Two frames

With two frames and two relations the pool can be filled by others with a page of the second relation pinned twice,
or with a page of the first one that another client has left pinned. The pool of both cases is the same up to two
addresses and the pins.
-/

/-- An empty pool of two frames. -/
def noPages : Sys CharArea := ⟨fun _ => none, fun _ => twoPages Page.init Page.init, .new 2⟩

/-- Frame `0` holds page `1` of the object at `a`. -/
def onePage (a : Nat) : Sys CharArea :=
  ((noPages.setFrame 0 Page.init).setDesc 0 (BufDesc.set a 1)).putEntry a 1 0

/-- Besides, frame `1` holds page `1` of the object at `b`. -/
def bothPages (a b : Nat) : Sys CharArea :=
  (((onePage a).setFrame 1 Page.init).setDesc 1 (BufDesc.set b 1)).putEntry b 1 1

theorem entry_onePage (a f p : Nat) :
    (onePage a).entry f p = if f = a ∧ p = 1 then some 0 else none :=
  Sys.entry_putEntry (s := (noPages.setFrame 0 Page.init).setDesc 0 (BufDesc.set a 1)) 0 f p rfl

section Both

variable {a b : Nat} (hab : a ≠ b)

include hab

theorem onePage_none : (onePage a).entry b 1 = none := by
  rw [entry_onePage, if_neg fun heq => hab heq.1.symm]

theorem entry_bothPages (f p : Nat) : (bothPages a b).entry f p =
    if f = b ∧ p = 1 then some 1 else if f = a ∧ p = 1 then some 0 else none := by
  rw [← entry_onePage]
  exact Sys.entry_putEntry 1 f p (onePage_none hab)

/-- A pool of two frames with these pages, none of them dirty, as a scan of `f` is to find it. -/
theorem serves_bothPages {scan : FileScan} {s : Sys CharArea} {st : FStream CharArea}
    (htable : s.mgr.hashTable = (bothPages a b).mgr.hashTable) (hsize : s.numBufs = 2)
    (hhand : s.clockHand < 2) (hfirst : ∃ pins bit, s.desc 0 = ⟨a, 1, 0, pins, false, true, bit⟩)
    (hsecond : ∃ pins bit, s.desc 1 = ⟨b, 1, 1, pins, false, true, bit⟩)
    (hother : ∀ i, s.desc (i + 2) = noPages.desc (i + 2))
    (hobject : s.objects scan.file = some ⟨.page, "f"⟩)
    (hobjects : ∀ x o, s.objects x = some o → o = ⟨.page, "f"⟩ ∨ o = ⟨.page, "g"⟩)
    (hrelation : st.Relation [1, 2]) (hstream : s.streams "f" = st)
    (hcurrent : scan.file = a → s.frame 0 = st.page 1) (hfile : scan.file ≠ b)
    (hheld : ∀ i, scan.curPage = some i →
      scan.file = a ∧ scan.filePageIter = 1 ∧ i = 0 ∧ 0 < (s.desc 0).pinCnt) :
    Serves st "f" [1, 2] ⟨scan, s⟩ := by
  obtain ⟨pins, bit, hfirst⟩ := hfirst
  obtain ⟨pins', bit', hsecond⟩ := hsecond
  have hentry : ∀ f p, s.entry f p =
      if f = b ∧ p = 1 then some 1 else if f = a ∧ p = 1 then some 0 else none := by
    intro f p
    rw [Sys.entry, htable]
    exact entry_bothPages hab f p
  constructor
  case table =>
    -- the two pages in use, and the frames outside the pool as in a new one
    apply tableInv_of_frames (n := 2) (Nat.le_of_eq hsize.symm)
    · rw [hsize]
      exact hhand
    · rintro (_ | _ | i)
      · rw [hfirst]
      · rw [hsecond]
      · rw [hother]
        rfl
    · rintro (_ | _ | i) hi
      · rw [hfirst]
      · rw [hsecond]
      · omega
    · rintro (_ | _ | i) hi
      · omega
      · omega
      · rw [hother]
        exact ⟨rfl, rfl⟩
    · intro f p i
      rw [hentry]
      rcases i with _ | _ | i
      · rw [hfirst]
        grind
      · rw [hsecond]
        grind
      · grind
  case size =>
    show 2 * s.numBufs < 2 ^ 32
    rw [hsize]
    decide
  case object => exact hobject
  case same =>
    intro x y ox oy hx hy hname
    rcases hobjects x ox hx with rfl | rfl <;> rcases hobjects y oy hy with rfl | rfl
    · rfl
    · exact absurd hname (by decide)
    · exact absurd hname (by decide)
    · rfl
  case file =>
    show InPlace st [1, 2] (s.streams "f")
    rw [hstream]
    exact InPlace.refl hrelation
  case current =>
    intro p i hp hi
    have hi := (hentry scan.file p).symm.trans hi
    rw [if_neg fun heq => hfile heq.1] at hi
    split at hi
    · next heq =>
        cases hi
        show Page.Shows (st.page p) p (s.frame 0)
        rw [hcurrent heq.1, heq.2]
        exact (InPlace.refl hrelation).shows 1 (by simp)
    · cases hi
  case held =>
    intro i hi
    obtain ⟨hf, hp, rfl, hpin⟩ := hheld i hi
    refine ⟨(hentry scan.file scan.filePageIter).trans ?_, hpin⟩
    rw [if_neg fun heq => hfile heq.1, if_pos ⟨hf, hp⟩]
  case writable =>
    rintro (_ | _ | i) _ _ (hdirty : (s.desc _).dirty = true)
    · rw [hfirst] at hdirty
      cases hdirty
    · rw [hsecond] at hdirty
      cases hdirty
    · rw [hother] at hdirty
      cases hdirty

end Both

/-- Two relations, and a pool of two frames. -/
def twoRelations : ScanState CharArea :=
  .new (fun _ => twoPages (recordPage [2]) deletedFirst) (fun name => name == "f" || name == "g") 2

/-- A scan of `f` has been created, with its object at address `1`. -/
def newScan (s : ScanState CharArea) : Caller CharArea :=
  ⟨away 1 1 ⟨none, ⟨invalidNumber, invalidSlot⟩⟩, (construct 1 "f" s.world).2.sys, []⟩

/-- The client with the object at address `2` gives back its page. -/
def givenBack (c : Caller CharArea) : Sys CharArea := (P3.BufMgr.unPinPage 2 1 false c.sys).2

/-- Two clients have pinned the first page of `g`, through an object each. -/
def pinnedTwice : List (ScanEvent CharArea) :=
  [.openFile 3 .page "g" false, .call (.readPage 3 1), .openFile 2 .page "g" false, .call (.readPage 2 1)]

def refusedScan : Caller CharArea := newScan (pinnedTwice.foldl ScanState.after twoRelations)

/-- The first call of the scan is refused, and made again when a page has been given back. -/
theorem resumes_refused :
    let c := refusedScan
    let steps : List (CallerStep CharArea) :=
      [.scanNext 2, .others (givenBack (c.after (.scanNext 2))), .scanNext 2]
    (FileScan.scanNext 2 c.scanning).1 = .error (.throw .bufferExceeded) ∧
      (steps.foldl after c).returned = [⟨1, 1⟩] ∧
      Run.Always (Resumes (c.sys.streams "f") "f" [1, 2]) after c steps := by
  have hopen : construct 1 "f" (pinnedTwice.foldl ScanState.after twoRelations).world =
      (.ok refusedScan.scan, (construct 1 "f" (pinnedTwice.foldl ScanState.after twoRelations).world).2) :=
    Prod.ext (by rfl) rfl
  have hrelation : (refusedScan.sys.streams "f").Relation [1, 2] :=
    relation_twoPages readable_recordPage readable_deletedFirst
  have hobjects : ∀ a o, refusedScan.sys.objects a = some o → o = ⟨.page, "f"⟩ ∨ o = ⟨.page, "g"⟩ := by
    intro a o ho
    have ho : Function.update (Function.update (Function.update (fun _ => none) 3 (some ⟨.page, "g"⟩)) 2
      (some ⟨.page, "g"⟩)) 1 (some ⟨.page, "f"⟩) a = some o := ho
    simp only [Function.update_apply] at ho
    grind
  have hfirst : Serves (refusedScan.sys.streams "f") "f" [1, 2] refusedScan.scanning :=
    serves_bothPages (a := 3) (b := 2) (by decide) rfl rfl (by decide) ⟨1, true, rfl⟩ ⟨1, true, rfl⟩
      (fun _ => rfl) rfl hobjects hrelation rfl (fun h => absurd h (by decide)) (by decide) fun _ h => by cases h
  have hagain : Serves (refusedScan.sys.streams "f") "f" [1, 2]
      ⟨(refusedScan.after (.scanNext 2)).scan, givenBack (refusedScan.after (.scanNext 2))⟩ :=
    serves_bothPages (a := 3) (b := 2) (by decide) rfl rfl (by decide) ⟨1, false, rfl⟩ ⟨0, false, rfl⟩
      (fun _ => rfl) rfl hobjects hrelation rfl (fun h => absurd h (by decide)) (by decide) fun _ h => by cases h
  have hok : Run.AllOk (Ok (refusedScan.sys.streams "f") "f" [1, 2]) after refusedScan
      [.scanNext 2, .others (givenBack (refusedScan.after (.scanNext 2))), .scanNext 2] :=
    ⟨⟨hfirst, Nat.le_refl 2⟩, trivial, ⟨hagain, Nat.le_refl 2⟩, trivial⟩
  refine ⟨by decide +kernel, by decide +kernel, (resumes_iff hopen hrelation hok).mpr ?_⟩
  exact ⟨fun hstuck => hstuck.started rfl, trivial, fun hstuck => hstuck.started (by decide +kernel), trivial⟩

/-- A client has deleted its object of `f` with the first page still pinned, and another one has pinned a
page of `g`. -/
def pinLeft : List (ScanEvent CharArea) :=
  [.openFile 1 .page "f" false, .call (.readPage 1 1), .closeFile 1, .openFile 2 .page "g" false,
    .call (.readPage 2 1)]

/-- The scan has its object where the deleted one was. -/
def stuckScan : Caller CharArea := newScan (pinLeft.foldl ScanState.after twoRelations)

/-- The second call of the scan is refused, and when a page of `g` has been given back, the next one returns
the first record again. -/
theorem resumes_again :
    let s := pinLeft.foldl ScanState.after twoRelations
    let c := stuckScan
    let c₂ := (c.after (.scanNext 2)).after (.scanNext 2)
    let c₃ := c₂.after (.others (givenBack c₂))
    Run (Run.guarded ScanState.Ok ScanState.after) twoRelations pinLeft s ∧
      (∃ w, construct 1 "f" s.world = (.ok c.scan, w) ∧ c.sys = w.sys) ∧
      (c.sys.streams "f").Relation [1, 2] ∧
      (c.sys.streams "f").liveRecords [1, 2] = [(⟨1, 1⟩, [2]), (⟨2, 2⟩, [5, 6])] ∧
      Run.AllOk (Ok (c.sys.streams "f") "f" [1, 2]) after c [.scanNext 2, .scanNext 2] ∧
      (FileScan.scanNext 2 (c.after (.scanNext 2)).scanning).1 = .error (.throw .bufferExceeded) ∧
      (c₃.sys.desc 1).pinCnt = 0 ∧ (c₃.after (.scanNext 2)).returned = [⟨1, 1⟩, ⟨1, 1⟩] ∧
      ¬ Run.Always (Resumes (c.sys.streams "f") "f" [1, 2]) after c [.scanNext 2, .scanNext 2] := by
  have hrun : Run (Run.guarded ScanState.Ok ScanState.after) twoRelations pinLeft
      (pinLeft.foldl ScanState.after twoRelations) := by
    apply Run.of_allOk
    refine ⟨⟨trivial, by decide, rfl⟩, ⟨trivial, rfl⟩, ⟨trivial, rfl, fun _ _ h => by cases h⟩,
      ⟨trivial, by decide, rfl⟩, ⟨trivial, rfl⟩, trivial⟩
  have hopen : construct 1 "f" (pinLeft.foldl ScanState.after twoRelations).world =
      (.ok stuckScan.scan, (construct 1 "f" (pinLeft.foldl ScanState.after twoRelations).world).2) :=
    Prod.ext (by rfl) rfl
  have hrelation : (stuckScan.sys.streams "f").Relation [1, 2] :=
    relation_twoPages readable_recordPage readable_deletedFirst
  have hnodup : (((stuckScan.sys.streams "f").liveRecords [1, 2]).map Prod.fst).Nodup :=
    FStream.liveRecords_nodup (Chain.nodup hrelation.chain)
  have hobjects : ∀ a o, stuckScan.sys.objects a = some o → o = ⟨.page, "f"⟩ ∨ o = ⟨.page, "g"⟩ := by
    intro a o ho
    have ho : Function.update (Function.update (Function.update (Function.update (fun _ => none) 1
      (some ⟨.page, "f"⟩)) 1 none) 2 (some ⟨.page, "g"⟩)) 1 (some ⟨.page, "f"⟩) a = some o := ho
    simp only [Function.update_apply] at ho
    grind
  have hfirst : Serves (stuckScan.sys.streams "f") "f" [1, 2] stuckScan.scanning :=
    serves_bothPages (a := 1) (b := 2) (by decide) rfl rfl (by decide) ⟨1, true, rfl⟩ ⟨1, true, rfl⟩
      (fun _ => rfl) rfl hobjects hrelation rfl (fun _ => rfl) (by decide) fun _ h => by cases h
  have hheld : ∀ i, (stuckScan.after (.scanNext 2)).scan.curPage = some i →
      (stuckScan.after (.scanNext 2)).scan.file = 1 ∧ (stuckScan.after (.scanNext 2)).scan.filePageIter = 1 ∧
        i = 0 ∧ 0 < ((stuckScan.after (.scanNext 2)).sys.desc 0).pinCnt := by
    intro i hi
    cases hi
    exact ⟨rfl, rfl, rfl, by decide⟩
  have hsecond : Serves (stuckScan.sys.streams "f") "f" [1, 2] (stuckScan.after (.scanNext 2)).scanning :=
    serves_bothPages (a := 1) (b := 2) (by decide) rfl rfl (by decide) ⟨2, true, rfl⟩ ⟨1, true, rfl⟩
      (fun _ => rfl) rfl hobjects hrelation rfl (fun _ => rfl) (by decide) hheld
  have hok : Run.AllOk (Ok (stuckScan.sys.streams "f") "f" [1, 2]) after stuckScan [.scanNext 2, .scanNext 2] :=
    ⟨⟨hfirst, Nat.le_refl 2⟩, ⟨hsecond, Nat.le_refl 2⟩, trivial⟩
  have hinv : Inv (stuckScan.sys.streams "f") 1 [1, 2] (stuckScan.after (.scanNext 2)) := by
    apply inv_after _ hok.1 fun hstuck => hstuck.started rfl
    exact ⟨⟨[], _, rfl, rfl, .start _ (List.cons_ne_nil 1 [2]) Nat.one_ne_zero⟩, fun h => absurd rfl h⟩
  have hstuck : Stuck "f" [1, 2] (stuckScan.after (.scanNext 2)).scanning := by
    refine ⟨nofun, ?_, ?_, Or.inl rfl⟩
    · rintro (_ | _ | i) hi
      · decide
      · decide
      · have hi : i + 2 < 2 := hi
        omega
    · intro i hi
      cases hi
      decide +kernel
  refine ⟨hrun, ⟨_, hopen, rfl⟩, hrelation, by decide +kernel, hok, by decide +kernel, by decide +kernel,
    by decide +kernel, ?_⟩
  exact fun halways => not_resumes_of_stuck hnodup hinv hok.2.1 hstuck halways.2.2

end Caller

end CS640.Badger
