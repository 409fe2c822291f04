import CS640.Badger.Scan.Complete
import CS640.Badger.Slotted.Appended
import CS640.Badger.File.UsedList

/-!
# Writing a relation and reading it back

`createRelationForward`, `createRelationBackward` and `createRelationRandom` of `main.cpp` write records
into a new file until a page is full, and go on with the next page; they differ in the order of the
records. `main` reads a relation with a `FileScan`, from the first record to `EndOfFileException`.

Main results: `readsBack_iff`, that this gives the records back in the order in which they were written,
unless one of them does not fit into an empty page; and `createRelationRandom_perm`, that every order has
the same records. The bytes of a `RECORD` with a given key are a parameter (`tuple`).

Three stages are taken one after another, each with an invariant of its own:

* `Filling`, while the file is written: the pages before the last one have the records that were written to them,
  and the last one is filled in memory. `insertTuple_filling` is one record, `fillRelation_written` a whole file.
* `Prepared`, of the world before: the conditions under which a `File` object can be made, written through and
  thrown away, and a second one read through.
* `FileScan.Position`, of `Scan.Complete`, while the records are read back (`readRecords_position`).
-/

namespace CS640.Badger

open CS640.Lib Prog FStream
open CS640.Badger.BufMgr

variable {D : Type} [DataArea D]

namespace Main

/-! ## Creating

`insertTuple` is the loop that a record goes through: it is tried on the page at hand, and where there is no room
that page is written and an empty one allocated. A record that an empty page cannot hold is tried for ever.
-/

/-- The loop around `insertRecord`, for at most the given number of rounds: a page without room for the
record is written, and a new one is allocated. -/
def insertTuple (fn : FileName) (newData : List UInt8) :
    (rounds : Nat) → Nat × Page D → Prog Exn (FStream D) (Nat × Page D)
  | 0, _ => exit .diverge
  | rounds + 1, (newPageNumber, newPage) =>
    match Page.insertRecord newData newPage with
    | (.ok _, newPage) => pure (newPageNumber, newPage)
    | (.error (.throw (.insufficientSpace _ _ _)), newPage) => do
      PageFile.writePage fn newPageNumber newPage
      let new ← PageFile.allocatePage fn
      insertTuple fn newData rounds new
    | (.error e, _) => exit e

/-- The loop over the records. -/
def insertTuples (fn : FileName) (rounds : Nat) :
    List (List UInt8) → Nat × Page D → Prog Exn (FStream D) (Nat × Page D)
  | [], new => pure new
  | newData :: data, new => do
    let new ← insertTuple fn newData rounds new
    insertTuples fn rounds data new

def fillRelation (fn : FileName) (rounds : Nat) (data : List (List UInt8)) :
    Prog Exn (FStream D) Unit := do
  let new ← PageFile.allocatePage fn
  let new ← insertTuples fn rounds data new
  PageFile.writePage fn new.1 new.2

/-- Destroy any old copies of the relation file. -/
def removeOld (relationName : FileName) : Prog Exn (World D) Unit :=
  Prog.tryCatch (File.remove relationName) fun
    | .fileNotFound _ => some (pure ())
    | _ => none

/-- What the three functions have in common, with the address of `file1`. -/
def createRelation (file : Nat) (relationName : FileName) (rounds : Nat) (data : List (List UInt8)) :
    Prog Exn (World D) Unit := do
  removeOld relationName
  File.construct file .page relationName true
  World.onSys (onFile file fun object => fillRelation object.filename rounds data)

/-- The values of `createRelationRandom` while `left` of them are left, `random i` being what the `i`-th
call of `random()` returns. -/
def shuffle (random : Nat → Nat) (relationSize : Nat) : (left : Nat) → (intvec : List Nat) → List Nat
  | 0, _ => []
  | left + 1, intvec =>
    let pos := random (relationSize - (left + 1)) % (left + 1)
    let val := intvec.getD pos 0
    let temp := intvec.getD left 0
    val :: shuffle random relationSize left ((intvec.set left val).set pos temp)

section Orders

variable (file : Nat) (relationName : FileName) (rounds : Nat) (tuple : Nat → List UInt8)
  (relationSize : Nat)

/-- `createRelationForward`. -/
def createRelationForward : Prog Exn (World D) Unit :=
  createRelation file relationName rounds ((List.range relationSize).map tuple)

/-- `createRelationBackward`. -/
def createRelationBackward : Prog Exn (World D) Unit :=
  createRelation file relationName rounds ((List.range relationSize).reverse.map tuple)

/-- `createRelationRandom`. -/
def createRelationRandom (random : Nat → Nat) : Prog Exn (World D) Unit :=
  createRelation file relationName rounds
    ((shuffle random relationSize relationSize (List.range relationSize)).map tuple)

end Orders

/-! ## Reading

`main` reads until `EndOfFileException`, which `tryCatch` turns into the end of the loop; any other exception leaves
it. The scan is a local variable, so its destructor runs however the loop ends.
-/

/-- The loop of `main` over a scan, for at most the given number of calls. -/
def readRecords (rounds : Nat) : (calls : Nat) → Prog Exn (Scanning D) (List (List UInt8))
  | 0 => exit .diverge
  | calls + 1 => do
    let more ← Prog.tryCatch (do let _scanRid ← FileScan.scanNext rounds; pure true) fun
      | .endOfFile => some (pure false)
      | _ => none
    if more = true then do
      let recordStr ← FileScan.getRecord
      let records ← readRecords rounds calls
      pure (recordStr :: records)
    else pure []

/-- The scope of a `FileScan`. -/
def withScan {α : Type} (file : Nat) (relationName : FileName) (body : Prog Exn (Scanning D) α) :
    Prog Exn (World D) α := do
  let fscan ← FileScan.construct file relationName
  let w ← get
  match body ⟨fscan, w.sys⟩ with
  | (.ok a, t) => do
    modify fun w => { w with sys := t.sys }
    FileScan.destroy t.scan
    pure a
  | (.error (.throw e), t) => do
    modify fun w => { w with sys := t.sys }
    FileScan.destroy t.scan
    throw e
  | (.error e, t) => do
    modify fun w => { w with sys := t.sys }
    exit e

/-- A relation is written through the `PageFile` at `file1`, and read through a scan whose `PageFile` is at
`file`. -/
def createAndRead (file1 file : Nat) (relationName : FileName) (rounds calls : Nat)
    (data : List (List UInt8)) : Prog Exn (World D) (List (List UInt8)) := do
  createRelation file1 relationName rounds data
  withScan file relationName (readRecords rounds calls)

/-! ## Pages

The pages that are written hold their records one after another (`Page.Appended`), and their header links are not
part of that: a page that is compared up to its links has the same records.
-/

section Pages

variable {p q : Page D} {data : List (List UInt8)}

theorem records_appended (h : p.Appended data) : p.records.map Prod.snd = data := by
  have hused : (List.range' 1 p.header.numSlots).filter (fun i => (p.slot i).used) =
      List.range' 1 p.header.numSlots := by
    -- all slots are used, so no record is passed over
    rw [List.filter_eq_self]
    intro n hn
    obtain ⟨hpos, hlt⟩ := List.mem_range'_1.mp hn
    obtain ⟨n, rfl⟩ := Nat.exists_eq_succ_of_ne_zero (Nat.ne_of_gt hpos)
    exact (h.holds n (by rw [← h.numSlots]; omega)).2.2
  rw [Page.records, Page.recordsAfter, Nat.sub_zero, hused, List.map_map]
  apply List.ext_getElem
  · simp [h.numSlots]
  · intro n _ hn
    simp [Nat.add_comm 1 n, h.record n hn]

/-- The link to the next page is not part of the records. -/
theorem appended_contents (h : p.contents.Appended data) : p.Appended data where
  tidy :=
    { counted :=
        { layout := h.tidy.counted.layout.renumber p.header.currentPageNumber p.header.nextPageNumber
          free := h.tidy.counted.free }
      last := h.tidy.last }
  numSlots := h.numSlots
  holds := h.holds
  record := h.record
  space := h.space
  blank := h.blank

/-- `q` has the readable records of `p`. -/
theorem readable_of_contents (h : p.Readable) (hsame : q.contents = p.contents) : q.Readable := by
  have hq : q.contents.Readable := by
    rw [hsame]
    exact ⟨h.slots, h.within⟩
  exact ⟨hq.slots, hq.within⟩

theorem records_of_contents (hsame : q.contents = p.contents) : q.records = p.records := by
  have hp : p.contents.records = p.records := rfl
  have hq : q.contents.records = q.records := rfl
  rw [← hp, ← hq, hsame]

end Pages

/-! ## The file

Three things are known of the file after every record: which pages are in use and in which order they are linked,
what records they hold, and that no page is free. So a page that is allocated is the last one, and its records come
after all others.
-/

/-- The pages `used` of a file have the records `data`. -/
structure Written (st : FStream D) (used : List Nat) (data : List (List UInt8)) : Prop where
  readable : ∀ p ∈ used, (st.page p).Readable
  records : (st.liveRecords used).map Prod.snd = data

/-- While the file is written: no page is free, the pages `used` have the records `before`, and page `n`,
the last one, is to have `data`. -/
structure Filling (st : FStream D) (used : List Nat) (new : Nat × Page D)
    (before data : List (List UInt8)) : Prop where
  owned : st.Owned []
  linked : st.Linked (used ++ [new.1])
  written : Written st used before
  number : new.2.pageNumber = new.1
  appended : new.2.Appended data

variable {st t : FStream D} {used : List Nat} {new : Nat × Page D} {before data : List (List UInt8)}
  (fn : FileName)

omit [DataArea D] in
theorem contents_of_stored [PageData D] {p : Nat} (h : st.Owned []) (h' : t.Owned []) {d : Page D}
    (hp : st.stored p = some d) (hp' : t.stored p = some d) :
    (t.page p).contents = (st.page p).contents := by
  rw [(h.of_stored hp).2.2.2.2, (h'.of_stored hp').2.2.2.2]

theorem Written.congr (h : Written st used data)
    (hsame : ∀ p ∈ used, (t.page p).contents = (st.page p).contents) : Written t used data where
  readable p hp := readable_of_contents (h.readable p hp) (hsame p hp)
  records := by
    rw [← h.records]
    congr 1
    -- the pages have the same contents, so each gives the same records
    apply List.flatMap_congr
    intro p hp
    rw [records_of_contents (hsame p hp)]

theorem Written.snoc {n : Nat} (h : Written st used before) (hreadable : (st.page n).Readable)
    (hrecords : (st.page n).records.map Prod.snd = data) : Written st (used ++ [n]) (before ++ data) where
  readable p hp := by
    rcases List.mem_append.mp hp with hp | hp
    · exact h.readable p hp
    · rwa [List.mem_singleton.mp hp]
  records := by
    rw [← h.records, ← hrecords, FStream.liveRecords, List.flatMap_append, List.map_append,
      List.flatMap_singleton, List.map_map]
    rfl

/-- The page at hand is written. -/
theorem Filling.write (h : Filling st used new before data) :
    ∃ t, PageFile.writePage fn new.1 new.2 st = (.ok (), t) ∧ t.Owned [] ∧ t.Linked (used ++ [new.1]) ∧
      Written t (used ++ [new.1]) (before ++ data) := by
  obtain ⟨n, pg⟩ := new
  have hmem : n ∈ used ++ [n] := by simp
  obtain ⟨d, hd⟩ := (h.linked.mem n).mp hmem
  -- the pages are linked, so none occurs twice and the last one is not among those before it
  have hnodup : n ∉ used := by
    have hnodup := Chain.nodup h.linked.chain
    rw [List.nodup_append] at hnodup
    intro hn
    exact hnodup.2.2 n hn n (by simp) rfl
  have hcall := PageFile.writePage_of_stored fn h.owned hd pg
  have hpage : ∀ p ∈ used, (st.put n (pg.setNextPageNumber (st.next n))).page p = st.page p := by
    intro p hp
    apply put_page_of_ne
    rintro rfl
    exact hnodup hp
  refine ⟨_, hcall, h.owned.put hd h.number, ?_, ?_⟩
  · constructor
    case chain =>
      apply h.linked.chain.congr
      intro p hp
      rw [FStream.next]
      -- the page that is written keeps its link, which the object copies from the file
      by_cases heq : p = n
      · subst heq
        rw [put_page_self]
        rfl
      · rw [put_page_of_ne _ heq]
        rfl
    case sorted => exact h.linked.sorted
    case mem =>
      intro p
      rw [h.linked.mem, stored_put (h.owned.of_stored hd).2.1]
      · by_cases heq : p = n
        · subst heq
          simp [hd]
        · rw [Function.update_of_ne heq]
      · show pg.pageNumber ≠ 0
        rw [h.number]
        exact Nat.ne_of_gt (h.owned.of_stored hd).1
  · -- the pages before it keep their records, and the last one has those of the page in memory
    apply Written.snoc
    · exact h.written.congr fun p hp => by rw [hpage p hp]
    · rw [put_page_self]
      exact readable_of_contents h.appended.tidy.counted.layout.readable rfl
    · have hrecords : (pg.setNextPageNumber (st.next n)).records = pg.records := records_of_contents rfl
      rw [put_page_self, hrecords, records_appended h.appended]

/-- A page is allocated at the end of a file that has no free page. -/
theorem allocatePage_last (h : st.Owned []) :
    wp (PageFile.allocatePage fn) (fun r t => r.1 = st.header.numPages ∧ t.header.numFreePages = 0)
      (fun _ _ => True) st := by
  rw [PageFile.allocatePage, wp_bind, wp_of_ok (readHeader_apply h.ready), wp_ite]
  have hzero := h.length
  -- no page is free, so the branch for the free list is not taken
  constructor
  · intro hpos
    rw [List.length_nil] at hzero
    omega
  · -- the new page is behind the last one
    intro _
    rw [wp_bind]
    refine wp_mono (PageFile.appendNew_spec fn h _ rfl) ?_ fun _ _ _ => trivial
    rintro ⟨hd, np, ep⟩ u ⟨rfl, -, -, hfree, hnew, -⟩
    rw [wp_of_ok (PageFile.storeAllocated_apply h.ready hd np ep)]
    refine ⟨?_, hfree.trans hzero.symm⟩
    show np.pageNumber = u.header.numPages
    rw [← Page.pageNumber_contents, hnew]
    rfl

end Main

namespace Main

variable {st : FStream CharArea} {used : List Nat} {new : Nat × Page CharArea}
  {before data : List (List UInt8)} {d : List UInt8} (fn : FileName)

/-- The next page is allocated. -/
theorem allocate_filling (h : st.Owned []) (hl : st.Linked used) (hw : Written st used before) :
    ∃ new t, PageFile.allocatePage fn st = (.ok new, t) ∧ Filling t used new before [] := by
  have hapart : PageFile.ListsApart st := by
    right
    rw [← h.length]
    exact Nat.zero_le _
  have hspec := wp_and (wp_and (PageFile.allocatePage_linked fn h hl hapart)
    (PageFile.allocatePage_spec fn h)) (allocatePage_last fn h)
  obtain ⟨⟨n, pg⟩, t, hcall, ⟨⟨used', hchain, hsorted, hmem⟩, halloc⟩, hnumber, hfree⟩ :=
    exists_ok_of_wp (wp_mono hspec (fun _ _ hr => hr) fun e t he => by
      obtain ⟨⟨rfl, -, hfails⟩, -⟩ := he
      rcases hfails with hfails | hfails
      · exact hfails
      · cases hfails)
  dsimp only at hmem hnumber
  obtain ⟨free, howned⟩ := halloc.owned
  obtain rfl : free = [] := List.eq_nil_of_length_eq_zero (howned.length.trans hfree)
  -- the list is increasing, and no page of the file has a number as high as the new one
  have hlt : ∀ p ∈ used, p < n := by
    intro p hp
    obtain ⟨d, hd⟩ := (hl.mem p).mp hp
    rw [hnumber]
    exact (h.of_stored hd).2.1
  have hused : used' = used ++ [n] := by
    have hsnoc : (used ++ [n]).Pairwise (· < ·) := by
      rw [List.pairwise_append]
      refine ⟨hl.sorted, List.pairwise_singleton _ _, fun p hp q hq => ?_⟩
      rw [List.mem_singleton.mp hq]
      exact hlt p hp
    -- both lists have the same pages in increasing order, so they are equal
    have hperm : used'.Perm (used ++ [n]) := by
      apply (List.perm_ext_iff_of_nodup (hsorted.imp Nat.ne_of_lt) (hsnoc.imp Nat.ne_of_lt)).mpr
      intro p
      rw [hmem, List.mem_append, List.mem_singleton, or_comm]
    exact hperm.eq_of_pairwise (fun a b _ _ hab hba => absurd hab (Nat.lt_asymm hba)) hsorted hsnoc
  subst hused
  have hstored : ∀ p ∈ used, t.stored p = st.stored p := by
    intro p hp
    rw [halloc.stored, Function.update_of_ne (Nat.ne_of_lt (hlt p hp))]
  refine ⟨(n, pg), t, hcall, howned, ⟨hchain, hsorted, fun p => ?_⟩, ?_, halloc.pageNumber, ?_⟩
  · rw [hmem, halloc.stored]
    by_cases heq : p = n
    · subst heq
      simp
    · rw [Function.update_of_ne heq, ← hl.mem p]
      exact or_iff_right heq
  · apply hw.congr
    intro p hp
    obtain ⟨d, hd⟩ := (hl.mem p).mp hp
    exact contents_of_stored h howned hd ((hstored p hp).trans hd)
  · apply appended_contents
    rw [halloc.empty]
    exact Page.appended_init n

/-- A record that fits into the page at hand is inserted there. -/
theorem insertTuple_room (rounds : Nat) (h : Filling st used new before data)
    (hroom : spaceFor (data ++ [d]) ≤ dataSize) :
    ∃ pg, insertTuple fn d (rounds + 1) new st = (.ok (new.1, pg), st) ∧
      Filling st used (new.1, pg) before (data ++ [d]) := by
  obtain ⟨n, pg⟩ := new
  refine ⟨Page.fillSlot (data.length + 1) d pg.addSlot, ?_, h.owned, h.linked, h.written, h.number,
    h.appended.fillSlot_appended hroom⟩
  rw [insertTuple, h.appended.insertRecord_room hroom]
  rfl

/-- A record that fits into an empty page is inserted, in the second round at the latest. -/
theorem insertTuple_filling (rounds : Nat) (h : Filling st used new before data)
    (hfits : spaceFor [d] ≤ dataSize) :
    ∃ used' new' before' data' t, insertTuple fn d (rounds + 2) new st = (.ok new', t) ∧
      Filling t used' new' before' data' ∧ before' ++ data' = before ++ data ++ [d] ∧
      used'.length ≤ used.length + 1 := by
  -- there is room on the page at hand
  by_cases hspace : spaceFor (data ++ [d]) ≤ dataSize
  · obtain ⟨pg, hcall, hfill⟩ := insertTuple_room fn (rounds + 1) h hspace
    exact ⟨used, (new.1, pg), before, data ++ [d], st, hcall, hfill, by simp, Nat.le_succ _⟩
  · -- there is none: the page is written, and the record goes to the next one, which is empty
    obtain ⟨n, pg⟩ := new
    obtain ⟨t, hwrite, howned, hlinked, hwritten⟩ := h.write fn
    obtain ⟨new', u, halloc, hnext⟩ := allocate_filling fn howned hlinked hwritten
    obtain ⟨pg', hcall, hfill⟩ := insertTuple_room fn rounds hnext hfits
    refine ⟨used ++ [n], (new'.1, pg'), before ++ data, [d], u, ?_, hfill, rfl, by simp⟩
    rw [insertTuple, h.appended.insertRecord_full hspace]
    dsimp only at hwrite ⊢
    rw [bind_of_ok hwrite, bind_of_ok halloc]
    exact hcall

/-- A record that does not fit into an empty page goes into none: every page is written as it is. -/
theorem insertTuple_diverges (hlarge : ¬ spaceFor [d] ≤ dataSize) (rounds : Nat)
    (h : Filling st used new before data) :
    ∃ t, insertTuple fn d rounds new st = (.error .diverge, t) := by
  induction rounds generalizing st used new before data with
  | zero => exact ⟨st, rfl⟩
  | succ rounds ih =>
      obtain ⟨n, pg⟩ := new
      -- it does not fit behind other records either
      have hspace : ¬ spaceFor (data ++ [d]) ≤ dataSize := by
        rw [spaceFor_append]
        omega
      obtain ⟨t, hwrite, howned, hlinked, hwritten⟩ := h.write fn
      obtain ⟨new', u, halloc, hnext⟩ := allocate_filling fn howned hlinked hwritten
      obtain ⟨v, hcall⟩ := ih hnext
      refine ⟨v, ?_⟩
      rw [insertTuple, h.appended.insertRecord_full hspace]
      dsimp only at hwrite ⊢
      rw [bind_of_ok hwrite, bind_of_ok halloc]
      exact hcall

theorem insertTuples_filling (rounds : Nat) (tuples : List (List UInt8))
    (hfits : ∀ d ∈ tuples, spaceFor [d] ≤ dataSize) (h : Filling st used new before data) :
    ∃ used' new' before' data' t, insertTuples fn (rounds + 2) tuples new st = (.ok new', t) ∧
      Filling t used' new' before' data' ∧ before' ++ data' = before ++ data ++ tuples ∧
      used'.length ≤ used.length + tuples.length := by
  induction tuples generalizing st used new before data with
  | nil => exact ⟨used, new, before, data, st, rfl, h, by simp, Nat.le_refl _⟩
  | cons d tuples ih =>
      obtain ⟨hd, htuples⟩ := List.forall_mem_cons.mp hfits
      obtain ⟨used', new', before', data', t, hcall, hfill, hall, hlen⟩ :=
        insertTuple_filling fn rounds h hd
      obtain ⟨used'', new'', before'', data'', u, hcall', hfill', hall', hlen'⟩ := ih htuples hfill
      -- each record adds a page at most
      refine ⟨used'', new'', before'', data'', u, ?_, hfill', ?_, ?_⟩
      · rw [insertTuples, bind_of_ok hcall, hcall']
      · rw [hall', hall]
        simp
      · rw [List.length_cons]
        omega

theorem insertTuples_diverges (rounds : Nat) (tuples : List (List UInt8))
    (hlarge : ¬ ∀ d ∈ tuples, spaceFor [d] ≤ dataSize) (h : Filling st used new before data) :
    ∃ t, insertTuples fn (rounds + 2) tuples new st = (.error .diverge, t) := by
  induction tuples generalizing st used new before data with
  | nil => exact absurd (fun _ hd => by cases hd) hlarge
  | cons d tuples ih =>
      -- the first of them fits, so it is one of the others
      by_cases hd : spaceFor [d] ≤ dataSize
      · have htuples : ¬ ∀ d ∈ tuples, spaceFor [d] ≤ dataSize := fun htuples =>
          hlarge (List.forall_mem_cons.mpr ⟨hd, htuples⟩)
        obtain ⟨used', new', before', data', t, hcall, hfill, -, -⟩ := insertTuple_filling fn rounds h hd
        obtain ⟨u, hcall'⟩ := ih htuples hfill
        exact ⟨u, by rw [insertTuples, bind_of_ok hcall, hcall']⟩
      · -- the first of them does not fit
        obtain ⟨t, hcall⟩ := insertTuple_diverges fn hd (rounds + 2) h
        exact ⟨t, by rw [insertTuples, bind_of_error hcall]⟩

/-- **A new file is filled**, with as many pages as it takes. -/
theorem fillRelation_written (rounds : Nat) (h : st.Owned []) (hl : st.Linked [])
    (hfits : ∀ d ∈ data, spaceFor [d] ≤ dataSize) :
    ∃ used t, fillRelation fn (rounds + 2) data st = (.ok (), t) ∧ t.Owned [] ∧ t.Linked used ∧
      Written t used data ∧ used.length ≤ data.length + 1 := by
  have hempty : Written st [] [] := ⟨fun p hp => (List.not_mem_nil hp).elim, rfl⟩
  obtain ⟨new, t, halloc, hfill⟩ := allocate_filling fn h hl hempty
  obtain ⟨used, new', before', data', u, htuples, hfill', hall, hlen⟩ :=
    insertTuples_filling fn rounds data hfits hfill
  obtain ⟨v, hwrite, howned, hlinked, hwritten⟩ := hfill'.write fn
  refine ⟨used ++ [new'.1], v, ?_, howned, hlinked, ?_, ?_⟩
  · rw [fillRelation, bind_of_ok halloc, bind_of_ok htuples, hwrite]
  · rw [hall] at hwritten
    exact hwritten
  · rw [List.length_append, List.length_singleton]
    simpa using hlen

theorem fillRelation_diverges (rounds : Nat) (h : st.Owned []) (hl : st.Linked [])
    (hlarge : ¬ ∀ d ∈ data, spaceFor [d] ≤ dataSize) :
    ∃ t, fillRelation fn (rounds + 2) data st = (.error .diverge, t) := by
  have hempty : Written st [] [] := ⟨fun p hp => (List.not_mem_nil hp).elim, rfl⟩
  obtain ⟨new, t, halloc, hfill⟩ := allocate_filling fn h hl hempty
  obtain ⟨u, htuples⟩ := insertTuples_diverges fn rounds data hlarge hfill
  exact ⟨u, by rw [fillRelation, bind_of_ok halloc, bind_of_error htuples]⟩

/-! ## The world

Around the file are the `File` objects, the counts of how often each file is open, and the file system. What
`createRelation` does to them is fixed by whether a file of the name is open, so its result is `fillRelation` on a
new file, with these updated.
-/

/-- The stream of a file that is created anew. -/
def emptied (s : FStream CharArea) : FStream CharArea :=
  PageFile.newStream s.sticky s.junkHeader s.junkPageHeader

theorem owned_emptied (s : FStream CharArea) : (emptied s).Owned [] := owned_newStream ..

/-- A new file has no pages. -/
theorem linked_emptied (s : FStream CharArea) : (emptied s).Linked [] where
  chain := .nil 0
  sorted := List.Pairwise.nil
  mem p := by
    have hzero : (emptied s).stored p = none := by
      rw [stored, if_neg (fun h => h.2 rfl)]
    simp [hzero]

/-- The world in which the file `name` has just been created, through the object at `file`. -/
def created (file : Nat) (name : FileName) (w : World CharArea) : World CharArea where
  sys :=
    { w.sys with
      objects := Function.update w.sys.objects file (some ⟨.page, name⟩)
      streams := Function.update w.sys.streams name (emptied (w.sys.streams name)) }
  onDisk := Function.update w.onDisk name true
  openCounts := Function.update w.openCounts name 1

/-- The world in which that file has become `st`. -/
def filled (file : Nat) (name : FileName) (st : FStream CharArea) (w : World CharArea) : World CharArea :=
  { created file name w with sys := (created file name w).sys.setStream name st }

section Create

variable {file : Nat} {name : FileName} {w w' : World CharArea} (hclosed : w.openCounts name = 0)

include hclosed

/-- A file that is not open is removed if it is there. -/
theorem removeOld_apply : ∃ w', removeOld name w = (.ok (), w') ∧ w'.sys = w.sys ∧
    w'.openCounts = w.openCounts ∧ w'.onDisk = Function.update w.onDisk name false := by
  unfold removeOld Prog.tryCatch
  -- the file is there and not open, so it is removed
  by_cases hdisk : w.onDisk name = true
  · have hremove : File.remove name w = (.ok (), World.setOnDisk name false w) := by
      rw [File.remove, bind_of_ok (get_apply w), if_neg (by simp [hdisk]),
        if_neg (by simp [File.isOpen, hclosed])]
      rfl
    rw [hremove]
    exact ⟨_, rfl, rfl, rfl, rfl⟩
  · -- it is not there, which `removeOld` takes care of
    have hdisk : w.onDisk name = false := Bool.eq_false_of_not_eq_true hdisk
    have hremove : File.remove name w = (.error (.throw (.fileNotFound name)), w) := by
      rw [File.remove, bind_of_ok (get_apply w), if_pos hdisk]
      rfl
    rw [hremove]
    refine ⟨w, rfl, rfl, rfl, ?_⟩
    rw [← hdisk, Function.update_eq_self]

theorem construct_created (hdisk : w.onDisk name = false) :
    File.construct file .page name true w = (.ok (), created file name w) := by
  have hopen : File.openIfNeeded name true w = (.ok (), World.setCount name 1
      (World.setStream name (w.sys.streams name).truncated (World.setOnDisk name true w))) := by
    rw [File.openIfNeeded, bind_of_ok (get_apply w), if_neg (by simp [hclosed]), if_pos rfl,
      if_neg (by simp [hdisk])]
    rfl
  have hobject : ∀ s : Sys CharArea,
      ({ s with objects := Function.update s.objects file (some ⟨.page, name⟩) } : Sys CharArea).objects
        file = some ⟨.page, name⟩ := fun s => Function.update_self ..
  -- the object comes first, and then the header of the new file is written through it
  rw [File.construct, bind_of_ok hopen, bind_of_ok (modify_apply _ _), if_pos rfl]
  unfold World.onSys zoom
  dsimp only [World.setObject, World.setCount, World.setStream, World.setOnDisk]
  rw [onFile_apply (hobject _)]
  dsimp only [Sys.setStream]
  rw [Function.update_self, Function.update_idem]
  rfl

/-- `createRelation` is `fillRelation` on a new file. -/
theorem createRelation_apply (rounds : Nat) :
    createRelation file name rounds data w =
      ((fillRelation name rounds data (emptied (w.sys.streams name))).1,
        filled file name (fillRelation name rounds data (emptied (w.sys.streams name))).2 w) := by
  obtain ⟨w', hremove, hsys, hcounts, hdisk⟩ := removeOld_apply hclosed
  have hcreated : created file name w' = created file name w := by
    unfold created
    rw [hsys, hcounts, hdisk, Function.update_idem]
  have hconstruct : File.construct file .page name true w' = (.ok (), created file name w') :=
    construct_created (by rw [hcounts]; exact hclosed) (by rw [hdisk, Function.update_self])
  have hobject : (created file name w).sys.objects file = some ⟨.page, name⟩ := Function.update_self ..
  have hstream : (created file name w).sys.streams name = emptied (w.sys.streams name) :=
    Function.update_self ..
  rw [createRelation, bind_of_ok hremove, bind_of_ok hconstruct, hcreated]
  unfold World.onSys zoom
  rw [onFile_apply hobject, hstream]
  rfl

end Create

/-! ## Reading it back

The scan has a `PageFile` of its own on the file, at another address. That the pool has no page under this address
is what makes the scan read what was written.
-/

/-- The relation `name` can be written through a `PageFile` at `file1` and read through one at `file`: the
file is closed, the pool is in order and has a frame that is not pinned, no frame is left of an object that
was at one of the two addresses, and a dirty frame that may be evicted can be written back. -/
structure Prepared (w : World D) (file1 file : Nat) (name : FileName) : Prop where
  table : TableInv w.sys
  size : 2 * w.sys.numBufs < 2 ^ 32
  room : ∃ i < w.sys.numBufs, (w.sys.desc i).pinCnt = 0
  closed : w.openCounts name = 0
  apart : file1 ≠ file
  others : ∀ a o, w.sys.objects a = some o → o.filename ≠ name
  same : ∀ a b oa ob, w.sys.objects a = some oa → w.sys.objects b = some ob →
    oa.filename = ob.filename → oa = ob
  unused : ∀ i, (w.sys.desc i).valid = true → (w.sys.desc i).file ≠ file1 ∧ (w.sys.desc i).file ≠ file
  writable : ∀ i, Victim w.sys i → (w.sys.desc i).dirty = true →
    ∃ o, w.sys.objects (w.sys.desc i).file = some o ∧ o.kind.InOrder (w.sys.streams o.filename) ∧
      (o.kind = .page → (onDisk w.sys o (w.sys.desc i).pageNo).isSome = true ∧
        (w.sys.frame i).pageNumber = (w.sys.desc i).pageNo)

/-- A new pool will do, if no file is open. -/
theorem prepared_new (streams : FileName → FStream D) (onDisk : FileName → Bool)
    {bufs file1 file : Nat} (name : FileName) (hpos : 0 < bufs) (hsize : 2 * bufs < 2 ^ 32)
    (hne : file1 ≠ file) : Prepared (ScanState.new streams onDisk bufs).world file1 file name where
  table := ⟨(pinInv_new _ _ hpos).pool, fun _ hv => by cases hv⟩
  size := hsize
  room := ⟨0, hpos, rfl⟩
  closed := rfl
  apart := hne
  others _ _ ho := by cases ho
  same _ _ _ _ ho _ _ := by cases ho
  unused _ hv := by cases hv
  writable _ hv _ := by cases hv.valid

section Read

variable {file1 file : Nat} {name : FileName} {w : World CharArea} {data : List (List UInt8)}
  {st : FStream CharArea} {used : List Nat}

/-- The world after the relation was written, and a `PageFile` for the scan was opened on it. -/
def opened (file1 file : Nat) (name : FileName) (st : FStream CharArea) (w : World CharArea) :
    World CharArea where
  sys :=
    { objects := Function.update (Function.update w.sys.objects file1 (some ⟨.page, name⟩)) file
        (some ⟨.page, name⟩)
      streams := Function.update w.sys.streams name st
      mgr := w.sys.mgr }
  onDisk := Function.update w.onDisk name true
  openCounts := Function.update w.openCounts name 2

theorem construct_opened (hready : st.Ready) :
    FileScan.construct file name (filled file1 name st w) =
      (.ok (FileScan.away file st.header.firstUsedPage ⟨none, ⟨invalidNumber, invalidSlot⟩⟩),
        opened file1 file name st w) := by
  have hcount : (filled file1 name st w).openCounts name = 1 := Function.update_self ..
  have hopen : File.openIfNeeded name false (filled file1 name st w) =
      (.ok (), World.setCount name 2 (filled file1 name st w)) := by
    rw [File.openIfNeeded, bind_of_ok (get_apply _), if_pos (by simp [hcount]), modify_apply, hcount]
  have hopened : World.setObject file (some ⟨.page, name⟩) (World.setCount name 2 (filled file1 name st w)) =
      opened file1 file name st w := by
    simp only [filled, World.setObject, World.setCount, Sys.setStream, created, opened,
      Function.update_idem]
  have hconstruct : File.construct file .page name false (filled file1 name st w) =
      (.ok (), opened file1 file name st w) := by
    rw [File.construct, bind_of_ok hopen, bind_of_ok (modify_apply _ _), hopened, if_neg (by simp)]
    rfl
  have hobject : (opened file1 file name st w).sys.objects file = some ⟨.page, name⟩ :=
    Function.update_self ..
  have hstream : (opened file1 file name st w).sys.streams name = st := Function.update_self ..
  have hself := Sys.setStream_self (opened file1 file name st w).sys name
  rw [hstream] at hself
  have hbegin : PageFile.begin file (opened file1 file name st w).sys =
      (.ok st.header.firstUsedPage, (opened file1 file name st w).sys) := by
    have hheader := onFile_apply (x := fun _ => FStream.readHeader) hobject
    rw [hstream, FStream.readHeader_apply hready] at hheader
    rw [PageFile.begin, bind_of_ok hheader]
    dsimp only
    rw [hself]
    rfl
  have hrun : World.onSys (PageFile.begin file) (opened file1 file name st w) =
      (.ok st.header.firstUsedPage, opened file1 file name st w) := by
    unfold World.onSys zoom
    rw [hbegin]
  rw [FileScan.construct, bind_of_ok hconstruct, bind_of_ok hrun]
  rfl

/-- The objects are the two `PageFile`s of the relation, and those that there were. -/
theorem object_opened {a : Nat} {o : FileObject} (h : (opened file1 file name st w).sys.objects a = some o) :
    o = ⟨.page, name⟩ ∨ w.sys.objects a = some o := by
  have h : Function.update (Function.update w.sys.objects file1 (some ⟨.page, name⟩)) file
    (some ⟨.page, name⟩) a = some o := h
  -- the address of the scan, that of the first object, or another one
  by_cases hfile : a = file
  · rw [hfile, Function.update_self] at h
    exact Or.inl (Option.some.inj h).symm
  · rw [Function.update_of_ne hfile] at h
    by_cases hfile1 : a = file1
    · rw [hfile1, Function.update_self] at h
      exact Or.inl (Option.some.inj h).symm
    · rw [Function.update_of_ne hfile1] at h
      exact Or.inr h

theorem scannable_opened (h : Prepared w file1 file name) (howned : st.Owned []) (hlinked : st.Linked used)
    (hwritten : Written st used data) : Scannable (opened file1 file name st w).sys file name used := by
  have hstream : (opened file1 file name st w).sys.streams name = st := Function.update_self ..
  constructor
  case table =>
    exact ⟨⟨h.table.pool.hand, h.table.pool.frameNo, h.table.pool.valid_lt, h.table.pool.invalid,
      h.table.pool.entry⟩, h.table.full⟩
  case size => exact h.size
  case room => exact h.room
  case object => exact Function.update_self ..
  case same =>
    intro a b oa ob ha hb hname
    -- two objects on one file are equal: those of the relation, or two that there were before
    rcases object_opened ha with rfl | ha
    · rcases object_opened hb with rfl | hb
      · rfl
      · exact absurd hname.symm (h.others b ob hb)
    · rcases object_opened hb with rfl | hb
      · exact absurd hname (h.others a oa ha)
      · exact h.same a b oa ob ha hb hname
  case owned =>
    rw [hstream]
    exact ⟨[], howned⟩
  case chain =>
    rw [hstream]
    exact hlinked.chain
  case mem =>
    rw [hstream]
    exact hlinked.mem
  case readable =>
    rw [hstream]
    exact hwritten.readable
  case writable =>
    intro i hi hdirty
    have hi : Victim w.sys i := ⟨hi.valid, hi.unpinned⟩
    obtain ⟨o, ho, horder, hpage⟩ := h.writable i hi hdirty
    obtain ⟨hfile1, hfile⟩ := h.unused i hi.valid
    -- the file of the frame is another one
    have hne : o.filename ≠ name := h.others _ o ho
    have hother : (opened file1 file name st w).sys.streams o.filename = w.sys.streams o.filename :=
      Function.update_of_ne hne _ _
    refine ⟨o, ?_, ?_, ?_, fun heq => absurd heq hne⟩
    · show Function.update (Function.update w.sys.objects file1 _) file _ (w.sys.desc i).file = some o
      rw [Function.update_of_ne hfile, Function.update_of_ne hfile1]
      exact ho
    · rw [hother]
      exact horder
    · unfold onDisk at hpage ⊢
      rw [hother]
      exact hpage

theorem noStale_opened (h : Prepared w file1 file name) :
    NoStale (opened file1 file name st w).sys file name used := by
  intro p i _ hi
  have hentry : w.sys.entry file p = some i := hi
  obtain ⟨hvalid, hfile, -⟩ := h.table.pool.entry file p i hentry
  exact absurd hfile (h.unused i hvalid).2

/-- The loop returns the records that are still to come. -/
theorem readRecords_position {s₀ : Sys CharArea} {rounds : Nat} (hs : Scannable s₀ file name used)
    (hrounds : used.length ≤ rounds) (calls : Nat) {rest : List (RecordId × List UInt8)}
    {t : Scanning CharArea} (hcalls : rest.length < calls)
    (h : FileScan.Position s₀ file name used rest t) :
    ∃ u, readRecords rounds calls t = (.ok (rest.map Prod.snd), u) ∧
      FileScan.Position s₀ file name used [] u := by
  induction calls generalizing rest t with
  | zero => exact absurd hcalls (Nat.not_lt_zero _)
  | succ calls ih =>
      have hdelivers := FileScan.scanNext_delivers hs hrounds h
      cases rest with
      -- no record is left: the call throws, and the loop ends
      | nil =>
          obtain ⟨iter, s, hcall, hinv⟩ := hdelivers
          refine ⟨_, ?_, .ended iter hinv⟩
          have hmore : Prog.tryCatch (do let _scanRid ← FileScan.scanNext rounds; pure true)
              (fun | .endOfFile => some (pure false) | _ => none) t =
              (.ok false, (⟨FileScan.away file 0 iter, s⟩ : Scanning CharArea)) := by
            unfold Prog.tryCatch
            rw [bind_of_error hcall]
            rfl
          rw [readRecords, bind_of_ok hmore, if_neg (by simp)]
          rfl
      -- the next record is delivered, read, and followed by the rest
      | cons r rest =>
          obtain ⟨v, hcall, hnext, hrecord⟩ := hdelivers
          obtain ⟨u, hrest, hend⟩ := ih (Nat.lt_of_succ_lt_succ hcalls) hnext
          refine ⟨u, ?_, hend⟩
          have hmore : Prog.tryCatch (do let _scanRid ← FileScan.scanNext rounds; pure true)
              (fun | .endOfFile => some (pure false) | _ => none) t = (.ok true, v) := by
            unfold Prog.tryCatch
            rw [bind_of_ok hcall]
            rfl
          rw [readRecords, bind_of_ok hmore, if_pos rfl, bind_of_ok hrecord, bind_of_ok hrest]
          rfl

/-- A relation of records that fit into a page is read as it was written. -/
theorem createAndRead_fits (h : Prepared w file1 file name)
    (hfits : ∀ d ∈ data, d.length + slotSize ≤ dataSize) {rounds calls : Nat}
    (hrounds : data.length + 2 ≤ rounds) (hcalls : data.length < calls) :
    ∃ w', createAndRead file1 file name rounds calls data w = (.ok data, w') ∧
      FileScan.SamePins w.sys w'.sys := by
  obtain ⟨n, rfl⟩ : ∃ n, rounds = n + 2 := ⟨rounds - 2, by omega⟩
  have hspace : ∀ d ∈ data, spaceFor [d] ≤ dataSize := by simpa using hfits
  obtain ⟨used, t, hfill, howned, hlinked, hwritten, hlen⟩ := fillRelation_written name n
    (owned_emptied _) (linked_emptied (w.sys.streams name)) hspace
  have hcreate : createRelation file1 name (n + 2) data w = _ := createRelation_apply h.closed (n + 2)
  rw [hfill] at hcreate
  have hs := scannable_opened h howned hlinked hwritten
  have hstream : (opened file1 file name t w).sys.streams name = t := Function.update_self ..
  -- the scan starts at the first page
  have hstart := FileScan.Position.start ⟨none, ⟨invalidNumber, invalidSlot⟩⟩ (hs.scanInv (noStale_opened h))
  rw [hstream, ← Chain.eq_headD hlinked.chain] at hstart
  have hlive : (t.liveRecords used).length = data.length := by
    rw [← hwritten.records, List.length_map]
  have hrounds' : used.length ≤ n + 2 := by omega
  obtain ⟨u, hread, hend⟩ := readRecords_position hs hrounds' calls (by omega) hstart
  rw [hwritten.records] at hread
  obtain ⟨w', hdestroy, hpins⟩ := FileScan.destroy_unpins hs hend (opened file1 file name t w)
  refine ⟨w', ?_, hpins.count, hpins.kept⟩
  rw [createAndRead, bind_of_ok hcreate, withScan, bind_of_ok (construct_opened howned.ready),
    bind_of_ok (get_apply _), hread]
  dsimp only
  rw [bind_of_ok (modify_apply _ _), bind_of_ok hdestroy]
  rfl

/-- A record that fits into no page is tried for ever. -/
theorem createAndRead_large (h : Prepared w file1 file name)
    (hlarge : ¬ ∀ d ∈ data, d.length + slotSize ≤ dataSize) {rounds : Nat} (calls : Nat)
    (hrounds : 2 ≤ rounds) :
    ∃ w', createAndRead file1 file name rounds calls data w = (.error .diverge, w') := by
  obtain ⟨n, rfl⟩ : ∃ n, rounds = n + 2 := ⟨rounds - 2, by omega⟩
  have hspace : ¬ ∀ d ∈ data, spaceFor [d] ≤ dataSize := by simpa using hlarge
  obtain ⟨t, hfill⟩ := fillRelation_diverges name n
    (owned_emptied _) (linked_emptied (w.sys.streams name)) hspace
  have hcreate : createRelation file1 name (n + 2) data w = _ := createRelation_apply h.closed (n + 2)
  rw [hfill] at hcreate
  exact ⟨_, by rw [createAndRead, bind_of_error hcreate]⟩

/-- **A relation is read as it was written**, and no page stays pinned; unless one of the records does not
fit into an empty page, and then it is never written. -/
theorem readsBack_iff (h : Prepared w file1 file name) {rounds calls : Nat}
    (hrounds : data.length + 2 ≤ rounds) (hcalls : data.length < calls) :
    ((∃ w', createAndRead file1 file name rounds calls data w = (.ok data, w') ∧
        FileScan.SamePins w.sys w'.sys) ↔ ∀ d ∈ data, d.length + slotSize ≤ dataSize) ∧
      ((∃ w', createAndRead file1 file name rounds calls data w = (.error .diverge, w')) ↔
        ∃ d ∈ data, dataSize < d.length + slotSize) := by
  -- exactly one of the two outcomes is possible, and the records decide which
  by_cases hfits : ∀ d ∈ data, d.length + slotSize ≤ dataSize
  · obtain ⟨w', hrun, hpins⟩ := createAndRead_fits h hfits hrounds hcalls
    refine ⟨iff_of_true ⟨w', hrun, hpins⟩ hfits, iff_of_false ?_ ?_⟩
    · rintro ⟨v, hv⟩
      rw [hrun] at hv
      cases hv
    · rintro ⟨d, hd, hlarge⟩
      exact Nat.not_lt.mpr (hfits d hd) hlarge
  · obtain ⟨w', hrun⟩ := createAndRead_large h hfits calls (by omega : 2 ≤ rounds)
    refine ⟨iff_of_false ?_ hfits, iff_of_true ⟨w', hrun⟩ ?_⟩
    · rintro ⟨v, hv, -⟩
      rw [hrun] at hv
      cases hv
    · simpa using hfits

theorem readsBack_two :
    let w : World CharArea :=
      (ScanState.new (fun _ => FileScan.twoPages Page.init Page.init) (fun _ => true) 1).world
    ∃ w', createAndRead 1 2 "f" 4 3 [[1], [2, 3]] w = (.ok [[1], [2, 3]], w') := by
  intro w
  have h : Prepared w 1 2 "f" := prepared_new _ _ "f" Nat.one_pos (by decide) (by decide)
  have hrounds : List.length ([[1], [2, 3]] : List (List UInt8)) + 2 ≤ 4 := by decide
  have hcalls : List.length ([[1], [2, 3]] : List (List UInt8)) < 3 := by decide
  obtain ⟨w', hrun, -⟩ := (readsBack_iff h hrounds hcalls).1.mpr (by decide)
  exact ⟨w', hrun⟩

/-! ## The orders

`shuffle` swaps the value that it takes with the last of those that are left. So a value is taken once, and the
others stay among those left, which is the invariant of the induction.
-/

/-- The backward relation has the records of the forward one in the reverse order. -/
theorem createRelationBackward_reverse (h : Prepared w file1 file name) (tuple : Nat → List UInt8)
    (relationSize : Nat) (hfits : ∀ i < relationSize, (tuple i).length + slotSize ≤ dataSize)
    {rounds calls : Nat} (hrounds : relationSize + 2 ≤ rounds) (hcalls : relationSize < calls) :
    ∃ records w₁ w₂, (do
        createRelationForward file1 name rounds tuple relationSize
        withScan file name (readRecords rounds calls)) w = (.ok records, w₁) ∧ (do
        createRelationBackward file1 name rounds tuple relationSize
        withScan file name (readRecords rounds calls)) w = (.ok records.reverse, w₂) := by
  have hdata : ∀ d ∈ (List.range relationSize).map tuple, d.length + slotSize ≤ dataSize := by
    intro d hd
    obtain ⟨i, hi, rfl⟩ := List.mem_map.mp hd
    exact hfits i (List.mem_range.mp hi)
  have hreverse : ∀ d ∈ (List.range relationSize).reverse.map tuple, d.length + slotSize ≤ dataSize := by
    intro d hd
    rw [List.map_reverse] at hd
    exact hdata d (List.mem_reverse.mp hd)
  obtain ⟨w₁, hforward, -⟩ := createAndRead_fits h hdata (by simpa using hrounds) (by simpa using hcalls)
  obtain ⟨w₂, hbackward, -⟩ := createAndRead_fits h hreverse (by simpa using hrounds) (by simpa using hcalls)
  refine ⟨_, w₁, w₂, hforward, ?_⟩
  rw [← List.map_reverse]
  exact hbackward

/-- Every value of `intvec` that is left comes up once. -/
theorem shuffle_perm (random : Nat → Nat) (relationSize left : Nat) (intvec : List Nat)
    (hleft : left ≤ intvec.length) :
    (shuffle random relationSize left intvec).Perm (intvec.take left) := by
  induction left generalizing intvec with
  | zero =>
      rw [List.take_zero]
      exact .nil
  | succ left ih =>
      -- `pos` is the position of the value that is taken, and `next` the vector after the swap
      set pos := random (relationSize - (left + 1)) % (left + 1) with hpos
      set val := intvec.getD pos 0 with hval
      set next := (intvec.set left val).set pos (intvec.getD left 0) with hnext
      have hlt : pos < left + 1 := Nat.mod_lt _ (Nat.succ_pos left)
      have hat : ∀ i (hi : i < (intvec.take (left + 1)).length),
          intvec.getD i 0 = (intvec.take (left + 1))[i] := by
        intro i hi
        rw [List.length_take_of_le hleft] at hi
        rw [List.getD_eq_getElem _ _ (by omega), List.getElem_take]
      have hlen : (intvec.take (left + 1)).length = left + 1 := List.length_take_of_le hleft
      -- the first values of the vector, two of them in each other's place
      have hswap : (next.take (left + 1)).Perm (intvec.take (left + 1)) := by
        rw [hnext, hval, List.take_set, List.take_set, hat pos (by omega), hat left (by omega)]
        exact List.set_set_perm (by omega) (by omega)
      -- the last value of those left is now the one that was taken
      have hlast : next[left]? = some val := by
        by_cases heq : pos = left
        · rw [hnext, heq, List.getElem?_set_self (by simp; omega), hval, heq]
        · rw [hnext, List.getElem?_set_ne heq, List.getElem?_set_self (by omega)]
      have hrest : (val :: shuffle random relationSize left next).Perm (next.take left ++ [val]) :=
        ((ih next (by simp [hnext]; omega)).cons val).trans (List.perm_append_singleton val _).symm
      rw [List.take_add_one, hlast] at hswap
      exact hrest.trans hswap

/-- **The random order has the same records**, each of them once, whatever `random` returns. -/
theorem createRelationRandom_perm (h : Prepared w file1 file name) (tuple : Nat → List UInt8)
    (relationSize : Nat) (hfits : ∀ i < relationSize, (tuple i).length + slotSize ≤ dataSize)
    {rounds calls : Nat} (hrounds : relationSize + 2 ≤ rounds) (hcalls : relationSize < calls)
    (random : Nat → Nat) :
    ∃ records w', (do
        createRelationRandom file1 name rounds tuple relationSize random
        withScan file name (readRecords rounds calls)) w = (.ok records, w') ∧
      records.Perm ((List.range relationSize).map tuple) := by
  have hperm : (shuffle random relationSize relationSize (List.range relationSize)).Perm
      (List.range relationSize) := by
    have hperm := shuffle_perm random relationSize relationSize (List.range relationSize) (by simp)
    rwa [List.take_of_length_le (by simp)] at hperm
  have hlen : (shuffle random relationSize relationSize (List.range relationSize)).length =
      relationSize := by
    rw [hperm.length_eq, List.length_range]
  have hdata : ∀ d ∈ (shuffle random relationSize relationSize (List.range relationSize)).map tuple,
      d.length + slotSize ≤ dataSize := by
    intro d hd
    obtain ⟨i, hi, rfl⟩ := List.mem_map.mp hd
    exact hfits i (List.mem_range.mp (hperm.mem_iff.mp hi))
  obtain ⟨w', hrun, -⟩ : ∃ w', createAndRead file1 file name rounds calls _ w = _ ∧ _ :=
    createAndRead_fits h hdata (by rwa [List.length_map, hlen]) (by rwa [List.length_map, hlen])
  exact ⟨_, w', hrun, hperm.map tuple⟩

theorem createRelationRandom_swaps :
    let w : World CharArea :=
      (ScanState.new (fun _ => FileScan.twoPages Page.init Page.init) (fun _ => true) 1).world
    ∃ records w', (do
        createRelationRandom 1 "f" 4 (fun i => [i.toUInt8]) 2 (fun _ => 0)
        withScan 2 "f" (readRecords 4 3)) w = (.ok records, w') ∧ records.Perm [[0], [1]] := by
  intro w
  have h : Prepared w 1 2 "f" := prepared_new _ _ "f" Nat.one_pos (by decide) (by decide)
  exact createRelationRandom_perm h (fun i => [i.toUInt8]) 2 (by decide) (by decide) (by decide) _

end Read

end Main

end CS640.Badger
