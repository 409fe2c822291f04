import CS640.Badger.Buffer.Representation

/-!
# Pin accounting of p2

Main result: `P2.BufMgr.accounting`. In every run in which each call settles the frame it takes, a page
is in the pool as long as it has a pin, in the frame it was pinned in, and a pin of a page in the pool can
be given back just if there is one.

To give back a pin of a page that is not in the pool is not an error: the handler of `unPinPage` does
nothing. And a pinned page can get lost to the hash table where a call does not settle its frame
(`accounting_unchecked`).

Here the pins are a list beside the pool: `PinInv` says that the pin count of a frame is the number of pins held on
its page, and `PinnedTable` joins it to the complete table. The rules of the calls are those for an evictable
invariant that settles (`wp_readPage_settles`), taken at this invariant.
-/

namespace CS640.Badger.P2.BufMgr

open CS640.Lib Prog
open CS640.Badger.BufMgr

variable {D : Type}

/-- The table is complete, and its pages have the pins `pins`. -/
structure PinnedTable (pins : List Pin) (s : Sys D) : Prop where
  live : LiveTable s
  pins : PinInv s pins

section Calls

variable {s t : Sys D} {pins : List Pin} {f p i : Nat} {o : FileObject}

theorem evictable_pinnedTable : Evictable (PinnedTable (D := D) pins) where
  table t h := h.live.table
  live t i h := h.live.live i
  scanned t u h hu hinv := ⟨evictable_liveTable.scanned t u h.live hu hinv, h.pins.scanned hu hinv.pool⟩
  evict t i h hv _ := ⟨h.live.evict hv.valid, h.pins.evict (h.live.table.full i hv.valid) hv.unpinned⟩
  writeBack t i h hv _ := by
    have hevict := h.pins.evict (h.live.table.full i hv.valid) hv.unpinned
    rw [writeBack, wp_bind, wp_get, wp_ite]
    -- a dirty page is written first, and the file may refuse it
    constructor
    · intro _
      refine wp_mono (wp_onFile_throws fun o => PageFile.writePage_throws _ _ _) ?_ ?_
      · intro _ u hu
        obtain ⟨streams, rfl⟩ := hu
        exact ⟨(h.live.setStreams streams).evict hv.valid, hevict.setStreams streams⟩
      · intro e u he
        apply onThrow_mono he
        intro x hx
        obtain ⟨hx, streams, rfl⟩ := hx
        exact ⟨⟨h.live.setStreams streams, h.pins.setStreams streams⟩, hx⟩
    · intro _
      exact ⟨h.live.evict hv.valid, hevict⟩

/-- Filling and entering a frame that has been taken pins its page. -/
theorem Taken.loadPinned (h : Taken (PinnedTable pins) s i t) (ho : t.objects f = some o)
    (hnone : t.entry f p = none) (streams : FileName → FStream D) (pg : Page D) :
    PinnedTable (⟨f, p, i, false⟩ :: pins)
      ((((t.setStreams streams).setFrame i pg).setDesc i (BufDesc.set f p)).putEntry f p i) := by
  have hv : (((t.setStreams streams).setDesc i BufDesc.clear).desc i).valid = false := by
    rw [Sys.desc_setDesc, if_pos rfl]
    rfl
  have hcleared := h.cleared
  rw [← load_cleared]
  exact ⟨(hcleared.live.setStreams streams).load hv h.lt hnone ho pg,
    (hcleared.pins.setStreams streams).load hv h.lt hnone pg⟩

theorem PinnedTable.setStreams (h : PinnedTable pins s) (streams : FileName → FStream D) :
    PinnedTable pins (s.setStreams streams) :=
  ⟨h.live.setStreams streams, h.pins.setStreams streams⟩

variable [PageData D]

theorem readPage_pinned (h : PinnedTable pins s) (ho : s.objects f = some o) :
    wp (readPage f p) (fun i t => PinnedTable (⟨f, p, i, false⟩ :: pins) t)
      (Fails (PinnedTable pins) s (.readPage f p)) s := by
  apply wp_readPage_settles evictable_pinnedTable h ho
  · intro i hi
    refine ⟨h.live.mark (h.live.table.pool.entry f p i hi).1 fun _ => ?_, h.pins.pin hi⟩
    exact ⟨rfl, rfl, rfl, rfl⟩
  · intro t e u ht _
    exact inv_of_onFile (fun o => PageFile.readPage_throws o.filename p) ht.setStreams
  · intro i t pg streams htaken ho' _ hnone
    exact htaken.loadPinned ho' hnone streams pg

theorem allocPage_pinned (h : PinnedTable pins s) (ho : s.objects f = some o) :
    wp (allocPage f) (fun r t => PinnedTable (⟨f, r.1, r.2, false⟩ :: pins) t)
      (Fails (PinnedTable pins) s (.allocPage f)) s := by
  apply wp_allocPage_settles evictable_pinnedTable h ho
  · intro t e u ht _
    exact inv_of_onFile (fun o => allocatePage_throws o.filename) ht.setStreams
  · intro i t pg streams htaken ho' _ hnone
    exact htaken.loadPinned ho' hnone streams pg

/-- **Every call keeps count of the pins, if it settles.** -/
theorem call_pinned (h : PinnedTable pins s) (op : BufOp) (ho : s.objects op.file = some o) :
    wp (call op) (fun r t => Settles s op → PinnedTable (op.notePins (.ok r) pins) t)
      (onThrow fun _ t => Settles s op → PinnedTable pins t) s := by
  -- a case for each call; `readPage` and `allocPage` add a pin, `unPinPage` takes one away
  cases op with
  | readPage f p =>
      rw [call, wp_bind]
      refine wp_mono (readPage_pinned h ho) (fun _ _ ht _ => ht) ?_
      exact fun e t he => onThrow_mono he fun _ hx => hx.1
  | allocPage f =>
      rw [call, wp_bind]
      refine wp_mono (allocPage_pinned h ho) (fun _ _ ht _ => ht) ?_
      exact fun e t he => onThrow_mono he fun _ hx => hx.1
  | unPinPage f p dirty =>
      have ho : s.objects f = some o := ho
      rw [call, wp_bind]
      apply wp_unPinPage ho h.live.table.pool
      · intro hnone _
        -- a page that is not in the pool has no pin that could go
        have hgone : pins.eraseP (Pin.On f p) = pins := by
          apply List.eraseP_of_forall_not
          intro pin hpin hon
          obtain ⟨rfl, rfl⟩ := Pin.on_iff.mp hon
          rw [h.pins.held pin hpin] at hnone
          cases hnone
        show PinnedTable (pins.eraseP (Pin.On f p)) s
        rw [hgone]
        exact h
      · exact fun _ _ _ _ => h
      · intro i hi hpin _
        refine ⟨h.live.mark (h.live.table.pool.entry f p i hi).1 fun _ => ?_, h.pins.unpin hi hpin⟩
        exact ⟨rfl, rfl, rfl, rfl⟩
  | flushFile f =>
      rw [call, wp_bind]
      refine wp_mono (wp_flushFile ho h evictable_pinnedTable.table fun t i ht _ =>
        evictable_pinnedTable.writeBack t i ht) ?_ ?_
      · exact fun _ t ht _ => ht.1
      · intro e t he
        exact onThrow_mono he fun _ hx _ => hx.1
  | disposePage f p =>
      have hdelete : ∀ t : Sys D, PinnedTable pins t →
          wp (onFile f fun o => PageFile.deletePage o.filename p)
            (fun _ u => Settles s (.disposePage f p) → PinnedTable pins u)
            (onThrow fun _ u => Settles s (.disposePage f p) → PinnedTable pins u) t := by
        intro t ht
        apply wp_onFile_any
        · exact fun _ streams _ => ⟨ht.live.setStreams streams, ht.pins.setStreams streams⟩
        · intro e streams
          apply onThrow_intro
          exact fun _ _ => ⟨ht.live.setStreams streams, ht.pins.setStreams streams⟩
      rw [call, wp_bind]
      apply wp_disposePage ho h.live.table.pool
      · -- pinned, not in the pool, or in the pool without a pin
        exact fun _ _ _ _ => h
      · exact fun _ => hdelete s h
      · intro i hi hpin
        obtain ⟨hv, rfl, rfl⟩ := h.live.table.pool.entry f p i hi
        exact hdelete _ ⟨h.live.evict hv, h.pins.evict hi hpin⟩

end Calls

/-! ## What `unPinPage` does

Three cases, which exclude each other: the page is in the pool with a pin, in the pool without one, or not in the
pool. In each the call is known in full.
-/

section UnPin

variable {s : Sys D} {f p i : Nat} {o : FileObject}

theorem unPinPage_unpinned (h : PoolInv s) (ho : s.objects f = some o) (hi : s.entry f p = some i)
    (hcnt : (s.desc i).pinCnt = 0) (dirty : Bool) :
    unPinPage f p dirty s = (.error (.throw (.pageNotPinned o.filename p i)), s) := by
  have hspec : wp (unPinPage f p dirty) (fun _ _ => False)
      (fun e t => e = .throw (.pageNotPinned o.filename p i) ∧ t = s) s := by
    apply wp_unPinPage ho h
    · intro hnone
      rw [hi] at hnone
      cases hnone
    · intro j hj _
      obtain rfl := Option.some.inj (hi.symm.trans hj)
      exact ⟨rfl, rfl⟩
    · intro j hj hne
      obtain rfl := Option.some.inj (hi.symm.trans hj)
      exact hne hcnt
  rcases hr : unPinPage f p dirty s with ⟨e | _, t⟩
  · rw [wp_of_error hr] at hspec
    obtain ⟨rfl, rfl⟩ := hspec
    rfl
  · rw [wp_of_ok hr] at hspec
    exact hspec.elim

/-- The `HashNotFoundException` of a page that is not in the pool is caught. -/
theorem unPinPage_absent (h : PoolInv s) (ho : s.objects f = some o) (hnone : s.entry f p = none)
    (dirty : Bool) : unPinPage f p dirty s = (.ok (), s) := by
  have hspec : wp (unPinPage f p dirty) (fun _ t => t = s) (fun _ _ => False) s := by
    apply wp_unPinPage ho h
    · exact fun _ => rfl
    · intro j hj _
      rw [hnone] at hj
      cases hj
    · intro j hj _
      rw [hnone] at hj
      cases hj
  obtain ⟨_, t, hr, rfl⟩ := exists_ok_of_wp hspec
  exact hr

theorem unPinPage_pinned (h : PoolInv s) (ho : s.objects f = some o) (hi : s.entry f p = some i)
    (hcnt : (s.desc i).pinCnt ≠ 0) (dirty : Bool) : ∃ t, unPinPage f p dirty s = (.ok (), t) := by
  have hspec : wp (unPinPage f p dirty) (fun _ _ => True) (fun _ _ => False) s := by
    apply wp_unPinPage ho h
    · exact fun _ => trivial
    · intro j hj hzero
      obtain rfl := Option.some.inj (hi.symm.trans hj)
      exact hcnt hzero
    · exact fun _ _ _ => trivial
  obtain ⟨_, t, hr, -⟩ := exists_ok_of_wp hspec
  exact ⟨t, hr⟩

end UnPin

/-! ## Runs

The balance of a page is the number of its pins in the list. The list follows the replies of the calls alone, while
`pinCnt` is what the code counts.
-/

/-- A pool and the pins that are held on it. -/
structure Accounted (D : Type) where
  sys : Sys D
  pins : List Pin

namespace Accounted

/-- The pins that are held on a page: the calls of `readPage` and `allocPage` that returned it, less those
of `unPinPage` that gave one back. -/
def balance (s : Accounted D) (file pageNo : Nat) : Nat := pinsOn s.pins file pageNo

/-- `unPinPage` keeps to the pins that are held. -/
structure Balanced (s : Accounted D) : Prop where
  returns : ∀ file pageNo dirty, (s.sys.objects file).isSome = true →
    ((∃ t, unPinPage file pageNo dirty s.sys = (.ok (), t)) ↔
      0 < s.balance file pageNo ∨ s.sys.entry file pageNo = none)
  refuses : ∀ file pageNo dirty i o, s.sys.objects file = some o →
    s.sys.entry file pageNo = some i → s.balance file pageNo = 0 →
    unPinPage file pageNo dirty s.sys = (.error (.throw (.pageNotPinned o.filename pageNo i)), s.sys)
  ignores : ∀ file pageNo dirty, (s.sys.objects file).isSome = true → s.sys.entry file pageNo = none →
    unPinPage file pageNo dirty s.sys = (.ok (), s.sys) ∧ s.balance file pageNo = 0
  stays : ∀ pin ∈ s.pins, s.sys.entry pin.file pin.pageNo = some pin.frame ∧
    (s.sys.desc pin.frame).valid = true ∧ (s.sys.desc pin.frame).file = pin.file ∧
    (s.sys.desc pin.frame).pageNo = pin.pageNo

theorem balanced_of_pinned {s : Accounted D} (h : PinnedTable s.pins s.sys) : s.Balanced := by
  have hpool := h.live.table.pool
  -- the pin count of a frame is the number of pins held on its page
  have hcounted : ∀ {f p i}, s.sys.entry f p = some i → (s.sys.desc i).pinCnt = s.balance f p :=
    fun hi => h.pins.counted _ _ _ hi
  constructor
  case returns =>
    intro file pageNo dirty hlive
    obtain ⟨o, ho⟩ := Option.isSome_iff_exists.mp hlive
    constructor
    · rintro ⟨t, hr⟩
      -- by whether the page is in the pool
      cases hi : s.sys.entry file pageNo with
      | none => exact Or.inr rfl
      | some i =>
          apply Or.inl
          by_contra hnot
          have hcnt := (hcounted hi).trans (Nat.eq_zero_of_not_pos hnot)
          rw [unPinPage_unpinned hpool ho hi hcnt] at hr
          cases hr
    · intro hpin
      cases hi : s.sys.entry file pageNo with
      | none => exact ⟨_, unPinPage_absent hpool ho hi dirty⟩
      | some i =>
          have hpos : 0 < s.balance file pageNo := by
            rcases hpin with hpos | hnone
            · exact hpos
            · rw [hi] at hnone
              cases hnone
          rw [← hcounted hi] at hpos
          exact unPinPage_pinned hpool ho hi (Nat.ne_of_gt hpos) dirty
  case refuses =>
    intro file pageNo dirty i o ho hi hzero
    exact unPinPage_unpinned hpool ho hi ((hcounted hi).trans hzero) dirty
  case ignores =>
    intro file pageNo dirty hlive hnone
    obtain ⟨o, ho⟩ := Option.isSome_iff_exists.mp hlive
    exact ⟨unPinPage_absent hpool ho hnone dirty, h.pins.pinsOn_eq_zero hnone⟩
  case stays =>
    intro pin hpin
    have hheld := h.pins.held pin hpin
    exact ⟨hheld, hpool.entry _ _ _ hheld⟩

variable [PageData D]

/-- A new pool of `bufs` frames. -/
def new (objects : Nat → Option FileObject) (streams : FileName → FStream D) (bufs : Nat) :
    Accounted D := ⟨⟨objects, streams, .new bufs⟩, []⟩

/-- What an event leaves. -/
def after (s : Accounted D) : TableEvent D → Accounted D
  | .call op => ⟨(P2.BufMgr.call op s.sys).2, op.notePins (P2.BufMgr.call op s.sys).1 s.pins⟩
  | .outside streams frames => ⟨afterEvent s.sys (.outside streams frames), s.pins⟩

theorem pinned_after {s : Accounted D} (h : PinnedTable s.pins s.sys) {e : TableEvent D}
    (hok : TableOkSettles s.sys e) : PinnedTable (s.after e).pins (s.after e).sys := by
  obtain ⟨hok, hsettles⟩ := hok
  cases e with
  | call op =>
      obtain ⟨hlive, hgo⟩ := hok
      obtain ⟨o, ho⟩ := Option.isSome_iff_exists.mp hlive
      have hspec := call_pinned h op ho
      show PinnedTable (op.notePins (P2.BufMgr.call op s.sys).1 s.pins) (P2.BufMgr.call op s.sys).2
      -- the call has thrown, and no pin has changed, or it has returned
      rcases hr : P2.BufMgr.call op s.sys with ⟨e | r, t⟩
      · rw [wp_of_error hr] at hspec
        rw [hr] at hgo
        cases e with
        | throw x =>
            have hpins : op.notePins (.error (.throw x)) s.pins = s.pins := by
              cases op <;> rfl
            rw [hpins]
            exact hspec (hsettles op rfl)
        | _ => exact hgo.elim
      · rw [wp_of_ok hr] at hspec
        exact hspec (hsettles op rfl)
  | outside streams frames =>
      have hlive : LiveTable (afterEvent s.sys (.outside streams frames)) :=
        liveTable_after h.live ⟨trivial, fun _ he => by cases he⟩
      exact ⟨hlive, hlive.table.pool, h.pins.hashed, h.pins.counted, h.pins.held⟩

end Accounted

/-- **Pins are accounted for**, in every run of calls that settle: a pin of a page in the pool is given back
just if one is held, and otherwise refused; a page that has none and is not in the pool is passed over;
neither changes anything. A page that is pinned is in the frame it was pinned in. -/
theorem accounting [PageData D] (objects : Nat → Option FileObject) (streams : FileName → FStream D)
    (bufs : Nat) (hbufs : 1 ≤ bufs) {events : List (TableEvent D)} {s : Accounted D}
    (h : Run (Run.guarded (fun s e => TableOkSettles s.sys e) Accounted.after)
      (Accounted.new objects streams bufs) events s) : s.Balanced := by
  apply Accounted.balanced_of_pinned
  apply h.invariant (I := fun s => PinnedTable s.pins s.sys)
  · have hnew := pinInv_new objects streams hbufs
    exact ⟨⟨⟨hnew.pool, fun _ hv => by cases hv⟩, fun _ hv => by cases hv⟩, hnew⟩
  · intro s e t hs hstep
    obtain ⟨hok, rfl⟩ := hstep
    exact Accounted.pinned_after hs hok

/-- One frame: a page is pinned, another one is refused, and once the pin has been given back there is room
for it. -/
theorem accounting_evicts :
    let events : List (TableEvent StringArea) :=
      [.call (.allocPage 1), .call (.allocPage 2), .call (.unPinPage 1 1 true), .call (.allocPage 2)]
    let s := events.foldl Accounted.after (Accounted.new twoFiles (newStreams true) 1)
    s.pins = [⟨2, 1, 0, false⟩] ∧ s.Balanced := by
  refine ⟨rfl, accounting twoFiles (newStreams true) 1 (by decide) (Run.of_allOk ?_)⟩
  refine ⟨⟨⟨rfl, trivial⟩, ?_⟩, ⟨⟨rfl, trivial⟩, ?_⟩, ⟨⟨rfl, trivial⟩, ?_⟩, ⟨⟨rfl, trivial⟩, ?_⟩,
    trivial⟩
  · rintro _ ⟨⟩ i t h
    cases h
    exact ⟨fun page u h => by cases h; rfl, fun e u h => by cases h⟩
  · rintro _ ⟨⟩ i t h
    cases h
  · rintro _ ⟨⟩
    trivial
  · rintro _ ⟨⟩ i t h
    cases h
    exact ⟨fun page u h => by cases h; rfl, fun e u h => by cases h⟩

/-- A page that has never been pinned can be unpinned. And a pinned page can leave the hash table: a page
that does not exist is asked for, which leaves the first page of a file in its frame without an entry; the
page is read again into the other frame, and when the first frame is taken, the new entry goes. -/
theorem accounting_unchecked :
    (let s : Accounted StringArea := Accounted.new twoFiles (newStreams true) 2
     s.balance 1 1 = 0 ∧ unPinPage 1 1 false s.sys = (.ok (), s.sys)) ∧
    let events : List (TableEvent StringArea) :=
      [.call (.allocPage 1), .call (.allocPage 2), .call (.unPinPage 1 1 false), .call (.readPage 1 9),
        .call (.unPinPage 2 1 false), .call (.readPage 1 1), .call (.allocPage 2)]
    let s := events.foldl Accounted.after (Accounted.new twoFiles (newStreams true) 2)
    Run (Run.guarded (fun s e => TableOk s.sys e) Accounted.after)
        (Accounted.new twoFiles (newStreams true) 2) events s ∧
      0 < s.balance 1 1 ∧ s.sys.entry 1 1 = none := by
  refine ⟨⟨rfl, rfl⟩, Run.of_allOk ?_, by decide +kernel⟩
  exact ⟨⟨rfl, trivial⟩, ⟨rfl, trivial⟩, ⟨rfl, trivial⟩, ⟨rfl, trivial⟩, ⟨rfl, trivial⟩, ⟨rfl, trivial⟩,
    ⟨rfl, trivial⟩, trivial⟩

end CS640.Badger.P2.BufMgr
