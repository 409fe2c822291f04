import CS640.Badger.Buffer.P3
import CS640.Lib.Charges
import CS640.Lib.Lockstep
import Mathlib.Algebra.Order.Group.Int

/-!
# The statistics of p3

`BufMgr` of p3 counts in its `BufStats`: `accesses` where the clock clears a reference bit, `diskreads` where a
page is read that is not in the pool, and `diskwrites` where a page that is taken out of the pool is written.
The other calls count nothing, also where they write or allocate. `Metered` is a pool with its statistics, and the
calls on it do to the pool what those of `P3.BufMgr` do.

A reference bit that is set pays for the access that clears it, and a page that is dirty for the write that
takes it out of the pool.

Main result: `stats_run`, what the statistics are in any run, in terms of the calls alone.

The argument is one of amortised cost. `Account` names the four things that are bounded, `balance` is what has been
counted of one of them plus what the pool holds to pay for the next, and `Costs` of `Lib.Charges` bounds by how much
a call may raise it:

* `call_runs`: with the statistics the calls do to the pool what they do without them.
* `scan_costs`, `evict_costs`, `fetch_costs`, `allocPage_costs` and `readPage_costs`: what the parts of the calls
  cost.
* `balance_call`: a whole call costs no more than what was asked of the pool by making it.
-/

namespace CS640.Badger

open CS640.Lib Prog
open CS640.Badger.BufMgr

variable {D : Type}

/-- `BufStats`. Its members are of type `int`; fewer than `2 ^ 31` of each are counted here. -/
structure BufStats where
  accesses : Nat
  diskreads : Nat
  diskwrites : Nat
  deriving DecidableEq, Repr

/-- `BufStats::clear`. -/
def BufStats.clear : BufStats := ⟨0, 0, 0⟩

/-- A pool and its member `bufStats`. -/
structure Metered (D : Type) where
  sys : Sys D
  bufStats : BufStats

namespace Metered

/-- `BufMgr::BufMgr`, among the `File` objects that there are. -/
def new [PageData D] (objects : Nat → Option FileObject) (streams : FileName → FStream D) (bufs : Nat) :
    Metered D :=
  ⟨⟨objects, streams, .new bufs⟩, .clear⟩

/-- What does not count. -/
def onSys {α : Type} (x : Prog Exn (Sys D) α) : Prog Exn (Metered D) α :=
  zoom Metered.sys (fun sys s => { s with sys := sys }) x

def count (f : BufStats → BufStats) : Prog Exn (Metered D) Unit :=
  modify fun s => { s with bufStats := f s.bufStats }

/-- The loop of `allocBuf`, with the statistics. -/
def scan : (rounds numScanned : Nat) → Prog Exn (Metered D) (Nat × Bool)
  | 0, numScanned => pure (numScanned, false)
  | rounds + 1, numScanned => do
    onSys advanceClock
    let s ← get
    let tmpbuf := s.sys.desc s.sys.clockHand
    if tmpbuf.valid = false then pure (numScanned + 1, false)
    else if tmpbuf.refbit = false then
      if tmpbuf.pinCnt = 0 then do
        onSys (remove tmpbuf.file tmpbuf.pageNo)
        pure (numScanned + 1, true)
      else scan rounds (numScanned + 1)
    else do
      count fun stats => { stats with accesses := stats.accesses + 1 }
      onSys (modify (Sys.setDesc s.sys.clockHand fun d => { d with refbit := false }))
      scan rounds (numScanned + 1)

/-- Write frame `i` to its file if it is dirty. -/
def writeBack (i : Nat) : Prog Exn (Metered D) Unit := do
  let s ← get
  if (s.sys.desc i).dirty = true then do
    count fun stats => { stats with diskwrites := stats.diskwrites + 1 }
    onSys (onFile (s.sys.desc i).file fun file => file.writePage (s.sys.desc i).pageNo (s.sys.frame i))
  else pure ()

/-- `BufMgr::allocBuf`. -/
def allocBuf : Prog Exn (Metered D) Nat := do
  let s ← get
  let (numScanned, found) ← scan (P3.BufMgr.scanBound s.sys) 0
  if found = false ∧ numScanned ≥ P3.BufMgr.scanBound s.sys then throw .bufferExceeded
  else do
    let s ← get
    writeBack s.sys.clockHand
    onSys (modify (Sys.setDesc s.sys.clockHand BufDesc.clear))
    pure s.sys.clockHand

/-- The handler of `readPage`. -/
def onHashNotFound {α : Type} (x : Prog Exn (Metered D) α) : Exn → Option (Prog Exn (Metered D) α)
  | .hashNotFound _ _ => some x
  | _ => none

/-- A page that is not in the pool. -/
def fetch [PageData D] (file pageNo : Nat) : Prog Exn (Metered D) Nat := do
  let frameNo ← allocBuf
  count fun stats => { stats with diskreads := stats.diskreads + 1 }
  let page ← onSys (onFile file fun file => file.readPage pageNo)
  onSys (modify (Sys.setFrame frameNo page))
  onSys (modify (Sys.setDesc frameNo (BufDesc.set file pageNo)))
  onSys (insert file pageNo frameNo)
  pure frameNo

/-- `BufMgr::readPage`. -/
def readPage [PageData D] (file pageNo : Nat) : Prog Exn (Metered D) Nat :=
  tryCatch
    (do
      let frameNo ← onSys (lookup file pageNo)
      onSys (modify (Sys.setDesc frameNo fun d => { d with refbit := true, pinCnt := d.pinCnt + 1 }))
      pure frameNo)
    (onHashNotFound (fetch file pageNo))

/-- `BufMgr::allocPage`. -/
def allocPage [PageData D] (file : Nat) : Prog Exn (Metered D) (Nat × Nat) := do
  let frameNo ← allocBuf
  let (pageNo, page) ← onSys (onFile file FileObject.allocatePage)
  onSys (modify (Sys.setFrame frameNo page))
  onSys (modify (Sys.setDesc frameNo (BufDesc.set file pageNo)))
  onSys (insert file pageNo frameNo)
  pure (pageNo, frameNo)

/-- Make a call on a `BufMgr` of p3. -/
def call [PageData D] : BufOp → Prog Exn (Metered D) BufReply
  | .readPage file pageNo => do
    let frameNo ← readPage file pageNo
    pure (.page pageNo frameNo)
  | .allocPage file => do
    let (pageNo, frameNo) ← allocPage file
    pure (.page pageNo frameNo)
  | .unPinPage file pageNo dirty => do
    onSys (P3.BufMgr.unPinPage file pageNo dirty)
    pure .done
  | .flushFile file => do
    onSys (P3.BufMgr.flushFile file)
    pure .done
  | .disposePage file pageNo => do
    onSys (P3.BufMgr.disposePage file pageNo)
    pure .done

/-! ## The pool

Counting must not change what is counted. `Runs` says that a call with the statistics and the call of `P3.BufMgr`
end in the same way and leave the same pool, and it is kept by everything that the calls are made of.
-/

/-- `x` does to the pool what `y` does. -/
def Runs {α : Type} (x : Prog Exn (Metered D) α) (y : Prog Exn (Sys D) α) : Prop :=
  ∀ s, Lockstep (fun (m : Metered D) t => m.sys = t) x y s s.sys

namespace Runs

variable {α β : Type} {x : Prog Exn (Metered D) α} {y : Prog Exn (Sys D) α}

theorem onSys (y : Prog Exn (Sys D) α) : Runs (onSys y) y := fun _ => ⟨rfl, rfl⟩

theorem pure (a : α) : Runs (D := D) (Pure.pure a) (Pure.pure a) := fun _ => .pure a rfl

theorem throw (e : Exn) : Runs (D := D) (α := α) (Prog.throw e) (Prog.throw e) := fun _ => .throw e rfl

theorem get {f : Metered D → Prog Exn (Metered D) α} {g : Sys D → Prog Exn (Sys D) α}
    (h : ∀ s, Runs (f s) (g s.sys)) : Runs (Prog.get >>= f) (Prog.get >>= g) := fun s => .get (h s s)

theorem bind {f : α → Prog Exn (Metered D) β} {g : α → Prog Exn (Sys D) β} (h : Runs x y)
    (hf : ∀ a, Runs (f a) (g a)) : Runs (x >>= f) (y >>= g) := by
  intro s
  apply (h s).bind
  rintro a s' _ - - rfl
  exact hf a s'

/-- Counting does nothing to the pool. -/
theorem count_bind (f : BufStats → BufStats) (h : Runs x y) : Runs (count f >>= fun _ => x) y :=
  fun s => ⟨(h { s with bufStats := f s.bufStats }).result, (h { s with bufStats := f s.bufStats }).state⟩

theorem ite {c : Prop} [Decidable c] {x' : Prog Exn (Metered D) α} {y' : Prog Exn (Sys D) α} (h : Runs x y)
    (h' : Runs x' y') : Runs (if c then x else x') (if c then y else y') :=
  fun s => .ite Iff.rfl (fun _ => h s) fun _ => h' s

end Runs

theorem scan_runs (rounds : Nat) : ∀ n, Runs (D := D) (scan rounds n) (P3.BufMgr.scan rounds n) := by
  induction rounds with
  | zero => exact fun _ => .pure _
  | succ rounds ih =>
      intro n
      apply (Runs.onSys _).bind
      intro _
      apply Runs.get
      intro s
      apply Runs.ite
      · exact .pure _
      · apply Runs.ite
        · -- the frame is not in use; it is unpinned with its bit clear; it is pinned; its bit is set
          apply Runs.ite
          · exact (Runs.onSys _).bind fun _ => .pure _
          · exact ih _
        · exact .count_bind _ ((Runs.onSys _).bind fun _ => ih _)

theorem writeBack_runs (i : Nat) : Runs (D := D) (writeBack i) (P3.BufMgr.writeBack i) := by
  apply Runs.get
  intro s
  apply Runs.ite
  · exact .count_bind _ (.onSys _)
  · exact .pure _

theorem allocBuf_runs : Runs (D := D) allocBuf P3.BufMgr.allocBuf := by
  apply Runs.get
  intro s
  apply (scan_runs _ _).bind
  -- the frame may not have been found, and otherwise it is written back and cleared
  rintro ⟨numScanned, found⟩
  apply Runs.ite
  · exact .throw _
  · apply Runs.get
    intro s
    exact (writeBack_runs _).bind fun _ => (Runs.onSys _).bind fun _ => .pure _

theorem fetch_runs [PageData D] (file pageNo : Nat) : Runs (D := D) (fetch file pageNo) (do
    let frameNo ← P3.BufMgr.allocBuf
    let page ← onFile file fun file => file.readPage pageNo
    modify (Sys.setFrame frameNo page)
    modify (Sys.setDesc frameNo (BufDesc.set file pageNo))
    insert file pageNo frameNo
    pure frameNo) := by
  apply allocBuf_runs.bind
  intro frameNo
  apply Runs.count_bind
  apply (Runs.onSys _).bind
  intro page
  exact (Runs.onSys _).bind fun _ => (Runs.onSys _).bind fun _ => (Runs.onSys _).bind fun _ => .pure _

theorem readPage_runs [PageData D] (file pageNo : Nat) :
    Runs (D := D) (readPage file pageNo) (P3.BufMgr.readPage file pageNo) := by
  intro s
  have hhit : Runs (D := D) (do
      let frameNo ← onSys (lookup file pageNo)
      onSys (modify (Sys.setDesc frameNo fun d => { d with refbit := true, pinCnt := d.pinCnt + 1 }))
      pure frameNo) (do
      let frameNo ← lookup file pageNo
      modify (Sys.setDesc frameNo fun d => { d with refbit := true, pinCnt := d.pinCnt + 1 })
      pure frameNo) :=
    (Runs.onSys _).bind fun _ => (Runs.onSys _).bind fun _ => .pure _
  apply (hhit s).tryCatch
  rintro e s' _ rfl
  cases e with
  -- only `HashNotFoundException` is handled, by both
  | hashNotFound => exact .some (fetch_runs file pageNo s')
  | _ => exact .none

theorem allocPage_runs [PageData D] (file : Nat) :
    Runs (D := D) (allocPage file) (P3.BufMgr.allocPage file) := by
  apply allocBuf_runs.bind
  intro frameNo
  apply (Runs.onSys _).bind
  rintro ⟨pageNo, page⟩
  exact (Runs.onSys _).bind fun _ => (Runs.onSys _).bind fun _ => (Runs.onSys _).bind fun _ => .pure _

/-- The calls do to the pool what they do without the statistics. -/
theorem call_runs [PageData D] (op : BufOp) : Runs (D := D) (call op) (P3.BufMgr.call op) := by
  cases op with
  | readPage file pageNo => exact (readPage_runs file pageNo).bind fun _ => .pure _
  | allocPage file =>
      apply (allocPage_runs file).bind
      rintro ⟨pageNo, frameNo⟩
      exact .pure _
  | unPinPage file pageNo dirty => exact (Runs.onSys _).bind fun _ => .pure _
  | flushFile file => exact (Runs.onSys _).bind fun _ => .pure _
  | disposePage file pageNo => exact (Runs.onSys _).bind fun _ => .pure _

end Metered

/-! ## Counting frames

What the pool holds is a number of frames: those with their reference bit set, and those that are dirty. A call
changes one descriptor at a time, so the number changes by one at most.
-/

/-- The number of frames whose descriptor has `b`. -/
def Sys.tally (b : BufDesc → Bool) (s : Sys D) : Nat := (List.range s.numBufs).countP fun i => b (s.desc i)

theorem countP_range_congr {p q : Nat → Bool} {n : Nat} (h : ∀ i < n, p i = q i) :
    (List.range n).countP p = (List.range n).countP q := by
  apply List.countP_congr
  intro i hi
  rw [h i (List.mem_range.mp hi)]

/-- Two counts that differ at one index. -/
theorem countP_range_update {p q : Nat → Bool} {n i : Nat} (hi : i < n) (h : ∀ j ≠ i, p j = q j) :
    (List.range n).countP p + (q i).toNat = (List.range n).countP q + (p i).toNat := by
  induction n with
  | zero => exact absurd hi (Nat.not_lt_zero i)
  | succ n ih =>
      have hlast : ∀ r : Nat → Bool, (List.range (n + 1)).countP r = (List.range n).countP r + (r n).toNat := by
        intro r
        rw [List.range_succ, List.countP_append, List.countP_singleton]
        cases r n <;> rfl
      rw [hlast, hlast]
      -- the last index is the one that differs, or one of those before it is
      rcases Nat.lt_succ_iff_lt_or_eq.mp hi with hlt | rfl
      · have hsame := h n (Nat.ne_of_gt hlt)
        have hrest := ih hlt
        rw [hsame]
        omega
      · have hrest := countP_range_congr (p := p) (q := q) fun j hj => h j (Nat.ne_of_lt hj)
        omega

namespace Sys

variable {b : BufDesc → Bool} {s t : Sys D} {i : Nat}

theorem tally_congr (hbufs : t.numBufs = s.numBufs) (hdesc : ∀ i, t.desc i = s.desc i) :
    t.tally b = s.tally b := by
  rw [tally, tally, hbufs]
  exact countP_range_congr fun i _ => by rw [hdesc i]

theorem tally_setDesc (hi : i < s.numBufs) (f : BufDesc → BufDesc) :
    (s.setDesc i f).tally b + (b (s.desc i)).toNat = s.tally b + (b (f (s.desc i))).toNat := by
  have hupdate := countP_range_update (p := fun j => b ((s.setDesc i f).desc j)) (q := fun j => b (s.desc j))
    hi fun j hj => by rw [desc_setDesc, if_neg hj]
  rwa [desc_setDesc, if_pos rfl] at hupdate

theorem tally_setDesc_of_not_lt (hi : ¬ i < s.numBufs) (f : BufDesc → BufDesc) :
    (s.setDesc i f).tally b = s.tally b := by
  apply countP_range_congr
  intro j hj
  have hne : j ≠ i := by
    rintro rfl
    exact hi hj
  rw [desc_setDesc, if_neg hne]

theorem tally_setDesc_le (f : BufDesc → BufDesc) : (s.setDesc i f).tally b ≤ s.tally b + 1 := by
  by_cases hi : i < s.numBufs
  · have hsum := tally_setDesc (b := b) hi f
    have hone := Bool.toNat_le (b (f (s.desc i)))
    omega
  · rw [tally_setDesc_of_not_lt hi]
    exact Nat.le_succ _

/-- A frame that did not have `b` does not get it. -/
theorem tally_setDesc_mono {f : BufDesc → BufDesc} (h : b (f (s.desc i)) = true → b (s.desc i) = true) :
    (s.setDesc i f).tally b ≤ s.tally b := by
  by_cases hi : i < s.numBufs
  · have hsum := tally_setDesc (b := b) hi f
    have hle : (b (f (s.desc i))).toNat ≤ (b (s.desc i)).toNat := Bool.toNat_le_toNat h
    omega
  · rw [tally_setDesc_of_not_lt hi]

end Sys

/-! ## Accounts

Each account has a sign and a unit of its own, and what a change of one descriptor does to it is one lemma for each
kind of change: nothing new, a reference, an update, a bit that is cleared, a frame that is given up.
-/

/-- What is counted. `unread` is `reads` with the other sign, for the bound from below. -/
inductive Account where
  | references
  | reads
  | unread
  | writes
  deriving DecidableEq

namespace Account

/-- The counters. -/
def spent (stats : BufStats) : Account → Int
  | references => stats.accesses
  | reads => stats.diskreads
  | unread => -stats.diskreads
  | writes => stats.diskwrites

/-- What the pool holds to pay with. -/
def held (s : Sys D) : Account → Int
  | references => s.tally (·.refbit)
  | reads => 0
  | unread => 0
  | writes => s.tally (·.dirty)

/-- One of the account. -/
def one (account a : Account) : Int := if a = account then 1 else 0

variable {a : Account} {s t : Sys D} {i : Nat}

theorem held_congr (hbufs : t.numBufs = s.numBufs) (hdesc : ∀ i, t.desc i = s.desc i) :
    held t a = held s a := by
  cases a <;> simp only [held, Sys.tally_congr hbufs hdesc]

theorem held_setDesc_le {f : BufDesc → BufDesc} (hrefbit : (f (s.desc i)).refbit = true → (s.desc i).refbit = true)
    (hdirty : (f (s.desc i)).dirty = true → (s.desc i).dirty = true) : held (s.setDesc i f) a ≤ held s a := by
  cases a with
  | references => exact Int.ofNat_le.mpr (Sys.tally_setDesc_mono hrefbit)
  | writes => exact Int.ofNat_le.mpr (Sys.tally_setDesc_mono hdirty)
  | _ => exact le_rfl

/-- A frame is referenced. -/
theorem held_reference {f : BufDesc → BufDesc} (hdirty : (f (s.desc i)).dirty = true → (s.desc i).dirty = true) :
    held (s.setDesc i f) a ≤ held s a + one references a := by
  cases a with
  | references => exact Int.ofNat_le.mpr (Sys.tally_setDesc_le f)
  | writes => simpa [one, held] using Sys.tally_setDesc_mono (b := (·.dirty)) hdirty
  | _ => simp [one, held]

/-- A frame becomes dirty. -/
theorem held_change {f : BufDesc → BufDesc} (hrefbit : (f (s.desc i)).refbit = true → (s.desc i).refbit = true) :
    held (s.setDesc i f) a ≤ held s a + one writes a := by
  cases a with
  | references => simpa [one, held] using Sys.tally_setDesc_mono (b := (·.refbit)) hrefbit
  | writes => exact Int.ofNat_le.mpr (Sys.tally_setDesc_le f)
  | _ => simp [one, held]

/-- The bit of a frame is cleared. -/
theorem held_clearRefbit (hi : i < s.numBufs) (hbit : (s.desc i).refbit = true) :
    held (s.setDesc i fun d => { d with refbit := false }) a ≤ held s a + -one references a := by
  cases a with
  -- the count of the bits goes down by one
  | references =>
      have hsum := Sys.tally_setDesc (b := (·.refbit)) hi fun d => { d with refbit := false }
      simp only [hbit, Bool.toNat_true, Bool.toNat_false] at hsum
      simp only [held, one, if_true]
      omega
  -- none becomes dirty by that
  | writes => simpa [one] using held_setDesc_le (a := writes) (f := fun d => { d with refbit := false }) nofun id
  | _ => simp [one, held]

/-- A frame that is dirty is given up. -/
theorem held_evict (hi : i < s.numBufs) (hdirty : (s.desc i).dirty = true) :
    held (s.setDesc i BufDesc.clear) a ≤ held s a + -one writes a := by
  cases a with
  | writes =>
      have hsum := Sys.tally_setDesc (b := (·.dirty)) hi BufDesc.clear
      simp only [hdirty, BufDesc.clear, Bool.toNat_true, Bool.toNat_false] at hsum
      simp only [held, one, if_true]
      omega
  | references => simpa [one] using held_setDesc_le (a := references) (f := BufDesc.clear) nofun nofun
  | _ => simp [one, held]

end Account

/-! ## What the calls cost

The calls that count nothing come first. They may set bits, which is what they are charged for, and clear bits,
which costs nothing.
-/

section Costs

open Account

variable {α : Type} {a : Account} {s t : Sys D} {i f p : Nat} {k l : Int}

/-- The descriptors are as they were. -/
def Untouched (s t : Sys D) : Prop := t.numBufs = s.numBufs ∧ ∀ i, t.desc i = s.desc i

theorem Untouched.costs {x : Prog Exn (Sys D) α} (h : Keeps (Untouched s) x) :
    Costs (fun t => held t a) 0 0 x s := by
  apply Costs.of_eq
  apply wp_mono (h s ⟨rfl, fun _ => rfl⟩)
  · exact fun _ t ht => held_congr ht.1 ht.2
  · exact fun _ t ht => held_congr ht.1 ht.2

theorem onFile_untouched (x : FileObject → Prog Exn (FStream D) α) : Keeps (Untouched s) (onFile f x) :=
  onFile_keeps (fun _ _ ht => ht) f x

theorem insert_untouched : Keeps (Untouched s) (insert f p i) := insert_keeps fun _ ht => ht

theorem remove_untouched : Keeps (Untouched s) (remove f p) := remove_keeps fun _ ht => ht

/-- A round of the clock ends at a frame of the pool. -/
theorem scan_hand (rounds : Nat) : ∀ (n : Nat) (s : Sys D), 0 < s.numBufs →
    (rounds = 0 → s.clockHand < s.numBufs) →
    wp (P3.BufMgr.scan rounds n) (fun _ t => t.clockHand < t.numBufs) (fun _ _ => True) s := by
  induction rounds with
  | zero => exact fun _ _ _ hhand => hhand rfl
  | succ rounds ih =>
      intro n s hbufs _
      have hhand : (P3.BufMgr.tick s).clockHand < (P3.BufMgr.tick s).numBufs := Nat.mod_lt _ hbufs
      have hremove : Keeps (fun t : Sys D => t.clockHand < t.numBufs)
          (remove (s.desc ((s.clockHand + 1) % s.numBufs)).file
            (s.desc ((s.clockHand + 1) % s.numBufs)).pageNo) := remove_keeps fun _ ht => ht
      -- the clock has moved on before anything else, so its hand is in range wherever the round ends
      apply P3.BufMgr.wp_scan_succ rfl
      · exact fun _ => hhand
      · exact fun _ _ => wp_mono (hremove _ hhand) (fun _ _ ht => ht) fun _ _ _ => trivial
      · exact fun _ _ _ => ih _ _ hbufs fun _ => hhand
      · exact fun _ _ => ih _ _ hbufs fun _ => hhand

theorem unPinPage_costs (f p : Nat) (dirty : Bool) :
    Costs (fun t => held t a) (if dirty then one writes a else 0) (if dirty then one writes a else 0)
      (P3.BufMgr.unPinPage f p dirty) s := by
  have hpos : 0 ≤ if dirty then one writes a else 0 := by
    cases dirty <;> cases a <;> simp [one]
  apply Costs.free_bind (Untouched.costs (lookup_keeps f p)) _ hpos
  intro i t _
  have hchange : Costs (fun t => held t a) (if dirty then one writes a else 0) 0
      (modify (Sys.setDesc i fun d => { d with dirty := dirty || d.dirty }) : Prog Exn (Sys D) Unit) t := by
    apply Costs.modify
    -- `dirty` is set before the pin count is looked at, so it is charged for also where the call throws
    cases dirty with
    | false => simpa using held_setDesc_le (f := fun d => { d with dirty := false || d.dirty }) id id
    | true => exact held_change id
  refine hchange.bind ?_ (add_zero _).le hpos (add_zero _).le
  intro _ u _
  apply Costs.get
  apply Costs.ite
  · intro _
    exact Costs.free_bind (Untouched.costs (filename_keeps f)) (fun _ _ _ => Costs.throw _) le_rfl
  · intro _
    apply Costs.modify
    rw [add_zero]
    exact held_setDesc_le id id

/-- What only takes bits away. -/
theorem costs_of_keeps {x : Prog Exn (Sys D) α} (h : Keeps (fun t => held t a ≤ held s a) x) :
    Costs (fun t => held t a) 0 0 x s := by
  apply wp_mono (h s le_rfl)
  · exact fun _ t ht => ht.trans (add_zero _).ge
  · exact fun _ t ht => ht.trans (add_zero _).ge

theorem flushFile_costs (f : Nat) : Costs (fun t => held t a) 0 0 (P3.BufMgr.flushFile f) s := by
  apply costs_of_keeps
  apply Keeps.get.bind
  intro u
  apply Keeps.forRange
  intro i
  apply Keeps.get.bind
  intro u
  apply Keeps.ite
  · intro _
    apply Keeps.ite
    · -- pinned: the call throws and has changed nothing
      exact fun _ => (filename_keeps f).bind fun _ => Keeps.throw _
    · intro _
      apply Keeps.bind
      · apply Keeps.get.bind
        intro v
        -- a dirty frame is written, which the statistics do not see here
        exact Keeps.ite (fun _ => onFile_keeps (fun _ _ ht => ht) _ _) fun _ => Keeps.pure _
      · intro _
        -- then it is no longer dirty, it leaves the table, and it is cleared
        apply Keeps.bind
        · exact Keeps.modify fun t ht => (held_setDesc_le id (fun h => by cases h)).trans ht
        · intro _
          apply (remove_keeps fun _ ht => ht).bind
          exact fun _ => Keeps.modify fun t ht =>
            (held_setDesc_le (fun h => by cases h) (fun h => by cases h)).trans ht
  · intro _
    exact Keeps.ite (fun _ => Keeps.throw _) fun _ => Keeps.pure _

theorem disposePage_costs [PageData D] (f p : Nat) :
    Costs (fun t => held t a) 0 0 (P3.BufMgr.disposePage f p) s := by
  apply costs_of_keeps
  apply (lookup_keeps f p).bind
  intro i
  apply Keeps.bind
  · exact Keeps.modify fun t ht => (held_setDesc_le (fun h => by cases h) (fun h => by cases h)).trans ht
  · intro _
    exact (remove_keeps fun _ ht => ht).bind fun _ => onFile_keeps (fun _ _ ht => ht) _ _

end Costs

namespace Metered

open Account

variable {α : Type} {a : Account} {s : Metered D} {k l : Int}

/-- What was counted, and what the pool holds. -/
def balance (a : Account) (s : Metered D) : Int := spent s.bufStats a + held s.sys a

theorem costs_onSys {x : Prog Exn (Sys D) α} (h : Costs (fun t => held t a) k l x s.sys) :
    Costs (balance a) k l (onSys x) s := by
  rw [Costs, onSys, wp_zoom]
  apply wp_mono h
  · -- what was counted stays, and what the pool holds goes up by no more than the cost
    intro _ t ht
    show spent s.bufStats a + held t a ≤ spent s.bufStats a + held s.sys a + k
    rw [add_assoc]
    exact add_le_add_right ht _
  · intro _ t ht
    show spent s.bufStats a + held t a ≤ spent s.bufStats a + held s.sys a + l
    rw [add_assoc]
    exact add_le_add_right ht _

theorem costs_count {f : BufStats → BufStats} (h : spent (f s.bufStats) a ≤ spent s.bufStats a + k) :
    Costs (balance a) k l (count f) s := by
  apply Costs.modify
  show spent (f s.bufStats) a + held s.sys a ≤ spent s.bufStats a + held s.sys a + k
  rw [add_right_comm]
  exact add_le_add_left h _

/-- The clock pays an access with the bit that it clears. -/
theorem scan_costs (rounds : Nat) : ∀ n (s : Metered D), 0 < s.sys.numBufs →
    Costs (balance a) 0 0 (scan rounds n) s := by
  induction rounds with
  | zero => exact fun _ _ _ => Costs.pure _
  | succ rounds ih =>
      intro n s hbufs
      have htick : Keeps (Untouched s.sys) advanceClock :=
        Keeps.get.bind fun _ => Keeps.modify fun _ ht => ht
      apply Costs.free_bind (costs_onSys (Untouched.costs htick)) _ le_rfl
      rintro _ _ ⟨⟩
      apply Costs.get
      apply Costs.ite
      · -- a frame that is not in use: the clock stops
        exact fun _ => Costs.pure _
      · intro _
        apply Costs.ite
        · intro _
          apply Costs.ite
          · -- an unpinned frame with its bit clear: it leaves the table
            intro _
            exact Costs.free_bind (costs_onSys (Untouched.costs remove_untouched)) (fun _ _ _ => Costs.pure _)
              le_rfl
          · -- a pinned one is passed over
            exact fun _ => ih _ _ hbufs
        · intro hbit
          have hbit := eq_true_of_ne_false hbit
          have hspend : Costs (balance a) (one references a) 0
              (count (D := D) fun stats => { stats with accesses := stats.accesses + 1 })
              { s with sys := P3.BufMgr.tick s.sys } := by
            apply costs_count
            -- the access is counted first, and then the bit pays for it
            cases a <;> simp [spent, one]
          refine hspend.bind ?_ (add_neg_cancel _).le le_rfl (add_neg_cancel _).le
          rintro _ _ ⟨⟩
          have hhand : (P3.BufMgr.tick s.sys).clockHand < (P3.BufMgr.tick s.sys).numBufs := Nat.mod_lt _ hbufs
          have hclear : Costs (balance a) (-one references a) (-one references a)
              (onSys (modify (Sys.setDesc (P3.BufMgr.tick s.sys).clockHand fun d => { d with refbit := false })))
              ⟨P3.BufMgr.tick s.sys, { s.bufStats with accesses := s.bufStats.accesses + 1 }⟩ :=
            costs_onSys (Costs.modify (held_clearRefbit hhand hbit))
          refine hclear.bind ?_ (add_zero _).le le_rfl (add_zero _).le
          rintro _ _ ⟨⟩
          exact ih _ _ hbufs

theorem Runs.of_ok {x : Prog Exn (Metered D) α} {y : Prog Exn (Sys D) α} (h : Runs x y) {b : α} {t : Metered D}
    (hr : x s = (.ok b, t)) : y s.sys = (.ok b, t.sys) := by
  obtain ⟨hresult, hstate⟩ := h s
  rw [hr] at hresult hstate
  exact Prod.ext hresult.symm hstate.symm

/-- A page that is dirty pays for the write that takes it out of the pool, unless that fails. -/
theorem evict_costs {i : Nat} (hi : i < s.sys.numBufs) :
    Costs (balance a) 0 (one writes a) (do
      writeBack i
      onSys (modify (Sys.setDesc i BufDesc.clear))
      pure i) s := by
  have hpos : 0 ≤ one writes a := by cases a <;> simp [one]
  -- the frame is dirty: the write is counted, and the dirty bit that is cleared pays for it
  by_cases hdirty : (s.sys.desc i).dirty = true
  · have hwrite : Costs (balance a) (one writes a) (one writes a) (writeBack i) s := by
      apply Costs.get
      rw [if_pos hdirty]
      have hspend : Costs (balance a) (one writes a) 0
          (count (D := D) fun stats => { stats with diskwrites := stats.diskwrites + 1 }) s := by
        apply costs_count
        cases a <;> simp [spent, one]
      refine hspend.bind ?_ (add_zero _).le hpos (add_zero _).le
      exact fun _ _ _ => costs_onSys (Untouched.costs (onFile_untouched _))
    refine hwrite.bind ?_ (add_neg_cancel _).le le_rfl (add_zero _).le
    intro _ t hr
    -- the frame is still dirty, and its bit pays
    have hsame : wp (P3.BufMgr.writeBack i) (fun _ u => Untouched s.sys u) (fun _ u => Untouched s.sys u) s.sys :=
      P3.BufMgr.wp_writeBack_any (fun _ => ⟨rfl, fun _ => rfl⟩) fun _ _ => ⟨rfl, fun _ => rfl⟩
    rw [wp_of_ok ((writeBack_runs i).of_ok hr)] at hsame
    have hclear : Costs (balance a) (-one writes a) 0 (onSys (modify (Sys.setDesc i BufDesc.clear))) t := by
      apply costs_onSys
      apply Costs.modify
      apply held_evict
      · rw [hsame.1]
        exact hi
      · rw [hsame.2]
        exact hdirty
    refine hclear.bind (fun _ _ _ => Costs.pure (l := 0) i) (add_zero _).le le_rfl ?_
    simpa using hpos
  · -- a clean frame costs nothing
    have hskip : Costs (balance a) 0 0 (writeBack i) s := by
      apply Costs.get
      rw [if_neg hdirty]
      exact Costs.pure _
    apply hskip.free_bind _ hpos
    intro _ t _
    have hclear : Costs (balance a) 0 0 (onSys (modify (Sys.setDesc i BufDesc.clear))) t := by
      apply costs_onSys
      apply Costs.modify
      rw [add_zero]
      exact held_setDesc_le nofun nofun
    exact hclear.free_bind (fun _ _ _ => Costs.pure _) hpos

theorem allocBuf_costs : Costs (balance a) 0 (one writes a) (allocBuf (D := D)) s := by
  have hpos : 0 ≤ one writes a := by cases a <;> simp [one]
  apply Costs.get
  -- a pool without frames
  by_cases hbound : P3.BufMgr.scanBound s.sys = 0
  · rw [hbound]
    exact (Costs.throw (k := 0) _).weaken le_rfl hpos
  · have hbufs : 0 < s.sys.numBufs := by
      apply Nat.pos_of_ne_zero
      intro hzero
      rw [P3.BufMgr.scanBound, hzero] at hbound
      exact hbound rfl
    apply (scan_costs _ 0 s hbufs).free_bind _ hpos
    rintro ⟨numScanned, found⟩ t hr
    apply Costs.ite
    · -- the clock found no frame
      exact fun _ => (Costs.throw (k := 0) _).weaken le_rfl hpos
    · intro _
      have hhand := scan_hand _ 0 s.sys hbufs fun hzero => absurd hzero hbound
      rw [wp_of_ok ((scan_runs _ 0).of_ok hr)] at hhand
      exact Costs.get (evict_costs hhand)

/-- A page is put into a frame. -/
theorem load_costs {β : Type} (i f p : Nat) (page : Page D) (b : β) :
    Costs (balance a) (one references a) (one references a) (do
      onSys (modify (Sys.setFrame i page))
      onSys (modify (Sys.setDesc i (BufDesc.set f p)))
      onSys (insert f p i)
      pure b) s := by
  have hpos : 0 ≤ one references a := by cases a <;> simp [one]
  have hframe : Costs (balance a) 0 0 (onSys (modify (Sys.setFrame i page))) s :=
    costs_onSys (Costs.modify (add_zero _).ge)
  apply hframe.free_bind _ hpos
  intro _ t _
  have hdesc : Costs (balance a) (one references a) 0 (onSys (modify (Sys.setDesc i (BufDesc.set f p)))) t := by
    apply costs_onSys
    apply Costs.modify
    apply held_reference
    intro h
    cases h
  refine hdesc.bind ?_ (add_zero _).le hpos (add_zero _).le
  intro _ u _
  exact (costs_onSys (Untouched.costs insert_untouched)).free_bind (fun _ _ _ => Costs.pure _) le_rfl

theorem fetch_costs [PageData D] (f p : Nat) :
    Costs (balance a) (one references a + one reads a + -one unread a)
      (one references a + one reads a + one writes a) (fetch (D := D) f p) s := by
  have hpos : 0 ≤ one references a := by cases a <;> simp [one]
  refine allocBuf_costs.bind (j := one references a + one reads a) ?_ (zero_add _).le ?_ ?_
  · intro i t _
    -- the read is counted before it is made; whatever fails after it was counted in vain
    have hspend : Costs (balance a) (one reads a + -one unread a) 0
        (count (D := D) fun stats => { stats with diskreads := stats.diskreads + 1 }) t := by
      apply costs_count
      cases a <;> simp [spent, one, add_comm]
    refine hspend.bind (fun _ u _ => (costs_onSys (Untouched.costs (onFile_untouched _))).free_bind
      (fun page _ _ => load_costs i f p page i) hpos) ?_ ?_ ?_
    all_goals cases a <;> simp [one]
  · cases a <;> simp [one]
  · cases a <;> simp [one]

theorem allocPage_costs [PageData D] (f : Nat) :
    Costs (balance a) (one references a) (one references a + one writes a) (allocPage (D := D) f) s := by
  have hpos : 0 ≤ one references a := by cases a <;> simp [one]
  refine allocBuf_costs.bind (j := one references a) ?_ (zero_add _).le ?_ ?_
  · intro i t _
    exact (costs_onSys (Untouched.costs (onFile_untouched _))).free_bind
      (fun r _ _ => load_costs i f r.1 r.2 (r.1, i)) hpos
  · cases a <;> simp [one]
  · cases a <;> simp [one]

/-- A page that is in the pool. -/
theorem readPage_hit [PageData D] {f p i : Nat} (h : s.sys.entry f p = some i) :
    readPage f p s =
      (.ok i, { s with sys := s.sys.setDesc i fun d => { d with refbit := true, pinCnt := d.pinCnt + 1 } }) := by
  have hlookup : onSys (lookup f p) s = (.ok i, s) := by
    rw [onSys, zoom, lookup_apply h]
  apply tryCatch_of_other _ fun _ he => by cases he
  rw [bind_of_ok hlookup]
  rfl

/-- A page that is not in the pool, or a `File` object that does not exist. -/
theorem readPage_miss [PageData D] {f p : Nat} (h : s.sys.entry f p = none) :
    readPage f p s = fetch f p s ∨ readPage f p s = (.error .undefined, s) := by
  cases ho : s.sys.objects f with
  | some object =>
      -- the table refuses, and the handler fetches the page
      left
      have hlookup : onSys (lookup f p) s = (.error (.throw (.hashNotFound object.filename p)), s) := by
        rw [onSys, zoom, lookup_missing ho h]
      exact tryCatch_of_caught (bind_of_error hlookup) rfl
  | none =>
      -- without the object there is not even a name to refuse with
      right
      have hlookup : onSys (lookup f p) s = (.error .undefined, s) := by
        rw [onSys, zoom, lookup, bind_of_ok (get_apply _), h]
        dsimp only
        rw [bind_of_error (e := .undefined) (by rw [filename, bind_of_ok (get_apply _), ho]; rfl)]
      exact tryCatch_of_other (bind_of_error hlookup) fun _ he => by cases he

/-- Only a page that is not in the pool is read. -/
theorem readPage_costs [PageData D] (f p : Nat) :
    Costs (balance a)
      (one references a + if (s.sys.entry f p).isNone then one reads a + -one unread a else 0)
      (one references a + (if (s.sys.entry f p).isNone then one reads a else 0) + one writes a)
      (readPage f p) s := by
  cases hentry : s.sys.entry f p with
  -- in the pool: its bit may be set by the call
  | some i =>
      apply Costs.of_ok (readPage_hit hentry)
      have hheld : held (s.sys.setDesc i fun d => { d with refbit := true, pinCnt := d.pinCnt + 1 }) a ≤
          held s.sys a + one references a := held_reference id
      rw [balance, balance, Option.isNone_some, if_neg Bool.false_ne_true, add_zero, add_assoc]
      exact add_le_add_right hheld _
  -- not in the pool: it is read, unless the `File` object is gone
  | none =>
      rw [Option.isNone_none, if_pos rfl, if_pos rfl, ← add_assoc]
      rcases readPage_miss hentry with hmiss | hdangling
      · exact (fetch_costs f p).congr hmiss
      · apply Costs.of_error hdangling
        cases a <;> simp [one]

end Metered

/-! ## Runs

A run is a list of calls, however they end. `Traffic` is what the caller knows of it: which pages were asked for,
which of these were not in the pool, and which calls failed.
-/

/-- What was asked of a pool: how often a page was asked for, how often one that was not in the pool, how often
a page was given back changed, and how often a page was asked for in vain. -/
structure Traffic where
  fetches : Nat
  misses : Nat
  changes : Nat
  failures : Nat
  deriving DecidableEq, Repr

/-- A call on the pool `s`. -/
def Traffic.note (s : Sys D) (op : BufOp) (returned : Bool) (traffic : Traffic) : Traffic :=
  match op with
  | .readPage file pageNo => { traffic with
      fetches := traffic.fetches + 1
      misses := traffic.misses + if (s.entry file pageNo).isNone then 1 else 0
      failures := traffic.failures + if returned then 0 else 1 }
  | .allocPage _ => { traffic with
      fetches := traffic.fetches + 1
      failures := traffic.failures + if returned then 0 else 1 }
  | .unPinPage _ _ dirty => { traffic with changes := traffic.changes + if dirty then 1 else 0 }
  | .flushFile _ | .disposePage _ _ => traffic

/-- The most that an account may have. -/
def Traffic.due (traffic : Traffic) : Account → Int
  | .references => traffic.fetches
  | .reads => traffic.misses
  | .unread => traffic.failures - traffic.misses
  | .writes => traffic.changes + traffic.failures

/-- A pool and what was asked of it. -/
structure Observed (D : Type) where
  metered : Metered D
  traffic : Traffic

namespace Observed

open Account

def new [PageData D] (objects : Nat → Option FileObject) (streams : FileName → FStream D) (bufs : Nat) :
    Observed D :=
  ⟨.new objects streams bufs, ⟨0, 0, 0, 0⟩⟩

def after [PageData D] (s : Observed D) (op : BufOp) : Observed D where
  metered := (Metered.call op s.metered).2
  traffic := s.traffic.note s.metered.sys op (Metered.call op s.metered).1.isOk

/-- What the statistics say. A reference bit that is set is an access that has not been counted yet, and a page
that is dirty a write. -/
structure Explained (s : Observed D) : Prop where
  accesses : s.metered.bufStats.accesses + s.metered.sys.tally (·.refbit) ≤ s.traffic.fetches
  diskreads_le : s.metered.bufStats.diskreads ≤ s.traffic.misses
  misses_le : s.traffic.misses ≤ s.metered.bufStats.diskreads + s.traffic.failures
  diskwrites : s.metered.bufStats.diskwrites + s.metered.sys.tally (·.dirty) ≤
    s.traffic.changes + s.traffic.failures

theorem explained_of_balance {s : Observed D} (h : ∀ a, s.metered.balance a ≤ s.traffic.due a) : s.Explained := by
  have hreferences := h .references
  have hreads := h .reads
  have hunread := h .unread
  have hwrites := h .writes
  simp only [Metered.balance, Account.spent, Account.held, Traffic.due] at hreferences hreads hunread hwrites
  exact ⟨by omega, by omega, by omega, by omega⟩

/-- What a call adds to an account is due for it. -/
theorem balance_call [PageData D] (m : Metered D) (traffic : Traffic) (op : BufOp) (a : Account) :
    (Metered.call op m).2.balance a ≤ m.balance a +
      ((traffic.note m.sys op (Metered.call op m).1.isOk).due a - traffic.due a) := by
  have hcost : Costs (Metered.balance a) ((traffic.note m.sys op true).due a - traffic.due a)
      ((traffic.note m.sys op false).due a - traffic.due a) (Metered.call op) m := by
    cases op with
    | readPage f p =>
        apply Costs.map
        apply (Metered.readPage_costs f p).weaken
        · cases hentry : m.sys.entry f p <;> cases a <;> simp [Traffic.note, Traffic.due, one, hentry]
        · cases hentry : m.sys.entry f p <;> cases a <;> simp [Traffic.note, Traffic.due, one, hentry]
    | allocPage f =>
        have hpage := (Metered.allocPage_costs (a := a) (s := m) f).map fun r => BufReply.page r.1 r.2
        apply hpage.weaken
        · cases a <;> simp [Traffic.note, Traffic.due, one]
        · cases a <;> simp [Traffic.note, Traffic.due, one]
    | unPinPage f p dirty =>
        apply Costs.map
        apply (Metered.costs_onSys (unPinPage_costs f p dirty)).weaken
        · cases dirty <;> cases a <;> simp [Traffic.note, Traffic.due, one]
        · cases dirty <;> cases a <;> simp [Traffic.note, Traffic.due, one]
    -- these two count nothing, and nothing is due for them
    | flushFile f =>
        apply Costs.map
        apply (Metered.costs_onSys (flushFile_costs f)).weaken
        · exact (sub_self _).ge
        · exact (sub_self _).ge
    | disposePage f p =>
        apply Costs.map
        apply (Metered.costs_onSys (disposePage_costs f p)).weaken
        · exact (sub_self _).ge
        · exact (sub_self _).ge
  unfold Costs wp at hcost
  rcases hr : Metered.call op m with ⟨_ | _, t⟩
  · rw [hr] at hcost
    exact hcost
  · rw [hr] at hcost
    exact hcost

theorem sys_foldl [PageData D] (ops : List BufOp) (s : Observed D) :
    (ops.foldl after s).metered.sys = ops.foldl (fun s op => (P3.BufMgr.call op s).2) s.metered.sys := by
  induction ops generalizing s with
  | nil => rfl
  | cons op ops ih =>
      rw [List.foldl_cons, List.foldl_cons, ih]
      exact congrArg (ops.foldl _) (Metered.call_runs op s.metered).state

theorem balance_foldl [PageData D] (ops : List BufOp) {s : Observed D}
    (h : ∀ a, s.metered.balance a ≤ s.traffic.due a) (a : Account) :
    (ops.foldl after s).metered.balance a ≤ (ops.foldl after s).traffic.due a := by
  induction ops generalizing s with
  | nil => exact h a
  | cons op ops ih =>
      -- the first call raises the balance by no more than what it adds to what is due
      apply ih
      intro b
      have hcall := balance_call s.metered s.traffic op b
      have hbefore := h b
      show (Metered.call op s.metered).2.balance b ≤
        (s.traffic.note s.metered.sys op (Metered.call op s.metered).1.isOk).due b
      omega

/-- **The statistics of a run.** The pool is as it is without them. The clock has cleared at most as many bits as
pages were asked for; the pages that were read are those that were asked for and were not in the pool, up to the
calls that failed; and no more pages were written than were given back changed, up to these calls. -/
theorem stats_run [PageData D] (objects : Nat → Option FileObject) (streams : FileName → FStream D) (bufs : Nat)
    (ops : List BufOp) :
    (ops.foldl after (new objects streams bufs)).metered.sys =
        ops.foldl (fun s op => (P3.BufMgr.call op s).2) ⟨objects, streams, .new bufs⟩ ∧
      (ops.foldl after (new objects streams bufs)).Explained := by
  refine ⟨sys_foldl ops _, explained_of_balance (balance_foldl ops ?_)⟩
  intro a
  have htally : ∀ b : BufDesc → Bool, (∀ i, b ⟨0, invalidNumber, i, 0, false, false, false⟩ = false) →
      (Metered.new objects streams bufs).sys.tally b = 0 := by
    intro b hb
    apply List.countP_eq_zero.mpr
    intro i _
    -- no frame of a new pool has its bit set or is dirty
    exact Bool.eq_false_iff.mp (hb i)
  cases a with
  | references =>
      show ((0 : Nat) : Int) + ((Metered.new objects streams bufs).sys.tally (·.refbit) : Nat) ≤ ((0 : Nat) : Int)
      rewrite [htally _ fun _ => rfl]
      decide
  | writes =>
      show ((0 : Nat) : Int) + ((Metered.new objects streams bufs).sys.tally (·.dirty) : Nat) ≤
        ((0 : Nat) : Int) + ((0 : Nat) : Int)
      rewrite [htally _ fun _ => rfl]
      decide
  | _ => exact le_rfl

end Observed

end CS640.Badger
