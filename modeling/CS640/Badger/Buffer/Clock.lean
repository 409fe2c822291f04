import CS640.Badger.Buffer.P2
import CS640.Badger.Buffer.Calls
import Mathlib.Data.List.Count
import Mathlib.Data.List.TakeWhile

/-!
# When the clock of p2 gives up

`clock_count` counts the pinned frames whose reference bit is clear, and it is not set back when the clock
has gone round once. `sweep` is the clock on the list of the descriptors it comes to, in their order.

Main result: `P2.BufMgr.allocBuf_iff`. In every pool that a run of calls leads to, `allocBuf` refuses just
a full pool if and only if the pool is full, or the clock stops in its first round, or the frames counted
in the first round and those before the first unpinned one are not more than there are frames.

The proof goes in three stages. `clock_sweep` says that the loop of the pool does on the pool what `sweep` does on
the list of the descriptors that are to come. `sweep_stop`, `sweep_passed` and `sweep_clear` compute the list for a
round with and without reference bits, and `clock_ends` puts the two rounds together. The last stage shows that a
run of calls keeps the hand on a frame, which is all that the first two ask of the pool.

* `clock_sweep`: the loop and the list, by induction on the list.
* `clock_ends`: `GivesUp` is exact, with the fuel that the loop is given.
* `refusesOnlyFull_iff`: the same of `allocBuf`, in every state.
-/

namespace CS640.Badger.P2.BufMgr

open CS640.Lib Prog
open CS640.Badger.BufMgr

variable {D : Type}

/-! ## The clock on a list of descriptors

What the clock does at a frame depends on three fields of its descriptor and on the counter only. So a part of a
round is a function of a list of descriptors, and the three lemmas about `sweep` are inductions on that list: a
round that finds a frame, a round that does not, and a round in which all reference bits are clear already.
-/

/-- The clock may take the frame, or it is free. -/
def Stops (d : BufDesc) : Prop := d.valid = false ∨ d.refbit = false ∧ d.pinCnt = 0

instance (d : BufDesc) : Decidable (Stops d) := inferInstanceAs (Decidable (_ ∨ _))

/-- The frame is in use and pinned. -/
def Held (d : BufDesc) : Prop := d.valid = true ∧ 0 < d.pinCnt

instance (d : BufDesc) : Decidable (Held d) := inferInstanceAs (Decidable (_ ∧ _))

/-- How a part of a round ends: at a frame, by giving up, or with this `clock_count`. -/
inductive Sweep where
  | stop
  | full
  | passed (clockCount : Nat)
  deriving DecidableEq, Repr

/-- The clock goes over the frames with these descriptors. -/
def sweep (numBufs : Nat) : List BufDesc → Nat → Sweep
  | [], clockCount => .passed clockCount
  | d :: frames, clockCount =>
    if d.valid = true then
      if d.refbit = true then sweep numBufs frames clockCount
      else if d.pinCnt > 0 then
        if clockCount + 1 > numBufs then .full
        else sweep numBufs frames (clockCount + 1)
      else .stop
    else .stop

/-- The descriptor after the clock has passed. -/
def passed (d : BufDesc) : BufDesc := { d with refbit := false }

/-- The frames that are counted. -/
def counted (frames : List BufDesc) : Nat := frames.countP fun d => !d.refbit

theorem counted_cons (d : BufDesc) (frames : List BufDesc) :
    counted (d :: frames) = counted frames + if d.refbit = true then 0 else 1 := by
  rw [counted, List.countP_cons, counted]
  cases d.refbit <;> rfl

variable {numBufs count : Nat} {frames : List BufDesc}

/-- With enough room to count, the clock stops where it can. -/
theorem sweep_stop (hstop : ∃ d ∈ frames, Stops d) (hroom : count + frames.length ≤ numBufs) :
    sweep numBufs frames count = .stop := by
  induction frames generalizing count with
  | nil =>
      obtain ⟨d, hd, _⟩ := hstop
      cases hd
  | cons d frames ih =>
      simp only [List.length_cons] at hroom
      have hlater : ¬ Stops d → ∃ e ∈ frames, Stops e := by
        intro hgo
        obtain ⟨e, he, hstops⟩ := hstop
        rcases List.mem_cons.mp he with rfl | he
        · exact absurd hstops hgo
        · exact ⟨e, he, hstops⟩
      -- the branches are those of `sweep`: the clock goes on at a set bit and at a pinned frame
      rw [sweep]
      split
      · next hv =>
          split
          · next hbit =>
              apply ih (hlater _) (by omega)
              simp [Stops, hv, hbit]
          · next hbit =>
              split
              · next hpin =>
                  rw [if_neg (by omega)]
                  apply ih (hlater _) (by omega)
                  simp [Stops, hv]
                  omega
              · rfl
      · rfl

/-- With enough room to count, the clock passes where it cannot stop. -/
theorem sweep_passed (hgo : ∀ d ∈ frames, ¬ Stops d) (hroom : count + frames.length ≤ numBufs) :
    sweep numBufs frames count = .passed (count + counted frames) := by
  induction frames generalizing count with
  | nil => rfl
  | cons d frames ih =>
      simp only [List.length_cons] at hroom
      have hd := hgo d List.mem_cons_self
      have hrest := fun e he => hgo e (List.mem_cons_of_mem d he)
      simp only [Stops, not_or, not_and, Bool.not_eq_false] at hd
      -- a set bit costs nothing, a clear one on a frame that is held is counted
      rw [sweep, if_pos hd.1, counted_cons]
      split
      · rw [ih hrest (by omega), Nat.add_zero]
      · next hbit =>
          have hpin := hd.2 (by simpa using hbit)
          rw [if_pos (Nat.pos_of_ne_zero hpin), if_neg (by omega), ih hrest (by omega)]
          congr 1
          omega

/-- The frames before the first one that is not pinned. -/
def leading (frames : List BufDesc) : Nat := (frames.takeWhile fun d => 0 < d.pinCnt).length

/-- A round over frames without reference bits: the pinned ones up to the first other one count. -/
theorem sweep_clear (hclear : ∀ d ∈ frames, d.valid = true ∧ d.refbit = false) (hcount : count ≤ numBufs) :
    sweep numBufs frames count =
      if numBufs < count + leading frames then .full
      else if ∀ d ∈ frames, 0 < d.pinCnt then .passed (count + frames.length)
      else .stop := by
  induction frames generalizing count with
  | nil => simp [sweep, leading, Nat.not_lt.mpr hcount]
  | cons d frames ih =>
      obtain ⟨hv, hbit⟩ := hclear d List.mem_cons_self
      have hrest := fun e he => hclear e (List.mem_cons_of_mem d he)
      rw [sweep, if_pos hv, if_neg (by simp [hbit])]
      -- pinned frames are counted one by one, and `leading` counts the same ones
      by_cases hpin : 0 < d.pinCnt
      · have hlead : leading (d :: frames) = leading frames + 1 := by
          simp [leading, hpin]
        rw [if_pos hpin, hlead]
        split
        · rw [if_pos (by omega)]
        · rw [ih hrest (by omega)]
          simp only [List.mem_cons, forall_eq_or_imp, hpin, true_and, List.length_cons]
          grind
      · have hlead : leading (d :: frames) = 0 := by
          simp [leading, hpin]
        rw [if_neg hpin, hlead, if_neg (by omega), if_neg]
        intro hall
        exact hpin (hall d List.mem_cons_self)

/-- Where all frames are pinned. -/
theorem leading_of_all (h : ∀ d ∈ frames, 0 < d.pinCnt) : leading frames = frames.length := by
  rw [leading, List.takeWhile_eq_self_iff.mpr]
  simpa using h

/-! ## The clock of the pool

The pool is connected to the list by where the hand stands: the frame `k` places on is at `(clockHand + 1 + k) %
numBufs`. `Upcoming` says that a list is the next part of the ring, and `Passed` what has become of the pool once
the clock has gone over it. One step forward keeps both (`Upcoming.tail`, `Passed.cons`), and this is all that
`clock_sweep` needs.
-/

/-- The descriptors of the frames that the clock comes to next. -/
def clockOrder (s : Sys D) : List BufDesc :=
  (List.range s.numBufs).map fun k => s.desc ((s.clockHand + 1 + k) % s.numBufs)

/-- The clock comes to these descriptors next, each of another frame. -/
structure Upcoming (s : Sys D) (frames : List BufDesc) : Prop where
  length : frames.length ≤ s.numBufs
  desc : ∀ k, (h : k < frames.length) → frames[k] = s.desc ((s.clockHand + 1 + k) % s.numBufs)

/-- The clock has passed these frames. -/
structure Passed (s : Sys D) (frames : List BufDesc) (t : Sys D) : Prop where
  scanned : Scanned s t
  numBufs : t.numBufs = s.numBufs
  clockHand : t.clockHand = (s.clockHand + frames.length) % s.numBufs
  desc : ∀ k < s.numBufs, t.desc ((s.clockHand + 1 + k) % s.numBufs) =
    if k < frames.length then passed (s.desc ((s.clockHand + 1 + k) % s.numBufs))
    else s.desc ((s.clockHand + 1 + k) % s.numBufs)

/-- The clock has moved on over one frame. -/
structure Stepped (s u : Sys D) : Prop where
  scanned : Scanned s u
  numBufs : u.numBufs = s.numBufs
  clockHand : u.clockHand = (s.clockHand + 1) % s.numBufs
  desc : ∀ i, u.desc i = if i = (s.clockHand + 1) % s.numBufs then passed (s.desc i) else s.desc i

variable {s t u : Sys D} {d : BufDesc} {fuel : Nat}

theorem ring_index {hand k n : Nat} (hhand : hand < n) (hk : k < n) :
    (hand + 1 + k) % n = if hand + 1 + k < n then hand + 1 + k else hand + 1 + k - n := by
  split
  · next h => exact Nat.mod_eq_of_lt h
  · rw [Nat.mod_eq_sub_mod (by omega), Nat.mod_eq_of_lt (by omega)]

theorem Stepped.index (h : Stepped s u) (k : Nat) :
    (u.clockHand + 1 + k) % u.numBufs = (s.clockHand + 1 + (k + 1)) % s.numBufs := by
  rw [h.clockHand, h.numBufs, Nat.add_assoc, Nat.mod_add_mod, Nat.add_comm 1 k]

/-- The frames after the first are others. -/
theorem index_ne (hhand : s.clockHand < s.numBufs) {k : Nat} (hk : k + 1 < s.numBufs) :
    (s.clockHand + 1 + (k + 1)) % s.numBufs ≠ (s.clockHand + 1) % s.numBufs := by
  have hfirst := ring_index (k := 0) hhand (by omega)
  rw [Nat.add_zero] at hfirst
  rw [hfirst, ring_index hhand hk]
  split <;> split <;> omega

theorem Upcoming.tail (h : Upcoming s (d :: frames)) (hhand : s.clockHand < s.numBufs)
    (hu : Stepped s u) : Upcoming u frames where
  length := by
    rw [hu.numBufs]
    exact Nat.le_of_succ_le h.length
  desc k hk := by
    have hlen := h.length
    rw [List.length_cons] at hlen
    have hnext := h.desc (k + 1) (by simpa using hk)
    rw [hu.index, hu.desc, if_neg (index_ne hhand (by omega)), ← hnext]
    rfl

theorem Passed.cons (h : Upcoming s (d :: frames)) (hhand : s.clockHand < s.numBufs)
    (hu : Stepped s u) (ht : Passed u frames t) : Passed s (d :: frames) t where
  scanned := hu.scanned.trans ht.scanned
  numBufs := ht.numBufs.trans hu.numBufs
  clockHand := by
    rw [ht.clockHand, hu.clockHand, hu.numBufs, Nat.mod_add_mod, List.length_cons, Nat.add_assoc,
      Nat.add_comm 1]
  desc k hk := by
    have hlen := h.length
    rw [List.length_cons] at hlen ⊢
    cases k with
    | zero =>
        -- the clock comes to the first frame again after all others
        have hlast := ht.desc (s.numBufs - 1) (by rw [hu.numBufs]; omega)
        have hround : (u.clockHand + 1 + (s.numBufs - 1)) % u.numBufs = (s.clockHand + 1) % s.numBufs := by
          rw [hu.index, show s.clockHand + 1 + (s.numBufs - 1 + 1) = s.clockHand + 1 + s.numBufs by omega,
            Nat.add_mod_right]
        rw [hround, if_neg (by omega), hu.desc, if_pos rfl] at hlast
        rw [Nat.add_zero, hlast, if_pos (by omega)]
    | succ k =>
        have hnext := ht.desc k (by rw [hu.numBufs]; omega)
        rw [hu.index, hu.desc, if_neg (index_ne hhand hk)] at hnext
        rw [hnext]
        simp only [Nat.add_lt_add_iff_right]

theorem Passed.nil (hhand : s.clockHand < s.numBufs) : Passed s [] s where
  scanned := Scanned.refl s
  numBufs := rfl
  clockHand := by
    rw [List.length_nil, Nat.add_zero, Nat.mod_eq_of_lt hhand]
  desc k _ := by
    simp

/-- The clock after a tick. -/
def tick (s : Sys D) : Sys D := s.setClockHand ((s.clockHand + 1) % s.numBufs)

/-- A round of the loop. -/
theorem clock_succ (fuel count : Nat) (s : Sys D) :
    clock (fuel + 1) count s =
      if ((tick s).desc (tick s).clockHand).valid = true then
        if ((tick s).desc (tick s).clockHand).refbit = true then
          clock fuel count ((tick s).setDesc (tick s).clockHand fun d => { d with refbit := false })
        else if ((tick s).desc (tick s).clockHand).pinCnt > 0 then
          if count + 1 > s.numBufs then (.error (.throw .bufferExceeded), tick s)
          else clock fuel (count + 1) (tick s)
        else vacate (tick s)
      else (.ok (), tick s) := by
  rw [clock, bind_of_ok (show advanceClock s = (.ok (), tick s) from rfl), bind_of_ok (get_apply _)]
  split
  · split
    · rfl
    · split
      · split
        · next h => exact (if_pos (show count + 1 > s.numBufs from h)).symm
        · next h => exact (if_neg (show ¬ count + 1 > s.numBufs from h)).symm
      · rfl
  · rfl

theorem stepped_clear (hv : (s.desc ((s.clockHand + 1) % s.numBufs)).valid = true) :
    Stepped s ((tick s).setDesc (tick s).clockHand fun d => { d with refbit := false }) where
  scanned := (scanned_tick s _).trans (scanned_clearRefbit (tick s) (tick s).clockHand hv)
  numBufs := rfl
  clockHand := rfl
  desc i := by
    rw [Sys.desc_setDesc]
    show (if i = (s.clockHand + 1) % s.numBufs then passed (s.desc ((s.clockHand + 1) % s.numBufs))
      else s.desc i) = _
    split
    · next hi => rw [hi]
    · rfl

theorem stepped_tick (h : (s.desc ((s.clockHand + 1) % s.numBufs)).refbit = false) :
    Stepped s (tick s) where
  scanned := scanned_tick s _
  numBufs := rfl
  clockHand := rfl
  -- the bit is clear already, so clearing it changes nothing
  desc i := by
    split
    · next hi =>
        rw [passed, hi, ← h]
        rfl
    · rfl

/-- A call ends, and not because of the pins. -/
def Finds {α : Type} (r : Except (Exit Exn) α) : Prop :=
  r ≠ .error (.throw .bufferExceeded) ∧ r ≠ .error .diverge

/-- What `sweep` says of the descriptors that the clock comes to, it does. -/
theorem clock_sweep (hvacate : ∀ t : Sys D, Finds (vacate t).1) (fuel : Nat) :
    ∀ (frames : List BufDesc) (count : Nat) (s : Sys D), s.clockHand < s.numBufs → Upcoming s frames →
      match sweep s.numBufs frames count with
      | .stop => Finds (clock (fuel + frames.length) count s).1
      | .full => (clock (fuel + frames.length) count s).1 = .error (.throw .bufferExceeded)
      | .passed c => ∃ t, Passed s frames t ∧ clock (fuel + frames.length) count s = clock fuel c t := by
  intro frames
  induction frames with
  | nil =>
      intro count s hhand _
      exact ⟨s, Passed.nil hhand, rfl⟩
  | cons d frames ih =>
      intro count s hhand hup
      have hfirst : d = s.desc ((s.clockHand + 1) % s.numBufs) := hup.desc 0 (Nat.zero_lt_succ _)
      have hpos : 0 < s.numBufs := Nat.zero_lt_of_lt hhand
      have hdesc : (tick s).desc (tick s).clockHand = d := hfirst.symm
      rw [List.length_cons, ← Nat.add_assoc, clock_succ, hdesc, sweep]
      -- a frame that the clock goes on from
      have hnext : ∀ (c : Nat) (u : Sys D), Stepped s u →
          match sweep s.numBufs frames c with
          | .stop => Finds (clock (fuel + frames.length) c u).1
          | .full => (clock (fuel + frames.length) c u).1 = .error (.throw .bufferExceeded)
          | .passed c' => ∃ t, Passed s (d :: frames) t ∧
              clock (fuel + frames.length) c u = clock fuel c' t := by
        intro c u hu
        have huhand : u.clockHand < u.numBufs := by
          rw [hu.clockHand, hu.numBufs]
          exact Nat.mod_lt _ hpos
        have hrest := ih c u huhand (hup.tail hhand hu)
        rw [hu.numBufs] at hrest
        cases hsweep : sweep s.numBufs frames c with
        | stop =>
            rw [hsweep] at hrest
            exact hrest
        | full =>
            rw [hsweep] at hrest
            exact hrest
        | passed c' =>
            rw [hsweep] at hrest
            obtain ⟨t, ht, hrun⟩ := hrest
            exact ⟨t, Passed.cons hup hhand hu ht, hrun⟩
      -- the four ways on at a frame, in the order in which the loop asks
      by_cases hv : d.valid = true
      · rw [if_pos hv, if_pos hv]
        by_cases hbit : d.refbit = true
        · rw [if_pos hbit, if_pos hbit]
          exact hnext count _ (stepped_clear (by rw [← hfirst]; exact hv))
        · rw [if_neg hbit, if_neg hbit]
          by_cases hpin : d.pinCnt > 0
          · rw [if_pos hpin, if_pos hpin]
            by_cases hfull : count + 1 > s.numBufs
            · rw [if_pos hfull, if_pos hfull]
            · rw [if_neg hfull, if_neg hfull]
              exact hnext (count + 1) _ (stepped_tick (by rw [← hfirst]; simpa using hbit))
          · rw [if_neg hpin, if_neg hpin]
            exact hvacate (tick s)
      · rw [if_neg hv, if_neg hv]
        exact ⟨nofun, nofun⟩

/-! ## Taking the frame

Where the clock stops at an unpinned frame it writes back the page there and removes it. This can fail in many ways,
but none of them is `BufferExceededException`, and none is a loop that does not end. `Exits Other` says so of each
function in turn, and `vacate_finds` of the whole.
-/

/-- A reason to fail that has nothing to do with the pins. -/
def Other (e : Exit Exn) : Prop := e ≠ .throw .bufferExceeded ∧ e ≠ .diverge

theorem finds_of_exits {α : Type} {x : Prog Exn (Sys D) α} (h : Exits Other x) (s : Sys D) :
    Finds (x s).1 := by
  have hwp := h s
  rcases hr : x s with ⟨e | a, t⟩
  · rw [wp_of_error hr] at hwp
    constructor
    · intro he
      exact hwp.1 (Except.error.inj he)
    · intro he
      exact hwp.2 (Except.error.inj he)
  · exact ⟨nofun, nofun⟩

theorem filename_exits (f : Nat) : Exits Other (filename (D := D) f) := by
  apply Exits.get.bind
  intro s
  split
  · exact Exits.pure _
  · exact Exits.exit ⟨nofun, nofun⟩

theorem writePage_exits (fn : FileName) (p : Nat) (pg : Page D) :
    Exits Other (PageFile.writePage fn p pg) := by
  apply (Exits.of_ok (FStream.readPageHeader_returns p)).bind
  intro header
  apply Exits.ite
  · intro _
    exact Exits.exit ⟨nofun, nofun⟩
  · intro _
    exact Exits.of_ok (FStream.writeWholePage_returns p _ pg)

theorem writeBack_exits (i : Nat) : Exits Other (writeBack (D := D) i) := by
  apply Exits.get.bind
  intro s
  apply Exits.ite
  · intro _
    apply Exits.get.bind
    intro t
    split
    · exact (writePage_exits _ _ _).zoom
    · exact Exits.exit ⟨nofun, nofun⟩
  · intro _
    exact Exits.pure _

theorem remove_exits (f p : Nat) : Exits Other (remove (D := D) f p) := by
  apply Exits.get.bind
  intro s
  split
  · exact Exits.modify _
  · exact (filename_exits f).bind fun _ => Exits.exit ⟨nofun, nofun⟩

theorem flushFrame_exits (f i : Nat) : Exits Other (flushFrame (D := D) f i) := by
  apply Exits.get.bind
  intro s
  apply Exits.ite
  · intro _
    apply Exits.ite
    · intro _
      exact (filename_exits _).bind fun _ => Exits.exit ⟨nofun, nofun⟩
    · intro _
      apply Exits.ite
      · intro _
        exact Exits.exit ⟨nofun, nofun⟩
      · intro _
        apply (writeBack_exits i).bind
        intro _
        exact (remove_exits f _).bind fun _ => Exits.modify _
  · intro _
    exact Exits.pure _

/-- The frame is taken, or it is not for the pins of other frames that it is not. -/
theorem vacate_finds (s : Sys D) : Finds (vacate s).1 := by
  apply finds_of_exits
  apply Exits.get.bind
  intro s
  apply Exits.ite
  · intro _
    apply Exits.bind
    · apply Exits.get.bind
      intro t
      exact Exits.forRange _ fun i => flushFrame_exits _ i
    · intro _
      exact Exits.get.bind fun _ => Exits.modify _
  · intro _
    -- a page without changes is only taken out of the table
    exact remove_exits _ _

/-! ## The two rounds

The first round starts with the counter at zero and the reference bits as they are. If it goes by, the second one
starts with all bits clear and with the counter at the frames that were clear before (`Passed.clear`). Since the
counter is never set back, the second round is the one that may give up with an unpinned frame still to come.
-/

theorem clockOrder_length (s : Sys D) : (clockOrder s).length = s.numBufs := by
  rw [clockOrder, List.length_map, List.length_range]

theorem upcoming_clockOrder (s : Sys D) : Upcoming s (clockOrder s) where
  length := Nat.le_of_eq (clockOrder_length s)
  desc k hk := by
    simp [clockOrder]

/-- After a round the clock is where it was. -/
theorem Passed.round (h : Passed s (clockOrder s) t) (hhand : s.clockHand < s.numBufs) :
    t.clockHand = s.clockHand := by
  rw [h.clockHand, clockOrder_length, Nat.add_mod_right, Nat.mod_eq_of_lt hhand]

theorem Passed.clockOrder (h : Passed s (clockOrder s) t) (hhand : s.clockHand < s.numBufs) :
    BufMgr.clockOrder t = (BufMgr.clockOrder s).map passed := by
  rw [BufMgr.clockOrder, BufMgr.clockOrder, List.map_map, h.round hhand, h.numBufs]
  apply List.map_congr_left
  intro k hk
  have hk := List.mem_range.mp hk
  rw [h.desc k hk, clockOrder_length, if_pos hk]
  rfl

@[simp] theorem leading_passed (frames : List BufDesc) : leading (frames.map passed) = leading frames := by
  rw [leading, leading, List.takeWhile_map, List.length_map]
  rfl

/-- The clock gives up: in its second round, or when all frames are pinned. -/
def GivesUp (s : Sys D) : Prop :=
  (∀ d ∈ clockOrder s, ¬ Stops d) ∧
    ((∀ d ∈ clockOrder s, Held d) ∨
      s.numBufs < counted (clockOrder s) + leading (clockOrder s))

theorem next_mem (hhand : s.clockHand < s.numBufs) :
    (tick s).desc (tick s).clockHand ∈ clockOrder s := by
  apply List.mem_map.mpr
  exact ⟨0, List.mem_range.mpr (Nat.zero_lt_of_lt hhand), rfl⟩

/-- After a round in which the clock has not stopped, no reference bit is set. -/
theorem Passed.clear (h : Passed s (BufMgr.clockOrder s) t) (hhand : s.clockHand < s.numBufs)
    (hgo : ∀ d ∈ BufMgr.clockOrder s, ¬ Stops d) :
    ∀ d ∈ BufMgr.clockOrder t, d.valid = true ∧ d.refbit = false := by
  intro d hd
  rw [h.clockOrder hhand] at hd
  obtain ⟨e, he, rfl⟩ := List.mem_map.mp hd
  have hvalid := hgo e he
  simp only [Stops, not_or, Bool.not_eq_false] at hvalid
  exact ⟨hvalid.1, rfl⟩

/-- A frame that stays pinned is counted in every round but the first: after two rounds over pinned
frames the clock gives up at the next one. -/
theorem clock_third (hhand : s.clockHand < s.numBufs) (hcount : s.numBufs ≤ count)
    (hclear : ∀ d ∈ clockOrder s, d.valid = true ∧ d.refbit = false)
    (hpinned : ∀ d ∈ clockOrder s, 0 < d.pinCnt) :
    (clock (fuel + 1) count s).1 = .error (.throw .bufferExceeded) := by
  have hnext := next_mem hhand
  obtain ⟨hv, hbit⟩ := hclear _ hnext
  rw [clock_succ, if_pos hv, if_neg (by simp [hbit]), if_pos (hpinned _ hnext), if_pos (by omega)]

/-- **When the clock gives up.** -/
theorem clock_ends (hhand : s.clockHand < s.numBufs) :
    (GivesUp s → (clock (2 * s.numBufs + 2) 0 s).1 = .error (.throw .bufferExceeded)) ∧
      (¬ GivesUp s → Finds (clock (2 * s.numBufs + 2) 0 s).1) := by
  have hfirst := clock_sweep vacate_finds (s.numBufs + 2) (clockOrder s) 0 s hhand (upcoming_clockOrder s)
  have hlen := clockOrder_length s
  rw [hlen, show s.numBufs + 2 + s.numBufs = 2 * s.numBufs + 2 by omega] at hfirst
  by_cases hstop : ∃ d ∈ clockOrder s, Stops d
  · -- the first round finds a frame
    rw [sweep_stop hstop (by omega)] at hfirst
    constructor
    · intro hgives
      obtain ⟨d, hd, hstops⟩ := hstop
      exact absurd hstops (hgives.1 d hd)
    · exact fun _ => hfirst
  · -- a whole round has gone by: the bits are clear in `t`, and the counter is at what it counted
    have hgo : ∀ d ∈ clockOrder s, ¬ Stops d := fun d hd h => hstop ⟨d, hd, h⟩
    rw [sweep_passed hgo (by omega), Nat.zero_add] at hfirst
    obtain ⟨t, ht, hrun⟩ := hfirst
    have hround := ht.round hhand
    have hnum := ht.numBufs
    have hthand : t.clockHand < t.numBufs := by omega
    have hsecond := clock_sweep vacate_finds 2 (clockOrder t) (counted (clockOrder s)) t hthand
      (upcoming_clockOrder t)
    have hcounted : counted (clockOrder s) ≤ s.numBufs := by
      rw [← hlen]
      exact List.countP_le_length
    have hlead : leading (clockOrder t) = leading (clockOrder s) := by
      rw [ht.clockOrder hhand, leading_passed]
    have hclear := ht.clear hhand hgo
    have hpinned : (∀ d ∈ clockOrder t, 0 < d.pinCnt) ↔ ∀ d ∈ clockOrder s, Held d := by
      rw [ht.clockOrder hhand, List.forall_mem_map]
      constructor
      · intro h d hd
        have hvalid := hgo d hd
        simp only [Stops, not_or, Bool.not_eq_false] at hvalid
        exact ⟨hvalid.1, h d hd⟩
      · exact fun h d hd => (h d hd).2
    rw [clockOrder_length, hnum, sweep_clear hclear (by omega), hlead] at hsecond
    rw [hrun, Nat.add_comm s.numBufs 2]
    by_cases hmany : s.numBufs < counted (clockOrder s) + leading (clockOrder s)
    · rw [if_pos hmany] at hsecond
      exact ⟨fun _ => hsecond, fun hnot => absurd ⟨hgo, Or.inr hmany⟩ hnot⟩
    · -- the counter stays within the frames up to the first unpinned one
      rw [if_neg hmany] at hsecond
      by_cases hall : ∀ d ∈ clockOrder t, 0 < d.pinCnt
      · -- every frame is pinned: the second round goes by too, and the third gives up
        rw [if_pos hall] at hsecond
        obtain ⟨u, hu, hrun'⟩ := hsecond
        have huclear := hu.clear hthand fun d hd hstops => by
          have hpos := hall d hd
          obtain ⟨hv, -⟩ := hclear d hd
          rcases hstops with hv' | ⟨-, hzero⟩
          · rw [hv] at hv'
            cases hv'
          · omega
        have huhand : u.clockHand < u.numBufs := by
          rw [hu.round hthand, hu.numBufs]
          exact hthand
        constructor
        · intro _
          rw [hrun']
          apply clock_third huhand _ huclear
          · rw [hu.clockOrder hthand, List.forall_mem_map]
            exact hall
          · rw [hu.numBufs, clockOrder_length]
            omega
        · exact fun hnot => absurd ⟨hgo, Or.inl (hpinned.mp hall)⟩ hnot
      · -- some frame is not pinned, and the second round stops at it
        rw [if_neg hall] at hsecond
        constructor
        · intro hgives
          rcases hgives.2 with hheld | hmany'
          · exact absurd (hpinned.mpr hheld) hall
          · exact absurd hmany' hmany
        · exact fun _ => hsecond

/-- The clock comes to every frame. -/
theorem forall_clockOrder {P : BufDesc → Prop} (hhand : s.clockHand < s.numBufs) :
    (∀ d ∈ clockOrder s, P d) ↔ ∀ i < s.numBufs, P (s.desc i) := by
  constructor
  · intro h i hi
    have hat : ∃ k < s.numBufs, (s.clockHand + 1 + k) % s.numBufs = i := by
      -- frames after the hand come in this turn of the ring, the others after it has wrapped
      by_cases hlater : s.clockHand + 1 ≤ i
      · refine ⟨i - (s.clockHand + 1), by omega, ?_⟩
        rw [ring_index hhand (by omega), if_pos (by omega)]
        omega
      · refine ⟨i + s.numBufs - (s.clockHand + 1), by omega, ?_⟩
        rw [ring_index hhand (by omega), if_neg (by omega)]
        omega
    obtain ⟨k, hk, rfl⟩ := hat
    exact h _ (List.mem_map.mpr ⟨k, List.mem_range.mpr hk, rfl⟩)
  · intro h d hd
    obtain ⟨k, hk, rfl⟩ := List.mem_map.mp hd
    exact h _ (Nat.mod_lt _ (Nat.zero_lt_of_lt hhand))

/-! ## The call

`allocBuf` adds nothing to the loop that could fail, so the condition on the clock becomes one on the call.
`clockOrder` goes over every frame, and the property of all frames in the order of the clock is the property of all
frames in the order of the pool (`forall_clockOrder`).
-/

/-- `allocBuf` ends, and it gives up just where every frame is in use and pinned. -/
def RefusesOnlyFull (s : Sys D) : Prop :=
  (allocBuf s).1 ≠ .error .diverge ∧
    ((allocBuf s).1 = .error (.throw .bufferExceeded) ↔ ∀ i < s.numBufs, Held (s.desc i))

/-- The loop of `allocBuf` is all that can fail. -/
theorem allocBuf_fails (s : Sys D) (e : Exit Exn) :
    (allocBuf s).1 = .error e ↔ (clock (2 * s.numBufs + 2) 0 s).1 = .error e := by
  rw [allocBuf, bind_of_ok (get_apply s)]
  rcases hr : clock (2 * s.numBufs + 2) 0 s with ⟨e' | a, t⟩
  · rw [bind_of_error hr]
    exact ⟨fun h => by cases h; rfl, fun h => by cases h; rfl⟩
  · rw [bind_of_ok hr, bind_of_ok (get_apply t)]
    constructor
    · intro h
      cases h
    · intro h
      cases h

/-- In every state of the descriptors and of the clock. -/
theorem refusesOnlyFull_iff (hhand : s.clockHand < s.numBufs) :
    RefusesOnlyFull s ↔
      (∃ d ∈ clockOrder s, Stops d) ∨ (∀ d ∈ clockOrder s, Held d) ∨
        counted (clockOrder s) + leading (clockOrder s) ≤ s.numBufs := by
  obtain ⟨hgives, hfinds⟩ := clock_ends hhand
  have hends : (allocBuf s).1 ≠ .error .diverge := by
    intro h
    rw [allocBuf_fails] at h
    by_cases hg : GivesUp s
    · rw [hgives hg] at h
      cases h
    · exact (hfinds hg).2 h
  have hthrows : (allocBuf s).1 = .error (.throw .bufferExceeded) ↔ GivesUp s := by
    rw [allocBuf_fails]
    constructor
    · intro h
      by_contra hg
      exact (hfinds hg).1 h
    · exact hgives
  rw [RefusesOnlyFull, hthrows, ← forall_clockOrder hhand]
  constructor
  · -- not full and not with a frame in the first round, so it is the counter
    intro h
    by_contra hnot
    simp only [not_or, not_le, not_exists, not_and] at hnot
    obtain ⟨hgo, hsome, hmany⟩ := hnot
    exact hsome (h.2.mp ⟨hgo, Or.inr hmany⟩)
  · intro h
    refine ⟨hends, fun hg => ?_, fun hall => ⟨fun d hd hstops => ?_, Or.inl hall⟩⟩
    · -- the call has given up: in the first case it could not have, and the third leaves only a full pool
      rcases h with hstop | hall | hroom
      · obtain ⟨d, hd, hstops⟩ := hstop
        exact absurd hstops (hg.1 d hd)
      · exact hall
      · rcases hg.2 with hall | hmany
        · exact hall
        · omega
    · -- a full pool has no frame at which the clock stops
      obtain ⟨hv, hpin⟩ := hall d hd
      rcases hstops with hv' | ⟨-, hzero⟩
      · rw [hv] at hv'
        cases hv'
      · omega

/-! ## Runs

The only hypothesis left is that the hand stands on a frame. `OnFrame` is kept by every function of the pool and so
by every event of a run; the frames keep their numbers as well, which other modules use.
-/

/-- The hand is on a frame, and the frames have their numbers. -/
def OnFrame (s : Sys D) : Prop := s.clockHand < s.numBufs ∧ ∀ i, (s.desc i).frameNo = i

theorem OnFrame.setDesc (h : OnFrame s) {i : Nat} {g : BufDesc → BufDesc}
    (hg : ∀ d, (g d).frameNo = d.frameNo) : OnFrame (s.setDesc i g) := by
  refine ⟨h.1, fun j => ?_⟩
  rw [Sys.desc_setDesc]
  split
  · next hj =>
      rw [hg, h.2 i, hj]
  · exact h.2 j

theorem flushFile_onFrame (f : Nat) : Keeps (OnFrame (D := D)) (flushFile f) := by
  apply Keeps.get.bind
  intro s
  apply Keeps.forRange
  intro i
  apply Keeps.get.bind
  intro t
  apply Keeps.ite
  · intro _
    apply Keeps.ite
    · exact fun _ => (filename_keeps _).bind fun _ => Keeps.throw _
    · intro _
      apply Keeps.ite
      · -- the frame is written back, removed from the table and cleared; only the last step sets a descriptor
        exact fun _ => Keeps.throw _
      · intro _
        apply Keeps.bind
        · apply Keeps.get.bind
          intro u
          apply Keeps.ite
          · exact fun _ => onFile_keeps (fun _ _ h => h) _ _
          · exact fun _ => Keeps.pure _
        · intro _
          apply (remove_keeps fun _ h => h).bind
          exact fun _ => Keeps.modify fun _ h => h.setDesc fun _ => rfl
  · exact fun _ => Keeps.pure _

theorem clock_onFrame (fuel : Nat) : ∀ count, Keeps (OnFrame (D := D)) (clock fuel count) := by
  induction fuel with
  | zero => exact fun _ => Keeps.exit _
  | succ fuel ih =>
      intro count
      apply Keeps.bind
      · -- the tick moves the hand modulo the number of frames
        intro s hs
        exact ⟨Nat.mod_lt _ (Nat.zero_lt_of_lt hs.1), hs.2⟩
      · intro _
        apply Keeps.get.bind
        intro s
        apply Keeps.ite
        · intro _
          apply Keeps.ite
          · intro _
            apply Keeps.bind
            · exact Keeps.modify fun _ h => h.setDesc fun _ => rfl
            · exact fun _ => ih count
          · intro _
            apply Keeps.ite
            · intro _
              apply Keeps.ite
              · exact fun _ => Keeps.throw _
              · exact fun _ => ih (count + 1)
            · intro _
              -- the frame is taken: either the file of its page is flushed or the page is removed
              apply Keeps.get.bind
              intro t
              apply Keeps.ite
              · intro _
                apply (flushFile_onFrame _).bind
                intro _
                apply Keeps.get.bind
                exact fun _ => Keeps.modify fun _ h => h.setDesc fun _ => rfl
              · exact fun _ => remove_keeps fun _ h => h
        · exact fun _ => Keeps.pure _

theorem allocBuf_onFrame : Keeps (OnFrame (D := D)) allocBuf := by
  apply Keeps.get.bind
  intro s
  apply (clock_onFrame _ 0).bind
  exact fun _ => Keeps.get.bind fun _ => Keeps.pure _

theorem unPinPage_onFrame (f p : Nat) (dirty : Bool) : Keeps (OnFrame (D := D)) (unPinPage f p dirty) := by
  apply Keeps.tryCatch
  · apply (lookup_keeps f p).bind
    intro i
    apply Keeps.get.bind
    intro s
    apply Keeps.ite
    · exact fun _ => (filename_keeps _).bind fun _ => Keeps.throw _
    · exact fun _ => Keeps.modify fun _ h => h.setDesc fun _ => rfl
  · -- a page that is not in the pool is passed over
    intro e y hy
    cases e with
    | hashNotFound name q =>
        cases hy
        exact Keeps.pure ()
    | _ => cases hy

variable [PageData D]

theorem readPage_onFrame (f p : Nat) : Keeps (OnFrame (D := D)) (readPage f p) := by
  apply Keeps.tryCatch
  · apply (lookup_keeps f p).bind
    intro i
    apply Keeps.bind
    · exact Keeps.modify fun _ h => h.setDesc fun _ => rfl
    · exact fun _ => Keeps.pure i
  · intro e y hy
    -- a miss: a frame is found, the page read into it, and the descriptor set
    have hmiss : Keeps (OnFrame (D := D)) (do
        let frameNo ← allocBuf
        let page ← onFile f fun file => PageFile.readPage file.filename p
        modify (Sys.setFrame frameNo page)
        insert f p frameNo
        modify (Sys.setDesc frameNo (BufDesc.set f p))
        pure frameNo) := by
      apply allocBuf_onFrame.bind
      intro i
      apply (onFile_keeps (fun _ _ h => h) f _).bind
      intro page
      apply Keeps.bind
      · exact Keeps.modify fun _ h => h
      · intro _
        apply (insert_keeps fun _ h => h).bind
        intro _
        apply Keeps.bind
        · exact Keeps.modify fun _ h => h.setDesc fun _ => rfl
        · exact fun _ => Keeps.pure i
    cases e with
    | hashNotFound name q =>
        cases hy
        exact hmiss
    | _ => cases hy

theorem allocPage_onFrame (f : Nat) : Keeps (OnFrame (D := D)) (allocPage f) := by
  apply allocBuf_onFrame.bind
  intro i
  apply (onFile_keeps (fun _ _ h => h) f _).bind
  intro page
  apply Keeps.bind
  · exact Keeps.modify fun _ h => h
  · intro _
    apply Keeps.bind
    · exact Keeps.modify fun _ h => h.setDesc fun _ => rfl
    · exact fun _ => (insert_keeps fun _ h => h).bind fun _ => Keeps.pure _

theorem disposePage_onFrame (f p : Nat) : Keeps (OnFrame (D := D)) (disposePage f p) := by
  have hdrop : Keeps (OnFrame (D := D)) (dropPage f p) := by
    apply Keeps.tryCatch
    · apply (lookup_keeps f p).bind
      intro i
      apply Keeps.get.bind
      intro s
      apply Keeps.ite
      · exact fun _ => (filename_keeps _).bind fun _ => Keeps.throw _
      · intro _
        apply Keeps.bind
        · exact Keeps.modify fun _ h => h.setDesc fun _ => rfl
        · exact fun _ => remove_keeps fun _ h => h
    · intro e y hy
      cases e with
      | hashNotFound name q =>
          cases hy
          exact Keeps.pure ()
      | _ => cases hy
  exact hdrop.bind fun _ => onFile_keeps (fun _ _ h => h) f _

theorem call_onFrame (op : BufOp) : Keeps (OnFrame (D := D)) (call op) := by
  cases op with
  | readPage f p => exact (readPage_onFrame f p).bind fun _ => Keeps.pure _
  | allocPage f => exact (allocPage_onFrame f).bind fun _ => Keeps.pure _
  | unPinPage f p dirty => exact (unPinPage_onFrame f p dirty).bind fun _ => Keeps.pure _
  | flushFile f => exact (flushFile_onFrame f).bind fun _ => Keeps.pure _
  | disposePage f p => exact (disposePage_onFrame f p).bind fun _ => Keeps.pure _

theorem outcome_onFrame (h : OnFrame s) (e : PoolEvent D) : OnFrame (outcome call s e) := by
  cases e with
  | call op => exact (wp_of_state rfl).mp (call_onFrame op s h)
  | outside objects streams frames => exact h

theorem run_onFrame (objects : Nat → Option FileObject) (streams : FileName → FStream D) {bufs : Nat}
    (hbufs : 1 ≤ bufs) {events : List (PoolEvent D)}
    (h : Run (fun s e t => t = outcome call s e) ⟨objects, streams, .new bufs⟩ events s) : OnFrame s := by
  apply h.invariant
  · exact ⟨Nat.sub_lt hbufs Nat.one_pos, fun _ => rfl⟩
  · intro s e t hs hstep
    rw [hstep]
    exact outcome_onFrame hs e

/-- **When the clock gives up too early**: in every pool that a run leads to, `allocBuf` ends, and it refuses
just a full pool if and only if the clock can stop in its first round, or the pool is full, or the pinned
frames without a reference bit and those before the first unpinned frame are together no more than there are
frames. -/
theorem allocBuf_iff (objects : Nat → Option FileObject) (streams : FileName → FStream D) (bufs : Nat)
    (hbufs : 1 ≤ bufs) {events : List (PoolEvent D)}
    (h : Run (fun s e t => t = outcome call s e) ⟨objects, streams, .new bufs⟩ events s) :
    RefusesOnlyFull s ↔
      (∃ d ∈ clockOrder s, Stops d) ∨ (∀ d ∈ clockOrder s, Held d) ∨
        counted (clockOrder s) + leading (clockOrder s) ≤ s.numBufs := by
  apply refusesOnlyFull_iff
  exact (run_onFrame objects streams hbufs h).1

/-- Three frames, with four pages of a file: the last frame is not pinned, and nothing is counted on the way
to it. -/
theorem allocBuf_room :
    let start : Sys StringArea := ⟨twoFiles, newStreams true, .new 3⟩
    let events : List (PoolEvent StringArea) :=
      [.call (.allocPage 1), .call (.allocPage 1), .call (.allocPage 1), .call (.unPinPage 1 3 false)]
    let s := events.foldl (outcome call) start
    RefusesOnlyFull s ∧ ¬ ∀ i < s.numBufs, Held (s.desc i) := by
  have hrun : Run (fun s e t => t = outcome call s e) ⟨twoFiles, newStreams true, .new 3⟩
      [.call (.allocPage 1), .call (.allocPage 1), .call (.allocPage 1), .call (.unPinPage 1 3 false)]
      (List.foldl (outcome call) (⟨twoFiles, newStreams true, .new 3⟩ : Sys StringArea)
        [.call (.allocPage 1), .call (.allocPage 1), .call (.allocPage 1), .call (.unPinPage 1 3 false)]) :=
    .cons rfl (.cons rfl (.cons rfl (.cons rfl (.nil _))))
  have hroom := allocBuf_iff twoFiles (newStreams true) 3 (by decide) hrun
  exact ⟨hroom.mpr (Or.inr (Or.inr (by decide +kernel))), by decide +kernel⟩

/-- Three frames, with the first two pages pinned. The third page is replaced by a fourth one, on which the
clock clears two reference bits. When the third page is read again, the two pinned frames are counted before
the bit of the last frame is cleared, and again after it: the pool is refused with a frame to spare. -/
theorem allocBuf_early :
    let start : Sys StringArea := ⟨twoFiles, newStreams true, .new 3⟩
    let events : List (PoolEvent StringArea) :=
      [.call (.allocPage 1), .call (.allocPage 1), .call (.allocPage 1), .call (.unPinPage 1 3 false),
        .call (.allocPage 1), .call (.unPinPage 1 4 false)]
    let s := events.foldl (outcome call) start
    Run (fun s e t => t = outcome call s e) start events s ∧
      (call (.readPage 1 3) s).1 = .error (.throw .bufferExceeded) ∧
      (s.desc 2).pinCnt = 0 ∧ ¬ RefusesOnlyFull s := by
  have hrun : Run (fun s e t => t = outcome call s e) ⟨twoFiles, newStreams true, .new 3⟩
      [.call (.allocPage 1), .call (.allocPage 1), .call (.allocPage 1), .call (.unPinPage 1 3 false),
        .call (.allocPage 1), .call (.unPinPage 1 4 false)]
      (List.foldl (outcome call) (⟨twoFiles, newStreams true, .new 3⟩ : Sys StringArea)
        [.call (.allocPage 1), .call (.allocPage 1), .call (.allocPage 1), .call (.unPinPage 1 3 false),
          .call (.allocPage 1), .call (.unPinPage 1 4 false)]) :=
    .cons rfl (.cons rfl (.cons rfl (.cons rfl (.cons rfl (.cons rfl (.nil _))))))
  refine ⟨hrun, by decide +kernel, by decide +kernel, ?_⟩
  intro h
  have hheld := h.2.mp (by decide +kernel) 2 (by decide)
  exact absurd hheld (by decide)

end CS640.Badger.P2.BufMgr
