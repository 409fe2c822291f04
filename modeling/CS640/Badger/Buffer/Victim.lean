import CS640.Badger.Buffer.Clock
import CS640.Badger.File.Throws

/-!
# What p2 does to make room

Main result: `P2.BufMgr.touchesOnly_iff`. A call that needs a frame, and for which the clock stops at frame
`v`, touches nothing but frame `v` if and only if the frame is free, or the hash table has its page there
and, if the page is dirty, no other frame has a page of the same `File` object and the page can be written.

A dirty page is written by `flushFile`, which goes over all pages of the file: it empties their frames too,
and throws if one of them is pinned (`touchesOnly_flush`).

`victim` says in advance which frame the clock will stop at, from the descriptors alone, so that the condition can
be about the state before the call. The proof has two halves: `clock_victim` brings the clock to the victim, and
`vacate_evicts` with `removable_of_vacate` says when taking the frame there touches nothing else. `makes_iff` joins
them, and `call_others` carries the result from `allocBuf` to the call that asked for the frame.

* `Others`: what is not in the frame is as it was, up to reference bits.
* `Removable`: the condition on the victim's page. It is kept by what the clock does on its way (`Alike`).
* `makes_iff`: the exact condition for `allocBuf`.
-/

namespace CS640.Badger.P2.BufMgr

open CS640.Lib Prog
open CS640.Badger.BufMgr

variable {D : Type} {s t u : Sys D} {v : Nat}

/-! ## Where the clock stops

The first frame with a property, in the order of the clock, is at some `k`, and the `k` frames before it do not have
the property. `sweep` passes over these by the lemmas of the module on the clock, in the first round or in the
second, and at the frame itself the loop takes the branch that ends it.
-/

/-- The frames in the order in which the clock comes to them. -/
def ring (s : Sys D) : List Nat := (List.range s.numBufs).map fun k => (s.clockHand + 1 + k) % s.numBufs

/-- The frame that the clock stops at: the first one it can take, and in the second round, if it gets that
far, the first one that is not pinned. -/
def victim (s : Sys D) : Option Nat :=
  match (ring s).find? fun i => Stops (s.desc i) with
  | some i => some i
  | none =>
    if s.numBufs < counted (clockOrder s) + leading (clockOrder s) then none
    else (ring s).find? fun i => (s.desc i).pinCnt = 0

/-- What is done where the clock stops. -/
def halt (t : Sys D) : Except (Exit Exn) Unit × Sys D :=
  if (t.desc t.clockHand).valid = true then vacate t else (.ok (), t)

@[simp] theorem ring_length (s : Sys D) : (ring s).length = s.numBufs := by
  simp [ring]

theorem ring_get {k : Nat} (hk : k < (ring s).length) :
    (ring s)[k] = (s.clockHand + 1 + k) % s.numBufs := by
  simp [ring]

theorem clockOrder_get {k : Nat} (hk : k < (clockOrder s).length) :
    (clockOrder s)[k] = s.desc ((s.clockHand + 1 + k) % s.numBufs) := by
  simp [clockOrder]

/-- The first frame with a property, and those before it. -/
theorem ring_find {P : BufDesc → Prop} [DecidablePred P]
    (h : ((ring s).find? fun i => P (s.desc i)) = some v) :
    ∃ k < s.numBufs, (s.clockHand + 1 + k) % s.numBufs = v ∧ P (s.desc v) ∧
      ∀ d ∈ (clockOrder s).take k, ¬ P d := by
  obtain ⟨hv, k, hk, hget, hbefore⟩ := List.find?_eq_some_iff_getElem.mp h
  refine ⟨k, by simpa using hk, by rw [← hget, ring_get], by simpa using hv, ?_⟩
  intro d hd
  obtain ⟨j, hj, rfl⟩ := List.mem_take_iff_getElem.mp hd
  have hjk := hbefore j (by omega)
  rw [ring_get] at hjk
  rw [clockOrder_get]
  simpa using hjk

theorem ring_find_none {P : BufDesc → Prop} [DecidablePred P]
    (h : ((ring s).find? fun i => P (s.desc i)) = none) : ∀ d ∈ clockOrder s, ¬ P d := by
  intro d hd
  obtain ⟨k, hk, rfl⟩ := List.mem_map.mp hd
  have hmem : (s.clockHand + 1 + k) % s.numBufs ∈ ring s := List.mem_map.mpr ⟨k, hk, rfl⟩
  simpa using List.find?_eq_none.mp h _ hmem

/-- The frames that the clock passes, and the one it stops at. -/
theorem clock_stops (fuel : Nat) {count c k : Nat} (hhand : s.clockHand < s.numBufs) (hk : k < s.numBufs)
    (hsweep : sweep s.numBufs ((clockOrder s).take k) count = .passed c)
    (hstop : Stops (s.desc ((s.clockHand + 1 + k) % s.numBufs))) :
    ∃ t, Scanned s t ∧ t.clockHand = (s.clockHand + 1 + k) % s.numBufs ∧
      clock (fuel + 1 + k) count s = halt t := by
  have hlen : ((clockOrder s).take k).length = k := by
    rw [List.length_take, clockOrder_length]
    omega
  have hup : Upcoming s ((clockOrder s).take k) := by
    constructor
    · omega
    · intro j hj
      rw [List.getElem_take, clockOrder_get]
  have hrun := clock_sweep vacate_finds (fuel + 1) ((clockOrder s).take k) count s hhand hup
  rw [hsweep, hlen] at hrun
  obtain ⟨t, ht, hrun⟩ := hrun
  have hhere := ht.desc k hk
  rw [hlen, if_neg (Nat.lt_irrefl k)] at hhere
  have hindex : (t.clockHand + 1) % t.numBufs = (s.clockHand + 1 + k) % s.numBufs := by
    rw [ht.clockHand, ht.numBufs, hlen, Nat.mod_add_mod, Nat.add_right_comm]
  have hdesc : (tick t).desc (tick t).clockHand = s.desc ((s.clockHand + 1 + k) % s.numBufs) := by
    rw [← hhere, ← hindex]
    rfl
  refine ⟨tick t, ht.scanned.trans (scanned_tick t _), hindex, ?_⟩
  rw [hrun, clock_succ, halt, hdesc]
  -- a free frame ends the loop at once, an unpinned one without its bit after two more tests
  rcases hstop with hfree | ⟨hbit, hpin⟩
  · rw [if_neg (by simp [hfree]), if_neg (by simp [hfree])]
  · rw [if_neg (c := (s.desc ((s.clockHand + 1 + k) % s.numBufs)).refbit = true) (by simp [hbit]),
      if_neg (c := (s.desc ((s.clockHand + 1 + k) % s.numBufs)).pinCnt > 0) (by omega)]

theorem leading_take {frames : List BufDesc} {k : Nat} (h : ∀ d ∈ frames.take k, 0 < d.pinCnt) :
    (frames.take k).length ≤ leading frames := by
  have hsplit : leading (frames.take k ++ frames.drop k) =
      (frames.take k).length + leading (frames.drop k) := by
    rw [leading, List.takeWhile_append_of_pos (by simpa using h), List.length_append]
    rfl
  rw [List.take_append_drop] at hsplit
  omega

/-- The first frame that the second round stops at: no reference bit is set any more. -/
theorem clock_second {k : Nat} (hhand : s.clockHand < s.numBufs) (hk : k < s.numBufs)
    (hgo : ∀ d ∈ clockOrder s, ¬ Stops d)
    (hroom : counted (clockOrder s) + leading (clockOrder s) ≤ s.numBufs)
    (hpinned : ∀ d ∈ (clockOrder s).take k, 0 < d.pinCnt)
    (hpin : (s.desc ((s.clockHand + 1 + k) % s.numBufs)).pinCnt = 0) :
    ∃ t, Scanned s t ∧ t.clockHand = (s.clockHand + 1 + k) % s.numBufs ∧
      clock (2 * s.numBufs + 2) 0 s = halt t := by
  have hlen := clockOrder_length s
  have hfirst := clock_sweep vacate_finds (s.numBufs + 2) (clockOrder s) 0 s hhand (upcoming_clockOrder s)
  rw [sweep_passed hgo (by omega), Nat.zero_add, hlen] at hfirst
  obtain ⟨t, ht, hrun⟩ := hfirst
  have hround := ht.round hhand
  have hnum := ht.numBufs
  have hthand : t.clockHand < t.numBufs := by omega
  have htake : (clockOrder t).take k = ((clockOrder s).take k).map passed := by
    rw [ht.clockOrder hhand, List.map_take]
  have hclear : ∀ d ∈ (clockOrder t).take k, d.valid = true ∧ d.refbit = false :=
    fun d hd => ht.clear hhand hgo d (List.mem_of_mem_take hd)
  have hpinned' : ∀ d ∈ (clockOrder t).take k, 0 < d.pinCnt := by
    rw [htake, List.forall_mem_map]
    exact hpinned
  have hlead : leading ((clockOrder t).take k) ≤ leading (clockOrder s) := by
    rw [leading_of_all hpinned', htake, List.length_map]
    exact leading_take hpinned
  have hsweep : sweep t.numBufs ((clockOrder t).take k) (counted (clockOrder s)) =
      .passed (counted (clockOrder s) + ((clockOrder t).take k).length) := by
    rw [sweep_clear hclear (by omega), if_neg (by omega), if_pos hpinned']
  -- the frame itself has lost its reference bit with the others
  have hdesc : t.desc ((s.clockHand + 1 + k) % s.numBufs) =
      passed (s.desc ((s.clockHand + 1 + k) % s.numBufs)) := by
    rw [ht.desc k hk, if_pos (by omega)]
  have hstop : Stops (t.desc ((t.clockHand + 1 + k) % t.numBufs)) := by
    rw [hround, hnum, hdesc]
    exact Or.inr ⟨rfl, hpin⟩
  obtain ⟨u, hu, huhand, hrun'⟩ := clock_stops (s.numBufs + 1 - k) hthand (by omega) hsweep hstop
  refine ⟨u, ht.scanned.trans hu, ?_, ?_⟩
  · rw [huhand, hround, hnum]
  · rw [show 2 * s.numBufs + 2 = s.numBufs + 2 + s.numBufs by omega, hrun, ← hrun']
    congr 1
    omega

/-- **The clock stops at the victim.** -/
theorem clock_victim (hhand : s.clockHand < s.numBufs) (hv : victim s = some v) :
    ∃ t, Scanned s t ∧ t.clockHand = v ∧ v < s.numBufs ∧
      ((s.desc v).valid = false ∨ Victim s v) ∧ clock (2 * s.numBufs + 2) 0 s = halt t := by
  have hlen := clockOrder_length s
  have hpos : 0 < s.numBufs := Nat.zero_lt_of_lt hhand
  have hends : ∀ i, (s.desc i).pinCnt = 0 → (s.desc i).valid = false ∨ Victim s i := by
    intro i hpin
    cases hvalid : (s.desc i).valid with
    | false => exact Or.inl rfl
    | true => exact Or.inr ⟨hvalid, hpin⟩
  rw [victim] at hv
  split at hv
  · next i hfind =>
      cases hv
      obtain ⟨k, hk, rfl, hstop, hbefore⟩ := ring_find hfind
      have hsweep : sweep s.numBufs ((clockOrder s).take k) 0 =
          .passed (0 + counted ((clockOrder s).take k)) := by
        apply sweep_passed hbefore
        rw [List.length_take]
        omega
      obtain ⟨t, ht, hhand', hrun⟩ := clock_stops (2 * s.numBufs + 1 - k) hhand hk hsweep hstop
      refine ⟨t, ht, hhand', Nat.mod_lt _ hpos, ?_, ?_⟩
      · -- the clock stops at a free frame or at one that is not pinned
        rcases hstop with hfree | hstop
        · exact Or.inl hfree
        · exact hends _ hstop.2
      · rw [← hrun]
        congr 1
        omega
  · -- nothing stops the first round, and the second one stops at the first frame that is not pinned
    next hnone =>
      have hgo := ring_find_none hnone
      split at hv
      · cases hv
      · next hroom =>
          obtain ⟨k, hk, rfl, hpin, hbefore⟩ := ring_find (P := fun d => d.pinCnt = 0) hv
          have hpinned : ∀ d ∈ (clockOrder s).take k, 0 < d.pinCnt :=
            fun d hd => Nat.pos_of_ne_zero (hbefore d hd)
          obtain ⟨t, ht, hhand', hrun⟩ := clock_second hhand hk hgo (by omega) hpinned hpin
          exact ⟨t, ht, hhand', Nat.mod_lt _ hpos, hends _ hpin, hrun⟩

/-! ## Making room

`Others` is the part of the condition that every step of the call has to keep, whatever else the step does to frame
`v`. `Evicted` adds what has become of the page in the frame, and `Removable` is the condition that it will be so.
-/

/-- What is not in frame `v` is in `t` as it is in `s`. -/
structure Others (s : Sys D) (v : Nat) (t : Sys D) : Prop where
  desc : ∀ j, j ≠ v → t.desc j = { s.desc j with refbit := (t.desc j).refbit }
  frame : ∀ j, j ≠ v → t.frame j = s.frame j
  entry : ∀ f p j, j ≠ v → s.entry f p = some j → t.entry f p = some j

/-- The file of frame `v` takes its page, and then its stream is `st`. -/
def Writes (s : Sys D) (v : Nat) (o : FileObject) (st : FStream D) : Prop :=
  s.objects (s.desc v).file = some o ∧
    P2.File.writePage o.filename (s.frame v) (s.streams o.filename) = (.ok (), st)

/-- The page in frame `v` has gone, to its file if it was dirty, and nothing else has changed. -/
structure Evicted (s : Sys D) (v : Nat) (t : Sys D) : Prop where
  others : Others s v t
  gone : (s.desc v).valid = true → t.entry (s.desc v).file (s.desc v).pageNo = none
  written : (s.desc v).valid = true → (s.desc v).dirty = true →
    ∃ o st, Writes s v o st ∧ t.streams = (s.setStream o.filename st).streams
  unwritten : (s.desc v).valid = true → (s.desc v).dirty = false → t.streams = s.streams

/-- The page in frame `v` is the only one that is touched when the frame is taken: the hash table has it
there, and if it is dirty, no other frame has a page of its `File` object, and the page can be written. -/
structure Removable (s : Sys D) (v : Nat) : Prop where
  entry : s.entry (s.desc v).file (s.desc v).pageNo = some v
  alone : (s.desc v).dirty = true → ∀ j < s.numBufs, j ≠ v → (s.desc j).file ≠ (s.desc v).file
  number : (s.desc v).dirty = true → (s.frame v).pageNumber = (s.desc v).pageNo
  writes : (s.desc v).dirty = true → ∃ o st, Writes s v o st

section Others

variable {streams : FileName → FStream D} {f p : Nat}

theorem Others.of_scanned (h : Scanned s t) : Others s v t where
  desc j _ := h.desc j
  frame j _ := h.frame j
  entry f p _ _ hj := (h.entry f p).trans hj

theorem Others.setStreams (h : Others s v t) : Others s v (t.setStreams streams) :=
  ⟨h.desc, h.frame, h.entry⟩

theorem Others.setFrame (h : Others s v t) (pg : Page D) : Others s v (t.setFrame v pg) where
  desc := h.desc
  frame j hj := by
    rw [Sys.frame_setFrame, if_neg hj]
    exact h.frame j hj
  entry := h.entry

theorem Others.setDesc (h : Others s v t) (g : BufDesc → BufDesc) : Others s v (t.setDesc v g) where
  desc j hj := by
    rw [Sys.desc_setDesc, if_neg hj]
    exact h.desc j hj
  frame := h.frame
  entry := h.entry

theorem Others.putEntry (h : Others s v t) (hnone : t.entry f p = none) :
    Others s v (t.putEntry f p v) where
  desc := h.desc
  frame := h.frame
  entry f' p' j hj hentry := by
    have hkept := h.entry f' p' j hj hentry
    rw [Sys.entry_putEntry _ _ _ hnone, if_neg]
    · exact hkept
    · -- an entry of another frame would be a second one for the page
      intro heq
      rw [heq.1, heq.2, hnone] at hkept
      cases hkept

/-- The entry of the page in frame `v` may go. -/
theorem Others.dropEntry (h : Others s v t) (hentry : t.entry f p = some v) :
    Others s v (t.dropEntry f p) where
  desc := h.desc
  frame := h.frame
  entry f' p' j hj hj' := by
    have hkept := h.entry f' p' j hj hj'
    rw [Sys.entry_dropEntry, if_neg]
    · exact hkept
    · -- the entry that goes is the one of frame `v`
      intro heq
      rw [heq.1, heq.2, hentry] at hkept
      exact hj (Option.some.inj hkept).symm

end Others

/-! ## Flushing the file of a dirty page

`flushFile` goes over all frames of the pool. Both directions of the condition need to know what one round of it
takes and does: `flushFrame_inv` reads this off a round that has succeeded, `flushFrame_apply` computes the round
for a page that can be written, and `flushFile_empties` says what a flush does to the other frames of the file.
-/

section Flush

variable {f i : Nat}

theorem flushFrame_other (h : (s.desc i).file ≠ f) : flushFrame f i s = (.ok (), s) := by
  rw [flushFrame, bind_of_ok (get_apply s)]
  exact congrFun (if_neg h) s

/-- A page that is written back. -/
theorem writeBack_dirty {o : FileObject} {st : FStream D} (hd : (s.desc i).dirty = true)
    (h : Writes s i o st) : writeBack i s = (.ok (), s.setStream o.filename st) := by
  rw [writeBack, bind_of_ok (get_apply s), if_pos hd, onFile_apply h.1, h.2]

/-- What writing a page back takes. -/
theorem writeBack_inv (hd : (s.desc i).dirty = true) (h : writeBack i s = (.ok (), t)) :
    ∃ o st, Writes s i o st ∧ t = s.setStream o.filename st := by
  rw [writeBack, bind_of_ok (get_apply s), if_pos hd] at h
  cases ho : s.objects (s.desc i).file with
  | none =>
      have hdangling : wp (onFile (s.desc i).file fun file => P2.File.writePage file.filename (s.frame i))
          (fun _ _ => False) (fun _ _ => True) s := (wp_onFile_dangling ho).mpr trivial
      rw [wp_of_ok h] at hdangling
      exact hdangling.elim
  | some o =>
      rw [onFile_apply ho] at h
      have hfirst := congrArg Prod.fst h
      refine ⟨o, _, ⟨ho, Prod.ext hfirst rfl⟩, ?_⟩
      exact (congrArg Prod.snd h).symm

/-- What flushing a frame of the file takes, and what it does. -/
theorem flushFrame_inv (hf : (s.desc i).file = f) (h : flushFrame f i s = (.ok (), t)) :
    (s.desc i).valid = true ∧ (s.frame i).pageNumber = (s.desc i).pageNo ∧
      (∃ j, s.entry f (s.desc i).pageNo = some j) ∧
      ∃ u, writeBack i s = (.ok (), u) ∧
        t = (u.dropEntry f (s.desc i).pageNo).setDesc i BufDesc.clear := by
  have hspec : wp (flushFrame f i) (fun _ t => (s.desc i).valid = true ∧
      (s.frame i).pageNumber = (s.desc i).pageNo ∧ (∃ j, s.entry f (s.desc i).pageNo = some j) ∧
      ∃ u, writeBack i s = (.ok (), u) ∧
        t = (u.dropEntry f (s.desc i).pageNo).setDesc i BufDesc.clear) (fun _ _ => True) s := by
    rw [flushFrame, wp_bind, wp_get]
    dsimp only
    rw [wp_ite]
    refine ⟨fun _ => ?_, fun hne => absurd hf hne⟩
    rw [wp_ite]
    constructor
    · -- a pinned page or a page out of order ends the flush
      intro _
      rw [wp_bind]
      unfold wp
      split <;> trivial
    · intro _
      rw [wp_ite]
      refine ⟨fun _ => trivial, fun hgood => ?_⟩
      obtain ⟨hnum, hv⟩ : (s.frame i).pageNumber = (s.desc i).pageNo ∧ (s.desc i).valid = true := by
        simpa using hgood
      rw [wp_bind]
      -- writing back changes the streams only, and then the entry and the descriptor go
      rcases hr : writeBack i s with ⟨e | _, u⟩
      · rw [wp_of_error hr]
        trivial
      · have hstreams : wp (writeBack i) (fun _ u => ∃ streams, u = s.setStreams streams)
            (fun _ _ => True) s :=
          wp_writeBack_any (fun streams => ⟨streams, rfl⟩) fun _ _ => trivial
        rw [wp_of_ok hr] at hstreams
        obtain ⟨streams, rfl⟩ := hstreams
        rw [wp_of_ok hr, wp_bind]
        rcases hr' : remove f (s.desc i).pageNo (s.setStreams streams) with ⟨e | _, w⟩
        · rw [wp_of_error hr']
          trivial
        · obtain ⟨hentry, rfl⟩ := remove_inv hr'
          rw [wp_of_ok hr', wp_modify]
          exact ⟨hv, hnum, hentry, _, rfl, rfl⟩
  rw [wp_of_ok h] at hspec
  exact hspec

/-- The other frames stay as they are. -/
theorem flushFrame_desc (h : flushFrame f i s = (.ok (), t)) {j : Nat} (hj : j ≠ i) :
    t.desc j = s.desc j := by
  by_cases hf : (s.desc i).file = f
  · obtain ⟨-, -, -, u, hr, rfl⟩ := flushFrame_inv hf h
    have hdesc : wp (writeBack i) (fun _ u => u.desc = s.desc) (fun _ _ => True) s :=
      wp_writeBack_any (fun _ => rfl) fun _ _ => trivial
    rw [wp_of_ok hr] at hdesc
    rw [Sys.desc_setDesc, if_neg hj, Sys.desc_dropEntry, hdesc]
  · rw [flushFrame_other hf] at h
    obtain rfl := (Prod.mk.inj h).2
    rfl

/-- Where no other frame has a page of the file, only this one is looked at. -/
theorem flushFile_alone (hv : v < s.numBufs)
    (halone : ∀ j < s.numBufs, j ≠ v → (s.desc j).file ≠ (s.desc v).file) :
    flushFile (s.desc v).file s = flushFrame (s.desc v).file v s := by
  rw [flushFile, bind_of_ok (get_apply s)]
  apply forRange_only hv
  · intro j hj
    exact flushFrame_other (halone j (by omega) (by omega))
  · intro t ht j hj hjn
    apply flushFrame_other
    rw [flushFrame_desc ht (by omega)]
    exact halone j hjn (by omega)

/-- After a flush no frame has a page of the file, and all that had one were in use. -/
theorem flushFile_empties (h : flushFile f s = (.ok (), t)) :
    ∀ j < s.numBufs, (s.desc j).file = f → (s.desc j).valid = true ∧ (t.desc j).valid = false := by
  have hspec : wp (flushFile f) (fun _ t => (∀ j < s.numBufs, (s.desc j).file = f →
      (s.desc j).valid = true ∧ (t.desc j).valid = false) ∧ ∀ j, s.numBufs ≤ j → t.desc j = s.desc j)
      (fun _ _ => True) s := by
    rw [flushFile, wp_bind, wp_get]
    apply wp_forRange (I := fun k (t : Sys D) => (∀ j < k, (s.desc j).file = f →
      (s.desc j).valid = true ∧ (t.desc j).valid = false) ∧ ∀ j, k ≤ j → t.desc j = s.desc j)
    · exact ⟨fun _ hj => absurd hj (Nat.not_lt_zero _), fun _ _ => rfl⟩
    · intro k _ t ht
      obtain ⟨hdone, hleft⟩ := ht
      have hk : t.desc k = s.desc k := hleft k (Nat.le_refl k)
      rcases hr : flushFrame f k t with ⟨e | _, u⟩
      · rw [wp_of_error hr]
        trivial
      · rw [wp_of_ok hr]
        have hsame : ∀ j, j ≠ k → u.desc j = t.desc j := fun j hj => flushFrame_desc hr hj
        refine ⟨fun j hj hf => ?_, fun j hj => ?_⟩
        · -- the frames before `k` have been emptied already, the others are still as they were
          rcases Nat.lt_succ_iff_lt_or_eq.mp hj with hj | rfl
          · rw [hsame j (by omega)]
            exact hdone j hj hf
          · -- the round that comes to the frame
            have hf' : (t.desc j).file = f := by
              rw [hk]
              exact hf
            obtain ⟨hv, -, -, w, -, rfl⟩ := flushFrame_inv hf' hr
            rw [hk] at hv
            refine ⟨hv, ?_⟩
            rw [Sys.desc_setDesc, if_pos rfl]
            rfl
        · rw [hsame j (by omega)]
          exact hleft j (by omega)
  rw [wp_of_ok h] at hspec
  exact hspec.1

/-- Flushing a frame whose page can be written. -/
theorem flushFrame_apply {o : FileObject} {st : FStream D} (hv : Victim s i)
    (hd : (s.desc i).dirty = true) (hnum : (s.frame i).pageNumber = (s.desc i).pageNo)
    (hentry : s.entry (s.desc i).file (s.desc i).pageNo = some i) (hw : Writes s i o st) :
    flushFrame (s.desc i).file i s = (.ok (), ((s.setStream o.filename st).dropEntry (s.desc i).file
      (s.desc i).pageNo).setDesc i BufDesc.clear) := by
  have hspec : wp (flushFrame (s.desc i).file i) (fun _ t => t = ((s.setStream o.filename st).dropEntry
      (s.desc i).file (s.desc i).pageNo).setDesc i BufDesc.clear) (fun _ _ => False) s := by
    rw [flushFrame, wp_bind, wp_get]
    dsimp only
    rw [wp_ite]
    refine ⟨fun _ => ?_, fun hne => absurd rfl hne⟩
    rw [wp_ite]
    refine ⟨fun hpin => absurd hv.unpinned (by omega), fun _ => ?_⟩
    rw [wp_ite]
    constructor
    · -- the two tests that would throw: the number of the page, and whether the frame is in use
      intro hbad
      rcases hbad with hne | hinvalid
      · exact absurd hnum hne
      · rw [hv.valid] at hinvalid
        cases hinvalid
    · intro _
      have hremove := remove_apply (s := s.setStream o.filename st) hentry
      rw [wp_bind, wp_of_ok (writeBack_dirty hd hw), wp_bind, wp_of_ok hremove, wp_modify]
  obtain ⟨_, t, hr, rfl⟩ := exists_ok_of_wp hspec
  exact hr

end Flush

/-! ## Taking the frame

A clean page is only removed from the table; for a dirty one the whole file is flushed. The two lemmas of this
section are the two directions of the condition, each by these two cases.
-/

/-- An entry that goes was that of frame `v`. -/
theorem Others.entry_gone {f p : Nat} (h : Others s v t) (hsome : ∃ j, s.entry f p = some j)
    (hgone : t.entry f p = none) : s.entry f p = some v := by
  -- were it an entry of another frame, it would still be there
  obtain ⟨j, hj⟩ := hsome
  by_cases hjv : j = v
  · rw [hj, hjv]
  · have hkept := h.entry f p j hjv hj
    rw [hgone] at hkept
    cases hkept

theorem vacate_clean (hd : (t.desc t.clockHand).dirty = false) :
    vacate t = remove (t.desc t.clockHand).file (t.desc t.clockHand).pageNo t := by
  rw [vacate, bind_of_ok (get_apply t)]
  exact congrFun (if_neg (by simp [hd])) t

theorem vacate_dirty (hd : (t.desc t.clockHand).dirty = true) :
    vacate t = (do
      flushFile (t.desc t.clockHand).file
      let s ← get
      modify (Sys.setDesc s.clockHand fun d => { d with dirty := false })) t := by
  rw [vacate, bind_of_ok (get_apply t)]
  exact congrFun (if_pos hd) t

/-- A page that can be removed is evicted. -/
theorem vacate_evicts (hlt : t.clockHand < t.numBufs) (hv : Victim t t.clockHand)
    (h : Removable t t.clockHand) :
    ∃ u, vacate t = (.ok (), u) ∧ u.clockHand = t.clockHand ∧ Evicted t t.clockHand u := by
  cases hd : (t.desc t.clockHand).dirty with
  | false =>
      refine ⟨_, (vacate_clean hd).trans (remove_apply h.entry), rfl, ?_⟩
      -- the entry of the page is all that goes
      constructor
      · exact (Others.of_scanned (Scanned.refl t)).dropEntry h.entry
      · intro _
        rw [Sys.entry_dropEntry, if_pos ⟨rfl, rfl⟩]
      · intro _ hdirty
        rw [hd] at hdirty
        cases hdirty
      · exact fun _ _ => rfl
  | true =>
      obtain ⟨o, st, hw⟩ := h.writes hd
      have hflush := (flushFile_alone hlt (h.alone hd)).trans
        (flushFrame_apply hv hd (h.number hd) h.entry hw)
      refine ⟨_, (vacate_dirty hd).trans ((bind_of_ok hflush).trans rfl), rfl, ?_⟩
      -- the page is written, its entry goes and the frame is cleared
      constructor
      · have hstreams : Others t t.clockHand (t.setStream o.filename st) :=
          (Others.of_scanned (Scanned.refl t)).setStreams
        exact ((hstreams.dropEntry h.entry).setDesc BufDesc.clear).setDesc _
      · intro _
        rw [Sys.entry_setDesc, Sys.entry_setDesc, Sys.entry_dropEntry, if_pos ⟨rfl, rfl⟩]
      · exact fun _ _ => ⟨o, st, hw, rfl⟩
      · intro _ hclean
        rw [hd] at hclean
        cases hclean

/-- A page that is evicted can be removed. -/
theorem removable_of_vacate (hlt : t.clockHand < t.numBufs) (hv : Victim t t.clockHand)
    (hu : vacate t = (.ok (), u)) (hevicted : Evicted t t.clockHand u) : Removable t t.clockHand := by
  cases hd : (t.desc t.clockHand).dirty with
  | false =>
      rw [vacate_clean hd] at hu
      obtain ⟨hsome, rfl⟩ := remove_inv hu
      -- a clean page: the entry that has gone is the one of the victim, and there is nothing else to show
      refine ⟨hevicted.others.entry_gone hsome (hevicted.gone hv.valid), ?_, ?_, ?_⟩
      all_goals
        intro hdirty
        rw [hd] at hdirty
        cases hdirty
  | true =>
      rw [vacate_dirty hd] at hu
      rcases hflush : flushFile (t.desc t.clockHand).file t with ⟨e | _, w⟩
      · rw [bind_of_error hflush] at hu
        cases hu
      · rw [bind_of_ok hflush, bind_of_ok (get_apply w)] at hu
        obtain rfl := (congrArg Prod.snd hu).symm
        have hvalid : ∀ j, ((w.setDesc w.clockHand fun d => { d with dirty := false }).desc j).valid =
            (w.desc j).valid := by
          intro j
          rw [Sys.desc_setDesc]
          split
          · next hj => rw [hj]
          · rfl
        -- a flush empties the other frames of the file as well
        have halone : ∀ j < t.numBufs, j ≠ t.clockHand →
            (t.desc j).file ≠ (t.desc t.clockHand).file := by
          intro j hj hne hfile
          obtain ⟨hbefore, hafter⟩ := flushFile_empties hflush j hj hfile
          have hkept := congrArg BufDesc.valid (hevicted.others.desc j hne)
          rw [modify_apply, hvalid, hafter] at hkept
          rw [← hkept] at hbefore
          cases hbefore
        rw [flushFile_alone hlt halone] at hflush
        obtain ⟨-, hnum, hsome, x, hback, rfl⟩ := flushFrame_inv rfl hflush
        obtain ⟨o, st, hw, rfl⟩ := writeBack_inv hd hback
        exact ⟨hevicted.others.entry_gone hsome (hevicted.gone hv.valid), fun _ => halone, fun _ => hnum,
          fun _ => ⟨o, st, hw⟩⟩

/-! ## The reference bits do not matter

Between the call and the flush the clock has passed over frames and cleared their reference bits. Neither the
condition nor what is said of the result depends on these bits, nor on where the hand is.
-/

/-- The same but for the clock and the reference bits. -/
structure Alike (s t : Sys D) : Prop where
  objects : t.objects = s.objects
  streams : t.streams = s.streams
  numBufs : t.numBufs = s.numBufs
  frame : ∀ i, t.frame i = s.frame i
  entry : ∀ f p, t.entry f p = s.entry f p
  desc : ∀ i, t.desc i = { s.desc i with refbit := (t.desc i).refbit }

theorem Alike.of_scanned (h : Scanned s t) : Alike s t :=
  ⟨h.objects, h.streams, h.numBufs, h.frame, h.entry, h.desc⟩

namespace Alike

variable (h : Alike s t)
include h

theorem symm : Alike t s where
  objects := h.objects.symm
  streams := h.streams.symm
  numBufs := h.numBufs.symm
  frame i := (h.frame i).symm
  entry f p := (h.entry f p).symm
  desc i := by
    rw [h.desc i]

theorem file (i : Nat) : (t.desc i).file = (s.desc i).file := by
  rw [h.desc i]

theorem pageNo (i : Nat) : (t.desc i).pageNo = (s.desc i).pageNo := by
  rw [h.desc i]

theorem dirty (i : Nat) : (t.desc i).dirty = (s.desc i).dirty := by
  rw [h.desc i]

theorem valid (i : Nat) : (t.desc i).valid = (s.desc i).valid := by
  rw [h.desc i]

theorem writes {o : FileObject} {st : FStream D} : Writes t v o st ↔ Writes s v o st := by
  rw [Writes, Writes, h.objects, h.streams, h.frame, h.file]

theorem removable (hs : Removable s v) : Removable t v where
  entry := by
    rw [h.entry, h.file, h.pageNo]
    exact hs.entry
  alone hd j hj hne := by
    rw [h.file, h.file]
    rw [h.numBufs] at hj
    rw [h.dirty] at hd
    exact hs.alone hd j hj hne
  number hd := by
    rw [h.frame, h.pageNo]
    rw [h.dirty] at hd
    exact hs.number hd
  writes hd := by
    rw [h.dirty] at hd
    obtain ⟨o, st, hw⟩ := hs.writes hd
    exact ⟨o, st, h.writes.mpr hw⟩

theorem others (hs : Others s v u) : Others t v u where
  desc j hj := by
    rw [h.desc j]
    exact hs.desc j hj
  frame j hj := (hs.frame j hj).trans (h.frame j).symm
  entry f p j hj hentry := hs.entry f p j hj ((h.entry f p).symm.trans hentry)

theorem evicted (hs : Evicted s v u) : Evicted t v u where
  others := h.others hs.others
  gone hv := by
    rw [h.valid] at hv
    rw [h.file, h.pageNo]
    exact hs.gone hv
  written hv hd := by
    rw [h.valid] at hv
    rw [h.dirty] at hd
    obtain ⟨o, st, hw, hst⟩ := hs.written hv hd
    refine ⟨o, st, h.writes.mpr hw, hst.trans ?_⟩
    show Function.update s.streams o.filename st = Function.update t.streams o.filename st
    rw [h.streams]
  unwritten hv hd := by
    rw [h.valid] at hv
    rw [h.dirty] at hd
    exact (hs.unwritten hv hd).trans h.streams.symm

end Alike

/-! ## The frame of `allocBuf`

The loop of `allocBuf` ends in `halt` at the victim, and what `allocBuf` returns is the number in the descriptor
there, which is the victim by `OnFrame`.
-/

theorem allocBuf_of_clock (h : clock (2 * s.numBufs + 2) 0 s = (.ok (), u)) :
    allocBuf s = (.ok (u.desc u.clockHand).frameNo, u) := by
  rw [allocBuf, bind_of_ok (get_apply s), bind_of_ok h]
  rfl

theorem clock_of_allocBuf {i : Nat} (h : allocBuf s = (.ok i, u)) :
    clock (2 * s.numBufs + 2) 0 s = (.ok (), u) := by
  rw [allocBuf, bind_of_ok (get_apply s)] at h
  rcases hr : clock (2 * s.numBufs + 2) 0 s with ⟨e | _, w⟩
  · rw [bind_of_error hr] at h
    cases h
  · rw [bind_of_ok hr] at h
    obtain rfl : w = u := congrArg Prod.snd h
    rfl

/-- The frame is taken, and nothing else is touched. -/
def Makes (s : Sys D) (v : Nat) : Prop := ∃ t, allocBuf s = (.ok v, t) ∧ Evicted s v t

/-- **What it takes for `allocBuf` to touch only its victim.** -/
theorem makes_iff (h : OnFrame s) (hv : victim s = some v) :
    Makes s v ↔ ((s.desc v).valid = true → Removable s v) := by
  obtain ⟨t, ht, rfl, hlt, hcase, hrun⟩ := clock_victim h.1 hv
  have halike := Alike.of_scanned ht
  have hlt' : t.clockHand < t.numBufs := by
    rw [ht.numBufs]
    exact hlt
  -- the frame that is returned is the one with the hand
  have hframe : ∀ u, clock (2 * s.numBufs + 2) 0 s = (.ok (), u) → u.clockHand = t.clockHand →
      allocBuf s = (.ok t.clockHand, u) := by
    intro u hu hhand
    have hkeeps := allocBuf_onFrame s h
    have hr := allocBuf_of_clock hu
    rw [wp_of_ok hr] at hkeeps
    rw [hr, hhand, hkeeps.2]
  -- a free frame is taken as it is; otherwise the page there has to be removable
  cases hvalid : (s.desc t.clockHand).valid with
  | false =>
      have hfree : (t.desc t.clockHand).valid = false := (halike.valid _).trans hvalid
      constructor
      · exact fun _ hv => by cases hv
      · intro _
        refine ⟨t, hframe t ?_ rfl, ?_⟩
        · rw [hrun, halt, if_neg (by simp [hfree])]
        · refine ⟨Others.of_scanned ht, fun hv => ?_, fun hv => ?_, fun hv => ?_⟩
          all_goals
            rw [hvalid] at hv
            cases hv
  | true =>
      have hused : (t.desc t.clockHand).valid = true := (halike.valid _).trans hvalid
      have hvictim : Victim t t.clockHand := by
        rcases hcase with hinvalid | hvictim
        · rw [hvalid] at hinvalid
          cases hinvalid
        · refine ⟨hused, ?_⟩
          rw [halike.desc]
          exact hvictim.unpinned
      rw [halt, if_pos hused] at hrun
      constructor
      · intro hmakes _
        obtain ⟨u, hu, hevicted⟩ := hmakes
        have hvacate := hrun.symm.trans (clock_of_allocBuf hu)
        exact halike.symm.removable (removable_of_vacate hlt' hvictim hvacate (halike.evicted hevicted))
      · intro hremovable
        obtain ⟨u, hu, hhand, hevicted⟩ := vacate_evicts hlt' hvictim (halike.removable (hremovable rfl))
        exact ⟨u, hframe u (hrun.trans hu) hhand, halike.symm.evicted hevicted⟩

/-! ## The calls

After `allocBuf` the call reads or allocates the page in the file, fills the frame and enters the page. Each of
these steps leaves the other frames as they are, and none of them throws `PagePinnedException`, so `Fills` goes
through the rest of the call step by step.
-/

section Calls

variable {f p : Nat}

/-- An exception other than `PagePinnedException`. -/
def NotPinned {α : Type} (r : Except (Exit Exn) α) : Prop :=
  ∀ name p i, r ≠ .error (.throw (.pagePinned name p i))

/-- What a call that has taken a frame may do besides. -/
def Fills (s : Sys D) (v : Nat) {α : Type} (x : Prog Exn (Sys D) α) : Prop :=
  ∀ t, Others s v t → wp x (fun _ u => Others s v u)
    (fun e u => Others s v u ∧ ∀ name p i, e ≠ .throw (.pagePinned name p i)) t

theorem Fills.bind {α β : Type} {x : Prog Exn (Sys D) α} {g : α → Prog Exn (Sys D) β}
    (hx : Fills s v x) (hg : ∀ a, Fills s v (g a)) : Fills s v (x >>= g) := by
  intro t ht
  rw [wp_bind]
  exact wp_mono (hx t ht) (fun a u hu => hg a u hu) fun _ _ he => he

theorem Fills.modify {g : Sys D → Sys D} (h : ∀ t, Others s v t → Others s v (g t)) :
    Fills s v (Prog.modify g) := h

theorem Fills.pure {α : Type} (a : α) : Fills s v (Pure.pure a) := fun _ h => h

theorem fills_onFile {α : Type} {x : FileObject → Prog Exn (FStream D) α}
    (hx : ∀ o, Throws Exn.IsInvalidPage (x o)) : Fills s v (onFile f x) := by
  intro t ht
  have hany : wp (onFile f x) (fun _ u => Others s v u) (fun _ u => Others s v u) t :=
    wp_onFile_any (fun _ _ => ht.setStreams) fun _ _ => ht.setStreams
  refine wp_mono (wp_and hany (wp_onFile_throws hx)) (fun _ _ h => h.1) ?_
  intro e u he
  refine ⟨he.1, fun name p i heq => ?_⟩
  subst heq
  obtain ⟨⟨q, name', heq⟩, -⟩ := he.2
  cases heq

theorem fills_insert : Fills s v (insert (D := D) f p v) := by
  intro t ht
  apply wp_insert
  · exact fun hnone => ht.putEntry hnone
  · exact fun _ _ _ _ => ⟨ht, fun _ _ _ h => by cases h⟩
  · exact fun _ => ⟨ht, fun _ _ _ h => by cases h⟩

/-- The calls that need a frame: of a page that is not in the pool, or of a new page. -/
def Fetches (s : Sys D) : BufOp → Prop
  | .readPage file pageNo => (s.objects file).isSome = true ∧ s.entry file pageNo = none
  | .allocPage _ => True
  | _ => False

variable [PageData D]

/-- Once the frame has been taken, the call goes on in it, and does not fail because of pins. -/
theorem call_others {op : BufOp} (hop : Fetches s op) (hr : allocBuf s = (.ok v, t))
    (ht : Others s v t) : Others s v (call op s).2 ∧ NotPinned (call op s).1 := by
  have hspec : wp (call op) (fun _ u => Others s v u)
      (fun e u => Others s v u ∧ ∀ name p i, e ≠ .throw (.pagePinned name p i)) s := by
    cases op with
    | readPage f p =>
        obtain ⟨hlive, hnone⟩ := hop
        obtain ⟨o, ho⟩ := Option.isSome_iff_exists.mp hlive
        have hfill : Fills s v (do
            let page ← onFile f fun file => PageFile.readPage (D := D) file.filename p
            modify (Sys.setFrame v page)
            insert f p v
            modify (Sys.setDesc v (BufDesc.set f p))
            pure v) := by
          apply (fills_onFile fun o => PageFile.readPage_throws o.filename p).bind
          intro page
          apply (Fills.modify fun t h => h.setFrame page).bind
          intro _
          apply fills_insert.bind
          intro _
          exact (Fills.modify fun t h => h.setDesc _).bind fun _ => Fills.pure v
        rw [call, wp_bind, readPage, wp_tryCatch, wp_bind, wp_of_error (lookup_missing ho hnone)]
        show wp (allocBuf >>= _) _ _ s
        rw [wp_bind, wp_of_ok hr]
        exact hfill t ht
    | allocPage f =>
        have hfill : Fills s v (do
            let page ← onFile f fun file => P2.File.allocatePage (D := D) file.filename
            modify (Sys.setFrame v page)
            modify (Sys.setDesc v (BufDesc.set f page.pageNumber))
            insert f page.pageNumber v
            pure (page.pageNumber, v)) := by
          apply (fills_onFile fun o => allocatePage_throws o.filename).bind
          intro page
          apply (Fills.modify fun t h => h.setFrame page).bind
          intro _
          apply (Fills.modify fun t h => h.setDesc _).bind
          intro _
          exact fills_insert.bind fun _ => Fills.pure _
        rw [call, wp_bind, allocPage, wp_bind, wp_of_ok hr]
        exact hfill t ht
    | unPinPage f p dirty => exact hop.elim
    | flushFile f => exact hop.elim
    | disposePage f p => exact hop.elim
  rcases hcall : call op s with ⟨e | r, u⟩
  · rw [wp_of_error hcall] at hspec
    exact ⟨hspec.1, fun name p i heq => hspec.2 name p i (Except.error.inj heq)⟩
  · rw [wp_of_ok hcall] at hspec
    exact ⟨hspec, fun _ _ _ heq => by cases heq⟩

/-- The call takes frame `v`, and the page there is all that it touches: that page is written if it is
dirty, and it goes; all other pages stay in their frames, with their pins and dirty bits, whichever way the
call ends; and it does not fail because of pins on other pages. -/
structure TouchesOnly (s : Sys D) (op : BufOp) (v : Nat) : Prop where
  makes : Makes s v
  others : Others s v (call op s).2
  notPinned : NotPinned (call op s).1

/-- **When a call touches nothing but its victim**, in every pool that a run leads to. -/
theorem touchesOnly_iff (objects : Nat → Option FileObject) (streams : FileName → FStream D) (bufs : Nat)
    (hbufs : 1 ≤ bufs) {events : List (PoolEvent D)}
    (h : Run (fun s e t => t = outcome call s e) ⟨objects, streams, .new bufs⟩ events s) {op : BufOp}
    (hop : Fetches s op) (hv : victim s = some v) :
    TouchesOnly s op v ↔ ((s.desc v).valid = true → Removable s v) := by
  have hframe := run_onFrame objects streams hbufs h
  rw [← makes_iff hframe hv]
  constructor
  · exact fun htouches => htouches.makes
  · intro hmakes
    -- `makes` is used for the frame and is also a part of the result
    obtain ⟨t, hr, hevicted⟩ := id hmakes
    obtain ⟨hothers, hnot⟩ := call_others hop hr hevicted.others
    exact ⟨hmakes, hothers, hnot⟩

end Calls

/-- One frame: the dirty page of one file makes room for a page of another one. -/
theorem touchesOnly_alone :
    let start : Sys StringArea := ⟨twoFiles, newStreams true, .new 1⟩
    let events : List (PoolEvent StringArea) := [.call (.allocPage 1), .call (.unPinPage 1 1 true)]
    let s := events.foldl (outcome call) start
    (s.desc 0).dirty = true ∧ TouchesOnly s (.allocPage 2) 0 := by
  have hrun : Run (fun s e t => t = outcome call s e) ⟨twoFiles, newStreams true, .new 1⟩
      [.call (.allocPage 1), .call (.unPinPage 1 1 true)]
      (List.foldl (outcome call) (⟨twoFiles, newStreams true, .new 1⟩ : Sys StringArea)
        [.call (.allocPage 1), .call (.unPinPage 1 1 true)]) :=
    .cons rfl (.cons rfl (.nil _))
  refine ⟨rfl, (touchesOnly_iff twoFiles (newStreams true) 1 (by decide) hrun ?_ ?_).mpr fun _ => ?_⟩
  · exact trivial
  · decide +kernel
  · refine ⟨rfl, fun _ j hj hne => ?_, fun _ => rfl, fun _ => ⟨⟨.page, "f"⟩, _, rfl, rfl⟩⟩
    have hj : j < 1 := hj
    omega

/-- Two frames with pages of one file, the first one pinned: the clock stops at the second one, which is
dirty, and the flush of the file ends at the pin. -/
theorem touchesOnly_flush :
    let start : Sys StringArea := ⟨twoFiles, newStreams true, .new 2⟩
    let events : List (PoolEvent StringArea) :=
      [.call (.allocPage 1), .call (.allocPage 1), .call (.unPinPage 1 2 true)]
    let s := events.foldl (outcome call) start
    Run (fun s e t => t = outcome call s e) start events s ∧ victim s = some 1 ∧
      (call (.allocPage 2) s).1 = .error (.throw (.pagePinned "f" 1 0)) ∧
      ¬ TouchesOnly s (.allocPage 2) 1 := by
  have hthrows : (call (.allocPage 2) (List.foldl (outcome call)
      (⟨twoFiles, newStreams true, .new 2⟩ : Sys StringArea)
      [.call (.allocPage 1), .call (.allocPage 1), .call (.unPinPage 1 2 true)])).1 =
        .error (.throw (.pagePinned "f" 1 0)) := by
    rfl
  refine ⟨.cons rfl (.cons rfl (.cons rfl (.nil _))), by decide +kernel, hthrows, fun h => ?_⟩
  exact h.notPinned "f" 1 0 hthrows

end CS640.Badger.P2.BufMgr
