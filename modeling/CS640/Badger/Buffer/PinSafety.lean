import CS640.Badger.Buffer.P3

/-!
# Pins of p3

Main result: `P3.BufMgr.pinSafety`. In every run in which no pinned page is disposed of and no write
of an evicted page is refused, a page that is pinned keeps its frame, with what is in it, and every
further `readPage` of it returns that frame.

Nothing is assumed of the files: between the calls they may change in any way, pages may be cached
through several `File` objects, and calls may throw.

The two kinds of calls left out are where the code goes wrong. `disposePage` does not look at the pin
count (`pinSafety_dispose`), and `allocBuf` takes the hash entry of its victim away before a write that
may throw.

`PinInv` says that the frame of a pin is in use, for the page of the pin, and with a pin count that is not zero. A
careful call keeps it (`call_pins`): a frame is taken only with a pin count of zero, so it is the frame of no pin,
and no other frame is written to.
-/

namespace CS640.Badger.P3.BufMgr

open CS640.Lib Prog
open CS640.Badger.BufMgr

variable {D : Type}

/-! ## The calls

One rule for each call. `allocBuf` is where it may go wrong, since p3 drops the entry of its victim before it writes
the page.
-/

/-- Whatever frame the clock takes next, its file does not refuse the page if it has to be written. -/
def VictimWritable (s : Sys D) : Prop :=
  match scan (scanBound s) 0 s with
  | (.ok (_, true), t) => (writeBack t.clockHand t).1.isOk = true
  | _ => True

/-- The calls that keep pins safe: a page that is disposed of is not pinned, and the write of an
evicted page is not refused. -/
def Careful (s : Sys D) : BufOp → Prop
  | .readPage file pageNo => s.entry file pageNo = none → VictimWritable s
  | .allocPage _ => VictimWritable s
  | .disposePage file pageNo => ∀ i, s.entry file pageNo = some i → (s.desc i).pinCnt = 0
  | _ => True

section Calls

variable {s : Sys D} {pins : List Pin}

/-- What `allocBuf` returns is the frame of no pin. -/
theorem allocBuf_pins (h : PinInv s pins) (hw : VictimWritable s) :
    wp allocBuf
      (fun i t => PinInv t pins ∧ (t.desc i).valid = false ∧ i < t.numBufs ∧
        (∀ j, t.frame j = s.frame j) ∧ t.objects = s.objects ∧
        ∀ f p, s.entry f p = none → t.entry f p = none)
      (onThrow fun _ t => PinInv t pins ∧ ∀ j, t.frame j = s.frame j) s := by
  -- three ways for the clock to end: no frame, a free one, or a victim
  apply wp_allocBuf_hashed h.hashedInv
  · intro t k ht hinv _ _
    exact ⟨h.scanned ht hinv, ht.frame⟩
  · intro t ht hinv hv
    refine ⟨h.scanned ht hinv, hv, hinv.hand, ht.frame, ht.objects, fun f p hnone => ?_⟩
    rw [ht.entry]
    exact hnone
  · intro t k ht hinv hv hscan
    have hpins := h.scanned ht hinv
    have hentry := hpins.hashed _ hv.valid hv.unpinned
    unfold VictimWritable at hw
    rw [hscan] at hw
    unfold wp
    have hstreams : wp (writeBack t.clockHand) (fun _ v => ∃ streams,
        v = (t.dropEntry (t.desc t.clockHand).file (t.desc t.clockHand).pageNo).setStreams streams)
        (fun _ _ => True) (t.dropEntry (t.desc t.clockHand).file (t.desc t.clockHand).pageNo) :=
      wp_writeBack_any (fun streams => ⟨streams, rfl⟩) fun _ _ => trivial
    rcases hwrite : writeBack t.clockHand
      -- a careful call is not refused this write
      (t.dropEntry (t.desc t.clockHand).file (t.desc t.clockHand).pageNo) with ⟨e | _, v⟩
    · dsimp only at hw
      rw [Sys.clockHand_dropEntry, hwrite] at hw
      cases hw
    · rw [wp_of_ok hwrite] at hstreams
      obtain ⟨streams, rfl⟩ := hstreams
      refine ⟨(hpins.evict hentry hv.unpinned).setStreams streams, ?_, hinv.hand, ht.frame,
        ht.objects, ?_⟩
      · rw [Sys.desc_setDesc, if_pos rfl]
        rfl
      · intro f p hnone
        rw [Sys.entry_setDesc, Sys.entry_setStreams, Sys.entry_dropEntry, ht.entry, hnone]
        split <;> rfl

theorem flushFrame_pins (h : PinInv s pins) {f i : Nat} {object : FileObject}
    (hf : s.objects f = some object) :
    wp (flushFrame f i)
      (fun _ t => PinInv t pins ∧ t.objects = s.objects ∧ ∀ j, t.frame j = s.frame j)
      (onThrow fun _ t => PinInv t pins ∧ ∀ j, t.frame j = s.frame j) s := by
  apply wp_flushFrame hf (fun hv hp => h.hashed i hv hp)
  · intro _
    exact ⟨h, rfl, fun _ => rfl⟩
  · intro _ _ _
    exact ⟨h, fun _ => rfl⟩
  · intro _ _
    exact ⟨h, fun _ => rfl⟩
  · intro hv hfile
    apply wp_writeBack_any
    · intro streams
      rw [← hfile]
      exact ⟨(h.evict (h.hashed i hv.valid hv.unpinned) hv.unpinned).setStreams streams, rfl,
        fun _ => rfl⟩
    · intro e streams
      exact onThrow_intro (fun _ => ⟨h.setStreams streams, fun _ => rfl⟩) e

theorem flushFile_pins (h : PinInv s pins) {f : Nat} {object : FileObject}
    (hf : s.objects f = some object) :
    wp (flushFile f) (fun _ t => PinInv t pins ∧ ∀ j, t.frame j = s.frame j)
      (onThrow fun _ t => PinInv t pins ∧ ∀ j, t.frame j = s.frame j) s := by
  rw [flushFile, wp_bind, wp_get]
  refine wp_mono (Q := fun _ t => PinInv t pins ∧ t.objects = s.objects ∧ ∀ j, t.frame j = s.frame j)
    (wp_forRange (I := fun _ t => PinInv t pins ∧ t.objects = s.objects ∧
      ∀ j, t.frame j = s.frame j) ⟨h, rfl, fun _ => rfl⟩ ?_)
    -- over the frames: each of them keeps the pins
    (fun _ t ht => ⟨ht.1, ht.2.2⟩) fun _ _ he => he
  rintro i - t ⟨ht, hobj, hframe⟩
  refine wp_mono (flushFrame_pins ht (by rw [hobj]; exact hf)) ?_ ?_
  · rintro _ u ⟨hu, hobj', hframe'⟩
    exact ⟨hu, hobj'.trans hobj, fun j => (hframe' j).trans (hframe j)⟩
  · intro e u he
    exact onThrow_mono he fun _ hu => ⟨hu.1, fun j => (hu.2 j).trans (hframe j)⟩

/-- **Every call keeps the pins**, and what is in their frames; a frame it hands out for one page is
the frame of no pin on another. -/
theorem call_pins [PageData D] (h : PinInv s pins) (op : BufOp) {object : FileObject}
    (hf : s.objects op.file = some object) (hop : Careful s op) :
    wp (call op)
      (fun r t => PinInv t (op.notePins (.ok r) pins) ∧ SameFrames pins s t ∧
        ∀ p i, r = .page p i → ∀ pin ∈ pins, pin.frame = i → pin.file = op.file ∧ pin.pageNo = p)
      (onThrow fun _ t => PinInv t pins ∧ SameFrames pins s t) s := by
  -- a frame that was not in use is filled and entered
  have hload : ∀ {t : Sys D} {streams : FileName → FStream D} {f p i : Nat} {pg : Page D},
      PinInv t pins → (t.desc i).valid = false → i < t.numBufs → (∀ j, t.frame j = s.frame j) →
      t.entry f p = none → op.file = f →
      wp (insert f p i) (fun _ u => PinInv u (⟨f, p, i, false⟩ :: pins) ∧ SameFrames pins s u ∧
          ∀ p' i', BufReply.page p i = .page p' i' → ∀ pin ∈ pins, pin.frame = i' →
            pin.file = op.file ∧ pin.pageNo = p')
        (onThrow fun _ t => PinInv t pins ∧ SameFrames pins s t)
        (((t.setStreams streams).setFrame i pg).setDesc i (BufDesc.set f p)) := by
    intro t streams f p i pg ht hv hi hframe hnone hfile
    have hentry : (((t.setStreams streams).setFrame i pg).setDesc i (BufDesc.set f p)).entry f p = none :=
      hnone
    have hinsert := insert_apply (i := i) hentry
    rw [wp_of_ok hinsert]
    refine ⟨(ht.setStreams streams).load hv hi hnone pg, ?_, ?_⟩
    · intro pin hpin
      exact ((ht.setStreams streams).sameFrames_load hv pg pin hpin).trans (hframe pin.frame)
    · rintro p' i' ⟨⟩ pin hpin rfl
      have hvalid := (ht.frame_pinned hpin).1
      rw [hv] at hvalid
      cases hvalid
  -- a case for each call, by its rule
  cases op with
  | readPage f p =>
      rw [call, wp_bind]
      apply wp_readPage hf
      · -- the page is in the pool, or a frame is taken for it
        intro i hi
        refine ⟨h.pin hi, fun _ _ => rfl, ?_⟩
        rintro _ _ ⟨⟩ pin hpin rfl
        obtain ⟨-, hf', hp'⟩ := h.pool.entry _ _ _ (h.held pin hpin)
        obtain ⟨-, hf, hp⟩ := h.pool.entry f p _ hi
        exact ⟨hf'.symm.trans hf, hp'.symm.trans hp⟩
      · intro hnone
        refine wp_mono (allocBuf_pins h (hop hnone)) ?_ ?_
        · rintro i t ⟨ht, hv, hi, hframe, -, hentry⟩
          apply wp_onFile_any
          · intro pg streams
            exact hload ht hv hi hframe (hentry f p hnone) rfl
          · intro e streams
            exact onThrow_intro (fun _ => ⟨ht.setStreams streams, fun pin _ => hframe pin.frame⟩) e
        · intro e t he
          exact onThrow_mono he fun _ ht => ⟨ht.1, fun pin _ => ht.2 pin.frame⟩
  | allocPage f =>
      rw [call, wp_bind]
      apply wp_allocPage
      refine wp_mono (allocBuf_pins h hop) ?_ ?_
      · rintro i t ⟨ht, hv, hi, hframe, hobj, hentry⟩
        apply wp_onFile_any
        · rintro ⟨p, pg⟩ streams
          cases hp : t.entry f p with
          | none => exact hload ht hv hi hframe hp rfl
          | some j =>
              -- the page is in the pool already: its new frame stays pinned for good
              have hinsert : insert f p i (((t.setStreams streams).setFrame i pg).setDesc i
                  (BufDesc.set f p)) = (.error (.throw (.hashAlreadyPresent object.filename p j)),
                  ((t.setStreams streams).setFrame i pg).setDesc i (BufDesc.set f p)) := by
                apply insert_present
                · have hf : s.objects f = some object := hf
                  simpa [hobj] using hf
                · exact hp
              rw [wp_of_error hinsert]
              refine ⟨(ht.setStreams streams).loadOnly hv hi pg, ?_⟩
              intro pin hpin
              exact ((ht.setStreams streams).sameFrames_load hv pg pin hpin).trans (hframe pin.frame)
        · intro e streams
          exact onThrow_intro (fun _ => ⟨ht.setStreams streams, fun pin _ => hframe pin.frame⟩) e
      · intro e t he
        exact onThrow_mono he fun _ ht => ⟨ht.1, fun pin _ => ht.2 pin.frame⟩
  | unPinPage f p dirty =>
      rw [call, wp_bind]
      apply wp_unPinPage hf
      · intro _
        exact ⟨h, fun _ _ => rfl⟩
      · intro i hi hcnt
        exact ⟨h.markDirty hi, fun _ _ => rfl⟩
      · intro i hi hcnt
        exact ⟨h.unpin hi hcnt, fun _ _ => rfl, fun _ _ hr => by cases hr⟩
  | flushFile f =>
      rw [call, wp_bind]
      refine wp_mono (flushFile_pins h hf) ?_ ?_
      · rintro _ t ⟨ht, hframe⟩
        exact ⟨ht, fun pin _ => hframe pin.frame, fun _ _ hr => by cases hr⟩
      · intro e t he
        exact onThrow_mono he fun _ ht => ⟨ht.1, fun pin _ => ht.2 pin.frame⟩
  | disposePage f p =>
      rw [call, wp_bind]
      apply wp_disposePage hf
      · intro _
        -- not in the pool, or in a frame without a pin
        exact ⟨h, fun _ _ => rfl⟩
      · intro i hi
        obtain ⟨-, rfl, rfl⟩ := h.pool.entry f p i hi
        have hevict := h.evict hi (hop i hi)
        apply wp_onFile_any
        · intro _ streams
          exact ⟨hevict.setStreams streams, fun _ _ => rfl, fun _ _ hr => by cases hr⟩
        · intro e streams
          exact onThrow_intro (fun _ => ⟨hevict.setStreams streams, fun _ _ => rfl⟩) e

end Calls

/-! ## Runs

The pins follow the replies of the calls. What is proved of a state speaks of the next call too, so the runs are
those whose calls are careful up to there.
-/

/-- A pool and the pins its clients hold. -/
structure PinState (D : Type) where
  sys : Sys D
  pins : List Pin

/-- What can happen next: a call, a client writing to a page through a pointer it holds, or a change
of the files that comes from elsewhere. -/
inductive PinEvent (D : Type) where
  | call (op : BufOp)
  | write (pin : Pin) (page : Page D)
  | outside (streams : FileName → FStream D)

namespace PinState

/-- The pool of `bufs` frames, with files that exist already. -/
def new [PageData D] (objects : Nat → Option FileObject) (streams : FileName → FStream D)
    (bufs : Nat) : PinState D where
  sys := ⟨objects, streams, .new bufs⟩
  pins := []

def after [PageData D] (s : PinState D) : PinEvent D → PinState D
  | .call op => ⟨(P3.BufMgr.call op s.sys).2, op.notePins (P3.BufMgr.call op s.sys).1 s.pins⟩
  | .write pin page => ⟨s.sys.setFrame pin.frame page, s.pins⟩
  | .outside streams => ⟨s.sys.setStreams streams, s.pins⟩

/-- The events considered: calls are made with a `File` object that exists, and the program goes on
after them; clients write to pages they have pinned. -/
def Ok [PageData D] (s : PinState D) : PinEvent D → Prop
  | .call op => (s.sys.objects op.file).isSome = true ∧ Proceeds (P3.BufMgr.call op s.sys).1
  | .write pin _ => pin ∈ s.pins
  | .outside _ => True

/-- Among them, those whose calls are careful. -/
def OkCareful [PageData D] (s : PinState D) (e : PinEvent D) : Prop :=
  s.Ok e ∧ ∀ op, e = .call op → Careful s.sys op

/-- Pins are safe in a state. -/
structure Safe [PageData D] (s : PinState D) : Prop where
  holds : ∀ pin ∈ s.pins, (s.sys.desc pin.frame).valid = true ∧
    (s.sys.desc pin.frame).file = pin.file ∧ (s.sys.desc pin.frame).pageNo = pin.pageNo
  again : ∀ pin ∈ s.pins, ∃ t, P3.BufMgr.readPage pin.file pin.pageNo s.sys = (.ok pin.frame, t)
  apart : ∀ pin ∈ s.pins, ∀ op p t, s.OkCareful (.call op) →
    P3.BufMgr.call op s.sys = (.ok (.page p pin.frame), t) → op.file = pin.file ∧ p = pin.pageNo
  kept : ∀ pin ∈ s.pins, ∀ op, s.OkCareful (.call op) →
    (s.after (.call op)).sys.frame pin.frame = s.sys.frame pin.frame

/-- A careful call keeps the pins, and what is in their frames. -/
theorem after_careful [PageData D] {s : PinState D} (h : PinInv s.sys s.pins) {op : BufOp}
    (hok : s.OkCareful (.call op)) :
    PinInv (s.after (.call op)).sys (s.after (.call op)).pins ∧
      ∀ pin ∈ s.pins, (s.after (.call op)).sys.frame pin.frame = s.sys.frame pin.frame := by
  obtain ⟨⟨hlive, hgo⟩, hcare⟩ := hok
  obtain ⟨object, hf⟩ := Option.isSome_iff_exists.mp hlive
  have hspec := call_pins h op hf (hcare op rfl)
  apply Proceeds.of_wp hgo hspec (P := fun r t => PinInv t (op.notePins r s.pins) ∧
    ∀ pin ∈ s.pins, t.frame pin.frame = s.sys.frame pin.frame)
  · exact fun r t _ ht => ⟨ht.1, ht.2.1⟩
  · intro e t _ ht
    have hpins : op.notePins (.error (.throw e)) s.pins = s.pins := by
      cases op <;> rfl
    rw [hpins]
    exact ht

theorem pinInv_after [PageData D] {s : PinState D} (h : PinInv s.sys s.pins) {e : PinEvent D}
    (hok : s.OkCareful e) : PinInv (s.after e).sys (s.after e).pins := by
  cases e with
  | call op => exact (after_careful h hok).1
  | write pin page => exact h.setFrame _ _
  | outside streams => exact h.setStreams _

theorem safe_of_pinInv [PageData D] {s : PinState D} (h : PinInv s.sys s.pins) : s.Safe := by
  constructor
  case holds =>
    intro pin hpin
    exact h.pool.entry _ _ _ (h.held pin hpin)
  case again =>
    intro pin hpin
    exact ⟨_, readPage_hit (h.held pin hpin)⟩
  case apart =>
    rintro pin hpin op p t ⟨⟨hlive, -⟩, hcare⟩ hcall
    obtain ⟨object, hf⟩ := Option.isSome_iff_exists.mp hlive
    have hspec := call_pins h op hf (hcare op rfl)
    rw [wp_of_ok hcall] at hspec
    obtain ⟨hfile, hp⟩ := hspec.2.2 p pin.frame rfl pin hpin rfl
    exact ⟨hfile.symm, hp.symm⟩
  case kept =>
    intro pin hpin op hok
    exact (after_careful h hok).2 pin hpin

end PinState

/-- **A pinned page keeps its frame**, in every run of careful calls. -/
theorem pinSafety [PageData D] (objects : Nat → Option FileObject)
    (streams : FileName → FStream D) (bufs : Nat) (hbufs : 1 ≤ bufs) {events : List (PinEvent D)}
    {s : PinState D} (h : Run (Run.guarded PinState.OkCareful PinState.after)
      (PinState.new objects streams bufs) events s) : s.Safe := by
  apply PinState.safe_of_pinInv
  apply h.invariant (I := fun s => PinInv s.sys s.pins) (pinInv_new objects streams hbufs)
  rintro s e _ hs ⟨hok, rfl⟩
  exact PinState.pinInv_after hs hok

/-- Two frames: a page is pinned, written to, and outlives the eviction of another one. -/
theorem pinSafety_evicts :
    let pin : Pin := ⟨1, 1, 0, false⟩
    let events : List (PinEvent CharArea) :=
      [.call (.allocPage 1), .write pin ⟨⟨0, 0, 0, 0, 1, 0⟩, fun _ => 7⟩, .call (.allocPage 2),
        .call (.unPinPage 2 1 true), .call (.allocPage 2), .call (.readPage 1 1)]
    let s := events.foldl PinState.after (PinState.new twoFiles (newStreams true) 2)
    s.pins = [pin, ⟨2, 2, 1, false⟩, pin] ∧ s.Safe := by
  refine ⟨rfl, pinSafety twoFiles (newStreams true) 2 (by decide) (Run.of_allOk ?_)⟩
  refine ⟨⟨⟨rfl, trivial⟩, ?_⟩, ⟨List.mem_cons_self, ?_⟩, ⟨⟨rfl, trivial⟩, ?_⟩,
    ⟨⟨rfl, trivial⟩, ?_⟩, ⟨⟨rfl, trivial⟩, ?_⟩, ⟨⟨rfl, trivial⟩, ?_⟩, trivial⟩
  · rintro _ ⟨⟩; trivial
  · rintro _ ⟨⟩
  · rintro _ ⟨⟩; trivial
  · rintro _ ⟨⟩; trivial
  · rintro _ ⟨⟩; exact rfl
  · rintro _ ⟨⟩ h; cases h

/-- One frame: a pinned page is disposed of, and its frame goes to another page while the first client
holds its pointer. -/
theorem pinSafety_dispose :
    let events : List (PinEvent CharArea) :=
      [.call (.allocPage 1), .call (.disposePage 1 1), .call (.allocPage 2)]
    let s := events.foldl PinState.after (PinState.new twoFiles (newStreams true) 1)
    Run (Run.guarded PinState.Ok PinState.after) (PinState.new twoFiles (newStreams true) 1)
        events s ∧ ¬ s.Safe := by
  intro events s
  constructor
  · exact Run.of_allOk ⟨⟨rfl, trivial⟩, ⟨rfl, trivial⟩, ⟨rfl, trivial⟩, trivial⟩
  · intro hsafe
    have hpins : s.pins = [⟨2, 1, 0, false⟩, ⟨1, 1, 0, false⟩] := by decide
    have hfile := (hsafe.holds ⟨1, 1, 0, false⟩ (by rw [hpins]; decide)).2.1
    have hother : (s.sys.desc 0).file = 2 := by decide
    rw [hother] at hfile
    cases hfile

end CS640.Badger.P3.BufMgr
