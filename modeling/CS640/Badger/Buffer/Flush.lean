import CS640.Badger.Buffer.Session

/-!
# What `flushFile` leaves in p3

Main result: `P3.BufMgr.flushes`. In every pool that a run leads to, `flushFile` returns unless a page of the
file is pinned, with every dirty page written and no page of the file in the pool; and however it ends, it
loses none of the data released last and leaves the frames of other files alone.

`Flushed` is the invariant of its loop.

`flushFile` goes over the frames in order. After each of them, what `Flushed` says holds for one frame more: the
frames of the file before it are clear, their dirty pages are on disk, and nothing else has changed. It holds also
where the loop stops at a pinned page, which gives the result for a call that throws.
-/

namespace CS640.Badger.P3.BufMgr

open CS640.Lib Prog
open CS640.Badger.BufMgr
open HandleState (Session)

variable {D : Type} [PageData D]

section Loop

variable {s t : Sys D} {pins : List Pin} {released : FileName → Nat → Option (Page D)} {f p k : Nat}
  {o : FileObject}

/-- Frame `i` is in use, for a page of `f`. -/
def Of (s : Sys D) (f i : Nat) : Prop := (s.desc i).valid = true ∧ (s.desc i).file = f

/-- The frames of `f` before `k` have been flushed. -/
structure Flushed (s : Sys D) (pins : List Pin) (released : FileName → Nat → Option (Page D)) (f : Nat)
    (o : FileObject) (k : Nat) (t : Sys D) : Prop where
  shared : SharedInv t pins released
  objects : t.objects = s.objects
  frame : ∀ i, t.frame i = s.frame i
  unpinned : ∀ i < k, Of s f i → (s.desc i).pinCnt = 0
  cleared : ∀ i < k, Of s f i → t.desc i = (s.desc i).clear
  written : ∀ i < k, Of s f i → (s.desc i).dirty = true →
    onDisk t o (s.desc i).pageNo = some (o.kind.normal (s.frame i))
  others : ∀ i, ¬ (i < k ∧ Of s f i) → t.desc i = s.desc i
  disk : ∀ q d, (∀ i < k, Of s f i → (s.desc i).pageNo ≠ q) → onDisk s o q = some d → onDisk t o q = some d

namespace Flushed

theorem start (h : SharedInv s pins released) : Flushed s pins released f o 0 s where
  shared := h
  objects := rfl
  frame _ := rfl
  unpinned _ hi := absurd hi (Nat.not_lt_zero _)
  cleared _ hi := absurd hi (Nat.not_lt_zero _)
  written _ hi := absurd hi (Nat.not_lt_zero _)
  others _ _ := rfl
  disk _ _ _ hd := hd

/-- A frame that has no page of `f`. -/
theorem skip (h : Flushed s pins released f o k t) (hk : ¬ Of s f k) :
    Flushed s pins released f o (k + 1) t := by
  -- the frame is not one of the file, so nothing is to be shown for it
  have hlt : ∀ i < k + 1, Of s f i → i < k := by
    intro i hi hof
    rcases Nat.lt_succ_iff_lt_or_eq.mp hi with hi | rfl
    · exact hi
    · exact absurd hof hk
  exact
    { shared := h.shared
      objects := h.objects
      frame := h.frame
      unpinned := fun i hi hof => h.unpinned i (hlt i hi hof) hof
      cleared := fun i hi hof => h.cleared i (hlt i hi hof) hof
      written := fun i hi hof => h.written i (hlt i hi hof) hof
      others := fun i hi => h.others i fun hik => hi ⟨Nat.lt_succ_of_lt hik.1, hik.2⟩
      disk := fun q d hq => h.disk q d fun i hi => hq i (Nat.lt_succ_of_lt hi) }

/-- The next frame has not been touched. -/
theorem desc_next (h : Flushed s pins released f o k t) : t.desc k = s.desc k :=
  h.others k fun hk => Nat.lt_irrefl k hk.1

/-- Two frames have different pages of `f`. -/
theorem pageNo_ne (hs : SharedInv s pins released) {i : Nat} (hi : Of s f i) (hk : Of s f k) (hne : i ≠ k) :
    (s.desc i).pageNo ≠ (s.desc k).pageNo := by
  -- otherwise the table would have two frames for one page
  intro heq
  have hentry := hs.full i hi.1
  rw [hi.2, heq, ← hk.2, hs.full k hk.1] at hentry
  exact hne (Option.some.inj hentry).symm

/-- The frame of an unpinned page of `f` is written back and cleared. -/
theorem flush (hs : SharedInv s pins released) (ho : s.objects f = some o)
    (h : Flushed s pins released f o k t) (hv : Victim t k) (hfile : (t.desc k).file = f) :
    wp (writeBack k) (fun _ u => Flushed s pins released f o (k + 1)
      ((u.dropEntry f (t.desc k).pageNo).setDesc k BufDesc.clear)) (fun _ _ => False) t := by
  have hdesc := h.desc_next
  have hof : Of s f k := by
    rw [hdesc] at hfile
    refine ⟨?_, hfile⟩
    rw [← hdesc]
    exact hv.valid
  have ho' : t.objects (t.desc k).file = some o := by
    rw [hfile, h.objects]
    exact ho
  have hwrite := h.shared.writePage_stored (h.shared.full k hv.valid)
  obtain ⟨streams, hrun, hcase⟩ := writeBack_stored hwrite t rfl rfl rfl rfl
  rw [wp_of_ok hrun]
  -- what the write leaves on disk
  have hown : (s.desc k).dirty = true → o.kind.held (streams o.filename) (s.desc k).pageNo =
      some (o.kind.normal (s.frame k)) := by
    intro hdirty
    -- the page was clean, or it has been written
    rcases hcase with ⟨hclean, -⟩ | ⟨o', ho'', hst⟩
    · rw [hdesc, hdirty] at hclean
      cases hclean
    · obtain rfl := Option.some.inj (ho''.symm.trans ho')
      rw [← h.frame, ← hdesc]
      exact hst.own
  have hkeep : ∀ q d, q ≠ (s.desc k).pageNo → onDisk t o q = some d →
      o.kind.held (streams o.filename) q = some d := by
    intro q d hq hd
    rcases hcase with ⟨-, rfl⟩ | ⟨o', ho'', hst⟩
    · exact hd
    · obtain rfl := Option.some.inj (ho''.symm.trans ho')
      rw [hdesc] at hst
      exact hst.keep _ o' q d ho' (fun heq => hq heq.2) hd
  have hshared : SharedInv (((t.setStreams streams).dropEntry f (t.desc k).pageNo).setDesc k
      BufDesc.clear) pins released := by
    rw [← hfile]
    rcases hcase with ⟨hclean, rfl⟩ | ⟨o', ho'', hst⟩
    · exact h.shared.evict_clean hv hclean
    · exact h.shared.evict_written hv ho'' hst
  constructor
  case shared => exact hshared
  case objects => exact h.objects
  case frame => exact h.frame
  case unpinned =>
    intro i hi hofi
    -- the frames before, and this one
    rcases Nat.lt_succ_iff_lt_or_eq.mp hi with hi | rfl
    · exact h.unpinned i hi hofi
    · rw [← hdesc]
      exact hv.unpinned
  case cleared =>
    intro i hi hofi
    rw [Sys.desc_setDesc]
    split
    · next hik =>
        rw [hik]
        show (t.desc k).clear = _
        rw [hdesc]
    · next hik => exact h.cleared i (Nat.lt_of_le_of_ne (Nat.le_of_lt_succ hi) hik) hofi
  case written =>
    intro i hi hofi hdirty
    -- this page was written just now, and the pages written before it are other ones
    by_cases hik : i = k
    · subst hik
      exact hown hdirty
    · exact hkeep _ _ (pageNo_ne hs hofi hof hik)
        (h.written i (Nat.lt_of_le_of_ne (Nat.le_of_lt_succ hi) hik) hofi hdirty)
  case others =>
    intro i hi
    have hik : i ≠ k := by
      rintro rfl
      exact hi ⟨Nat.lt_succ_self i, hof⟩
    rw [Sys.desc_setDesc, if_neg hik]
    exact h.others i fun hlt => hi ⟨Nat.lt_succ_of_lt hlt.1, hlt.2⟩
  case disk =>
    intro q d hq hd
    apply hkeep q d (hq k (Nat.lt_succ_self k) hof).symm
    exact h.disk q d (fun i hi => hq i (Nat.lt_succ_of_lt hi)) hd

end Flushed

/-- The loop of `flushFile` goes over all frames, or stops at a pinned page of the file. -/
theorem flushFile_flushed (hs : SharedInv s pins released) (ho : s.objects f = some o)
    (hnull : s.objects 0 = none) :
    wp (flushFile f) (fun _ t => Flushed s pins released f o s.numBufs t)
      (fun e t => ∃ k, Of s f k ∧ 0 < (s.desc k).pinCnt ∧ Flushed s pins released f o k t ∧
        e = .throw (.pagePinned o.filename (s.desc k).pageNo (s.desc k).frameNo)) s := by
  rw [flushFile, wp_bind, wp_get]
  apply wp_forRange (I := fun k (t : Sys D) => Flushed s pins released f o k t) (Flushed.start hs)
  intro k _ t ht
  have hdesc := ht.desc_next
  have ho' : t.objects f = some o := by
    rw [ht.objects]
    exact ho
  apply wp_flushFrame ho' fun hv _ => ht.shared.full k hv
  · -- four cases: a page of another file, a pinned page, a frame not in use, or a page to flush
    intro hother
    apply ht.skip
    rintro ⟨-, hfile⟩
    rw [hdesc] at hother
    exact hother hfile
  · intro hv hfile hpin
    rw [hdesc] at hv hfile hpin ⊢
    exact ⟨k, ⟨hv, hfile⟩, hpin, ht, rfl⟩
  · intro hv hfile
    -- a frame that is not in use is no file's
    have hclear := ht.shared.pinInv.pool.invalid k hv
    have hzero : (t.desc k).file = 0 := by
      rw [← hclear]
      rfl
    rw [← hfile, hzero, hnull] at ho
    cases ho
  · intro hv hfile
    exact wp_mono (Flushed.flush hs ho ht hv hfile) (fun _ _ hu => hu) fun _ _ he => he.elim

end Loop

/-! ## The call

The parts of `Flushes` follow from `Flushed`, for the frame at which the loop has stopped. A page that is pinned may
have changed since its data was released, so there the data is kept only if it was there before.
-/

/-- The data `d` of page `p` of `f` is in the pool or in the file. -/
def Retained (s : Sys D) (f : Nat) (o : FileObject) (p : Nat) (d : Page D) : Prop :=
  (∃ i, s.entry f p = some i ∧ o.kind.normal (s.frame i) = d) ∨ onDisk s o p = some d

/-- What `flushFile` does with the file of the object `o` at `f`. -/
structure Flushes (s : HandleState D) (f : Nat) (o : FileObject) : Prop where
  /-- It returns, or it refuses for a pinned page, and it throws nothing else. -/
  ends : (flushFile f s.sys).1 = .ok () ∨
    ∃ p i, (flushFile f s.sys).1 = .error (.throw (.pagePinned o.filename p i))
  refuses : (∃ name p i, (flushFile f s.sys).1 = .error (.throw (.pagePinned name p i))) ↔
    ∃ i, Of s.sys f i ∧ 0 < (s.sys.desc i).pinCnt
  written : (flushFile f s.sys).1 = .ok () → ∀ i, Of s.sys f i → (s.sys.desc i).dirty = true →
    onDisk (flushFile f s.sys).2 o (s.sys.desc i).pageNo = some (o.kind.normal (s.sys.frame i))
  gone : (flushFile f s.sys).1 = .ok () → (∀ i, ((flushFile f s.sys).2.desc i).file ≠ f) ∧
    ∀ p, (flushFile f s.sys).2.entry f p = none
  /-- Data released last that is in the pool or in the file stays in one of them. -/
  kept : ∀ p d, s.released o.filename p = some d → Retained s.sys f o p d →
    Retained (flushFile f s.sys).2 f o p d
  /-- It is there of every page that no holder of a pin is changing. -/
  settled : ∀ p d, s.released o.filename p = some d → Unchanged s.pins f p →
    Retained s.sys f o p d ∧ Retained (flushFile f s.sys).2 f o p d
  others : ∀ i, (s.sys.desc i).valid = true → (s.sys.desc i).file ≠ f →
    (flushFile f s.sys).2.desc i = s.sys.desc i ∧ (flushFile f s.sys).2.frame i = s.sys.frame i

section Call

variable {objects : Nat → Option FileObject} {s : HandleState D} {f k : Nat} {o : FileObject} {t : Sys D}

theorem retained_of_unchanged {pins : List Pin} {released : FileName → Nat → Option (Page D)}
    (h : SharedInv t pins released) (hsingle : Single objects) (hobj : t.objects = objects)
    (ho : t.objects f = some o) {p : Nat} {d : Page D} (hd : released o.filename p = some d)
    (hun : Unchanged pins f p) : Retained t f o p d := by
  rcases h.inFile f o p d ho hd with hdisk | ⟨g, hg, ⟨i, hi, -⟩, -⟩
  · exact Or.inr hdisk
  · obtain rfl : g = f := by
      rw [hobj] at ho hg
      exact hsingle g f o o hg ho rfl
    exact Or.inl ⟨i, hi, h.inFrame g o p i d hg hi hd hun⟩

/-- Wherever the loop stops, the data released last is still there. -/
theorem Flushed.retained (h : Session objects s) (hsingle : Single objects) (ho : s.sys.objects f = some o)
    (ht : Flushed s.sys s.pins s.released f o k t) {p : Nat} {d : Page D}
    (hd : s.released o.filename p = some d) (hret : Retained s.sys f o p d) : Retained t f o p d := by
  have ho' : t.objects f = some o := by
    rw [ht.objects]
    exact ho
  by_cases hun : Unchanged s.pins f p
  · exact retained_of_unchanged ht.shared hsingle (ht.objects.trans h.numbered.live) ho' hd hun
  · -- the page is pinned, so the loop has left it alone
    obtain ⟨pin, hpin, rfl, rfl⟩ : ∃ pin ∈ s.pins, pin.file = f ∧ pin.pageNo = p := by
      by_contra hnone
      exact hun fun pin hpin hf hp => absurd ⟨pin, hpin, hf, hp⟩ hnone
    have hentry := h.shared.pinInv.held pin hpin
    have hentry' := ht.shared.pinInv.held pin hpin
    -- the data was in the frame, which is as it was, or in the file
    rcases hret with ⟨i, hi, hframe⟩ | hdisk
    · obtain rfl := Option.some.inj (hi.symm.trans hentry)
      refine Or.inl ⟨pin.frame, hentry', ?_⟩
      rw [ht.frame]
      exact hframe
    · apply Or.inr
      apply ht.disk _ _ _ hdisk
      intro i hi hof hp
      have hfull := h.shared.full i hof.1
      rw [hof.2, hp, hentry] at hfull
      obtain rfl := Option.some.inj hfull
      exact (h.shared.pinInv.frame_pinned hpin).2 (ht.unpinned _ hi hof)

/-- Frames of other files are left alone. -/
theorem Flushed.left (ht : Flushed s.sys s.pins s.released f o k t) (i : Nat)
    (hfile : (s.sys.desc i).file ≠ f) : t.desc i = s.sys.desc i ∧ t.frame i = s.sys.frame i :=
  ⟨ht.others i fun hi => hfile hi.2.2, ht.frame i⟩

/-- When the loop is over, no frame and no entry is left. -/
theorem Flushed.empty (h : Session objects s) (ho : s.sys.objects f = some o) (hnull : objects 0 = none)
    (ht : Flushed s.sys s.pins s.released f o s.sys.numBufs t) :
    (∀ i, (t.desc i).file ≠ f) ∧ ∀ p, t.entry f p = none := by
  have hzero : f ≠ 0 := by
    rintro rfl
    rw [h.numbered.live, hnull] at ho
    cases ho
  have hfree : ∀ i, (t.desc i).valid = false → (t.desc i).file = 0 := by
    intro i hv
    rw [← ht.shared.pinInv.pool.invalid i hv]
    rfl
  have hfile : ∀ i, (t.desc i).file ≠ f := by
    intro i hfile
    -- a frame of the file was cleared, and the others were none
    by_cases hof : i < s.sys.numBufs ∧ Of s.sys f i
    · rw [ht.cleared i hof.1 hof.2] at hfile
      exact hzero hfile.symm
    · have hsame := ht.others i hof
      cases hv : (t.desc i).valid with
      | false =>
          rw [hfree i hv] at hfile
          exact hzero hfile.symm
      | true =>
          rw [hsame] at hv hfile
          exact hof ⟨h.shared.pinInv.pool.valid_lt i hv, hv, hfile⟩
  refine ⟨hfile, fun p => ?_⟩
  cases hi : t.entry f p with
  | none => rfl
  | some i => exact absurd (ht.shared.pinInv.pool.entry f p i hi).2.1 (hfile i)

theorem HandleState.Session.flush (h : HandleState.Session objects s) (hsingle : Single objects)
    (hnull : objects 0 = none) (ho : s.sys.objects f = some o) : Flushes s f o := by
  have hnull' : s.sys.objects 0 = none := by
    rw [h.numbered.live]
    exact hnull
  have hspec := flushFile_flushed h.shared ho hnull'
  have hsettled : ∀ p d, s.released o.filename p = some d → Unchanged s.pins f p → Retained s.sys f o p d :=
    fun p d hd hun => retained_of_unchanged h.shared hsingle h.numbered.live ho hd hun
  have hlt : ∀ i, Of s.sys f i → i < s.sys.numBufs := fun i hof => h.shared.pinInv.pool.valid_lt i hof.1
  -- wherever the loop has stopped
  have hstop : ∃ k, Flushed s.sys s.pins s.released f o k (flushFile f s.sys).2 := by
    rcases hr : flushFile f s.sys with ⟨e | _, t⟩
    · rw [wp_of_error hr] at hspec
      obtain ⟨k, -, -, ht, -⟩ := hspec
      exact ⟨k, ht⟩
    · rw [wp_of_ok hr] at hspec
      exact ⟨_, hspec⟩
  obtain ⟨k, hstop⟩ := hstop
  constructor
  case kept => exact fun p d hd hret => hstop.retained h hsingle ho hd hret
  case settled =>
    exact fun p d hd hun => ⟨hsettled p d hd hun, hstop.retained h hsingle ho hd (hsettled p d hd hun)⟩
  case others => exact fun i _ hfile => hstop.left i hfile
  all_goals rcases hr : flushFile f s.sys with ⟨e | _, t⟩
  case ends.error =>
    rw [wp_of_error hr] at hspec
    obtain ⟨k, -, -, -, rfl⟩ := hspec
    exact Or.inr ⟨_, _, rfl⟩
  case ends.ok => exact Or.inl rfl
  case refuses.error =>
    rw [wp_of_error hr] at hspec
    obtain ⟨k, hof, hpin, -, rfl⟩ := hspec
    exact ⟨fun _ => ⟨k, hof, hpin⟩, fun _ => ⟨_, _, _, rfl⟩⟩
  case refuses.ok =>
    rw [wp_of_ok hr] at hspec
    constructor
    · exact nofun
    · rintro ⟨i, hof, hpin⟩
      have hzero := hspec.unpinned i (hlt i hof) hof
      omega
  case written.error => exact nofun
  case written.ok =>
    rw [wp_of_ok hr] at hspec
    exact fun _ i hof hdirty => hspec.written i (hlt i hof) hof hdirty
  case gone.error => exact nofun
  case gone.ok =>
    rw [wp_of_ok hr] at hspec
    exact fun _ => hspec.empty h ho hnull

end Call

/-- **`flushFile` flushes**, in every pool that a run on files in good order leads to, where each file has one
object. -/
theorem flushes (kinds : FileName → FileKind) (objects : Nat → Option FileObject)
    (streams : FileName → FStream D) (bufs : Nat) (hbufs : 1 ≤ bufs) (hsingle : Single objects)
    (hnull : objects 0 = none) (hkinds : ∀ a o, objects a = some o → o.kind = kinds o.filename)
    (horder : ∀ a o, objects a = some o → o.kind.InOrder (streams o.filename))
    {events : List (CacheEvent D)} {s : HandleState D}
    (h : Run (Run.guarded (fun s e => s.Ok e ∧ s.ReadsWhole e) HandleState.next)
      (HandleState.new kinds objects streams bufs) events s) {f : Nat} {o : FileObject}
    (ho : objects f = some o) : Flushes s f o := by
  have hsession := session_run kinds objects streams bufs hbufs hsingle hkinds horder h
  apply hsession.flush hsingle hnull
  rw [hsession.numbered.live]
  exact ho

/-- Of two pages of a file, the first is flushed, and the second is pinned. A pinned page of another file has
been disposed of. -/
theorem flushes_pinned :
    let pin : Pin := ⟨1, 1, 0, false⟩
    let events : List (CacheEvent CharArea) :=
      [.call (.allocPage 1), .write pin (pageOne fun _ => 7), .unPin { pin with changed := true } true,
        .call (.allocPage 1), .call (.allocPage 2), .call (.disposePage 2 1)]
    let s := events.foldl HandleState.next (HandleState.new (fun _ => .page) twoFiles (newStreams true) 3)
    (flushFile 1 s.sys).1 = .error (.throw (.pagePinned "f" 2 1)) ∧ Flushes s 1 ⟨.page, "f"⟩ := by
  refine ⟨rfl, flushes (fun _ => .page) twoFiles (newStreams true) 3 (by decide)
    (fun a b oa ob => CacheState.twoFiles_one) rfl (fun a o => CacheState.twoFiles_paged)
    (fun a o => CacheState.twoFiles_inOrder true) (Run.of_allOk ?_) rfl⟩
  exact ⟨⟨⟨rfl, rfl, trivial⟩, trivial⟩, ⟨⟨List.mem_cons_self, fun _ _ _ => rfl⟩, trivial⟩,
    ⟨⟨rfl, trivial, Or.inl ⟨List.mem_cons_self, fun _ => rfl⟩⟩, trivial⟩,
    ⟨⟨rfl, rfl, trivial⟩, trivial⟩, ⟨⟨rfl, rfl, trivial⟩, trivial⟩, ⟨⟨rfl, rfl, trivial⟩, trivial⟩, trivial⟩

end CS640.Badger.P3.BufMgr
