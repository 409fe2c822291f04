import CS640.Badger.Buffer.Cache

/-!
# Clients of a pool

The clients of a buffer manager, for the two versions of its calls: they make calls, write to the
pages they have pinned, and give their pins back. Two records of the data of each page are kept
beside the pool. `released` is the data at the last release of a pin with `dirty = true`, or else that
of the page as allocated, or else that of the file. `latest` also has what the holders of pins have
written since; the holders of pins on one page share its frame.

The calls are a parameter of everything here: `after` and `Ok` take them as an argument, and the two versions use
the same rules for what their clients do. `inv_call`, `inv_write` and `inv_unPin` are the cases of a run; for a call
each version still has to show that `CacheInv` holds afterwards.
-/

namespace CS640.Badger

open CS640.Lib Prog

variable {D : Type}

namespace BufMgr

/-- What a pointer to frame `i` shows of a page of `f`. -/
def shown (s : Sys D) (f i : Nat) : Option (Page D) :=
  (s.objects f).map fun o => o.kind.normal (s.frame i)

/-- The note `m` on pages with what it says of one page replaced. -/
def noteAt (m : Nat → Nat → Option (Page D)) (f p : Nat) (v : Option (Page D)) :
    Nat → Nat → Option (Page D) :=
  fun f' p' => if f' = f ∧ p' = p then v else m f' p'

/-- The data that the files have. -/
def filed (s : Sys D) (f p : Nat) : Option (Page D) := (s.objects f).bind fun o => onDisk s o p

theorem noteAt_shown {s : Sys D} {m : Nat → Nat → Option (Page D)} {f p i : Nat} {o : FileObject}
    (ho : s.objects f = some o) :
    noteAt m f p (shown s f i) = noteData m f p (o.kind.normal (s.frame i)) := by
  rw [shown, ho]
  rfl

theorem filed_of_object {s : Sys D} {f p : Nat} {o : FileObject} (ho : s.objects f = some o) :
    filed s f p = onDisk s o p := by
  rw [filed, ho]
  rfl

end BufMgr

open BufMgr

/-!
## What is known of the pages

The two records are functions from pages to data, changed by the same notes. They follow the replies of the calls,
the pool and the files alone. So what they say does not depend on how the pool is written.
-/

/-- What is known of the pages after `op` has answered `r` and left `t`. -/
def BufOp.notePages (op : BufOp) (r : Except (Exit Exn) BufReply) (t : Sys D)
    (m : Nat → Nat → Option (Page D)) : Nat → Nat → Option (Page D) :=
  match op, r with
  | .allocPage file, .ok (.page pageNo frameNo) => noteAt m file pageNo (shown t file frameNo)
  | .disposePage file pageNo, .ok _ => noteAt m file pageNo none
  | _, _ => m

/-- A call that throws leaves what is known as it was. -/
theorem BufOp.notePins_throw (op : BufOp) (e : Exn) (pins : List Pin) :
    op.notePins (.error (.throw e)) pins = pins := by
  cases op <;> rfl

theorem BufOp.notePages_throw (op : BufOp) (e : Exn) (t : Sys D)
    (m : Nat → Nat → Option (Page D)) : op.notePages (.error (.throw e)) t m = m := by
  cases op <;> rfl

/-- What is known of the pages after a pin has been given back. -/
def Pin.noteRelease (pin : Pin) (dirty : Bool) (t : Sys D) (m : Nat → Nat → Option (Page D)) :
    Nat → Nat → Option (Page D) :=
  if dirty = true then noteAt m pin.file pin.pageNo (shown t pin.file pin.frame) else m

/-- The call gives a pin back. -/
def BufOp.IsUnPin : BufOp → Bool
  | .unPinPage _ _ _ => true
  | _ => false

/-- A pool, the pins its clients hold, and the data of the pages. -/
structure CacheState (D : Type) where
  sys : Sys D
  pins : List Pin
  latest : Nat → Nat → Option (Page D)
  released : Nat → Nat → Option (Page D)

/-- What clients do: make a call, give back a pin, write to a page through a pointer. -/
inductive CacheEvent (D : Type) where
  | call (op : BufOp)
  | unPin (pin : Pin) (dirty : Bool)
  | write (pin : Pin) (page : Page D)

/-- Page 1 of a file, with the given data. -/
def pageOne {D : Type} (data : D) : Page D := ⟨⟨0, 8176, 0, 0, 1, 0⟩, data⟩

/-!
## Runs

Both records start as what the files have. A run keeps `Inv`: the pool is a cache for `latest`, and the records
differ only where a holder of a pin has written since the last release.
-/

namespace CacheState

/-- The pool of `bufs` frames, with files that exist already. -/
def new [PageData D] (objects : Nat → Option FileObject) (streams : FileName → FStream D)
    (bufs : Nat) : CacheState D where
  sys := ⟨objects, streams, .new bufs⟩
  pins := []
  latest := filed ⟨objects, streams, .new bufs⟩
  released := filed ⟨objects, streams, .new bufs⟩

/-- What an event leaves, with the calls of the buffer manager given by `call`. -/
def after (call : BufOp → Prog Exn (Sys D) BufReply) (s : CacheState D) :
    CacheEvent D → CacheState D
  | .call op =>
    let r := call op s.sys
    { sys := r.2
      pins := op.notePins r.1 s.pins
      latest := op.notePages r.1 r.2 s.latest
      released := op.notePages r.1 r.2 s.released }
  | .unPin pin dirty =>
    match call (.unPinPage pin.file pin.pageNo dirty) s.sys with
    | (.ok _, t) =>
      if pin ∈ s.pins then
        { sys := t
          pins := s.pins.erase pin
          latest := pin.noteRelease dirty t s.latest
          released := pin.noteRelease dirty t s.released }
      else { s with sys := t }
    | (.error _, t) => { s with sys := t }
  | .write pin page =>
    let t := s.sys.setFrame pin.frame page
    { s with
      sys := t
      pins := { pin with changed := true } :: s.pins.erase pin
      latest := noteAt s.latest pin.file pin.pageNo (shown t pin.file pin.frame) }

/-- The events considered. Calls are made with a `File` object that exists, and the program goes on
after them. Clients give back the pins they hold, and dirty those under which the page was changed; a
client that holds none may try to on a page that nobody has pinned. They write to pages they have
pinned, where the number in the header of a page of a `PageFile` is not theirs to change. -/
def Ok (call : BufOp → Prog Exn (Sys D) BufReply) (s : CacheState D) : CacheEvent D → Prop
  | .call op =>
    (s.sys.objects op.file).isSome = true ∧ op.IsUnPin = false ∧ Proceeds (call op s.sys).1
  | .unPin pin dirty =>
    (s.sys.objects pin.file).isSome = true ∧
      Proceeds (call (.unPinPage pin.file pin.pageNo dirty) s.sys).1 ∧
      (pin ∈ s.pins ∧ (pin.changed = true → dirty = true) ∨
        pinsOn s.pins pin.file pin.pageNo = 0)
  | .write pin page =>
    pin ∈ s.pins ∧ ∀ o, s.sys.objects pin.file = some o → o.kind = .page →
      page.pageNumber = pin.pageNo

/-- The invariant of runs: the pool is a cache of the files, and where no holder of a pin has changed a
page, its data is what was released. -/
structure Inv [PageData D] (s : CacheState D) : Prop where
  cache : CacheInv s.sys s.pins s.latest
  same : ∀ f p, Unchanged s.pins f p → s.released f p = s.latest f p

variable [PageData D]

/-- A new pool over files in good order, each with one `File` object. -/
theorem inv_new {objects : Nat → Option FileObject} {streams : FileName → FStream D} {bufs : Nat}
    (hbufs : 1 ≤ bufs)
    (hone : ∀ a b oa ob, objects a = some oa → objects b = some ob → oa.filename = ob.filename →
      a = b)
    (horder : ∀ a o, objects a = some o → o.kind.InOrder (streams o.filename)) :
    (new objects streams bufs).Inv where
  same _ _ _ := rfl
  cache :=
    { pinInv := pinInv_new objects streams hbufs
      full := fun _ hv => by cases hv
      one := hone
      order := horder
      cached := fun _ _ _ hi => by cases hi
      known := fun f o p ho _ hsome => by
        have ho' : (new objects streams bufs).sys.objects f = some o := ho
        show (filed (new objects streams bufs).sys f p).isSome = true
        rw [filed_of_object ho']
        exact hsome
      inFrame := fun _ _ _ _ _ _ hi => by cases hi
      inFile := fun f o p d ho _ hd => by
        rw [← hd]
        exact (filed_of_object (s := (new objects streams bufs).sys) ho).symm }

theorem twoFiles_cases {a : Nat} {o : FileObject} (h : twoFiles a = some o) :
    a = 1 ∧ o = ⟨.page, "f"⟩ ∨ a = 2 ∧ o = ⟨.page, "g"⟩ := by
  unfold twoFiles at h
  split at h
  · next ha => exact Or.inl ⟨ha, (Option.some.inj h).symm⟩
  · split at h
    · next ha => exact Or.inr ⟨ha, (Option.some.inj h).symm⟩
    · cases h

/-- No file of the two has two `File` objects. -/
theorem twoFiles_one {a b : Nat} {oa ob : FileObject} (ha : twoFiles a = some oa)
    (hb : twoFiles b = some ob) (h : oa.filename = ob.filename) : a = b := by
  rcases twoFiles_cases ha with ⟨rfl, rfl⟩ | ⟨rfl, rfl⟩ <;>
    -- the names of the two files differ
    rcases twoFiles_cases hb with ⟨rfl, rfl⟩ | ⟨rfl, rfl⟩
  · rfl
  · exact absurd h (by decide)
  · exact absurd h (by decide)
  · rfl

theorem twoFiles_paged {a : Nat} {o : FileObject} (ho : twoFiles a = some o) : o.kind = .page := by
  rcases twoFiles_cases ho with ⟨-, rfl⟩ | ⟨-, rfl⟩ <;> rfl

theorem twoFiles_inOrder {a : Nat} {o : FileObject} (sticky : Bool) (ho : twoFiles a = some o) :
    o.kind.InOrder (newStreams (D := D) sticky o.filename) := by
  rw [twoFiles_paged ho]
  exact ⟨[], FStream.owned_newStream _ _ _⟩

theorem twoFiles_sound {a : Nat} {o : FileObject} (ho : twoFiles a = some o) :
    o.kind.Sound (newStreams (D := D) false o.filename) := by
  refine ⟨rfl, ?_⟩
  rw [twoFiles_paged ho]
  exact ⟨[], FStream.owned_newStream _ _ _⟩

/-- One more pin does not change a page. -/
theorem unchanged_cons {pins : List Pin} {f p f' p' i : Nat} :
    Unchanged (⟨f, p, i, false⟩ :: pins) f' p' ↔ Unchanged pins f' p' := by
  constructor
  · intro h pin hpin
    exact h pin (List.mem_cons_of_mem _ hpin)
  · intro h pin hpin hf hp
    rcases List.mem_cons.mp hpin with rfl | hpin
    · rfl
    · exact h pin hpin hf hp

/-- A call that gives no pin back changes no page under the pins of others. -/
theorem unchanged_notePins {op : BufOp} (hop : op.IsUnPin = false)
    (r : Except (Exit Exn) BufReply) {pins : List Pin} {f p : Nat}
    (h : Unchanged (op.notePins r pins) f p) : Unchanged pins f p := by
  -- by the call and its reply; no pin goes but by `unPinPage`
  unfold BufOp.notePins at h
  split at h
  · exact unchanged_cons.mp h
  · exact unchanged_cons.mp h
  · cases hop
  · exact h

omit [PageData D] in
theorem notePages_congr (op : BufOp) (r : Except (Exit Exn) BufReply) (t : Sys D)
    {m m' : Nat → Nat → Option (Page D)} {f p : Nat} (h : m f p = m' f p) :
    op.notePages r t m f p = op.notePages r t m' f p := by
  unfold BufOp.notePages
  split
  · simp only [noteAt, h]
  · simp only [noteAt, h]
  · exact h

/-- A call that gives no pin back. -/
theorem inv_call {call : BufOp → Prog Exn (Sys D) BufReply} {s : CacheState D} (h : s.Inv)
    {op : BufOp} (hop : op.IsUnPin = false)
    (hcache : CacheInv (call op s.sys).2 (op.notePins (call op s.sys).1 s.pins)
      (op.notePages (call op s.sys).1 (call op s.sys).2 s.latest)) :
    (s.after call (.call op)).Inv where
  cache := hcache
  same f p hun := notePages_congr op _ _ (h.same f p (unchanged_notePins hop _ hun))

/-- A client writes to a page it has pinned. -/
theorem inv_write {call : BufOp → Prog Exn (Sys D) BufReply} {s : CacheState D} (h : s.Inv)
    {pin : Pin} {page : Page D} (hok : s.Ok call (.write pin page)) :
    (s.after call (.write pin page)).Inv := by
  obtain ⟨hpin, hnum⟩ := hok
  obtain ⟨o, ho, -⟩ := h.cache.cached _ _ _ (h.cache.pinInv.held pin hpin)
  have hframe : (s.sys.setFrame pin.frame page).frame pin.frame = page := by
    rw [Sys.frame_setFrame, if_pos rfl]
  have hnote : noteAt s.latest pin.file pin.pageNo
      (shown (s.sys.setFrame pin.frame page) pin.file pin.frame) =
      noteData s.latest pin.file pin.pageNo (o.kind.normal page) := by
    rw [noteAt_shown (s := s.sys.setFrame pin.frame page) ho, hframe]
  constructor
  · show CacheInv _ _ (noteAt _ _ _ _)
    rw [hnote]
    exact h.cache.write hpin ho (hnum o ho)
  · intro f p hun
    show s.released f p = noteAt _ _ _ _ f p
    rw [hnote, noteData]
    split
    · -- the page that is written has a changed pin, so nothing is asked of it; other pages are as they were
      next heq =>
        obtain ⟨rfl, rfl⟩ := heq
        have hchanged := hun _ List.mem_cons_self rfl rfl
        cases hchanged
    · next hne =>
        apply h.same f p
        intro q hq hf hp
        by_cases hqpin : q = pin
        · subst hqpin
          exact absurd ⟨hf.symm, hp.symm⟩ hne
        · exact hun q (List.mem_cons_of_mem _ ((List.mem_erase_of_ne hqpin).mpr hq)) hf hp

/-- A client gives back a pin. -/
theorem inv_unPin {s : CacheState D} (h : s.Inv) {pin : Pin} {dirty : Bool} (hpin : pin ∈ s.pins)
    (hchanged : pin.changed = true → dirty = true) :
    let t := s.sys.setDesc pin.frame fun d =>
      { d with dirty := dirty || d.dirty, pinCnt := d.pinCnt - 1 }
    Inv { sys := t
          pins := s.pins.erase pin
          latest := pin.noteRelease dirty t s.latest
          released := pin.noteRelease dirty t s.released } := by
  intro t
  have hentry := h.cache.pinInv.held pin hpin
  obtain ⟨o, ho, -⟩ := h.cache.cached _ _ _ hentry
  -- a page that is unchanged without this pin was so with it, if the pin is given back clean
  have hun : dirty = false → ∀ f p, Unchanged (s.pins.erase pin) f p → Unchanged s.pins f p := by
    intro hclean f p hun q hq hf hp
    by_cases hqpin : q = pin
    · -- a pin under which the page was changed is given back dirty
      cases hq' : pin.changed with
      | false => rw [hqpin, hq']
      | true => rw [hchanged hq'] at hclean; cases hclean
    · exact hun q ((List.mem_erase_of_ne hqpin).mpr hq) hf hp
  have hmark : CacheInv t (s.pins.erase pin) s.latest := by
    have hpins : PinInv t (s.pins.erase pin) := h.cache.pinInv.unpinOne hpin
    refine h.cache.mark hentry (fun _ => ?_) hpins ?_ ?_
    · exact ⟨rfl, rfl, rfl, rfl⟩
    · intro hd
      obtain ⟨hclean, hold⟩ : dirty = false ∧ (s.sys.desc pin.frame).dirty = false :=
        Bool.or_eq_false_iff.mp hd
      exact ⟨hold, hun hclean _ _⟩
    · intro f p hne hun q hq hf hp
      have hqpin : q ≠ pin := by
        rintro rfl
        exact hne ⟨hf.symm, hp.symm⟩
      exact hun q ((List.mem_erase_of_ne hqpin).mpr hq) hf hp
  cases hdirty : dirty with
  -- a clean release is noted nowhere; a dirty one makes the data of the frame the released one
  | false => exact ⟨hmark, fun f p hf => h.same f p (hun hdirty f p hf)⟩
  | true =>
      have hnote : ∀ m : Nat → Nat → Option (Page D), pin.noteRelease true t m =
          noteData m pin.file pin.pageNo (o.kind.normal (t.frame pin.frame)) := by
        intro m
        rw [Pin.noteRelease, if_pos rfl, noteAt_shown (s := t) ho]
      have hset : (t.desc pin.frame).dirty = true := by
        rw [Sys.desc_setDesc, if_pos rfl, hdirty]
        rfl
      constructor
      · show CacheInv t _ (pin.noteRelease true t s.latest)
        rw [hnote]
        exact hmark.noteFrame hentry hset ho
      · intro f p hf
        show pin.noteRelease true t s.released f p = pin.noteRelease true t s.latest f p
        rw [hnote, hnote, noteData, noteData]
        split
        · rfl
        · next hne =>
            apply h.same f p
            intro q hq hfq hpq
            have hqpin : q ≠ pin := by
              rintro rfl
              exact hne ⟨hfq.symm, hpq.symm⟩
            exact hf q ((List.mem_erase_of_ne hqpin).mpr hq) hfq hpq

end CacheState

end CS640.Badger
