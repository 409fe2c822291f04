import CS640.Badger.Buffer.Session
import CS640.Badger.Buffer.Updates
import CS640.Badger.Slotted.Contents

/-!
# Records in a pool

Clients of a buffer manager that insert, update and delete records on the pages they have pinned, as the
tests of p2 in `main.cpp` do. Beside the pool stands what each record id of each paged file is to read as;
what is in a `BlobFile` is no page of records, and is written to as its clients like.

Main results: `P3.BufMgr.keepsRecords` and `P2.BufMgr.keepsRecords_of_keeps`. In every run in which the pool keeps
the data of its pages, and the calls on pages are `Calm`, a page that is read shows exactly the records that
were stored, wherever it has been in the meantime.

The state of a run is a pool with its clients (`CacheState`) and beside it the records, and the invariant joins the
two: the data that the pool is known to have for a page is a page in order, with just the records that are stored
for it. A call on a page is one of the calls of `Slotted.Contents`, made on the frame that the pin points to, so
that what a frame gets is what the page module says of it.

* `Inv`: the invariant. `inv_call`, `inv_unPin`, `inv_write` and `inv_record`: it is kept by each kind of event, for
  both versions of the pool.
* `keepsRecords_of_inv`: what the invariant means for a client.
* `record_inv_after`: the step lemma of each version, from the step lemma of its pool.
-/

namespace CS640.Badger

open CS640.Lib Prog BufMgr

variable {D : Type}

/-! ## The `File` objects

In p3 the module on the pool has that no call changes which `File` objects there are (`Steady`). In p2 a call may
leave a frame half taken, and it is shown here for each function that the objects at least are as before.
-/

section Objects

variable {α : Type} {objects : Nat → Option FileObject}

theorem onFile_objects (f : Nat) (x : FileObject → Prog Exn (FStream D) α) :
    Keeps (fun s : Sys D => s.objects = objects) (onFile f x) :=
  onFile_keeps (fun _ _ hs => hs) f x

/-- Filling a frame, before or after its page is entered. -/
theorem setFrame_objects (i : Nat) (page : Page D) {x : Prog Exn (Sys D) α}
    (hx : Keeps (fun s : Sys D => s.objects = objects) x) :
    Keeps (fun s : Sys D => s.objects = objects) (do modify (Sys.setFrame i page); x) :=
  (Keeps.modify (f := Sys.setFrame i page) fun _ hs => hs).bind fun _ => hx

theorem setDesc_objects (i : Nat) (g : BufDesc → BufDesc) {x : Prog Exn (Sys D) α}
    (hx : Keeps (fun s : Sys D => s.objects = objects) x) :
    Keeps (fun s : Sys D => s.objects = objects) (do modify (Sys.setDesc i g); x) :=
  (Keeps.modify (f := Sys.setDesc i g) fun _ hs => hs).bind fun _ => hx

theorem insert_objects (f p i : Nat) {x : Prog Exn (Sys D) α}
    (hx : Keeps (fun s : Sys D => s.objects = objects) x) :
    Keeps (fun s : Sys D => s.objects = objects) (do insert f p i; x) :=
  (insert_keeps fun _ hs => hs).bind fun _ => hx

namespace P2

theorem flushFile_objects (f : Nat) : Keeps (fun s : Sys D => s.objects = objects) (BufMgr.flushFile f) := by
  apply Keeps.get.bind
  intro s
  apply Keeps.forRange
  intro i
  apply Keeps.get.bind
  intro t
  apply Keeps.ite
  · -- a frame of the file: the page is written back and taken out of the table, which leaves the objects
    intro _
    apply Keeps.ite (fun _ => (filename_keeps _).bind fun _ => Keeps.throw _)
    intro _
    apply Keeps.ite (fun _ => Keeps.throw _)
    intro _
    apply Keeps.bind
    · exact Keeps.get.bind fun _ => Keeps.ite (fun _ => onFile_objects _ _) fun _ => Keeps.pure _
    · intro _
      apply (remove_keeps fun _ hs => hs).bind
      intro _
      exact Keeps.modify fun _ hs => hs
  · exact fun _ => Keeps.pure _

theorem clock_objects (fuel clockCount : Nat) :
    Keeps (fun s : Sys D => s.objects = objects) (BufMgr.clock fuel clockCount) := by
  induction fuel generalizing clockCount with
  | zero => exact Keeps.exit _
  | succ fuel ih =>
      apply Keeps.bind
      · exact Keeps.get.bind fun s => Keeps.modify fun _ hs => hs
      · intro _
        apply Keeps.get.bind
        intro s
        apply Keeps.ite (fun _ => ?_) fun _ => Keeps.pure _
        -- the branches of the loop: the bit is cleared, the frame is pinned and counted, the frame is taken
        apply Keeps.ite (fun _ => setDesc_objects _ _ (ih _))
        intro _
        apply Keeps.ite (fun _ => Keeps.ite (fun _ => Keeps.throw _) fun _ => ih _)
        intro _
        apply Keeps.get.bind
        intro t
        apply Keeps.ite
        · intro _
          apply (flushFile_objects _).bind
          intro _
          exact Keeps.get.bind fun u => Keeps.modify fun _ hs => hs
        · exact fun _ => remove_keeps fun _ hs => hs

/-- No call of p2 changes which `File` objects there are. -/
theorem call_objects [PageData D] (op : BufOp) :
    Keeps (fun s : Sys D => s.objects = objects) (BufMgr.call op) := by
  have halloc : Keeps (fun s : Sys D => s.objects = objects) BufMgr.allocBuf :=
    Keeps.get.bind fun _ => (clock_objects _ _).bind fun _ => Keeps.get.bind fun _ => Keeps.pure _
  cases op with
  | readPage f p =>
      refine Keeps.bind (Keeps.tryCatch ?_ (onHashNotFound_keeps ?_)) fun _ => Keeps.pure _
      · exact (lookup_keeps f p).bind fun i => setDesc_objects i _ (Keeps.pure i)
      · exact halloc.bind fun i => (onFile_objects f _).bind fun page =>
          setFrame_objects i page (insert_objects f p i (setDesc_objects i _ (Keeps.pure i)))
  | allocPage f =>
      refine Keeps.bind ?_ fun _ => Keeps.pure _
      exact halloc.bind fun i => (onFile_objects f _).bind fun page =>
        setFrame_objects i page (setDesc_objects i _ (insert_objects f _ i (Keeps.pure (_, i))))
  | unPinPage f p dirty =>
      refine Keeps.bind (Keeps.tryCatch ?_ (onHashNotFound_keeps (Keeps.pure _))) fun _ => Keeps.pure _
      apply (lookup_keeps f p).bind
      intro i
      apply Keeps.get.bind
      intro s
      exact Keeps.ite (fun _ => (filename_keeps _).bind fun _ => Keeps.throw _) fun _ =>
        Keeps.modify fun _ hs => hs
  | flushFile f => exact (flushFile_objects f).bind fun _ => Keeps.pure _
  | disposePage f p =>
      refine Keeps.bind (Keeps.bind ?_ fun _ => onFile_objects f _) fun _ => Keeps.pure _
      apply Keeps.tryCatch ?_ (onHashNotFound_keeps (Keeps.pure _))
      apply (lookup_keeps f p).bind
      intro i
      apply Keeps.get.bind
      intro s
      apply Keeps.ite (fun _ => (filename_keeps _).bind fun _ => Keeps.throw _)
      intro _
      exact setDesc_objects i _ (remove_keeps fun _ hs => hs)

end P2

end Objects

/-! ## Records

The records of a file are a map from record ids, and each page sees of it the ids that name the page: `onlyPage p`
is what page `p` is asked to keep, and `withoutPage p` is what is left of a file when the page is new or disposed
of. The events are those of the pool and one more, a call on a page that is pinned.
-/

variable [DataArea D]

/-- The records of page `p` alone. -/
def onlyPage (p : Nat) (m : RecordId → Option (List UInt8)) : RecordId → Option (List UInt8) :=
  fun id => if id.pageNumber = p then m id else none

/-- The records of the pages other than `p`. -/
def withoutPage (p : Nat) (m : RecordId → Option (List UInt8)) : RecordId → Option (List UInt8) :=
  fun id => if id.pageNumber = p then none else m id

/-- What is stored after `op` has answered `r`: a new page has no records, and neither has one that was
disposed of. -/
def BufOp.noteRecords (op : BufOp) (r : Except (Exit Exn) BufReply)
    (m : Nat → RecordId → Option (List UInt8)) : Nat → RecordId → Option (List UInt8) :=
  match op, r with
  | .allocPage file, .ok (.page pageNo _) => Function.update m file (withoutPage pageNo (m file))
  | .disposePage file pageNo, .ok _ => Function.update m file (withoutPage pageNo (m file))
  | _, _ => m

/-- A pool with its clients, and what each record id of each file is to read as. -/
structure RecordState (D : Type) where
  cache : CacheState D
  records : Nat → RecordId → Option (List UInt8)

/-- What clients do: make a call, give back a pin, write to a page through a pointer, make a call on a page
through a pointer. -/
inductive RecordEvent (D : Type) where
  | call (op : BufOp)
  | unPin (pin : Pin) (dirty : Bool)
  | write (pin : Pin) (page : Page D)
  | record (pin : Pin) (op : StoreOp)

namespace RecordState

/-- The pool of `bufs` frames, with files that exist already, and the records in them. -/
def new (objects : Nat → Option FileObject) (streams : FileName → FStream D) (bufs : Nat) : RecordState D where
  cache := .new objects streams bufs
  records f id := ((CacheState.new objects streams bufs).latest f id.pageNumber).bind fun page =>
    page.recordAt id.slotNumber

/-- What an event leaves, with the calls of the buffer manager given by `call`. -/
def after (call : BufOp → Prog Exn (Sys D) BufReply) (s : RecordState D) : RecordEvent D → RecordState D
  | .call op => ⟨s.cache.after call (.call op), op.noteRecords (call op s.cache.sys).1 s.records⟩
  | .unPin pin dirty => ⟨s.cache.after call (.unPin pin dirty), s.records⟩
  | .write pin page => ⟨s.cache.after call (.write pin page), s.records⟩
  | .record pin op =>
    match op.run (s.cache.sys.frame pin.frame) with
    | (.ok id, page) =>
      { cache := s.cache.after call (.write pin page)
        records := Function.update s.records pin.file
          (Function.update (s.records pin.file) id op.data) }
    | (.error _, page) => { s with cache := { s.cache with sys := s.cache.sys.setFrame pin.frame page } }

/-- The page that a pin is on, and what its records are to read as. -/
def store (s : RecordState D) (pin : Pin) : Store D :=
  ⟨s.cache.sys.frame pin.frame, onlyPage pin.pageNo (s.records pin.file)⟩

/-- The events considered, with those of the pool alone given by `allowed`. Calls on a page are made by who
has it pinned, and are `Calm`. -/
def Ok (allowed : CacheState D → CacheEvent D → Prop) (s : RecordState D) : RecordEvent D → Prop
  | .call op => allowed s.cache (.call op)
  | .unPin pin dirty => allowed s.cache (.unPin pin dirty)
  | .write pin page =>
    allowed s.cache (.write pin page) ∧ ∀ o, s.cache.sys.objects pin.file = some o → o.kind = .blob
  | .record pin op =>
    pin ∈ s.cache.pins ∧ (∀ o, s.cache.sys.objects pin.file = some o → o.kind = .page) ∧
      (s.store pin).Calm op

/-! ## The invariant

What is known of the pages (`latest`) carries no link, so `HasRecords` speaks of the contents of a page and
`HasRecords.kept` gets from them to the page in a frame. The lemmas before it say how `onlyPage` goes with the
changes that the events make to the records.
-/

/-- The data of page `p` is a page in order that has just the records `live`; where there is no page there
are no records. -/
def HasRecords (p : Nat) (live : RecordId → Option (List UInt8)) : Option (Page D) → Prop
  | some page => page.pageNumber = p ∧ (Store.mk page live).Kept
  | none => ∀ id, live id = none

structure Inv (s : RecordState D) : Prop where
  cache : s.cache.Inv
  shown : ∀ f o p, s.cache.sys.objects f = some o → o.kind = .page →
    HasRecords p (onlyPage p (s.records f)) (s.cache.latest f p)

variable {s : RecordState D} {f p q n : Nat} {o : FileObject} {id : RecordId} {pin : Pin} {page : Page D}
  {m : RecordId → Option (List UInt8)} {call : BufOp → Prog Exn (Sys D) BufReply}

@[simp] theorem onlyPage_apply : onlyPage p m ⟨p, n⟩ = m ⟨p, n⟩ := if_pos rfl

/-- The page is gone from what is stored. -/
theorem onlyPage_withoutPage_self : onlyPage p (withoutPage p m) = fun _ => none := by
  funext id
  unfold onlyPage withoutPage
  split <;> rfl

theorem onlyPage_withoutPage_of_ne (h : q ≠ p) : onlyPage q (withoutPage p m) = onlyPage q m := by
  funext id
  unfold onlyPage withoutPage
  split
  · next hid => rw [if_neg (hid ▸ h)]
  · rfl

/-- A record of the page is stored. -/
theorem onlyPage_update_self (h : id.pageNumber = p) (v : Option (List UInt8)) :
    onlyPage p (Function.update m id v) = Function.update (onlyPage p m) id v := by
  funext id'
  by_cases heq : id' = id
  · -- at the record itself both sides are the new value
    rw [heq, Function.update_self, onlyPage, if_pos h, Function.update_self]
  · rw [Function.update_of_ne heq, onlyPage, onlyPage, Function.update_of_ne heq]

theorem onlyPage_update_of_ne (h : id.pageNumber ≠ q) (v : Option (List UInt8)) :
    onlyPage q (Function.update m id v) = onlyPage q m := by
  funext id'
  unfold onlyPage
  split
  · next hid =>
      apply Function.update_of_ne
      rintro rfl
      exact h hid
  · rfl

/-- A page shows its records, whatever its link. -/
theorem HasRecords.kept {live : RecordId → Option (List UInt8)} (h : HasRecords p live (some page.contents)) :
    page.pageNumber = p ∧ (Store.mk page live).Kept :=
  ⟨h.1, Store.kept_of_contents h.2⟩

/-- The data of a paged file is noted, or a page is noted that has no records. -/
theorem hasRecords_note {latest : Nat → Nat → Option (Page D)} {records : Nat → RecordId → Option (List UInt8)}
    {file : Nat} {v : Option (Page D)} (h : HasRecords p (onlyPage p (records f)) (latest f p))
    (hv : f = file → HasRecords q (fun _ => none) v) :
    HasRecords p (onlyPage p (Function.update records file (withoutPage q (records file)) f))
      (noteAt latest file q v f p) := by
  unfold noteAt
  by_cases hf : f = file
  · -- the file that is noted: its own page, and its other pages
    subst hf
    rw [Function.update_self]
    by_cases hp : p = q
    · subst hp
      rw [onlyPage_withoutPage_self, if_pos ⟨rfl, rfl⟩]
      exact hv rfl
    · rw [onlyPage_withoutPage_of_ne hp, if_neg fun heq => hp heq.2]
      exact h
  · rw [Function.update_of_ne hf, if_neg fun heq => hf heq.1]
    exact h

omit [DataArea D] in
theorem paged_of_object {t : Sys D} (fn : FileName) (h : t.objects f = some ⟨.page, fn⟩) :
    ∀ o, t.objects f = some o → o.kind = .page := by
  intro o ho
  rw [h] at ho
  cases ho
  rfl

section Cached

variable {t : Sys D} {pins : List Pin} {latest : Nat → Nat → Option (Page D)} {i : Nat}

/-- The pool has a page as it is known. -/
theorem latest_of_entry (h : CacheInv t pins latest) (hi : t.entry f p = some i) (ho : t.objects f = some o)
    (hkind : o.kind = .page) : latest f p = some (t.frame i).contents := by
  obtain ⟨o', ho', hpage⟩ := h.cached f p i hi
  obtain rfl := Option.some.inj (ho'.symm.trans ho)
  obtain ⟨d, hd⟩ := Option.isSome_iff_exists.mp (h.known f o' p ho hkind (hpage hkind).1)
  have hdata := (h.inFrame f o' p i d ho hi hd).1
  rw [hkind] at hdata
  rw [hd, ← hdata]
  rfl

end Cached

/-- A page that is pinned is in order, and has the records that are stored. -/
theorem Inv.store_kept (h : s.Inv) (hpin : pin ∈ s.cache.pins) (ho : s.cache.sys.objects pin.file = some o)
    (hkind : o.kind = .page) : (s.store pin).page.pageNumber = pin.pageNo ∧ (s.store pin).Kept := by
  have hshown := h.shown pin.file o pin.pageNo ho hkind
  rw [latest_of_entry h.cache.cache (h.cache.cache.pinInv.held pin hpin) ho hkind] at hshown
  exact hshown.kept

/-! ## The events

One lemma for each kind of event. They take as a hypothesis what the version of the pool says of its own invariant
after the event, and what they need to know of the call beside it: that the `File` objects stay, that a new page is
empty, that giving back a pin leaves the frames.
-/

/-- A call that gives no pin back. -/
theorem inv_call (h : s.Inv) {op : BufOp} (hafter : (s.cache.after call (.call op)).Inv)
    (hobjects : (call op s.cache.sys).2.objects = s.cache.sys.objects)
    (hempty : ∀ file o q i t, op = .allocPage file → s.cache.sys.objects file = some o → o.kind = .page →
      call op s.cache.sys = (.ok (.page q i), t) → (t.frame i).contents = Page.init.setPageNumber q) :
    (s.after call (.call op)).Inv where
  cache := hafter
  shown f o p ho hkind := by
    have ho' : s.cache.sys.objects f = some o := by
      rw [← hobjects]
      exact ho
    have hold := h.shown f o p ho' hkind
    show HasRecords p (onlyPage p (op.noteRecords _ s.records f)) (op.notePages _ _ s.cache.latest f p)
    rcases hr : call op s.cache.sys with ⟨e | reply, t⟩
    · -- a call that has failed notes nothing
      cases op <;> exact hold
    · cases op with
      | allocPage file =>
          cases reply with
          | done => exact hold
          -- the new page is shown as what it is in the frame, which is an empty page
          | page q i =>
              apply hasRecords_note hold
              rintro rfl
              have hlive : t.objects f = some o := by
                rw [hr] at hobjects
                rw [hobjects]
                exact ho'
              rw [shown, hlive, Option.map_some, hkind]
              show HasRecords q _ (some (t.frame i).contents)
              rw [hempty f o q i t rfl ho' hkind hr]
              exact ⟨rfl, Store.kept_new q⟩
      | disposePage file q => exact hasRecords_note hold fun _ _ => rfl
      | _ => exact hold

/-- A pin is given back. -/
theorem inv_unPin (h : s.Inv) {dirty : Bool} (hafter : (s.cache.after call (.unPin pin dirty)).Inv)
    (hobjects : (call (.unPinPage pin.file pin.pageNo dirty) s.cache.sys).2.objects = s.cache.sys.objects)
    (hframe : ∀ r t, call (.unPinPage pin.file pin.pageNo dirty) s.cache.sys = (.ok r, t) →
      t.frame = s.cache.sys.frame) : (s.after call (.unPin pin dirty)).Inv where
  cache := hafter
  shown f o p ho hkind := by
    have ho' : s.cache.sys.objects f = some o := by
      rw [← hobjects]
      revert ho
      rcases hr : call (.unPinPage pin.file pin.pageNo dirty) s.cache.sys with ⟨e | r, t⟩
      · simp only [after, CacheState.after, hr, imp_self]
      · simp only [after, CacheState.after, hr]
        split <;> exact id
    have hold := h.shown f o p ho' hkind
    show HasRecords p (onlyPage p (s.records f)) ((s.cache.after call (.unPin pin dirty)).latest f p)
    rw [CacheState.after]
    rcases hr : call (.unPinPage pin.file pin.pageNo dirty) s.cache.sys with ⟨e | r, t⟩
    · -- what is given back is noted only if the call has succeeded and the pin was one of those held
      exact hold
    · dsimp only
      split
      · next hpin =>
          show HasRecords p _ (pin.noteRelease dirty t s.cache.latest f p)
          unfold Pin.noteRelease
          split
          · -- what is released is what is known of the page
            unfold noteAt
            split
            · next heq =>
                obtain ⟨rfl, rfl⟩ := heq
                have hentry := h.cache.cache.pinInv.held pin hpin
                rw [latest_of_entry h.cache.cache hentry ho' hkind] at hold
                rw [hr] at hobjects
                have hlive : t.objects pin.file = some o := hobjects ▸ ho'
                rw [shown, hlive, hframe r t hr, Option.map_some, hkind]
                exact hold
            · exact hold
          · -- what is known of the page stays, and so do its records
            exact hold
      · exact hold

/-- A page of a `BlobFile` is written to. -/
theorem inv_write (h : s.Inv) (hafter : (s.cache.after call (.write pin page)).Inv)
    (hblob : ∀ o, s.cache.sys.objects pin.file = some o → o.kind = .blob) :
    (s.after call (.write pin page)).Inv where
  cache := hafter
  shown f o p ho hkind := by
    have hold := h.shown f o p ho hkind
    show HasRecords p (onlyPage p (s.records f)) (noteAt s.cache.latest pin.file pin.pageNo _ f p)
    rw [noteAt, if_neg]
    · exact hold
    · -- the page is one of a `BlobFile`, of which no records are stored
      rintro ⟨rfl, -⟩
      rw [hblob o ho] at hkind
      cases hkind

/-- A call on a page that is pinned. -/
theorem inv_record (h : s.Inv) {op : StoreOp} (hpin : pin ∈ s.cache.pins)
    (hpage : ∀ o, s.cache.sys.objects pin.file = some o → o.kind = .page) (hcalm : (s.store pin).Calm op) :
    (s.after call (.record pin op)).Inv := by
  obtain ⟨o, ho, -⟩ := h.cache.cache.cached _ _ _ (h.cache.cache.pinInv.held pin hpin)
  obtain ⟨hnumber, hkept⟩ := h.store_kept hpin ho (hpage o ho)
  -- the call on the page answers with an id of the page, or leaves the page as it is
  rcases hkept.run_cases hcalm with ⟨id, page, hrun, hid, hpageNumber, hkept'⟩ | ⟨e, hrun⟩
  · have hrun : op.run (s.cache.sys.frame pin.frame) = (.ok id, page) := hrun
    rw [after, hrun]
    have hok : s.cache.Ok call (.write pin page) := ⟨hpin, fun _ _ _ => hpageNumber.trans hnumber⟩
    refine ⟨CacheState.inv_write h.cache hok, ?_⟩
    intro f o' p ho' hkind
    have hold := h.shown f o' p ho' hkind
    have hid : id.pageNumber = pin.pageNo := hid.trans hnumber
    show HasRecords p (onlyPage p (Function.update s.records pin.file _ f))
      (noteAt s.cache.latest pin.file pin.pageNo _ f p)
    unfold noteAt
    -- the page that the pin is on, the other pages of its file, and the other files
    by_cases hf : f = pin.file
    · subst hf
      rw [Function.update_self]
      by_cases hp : p = pin.pageNo
      · subst hp
        have hframe : (s.cache.sys.setFrame pin.frame page).frame pin.frame = page := by
          rw [Sys.frame_setFrame, if_pos rfl]
        have hlive : (s.cache.sys.setFrame pin.frame page).objects pin.file = some o' := ho'
        rw [if_pos ⟨rfl, rfl⟩, onlyPage_update_self hid, shown, hlive, Option.map_some, hframe, hkind]
        exact ⟨hpageNumber.trans hnumber, Store.kept_contents hkept'⟩
      · rw [if_neg fun heq => hp heq.2, onlyPage_update_of_ne fun heq => hp (heq.symm.trans hid)]
        exact hold
    · rw [Function.update_of_ne hf, if_neg fun heq => hf heq.1]
      exact hold
  · -- a call that has failed leaves the page as it is, and nothing is stored
    have hrun : op.run (s.cache.sys.frame pin.frame) = (.error (.throw e), s.cache.sys.frame pin.frame) := hrun
    rw [after, hrun]
    dsimp only
    rw [Sys.setFrame_self]
    exact h

/-! ## What is seen

The invariant speaks of pages in order; a client sees record ids and bytes. `Shows` says what a page has to do with
the records that are stored for it, both by a walk over the page and by reading an id.
-/

/-- What is shown as page `p` of `f` is a page of just the records that are stored: a walk over it comes to
them and to no others, and each of them reads back. -/
structure Shows (s : RecordState D) (f p : Nat) (page : Page D) : Prop where
  records : ∀ n b, (n, b) ∈ page.records ↔ s.records f ⟨p, n⟩ = some b
  reads : ∀ id b, id.pageNumber = p → s.records f id = some b → Page.getRecord id page = (.ok b, page)

/-- What clients see of the pool is what is stored: through the pointers that they have, and on a page that
is read. A record that is inserted gets an id under which none is stored. -/
structure KeepsRecords (readPage : Nat → Nat → Prog Exn (Sys D) Nat) (s : RecordState D) : Prop where
  pinned : ∀ pin ∈ s.cache.pins, ∀ o, s.cache.sys.objects pin.file = some o → o.kind = .page →
    s.Shows pin.file pin.pageNo (s.cache.sys.frame pin.frame)
  fresh : ∀ pin ∈ s.cache.pins, ∀ o, s.cache.sys.objects pin.file = some o → o.kind = .page →
    ∀ data id page, Page.insertRecord data (s.cache.sys.frame pin.frame) = (.ok id, page) →
      id.pageNumber = pin.pageNo ∧ s.records pin.file id = none
  read : ∀ f p o i t, s.cache.sys.objects f = some o → o.kind = .page →
    readPage f p s.cache.sys = (.ok i, t) → s.Shows f p (t.frame i)

theorem shows_of_kept (hnumber : page.pageNumber = p) (h : (Store.mk page (onlyPage p (s.records f))).Kept) :
    s.Shows f p page where
  records n b := by
    have hat := h.recordAt n
    dsimp only at hat
    rw [Page.mem_records_iff, hat, hnumber, onlyPage_apply]
  reads id b hid hlive := by
    apply (Store.sound_of_inv h.inv).reads id b
    dsimp only
    rw [onlyPage, if_pos hid]
    exact hlive

theorem keepsRecords_of_inv {readPage : Nat → Nat → Prog Exn (Sys D) Nat} (h : s.Inv)
    (hread : ∀ f p o i t, s.cache.sys.objects f = some o → o.kind = .page →
      readPage f p s.cache.sys = (.ok i, t) → s.cache.latest f p = some (t.frame i).contents) :
    s.KeepsRecords readPage where
  pinned pin hpin o ho hkind := by
    obtain ⟨hnumber, hkept⟩ := h.store_kept hpin ho hkind
    exact shows_of_kept hnumber hkept
  -- the id is of this page because the page is, and it is none of those stored
  fresh pin hpin o ho hkind data id page hcall := by
    obtain ⟨hnumber, hkept⟩ := h.store_kept hpin ho hkind
    have hcall : Page.insertRecord data (s.store pin).page = (.ok id, page) := hcall
    have hstored : wp (Page.insertRecord data) _ _ (s.store pin).page := Page.wp_insertRecord hkept.inv.layout
    rw [wp_of_ok hcall] at hstored
    have hid : id.pageNumber = pin.pageNo := hstored.1.trans hnumber
    have hnew := (Store.sound_of_inv hkept.inv).fresh data id page hcall
    dsimp only [store] at hnew
    rw [onlyPage, if_pos hid] at hnew
    exact ⟨hid, hnew⟩
  read f p o i t ho hkind hr := by
    have hshown := h.shown f o p ho hkind
    rw [hread f p o i t ho hkind hr] at hshown
    obtain ⟨hnumber, hkept⟩ := hshown.kept
    exact shows_of_kept hnumber hkept

/-- Files that have pages in order, each with one `File` object. -/
theorem inv_new {objects : Nat → Option FileObject} {streams : FileName → FStream D} {bufs : Nat}
    (hbufs : 1 ≤ bufs)
    (hone : ∀ a b oa ob, objects a = some oa → objects b = some ob → oa.filename = ob.filename → a = b)
    (horder : ∀ a o, objects a = some o → o.kind.InOrder (streams o.filename))
    (htidy : ∀ a o p page, objects a = some o → o.kind = .page →
      (streams o.filename).stored p = some page → page.Tidy) :
    (new objects streams bufs).Inv where
  cache := CacheState.inv_new hbufs hone horder
  shown f o p ho hkind := by
    have ho : objects f = some o := ho
    have hlatest : (CacheState.new objects streams bufs).latest f p = (streams o.filename).stored p := by
      show filed _ f p = _
      rw [filed_of_object (s := ⟨objects, streams, .new bufs⟩) ho, onDisk, hkind]
      rfl
    show HasRecords p (onlyPage p ((new objects streams bufs).records f))
      ((CacheState.new objects streams bufs).latest f p)
    -- without a page in the file there is nothing in it to read as a record, and with one what it says is taken
    cases hp : (streams o.filename).stored p with
    | none =>
        rw [hlatest, hp]
        intro id
        unfold onlyPage
        split
        · next hid =>
            show Option.bind ((CacheState.new objects streams bufs).latest f id.pageNumber) _ = none
            rw [hid, hlatest, hp]
            rfl
        · rfl
    | some page =>
        obtain ⟨free, howned⟩ : FileKind.page.InOrder (streams o.filename) := hkind ▸ horder f o ho
        have hnumber : page.pageNumber = p := by
          rw [← (howned.of_stored hp).2.2.2.2]
          exact (howned.of_stored hp).2.2.2.1
        rw [hlatest, hp]
        refine ⟨hnumber, Store.kept_of_recordAt (htidy f o p page ho hkind hp) ?_ ?_⟩
        · intro n
          rw [hnumber, onlyPage_apply]
          show Option.bind ((CacheState.new objects streams bufs).latest f p) _ = _
          rw [hlatest, hp]
          rfl
        · intro id hne
          rw [hnumber] at hne
          exact if_neg hne

end RecordState

/-! ## The two versions

What is left for each version are the facts that `inv_call` and `inv_unPin` ask for, above all that `allocPage`
hands out an empty page. It is shown along the path on which the page comes: from the file into the frame, and into
the table.
-/

namespace P3.BufMgr

variable {s : Sys D} {pins : List Pin} {latest : Nat → Nat → Option (Page D)} {f : Nat} {o : FileObject}

/-- `allocPage` hands out a page without records. -/
theorem allocPage_empty (h : CacheInv s pins latest) (ho : s.objects f = some o) (hkind : o.kind = .page) :
    wp (allocPage f) (fun r t => (t.frame r.2).contents = Page.init.setPageNumber r.1) (fun _ _ => True) s := by
  obtain ⟨kind, fn⟩ := o
  obtain rfl : kind = .page := hkind
  apply wp_allocPage
  refine wp_mono (allocBuf_cache h) ?_ fun _ _ _ => trivial
  rintro i t ⟨ht, -, -, hobj, -⟩
  have ho' : t.objects f = some ⟨.page, fn⟩ := by
    rw [hobj]
    exact ho
  obtain ⟨free, howned⟩ : FileKind.page.InOrder (t.streams fn) := ht.order f _ ho'
  rw [wp_onFile ho']
  refine wp_mono (PageFile.allocatePage_spec fn howned) ?_ fun _ _ _ => trivial
  -- the page comes from the file, and entering it in the table leaves the frame as it is
  intro r st halloc
  apply wp_insert
  · intro _
    show (Sys.frame (Sys.putEntry ..) i).contents = _
    rw [Sys.frame_putEntry, Sys.frame_loaded]
    exact halloc.empty
  · exact fun _ _ _ _ => trivial
  · exact fun _ => trivial

theorem call_allocPage_empty (h : CacheInv s pins latest) (ho : s.objects f = some o) (hkind : o.kind = .page)
    {p i : Nat} {t : Sys D} (hr : call (.allocPage f) s = (.ok (.page p i), t)) :
    (t.frame i).contents = Page.init.setPageNumber p := by
  have hspec := allocPage_empty h ho hkind
  rcases halloc : allocPage f s with ⟨e | r, u⟩
  · rw [call, bind_of_error halloc] at hr
    cases hr
  · rw [call, bind_of_ok halloc] at hr
    rw [wp_of_ok halloc] at hspec
    cases hr
    exact hspec

/-! ### Runs of p3

The destructor of p3 writes back what the files do not have, so the records are in the files after it.
-/

/-- What the destructor leaves: the pages of records are in their files, where no holder of a pin has changed
them. -/
def SavesRecords (s : RecordState D) : Prop :=
  ∃ t, destroy s.cache.sys = (.ok (), t) ∧ ∀ f o p, s.cache.sys.objects f = some o → o.kind = .page →
    Unchanged s.cache.pins f p →
      (∃ page, onDisk t o p = some page ∧ s.Shows f p page) ∨ ∀ n, s.records f ⟨p, n⟩ = none

section Runs

variable {s : RecordState D}

theorem record_inv_after (h : s.Inv) {e : RecordEvent D} (hok : s.Ok OkSpares e) : (s.after call e).Inv := by
  cases e with
  | call op =>
      apply RecordState.inv_call h (inv_after h.cache hok)
      · exact ((call_steady op).apply (Steady.refl s.cache.sys)).objects
      · rintro file o q i t rfl ho hkind hr
        exact call_allocPage_empty h.cache.cache ho hkind hr
  | unPin pin dirty =>
      apply RecordState.inv_unPin h (inv_after h.cache hok)
      · exact ((call_steady _).apply (Steady.refl s.cache.sys)).objects
      · intro r t hr
        obtain ⟨o, ho⟩ := Option.isSome_iff_exists.mp hok.1.1.1
        have hspec := unPin_cache h.cache.cache ho pin.pageNo dirty
        rw [wp_of_ok hr] at hspec
        obtain ⟨-, i, -, rfl⟩ := hspec
        rfl
  | write pin page => exact RecordState.inv_write h (inv_after h.cache hok.1) hok.2
  | record pin op => exact RecordState.inv_record h hok.1 hok.2.1 hok.2.2

/-- The destructor writes back the pages of records that the files do not have. -/
theorem savesRecords_of_inv (h : s.Inv) : SavesRecords s := by
  obtain ⟨streams, hdestroy, hdisk⟩ := destroy_cache h.cache.cache
  refine ⟨_, hdestroy, ?_⟩
  intro f o p ho hkind hun
  have hshown := h.shown f o p ho hkind
  cases hlatest : s.cache.latest f p with
  -- a page that is not known has no records
  | none =>
      rw [hlatest] at hshown
      right
      intro n
      have hnone : onlyPage p (s.records f) ⟨p, n⟩ = none := hshown ⟨p, n⟩
      rwa [RecordState.onlyPage_apply] at hnone
  | some page =>
      rw [hlatest] at hshown
      exact Or.inl ⟨page, hdisk f o p page ho hlatest hun, RecordState.shows_of_kept hshown.1 hshown.2⟩

end Runs

/-- **The pool of p3 keeps records.** In every run of calls, of calls on pages that are `Calm`, and of writes
to pages of `BlobFile`s, on files each with one `File` object, what is stored is what is shown, and what the
destructor leaves in the files. -/
theorem keepsRecords (objects : Nat → Option FileObject) (streams : FileName → FStream D) (bufs : Nat)
    (hbufs : 1 ≤ bufs)
    (hone : ∀ a b oa ob, objects a = some oa → objects b = some ob → oa.filename = ob.filename → a = b)
    (horder : ∀ a o, objects a = some o → o.kind.InOrder (streams o.filename))
    (htidy : ∀ a o p page, objects a = some o → o.kind = .page →
      (streams o.filename).stored p = some page → page.Tidy)
    {events : List (RecordEvent D)} {s : RecordState D}
    (h : Run (Run.guarded (RecordState.Ok OkSpares) (RecordState.after call))
      (RecordState.new objects streams bufs) events s) : s.KeepsRecords readPage ∧ SavesRecords s := by
  have hinv : s.Inv := by
    apply h.invariant (RecordState.inv_new hbufs hone horder htidy)
    intro s e t hs hstep
    obtain ⟨hok, rfl⟩ := hstep
    exact record_inv_after hs hok
  refine ⟨RecordState.keepsRecords_of_inv hinv ?_, savesRecords_of_inv hinv⟩
  intro f p o i t ho hkind hr
  -- nothing is asked of a `BlobFile`, and the file is none
  have hload : o.kind = .blob → MayLoad s.cache.sys o f p := by
    intro hblob
    rw [hkind] at hblob
    cases hblob
  obtain ⟨hread, hsome⟩ := reads_of_inv hinv.cache ho hload hr
  obtain ⟨d, hd⟩ := Option.isSome_iff_exists.mp (hsome hkind)
  rw [hd, ← hread d hd, hkind]
  rfl

/-- One frame: records are inserted, one is deleted, the page makes room for another one, is read again, and
the other record is updated. -/
theorem keepsRecords_evicts :
    let pin : Pin := ⟨1, 1, 0, false⟩
    let events : List (RecordEvent CharArea) :=
      [.call (.allocPage 1), .record pin (.insert [1, 2, 3]), .record { pin with changed := true } (.insert [4]),
        .record { pin with changed := true } (.delete ⟨1, 1⟩), .unPin { pin with changed := true } true,
        .call (.allocPage 2), .unPin ⟨2, 1, 0, false⟩ false, .call (.readPage 1 1),
        .record pin (.update ⟨1, 2⟩ [5, 6])]
    let s := events.foldl (RecordState.after call) (RecordState.new twoFiles (newStreams true) 1)
    s.records 1 ⟨1, 1⟩ = none ∧ s.records 1 ⟨1, 2⟩ = some [5, 6] ∧ s.KeepsRecords readPage ∧ SavesRecords s := by
  refine ⟨by decide +kernel, by decide +kernel, keepsRecords twoFiles (newStreams true) 1 (by decide)
    (fun a b oa ob => CacheState.twoFiles_one) (fun a o => CacheState.twoFiles_inOrder true) ?_ (Run.of_allOk ?_)⟩
  · intro a o p page _ _ hp
    have hnone : (newStreams true o.filename : FStream CharArea).stored p = none := by
      rw [FStream.stored, if_neg (fun h => h.2 rfl)]
    rw [hnone] at hp
    cases hp
  · refine ⟨?allocated, ?inserted, ?second, ?deleted, ?released, ?evicted, ?givenBack, ?readAgain, ?updated,
      trivial⟩
    case allocated =>
      refine ⟨⟨⟨rfl, rfl, trivial⟩, ?_, ?_⟩, ?_⟩
      · intro _ _ h
        cases h
      · intro _ _ _ h
        cases h
      · rintro _ ⟨⟩
        trivial
    case inserted => exact ⟨by decide +kernel, RecordState.paged_of_object "f" (by decide +kernel), by decide +kernel⟩
    case second => exact ⟨by decide +kernel, RecordState.paged_of_object "f" (by decide +kernel), by decide +kernel⟩
    case deleted => exact ⟨by decide +kernel, RecordState.paged_of_object "f" (by decide +kernel), by decide +kernel⟩
    case released =>
      refine ⟨⟨⟨rfl, trivial, Or.inl ⟨by decide +kernel, fun _ => rfl⟩⟩, trivial⟩, ?_⟩
      intro _ h
      cases h
    case evicted =>
      refine ⟨⟨⟨rfl, rfl, by decide +kernel⟩, ?_, ?_⟩, ?_⟩
      · intro _ _ h
        cases h
      · intro _ _ _ h
        have hfails : Except.isOk _ = false := congrArg Except.isOk h
        revert hfails
        decide +kernel
      · rintro _ ⟨⟩
        trivial
    case givenBack =>
      refine ⟨⟨⟨rfl, by decide +kernel, Or.inl ⟨by decide +kernel, fun h => by cases h⟩⟩, trivial⟩, ?_⟩
      intro _ h
      cases h
    case readAgain =>
      refine ⟨⟨⟨rfl, rfl, by decide +kernel⟩, ?_, ?_⟩, ?_⟩
      · intro _ _ h
        cases h
      · intro _ _ _ h
        have hfails : Except.isOk _ = false := congrArg Except.isOk h
        revert hfails
        decide +kernel
      · rintro _ ⟨⟩ o ho _ _
        obtain rfl : (⟨.page, "f"⟩ : FileObject) = o := Option.some.inj ho
        exact Or.inr ⟨rfl, Nat.one_ne_zero⟩
    case updated => exact ⟨by decide +kernel, RecordState.paged_of_object "f" (by decide +kernel), by decide +kernel⟩

end P3.BufMgr

namespace P2.BufMgr

variable {s : Sys D} {pins : List Pin} {latest : Nat → Nat → Option (Page D)} {f : Nat} {o : FileObject}

theorem allocatePage_empty {st : FStream D} (fn : FileName) (h : FileKind.page.InOrder st) :
    wp (P2.File.allocatePage fn) (fun pg _ => pg.contents = Page.init.setPageNumber pg.pageNumber)
      (fun _ _ => True) st := by
  obtain ⟨free, howned⟩ := h
  rw [P2.File.allocatePage, wp_bind]
  refine wp_mono (PageFile.allocatePage_spec fn howned) ?_ fun _ _ _ => trivial
  intro r st halloc
  rw [wp_pure, halloc.pageNumber]
  exact halloc.empty

theorem allocPage_empty (h : PagedCache pins latest s) (ho : s.objects f = some o) :
    wp (allocPage f) (fun r t => (t.frame r.2).contents = Page.init.setPageNumber r.1) (fun _ _ => True) s := by
  apply wp_allocPage evictable_pagedCache h ho
  · exact fun _ _ _ => trivial
  · exact fun _ _ _ _ _ _ _ _ => trivial
  · exact fun _ _ _ _ _ _ _ _ _ => trivial
  · intro i t pg streams htaken hcall _
    have ho' : t.objects f = some o := by
      rw [htaken.objects]
      exact ho
    have horder : FileKind.page.InOrder (t.streams o.filename) := order_paged htaken.cleared ho'
    have hspec := allocatePage_empty o.filename horder
    -- the page is loaded into the frame as the file hands it out
    rw [onFile_apply ho'] at hcall
    rcases hr : P2.File.allocatePage o.filename (t.streams o.filename) with ⟨e | pg', st⟩
    · rw [hr] at hcall
      cases hcall
    · rw [hr] at hcall
      obtain rfl : pg' = pg := Except.ok.inj (congrArg Prod.fst hcall)
      rw [wp_of_ok hr] at hspec
      show (Sys.frame (Sys.putEntry ..) i).contents = _
      rw [Sys.frame_putEntry, Sys.frame_loaded]
      exact hspec

theorem call_allocPage_empty (h : PagedCache pins latest s) (ho : s.objects f = some o) {p i : Nat} {t : Sys D}
    (hr : call (.allocPage f) s = (.ok (.page p i), t)) :
    (t.frame i).contents = Page.init.setPageNumber p := by
  have hspec := allocPage_empty h ho
  rcases halloc : allocPage f s with ⟨e | r, u⟩
  · rw [call, bind_of_error halloc] at hr
    cases hr
  · rw [call, bind_of_ok halloc] at hr
    rw [wp_of_ok halloc] at hspec
    cases hr
    exact hspec

/-! ### Runs of p2

Pages of `BlobFile`s are left out in p2: there the invariant of the pool is about paged files only.
-/

section Runs

variable {s : RecordState D}

theorem record_inv_after (h : s.Inv) (hpaged : ∀ a o, s.cache.sys.objects a = some o → o.kind = .page)
    {e : RecordEvent D} (hok : s.Ok OkKeeps e) :
    (s.after call e).Inv ∧ ∀ a o, (s.after call e).cache.sys.objects a = some o → o.kind = .page := by
  cases e with
  | call op =>
      obtain ⟨hafter, hpaged'⟩ := inv_after h.cache hpaged hok
      refine ⟨RecordState.inv_call h hafter ?_ ?_, hpaged'⟩
      · exact (P2.call_objects op).apply rfl
      · rintro file o q i t rfl ho _ hr
        exact call_allocPage_empty ⟨h.cache.cache, hpaged⟩ ho hr
  | unPin pin dirty =>
      obtain ⟨hafter, hpaged'⟩ := inv_after h.cache hpaged hok
      refine ⟨RecordState.inv_unPin h hafter ?_ ?_, hpaged'⟩
      · exact (P2.call_objects _).apply rfl
      · intro r t hr
        obtain ⟨o, ho⟩ := Option.isSome_iff_exists.mp hok.1.1
        have hspec := unPin_updates h.cache.cache.pinInv ho pin.pageNo dirty
        rw [wp_of_ok hr] at hspec
        rcases hspec with ⟨-, rfl⟩ | ⟨-, i, -, rfl⟩
        · rfl
        · rfl
  -- writing to a frame changes no `File` object
  | write pin page =>
      obtain ⟨hafter, hpaged'⟩ := inv_after h.cache hpaged hok.1
      exact ⟨RecordState.inv_write h hafter hok.2, hpaged'⟩
  | record pin op =>
      refine ⟨RecordState.inv_record h hok.1 hok.2.1 hok.2.2, ?_⟩
      intro a o ho
      apply hpaged a o
      revert ho
      -- the objects are those of before, whether the call has answered or not
      rcases hrun : op.run (s.cache.sys.frame pin.frame) with ⟨e | r, page⟩
      · simp only [RecordState.after, hrun]
        exact id
      · simp only [RecordState.after, hrun]
        exact id

end Runs

/-- **The pool of p2 keeps records**, in every run of calls that keep updates, and of calls on pages that are
`Calm`. -/
theorem keepsRecords_of_keeps (objects : Nat → Option FileObject) (streams : FileName → FStream D) (bufs : Nat)
    (hbufs : 1 ≤ bufs)
    (hone : ∀ a b oa ob, objects a = some oa → objects b = some ob → oa.filename = ob.filename → a = b)
    (hpaged : ∀ a o, objects a = some o → o.kind = .page)
    (horder : ∀ a o, objects a = some o → o.kind.InOrder (streams o.filename))
    (htidy : ∀ a o p page, objects a = some o → o.kind = .page →
      (streams o.filename).stored p = some page → page.Tidy)
    {events : List (RecordEvent D)} {s : RecordState D}
    (h : Run (Run.guarded (RecordState.Ok OkKeeps) (RecordState.after call))
      (RecordState.new objects streams bufs) events s) : s.KeepsRecords readPage := by
  have hinv : s.Inv ∧ ∀ a o, s.cache.sys.objects a = some o → o.kind = .page := by
    apply h.invariant (I := fun s : RecordState D => s.Inv ∧
      ∀ a o, s.cache.sys.objects a = some o → o.kind = .page)
    · exact ⟨RecordState.inv_new hbufs hone horder htidy, hpaged⟩
    · intro s e t hs hstep
      obtain ⟨hok, rfl⟩ := hstep
      exact record_inv_after hs.1 hs.2 hok
  apply RecordState.keepsRecords_of_inv hinv.1
  intro f p o i t ho _ hr
  exact (readsReleased_of_inv hinv.1.cache hinv.2).read f p i t (by rw [ho]; rfl) hr

/-- The same in p2: the file is flushed to make room. -/
theorem keepsRecords_flushes :
    let pin : Pin := ⟨1, 1, 0, false⟩
    let events : List (RecordEvent StringArea) :=
      [.call (.allocPage 1), .record pin (.insert [1, 2, 3]), .record { pin with changed := true } (.insert [4]),
        .record { pin with changed := true } (.delete ⟨1, 1⟩), .unPin { pin with changed := true } true,
        .call (.allocPage 2), .unPin ⟨2, 1, 0, false⟩ false, .call (.readPage 1 1),
        .record pin (.update ⟨1, 2⟩ [5, 6])]
    let s := events.foldl (RecordState.after call) (RecordState.new twoFiles (newStreams true) 1)
    s.records 1 ⟨1, 1⟩ = none ∧ s.records 1 ⟨1, 2⟩ = some [5, 6] ∧ s.KeepsRecords readPage := by
  refine ⟨by decide +kernel, by decide +kernel, keepsRecords_of_keeps twoFiles (newStreams true) 1 (by decide)
    (fun a b oa ob => CacheState.twoFiles_one) (fun a o => CacheState.twoFiles_paged)
    (fun a o => CacheState.twoFiles_inOrder true) ?_ (Run.of_allOk ?_)⟩
  · intro a o p page _ _ hp
    have hnone : (newStreams true o.filename : FStream StringArea).stored p = none := by
      rw [FStream.stored, if_neg (fun h => h.2 rfl)]
    rw [hnone] at hp
    cases hp
  · refine ⟨?allocated, ?inserted, ?second, ?deleted, ?released, ?evicted, ?givenBack, ?readAgain, ?updated,
      trivial⟩
    case allocated =>
      refine ⟨⟨rfl, rfl, trivial⟩, ?_⟩
      rintro _ ⟨⟩
      refine ⟨⟨fun i t h => ?_, fun _ _ h => by cases h⟩, trivial⟩
      cases h
      exact ⟨fun page u h => by cases h; rfl, fun e u h => by cases h⟩
    case inserted =>
      exact ⟨by decide +kernel, RecordState.paged_of_object "f" (by decide +kernel), by decide +kernel⟩
    case second =>
      exact ⟨by decide +kernel, RecordState.paged_of_object "f" (by decide +kernel), by decide +kernel⟩
    case deleted =>
      exact ⟨by decide +kernel, RecordState.paged_of_object "f" (by decide +kernel), by decide +kernel⟩
    case released =>
      refine ⟨⟨rfl, trivial, Or.inl ⟨by decide +kernel, fun _ => rfl⟩⟩, ?_⟩
      intro _ h
      cases h
    case evicted =>
      refine ⟨⟨rfl, rfl, by decide +kernel⟩, ?_⟩
      rintro _ ⟨⟩
      refine ⟨⟨fun i t h => ?_, fun _ _ h => by cases h⟩, trivial⟩
      cases h
      exact ⟨fun page u h => by cases h; rfl, fun e u h => by cases h⟩
    case givenBack =>
      refine ⟨⟨rfl, by decide +kernel, Or.inl ⟨by decide +kernel, fun h => by cases h⟩⟩, ?_⟩
      intro _ h
      cases h
    case readAgain =>
      refine ⟨⟨rfl, rfl, by decide +kernel⟩, ?_⟩
      rintro _ ⟨⟩
      refine ⟨⟨fun _ i t h e u h' => ?_, fun _ _ h => by cases h⟩, Nat.one_ne_zero⟩
      cases h
      cases h'
    case updated =>
      exact ⟨by decide +kernel, RecordState.paged_of_object "f" (by decide +kernel), by decide +kernel⟩

end P2.BufMgr

end CS640.Badger
