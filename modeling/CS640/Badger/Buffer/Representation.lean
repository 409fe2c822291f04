import CS640.Badger.Buffer.P2
import CS640.Badger.Buffer.Calls

/-!
# The representation invariant of p2

Main result: `P2.BufMgr.representation`. In every run in which each call settles the frame it takes,
the hash table and the descriptors say the same, and no call ends in a `HashNotFoundException`.

Nothing is assumed of the files: between the calls they may change in any way, and so may what is in
the frames. What goes wrong otherwise is that `allocBuf` takes a clean page out of the hash table and
leaves its descriptor to be overwritten by a caller that may throw first (`representation_unsettled`).

The invariant of the pool says that an entry of the table leads to a frame in use; `LiveTable` adds the converse.
Between taking a frame and filling it `allocBuf` breaks the converse, so the rules of `readPage` and `allocPage`
that are used elsewhere are extended by what the file may do in between: `wp_readPage_settles` and
`wp_allocPage_settles`. They hold for every `Evictable` invariant, and the one for records of released data uses
them too.
-/

namespace CS640.Badger.P2.BufMgr

open CS640.Lib Prog
open CS640.Badger.BufMgr

variable {D : Type}

/-! ## The invariant

A call changes a pool in four ways: it evicts a page, loads one, marks a descriptor, or changes files. One lemma for
each says that the table stays complete, and that pages are cached through objects that exist.
-/

/-- The table is complete, and pages are cached through `File` objects that exist. -/
structure LiveTable (s : Sys D) : Prop where
  table : TableInv s
  live : ∀ i, (s.desc i).valid = true → (s.objects (s.desc i).file).isSome = true

theorem LiveTable.setStreams {s : Sys D} (h : LiveTable s) (streams : FileName → FStream D) :
    LiveTable (s.setStreams streams) :=
  ⟨h.table.setStreams streams, h.live⟩

theorem LiveTable.evict {s : Sys D} (h : LiveTable s) {i : Nat} (hv : (s.desc i).valid = true) :
    LiveTable ((s.dropEntry (s.desc i).file (s.desc i).pageNo).setDesc i BufDesc.clear) where
  table := h.table.evict hv
  live j hj := by
    -- a cleared descriptor is not valid, and the others are as before
    by_cases hji : j = i
    · rw [Sys.desc_setDesc, if_pos hji] at hj
      cases hj
    · rw [Sys.desc_setDesc, if_neg hji] at hj ⊢
      exact h.live j hj

theorem LiveTable.load {s : Sys D} (h : LiveTable s) {i f p : Nat} {o : FileObject}
    (hv : (s.desc i).valid = false) (hi : i < s.numBufs) (hnone : s.entry f p = none)
    (ho : s.objects f = some o) (pg : Page D) :
    LiveTable (((s.setFrame i pg).setDesc i (BufDesc.set f p)).putEntry f p i) where
  table := h.table.load hv hi hnone pg
  live j hj := by
    rw [Sys.desc_putEntry, Sys.desc_setDesc] at hj ⊢
    split
    · show (s.objects f).isSome = true
      rw [ho]
      rfl
    · next hji =>
        rw [if_neg hji] at hj
        exact h.live j hj

theorem LiveTable.mark {s : Sys D} (h : LiveTable s) {i : Nat} (hv : (s.desc i).valid = true)
    {g : BufDesc → BufDesc} (hg : ∀ d, (g d).valid = d.valid ∧ (g d).file = d.file ∧
      (g d).pageNo = d.pageNo ∧ (g d).frameNo = d.frameNo) : LiveTable (s.setDesc i g) where
  table := h.table.mark hv hg
  live j hj := by
    rw [Sys.desc_setDesc] at hj ⊢
    split
    · next hji =>
        subst hji
        rw [(hg _).2.1]
        exact h.live j hv
    · next hji =>
        rw [if_neg hji] at hj
        exact h.live j hj

theorem evictable_liveTable : Evictable (LiveTable (D := D)) where
  table t h := h.table
  live t i h := h.live i
  scanned t u h hu hinv := by
    refine ⟨hinv, fun i hi => ?_⟩
    rw [hu.desc i] at hi ⊢
    rw [hu.objects]
    exact h.live i hi
  evict t i h hv _ := h.evict hv.valid
  writeBack t i h hv _ := by
    rw [writeBack, wp_bind, wp_get, wp_ite]
    -- a dirty page is written first, and the file may refuse it
    constructor
    · intro _
      refine wp_mono (wp_onFile_throws fun o => PageFile.writePage_throws _ _ _) ?_ ?_
      · intro _ u hu
        obtain ⟨streams, rfl⟩ := hu
        exact (h.setStreams streams).evict hv.valid
      · intro e u he
        apply onThrow_mono he
        intro x hx
        obtain ⟨hx, streams, rfl⟩ := hx
        exact ⟨h.setStreams streams, hx⟩
    · intro _
      exact h.evict hv.valid

/-- Filling and entering a frame that has been taken. -/
theorem Taken.load {s t : Sys D} {i f p : Nat} {o : FileObject} (h : Taken LiveTable s i t)
    (ho : t.objects f = some o) (hnone : t.entry f p = none) (streams : FileName → FStream D)
    (pg : Page D) :
    LiveTable ((((t.setStreams streams).setFrame i pg).setDesc i (BufDesc.set f p)).putEntry f p
      i) := by
  have hv : (((t.setStreams streams).setDesc i BufDesc.clear).desc i).valid = false := by
    rw [Sys.desc_setDesc, if_pos rfl]
    rfl
  rw [← load_cleared]
  exact (h.cleared.setStreams streams).load hv h.lt hnone ho pg

/-! ## The calls

Whether a call settles is said by what the file answers in the state that `allocBuf` leaves. A call that does not
settle is still followed to its end, for the part of the contract that holds in any case: it does not end in a
`HashNotFoundException`.
-/

/-- The calls that settle the frame they take: once `allocBuf` has handed out a frame that is still in
use, the file does not throw, and it does not hand out a page that the pool has under the same `File`
object. -/
def Settles [PageData D] (s : Sys D) : BufOp → Prop
  | .readPage file pageNo => s.entry file pageNo = none → ∀ i t, allocBuf s = (.ok i, t) →
      ∀ e u, onFile file (fun o => PageFile.readPage o.filename pageNo) t = (.error (.throw e), u) →
        (t.desc i).valid = false
  | .allocPage file => ∀ i t, allocBuf s = (.ok i, t) →
      (∀ page u, onFile file (fun o => File.allocatePage o.filename) t = (.ok page, u) →
        u.entry file page.pageNumber = none) ∧
      ∀ e u, onFile file (fun o => File.allocatePage o.filename) t = (.error (.throw e), u) →
        (t.desc i).valid = false
  | _ => True

section Settled

variable [PageData D] {I : Sys D → Prop} {s : Sys D} {f p : Nat} {o : FileObject}

/-- How a call ends that throws: with the invariant if it settles, and in no case with a
`HashNotFoundException`. -/
def Fails (I : Sys D → Prop) (s : Sys D) (op : BufOp) : Exit Exn → Sys D → Prop :=
  onThrow fun e t => (Settles s op → I t) ∧ ∀ name p, e ≠ .hashNotFound name p

theorem fails_of_allocBuf (hI : Evictable I) (h : I s) (op : BufOp) {e : Exit Exn} {t : Sys D}
    (hr : allocBuf s = (.error e, t)) : Fails I s op e t := by
  have hspec := allocBuf_taken hI h
  rw [wp_of_error hr] at hspec
  exact onThrow_mono hspec fun _ hx => ⟨fun _ => hx.1, hx.2.2⟩

omit [PageData D] in
/-- A file that throws leaves an invariant that does not depend on the streams. -/
theorem inv_of_onFile {α : Type} {x : FileObject → Prog Exn (FStream D) α} {t u : Sys D} {e : Exn}
    (hx : ∀ o, Throws Exn.IsInvalidPage (x o)) (hstreams : ∀ streams, I (t.setStreams streams))
    (hr : onFile f x t = (.error (.throw e), u)) : I u := by
  have hfile := wp_onFile_throws (s := t) (f := f) hx
  rw [wp_of_error hr] at hfile
  obtain ⟨-, streams, rfl⟩ := hfile
  exact hstreams streams

/-- **The rule of `readPage`, if it settles**: what the file leaves when it throws need only be known of a
state with the invariant. -/
theorem wp_readPage_settles {Q : Nat → Sys D → Prop} (hI : Evictable I) (h : I s)
    (ho : s.objects f = some o)
    (hhit : ∀ i, s.entry f p = some i →
      Q i (s.setDesc i fun d => { d with refbit := true, pinCnt := d.pinCnt + 1 }))
    (hfails : ∀ t e u, I t → t.objects f = some o →
      onFile f (fun o => PageFile.readPage o.filename p) t = (.error (.throw e), u) → I u)
    (hload : ∀ i t pg streams, Taken I s i t → t.objects f = some o →
      onFile f (fun o => PageFile.readPage o.filename p) t = (.ok pg, t.setStreams streams) →
      t.entry f p = none →
      Q i ((((t.setStreams streams).setFrame i pg).setDesc i (BufDesc.set f p)).putEntry f p i)) :
    wp (readPage f p) Q (Fails I s (.readPage f p)) s := by
  apply wp_readPage hI h ho
  · exact hhit
  · exact fun e t hr => fails_of_allocBuf hI h _ hr
  · intro i t e u hnone hr htaken hfree hr'
    have ho' : t.objects f = some o := by
      rw [htaken.objects]
      exact ho
    have hfile := wp_onFile_throws (s := t) (f := f) fun o => PageFile.readPage_throws o.filename p
    rw [wp_of_error hr'] at hfile
    -- only an exception of the file counts; any other exit ends the program
    cases e with
    | throw x =>
        obtain ⟨⟨q, name, rfl⟩, -⟩ := hfile
        refine ⟨fun hsettles => ?_, fun _ _ hx => by cases hx⟩
        exact hfails t _ u (htaken.settled (hfree (hsettles hnone i t hr _ _ hr'))) ho' hr'
    | _ => trivial
  · intro i t pg streams htaken hr' hnone
    have ho' : t.objects f = some o := by
      rw [htaken.objects]
      exact ho
    exact hload i t pg streams htaken ho' hr' hnone

/-- **The rule of `allocPage`, if it settles.** -/
theorem wp_allocPage_settles {Q : Nat × Nat → Sys D → Prop} (hI : Evictable I) (h : I s)
    (ho : s.objects f = some o)
    (hfails : ∀ t e u, I t → t.objects f = some o →
      onFile f (fun o => P2.File.allocatePage o.filename) t = (.error (.throw e), u) → I u)
    (hload : ∀ i t pg streams, Taken I s i t → t.objects f = some o →
      onFile f (fun o => P2.File.allocatePage o.filename) t = (.ok pg, t.setStreams streams) →
      t.entry f pg.pageNumber = none →
      Q (pg.pageNumber, i) ((((t.setStreams streams).setFrame i pg).setDesc i
        (BufDesc.set f pg.pageNumber)).putEntry f pg.pageNumber i)) :
    wp (allocPage f) Q (Fails I s (.allocPage f)) s := by
  apply wp_allocPage hI h ho
  · exact fun e t hr => fails_of_allocBuf hI h _ hr
  · intro i t e u hr htaken hfree hr'
    have ho' : t.objects f = some o := by
      rw [htaken.objects]
      exact ho
    have hfile := wp_onFile_throws (s := t) (f := f) fun o => allocatePage_throws o.filename
    rw [wp_of_error hr'] at hfile
    cases e with
    | throw x =>
        obtain ⟨⟨q, name, rfl⟩, -⟩ := hfile
        refine ⟨fun hsettles => ?_, fun _ _ hx => by cases hx⟩
        exact hfails t _ u (htaken.settled (hfree ((hsettles i t hr).2 _ _ hr'))) ho' hr'
    | _ => trivial
  · -- a page that the pool has is not handed out by a call that settles
    intro i t pg streams j hr htaken hr' hentry
    refine ⟨fun hsettles => ?_, fun _ _ hx => by cases hx⟩
    have hnone := (hsettles i t hr).1 _ _ hr'
    rw [Sys.entry_setStreams, hentry] at hnone
    cases hnone
  · intro i t pg streams htaken hr' hnone
    have ho' : t.objects f = some o := by
      rw [htaken.objects]
      exact ho
    exact hload i t pg streams htaken ho' hr' hnone

end Settled

/-- **Every call keeps the invariant, if it settles**, and in any case it does not end in a
`HashNotFoundException`. -/
theorem call_table [PageData D] {s : Sys D} (h : LiveTable s) (op : BufOp) {o : FileObject}
    (ho : s.objects op.file = some o) :
    wp (call op) (fun _ t => Settles s op → LiveTable t)
      (onThrow fun e t => (Settles s op → LiveTable t) ∧ ∀ name p, e ≠ .hashNotFound name p) s := by
  -- a case for each call, by its rule
  cases op with
  | readPage f p =>
      have ho : s.objects f = some o := ho
      rw [call, wp_bind]
      apply wp_readPage_settles evictable_liveTable h ho
      · intro i hi _
        refine h.mark (h.table.pool.entry f p i hi).1 fun _ => ?_
        exact ⟨rfl, rfl, rfl, rfl⟩
      · exact fun t e u ht _ => inv_of_onFile (fun o => PageFile.readPage_throws o.filename p) ht.setStreams
      · exact fun i t pg streams htaken ho' _ hnone _ => htaken.load ho' hnone streams pg
  | allocPage f =>
      have ho : s.objects f = some o := ho
      rw [call, wp_bind]
      apply wp_allocPage_settles evictable_liveTable h ho
      · exact fun t e u ht _ => inv_of_onFile (fun o => allocatePage_throws o.filename) ht.setStreams
      · exact fun i t pg streams htaken ho' _ hnone _ => htaken.load ho' hnone streams pg
  | unPinPage f p dirty =>
      rw [call, wp_bind]
      apply wp_unPinPage ho h.table.pool
      · intro _ _
        exact h
      · intro i _ _
        exact ⟨fun _ => h, fun _ _ hx => by cases hx⟩
      · intro i hi _ _
        refine h.mark (h.table.pool.entry f p i hi).1 fun _ => ?_
        exact ⟨rfl, rfl, rfl, rfl⟩
  | flushFile f =>
      rw [call, wp_bind]
      refine wp_mono (wp_flushFile ho h evictable_liveTable.table fun t i ht _ =>
        evictable_liveTable.writeBack t i ht) ?_ ?_
      · intro _ t ht _
        exact ht.1
      · intro e t he
        exact onThrow_mono he fun _ hx => ⟨fun _ => hx.1, hx.2.2⟩
  | disposePage f p =>
      -- the file deletes the page whether or not the pool had it
      have hdelete : ∀ t : Sys D, LiveTable t →
          wp (onFile f fun o => PageFile.deletePage o.filename p)
            (fun _ u => Settles s (.disposePage f p) → LiveTable u)
            (onThrow fun e u => (Settles s (.disposePage f p) → LiveTable u) ∧
              ∀ name q, e ≠ .hashNotFound name q) t := by
        intro t ht
        refine wp_mono (wp_onFile_throws fun o => PageFile.deletePage_throws o.filename p) ?_ ?_
        · intro _ u hu _
          obtain ⟨streams, rfl⟩ := hu
          exact ht.setStreams streams
        · intro e u he
          apply onThrow_mono he
          intro x hx
          obtain ⟨⟨q, name, rfl⟩, streams, rfl⟩ := hx
          exact ⟨fun _ => ht.setStreams streams, fun _ _ hx => by cases hx⟩
      rw [call, wp_bind]
      apply wp_disposePage ho h.table.pool
      · intro i _ _
        exact ⟨fun _ => h, fun _ _ hx => by cases hx⟩
      · intro _
        exact hdelete s h
      · intro i hi _
        obtain ⟨hv, rfl, rfl⟩ := h.table.pool.entry f p i hi
        exact hdelete _ (h.evict hv)

/-! ## Runs

Files and frames are nowhere in the invariant, so a run may have any change to them between its calls.
-/

/-- What can happen next: a call, or a change that comes from elsewhere, of the files and of what is in
the frames. -/
inductive TableEvent (D : Type) where
  | call (op : BufOp)
  | outside (streams : FileName → FStream D) (frames : Nat → Page D)

section Runs

variable [PageData D]

/-- What an event leaves. -/
def afterEvent (s : Sys D) : TableEvent D → Sys D
  | .call op => (call op s).2
  | .outside streams frames => { s with streams := streams, mgr := { s.mgr with bufPool := frames } }

/-- The events considered: calls are made with a `File` object that exists, and the program goes on
after them. -/
def TableOk (s : Sys D) : TableEvent D → Prop
  | .call op => (s.objects op.file).isSome = true ∧ Proceeds (call op s).1
  | .outside _ _ => True

/-- Among them, those whose calls settle the frame they take. -/
def TableOkSettles (s : Sys D) (e : TableEvent D) : Prop :=
  TableOk s e ∧ ∀ op, e = .call op → Settles s op

/-- The hash table and the descriptors of a pool represent the same map, and calls on it do not end in
a `HashNotFoundException`. -/
structure Represents (s : Sys D) : Prop where
  same : ∀ f p i, s.entry f p = some i ↔
    (s.desc i).valid = true ∧ (s.desc i).file = f ∧ (s.desc i).pageNo = p
  apart : ∀ i j, (s.desc i).valid = true → (s.desc j).valid = true →
    (s.desc i).file = (s.desc j).file → (s.desc i).pageNo = (s.desc j).pageNo → i = j
  invalid : ∀ i, (s.desc i).valid = false → (s.desc i).pinCnt = 0 ∧ (s.desc i).dirty = false
  quiet : ∀ op e t, (s.objects op.file).isSome = true → call op s = (.error e, t) →
    ¬ IsHashNotFound e

theorem represents_of_table {s : Sys D} (h : LiveTable s) : Represents s := by
  constructor
  case same =>
    intro f p i
    constructor
    · exact h.table.pool.entry f p i
    · intro hi
      obtain ⟨hv, rfl, rfl⟩ := hi
      exact h.table.full i hv
  case apart =>
    intro i j hi hj hfile hp
    have hentry := h.table.full i hi
    rw [hfile, hp, h.table.full j hj] at hentry
    exact (Option.some.inj hentry).symm
  case invalid =>
    intro i hi
    have hclear := h.table.pool.invalid i hi
    rw [← hclear]
    exact ⟨rfl, rfl⟩
  case quiet =>
    intro op e t hlive hcall
    obtain ⟨o, ho⟩ := Option.isSome_iff_exists.mp hlive
    have hspec := call_table h op ho
    rw [wp_of_error hcall] at hspec
    -- an exit other than this exception is none
    cases e with
    | throw x =>
        cases x with
        | hashNotFound name p => exact absurd rfl (hspec.2 name p)
        | _ => exact id
    | _ => exact id

theorem liveTable_after {s : Sys D} (h : LiveTable s) {e : TableEvent D} (hok : TableOkSettles s e) :
    LiveTable (afterEvent s e) := by
  obtain ⟨hok, hsettles⟩ := hok
  cases e with
  | call op =>
      obtain ⟨hlive, hgo⟩ := hok
      obtain ⟨o, ho⟩ := Option.isSome_iff_exists.mp hlive
      have hspec := call_table h op ho
      show LiveTable (call op s).2
      -- the call has thrown, and the program goes on, or it has returned
      rcases hr : call op s with ⟨e | r, t⟩
      · rw [wp_of_error hr] at hspec
        rw [hr] at hgo
        cases e with
        | throw x => exact hspec.1 (hsettles op rfl)
        | _ => exact hgo.elim
      · rw [wp_of_ok hr] at hspec
        exact hspec (hsettles op rfl)
  | outside streams frames =>
      obtain ⟨⟨⟨h₁, h₂, h₃, h₄, h₅⟩, hfull⟩, hlive⟩ := h
      exact ⟨⟨⟨h₁, h₂, h₃, h₄, h₅⟩, hfull⟩, hlive⟩

/-- **The hash table and the descriptors say the same**, in every run of calls that settle. -/
theorem representation (objects : Nat → Option FileObject) (streams : FileName → FStream D)
    (bufs : Nat) (hbufs : 1 ≤ bufs) {events : List (TableEvent D)} {s : Sys D}
    (h : Run (Run.guarded TableOkSettles afterEvent) ⟨objects, streams, .new bufs⟩ events s) :
    Represents s := by
  apply represents_of_table
  apply h.invariant
  · exact ⟨⟨(pinInv_new objects streams hbufs).pool, fun _ hv => by cases hv⟩,
      fun _ hv => by cases hv⟩
  · intro s e t hs hstep
    obtain ⟨hok, rfl⟩ := hstep
    exact liveTable_after hs hok

end Runs

/-- One frame: a page is pinned, another one is refused, and the dirty page is flushed to make room. -/
theorem representation_evicts :
    let events : List (TableEvent StringArea) :=
      [.call (.allocPage 1), .call (.allocPage 2), .call (.unPinPage 1 1 true), .call (.allocPage 2)]
    let s := events.foldl afterEvent ⟨twoFiles, newStreams true, .new 1⟩
    s.entry 2 1 = some 0 ∧ Represents s := by
  refine ⟨rfl, representation twoFiles (newStreams true) 1 (by decide) (Run.of_allOk ?_)⟩
  refine ⟨⟨⟨rfl, trivial⟩, ?_⟩, ⟨⟨rfl, trivial⟩, ?_⟩, ⟨⟨rfl, trivial⟩, ?_⟩, ⟨⟨rfl, trivial⟩, ?_⟩,
    trivial⟩
  · rintro _ ⟨⟩ i t h
    cases h
    exact ⟨fun page u h => by cases h; rfl, fun e u h => by cases h⟩
  · rintro _ ⟨⟩ i t h
    cases h
  · rintro _ ⟨⟩
    trivial
  · rintro _ ⟨⟩ i t h
    cases h
    exact ⟨fun page u h => by cases h; rfl, fun e u h => by cases h⟩

/-- One frame: a page that the file does not have is asked for when the frame holds a clean page. The
frame still holds that page, and the hash table does not have it any more; the next `readPage` of it
ends in a `HashNotFoundException`. -/
theorem representation_unsettled :
    let events : List (TableEvent StringArea) :=
      [.call (.allocPage 1), .call (.unPinPage 1 1 false), .call (.readPage 1 9)]
    let s := events.foldl afterEvent ⟨twoFiles, newStreams true, .new 1⟩
    Run (Run.guarded TableOk afterEvent) ⟨twoFiles, newStreams true, .new 1⟩ events s ∧
      (call (.readPage 1 1) s).1 = .error (.throw (.hashNotFound "f" 1)) ∧ ¬ Represents s := by
  refine ⟨Run.of_allOk ⟨⟨rfl, trivial⟩, ⟨rfl, trivial⟩, ⟨rfl, trivial⟩, trivial⟩, by rfl, ?_⟩
  intro hrep
  have hentry := (hrep.same 1 1 0).mpr ⟨rfl, rfl, rfl⟩
  cases hentry

end CS640.Badger.P2.BufMgr
