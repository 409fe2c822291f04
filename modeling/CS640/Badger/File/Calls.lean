import CS640.Badger.File.Ops
import CS640.Lib.Run

/-!
# Runs of a paged file

The calls a client makes on one `PageFile` (or `File`, in the older version), one after another. The
client of the model also keeps a note of its own: which pages it has been given and has not deleted,
and what it last wrote to each. The note is made from the calls and their results only.

The bytes on the stack that a short read leaves in place may be others in every call, so a call
brings them along.

`call_spec` is the rule of a single operation: what it returns is what is stored, and what is stored follows the
note. `Tracked` is the invariant of a run, for both versions of the calls.
-/

namespace CS640.Badger

open CS640.Lib Prog FStream

/-- The two versions of the program. -/
inductive Version where
  | p2
  | p3
  deriving DecidableEq, Repr

inductive FileOp (D : Type) where
  | allocate
  | read (p : Nat)
  | write (p : Nat) (page : Page D)
  | delete (p : Nat)

inductive FileReply (D : Type) where
  | allocated (p : Nat) (page : Page D)
  | page (page : Page D)
  | done

variable {D : Type}

/-- Run one operation of the file `filename`. -/
def FileOp.call [PageData D] (v : Version) (filename : FileName) :
    FileOp D → Prog Exn (FStream D) (FileReply D)
  | .allocate =>
    match v with
    | .p2 => do
      let page ← P2.File.allocatePage filename
      pure (.allocated page.pageNumber page)
    | .p3 => do
      let (n, page) ← PageFile.allocatePage filename
      pure (.allocated n page)
  | .read p => do
    let page ← PageFile.readPage filename p
    pure (.page page)
  | .write p page => do
    match v with
    | .p2 => P2.File.writePage filename page
    | .p3 => PageFile.writePage filename p page
    pure .done
  | .delete p => do
    PageFile.deletePage filename p
    pure .done

/-- What the client notes after `op` has answered `r`. Links between pages are not the client's
matter, so it notes the other contents of a page. -/
def FileOp.note (op : FileOp D) (r : Except (Exit Exn) (FileReply D))
    (m : Nat → Option (Page D)) : Nat → Option (Page D) :=
  match op, r with
  | .allocate, .ok (.allocated n page) => Function.update m n (some page.contents)
  | .write p page, .ok _ =>
    if (m p).isSome then Function.update m p (some page.contents) else m
  | .delete p, .ok _ => Function.update m p none
  | _, _ => m

/-- The operation reads nothing that was never written, so no read of it comes back short. -/
def FileOp.InFile (s : FStream D) : FileOp D → Prop
  | .allocate => True
  | .read p => p ≠ 0
  | .write p _ => 0 < p ∧ p < s.header.numPages
  | .delete p => p ≠ 0

/-- An operation, and what is on the stack when it is called. -/
structure FileCall (D : Type) where
  op : FileOp D
  junkHeader : FileHeader
  junkPageHeader : PageHeader

/-- A file and the client's note about it. -/
structure FileState (D : Type) where
  stream : FStream D
  noted : Nat → Option (Page D)

namespace FStream

/-- The same file, with other bytes on the stack. -/
def withJunk (s : FStream D) (hd : FileHeader) (pd : PageHeader) : FStream D :=
  { s with junkHeader := hd, junkPageHeader := pd }

variable {s : FStream D} {hd : FileHeader} {pd : PageHeader}

@[simp] theorem withJunk_header : (s.withJunk hd pd).header = s.header := rfl

@[simp] theorem withJunk_page : (s.withJunk hd pd).page = s.page := rfl

@[simp] theorem withJunk_next : (s.withJunk hd pd).next = s.next := rfl

@[simp] theorem withJunk_sticky : (s.withJunk hd pd).sticky = s.sticky := rfl

@[simp] theorem withJunk_stored : (s.withJunk hd pd).stored = s.stored := rfl

@[simp] theorem inFile_withJunk {op : FileOp D} : op.InFile (s.withJunk hd pd) ↔ op.InFile s := by
  cases op <;> rfl

theorem Owned.withJunk [PageData D] {free : List Nat} (h : s.Owned free) :
    (s.withJunk hd pd).Owned free :=
  ⟨⟨h.ready.failbit, h.ready.size⟩, h.numPages, h.chain, h.length, h.free_lt, h.free_page,
    h.used_page, h.page_zero, h.holds⟩

end FStream

/-- The call ended as the operations of a file may end: it returned, or the file has refused the
page. -/
def AnswersOrRefuses {α : Type} : Except (Exit Exn) α → Prop
  | .ok _ => True
  | .error e => IsInvalidPage e

/-- A page is written under its own number. -/
def FileOp.WritesOwnNumber : FileOp D → Prop
  | .write p page => page.pageNumber = p
  | _ => True

namespace FileCall

variable [PageData D] (v : Version) (filename : FileName)

/-- How the call ends, and the file it leaves. -/
def result (s : FileState D) (c : FileCall D) : Except (Exit Exn) (FileReply D) × FStream D :=
  c.op.call v filename (s.stream.withJunk c.junkHeader c.junkPageHeader)

/-- The state after the call. -/
def after (s : FileState D) (c : FileCall D) : FileState D where
  stream := (c.result v filename s).2
  noted := c.op.note (c.result v filename s).1 s.noted

/-- The calls considered: a page is written under its own number, and the call returns or refuses the
page. -/
def Ok (s : FileState D) (c : FileCall D) : Prop :=
  c.op.WritesOwnNumber ∧ AnswersOrRefuses (c.result v filename s).1

end FileCall

/-- A file that has just been created, and nothing noted yet. -/
def FileState.new [PageData D] (sticky : Bool) : FileState D where
  stream := PageFile.newStream sticky ⟨0, 0, 0, 0⟩ ⟨0, 0, 0, 0, 0, 0⟩
  noted := fun _ => none

/-! ## The note is what is stored

By the lemmas of the operations. The note changes at a page that the client was given, and pages are handed out,
written and deleted where they are stored; all else leaves both as they were.
-/

namespace FileOp

variable [PageData D] {v : Version} {fn : FileName} {s : FStream D} {free : List Nat}

theorem allocate_spec (h : s.Owned free) :
    wp ((allocate : FileOp D).call v fn)
      (fun r t => ∃ n pg, r = .allocated n pg ∧ PageFile.Allocated s n pg t)
      (fun e t => t = s ∧ WalkFails e) s := by
  have hspec := PageFile.allocatePage_spec fn h
  -- the older version returns the page, and its number is in it
  cases v with
  | p2 =>
      rw [call, wp_bind, P2.File.allocatePage, wp_bind]
      refine wp_mono hspec ?_ fun _ _ he => he
      intro r t ha
      refine ⟨_, _, rfl, ?_⟩
      rw [ha.pageNumber]
      exact ha
  | p3 =>
      rw [call, wp_bind]
      refine wp_mono hspec ?_ fun _ _ he => he
      intro r t ha
      exact ⟨_, _, rfl, ha⟩

theorem write_call {p : Nat} {pg : Page D} (hn : pg.pageNumber = p) :
    (write p pg).call v fn = (do PageFile.writePage fn p pg; pure .done) := by
  cases v with
  | p2 => rw [call, P2.File.writePage, hn]
  | p3 => rfl

omit [PageData D] in
theorem fail_eq_of_inFile {p : Nat} (hin : s.sticky = true → p ≠ 0) (h0 : p = 0) : s.fail = s := by
  apply fail_of_not_sticky
  by_contra hcon
  exact hin (by simpa using hcon) h0

/-- What one operation does to a file whose ownership is right, on a stream that returns the bytes
last written or is never read where there are none. -/
theorem call_spec (op : FileOp D) (hop : op.WritesOwnNumber) (h : s.Owned free)
    (hin : s.sticky = true → op.InFile s) :
    wp (op.call v fn)
      (fun r t => (∃ free', t.Owned free') ∧ t.sticky = s.sticky ∧
        t.stored = op.note (.ok r) s.stored)
      (fun _ t => t = s) s := by
  -- a case for each operation, and whether the page is in use
  cases op with
  | allocate =>
      refine wp_mono (allocate_spec h) ?_ fun _ _ he => he.1
      rintro r t ⟨n, pg, rfl, ha⟩
      refine ⟨ha.owned, ha.sticky, ?_⟩
      rw [ha.stored, note, ha.empty]
  | read p =>
      rw [call, wp_bind]
      cases hp : s.stored p with
      | some d =>
          rw [wp_of_ok (PageFile.readPage_of_stored fn h hp)]
          exact ⟨⟨free, h⟩, rfl, rfl⟩
      | none =>
          obtain ⟨t, hr, ht⟩ := PageFile.readPage_of_not_stored fn h hp
          rw [wp_of_error hr]
          -- nothing has been read, or a short read of the page `0`
          rcases ht with rfl | ⟨h0, rfl⟩
          · rfl
          · exact fail_eq_of_inFile hin h0
  | write p pg =>
      rw [write_call hop, wp_bind]
      cases hp : s.stored p with
      | some d =>
          obtain ⟨hpos, hlt, -, -, -⟩ := h.of_stored hp
          rw [wp_of_ok (PageFile.writePage_of_stored fn h hp pg)]
          refine ⟨⟨free, h.put hp hop⟩, rfl, ?_⟩
          rw [stored_put hlt]
          · simp [note, hp]
          · rw [Page.pageNumber_setNextPageNumber, hop]
            exact Nat.ne_of_gt hpos
      | none =>
          refine wp_mono (PageFile.writePage_of_not_stored fn h hin hp hop) ?_ fun _ _ he => he.1
          intro _ t ht
          refine ⟨⟨free, ht.1⟩, ht.2.2.1, ?_⟩
          rw [ht.2.1]
          simp [note, hp]
  | delete p =>
      rw [call, wp_bind]
      cases hp : s.stored p with
      | some d =>
          refine wp_mono (PageFile.deletePage_of_stored fn h hp) ?_ fun _ _ he => he.1
          intro _ t ht
          exact ⟨ht.2.1, ht.2.2, ht.1⟩
      | none =>
          obtain ⟨t, hr, ht⟩ := PageFile.deletePage_of_not_stored fn h hp
          rw [wp_of_error hr]
          rcases ht with rfl | ⟨h0, rfl⟩
          · rfl
          · exact fail_eq_of_inFile hin h0

end FileOp

/-- The ownership of the file is right, and the client's note says what is stored in it. -/
structure FileState.Tracked [PageData D] (s : FileState D) : Prop where
  owned : ∃ free, s.stream.Owned free
  noted : s.noted = s.stream.stored

namespace FileState

variable [PageData D] {v : Version} {fn : FileName}

theorem tracked_new (sticky : Bool) : (new sticky : FileState D).Tracked where
  owned := ⟨[], owned_newStream _ _ _⟩
  noted := by
    funext p
    exact (stored_eq_none.mpr fun _ => rfl).symm

theorem Tracked.after {s : FileState D} {c : FileCall D} (h : s.Tracked)
    (hop : c.op.WritesOwnNumber) (hin : s.stream.sticky = true → c.op.InFile s.stream) :
    (c.after v fn s).Tracked ∧ (c.after v fn s).stream.sticky = s.stream.sticky := by
  obtain ⟨free, ho⟩ := h.owned
  have ho' : (s.stream.withJunk c.junkHeader c.junkPageHeader).Owned free := ho.withJunk
  have hspec : wp (c.op.call v fn) _ _ _ := c.op.call_spec hop ho' (by simpa using hin)
  unfold FileCall.after
  rcases hr : c.result v fn s with ⟨r | r, t⟩
  · -- a call that fails has changed nothing
    obtain rfl : t = s.stream.withJunk c.junkHeader c.junkPageHeader :=
      (wp_of_error (x := c.op.call v fn) hr).mp hspec
    refine ⟨⟨⟨free, ho.withJunk⟩, ?_⟩, rfl⟩
    rw [withJunk_stored, ← h.noted]
    cases c.op <;> rfl
  · obtain ⟨ho', hs', hst⟩ := (wp_of_ok (x := c.op.call v fn) hr).mp hspec
    refine ⟨⟨ho', ?_⟩, hs'⟩
    rw [hst, h.noted, withJunk_stored]

end FileState

end CS640.Badger
