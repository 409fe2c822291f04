import CS640.Badger.Buffer.Flush
import CS640.Badger.File.Throws

/-!
# What `disposePage` leaves in p3

`disposePage` clears the frame of the page before it asks the file to delete it. `deletion` says, of the
file alone, what the file answers: a `BlobFile` refuses, and so does a `PageFile` whose used list leads to a
free page before it leads to the page.

Main result: `P3.BufMgr.disposes_iff`. In every pool that a run leads to, `disposePage` of a page that nobody
has pinned deletes the page or keeps what was released last if and only if the file deletes it, or refuses
and has that already.

The answer of the file is known before the call, since the walk over the used list reads nothing but the file:
`deletePage_deletion` follows the same rounds as the code. What the pool adds is that the frame is gone when the
answer comes. If the file refuses then, what was released last must have been on disk already.
-/

namespace CS640.Badger

open CS640.Lib Prog FStream

variable {D : Type}

/-! ## What the file answers

Only the walk can refuse, or never end. Before it the page is read, which succeeds for a page in use, and after it
there are only writes, which succeed on such a file.
-/

inductive Deletion where
  | deletes
  | refuses
  | endless
  deriving DecidableEq, Repr

/-- The walk over the used list, from `iter` to the page before `p`, in so many rounds. -/
def walkTo (st : FStream D) (p : Nat) : (rounds iter : Nat) → Deletion
  | 0, _ => .endless
  | rounds + 1, iter =>
    if iter = invalidNumber then .deletes
    else if (st.stored iter).isSome = true then
      if st.next iter = p then .deletes else walkTo st p rounds (st.next iter)
    else .refuses

/-- What a file of the kind answers to `deletePage` of its page `p`. -/
def FileKind.deletion (kind : FileKind) (st : FStream D) (p : Nat) : Deletion :=
  match kind with
  | .page =>
    if p = st.header.firstUsedPage then .deletes
    else walkTo st p (st.header.numPages + 1) st.header.firstUsedPage
  | .blob => .refuses

/-- The call ends as `answer` says. -/
def Deletion.Of {α : Type} (answer : Deletion) : Except (Exit Exn) α → Prop
  | .ok _ => answer = .deletes
  | .error (.throw _) => answer = .refuses
  | .error .diverge => answer = .endless
  | _ => False

section Deletes

variable [PageData D] {st : FStream D} {free : List Nat} {p : Nat} (fn : FileName)

theorem walkFrom_walkTo (h : st.Owned free) : ∀ (rounds iter : Nat) (last : Option (Page D)),
    wp (PageFile.walkFrom fn (fun page => page.nextPageNumber == p) rounds iter last)
      (fun _ t => t = st ∧ walkTo st p rounds iter = .deletes)
      (fun e _ => (walkTo st p rounds iter).Of (α := Unit) (.error e)) st := by
  -- over the rounds, as both walks are defined
  intro rounds
  induction rounds with
  | zero =>
      intro iter last
      rfl
  | succ rounds ih =>
      intro iter last
      rw [PageFile.walkFrom, walkTo, wp_ite]
      refine ⟨fun hend => ?_, fun hne => ?_⟩
      · rw [if_pos hend]
        exact ⟨rfl, rfl⟩
      · rw [if_neg hne]
        -- a free page is refused, a page in use leads on
        cases hst : st.stored iter with
        | none =>
            obtain ⟨t, hr, -⟩ := PageFile.readPage_of_not_stored fn h hst
            rw [wp_bind, wp_of_error hr]
            rfl
        | some d =>
            obtain ⟨hpos, hlt, -⟩ := h.of_stored hst
            rw [wp_bind, wp_of_ok (PageFile.readPage_of_stored fn h hst), wp_ite]
            have hnext : (st.page iter).nextPageNumber = st.next iter := rfl
            constructor
            · intro hstop
              have hstop : st.next iter = p := by simpa [hnext] using hstop
              rw [if_pos Option.isSome_some, if_pos hstop]
              exact ⟨rfl, rfl⟩
            · intro hgo
              have hgo : ¬ st.next iter = p := by simpa [hnext] using hgo
              rw [if_pos Option.isSome_some, if_neg hgo, wp_bind,
                wp_of_ok (readPageHeader_apply h.ready (h.holds iter hpos hlt))]
              exact ih _ _

theorem unlinkUsed_deletion (h : st.Owned free) (existingPage : Page D) (hnum : existingPage.pageNumber = p) :
    wp (PageFile.unlinkUsed fn st.header p existingPage)
      (fun _ _ => FileKind.page.deletion st p = .deletes)
      (fun e _ => (FileKind.page.deletion st p).Of (α := Unit) (.error e)) st := by
  rw [PageFile.unlinkUsed, FileKind.deletion, wp_ite]
  refine ⟨fun hfirst => ?_, fun hlater => ?_⟩
  · rw [if_pos hfirst]
    rfl
  · rw [if_neg hlater, hnum, wp_bind, PageFile.walk, wp_bind, wp_of_ok (readHeader_apply h.ready)]
    refine wp_mono (walkFrom_walkTo fn h _ _ none) ?_ fun _ _ he => he
    rintro ⟨last, found⟩ t ⟨-, hdeletes⟩
    exact hdeletes

/-- A file in good order answers so. -/
theorem deletePage_deletion {o : FileObject} (h : o.kind.InOrder st)
    (hp : o.kind = .page → (o.kind.held st p).isSome = true) :
    (o.kind.deletion st p).Of (o.deletePage p st).1 := by
  obtain ⟨kind, fn⟩ := o
  cases kind with
  | blob => rfl
  | page =>
      obtain ⟨free, ho⟩ := h
      obtain ⟨d, hd⟩ := Option.isSome_iff_exists.mp (hp rfl)
      have hd : st.stored p = some d := hd
      obtain ⟨-, -, -, hnum, -⟩ := ho.of_stored hd
      have hspec : wp (PageFile.deletePage fn p) (fun _ _ => FileKind.page.deletion st p = .deletes)
          (fun e _ => (FileKind.page.deletion st p).Of (α := Unit) (.error e)) st := by
        rw [PageFile.deletePage, wp_bind, wp_of_ok (readHeader_apply ho.ready), wp_bind,
          wp_of_ok (PageFile.readPage_of_stored fn ho hd), wp_bind]
        refine wp_mono (unlinkUsed_deletion fn ho _ hnum) ?_ fun _ _ he => he
        -- nothing is left to do but writes
        rintro ⟨header, previousPage⟩ t hdeletes
        have hlast : ∀ freePage : Page D, Exits (fun _ => False) (do
            writeWholePage p freePage.header freePage
            writeHeader { header with firstFreePage := p, numFreePages := header.numFreePages + 1 }) :=
          fun _ => (Exits.of_ok (writeWholePage_returns _ _ _)).bind fun _ =>
            Exits.of_ok (writeHeader_returns _)
        have hwrites := Exits.ite (c := previousPage.isUsed = true)
          (fun _ => (Exits.of_ok (writeWholePage_returns previousPage.pageNumber previousPage.header
            previousPage)).bind fun _ => hlast (Page.init.setNextPageNumber header.firstFreePage))
          fun _ => hlast (Page.init.setNextPageNumber header.firstFreePage)
        exact wp_mono (hwrites t) (fun _ _ _ => hdeletes) fun _ _ he => he.elim
      show (FileKind.page.deletion st p).Of (PageFile.deletePage fn p st).1
      -- the answer of the call, by how it has ended
      rcases hr : PageFile.deletePage fn p st with ⟨e | _, t⟩
      · rw [wp_of_error hr] at hspec
        cases e <;> exact hspec
      · rw [wp_of_ok hr] at hspec
        exact hspec

end Deletes

namespace P3.BufMgr

open CS640.Badger.BufMgr
open HandleState (Session)

variable [PageData D]

/-! ## The call

A page that is not in the pool makes the call throw at once. Otherwise the frame is cleared first, and the rest
depends on the answer of the file.
-/

/-- The data of page `p` of `f`: that of its frame, or else that of its file. -/
def contents (s : Sys D) (f : Nat) (o : FileObject) (p : Nat) : Option (Page D) :=
  match s.entry f p with
  | some i => some (o.kind.normal (s.frame i))
  | none => onDisk s o p

/-- Page `p` of `f` is deleted, and the other pages have what they had. -/
structure DeletedPage (s : Sys D) (f : Nat) (o : FileObject) (p : Nat) (t : Sys D) : Prop where
  file : onDisk t o p = none
  pool : t.entry f p = none
  others : ∀ g og q, s.objects g = some og → ¬ (g = f ∧ q = p) → contents t g og q = contents s g og q

/-- Page `p` of `f` has the data `d`, which is what a `readPage` returns. -/
structure Shows (t : Sys D) (f : Nat) (o : FileObject) (p : Nat) (d : Page D) : Prop where
  data : contents t f o p = some d
  read : ∀ i u, readPage f p t = (.ok i, u) → o.kind.normal (u.frame i) = d

/-- `disposePage` deletes the page, or it throws, and the page has what was released last. -/
def Disposes (s : HandleState D) (f : Nat) (o : FileObject) (p : Nat) : Prop :=
  (disposePage f p s.sys).1 = .ok () ∧ DeletedPage s.sys f o p (disposePage f p s.sys).2 ∨
    (∃ x, (disposePage f p s.sys).1 = .error (.throw x)) ∧
      ∀ d, s.released o.filename p = some d → Shows (disposePage f p s.sys).2 f o p d

section Call

variable {objects : Nat → Option FileObject} {s : HandleState D} {f p i : Nat} {o : FileObject} {d : Page D}

/-- A page that is not in the pool has the data its file has. -/
theorem HandleState.Session.shows (h : HandleState.Session objects s) (hsingle : Single objects)
    (ho : s.sys.objects f = some o) (hnone : s.sys.entry f p = none) (hun : Unchanged s.pins f p)
    (hd : s.released o.filename p = some d) : Shows s.sys f o p d := by
  have hdisk : onDisk s.sys o p = some d := by
    -- the pool does not have it, so the file does
    rcases retained_of_unchanged h.shared hsingle h.numbered.live ho hd hun with ⟨i, hi, -⟩ | hdisk
    · rw [hnone] at hi
      cases hi
    · exact hdisk
  constructor
  case data =>
    rw [contents, hnone]
    exact hdisk
  case read =>
    intro i u hr
    have hread : o.kind.MayRead (s.sys.streams o.filename) p := by
      intro _
      left
      rw [show o.kind.held (s.sys.streams o.filename) p = some d from hdisk]
      rfl
    have hspec := readPage_shared h.shared ho fun _ => ⟨h.cleanElsewhere hsingle hnone, hread⟩
    rw [wp_of_ok hr] at hspec
    obtain ⟨hu, hobj⟩ := hspec
    have ho' : u.objects f = some o := by
      rw [hobj]
      exact ho
    exact hu.inFrame f o p i d ho' (hu.pinInv.held _ List.mem_cons_self) hd
      (CacheState.unchanged_cons.mpr hun)

/-- Dropping a page leaves the other pages what they had. -/
theorem contents_dispose (h : Session objects s) (hsingle : Single objects) (ho : s.sys.objects f = some o)
    {st : FStream D}
    (hkeep : ∀ q, q ≠ p → o.kind.held st q = o.kind.held (s.sys.streams o.filename) q) {g q : Nat}
    {og : FileObject} (hg : s.sys.objects g = some og) (hne : ¬ (g = f ∧ q = p)) :
    contents (((s.sys.dropEntry f p).setDesc i BufDesc.clear).setStream o.filename st) g og q =
      contents s.sys g og q := by
  have hentry : (((s.sys.dropEntry f p).setDesc i BufDesc.clear).setStream o.filename st).entry g q =
      s.sys.entry g q := by
    rw [Sys.entry_setStream, Sys.entry_setDesc, Sys.entry_dropEntry, if_neg hne]
  have hdisk : og.kind.held (Function.update s.sys.streams o.filename st og.filename) q =
      og.kind.held (s.sys.streams og.filename) q := by
    apply h.shared.update_keep ho hkeep g og q hg
    rintro ⟨rfl, rfl⟩
    apply hne
    refine ⟨?_, rfl⟩
    rw [h.numbered.live] at ho hg
    exact hsingle g f og og hg ho rfl
  rw [contents, contents, hentry]
  cases s.sys.entry g q with
  | some j => rfl
  | none => exact hdisk

/-- One call on a page that nobody has pinned. -/
theorem HandleState.Session.disposes (h : HandleState.Session objects s) (hsingle : Single objects)
    (ho : s.sys.objects f = some o) (hfree : ∀ pin ∈ s.pins, pin.file = f → pin.pageNo ≠ p) :
    Disposes s f o p ↔ o.kind.deletion (s.sys.streams o.filename) p = .deletes ∨
      (s.sys.entry f p = none ∨ o.kind.deletion (s.sys.streams o.filename) p = .refuses) ∧
        ∀ d, s.released o.filename p = some d → onDisk s.sys o p = some d := by
  have hun : Unchanged s.pins f p := fun pin hpin hf hp => absurd hp (hfree pin hpin hf)
  -- not in the pool: the call throws and changes nothing
  cases hentry : s.sys.entry f p with
  | none =>
      have hthrow : disposePage f p s.sys = (.error (.throw (.hashNotFound o.filename p)), s.sys) := by
        rw [disposePage, bind_of_error (lookup_missing ho hentry)]
      have hshows : ∀ d, s.released o.filename p = some d → Shows s.sys f o p d :=
        fun d hd => h.shows hsingle ho hentry hun hd
      constructor
      · intro _
        refine Or.inr ⟨Or.inl rfl, fun d hd => ?_⟩
        have hdata := (hshows d hd).data
        rw [contents, hentry] at hdata
        exact hdata
      · intro _
        right
        rw [hthrow]
        exact ⟨⟨_, rfl⟩, hshows⟩
  -- in the pool: the frame is cleared, and the file answers
  | some i =>
      have hpage : o.kind = .page → (o.kind.held (s.sys.streams o.filename) p).isSome = true := by
        obtain ⟨o', ho', hpage⟩ := h.shared.cached f p i hentry
        obtain rfl := Option.some.inj (ho'.symm.trans ho)
        exact fun hkind => (hpage hkind).1
      have hanswer := deletePage_deletion (h.shared.order f o ho) hpage
      obtain ⟨r, st, hdelete, hrun, -, hkeep, hcase⟩ := disposePage_leaves h.shared ho hentry
      rw [hdelete] at hanswer
      set t := ((s.sys.dropEntry f p).setDesc i BufDesc.clear).setStream o.filename st with ht
      have hgone : t.entry f p = none := by
        rw [ht, Sys.entry_setStream, Sys.entry_setDesc, Sys.entry_dropEntry, if_pos ⟨rfl, rfl⟩]
      have hdisk : onDisk t o p = o.kind.held st p := by
        show o.kind.held (Function.update s.sys.streams o.filename st o.filename) p = _
        rw [Function.update_self]
      rcases hcase with ⟨rfl, hnone⟩ | ⟨⟨e, rfl⟩, rfl⟩
      · -- the page is deleted
        have hdeletes : o.kind.deletion (s.sys.streams o.filename) p = .deletes := hanswer
        refine ⟨fun _ => Or.inl hdeletes, fun _ => Or.inl ?_⟩
        rw [hrun]
        refine ⟨rfl, hdisk.trans hnone, hgone, ?_⟩
        intro g og q hg hne
        exact contents_dispose h hsingle ho hkeep hg hne
      · -- the file has not deleted it
        have hnot : o.kind.deletion (s.sys.streams o.filename) p ≠ .deletes := by
          intro hdeletes
          rw [hdeletes] at hanswer
          cases e <;> cases hanswer
        rw [Disposes, hrun]
        constructor
        · rintro (⟨hok, -⟩ | ⟨⟨x, hx⟩, hshows⟩)
          · cases hok
          · cases hx
            refine Or.inr ⟨Or.inr hanswer, fun d hd => ?_⟩
            have hdata := (hshows d hd).data
            rw [contents, hgone] at hdata
            exact hdisk.symm.trans hdata
        · rintro (hdeletes | ⟨hin | hrefuses, hkept⟩)
          · exact absurd hdeletes hnot
          · cases hin
          · -- a file that refuses throws, it does not loop
            have hthrow : ∃ x, e = .throw x := by
              rw [hrefuses] at hanswer
              cases e with
              | throw x => exact ⟨x, rfl⟩
              | diverge => cases hanswer
              | _ => exact hanswer.elim
            obtain ⟨x, rfl⟩ := hthrow
            refine Or.inr ⟨⟨x, rfl⟩, fun d hd => ?_⟩
            -- what the file has counts as released once the frame is gone
            have ho' : t.objects f = some o := ho
            have hsys := HandleState.dispose_sys hrun
            have hd' : (s.dispose f p).released o.filename p = some d := by
              rw [HandleState.dispose_released hrun ho', putPage_self, hdisk]
              exact hkept d hd
            have hun' : Unchanged (s.dispose f p).pins f p :=
              fun pin hpin hf hp => absurd hp (hfree pin (List.mem_of_mem_filter hpin) hf)
            have hshows := (h.dispose hsingle ho hentry).shows hsingle (by rw [hsys]; exact ho')
              (by rw [hsys]; exact hgone) hun' hd'
            rw [hsys] at hshows
            exact hshows

end Call

/-- **When `disposePage` keeps its promise**, in every pool that a run on files in good order leads to, where
each file has one object, for a page that nobody has pinned. -/
theorem disposes_iff (kinds : FileName → FileKind) (objects : Nat → Option FileObject)
    (streams : FileName → FStream D) (bufs : Nat) (hbufs : 1 ≤ bufs) (hsingle : Single objects)
    (hkinds : ∀ a o, objects a = some o → o.kind = kinds o.filename)
    (horder : ∀ a o, objects a = some o → o.kind.InOrder (streams o.filename))
    {events : List (CacheEvent D)} {s : HandleState D}
    (h : Run (Run.guarded (fun s e => s.Ok e ∧ s.ReadsWhole e) HandleState.next)
      (HandleState.new kinds objects streams bufs) events s) {f p : Nat} {o : FileObject}
    (ho : objects f = some o) (hfree : ∀ pin ∈ s.pins, pin.file = f → pin.pageNo ≠ p) :
    Disposes s f o p ↔ o.kind.deletion (s.sys.streams o.filename) p = .deletes ∨
      (s.sys.entry f p = none ∨ o.kind.deletion (s.sys.streams o.filename) p = .refuses) ∧
        ∀ d, s.released o.filename p = some d → onDisk s.sys o p = some d := by
  have hsession := session_run kinds objects streams bufs hbufs hsingle hkinds horder h
  apply hsession.disposes hsingle _ hfree
  rw [hsession.numbered.live]
  exact ho

/-- A page of a `PageFile` has been written to and released dirty; `disposePage` deletes it. -/
theorem disposes_deletes :
    let pin : Pin := ⟨1, 1, 0, false⟩
    let events : List (CacheEvent CharArea) :=
      [.call (.allocPage 1), .write pin (pageOne fun _ => 7), .unPin { pin with changed := true } true]
    let s := events.foldl HandleState.next (HandleState.new (fun _ => .page) twoFiles (newStreams true) 2)
    (s.sys.entry 1 1).isSome = true ∧ Disposes s 1 ⟨.page, "f"⟩ 1 := by
  refine ⟨rfl, (disposes_iff (fun _ => .page) twoFiles (newStreams true) 2 (by decide)
    (fun a b oa ob => CacheState.twoFiles_one) (fun a o => CacheState.twoFiles_paged)
    (fun a o => CacheState.twoFiles_inOrder true) (Run.of_allOk ?_) rfl ?_).mpr (Or.inl rfl)⟩
  · refine ⟨⟨⟨rfl, rfl, trivial⟩, trivial⟩, ⟨⟨List.mem_cons_self, fun _ _ _ => rfl⟩, trivial⟩,
      ⟨⟨rfl, trivial, Or.inl ⟨List.mem_cons_self, fun _ => rfl⟩⟩, trivial⟩, trivial⟩
  · exact nofun

/-- One `BlobFile`. -/
def oneBlob : Nat → Option FileObject := fun a => if a = 1 then some ⟨.blob, "f"⟩ else none

/-- A page of a `BlobFile` has been written to and released dirty. The file refuses to delete it, but its
frame is clear by then, and the page is read as it was before the update. -/
theorem disposes_lost :
    let pin : Pin := ⟨1, 1, 0, false⟩
    let events : List (CacheEvent CharArea) :=
      [.call (.allocPage 1), .write pin (pageOne fun _ => 7), .unPin { pin with changed := true } true]
    let new := HandleState.new (fun _ => .blob) oneBlob (newStreams true) 2
    let s := events.foldl HandleState.next new
    Run (Run.guarded (fun s e => s.Ok e ∧ s.ReadsWhole e) HandleState.next) new events s ∧ s.pins = [] ∧
      (∃ x t, disposePage 1 1 s.sys = (.error (.throw x), t) ∧
        ∃ u, readPage 1 1 t = (.ok 1, u) ∧ (u.frame 1).data 5 = 0) ∧
      (∃ d, s.released "f" 1 = some d ∧ d.data 5 = 7) ∧ ¬ Disposes s 1 ⟨.blob, "f"⟩ 1 := by
  refine ⟨Run.of_allOk ?_, rfl, ⟨_, _, rfl, _, rfl, rfl⟩, ⟨_, rfl, rfl⟩, ?_⟩
  · refine ⟨⟨⟨rfl, rfl, trivial⟩, trivial⟩, ⟨⟨List.mem_cons_self, fun _ _ _ => rfl⟩, trivial⟩,
      ⟨⟨rfl, trivial, Or.inl ⟨List.mem_cons_self, fun _ => rfl⟩⟩, trivial⟩, trivial⟩
  · rintro (⟨hok, -⟩ | ⟨-, hshows⟩)
    · cases hok
    · have hread := (hshows _ rfl).read 1 _ rfl
      have hdata : (0 : UInt8) = 7 := congrFun (congrArg Page.data hread) 5
      cases hdata

end P3.BufMgr

end CS640.Badger
