import CS640.Badger.Scan.Calls

/-!
# Cached pages and the lifetime of file objects

Main result: `noOutliving`. As long as no `File` object is destroyed while a frame holds a page of it, no
page in the pool outlives the object it was read through, and an object at a new address finds no pages
under it.

A `FileScan` that has read a page and is destroyed leaves the page behind (`noOutliving_scan`): the next
scan whose `PageFile` is put at the same address gets it, whatever is in the file by then.

The invariant (`ScanState.Inv`) has the frames live, as `FramesLive` says of the pool, and the scans with an object
each. One lemma for each kind of event says that it is kept: `openScan_inv`, `closeScan_inv`, `openFile_inv`,
`closeFile_inv`, and `run_inv` for all of them. The condition of the main result is used in the two that destroy an
object.
-/

namespace CS640.Badger

open CS640.Lib Prog
open CS640.Badger.BufMgr CS640.Badger.P3.BufMgr

variable {D : Type}

/-! ## Runs

A file scan owns its `PageFile`, so creating one puts an object at an address and destroying it takes the object
away. Addresses are numbers; nothing keeps a later object from getting an earlier one's.
-/

/-- The system and the scans in it, by their addresses. -/
structure ScanState (D : Type) where
  world : World D
  scans : Nat → Option FileScan

/-- What can happen next: a scan or another `File` object is created, used or destroyed, a call is made on
the buffer manager, a file is removed, or the contents of files and frames are changed by others. -/
inductive ScanEvent (D : Type) where
  | openScan (scan file : Nat) (name : FileName)
  | scanNext (scan rounds : Nat)
  | markDirty (scan : Nat)
  | closeScan (scan : Nat)
  | call (op : BufOp)
  | openFile (file : Nat) (kind : FileKind) (filename : FileName) (createNew : Bool)
  | closeFile (file : Nat)
  | removeFile (filename : FileName)
  | writeFile (filename : FileName) (stream : FStream D)
  | writeFrame (frame : Nat) (page : Page D)

namespace ScanState

/-- No files are open, and the pool is empty. -/
def new [PageData D] (streams : FileName → FStream D) (onDisk : FileName → Bool) (bufs : Nat) :
    ScanState D where
  world := ⟨⟨fun _ => none, streams, .new bufs⟩, onDisk, fun _ => 0⟩
  scans := fun _ => none

def setScan (scan : Nat) (self : Option FileScan) (s : ScanState D) : ScanState D :=
  { s with scans := Function.update s.scans scan self }

def onWorld {α : Type} (x : Prog Exn (World D) α) : Prog Exn (ScanState D) α :=
  zoom ScanState.world (fun world s => { s with world := world }) x

/-- A member function of a scan. -/
def withScan {α : Type} (scan : Nat) (x : Prog Exn (Scanning D) α) : Prog Exn (ScanState D) α := do
  let s ← get
  match s.scans scan with
  | some self =>
    zoom (fun s => ⟨self, s.world.sys⟩)
      (fun t s => setScan scan (some t.scan) { s with world := { s.world with sys := t.sys } }) x
  | none => exit .undefined

/-!
## The invariant

Every frame in use has a live object. For that it must be known that a scan's object is live, and that it is nobody
else's, or the destructor of one scan would take away another's.
-/

structure Inv (s : ScanState D) : Prop where
  frames : FramesLive s.world.sys.objects s.world.sys
  scans : ∀ scan self, s.scans scan = some self → (s.world.sys.objects self.file).isSome = true
  apart : ∀ scan self scan' self', s.scans scan = some self → s.scans scan' = some self' →
    self.file = self'.file → scan = scan'

namespace Inv

variable {s : ScanState D} {w : World D} {objects : Nat → Option FileObject}

/-- What concerns the pool and the files only. -/
theorem setWorld (h : s.Inv) (hw : FramesLive s.world.sys.objects w.sys) :
    ScanState.Inv { s with world := w } where
  frames := by
    rw [show w.sys.objects = s.world.sys.objects from hw.same]
    exact hw
  scans scan self hself := by
    rw [show w.sys.objects = s.world.sys.objects from hw.same]
    exact h.scans scan self hself
  apart := h.apart

/-- A new object is put where there is none. -/
theorem openFile (h : s.Inv) {file : Nat} {object : FileObject}
    (hw : Reopened s.world (Function.update s.world.sys.objects file (some object)) w) :
    ScanState.Inv { s with world := w } := by
  have hsome : ∀ f, (s.world.sys.objects f).isSome = true → (w.sys.objects f).isSome = true := by
    intro f hf
    rw [hw.2, Function.update_apply]
    -- Either the address is that of the new object, or nothing has changed there.
    split
    · rfl
    · exact hf
  refine ⟨h.frames.of_mgr hw.1 rfl fun i hi => hsome _ (h.frames.live i hi), ?_, h.apart⟩
  intro scan self hself
  exact hsome _ (h.scans scan self hself)

/-- A new scan has an object that no other scan has. -/
theorem openScan (h : s.Inv) {scan : Nat} {self : FileScan}
    (hself : (s.world.sys.objects self.file).isSome = true)
    (hnew : ∀ scan' self', s.scans scan' = some self' → self'.file ≠ self.file) :
    (s.setScan scan (some self)).Inv := by
  refine ⟨h.frames, ?_, ?_⟩
  · intro scan' self' hscan
    dsimp only [setScan] at hscan ⊢
    rw [Function.update_apply] at hscan
    split at hscan
    · cases hscan
      exact hself
    · exact h.scans scan' self' hscan
  · intro a selfa b selfb ha hb hfile
    dsimp only [setScan] at ha hb
    rw [Function.update_apply] at ha hb
    -- Two scans with one object are the same: the new scan is the only one that has the new object.
    split at ha <;> split at hb
    · next hascan hbscan => rw [hascan, hbscan]
    · cases ha
      exact absurd hfile.symm (hnew b selfb hb)
    · cases hb
      exact absurd hfile (hnew a selfa ha)
    · exact h.apart a selfa b selfb ha hb hfile

/-- A scan moves on. -/
theorem updateScan (h : s.Inv) {scan : Nat} {self self' : FileScan} (hself : s.scans scan = some self)
    (hfile : self'.file = self.file) : (s.setScan scan (some self')).Inv := by
  have hlive := h.scans scan self hself
  refine ⟨h.frames, ?_, ?_⟩
  · intro b selfb hb
    dsimp only [setScan] at hb ⊢
    rw [Function.update_apply] at hb
    split at hb
    · cases hb
      rw [hfile]
      exact hlive
    · exact h.scans b selfb hb
  · -- Whatever a scan has become, it had the same object before.
    have hold : ∀ b selfb, (s.setScan scan (some self')).scans b = some selfb →
        ∃ old, s.scans b = some old ∧ old.file = selfb.file := by
      intro b selfb hb
      dsimp only [setScan] at hb
      rw [Function.update_apply] at hb
      split at hb
      · next hbscan =>
          cases hb
          exact ⟨self, hbscan ▸ hself, hfile.symm⟩
      · exact ⟨selfb, hb, rfl⟩
    intro a selfa b selfb ha hb hab
    obtain ⟨olda, ha, hfa⟩ := hold a selfa ha
    obtain ⟨oldb, hb, hfb⟩ := hold b selfb hb
    exact h.apart a olda b oldb ha hb (by rw [hfa, hfb, hab])

/-- An object that is no scan's goes. -/
theorem closeFile (h : s.Inv) {file : Nat}
    (hw : FramesLive (Function.update s.world.sys.objects file none) w.sys)
    (hother : ∀ scan self, s.scans scan = some self → self.file ≠ file) :
    ScanState.Inv { s with world := w } := by
  have hobjects : w.sys.objects = Function.update s.world.sys.objects file none := hw.same
  refine ⟨?_, ?_, h.apart⟩
  · dsimp only
    rw [hobjects]
    exact hw
  · intro scan self hself
    dsimp only
    rw [hobjects, Function.update_of_ne (hother scan self hself)]
    exact h.scans scan self hself

/-- A scan goes, and its object with it. -/
theorem closeScan (h : s.Inv) {scan : Nat} {self : FileScan} (hself : s.scans scan = some self)
    (hw : FramesLive (Function.update s.world.sys.objects self.file none) w.sys) :
    (setScan scan none { s with world := w }).Inv := by
  have hother : ∀ b selfb, (setScan scan none s).scans b = some selfb →
      s.scans b = some selfb ∧ b ≠ scan := by
    intro b selfb hb
    dsimp only [setScan] at hb
    rw [Function.update_apply] at hb
    split at hb
    · cases hb
    · next hne => exact ⟨hb, hne⟩
  have hdrop : (setScan scan none s).Inv := by
    refine ⟨h.frames, ?_, ?_⟩
    · intro b selfb hb
      exact h.scans b selfb (hother b selfb hb).1
    · intro a selfa b selfb ha hb
      exact h.apart a selfa b selfb (hother a selfa ha).1 (hother b selfb hb).1
  apply hdrop.closeFile hw
  -- The object that goes was that of the scan that goes, and of no other.
  intro b selfb hb hfile
  obtain ⟨hb, hne⟩ := hother b selfb hb
  exact hne (h.apart b selfb scan self hb hself hfile)

end Inv

variable {s : ScanState D}

theorem withScan_inv {α : Type} (h : s.Inv) (scan : Nat) {x : Prog Exn (Scanning D) α}
    (hx : ∀ objects f, (objects f).isSome = true → Keeps (FileScan.ScanLive objects f) x) :
    wp (withScan scan x) (fun _ t => t.Inv) (onThrow fun _ t => t.Inv) s := by
  unfold withScan
  rw [wp_bind, wp_get]
  -- A scan that was never opened is undefined behaviour, of which nothing is said.
  cases hself : s.scans scan with
  | none => trivial
  | some self =>
      have hmove : ∀ t : Scanning D, FileScan.ScanLive s.world.sys.objects self.file t →
          (setScan scan (some t.scan) { s with world := { s.world with sys := t.sys } }).Inv :=
        fun t ht => Inv.updateScan (h.setWorld (w := { s.world with sys := t.sys }) ht.frames) hself
          ht.file
      dsimp only
      rw [wp_zoom]
      apply wp_mono (hx s.world.sys.objects self.file (h.scans scan self hself) ⟨self, s.world.sys⟩
        ⟨h.frames, rfl⟩)
      · exact fun _ t ht => hmove t ht
      · intro e t ht
        cases e with
        | throw _ => exact hmove t ht
        | _ => trivial

variable [DataArea D]

def run : ScanEvent D → Prog Exn (ScanState D) Unit
  | .openScan scan file name => do
    let self ← onWorld (FileScan.construct file name)
    modify (setScan scan (some self))
  | .scanNext scan rounds => do
    let _rid ← withScan scan (FileScan.scanNext rounds)
    pure ()
  | .markDirty scan => withScan scan FileScan.markDirty
  | .closeScan scan => do
    let s ← get
    match s.scans scan with
    | some self => do
      onWorld self.destroy
      modify (setScan scan none)
    | none => exit .undefined
  | .call op => do
    let _reply ← onWorld (World.onSys (P3.BufMgr.call op))
    pure ()
  | .openFile file kind filename createNew => onWorld (File.construct file kind filename createNew)
  | .closeFile file => onWorld (File.destroy file)
  | .removeFile filename => onWorld (File.remove filename)
  | .writeFile filename stream => onWorld (World.onSys (modify (Sys.setStream filename stream)))
  | .writeFrame frame page => onWorld (World.onSys (modify (Sys.setFrame frame page)))

def after (s : ScanState D) (e : ScanEvent D) : ScanState D := (run e s).2

/-- The events considered: a new object is put where there is none, calls are made with `File` objects
that exist, the object of a scan is its own, and the program goes on. -/
def Ok (s : ScanState D) (e : ScanEvent D) : Prop :=
  Proceeds (run e s).1 ∧
    match e with
    | .openScan scan file _ =>
      s.scans scan = none ∧ file ≠ 0 ∧ s.world.sys.objects file = none
    | .call op => (s.world.sys.objects op.file).isSome = true
    | .openFile file _ _ _ => file ≠ 0 ∧ s.world.sys.objects file = none
    | .closeFile file => (s.world.sys.objects file).isSome = true ∧
      ∀ scan self, s.scans scan = some self → self.file ≠ file
    | _ => True

/-- Among them, those that destroy no object with pages in the pool. -/
def OkClean (s : ScanState D) (e : ScanEvent D) : Prop :=
  s.Ok e ∧
    match e with
    | .closeScan scan => ∀ self, s.scans scan = some self → NotCached s.world.sys self.file
    | .closeFile file => NotCached s.world.sys file
    | _ => True

/-- No page in the pool outlives the object it was read through, and an object at a new address finds
none under it. -/
structure Safe (s : ScanState D) : Prop where
  frames : ∀ i, (s.world.sys.desc i).valid = true →
    (s.world.sys.objects (s.world.sys.desc i).file).isSome = true
  entries : ∀ f p i, s.world.sys.entry f p = some i → (s.world.sys.objects f).isSome = true
  fresh : ∀ scan file name, s.OkClean (.openScan scan file name) →
    NotCached (s.after (.openScan scan file name)).world.sys file ∧
      ∀ p, (s.after (.openScan scan file name)).world.sys.entry file p = none

/-!
## What an event keeps

An event may throw, and it keeps the invariant then too: a constructor that throws has put no object anywhere.
-/

/-- A new scan, with its own object, which is put where there is none. -/
theorem openScan_inv (h : s.Inv) (scan : Nat) {file : Nat} (name : FileName)
    (hnone : s.world.sys.objects file = none) :
    wp (run (.openScan scan file name)) (fun _ t => t.Inv) (onThrow fun _ t => t.Inv) s := by
  unfold run
  rw [wp_bind]
  unfold onWorld
  rw [wp_zoom]
  apply wp_mono (FileScan.construct_reopened file name s.world)
  · intro self w hw
    obtain ⟨rfl, hw⟩ := hw
    have hopen : Inv { s with world := w } := h.openFile hw
    rw [wp_modify]
    apply Inv.openScan hopen
    · dsimp only
      rw [hw.2, Function.update_self]
      rfl
    · -- no other scan has its object there, since its object would be live
      intro scan' self' hself' hfile
      have hlive := h.scans scan' self' hself'
      rw [hfile, hnone] at hlive
      cases hlive
  · intro e w hw
    cases e with
    | throw _ => exact h.setWorld (h.frames.of_mgr hw.1 hw.2 h.frames.live)
    | _ => trivial

/-- The destructor of a scan with no page in the pool. -/
theorem closeScan_inv (h : s.Inv) {scan : Nat}
    (hclean : ∀ self, s.scans scan = some self → NotCached s.world.sys self.file) :
    wp (run (.closeScan scan)) (fun _ t => t.Inv) (onThrow fun _ t => t.Inv) s := by
  unfold run
  rw [wp_bind, wp_get]
  cases hself : s.scans scan with
  | none => trivial
  | some self =>
      -- Its destructor takes the object away, with which no frame is concerned.
      obtain ⟨o, ho⟩ := Option.isSome_iff_exists.mp (h.scans scan self hself)
      dsimp only
      unfold onWorld
      rw [wp_bind, wp_zoom]
      apply wp_mono (FileScan.destroy_live h.frames (hclean self hself) ho)
      · intro _ w hw
        rw [wp_modify]
        exact h.closeScan hself hw
      · intro e w hw
        cases e with
        | throw _ => exact hw.elim
        | _ => trivial

theorem openFile_inv (h : s.Inv) (file : Nat) (kind : FileKind) (filename : FileName) (createNew : Bool) :
    wp (run (.openFile file kind filename createNew)) (fun _ t => t.Inv) (onThrow fun _ t => t.Inv) s := by
  unfold run onWorld
  rw [wp_zoom]
  apply wp_mono (construct_reopened file kind filename createNew s.world)
  · exact fun _ w hw => h.openFile hw
  · intro e w hw
    cases e with
    | throw _ => exact h.setWorld (h.frames.of_mgr hw.1 hw.2 h.frames.live)
    | _ => trivial

/-- An object goes that is of no scan and has no page in the pool. -/
theorem closeFile_inv (h : s.Inv) {file : Nat} (hsome : (s.world.sys.objects file).isSome = true)
    (hother : ∀ scan self, s.scans scan = some self → self.file ≠ file)
    (hclean : NotCached s.world.sys file) :
    wp (run (.closeFile file)) (fun _ t => t.Inv) (onThrow fun _ t => t.Inv) s := by
  unfold run onWorld
  rw [wp_zoom]
  obtain ⟨o, ho⟩ := Option.isSome_iff_exists.mp hsome
  obtain ⟨w, hdestroy, hmgr, hobjects⟩ := destroy_reopened ho
  rw [wp_of_ok hdestroy]
  apply h.closeFile _ hother
  apply h.frames.of_mgr hmgr hobjects
  -- A frame in use is not of this object, so its own object has stayed.
  intro i hi
  rw [Function.update_of_ne (hclean i hi)]
  exact h.frames.live i hi

/-- What one event keeps. -/
theorem run_inv (h : s.Inv) {e : ScanEvent D} (hok : s.OkClean e) :
    wp (run e) (fun _ t => t.Inv) (onThrow fun _ t => t.Inv) s := by
  obtain ⟨⟨_, hok⟩, hclean⟩ := hok
  -- Event by event.
  cases e with
  | openScan scan file name => exact openScan_inv h scan name hok.2.2
  | scanNext scan rounds =>
      unfold run
      rw [wp_bind]
      exact withScan_inv h scan fun _ _ hf => FileScan.scanNext_live hf rounds
  | markDirty scan =>
      exact withScan_inv h scan fun _ _ _ => FileScan.set_keeps fun _ => rfl
  | closeScan scan => exact closeScan_inv h hclean
  | call op =>
      unfold run onWorld World.onSys
      rw [wp_bind, wp_zoom, wp_zoom]
      apply wp_mono (call_live op hok s.world.sys h.frames)
      · intro _ t ht
        exact h.setWorld (w := { s.world with sys := t }) ht
      · intro e t ht
        cases e with
        | throw _ => exact h.setWorld (w := { s.world with sys := t }) ht
        | _ => trivial
  | openFile file kind filename createNew => exact openFile_inv h file kind filename createNew
  | closeFile file => exact closeFile_inv h hok.1 hok.2 hclean
  | removeFile filename =>
      unfold run onWorld File.remove
      -- A file that is open, or that does not exist, cannot be removed.
      rw [wp_zoom, wp_bind, wp_get, wp_ite, wp_ite]
      exact ⟨fun _ => h, fun _ => ⟨fun _ => h, fun _ => h.setWorld h.frames⟩⟩
  | writeFile filename stream =>
      exact h.setWorld (w := { s.world with sys := s.world.sys.setStream filename stream })
        (h.frames.setStreams _)
  | writeFrame frame page =>
      exact h.setWorld (w := { s.world with sys := s.world.sys.setFrame frame page })
        (h.frames.setFrame frame page)

theorem inv_after (h : s.Inv) {e : ScanEvent D} (hok : s.OkClean e) : (s.after e).Inv := by
  have hrun := run_inv h hok
  have hgo := hok.1.1
  show (run e s).2.Inv
  -- The event has thrown, and the program went on; or it has come to its end.
  rcases hr : run e s with ⟨e | _, t⟩
  · rw [wp_of_error hr] at hrun
    rw [hr] at hgo
    cases e with
    | throw _ => exact hrun
    | _ => exact hgo.elim
  · rw [wp_of_ok hr] at hrun
    exact hrun

/-- Creating a scan does not touch the pool. -/
theorem mgr_openScan (scan file : Nat) (name : FileName) :
    (s.after (.openScan scan file name)).world.sys.mgr = s.world.sys.mgr := by
  have hrun : wp (run (.openScan scan file name)) (fun _ t => t.world.sys.mgr = s.world.sys.mgr)
      (fun _ t => t.world.sys.mgr = s.world.sys.mgr) s := by
    unfold run
    rw [wp_bind]
    unfold onWorld
    rw [wp_zoom]
    apply wp_mono (FileScan.construct_reopened file name s.world)
    · exact fun self w hw => hw.2.1
    · exact fun e w hw => hw.1
  unfold after
  unfold wp at hrun
  split at hrun
  · next hr =>
      rw [hr]
      exact hrun
  · next hr =>
      rw [hr]
      exact hrun

theorem safe_of_inv (h : s.Inv) : s.Safe where
  frames := h.frames.live
  entries f p i hi := h.frames.entries hi
  fresh scan file name hok := by
    obtain ⟨⟨_, _, _, hnone⟩, _⟩ := hok
    have hmgr := mgr_openScan (s := s) scan file name
    have hlive : FramesLive s.world.sys.objects
        { (s.after (.openScan scan file name)).world.sys with objects := s.world.sys.objects } :=
      h.frames.of_mgr hmgr rfl h.frames.live
    constructor
    · -- A frame under the address would have a live object there, and there was none.
      intro i hi hfile
      have hsome := hlive.live i hi
      dsimp only [Sys.desc] at hsome hfile
      rw [hfile, hnone] at hsome
      cases hsome
    · intro p
      by_contra hentry
      obtain ⟨i, hi⟩ := Option.ne_none_iff_exists'.mp hentry
      have hsome := hlive.entries (f := file) (p := p) (i := i) hi
      rw [hnone] at hsome
      cases hsome

/-- **No cached page outlives its file object**, in every run that destroys no object with pages in the
pool. -/
theorem noOutliving (streams : FileName → FStream D) (onDisk : FileName → Bool) (bufs : Nat)
    (hbufs : 1 ≤ bufs) {events : List (ScanEvent D)} {s : ScanState D}
    (h : Run (Run.guarded OkClean after) (new streams onDisk bufs) events s) : s.Safe := by
  apply safe_of_inv
  apply h.invariant
  · -- At first there are no frames in use and no scans.
    refine ⟨⟨(pinInv_new _ streams hbufs).pool, rfl, ?_⟩, ?_, ?_⟩
    · intro i hi
      cases hi
    · intro _ _ hself
      cases hself
    · intro _ _ _ _ hself
      cases hself
  · intro s e t hs hstep
    obtain ⟨hok, rfl⟩ := hstep
    exact inv_after hs hok

/-- A relation of one page with one record. -/
def relation (recordData : List UInt8) : FStream CharArea where
  header := ⟨2, 1, 0, 0⟩
  page := fun _ => (Page.insertRecord recordData (Page.init.setPageNumber 1)).2
  size := fileHeaderSize + pageSize
  failbit := false
  sticky := true
  junkHeader := ⟨0, 0, 0, 0⟩
  junkPageHeader := ⟨0, 0, 0, 0, 0, 0⟩

/-- One frame: a relation is scanned to its end, its page makes room for another one, and the scan is
destroyed. -/
theorem noOutliving_evicts :
    let start : ScanState CharArea := new (fun _ => relation [1]) (fun name => name == "f") 1
    let events : List (ScanEvent CharArea) :=
      [.openScan 10 1 "f", .scanNext 10 2, .scanNext 10 2, .openFile 2 .page "g" true,
        .call (.allocPage 2), .closeScan 10]
    let s := events.foldl after start
    s.world.sys.objects 1 = none ∧ s.world.sys.entry 2 1 = some 0 ∧ s.Safe := by
  refine ⟨by rfl, by rfl, noOutliving (fun _ => relation [1]) (fun name => name == "f") 1 (by decide)
    (Run.of_allOk ?_)⟩
  refine ⟨⟨⟨trivial, rfl, by decide, rfl⟩, trivial⟩, ⟨⟨trivial, trivial⟩, trivial⟩,
    ⟨⟨trivial, trivial⟩, trivial⟩, ⟨⟨trivial, by decide, rfl⟩, trivial⟩, ⟨⟨trivial, rfl⟩, trivial⟩,
    ⟨⟨trivial, trivial⟩, ?_⟩, trivial⟩
  intro self hself i hi
  cases hself
  rcases i with _ | i
  · decide
  · cases hi

/-- A scan reads the page of a relation and is destroyed; the page stays in its frame. The relation is
removed and made anew, and the `PageFile` of the next scan is put where that of the first one was: the
scan returns the record of the old relation. -/
theorem noOutliving_scan :
    let start : ScanState CharArea := new (fun _ => relation [1]) (fun name => name == "f") 1
    let events : List (ScanEvent CharArea) := [.openScan 10 1 "f", .scanNext 10 1, .closeScan 10]
    let later : List (ScanEvent CharArea) :=
      [.removeFile "f", .openFile 2 .page "f" true, .writeFile "f" (relation [2]), .closeFile 2,
        .openScan 10 1 "f", .scanNext 10 1]
    let s := events.foldl after start
    let t := later.foldl after s
    Run (Run.guarded Ok after) start events s ∧ ¬ s.Safe ∧ Run (Run.guarded Ok after) s later t ∧
      (∃ scan, t.scans 10 = some scan ∧ (scan.pageRecordIter.getRecord t.world.sys).1 = .ok [1]) ∧
      (Page.getRecord ⟨1, 1⟩ ((t.world.sys.streams "f").page 1)).1 = .ok [2] := by
  refine ⟨Run.of_allOk ?_, ?_, Run.of_allOk ?_, ⟨_, by rfl, by rfl⟩, by rfl⟩
  · exact ⟨⟨trivial, rfl, by decide, rfl⟩, ⟨trivial, trivial⟩, ⟨trivial, trivial⟩, trivial⟩
  · -- The frame is in use, and its object is gone.
    intro hsafe
    have hlive := hsafe.frames 0 (by rfl)
    cases hlive
  · refine ⟨⟨trivial, trivial⟩, ⟨trivial, by decide, rfl⟩, ⟨trivial, trivial⟩, ⟨trivial, rfl, ?_⟩,
      ⟨trivial, rfl, by decide, rfl⟩, ⟨trivial, trivial⟩, trivial⟩
    intro scan self hself
    have hscans : Function.update (Function.update (Function.update (fun _ => none) 10 _) 10 _) 10
        none scan = some self := hself
    -- There is no scan left.
    by_cases hscan : scan = 10
    · rw [hscan, Function.update_self] at hscans
      cases hscans
    · rw [Function.update_of_ne hscan, Function.update_of_ne hscan,
        Function.update_of_ne hscan] at hscans
      cases hscans

end ScanState

end CS640.Badger
