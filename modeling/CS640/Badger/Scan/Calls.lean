import CS640.Badger.Buffer.Lifetime
import CS640.Badger.Scan.FileScan

/-!
# What scans do to the pool

A scan puts pages into the pool under its own `File` object only, and neither opening nor closing files
touches the pool. If a scan is destroyed when no page of its object is in the pool, then no frame is
left without its object.

A scan is built of small steps on the pool, the `File` object and its own members. Whether an invariant of the pool
survives it is shown step by step (`Keeps`), without following what is read: only `readPage` and `unPinPage` change
the pool, and they are called with the object of the scan (`ScanLive`).
-/

namespace CS640.Badger

open CS640.Lib Prog
open CS640.Badger.BufMgr CS640.Badger.P3.BufMgr

variable {D : Type}

/-! ## Scans

`FramesLive` says that the frames in use have pages of `File` objects that exist. A scan keeps its own object, so
what its members do keeps `FramesLive`.
-/

/-- No frame holds a page of the object at `file`. -/
def NotCached (s : Sys D) (file : Nat) : Prop := ∀ i, (s.desc i).valid = true → (s.desc i).file ≠ file

section Scan

variable {objects : Nat → Option FileObject} {f : Nat} {α : Type}

theorem onFile_live (f : Nat) (x : FileObject → Prog Exn (FStream D) α) :
    Keeps (FramesLive (D := D) objects) (onFile f x) :=
  onFile_keeps (fun _ streams h => h.setStreams streams) f x

namespace PageIterator

variable {I : Sys D → Prop}

theorem deref_keeps (page : Option Nat) : Keeps I (deref page) := by
  apply Keeps.get.bind
  intro s
  cases page with
  | some i => exact Keeps.pure _
  | none => exact Keeps.exit _

theorem atEnd_keeps (iter : PageIterator) (page : Option Nat) : Keeps I (iter.atEnd page) :=
  (deref_keeps page).bind fun _ => (deref_keeps _).bind fun _ => Keeps.pure _

end PageIterator

namespace FileScan

/-- A scan on the object at `f`. -/
structure ScanLive (objects : Nat → Option FileObject) (f : Nat) (t : Scanning D) : Prop where
  frames : FramesLive objects t.sys
  file : t.scan.file = f

theorem onSys_keeps {x : Prog Exn (Sys D) α} (hx : Keeps (FramesLive objects) x) :
    Keeps (ScanLive objects f) (onSys x) := by
  apply hx.zoom
  · exact fun _ h => h.frames
  · exact fun _ _ h h' => ⟨h', h.file⟩

theorem set_keeps {g : FileScan → FileScan} (hg : ∀ scan, (g scan).file = scan.file) :
    Keeps (ScanLive (D := D) objects f) (set g) :=
  Keeps.modify fun t h => ⟨h.frames, (hg t.scan).trans h.file⟩

theorem set_bind {g : FileScan → FileScan} {x : Prog Exn (Scanning D) α}
    (hg : ∀ scan, (g scan).file = scan.file) (hx : Keeps (ScanLive objects f) x) :
    Keeps (ScanLive objects f) (do set g; x) :=
  (set_keeps hg).bind fun _ => hx

theorem self_bind {x : FileScan → Prog Exn (Scanning D) α}
    (hx : ∀ scan, scan.file = f → Keeps (ScanLive objects f) (x scan)) :
    Keeps (ScanLive objects f) (self >>= x) := by
  intro t h
  exact hx t.scan h.file t h

theorem recordsDone_live : Keeps (ScanLive (D := D) objects f) recordsDone :=
  self_bind fun _ _ => onSys_keeps (PageIterator.atEnd_keeps _ _)

end FileScan

variable [DataArea D]

namespace PageIterator

variable {I : Sys D → Prop}

theorem begin_keeps (page : Option Nat) : Keeps I (begin page) :=
  (deref_keeps page).bind fun _ => Keeps.pure _

theorem next_keeps (iter : PageIterator) : Keeps I iter.next := by
  apply Keeps.bind
  · exact Keeps.ite (fun _ => Keeps.pure _) fun _ => Keeps.exit _
  · exact fun _ => (deref_keeps _).bind fun _ => Keeps.pure _

theorem getRecord_live (iter : PageIterator) :
    Keeps (FramesLive (D := D) objects) iter.getRecord := by
  unfold getRecord
  -- through the null pointer the call is undefined
  cases iter.page with
  | none => exact Keeps.exit _
  | some i =>
      apply Keeps.zoom (J := fun _ => True)
      · intro p _
        unfold wp
        split <;> trivial
      · exact fun _ _ => trivial
      · exact fun _ pg h _ => h.setFrame i pg

end PageIterator

namespace FileScan

theorem beginRecords_live : Keeps (ScanLive (D := D) objects f) beginRecords := by
  apply self_bind
  intro scan _
  apply (onSys_keeps (PageIterator.begin_keeps _)).bind
  exact fun _ => set_keeps fun _ => rfl

theorem current_live : Keeps (ScanLive (D := D) objects f) current :=
  self_bind fun _ _ => (onSys_keeps (PageIterator.getRecord_live _)).bind fun _ => Keeps.pure _

section Members

variable (hf : (objects f).isSome = true)

include hf

theorem readCurrent_live : Keeps (ScanLive (D := D) objects f) readCurrent := by
  apply self_bind
  intro scan hscan
  apply (onSys_keeps ((onFile_live _ _).bind fun _ => Keeps.pure _)).bind
  intro pageNo
  apply (onSys_keeps (readPage_live (by rw [hscan]; exact hf) pageNo)).bind
  intro frame
  exact set_keeps fun _ => rfl

theorem advance_live (rounds : Nat) : Keeps (ScanLive (D := D) objects f) (advance rounds) := by
  -- over the rounds: at the end of a page the scan goes on to the next one
  induction rounds with
  | zero => exact Keeps.exit _
  | succ rounds ih =>
      apply recordsDone_live.bind
      intro done
      apply Keeps.ite
      · intro _
        apply self_bind
        intro scan hscan
        apply (onSys_keeps ((onFile_live _ _).bind fun _ => Keeps.pure _)).bind
        intro pageNo
        apply (onSys_keeps (unPinPage_live (by rw [hscan]; exact hf) pageNo _)).bind
        intro _
        refine set_bind ?_ ?_
        · exact fun _ => rfl
        apply (onSys_keeps (onFile_live _ _)).bind
        intro header
        refine set_bind ?_ ?_
        · exact fun _ => rfl
        apply Keeps.ite
        · exact fun _ => Keeps.throw _
        · exact fun _ => (readCurrent_live hf).bind fun _ => beginRecords_live.bind fun _ => ih
      · exact fun _ => current_live

theorem nextRecord_live (rounds : Nat) : Keeps (ScanLive (D := D) objects f) (nextRecord rounds) := by
  apply self_bind
  intro scan _
  apply (onSys_keeps (PageIterator.next_keeps _)).bind
  intro iter
  exact set_bind (fun _ => rfl) (advance_live hf rounds)

/-- `scanNext` puts no pages into the pool but under its own object. -/
theorem scanNext_live (rounds : Nat) : Keeps (ScanLive (D := D) objects f) (scanNext rounds) := by
  apply self_bind
  intro scan _
  -- at the end of the file nothing is read; otherwise it is the first call, or a later one
  apply Keeps.ite
  · exact fun _ => Keeps.throw _
  · intro _
    apply Keeps.ite
    · intro _
      apply (onSys_keeps ((onFile_live _ _).bind fun _ => Keeps.pure _)).bind
      intro iter
      refine set_bind ?_ ?_
      · exact fun _ => rfl
      apply Keeps.ite
      · exact fun _ => Keeps.throw _
      · intro _
        apply (readCurrent_live hf).bind
        intro _
        refine set_bind ?_ ?_
        · exact fun _ => rfl
        apply beginRecords_live.bind
        intro _
        apply recordsDone_live.bind
        intro done
        exact Keeps.ite (fun _ => current_live) fun _ => nextRecord_live hf rounds
    · exact fun _ => nextRecord_live hf rounds

end Members

end FileScan

end Scan

/-! ## Opening and closing

Constructors and destructors change the `File` objects and the streams. If the frames are to have live objects
afterwards, then the object that goes away must have had no page in the pool.
-/

/-- From `w` only files have been opened or closed, and the `File` objects are `objects`. -/
def Reopened (w : World D) (objects : Nat → Option FileObject) (w' : World D) : Prop :=
  w'.sys.mgr = w.sys.mgr ∧ w'.sys.objects = objects

theorem openIfNeeded_reopened [DataArea D] (filename : FileName) (createNew : Bool) (w : World D) :
    wp (File.openIfNeeded filename createNew) (fun _ w' => Reopened w w.sys.objects w')
      (fun _ w' => Reopened w w.sys.objects w') w := by
  unfold File.openIfNeeded
  rw [wp_bind, wp_get, wp_ite]
  -- the file is open already, or it is opened or created
  refine ⟨fun _ => ⟨rfl, rfl⟩, fun _ => ?_⟩
  rw [wp_ite]
  constructor
  · intro _
    rw [wp_ite]
    exact ⟨fun _ => ⟨rfl, rfl⟩, fun _ => ⟨rfl, rfl⟩⟩
  · intro _
    rw [wp_ite]
    exact ⟨fun _ => ⟨rfl, rfl⟩, fun _ => ⟨rfl, rfl⟩⟩

theorem construct_reopened [DataArea D] (file : Nat) (kind : FileKind) (filename : FileName)
    (createNew : Bool) (w : World D) :
    wp (File.construct file kind filename createNew)
      (fun _ w' => Reopened w (Function.update w.sys.objects file (some ⟨kind, filename⟩)) w')
      (fun _ w' => Reopened w w.sys.objects w') w := by
  unfold File.construct
  rw [wp_bind]
  apply wp_mono (openIfNeeded_reopened filename createNew w) _ fun _ _ he => he
  intro _ w' hw
  obtain ⟨hmgr, hobjects⟩ := hw
  rw [wp_bind, wp_modify, wp_ite]
  have hset : Reopened w (Function.update w.sys.objects file (some ⟨kind, filename⟩))
      (w'.setObject file (some ⟨kind, filename⟩)) :=
    ⟨hmgr, by rw [← hobjects]; rfl⟩
  -- a new file gets its header
  refine ⟨fun _ => ?_, fun _ => hset⟩
  have hobject : (w'.setObject file (some ⟨kind, filename⟩)).sys.objects file =
      some ⟨kind, filename⟩ := by
    rw [hset.2, Function.update_self]
  unfold World.onSys
  rw [wp_zoom, wp_onFile hobject]
  unfold wp FStream.writeHeader
  dsimp only
  split
  · next heq =>
      split at heq <;> exact hset
  · next heq =>
      split at heq <;> cases heq

theorem destroy_reopened {file : Nat} {object : FileObject} {w : World D}
    (h : w.sys.objects file = some object) :
    ∃ w', File.destroy file w = (.ok (), w') ∧
      Reopened w (Function.update w.sys.objects file none) w' := by
  have hname : World.onSys (filename file) w = (.ok object.filename, w) := by
    unfold World.onSys zoom
    rw [filename_apply h]
  unfold File.destroy
  rw [bind_of_ok hname, bind_of_ok (get_apply w), bind_of_ok (modify_apply _ w)]
  exact ⟨_, rfl, rfl, rfl⟩

namespace FileScan

/-- A new scan has the object it was given the address of, and has read nothing. -/
theorem construct_reopened [DataArea D] (file : Nat) (name : FileName) (w : World D) :
    wp (construct file name)
      (fun scan w' => scan.file = file ∧
        Reopened w (Function.update w.sys.objects file (some ⟨.page, name⟩)) w')
      (fun _ w' => Reopened w w.sys.objects w') w := by
  unfold construct
  rw [wp_bind]
  apply wp_mono (Badger.construct_reopened file .page name false w) _ fun _ _ he => he
  intro _ w' hw
  have hobject : w'.sys.objects file = some ⟨.page, name⟩ := by
    rw [hw.2, Function.update_self]
  rw [wp_bind]
  unfold World.onSys PageFile.begin
  rw [wp_zoom, wp_bind, wp_onFile hobject]
  unfold wp FStream.readHeader
  dsimp only
  split
  · next heq =>
      split at heq <;> exact ⟨rfl, hw⟩
  · next heq =>
      split at heq <;> cases heq

/-- A page that is not in the pool is not unpinned. -/
theorem unPinPage_notCached {objects : Nat → Option FileObject} {f : Nat}
    (hf : (objects f).isSome = true) (p : Nat) (dirty : Bool) :
    Keeps (fun s : Sys D => FramesLive objects s ∧ NotCached s f) (unPinPage f p dirty) := by
  intro s h
  obtain ⟨h, hclean⟩ := h
  obtain ⟨object, hobject⟩ := Option.isSome_iff_exists.mp hf
  have hnone : s.entry f p = none := by
    -- otherwise a frame would hold a page of the object
    by_contra hentry
    obtain ⟨i, hi⟩ := Option.ne_none_iff_exists'.mp hentry
    obtain ⟨hv, hfile, _⟩ := h.pool.entry f p i hi
    exact hclean i hv hfile
  have hobject' : s.objects f = some object := by
    rw [h.same]
    exact hobject
  have hmissing := lookup_missing hobject' hnone
  unfold unPinPage
  rw [wp_bind, wp_of_error hmissing]
  exact ⟨h, hclean⟩

/-- If no page of its object is in the pool, then the destructor takes the object away and nothing
else; a page that is still pinned ends the program. -/
theorem destroy_live [DataArea D] {scan : FileScan} {w : World D} {o : FileObject}
    (h : FramesLive w.sys.objects w.sys) (hclean : NotCached w.sys scan.file)
    (ho : w.sys.objects scan.file = some o) :
    wp scan.destroy
      (fun _ w' => FramesLive (Function.update w.sys.objects scan.file none) w'.sys)
      (onThrow fun _ _ => False) w := by
  have hend : ∀ w' : World D, w'.sys.objects = w.sys.objects → FramesLive w.sys.objects w'.sys →
      NotCached w'.sys scan.file →
      wp (File.destroy scan.file)
        (fun _ w' => FramesLive (Function.update w.sys.objects scan.file none) w'.sys)
        (onThrow fun _ _ => False) w' := by
    intro w' hobjects hlive hclean
    obtain ⟨w'', hdestroy, hmgr, hobj⟩ := destroy_reopened (w := w') (by rw [hobjects]; exact ho)
    rw [wp_of_ok hdestroy]
    rw [hobjects] at hobj
    refine hlive.of_mgr hmgr hobj ?_
    intro i hi
    rw [Function.update_of_ne (hclean i hi)]
    exact hlive.live i hi
  have hstreams : ∀ (s : Sys D) streams,
      FramesLive w.sys.objects s ∧ NotCached s scan.file →
        FramesLive w.sys.objects (s.setStreams streams) ∧
          NotCached (s.setStreams streams) scan.file :=
    fun s streams h => ⟨h.1.setStreams streams, h.2⟩
  have hunpin : Keeps (fun w' : World D => FramesLive w.sys.objects w'.sys ∧
      NotCached w'.sys scan.file) (World.onSys do
        let pageNo ← pageNumber scan
        unPinPage scan.file pageNo scan.curDirtyFlag
        let _iter ← PageFile.begin scan.file
        pure ()) := by
    apply Keeps.zoom (J := fun s => FramesLive w.sys.objects s ∧ NotCached s scan.file)
    · apply ((onFile_keeps hstreams _ _).bind fun _ => Keeps.pure _).bind
      intro pageNo
      apply (unPinPage_notCached (by rw [ho]; rfl) pageNo _).bind
      intro _
      exact ((onFile_keeps hstreams _ _).bind fun _ => Keeps.pure _).bind fun _ => Keeps.pure _
    · exact fun _ h => h
    · exact fun _ _ _ h => h
  unfold destroy
  dsimp only
  -- the page that was read last is unpinned, if any was read; then the object goes
  rw [wp_ite]
  refine ⟨fun _ => ?_, fun _ => hend w rfl h hclean⟩
  rw [wp_bind, wp_tryCatch]
  apply wp_mono (hunpin w ⟨h, hclean⟩)
  · intro _ w' hw
    exact hend w' hw.1.same hw.1 hw.2
  · intro e w' _
    cases e <;> trivial

end FileScan

end CS640.Badger
