import CS640.Badger.File.BlobFile
import CS640.Lib.ChainedTable
import Mathlib.Algebra.Group.Nat.Defs

/-!
# The buffer pool

The data of a `BufMgr`, shared by the two versions: the frames, their descriptors and the hash table,
in a system with the `File` objects that exist and the streams under them. `File` objects are known
by their address; a call through a pointer that points to none is undefined behaviour.

`pinCnt` is an `int` in the source. It is a natural number here, so a page is taken to be pinned less
than `2 ^ 31` times. The counters of `BufStats`, which no call reads, are
kept apart, in `Metered`.

Both versions are written over the functions below and use no other access to a pool. Each of them has a rule for
every way in which it can end (`section Rules`), and a rule for what it keeps (`section Keep`), so no proof about
the pool unfolds them.
-/

namespace CS640.Badger

open CS640.Lib Prog

/-- `BufDesc`, without the statistics. -/
structure BufDesc where
  file : Nat
  pageNo : Nat
  frameNo : Nat
  pinCnt : Nat
  dirty : Bool
  valid : Bool
  refbit : Bool
  deriving DecidableEq, Repr

namespace BufDesc

/-- `BufDesc::Clear`. -/
def clear (d : BufDesc) : BufDesc :=
  { d with
    pinCnt := 0
    file := 0
    pageNo := invalidNumber
    dirty := false
    refbit := false
    valid := false }

/-- `BufDesc::Set`. -/
def set (file pageNum : Nat) (d : BufDesc) : BufDesc :=
  { d with
    file := file
    pageNo := pageNum
    pinCnt := 1
    dirty := false
    valid := true
    refbit := true }

end BufDesc

/-- `BufHashTbl::hash`. The address is cut down to 32 bits. -/
def BufHashTbl.hash (htsize : Nat) (k : Nat × Nat) : Nat := (k.1 + k.2) % 2 ^ 32 % htsize

/-- The members of `BufMgr`. -/
structure BufMgr (D : Type) where
  clockHand : Nat
  numBufs : Nat
  hashTable : ChainedTable (Nat × Nat) Nat
  bufDescTable : Nat → BufDesc
  bufPool : Nat → Page D

/-- `BufMgr::BufMgr`. The factor `1.2` is a `double` in the source; rounding down its products gives
the number below for every pool that fits into memory. -/
def BufMgr.new {D : Type} [PageData D] (bufs : Nat) : BufMgr D where
  clockHand := bufs - 1
  numBufs := bufs
  hashTable := .empty (BufHashTbl.hash (bufs * 12 / 10 * 2 / 2 + 1))
  bufDescTable := fun i => ⟨0, invalidNumber, i, 0, false, false, false⟩
  bufPool := fun _ => Page.init

/-- The `File` objects by their addresses, the streams by the names of the files, and the pool. -/
structure Sys (D : Type) where
  objects : Nat → Option FileObject
  streams : FileName → FStream D
  mgr : BufMgr D

namespace Sys

variable {D : Type}

/-- Descriptor `i`. -/
def desc (s : Sys D) (i : Nat) : BufDesc := s.mgr.bufDescTable i

/-- Frame `i`. -/
def frame (s : Sys D) (i : Nat) : Page D := s.mgr.bufPool i

/-- The frame that the hash table has for a page. -/
def entry (s : Sys D) (file pageNo : Nat) : Option Nat := s.mgr.hashTable.get (file, pageNo)

def clockHand (s : Sys D) : Nat := s.mgr.clockHand

def numBufs (s : Sys D) : Nat := s.mgr.numBufs

def setDesc (i : Nat) (f : BufDesc → BufDesc) (s : Sys D) : Sys D :=
  { s with mgr := { s.mgr with
      bufDescTable := Function.update s.mgr.bufDescTable i (f (s.mgr.bufDescTable i)) } }

def setFrame (i : Nat) (page : Page D) (s : Sys D) : Sys D :=
  { s with mgr := { s.mgr with bufPool := Function.update s.mgr.bufPool i page } }

def setClockHand (n : Nat) (s : Sys D) : Sys D := { s with mgr := { s.mgr with clockHand := n } }

def putEntry (file pageNo frameNo : Nat) (s : Sys D) : Sys D :=
  { s with mgr := { s.mgr with hashTable := s.mgr.hashTable.insert (file, pageNo) frameNo } }

def dropEntry (file pageNo : Nat) (s : Sys D) : Sys D :=
  { s with mgr := { s.mgr with hashTable := s.mgr.hashTable.erase (file, pageNo) } }

def setStreams (streams : FileName → FStream D) (s : Sys D) : Sys D := { s with streams := streams }

def setStream (filename : FileName) (stream : FStream D) (s : Sys D) : Sys D :=
  { s with streams := Function.update s.streams filename stream }

/-! ## What an update leaves alone

The state has six parts, and an update changes one of them. One lemma for each part and each update says so; those
that leave the part alone hold by `rfl` and are simp lemmas.
-/

section Fields

variable (s : Sys D) (i j : Nat) (f : BufDesc → BufDesc) (pg : Page D) (file pageNo file' pageNo' : Nat)
  (fn : FileName) (st : FStream D)

@[simp] theorem desc_setStreams (σ : FileName → FStream D) :
    (s.setStreams σ).desc j = s.desc j := rfl
@[simp] theorem frame_setStreams (σ : FileName → FStream D) :
    (s.setStreams σ).frame j = s.frame j := rfl
@[simp] theorem entry_setStreams (σ : FileName → FStream D) :
    (s.setStreams σ).entry file pageNo = s.entry file pageNo := rfl
@[simp] theorem objects_setStreams (σ : FileName → FStream D) :
    (s.setStreams σ).objects = s.objects := rfl
@[simp] theorem streams_setStreams (σ : FileName → FStream D) :
    (s.setStreams σ).streams = σ := rfl
@[simp] theorem numBufs_setStreams (σ : FileName → FStream D) :
    (s.setStreams σ).numBufs = s.numBufs := rfl
@[simp] theorem clockHand_setStreams (σ : FileName → FStream D) :
    (s.setStreams σ).clockHand = s.clockHand := rfl

theorem desc_setDesc :
    (s.setDesc i f).desc j = if j = i then f (s.desc i) else s.desc j := by
  -- the entry that is updated, and the others
  by_cases h : j = i
  · subst h
    simp [desc, setDesc]
  · simp [desc, setDesc, h]

theorem setDesc_setDesc (g : BufDesc → BufDesc) :
    (s.setDesc i f).setDesc i g = s.setDesc i (g ∘ f) := by
  simp [setDesc]

theorem setDesc_dropEntry :
    (s.setDesc i f).dropEntry file pageNo = (s.dropEntry file pageNo).setDesc i f := rfl

theorem setDesc_eq_self {s : Sys D} {i : Nat} (h : f (s.desc i) = s.desc i) :
    s.setDesc i f = s := by
  have hupdate : Function.update s.mgr.bufDescTable i (f (s.mgr.bufDescTable i)) =
      s.mgr.bufDescTable := by
    rw [show f (s.mgr.bufDescTable i) = s.mgr.bufDescTable i from h]
    exact Function.update_eq_self i _
  rw [setDesc, hupdate]

theorem setStream_self : s.setStream fn (s.streams fn) = s := by
  rw [setStream, Function.update_eq_self]

theorem setFrame_self : s.setFrame i (s.frame i) = s := by
  rw [setFrame, frame, Function.update_eq_self]

@[simp] theorem desc_setFrame : (s.setFrame i pg).desc j = s.desc j := rfl
@[simp] theorem desc_setClockHand : (s.setClockHand i).desc j = s.desc j := rfl
@[simp] theorem desc_putEntry : (s.putEntry file pageNo i).desc j = s.desc j := rfl
@[simp] theorem desc_dropEntry : (s.dropEntry file pageNo).desc j = s.desc j := rfl
@[simp] theorem desc_setStream : (s.setStream fn st).desc j = s.desc j := rfl

theorem frame_setFrame :
    (s.setFrame i pg).frame j = if j = i then pg else s.frame j := by
  by_cases h : j = i
  · subst h
    simp [frame, setFrame]
  · simp [frame, setFrame, h]

@[simp] theorem frame_setDesc : (s.setDesc i f).frame j = s.frame j := rfl

/-- The page of a frame that was loaded. -/
theorem frame_loaded {pg : Page D} : ((s.setFrame i pg).setDesc i f).frame i = pg := by
  rw [frame_setDesc, frame_setFrame, if_pos rfl]
@[simp] theorem frame_setClockHand : (s.setClockHand i).frame j = s.frame j := rfl
@[simp] theorem frame_putEntry : (s.putEntry file pageNo i).frame j = s.frame j := rfl
@[simp] theorem frame_dropEntry : (s.dropEntry file pageNo).frame j = s.frame j := rfl
@[simp] theorem frame_setStream : (s.setStream fn st).frame j = s.frame j := rfl

theorem entry_putEntry {s : Sys D} {file pageNo : Nat} (h : s.entry file pageNo = none) :
    (s.putEntry file pageNo i).entry file' pageNo' =
      if file' = file ∧ pageNo' = pageNo then some i else s.entry file' pageNo' := by
  simp only [entry, putEntry, ChainedTable.get_insert h, Prod.mk.injEq]

theorem entry_dropEntry :
    (s.dropEntry file pageNo).entry file' pageNo' =
      if file' = file ∧ pageNo' = pageNo then none else s.entry file' pageNo' := by
  simp only [entry, dropEntry, ChainedTable.get_erase, Prod.mk.injEq]

@[simp] theorem entry_setDesc : (s.setDesc i f).entry file pageNo = s.entry file pageNo := rfl
@[simp] theorem entry_setFrame : (s.setFrame i pg).entry file pageNo = s.entry file pageNo := rfl
@[simp] theorem entry_setClockHand : (s.setClockHand i).entry file pageNo = s.entry file pageNo := rfl
@[simp] theorem entry_setStream : (s.setStream fn st).entry file pageNo = s.entry file pageNo := rfl

@[simp] theorem objects_setDesc : (s.setDesc i f).objects = s.objects := rfl
@[simp] theorem objects_setFrame : (s.setFrame i pg).objects = s.objects := rfl
@[simp] theorem objects_setClockHand : (s.setClockHand i).objects = s.objects := rfl
@[simp] theorem objects_putEntry : (s.putEntry file pageNo i).objects = s.objects := rfl
@[simp] theorem objects_dropEntry : (s.dropEntry file pageNo).objects = s.objects := rfl
@[simp] theorem objects_setStream : (s.setStream fn st).objects = s.objects := rfl

@[simp] theorem streams_setDesc : (s.setDesc i f).streams = s.streams := rfl
@[simp] theorem streams_setFrame : (s.setFrame i pg).streams = s.streams := rfl
@[simp] theorem streams_setClockHand : (s.setClockHand i).streams = s.streams := rfl
@[simp] theorem streams_putEntry : (s.putEntry file pageNo i).streams = s.streams := rfl
@[simp] theorem streams_dropEntry : (s.dropEntry file pageNo).streams = s.streams := rfl

@[simp] theorem numBufs_setDesc : (s.setDesc i f).numBufs = s.numBufs := rfl
@[simp] theorem numBufs_setFrame : (s.setFrame i pg).numBufs = s.numBufs := rfl
@[simp] theorem numBufs_setClockHand : (s.setClockHand i).numBufs = s.numBufs := rfl
@[simp] theorem numBufs_putEntry : (s.putEntry file pageNo i).numBufs = s.numBufs := rfl
@[simp] theorem numBufs_dropEntry : (s.dropEntry file pageNo).numBufs = s.numBufs := rfl
@[simp] theorem numBufs_setStream : (s.setStream fn st).numBufs = s.numBufs := rfl

@[simp] theorem clockHand_setDesc : (s.setDesc i f).clockHand = s.clockHand := rfl
@[simp] theorem clockHand_setFrame : (s.setFrame i pg).clockHand = s.clockHand := rfl
@[simp] theorem clockHand_setClockHand : (s.setClockHand i).clockHand = i := rfl
@[simp] theorem clockHand_putEntry : (s.putEntry file pageNo i).clockHand = s.clockHand := rfl
@[simp] theorem clockHand_dropEntry : (s.dropEntry file pageNo).clockHand = s.clockHand := rfl
@[simp] theorem clockHand_setStream : (s.setStream fn st).clockHand = s.clockHand := rfl

end Fields

end Sys

/-! ## What a pool does to itself and to its files

Calls through a `File` pointer and the member functions of the hash table. Their errors carry the name of the file,
so even `lookup` follows the pointer when it fails, and is undefined where there is no object.
-/

namespace BufMgr

variable {D : Type}

/-- `file->filename()`. -/
def filename (file : Nat) : Prog Exn (Sys D) FileName := do
  let s ← get
  match s.objects file with
  | some object => pure object.filename
  | none => exit .undefined

/-- A member function of the `File` object at `file`. -/
def onFile {α : Type} (file : Nat) (x : FileObject → Prog Exn (FStream D) α) :
    Prog Exn (Sys D) α := do
  let s ← get
  match s.objects file with
  | some object => zoom (fun t => t.streams object.filename) (Sys.setStream object.filename) (x object)
  | none => exit .undefined

/-- `BufHashTbl::lookup`. -/
def lookup (file pageNo : Nat) : Prog Exn (Sys D) Nat := do
  let s ← get
  match s.entry file pageNo with
  | some frameNo => pure frameNo
  | none =>
    let name ← filename file
    throw (.hashNotFound name pageNo)

/-- `BufHashTbl::insert`. -/
def insert (file pageNo frameNo : Nat) : Prog Exn (Sys D) Unit := do
  let s ← get
  match s.entry file pageNo with
  | some present =>
    let name ← filename file
    throw (.hashAlreadyPresent name pageNo present)
  | none => modify (Sys.putEntry file pageNo frameNo)

/-- `BufHashTbl::remove`. -/
def remove (file pageNo : Nat) : Prog Exn (Sys D) Unit := do
  let s ← get
  match s.entry file pageNo with
  | some _ => modify (Sys.dropEntry file pageNo)
  | none =>
    let name ← filename file
    throw (.hashNotFound name pageNo)

/-- `BufMgr::advanceClock`. -/
def advanceClock : Prog Exn (Sys D) Unit := do
  let s ← get
  modify (Sys.setClockHand ((s.clockHand + 1) % s.numBufs))

/-- The handler of `catch (HashNotFoundException)`. -/
def onHashNotFound {α : Type} (x : Prog Exn (Sys D) α) : Exn → Option (Prog Exn (Sys D) α)
  | .hashNotFound _ _ => some x
  | _ => none

section Rules

variable {α : Type} {Q : α → Sys D → Prop} {E : Exit Exn → Sys D → Prop} {s : Sys D}
  {file pageNo i : Nat} {object : FileObject}

theorem filename_apply (h : s.objects file = some object) :
    filename file s = (.ok object.filename, s) := by
  rw [filename, bind_of_ok (get_apply s), h]
  rfl

theorem wp_onFile {x : FileObject → Prog Exn (FStream D) α} (h : s.objects file = some object) :
    wp (onFile file x) Q E s ↔
      wp (x object) (fun a st => Q a (s.setStream object.filename st))
        (fun e st => E e (s.setStream object.filename st)) (s.streams object.filename) := by
  rw [onFile, wp_bind, wp_get, h]
  exact wp_zoom

theorem onFile_apply {x : FileObject → Prog Exn (FStream D) α} (h : s.objects file = some object) :
    onFile file x s = ((x object (s.streams object.filename)).1,
      s.setStream object.filename (x object (s.streams object.filename)).2) := by
  rw [onFile, bind_of_ok (get_apply s), h]
  rfl

theorem wp_onFile_dangling {x : FileObject → Prog Exn (FStream D) α} (h : s.objects file = none) :
    wp (onFile file x) Q E s ↔ E .undefined s := by
  rw [onFile, wp_bind, wp_get, h, wp_exit]

/-- Whatever a file does, it does to the streams. -/
theorem wp_onFile_any {x : FileObject → Prog Exn (FStream D) α}
    (hQ : ∀ a streams, Q a (s.setStreams streams)) (hE : ∀ e streams, E e (s.setStreams streams)) :
    wp (onFile file x) Q E s := by
  -- the pointer may be dangling
  cases h : s.objects file with
  | none =>
      rw [wp_onFile_dangling h]
      exact hE .undefined s.streams
  | some object =>
      rw [wp_onFile h]
      unfold wp
      split
      · exact hQ _ _
      · exact hE _ _

theorem lookup_apply (h : s.entry file pageNo = some i) : lookup file pageNo s = (.ok i, s) := by
  rw [lookup, bind_of_ok (get_apply s), h]
  rfl

theorem lookup_missing (hf : s.objects file = some object) (h : s.entry file pageNo = none) :
    lookup file pageNo s = (.error (.throw (.hashNotFound object.filename pageNo)), s) := by
  rw [lookup, bind_of_ok (get_apply s), h]
  dsimp only
  rw [bind_of_ok (filename_apply hf)]
  rfl

theorem insert_apply (h : s.entry file pageNo = none) :
    insert file pageNo i s = (.ok (), s.putEntry file pageNo i) := by
  rw [insert, bind_of_ok (get_apply s), h]
  rfl

theorem insert_present {j : Nat} (hf : s.objects file = some object)
    (h : s.entry file pageNo = some j) : insert file pageNo i s =
      (.error (.throw (.hashAlreadyPresent object.filename pageNo j)), s) := by
  rw [insert, bind_of_ok (get_apply s), h]
  dsimp only
  rw [bind_of_ok (filename_apply hf)]
  rfl

theorem wp_insert {Q : Unit → Sys D → Prop}
    (hnone : s.entry file pageNo = none → Q () (s.putEntry file pageNo i))
    (hpresent : ∀ j object, s.entry file pageNo = some j → s.objects file = some object →
      E (.throw (.hashAlreadyPresent object.filename pageNo j)) s)
    (hdangling : s.objects file = none → E .undefined s) : wp (insert file pageNo i) Q E s := by
  rw [insert, wp_bind, wp_get]
  cases hentry : s.entry file pageNo with
  | none => exact hnone hentry
  | some j =>
      dsimp only
      -- the error names the file, through the pointer
      rw [wp_bind, filename, wp_bind, wp_get]
      cases ho : s.objects file with
      | none => exact hdangling ho
      | some object => exact hpresent j object hentry ho

theorem remove_apply (h : s.entry file pageNo = some i) :
    remove file pageNo s = (.ok (), s.dropEntry file pageNo) := by
  rw [remove, bind_of_ok (get_apply s), h]
  rfl

theorem remove_missing (hf : s.objects file = some object) (h : s.entry file pageNo = none) :
    remove file pageNo s = (.error (.throw (.hashNotFound object.filename pageNo)), s) := by
  rw [remove, bind_of_ok (get_apply s), h]
  dsimp only
  rw [bind_of_ok (filename_apply hf)]
  rfl

/-- What it takes to remove a page. -/
theorem remove_inv {t : Sys D} (h : remove file pageNo s = (.ok (), t)) :
    (∃ i, s.entry file pageNo = some i) ∧ t = s.dropEntry file pageNo := by
  cases hentry : s.entry file pageNo with
  | some i =>
      rw [remove_apply hentry] at h
      exact ⟨⟨i, rfl⟩, (congrArg Prod.snd h).symm⟩
  -- a page that is not there: the call throws, or its pointer is dangling
  | none =>
      have hmissing : wp (remove file pageNo) (fun _ _ => False) (fun _ _ => True) s := by
        rw [remove, wp_bind, wp_get, hentry]
        dsimp only
        rw [wp_bind]
        unfold wp
        split <;> trivial
      rw [wp_of_ok h] at hmissing
      exact hmissing.elim

theorem remove_clockHand : wp (remove file pageNo) (fun _ t => t.clockHand = s.clockHand)
    (fun _ _ => True) s := by
  rw [remove, wp_bind, wp_get]
  cases s.entry file pageNo with
  | some i => rfl
  | none =>
      rw [wp_bind]
      unfold wp
      split <;> trivial

end Rules

/-! ## What these keep

An invariant survives a function if it survives the updates that the function may make. Nothing is asked about the
errors, as they change nothing.
-/

section Keep

variable {α : Type} {I : Sys D → Prop}

theorem filename_keeps (file : Nat) : Keeps I (filename file) := by
  apply Keeps.get.bind
  intro s
  split
  · exact Keeps.pure _
  · exact Keeps.exit _

theorem onFile_keeps (h : ∀ s streams, I s → I (s.setStreams streams)) (file : Nat)
    (x : FileObject → Prog Exn (FStream D) α) : Keeps I (onFile file x) := by
  intro s hs
  apply wp_onFile_any
  · exact fun _ streams => h s streams hs
  · exact fun _ streams => h s streams hs

theorem lookup_keeps (file pageNo : Nat) : Keeps I (lookup file pageNo) := by
  apply Keeps.get.bind
  intro s
  split
  · exact Keeps.pure _
  · exact (filename_keeps file).bind fun _ => Keeps.throw _

theorem insert_keeps {file pageNo frameNo : Nat} (h : ∀ s, I s → I (s.putEntry file pageNo frameNo)) :
    Keeps I (insert file pageNo frameNo) := by
  apply Keeps.get.bind
  intro s
  split
  · exact (filename_keeps file).bind fun _ => Keeps.throw _
  · exact Keeps.modify h

theorem remove_keeps {file pageNo : Nat} (h : ∀ s, I s → I (s.dropEntry file pageNo)) :
    Keeps I (remove file pageNo) := by
  apply Keeps.get.bind
  intro s
  split
  · exact Keeps.modify h
  · exact (filename_keeps file).bind fun _ => Keeps.throw _

/-- What handles a miss is all that is done. -/
theorem onHashNotFound_keeps {x : Prog Exn (Sys D) α} (hx : Keeps I x) (e : Exn) (y : Prog Exn (Sys D) α)
    (h : onHashNotFound x e = some y) : Keeps I y := by
  unfold onHashNotFound at h
  split at h
  · cases h
    exact hx
  · cases h

end Keep

end BufMgr

end CS640.Badger
