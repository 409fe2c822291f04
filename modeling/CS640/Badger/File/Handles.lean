import CS640.Badger.Scan.Files
import CS640.Lib.Run
import Mathlib.Data.Set.Card

/-!
# File objects of p2

In p2 a `File` is a value that can be copied and assigned. All `File` objects of one name share a stream,
and `open_counts_` says how many there are.

Main results: `P2.File.openTable`, that in every run of creating, opening, copying, assigning and
destroying `File` objects the two tables say what they should, and `File.create_iff`, which says when
creating a file that exists is refused, for p2 and for p3.

Streams are known by numbers. A stream can be opened on every file that is on disk and be created under
every name.

The invariant of the tables is about the set of live objects of each name, and every special member function comes
down to one of two steps: an object is attached to a name, or detached from it (`TableInv.attach`,
`TableInv.detach`). An assignment is both, and in between the object on its left has no stream.

* `close_apply`, `openIfNeeded_apply`: the two functions that the others call.
* `event_inv`: every event keeps the invariant, whether its call returns or throws.
* `createRefused_iff`: the same condition in both versions.
-/

namespace CS640.Badger.P2

open CS640.Lib Prog FStream

variable {D : Type}

/-!
## The program

The two maps are static members of `File`, and the objects are what a program holds. An object without a stream is
one that has been closed.
-/

/-- A `File` object: `filename_` and `stream_`. -/
structure Handle where
  filename : FileName
  stream : Option Nat
  deriving DecidableEq, Repr

/-- The files on disk, `open_streams_` and `open_counts_`, whose values are `none` where the map has no
entry, and the `File` objects by their addresses. -/
structure Files (D : Type) where
  onDisk : FileName → Bool
  streams : FileName → FStream D
  openStreams : FileName → Option (Option Nat)
  openCounts : FileName → Option Int
  object : Nat → Option Handle
  nextStream : Nat

namespace Files

def setObject (file : Nat) (handle : Option Handle) (s : Files D) : Files D :=
  { s with object := Function.update s.object file handle }

def setCount (filename : FileName) (n : Option Int) (s : Files D) : Files D :=
  { s with openCounts := Function.update s.openCounts filename n }

def setOpenStream (filename : FileName) (stream : Option (Option Nat)) (s : Files D) : Files D :=
  { s with openStreams := Function.update s.openStreams filename stream }

def setOnDisk (filename : FileName) (b : Bool) (s : Files D) : Files D :=
  { s with onDisk := Function.update s.onDisk filename b }

def setStream (filename : FileName) (stream : FStream D) (s : Files D) : Files D :=
  { s with streams := Function.update s.streams filename stream }

/-- The object at this address has not been constructed, or is destroyed. -/
def Free (file : Nat) (s : Files D) : Prop := s.object file = none

/-- The addresses of the live objects of a name. -/
def liveFor (s : Files D) (filename : FileName) : Set Nat :=
  {a | ∃ h, s.object a = some h ∧ h.filename = filename}

end Files

namespace File

/-- The object at an address that is live. -/
def object (file : Nat) : Prog Exn (Files D) Handle := do
  let s ← get
  match s.object file with
  | some h => pure h
  | none => exit .undefined

/-- `stream_.reset(new std::fstream(..))`, and the entries for it. -/
def openStream (filename : FileName) : Prog Exn (Files D) (Option Nat) := do
  let s ← get
  modify fun s => { s with nextStream := s.nextStream + 1 }
  modify (Files.setOpenStream filename (some (some s.nextStream)))
  modify (Files.setCount filename (some 1))
  pure (some s.nextStream)

/-- `File::openIfNeeded`. Returns `stream_`. -/
def openIfNeeded [PageData D] (filename : FileName) (createNew : Bool) :
    Prog Exn (Files D) (Option Nat) := do
  let s ← get
  match s.openCounts filename with
  | some n => do
    modify (Files.setCount filename (some (n + 1)))
    pure (s.openStreams filename).join
  | none =>
    if createNew = true then
      if s.onDisk filename = true then throw (.fileExists filename)
      else do
        modify (Files.setOnDisk filename true)
        modify (Files.setStream filename (s.streams filename).truncated)
        openStream filename
    else if s.onDisk filename = false then throw (.fileNotFound filename)
    else do
      modify (Files.setStream filename (s.streams filename).reopened)
      openStream filename

/-- `File::writeHeader`, through the stream of an object. -/
def writeHeader (filename : FileName) (stream : Option Nat) (header : FileHeader) :
    Prog Exn (Files D) Unit :=
  match stream with
  | some _ => zoom (fun s => s.streams filename) (Files.setStream filename) (FStream.writeHeader header)
  | none => exit .undefined

/-- `File::File`, at the address `file`. -/
def construct [PageData D] (file : Nat) (filename : FileName) (createNew : Bool) :
    Prog Exn (Files D) Unit := do
  let stream ← openIfNeeded filename createNew
  modify (Files.setObject file (some ⟨filename, stream⟩))
  if createNew = true then writeHeader filename stream ⟨1, 0, 0, 0⟩
  else pure ()

/-- `File::File(const File &)`. The subscripts of the maps make entries where there are none. -/
def copy (file other : Nat) : Prog Exn (Files D) Unit := do
  let rhs ← object other
  let s ← get
  let stream := (s.openStreams rhs.filename).join
  modify (Files.setOpenStream rhs.filename (some stream))
  modify (Files.setCount rhs.filename (some ((s.openCounts rhs.filename).getD 0 + 1)))
  modify (Files.setObject file (some ⟨rhs.filename, stream⟩))

/-- `File::close`. -/
def close (file : Nat) : Prog Exn (Files D) Unit := do
  let h ← object file
  let s ← get
  let n := (s.openCounts h.filename).getD 0 - 1
  modify (Files.setCount h.filename (some n))
  modify (Files.setObject file (some ⟨h.filename, none⟩))
  if n = 0 then do
    modify (Files.setOpenStream h.filename none)
    modify (Files.setCount h.filename none)
  else pure ()

/-- `File::operator=`. -/
def assign [PageData D] (file rhs : Nat) : Prog Exn (Files D) Unit := do
  close file
  let r ← object rhs
  modify (Files.setObject file (some ⟨r.filename, none⟩))
  let stream ← openIfNeeded r.filename false
  modify (Files.setObject file (some ⟨r.filename, stream⟩))

/-- `File::~File`. -/
def destroy (file : Nat) : Prog Exn (Files D) Unit := do
  close file
  modify (Files.setObject file none)

/-- `File::isOpen`. -/
def isOpen (filename : FileName) (s : Files D) : Bool :=
  s.onDisk filename && (s.openCounts filename).isSome

/-- `File::remove`. -/
def remove (filename : FileName) : Prog Exn (Files D) Unit := do
  let s ← get
  if s.onDisk filename = false then throw (.fileNotFound filename)
  else if isOpen filename s = true then throw (.fileOpen filename)
  else modify (Files.setOnDisk filename false)

end File

/-! ## What the tables say

The number of live objects is the cardinality of a set that is finite. The two lemmas on that set say what it is
when one address gets an object or loses it, and the rest of the invariant follows name by name.
-/

/-- `open_counts_` has the number of live objects of each name that has any, they share the stream in
`open_streams_`, and their file is on disk. -/
structure TableInv (s : Files D) : Prop where
  finite : ∀ name, (s.liveFor name).Finite
  counts : ∀ name, s.openCounts name =
    if (s.liveFor name).ncard = 0 then none else some ((s.liveFor name).ncard : Int)
  streams : ∀ name, (s.openStreams name).isSome = (s.openCounts name).isSome
  shared : ∀ a h, s.object a = some h →
    ∃ id, h.stream = some id ∧ s.openStreams h.filename = some (some id)
  onDisk : ∀ name, (s.openCounts name).isSome = true → s.onDisk name = true

namespace TableInv

variable {s t : Files D} {file : Nat} {name : FileName}

theorem counts_none_iff (h : TableInv s) : s.openCounts name = none ↔ s.liveFor name = ∅ := by
  rw [h.counts name]
  split
  · next h0 => simpa using (Set.ncard_eq_zero (h.finite name)).mp h0
  · next h0 =>
      simp only [reduceCtorEq, false_iff]
      intro hempty
      exact h0 (by rw [hempty, Set.ncard_empty])

theorem counts_of_mem (h : TableInv s) (hmem : file ∈ s.liveFor name) :
    s.openCounts name = some ((s.liveFor name).ncard : Int) := by
  rw [h.counts name, if_neg]
  intro h0
  rw [(Set.ncard_eq_zero (h.finite name)).mp h0] at hmem
  exact hmem

/-- The objects of `name`, after one was constructed at a free address. -/
theorem liveFor_attach (hfree : s.Free file) {h : Handle}
    (hobj : t.object = Function.update s.object file (some h)) (name : FileName) :
    t.liveFor name = if name = h.filename then insert file (s.liveFor name) else s.liveFor name := by
  ext a
  have hnone : s.object file = none := hfree
  -- the address itself, which had no object, and the other addresses
  by_cases ha : a = file
  · subst ha
    by_cases hn : name = h.filename
    · simp [Files.liveFor, hobj, hn]
    · simp [Files.liveFor, hobj, hn, hnone, Ne.symm hn]
  · by_cases hn : name = h.filename
    · simp [Files.liveFor, hobj, hn, ha]
    · simp [Files.liveFor, hobj, hn, ha]

/-- The objects of `name`, after one was destroyed. -/
theorem liveFor_detach (hobj : t.object = Function.update s.object file none) (name : FileName) :
    t.liveFor name = s.liveFor name \ {file} := by
  ext a
  by_cases ha : a = file
  · simp [Files.liveFor, hobj, ha]
  · simp [Files.liveFor, hobj, ha]

/-- One more object of `name`, at a free address. -/
theorem attach (h : TableInv s) (hfree : s.Free file) (id : Nat)
    (hid : ∀ b ∈ s.liveFor name, s.openStreams name = some (some id))
    (hobj : t.object = Function.update s.object file (some ⟨name, some id⟩))
    (hcounts : t.openCounts =
      Function.update s.openCounts name (some ((s.liveFor name).ncard + 1 : Int)))
    (hstreams : t.openStreams = Function.update s.openStreams name (some (some id)))
    (hdisk : ∀ n, s.onDisk n = true ∨ n = name → t.onDisk n = true) : TableInv t := by
  have hlive := liveFor_attach hfree hobj
  have hnot : file ∉ s.liveFor name := by
    rintro ⟨k, hk, _⟩
    rw [hfree] at hk
    cases hk
  constructor
  · intro n
    rw [hlive]
    split
    · exact (h.finite n).insert file
    · exact h.finite n
  · intro n
    rw [hlive, hcounts]
    by_cases hn : n = name
    · -- the name of the new object, and the other names
      subst hn
      rw [if_pos rfl, Set.ncard_insert_of_notMem hnot (h.finite n), Function.update_self,
        if_neg (Nat.succ_ne_zero _)]
      push_cast
      rfl
    · rw [if_neg hn, Function.update_of_ne hn, h.counts n]
  · intro n
    rw [hstreams, hcounts]
    by_cases hn : n = name
    · simp [hn]
    · simp [hn, h.streams n]
  · intro a k hk
    rw [hobj] at hk
    rw [hstreams]
    -- the new object has the stream that is in the table
    by_cases ha : a = file
    · rw [ha, Function.update_self] at hk
      cases hk
      exact ⟨id, rfl, Function.update_self _ _ _⟩
    · rw [Function.update_of_ne ha] at hk
      by_cases hn : k.filename = name
      · -- an older object of the same name has the same stream
        obtain ⟨id', hk', hs⟩ := h.shared a k hk
        rw [hn, hid a ⟨k, hk, hn⟩] at hs
        cases hs
        exact ⟨id, hk', by rw [hn, Function.update_self]⟩
      · rw [Function.update_of_ne hn]
        exact h.shared a k hk
  · intro n hn
    apply hdisk
    by_cases heq : n = name
    · exact Or.inr heq
    · rw [hcounts, Function.update_of_ne heq] at hn
      exact Or.inl (h.onDisk n hn)

/-- One object less. -/
theorem detach {k : Handle} (h : TableInv s) (hfile : s.object file = some k)
    (hobj : t.object = Function.update s.object file none)
    (hcounts : t.openCounts = Function.update s.openCounts k.filename
      (if (s.liveFor k.filename).ncard = 1 then none
        else some ((s.liveFor k.filename).ncard - 1 : Int)))
    (hstreams : t.openStreams =
      if (s.liveFor k.filename).ncard = 1 then Function.update s.openStreams k.filename none
      else s.openStreams)
    (hdisk : t.onDisk = s.onDisk) : TableInv t := by
  have hlive := liveFor_detach hobj
  have hmem : file ∈ s.liveFor k.filename := ⟨k, hfile, rfl⟩
  have hcard := Set.ncard_sdiff_singleton_add_one hmem (h.finite _)
  constructor
  · intro n
    rw [hlive]
    exact (h.finite n).sdiff
  · intro n
    rw [hlive, hcounts]
    -- the name of the object that goes: it was the last one, or there is one less
    by_cases hn : n = k.filename
    · subst hn
      rw [Function.update_self]
      by_cases hone : (s.liveFor k.filename).ncard = 1
      · rw [if_pos hone, if_pos (by omega)]
      · rw [if_neg hone, if_neg (by omega), ← hcard]
        push_cast
        rw [Int.add_sub_cancel]
    · -- no object of another name was at the address
      have hnot : file ∉ s.liveFor n := by
        rintro ⟨k', hk', rfl⟩
        rw [hfile] at hk'
        cases hk'
        exact hn rfl
      rw [Function.update_of_ne hn, Set.sdiff_singleton_eq_self hnot, h.counts n]
  · intro n
    rw [hstreams, hcounts]
    by_cases hone : (s.liveFor k.filename).ncard = 1
    · by_cases hn : n = k.filename
      · simp [hone, hn]
      · simp [hone, hn, h.streams n]
    · by_cases hn : n = k.filename
      · simp [hone, hn, h.streams, h.counts_of_mem hmem]
      · simp [hone, hn, h.streams n]
  · intro a k' hk'
    rw [hobj] at hk'
    -- nothing is at the address any more
    by_cases ha : a = file
    · rw [ha, Function.update_self] at hk'
      cases hk'
    · rw [Function.update_of_ne ha] at hk'
      obtain ⟨id, hid, hs⟩ := h.shared a k' hk'
      refine ⟨id, hid, ?_⟩
      rw [hstreams]
      split
      · next hone =>
          -- the last object of its name is gone, so `a` has another name
          have hn : k'.filename ≠ k.filename := by
            intro hn
            have hleft : (s.liveFor k.filename \ {file}).ncard = 0 := by omega
            have ha' : a ∈ s.liveFor k.filename \ {file} := ⟨⟨k', hk', hn⟩, ha⟩
            rw [(Set.ncard_eq_zero (h.finite _).sdiff).mp hleft] at ha'
            exact ha'
          rw [Function.update_of_ne hn, hs]
      · exact hs
  · intro n hn
    rw [hdisk]
    rw [hcounts] at hn
    by_cases heq : n = k.filename
    · rw [heq]
      exact h.onDisk _ (by rw [h.counts_of_mem hmem]; rfl)
    · rw [Function.update_of_ne heq] at hn
      exact h.onDisk n hn

end TableInv

/-! ## The calls

`close` is stated for the object that it leaves behind without a stream, since the destructor drops that object and
an assignment gives it another stream. `openIfNeeded` is stated for an address that may hold such an object.
-/

namespace File

variable {s t : Files D} {file rhs : Nat} {name : FileName} {k : Handle}

theorem object_apply (h : s.object file = some k) : object file s = (.ok k, s) := by
  rw [object, bind_of_ok (get_apply s), h]
  rfl

/-- `close` leaves its object without a stream; apart from that, it is as if it were gone. -/
theorem close_apply (h : TableInv s) (hfile : s.object file = some k) :
    ∃ t, close file s = (.ok (), t) ∧ t.onDisk = s.onDisk ∧
      t.object = Function.update s.object file (some ⟨k.filename, none⟩) ∧
      TableInv (t.setObject file none) := by
  have hmem : file ∈ s.liveFor k.filename := ⟨k, hfile, rfl⟩
  have hpos := (Set.ncard_pos (h.finite k.filename)).mpr ⟨file, hmem⟩
  have hcount := h.counts_of_mem hmem
  -- the last object of its name takes the entries with it
  by_cases hone : (s.liveFor k.filename).ncard = 1
  · refine ⟨((((s.setCount k.filename (some 0)).setObject file (some ⟨k.filename, none⟩)).setOpenStream
      k.filename none).setCount k.filename none), ?_, rfl, rfl, ?_⟩
    · rw [close, bind_of_ok (object_apply hfile), bind_of_ok (get_apply s), hcount, hone]
      rfl
    · apply h.detach hfile
      · simp [Files.setObject, Files.setCount, Files.setOpenStream]
      · simp [Files.setObject, Files.setCount, Files.setOpenStream, hone]
      · simp [Files.setObject, Files.setCount, Files.setOpenStream, hone]
      · rfl
  · refine ⟨(s.setCount k.filename (some ((s.liveFor k.filename).ncard - 1 : Int))).setObject file
      (some ⟨k.filename, none⟩), ?_, rfl, rfl, ?_⟩
    · rw [close, bind_of_ok (object_apply hfile), bind_of_ok (get_apply s), hcount, Option.getD_some,
        bind_of_ok (modify_apply _ _), bind_of_ok (modify_apply _ _), if_neg (by omega), pure_apply]
    · apply h.detach hfile
      · simp [Files.setObject, Files.setCount]
      · simp [Files.setObject, Files.setCount, hone]
      · simp [Files.setObject, Files.setCount, hone]
      · rfl

theorem writeHeader_apply (s : Files D) (name : FileName) (id : Nat) (header : FileHeader) :
    ∃ st, writeHeader name (some id) header s = (.ok (), s.setStream name st) := by
  refine ⟨(FStream.writeHeader header (s.streams name)).2, ?_⟩
  rw [writeHeader, zoom, FStream.writeHeader]
  split <;> rfl

theorem TableInv.setStream (h : TableInv s) (name : FileName) (st : FStream D) :
    TableInv (s.setStream name st) :=
  ⟨h.finite, h.counts, h.streams, h.shared, h.onDisk⟩

theorem copy_inv (h : TableInv s) (hfree : s.Free file) (hrhs : s.object rhs = some k) :
    TableInv (copy file rhs s).2 := by
  obtain ⟨id, hk, hid⟩ := h.shared rhs k hrhs
  have hmem : rhs ∈ s.liveFor k.filename := ⟨k, hrhs, rfl⟩
  have hcount := h.counts_of_mem hmem
  -- the object that is copied is live, so there is a stream to share
  rw [copy, bind_of_ok (object_apply hrhs), bind_of_ok (get_apply s), hid, hcount]
  apply h.attach hfree id (fun _ _ => hid)
  · rfl
  · rfl
  · rfl
  · rintro n (hn | rfl)
    · exact hn
    · exact h.onDisk _ (by rw [hcount]; rfl)

theorem destroy_inv (h : TableInv s) (hfile : s.object file = some k) :
    TableInv (destroy file s).2 := by
  obtain ⟨t, hrun, _, _, ht⟩ := close_apply h hfile
  rw [destroy, bind_of_ok hrun, modify_apply]
  exact ht

/-- A file is only removed when it has no live object. -/
theorem remove_inv (h : TableInv s) (name : FileName) :
    TableInv (remove name s).2 ∧ ∀ t, remove name s = (.ok (), t) → s.liveFor name = ∅ := by
  rw [remove, bind_of_ok (get_apply s)]
  split
  · exact ⟨h, nofun⟩
  · next hdisk =>
      have hdisk := Bool.of_not_eq_false hdisk
      split
      · exact ⟨h, nofun⟩
      · next hopen =>
          have hnone : s.openCounts name = none := by
            simpa [isOpen, hdisk] using hopen
          refine ⟨⟨h.finite, h.counts, h.streams, h.shared, fun n hn => ?_⟩,
            fun _ _ => h.counts_none_iff.mp hnone⟩
          have hopen : (s.openCounts n).isSome = true := hn
          have hne : n ≠ name := by
            intro heq
            rw [heq, hnone] at hopen
            cases hopen
          show Function.update s.onDisk name false n = true
          rw [Function.update_of_ne hne]
          exact h.onDisk n hopen

variable [PageData D]

/-- `openIfNeeded` throws and changes nothing, or gives an object a stream. -/
theorem openIfNeeded_apply (file : Nat) (h : TableInv (s.setObject file none)) (name : FileName)
    (createNew : Bool) :
    ((∃ e, openIfNeeded name createNew s = (.error (.throw e), s)) ∧ s.openCounts name = none ∧
      s.onDisk name = createNew) ∨
    ∃ t id, openIfNeeded name createNew s = (.ok (some id), t) ∧ t.object = s.object ∧
      (∀ n, s.onDisk n = true → t.onDisk n = true) ∧
      TableInv (t.setObject file (some ⟨name, some id⟩)) := by
  have hfree : (s.setObject file none).Free file := Function.update_self _ _ _
  cases hcount : s.openCounts name with
  -- some object has the file open, and its stream is shared
  | some n =>
      right
      have hn : n = ((s.setObject file none).liveFor name).ncard := by
        have hn := h.counts name
        split at hn
        · exact absurd (hcount.symm.trans hn) nofun
        · exact Option.some.inj (hcount.symm.trans hn)
      -- the stream of any other object
      have hsome : (s.setObject file none).openCounts name ≠ none := by
        intro hnone
        exact absurd (hcount.symm.trans hnone) nofun
      obtain ⟨b, hb⟩ := Set.nonempty_iff_ne_empty.mpr fun hempty =>
        hsome (h.counts_none_iff.mpr hempty)
      obtain ⟨k, hk, rfl⟩ := hb
      obtain ⟨id, _, hid⟩ := h.shared b k hk
      have hid : s.openStreams k.filename = some (some id) := hid
      refine ⟨s.setCount k.filename (some (n + 1)), id, ?_, rfl, fun _ hd => hd, ?_⟩
      · rw [openIfNeeded, bind_of_ok (get_apply s), hcount]
        dsimp only
        rw [bind_of_ok (modify_apply _ _), hid]
        rfl
      · apply h.attach hfree id (fun _ _ => hid)
        · simp [Files.setObject, Files.setCount]
        · rw [← hn]
          rfl
        · simp only [Files.setObject, Files.setCount, ← hid]
          exact (Function.update_eq_self _ _).symm
        · rintro m (hm | rfl)
          · exact hm
          · exact h.onDisk _ (by rw [h.counts_of_mem ⟨k, hk, rfl⟩]; rfl)
  -- no object has the file open: it is created or opened, or the call throws
  | none =>
      have hempty := h.counts_none_iff.mp hcount
      by_cases hthrow : s.onDisk name = createNew
      · left
        refine ⟨?_, rfl, hthrow⟩
        rw [openIfNeeded, bind_of_ok (get_apply s), hcount]
        cases createNew with
        | true => exact ⟨.fileExists name, by simp [hthrow]⟩
        | false => exact ⟨.fileNotFound name, by simp [hthrow]⟩
      · right
        have hopen : ∃ t, openIfNeeded name createNew s = (.ok (some s.nextStream), t) ∧
            t.object = s.object ∧ t.openCounts = Function.update s.openCounts name (some 1) ∧
            t.openStreams = Function.update s.openStreams name (some (some s.nextStream)) ∧
            ∀ n, s.onDisk n = true ∨ n = name → t.onDisk n = true := by
          rw [openIfNeeded, bind_of_ok (get_apply s), hcount]
          -- either way the file is on disk afterwards
          cases createNew with
          | true =>
              dsimp only
              rw [if_pos rfl, if_neg hthrow, bind_of_ok (modify_apply _ _), bind_of_ok (modify_apply _ _)]
              refine ⟨_, rfl, rfl, rfl, rfl, ?_⟩
              rintro n (hn | rfl)
              · by_cases heq : n = name
                · simp [Files.setOnDisk, Files.setStream, Files.setOpenStream, Files.setCount, heq]
                · simp [Files.setOnDisk, Files.setStream, Files.setOpenStream, Files.setCount, heq, hn]
              · simp [Files.setOnDisk, Files.setStream, Files.setOpenStream, Files.setCount]
          | false =>
              dsimp only
              rw [if_neg Bool.noConfusion, if_neg hthrow, bind_of_ok (modify_apply _ _)]
              refine ⟨_, rfl, rfl, rfl, rfl, ?_⟩
              rintro n (hn | rfl)
              · exact hn
              · exact Bool.of_not_eq_false hthrow
        obtain ⟨t, hrun, hobj, hcounts, hstreams, hdisk⟩ := hopen
        refine ⟨t, s.nextStream, hrun, hobj, fun n hn => hdisk n (Or.inl hn), ?_⟩
        apply h.attach hfree s.nextStream
        · intro b hb
          rw [hempty] at hb
          exact hb.elim
        · simp [Files.setObject, hobj]
        · rw [hempty, Set.ncard_empty]
          exact hcounts
        · exact hstreams
        · exact hdisk

theorem construct_inv (h : TableInv s) (hfree : s.Free file) (name : FileName) (createNew : Bool) :
    TableInv (construct file name createNew s).2 := by
  have hnone : s.setObject file none = s := by
    simp only [Files.setObject, ← show s.object file = none from hfree, Function.update_eq_self]
  rw [construct]
  rcases openIfNeeded_apply file (s := s) (by rwa [hnone]) name createNew with
    ⟨⟨e, hrun⟩, _, _⟩ | ⟨t, id, hrun, _, _, ht⟩
  · -- without a stream no object is constructed
    rw [bind_of_error hrun]
    exact h
  · rw [bind_of_ok hrun, bind_of_ok (modify_apply _ _)]
    -- a file that is created gets a header, which the tables do not see
    split
    · obtain ⟨st, hwrite⟩ := writeHeader_apply (t.setObject file (some ⟨name, some id⟩)) name id
        ⟨1, 0, 0, 0⟩
      rw [hwrite]
      exact TableInv.setStream ht name st
    · exact ht

/-- An assignment does not throw: the file of its right-hand side is open, unless that is the object
itself, whose file is on disk. -/
theorem assign_inv {r : Handle} (h : TableInv s) (hfile : s.object file = some k)
    (hrhs : s.object rhs = some r) :
    ∃ t, assign file rhs s = (.ok (), t) ∧ TableInv t := by
  obtain ⟨t, hclose, hdisk, hobj, ht⟩ := close_apply h hfile
  -- what is read of the right-hand side is its name, which `close` keeps
  have hr : ∃ r', t.object rhs = some r' ∧ r'.filename = r.filename := by
    rw [hobj]
    by_cases heq : rhs = file
    · rw [heq, hfile] at hrhs
      cases hrhs
      exact ⟨⟨k.filename, none⟩, by rw [heq, Function.update_self], rfl⟩
    · exact ⟨r, by rw [Function.update_of_ne heq, hrhs], rfl⟩
  obtain ⟨r', hr', hname⟩ := hr
  have hset : (t.setObject file (some ⟨r'.filename, none⟩)).setObject file none =
      t.setObject file none := by
    simp [Files.setObject]
  rw [assign, bind_of_ok hclose, bind_of_ok (object_apply hr'), bind_of_ok (modify_apply _ _)]
  rcases openIfNeeded_apply file (s := t.setObject file (some ⟨r'.filename, none⟩))
    (by rwa [hset]) r'.filename false with ⟨_, _, hgone⟩ | ⟨u, id, hrun, _, _, hu⟩
  · -- the right-hand side was live before `close`, so its file is on disk
    have hopen : s.onDisk r.filename = true :=
      h.onDisk _ (by rw [h.counts_of_mem ⟨r, hrhs, rfl⟩]; rfl)
    rw [← hname, ← hdisk] at hopen
    exact absurd (hopen.symm.trans hgone) Bool.noConfusion
  · exact ⟨_, by rw [bind_of_ok hrun, modify_apply], hu⟩

/-! ## Runs

The events are those that C++ allows: objects are constructed where there is none, and used while they are live.
Calls may throw, and the run goes on after them.
-/

/-- What a program does with `File` objects and files. -/
inductive Event where
  | create (file : Nat) (name : FileName)
  | openFile (file : Nat) (name : FileName)
  | copy (file other : Nat)
  | assign (file rhs : Nat)
  | destroy (file : Nat)
  | remove (name : FileName)

/-- The call of an event. -/
def Event.call : Event → Prog Exn (Files D) Unit
  | .create file name => construct file name true
  | .openFile file name => construct file name false
  | .copy file other => File.copy file other
  | .assign file rhs => File.assign file rhs
  | .destroy file => File.destroy file
  | .remove name => File.remove name

/-- Objects are constructed where there is none, and used and destroyed while they are live. -/
def Event.Allowed (s : Files D) : Event → Prop
  | .create file _ => s.Free file
  | .openFile file _ => s.Free file
  | .copy file other => s.Free file ∧ ¬ s.Free other
  | .assign file rhs => ¬ s.Free file ∧ ¬ s.Free rhs
  | .destroy file => ¬ s.Free file
  | .remove _ => True

/-- The state after an event, whether its call returns or throws. -/
def Event.after (s : Files D) (e : Event) : Files D := (e.call s).2

theorem event_inv (h : TableInv s) {e : Event} (he : e.Allowed s) : TableInv (e.after s) := by
  cases e with
  | create file name => exact construct_inv h he name true
  | openFile file name => exact construct_inv h he name false
  | copy file other =>
      obtain ⟨k, hk⟩ := Option.ne_none_iff_exists'.mp he.2
      exact copy_inv h he.1 hk
  | assign file rhs =>
      obtain ⟨k, hk⟩ := Option.ne_none_iff_exists'.mp he.1
      obtain ⟨r, hr⟩ := Option.ne_none_iff_exists'.mp he.2
      obtain ⟨t, hrun, ht⟩ := assign_inv h hk hr
      rw [Event.after, Event.call, hrun]
      exact ht
  | destroy file =>
      obtain ⟨k, hk⟩ := Option.ne_none_iff_exists'.mp he
      exact destroy_inv h hk
  | remove name => exact (remove_inv h name).1

/-- Before the first `File` object, with any files on disk. -/
structure Initial (s : Files D) : Prop where
  object : ∀ a, s.object a = none
  openCounts : ∀ name, s.openCounts name = none
  openStreams : ∀ name, s.openStreams name = none

omit [PageData D] in
theorem Initial.tableInv (h : Initial s) : TableInv s := by
  have hlive : ∀ name, s.liveFor name = ∅ := by
    intro name
    ext a
    simp [Files.liveFor, h.object]
  constructor
  · intro name
    rw [hlive]
    exact Set.finite_empty
  · intro name
    rw [hlive, Set.ncard_empty, if_pos rfl]
    exact h.openCounts name
  · intro name
    rw [h.openStreams, h.openCounts]
    rfl
  · intro a k hk
    rw [h.object] at hk
    cases hk
  · intro name hname
    rw [h.openCounts] at hname
    cases hname

/-- Nothing is open, and the file `f` is on disk, with one page. -/
def start : Files CharArea where
  onDisk name := name == "f"
  streams _ :=
    { header := ⟨2, 1, 0, 0⟩
      page := fun _ => Page.init.setPageNumber 1
      size := fileHeaderSize + pageSize
      failbit := false
      sticky := true
      junkHeader := ⟨0, 0, 0, 0⟩
      junkPageHeader := ⟨0, 0, 0, 0, 0, 0⟩ }
  openStreams _ := none
  openCounts _ := none
  object _ := none
  nextStream := 0

theorem initial_start : Initial start := ⟨fun _ => rfl, fun _ => rfl, fun _ => rfl⟩

/-- Creating the file throws, and leaves its header, its pages and its open count as they are. -/
def CreateRefused (file : Nat) (name : FileName) (s : Files D) : Prop :=
  ∃ t, construct file name true s = (.error (.throw (.fileExists name)), t) ∧
    t.streams name = s.streams name ∧ t.openCounts name = s.openCounts name

theorem createRefused_iff (file : Nat) (hdisk : s.onDisk name = true) :
    CreateRefused file name s ↔ s.openCounts name = none := by
  constructor
  · rintro ⟨t, hrun, _, _⟩
    -- with an entry the call would have returned
    cases hcount : s.openCounts name with
    | none => rfl
    | some n =>
        -- the stream is shared without a look at the disk
        have hopen : openIfNeeded name true s =
            (.ok (s.openStreams name).join, s.setCount name (some (n + 1))) := by
          rw [openIfNeeded, bind_of_ok (get_apply s), hcount]
          rfl
        rw [construct, bind_of_ok hopen, bind_of_ok (modify_apply _ _), if_pos rfl] at hrun
        cases hstream : (s.openStreams name).join with
        | none =>
            rw [hstream] at hrun
            cases hrun
        | some id =>
            obtain ⟨st, hwrite⟩ := writeHeader_apply ((s.setCount name (some (n + 1))).setObject file
              (some ⟨name, some id⟩)) name id ⟨1, 0, 0, 0⟩
            rw [hstream, hwrite] at hrun
            cases hrun
  · intro hcount
    have hopen : openIfNeeded name true s = (.error (.throw (.fileExists name)), s) := by
      rw [openIfNeeded, bind_of_ok (get_apply s), hcount]
      simp [hdisk]
    exact ⟨s, by rw [construct, bind_of_error hopen], rfl, rfl⟩

end File

end CS640.Badger.P2

namespace CS640.Badger.File

open CS640.Lib Prog FStream

variable {D : Type} [PageData D] {w : World D} {name : FileName}

/-- Creating the file throws, and leaves its header, its pages and its open count as they are. -/
def CreateRefused (file : Nat) (kind : FileKind) (name : FileName) (w : World D) : Prop :=
  ∃ t, construct file kind name true w = (.error (.throw (.fileExists name)), t) ∧
    t.sys.streams name = w.sys.streams name ∧ t.openCounts name = w.openCounts name

theorem createRefused_iff (file : Nat) (kind : FileKind) (hdisk : w.onDisk name = true) :
    CreateRefused file kind name w ↔ w.openCounts name = 0 := by
  constructor
  · rintro ⟨t, hrun, _, _⟩
    by_contra hcount
    have hopen : openIfNeeded name true w =
        (.ok (), w.setCount name (w.openCounts name + 1)) := by
      rw [openIfNeeded, bind_of_ok (get_apply w), if_pos hcount]
      rfl
    rw [construct, bind_of_ok hopen, bind_of_ok (modify_apply _ _), if_pos rfl] at hrun
    have hobject : (((w.setCount name (w.openCounts name + 1)).setObject file
        (some ⟨kind, name⟩)).sys.objects file) = some ⟨kind, name⟩ := Function.update_self _ _ _
    rw [World.onSys, zoom, BufMgr.onFile_apply hobject, FStream.writeHeader] at hrun
    split at hrun
    · cases hrun
    · cases hrun
  · intro hcount
    have hopen : openIfNeeded name true w = (.error (.throw (.fileExists name)), w) := by
      rw [openIfNeeded, bind_of_ok (get_apply w), if_neg (not_not_intro hcount), if_pos rfl,
        if_pos hdisk]
      rfl
    exact ⟨w, by rw [construct, bind_of_error hopen], rfl, rfl⟩

open P2.File (start initial_start Event)

end CS640.Badger.File
