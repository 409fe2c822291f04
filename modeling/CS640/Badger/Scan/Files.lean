import CS640.Badger.Buffer.Pool

/-!
# Opening and closing files

The constructors and the destructor of the `File` classes of p3, and `File::remove`. All `File` objects
of one name share one stream; `open_counts_` says how many there are.

Where the allocator puts a new object is a parameter of its constructor. A stream that is opened anew has
no `failbit`.
-/

namespace CS640.Badger

open CS640.Lib Prog FStream

variable {D : Type}

/-- The system with the files on disk and `File::open_counts_`, which is `0` where that has no entry. -/
structure World (D : Type) where
  sys : Sys D
  onDisk : FileName → Bool
  openCounts : FileName → Nat

namespace World

def setCount (filename : FileName) (n : Nat) (w : World D) : World D :=
  { w with openCounts := Function.update w.openCounts filename n }

def setOnDisk (filename : FileName) (b : Bool) (w : World D) : World D :=
  { w with onDisk := Function.update w.onDisk filename b }

def setStream (filename : FileName) (stream : FStream D) (w : World D) : World D :=
  { w with sys := w.sys.setStream filename stream }

def setObject (file : Nat) (object : Option FileObject) (w : World D) : World D :=
  { w with sys := { w.sys with objects := Function.update w.sys.objects file object } }

/-- A call on the buffer manager or on a file. -/
def onSys {α : Type} (x : Prog Exn (Sys D) α) : Prog Exn (World D) α :=
  zoom World.sys (fun sys w => { w with sys := sys }) x

end World

/-- The stream of a file that is opened with `trunc`. -/
def FStream.truncated [PageData D] (s : FStream D) : FStream D :=
  { s with
    header := ⟨0, 0, 0, 0⟩
    page := fun _ => Page.zero
    size := 0
    failbit := false }

/-- The stream of a file that is opened again. -/
def FStream.reopened (s : FStream D) : FStream D := { s with failbit := false }

namespace File

variable [PageData D]

/-- `File::openIfNeeded`. -/
def openIfNeeded (filename : FileName) (createNew : Bool) : Prog Exn (World D) Unit := do
  let w ← get
  if w.openCounts filename ≠ 0 then
    modify (World.setCount filename (w.openCounts filename + 1))
  else if createNew = true then
    if w.onDisk filename = true then throw (.fileExists filename)
    else do
      modify (World.setOnDisk filename true)
      modify (World.setStream filename (w.sys.streams filename).truncated)
      modify (World.setCount filename 1)
  else if w.onDisk filename = false then throw (.fileNotFound filename)
  else do
    modify (World.setStream filename (w.sys.streams filename).reopened)
    modify (World.setCount filename 1)

/-- `File::File`, at the address `file`, for an object of a class below. -/
def construct (file : Nat) (kind : FileKind) (filename : FileName) (createNew : Bool) :
    Prog Exn (World D) Unit := do
  openIfNeeded filename createNew
  modify (World.setObject file (some ⟨kind, filename⟩))
  if createNew = true then World.onSys (BufMgr.onFile file fun _ => writeHeader ⟨1, 0, 0, 0⟩)
  else pure ()

/-- `File::~File`, which is `File::close`. -/
def destroy (file : Nat) : Prog Exn (World D) Unit := do
  let filename ← World.onSys (BufMgr.filename file)
  let w ← get
  modify (World.setCount filename (w.openCounts filename - 1))
  modify (World.setObject file none)

/-- `File::isOpen`. -/
def isOpen (filename : FileName) (w : World D) : Bool :=
  w.onDisk filename && w.openCounts filename != 0

/-- `File::remove`. -/
def remove (filename : FileName) : Prog Exn (World D) Unit := do
  let w ← get
  if w.onDisk filename = false then throw (.fileNotFound filename)
  else if isOpen filename w = true then throw (.fileOpen filename)
  else modify (World.setOnDisk filename false)

end File

end CS640.Badger
