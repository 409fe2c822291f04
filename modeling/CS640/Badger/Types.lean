import CS640.Lib.Prog

/-!
# Identifiers and exceptions

The identifier types of `types.h` and the exceptions of `exceptions/`, each with the values its
constructor is given. Page numbers (`PageId`), slot numbers (`SlotId`), frame numbers (`FrameId`)
and the addresses of `File` objects are natural numbers here; `0` is the invalid page, the invalid
slot and the null pointer. `PageId` has 32 bits in the source, so a file is taken to stay below
`2 ^ 32` pages (32 TiB).
-/

namespace CS640.Badger

open CS640.Lib

abbrev FileName := String

/-- `Page::INVALID_NUMBER`. -/
abbrev invalidNumber : Nat := 0

/-- `Page::INVALID_SLOT`. -/
abbrev invalidSlot : Nat := 0

structure RecordId where
  pageNumber : Nat
  slotNumber : Nat
  deriving DecidableEq, Repr

/-- The classes below `BadgerDbException`. -/
inductive Exn where
  | badBuffer (frameNo : Nat) (dirty valid refbit : Bool)
  | badIndexInfo (reason : String)
  | badOpcodes
  | badScanrange
  | bufferExceeded
  | endOfFile
  | fileExists (name : FileName)
  | fileNotFound (name : FileName)
  | fileOpen (name : FileName)
  | hashAlreadyPresent (name : FileName) (pageNo : Nat) (frameNo : Nat)
  | hashNotFound (name : FileName) (pageNo : Nat)
  | indexScanCompleted
  | insufficientSpace (pageNumber : Nat) (requested available : Nat)
  | invalidPage (pageNumber : Nat) (filename : FileName)
  | invalidRecord (recordId : RecordId) (pageNumber : Nat)
  | invalidSlot (pageNumber : Nat) (slotNumber : Nat)
  | noSuchKeyFound
  | pageNotPinned (name : FileName) (pageNo : Nat) (frameNo : Nat)
  | pagePinned (name : FileName) (pageNo : Nat) (frameNo : Nat)
  | scanNotInitialized
  | slotInUse (pageNumber : Nat) (slotNumber : Nat)
  deriving DecidableEq, Repr

/-- The call ended in a `HashNotFoundException`. -/
def IsHashNotFound : Exit Exn → Prop
  | .throw (.hashNotFound _ _) => True
  | _ => False

/-- The call ended in an `InvalidPageException`. -/
def IsInvalidPage : Exit Exn → Prop
  | .throw (.invalidPage _ _) => True
  | _ => False

end CS640.Badger
