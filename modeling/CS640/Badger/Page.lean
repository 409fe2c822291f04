import CS640.Badger.Types

/-!
# Pages

A page is a header and a data area of `DATA_SIZE` bytes. What a data area is made of differs
between the two versions (`std::string` in the one, `char[DATA_SIZE]` in the other), and neither
files nor buffer pools look inside it, so the type of the data area is a parameter `D` here.
-/

namespace CS640.Badger

/-- `Page::SIZE`. -/
abbrev pageSize : Nat := 8192

/-- `sizeof(PageHeader)`. -/
abbrev pageHeaderSize : Nat := 16

/-- `Page::DATA_SIZE`. -/
abbrev dataSize : Nat := pageSize - pageHeaderSize

structure PageHeader where
  freeSpaceLowerBound : Nat
  freeSpaceUpperBound : Nat
  numSlots : Nat
  numFreeSlots : Nat
  currentPageNumber : Nat
  nextPageNumber : Nat
  deriving DecidableEq, Repr

/-- What a type of data areas must offer: the area of `DATA_SIZE` zero bytes. -/
class PageData (D : Type) where
  zeros : D

/-- `char data_[DATA_SIZE]`, the data area of p3. -/
abbrev CharArea : Type := Nat → UInt8

instance : PageData CharArea := ⟨fun _ => 0⟩

/-- `std::string data_`, the data area of p2. -/
abbrev StringArea : Type := List UInt8

instance : PageData StringArea := ⟨List.replicate dataSize 0⟩

/-- The class `Page`, over data areas `D`. -/
structure Page (D : Type) where
  header : PageHeader
  data : D
  deriving DecidableEq

namespace Page

variable {D : Type}

/-- `Page::Page`, which is `Page::initialize`. -/
def init [PageData D] : Page D where
  header :=
    { freeSpaceLowerBound := 0
      freeSpaceUpperBound := dataSize
      numSlots := 0
      numFreeSlots := 0
      currentPageNumber := invalidNumber
      nextPageNumber := invalidNumber }
  data := PageData.zeros

/-- A page of zero bytes, which is what a hole in a file reads as. -/
def zero [PageData D] : Page D where
  header := ⟨0, 0, 0, 0, 0, 0⟩
  data := PageData.zeros

/-- `Page::page_number`. -/
def pageNumber (p : Page D) : Nat := p.header.currentPageNumber

/-- `Page::next_page_number`. -/
def nextPageNumber (p : Page D) : Nat := p.header.nextPageNumber

/-- `Page::set_page_number`. -/
def setPageNumber (p : Page D) (n : Nat) : Page D :=
  { p with header := { p.header with currentPageNumber := n } }

/-- `Page::set_next_page_number`. -/
def setNextPageNumber (p : Page D) (n : Nat) : Page D :=
  { p with header := { p.header with nextPageNumber := n } }

/-- `Page::isUsed`. -/
def isUsed (p : Page D) : Bool := p.pageNumber != invalidNumber

/-- Everything a page holds but the link to the next page. The link belongs to the file: it is
rewritten on disk when a neighbour is allocated or deleted, and writing a page back keeps the one
on disk. -/
def contents (p : Page D) : Page D := p.setNextPageNumber invalidNumber

variable {p q : Page D} {m n : Nat}

@[simp] theorem pageNumber_init [PageData D] : (init : Page D).pageNumber = 0 := rfl

@[simp] theorem nextPageNumber_init [PageData D] : (init : Page D).nextPageNumber = 0 := rfl

@[simp] theorem pageNumber_zero [PageData D] : (zero : Page D).pageNumber = 0 := rfl

@[simp] theorem pageNumber_setPageNumber : (p.setPageNumber n).pageNumber = n := rfl

@[simp] theorem pageNumber_setNextPageNumber :
    (p.setNextPageNumber n).pageNumber = p.pageNumber := rfl

@[simp] theorem nextPageNumber_setPageNumber :
    (p.setPageNumber n).nextPageNumber = p.nextPageNumber := rfl

@[simp] theorem nextPageNumber_setNextPageNumber :
    (p.setNextPageNumber n).nextPageNumber = n := rfl

@[simp] theorem setNextPageNumber_setNextPageNumber :
    (p.setNextPageNumber m).setNextPageNumber n = p.setNextPageNumber n := rfl

@[simp] theorem contents_setNextPageNumber : (p.setNextPageNumber n).contents = p.contents := rfl

@[simp] theorem contents_setPageNumber :
    (p.setPageNumber n).contents = p.contents.setPageNumber n := rfl

@[simp] theorem contents_contents : p.contents.contents = p.contents := rfl

@[simp] theorem pageNumber_contents : p.contents.pageNumber = p.pageNumber := rfl

@[simp] theorem contents_init [PageData D] : (init : Page D).contents = init := rfl

@[simp] theorem isUsed_eq_true : p.isUsed = true ↔ p.pageNumber ≠ 0 := by
  simp [isUsed]

@[simp] theorem isUsed_eq_false : p.isUsed = false ↔ p.pageNumber = 0 := by
  simp [isUsed]

end Page

end CS640.Badger
