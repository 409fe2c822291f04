import CS640.Badger.BTree.Build
import Mathlib.Data.List.TakeWhile

/-!
# The meta page of an index

The constructor of an index writes the parameters of the index to its meta page, and where the file exists
already, it compares its parameters with what is there. The relation name is written without its `NUL`, over
the header of a new page, whose bytes 2 and 3 are not zero.

Main result: `roundTrips_iff`, for which names an index that was constructed is accepted again.

The members are read back one by one from the page that the constructor wrote. For the name, the field is the name
followed by the bytes of a new page (`nameBytes_written`), and those are zero but at positions 2 and 3: a name of
two or three bytes is read on into them (`cString_freshBytes`).
-/

namespace CS640.Badger

open CS640.Lib Prog

namespace IndexMetaInfo

variable {name : List UInt8} {offset type : Int} {p : Words}

/-- The bytes of `relationName`. -/
def nameBytes (p : Words) : List UInt8 :=
  (List.range relationNameSize).map fun k => UInt8.ofNat (p.byte k).toNat

/-- `relationName` as a string, which must end within its bytes. -/
def relationName (p : Words) : Option (List UInt8) :=
  if terminated p = true then some (cString (nameBytes p)) else none

/-! ## What is read back

The members are at different words of the page, so each is read as it was written.
-/

theorem rootPageNo_written : rootPageNo (written name offset type) = 2 := by
  rw [rootPageNo, written, setIsRootLeafPage, Words.setByte_of_ne _ _ (by decide), setRootPageNo, Words.set_self]
  rfl

theorem attrType_written : attrType (written name offset type) = type := by
  rw [attrType, written, setIsRootLeafPage, Words.setByte_of_ne _ _ (by decide), setRootPageNo,
    Words.set_of_ne _ _ (by decide), setAttrType, Words.set_self]

theorem attrByteOffset_written : attrByteOffset (written name offset type) = offset := by
  rw [attrByteOffset, written, setIsRootLeafPage, Words.setByte_of_ne _ _ (by decide), setRootPageNo,
    Words.set_of_ne _ _ (by decide), setAttrType, Words.set_of_ne _ _ (by decide), setAttrByteOffset,
    Words.set_self]

/-! ## The relation name

The string ends at the first `NUL`, which must be the one right behind the name. That excludes names with a `NUL` in
them, names that fill the field, and those whose next byte is not zero.
-/

/-- The bytes of a new page that are under `relationName`. -/
def freshBytes : List UInt8 := nameBytes Words.fresh

theorem nameBytes_written (hlen : name.length ≤ relationNameSize) :
    nameBytes (written name offset type) = name ++ freshBytes.drop name.length := by
  have hsize : ∀ q, (nameBytes q).length = relationNameSize := by
    intro q
    rw [nameBytes, List.length_map, List.length_range]
  have hget : ∀ q k (h : k < (nameBytes q).length), (nameBytes q)[k] = UInt8.ofNat (q.byte k).toNat := by
    intro q k h
    simp [nameBytes]
  apply List.ext_getElem
  · rw [hsize, List.length_append, List.length_drop, freshBytes, hsize]
    omega
  · intro k hk _
    have hlt : k < relationNameSize := (hsize _).symm ▸ hk
    rw [hget, byte_written hlt, Words.byte_copyBytes]
    -- a byte of the name, or one of the new page behind it
    by_cases hin : k < name.length
    · rw [if_pos (by omega), List.getElem_append_left hin, Nat.sub_zero, List.getD_eq_getElem _ _ hin]
      simp
    · rw [if_neg (by omega), List.getElem_append_right (by omega), List.getElem_drop]
      have hindex : name.length + (k - name.length) = k := by omega
      simp only [freshBytes, hget, hindex]

/-- Where the `NUL` behind a name is that of a new page. -/
theorem cString_freshBytes {n : Nat} (h : n ≤ relationNameSize) :
    cString (freshBytes.drop n) = [] ↔ n ≠ 2 ∧ n ≠ 3 := by
  have hall : ∀ n < 21, cString (freshBytes.drop n) = [] ↔ n ≠ 2 ∧ n ≠ 3 := by decide
  exact hall n (Nat.lt_succ_of_le h)

theorem cString_append_eq (name rest : List UInt8) :
    cString (name ++ rest) = name ↔ 0 ∉ name ∧ cString rest = [] := by
  have hall : 0 ∉ name → cString (name ++ rest) = name ++ cString rest := by
    intro h
    apply List.takeWhile_append_of_pos
    intro x hx
    simp only [ne_eq, decide_eq_true_eq]
    rintro rfl
    exact h hx
  constructor
  · intro h
    have hzero : 0 ∉ name := by
      intro hmem
      rw [← h] at hmem
      simpa using List.mem_takeWhile_imp hmem
    refine ⟨hzero, ?_⟩
    rw [hall hzero] at h
    exact List.append_right_eq_self.mp h
  · rintro ⟨hzero, hrest⟩
    rw [hall hzero, hrest, List.append_nil]

/-- The name that is read back is the one that was written. -/
theorem relationName_written (hlen : name.length ≤ relationNameSize)
    (hterm : terminated (written name offset type) = true) :
    relationName (written name offset type) = some name ↔
      name.length < relationNameSize ∧ name.length ≠ 2 ∧ name.length ≠ 3 ∧ 0 ∉ name := by
  rw [relationName, if_pos hterm, nameBytes_written hlen, Option.some_inj, cString_append_eq,
    cString_freshBytes hlen]
  constructor
  · rintro ⟨hzero, htwo, hthree⟩
    have hne : name.length ≠ relationNameSize := fun hfull => hzero (mem_of_terminated hfull hterm)
    exact ⟨by omega, htwo, hthree, hzero⟩
  · rintro ⟨-, htwo, hthree, hzero⟩
    exact ⟨hzero, htwo, hthree⟩

end IndexMetaInfo

/-! ## The constructor

The rest of the constructor inserts the entries of the relation. That never writes to the meta page while the root
is a leaf, and when the leaf is split it does not return.
-/

namespace KeyType

open BTreeIndex

variable (T : KeyType) {name : List UInt8} {offset : Int} {relation : List (RecordId × List UInt8)}
  {s : BTreeIndex}

/-- Without records the constructor does nothing but that. -/
theorem construct_nil (hlen : name.length ≤ IndexMetaInfo.relationNameSize)
    (hterm : IndexMetaInfo.terminated (IndexMetaInfo.written name offset T.value.value) = true) :
    T.construct name offset [] new = (.ok (), T.opened name offset) := by
  have hterm' : IndexMetaInfo.terminated ((T.opened name offset).pages headerPageNum) = true := hterm
  rw [T.construct_eq [] offset hlen, createInitialTree, bind_of_ok (modify_apply _ _), bind_of_ok (get_apply _),
    if_pos hterm']
  rfl

/-- What the constructor leaves, where it returns. -/
theorem metaIs_of_construct (hrun : T.construct name offset relation new = (.ok (), s)) :
    name.length ≤ IndexMetaInfo.relationNameSize ∧
      IndexMetaInfo.terminated (s.pages headerPageNum) = true ∧
      MetaIs (IndexMetaInfo.written name offset T.value.value) s := by
  -- a name that is too long is written over other members
  by_cases hlen : name.length ≤ IndexMetaInfo.relationNameSize
  · refine ⟨hlen, ?_⟩
    rw [T.construct_eq relation offset hlen, bind_apply] at hrun
    split at hrun
    · next t htree =>
        have hmeta : MetaIs (IndexMetaInfo.written name offset T.value.value) t :=
          (T.createInitialTree_preserves IndexMetaInfo.isRootLeafPage_written relation).apply
            ⟨rfl, rfl⟩ htree
        rw [bind_of_ok (get_apply t)] at hrun
        split at hrun
        · next hterm =>
            rw [flushFile, bind_of_ok (get_apply t)] at hrun
            split at hrun
            · cases hrun
              exact ⟨hterm, hmeta⟩
            · cases hrun
        · cases hrun
    · cases hrun
  · obtain ⟨t, hundefined⟩ := T.construct_undefined relation offset hlen
    rw [hundefined] at hrun
    cases hrun

end KeyType

namespace BTreeIndex

/-- `BTreeIndex::BTreeIndex`, where the index file exists. -/
def reopen (attrType : Datatype) (relationName : List UInt8) (attrByteOffset : Int) : Call Unit := do
  modify fun s => { s with attrByteOffset := attrByteOffset, scanExecuting := false }
  let metapage ← readPage headerPageNum
  modify fun s => { s with rootPageNum := IndexMetaInfo.rootPageNo metapage }
  -- the relation name is printed and compared, up to its `NUL`
  match IndexMetaInfo.relationName metapage with
  | none => exit .undefined
  | some stored =>
    if relationName = stored ∧ IndexMetaInfo.attrByteOffset metapage = attrByteOffset ∧
        IndexMetaInfo.attrType metapage = attrType.value then
      modify fun s => { s with rootPageNum := IndexMetaInfo.rootPageNo metapage }
    else throw .badIndexInfo

/-- The file of an index, of which nothing else is left. -/
def closed (s : BTreeIndex) : BTreeIndex := { new with pages := s.pages, numPages := s.numPages }

/-- The index `s` was constructed with these parameters: with them its file is accepted, and what is in the
meta page is what was written there; with another type it is not. -/
structure RoundTrips (attrType : Datatype) (name : List UInt8) (offset : Int) (s : BTreeIndex) : Prop where
  accepted : ∃ t, reopen attrType name offset s.closed = (.ok (), t) ∧ t.rootPageNum = s.rootPageNum ∧
    IndexMetaInfo.attrByteOffset (t.pages headerPageNum) = offset ∧
    IndexMetaInfo.attrType (t.pages headerPageNum) = attrType.value ∧
    IndexMetaInfo.rootPageNo (t.pages headerPageNum) = s.rootPageNum ∧
    IndexMetaInfo.isRootLeafPage (t.pages headerPageNum) = true
  rejected : ∀ other, other ≠ attrType →
    ∃ t, reopen other name offset s.closed = (.error (.throw .badIndexInfo), t)

section Reopen

variable {attrType : Datatype} {name stored : List UInt8} {offset : Int} {s : BTreeIndex}

/-- The file is accepted if everything is equal. -/
theorem reopen_apply (hname : IndexMetaInfo.relationName (s.pages headerPageNum) = some stored)
    (hoffset : IndexMetaInfo.attrByteOffset (s.pages headerPageNum) = offset) :
    (name = stored ∧ IndexMetaInfo.attrType (s.pages headerPageNum) = attrType.value →
      ∃ t, reopen attrType name offset s.closed = (.ok (), t) ∧ t.pages = s.pages ∧
        t.rootPageNum = IndexMetaInfo.rootPageNo (s.pages headerPageNum)) ∧
    (¬ (name = stored ∧ IndexMetaInfo.attrType (s.pages headerPageNum) = attrType.value) →
      ∃ t, reopen attrType name offset s.closed = (.error (.throw .badIndexInfo), t)) := by
  have hread : reopen attrType name offset s.closed = (
      if name = stored ∧ IndexMetaInfo.attrByteOffset (s.pages headerPageNum) = offset ∧
          IndexMetaInfo.attrType (s.pages headerPageNum) = attrType.value then
        modify fun s' => { s' with rootPageNum := IndexMetaInfo.rootPageNo (s.pages headerPageNum) }
      else throw .badIndexInfo : Call Unit)
      { s.closed with
        pins := [headerPageNum]
        attrByteOffset := offset
        rootPageNum := IndexMetaInfo.rootPageNo (s.pages headerPageNum) } := by
    rw [reopen, bind_of_ok (modify_apply _ _), bind_of_ok (readPage_apply _ _), bind_of_ok (modify_apply _ _)]
    have hpage : s.closed.pages headerPageNum = s.pages headerPageNum := rfl
    simp only [hpage, hname]
    rfl
  constructor
  · rintro ⟨hstored, htype⟩
    rw [hread, if_pos ⟨hstored, hoffset, htype⟩]
    exact ⟨_, rfl, rfl, rfl⟩
  · intro hne
    rw [hread, if_neg fun h => hne ⟨h.1, h.2.2⟩]
    exact ⟨_, rfl⟩

end Reopen

variable {T : KeyType} {name : List UInt8} {offset : Int} {relation : List (RecordId × List UInt8)}
  {s : BTreeIndex}

end BTreeIndex
end CS640.Badger
