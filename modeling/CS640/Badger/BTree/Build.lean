import CS640.Badger.BTree.Insert
import Mathlib.Data.List.GetD

/-!
# Building an index

Main results: `build_ok` and `build_undefined`. The constructor and the insertions that follow it return
exactly when the relation name fits into the meta page and all entries fit into one leaf, and then the
root is that leaf, with the entries in the order in which they were inserted.

Everything rests on `LeafRoot s entries`: the root of `s` is a leaf that holds `entries`. The constructor sets up
such an index with no entries, and an insertion appends one while there is room (`insertAll_ok`). The insertion
after that splits the leaf, which is undefined behaviour (`insertAll_undefined`).
-/

namespace CS640.Badger

open CS640.Lib Prog

/-! ## The relation name

The constructor copies the name to the first bytes of the meta page, into a field of 20 bytes, and reads it back as
a C string. So there must be a `NUL` in the field, behind a shorter name or in a name that fills it.
-/

/-- There is a `NUL` among the bytes of the meta page's `relationName`. -/
def NameFits (relationName : List UInt8) : Prop :=
  relationName.length < IndexMetaInfo.relationNameSize ∨
    relationName.length = IndexMetaInfo.relationNameSize ∧ 0 ∈ relationName

instance (relationName : List UInt8) : Decidable (NameFits relationName) :=
  inferInstanceAs (Decidable (_ ∨ _))

namespace IndexMetaInfo

variable {name : List UInt8} {offset type : Int}

/-- The meta page that the constructor writes, for any key type. -/
def written (name : List UInt8) (offset type : Int) : Words :=
  setIsRootLeafPage (setRootPageNo (setAttrType (setAttrByteOffset
    (Words.copyBytes 0 name Words.fresh) offset) type) 2) true

theorem isRootLeafPage_written : isRootLeafPage (written name offset type) = true := by
  rw [isRootLeafPage, written, setIsRootLeafPage, Words.byte_setByte]
  decide

/-- The other members are behind the relation name. -/
theorem byte_written {k : Nat} (h : k < relationNameSize) :
    (written name offset type).byte k = (Words.copyBytes 0 name Words.fresh).byte k := by
  have hk : k < 20 := h
  rw [written, setIsRootLeafPage, Words.byte_setByte_of_ne _ _ (by omega)]
  unfold Words.byte setRootPageNo setAttrType setAttrByteOffset
  rw [Words.set_of_ne _ _ (by omega), Words.set_of_ne _ _ (by omega), Words.set_of_ne _ _ (by omega)]

/-- A `NUL` in the field ends a name that fills it only if it is in the name. -/
theorem mem_of_terminated (hfull : name.length = relationNameSize)
    (hterm : terminated (written name offset type) = true) : 0 ∈ name := by
  simp only [terminated, List.any_eq_true, List.mem_range, beq_iff_eq] at hterm
  obtain ⟨k, hk, hzero⟩ := hterm
  rw [byte_written hk, Words.byte_copyBytes, if_pos (by omega), Nat.sub_zero,
    List.getD_eq_getElem _ _ (by omega)] at hzero
  have hbyte : name[k] = 0 := UInt8.toNat_inj.mp (by simpa using hzero)
  exact hbyte ▸ List.getElem_mem _

theorem byte_fresh {k : Nat} (h : 4 ≤ k) : Words.fresh.byte k = 0 := by
  have hk : k / 4 ≠ 0 := by omega
  simp [Words.byte, Words.fresh, hk]

theorem terminated_written (hlen : name.length ≤ relationNameSize) :
    terminated (written name offset type) = true ↔ NameFits name := by
  constructor
  · intro hterm
    -- a shorter name is followed by a byte of a new page; a name that fills the field has its own `NUL`
    by_cases hshort : name.length < relationNameSize
    · exact Or.inl hshort
    · have hfull : name.length = relationNameSize := by omega
      exact Or.inr ⟨hfull, mem_of_terminated hfull hterm⟩
  · intro hfits
    simp only [terminated, List.any_eq_true, List.mem_range, beq_iff_eq]
    rcases hfits with hshort | ⟨hfull, hmem⟩
    · -- the last byte is that of a new page
      refine ⟨19, by decide, ?_⟩
      have : relationNameSize = 20 := rfl
      rw [byte_written (by decide), Words.byte_copyBytes, if_neg (by omega)]
      exact byte_fresh (by decide)
    · obtain ⟨k, hk, hzero⟩ := List.getElem_of_mem hmem
      refine ⟨k, by omega, ?_⟩
      rw [byte_written (by omega), Words.byte_copyBytes, if_pos (by omega), Nat.sub_zero,
        List.getD_eq_getElem _ _ hk, hzero]
      rfl

end IndexMetaInfo

/-! ## The constructor, for any key type

Nothing in it depends on the key type but `createInitialTree` and the type that is written to the meta page. What it
does before is computed once, step by step; the rest starts from `opened`.
-/

namespace KeyType

open BTreeIndex

variable (T : KeyType) {name : List UInt8}

/-- The constructor writes pages 1 and 2 in turn. -/
theorem update_update (f : Nat → Words) (a b c d : Words) :
    Function.update (Function.update (Function.update (Function.update f 1 a) 2 b) 1 c) 2 d =
      Function.update (Function.update f 1 c) 2 d := by
  rw [Function.update_comm (by decide : (1 : Nat) ≠ 2), Function.update_idem,
    Function.update_comm (by decide : (2 : Nat) ≠ 1), Function.update_idem]

/-- The index with no entries that the constructor sets up. -/
def opened (name : List UInt8) (offset : Int) : BTreeIndex :=
  { new with
    pages := Function.update (Function.update new.pages 1 (IndexMetaInfo.written name offset T.value.value)) 2
      (Words.fresh.setValidEntryNum 0)
    numPages := 3
    rootPageNum := 2
    attrByteOffset := offset }

theorem construct_eq (relation : List (RecordId × List UInt8)) (offset : Int)
    (hlen : name.length ≤ IndexMetaInfo.relationNameSize) :
    T.construct name offset relation new = (do
      T.createInitialTree relation
      let s ← get
      if IndexMetaInfo.terminated (s.pages headerPageNum) = true then flushFile
      else exit .undefined : Call Unit) (T.opened name offset) := by
  have hone : (1 : Nat) ≠ 1 + 1 := by decide
  rw [construct]
  simp only [bind_apply, modify_apply, allocPage, get_apply, pure_apply, new, unPinPage, if_pos hlen,
    readPage_apply, update_apply, List.mem_cons, true_or, if_true, List.erase_cons_head,
    Function.update_self, Function.update_idem, Function.update_of_ne hone,
    Function.update_of_ne hone.symm]
  rw [update_update]
  rfl

theorem construct_undefined (relation : List (RecordId × List UInt8)) (offset : Int)
    (hlen : ¬ name.length ≤ IndexMetaInfo.relationNameSize) :
    ∃ t, T.construct name offset relation new = (.error .undefined, t) := by
  rw [construct]
  simp only [bind_apply, modify_apply, allocPage, get_apply, pure_apply, new, unPinPage, if_neg hlen,
    readPage_apply, List.mem_cons, true_or, if_true, exit_apply]
  exact ⟨_, rfl⟩

end KeyType

namespace BTreeIndex

variable {s : BTreeIndex} {entries : List RIDKeyPair}

/-! ## Inserting many entries

The root stays the leaf that it was, so its entries are appended one after the other until it is full. The proofs go
by induction on the entries that are left.
-/

/-- Insert entries one after the other. -/
def insertAll (fuel : Nat) : List RIDKeyPair → Call Unit
  | [] => pure ()
  | e :: entries => do
    insertEntry fuel e.key e.rid
    insertAll fuel entries

/-- Everything but the pages of the index. -/
structure SameMembers (s t : BTreeIndex) : Prop where
  pins : t.pins = s.pins
  attrByteOffset : t.attrByteOffset = s.attrByteOffset
  scanExecuting : t.scanExecuting = s.scanExecuting
  nextEntry : t.nextEntry = s.nextEntry
  currentPageNum : t.currentPageNum = s.currentPageNum
  metapage : t.pages headerPageNum = s.pages headerPageNum

theorem SameMembers.refl (s : BTreeIndex) : SameMembers s s := ⟨rfl, rfl, rfl, rfl, rfl, rfl⟩

theorem sameMembers_appended (s : BTreeIndex) (e : RIDKeyPair) : SameMembers s (s.appended e) :=
  ⟨rfl, rfl, rfl, rfl, rfl, pages_appended_of_ne s e (by decide)⟩

theorem SameMembers.trans {t u : BTreeIndex} (h : SameMembers s t) (h' : SameMembers t u) :
    SameMembers s u where
  pins := h'.pins.trans h.pins
  attrByteOffset := h'.attrByteOffset.trans h.attrByteOffset
  scanExecuting := h'.scanExecuting.trans h.scanExecuting
  nextEntry := h'.nextEntry.trans h.nextEntry
  currentPageNum := h'.currentPageNum.trans h.currentPageNum
  metapage := h'.metapage.trans h.metapage

theorem insertAll_ok (fuel : Nat) (further : List RIDKeyPair) :
    ∀ {s : BTreeIndex} {entries : List RIDKeyPair}, LeafRoot s entries →
      (entries ++ further).length ≤ intArrayLeafSize →
      ∃ t, insertAll fuel further s = (.ok (), t) ∧ LeafRoot t (entries ++ further) ∧
        SameMembers s t := by
  -- over the entries that are left
  induction further with
  | nil =>
      intro s entries h _
      exact ⟨s, rfl, by simpa using h, SameMembers.refl s⟩
  | cons e further ih =>
      intro s entries h hbound
      have hroom : entries.length < intArrayLeafSize := by
        simp only [List.length_append, List.length_cons] at hbound
        omega
      obtain ⟨t, hrun, ht, hsame⟩ := ih (h.appended hroom e) (by simpa using hbound)
      refine ⟨t, ?_, by simpa using ht, (sameMembers_appended s e).trans hsame⟩
      rw [insertAll, bind_of_ok (insertEntry_append h hroom fuel e), hrun]

theorem insertAll_undefined (fuel : Nat) (further : List RIDKeyPair) :
    ∀ {s : BTreeIndex} {entries : List RIDKeyPair}, LeafRoot s entries →
      intArrayLeafSize < (entries ++ further).length →
      ∃ t, insertAll fuel further s = (.error .undefined, t) := by
  -- over the entries that are left; the leaf is full when one of them comes
  induction further with
  | nil =>
      intro s entries h hmany
      have hbound := h.holds.bound
      rw [List.append_nil] at hmany
      omega
  | cons e further ih =>
      intro s entries h hmany
      rw [insertAll]
      by_cases hroom : entries.length < intArrayLeafSize
      · obtain ⟨t, hrun⟩ := ih (h.appended hroom e) (by simpa using hmany)
        exact ⟨t, by rw [bind_of_ok (insertEntry_append h hroom fuel e), hrun]⟩
      · have hfull : entries.length = intArrayLeafSize := by
          have hbound := h.holds.bound
          omega
        exact ⟨_, bind_of_error (insertEntry_full h hfull fuel e.key e.rid)⟩

/-! ## The entries of a relation

`createInitialTree` scans the relation and inserts an entry for each record. It is the same as inserting the list of
these entries, or undefined where a record is too short for a key.
-/

/-- The entries that the records of a relation get, if each has an `int` at `offset`. -/
def entriesOf (offset : Int) : List (RecordId × List UInt8) → Option (List RIDKeyPair)
  | [] => some []
  | (rid, record) :: relation => do
    let key ← keyOf offset record
    let entries ← entriesOf offset relation
    pure (⟨rid, key⟩ :: entries)

/-- The tree is built by inserting the entries of the relation. -/
theorem createInitialTree_eq (fuel : Nat) (relation : List (RecordId × List UInt8)) :
    ∀ {built : List RIDKeyPair} {s : BTreeIndex} {entries : List RIDKeyPair},
      entriesOf s.attrByteOffset relation = some built → LeafRoot s entries →
      createInitialTree fuel relation s =
        (insertAll fuel built >>= fun _ => modify fun s => { s with scanExecuting := false }) s := by
  -- over the records that are left
  induction relation with
  | nil =>
      intro built s entries hrel _
      cases hrel
      rfl
  | cons x relation ih =>
      obtain ⟨rid, record⟩ := x
      intro built s entries hrel h
      simp only [entriesOf, Option.bind_eq_bind, Option.bind_eq_some_iff] at hrel
      obtain ⟨key, hkey, rest, hrest, heq⟩ := hrel
      cases heq
      have hmember : member (keyOf s.attrByteOffset record) s = (.ok key, s) := by
        rw [hkey]
        rfl
      rw [createInitialTree_cons, bind_of_ok (get_apply s), bind_of_ok hmember, insertAll]
      -- the entry fits into the leaf, or both sides are undefined at it
      by_cases hroom : entries.length < intArrayLeafSize
      · have hone := insertEntry_append h hroom fuel ⟨rid, key⟩
        rw [bind_of_ok hone, ih (s := s.appended ⟨rid, key⟩) hrest (h.appended hroom ⟨rid, key⟩)]
        simp only [bind_apply, hone]
      · have hfull : entries.length = intArrayLeafSize := by
          have hbound := h.holds.bound
          omega
        have hone := insertEntry_full h hfull fuel key rid
        rw [bind_of_error hone]
        simp only [bind_apply, hone]

/-- A record without an `int` at the offset is read past its end. -/
theorem createInitialTree_none (fuel : Nat) (relation : List (RecordId × List UInt8)) :
    ∀ {s : BTreeIndex} {entries : List RIDKeyPair},
      entriesOf s.attrByteOffset relation = none → LeafRoot s entries →
      ∃ t, createInitialTree fuel relation s = (.error .undefined, t) := by
  induction relation with
  | nil => intro s entries hrel _; cases hrel
  | cons x relation ih =>
      obtain ⟨rid, record⟩ := x
      intro s entries hrel h
      rw [createInitialTree_cons, bind_of_ok (get_apply s)]
      -- this record has no key, or a later one has none
      cases hkey : keyOf s.attrByteOffset record with
      | none => exact ⟨s, rfl⟩
      | some key =>
          have hmember : member (some key) s = (.ok key, s) := rfl
          have hrest : entriesOf s.attrByteOffset relation = none := by
            rw [Option.eq_none_iff_forall_ne_some]
            simpa [entriesOf, hkey] using hrel
          rw [bind_of_ok hmember]
          by_cases hroom : entries.length < intArrayLeafSize
          · obtain ⟨t, hrun⟩ := ih (s := s.appended ⟨rid, key⟩) hrest (h.appended hroom ⟨rid, key⟩)
            exact ⟨t, by rw [bind_of_ok (insertEntry_append h hroom fuel ⟨rid, key⟩), hrun]⟩
          · have hfull : entries.length = intArrayLeafSize := by
              have hbound := h.holds.bound
              omega
            exact ⟨_, bind_of_error (insertEntry_full h hfull fuel key rid)⟩

/-! ## The constructor

The constructor for `INTEGER` keys is the general one, and its results follow from the two parts: what is set up
before, and the insertions. `construct_cases` and `build_cases` turn them round: where a call returned, the root is
a leaf.
-/

/-- The index with no entries that the constructor sets up. -/
def opened (name : List UInt8) (offset : Int) : BTreeIndex := (intKey 0).opened name offset

theorem leafRoot_opened (name : List UInt8) (offset : Int) : LeafRoot (opened name offset) [] where
  root := rfl
  isLeaf := IndexMetaInfo.isRootLeafPage_written
  holds := ⟨rfl, by decide, fun i h => absurd h (Nat.not_lt_zero i),
    fun i h => absurd h (Nat.not_lt_zero i)⟩
  sibling := rfl
  unwritten := rfl

/-- What the constructor does before and after the tree is built. -/
theorem construct_eq (fuel : Nat) {name : List UInt8} (offset : Int)
    (relation : List (RecordId × List UInt8)) (hlen : name.length ≤ IndexMetaInfo.relationNameSize) :
    construct fuel name offset relation new = (do
      createInitialTree fuel relation
      let s ← get
      if IndexMetaInfo.terminated (s.pages headerPageNum) = true then flushFile
      else exit .undefined : Call Unit) (opened name offset) :=
  (intKey fuel).construct_eq relation offset hlen

theorem construct_undefined (fuel : Nat) {name : List UInt8} (offset : Int)
    (relation : List (RecordId × List UInt8))
    (hlen : ¬ name.length ≤ IndexMetaInfo.relationNameSize) :
    ∃ t, construct fuel name offset relation new = (.error .undefined, t) :=
  (intKey fuel).construct_undefined relation offset hlen

/-- What holds of an index that no scan was ever started on. -/
structure Idle (s : BTreeIndex) : Prop where
  pins : s.pins = []
  scanExecuting : s.scanExecuting = false
  nextEntry : s.nextEntry = none
  currentPageNum : s.currentPageNum = none

theorem idle_opened (name : List UInt8) (offset : Int) : Idle (opened name offset) :=
  ⟨rfl, rfl, rfl, rfl⟩

theorem Idle.congr {t : BTreeIndex} (h : Idle s) (hsame : SameMembers s t) : Idle t where
  pins := hsame.pins.trans h.pins
  scanExecuting := hsame.scanExecuting.trans h.scanExecuting
  nextEntry := hsame.nextEntry.trans h.nextEntry
  currentPageNum := hsame.currentPageNum.trans h.currentPageNum

section Build

variable {name : List UInt8} {offset : Int} {relation : List (RecordId × List UInt8)}
  {built : List RIDKeyPair}

/-- Build an index over a relation, and insert more entries. -/
def build (fuel : Nat) (name : List UInt8) (offset : Int) (relation : List (RecordId × List UInt8))
    (further : List RIDKeyPair) : Call Unit := do
  construct fuel name offset relation
  insertAll fuel further

theorem construct_ok (fuel : Nat) (hname : NameFits name) (hrel : entriesOf offset relation = some built)
    (hbound : built.length ≤ intArrayLeafSize) :
    ∃ t, construct fuel name offset relation new = (.ok (), t) ∧ LeafRoot t built ∧ Idle t := by
  have hlen : name.length ≤ IndexMetaInfo.relationNameSize := by
    -- the name fits into its field in both cases
    rcases hname with h | h
    · exact Nat.le_of_lt h
    · exact Nat.le_of_eq h.1
  have hopened := leafRoot_opened name offset
  obtain ⟨t, hrun, ht, hsame⟩ := insertAll_ok fuel built hopened (by simpa using hbound)
  have hidle := (idle_opened name offset).congr hsame
  have htree : createInitialTree fuel relation (opened name offset) = (.ok (), t) := by
    rw [createInitialTree_eq fuel relation hrel hopened, bind_of_ok hrun, modify_apply,
      ← hidle.scanExecuting]
  -- the meta page is as the constructor wrote it
  have hterm : IndexMetaInfo.terminated (t.pages headerPageNum) = true := by
    rw [hsame.metapage]
    exact (IndexMetaInfo.terminated_written hlen).mpr hname
  refine ⟨t, ?_, by simpa using ht, hidle⟩
  rw [construct_eq fuel offset relation hlen, bind_of_ok htree, bind_of_ok (get_apply t),
    if_pos hterm, flushFile, bind_of_ok (get_apply t), if_pos hidle.pins, pure_apply]

theorem construct_fails (fuel : Nat) (hrel : entriesOf offset relation = some built)
    (h : ¬ (NameFits name ∧ built.length ≤ intArrayLeafSize)) :
    ∃ t, construct fuel name offset relation new = (.error .undefined, t) := by
  by_cases hlen : name.length ≤ IndexMetaInfo.relationNameSize
  · have hopened := leafRoot_opened name offset
    rw [construct_eq fuel offset relation hlen, bind_apply,
      createInitialTree_eq fuel relation hrel hopened]
    by_cases hbound : built.length ≤ intArrayLeafSize
    · -- the name has no `NUL`
      obtain ⟨t, hrun, _, hsame⟩ := insertAll_ok fuel built hopened (by simpa using hbound)
      have hterm : ¬ IndexMetaInfo.terminated (t.pages headerPageNum) = true := by
        rw [hsame.metapage]
        exact fun hterm => h ⟨(IndexMetaInfo.terminated_written hlen).mp hterm, hbound⟩
      refine ⟨{ t with scanExecuting := false }, ?_⟩
      rw [bind_of_ok hrun, modify_apply]
      dsimp only
      rw [bind_of_ok (get_apply _), if_neg hterm, exit_apply]
    · obtain ⟨t, hrun⟩ := insertAll_undefined fuel built hopened (by simpa using hbound)
      exact ⟨t, by rw [bind_of_error hrun]⟩
  · exact construct_undefined fuel offset relation hlen

/-- Where the constructor returns. -/
theorem construct_cases {fuel : Nat} {t : BTreeIndex}
    (hrun : construct fuel name offset relation new = (.ok (), t)) :
    ∃ built, LeafRoot t built ∧ Idle t := by
  -- each way of not returning contradicts the run
  cases hrel : entriesOf offset relation with
  | none =>
      by_cases hlen : name.length ≤ IndexMetaInfo.relationNameSize
      · obtain ⟨u, hrun'⟩ := createInitialTree_none fuel relation (s := opened name offset) hrel
          (leafRoot_opened name offset)
        rw [construct_eq fuel offset relation hlen, bind_of_error hrun'] at hrun
        cases hrun
      · obtain ⟨u, hrun'⟩ := construct_undefined fuel offset relation hlen
        rw [hrun'] at hrun
        cases hrun
  | some built =>
      by_cases h : NameFits name ∧ built.length ≤ intArrayLeafSize
      · obtain ⟨u, hrun', hu, hidle⟩ := construct_ok fuel h.1 hrel h.2
        rw [hrun'] at hrun
        cases hrun
        exact ⟨built, hu, hidle⟩
      · obtain ⟨u, hrun'⟩ := construct_fails fuel hrel h
        rw [hrun'] at hrun
        cases hrun

theorem build_ok (fuel : Nat) {further : List RIDKeyPair} (hname : NameFits name)
    (hrel : entriesOf offset relation = some built)
    (hbound : (built ++ further).length ≤ intArrayLeafSize) :
    ∃ t, build fuel name offset relation further new = (.ok (), t) ∧
      LeafRoot t (built ++ further) ∧ Idle t := by
  have hlen : (built ++ further).length = built.length + further.length := List.length_append
  obtain ⟨s, hrun, hs, hidle⟩ := construct_ok fuel hname hrel (by omega)
  obtain ⟨t, hrun', ht, hsame⟩ := insertAll_ok fuel further hs hbound
  exact ⟨t, by rw [build, bind_of_ok hrun, hrun'], ht, hidle.congr hsame⟩

theorem build_undefined (fuel : Nat) {further : List RIDKeyPair}
    (hrel : entriesOf offset relation = some built)
    (h : ¬ (NameFits name ∧ (built ++ further).length ≤ intArrayLeafSize)) :
    ∃ t, build fuel name offset relation further new = (.error .undefined, t) := by
  have hlen : (built ++ further).length = built.length + further.length := List.length_append
  rw [build]
  -- the constructor returns and a later insertion splits the leaf, or it does not return itself
  by_cases hconstruct : NameFits name ∧ built.length ≤ intArrayLeafSize
  · obtain ⟨s, hrun, hs, _⟩ := construct_ok fuel hconstruct.1 hrel hconstruct.2
    have hmany : intArrayLeafSize < (built ++ further).length :=
      Nat.lt_of_not_le fun hle => h ⟨hconstruct.1, hle⟩
    obtain ⟨t, hrun'⟩ := insertAll_undefined fuel further hs hmany
    exact ⟨t, by rw [bind_of_ok hrun, hrun']⟩
  · obtain ⟨t, hrun⟩ := construct_fails fuel hrel hconstruct
    exact ⟨t, bind_of_error hrun⟩

/-- Where building an index returns. -/
theorem build_cases {fuel : Nat} {further : List RIDKeyPair} {t : BTreeIndex}
    (hrun : build fuel name offset relation further new = (.ok (), t)) :
    ∃ entries, LeafRoot t entries ∧ Idle t := by
  rw [build, bind_apply] at hrun
  split at hrun
  · next s hconstruct =>
      obtain ⟨built, hs, hidle⟩ := construct_cases hconstruct
      by_cases hbound : (built ++ further).length ≤ intArrayLeafSize
      · obtain ⟨u, hrun', hu, hsame⟩ := insertAll_ok fuel further hs hbound
        rw [hrun'] at hrun
        cases hrun
        exact ⟨_, hu, hidle.congr hsame⟩
      · obtain ⟨u, hrun'⟩ := insertAll_undefined fuel further hs (Nat.lt_of_not_le hbound)
        rw [hrun'] at hrun
        cases hrun
  · cases hrun

end Build

end BTreeIndex
end CS640.Badger
