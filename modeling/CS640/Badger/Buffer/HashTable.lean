import CS640.Badger.Buffer.Pool
import CS640.Lib.Chain
import Mathlib.Data.List.Induction
import Mathlib.Data.List.Perm.Subperm

/-!
# The hash table of the buffer pool

`BufHashTbl` as it is in memory, the same in the two versions: an array of `HTSIZE` heads, and buckets on
the heap that are linked by `next`. Buckets are known by their addresses, `0` being `NULL`; reading or
writing one that is not allocated, or the array outside of its bounds, is undefined behaviour. Addresses of
`File` objects have 64 bits, page numbers and frame numbers 32.

Where `Pool` has the table as a `ChainedTable`, this module shows that the pointers represent one, call by
call. Main result: `finiteMap`, over every run of calls.

`Represents t L T` ties the memory to the table: `L` lists the addresses of each chain, and `T` is the table of the
library. Each of the three functions is shown to do to the memory what the operation of the library does to `T`, and
the properties of a map are then those of `ChainedTable`.

* `search_found`, `search_missing`: the loop that the three functions share.
* `Represents.alloc`, `Represents.unlink_head`, `Represents.unlink_next`: the three ways in which the pointers
  change.
* `Represents.after`: what a call does, to the memory and to the map.
* `frames_eq_some_iff`: the map in terms of the calls that were made.
-/

namespace CS640.Badger.HashTable

open CS640.Lib Prog

structure HashBucket where
  file : UInt64
  pageNo : UInt32
  frameNo : UInt32
  next : Nat
  deriving DecidableEq, Repr

/-- The members of `BufHashTbl`, and the buckets by their addresses. -/
structure BufHashTbl where
  htSize : Int32
  ht : Nat → Nat
  allocated : List Nat
  bucket : Nat → HashBucket

/-- What `new` relies on: there is always another address. -/
structure Allocator where
  address : List Nat → Nat
  ne_null : ∀ allocated, address allocated ≠ 0
  fresh : ∀ allocated, address allocated ∉ allocated

/-- The cast of the address keeps its low 32 bits, as an `int`; the addition is one of unsigned numbers,
and so is the remainder. -/
def hash (htSize : Int32) (file : UInt64) (pageNo : UInt32) : Int32 :=
  let tmp : Int32 := file.toInt64.toInt32
  ((tmp.toUInt32 + pageNo) % htSize.toUInt32).toInt32

/-- `BufHashTbl::BufHashTbl`. -/
def new (htSize : Int32) : BufHashTbl where
  htSize := htSize
  ht := fun _ => 0
  allocated := []
  bucket := fun _ => ⟨0, 0, 0, 0⟩

/-! ## Memory

Each access to memory is an operation of its own, which is undefined where the program would read or write what is
not its own. That no call is undefined is a part of the result.
-/

/-- `*a`. -/
def deref (a : Nat) : Prog Exn BufHashTbl HashBucket := do
  let t ← get
  if a ∈ t.allocated then pure (t.bucket a) else exit .undefined

def BufHashTbl.setNext (a next : Nat) (t : BufHashTbl) : BufHashTbl :=
  { t with bucket := Function.update t.bucket a { t.bucket a with next := next } }

/-- `a->next = next`. -/
def setNext (a next : Nat) : Prog Exn BufHashTbl Unit := do
  let t ← get
  if a ∈ t.allocated then modify (BufHashTbl.setNext a next) else exit .undefined

/-- An index that is in the array. -/
def InArray (t : BufHashTbl) (index : Int32) : Prop := 0 ≤ index.toInt ∧ index.toInt < t.htSize.toInt

instance (t : BufHashTbl) (index : Int32) : Decidable (InArray t index) :=
  inferInstanceAs (Decidable (_ ∧ _))

/-- `ht[index]`. -/
def head (index : Int32) : Prog Exn BufHashTbl Nat := do
  let t ← get
  if InArray t index then pure (t.ht index.toInt.toNat) else exit .undefined

def BufHashTbl.setHead (i a : Nat) (t : BufHashTbl) : BufHashTbl :=
  { t with ht := Function.update t.ht i a }

/-- `ht[index] = a`. -/
def setHead (index : Int32) (a : Nat) : Prog Exn BufHashTbl Unit := do
  let t ← get
  if InArray t index then modify (BufHashTbl.setHead index.toInt.toNat a) else exit .undefined

def BufHashTbl.alloc (a : Nat) (b : HashBucket) (t : BufHashTbl) : BufHashTbl :=
  { t with
    allocated := a :: t.allocated
    bucket := Function.update t.bucket a b }

/-- `new hashBucket`, with the members it is given after. -/
def newBucket (alloc : Allocator) (b : HashBucket) : Prog Exn BufHashTbl Nat := do
  let t ← get
  let a := alloc.address t.allocated
  modify (BufHashTbl.alloc a b)
  return a

def BufHashTbl.free (a : Nat) (t : BufHashTbl) : BufHashTbl :=
  { t with allocated := t.allocated.erase a }

/-- `delete a`. -/
def delete (a : Nat) : Prog Exn BufHashTbl Unit := do
  let t ← get
  if a ∈ t.allocated then modify (BufHashTbl.free a) else exit .undefined

/-! ## The table

The loop is the same in the three functions; it answers with the bucket it has stopped at and with the one before
it. It is given one round more than there are buckets, so that a chain with a cycle would end in `diverge`.
-/

/-- The loop `while (tmpBuc)` of the three functions: the bucket of the page, or `NULL`, and the bucket
before it. Only `remove` keeps `prevBuc`. A walk longer than there are buckets never ends. -/
def search (file : UInt64) (pageNo : UInt32) : Nat → Nat → Nat → Prog Exn BufHashTbl (Nat × Nat)
  | 0, _, _ => exit .diverge
  | n + 1, prevBuc, tmpBuc =>
    if tmpBuc = 0 then pure (prevBuc, tmpBuc)
    else do
      let b ← deref tmpBuc
      if b.file = file ∧ b.pageNo = pageNo then pure (prevBuc, tmpBuc)
      else search file pageNo n tmpBuc b.next

section Calls

variable (alloc : Allocator) (filename : UInt64 → FileName)

/-- `BufHashTbl::insert`. -/
def insert (file : UInt64) (pageNo frameNo : UInt32) : Prog Exn BufHashTbl Unit := do
  let t ← get
  let index := hash t.htSize file pageNo
  let tmpBuc ← head index
  let found ← search file pageNo (t.allocated.length + 1) 0 tmpBuc
  if found.2 ≠ 0 then
    let b ← deref found.2
    throw (.hashAlreadyPresent (filename b.file) b.pageNo.toNat b.frameNo.toNat)
  else
    let next ← head index
    let tmpBuc ← newBucket alloc ⟨file, pageNo, frameNo, next⟩
    setHead index tmpBuc

/-- `BufHashTbl::lookup`. -/
def lookup (file : UInt64) (pageNo : UInt32) : Prog Exn BufHashTbl UInt32 := do
  let t ← get
  let index := hash t.htSize file pageNo
  let tmpBuc ← head index
  let found ← search file pageNo (t.allocated.length + 1) 0 tmpBuc
  if found.2 ≠ 0 then
    let b ← deref found.2
    return b.frameNo
  else throw (.hashNotFound (filename file) pageNo.toNat)

/-- `BufHashTbl::remove`. -/
def remove (file : UInt64) (pageNo : UInt32) : Prog Exn BufHashTbl Unit := do
  let t ← get
  let index := hash t.htSize file pageNo
  let tmpBuc ← head index
  let found ← search file pageNo (t.allocated.length + 1) 0 tmpBuc
  if found.2 ≠ 0 then
    let b ← deref found.2
    if found.1 ≠ 0 then setNext found.1 b.next else setHead index b.next
    delete found.2
  else throw (.hashNotFound (filename file) pageNo.toNat)

end Calls

/-! ## The index

`hash` is arithmetic of 32 bits with and without sign. For a size that is positive as an `int` it is the index of
the library at the natural numbers that the address and the page number stand for.
-/

theorem toNat_of_pos {n : Int32} (h : 0 < n.toInt) :
    n.toUInt32.toNat = n.toInt.toNat ∧ n.toUInt32.toNat < 2 ^ 31 := by
  have hn : n.toInt = n.toUInt32.toBitVec.toInt := rfl
  have hcond := BitVec.toInt_eq_toNat_cond n.toUInt32.toBitVec
  rw [hn] at h ⊢
  have hlt := n.toUInt32.toNat_lt
  simp only [UInt32.toNat_toBitVec] at hcond
  split at hcond <;> omega

theorem toInt_of_lt {n : UInt32} (h : n.toNat < 2 ^ 31) : n.toInt32.toInt = n.toNat := by
  show n.toBitVec.toInt = _
  rw [BitVec.toInt_eq_toNat_of_lt]
  · rfl
  · rw [UInt32.toNat_toBitVec]
    omega

theorem toNat_low (file : UInt64) : file.toInt64.toInt32.toUInt32.toNat = file.toNat % 2 ^ 32 := by
  show (file.toBitVec.signExtend 32).toNat = _
  rw [BitVec.signExtend_eq_setWidth_of_le _ (by decide), BitVec.toNat_setWidth]
  rfl

/-- The index is the one of the natural numbers that stand for the address and the page. -/
theorem hash_eq {htSize : Int32} (h : 0 < htSize.toInt) (file : UInt64) (pageNo : UInt32) :
    (hash htSize file pageNo).toInt =
      (Badger.BufHashTbl.hash htSize.toInt.toNat (file.toNat, pageNo.toNat) : Nat) := by
  obtain ⟨hsize, hlt⟩ := toNat_of_pos h
  have hnat : ((file.toInt64.toInt32.toUInt32 + pageNo) % htSize.toUInt32).toNat =
      (file.toNat + pageNo.toNat) % 2 ^ 32 % htSize.toUInt32.toNat := by
    rw [UInt32.toNat_mod, UInt32.toNat_add, toNat_low, Nat.mod_add_mod]
  have hmod := Nat.mod_lt ((file.toNat + pageNo.toNat) % 2 ^ 32) (show 0 < htSize.toUInt32.toNat by omega)
  rw [hash, toInt_of_lt (by omega), hnat, hsize]
  rfl

/-- **The index is in the array.** -/
theorem inArray_hash {htSize : Int32} (h : 0 < htSize.toInt) (file : UInt64) (pageNo : UInt32) :
    0 ≤ (hash htSize file pageNo).toInt ∧ (hash htSize file pageNo).toInt < htSize.toInt := by
  have hlt : Badger.BufHashTbl.hash htSize.toInt.toNat (file.toNat, pageNo.toNat) < htSize.toInt.toNat :=
    Nat.mod_lt _ (by omega)
  rw [hash_eq h]
  omega

/-! ## Chains of buckets

The five operations that change the memory, and what each of them leaves of what a bucket says, of its link, of the
heads and of what is allocated. With these lemmas the proofs below never open the record.
-/

abbrev Table : Type := ChainedTable (UInt64 × UInt32) UInt32

namespace BufHashTbl

/-- The index of a page, as a place in the array. -/
def index (t : BufHashTbl) (k : UInt64 × UInt32) : Nat := (hash t.htSize k.1 k.2).toInt.toNat

def next (t : BufHashTbl) (a : Nat) : Nat := (t.bucket a).next

/-- What the bucket at an address says. -/
def entry (t : BufHashTbl) (a : Nat) : (UInt64 × UInt32) × UInt32 :=
  (((t.bucket a).file, (t.bucket a).pageNo), (t.bucket a).frameNo)

variable (t : BufHashTbl) (a p n i x : Nat) (b : HashBucket)

@[simp] theorem index_setNext : (t.setNext p n).index = t.index := rfl

@[simp] theorem entry_setNext : (t.setNext p n).entry = t.entry := by
  funext x
  by_cases hx : x = p
  · subst hx
    simp [entry, setNext]
  · simp [entry, setNext, hx]

@[simp] theorem next_setNext : (t.setNext p n).next = Function.update t.next p n := by
  funext x
  by_cases hx : x = p
  · subst hx
    simp [next, setNext]
  · simp [next, setNext, hx]

@[simp] theorem allocated_setNext : (t.setNext p n).allocated = t.allocated := rfl

@[simp] theorem ht_setNext : (t.setNext p n).ht = t.ht := rfl

@[simp] theorem index_setHead : (t.setHead i a).index = t.index := rfl

@[simp] theorem entry_setHead : (t.setHead i a).entry = t.entry := rfl

@[simp] theorem next_setHead : (t.setHead i a).next = t.next := rfl

@[simp] theorem allocated_setHead : (t.setHead i a).allocated = t.allocated := rfl

@[simp] theorem ht_setHead : (t.setHead i a).ht = Function.update t.ht i a := rfl

@[simp] theorem index_alloc : (t.alloc a b).index = t.index := rfl

@[simp] theorem entry_alloc_self : (t.alloc a b).entry a = ((b.file, b.pageNo), b.frameNo) := by
  simp [entry, alloc]

theorem entry_alloc (hx : x ≠ a) : (t.alloc a b).entry x = t.entry x := by
  simp [entry, alloc, hx]

@[simp] theorem next_alloc : (t.alloc a b).next = Function.update t.next a b.next := by
  funext x
  by_cases hx : x = a
  · subst hx
    simp [next, alloc]
  · simp [next, alloc, hx]

@[simp] theorem allocated_alloc : (t.alloc a b).allocated = a :: t.allocated := rfl

@[simp] theorem ht_alloc : (t.alloc a b).ht = t.ht := rfl

@[simp] theorem index_free : (t.free a).index = t.index := rfl

@[simp] theorem entry_free : (t.free a).entry = t.entry := rfl

@[simp] theorem next_free : (t.free a).next = t.next := rfl

@[simp] theorem allocated_free : (t.free a).allocated = t.allocated.erase a := rfl

@[simp] theorem ht_free : (t.free a).ht = t.ht := rfl

end BufHashTbl

/-- The buckets of the chain at index `i` are those at the addresses `L i`, and say what the table `T` has
at `i`. Every bucket is in the chain at its own index, so none is in two and none is lost. -/
structure Represents (t : BufHashTbl) (L : Nat → List Nat) (T : Table) : Prop where
  size : 0 < t.htSize.toInt
  index : T.index = t.index
  chain : ∀ i, Chain t.next 0 (t.ht i) (L i)
  entries : ∀ i, T.chains i = (L i).map t.entry
  home : ∀ i, ∀ a ∈ L i, t.index (t.entry a).1 = i
  allocated : ∀ a, a ∈ t.allocated ↔ a ∈ L (t.index (t.entry a).1)
  nodup : t.allocated.Nodup

variable {t : BufHashTbl} {L : Nat → List Nat} {T : Table} {k : UInt64 × UInt32} {a i : Nat}
variable {file : UInt64} {pageNo frameNo : UInt32}

theorem deref_eq (h : a ∈ t.allocated) : deref a t = (.ok (t.bucket a), t) := by
  simp [deref, bind_apply, h]

theorem setNext_eq {n : Nat} (h : a ∈ t.allocated) : setNext a n t = (.ok (), t.setNext a n) := by
  simp [setNext, bind_apply, h]

theorem setHead_eq {index : Int32} (h : InArray t index) :
    setHead index a t = (.ok (), t.setHead index.toInt.toNat a) := by
  simp [setHead, bind_apply, h]

theorem newBucket_eq (alloc : Allocator) (b : HashBucket) :
    newBucket alloc b t =
      (.ok (alloc.address t.allocated), t.alloc (alloc.address t.allocated) b) := rfl

theorem delete_eq (h : a ∈ t.allocated) : delete a t = (.ok (), t.free a) := by
  simp [delete, bind_apply, h]

/-- The loop goes on behind a bucket of another page. -/
theorem search_next {n prevBuc tmpBuc : Nat} (hnull : tmpBuc ≠ 0) (hmem : tmpBuc ∈ t.allocated)
    (hne : (t.entry tmpBuc).1 ≠ (file, pageNo)) :
    search file pageNo (n + 1) prevBuc tmpBuc t = search file pageNo n tmpBuc (t.next tmpBuc) t := by
  have hkey : ¬ ((t.bucket tmpBuc).file = file ∧ (t.bucket tmpBuc).pageNo = pageNo) := fun h =>
    hne (Prod.ext h.1 h.2)
  rw [search, if_neg hnull, bind_of_ok (deref_eq hmem), if_neg hkey]
  rfl

/-- It stops at the first bucket of the page. -/
theorem search_found {l₁ l₂ : List Nat} {n prevBuc tmpBuc : Nat}
    (hchain : Chain t.next 0 tmpBuc (l₁ ++ a :: l₂)) (hmem : ∀ x ∈ l₁ ++ a :: l₂, x ∈ t.allocated)
    (ha : (t.entry a).1 = (file, pageNo))
    (hne : ∀ x ∈ l₁, (t.entry x).1 ≠ (file, pageNo)) (hn : l₁.length < n) :
    search file pageNo n prevBuc tmpBuc t = (.ok (l₁.getLastD prevBuc, a), t) := by
  induction l₁ generalizing n prevBuc tmpBuc with
  -- the first bucket is the one of the page, and the loop has a round left for it
  | nil =>
      obtain ⟨n, rfl⟩ := Nat.exists_eq_add_of_lt hn
      obtain rfl : tmpBuc = a := hchain.head_eq
      have hnull : tmpBuc ≠ 0 := hchain.ne_null List.mem_cons_self
      have hkey : (t.bucket tmpBuc).file = file ∧ (t.bucket tmpBuc).pageNo = pageNo := Prod.mk.inj ha
      rw [search, if_neg hnull, bind_of_ok (deref_eq (hmem tmpBuc (by simp))), if_pos hkey]
      rfl
  -- the first bucket is of another page, and the loop goes on behind it
  | cons x l₁ ih =>
      obtain ⟨n, rfl⟩ := Nat.exists_eq_add_of_lt hn
      obtain rfl : tmpBuc = x := hchain.head_eq
      have hnull : tmpBuc ≠ 0 := hchain.ne_null List.mem_cons_self
      rw [search_next hnull (hmem tmpBuc (by simp)) (hne tmpBuc List.mem_cons_self), List.getLastD_cons]
      exact ih hchain.tail (fun y hy => hmem y (List.mem_cons_of_mem _ hy))
        (fun y hy => hne y (List.mem_cons_of_mem _ hy)) (by rw [List.length_cons]; omega)

/-- It runs to the end of a chain that does not have the page. -/
theorem search_missing {l : List Nat} {n prevBuc tmpBuc : Nat} (hchain : Chain t.next 0 tmpBuc l)
    (hmem : ∀ x ∈ l, x ∈ t.allocated) (hne : ∀ x ∈ l, (t.entry x).1 ≠ (file, pageNo)) (hn : l.length < n) :
    ∃ p, search file pageNo n prevBuc tmpBuc t = (.ok (p, 0), t) := by
  induction l generalizing n prevBuc tmpBuc with
  | nil =>
      obtain ⟨n, rfl⟩ := Nat.exists_eq_add_of_lt hn
      obtain rfl : tmpBuc = 0 := hchain.eq_of_nil
      exact ⟨prevBuc, rfl⟩
  | cons x l ih =>
      obtain ⟨n, rfl⟩ := Nat.exists_eq_add_of_lt hn
      obtain rfl : tmpBuc = x := hchain.head_eq
      have hnull : tmpBuc ≠ 0 := hchain.ne_null List.mem_cons_self
      rw [search_next hnull (hmem tmpBuc (by simp)) (hne tmpBuc List.mem_cons_self)]
      exact ih hchain.tail (fun y hy => hmem y (List.mem_cons_of_mem _ hy))
        (fun y hy => hne y (List.mem_cons_of_mem _ hy)) (by rw [List.length_cons]; omega)

namespace Represents

theorem mem_allocated (h : Represents t L T) (ha : a ∈ L i) : a ∈ t.allocated := by
  rw [h.allocated, h.home i a ha]
  exact ha

/-- No chain is longer than there are buckets. -/
theorem length_le (h : Represents t L T) (i : Nat) : (L i).length ≤ t.allocated.length :=
  (List.subperm_of_subset (Chain.nodup (h.chain i)) fun _ ha => h.mem_allocated ha).length_le

theorem inArray (h : Represents t L T) (k : UInt64 × UInt32) : InArray t (hash t.htSize k.1 k.2) :=
  inArray_hash h.size k.1 k.2

theorem head_eq (h : Represents t L T) (k : UInt64 × UInt32) :
    head (hash t.htSize k.1 k.2) t = (.ok (t.ht (t.index k)), t) := by
  simp [head, bind_apply, h.inArray k, BufHashTbl.index]

/-- What the loop finds of a page that is in the table. -/
theorem search_some (h : Represents t L T) {v : UInt32} (hget : T.get k = some v) :
    ∃ l₁ a l₂, L (t.index k) = l₁ ++ a :: l₂ ∧ t.entry a = (k, v) ∧ (∀ x ∈ l₁, (t.entry x).1 ≠ k) ∧
      search k.1 k.2 (t.allocated.length + 1) 0 (t.ht (t.index k)) t = (.ok (l₁.getLastD 0, a), t) := by
  rw [ChainedTable.get, h.index, h.entries] at hget
  -- the entry of the page in the list is that of a bucket, and those before it are of other pages
  obtain ⟨e₁, e₂, hsplit, hbefore⟩ := ChainedTable.exists_of_find hget
  obtain ⟨l₁, l', hL, rfl, htail⟩ := List.map_eq_append_iff.mp hsplit
  obtain ⟨a, l₂, rfl, ha, rfl⟩ := List.map_eq_cons_iff.mp htail
  have hne : ∀ x ∈ l₁, (t.entry x).1 ≠ k := by
    rintro x hx rfl
    exact hbefore (List.mem_map_of_mem (List.mem_map_of_mem hx))
  have hlen := h.length_le (t.index k)
  rw [hL, List.length_append] at hlen
  refine ⟨l₁, a, l₂, hL, ha, hne, ?_⟩
  exact search_found (hL ▸ h.chain _) (fun x hx => h.mem_allocated (hL ▸ hx)) (by rw [ha]) hne (by omega)

/-- What it finds of a page that is not. -/
theorem search_none (h : Represents t L T) (hget : T.get k = none) :
    ∃ p, search k.1 k.2 (t.allocated.length + 1) 0 (t.ht (t.index k)) t = (.ok (p, 0), t) := by
  rw [ChainedTable.get, h.index, h.entries, ChainedTable.find_eq_none] at hget
  refine search_missing (h.chain _) (fun x hx => h.mem_allocated hx) ?_ (Nat.lt_succ_of_le (h.length_le _))
  intro x hx hkey
  refine hget ?_
  rw [← show (t.entry x).1 = k from hkey]
  exact List.mem_map_of_mem (List.mem_map_of_mem (hkey ▸ hx))

/-! ### Insertion

The new bucket is put in front of the chain at its index. It is at an address that no chain has, so all other chains
are as they were.
-/

/-- A new bucket in front of its chain. -/
theorem alloc (h : Represents t L T) (hget : T.get k = none) (hnull : a ≠ 0) (hfresh : a ∉ t.allocated)
    (v : UInt32) :
    Represents ((t.alloc a ⟨k.1, k.2, v, t.ht (t.index k)⟩).setHead (t.index k) a)
      (Function.update L (t.index k) (a :: L (t.index k))) (T.insert k v) := by
  have hne : ∀ i, ∀ x ∈ L i, x ≠ a := by
    rintro i x hx rfl
    exact hfresh (h.mem_allocated hx)
  have hchains : (T.insert k v).chains =
      Function.update T.chains (t.index k) ((k, v) :: T.chains (t.index k)) := by
    rw [ChainedTable.chains_insert hget, h.index]
  have hmem : ∀ i x, x ∈ Function.update L (t.index k) (a :: L (t.index k)) i ↔
      x ∈ L i ∨ x = a ∧ i = t.index k := by
    intro i x
    by_cases hi : i = t.index k
    · subst hi
      rw [Function.update_self, List.mem_cons, or_comm, and_iff_left rfl]
    · rw [Function.update_of_ne hi, or_iff_left fun h => hi h.2]
  refine ⟨h.size, ?_, fun i => ?_, fun i => ?_, fun i x hx => ?_, fun x => ?_, ?_⟩
  · rw [ChainedTable.index_insert]
    exact h.index
  · have hold : Chain (Function.update t.next a (t.ht (t.index k))) 0 (t.ht i) (L i) :=
      (h.chain i).congr fun x hx => Function.update_of_ne (hne i x hx) _ _
    -- at its own index the new bucket comes before the chain, whose links are as they were
    by_cases hi : i = t.index k
    · subst hi
      simpa using Seg.cons hnull (by simpa using hold)
    · simpa [hi] using hold
  · rw [hchains]
    have hold : (L i).map (t.alloc a ⟨k.1, k.2, v, t.ht (t.index k)⟩).entry = (L i).map t.entry :=
      List.map_congr_left fun x hx => t.entry_alloc a x _ (hne i x hx)
    by_cases hi : i = t.index k
    · subst hi
      simp [hold, h.entries]
    · simp [hi, hold, h.entries]
  · rcases (hmem i x).mp hx with hx | ⟨rfl, rfl⟩
    · -- the new bucket is at home at its index, the others are where they were
      simpa [t.entry_alloc a x _ (hne i x hx)] using h.home i x hx
    · simp
  · rw [hmem]
    by_cases hx : x = a
    · subst hx
      simp
    · simp [t.entry_alloc a x _ hx, hx, h.allocated x]
  · exact List.nodup_cons.mpr ⟨hfresh, h.nodup⟩

/-! ### Removal

A bucket is first taken out of its chain and then deleted. `free` is the second step, for any memory in which the
chain is already the shorter one; the first step is a new head or a new link.
-/

variable {l₁ l₂ : List Nat} {v : UInt32}

/-- A bucket that is out of its chain can be deleted. -/
theorem free {u : BufHashTbl} (h : Represents t L T) (hL : L (t.index k) = l₁ ++ a :: l₂)
    (ha : t.entry a = (k, v)) (hne : ∀ x ∈ l₁, (t.entry x).1 ≠ k) (hsize : u.htSize = t.htSize)
    (hentry : u.entry = t.entry) (hallocated : u.allocated = t.allocated)
    (hchain : ∀ i, Chain u.next 0 (u.ht i) (Function.update L (t.index k) (l₁ ++ l₂) i)) :
    Represents (u.free a) (Function.update L (t.index k) (l₁ ++ l₂)) (T.erase k) := by
  have hindex : u.index = t.index := by
    funext k
    rw [BufHashTbl.index, hsize, BufHashTbl.index]
  have hdistinct : a ∉ l₁ ++ l₂ := by
    -- a chain does not come to a bucket twice
    have hnodup := Chain.nodup (h.chain (t.index k))
    rw [hL, List.nodup_middle] at hnodup
    exact (List.nodup_cons.mp hnodup).1
  have hmem : ∀ i x, x ∈ Function.update L (t.index k) (l₁ ++ l₂) i ↔ x ∈ L i ∧ x ≠ a := by
    intro i x
    by_cases hi : i = t.index k
    · subst hi
      rw [Function.update_self, hL]
      grind
    · rw [Function.update_of_ne hi]
      refine ⟨fun hx => ⟨hx, ?_⟩, And.left⟩
      rintro rfl
      have hhome := h.home i x hx
      rw [ha] at hhome
      exact hi hhome.symm
  -- no other chain has the bucket, and its own has it once
  refine ⟨hsize ▸ h.size, ?_, hchain, fun i => ?_, fun i x hx => ?_, fun x => ?_, ?_⟩
  · rw [ChainedTable.index_erase, BufHashTbl.index_free, hindex]
    exact h.index
  · rw [ChainedTable.chains_erase, BufHashTbl.entry_free, hentry, h.index]
    -- the list of the table loses the first entry of the page, which is that of the bucket
    by_cases hi : i = t.index k
    · subst hi
      have hbefore : k ∉ (l₁.map t.entry).map Prod.fst := by
        simpa [List.mem_map] using hne
      rw [Function.update_self, Function.update_self, h.entries, hL, List.map_append, List.map_cons, ha,
        ChainedTable.remove_append hbefore, List.map_append]
    · rw [Function.update_of_ne hi, Function.update_of_ne hi]
      exact h.entries i
  · rw [BufHashTbl.index_free, BufHashTbl.entry_free, hindex, hentry]
    exact h.home i x ((hmem i x).mp hx).1
  · rw [BufHashTbl.allocated_free, BufHashTbl.index_free, BufHashTbl.entry_free, hindex, hentry,
      hallocated, h.nodup.mem_erase_iff, h.allocated, hmem, and_comm]
  · rw [BufHashTbl.allocated_free, hallocated]
    exact h.nodup.erase a

/-- The first bucket of a chain is taken out. -/
theorem unlink_head (h : Represents t L T) (hL : L (t.index k) = a :: l₂) (ha : t.entry a = (k, v)) :
    Represents ((t.setHead (t.index k) (t.next a)).free a) (Function.update L (t.index k) l₂)
      (T.erase k) := by
  have hsplit : L (t.index k) = [] ++ a :: l₂ := hL
  refine h.free hsplit ha (by simp) rfl rfl rfl fun i => ?_
  -- only the chain of the page has another head
  by_cases hi : i = t.index k
  · subst hi
    have hchain := h.chain (t.index k)
    rw [hL] at hchain
    simpa using hchain.tail
  · simpa [hi] using h.chain i

/-- A bucket is taken out behind another one. -/
theorem unlink_next {p : Nat} (h : Represents t L T) (hL : L (t.index k) = l₁ ++ p :: a :: l₂)
    (ha : t.entry a = (k, v)) (hne : ∀ x ∈ l₁ ++ [p], (t.entry x).1 ≠ k) :
    Represents ((t.setNext p (t.next a)).free a) (Function.update L (t.index k) (l₁ ++ p :: l₂))
      (T.erase k) := by
  have hp : p ∈ L (t.index k) := by simp [hL]
  have happend : l₁ ++ p :: l₂ = (l₁ ++ [p]) ++ l₂ := by simp
  rw [happend]
  refine free h (by simp [hL]) ha hne rfl (t.entry_setNext ..) rfl fun i => ?_
  -- in the chain itself no other bucket has the link that changes, and no other chain has the bucket
  by_cases hi : i = t.index k
  · subst hi
    have hchain := h.chain (t.index k)
    have hnodup := Chain.nodup hchain
    rw [hL] at hchain hnodup
    have hother : ∀ y ∈ l₁ ++ l₂, Function.update t.next p (t.next a) y = t.next y := by
      intro y hy
      refine Function.update_of_ne ?_ _ _
      rintro rfl
      grind
    rw [Function.update_self, ← happend]
    simpa using Chain.unlink hchain (Function.update_self ..) hother
  · have hother : ∀ y ∈ L i, Function.update t.next p (t.next a) y = t.next y := by
      intro y hy
      refine Function.update_of_ne ?_ _ _
      rintro rfl
      exact hi ((h.home i y hy).symm.trans (h.home _ y hp))
    rw [Function.update_of_ne hi]
    simpa using (h.chain i).congr hother

/-! ### The three functions

One lemma for each function and each of the two cases, the page in the table or not. Where the page is there, the
chain is split at its bucket.
-/

variable (alloc : Allocator) (filename : UInt64 → FileName)

theorem insert_some (h : Represents t L T) (hget : T.get (file, pageNo) = some v) :
    insert alloc filename file pageNo frameNo t =
      (.error (.throw (.hashAlreadyPresent (filename file) pageNo.toNat v.toNat)), t) := by
  obtain ⟨l₁, a, l₂, hL, ha, _, hsearch⟩ := h.search_some hget
  have hmem : a ∈ L (t.index (file, pageNo)) := by simp [hL]
  have hnull : a ≠ 0 := (h.chain _).ne_null hmem
  have hbucket : (t.bucket a).file = file ∧ (t.bucket a).pageNo = pageNo ∧ (t.bucket a).frameNo = v := by
    simpa [BufHashTbl.entry, and_assoc] using ha
  obtain ⟨hfile, hpage, hframe⟩ := hbucket
  rw [insert, bind_of_ok (get_apply t), bind_of_ok (h.head_eq (file, pageNo)), bind_of_ok hsearch,
    if_pos hnull, bind_of_ok (deref_eq (h.mem_allocated hmem)), hfile, hpage, hframe]
  rfl

theorem insert_none (h : Represents t L T) (hget : T.get (file, pageNo) = none) :
    ∃ u L', insert alloc filename file pageNo frameNo t = (.ok (), u) ∧
      Represents u L' (T.insert (file, pageNo) frameNo) := by
  obtain ⟨p, hsearch⟩ := h.search_none hget
  refine ⟨_, _, ?_, h.alloc hget (alloc.ne_null t.allocated) (alloc.fresh t.allocated) frameNo⟩
  have harray := h.inArray (file, pageNo)
  -- the page is in no chain, so the new bucket is allocated and becomes the head
  rw [insert, bind_of_ok (get_apply t), bind_of_ok (h.head_eq (file, pageNo)), bind_of_ok hsearch,
    if_neg (by simp), bind_of_ok (h.head_eq (file, pageNo)), bind_of_ok (newBucket_eq alloc _)]
  exact setHead_eq harray

theorem lookup_some (h : Represents t L T) (hget : T.get (file, pageNo) = some v) :
    lookup filename file pageNo t = (.ok v, t) := by
  obtain ⟨l₁, a, l₂, hL, ha, _, hsearch⟩ := h.search_some hget
  have hmem : a ∈ L (t.index (file, pageNo)) := by simp [hL]
  have hnull : a ≠ 0 := (h.chain _).ne_null hmem
  have hframe : (t.bucket a).frameNo = v := congrArg Prod.snd ha
  rw [lookup, bind_of_ok (get_apply t), bind_of_ok (h.head_eq (file, pageNo)), bind_of_ok hsearch,
    if_pos hnull, bind_of_ok (deref_eq (h.mem_allocated hmem)), hframe]
  rfl

theorem lookup_none (h : Represents t L T) (hget : T.get (file, pageNo) = none) :
    lookup filename file pageNo t = (.error (.throw (.hashNotFound (filename file) pageNo.toNat)), t) := by
  obtain ⟨p, hsearch⟩ := h.search_none hget
  rw [lookup, bind_of_ok (get_apply t), bind_of_ok (h.head_eq (file, pageNo)), bind_of_ok hsearch,
    if_neg (by simp)]
  rfl

theorem remove_some (h : Represents t L T) (hget : T.get (file, pageNo) = some v) :
    ∃ u L', remove filename file pageNo t = (.ok (), u) ∧ Represents u L' (T.erase (file, pageNo)) := by
  obtain ⟨l₁, a, l₂, hL, ha, hne, hsearch⟩ := h.search_some hget
  have hmem : a ∈ L (t.index (file, pageNo)) := by simp [hL]
  have hnull : a ≠ 0 := (h.chain _).ne_null hmem
  have hallocated := h.mem_allocated hmem
  rw [remove, bind_of_ok (get_apply t), bind_of_ok (h.head_eq (file, pageNo)), bind_of_ok hsearch,
    if_pos hnull, bind_of_ok (deref_eq hallocated)]
  rcases List.eq_nil_or_concat' l₁ with rfl | ⟨l₁, p, rfl⟩
  · -- the bucket is the first one: the array changes
    refine ⟨_, _, ?_, h.unlink_head hL ha⟩
    rw [if_neg (by simp), bind_of_ok (setHead_eq (h.inArray (file, pageNo)))]
    exact delete_eq hallocated
  · -- the bucket before it changes
    rw [List.append_assoc] at hL
    have hp : p ∈ L (t.index (file, pageNo)) := by simp [hL]
    have hlast : (l₁ ++ [p]).getLastD 0 = p := by simp
    refine ⟨_, _, ?_, h.unlink_next hL ha hne⟩
    rw [hlast, if_pos ((h.chain _).ne_null hp), bind_of_ok (setNext_eq (h.mem_allocated hp))]
    exact delete_eq hallocated

theorem remove_none (h : Represents t L T) (hget : T.get (file, pageNo) = none) :
    remove filename file pageNo t = (.error (.throw (.hashNotFound (filename file) pageNo.toNat)), t) := by
  obtain ⟨p, hsearch⟩ := h.search_none hget
  rw [remove, bind_of_ok (get_apply t), bind_of_ok (h.head_eq (file, pageNo)), bind_of_ok hsearch,
    if_neg (by simp)]
  rfl

end Represents

/-! ## Runs of calls

`Frames` is the map that the table stands for, with a call as a step. A call that throws leaves both as they are.
-/

inductive Call where
  | insert (file : UInt64) (pageNo frameNo : UInt32)
  | lookup (file : UInt64) (pageNo : UInt32)
  | remove (file : UInt64) (pageNo : UInt32)
  deriving DecidableEq, Repr

/-- The frame of each page that has one. -/
abbrev Frames : Type := UInt64 × UInt32 → Option UInt32

/-- What a call is for. -/
def Frames.after (m : Frames) : Call → Frames
  | .insert file pageNo frameNo =>
    if m (file, pageNo) = none then Function.update m (file, pageNo) (some frameNo) else m
  | .lookup _ _ => m
  | .remove file pageNo => Function.update m (file, pageNo) none

/-- The frames after a run of calls. -/
def Frames.run (calls : List Call) : Frames := calls.foldl Frames.after fun _ => none

/-- The frame was given to the page by a call that found it without one, and it has not been removed
since. -/
def LastInsert (calls : List Call) (file : UInt64) (pageNo frameNo : UInt32) : Prop :=
  ∃ earlier later, calls = earlier ++ Call.insert file pageNo frameNo :: later ∧
    Frames.run earlier (file, pageNo) = none ∧ Call.remove file pageNo ∉ later

section Runs

variable (alloc : Allocator) (filename : UInt64 → FileName)

/-- The table after a call, whether it returned or threw. -/
def after (t : BufHashTbl) : Call → BufHashTbl
  | .insert file pageNo frameNo => (insert alloc filename file pageNo frameNo t).2
  | .lookup file pageNo => (lookup filename file pageNo t).2
  | .remove file pageNo => (remove filename file pageNo t).2

/-- The table after a run of calls. -/
def run (htSize : Int32) (calls : List Call) : BufHashTbl := calls.foldl (after alloc filename) (new htSize)

/-- What the calls on a table with the frames `m` do. The pages they find and those they do not are
those of `m`; a call that throws leaves the table as it is. -/
structure FiniteMap (t : BufHashTbl) (m : Frames) : Prop where
  inArray : ∀ file pageNo, 0 ≤ (hash t.htSize file pageNo).toInt ∧
    (hash t.htSize file pageNo).toInt < t.htSize.toInt
  lookup_bound : ∀ file pageNo frameNo, m (file, pageNo) = some frameNo →
    lookup filename file pageNo t = (.ok frameNo, t)
  lookup_unbound : ∀ file pageNo, m (file, pageNo) = none →
    lookup filename file pageNo t = (.error (.throw (.hashNotFound (filename file) pageNo.toNat)), t)
  insert_bound : ∀ file pageNo frameNo present, m (file, pageNo) = some present →
    insert alloc filename file pageNo frameNo t =
      (.error (.throw (.hashAlreadyPresent (filename file) pageNo.toNat present.toNat)), t)
  insert_unbound : ∀ file pageNo frameNo, m (file, pageNo) = none →
    (insert alloc filename file pageNo frameNo t).1 = .ok ()
  remove_bound : ∀ file pageNo frameNo, m (file, pageNo) = some frameNo →
    (remove filename file pageNo t).1 = .ok ()
  remove_unbound : ∀ file pageNo, m (file, pageNo) = none →
    remove filename file pageNo t = (.error (.throw (.hashNotFound (filename file) pageNo.toNat)), t)

end Runs

variable {alloc : Allocator} {filename : UInt64 → FileName} {m : Frames}

theorem Represents.calls (h : Represents t L T) : FiniteMap alloc filename t T.get where
  inArray := inArray_hash h.size
  lookup_bound _ _ _ hget := h.lookup_some filename hget
  lookup_unbound _ _ hget := h.lookup_none filename hget
  insert_bound _ _ _ _ hget := h.insert_some alloc filename hget
  insert_unbound _ _ _ hget := by
    obtain ⟨u, L', hrun, _⟩ := h.insert_none alloc filename hget
    rw [hrun]
  remove_bound _ _ _ hget := by
    obtain ⟨u, L', hrun, _⟩ := h.remove_some filename hget
    rw [hrun]
  remove_unbound _ _ hget := h.remove_none filename hget

/-- **A call**: what represented a table represents the table after it. -/
theorem Represents.after (h : Represents t L T) (hm : T.get = m) (c : Call) :
    ∃ L' T', Represents (after alloc filename t c) L' T' ∧ T'.get = m.after c := by
  subst hm
  cases c with
  | insert file pageNo frameNo =>
      -- a page that has a frame already is refused, and the table stays
      cases hget : T.get (file, pageNo) with
      | none =>
          obtain ⟨u, L', hrun, hu⟩ := h.insert_none alloc filename hget
          refine ⟨L', T.insert (file, pageNo) frameNo, ?_, ?_⟩
          · rwa [HashTable.after, hrun]
          · funext k
            simp [Frames.after, hget, ChainedTable.get_insert hget, Function.update_apply]
      | some present =>
          refine ⟨L, T, ?_, ?_⟩
          · rwa [HashTable.after, h.insert_some alloc filename hget]
          · simp [Frames.after, hget]
  | lookup file pageNo =>
      refine ⟨L, T, ?_, rfl⟩
      -- a lookup changes nothing, whatever it answers
      cases hget : T.get (file, pageNo) with
      | none => rwa [HashTable.after, h.lookup_none filename hget]
      | some frameNo => rwa [HashTable.after, h.lookup_some filename hget]
  | remove file pageNo =>
      have herase : (T.erase (file, pageNo)).get = Function.update T.get (file, pageNo) none := by
        funext k
        rw [ChainedTable.get_erase, Function.update_apply]
      cases hget : T.get (file, pageNo) with
      | none =>
          refine ⟨L, T, ?_, ?_⟩
          · rwa [HashTable.after, h.remove_none filename hget]
          · rw [Frames.after, ← hget, Function.update_eq_self]
      | some frameNo =>
          obtain ⟨u, L', hrun, hu⟩ := h.remove_some filename hget
          exact ⟨L', T.erase (file, pageNo), by rwa [HashTable.after, hrun], herase⟩

theorem represents_new {htSize : Int32} (h : 0 < htSize.toInt) :
    Represents (new htSize) (fun _ => []) (.empty (new htSize).index) where
  size := h
  index := rfl
  chain _ := .nil 0
  entries _ := rfl
  home _ _ ha := by cases ha
  allocated a := by simp [new]
  nodup := List.nodup_nil

theorem represents_run {htSize : Int32} (h : 0 < htSize.toInt) (calls : List Call) :
    ∃ L T, Represents (run alloc filename htSize calls) L T ∧ T.get = Frames.run calls := by
  induction calls using List.reverseRecOn with
  | nil => exact ⟨_, _, represents_new h, rfl⟩
  | append_singleton calls c ih =>
      obtain ⟨L, T, hrep, hget⟩ := ih
      rw [run, Frames.run, List.foldl_append, List.foldl_append]
      exact hrep.after hget c

/-! ### The last insertion

The map after a run is determined by the run: the frame of a page is the one of the last insertion that found the
page without a frame, if it has not been removed since. The induction is on the run from its end, where the last
call comes to one of the cases.
-/

theorem lastInsert_concat (calls : List Call) (c : Call) :
    LastInsert (calls ++ [c]) file pageNo frameNo ↔
      c = .insert file pageNo frameNo ∧ Frames.run calls (file, pageNo) = none ∨
        LastInsert calls file pageNo frameNo ∧ c ≠ .remove file pageNo := by
  constructor
  · rintro ⟨earlier, later, hsplit, hnone, hlater⟩
    -- the last call is the insertion itself, or one that comes after it
    rcases List.eq_nil_or_concat' later with rfl | ⟨later, d, rfl⟩
    · obtain ⟨rfl, hc⟩ := List.append_inj' hsplit rfl
      exact Or.inl ⟨(List.cons.inj hc).1, hnone⟩
    · rw [← List.cons_append, ← List.append_assoc] at hsplit
      obtain ⟨rfl, hc⟩ := List.append_inj' hsplit rfl
      obtain rfl := (List.cons.inj hc).1
      rw [List.mem_append, List.mem_singleton, not_or] at hlater
      exact Or.inr ⟨⟨earlier, later, rfl, hnone, hlater.1⟩, Ne.symm hlater.2⟩
  · rintro (⟨rfl, hnone⟩ | ⟨⟨earlier, later, rfl, hnone, hlater⟩, hc⟩)
    · exact ⟨calls, [], rfl, hnone, by simp⟩
    · exact ⟨earlier, later ++ [c], by simp, hnone, by simp [hlater, Ne.symm hc]⟩

/-- The frame of a page is the one it was given last. -/
theorem frames_eq_some_iff (calls : List Call) (file : UInt64) (pageNo frameNo : UInt32) :
    Frames.run calls (file, pageNo) = some frameNo ↔ LastInsert calls file pageNo frameNo := by
  induction calls using List.reverseRecOn generalizing frameNo with
  | nil => simp [Frames.run, LastInsert]
  | append_singleton calls c ih =>
      have hrun : Frames.run (calls ++ [c]) = (Frames.run calls).after c := by
        simp [Frames.run]
      rw [hrun, lastInsert_concat, ← ih]
      cases c with
      | insert file' pageNo' frameNo' =>
          -- the last call is about the page, or it leaves the frame of the page as it was
          by_cases hk : (file', pageNo') = (file, pageNo)
          · obtain ⟨rfl, rfl⟩ := Prod.mk.inj hk
            cases hbound : Frames.run calls (file', pageNo') with
            | none => simp [Frames.after, hbound]
            | some present => simp [Frames.after, hbound]
          · have hne : Frames.after (Frames.run calls) (.insert file' pageNo' frameNo') (file, pageNo) =
                Frames.run calls (file, pageNo) := by
              rw [Frames.after]
              split
              · exact Function.update_of_ne (Ne.symm hk) _ _
              · rfl
            rw [hne]
            rw [Prod.mk.injEq, not_and] at hk
            grind
      | lookup file' pageNo' => simp [Frames.after]
      | remove file' pageNo' =>
          by_cases hk : (file', pageNo') = (file, pageNo)
          · obtain ⟨rfl, rfl⟩ := Prod.mk.inj hk
            simp [Frames.after]
          · have hne : (Call.remove file' pageNo') ≠ .remove file pageNo := by
              rintro heq
              cases heq
              exact hk rfl
            simp [Frames.after, Function.update_of_ne (Ne.symm hk), hne]

/-! ## The finite map

The two halves together: what the calls do is said by the map, and the map by the calls.
-/

/-- **The hash table is a finite map.** After any run of calls on a new table, the calls find the pages
that a map from pages to frames has, which is the map of the last insertions. -/
theorem finiteMap (alloc : Allocator) (filename : UInt64 → FileName) (htSize : Int32)
    (h : 0 < htSize.toInt) (calls : List Call) :
    FiniteMap alloc filename (run alloc filename htSize calls) (Frames.run calls) ∧
      ∀ file pageNo frameNo,
        Frames.run calls (file, pageNo) = some frameNo ↔ LastInsert calls file pageNo frameNo := by
  have hrun : ∃ L T, Represents (run alloc filename htSize calls) L T ∧ T.get = Frames.run calls :=
    represents_run h calls
  obtain ⟨L, T, hrep, hget⟩ := hrun
  exact ⟨hget ▸ hrep.calls, frames_eq_some_iff calls⟩

theorem le_foldr_max {l : List Nat} (h : a ∈ l) : a ≤ l.foldr max 0 := by
  induction l with
  | nil => cases h
  | cons x l ih =>
      rw [List.foldr_cons]
      rcases List.mem_cons.mp h with rfl | h
      · exact Nat.le_max_left _ _
      · exact Nat.le_trans (ih h) (Nat.le_max_right _ _)

/-- The address behind all the buckets. -/
def Allocator.behind : Allocator where
  address allocated := allocated.foldr max 0 + 1
  ne_null _ := Nat.succ_ne_zero _
  fresh _ h := Nat.not_succ_le_self _ (le_foldr_max h)

/-- Three pages with one index, the address of the first one being negative as an `int`: without the page
in the middle of the chain, the one behind it is found. -/
theorem finiteMap_collision :
    let calls : List Call := [.insert 0xFFFFFFFF80000000 7 5, .insert 0x10000 44 6, .insert 0x10003 41 7,
      .remove 0x10000 44]
    let t := run .behind (fun _ => "relA") 61 calls
    hash 61 0xFFFFFFFF80000000 7 = hash 61 0x10000 44 ∧ hash 61 0x10000 44 = hash 61 0x10003 41 ∧
      lookup (fun _ => "relA") 0xFFFFFFFF80000000 7 t = (.ok 5, t) ∧
      remove (fun _ => "relA") 0x10000 44 t = (.error (.throw (.hashNotFound "relA" 44)), t) := by
  intro calls t
  have hmap := (finiteMap .behind (fun _ => "relA") 61 (by decide) calls).1
  refine ⟨by decide, by decide, hmap.lookup_bound _ _ 5 (by decide), hmap.remove_unbound _ _ (by decide)⟩

end CS640.Badger.HashTable
