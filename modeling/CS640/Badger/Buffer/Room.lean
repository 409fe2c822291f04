import CS640.Badger.Buffer.SecondChance

/-!
# When p3 finds a frame

`allocBuf` as its callers need it, where every page in the pool is in the hash table and `2*numBufs` has 32
bits: it refuses only a pool whose frames are all pinned (`scan_held`), and otherwise stops at a frame that
is not in use, or takes one that is not pinned (`wp_allocBuf_table`).
-/

namespace CS640.Badger.P3.BufMgr

open CS640.Lib Prog
open CS640.Badger.BufMgr

variable {D : Type} {s t : Sys D}

/-- If the loop of `allocBuf` runs out, all frames are pinned. A free frame at its last tick would do so too,
but the clock has been to every frame by then. -/
theorem scan_held {k : Nat} (h : HashedInv s) (hsize : 2 * s.numBufs < 2 ^ 32)
    (hscan : scan (scanBound s) 0 s = (.ok (k, false), t)) (hk : scanBound s ≤ k) :
    ∀ i < s.numBufs, Held (s.desc i) := by
  have hbound : scanBound s = 2 * s.numBufs := Nat.mod_eq_of_lt hsize
  rw [hbound] at hscan hk
  have hends := scan_swept h (2 * s.numBufs) 0 s (Swept.refl h.pool.hand)
    fun m hm => absurd hm (Nat.not_lt_zero m)
  rw [wp_of_ok hscan, Nat.zero_add] at hends
  rcases hends with ⟨-, -, hnone⟩ | ⟨m, hm, hstop, hfirst, hcount, u, -, ⟨hfree, -⟩ | ⟨-, hfound, -⟩⟩
  · exact (no_stop_iff h.pool.hand).mp hnone
  · have hearly := FirstStop.lt_of_free ⟨hm, hstop, hfirst⟩ hfree
    have hlast : k = m + 1 := hcount
    omega
  · cases hfound

/-- **A frame is found unless all are pinned**: it is not in use, or its page has been taken out of the hash
table and is still to be written back. -/
theorem wp_allocBuf_table {Q : Nat → Sys D → Prop} {E : Exit Exn → Sys D → Prop} (h : TableInv s)
    (hsize : 2 * s.numBufs < 2 ^ 32)
    (hfull : ∀ t, Scanned s t → PoolInv t → (∀ i < s.numBufs, Held (s.desc i)) →
      E (.throw .bufferExceeded) t)
    (hfree : ∀ t, Scanned s t → PoolInv t → (t.desc t.clockHand).valid = false → Q t.clockHand t)
    (hvictim : ∀ t, Scanned s t → PoolInv t → Victim t t.clockHand →
      wp (writeBack t.clockHand) (fun _ u => Q t.clockHand (u.setDesc t.clockHand BufDesc.clear)) E
        (t.dropEntry (t.desc t.clockHand).file (t.desc t.clockHand).pageNo)) :
    wp allocBuf Q E s := by
  have hhashed : HashedInv s := ⟨h.pool, fun i hv _ => h.full i hv⟩
  apply wp_allocBuf_hashed hhashed
  · intro t k ht hinv hscan hk
    exact hfull t ht hinv (scan_held hhashed hsize hscan hk)
  · exact hfree
  · intro t k ht hinv hv _
    exact hvictim t ht hinv hv

end CS640.Badger.P3.BufMgr
