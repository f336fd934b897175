import Scoutfs.BlockCache.Write

/-!
# Copy on write: `scoutfs_block_dirty_ref` and `scoutfs_block_dirty_alloc`

A reference to a block of an earlier transaction is dirtied by copying: the block
is read, a new block is allocated, the copy takes the old bytes with its own number
and the dirty seq in its header, the old block is freed with its header's seq, and
the reference moves to the copy (`blockDirtyRef_eq_ok`, `dirty_ref_moves_to_copy`).
A second call in the same transaction finds the reference's seq current and hands
back the same buffer, allocating and freeing nothing (`blockDirtyRef_of_current`).

The failure paths are not atomic. A failure before the allocation changes nothing
(`blockDirtyRef_error_before_alloc`), but a failed `scoutfs_block_dirty` after it
frees nothing, so the block is lost to the allocator (`blockDirtyRef_leaks`); a
failed free of the old block leaves the copy in the dirty tree
(`blockDirtyRef_keeps_copy`); and `scoutfs_block_dirty_alloc` frees the block it just
allocated with the stable super block's seq, so the block waits for a commit instead
of being free again (`blockDirtyAlloc_pends`). `dirty_failure_not_atomic` runs the
three paths on one cache.
-/

namespace Scoutfs.BlockCache

/-! ## Frames -/

section Frames

variable (c : Cache) (n : Nat) (b : Buffer)

@[simp] theorem Cache.setBuf_dirtyTree : (c.setBuf n b).dirtyTree = c.dirtyTree := rfl
@[simp] theorem Cache.setBuf_buddy : (c.setBuf n b).buddy = c.buddy := rfl
@[simp] theorem Cache.setBuf_superHdr : (c.setBuf n b).superHdr = c.superHdr := rfl
@[simp] theorem Cache.getBh_dirtyTree : (c.getBh n).dirtyTree = c.dirtyTree := rfl
@[simp] theorem Cache.getBh_buddy : (c.getBh n).buddy = c.buddy := rfl
@[simp] theorem Cache.getBh_superHdr : (c.getBh n).superHdr = c.superHdr := rfl
@[simp] theorem Cache.putBh_dirtyTree : (c.putBh n).dirtyTree = c.dirtyTree := rfl
@[simp] theorem Cache.putBh_buddy : (c.putBh n).buddy = c.buddy := rfl
@[simp] theorem Cache.putBh_superHdr : (c.putBh n).superHdr = c.superHdr := rfl

/-- `get_bh` and `put_bh` change only the count of their own buffer. -/
theorem Cache.getBh_buf (m : Nat) :
    (c.getBh n).buf m = if m = n then { c.buf n with count := (c.buf n).count + 1 } else c.buf m :=
  Cache.buf_setBuf _ _ _ m

theorem Cache.putBh_buf (m : Nat) :
    (c.putBh n).buf m = if m = n then { c.buf n with count := (c.buf n).count - 1 } else c.buf m :=
  Cache.buf_setBuf _ _ _ m

end Frames

section Read

variable (crc : Block → Nat) (io : Bool) (c : Cache) (n : Nat)

/-- A read changes only buffers: the tree, the allocator and the super block stay. -/
theorem blockRead_frame :
    (blockRead crc io c n).1.dirtyTree = c.dirtyTree ∧ (blockRead crc io c n).1.buddy = c.buddy ∧
      (blockRead crc io c n).1.superHdr = c.superHdr := by
  unfold blockRead Cache.sbBread
  dsimp only
  split_ifs <;> simp <;> split_ifs <;> simp

/-- A buffer that is uptodate and verified is handed out without I/O or checks. -/
theorem blockRead_of_verified (hu : (c.buf n).uptodate = true) (hv : (c.buf n).verified = true) :
    blockRead crc io c n = (c.getBh n, .ok n) := by
  simp [blockRead, Cache.sbBread, Cache.getBh_buf, hu, hv]

end Read

section Dirty

variable (getblk kmalloc : Bool) (c : Cache) (n : Nat)

theorem insertBhp_frame :
    (insertBhp kmalloc c n).1.buddy = c.buddy ∧ (insertBhp kmalloc c n).1.superHdr = c.superHdr ∧
      ∀ m, m ≠ n → (insertBhp kmalloc c n).1.buf m = c.buf m := by
  unfold insertBhp
  split_ifs <;> simp [Cache.buf, Cache.setBuf, Cache.getBh, Function.update]
  all_goals intro m hm; simp [hm]

/-- `insert_bhp` fails only for want of memory, and then changes nothing. -/
theorem insertBhp_of_ne_zero (h : (insertBhp kmalloc c n).2 ≠ 0) : (insertBhp kmalloc c n).1 = c := by
  unfold insertBhp at h ⊢
  split_ifs at h ⊢ <;> simp_all

/-- After a successful `insert_bhp` the buffer has `b_private`. -/
theorem insertBhp_priv (h : (insertBhp kmalloc c n).2 = 0) : ((insertBhp kmalloc c n).1.buf n).priv = true := by
  unfold insertBhp at h ⊢
  split_ifs at h ⊢ with hp hk
  · exact hp
  · exact congrArg Buffer.priv (Cache.setBuf_buf _ n _)
  · simp [ENOMEM] at h

/-- `scoutfs_block_dirty` changes only its own buffer and the tree. -/
theorem blockDirty_frame :
    (blockDirty getblk kmalloc c n).1.buddy = c.buddy ∧ (blockDirty getblk kmalloc c n).1.superHdr = c.superHdr ∧
      ∀ m, m ≠ n → (blockDirty getblk kmalloc c n).1.buf m = c.buf m := by
  obtain ⟨hb, hs, hm⟩ := insertBhp_frame kmalloc (c.getBh n) n
  unfold blockDirty
  split_ifs
  · split
    · next c' heq =>
      rw [heq] at hb hs hm
      exact ⟨hb, hs, fun m h => by rw [Cache.setBuf_buf_of_ne _ _ h, hm m h, Cache.getBh_buf, if_neg h]⟩
    · next c' e _ heq =>
      rw [heq] at hb hs hm
      exact ⟨hb, hs, fun m h => by rw [Cache.putBh_buf, if_neg h, hm m h, Cache.getBh_buf, if_neg h]⟩
  · exact ⟨rfl, rfl, fun _ _ => rfl⟩

theorem blockDirty_stableSeq : (blockDirty getblk kmalloc c n).1.stableSeq = c.stableSeq := by
  unfold blockDirty insertBhp
  split_ifs <;> rfl

/-- A failed `scoutfs_block_dirty` leaves the tree as it was. -/
theorem blockDirty_error_dirtyTree {e : Int} (h : (blockDirty getblk kmalloc c n).2 = .error e) :
    (blockDirty getblk kmalloc c n).1.dirtyTree = c.dirtyTree := by
  unfold blockDirty at h ⊢
  split_ifs at h ⊢
  · split
    · next c' heq => rw [heq] at h; simp at h
    · next c' e' hne heq =>
      have h₀ := insertBhp_of_ne_zero kmalloc (c.getBh n) n (by rw [heq]; exact hne)
      rw [heq] at h₀
      simp only [Cache.putBh_dirtyTree, show c' = c.getBh n from h₀, Cache.getBh_dirtyTree]
  · rfl

/-- A successful `scoutfs_block_dirty` hands out its own block, uptodate, verified
and with `b_private`. -/
theorem blockDirty_ok {k : Nat} (h : (blockDirty getblk kmalloc c n).2 = .ok k) :
    k = n ∧ ((blockDirty getblk kmalloc c n).1.buf n).uptodate = true ∧
      ((blockDirty getblk kmalloc c n).1.buf n).verified = true ∧
      ((blockDirty getblk kmalloc c n).1.buf n).priv = true := by
  unfold blockDirty at h ⊢
  split_ifs at h ⊢
  · split
    · next c' heq =>
      have hp := insertBhp_priv kmalloc (c.getBh n) n (by rw [heq])
      rw [heq] at hp h
      simp_all
    · next c' e' hne heq => rw [heq] at h; simp at h

end Dirty

/-! ## `scoutfs_block_dirty_ref` -/

/-- A free returns what the allocator returned. -/
@[simp] theorem buddyFree_fst (r : Int) (cur seq blkno : Nat) (b : Buddy) : (buddyFree r cur seq blkno b).1 = r := by
  unfold buddyFree; split_ifs <;> simp_all

section DirtyRef

variable (crc : Block → Nat) (io : Bool) (alloc : Except Int Nat) (getblk kmalloc : Bool)
  (free freeCopy : Int) {c c₁ c' : Cache} {ref ref' : Ref} {n : Nat}

/-- The copy of a stale reference that succeeded: the allocation gave a free block
`n`, `scoutfs_block_dirty` dirtied it, the old block's free returned 0, and the copy
took the old bytes with the new number and the dirty seq. -/
theorem blockDirtyRef_eq_ok (hb : blockRead crc io c ref.blkno = (c₁, .ok ref.blkno))
    (hseq : ref.seq ≠ c.superHdr.seq)
    (hr : blockDirtyRef crc io alloc getblk kmalloc free freeCopy c ref = (c', .ok n, ref')) :
    alloc = .ok n ∧ n ∈ c₁.buddy.free ∧ free = 0 ∧ ref' = ⟨n, c.superHdr.seq⟩ ∧ ∃ c₂,
      blockDirty getblk kmalloc { c₁ with buddy := { c₁.buddy with free := c₁.buddy.free.erase n } } n =
        (c₂, .ok n) ∧
      c' = ({ c₂ with buddy := (buddyFree 0 c.superHdr.seq (c₂.buf ref.blkno).data.hdr.seq
              (c₂.buf ref.blkno).data.hdr.blkno c₂.buddy).2 }.setBuf n
            { c₂.buf n with data := { (c₂.buf ref.blkno).data with
                hdr := { (c₂.buf ref.blkno).data.hdr with blkno := n, seq := c.superHdr.seq } } }).putBh ref.blkno := by
  have hs : c₁.superHdr = c.superHdr := by
    have := (blockRead_frame crc io c ref.blkno).2.2; rwa [hb] at this
  unfold blockDirtyRef at hr
  rw [hb] at hr
  dsimp only at hr
  rw [if_neg (by rwa [hs])] at hr
  rcases alloc with e | m
  · simp [buddyAlloc] at hr
  by_cases hm : m ∈ c₁.buddy.free
  swap
  · simp [buddyAlloc, hm] at hr
  simp only [buddyAlloc, if_pos hm] at hr
  split at hr
  · simp at hr
  next c₂ copy heq =>
  obtain ⟨rfl, -⟩ := blockDirty_ok getblk kmalloc _ m (by rw [heq])
  have h₂ := blockDirty_frame getblk kmalloc { c₁ with buddy := { c₁.buddy with free := c₁.buddy.free.erase copy } } copy
  rw [heq] at h₂
  have hs₂ : c₂.superHdr = c.superHdr := h₂.2.1.trans hs
  rw [buddyFree_fst] at hr
  split_ifs at hr with hf
  · simp at hr
  obtain rfl : free = 0 := not_not.1 hf
  simp only [Prod.mk.injEq, Except.ok.injEq] at hr
  obtain ⟨rfl, rfl, rfl⟩ := hr
  exact ⟨rfl, hm, rfl, by rw [hs₂]; rfl, c₂, heq, by rw [hs₂]; rfl⟩

/-- A reference whose seq is the dirty seq, to a buffer that is uptodate and
verified, is handed back as it is: no read, no allocation, no free. -/
theorem blockDirtyRef_of_current (hseq : ref.seq = c.superHdr.seq) (hu : (c.buf ref.blkno).uptodate = true)
    (hv : (c.buf ref.blkno).verified = true) :
    blockDirtyRef crc io alloc getblk kmalloc free freeCopy c ref = (c.getBh ref.blkno, .ok ref.blkno, ref) := by
  simp [blockDirtyRef, blockRead_of_verified crc io c _ hu hv, hseq]

/-- A block that verifies carries the number it was read at. -/
theorem blkno_of_verify {fsid blocknr : Nat} {b : Block} (h : verifyBlockHeader crc fsid blocknr b = 0) :
    b.hdr.blkno = blocknr := by
  unfold verifyBlockHeader at h
  split_ifs at h with h₁ h₂ h₃ <;> simp_all [ EIO]

/-- **`scoutfs_block_dirty_ref` on a stale reference.** For every cache a run
reaches (the tree invariant), every reference to an allocated block (one the
allocator could not hand out again) whose seq is not the dirty seq and whose block
reads and verifies, and every outcome of the
allocator, `scoutfs_block_dirty` and the free: when the call succeeds, the new block
`n` was free and handed out by the allocation, is not the old block, holds the old
block's bytes with `n` and the dirty seq in its header, and is in the dirty tree;
the reference is `{n, seq}`; the old block, whose header names it, is freed with its
header's seq; and a second call on the new reference in the same transaction hands
back the same buffer, with the same reference and the allocator untouched. -/
theorem dirty_ref_moves_to_copy (h : TreeInv c) (hlive : ref.blkno ∉ c.buddy.free)
    (hb : blockRead crc io c ref.blkno = (c₁, .ok ref.blkno))
    (hv : verifyBlockHeader crc c.superHdr.fsid ref.blkno (c₁.buf ref.blkno).data = 0)
    (hseq : ref.seq ≠ c.superHdr.seq)
    (hr : blockDirtyRef crc io alloc getblk kmalloc free freeCopy c ref = (c', .ok n, ref')) :
    alloc = .ok n ∧ n ∈ c.buddy.free ∧ n ≠ ref.blkno ∧
      (c'.buf n).data = { (c₁.buf ref.blkno).data with
        hdr := { (c₁.buf ref.blkno).data.hdr with blkno := n, seq := c.superHdr.seq } } ∧
      n ∈ c'.dirtyTree ∧ ref' = ⟨n, c.superHdr.seq⟩ ∧
      (c₁.buf ref.blkno).data.hdr.blkno = ref.blkno ∧
      c'.buddy = (buddyFree 0 c.superHdr.seq (c₁.buf ref.blkno).data.hdr.seq ref.blkno
        { c.buddy with free := c.buddy.free.erase n }).2 ∧
      ∀ io₂ alloc₂ getblk₂ kmalloc₂ free₂ freeCopy₂,
        blockDirtyRef crc io₂ alloc₂ getblk₂ kmalloc₂ free₂ freeCopy₂ c' ref' = (c'.getBh n, .ok n, ref') := by
  obtain ⟨hd₁, hd₂, hd₃⟩ := blockRead_frame crc io c ref.blkno
  have h₁ := h.blockRead crc io ref.blkno
  rw [hb] at hd₁ hd₂ hd₃ h₁
  dsimp only at hd₁ hd₂ hd₃ h₁
  obtain ⟨rfl, hn, rfl, rfl, c₂, hd, rfl⟩ := blockDirtyRef_eq_ok crc io alloc getblk kmalloc free freeCopy hb hseq hr
  have hne : n ≠ ref.blkno := fun e => hlive (e ▸ hd₂ ▸ hn)
  obtain ⟨hf₁, hf₂, hf₃⟩ := blockDirty_frame getblk kmalloc
    { c₁ with buddy := { c₁.buddy with free := c₁.buddy.free.erase n } } n
  obtain ⟨-, hup, hver, hpriv⟩ := blockDirty_ok getblk kmalloc
    { c₁ with buddy := { c₁.buddy with free := c₁.buddy.free.erase n } } n (by rw [hd])
  have h₂ := TreeInv.blockDirty (c := { c₁ with buddy := { c₁.buddy with free := c₁.buddy.free.erase n } })
    h₁ getblk kmalloc n
  rw [hd] at hf₁ hf₂ hf₃ hup hver hpriv h₂
  dsimp only at hf₁ hf₂ hf₃ hup hver hpriv h₂
  have hold : c₂.buf ref.blkno = c₁.buf ref.blkno := hf₃ _ hne.symm
  have hbuf : ∀ bd d, ((({ c₂ with buddy := bd } : Cache).setBuf n { c₂.buf n with data := d }).putBh ref.blkno).buf n =
      { c₂.buf n with data := d } := fun bd d => by
    rw [Cache.putBh_buf, if_neg hne, Cache.setBuf_buf]
  refine ⟨rfl, hd₂ ▸ hn, hne, by rw [hbuf, hold], (h₂.mem_iff n).2 hpriv, rfl,
    blkno_of_verify crc hv, ?_, fun io₂ alloc₂ getblk₂ kmalloc₂ free₂ freeCopy₂ => ?_⟩
  · simp only [Cache.putBh_buddy, Cache.setBuf_buddy, hold, blkno_of_verify crc hv, hf₁, hd₂]
  · refine blockDirtyRef_of_current crc io₂ alloc₂ getblk₂ kmalloc₂ free₂ freeCopy₂ ?_ ?_ ?_
    · simp [hf₂, hd₃]
    · rw [hbuf]; exact hup
    · rw [hbuf]; exact hver

end DirtyRef

/-- A fresh mount whose allocator has block 4 free. Block 0 of the zeroed device is
a block of seq 0 that verifies under the zero checksum. -/
def freeMount : Cache := { mounted with buddy := ⟨{4}, ∅⟩ }

/-- The reference `{0, 0}` dirtied on `freeMount`: the allocation gives block 4 and
every call succeeds. -/
def copyRun : Cache × Except Int Nat × Ref :=
  blockDirtyRef (fun _ => 0) true (.ok 4) true true 0 0 freeMount ⟨0, 0⟩

theorem dirty_ref_moves_to_copy_fresh :
    copyRun.2 = (.ok 4, ⟨4, 1⟩) ∧ (copyRun.1.buf 4).data = ⟨⟨0, 0, 4, 1⟩, 0⟩ ∧ 4 ∈ copyRun.1.dirtyTree ∧
      copyRun.1.buddy = ⟨∅, {(0, 0)}⟩ ∧
      blockDirtyRef (fun _ => 0) false (.error 0) false false 1 1 copyRun.1 ⟨4, 1⟩ =
        (copyRun.1.getBh 4, .ok 4, ⟨4, 1⟩) := by
  obtain ⟨-, -, -, hdata, htree, -, -, hbuddy, hagain⟩ :=
    dirty_ref_moves_to_copy (fun _ => 0) true (.ok 4) true true 0 0 (c := freeMount) treeInv_mounted (by decide)
      (show blockRead (fun _ => 0) true freeMount 0 = ((blockRead (fun _ => 0) true freeMount 0).1, .ok 0) from rfl)
      (by decide) (by decide) (show copyRun = (copyRun.1, .ok 4, ⟨4, 1⟩) from rfl)
  exact ⟨rfl, hdata, htree, hbuddy.trans (by decide), hagain _ _ _ _ _ _⟩


/-! ## Failures -/

section Failures

variable (crc : Block → Nat) (io : Bool) (alloc : Except Int Nat) (getblk kmalloc : Bool)
  (free freeCopy : Int) {c c₁ c₂ : Cache} {ref : Ref} {n : Nat} {e : Int}

/-- A failed allocation changes nothing. -/
theorem buddyAlloc_of_error (h : (buddyAlloc alloc b).1 = .error e) : (buddyAlloc alloc b).2 = b := by
  rcases alloc with e' | m
  · rfl
  · simp only [buddyAlloc] at h ⊢
    split_ifs at h ⊢
    rfl

/-- A failure before the allocation, of the read or of the allocation itself, leaves
the reference, the tree and the allocator as they were. -/
theorem blockDirtyRef_error_before_alloc
    (he : (blockRead crc io c ref.blkno).2 = .error e ∨
      (blockRead crc io c ref.blkno).2 = .ok ref.blkno ∧ ref.seq ≠ c.superHdr.seq ∧
        (buddyAlloc alloc c.buddy).1 = .error e) :
    (blockDirtyRef crc io alloc getblk kmalloc free freeCopy c ref).2 = (.error e, ref) ∧
      (blockDirtyRef crc io alloc getblk kmalloc free freeCopy c ref).1.dirtyTree = c.dirtyTree ∧
      (blockDirtyRef crc io alloc getblk kmalloc free freeCopy c ref).1.buddy = c.buddy := by
  obtain ⟨hd₁, hd₂, hd₃⟩ := blockRead_frame crc io c ref.blkno
  unfold blockDirtyRef
  rcases he with he | ⟨hok, hseq, ha⟩
  · rw [show blockRead crc io c ref.blkno = (_, .error e) from Prod.ext rfl he]
    exact ⟨rfl, hd₁, hd₂⟩
  · rw [show blockRead crc io c ref.blkno = (_, .ok ref.blkno) from Prod.ext rfl hok]
    dsimp only
    rw [if_neg (by rwa [hd₃]), hd₂, ha]
    exact ⟨rfl, hd₁, buddyAlloc_of_error alloc ha⟩

/-- **A failed `scoutfs_block_dirty` loses the block.** After the allocation handed
out `n`, the error path puts the old block and frees nothing: the reference and the
tree are as they were, but `n` is neither free nor pending. -/
theorem blockDirtyRef_leaks (hb : blockRead crc io c ref.blkno = (c₁, .ok ref.blkno))
    (hseq : ref.seq ≠ c.superHdr.seq) (hn : n ∈ c₁.buddy.free)
    (hd : blockDirty getblk kmalloc { c₁ with buddy := { c₁.buddy with free := c₁.buddy.free.erase n } } n =
      (c₂, .error e)) :
    (blockDirtyRef crc io (.ok n) getblk kmalloc free freeCopy c ref).2 = (.error e, ref) ∧
      (blockDirtyRef crc io (.ok n) getblk kmalloc free freeCopy c ref).1.dirtyTree = c.dirtyTree ∧
      (blockDirtyRef crc io (.ok n) getblk kmalloc free freeCopy c ref).1.buddy =
        { c.buddy with free := c.buddy.free.erase n } := by
  obtain ⟨hd₁, hd₂, hd₃⟩ := blockRead_frame crc io c ref.blkno
  rw [hb] at hd₁ hd₂ hd₃
  have hf := (blockDirty_frame getblk kmalloc
    { c₁ with buddy := { c₁.buddy with free := c₁.buddy.free.erase n } } n).1
  have ht := blockDirty_error_dirtyTree getblk kmalloc
    { c₁ with buddy := { c₁.buddy with free := c₁.buddy.free.erase n } } n (e := e) (by rw [hd])
  rw [hd] at hf ht
  unfold blockDirtyRef
  rw [hb]
  dsimp only
  rw [if_neg (by rwa [hd₃])]
  simp only [buddyAlloc, if_pos hn, hd, true_and]
  exact ⟨ht.trans hd₁, by rw [Cache.putBh_buddy, hf, hd₂]⟩

/-- **A failed free of the old block leaves the copy dirty.** The error path frees
the copy's block again, but the copy keeps its place in the dirty tree. -/
theorem blockDirtyRef_keeps_copy (h : TreeInv c) (hb : blockRead crc io c ref.blkno = (c₁, .ok ref.blkno))
    (hseq : ref.seq ≠ c.superHdr.seq) (hn : n ∈ c₁.buddy.free)
    (hd : blockDirty getblk kmalloc { c₁ with buddy := { c₁.buddy with free := c₁.buddy.free.erase n } } n =
      (c₂, .ok n)) (hfree : free ≠ 0) :
    (blockDirtyRef crc io (.ok n) getblk kmalloc free freeCopy c ref).2 = (.error free, ref) ∧
      n ∈ (blockDirtyRef crc io (.ok n) getblk kmalloc free freeCopy c ref).1.dirtyTree := by
  have hd₃ := (blockRead_frame crc io c ref.blkno).2.2
  have h₁ := h.blockRead crc io ref.blkno
  rw [hb] at hd₃ h₁
  dsimp only at hd₃ h₁
  have h₂ := TreeInv.blockDirty (c := { c₁ with buddy := { c₁.buddy with free := c₁.buddy.free.erase n } })
    h₁ getblk kmalloc n
  have hp := (blockDirty_ok getblk kmalloc
    { c₁ with buddy := { c₁.buddy with free := c₁.buddy.free.erase n } } n (by rw [hd])).2.2.2
  rw [hd] at h₂ hp
  unfold blockDirtyRef
  rw [hb]
  dsimp only
  rw [if_neg (by rwa [hd₃])]
  simp only [buddyAlloc, if_pos hn, hd, buddyFree_fst, if_pos hfree, true_and]
  exact (h₂.mem_iff n).2 hp

/-- A failed allocation in `scoutfs_block_dirty_alloc` changes nothing. -/
theorem blockDirtyAlloc_of_alloc_error (ha : (buddyAlloc alloc c.buddy).1 = .error e) :
    blockDirtyAlloc alloc getblk kmalloc free c = (c, .error e) := by
  unfold blockDirtyAlloc
  dsimp only
  rw [ha, buddyAlloc_of_error alloc ha]

/-- **`scoutfs_block_dirty_alloc` frees its block with the stable seq.** When
`scoutfs_block_dirty` fails after the allocation, the block goes back through
`scoutfs_buddy_free` with the stable super block's seq; while that is not the dirty
seq the block is pending instead of free. -/
theorem blockDirtyAlloc_pends (hn : n ∈ c.buddy.free)
    (hd : blockDirty getblk kmalloc { c with buddy := { c.buddy with free := c.buddy.free.erase n } } n =
      (c₂, .error e)) (hs : c.stableSeq ≠ c.superHdr.seq) :
    (blockDirtyAlloc (.ok n) getblk kmalloc 0 c).2 = .error e ∧
      (blockDirtyAlloc (.ok n) getblk kmalloc 0 c).1.dirtyTree = c.dirtyTree ∧
      (blockDirtyAlloc (.ok n) getblk kmalloc 0 c).1.buddy =
        ⟨c.buddy.free.erase n, insert (n, c.stableSeq) c.buddy.pending⟩ := by
  have hf := blockDirty_frame getblk kmalloc { c with buddy := { c.buddy with free := c.buddy.free.erase n } } n
  have hq := blockDirty_stableSeq getblk kmalloc { c with buddy := { c.buddy with free := c.buddy.free.erase n } } n
  have ht := blockDirty_error_dirtyTree getblk kmalloc
    { c with buddy := { c.buddy with free := c.buddy.free.erase n } } n (e := e) (by rw [hd])
  rw [hd] at hf hq ht
  dsimp only at hf hq ht
  unfold blockDirtyAlloc
  dsimp only
  simp only [buddyAlloc, if_pos hn, hd, true_and]
  refine ⟨ht, ?_⟩
  simp [buddyFree, hf.1, hf.2.1, hq, hs]

end Failures

/-- **The copy-on-write failures are not atomic.** On `freeMount`, with the reference
`{0, 0}` and block 4 handed out by the allocator, whose free set was `{4}` and whose
tree was empty: when `sb_getblk` fails, `scoutfs_block_dirty_ref` returns `-ENOMEM`
with block 4 neither free nor pending; when the old block's free fails, it returns
`-EIO` with block 4 in the dirty tree; and when `sb_getblk` fails in
`scoutfs_block_dirty_alloc`, block 4 is pending under the stable seq 0 instead of free. -/
theorem dirty_failure_not_atomic :
    (blockDirtyRef (fun _ => 0) true (.ok 4) false true 0 0 freeMount ⟨0, 0⟩).2 = (.error (- ENOMEM), ⟨0, 0⟩) ∧
      (blockDirtyRef (fun _ => 0) true (.ok 4) false true 0 0 freeMount ⟨0, 0⟩).1.buddy = ⟨∅, ∅⟩ ∧
    (blockDirtyRef (fun _ => 0) true (.ok 4) true true (- EIO) 0 freeMount ⟨0, 0⟩).2 = (.error (- EIO), ⟨0, 0⟩) ∧
      (blockDirtyRef (fun _ => 0) true (.ok 4) true true (- EIO) 0 freeMount ⟨0, 0⟩).1.dirtyTree = [4] ∧
    (blockDirtyAlloc (.ok 4) false true 0 freeMount).2 = .error (- ENOMEM) ∧
      (blockDirtyAlloc (.ok 4) false true 0 freeMount).1.buddy = ⟨∅, {(4, 0)}⟩ ∧
    freeMount.buddy = ⟨{4}, ∅⟩ ∧ freeMount.dirtyTree = [] := by
  decide

end Scoutfs.BlockCache
