import Mathlib.Data.List.Sort
import Scoutfs.BlockCache

/-!
# The dirty tree and the commit's block write

Every dirtying path adds a buffer to `sbi->block_dirty_tree` through `insert_bhp`,
which first checks `b_private`, and removes it through `erase_bhp`, which clears
it. So in every state a run reaches, the tree is in strictly increasing block order
and holds exactly the buffers with `b_private` (`treeInv_run`).

`scoutfs_block_write_dirty` walks that tree once, stamps each checksum and submits
each buffer, stopping after a `submit_bh` that fails; `block_write_end_io` erases the
buffers whose write completed and records any other completion in
`sbi->block_write_err`. Once the I/O has drained, the submitted blocks are a prefix
of the tree, the completed ones are on the device with their checksum, and the tree
holds exactly the buffers whose write was not submitted or did not complete
(`blockWriteDirty_spec`). The function returns the last `submit_bh` result, though:
a write that fails at completion leaves its buffer dirty and sets
`block_write_err`, which nothing returns, and the commit is told the write
succeeded (`write_failure_unreported`, and the run `failedWriteRun`).
-/

namespace Scoutfs.BlockCache

/-! ## The dirty tree -/

/-- `insert_bhp_rb` inserts into the tree's in-order list. -/
theorem mem_insertBhpRb {m n : Nat} : ∀ {l : List Nat}, m ∈ insertBhpRb n l ↔ m = n ∨ m ∈ l
  | [] => by simp [insertBhpRb]
  | k :: l => by
    unfold insertBhpRb
    split_ifs
    · simp
    · simp only [List.mem_cons, mem_insertBhpRb]
      tauto

theorem insertBhpRb_sorted {n : Nat} : ∀ {l : List Nat}, l.Sorted (· < ·) → n ∉ l →
    (insertBhpRb n l).Sorted (· < ·)
  | [], _, _ => List.sorted_singleton n
  | k :: l, hl, hn => by
    have hk := List.sorted_cons.1 hl
    unfold insertBhpRb
    split_ifs with h
    · exact List.sorted_cons.2 ⟨fun b hb => (List.mem_cons.1 hb).elim (· ▸ h)
        fun hb => h.trans (hk.1 b hb), hl⟩
    · have hkn : k < n := lt_of_le_of_ne (not_lt.1 h) fun e => hn (e ▸ List.mem_cons_self k l)
      refine List.sorted_cons.2 ⟨fun b hb => ?_, insertBhpRb_sorted hk.2 fun h' => hn (List.mem_cons_of_mem k h')⟩
      rcases mem_insertBhpRb.1 hb with rfl | hb
      · exact hkn
      · exact hk.1 b hb

/-- The dirty tree `tree` is in strictly increasing block order and holds exactly the
buffers of `bufs` with `b_private`. -/
structure TreeOk (tree : List Nat) (bufs : Nat → Option Buffer) : Prop where
  sorted : tree.Sorted (· < ·)
  mem_iff : ∀ n, n ∈ tree ↔ ((bufs n).getD newBuffer).priv = true

/-- The invariant of the cache's dirty tree. It reads only the tree and the buffers. -/
def TreeInv (c : Cache) : Prop := TreeOk c.dirtyTree c.bufs

theorem Cache.buf_setBuf (c : Cache) (n : Nat) (b : Buffer) (m : Nat) :
    (c.setBuf n b).buf m = if m = n then b else c.buf m := by
  split_ifs with h
  · subst h; simp
  · exact Cache.setBuf_buf_of_ne c b h

section Tree

variable {c : Cache}

theorem TreeInv.mem_iff (h : TreeInv c) (n : Nat) : n ∈ c.dirtyTree ↔ (c.buf n).priv = true :=
  TreeOk.mem_iff h n

theorem TreeInv.nodup (h : TreeInv c) : c.dirtyTree.Nodup := TreeOk.sorted h |>.nodup

/-- A buffer written back with its `b_private` keeps the invariant. -/
theorem TreeInv.setBuf (h : TreeInv c) {n : Nat} {b : Buffer} (hb : b.priv = (c.buf n).priv) :
    TreeInv (c.setBuf n b) := by
  refine ⟨TreeOk.sorted h, fun m => ?_⟩
  show m ∈ c.dirtyTree ↔ ((c.setBuf n b).buf m).priv = true
  rw [Cache.buf_setBuf, h.mem_iff]
  split_ifs with hm
  · subst hm; rw [hb]
  · rfl

/-- Replacing a buffer's data keeps every buffer's `b_private`. -/
theorem Cache.setBuf_data_priv (c : Cache) (n : Nat) (d : Block) (m : Nat) :
    ((c.setBuf n { c.buf n with data := d }).buf m).priv = (c.buf m).priv := by
  rw [Cache.buf_setBuf]; split_ifs with hm <;> simp [hm]

/-- A cache with the same tree and the same buffers with `b_private`. -/
theorem TreeInv.congr (h : TreeInv c) {c' : Cache} (ht : c'.dirtyTree = c.dirtyTree)
    (hp : ∀ m, (c'.buf m).priv = (c.buf m).priv) : TreeInv c' :=
  ⟨ht ▸ TreeOk.sorted h, fun m => by rw [ht, h.mem_iff]; exact (hp m) ▸ Iff.rfl⟩

theorem TreeInv.getBh (h : TreeInv c) (n : Nat) : TreeInv (c.getBh n) := h.setBuf rfl

theorem TreeInv.putBh (h : TreeInv c) (n : Nat) : TreeInv (c.putBh n) := h.setBuf rfl

theorem TreeInv.sbBread (h : TreeInv c) (io : Bool) (n : Nat) : TreeInv (c.sbBread io n).1 := by
  unfold Cache.sbBread
  dsimp only
  split_ifs
  · exact h.getBh n
  · refine (h.getBh n).setBuf ?_; rfl
  · exact (h.getBh n).putBh n

theorem Cache.putBh_buf_priv (c : Cache) (n m : Nat) : ((c.putBh n).buf m).priv = (c.buf m).priv := by
  unfold Cache.putBh
  rw [Cache.buf_setBuf]
  split_ifs with hm
  · subst hm; rfl
  · rfl

theorem eraseBhp_buf_priv (c : Cache) (n m : Nat) :
    ((eraseBhp c n).buf m).priv = (decide (m ≠ n) && (c.buf m).priv) := by
  unfold eraseBhp
  dsimp only
  rw [Cache.buf_setBuf]
  split_ifs with hm
  · simp [hm]
  · rw [Cache.putBh_buf_priv]
    simp [hm]
    rfl

theorem eraseBhp_buf_of_ne (c : Cache) {n m : Nat} (h : m ≠ n) : (eraseBhp c n).buf m = c.buf m := by
  unfold eraseBhp Cache.putBh
  dsimp only
  rw [Cache.setBuf_buf_of_ne _ _ h, Cache.setBuf_buf_of_ne _ _ h]
  rfl

theorem TreeInv.insertBhp (h : TreeInv c) (kmalloc : Bool) (n : Nat) : TreeInv (insertBhp kmalloc c n).1 := by
  unfold BlockCache.insertBhp
  split_ifs with hp
  · exact h
  · have hn : n ∉ c.dirtyTree := by rw [h.mem_iff]; simpa using hp
    refine ⟨insertBhpRb_sorted (TreeOk.sorted h) hn, fun m => ?_⟩
    show _ ↔ (((c.getBh n).setBuf n { (c.getBh n).buf n with priv := true }).buf m).priv = true
    rw [mem_insertBhpRb, Cache.buf_setBuf]
    split_ifs with hm
    · simp [hm]
    · simp only [hm, false_or]
      exact (h.getBh n).mem_iff m
  · exact h

theorem TreeInv.eraseBhp (h : TreeInv c) (n : Nat) : TreeInv (eraseBhp c n) := by
  refine ⟨(TreeOk.sorted h).sublist (List.erase_sublist _ _), fun m => ?_⟩
  show m ∈ c.dirtyTree.erase n ↔ ((BlockCache.eraseBhp c n).buf m).priv = true
  rw [eraseBhp_buf_priv]
  by_cases hm : m = n
  · subst hm; simp [h.nodup.mem_erase_iff]
  · rw [List.mem_erase_of_ne hm, h.mem_iff]
    simp [hm]

variable (crc : Block → Nat)

theorem TreeInv.blockRead (h : TreeInv c) (io : Bool) (n : Nat) : TreeInv (blockRead crc io c n).1 := by
  have h₀ := h.sbBread io n
  unfold BlockCache.blockRead
  split
  · next c' heq => rw [heq] at h₀; exact h₀
  · next c' heq =>
    rw [heq] at h₀
    dsimp only
    split_ifs
    · exact h₀
    · refine h₀.setBuf ?_; rfl
    · exact h₀.putBh n

theorem TreeInv.blockReadRef (h : TreeInv c) (io : Bool) (n seq : Nat) :
    TreeInv (blockReadRef crc io c n seq).1 := by
  have h₀ := h.blockRead crc io n
  unfold BlockCache.blockReadRef
  split
  · next c' bh heq =>
    rw [heq] at h₀
    dsimp only
    split_ifs
    · refine (h₀.setBuf ?_).putBh bh; rfl
    · exact h₀
  · exact h₀

theorem TreeInv.blockDirty (h : TreeInv c) (getblk kmalloc : Bool) (n : Nat) :
    TreeInv (blockDirty getblk kmalloc c n).1 := by
  have h₁ := (h.getBh n).insertBhp kmalloc n
  unfold BlockCache.blockDirty
  split_ifs
  · split
    · next c' heq => rw [heq] at h₁; refine h₁.setBuf ?_; rfl
    · next c' e _ heq => rw [heq] at h₁; exact h₁.putBh n
  · exact h

theorem TreeInv.blockForget (h : TreeInv c) (n : Nat) : TreeInv (blockForget c n) := by
  unfold BlockCache.blockForget
  split
  · dsimp only
    split_ifs
    · exact ((h.getBh n).eraseBhp n).putBh n
    · exact h.getBh n
  · exact h

theorem TreeInv.writeOne (h : TreeInv c) (uptodate : Nat → Bool) (n : Nat) :
    TreeInv (writeOne crc uptodate c n) := by
  unfold BlockCache.writeOne
  dsimp only
  split_ifs
  · refine TreeInv.eraseBhp (h.congr ?_ ?_) n
    · rfl
    · exact Cache.setBuf_data_priv c n _
  all_goals refine h.congr ?_ ?_
  all_goals first | rfl | exact Cache.setBuf_data_priv c n _

theorem TreeInv.writeLoop (submit : Nat → Int) (uptodate : Nat → Bool) :
    ∀ (ns : List Nat) {c : Cache}, TreeInv c → TreeInv (writeLoop crc submit uptodate ns c).1
  | [], _, h => h
  | n :: ns, _, h => by
    unfold BlockCache.writeLoop
    dsimp only
    split_ifs
    · exact TreeInv.writeLoop submit uptodate ns (h.writeOne crc uptodate n)
    · exact h.writeOne crc uptodate n

theorem TreeInv.blockDirtyRef (h : TreeInv c) (io : Bool) (alloc : Except Int Nat) (getblk kmalloc : Bool)
    (free freeCopy : Int) (ref : Ref) :
    TreeInv (blockDirtyRef crc io alloc getblk kmalloc free freeCopy c ref).1 := by
  have h₀ := h.blockRead crc io ref.blkno
  unfold BlockCache.blockDirtyRef
  split
  · next c' e heq => rw [heq] at h₀; exact h₀
  · next c₁ bl heq =>
    rw [heq] at h₀
    split_ifs
    · exact h₀
    · dsimp only
      have h₁ : TreeInv { c₁ with buddy := (buddyAlloc alloc c₁.buddy).2 } := h₀
      split
      · exact h₁.putBh bl
      · next blkno _ =>
        have h₂ := h₁.blockDirty getblk kmalloc blkno
        split
        · next c₂ e heq₂ => rw [heq₂] at h₂; exact h₂.putBh bl
        · next c₂ copy heq₂ =>
          rw [heq₂] at h₂
          split_ifs
          · exact (TreeInv.putBh (c := { c₂ with buddy := _ }) h₂ bl).putBh copy
          · refine TreeInv.putBh (TreeInv.setBuf (c := { c₂ with buddy := _ }) h₂ ?_) bl; rfl

theorem TreeInv.blockDirtyAlloc (h : TreeInv c) (alloc : Except Int Nat) (getblk kmalloc : Bool) (free : Int) :
    TreeInv (blockDirtyAlloc alloc getblk kmalloc free c).1 := by
  have h₁ : TreeInv { c with buddy := (buddyAlloc alloc c.buddy).2 } := h
  unfold BlockCache.blockDirtyAlloc
  dsimp only
  split
  · exact h₁
  · next blkno _ =>
    have h₂ := h₁.blockDirty getblk kmalloc blkno
    split
    · next c₂ e heq => rw [heq] at h₂; exact h₂
    · exact h₂

/-- One call of the block interface keeps the tree invariant. -/
theorem TreeInv.step (h : TreeInv c) (op : Op) : TreeInv (step crc c op) := by
  cases op with
  | read n io => exact h.blockRead crc io n
  | readRef n seq io => exact h.blockReadRef crc io n seq
  | dirty n getblk kmalloc => exact h.blockDirty getblk kmalloc n
  | dirtyRef ref io alloc getblk kmalloc free freeCopy =>
    exact h.blockDirtyRef crc io alloc getblk kmalloc free freeCopy ref
  | dirtyAlloc alloc getblk kmalloc free => exact h.blockDirtyAlloc alloc getblk kmalloc free
  | forget n => exact h.blockForget n
  | writeDirty submit uptodate => exact TreeInv.writeLoop crc submit uptodate _ (c := { c with writeErr := 0 }) h
  | put n => exact h.putBh n
  | replace n b => exact h

theorem TreeInv.run : ∀ (ops : List Op) {c : Cache}, TreeInv c → TreeInv (run crc c ops)
  | [], _, h => h
  | op :: ops, _, h => TreeInv.run ops (h.step crc op)

end Tree

theorem treeInv_mounted : TreeInv mounted :=
  ⟨List.sorted_nil, fun n => by simp [mounted, newBuffer]⟩

/-- **The dirty tree over every run**: from a fresh mount, whatever the calls and
their outcomes, the tree is in strictly increasing block order and holds exactly the
buffers with `b_private`. -/
theorem treeInv_run (crc : Block → Nat) (ops : List Op) : TreeInv (run crc mounted ops) :=
  TreeInv.run crc ops treeInv_mounted

/-! ## The commit's block write -/

section Write

variable (crc : Block → Nat) (submit : Nat → Int) (uptodate : Nat → Bool) {c : Cache}

/-- The blocks the loop of `scoutfs_block_write_dirty` submits, in order: each in
turn, up to and including the first whose `submit_bh` returns nonzero. -/
def submitted : List Nat → List Nat
  | [] => []
  | n :: ns => n :: if submit n = 0 then submitted ns else []

theorem isPrefix_submitted : ∀ ns : List Nat, submitted submit ns <+: ns
  | [] => List.nil_prefix
  | n :: ns => by
    unfold submitted
    split_ifs
    · exact List.cons_prefix_cons.2 ⟨rfl, isPrefix_submitted ns⟩
    · exact List.cons_prefix_cons.2 ⟨rfl, List.nil_prefix⟩

theorem submitted_of_forall : ∀ {ns : List Nat}, (∀ n ∈ ns, submit n = 0) → submitted submit ns = ns
  | [], _ => rfl
  | n :: ns, h => by
    simp only [submitted, h n (List.mem_cons_self n ns), if_true,
      submitted_of_forall fun m hm => h m (List.mem_cons_of_mem n hm)]

@[simp] theorem eraseBhp_writeErr (c : Cache) (n : Nat) : (eraseBhp c n).writeErr = c.writeErr := rfl

@[simp] theorem eraseBhp_device (c : Cache) (n : Nat) : (eraseBhp c n).device = c.device := rfl

@[simp] theorem Cache.setBuf_writeErr (c : Cache) (n : Nat) (b : Buffer) : (c.setBuf n b).writeErr = c.writeErr := rfl

@[simp] theorem Cache.setBuf_device (c : Cache) (n : Nat) (b : Buffer) : (c.setBuf n b).device = c.device := rfl

theorem crcBlock_blockSetCrc (b : Block) : crcBlock crc (blockSetCrc crc b) = crcBlock crc b := rfl

@[simp] theorem writeOne_dirtyTree (n : Nat) :
    (writeOne crc uptodate c n).dirtyTree = if uptodate n then c.dirtyTree.erase n else c.dirtyTree := by
  unfold BlockCache.writeOne
  split_ifs <;> rfl

theorem writeOne_writeErr (n : Nat) : (writeOne crc uptodate c n).writeErr =
    if uptodate n ∨ c.writeErr ≠ 0 then c.writeErr else - EIO := by
  unfold BlockCache.writeOne
  by_cases hu : uptodate n <;> by_cases he : c.writeErr = 0 <;> simp [hu, he]

theorem writeOne_device (n m : Nat) : (writeOne crc uptodate c n).device m =
    if uptodate n ∧ m = n then blockSetCrc crc (c.buf n).data else c.device m := by
  unfold BlockCache.writeOne
  by_cases hu : uptodate n <;> by_cases hm : m = n <;> simp [hu, hm, Function.update_noteq]

theorem writeOne_buf_data_of_ne {n m : Nat} (h : m ≠ n) :
    ((writeOne crc uptodate c n).buf m).data = (c.buf m).data := by
  unfold BlockCache.writeOne
  split_ifs
  · rw [eraseBhp_buf_of_ne _ h]; exact congrArg Buffer.data (Cache.setBuf_buf_of_ne c _ h)
  · exact congrArg Buffer.data (Cache.setBuf_buf_of_ne c _ h)

/-- Which blocks one completion leaves in a tree without repeats. -/
theorem mem_writeOne (h : c.dirtyTree.Nodup) (n m : Nat) :
    m ∈ (writeOne crc uptodate c n).dirtyTree ↔ m ∈ c.dirtyTree ∧ ¬(m = n ∧ uptodate m = true) := by
  rw [writeOne_dirtyTree]
  split_ifs with hu
  · rw [h.mem_erase_iff]
    constructor
    · exact fun ⟨hm, hc⟩ => ⟨hc, fun ⟨e, _⟩ => hm e⟩
    · exact fun ⟨hc, hn⟩ => ⟨fun e => hn ⟨e, e ▸ hu⟩, hc⟩
  · exact ⟨fun hc => ⟨hc, fun ⟨e, hm⟩ => hu (e ▸ hm)⟩, And.left⟩

/-- The loop returns 0 exactly when every `submit_bh` it makes returns 0. -/
theorem writeLoop_ret : ∀ (ns : List Nat) (c : Cache),
    (writeLoop crc submit uptodate ns c).2 = 0 ↔ ∀ n ∈ ns, submit n = 0
  | [], _ => by simp [writeLoop]
  | n :: ns, c => by
    unfold writeLoop
    split_ifs with hs
    · simp [hs, writeLoop_ret ns]
    · simp [hs]

/-- After the loop, the tree holds the blocks it held less the submitted ones whose
write completed. -/
theorem mem_writeLoop : ∀ (ns : List Nat) {c : Cache}, TreeInv c → ∀ m,
    m ∈ (writeLoop crc submit uptodate ns c).1.dirtyTree ↔
      m ∈ c.dirtyTree ∧ ¬(m ∈ submitted submit ns ∧ uptodate m = true)
  | [], _, _, m => by simp [writeLoop, submitted]
  | n :: ns, c, h, m => by
    have h₁ := mem_writeOne crc uptodate h.nodup n m
    unfold writeLoop submitted
    split_ifs with hs
    · rw [mem_writeLoop ns (h.writeOne crc uptodate n) m, h₁]
      simp only [List.mem_cons, or_and_right, not_or, and_assoc]
    · simpa using h₁

theorem writeLoop_writeErr_of_ne : ∀ (ns : List Nat) {c : Cache}, c.writeErr ≠ 0 →
    (writeLoop crc submit uptodate ns c).1.writeErr = c.writeErr
  | [], _, _ => rfl
  | n :: ns, c, h => by
    have h₁ : (writeOne crc uptodate c n).writeErr = c.writeErr := by simp [writeOne_writeErr, h]
    unfold writeLoop
    split_ifs
    · exact (writeLoop_writeErr_of_ne ns (h₁ ▸ h)).trans h₁
    · exact h₁

/-- From a cleared `block_write_err`, the loop leaves `-EIO` there exactly when a
submitted block's write did not complete. -/
theorem writeLoop_writeErr : ∀ (ns : List Nat) {c : Cache}, c.writeErr = 0 →
    (writeLoop crc submit uptodate ns c).1.writeErr =
      if ∀ m ∈ submitted submit ns, uptodate m = true then 0 else - EIO
  | [], _, h => h
  | n :: ns, c, h => by
    have h₁ := writeOne_writeErr crc uptodate (c := c) n
    unfold writeLoop submitted
    by_cases hu : uptodate n
    · have h₂ : (writeOne crc uptodate c n).writeErr = 0 := by simp [h₁, hu, h]
      by_cases hs : submit n = 0 <;> simp [hs, hu, h₂, writeLoop_writeErr ns h₂]
    · have h₂ : (writeOne crc uptodate c n).writeErr = - EIO := by simp [h₁, hu, h]
      have h₃ := writeLoop_writeErr_of_ne crc submit uptodate ns (c := writeOne crc uptodate c n)
        (by simp [h₂, EIO])
      by_cases hs : submit n = 0 <;> simp [hs, hu, h₂, h₃]

theorem writeLoop_device_of_not_mem : ∀ {ns : List Nat} {c : Cache} {m : Nat}, m ∉ ns →
    (writeLoop crc submit uptodate ns c).1.device m = c.device m
  | [], _, _, _ => rfl
  | n :: ns, c, m, hm => by
    have h₁ : (writeOne crc uptodate c n).device m = c.device m := by
      simp [writeOne_device, (List.ne_of_not_mem_cons hm)]
    unfold writeLoop
    split_ifs
    · exact (writeLoop_device_of_not_mem (List.not_mem_of_not_mem_cons hm)).trans h₁
    · exact h₁

/-- A submitted block whose write completed is on the device with its checksum stamped. -/
theorem writeLoop_device : ∀ {ns : List Nat} {c : Cache} {m : Nat}, ns.Nodup →
    m ∈ submitted submit ns → uptodate m = true →
      (writeLoop crc submit uptodate ns c).1.device m = blockSetCrc crc (c.buf m).data
  | n :: ns, c, m, hd, hm, hu => by
    have hd' := List.nodup_cons.1 hd
    unfold writeLoop
    unfold submitted at hm
    by_cases e : m = n
    · subst e
      have h₁ : (writeOne crc uptodate c m).device m = blockSetCrc crc (c.buf m).data := by
        simp [writeOne_device, hu]
      split_ifs
      · exact (writeLoop_device_of_not_mem crc submit uptodate hd'.1).trans h₁
      · exact h₁
    · split_ifs at hm ⊢ with hs
      · rw [writeLoop_device hd'.2 ((List.mem_cons.1 hm).resolve_left e) hu,
          writeOne_buf_data_of_ne crc uptodate e]
      · simp [e] at hm

theorem submitted_sorted (h : TreeInv c) : (submitted submit c.dirtyTree).Sorted (· < ·) :=
  List.Pairwise.sublist (isPrefix_submitted submit _).sublist h.sorted

/-- **`scoutfs_block_write_dirty`**, for every tree and every outcome of each
`submit_bh` and each completion: the submitted blocks are a prefix of the tree, so in
increasing order and each once; a block that completed is on the device with its
checksum stamped; the tree keeps exactly the blocks not submitted or not completed;
the function returns 0 iff every `submit_bh` did; and `block_write_err` is `-EIO`
iff a submitted block did not complete. -/
theorem blockWriteDirty_spec (h : TreeInv c) :
    (submitted submit c.dirtyTree).Sorted (· < ·) ∧
    (∀ m ∈ submitted submit c.dirtyTree, uptodate m = true →
      (blockWriteDirty crc submit uptodate c).1.device m = blockSetCrc crc (c.buf m).data) ∧
    (∀ m, m ∈ (blockWriteDirty crc submit uptodate c).1.dirtyTree ↔
      m ∈ c.dirtyTree ∧ ¬(m ∈ submitted submit c.dirtyTree ∧ uptodate m = true)) ∧
    ((blockWriteDirty crc submit uptodate c).2 = 0 ↔ ∀ n ∈ c.dirtyTree, submit n = 0) ∧
    (blockWriteDirty crc submit uptodate c).1.writeErr =
      if ∀ m ∈ submitted submit c.dirtyTree, uptodate m = true then 0 else - EIO :=
  ⟨submitted_sorted submit h,
    fun _ hm hu => writeLoop_device crc submit uptodate (c := { c with writeErr := 0 }) h.nodup hm hu,
    mem_writeLoop crc submit uptodate _ (c := { c with writeErr := 0 }) h,
    writeLoop_ret crc submit uptodate _ _,
    writeLoop_writeErr crc submit uptodate _ (c := { c with writeErr := 0 }) rfl⟩

/-- A write that fails at completion while every `submit_bh` succeeds: the block
stays dirty and `block_write_err` is `-EIO`, but `scoutfs_block_write_dirty` returns 0. -/
theorem write_failure_unreported (h : TreeInv c) (hs : ∀ n ∈ c.dirtyTree, submit n = 0) {n : Nat}
    (hn : n ∈ c.dirtyTree) (hu : uptodate n = false) :
    (blockWriteDirty crc submit uptodate c).2 = 0 ∧ n ∈ (blockWriteDirty crc submit uptodate c).1.dirtyTree ∧
      (blockWriteDirty crc submit uptodate c).1.writeErr = - EIO := by
  obtain ⟨-, -, hmem, hret, herr⟩ := blockWriteDirty_spec crc submit uptodate h
  rw [submitted_of_forall submit hs] at hmem herr
  refine ⟨hret.2 hs, (hmem n).2 ⟨hn, fun ⟨_, hu'⟩ => by simp [hu] at hu'⟩, ?_⟩
  rw [herr, if_neg fun hall => by simp [hall n hn] at hu]

end Write

/-- Block 7 is dirtied and put; the commit's write submits it, and the write fails at
completion. -/
def failedWriteRun : List Op :=
  [.dirty 7 true true, .put 7, .writeDirty (fun _ => 0) (fun _ => false)]

/-- **A failed block write is reported as success.** After `failedWriteRun`,
`scoutfs_block_write_dirty` returned 0, while block 7 is still in the dirty tree and
`block_write_err` holds `-EIO`. -/
theorem failed_write_returns_zero (crc : Block → Nat) :
    (run crc mounted failedWriteRun).log.getLast? = some (.writeDirty 0) ∧
      7 ∈ (run crc mounted failedWriteRun).dirtyTree ∧ (run crc mounted failedWriteRun).writeErr = - EIO :=
  ⟨rfl, by rw [show (run crc mounted failedWriteRun).dirtyTree = [7] from rfl]; simp, rfl⟩

end Scoutfs.BlockCache
