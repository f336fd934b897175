import Scoutfs.Basic

/-!
# The metadata block cache

`block.c` keeps metadata blocks in the block device's buffer heads. A buffer is
found by its block number (`sb_bread`, `sb_getblk`, `sb_find_get_block`), holds a
reference count, the `uptodate` bit, scoutfs's `ScoutfsVerified` bit and, while
dirty, a `block_bh_private` in `b_private` that links it into the dirty rbtree.
Presence in the dirty tree owns one reference; the caller of every function that
hands out a buffer owns another, which it drops with `scoutfs_block_put`.

The kernel's buffer cache is modelled from its documented behaviour: one buffer
per block number, `sb_bread` reading the device only when the buffer is not
uptodate. `buddy.c` and `crc.c` are not in the sources: the checksum is a
parameter `crc`, and the buddy allocator is modelled from the interface the
specification gives it, as the free blocks and the freed ones that wait for a
commit (`Buddy`); which block an allocation picks, and whether it fails, is an input.
Every failing kernel call is an input too: `Op` carries the outcome of each read,
allocation, free and write.

Two runs break what the cache promises. In `read_unverified`, a
`scoutfs_block_read_ref` whose seq does not match clears `uptodate` but not
`ScoutfsVerified`; the device block is then replaced by a corrupt one, and the
next `scoutfs_block_read` re-reads it and hands it out unchecked. In
`forget_leaks_ref`, `scoutfs_block_forget` on a cached clean block takes a
reference with `sb_find_get_block` that nothing drops.
-/

namespace Scoutfs.BlockCache

open Function (update)

/-- `struct scoutfs_block_header`. -/
structure Header where
  crc : Nat
  fsid : Nat
  blkno : Nat
  seq : Nat
  deriving DecidableEq, Repr

/-- A metadata block: its header and the rest of its bytes. -/
structure Block where
  hdr : Header
  body : Nat
  deriving DecidableEq, Repr

/-- `scoutfs_crc_block`: the checksum `crc` of the block with the header's `crc`
field left out. -/
def crcBlock (crc : Block → Nat) (b : Block) : Nat := crc { b with hdr := { b.hdr with crc := 0 } }

/-- `scoutfs_block_set_crc`: the header's `crc` set to the block's checksum. -/
def blockSetCrc (crc : Block → Nat) (b : Block) : Block := { b with hdr := { b.hdr with crc := crcBlock crc b } }

/-- `verify_block_header`: the checksum, then the fsid when the super block has
one, then the block number. -/
def verifyBlockHeader (crc : Block → Nat) (superFsid blocknr : Nat) (b : Block) : Int :=
  if b.hdr.crc ≠ crcBlock crc b then - EIO
  else if superFsid ≠ 0 ∧ b.hdr.fsid ≠ superFsid then - EIO
  else if b.hdr.blkno ≠ blocknr then - EIO
  else 0

/-- The buddy allocator as the block layer uses it: the free blocks, and the blocks
freed in this transaction that only become free once it commits, each with the seq
it was freed with. -/
structure Buddy where
  free : Finset Nat
  pending : Finset (Nat × Nat)
  deriving DecidableEq

/-- A buffer head. -/
structure Buffer where
  /-- `b_count` -/
  count : Nat
  uptodate : Bool
  /-- `BH_ScoutfsVerified` -/
  verified : Bool
  /-- `b_private` is set: the buffer has a `block_bh_private` -/
  priv : Bool
  /-- `b_data` -/
  data : Block
  deriving DecidableEq, Repr

/-- Results of calls compare by their constructor and contents. -/
instance instDecidableEqExcept {ε α : Type} [DecidableEq ε] [DecidableEq α] : DecidableEq (Except ε α)
  | .error x, .error y => if h : x = y then isTrue (h ▸ rfl) else isFalse fun e => h (by injection e)
  | .ok x, .ok y => if h : x = y then isTrue (h ▸ rfl) else isFalse fun e => h (by injection e)
  | .error _, .ok _ => isFalse nofun
  | .ok _, .error _ => isFalse nofun

/-- What a call that hands out a buffer returned. -/
inductive Event where
  | read (blkno : Nat) (r : Except Int Nat)
  | readRef (blkno : Nat) (r : Except Int Nat)
  | dirty (blkno : Nat) (r : Except Int Nat)
  | dirtyRef (blkno : Nat) (r : Except Int Nat)
  | dirtyAlloc (r : Except Int Nat)
  /-- what `scoutfs_block_write_dirty` returned -/
  | writeDirty (r : Int)
  deriving DecidableEq, Repr

/-- The buffer cache, the dirty tree, the device and the super block fields that
`block.c` reads. -/
structure Cache where
  bufs : Nat → Option Buffer
  /-- `sbi->block_dirty_tree`, in order -/
  dirtyTree : List Nat
  device : Nat → Block
  /-- `sbi->super.hdr`, whose seq is the transaction's dirty seq -/
  superHdr : Header
  /-- `sbi->stable_super.hdr.seq` -/
  stableSeq : Nat
  buddy : Buddy
  /-- `sbi->block_write_err` -/
  writeErr : Int
  log : List Event

/-! ## The kernel's buffer cache -/

/-- A buffer head the cache has just allocated. -/
def newBuffer : Buffer :=
  { count := 0, uptodate := false, verified := false, priv := false,
    data := { hdr := { crc := 0, fsid := 0, blkno := 0, seq := 0 }, body := 0 } }

namespace Cache

/-- The buffer of `blkno`, found or newly allocated. -/
def buf (c : Cache) (blkno : Nat) : Buffer := (c.bufs blkno).getD newBuffer

def setBuf (c : Cache) (blkno : Nat) (b : Buffer) : Cache :=
  { c with bufs := update c.bufs blkno (some b) }

/-- `get_bh`, and the reference `sb_getblk` and `sb_bread` take. -/
def getBh (c : Cache) (blkno : Nat) : Cache :=
  c.setBuf blkno { c.buf blkno with count := c.buf blkno |>.count |>.succ }

/-- `put_bh`, `brelse` and `bforget`: drop a reference. -/
def putBh (c : Cache) (blkno : Nat) : Cache :=
  c.setBuf blkno { c.buf blkno with count := (c.buf blkno).count - 1 }

/-- `sb_bread`: a referenced buffer, read from the device unless it is uptodate.
`io` is the outcome of that read; a failed read drops the reference. -/
def sbBread (io : Bool) (c : Cache) (blkno : Nat) : Cache × Bool :=
  let c := c.getBh blkno
  if (c.buf blkno).uptodate then (c, true)
  else if io then (c.setBuf blkno { c.buf blkno with uptodate := true, data := c.device blkno }, true)
  else (c.putBh blkno, false)

end Cache

@[simp] theorem Cache.setBuf_buf (c : Cache) (n : Nat) (b : Buffer) : (c.setBuf n b).buf n = b := by
  simp [Cache.setBuf, Cache.buf]

theorem Cache.setBuf_buf_of_ne (c : Cache) {n m : Nat} (b : Buffer) (h : m ≠ n) :
    (c.setBuf n b).buf m = c.buf m := by
  simp [Cache.setBuf, Cache.buf, Function.update_noteq h]

/-! ## The buddy allocator -/

/-- `scoutfs_buddy_alloc` and `scoutfs_buddy_alloc_same`: `r` is the block the
allocator picks, or its error. Only a free block can be handed out. -/
def buddyAlloc (r : Except Int Nat) (b : Buddy) : Except Int Nat × Buddy :=
  match r with
  | .error e => (.error e, b)
  | .ok n => if n ∈ b.free then (.ok n, { b with free := b.free.erase n }) else (.error (- ENOSPC), b)

/-- `scoutfs_buddy_free(seq, blkno)` in the transaction `cur`, `r` being its result: a
block allocated in this transaction is free again at once, any other waits for the
commit. A failed free changes nothing. -/
def buddyFree (r : Int) (cur seq blkno : Nat) (b : Buddy) : Int × Buddy :=
  if r ≠ 0 then (r, b)
  else if seq = cur then (0, { b with free := insert blkno b.free })
  else (0, { b with pending := insert (blkno, seq) b.pending })

/-! ## `block.c` -/

/-- `insert_bhp_rb`: walk right past every equal block number, so the tree's
in-order list gets the new one after them. -/
def insertBhpRb (blkno : Nat) : List Nat → List Nat
  | [] => [blkno]
  | n :: ns => if blkno < n then blkno :: n :: ns else n :: insertBhpRb blkno ns

/-- `insert_bhp`: nothing if the buffer is already tracked; else, if the `kmalloc`
succeeds, a reference for the tree and `b_private`. -/
def insertBhp (kmalloc : Bool) (c : Cache) (blkno : Nat) : Cache × Int :=
  if (c.buf blkno).priv then (c, 0)
  else if kmalloc then
    let c := c.getBh blkno
    ({ c.setBuf blkno { c.buf blkno with priv := true } with
        dirtyTree := insertBhpRb blkno c.dirtyTree }, 0)
  else (c, - ENOMEM)

/-- `erase_bhp`: out of the tree, the tree's reference dropped, `b_private` cleared. -/
def eraseBhp (c : Cache) (blkno : Nat) : Cache :=
  let c := { c with dirtyTree := c.dirtyTree.erase blkno }.putBh blkno
  c.setBuf blkno { c.buf blkno with priv := false }

section Functions

variable (crc : Block → Nat)

/-- `scoutfs_block_read`. -/
def blockRead (io : Bool) (c : Cache) (blkno : Nat) : Cache × Except Int Nat :=
  match c.sbBread io blkno with
  | (c, false) => (c, .error (- EIO))
  | (c, true) =>
    if (c.buf blkno).verified then (c, .ok blkno)
    else if verifyBlockHeader crc c.superHdr.fsid blkno (c.buf blkno).data = 0 then
      (c.setBuf blkno { c.buf blkno with verified := true }, .ok blkno)
    else (c.putBh blkno, .error (verifyBlockHeader crc c.superHdr.fsid blkno (c.buf blkno).data))

/-- `scoutfs_block_read_ref`: a seq that does not match the reference clears
`uptodate`, so that the next read goes to the device. -/
def blockReadRef (io : Bool) (c : Cache) (blkno seq : Nat) : Cache × Except Int Nat :=
  match blockRead crc io c blkno with
  | (c, .ok bh) =>
    if (c.buf bh).data.hdr.seq ≠ seq then
      ((c.setBuf bh { c.buf bh with uptodate := false }).putBh bh, .error (- EAGAIN))
    else (c, .ok bh)
  | r => r

/-- `scoutfs_block_dirty`: `getblk` is whether `sb_getblk` found memory, `kmalloc`
whether `insert_bhp`'s allocation did. The header is the super block's, with this
block's number and the dirty seq. -/
def blockDirty (getblk kmalloc : Bool) (c : Cache) (blkno : Nat) : Cache × Except Int Nat :=
  if getblk then
    match insertBhp kmalloc (c.getBh blkno) blkno with
    | (c, 0) =>
      let b := c.buf blkno
      let hdr : Header := { c.superHdr with blkno := blkno, seq := c.superHdr.seq }
      (c.setBuf blkno { b with uptodate := true, verified := true, data := { b.data with hdr := hdr } },
        .ok blkno)
    | (c, e) => (c.putBh blkno, .error e)
  else (c, .error (- ENOMEM))

/-- `scoutfs_block_write_dirty`, one buffer of the tree: `scoutfs_block_set_crc`,
`submit_bh`, and `block_write_end_io` called with `uptodate blkno`, which erases a
written buffer from the tree and otherwise sets `block_write_err`. The buffers'
completions touch only their own buffer and set `block_write_err` to the same value,
so the order they run in does not matter. -/
def writeOne (uptodate : Nat → Bool) (c : Cache) (blkno : Nat) : Cache :=
  let b := c.buf blkno
  let c := c.setBuf blkno { b with data := blockSetCrc crc b.data }
  if uptodate blkno then eraseBhp { c with device := update c.device blkno (c.buf blkno).data } blkno
  else { c with writeErr := if c.writeErr = 0 then - EIO else c.writeErr }

/-- The loop of `scoutfs_block_write_dirty` over the tree as it was when it started,
in block order, stopping after a `submit_bh` that returns nonzero. -/
def writeLoop (submit : Nat → Int) (uptodate : Nat → Bool) : List Nat → Cache → Cache × Int
  | [], c => (c, 0)
  | n :: ns, c =>
    let c := writeOne crc uptodate c n
    if submit n = 0 then writeLoop submit uptodate ns c else (c, submit n)

/-- `scoutfs_block_write_dirty`: the cache once all the I/O has drained, and `ret`. -/
def blockWriteDirty (submit : Nat → Int) (uptodate : Nat → Bool) (c : Cache) : Cache × Int :=
  writeLoop crc submit uptodate c.dirtyTree { c with writeErr := 0 }

/-- A `struct scoutfs_block_ref`. -/
structure Ref where
  blkno : Nat
  seq : Nat
  deriving DecidableEq, Repr

/-- `scoutfs_block_dirty_ref`: the referenced block if its seq is the dirty seq;
otherwise a dirty copy at the block `scoutfs_buddy_alloc_same` gives (`alloc`), the
old block freed with its header's seq (`free` is what that `scoutfs_buddy_free`
returns), and the reference moved to the copy. After a failure at the old block's
free, the copy is freed at the dirty seq (`freeCopy`). -/
def blockDirtyRef (io : Bool) (alloc : Except Int Nat) (getblk kmalloc : Bool) (free freeCopy : Int)
    (c : Cache) (ref : Ref) : Cache × Except Int Nat × Ref :=
  match blockRead crc io c ref.blkno with
  | (c, .error e) => (c, .error e, ref)
  | (c, .ok bl) =>
    if ref.seq = c.superHdr.seq then (c, .ok bl, ref)
    else
      let a := buddyAlloc alloc c.buddy
      let c := { c with buddy := a.2 }
      match a.1 with
      | .error e => (c.putBh bl, .error e, ref)
      | .ok blkno =>
        match blockDirty getblk kmalloc c blkno with
        | (c, .error e) => (c.putBh bl, .error e, ref)
        | (c, .ok copy) =>
          let old := (c.buf bl).data.hdr
          let f := buddyFree free c.superHdr.seq old.seq old.blkno c.buddy
          let c := { c with buddy := f.2 }
          if f.1 ≠ 0 then
            let c := { c with buddy := (buddyFree freeCopy c.superHdr.seq c.superHdr.seq blkno c.buddy).2 }
            ((c.putBh bl).putBh copy, .error f.1, ref)
          else
            let hdr : Header := { (c.buf bl).data.hdr with blkno := blkno, seq := c.superHdr.seq }
            let c := c.setBuf copy { c.buf copy with data := { (c.buf bl).data with hdr := hdr } }
            (c.putBh bl, .ok copy, { blkno := blkno, seq := c.superHdr.seq })

/-- `scoutfs_block_dirty_alloc`: a dirty block at the number `scoutfs_buddy_alloc`
gives (`alloc`). When `scoutfs_block_dirty` fails, the block is freed with the stable
super block's seq (`free` is what that free returns). -/
def blockDirtyAlloc (alloc : Except Int Nat) (getblk kmalloc : Bool) (free : Int) (c : Cache) :
    Cache × Except Int Nat :=
  let a := buddyAlloc alloc c.buddy
  let c := { c with buddy := a.2 }
  match a.1 with
  | .error e => (c, .error e)
  | .ok blkno =>
    match blockDirty getblk kmalloc c blkno with
    | (c, .error e) => ({ c with buddy := (buddyFree free c.superHdr.seq c.stableSeq blkno c.buddy).2 }, .error e)
    | r => r

end Functions

/-- `scoutfs_block_forget`: `sb_find_get_block` takes a reference on a cached
buffer; a dirty one is erased from the tree and `bforget` drops both references. -/
def blockForget (c : Cache) (blkno : Nat) : Cache :=
  match c.bufs blkno with
  | some _ =>
    let c := c.getBh blkno
    if (c.buf blkno).priv then (eraseBhp c blkno).putBh blkno else c
  | none => c

/-! ## Runs -/

/-- A call of the block interface, with the outcome of every kernel and allocator
call it makes, or a change the rest of the world makes. -/
inductive Op where
  | read (blkno : Nat) (io : Bool)
  | readRef (blkno seq : Nat) (io : Bool)
  | dirty (blkno : Nat) (getblk kmalloc : Bool)
  | dirtyRef (ref : Ref) (io : Bool) (alloc : Except Int Nat) (getblk kmalloc : Bool) (free freeCopy : Int)
  | dirtyAlloc (alloc : Except Int Nat) (getblk kmalloc : Bool) (free : Int)
  | forget (blkno : Nat)
  | writeDirty (submit : Nat → Int) (uptodate : Nat → Bool)
  /-- the caller's `scoutfs_block_put` of a buffer it was handed -/
  | put (blkno : Nat)
  /-- another writer replaces the device block -/
  | replace (blkno : Nat) (b : Block)

def step (crc : Block → Nat) (c : Cache) : Op → Cache
  | .read n io =>
    let r := blockRead crc io c n
    { r.1 with log := c.log ++ [.read n r.2] }
  | .readRef n seq io =>
    let r := blockReadRef crc io c n seq
    { r.1 with log := c.log ++ [.readRef n r.2] }
  | .dirty n getblk kmalloc =>
    let r := blockDirty getblk kmalloc c n
    { r.1 with log := c.log ++ [.dirty n r.2] }
  | .dirtyRef ref io alloc getblk kmalloc free freeCopy =>
    let r := blockDirtyRef crc io alloc getblk kmalloc free freeCopy c ref
    { r.1 with log := c.log ++ [.dirtyRef ref.blkno r.2.1] }
  | .dirtyAlloc alloc getblk kmalloc free =>
    let r := blockDirtyAlloc alloc getblk kmalloc free c
    { r.1 with log := c.log ++ [.dirtyAlloc r.2] }
  | .forget n => blockForget c n
  | .writeDirty submit uptodate =>
    let r := blockWriteDirty crc submit uptodate c
    { r.1 with log := c.log ++ [.writeDirty r.2] }
  | .put n => c.putBh n
  | .replace n b => { c with device := update c.device n b }

def run (crc : Block → Nat) (c : Cache) : List Op → Cache
  | [] => c
  | op :: ops => run crc (step crc c op) ops

/-- A mount with nothing cached, dirty seq 1 and a zeroed device, whose allocator has
no free block. -/
def mounted : Cache where
  bufs _ := none
  dirtyTree := []
  device _ := newBuffer.data
  superHdr := { crc := 0, fsid := 0, blkno := 0, seq := 1 }
  stableSeq := 0
  buddy := ⟨∅, ∅⟩
  writeErr := 0
  log := []

/-! ## A re-read that is not verified -/

/-- The bytes another writer leaves at block 7: a stored checksum one off the
block's own. -/
def garbage (crc : Block → Nat) : Block :=
  let b : Block := { hdr := { crc := 0, fsid := 0, blkno := 7, seq := 2 }, body := 1 }
  { b with hdr := { b.hdr with crc := crcBlock crc b + 1 } }

theorem verify_garbage (crc : Block → Nat) (fsid : Nat) :
    verifyBlockHeader crc fsid 7 (garbage crc) ≠ 0 := by
  simp [verifyBlockHeader, garbage, crcBlock, EIO]

/-- Block 7 is dirtied, put and written. A read through a reference with seq 2 sees
seq 1 and clears `uptodate`; another writer then leaves garbage at block 7, and the
next read goes to the device. -/
def staleRun (crc : Block → Nat) : List Op :=
  [.dirty 7 true true, .put 7, .writeDirty (fun _ => 0) (fun _ => true), .readRef 7 2 true,
   .replace 7 (garbage crc), .read 7 true]

/-- **`scoutfs_block_read` hands out bytes it never verified.** After `staleRun` the
read returned block 7, whose buffer holds the garbage that fails
`verify_block_header` and still carries `ScoutfsVerified`. -/
theorem read_unverified (crc : Block → Nat) :
    (run crc mounted (staleRun crc)).log.getLast? = some (.read 7 (.ok 7)) ∧
      ((run crc mounted (staleRun crc)).buf 7).verified = true ∧
      ((run crc mounted (staleRun crc)).buf 7).data = garbage crc ∧
      verifyBlockHeader crc (run crc mounted (staleRun crc)).superHdr.fsid 7 (garbage crc) ≠ 0 :=
  ⟨rfl, rfl, rfl, verify_garbage crc _⟩

/-! ## A reference `scoutfs_block_forget` never drops -/

/-- Block 7 is dirtied, put and written, so its buffer stays cached and clean; then
it is forgotten. -/
def forgetRun : List Op :=
  [.dirty 7 true true, .put 7, .writeDirty (fun _ => 0) (fun _ => true), .forget 7]

/-- **`scoutfs_block_forget` leaks a reference on a clean cached block.** After
`forgetRun` every caller has put what it was handed, block 7 is not in the dirty
tree and has no `b_private`, and its count is 1. -/
theorem forget_leaks_ref (crc : Block → Nat) :
    7 ∉ (run crc mounted forgetRun).dirtyTree ∧ ((run crc mounted forgetRun).buf 7).priv = false ∧
      ((run crc mounted forgetRun).buf 7).count = 1 :=
  ⟨by rw [show (run crc mounted forgetRun).dirtyTree = [] from rfl]; simp, rfl, rfl⟩

end Scoutfs.BlockCache
