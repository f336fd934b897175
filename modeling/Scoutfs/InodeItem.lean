import Mathlib.Logic.Function.Basic
import Scoutfs.Basic

/-!
# Inode items

`store_inode` copies a VFS inode into its item, a `struct scoutfs_inode`, and `load_inode`
copies an item back into a VFS inode. Every field goes through `cpu_to_le64` or
`cpu_to_le32` on the way out and `le64_to_cpu` or `le32_to_cpu` on the way in. Those
change the byte order only, so a field is kept here as its value, at the width of its C
type: `i_mode` is a 16-bit `umode_t` stored in a 32-bit field, and each `tv_nsec` is a
64-bit `long` stored in 32 bits. A `long` or `loff_t` is kept as its 64 bits, which is all
the conversions look at.

Those two fields are where the copies lose data. Storing and loading gives back every VFS
inode whose `tv_nsec` values fit in 32 bits, and only those (`load_store_inode`); loading
and storing gives back every item whose mode fits in 16 bits, and only those. A kernel
time has `0 ≤ tv_nsec < NSEC_PER_SEC`, so every inode the VFS holds survives the trip.

`scoutfs_update_inode_item` stores the in-memory inode after each change and
`scoutfs_iget` loads the item when the inode is not cached and `iget5_locked` could
allocate one. The inode cache and the items then agree over every run in which the item
reads succeed (`Consistent.run`): a cached inode is what loading its item gives, so an
inode evicted and read back is the inode as last stored (`iget_returns_item`).
`scoutfs_read_locked_inode` returns 0 whatever `scoutfs_btree_lookup` returned, so a
failed read caches the inode as `iget5_locked` allocated it, and the next update writes
that over the item.
-/

namespace Scoutfs.InodeItem

open Function (update)

/-! ## The two layouts -/

/-- `struct scoutfs_timespec`: `__le64 sec` and `__le32 nsec`. -/
structure DiskTimespec where
  sec : BitVec 64
  nsec : BitVec 32
  deriving DecidableEq, Repr

/-- `struct scoutfs_inode`: the fields `store_inode` and `load_inode` copy. -/
structure DiskInode where
  size : BitVec 64
  nlink : BitVec 32
  uid : BitVec 32
  gid : BitVec 32
  mode : BitVec 32
  rdev : BitVec 32
  atime : DiskTimespec
  ctime : DiskTimespec
  mtime : DiskTimespec
  salt : BitVec 32
  deriving DecidableEq, Repr

/-- A VFS `struct timespec`: `tv_sec` and `tv_nsec` are `long`s. -/
structure Timespec where
  sec : BitVec 64
  nsec : BitVec 64
  deriving DecidableEq, Repr

/-- The fields of a VFS inode and its `scoutfs_inode_info` that the copies touch:
`i_size` (`loff_t`), `i_nlink` (`unsigned int`), `i_uid` and `i_gid` as `i_uid_read` and
`i_gid_read` give them (`uid_t`, `gid_t`), `i_mode` (`umode_t`), `i_rdev` (`dev_t`), the
three times, and `ci->salt` (`u32`). -/
structure VfsInode where
  size : BitVec 64
  nlink : BitVec 32
  uid : BitVec 32
  gid : BitVec 32
  mode : BitVec 16
  rdev : BitVec 32
  atime : Timespec
  mtime : Timespec
  ctime : Timespec
  salt : BitVec 32
  deriving DecidableEq, Repr

/-- A time as `store_inode` writes it: `cpu_to_le64(tv_sec)`, `cpu_to_le32(tv_nsec)`. -/
def storeTimespec (t : Timespec) : DiskTimespec := ⟨t.sec, t.nsec.setWidth 32⟩

/-- A time as `load_inode` reads it back into the `long`s. -/
def loadTimespec (t : DiskTimespec) : Timespec := ⟨t.sec, t.nsec.setWidth 64⟩

/-- `store_inode`. -/
def storeInode (i : VfsInode) : DiskInode where
  size := i.size
  nlink := i.nlink
  uid := i.uid
  gid := i.gid
  mode := i.mode.setWidth 32
  rdev := i.rdev
  atime := storeTimespec i.atime
  ctime := storeTimespec i.ctime
  mtime := storeTimespec i.mtime
  salt := i.salt

/-- `load_inode`. -/
def loadInode (c : DiskInode) : VfsInode where
  size := c.size
  nlink := c.nlink
  uid := c.uid
  gid := c.gid
  mode := c.mode.setWidth 16
  rdev := c.rdev
  atime := loadTimespec c.atime
  mtime := loadTimespec c.mtime
  ctime := loadTimespec c.ctime
  salt := c.salt

/-! ## Round trips -/

/-- The `long` of `tv_nsec` survives its 32-bit field exactly when it fits. -/
theorem loadTimespec_storeTimespec (t : Timespec) :
    loadTimespec (storeTimespec t) = t ↔ t.nsec.toNat < 2 ^ 32 := by
  obtain ⟨sec, nsec⟩ := t
  simp only [loadTimespec, storeTimespec, Timespec.mk.injEq, true_and, BitVec.toNat_eq,
    BitVec.toNat_setWidth]
  have := nsec.isLt
  omega

theorem storeTimespec_loadTimespec (t : DiskTimespec) : storeTimespec (loadTimespec t) = t := by
  obtain ⟨sec, nsec⟩ := t
  simp only [loadTimespec, storeTimespec, DiskTimespec.mk.injEq, true_and, BitVec.toNat_eq,
    BitVec.toNat_setWidth]
  have := nsec.isLt
  omega

/-- **The inode item is a faithful copy of the fields it holds, up to their widths.**
Loading what `store_inode` wrote gives the VFS inode back exactly when its three `tv_nsec`
values fit in 32 bits; storing what `load_inode` read gives the item back exactly when its
mode fits in the 16 bits of `umode_t`. -/
theorem load_store_inode (i : VfsInode) (c : DiskInode) :
    (loadInode (storeInode i) = i ↔
      i.atime.nsec.toNat < 2 ^ 32 ∧ i.mtime.nsec.toNat < 2 ^ 32 ∧ i.ctime.nsec.toNat < 2 ^ 32) ∧
    (storeInode (loadInode c) = c ↔ c.mode.toNat < 2 ^ 16) := by
  have hm : ∀ m : BitVec 16, (m.setWidth 32).setWidth 16 = m := fun m => by
    rw [BitVec.toNat_eq, BitVec.toNat_setWidth, BitVec.toNat_setWidth]
    have := m.isLt
    omega
  have hm' : (c.mode.setWidth 16).setWidth 32 = c.mode ↔ c.mode.toNat < 2 ^ 16 := by
    rw [BitVec.toNat_eq, BitVec.toNat_setWidth, BitVec.toNat_setWidth]
    have := c.mode.isLt
    omega
  cases i
  cases c
  simp only [loadInode, storeInode, VfsInode.mk.injEq, DiskInode.mk.injEq, hm, loadTimespec_storeTimespec,
    storeTimespec_loadTimespec, hm', true_and, and_true]

/-! ## The inode cache and the items -/

/-- The three `tv_nsec` values fit in the item's 32 bits. -/
def Fits (i : VfsInode) : Prop :=
  i.atime.nsec.toNat < 2 ^ 32 ∧ i.mtime.nsec.toNat < 2 ^ 32 ∧ i.ctime.nsec.toNat < 2 ^ 32

theorem fits_loadInode (c : DiskInode) : Fits (loadInode c) := by
  simp only [Fits, loadInode, loadTimespec, BitVec.toNat_setWidth]
  have := c.atime.nsec.isLt
  have := c.mtime.nsec.isLt
  have := c.ctime.nsec.isLt
  omega

theorem loadInode_storeInode {i : VfsInode} (h : Fits i) : loadInode (storeInode i) = i :=
  ((load_store_inode i (storeInode i)).1.2 h)

/-- The inode items and the VFS inode cache. -/
structure Icache where
  items : Nat → Option DiskInode
  cache : Nat → Option VfsInode

/-- `scoutfs_btree_lookup` of the inode item of `ino`: `-ENOENT` without one, `-EIO` when
reading it fails (`readOk` false). -/
def lookupItem (s : Icache) (ino : Nat) (readOk : Bool) : Except Int DiskInode :=
  match s.items ino with
  | none => .error (- ENOENT)
  | some c => if readOk then .ok c else .error (- EIO)

/-- `scoutfs_read_locked_inode`: the item loaded when the lookup found it, and 0 whatever
the lookup returned. -/
def scoutfsReadLockedInode (lookup : Except Int DiskInode) (inode : VfsInode) : VfsInode × Int :=
  match lookup with
  | .ok c => (loadInode c, 0)
  | .error _ => (inode, 0)

/-- `scoutfs_iget` of `ino`: a cached inode as it is; otherwise the inode `iget5_locked`
allocates, `fresh`, filled by `scoutfs_read_locked_inode` and cached unless that failed.
`fresh` is `none` when `iget5_locked` cannot allocate one, and the call returns `-ENOMEM`. -/
def scoutfsIget (fresh : Option VfsInode) (readOk : Bool) (s : Icache) (ino : Nat) :
    Icache × Except Int VfsInode :=
  match s.cache ino with
  | some i => (s, .ok i)
  | none =>
    match fresh with
    | none => (s, .error (- ENOMEM))
    | some inode =>
      let r := scoutfsReadLockedInode (lookupItem s ino readOk) inode
      if r.2 ≠ 0 then (s, .error r.2)
      else ({ s with cache := update s.cache ino (some r.1) }, .ok r.1)

/-- `scoutfs_update_inode_item`: `inode` stored over the item of `ino`. -/
def scoutfsUpdateInodeItem (s : Icache) (ino : Nat) (inode : VfsInode) : Icache :=
  { s with items := update s.items ino (some (storeInode inode)) }

/-- What happens to an inode. -/
inductive Op where
  /-- `scoutfs_iget`, with whether the read of the item succeeds and the inode
  `iget5_locked` allocates, if it can -/
  | iget (ino : Nat) (readOk : Bool) (fresh : Option VfsInode)
  /-- a change to a cached inode whose item is dirty, then `scoutfs_update_inode_item`,
  as `scoutfs_mknod` and `scoutfs_unlink` make them -/
  | change (ino : Nat) (f : VfsInode → VfsInode)
  /-- the inode leaves the cache -/
  | evict (ino : Nat)

/-- One operation, if it can happen: a change needs the inode cached and its item there,
which `scoutfs_dirty_inode_item` checked first. -/
def step (s : Icache) : Op → Option Icache
  | .iget ino readOk fresh => some (scoutfsIget fresh readOk s ino).1
  | .change ino f => match s.cache ino, s.items ino with
    | some i, some _ =>
      some (scoutfsUpdateInodeItem { s with cache := update s.cache ino (some (f i)) } ino (f i))
    | _, _ => none
  | .evict ino => some { s with cache := update s.cache ino none }

/-- Several operations in a row. -/
def run (s : Icache) : List Op → Option Icache
  | [] => some s
  | op :: ops => (step s op).bind fun s' => run s' ops

/-- `scoutfs_read_locked_inode` returns 0 whatever the lookup returned. -/
@[simp] theorem scoutfsReadLockedInode_ret (lookup : Except Int DiskInode) (inode : VfsInode) :
    (scoutfsReadLockedInode lookup inode).2 = 0 := by
  cases lookup <;> rfl

/-- An inode with every field zero, for `iget5_locked` to hand out in the runs below. -/
def blankInode : VfsInode := ⟨0, 0, 0, 0, 0, 0, ⟨0, 0⟩, ⟨0, 0⟩, ⟨0, 0⟩, 0⟩

/-- So a read of an item that fails with `-EIO` caches the inode as `iget5_locked`
allocated it, and the next change stores that over the item, whatever the item held. -/
example : (run ⟨fun _ => some ⟨0, 1, 0, 0, 0o100644, 0, ⟨0, 0⟩, ⟨0, 0⟩, ⟨0, 0⟩, 7⟩, fun _ => none⟩
    [.iget 1 false (some blankInode), .change 1 id]).map (·.items 1) = some (some (storeInode blankInode)) :=
  rfl

section Iget

variable {readOk : Bool} {s : Icache} {ino : Nat}

theorem scoutfsIget_of_hit {fresh : Option VfsInode} {i : VfsInode} (h : s.cache ino = some i) :
    scoutfsIget fresh readOk s ino = (s, .ok i) := by
  simp [scoutfsIget, h]

/-- On a miss, when `iget5_locked` cannot allocate, nothing changes and `-ENOMEM` is returned. -/
theorem scoutfsIget_of_nomem (h : s.cache ino = none) :
    scoutfsIget none readOk s ino = (s, .error (- ENOMEM)) := by
  simp [scoutfsIget, h]

/-- On a miss `scoutfs_iget` caches what `scoutfs_read_locked_inode` made of the fresh
inode, and returns no error once it is allocated. -/
theorem scoutfsIget_of_miss {fresh : VfsInode} (h : s.cache ino = none) :
    scoutfsIget (some fresh) readOk s ino =
      ({ s with cache := update s.cache ino (some (scoutfsReadLockedInode (lookupItem s ino readOk) fresh).1) },
        .ok (scoutfsReadLockedInode (lookupItem s ino readOk) fresh).1) := by
  simp [scoutfsIget, h]

end Iget

/-- The item reads succeed, and the VFS keeps `tv_nsec` in range. -/
def Op.Sound : Op → Prop
  | .iget _ readOk _ => readOk = true
  | .change _ f => ∀ i, Fits i → Fits (f i)
  | .evict _ => True

/-- A cached inode is what loading its item gives. -/
def Consistent (s : Icache) : Prop :=
  ∀ ino i c, s.cache ino = some i → s.items ino = some c → loadInode c = i

theorem Consistent.step {s s' : Icache} {op : Op} (hc : Consistent s) (hs : op.Sound)
    (h : step s op = some s') : Consistent s' := by
  intro ino i c hi hi'
  cases op with
  | iget j readOk fresh =>
    obtain rfl : readOk = true := hs
    simp only [InodeItem.step, Option.some.injEq] at h
    subst h
    cases hcj : s.cache j with
    | some i₀ => rw [scoutfsIget_of_hit hcj] at hi hi'; exact hc ino i c hi hi'
    | none =>
      cases fresh with
      | none => rw [scoutfsIget_of_nomem hcj] at hi hi'; exact hc ino i c hi hi'
      | some fresh =>
        rw [scoutfsIget_of_miss hcj] at hi hi'
        dsimp only at hi hi'
        by_cases hij : ino = j
        · subst hij
          rw [Function.update_same, Option.some.injEq] at hi
          subst hi
          simp [lookupItem, hi', scoutfsReadLockedInode]
        · rw [Function.update_noteq hij] at hi
          exact hc ino i c hi hi'
  | change j f =>
    simp only [InodeItem.step] at h
    split at h
    · rename_i i₀ c₀ hi₀ hc₀
      cases h
      by_cases hij : ino = j
      · subst hij
        simp only [scoutfsUpdateInodeItem, Function.update_same, Option.some.injEq] at hi hi'
        subst hi hi'
        exact loadInode_storeInode (hs i₀ (hc ino i₀ c₀ hi₀ hc₀ ▸ fits_loadInode c₀))
      · simp only [scoutfsUpdateInodeItem, Function.update_noteq hij] at hi hi'
        exact hc ino i c hi hi'
    · cases h
  | evict j =>
    cases h
    by_cases hij : ino = j
    · subst hij; simp at hi
    · dsimp only at hi hi'
      rw [Function.update_noteq hij] at hi
      exact hc ino i c hi hi'

theorem Consistent.run : ∀ {s s' : Icache} {ops : List Op}, Consistent s → (∀ op ∈ ops, op.Sound) →
    InodeItem.run s ops = some s' → Consistent s'
  | _, _, [], hc, _, h => by cases h; exact hc
  | s, s', op :: ops, hc, hs, h => by
    simp only [InodeItem.run, Option.bind_eq_some] at h
    obtain ⟨s₁, h₁, h₂⟩ := h
    exact Consistent.run (hc.step (hs op (List.mem_cons_self _ _)) h₁)
      (fun o ho => hs o (List.mem_cons_of_mem _ ho)) h₂

/-- **`scoutfs_iget` returns the inode as its item stores it.** Over every run whose item
reads succeed, from a cache that agrees with the items, an `scoutfs_iget` of an inode that
has an item, in which `iget5_locked` gets its inode, returns what `load_inode` makes of
that item, whether the inode was still cached or had been evicted and is read again. -/
theorem iget_returns_item {s₀ s : Icache} {ops : List Op} (h₀ : Consistent s₀) (hops : ∀ op ∈ ops, op.Sound)
    (hrun : run s₀ ops = some s) {ino : Nat} {c : DiskInode} (hc : s.items ino = some c) (fresh : VfsInode) :
    (scoutfsIget (some fresh) true s ino).2 = .ok (loadInode c) := by
  cases hi : s.cache ino with
  | some i => rw [scoutfsIget_of_hit hi, h₀.run hops hrun ino i c hi hc]
  | none => simp [scoutfsIget_of_miss hi, lookupItem, hc, scoutfsReadLockedInode]

/-- A regular file's item: mode `0100644`, one link, salt 7. -/
def fileItem : DiskInode := ⟨0, 1, 0, 0, 0o100644, 0, ⟨0, 0⟩, ⟨0, 0⟩, ⟨0, 0⟩, 7⟩

/-- A write that grows the file by a byte. -/
def grow (i : VfsInode) : VfsInode := { i with size := i.size + 1 }

/-- The file's item alone, nothing cached. -/
def fileOnly : Icache := ⟨fun n => if n = 1 then some fileItem else none, fun _ => none⟩

/-- The items after the file is read, grown and evicted. -/
def grownCache : Icache :=
  (run fileOnly [.iget 1 true (some blankInode), .change 1 grow, .evict 1]).getD fileOnly

theorem iget_returns_item_grown :
    (scoutfsIget (some blankInode) true grownCache 1).2 =
      .ok (loadInode (storeInode (grow (loadInode fileItem)))) :=
  iget_returns_item (by intro _ _ _ h; simp [fileOnly] at h) (by simp +contextual [Op.Sound, Fits, grow])
    (rfl : run fileOnly [.iget 1 true (some blankInode), .change 1 grow, .evict 1] = some grownCache)
    (rfl : grownCache.items 1 = some (storeInode (grow (loadInode fileItem)))) _

end Scoutfs.InodeItem
