import Mathlib.Data.List.Perm.Basic
import Scoutfs.Basic

/-!
# Directory entries

`dir.c` stores a directory's entries as dirent items keyed by the directory's
inode number and an offset. The offset of a name starts at
`name_hash(name) = max(2, min(crc32c(salt, name) & OFF_MASK, LAST_POS))` and
`scoutfs_mknod` probes the window `[h, last_dirent_key_offset(h)]`: the new
item goes one past the last item of the window, or at `h` when the window is
empty, and `-ENOSPC` when that passes the window. `scoutfs_lookup` searches the
same window for the name; `scoutfs_unlink`, which also serves `rmdir`, deletes
the item at the offset the dentry remembers.

This module is the faithful layer: the format constants and `crc32c` are
parameters, inode numbers come from `scoutfs_alloc_ino` (`inode.c`) as the code
allocates them, and each operation takes the step at which it fails, if any.
The VFS's own checks stand in `step` as its guards. `Scoutfs.Dir.Invariant`
proves what the directory keeps over every run.
-/

namespace Scoutfs.Dir

open Function (update)

/-- The format constants the directory code uses, from `format.h`, which is not
part of this model; the code relies on the three facts they carry. -/
structure Format where
  /-- `SCOUTFS_DIRENT_OFF_MASK` -/
  direntOffMask : Nat
  /-- `SCOUTFS_DIRENT_LAST_POS` -/
  direntLastPos : Nat
  /-- `SCOUTFS_DIRENT_COLL_NR` -/
  direntCollNr : Nat
  /-- `SCOUTFS_NAME_LEN` -/
  nameLen : Nat
  /-- `SCOUTFS_INO_BATCH` -/
  inoBatch : Nat
  two_le_lastPos : 2 ≤ direntLastPos
  inoBatch_pos : 0 < inoBatch
  inoBatch_le : inoBatch ≤ U64_MAX

/-- What `mode_to_type` keeps of an inode's mode. -/
inductive Kind where
  | fifo | chr | dir | blk | reg | lnk | sock
  deriving DecidableEq, Repr

/-- A dirent item's value: `struct scoutfs_dirent` and the name after it. -/
structure Dirent where
  ino : Nat
  type : Kind
  name : List UInt8
  deriving DecidableEq, Repr

/-- An inode as the directory code reads and writes it; `items` are the dirent
items of a directory, in offset order. -/
structure Inode where
  kind : Kind
  /-- `i_size` -/
  size : Nat
  nlink : Nat
  salt : Nat
  items : List (Nat × Dirent)
  deriving DecidableEq, Repr

/-- `sbi->next_ino`, `sbi->next_ino_count` and `super.next_ino`. -/
structure InoAlloc where
  next : Nat
  count : Nat
  superNext : Nat
  deriving DecidableEq, Repr

/-- The inodes of one mount and its inode number allocator. -/
structure Fs where
  inodes : Nat → Option Inode
  alloc : InoAlloc

variable (F : Format) (crc32c : Nat → List UInt8 → Nat)

/-! ## Offsets -/

/-- `name_hash`. -/
def nameHash (salt : Nat) (name : List UInt8) : Nat :=
  max 2 (min (crc32c salt name &&& F.direntOffMask) F.direntLastPos)

/-- `last_dirent_key_offset`. -/
def lastDirentKeyOffset (h : Nat) : Nat := min (h + F.direntCollNr - 1) F.direntLastPos

theorem nameHash_mem (salt : Nat) (name : List UInt8) :
    2 ≤ nameHash F crc32c salt name ∧ nameHash F crc32c salt name ≤ F.direntLastPos := by
  have := F.two_le_lastPos
  unfold nameHash
  omega

theorem lastDirentKeyOffset_le (h : Nat) : lastDirentKeyOffset F h ≤ F.direntLastPos :=
  min_le_right _ _

/-- The items whose offsets lie in `[first, last]`, what `scoutfs_btree_next`
walks between those keys. -/
def window (items : List (Nat × Dirent)) (first last : Nat) : List (Nat × Dirent) :=
  items.filter fun p => first ≤ p.1 ∧ p.1 ≤ last

/-- The probe loop of `scoutfs_mknod`: `key = first`, then `key` one past each
item found. -/
def probe (items : List (Nat × Dirent)) (first last : Nat) : Nat :=
  (window items first last).foldl (fun _ p => p.1 + 1) first

/-- `scoutfs_btree_insert` of a dirent item, in offset order. -/
def insertItem (k : Nat) (d : Dirent) : List (Nat × Dirent) → List (Nat × Dirent)
  | [] => [(k, d)]
  | p :: ps => if k < p.1 then (k, d) :: p :: ps else p :: insertItem k d ps

/-- `scoutfs_btree_delete` of the item at offset `k`. -/
def btreeDelete (k : Nat) (items : List (Nat × Dirent)) : List (Nat × Dirent) :=
  items.filter fun p => p.1 ≠ k

/-! ## Inode numbers -/

/-- `get_next_ino_batch`: under the write lock (`lock` is whether it was
granted), take `INO_BATCH` numbers from the super block unless that wraps. -/
def getNextInoBatch (lock : Bool) (a : InoAlloc) : InoAlloc × Int :=
  if lock then
    if a.count = 0 then
      let a := { a with next := a.superNext }
      if le64AddCpu a.next F.inoBatch < a.next then (a, - ENOSPC)
      else ({ a with superNext := le64AddCpu a.superNext F.inoBatch, count := F.inoBatch }, 0)
    else (a, 0)
  else (a, - EIO)

/-- `scoutfs_alloc_ino`, one pass of its loop; a second pass happens only when
another task takes the batch in between, which a single mount's model does not do. -/
def allocIno (lock : Bool) (a : InoAlloc) : InoAlloc × Except Int Nat :=
  let r := if a.count = 0 then getNextInoBatch F lock a else (a, 0)
  if r.2 ≠ 0 then (r.1, .error r.2)
  else if r.1.count ≠ 0 then ({ r.1 with next := r.1.next + 1, count := r.1.count - 1 }, .ok r.1.next)
  else (r.1, .error (- EAGAIN))

/-! ## The operations -/

/-- The call at which a `scoutfs_mknod` fails. -/
inductive MknodStep where
  | dentryInfo | allocIno | wrlock | dirtyDir | newInode | btreeNext | btreeInsert
  deriving DecidableEq, Repr

/-- The call at which a `scoutfs_unlink` fails. -/
inductive UnlinkStep where
  | wrlock | dirtyDir | dirtyInode | btreeDelete
  deriving DecidableEq, Repr

/-- `scoutfs_lookup` in directory `d`: the inode number of the entry, `none` for a
negative dentry. `dentryInfo` is whether `alloc_dentry_info` finds memory, `walk`
whether the btree walk succeeds. -/
def scoutfsLookup (d : Inode) (name : List UInt8) (dentryInfo walk : Bool) :
    Except Int (Option Nat) :=
  if ¬dentryInfo then .error (- ENOMEM)
  else if name.length > F.nameLen then .error (- ENAMETOOLONG)
  else if ¬walk then .error (- EIO)
  else
    let h := nameHash F crc32c d.salt name
    match (window d.items h (lastDirentKeyOffset F h)).find? (fun p => p.2.name = name) with
    | some p => if p.2.ino = 0 then .ok none else .ok (some p.2.ino)
    | none => .ok none

/-- The directory after its new entry: the item, `i_size`, and a link for a subdirectory. -/
def addEntry (d : Inode) (key : Nat) (e : Dirent) : Inode :=
  { d with items := insertItem key e d.items, size := d.size + e.name.length,
           nlink := if e.type = .dir then d.nlink + 1 else d.nlink }

/-- The inode `scoutfs_new_inode` makes, as it stands once linked. -/
def newInode (kind : Kind) (salt : Nat) : Inode :=
  { kind := kind, size := 0, nlink := if kind = .dir then 2 else 1, salt := salt, items := [] }

/-- `scoutfs_mknod` (and `create`, `mkdir`) of `name` in directory `dir`, with a new
inode of kind `kind` whose salt is `salt`, failing at `fail`. -/
def scoutfsMknod (s : Fs) (dir : Nat) (name : List UInt8) (kind : Kind) (salt : Nat)
    (fail : Option MknodStep) : Fs × Int :=
  if fail = some .dentryInfo then (s, - ENOMEM)
  else if name.length > F.nameLen then (s, - ENAMETOOLONG)
  else match allocIno F (fail ≠ some .allocIno) s.alloc with
  | (a, .error e) => ({ s with alloc := a }, e)
  | (a, .ok ino) =>
    let s := { s with alloc := a }
    if fail = some .wrlock ∨ fail = some .dirtyDir then (s, - EIO)
    else if fail = some .newInode then (s, - ENOMEM)
    else match s.inodes dir with
    | none => (s, - ENOENT)
    | some d =>
      let h := nameHash F crc32c d.salt name
      let last := lastDirentKeyOffset F h
      if fail = some .btreeNext then (s, - EIO)
      else
        let key := probe d.items h last
        if key > last then (s, - ENOSPC)
        else if fail = some .btreeInsert then (s, - EIO)
        else if d.items.any (·.1 = key) then (s, - EEXIST)
        else
          let e : Dirent := { ino := ino, type := kind, name := name }
          ({ s with inodes := update (update s.inodes dir (some (addEntry d key e))) ino
                                (some (newInode kind salt)) }, 0)

/-- The directory after its entry at `off` is deleted. -/
def removeEntry (d : Inode) (off : Nat) (e : Dirent) (isDir : Bool) : Inode :=
  { d with items := btreeDelete off d.items, size := d.size - e.name.length,
           nlink := if isDir then d.nlink - 1 else d.nlink }

/-- The unlinked inode: `drop_nlink`, twice for a directory. -/
def dropLinks (t : Inode) : Inode :=
  { t with nlink := if t.kind = .dir then t.nlink - 1 - 1 else t.nlink - 1 }

/-- `scoutfs_unlink` (and `rmdir`) of the entry `e` at offset `off` of directory
`dir`, failing at `fail`. -/
def scoutfsUnlink (s : Fs) (dir off : Nat) (e : Dirent) (fail : Option UnlinkStep) : Fs × Int :=
  match s.inodes dir, s.inodes e.ino with
  | some d, some t =>
    if t.kind = .dir ∧ t.size ≠ 0 then (s, - ENOTEMPTY)
    else if fail.isSome then (s, - EIO)
    else ({ s with inodes := update (update s.inodes dir (some (removeEntry d off e (t.kind = .dir))))
                                e.ino (some (dropLinks t)) }, 0)
  | _, _ => (s, - ENOENT)

/-- The entry of `name` in a directory, as the dentry cache knows it. -/
def entryOf (d : Inode) (name : List UInt8) : Option (Nat × Dirent) :=
  d.items.find? fun p => p.2.name = name

/-- A system call on the directory tree. -/
inductive Op where
  | mknod (dir : Nat) (name : List UInt8) (kind : Kind) (salt : Nat) (fail : Option MknodStep)
  | unlink (dir : Nat) (name : List UInt8) (fail : Option UnlinkStep)
  deriving DecidableEq, Repr

/-- One call, if the VFS makes it: `mknod` in a live directory of a non-empty name
it does not hold, `unlink` and `rmdir` of a name it holds. -/
def step (s : Fs) : Op → Option Fs
  | .mknod dir name kind salt fail =>
    match s.inodes dir with
    | some d =>
      if d.kind = .dir ∧ d.nlink ≠ 0 ∧ name ≠ [] ∧ entryOf d name = none then
        some (scoutfsMknod F crc32c s dir name kind salt fail).1
      else none
    | none => none
  | .unlink dir name fail =>
    match s.inodes dir with
    | some d =>
      match entryOf d name with
      | some (off, e) => some (scoutfsUnlink s dir off e fail).1
      | none => none
    | none => none

/-- The states a mount started from `s₀` reaches. -/
inductive Reachable (s₀ : Fs) : Fs → Prop
  | init : Reachable s₀ s₀
  | step {s s' : Fs} (op : Op) : Reachable s₀ s → step F crc32c s op = some s' → Reachable s₀ s'

end Scoutfs.Dir
