import Mathlib.Data.Finset.Card
import Scoutfs.Server.Commit

/-!
# The server's allocator pools

Every free block of the volume sits in one allocator: the two persistent banks of
server lists (`server_meta_avail[0/1]`, `server_meta_freed[0/1]`, the active one held
in `server->alloc`), the two metadata roots `meta_alloc[0/1]` that `server->meta_avail`
and `server->meta_freed` point to, `data_alloc`, the four allocators of each mount's
`log_trees` item and the two of each busy srch compaction. Each is a set of block
numbers here.

The calls of `alloc.c` that move blocks (`scoutfs_alloc_splice_list`,
`scoutfs_alloc_move`, `scoutfs_alloc_fill_list`, `scoutfs_alloc_empty_list`) are
transfers between two pools that complete, or fail after moving a part of what they
were asked to move. Which blocks a fill or a refill takes, and which call fails, are
inputs (`Calls`); every other call of a handler that can fail is a site that may fail
too. The handler bodies run between `scoutfs_server_hold_commit` and
`scoutfs_server_apply_commit` of the commit protocol of `Scoutfs.Commit`, and the
commit steps are `scoutfs_server_commit_func`. A server starts from the super block
on disk (`startup`), the first one from a freshly made volume (`mkfs`), and each
later one from the super block the last one wrote (`Started`).

Mounts are trusted here: a `COMMIT_LOG_TREES` or
`SRCH_COMMIT_COMPACT` hands back only blocks of what the last successful
`GET_LOG_TREES` or `SRCH_GET_COMPACT` gave that rid.
-/

namespace Scoutfs.Pools

open Function (update)
open Commit

/-- The four allocators of a mount's `struct scoutfs_log_trees`. -/
structure LogTrees where
  metaAvail : Finset Nat
  metaFreed : Finset Nat
  dataAvail : Finset Nat
  dataFreed : Finset Nat
  deriving DecidableEq

/-- A `log_trees` item with no blocks, as `memset(&lt, 0, sizeof(lt))` leaves it. -/
def LogTrees.empty : LogTrees := ⟨∅, ∅, ∅, ∅⟩

/-- The two allocators of a `struct scoutfs_srch_compact`. -/
structure SrchCompact where
  metaAvail : Finset Nat
  metaFreed : Finset Nat
  deriving DecidableEq

/-- The allocators of `struct scoutfs_super_block`, with the `log_trees` items and busy
srch compactions by the rid that owns them. Entry 0 of an array is index `false`. -/
structure Super where
  serverMetaAvail : Bool → Finset Nat
  serverMetaFreed : Bool → Finset Nat
  metaAlloc : Bool → Finset Nat
  dataAlloc : Finset Nat
  logTrees : Nat → Option LogTrees
  srch : Nat → Option SrchCompact
  /-- `volopt` has `SCOUTFS_VOLOPT_DATA_ALLOC_ZONE_BLOCKS` set -/
  zoned : Bool

/-- The bounds of `format.h` that `server.c` compares pool sizes with. -/
structure Limits where
  /-- `SCOUTFS_SERVER_DATA_FILL_LO` -/
  serverDataFillLo : Nat
  /-- `SCOUTFS_SERVER_META_ALLOC_MIN` -/
  serverMetaAllocMin : Nat

/-- A request served while holding the commit. -/
inductive Request where
  | getLogTrees (rid : Nat)
  | commitLogTrees (rid : Nat) (lt : LogTrees)
  | srchGetCompact (rid : Nat)
  | srchCommitCompact (rid : Nat) (sc : SrchCompact)
  /-- `reclaim_rid`, from the farewell worker or the fencing reclaim work -/
  | reclaimRid (rid : Nat)
  deriving DecidableEq

/-- The calls of the handlers and of `scoutfs_server_commit_func` that can fail. -/
inductive Site where
  | btreePrev | zoneBits | spliceMetaFreed | moveDataFreed | fillMetaAvail | refillDataAvail
  | extentsCb | btreeForce
  | btreeLookup | srchRotateLog | btreeUpdate
  | srchGetCompact | srchNone | fillSrchAvail | spliceSrchFreed | srchUpdateCompact
  | srchCommitCompact | spliceAvail | spliceFreed
  | lockServerFarewell | removeTransSeq | btreeNext | spliceMetaAvail | moveDataAvail
  | srchCancelCompact | omapRemoveRid | quorumClearRidLeader | deleteMountedClient
  | forcingUnmount | fillOtherAvail | emptyOtherFreed | prepareCommit | writerWrite | writeSuper
  deriving DecidableEq, Repr

/-- How the calls of one handler body or one commit go: the blocks its metadata fill
and its data refill take, and the first call that fails, with the part of its transfer
it made. -/
structure Calls where
  metaPick : Finset Nat
  dataPick : Finset Nat
  fail : Option (Site × Finset Nat)

/-- The call at `site` fails. -/
def Calls.fails (c : Calls) (site : Site) : Bool := (c.fail.map Prod.fst) = some site

/-- The blocks a transfer at `site` that is asked to move `want` out of `src` moves:
all of them, or the part it moved before it failed. -/
def Calls.moved (c : Calls) (site : Site) (want src : Finset Nat) : Finset Nat :=
  match c.fail with
  | some (x, part) => if x = site then part ∩ want ∩ src else want ∩ src
  | none => want ∩ src

theorem Calls.moved_of_not_fails {c : Calls} {site : Site} (h : c.fails site = false) (want src : Finset Nat) :
    c.moved site want src = want ∩ src := by
  unfold Calls.moved
  split
  · rename_i x part hc
    simp only [Calls.fails, hc, Option.map_some', Option.some.injEq, decide_eq_false_iff_not] at h
    simp [h]
  · rfl

theorem Calls.moved_subset (c : Calls) (site : Site) (want src : Finset Nat) :
    c.moved site want src ⊆ src := by
  unfold Calls.moved
  split
  · split
    · exact fun b hb => (Finset.mem_inter.mp hb).2
    · exact Finset.inter_subset_right
  · exact Finset.inter_subset_right

/-- The server's in-memory state. -/
structure State where
  /-- `SCOUTFS_SB(sb)->super`, which every commit writes -/
  super : Super
  /-- the super block last written -/
  disk : Super
  /-- `server->alloc`, the heads of the active bank -/
  allocAvail : Finset Nat
  allocFreed : Finset Nat
  otherInd : Bool
  /-- `server->meta_avail` is `&super->meta_alloc[metaInd]`, `server->meta_freed` the other -/
  metaInd : Bool
  /-- `server->volopt` has `SCOUTFS_VOLOPT_DATA_ALLOC_ZONE_BLOCKS` set -/
  zoned : Bool
  /-- each handler's request, and its `ret` once its body ran -/
  req : Nat → Option Request
  ret : Nat → Option Int
  /-- the roots each handler replies with -/
  lt : Nat → LogTrees
  sc : Nat → SrchCompact
  /-- what the last successful `GET_LOG_TREES` and `SRCH_GET_COMPACT` gave each rid -/
  given : Nat → Option LogTrees
  givenSrch : Nat → Option SrchCompact

namespace State

variable (s : State)

/-- `server->other_avail` -/
def otherAvail : Finset Nat := s.super.serverMetaAvail s.otherInd
/-- `server->other_freed` -/
def otherFreed : Finset Nat := s.super.serverMetaFreed s.otherInd
/-- `*server->meta_avail` -/
def metaAvail : Finset Nat := s.super.metaAlloc s.metaInd
/-- `*server->meta_freed` -/
def metaFreed : Finset Nat := s.super.metaAlloc (!s.metaInd)

/-- `other_freed` with `m` added. -/
def addOtherFreed (m : Finset Nat) : State :=
  { s with super := { s.super with
      serverMetaFreed := update s.super.serverMetaFreed s.otherInd (s.otherFreed ∪ m) } }

/-- `other_freed` with `m` taken out. -/
def takeOtherFreed (m : Finset Nat) : State :=
  { s with super := { s.super with
      serverMetaFreed := update s.super.serverMetaFreed s.otherInd (s.otherFreed \ m) } }

/-- `other_avail` with `m` added. -/
def addOtherAvail (m : Finset Nat) : State :=
  { s with super := { s.super with
      serverMetaAvail := update s.super.serverMetaAvail s.otherInd (s.otherAvail ∪ m) } }

/-- `*server->meta_avail` with `m` taken out. -/
def takeMetaAvail (m : Finset Nat) : State :=
  { s with super := { s.super with
      metaAlloc := update s.super.metaAlloc s.metaInd (s.metaAvail \ m) } }

/-- `*server->meta_freed` with `m` added. -/
def addMetaFreed (m : Finset Nat) : State :=
  { s with super := { s.super with
      metaAlloc := update s.super.metaAlloc (!s.metaInd) (s.metaFreed ∪ m) } }

/-- `data_alloc` with `m` added. -/
def addDataAlloc (m : Finset Nat) : State :=
  { s with super := { s.super with dataAlloc := s.super.dataAlloc ∪ m } }

/-- `data_alloc` with `m` taken out. -/
def takeDataAlloc (m : Finset Nat) : State :=
  { s with super := { s.super with dataAlloc := s.super.dataAlloc \ m } }

/-- The `log_trees` item of `rid` set to `lt`. -/
def setLogTrees (rid : Nat) (lt : LogTrees) : State :=
  { s with super := { s.super with logTrees := update s.super.logTrees rid (some lt) } }

@[simp] theorem setLogTrees_logTrees (rid : Nat) (lt : LogTrees) :
    (s.setLogTrees rid lt).super.logTrees rid = some lt := by
  simp [setLogTrees]

/-! What the handlers' moves leave of `other_freed` and of the `log_trees` items. -/

variable (m : Finset Nat)

@[simp] theorem addOtherFreed_otherFreed : (s.addOtherFreed m).otherFreed = s.otherFreed ∪ m := by
  simp [addOtherFreed, otherFreed]

@[simp] theorem addOtherFreed_logTrees : (s.addOtherFreed m).super.logTrees = s.super.logTrees := rfl
@[simp] theorem addDataAlloc_otherFreed : (s.addDataAlloc m).otherFreed = s.otherFreed := rfl
@[simp] theorem addDataAlloc_logTrees : (s.addDataAlloc m).super.logTrees = s.super.logTrees := rfl
@[simp] theorem takeDataAlloc_otherFreed : (s.takeDataAlloc m).otherFreed = s.otherFreed := rfl
@[simp] theorem takeDataAlloc_logTrees : (s.takeDataAlloc m).super.logTrees = s.super.logTrees := rfl
@[simp] theorem takeMetaAvail_otherFreed : (s.takeMetaAvail m).otherFreed = s.otherFreed := rfl
@[simp] theorem takeMetaAvail_logTrees : (s.takeMetaAvail m).super.logTrees = s.super.logTrees := rfl

@[simp] theorem setLogTrees_otherFreed (rid : Nat) (lt : LogTrees) :
    (s.setLogTrees rid lt).otherFreed = s.otherFreed := rfl

/-- The busy srch compaction of `rid` set to `sc`, or deleted. -/
def setSrch (rid : Nat) (sc : Option SrchCompact) : State :=
  { s with super := { s.super with srch := update s.super.srch rid sc } }

end State

variable (L : Limits)

/-! ## The handlers -/

/-- The body of `server_get_log_trees` for `rid`: the mount's current roots, its freed
blocks returned to the server, its allocators refilled, and the item written back;
with the roots it replies with. Every failure jumps to `unlock`, past the write. -/
def serverGetLogTrees (rid : Nat) (c : Calls) (s : State) : State × LogTrees × Int :=
  if c.fails .btreePrev then (s, .empty, - EIO) else
  let lt := (s.super.logTrees rid).getD .empty
  if s.zoned ∧ c.fails .zoneBits then (s, lt, - EIO) else
  -- scoutfs_alloc_splice_list(other_freed, &lt.meta_freed)
  let m := c.moved .spliceMetaFreed lt.metaFreed lt.metaFreed
  let s := s.addOtherFreed m
  let lt := { lt with metaFreed := lt.metaFreed \ m }
  if c.fails .spliceMetaFreed then (s, lt, - EIO) else
  -- alloc_move_empty(&super->data_alloc, &lt.data_freed)
  let m := c.moved .moveDataFreed lt.dataFreed lt.dataFreed
  let s := s.addDataAlloc m
  let lt := { lt with dataFreed := lt.dataFreed \ m }
  if c.fails .moveDataFreed then (s, lt, - EIO) else
  -- scoutfs_alloc_fill_list(&lt.meta_avail, server->meta_avail)
  let m := c.moved .fillMetaAvail c.metaPick s.metaAvail
  let s := s.takeMetaAvail m
  let lt := { lt with metaAvail := lt.metaAvail ∪ m }
  if c.fails .fillMetaAvail then (s, lt, - EIO) else
  -- alloc_move_refill_zoned(&lt.data_avail, &super->data_alloc), which returns at the low mark
  let refill := !decide (lt.dataAvail.card ≥ L.serverDataFillLo)
  let m := if refill then c.moved .refillDataAvail c.dataPick s.super.dataAlloc else ∅
  let s := s.takeDataAlloc m
  let lt := { lt with dataAvail := lt.dataAvail ∪ m }
  if refill ∧ c.fails .refillDataAvail then (s, lt, - EIO) else
  if s.zoned ∧ c.fails .extentsCb then (s, lt, - EIO) else
  if c.fails .btreeForce then (s, lt, - EIO) else
  (s.setLogTrees rid lt, lt, 0)

/-- The body of `server_commit_log_trees`: the mount's item replaced by the roots it sent. -/
def serverCommitLogTrees (rid : Nat) (lt : LogTrees) (c : Calls) (s : State) : State × Int :=
  match s.super.logTrees rid with
  | none => (s, - ENOENT)
  | some _ =>
    if c.fails .btreeLookup then (s, - EIO)
    else if c.fails .srchRotateLog then (s, - EIO)
    else if c.fails .btreeUpdate then (s, - EIO)
    else (s.setLogTrees rid lt, 0)

/-- The body of `server_srch_get_compact`: a compaction for `rid` with its metadata
allocator filled, recorded as busy; with the compaction it replies with. A compaction
starts with empty allocators. -/
def serverSrchGetCompact (rid : Nat) (c : Calls) (s : State) : State × SrchCompact × Int :=
  let sc : SrchCompact := ⟨∅, ∅⟩
  if c.fails .srchGetCompact then (s, sc, - EIO)
  else if c.fails .srchNone then (s, sc, - ENOENT)
  else
    -- scoutfs_alloc_fill_list(&sc->meta_avail, server->meta_avail)
    let m := c.moved .fillSrchAvail c.metaPick s.metaAvail
    let s := s.takeMetaAvail m
    let sc := { sc with metaAvail := sc.metaAvail ∪ m }
    if c.fails .fillSrchAvail then (s, sc, - EIO) else
    -- scoutfs_alloc_splice_list(other_freed, &sc->meta_freed)
    let m := c.moved .spliceSrchFreed sc.metaFreed sc.metaFreed
    let s := s.addOtherFreed m
    let sc := { sc with metaFreed := sc.metaFreed \ m }
    if c.fails .spliceSrchFreed then (s, sc, - EIO)
    else if c.fails .srchUpdateCompact then (s, sc, - EIO)
    else (s.setSrch rid (some sc), sc, 0)

/-- The two splices into `other_freed` of a finished or cancelled compaction's `av` and
`fr`, stopping at the first failure. -/
def spliceCompact (av fr : Finset Nat) (c : Calls) (s : State) : State × Int :=
  let m := c.moved .spliceAvail av av
  let s := s.addOtherFreed m
  if c.fails .spliceAvail then (s, - EIO) else
  let m := c.moved .spliceFreed fr fr
  let s := s.addOtherFreed m
  if c.fails .spliceFreed then (s, - EIO) else (s, 0)

/-- The body of `server_srch_commit_compact`: the busy compaction of `rid` committed with
the allocators the mount sent, which go back to `other_freed`. -/
def serverSrchCommitCompact (rid : Nat) (sc : SrchCompact) (c : Calls) (s : State) :
    State × Int :=
  match s.super.srch rid with
  | none => (s, - ENOENT)
  | some _ =>
    if c.fails .srchCommitCompact then (s, - EIO)
    else spliceCompact sc.metaAvail sc.metaFreed c (s.setSrch rid none)

/-- `reclaim_log_trees`: every allocator of the item returned to the server, and the
item written back whatever happened, as the `BUG_ON` insists. -/
def reclaimLogTrees (rid : Nat) (c : Calls) (s : State) : State × Int :=
  if c.fails .btreeNext then (s, - EIO) else
  match s.super.logTrees rid with
  | none => (s, 0)
  | some lt =>
    -- scoutfs_alloc_splice_list(other_freed, &lt.meta_freed)
    let m := c.moved .spliceMetaFreed lt.metaFreed lt.metaFreed
    let s := s.addOtherFreed m
    let lt := { lt with metaFreed := lt.metaFreed \ m }
    if c.fails .spliceMetaFreed then (s.setLogTrees rid lt, - EIO) else
    -- scoutfs_alloc_splice_list(other_freed, &lt.meta_avail)
    let m := c.moved .spliceMetaAvail lt.metaAvail lt.metaAvail
    let s := s.addOtherFreed m
    let lt := { lt with metaAvail := lt.metaAvail \ m }
    if c.fails .spliceMetaAvail then (s.setLogTrees rid lt, - EIO) else
    -- alloc_move_empty(&super->data_alloc, &lt.data_avail)
    let m := c.moved .moveDataAvail lt.dataAvail lt.dataAvail
    let s := s.addDataAlloc m
    let lt := { lt with dataAvail := lt.dataAvail \ m }
    if c.fails .moveDataAvail then (s.setLogTrees rid lt, - EIO) else
    -- alloc_move_empty(&super->data_alloc, &lt.data_freed)
    let m := c.moved .moveDataFreed lt.dataFreed lt.dataFreed
    let s := s.addDataAlloc m
    let lt := { lt with dataFreed := lt.dataFreed \ m }
    if c.fails .moveDataFreed then (s.setLogTrees rid lt, - EIO) else
    (s.setLogTrees rid lt, 0)

/-- `cancel_srch_compact`: the busy compaction of `rid`, if any, cancelled and its
allocators returned to `other_freed`. -/
def cancelSrchCompact (rid : Nat) (c : Calls) (s : State) : State × Int :=
  match s.super.srch rid with
  | none => (s, 0)
  | some sc =>
    if c.fails .srchCancelCompact then (s, - EIO)
    else spliceCompact sc.metaAvail sc.metaFreed c (s.setSrch rid none)

/-- `reclaim_rid`: the steps of its `?:` chain that touch allocators, between the ones
that can only fail. -/
def reclaimRid (rid : Nat) (c : Calls) (s : State) : State × Int :=
  if c.fails .lockServerFarewell ∨ c.fails .removeTransSeq then (s, - EIO) else
  match reclaimLogTrees rid c s with
  | (s, 0) =>
    match cancelSrchCompact rid c s with
    | (s, 0) =>
      if c.fails .omapRemoveRid ∨ c.fails .deleteMountedClient then (s, - EIO) else (s, 0)
    | r => r
  | r => r

/-! ## The commit -/

/-- `scoutfs_server_commit_func` up to `set_roots`: refill `other_avail`, empty
`other_freed` into `*meta_freed`, write the active bank and the super block, then flip
the banks and swap `meta_avail` and `meta_freed` when the first runs low. -/
def serverCommitFunc (c : Calls) (s : State) : State × Int :=
  if c.fails .forcingUnmount then (s, - EIO) else
  -- scoutfs_alloc_fill_list(server->other_avail, server->meta_avail)
  let m := c.moved .fillOtherAvail c.metaPick s.metaAvail
  let s := (s.takeMetaAvail m).addOtherAvail m
  if c.fails .fillOtherAvail then (s, - EIO) else
  -- scoutfs_alloc_empty_list(server->meta_freed, server->other_freed)
  let m := c.moved .emptyOtherFreed s.otherFreed s.otherFreed
  let s := (s.takeOtherFreed m).addMetaFreed m
  if c.fails .emptyOtherFreed then (s, - EIO) else
  if c.fails .prepareCommit ∨ c.fails .writerWrite then (s, - EIO) else
  let s := { s with super := { s.super with
    serverMetaAvail := update s.super.serverMetaAvail (!s.otherInd) s.allocAvail,
    serverMetaFreed := update s.super.serverMetaFreed (!s.otherInd) s.allocFreed } }
  if c.fails .writeSuper then (s, - EIO) else
  let s := { s with disk := s.super }
  let o := !s.otherInd
  let s := { s with otherInd := o, allocAvail := s.super.serverMetaAvail (!o),
                    allocFreed := s.super.serverMetaFreed (!o) }
  if s.metaAvail.card ≤ L.serverMetaAllocMin ∧ s.metaFreed.card > L.serverMetaAllocMin then
    ({ s with metaInd := !s.metaInd }, 0)
  else (s, 0)

/-- The bounds decide only whether a commit swaps `meta_avail` and `meta_freed`, which it
does after writing: the super block written, and the roots given out, are the same under
all bounds. -/
theorem serverCommitFunc_written (L' : Limits) (c : Calls) (s : State) :
    (serverCommitFunc L c s).1.disk = (serverCommitFunc L' c s).1.disk ∧
      (serverCommitFunc L c s).1.given = (serverCommitFunc L' c s).1.given ∧
      (serverCommitFunc L c s).1.givenSrch = (serverCommitFunc L' c s).1.givenSrch := by
  dsimp only [serverCommitFunc]
  simp only [apply_ite Prod.fst, apply_ite State.disk, apply_ite State.given, apply_ite State.givenSrch,
    ite_self, and_self]

/-! ## Requests through the commit protocol -/

/-- The blocks a mount hands back lie in what it was given, and no block twice. -/
def Returns (g lt : LogTrees) : Prop :=
  lt.metaAvail ∪ lt.metaFreed ⊆ g.metaAvail ∪ g.metaFreed ∧ Disjoint lt.metaAvail lt.metaFreed ∧
    lt.dataAvail ∪ lt.dataFreed ⊆ g.dataAvail ∪ g.dataFreed ∧ Disjoint lt.dataAvail lt.dataFreed

instance (g lt : LogTrees) : Decidable (Returns g lt) := inferInstanceAs (Decidable (_ ∧ _))

/-- A compaction hands back only blocks of what it was given, and no block twice. -/
def ReturnsSrch (g sc : SrchCompact) : Prop :=
  sc.metaAvail ∪ sc.metaFreed ⊆ g.metaAvail ∪ g.metaFreed ∧ Disjoint sc.metaAvail sc.metaFreed

instance (g sc : SrchCompact) : Decidable (ReturnsSrch g sc) :=
  inferInstanceAs (Decidable (_ ∧ _))

/-- A request the mount may send: anything but roots it was not given. -/
def Request.allowed (s : State) : Request → Bool
  | .commitLogTrees rid lt => (s.given rid).any fun g => decide (Returns g lt)
  | .srchCommitCompact rid sc => (s.givenSrch rid).any fun g => decide (ReturnsSrch g sc)
  | _ => true

/-- The body a handler runs for its request, with the `ret` it hands to
`scoutfs_server_apply_commit`. -/
def body (h : Nat) (c : Calls) (s : State) : Request → State
  | .getLogTrees rid =>
    let (s', lt, r) := serverGetLogTrees L rid c s
    { s' with ret := update s'.ret h (some r), lt := update s'.lt h lt }
  | .commitLogTrees rid lt =>
    let (s', r) := serverCommitLogTrees rid lt c s
    { s' with ret := update s'.ret h (some r) }
  | .srchGetCompact rid =>
    let (s', sc, r) := serverSrchGetCompact rid c s
    { s' with ret := update s'.ret h (some r), sc := update s'.sc h sc }
  | .srchCommitCompact rid sc =>
    let (s', r) := serverSrchCommitCompact rid sc c s
    { s' with ret := update s'.ret h (some r) }
  | .reclaimRid rid =>
    let (s', r) := reclaimRid rid c s
    { s' with ret := update s'.ret h (some r) }

/-- After `scoutfs_server_apply_commit` returned `r`: a successful reply gives the mount
its roots. -/
def reply (h : Nat) (r : Int) (s : State) : State :=
  let s' := { s with req := update s.req h none, ret := update s.ret h none }
  match s.req h with
  | some (.getLogTrees rid) =>
    if r = 0 then { s' with given := update s.given rid (some (s.lt h)) } else s'
  | some (.srchGetCompact rid) =>
    if r = 0 then { s' with givenSrch := update s.givenSrch rid (some (s.sc h)) } else s'
  | _ => s'

/-- The server's request handlers and commit for the commit protocol. A handler runs its
body once per request. -/
def handlers : Handlers State Request Calls Calls Unit where
  hold h q s :=
    if q.allowed s ∧ s.req h = none then
      some { s with req := update s.req h (some q), ret := update s.ret h none }
    else none
  act h c s :=
    match s.req h, s.ret h with
    | some q, none => some (body L h c s q)
    | _, _ => none
  err h s := (s.ret h).getD 0
  finish h r s := (reply h r s, ())
  commit c s := serverCommitFunc L c s

/-! ## Servers over time -/

/-- A freshly made volume: its metadata blocks free in `meta_alloc[0]`, its data blocks
in `data_alloc`, no mount and no compaction. -/
def mkfs (meta data : Finset Nat) : Super where
  serverMetaAvail _ := ∅
  serverMetaFreed _ := ∅
  metaAlloc i := if i then ∅ else meta
  dataAlloc := data
  logTrees _ := none
  srch _ := none
  zoned := false

/-- The server `scoutfs_server_worker` sets up from the super block `d`: the active bank
is the one with more blocks in `server_meta_avail`, and `meta_avail` the larger
`meta_alloc`. The mounts keep what they were given. -/
def startup (d : Super) (given : Nat → Option LogTrees) (givenSrch : Nat → Option SrchCompact) :
    State :=
  let o := if (d.serverMetaAvail false).card < (d.serverMetaAvail true).card then false else true
  { super := d
    disk := d
    allocAvail := d.serverMetaAvail (!o)
    allocFreed := d.serverMetaFreed (!o)
    otherInd := o
    metaInd := decide ((d.metaAlloc true).card > (d.metaAlloc false).card)
    zoned := d.zoned
    req := fun _ => none
    ret := fun _ => none
    lt := fun _ => .empty
    sc := fun _ => ⟨∅, ∅⟩
    given := given
    givenSrch := givenSrch }

/-- The states a server starts from: the first server of a freshly made volume, and each
later one from the super block its predecessor last wrote. -/
inductive Started : State → Prop
  | mkfs (meta data : Finset Nat) : Started (startup (mkfs meta data) (fun _ => none) (fun _ => none))
  | restart {m₀ : State} {s : Server State Unit} :
      Started m₀ → Reachable (handlers L) m₀ s →
        Started (startup s.mem.disk s.mem.given s.mem.givenSrch)

end Scoutfs.Pools
