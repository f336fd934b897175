import Scoutfs.Server.Commit

/-!
# Volume options

`server_set_volopt` and `server_clear_volopt` as handlers of the commit
protocol, next to any other handler that holds the commit. Under
`volopt_mutex` and holding the commit, a handler changes `super->volopt`; once
`scoutfs_server_apply_commit` returns it either publishes the super block's
options to `server->volopt` (the commit succeeded) or copies `server->volopt`
back over `super->volopt` (it failed). `GET_VOLOPT` and `get_volopt_val` read
`server->volopt`.

The restore comes too late. Between the failed commit completing the handler and
the handler taking the seqcount, the commit is free: another handler can hold
it, queue a new run, and that run writes the super block with the change whose
request is about to be told it failed. `failed_clear_written` replays such a
schedule: a `CLEAR_VOLOPT` whose commit fails with `-EIO`, and an unrelated
handler whose commit then writes the cleared options.

The handlers' requests are a parameter `req`: handler `h` serves `req h` each
time it runs. The checks' bounds, defined in headers outside this model, are the
parameter `L`.
-/

namespace Scoutfs.Volopt

open Commit

/-- `struct scoutfs_volume_options`: the `set_bits` mask and the only value with a
meaning, `data_alloc_zone_blocks`. -/
structure VolumeOptions where
  setBits : UInt64
  dataAllocZoneBlocks : Nat
  deriving DecidableEq, Repr

/-- `SCOUTFS_VOLOPT_DATA_ALLOC_ZONE_BLOCKS_BIT`. Modelled from the spec: bit 0. -/
def VOLOPT_DATA_ALLOC_ZONE_BLOCKS_BIT : UInt64 := 1

/-- `SCOUTFS_VOLOPT_EXPANSION_BITS`. Modelled from the spec: every other bit is reserved. -/
def VOLOPT_EXPANSION_BITS : UInt64 := ~~~VOLOPT_DATA_ALLOC_ZONE_BLOCKS_BIT

/-- The bounds `server_set_volopt` checks `data_alloc_zone_blocks` against. -/
structure Limits where
  /-- `SCOUTFS_SERVER_DATA_FILL_TARGET` -/
  dataFillTarget : Nat
  /-- `SCOUTFS_DATA_ALLOC_MAX_ZONES` -/
  dataAllocMaxZones : Nat

/-- Why `data_alloc_zone_blocks` was refused, with the values the message prints. -/
inductive ZoneBlocksError where
  /-- "must be at least %llu mount data allocation target blocks" -/
  | belowFillTarget (opt target : Nat)
  /-- "must be greater than %llu blocks which results in max %u zones" -/
  | tooManyZones (opt nr maxZones : Nat)
  /-- "must be at most %llu total data device blocks" -/
  | aboveTotal (opt total : Nat)
  deriving DecidableEq, Repr

/-- The three range checks of `server_set_volopt`, in order. -/
def checkZoneBlocks (L : Limits) (total opt : Nat) : Except ZoneBlocksError Unit :=
  if opt < L.dataFillTarget then .error (.belowFillTarget opt L.dataFillTarget)
  else if opt < total / L.dataAllocMaxZones then
    .error (.tooManyZones opt (total / L.dataAllocMaxZones) L.dataAllocMaxZones)
  else if opt > total then .error (.aboveTotal opt total)
  else .ok ()

/-- A request a handler serves. -/
inductive Request where
  | set (v : VolumeOptions)
  | clear (v : VolumeOptions)
  /-- any other handler that holds the commit; it does not touch the options -/
  | other
  deriving DecidableEq, Repr

/-- What the volume option handlers read and write. -/
structure State where
  /-- `super->volopt`, written by every commit -/
  superVolopt : VolumeOptions
  /-- `server->volopt`, what `GET_VOLOPT` and `get_volopt_val` read -/
  serverVolopt : VolumeOptions
  /-- `super->total_data_blocks` -/
  totalDataBlocks : Nat
  /-- the handler holding `volopt_mutex` -/
  mutex : Option Nat
  deriving DecidableEq

/-- `super->volopt` after `server_set_volopt` validated `v`. -/
def setVolopt (L : Limits) (v : VolumeOptions) (s : State) : Except ZoneBlocksError State :=
  if v.setBits &&& VOLOPT_DATA_ALLOC_ZONE_BLOCKS_BIT ≠ 0 then
    (checkZoneBlocks L s.totalDataBlocks v.dataAllocZoneBlocks).map fun _ =>
      { s with superVolopt := { setBits := s.superVolopt.setBits ||| VOLOPT_DATA_ALLOC_ZONE_BLOCKS_BIT,
                                dataAllocZoneBlocks := v.dataAllocZoneBlocks } }
  else .ok s

/-- The loop of `server_clear_volopt` over the 64 bits: each bit of the request is
cleared with its value. The expansion check leaves only bit 0 with a value. -/
def clearVolopt (v o : VolumeOptions) : VolumeOptions where
  setBits := o.setBits &&& ~~~v.setBits
  dataAllocZoneBlocks :=
    if v.setBits &&& VOLOPT_DATA_ALLOC_ZONE_BLOCKS_BIT ≠ 0 then 0 else o.dataAllocZoneBlocks

/-- The `volopt_seqcount` section after `scoutfs_server_apply_commit` returned `r`,
then `mutex_unlock`. -/
def publish (r : Int) (s : State) : State :=
  if r = 0 then { s with serverVolopt := s.superVolopt, mutex := none }
  else { s with superVolopt := s.serverVolopt, mutex := none }

/-- `get_volopt_val` for `data_alloc_zone_blocks`: whether it is set, and its value. -/
def getVoloptVal (s : State) : Bool × Nat :=
  if s.serverVolopt.setBits &&& VOLOPT_DATA_ALLOC_ZONE_BLOCKS_BIT ≠ 0 then
    (true, s.serverVolopt.dataAllocZoneBlocks)
  else (false, 0)

/-- Up to `scoutfs_server_hold_commit`: a request with a reserved bit is refused
before the mutex, the others take `volopt_mutex`. -/
def lockVolopt (h : Nat) (v : VolumeOptions) (s : State) : Option State :=
  if v.setBits &&& VOLOPT_EXPANSION_BITS ≠ 0 then none
  else if s.mutex = none then some { s with mutex := some h } else none

/-- `server_set_volopt`, `server_clear_volopt` and other commit holders. -/
def handlers (L : Limits) (req : Nat → Request) : Handlers State Unit Unit Int Unit where
  hold h _ s := match req h with
    | .set v | .clear v => lockVolopt h v s
    | .other => some s
  act h _ s := match req h with
    | .set v => match setVolopt L v s with
      | .ok s' => some s'
      | .error _ => some s
    | .clear v => some { s with superVolopt := clearVolopt v s.superVolopt }
    | .other => some s
  err h s := match req h with
    | .set v => match setVolopt L v s with
      | .ok _ => 0
      | .error _ => -EINVAL
    | _ => 0
  finish h r s := match req h with
    | .set _ | .clear _ => (publish r s, ())
    | .other => (s, ())
  commit r s := (s, r)

/-! ## A change that failed and was written -/

/-- A mount whose super block has `data_alloc_zone_blocks = 8` set, on 16 data blocks. -/
def zoned : State where
  superVolopt := { setBits := 1, dataAllocZoneBlocks := 8 }
  serverVolopt := { setBits := 1, dataAllocZoneBlocks := 8 }
  totalDataBlocks := 16
  mutex := none

/-- Handler 1 clears `data_alloc_zone_blocks`; every other handler does something else. -/
def clearOne (h : Nat) : Request :=
  if h = 1 then .clear { setBits := 1, dataAllocZoneBlocks := 0 } else .other

/-- Handler 1's commit fails with `-EIO`; before it restores `super->volopt`, handler 2
holds the commit and its run writes the super block. -/
def failedClearRun : List (Label Unit Unit Int) :=
  [.hold 1 (), .act 1 (), .apply 1, .release 1, .start, .acquire, .commit (- EIO), .drain,
   .complete, .unlock, .hold 2 (), .apply 2, .release 2, .start, .acquire, .commit 0, .drain,
   .complete, .unlock, .finish 1, .finish 2]

/-- The super block handler 2's run writes: the option cleared. -/
def clearedSuper : State :=
  { zoned with superVolopt := { setBits := 0, dataAllocZoneBlocks := 0 }, mutex := some 1 }

/-- **A failed `CLEAR_VOLOPT` reaches the disk.** Handler 1 is answered `-EIO`, and yet
a super block with its option cleared was written. -/
theorem failed_clear_written (L : Limits) :
    ∃ s, Reachable (handlers L clearOne) zoned s ∧
      Event.replied 1 (- EIO) () ∈ s.log ∧
      ∃ m, Event.wrote m ∈ s.log ∧
        m.superVolopt.setBits &&& VOLOPT_DATA_ALLOC_ZONE_BLOCKS_BIT = 0 := by
  obtain ⟨s, hs, hp⟩ := exists_of_run (handlers L clearOne) zoned failedClearRun
    (fun s => decide (Event.replied 1 (- EIO) () ∈ s.log ∧ Event.wrote clearedSuper ∈ s.log)) rfl
  simp only [decide_eq_true_eq] at hp
  exact ⟨s, hs, hp.1, clearedSuper, hp.2, by decide⟩

end Scoutfs.Volopt
