import Scoutfs.Server.TransSeq
import Scoutfs.Server.Pools.Apart

/-!
# Reclaiming a departed mount

`reclaim_rid` runs when a mount has sent its farewell or has been fenced. Between
`scoutfs_server_hold_commit` and `scoutfs_server_apply_commit` it chains, with `?:`,
the lock server's farewell, `remove_trans_seq`, `reclaim_log_trees`,
`cancel_srch_compact`, `scoutfs_omap_remove_rid`, the quorum leader's clear when
`clear_leader` is set, and `delete_mounted_client` last, since recovery looks for it.

The state is the pools model of `Scoutfs.Pools` (allocators, `log_trees` items, busy
compactions), the items of `trans_seqs`, run by the loop of `Scoutfs.TransSeq`, and
the items of `mounted_clients`. The lock, omap and quorum calls, like the btree and
allocator calls, are inputs: the calls of `Scoutfs.Pools.Calls` and a budget of
btree calls for the `trans_seqs` loop.

Each step finds nothing left to do once it has succeeded: no `trans_seqs` item of the
rid, a `log_trees` item whose allocators are empty, no busy compaction and no
mounted-client item. So a run that returned 0 can be repeated with the same inputs:
it returns 0 again and changes nothing (`reclaim_rid_idempotent`). The pools part of
the chain is `Pools.reclaimRid` (`reclaimRidBody_pools`).
-/

namespace Scoutfs.Pools

/-! ## The pools steps of `reclaim_rid`, run again -/

section Again

variable {rid : Nat} {c : Calls} {s t : State}

theorem addDataAlloc_empty : s.addDataAlloc ∅ = s := by
  simp [State.addDataAlloc]

theorem setLogTrees_of_eq {lt : LogTrees} (h : s.super.logTrees rid = some lt) :
    s.setLogTrees rid lt = s := by
  simp [State.setLogTrees, ← h]

/-- A `reclaim_log_trees` in which no call fails splices the item's metadata
allocators into `other_freed`, empties its data allocators into `data_alloc`, and
writes the item back with no blocks. -/
theorem reclaimLogTrees_of_passes {lt : LogTrees} (hl : s.super.logTrees rid = some lt)
    (hn : c.fails .btreeNext = false) (h₁ : c.fails .spliceMetaFreed = false)
    (h₂ : c.fails .spliceMetaAvail = false) (h₃ : c.fails .moveDataAvail = false)
    (h₄ : c.fails .moveDataFreed = false) :
    reclaimLogTrees rid c s =
      ((((s.addOtherFreed lt.metaFreed).addOtherFreed lt.metaAvail).addDataAlloc lt.dataAvail).addDataAlloc
        lt.dataFreed |>.setLogTrees rid .empty, 0) := by
  simp only [reclaimLogTrees, hn, hl, h₁, h₂, h₃, h₄, Calls.moved_of_not_fails, Finset.inter_self,
    Finset.sdiff_self, Bool.false_eq_true, if_false]
  rfl

/-- A `reclaim_log_trees` that returned 0 passed every call it made. -/
theorem reclaimLogTrees_passes (h : (reclaimLogTrees rid c s).2 = 0) :
    c.fails .btreeNext = false ∧ ∀ lt, s.super.logTrees rid = some lt →
      c.fails .spliceMetaFreed = false ∧ c.fails .spliceMetaAvail = false ∧
        c.fails .moveDataAvail = false ∧ c.fails .moveDataFreed = false := by
  simp only [reclaimLogTrees] at h
  by_cases hn : c.fails .btreeNext
  · simp [hn, EIO] at h
  refine ⟨by simpa using hn, fun lt hl => ?_⟩
  simp only [hn, hl, Bool.false_eq_true, if_false] at h
  split_ifs at h <;> simp_all [ EIO]

/-- Run again where the item of the rid is what a successful run left, the step
finds no blocks to move and changes nothing. -/
theorem reclaimLogTrees_again (h : (reclaimLogTrees rid c s).2 = 0)
    (ht : t.super.logTrees rid = (reclaimLogTrees rid c s).1.super.logTrees rid) :
    reclaimLogTrees rid c t = (t, 0) := by
  obtain ⟨hn, hpass⟩ := reclaimLogTrees_passes h
  cases hl : s.super.logTrees rid with
  | none =>
    have ht' : t.super.logTrees rid = none := by rw [ht]; simp [reclaimLogTrees, hn, hl]
    simp [reclaimLogTrees, hn, ht']
  | some lt =>
    obtain ⟨h₁, h₂, h₃, h₄⟩ := hpass lt hl
    have ht' : t.super.logTrees rid = some .empty := by
      rw [ht, reclaimLogTrees_of_passes hl hn h₁ h₂ h₃ h₄]; simp
    rw [reclaimLogTrees_of_passes ht' hn h₁ h₂ h₃ h₄]
    simp only [LogTrees.empty, addOtherFreed_empty, addDataAlloc_empty]
    exact Prod.ext (setLogTrees_of_eq ht') rfl

theorem reclaimLogTrees_srch : (reclaimLogTrees rid c s).1.super.srch = s.super.srch := by
  simp only [reclaimLogTrees]
  by_cases hn : c.fails .btreeNext
  · simp only [hn, if_true]
  simp only [hn, Bool.false_eq_true, if_false]
  cases s.super.logTrees rid
  · rfl
  · split_ifs <;> rfl

theorem cancelSrchCompact_logTrees : (cancelSrchCompact rid c s).1.super.logTrees = s.super.logTrees := by
  unfold cancelSrchCompact
  split
  · rfl
  · split_ifs
    · rfl
    · obtain ⟨m, -, he⟩ := spliceCompact_spec c (s.setSrch rid none)
      rw [he]
      rfl

/-- A `cancel_srch_compact` that returned 0 leaves no busy compaction for the rid. -/
theorem cancelSrchCompact_srch (h : (cancelSrchCompact rid c s).2 = 0) :
    (cancelSrchCompact rid c s).1.super.srch rid = none := by
  cases hs : s.super.srch rid with
  | none => simp [cancelSrchCompact, hs]
  | some sc =>
    simp only [cancelSrchCompact, hs] at h ⊢
    split_ifs at h ⊢
    · simp [ EIO] at h
    · obtain ⟨m, -, he⟩ := spliceCompact_spec c (s.setSrch rid none)
      rw [he]
      simp [State.addOtherFreed, State.setSrch]

/-- What `reclaim_rid` does next: cancelling the compactions leaves the item as the
first step left it, so running that step again there changes nothing. -/
theorem reclaimLogTrees_again_after_cancel (h : (reclaimLogTrees rid c s).2 = 0) :
    reclaimLogTrees rid c (cancelSrchCompact rid c (reclaimLogTrees rid c s).1).1 =
      ((cancelSrchCompact rid c (reclaimLogTrees rid c s).1).1, 0) :=
  reclaimLogTrees_again h (congrFun cancelSrchCompact_logTrees rid)

theorem cancelSrchCompact_of_none (h : t.super.srch rid = none) : cancelSrchCompact rid c t = (t, 0) := by
  simp [cancelSrchCompact, h]

end Again

end Scoutfs.Pools

namespace Scoutfs.Reclaim

open Pools (Calls LogTrees)

/-- An item of `super->mounted_clients`, as the server reads it. -/
structure MountedClient where
  rid : Nat
  /-- `SCOUTFS_MOUNTED_CLIENT_QUORUM` in `flags` -/
  quorum : Bool
  /-- whether `val_len` is that of a whole `struct scoutfs_mounted_client_btree_val` -/
  whole : Bool
  deriving DecidableEq, Repr

/-- What `reclaim_rid` reads and writes. -/
structure State where
  pools : Pools.State
  /-- the items of `super->trans_seqs`, in key order -/
  transSeqs : List TransSeq.Key
  /-- the items of `super->mounted_clients`, in key order -/
  mounted : List MountedClient

/-- `delete_mounted_client`: the item of `rid` deleted; a missing one (`-ENOENT`) is
success. -/
def deleteMountedClient (rid : Nat) (mounted : List MountedClient) : List MountedClient :=
  mounted.filter fun m => m.rid ≠ rid

/-- The `?:` chain of `reclaim_rid`, stopping at the first call that fails. -/
def reclaimRidBody (rid : Nat) (clearLeader : Bool) (c : Calls) (b : Option Nat) (s : State) :
    State × Int :=
  if c.fails .lockServerFarewell then (s, - EIO) else
  let r₁ := TransSeq.removeTransSeqLocked rid s.transSeqs b
  let s₁ := { s with transSeqs := r₁.1 }
  if r₁.2.1 ≠ 0 then (s₁, r₁.2.1) else
  let r₂ := Pools.reclaimLogTrees rid c s.pools
  let s₂ := { s₁ with pools := r₂.1 }
  if r₂.2 ≠ 0 then (s₂, r₂.2) else
  let r₃ := Pools.cancelSrchCompact rid c r₂.1
  let s₃ := { s₂ with pools := r₃.1 }
  if r₃.2 ≠ 0 then (s₃, r₃.2) else
  if c.fails .omapRemoveRid ∨ clearLeader ∧ c.fails .quorumClearRidLeader ∨
    c.fails .deleteMountedClient then (s₃, - EIO) else
  ({ s₃ with mounted := deleteMountedClient rid s.mounted }, 0)

/-- `reclaim_rid`: `hold` is what `scoutfs_server_hold_commit` returns and `commit`
the result of the commit that `scoutfs_server_apply_commit` waits for. -/
def reclaimRid (rid : Nat) (clearLeader : Bool) (c : Calls) (b : Option Nat) (hold commit : Int)
    (s : State) : State × Int :=
  if hold < 0 then (s, hold) else
  let r := reclaimRidBody rid clearLeader c b s
  (r.1, TransSeq.applyCommit r.2 commit)

/-! ## The `trans_seqs` loop, run again -/

section TransSeqs

open TransSeq

/-- Run again on what a successful run left, with the same budget, the loop finds
nothing to delete and succeeds. -/
theorem removeTransSeqLocked_again {rid : Nat} {items : List Key} {b : Option Nat}
    (h : (removeTransSeqLocked rid items b).2.1 = 0) :
    (removeTransSeqLocked rid (removeTransSeqLocked rid items b).1 b).1 =
        (removeTransSeqLocked rid items b).1 ∧
      (removeTransSeqLocked rid (removeTransSeqLocked rid items b).1 b).2.1 = 0 := by
  have hf := removeTransSeqLocked_ok_items rid items b h
  have hc : removeCalls rid (items.filter fun k => k.rid ≠ rid) ≤ removeCalls rid items := by
    simp only [removeCalls, List.countP_filter]
    simp
    have := List.length_filter_le (fun k : Key => !decide (k.rid = rid)) items
    omega
  have h₂ : (removeTransSeqLocked rid (removeTransSeqLocked rid items b).1 b).2.1 = 0 := by
    rw [hf, removeTransSeqLocked_ok_iff]
    exact fun n hb => hc.trans ((removeTransSeqLocked_ok_iff rid items b).1 h n hb)
  refine ⟨?_, h₂⟩
  rw [removeTransSeqLocked_ok_items rid _ b h₂, hf, List.filter_filter]
  simp

end TransSeqs

/-! ## `reclaim_rid` run twice -/

section Idempotent

open TransSeq

variable {rid : Nat} {clearLeader : Bool} {c : Calls} {b : Option Nat} {s : State}

/-- Every call of the `?:` chain returns 0. -/
structure Passes (rid : Nat) (clearLeader : Bool) (c : Calls) (b : Option Nat) (s : State) : Prop where
  lock : c.fails .lockServerFarewell = false
  transSeqs : (removeTransSeqLocked rid s.transSeqs b).2.1 = 0
  logTrees : (Pools.reclaimLogTrees rid c s.pools).2 = 0
  srch : (Pools.cancelSrchCompact rid c (Pools.reclaimLogTrees rid c s.pools).1).2 = 0
  rest : ¬(c.fails .omapRemoveRid ∨ clearLeader ∧ c.fails .quorumClearRidLeader ∨
    c.fails .deleteMountedClient)

theorem reclaimRidBody_of_passes (h : Passes rid clearLeader c b s) :
    reclaimRidBody rid clearLeader c b s =
      (⟨(Pools.cancelSrchCompact rid c (Pools.reclaimLogTrees rid c s.pools).1).1,
        (removeTransSeqLocked rid s.transSeqs b).1, deleteMountedClient rid s.mounted⟩, 0) := by
  simp only [reclaimRidBody, h.lock, h.transSeqs, h.logTrees, h.srch, Bool.false_eq_true, if_false,
    ne_eq, not_true_eq_false]
  rw [if_neg h.rest]

theorem reclaimRidBody_passes (h : (reclaimRidBody rid clearLeader c b s).2 = 0) :
    Passes rid clearLeader c b s := by
  simp only [reclaimRidBody] at h
  split_ifs at h with h₀ h₁ h₂ h₃ h₄
  · simp [ EIO] at h
  · exact absurd h h₁
  · exact absurd h h₂
  · exact absurd h h₃
  · simp [ EIO] at h
  · exact ⟨by simpa using h₀, not_not.1 h₁, not_not.1 h₂, not_not.1 h₃, h₄⟩

/-- The state a successful run leaves passes every call again. -/
theorem Passes.again (h : Passes rid clearLeader c b s) :
    Passes rid clearLeader c b (reclaimRidBody rid clearLeader c b s).1 := by
  rw [reclaimRidBody_of_passes h]
  have hl := Pools.reclaimLogTrees_again_after_cancel h.logTrees
  refine ⟨h.lock, (removeTransSeqLocked_again h.transSeqs).2, ?_, ?_, h.rest⟩
  · rw [hl]
  · rw [hl, Pools.cancelSrchCompact_of_none (Pools.cancelSrchCompact_srch h.srch)]

theorem deleteMountedClient_idem (rid : Nat) (mounted : List MountedClient) :
    deleteMountedClient rid (deleteMountedClient rid mounted) = deleteMountedClient rid mounted := by
  simp [deleteMountedClient, List.filter_filter]

/-- Run again on what a successful run left, the chain returns 0 and changes nothing. -/
theorem reclaimRidBody_again (h : (reclaimRidBody rid clearLeader c b s).2 = 0) :
    reclaimRidBody rid clearLeader c b (reclaimRidBody rid clearLeader c b s).1 =
      ((reclaimRidBody rid clearLeader c b s).1, 0) := by
  have hp := reclaimRidBody_passes h
  rw [reclaimRidBody_of_passes hp.again]
  rw [reclaimRidBody_of_passes hp]
  have hl := Pools.reclaimLogTrees_again_after_cancel hp.logTrees
  simp only [hl, Pools.cancelSrchCompact_of_none (Pools.cancelSrchCompact_srch hp.srch),
    (removeTransSeqLocked_again hp.transSeqs).1, deleteMountedClient_idem]

/-- **`reclaim_rid` is idempotent.** If it returns 0, running it again with the same
calls returns 0 and leaves every item and allocator as the first run left them. -/
theorem reclaim_rid_idempotent (rid : Nat) (clearLeader : Bool) (c : Calls) (b : Option Nat)
    (hold commit : Int) (s : State) (h : (reclaimRid rid clearLeader c b hold commit s).2 = 0) :
    reclaimRid rid clearLeader c b hold commit (reclaimRid rid clearLeader c b hold commit s).1 =
      ((reclaimRid rid clearLeader c b hold commit s).1, 0) := by
  unfold reclaimRid at h ⊢
  split_ifs at h with hh
  · exact absurd h (by omega)
  have h₀ : (reclaimRidBody rid clearLeader c b s).2 = 0 := by
    by_contra hne
    simp [applyCommit, hne] at h
  simp only [applyCommit, h₀, if_true] at h
  simp only [if_neg hh, reclaimRidBody_again h₀, applyCommit, if_true, h]

/-- **The pools model's `reclaim_rid` is the pools part of this one.** With the
`trans_seqs` loop failing exactly when the pools model's `remove_trans_seq` site
fails, `Pools.reclaimRid` leaves the allocators, items and compactions as this chain
does, and returns what it returns unless the quorum leader's clear fails. -/
theorem reclaimRidBody_pools
    (hc : c.fails .removeTransSeq = decide ((removeTransSeqLocked rid s.transSeqs b).2.1 ≠ 0)) :
    (reclaimRidBody rid clearLeader c b s).1.pools = (Pools.reclaimRid rid c s.pools).1 ∧
      (¬(clearLeader ∧ c.fails .quorumClearRidLeader) →
        (reclaimRidBody rid clearLeader c b s).2 = (Pools.reclaimRid rid c s.pools).2) := by
  have hr := (removeTransSeqLocked_spec rid s.transSeqs b).2.1
  unfold reclaimRidBody Pools.reclaimRid
  by_cases hl : c.fails .lockServerFarewell
  · simp [hl]
  by_cases ht : (removeTransSeqLocked rid s.transSeqs b).2.1 = 0
  · simp only [hl, hc, ht, ne_eq, not_true_eq_false, decide_False, Bool.false_eq_true, or_self,
      if_false]
    rcases h₂ : Pools.reclaimLogTrees rid c s.pools with ⟨p₂, r₂⟩
    by_cases hr₂ : r₂ = 0
    · subst hr₂
      rcases h₃ : Pools.cancelSrchCompact rid c p₂ with ⟨p₃, r₃⟩
      by_cases hr₃ : r₃ = 0
      · subst hr₃
        simp only [h₃]
        split_ifs <;> simp_all
      · simp [h₃, hr₃]
    · simp [hr₂]
  · simp only [hl, hc, ht, ne_eq, not_false_eq_true, decide_True, Bool.false_eq_true, or_true,
      if_true, if_false]
    simpa [ht] using fun _ => hr

/-- A departed mount 7: a `log_trees` item with a metadata and a data block, a
`trans_seqs` item, and its mounted-client item next to mount 8's. -/
def departed : State where
  pools := (Pools.startup (Pools.mkfs {2} {4}) (fun _ => none) (fun _ => none)).setLogTrees 7 ⟨{1}, ∅, {3}, ∅⟩
  transSeqs := [⟨2, 7⟩, ⟨3, 8⟩]
  mounted := [⟨7, true, true⟩, ⟨8, false, true⟩]

theorem reclaim_rid_idempotent_departed :
    (reclaimRid 7 false ⟨∅, ∅, none⟩ none 0 0 departed).2 = 0 ∧
      reclaimRid 7 false ⟨∅, ∅, none⟩ none 0 0 (reclaimRid 7 false ⟨∅, ∅, none⟩ none 0 0 departed).1 =
        ((reclaimRid 7 false ⟨∅, ∅, none⟩ none 0 0 departed).1, 0) :=
  have h : (reclaimRid 7 false ⟨∅, ∅, none⟩ none 0 0 departed).2 = 0 := by decide
  ⟨h, reclaim_rid_idempotent 7 false _ none 0 0 departed h⟩

end Idempotent

end Scoutfs.Reclaim
