import Scoutfs.Server.Pools.Model

/-!
# Blocks in two pools

`server_get_log_trees` first splices the mount's `meta_freed` into `other_freed` and then
moves and fills its other allocators; any failure after the splice jumps to `unlock`,
past `scoutfs_btree_force`, so the item in `logs_root` keeps the blocks that were just
spliced away (`serverGetLogTrees_fails_after_splice`). Its sibling `reclaim_log_trees`
makes the same transfers and writes the item back whatever happened
(`reclaimLogTrees_apart`).

A volume with one free metadata block shows what follows, for every value of the bounds
of `format.h`: a mount gets the block, frees it, and a failed `GET_LOG_TREES` leaves it in
both `other_freed` and the mount's item (`get_log_trees_overlap`). Two server restarts
later the stale copy is back in `meta_avail` while a second mount holds the block, and
when that mount frees it, a third mount is filled with it in the same transaction
(`freed_block_refilled`).

The runs are replayed segment by segment: each segment is checked for every `Limits`
and ends in a named state, so that the evaluation of the next one starts from a closed
term. Each segment is checked by evaluating it with every definition unfolded
(`with_unfolding_all`), where the default lazy unfolding takes seconds.
-/

namespace Scoutfs.Pools

open Commit

variable {L : Limits}

/-! ## Calls and volumes -/

/-- Calls that all complete, the fills taking `pick`. -/
def completes (pick : Finset Nat) : Calls := ⟨pick, ∅, none⟩

/-- Calls of which the one at `site` fails, having moved nothing. -/
def failsAt (site : Site) : Calls := ⟨∅, ∅, some (site, ∅)⟩

/-- The first server of a volume whose one metadata block is block 1. -/
def oneBlock : State := startup (mkfs {1} ∅) (fun _ => none) (fun _ => none)

/-! ## The two siblings -/

section Siblings

variable {s : State} {rid : Nat} {lt : LogTrees} {c : Calls}

/-- Moving parts of two disjoint pools into a third one apart from both leaves what is left
of them apart from it. -/
theorem disjoint_after_moves {F A O m₁ m₂ : Finset Nat} (hFA : Disjoint F A)
    (hO : Disjoint (F ∪ A) O) (h₁ : m₁ ⊆ F) (h₂ : m₂ ⊆ A) :
    Disjoint (F \ m₁ ∪ A \ m₂) (O ∪ m₁ ∪ m₂) := by
  rw [Finset.disjoint_left] at hFA hO ⊢
  intro b hb hb'
  simp only [Finset.mem_union, Finset.mem_sdiff] at hb hb' hO
  rcases hb' with (hb' | hb') | hb'
  · exact hO (by tauto) hb'
  · rcases hb with ⟨hF, hm⟩ | ⟨hA, -⟩
    · exact hm hb'
    · exact hFA (h₁ hb') hA
  · rcases hb with ⟨hF, -⟩ | ⟨hA, hm⟩
    · exact hFA hF (h₂ hb')
    · exact hm hb'

/-- Once its splice of `lt.meta_freed` completed, a `GET_LOG_TREES` that fails leaves the
mount's item as it was, and every block of the item's `meta_freed` in `other_freed` too. -/
theorem serverGetLogTrees_fails_after_splice (hlt : s.super.logTrees rid = some lt)
    (hprev : c.fails .btreePrev = false) (hzone : ¬(s.zoned = true ∧ c.fails .zoneBits = true))
    (hsplice : c.fails .spliceMetaFreed = false) (hret : (serverGetLogTrees L rid c s).2.2 ≠ 0) :
    (serverGetLogTrees L rid c s).1.super.logTrees rid = some lt ∧
      lt.metaFreed ⊆ (serverGetLogTrees L rid c s).1.otherFreed := by
  have hm := Calls.moved_of_not_fails hsplice lt.metaFreed lt.metaFreed
  revert hret
  simp only [serverGetLogTrees, hprev, hlt, Option.getD_some, hzone, hsplice, hm, Finset.inter_self,
    Bool.false_eq_true, if_false]
  repeat' split
  all_goals intro hret; first | exact absurd rfl hret | simp [hlt]

/-- Mount 1's item holds block 1 in `meta_freed` and `alloc_move_empty` fails. -/
theorem moveDataFreed_fails_after_splice :
    (serverGetLogTrees ⟨0, 0⟩ 1 (failsAt .moveDataFreed) (oneBlock.setLogTrees 1 ⟨∅, {1}, ∅, ∅⟩)).1.super.logTrees 1 =
        some ⟨∅, {1}, ∅, ∅⟩ ∧
      {1} ⊆ (serverGetLogTrees ⟨0, 0⟩ 1 (failsAt .moveDataFreed) (oneBlock.setLogTrees 1 ⟨∅, {1}, ∅, ∅⟩)).1.otherFreed :=
  serverGetLogTrees_fails_after_splice (State.setLogTrees_logTrees _ _ _) rfl (by decide) rfl (by decide)

/-- `reclaim_log_trees` writes the item back on every path: no block leaves the item for
`other_freed` and stays in the item. -/
theorem reclaimLogTrees_apart (hlt : s.super.logTrees rid = some lt)
    (hd : Disjoint lt.metaFreed lt.metaAvail)
    (hfree : Disjoint (lt.metaFreed ∪ lt.metaAvail) s.otherFreed) :
    ∃ lt', (reclaimLogTrees rid c s).1.super.logTrees rid = some lt' ∧
      Disjoint (lt'.metaFreed ∪ lt'.metaAvail) (reclaimLogTrees rid c s).1.otherFreed := by
  have h₁ := c.moved_subset .spliceMetaFreed lt.metaFreed lt.metaFreed
  have h₂ := c.moved_subset .spliceMetaAvail lt.metaAvail lt.metaAvail
  have hstep := disjoint_after_moves hd hfree h₁ h₂
  have hfirst := disjoint_after_moves hd hfree h₁ (Finset.empty_subset _)
  simp only [Finset.sdiff_empty, Finset.union_empty] at hfirst
  unfold reclaimLogTrees
  by_cases hn : c.fails .btreeNext
  · exact ⟨lt, by simp [hn, hlt], by simpa [hn] using hfree⟩
  simp only [hn, hlt, Bool.false_eq_true, if_false]
  split_ifs
  · exact ⟨_, State.setLogTrees_logTrees _ _ _, by simpa only [State.setLogTrees_otherFreed,
      State.addOtherFreed_otherFreed] using hfirst⟩
  all_goals exact ⟨_, State.setLogTrees_logTrees _ _ _, by simpa only [State.setLogTrees_otherFreed,
      State.addDataAlloc_otherFreed, State.addOtherFreed_otherFreed] using hstep⟩

/-- Reclaiming mount 1, whose item holds block 1 freed and block 2 available, when the
splice of `meta_avail` fails. -/
theorem reclaim_spliceMetaAvail_fails_apart :
    ∃ lt', (reclaimLogTrees 1 (failsAt .spliceMetaAvail) (oneBlock.setLogTrees 1 ⟨{2}, {1}, ∅, ∅⟩)).1.super.logTrees 1 =
        some lt' ∧
      Disjoint (lt'.metaFreed ∪ lt'.metaAvail)
        (reclaimLogTrees 1 (failsAt .spliceMetaAvail) (oneBlock.setLogTrees 1 ⟨{2}, {1}, ∅, ∅⟩)).1.otherFreed :=
  reclaimLogTrees_apart (State.setLogTrees_logTrees _ _ _) (by decide) (by decide)

end Siblings

/-! ## One block, three mounts -/

section Runs

/-- Handler `h` serves `q`; the commit it queues refills nothing, writes the super block and
answers it. -/
def served (h : Nat) (q : Request) (c : Calls) : List (Label Request Calls Calls) :=
  [.hold h q, .act h c, .apply h, .release h, .start, .acquire, .commit (completes ∅), .drain,
   .complete, .unlock, .finish h]

/-- Handler `h` serves `q` and fails, so `scoutfs_server_apply_commit` queues nothing. -/
def refused (h : Nat) (q : Request) (c : Calls) : List (Label Request Calls Calls) :=
  [.hold h q, .act h c, .apply h, .finish h]

/-- The bounds the named states are computed with; every segment holds under all bounds. -/
def zeroLimits : Limits := ⟨0, 0⟩

/-- Where a segment run under `L` ends. -/
def after (L : Limits) (s : Server State Unit) (seg : List (Label Request Calls Calls)) :
    Server State Unit :=
  (Commit.run (handlers L) s seg).getD s

/-- Mount 1 is given block 1. -/
def gotBlock : Server State Unit := after zeroLimits (init oneBlock) (served 1 (.getLogTrees 1) (completes {1}))

theorem run_gotBlock (L : Limits) :
    Commit.run (handlers L) (init oneBlock) (served 1 (.getLogTrees 1) (completes {1})) =
      some gotBlock := by
  obtain ⟨lo, min⟩ := L
  cases lo <;> cases min <;> with_unfolding_all rfl

/-- Mount 1 frees block 1. -/
def freedBlock : Server State Unit := after zeroLimits gotBlock (served 2 (.commitLogTrees 1 ⟨∅, {1}, ∅, ∅⟩) (completes ∅))

theorem run_freedBlock (L : Limits) :
    Commit.run (handlers L) gotBlock (served 2 (.commitLogTrees 1 ⟨∅, {1}, ∅, ∅⟩) (completes ∅)) =
      some freedBlock := by
  obtain ⟨lo, min⟩ := L
  cases min <;> with_unfolding_all rfl

/-- Mount 1's next `GET_LOG_TREES` fails in `alloc_move_empty` after the splice. -/
def splicedTwice : Server State Unit := after zeroLimits freedBlock (refused 3 (.getLogTrees 1) (failsAt .moveDataFreed))

theorem run_splicedTwice (L : Limits) :
    Commit.run (handlers L) freedBlock (refused 3 (.getLogTrees 1) (failsAt .moveDataFreed)) =
      some splicedTwice := by
  with_unfolding_all rfl

theorem reaches_splicedTwice (L : Limits) : Reachable (handlers L) oneBlock splicedTwice :=
  Reachable.run _ (Reachable.run _ (Reachable.run _ .init (run_gotBlock L)) (run_freedBlock L))
    (run_splicedTwice L)

/-- **A failed `GET_LOG_TREES` leaves a block in two pools.** For all bounds, the first
server of a volume with one metadata block reaches a state where the block is in
`other_freed` and in the `meta_freed` of mount 1's `log_trees` item. -/
theorem get_log_trees_overlap (L : Limits) :
    ∃ m₀ s, Started L m₀ ∧ Reachable (handlers L) m₀ s ∧ 1 ∈ s.mem.otherFreed ∧
      ∃ lt, s.mem.super.logTrees 1 = some lt ∧ 1 ∈ lt.metaFreed :=
  ⟨oneBlock, splicedTwice, .mkfs {1} ∅, reaches_splicedTwice L, by with_unfolding_all decide,
    ⟨∅, {1}, ∅, ∅⟩, by with_unfolding_all decide, by with_unfolding_all decide⟩

/-! Whether a commit then swaps `meta_avail` and `meta_freed` depends on
`SERVER_META_ALLOC_MIN`, which is not in this model; what it writes does not
(`serverCommitFunc_written`). The server stops right after each such commit, and the next
one starts from what it wrote. -/

/-- Handler 4 applied mount 2's first request, and the worker holds the commit. -/
def committing : Server State Unit :=
  after zeroLimits splicedTwice [.hold 4 (.getLogTrees 2), .act 4 (completes ∅), .apply 4, .release 4, .start, .acquire]

theorem run_committing (L : Limits) :
    Commit.run (handlers L) splicedTwice
      [.hold 4 (.getLogTrees 2), .act 4 (completes ∅), .apply 4, .release 4, .start, .acquire] =
      some committing := by
  obtain ⟨lo, min⟩ := L
  cases lo <;> with_unfolding_all rfl

/-- The commit empties `other_freed`, and block 1 with it, into `meta_alloc[1]`. -/
def emptied : State := (serverCommitFunc zeroLimits (completes ∅) committing.mem).1

/-- The second server, which finds block 1 in `meta_alloc[1]` and allocates from it. -/
def secondStart : State := startup emptied.disk emptied.given emptied.givenSrch

theorem started_secondStart (L : Limits) : Started L secondStart := by
  have hr : Reachable (handlers L) oneBlock
      { committing with mem := (serverCommitFunc L (completes ∅) committing.mem).1,
                        worker := .draining (serverCommitFunc L (completes ∅) committing.mem).2,
                        log := _ } :=
    .step (.commit (completes ∅)) (Reachable.run _ (reaches_splicedTwice L) (run_committing L)) rfl
  obtain ⟨hd, hg, hgs⟩ := serverCommitFunc_written L zeroLimits (completes ∅) committing.mem
  have h := Started.restart (.mkfs {1} ∅) hr
  rw [hd, hg, hgs] at h
  unfold secondStart emptied
  exact h

/-- Mount 2 is given block 1. -/
def handedOut : Server State Unit := after zeroLimits (init secondStart) (served 5 (.getLogTrees 2) (completes {1}))

theorem run_handedOut (L : Limits) :
    Commit.run (handlers L) (init secondStart) (served 5 (.getLogTrees 2) (completes {1})) =
      some handedOut := by
  obtain ⟨lo, min⟩ := L
  cases lo <;> cases min <;> with_unfolding_all rfl

/-- Mount 1's next `GET_LOG_TREES` splices the stale copy of block 1 again, and the worker
holds the commit. -/
def committingAgain : Server State Unit :=
  after zeroLimits handedOut [.hold 6 (.getLogTrees 1), .act 6 (completes ∅), .apply 6, .release 6, .start, .acquire]

theorem run_committingAgain (L : Limits) :
    Commit.run (handlers L) handedOut
      [.hold 6 (.getLogTrees 1), .act 6 (completes ∅), .apply 6, .release 6, .start, .acquire] =
      some committingAgain := by
  obtain ⟨lo, min⟩ := L
  cases lo <;> with_unfolding_all rfl

/-- The commit puts the stale copy in `meta_alloc[0]`. -/
def splicedAgain : State := (serverCommitFunc zeroLimits (completes ∅) committingAgain.mem).1

/-- The third server, which allocates from `meta_alloc[0]`. -/
def thirdStart : State := startup splicedAgain.disk splicedAgain.given splicedAgain.givenSrch

theorem started_thirdStart (L : Limits) : Started L thirdStart := by
  have hr : Reachable (handlers L) secondStart
      { committingAgain with mem := (serverCommitFunc L (completes ∅) committingAgain.mem).1,
                             worker := .draining (serverCommitFunc L (completes ∅) committingAgain.mem).2,
                             log := _ } :=
    .step (.commit (completes ∅))
      (Reachable.run _ (Reachable.run _ .init (run_handedOut L)) (run_committingAgain L)) rfl
  obtain ⟨hd, hg, hgs⟩ := serverCommitFunc_written L zeroLimits (completes ∅) committingAgain.mem
  have h := Started.restart (started_secondStart L) hr
  rw [hd, hg, hgs] at h
  unfold thirdStart splicedAgain
  exact h

/-- Mount 2 hands block 1 back in `meta_freed`; the commit is queued but not started. -/
def freedAgain : Server State Unit :=
  after zeroLimits (init thirdStart)
    [.hold 7 (.commitLogTrees 2 ⟨∅, {1}, ∅, ∅⟩), .act 7 (completes ∅), .apply 7, .release 7]

theorem run_freedAgain (L : Limits) :
    Commit.run (handlers L) (init thirdStart)
      [.hold 7 (.commitLogTrees 2 ⟨∅, {1}, ∅, ∅⟩), .act 7 (completes ∅), .apply 7, .release 7] =
      some freedAgain := by
  with_unfolding_all rfl

/-- Mount 3's first `GET_LOG_TREES` fills its `meta_avail` from `meta_alloc[0]`. -/
def refilled : Server State Unit := after zeroLimits freedAgain [.hold 8 (.getLogTrees 3), .act 8 (completes {1})]

theorem run_refilled (L : Limits) :
    Commit.run (handlers L) freedAgain [.hold 8 (.getLogTrees 3), .act 8 (completes {1})] =
      some refilled := by
  obtain ⟨lo, min⟩ := L
  cases lo <;> with_unfolding_all rfl

/-- **A freed block is handed out before its transaction is written.** For all bounds, a
server started from a reachable super block has mount 2 free block 1 into its item's
`meta_freed` in the open transaction (the last super block written still has it out of that
pool), and in the same transaction, with no super block written between, mount 3's new
`log_trees` item is filled with block 1. -/
theorem freed_block_refilled (L : Limits) :
    ∃ m₀ s₁ s₂, Started L m₀ ∧ Reachable (handlers L) m₀ s₁ ∧
      (∃ ls, Commit.run (handlers L) s₁ ls = some s₂) ∧ s₂.mem.disk = s₁.mem.disk ∧
      (∃ lt, s₁.mem.super.logTrees 2 = some lt ∧ 1 ∈ lt.metaFreed) ∧
      (∃ lt, s₁.mem.disk.logTrees 2 = some lt ∧ 1 ∉ lt.metaFreed) ∧
      s₁.mem.super.logTrees 3 = none ∧
      ∃ lt, s₂.mem.super.logTrees 3 = some lt ∧ 1 ∈ lt.metaAvail :=
  ⟨thirdStart, freedAgain, refilled, started_thirdStart L, Reachable.run _ .init (run_freedAgain L),
    ⟨_, run_refilled L⟩, by with_unfolding_all rfl, ⟨⟨∅, {1}, ∅, ∅⟩, by with_unfolding_all decide, by with_unfolding_all decide⟩,
    ⟨⟨{1}, ∅, ∅, ∅⟩, by with_unfolding_all decide, by with_unfolding_all decide⟩, by with_unfolding_all decide, ⟨⟨{1}, ∅, ∅, ∅⟩, by with_unfolding_all decide, by with_unfolding_all decide⟩⟩

end Runs

end Scoutfs.Pools
