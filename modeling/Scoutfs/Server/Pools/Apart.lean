import Mathlib.Tactic.LiftLets
import Scoutfs.Server.Pools.Overlap

/-!
# Pools that stay apart

`get_log_trees_overlap` puts a block in two allocators through the failure path of
`server_get_log_trees`. This module shows that path is the only one: every other body
and the commit only move blocks between allocators or drop them. Over every run in
which no `GET_LOG_TREES` fails at its splice or after it and every mount hands back only
blocks of its current item or compaction, no block is in two allocators of the server,
nor of the super block on disk (`trusted_pools_apart`).

A block's allocator is its owner. The proofs carry a function naming each block's
owner (`Owns`), and each body is a chain of `move`s of blocks from one owner to another
followed by allocators dropped whole (`Owns.mono`).
-/

namespace Scoutfs.Pools

open Function (update)
open Commit

/-! ## Owners -/

/-- The allocators: the two banks of server lists, `meta_alloc[0/1]`, `data_alloc`, the
four of each mount's `log_trees` item and the two of each busy compaction. -/
inductive Owner where
  | serverMetaAvail (i : Bool)
  | serverMetaFreed (i : Bool)
  | metaAlloc (i : Bool)
  | dataAlloc
  | metaAvail (rid : Nat)
  | metaFreed (rid : Nat)
  | dataAvail (rid : Nat)
  | dataFreed (rid : Nat)
  | srchAvail (rid : Nat)
  | srchFreed (rid : Nat)
  deriving DecidableEq

/-- The blocks of each allocator of a super block; a missing item has none. -/
def Super.pool (d : Super) : Owner → Finset Nat
  | .serverMetaAvail i => d.serverMetaAvail i
  | .serverMetaFreed i => d.serverMetaFreed i
  | .metaAlloc i => d.metaAlloc i
  | .dataAlloc => d.dataAlloc
  | .metaAvail rid => ((d.logTrees rid).map LogTrees.metaAvail).getD ∅
  | .metaFreed rid => ((d.logTrees rid).map LogTrees.metaFreed).getD ∅
  | .dataAvail rid => ((d.logTrees rid).map LogTrees.dataAvail).getD ∅
  | .dataFreed rid => ((d.logTrees rid).map LogTrees.dataFreed).getD ∅
  | .srchAvail rid => ((d.srch rid).map SrchCompact.metaAvail).getD ∅
  | .srchFreed rid => ((d.srch rid).map SrchCompact.metaFreed).getD ∅

/-- The allocators of the running server: those of its super block, but the active bank
as `server->alloc` holds it. -/
def State.pool (s : State) : Owner → Finset Nat
  | .serverMetaAvail i => if i = s.otherInd then s.super.serverMetaAvail i else s.allocAvail
  | .serverMetaFreed i => if i = s.otherInd then s.super.serverMetaFreed i else s.allocFreed
  | o => s.super.pool o

/-- No block in two allocators. -/
def Apart (p : Owner → Finset Nat) : Prop := ∀ o o', o ≠ o' → Disjoint (p o) (p o')

/-- `own` names the allocator each block of `p` lies in. -/
def Owns (p : Owner → Finset Nat) (own : Nat → Option Owner) : Prop := ∀ o, ∀ b ∈ p o, own b = some o

/-- The blocks `m` of `o₁` moved to `o₂`. -/
def move (p : Owner → Finset Nat) (m : Finset Nat) (o₁ o₂ : Owner) : Owner → Finset Nat :=
  fun o => if o = o₂ then p o ∪ m else if o = o₁ then p o \ m else p o

section Owns

variable {p q : Owner → Finset Nat} {own : Nat → Option Owner}

theorem Owns.apart (h : Owns p own) : Apart p := fun _ _ hne =>
  Finset.disjoint_left.2 fun _ hb hb' => hne (Option.some.inj ((h _ _ hb).symm.trans (h _ _ hb')))

theorem Apart.owns (h : Apart p) : ∃ own, Owns p own := by
  classical
  refine ⟨fun b => if hb : ∃ o, b ∈ p o then some hb.choose else none, fun o b hb => ?_⟩
  have hex : ∃ o, b ∈ p o := ⟨o, hb⟩
  dsimp only
  rw [dif_pos hex]
  by_contra hne
  exact Finset.disjoint_left.1 (h _ _ fun e => hne (congrArg some e)) hex.choose_spec hb

/-- Allocators that lose blocks keep their owners. -/
theorem Owns.mono (h : Owns p own) (hq : ∀ o, q o ⊆ p o) : Owns q own :=
  fun o b hb => h o b (hq o hb)

/-- Blocks moved to `o₂` are owned by `o₂`. -/
theorem Owns.move {m : Finset Nat} {o₁ : Owner} (h : Owns p own) (hm : m ⊆ p o₁) (o₂ : Owner) :
    Owns (move p m o₁ o₂) fun b => if b ∈ m then some o₂ else own b := by
  intro o b hb
  dsimp only
  simp only [Pools.move] at hb
  split_ifs at hb with h₂ h₁
  · subst h₂
    rcases Finset.mem_union.1 hb with hb | hb
    · by_cases hbm : b ∈ m <;> simp [hbm, h o b hb]
    · simp [hb]
  · obtain ⟨hb, hbm⟩ := Finset.mem_sdiff.1 hb
    simp [hbm, h o b hb]
  · have : b ∉ m := fun hbm => h₁ (Option.some.inj ((h o b hb).symm.trans (h o₁ b (hm hbm))))
    simp [this, h o b hb]

theorem Apart.move (h : Apart p) (m : Finset Nat) (o₁ o₂ : Owner) (hm : m ⊆ p o₁) :
    Apart (move p m o₁ o₂) :=
  let ⟨_, ho⟩ := h.owns
  (ho.move hm o₂).apart

theorem Apart.mono (h : Apart p) (hq : ∀ o, q o ⊆ p o) : Apart q :=
  let ⟨_, ho⟩ := h.owns
  (ho.mono hq).apart

end Owns

/-! ## Moves of the handlers

Each transfer of a handler, with the `log_trees` item or the compaction it works on
still to be written, is a `move` of the allocators. -/

section Moves

variable (s : State) (m a b c d : Finset Nat) (rid : Nat)

theorem pool_spliceMetaFreed :
    ((s.addOtherFreed m).setLogTrees rid ⟨a, b \ m, c, d⟩).pool =
      move (s.setLogTrees rid ⟨a, b, c, d⟩).pool m (.metaFreed rid) (.serverMetaFreed s.otherInd) := by
  funext o
  cases o <;> simp [State.pool, Super.pool, move, State.setLogTrees, State.addOtherFreed,
    State.otherFreed, Function.update_apply] <;> split_ifs <;> simp_all

theorem pool_spliceMetaAvail :
    ((s.addOtherFreed m).setLogTrees rid ⟨a \ m, b, c, d⟩).pool =
      move (s.setLogTrees rid ⟨a, b, c, d⟩).pool m (.metaAvail rid) (.serverMetaFreed s.otherInd) := by
  funext o
  cases o <;> simp [State.pool, Super.pool, move, State.setLogTrees, State.addOtherFreed,
    State.otherFreed, Function.update_apply] <;> split_ifs <;> simp_all

theorem pool_moveDataFreed :
    ((s.addDataAlloc m).setLogTrees rid ⟨a, b, c, d \ m⟩).pool =
      move (s.setLogTrees rid ⟨a, b, c, d⟩).pool m (.dataFreed rid) .dataAlloc := by
  funext o
  cases o <;> simp [State.pool, Super.pool, move, State.setLogTrees, State.addDataAlloc,
    Function.update_apply] <;> split_ifs <;> simp_all

theorem pool_moveDataAvail :
    ((s.addDataAlloc m).setLogTrees rid ⟨a, b, c \ m, d⟩).pool =
      move (s.setLogTrees rid ⟨a, b, c, d⟩).pool m (.dataAvail rid) .dataAlloc := by
  funext o
  cases o <;> simp [State.pool, Super.pool, move, State.setLogTrees, State.addDataAlloc,
    Function.update_apply] <;> split_ifs <;> simp_all

theorem pool_fillMetaAvail :
    ((s.takeMetaAvail m).setLogTrees rid ⟨a ∪ m, b, c, d⟩).pool =
      move (s.setLogTrees rid ⟨a, b, c, d⟩).pool m (.metaAlloc s.metaInd) (.metaAvail rid) := by
  funext o
  cases o <;> simp [State.pool, Super.pool, move, State.setLogTrees, State.takeMetaAvail,
    State.metaAvail, Function.update_apply] <;> split_ifs <;> simp_all

theorem pool_refillDataAvail :
    ((s.takeDataAlloc m).setLogTrees rid ⟨a, b, c ∪ m, d⟩).pool =
      move (s.setLogTrees rid ⟨a, b, c, d⟩).pool m .dataAlloc (.dataAvail rid) := by
  funext o
  cases o <;> simp [State.pool, Super.pool, move, State.setLogTrees, State.takeDataAlloc,
    Function.update_apply] <;> split_ifs <;> simp_all

theorem pool_fillSrchAvail :
    ((s.takeMetaAvail m).setSrch rid (some ⟨a ∪ m, b⟩)).pool =
      move (s.setSrch rid (some ⟨a, b⟩)).pool m (.metaAlloc s.metaInd) (.srchAvail rid) := by
  funext o
  cases o <;> simp [State.pool, Super.pool, move, State.setSrch, State.takeMetaAvail,
    State.metaAvail, Function.update_apply] <;> split_ifs <;> simp_all

theorem pool_spliceSrchFreed :
    ((s.addOtherFreed m).setSrch rid (some ⟨a, b \ m⟩)).pool =
      move (s.setSrch rid (some ⟨a, b⟩)).pool m (.srchFreed rid) (.serverMetaFreed s.otherInd) := by
  funext o
  cases o <;> simp [State.pool, Super.pool, move, State.setSrch, State.addOtherFreed,
    State.otherFreed, Function.update_apply] <;> split_ifs <;> simp_all

theorem pool_fillOtherAvail :
    ((s.takeMetaAvail m).addOtherAvail m).pool =
      move s.pool m (.metaAlloc s.metaInd) (.serverMetaAvail s.otherInd) := by
  funext o
  cases o <;> simp [State.pool, Super.pool, move, State.addOtherAvail, State.takeMetaAvail,
    State.otherAvail, State.metaAvail, Function.update_apply] <;> split_ifs <;> simp_all

theorem pool_emptyOtherFreed :
    ((s.takeOtherFreed m).addMetaFreed m).pool =
      move s.pool m (.serverMetaFreed s.otherInd) (.metaAlloc !s.metaInd) := by
  funext o
  cases o <;> simp [State.pool, Super.pool, move, State.addMetaFreed, State.takeOtherFreed,
    State.otherFreed, State.metaFreed, Function.update_apply] <;> split_ifs <;> simp_all

end Moves

/-! ## The handlers keep the pools apart -/

/-- What `trusted_pools_apart` assumes of a `GET_LOG_TREES`: it does not fail at its splice
or after. -/
def keepsItem (c : Calls) : Bool :=
  [Site.spliceMetaFreed, .moveDataFreed, .fillMetaAvail, .refillDataAvail, .extentsCb, .btreeForce].all
    fun site => !c.fails site

section Handlers

variable {L : Limits} {s : State} {rid : Nat} {c : Calls}

theorem pool_setLogTrees_getD (s : State) (rid : Nat) :
    (s.setLogTrees rid ((s.super.logTrees rid).getD .empty)).pool = s.pool := by
  funext o
  cases o <;> simp only [State.pool, Super.pool, State.setLogTrees, Function.update_apply] <;> split_ifs <;>
    simp_all <;> cases s.super.logTrees rid <;> rfl

/-- A `GET_LOG_TREES` that keeps its item fails before its splice and changes nothing, or
writes the item after its four transfers. -/
theorem serverGetLogTrees_kept (hc : keepsItem c = true) :
    (serverGetLogTrees L rid c s).1 = s ∨
      ∃ m₁ m₂ m₃ m₄, m₁ ⊆ ((s.super.logTrees rid).getD .empty).metaFreed ∧
        m₂ ⊆ ((s.super.logTrees rid).getD .empty).dataFreed ∧ m₃ ⊆ s.metaAvail ∧
        m₄ ⊆ s.super.dataAlloc ∪ m₂ ∧
        (serverGetLogTrees L rid c s).1 =
          ((((s.addOtherFreed m₁).addDataAlloc m₂).takeMetaAvail m₃).takeDataAlloc m₄).setLogTrees rid
            ⟨((s.super.logTrees rid).getD .empty).metaAvail ∪ m₃,
              ((s.super.logTrees rid).getD .empty).metaFreed \ m₁,
              ((s.super.logTrees rid).getD .empty).dataAvail ∪ m₄,
              ((s.super.logTrees rid).getD .empty).dataFreed \ m₂⟩ := by
  simp only [keepsItem, List.all_cons, List.all_nil, Bool.and_true, Bool.and_eq_true, Bool.not_eq_true'] at hc
  obtain ⟨h₁, h₂, h₃, h₄, h₅, h₆⟩ := hc
  simp only [serverGetLogTrees, h₁, h₂, h₃, h₄, h₅, h₆, Bool.false_eq_true, and_false, if_false]
  split_ifs
  · exact .inl rfl
  · exact .inl rfl
  all_goals exact .inr ⟨_, _, _, _, c.moved_subset _ _ _, c.moved_subset _ _ _, c.moved_subset _ _ _,
    by first | exact c.moved_subset _ _ _ | exact Finset.empty_subset _, rfl⟩

theorem pool_setLogTrees_of_eq {lt : LogTrees} (hlt : s.super.logTrees rid = some lt) :
    (s.setLogTrees rid lt).pool = s.pool := by
  simpa [hlt] using pool_setLogTrees_getD s rid

theorem Apart.serverGetLogTrees (h : Apart s.pool) (hc : keepsItem c = true) :
    Apart (serverGetLogTrees L rid c s).1.pool := by
  rcases serverGetLogTrees_kept hc with he | ⟨m₁, m₂, m₃, m₄, h₁, h₂, h₃, h₄, he⟩ <;> rw [he]
  · exact h
  rw [pool_refillDataAvail, pool_fillMetaAvail, pool_moveDataFreed, pool_spliceMetaFreed]
  have h₀ : Apart (s.setLogTrees rid ((s.super.logTrees rid).getD .empty)).pool := by
    rwa [pool_setLogTrees_getD]
  refine (((h₀.move _ _ _ ?_).move _ _ _ ?_).move _ _ _ ?_).move _ _ _ ?_
  all_goals simpa [Pools.move, State.pool, Super.pool, State.setLogTrees]

/-- A mount's item replaced by roots that hold only blocks of it, the metadata ones among
its metadata allocators and the data ones among its data allocators. -/
theorem Apart.returns {cur lt : LogTrees} (h : Apart s.pool) (hcur : s.super.logTrees rid = some cur)
    (hr : Returns cur lt) : Apart (s.setLogTrees rid lt).pool := by
  obtain ⟨hm, hmd, hd, hdd⟩ := hr
  rw [← pool_setLogTrees_of_eq hcur] at h
  refine ((((h.move cur.metaFreed (.metaFreed rid) (.metaAvail rid) ?_).move lt.metaFreed (.metaAvail rid)
    (.metaFreed rid) ?_).move cur.dataFreed (.dataFreed rid) (.dataAvail rid) ?_).move lt.dataFreed
    (.dataAvail rid) (.dataFreed rid) ?_).mono ?_
  · simp [State.pool, Super.pool, State.setLogTrees]
  · simpa [Pools.move, State.pool, Super.pool, State.setLogTrees] using Finset.union_subset_right hm
  · simp [Pools.move, State.pool, Super.pool, State.setLogTrees]
  · simpa [Pools.move, State.pool, Super.pool, State.setLogTrees] using Finset.union_subset_right hd
  · intro o
    cases o <;> simp [Pools.move, State.pool, Super.pool, State.setLogTrees, Function.update_apply] <;>
      split_ifs <;> simp_all [Finset.subset_sdiff, Finset.union_subset_iff]

theorem pool_takeMetaAvail_le {m : Finset Nat} (o : Owner) : (s.takeMetaAvail m).pool o ⊆ s.pool o := by
  cases o <;> simp [State.pool, Super.pool, State.takeMetaAvail, Function.update_apply]
  split_ifs with hi
  · subst hi; exact Finset.sdiff_subset
  · exact subset_refl _

theorem pool_setSrch_le {sc : Option SrchCompact} (hsc : sc = none ∨ sc = some ⟨∅, ∅⟩) (o : Owner) :
    (s.setSrch rid sc).pool o ⊆ s.pool o := by
  rcases hsc with rfl | rfl <;>
    cases o <;> simp [State.pool, Super.pool, State.setSrch, Function.update_apply]
  all_goals split_ifs <;> simp

theorem addOtherFreed_empty : s.addOtherFreed ∅ = s := by
  simp [State.addOtherFreed, State.otherFreed]

/-- A new compaction is filled from `meta_avail`; the busy one it replaces, if any, is
dropped. -/
theorem Apart.serverSrchGetCompact (h : Apart s.pool) : Apart (serverSrchGetCompact rid c s).1.pool := by
  have hm : c.moved .spliceSrchFreed ∅ ∅ = ∅ := Finset.subset_empty.1 (c.moved_subset _ _ _)
  simp only [Pools.serverSrchGetCompact, hm, addOtherFreed_empty]
  split_ifs
  · exact h
  · exact h
  · exact h.mono pool_takeMetaAvail_le
  · exact h.mono pool_takeMetaAvail_le
  · exact h.mono pool_takeMetaAvail_le
  · rw [pool_fillSrchAvail]
    exact (h.mono (pool_setSrch_le (.inr rfl))).move _ _ _ (by simp [State.pool, Super.pool, State.setSrch,
      State.metaAvail, Calls.moved_subset])

theorem addOtherFreed_addOtherFreed (a b : Finset Nat) :
    (s.addOtherFreed a).addOtherFreed b = s.addOtherFreed (a ∪ b) := by
  simp [State.addOtherFreed, State.otherFreed, Finset.union_assoc]

/-- The splices of a compaction add to `other_freed` only blocks it hands back. -/
theorem spliceCompact_spec {av fr : Finset Nat} (c : Calls) (t : State) :
    ∃ m ⊆ av ∪ fr, (spliceCompact av fr c t).1 = t.addOtherFreed m := by
  have h₁ := c.moved_subset .spliceAvail av av
  have h₂ := c.moved_subset .spliceFreed fr fr
  unfold Pools.spliceCompact
  split_ifs
  · exact ⟨_, h₁.trans Finset.subset_union_left, rfl⟩
  all_goals exact ⟨_, Finset.union_subset_union h₁ h₂, addOtherFreed_addOtherFreed _ _⟩

theorem pool_spliceCompact_le {av fr : Finset Nat} (t : State) (o : Owner) :
    (spliceCompact av fr c t).1.pool o ⊆
      if o = .serverMetaFreed t.otherInd then t.pool o ∪ (av ∪ fr) else t.pool o := by
  obtain ⟨m, hm, he⟩ := spliceCompact_spec c t
  rw [he]
  cases o <;> simp [State.pool, Super.pool, State.addOtherFreed, State.otherFreed, Function.update_apply]
  split_ifs <;> simp_all
  exact Finset.union_subset_union subset_rfl hm

/-- A finished or cancelled compaction is dropped, and the blocks it hands back, all of
the busy one, go to `other_freed`. -/
theorem Apart.spliceCompact {cur : SrchCompact} {av fr : Finset Nat} (h : Apart s.pool)
    (hcur : s.super.srch rid = some cur) (hsub : av ∪ fr ⊆ cur.metaAvail ∪ cur.metaFreed) :
    Apart (spliceCompact av fr c (s.setSrch rid none)).1.pool := by
  refine ((h.move cur.metaFreed (.srchFreed rid) (.srchAvail rid) ?_).move (av ∪ fr) (.srchAvail rid)
    (.serverMetaFreed s.otherInd) ?_).mono fun o => (pool_spliceCompact_le _ o).trans ?_
  · simp [State.pool, Super.pool, hcur]
  · simpa [Pools.move, State.pool, Super.pool, hcur] using hsub
  · cases o <;> simp [Pools.move, State.pool, Super.pool, State.setSrch, Function.update_apply] <;>
      split_ifs <;> simp_all

theorem Apart.serverSrchCommitCompact {sc : SrchCompact} (h : Apart s.pool)
    (ht : (s.super.srch rid).all (fun cur => decide (ReturnsSrch cur sc)) = true) :
    Apart (serverSrchCommitCompact rid sc c s).1.pool := by
  unfold Pools.serverSrchCommitCompact
  split
  · exact h
  · rename_i cur hcur
    simp only [hcur, Option.all_some, decide_eq_true_eq] at ht
    split_ifs
    · exact h
    · exact h.spliceCompact hcur ht.1

theorem Apart.cancelSrchCompact (h : Apart s.pool) : Apart (cancelSrchCompact rid c s).1.pool := by
  unfold Pools.cancelSrchCompact
  split
  · exact h
  · rename_i cur hcur
    split_ifs
    · exact h
    · exact h.spliceCompact hcur subset_rfl

/-- `reclaim_log_trees` moves the item's blocks to the server and writes the item back on
every path. -/
theorem Apart.reclaimLogTrees (h : Apart s.pool) : Apart (reclaimLogTrees rid c s).1.pool := by
  simp only [Pools.reclaimLogTrees]
  by_cases hn : c.fails .btreeNext
  · simpa only [hn, if_true] using h
  simp only [hn, Bool.false_eq_true, if_false]
  cases hlt : s.super.logTrees rid with
  | none => exact h
  | some lt =>
    have h₀ : Apart (s.setLogTrees rid ⟨lt.metaAvail, lt.metaFreed, lt.dataAvail, lt.dataFreed⟩).pool := by
      show Apart (s.setLogTrees rid lt).pool
      rwa [pool_setLogTrees_of_eq hlt]
    split_ifs <;> simp only [pool_moveDataFreed, pool_moveDataAvail, pool_spliceMetaAvail,
      pool_spliceMetaFreed] <;> repeat' first | exact h₀ | apply Apart.move
    all_goals simp [Pools.move, State.pool, Super.pool, State.setLogTrees, Calls.moved_subset]

/-- `reclaim_rid` stops before `reclaim_log_trees`, after it, or after `cancel_srch_compact`. -/
theorem reclaimRid_cases :
    (reclaimRid rid c s).1 = s ∨ (reclaimRid rid c s).1 = (reclaimLogTrees rid c s).1 ∨
      (reclaimRid rid c s).1 = (cancelSrchCompact rid c (reclaimLogTrees rid c s).1).1 := by
  unfold Pools.reclaimRid
  by_cases hf : c.fails .lockServerFarewell ∨ c.fails .removeTransSeq
  · rw [if_pos hf]
    exact .inl rfl
  rw [if_neg hf]
  split
  · rename_i t heq
    split
    · rename_i t' heq'
      have ht' : t' = (cancelSrchCompact rid c (reclaimLogTrees rid c s).1).1 := by rw [heq, heq']
      split_ifs <;> exact .inr (.inr ht')
    · exact .inr (.inr (by rw [heq]))
  · exact .inr (.inl rfl)

theorem Apart.reclaimRid (h : Apart s.pool) : Apart (reclaimRid rid c s).1.pool := by
  rcases reclaimRid_cases with he | he | he <;> rw [he]
  · exact h
  · exact h.reclaimLogTrees
  · exact h.reclaimLogTrees.cancelSrchCompact

/-- What `trusted_pools_apart` assumes of a body that runs for `q`: a `GET_LOG_TREES` keeps
its item, and a mount hands back only blocks of its current item or compaction. -/
def Trusted (s : State) (c : Calls) : Request → Bool
  | .getLogTrees _ => keepsItem c
  | .commitLogTrees rid lt => (s.super.logTrees rid).all fun cur => decide (Returns cur lt)
  | .srchCommitCompact rid sc => (s.super.srch rid).all fun cur => decide (ReturnsSrch cur sc)
  | _ => true

theorem Apart.serverCommitLogTrees {lt : LogTrees} (h : Apart s.pool)
    (ht : (s.super.logTrees rid).all (fun cur => decide (Returns cur lt)) = true) :
    Apart (serverCommitLogTrees rid lt c s).1.pool := by
  unfold Pools.serverCommitLogTrees
  split
  · exact h
  · rename_i cur hcur
    simp only [hcur, Option.all_some, decide_eq_true_eq] at ht
    split_ifs
    · exact h
    · exact h
    · exact h
    · exact h.returns hcur ht

/-- The state a body's function leaves, before the handler records its reply. -/
def handled (L : Limits) (c : Calls) (s : State) : Request → State
  | .getLogTrees rid => (serverGetLogTrees L rid c s).1
  | .commitLogTrees rid lt => (serverCommitLogTrees rid lt c s).1
  | .srchGetCompact rid => (serverSrchGetCompact rid c s).1
  | .srchCommitCompact rid sc => (serverSrchCommitCompact rid sc c s).1
  | .reclaimRid rid => (reclaimRid rid c s).1

/-- Recording the body's status and roots touches no allocator and not the disk. -/
theorem body_frame {h : Nat} (q : Request) :
    (body L h c s q).pool = (handled L c s q).pool ∧ (body L h c s q).disk = (handled L c s q).disk := by
  cases q <;> exact ⟨rfl, rfl⟩

/-! No body writes the super block. -/

theorem spliceCompact_disk {av fr : Finset Nat} (t : State) : (spliceCompact av fr c t).1.disk = t.disk := by
  unfold Pools.spliceCompact
  split_ifs <;> rfl

theorem cancelSrchCompact_disk : (cancelSrchCompact rid c s).1.disk = s.disk := by
  unfold Pools.cancelSrchCompact
  split
  · rfl
  · split_ifs
    · rfl
    · exact spliceCompact_disk _

theorem reclaimLogTrees_disk : (reclaimLogTrees rid c s).1.disk = s.disk := by
  simp only [Pools.reclaimLogTrees]
  by_cases hn : c.fails .btreeNext
  · simp only [hn, if_true]
  simp only [hn, Bool.false_eq_true, if_false]
  cases s.super.logTrees rid
  · rfl
  · split_ifs <;> rfl

theorem reclaimRid_disk : (reclaimRid rid c s).1.disk = s.disk := by
  rcases reclaimRid_cases with he | he | he <;> rw [he]
  · exact reclaimLogTrees_disk
  · exact cancelSrchCompact_disk.trans reclaimLogTrees_disk

theorem handled_disk {q : Request} (ht : Trusted s c q = true) : (handled L c s q).disk = s.disk := by
  cases q with
  | getLogTrees rid =>
    show (serverGetLogTrees L rid c s).1.disk = s.disk
    rcases serverGetLogTrees_kept ht with h | ⟨_, _, _, _, -, -, -, -, h⟩
    · rw [h]
    · rw [h]; rfl
  | commitLogTrees rid lt =>
    dsimp only [handled, Pools.serverCommitLogTrees]
    repeat' split
    all_goals rfl
  | srchGetCompact rid =>
    dsimp only [handled, Pools.serverSrchGetCompact]
    repeat' split
    all_goals rfl
  | srchCommitCompact rid sc =>
    dsimp only [handled, Pools.serverSrchCommitCompact]
    split
    · rfl
    · split_ifs
      · rfl
      · exact spliceCompact_disk _
  | reclaimRid rid => exact reclaimRid_disk

theorem Apart.body {h : Nat} {q : Request} (hs : Apart s.pool) (ht : Trusted s c q = true) :
    Apart (body L h c s q).pool := by
  rw [(body_frame q).1]
  cases q with
  | getLogTrees rid => exact hs.serverGetLogTrees ht
  | commitLogTrees rid lt => exact hs.serverCommitLogTrees ht
  | srchGetCompact rid => exact hs.serverSrchGetCompact
  | srchCommitCompact rid sc => exact hs.serverSrchCommitCompact ht
  | reclaimRid rid => exact hs.reclaimRid

/-! The commit writes the active bank of `server->alloc` into the super block, then flips
the banks: neither moves a block, and the super block it writes holds the server's
allocators. -/

theorem pool_writeBank (t : State) :
    ({ t with super := { t.super with
        serverMetaAvail := update t.super.serverMetaAvail (!t.otherInd) t.allocAvail,
        serverMetaFreed := update t.super.serverMetaFreed (!t.otherInd) t.allocFreed } } : State).pool =
      t.pool := by
  funext o
  cases o <;> simp [State.pool, Super.pool, Function.update_apply] <;> split_ifs <;> simp_all

/-- After the super block is written the server flips to the other bank: the running
server's allocators are the same blocks as before the write, and the super block written
holds them. -/
theorem Apart.bankFlipped {u : State} (h : Apart u.pool) :
    let s := { u with super := { u.super with
      serverMetaAvail := update u.super.serverMetaAvail (!u.otherInd) u.allocAvail,
      serverMetaFreed := update u.super.serverMetaFreed (!u.otherInd) u.allocFreed } }
    let s := { s with disk := s.super }
    let o := !s.otherInd
    let s := { s with otherInd := o, allocAvail := s.super.serverMetaAvail (!o),
                      allocFreed := s.super.serverMetaFreed (!o) }
    Apart s.pool ∧ Apart s.disk.pool := by
  refine ⟨h.mono fun o => le_of_eq ?_, h.mono fun o => le_of_eq ?_⟩ <;>
    cases o <;> simp [State.pool, Super.pool, Function.update_apply] <;> split_ifs <;> simp_all

/-- The commit moves blocks from `meta_avail` to `other_avail` and from `other_freed` to
`meta_freed`, and the super block it writes holds the server's allocators. -/
theorem Apart.serverCommitFunc (h : Apart s.pool) (hd : Apart s.disk.pool) :
    Apart (serverCommitFunc L c s).1.pool ∧ Apart (serverCommitFunc L c s).1.disk.pool := by
  unfold Pools.serverCommitFunc
  lift_lets
  intro m₁ t m₂ u _ w _ _ _
  have ht : Apart t.pool := by
    rw [pool_fillOtherAvail]
    exact h.move _ _ _ (c.moved_subset _ _ _)
  have hu : Apart u.pool := by
    rw [pool_emptyOtherFreed]
    exact ht.move _ _ _ (by simpa [State.pool, State.otherFreed] using c.moved_subset _ _ _)
  have hw : Apart w.pool := (pool_writeBank u).symm ▸ hu
  split_ifs
  · exact ⟨h, hd⟩
  · exact ⟨ht, hd⟩
  · exact ⟨hu, hd⟩
  · exact ⟨hu, hd⟩
  · exact ⟨hw, hd⟩
  all_goals exact Apart.bankFlipped hu

/-- The reply touches no allocator and not the disk. -/
theorem reply_frame {h : Nat} {r : Int} : (reply h r s).pool = s.pool ∧ (reply h r s).disk = s.disk := by
  unfold reply
  repeat' split
  all_goals exact ⟨rfl, rfl⟩

end Handlers

/-! ## Trusted runs -/

/-- No block in two allocators of the server, nor of the super block on disk. -/
def AllApart (s : State) : Prop := Apart s.pool ∧ Apart s.disk.pool

/-- The handlers of the runs `trusted_pools_apart` covers: a body runs only when it is
`Trusted`, and waits otherwise. -/
def trustedHandlers (L : Limits) : Handlers State Request Calls Calls Unit :=
  (handlers L).restrict fun h c s => (s.req h).all (Trusted s c)

section Trusted

variable {L : Limits} {s s' : Server State Unit} {l : Label Request Calls Calls}

theorem trustedHandlers_act {h : Nat} {c : Calls} {m m' : State}
    (hm : (trustedHandlers L).act h c m = some m') : ∃ q, Trusted m c q = true ∧ m' = body L h c m q := by
  simp only [trustedHandlers, Handlers.restrict, handlers] at hm
  split_ifs at hm with ht
  split at hm
  · rename_i q hq _
    simp only [hq, Option.all_some] at ht
    exact ⟨q, ht, (Option.some.inj hm).symm⟩
  · cases hm

/-- A step of a trusted run keeps the allocators apart. -/
theorem AllApart.step (hi : AllApart s.mem) (hs : Commit.step (trustedHandlers L) s l = some s') :
    AllApart s'.mem := by
  rcases step_effect hs with ⟨hm, -⟩ | ⟨h, q, hm, -⟩ | ⟨h, c, hm, -⟩ | ⟨h, r, hm, -⟩ | ⟨c, hm, -⟩ |
    ⟨h, r, hm, -⟩
  · rw [hm]; exact hi
  · simp only [trustedHandlers, Handlers.restrict, handlers] at hm
    split_ifs at hm
    rw [← Option.some.inj hm]
    exact hi
  · obtain ⟨q, ht, hm⟩ := trustedHandlers_act hm
    rw [hm, AllApart, (body_frame q).2, handled_disk ht]
    exact ⟨hi.1.body ht, hi.2⟩
  · rw [hm, AllApart]
    simp only [trustedHandlers, Handlers.restrict, handlers]
    rw [reply_frame.1, reply_frame.2]
    exact hi
  · rw [hm]
    exact Apart.serverCommitFunc hi.1 hi.2
  · rw [hm]; exact hi

/-- The server started from a super block holds that block's allocators. -/
theorem pool_startup (d : Super) (g : Nat → Option LogTrees) (gs : Nat → Option SrchCompact) :
    (startup d g gs).pool = d.pool := by
  funext o
  cases o <;> try rfl
  all_goals
    simp only [State.pool, startup]
    split_ifs <;> simp_all [Super.pool]

/-- A fresh volume's allocators are apart when its metadata and data blocks are. -/
theorem mkfs_apart {meta data : Finset Nat} (h : Disjoint meta data) : Apart (mkfs meta data).pool := by
  have ho : Owns (mkfs meta data).pool fun b =>
      if b ∈ meta then some (.metaAlloc false) else if b ∈ data then some .dataAlloc else none := by
    intro o b hb
    cases o with
    | metaAlloc i => cases i <;> simp_all [Super.pool, mkfs]
    | dataAlloc =>
      simp only [Super.pool, mkfs] at hb
      simp [hb, Finset.disjoint_right.1 h hb]
    | _ => simp [Super.pool, mkfs] at hb
  exact ho.apart

/-- Every trusted run from a super block whose allocators are apart keeps apart the
allocators of the server and those of the super block on disk. -/
theorem trusted_pools_apart {d : Super} (hd : Apart d.pool) (g : Nat → Option LogTrees)
    (gs : Nat → Option SrchCompact) (hr : Reachable (trustedHandlers L) (startup d g gs) s) :
    Apart s.mem.pool ∧ Apart s.mem.disk.pool := by
  induction hr with
  | init =>
    show Apart (startup d g gs).pool ∧ Apart d.pool
    rw [pool_startup]
    exact ⟨hd, hd⟩
  | step l _ hs ih => exact AllApart.step ih hs

/-- A volume of one metadata block and one data block: mount 1 is given block 1 and hands
it back freed, and the commit after each request writes the super block. -/
theorem mkfs_trusted_apart :
    Apart (mkfs {1} {2}).pool ∧
      ∃ s, Commit.run (trustedHandlers ⟨0, 0⟩)
          (Commit.init (startup (mkfs {1} {2}) (fun _ => none) (fun _ => none)))
          (served 1 (.getLogTrees 1) (completes {1}) ++
            served 2 (.commitLogTrees 1 ⟨∅, {1}, ∅, ∅⟩) (completes ∅)) = some s ∧
        s.mem.disk.logTrees 1 = some ⟨∅, {1}, ∅, ∅⟩ ∧ Apart s.mem.pool ∧ Apart s.mem.disk.pool := by
  have hd : Apart (mkfs {1} {2}).pool := mkfs_apart (by decide)
  obtain ⟨s, hs, hdisk⟩ : ∃ s, Commit.run (trustedHandlers ⟨0, 0⟩)
      (Commit.init (startup (mkfs {1} {2}) (fun _ => none) (fun _ => none)))
      (served 1 (.getLogTrees 1) (completes {1}) ++
        served 2 (.commitLogTrees 1 ⟨∅, {1}, ∅, ∅⟩) (completes ∅)) = some s ∧
      s.mem.disk.logTrees 1 = some ⟨∅, {1}, ∅, ∅⟩ := ⟨_, by with_unfolding_all rfl, by with_unfolding_all decide⟩
  exact ⟨hd, s, hs, hdisk, trusted_pools_apart hd _ _ (Reachable.run _ .init hs)⟩

end Trusted

end Scoutfs.Pools
