import Scoutfs.Server.TransSeq

/-!
# The cursor loop of `remove_trans_seq_locked`

`remove_trans_seq_locked` does not walk the items of `trans_seqs` by position. It
keeps a key, from `init_trans_seq_key(&key, 0, 0)`, asks `scoutfs_btree_next` for the
first item at or after it, deletes that item when its rid is the caller's, and moves
the key past it with `scoutfs_key_inc`. The loop has no bound of its own; `removeLoop`
runs it on fuel, as the code writes it.

`key.h` is not in the sources, and the model takes `scoutfs_key_inc` to give the
lexicographic successor key. A key here holds what the code sets, `skts_trans_seq` and
`skts_rid`; the fields after them, zero in every item, are left out. The successor of
an item's key lies after it and at or before every later item's key, and
`⟨seq, rid + 1⟩` has exactly those items at or after it (`Key.lt_inc_iff`), an
`rid + 1` of `2 ^ 64` standing for the carry past `skts_rid`. Termination rests on
that fact alone: the items at or after the key lose one each pass.

Over every tree in key order, with one more pass of fuel than there are items the loop
returns, and it returns what `removeTransSeqLocked`, the item-by-item loop the other
modules reason with, computes (`removeLoop_eq`). So on 0 the tree has lost exactly
the rid's items, and on an error some of them (`remove_trans_seq_locked_loop`).
-/

namespace Scoutfs.TransSeq

/-- `scoutfs_key_inc` on the key of a `trans_seqs` item. -/
def Key.inc (k : Key) : Key := ⟨k.seq, k.rid + 1⟩

/-- The successor property: a key is before `k.inc` iff it is not after `k`. -/
theorem Key.lt_inc_iff {k k' : Key} : k'.lt k.inc ↔ ¬ k.lt k' := by
  simp only [Key.lt, Key.inc]
  omega

theorem Key.lt_inc_of_lt {x k : Key} (h : x.lt k) : x.lt k.inc :=
  Key.lt_inc_iff.2 fun h' => by unfold Key.lt at h h'; omega

theorem Key.lt_inc_self (k : Key) : k.lt k.inc :=
  Key.lt_inc_iff.2 fun h => by unfold Key.lt at h; omega

/-- `scoutfs_btree_next` on `trans_seqs`: the first item at or after `key`. -/
def btreeNext (items : List Key) (key : Key) : Option Key :=
  items.find? fun k => !decide (k.lt key)

/-- The loop of `remove_trans_seq_locked` from the key `key`, run for at most `fuel`
passes: `some` of the items left, `ret` and the budget left once it breaks out, `none`
while it is still running. `-ENOENT` from `scoutfs_btree_next` ends it with 0. -/
def removeLoop (rid : Nat) : Nat → List Key → Key → Option Nat → Option (List Key × Int × Option Nat)
  | 0, _, _, _ => none
  | fuel + 1, items, key, b =>
    match btreeCall b with
    | none => some (items, - EIO, b)
    | some b =>
      match btreeNext items key with
      | none => some (items, 0, b)
      | some k =>
        if k.rid = rid then
          match btreeCall b with
          | none => some (items, - EIO, b)
          | some b => removeLoop rid fuel (items.erase k) k.inc b
        else removeLoop rid fuel items k.inc b

/-! ## The loop computes `removeTransSeqLocked` -/

section Loop

variable {before after : List Key} {key : Key}

/-- With the items before `key` all below it, `scoutfs_btree_next` finds the first of
the items after. -/
theorem btreeNext_split (hb : ∀ k ∈ before, k.lt key) (ha : ∀ k ∈ after, ¬ k.lt key) :
    btreeNext (before ++ after) key = after.head? := by
  have hnone : before.find? (fun k => !decide (k.lt key)) = none :=
    List.find?_eq_none.2 fun k hk => by simpa using hb k hk
  cases after with
  | nil => simp [btreeNext, hnone]
  | cons k ks => simp [btreeNext, List.find?_append, hnone, ha k (List.mem_cons_self k ks)]

/-- **The cursor loop refines the item-by-item loop.** From a key with the items
`before` below it and `after` at or past it, a tree in key order, and more fuel than
items ahead, the loop returns what `removeTransSeqLocked` returns on `after`, with
`before` left in front. -/
theorem removeLoop_eq (rid : Nat) :
    ∀ {after : List Key} {before : List Key} {key : Key} (fuel : Nat) (b : Option Nat),
      (before ++ after).Pairwise Key.lt → (∀ k ∈ before, k.lt key) → (∀ k ∈ after, ¬ k.lt key) →
      after.length < fuel →
      removeLoop rid fuel (before ++ after) key b =
        some (before ++ (removeTransSeqLocked rid after b).1, (removeTransSeqLocked rid after b).2)
  | [], before, key, fuel + 1, b, _, hb, ha, _ => by
    simp only [removeLoop, btreeNext_split hb ha, List.head?_nil, removeTransSeqLocked]
    cases btreeCall b <;> simp
  | k :: ks, before, key, fuel + 1, b, hs, hb, ha, hf => by
    obtain ⟨-, hsa, hlt⟩ := List.pairwise_append.1 hs
    have hk : ∀ y ∈ ks, k.lt y := (List.pairwise_cons.1 hsa).1
    have hb' : ∀ x ∈ before, x.lt k.inc := fun x hx => Key.lt_inc_of_lt (hlt x hx k (List.mem_cons_self k ks))
    have ha' : ∀ y ∈ ks, ¬ y.lt k.inc := fun y hy h => Key.lt_inc_iff.1 h (hk y hy)
    have hf' : ks.length < fuel := by simpa using hf
    simp only [removeLoop, btreeNext_split hb ha, List.head?_cons, removeTransSeqLocked]
    cases btreeCall b with
    | none => rfl
    | some b₁ =>
      by_cases hr : k.rid = rid
      · -- the item is the rid's: `scoutfs_btree_delete`, then on past it
        simp only [if_pos hr]
        cases btreeCall b₁ with
        | none => rfl
        | some b₂ =>
          have hnk : k ∉ before := fun hm => ha k (List.mem_cons_self k ks) (hb k hm)
          rw [List.erase_append_right _ hnk, List.erase_cons_head]
          exact removeLoop_eq rid fuel b₂ (hs.sublist ((List.sublist_cons_self k ks).append_left before)) hb' ha' hf'
      · -- another rid's item: the key moves past it
        simp only [if_neg hr]
        have hbk : ∀ x ∈ before ++ [k], x.lt k.inc := fun x hx => by
          rcases List.mem_append.1 hx with hx | hx
          exacts [hb' x hx, List.mem_singleton.1 hx ▸ Key.lt_inc_self k]
        have h := @removeLoop_eq rid ks (before ++ [k]) k.inc fuel b₁ (by simpa using hs) hbk ha' hf'
        simpa using h
  | _, _, _, 0, _, _, _, _, hf => absurd hf (Nat.not_lt_zero _)

end Loop

/-! ## Every tree -/

/-- **`remove_trans_seq_locked` ends, and removes only the rid's items.** For every
`trans_seqs` tree, its items in key order, every rid and every budget of btree calls,
the loop from `init_trans_seq_key(&key, 0, 0)` returns the same `r` for any fuel above
the number of items. When `r` returns 0 the tree is the original less exactly the items
whose rid is `rid`; on an error it is the original less some of those items. -/
theorem remove_trans_seq_locked_loop (rid : Nat) {items : List Key} (hs : items.Pairwise Key.lt)
    (b : Option Nat) :
    ∃ r : List Key × Int × Option Nat,
      (∀ fuel, items.length < fuel → removeLoop rid fuel items ⟨0, 0⟩ b = some r) ∧
      (r.2.1 = 0 → r.1 = items.filter fun k => k.rid ≠ rid) ∧
      (r.2.1 ≠ 0 → ∃ removed : List Key, (∀ k ∈ removed, k ∈ items ∧ k.rid = rid) ∧
        r.1 = items.filter fun k => k ∉ removed) := by
  have hn : items.Nodup := hs.imp fun h e => by subst e; simp [Key.lt] at h
  refine ⟨removeTransSeqLocked rid items b, fun fuel hf => ?_, removeTransSeqLocked_ok_items rid items b,
    fun _ => removeTransSeqLocked_removes rid b hn⟩
  simpa using @removeLoop_eq rid items [] ⟨0, 0⟩ fuel b (by simpa using hs) (by simp)
    (fun k _ => by simp [Key.lt]) hf

/-- Items of rids 7, 3 and 7, in key order. -/
def mixedItems : List Key := [⟨1, 7⟩, ⟨2, 3⟩, ⟨3, 7⟩]

/-- With three btree calls to spend, removing rid 7 deletes its first item, steps past
rid 3's and fails on the next lookup, keeping the second item of rid 7. -/
theorem remove_trans_seq_locked_loop_mixed :
    removeLoop 7 4 mixedItems ⟨0, 0⟩ (some 3) = some ([⟨2, 3⟩, ⟨3, 7⟩], - EIO, some 0) ∧
      ∃ removed : List Key, (∀ k ∈ removed, k ∈ mixedItems ∧ k.rid = 7) ∧
        [⟨2, 3⟩, ⟨3, 7⟩] = mixedItems.filter fun k => k ∉ removed := by
  obtain ⟨r, hr, -, herr⟩ := remove_trans_seq_locked_loop 7 (show mixedItems.Pairwise Key.lt by decide) (some 3)
  have hrun : removeLoop 7 4 mixedItems ⟨0, 0⟩ (some 3) = some ([⟨2, 3⟩, ⟨3, 7⟩], - EIO, some 0) := by decide
  obtain rfl := Option.some.inj ((hr 4 (by decide)).symm.trans hrun)
  exact ⟨hrun, herr (by decide)⟩

end Scoutfs.TransSeq
