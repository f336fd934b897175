import Mathlib.Data.List.Sort
import Scoutfs.Basic

/-!
# The recovery scan of `start_recovery`

As the server starts, `start_recovery` walks the `mounted_clients` btree of the
super block with `scoutfs_btree_next` from rid 0, calls `scoutfs_recov_prepare` for
each item it finds, and moves past the item with `rid++`. `btree.c` and `recov.c` are
not in the sources: the btree is the list of its rids in key order,
`scoutfs_btree_next` returns the first rid at or after the key, and the error of each
btree read and the result of each `scoutfs_recov_prepare` are inputs. The loop has no
bound of its own, so it is run with fuel, and it terminates when some fuel ends it.

Without an item at `U64_MAX` the scan ends after one lookup per item and one more,
having called `scoutfs_recov_prepare` once for each rid in increasing order, with
`nr` the number of items modulo the width of its `unsigned int`
(`recoveryScan_complete`). With an item at `U64_MAX`, every lookup finds an item and
the `rid++` after `U64_MAX` wraps to 0, so the scan starts over and no fuel ends it
(`recoveryScan_of_max`).
-/

namespace Scoutfs.Recovery

/-- The `mounted_clients` btree: the rids of its items, in key order. -/
structure MountedClients where
  rids : List Nat
  sorted : rids.Sorted (· < ·)
  lt : ∀ r ∈ rids, r < 2 ^ 64

/-- `scoutfs_btree_next` on `mounted_clients` from the key of `rid`: the first item at
or after it, `-ENOENT` past the last, or the read's error `err rid`. -/
def btreeNext (t : MountedClients) (err : Nat → Int) (rid : Nat) : Except Int Nat :=
  if err rid ≠ 0 then .error (err rid)
  else match t.rids.find? (rid ≤ ·) with
    | some r => .ok r
    | none => .error (- ENOENT)

/-- The variables of the loop. -/
structure Scan where
  rid : Nat
  /-- `nr`, an `unsigned int` -/
  nr : Nat
  /-- the rids `scoutfs_recov_prepare` was called with, in order -/
  calls : List Nat

/-- The scan loop of `start_recovery`, run for at most `fuel` iterations: `some ret`
when the loop ends with `ret`, `none` while it is still running. `prepare r` is what
`scoutfs_recov_prepare` returns for `r`. -/
def recoveryScan (t : MountedClients) (err prepare : Nat → Int) : Nat → Scan → Option Int × Scan
  | 0, s => (none, s)
  | fuel + 1, s =>
    match btreeNext t err s.rid with
    | .error e => (some (if e = - ENOENT then 0 else e), s)
    | .ok r =>
      let s := { s with rid := r, calls := s.calls ++ [r] }
      if prepare r < 0 then (some (prepare r), s)
      else recoveryScan t err prepare fuel { s with rid := (r + 1) % 2 ^ 64, nr := (s.nr + 1) % 2 ^ 32 }

section Scan

variable {t : MountedClients} {err prepare : Nat → Int}

/-- With `U64_MAX` in the tree, a lookup that does not fail finds an item. -/
theorem btreeNext_of_max (hmax : U64_MAX ∈ t.rids) {rid : Nat} (herr : err rid = 0) (hrid : rid < 2 ^ 64) :
    ∃ r, btreeNext t err rid = .ok r ∧ r < 2 ^ 64 := by
  unfold btreeNext
  rw [if_neg (not_not.2 herr)]
  cases h : t.rids.find? (rid ≤ ·) with
  | none =>
    have := List.find?_eq_none.1 h U64_MAX hmax
    simp only [decide_eq_true_eq, not_le] at this
    unfold U64_MAX at this
    omega
  | some r => exact ⟨r, rfl, t.lt r (List.mem_of_find?_eq_some h)⟩

/-- **The scan never ends with `U64_MAX` in the tree**: while the lookups and
`scoutfs_recov_prepare` succeed, no fuel brings it to an end. -/
theorem recoveryScan_of_max (hmax : U64_MAX ∈ t.rids) (herr : ∀ k, err k = 0) (hp : ∀ r, 0 ≤ prepare r) :
    ∀ (fuel : Nat) (s : Scan), s.rid < 2 ^ 64 → (recoveryScan t err prepare fuel s).1 = none
  | 0, _, _ => rfl
  | fuel + 1, s, hs => by
    obtain ⟨r, hr, -⟩ := btreeNext_of_max hmax (herr s.rid) hs
    simp only [recoveryScan, hr, if_neg (not_lt.2 (hp r))]
    exact recoveryScan_of_max hmax herr hp fuel _ (Nat.mod_lt _ (Nat.two_pow_pos 64))

/-- The items after the first one at or past `m`, in a sorted tree. -/
theorem filter_succ_le {rid m : Nat} {ahead : List Nat} (h : t.rids.filter (rid ≤ ·) = m :: ahead) :
    t.rids.filter (m + 1 ≤ ·) = ahead := by
  have hs : (m :: ahead).Sorted (· < ·) := h ▸ t.sorted.filter _
  have hm : rid ≤ m := by
    have := List.of_mem_filter (show m ∈ t.rids.filter (rid ≤ ·) by rw [h]; exact List.mem_cons_self m ahead)
    simpa using this
  calc t.rids.filter (m + 1 ≤ ·)
      = (t.rids.filter (rid ≤ ·)).filter (m + 1 ≤ ·) := by
        rw [List.filter_filter]
        exact List.filter_congr fun x _ => by by_cases hx : m + 1 ≤ x <;> simp [hx]; omega
    _ = ahead := by
        rw [h, List.filter_cons_of_neg (by simp), List.filter_eq_self]
        exact fun x hx => by simpa using (List.sorted_cons.1 hs).1 x hx

/-- From a state whose items still ahead are `ahead`, the scan takes them in order. -/
theorem recoveryScan_ahead (hmax : U64_MAX ∉ t.rids) (herr : ∀ k, err k = 0) (hp : ∀ r, 0 ≤ prepare r) :
    ∀ (ahead : List Nat) (fuel : Nat) (s : Scan), t.rids.filter (s.rid ≤ ·) = ahead → ahead.length < fuel →
      s.nr < 2 ^ 32 → (recoveryScan t err prepare fuel s).1 = some 0 ∧
        (recoveryScan t err prepare fuel s).2.nr = (s.nr + ahead.length) % 2 ^ 32 ∧
        (recoveryScan t err prepare fuel s).2.calls = s.calls ++ ahead
  | [], fuel + 1, s, h, _, hn => by
    have hnone : t.rids.find? (s.rid ≤ ·) = none := by
      rw [List.find?_eq_none]
      simpa [List.filter_eq_nil_iff] using h
    simp only [recoveryScan, btreeNext, herr, ne_eq, not_true_eq_false, if_false, hnone, if_pos,
      List.length_nil, Nat.add_zero, Nat.mod_eq_of_lt hn, List.append_nil, and_self]
  | m :: ahead, fuel + 1, s, h, hf, _ => by
    have hmem : m ∈ t.rids := List.mem_of_mem_filter (h ▸ List.mem_cons_self m ahead)
    have hm : m + 1 < 2 ^ 64 := by
      have := t.lt m hmem
      have : m ≠ U64_MAX := fun e => hmax (e ▸ hmem)
      unfold U64_MAX at this
      omega
    have hfind : t.rids.find? (s.rid ≤ ·) = some m := by
      rw [← List.filter_head?, h]; rfl
    have ih := recoveryScan_ahead hmax herr hp ahead fuel
      { rid := (m + 1) % 2 ^ 64, nr := (s.nr + 1) % 2 ^ 32, calls := s.calls ++ [m] }
      (by rw [Nat.mod_eq_of_lt hm]; exact filter_succ_le h) (by simpa using hf) (Nat.mod_lt _ (Nat.two_pow_pos 32))
    simp only [recoveryScan, btreeNext, herr, ne_eq, not_true_eq_false, if_false, hfind,
      if_neg (not_lt.2 (hp m))]
    refine ⟨ih.1, ?_, ?_⟩
    · rw [ih.2.1]; simp only [List.length_cons]; omega
    · rw [ih.2.2]; simp

/-- **The scan without `U64_MAX`**: when the lookups and `scoutfs_recov_prepare`
succeed, the scan from rid 0 ends with 0 once it has one more iteration than the
tree has items, having called `scoutfs_recov_prepare` once for each rid in key
order, with `nr` the number of items as an `unsigned int`. -/
theorem recoveryScan_complete (hmax : U64_MAX ∉ t.rids) (herr : ∀ k, err k = 0) (hp : ∀ r, 0 ≤ prepare r)
    {fuel : Nat} (hf : t.rids.length < fuel) :
    (recoveryScan t err prepare fuel ⟨0, 0, []⟩).1 = some 0 ∧
      (recoveryScan t err prepare fuel ⟨0, 0, []⟩).2.nr = t.rids.length % 2 ^ 32 ∧
      (recoveryScan t err prepare fuel ⟨0, 0, []⟩).2.calls = t.rids := by
  simpa using recoveryScan_ahead hmax herr hp t.rids fuel ⟨0, 0, []⟩ (by simp) hf (Nat.two_pow_pos 32)

end Scan

/-- One mounted client, at rid `U64_MAX`. -/
def maxTree : MountedClients := ⟨[U64_MAX], List.sorted_singleton _, by simp [U64_MAX]⟩

/-- **`start_recovery` never ends on a mount at `U64_MAX`.** With one mounted client,
of rid `U64_MAX`, and every lookup and `scoutfs_recov_prepare` succeeding, no fuel
ends the scan, and after two iterations it has prepared `U64_MAX` twice. -/
theorem recovery_scan_wraps :
    (∀ fuel, (recoveryScan maxTree (fun _ => 0) (fun _ => 0) fuel ⟨0, 0, []⟩).1 = none) ∧
      (recoveryScan maxTree (fun _ => 0) (fun _ => 0) 2 ⟨0, 0, []⟩).2.calls = [U64_MAX, U64_MAX] :=
  ⟨fun fuel => recoveryScan_of_max (List.mem_singleton_self _) (fun _ => rfl) (fun _ => le_refl 0) fuel _
    (Nat.two_pow_pos 64), by decide⟩

end Scoutfs.Recovery
