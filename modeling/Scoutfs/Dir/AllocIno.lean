import Scoutfs.Dir.Invariant

/-!
# `scoutfs_alloc_ino` under every interleaving

A mount hands out inode numbers from a batch, `sbi->next_ino` and
`sbi->next_ino_count`, which `get_next_ino_batch` refills from `super.next_ino`.
Several tasks call `scoutfs_alloc_ino` at once. Each `next_ino_lock` section is
atomic, and the read of `next_ino_count` at the top of the loop takes no lock, so it
may see any value: a task may call `get_next_ino_batch` with a batch in hand, or go
to the take section with none. The model is the shared allocator, the place of each
call (`Pc`) and one action per atomic step of any call (`Act`); every interleaving is
a list of actions (`run`). Run alone, the sections give what `allocIno` computes in
one pass (`run_alone`).

`step_cases` says once what one section can do, and every proof about steps starts
from it. Over every interleaving of any number of calls, `Inv` holds (`Inv.run`): the batch
ends at or below `super.next_ino`, which stays a `u64`; every number handed out lies
below `sbi->next_ino`, so no number is handed out twice; and the numbers the calls
returned are the numbers handed out. `super.next_ino` only grows, by
`SCOUTFS_INO_BATCH` at a time and without wrapping (`Inv.step_superNext`).
`alloc_ino_interleavings` puts these together for the calls' results.
-/

namespace Scoutfs.AllocIno

open Scoutfs.Dir (Format InoAlloc getNextInoBatch allocIno demoFormat)

/-- Where a call of `scoutfs_alloc_ino` is. -/
inductive Pc where
  /-- at the top of the loop, before the unlocked read of `next_ino_count` -/
  | start
  /-- about to call `get_next_ino_batch` -/
  | batch
  /-- about to take `next_ino_lock` for the take section -/
  | take
  /-- returned `r` -/
  | done (r : Except Int Nat)

/-- The number a call returned, once it has returned one. -/
def Pc.result : Pc → Option Nat
  | .done (.ok x) => some x
  | _ => none

/-- The allocator, the calls, and the numbers handed out so far, in order. -/
structure Sys where
  alloc : InoAlloc
  calls : List Pc
  handed : List Nat

/-- One atomic step of call `i`. -/
inductive Act where
  /-- the unlocked read of `next_ino_count`, seeing zero or not -/
  | read (i : Nat) (seesZero : Bool)
  /-- `get_next_ino_batch`, `lock` being whether the write lock was granted -/
  | batch (i : Nat) (lock : Bool)
  /-- the take section under `next_ino_lock` -/
  | take (i : Nat)

/-- Where the unlocked read of `next_ino_count` sends a call: to `get_next_ino_batch`
when it sees zero, to the take section otherwise. -/
def readNext (seesZero : Bool) : Pc := if seesZero then .batch else .take

/-- Where a call goes after `get_next_ino_batch` returned `ret`: out of the loop with the
error, or on to the take section. -/
def batchNext (ret : Int) : Pc := if ret ≠ 0 then .done (.error ret) else .take

@[simp] theorem result_readNext (z : Bool) : (readNext z).result = none := by
  cases z <;> rfl

@[simp] theorem result_batchNext (ret : Int) : (batchNext ret).result = none := by
  unfold batchNext; split <;> rfl

/-- The take section of `scoutfs_alloc_ino`: the next number of the batch, or `-EAGAIN`. -/
def takeIno (a : InoAlloc) : InoAlloc × Except Int Nat :=
  if a.count ≠ 0 then ({ a with next := a.next + 1, count := a.count - 1 }, .ok a.next)
  else (a, .error (- EAGAIN))

variable (F : Format)

/-- One atomic step; a step of a call that is not at that place does nothing. A failed
`get_next_ino_batch` returns its error, and `-EAGAIN` from the take section goes back
to the top of the loop. -/
def step (s : Sys) : Act → Sys
  | .read i z =>
    match s.calls[i]? with
    | some .start => { s with calls := s.calls.set i (readNext z) }
    | _ => s
  | .batch i lock =>
    match s.calls[i]? with
    | some .batch =>
      let r := getNextInoBatch F lock s.alloc
      { s with alloc := r.1, calls := s.calls.set i (batchNext r.2) }
    | _ => s
  | .take i =>
    match s.calls[i]? with
    | some .take =>
      match takeIno s.alloc with
      | (a, .ok x) => { alloc := a, calls := s.calls.set i (.done (.ok x)), handed := s.handed ++ [x] }
      | (a, .error _) => { s with alloc := a, calls := s.calls.set i .start }
    | _ => s

/-- An interleaving of atomic steps. -/
def run (s : Sys) (acts : List Act) : Sys := acts.foldl (step F) s

/-- `n` calls at the top of their loops, from the allocator `a`. -/
def starting (a : InoAlloc) (n : Nat) : Sys := ⟨a, List.replicate n .start, []⟩

/-! ## The calls' results -/

section Results

variable {f : Pc → Option Nat}

/-- Moving a call between two places where it has no result leaves the results alone. -/
theorem filterMap_set_of_none : ∀ {l : List Pc} {i : Nat} {b a : Pc}, l[i]? = some b → f b = none →
    f a = none → (l.set i a).filterMap f = l.filterMap f
  | [], _, _, _, h, _, _ => by simp at h
  | c :: l, 0, b, a, h, hb, ha => by
    obtain rfl : c = b := by simpa using h
    simp [List.filterMap_cons, hb, ha]
  | c :: l, i + 1, b, a, h, hb, ha => by
    simp only [List.set_cons_succ, List.filterMap_cons]
    rw [filterMap_set_of_none (by simpa using h) hb ha]

/-- A call that returns `x` adds `x` to the results. -/
theorem filterMap_set_perm {x : Nat} : ∀ {l : List Pc} {i : Nat} {b a : Pc}, l[i]? = some b → f b = none →
    f a = some x → ((l.set i a).filterMap f).Perm (l.filterMap f ++ [x])
  | [], _, _, _, h, _, _ => by simp at h
  | c :: l, 0, b, a, h, hb, ha => by
    obtain rfl : c = b := by simpa using h
    simpa [List.filterMap_cons, hb, ha] using (List.perm_append_singleton x _).symm
  | c :: l, i + 1, b, a, h, hb, ha => by
    simp only [List.set_cons_succ, List.filterMap_cons]
    have ih := filterMap_set_perm (l := l) (by simpa using h) hb ha
    cases f c with
    | none => exact ih
    | some y => exact ih.cons y

end Results

/-! ## The invariant -/

/-- `get_next_ino_batch` keeps the batch within `super.next_ino`, which stays a `u64`,
never moves `sbi->next_ino` down, and moves `super.next_ino` up by a batch or not at
all. -/
theorem getNextInoBatch_within {a : InoAlloc} (ha : a.next + a.count ≤ a.superNext)
    (hs : a.superNext ≤ U64_MAX) (lock : Bool) :
    (getNextInoBatch F lock a).1.next + (getNextInoBatch F lock a).1.count ≤ (getNextInoBatch F lock a).1.superNext ∧
      (getNextInoBatch F lock a).1.superNext ≤ U64_MAX ∧ a.next ≤ (getNextInoBatch F lock a).1.next ∧
      ((getNextInoBatch F lock a).1.superNext = a.superNext ∨
        (getNextInoBatch F lock a).1.superNext = a.superNext + F.inoBatch) := by
  cases lock
  · exact ⟨ha, hs, le_refl _, .inl rfl⟩
  by_cases hc : a.count = 0
  · simp only [getNextInoBatch, if_true, if_pos hc]
    by_cases hw : le64AddCpu a.superNext F.inoBatch < a.superNext
    · simp only [if_pos hw, true_or, and_true]
      omega
    · have hfit := add_le_of_not_le64AddCpu_lt hs F.inoBatch_le hw
      simp only [if_neg hw]
      rw [le64AddCpu_of_le hfit]
      omega
  · simp only [getNextInoBatch, if_true, if_neg hc, true_or, and_true]
    omega

/-- What holds between the atomic sections of any interleaving. -/
structure Inv (s : Sys) : Prop where
  superNext_le : s.alloc.superNext ≤ U64_MAX
  /-- `sbi->next_ino + sbi->next_ino_count <= super.next_ino` -/
  within : s.alloc.next + s.alloc.count ≤ s.alloc.superNext
  /-- every number handed out lies below `sbi->next_ino` -/
  below : ∀ x ∈ s.handed, x < s.alloc.next
  nodup : s.handed.Nodup
  /-- the numbers the calls returned are the numbers handed out -/
  results : (s.calls.filterMap Pc.result).Perm s.handed

variable {F} {s : Sys}

theorem inv_starting {a : InoAlloc} (ha : a.next + a.count ≤ a.superNext) (hs : a.superNext ≤ U64_MAX) (n : Nat) :
    Inv (starting a n) :=
  ⟨hs, ha, by simp [starting], List.nodup_nil, by simp [starting, List.filterMap_replicate, Pc.result]⟩

/-- **What one atomic step can do**: nothing, when the call is not at the step's place;
the unlocked read; `get_next_ino_batch`; or the take section, which hands out
`sbi->next_ino` when the batch is not empty and sends the call back to the top of the
loop when it is. -/
theorem step_cases (s : Sys) (act : Act) :
    Scoutfs.AllocIno.step F s act = s ∨
    (∃ i z, s.calls[i]? = some .start ∧
      Scoutfs.AllocIno.step F s act = { s with calls := s.calls.set i (readNext z) }) ∨
    (∃ i lock, s.calls[i]? = some .batch ∧
      Scoutfs.AllocIno.step F s act =
        { s with alloc := (getNextInoBatch F lock s.alloc).1,
                 calls := s.calls.set i (batchNext (getNextInoBatch F lock s.alloc).2) }) ∨
    (∃ i, s.calls[i]? = some .take ∧ s.alloc.count ≠ 0 ∧
      Scoutfs.AllocIno.step F s act =
        { alloc := { s.alloc with next := s.alloc.next + 1, count := s.alloc.count - 1 },
          calls := s.calls.set i (.done (.ok s.alloc.next)), handed := s.handed ++ [s.alloc.next] }) ∨
    (∃ i, s.calls[i]? = some .take ∧ s.alloc.count = 0 ∧
      Scoutfs.AllocIno.step F s act = { s with calls := s.calls.set i .start }) := by
  rcases act with ⟨i, z⟩ | ⟨i, lock⟩ | i <;> simp only [Scoutfs.AllocIno.step] <;>
    rcases hi : s.calls[i]? with _ | (_ | _ | _ | _) <;> try exact .inl rfl
  · exact .inr (.inl ⟨i, z, hi, rfl⟩)
  · exact .inr (.inr (.inl ⟨i, lock, hi, rfl⟩))
  · by_cases hc : s.alloc.count = 0
    · exact .inr (.inr (.inr (.inr ⟨i, hi, hc, by simp [takeIno, hc]⟩)))
    · exact .inr (.inr (.inr (.inl ⟨i, hi, hc, by simp [takeIno, hc]⟩)))

/-- Every atomic step keeps the invariant. -/
theorem Inv.step (h : Inv s) (act : Act) : Inv (Scoutfs.AllocIno.step F s act) := by
  rcases step_cases s act with e | ⟨i, z, hi, e⟩ | ⟨i, lock, hi, e⟩ | ⟨i, hi, hc, e⟩ | ⟨i, hi, hc, e⟩ <;>
    rw [e]
  case inl => exact h
  case inr.inl =>
    exact { h with results := by rw [filterMap_set_of_none hi rfl (result_readNext z)]; exact h.results }
  case inr.inr.inl =>
    obtain ⟨hw, hs, hn, -⟩ := getNextInoBatch_within F h.within h.superNext_le lock
    refine ⟨hs, hw, fun x hx => (h.below x hx).trans_le hn, h.nodup, ?_⟩
    rw [filterMap_set_of_none hi rfl (result_batchNext _)]
    exact h.results
  case inr.inr.inr.inl =>
    have hw := h.within
    refine ⟨h.superNext_le, by simp only; omega, fun x hx => ?_, ?_, ?_⟩
    · rcases List.mem_append.1 hx with hx | hx
      · exact Nat.lt_succ_of_lt (h.below x hx)
      · rw [List.mem_singleton.1 hx]
        exact Nat.lt_succ_self _
    · simpa using h.nodup.concat fun hm => lt_irrefl _ (h.below _ hm)
    · exact (filterMap_set_perm hi rfl rfl).trans (h.results.append_right _)
  case inr.inr.inr.inr =>
    exact { h with results := by rw [filterMap_set_of_none hi rfl rfl]; exact h.results }

/-- `super.next_ino` grows by a batch or stays. -/
theorem Inv.step_superNext (h : Inv s) (act : Act) :
    (Scoutfs.AllocIno.step F s act).alloc.superNext = s.alloc.superNext ∨
      (Scoutfs.AllocIno.step F s act).alloc.superNext = s.alloc.superNext + F.inoBatch := by
  rcases step_cases s act with e | ⟨i, z, -, e⟩ | ⟨i, lock, -, e⟩ | ⟨i, -, -, e⟩ | ⟨i, -, -, e⟩ <;>
    rw [e]
  case inr.inr.inl => exact (getNextInoBatch_within F h.within h.superNext_le lock).2.2.2
  all_goals exact .inl rfl

/-- The invariant holds after every interleaving. -/
theorem Inv.run (h : Inv s) (acts : List Act) : Inv (run F s acts) := by
  induction acts generalizing s with
  | nil => exact h
  | cons act acts ih => exact ih (h.step act)

/-! ## One call alone -/

/-- **A call run alone is `allocIno`.** With no other call between its sections, the
unlocked read sees the true count, and the call takes the sections of one pass of
`scoutfs_alloc_ino` as `allocIno` computes it: the same allocator, the same result, and
the number it returned, if any, handed out. -/
theorem run_alone (a : InoAlloc) (lock : Bool) :
    run F (starting a 1) [.read 0 (decide (a.count = 0)), .batch 0 lock, .take 0] =
      ⟨(allocIno F lock a).1, [.done (allocIno F lock a).2], (allocIno F lock a).2.toOption.toList⟩ := by
  by_cases hc : a.count = 0
  · by_cases hw : le64AddCpu a.superNext F.inoBatch < a.superNext <;> cases lock <;>
      simp [run, starting, Scoutfs.AllocIno.step, readNext, batchNext, allocIno, getNextInoBatch, takeIno,
        Except.toOption, hc, hw, EIO, ENOSPC, F.inoBatch_pos.ne']
  · simp [run, starting, Scoutfs.AllocIno.step, readNext, allocIno, takeIno, Except.toOption, hc]

/-! ## Every interleaving -/

/-- **`scoutfs_alloc_ino` under every interleaving.** From any allocator whose batch lies
within `super.next_ino`, take `n` calls and any interleaving `acts` of their atomic
sections, the unlocked reads seeing whatever they see and each write lock granted or
not (a call that starts later is one whose first section comes later). In the state
`s` it reaches, the numbers the calls returned are pairwise distinct, each below
`super.next_ino`; the batch lies within `super.next_ino`, which is still a `u64`; and
the next section moves `super.next_ino` up by exactly `SCOUTFS_INO_BATCH` or leaves it,
so it never decreases or wraps. -/
theorem alloc_ino_interleavings {a₀ : InoAlloc} (h₀ : a₀.next + a₀.count ≤ a₀.superNext)
    (hs : a₀.superNext ≤ U64_MAX) (n : Nat) (acts : List Act) {s : Sys}
    (hrun : run F (starting a₀ n) acts = s) :
    (s.calls.filterMap Pc.result).Nodup ∧
      (∀ x ∈ s.calls.filterMap Pc.result, x < s.alloc.superNext) ∧
      s.alloc.next + s.alloc.count ≤ s.alloc.superNext ∧ s.alloc.superNext ≤ U64_MAX ∧
      ∀ act, (Scoutfs.AllocIno.step F s act).alloc.superNext = s.alloc.superNext ∨
        (Scoutfs.AllocIno.step F s act).alloc.superNext = s.alloc.superNext + F.inoBatch := by
  subst hrun
  have h := (inv_starting h₀ hs n).run (F := F) acts
  refine ⟨h.results.nodup_iff.2 h.nodup, fun x hx => ?_, h.within, h.superNext_le, h.step_superNext⟩
  have hx := h.below x (h.results.mem_iff.1 hx)
  have hw := h.within
  omega

/-- Two calls on a mount with no batch in hand, both of whose unlocked reads see zero:
both call `get_next_ino_batch`, and the second finds the batch the first took. -/
def raceActs : List Act := [.read 0 true, .read 1 true, .batch 0 true, .batch 1 true, .take 1, .take 0]

theorem alloc_ino_interleavings_race :
    (run demoFormat (starting ⟨0, 0, 10⟩ 2) raceActs).calls.filterMap Pc.result = [11, 10] ∧
      ((run demoFormat (starting ⟨0, 0, 10⟩ 2) raceActs).calls.filterMap Pc.result).Nodup ∧
      (run demoFormat (starting ⟨0, 0, 10⟩ 2) raceActs).alloc.superNext = 26 :=
  ⟨by decide, (alloc_ino_interleavings (by decide) (by decide) 2 raceActs rfl).1, by decide⟩

end Scoutfs.AllocIno
