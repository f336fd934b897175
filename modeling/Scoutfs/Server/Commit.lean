import Scoutfs.Basic

/-!
# Batched server commits

`scoutfs_server_hold_commit`, `scoutfs_server_apply_commit` and
`scoutfs_server_commit_func` as a transition system. A request handler takes
`commit_rwsem` shared, changes the in-memory super block, pushes a waiter on the
`commit_waiters` llist and queues `commit_work`, releases the rwsem and waits. The
one commit worker takes the rwsem exclusively, runs the commit, takes the whole
list with `llist_del_all`, completes every drained waiter with its one result and
releases the rwsem.

The model is generic in what the handlers and the commit do (`Handlers`): the
server state `σ`, the request `γ` a handler serves, the changes `α` it makes while
holding the commit, the outcomes `β` of the commit steps and the replies `ρ`.
The workqueue is the pending bit of `commit_work` plus the worker's position in
one run; a run starts only from `idle`, which is how a single work item behaves.
Every step appends to an event log, oldest first, and the ordering properties
are stated positionally over it.

For every reachable state `Inv` holds: the readers are exactly the handlers
holding or queued, nobody holds the commit while the worker does, every listed
waiter is listed once, and a non-empty waiter list always has a run that has not
yet drained it queued or running. `completed_after_write` then says that a
waiter completed with 0 had all its changes made before a super block write of
the run that completed it.
-/

namespace Scoutfs.Commit

open Function (update)

/-- Where a request handler stands around the shared commit. -/
inductive Phase where
  /-- not holding `commit_rwsem` -/
  | idle
  /-- after `scoutfs_server_hold_commit`, making its changes -/
  | holding
  /-- its waiter is on `commit_waiters` and `commit_work` queued; still holding -/
  | queued
  /-- after `up_read`, in `wait_for_completion` -/
  | waiting
  /-- `scoutfs_server_apply_commit` returned `r` -/
  | returned (r : Int)
  deriving DecidableEq, Repr

/-- Where the commit worker stands in one run of `scoutfs_server_commit_func`. -/
inductive Worker where
  | idle
  /-- running and blocked in `down_write` -/
  | blocked
  /-- holds `commit_rwsem` exclusively and runs the commit steps -/
  | writing
  /-- the commit steps ended with `r` -/
  | draining (r : Int)
  /-- `llist_del_all` returned `cws`, which it completes one by one with `r` -/
  | completing (r : Int) (cws : List Nat)
  deriving DecidableEq, Repr

namespace Worker

/-- The worker holds `commit_rwsem` for writing. -/
def exclusive : Worker → Bool
  | writing | draining _ | completing _ _ => true
  | _ => false

/-- Drained waiters not completed yet. -/
def drained : Worker → List Nat
  | completing _ cws => cws
  | _ => []

/-- A run is queued behind, or is running before, its `llist_del_all`. -/
def undrained : Worker → Bool
  | blocked | writing | draining _ => true
  | _ => false

/-- The result of the run's commit steps, once they have ended. -/
def result : Worker → Option Int
  | draining r | completing r _ => some r
  | _ => none

theorem exclusive_of_result {w : Worker} {r : Int} (h : w.result = some r) :
    w.exclusive = true := by
  cases w <;> simp_all [result, exclusive]

theorem exclusive_of_mem_drained {w : Worker} {h : Nat} (hm : h ∈ w.drained) :
    w.exclusive = true := by
  cases w <;> simp_all [drained, exclusive]

end Worker

/-- What the server log records. -/
inductive Event (σ ρ : Type) where
  /-- a handler changed the in-memory state while holding the commit -/
  | mutated (h : Nat)
  /-- `scoutfs_write_super` wrote `s` -/
  | wrote (s : σ)
  /-- the worker completed handler `h`'s waiter with `r` -/
  | completed (h : Nat) (r : Int)
  /-- handler `h` sent its reply `x` with status `r` -/
  | replied (h : Nat) (r : Int) (x : ρ)
  deriving DecidableEq

/-- The server as the commit machinery sees it. -/
structure Server (σ ρ : Type) where
  /-- the in-memory super block and the rest of the server's state -/
  mem : σ
  /-- handlers holding `commit_rwsem` shared -/
  readers : Finset Nat
  /-- `commit_work` is queued -/
  pending : Bool
  worker : Worker
  /-- `commit_waiters`, newest first as `llist_add` pushes -/
  waiters : List Nat
  phase : Nat → Phase
  /-- oldest first -/
  log : List (Event σ ρ)

/-- What the handlers and the commit worker do to the server state. -/
structure Handlers (σ γ α β ρ : Type) where
  /-- taking the commit for request `q`, with any lock the handler takes first -/
  hold : Nat → γ → σ → Option σ
  /-- one change made while holding the commit -/
  act : Nat → α → σ → Option σ
  /-- the error the handler passes to `scoutfs_server_apply_commit` -/
  err : Nat → σ → Int
  /-- the handler's code after `scoutfs_server_apply_commit` returned, and its reply -/
  finish : Nat → Int → σ → σ × ρ
  /-- the commit steps of one worker run, up to `set_roots`, and their result -/
  commit : β → σ → σ × Int

/-- The atomic steps of handlers and worker. -/
inductive Label (γ α β : Type) where
  | hold (h : Nat) (q : γ)
  | act (h : Nat) (a : α)
  | apply (h : Nat)
  | release (h : Nat)
  | finish (h : Nat)
  | start
  | acquire
  | commit (o : β)
  | drain
  | complete
  | unlock

variable {σ γ α β ρ : Type} (P : Handlers σ γ α β ρ)

/-- The server just after `scoutfs_server_worker` read the super block `m`. -/
def init (m : σ) : Server σ ρ where
  mem := m
  readers := ∅
  pending := false
  worker := .idle
  waiters := []
  phase := fun _ => .idle
  log := [.wrote m]

/-- One atomic step; `none` when the step cannot be taken. -/
def step (s : Server σ ρ) : Label γ α β → Option (Server σ ρ)
  | .hold h q =>
    if s.phase h = .idle ∧ s.worker.exclusive = false then
      (P.hold h q s.mem).map fun m =>
        { s with mem := m, readers := insert h s.readers, phase := update s.phase h .holding }
    else none
  | .act h a =>
    if s.phase h = .holding then
      (P.act h a s.mem).map fun m => { s with mem := m, log := s.log ++ [.mutated h] }
    else none
  | .apply h =>
    if s.phase h = .holding then
      if P.err h s.mem = 0 then
        some { s with waiters := h :: s.waiters, pending := true,
                      phase := update s.phase h .queued }
      else
        some { s with readers := s.readers.erase h,
                      phase := update s.phase h (.returned (P.err h s.mem)) }
    else none
  | .release h =>
    if s.phase h = .queued then
      some { s with readers := s.readers.erase h, phase := update s.phase h .waiting }
    else none
  | .finish h =>
    match s.phase h with
    | .returned r =>
      some { s with mem := (P.finish h r s.mem).1, phase := update s.phase h .idle,
                    log := s.log ++ [.replied h r (P.finish h r s.mem).2] }
    | _ => none
  | .start =>
    if s.pending = true ∧ s.worker = .idle then
      some { s with pending := false, worker := .blocked }
    else none
  | .acquire =>
    if s.worker = .blocked ∧ s.readers = ∅ then some { s with worker := .writing } else none
  | .commit o =>
    if s.worker = .writing then
      some { s with mem := (P.commit o s.mem).1, worker := .draining (P.commit o s.mem).2,
                    log := if (P.commit o s.mem).2 = 0 then s.log ++ [.wrote (P.commit o s.mem).1]
                           else s.log }
    else none
  | .drain =>
    match s.worker with
    | .draining r => some { s with worker := .completing r s.waiters, waiters := [] }
    | _ => none
  | .complete =>
    match s.worker with
    | .completing r (h :: cws) =>
      some { s with worker := .completing r cws, phase := update s.phase h (.returned r),
                    log := s.log ++ [.completed h r] }
    | _ => none
  | .unlock =>
    match s.worker with
    | .completing _ [] => some { s with worker := .idle }
    | _ => none

/-- The states a server started from the super block `m₀` can reach. -/
inductive Reachable (m₀ : σ) : Server σ ρ → Prop
  | init : Reachable m₀ (init m₀)
  | step {s s' : Server σ ρ} (l : Label γ α β) :
      Reachable m₀ s → step P s l = some s' → Reachable m₀ s'

/-- Steps in sequence. -/
def run (s : Server σ ρ) : List (Label γ α β) → Option (Server σ ρ)
  | [] => some s
  | l :: ls => (step P s l).bind fun s' => run s' ls

theorem Reachable.run {m₀ : σ} {s s' : Server σ ρ} :
    ∀ {ls : List (Label γ α β)}, Reachable P m₀ s → Commit.run P s ls = some s' →
      Reachable P m₀ s'
  | [], hs, h => by cases h; exact hs
  | l :: ls, hs, h => by
    simp only [Commit.run, Option.bind_eq_some] at h
    obtain ⟨s₁, h₁, h₂⟩ := h
    exact Reachable.run (.step l hs h₁) h₂

/-- A run followed by one more step. -/
theorem run_append_singleton (s : Server σ ρ) (ls : List (Label γ α β)) (l : Label γ α β) :
    run P s (ls ++ [l]) = (run P s ls).bind fun s' => step P s' l := by
  induction ls generalizing s with
  | nil => simp [run]
  | cons l' ls ih => rw [List.cons_append, run, run, Option.bind_assoc]; simp only [ih]

/-- A run from the initial state that ends where the check `p` holds. -/
theorem exists_of_run (m₀ : σ) (ls : List (Label γ α β)) (p : Server σ ρ → Bool)
    (h : (Commit.run P (init m₀) ls).map p = some true) : ∃ s, Reachable P m₀ s ∧ p s = true := by
  cases hr : Commit.run P (init m₀) ls with
  | none => simp [hr] at h
  | some s =>
    simp only [hr, Option.map_some', Option.some.injEq] at h
    exact ⟨s, Reachable.run P .init hr, h⟩

/-! ## What each step does -/

section Inversion

variable {P} {s s' : Server σ ρ}

theorem step_hold (hs : step P s (.hold h q) = some s') :
    s.phase h = .idle ∧ s.worker.exclusive = false ∧ ∃ m, P.hold h q s.mem = some m ∧
      s' = { s with mem := m, readers := insert h s.readers,
                    phase := update s.phase h .holding } := by
  simp only [step] at hs
  split_ifs at hs with hg
  obtain ⟨m, hm, rfl⟩ := Option.map_eq_some'.mp hs
  exact ⟨hg.1, hg.2, m, hm, rfl⟩

theorem step_act (hs : step P s (.act h a) = some s') :
    s.phase h = .holding ∧ ∃ m, P.act h a s.mem = some m ∧
      s' = { s with mem := m, log := s.log ++ [.mutated h] } := by
  simp only [step] at hs
  split_ifs at hs with hg
  obtain ⟨m, hm, rfl⟩ := Option.map_eq_some'.mp hs
  exact ⟨hg, m, hm, rfl⟩

theorem step_apply (hs : step P s (.apply h) = some s') :
    s.phase h = .holding ∧
      (P.err h s.mem = 0 ∧ s' = { s with waiters := h :: s.waiters, pending := true,
                                          phase := update s.phase h .queued } ∨
       P.err h s.mem ≠ 0 ∧ s' = { s with readers := s.readers.erase h,
                                          phase := update s.phase h (.returned (P.err h s.mem)) }) := by
  simp only [step] at hs
  split_ifs at hs with hg he <;> cases hs
  · exact ⟨hg, .inl ⟨he, rfl⟩⟩
  · exact ⟨hg, .inr ⟨he, rfl⟩⟩

theorem step_release (hs : step P s (.release h) = some s') :
    s.phase h = .queued ∧
      s' = { s with readers := s.readers.erase h, phase := update s.phase h .waiting } := by
  simp only [step] at hs
  split_ifs at hs with hg
  cases hs
  exact ⟨hg, rfl⟩

theorem step_finish (hs : step P s (.finish h) = some s') :
    ∃ r, s.phase h = .returned r ∧
      s' = { s with mem := (P.finish h r s.mem).1, phase := update s.phase h .idle,
                    log := s.log ++ [.replied h r (P.finish h r s.mem).2] } := by
  simp only [step] at hs
  split at hs <;> cases hs
  exact ⟨_, ‹_›, rfl⟩

theorem step_start (hs : step P s .start = some s') :
    s.pending = true ∧ s.worker = .idle ∧ s' = { s with pending := false, worker := .blocked } := by
  simp only [step] at hs
  split_ifs at hs with hg
  cases hs
  exact ⟨hg.1, hg.2, rfl⟩

theorem step_acquire (hs : step P s .acquire = some s') :
    s.worker = .blocked ∧ s.readers = ∅ ∧ s' = { s with worker := .writing } := by
  simp only [step] at hs
  split_ifs at hs with hg
  cases hs
  exact ⟨hg.1, hg.2, rfl⟩

theorem step_commit (hs : step P s (.commit o) = some s') :
    s.worker = .writing ∧
      s' = { s with mem := (P.commit o s.mem).1, worker := .draining (P.commit o s.mem).2,
                    log := if (P.commit o s.mem).2 = 0 then s.log ++ [.wrote (P.commit o s.mem).1]
                           else s.log } := by
  simp only [step] at hs
  by_cases hg : s.worker = .writing
  · rw [if_pos hg] at hs
    cases hs
    exact ⟨hg, rfl⟩
  · rw [if_neg hg] at hs
    cases hs

theorem step_drain (hs : step P s .drain = some s') :
    ∃ r, s.worker = .draining r ∧
      s' = { s with worker := .completing r s.waiters, waiters := [] } := by
  simp only [step] at hs
  split at hs <;> cases hs
  exact ⟨_, ‹_›, rfl⟩

theorem step_complete (hs : step P s .complete = some s') :
    ∃ r h cws, s.worker = .completing r (h :: cws) ∧
      s' = { s with worker := .completing r cws, phase := update s.phase h (.returned r),
                    log := s.log ++ [.completed h r] } := by
  simp only [step] at hs
  split at hs <;> cases hs
  exact ⟨_, _, _, ‹_›, rfl⟩

theorem step_unlock (hs : step P s .unlock = some s') :
    ∃ r, s.worker = .completing r [] ∧ s' = { s with worker := .idle } := by
  simp only [step] at hs
  split at hs <;> cases hs
  exact ⟨_, ‹_›, rfl⟩

/-- What any step does to the server state and the log: one of the handler or
commit functions, and at most one event. -/
theorem step_effect (hs : step P s l = some s') :
    (s'.mem = s.mem ∧ s'.log = s.log) ∨
    (∃ h q, P.hold h q s.mem = some s'.mem ∧ s'.log = s.log) ∨
    (∃ h a, P.act h a s.mem = some s'.mem ∧ s'.log = s.log ++ [.mutated h]) ∨
    (∃ h r, s'.mem = (P.finish h r s.mem).1 ∧
      s'.log = s.log ++ [.replied h r (P.finish h r s.mem).2]) ∨
    (∃ o, s'.mem = (P.commit o s.mem).1 ∧
      s'.log = if (P.commit o s.mem).2 = 0 then s.log ++ [.wrote s'.mem] else s.log) ∨
    (∃ h r, s'.mem = s.mem ∧ s'.log = s.log ++ [.completed h r]) := by
  cases l with
  | hold h q => obtain ⟨-, -, m, hm, rfl⟩ := step_hold hs; exact .inr (.inl ⟨h, q, hm, rfl⟩)
  | act h a => obtain ⟨-, m, hm, rfl⟩ := step_act hs; exact .inr (.inr (.inl ⟨h, a, hm, rfl⟩))
  | apply h => obtain ⟨-, ⟨-, rfl⟩ | ⟨-, rfl⟩⟩ := step_apply hs <;> exact .inl ⟨rfl, rfl⟩
  | release h => obtain ⟨-, rfl⟩ := step_release hs; exact .inl ⟨rfl, rfl⟩
  | finish h =>
    obtain ⟨r, -, rfl⟩ := step_finish hs; exact .inr (.inr (.inr (.inl ⟨h, r, rfl, rfl⟩)))
  | start => obtain ⟨-, -, rfl⟩ := step_start hs; exact .inl ⟨rfl, rfl⟩
  | acquire => obtain ⟨-, -, rfl⟩ := step_acquire hs; exact .inl ⟨rfl, rfl⟩
  | commit o => obtain ⟨-, rfl⟩ := step_commit hs; exact .inr (.inr (.inr (.inr (.inl ⟨o, rfl, rfl⟩))))
  | drain => obtain ⟨r, -, rfl⟩ := step_drain hs; exact .inl ⟨rfl, rfl⟩
  | complete =>
    obtain ⟨r, h, cws, -, rfl⟩ := step_complete hs
    exact .inr (.inr (.inr (.inr (.inr ⟨h, r, rfl, rfl⟩))))
  | unlock => obtain ⟨r, -, rfl⟩ := step_unlock hs; exact .inl ⟨rfl, rfl⟩

end Inversion

/-! ## Handlers restricted to some changes -/

/-- `P` with only the changes `ok` allows: a handler whose change `ok` refuses waits. -/
def Handlers.restrict (ok : Nat → α → σ → Bool) : Handlers σ γ α β ρ :=
  { P with act := fun h a m => if ok h a m then P.act h a m else none }

section Restrict

variable {P} {ok : Nat → α → σ → Bool} {s s' : Server σ ρ}

theorem step_restrict (hs : step (P.restrict ok) s l = some s') : step P s l = some s' := by
  cases l with
  | act h a =>
    obtain ⟨hg, m, hm, rfl⟩ := step_act hs
    simp only [Handlers.restrict] at hm
    split_ifs at hm
    simp [step, hg, hm]
  | _ => exact hs

/-- Every run of the restricted handlers is a run of `P`. -/
theorem Reachable.of_restrict {m₀ : σ} (hr : Reachable (P.restrict ok) m₀ s) : Reachable P m₀ s := by
  induction hr with
  | init => exact .init
  | step l _ hs ih => exact .step l ih (step_restrict hs)

end Restrict


/-! ## The invariant -/

/-- A super block write at `j` comes after every change recorded in `log`. -/
def WroteAfterChanges (log : List (Event σ ρ)) : Prop :=
  ∃ (j : Nat) (m : σ), log[j]? = some (Event.wrote m) ∧
    ∀ (k h : Nat), log[k]? = some (Event.mutated h) → k < j

/-- Every waiter completed with 0 had all its changes made before a super block
write, itself before the completion. -/
def CompletedAfterWrite (log : List (Event σ ρ)) : Prop :=
  ∀ (i h : Nat), log[i]? = some (Event.completed h 0) →
    ∃ j < i, (∃ m, log[j]? = some (Event.wrote m)) ∧
      ∀ k < i, log[k]? = some (Event.mutated h) → k < j

/-- What holds of every reachable state of the commit protocol. -/
structure Inv (s : Server σ ρ) : Prop where
  /-- `commit_rwsem`'s readers are the handlers holding or queued -/
  readers_iff : ∀ h, h ∈ s.readers ↔ s.phase h = .holding ∨ s.phase h = .queued
  /-- no reader while the worker holds the rwsem -/
  exclusive_empty : s.worker.exclusive = true → s.readers = ∅
  /-- the waiters on `commit_waiters` or drained are the queued and waiting handlers -/
  listed_iff : ∀ h, h ∈ s.waiters ∨ h ∈ s.worker.drained ↔
    s.phase h = .queued ∨ s.phase h = .waiting
  /-- each of them once -/
  nodup : (s.waiters ++ s.worker.drained).Nodup
  /-- nobody adds a waiter between `llist_del_all` and `up_write` -/
  completing_empty : ∀ r cws, s.worker = .completing r cws → s.waiters = []
  /-- a non-empty waiter list has a run queued or running that has not drained it -/
  undrained : s.waiters ≠ [] → s.pending = true ∨ s.worker.undrained = true
  /-- a run whose commit steps succeeded has written after every change so far -/
  written : s.worker.result = some 0 → WroteAfterChanges s.log
  completed : CompletedAfterWrite s.log

section Log

variable {log : List (Event σ ρ)} {e : Event σ ρ}

theorem WroteAfterChanges.append (h : WroteAfterChanges log) (he : ∀ h, e ≠ .mutated h) :
    WroteAfterChanges (log ++ [e]) := by
  obtain ⟨j, m, hj, hk⟩ := h
  have hjl : j < log.length := (List.getElem?_eq_some_iff.mp hj).1
  refine ⟨j, m, by rw [getElem?_append_singleton, if_pos hjl, hj], fun k h' hk' => ?_⟩
  rw [getElem?_append_singleton] at hk'
  split at hk'
  · exact hk k h' hk'
  · split at hk' <;> simp_all

theorem CompletedAfterWrite.append (h : CompletedAfterWrite log)
    (he : ∀ h, e = .completed h 0 → WroteAfterChanges log) :
    CompletedAfterWrite (log ++ [e]) := by
  unfold CompletedAfterWrite at *
  intro i h' hi
  rw [getElem?_append_singleton] at hi
  split at hi
  · obtain ⟨j, hji, ⟨m, hj⟩, hk⟩ := h i h' hi
    refine ⟨j, hji, ⟨m, by rw [getElem?_append_singleton, if_pos (by omega), hj]⟩, fun k hk' hkm => ?_⟩
    rw [getElem?_append_singleton, if_pos (by omega)] at hkm
    exact hk k hk' hkm
  · split at hi
    · subst i
      obtain ⟨j, m, hj, hk⟩ := he h' (Option.some.inj hi)
      have hjl : j < log.length := (List.getElem?_eq_some_iff.mp hj).1
      refine ⟨j, hjl, ⟨m, by rw [getElem?_append_singleton, if_pos hjl, hj]⟩, fun k hk' hkm => ?_⟩
      rw [getElem?_append_singleton, if_pos hk'] at hkm
      exact hk k h' hkm
    · cases hi

end Log


/-! ## The invariant holds initially and after every step -/

section Preservation

variable {P} {s s' : Server σ ρ}

theorem inv_init (m : σ) : Inv (init m : Server σ ρ) where
  readers_iff h := by simp [init]
  exclusive_empty := by simp [init, Worker.exclusive]
  listed_iff h := by simp [init, Worker.drained]
  nodup := by simp [init, Worker.drained]
  completing_empty := by simp [init]
  undrained := by simp [init]
  written := by simp [init, Worker.result]
  completed i h hi := by cases i <;> simp [init] at hi

theorem Inv.not_listed (hi : Inv s) {h : Nat} (hp : s.phase h ≠ .queued ∧ s.phase h ≠ .waiting) :
    h ∉ s.waiters ∧ h ∉ s.worker.drained := by
  have := hi.listed_iff h
  tauto

/-- A handler holding the commit means the worker does not. -/
theorem Inv.not_exclusive (hi : Inv s) {h : Nat} (hp : s.phase h = .holding ∨ s.phase h = .queued) :
    s.worker.exclusive = false := by
  cases hw : s.worker.exclusive
  · rfl
  · have := (hi.readers_iff h).mpr hp
    rw [hi.exclusive_empty hw] at this
    cases this

theorem Inv.hold (hi : Inv s) (hs : step P s (.hold h q) = some s') : Inv s' := by
  obtain ⟨hidle, hex, m, -, rfl⟩ := step_hold hs
  have hnl := hi.not_listed (h := h) (by simp [hidle])
  refine ⟨fun h' => ?_, fun hw => absurd hw (by simp [hex]), fun h' => ?_, hi.nodup,
    hi.completing_empty, hi.undrained, hi.written, hi.completed⟩
  · by_cases hh : h' = h
    · subst hh; simp
    · simp [Function.update_noteq hh, hi.readers_iff h', hh]
  · by_cases hh : h' = h
    · subst hh; simp [hnl]
    · simp [Function.update_noteq hh, hi.listed_iff h']

theorem Inv.act (hi : Inv s) (hs : step P s (.act h a) = some s') : Inv s' := by
  obtain ⟨hhold, m, -, rfl⟩ := step_act hs
  have hex := hi.not_exclusive (.inl hhold)
  refine ⟨hi.readers_iff, hi.exclusive_empty, hi.listed_iff, hi.nodup, hi.completing_empty,
    hi.undrained, fun hr => absurd (Worker.exclusive_of_result hr) (by simp [hex]), ?_⟩
  exact hi.completed.append fun _ he => (by cases he)

theorem Inv.apply (hi : Inv s) (hs : step P s (.apply h) = some s') : Inv s' := by
  obtain ⟨hhold, ⟨-, rfl⟩ | ⟨-, rfl⟩⟩ := step_apply hs
  · have hnl := hi.not_listed (h := h) (by simp [hhold])
    have hex := hi.not_exclusive (.inl hhold)
    refine ⟨fun h' => ?_, hi.exclusive_empty, fun h' => ?_, ?_, fun r cws hw => ?_,
      fun _ => .inl rfl, hi.written, hi.completed⟩
    · by_cases hh : h' = h
      · subst hh; simp [(hi.readers_iff h').mpr (.inl hhold)]
      · simp [Function.update_noteq hh, hi.readers_iff h']
    · by_cases hh : h' = h
      · subst hh; simp
      · simp [Function.update_noteq hh, hi.listed_iff h', hh]
    · simpa [hnl.1, hnl.2] using hi.nodup
    · simp only at hw
      simp [hw, Worker.exclusive] at hex
  · have hnl := hi.not_listed (h := h) (by simp [hhold])
    refine ⟨fun h' => ?_, fun hw => by simp [hi.exclusive_empty hw], fun h' => ?_, hi.nodup,
      hi.completing_empty, hi.undrained, hi.written, hi.completed⟩
    · by_cases hh : h' = h
      · subst hh; simp
      · simp [Function.update_noteq hh, hi.readers_iff h', hh]
    · by_cases hh : h' = h
      · subst hh; simp [hnl]
      · simp [Function.update_noteq hh, hi.listed_iff h']

theorem Inv.release (hi : Inv s) (hs : step P s (.release h) = some s') : Inv s' := by
  obtain ⟨hq, rfl⟩ := step_release hs
  have hl := (hi.listed_iff h).mpr (.inl hq)
  refine ⟨fun h' => ?_, fun hw => by simp [hi.exclusive_empty hw], fun h' => ?_, hi.nodup,
    hi.completing_empty, hi.undrained, hi.written, hi.completed⟩
  · by_cases hh : h' = h
    · subst hh; simp
    · simp [Function.update_noteq hh, hi.readers_iff h', hh]
  · by_cases hh : h' = h
    · subst hh; simpa using hl
    · simp [Function.update_noteq hh, hi.listed_iff h']

theorem Inv.finish (hi : Inv s) (hs : step P s (.finish h) = some s') : Inv s' := by
  obtain ⟨r, hr, rfl⟩ := step_finish hs
  have hnl := hi.not_listed (h := h) (by simp [hr])
  refine ⟨fun h' => ?_, hi.exclusive_empty, fun h' => ?_, hi.nodup, hi.completing_empty,
    hi.undrained, fun hw => (hi.written hw).append fun _ he => (by cases he),
    hi.completed.append fun _ he => (by cases he)⟩
  · by_cases hh : h' = h
    · subst hh; simp [(hi.readers_iff h').not.mpr (by simp [hr])]
    · simp [Function.update_noteq hh, hi.readers_iff h']
  · by_cases hh : h' = h
    · subst hh; simp [hnl]
    · simp [Function.update_noteq hh, hi.listed_iff h']

theorem Inv.start (hi : Inv s) (hs : step P s .start = some s') : Inv s' := by
  obtain ⟨-, hw, rfl⟩ := step_start hs
  refine ⟨hi.readers_iff, fun h => by simp [Worker.exclusive] at h, fun h' => ?_, ?_,
    fun r cws h => (by cases h), fun _ => .inr rfl, fun h => by simp [Worker.result] at h,
    hi.completed⟩
  · simpa [hw, Worker.drained] using hi.listed_iff h'
  · simpa [hw, Worker.drained] using hi.nodup

theorem Inv.acquire (hi : Inv s) (hs : step P s .acquire = some s') : Inv s' := by
  obtain ⟨hw, hr, rfl⟩ := step_acquire hs
  refine ⟨hi.readers_iff, fun _ => hr, fun h' => ?_, ?_, fun r cws h => (by cases h),
    fun _ => .inr rfl, fun h => by simp [Worker.result] at h, hi.completed⟩
  · simpa [hw, Worker.drained] using hi.listed_iff h'
  · simpa [hw, Worker.drained] using hi.nodup

theorem Inv.commit (hi : Inv s) (hs : step P s (.commit o) = some s') : Inv s' := by
  obtain ⟨hw, rfl⟩ := step_commit hs
  have hr := hi.exclusive_empty (by simp [hw, Worker.exclusive])
  refine ⟨hi.readers_iff, fun _ => hr, fun h' => ?_, ?_, fun r cws h => (by cases h),
    fun _ => .inr rfl, fun h0 => ?_, ?_⟩
  · simpa [hw, Worker.drained] using hi.listed_iff h'
  · simpa [hw, Worker.drained] using hi.nodup
  · simp only [Worker.result, Option.some.injEq] at h0
    simp only [h0, if_true]
    refine ⟨s.log.length, _, List.getElem?_concat_length _ _, fun k h hk => ?_⟩
    rw [getElem?_append_singleton] at hk
    split at hk
    · assumption
    · split at hk <;> simp_all
  · split
    · exact hi.completed.append fun _ he => by cases he
    · exact hi.completed

theorem Inv.drain (hi : Inv s) (hs : step P s .drain = some s') : Inv s' := by
  obtain ⟨r, hw, rfl⟩ := step_drain hs
  have hr := hi.exclusive_empty (by simp [hw, Worker.exclusive])
  refine ⟨hi.readers_iff, fun _ => hr, fun h' => ?_, ?_, fun _ _ _ => rfl,
    fun h => absurd rfl h, fun h0 => hi.written (by simpa [hw, Worker.result] using h0),
    hi.completed⟩
  · simpa [hw, Worker.drained, or_comm] using hi.listed_iff h'
  · simpa [hw, Worker.drained] using hi.nodup

theorem Inv.complete (hi : Inv s) (hs : step P s .complete = some s') : Inv s' := by
  obtain ⟨r, h, cws, hw, rfl⟩ := step_complete hs
  have hr := hi.exclusive_empty (by simp [hw, Worker.exclusive])
  have hwe := hi.completing_empty r _ hw
  have hnd : h ∉ cws ∧ cws.Nodup := by simpa [hw, hwe, Worker.drained] using hi.nodup
  refine ⟨fun h' => ?_, fun _ => hr, fun h' => ?_, ?_, fun _ _ _ => hwe,
    fun h => absurd hwe h, fun h0 => ?_, ?_⟩
  · by_cases hh : h' = h
    · subst hh; simp [hr]
    · simp [Function.update_noteq hh, ← hi.readers_iff h', hr]
  · by_cases hh : h' = h
    · subst hh; simp [hwe, Worker.drained, hnd.1]
    · simpa [Function.update_noteq hh, hw, hwe, Worker.drained, hh] using hi.listed_iff h'
  · simpa [hwe, Worker.drained] using hnd.2
  · exact (hi.written (by simpa [hw, Worker.result] using h0)).append fun _ he => by cases he
  · refine hi.completed.append fun h' he => ?_
    simp only [Event.completed.injEq] at he
    exact hi.written (by simp [hw, Worker.result, he.2])

theorem Inv.unlock (hi : Inv s) (hs : step P s .unlock = some s') : Inv s' := by
  obtain ⟨r, hw, rfl⟩ := step_unlock hs
  have hwe := hi.completing_empty r _ hw
  refine ⟨hi.readers_iff, fun h => by simp [Worker.exclusive] at h, fun h' => ?_, ?_,
    fun r cws h => (by cases h), fun h => absurd hwe h, fun h => by simp [Worker.result] at h,
    hi.completed⟩
  · simpa [hw, Worker.drained] using hi.listed_iff h'
  · simpa [hw, Worker.drained] using hi.nodup

theorem Inv.step (hi : Inv s) : ∀ {l : Label γ α β}, step P s l = some s' → Inv s'
  | .hold .., hs => hi.hold hs
  | .act .., hs => hi.act hs
  | .apply _, hs => hi.apply hs
  | .release _, hs => hi.release hs
  | .finish _, hs => hi.finish hs
  | .start, hs => hi.start hs
  | .acquire, hs => hi.acquire hs
  | .commit _, hs => hi.commit hs
  | .drain, hs => hi.drain hs
  | .complete, hs => hi.complete hs
  | .unlock, hs => hi.unlock hs

theorem Reachable.inv {m₀ : σ} (hr : Reachable P m₀ s) : Inv s := by
  induction hr with
  | init => exact inv_init m₀
  | step l _ hs ih => exact ih.step hs

end Preservation

/-! ## What a handler's hold sets up -/

/-- `Q h m` is a fact about handler `h`'s locals in the state `m`: its hold
establishes it, and nothing but its own finish undoes it. -/
structure Handlers.Locals (Q : Nat → σ → Prop) : Prop where
  hold : ∀ {h q m m'}, P.hold h q m = some m' → Q h m'
  hold_other : ∀ {h h' q m m'}, h' ≠ h → P.hold h' q m = some m' → Q h m → Q h m'
  act : ∀ {h h' a m m'}, P.act h' a m = some m' → Q h m → Q h m'
  finish_other : ∀ {h h' r m}, h' ≠ h → Q h m → Q h (P.finish h' r m).1
  commit : ∀ {h o m}, Q h m → Q h (P.commit o m).1

theorem update_ne_idle {ph : Nat → Phase} {h h' : Nat} {p : Phase}
    (hp : update ph h' p h ≠ .idle) (hh' : ph h' ≠ .idle) : ph h ≠ .idle := by
  by_cases e : h = h'
  · subst e; exact hh'
  · rwa [Function.update_noteq e] at hp

section Locals

variable {P} {Q : Nat → σ → Prop} {s : Server σ ρ}

/-- What a handler's hold establishes lasts for as long as the handler is not idle. -/
theorem Reachable.locals {m₀ : σ} (hq : P.Locals Q) (hr : Reachable P m₀ s) :
    ∀ h, s.phase h ≠ .idle → Q h s.mem := by
  induction hr with
  | init => intro h hp; exact absurd rfl hp
  | step l hr hs ih =>
    intro h hp
    cases l with
    | hold h' q =>
      obtain ⟨-, -, m, hm, rfl⟩ := step_hold hs
      by_cases e : h = h'
      · subst e; exact hq.hold hm
      · exact hq.hold_other (Ne.symm e) hm (ih h (by simpa [Function.update_noteq e] using hp))
    | act h' a => obtain ⟨-, m, hm, rfl⟩ := step_act hs; exact hq.act hm (ih h hp)
    | apply h' =>
      obtain ⟨hg, ⟨-, rfl⟩ | ⟨-, rfl⟩⟩ := step_apply hs <;>
        exact ih h (update_ne_idle hp (by simp [hg]))
    | release h' =>
      obtain ⟨hg, rfl⟩ := step_release hs; exact ih h (update_ne_idle hp (by simp [hg]))
    | finish h' =>
      obtain ⟨r, -, rfl⟩ := step_finish hs
      have e : h' ≠ h := by rintro rfl; simp at hp
      exact hq.finish_other e (ih h (by simpa [Function.update_noteq e.symm] using hp))
    | start => obtain ⟨-, -, rfl⟩ := step_start hs; exact ih h hp
    | acquire => obtain ⟨-, -, rfl⟩ := step_acquire hs; exact ih h hp
    | commit o => obtain ⟨-, rfl⟩ := step_commit hs; exact hq.commit (ih h hp)
    | drain => obtain ⟨r, -, rfl⟩ := step_drain hs; exact ih h hp
    | complete =>
      obtain ⟨r, h', cws, hw, rfl⟩ := step_complete hs
      have hl := (hr.inv.listed_iff h').mp (.inr (by simp [hw, Worker.drained]))
      exact ih h (update_ne_idle hp (by rcases hl with hl | hl <;> simp [hl]))
    | unlock => obtain ⟨r, -, rfl⟩ := step_unlock hs; exact ih h hp

end Locals

/-! ## Safety -/

/-- What the commit protocol promises at one state. -/
structure Safe (s : Server σ ρ) : Prop where
  /-- nobody holds `commit_rwsem` while the worker holds it exclusively -/
  exclusive : s.worker.exclusive = true → ∀ h, s.phase h ≠ .holding ∧ s.phase h ≠ .queued
  /-- so no handler change can happen then -/
  no_change : ∀ h a s', step P s (.act h a) = some s' → s.worker.exclusive = false
  /-- a non-empty waiter list has a run queued, or running and not yet past `llist_del_all` -/
  undrained : s.waiters ≠ [] → s.pending = true ∨ s.worker.undrained = true
  /-- the listed waiters, on `commit_waiters` or drained, each once -/
  nodup : (s.waiters ++ s.worker.drained).Nodup
  /-- are exactly the handlers that queued a waiter and have not been completed -/
  listed_iff : ∀ h, h ∈ s.waiters ++ s.worker.drained ↔
    s.phase h = .queued ∨ s.phase h = .waiting
  /-- completing hands a waiting handler the run's one result, kept for the rest of the list -/
  complete : ∀ s', step P s .complete = some s' → ∃ r h cws, s.worker = .completing r (h :: cws) ∧
    s.phase h = .waiting ∧ s'.phase h = .returned r ∧ s'.worker = .completing r cws
  /-- a waiter completed with 0 had all its changes made before a super block write -/
  completed_after_write : CompletedAfterWrite s.log

/-- **The batched commit protocol is safe in every interleaving** of any number of
handlers and worker runs, whatever the handlers change and whatever the commit
steps return. -/
theorem commit_protocol_safe {m₀ : σ} {s : Server σ ρ} (hr : Reachable P m₀ s) : Safe P s := by
  have hi := hr.inv
  refine ⟨fun hw h => ?_, fun h a s' hs => hi.not_exclusive (.inl (step_act hs).1), hi.undrained,
    hi.nodup, fun h => by rw [List.mem_append]; exact hi.listed_iff h, fun s' hs => ?_,
    hi.completed⟩
  · have := (hi.readers_iff h).not.mp (by simp [hi.exclusive_empty hw])
    tauto
  · obtain ⟨r, h, cws, hw, rfl⟩ := step_complete hs
    have hl := (hi.listed_iff h).mp (.inr (by simp [hw, Worker.drained]))
    have hq : s.phase h ≠ .queued := fun hq =>
      absurd (hi.not_exclusive (.inr hq)) (by simp [hw, Worker.exclusive])
    exact ⟨r, h, cws, hw, by tauto, by simp, rfl⟩

/-- A handler program that counts its changes: each change adds one to the state. -/
def counter : Handlers Nat Unit Unit Int Unit where
  hold _ _ m := some m
  act _ _ m := some (m + 1)
  err _ _ := 0
  finish _ _ m := (m, ())
  commit r m := (m, r)

/-- One request through one successful commit. -/
def counterRun : List (Label Unit Unit Int) :=
  [.hold 1 (), .act 1 (), .apply 1, .release 1, .start, .acquire, .commit 0, .drain, .complete,
   .unlock, .finish 1]

theorem commit_protocol_safe_counter :
    ∃ s, run counter (init 0) counterRun = some s ∧ Reachable counter 0 s ∧ Safe counter s := by
  obtain ⟨s, hs⟩ : ∃ s, run counter (init 0) counterRun = some s := ⟨_, rfl⟩
  have hr : Reachable counter 0 s := Reachable.run counter .init hs
  exact ⟨s, hs, hr, commit_protocol_safe counter hr⟩

end Scoutfs.Commit
