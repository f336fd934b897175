import Mathlib.Logic.Function.Basic
import Scoutfs.Server.Volopt

/-!
# Publishing under a seqcount

The server hands out two values that commits and volume option changes replace while
requests read them: `server->roots` under `roots_seqcount`, and `server->volopt` under
`volopt_seqcount`. A writer brackets its stores with `write_seqcount_begin` and
`write_seqcount_end`, each an increment of the `unsigned` sequence. A reader loops
`do { seq = read_seqcount_begin(s); copy } while (read_seqcount_retry(s, seq))`, where
`read_seqcount_begin` waits while the sequence is odd and `read_seqcount_retry` asks
whether it has moved from `seq`. Writers never overlap: `set_roots` runs in the one commit
work item and in `scoutfs_server_worker` before the server listens, and the volume option
sections hold `volopt_mutex` or run before the listen too.

The model is generic in the protected words `ι`, their values `V`, and the stores `prog a`
of a section that publishes `a`. Each load and each store of a word is one step, in any
interleaving of the readers and the writer; the barriers inside the seqcount calls are
what lets the steps be taken one at a time. The sequence is kept as `count`, the number of
increments, of which the code holds `count % 2 ^ 32`; a reader keeps the `count` it began
at, of which `read_seqcount_begin` returned the low 32 bits.

Over every run (`Reachable.inv`) the writer is inside a section exactly when the count is
odd, the words between sections are what the completed sections published, and a reader
whose count is still the current one holds copies of the current words. So a reader that
`read_seqcount_retry` lets out, with fewer than `2 ^ 32` increments since its
`read_seqcount_begin`, returns for every word it copied what the last completed section
published (`retry_consistent`): never a word of a section in progress, and never words of
two sections. `set_roots` stores every word and `get_roots` loads every word, so a
`get_roots` returns exactly the roots of the last `set_roots` that completed
(`get_roots_last_set`). `get_volopt_val` loads `set_bits` and, when the option's bit is
set, the option's slot, and a section after a failed commit stores nothing to
`server->volopt`; so it returns what the volume option model's atomic reading gives on the
options the last section stored (`get_volopt_val_last_stored`).
-/

namespace Scoutfs.Seqcount

open Function (update)

/-- Where one reader stands in its `read_seqcount_begin` … `read_seqcount_retry` loop. -/
inductive Reader (ι V : Type) where
  /-- at `read_seqcount_begin`: not started yet, or sent back by `read_seqcount_retry` -/
  | begin
  /-- `read_seqcount_begin` returned `seen % 2 ^ 32`; `copy` holds the words loaded since -/
  | copying (seen : Nat) (copy : ι → Option V)
  /-- `read_seqcount_retry` let the reader out with `copy` -/
  | done (copy : ι → Option V)

/-- The writer, one section at a time. -/
inductive Writer (ι V α : Type) where
  | idle
  /-- inside the section that publishes `a`, with the stores still to make -/
  | writing (a : α) (stores : List (ι × V))

structure State (ι V α : Type) where
  /-- increments of the sequence so far -/
  count : Nat
  /-- the protected words -/
  data : ι → V
  writer : Writer ι V α
  readers : Nat → Reader ι V
  /-- what each completed section published, oldest first -/
  published : List α

/-- The `unsigned` sequence the code reads. -/
def State.sequence {ι V α : Type} (s : State ι V α) : Nat := s.count % 2 ^ 32

/-- The atomic steps of the writer and the readers. -/
inductive Act (ι α : Type) where
  /-- `write_seqcount_begin` of the section that publishes `a` -/
  | writeBegin (a : α)
  /-- the section's next store -/
  | store
  /-- `write_seqcount_end` -/
  | writeEnd
  /-- reader `r`'s `read_seqcount_begin` -/
  | readBegin (r : Nat)
  /-- reader `r` loads word `i` -/
  | load (r : Nat) (i : ι)
  /-- reader `r`'s `read_seqcount_retry` -/
  | retry (r : Nat)

variable {ι V α : Type} [DecidableEq ι] (prog : α → List (ι × V))

/-- One step, if it can be taken: `read_seqcount_begin` spins while the sequence is odd,
and a section starts only when the last one has ended. -/
def step (s : State ι V α) : Act ι α → Option (State ι V α)
  | .writeBegin a => match s.writer with
    | .idle => some { s with count := s.count + 1, writer := .writing a (prog a) }
    | .writing _ _ => none
  | .store => match s.writer with
    | .writing a ((i, v) :: rest) => some { s with data := update s.data i v, writer := .writing a rest }
    | _ => none
  | .writeEnd => match s.writer with
    | .writing a [] => some { s with count := s.count + 1, writer := .idle, published := s.published ++ [a] }
    | _ => none
  | .readBegin r => match s.readers r with
    | .begin =>
      if s.sequence % 2 = 0 then some { s with readers := update s.readers r (.copying s.count fun _ => none) }
      else none
    | _ => none
  | .load r i => match s.readers r with
    | .copying seen copy =>
      some { s with readers := update s.readers r (.copying seen (update copy i (some (s.data i)))) }
    | _ => none
  | .retry r => match s.readers r with
    | .copying seen copy =>
      some { s with readers := update s.readers r (if s.sequence = seen % 2 ^ 32 then .done copy else .begin) }
    | _ => none

/-- `seqcount_init`, with the words as they are before the first section. -/
def init (d₀ : ι → V) : State ι V α := ⟨0, d₀, .idle, fun _ => .begin, []⟩

/-- The states reached from `init d₀`. -/
inductive Reachable (d₀ : ι → V) : State ι V α → Prop
  | init : Reachable d₀ (init d₀)
  | step {s s' : State ι V α} (a : Act ι α) : Reachable d₀ s → step prog s a = some s' → Reachable d₀ s'

/-- Several steps in a row. -/
def run (s : State ι V α) : List (Act ι α) → Option (State ι V α)
  | [] => some s
  | a :: as => (step prog s a).bind fun s' => run s' as

theorem Reachable.run {d₀ : ι → V} {s s' : State ι V α} :
    ∀ {as : List (Act ι α)}, Reachable prog d₀ s → Seqcount.run prog s as = some s' → Reachable prog d₀ s'
  | [], hs, h => by cases h; exact hs
  | a :: as, hs, h => by
    simp only [Seqcount.run, Option.bind_eq_some] at h
    obtain ⟨s₁, h₁, h₂⟩ := h
    exact Reachable.run (.step a hs h₁) h₂

/-! ## What the sections publish -/

/-- The words after `stores`, in order. -/
def applyStores (d : ι → V) (stores : List (ι × V)) : ι → V :=
  stores.foldl (fun d p => update d p.1 p.2) d

/-- The words after the sections publishing `as`, each applied whole. -/
def publish (d₀ : ι → V) (as : List α) : ι → V :=
  as.foldl (fun d a => applyStores d (prog a)) d₀

@[simp] theorem applyStores_nil (d : ι → V) : applyStores d [] = d := rfl

theorem applyStores_append (d : ι → V) (xs ys : List (ι × V)) :
    applyStores d (xs ++ ys) = applyStores (applyStores d xs) ys := List.foldl_append ..

theorem publish_append (d₀ : ι → V) (as : List α) (a : α) :
    publish prog d₀ (as ++ [a]) = applyStores (publish prog d₀ as) (prog a) := by
  simp [publish, List.foldl_append]

/-! ## The invariant -/

/-- What holds in every reachable state. -/
structure Inv (d₀ : ι → V) (s : State ι V α) : Prop where
  /-- the sequence is odd exactly inside a section -/
  parity : s.count % 2 = 0 ↔ s.writer = .idle
  /-- between sections the words are what the completed sections published -/
  idle_data : s.writer = .idle → s.data = publish prog d₀ s.published
  /-- inside one the section has made a prefix of its stores -/
  writing_data : ∀ a rest, s.writer = .writing a rest →
    ∃ done, prog a = done ++ rest ∧ s.data = applyStores (publish prog d₀ s.published) done
  /-- a reader began at an even count, and while the count has not moved its copies are current -/
  copying : ∀ r seen copy, s.readers r = .copying seen copy →
    seen ≤ s.count ∧ seen % 2 = 0 ∧ (seen = s.count → ∀ i v, copy i = some v → s.data i = v)

variable {prog} {d₀ : ι → V} {s : State ι V α}

theorem inv_init : Inv prog d₀ (init d₀ : State ι V α) where
  parity := by simp [init]
  idle_data _ := rfl
  writing_data _ _ h := nomatch h
  copying _ _ _ h := nomatch h

omit [DecidableEq ι] in
/-- The readers other than `r` keep what they hold. -/
theorem copying_update {rs : Nat → Reader ι V} {r r' : Nat} {x : Reader ι V} {seen : Nat} {copy : ι → Option V}
    (h : update rs r x r' = .copying seen copy) : r' = r ∧ x = .copying seen copy ∨ rs r' = .copying seen copy := by
  by_cases hr : r' = r
  · subst hr; simp at h; exact .inl ⟨rfl, h⟩
  · simp [Function.update_noteq hr] at h; exact .inr h

/-- A writer step moves the count past every count a reader began at, so no reader is
current after it. -/
theorem Inv.copying_writer (hi : Inv prog d₀ s) {count' : Nat} {data : ι → V}
    (hc : count' = s.count + 1 ∨ count' = s.count ∧ s.count % 2 = 1) :
    ∀ r seen copy, s.readers r = .copying seen copy →
      seen ≤ count' ∧ seen % 2 = 0 ∧ (seen = count' → ∀ i v, copy i = some v → data i = v) := by
  intro r seen copy hr
  obtain ⟨hle, he, -⟩ := hi.copying r seen copy hr
  exact ⟨by omega, he, fun h => by omega⟩

theorem Inv.step (hi : Inv prog d₀ s) {a : Act ι α} {s' : State ι V α} (h : step prog s a = some s') :
    Inv prog d₀ s' := by
  cases a with
  | writeBegin a =>
    simp only [Seqcount.step] at h
    split at h
    · rename_i hw
      cases h
      have heven := hi.parity.2 hw
      refine ⟨by simp; omega, nofun, fun a' rest h => ?_, hi.copying_writer (.inl rfl)⟩
      cases h
      exact ⟨[], rfl, hi.idle_data hw⟩
    · cases h
  | store =>
    simp only [Seqcount.step] at h
    split at h
    · rename_i a i v rest hw
      cases h
      obtain ⟨done, hp, hd⟩ := hi.writing_data a _ hw
      have hodd : s.count % 2 ≠ 0 := fun he => nomatch (hi.parity.1 he).symm.trans hw
      refine ⟨by simp; omega, nofun, fun a' rest' h => ?_, hi.copying_writer (.inr ⟨rfl, by omega⟩)⟩
      cases h
      exact ⟨done ++ [(i, v)], by simp [hp], by rw [applyStores_append, ← hd]; rfl⟩
    · cases h
  | writeEnd =>
    simp only [Seqcount.step] at h
    split at h
    · rename_i a hw
      cases h
      obtain ⟨done, hp, hd⟩ := hi.writing_data a _ hw
      have hodd : s.count % 2 ≠ 0 := fun he => nomatch (hi.parity.1 he).symm.trans hw
      refine ⟨by simp; omega, fun _ => ?_, nofun, hi.copying_writer (.inl rfl)⟩
      show s.data = publish prog d₀ (s.published ++ [a])
      rw [publish_append, hd, hp, List.append_nil]
    · cases h
  | readBegin r =>
    simp only [Seqcount.step] at h
    split at h
    · rename_i hr
      split_ifs at h with he
      cases h
      refine ⟨hi.parity, hi.idle_data, hi.writing_data, fun r' seen copy hr' => ?_⟩
      rcases copying_update hr' with ⟨rfl, hx⟩ | hr'
      · cases hx
        exact ⟨Nat.le_refl _, by unfold State.sequence at he; omega, fun _ i v h => nomatch h⟩
      · exact hi.copying r' seen copy hr'
    · cases h
  | load r i =>
    simp only [Seqcount.step] at h
    split at h
    · rename_i seen copy hr
      cases h
      refine ⟨hi.parity, hi.idle_data, hi.writing_data, fun r' seen' copy' hr' => ?_⟩
      rcases copying_update hr' with ⟨rfl, hx⟩ | hr'
      · cases hx
        obtain ⟨hle, he, hc⟩ := hi.copying r' seen copy hr
        refine ⟨hle, he, fun hs j v hj => ?_⟩
        by_cases hji : j = i
        · subst hji; simp at hj; exact hj
        · rw [Function.update_noteq hji] at hj; exact hc hs j v hj
      · exact hi.copying r' seen' copy' hr'
    · cases h
  | retry r =>
    simp only [Seqcount.step] at h
    split at h
    · rename_i seen copy hr
      cases h
      refine ⟨hi.parity, hi.idle_data, hi.writing_data, fun r' seen' copy' hr' => ?_⟩
      rcases copying_update hr' with ⟨rfl, hx⟩ | hr'
      · split_ifs at hx
      · exact hi.copying r' seen' copy' hr'
    · cases h

theorem Reachable.inv (hs : Reachable prog d₀ s) : Inv prog d₀ s := by
  induction hs with
  | init => exact inv_init
  | step _ _ h ih => exact ih.step h

/-! ## Reads -/

/-- **A read that leaves the loop is consistent.** When reader `r`'s `read_seqcount_retry`
finds the sequence where its `read_seqcount_begin` left it, and fewer than `2 ^ 32`
increments lie between the two, no section is in progress and every word the reader
copied is the word the completed sections published. -/
theorem retry_consistent (hs : Reachable prog d₀ s) {r seen : Nat} {copy : ι → Option V}
    (hr : s.readers r = .copying seen copy) (hwrap : s.count < seen + 2 ^ 32)
    (hok : s.sequence = seen % 2 ^ 32) :
    s.writer = .idle ∧ ∀ i v, copy i = some v → v = publish prog d₀ s.published i := by
  have hi := hs.inv
  obtain ⟨hle, heven, hcur⟩ := hi.copying r seen copy hr
  have hseen : seen = s.count := by unfold State.sequence at hok; omega
  have hidle : s.writer = .idle := hi.parity.1 (hseen ▸ heven)
  refine ⟨hidle, fun i v hc => ?_⟩
  rw [← hi.idle_data hidle, hcur hseen i v hc]

/-! ## `get_roots` and `set_roots` -/

/-- The words of `struct scoutfs_net_roots`. -/
inductive RootsWord where
  | fsRoot | logsRoot | srchRoot
  deriving DecidableEq

/-- `struct scoutfs_net_roots`, over the type `β` of a btree root. -/
structure NetRoots (β : Type) where
  fsRoot : β
  logsRoot : β
  srchRoot : β

/-- The roots as words. -/
def NetRoots.word {β : Type} (r : NetRoots β) : RootsWord → β
  | .fsRoot => r.fsRoot
  | .logsRoot => r.logsRoot
  | .srchRoot => r.srchRoot

/-- `set_roots(server, fs_root, logs_root, srch_root)`: its three stores, in order. -/
def setRoots {β : Type} (r : NetRoots β) : List (RootsWord × β) :=
  [(.fsRoot, r.fsRoot), (.logsRoot, r.logsRoot), (.srchRoot, r.srchRoot)]

/-- `*roots = server->roots` in `get_roots`: the roots, once every word is loaded. -/
def getRoots {β : Type} (copy : RootsWord → Option β) : Option (NetRoots β) :=
  match copy .fsRoot, copy .logsRoot, copy .srchRoot with
  | some fs, some logs, some srch => some ⟨fs, logs, srch⟩
  | _, _, _ => none

/-- `set_roots` stores every word. -/
theorem applyStores_setRoots {β : Type} (d : RootsWord → β) (r : NetRoots β) :
    applyStores d (setRoots r) = r.word := by
  funext w
  cases w <;> rfl

/-- Between sections the words are the roots of the last `set_roots`. -/
theorem publish_setRoots {β : Type} : ∀ (r₀ : NetRoots β) (rs : List (NetRoots β)),
    publish setRoots r₀.word rs = (rs.getLastD r₀).word
  | _, [] => rfl
  | r₀, r :: rs => by
    rw [List.getLastD_cons, ← publish_setRoots r rs, publish, List.foldl_cons, applyStores_setRoots]
    rfl

/-- **`get_roots` returns the roots of the last `set_roots`.** A `get_roots` that leaves
its loop, with fewer than `2 ^ 32` increments of `roots_seqcount` since its
`read_seqcount_begin`, returns exactly the three roots that the last completed `set_roots`
stored (the roots the server started with if there was none): never a root of a
`set_roots` in progress, and never roots of two commits. -/
theorem get_roots_last_set {β : Type} {r₀ : NetRoots β} {s : State RootsWord β (NetRoots β)}
    (hs : Reachable setRoots r₀.word s) {r seen : Nat} {copy : RootsWord → Option β}
    (hr : s.readers r = .copying seen copy) (hwrap : s.count < seen + 2 ^ 32)
    (hok : s.sequence = seen % 2 ^ 32) {roots : NetRoots β} (hget : getRoots copy = some roots) :
    roots = s.published.getLastD r₀ := by
  obtain ⟨-, hc⟩ := retry_consistent hs hr hwrap hok
  rw [publish_setRoots] at hc
  unfold getRoots at hget
  split at hget
  · rename_i fs logs srch h₁ h₂ h₃
    cases hget
    rw [hc _ _ h₁, hc _ _ h₂, hc _ _ h₃]
    rfl
  · cases hget

/-- A commit's `set_roots` of the roots `1, 2, 3`, then a `get_roots` loading the three words. -/
def demoRun : List (Act RootsWord (NetRoots Nat)) :=
  [.writeBegin ⟨1, 2, 3⟩, .store, .store, .store, .writeEnd,
   .readBegin 0, .load 0 .fsRoot, .load 0 .logsRoot, .load 0 .srchRoot]

/-- The state after `demoRun`, from roots all zero. -/
def demoState : State RootsWord Nat (NetRoots Nat) :=
  (run setRoots (init (NetRoots.word ⟨0, 0, 0⟩)) demoRun).getD (init (NetRoots.word ⟨0, 0, 0⟩))

theorem get_roots_last_set_demo : (⟨1, 2, 3⟩ : NetRoots Nat) = demoState.published.getLastD ⟨0, 0, 0⟩ :=
  get_roots_last_set (Reachable.run setRoots .init
      (rfl : run setRoots (init (NetRoots.word ⟨0, 0, 0⟩)) demoRun = some demoState))
    (rfl : demoState.readers 0 = _)
    (by decide : demoState.count < 2 + 2 ^ 32) (by decide : demoState.sequence = 2 % 2 ^ 32) rfl

/-! ## The bound on the increments is needed -/

/-- One whole `set_roots`, from a state between sections. -/
theorem run_setRoots {β : Type} {s : State RootsWord β (NetRoots β)} (hw : s.writer = .idle) (r : NetRoots β) :
    run setRoots s [.writeBegin r, .store, .store, .store, .writeEnd] =
      some { s with count := s.count + 2, data := r.word, published := s.published ++ [r] } := by
  simp only [run, step, hw, Option.bind_some, setRoots]
  rw [← applyStores_setRoots s.data r]
  rfl

/-- `n + 1` commits' `set_roots` of the same roots in a row. -/
theorem Reachable.setRoots_replicate {β : Type} {r₀ r : NetRoots β} :
    ∀ (n : Nat) {s : State RootsWord β (NetRoots β)}, Reachable setRoots r₀.word s → s.writer = .idle →
      Reachable setRoots r₀.word
        { s with count := s.count + 2 * (n + 1), data := r.word, published := s.published ++ List.replicate (n + 1) r }
  | 0, _, hs, hw => hs.run setRoots (run_setRoots hw r)
  | n + 1, s, hs, hw => by
    have h := Reachable.setRoots_replicate (r := r) n (hs.run setRoots (run_setRoots hw r)) hw
    have hc : s.count + 2 + 2 * (n + 1) = s.count + 2 * (n + 1 + 1) := by omega
    simpa only [hc, List.append_assoc, List.singleton_append, ← List.replicate_succ] using h

theorem getLastD_append_replicate {β : Type} (l : List β) (n : Nat) (a b : β) :
    (l ++ List.replicate (n + 1) a).getLastD b = a := by
  simp [List.getLastD_eq_getLast?, List.getLast?_append, List.getLast?_replicate]

/-- **Without the bound a `get_roots` can be torn.** A reader loads `fs_root` from the
roots the server started with, 2^31 commits' `set_roots` bring the sequence back to where
its `read_seqcount_begin` left it, and it loads the other two: `read_seqcount_retry` lets
it out with roots that no `set_roots` stored. -/
theorem get_roots_torn_after_wrap : ∃ (s : State RootsWord Nat (NetRoots Nat)) (copy : RootsWord → Option Nat),
    Reachable setRoots (NetRoots.word ⟨0, 0, 0⟩) s ∧ s.readers 0 = .copying 0 copy ∧
      s.count = 0 + 2 ^ 32 ∧ s.sequence = 0 % 2 ^ 32 ∧ getRoots copy = some ⟨0, 1, 1⟩ ∧
      s.published.getLastD ⟨0, 0, 0⟩ = ⟨1, 1, 1⟩ := by
  have h₀ : Reachable setRoots (NetRoots.word ⟨0, 0, 0⟩) (init (NetRoots.word ⟨0, 0, 0⟩) : State _ Nat _) := .init
  have h₁ := h₀.run setRoots (by exact rfl : run setRoots _ [.readBegin 0, .load 0 .fsRoot] = some _)
  have h₂ := Reachable.setRoots_replicate (r := ⟨1, 1, 1⟩) (2 ^ 31 - 1) h₁ rfl
  have h₃ := h₂.run setRoots (by exact rfl : run setRoots _ [.load 0 .logsRoot, .load 0 .srchRoot] = some _)
  exact ⟨_, _, h₃, rfl, rfl, rfl, rfl, getLastD_append_replicate _ _ _ _⟩

/-! ## `get_volopt_val` and the `volopt_seqcount` sections -/

/-- The words of `struct scoutfs_volume_options` the server reads: `set_bits` and the
`data_alloc_zone_blocks` slot. -/
inductive VoloptWord where
  | setBits | dataAllocZoneBlocks
  deriving DecidableEq

/-- What a word of the options holds. -/
inductive VoloptValue where
  | bits (b : UInt64)
  | blocks (n : Nat)

/-- The options as words. -/
def voloptWords (v : Volopt.VolumeOptions) : VoloptWord → VoloptValue
  | .setBits => .bits v.setBits
  | .dataAllocZoneBlocks => .blocks v.dataAllocZoneBlocks

/-- A `volopt_seqcount` section. `server->volopt = super->volopt` (`some`) in
`scoutfs_server_worker`, and in `server_set_volopt` and `server_clear_volopt` once their
commit succeeded; after a failed commit the section stores nothing to `server->volopt`
(`none`). -/
def voloptSection : Option Volopt.VolumeOptions → List (VoloptWord × VoloptValue)
  | some v => [(.setBits, .bits v.setBits), (.dataAllocZoneBlocks, .blocks v.dataAllocZoneBlocks)]
  | none => []

/-- The options the sections left in `server->volopt`: the last ones stored, or `v₀`. -/
def lastStored (v₀ : Volopt.VolumeOptions) (os : List (Option Volopt.VolumeOptions)) : Volopt.VolumeOptions :=
  os.foldl (fun v o => o.getD v) v₀

/-- `get_volopt_val(server, SCOUTFS_VOLOPT_DATA_ALLOC_ZONE_BLOCKS_NR, &val)` from the words
its last pass loaded: `set_bits`, and the option's slot when its bit is set. -/
def getVoloptValCopy (copy : VoloptWord → Option VoloptValue) : Option (Bool × Nat) :=
  match copy .setBits with
  | some (.bits b) =>
    if b &&& Volopt.VOLOPT_DATA_ALLOC_ZONE_BLOCKS_BIT ≠ 0 then
      match copy .dataAllocZoneBlocks with
      | some (.blocks n) => some (true, n)
      | _ => none
    else some (false, 0)
  | _ => none

/-- Between sections the words are the options last stored. -/
theorem publish_voloptSection : ∀ (v₀ : Volopt.VolumeOptions) (os : List (Option Volopt.VolumeOptions)),
    publish voloptSection (voloptWords v₀) os = voloptWords (lastStored v₀ os)
  | _, [] => rfl
  | v₀, none :: os => publish_voloptSection v₀ os
  | v₀, some v :: os => by
    have h : applyStores (voloptWords v₀) (voloptSection (some v)) = voloptWords v := by
      funext w
      cases w <;> rfl
    rw [publish, List.foldl_cons, h]
    exact publish_voloptSection v os

/-- **`get_volopt_val` reads one value of the options.** A `get_volopt_val` that leaves its
loop, with fewer than `2 ^ 32` increments of `volopt_seqcount` since its
`read_seqcount_begin`, returns what the atomic reading of the volume option model gives on
the options the last section stored: whether `data_alloc_zone_blocks` is set and its value
come from the same options, never from a section in progress, and a section after a failed
commit changes nothing a reader sees. -/
theorem get_volopt_val_last_stored {v₀ : Volopt.VolumeOptions}
    {s : State VoloptWord VoloptValue (Option Volopt.VolumeOptions)}
    (hs : Reachable voloptSection (voloptWords v₀) s) {r seen : Nat} {copy : VoloptWord → Option VoloptValue}
    (hr : s.readers r = .copying seen copy) (hwrap : s.count < seen + 2 ^ 32)
    (hok : s.sequence = seen % 2 ^ 32) {res : Bool × Nat} (hget : getVoloptValCopy copy = some res)
    (st : Volopt.State) :
    res = Volopt.getVoloptVal { st with serverVolopt := lastStored v₀ s.published } := by
  obtain ⟨-, hc⟩ := retry_consistent hs hr hwrap hok
  rw [publish_voloptSection] at hc
  unfold getVoloptValCopy at hget
  split at hget
  · rename_i b hb
    cases hc _ _ hb
    simp only [Volopt.getVoloptVal]
    split_ifs at hget ⊢
    · split at hget
      · rename_i n hn
        cases hc _ _ hn
        cases hget
        rfl
      · cases hget
    · cases hget
      rfl
  · cases hget

/-- A `SET_VOLOPT` of the zone blocks, a failed one, and a reader after both. -/
def voloptRun : List (Act VoloptWord (Option Volopt.VolumeOptions)) :=
  [.writeBegin (some ⟨1, 8⟩), .store, .store, .writeEnd, .writeBegin none, .writeEnd,
   .readBegin 0, .load 0 .setBits, .load 0 .dataAllocZoneBlocks]

/-- The state after `voloptRun`, from options all zero. -/
def voloptState : State VoloptWord VoloptValue (Option Volopt.VolumeOptions) :=
  (run voloptSection (init (voloptWords ⟨0, 0⟩)) voloptRun).getD (init (voloptWords ⟨0, 0⟩))

theorem get_volopt_val_last_stored_run :
    (true, 8) = Volopt.getVoloptVal { Volopt.zoned with serverVolopt := lastStored ⟨0, 0⟩ voloptState.published } :=
  get_volopt_val_last_stored (Reachable.run voloptSection .init
      (rfl : run voloptSection (init (voloptWords ⟨0, 0⟩)) voloptRun = some voloptState))
    (rfl : voloptState.readers 0 = _)
    (by decide : voloptState.count < 4 + 2 ^ 32) (by decide : voloptState.sequence = 4 % 2 ^ 32) rfl _

end Scoutfs.Seqcount
