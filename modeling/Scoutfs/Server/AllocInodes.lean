import Mathlib.Order.Interval.Finset.Nat
import Scoutfs.Server.Commit

/-!
# Inode number batches

`server_alloc_inodes` as a handler of the commit protocol. Holding the commit,
and under `next_ino_lock`, it takes `nr = min(count, U64_MAX - ino)` numbers
starting at `ino = super->next_ino` and advances `next_ino` by `nr`; once
`scoutfs_server_apply_commit` returns it replies `{ino, nr}` if the commit
succeeded and zeros otherwise. A failed commit does not give the numbers back:
the in-memory `next_ino` stays advanced.

The request's count is the payload of the handler's `hold` label, so a run of the
protocol records what every request asked for; `lastRequest h ls` is the count of
handler `h`'s latest request in the run `ls`.

`alloc_inodes_ranges` holds after every run, for any starting `next_ino`, any
counts and any commit outcomes: `next_ino` never decreases or wraps, the reply a
handler sends after a successful commit carries `nr = min(count, U64_MAX - ino)`
for the count of the request it serves and ends at or below `U64_MAX`, successful
replies are pairwise disjoint, and each lies below the `next_ino` of every super
block written after it. The invariants behind it are `RangeInv`, over the state
and the log, whose key step is `takeInodes` (its range starts where every earlier
range ended), and `lastRequest_of_taken`, over the labels of the run.
-/

namespace Scoutfs.AllocInodes

open Commit Function

/-- What `server_alloc_inodes` reads and writes: `super->next_ino`, and for each
handler its locals `lecount`, `ino` and `nr` once it took its numbers. -/
structure State where
  nextIno : Nat
  taken : Nat → Option (Nat × Nat × Nat)

/-- The reply `struct scoutfs_net_inode_alloc`. -/
structure Answer where
  ino : Nat
  nr : Nat
  deriving DecidableEq, Repr

/-- The `next_ino_lock` section of handler `h`: `ino = next_ino`,
`nr = min(count, U64_MAX - ino)`, `le64_add_cpu(&next_ino, nr)`. -/
def takeInodes (h count : Nat) (s : State) : State :=
  let ino := s.nextIno
  let nr := min count (U64_MAX - ino)
  { nextIno := le64AddCpu ino nr, taken := update s.taken h (some (count, ino, nr)) }

/-- The reply: `ial` stays zeroed unless the commit returned 0. -/
def answer (r : Int) : Option (Nat × Nat × Nat) → Answer
  | some (_, ino, nr) => if r = 0 then ⟨ino, nr⟩ else ⟨0, 0⟩
  | none => ⟨0, 0⟩

/-- The handler's locals are gone once the reply is sent. -/
def clearTaken (h : Nat) (s : State) : State := { s with taken := update s.taken h none }

/-- `server_alloc_inodes` handlers, the request's count being the hold's payload.
The `next_ino_lock` section runs in the hold: holding `commit_rwsem` shared, nothing
of the commit worker comes between `scoutfs_server_hold_commit` and the section,
and the spinlock orders it with the other handlers' sections, so the handler makes
no change after it (`Empty`). The commit steps leave `next_ino` alone. -/
def handlers : Handlers State Nat Empty Int Answer where
  hold h count s := some (takeInodes h count s)
  act _ a _ := a.elim
  err _ _ := 0
  finish h r s := (clearTaken h s, answer r (s.taken h))
  commit r s := (s, r)

/-- The server after reading a super block whose `next_ino` is `n`. -/
def start (n : Nat) : State := { nextIno := n, taken := fun _ => none }

theorem takeInodes_nextIno {h c : Nat} {s : State} (hb : s.nextIno ≤ U64_MAX) :
    (takeInodes h c s).nextIno = s.nextIno + min c (U64_MAX - s.nextIno) :=
  le64AddCpu_of_le (by omega)

/-- A request for five numbers with one left gets that one, and `next_ino` stops at `U64_MAX`. -/
example : (takeInodes 1 5 (start (U64_MAX - 1))).taken 1 = some (5, U64_MAX - 1, 1) ∧
    (takeInodes 1 5 (start (U64_MAX - 1))).nextIno = U64_MAX := by
  decide

@[simp] theorem clearTaken_nextIno (h : Nat) (s : State) : (clearTaken h s).nextIno = s.nextIno := rfl

theorem clearTaken_taken {h h' : Nat} {s : State} {t : Nat × Nat × Nat}
    (ht : (clearTaken h s).taken h' = some t) : h' ≠ h ∧ s.taken h' = some t := by
  by_cases hh : h' = h
  · subst hh; simp [clearTaken] at ht
  · exact ⟨hh, by simpa [clearTaken, update_noteq hh] using ht⟩

theorem takeInodes_taken {h h' c c' a n : Nat} {s : State}
    (ht : (takeInodes h c s).taken h' = some (c', a, n)) :
    h' = h ∧ c' = c ∧ a = s.nextIno ∧ n = min c (U64_MAX - s.nextIno) ∨
      h' ≠ h ∧ s.taken h' = some (c', a, n) := by
  by_cases hh : h' = h
  · subst hh; simp [takeInodes] at ht; omega
  · exact .inr ⟨hh, by simpa [takeInodes, update_noteq hh] using ht⟩

theorem answer_of_ne_zero {r : Int} (o : Option (Nat × Nat × Nat)) (hr : r ≠ 0) :
    (answer r o).ino = 0 ∧ (answer r o).nr = 0 := by
  rcases o with _ | ⟨c, a, n⟩ <;> simp [answer, hr]

@[simp] theorem takeInodes_taken_self (h c : Nat) (s : State) :
    (takeInodes h c s).taken h = some (c, s.nextIno, min c (U64_MAX - s.nextIno)) := by
  simp [takeInodes]

variable {s s' : Server State Answer} {l : Label Nat Empty Int}

/-- What a step of the handlers does to `next_ino`, the locals and the log. -/
theorem step_alloc (hs : step handlers s l = some s') :
    (s'.mem = s.mem ∧ s'.log = s.log) ∨
    (∃ h c, s'.mem = takeInodes h c s.mem ∧ s'.log = s.log) ∨
    (∃ h r, s'.mem = clearTaken h s.mem ∧
      s'.log = s.log ++ [Event.replied h r (answer r (s.mem.taken h))]) ∨
    (s'.mem = s.mem ∧ s'.log = s.log ++ [Event.wrote s.mem]) ∨
    (∃ h r, s'.mem = s.mem ∧ s'.log = s.log ++ [Event.completed h r]) := by
  rcases step_effect hs with hc | ⟨h, c, hm, hl⟩ | ⟨h, a, -⟩ | ⟨h, r, hm, hl⟩ | ⟨o, hm, hl⟩ | hc
  · exact .inl hc
  · exact .inr (.inl ⟨h, c, (Option.some.inj hm).symm, hl⟩)
  · exact a.elim
  · exact .inr (.inr (.inl ⟨h, r, hm, hl⟩))
  · have hm' : s'.mem = s.mem := hm
    rw [hm'] at hl
    split at hl
    · exact .inr (.inr (.inr (.inl ⟨hm', hl⟩)))
    · exact .inl ⟨hm', hl⟩
  · exact .inr (.inr (.inr (.inr hc)))

/-- `super->next_ino` never decreases. -/
theorem nextIno_le_step (hb : s.mem.nextIno ≤ U64_MAX) (hs : step handlers s l = some s') :
    s.mem.nextIno ≤ s'.mem.nextIno := by
  rcases step_alloc hs with ⟨hm, -⟩ | ⟨h, c, hm, -⟩ | ⟨h, r, hm, -⟩ | ⟨hm, -⟩ | ⟨h, r, hm, -⟩ <;>
    rw [hm]
  case inr.inl => rw [takeInodes_nextIno hb]; omega
  all_goals simp

/-! ## Ranges -/

/-- `[a, a + n)` ends before `[a', a' + n')` starts or starts after it ends. -/
def Apart (a n a' n' : Nat) : Prop := a + n ≤ a' ∨ a' + n' ≤ a

theorem Apart.symm {a n a' n' : Nat} (h : Apart a n a' n') : Apart a' n' a n := Or.symm h

/-- Ranges that are `Apart` share no inode number. -/
theorem Apart.disjoint {a n a' n' : Nat} (h : Apart a n a' n') :
    Disjoint (Finset.Ico a (a + n)) (Finset.Ico a' (a' + n')) := by
  rw [Finset.disjoint_left]
  intro x hx hx'
  simp only [Finset.mem_Ico] at hx hx'
  unfold Apart at h
  omega

/-- The range a handler took: clamped, and below `next_ino`. -/
def Clamped (bound c a n : Nat) : Prop := n = min c (U64_MAX - a) ∧ a + n ≤ bound

theorem Clamped.mono {b b' c a n : Nat} (h : Clamped b c a n) (hb : b ≤ b') : Clamped b' c a n :=
  ⟨h.1, by have := h.2; omega⟩

/-- What the server state and log keep of the ranges handed out: the handlers'
ranges are clamped, and every range taken or replied lies below `next_ino` and
apart from every other. -/
structure RangeInv (m : State) (log : List (Event State Answer)) : Prop where
  bound : m.nextIno ≤ U64_MAX
  taken : ∀ {h c a n}, m.taken h = some (c, a, n) → Clamped m.nextIno c a n
  replied : ∀ {i h : Nat} {x : Answer}, log[i]? = some (Event.replied h 0 x) →
    x.ino + x.nr ≤ m.nextIno
  /-- a reply with an error carries no range -/
  failed : ∀ {i h : Nat} {r : Int} {x : Answer}, log[i]? = some (Event.replied h r x) → r ≠ 0 →
    x.ino = 0 ∧ x.nr = 0
  taken_taken : ∀ {h h' c a n c' a' n'}, h ≠ h' → m.taken h = some (c, a, n) →
    m.taken h' = some (c', a', n') → Apart a n a' n'
  taken_replied : ∀ {h c a n i h' : Nat} {x : Answer}, m.taken h = some (c, a, n) →
    log[i]? = some (Event.replied h' 0 x) → Apart a n x.ino x.nr
  replied_replied : ∀ {i j h h' : Nat} {x x' : Answer}, i ≠ j →
    log[i]? = some (Event.replied h 0 x) → log[j]? = some (Event.replied h' 0 x') →
    Apart x.ino x.nr x'.ino x'.nr
  written : ∀ {i j h : Nat} {x : Answer} {m' : State}, i < j →
    log[i]? = some (Event.replied h 0 x) → log[j]? = some (Event.wrote m') →
    x.ino + x.nr ≤ m'.nextIno

/-! ## The invariant holds initially and after every step -/

section Preservation

variable {m : State} {log : List (Event State Answer)}

theorem rangeInv_start {n : Nat} (hn : n ≤ U64_MAX) : RangeInv (start n) [Event.wrote (start n)] := by
  have hx : ∀ {i h : Nat} {r : Int} {x : Answer},
      [Event.wrote (start n)][i]? ≠ some (Event.replied h r x) := by
    intro i; cases i <;> simp
  exact ⟨hn, fun ht => by simp [start] at ht, fun h => absurd h hx, fun h => absurd h hx,
    fun _ ht => by simp [start] at ht, fun ht => by simp [start] at ht, fun _ h => absurd h hx,
    fun _ h => absurd h hx⟩

theorem RangeInv.clear (hi : RangeInv m log) (h : Nat) : RangeInv (clearTaken h m) log where
  bound := hi.bound
  taken ht := hi.taken (clearTaken_taken ht).2
  replied := hi.replied
  failed := hi.failed
  taken_taken hne ht ht' := hi.taken_taken hne (clearTaken_taken ht).2 (clearTaken_taken ht').2
  taken_replied ht := hi.taken_replied (clearTaken_taken ht).2
  replied_replied := hi.replied_replied
  written := hi.written

/-- The range just taken starts at the old `next_ino`, where every earlier range ends. -/
theorem RangeInv.take (hi : RangeInv m log) (h c : Nat) :
    RangeInv (takeInodes h c m) log := by
  have hb := hi.bound
  have hnext := takeInodes_nextIno (h := h) (c := c) hb
  have hle : m.nextIno ≤ (takeInodes h c m).nextIno := by omega
  refine ⟨by omega, fun ht => ?_, fun hx => (hi.replied hx).trans hle, hi.failed,
    fun hne ht ht' => ?_, fun ht hx => ?_, hi.replied_replied, hi.written⟩
  · rcases takeInodes_taken ht with ⟨-, rfl, rfl, rfl⟩ | ⟨-, ht⟩
    · exact ⟨rfl, by omega⟩
    · exact (hi.taken ht).mono hle
  · rcases takeInodes_taken ht with ⟨e, -, rfl, rfl⟩ | ⟨-, ht⟩ <;>
      rcases takeInodes_taken ht' with ⟨e', -, rfl, rfl⟩ | ⟨-, ht'⟩
    · exact absurd (e.trans e'.symm) hne
    · exact .inr (hi.taken ht').2
    · exact .inl (hi.taken ht).2
    · exact hi.taken_taken hne ht ht'
  · rcases takeInodes_taken ht with ⟨-, -, rfl, rfl⟩ | ⟨-, ht⟩
    · exact .inr (hi.replied hx)
    · exact hi.taken_replied ht hx

/-- Appending an event other than a reply keeps the invariant, as long as a super
block it writes lies above every successful reply. -/
theorem RangeInv.append (hi : RangeInv m log) {e : Event State Answer}
    (hr : ∀ h r x, e ≠ Event.replied h r x)
    (hw : ∀ m', e = Event.wrote m' → ∀ {i h : Nat} {x : Answer},
      log[i]? = some (Event.replied h 0 x) → x.ino + x.nr ≤ m'.nextIno) :
    RangeInv m (log ++ [e]) := by
  have old : ∀ {i h : Nat} {r : Int} {x : Answer}, (log ++ [e])[i]? = some (Event.replied h r x) →
      log[i]? = some (Event.replied h r x) := fun hx =>
    (getElem?_append_singleton_eq_some hx).resolve_right fun ⟨_, he⟩ => hr _ _ _ he.symm
  refine ⟨hi.bound, hi.taken, fun hx => hi.replied (old hx), fun hx => hi.failed (old hx),
    hi.taken_taken, fun ht hx => hi.taken_replied ht (old hx),
    fun hij hx hx' => hi.replied_replied hij (old hx) (old hx'), fun hij hx hm => ?_⟩
  rcases getElem?_append_singleton_eq_some hm with hm | ⟨-, he⟩
  · exact hi.written hij (old hx) hm
  · exact hw _ he.symm (old hx)

/-- What a successful reply of handler `h` carries: the range it took, or none. -/
theorem RangeInv.answer_zero (hi : RangeInv m log) {h : Nat} {x : Answer}
    (hx : answer 0 (m.taken h) = x) :
    x.ino + x.nr ≤ m.nextIno ∧
    (∀ {h' c a n}, h ≠ h' → m.taken h' = some (c, a, n) → Apart x.ino x.nr a n) ∧
    (∀ {i h' : Nat} {x' : Answer}, log[i]? = some (Event.replied h' 0 x') →
      Apart x.ino x.nr x'.ino x'.nr) := by
  subst hx
  cases ht : m.taken h with
  | none => simp [answer, Apart]
  | some t =>
    obtain ⟨c, a, n⟩ := t
    simp only [answer, if_pos rfl]
    exact ⟨(hi.taken ht).2, fun hne ht' => hi.taken_taken hne ht ht', hi.taken_replied ht⟩

theorem RangeInv.reply (hi : RangeInv m log) (h : Nat) (r : Int) :
    RangeInv (clearTaken h m) (log ++ [Event.replied h r (answer r (m.taken h))]) := by
  have hc := hi.clear h
  have lookup : ∀ {i h' : Nat} {x : Answer},
      (log ++ [Event.replied h r (answer r (m.taken h))])[i]? = some (Event.replied h' 0 x) →
      log[i]? = some (Event.replied h' 0 x) ∨ i = log.length ∧ answer 0 (m.taken h) = x := by
    intro i h' x hx
    rcases getElem?_append_singleton_eq_some hx with hx | ⟨hi, he⟩
    · exact .inl hx
    · simp only [Event.replied.injEq] at he
      obtain ⟨-, rfl, rfl⟩ := he
      exact .inr ⟨hi, rfl⟩
  refine ⟨hc.bound, hc.taken, fun hx => ?_, fun hx hr => ?_, hc.taken_taken, fun ht hx => ?_,
    fun hij hx hx' => ?_, fun hij hx hm => ?_⟩
  · rcases lookup hx with hx | ⟨-, hx⟩
    · exact hi.replied hx
    · exact (hi.answer_zero hx).1
  · rcases getElem?_append_singleton_eq_some hx with hx | ⟨-, he⟩
    · exact hi.failed hx hr
    · simp only [Event.replied.injEq] at he
      obtain ⟨-, rfl, rfl⟩ := he
      exact answer_of_ne_zero _ hr
  · obtain ⟨hne, ht⟩ := clearTaken_taken ht
    rcases lookup hx with hx | ⟨-, hx⟩
    · exact hi.taken_replied ht hx
    · exact ((hi.answer_zero hx).2.1 hne.symm ht).symm
  · rcases lookup hx with hx | ⟨hil, hx⟩ <;> rcases lookup hx' with hx' | ⟨hjl, hx'⟩
    · exact hi.replied_replied hij hx hx'
    · exact ((hi.answer_zero hx').2.2 hx).symm
    · exact (hi.answer_zero hx).2.2 hx'
    · exact absurd (hil.trans hjl.symm) hij
  · rcases getElem?_append_singleton_eq_some hm with hm | ⟨-, he⟩
    · have hj := (List.getElem?_eq_some_iff.mp hm).1
      rcases lookup hx with hx | ⟨rfl, -⟩
      · exact hi.written hij hx hm
      · omega
    · cases he

variable {s s' : Server State Answer} {l : Label Nat Empty Int}

theorem RangeInv.step (hi : RangeInv s.mem s.log) (hs : step handlers s l = some s') :
    RangeInv s'.mem s'.log := by
  rcases step_alloc hs with ⟨hm, hl⟩ | ⟨h, c, hm, hl⟩ | ⟨h, r, hm, hl⟩ | ⟨hm, hl⟩ | ⟨h, r, hm, hl⟩ <;>
    rw [hm, hl]
  · exact hi
  · exact hi.take h c
  · exact hi.reply h r
  · exact hi.append (fun _ _ _ => nofun) fun _ he _ _ _ hx => by cases he; exact hi.replied hx
  · exact hi.append (fun _ _ _ => nofun) (fun _ => nofun)

theorem rangeInv_of_reachable {n₀ : Nat} (hn₀ : n₀ ≤ U64_MAX)
    (hr : Reachable handlers (start n₀) s) : RangeInv s.mem s.log := by
  induction hr with
  | init => exact rangeInv_start hn₀
  | step l _ hs ih => exact ih.step hs

end Preservation

/-! ## Each reply answers its own request -/

/-- The count a label of handler `h` asks for: that of its `hold`. -/
def holdCount (h : Nat) : Label Nat Empty Int → Option Nat
  | .hold h' c => if h' = h then some c else none
  | _ => none

/-- The count of handler `h`'s latest request in the run `ls`. -/
def lastRequest (h : Nat) (ls : List (Label Nat Empty Int)) : Option Nat :=
  ls.reverse.findSome? (holdCount h)

theorem lastRequest_append (h : Nat) (ls : List (Label Nat Empty Int)) (l : Label Nat Empty Int) :
    lastRequest h (ls ++ [l]) = (holdCount h l).or (lastRequest h ls) := by
  simp only [lastRequest, List.reverse_append, List.reverse_singleton, List.singleton_append,
    List.findSome?_cons]
  cases holdCount h l <;> rfl

/-- A handler not idle has its locals: they are set by its hold and cleared by its finish. -/
theorem handlers_locals : handlers.Locals fun h m => m.taken h ≠ none where
  hold hm := by cases hm; simp
  hold_other hne hm ht := by cases hm; simpa [takeInodes, update_noteq hne.symm] using ht
  act {_ _ a} := a.elim
  finish_other hne ht := by simpa [handlers, clearTaken, update_noteq hne.symm] using ht
  commit ht := ht

/-- Where a handler's locals after a step come from: its hold in that step, or the
state before it. -/
theorem taken_of_step {h : Nat} {t : Nat × Nat × Nat} (hs : step handlers s l = some s')
    (ht : s'.mem.taken h = some t) :
    holdCount h l = some t.1 ∨ holdCount h l = none ∧ s.mem.taken h = some t := by
  cases l with
  | hold h' c =>
    obtain ⟨-, -, m, hm, rfl⟩ := step_hold hs
    cases hm
    rcases takeInodes_taken ht with ⟨rfl, rfl, -, -⟩ | ⟨hne, ht⟩
    · exact .inl (by simp [holdCount])
    · exact .inr ⟨by simp [holdCount, Ne.symm hne], ht⟩
  | act _ a => exact a.elim
  | finish h' => obtain ⟨r, -, rfl⟩ := step_finish hs; exact .inr ⟨rfl, (clearTaken_taken ht).2⟩
  | apply h' => obtain ⟨-, ⟨-, rfl⟩ | ⟨-, rfl⟩⟩ := step_apply hs <;> exact .inr ⟨rfl, ht⟩
  | release h' => obtain ⟨-, rfl⟩ := step_release hs; exact .inr ⟨rfl, ht⟩
  | start => obtain ⟨-, -, rfl⟩ := step_start hs; exact .inr ⟨rfl, ht⟩
  | acquire => obtain ⟨-, -, rfl⟩ := step_acquire hs; exact .inr ⟨rfl, ht⟩
  | commit o => obtain ⟨-, rfl⟩ := step_commit hs; exact .inr ⟨rfl, ht⟩
  | drain => obtain ⟨r, -, rfl⟩ := step_drain hs; exact .inr ⟨rfl, ht⟩
  | complete => obtain ⟨r, h', cws, -, rfl⟩ := step_complete hs; exact .inr ⟨rfl, ht⟩
  | unlock => obtain ⟨r, -, rfl⟩ := step_unlock hs; exact .inr ⟨rfl, ht⟩

/-- The count in a handler's locals is the count of its latest request. -/
theorem lastRequest_of_taken {m₀ : State} {ls : List (Label Nat Empty Int)}
    (hr : run handlers (init m₀) ls = some s) (h₀ : ∀ h, m₀.taken h = none) :
    ∀ {h c a n}, s.mem.taken h = some (c, a, n) → lastRequest h ls = some c := by
  induction ls using List.reverseRecOn generalizing s with
  | nil => cases hr; intro h c a n ht; simp [init, h₀] at ht
  | append_singleton ls l ih =>
    rw [run_append_singleton, Option.bind_eq_some] at hr
    obtain ⟨s₀, hr, hs⟩ := hr
    intro h c a n ht
    rw [lastRequest_append]
    rcases taken_of_step hs ht with hl | ⟨hl, ht⟩
    · rw [hl]; rfl
    · rw [hl, ih hr ht]; rfl

/-- The reply a handler sends after a successful commit answers the count of the
request it serves: `nr = min(count, U64_MAX - ino)`, ending at or below `U64_MAX`. -/
theorem finish_answers {n₀ : Nat} (hn₀ : n₀ ≤ U64_MAX) {ls : List (Label Nat Empty Int)}
    (hr : run handlers (init (start n₀)) ls = some s) {h : Nat} {x : Answer}
    (hs : step handlers s (.finish h) = some s') (hl : s'.log = s.log ++ [Event.replied h 0 x]) :
    ∃ c, lastRequest h ls = some c ∧ x.nr = min c (U64_MAX - x.ino) ∧ x.ino + x.nr ≤ U64_MAX := by
  have hreach := Reachable.run handlers .init hr
  have hi := rangeInv_of_reachable hn₀ hreach
  obtain ⟨r, hp, rfl⟩ := step_finish hs
  obtain ⟨rfl, rfl⟩ : r = 0 ∧ answer r (s.mem.taken h) = x := by simpa [handlers] using hl
  obtain ⟨⟨c, a, n⟩, ht⟩ := Option.ne_none_iff_exists'.mp
    (hreach.locals handlers_locals h (by simp [hp]))
  obtain ⟨hn, hb⟩ := hi.taken ht
  refine ⟨c, lastRequest_of_taken hr (fun _ => rfl) ht, ?_⟩
  simp only [ht, answer, if_pos rfl]
  exact ⟨hn, hb.trans hi.bound⟩

/-! ## What every run keeps -/

/-- What `server_alloc_inodes` promises after the run `ls` has reached `s`. -/
structure Ranges (ls : List (Label Nat Empty Int)) (s : Server State Answer) : Prop where
  /-- `next_ino` has not wrapped -/
  bound : s.mem.nextIno ≤ U64_MAX
  /-- and no step lowers it -/
  monotone : ∀ l s', step handlers s l = some s' → s.mem.nextIno ≤ s'.mem.nextIno
  /-- the reply a handler sends after a successful commit carries `nr = min(count,
  U64_MAX - ino)` for the count of the request it serves, its latest of the run, and
  ends at or below `U64_MAX` -/
  clamped : ∀ (h : Nat) (x : Answer) s', step handlers s (.finish h) = some s' →
    s'.log = s.log ++ [Event.replied h 0 x] →
    ∃ c, lastRequest h ls = some c ∧ x.nr = min c (U64_MAX - x.ino) ∧ x.ino + x.nr ≤ U64_MAX
  /-- every successful reply sent so far ends at or below `U64_MAX` -/
  below : ∀ (i h : Nat) (x : Answer), s.log[i]? = some (Event.replied h 0 x) → x.ino + x.nr ≤ U64_MAX
  /-- a reply with an error carries the empty range -/
  failed : ∀ (i h : Nat) (r : Int) (x : Answer), s.log[i]? = some (Event.replied h r x) → r ≠ 0 →
    x.ino = 0 ∧ x.nr = 0
  /-- two successful replies never share an inode number -/
  apart : ∀ (i j h h' : Nat) (x x' : Answer), i ≠ j → s.log[i]? = some (Event.replied h 0 x) →
    s.log[j]? = some (Event.replied h' 0 x') → Apart x.ino x.nr x'.ino x'.nr
  /-- a successful reply lies below every super block written after it -/
  written : ∀ (i j h : Nat) (x : Answer) (m : State), i < j →
    s.log[i]? = some (Event.replied h 0 x) → s.log[j]? = some (Event.wrote m) →
    x.ino + x.nr ≤ m.nextIno

/-- **Inode batches are clamped, disjoint and durable** in every interleaving of
`server_alloc_inodes` requests and commits, from any `next_ino` a super block can hold. -/
theorem alloc_inodes_ranges {n₀ : Nat} (hn₀ : n₀ ≤ U64_MAX) {ls : List (Label Nat Empty Int)}
    {s : Server State Answer} (hr : run handlers (init (start n₀)) ls = some s) : Ranges ls s := by
  have hi := rangeInv_of_reachable hn₀ (Reachable.run handlers .init hr)
  exact ⟨hi.bound, fun _ _ hs => nextIno_le_step hi.bound hs,
    fun _ _ _ hs hl => finish_answers hn₀ hr hs hl, fun _ _ _ hx => (hi.replied hx).trans hi.bound,
    fun _ _ _ _ hx hr => hi.failed hx hr, fun _ _ _ _ _ _ hij hx hx' => hi.replied_replied hij hx hx',
    fun _ _ _ _ _ hij hx hm => hi.written hij hx hm⟩

/-- Two requests from `next_ino = U64_MAX - 2`: the first asks for 1 and commits,
the second asks for 5 and gets the one number left. -/
def nearMaxRun : List (Label Nat Empty Int) :=
  [.hold 1 1, .apply 1, .release 1, .start, .acquire, .commit 0, .drain, .complete, .unlock,
   .finish 1, .hold 2 5, .apply 2, .release 2, .start, .acquire, .commit 0, .drain, .complete,
   .unlock, .finish 2]

theorem alloc_inodes_ranges_near_max :
    ∃ s, run handlers (init (start (U64_MAX - 2))) nearMaxRun = some s ∧ Ranges nearMaxRun s := by
  obtain ⟨s, hs⟩ : ∃ s, run handlers (init (start (U64_MAX - 2))) nearMaxRun = some s := ⟨_, rfl⟩
  exact ⟨s, hs, alloc_inodes_ranges (by simp [U64_MAX]) hs⟩

/-- The second request of `nearMaxRun` is answered with the number `U64_MAX - 1` alone. -/
example : (run handlers (init (start (U64_MAX - 2))) nearMaxRun).map (·.log.getLast?) =
    some (some (Event.replied 2 0 ⟨U64_MAX - 1, 1⟩)) := rfl

end Scoutfs.AllocInodes
