import Scoutfs.Server.Farewell

/-!
# The farewell request queue

`server_farewell` allocates a `struct farewell_request` for each `FAREWELL` request and
adds it at the tail of `farewell_requests`, and `queue_farewell_work` queues the worker
unless the server is shutting down. `farewell_worker` splices the whole list onto its own
`reqs` under `farewell_lock`, decides, reclaims and answers with the lock dropped, and at
`out:` splices what it kept back to the head of `farewell_requests`, queueing itself again
only when requests arrived while it ran. `server_notify_down` frees the requests of a rid
whose connection went away, and `scoutfs_server_destroy` frees all of them.

Every request the server accepted is, at any point of any interleaving of these, in
exactly one place: on `farewell_requests`, on the worker's list, answered, or freed
(`farewell_requests_conserved`). So no request is lost, and none is answered twice. The
worker's part of this is that one run answers a prefix of what it decided to send and puts
back everything else (`farewellWorker_perm`). What it answers it answers after its
reclaims: a rid the worker answers has no mounted-client item left
(`farewellWorker_answered_unmounted`), which is what a client that lost its connection
checks before deciding its farewell was processed.

Once `stop_server` has run, `queue_farewell_work` queues nothing, but `server_greeting`
calls `queue_work` itself: from then on only a greeting queues the worker again
(`farewell_queued_after_stop`), though the comment above `queue_farewell_work` wants no
farewell processing racing with the shutdown of the connection.
-/

namespace Scoutfs.Farewell

open Reclaim

/-! ## One run of the worker -/

/-- The requests a run answered, in the order of their responses. -/
def answeredOf (ev : List Event) : List Request :=
  ev.filterMap fun
    | .responded rid netId => some ⟨rid, netId⟩
    | .reclaimed _ _ => none

@[simp] theorem answeredOf_nil : answeredOf [] = [] := rfl

theorem answeredOf_append (xs ys : List Event) : answeredOf (xs ++ ys) = answeredOf xs ++ answeredOf ys :=
  List.filterMap_append ..

theorem answeredOf_responded (l : List Request) :
    answeredOf (l.map fun fw => .responded fw.rid fw.netId) = l := by
  induction l with
  | nil => rfl
  | cons fw l ih => simp only [List.map_cons, answeredOf, List.filterMap_cons] at ih ⊢; rw [ih]

theorem answeredOf_reclaimed {ev : List Event} (h : ∀ e ∈ ev, ∃ rid r, e = .reclaimed rid r) :
    answeredOf ev = [] :=
  List.filterMap_eq_nil_iff.2 fun e he => by obtain ⟨rid, r, rfl⟩ := h e he; rfl

/-- The second loop moves requests between `reqs` and `send` and loses none; on an error,
`out:` puts back all of them. -/
theorem sortRequests_perm {mounted : List MountedClient} {lookup : Nat → Bool} :
    ∀ {i : Nat} {fws : List Request} {st : Sorting},
      (∀ st', sortRequests mounted lookup i fws st = .ok st' →
        (st'.send ++ st'.reqs).Perm (st.send ++ st.reqs ++ fws)) ∧
        (∀ r, sortRequests mounted lookup i fws st = .error r → r.2.Perm (st.send ++ st.reqs ++ fws))
  | _, [], st => ⟨fun st' h => by cases h; simp, fun _ => nofun⟩
  | i, fw :: fws, st => by
    have hm : (fw :: (st.send ++ st.reqs ++ fws)).Perm (st.send ++ st.reqs ++ fw :: fws) :=
      List.perm_middle.symm
    unfold sortRequests
    split_ifs
    · split
      · exact ⟨fun st' h => (sortRequests_perm.1 st' h).trans hm, fun r h => (sortRequests_perm.2 r h).trans hm⟩
      · split_ifs
        · refine ⟨fun st' h => (sortRequests_perm.1 st' h).trans ?_,
            fun r h => (sortRequests_perm.2 r h).trans ?_⟩ <;> simp
        · exact ⟨fun st' h => (sortRequests_perm.1 st' h).trans hm, fun r h => (sortRequests_perm.2 r h).trans hm⟩
        · exact ⟨fun _ => nofun, fun r h => by cases h; exact List.Perm.refl _⟩
    · exact ⟨fun _ => nofun, fun r h => by cases h; exact List.Perm.refl _⟩

/-- The third loop moves each quorum request to `send` or keeps it. -/
theorem admitQuorum_perm (votesNeeded nonMnts : Nat) :
    ∀ (fws held send : List Request) (quoMnts quoReqs : Nat),
      let r := admitQuorum votesNeeded nonMnts fws held send quoMnts quoReqs
      (r.1 ++ r.2).Perm (held ++ send ++ fws)
  | [], held, send, _, _ => by simp [admitQuorum]
  | fw :: fws, held, send, quoMnts, quoReqs => by
    unfold admitQuorum
    split_ifs
    · exact (admitQuorum_perm votesNeeded nonMnts fws held (send ++ [fw]) _ _).trans (by simp)
    · refine (admitQuorum_perm votesNeeded nonMnts fws (held ++ [fw]) send _ _).trans ?_
      simp only [List.append_assoc, List.singleton_append]
      exact List.perm_middle.symm.append_left held

/-- **The decision keeps every request**: held and sent together are the requests taken,
and on an error `out:` puts all of them back. -/
theorem planFarewell_perm {votesNeeded : Nat} {rd : Reads} {mounted : List MountedClient}
    {reqs : List Request} :
    (∀ held send, planFarewell votesNeeded rd mounted reqs = .ok (held, send) → (held ++ send).Perm reqs) ∧
      (∀ r, planFarewell votesNeeded rd mounted reqs = .error r → r.2.Perm reqs) := by
  unfold planFarewell
  split
  · exact ⟨fun _ _ => nofun, fun r h => by cases h; exact List.Perm.refl _⟩
  · rename_i quoMnts nonMnts _
    split
    · rename_i r₀ hs
      exact ⟨fun _ _ => nofun, fun r h => by cases h; simpa using sortRequests_perm.2 r₀ hs⟩
    · rename_i st hs
      refine ⟨fun held send h => ?_, fun _ => nofun⟩
      have hq := admitQuorum_perm votesNeeded st.nonMnts st.reqs [] st.send quoMnts st.quoReqs
      rw [Except.ok.inj h] at hq
      exact hq.trans (by simpa using sortRequests_perm.1 st hs)

/-- **A run of `farewell_worker` loses and duplicates no request.** What it answers and
what `out:` puts back on `farewell_requests` are, together, the requests it spliced off. -/
theorem farewellWorker_perm (votesNeeded : Nat) (rd : Reads) (io : Nat → ReclaimIO) (net : Nat → Int)
    (reqs : List Request) (s : State) :
    (answeredOf (farewellWorker votesNeeded rd io net reqs s).events ++
      (farewellWorker votesNeeded rd io net reqs s).requeued).Perm reqs := by
  unfold farewellWorker
  split
  · rename_i e back hp
    simpa using planFarewell_perm.2 _ hp
  · rename_i held send hp
    have hperm := planFarewell_perm.1 held send hp
    obtain ⟨rs, h₁, h₂, h₃⟩ := reclaimSend_events io send 0 s []
    have hr : answeredOf (reclaimSend io 0 send s []).2.1 = [] := by
      rw [h₁]; exact answeredOf_reclaimed h₂
    dsimp only
    split_ifs
    · obtain ⟨k, hk, -⟩ := respond_spec net send 0 (reclaimSend io 0 send s []).2.1
      rw [hk]
      simp only [answeredOf_append, hr, answeredOf_responded, List.nil_append, ← List.append_assoc,
        List.take_append_drop]
      exact List.perm_append_comm.trans hperm
    · simpa [hr] using List.perm_append_comm.trans hperm

/-! ## Answered mounts have no mounted-client item -/

section Unmounted

variable {rid : Nat} {clearLeader : Bool} {c : Pools.Calls} {b : Option Nat} {hold commit : Int} {s : State}

/-- `reclaim_rid` leaves the items as they were or deletes the item of its rid. -/
theorem reclaimRid_mounted (rid : Nat) (clearLeader : Bool) (c : Pools.Calls) (b : Option Nat)
    (hold commit : Int) (s : State) :
    (reclaimRid rid clearLeader c b hold commit s).1.mounted = s.mounted ∨
      (reclaimRid rid clearLeader c b hold commit s).1.mounted = deleteMountedClient rid s.mounted := by
  unfold reclaimRid
  split_ifs
  · exact .inl rfl
  · simp only [reclaimRidBody]
    split_ifs <;> simp

theorem reclaimRid_sublist : (reclaimRid rid clearLeader c b hold commit s).1.mounted.Sublist s.mounted := by
  rcases reclaimRid_mounted rid clearLeader c b hold commit s with h | h
  exacts [h ▸ List.Sublist.refl _, h ▸ List.filter_sublist _]

/-- A `reclaim_rid` that returned 0 deleted the rid's item. -/
theorem reclaimRid_unmounted (h : (reclaimRid rid clearLeader c b hold commit s).2 = 0) :
    ∀ m ∈ (reclaimRid rid clearLeader c b hold commit s).1.mounted, m.rid ≠ rid := by
  unfold reclaimRid at h ⊢
  split_ifs at h ⊢ with hh
  · omega
  have h₀ : (reclaimRidBody rid clearLeader c b s).2 = 0 := by
    by_contra hne
    simp [TransSeq.applyCommit, hne] at h
  rw [reclaimRidBody_of_passes (reclaimRidBody_passes h₀)]
  simp [deleteMountedClient]

/-- The reclaim loop of the worker: every request it got through with 0 has no
mounted-client item once the loop is over. -/
theorem reclaimSend_unmounted (io : Nat → ReclaimIO) :
    ∀ (send : List Request) (i : Nat) (s : State) (ev : List Event),
      (∀ m ∈ (reclaimSend io i send s ev).1.mounted, m ∈ s.mounted) ∧
        ((reclaimSend io i send s ev).2.2 = 0 → ∀ fw ∈ send, ∀ m ∈ (reclaimSend io i send s ev).1.mounted, m.rid ≠ fw.rid)
  | [], _, _, _ => ⟨fun _ h => h, fun _ _ h => nomatch h⟩
  | fw :: fws, i, s, ev => by
    simp only [reclaimSend]
    split_ifs with h
    · obtain ⟨h₁, h₂⟩ := reclaimSend_unmounted io fws (i + 1)
        (reclaimRid fw.rid false (io i).calls (io i).budget (io i).hold (io i).commit s).1 (ev ++ [.reclaimed fw.rid 0])
      refine ⟨fun m hm => reclaimRid_sublist.subset (h₁ m hm), fun h₀ x hx m hm => ?_⟩
      rcases List.mem_cons.1 hx with rfl | hx
      · exact reclaimRid_unmounted h m (h₁ m hm)
      · exact h₂ h₀ x hx m hm
    · exact ⟨fun _ hm => reclaimRid_sublist.subset hm, fun h₀ => absurd h₀ h⟩

end Unmounted

/-- **A farewell is answered only once its mount is gone from `mounted_clients`.** Every
request a run of `farewell_worker` answers has a rid with no mounted-client item in the
state the run leaves. -/
theorem farewellWorker_answered_unmounted (votesNeeded : Nat) (rd : Reads) (io : Nat → ReclaimIO) (net : Nat → Int)
    (reqs : List Request) (s : State) :
    ∀ fw ∈ answeredOf (farewellWorker votesNeeded rd io net reqs s).events,
      ∀ m ∈ (farewellWorker votesNeeded rd io net reqs s).state.mounted, m.rid ≠ fw.rid := by
  unfold farewellWorker
  split
  · simp
  · rename_i held send hp
    obtain ⟨rs, h₁, h₂, -⟩ := reclaimSend_events io send 0 s []
    have hr : answeredOf (reclaimSend io 0 send s []).2.1 = [] := by
      rw [h₁]; exact answeredOf_reclaimed h₂
    dsimp only
    split_ifs with h₀
    · obtain ⟨k, hk, -⟩ := respond_spec net send 0 (reclaimSend io 0 send s []).2.1
      rw [hk, answeredOf_append, hr, answeredOf_responded, List.nil_append]
      exact fun fw hfw => (reclaimSend_unmounted io send 0 s []).2 h₀ fw (List.mem_of_mem_take hfw)
    · simp [hr]

/-- Reclaim calls that all succeed. -/
def quietIO : Nat → ReclaimIO := fun _ => ⟨⟨∅, ∅, none⟩, none, 0, 0⟩

/-- With one vote needed, mount 1's farewell is answered and mount 2 stays mounted. -/
theorem farewellWorker_answered_unmounted_two :
    (⟨2, true, true⟩ : MountedClient).rid ≠ (⟨1, 10⟩ : Request).rid :=
  farewellWorker_answered_unmounted 1 quietReads quietIO (fun _ => 0) [⟨1, 10⟩] twoQuorum ⟨1, 10⟩ (by decide)
    ⟨2, true, true⟩ (by decide)

/-! ## The queue -/

/-- `free_farewell_requests(sb, rid)`: the requests it leaves on `farewell_requests`, and
the ones it moves to `rid_list` and frees; `rid = 0` frees them all. -/
def freeFarewellRequests (rid : Nat) (reqs : List Request) : List Request × List Request :=
  (reqs.filter fun fw => !decide (rid = 0 ∨ fw.rid = rid), reqs.filter fun fw => decide (rid = 0 ∨ fw.rid = rid))

theorem freeFarewellRequests_perm (rid : Nat) (reqs : List Request) :
    ((freeFarewellRequests rid reqs).1 ++ (freeFarewellRequests rid reqs).2).Perm reqs := by
  unfold freeFarewellRequests
  simpa only [Bool.not_not] using List.filter_append_perm (fun fw : Request => !decide (rid = 0 ∨ fw.rid = rid)) reqs

/-- What the farewell paths share. -/
structure Queue where
  /-- `farewell_requests` -/
  requests : List Request
  /-- the worker's `reqs`, from its splice to `out:`; `none` while it is not running -/
  taken : Option (List Request)
  /-- `farewell_work` is queued -/
  pending : Bool
  /-- `server->shutting_down` -/
  shuttingDown : Bool
  /-- what the worker's reclaims read and change -/
  server : State
  /-- the requests answered, oldest first -/
  answered : List Request
  /-- the requests `free_farewell_requests` freed, oldest first -/
  freed : List Request

/-- An event on the farewell paths. -/
inductive Act where
  /-- `server_farewell` for the request `fw`, with its `arg_len` and whether `kmalloc`
  succeeded -/
  | farewell (fw : Request) (argLen : Nat) (alloc : Bool)
  /-- `farewell_work` starts: the splice under `farewell_lock` -/
  | workStart
  /-- the rest of that run of `farewell_worker`, with its inputs -/
  | workEnd (votesNeeded : Nat) (rd : Reads) (io : Nat → ReclaimIO) (net : Nat → Int)
  /-- `server_notify_down` for the connection of `rid` -/
  | notifyDown (rid : Nat)
  /-- `server_greeting`'s `queue_work` after it inserted a mounted client -/
  | greeting
  /-- `scoutfs_server_destroy`, once the work items are cancelled -/
  | destroy

namespace Queue

/-- `queue_farewell_work`. -/
def queueFarewellWork (q : Queue) : Queue := if q.shuttingDown then q else { q with pending := true }

/-- `stop_server`. -/
def stopServer (q : Queue) : Queue := { q with shuttingDown := true }

/-- One event, if it can happen: the worker runs only when queued and not already running,
and the server is destroyed only once it is not. -/
def step (q : Queue) : Act → Option Queue
  | .farewell fw argLen alloc =>
    if argLen ≠ 0 ∨ alloc = false then some q
    else some (queueFarewellWork { q with requests := q.requests ++ [fw] })
  | .workStart =>
    if q.pending ∧ q.taken.isNone then some { q with requests := [], taken := some q.requests, pending := false }
    else none
  | .workEnd votesNeeded rd io net => q.taken.map fun reqs =>
    let o := farewellWorker votesNeeded rd io net reqs q.server
    let q' := { q with requests := o.requeued ++ q.requests, taken := none, server := o.state,
                       answered := q.answered ++ answeredOf o.events }
    if o.ret < 0 then stopServer q' else if q.requests ≠ [] then queueFarewellWork q' else q'
  | .notifyDown rid =>
    if rid = 0 then some (stopServer q)
    else some { q with requests := (freeFarewellRequests rid q.requests).1,
                       freed := q.freed ++ (freeFarewellRequests rid q.requests).2 }
  | .greeting => some { q with pending := true }
  | .destroy =>
    if q.taken.isNone then
      some { q with requests := (freeFarewellRequests 0 q.requests).1, pending := false, shuttingDown := true,
                    freed := q.freed ++ (freeFarewellRequests 0 q.requests).2 }
    else none

/-- Several events in a row. -/
def run (q : Queue) : List Act → Option Queue
  | [] => some q
  | a :: as => (step q a).bind fun q' => run q' as

/-- A server's farewell paths before any request. -/
def init (s : State) : Queue := ⟨[], none, false, false, s, [], []⟩

/-- Every request the queue holds or has dealt with. -/
def accounted (q : Queue) : List Request := q.requests ++ q.taken.getD [] ++ q.answered ++ q.freed

@[simp] theorem accounted_queueFarewellWork (q : Queue) : (queueFarewellWork q).accounted = q.accounted := by
  unfold queueFarewellWork; split_ifs <;> rfl

@[simp] theorem accounted_stopServer (q : Queue) : (stopServer q).accounted = q.accounted := rfl

end Queue

/-- The requests `server_farewell` accepted: those with no argument, whose allocation
succeeded. -/
def accepted : List Act → List Request
  | [] => []
  | .farewell fw 0 true :: as => fw :: accepted as
  | _ :: as => accepted as

theorem accepted_cons (a : Act) (as : List Act) : accepted (a :: as) = accepted [a] ++ accepted as := by
  cases a with
  | farewell fw argLen alloc => cases argLen <;> cases alloc <;> rfl
  | _ => rfl

namespace Queue

theorem accounted_step {q q' : Queue} {a : Act} (h : step q a = some q') :
    q'.accounted.Perm (q.accounted ++ accepted [a]) := by
  simp only [List.perm_iff_count]
  intro x
  cases a with
  | farewell fw argLen alloc =>
    simp only [step] at h
    split_ifs at h with hr <;> cases h
    · rcases hr with hr | hr
      · obtain ⟨n, rfl⟩ := Nat.exists_eq_succ_of_ne_zero hr
        simp [accepted]
      · simp [hr, accepted]
    · obtain ⟨rfl, rfl⟩ : argLen = 0 ∧ alloc = true := by simpa using hr
      rw [accounted_queueFarewellWork]
      simp only [accounted, accepted, List.count_append]
      omega
  | workStart =>
    simp only [step] at h
    split_ifs at h with hr
    cases h
    obtain ⟨-, ht⟩ := hr
    simp [accounted, accepted, Option.isNone_iff_eq_none.1 ht]
  | workEnd votesNeeded rd io net =>
    simp only [step] at h
    obtain ⟨reqs, hq, rfl⟩ := Option.map_eq_some'.1 h
    have hp := (farewellWorker_perm votesNeeded rd io net reqs q.server).count_eq x
    have hacc : ∀ q' : Queue, q'.requests = (farewellWorker votesNeeded rd io net reqs q.server).requeued ++ q.requests →
        q'.taken = none → q'.answered = q.answered ++ answeredOf (farewellWorker votesNeeded rd io net reqs q.server).events →
        q'.freed = q.freed → List.count x q'.accounted = List.count x (q.accounted ++ accepted [.workEnd votesNeeded rd io net]) := by
      intro q' h₁ h₂ h₃ h₄
      simp only [accounted, h₁, h₂, h₃, h₄, hq, accepted, List.count_append, Option.getD_some, Option.getD_none] at hp ⊢
      omega
    split_ifs
    · rw [accounted_stopServer]; exact hacc _ rfl rfl rfl rfl
    · rw [accounted_queueFarewellWork]; exact hacc _ rfl rfl rfl rfl
    · exact hacc _ rfl rfl rfl rfl
  | notifyDown rid =>
    simp only [step] at h
    have hp := (freeFarewellRequests_perm rid q.requests).count_eq x
    split_ifs at h <;> cases h
    · simp [accepted]
    · simp only [accounted, accepted, List.count_append, List.count_nil] at hp ⊢
      omega
  | greeting =>
    cases h
    simp [accounted, accepted]
  | destroy =>
    simp only [step] at h
    have hp := (freeFarewellRequests_perm 0 q.requests).count_eq x
    split_ifs at h
    cases h
    simp only [accounted, accepted, List.count_append, List.count_nil] at hp ⊢
    omega

theorem accounted_run : ∀ {q q' : Queue} {as : List Act}, run q as = some q' →
    q'.accounted.Perm (q.accounted ++ accepted as)
  | q, q', [], h => by cases h; simp [accepted]
  | q, q', a :: as, h => by
    simp only [run, Option.bind_eq_some] at h
    obtain ⟨q₁, h₁, h₂⟩ := h
    rw [accepted_cons, ← List.append_assoc]
    exact (accounted_run h₂).trans ((accounted_step h₁).append_right _)

/-- Past `stop_server`, an event keeps the server shutting down, and only a greeting
queues `farewell_work` that was not queued. -/
theorem step_shuttingDown {q q' : Queue} {a : Act} (h : step q a = some q') (hs : q.shuttingDown = true) :
    q'.shuttingDown = true ∧ (q'.pending = true → q.pending = true ∨ a = .greeting) := by
  cases a with
  | farewell fw argLen alloc =>
    simp only [step] at h
    split_ifs at h <;> cases h
    · exact ⟨hs, .inl⟩
    · simp [queueFarewellWork, hs]
  | workStart =>
    simp only [step] at h
    split_ifs at h
    cases h
    exact ⟨hs, nofun⟩
  | workEnd votesNeeded rd io net =>
    simp only [step] at h
    obtain ⟨reqs, -, rfl⟩ := Option.map_eq_some'.1 h
    split_ifs <;> simp [stopServer, queueFarewellWork, hs]
  | notifyDown rid =>
    simp only [step] at h
    split_ifs at h <;> cases h <;> simp [stopServer, hs]
  | greeting =>
    cases h
    exact ⟨hs, fun _ => .inr rfl⟩
  | destroy =>
    simp only [step] at h
    split_ifs at h
    cases h
    exact ⟨rfl, nofun⟩

theorem run_shuttingDown : ∀ {q q' : Queue} {as : List Act}, run q as = some q' → q.shuttingDown = true →
    q'.shuttingDown = true ∧ (q'.pending = true → q.pending = true ∨ Act.greeting ∈ as)
  | q, q', [], h, hs => by cases h; exact ⟨hs, .inl⟩
  | q, q', a :: as, h, hs => by
    simp only [run, Option.bind_eq_some] at h
    obtain ⟨q₁, h₁, h₂⟩ := h
    obtain ⟨hs₁, hp₁⟩ := step_shuttingDown h₁ hs
    obtain ⟨hs', hp'⟩ := run_shuttingDown h₂ hs₁
    refine ⟨hs', fun hp => ?_⟩
    rcases hp' hp with hp | hg
    · rcases hp₁ hp with hp | rfl
      · exact .inl hp
      · exact .inr (List.mem_cons_self _ _)
    · exact .inr (List.mem_cons_of_mem _ hg)

end Queue

/-- **No farewell request is lost, and none is answered twice.** Over every run of the
farewell paths from a server with no request, the requests on `farewell_requests`, on the
worker's list, answered and freed are together exactly the requests `server_farewell`
accepted; so each is answered at most as often as it was sent. -/
theorem farewell_requests_conserved (s : State) (as : List Act) {q : Queue}
    (h : Queue.run (Queue.init s) as = some q) :
    q.accounted.Perm (accepted as) ∧ ∀ fw, q.answered.count fw ≤ (accepted as).count fw := by
  have hp : q.accounted.Perm (accepted as) := by simpa [Queue.init, Queue.accounted] using Queue.accounted_run h
  refine ⟨hp, fun fw => ?_⟩
  rw [← hp.count_eq]
  simp only [Queue.accounted, List.count_append]
  omega

/-- Mount 1 says farewell, a request with an argument is refused, the worker answers mount 1,
and mount 2's connection goes down. -/
def farewellRun : List Act :=
  [.farewell ⟨1, 10⟩ 0 true, .farewell ⟨2, 11⟩ 8 true, .workStart, .workEnd 1 quietReads quietIO (fun _ => 0),
   .notifyDown 2]

/-- The farewell paths after `farewellRun`. -/
def farewellQueue : Queue := (Queue.run (Queue.init twoQuorum) farewellRun).getD (Queue.init twoQuorum)

theorem farewell_requests_conserved_run :
    farewellQueue.accounted.Perm (accepted farewellRun) ∧
      ∀ fw, farewellQueue.answered.count fw ≤ (accepted farewellRun).count fw :=
  farewell_requests_conserved twoQuorum farewellRun
    (rfl : Queue.run (Queue.init twoQuorum) farewellRun = some farewellQueue)

/-- **After `stop_server`, only a greeting queues the farewell worker.** From a server that
is shutting down with `farewell_work` not queued, over every run of the farewell paths the
server stays shutting down, and `farewell_work` ends up queued only if a greeting came:
`server_farewell` and the worker's requeue go through `queue_farewell_work`, which looks at
`shutting_down`, while `server_greeting` calls `queue_work` itself. -/
theorem farewell_queued_after_stop {q q' : Queue} {as : List Act} (hs : q.shuttingDown = true)
    (hq : q.pending = false) (h : Queue.run q as = some q') :
    q'.shuttingDown = true ∧ (q'.pending = true → Act.greeting ∈ as) := by
  obtain ⟨hs', hp⟩ := Queue.run_shuttingDown h hs
  exact ⟨hs', fun h' => (hp h').resolve_left (by simp [hq])⟩

/-- A server stopped with no farewell work queued, then a farewell and a greeting. -/
def stoppedRun : List Act := [.farewell ⟨1, 10⟩ 0 true, .greeting]

/-- The stopped server after `stoppedRun`: the farewell is queued without the worker, and
the greeting queues the worker. -/
def stoppedQueue : Queue :=
  (Queue.run (Queue.init twoQuorum).stopServer stoppedRun).getD (Queue.init twoQuorum)

theorem farewell_queued_after_stop_greeting :
    stoppedQueue.shuttingDown = true ∧ (stoppedQueue.pending = true → Act.greeting ∈ stoppedRun) :=
  farewell_queued_after_stop rfl rfl
    (rfl : Queue.run (Queue.init twoQuorum).stopServer stoppedRun = some stoppedQueue)

example : stoppedQueue.pending = true ∧ stoppedQueue.requests = [⟨1, 10⟩] := by decide

end Scoutfs.Farewell
