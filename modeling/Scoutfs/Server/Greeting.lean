import Scoutfs.Server.FarewellQueue
import Scoutfs.Server.Recovery

/-!
# Greetings, fences and the mounted-client items

`server_greeting` answers the first message of each connection. Past its length check it
compares the greeting's `fsid` and `version` with the super block's, and a greeting with
a `server_term` of 0, which a mount sends before any server has answered it, inserts the
mount's item into `mounted_clients` with `insert_mounted_client`, between
`scoutfs_server_hold_commit` and `scoutfs_server_apply_commit`. An item already there is
`-EEXIST`, which is success: the greeting may be a retransmission that a previous server
already recorded. Then the response goes on the send queue, the net core enables
messaging, and the lock server and the open map hear of a client this server meets for
the first time.

Items leave `mounted_clients` only through `reclaim_rid`, which the farewell worker runs
for the mounts it answers and `reclaim_worker` runs for each fence request that
`scoutfs_fence_next` hands it. The registry below runs the three in any interleaving,
the outcome of every call they make an input. `btree.c`, `fence.c` and `recov.c` are not
in the sources: `scoutfs_btree_insert` is a walk that fails or not, then `-EEXIST` or an
insertion in key order, and a fence request is what `scoutfs_fence_next` returned.

Two things hold across every run. The items stay in key order, one per rid, each of the
length `insert_mounted_client` writes, so the counting loop of the farewell worker never
fails and counts each mount once (`mounted_clients_keyed`). And a mount whose greeting
with `server_term` 0 was answered with 0 keeps the item it found or was given, whatever
retransmitted greetings, farewells and fences of other mounts follow, until a
`reclaim_rid` of its own rid (`greeted_mount_kept`). With no rid at `U64_MAX`, the items
are then a btree that the next server's `start_recovery` walks to its end, preparing the
recovery of each mount once, in rid order (`start_recovery_prepares_each`).
-/

namespace Scoutfs.Greeting

open Reclaim Farewell

/-- A `struct scoutfs_net_greeting`, with the two bits of `flags` that the server tests. -/
structure NetGreeting where
  fsid : Nat
  version : Nat
  serverTerm : Nat
  rid : Nat
  /-- `SCOUTFS_NET_GREETING_FLAG_QUORUM` -/
  quorum : Bool
  /-- `SCOUTFS_NET_GREETING_FLAG_FAREWELL` -/
  farewell : Bool
  deriving DecidableEq, Repr

/-- What `server_greeting` compares and sends back: `super->hdr.fsid`, `super->version`
and `server->term`. -/
structure ServerInfo where
  fsid : Nat
  version : Nat
  term : Nat
  deriving DecidableEq, Repr

/-- What the calls of one `server_greeting` return. `scoutfs_server_hold_commit` always
returns 0 and is no input. -/
structure GreetingIO where
  /-- the walk of `scoutfs_btree_insert`: an error, or 0 when it reached the key's place -/
  walk : Int
  /-- the commit that `scoutfs_server_apply_commit` waits for -/
  commit : Int
  /-- `scoutfs_net_response` -/
  response : Int
  /-- `scoutfs_lock_server_greeting` -/
  lockGreeting : Int
  /-- `scoutfs_omap_add_rid` -/
  omapAdd : Int
  deriving DecidableEq, Repr

/-- The calls `server_greeting` makes, in order. -/
inductive Call where
  /-- `queue_work(server->wq, &server->farewell_work)`, which does not look at
  `shutting_down` as `queue_farewell_work` does -/
  | queueFarewell
  /-- `scoutfs_server_recov_finish(sb, rid, SCOUTFS_RECOV_GREETING)` -/
  | recovFinish
  /-- `scoutfs_net_response` with `err` and the greeting sent back, whose flags are 0 -/
  | response (err : Int) (greet : NetGreeting)
  /-- `scoutfs_net_server_greeting` with `reconnecting`, `first_contact` and `farewell` -/
  | netGreeting (reconnecting firstContact farewell : Bool)
  | lockServerGreeting
  | omapAddRid
  deriving DecidableEq, Repr

/-! ## `insert_mounted_client` and `server_greeting` -/

/-- `scoutfs_btree_insert` of a mounted-client item, in key order. -/
def insertMounted (m : MountedClient) : List MountedClient → List MountedClient
  | [] => [m]
  | x :: xs => if m.rid < x.rid then m :: x :: xs else x :: insertMounted m xs

/-- `insert_mounted_client`: the item of `rid`, with `SCOUTFS_MOUNTED_CLIENT_QUORUM` when
the greeting has its quorum flag, of the length of a whole value. An item of `rid`
already there is `-EEXIST`, which is success and leaves that item as it is. -/
def insertMountedClient (rid : Nat) (quorum : Bool) (walk : Int) (mounted : List MountedClient) :
    List MountedClient × Int :=
  if walk < 0 then (mounted, walk)
  else if mounted.any fun m => m.rid = rid then (mounted, 0)
  else (insertMounted ⟨rid, quorum, true⟩ mounted, 0)

/-- `server_greeting` up to `send_err:`: the items, the calls so far, and `err`. -/
def greetingChecks (sv : ServerInfo) (io : GreetingIO) (gr : NetGreeting) (mounted : List MountedClient) :
    List MountedClient × List Call × Int :=
  if gr.fsid ≠ sv.fsid then (mounted, [], - EINVAL)
  else if gr.version ≠ sv.version then (mounted, [], - EINVAL)
  else
    let r : List MountedClient × List Call × Int :=
      if gr.serverTerm = 0 then
        let i := insertMountedClient gr.rid gr.quorum io.walk mounted
        (i.1, [.queueFarewell], TransSeq.applyCommit i.2 io.commit)
      else (mounted, [], 0)
    if r.2.2 < 0 then r else (r.1, r.2.1 ++ [.recovFinish], 0)

/-- `server_greeting` past its length check: the items, the calls in order, and what it
returns. -/
def serverGreeting (sv : ServerInfo) (io : GreetingIO) (gr : NetGreeting) (mounted : List MountedClient) :
    List MountedClient × List Call × Int :=
  let r := greetingChecks sv io gr mounted
  let calls := r.2.1 ++ [.response r.2.2 ⟨sv.fsid, sv.version, sv.term, gr.rid, false, false⟩]
  let ret := if io.response = 0 ∧ r.2.2 ≠ 0 then r.2.2 else io.response
  if ret ≠ 0 then (r.1, calls, ret) else
  let calls := calls ++ [.netGreeting (gr.serverTerm ≠ 0) (gr.serverTerm ≠ sv.term) gr.farewell]
  if gr.serverTerm ≠ sv.term then
    if io.lockGreeting ≠ 0 then (r.1, calls ++ [.lockServerGreeting], io.lockGreeting)
    else (r.1, calls ++ [.lockServerGreeting, .omapAddRid], io.omapAdd)
  else (r.1, calls, 0)

@[simp] theorem serverGreeting_mounted (sv : ServerInfo) (io : GreetingIO) (gr : NetGreeting)
    (mounted : List MountedClient) :
    (serverGreeting sv io gr mounted).1 = (greetingChecks sv io gr mounted).1 := by
  unfold serverGreeting
  dsimp only
  split_ifs <;> rfl

/-! ## The reclaim worker and the registry -/

/-- What `scoutfs_fence_next` returned: a fence request's rid, whether its reason is
`SCOUTFS_FENCE_QUORUM_BLOCK_LEADER`, and its error indicator. -/
structure Fence where
  rid : Nat
  leader : Bool
  error : Bool
  deriving DecidableEq, Repr

/-- What the greeting, farewell and reclaim paths share. -/
structure Registry where
  server : State
  /-- `server->shutting_down` -/
  shuttingDown : Bool
  /-- `reclaim_dwork` is queued -/
  reclaimQueued : Bool
  /-- the reclaims and responses of the farewell and reclaim workers, oldest first -/
  log : List Event
  /-- the rids whose fence request `scoutfs_fence_free` freed, and whose recovery
  `scoutfs_server_recov_finish` then finished, oldest first -/
  freed : List Nat

namespace Registry

/-- `stop_server`. -/
def stopServer (r : Registry) : Registry := { r with shuttingDown := true }

/-- `queue_reclaim_work`. -/
def queueReclaimWork (r : Registry) : Registry := { r with reclaimQueued := !r.shuttingDown }

@[simp] theorem stopServer_server (r : Registry) : r.stopServer.server = r.server := rfl
@[simp] theorem stopServer_log (r : Registry) : r.stopServer.log = r.log := rfl
@[simp] theorem queueReclaimWork_server (r : Registry) : r.queueReclaimWork.server = r.server := rfl
@[simp] theorem queueReclaimWork_log (r : Registry) : r.queueReclaimWork.log = r.log := rfl

/-- `reclaim_worker`, given what `scoutfs_fence_next` returned and how the calls of its
`reclaim_rid` go. An error indicator or a failed reclaim shuts the server down; either
way the worker queues itself again unless the server is shutting down. -/
def reclaimWorker (next : Except Int Fence) (io : ReclaimIO) (r : Registry) : Registry :=
  match next with
  | .error _ => r.queueReclaimWork
  | .ok f =>
    if f.error then r.stopServer.queueReclaimWork else
    let x := reclaimRid f.rid f.leader io.calls io.budget io.hold io.commit r.server
    let r := { r with server := x.1, log := r.log ++ [Event.reclaimed f.rid x.2] }
    if x.2 < 0 then r.stopServer.queueReclaimWork
    else { r with freed := r.freed ++ [f.rid] }.queueReclaimWork

/-- An event on the three paths. -/
inductive Action where
  /-- `server_greeting` for `gr`, past its length check -/
  | greeting (gr : NetGreeting) (io : GreetingIO)
  /-- a run of `farewell_worker` on the requests it took off `farewell_requests` -/
  | farewell (votesNeeded : Nat) (rd : Reads) (io : Nat → ReclaimIO) (net : Nat → Int) (reqs : List Request)
  /-- a run of `reclaim_worker`, when `reclaim_dwork` is queued -/
  | reclaim (next : Except Int Fence) (io : ReclaimIO)

/-- One event, if it can happen. -/
def step (sv : ServerInfo) (r : Registry) : Action → Option Registry
  | .greeting gr io => some { r with server := { r.server with mounted := (serverGreeting sv io gr r.server.mounted).1 } }
  | .farewell votesNeeded rd io net reqs =>
    let o := farewellWorker votesNeeded rd io net reqs r.server
    let r := { r with server := o.state, log := r.log ++ o.events }
    some (if o.ret < 0 then r.stopServer else r)
  | .reclaim next io =>
    if r.reclaimQueued then some (reclaimWorker next io { r with reclaimQueued := false }) else none

/-- Several events in a row. -/
def run (sv : ServerInfo) (r : Registry) : List Action → Option Registry
  | [] => some r
  | a :: as => (step sv r a).bind fun r' => run sv r' as

/-- A server as `scoutfs_server_worker` leaves it once ready, with `reclaim_dwork` queued. -/
def init (s : State) : Registry := ⟨s, false, true, [], []⟩

end Registry

/-! ## Items in key order -/

/-- The items of `mounted_clients` as the server writes them: in key order, so one item
per rid, and each of the length of a whole `struct scoutfs_mounted_client_btree_val`. -/
structure Keyed (ms : List MountedClient) : Prop where
  sorted : ms.Pairwise fun a b => a.rid < b.rid
  whole : ∀ m ∈ ms, m.whole

section Keyed

variable {ms ms' : List MountedClient} {m m' : MountedClient}

theorem Keyed.sublist (h : Keyed ms) (hs : ms'.Sublist ms) : Keyed ms' :=
  ⟨h.sorted.sublist hs, fun m hm => h.whole m (hs.subset hm)⟩

theorem Keyed.eq_of_rid (h : Keyed ms) (hm : m ∈ ms) (hm' : m' ∈ ms) (hr : m.rid = m'.rid) : m = m' :=
  List.inj_on_of_nodup_map ((List.pairwise_map.2 h.sorted).imp Nat.ne_of_lt) hm hm' hr

theorem mem_insertMounted : ∀ {ms : List MountedClient}, m' ∈ insertMounted m ms ↔ m' = m ∨ m' ∈ ms
  | [] => by simp [insertMounted]
  | x :: xs => by
    unfold insertMounted
    split_ifs
    · simp
    · simp only [List.mem_cons, mem_insertMounted]
      tauto

theorem insertMounted_sorted :
    ∀ {ms : List MountedClient}, ms.Pairwise (fun a b => a.rid < b.rid) → (∀ x ∈ ms, x.rid ≠ m.rid) →
      (insertMounted m ms).Pairwise fun a b => a.rid < b.rid
  | [], _, _ => List.pairwise_singleton _ _
  | x :: xs, h, hn => by
    have hx := List.pairwise_cons.1 h
    unfold insertMounted
    split_ifs with hlt
    · exact List.pairwise_cons.2 ⟨fun y hy => (List.mem_cons.1 hy).elim (fun e => e ▸ hlt)
        fun hy => hlt.trans (hx.1 y hy), h⟩
    · have hne := hn x (List.mem_cons_self x xs)
      refine List.pairwise_cons.2 ⟨fun y hy => ?_, insertMounted_sorted hx.2 fun y hy => hn y (List.mem_cons_of_mem x hy)⟩
      rcases mem_insertMounted.1 hy with rfl | hy
      · omega
      · exact hx.1 y hy

theorem Keyed.insert (hw : m.whole) (h : Keyed ms) (hn : ∀ x ∈ ms, x.rid ≠ m.rid) : Keyed (insertMounted m ms) :=
  ⟨insertMounted_sorted h.sorted hn, fun y hy => (mem_insertMounted.1 hy).elim (fun e => e ▸ hw) (h.whole y)⟩

/-- `insert_mounted_client` keeps the items in key order, and only adds. -/
theorem insertMountedClient_keyed (h : Keyed ms) (rid : Nat) (quorum : Bool) (walk : Int) :
    Keyed (insertMountedClient rid quorum walk ms).1 ∧ ∀ x ∈ ms, x ∈ (insertMountedClient rid quorum walk ms).1 := by
  unfold insertMountedClient
  split_ifs with hw hany
  · exact ⟨h, fun _ => id⟩
  · exact ⟨h, fun _ => id⟩
  · refine ⟨h.insert rfl fun x hx hr => hany ?_, fun x hx => mem_insertMounted.2 (.inr hx)⟩
    exact List.any_eq_true.2 ⟨x, hx, by simpa using hr⟩

/-- An `insert_mounted_client` that returned 0 leaves an item of `rid`: the one that was
there, or a new one with the greeting's quorum flag. -/
theorem insertMountedClient_registers {rid : Nat} {quorum : Bool} {walk : Int}
    (h : (insertMountedClient rid quorum walk ms).2 = 0) :
    (ms.find? fun m => m.rid = rid).getD ⟨rid, quorum, true⟩ ∈ (insertMountedClient rid quorum walk ms).1 := by
  unfold insertMountedClient at h ⊢
  split_ifs at h ⊢ with hw hany
  · omega
  · obtain ⟨x, hx, hr⟩ := List.any_eq_true.1 hany
    cases hf : ms.find? fun m => m.rid = rid with
    | none => exact absurd hr (List.find?_eq_none.1 hf x hx)
    | some y => exact List.mem_of_find?_eq_some hf
  · have hf : (ms.find? fun m => m.rid = rid) = none :=
      List.find?_eq_none.2 fun x hx hr => hany (List.any_eq_true.2 ⟨x, hx, hr⟩)
    rw [hf]
    exact mem_insertMounted.2 (.inl rfl)

theorem getD_find_rid (rid : Nat) (quorum : Bool) :
    ((ms.find? fun m => m.rid = rid).getD ⟨rid, quorum, true⟩).rid = rid := by
  cases hf : ms.find? fun m => m.rid = rid with
  | none => rfl
  | some y => simpa using List.find?_some hf

/-- The counting loop of `farewell_worker`, from its `i`-th read on, over whole items:
when all its reads succeed it counts the quorum and the other items, as `unsigned int`s,
and otherwise it fails with `-EIO`. -/
theorem countMounted_whole {next : Nat → Bool} :
    ∀ {i : Nat} {ms : List MountedClient} {q n : Nat}, (∀ m ∈ ms, m.whole) → q < 2 ^ 32 → n < 2 ^ 32 →
      countMounted next i ms q n =
        if (List.range' i (ms.length + 1)).all next then
          .ok ((q + ms.countP (·.quorum)) % 2 ^ 32, (n + ms.countP (!·.quorum)) % 2 ^ 32)
        else .error (- EIO)
  | i, [], q, n, _, hq, hn => by
    simp only [countMounted, List.length_nil, List.range'_succ, List.range'_zero, List.all_cons,
      List.all_nil, Bool.and_true, List.countP_nil, Nat.add_zero, Nat.mod_eq_of_lt hq, Nat.mod_eq_of_lt hn]
  | i, m :: ms, q, n, hw, hq, hn => by
    have hms : ∀ x ∈ ms, x.whole := fun x hx => hw x (List.mem_cons_of_mem m hx)
    have hlt : ∀ x, incU32 x < 2 ^ 32 := fun x => Nat.mod_lt _ (Nat.two_pow_pos 32)
    rw [List.length_cons, List.range'_succ, List.all_cons]
    unfold countMounted
    cases hni : next i
    · rfl
    rw [if_pos rfl, if_pos (hw m (List.mem_cons_self m ms)), Bool.true_and]
    -- one count goes up by one, modulo `2^32`, the other stays
    cases hm : m.quorum <;> simp only [Bool.false_eq_true, if_false, if_true] <;>
      rw [countMounted_whole hms (by first | exact hq | exact hlt q) (by first | exact hn | exact hlt n)] <;>
      split_ifs <;> simp [List.countP_cons, hm, incU32, Nat.add_right_comm _ 1, Nat.add_assoc]

end Keyed

/-! ## What each path does to the items -/

/-- Every item of `before` missing from `after` has a rid that `ev` reclaimed. -/
def Forgets (before after : List MountedClient) (ev : List Event) : Prop :=
  ∀ m ∈ before, m ∉ after → ∃ ret, Event.reclaimed m.rid ret ∈ ev

section Forgets

variable {a b c : List MountedClient} {ev ev' : List Event}

theorem forgets_of_subset (h : ∀ m ∈ a, m ∈ b) : Forgets a b ev :=
  fun m hm hb => absurd (h m hm) hb

theorem Forgets.mono (h : Forgets a b ev) (hs : ev ⊆ ev') : Forgets a b ev' :=
  fun m hm hb => (h m hm hb).imp fun _ hr => hs hr

theorem Forgets.trans (h₁ : Forgets a b ev) (h₂ : Forgets b c ev') : Forgets a c (ev ++ ev') := by
  intro m hm hc
  by_cases hb : m ∈ b
  · exact (h₂ m hb hc).imp fun _ hr => List.mem_append_right ev hr
  · exact (h₁ m hm hb).imp fun _ hr => List.mem_append_left ev' hr

end Forgets

section Paths

variable {rid : Nat} {clearLeader : Bool} {c : Pools.Calls} {b : Option Nat} {hold commit : Int} {s : State}

theorem reclaimRid_forgets (ret : Int) :
    Forgets s.mounted (reclaimRid rid clearLeader c b hold commit s).1.mounted [.reclaimed rid ret] := by
  rcases reclaimRid_mounted rid clearLeader c b hold commit s with h | h <;> rw [h]
  · exact forgets_of_subset fun _ => id
  · intro m hm hd
    have : m.rid = rid := by simpa [deleteMountedClient, hm] using hd
    exact ⟨ret, by simp [this]⟩

/-- The reclaim loop of the farewell worker deletes only items of rids it logs a reclaim
of. -/
theorem reclaimSend_forgets (io : Nat → ReclaimIO) :
    ∀ (send : List Request) (i : Nat) (s : State) (ev : List Event), ∃ rs,
      (reclaimSend io i send s ev).2.1 = ev ++ rs ∧ (reclaimSend io i send s ev).1.mounted.Sublist s.mounted ∧
        Forgets s.mounted (reclaimSend io i send s ev).1.mounted rs
  | [], _, _, ev => ⟨[], by simp [reclaimSend], List.Sublist.refl _, forgets_of_subset fun _ => id⟩
  | fw :: fws, i, s, ev => by
    simp only [reclaimSend]
    split_ifs with h
    · obtain ⟨rs, h₁, h₂, h₃⟩ := reclaimSend_forgets io fws (i + 1)
        (reclaimRid fw.rid false (io i).calls (io i).budget (io i).hold (io i).commit s).1
        (ev ++ [.reclaimed fw.rid 0])
      exact ⟨.reclaimed fw.rid 0 :: rs, by simp [h₁], h₂.trans reclaimRid_sublist, (reclaimRid_forgets 0).trans h₃⟩
    · exact ⟨_, rfl, reclaimRid_sublist, reclaimRid_forgets _⟩

/-- A run of `farewell_worker` deletes only items of rids it logs a reclaim of. -/
theorem farewellWorker_forgets (votesNeeded : Nat) (rd : Reads) (io : Nat → ReclaimIO) (net : Nat → Int)
    (reqs : List Request) (s : State) :
    (farewellWorker votesNeeded rd io net reqs s).state.mounted.Sublist s.mounted ∧
      Forgets s.mounted (farewellWorker votesNeeded rd io net reqs s).state.mounted
        (farewellWorker votesNeeded rd io net reqs s).events := by
  unfold farewellWorker
  split
  · exact ⟨List.Sublist.refl _, forgets_of_subset fun _ => id⟩
  · rename_i held send _
    obtain ⟨rs, h₁, h₂, h₃⟩ := reclaimSend_forgets io send 0 s []
    rw [List.nil_append] at h₁
    dsimp only
    split_ifs
    · obtain ⟨k, hk, -⟩ := respond_spec net send 0 (reclaimSend io 0 send s []).2.1
      rw [hk, h₁]
      exact ⟨h₂, h₃.mono (List.subset_append_left _ _)⟩
    · rw [h₁]
      exact ⟨h₂, h₃⟩

end Paths

/-! ## Every run -/

namespace Registry

variable {sv : ServerInfo} {r r' : Registry}

/-- The greeting's items: those that were there, or those with the greeting's item
inserted in key order. -/
theorem greetingChecks_keyed (sv : ServerInfo) (io : GreetingIO) (gr : NetGreeting) {ms : List MountedClient}
    (h : Keyed ms) :
    Keyed (greetingChecks sv io gr ms).1 ∧ ∀ x ∈ ms, x ∈ (greetingChecks sv io gr ms).1 := by
  have hi := insertMountedClient_keyed h gr.rid gr.quorum io.walk
  unfold greetingChecks
  dsimp only
  split_ifs <;> first | exact ⟨h, fun _ => id⟩ | exact hi

/-- A greeting with `server_term` 0 answered with `err` 0 went through
`insert_mounted_client`, which returned 0. -/
theorem greetingChecks_insert {io : GreetingIO} {gr : NetGreeting} {ms : List MountedClient}
    (hterm : gr.serverTerm = 0) (hok : (greetingChecks sv io gr ms).2.2 = 0) :
    (insertMountedClient gr.rid gr.quorum io.walk ms).2 = 0 ∧
      (greetingChecks sv io gr ms).1 = (insertMountedClient gr.rid gr.quorum io.walk ms).1 := by
  have hret : (insertMountedClient gr.rid gr.quorum io.walk ms).2 = 0 ∨
      (insertMountedClient gr.rid gr.quorum io.walk ms).2 < 0 := by
    unfold insertMountedClient
    split_ifs <;> simp [*]
  simp only [greetingChecks, hterm, if_true] at hok ⊢
  split_ifs at hok ⊢ with h₁ h₂ h₃
  · simp [ EINVAL] at hok
  · simp [ EINVAL] at hok
  · simp only at h₃ hok
    omega
  · refine ⟨hret.resolve_right fun hlt => h₃ ?_, rfl⟩
    simpa [TransSeq.applyCommit, hlt.ne] using hlt

/-- A run of `reclaim_worker` deletes at most the item of the fenced rid, and logs its
reclaim. -/
theorem reclaimWorker_mounted (next : Except Int Fence) (io : ReclaimIO) (r : Registry) :
    (reclaimWorker next io r).server.mounted.Sublist r.server.mounted ∧
      ∃ new, (reclaimWorker next io r).log = r.log ++ new ∧
        Forgets r.server.mounted (reclaimWorker next io r).server.mounted new := by
  unfold reclaimWorker
  split
  · exact ⟨List.Sublist.refl _, [], by simp, forgets_of_subset fun _ => id⟩
  · dsimp only
    split_ifs
    · exact ⟨List.Sublist.refl _, [], by simp, forgets_of_subset fun _ => id⟩
    all_goals exact ⟨reclaimRid_sublist, _, rfl, reclaimRid_forgets _⟩

/-- One event deletes only items of rids it logs a reclaim of, and keeps the items in key
order. -/
theorem step_mounted {a : Action} (h : step sv r a = some r') (hk : Keyed r.server.mounted) :
    Keyed r'.server.mounted ∧ ∃ new, r'.log = r.log ++ new ∧ Forgets r.server.mounted r'.server.mounted new := by
  cases a with
  | greeting gr io =>
    cases h
    obtain ⟨h₁, h₂⟩ := greetingChecks_keyed sv io gr hk
    exact ⟨by simpa using h₁, [], by simp, forgets_of_subset (by simpa using h₂)⟩
  | farewell votesNeeded rd io net reqs =>
    obtain ⟨h₁, h₂⟩ := farewellWorker_forgets votesNeeded rd io net reqs r.server
    simp only [step, Option.some.injEq] at h
    subst h
    split_ifs <;> exact ⟨hk.sublist h₁, _, rfl, h₂⟩
  | reclaim next io =>
    simp only [step] at h
    split_ifs at h
    cases h
    obtain ⟨h₁, h₂⟩ := reclaimWorker_mounted next io { r with reclaimQueued := false }
    exact ⟨hk.sublist h₁, h₂⟩

/-- Over a run, the items stay in key order, and only items of rids the run logs a
reclaim of go. -/
theorem run_mounted : ∀ (as : List Action) {r r' : Registry}, run sv r as = some r' → Keyed r.server.mounted →
    Keyed r'.server.mounted ∧ ∃ new, r'.log = r.log ++ new ∧ Forgets r.server.mounted r'.server.mounted new
  | [], r, r', h, hk => by
    cases h
    exact ⟨hk, [], by simp, forgets_of_subset fun _ => id⟩
  | a :: as, r, r', h, hk => by
    simp only [run] at h
    cases hs : step sv r a with
    | none => simp [hs] at h
    | some r₁ =>
      rw [hs, Option.some_bind] at h
      obtain ⟨hk₁, n₁, hl₁, hf₁⟩ := step_mounted hs hk
      obtain ⟨hk', n₂, hl₂, hf₂⟩ := run_mounted as h hk₁
      exact ⟨hk', n₁ ++ n₂, by simp [hl₂, hl₁], hf₁.trans hf₂⟩

/-- An item after a greeting was there before, or is of the greeting's rid. -/
theorem mem_greetingChecks {io : GreetingIO} {gr : NetGreeting} {ms : List MountedClient} {m : MountedClient}
    (hm : m ∈ (greetingChecks sv io gr ms).1) : m ∈ ms ∨ m.rid = gr.rid := by
  unfold greetingChecks insertMountedClient at hm
  dsimp only at hm
  split_ifs at hm <;> first
    | exact .inl hm
    | exact (mem_insertMounted.1 hm).symm.imp id fun e => congrArg MountedClient.rid e

/-- An item after an event was there before, or is of the rid of the greeting. -/
theorem step_rids {a : Action} (h : step sv r a = some r') :
    ∀ m ∈ r'.server.mounted, m ∈ r.server.mounted ∨ ∃ gr io, a = .greeting gr io ∧ m.rid = gr.rid := by
  intro m hm
  cases a with
  | greeting gr io =>
    cases h
    exact (mem_greetingChecks (by simpa using hm)).imp_right fun he => ⟨gr, io, rfl, he⟩
  | farewell votesNeeded rd io net reqs =>
    simp only [step, Option.some.injEq] at h
    subst h
    exact .inl ((farewellWorker_forgets votesNeeded rd io net reqs r.server).1.subset (by split_ifs at hm <;> exact hm))
  | reclaim next io =>
    simp only [step] at h
    split_ifs at h
    cases h
    exact .inl ((reclaimWorker_mounted next io { r with reclaimQueued := false }).1.subset hm)

/-- An item after a run was there before, or is of the rid of a greeting of the run. -/
theorem run_rids : ∀ (as : List Action) {r r' : Registry}, run sv r as = some r' →
    ∀ m ∈ r'.server.mounted, m ∈ r.server.mounted ∨ ∃ gr io, Action.greeting gr io ∈ as ∧ m.rid = gr.rid
  | [], r, r', h, m, hm => by
    cases h
    exact .inl hm
  | a :: as, r, r', h, m, hm => by
    simp only [run, Option.bind_eq_some] at h
    obtain ⟨r₁, h₁, h₂⟩ := h
    rcases run_rids as h₂ m hm with hm₁ | ⟨gr, io, hg, he⟩
    · rcases step_rids h₁ m hm₁ with hm₀ | ⟨gr, io, rfl, he⟩
      · exact .inl hm₀
      · exact .inr ⟨gr, io, List.mem_cons_self _ _, he⟩
    · exact .inr ⟨gr, io, List.mem_cons_of_mem _ hg, he⟩

end Registry

open Registry

/-- **The mounted-client items stay keyed.** Over every run of greetings, farewell
passes and reclaim passes, from items in key order and of whole length, the items stay
in key order, with one item per rid, and of whole length; so the counting loop of
`farewell_worker` fails with `-EIO` only when one of its reads does, never at an item,
and otherwise counts each mount once. -/
theorem mounted_clients_keyed (sv : ServerInfo) {r r' : Registry} {as : List Action}
    (hk : Keyed r.server.mounted) (hrun : run sv r as = some r') :
    Keyed r'.server.mounted ∧
      ∀ next, countMounted next 0 r'.server.mounted 0 0 =
        if (List.range' 0 (r'.server.mounted.length + 1)).all next then
          .ok (r'.server.mounted.countP (·.quorum) % 2 ^ 32, r'.server.mounted.countP (!·.quorum) % 2 ^ 32)
        else .error (- EIO) := by
  have hk' := (run_mounted as hrun hk).1
  refine ⟨hk', fun _ => ?_⟩
  rw [countMounted_whole hk'.whole (Nat.two_pow_pos 32) (Nat.two_pow_pos 32)]
  simp only [Nat.zero_add]

/-- Mount 3, not a quorum member, alone in the volume. -/
def mountThree : State := { twoQuorum with mounted := [⟨3, false, true⟩] }

/-- Volume 1 of format 1, served in term 2. -/
def volumeOne : ServerInfo := ⟨1, 1, 2⟩

/-- Greeting calls that all succeed. -/
def quietGreeting : GreetingIO := ⟨0, 0, 0, 0, 0⟩

/-- Mount 5's first greeting as a quorum member, mount 3's farewell, then mount 5's
greeting again without the quorum flag. -/
def greetingRun : List Action :=
  [.greeting ⟨1, 1, 0, 5, true, false⟩ quietGreeting, .farewell 1 quietReads quietIO (fun _ => 0) [⟨3, 30⟩],
   .greeting ⟨1, 1, 0, 5, false, false⟩ quietGreeting]

/-- The registry after `greetingRun`. -/
def greeted : Registry := (run volumeOne (init mountThree) greetingRun).getD (init mountThree)

theorem mounted_clients_keyed_run :
    Keyed greeted.server.mounted ∧
      countMounted quietReads.next 0 greeted.server.mounted 0 0 =
        .ok (greeted.server.mounted.countP (·.quorum) % 2 ^ 32, greeted.server.mounted.countP (!·.quorum) % 2 ^ 32) :=
  have h := mounted_clients_keyed volumeOne (r := init mountThree) ⟨List.pairwise_singleton _ _, by decide⟩
    (by rfl : run volumeOne (init mountThree) greetingRun = some greeted)
  ⟨h.1, by rw [h.2]; simp [quietReads]⟩

/-- **A greeted mount keeps its item until its own reclaim.** After a greeting with
`server_term` 0 answered with `err` 0, the mount has the item it found in
`mounted_clients`, or else the one the greeting inserted with its quorum flag; over any
run that follows, that item stays and is the only item of the rid, unless a `reclaim_rid`
of the rid itself is logged. -/
theorem greeted_mount_kept {sv : ServerInfo} {r r' : Registry} {gr : NetGreeting} {io : GreetingIO}
    {as : List Action} (hk : Keyed r.server.mounted) (hterm : gr.serverTerm = 0)
    (hok : (greetingChecks sv io gr r.server.mounted).2.2 = 0)
    (hrun : run sv r (.greeting gr io :: as) = some r')
    (hno : ∀ ret, Event.reclaimed gr.rid ret ∉ r'.log.drop r.log.length) :
    (r.server.mounted.find? fun m => m.rid = gr.rid).getD ⟨gr.rid, gr.quorum, true⟩ ∈ r'.server.mounted ∧
      ∀ m ∈ r'.server.mounted, m.rid = gr.rid →
        m = (r.server.mounted.find? fun m => m.rid = gr.rid).getD ⟨gr.rid, gr.quorum, true⟩ := by
  simp only [run, step, Option.some_bind] at hrun
  obtain ⟨hi, hg⟩ := greetingChecks_insert hterm hok
  have h₁ := insertMountedClient_registers hi
  rw [← hg, ← serverGreeting_mounted sv io] at h₁
  have hk₁ := (greetingChecks_keyed sv io gr hk).1
  rw [← serverGreeting_mounted sv io] at hk₁
  obtain ⟨hk', new, hl, hf⟩ := run_mounted as hrun hk₁
  have hmem : (r.server.mounted.find? fun m => m.rid = gr.rid).getD ⟨gr.rid, gr.quorum, true⟩ ∈ r'.server.mounted := by
    by_contra hc
    obtain ⟨ret, hret⟩ := hf _ h₁ hc
    rw [getD_find_rid] at hret
    exact hno ret (by rw [hl, List.drop_left]; exact hret)
  exact ⟨hmem, fun m hm hr => hk'.eq_of_rid hm hmem (hr.trans (getD_find_rid gr.rid gr.quorum).symm)⟩

/-- Mount 5 keeps the quorum item of its first greeting through mount 3's farewell and its
own greeting without the flag. -/
theorem greeted_mount_kept_run :
    ((init mountThree).server.mounted.find? fun m => m.rid = 5).getD ⟨5, true, true⟩ ∈ greeted.server.mounted ∧
      ∀ m ∈ greeted.server.mounted, m.rid = 5 →
        m = ((init mountThree).server.mounted.find? fun m => m.rid = 5).getD ⟨5, true, true⟩ := by
  have hrun : run volumeOne (init mountThree) greetingRun = some greeted := rfl
  have hlog : greeted.log = [.reclaimed 3 0, .responded 3 30] := rfl
  refine greeted_mount_kept ⟨List.pairwise_singleton _ _, ?_⟩ ?_ ?_ hrun fun ret => by simp [hlog, init]
  all_goals decide

example : greeted.server.mounted = [⟨5, true, true⟩] := rfl

/-- **The next server prepares the recovery of each mount once.** After every run of
greetings, farewell passes and reclaim passes from keyed items, with no rid at `U64_MAX`
among the items and the greetings, the `mounted_clients` items are a btree that
`start_recovery` walks, with reads and `scoutfs_recov_prepare` calls that succeed, to its
end: it calls `scoutfs_recov_prepare` once for each mount with an item, in increasing rid
order, and counts them in `nr`. -/
theorem start_recovery_prepares_each {sv : ServerInfo} {r r' : Registry} {as : List Action}
    (hk : Keyed r.server.mounted) (hmax : ∀ m ∈ r.server.mounted, m.rid < U64_MAX)
    (hgr : ∀ gr io, Action.greeting gr io ∈ as → gr.rid < U64_MAX) (hrun : run sv r as = some r')
    {err prepare : Nat → Int} (herr : ∀ k, err k = 0) (hp : ∀ rid, 0 ≤ prepare rid) {fuel : Nat}
    (hf : r'.server.mounted.length < fuel) :
    ∃ t : Recovery.MountedClients, t.rids = r'.server.mounted.map (·.rid) ∧
      (Recovery.recoveryScan t err prepare fuel ⟨0, 0, []⟩).1 = some 0 ∧
      (Recovery.recoveryScan t err prepare fuel ⟨0, 0, []⟩).2.calls = t.rids ∧
      (Recovery.recoveryScan t err prepare fuel ⟨0, 0, []⟩).2.nr = t.rids.length % 2 ^ 32 := by
  have hk' := (run_mounted as hrun hk).1
  have hlt : ∀ m ∈ r'.server.mounted, m.rid < U64_MAX := fun m hm =>
    (run_rids as hrun m hm).elim (hmax m) fun ⟨gr, io, hg, he⟩ => he ▸ hgr gr io hg
  let t : Recovery.MountedClients :=
    ⟨r'.server.mounted.map (·.rid), List.pairwise_map.2 hk'.sorted, by
      simp only [List.mem_map]
      rintro _ ⟨m, hm, rfl⟩
      have := hlt m hm
      unfold U64_MAX at this
      omega⟩
  have hnot : U64_MAX ∉ t.rids := by
    simp only [t, List.mem_map, not_exists, not_and]
    exact fun m hm he => (hlt m hm).ne he
  obtain ⟨h₁, h₂, h₃⟩ := Recovery.recoveryScan_complete hnot herr hp (by simpa [t] using hf)
  exact ⟨t, rfl, h₁, h₃, h₂⟩

/-- After `greetingRun`, the next server prepares mount 5 alone. -/
theorem start_recovery_prepares_each_run :
    ∃ t : Recovery.MountedClients, t.rids = greeted.server.mounted.map (·.rid) ∧
      (Recovery.recoveryScan t (fun _ => 0) (fun _ => 0) 2 ⟨0, 0, []⟩).1 = some 0 ∧
      (Recovery.recoveryScan t (fun _ => 0) (fun _ => 0) 2 ⟨0, 0, []⟩).2.calls = t.rids ∧
      (Recovery.recoveryScan t (fun _ => 0) (fun _ => 0) 2 ⟨0, 0, []⟩).2.nr = t.rids.length % 2 ^ 32 := by
  have hrun : run volumeOne (init mountThree) greetingRun = some greeted := rfl
  refine start_recovery_prepares_each ⟨List.pairwise_singleton _ _, ?_⟩ ?_ ?_ hrun (fun _ => rfl) (fun _ => le_refl 0) ?_
  · decide
  · simp [init, mountThree, U64_MAX]
  · intro gr io hg
    simp only [greetingRun, List.mem_cons, List.mem_nil_iff, Action.greeting.injEq, reduceCtorEq, false_or,
      or_false] at hg
    rcases hg with ⟨rfl, -⟩ | ⟨rfl, -⟩ <;> simp [U64_MAX]
  · exact (by decide : greeted.server.mounted.length < 2)

end Scoutfs.Greeting
