import Scoutfs.Server.Reclaim

/-!
# The farewell worker

`server_farewell` queues each `FAREWELL` request on `farewell_requests`, and
`farewell_worker` answers them in one pass. It counts the quorum and other mounted
clients (`quo_mnts`, `non_mnts`), looks up each request's mounted-client item,
moves the requests of missing or non-quorum mounts to `send` at once, and then moves
quorum requests to `send` while more than `votes_needed` quorum mounts remain, or
while every quorum mount left has asked and no other mount remains. It reclaims every
request of `send` with `reclaim_rid` and only then sends the responses. Whatever is
left goes back on `farewell_requests`. A btree read that fails (`Reads`), or an item
of another length, ends the pass with `-EIO` before anything is reclaimed.

The counts are `unsigned int`s and a request is counted as often as it appears. A
rid may appear twice: a retransmitted farewell arrives while the first sits on the
worker's private list. Two requests of one quorum mount then count as two quorum
requests, and the worker drains past `votes_needed` while another quorum mount stays
(`farewell_duplicate_quorum`). What the worker does get right is the order of its
effects (`farewellWorker_events`) and that missing or non-quorum mounts are always
answered (`responded_of_not_quorum`).
-/

namespace Scoutfs.Farewell

open Reclaim

/-- A `struct farewell_request`: the rid it came from and the `net_id` to answer. -/
structure Request where
  rid : Nat
  netId : Nat
  deriving DecidableEq, Repr

/-- `x++` on an `unsigned int`. -/
def incU32 (x : Nat) : Nat := (x + 1) % 2 ^ 32

/-- `x--` on an `unsigned int`. -/
def decU32 (x : Nat) : Nat := (x + 2 ^ 32 - 1) % 2 ^ 32

/-! ## Deciding whom to answer -/

/-- How the btree reads of one `farewell_worker` pass go (`btree.c` is not part of
this model): whether the `i`-th `scoutfs_btree_next` of the counting loop succeeds, and
whether the `scoutfs_btree_lookup` of the `i`-th request does. A read that fails
returns `-EIO`. -/
structure Reads where
  next : Nat → Bool
  lookup : Nat → Bool

/-- Reads that all succeed. -/
def quietReads : Reads := ⟨fun _ => true, fun _ => true⟩

/-- The first loop from its `i`-th `scoutfs_btree_next` on: `quo_mnts` and `non_mnts`
over the mounted clients in key order, the last read finding none left; `-EIO` when a
read fails or at an item of another length. -/
def countMounted (next : Nat → Bool) : Nat → List MountedClient → Nat → Nat → Except Int (Nat × Nat)
  | i, [], quoMnts, nonMnts => if next i then .ok (quoMnts, nonMnts) else .error (- EIO)
  | i, m :: ms, quoMnts, nonMnts =>
    if next i then
      if m.whole then
        if m.quorum then countMounted next (i + 1) ms (incU32 quoMnts) nonMnts
        else countMounted next (i + 1) ms quoMnts (incU32 nonMnts)
      else .error (- EIO)
    else .error (- EIO)

/-- The lists and counts the second loop works on. -/
structure Sorting where
  /-- the quorum requests kept on `reqs`, in order -/
  reqs : List Request
  /-- `send`, which `list_move` adds to at its head -/
  send : List Request
  quoReqs : Nat
  nonMnts : Nat

/-- The second loop, from request `fw`, the `i`-th, on. A request whose rid has no
mounted-client item, or a non-quorum one, moves to the head of `send`; a quorum one
stays and counts in `quo_reqs`. A lookup that fails or an item of another length ends
the worker with `-EIO`, and `out:` puts back `send`, then `reqs` with the current
request still on it. -/
def sortRequests (mounted : List MountedClient) (lookup : Nat → Bool) : Nat → List Request → Sorting →
    Except (Int × List Request) Sorting
  | _, [], st => .ok st
  | i, fw :: fws, st =>
    if lookup i then
      match mounted.find? fun m => m.rid = fw.rid with
      | none => sortRequests mounted lookup (i + 1) fws { st with send := fw :: st.send }
      | some m =>
        if m.whole then
          if m.quorum then
            sortRequests mounted lookup (i + 1) fws
              { st with reqs := st.reqs ++ [fw], quoReqs := incU32 st.quoReqs }
          else
            sortRequests mounted lookup (i + 1) fws
              { st with send := fw :: st.send, nonMnts := decU32 st.nonMnts }
        else .error (- EIO, st.send ++ st.reqs ++ fw :: fws)
    else .error (- EIO, st.send ++ st.reqs ++ fw :: fws)

/-- The third loop over the quorum requests: each moves to the tail of `send` while
more than `votes_needed` quorum mounts are left, or while every one left has asked
and no other mount is left; the others stay. -/
def admitQuorum (votesNeeded nonMnts : Nat) :
    List Request → (held send : List Request) → (quoMnts quoReqs : Nat) → List Request × List Request
  | [], held, send, _, _ => (held, send)
  | fw :: fws, held, send, quoMnts, quoReqs =>
    if quoMnts > votesNeeded ∨ quoReqs = quoMnts ∧ nonMnts = 0 then
      admitQuorum votesNeeded nonMnts fws held (send ++ [fw]) (decU32 quoMnts) (decU32 quoReqs)
    else admitQuorum votesNeeded nonMnts fws (held ++ [fw]) send quoMnts quoReqs

/-- What the first three loops decide: the requests held back and `send`, or an error
with the requests `out:` puts back. -/
def planFarewell (votesNeeded : Nat) (rd : Reads) (mounted : List MountedClient) (reqs : List Request) :
    Except (Int × List Request) (List Request × List Request) :=
  match countMounted rd.next 0 mounted 0 0 with
  | .error e => .error (e, reqs)
  | .ok (quoMnts, nonMnts) =>
    match sortRequests mounted rd.lookup 0 reqs ⟨[], [], 0, nonMnts⟩ with
    | .error r => .error r
    | .ok st => .ok (admitQuorum votesNeeded st.nonMnts st.reqs [] st.send quoMnts st.quoReqs)

/-! ## Reclaiming and answering -/

/-- What `farewell_worker` does, in order. -/
inductive Event where
  /-- `reclaim_rid(sb, rid, false)` returned `ret` -/
  | reclaimed (rid : Nat) (ret : Int)
  /-- `scoutfs_net_response_node` sent the farewell response -/
  | responded (rid netId : Nat)
  deriving DecidableEq, Repr

/-- How the calls of one `reclaim_rid` go. -/
structure ReclaimIO where
  calls : Pools.Calls
  budget : Option Nat
  hold : Int
  commit : Int

/-- The fourth loop: `reclaim_rid` on each request of `send` in order, the `i`-th call
going as `io i`, stopping at the first that does not return 0. -/
def reclaimSend (io : Nat → ReclaimIO) : Nat → List Request → State → List Event →
    State × List Event × Int
  | _, [], s, ev => (s, ev, 0)
  | i, fw :: fws, s, ev =>
    let r := reclaimRid fw.rid false (io i).calls (io i).budget (io i).hold (io i).commit s
    if r.2 = 0 then reclaimSend io (i + 1) fws r.1 (ev ++ [.reclaimed fw.rid 0])
    else (r.1, ev ++ [.reclaimed fw.rid r.2], r.2)

/-- The last loop: a response to each request of `send` in order, the `i`-th sent with
result `net i`, stopping at the first that fails; with the requests not answered. -/
def respond (net : Nat → Int) : Nat → List Request → List Event → List Event × List Request
  | _, [], ev => (ev, [])
  | i, fw :: fws, ev =>
    if net i = 0 then respond net (i + 1) fws (ev ++ [.responded fw.rid fw.netId])
    else (ev, fw :: fws)

/-- What one run of `farewell_worker` leaves. -/
structure Outcome where
  state : State
  events : List Event
  /-- the requests `out:` puts back at the head of `farewell_requests` -/
  requeued : List Request
  /-- `ret`; below 0 the worker stops the server -/
  ret : Int

/-- `farewell_worker` on the requests it took off `farewell_requests`. -/
def farewellWorker (votesNeeded : Nat) (rd : Reads) (io : Nat → ReclaimIO) (net : Nat → Int)
    (reqs : List Request) (s : State) : Outcome :=
  match planFarewell votesNeeded rd s.mounted reqs with
  | .error (e, back) => ⟨s, [], back, e⟩
  | .ok (held, send) =>
    let r := reclaimSend io 0 send s []
    if r.2.2 = 0 then
      let a := respond net 0 send r.2.1
      ⟨r.1, a.1, a.2 ++ held, 0⟩
    else ⟨r.1, r.2.1, send ++ held, r.2.2⟩

/-! ## Responses only after every reclaim -/

section Events

variable {rd : Reads} {io : Nat → ReclaimIO} {net : Nat → Int}

/-- The reclaim loop adds only reclaim events, and when it returns 0 one
`reclaimed rid 0` per request of `send`, in order. -/
theorem reclaimSend_events (io : Nat → ReclaimIO) :
    ∀ (send : List Request) (i : Nat) (s : State) (ev : List Event), ∃ rs,
      (reclaimSend io i send s ev).2.1 = ev ++ rs ∧ (∀ e ∈ rs, ∃ rid r, e = .reclaimed rid r) ∧
        ((reclaimSend io i send s ev).2.2 = 0 → rs = send.map fun fw => .reclaimed fw.rid 0)
  | [], _, _, ev => ⟨[], by simp [reclaimSend]⟩
  | fw :: fws, i, s, ev => by
    simp only [reclaimSend]
    split_ifs with h
    · obtain ⟨rs, h₁, h₂, h₃⟩ := reclaimSend_events io fws (i + 1)
        (reclaimRid fw.rid false (io i).calls (io i).budget (io i).hold (io i).commit s).1
        (ev ++ [.reclaimed fw.rid 0])
      refine ⟨.reclaimed fw.rid 0 :: rs, by simp [h₁], List.forall_mem_cons.2 ⟨⟨fw.rid, 0, rfl⟩, h₂⟩,
        fun h₀ => by rw [h₃ h₀]; rfl⟩
    · exact ⟨[.reclaimed fw.rid _], rfl, by simp, fun h₀ => absurd h₀ h⟩

/-- The response loop answers a prefix of `send`, in order, and leaves the rest; with
every send succeeding it answers all of them. -/
theorem respond_spec (net : Nat → Int) :
    ∀ (send : List Request) (i : Nat) (ev : List Event), ∃ k,
      respond net i send ev = (ev ++ (send.take k).map (fun fw => .responded fw.rid fw.netId), send.drop k) ∧
        ((∀ j, net j = 0) → k = send.length)
  | [], _, ev => ⟨0, by simp [respond]⟩
  | fw :: fws, i, ev => by
    simp only [respond]
    split_ifs with h
    · obtain ⟨k, h₁, h₂⟩ := respond_spec net fws (i + 1) (ev ++ [.responded fw.rid fw.netId])
      exact ⟨k + 1, by simp [h₁], fun hn => by simp [h₂ hn]⟩
    · exact ⟨0, by simp, fun hn => absurd (hn i) h⟩

/-- **Responses come only after every reclaim of `send` returned 0.** A run that sends
any response decided on `send`, reclaimed each of its requests in order with 0, and
then answered a prefix of it in order. -/
theorem farewellWorker_events {votesNeeded : Nat} {reqs : List Request} {s : State}
    (h : ∃ rid n, Event.responded rid n ∈ (farewellWorker votesNeeded rd io net reqs s).events) :
    ∃ held send k, planFarewell votesNeeded rd s.mounted reqs = .ok (held, send) ∧
      (farewellWorker votesNeeded rd io net reqs s).events =
        send.map (fun fw => .reclaimed fw.rid 0) ++ (send.take k).map fun fw => .responded fw.rid fw.netId := by
  obtain ⟨rid, n, hm⟩ := h
  unfold farewellWorker at hm ⊢
  split at hm
  · simp at hm
  · rename_i held send hp
    obtain ⟨rs, h₁, h₂, h₃⟩ := reclaimSend_events io send 0 s []
    dsimp only at hm ⊢
    split_ifs at hm ⊢ with h₀
    · obtain ⟨k, hk, -⟩ := respond_spec net send 0 (reclaimSend io 0 send s []).2.1
      exact ⟨held, send, k, hp, by rw [hk, h₁, h₃ h₀]; rfl⟩
    · rw [h₁] at hm
      obtain ⟨rid', r, he⟩ := h₂ _ (by simpa using hm)
      cases he

end Events

/-! ## Missing and non-quorum mounts are answered -/

section NotQuorum

/-- The mount `rid` has no mounted-client item, or a non-quorum one. -/
def NotQuorum (mounted : List MountedClient) (rid : Nat) : Prop :=
  ∀ m, mounted.find? (fun m => m.rid = rid) = some m → m.quorum = false

variable {mounted : List MountedClient}

theorem countMounted_error {next : Nat → Bool} : ∀ {i : Nat} {ms : List MountedClient} {q n : Nat} {e : Int},
    countMounted next i ms q n = .error e → e = - EIO
  | i, [], _, _, _, h => by
    unfold countMounted at h
    split_ifs at h
    exact (Except.error.inj h).symm
  | i, m :: ms, q, n, e, h => by
    unfold countMounted at h
    split_ifs at h
    · exact countMounted_error h
    · exact countMounted_error h
    · exact (Except.error.inj h).symm
    · exact (Except.error.inj h).symm

theorem sortRequests_error {lookup : Nat → Bool} :
    ∀ {i : Nat} {fws : List Request} {st : Sorting} {r : Int × List Request},
      sortRequests mounted lookup i fws st = .error r → r.1 = - EIO
  | _, [], _, _, h => by simp [sortRequests] at h
  | i, fw :: fws, st, r, h => by
    unfold sortRequests at h
    split_ifs at h
    · split at h
      · exact sortRequests_error h
      · split_ifs at h
        · exact sortRequests_error h
        · exact sortRequests_error h
        · rw [← Except.error.inj h]
    · rw [← Except.error.inj h]

/-- The decision fails only with `-EIO`. -/
theorem planFarewell_error {votesNeeded : Nat} {rd : Reads} {reqs : List Request} {r : Int × List Request}
    (h : planFarewell votesNeeded rd mounted reqs = .error r) : r.1 = - EIO := by
  unfold planFarewell at h
  split at h
  · rw [← Except.error.inj h]
    exact countMounted_error ‹_›
  · split at h
    · rw [← Except.error.inj h]
      exact sortRequests_error ‹_›
    · cases h

/-- The second loop never takes a request off `send`, and puts there every request
of a missing or non-quorum mount. -/
theorem sortRequests_send (fw : Request) (hq : NotQuorum mounted fw.rid) {lookup : Nat → Bool} :
    ∀ {i : Nat} {fws : List Request} {st st' : Sorting}, sortRequests mounted lookup i fws st = .ok st' →
      (∀ x ∈ st.send, x ∈ st'.send) ∧ (fw ∈ fws → fw ∈ st'.send)
  | _, [], st, st', h => by
    simp only [sortRequests, Except.ok.injEq] at h
    subst h
    simp
  | i, f :: fws, st, st', h => by
    unfold sortRequests at h
    split_ifs at h
    split at h
    · obtain ⟨h₁, h₂⟩ := sortRequests_send fw hq h
      refine ⟨fun x hx => h₁ x (by simp [hx]), fun hf => ?_⟩
      rcases List.mem_cons.1 hf with rfl | hf
      · exact h₁ _ (by simp)
      · exact h₂ hf
    · rename_i m hm
      split_ifs at h with hw hmq
      · obtain ⟨h₁, h₂⟩ := sortRequests_send fw hq h
        refine ⟨h₁, fun hf => ?_⟩
        rcases List.mem_cons.1 hf with rfl | hf
        · simp [hq m hm] at hmq
        · exact h₂ hf
      · obtain ⟨h₁, h₂⟩ := sortRequests_send fw hq h
        refine ⟨fun x hx => h₁ x (by simp [hx]), fun hf => ?_⟩
        rcases List.mem_cons.1 hf with rfl | hf
        · exact h₁ _ (by simp)
        · exact h₂ hf

/-- The third loop only adds to the tail of `send`. -/
theorem admitQuorum_send (votesNeeded nonMnts : Nat) :
    ∀ (fws held send : List Request) (quoMnts quoReqs : Nat),
      ∃ a, (admitQuorum votesNeeded nonMnts fws held send quoMnts quoReqs).2 = send ++ a
  | [], _, send, _, _ => ⟨[], by simp [admitQuorum]⟩
  | fw :: fws, held, send, quoMnts, quoReqs => by
    unfold admitQuorum
    split_ifs
    · obtain ⟨a, ha⟩ := admitQuorum_send votesNeeded nonMnts fws held (send ++ [fw])
        (decU32 quoMnts) (decU32 quoReqs)
      exact ⟨fw :: a, by simp [ha]⟩
    · exact admitQuorum_send votesNeeded nonMnts fws (held ++ [fw]) send quoMnts quoReqs

theorem mem_send_of_not_quorum {votesNeeded : Nat} {rd : Reads} {reqs held send : List Request}
    (h : planFarewell votesNeeded rd mounted reqs = .ok (held, send)) {fw : Request} (hfw : fw ∈ reqs)
    (hq : NotQuorum mounted fw.rid) : fw ∈ send := by
  unfold planFarewell at h
  split at h
  · cases h
  · split at h
    · cases h
    · rename_i st hst
      obtain ⟨a, ha⟩ := admitQuorum_send votesNeeded st.nonMnts st.reqs [] st.send _ st.quoReqs
      rw [Except.ok.injEq] at h
      rw [show send = _ from (congrArg Prod.snd h).symm, ha]
      exact List.mem_append_left _ ((sortRequests_send fw hq hst).2 hfw)

/-- **Missing and non-quorum mounts are always answered.** In a run that ends with 0
and whose responses all go out, every request whose rid has no mounted-client item,
or a non-quorum one, gets its response. -/
theorem responded_of_not_quorum {votesNeeded : Nat} {rd : Reads} {io : Nat → ReclaimIO} {net : Nat → Int}
    {reqs : List Request} {s : State} (hr : (farewellWorker votesNeeded rd io net reqs s).ret = 0)
    (hn : ∀ j, net j = 0) {fw : Request} (hfw : fw ∈ reqs) (hq : NotQuorum s.mounted fw.rid) :
    Event.responded fw.rid fw.netId ∈ (farewellWorker votesNeeded rd io net reqs s).events := by
  unfold farewellWorker at hr ⊢
  split at hr
  · rename_i e back hp
    have := planFarewell_error hp
    simp only at hr this
    simp [hr, EIO] at this
  · rename_i held send hp
    dsimp only at hr ⊢
    split_ifs at hr ⊢ with h₀
    · obtain ⟨k, hk, hk'⟩ := respond_spec net send 0 (reclaimSend io 0 send s []).2.1
      rw [hk, hk' hn, List.take_length]
      exact List.mem_append_right _ (List.mem_map_of_mem _ (mem_send_of_not_quorum hp hfw hq))
    · exact absurd hr h₀

end NotQuorum

/-! ## Duplicate requests drain past the majority -/

/-- Two quorum mounts, 1 and 2, nothing else in the volume. -/
def twoQuorum : State where
  pools := Pools.startup (Pools.mkfs ∅ ∅) (fun _ => none) (fun _ => none)
  transSeqs := []
  mounted := [⟨1, true, true⟩, ⟨2, true, true⟩]

/-- **A retransmitted farewell drains a quorum mount past `votes_needed`.** With
`votes_needed = 2`, mount 1's farewell and its retransmission count as two quorum
requests against two quorum mounts, so both are sent: mount 1 is reclaimed and both
requests are answered, leaving mount 2 alone, one quorum mount, below
`votes_needed` and not the last of the mounts. Every read, reclaim and response
succeeds. -/
theorem farewell_duplicate_quorum :
    planFarewell 2 quietReads twoQuorum.mounted [⟨1, 10⟩, ⟨1, 11⟩] = .ok ([], [⟨1, 10⟩, ⟨1, 11⟩]) ∧
      (farewellWorker 2 quietReads (fun _ => ⟨⟨∅, ∅, none⟩, none, 0, 0⟩) (fun _ => 0) [⟨1, 10⟩, ⟨1, 11⟩]
        twoQuorum).ret = 0 ∧
      (farewellWorker 2 quietReads (fun _ => ⟨⟨∅, ∅, none⟩, none, 0, 0⟩) (fun _ => 0) [⟨1, 10⟩, ⟨1, 11⟩]
        twoQuorum).events = [.reclaimed 1 0, .reclaimed 1 0, .responded 1 10, .responded 1 11] ∧
      (farewellWorker 2 quietReads (fun _ => ⟨⟨∅, ∅, none⟩, none, 0, 0⟩) (fun _ => 0) [⟨1, 10⟩, ⟨1, 11⟩]
        twoQuorum).state.mounted = [⟨2, true, true⟩] := by
  refine ⟨rfl, ?_, ?_, ?_⟩ <;> decide

end Scoutfs.Farewell
