import Scoutfs.Basic

/-!
# Request dispatch and payload lengths

`server_req_funcs` maps each command to its handler, and every handler starts by
comparing `arg_len` with the length of its argument. Most share one prologue,
`checkArgLen`: on a mismatch `ret = -EINVAL` and the handler jumps to the
response. Three do otherwise: `server_lock` and `server_farewell` return
`-EINVAL` to the messaging layer without a response of their own
(`returnArgLen`), and `server_get_roots` sets `ret = -EINVAL` but passes a
literal 0 as the response's status.

The rest of each handler is a parameter `body`: nothing in the length check
depends on it, and it runs only when the length is right. On a wrong length no
handler touches the server state (`wrong_length_unchanged`), and all but
`GET_ROOTS` reject the request with `-EINVAL` (`wrong_length_rejected`);
`get_roots_wrong_length_status` is the one that answers 0.
-/

namespace Scoutfs.Dispatch

/-- The commands of `server_req_funcs`. -/
inductive Cmd where
  | greeting | allocInodes | getLogTrees | commitLogTrees | getRoots | advanceSeq
  | getLastSeq | lock | srchGetCompact | srchCommitCompact | openInoMap | getVolopt
  | setVolopt | clearVolopt | farewell
  deriving DecidableEq, Repr

/-- The sizes of the argument structs, defined in headers outside this model. -/
structure Sizes where
  /-- `sizeof(struct scoutfs_net_greeting)` -/
  netGreeting : Nat
  /-- `sizeof(struct scoutfs_log_trees)` -/
  logTrees : Nat
  /-- `sizeof(struct scoutfs_net_lock)` -/
  netLock : Nat
  /-- `sizeof(struct scoutfs_srch_compact)` -/
  srchCompact : Nat
  /-- `sizeof(struct scoutfs_open_ino_map_args)` -/
  openInoMapArgs : Nat
  /-- `sizeof(struct scoutfs_volume_options)` -/
  volumeOptions : Nat

/-- What a handler does with a request: a response with a status, or an error
returned to the messaging layer with no response. -/
inductive Answer where
  | response (status : Int)
  | returned (err : Int)
  deriving DecidableEq, Repr

variable {σ : Type} (Z : Sizes)

/-- `if (arg_len != expected) { ret = -EINVAL; goto out; }` and, at `out`,
`scoutfs_net_response(sb, conn, cmd, id, ret, ...)`. -/
def checkArgLen (expected len : Nat) (body : σ → σ × Answer) (s : σ) : σ × Answer :=
  if len ≠ expected then (s, .response (- EINVAL)) else body s

/-- `if (arg_len != expected) return -EINVAL;` with no response. -/
def returnArgLen (expected len : Nat) (body : σ → σ × Answer) (s : σ) : σ × Answer :=
  if len ≠ expected then (s, .returned (- EINVAL)) else body s

/-- `server_greeting`: `goto send_err`, which responds with `err = -EINVAL`. -/
def serverGreeting : Nat → (σ → σ × Answer) → σ → σ × Answer := checkArgLen Z.netGreeting
/-- `server_alloc_inodes`: the argument is one `__le64` count. -/
def serverAllocInodes : Nat → (σ → σ × Answer) → σ → σ × Answer := checkArgLen 8
def serverGetLogTrees : Nat → (σ → σ × Answer) → σ → σ × Answer := checkArgLen 0
def serverCommitLogTrees : Nat → (σ → σ × Answer) → σ → σ × Answer := checkArgLen Z.logTrees
def serverAdvanceSeq : Nat → (σ → σ × Answer) → σ → σ × Answer := checkArgLen 0
def serverGetLastSeq : Nat → (σ → σ × Answer) → σ → σ × Answer := checkArgLen 0
def serverLock : Nat → (σ → σ × Answer) → σ → σ × Answer := returnArgLen Z.netLock
def serverSrchGetCompact : Nat → (σ → σ × Answer) → σ → σ × Answer := checkArgLen 0
def serverSrchCommitCompact : Nat → (σ → σ × Answer) → σ → σ × Answer :=
  checkArgLen Z.srchCompact
/-- `server_open_ino_map`: the response at `out` is sent because `ret < 0`. -/
def serverOpenInoMap : Nat → (σ → σ × Answer) → σ → σ × Answer := checkArgLen Z.openInoMapArgs
def serverGetVolopt : Nat → (σ → σ × Answer) → σ → σ × Answer := checkArgLen 0
def serverSetVolopt : Nat → (σ → σ × Answer) → σ → σ × Answer := checkArgLen Z.volumeOptions
def serverClearVolopt : Nat → (σ → σ × Answer) → σ → σ × Answer := checkArgLen Z.volumeOptions
def serverFarewell : Nat → (σ → σ × Answer) → σ → σ × Answer := returnArgLen 0

/-- `server_get_roots`: zeroed roots and `ret = -EINVAL` on a wrong length, but the
response's status is the literal 0 on both paths. -/
def serverGetRoots (len : Nat) (body : σ → σ × Answer) (s : σ) : σ × Answer :=
  if len ≠ 0 then (s, .response 0) else body s

/-- `server_req_funcs[cmd]`, with `body cmd` the handler past its length check. -/
def serverReq (body : Cmd → σ → σ × Answer) (cmd : Cmd) (len : Nat) : σ → σ × Answer :=
  match cmd with
  | .greeting => serverGreeting Z len (body .greeting)
  | .allocInodes => serverAllocInodes len (body .allocInodes)
  | .getLogTrees => serverGetLogTrees len (body .getLogTrees)
  | .commitLogTrees => serverCommitLogTrees Z len (body .commitLogTrees)
  | .getRoots => serverGetRoots len (body .getRoots)
  | .advanceSeq => serverAdvanceSeq len (body .advanceSeq)
  | .getLastSeq => serverGetLastSeq len (body .getLastSeq)
  | .lock => serverLock Z len (body .lock)
  | .srchGetCompact => serverSrchGetCompact len (body .srchGetCompact)
  | .srchCommitCompact => serverSrchCommitCompact Z len (body .srchCommitCompact)
  | .openInoMap => serverOpenInoMap Z len (body .openInoMap)
  | .getVolopt => serverGetVolopt len (body .getVolopt)
  | .setVolopt => serverSetVolopt Z len (body .setVolopt)
  | .clearVolopt => serverClearVolopt Z len (body .clearVolopt)
  | .farewell => serverFarewell len (body .farewell)

/-- The length each handler expects. -/
def argLen : Cmd → Nat
  | .greeting => Z.netGreeting
  | .allocInodes => 8
  | .commitLogTrees => Z.logTrees
  | .lock => Z.netLock
  | .srchCommitCompact => Z.srchCompact
  | .openInoMap => Z.openInoMapArgs
  | .setVolopt | .clearVolopt => Z.volumeOptions
  | .getLogTrees | .getRoots | .advanceSeq | .getLastSeq | .srchGetCompact | .getVolopt
  | .farewell => 0

/-- What a handler answers a request of the wrong length. -/
def wrongLengthAnswer : Cmd → Answer
  | .getRoots => .response 0
  | .lock | .farewell => .returned (- EINVAL)
  | _ => .response (- EINVAL)

/-! ## Wrong lengths -/

variable {Z} {body : Cmd → σ → σ × Answer} {cmd : Cmd} {len : Nat}

theorem checkArgLen_of_ne {expected : Nat} {f : σ → σ × Answer} (h : len ≠ expected) (s : σ) :
    checkArgLen expected len f s = (s, .response (- EINVAL)) := if_pos h

theorem returnArgLen_of_ne {expected : Nat} {f : σ → σ × Answer} (h : len ≠ expected) (s : σ) :
    returnArgLen expected len f s = (s, .returned (- EINVAL)) := if_pos h

/-- Every handler, on a wrong length, leaves the state as it was and gives the
answer `wrongLengthAnswer` says, whatever the rest of the handler does. -/
theorem serverReq_wrong_length (h : len ≠ argLen Z cmd) (s : σ) :
    serverReq Z body cmd len s = (s, wrongLengthAnswer cmd) := by
  cases cmd <;>
    first
    | exact checkArgLen_of_ne h s
    | exact returnArgLen_of_ne h s
    | exact if_pos h

theorem wrong_length_unchanged (h : len ≠ argLen Z cmd) (s : σ) :
    (serverReq Z body cmd len s).1 = s := by
  rw [serverReq_wrong_length h]

/-- Every command but `GET_ROOTS` rejects a wrong length with `-EINVAL`: a response
with that status, or for `LOCK` and `FAREWELL` an error returned unanswered. -/
theorem wrong_length_rejected (h : len ≠ argLen Z cmd) (hc : cmd ≠ .getRoots) (s : σ) :
    (serverReq Z body cmd len s).2 = .response (- EINVAL) ∨
      (cmd = .lock ∨ cmd = .farewell) ∧ (serverReq Z body cmd len s).2 = .returned (- EINVAL) := by
  rw [serverReq_wrong_length h]
  cases cmd <;> simp [wrongLengthAnswer] at hc ⊢

/-- **`GET_ROOTS` answers a payload of the wrong length with status 0**, not `-EINVAL`. -/
theorem get_roots_wrong_length_status (Z : Sizes) (body : Cmd → Unit → Unit × Answer) :
    serverReq Z body .getRoots 1 () = ((), .response 0) :=
  serverReq_wrong_length (show (1 : Nat) ≠ 0 by decide) ()

end Scoutfs.Dispatch
