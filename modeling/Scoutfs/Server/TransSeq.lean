import Scoutfs.Basic

/-!
# Transaction sequence numbers

The `trans_seqs` btree holds one item `(seq, rid)` per client with a transaction
open, and `next_trans_seq` the next sequence number to hand out.
`server_advance_seq` removes the client's items, takes `next_trans_seq` and
inserts the new item; `remove_trans_seq` (farewell, fencing) removes them;
`server_get_last_seq` answers one less than the first item's seq, or than
`next_trans_seq` when there is none. All three run under `seq_rwsem`, so the
model runs them one after another. Each can hit a failing btree call: an
operation takes a budget, the number of btree calls that succeed before one
fails with `-EIO`.

The answer of `GET_LAST_SEQ` is computed with `le64_add_cpu(&last_seq, -1ULL)`,
so an item with seq 0, which a super block with `next_trans_seq ≥ 1` may hold, makes it `U64_MAX`:
`last_seq_zero_item` replays that, and the answers then go down. From a start
whose items all have seqs in `[1, next_trans_seq)`, at most one per rid, and
with no `ADVANCE_SEQ` past `U64_MAX`, `trans_seq_bounds` shows that the items stay in
range and the answers below them over every run: the invariant is `Inv`, and `advanceSeq_cases` says once
what an `ADVANCE_SEQ` can do to the tree.
-/

namespace Scoutfs.TransSeq

/-- The key of a `trans_seqs` item, `init_trans_seq_key(&key, seq, rid)`. -/
structure Key where
  seq : Nat
  rid : Nat
  deriving DecidableEq, Repr

/-- `scoutfs_key_compare` on trans_seq keys: by `skts_trans_seq`, then `skts_rid`. -/
def Key.lt (a b : Key) : Prop := a.seq < b.seq ∨ a.seq = b.seq ∧ a.rid < b.rid

instance : DecidableRel Key.lt := fun a b =>
  inferInstanceAs (Decidable (a.seq < b.seq ∨ a.seq = b.seq ∧ a.rid < b.rid))

/-- A reply of the server, logged in order. -/
inductive Reply where
  /-- `ADVANCE_SEQ`'s response status and `leseq` -/
  | advanced (ret : Int) (seq : Nat)
  /-- `GET_LAST_SEQ`'s response status and `last_seq` -/
  | lastSeq (ret : Int) (seq : Nat)
  deriving DecidableEq, Repr

/-- The part of the super block these handlers use, and the replies so far. -/
structure TransSeqs where
  /-- `super->next_trans_seq` -/
  next : Nat
  /-- the items of `super->trans_seqs`, in key order -/
  items : List Key
  log : List Reply
  deriving DecidableEq, Repr

/-! ## Btree calls -/

/-- One btree call under a budget: `none` if it fails, else the budget left.
`some n` lets `n` calls through; `none` never fails. -/
def btreeCall : Option Nat → Option (Option Nat)
  | some 0 => none
  | some (n + 1) => some (some n)
  | none => some none

/-- Insert into a list in key order. -/
def insertKey (k : Key) : List Key → List Key
  | [] => [k]
  | k' :: ks => if k.lt k' then k :: k' :: ks else k' :: insertKey k ks

/-- `scoutfs_btree_insert` with no value: `-EEXIST` if the key is there. -/
def btreeInsert (k : Key) (items : List Key) (b : Option Nat) : Except Int (List Key) :=
  match btreeCall b with
  | none => .error (- EIO)
  | some _ => if k ∈ items then .error (-EEXIST) else .ok (insertKey k items)

/-! ## The handlers -/

/-- The loop of `remove_trans_seq_locked` from the cursor on: `scoutfs_btree_next`
finds the items in key order, those of `rid` are deleted, and the first failing
call ends the loop. The items left, `ret`, and the budget left. -/
def removeTransSeqLocked (rid : Nat) : List Key → Option Nat → List Key × Int × Option Nat
  | [], b => match btreeCall b with
    | none => ([], - EIO, b)
    | some b => ([], 0, b)
  | k :: ks, b => match btreeCall b with
    | none => (k :: ks, - EIO, b)
    | some b =>
      if k.rid = rid then
        match btreeCall b with
        | none => (k :: ks, - EIO, b)
        | some b => removeTransSeqLocked rid ks b
      else
        let r := removeTransSeqLocked rid ks b
        (k :: r.1, r.2)

/-- `server_advance_seq` up to `scoutfs_server_apply_commit`: the state it leaves,
its `ret` and `leseq`. -/
def advanceSeq (rid : Nat) (b : Option Nat) (s : TransSeqs) : TransSeqs × Int × Nat :=
  let r := removeTransSeqLocked rid s.items b
  if r.2.1 < 0 then ({ s with items := r.1 }, r.2.1, 0)
  else
    let seq := s.next
    match btreeInsert ⟨seq, rid⟩ r.1 r.2.2 with
    | .ok items => ({ s with items := items, next := le64AddCpu s.next 1 }, 0, seq)
    | .error e => ({ s with items := r.1, next := le64AddCpu s.next 1 }, e, 0)

/-- `last_seq` once `scoutfs_btree_next` returned: one less than the first item's
seq, or than `next_trans_seq` when it found none. -/
def lastValidSeq (s : TransSeqs) : Nat :=
  match s.items with
  | k :: _ => le64AddCpu k.seq U64_MAX
  | [] => le64AddCpu s.next U64_MAX

/-- `server_get_last_seq`: its `ret` and `last_seq`, which stays 0 when
`scoutfs_btree_next` fails. -/
def getLastSeq (b : Option Nat) (s : TransSeqs) : Int × Nat :=
  match btreeCall b with
  | none => (- EIO, le64AddCpu 0 U64_MAX)
  | some _ => (0, lastValidSeq s)

/-- `scoutfs_server_apply_commit(sb, err)`: `err` itself, or the commit's result `c`. -/
def applyCommit (err c : Int) : Int := if err = 0 then c else err

/-- A request, with the budget of its btree calls. -/
inductive Op where
  /-- `ADVANCE_SEQ` from `rid`, whose commit returns `c` -/
  | advanceSeq (rid : Nat) (b : Option Nat) (c : Int)
  /-- `remove_trans_seq(rid)`, from a farewell or a fenced client's reclaim -/
  | removeTransSeq (rid : Nat) (b : Option Nat)
  | getLastSeq (b : Option Nat)
  deriving DecidableEq, Repr

def step (s : TransSeqs) : Op → TransSeqs
  | .advanceSeq rid b c =>
    let r := advanceSeq rid b s
    { r.1 with log := s.log ++ [.advanced (applyCommit r.2.1 c) r.2.2] }
  | .removeTransSeq rid b => { s with items := (removeTransSeqLocked rid s.items b).1 }
  | .getLastSeq b => { s with log := s.log ++ [.lastSeq (getLastSeq b s).1 (getLastSeq b s).2] }

def run (s : TransSeqs) : List Op → TransSeqs
  | [] => s
  | op :: ops => run (step s op) ops

theorem run_append (s : TransSeqs) (ops₁ ops₂ : List Op) :
    run s (ops₁ ++ ops₂) = run (run s ops₁) ops₂ := by
  induction ops₁ generalizing s with
  | nil => rfl
  | cons op ops ih => exact ih _

def Op.isAdvance : Op → Bool
  | .advanceSeq .. => true
  | _ => false

/-- How many `ADVANCE_SEQ` requests a run makes. -/
def advances (ops : List Op) : Nat := ops.countP Op.isAdvance

/-! ## A start with an item of seq 0 -/

/-- `next_trans_seq = 1` and one item `(0, 7)`, below it. -/
def zeroItem : TransSeqs := { next := 1, items := [⟨0, 7⟩], log := [] }

/-- `GET_LAST_SEQ`, client 7's farewell, `GET_LAST_SEQ`. -/
def zeroItemRun : List Op := [.getLastSeq none, .removeTransSeq 7 none, .getLastSeq none]

/-- **`GET_LAST_SEQ` wraps below an item with seq 0.** The start has `next_trans_seq ≥ 1`
and every item's seq below it; the first answer is `U64_MAX`, not below the item's
seq 0, and the second answer, 0, is smaller than the first. -/
theorem last_seq_zero_item :
    1 ≤ zeroItem.next ∧ (∀ k ∈ zeroItem.items, k.seq < zeroItem.next) ∧
      (run zeroItem zeroItemRun).log = [.lastSeq 0 U64_MAX, .lastSeq 0 0] := by
  decide

/-! ## What each handler does -/

/-- The loop deletes some of the items, fails with `-EIO` or succeeds, and when it
succeeds no item of `rid` is left. -/
theorem removeTransSeqLocked_spec (rid : Nat) : ∀ (items : List Key) (b : Option Nat),
    (removeTransSeqLocked rid items b).1.Sublist items ∧
    ((removeTransSeqLocked rid items b).2.1 = 0 ∨ (removeTransSeqLocked rid items b).2.1 = - EIO) ∧
    ((removeTransSeqLocked rid items b).2.1 = 0 →
      ∀ k ∈ (removeTransSeqLocked rid items b).1, k.rid ≠ rid)
  | [], b => by
    simp only [removeTransSeqLocked]
    split <;> simp
  | k :: ks, b => by
    have ih := removeTransSeqLocked_spec rid ks
    simp only [removeTransSeqLocked]
    split
    · simp [ EIO]
    · split
      · split
        · simp [ EIO]
        · obtain ⟨h1, h2, h3⟩ := ih _
          exact ⟨h1.cons k, h2, h3⟩
      · obtain ⟨h1, h2, h3⟩ := ih _
        refine ⟨h1.cons₂ k, h2, fun h0 k' hk => ?_⟩
        rcases List.mem_cons.mp hk with rfl | hk
        · assumption
        · exact h3 h0 k' hk

/-! The loop makes one `scoutfs_btree_next` per item and a last one that finds none,
and one `scoutfs_btree_delete` per item of the rid; it returns 0 iff the budget lets
all of them through, and then it has deleted exactly the items of the rid. -/

/-- The btree calls of `remove_trans_seq_locked` over `items`. -/
def removeCalls (rid : Nat) (items : List Key) : Nat :=
  items.length + items.countP (fun k => k.rid = rid) + 1

theorem removeTransSeqLocked_ok_iff (rid : Nat) :
    ∀ (items : List Key) (b : Option Nat),
      (removeTransSeqLocked rid items b).2.1 = 0 ↔ ∀ n, b = some n → removeCalls rid items ≤ n
  | [], none => by simp [removeTransSeqLocked, btreeCall]
  | [], some 0 => by simp [removeTransSeqLocked, btreeCall, removeCalls, EIO]
  | [], some (n + 1) => by simp [removeTransSeqLocked, btreeCall, removeCalls]
  | k :: ks, b => by
    have ih := removeTransSeqLocked_ok_iff rid ks
    rcases b with _ | _ | _ | n <;> by_cases hk : k.rid = rid <;>
      simp [removeTransSeqLocked, btreeCall, hk, ih, removeCalls, List.countP_cons, EIO] <;> omega

/-- On success the loop deletes exactly the items of the rid. -/
theorem removeTransSeqLocked_ok_items (rid : Nat) :
    ∀ (items : List Key) (b : Option Nat), (removeTransSeqLocked rid items b).2.1 = 0 →
      (removeTransSeqLocked rid items b).1 = items.filter fun k => k.rid ≠ rid
  | [], b => by simp [removeTransSeqLocked]; split <;> simp
  | k :: ks, b => by
    have ih := removeTransSeqLocked_ok_items rid ks
    simp only [removeTransSeqLocked]
    split
    · simp [ EIO]
    · split
      · split
        · simp [ EIO]
        · intro h
          simp [ih _ h, *]
      · intro h
        simp_all

/-- On any return the loop has deleted some of the rid's items and kept every other
item, in order. -/
theorem removeTransSeqLocked_removes (rid : Nat) :
    ∀ {items : List Key} (b : Option Nat), items.Nodup →
      ∃ removed : List Key, (∀ k ∈ removed, k ∈ items ∧ k.rid = rid) ∧
        (removeTransSeqLocked rid items b).1 = items.filter fun k => k ∉ removed
  | [], b, _ => ⟨[], by simp, by simp only [removeTransSeqLocked]; split <;> rfl⟩
  | k :: ks, b, hn => by
    obtain ⟨hk, hks⟩ := List.nodup_cons.1 hn
    simp only [removeTransSeqLocked]
    cases btreeCall b with
    | none => exact ⟨[], by simp, by simp⟩
    | some b₁ =>
      by_cases hr : k.rid = rid
      · simp only [if_pos hr]
        cases btreeCall b₁ with
        | none => exact ⟨[], by simp, by simp⟩
        | some b₂ =>
          obtain ⟨S, hS, he⟩ := removeTransSeqLocked_removes rid b₂ hks
          refine ⟨k :: S, ?_, ?_⟩
          · simpa [hr] using fun x hx => ⟨.inr (hS x hx).1, (hS x hx).2⟩
          · rw [he, List.filter_cons_of_neg (by simp)]
            exact List.filter_congr fun x hx => by
              simp [show x ≠ k from fun e => hk (e ▸ hx)]
      · simp only [if_neg hr]
        obtain ⟨S, hS, he⟩ := removeTransSeqLocked_removes rid b₁ hks
        have hkS : k ∉ S := fun hm => hr (hS k hm).2
        refine ⟨S, fun x hx => ⟨.tail _ (hS x hx).1, (hS x hx).2⟩, ?_⟩
        rw [he, List.filter_cons_of_pos (by simpa using hkS)]

/-- A key above every item goes last. -/
theorem insertKey_of_lt {k : Key} : ∀ {ks : List Key}, (∀ k' ∈ ks, k'.seq < k.seq) →
    insertKey k ks = ks ++ [k]
  | [], _ => rfl
  | k' :: ks, h => by
    have hk : ¬ k.lt k' := by
      have := h k' (List.mem_cons_self _ _)
      unfold Key.lt; omega
    rw [insertKey, if_neg hk, insertKey_of_lt fun k'' hk'' => h k'' (List.mem_cons_of_mem _ hk'')]
    rfl

variable {s : TransSeqs} {rid : Nat} {b : Option Nat}

/-- What `ADVANCE_SEQ` can do when every item is below `next_trans_seq`: the loop
deletes some items and fails, or deletes all of `rid`'s and then the insert fails or
puts `(next_trans_seq, rid)` last. -/
theorem advanceSeq_cases (rid : Nat) (b : Option Nat) (hlt : ∀ k ∈ s.items, k.seq < s.next) :
    ∃ items : List Key, items.Sublist s.items ∧
      (advanceSeq rid b s = ({ s with items := items }, - EIO, 0) ∨
       (∀ k ∈ items, k.rid ≠ rid) ∧
        (advanceSeq rid b s = ({ s with items := items, next := le64AddCpu s.next 1 }, - EIO, 0) ∨
         advanceSeq rid b s =
          ({ s with items := items ++ [⟨s.next, rid⟩], next := le64AddCpu s.next 1 }, 0, s.next))) := by
  obtain ⟨hsub, hret, hok⟩ := removeTransSeqLocked_spec rid s.items b
  refine ⟨_, hsub, ?_⟩
  unfold advanceSeq
  rcases hret with h0 | h0
  · have hnot : (⟨s.next, rid⟩ : Key) ∉ (removeTransSeqLocked rid s.items b).1 := fun hm =>
      absurd (hlt _ (hsub.subset hm)) (lt_irrefl _)
    simp only [h0, lt_irrefl, if_false, btreeInsert, if_neg hnot]
    refine .inr ⟨hok h0, ?_⟩
    cases btreeCall (removeTransSeqLocked rid s.items b).2.2
    · exact .inl rfl
    · rw [insertKey_of_lt fun k hk => hlt k (hsub.subset hk)]
      exact .inr rfl
  · simp [h0, EIO]

/-! ## The invariant -/

/-- What holds after every run from a `Start`. -/
structure Inv (s : TransSeqs) : Prop where
  /-- the btree is in key order -/
  sorted : s.items.Pairwise Key.lt
  /-- each rid owns at most one item -/
  unique : s.items.Pairwise fun a b => a.rid ≠ b.rid
  /-- every item's seq is in `[1, next_trans_seq)` -/
  seq_pos : ∀ k ∈ s.items, 0 < k.seq
  seq_lt : ∀ k ∈ s.items, k.seq < s.next
  next_pos : 0 < s.next
  next_le : s.next ≤ U64_MAX
  /-- every answer of `GET_LAST_SEQ` so far is below `next_trans_seq` and every item's seq -/
  last_lt : ∀ {i v : Nat}, s.log[i]? = some (Reply.lastSeq 0 v) → v < s.next ∧ ∀ k ∈ s.items, v < k.seq
  /-- and below every seq `ADVANCE_SEQ` handed out after it -/
  last_lt_advanced : ∀ {i j v q : Nat}, i < j → s.log[i]? = some (Reply.lastSeq 0 v) →
    s.log[j]? = some (Reply.advanced 0 q) → v < q
  /-- and the answers never go down -/
  last_le_last : ∀ {i j v w : Nat}, i < j → s.log[i]? = some (Reply.lastSeq 0 v) →
    s.log[j]? = some (Reply.lastSeq 0 w) → v ≤ w

theorem getLastSeq_ok {b : Option Nat} (h : (getLastSeq b s).1 = 0) :
    (getLastSeq b s).2 = lastValidSeq s := by
  unfold getLastSeq at *
  split <;> simp_all [ EIO]

/-- `last_seq` is the largest number below `next_trans_seq` and below every item's seq. -/
theorem Inv.lastValidSeq_bounds (hi : Inv s) :
    lastValidSeq s < s.next ∧ (∀ k ∈ s.items, lastValidSeq s < k.seq) ∧
      ∀ v, v < s.next → (∀ k ∈ s.items, v < k.seq) → v ≤ lastValidSeq s := by
  have hpos := hi.seq_pos
  have hlt := hi.seq_lt
  have hsorted := hi.sorted
  have hn := hi.next_le
  have hn0 := hi.next_pos
  unfold lastValidSeq
  cases hs : s.items with
  | nil =>
    dsimp only
    rw [le64AddCpu_minus_one hn, if_neg (by omega)]
    exact ⟨by omega, by simp, fun v hv _ => by omega⟩
  | cons k ks =>
    dsimp only
    rw [hs] at hpos hlt hsorted
    have hk0 := hpos k (List.mem_cons_self _ _)
    have hkn := hlt k (List.mem_cons_self _ _)
    rw [le64AddCpu_minus_one (by omega), if_neg (by omega)]
    refine ⟨by omega, fun k' hk' => ?_, fun v _ hv => by have := hv k (List.mem_cons_self _ _); omega⟩
    rcases List.mem_cons.mp hk' with rfl | hk'
    · omega
    · have := (List.pairwise_cons.mp hsorted).1 k' hk'
      unfold Key.lt at this
      omega

section Preservation

/-- Deleting items and raising `next_trans_seq` keep the invariant. -/
theorem Inv.shrink (hi : Inv s) {items : List Key} {n : Nat} (hsub : items.Sublist s.items)
    (hn : s.next ≤ n) (hn' : n ≤ U64_MAX) : Inv { s with items := items, next := n } where
  sorted := hi.sorted.sublist hsub
  unique := hi.unique.sublist hsub
  seq_pos k hk := hi.seq_pos k (hsub.subset hk)
  seq_lt k hk := by have := hi.seq_lt k (hsub.subset hk); simp only; omega
  next_pos := by have := hi.next_pos; simp only; omega
  next_le := hn'
  last_lt hv := by
    obtain ⟨h1, h2⟩ := hi.last_lt hv
    exact ⟨by simp only; omega, fun k hk => h2 k (hsub.subset hk)⟩
  last_lt_advanced := hi.last_lt_advanced
  last_le_last := hi.last_le_last

/-- The item `(next_trans_seq, rid)` goes last, once no item of `rid` is left. -/
theorem Inv.insert (hi : Inv s) {items : List Key} (hsub : items.Sublist s.items)
    (hrid : ∀ k ∈ items, k.rid ≠ rid) (hn : s.next < U64_MAX) :
    Inv { s with items := items ++ [⟨s.next, rid⟩], next := s.next + 1 } := by
  have hi' := hi.shrink hsub (Nat.le_succ _) hn
  refine ⟨?_, ?_, ?_, ?_, hi'.next_pos, hi'.next_le, fun hv => ?_, hi.last_lt_advanced,
    hi.last_le_last⟩
  · exact List.pairwise_append.mpr ⟨hi'.sorted, List.pairwise_singleton _ _,
      fun k hk k' hk' => by rw [List.mem_singleton.mp hk']; exact .inl (hi.seq_lt k (hsub.subset hk))⟩
  · exact List.pairwise_append.mpr ⟨hi'.unique, List.pairwise_singleton _ _,
      fun k hk k' hk' => by rw [List.mem_singleton.mp hk']; exact hrid k hk⟩
  · intro k hk
    rcases List.mem_append.mp hk with hk | hk
    · exact hi'.seq_pos k hk
    · rw [List.mem_singleton.mp hk]; exact hi.next_pos
  · intro k hk
    rcases List.mem_append.mp hk with hk | hk
    · exact hi'.seq_lt k hk
    · rw [List.mem_singleton.mp hk]; exact Nat.lt_succ_self _
  · obtain ⟨h1, h2⟩ := hi.last_lt hv
    refine ⟨by simp only; omega, fun k hk => ?_⟩
    rcases List.mem_append.mp hk with hk | hk
    · exact h2 k (hsub.subset hk)
    · rw [List.mem_singleton.mp hk]; exact h1

/-- An `ADVANCE_SEQ` reply keeps the invariant if, when it succeeds, its seq is above
every answer of `GET_LAST_SEQ` so far. -/
theorem Inv.append_advanced (hi : Inv s) {r : Int} {q : Nat}
    (hq : r = 0 → ∀ {i v : Nat}, s.log[i]? = some (Reply.lastSeq 0 v) → v < q) :
    Inv { s with log := s.log ++ [.advanced r q] } := by
  refine ⟨hi.sorted, hi.unique, hi.seq_pos, hi.seq_lt, hi.next_pos, hi.next_le, fun hv => ?_,
    fun hij hv hw => ?_, fun hij hv hw => ?_⟩
  · rcases getElem?_append_singleton_eq_some hv with hv | ⟨-, he⟩
    · exact hi.last_lt hv
    · cases he
  · rcases getElem?_append_singleton_eq_some hv with hv' | ⟨-, he⟩
    · rcases getElem?_append_singleton_eq_some hw with hw | ⟨-, he⟩
      · exact hi.last_lt_advanced hij hv' hw
      · simp only [Reply.advanced.injEq] at he
        obtain ⟨rfl, rfl⟩ := he
        exact hq rfl hv'
    · cases he
  · rcases getElem?_append_singleton_eq_some hw with hw | ⟨-, he⟩
    · rcases getElem?_append_singleton_eq_some hv with hv | ⟨-, he⟩
      · exact hi.last_le_last hij hv hw
      · cases he
    · cases he

/-- A `GET_LAST_SEQ` reply keeps the invariant if, when it succeeds, its answer is
below `next_trans_seq` and every item, and at least every answer so far. -/
theorem Inv.append_lastSeq (hi : Inv s) {r : Int} {v : Nat}
    (hv : r = 0 → (v < s.next ∧ ∀ k ∈ s.items, v < k.seq) ∧
      ∀ {i u : Nat}, s.log[i]? = some (Reply.lastSeq 0 u) → u ≤ v) :
    Inv { s with log := s.log ++ [.lastSeq r v] } := by
  refine ⟨hi.sorted, hi.unique, hi.seq_pos, hi.seq_lt, hi.next_pos, hi.next_le, fun hu => ?_,
    fun hij hu hw => ?_, fun hij hu hw => ?_⟩
  · rcases getElem?_append_singleton_eq_some hu with hu | ⟨-, he⟩
    · exact hi.last_lt hu
    · simp only [Reply.lastSeq.injEq] at he
      obtain ⟨rfl, rfl⟩ := he
      exact (hv rfl).1
  · rcases getElem?_append_singleton_eq_some hw with hw | ⟨-, he⟩
    · have hil := lt_length_of_getElem?_eq_some hw
      rcases getElem?_append_singleton_eq_some hu with hu | ⟨rfl, -⟩
      · exact hi.last_lt_advanced hij hu hw
      · omega
    · cases he
  · rcases getElem?_append_singleton_eq_some hw with hw | ⟨hjl, he⟩
    · have hil := lt_length_of_getElem?_eq_some hw
      rcases getElem?_append_singleton_eq_some hu with hu | ⟨rfl, -⟩
      · exact hi.last_le_last hij hu hw
      · omega
    · simp only [Reply.lastSeq.injEq] at he
      obtain ⟨rfl, rfl⟩ := he
      rw [hjl] at hij
      rcases getElem?_append_singleton_eq_some hu with hu | ⟨rfl, -⟩
      · exact (hv rfl).2 hu
      · omega

/-- One request keeps the invariant, as long as an `ADVANCE_SEQ` does not start at
`U64_MAX`; `next_trans_seq` grows by at most the one seq it hands out. -/
theorem Inv.step (hi : Inv s) (op : Op) (hop : op.isAdvance → s.next < U64_MAX) :
    Inv (step s op) ∧ s.next ≤ (step s op).next ∧
      (step s op).next ≤ s.next + if op.isAdvance then 1 else 0 := by
  cases op with
  | advanceSeq rid b c =>
    have hn := hop rfl
    have hadd : le64AddCpu s.next 1 = s.next + 1 := le64AddCpu_of_le (by omega)
    have hfail : applyCommit (- EIO) c ≠ 0 := by simp [applyCommit, EIO]
    obtain ⟨items, hsub, h | ⟨hrid, h | h⟩⟩ := advanceSeq_cases rid b hi.seq_lt <;>
      simp only [TransSeq.step, h, hadd, Op.isAdvance, if_true]
    · exact ⟨(hi.shrink hsub le_rfl hi.next_le).append_advanced fun h => absurd h hfail,
        le_rfl, by omega⟩
    · exact ⟨(hi.shrink hsub (Nat.le_succ _) hn).append_advanced fun h => absurd h hfail,
        by omega, le_rfl⟩
    · exact ⟨(hi.insert hsub hrid hn).append_advanced fun _ _ _ hv => (hi.last_lt hv).1,
        by omega, le_rfl⟩
  | removeTransSeq rid b =>
    exact ⟨hi.shrink (removeTransSeqLocked_spec rid s.items b).1 le_rfl hi.next_le, le_rfl,
      by simp [TransSeq.step]⟩
  | getLastSeq b =>
    refine ⟨hi.append_lastSeq fun h => ?_, le_rfl, by simp [TransSeq.step]⟩
    obtain ⟨h1, h2, h3⟩ := hi.lastValidSeq_bounds
    rw [getLastSeq_ok h]
    exact ⟨⟨h1, h2⟩, fun hu => h3 _ (hi.last_lt hu).1 (hi.last_lt hu).2⟩

theorem advances_cons (op : Op) (ops : List Op) :
    advances (op :: ops) = advances ops + if op.isAdvance then 1 else 0 :=
  List.countP_cons _ _ _

/-- A whole run keeps the invariant while it hands out seqs below `U64_MAX`. -/
theorem Inv.run (hi : Inv s) (ops : List Op) (hops : s.next + advances ops ≤ U64_MAX) :
    Inv (run s ops) ∧ s.next ≤ (run s ops).next ∧ (run s ops).next ≤ s.next + advances ops := by
  induction ops generalizing s with
  | nil => exact ⟨hi, le_rfl, le_rfl⟩
  | cons op ops ih =>
    rw [advances_cons] at hops ⊢
    simp only [TransSeq.run]
    obtain ⟨hi', h1, h2⟩ := hi.step op fun ha => by rw [if_pos ha] at hops; omega
    generalize (if op.isAdvance = true then 1 else 0) = d at h2 hops ⊢
    obtain ⟨h3, h4, h5⟩ := ih hi' (by omega)
    exact ⟨h3, h1.trans h4, by omega⟩

end Preservation

/-! ## Every run from a start with seqs in `[1, next_trans_seq)` -/

/-- A start whose items are in key order with seqs in
`[1, next_trans_seq)`, at most one per rid, `1 ≤ next_trans_seq ≤ U64_MAX`, and no
replies yet. -/
structure Start (s : TransSeqs) : Prop where
  sorted : s.items.Pairwise Key.lt
  unique : s.items.Pairwise fun a b => a.rid ≠ b.rid
  seq_pos : ∀ k ∈ s.items, 0 < k.seq
  seq_lt : ∀ k ∈ s.items, k.seq < s.next
  next_pos : 0 < s.next
  next_le : s.next ≤ U64_MAX
  log_nil : s.log = []

theorem Start.inv {s : TransSeqs} (h : Start s) : Inv s :=
  ⟨h.sorted, h.unique, h.seq_pos, h.seq_lt, h.next_pos, h.next_le,
    fun hv => by simp [h.log_nil] at hv, fun _ hv => by simp [h.log_nil] at hv,
    fun _ hv => by simp [h.log_nil] at hv⟩

/-- **The trans_seqs invariants hold over every run from a start with seqs from 1**
that does not advance `next_trans_seq` past `U64_MAX`, whatever btree calls and commits
fail along it: the invariant at the end, and `next_trans_seq` at any earlier point
of the run is at most its value at the end. -/
theorem trans_seq_bounds {s₀ : TransSeqs} (h₀ : Start s₀) {ops : List Op}
    (hops : s₀.next + advances ops ≤ U64_MAX) :
    Inv (run s₀ ops) ∧
      ∀ ops₁ ops₂, ops = ops₁ ++ ops₂ → (run s₀ ops₁).next ≤ (run s₀ ops).next := by
  refine ⟨(h₀.inv.run ops hops).1, fun ops₁ ops₂ he => ?_⟩
  subst he
  have hsplit : advances (ops₁ ++ ops₂) = advances ops₁ + advances ops₂ := List.countP_append _ _ _
  obtain ⟨hi₁, -, hn₁⟩ := h₀.inv.run ops₁ (by omega)
  rw [run_append]
  exact (hi₁.run ops₂ (by omega)).2.1

/-- Two clients with items `(2, 1)` and `(3, 2)` below `next_trans_seq = 4`. -/
def twoClients : TransSeqs := { next := 4, items := [⟨2, 1⟩, ⟨3, 2⟩], log := [] }

/-- Client 1 advances; client 2's advance fails in its insert; client 2 leaves. -/
def twoClientsRun : List Op :=
  [.getLastSeq none, .advanceSeq 1 none 0, .getLastSeq none, .advanceSeq 2 (some 3) 0,
   .getLastSeq none, .removeTransSeq 2 none, .getLastSeq none]

theorem trans_seq_bounds_two_clients :
    Start twoClients ∧ twoClients.next + advances twoClientsRun ≤ U64_MAX ∧
      Inv (run twoClients twoClientsRun) ∧ ∀ ops₁ ops₂, twoClientsRun = ops₁ ++ ops₂ →
        (run twoClients ops₁).next ≤ (run twoClients twoClientsRun).next := by
  have h₀ : Start twoClients :=
    ⟨by decide, by decide, by decide, by decide, by decide, by decide, rfl⟩
  have hops : twoClients.next + advances twoClientsRun ≤ U64_MAX := by decide
  exact ⟨h₀, hops, trans_seq_bounds h₀ hops⟩

end Scoutfs.TransSeq
