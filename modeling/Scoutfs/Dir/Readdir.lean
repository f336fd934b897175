import Scoutfs.Dir.Invariant

/-!
# `scoutfs_readdir`

`readdir` hands `filldir` the entries `.` and `..` from `dir_emit_dots`, then walks
the dirent items from the key at `f_pos` to `SCOUTFS_DIRENT_LAST_POS` and hands each
one over with its offset as the position, moving `f_pos` one past every entry
`filldir` takes. A `filldir` that refuses an entry (its buffer is full) ends the
call with `f_pos` on that entry, so the next call starts there.

Over any sequence of calls on one open file, with the directory unchanged and any
pattern of refusals, the entries `filldir` took and the listing still ahead of
`f_pos` make up `.`, `..` and the items in offset order (`readdirCalls_listing`), and
a call that stops early stops at an entry `filldir` refused or at a failed btree
read, which is the next entry of that listing (`scoutfsReaddir_spec`). Two facts of
the directory carry this: dirent offsets start at 2, above the positions of the
dots (`nameHash_mem`), and `pos + 1` is computed in a `u32`, so the last position
has to leave room for it, which `format.h` decides.
-/

namespace Scoutfs.Dir

/-- What `filldir` is handed: the name, the position, the inode number and the type. -/
structure Filled where
  name : List UInt8
  pos : Nat
  ino : Nat
  type : Kind
  deriving DecidableEq, Repr

/-- `.`, handed over at position 1 with the directory's own inode number. -/
def dot (dirIno : Nat) : Filled := ⟨[46], 1, dirIno, .dir⟩

/-- `..`, handed over at position 1 with the parent's inode number. -/
def dotdot (parentIno : Nat) : Filled := ⟨[46, 46], 1, parentIno, .dir⟩

/-- One of the two tests of `dir_emit_dots`: at `f_pos = p`, hand `e` over and move
past it, or stop when `filldir` refuses it. The state is `f_pos`, whether to go on,
and the entries `filldir` took. -/
def emitDot (filldir : Filled → Bool) (p : Nat) (e : Filled) (s : Nat × Bool × List Filled) :
    Nat × Bool × List Filled :=
  if s.2.1 ∧ s.1 = p then
    if filldir e then (s.1, false, s.2.2) else (p + 1, true, s.2.2 ++ [e])
  else s

/-- `dir_emit_dots`. -/
def dirEmitDots (dirIno parentIno : Nat) (filldir : Filled → Bool) (fpos : Nat) : Nat × Bool × List Filled :=
  emitDot filldir 1 (dotdot parentIno) (emitDot filldir 0 (dot dirIno) (fpos, true, []))

/-- The loop of `scoutfs_readdir` over the items `scoutfs_btree_next` walks, from
`f_pos`: `walkOk off` is whether the btree read of the item at `off` succeeds. The
position is the key's offset as a `u32`, and `f_pos` becomes `pos + 1` in a `u32`. -/
def readdirLoop (filldir : Filled → Bool) (walkOk : Nat → Bool) :
    List (Nat × Dirent) → Nat → Nat × Int × List Filled
  | [], fpos => (fpos, 0, [])
  | (off, e) :: ps, fpos =>
    if ¬walkOk off then (fpos, - EIO, [])
    else
      let pos := off % 2 ^ 32
      let f : Filled := ⟨e.name, pos, e.ino, e.type⟩
      if filldir f then (fpos, 0, [])
      else
        let r := readdirLoop filldir walkOk ps ((pos + 1) % 2 ^ 32)
        (r.1, r.2.1, f :: r.2.2)

variable (F : Format)

/-- `scoutfs_readdir` on directory `d`, whose inode number is `dirIno` and whose
parent's is `parentIno`: the new `f_pos`, the return value and the entries `filldir`
took. `filldir e` is true when `filldir` refuses `e`. -/
def scoutfsReaddir (d : Inode) (dirIno parentIno : Nat) (walkOk : Nat → Bool) (filldir : Filled → Bool)
    (fpos : Nat) : Nat × Int × List Filled :=
  let r := dirEmitDots dirIno parentIno filldir fpos
  if ¬r.2.1 then (r.1, 0, r.2.2)
  else
    let l := readdirLoop filldir walkOk (window d.items r.1 F.direntLastPos) r.1
    (l.1, l.2.1, r.2.2 ++ l.2.2)

/-- A sequence of `scoutfs_readdir` calls on one open file, each with its own
`filldir`: the final `f_pos` and every entry taken, in order. -/
def readdirCalls (d : Inode) (dirIno parentIno : Nat) (walkOk : Nat → Bool) :
    List (Filled → Bool) → Nat → Nat × List Filled
  | [], fpos => (fpos, [])
  | filldir :: fds, fpos =>
    let r := scoutfsReaddir F d dirIno parentIno walkOk filldir fpos
    let s := readdirCalls d dirIno parentIno walkOk fds r.1
    (s.1, r.2.2 ++ s.2)

/-! ## The listing ahead of `f_pos` -/

/-- A dirent item as `readdir` should hand it over: its offset as the position. -/
def direntFilled (p : Nat × Dirent) : Filled := ⟨p.2.name, p.1, p.2.ino, p.2.type⟩

/-- The items at or past position `fpos`. -/
def itemsFrom (items : List (Nat × Dirent)) (fpos : Nat) : List Filled :=
  (items.filter fun p => fpos ≤ p.1).map direntFilled

/-- The dots still ahead of `f_pos`. -/
def dotsFrom (dirIno parentIno fpos : Nat) : List Filled :=
  (if fpos = 0 then [dot dirIno] else []) ++ (if fpos ≤ 1 then [dotdot parentIno] else [])

/-- What a directory listing still holds ahead of `f_pos`. -/
def listing (d : Inode) (dirIno parentIno fpos : Nat) : List Filled :=
  dotsFrom dirIno parentIno fpos ++ itemsFrom d.items fpos

/-- A call from `f_pos` that returned `r` handed over the start of the listing ahead of
`f_pos` and left `f_pos` on the first entry it did not hand over, one that `filldir`
refused or whose read failed. -/
def Resumes (d : Inode) (dirIno parentIno : Nat) (filldir : Filled → Bool) (fpos : Nat)
    (r : Nat × Int × List Filled) : Prop :=
  listing d dirIno parentIno fpos = r.2.2 ++ listing d dirIno parentIno r.1 ∧
    ∀ x ∈ (listing d dirIno parentIno r.1).head?, filldir x = true ∨ r.2.1 = - EIO

section Listing

variable {F} {crc32c : Nat → List UInt8 → Nat} {d : Inode} (dirIno parentIno : Nat)
  {filldir : Filled → Bool} (walkOk : Nat → Bool)

/-- Every dirent offset of a directory lies in `[2, LAST_POS]`. -/
theorem DirInv.offset_mem (hd : DirInv F crc32c d) : ∀ p ∈ d.items, 2 ≤ p.1 ∧ p.1 ≤ F.direntLastPos := by
  intro p hp
  have h₁ := hd.placed p hp
  have h₂ := nameHash_mem F crc32c d.salt p.2.name
  have h₃ := lastDirentKeyOffset_le F (nameHash F crc32c d.salt p.2.name)
  omega

theorem itemsFrom_eq_map {ps : List (Nat × Dirent)} {fpos : Nat} (h : ∀ p ∈ ps, fpos ≤ p.1) :
    itemsFrom ps fpos = ps.map direntFilled := by
  rw [itemsFrom, List.filter_eq_self.2 (by simpa using h)]

theorem itemsFrom_cons_of_lt {off fpos : Nat} {e : Dirent} {ps : List (Nat × Dirent)} (h : off < fpos) :
    itemsFrom ((off, e) :: ps) fpos = itemsFrom ps fpos := by
  simp [itemsFrom, List.filter_cons, Nat.not_le.2 h]

theorem itemsFrom_filter {ps : List (Nat × Dirent)} {a b : Nat} (h : a ≤ b) :
    itemsFrom (ps.filter fun p => a ≤ p.1) b = itemsFrom ps b := by
  rw [itemsFrom, itemsFrom, List.filter_filter]
  congr 1
  exact List.filter_congr fun p _ => by by_cases hp : b ≤ p.1 <;> simp [hp]; omega

theorem window_eq_filter {ps : List (Nat × Dirent)} {first last : Nat} (h : ∀ p ∈ ps, p.1 ≤ last) :
    window ps first last = ps.filter fun p => first ≤ p.1 :=
  List.filter_congr fun p hp => by simp [h p hp]

/-- `dir_emit_dots` hands over the dots ahead of `f_pos` that `filldir` takes; it goes
on from `max f_pos 2`, or stops at a dot `filldir` refused. -/
theorem dirEmitDots_spec {fpos f' : Nat} {go : Bool} {out : List Filled}
    (h : dirEmitDots dirIno parentIno filldir fpos = (f', go, out)) :
    dotsFrom dirIno parentIno fpos = out ++ dotsFrom dirIno parentIno f' ∧
      (go = true → f' = max fpos 2) ∧
      (go = false → fpos ≤ f' ∧ f' < 2 ∧ ∀ x ∈ (dotsFrom dirIno parentIno f').head?, filldir x = true) := by
  unfold dirEmitDots emitDot at h
  rcases fpos with _ | _ | fpos <;> cases h₀ : filldir (dot dirIno) <;>
    cases h₁ : filldir (dotdot parentIno) <;> simp [h₀, h₁] at h <;> obtain ⟨rfl, rfl, rfl⟩ := h <;>
    simp [dotsFrom, h₀, h₁]

/-- The loop of `scoutfs_readdir` over items at or past `f_pos`: it hands over the items
`filldir` takes, in order, each at its offset, and stops at the end, at an item
`filldir` refused, or at a failed read, with `f_pos` on that item. -/
theorem readdirLoop_spec (hF : F.direntLastPos < 2 ^ 32 - 1) :
    ∀ {ps : List (Nat × Dirent)} {fpos f' : Nat} {ret : Int} {out : List Filled}, Sorted ps →
      (∀ p ∈ ps, fpos ≤ p.1 ∧ p.1 ≤ F.direntLastPos) → fpos ≤ F.direntLastPos + 1 →
      readdirLoop filldir walkOk ps fpos = (f', ret, out) →
      ps.map direntFilled = out ++ itemsFrom ps f' ∧ fpos ≤ f' ∧ f' ≤ F.direntLastPos + 1 ∧
        ∀ x ∈ (itemsFrom ps f').head?, filldir x = true ∨ ret = - EIO
  | [], fpos, f', ret, out, _, _, hp, h => by
    simp only [readdirLoop, Prod.mk.injEq] at h
    obtain ⟨rfl, rfl, rfl⟩ := h
    simp [itemsFrom, hp]
  | (off, e) :: ps, fpos, f', ret, out, hs, hb, hp, h => by
    obtain ⟨hoff₁, hoff₂⟩ : fpos ≤ off ∧ off ≤ F.direntLastPos := hb (off, e) (List.mem_cons_self _ _)
    have hall : itemsFrom ((off, e) :: ps) fpos = ((off, e) :: ps).map direntFilled :=
      itemsFrom_eq_map fun p hp' => (hb p hp').1
    obtain ⟨hlt, hs'⟩ := List.pairwise_cons.1 hs
    unfold readdirLoop at h
    simp only [Nat.mod_eq_of_lt (show off < 2 ^ 32 by omega),
      Nat.mod_eq_of_lt (show off + 1 < 2 ^ 32 by omega)] at h
    by_cases hw : walkOk off
    · by_cases hf : filldir ⟨e.name, off, e.ino, e.type⟩
      · -- `filldir` refuses the item: the call stops on it
        simp only [hw, hf, not_true_eq_false, if_false, if_true, Prod.mk.injEq] at h
        obtain ⟨rfl, rfl, rfl⟩ := h
        simp only [hall, List.map_cons, List.nil_append, List.head?_cons, Option.mem_def,
          Option.some.injEq, forall_eq', le_refl, true_and, hp]
        exact .inl hf
      · -- `filldir` takes the item and the loop goes on past it
        simp only [Bool.not_eq_true] at hf
        simp only [hw, hf, not_true_eq_false, if_false, Bool.false_eq_true] at h
        generalize hr : readdirLoop filldir walkOk ps (off + 1) = r at h
        obtain ⟨f'', ret'', out''⟩ := r
        simp only [Prod.mk.injEq] at h
        obtain ⟨rfl, rfl, rfl⟩ := h
        obtain ⟨hmap, hle, hle', hhead⟩ := readdirLoop_spec hF hs'
          (fun p hp' => ⟨hlt p hp', (hb p (List.mem_cons_of_mem _ hp')).2⟩) (by omega) hr
        rw [itemsFrom_cons_of_lt (by omega)]
        exact ⟨by rw [List.map_cons, hmap]; rfl, by omega, hle', hhead⟩
    · -- the btree read fails: the call stops on the item
      simp only [hw, not_false_eq_true, if_true, Bool.false_eq_true, Prod.mk.injEq] at h
      obtain ⟨rfl, rfl, rfl⟩ := h
      simp [hall, hp]

theorem dotsFrom_of_two_le {p : Nat} (h : 2 ≤ p) : dotsFrom dirIno parentIno p = [] := by
  simp [dotsFrom, show p ≠ 0 by omega, show ¬p ≤ 1 by omega]

theorem itemsFrom_max {ps : List (Nat × Dirent)} (h : ∀ p ∈ ps, 2 ≤ p.1) (fpos : Nat) :
    itemsFrom ps (max fpos 2) = itemsFrom ps fpos := by
  unfold itemsFrom
  congr 1
  exact List.filter_congr fun p hp => by have := h p hp; simp only [max_le_iff]; simp [this]

/-- **One call of `scoutfs_readdir`**, from any `f_pos` a run reaches: it hands over
the start of the listing ahead of `f_pos` and stops at its end, at an entry
`filldir` refused or at a failed read, with `f_pos` on that entry. -/
theorem scoutfsReaddir_spec (filldir : Filled → Bool) (hd : DirInv F crc32c d) (hF : F.direntLastPos < 2 ^ 32 - 1)
    {fpos : Nat}
    (hp : fpos ≤ F.direntLastPos + 1) :
    Resumes d dirIno parentIno filldir fpos (scoutfsReaddir F d dirIno parentIno walkOk filldir fpos) ∧
      (scoutfsReaddir F d dirIno parentIno walkOk filldir fpos).1 ≤ F.direntLastPos + 1 := by
  have hoff := hd.offset_mem
  unfold scoutfsReaddir
  generalize hr : dirEmitDots dirIno parentIno filldir fpos = r
  obtain ⟨f₁, go, out₁⟩ := r
  obtain ⟨hdots, hgo, hstop⟩ := dirEmitDots_spec dirIno parentIno hr
  cases go
  · -- `filldir` refused a dot
    obtain ⟨hle, hlt, hhead⟩ := hstop rfl
    have hitems : itemsFrom d.items fpos = itemsFrom d.items f₁ := by
      rw [itemsFrom_eq_map fun p hp => by have := (hoff p hp).1; omega,
        itemsFrom_eq_map fun p hp => by have := (hoff p hp).1; omega]
    have hne : dotsFrom dirIno parentIno f₁ ≠ [] := by
      rcases (show f₁ = 0 ∨ f₁ = 1 by omega) with rfl | rfl <;> simp [dotsFrom]
    simp only [Bool.false_eq_true, not_false_eq_true, if_true]
    refine ⟨⟨by simp only [listing, hdots, hitems, List.append_assoc], fun x hx => .inl (hhead x ?_)⟩, by omega⟩
    rwa [listing, List.head?_append_of_ne_nil _ hne] at hx
  · -- past the dots, the loop over the items from `max f_pos 2`
    obtain rfl := hgo rfl
    have h2 := F.two_le_lastPos
    have hwin : window d.items (max fpos 2) F.direntLastPos = d.items.filter fun p => max fpos 2 ≤ p.1 :=
      window_eq_filter fun p hp => (hoff p hp).2
    simp only [not_true_eq_false, ↓reduceIte, hwin]
    generalize hl : readdirLoop filldir walkOk (d.items.filter fun p => max fpos 2 ≤ p.1) (max fpos 2) = l
    obtain ⟨f₂, ret, out₂⟩ := l
    obtain ⟨hmap, hle, hle', hhead⟩ := readdirLoop_spec walkOk hF (hd.sorted.filter _)
      (fun p hp => ⟨by simpa using (List.mem_filter.1 hp).2, (hoff p (List.mem_filter.1 hp).1).2⟩)
      (by omega) hl
    rw [itemsFrom_filter hle] at hmap hhead
    have hitems : itemsFrom d.items fpos = out₂ ++ itemsFrom d.items f₂ := by
      rw [← itemsFrom_max (fun p hp => (hoff p hp).1), ← hmap]; rfl
    rw [dotsFrom_of_two_le dirIno parentIno (le_max_right fpos 2), List.append_nil] at hdots
    have hdots₂ := dotsFrom_of_two_le dirIno parentIno (show 2 ≤ f₂ by omega)
    refine ⟨⟨?_, fun x hx => hhead x ?_⟩, hle'⟩
    · simp only [listing, hdots, hdots₂, hitems, List.nil_append, List.append_assoc]
    · simpa [listing, hdots₂] using hx

/-- **A run of `scoutfs_readdir` calls**: the entries handed over so far and the
listing ahead of `f_pos` make up the listing from 0. -/
theorem readdirCalls_listing (hd : DirInv F crc32c d) (hF : F.direntLastPos < 2 ^ 32 - 1) :
    ∀ (fds : List (Filled → Bool)) {fpos : Nat}, fpos ≤ F.direntLastPos + 1 →
      listing d dirIno parentIno fpos = (readdirCalls F d dirIno parentIno walkOk fds fpos).2 ++
        listing d dirIno parentIno (readdirCalls F d dirIno parentIno walkOk fds fpos).1 ∧
      (readdirCalls F d dirIno parentIno walkOk fds fpos).1 ≤ F.direntLastPos + 1
  | [], _, hp => ⟨by simp [readdirCalls], hp⟩
  | filldir :: fds, fpos, hp => by
    obtain ⟨⟨h₁, -⟩, hle⟩ := scoutfsReaddir_spec dirIno parentIno walkOk filldir hd hF hp
    obtain ⟨h₂, hle₂⟩ := readdirCalls_listing hd hF fds hle
    exact ⟨by rw [readdirCalls, h₁, h₂, List.append_assoc], hle₂⟩

theorem listing_zero (d : Inode) : listing d dirIno parentIno 0 = dot dirIno :: dotdot parentIno :: d.items.map direntFilled := by
  simp [listing, dotsFrom, itemsFrom_eq_map]

end Listing

/-! ## A directory of two entries -/

/-- A directory of salt 2 whose two one-letter names collide under `demoCrc`: `b` at
offset 3 and `c` at 4. -/
def demoDir : Inode :=
  { kind := .dir, size := 2, nlink := 2, salt := 2, items := [(3, ⟨3, .reg, [98]⟩), (4, ⟨4, .reg, [99]⟩)] }

theorem demoDir_inv : DirInv demoFormat demoCrc demoDir :=
  ⟨by unfold Sorted; decide, by decide, by decide, by decide, by decide, rfl, by decide⟩

/-- Three calls: the first refuses `..`, the second the item at offset 4, the third
takes everything. -/
def demoCalls : List (Filled → Bool) := [fun e => e.name = [46, 46], fun e => e.pos = 4, fun _ => false]

example : readdirCalls demoFormat demoDir 2 1 (fun _ => true) demoCalls 0 =
    (5, [dot 2, dotdot 1, ⟨[98], 3, 3, .reg⟩, ⟨[99], 4, 4, .reg⟩]) := by decide

end Scoutfs.Dir
