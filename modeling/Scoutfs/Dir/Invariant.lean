import Mathlib.Algebra.BigOperators.Group.List
import Mathlib.Algebra.Order.Ring.Nat
import Scoutfs.Dir.Model

/-!
# What a directory keeps

Over every run of `scoutfs_mknod` and `scoutfs_unlink` from a freshly made file
system, with any call failing, every directory keeps `DirInv`: its dirent items
have distinct offsets in order, each within its name's probe window, distinct
names, `i_size` the sum of the name lengths, and `nlink` either two plus its
subdirectories or zero with no entries. `Inv` adds what holds across inodes: the
allocator hands out numbers above every inode, and every entry names an inode of
its own type. `Links` says which of the two a directory's `nlink` is: no inode has
two entries and none names the root, so a directory has links exactly when it is
the root or an entry names it. `dir_entries_consistent` derives from these the
offsets' bounds, the link counts of live and of removed directories, what
`scoutfs_lookup` finds and when `rmdir` answers `-ENOTEMPTY`.

The three list operations of the model each get one lemma that says what they
do to the items (`insertItem_perm`, `btreeDelete_perm`, `probe_spec`), and the
allocator one (`allocIno_spec`); the preservation proofs cite only those, and
`Links` rests on what each operation does to the entries (`entry_mknod`,
`entry_unlink`).
-/

namespace Scoutfs.Dir

open Function (update)

variable {F : Format} {crc32c : Nat → List UInt8 → Nat}

/-! ## The items as a list -/

section Items

/-- Offsets strictly increase along the list. -/
def Sorted (ps : List (Nat × Dirent)) : Prop := ps.Pairwise fun p q => p.1 < q.1

theorem insertItem_perm (k : Nat) (d : Dirent) :
    ∀ ps : List (Nat × Dirent), (insertItem k d ps).Perm ((k, d) :: ps)
  | [] => .refl _
  | p :: ps => by
    unfold insertItem
    split
    · exact .refl _
    · exact ((insertItem_perm k d ps).cons p).trans (.swap _ _ _)

theorem insertItem_sorted {k : Nat} {d : Dirent} :
    ∀ {ps : List (Nat × Dirent)}, Sorted ps → (∀ p ∈ ps, p.1 ≠ k) → Sorted (insertItem k d ps)
  | [], _, _ => List.pairwise_singleton _ _
  | p :: ps, hs, hk => by
    have hps := List.pairwise_cons.mp hs
    unfold insertItem
    split
    · refine List.Pairwise.cons (fun q hq => ?_) hs
      rcases List.mem_cons.mp hq with rfl | hq
      · assumption
      · exact lt_trans ‹_› (hps.1 q hq)
    · have hpk : p.1 < k := by have := hk p (List.mem_cons_self _ _); omega
      refine List.Pairwise.cons (fun q hq => ?_)
        (insertItem_sorted hps.2 fun q hq => hk q (List.mem_cons_of_mem _ hq))
      rcases List.mem_cons.mp ((insertItem_perm k d ps).mem_iff.mp hq) with rfl | hq
      · exact hpk
      · exact hps.1 q hq

/-- Deleting the offset of an item of a sorted list takes out that item alone. -/
theorem btreeDelete_perm {k : Nat} {e : Dirent} :
    ∀ {ps : List (Nat × Dirent)}, Sorted ps → (k, e) ∈ ps → ps.Perm ((k, e) :: btreeDelete k ps)
  | p :: ps, hs, hm => by
    have hps := List.pairwise_cons.mp hs
    rcases List.mem_cons.mp hm with rfl | hm
    · have hrest : btreeDelete k ps = ps := List.filter_eq_self.mpr fun q hq => by
        have := hps.1 q hq
        simp only [ne_eq, decide_eq_true_eq]
        omega
      have hdel : btreeDelete k ((k, e) :: ps) = btreeDelete k ps := by simp [btreeDelete]
      rw [hdel, hrest]
    · have hpk : p.1 ≠ k := ne_of_lt (hps.1 _ hm)
      have hdel : btreeDelete k (p :: ps) = p :: btreeDelete k ps := by
        simp [btreeDelete, List.filter_cons, hpk]
      rw [hdel]
      exact ((btreeDelete_perm hps.2 hm).cons p).trans (.swap _ _ _)

theorem btreeDelete_sublist (k : Nat) (ps : List (Nat × Dirent)) : (btreeDelete k ps).Sublist ps :=
  List.filter_sublist _

/-- The probe loop ends at or after its start, and past every item it walked. -/
theorem foldl_probe : ∀ (W : List (Nat × Dirent)) (acc : Nat), Sorted W →
    (∀ q ∈ W, acc ≤ q.1 + 1) →
    acc ≤ W.foldl (fun _ p => p.1 + 1) acc ∧ ∀ q ∈ W, q.1 < W.foldl (fun _ p => p.1 + 1) acc
  | [], _, _, _ => ⟨le_rfl, by simp⟩
  | p :: W, acc, hs, hacc => by
    have hW := List.pairwise_cons.mp hs
    obtain ⟨h1, h2⟩ := foldl_probe W (p.1 + 1) hW.2 fun q hq => by have := hW.1 q hq; omega
    have hp := hacc p (List.mem_cons_self _ _)
    refine ⟨by simp only [List.foldl_cons]; omega, fun q hq => ?_⟩
    simp only [List.foldl_cons]
    rcases List.mem_cons.mp hq with rfl | hq
    · omega
    · exact h2 q hq

theorem window_sublist (ps : List (Nat × Dirent)) (first last : Nat) :
    (window ps first last).Sublist ps :=
  List.filter_sublist _

theorem probe_spec {ps : List (Nat × Dirent)} (hs : Sorted ps) (h last : Nat) :
    h ≤ probe ps h last ∧ ∀ p ∈ ps, h ≤ p.1 → p.1 ≤ last → p.1 < probe ps h last := by
  have hw : ∀ q ∈ window ps h last, h ≤ q.1 ∧ q.1 ≤ last := fun q hq => by
    simpa [window] using (List.mem_filter.mp hq).2
  obtain ⟨h1, h2⟩ := foldl_probe (window ps h last) h (hs.sublist (window_sublist ps h last))
    fun q hq => by have := (hw q hq).1; omega
  exact ⟨h1, fun p hp hlo hhi => h2 p (List.mem_filter.mpr ⟨hp, by simp [hlo, hhi]⟩)⟩

/-- Two items of a list with distinct names that share a name are one item. -/
theorem eq_of_name_eq {ps : List (Nat × Dirent)} (hn : ps.Pairwise fun p q => p.2.name ≠ q.2.name)
    {a b : Nat × Dirent} (ha : a ∈ ps) (hb : b ∈ ps) (he : a.2.name = b.2.name) : a = b := by
  induction ps with
  | nil => cases ha
  | cons p ps ih =>
    have hp := List.pairwise_cons.mp hn
    rcases List.mem_cons.mp ha with rfl | ha' <;> rcases List.mem_cons.mp hb with rfl | hb'
    · rfl
    · exact absurd he (hp.1 b hb')
    · exact absurd he.symm (hp.1 a ha')
    · exact ih hp.2 ha' hb'

/-- Two items of an offset-sorted list at one offset are one item. -/
theorem Sorted.eq_of_fst_eq {ps : List (Nat × Dirent)} (hs : Sorted ps) {a b : Nat × Dirent}
    (ha : a ∈ ps) (hb : b ∈ ps) (he : a.1 = b.1) : a = b := by
  induction ps with
  | nil => cases ha
  | cons p ps ih =>
    have hp := List.pairwise_cons.mp hs
    rcases List.mem_cons.mp ha with rfl | ha' <;> rcases List.mem_cons.mp hb with rfl | hb'
    · rfl
    · exact absurd (hp.1 b hb') (by omega)
    · exact absurd (hp.1 a ha') (by omega)
    · exact ih hp.2 ha' hb'

theorem entryOf_some {d : Inode} {name : List UInt8} {p : Nat × Dirent} (h : entryOf d name = some p) :
    p ∈ d.items ∧ p.2.name = name :=
  ⟨List.mem_of_find?_eq_some h, by simpa using List.find?_some h⟩

theorem entryOf_none {d : Inode} {name : List UInt8} (h : entryOf d name = none) :
    ∀ p ∈ d.items, p.2.name ≠ name := by
  simpa [entryOf] using h

end Items

/-! ## Inode numbers -/

section Alloc

/-- The first number the allocator hands out next. -/
def freshFrom (a : InoAlloc) : Nat := if a.count = 0 then a.superNext else a.next

/-- The allocator's own invariant: `super.next_ino` is a `u64`, and a batch in hand
ends where the super block's numbers start. -/
structure AllocOk (a : InoAlloc) : Prop where
  superNext_le : a.superNext ≤ U64_MAX
  batch : 0 < a.count → a.next + a.count = a.superNext

/-- Taking a number from a batch in hand hands out `freshFrom` and moves it up by one. -/
theorem AllocOk.take {a : InoAlloc} (ha : AllocOk a) (hc : a.count ≠ 0) :
    AllocOk { a with next := a.next + 1, count := a.count - 1 } ∧ freshFrom a = a.next ∧
      freshFrom { a with next := a.next + 1, count := a.count - 1 } = a.next + 1 := by
  have := ha.batch (Nat.pos_of_ne_zero hc)
  refine ⟨⟨ha.superNext_le, fun _ => by simp only; omega⟩, if_neg hc, ?_⟩
  simp only [freshFrom]
  split <;> omega

/-- `get_next_ino_batch` with no batch in hand: an error that hands nothing out, or a
full batch starting at `super.next_ino`. -/
theorem getNextInoBatch_spec (F : Format) {a : InoAlloc} (ha : AllocOk a) (hc : a.count = 0)
    (lock : Bool) :
    AllocOk (getNextInoBatch F lock a).1 ∧
      ((getNextInoBatch F lock a).2 ≠ 0 ∧ freshFrom (getNextInoBatch F lock a).1 = freshFrom a ∨
       (getNextInoBatch F lock a).2 = 0 ∧ (getNextInoBatch F lock a).1.count ≠ 0 ∧
         (getNextInoBatch F lock a).1.next = freshFrom a) := by
  have hs := ha.superNext_le
  cases lock
  · exact ⟨ha, .inl ⟨by simp [getNextInoBatch, EIO], rfl⟩⟩
  · simp only [getNextInoBatch, if_pos hc, freshFrom, if_true]
    split
    · exact ⟨⟨hs, fun h => absurd hc h.ne'⟩, .inl ⟨by simp [ENOSPC], by simp [hc]⟩⟩
    · have hfit := add_le_of_not_le64AddCpu_lt hs F.inoBatch_le ‹_›
      rw [le64AddCpu_of_le hfit]
      exact ⟨⟨hfit, fun _ => rfl⟩, .inr ⟨rfl, F.inoBatch_pos.ne', rfl⟩⟩

/-- `scoutfs_alloc_ino` hands out `freshFrom` and moves it up by one, or fails and
leaves it where it was. -/
theorem allocIno_spec (F : Format) {a : InoAlloc} (ha : AllocOk a) (lock : Bool) :
    AllocOk (allocIno F lock a).1 ∧
      ((∃ e, (allocIno F lock a).2 = .error e ∧ freshFrom (allocIno F lock a).1 = freshFrom a) ∨
       (allocIno F lock a).2 = .ok (freshFrom a) ∧
         freshFrom (allocIno F lock a).1 = freshFrom a + 1) := by
  obtain ⟨hok, hr⟩ : AllocOk (if a.count = 0 then getNextInoBatch F lock a else (a, 0)).1 ∧
      ((if a.count = 0 then getNextInoBatch F lock a else (a, 0)).2 ≠ 0 ∧
        freshFrom (if a.count = 0 then getNextInoBatch F lock a else (a, 0)).1 = freshFrom a ∨
       (if a.count = 0 then getNextInoBatch F lock a else (a, 0)).2 = 0 ∧
        (if a.count = 0 then getNextInoBatch F lock a else (a, 0)).1.count ≠ 0 ∧
        (if a.count = 0 then getNextInoBatch F lock a else (a, 0)).1.next = freshFrom a) := by
    split
    · exact getNextInoBatch_spec F ha ‹_› lock
    · exact ⟨ha, .inr ⟨rfl, ‹_›, (if_neg ‹_›).symm⟩⟩
  unfold allocIno
  generalize (if a.count = 0 then getNextInoBatch F lock a else (a, 0)) = r at hok hr ⊢
  rcases hr with ⟨hne, hfr⟩ | ⟨h0, hcnt, hnext⟩
  · exact ⟨by simpa [hne] using hok, .inl ⟨r.2, by simp [hne], by simp [hne, hfr]⟩⟩
  · obtain ⟨h1, -, h3⟩ := hok.take hcnt
    simp only [h0, hcnt, ne_eq, not_true_eq_false, not_false_eq_true, if_false, if_true]
    exact ⟨h1, .inr ⟨by rw [hnext], by rw [h3, hnext]⟩⟩

end Alloc

/-! ## One directory -/

section DirInv

variable (F crc32c)

/-- What one inode keeps of its dirent items; an inode other than a directory has none. -/
structure DirInv (d : Inode) : Prop where
  sorted : Sorted d.items
  /-- each item within its name's probe window -/
  placed : ∀ p ∈ d.items, nameHash F crc32c d.salt p.2.name ≤ p.1 ∧
    p.1 ≤ lastDirentKeyOffset F (nameHash F crc32c d.salt p.2.name)
  names : d.items.Pairwise fun p q => p.2.name ≠ q.2.name
  name_ne : ∀ p ∈ d.items, p.2.name ≠ []
  name_len : ∀ p ∈ d.items, p.2.name.length ≤ F.nameLen
  size : d.size = (d.items.map fun p => p.2.name.length).sum
  /-- two links plus one per subdirectory, or none left and no entries once removed -/
  nlink : d.kind = .dir →
    d.nlink = 2 + d.items.countP (fun p => p.2.type = .dir) ∨ d.nlink = 0 ∧ d.items = []

variable {F crc32c} {d : Inode}

theorem dirInv_newInode (kind : Kind) (salt : Nat) : DirInv F crc32c (newInode kind salt) where
  sorted := List.Pairwise.nil
  placed := by simp [newInode]
  names := List.Pairwise.nil
  name_ne := by simp [newInode]
  name_len := by simp [newInode]
  size := rfl
  nlink h := .inl (by simp only [newInode] at h; simp [newInode, h])

/-- A directory is empty exactly when its `i_size` is 0, the test of `scoutfs_unlink`. -/
theorem DirInv.size_eq_zero_iff (hd : DirInv F crc32c d) : d.size = 0 ↔ d.items = [] := by
  rw [hd.size]
  cases h : d.items with
  | nil => simp
  | cons p ps =>
    have := List.length_pos.mpr (hd.name_ne p (h ▸ List.mem_cons_self _ _))
    simp only [List.map_cons, List.sum_cons, reduceCtorEq, iff_false]
    omega

theorem names_symm {p q : Nat × Dirent} (h : p.2.name ≠ q.2.name) : q.2.name ≠ p.2.name :=
  Ne.symm h

/-- The new entry of `scoutfs_mknod` goes at the probe's key, which no item holds. -/
theorem DirInv.addEntry (hd : DirInv F crc32c d) (hlive : d.kind = .dir ∧ d.nlink ≠ 0)
    {key : Nat} {e : Dirent} (hname : ∀ p ∈ d.items, p.2.name ≠ e.name) (hne : e.name ≠ [])
    (hlen : e.name.length ≤ F.nameLen)
    (hkey : key = probe d.items (nameHash F crc32c d.salt e.name)
      (lastDirentKeyOffset F (nameHash F crc32c d.salt e.name)))
    (hlast : key ≤ lastDirentKeyOffset F (nameHash F crc32c d.salt e.name)) :
    DirInv F crc32c (Dir.addEntry d key e) := by
  obtain ⟨hge, hlt⟩ := probe_spec hd.sorted (nameHash F crc32c d.salt e.name)
    (lastDirentKeyOffset F (nameHash F crc32c d.salt e.name))
  rw [← hkey] at hge hlt
  have hfree : ∀ p ∈ d.items, p.1 ≠ key := fun p hp heq =>
    absurd (hlt p hp (heq ▸ hge) (heq ▸ hlast)) (by omega)
  have hperm := insertItem_perm key e d.items
  have hmem : ∀ {p}, p ∈ insertItem key e d.items → p = (key, e) ∨ p ∈ d.items := fun hp =>
    List.mem_cons.mp (hperm.mem_iff.mp hp)
  refine
    { sorted := insertItem_sorted hd.sorted hfree
      placed := fun p hp => ?_
      names := (hperm.pairwise_iff names_symm).mpr
        (List.pairwise_cons.mpr ⟨fun q hq => (hname q hq).symm, hd.names⟩)
      name_ne := fun p hp => (hmem hp).elim (fun h => h ▸ hne) (hd.name_ne p)
      name_len := fun p hp => (hmem hp).elim (fun h => h ▸ hlen) (hd.name_len p)
      size := ?_
      nlink := fun _ => .inl ?_ }
  · rcases hmem hp with rfl | hp
    · exact ⟨hge, hlast⟩
    · exact hd.placed p hp
  · rw [Dir.addEntry, (hperm.map _).sum_eq, hd.size]
    simp only [List.map_cons, List.sum_cons]
    omega
  · have hn := (hd.nlink hlive.1).resolve_right fun h => hlive.2 h.1
    simp only [Dir.addEntry, hperm.countP_eq, List.countP_cons, hn]
    by_cases ht : e.type = .dir <;> simp [ht, Nat.add_assoc]

/-- A directory keeps two links plus one per subdirectory when one of its entries goes. -/
theorem DirInv.removeEntry_nlink (hd : DirInv F crc32c d) (hk : d.kind = .dir) {off : Nat}
    {e : Dirent} (hm : (off, e) ∈ d.items) {isDir : Bool} (hdir : isDir = decide (e.type = .dir)) :
    (Dir.removeEntry d off e isDir).nlink =
      2 + (Dir.removeEntry d off e isDir).items.countP (fun p => p.2.type = .dir) := by
  have hn := (hd.nlink hk).resolve_right fun h => by simp [h.2] at hm
  have hc := (btreeDelete_perm hd.sorted hm).countP_eq (fun p => decide (p.2.type = .dir))
  simp only [List.countP_cons] at hc
  simp only [Dir.removeEntry, hdir, hn, hc]
  split <;> simp_all

/-- Deleting the item of an entry at its remembered offset. -/
theorem DirInv.removeEntry (hd : DirInv F crc32c d) {off : Nat} {e : Dirent} (hm : (off, e) ∈ d.items)
    {isDir : Bool} (hdir : isDir = decide (e.type = .dir)) :
    DirInv F crc32c (Dir.removeEntry d off e isDir) := by
  have hperm := btreeDelete_perm hd.sorted hm
  have hsub := btreeDelete_sublist off d.items
  refine
    { sorted := hd.sorted.sublist hsub
      placed := fun p hp => hd.placed p (hsub.subset hp)
      names := hd.names.sublist hsub
      name_ne := fun p hp => hd.name_ne p (hsub.subset hp)
      name_len := fun p hp => hd.name_len p (hsub.subset hp)
      size := ?_
      nlink := fun hk => .inl (hd.removeEntry_nlink hk hm hdir) }
  rw [Dir.removeEntry, hd.size, (hperm.map _).sum_eq]
  simp

/-- The unlinked inode: a directory is empty by then, so it ends with no links. -/
theorem DirInv.dropLinks (hd : DirInv F crc32c d) (hempty : d.kind = .dir → d.size = 0) :
    DirInv F crc32c (Dir.dropLinks d) where
  sorted := hd.sorted
  placed := hd.placed
  names := hd.names
  name_ne := hd.name_ne
  name_len := hd.name_len
  size := hd.size
  nlink hk := by
    have hk : d.kind = .dir := hk
    have hnil := hd.size_eq_zero_iff.mp (hempty hk)
    have hn := hd.nlink hk
    simp only [hnil, List.countP_nil] at hn
    exact .inr ⟨by simp only [Dir.dropLinks, hk, if_true]; omega, hnil⟩

end DirInv

/-! ## What each operation does -/

section Ops

variable {s : Fs}

theorem step_mknod {s' : Fs} {dir : Nat} {name : List UInt8} {kind : Kind} {salt : Nat}
    {fail : Option MknodStep} (h : step F crc32c s (.mknod dir name kind salt fail) = some s') :
    ∃ d, s.inodes dir = some d ∧ (d.kind = .dir ∧ d.nlink ≠ 0) ∧ name ≠ [] ∧ entryOf d name = none ∧
      s' = (scoutfsMknod F crc32c s dir name kind salt fail).1 := by
  simp only [step] at h
  split at h
  · split at h
    · rename_i d hd hg
      exact ⟨d, hd, ⟨hg.1, hg.2.1⟩, hg.2.2.1, hg.2.2.2, (Option.some.inj h).symm⟩
    · cases h
  · cases h

theorem step_unlink {s' : Fs} {dir : Nat} {name : List UInt8} {fail : Option UnlinkStep}
    (h : step F crc32c s (.unlink dir name fail) = some s') :
    ∃ d off e, s.inodes dir = some d ∧ entryOf d name = some (off, e) ∧
      s' = (scoutfsUnlink s dir off e fail).1 := by
  simp only [step] at h
  split at h
  · split at h
    · exact ⟨_, _, _, ‹_›, ‹_›, (Option.some.inj h).symm⟩
    · cases h
  · cases h

/-- `scoutfs_mknod` either changes only the allocator, never handing a number back, or
links a fresh inode at the probe's key. -/
theorem scoutfsMknod_spec (ha : AllocOk s.alloc) (dir : Nat) (name : List UInt8) (kind : Kind)
    (salt : Nat) (fail : Option MknodStep) :
    (∃ a, AllocOk a ∧ freshFrom s.alloc ≤ freshFrom a ∧
      (scoutfsMknod F crc32c s dir name kind salt fail).1 = { s with alloc := a }) ∨
    ∃ a d, AllocOk a ∧ freshFrom a = freshFrom s.alloc + 1 ∧ s.inodes dir = some d ∧
      name.length ≤ F.nameLen ∧
      ∃ key, key = probe d.items (nameHash F crc32c d.salt name)
          (lastDirentKeyOffset F (nameHash F crc32c d.salt name)) ∧
        key ≤ lastDirentKeyOffset F (nameHash F crc32c d.salt name) ∧
        (scoutfsMknod F crc32c s dir name kind salt fail).1 =
          { inodes := update (update s.inodes dir
              (some (addEntry d key { ino := freshFrom s.alloc, type := kind, name := name })))
              (freshFrom s.alloc) (some (newInode kind salt)),
            alloc := a } := by
  unfold scoutfsMknod
  by_cases h1 : fail = some .dentryInfo
  · rw [if_pos h1]; exact .inl ⟨s.alloc, ha, le_rfl, rfl⟩
  rw [if_neg h1]
  by_cases h2 : name.length > F.nameLen
  · rw [if_pos h2]; exact .inl ⟨s.alloc, ha, le_rfl, rfl⟩
  rw [if_neg h2]
  obtain ⟨hok, hr⟩ := allocIno_spec F ha (decide (fail ≠ some .allocIno))
  rcases hr with ⟨e, he, hfr⟩ | ⟨he, hfr⟩
  · rw [show allocIno F (decide (fail ≠ some .allocIno)) s.alloc = ((allocIno F (decide (fail ≠ some .allocIno)) s.alloc).1, .error e) from Prod.ext rfl he]
    exact .inl ⟨_, hok, hfr.ge, rfl⟩
  · rw [show allocIno F (decide (fail ≠ some .allocIno)) s.alloc = ((allocIno F (decide (fail ≠ some .allocIno)) s.alloc).1, .ok (freshFrom s.alloc)) from Prod.ext rfl he]
    generalize (allocIno F (decide (fail ≠ some .allocIno)) s.alloc).1 = a at hok hfr ⊢
    have hkeep : freshFrom s.alloc ≤ freshFrom a := by omega
    dsimp only
    by_cases h3 : fail = some .wrlock ∨ fail = some .dirtyDir
    · rw [if_pos h3]; exact .inl ⟨a, hok, hkeep, rfl⟩
    rw [if_neg h3]
    by_cases h4 : fail = some .newInode
    · rw [if_pos h4]; exact .inl ⟨a, hok, hkeep, rfl⟩
    rw [if_neg h4]
    cases hd : s.inodes dir with
    | none => exact .inl ⟨a, hok, hkeep, rfl⟩
    | some d =>
      dsimp only
      by_cases h5 : fail = some .btreeNext
      · rw [if_pos h5]; exact .inl ⟨a, hok, hkeep, rfl⟩
      rw [if_neg h5]
      by_cases h6 : probe d.items (nameHash F crc32c d.salt name)
          (lastDirentKeyOffset F (nameHash F crc32c d.salt name)) >
          lastDirentKeyOffset F (nameHash F crc32c d.salt name)
      · rw [if_pos h6]; exact .inl ⟨a, hok, hkeep, rfl⟩
      rw [if_neg h6]
      by_cases h7 : fail = some .btreeInsert
      · rw [if_pos h7]; exact .inl ⟨a, hok, hkeep, rfl⟩
      rw [if_neg h7]
      split
      · exact .inl ⟨a, hok, hkeep, rfl⟩
      · exact .inr ⟨a, d, hok, hfr, rfl, by omega, _, rfl, by omega, rfl⟩

/-- `scoutfs_unlink` either changes nothing or unlinks: an empty directory or another inode. -/
theorem scoutfsUnlink_spec (dir off : Nat) (e : Dirent) (fail : Option UnlinkStep) :
    (scoutfsUnlink s dir off e fail).1 = s ∨
    ∃ d t, s.inodes dir = some d ∧ s.inodes e.ino = some t ∧ (t.kind = .dir → t.size = 0) ∧
      (scoutfsUnlink s dir off e fail).1 =
        { s with inodes := update (update s.inodes dir (some (removeEntry d off e (t.kind = .dir))))
                             e.ino (some (dropLinks t)) } := by
  unfold scoutfsUnlink
  split
  · split_ifs with h1 h2
    · exact .inl rfl
    · exact .inl rfl
    · exact .inr ⟨_, _, ‹_›, ‹_›, fun hk => by simpa [hk] using h1, rfl⟩
  · exact .inl rfl

end Ops

/-! ## The file system -/

section Inv

/-- Every entry names another inode of the table, of the entry's type. -/
def Targets (s : Fs) : Prop :=
  ∀ i d, s.inodes i = some d → ∀ p ∈ d.items,
    p.2.ino ≠ i ∧ ∃ t, s.inodes p.2.ino = some t ∧ t.kind = p.2.type

variable (F crc32c) in
/-- What every reachable state keeps: the allocator's invariant, numbers handed out
next above every inode and never 0, every inode's `DirInv` and every entry resolved. -/
structure Inv (s : Fs) : Prop where
  alloc : AllocOk s.alloc
  fresh : ∀ i d, s.inodes i = some d → i < freshFrom s.alloc
  zero : s.inodes 0 = none
  dirs : ∀ i d, s.inodes i = some d → DirInv F crc32c d
  targets : Targets s

variable {s : Fs}

theorem update_update_eq_some {f : Nat → Option Inode} {a b i : Nat} {x y d : Inode}
    (h : update (update f a (some x)) b (some y) i = some d) :
    i = b ∧ d = y ∨ i ≠ b ∧ i = a ∧ d = x ∨ i ≠ b ∧ i ≠ a ∧ f i = some d := by
  simp only [Function.update_apply] at h
  split_ifs at h with h1 h2 <;> simp_all

/-- `Targets` carries over when every inode keeps its kind and every entry is an old
entry of the same inode or resolves already. -/
theorem Targets.frame {s' : Fs} (ht : Targets s)
    (hkind : ∀ j u, s.inodes j = some u → (s'.inodes j).map Inode.kind = some u.kind)
    (hitems : ∀ i d', s'.inodes i = some d' → ∀ p ∈ d'.items, (∃ d, s.inodes i = some d ∧ p ∈ d.items) ∨
      p.2.ino ≠ i ∧ ∃ t, s'.inodes p.2.ino = some t ∧ t.kind = p.2.type) :
    Targets s' := by
  intro i d' h p hp
  rcases hitems i d' h p hp with ⟨d, hd, hp⟩ | hnew
  · obtain ⟨hne, u, hu, hk⟩ := ht i d hd p hp
    obtain ⟨u', hu', hk'⟩ := Option.map_eq_some'.mp (hkind _ _ hu)
    exact ⟨hne, u', hu', hk'.trans hk⟩
  · exact hnew

/-- A call that fails after `scoutfs_alloc_ino` only moves the allocator on. -/
theorem Inv.with_alloc (hi : Inv F crc32c s) {a : InoAlloc} (ha : AllocOk a)
    (hf : freshFrom s.alloc ≤ freshFrom a) : Inv F crc32c { s with alloc := a } where
  alloc := ha
  fresh i d h := lt_of_lt_of_le (hi.fresh i d h) hf
  zero := hi.zero
  dirs := hi.dirs
  targets := hi.targets

/-- A successful `scoutfs_mknod`. -/
theorem Inv.mknod (hi : Inv F crc32c s) {dir : Nat} {d : Inode} (hd : s.inodes dir = some d)
    (hlive : d.kind = .dir ∧ d.nlink ≠ 0) {name : List UInt8} (hname : entryOf d name = none)
    (hne : name ≠ []) (hlen : name.length ≤ F.nameLen) {key : Nat}
    (hkey : key = probe d.items (nameHash F crc32c d.salt name)
      (lastDirentKeyOffset F (nameHash F crc32c d.salt name)))
    (hlast : key ≤ lastDirentKeyOffset F (nameHash F crc32c d.salt name))
    {a : InoAlloc} (ha : AllocOk a) (hfr : freshFrom a = freshFrom s.alloc + 1) (kind : Kind)
    (salt : Nat) :
    Inv F crc32c
      { inodes := update (update s.inodes dir
          (some (addEntry d key { ino := freshFrom s.alloc, type := kind, name := name })))
          (freshFrom s.alloc) (some (newInode kind salt)),
        alloc := a } := by
  have hdir : dir < freshFrom s.alloc := hi.fresh dir d hd
  have hnew : ∀ u, s.inodes (freshFrom s.alloc) ≠ some u := fun u h =>
    lt_irrefl _ (hi.fresh _ u h)
  have h0 : dir ≠ 0 := fun h => by simp [h, hi.zero] at hd
  have hf0 : 0 ≠ freshFrom s.alloc := by omega
  refine
    { alloc := ha
      fresh := fun i t h => ?_
      zero := by simp [Function.update_apply, hi.zero, hf0, h0.symm]
      dirs := fun i t h => ?_
      targets := hi.targets.frame (fun j u hu => ?_) fun i t h p hp => ?_ }
  · show i < freshFrom a
    rcases update_update_eq_some h with ⟨rfl, -⟩ | ⟨-, rfl, -⟩ | ⟨-, -, h⟩
    · omega
    · omega
    · have := hi.fresh i t h; omega
  · rcases update_update_eq_some h with ⟨-, rfl⟩ | ⟨-, -, rfl⟩ | ⟨-, -, h⟩
    · exact dirInv_newInode kind salt
    · exact (hi.dirs dir d hd).addEntry hlive (entryOf_none hname) hne hlen hkey hlast
    · exact hi.dirs i t h
  · have hj : j ≠ freshFrom s.alloc := fun h => hnew u (h ▸ hu)
    by_cases hjd : j = dir
    · subst hjd
      obtain rfl : d = u := Option.some.inj (hd.symm.trans hu)
      simp [Function.update_apply, hj, addEntry]
    · simp [Function.update_apply, hj, hjd, hu]
  · rcases update_update_eq_some h with ⟨-, rfl⟩ | ⟨hib, rfl, rfl⟩ | ⟨-, hia, h⟩
    · simp [newInode] at hp
    · rcases List.mem_cons.mp ((insertItem_perm _ _ _).mem_iff.mp hp) with rfl | hp
      · exact .inr ⟨by simp only; omega, newInode kind salt, by simp, rfl⟩
      · exact .inl ⟨d, hd, hp⟩
    · exact .inl ⟨t, h, hp⟩

/-- A successful `scoutfs_unlink` of the entry `e` at `off`. -/
theorem Inv.unlink (hi : Inv F crc32c s) {dir off : Nat} {d t : Inode} {e : Dirent}
    (hd : s.inodes dir = some d) (hm : (off, e) ∈ d.items) (ht : s.inodes e.ino = some t)
    (hempty : t.kind = .dir → t.size = 0) :
    Inv F crc32c { s with inodes := update (update s.inodes dir
      (some (removeEntry d off e (t.kind = .dir)))) e.ino (some (dropLinks t)) } := by
  obtain ⟨hne, t', ht', hk⟩ := hi.targets dir d hd _ hm
  obtain rfl := Option.some.inj (ht.symm.trans ht')
  have h0 : ∀ {i u}, s.inodes i = some u → i ≠ 0 := fun h h0 => by simp [h0, hi.zero] at h
  refine
    { alloc := hi.alloc
      fresh := fun i u h => ?_
      zero := by simp [Function.update_apply, hi.zero, (h0 hd).symm, (h0 ht).symm]
      dirs := fun i u h => ?_
      targets := hi.targets.frame (fun j u hu => ?_) fun i u h p hp => ?_ }
  · rcases update_update_eq_some h with ⟨rfl, -⟩ | ⟨-, rfl, -⟩ | ⟨-, -, h⟩
    · exact hi.fresh _ _ ht
    · exact hi.fresh _ _ hd
    · exact hi.fresh _ _ h
  · rcases update_update_eq_some h with ⟨-, rfl⟩ | ⟨-, -, rfl⟩ | ⟨-, -, h⟩
    · exact (hi.dirs _ _ ht).dropLinks hempty
    · exact (hi.dirs _ _ hd).removeEntry hm (by rw [hk])
    · exact hi.dirs i u h
  · by_cases hje : j = e.ino
    · subst hje
      obtain rfl : t = u := Option.some.inj (ht.symm.trans hu)
      simp [dropLinks]
    by_cases hjd : j = dir
    · subst hjd
      obtain rfl : d = u := Option.some.inj (hd.symm.trans hu)
      simp [Function.update_apply, hje, removeEntry]
    · simp [Function.update_apply, hje, hjd, hu]
  · refine .inl ?_
    rcases update_update_eq_some h with ⟨rfl, rfl⟩ | ⟨-, rfl, rfl⟩ | ⟨-, -, h⟩
    · exact ⟨t, ht, hp⟩
    · exact ⟨d, hd, btreeDelete_sublist _ _ |>.subset hp⟩
    · exact ⟨u, h, hp⟩

theorem Inv.step (hi : Inv F crc32c s) {op : Op} {s' : Fs} (h : step F crc32c s op = some s') :
    Inv F crc32c s' := by
  cases op with
  | mknod dir name kind salt fail =>
    obtain ⟨d, hd, hlive, hne, hname, rfl⟩ := step_mknod h
    rcases scoutfsMknod_spec hi.alloc dir name kind salt fail with
      ⟨a, ha, hf, he⟩ | ⟨a, d', ha, hf, hd', hlen, key, hkey, hlast, he⟩
    · exact he ▸ hi.with_alloc ha hf
    · obtain rfl := Option.some.inj (hd.symm.trans hd')
      exact he ▸ hi.mknod hd hlive hname hne hlen hkey hlast ha hf kind salt
  | unlink dir name fail =>
    obtain ⟨d, off, e, hd, he, rfl⟩ := step_unlink h
    rcases scoutfsUnlink_spec dir off e fail with h' | ⟨d', t, hd', ht, hempty, h'⟩
    · exact h' ▸ hi
    · obtain rfl := Option.some.inj (hd.symm.trans hd')
      exact h' ▸ hi.unlink hd (entryOf_some he).1 ht hempty

theorem Inv.reachable {s₀ : Fs} (h₀ : Inv F crc32c s₀) (hr : Reachable F crc32c s₀ s) :
    Inv F crc32c s := by
  induction hr with
  | init => exact h₀
  | step _ _ hs ih => exact ih.step hs

/-- A freshly made file system: the empty root directory, and `super.next_ino` past it
with no batch in hand. -/
def mkfs (root salt superNext : Nat) : Fs where
  inodes := update (fun _ => none) root (some (newInode .dir salt))
  alloc := { next := 0, count := 0, superNext := superNext }

theorem inv_mkfs {root salt superNext : Nat} (hroot : 0 < root) (hlt : root < superNext)
    (hmax : superNext ≤ U64_MAX) : Inv F crc32c (mkfs root salt superNext) := by
  have hget : ∀ {i d}, (mkfs root salt superNext).inodes i = some d → i = root ∧ d = newInode .dir salt :=
    fun h => by
      simp only [mkfs, Function.update_apply] at h
      split_ifs at h with hi
      exact ⟨hi, (Option.some.inj h).symm⟩
  refine
    { alloc := ⟨hmax, fun h => absurd h (lt_irrefl 0)⟩
      fresh := fun i d h => (hget h).1 ▸ hlt
      zero := by simp [mkfs, Function.update_apply]; omega
      dirs := fun i d h => (hget h).2 ▸ dirInv_newInode .dir salt
      targets := fun i d h p hp => ?_ }
  rw [(hget h).2] at hp
  simp [newInode] at hp

end Inv

/-! ## Links -/

section Links

/-- Directory `j` holds the dirent item `p`. -/
def Entry (s : Fs) (j : Nat) (p : Nat × Dirent) : Prop := ∃ d, s.inodes j = some d ∧ p ∈ d.items

/-- Some directory has an entry for inode `i`. -/
def Named (s : Fs) (i : Nat) : Prop := ∃ j p, Entry s j p ∧ p.2.ino = i

/-- How the inodes are linked, over a file system whose root directory is `root`:
no inode has two entries (there is no `link`), none names the root, and a directory
has links left exactly when it is the root or an entry names it. -/
structure Links (root : Nat) (s : Fs) : Prop where
  root_mem : s.inodes root ≠ none
  unique : ∀ {j j' p p'}, Entry s j p → Entry s j' p' → p.2.ino = p'.2.ino → j = j' ∧ p = p'
  root_unnamed : ¬Named s root
  live_iff : ∀ i t, s.inodes i = some t → t.kind = .dir → (t.nlink ≠ 0 ↔ i = root ∨ Named s i)

variable {s : Fs} {root : Nat}

theorem update_update_ne_none {f : Nat → Option Inode} {a b i : Nat} {x y : Inode}
    (h : f i ≠ none) : update (update f a (some x)) b (some y) i ≠ none := by
  simp only [Function.update_apply]
  split_ifs <;> simp [h]

theorem Links.with_alloc (hl : Links root s) (a : InoAlloc) : Links root { s with alloc := a } :=
  ⟨hl.root_mem, hl.unique, hl.root_unnamed, hl.live_iff⟩

/-- No entry names an inode number not handed out yet. -/
theorem Inv.entry_ne_fresh (hi : Inv F crc32c s) {j : Nat} {p : Nat × Dirent} (hp : Entry s j p) :
    p.2.ino ≠ freshFrom s.alloc := fun h => by
  obtain ⟨u, hu, hp⟩ := hp
  obtain ⟨-, t, ht, -⟩ := hi.targets _ _ hu p hp
  exact lt_irrefl _ (h ▸ hi.fresh _ t ht)

section Mknod

variable {dir key : Nat} {d : Inode} {e : Dirent} {kind : Kind} {salt : Nat} {s' : Fs}

/-- The entries after a successful `scoutfs_mknod`: the old ones and the new one. -/
theorem entry_mknod (hi : Inv F crc32c s) (hd : s.inodes dir = some d)
    (he : e.ino = freshFrom s.alloc)
    (hs' : s'.inodes = update (update s.inodes dir (some (addEntry d key e))) e.ino
      (some (newInode kind salt))) {j : Nat} {p : Nat × Dirent} :
    Entry s' j p ↔ Entry s j p ∨ j = dir ∧ p = (key, e) := by
  have hnew : ∀ u, s.inodes e.ino ≠ some u := fun u h => lt_irrefl _ (he ▸ hi.fresh _ u h)
  have hdn : dir ≠ e.ino := fun h => hnew d (h ▸ hd)
  have hmem := fun {q} => (insertItem_perm key e d.items).mem_iff (a := q)
  constructor
  · rintro ⟨u, hu, hp⟩
    rw [hs'] at hu
    rcases update_update_eq_some hu with ⟨-, rfl⟩ | ⟨-, rfl, rfl⟩ | ⟨-, -, hu⟩
    · simp [newInode] at hp
    · rcases List.mem_cons.mp (hmem.mp hp) with rfl | hp
      · exact .inr ⟨rfl, rfl⟩
      · exact .inl ⟨d, hd, hp⟩
    · exact .inl ⟨u, hu, hp⟩
  · rintro (⟨u, hu, hp⟩ | ⟨rfl, rfl⟩)
    · have hj : j ≠ e.ino := fun h => hnew u (h ▸ hu)
      by_cases hjd : j = dir
      · subst hjd
        obtain rfl := Option.some.inj (hd.symm.trans hu)
        exact ⟨addEntry d key e, by simp [hs', hj], hmem.mpr (List.mem_cons_of_mem _ hp)⟩
      · exact ⟨u, by simp [hs', hj, hjd, hu], hp⟩
    · exact ⟨addEntry d key e, by simp [hs', hdn], hmem.mpr (List.mem_cons_self _ _)⟩

/-- A successful `scoutfs_mknod` links the new inode, and a new directory starts with
its two links. -/
theorem Links.mknod (hl : Links root s) (hi : Inv F crc32c s) (hd : s.inodes dir = some d)
    (hlive : d.kind = .dir ∧ d.nlink ≠ 0) (he : e.ino = freshFrom s.alloc)
    (hs' : s'.inodes = update (update s.inodes dir (some (addEntry d key e))) e.ino
      (some (newInode kind salt))) : Links root s' := by
  have hentry := fun {j p} => entry_mknod (j := j) (p := p) hi hd he hs'
  have hnew : ∀ u, s.inodes e.ino ≠ some u := fun u h => lt_irrefl _ (he ▸ hi.fresh _ u h)
  have hnamed : ∀ i, Named s' i ↔ Named s i ∨ i = e.ino := fun i => by
    constructor
    · rintro ⟨j, p, hp, rfl⟩
      rcases hentry.mp hp with hp | ⟨-, rfl⟩
      · exact .inl ⟨j, p, hp, rfl⟩
      · exact .inr rfl
    · rintro (⟨j, p, hp, rfl⟩ | rfl)
      · exact ⟨j, p, hentry.mpr (.inl hp), rfl⟩
      · exact ⟨dir, _, hentry.mpr (.inr ⟨rfl, rfl⟩), rfl⟩
  refine ⟨by rw [hs']; exact update_update_ne_none hl.root_mem, fun hp hp' hpe => ?_,
    fun hr => ?_, fun i t ht hk => ?_⟩
  · rcases hentry.mp hp with hp | ⟨rfl, rfl⟩ <;> rcases hentry.mp hp' with hp' | ⟨rfl, rfl⟩
    · exact hl.unique hp hp' hpe
    · exact absurd (hpe.trans he) (hi.entry_ne_fresh hp)
    · exact absurd (hpe.symm.trans he) (hi.entry_ne_fresh hp')
    · exact ⟨rfl, rfl⟩
  · rcases (hnamed root).mp hr with hr | rfl
    · exact hl.root_unnamed hr
    · exact hl.root_mem (Option.eq_none_iff_forall_not_mem.mpr hnew)
  · rw [hs'] at ht
    rcases update_update_eq_some ht with ⟨rfl, rfl⟩ | ⟨-, rfl, rfl⟩ | ⟨hin, -, ht⟩
    · have hk : kind = .dir := hk
      exact iff_of_true (by simp [newInode, hk]) (.inr ((hnamed _).mpr (.inr rfl)))
    · refine iff_of_true (by simp only [addEntry]; split <;> omega) ?_
      rcases (hl.live_iff _ d hd hlive.1).mp hlive.2 with h | h
      · exact .inl h
      · exact .inr ((hnamed _).mpr (.inl h))
    · rw [hl.live_iff i t ht hk, hnamed i, or_iff_left hin]

end Mknod

section Unlink

variable {dir off : Nat} {d t : Inode} {e : Dirent} {s' : Fs}

/-- The entries after a successful `scoutfs_unlink` of `e`: all but the one naming `e.ino`. -/
theorem entry_unlink (hl : Links root s) (hi : Inv F crc32c s) (hd : s.inodes dir = some d)
    (hm : (off, e) ∈ d.items) (ht : s.inodes e.ino = some t)
    (hs' : s'.inodes = update (update s.inodes dir (some (removeEntry d off e (t.kind = .dir))))
      e.ino (some (dropLinks t))) {j : Nat} {p : Nat × Dirent} :
    Entry s' j p ↔ Entry s j p ∧ p.2.ino ≠ e.ino := by
  have hold : ∀ {j p}, Entry s j p → p.2.ino = e.ino → j = dir ∧ p = (off, e) :=
    fun hp hpe => hl.unique hp ⟨d, hd, hm⟩ hpe
  have hdel : ∀ {q}, q ∈ btreeDelete off d.items ↔ q ∈ d.items ∧ q.1 ≠ off := by
    simp [btreeDelete]
  constructor
  · rintro ⟨u, hu, hp⟩
    rw [hs'] at hu
    rcases update_update_eq_some hu with ⟨rfl, rfl⟩ | ⟨-, rfl, rfl⟩ | ⟨-, hjd, hu⟩
    · exact ⟨⟨t, ht, hp⟩, (hi.targets _ _ ht p hp).1⟩
    · obtain ⟨hp, hoff⟩ := hdel.mp hp
      exact ⟨⟨d, hd, hp⟩, fun hpe => hoff (by rw [(hold ⟨d, hd, hp⟩ hpe).2])⟩
    · exact ⟨⟨u, hu, hp⟩, fun hpe => hjd (hold ⟨u, hu, hp⟩ hpe).1⟩
  · rintro ⟨⟨u, hu, hp⟩, hpe⟩
    by_cases hje : j = e.ino
    · subst hje
      obtain rfl := Option.some.inj (ht.symm.trans hu)
      exact ⟨dropLinks t, by simp [hs'], hp⟩
    by_cases hjd : j = dir
    · subst hjd
      obtain rfl := Option.some.inj (hd.symm.trans hu)
      refine ⟨removeEntry d off e (t.kind = .dir), by simp [hs', hje], hdel.mpr ⟨hp, fun hoff => hpe ?_⟩⟩
      rw [(hi.dirs _ _ hd).sorted.eq_of_fst_eq hp hm hoff]
    · exact ⟨u, by simp [hs', hje, hjd, hu], hp⟩

/-- A successful `scoutfs_unlink` leaves the unlinked inode unnamed, and a removed
directory with no links. -/
theorem Links.unlink (hl : Links root s) (hi : Inv F crc32c s) (hd : s.inodes dir = some d)
    (hm : (off, e) ∈ d.items) (ht : s.inodes e.ino = some t) (hempty : t.kind = .dir → t.size = 0)
    (hs' : s'.inodes = update (update s.inodes dir (some (removeEntry d off e (t.kind = .dir))))
      e.ino (some (dropLinks t))) : Links root s' := by
  have hentry := fun {j p} => entry_unlink (j := j) (p := p) hl hi hd hm ht hs'
  have he : Entry s dir (off, e) := ⟨d, hd, hm⟩
  have hnamed : ∀ i, i ≠ e.ino → (Named s' i ↔ Named s i) := fun i hie =>
    ⟨fun ⟨j, p, hp, hpi⟩ => ⟨j, p, (hentry.mp hp).1, hpi⟩,
     fun ⟨j, p, hp, hpi⟩ => ⟨j, p, hentry.mpr ⟨hp, hpi ▸ hie⟩, hpi⟩⟩
  refine ⟨by rw [hs']; exact update_update_ne_none hl.root_mem,
    fun hp hp' => hl.unique (hentry.mp hp).1 (hentry.mp hp').1,
    fun ⟨j, p, hp, hpr⟩ => hl.root_unnamed ⟨j, p, (hentry.mp hp).1, hpr⟩, fun i u hu hk => ?_⟩
  rw [hs'] at hu
  rcases update_update_eq_some hu with ⟨rfl, rfl⟩ | ⟨hie, rfl, rfl⟩ | ⟨hie, -, hu⟩
  · have hk : t.kind = .dir := hk
    have hnil := (hi.dirs _ _ ht).size_eq_zero_iff.mp (hempty hk)
    have h2 : t.nlink = 2 := by
      have := ((hi.dirs _ _ ht).nlink hk).resolve_right fun h =>
        ((hl.live_iff _ _ ht hk).mpr (.inr ⟨dir, _, he, rfl⟩)) h.1
      simpa [hnil] using this
    refine iff_of_false (by simp [dropLinks, hk, h2]) ?_
    rintro (hr | ⟨j, p, hp, hpe⟩)
    · exact hl.root_unnamed ⟨dir, _, he, hr⟩
    · exact (hentry.mp hp).2 hpe
  · have hk : d.kind = .dir := hk
    obtain ⟨-, t', ht', htk⟩ := hi.targets _ _ hd _ hm
    obtain rfl := Option.some.inj (ht.symm.trans ht')
    have hn := (hi.dirs _ _ hd).removeEntry_nlink hk hm
      (show decide (t.kind = .dir) = decide (e.type = .dir) by rw [htk])
    refine iff_of_true (by rw [hn]; omega) ?_
    have hlive : d.nlink ≠ 0 := fun h0 => by
      simp [(((hi.dirs _ _ hd).nlink hk).resolve_left (by omega)).2] at hm
    rcases (hl.live_iff _ _ hd hk).mp hlive with h | h
    · exact .inl h
    · exact .inr ((hnamed _ hie).mpr h)
  · rw [hl.live_iff i u hu hk, hnamed i hie]

end Unlink

theorem Links.step (hl : Links root s) (hi : Inv F crc32c s) {op : Op} {s' : Fs}
    (h : step F crc32c s op = some s') : Links root s' := by
  cases op with
  | mknod dir name kind salt fail =>
    obtain ⟨d, hd, hlive, -, -, rfl⟩ := step_mknod h
    rcases scoutfsMknod_spec hi.alloc dir name kind salt fail with
      ⟨a, -, -, he⟩ | ⟨a, d', -, -, hd', -, key, -, -, he⟩
    · exact he ▸ hl.with_alloc a
    · obtain rfl := Option.some.inj (hd.symm.trans hd')
      exact hl.mknod hi hd hlive rfl (by rw [he])
  | unlink dir name fail =>
    obtain ⟨d, off, e, hd, he, rfl⟩ := step_unlink h
    rcases scoutfsUnlink_spec dir off e fail with h' | ⟨d', t, hd', ht, hempty, h'⟩
    · exact h' ▸ hl
    · obtain rfl := Option.some.inj (hd.symm.trans hd')
      exact hl.unlink hi hd (entryOf_some he).1 ht hempty (by rw [h'])

theorem Links.reachable {s₀ : Fs} (hi₀ : Inv F crc32c s₀) (hl₀ : Links root s₀)
    (hr : Reachable F crc32c s₀ s) : Links root s := by
  induction hr with
  | init => exact hl₀
  | step _ hr hs ih => exact ih.step (hi₀.reachable hr) hs

theorem links_mkfs {root salt superNext : Nat} : Links root (mkfs root salt superNext) where
  root_mem := by simp [mkfs]
  unique := fun ⟨u, hu, hp⟩ => by
    simp only [mkfs, Function.update_apply] at hu
    split_ifs at hu; cases hu; simp [newInode] at hp
  root_unnamed := fun ⟨j, p, ⟨u, hu, hp⟩, _⟩ => by
    simp only [mkfs, Function.update_apply] at hu
    split_ifs at hu; cases hu; simp [newInode] at hp
  live_iff i t ht _ := by
    simp only [mkfs, Function.update_apply] at ht
    split_ifs at ht with hi
    cases ht
    simp [newInode, hi]

end Links

/-! ## Lookup and rmdir -/

section Lookup

variable {s : Fs} {d : Inode} {name : List UInt8}

/-- In a list of distinct names, the search for the name of one of its items finds it. -/
theorem find?_name_of_mem {W : List (Nat × Dirent)} (hn : W.Pairwise fun p q => p.2.name ≠ q.2.name)
    {p : Nat × Dirent} (hp : p ∈ W) : W.find? (fun q => q.2.name = p.2.name) = some p := by
  cases hf : W.find? (fun q => q.2.name = p.2.name) with
  | none => simpa using List.find?_eq_none.mp hf p hp
  | some q =>
    have hqn : q.2.name = p.2.name := by simpa using List.find?_some hf
    rw [eq_of_name_eq hn (List.mem_of_find?_eq_some hf) hp hqn]

/-- `scoutfs_lookup` searches only the name's probe window, and finds the entry there. -/
theorem DirInv.lookup_eq (hd : DirInv F crc32c d) (hz : ∀ p ∈ d.items, p.2.ino ≠ 0)
    (hlen : name.length ≤ F.nameLen) :
    scoutfsLookup F crc32c d name true true = .ok ((entryOf d name).map fun p => p.2.ino) := by
  simp only [scoutfsLookup, not_true_eq_false, gt_iff_lt, not_lt.mpr hlen, if_false]
  cases he : entryOf d name with
  | none =>
    rw [List.find?_eq_none.mpr fun q hq => by simpa using entryOf_none he q (List.mem_filter.mp hq).1]
    rfl
  | some p =>
    obtain ⟨hp, rfl⟩ := entryOf_some he
    have hw : p ∈ window d.items (nameHash F crc32c d.salt p.2.name)
        (lastDirentKeyOffset F (nameHash F crc32c d.salt p.2.name)) :=
      List.mem_filter.mpr ⟨hp, by simpa using hd.placed p hp⟩
    rw [find?_name_of_mem (hd.names.sublist (window_sublist _ _ _)) hw]
    simp [hz p hp]

theorem Inv.lookup (hi : Inv F crc32c s) {i : Nat} (hd : s.inodes i = some d) (ino : Nat) :
    scoutfsLookup F crc32c d name true true = .ok (some ino) ↔
      ∃ p ∈ d.items, p.2.name = name ∧ p.2.ino = ino := by
  have hdi := hi.dirs i d hd
  by_cases hlen : name.length ≤ F.nameLen
  · have hz : ∀ p ∈ d.items, p.2.ino ≠ 0 := fun p hp h0 => by
      obtain ⟨-, t, ht, -⟩ := hi.targets i d hd p hp
      simp [h0, hi.zero] at ht
    rw [hdi.lookup_eq hz hlen, Except.ok.injEq, Option.map_eq_some']
    constructor
    · rintro ⟨p, hp, rfl⟩
      exact ⟨p, (entryOf_some hp).1, (entryOf_some hp).2, rfl⟩
    · rintro ⟨p, hp, rfl, rfl⟩
      exact ⟨p, find?_name_of_mem hdi.names hp, rfl⟩
  · simp only [scoutfsLookup, not_true_eq_false, if_false, gt_iff_lt, not_le.mp hlen, if_true,
      reduceCtorEq, false_iff, not_exists, not_and]
    rintro p hp rfl -
    exact hlen (hdi.name_len p hp)

/-- `rmdir` answers `-ENOTEMPTY` exactly when the directory has an entry, however the
rest of the call would go. -/
theorem Inv.unlink_notEmpty (hi : Inv F crc32c s) {dir off : Nat} {e : Dirent} {t : Inode}
    (hd : s.inodes dir = some d) (ht : s.inodes e.ino = some t) (hk : t.kind = .dir)
    (fail : Option UnlinkStep) :
    (scoutfsUnlink s dir off e fail).2 = - ENOTEMPTY ↔ t.items ≠ [] := by
  rw [Ne, ← (hi.dirs _ _ ht).size_eq_zero_iff]
  simp only [scoutfsUnlink, hd, ht, hk, true_and]
  split_ifs <;> simp_all [ENOTEMPTY, EIO]

variable (F crc32c) in
/-- What holds of every directory of a file system whose root is `root`: its entries'
offsets lie in their names' probe windows, inside `[2, SCOUTFS_DIRENT_LAST_POS]`, and
differ; its names differ; `i_size` is the sum of the name lengths; `nlink` is two plus
the subdirectories for the root and every directory an entry names, and a directory
neither is, one that was removed, has no links and no entries; `scoutfs_lookup` finds
a name's inode exactly when the name is linked; and `rmdir` fails with `-ENOTEMPTY`
exactly when the directory has an entry. -/
structure Dirs (root : Nat) (s : Fs) : Prop where
  placed : ∀ i d, s.inodes i = some d → ∀ p ∈ d.items,
    2 ≤ nameHash F crc32c d.salt p.2.name ∧ nameHash F crc32c d.salt p.2.name ≤ p.1 ∧
      p.1 ≤ lastDirentKeyOffset F (nameHash F crc32c d.salt p.2.name) ∧
      lastDirentKeyOffset F (nameHash F crc32c d.salt p.2.name) ≤ F.direntLastPos
  offsets : ∀ i d, s.inodes i = some d → (d.items.map Prod.fst).Nodup
  names : ∀ i d, s.inodes i = some d → (d.items.map fun p => p.2.name).Nodup
  size : ∀ i d, s.inodes i = some d → d.size = (d.items.map fun p => p.2.name.length).sum
  nlink : ∀ i d, s.inodes i = some d → d.kind = .dir → (i = root ∨ Named s i) →
    d.nlink = 2 + d.items.countP (fun p => p.2.type = .dir)
  removed : ∀ i d, s.inodes i = some d → d.kind = .dir → i ≠ root → ¬Named s i →
    d.nlink = 0 ∧ d.items = []
  lookup : ∀ i d, s.inodes i = some d → ∀ name ino,
    scoutfsLookup F crc32c d name true true = .ok (some ino) ↔
      ∃ p ∈ d.items, p.2.name = name ∧ p.2.ino = ino
  rmdir : ∀ i d off e t, s.inodes i = some d → (off, e) ∈ d.items → s.inodes e.ino = some t →
    t.kind = .dir → ∀ fail, (scoutfsUnlink s i off e fail).2 = - ENOTEMPTY ↔ t.items ≠ []

theorem Inv.dirs_consistent {root : Nat} (hi : Inv F crc32c s) (hl : Links root s) :
    Dirs F crc32c root s where
  placed i d hd p hp :=
    ⟨(nameHash_mem F crc32c _ _).1, (hi.dirs i d hd).placed p hp |>.1,
      (hi.dirs i d hd).placed p hp |>.2, lastDirentKeyOffset_le F _⟩
  offsets i d hd := List.pairwise_map.mpr ((hi.dirs i d hd).sorted.imp Nat.ne_of_lt)
  names i d hd := List.pairwise_map.mpr (hi.dirs i d hd).names
  size i d hd := (hi.dirs i d hd).size
  nlink i d hd hk hlive :=
    ((hi.dirs i d hd).nlink hk).resolve_right fun h => (hl.live_iff i d hd hk).mpr hlive h.1
  removed i d hd hk hr hn :=
    ((hi.dirs i d hd).nlink hk).resolve_left fun h =>
      (not_or.mpr ⟨hr, hn⟩) ((hl.live_iff i d hd hk).mp (by omega))
  lookup _ _ hd _ ino := hi.lookup hd ino
  rmdir _ _ _ _ _ hd _ ht hk fail := hi.unlink_notEmpty hd ht hk fail

/-- Every directory reachable from a freshly made file system by `mknod`, `create`,
`mkdir`, `unlink` and `rmdir`, each of which may fail at any of its calls, is
consistent in the sense of `Dirs`. -/
theorem dir_entries_consistent {root salt superNext : Nat} (hroot : 0 < root)
    (hlt : root < superNext) (hmax : superNext ≤ U64_MAX) {s : Fs}
    (hr : Reachable F crc32c (mkfs root salt superNext) s) : Dirs F crc32c root s :=
  have hi := inv_mkfs hroot hlt hmax
  (hi.reachable hr).dirs_consistent (links_mkfs.reachable hi hr)

/-- A small format: 255 offsets, windows of three, batches of 16 inode numbers. -/
def demoFormat : Format where
  direntOffMask := 255
  direntLastPos := 255
  direntCollNr := 3
  nameLen := 255
  inoBatch := 16
  two_le_lastPos := by decide
  inoBatch_pos := by decide
  inoBatch_le := by decide

/-- A stand-in for `crc32c` under which every one-letter name collides. -/
def demoCrc (salt : Nat) (name : List UInt8) : Nat := salt + name.length

/-- `mkdir a`, `create b` and `create c` in it, whose hashes collide, then `unlink b`. -/
theorem dir_entries_consistent_demo :
    0 < 1 ∧ 1 < 2 ∧ 2 ≤ U64_MAX ∧
      ∃ s, Reachable demoFormat demoCrc (mkfs 1 0 2) s ∧
        (s.inodes 2).map (fun d => d.items.map Prod.fst) = some [4] ∧ Dirs demoFormat demoCrc 1 s := by
  have hr : Reachable demoFormat demoCrc (mkfs 1 0 2) _ :=
    .step (.unlink 2 [98] none) (.step (.mknod 2 [99] .reg 0 none)
      (.step (.mknod 2 [98] .reg 0 none) (.step (.mknod 1 [97] .dir 2 none) .init rfl) rfl) rfl) rfl
  exact ⟨by decide, by decide, by decide, _, hr, rfl,
    dir_entries_consistent (by decide) (by decide) (by decide) hr⟩

end Lookup

end Scoutfs.Dir
