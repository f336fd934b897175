import Mathlib.Tactic.Ring
import Scoutfs.Server.Volopt

/-!
# Data allocation zones

`server_get_log_trees` stamps each mount's `log_trees` item with the zones its
`data_avail` extents lie in (`set_extent_zone_bits`), at the zone size
`data_alloc_zone_blocks` the volume options held then. Before refilling, it asks
`get_data_alloc_zone_bits` which zones are `vacant` (inside the device, in no item)
and which `exclusive` to the caller (only in its own items). Both walk zone indices
with `mod_extent_bits`, whose loop runs from `blkno / zone_blocks` to
`(blkno + len - 1) / zone_blocks`, and `mod_bitmap_bits`, which turns each set bit of
an item's bitmap back into an extent at the size it was recorded with.

`set_bit_le` and `clear_bit_le` take their index as an `int`, so the `u64` zone index
of the loops arrives as its low 32 bits, signed (`intNr`). The model keeps a bitmap, with
the memory around it, as a function on every `int` index. For extents that end within
`u64` and zones below `2^31`, both loops write exactly the zones that share a block with
the extent (`ZoneMeets`) and leave every other bit (`mod_bits_exact`); a translated zone
of `2^31` or more writes the bit its index wraps to (`mod_bitmap_bits_wraps`).

The bitmaps are the on-stack arrays of `SCOUTFS_DATA_ALLOC_MAX_ZONES` bits, so an index
the code hands to `set_bit_le` at or above the width lands past the array
(`vacant_init_overruns`). The exclusive bits are computed by setting and clearing in
key order: the last item whose zones meet a zone decides it
(`zoneBitsLoop_exclusive`), so a zone shared with a rid that sorts before the
caller's comes out exclusive (`exclusive_shared_zone`).
-/

namespace Scoutfs.Zones

open Function (update)

/-- The bits of a zone bitmap `__le64 *bits` and of the memory around it, by the `int`
index `set_bit_le` and `clear_bit_le` take: bit `i` for every `i`, negative ones before
the array. -/
abbrev Bits := Int → Bool

/-- The `int nr` that `set_bit_le` and `clear_bit_le` receive for the `u64` zone index
`nr`: its low 32 bits, signed. -/
def intNr (nr : Nat) : Int := (BitVec.ofNat 32 nr).toInt

/-- Below `2^31` a zone index arrives as it is. -/
theorem intNr_of_lt {nr : Nat} (h : nr < 2 ^ 31) : intNr nr = nr := by
  rw [intNr, BitVec.toInt, BitVec.toNat_ofNat, Nat.mod_eq_of_lt (by omega), if_pos (by omega)]

/-- Zone `2^32` arrives as bit 0, and zone `2^31` before the array. -/
example : intNr (2 ^ 32) = 0 ∧ intNr (2 ^ 31) = - 2 ^ 31 := by decide

/-! ## Extents and bitmaps -/

/-- The zone indices the loop of `mod_extent_bits` hands to `set_bit_le` or
`clear_bit_le`, in order: from `blkno / zone_blocks` through
`(blkno + len - 1) / zone_blocks`, the sum in `u64`. A `len` of 0 returns at the
`WARN_ON_ONCE`. The loop counter could only wrap past a last index of `U64_MAX`,
with a zone of one block. -/
def extentZones (zoneBlocks blkno len : Nat) : List Nat :=
  let nr := blkno / zoneBlocks
  let lastNr := (blkno + len - 1) % 2 ^ 64 / zoneBlocks
  if len = 0 then [] else List.range' nr (lastNr + 1 - nr)

/-- `mod_extent_bits`: the bits of the extent's zones set, or cleared. -/
def modExtentBits (bits : Bits) (zoneBlocks blkno len : Nat) (set : Bool) : Bits :=
  (extentZones zoneBlocks blkno len).foldl (fun b nr => update b (intNr nr) set) bits

/-- The zone indices `mod_bitmap_bits` hands to `mod_extent_bits`, in order:
`find_next_bit_le` visits the set bits of `src` below `SCOUTFS_DATA_ALLOC_MAX_ZONES`
in increasing order, and each becomes the extent of its zone at `src_zone_blocks`,
starting at `(u64)nr * src_zone_blocks`. -/
def bitmapZones (maxZones dstZoneBlocks : Nat) (src : Bits) (srcZoneBlocks : Nat) : List Nat :=
  (List.range maxZones).flatMap fun nr =>
    if src nr then extentZones dstZoneBlocks (nr * srcZoneBlocks % 2 ^ 64) srcZoneBlocks else []

/-- `mod_bitmap_bits`. -/
def modBitmapBits (maxZones : Nat) (dst : Bits) (dstZoneBlocks : Nat) (src : Bits)
    (srcZoneBlocks : Nat) (set : Bool) : Bits :=
  (List.range maxZones).foldl (fun d (nr : Nat) =>
    if src nr then modExtentBits d dstZoneBlocks (nr * srcZoneBlocks % 2 ^ 64) srcZoneBlocks set
    else d) dst

/-- The zones `server_get_log_trees` records for a mount: `zero_data_alloc_zone_bits`,
then `set_extent_zone_bits` on each extent of the refilled `data_avail` that
`scoutfs_alloc_extents_cb` visits, at the zone size of the time. -/
def stampZones (zoneBlocks : Nat) (extents : List (Nat × Nat)) : Bits :=
  extents.foldl (fun b e => modExtentBits b zoneBlocks e.1 e.2 true) fun _ => false

theorem mem_extentZones {zoneBlocks blkno len i : Nat} :
    i ∈ extentZones zoneBlocks blkno len ↔
      len ≠ 0 ∧ blkno / zoneBlocks ≤ i ∧ i ≤ (blkno + len - 1) % 2 ^ 64 / zoneBlocks := by
  unfold extentZones
  split_ifs with h
  · simp [h]
  · simp only [List.mem_range'_1]
    omega

/-- Writing one value at the `int` index of every zone of a list: an index of the list
holds the value, any other keeps its bit. -/
theorem foldl_update_apply (v : Bool) (i : Int) :
    ∀ (xs : List Nat) (b : Bits),
      xs.foldl (fun b n => update b (intNr n) v) b i = if i ∈ xs.map intNr then v else b i
  | [], b => by simp
  | x :: xs, b => by
    rw [List.foldl_cons, foldl_update_apply v i xs, List.map_cons]
    by_cases hi : i ∈ xs.map intNr
    · simp [hi]
    · by_cases hx : i = intNr x
      · subst hx; simp
      · simp [hi, hx, Function.update_noteq hx]

/-- Zones below `2^31` are written where they point. -/
theorem mem_map_intNr {xs : List Nat} (h : ∀ nr ∈ xs, nr < 2 ^ 31) {i : Int} :
    i ∈ xs.map intNr ↔ ∃ nr ∈ xs, (nr : Int) = i := by
  rw [List.mem_map]
  exact exists_congr fun nr => and_congr_right fun hn => by rw [intNr_of_lt (h nr hn)]

theorem modExtentBits_apply (bits : Bits) (zoneBlocks blkno len : Nat) (set : Bool) (i : Int) :
    modExtentBits bits zoneBlocks blkno len set i =
      if i ∈ (extentZones zoneBlocks blkno len).map intNr then set else bits i :=
  foldl_update_apply set i _ bits

/-- `mod_bitmap_bits` writes its value at the indices of `bitmapZones`. -/
theorem modBitmapBits_eq (maxZones : Nat) (dst : Bits) (dz : Nat) (src : Bits) (sz : Nat)
    (set : Bool) : modBitmapBits maxZones dst dz src sz set =
      (bitmapZones maxZones dz src sz).foldl (fun b n => update b (intNr n) set) dst := by
  unfold modBitmapBits bitmapZones
  generalize List.range maxZones = xs
  induction xs generalizing dst with
  | nil => rfl
  | cons x xs ih =>
    rw [List.foldl_cons, List.flatMap_cons, List.foldl_append, ih]
    split <;> rfl

theorem modBitmapBits_apply (maxZones : Nat) (dst : Bits) (dz : Nat) (src : Bits) (sz : Nat)
    (set : Bool) (i : Int) : modBitmapBits maxZones dst dz src sz set i =
      if i ∈ (bitmapZones maxZones dz src sz).map intNr then set else dst i := by
  rw [modBitmapBits_eq, foldl_update_apply]

/-! ## What the loops write -/

/-- Zone `i` of `zoneBlocks` blocks, `[i * zoneBlocks, (i + 1) * zoneBlocks)`, shares a
block with the extent `[blkno, blkno + len)`. -/
def ZoneMeets (zoneBlocks i blkno len : Nat) : Prop :=
  ∃ b, i * zoneBlocks ≤ b ∧ b < (i + 1) * zoneBlocks ∧ blkno ≤ b ∧ b < blkno + len

theorem zoneMeets_iff {zoneBlocks i blkno len : Nat} :
    ZoneMeets zoneBlocks i blkno len ↔
      0 < len ∧ i * zoneBlocks < blkno + len ∧ blkno < (i + 1) * zoneBlocks := by
  rcases Nat.eq_zero_or_pos zoneBlocks with rfl | hz
  · simp [ZoneMeets]
  simp only [ZoneMeets, Nat.succ_mul]
  constructor
  · rintro ⟨b, h₁, h₂, h₃, h₄⟩
    omega
  · rintro ⟨h₁, h₂, h₃⟩
    exact ⟨max (i * zoneBlocks) blkno, by omega, by omega, by omega, by omega⟩

instance (zoneBlocks i blkno len : Nat) : Decidable (ZoneMeets zoneBlocks i blkno len) :=
  decidable_of_iff _ zoneMeets_iff.symm

/-- For an extent that ends within `u64`, the loop of `mod_extent_bits` visits the zones
from `blkno / zone_blocks` through `(blkno + len - 1) / zone_blocks`. -/
theorem mem_extentZones_of_fit {zoneBlocks blkno len i : Nat} (hlen : 0 < len)
    (hfit : blkno + len ≤ 2 ^ 64) :
    i ∈ extentZones zoneBlocks blkno len ↔
      blkno / zoneBlocks ≤ i ∧ i ≤ (blkno + len - 1) / zoneBlocks := by
  rw [mem_extentZones, Nat.mod_eq_of_lt (by omega)]
  simp only [ne_eq, Nat.pos_iff_ne_zero.1 hlen, not_false_eq_true, true_and]

/-- Those are the zones that share a block with the extent. -/
theorem mem_extentZones_iff_meets {zoneBlocks blkno len i : Nat} (hz : 0 < zoneBlocks)
    (hfit : blkno + len ≤ 2 ^ 64) :
    i ∈ extentZones zoneBlocks blkno len ↔ ZoneMeets zoneBlocks i blkno len := by
  rcases Nat.eq_zero_or_pos len with rfl | hlen
  · simp [extentZones, zoneMeets_iff]
  rw [mem_extentZones_of_fit hlen hfit, zoneMeets_iff, ← Nat.lt_add_one_iff, Nat.div_lt_iff_lt_mul hz,
    Nat.le_div_iff_mul_le hz]
  omega

/-- `mod_bitmap_bits` visits the zones at `dst_zone_blocks` that share a block with the
zone at `src_zone_blocks` of some set bit of `src`, when those zones end within `u64`. -/
theorem mem_bitmapZones {maxZones dz sz i : Nat} {src : Bits} (hdz : 0 < dz)
    (hsrc : ∀ j < maxZones, src j = true → (j + 1) * sz ≤ 2 ^ 64) :
    i ∈ bitmapZones maxZones dz src sz ↔
      ∃ j < maxZones, src j = true ∧ ZoneMeets dz i (j * sz) sz := by
  simp only [bitmapZones, List.mem_flatMap, List.mem_range]
  refine exists_congr fun j => and_congr_right fun hj => ?_
  by_cases hs : src j = true
  · have hfit := hsrc j hj hs
    rcases Nat.eq_zero_or_pos sz with rfl | hsz
    · simp [hs, extentZones, zoneMeets_iff]
    rw [Nat.succ_mul] at hfit
    rw [if_pos hs, Nat.mod_eq_of_lt (by omega), mem_extentZones_iff_meets hdz hfit]
    simp [hs]
  · simp [hs]

/-- A zone that shares a block with the zone of a source bit `j` lies below the end of
that zone. -/
theorem zoneMeets_lt {dz nr j sz : Nat} (hdz : 0 < dz) (hm : ZoneMeets dz nr (j * sz) sz) :
    nr ≤ ((j + 1) * sz - 1) / dz := by
  have := (zoneMeets_iff.1 hm).2.1
  rw [Nat.le_div_iff_mul_le hdz, Nat.succ_mul]
  omega

/-- `set_extent_zone_bits` over the extents of `data_avail`: a bit is recorded iff it
is the `int` index of a zone that shares a block with one of them. -/
theorem stampZones_apply {zoneBlocks : Nat} (hz : 0 < zoneBlocks) {extents : List (Nat × Nat)}
    (hfit : ∀ e ∈ extents, e.1 + e.2 ≤ 2 ^ 64) (i : Int) :
    stampZones zoneBlocks extents i = true ↔
      ∃ e ∈ extents, ∃ nr, intNr nr = i ∧ ZoneMeets zoneBlocks nr e.1 e.2 := by
  suffices h : ∀ b₀ : Bits,
      extents.foldl (fun b e => modExtentBits b zoneBlocks e.1 e.2 true) b₀ i = true ↔
      b₀ i = true ∨ ∃ e ∈ extents, ∃ nr, intNr nr = i ∧ ZoneMeets zoneBlocks nr e.1 e.2 by
    simpa using h fun _ => false
  induction extents with
  | nil => simp
  | cons e es ih =>
    intro b₀
    rw [List.forall_mem_cons] at hfit
    have hm : i ∈ (extentZones zoneBlocks e.1 e.2).map intNr ↔
        ∃ nr, intNr nr = i ∧ ZoneMeets zoneBlocks nr e.1 e.2 := by
      simp only [List.mem_map, mem_extentZones_iff_meets hz hfit.1, and_comm]
    rw [List.foldl_cons, ih hfit.2, modExtentBits_apply]
    simp only [List.mem_cons, exists_eq_or_imp, ← hm]
    split_ifs with he <;> simp only [he, true_or, or_true, false_or, iff_true, Bool.false_eq_true, or_assoc]

open Classical in
/-- What `mod_bitmap_bits` writes, for every source bitmap whose set bits' zones end
within `u64`: the `int` index of each destination zone that shares a block with the zone
of a set bit. -/
theorem modBitmapBits_meets {maxZones dz sz : Nat} {src : Bits} (hdz : 0 < dz)
    (hsrc : ∀ j < maxZones, src j = true → (j + 1) * sz ≤ 2 ^ 64) (dst : Bits) (set : Bool) (i : Int) :
    modBitmapBits maxZones dst dz src sz set i =
      if ∃ j < maxZones, src j = true ∧ ∃ nr, intNr nr = i ∧ ZoneMeets dz nr (j * sz) sz then set
      else dst i := by
  rw [modBitmapBits_apply]
  refine if_congr ?_ rfl rfl
  simp only [List.mem_map, mem_bitmapZones hdz hsrc]
  constructor
  · rintro ⟨nr, ⟨j, hj, hs, hm⟩, rfl⟩
    exact ⟨j, hj, hs, nr, rfl, hm⟩
  · rintro ⟨j, hj, hs, nr, rfl, hm⟩
    exact ⟨nr, ⟨j, hj, hs, hm⟩, rfl⟩

open Classical in
/-- **`mod_extent_bits` and `mod_bitmap_bits` write exactly the zones an extent meets.**
For a zone size `z > 0` and an extent of `len ≥ 1` blocks at `blkno` that ends within
`u64` and whose last zone lies inside a bitmap of at most `2^31` bits, as the `int nr`
of `mod_bitmap_bits` needs, `mod_extent_bits` writes `set` at the zones `blkno / z`
through `(blkno + len - 1) / z`, all inside the bitmap, and leaves every other bit; those
zones are the ones that share a block with the extent. For a destination zone size
`dz > 0` and a source bitmap whose set bits' zones end within `u64`, `mod_bitmap_bits`
writes `set` at the `int` index of each destination zone that shares a block with the
zone `[j * sz, (j + 1) * sz)` of some set bit `j`, and leaves every other bit; when those
zones all lie below `2^31`, it writes exactly the bits of those zones. -/
theorem mod_bits_exact (z blkno len maxZones : Nat) (hz : 0 < z) (hlen : 0 < len)
    (hfit : blkno + len ≤ 2 ^ 64) (hmax : (blkno + len - 1) / z < maxZones) (hM : maxZones ≤ 2 ^ 31)
    (bits : Bits) (set : Bool) (dz sz : Nat) (src : Bits) (hdz : 0 < dz)
    (hsrc : ∀ j < maxZones, src j = true → (j + 1) * sz ≤ 2 ^ 64) (dst : Bits) :
    (∀ i : Int, modExtentBits bits z blkno len set i =
        if ((blkno / z : Nat) : Int) ≤ i ∧ i ≤ ((blkno + len - 1) / z : Nat) then set else bits i) ∧
      (∀ i, blkno / z ≤ i ∧ i ≤ (blkno + len - 1) / z ↔ ZoneMeets z i blkno len) ∧
      (∀ i ∈ extentZones z blkno len, i < maxZones) ∧
      (∀ i : Int, modBitmapBits maxZones dst dz src sz set i =
        if ∃ j < maxZones, src j = true ∧ ∃ nr, intNr nr = i ∧ ZoneMeets dz nr (j * sz) sz then set
        else dst i) ∧
      ((∀ j < maxZones, src j = true → ((j + 1) * sz - 1) / dz < 2 ^ 31) →
        ∀ i : Int, modBitmapBits maxZones dst dz src sz set i =
          if ∃ j < maxZones, src j = true ∧ ∃ nr : Nat, (nr : Int) = i ∧ ZoneMeets dz nr (j * sz) sz then set
          else dst i) := by
  have hin : ∀ nr ∈ extentZones z blkno len, nr < maxZones := fun nr hn =>
    lt_of_le_of_lt ((mem_extentZones_of_fit hlen hfit).1 hn).2 hmax
  refine ⟨fun i => ?_, fun i => ?_, hin, modBitmapBits_meets hdz hsrc dst set, fun hsmall i => ?_⟩
  · rw [modExtentBits_apply]
    refine if_congr ?_ rfl rfl
    rw [mem_map_intNr fun nr hn => lt_of_lt_of_le (hin nr hn) hM]
    constructor
    · rintro ⟨nr, hn, rfl⟩
      have := (mem_extentZones_of_fit hlen hfit).1 hn
      exact ⟨Int.ofNat_le.2 this.1, Int.ofNat_le.2 this.2⟩
    · rintro ⟨h₁, h₂⟩
      have hi : 0 ≤ i := (Int.ofNat_nonneg _).trans h₁
      exact ⟨i.toNat,
        (mem_extentZones_of_fit hlen hfit).2 ⟨(Int.le_toNat hi).2 h₁, Int.toNat_le.2 h₂⟩,
        Int.toNat_of_nonneg hi⟩
  · rw [← mem_extentZones_of_fit hlen hfit, mem_extentZones_iff_meets hz hfit]
  · rw [modBitmapBits_meets hdz hsrc]
    refine if_congr (exists_congr fun j => and_congr_right fun hj => and_congr_right fun hs =>
      exists_congr fun nr => and_congr_left fun hm => ?_) rfl rfl
    rw [intNr_of_lt (lt_of_le_of_lt (zoneMeets_lt hdz hm) (hsmall j hj hs))]

/-- Blocks 5 to 10 at 4 blocks a zone are zones 1 and 2; zone 1 of a bitmap at 4 blocks
a zone, blocks 4 to 7, is zones 2 and 3 at 2 blocks a zone. -/
theorem mod_bits_exact_demo :
    (∀ i : Int, modExtentBits (fun _ => false) 4 5 6 true i = true ↔ 1 ≤ i ∧ i ≤ 2) ∧
      ∀ i : Int, modBitmapBits 4 (fun _ => false) 2 (· == 1) 4 true i = true ↔ 2 ≤ i ∧ i ≤ 3 := by
  obtain ⟨h₁, -, -, -, h₅⟩ := mod_bits_exact 4 5 6 4 (by decide) (by decide) (by decide) (by decide)
    (by decide) (fun _ => false) true 2 4 (· == 1) (by decide) (by decide) (fun _ => false)
  have h₄ := h₅ (by decide)
  refine ⟨fun i => by simp [h₁], fun i => ?_⟩
  rw [h₄]
  split_ifs with h
  · obtain ⟨j, -, hj, nr, rfl, hm⟩ := h
    obtain rfl : j = 1 := by simpa using hj
    have := zoneMeets_iff.1 hm
    exact iff_of_true rfl (by omega)
  · simp only [Bool.false_eq_true, false_iff]
    exact fun hi =>
      h ⟨1, by omega, rfl, i.toNat, by omega, zoneMeets_iff.2 ⟨by omega, by omega, by omega⟩⟩

/-- **A translated zone of `2^32` or more wraps to a low bit.** A source bitmap at `2^32`
blocks a zone with bit 1 set, translated to zones of one block: the zone of bit 1 is
blocks `2^32` to `2^33 - 1`, whose first destination zone, `2^32`, reaches `set_bit_le`
as bit 0. `mod_bitmap_bits` sets bit 0, though destination zone 0 shares no block with
the zone of any set bit. -/
theorem mod_bitmap_bits_wraps :
    modBitmapBits 2 (fun _ => false) 1 (· == 1) (2 ^ 32) true 0 = true ∧
      ¬∃ j < (2 : Nat), ((· == 1) : Bits) j = true ∧ ZoneMeets 1 0 (j * 2 ^ 32) (2 ^ 32) := by
  refine ⟨?_, fun ⟨j, hj, hs, hm⟩ => ?_⟩
  · rw [modBitmapBits_meets (by decide) (by decide), if_pos]
    exact ⟨1, by decide, rfl, 2 ^ 32, by decide, zoneMeets_iff.2 ⟨by decide, by decide, by decide⟩⟩
  · have := (zoneMeets_iff.1 hm).2.2
    simp only [Nat.reducePow, Nat.zero_add, Nat.one_mul] at this
    obtain rfl : j = 0 := by omega
    exact absurd hs (by decide)

/-! ## The walk over the `log_trees` items -/

/-- A `logs_root` item as `get_data_alloc_zone_bits` reads it. -/
structure ZoneItem where
  /-- `sklt_rid` of the item's key -/
  rid : Nat
  /-- whether `val_len` is that of a whole `struct scoutfs_log_trees` -/
  whole : Bool
  /-- `data_alloc_zones` -/
  zones : Bits
  /-- `data_alloc_zone_blocks` -/
  zoneBlocks : Nat

/-- The zones at `zoneBlocks` an item's bitmap meets, as `mod_bitmap_bits` finds them. -/
def ZoneItem.meets (maxZones zoneBlocks : Nat) (it : ZoneItem) : List Nat :=
  bitmapZones maxZones zoneBlocks it.zones it.zoneBlocks

/-- The loop of `get_data_alloc_zone_bits`: `items` are what `scoutfs_btree_next`
returns in key order, and `stop` what it returns after the last one (`-ENOENT` at the
end of the tree, or an error). An item of another length ends the walk with `-EIO`. -/
def zoneBitsLoop (maxZones rid zoneBlocks : Nat) (stop : Int) :
    List ZoneItem → Bits → Bits → Bits × Bits × Int
  | [], exclusive, vacant => (exclusive, vacant, if stop = - ENOENT then 0 else stop)
  | it :: its, exclusive, vacant =>
    if it.whole then
      zoneBitsLoop maxZones rid zoneBlocks stop its
        (modBitmapBits maxZones exclusive zoneBlocks it.zones it.zoneBlocks (it.rid == rid))
        (modBitmapBits maxZones vacant zoneBlocks it.zones it.zoneBlocks false)
    else (exclusive, vacant, - EIO)

/-- `get_data_alloc_zone_bits`: both bitmaps zeroed, the zones of
`[0, total_data_blocks)` set in `vacant`, then the walk from the first key. Returns
`exclusive`, `vacant` and the result. -/
def getDataAllocZoneBits (maxZones totalDataBlocks rid zoneBlocks : Nat)
    (items : List ZoneItem) (stop : Int) : Bits × Bits × Int :=
  zoneBitsLoop maxZones rid zoneBlocks stop items (fun _ => false)
    (modExtentBits (fun _ => false) zoneBlocks 0 totalDataBlocks true)

section Walk

variable {maxZones rid zoneBlocks : Nat} {stop : Int}

/-- A walk that returns 0 read only whole items. -/
theorem zoneBitsLoop_whole {items : List ZoneItem} {e v : Bits}
    (h : (zoneBitsLoop maxZones rid zoneBlocks stop items e v).2.2 = 0) : ∀ it ∈ items, it.whole := by
  induction items generalizing e v with
  | nil => simp
  | cons it its ih =>
    unfold zoneBitsLoop at h
    split_ifs at h with hw
    · exact List.forall_mem_cons.2 ⟨hw, ih h⟩
    · simp [ EIO] at h

/-- **Vacant.** Over whole items, a vacant bit stays set iff no item meets a zone whose
`int` index it is. -/
theorem zoneBitsLoop_vacant {items : List ZoneItem} (hw : ∀ it ∈ items, it.whole) (e v : Bits)
    (i : Int) :
    (zoneBitsLoop maxZones rid zoneBlocks stop items e v).2.1 i =
      (v i && !items.any fun it => i ∈ (it.meets maxZones zoneBlocks).map intNr) := by
  induction items generalizing e v with
  | nil => simp [zoneBitsLoop]
  | cons it its ih =>
    rw [List.forall_mem_cons] at hw
    rw [zoneBitsLoop, if_pos hw.1, ih hw.2, modBitmapBits_apply, List.any_cons]
    change ((if i ∈ (it.meets maxZones zoneBlocks).map intNr then false else v i) && _) = _
    by_cases hi : i ∈ (it.meets maxZones zoneBlocks).map intNr <;> simp [hi]

/-- **Exclusive.** Over whole items, the last item in key order that meets a zone whose
`int` index is `i` decides exclusive bit `i`: set iff that item is the caller's. With
none, the bit keeps its value. -/
theorem zoneBitsLoop_exclusive {items : List ZoneItem} (hw : ∀ it ∈ items, it.whole) (e v : Bits)
    (i : Int) :
    (zoneBitsLoop maxZones rid zoneBlocks stop items e v).1 i =
      (((items.filter fun it => i ∈ (it.meets maxZones zoneBlocks).map intNr).getLast?.map
        fun it => it.rid == rid).getD (e i)) := by
  induction items generalizing e v with
  | nil => simp [zoneBitsLoop]
  | cons it its ih =>
    rw [List.forall_mem_cons] at hw
    rw [zoneBitsLoop, if_pos hw.1, ih hw.2, modBitmapBits_apply]
    change (Option.map _ _).getD (if i ∈ (it.meets maxZones zoneBlocks).map intNr then _ else _) = _
    by_cases hi : i ∈ (it.meets maxZones zoneBlocks).map intNr
    · simp only [List.filter_cons, hi, decide_True, if_true, List.getLast?_cons]
      cases (its.filter fun it => i ∈ (it.meets maxZones zoneBlocks).map intNr).getLast? <;> rfl
    · rw [if_neg hi, List.filter_cons_of_neg (by simpa using hi)]

/-- Over whole items, the bitmaps `get_data_alloc_zone_bits` returns with 0: a zone is
vacant iff the initialisation set it and no item meets it, and exclusive iff the last
item meeting it is the caller's. -/
theorem getDataAllocZoneBits_bits {total : Nat} {items : List ZoneItem}
    (h : (getDataAllocZoneBits maxZones total rid zoneBlocks items stop).2.2 = 0) (i : Int) :
    (getDataAllocZoneBits maxZones total rid zoneBlocks items stop).2.1 i =
        (decide (i ∈ (extentZones zoneBlocks 0 total).map intNr) &&
          !items.any fun it => i ∈ (it.meets maxZones zoneBlocks).map intNr) ∧
      (getDataAllocZoneBits maxZones total rid zoneBlocks items stop).1 i =
        (((items.filter fun it => i ∈ (it.meets maxZones zoneBlocks).map intNr).getLast?.map
          fun it => it.rid == rid).getD false) := by
  have hw := zoneBitsLoop_whole h
  refine ⟨?_, zoneBitsLoop_exclusive hw _ _ i⟩
  rw [getDataAllocZoneBits, zoneBitsLoop_vacant hw, modExtentBits_apply]
  by_cases hi : i ∈ (extentZones zoneBlocks 0 total).map intNr <;> simp [hi]

end Walk

/-! ## Zone indices past the bitmaps

`server_set_volopt` accepts a zone size `Z` with `Z ≥ total / MAX_ZONES`, rounding
down; the zones of the width then end at `MAX_ZONES * Z`, which can be short of the
device by up to `MAX_ZONES - 1` blocks. An index at or above `MAX_ZONES` addresses
past the on-stack `exclusive` and `vacant` arrays of `server_get_log_trees`. -/

section Overrun

variable {L : Volopt.Limits} {zoneBlocks : Nat}

/-- The vacant initialisation passes an index at or above the width exactly when the
zones of the width end before the device does. -/
theorem exists_vacant_init_past_iff (hz : 0 < zoneBlocks) (maxZones total : Nat) (ht : 0 < total)
    (ht' : total ≤ 2 ^ 64) :
    (∃ i ∈ extentZones zoneBlocks 0 total, maxZones ≤ i) ↔ maxZones * zoneBlocks < total := by
  have hlast : (0 + total - 1) % 2 ^ 64 = total - 1 := by
    rw [Nat.zero_add, Nat.mod_eq_of_lt (by omega)]
  simp only [mem_extentZones, hlast, Nat.zero_div, Nat.zero_le, true_and]
  constructor
  · rintro ⟨i, ⟨-, hi⟩, hm⟩
    have := (Nat.le_div_iff_mul_le hz).1 (hm.trans hi)
    omega
  · intro h
    exact ⟨maxZones, ⟨by omega, (Nat.le_div_iff_mul_le hz).2 (by omega)⟩, le_rfl⟩

/-- With at least two zones, a zone size `Z` at or above the fill target is accepted for
a device of `MAX_ZONES * Z + 1` blocks, and the vacant initialisation then passes index
`MAX_ZONES`. -/
theorem vacant_init_overruns (hM : 2 ≤ L.dataAllocMaxZones) (hF : L.dataFillTarget ≤ zoneBlocks)
    (hz : 0 < zoneBlocks) (hw : L.dataAllocMaxZones * zoneBlocks < 2 ^ 64) :
    Volopt.checkZoneBlocks L (L.dataAllocMaxZones * zoneBlocks + 1) zoneBlocks = .ok () ∧
      L.dataAllocMaxZones ∈ extentZones zoneBlocks 0 (L.dataAllocMaxZones * zoneBlocks + 1) := by
  have hdiv : (L.dataAllocMaxZones * zoneBlocks + 1) / L.dataAllocMaxZones = zoneBlocks := by
    rw [Nat.mul_add_div (by omega), Nat.div_eq_of_lt (by omega), Nat.add_zero]
  have hle : zoneBlocks ≤ L.dataAllocMaxZones * zoneBlocks := Nat.le_mul_of_pos_left _ (by omega)
  refine ⟨?_, ?_⟩
  · simp only [Volopt.checkZoneBlocks, hdiv]
    rw [if_neg (by omega), if_neg (Nat.lt_irrefl _), if_neg (by omega)]
  · obtain ⟨i, hi, hm⟩ := (exists_vacant_init_past_iff hz L.dataAllocMaxZones
      (L.dataAllocMaxZones * zoneBlocks + 1) (by omega) (by omega)).2 (Nat.lt_succ_self _)
    rw [mem_extentZones] at hi ⊢
    exact ⟨hi.1, by simp, hm.trans hi.2.2⟩

/-- The zone a set bit of a stamp at `Z + 1` translates to at `Z`: the bit `k + 1`
of zones of `Z + 1` blocks, stamped from the first block of its zone, meets zone
`k + 2` of `Z` blocks once `k + 1 < Z`. -/
theorem mem_meets_stamp {k : Nat} (hk : k + 1 < zoneBlocks) (hk' : k + 1 < 2 ^ 31) (rid : Nat)
    (hw : (k + 2) * (zoneBlocks + 1) ≤ 2 ^ 64) :
    k + 2 ∈ ZoneItem.meets (k + 2) zoneBlocks
      ⟨rid, true, stampZones (zoneBlocks + 1) [((k + 1) * (zoneBlocks + 1), 1)], zoneBlocks + 1⟩ := by
  have e₁ : (k + 1) * (zoneBlocks + 1) = k * zoneBlocks + k + zoneBlocks + 1 := by ring
  have e₂ : (k + 2) * zoneBlocks = k * zoneBlocks + 2 * zoneBlocks := by ring
  have e₃ : (k + 2 + 1) * zoneBlocks = k * zoneBlocks + 3 * zoneBlocks := by ring
  have e₄ : (k + 2) * (zoneBlocks + 1) = k * zoneBlocks + k + 2 * zoneBlocks + 2 := by ring
  have hz : 0 < zoneBlocks := by omega
  have hs : (k + 1) * (zoneBlocks + 1) % 2 ^ 64 = (k + 1) * (zoneBlocks + 1) := Nat.mod_eq_of_lt (by omega)
  have hstamp : stampZones (zoneBlocks + 1) [((k + 1) * (zoneBlocks + 1), 1)] (k + 1 : Nat) = true := by
    rw [stampZones, List.foldl_cons, List.foldl_nil, modExtentBits_apply, if_pos]
    refine List.mem_map.2 ⟨k + 1, ?_, intNr_of_lt hk'⟩
    rw [mem_extentZones, Nat.add_sub_cancel, hs, Nat.mul_div_cancel _ (Nat.succ_pos _)]
    exact ⟨one_ne_zero, le_rfl, le_rfl⟩
  simp only [ZoneItem.meets, bitmapZones, List.mem_flatMap, List.mem_range]
  refine ⟨k + 1, Nat.lt_succ_self _, ?_⟩
  rw [if_pos hstamp, mem_extentZones, hs, Nat.mod_eq_of_lt (by omega)]
  refine ⟨Nat.succ_ne_zero _, Nat.le_of_lt_succ ((Nat.div_lt_iff_lt_mul hz).2 ?_), ?_⟩
  · show _ < (k + 2 + 1) * zoneBlocks
    omega
  exact (Nat.le_div_iff_mul_le hz).2 (by omega)

/-- A zone size change with an extent in the last partial zone. On a device of exactly
`MAX_ZONES * Z` blocks with `MAX_ZONES ≤ Z`, both `Z` and `Z + 1` are accepted and the
vacant initialisation at `Z` stays inside the width. A mount whose `data_avail` held the
block `(MAX_ZONES - 1) * (Z + 1)` of the device when the size was `Z + 1` records zone
`MAX_ZONES - 1`, which reaches past the device; `mod_bitmap_bits` translates it at `Z`
to index `MAX_ZONES`. -/
theorem translated_zone_overruns (hM : 2 ≤ L.dataAllocMaxZones) (hM' : L.dataAllocMaxZones ≤ 2 ^ 31)
    (hF : L.dataFillTarget ≤ zoneBlocks)
    (hMZ : L.dataAllocMaxZones ≤ zoneBlocks) (hw : L.dataAllocMaxZones * (zoneBlocks + 1) ≤ 2 ^ 64)
    (rid : Nat) :
    Volopt.checkZoneBlocks L (L.dataAllocMaxZones * zoneBlocks) zoneBlocks = .ok () ∧
      Volopt.checkZoneBlocks L (L.dataAllocMaxZones * zoneBlocks) (zoneBlocks + 1) = .ok () ∧
      (L.dataAllocMaxZones - 1) * (zoneBlocks + 1) < L.dataAllocMaxZones * zoneBlocks ∧
      (∀ i ∈ extentZones zoneBlocks 0 (L.dataAllocMaxZones * zoneBlocks), i < L.dataAllocMaxZones) ∧
      L.dataAllocMaxZones ∈ ZoneItem.meets L.dataAllocMaxZones zoneBlocks
        ⟨rid, true, stampZones (zoneBlocks + 1) [((L.dataAllocMaxZones - 1) * (zoneBlocks + 1), 1)],
          zoneBlocks + 1⟩ := by
  obtain ⟨k, hk⟩ : ∃ k, L.dataAllocMaxZones = k + 2 := ⟨_, (Nat.sub_add_cancel hM).symm⟩
  have hk1 : k + 2 - 1 = k + 1 := rfl
  have hdiv : (k + 2) * zoneBlocks / (k + 2) = zoneBlocks := Nat.mul_div_cancel_left _ (by omega)
  simp only [Volopt.checkZoneBlocks, hk, hk1, hdiv] at hMZ hw ⊢
  have e₁ : (k + 1) * (zoneBlocks + 1) = k * zoneBlocks + k + zoneBlocks + 1 := by ring
  have e₂ : (k + 2) * zoneBlocks = k * zoneBlocks + 2 * zoneBlocks := by ring
  have e₃ : (k + 2) * (zoneBlocks + 1) = k * zoneBlocks + k + 2 * zoneBlocks + 2 := by ring
  refine ⟨?_, ?_, by omega, fun i hi => Nat.lt_of_not_le fun hm => Nat.lt_irrefl ((k + 2) * zoneBlocks)
    ((exists_vacant_init_past_iff (by omega) (k + 2) _ (by omega) (by omega)).1 ⟨i, hi, hm⟩),
    mem_meets_stamp (by omega) (by omega) rid hw⟩ <;>
  rw [if_neg (by omega), if_neg (by omega), if_neg (by omega)]

/-- Both paths at `SCOUTFS_DATA_ALLOC_MAX_ZONES = 1024` and a fill target of `2^20`
blocks: a device of `2^30 + 1` blocks at `Z = 2^20`, and a device of `2^30` blocks
whose zone size went from `2^20 + 1` back to `2^20`. -/
theorem zone_index_past_bitmap :
    (Volopt.checkZoneBlocks ⟨1048576, 1024⟩ 1073741825 1048576 = .ok () ∧
      1024 ∈ extentZones 1048576 0 1073741825) ∧
    (Volopt.checkZoneBlocks ⟨1048576, 1024⟩ 1073741824 1048576 = .ok () ∧
      Volopt.checkZoneBlocks ⟨1048576, 1024⟩ 1073741824 1048577 = .ok () ∧
      1072694271 < 1073741824 ∧
      (∀ i ∈ extentZones 1048576 0 1073741824, i < 1024) ∧
      1024 ∈ ZoneItem.meets 1024 1048576 ⟨1, true, stampZones 1048577 [(1072694271, 1)], 1048577⟩) :=
  ⟨vacant_init_overruns (L := ⟨1048576, 1024⟩) (by decide) le_rfl (by decide) (by decide),
    translated_zone_overruns (L := ⟨1048576, 1024⟩) (by decide) (by decide) le_rfl (by decide) (by decide) 1⟩

end Overrun

/-! ## Exclusive zones shared with a lower rid -/

/-- The bitmap of a mount whose `data_avail` held block 0 meets zone 0 at its own size. -/
theorem zero_mem_meets {maxZones zoneBlocks : Nat} (hM : 0 < maxZones) (hz : 0 < zoneBlocks) (rid : Nat) :
    0 ∈ ZoneItem.meets maxZones zoneBlocks ⟨rid, true, stampZones zoneBlocks [(0, 1)], zoneBlocks⟩ := by
  have hstamp : stampZones zoneBlocks [(0, 1)] (0 : Nat) = true := by
    rw [stampZones, List.foldl_cons, List.foldl_nil, modExtentBits_apply,
      if_pos (List.mem_map.2 ⟨0, by simp [mem_extentZones], by decide⟩)]
  simp only [ZoneItem.meets, bitmapZones, List.mem_flatMap, List.mem_range]
  refine ⟨0, hM, ?_⟩
  rw [if_pos hstamp, mem_extentZones]
  exact ⟨by omega, by simp, Nat.zero_le _⟩

/-- Two mounts whose `data_avail` held block 0, the other's item first (its key sorts
first when `other < rid`): the walk returns 0 and marks zone 0 exclusive to the
caller, though the other mount's item meets it too. -/
theorem exclusive_shared_zone {maxZones zoneBlocks : Nat} (hM : 0 < maxZones) (hz : 0 < zoneBlocks)
    (total other rid : Nat) :
    let items : List ZoneItem := [⟨other, true, stampZones zoneBlocks [(0, 1)], zoneBlocks⟩,
      ⟨rid, true, stampZones zoneBlocks [(0, 1)], zoneBlocks⟩]
    (getDataAllocZoneBits maxZones total rid zoneBlocks items (- ENOENT)).2.2 = 0 ∧
      0 ∈ ZoneItem.meets maxZones zoneBlocks ⟨other, true, stampZones zoneBlocks [(0, 1)], zoneBlocks⟩ ∧
      (getDataAllocZoneBits maxZones total rid zoneBlocks items (- ENOENT)).1 0 = true := by
  intro items
  have h0 : (getDataAllocZoneBits maxZones total rid zoneBlocks items (- ENOENT)).2.2 = 0 := by
    simp [items, getDataAllocZoneBits, zoneBitsLoop]
  have hz0 : ∀ r, (0 : Int) ∈ (ZoneItem.meets maxZones zoneBlocks
      ⟨r, true, stampZones zoneBlocks [(0, 1)], zoneBlocks⟩).map intNr := fun r =>
    List.mem_map.2 ⟨0, zero_mem_meets hM hz r, by decide⟩
  refine ⟨h0, zero_mem_meets hM hz other, ?_⟩
  rw [(getDataAllocZoneBits_bits h0 0).2]
  simp only [items, List.filter_cons, hz0, decide_True, if_true, List.filter_nil, List.getLast?_cons_cons,
    List.getLast?_singleton, Option.map_some', Option.getD_some, beq_self_eq_true]

/-- Rids 1 and 2 with `MAX_ZONES = 1024`, zones of `2^20` blocks on a device of `2^30`. -/
theorem exclusive_zone_shared_with_lower_rid :
    let items : List ZoneItem := [⟨1, true, stampZones 1048576 [(0, 1)], 1048576⟩,
      ⟨2, true, stampZones 1048576 [(0, 1)], 1048576⟩]
    (getDataAllocZoneBits 1024 1073741824 2 1048576 items (- ENOENT)).2.2 = 0 ∧
      0 ∈ ZoneItem.meets 1024 1048576 ⟨1, true, stampZones 1048576 [(0, 1)], 1048576⟩ ∧
      (getDataAllocZoneBits 1024 1073741824 2 1048576 items (- ENOENT)).1 0 = true :=
  exclusive_shared_zone (by decide) (by decide) 1073741824 1 2

end Scoutfs.Zones
