import Mathlib.Data.List.Find
import Xv6Net.Fs.Inode

/-!
# The block allocator (`fs.c`)

Block `x` is in use when bit `x % BPB` of its bitmap block `BBLOCK(x)` is set.  `balloc` scans
the bitmap blocks in order, and in each the bits of the blocks below `sb.size`; it takes the
first free block it finds, sets its bit and zeroes it, both through `log_write`.

`FsLayout` is what the superblock must say for the bitmap to describe the disk: the bitmap
blocks lie below the data blocks.  `BitmapOK` is what the disk must hold: bitmap blocks of
`BSIZE` bytes, and every free block a data block.

* `balloc_first` : `balloc` takes the first free block, or returns `0` and changes nothing when
  there is none.
* `inUse_takeBlock`, `bitmapOK_takeBlock` : taking a block marks it and no other, and keeps
  `BitmapOK`; the free blocks are those before, less the one taken (`freeList_takeBlock`).
-/

namespace Xv6Net

namespace Fs

open Bytes

variable (sb : Superblock)

/-- Whether block `x` is marked in use in the bitmap. -/
def inUse (disk : Disk) (x : ℕ) : Bool := bitAt (disk (BBLOCK x.toUInt32 sb).toNat) (x % BPB)

/-- The free blocks of the disk, in order. -/
def freeList (disk : Disk) : List ℕ := (List.range sb.size.toNat).filter fun x => !inUse sb disk x

/-- The first data block: the blocks before it are the metadata. -/
def dataStart : ℕ := sb.size.toNat - sb.nblocks.toNat

/-- The superblock places the bitmap blocks of all `size` blocks below the data blocks. -/
structure FsLayout : Prop where
  bmap_end : sb.bmapstart.toNat + sb.size.toNat / BPB < dataStart sb

/-- The bitmap blocks hold `BSIZE` bytes, and only data blocks are free. -/
structure BitmapOK (disk : Disk) : Prop where
  len : ∀ x < sb.size.toNat, (disk (BBLOCK x.toUInt32 sb).toNat).length = BSIZE
  free_data : ∀ x < sb.size.toNat, inUse sb disk x = false → dataStart sb ≤ x

/-- The state after `balloc` took block `x`: its bit set in its bitmap block, then the block
zeroed, each through `log_write`. -/
def takeBlock (s : FsSt) (x : ℕ) : FsSt :=
  let bb := (BBLOCK x.toUInt32 sb).toNat
  let bm := setBit (s.disk bb) (x % BPB)
  let s := { s with disk := Function.update s.disk bb bm, writes := s.writes ++ [(bb, bm)] }
  { s with disk := Function.update s.disk x.toUInt32.toNat (List.replicate BSIZE 0),
           writes := s.writes ++ [(x.toUInt32.toNat, List.replicate BSIZE 0)] }

@[simp] theorem takeBlock_itable (s : FsSt) (x : ℕ) : (takeBlock sb s x).itable = s.itable := rfl

theorem toNat_toUInt32_of_lt_size {sb : Superblock} {x : ℕ} (hx : x < sb.size.toNat) :
    x.toUInt32.toNat = x := by
  have := sb.size.toNat_lt
  rw [Nat.toUInt32, UInt32.toNat_ofNat', Nat.mod_eq_of_lt (by omega)]

section Layout

variable {sb} (hl : FsLayout sb)
include hl

/-- The bitmap block of a block below `size`, as a number. -/
theorem BBLOCK_toNat {x : ℕ} (hx : x < sb.size.toNat) :
    (BBLOCK x.toUInt32 sb).toNat = x / BPB + sb.bmapstart.toNat := by
  have hd := hl.bmap_end
  have hs := sb.size.toNat_lt
  have hdiv : x / BPB ≤ sb.size.toNat / BPB := Nat.div_le_div_right hx.le
  have hds : dataStart sb ≤ sb.size.toNat := Nat.sub_le _ _
  rw [BBLOCK, UInt32.toNat_add, UInt32.toNat_div, toNat_toUInt32_of_lt_size hx,
    show BPB.toUInt32.toNat = BPB from rfl, Nat.mod_eq_of_lt (by omega)]

theorem BBLOCK_lt_dataStart {x : ℕ} (hx : x < sb.size.toNat) :
    (BBLOCK x.toUInt32 sb).toNat < dataStart sb := by
  have := Nat.div_le_div_right (c := BPB) hx.le
  rw [BBLOCK_toNat hl hx]
  have := hl.bmap_end
  omega

/-- The blocks of one bitmap block: from a multiple `b` of `BPB`, block `b + bi` has bit `bi`
of the bitmap block of `b`. -/
theorem inUse_add {disk : Disk} {b bi : ℕ} (hb : b % BPB = 0) (hbi : bi < BPB)
    (hx : b + bi < sb.size.toNat) :
    inUse sb disk (b + bi) = bitAt (disk (BBLOCK b.toUInt32 sb).toNat) bi := by
  have hbB : BPB = 8192 := rfl
  have hdiv : (b + bi) / BPB = b / BPB := by rw [hbB] at hb hbi ⊢; omega
  have hmod : (b + bi) % BPB = bi := by rw [hbB] at hb hbi ⊢; omega
  rw [inUse, BBLOCK_toNat hl hx, BBLOCK_toNat hl (by omega), hdiv, hmod]

/-- The inner loop of `balloc` in the bitmap block of `b`: the first free block among the
`BPB` from `b` that lie below `size`. -/
theorem freeBit_eq {disk : Disk} {b : ℕ} (hb : b % BPB = 0) (hbs : b < sb.size.toNat) :
    freeBit sb (disk (BBLOCK b.toUInt32 sb).toNat) b =
      ((List.range' b (min BPB (sb.size.toNat - b))).find? fun x => !inUse sb disk x).map
        (· - b) := by
  rw [freeBit, List.range'_eq_map_range, List.find?_map, Option.map_map]
  have hcongr : ∀ bi ∈ List.range (min BPB (sb.size.toNat - b)),
      (!bitAt (disk (BBLOCK b.toUInt32 sb).toNat) bi) =
        ((fun x => !inUse sb disk x) ∘ fun x => b + x) bi := by
    intro bi hbi
    rw [List.mem_range] at hbi
    simp only [Function.comp_apply]
    rw [inUse_add hl hb (by omega) (by omega)]
  rw [List.find?_congr hcongr]
  simp [Function.comp_def]

/-- The two writes of `balloc` for block `b + bi` found in the bitmap block of `b`. -/
theorem take_run {s : FsSt} {b bi : ℕ} (hb : b % BPB = 0) (hbi : bi < BPB)
    (hx : b + bi < sb.size.toNat) :
    (do
      logWriteBuf (BBLOCK b.toUInt32 sb) (setBit (s.disk (BBLOCK b.toUInt32 sb).toNat) bi)
      bzero (b + bi).toUInt32
      pure (b + bi).toUInt32 : FsM UInt32) s = .ok ((b + bi).toUInt32, takeBlock sb s (b + bi)) := by
  have hbB : BPB = 8192 := rfl
  have hbb : BBLOCK b.toUInt32 sb = BBLOCK (b + bi).toUInt32 sb := by
    apply UInt32.toNat_inj.1
    rw [BBLOCK_toNat hl (by omega), BBLOCK_toNat hl hx]
    rw [hbB] at hb hbi ⊢
    omega
  have hmod : (b + bi) % BPB = bi := by rw [hbB] at hb hbi ⊢; omega
  rw [hbb, takeBlock, hmod]
  rfl

/-- **The loop of `balloc`.**  From a multiple `b` of `BPB`, with fuel for the bitmap blocks up
to `size`, it takes the first free block from `b` on, or returns `0` and changes nothing. -/
theorem ballocLoop_spec {s : FsSt} :
    ∀ (fuel b : ℕ), b % BPB = 0 → sb.size.toNat ≤ b + fuel * BPB →
      ballocLoop sb fuel b s =
        match (List.range' b (sb.size.toNat - b)).find? (fun x => !inUse sb s.disk x) with
        | none => .ok (0, s)
        | some x => .ok (x.toUInt32, takeBlock sb s x) := by
  intro fuel
  induction fuel with
  | zero =>
    intro b _ hf
    rw [show sb.size.toNat - b = 0 by omega]
    rfl
  | succ fuel ih =>
    intro b hb hf
    by_cases hbs : b < sb.size.toNat
    · -- the bitmap block of `b`, then the blocks from `b + BPB`
      have hk : min BPB (sb.size.toNat - b) + (sb.size.toNat - b - min BPB (sb.size.toNat - b)) =
          sb.size.toNat - b := by omega
      rw [← hk, ← List.range'_append, List.find?_append, Nat.one_mul]
      rw [ballocLoop, if_pos hbs, bind_bread_run, freeBit_eq hl hb hbs]
      cases hfirst : (List.range' b (min BPB (sb.size.toNat - b))).find? (fun x => !inUse sb s.disk x) with
      | some x =>
        have hmem := List.mem_of_find?_eq_some hfirst
        rw [List.mem_range'_1] at hmem
        have hxb : b + (x - b) = x := by omega
        simp only [Option.map_some, Option.some_or]
        rw [take_run hl hb (show x - b < BPB by omega) (by omega), hxb]
      | none =>
        simp only [Option.map_none, Option.none_or]
        by_cases hfull : BPB ≤ sb.size.toNat - b
        · rw [ih (b + BPB) (by rw [Nat.add_mod_right]; exact hb) (by rw [Nat.succ_mul] at hf; omega),
            show b + min BPB (sb.size.toNat - b) = b + BPB by omega,
            show sb.size.toNat - b - min BPB (sb.size.toNat - b) = sb.size.toNat - (b + BPB) by omega]
        · -- the last bitmap block: nothing after it
          rw [ih (b + BPB) (by rw [Nat.add_mod_right]; exact hb) (by rw [Nat.succ_mul] at hf; omega),
            show sb.size.toNat - b - min BPB (sb.size.toNat - b) = 0 by omega,
            show sb.size.toNat - (b + BPB) = 0 by omega]
          rfl
    · rw [show sb.size.toNat - b = 0 by omega, ballocLoop, if_neg hbs]
      rfl

/-- **`balloc`.**  It takes the first free block, or returns `0` and changes nothing when no block
is free. -/
theorem balloc_first {s : FsSt} :
    balloc sb s =
      match (freeList sb s.disk).head? with
      | none => .ok (0, s)
      | some x => .ok (x.toUInt32, takeBlock sb s x) := by
  have hbB : BPB = 8192 := rfl
  rw [freeList, List.head?_filter, List.range_eq_range', balloc,
    ballocLoop_spec hl _ 0 (Nat.zero_mod _) (by rw [hbB]; omega), Nat.sub_zero]

/-! ### What taking a block changes -/

/-- A free block is a data block, so it is not a bitmap block. -/
theorem ne_BBLOCK_of_free {disk : Disk} (hbm : BitmapOK sb disk) {x y : ℕ} (hx : x < sb.size.toNat)
    (hfree : inUse sb disk x = false) (hy : y < sb.size.toNat) : (BBLOCK y.toUInt32 sb).toNat ≠ x := by
  have h1 := hbm.free_data x hx hfree
  have h2 := BBLOCK_lt_dataStart hl hy
  omega

/-- The blocks after `balloc` took the free block `x`: `x` zeroed, the bit of `x` set in its
bitmap block, the others as they were. -/
theorem takeBlock_disk {s : FsSt} (hbm : BitmapOK sb s.disk) {x : ℕ} (hx : x < sb.size.toNat)
    (hfree : inUse sb s.disk x = false) (y : ℕ) :
    (takeBlock sb s x).disk y =
      if y = x then List.replicate BSIZE 0
      else if y = (BBLOCK x.toUInt32 sb).toNat then setBit (s.disk y) (x % BPB)
      else s.disk y := by
  have hne := ne_BBLOCK_of_free hl hbm hx hfree hx
  simp only [takeBlock, toNat_toUInt32_of_lt_size hx, Function.update_apply]
  split_ifs with h1 h2 <;> first | rfl | (subst_vars; rfl)

/-- **Taking a block marks it and no other.** -/
theorem inUse_takeBlock {s : FsSt} (hbm : BitmapOK sb s.disk) {x : ℕ} (hx : x < sb.size.toNat)
    (hfree : inUse sb s.disk x = false) {y : ℕ} (hy : y < sb.size.toNat) :
    inUse sb (takeBlock sb s x).disk y = (decide (y = x) || inUse sb s.disk y) := by
  have hbB : BPB = 8192 := rfl
  unfold inUse
  rw [takeBlock_disk hl hbm hx hfree, if_neg (ne_BBLOCK_of_free hl hbm hx hfree hy)]
  split_ifs with hb
  · -- the same bitmap block: the bit of `y` is the bit of `x` only for `y = x`
    have hlen := hbm.len x hx
    rw [← hb] at hlen
    rw [bitAt_setBit (by rw [hlen]; simp only [BSIZE, hbB] at *; omega)]
    rw [BBLOCK_toNat hl hy, BBLOCK_toNat hl hx] at hb
    have hiff : y % BPB = x % BPB ↔ y = x := by
      constructor
      · intro hm; rw [hbB] at hm hb; omega
      · rintro rfl; rfl
    simp only [hiff]
  · have hyx : y ≠ x := by rintro rfl; exact hb rfl
    simp [hyx]

theorem bitmapOK_takeBlock {s : FsSt} (hbm : BitmapOK sb s.disk) {x : ℕ} (hx : x < sb.size.toNat)
    (hfree : inUse sb s.disk x = false) : BitmapOK sb (takeBlock sb s x).disk where
  len y hy := by
    have hbB : BPB = 8192 := rfl
    rw [takeBlock_disk hl hbm hx hfree, if_neg (ne_BBLOCK_of_free hl hbm hx hfree hy)]
    split_ifs with hb
    · rw [setBit, store8, writeAt_length (by rw [hbm.len y hy]; simp only [BSIZE, hbB] at *; simp; omega),
        hbm.len y hy]
    · exact hbm.len y hy
  free_data y hy hf := by
    rw [inUse_takeBlock hl hbm hx hfree hy, Bool.or_eq_false_iff] at hf
    exact hbm.free_data y hy hf.2

/-- The free blocks after taking `x` are those before, less `x`. -/
theorem freeList_takeBlock {s : FsSt} (hbm : BitmapOK sb s.disk) {x : ℕ} (hx : x < sb.size.toNat)
    (hfree : inUse sb s.disk x = false) :
    freeList sb (takeBlock sb s x).disk = (freeList sb s.disk).erase x := by
  rw [freeList, freeList, ((List.nodup_range).filter _).erase_eq_filter, List.filter_filter]
  refine List.filter_congr fun y hy => ?_
  rw [List.mem_range] at hy
  rw [inUse_takeBlock hl hbm hx hfree hy]
  by_cases hyx : y = x <;> simp [hyx]

end Layout

end Fs

end Xv6Net
