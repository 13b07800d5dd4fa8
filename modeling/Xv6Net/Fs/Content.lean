import Xv6Net.Fs.Sysfile

/-!
# The content of an inode: `readi` and `writei` (`fs.c`)

The bytes of an inode as the kernel reads them: byte `p` is in file block `p / BSIZE`, which
`bmap` finds among the `NDIRECT` direct addresses or in the indirect block, at offset
`p % BSIZE`.  `content` is the `size` bytes of an inode, `seg` a stretch of them.

* `bmap_blockOf` : `bmap` of a file block that has a disk block returns it and changes nothing.
* `readi_spec` : `readi` returns `0` bytes past the end or on a wrap-around of `off + n`, and
  otherwise `min(n, size - off)` bytes of the content from `off`, over every block boundary.
-/

namespace Xv6Net

namespace Fs

open Bytes

/-- The disk block of file block `bn` of `i`, as `bmap` finds it when it allocates nothing: a
direct address, or an entry of the indirect block; `0` for none. -/
def blockOf (disk : Disk) (i : Inode) (bn : ℕ) : UInt32 :=
  if h : bn < NDIRECT then i.addrs (Fin.castSucc ⟨bn, h⟩)
  else if i.addrs (Fin.last NDIRECT) = 0 then 0
  else indirectAt (disk (i.addrs (Fin.last NDIRECT)).toNat) (bn - NDIRECT)

/-- Byte `p` of the content of `i`. -/
def byteOf (disk : Disk) (i : Inode) (p : ℕ) : UInt8 :=
  byteAt (disk (blockOf disk i (p / BSIZE)).toNat) (p % BSIZE)

/-- The `len` bytes of the content of `i` from offset `o`. -/
def seg (disk : Disk) (i : Inode) (o len : ℕ) : List UInt8 :=
  (List.range len).map fun j => byteOf disk i (o + j)

/-- The content of `i`: its `size` bytes. -/
def content (disk : Disk) (i : Inode) : List UInt8 := seg disk i 0 i.size.toNat

/-- Every byte of `[o, o + len)` lies in a file block below `MAXFILE` that has a disk block. -/
def Mapped (disk : Disk) (i : Inode) (o len : ℕ) : Prop :=
  ∀ p, o ≤ p → p < o + len → p / BSIZE < MAXFILE ∧ blockOf disk i (p / BSIZE) ≠ 0

@[simp] theorem seg_length (disk : Disk) (i : Inode) (o len : ℕ) : (seg disk i o len).length = len := by
  simp [seg]

@[simp] theorem seg_zero (disk : Disk) (i : Inode) (o : ℕ) : seg disk i o 0 = [] := rfl

theorem seg_add (disk : Disk) (i : Inode) (o a b : ℕ) :
    seg disk i o (a + b) = seg disk i o a ++ seg disk i (o + a) b := by
  simp only [seg, List.range_add, List.map_append, List.map_map]
  congr 1
  refine List.map_congr_left fun j _ => ?_
  simp [Nat.add_assoc]

/-- A stretch inside one block is a slice of that block. -/
theorem seg_eq_slice {disk : Disk} {i : Inode} {o m : ℕ} (h : o % BSIZE + m ≤ BSIZE) :
    seg disk i o m = slice (disk (blockOf disk i (o / BSIZE)).toNat) (o % BSIZE) m := by
  refine List.map_congr_left fun j hj => ?_
  rw [List.mem_range] at hj
  have hb : BSIZE = 1024 := rfl
  have hdiv : (o + j) / BSIZE = o / BSIZE := by rw [hb] at h ⊢; omega
  have hmod : (o + j) % BSIZE = o % BSIZE + j := by rw [hb] at h ⊢; omega
  rw [byteOf, hdiv, hmod]

/-- What is left of `k` bytes of content from `o`, cut to `len`. -/
theorem take_drop_seg (disk : Disk) (i : Inode) {o k : ℕ} (h : o ≤ k) (len : ℕ) :
    ((seg disk i 0 k).drop o).take len = seg disk i o (min len (k - o)) := by
  rw [show k = o + (k - o) by omega, seg_add, Nat.zero_add, List.drop_left' (seg_length _ _ _ _),
    Nat.add_sub_cancel_left, seg, seg, ← List.map_take, List.take_range]

theorem Mapped.mono {disk : Disk} {i : Inode} {o len o' len' : ℕ} (h : Mapped disk i o len)
    (h1 : o ≤ o') (h2 : o' + len' ≤ o + len) : Mapped disk i o' len' :=
  fun p hp1 hp2 => h p (by omega) (by omega)

section Read

variable (sb : Superblock)

/-- **`bmap` of a mapped block.**  A file block that has a disk block is found, directly or
through the indirect block, and nothing is allocated. -/
theorem bmap_blockOf {s : FsSt} {ip : Fin NINODE} {bn : UInt32} (hbn : bn.toNat < MAXFILE)
    (h : blockOf s.disk (s.itable ip) bn.toNat ≠ 0) :
    bmap sb ip bn s = .ok (blockOf s.disk (s.itable ip) bn.toNat, s) := by
  by_cases hd : bn.toNat < NDIRECT
  · simp only [blockOf, hd, dite_true, Fin.castSucc_mk] at h ⊢
    simp [bmap, hd, h]
  · simp only [blockOf, hd, dite_false] at h ⊢
    split_ifs at h with hind
    · exact absurd rfl h
    · have hlt : bn.toNat - NDIRECT < NINDIRECT := by simp only [MAXFILE] at hbn; omega
      simp [bmap, hd, hlt, hind, bmapIndirect, h]

/-- The chunk of one round of the `readi` and `writei` loops, `min(n - tot, BSIZE - off % BSIZE)`,
as a number. -/
theorem chunk_toNat {tot off n : UInt32} (h : tot ≤ n) :
    (min (n - tot) (BSIZE.toUInt32 - off % BSIZE.toUInt32)).toNat =
      min (n.toNat - tot.toNat) (BSIZE - off.toNat % BSIZE) := by
  have hb : BSIZE.toUInt32.toNat = BSIZE := rfl
  have hm : (off % BSIZE.toUInt32).toNat < BSIZE := by
    rw [UInt32.toNat_mod, hb]; exact Nat.mod_lt _ (by decide)
  rw [UInt32.toNat_min, UInt32.toNat_sub_of_le _ _ h,
    UInt32.toNat_sub_of_le _ _ (UInt32.le_iff_toNat_le.2 (by rw [hb]; omega)), UInt32.toNat_mod, hb]

/-- **The loop of `readi`.**  From `tot` bytes read of `n`, at offset `off`, with enough fuel and
every byte still to read in a mapped block, the loop reads the rest of the `n` bytes of the
content, and changes nothing. -/
theorem readiLoop_spec {s : FsSt} (ip : Fin NINODE) {n : UInt32} :
    ∀ (fuel : ℕ) (tot off : UInt32) (acc : List UInt8), tot ≤ n → (n - tot).toNat < fuel →
      off.toNat + (n - tot).toNat < 2 ^ 32 → Mapped s.disk (s.itable ip) off.toNat (n - tot).toNat →
      readiLoop sb ip fuel tot off n acc s =
        .ok ((n, acc ++ seg s.disk (s.itable ip) off.toNat (n - tot).toNat), s) := by
  intro fuel
  induction fuel with
  | zero => intro _ _ _ _ hf; omega
  | succ fuel ih =>
    intro tot off acc htot hf hov hmap
    have hsub := UInt32.toNat_sub_of_le _ _ htot
    by_cases hlt : tot < n
    · have hlt' := UInt32.lt_iff_toNat_lt.1 hlt
      -- the block of `off` is mapped
      have hdiv : (off / BSIZE.toUInt32).toNat = off.toNat / BSIZE := UInt32.toNat_div _ _
      obtain ⟨hmax, hne⟩ := hmap off.toNat le_rfl (by omega)
      rw [← hdiv] at hmax hne
      have hb : BSIZE = 1024 := rfl
      set m := min (n - tot) (BSIZE.toUInt32 - off % BSIZE.toUInt32)
      have hm : m.toNat = min (n.toNat - tot.toNat) (1024 - off.toNat % 1024) := chunk_toNat htot
      have hm0 : 0 < m.toNat := by rw [hm]; omega
      have hmle : m.toNat ≤ (n - tot).toNat := by rw [hm, hsub]; omega
      have hn := n.toNat_lt
      have htot' : tot + m ≤ n := by
        rw [UInt32.le_iff_toNat_le, UInt32.toNat_add, Nat.mod_eq_of_lt (by omega)]; omega
      have hoff' : (off + m).toNat = off.toNat + m.toNat := by
        rw [UInt32.toNat_add, Nat.mod_eq_of_lt (by omega)]
      have hrest : (n - (tot + m)).toNat = (n - tot).toNat - m.toNat := by
        rw [UInt32.toNat_sub_of_le _ _ htot', UInt32.toNat_add, Nat.mod_eq_of_lt (by omega), hsub]
        omega
      have hrec := ih (tot + m) (off + m) (acc ++ slice (s.disk (blockOf s.disk (s.itable ip)
        (off / BSIZE.toUInt32).toNat).toNat) (off % BSIZE.toUInt32).toNat m.toNat) htot'
        (by rw [hrest]; omega) (by rw [hoff', hrest]; omega)
        (hmap.mono (by rw [hoff']; omega) (by rw [hoff', hrest]; omega))
      rw [readiLoop, if_pos hlt, bind_run (bmap_blockOf sb hmax hne), if_neg hne, bind_bread_run]
      refine hrec.trans ?_
      -- the chunk of this block, then the rest
      have hsplit := seg_add s.disk (s.itable ip) off.toNat m.toNat ((n - tot).toNat - m.toNat)
      rw [Nat.add_sub_cancel' hmle] at hsplit
      rw [hoff', hrest, hsplit, seg_eq_slice (o := off.toNat) (m := m.toNat) (by rw [hb]; omega),
        hdiv, UInt32.toNat_mod, List.append_assoc]
      rfl
    · have heq : tot = n := by
        have := UInt32.le_iff_toNat_le.1 htot
        have := UInt32.lt_iff_toNat_lt.not.1 hlt
        exact UInt32.toNat_inj.1 (by omega)
      subst heq
      simp [readiLoop]

/-- **`readi`.**  Past the end of the content, or when `off + n` wraps around, it reads nothing;
otherwise it reads the content from `off`, `min(n, size - off)` bytes, across every block
boundary and the indirect block, and changes nothing. -/
theorem readi_content {s : FsSt} {ip : Fin NINODE} (off n : UInt32)
    (hmap : Mapped s.disk (s.itable ip) 0 (s.itable ip).size.toNat) :
    readi sb ip off n s =
      if (s.itable ip).size.toNat < off.toNat ∨ 2 ^ 32 ≤ off.toNat + n.toNat then .ok ((0, []), s)
      else
        let bytes := ((content s.disk (s.itable ip)).drop off.toNat).take n.toNat
        .ok ((bytes.length.toUInt32, bytes), s) := by
  set i := s.itable ip
  have hsz := i.size.toNat_lt
  -- the two checks of `readi`, as numbers
  have hchk : (off > i.size ∨ off + n < off) ↔ (i.size.toNat < off.toNat ∨ 2 ^ 32 ≤ off.toNat + n.toNat) := by
    rw [gt_iff_lt, UInt32.lt_iff_toNat_lt, UInt32.lt_iff_toNat_lt, UInt32.toNat_add]
    constructor
    · rintro (h | h)
      · exact .inl h
      · right; by_contra h'; rw [Nat.mod_eq_of_lt (by omega)] at h; omega
    · rintro (h | h)
      · exact .inl h
      · right; have := off.toNat_lt; have := n.toNat_lt; omega
  by_cases hout : i.size.toNat < off.toNat ∨ 2 ^ 32 ≤ off.toNat + n.toNat
  · rw [if_pos hout, readi, bind_iread_run, if_pos (hchk.2 hout)]
    rfl
  · rw [if_neg hout, readi, bind_iread_run, if_neg (mt hchk.1 hout)]
    simp only [not_or, not_lt] at hout
    -- the length `readi` settles on
    set n' := if off + n > i.size then i.size - off else n
    have hn' : n'.toNat = min n.toNat (i.size.toNat - off.toNat) := by
      have hadd : (off + n).toNat = off.toNat + n.toNat := by
        rw [UInt32.toNat_add, Nat.mod_eq_of_lt (by omega)]
      simp only [n', gt_iff_lt, UInt32.lt_iff_toNat_lt, hadd]
      split_ifs with h
      · rw [UInt32.toNat_sub_of_le _ _ (UInt32.le_iff_toNat_le.2 hout.1)]; omega
      · omega
    have hloop := readiLoop_spec sb ip (s := s) (n := n') (n'.toNat + 1) 0 off []
      (UInt32.le_iff_toNat_le.2 (by simp)) (by simp) (by simp; omega)
      (hmap.mono (by omega) (by simp; omega))
    rw [hloop, UInt32.sub_zero, List.nil_append, content, take_drop_seg _ _ hout.1, ← hn']
    simp [i]

end Read

end Fs

end Xv6Net
