import Mathlib.Data.List.OfFn
import Mathlib.Data.Nat.Bitwise
import Xv6Net.Fs.Log

/-!
# The on-disk file system (`fs.h`)

The structures of the file system as bytes in the blocks of a `Disk`, laid out as `mkfs` writes
them and the kernel reads them: the superblock at the start of block `1`; `struct dinode`,
64 bytes, `IPB` of them to an inode block from `sb.inodestart` on; one bit per block in the
bitmap blocks from `sb.bmapstart` on; an indirect block of `NINDIRECT` 32-bit block numbers;
and `struct dirent`, 16 bytes, in the blocks of a directory.  Fields are little-endian, and
have the C types of the source (`short` is `Int16`, `uint` is `UInt32`).

* `parseDinode` / `encodeDinode` : a `struct dinode` read from and written as its 64 bytes;
  `parseDinode_encodeDinode` is the round trip.
* `dinodeAt` / `putDinode` : inode `inum` in its inode block, as `dip = (struct dinode*)
  bp->data + inum % IPB` reads and writes it.
* `bitAt` / `setBit` / `clearBit` : a bit of a bitmap block, as `balloc` and `bfree` test and
  change it.
* `parseDirent` / `encodeDirent`, `indirectAt` : directory entries and indirect entries.
-/

namespace Xv6Net

namespace Fs

open Bytes

def ROOTINO : UInt32 := 1

def NDIRECT : ℕ := 12

/-- `BSIZE / sizeof(uint)`. -/
def NINDIRECT : ℕ := BSIZE / 4

def MAXFILE : ℕ := NDIRECT + NINDIRECT

/-- `BSIZE / sizeof(struct dinode)`: a `struct dinode` is 64 bytes. -/
def IPB : ℕ := BSIZE / 64

/-- Bitmap bits per block. -/
def BPB : ℕ := BSIZE * 8

def DIRSIZ : ℕ := 14

def FSMAGIC : UInt32 := 0x10203040

/-- `stat.h`. -/
def T_DIR : Int16 := 1

def T_FILE : Int16 := 2

def T_DEVICE : Int16 := 3

/-! ### The superblock -/

/-- `struct superblock`. -/
structure Superblock where
  magic : UInt32
  size : UInt32
  nblocks : UInt32
  ninodes : UInt32
  nlog : UInt32
  logstart : UInt32
  inodestart : UInt32
  bmapstart : UInt32
  deriving DecidableEq, Repr

/-- The 32 bytes of `struct superblock`. -/
def encodeSuperblock (sb : Superblock) : List UInt8 :=
  le32 sb.magic ++ le32 sb.size ++ le32 sb.nblocks ++ le32 sb.ninodes ++ le32 sb.nlog ++
    le32 sb.logstart ++ le32 sb.inodestart ++ le32 sb.bmapstart

/-- `readsb`: `memmove(sb, bp->data, sizeof(*sb))` from block `1`. -/
def readsb (disk : Disk) : Superblock :=
  let buf := disk 1
  ⟨load32 buf 0, load32 buf 4, load32 buf 8, load32 buf 12, load32 buf 16, load32 buf 20,
    load32 buf 24, load32 buf 28⟩

/-- The block holding inode `i`. -/
def IBLOCK (i : UInt32) (sb : Superblock) : UInt32 := i / IPB.toUInt32 + sb.inodestart

/-- The bitmap block holding the bit of block `b`. -/
def BBLOCK (b : UInt32) (sb : Superblock) : UInt32 := b / BPB.toUInt32 + sb.bmapstart

/-! ### Inodes -/

/-- `struct dinode`. -/
structure DInode where
  type : Int16
  major : Int16
  minor : Int16
  nlink : Int16
  size : UInt32
  addrs : Fin (NDIRECT + 1) → UInt32

/-- The free inode: all bytes zero. -/
def DInode.zero : DInode := ⟨0, 0, 0, 0, 0, fun _ => 0⟩

/-- The 64 bytes of a `struct dinode`. -/
def encodeDinode (d : DInode) : List UInt8 :=
  le16 d.type.toUInt16 ++ le16 d.major.toUInt16 ++ le16 d.minor.toUInt16 ++
    le16 d.nlink.toUInt16 ++ le32 d.size ++ ((List.ofFn d.addrs).map le32).flatten

/-- The fields of a `struct dinode` read from its bytes. -/
def parseDinode (bs : List UInt8) : DInode :=
  ⟨(load16 bs 0).toInt16, (load16 bs 2).toInt16, (load16 bs 4).toInt16, (load16 bs 6).toInt16,
    load32 bs 8, fun k => load32 bs (12 + 4 * k)⟩

/-- Offset of inode `inum` in its inode block. -/
def dinodeOff (inum : UInt32) : ℕ := 64 * (inum.toNat % IPB)

/-- Inode `inum` of the disk. -/
def dinodeAt (disk : Disk) (sb : Superblock) (inum : UInt32) : DInode :=
  parseDinode (slice (disk (IBLOCK inum sb).toNat) (dinodeOff inum) 64)

/-- The inode block of `inum` with `d` written over the inode. -/
def putDinode (buf : List UInt8) (inum : UInt32) (d : DInode) : List UInt8 :=
  writeAt buf (dinodeOff inum) (encodeDinode d)

/-! ### Bitmap, indirect blocks and directory entries -/

/-- `m = 1 << (bi % 8)`. -/
def bitMask (bi : ℕ) : UInt8 := (1 : UInt8) <<< (bi % 8).toUInt8

/-- `(bp->data[bi/8] & m) != 0`: bit `bi` of a bitmap block is set. -/
def bitAt (buf : List UInt8) (bi : ℕ) : Bool := byteAt buf (bi / 8) &&& bitMask bi != 0

/-- `bp->data[bi/8] |= m`. -/
def setBit (buf : List UInt8) (bi : ℕ) : List UInt8 :=
  store8 buf (bi / 8) (byteAt buf (bi / 8) ||| bitMask bi)

/-- `bp->data[bi/8] &= ~m`. -/
def clearBit (buf : List UInt8) (bi : ℕ) : List UInt8 :=
  store8 buf (bi / 8) (byteAt buf (bi / 8) &&& ~~~(bitMask bi))

/-- Entry `j` of an indirect block, `((uint*)bp->data)[j]`. -/
def indirectAt (buf : List UInt8) (j : ℕ) : UInt32 := load32 buf (4 * j)

/-- `struct dirent`: an inode number and a name of exactly `DIRSIZ` bytes. -/
structure Dirent where
  inum : UInt16
  name : List UInt8
  name_length : name.length = DIRSIZ

/-- The 16 bytes of a `struct dirent`. -/
def encodeDirent (de : Dirent) : List UInt8 := le16 de.inum ++ de.name

/-- A `struct dirent` read from its bytes. -/
def parseDirent (bs : List UInt8) : Dirent := ⟨load16 bs 0, slice bs 2 DIRSIZ, slice_length _ _ _⟩

/-- `strncpy(de.name, s, DIRSIZ)`: the bytes of `s` up to its first `NUL`, at most `DIRSIZ` of
them, then `NUL`s. -/
def strncpyName (s : List UInt8) : List UInt8 :=
  let t := (s.takeWhile (· ≠ 0)).take DIRSIZ
  t ++ List.replicate (DIRSIZ - t.length) 0

theorem strncpyName_length (s : List UInt8) : (strncpyName s).length = DIRSIZ := by
  have : ((s.takeWhile (· ≠ 0)).take DIRSIZ).length ≤ DIRSIZ := List.length_take_le _ _
  simp only [strncpyName, List.length_append, List.length_replicate]
  omega

/-! ### Reading back what was written -/

theorem length_flatten_le32 (xs : List UInt32) : (xs.map le32).flatten.length = 4 * xs.length := by
  induction xs with
  | nil => rfl
  | cons x xs ih =>
    simp only [List.map_cons, List.flatten_cons, List.length_append, le32_length, ih,
      List.length_cons]
    omega

@[simp] theorem encodeDinode_length (d : DInode) : (encodeDinode d).length = 64 := by
  simp only [encodeDinode, List.length_append, le16_length, le32_length, length_flatten_le32,
    List.length_ofFn]
  rfl

/-- The entries of a list of 32-bit words laid out one after another. -/
theorem load32_flatten_le32 (xs : List UInt32) {k : ℕ} (hk : k < xs.length) :
    load32 (xs.map le32).flatten (4 * k) = xs[k] := by
  induction xs generalizing k with
  | nil => simp at hk
  | cons x xs ih =>
    simp only [List.map_cons, List.flatten_cons]
    cases k with
    | zero => simp
    | succ k =>
      rw [show 4 * (k + 1) = (le32 x).length + 4 * k by simp; omega, load32_append_right]
      exact ih (by simpa using hk)

/-- **The inode round trip.**  Reading the bytes of an inode gives the inode back. -/
theorem parseDinode_encodeDinode (d : DInode) : parseDinode (encodeDinode d) = d := by
  obtain ⟨t, ma, mi, nl, sz, ad⟩ := d
  simp only [parseDinode, encodeDinode, List.append_assoc]
  congr 1
  · simp
  · rw [show 2 = (le16 t.toUInt16).length + 0 by rfl, load16_append_right]; simp
  · rw [show 4 = (le16 t.toUInt16 ++ le16 ma.toUInt16).length + 0 by rfl, ← List.append_assoc,
      load16_append_right]; simp
  · rw [show 6 = (le16 t.toUInt16 ++ le16 ma.toUInt16 ++ le16 mi.toUInt16).length + 0 by rfl,
      ← List.append_assoc, ← List.append_assoc, load16_append_right]; simp
  · rw [show 8 = (le16 t.toUInt16 ++ le16 ma.toUInt16 ++ le16 mi.toUInt16 ++
      le16 nl.toUInt16).length + 0 by rfl, ← List.append_assoc, ← List.append_assoc,
      ← List.append_assoc, load32_append_right]; simp
  · funext k
    rw [show 12 + 4 * (k : ℕ) = (le16 t.toUInt16 ++ le16 ma.toUInt16 ++ le16 mi.toUInt16 ++
      le16 nl.toUInt16 ++ le32 sz).length + 4 * k by simp, ← List.append_assoc,
      ← List.append_assoc, ← List.append_assoc, ← List.append_assoc, load32_append_right,
      load32_flatten_le32 _ (by rw [List.length_ofFn]; exact k.isLt), List.getElem_ofFn]

theorem dinodeOff_add_le (inum : UInt32) : dinodeOff inum + 64 ≤ BSIZE := by
  have : inum.toNat % IPB < 16 := Nat.mod_lt _ (by decide)
  unfold dinodeOff BSIZE
  omega

/-- An inode written into its block is read back. -/
theorem dinode_putDinode_self {buf : List UInt8} (hlen : buf.length = BSIZE) (inum : UInt32)
    (d : DInode) : parseDinode (slice (putDinode buf inum d) (dinodeOff inum) 64) = d := by
  have h := dinodeOff_add_le inum
  rw [putDinode, show 64 = (encodeDinode d).length from (encodeDinode_length d).symm,
    slice_writeAt_self (by rw [encodeDinode_length, hlen]; exact h), parseDinode_encodeDinode]

/-- An inode of the same block other than the one written is unchanged. -/
theorem dinode_putDinode_of_ne {buf : List UInt8} (hlen : buf.length = BSIZE) {inum inum' : UInt32}
    (hne : inum.toNat % IPB ≠ inum'.toNat % IPB) (d : DInode) :
    slice (putDinode buf inum d) (dinodeOff inum') 64 = slice buf (dinodeOff inum') 64 := by
  have h := dinodeOff_add_le inum
  rw [putDinode, slice_writeAt_of_disjoint (by rw [encodeDinode_length, hlen]; exact h)]
  simp only [dinodeOff, encodeDinode_length]
  omega

theorem putDinode_length {buf : List UInt8} (hlen : buf.length = BSIZE) (inum : UInt32)
    (d : DInode) : (putDinode buf inum d).length = BSIZE := by
  rw [putDinode, writeAt_length (by rw [encodeDinode_length, hlen]; exact dinodeOff_add_le inum),
    hlen]

/-! ### Bits of the bitmap -/

theorem bitMask_toNat (bi : ℕ) : (bitMask bi).toNat = 2 ^ (bi % 8) := by
  have hk : bi % 8 < 8 := Nat.mod_lt _ (by decide)
  have hk' : (bi % 8).toUInt8.toNat % 8 = bi % 8 := by
    rw [Nat.toUInt8, UInt8.toNat_ofNat']
    omega
  rw [bitMask, UInt8.toNat_shiftLeft, hk', UInt8.toNat_one, Nat.one_shiftLeft,
    Nat.mod_eq_of_lt (Nat.pow_lt_pow_right (by decide) hk)]

/-- A bit of the bitmap is a bit of its byte. -/
theorem bitAt_eq_testBit (buf : List UInt8) (bi : ℕ) :
    bitAt buf bi = (byteAt buf (bi / 8)).toNat.testBit (bi % 8) := by
  have h : (byteAt buf (bi / 8) &&& bitMask bi).toNat =
      ((byteAt buf (bi / 8)).toNat.testBit (bi % 8)).toNat * 2 ^ (bi % 8) := by
    rw [UInt8.toNat_and, bitMask_toNat, Nat.and_two_pow]
  unfold bitAt
  cases hb : (byteAt buf (bi / 8)).toNat.testBit (bi % 8)
  · rw [hb, Bool.toNat_false, Nat.zero_mul] at h
    simp [UInt8.toNat_inj.1 (h.trans UInt8.toNat_zero.symm)]
  · rw [hb, Bool.toNat_true, Nat.one_mul] at h
    have hne : byteAt buf (bi / 8) &&& bitMask bi ≠ 0 := by
      intro h0
      rw [h0, UInt8.toNat_zero] at h
      exact absurd h.symm (Nat.two_pow_pos _).ne'
    simp [hne]

/-- **Setting a bit** sets it and leaves the others of the block as they were. -/
theorem bitAt_setBit {buf : List UInt8} {bi : ℕ} (hlen : bi / 8 < buf.length) (bi' : ℕ) :
    bitAt (setBit buf bi) bi' = (decide (bi' = bi) || bitAt buf bi') := by
  rw [bitAt_eq_testBit, bitAt_eq_testBit, setBit, store8, byteAt_writeAt (by simp; omega)]
  split_ifs with hb
  · -- the byte of `bi`: its old bits, and `bi`
    have hq : bi' / 8 = bi / 8 := by simp at hb; omega
    rw [show bi' / 8 - bi / 8 = 0 by omega]
    simp only [byteAt, List.getD_cons_zero]
    rw [UInt8.toNat_or, Nat.testBit_or, bitMask_toNat, Nat.testBit_two_pow, hq]
    by_cases he : bi' = bi
    · simp [he]
    · have hm : bi % 8 ≠ bi' % 8 := by omega
      simp [he, hm]
  · have he : bi' ≠ bi := by rintro rfl; simp at hb
    simp [he]

end Fs

end Xv6Net
