import Xv6Net.Fs.Layout

/-!
# `mkfs`

The host program that builds the initial disk image: the superblock, the root directory with
its `.` and `..` entries, one inode and one root entry for each input file with the file's
content, the root directory's size rounded up to a whole block, and the bitmap with the blocks
it used marked.  Blocks and inodes are handed out in order (`freeblock`, `freeinode`), the
first data block being the one after the metadata (`nmeta`).

`mkfs` aborts on a failed `assert` and exits on a failed host read (`die`); both are `none`.
A host read of a sector past the end of the image file fails, so `St.nsect` keeps the file's
length in sectors.
-/

namespace Xv6Net

namespace Fs

namespace Mkfs

open Bytes

def NINODES : ℕ := 200

/-- `param.h`. -/
def FSSIZE : ℕ := 2000

def nbitmap : ℕ := FSSIZE / BPB + 1

def ninodeblocks : ℕ := NINODES / IPB + 1

/-- The header block followed by `LOGBLOCKS` blocks. -/
def nlog : ℕ := LOGBLOCKS + 1

/-- Boot block, superblock, log, inode blocks and bitmap blocks. -/
def nmeta : ℕ := 2 + nlog + ninodeblocks + nbitmap

def nblocks : ℕ := FSSIZE - nmeta

/-- The superblock `mkfs` writes. -/
def sb : Superblock :=
  ⟨FSMAGIC, FSSIZE.toUInt32, nblocks.toUInt32, NINODES.toUInt32, nlog.toUInt32, 2,
    (2 + nlog).toUInt32, (2 + nlog + ninodeblocks).toUInt32⟩

/-- The image file as `mkfs` builds it. -/
structure St where
  disk : Disk
  nsect : ℕ
  freeinode : UInt32
  freeblock : UInt32

abbrev M := StateT St Option

def zeroes : List UInt8 := List.replicate BSIZE 0

def wsect (sec : ℕ) (buf : List UInt8) : M Unit :=
  modify fun s => { s with disk := Function.update s.disk sec buf, nsect := max s.nsect (sec + 1) }

/-- `rsect`: `die("read")` past the end of the file. -/
def rsect (sec : ℕ) : M (List UInt8) := do
  let s ← get
  if sec < s.nsect then pure (s.disk sec) else failure

def winode (inum : UInt32) (din : DInode) : M Unit := do
  let bn := (IBLOCK inum sb).toNat
  let buf ← rsect bn
  wsect bn (putDinode buf inum din)

def rinode (inum : UInt32) : M DInode := do
  let buf ← rsect (IBLOCK inum sb).toNat
  pure (parseDinode (slice buf (dinodeOff inum) 64))

/-- `ialloc(type)`: the next inode, with one link and size `0`. -/
def ialloc (type : Int16) : M UInt32 := do
  let s ← get
  let inum := s.freeinode
  set { s with freeinode := inum + 1 }
  winode inum { DInode.zero with type := type, nlink := 1 }
  pure inum

/-- `balloc(used)`: the bitmap block with the first `used` blocks marked. -/
def balloc (used : ℕ) : M Unit := do
  if used < BPB then
    wsect sb.bmapstart.toNat ((List.range used).foldl setBit zeroes)
  else failure

/-- `freeblock++`. -/
def nextBlock : M UInt32 := do
  let s ← get
  set { s with freeblock := s.freeblock + 1 }
  pure s.freeblock

/-- The block of file block `fbn` of `din`, allocated if it has none. -/
def fileBlock (din : DInode) (fbn : ℕ) : M (DInode × UInt32) := do
  if h : fbn < NDIRECT then
    let k : Fin (NDIRECT + 1) := ⟨fbn, by omega⟩
    if din.addrs k = 0 then do
      let b ← nextBlock
      pure ({ din with addrs := Function.update din.addrs k b }, b)
    else pure (din, din.addrs k)
  else do
    let din ← if din.addrs (Fin.last NDIRECT) = 0 then do
        let b ← nextBlock
        pure { din with addrs := Function.update din.addrs (Fin.last NDIRECT) b }
      else pure din
    let ind := (din.addrs (Fin.last NDIRECT)).toNat
    let indirect ← rsect ind
    if indirectAt indirect (fbn - NDIRECT) = 0 then do
      let b ← nextBlock
      wsect ind (store32 indirect (4 * (fbn - NDIRECT)) b)
      pure (din, b)
    else pure (din, indirectAt indirect (fbn - NDIRECT))

/-- The loop of `iappend`: `p` is what is left to append, at offset `off`. -/
def iappendLoop (din : DInode) : ℕ → UInt32 → List UInt8 → M (DInode × UInt32)
  | 0, off, _ => pure (din, off)
  | fuel + 1, off, p =>
    if p = [] then pure (din, off)
    else do
      let fbn := off.toNat / BSIZE
      if fbn < MAXFILE then do
        let (din, x) ← fileBlock din fbn
        let n1 := min p.length ((fbn + 1) * BSIZE - off.toNat)
        let buf ← rsect x.toNat
        wsect x.toNat (writeAt buf (off.toNat - fbn * BSIZE) (p.take n1))
        iappendLoop din fuel (off + n1.toUInt32) (p.drop n1)
      else failure

/-- `iappend(inum, p, n)`. -/
def iappend (inum : UInt32) (p : List UInt8) : M Unit := do
  let din ← rinode inum
  -- each round appends at least one byte
  let (din, off) ← iappendLoop din (p.length + 1) din.size p
  winode inum { din with size := off }

/-- A file given to `mkfs`: its name on the command line and its content. -/
structure InFile where
  arg : List UInt8
  content : List UInt8

/-- The name of the root entry of a file: without a leading `user/` and then a leading `_`;
`mkfs` asserts that it has no `/` and at most `DIRSIZ` bytes. -/
def shortname (arg : List UInt8) : Option (List UInt8) :=
  let s := if arg.take 5 = "user/".toUTF8.toList then arg.drop 5 else arg
  if '/'.toUInt8 ∈ s then none
  else
    let s := if s.head? = some '_'.toUInt8 then s.tail else s
    if s.length ≤ DIRSIZ then some s else none

/-- The root entry of inode `inum` named `name`. -/
def direntBytes (inum : UInt32) (name : List UInt8) : List UInt8 :=
  encodeDirent ⟨inum.toUInt16, strncpyName name, strncpyName_length name⟩

/-- `read(fd, buf, sizeof(buf))` until it returns `0`: the content in pieces of at most
`BSIZE` bytes. -/
def chunks : ℕ → List UInt8 → List (List UInt8)
  | 0, _ => []
  | fuel + 1, c => if c = [] then [] else c.take BSIZE :: chunks fuel (c.drop BSIZE)

/-- The loop of `main` over the input files. -/
def addFiles (rootino : UInt32) : List InFile → M Unit
  | [] => pure ()
  | f :: fs => do
    match shortname f.arg with
    | none => failure
    | some name => do
      let inum ← ialloc T_FILE
      iappend rootino (direntBytes inum name)
      for c in chunks (f.content.length + 1) f.content do
        iappend inum c
      addFiles rootino fs

/-- `main` after opening the image: the image built from `files`. -/
def build (files : List InFile) : M Unit := do
  for i in List.range FSSIZE do
    wsect i zeroes
  wsect 1 (writeAt zeroes 0 (encodeSuperblock sb))
  let rootino ← ialloc T_DIR
  if rootino ≠ ROOTINO then failure
  iappend rootino (direntBytes rootino ".".toUTF8.toList)
  iappend rootino (direntBytes rootino "..".toUTF8.toList)
  addFiles rootino files
  -- fix size of root inode dir
  let din ← rinode rootino
  let off := (din.size / BSIZE.toUInt32 + 1) * BSIZE.toUInt32
  winode rootino { din with size := off }
  balloc (← get).freeblock.toNat

/-- The disk image `mkfs fs.img files` writes, or `none` when it aborts. -/
def mkfs (files : List InFile) : Option Disk :=
  (build files).run ⟨fun _ => [], 0, 1, nmeta.toUInt32⟩ |>.map fun r => r.2.disk

end Mkfs

end Fs

end Xv6Net
