import Mathlib.Data.List.FinRange
import Xv6Net.Fs.Layout

/-!
# Blocks and inodes (`fs.c`)

The kernel's file-system code inside one transaction.  A call sees the disk through the buffer
cache, so `bread` of a block returns what the call last wrote into it; every buffer it changes it
hands to `log_write`, which is recorded in `FsSt.writes` and becomes the block's contents on the
disk when the transaction commits (`Fs.Log`).  A `panic` stops the call: `FsM` is a state monad
over `Except String`, the error being the panic's message.

The in-memory inodes are the table `itable` of `NINODE` entries, `struct inode` without `dev`
(there is one disk) and without its sleep-lock (one call runs at a time here).

* `balloc`, `bfree`, `bzero` : the block allocator on the bitmap.
* `iget`, `idup`, `ilock`, `iunlock`, `iput`, `iupdate`, `ialloc` : the inode table and the
  on-disk inodes.
* `bmap`, `itrunc`, `readi` : the blocks of an inode's content.
-/

namespace Xv6Net

namespace Fs

open Bytes

def NINODE : ℕ := 50

/-- `struct inode`, without `dev` and the sleep-lock. -/
structure Inode where
  inum : UInt32
  ref : ℤ
  valid : Bool
  type : Int16
  major : Int16
  minor : Int16
  nlink : Int16
  size : UInt32
  addrs : Fin (NDIRECT + 1) → UInt32

/-- The on-disk fields of an in-memory inode. -/
def Inode.dinode (i : Inode) : DInode := ⟨i.type, i.major, i.minor, i.nlink, i.size, i.addrs⟩

/-- What a transaction sees: the blocks as `bread` returns them, the buffers handed to
`log_write` in order, and the inode table. -/
structure FsSt where
  disk : Disk
  writes : List (ℕ × List UInt8)
  itable : Fin NINODE → Inode

abbrev FsM := StateT FsSt (Except String)

/-- `panic(msg)`. -/
def kpanic {α : Type} (msg : String) : FsM α := fun _ => .error msg

def bread (b : UInt32) : FsM (List UInt8) := fun s => .ok (s.disk b.toNat, s)

/-- `log_write(bp)` after the call set the buffer of block `b` to `data`. -/
def logWriteBuf (b : UInt32) (data : List UInt8) : FsM Unit := fun s =>
  .ok ((), { s with disk := Function.update s.disk b.toNat data,
                    writes := s.writes ++ [(b.toNat, data)] })

def iread (ip : Fin NINODE) : FsM Inode := fun s => .ok (s.itable ip, s)

def iwrite (ip : Fin NINODE) (i : Inode) : FsM Unit := fun s =>
  .ok ((), { s with itable := Function.update s.itable ip i })

/-! ### Blocks -/

section Blocks

variable (sb : Superblock)

/-- `bzero`. -/
def bzero (bno : UInt32) : FsM Unit := logWriteBuf bno (List.replicate BSIZE 0)

/-- The inner loop of `balloc`: the first clear bit `bi` of the bitmap block of the blocks from
`b` on, with `bi < BPB` and `b + bi < sb.size`. -/
def freeBit (buf : List UInt8) (b : ℕ) : Option ℕ :=
  (List.range (min BPB (sb.size.toNat - b))).find? fun bi => !bitAt buf bi

/-- The outer loop of `balloc`, from bitmap block `b / BPB` on. -/
def ballocLoop : ℕ → ℕ → FsM UInt32
  | 0, _ => pure 0
  | fuel + 1, b =>
    if b < sb.size.toNat then do
      let buf ← bread (BBLOCK b.toUInt32 sb)
      match freeBit sb buf b with
      | some bi => do
        logWriteBuf (BBLOCK b.toUInt32 sb) (setBit buf bi)
        bzero (b + bi).toUInt32
        pure (b + bi).toUInt32
      | none => ballocLoop fuel (b + BPB)
    else pure 0

/-- `balloc`: a zeroed block marked in use, or `0` when none is free. -/
def balloc : FsM UInt32 := ballocLoop sb (sb.size.toNat / BPB + 1) 0

/-- `bfree`. -/
def bfree (b : UInt32) : FsM Unit := do
  let buf ← bread (BBLOCK b sb)
  let bi := b.toNat % BPB
  if bitAt buf bi = false then kpanic "freeing free block"
  else logWriteBuf (BBLOCK b sb) (clearBit buf bi)

end Blocks

/-! ### The inode table -/

section Inodes

variable (sb : Superblock)

/-- `iget`: the entry holding `inum` with one more reference, or else the first unused entry,
now holding `inum` and not yet read from the disk. -/
def iget (inum : UInt32) : FsM (Fin NINODE) := do
  let s ← get
  match (List.finRange NINODE).find? (fun j => 0 < (s.itable j).ref ∧ (s.itable j).inum = inum) with
  | some j => do
    iwrite j { s.itable j with ref := (s.itable j).ref + 1 }
    pure j
  | none =>
    match (List.finRange NINODE).find? (fun j => (s.itable j).ref = 0) with
    | none => kpanic "iget: no inodes"
    | some j => do
      iwrite j { s.itable j with inum := inum, ref := 1, valid := false }
      pure j

/-- `iget` panics when every entry of the table is referenced and none holds `inum`. -/
theorem iget_no_inodes {s : FsSt} {inum : UInt32}
    (hfull : ∀ j, 0 < (s.itable j).ref ∧ (s.itable j).inum ≠ inum) :
    iget inum s = .error "iget: no inodes" := by
  -- neither loop of `iget` finds an entry
  have h1 : (List.finRange NINODE).find?
      (fun j => decide (0 < (s.itable j).ref ∧ (s.itable j).inum = inum)) = none := by
    rw [List.find?_eq_none]
    intro j _
    simp [(hfull j).2]
  have h2 : (List.finRange NINODE).find? (fun j => decide ((s.itable j).ref = 0)) = none := by
    rw [List.find?_eq_none]
    intro j _
    have := (hfull j).1
    simp only [decide_eq_true_eq]
    omega
  simp only [iget, bind, StateT.bind, get, getThe, MonadStateOf.get, StateT.get, pure,
    Except.pure, Except.bind, h1, h2]
  rfl

/-- `idup`. -/
def idup (ip : Fin NINODE) : FsM (Fin NINODE) := do
  let i ← iread ip
  iwrite ip { i with ref := i.ref + 1 }
  pure ip

/-- `ilock`: an entry not yet read from the disk gets the fields of its on-disk inode. -/
def ilock (ip : Fin NINODE) : FsM Unit := do
  let i ← iread ip
  if i.ref < 1 then kpanic "ilock"
  else if i.valid then pure ()
  else do
    let buf ← bread (IBLOCK i.inum sb)
    let d := parseDinode (slice buf (dinodeOff i.inum) 64)
    iwrite ip { i with type := d.type, major := d.major, minor := d.minor, nlink := d.nlink,
                       size := d.size, addrs := d.addrs, valid := true }
    if d.type = 0 then kpanic "ilock: no type" else pure ()

/-- `iunlock`: of the checks, the one on the reference count (locks are not modelled). -/
def iunlock (ip : Fin NINODE) : FsM Unit := do
  let i ← iread ip
  if i.ref < 1 then kpanic "iunlock" else pure ()

/-- `iupdate`: the in-memory fields written to the on-disk inode. -/
def iupdate (ip : Fin NINODE) : FsM Unit := do
  let i ← iread ip
  let buf ← bread (IBLOCK i.inum sb)
  logWriteBuf (IBLOCK i.inum sb) (putDinode buf i.inum i.dinode)

/-- The loop of `ialloc` from inode `inum` on: the first free on-disk inode is given `type`. -/
def iallocLoop (type : Int16) : ℕ → UInt32 → FsM (Option (Fin NINODE))
  | 0, _ => pure none
  | fuel + 1, inum =>
    if inum < sb.ninodes then do
      let buf ← bread (IBLOCK inum sb)
      let d := parseDinode (slice buf (dinodeOff inum) 64)
      if d.type = 0 then do
        -- `memset(dip, 0, sizeof(*dip)); dip->type = type;`
        logWriteBuf (IBLOCK inum sb) (putDinode buf inum { DInode.zero with type := type })
        some <$> iget inum
      else iallocLoop type fuel (inum + 1)
    else pure none

/-- `ialloc`: `none` when no inode is free (after `printf("ialloc: no inodes")`). -/
def ialloc (type : Int16) : FsM (Option (Fin NINODE)) :=
  iallocLoop sb type sb.ninodes.toNat 1

/-- Set address `k` of an in-memory inode. -/
def setAddr (ip : Fin NINODE) (k : Fin (NDIRECT + 1)) (a : UInt32) : FsM Unit := do
  let i ← iread ip
  iwrite ip { i with addrs := Function.update i.addrs k a }

/-! ### The content of an inode -/

/-- The indirect part of `bmap`: entry `bn` of the indirect block `ind`, allocated if it is
`0` (and then `0` when no block is free). -/
def bmapIndirect (ind : UInt32) (bn : ℕ) : FsM UInt32 := do
  let buf ← bread ind
  let addr := indirectAt buf bn
  if addr = 0 then do
    let addr ← balloc sb
    if addr ≠ 0 then logWriteBuf ind (store32 buf (4 * bn) addr)
    pure addr
  else pure addr

/-- `bmap`: the disk block of block `bn` of the inode, allocated if there is none; `0` when no
block is free. -/
def bmap (ip : Fin NINODE) (bn : UInt32) : FsM UInt32 := do
  let i ← iread ip
  if h : bn.toNat < NDIRECT then
    let k : Fin (NDIRECT + 1) := ⟨bn.toNat, by omega⟩
    if i.addrs k = 0 then do
      let addr ← balloc sb
      if addr = 0 then pure 0
      else do
        setAddr ip k addr
        pure addr
    else pure (i.addrs k)
  else
    let bn := bn.toNat - NDIRECT
    if bn < NINDIRECT then
      -- load the indirect block, allocating it if necessary
      if i.addrs (Fin.last NDIRECT) = 0 then do
        let addr ← balloc sb
        if addr = 0 then pure 0
        else do
          setAddr ip (Fin.last NDIRECT) addr
          bmapIndirect sb addr bn
      else bmapIndirect sb (i.addrs (Fin.last NDIRECT)) bn
    else kpanic "bmap: out of range"

/-- The direct-block loop of `itrunc`. -/
def itruncDirect (ip : Fin NINODE) : List (Fin (NDIRECT + 1)) → FsM Unit
  | [] => pure ()
  | k :: ks => do
    let i ← iread ip
    if i.addrs k ≠ 0 then do
      bfree sb (i.addrs k)
      setAddr ip k 0
    itruncDirect ip ks

/-- The loop of `itrunc` over the entries of the indirect block `buf`. -/
def itruncIndirect (buf : List UInt8) : List ℕ → FsM Unit
  | [] => pure ()
  | j :: js => do
    if indirectAt buf j ≠ 0 then bfree sb (indirectAt buf j)
    itruncIndirect buf js

/-- `itrunc`: every block of the inode freed, its size `0`, and the inode written back. -/
def itrunc (ip : Fin NINODE) : FsM Unit := do
  itruncDirect sb ip ((List.finRange NDIRECT).map Fin.castSucc)
  let i ← iread ip
  if i.addrs (Fin.last NDIRECT) ≠ 0 then do
    let buf ← bread (i.addrs (Fin.last NDIRECT))
    itruncIndirect sb buf (List.range NINDIRECT)
    bfree sb (i.addrs (Fin.last NDIRECT))
    setAddr ip (Fin.last NDIRECT) 0
  let i ← iread ip
  iwrite ip { i with size := 0 }
  iupdate sb ip

/-- `iput`: the last reference to an inode with no links frees it on the disk. -/
def iput (ip : Fin NINODE) : FsM Unit := do
  let i ← iread ip
  if i.ref = 1 ∧ i.valid ∧ i.nlink = 0 then do
    itrunc sb ip
    let i ← iread ip
    iwrite ip { i with type := 0 }
    iupdate sb ip
    let i ← iread ip
    iwrite ip { i with valid := false }
  let i ← iread ip
  iwrite ip { i with ref := i.ref - 1 }

/-- `iunlockput`. -/
def iunlockput (ip : Fin NINODE) : FsM Unit := do
  iunlock ip
  iput sb ip

/-- The loop of `readi` into a kernel buffer: `tot` bytes read so far, at offset `off`, of `n`. -/
def readiLoop (ip : Fin NINODE) : ℕ → UInt32 → UInt32 → UInt32 → List UInt8 →
    FsM (UInt32 × List UInt8)
  | 0, tot, _, _, acc => pure (tot, acc)
  | fuel + 1, tot, off, n, acc =>
    if tot < n then do
      let addr ← bmap sb ip (off / BSIZE.toUInt32)
      if addr = 0 then pure (tot, acc)
      else do
        let buf ← bread addr
        let m := min (n - tot) (BSIZE.toUInt32 - off % BSIZE.toUInt32)
        readiLoop ip fuel (tot + m) (off + m) n
          (acc ++ slice buf (off % BSIZE.toUInt32).toNat m.toNat)
    else pure (tot, acc)

/-- `readi` into a kernel buffer: the number of bytes read and the bytes. -/
def readi (ip : Fin NINODE) (off n : UInt32) : FsM (UInt32 × List UInt8) := do
  let i ← iread ip
  if off > i.size ∨ off + n < off then pure (0, [])
  else
    let n := if off + n > i.size then i.size - off else n
    -- each round reads at least one byte
    readiLoop sb ip (n.toNat + 1) 0 off n []

end Inodes

/-! ### Running the calls -/

section Run

variable {α β : Type} {s : FsSt}

@[simp] theorem pure_run (a : α) : (pure a : FsM α) s = .ok (a, s) := rfl

@[simp] theorem iread_run (ip : Fin NINODE) : iread ip s = .ok (s.itable ip, s) := rfl

@[simp] theorem bread_run (b : UInt32) : bread b s = .ok (s.disk b.toNat, s) := rfl

theorem bind_run {x : FsM α} {a : α} {s' : FsSt} (h : x s = .ok (a, s')) (f : α → FsM β) :
    (x >>= f) s = f a s' := by
  simp only [bind, StateT.bind, h]
  rfl

@[simp] theorem bind_pure_run (a : α) (f : α → FsM β) : ((pure a : FsM α) >>= f) s = f a s := rfl

@[simp] theorem bind_iread_run (ip : Fin NINODE) (f : Inode → FsM β) :
    (iread ip >>= f) s = f (s.itable ip) s := rfl

@[simp] theorem bind_bread_run (b : UInt32) (f : List UInt8 → FsM β) :
    (bread b >>= f) s = f (s.disk b.toNat) s := rfl

theorem logWriteBuf_run (b : UInt32) (data : List UInt8) :
    logWriteBuf b data s = .ok ((), { s with
      disk := Function.update s.disk b.toNat data
      writes := s.writes ++ [(b.toNat, data)] }) := rfl

theorem setAddr_run (ip : Fin NINODE) (k : Fin (NDIRECT + 1)) (a : UInt32) :
    setAddr ip k a s = .ok ((), { s with
      itable := Function.update s.itable ip
        { (s.itable ip) with addrs := Function.update (s.itable ip).addrs k a } }) := rfl

end Run

end Fs

end Xv6Net
