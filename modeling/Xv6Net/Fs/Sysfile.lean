import Xv6Net.Fs.Dir

/-!
# Adding and removing directory entries (`fs.c`, `sysfile.c`)

The calls that change the names of the file system, each inside one transaction, for a process
whose current directory is `cwd`:

* `writei` : a kernel buffer written into an inode's content, block by block through `bmap`;
  it stops at a block `bmap` cannot allocate, and writes the inode back in any case.
* `dirlink` : a new entry in the first empty slot of a directory, or at its end.
* `create` : a new inode linked into its parent (with `.` and `..` for a directory), undone on
  its `fail:` path.
* `sysLink`, `sysUnlink`, `sysMkdir`, `sysOpenCreate` : `sys_link`, `sys_unlink`, `sys_mkdir`, and
  `sys_open` with `O_CREATE`.

`fsMachine` is one process making these calls and `chdir`, one transaction each, from a disk
image; a `panic` stops it.  The file table of `sys_open` (`filealloc`, `fdalloc`) is left out:
the opened file keeps its reference to the inode, in `FsProc.files`.
-/

namespace Xv6Net

namespace Fs

open Bytes

/-- `param.h`: the number of major device numbers. -/
def NDEV : ℕ := 10

/-- The names `.` and `..`. -/
def dot : List UInt8 := [46]

def dotdot : List UInt8 := [46, 46]

section Calls

variable (sb : Superblock)

/-- The loop of `writei` from the kernel buffer `src`: `tot` bytes written so far, at offset
`off`, of `n`; it stops at a block that `bmap` cannot allocate.  The bytes written and the
offset reached. -/
def writeiLoop (ip : Fin NINODE) (src : List UInt8) :
    ℕ → UInt32 → UInt32 → UInt32 → FsM (UInt32 × UInt32)
  | 0, tot, off, _ => pure (tot, off)
  | fuel + 1, tot, off, n =>
    if tot < n then do
      let addr ← bmap sb ip (off / BSIZE.toUInt32)
      if addr = 0 then pure (tot, off)
      else do
        let buf ← bread addr
        let m := min (n - tot) (BSIZE.toUInt32 - off % BSIZE.toUInt32)
        logWriteBuf addr (writeAt buf (off % BSIZE.toUInt32).toNat (slice src tot.toNat m.toNat))
        writeiLoop ip src fuel (tot + m) (off + m) n
    else pure (tot, off)

/-- `writei` from a kernel buffer: the number of bytes written, or `-1`. -/
def writei (ip : Fin NINODE) (src : List UInt8) (off n : UInt32) : FsM ℤ := do
  let i ← iread ip
  if off > i.size ∨ off + n < off then pure (-1)
  else if off + n > (MAXFILE * BSIZE).toUInt32 then pure (-1)
  else do
    -- each round writes at least one byte
    let (tot, off) ← writeiLoop sb ip src (n.toNat + 1) 0 off n
    let i ← iread ip
    if off > i.size then iwrite ip { i with size := off }
    -- written back even if the size did not change: `bmap` may have added a block
    iupdate sb ip
    pure tot.toNat

/-- The loop of `dirlink` for an empty entry, from offset `off` on: the offset of the first
one, or the end of the directory. -/
def dirlinkLoop (dp : Fin NINODE) : ℕ → UInt32 → FsM UInt32
  | 0, off => pure off
  | fuel + 1, off => do
    let d ← iread dp
    if off < d.size then do
      let (r, bs) ← readi sb dp off 16
      if r ≠ 16 then kpanic "dirlink read"
      else if (parseDirent bs).inum = 0 then pure off
      else dirlinkLoop dp fuel (off + 16)
    else pure off

/-- `dirlink(dp, name, inum)`: `0`, or `-1` when the name is present or the write fails. -/
def dirlink (dp : Fin NINODE) (name : List UInt8) (inum : UInt32) : FsM ℤ := do
  match ← dirlookup sb dp name with
  | some (ip, _) => do
    iput sb ip
    pure (-1)
  | none => do
    let d ← iread dp
    let off ← dirlinkLoop sb dp (d.size.toNat / 16 + 1) 0
    -- `strncpy(de.name, name, DIRSIZ); de.inum = inum;`
    let de := encodeDirent ⟨inum.toUInt16, strncpyName name, strncpyName_length name⟩
    let r ← writei sb dp de off 16
    pure (if r ≠ 16 then -1 else 0)

/-- The loop of `isdirempty` from offset `off` on. -/
def isdiremptyLoop (dp : Fin NINODE) : ℕ → UInt32 → FsM Bool
  | 0, _ => pure true
  | fuel + 1, off => do
    let d ← iread dp
    if off < d.size then do
      let (r, bs) ← readi sb dp off 16
      if r ≠ 16 then kpanic "isdirempty: readi"
      else if (parseDirent bs).inum ≠ 0 then pure false
      else isdiremptyLoop dp fuel (off + 16)
    else pure true

/-- `isdirempty(dp)`: no entry after `.` and `..`. -/
def isdirempty (dp : Fin NINODE) : FsM Bool := do
  let d ← iread dp
  isdiremptyLoop sb dp (d.size.toNat / 16 + 1) 32

/-- The `fail:` path of `create`: the new inode loses its link, and both inodes are put. -/
def createFail (ip dp : Fin NINODE) : FsM (Option (Fin NINODE)) := do
  let i ← iread ip
  iwrite ip { i with nlink := 0 }
  iupdate sb ip
  iunlockput sb ip
  iunlockput sb dp
  pure none

/-- The `.` and `..` entries of a new directory `ip` in `dp`; `false` when a `dirlink` fails.
No `ip->nlink++` for `.`. -/
def createDots (ip dp : Fin NINODE) : FsM Bool := do
  let i ← iread ip
  if (← dirlink sb ip dot i.inum) < 0 then pure false
  else do
    let d ← iread dp
    let r ← dirlink sb ip dotdot d.inum
    pure (0 ≤ r)

/-- `create(path, type, major, minor)`: the inode, locked, or `none`. -/
def create (cwd : Fin NINODE) (path : List UInt8) (type major minor : Int16) :
    FsM (Option (Fin NINODE)) := do
  match ← nameiparent sb cwd path with
  | (none, _) => pure none
  | (some dp, name) => do
    ilock sb dp
    match ← dirlookup sb dp name with
    | some (ip, _) => do
      iunlockput sb dp
      ilock sb ip
      let i ← iread ip
      if type = T_FILE ∧ (i.type = T_FILE ∨ i.type = T_DEVICE) then pure (some ip)
      else do
        iunlockput sb ip
        pure none
    | none => do
      match ← ialloc sb type with
      | none => do
        iunlockput sb dp
        pure none
      | some ip => do
        ilock sb ip
        let i ← iread ip
        iwrite ip { i with major := major, minor := minor, nlink := 1 }
        iupdate sb ip
        let dots ← if type = T_DIR then createDots sb ip dp else pure true
        if !dots then createFail sb ip dp
        else do
          let i ← iread ip
          let r ← dirlink sb dp name i.inum
          if r < 0 then createFail sb ip dp
          else do
            if type = T_DIR then do
              -- now that success is guaranteed: `dp->nlink++` for `..`
              let d ← iread dp
              iwrite dp { d with nlink := d.nlink + 1 }
              iupdate sb dp
            iunlockput sb dp
            pure (some ip)

/-- The `bad:` path of `sys_link`: the link taken is given back. -/
def linkBad (ip : Fin NINODE) : FsM ℤ := do
  ilock sb ip
  let i ← iread ip
  iwrite ip { i with nlink := i.nlink - 1 }
  iupdate sb ip
  iunlockput sb ip
  pure (-1)

/-- `sys_link(old, new)` inside its transaction.  There is one device, so `dp->dev != ip->dev`
never holds. -/
def sysLink (cwd : Fin NINODE) (old new : List UInt8) : FsM ℤ := do
  match ← namei sb cwd old with
  | none => pure (-1)
  | some ip => do
    ilock sb ip
    let i ← iread ip
    if i.type = T_DIR then do
      iunlockput sb ip
      pure (-1)
    else do
      iwrite ip { i with nlink := i.nlink + 1 }
      iupdate sb ip
      iunlock ip
      match ← nameiparent sb cwd new with
      | (none, _) => linkBad sb ip
      | (some dp, name) => do
        ilock sb dp
        let i ← iread ip
        if (← dirlink sb dp name i.inum) < 0 then do
          iunlockput sb dp
          linkBad sb ip
        else do
          iunlockput sb dp
          iput sb ip
          pure 0

/-- The `bad:` path of `sys_unlink`. -/
def unlinkBad (dp : Fin NINODE) : FsM ℤ := do
  iunlockput sb dp
  pure (-1)

/-- The rest of `sys_unlink` once the entry of `ip` at `off` in `dp` may go: the entry zeroed,
and the links it stood for dropped. -/
def unlinkEntry (dp ip : Fin NINODE) (off : UInt32) : FsM ℤ := do
  let r ← writei sb dp (List.replicate 16 0) off 16
  if r ≠ 16 then kpanic "unlink: writei"
  else do
    let i ← iread ip
    if i.type = T_DIR then do
      let d ← iread dp
      iwrite dp { d with nlink := d.nlink - 1 }
      iupdate sb dp
    iunlockput sb dp
    let i ← iread ip
    iwrite ip { i with nlink := i.nlink - 1 }
    iupdate sb ip
    iunlockput sb ip
    pure 0

/-- `sys_unlink(path)` inside its transaction. -/
def sysUnlink (cwd : Fin NINODE) (path : List UInt8) : FsM ℤ := do
  match ← nameiparent sb cwd path with
  | (none, _) => pure (-1)
  | (some dp, name) => do
    ilock sb dp
    -- cannot unlink `.` or `..`
    if namecmp name dot = 0 ∨ namecmp name dotdot = 0 then unlinkBad sb dp
    else
      match ← dirlookup sb dp name with
      | none => unlinkBad sb dp
      | some (ip, off) => do
        ilock sb ip
        let i ← iread ip
        if i.nlink < 1 then kpanic "unlink: nlink < 1"
        else if i.type = T_DIR then do
          if ← isdirempty sb ip then unlinkEntry sb dp ip off
          else do
            iunlockput sb ip
            unlinkBad sb dp
        else unlinkEntry sb dp ip off

/-- `sys_mkdir(path)` inside its transaction. -/
def sysMkdir (cwd : Fin NINODE) (path : List UInt8) : FsM ℤ := do
  match ← create sb cwd path T_DIR 0 0 with
  | none => pure (-1)
  | some ip => do
    iunlockput sb ip
    pure 0

/-- `sys_open(path, O_CREATE | O_RDWR)` inside its transaction, without the file table: the
inode that the new file refers to, or `none` for `-1`. -/
def sysOpenCreate (cwd : Fin NINODE) (path : List UInt8) : FsM (Option (Fin NINODE)) := do
  match ← create sb cwd path T_FILE 0 0 with
  | none => pure none
  | some ip => do
    let i ← iread ip
    if i.type = T_DEVICE ∧ (i.major < 0 ∨ NDEV ≤ i.major.toInt.toNat) then do
      iunlockput sb ip
      pure none
    else do
      iunlock ip
      pure (some ip)

end Calls

/-! ### One process -/

/-- A process: what its transactions see, its current directory, and the inodes of the files
it opened. -/
structure FsProc where
  st : FsSt
  cwd : Fin NINODE
  files : List (Fin NINODE)

/-- A call of the process. -/
inductive FsOp
  | mkdir (path : List UInt8)
  | chdir (path : List UInt8)
  | unlink (path : List UInt8)
  | link (old new : List UInt8)
  | openCreate (path : List UInt8)

/-- One call in its transaction, which commits at `end_op`: the log is then empty, and the disk
holds what the call wrote.  The call's return value; `none` is a `panic`. -/
def fsStep (sb : Superblock) (p : FsProc) : FsOp → Option (FsProc × ℤ)
  | .mkdir path =>
    match sysMkdir sb p.cwd path p.st with
    | .ok (r, st) => some ({ p with st := { st with writes := [] } }, r)
    | .error _ => none
  | .chdir path =>
    match sysChdir sb p.cwd path p.st with
    | .ok ((r, cwd), st) => some ({ p with st := { st with writes := [] }, cwd := cwd }, r)
    | .error _ => none
  | .unlink path =>
    match sysUnlink sb p.cwd path p.st with
    | .ok (r, st) => some ({ p with st := { st with writes := [] } }, r)
    | .error _ => none
  | .link old new =>
    match sysLink sb p.cwd old new p.st with
    | .ok (r, st) => some ({ p with st := { st with writes := [] } }, r)
    | .error _ => none
  | .openCreate path =>
    match sysOpenCreate sb p.cwd path p.st with
    | .ok (none, st) => some ({ p with st := { st with writes := [] } }, -1)
    | .ok (some ip, st) =>
      some ({ p with st := { st with writes := [] }, files := p.files ++ [ip] }, p.files.length)
    | .error _ => none

/-- The first process on a disk: an empty inode table, and its current directory `/` from
`namei("/")`; `none` if that panics. -/
def fsBoot (disk : Disk) : Option FsProc :=
  let st : FsSt := ⟨disk, [], fun _ => ⟨0, 0, false, 0, 0, 0, 0, 0, fun _ => 0⟩⟩
  match iget ROOTINO st with
  | .ok (ip, st) => some ⟨st, ip, []⟩
  | .error _ => none

/-- One process calling from `p₀`, on the superblock `sb`. -/
def fsMachine (sb : Superblock) (p₀ : FsProc) : Machine (Option FsProc) FsOp (Option ℤ) :=
  Machine.ofPartial p₀ (fsStep sb)

end Fs

end Xv6Net
