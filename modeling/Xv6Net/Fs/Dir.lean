import Xv6Net.Fs.Inode

/-!
# Directories and path names (`fs.c`, `sysfile.c`)

A directory is an inode whose content is a sequence of 16-byte `struct dirent`s; `dirlookup`
reads them one at a time with `readi`.  Path names are the bytes a system call copied in with
`argstr`, without the final `NUL`.

* `strncmp`, `namecmp` : `string.c`'s comparison, on at most `DIRSIZ` bytes.
* `dirlookup` : the entry of a directory with a given name.
* `skipelem`, `namex`, `namei`, `nameiparent` : path lookup from the root or the current
  directory.
* `sysChdir` : `sys_chdir`.
-/

namespace Xv6Net

namespace Fs

open Bytes

/-- `strncmp(p, q, n)`; a byte past the end of a list reads as `NUL`. -/
def strncmp : List UInt8 → List UInt8 → ℕ → ℤ
  | _, _, 0 => 0
  | p, q, n + 1 =>
    if byteAt p 0 ≠ 0 ∧ byteAt p 0 = byteAt q 0 then strncmp p.tail q.tail n
    else ((byteAt p 0).toNat : ℤ) - (byteAt q 0).toNat

/-- `namecmp`. -/
def namecmp (s t : List UInt8) : ℤ := strncmp s t DIRSIZ

section Lookup

variable (sb : Superblock)

/-- The loop of `dirlookup` from offset `off` on. -/
def dirlookupLoop (dp : Fin NINODE) (name : List UInt8) :
    ℕ → UInt32 → FsM (Option (Fin NINODE × UInt32))
  | 0, _ => pure none
  | fuel + 1, off => do
    let d ← iread dp
    if off < d.size then do
      let (r, bs) ← readi sb dp off 16
      if r ≠ 16 then kpanic "dirlookup read"
      else
        let de := parseDirent bs
        if de.inum = 0 then dirlookupLoop dp name fuel (off + 16)
        else if namecmp name de.name = 0 then do
          let ip ← iget de.inum.toUInt32
          pure (some (ip, off))
        else dirlookupLoop dp name fuel (off + 16)
    else pure none

/-- `dirlookup(dp, name, poff)`: the entry named `name`, with its offset. -/
def dirlookup (dp : Fin NINODE) (name : List UInt8) : FsM (Option (Fin NINODE × UInt32)) := do
  let d ← iread dp
  if d.type ≠ T_DIR then kpanic "dirlookup not DIR"
  -- one round per entry
  else dirlookupLoop sb dp name (d.size.toNat / 16 + 1) 0

end Lookup

/-- `skipelem(path, name)`: the next element of `path` in the form `namex` compares it (its
first `DIRSIZ` bytes, `NUL`-terminated when shorter), and what follows it without its leading
slashes; `none` when no element is left. -/
def skipelem (path : List UInt8) : Option (List UInt8 × List UInt8) :=
  let path := path.dropWhile (· = '/'.toUInt8)
  if path = [] then none
  else
    let elem := path.takeWhile (· ≠ '/'.toUInt8)
    let rest := (path.dropWhile (· ≠ '/'.toUInt8)).dropWhile (· = '/'.toUInt8)
    some (if DIRSIZ ≤ elem.length then elem.take DIRSIZ else elem ++ [0], rest)

section Path

variable (sb : Superblock)

/-- The loop of `namex`: `ip` is the directory reached so far and `name` the element last
copied out. -/
def namexLoop (nameiparent : Bool) :
    ℕ → Fin NINODE → List UInt8 → List UInt8 → FsM (Option (Fin NINODE) × List UInt8)
  -- never reached: each round takes at least one byte off the path
  | 0, ip, _, name => pure (some ip, name)
  | fuel + 1, ip, path, name =>
    match skipelem path with
    | none =>
      if nameiparent then do
        iput sb ip
        pure (none, name)
      else pure (some ip, name)
    | some (name, path) => do
      ilock sb ip
      let i ← iread ip
      if i.type ≠ T_DIR then do
        iunlockput sb ip
        pure (none, name)
      else if nameiparent ∧ path = [] then do
        -- stop one level early
        iunlock ip
        pure (some ip, name)
      else do
        match ← dirlookup sb ip name with
        | none => do
          iunlockput sb ip
          pure (none, name)
        | some (next, _) => do
          iunlockput sb ip
          namexLoop nameiparent fuel next path name

/-- `namex(path, nameiparent, name)` for a process whose current directory is `cwd`. -/
def namex (cwd : Fin NINODE) (path : List UInt8) (nameiparent : Bool) :
    FsM (Option (Fin NINODE) × List UInt8) := do
  let ip ← if path.head? = some '/'.toUInt8 then iget ROOTINO else idup cwd
  namexLoop sb nameiparent (path.length + 1) ip path (List.replicate DIRSIZ 0)

def namei (cwd : Fin NINODE) (path : List UInt8) : FsM (Option (Fin NINODE)) := do
  let r ← namex sb cwd path false
  pure r.1

def nameiparent (cwd : Fin NINODE) (path : List UInt8) :
    FsM (Option (Fin NINODE) × List UInt8) :=
  namex sb cwd path true

/-- `sys_chdir(path)` inside its transaction: the result and the new current directory. -/
def sysChdir (cwd : Fin NINODE) (path : List UInt8) : FsM (ℤ × Fin NINODE) := do
  match ← namei sb cwd path with
  | none => pure (-1, cwd)
  | some ip => do
    ilock sb ip
    let i ← iread ip
    if i.type ≠ T_DIR then do
      iunlockput sb ip
      pure (-1, cwd)
    else do
      iunlock ip
      iput sb cwd
      pure (0, ip)

end Path

end Fs

end Xv6Net
