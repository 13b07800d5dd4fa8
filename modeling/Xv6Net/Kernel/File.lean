import Mathlib.Algebra.BigOperators.Group.Finset.Piecewise
import Mathlib.Data.Fintype.Prod
import Xv6Net.Kernel.Pipe
import Xv6Net.Kernel.Kalloc

/-!
# Open files and file descriptors (`file.c`, `sysfile.c`, `pipe.c`)

`ftable` holds the open files; a file is in use while its `ref` is positive.  `filealloc` takes a
file with `ref == 0`, `filedup` adds a reference, and `fileclose` drops one and, with the last,
closes the file: `pipeclose` of its end of a pipe, which frees the pipe's page once both ends are
closed, or `iput` of its inode.  The descriptors of a process, `p->ofile`, point into `ftable`;
`fdalloc`, `sys_dup`, `sys_close`, `sys_pipe` with `pipealloc`, and the end of `sys_open` give
and take them.

* `FileOK` : the table as the calls keep it, with the references a call holds and has not yet
  given to a descriptor: each `ref` counts the descriptors that refer to the file (`nrefs`) and
  the held references; the open ends of the pipes are exactly the pipe files in use, one file
  for each end; the page of an open pipe is not free, and the free list has distinct pages.
* `FileOK.fileclose`, `FileOK.filedup`, `FileOK.filealloc`, `FileOK.setOfile_some`,
  `FileOK.setOfile_none` : each primitive keeps it, moving one reference between the descriptors
  and the held ones; `fileclose` of a held reference never panics.
* `FileOK.pipealloc`, `FileOK.newPipe` : a new pipe in a page that was free, its two ends two
  files that were not in use.
* `FileOK.sysDup`, `FileOK.sysClose`, `FileOK.sysPipe`, `FileOK.openFile` : the system calls
  keep it with nothing held, never panic, and change only the caller's descriptors.

What a file is read and written through (`fileread`, `filewrite`, `filestat`, the offset and
the device number), the inode layer behind `iput`, and the path lookup of `sys_open` are not part
of this model; `sys_open` enters it with the inode it found.
-/

namespace Xv6Net

namespace Kernel

/-- `NFILE`, open files per system. -/
def NFILE : ℕ := 100

/-- `NOFILE`, open files per process. -/
def NOFILE : ℕ := 16

def O_WRONLY : Int32 := 0x001

def O_RDWR : Int32 := 0x002

/-- `enum { FD_NONE, FD_PIPE, FD_INODE, FD_DEVICE }` of `struct file`. -/
inductive FileType
  | FD_NONE
  | FD_PIPE
  | FD_INODE
  | FD_DEVICE
  deriving DecidableEq, Repr

/-- `struct file` without `off` and `major`: the pipe is its page, the inode its number. -/
structure File where
  type : FileType
  ref : ℤ
  readable : Bool
  writable : Bool
  pipe : ℕ
  ip : ℕ
  deriving DecidableEq, Repr

/-- What `fileclose` does after the last reference is gone: `pipeclose` of an end of a pipe,
with whether it freed the pipe's page, or `iput` of an inode. -/
inductive CloseEv
  | pipeclose (pi : ℕ) (writable kfree : Bool)
  | iput (ip : ℕ)
  deriving DecidableEq, Repr

/-- `ftable.file`, the descriptor tables `p->ofile` of the processes (`none` for `0`), the pipe
in each page, and `kmem`. -/
structure FTable where
  file : Fin NFILE → File
  ofile : Fin NPROC → Fin NOFILE → Option (Fin NFILE)
  pipes : ℕ → PipeBuf
  phys : Phys

/-- The end `writable` of a pipe is open: `writeopen` for the write end, `readopen` for the read
end. -/
def endOpen (p : PipeBuf) (writable : Bool) : Bool := if writable then p.writeopen else p.readopen

/-- The file `e` is in use as the end `w` of the pipe in the page `pi`. -/
def File.IsEnd (e : File) (pi : ℕ) (w : Bool) : Prop :=
  0 < e.ref ∧ e.type = .FD_PIPE ∧ e.pipe = pi ∧ e.writable = w

/-- The number of descriptors, over all processes, that refer to the file `f`.  (Irreducible:
the sum runs over all `NPROC * NOFILE` descriptors, which no proof should unfold.) -/
@[irreducible] def nrefs (ofile : Fin NPROC → Fin NOFILE → Option (Fin NFILE)) (f : Fin NFILE) : ℕ :=
  ∑ q : Fin NPROC × Fin NOFILE, if ofile q.1 q.2 = some f then 1 else 0

namespace FTable

/-- `*f = e` for the file `f` of `ftable`. -/
def setFile (ft : FTable) (f : Fin NFILE) (e : File) : FTable :=
  { ft with file := Function.update ft.file f e }

/-- `p->ofile[fd] = v`. -/
def setOfile (ft : FTable) (p : Fin NPROC) (fd : Fin NOFILE) (v : Option (Fin NFILE)) : FTable :=
  { ft with ofile := Function.update ft.ofile p (Function.update (ft.ofile p) fd v) }

/-! ### `file.c` -/

/-- `filealloc()`: the first file with `ref == 0` gets `ref = 1`; `none` for `0`. -/
def filealloc (ft : FTable) : FTable × Option (Fin NFILE) :=
  match (List.finRange NFILE).find? fun f => (ft.file f).ref = 0 with
  | none => (ft, none)
  | some f => (ft.setFile f { ft.file f with ref := 1 }, some f)

/-- `filedup(f)`; `none` is the `panic("filedup")`. -/
def filedup (ft : FTable) (f : Fin NFILE) : Option FTable :=
  if (ft.file f).ref < 1 then none
  else some (ft.setFile f { ft.file f with ref := (ft.file f).ref + 1 })

/-- `fileclose(f)`: the table and what it did after releasing `ftable.lock`; `none` is the
`panic("fileclose")`. -/
def fileclose (ft : FTable) (f : Fin NFILE) : Option (FTable × Option CloseEv) :=
  let e := ft.file f
  if e.ref < 1 then none
  else if e.ref - 1 > 0 then some (ft.setFile f { e with ref := e.ref - 1 }, none)
  else
    let ft := ft.setFile f { e with ref := 0, type := .FD_NONE }
    match e.type with
    | .FD_PIPE =>
      -- `pipeclose(ff.pipe, ff.writable)`, which frees the page when both ends are closed
      let r := pipeclose e.writable (ft.pipes e.pipe)
      some ({ ft with
          pipes := Function.update ft.pipes e.pipe r.1
          phys := if r.2 then kfree ft.phys e.pipe else ft.phys },
        some (.pipeclose e.pipe e.writable r.2))
    | .FD_INODE | .FD_DEVICE => some (ft, some (.iput e.ip))
    | .FD_NONE => some (ft, none)

/-- `fileclose` of each file in turn, and what they did. -/
def closeFiles (ft : FTable) : List (Fin NFILE) → Option (FTable × List CloseEv)
  | [] => some (ft, [])
  | f :: fs =>
    (fileclose ft f).bind fun (ft, ev) => (closeFiles ft fs).map fun (ft, evs) => (ft, ev.toList ++ evs)

/-! ### `sysfile.c` -/

/-- `fdalloc(f)` in the process `p`: the first free descriptor gets `f`; `none` for `-1`. -/
def fdalloc (ft : FTable) (p : Fin NPROC) (f : Fin NFILE) : FTable × Option (Fin NOFILE) :=
  match (List.finRange NOFILE).find? fun fd => ft.ofile p fd = none with
  | none => (ft, none)
  | some fd => (ft.setOfile p fd (some f), some fd)

/-- `argfd` of the descriptor `fd` in the process `p`: the descriptor and its file, `none` for a
descriptor out of range or not open. -/
def argfd (ft : FTable) (p : Fin NPROC) (fd : ℤ) : Option (Fin NOFILE × Fin NFILE) :=
  if h : 0 ≤ fd ∧ fd < NOFILE then
    let i : Fin NOFILE := ⟨fd.toNat, by have := h.2; simp only [NOFILE] at this ⊢; omega⟩
    (ft.ofile p i).map fun f => (i, f)
  else none

/-- `sys_dup(fd)` by `p`: the table and the value returned; `none` is a `panic`. -/
def sysDup (ft : FTable) (p : Fin NPROC) (fd : ℤ) : Option (FTable × ℤ) :=
  match argfd ft p fd with
  | none => some (ft, -1)
  | some (_, f) =>
    match fdalloc ft p f with
    | (ft, none) => some (ft, -1)
    | (ft, some fd) => (filedup ft f).map fun ft => (ft, fd.val)

/-- `sys_close(fd)` by `p`: the table, the value returned, and what `fileclose` did. -/
def sysClose (ft : FTable) (p : Fin NPROC) (fd : ℤ) : Option (FTable × ℤ × List CloseEv) :=
  match argfd ft p fd with
  | none => some (ft, -1, [])
  | some (fd, f) => (fileclose (ft.setOfile p fd none) f).map fun (ft, ev) => (ft, 0, ev.toList)

/-- `pipealloc(&f0, &f1)`: two files and a page for the pipe, the read end `f0` and the write end
`f1`; if one of them cannot be had, the files taken are closed again and there is no pipe.  (The
`kfree` of `pi` at `bad` never runs: the page is the last thing taken.) -/
def pipealloc (ft : FTable) : Option (FTable × Option (Fin NFILE × Fin NFILE) × List CloseEv) :=
  let (ft, f0) := ft.filealloc
  let (ft, f1) := if f0.isSome then ft.filealloc else (ft, none)
  match f0, f1 with
  | some f0, some f1 =>
    let (ph, pi) := kalloc ft.phys
    let ft := { ft with phys := ph }
    if pi = 0 then (closeFiles ft [f0, f1]).map fun (ft, evs) => (ft, none, evs)
    else
      -- `pi->readopen = 1; pi->writeopen = 1; ...` in the page `kalloc` filled with `5`
      let ft := { ft with pipes := Function.update ft.pipes pi (Kernel.pipealloc fun _ => 5) }
      let ft := ft.setFile f0
        { ft.file f0 with type := .FD_PIPE, readable := true, writable := false, pipe := pi }
      let ft := ft.setFile f1
        { ft.file f1 with type := .FD_PIPE, readable := false, writable := true, pipe := pi }
      some (ft, some (f0, f1), [])
  | f0, f1 => (closeFiles ft (f0.toList ++ f1.toList)).map fun (ft, evs) => (ft, none, evs)

/-- `sys_pipe(fdarray)` by `p`: `ok` says whether the two `copyout`s of the descriptors succeed.
The table, the value returned, and what the `fileclose`s did. -/
def sysPipe (ft : FTable) (p : Fin NPROC) (ok : Bool) : Option (FTable × ℤ × List CloseEv) :=
  (pipealloc ft).bind fun (ft, r, evs) =>
    match r with
    | none => some (ft, -1, evs)
    | some (rf, wf) =>
      let fail (ft : FTable) := (closeFiles ft [rf, wf]).map fun (ft, evs') => (ft, -1, evs ++ evs')
      match fdalloc ft p rf with
      | (ft, none) => fail ft
      | (ft, some fd0) =>
        match fdalloc ft p wf with
        | (ft, none) => fail (ft.setOfile p fd0 none)
        | (ft, some fd1) =>
          if ok then some (ft, 0, evs) else fail ((ft.setOfile p fd0 none).setOfile p fd1 none)

/-- The end of `sys_open(path, omode)` by `p`, once it has the inode `ip`, a device if `device`:
a file and a descriptor for it; or `-1`, with the file closed again and `iunlockput(ip)`. -/
def openFile (ft : FTable) (p : Fin NPROC) (ip : ℕ) (device : Bool) (omode : Int32) :
    Option (FTable × ℤ × List CloseEv) :=
  let (ft, f) := ft.filealloc
  match f with
  | none => some (ft, -1, [.iput ip])
  | some f =>
    match fdalloc ft p f with
    | (ft, none) => (fileclose ft f).map fun (ft, ev) => (ft, -1, ev.toList ++ [.iput ip])
    | (ft, some fd) =>
      some (ft.setFile f { ft.file f with
          type := if device then .FD_DEVICE else .FD_INODE
          ip := ip
          readable := omode &&& O_WRONLY = 0
          writable := omode &&& O_WRONLY ≠ 0 || omode &&& O_RDWR ≠ 0 }, fd.val, [])

/-! ### What each update changes -/

section Update

variable {ft : FTable} {f : Fin NFILE} {e : File} {p : Fin NPROC} {fd : Fin NOFILE}
  {v : Option (Fin NFILE)}

@[simp] theorem setFile_file : (ft.setFile f e).file = Function.update ft.file f e := rfl

@[simp] theorem setFile_ofile : (ft.setFile f e).ofile = ft.ofile := rfl

@[simp] theorem setFile_pipes : (ft.setFile f e).pipes = ft.pipes := rfl

@[simp] theorem setFile_phys : (ft.setFile f e).phys = ft.phys := rfl

@[simp] theorem setOfile_file : (ft.setOfile p fd v).file = ft.file := rfl

@[simp] theorem setOfile_ofile :
    (ft.setOfile p fd v).ofile = Function.update ft.ofile p (Function.update (ft.ofile p) fd v) :=
  rfl

@[simp] theorem setOfile_pipes : (ft.setOfile p fd v).pipes = ft.pipes := rfl

@[simp] theorem setOfile_phys : (ft.setOfile p fd v).phys = ft.phys := rfl

/-- `p->ofile[fd] = v` leaves the descriptors of every other process as they were. -/
theorem setOfile_other {q : Fin NPROC} (hq : q ≠ p) : (ft.setOfile p fd v).ofile q = ft.ofile q := by
  simp [hq]

end Update

end FTable

/-! ### Counting descriptors -/

section Count

variable {ofile : Fin NPROC → Fin NOFILE → Option (Fin NFILE)} {p : Fin NPROC} {fd : Fin NOFILE}
  {f : Fin NFILE}

/-- Setting one descriptor from its old file to `v` moves one count from the one to the other. -/
theorem nrefs_update (ofile : Fin NPROC → Fin NOFILE → Option (Fin NFILE)) (p : Fin NPROC)
    (fd : Fin NOFILE) (v : Option (Fin NFILE)) (f : Fin NFILE) :
    nrefs (Function.update ofile p (Function.update (ofile p) fd v)) f +
        (if ofile p fd = some f then 1 else 0) =
      nrefs ofile f + (if v = some f then 1 else 0) := by
  -- the two sums agree off the slot `(p, fd)`
  have hupd : (fun q : Fin NPROC × Fin NOFILE =>
        if Function.update ofile p (Function.update (ofile p) fd v) q.1 q.2 = some f then 1 else 0) =
      Function.update (fun q : Fin NPROC × Fin NOFILE => if ofile q.1 q.2 = some f then 1 else 0)
        (p, fd) (if v = some f then 1 else 0) := by
    funext ⟨q, i⟩
    by_cases hq : q = p
    · subst hq
      by_cases hi : i = fd
      · subst hi
        simp
      · simp [hi]
    · simp [hq]
  unfold nrefs
  rw [hupd, Finset.sum_update_of_mem (Finset.mem_univ (p, fd)),
    Finset.sum_eq_add_sum_sdiff_singleton_of_mem (Finset.mem_univ (p, fd))]
  dsimp only
  omega

/-- With no descriptors, no file is referred to. -/
theorem nrefs_eq_zero (h : ∀ q fd, ofile q fd = none) : nrefs ofile f = 0 := by
  unfold nrefs
  exact Finset.sum_eq_zero fun q _ => if_neg (by rw [h]; exact nofun)

/-- A file a descriptor refers to is counted. -/
theorem one_le_nrefs (h : ofile p fd = some f) : 1 ≤ nrefs ofile f := by
  have hcount := nrefs_update ofile p fd none f
  simp only [h, if_true, reduceCtorEq, if_false, Nat.add_zero] at hcount
  omega

end Count

/-! ### The invariant of the file table -/

/-- The file table as the calls keep it, with `held` references that a call has taken and not yet
given to a descriptor: each `ref` counts the descriptors that refer to the file and the held
references; a file without references is `FD_NONE`; the open ends of the pipes are the pipe files
in use, one file for each end; the page of an open pipe is not free; and the free list has
distinct pages, none of them `0`. -/
structure FileOK (ft : FTable) (held : Fin NFILE → ℕ) : Prop where
  refs : ∀ f, (ft.file f).ref = ((nrefs ft.ofile f + held f : ℕ) : ℤ)
  none_of_zero : ∀ f, (ft.file f).ref = 0 → (ft.file f).type = .FD_NONE
  ends : ∀ pi w, endOpen (ft.pipes pi) w = true ↔ ∃ f, (ft.file f).IsEnd pi w
  unique : ∀ f g pi w, (ft.file f).IsEnd pi w → (ft.file g).IsEnd pi w → f = g
  open_page : ∀ pi w, endOpen (ft.pipes pi) w = true → pi ∉ ft.phys.freelist ∧ pi ≠ 0
  nodup : ft.phys.freelist.Nodup
  nonzero : ∀ x ∈ ft.phys.freelist, x ≠ 0

section Inv

variable {ft ft' : FTable} {held held' : Fin NFILE → ℕ} {f : Fin NFILE} {e : File}
  {p : Fin NPROC} {fd : Fin NOFILE}

theorem isEnd_update {g : Fin NFILE} {pi : ℕ} {w : Bool} :
    (Function.update ft.file f e g).IsEnd pi w ↔ if g = f then e.IsEnd pi w else (ft.file g).IsEnd pi w := by
  by_cases hg : g = f
  · subst hg
    simp
  · simp [hg]

/-- **Changing one file without touching the pipes**: its new `ref` counts for it, it is
`FD_NONE` when unused, and it is the end of the same pipes as before. -/
theorem FileOK.setFile (h : FileOK ft held) (href : e.ref = ((nrefs ft.ofile f + held' f : ℕ) : ℤ))
    (hzero : e.ref = 0 → e.type = .FD_NONE) (hend : ∀ pi w, e.IsEnd pi w ↔ (ft.file f).IsEnd pi w)
    (hheld : ∀ g, g ≠ f → held' g = held g) : FileOK (ft.setFile f e) held' := by
  have hends : ∀ g pi w, ((ft.setFile f e).file g).IsEnd pi w ↔ (ft.file g).IsEnd pi w := by
    intro g pi w
    rw [FTable.setFile_file, isEnd_update]
    split_ifs with hg
    · subst hg
      exact hend pi w
    · exact Iff.rfl
  refine ⟨fun g => ?_, fun g hg => ?_, fun pi w => ?_, fun g g' pi w h₁ h₂ => ?_, h.open_page,
    h.nodup, h.nonzero⟩
  · by_cases hg : g = f
    · subst hg
      simpa using href
    · simp only [FTable.setFile_file, Function.update_of_ne hg, FTable.setFile_ofile, hheld g hg]
      exact h.refs g
  · by_cases hgf : g = f
    · subst hgf
      simp only [FTable.setFile_file, Function.update_self] at hg ⊢
      exact hzero hg
    · simp only [FTable.setFile_file, Function.update_of_ne hgf] at hg ⊢
      exact h.none_of_zero g hg
  · simp only [FTable.setFile_pipes, hends]
    exact h.ends pi w
  · exact h.unique g g' pi w ((hends g pi w).1 h₁) ((hends g' pi w).1 h₂)

/-! ### `filealloc`, `filedup` and `fileclose` -/

theorem filealloc_some (h : ft.filealloc = (ft', some f)) :
    (ft.file f).ref = 0 ∧ ft' = ft.setFile f { ft.file f with ref := 1 } := by
  unfold FTable.filealloc at h
  split at h
  · cases h
  · rename_i f' hf
    simp only [Prod.mk.injEq, Option.some.injEq] at h
    obtain ⟨rfl, rfl⟩ := h
    exact ⟨by simpa using List.find?_some hf, rfl⟩

theorem filealloc_none (h : ft.filealloc = (ft', none)) : ft' = ft := by
  unfold FTable.filealloc at h
  split at h
  · exact (Prod.mk.inj h).1.symm
  · cases (Prod.mk.inj h).2

/-- `filealloc` takes a file no descriptor refers to, an `FD_NONE`, and holds its one
reference. -/
theorem FileOK.filealloc (h : FileOK ft held) (ha : ft.filealloc = (ft', some f)) :
    FileOK ft' (held + Pi.single f 1) ∧ ft'.ofile = ft.ofile ∧
      ft'.file f = { ft.file f with ref := 1 } ∧ (ft.file f).type = .FD_NONE := by
  obtain ⟨h0, rfl⟩ := filealloc_some ha
  have hcount := h.refs f
  rw [h0] at hcount
  have hnone := h.none_of_zero f h0
  refine ⟨h.setFile (by simp; omega) (by simp) (fun pi w => ?_) (fun g hg => by simp [hg]), rfl,
    by simp, hnone⟩
  simp only [File.IsEnd, h0, lt_irrefl, false_and, iff_false, not_and]
  intro _ ht
  rw [hnone] at ht
  cases ht

/-- `filedup` of a file with a reference never panics, and holds one more. -/
theorem FileOK.filedup (h : FileOK ft held) (hf : 1 ≤ nrefs ft.ofile f + held f) :
    ∃ ft', ft.filedup f = some ft' ∧ FileOK ft' (held + Pi.single f 1) ∧ ft'.ofile = ft.ofile := by
  have hr := h.refs f
  have hpos : ¬ (ft.file f).ref < 1 := by omega
  refine ⟨_, by rw [FTable.filedup, if_neg hpos], h.setFile (by simp; omega)
    (fun h0 => by simp at h0; omega) (fun pi w => ?_) (fun g hg => by simp [hg]), rfl⟩
  simp only [File.IsEnd]
  constructor <;> rintro ⟨_, h2, h3, h4⟩ <;> exact ⟨by omega, h2, h3, h4⟩

theorem endOpen_pipeclose (w w' : Bool) (pb : PipeBuf) :
    endOpen (pipeclose w pb).1 w' = (endOpen pb w' && w' != w) := by
  cases w <;> cases w' <;> simp [pipeclose, endOpen]

/-- `pipeclose` of one end frees the page exactly when the other end is closed. -/
theorem pipeclose_kfree (w : Bool) (pb : PipeBuf) : (pipeclose w pb).2 = !endOpen pb (!w) := by
  cases w <;> simp [pipeclose, endOpen]

/-- **The last reference to an end of a pipe goes**: the end is closed, and the page is freed if
the other end is closed too, with no other file left on that end. -/
theorem FileOK.closePipe (h : FileOK ft (held + Pi.single f 1)) {pi : ℕ} {w : Bool}
    (hend : (ft.file f).IsEnd pi w) (hzero : nrefs ft.ofile f + held f = 0) :
    FileOK { ft.setFile f { ft.file f with ref := 0, type := .FD_NONE } with
      pipes := Function.update ft.pipes pi (pipeclose w (ft.pipes pi)).1
      phys := if (pipeclose w (ft.pipes pi)).2 then kfree ft.phys pi else ft.phys } held := by
  -- the files in use as pipe ends are those of before but `f`
  have hends : ∀ g pi' w', (Function.update ft.file f { ft.file f with ref := 0, type := .FD_NONE } g).IsEnd pi' w' ↔
      g ≠ f ∧ (ft.file g).IsEnd pi' w' := by
    intro g pi' w'
    rw [isEnd_update]
    split_ifs with hg
    · simp [hg, File.IsEnd]
    · simp [hg]
  have hopen : endOpen (ft.pipes pi) w = true := (h.ends pi w).2 ⟨f, hend⟩
  have honly : ∀ g, (ft.file g).IsEnd pi w → g = f := fun g hg => h.unique g f pi w hg hend
  obtain ⟨hnf, hnz⟩ := h.open_page pi w hopen
  refine ⟨fun g => ?_, fun g hg => ?_, fun pi' w' => ?_, fun g g' pi' w' h₁ h₂ => ?_,
    fun pi' w' ho => ?_, ?_, ?_⟩ <;> dsimp only at *
  · by_cases hg : g = f
    · subst hg
      simp only [FTable.setFile_file, Function.update_self, FTable.setFile_ofile]
      omega
    · simpa [hg] using h.refs g
  · by_cases hgf : g = f
    · subst hgf
      simp
    · simp only [FTable.setFile_file, Function.update_of_ne hgf] at hg ⊢
      exact h.none_of_zero g hg
  · simp only [FTable.setFile_file, hends]
    by_cases hp : pi' = pi
    · subst hp
      rw [Function.update_self, endOpen_pipeclose]
      by_cases hww : w' = w
      · -- the end just closed: `f` was its only file
        subst hww
        simp only [bne_self_eq_false, Bool.and_false, Bool.false_eq_true, false_iff, not_exists,
          not_and]
        exact fun g hg hgi => hg (honly g hgi)
      · -- the other end: `f` is not one of its files
        have hne : (w' != w) = true := bne_iff_ne.2 hww
        rw [hne, Bool.and_true, h.ends]
        refine ⟨fun ⟨g, hg⟩ => ⟨g, fun e => hww ?_, hg⟩, fun ⟨g, _, hg⟩ => ⟨g, hg⟩⟩
        subst e
        exact hg.2.2.2.symm.trans hend.2.2.2
    · -- another pipe: `f` is not one of its files
      rw [Function.update_of_ne hp, h.ends]
      refine ⟨fun ⟨g, hg⟩ => ⟨g, fun e => hp ?_, hg⟩, fun ⟨g, _, hg⟩ => ⟨g, hg⟩⟩
      subst e
      exact hg.2.2.1.symm.trans hend.2.2.1
  · simp only [FTable.setFile_file, hends] at h₁ h₂
    exact h.unique g g' pi' w' h₁.2 h₂.2
  · by_cases hp : pi' = pi
    · -- the other end is still open: nothing freed
      subst hp
      rw [Function.update_self, endOpen_pipeclose] at ho
      obtain ⟨ho, hww⟩ : endOpen (ft.pipes pi') w' = true ∧ w' ≠ w := by simpa using ho
      have hother : w' = !w := by cases w <;> cases w' <;> simp_all
      have hkeep : (pipeclose w (ft.pipes pi')).2 = false := by
        rw [pipeclose_kfree, ← hother, ho]
        rfl
      simp only [hkeep]
      exact ⟨hnf, hnz⟩
    · rw [Function.update_of_ne hp] at ho
      obtain ⟨hnf', hnz'⟩ := h.open_page pi' w' ho
      refine ⟨?_, hnz'⟩
      split_ifs
      · simp only [kfree_freelist, List.mem_cons, not_or]
        exact ⟨hp, hnf'⟩
      · exact hnf'
  · split_ifs
    · simp only [kfree_freelist]
      exact List.nodup_cons.2 ⟨hnf, h.nodup⟩
    · exact h.nodup
  · split_ifs
    · simp only [kfree_freelist, List.mem_cons]
      rintro x (rfl | hx)
      · exact hnz
      · exact h.nonzero x hx
    · exact h.nonzero

/-- **`fileclose` of a held reference** never panics, and gives the reference back: with the last
one the file becomes `FD_NONE`, and the end of a pipe it was is closed. -/
theorem FileOK.fileclose (h : FileOK ft (held + Pi.single f 1)) :
    ∃ ft' ev, ft.fileclose f = some (ft', ev) ∧ FileOK ft' held ∧ ft'.ofile = ft.ofile := by
  have hr := h.refs f
  simp only [Pi.add_apply, Pi.single_eq_same] at hr
  have hpos : ¬ (ft.file f).ref < 1 := by omega
  have hheld : ∀ g, g ≠ f → held g = (held + Pi.single f 1 : Fin NFILE → ℕ) g := fun g hg => by
    simp [hg]
  by_cases hlast : (ft.file f).ref - 1 > 0
  · -- other references remain
    refine ⟨_, none, by simp only [FTable.fileclose, if_neg hpos, if_pos hlast],
      h.setFile (e := { ft.file f with ref := (ft.file f).ref - 1 }) (by simp only; omega)
        (fun h0 => by simp only at h0; omega) (fun pi w => ?_) hheld, rfl⟩
    simp only [File.IsEnd]
    constructor <;> rintro ⟨_, h2, h3, h4⟩ <;> exact ⟨by omega, h2, h3, h4⟩
  -- the last reference
  have hzero : nrefs ft.ofile f + held f = 0 := by omega
  have hclosed : FileOK (ft.setFile f { ft.file f with ref := 0, type := .FD_NONE }) held ∨
      (ft.file f).type = .FD_PIPE := by
    by_cases ht : (ft.file f).type = .FD_PIPE
    · exact .inr ht
    refine .inl (h.setFile (by simp; omega) (fun _ => rfl) (fun pi w => ?_) hheld)
    simp only [File.IsEnd, lt_irrefl, false_and, false_iff, not_and]
    exact fun _ ht' => absurd ht' ht
  cases ht : (ft.file f).type with
  | FD_PIPE =>
    have hend : (ft.file f).IsEnd (ft.file f).pipe (ft.file f).writable := ⟨by omega, ht, rfl, rfl⟩
    exact ⟨_, _, by simp only [FTable.fileclose, if_neg hpos, if_neg hlast, ht]; rfl,
      h.closePipe hend hzero, rfl⟩
  | FD_NONE =>
    refine ⟨_, none, by simp only [FTable.fileclose, if_neg hpos, if_neg hlast, ht],
      hclosed.resolve_right (by rw [ht]; decide), rfl⟩
  | FD_INODE | FD_DEVICE =>
    refine ⟨_, some (.iput (ft.file f).ip), by simp only [FTable.fileclose, if_neg hpos, if_neg hlast, ht],
      hclosed.resolve_right (by rw [ht]; decide), rfl⟩

/-- **Setting a descriptor** moves one reference between it and the held ones: the file it
referred to is held now, and the file it gets was held before. -/
theorem FileOK.setOfile (h : FileOK ft held) {v : Option (Fin NFILE)}
    (hheld : ∀ g, held' g + (if v = some g then 1 else 0) =
      held g + (if ft.ofile p fd = some g then 1 else 0)) :
    FileOK (ft.setOfile p fd v) held' := by
  refine ⟨fun g => ?_, h.none_of_zero, h.ends, h.unique, h.open_page, h.nodup, h.nonzero⟩
  have hcount := nrefs_update ft.ofile p fd v g
  have hg := hheld g
  rw [FTable.setOfile_file, FTable.setOfile_ofile, h.refs g]
  omega

/-- A held reference given to a free descriptor. -/
theorem FileOK.setOfile_some (h : FileOK ft (held + Pi.single f 1)) (hfd : ft.ofile p fd = none) :
    FileOK (ft.setOfile p fd (some f)) held :=
  h.setOfile fun g => by
    by_cases hg : g = f
    · subst hg
      simp [hfd]
    · simp [hfd, hg, Ne.symm hg]

/-- A descriptor let go: its file's reference is held. -/
theorem FileOK.setOfile_none (h : FileOK ft held) (hfd : ft.ofile p fd = some f) :
    FileOK (ft.setOfile p fd none) (held + Pi.single f 1) :=
  h.setOfile fun g => by
    by_cases hg : g = f
    · subst hg
      simp [hfd]
    · simp [hfd, hg, Ne.symm hg]

/-- `fdalloc` gives the file a descriptor that was free, or fails with the table unchanged. -/
theorem fdalloc_spec (ft : FTable) (p : Fin NPROC) (f : Fin NFILE) :
    ft.fdalloc p f = (ft, none) ∨
      ∃ fd, ft.ofile p fd = none ∧ ft.fdalloc p f = (ft.setOfile p fd (some f), some fd) := by
  unfold FTable.fdalloc
  split
  · exact .inl rfl
  · rename_i fd hfd
    exact .inr ⟨fd, by simpa using List.find?_some hfd, rfl⟩

/-- `argfd` finds a descriptor that is open. -/
theorem argfd_some {fd : ℤ} {i : Fin NOFILE} (h : ft.argfd p fd = some (i, f)) :
    ft.ofile p i = some f := by
  unfold FTable.argfd at h
  split at h
  · obtain ⟨f', hf', hi⟩ := Option.map_eq_some_iff.1 h
    simp only [Prod.mk.injEq] at hi
    obtain ⟨rfl, rfl⟩ := hi
    exact hf'
  · cases h

/-- **Closing held references** one after another never panics, and gives each back. -/
theorem FileOK.closeFiles (fs : List (Fin NFILE))
    (h : FileOK ft (held + (fs.map fun f => Pi.single f 1).sum)) :
    ∃ ft' evs, ft.closeFiles fs = some (ft', evs) ∧ FileOK ft' held ∧ ft'.ofile = ft.ofile := by
  induction fs generalizing ft with
  | nil => exact ⟨ft, [], rfl, by simpa using h, rfl⟩
  | cons f fs ih =>
    -- `f` is closed first, with the references of the rest still held
    have hsum : held + ((f :: fs).map fun f => Pi.single f 1).sum =
        held + (fs.map fun f => Pi.single f 1).sum + Pi.single f 1 := by
      rw [List.map_cons, List.sum_cons, add_comm (Pi.single f 1 : Fin NFILE → ℕ), add_assoc]
    obtain ⟨ft₁, ev, h₁, hok₁, hof₁⟩ := (hsum ▸ h).fileclose
    obtain ⟨ft₂, evs, h₂, hok₂, hof₂⟩ := ih hok₁
    exact ⟨ft₂, ev.toList ++ evs, by simp [FTable.closeFiles, h₁, h₂], hok₂, hof₂.trans hof₁⟩

/-- A file closed again. -/
theorem FileOK.closeOne {a : Fin NFILE} (h : FileOK ft (held + Pi.single a 1)) :
    ∃ ft' evs, ft.closeFiles [a] = some (ft', evs) ∧ FileOK ft' held ∧ ft'.ofile = ft.ofile :=
  FileOK.closeFiles [a] (by simpa using h)

/-- The two ends of a pipe closed again. -/
theorem FileOK.closeTwo {a b : Fin NFILE} (h : FileOK ft (held + Pi.single a 1 + Pi.single b 1)) :
    ∃ ft' evs, ft.closeFiles [a, b] = some (ft', evs) ∧ FileOK ft' held ∧ ft'.ofile = ft.ofile :=
  FileOK.closeFiles [a, b] (by simpa [add_assoc] using h)

/-- `filedup` touches only the files, so it commutes with setting a descriptor. -/
theorem filedup_setOfile (v : Option (Fin NFILE)) :
    (ft.setOfile p fd v).filedup f = (ft.filedup f).map fun ft => ft.setOfile p fd v := by
  unfold FTable.filedup
  by_cases hr : (ft.file f).ref < 1
  · simp [hr]
  · simp only [FTable.setOfile_file, hr, if_false, Option.map_some]
    rfl

/-- Fewer free pages, still distinct, keep the invariant. -/
theorem FileOK.setPhys (h : FileOK ft held) (ph : Phys) (hsub : ph.freelist ⊆ ft.phys.freelist)
    (hnd : ph.freelist.Nodup) : FileOK { ft with phys := ph } held :=
  ⟨h.refs, h.none_of_zero, h.ends, h.unique,
    fun pi w ho => ⟨fun hm => (h.open_page pi w ho).1 (hsub hm), (h.open_page pi w ho).2⟩, hnd,
    fun x hx => h.nonzero x (hsub hx)⟩

theorem File.isEnd_iff_of_isEnd {e : File} {pi pi' : ℕ} {w w' : Bool} (he : e.IsEnd pi w) :
    e.IsEnd pi' w' ↔ pi' = pi ∧ w' = w :=
  ⟨fun h' => ⟨h'.2.2.1.symm.trans he.2.2.1, h'.2.2.2.symm.trans he.2.2.2⟩,
    fun ⟨h₁, h₂⟩ => h₁ ▸ h₂ ▸ he⟩

/-- **A new pipe** in a page that was free, with two files that were `FD_NONE` as its read end `a`
and its write end `b`. -/
theorem FileOK.newPipe (h : FileOK ft held) {pi : ℕ} {a b : Fin NFILE} {ea eb : File} (hab : a ≠ b)
    (hfree : pi ∉ ft.phys.freelist) (hnz : pi ≠ 0) (hclosed : ∀ w, endOpen (ft.pipes pi) w = false)
    (ha : (ft.file a).type = .FD_NONE) (hb : (ft.file b).type = .FD_NONE)
    (hea : ea.ref = (ft.file a).ref ∧ ea.IsEnd pi false)
    (heb : eb.ref = (ft.file b).ref ∧ eb.IsEnd pi true) :
    FileOK (({ ft with pipes := Function.update ft.pipes pi (pipealloc fun _ => 5) }.setFile a ea).setFile
      b eb) held := by
  have hnone : ∀ g pi' w, (ft.file g).type = .FD_NONE → ¬ (ft.file g).IsEnd pi' w :=
    fun g _ _ ht he => by rw [he.2.1] at ht; cases ht
  have hnot : ∀ g w, ¬ (ft.file g).IsEnd pi w := fun g w he => by
    have := (h.ends pi w).2 ⟨g, he⟩
    rw [hclosed] at this
    cases this
  -- the ends of the new pipe are `a` and `b`; the files in use elsewhere are those of before
  have hends : ∀ g pi' w, (Function.update (Function.update ft.file a ea) b eb g).IsEnd pi' w ↔
      if pi' = pi then g = (if w then b else a) else (ft.file g).IsEnd pi' w := by
    intro g pi' w
    by_cases hgb : g = b
    · subst hgb
      rw [Function.update_self, File.isEnd_iff_of_isEnd heb.2]
      by_cases hp : pi' = pi
      · rw [if_pos hp]
        cases w <;> simp [hp, Ne.symm hab]
      · rw [if_neg hp]
        simp only [hp, false_and, false_iff]
        exact hnone g pi' w hb
    by_cases hga : g = a
    · subst hga
      rw [Function.update_of_ne hgb, Function.update_self, File.isEnd_iff_of_isEnd hea.2]
      by_cases hp : pi' = pi
      · rw [if_pos hp]
        cases w <;> simp [hp, hgb]
      · rw [if_neg hp]
        simp only [hp, false_and, false_iff]
        exact hnone g pi' w ha
    rw [Function.update_of_ne hgb, Function.update_of_ne hga]
    by_cases hp : pi' = pi
    · rw [if_pos hp, hp]
      cases w <;> simp [hga, hgb, hnot]
    · rw [if_neg hp]
  have hrefs : ∀ g, (Function.update (Function.update ft.file a ea) b eb g).ref = (ft.file g).ref := by
    intro g
    by_cases hgb : g = b
    · subst hgb
      simp [heb.1]
    by_cases hga : g = a
    · subst hga
      simp [hgb, hea.1]
    simp [hga, hgb]
  refine ⟨fun g => ?_, fun g hg => ?_, fun pi' w => ?_, fun g g' pi' w h₁ h₂ => ?_,
    fun pi' w ho => ?_, h.nodup, h.nonzero⟩
  · rw [FTable.setFile_file, FTable.setFile_file, hrefs]
    exact h.refs g
  · -- the two new ends have references
    simp only [FTable.setFile_file] at hg ⊢
    by_cases hgb : g = b
    · subst hgb
      rw [Function.update_self] at hg
      exact absurd hg (ne_of_gt heb.2.1)
    by_cases hga : g = a
    · subst hga
      rw [Function.update_of_ne hgb, Function.update_self] at hg
      exact absurd hg (ne_of_gt hea.2.1)
    rw [Function.update_of_ne hgb, Function.update_of_ne hga] at hg ⊢
    exact h.none_of_zero g hg
  · simp only [FTable.setFile_file, FTable.setFile_pipes, hends]
    by_cases hp : pi' = pi
    · subst hp
      simp only [Function.update_self, if_true]
      exact ⟨fun _ => ⟨_, rfl⟩, fun _ => by cases w <;> rfl⟩
    · simp only [Function.update_of_ne hp, hp, if_false]
      exact h.ends pi' w
  · simp only [FTable.setFile_file, hends] at h₁ h₂
    by_cases hp : pi' = pi
    · rw [if_pos hp] at h₁ h₂
      exact h₁.trans h₂.symm
    · rw [if_neg hp] at h₁ h₂
      exact h.unique g g' pi' w h₁ h₂
  · simp only [FTable.setFile_pipes] at ho
    by_cases hp : pi' = pi
    · subst hp
      exact ⟨hfree, hnz⟩
    · rw [Function.update_of_ne hp] at ho
      exact h.open_page pi' w ho

/-- **`pipealloc`** never panics: it gives two files, each with one held reference, as the ends
of a new pipe, or closes again what it took. -/
theorem FileOK.pipealloc (h : FileOK ft 0) :
    ∃ ft' r evs, ft.pipealloc = some (ft', r, evs) ∧ ft'.ofile = ft.ofile ∧
      (r = none → FileOK ft' 0) ∧
      ∀ rf wf, r = some (rf, wf) → FileOK ft' (0 + Pi.single rf 1 + Pi.single wf 1) := by
  unfold FTable.pipealloc
  rcases hf0 : ft.filealloc with ⟨ft₁, _ | a⟩
  · obtain rfl := filealloc_none hf0
    exact ⟨_, none, [], rfl, rfl, fun _ => h, fun _ _ h => nomatch h⟩
  obtain ⟨hok₁, hof₁, hfa, hta⟩ := h.filealloc hf0
  rcases hf1 : ft₁.filealloc with ⟨ft₂, _ | b⟩
  · -- no second file: the first is closed again
    obtain rfl := filealloc_none hf1
    obtain ⟨ft₃, evs, hc, hok₃, hof₃⟩ := hok₁.closeOne
    exact ⟨ft₃, none, evs, by simp [hf1, hc], by rw [hof₃, hof₁], fun _ => hok₃,
      fun _ _ h => nomatch h⟩
  obtain ⟨hok₂, hof₂, hfb, htb⟩ := hok₁.filealloc hf1
  have hab : a ≠ b := by
    rintro rfl
    have h0 := (filealloc_some hf1).1
    rw [hfa] at h0
    simp at h0
  rcases hfl : ft₂.phys.freelist with _ | ⟨pi, rest⟩
  · -- no page: both files are closed again
    obtain ⟨ft₃, evs, hc, hok₃, hof₃⟩ := hok₂.closeTwo
    exact ⟨ft₃, none, evs, by simp [hf1, kalloc_nil hfl, hc], by rw [hof₃, hof₂, hof₁], fun _ => hok₃,
      fun _ _ h => nomatch h⟩
  -- a page for the pipe: it was free, so neither of its ends is open
  have hnd : (pi :: rest).Nodup := hfl ▸ hok₂.nodup
  have hpi : pi ≠ 0 := hok₂.nonzero pi (by simp [hfl])
  have hclosed : ∀ w, endOpen (ft₂.pipes pi) w = false := fun w => by
    by_contra hw
    exact (hok₂.open_page pi w (by simpa using hw)).1 (by simp [hfl])
  have hok₃ := hok₂.setPhys ⟨rest, Function.update ft₂.phys.mem pi (List.replicate PGSIZE 5)⟩
    (by simp [hfl]) hnd.of_cons
  simp only [hf1, kalloc_cons hfl, Option.isSome_some, ↓reduceIte, hpi]
  refine ⟨_, _, _, rfl, by rw [← hof₁, ← hof₂]; rfl, nofun, ?_⟩
  rintro _ _ ⟨⟩
  -- `a` is the first file taken, `b` the second; both were `FD_NONE` and hold one reference
  have hfa₂ : ft₂.file a = { ft.file a with ref := 1 } := by
    obtain ⟨_, rfl⟩ := filealloc_some hf1
    rw [FTable.setFile_file, Function.update_of_ne hab, hfa]
  have hfb₂ : ft₂.file b = { ft₁.file b with ref := 1 } := hfb
  refine hok₃.newPipe hab (List.nodup_cons.1 hnd).1 hpi hclosed (by simp [hfa₂, hta])
    (by simp [hfb₂, htb]) ⟨rfl, ?_, rfl, rfl, rfl⟩ ⟨?_, ?_, rfl, rfl, rfl⟩
  · simp [hfa₂]
  · simp [Function.update_of_ne (Ne.symm hab)]
  · simp [Function.update_of_ne (Ne.symm hab), hfb₂]

/-- `fileclose` touches no descriptor, so it commutes with setting one. -/
theorem fileclose_setOfile (v : Option (Fin NFILE)) :
    (ft.setOfile p fd v).fileclose f = (ft.fileclose f).map fun r => (r.1.setOfile p fd v, r.2) := by
  unfold FTable.fileclose
  by_cases h₁ : (ft.file f).ref < 1
  · simp [h₁]
  by_cases h₂ : (ft.file f).ref - 1 > 0
  · simp only [FTable.setOfile_file, h₁, h₂, if_false, if_true, Option.map_some]
    rfl
  simp only [FTable.setOfile_file, h₁, h₂, if_false]
  cases (ft.file f).type <;> rfl

/-- What a system call of `p` leaves: the table as the calls keep it, with nothing held, and the
descriptors of every other process as they were. -/
structure CallOK (ft ft' : FTable) (p : Fin NPROC) : Prop where
  ok : FileOK ft' 0
  others : ∀ q, q ≠ p → ft'.ofile q = ft.ofile q

theorem CallOK.refl (h : FileOK ft 0) : CallOK ft ft p := ⟨h, fun _ _ => rfl⟩

/-- **`sys_dup`** never panics: the new descriptor's reference is the one `filedup` adds. -/
theorem FileOK.sysDup (h : FileOK ft 0) (p : Fin NPROC) (fd : ℤ) :
    ∃ ft' r, ft.sysDup p fd = some (ft', r) ∧ CallOK ft ft' p := by
  unfold FTable.sysDup
  rcases ha : ft.argfd p fd with _ | ⟨i, f⟩
  · exact ⟨ft, -1, rfl, .refl h⟩
  rcases fdalloc_spec ft p f with hd | ⟨fd', hfd, hd⟩
  · exact ⟨ft, -1, by simp only [hd], .refl h⟩
  -- `filedup` after the new descriptor is set: as if the reference were taken first
  obtain ⟨ft₁, hdup, hok₁, hof₁⟩ := h.filedup (f := f) (by simpa using one_le_nrefs (argfd_some ha))
  have hfd₁ : ft₁.ofile p fd' = none := by rw [hof₁]; exact hfd
  refine ⟨ft₁.setOfile p fd' (some f), fd'.val, by simp [hd, filedup_setOfile, hdup],
    hok₁.setOfile_some (by simpa using hfd₁), fun q hq => ?_⟩
  rw [FTable.setOfile_other hq, hof₁]

/-- **`sys_close`** never panics: the descriptor is let go, and its reference closed. -/
theorem FileOK.sysClose (h : FileOK ft 0) (p : Fin NPROC) (fd : ℤ) :
    ∃ ft' r evs, ft.sysClose p fd = some (ft', r, evs) ∧ CallOK ft ft' p := by
  unfold FTable.sysClose
  rcases ha : ft.argfd p fd with _ | ⟨i, f⟩
  · exact ⟨ft, -1, [], rfl, .refl h⟩
  obtain ⟨ft₂, ev, hc, hok₂, hof₂⟩ := (h.setOfile_none (argfd_some ha)).fileclose
  refine ⟨ft₂, 0, ev.toList, by simp [hc], hok₂, fun q hq => ?_⟩
  rw [hof₂, FTable.setOfile_other hq]

/-- **The end of `sys_open`** never panics: the file gets the inode and the access of `omode`, or
is closed again when no descriptor is free. -/
theorem FileOK.openFile (h : FileOK ft 0) (p : Fin NPROC) (ip : ℕ) (device : Bool) (omode : Int32) :
    ∃ ft' r evs, ft.openFile p ip device omode = some (ft', r, evs) ∧ CallOK ft ft' p := by
  unfold FTable.openFile
  rcases hfa : ft.filealloc with ⟨ft₁, _ | f⟩
  · obtain rfl := filealloc_none hfa
    exact ⟨_, -1, _, rfl, .refl h⟩
  obtain ⟨hok₁, hof₁, hf₁, htype⟩ := h.filealloc hfa
  rcases fdalloc_spec ft₁ p f with hd | ⟨fd, hfd, hd⟩
  · -- no descriptor: the file is closed again
    obtain ⟨ft₂, ev, hc, hok₂, hof₂⟩ := hok₁.fileclose
    exact ⟨ft₂, -1, ev.toList ++ [.iput ip], by simp [hd, hc], hok₂, fun q _ => by rw [hof₂, hof₁]⟩
  have hok₂ := hok₁.setOfile_some (by simpa using hfd)
  refine ⟨_, fd.val, [], by simp only [hd]; rfl, ?_, fun q hq => ?_⟩
  · refine hok₂.setFile (hok₂.refs f) (fun h0 => ?_) (fun pi w => ?_) (fun _ _ => rfl)
    · simp [hf₁] at h0
    · simp only [File.IsEnd, FTable.setOfile_file, hf₁, htype]
      cases device <;> simp
  · rw [FTable.setFile_ofile, FTable.setOfile_other hq, hof₁]

/-- **`sys_pipe`** never panics: the two ends go to two descriptors of the caller, or, when a
descriptor or a `copyout` fails, the descriptors taken are let go and both ends closed again. -/
theorem FileOK.sysPipe (h : FileOK ft 0) (p : Fin NPROC) (ok : Bool) :
    ∃ ft' r evs, ft.sysPipe p ok = some (ft', r, evs) ∧ CallOK ft ft' p := by
  obtain ⟨ft₁, r, evs, hpa, hof₁, hnone, hsome⟩ := h.pipealloc
  unfold FTable.sysPipe
  simp only [hpa, Option.bind_some]
  rcases r with _ | ⟨rf, wf⟩
  · exact ⟨ft₁, -1, evs, rfl, hnone rfl, fun q _ => by rw [hof₁]⟩
  have hok₁ := hsome rf wf rfl
  -- the failure path: both ends closed again, from a table where only `p`'s descriptors changed
  have hfail : ∀ ft₂ : FTable, FileOK ft₂ (0 + Pi.single rf 1 + Pi.single wf 1) →
      (∀ q, q ≠ p → ft₂.ofile q = ft.ofile q) →
      ∃ ft' r evs', Option.map (fun x => (x.1, (-1 : ℤ), evs ++ x.2)) (ft₂.closeFiles [rf, wf]) =
        some (ft', r, evs') ∧ CallOK ft ft' p := by
    intro ft₂ hok₂ hof₂
    obtain ⟨ft₃, evs', hc, hok₃, hof₃⟩ := hok₂.closeTwo
    exact ⟨ft₃, -1, evs ++ evs', by simp [hc], hok₃, fun q hq => by rw [hof₃, hof₂ q hq]⟩
  simp only
  rcases fdalloc_spec ft₁ p rf with hd₀ | ⟨fd0, hfd0, hd₀⟩
  · simp only [hd₀]
    exact hfail ft₁ hok₁ fun q _ => by rw [hof₁]
  simp only [hd₀]
  -- the read end's reference is the descriptor's now
  have hok₂ : FileOK (ft₁.setOfile p fd0 (some rf)) (0 + Pi.single wf 1) :=
    (add_right_comm (0 : Fin NFILE → ℕ) _ _ ▸ hok₁).setOfile_some hfd0
  have hrf : (ft₁.setOfile p fd0 (some rf)).ofile p fd0 = some rf := by simp
  rcases fdalloc_spec (ft₁.setOfile p fd0 (some rf)) p wf with hd₁ | ⟨fd1, hfd1, hd₁⟩
  · -- no descriptor for the write end: the first one is let go
    simp only [hd₁]
    refine hfail _ ?_ fun q hq => by simp [hq, hof₁]
    exact add_right_comm (0 : Fin NFILE → ℕ) _ _ ▸ hok₂.setOfile_none hrf
  simp only [hd₁]
  have hne : fd0 ≠ fd1 := by
    rintro rfl
    simp at hfd1
  have hok₃ : FileOK ((ft₁.setOfile p fd0 (some rf)).setOfile p fd1 (some wf)) 0 :=
    hok₂.setOfile_some hfd1
  cases ok
  · -- a `copyout` fails: both descriptors are let go again
    refine hfail _ ?_ fun q hq => by simp [hq, hof₁]
    have hrf' : ((ft₁.setOfile p fd0 (some rf)).setOfile p fd1 (some wf)).ofile p fd0 = some rf := by
      simp [hne]
    have hwf : (((ft₁.setOfile p fd0 (some rf)).setOfile p fd1 (some wf)).setOfile p fd0 none).ofile p fd1 =
        some wf := by
      simp [Ne.symm hne]
    exact (hok₃.setOfile_none hrf').setOfile_none hwf
  · exact ⟨_, 0, evs, rfl, hok₃, fun q hq => by simp [hq, hof₁]⟩

end Inv

end Kernel

end Xv6Net
