import Xv6Net.Kernel.File
import Xv6Net.Kernel.Lifecycle

/-!
# Processes with open files (`proc.c`, `sysfile.c`)

The process table of `Xv6Net.Kernel.Lifecycle` and the file table of `Xv6Net.Kernel.File` as one
system.  `kfork` gives the child the parent's descriptors, `filedup` of each; `kexit`
`fileclose`s each of the caller's descriptors before it becomes a zombie; `sys_pipe`, `sys_dup`,
`sys_close` and the end of `sys_open` are calls of a process that can run.

* `SysInv` : the process table's invariant (`LifeInv`), the file table's with nothing held
  (`FileOK`), and no descriptors in an entry that is unused or a zombie.
* `SysInv.of_reachable` : every state the system reaches from the zeroed `ftable` satisfies it;
  `files_reachable` reads off what it says of the files.
* `FileOK.forkFiles`, `FileOK.exitFiles` : the loops of `kfork` and `kexit` never panic; the
  child gets the parent's descriptors, and the exiting process keeps none.
* `sysStep_none_iff` : from such a state, the only call that stops the system is the exit of
  `initproc`: `filedup` and `fileclose` never panic.

The wakeups of `pipeclose` and `kexit` are left out: no process sleeps on a pipe in this system,
and a `kwait` that sleeps scans again as its next call.  The inode layer behind `iput` and
`idup(p->cwd)` is not part of the model.
-/

namespace Xv6Net

namespace Kernel

/-- `proc[]` and `ftable`. -/
structure System where
  t : PTable
  ft : FTable

/-! ### The loops of `kfork` and `kexit` -/

/-- One round of `kfork`'s loop: `if(p->ofile[i]) np->ofile[i] = filedup(p->ofile[i])`. -/
def forkFile (self np : Fin NPROC) (ft : FTable) (i : Fin NOFILE) : Option FTable :=
  match ft.ofile self i with
  | none => some ft
  | some f => (ft.filedup f).map fun ft => ft.setOfile np i (some f)

/-- The loop of `kfork` over the descriptors of `self`, giving them to `np`. -/
def forkFiles (ft : FTable) (self np : Fin NPROC) : Option FTable :=
  (List.finRange NOFILE).foldlM (forkFile self np) ft

/-- One round of `kexit`'s loop: `if(p->ofile[fd]){ fileclose(f); p->ofile[fd] = 0; }`, with
what the `fileclose` did. -/
def exitFile (self : Fin NPROC) (acc : FTable × List CloseEv) (fd : Fin NOFILE) :
    Option (FTable × List CloseEv) :=
  match acc.1.ofile self fd with
  | none => some acc
  | some f => (acc.1.fileclose f).map fun (ft, ev) => (ft.setOfile self fd none, acc.2 ++ ev.toList)

/-- The loop of `kexit` over the descriptors of `self`. -/
def exitFiles (ft : FTable) (self : Fin NPROC) : Option (FTable × List CloseEv) :=
  (List.finRange NOFILE).foldlM (exitFile self) (ft, [])

/-! ### The system -/

/-- `kfork()` by `self`: the process table as `kfork` leaves it and, when the child is made in
the first unused entry `np` (its memory allocated and copied), the parent's descriptors given to
it. -/
def forkSys (s : System) (self : Fin NPROC) (mem copy : Bool) : Option (System × ℤ) :=
  let r := kfork s.t self mem copy
  match firstUnused s.t with
  | some np =>
    if mem && copy then (forkFiles s.ft self np).map fun ft => (⟨r.1, ft⟩, r.2)
    else some (⟨r.1, s.ft⟩, r.2)
  | none => some (⟨r.1, s.ft⟩, r.2)

/-- `kexit(status)` by `self`: the `panic` of `initproc`, or its descriptors closed, then the
rest of `kexit`. -/
def exitSys (s : System) (self : Fin NPROC) (status : ℤ) : Option (System × List CloseEv) :=
  if self = initproc then none
  else (exitFiles s.ft self).bind fun (ft, evs) => (kexit s.t self status).map fun t => (⟨t, ft⟩, evs)

/-- The calls of the system. -/
inductive SysOp
  | life (l : LifeOp)
  | pipe (self : Fin NPROC) (ok : Bool)
  | dup (self : Fin NPROC) (fd : ℤ)
  | close (self : Fin NPROC) (fd : ℤ)
  | openFile (self : Fin NPROC) (ip : ℕ) (device : Bool) (omode : Int32)

/-- What a call returns: a call of the lifecycle, an exit with what its `fileclose`s did, or a
call on files with its value and what its `fileclose`s did. -/
inductive SysOut
  | life (o : LifeOut)
  | exited (evs : List CloseEv)
  | ret (r : ℤ) (evs : List CloseEv)
  | idle

/-- A call on files by `self`, made when `self` can run. -/
def fileCall (s : System) (self : Fin NPROC) (r : Option (FTable × ℤ × List CloseEv)) :
    Option (System × SysOut) :=
  if (s.t.procs self).runs then r.map fun (ft, r, evs) => (⟨s.t, ft⟩, .ret r evs)
  else some (s, .idle)

/-- One call; `none` is a `panic`. -/
def sysStep (s : System) : SysOp → Option (System × SysOut)
  | .life (.fork self mem copy) =>
    if (s.t.procs self).runs then (forkSys s self mem copy).map fun (s, r) => (s, .life (.fork r))
    else some (s, .idle)
  | .life (.exit self status) =>
    if (s.t.procs self).runs then (exitSys s self status).map fun (s, evs) => (s, .exited evs)
    else some (s, .idle)
  | .life l => (lifeStep s.t l).map fun (t, o) => (⟨t, s.ft⟩, .life o)
  | .pipe self ok => fileCall s self (s.ft.sysPipe self ok)
  | .dup self fd => fileCall s self ((s.ft.sysDup self fd).map fun (ft, r) => (ft, r, []))
  | .close self fd => fileCall s self (s.ft.sysClose self fd)
  | .openFile self ip device omode => fileCall s self (s.ft.openFile self ip device omode)

/-- The zeroed `ftable`, no descriptors, no pipe open, and the free pages of `ph`. -/
def ftInit (ph : Phys) : FTable :=
  ⟨fun _ => ⟨.FD_NONE, 0, false, false, 0, 0⟩, fun _ _ => none,
    fun _ => ⟨⟨0, 0, false, false⟩, fun _ => 0⟩, ph⟩

/-- The system as a machine, from `userinit` with the free pages of `ph`. -/
def sysMachine (ph : Phys) : Machine (Option System) SysOp (Option SysOut) :=
  Machine.ofPartial ⟨ptInit, ftInit ph⟩ sysStep

/-! ### The loops keep the file table's invariant -/

section Loops

variable {ft : FTable} {self np : Fin NPROC}

/-- One round of `kfork`'s loop, into a free descriptor of the child. -/
theorem FileOK.forkRound (h : FileOK ft 0) (self : Fin NPROC) {i : Fin NOFILE}
    (hfree : ft.ofile np i = none) :
    ∃ ft', forkFile self np ft i = some ft' ∧ FileOK ft' 0 ∧
      ft'.ofile = (ft.setOfile np i (ft.ofile self i)).ofile := by
  unfold forkFile
  rcases hs : ft.ofile self i with _ | f
  · refine ⟨ft, rfl, h, ?_⟩
    rw [FTable.setOfile_ofile, ← hfree, Function.update_eq_self, Function.update_eq_self]
  · -- the parent's descriptor counts for `f`, so `filedup` does not panic
    obtain ⟨ft₁, hdup, hok₁, hof₁⟩ := h.filedup (f := f) (by simpa using one_le_nrefs hs)
    refine ⟨ft₁.setOfile np i (some f), by simp only [hdup]; rfl, hok₁.setOfile_some (by rwa [hof₁]), ?_⟩
    simp [hof₁]

/-- The rounds of `kfork`'s loop over distinct descriptors, free in the child. -/
theorem forkFiles_loop (hne : np ≠ self) (is : List (Fin NOFILE)) (hnd : is.Nodup) :
    ∀ ft : FTable, FileOK ft 0 → (∀ i ∈ is, ft.ofile np i = none) →
      ∃ ft', is.foldlM (forkFile self np) ft = some ft' ∧ FileOK ft' 0 ∧
        (∀ q, q ≠ np → ft'.ofile q = ft.ofile q) ∧
        ∀ i, ft'.ofile np i = if i ∈ is then ft.ofile self i else ft.ofile np i := by
  induction is with
  | nil => exact fun ft h _ => ⟨ft, rfl, h, fun _ _ => rfl, fun i => by simp⟩
  | cons i is ih =>
    intro ft h hfree
    obtain ⟨hi, hnd'⟩ := List.nodup_cons.1 hnd
    obtain ⟨ft₁, h₁, hok₁, hof₁⟩ := h.forkRound self (hfree i (by simp))
    -- the rest of the child's descriptors are still free
    have hfree₁ : ∀ j ∈ is, ft₁.ofile np j = none := fun j hj => by
      have hji : j ≠ i := fun e => hi (e ▸ hj)
      simp [hof₁, hji, hfree j (by simp [hj])]
    obtain ⟨ft₂, h₂, hok₂, hoth, hnp⟩ := ih hnd' ft₁ hok₁ hfree₁
    refine ⟨ft₂, by simp [h₁, h₂], hok₂, fun q hq => by rw [hoth q hq, hof₁]; simp [hq],
      fun j => ?_⟩
    rw [hnp j, hof₁]
    by_cases hj : j ∈ is
    · simp [hj, Ne.symm hne]
    · by_cases hji : j = i
      · subst hji
        simp [hj]
      · simp [hj, hji]

/-- **`kfork`'s loop** never panics when the child has no descriptors: the child gets the
parent's descriptors, each file one reference more, and no other process's descriptors
change. -/
theorem FileOK.forkFiles (h : FileOK ft 0) (hne : np ≠ self) (hfree : ∀ i, ft.ofile np i = none) :
    ∃ ft', forkFiles ft self np = some ft' ∧ FileOK ft' 0 ∧
      (∀ q, q ≠ np → ft'.ofile q = ft.ofile q) ∧ ft'.ofile np = ft.ofile self := by
  obtain ⟨ft', h', hok, hoth, hnp⟩ :=
    forkFiles_loop hne _ (List.nodup_finRange NOFILE) ft h fun i _ => hfree i
  exact ⟨ft', h', hok, hoth, funext fun i => by simp [hnp i]⟩

/-- One round of `kexit`'s loop. -/
theorem FileOK.exitRound (h : FileOK ft 0) (self : Fin NPROC) (evs : List CloseEv)
    (fd : Fin NOFILE) :
    ∃ ft' evs', exitFile self (ft, evs) fd = some (ft', evs') ∧ FileOK ft' 0 ∧
      ft'.ofile = (ft.setOfile self fd none).ofile := by
  unfold exitFile
  dsimp only
  rcases hs : ft.ofile self fd with _ | f
  · refine ⟨ft, evs, rfl, h, ?_⟩
    rw [FTable.setOfile_ofile, ← hs, Function.update_eq_self, Function.update_eq_self]
  · -- as if the descriptor were let go first: `fileclose` does not look at it
    obtain ⟨ft₂, ev, hc, hok₂, hof₂⟩ := (h.setOfile_none hs).fileclose
    rw [fileclose_setOfile] at hc
    obtain ⟨⟨ft₁, ev'⟩, hc₁, he⟩ := Option.map_eq_some_iff.1 hc
    obtain ⟨rfl, rfl⟩ := Prod.mk.inj he
    exact ⟨_, _, by simp only [hc₁]; rfl, hok₂, hof₂⟩

/-- The rounds of `kexit`'s loop. -/
theorem exitFiles_loop (self : Fin NPROC) (fds : List (Fin NOFILE)) :
    ∀ (ft : FTable) (evs : List CloseEv), FileOK ft 0 →
      ∃ ft' evs', fds.foldlM (exitFile self) (ft, evs) = some (ft', evs') ∧ FileOK ft' 0 ∧
        (∀ q, q ≠ self → ft'.ofile q = ft.ofile q) ∧
        ∀ fd, ft'.ofile self fd = if fd ∈ fds then none else ft.ofile self fd := by
  induction fds with
  | nil => exact fun ft evs h => ⟨ft, evs, rfl, h, fun _ _ => rfl, fun fd => by simp⟩
  | cons fd fds ih =>
    intro ft evs h
    obtain ⟨ft₁, evs₁, h₁, hok₁, hof₁⟩ := h.exitRound self evs fd
    obtain ⟨ft₂, evs₂, h₂, hok₂, hoth, hself⟩ := ih ft₁ evs₁ hok₁
    refine ⟨ft₂, evs₂, by simp [h₁, h₂], hok₂, fun q hq => by rw [hoth q hq, hof₁]; simp [hq],
      fun j => ?_⟩
    rw [hself j, hof₁]
    by_cases hj : j ∈ fds
    · simp [hj]
    · by_cases hjd : j = fd
      · subst hjd
        simp [hj]
      · simp [hj, hjd]

/-- **`kexit`'s loop** never panics: every descriptor of the caller is closed, and no other
process's descriptors change. -/
theorem FileOK.exitFiles (h : FileOK ft 0) (self : Fin NPROC) :
    ∃ ft' evs, exitFiles ft self = some (ft', evs) ∧ FileOK ft' 0 ∧
      (∀ q, q ≠ self → ft'.ofile q = ft.ofile q) ∧ ∀ fd, ft'.ofile self fd = none := by
  obtain ⟨ft', evs, h', hok, hoth, hself⟩ := exitFiles_loop self (List.finRange NOFILE) ft [] h
  exact ⟨ft', evs, h', hok, hoth, fun fd => by simp [hself fd]⟩

end Loops

/-! ### What the calls of the lifecycle do to the entries -/

/-- `kfork` with no unused entry changes nothing. -/
theorem kfork_of_none {t : PTable} (h : firstUnused t = none) (self : Fin NPROC) (mem copy : Bool) :
    (kfork t self mem copy).1 = t := by
  simp [kfork, allocproc, h]

/-- What `kfork` does to the entries when the first unused one is `np`: only `np` changes; it
runs when its memory was allocated and copied, and is unused again otherwise. -/
theorem kfork_procs {t : PTable} {np : Fin NPROC} (h : firstUnused t = some np) (self : Fin NPROC)
    (mem copy : Bool) :
    ∃ c : Proc, (kfork t self mem copy).1.procs = Function.update t.procs np c ∧
      c.state = if mem && copy then .RUNNABLE else .UNUSED := by
  cases mem <;> cases copy <;> simp [kfork, allocproc, allocpid, freeproc, Proc.free, h] <;>
    exact ⟨_, rfl, rfl⟩

/-- `kkill` keeps every entry live or not as it was. -/
theorem kkill_live (procs : Procs) (pid : ℤ) (q : Fin NPROC) :
    ((kkill procs pid).1 q).Live ↔ (procs q).Live := by
  rcases kkill_state_cases procs pid q with e | ⟨e₁, e₂⟩
  · simp [Proc.Live, e]
  · simp [Proc.Live, e₁, e₂]

/-- `kwait` frees only a zombie: every entry is live or not as it was. -/
theorem kwait_live (t : PTable) (self : Fin NPROC) (copyOk : Bool) (q : Fin NPROC) :
    ((kwait t self copyOk).1.procs q).Live ↔ (t.procs q).Live := by
  rcases kwait_cases t self copyOk with e | ⟨pid, status, e⟩
  · rw [e]
  have hk : kwait t self copyOk = ((kwait t self copyOk).1, .reaped pid status) := Prod.ext rfl e
  obtain ⟨j, -, hj, -, -, e'⟩ := kwait_reaped hk
  rw [e']
  by_cases hq : q = j
  · subst hq
    simp [freeproc, Proc.free, Proc.Live, hj]
  · simp [freeproc, hq]

/-! ### The invariant of the system -/

/-- The invariant of the system: the process table's, the file table's with nothing held, and no
descriptor in an entry that is unused or a zombie. -/
structure SysInv (s : System) : Prop where
  life : LifeInv s.t
  files : FileOK s.ft 0
  idle : ∀ q fd, ¬ (s.t.procs q).Live → s.ft.ofile q fd = none

/-- The zeroed `ftable` with distinct free pages, none of them `0`. -/
theorem sysInv_init (ph : Phys) (hnd : ph.freelist.Nodup) (hnz : ∀ x ∈ ph.freelist, x ≠ 0) :
    SysInv ⟨ptInit, ftInit ph⟩ where
  life := lifeInv_init
  files :=
    { refs := fun f => by
        rw [nrefs_eq_zero fun q fd => (rfl : (ftInit ph).ofile q fd = none)]
        rfl
      none_of_zero := fun _ _ => rfl
      ends := fun pi w => by cases w <;> simp [ftInit, endOpen, File.IsEnd]
      unique := fun f _ _ _ hf => by simp [ftInit, File.IsEnd] at hf
      open_page := fun pi w ho => by cases w <;> simp [ftInit, endOpen] at ho
      nodup := hnd
      nonzero := hnz }
  idle := fun _ _ _ => rfl

section Steps

variable {s : System}

/-- A call that changes no descriptor, and leaves every entry live or not as it was. -/
theorem SysInv.keepFiles (h : SysInv s) {t' : PTable} (hlife : LifeInv t')
    (hlive : ∀ q, (t'.procs q).Live ↔ (s.t.procs q).Live) : SysInv ⟨t', s.ft⟩ :=
  ⟨hlife, h.files, fun q fd hq => h.idle q fd (by rwa [hlive] at hq)⟩

/-- **`kfork` with the files** never panics: the child, if it is made, was unused and so had no
descriptors, and gets the parent's. -/
theorem SysInv.forkSys_some (h : SysInv s) {self : Fin NPROC} (hr : (s.t.procs self).runs)
    (mem copy : Bool) : ∃ s' r, forkSys s self mem copy = some (s', r) ∧ SysInv s' := by
  have hlife := h.life.fork hr mem copy
  unfold forkSys
  rcases hf : firstUnused s.t with _ | np
  · refine ⟨_, _, rfl, hlife, h.files, ?_⟩
    rw [kfork_of_none hf]
    exact h.idle
  obtain ⟨c, hc, hcs⟩ := kfork_procs hf self mem copy
  have hnp : (s.t.procs np).state = .UNUSED := firstUnused_state hf
  have hne : np ≠ self := by
    rintro rfl
    simp [Proc.runs, hnp] at hr
  have hfree : ∀ i, s.ft.ofile np i = none := fun i => h.idle np i fun hl => hl.1 hnp
  -- every entry but `np` keeps its state
  have hkeep : ∀ q, q ≠ np → (kfork s.t self mem copy).1.procs q = s.t.procs q := fun q hq => by
    rw [hc, Function.update_of_ne hq]
  cases hmc : (mem && copy)
  · -- no child: `np` is unused again, and the descriptors stay as they were
    refine ⟨⟨_, s.ft⟩, _, rfl, hlife, h.files, fun q fd hq => ?_⟩
    by_cases hqn : q = np
    · subst hqn
      exact hfree fd
    · exact h.idle q fd (by rwa [hkeep q hqn] at hq)
  · obtain ⟨ft', hfk, hok, hoth, -⟩ := h.files.forkFiles hne hfree
    refine ⟨⟨_, ft'⟩, (kfork s.t self mem copy).2, by simp [hfk], hlife, hok, fun q fd hq => ?_⟩
    -- the child runs, so an entry that is not live is another one
    have hqn : q ≠ np := by
      rintro rfl
      refine hq (Proc.Live.of_runs ?_)
      simp [hc, hcs, hmc, Proc.runs]
    rw [hoth q hqn]
    exact h.idle q fd (by rwa [hkeep q hqn] at hq)

/-- **`kexit` with the files** never panics for a process other than `initproc`: it closes each
of its descriptors before it becomes a zombie. -/
theorem SysInv.exitSys_some (h : SysInv s) {self : Fin NPROC} (hr : (s.t.procs self).runs)
    (hne : self ≠ initproc) (status : ℤ) :
    ∃ s' evs, exitSys s self status = some (s', evs) ∧ SysInv s' := by
  obtain ⟨ft', evs, hx, hok, hoth, hself⟩ := h.files.exitFiles self
  rcases hk : kexit s.t self status with _ | t'
  · simp [kexit, hne] at hk
  refine ⟨⟨t', ft'⟩, evs, by simp [exitSys, hne, hx, hk], h.life.exit hr hk, hok, fun q fd hq => ?_⟩
  obtain ⟨-, rfl⟩ := kexit_eq hk
  by_cases hqs : q = self
  · subst hqs
    exact hself fd
  · rw [hoth q hqs]
    exact h.idle q fd (by simpa [hqs] using hq)

/-- A call on files by `self` that, when `self` can run, goes through and changes only the
descriptors of `self`. -/
theorem SysInv.fileCall_some (h : SysInv s) (self : Fin NPROC) {r : Option (FTable × ℤ × List CloseEv)}
    (hr : (s.t.procs self).runs → ∃ ft' v evs, r = some (ft', v, evs) ∧ CallOK s.ft ft' self) :
    ∃ s' o, fileCall s self r = some (s', o) ∧ SysInv s' := by
  unfold fileCall
  by_cases hrun : (s.t.procs self).runs
  · obtain ⟨ft', v, evs, rfl, hok, hoth⟩ := hr hrun
    refine ⟨⟨s.t, ft'⟩, .ret v evs, by rw [if_pos hrun]; rfl, h.life, hok, fun q fd hq => ?_⟩
    -- the caller runs, so an entry that is not live is another one
    have hqs : q ≠ self := by
      rintro rfl
      exact hq (.of_runs hrun)
    rw [hoth q hqs]
    exact h.idle q fd hq
  · exact ⟨s, .idle, by rw [if_neg hrun], h⟩

/-- **Every call but the exit of `initproc` goes through**, and keeps the invariant. -/
theorem SysInv.step_some (h : SysInv s) (l : SysOp)
    (hl : ∀ status, l ≠ .life (.exit initproc status)) :
    ∃ s' o, sysStep s l = some (s', o) ∧ SysInv s' := by
  cases l with
  | life l =>
    cases l with
    | fork self mem copy =>
      by_cases hr : (s.t.procs self).runs
      · obtain ⟨s', r, hf, hs'⟩ := h.forkSys_some hr mem copy
        exact ⟨s', .life (.fork r), by simp [sysStep, hr, hf], hs'⟩
      · exact ⟨s, .idle, by simp [sysStep, hr], h⟩
    | exit self status =>
      have hne : self ≠ initproc := fun e => hl status (by rw [e])
      by_cases hr : (s.t.procs self).runs
      · obtain ⟨s', evs, hx, hs'⟩ := h.exitSys_some hr hne status
        exact ⟨s', .exited evs, by simp [sysStep, hr, hx], hs'⟩
      · exact ⟨s, .idle, by simp [sysStep, hr], h⟩
    | wait self copyOk =>
      by_cases hr : (s.t.procs self).runs
      · exact ⟨_, .life (.wait (kwait s.t self copyOk).2), by simp [sysStep, lifeStep, hr],
          h.keepFiles (h.life.wait self copyOk) (kwait_live s.t self copyOk)⟩
      · exact ⟨s, .life .idle, by simp [sysStep, lifeStep, hr], h⟩
    | kill pid =>
      exact ⟨_, .life (.kill (kkill s.t.procs pid).2), by simp [sysStep, lifeStep],
        h.keepFiles (h.life.kill pid) (kkill_live s.t.procs pid)⟩
  | pipe self ok => exact h.fileCall_some self fun _ => h.files.sysPipe self ok
  | dup self fd =>
    refine h.fileCall_some self fun _ => ?_
    obtain ⟨ft', r, hd, hc⟩ := h.files.sysDup self fd
    exact ⟨ft', r, [], by simp [hd], hc⟩
  | close self fd => exact h.fileCall_some self fun _ => h.files.sysClose self fd
  | openFile self ip device omode => exact h.fileCall_some self fun _ => h.files.openFile self ip device omode

/-- The exit of `initproc`, which can always run, is the `panic`. -/
theorem sysStep_exit_initproc (h : SysInv s) (status : ℤ) :
    sysStep s (.life (.exit initproc status)) = none := by
  simp [sysStep, h.life.init_runs, exitSys]

theorem SysInv.step (h : SysInv s) {l : SysOp} {s' : System} {o : SysOut}
    (hs : sysStep s l = some (s', o)) : SysInv s' := by
  by_cases hl : ∃ status, l = .life (.exit initproc status)
  · obtain ⟨status, rfl⟩ := hl
    rw [sysStep_exit_initproc h] at hs
    cases hs
  · simp only [not_exists] at hl
    obtain ⟨s'', o', hs', hinv⟩ := h.step_some l hl
    rw [hs'] at hs
    cases hs
    exact hinv

end Steps

/-- The invariant of the system holds in every state it reaches from the zeroed `ftable` with
distinct free pages. -/
theorem SysInv.of_reachable {ph : Phys} (hnd : ph.freelist.Nodup) (hnz : ∀ x ∈ ph.freelist, x ≠ 0)
    {s : System} (h : (sysMachine ph).Reachable (some s)) : SysInv s :=
  Machine.Reachable.ofPartial_induction SysInv (sysInv_init ph hnd hnz)
    (fun _ _ _ _ hinv hs => hinv.step hs) h

/-- **The file table in every state the system reaches.**  Each file's `ref` is the number of
descriptors, over all processes, that refer to it; each open end of a pipe is one file in use,
and its page is not free; and unused entries and zombies hold no descriptors. -/
theorem files_reachable {ph : Phys} (hnd : ph.freelist.Nodup) (hnz : ∀ x ∈ ph.freelist, x ≠ 0)
    {s : System} (h : (sysMachine ph).Reachable (some s)) :
    (∀ f, (s.ft.file f).ref = nrefs s.ft.ofile f) ∧
      (∀ pi w, endOpen (s.ft.pipes pi) w = true →
        (∃! f, (s.ft.file f).IsEnd pi w) ∧ pi ∉ s.ft.phys.freelist) ∧
      ∀ q fd, ¬ (s.t.procs q).Live → s.ft.ofile q fd = none := by
  have hinv := SysInv.of_reachable hnd hnz h
  refine ⟨fun f => by simpa using hinv.files.refs f, fun pi w ho => ⟨?_, (hinv.files.open_page pi w ho).1⟩,
    hinv.idle⟩
  obtain ⟨f, hf⟩ := (hinv.files.ends pi w).1 ho
  exact ⟨f, hf, fun g hg => hinv.files.unique g f pi w hg hf⟩

/-- Two free pages, and the state after `initproc` makes a pipe and duplicates its read end. -/
def twoPages : Phys := ⟨[4096, 8192], fun _ => []⟩

def pipeDupState : System :=
  ((sysMachine twoPages).run (sysMachine twoPages).init [.pipe initproc true, .dup initproc 0]).get
    (by decide)

theorem pipeDupState_reachable : (sysMachine twoPages).Reachable (some pipeDupState) := by
  rw [pipeDupState, Option.some_get]
  exact Machine.Reachable.of_run _

theorem files_reachable_pipeDupState :
    (∀ f, (pipeDupState.ft.file f).ref = nrefs pipeDupState.ft.ofile f) ∧
      (∀ pi w, endOpen (pipeDupState.ft.pipes pi) w = true →
        (∃! f, (pipeDupState.ft.file f).IsEnd pi w) ∧ pi ∉ pipeDupState.ft.phys.freelist) ∧
      ∀ q fd, ¬ (pipeDupState.t.procs q).Live → pipeDupState.ft.ofile q fd = none :=
  files_reachable (by decide) (by decide) pipeDupState_reachable

/-- **Only the exit of `initproc` stops the system.**  In every state the system reaches, a call
panics exactly when it is the exit of `initproc`: `filedup` and `fileclose` never do. -/
theorem sysStep_none_iff {ph : Phys} (hnd : ph.freelist.Nodup) (hnz : ∀ x ∈ ph.freelist, x ≠ 0)
    {s : System} (h : (sysMachine ph).Reachable (some s)) (l : SysOp) :
    sysStep s l = none ↔ ∃ status, l = .life (.exit initproc status) := by
  have hinv := SysInv.of_reachable hnd hnz h
  constructor
  · intro hs
    by_contra hl
    simp only [not_exists] at hl
    obtain ⟨_, _, hs', -⟩ := hinv.step_some l hl
    rw [hs] at hs'
    cases hs'
  · rintro ⟨status, rfl⟩
    exact sysStep_exit_initproc hinv status

theorem sysStep_none_iff_pipeDupState :
    sysStep pipeDupState (.life (.exit initproc 0)) = none ↔
      ∃ status, SysOp.life (.exit initproc 0) = .life (.exit initproc status) :=
  sysStep_none_iff (by decide) (by decide) pipeDupState_reachable _

end Kernel

end Xv6Net
