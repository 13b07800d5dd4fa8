import Xv6Net.Kernel.Proc
import Xv6Net.Machine.Basic
import Xv6Net.Bytes.Basic

/-!
# Process creation, exit and reaping (`proc.c`)

The process table as `kfork`, `kexit` and `kwait` see it: the entries of `Proc`, with each
process's parent and exit status beside them, and the counter `nextpid` of `allocpid`.  Each
call is one atomic step, made by a process that can run.  The allocations of `allocproc`
(trapframe page, page table) and the `uvmcopy` of `kfork` either succeed or fail, as the label
says.  `kexit` by `initproc` is the kernel `panic`, which stops the machine.  A `kwait` that
finds children but no zombie among them sleeps: the table stays as it is, and when the caller
is woken it scans again, which is its next `wait`.

`nextpid` is an `int`, incremented by `allocpid` on every allocation, whether or not the
allocation then succeeds, and never reset.  As compiled, the increment wraps around modulo
`2 ^ 32`, so after `2 ^ 32` allocations `allocpid` hands out `1` again, the pid of `initproc`,
which never exits.

* `lifeInv_reachable` : every process but `initproc` that is not `UNUSED` has a parent that is
  neither `UNUSED` nor a zombie, and `initproc` stays runnable.
* `kwait_reaped` and `kwait_failed` : what `kwait` returns, and that a failed `copyout` leaves
  the zombie in place.
* `run_rounds` : `k` rounds of a fork by `initproc`, the child's exit and `initproc`'s wait give
  back the table of `initproc` alone, with `nextpid` advanced `k` times.
* `pid_wraps_onto_initproc` : after `2 ^ 32 - 1` such rounds, the next child of `initproc` gets
  pid `1`: two live processes share a pid.
-/

namespace Xv6Net

namespace Kernel

open Bytes

/-- `proc[]` with the fields `parent` and `xstate`, and `nextpid`. -/
structure PTable where
  procs : Procs
  parent : Fin NPROC → Option (Fin NPROC)
  xstate : Fin NPROC → ℤ
  nextpid : ℤ

/-- `userinit`'s `allocproc` takes the first slot. -/
def initproc : Fin NPROC := 0

/-- An entry as `freeproc` leaves it. -/
def Proc.free : Proc := ⟨.UNUSED, 0, false, 0⟩

/-- The table after `userinit`: `initproc` with pid `1`, every other entry unused. -/
def ptInit : PTable :=
  ⟨Function.update (fun _ => Proc.free) initproc ⟨.RUNNABLE, 0, false, 1⟩, fun _ => none,
    fun _ => 0, 2⟩

/-- `nextpid + 1` on a 32-bit `int`, wrapping around as the compiled addition does. -/
def intSucc (x : ℤ) : ℤ := toInt32 ((x + 1) % 2 ^ 32).toNat

/-- `allocpid()`: the table with `nextpid` advanced, and the pid. -/
def allocpid (t : PTable) : PTable × ℤ := ({ t with nextpid := intSucc t.nextpid }, t.nextpid)

/-- `freeproc(p)`. -/
def freeproc (t : PTable) (i : Fin NPROC) : PTable :=
  { t with
    procs := Function.update t.procs i Proc.free
    parent := Function.update t.parent i none
    xstate := Function.update t.xstate i 0 }

/-- The first `UNUSED` entry, as `allocproc` scans for it. -/
def firstUnused (t : PTable) : Option (Fin NPROC) :=
  (List.finRange NPROC).find? fun i => (t.procs i).state = .UNUSED

/-- `allocproc()`: the first unused entry gets a pid and becomes `USED`; `mem` says whether
its trapframe page and page table are allocated, and if not it is freed again. -/
def allocproc (t : PTable) (mem : Bool) : PTable × Option (Fin NPROC) :=
  match firstUnused t with
  | none => (t, none)
  | some i =>
    let (t, pid) := allocpid t
    let e := t.procs i
    let t := { t with procs := Function.update t.procs i { e with pid := pid, state := .USED } }
    if mem then (t, some i) else (freeproc t i, none)

/-- `kfork()` by `self`: the table after the call and its return value; `copy` says whether the
`uvmcopy` of the user memory succeeds. -/
def kfork (t : PTable) (self : Fin NPROC) (mem copy : Bool) : PTable × ℤ :=
  match allocproc t mem with
  | (t, none) => (t, -1)
  | (t, some i) =>
    if copy then
      let e := t.procs i
      ({ t with
          parent := Function.update t.parent i (some self)
          procs := Function.update t.procs i { e with state := .RUNNABLE } }, e.pid)
    else (freeproc t i, -1)

/-- `reparent(p)`: the children of `p` become children of `initproc`. -/
def reparent (t : PTable) (p : Fin NPROC) : PTable :=
  { t with parent := fun j => if t.parent j = some p then some initproc else t.parent j }

/-- `kexit(status)` by `self`: `reparent`, then the caller becomes a zombie with its exit
status; `none` is the `panic` of `initproc` exiting. -/
def kexit (t : PTable) (self : Fin NPROC) (status : ℤ) : Option PTable :=
  if self = initproc then none
  else
    let t := reparent t self
    let e := t.procs self
    some { t with
      xstate := Function.update t.xstate self status
      procs := Function.update t.procs self { e with state := .ZOMBIE } }

/-- What a call of `kwait` comes to. -/
inductive WaitOut
  /-- It freed a zombie child: its pid, returned, and its exit status, copied out. -/
  | reaped (pid status : ℤ)
  /-- It returned `-1`. -/
  | failed
  /-- It sleeps until a child exits. -/
  | blocked
  deriving DecidableEq, Repr

/-- The children of `self`, in table order. -/
def children (t : PTable) (self : Fin NPROC) : List (Fin NPROC) :=
  (List.finRange NPROC).filter fun j => t.parent j = some self

/-- `kwait(addr)` by `self`: the first zombie among its children in table order is freed, unless
the `copyout` of its status fails (`copyOk = false`); with no zombie child it returns `-1` if it
has no children or has been killed, and sleeps otherwise. -/
def kwait (t : PTable) (self : Fin NPROC) (copyOk : Bool) : PTable × WaitOut :=
  match (children t self).find? fun j => (t.procs j).state = .ZOMBIE with
  | some j => if copyOk then (freeproc t j, .reaped (t.procs j).pid (t.xstate j)) else (t, .failed)
  | none => if children t self = [] ∨ (t.procs self).killed then (t, .failed) else (t, .blocked)

/-- The system calls of the process lifecycle. -/
inductive LifeOp
  | fork (self : Fin NPROC) (mem copy : Bool)
  | exit (self : Fin NPROC) (status : ℤ)
  | wait (self : Fin NPROC) (copyOk : Bool)
  | kill (pid : ℤ)

/-- What a step returns; `idle` when the process named by the label cannot run. -/
inductive LifeOut
  | fork (r : ℤ)
  | exited
  | wait (w : WaitOut)
  | kill (r : ℤ)
  | idle

/-- A process that can make a system call. -/
def Proc.runs (p : Proc) : Bool := p.state = .RUNNABLE || p.state = .RUNNING

/-- One call; `none` is a `panic`. -/
def lifeStep (t : PTable) : LifeOp → Option (PTable × LifeOut)
  | .fork self mem copy =>
    if (t.procs self).runs then some ((kfork t self mem copy).1, .fork (kfork t self mem copy).2)
    else some (t, .idle)
  | .exit self status =>
    if (t.procs self).runs then (kexit t self status).map fun t' => (t', .exited)
    else some (t, .idle)
  | .wait self copyOk =>
    if (t.procs self).runs then some ((kwait t self copyOk).1, .wait (kwait t self copyOk).2)
    else some (t, .idle)
  | .kill pid => some ({ t with procs := (kkill t.procs pid).1 }, .kill (kkill t.procs pid).2)

/-- The process table as a machine, from `userinit`. -/
def lifeMachine : Machine (Option PTable) LifeOp (Option LifeOut) := Machine.ofPartial ptInit lifeStep

/-! ### What each call changes -/

theorem firstUnused_state {t : PTable} {i : Fin NPROC} (h : firstUnused t = some i) :
    (t.procs i).state = .UNUSED := by
  simpa using List.find?_some h

/-- The zombie child that `kwait` picks. -/
theorem find_zombie_child {t : PTable} {self j : Fin NPROC}
    (h : (children t self).find? (fun j => (t.procs j).state = .ZOMBIE) = some j) :
    t.parent j = some self ∧ (t.procs j).state = .ZOMBIE := by
  have hm := List.mem_of_find?_eq_some h
  simp only [children, List.mem_filter, decide_eq_true_eq] at hm
  exact ⟨hm.2, by simpa using List.find?_some h⟩

/-- **Everything `kfork` can do to the table.**  Either it finds no unused entry and changes
nothing, or it changes one unused entry `i` (and the counter): it leaves it unused, or gives it
the caller as parent. -/
theorem kfork_cases (t : PTable) (self : Fin NPROC) (mem copy : Bool) :
    (kfork t self mem copy).1 = t ∨
      ∃ i c q xs n, (t.procs i).state = .UNUSED ∧ (c.state = .UNUSED ∨ q = some self) ∧
        (kfork t self mem copy).1 =
          ⟨Function.update t.procs i c, Function.update t.parent i q, xs, n⟩ := by
  unfold kfork allocproc
  cases hf : firstUnused t with
  | none => exact .inl rfl
  | some i =>
    right
    have hu := firstUnused_state hf
    -- a failed allocation, or a failed copy, frees the entry it has just filled
    cases mem
    · exact ⟨i, Proc.free, none, Function.update t.xstate i 0, intSucc t.nextpid, hu, .inl rfl,
        by simp [allocpid, freeproc]⟩
    cases copy
    · exact ⟨i, Proc.free, none, Function.update t.xstate i 0, intSucc t.nextpid, hu, .inl rfl,
        by simp [allocpid, freeproc]⟩
    · exact ⟨i, ⟨.RUNNABLE, (t.procs i).chan, (t.procs i).killed, t.nextpid⟩, some self, t.xstate,
        intSucc t.nextpid, hu, .inr rfl, by simp [allocpid]⟩

/-- `kexit` by `self`. -/
theorem kexit_eq {t t' : PTable} {self : Fin NPROC} {status : ℤ}
    (h : kexit t self status = some t') :
    self ≠ initproc ∧ t' = ⟨Function.update t.procs self { t.procs self with state := .ZOMBIE },
      fun j => if t.parent j = some self then some initproc else t.parent j,
      Function.update t.xstate self status, t.nextpid⟩ := by
  unfold kexit at h
  split_ifs at h with hs
  exact ⟨hs, (Option.some.inj h).symm⟩

/-- **What `kwait` returns with a pid.**  It freed a zombie child of the caller, and returns
that child's pid and exit status. -/
theorem kwait_reaped {t t' : PTable} {self : Fin NPROC} {copyOk : Bool} {pid status : ℤ}
    (h : kwait t self copyOk = (t', .reaped pid status)) :
    ∃ j, t.parent j = some self ∧ (t.procs j).state = .ZOMBIE ∧ pid = (t.procs j).pid ∧
      status = t.xstate j ∧ t' = freeproc t j := by
  unfold kwait at h
  split at h
  · rename_i j hj
    split_ifs at h
    · obtain ⟨rfl, hpid, hst⟩ : _ ∧ _ ∧ _ := by simpa using h
      exact ⟨j, (find_zombie_child hj).1, (find_zombie_child hj).2, hpid.symm, hst.symm, rfl⟩
    · simp at h
  · split_ifs at h <;> simp at h

/-- **When `kwait` returns `-1`.**  The caller has no children, or has been killed, or the
`copyout` of the status failed; in the last case there is a zombie child, and it is left in
place. -/
theorem kwait_failed {t t' : PTable} {self : Fin NPROC} {copyOk : Bool}
    (h : kwait t self copyOk = (t', .failed)) :
    t' = t ∧ (children t self = [] ∨ (t.procs self).killed ∨
      copyOk = false ∧ ∃ j, t.parent j = some self ∧ (t.procs j).state = .ZOMBIE) := by
  unfold kwait at h
  split at h
  · rename_i j hj
    split_ifs at h with hc
    · simp at h
    · obtain rfl : t = t' := by simpa using h
      exact ⟨rfl, .inr (.inr ⟨by simpa using hc, j, find_zombie_child hj⟩)⟩
  · split_ifs at h with hk
    · obtain rfl : t = t' := by simpa using h
      exact ⟨rfl, hk.imp_right .inl⟩
    · simp at h

/-- `kkill` only wakes sleeping processes: being live and being unused are as before. -/
theorem kkill_state_cases (procs : Procs) (pid : ℤ) (j : Fin NPROC) :
    ((kkill procs pid).1 j).state = (procs j).state ∨
      (procs j).state = .SLEEPING ∧ ((kkill procs pid).1 j).state = .RUNNABLE := by
  by_cases hs : (procs j).state = .SLEEPING
  · rcases kkill_cases procs pid with e | ⟨i, -, e⟩
    · left; rw [e]
    · rw [e]
      by_cases hj : j = i
      · subst hj
        right
        simp [Proc.kill_state_of_eq hs, hs]
      · left; simp [hj]
  · exact .inl (kkill_state procs pid j hs)

/-- `kwait` changes the table only when it reaps a child. -/
theorem kwait_cases (t : PTable) (self : Fin NPROC) (copyOk : Bool) :
    (kwait t self copyOk).1 = t ∨ ∃ pid status, (kwait t self copyOk).2 = .reaped pid status := by
  unfold kwait
  split
  · split_ifs
    · exact .inr ⟨_, _, rfl⟩
    · exact .inl rfl
  · split_ifs <;> exact .inl rfl

/-- **A zombie leaves the table only through its parent's `kwait`.**  Every step keeps it a
zombie, except a `wait` by its parent that frees it and returns its pid and exit status. -/
theorem zombie_step {t t' : PTable} {l : LifeOp} {o : LifeOut} {j : Fin NPROC}
    (hj : (t.procs j).state = .ZOMBIE) (hs : lifeStep t l = some (t', o)) :
    (t'.procs j).state = .ZOMBIE ∨
      ∃ p copyOk, l = .wait p copyOk ∧ t.parent j = some p ∧
        o = .wait (.reaped (t.procs j).pid (t.xstate j)) ∧ t' = freeproc t j := by
  -- a process that runs is not the zombie
  have hrun : ∀ p, (t.procs p).runs → p ≠ j := by
    rintro p hp rfl
    simp [Proc.runs, hj] at hp
  cases l with
  | fork self mem copy =>
    left
    simp only [lifeStep] at hs
    split_ifs at hs <;> obtain ⟨rfl, -⟩ := Prod.mk.inj (Option.some.inj hs)
    · rcases kfork_cases t self mem copy with e | ⟨i, c, q, xs, n, hi, -, e⟩
      · rwa [e]
      · have hij : j ≠ i := by rintro rfl; simp [hj] at hi
        simpa [e, hij] using hj
    · exact hj
  | exit self status =>
    left
    simp only [lifeStep] at hs
    split_ifs at hs with hr
    · obtain ⟨t'', he, e⟩ := Option.map_eq_some_iff.1 hs
      obtain rfl := (Prod.mk.inj e).1
      obtain ⟨-, rfl⟩ := kexit_eq he
      simpa [(hrun self hr).symm] using hj
    · obtain ⟨rfl, -⟩ := Prod.mk.inj (Option.some.inj hs)
      exact hj
  | wait self copyOk =>
    simp only [lifeStep] at hs
    split_ifs at hs
    · obtain ⟨rfl, rfl⟩ := Prod.mk.inj (Option.some.inj hs)
      rcases kwait_cases t self copyOk with e | ⟨pid, status, e⟩
      · exact .inl (by rw [e]; exact hj)
      · obtain ⟨j', hp, -, hpid, hst, e'⟩ := kwait_reaped (Prod.ext rfl e)
        by_cases hjj : j' = j
        · subst hjj
          exact .inr ⟨self, copyOk, rfl, hp, by rw [e, hpid, hst], e'⟩
        · left
          simpa [e', freeproc, Ne.symm hjj] using hj
    · obtain ⟨rfl, -⟩ := Prod.mk.inj (Option.some.inj hs)
      exact .inl hj
  | kill pid =>
    left
    obtain ⟨rfl, -⟩ := Prod.mk.inj (Option.some.inj hs)
    rcases kkill_state_cases t.procs pid j with e | ⟨e₁, -⟩
    · exact e.trans hj
    · simp [hj] at e₁

/-! ### Parents -/

/-- A process that is neither `UNUSED` nor a zombie. -/
def Proc.Live (p : Proc) : Prop := p.state ≠ .UNUSED ∧ p.state ≠ .ZOMBIE

theorem Proc.Live.of_runs {p : Proc} (h : p.runs) : p.Live := by
  simp only [Proc.runs, Bool.or_eq_true, decide_eq_true_eq] at h
  constructor <;> rcases h with h | h <;> simp [h]

/-- The invariant of the process table: `initproc` can always run, and every other process that
is not `UNUSED` has a parent that is live, so that its exit is seen by a process that can still
wait for it. -/
structure LifeInv (t : PTable) : Prop where
  init_runs : (t.procs initproc).runs
  parent_live : ∀ j, j ≠ initproc → (t.procs j).state ≠ .UNUSED →
    ∃ k, t.parent j = some k ∧ (t.procs k).Live

theorem lifeInv_init : LifeInv ptInit where
  init_runs := by decide
  parent_live := by
    intro j hj hu
    simp [ptInit, hj, Proc.free] at hu

variable {t : PTable}

/-- Filling an unused entry, with a live parent if the entry is not left unused. -/
theorem LifeInv.fill (h : LifeInv t) {i : Fin NPROC} (hi : (t.procs i).state = .UNUSED) {c : Proc}
    {q : Option (Fin NPROC)} (hq : c.state ≠ .UNUSED → ∃ k, q = some k ∧ k ≠ i ∧ (t.procs k).Live)
    (xs : Fin NPROC → ℤ) (n : ℤ) :
    LifeInv ⟨Function.update t.procs i c, Function.update t.parent i q, xs, n⟩ := by
  have hne : initproc ≠ i := by
    rintro rfl
    simpa [Proc.runs, hi] using h.init_runs
  refine ⟨by simpa [hne] using h.init_runs, ?_⟩
  intro j hj hu
  by_cases hji : j = i
  · subst hji
    obtain ⟨k, rfl, hki, hk⟩ := hq (by simpa using hu)
    exact ⟨k, by simp, by simpa [hki] using hk⟩
  · obtain ⟨k, hk, hl⟩ := h.parent_live j hj (by simpa [hji] using hu)
    -- the parent of `j` is live, so it is not the unused entry `i`
    have hki : k ≠ i := by rintro rfl; exact hl.1 hi
    exact ⟨k, by simp [hji, hk], by simpa [hki] using hl⟩

theorem LifeInv.fork (h : LifeInv t) {self : Fin NPROC} (hs : (t.procs self).runs)
    (mem copy : Bool) : LifeInv (kfork t self mem copy).1 := by
  rcases kfork_cases t self mem copy with e | ⟨i, c, q, xs, n, hi, hc, e⟩
  · rwa [e]
  · rw [e]
    refine h.fill hi (fun hu => ⟨self, ?_, ?_, .of_runs hs⟩) xs n
    · exact hc.resolve_left hu
    -- the caller can run, so it is not the unused entry
    · rintro rfl
      simp [Proc.runs, hi] at hs

/-- `kexit` hands the children of the caller to `initproc`, which can run, before the caller
becomes a zombie. -/
theorem LifeInv.exit (h : LifeInv t) {self : Fin NPROC} (hs : (t.procs self).runs) {status : ℤ}
    {t' : PTable} (he : kexit t self status = some t') : LifeInv t' := by
  obtain ⟨hne, rfl⟩ := kexit_eq he
  refine ⟨by simpa [Ne.symm hne] using h.init_runs, ?_⟩
  intro j hj hu
  dsimp only at hu ⊢
  have hu₀ : (t.procs j).state ≠ .UNUSED := by
    by_cases hjs : j = self
    · subst hjs; simpa using (Proc.Live.of_runs hs).1
    · simpa [hjs] using hu
  by_cases hp : t.parent j = some self
  · exact ⟨initproc, by simp [hp], by simpa [Ne.symm hne] using Proc.Live.of_runs h.init_runs⟩
  · obtain ⟨k, hk, hl⟩ := h.parent_live j hj hu₀
    have hks : k ≠ self := by rintro rfl; exact hp hk
    exact ⟨k, by simp [hk, hks], by simpa [hks] using hl⟩

/-- Freeing a zombie: no process that is not unused has it as parent. -/
theorem LifeInv.free (h : LifeInv t) {j : Fin NPROC} (hj : (t.procs j).state = .ZOMBIE) :
    LifeInv (freeproc t j) := by
  have hne : initproc ≠ j := by
    rintro rfl
    simpa [Proc.runs, hj] using h.init_runs
  refine ⟨by simpa [freeproc, hne] using h.init_runs, ?_⟩
  intro m hm hu
  have hmj : m ≠ j := by rintro rfl; simp [freeproc, Proc.free] at hu
  obtain ⟨k, hk, hl⟩ := h.parent_live m hm (by simpa [freeproc, hmj] using hu)
  have hkj : k ≠ j := by rintro rfl; exact hl.2 hj
  exact ⟨k, by simp [freeproc, hmj, hk], by simpa [freeproc, hkj] using hl⟩

theorem LifeInv.wait (h : LifeInv t) (self : Fin NPROC) (copyOk : Bool) :
    LifeInv (kwait t self copyOk).1 := by
  unfold kwait
  split
  · rename_i j hj
    split_ifs
    · exact h.free (find_zombie_child hj).2
    · exact h
  · split_ifs <;> exact h

theorem LifeInv.kill (h : LifeInv t) (pid : ℤ) : LifeInv { t with procs := (kkill t.procs pid).1 } := by
  -- `kkill` keeps every entry live or unused as it was
  have hlive : ∀ j, ((kkill t.procs pid).1 j).Live ↔ (t.procs j).Live := by
    intro j
    rcases kkill_state_cases t.procs pid j with e | ⟨e₁, e₂⟩
    · simp [Proc.Live, e]
    · simp [Proc.Live, e₁, e₂]
  have hunused : ∀ j, ((kkill t.procs pid).1 j).state = .UNUSED ↔ (t.procs j).state = .UNUSED := by
    intro j
    rcases kkill_state_cases t.procs pid j with e | ⟨e₁, e₂⟩
    · simp [e]
    · simp [e₁, e₂]
  have hruns : ((kkill t.procs pid).1 initproc).runs := by
    have hr := h.init_runs
    rcases kkill_state_cases t.procs pid initproc with e | ⟨-, e⟩ <;> simp_all [Proc.runs]
  refine ⟨hruns, fun j hj hu => ?_⟩
  obtain ⟨k, hk, hl⟩ := h.parent_live j hj (by simpa [hunused] using hu)
  exact ⟨k, hk, (hlive k).2 hl⟩

theorem LifeInv.step (h : LifeInv t) {l : LifeOp} {t' : PTable} {o : LifeOut}
    (hs : lifeStep t l = some (t', o)) : LifeInv t' := by
  cases l with
  | fork self mem copy =>
    simp only [lifeStep] at hs
    split_ifs at hs with hr <;> obtain ⟨rfl, -⟩ := Prod.mk.inj (Option.some.inj hs)
    · exact h.fork hr mem copy
    · exact h
  | exit self status =>
    simp only [lifeStep] at hs
    split_ifs at hs with hr
    · obtain ⟨t'', he, e⟩ := Option.map_eq_some_iff.1 hs
      obtain rfl := (Prod.mk.inj e).1
      exact h.exit hr he
    · exact (Prod.mk.inj (Option.some.inj hs)).1 ▸ h
  | wait self copyOk =>
    simp only [lifeStep] at hs
    split_ifs at hs <;> obtain ⟨rfl, -⟩ := Prod.mk.inj (Option.some.inj hs)
    · exact h.wait self copyOk
    · exact h
  | kill pid =>
    obtain ⟨rfl, -⟩ := Prod.mk.inj (Option.some.inj hs)
    exact h.kill pid

/-- **The parent invariant.**  In every state the table reaches, `initproc` can run and every
other process that is not `UNUSED` has a live parent. -/
theorem lifeInv_reachable {t : PTable} (h : lifeMachine.Reachable (some t)) : LifeInv t :=
  Machine.Reachable.ofPartial_induction LifeInv lifeInv_init
    (fun _ _ _ _ hinv hs => hinv.step hs) h

/-- After `initproc` forks a child and the child exits, the invariant holds. -/
theorem lifeInv_after_fork_exit :
    let t := (lifeMachine.run lifeMachine.init [.fork initproc true true, .exit 1 0]).getD ptInit
    lifeMachine.Reachable (some t) ∧ LifeInv t := by
  intro t
  have hreach : lifeMachine.Reachable (some t) :=
    Machine.Reachable.of_run [LifeOp.fork initproc true true, LifeOp.exit 1 0]
  exact ⟨hreach, lifeInv_reachable hreach⟩

/-! ### `nextpid` wraps around -/

theorem intSucc_emod (x : ℤ) : intSucc x % 2 ^ 32 = (x + 1) % 2 ^ 32 := by
  have h : ((((x + 1) % 2 ^ 32).toNat % 2 ^ 32 : ℕ) : ℤ) = (x + 1) % 2 ^ 32 := by omega
  unfold intSucc toInt32
  split_ifs <;> omega

theorem intSucc_bounds (x : ℤ) : -2 ^ 31 ≤ intSucc x ∧ intSucc x < 2 ^ 31 := by
  have h : ((((x + 1) % 2 ^ 32).toNat % 2 ^ 32 : ℕ) : ℤ) = (x + 1) % 2 ^ 32 := by omega
  unfold intSucc toInt32
  split_ifs <;> omega

example : intSucc (2 ^ 31 - 1) = -2 ^ 31 := by decide

/-- `k` calls of `allocpid` add `k` to `nextpid` modulo `2 ^ 32`. -/
theorem iterate_intSucc_emod (k : ℕ) (x : ℤ) : intSucc^[k] x % 2 ^ 32 = (x + k) % 2 ^ 32 := by
  induction k with
  | zero => simp
  | succ k ih =>
    rw [Function.iterate_succ_apply', intSucc_emod, Int.add_emod, ih, ← Int.add_emod]
    push_cast
    ring_nf

/-- `initproc` alone, with the counter at `n`. -/
def initOnly (n : ℤ) : PTable := { ptInit with nextpid := n }

/-- A fork by `initproc` that succeeds, the exit of the child, which takes the first free entry,
and `initproc`'s wait. -/
def round : List LifeOp := [.fork initproc true true, .exit 1 0, .wait initproc true]

/-- `k` rounds. -/
def rounds (k : ℕ) : List LifeOp := (List.replicate k round).flatten

theorem ptInit_procs_one : ptInit.procs 1 = Proc.free := rfl

theorem ptInit_parent (j : Fin NPROC) : ptInit.parent j = none := rfl

theorem firstUnused_initOnly (n : ℤ) : firstUnused (initOnly n) = some 1 := by
  show firstUnused ptInit = some 1
  decide

/-- The child of a round: slot `1`, runnable, with pid `n`. -/
def forked (n : ℤ) : PTable :=
  ⟨Function.update ptInit.procs 1 ⟨.RUNNABLE, 0, false, n⟩,
    Function.update ptInit.parent 1 (some initproc), ptInit.xstate, intSucc n⟩

theorem kfork_initOnly (n : ℤ) : kfork (initOnly n) initproc true true = (forked n, n) := by
  unfold kfork allocproc
  rw [firstUnused_initOnly]
  simp [allocpid, forked, initOnly, ptInit_procs_one, Proc.free]

/-- The child of a round after its exit with status `0`. -/
def exited (n : ℤ) : PTable :=
  ⟨Function.update ptInit.procs 1 ⟨.ZOMBIE, 0, false, n⟩,
    Function.update ptInit.parent 1 (some initproc), ptInit.xstate, intSucc n⟩

theorem kexit_forked (n : ℤ) : kexit (forked n) 1 0 = some (exited n) := by
  rw [kexit, if_neg (by decide)]
  simp only [reparent, forked, exited, Option.some.injEq, PTable.mk.injEq]
  refine ⟨by simp, ?_, ?_, trivial⟩
  -- the child has no children to hand on, and its status `0` is what the table held
  · funext j
    by_cases hj : j = 1 <;> simp [hj, ptInit_parent]
  · funext j
    by_cases hj : j = 1 <;> simp [hj, ptInit]

theorem children_exited (n : ℤ) : children (exited n) initproc = [1] := by
  show (List.finRange NPROC).filter
    (fun j => Function.update ptInit.parent 1 (some initproc) j = some initproc) = [1]
  decide

theorem kwait_exited (n : ℤ) :
    kwait (exited n) initproc true = (initOnly (intSucc n), .reaped n 0) := by
  unfold kwait
  rw [children_exited]
  simp only [List.find?_cons_of_pos, exited, Function.update_self, decide_true]
  rw [if_pos trivial]
  refine Prod.ext ?_ rfl
  simp only [freeproc, Function.update_idem]
  -- freeing slot `1` gives back what `userinit` left there
  rw [Function.update_eq_self_iff.2 ptInit_procs_one.symm,
    Function.update_eq_self_iff (f := ptInit.parent) |>.2 (ptInit_parent 1).symm,
    Function.update_eq_self_iff (f := ptInit.xstate) (a := 1) (b := 0) |>.2 rfl]
  rfl

theorem lifeStep_fork_initOnly (n : ℤ) :
    lifeStep (initOnly n) (.fork initproc true true) = some (forked n, .fork n) := by
  rw [lifeStep, kfork_initOnly]
  rfl

/-- **One round.**  It gives back `initproc` alone, with `nextpid` one further. -/
theorem run_round (n : ℤ) : lifeMachine.run (some (initOnly n)) round = some (initOnly (intSucc n)) := by
  have h₁ := lifeStep_fork_initOnly n
  have h₂ : lifeStep (forked n) (.exit 1 0) = some (exited n, .exited) := by
    rw [lifeStep, kexit_forked]
    rfl
  have h₃ : lifeStep (exited n) (.wait initproc true) =
      some (initOnly (intSucc n), .wait (.reaped n 0)) := by
    rw [lifeStep, kwait_exited]
    rfl
  simp only [round, Machine.run_cons, Machine.run_nil, lifeMachine, Machine.ofPartial_step,
    Machine.partialStep_some h₁, Machine.partialStep_some h₂, Machine.partialStep_some h₃]

/-- **`k` rounds** from `initproc` alone leave it alone, with `nextpid` advanced `k` times. -/
theorem run_rounds (k : ℕ) (n : ℤ) :
    lifeMachine.run (some (initOnly n)) (rounds k) = some (initOnly (intSucc^[k] n)) := by
  induction k generalizing n with
  | zero => rfl
  | succ k ih =>
    rw [rounds, List.replicate_succ, List.flatten_cons, Machine.run_append, run_round,
      ← rounds, ih, Function.iterate_succ_apply]

/-- The counter after `2 ^ 32 - 1` rounds from `userinit`'s `2` is back at `1`. -/
theorem iterate_intSucc_wraps : intSucc^[2 ^ 32 - 1] 2 = 1 := by
  have hb := intSucc_bounds (intSucc^[2 ^ 32 - 2] 2)
  have hm := iterate_intSucc_emod (2 ^ 32 - 1) 2
  rw [show 2 ^ 32 - 1 = (2 ^ 32 - 2) + 1 from rfl, Function.iterate_succ_apply'] at hm ⊢
  generalize intSucc (intSucc^[2 ^ 32 - 2] 2) = m at hb hm ⊢
  push_cast at hm
  omega

/-- **`allocpid` hands out `initproc`'s pid again.**  After `2 ^ 32 - 1` rounds of a fork by
`initproc`, the child's exit and `initproc`'s wait, the next child of `initproc` gets pid `1`:
`initproc` and its child are both runnable and share a pid. -/
theorem pid_wraps_onto_initproc :
    ∃ t, lifeMachine.run lifeMachine.init (rounds (2 ^ 32 - 1) ++ [.fork initproc true true]) = some t ∧
      (t.procs initproc).state = .RUNNABLE ∧ (t.procs 1).state = .RUNNABLE ∧
      (t.procs 1).pid = (t.procs initproc).pid := by
  refine ⟨forked 1, ?_, rfl, rfl, rfl⟩
  have h := Machine.partialStep_some (lifeStep_fork_initOnly 1)
  rw [Machine.run_append, show lifeMachine.init = some (initOnly 2) from rfl, run_rounds,
    iterate_intSucc_wraps]
  simp only [Machine.run_cons, Machine.run_nil, lifeMachine, Machine.ofPartial_step, h]

end Kernel

end Xv6Net
