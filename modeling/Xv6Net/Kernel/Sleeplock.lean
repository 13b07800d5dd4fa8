import Xv6Net.Kernel.Proc
import Xv6Net.Machine.Basic

/-!
# Sleep locks (`sleeplock.c`)

A sleep lock is a flag `locked` and the pid of its holder, under a spinlock `lk`.
`acquiresleep` takes `lk` and sleeps on the sleep lock's address while `locked` is set (`sleep`
gives `lk` up and takes it back on waking), then sets `locked` and records its pid;
`releasesleep` clears both and wakes every process sleeping on the address.  Its callers in
`bio.c` and `fs.c` release only after `holdingsleep` says that they hold the lock, and panic
otherwise (`brelse`, `iunlock`).

Everything a sleep lock does runs under `lk`, and `sleep` gives `lk` up only once the caller is
`SLEEPING` (so no wake-up is lost between the test and the sleep, as `Kernel.Sleep` shows), so a
call, and a return from `sleep` up to the next sleep or the end of the call, is one atomic step.
The model `SlSys` has the lock, the process table of `Kernel.Proc`, and for each process whether
it is in the loop of `acquiresleep` (`waiting`) and whether it holds the lock (`holds`: it has
returned from `acquiresleep` and not released since, a field the code does not have).  The rest
of the kernel may kill any process and call `wakeup` on any channel at any time.

* `waitOK_reachable` : a waiter sleeps on the lock's address or has been woken, and it sleeps
  only while the lock is taken.
* `sleeplock_wakes_waiters` : whenever the lock is free, every waiter is `RUNNABLE`, and when the
  scheduler runs it, it takes the lock.
* `sleeplock_exclusive` : with distinct pids, at most one process holds the lock, and `locked` is
  set exactly when one does.
* `release_panics_iff` : the release of `brelse` and `iunlock` panics exactly when the caller
  does not hold the lock.

The scheduling of processes outside the lock's code (`yield`, sleeps on other channels) is left
out: the only process the model's scheduler runs is a woken waiter.
-/

namespace Xv6Net

namespace Kernel

/-- `struct sleeplock`, without its spinlock `lk` and its name. -/
structure Sleeplock where
  locked : Bool
  pid : ℤ
  deriving DecidableEq, Repr

/-- `initsleeplock`. -/
def initsleeplock : Sleeplock := ⟨false, 0⟩

/-- One sleep lock with the process table. -/
structure SlSys where
  lock : Sleeplock
  procs : Procs
  /-- The process is in the loop of `acquiresleep`. -/
  waiting : Fin NPROC → Bool
  /-- The process has returned from `acquiresleep` and not called `releasesleep` since. -/
  holds : Fin NPROC → Bool

section Calls

variable (c : ℕ) (s : SlSys) (i : Fin NPROC)

/-- The loop of `acquiresleep(lk)` by the process `i` holding `lk->lk`, `c` being the address of
`lk`: `sleep(lk, &lk->lk)` while the lock is taken, else `lk->locked = 1; lk->pid =
myproc()->pid`. -/
def acquiresleep : SlSys :=
  if s.lock.locked then
    { s with procs := sleepEnter s.procs i c, waiting := Function.update s.waiting i true }
  else
    { s with
      lock := ⟨true, (s.procs i).pid⟩
      waiting := Function.update s.waiting i false
      holds := Function.update s.holds i true }

/-- `releasesleep(lk)` by the process `i`. -/
def releasesleep : SlSys :=
  { s with
    lock := ⟨false, 0⟩
    procs := wakeup s.procs (some i) c
    holds := Function.update s.holds i false }

/-- `holdingsleep(lk)` by the process `i`. -/
def holdingsleep : Bool := s.lock.locked && s.lock.pid == (s.procs i).pid

end Calls

/-- A process runs its own code when it is `RUNNING` and not inside the loop of
`acquiresleep`. -/
def SlSys.runs (s : SlSys) (i : Fin NPROC) : Prop :=
  (s.procs i).state = .RUNNING ∧ s.waiting i = false

instance (s : SlSys) (i : Fin NPROC) : Decidable (s.runs i) :=
  inferInstanceAs (Decidable (_ ∧ _))

/-- A step of the system. -/
inductive SlOp
  /-- The running process `i` calls `acquiresleep`. -/
  | acquire (i : Fin NPROC)
  /-- The scheduler runs the woken waiter `i`: the rest of `sleep`, then the loop's test. -/
  | resume (i : Fin NPROC)
  /-- The running process `i` releases the lock as `brelse` and `iunlock` do. -/
  | release (i : Fin NPROC)
  /-- `kkill(pid)`. -/
  | kill (pid : ℤ)
  /-- `wakeup(chan)` elsewhere in the kernel, by the process `self`. -/
  | wakeup (self : Option (Fin NPROC)) (chan : ℕ)
  deriving DecidableEq, Repr

/-- One step of the lock at address `c`; `none` is a panic. -/
def slStep (c : ℕ) (s : SlSys) : SlOp → Option (SlSys × Unit)
  | .acquire i => some (if s.runs i then acquiresleep c s i else s, ())
  | .resume i =>
    some (if s.waiting i = true ∧ (s.procs i).state = .RUNNABLE then
      acquiresleep c { s with procs := sleepReturn s.procs i } i else s, ())
  | .release i =>
    if s.runs i then
      -- `if(!holdingsleep(&b->lock)) panic("brelse")`, and the same test in `iunlock`
      if holdingsleep s i then some (releasesleep c s i, ()) else none
    else some (s, ())
  | .kill pid => some ({ s with procs := (kkill s.procs pid).1 }, ())
  | .wakeup self chan => some ({ s with procs := wakeup s.procs self chan }, ())

/-- The lock after `initsleeplock`, with the process table `procs₀` and no process in its code. -/
def slInit (procs₀ : Procs) : SlSys := ⟨initsleeplock, procs₀, fun _ => false, fun _ => false⟩

/-- The sleep lock at address `c` as a machine that may panic. -/
def sleeplockMachine (c : ℕ) (procs₀ : Procs) : Machine (Option SlSys) SlOp (Option Unit) :=
  Machine.ofPartial (slInit procs₀) (slStep c)

/-! ### What the rest of the kernel does to the table -/

/-- `p` is `procs` with some sleeping processes woken: every entry keeps its pid and channel, and
its state unless it went from `SLEEPING` to `RUNNABLE`. -/
def Wakes (procs p : Procs) : Prop :=
  ∀ j, (p j).pid = (procs j).pid ∧ (p j).chan = (procs j).chan ∧
    ((p j).state = (procs j).state ∨ (procs j).state = .SLEEPING ∧ (p j).state = .RUNNABLE)

theorem Proc.wakes_wake (chan : ℕ) (p : Proc) :
    (p.wake chan).pid = p.pid ∧ (p.wake chan).chan = p.chan ∧
      ((p.wake chan).state = p.state ∨ p.state = .SLEEPING ∧ (p.wake chan).state = .RUNNABLE) := by
  refine ⟨Proc.wake_pid chan p, Proc.wake_chan chan p, ?_⟩
  rw [Proc.wake_state]
  split_ifs with h
  · exact .inr ⟨h.1, rfl⟩
  · exact .inl rfl

theorem wakes_wakeup (procs : Procs) (self : Option (Fin NPROC)) (chan : ℕ) :
    Wakes procs (wakeup procs self chan) := fun j => by
  unfold wakeup
  split_ifs
  · exact ⟨rfl, rfl, .inl rfl⟩
  · exact Proc.wakes_wake chan (procs j)

theorem wakes_kkill (procs : Procs) (pid : ℤ) : Wakes procs (kkill procs pid).1 := fun j => by
  rcases kkill_cases procs pid with e | ⟨i, -, e⟩
  · rw [e]
    exact ⟨rfl, rfl, .inl rfl⟩
  · rw [e]
    by_cases hj : j = i
    · subst hj
      rw [Function.update_self]
      by_cases hs : (procs j).state = .SLEEPING
      · exact ⟨rfl, rfl, .inr ⟨hs, Proc.kill_state_of_eq hs⟩⟩
      · exact ⟨rfl, rfl, .inl (Proc.kill_state_of_ne hs)⟩
    · rw [Function.update_of_ne hj]
      exact ⟨rfl, rfl, .inl rfl⟩

/-- **Everything a step can do.**  Nothing; an `acquiresleep` by a running process; a woken
waiter run again; a release by a running process that `holdingsleep` says holds the lock; or
the rest of the kernel waking processes. -/
theorem slStep_cases {c : ℕ} {s s' : SlSys} {l : SlOp} {o : Unit} (h : slStep c s l = some (s', o)) :
    s' = s ∨ (∃ i, s.runs i ∧ s' = acquiresleep c s i) ∨
      (∃ i, s.waiting i = true ∧ (s.procs i).state = .RUNNABLE ∧
        s' = acquiresleep c { s with procs := sleepReturn s.procs i } i) ∨
      (∃ i, s.runs i ∧ holdingsleep s i = true ∧ s' = releasesleep c s i) ∨
      ∃ p, Wakes s.procs p ∧ s' = { s with procs := p } := by
  cases l with
  | acquire i =>
    simp only [slStep, Option.some.injEq, Prod.mk.injEq] at h
    split_ifs at h with hr
    · exact .inr (.inl ⟨i, hr, h.1.symm⟩)
    · exact .inl h.1.symm
  | resume i =>
    simp only [slStep, Option.some.injEq, Prod.mk.injEq] at h
    split_ifs at h with hw
    · exact .inr (.inr (.inl ⟨i, hw.1, hw.2, h.1.symm⟩))
    · exact .inl h.1.symm
  | release i =>
    simp only [slStep] at h
    split_ifs at h with hr hh
    · cases h
      exact .inr (.inr (.inr (.inl ⟨i, hr, hh, rfl⟩)))
    · cases h
      exact .inl rfl
  | kill pid =>
    cases h
    exact .inr (.inr (.inr (.inr ⟨_, wakes_kkill s.procs pid, rfl⟩)))
  | wakeup self chan =>
    cases h
    exact .inr (.inr (.inr (.inr ⟨_, wakes_wakeup s.procs self chan, rfl⟩)))

/-! ### Waiters -/

/-- What holds of a process in the loop of `acquiresleep`: it sleeps on the lock's address or
has been woken, and it sleeps only while the lock is taken. -/
def WaitOK (c : ℕ) (s : SlSys) (j : Fin NPROC) : Prop :=
  s.waiting j = true →
    ((s.procs j).state = .SLEEPING ∧ (s.procs j).chan = c ∨ (s.procs j).state = .RUNNABLE) ∧
      ((s.procs j).state = .SLEEPING → s.lock.locked = true)

section Waiters

variable {c : ℕ} {s : SlSys} {i j : Fin NPROC}

/-- The caller of `acquiresleep` ends as a waiter that `WaitOK` describes, or out of the loop. -/
theorem waitOK_acquiresleep_self : WaitOK c (acquiresleep c s i) i := by
  unfold acquiresleep
  split_ifs with hl
  · intro _
    simp [hl]
  · simp [WaitOK]

theorem waitOK_acquiresleep_of_ne (hj : j ≠ i) (h : WaitOK c s j) :
    WaitOK c (acquiresleep c s i) j := by
  unfold acquiresleep
  split_ifs with hl
  · simpa [WaitOK, sleepEnter_other _ _ hj, Function.update_of_ne hj] using h
  · -- the lock is now taken: only the first half is left
    intro hw
    simp only [Function.update_of_ne hj] at hw
    exact ⟨(h hw).1, fun _ => rfl⟩

/-- `acquiresleep` keeps `WaitOK` of every process, whatever held of its caller. -/
theorem waitOK_acquiresleep (h : ∀ j, j ≠ i → WaitOK c s j) (j : Fin NPROC) :
    WaitOK c (acquiresleep c s i) j := by
  by_cases hj : j = i
  · exact hj ▸ waitOK_acquiresleep_self
  · exact waitOK_acquiresleep_of_ne hj (h j hj)

/-- `releasesleep` wakes every waiter: each one sleeps on the lock's address. -/
theorem waitOK_releasesleep (hi : s.waiting i = false) (h : WaitOK c s j) :
    WaitOK c (releasesleep c s i) j := by
  intro hw
  have hji : j ≠ i := by
    rintro rfl
    simp_all [releasesleep]
  simp only [releasesleep, wakeup, Option.some.injEq, hji.symm, if_false] at hw ⊢
  rcases (h hw).1 with ⟨hs, hc⟩ | hr
  · -- asleep on the lock's address: woken
    have hwk : ((s.procs j).wake c).state = .RUNNABLE := hc ▸ Proc.wake_state_of_eq hs
    exact ⟨.inr hwk, fun h' => by simp [hwk] at h'⟩
  · rw [Proc.wake_state_of_ne c (by simp [hr])]
    exact ⟨.inr hr, fun h' => by simp [hr] at h'⟩

/-- Waking processes keeps `WaitOK`. -/
theorem WaitOK.wakes {p : Procs} (hp : Wakes s.procs p) (h : WaitOK c s j) :
    WaitOK c { s with procs := p } j := by
  intro hw
  obtain ⟨-, hc, hs | ⟨-, hr⟩⟩ := hp j
  · simpa [hs, hc] using h hw
  · exact ⟨.inr hr, fun h' => by simp [hr] at h'⟩

/-- Every step keeps `WaitOK` of every process. -/
theorem waitOK_step {s' : SlSys} {l : SlOp} {o : Unit} (h : ∀ j, WaitOK c s j)
    (hs : slStep c s l = some (s', o)) (j : Fin NPROC) : WaitOK c s' j := by
  rcases slStep_cases hs with rfl | ⟨i, -, rfl⟩ | ⟨i, -, -, rfl⟩ | ⟨i, hr, -, rfl⟩ | ⟨p, hp, rfl⟩
  · exact h j
  · exact waitOK_acquiresleep (fun j _ => h j) j
  · -- only the waiter's own entry changes before the loop's test
    refine waitOK_acquiresleep (fun j hj => ?_) j
    simpa [WaitOK, sleepReturn_other _ hj] using h j
  · exact waitOK_releasesleep hr.2 (h j)
  · exact (h j).wakes hp

theorem waitOK_reachable {procs₀ : Procs} {s : SlSys}
    (h : (sleeplockMachine c procs₀).Reachable (some s)) (j : Fin NPROC) : WaitOK c s j :=
  Machine.Reachable.ofPartial_induction (fun s => ∀ j, WaitOK c s j)
    (fun j hw => by simp [slInit] at hw) (fun _ _ _ _ hs h => waitOK_step hs h) h j

end Waiters

/-- **No waiter is left asleep on a free lock.**  In every state the system reaches, whenever
the lock is free, each process in the loop of `acquiresleep` has been woken, and when the
scheduler runs it, it takes the lock. -/
theorem sleeplock_wakes_waiters {c : ℕ} {procs₀ : Procs} {s : SlSys} {i : Fin NPROC}
    (h : (sleeplockMachine c procs₀).Reachable (some s)) (hw : s.waiting i = true)
    (hfree : s.lock.locked = false) :
    (s.procs i).state = .RUNNABLE ∧ ∃ s', slStep c s (.resume i) = some (s', ()) ∧
      s'.holds i = true ∧ s'.lock.pid = (s.procs i).pid := by
  have hok := waitOK_reachable h i hw
  have hr : (s.procs i).state = .RUNNABLE := by
    rcases hok.1 with ⟨hs, -⟩ | hr
    · simp [hok.2 hs] at hfree
    · exact hr
  refine ⟨hr, _, rfl, ?_⟩
  simp [hw, hr, acquiresleep, hfree]

/-- Processes running with the pids `1`, `2`, ... -/
def runningProcs : Procs := fun i => ⟨.RUNNING, 0, false, i.val + 1⟩

/-- Process `0` takes the lock, process `1` starts to wait for it, and process `0` releases it:
process `1` is woken, and takes the lock when it runs. -/
theorem sleeplock_wakes_waiters_handover :
    let s := ((sleeplockMachine 7 runningProcs).run (sleeplockMachine 7 runningProcs).init
      [SlOp.acquire 0, .acquire 1, .release 0]).getD (slInit runningProcs)
    s.waiting 1 = true ∧ s.lock.locked = false ∧ (s.procs 1).state = .RUNNABLE ∧
      ∃ s', slStep 7 s (.resume 1) = some (s', ()) ∧ s'.holds 1 = true ∧
        s'.lock.pid = (s.procs 1).pid := by
  intro s
  have hreach : (sleeplockMachine 7 runningProcs).Reachable (some s) :=
    Machine.Reachable.of_run [SlOp.acquire 0, .acquire 1, .release 0]
  have hw : s.waiting 1 = true := by decide
  have hfree : s.lock.locked = false := by decide
  exact ⟨hw, hfree, sleeplock_wakes_waiters hreach hw hfree⟩

/-! ### Mutual exclusion -/

/-- Distinct processes in use have distinct pids. -/
def LiveDistinct (procs : Procs) : Prop :=
  ∀ i j, (procs i).state ≠ .UNUSED → (procs j).state ≠ .UNUSED → (procs i).pid = (procs j).pid →
    i = j

/-- `p` is `procs` with every pid, and the set of entries in use, as they were. -/
def SameLive (procs p : Procs) : Prop :=
  ∀ j, (p j).pid = (procs j).pid ∧ ((p j).state = .UNUSED ↔ (procs j).state = .UNUSED)

theorem Wakes.sameLive {procs p : Procs} (h : Wakes procs p) : SameLive procs p := fun j => by
  obtain ⟨hpid, -, hs | ⟨hs, hr⟩⟩ := h j
  · exact ⟨hpid, by rw [hs]⟩
  · exact ⟨hpid, by simp [hs, hr]⟩

theorem sameLive_sleepEnter {procs : Procs} {i : Fin NPROC} (c : ℕ)
    (hi : (procs i).state ≠ .UNUSED) : SameLive procs (sleepEnter procs i c) := fun j => by
  by_cases hj : j = i
  · subst hj
    simp [hi]
  · rw [sleepEnter_other _ _ hj]
    exact ⟨rfl, Iff.rfl⟩

theorem sameLive_sleepReturn {procs : Procs} {i : Fin NPROC} (hi : (procs i).state ≠ .UNUSED) :
    SameLive procs (sleepReturn procs i) := fun j => by
  by_cases hj : j = i
  · subst hj
    simp [hi]
  · rw [sleepReturn_other _ hj]
    exact ⟨rfl, Iff.rfl⟩

theorem LiveDistinct.of_sameLive {procs p : Procs} (h : LiveDistinct procs) (hp : SameLive procs p) :
    LiveDistinct p := fun i j hi hj he => by
  rw [Ne, (hp i).2] at hi
  rw [Ne, (hp j).2] at hj
  rw [(hp i).1, (hp j).1] at he
  exact h i j hi hj he

/-- The lock is taken exactly when a process holds it, by one process at most, whose pid it
records; the holder is in use, and processes in use have distinct pids. -/
structure Excl (s : SlSys) : Prop where
  locked_iff : s.lock.locked = true ↔ ∃ i, s.holds i = true
  unique : ∀ i j, s.holds i = true → s.holds j = true → i = j
  pid_eq : ∀ i, s.holds i = true → s.lock.pid = (s.procs i).pid
  live : ∀ i, s.holds i = true → (s.procs i).state ≠ .UNUSED
  pids : LiveDistinct s.procs

section Exclusion

variable {c : ℕ} {s : SlSys} {i : Fin NPROC}

/-- `Excl` depends on the lock, the holders, and the pids and use of the entries only. -/
theorem Excl.congr {s' : SlSys} (h : Excl s) (hp : SameLive s.procs s'.procs)
    (hl : s'.lock = s.lock) (hh : s'.holds = s.holds) : Excl s' where
  locked_iff := by rw [hl, hh]; exact h.locked_iff
  unique := by rw [hh]; exact h.unique
  pid_eq j hj := by
    rw [hh] at hj
    rw [hl, (hp j).1]
    exact h.pid_eq j hj
  live j hj := by
    rw [hh] at hj
    rw [Ne, (hp j).2]
    exact h.live j hj
  pids := h.pids.of_sameLive hp

/-- A process in use that `holdingsleep` answers `1` holds the lock: the holder has its pid. -/
theorem Excl.holdingsleep_iff (h : Excl s) (hi : (s.procs i).state ≠ .UNUSED) :
    holdingsleep s i = true ↔ s.holds i = true := by
  constructor
  · intro hh
    simp only [holdingsleep, Bool.and_eq_true, beq_iff_eq] at hh
    obtain ⟨j, hj⟩ := h.locked_iff.1 hh.1
    have hpid : (s.procs j).pid = (s.procs i).pid := by rw [← h.pid_eq j hj, hh.2]
    rwa [h.pids j i (h.live j hj) hi hpid] at hj
  · intro hh
    simp [holdingsleep, h.locked_iff.2 ⟨i, hh⟩, h.pid_eq i hh]

theorem Excl.acquiresleep (h : Excl s) (hi : (s.procs i).state ≠ .UNUSED) :
    Excl (acquiresleep c s i) := by
  unfold Kernel.acquiresleep
  split_ifs with hl
  · exact h.congr (sameLive_sleepEnter c hi) rfl rfl
  · -- the lock was free: no process held it, and `i` is now the only holder
    have hnone : ∀ j, s.holds j = false := fun j => by
      by_contra hj
      simp only [Bool.not_eq_false] at hj
      exact hl (h.locked_iff.2 ⟨j, hj⟩)
    have hone : ∀ j, Function.update s.holds i true j = true → j = i := fun j hj => by
      by_contra hji
      rw [Function.update_of_ne hji, hnone j] at hj
      cases hj
    refine ⟨⟨fun _ => ⟨i, by simp⟩, fun _ => rfl⟩, fun j k hj hk => ?_, fun j hj => ?_,
      fun j hj => ?_, h.pids⟩
    · rw [hone j hj, hone k hk]
    · rw [hone j hj]
    · rw [hone j hj]
      exact hi

theorem Excl.releasesleep (h : Excl s) (hi : (s.procs i).state ≠ .UNUSED)
    (hh : holdingsleep s i = true) : Excl (releasesleep c s i) := by
  have hholds := (h.holdingsleep_iff hi).1 hh
  -- `i` was the only holder, and no process holds the lock after it
  have hnone : ∀ j, Function.update s.holds i false j = false := fun j => by
    by_cases hji : j = i
    · rw [hji, Function.update_self]
    · rw [Function.update_of_ne hji]
      by_contra hj
      simp only [Bool.not_eq_false] at hj
      exact hji (h.unique j i hj hholds)
  refine ⟨⟨fun h' => by simp [Kernel.releasesleep] at h', fun ⟨j, hj⟩ => ?_⟩,
    fun j _ hj => ?_, fun j hj => ?_, fun j hj => ?_,
    h.pids.of_sameLive (wakes_wakeup s.procs (some i) c).sameLive⟩
  all_goals simp only [Kernel.releasesleep, hnone] at hj
  all_goals cases hj

/-- Every step keeps `Excl`. -/
theorem excl_step {s' : SlSys} {l : SlOp} {o : Unit} (h : Excl s)
    (hs : slStep c s l = some (s', o)) : Excl s' := by
  rcases slStep_cases hs with rfl | ⟨i, hr, rfl⟩ | ⟨i, -, hr, rfl⟩ | ⟨i, hr, hh, rfl⟩ | ⟨p, hp, rfl⟩
  · exact h
  · exact h.acquiresleep (by simp [hr.1])
  · -- the woken waiter is in use; the rest of `sleep` changes its state only
    have hi : (s.procs i).state ≠ .UNUSED := by simp [hr]
    have h₁ : Excl { s with procs := sleepReturn s.procs i } :=
      h.congr (sameLive_sleepReturn hi) rfl rfl
    exact h₁.acquiresleep (by simp)
  · exact h.releasesleep (by simp [hr.1]) hh
  · exact h.congr hp.sameLive rfl rfl

theorem excl_reachable {procs₀ : Procs} (hpid : LiveDistinct procs₀)
    (h : (sleeplockMachine c procs₀).Reachable (some s)) : Excl s :=
  Machine.Reachable.ofPartial_induction Excl
    ⟨by simp [slInit, initsleeplock], by simp [slInit], by simp [slInit], by simp [slInit], hpid⟩
    (fun _ _ _ _ hs h => excl_step hs h) h

end Exclusion

/-- **Mutual exclusion.**  When the processes in use have distinct pids, in every state the
system reaches at most one process holds the sleep lock, and `locked` is set exactly when one
does. -/
theorem sleeplock_exclusive {c : ℕ} {procs₀ : Procs} (hpid : LiveDistinct procs₀) {s : SlSys}
    (h : (sleeplockMachine c procs₀).Reachable (some s)) :
    (∀ i j, s.holds i = true → s.holds j = true → i = j) ∧
      (s.lock.locked = true ↔ ∃ i, s.holds i = true) :=
  ⟨(excl_reachable hpid h).unique, (excl_reachable hpid h).locked_iff⟩

theorem liveDistinct_runningProcs : LiveDistinct runningProcs := fun i j _ _ h => by
  simp only [runningProcs] at h
  exact Fin.ext (by omega)

/-- Process `0` holds the lock while process `1` waits for it. -/
theorem sleeplock_exclusive_contended :
    let s := ((sleeplockMachine 7 runningProcs).run (sleeplockMachine 7 runningProcs).init
      [SlOp.acquire 0, .acquire 1]).getD (slInit runningProcs)
    LiveDistinct runningProcs ∧ (∀ i j, s.holds i = true → s.holds j = true → i = j) ∧
      (s.lock.locked = true ↔ ∃ i, s.holds i = true) := by
  intro s
  have hreach : (sleeplockMachine 7 runningProcs).Reachable (some s) :=
    Machine.Reachable.of_run [SlOp.acquire 0, .acquire 1]
  exact ⟨liveDistinct_runningProcs, sleeplock_exclusive liveDistinct_runningProcs hreach⟩

/-- **The release check of `brelse` and `iunlock`.**  When the processes in use have distinct
pids, in every state the system reaches a running process panics on its release exactly when it
does not hold the lock. -/
theorem release_panics_iff {c : ℕ} {procs₀ : Procs} (hpid : LiveDistinct procs₀) {s : SlSys}
    (h : (sleeplockMachine c procs₀).Reachable (some s)) (i : Fin NPROC) :
    slStep c s (.release i) = none ↔ s.runs i ∧ s.holds i = false := by
  have hex := excl_reachable hpid h
  simp only [slStep]
  by_cases hr : s.runs i
  · have hiff := hex.holdingsleep_iff (i := i) (by simp [hr.1])
    by_cases hh : s.holds i = true
    · simp [hr, hiff.2 hh, hh]
    · have hh' : holdingsleep s i = false := Bool.eq_false_iff.2 fun h' => hh (hiff.1 h')
      simp [hr, hh', hh]
  · simp [hr]

/-- While process `0` holds the lock, the release of process `2`, which does not hold it,
panics. -/
theorem release_panics_iff_other :
    let s := ((sleeplockMachine 7 runningProcs).run (sleeplockMachine 7 runningProcs).init
      [SlOp.acquire 0]).getD (slInit runningProcs)
    LiveDistinct runningProcs ∧ (slStep 7 s (.release 2) = none ↔ s.runs 2 ∧ s.holds 2 = false) := by
  intro s
  have hreach : (sleeplockMachine 7 runningProcs).Reachable (some s) :=
    Machine.Reachable.of_run [SlOp.acquire 0]
  exact ⟨liveDistinct_runningProcs, release_panics_iff liveDistinct_runningProcs hreach 2⟩

end Kernel

end Xv6Net
