import Mathlib.Logic.Function.Basic
import Mathlib.Data.List.FinRange
import Mathlib.Data.List.Find
import Mathlib.Algebra.GroupWithZero.Nat

/-!
# The process table: `kkill`, `wakeup` and `sleep` (`proc.c`)

The fields of `struct proc` that the sleep and wake-up protocol reads and writes: the state, the
channel a process sleeps on, the `killed` flag and the pid.  Every operation here runs under the
process's `p->lock`, so each is one atomic step of the table.

* `kkill procs pid` : the first entry with pid `pid` gets `killed` set and, if it sleeps, is
  made `RUNNABLE`; the call returns `0`, or `-1` when no entry has that pid.
* `wakeup procs self chan` : every entry but the caller's that sleeps on `chan` becomes
  `RUNNABLE`.
* `sleepEnter` and `sleepReturn` : the two halves of `sleep`, around the `sched()` that gives
  up the CPU; between them the process is `SLEEPING` until a `wakeup` or a `kkill` makes it
  `RUNNABLE` and the scheduler runs it again.

`kkill_cases` says everything `kkill` can do to the table; the frame lemmas after it are what
the wait-loop proofs use, so that none of them unfolds `kkill` or `wakeup`.
-/

namespace Xv6Net

namespace Kernel

def NPROC : ℕ := 64

instance : NeZero NPROC := ⟨by decide⟩

/-- `enum procstate`. -/
inductive ProcState
  | UNUSED
  | USED
  | SLEEPING
  | RUNNABLE
  | RUNNING
  | ZOMBIE
  deriving DecidableEq, Repr

/-- The fields of `struct proc` guarded by `p->lock`, except `xstate`; `chan` is the channel's
address, `0` when the process sleeps on nothing. -/
structure Proc where
  state : ProcState
  chan : ℕ
  killed : Bool
  pid : ℤ
  deriving DecidableEq, Repr

/-- `proc[NPROC]`. -/
abbrev Procs := Fin NPROC → Proc

/-- What `kkill` does to the entry it finds. -/
def Proc.kill (p : Proc) : Proc :=
  { p with killed := true, state := if p.state = .SLEEPING then .RUNNABLE else p.state }

/-- `kkill(pid)`: the table after the call and its return value. -/
def kkill (procs : Procs) (pid : ℤ) : Procs × ℤ :=
  match (List.finRange NPROC).find? fun i => (procs i).pid = pid with
  | none => (procs, -1)
  | some i => (Function.update procs i (procs i).kill, 0)

/-- What `wakeup(chan)` does to an entry other than the caller's. -/
def Proc.wake (chan : ℕ) (p : Proc) : Proc :=
  if p.state = .SLEEPING ∧ p.chan = chan then { p with state := .RUNNABLE } else p

/-- `wakeup(chan)`, called by the process `self` (`none` from the scheduler's context). -/
def wakeup (procs : Procs) (self : Option (Fin NPROC)) (chan : ℕ) : Procs := fun i =>
  if self = some i then procs i else (procs i).wake chan

/-- The part of `sleep(chan, lk)` before `sched()`: once it holds `p->lock`, the process records
its channel and marks itself `SLEEPING`. -/
def sleepEnter (procs : Procs) (me : Fin NPROC) (chan : ℕ) : Procs :=
  Function.update procs me { procs me with chan := chan, state := .SLEEPING }

/-- The scheduler runs the `RUNNABLE` process `me` again (`RUNNING`), and the rest of `sleep`
clears its channel. -/
def sleepReturn (procs : Procs) (me : Fin NPROC) : Procs :=
  Function.update procs me { procs me with chan := 0, state := .RUNNING }

/-! ### The entry `kkill` finds -/

@[simp] theorem Proc.kill_killed (p : Proc) : p.kill.killed = true := rfl

@[simp] theorem Proc.kill_pid (p : Proc) : p.kill.pid = p.pid := rfl

theorem Proc.kill_state_ne_sleeping (p : Proc) : p.kill.state ≠ .SLEEPING := by
  unfold Proc.kill
  split_ifs with h
  · simp
  · exact h

/-- A process that is not asleep keeps its state. -/
theorem Proc.kill_state_of_ne {p : Proc} (h : p.state ≠ .SLEEPING) : p.kill.state = p.state := by
  simp [Proc.kill, h]

theorem Proc.kill_state_of_eq {p : Proc} (h : p.state = .SLEEPING) : p.kill.state = .RUNNABLE := by
  simp [Proc.kill, h]

/-- **Everything `kkill` can do.**  Either no entry has the pid and the table is unchanged, or
the entry it finds has that pid and is the only one that changes. -/
theorem kkill_cases (procs : Procs) (pid : ℤ) :
    (kkill procs pid).1 = procs ∨
      ∃ i, (procs i).pid = pid ∧ (kkill procs pid).1 = Function.update procs i (procs i).kill := by
  unfold kkill
  split
  · exact Or.inl rfl
  · next i hi =>
    exact Or.inr ⟨i, by simpa using List.find?_some hi, rfl⟩

/-- With unique pids, `kkill` of the pid of `me` kills `me`. -/
theorem kkill_self {procs : Procs} {me : Fin NPROC}
    (hpid : ∀ j, (procs j).pid = (procs me).pid → j = me) :
    (kkill procs (procs me).pid).1 = Function.update procs me (procs me).kill := by
  unfold kkill
  split
  · -- the search cannot fail: `me` has the pid
    next hn =>
    have := List.find?_eq_none.1 hn me (List.mem_finRange me)
    simp at this
  · next i hi =>
    rw [hpid i (by simpa using List.find?_some hi)]

/-- `kkill` sets `killed` and never clears it. -/
theorem kkill_killed (procs : Procs) (pid : ℤ) (j : Fin NPROC) (h : (procs j).killed = true) :
    ((kkill procs pid).1 j).killed = true := by
  rcases kkill_cases procs pid with e | ⟨i, -, e⟩
  · rw [e]; exact h
  · rw [e]
    by_cases hj : j = i
    · subst hj; simp
    · rw [Function.update_of_ne hj]; exact h

theorem kkill_pid (procs : Procs) (pid : ℤ) (j : Fin NPROC) :
    ((kkill procs pid).1 j).pid = (procs j).pid := by
  rcases kkill_cases procs pid with e | ⟨i, -, e⟩
  · rw [e]
  · rw [e]
    by_cases hj : j = i
    · subst hj; simp
    · rw [Function.update_of_ne hj]

/-- `kkill` puts no process to sleep, and a process that is not asleep keeps its state. -/
theorem kkill_state (procs : Procs) (pid : ℤ) (j : Fin NPROC) (h : (procs j).state ≠ .SLEEPING) :
    ((kkill procs pid).1 j).state = (procs j).state := by
  rcases kkill_cases procs pid with e | ⟨i, -, e⟩
  · rw [e]
  · rw [e]
    by_cases hj : j = i
    · subst hj; simpa using Proc.kill_state_of_ne h
    · rw [Function.update_of_ne hj]

/-! ### `wakeup` -/

@[simp] theorem Proc.wake_killed (chan : ℕ) (p : Proc) : (p.wake chan).killed = p.killed := by
  unfold Proc.wake; split_ifs <;> rfl

@[simp] theorem Proc.wake_pid (chan : ℕ) (p : Proc) : (p.wake chan).pid = p.pid := by
  unfold Proc.wake; split_ifs <;> rfl

@[simp] theorem Proc.wake_chan (chan : ℕ) (p : Proc) : (p.wake chan).chan = p.chan := by
  unfold Proc.wake; split_ifs <;> rfl

theorem Proc.wake_state (chan : ℕ) (p : Proc) :
    (p.wake chan).state = if p.state = .SLEEPING ∧ p.chan = chan then .RUNNABLE else p.state := by
  unfold Proc.wake; split_ifs <;> rfl

theorem Proc.wake_state_of_ne {p : Proc} (chan : ℕ) (h : p.state ≠ .SLEEPING) :
    (p.wake chan).state = p.state := by
  simp [Proc.wake, h]

/-- A process asleep on `chan` is woken. -/
theorem Proc.wake_state_of_eq {p : Proc} (h : p.state = .SLEEPING) :
    (p.wake p.chan).state = .RUNNABLE := by
  simp [Proc.wake, h]

@[simp] theorem wakeup_killed (procs : Procs) (self : Option (Fin NPROC)) (chan : ℕ)
    (j : Fin NPROC) : (wakeup procs self chan j).killed = (procs j).killed := by
  unfold wakeup; split_ifs <;> simp

@[simp] theorem wakeup_pid (procs : Procs) (self : Option (Fin NPROC)) (chan : ℕ)
    (j : Fin NPROC) : (wakeup procs self chan j).pid = (procs j).pid := by
  unfold wakeup; split_ifs <;> simp

/-- `wakeup` only changes sleeping processes. -/
theorem wakeup_state (procs : Procs) (self : Option (Fin NPROC)) (chan : ℕ) (j : Fin NPROC)
    (h : (procs j).state ≠ .SLEEPING) : (wakeup procs self chan j).state = (procs j).state := by
  unfold wakeup
  split_ifs
  · rfl
  · exact Proc.wake_state_of_ne chan h

/-! ### `sleep` -/

@[simp] theorem sleepEnter_self (procs : Procs) (me : Fin NPROC) (chan : ℕ) :
    sleepEnter procs me chan me = { procs me with chan := chan, state := .SLEEPING } := by
  simp [sleepEnter]

theorem sleepEnter_other (procs : Procs) {me j : Fin NPROC} (chan : ℕ) (h : j ≠ me) :
    sleepEnter procs me chan j = procs j := by
  simp [sleepEnter, h]

@[simp] theorem sleepReturn_self (procs : Procs) (me : Fin NPROC) :
    sleepReturn procs me me = { procs me with chan := 0, state := .RUNNING } := by
  simp [sleepReturn]

theorem sleepReturn_other (procs : Procs) {me j : Fin NPROC} (h : j ≠ me) :
    sleepReturn procs me j = procs j := by
  simp [sleepReturn, h]

end Kernel

end Xv6Net
