import Xv6Net.Machine.Basic
import Xv6Net.Kernel.Proc
import Xv6Net.Net.Ports

/-!
# Wait loops and `kkill`

Six system-call paths block in a loop of the same shape: with a lock held, test a condition on
shared state, and while it holds, `sleep` on a channel (which releases the lock) and test again
after every wake-up.  `kkill` only sets `killed` and makes a sleeping process `RUNNABLE`, so a
killed process leaves such a loop only if the loop itself looks at `killed`.

* `WaitStep` : what one pass through a loop's test decides: go on, return `-1`, or sleep.
* `killableWait` : the test `while(cond){ if(killed(p)) return -1; sleep(..); }` of `piperead`,
  `consoleread` and `sys_pause`; `pipewriteWait` and `kwaitWait` test `killed` in their own
  place; `sysRecvWait`, the loop of `sys_recv`, does not test it at all.
* `Waiter`, `waitMachine` : one process `me` in a wait loop, among the process table and the
  shared state its loop reads, with the other processes and the interrupts as the environment:
  they kill any pid, wake up any channel and change the shared state, in any interleaving with
  the steps of `me`.  The lock of the loop is held from the test to the `sleep` that releases
  it, so no change of the shared state falls in between; a `kkill` can, since it takes only
  `p->lock`.

The results: in the loops that test `killed` (`ChecksKilled`), a process that `kkill` finds
asleep never sleeps again and has left the loop by its second step (`leaves_after_kill`);
`sys_recv`'s loop, on a port where nothing arrives, keeps a killed process forever and puts it
back to sleep (`recv_sleeps_after_kill`).  A `kkill` that falls between the test and the `sleep`
is lost in every one of these loops (`sleeps_killed_of_kill_entering`).
-/

namespace Xv6Net

namespace Kernel

open Net

/-- What one pass through the test of a wait loop decides, with the loop's lock held. -/
inductive WaitStep
  /-- The wait is over: the call goes on. -/
  | proceed
  /-- The call releases the lock and returns `-1`. -/
  | fail
  /-- The process goes to sleep on the loop's channel. -/
  | sleep
  deriving DecidableEq, Repr

/-- The test of `while(waiting){ if(killed(p)){ release(lk); return -1; } sleep(chan, lk); }`. -/
def killableWait (waiting killed : Bool) : WaitStep :=
  if waiting then (if killed then .fail else .sleep) else .proceed

/-- The fields of `struct pipe` that its wait loops read. -/
structure Pipe where
  nread : UInt32
  nwrite : UInt32
  readopen : Bool
  writeopen : Bool

def PIPESIZE : UInt32 := 512

/-- The wait of `piperead`: while the pipe is empty and has a writer. -/
def pipereadWait (pi : Pipe) (killed : Bool) : WaitStep :=
  killableWait (pi.nread == pi.nwrite && pi.writeopen) killed

/-- One pass of `pipewrite`'s loop, for a byte still to write: it returns `-1` when the reader
is gone or the process is killed, before it looks at whether the pipe is full. -/
def pipewriteWait (pi : Pipe) (killed : Bool) : WaitStep :=
  if !pi.readopen || killed then .fail
  else if pi.nwrite == pi.nread + PIPESIZE then .sleep
  else .proceed

/-- The indices of the console's input buffer. -/
structure Cons where
  r : UInt32
  w : UInt32

/-- The inner wait of `consoleread`: while no input is buffered. -/
def consolereadWait (cons : Cons) (killed : Bool) : WaitStep :=
  killableWait (cons.r == cons.w) killed

/-- One pass of `kwait`'s loop over the states of the caller's children, in table order: a
zombie child ends the wait; no children, or `killed`, returns `-1`. -/
def kwaitWait (kids : List ProcState) (killed : Bool) : WaitStep :=
  if kids.contains .ZOMBIE then .proceed
  else if kids.isEmpty || killed then .fail
  else .sleep

/-- The wait of `sys_pause(n)` started at tick `ticks0`, with `n` clamped at `0` and compared
as an unsigned number. -/
def sysPauseWait (ticks0 : UInt32) (n : ℤ) (ticks : UInt32) (killed : Bool) : WaitStep :=
  let n := if n < 0 then 0 else n
  killableWait (decide (ticks - ticks0 < n.toNat.toUInt32)) killed

/-- The wait of `sys_recv` on the entry `i` it found: `while(pe->count == 0) sleep(pe, &netlock);`.
It does not read `killed`. -/
def sysRecvWait (i : Fin NPORTS) (ports : Ports) (_killed : Bool) : WaitStep :=
  if (ports i).count = 0 then .sleep else .proceed

/-! ### One process in a wait loop -/

/-- Where the process `me` is in its wait loop. -/
inductive Ctl
  /-- About to take the lock and test the condition. -/
  | head
  /-- Past the test, in `sleep` before it takes `p->lock`, still holding the loop's lock. -/
  | entering
  /-- In `sleep`, after `sched()`: `SLEEPING` until woken, then `RUNNABLE`. -/
  | asleep
  /-- Out of the loop, the wait over. -/
  | left
  /-- Returned `-1`. -/
  | failed
  deriving DecidableEq, Repr

/-- The process table, the shared state the loop reads, and where `me` is. -/
structure Waiter (σ : Type) where
  procs : Procs
  shared : σ
  ctl : Ctl

/-- What the rest of the system does, or `run`: the scheduler gives the CPU to `me`. -/
inductive WaitOp (E : Type)
  /-- `kkill(pid)` on another CPU. -/
  | kill (pid : ℤ)
  /-- `wakeup(chan)` from the process `self`, or from an interrupt. -/
  | wakeup (self : Option (Fin NPROC)) (chan : ℕ)
  /-- Another process or an interrupt handler changes the shared state under the loop's lock. -/
  | env (e : E)
  | run

def WaitOp.isRun {E : Type} : WaitOp E → Bool
  | .run => true
  | _ => false

section Loop

variable {σ E : Type} (head : σ → Bool → WaitStep) (env : E → σ → σ) (me : Fin NPROC) (chan : ℕ)

/-- A step of `me`; `false` when it cannot run (asleep and not woken, or out of the loop). -/
def runMe (s : Waiter σ) : Waiter σ × Bool :=
  match s.ctl with
  | .head =>
    match head s.shared (s.procs me).killed with
    | .proceed => ({ s with ctl := .left }, true)
    | .fail => ({ s with ctl := .failed }, true)
    | .sleep => ({ s with ctl := .entering }, true)
  | .entering => ({ s with procs := sleepEnter s.procs me chan, ctl := .asleep }, true)
  | .asleep =>
    if (s.procs me).state = .RUNNABLE then
      ({ s with procs := sleepReturn s.procs me, ctl := .head }, true)
    else (s, false)
  | .left | .failed => (s, false)

/-- One event.  A change of the shared state waits while `me` holds the loop's lock. -/
def waitStep (s : Waiter σ) : WaitOp E → Waiter σ × Bool
  | .kill pid => ({ s with procs := (kkill s.procs pid).1 }, true)
  | .wakeup self c => ({ s with procs := wakeup s.procs self c }, true)
  | .env e => if s.ctl = .entering then (s, false) else ({ s with shared := env e s.shared }, true)
  | .run => runMe head me chan s

/-- The process `me` in the wait loop `head` on `chan`, from `s₀`. -/
def waitMachine (s₀ : Waiter σ) : Machine (Waiter σ) (WaitOp E) Bool :=
  ⟨s₀, waitStep head env me chan⟩

/-- Events after which the loop's condition `waiting` still holds: all but the changes of the
shared state that may end the wait. -/
def Quiet (waiting : σ → Prop) : WaitOp E → Prop
  | .env e => ∀ x, waiting x → waiting (env e x)
  | _ => True

/-- A loop that tests `killed` before it sleeps: it never sleeps with `killed` set. -/
def ChecksKilled : Prop := ∀ x, head x true ≠ .sleep

variable {head env me chan}

theorem waitMachine_step (s₀ : Waiter σ) :
    (waitMachine head env me chan s₀).step = waitStep head env me chan := rfl

/-- Only `run` moves `me`, and only `env` changes the shared state. -/
theorem waitStep_ctl {s : Waiter σ} {l : WaitOp E} (h : l ≠ .run) :
    (waitStep head env me chan s l).1.ctl = s.ctl := by
  cases l with
  | kill => rfl
  | wakeup => rfl
  | env e => simp only [waitStep]; split_ifs <;> rfl
  | run => exact absurd rfl h

theorem runMe_shared (s : Waiter σ) : (runMe head me chan s).1.shared = s.shared := by
  unfold runMe
  split
  · split <;> rfl
  · rfl
  · split_ifs <;> rfl
  all_goals rfl

/-- A `kkill` that falls between the test and `sleep` is lost: the process goes to sleep with
`killed` set, whatever loop it is in. -/
theorem sleeps_killed_of_kill_entering {s : Waiter σ} (hctl : s.ctl = .entering)
    (hpid : ∀ j, (s.procs j).pid = (s.procs me).pid → j = me) :
    let s' := ((waitMachine head env me chan s).run s [.kill (s.procs me).pid, .run])
    s'.ctl = .asleep ∧ (s'.procs me).state = .SLEEPING ∧ (s'.procs me).killed = true := by
  simp [Machine.run, waitMachine, waitStep, runMe, hctl, kkill_self hpid]

/-! ### Loops that test `killed` -/

/-- What holds of `me` from the moment `kkill` makes it `RUNNABLE` in a loop that tests
`killed`: killed, never asleep again, and never past the test on its way to `sleep`. -/
structure KilledAwake (me : Fin NPROC) (s : Waiter σ) : Prop where
  killed : (s.procs me).killed = true
  awake : (s.procs me).state ≠ .SLEEPING
  not_entering : s.ctl ≠ .entering
  runnable : s.ctl = .asleep → (s.procs me).state = .RUNNABLE

theorem KilledAwake.step (hchk : ChecksKilled head) {s : Waiter σ} (h : KilledAwake me s)
    (l : WaitOp E) : KilledAwake me (waitStep head env me chan s l).1 := by
  cases l with
  | kill pid =>
    have hst := kkill_state s.procs pid me h.awake
    exact ⟨kkill_killed _ _ _ h.killed, hst ▸ h.awake, h.not_entering,
      fun hc => hst ▸ h.runnable hc⟩
  | wakeup self c =>
    have hst := wakeup_state s.procs self c me h.awake
    exact ⟨by simpa [waitStep] using h.killed, hst ▸ h.awake, h.not_entering,
      fun hc => hst ▸ h.runnable hc⟩
  | env e =>
    simp only [waitStep]
    split_ifs
    · exact h
    · exact ⟨h.killed, h.awake, h.not_entering, h.runnable⟩
  | run =>
    simp only [waitStep, runMe]
    split
    · -- the test: with `killed` set it never chooses to sleep
      next hc =>
      have hk := hchk s.shared
      rw [← h.killed] at hk
      split
      · exact ⟨h.killed, h.awake, by simp, by simp⟩
      · exact ⟨h.killed, h.awake, by simp, by simp⟩
      · contradiction
    · next hc => exact absurd hc h.not_entering
    · -- woken: the scheduler runs it again
      next hc =>
      rw [if_pos (h.runnable hc)]
      exact ⟨by simpa using h.killed, by simp, by simp, by simp⟩
    · exact h
    · exact h

/-- How far `me` is from leaving the loop. -/
def Ctl.rank : Ctl → ℕ
  | .asleep | .entering => 2
  | .head => 1
  | .left | .failed => 0

theorem KilledAwake.rank_le (hchk : ChecksKilled head) {s : Waiter σ} (h : KilledAwake me s)
    (l : WaitOp E) : (waitStep head env me chan s l).1.ctl.rank ≤ s.ctl.rank := by
  by_cases hl : l = .run
  · subst hl
    simp only [waitStep, runMe]
    split
    · next hc =>
      have hk := hchk s.shared
      rw [← h.killed] at hk
      split <;> simp_all [Ctl.rank]
    · next hc => exact absurd hc h.not_entering
    · split_ifs <;> simp [*, Ctl.rank]
    all_goals simp [*]
  · rw [waitStep_ctl hl]

theorem KilledAwake.rank_lt (hchk : ChecksKilled head) {s : Waiter σ} (h : KilledAwake me s)
    (hpos : 0 < s.ctl.rank) :
    (waitStep head env me chan s .run).1.ctl.rank < s.ctl.rank := by
  simp only [waitStep, runMe]
  split
  · next hc =>
    have hk := hchk s.shared
    rw [← h.killed] at hk
    split
    · simp [hc, Ctl.rank]
    · simp [hc, Ctl.rank]
    · contradiction
  · next hc => exact absurd hc h.not_entering
  · next hc => simp [hc, h.runnable hc, Ctl.rank]
  · next hc => simp [hc, Ctl.rank] at hpos
  · next hc => simp [hc, Ctl.rank] at hpos

/-- **A killed process leaves a loop that tests `killed`.**  After `kkill` finds `me` asleep,
whatever the rest of the system does, `me` is never asleep again, and after two steps of its
own it is out of the loop. -/
theorem leaves_after_kill (hchk : ChecksKilled head) {s : Waiter σ}
    (hblk : (s.procs me).state = .SLEEPING) (hctl : s.ctl = .asleep)
    (hpid : ∀ j, (s.procs j).pid = (s.procs me).pid → j = me) (ls : List (WaitOp E)) :
    let M := waitMachine head env me chan s
    let s' := M.run (M.step s (.kill (s.procs me).pid)).1 ls
    (s'.procs me).state ≠ .SLEEPING ∧
      (2 ≤ ls.countP WaitOp.isRun → s'.ctl = .left ∨ s'.ctl = .failed) := by
  intro M s'
  -- right after the kill: killed, `RUNNABLE`, still in `sleep`
  have h₁ : KilledAwake me (M.step s (.kill (s.procs me).pid)).1 := by
    have hk := kkill_self hpid
    have hst := Proc.kill_state_of_eq hblk
    refine ⟨?_, ?_, ?_, ?_⟩ <;>
      simp [M, waitMachine_step, waitStep, hk, hst, hctl]
  have hinv : ∀ t l, KilledAwake me t → KilledAwake me (M.step t l).1 :=
    fun t l ht => ht.step hchk l
  refine ⟨(M.run_induction _ (fun _ => True) (fun t l _ ht => hinv t l ht) h₁
    (fun _ _ => trivial)).awake, fun hrun => ?_⟩
  have hrank : s'.ctl.rank = 0 := by
    refine M.rank_run_eq_zero (KilledAwake me) (fun t => t.ctl.rank) WaitOp.isRun hinv
      (fun t l ht => ht.rank_le hchk l) (fun t l ht hl hpos => ?_) h₁ ?_
    · cases l <;> simp [WaitOp.isRun] at hl
      exact @KilledAwake.rank_lt σ E head env me chan hchk t ht hpos
    · simpa [M, waitMachine_step, waitStep, hctl, Ctl.rank] using hrun
  revert hrank
  cases s'.ctl <;> simp [Ctl.rank]

theorem killableWait_checksKilled (waiting : σ → Bool) :
    ChecksKilled fun x k => killableWait (waiting x) k := by
  intro x
  show killableWait (waiting x) true ≠ .sleep
  unfold killableWait
  split_ifs <;> simp_all

theorem pipewriteWait_checksKilled : ChecksKilled pipewriteWait := by
  intro pi
  simp [pipewriteWait]

theorem kwaitWait_checksKilled : ChecksKilled kwaitWait := by
  intro kids
  unfold kwaitWait
  split_ifs <;> simp_all

/-- `piperead`, `pipewrite`, `consoleread`, `kwait` and `sys_pause` test `killed`. -/
theorem checked_loops (ticks0 : UInt32) (n : ℤ) :
    ChecksKilled pipereadWait ∧ ChecksKilled pipewriteWait ∧ ChecksKilled consolereadWait ∧
      ChecksKilled kwaitWait ∧ ChecksKilled (sysPauseWait ticks0 n) :=
  ⟨killableWait_checksKilled _, pipewriteWait_checksKilled, killableWait_checksKilled _,
    kwaitWait_checksKilled, killableWait_checksKilled _⟩

/-! ### `sys_recv` -/

/-- Out of the loop neither way, and still waiting. -/
def InLoop (waiting : σ → Prop) (s : Waiter σ) : Prop :=
  waiting s.shared ∧ s.ctl ≠ .left ∧ s.ctl ≠ .failed

/-- In a loop that sleeps whenever it is waiting, `killed` or not, quiet events keep the process
in the loop. -/
theorem InLoop.step {waiting : σ → Prop} (hsl : ∀ x k, waiting x → head x k = .sleep)
    {s : Waiter σ} (h : InLoop waiting s) {l : WaitOp E} (hq : Quiet env waiting l) :
    InLoop waiting (waitStep head env me chan s l).1 := by
  obtain ⟨hw, hl, hf⟩ := h
  cases l with
  | kill => exact ⟨hw, hl, hf⟩
  | wakeup => exact ⟨hw, hl, hf⟩
  | env e =>
    simp only [waitStep]
    split_ifs
    · exact ⟨hw, hl, hf⟩
    · exact ⟨hq _ hw, hl, hf⟩
  | run =>
    refine ⟨by rw [waitStep, runMe_shared]; exact hw, ?_⟩
    simp only [waitStep, runMe]
    split
    · rw [hsl _ _ hw]; simp
    · simp
    · split_ifs <;> simp [*]
    all_goals simp_all

theorem sysRecvWait_sleeps {i : Fin NPORTS} {ports : Ports} (h : (ports i).count = 0)
    (killed : Bool) : sysRecvWait i ports killed = .sleep := by
  simp [sysRecvWait, h]

/-- The process `me` in `sys_recv`'s wait on the entry `i`, whose channel is `chan`; the shared
state is the port table, which `ip_rx` changes. -/
def recvWaiter (i : Fin NPORTS) (me : Fin NPROC) (chan : ℕ) (s₀ : Waiter Ports) :
    Machine (Waiter Ports) (WaitOp (List UInt8)) Bool :=
  waitMachine (sysRecvWait i) (fun buf ports => ipRx ports buf) me chan s₀

/-- **`sys_recv` ignores `kkill`.**  A process asleep in `sys_recv` on an empty port, killed by
`kkill`, stays in the loop whatever the rest of the system does, as long as no datagram for the
port arrives; when the scheduler runs it, it goes back to sleep with `killed` set. -/
theorem recv_sleeps_after_kill {i : Fin NPORTS} {me : Fin NPROC} {chan : ℕ} {s : Waiter Ports}
    (hblk : (s.procs me).state = .SLEEPING) (hctl : s.ctl = .asleep) (hempty : (s.shared i).count = 0)
    (hpid : ∀ j, (s.procs j).pid = (s.procs me).pid → j = me) (ls : List (WaitOp (List UInt8)))
    (hq : ∀ l ∈ ls, Quiet (fun buf ports => ipRx ports buf) (fun ports : Ports => (ports i).count = 0) l) :
    let M := recvWaiter i me chan s
    let s₁ := (M.step s (.kill (s.procs me).pid)).1
    (M.run s₁ ls).ctl ≠ .left ∧ (M.run s₁ ls).ctl ≠ .failed ∧
      (M.run s₁ [.run, .run, .run]).ctl = .asleep ∧
      ((M.run s₁ [.run, .run, .run]).procs me).state = .SLEEPING ∧
      ((M.run s₁ [.run, .run, .run]).procs me).killed = true := by
  intro M s₁
  have hk := kkill_self hpid
  have hst := Proc.kill_state_of_eq hblk
  have h₁ : InLoop (fun ports : Ports => (ports i).count = 0) s₁ :=
    ⟨hempty, by simp [s₁, M, recvWaiter, waitMachine_step, waitStep, hctl],
      by simp [s₁, M, recvWaiter, waitMachine_step, waitStep, hctl]⟩
  obtain ⟨-, hl, hf⟩ := M.run_induction (InLoop fun ports : Ports => (ports i).count = 0)
    (Quiet (fun buf ports => ipRx ports buf) fun ports : Ports => (ports i).count = 0)
    (fun t l hl ht => @InLoop.step Ports (List UInt8) (sysRecvWait i) (fun buf ports => ipRx ports buf)
      me chan _ (fun x k hx => sysRecvWait_sleeps hx k) t ht l hl) h₁ hq
  refine ⟨hl, hf, ?_⟩
  -- woken by the kill, it tests the empty queue and sleeps again
  simp [s₁, M, recvWaiter, waitMachine_step, Machine.run, waitStep, runMe, hk, hst, hctl, sysRecvWait,
    hempty]

/-- One process, pid `1`, asleep on channel `7` in `sys_recv` on the first entry of the table
`netinit` leaves, the other slots unused: killed, woken and run, it sleeps again. -/
theorem recv_sleeps_after_kill_netinit :
    let s : Waiter Ports :=
      ⟨fun j => if j = 0 then ⟨.SLEEPING, 7, false, 1⟩ else ⟨.UNUSED, 0, false, 0⟩, netinit, .asleep⟩
    let M := recvWaiter 0 0 7 s
    let s₁ := (M.step s (.kill 1)).1
    (M.run s₁ [.wakeup none 7, .run]).ctl ≠ .left ∧ (M.run s₁ [.wakeup none 7, .run]).ctl ≠ .failed ∧
      (M.run s₁ [.run, .run, .run]).ctl = .asleep ∧
      ((M.run s₁ [.run, .run, .run]).procs 0).state = .SLEEPING ∧
      ((M.run s₁ [.run, .run, .run]).procs 0).killed = true :=
  recv_sleeps_after_kill rfl rfl rfl (by decide) _ (by simp [Quiet])

end Loop

end Kernel

end Xv6Net
