import Xv6Net.Kernel.Proc
import Xv6Net.Machine.Basic

/-!
# No lost wake-ups (`sleep` and `wakeup` of `proc.c`)

A process waiting for a condition runs `acquire(lk); while(!cond) sleep(chan, lk);
release(lk)`, as `sys_recv` does with `netlock` and the port entry as channel; another makes the
condition true under `lk` and calls `wakeup(chan)`, as `ip_rx` does.  `sleep` takes the
sleeper's `p->lock` before it releases `lk`, and gives it up only inside `sched()`; `wakeup`
takes the `p->lock` of every other process before it tests that process's state and channel.

The model (`sleepSys`) has the two processes, the lock `lk`, the sleeper's `p->lock`, the
sleeper's entry of the process table and the condition.  Every lock operation, and the code
between two of them, is one atomic step, and the label of a step says which process moves, so
the runs of the machine are all the interleavings.  The scheduler's part of `sched()` (taking
`p->lock`, marking the process `RUNNING`, switching to it) counts as a step of the sleeper, and
`wakeup`'s loop is reduced to the sleeper's entry, the only one whose state matters here.

* `SleepInv` : each lock is held by the process inside its critical section, a `SLEEPING`
  sleeper is between `sched()` and being picked again with its channel set, and while the
  sleeper is between its test of the condition and `sched()` the waker has not reached the test
  of `wakeup`.  Every step keeps it (`SleepInv.sleeper`, `SleepInv.waker`).
* `no_lost_wakeup` : in every interleaving, once the waker has finished its `wakeup`, the sleeper
  is `RUNNABLE` or `RUNNING`.
-/

namespace Xv6Net

namespace Kernel

/-- The two processes of the protocol. -/
inductive Party
  | sleeper
  | waker
  deriving DecidableEq, Repr

/-- Where the sleeper is in `acquire(lk); while(!cond) sleep(chan, lk); release(lk)`, with
`sleep` and the scheduler's part of `sched()` inlined. -/
inductive SleeperPc
  /-- Before `acquire(lk)`. -/
  | start
  /-- Holding `lk`, about to test the condition. -/
  | test
  /-- In `sleep`, about to `acquire(&p->lock)`. -/
  | lockP
  /-- Holding both locks, about to `release(lk)`. -/
  | releaseLk
  /-- About to set `p->chan = chan` and `p->state = SLEEPING`. -/
  | mark
  /-- About to call `sched()`: the switch to the scheduler, which releases `p->lock`. -/
  | sched
  /-- Off the CPU: the scheduler picks the process only when it is `RUNNABLE`. -/
  | off
  /-- Picked, holding `p->lock`: `p->chan = 0; release(&p->lock)`. -/
  | tidy
  /-- About to `acquire(lk)` before the next test. -/
  | reacquire
  /-- The condition held: about to `release(lk)`. -/
  | exit
  | done
  deriving DecidableEq, Repr

/-- Where the waker is in `acquire(lk); cond = 1; wakeup(chan); release(lk)`, with the iteration
of `wakeup` over the sleeper's entry inlined. -/
inductive WakerPc
  /-- Before `acquire(lk)`. -/
  | start
  /-- Holding `lk`, about to make the condition true. -/
  | set
  /-- In `wakeup`, about to `acquire(&p->lock)` of the sleeper. -/
  | lockP
  /-- Holding it: the test of `p->state` and `p->chan`, then `release(&p->lock)`. -/
  | check
  /-- After `wakeup`, about to `release(lk)`. -/
  | releaseLk
  | done
  deriving DecidableEq, Repr

/-- The state of the protocol. -/
structure SleepSys where
  spc : SleeperPc
  wpc : WakerPc
  /-- The holder of `lk`. -/
  lk : Option Party
  /-- The holder of the sleeper's `p->lock` (the scheduler holds it on the sleeper's behalf). -/
  plock : Option Party
  /-- The sleeper's entry of `proc[]`. -/
  proc : Proc
  cond : Bool

section Steps

variable (c : ℕ)

/-- The next step of the sleeper, sleeping on channel `c`; a step that waits for a lock, or for
the scheduler, leaves the state unchanged. -/
def sleeperStep (s : SleepSys) : SleepSys :=
  match s.spc with
  | .start => if s.lk = none then { s with lk := some .sleeper, spc := .test } else s
  | .test => if s.cond then { s with spc := .exit } else { s with spc := .lockP }
  | .lockP => if s.plock = none then { s with plock := some .sleeper, spc := .releaseLk } else s
  | .releaseLk => { s with lk := none, spc := .mark }
  | .mark => { s with proc := { s.proc with chan := c, state := .SLEEPING }, spc := .sched }
  | .sched => { s with plock := none, spc := .off }
  | .off =>
    if s.proc.state = .RUNNABLE ∧ s.plock = none then
      { s with plock := some .sleeper, proc := { s.proc with state := .RUNNING }, spc := .tidy }
    else s
  | .tidy => { s with proc := { s.proc with chan := 0 }, plock := none, spc := .reacquire }
  | .reacquire => if s.lk = none then { s with lk := some .sleeper, spc := .test } else s
  | .exit => { s with lk := none, spc := .done }
  | .done => s

/-- The next step of the waker, waking channel `c`. -/
def wakerStep (s : SleepSys) : SleepSys :=
  match s.wpc with
  | .start => if s.lk = none then { s with lk := some .waker, wpc := .set } else s
  | .set => { s with cond := true, wpc := .lockP }
  | .lockP => if s.plock = none then { s with plock := some .waker, wpc := .check } else s
  | .check => { s with proc := s.proc.wake c, plock := none, wpc := .releaseLk }
  | .releaseLk => { s with lk := none, wpc := .done }
  | .done => s

end Steps

/-! ### The invariant -/

/-- The sleeper holds `lk`. -/
def SleeperPc.holdsLk : SleeperPc → Bool
  | .test | .lockP | .releaseLk | .exit => true
  | _ => false

/-- The sleeper (or the scheduler for it) holds `p->lock`. -/
def SleeperPc.holdsP : SleeperPc → Bool
  | .releaseLk | .mark | .sched | .tidy => true
  | _ => false

/-- Between `p->state = SLEEPING` and being picked again. -/
def SleeperPc.asleep : SleeperPc → Bool
  | .sched | .off => true
  | _ => false

/-- Between the test that found the condition false and `sched()`. -/
def SleeperPc.entering : SleeperPc → Bool
  | .lockP | .releaseLk | .mark | .sched => true
  | _ => false

/-- The waker holds `lk`. -/
def WakerPc.holdsLk : WakerPc → Bool
  | .set | .lockP | .check | .releaseLk => true
  | _ => false

/-- The waker has made the condition true. -/
def WakerPc.condSet : WakerPc → Bool
  | .lockP | .check | .releaseLk | .done => true
  | _ => false

/-- The waker has finished `wakeup`. -/
def WakerPc.woke : WakerPc → Bool
  | .releaseLk | .done => true
  | _ => false

/-- The waker has not reached the test in `wakeup`. -/
def WakerPc.beforeCheck : WakerPc → Bool
  | .start | .set | .lockP => true
  | _ => false

/-- The inductive invariant of the protocol, for channel `c`. -/
structure SleepInv (c : ℕ) (s : SleepSys) : Prop where
  lk_sleeper : s.lk = some .sleeper ↔ s.spc.holdsLk
  lk_waker : s.lk = some .waker ↔ s.wpc.holdsLk
  plock_sleeper : s.plock = some .sleeper ↔ s.spc.holdsP
  plock_waker : s.plock = some .waker ↔ s.wpc = .check
  cond_eq : s.cond = s.wpc.condSet
  sleeping : s.proc.state = .SLEEPING → s.spc.asleep ∧ s.proc.chan = c
  state_cases : s.proc.state = .RUNNING ∨ s.proc.state = .SLEEPING ∨ s.proc.state = .RUNNABLE
  entering : s.spc.entering → s.wpc.beforeCheck
  woken : s.wpc.woke → s.proc.state ≠ .SLEEPING

/-- A waker outside `lk` that has not set the condition has not started. -/
theorem WakerPc.beforeCheck_of {w : WakerPc} (hl : w.holdsLk = false) (hc : w.condSet = false) :
    w.beforeCheck = true := by
  cases w <;> simp_all [WakerPc.holdsLk, WakerPc.condSet, WakerPc.beforeCheck]

/-- Outside both locks the sleeper is not between its test and `sched()`. -/
theorem SleeperPc.entering_of {p : SleeperPc} (hl : p.holdsLk = false) (hp : p.holdsP = false) :
    p.entering = false := by
  cases p <;> simp_all [SleeperPc.holdsLk, SleeperPc.holdsP, SleeperPc.entering]

theorem WakerPc.woke_of_beforeCheck {w : WakerPc} (h : w.beforeCheck = true) : w.woke = false := by
  cases w <;> simp_all [WakerPc.woke, WakerPc.beforeCheck]

variable {c : ℕ} {s : SleepSys}

/-- Every step of the sleeper keeps the invariant.  The one that matters is its test: it finds
the condition false only while it holds `lk`, so the waker has not started; from there to
`sched()` it holds `lk` or `p->lock`, which the waker needs before its own test. -/
theorem SleepInv.sleeper (h : SleepInv c s) : SleepInv c (sleeperStep c s) := by
  obtain ⟨h1, h2, h3, h4, h5, h6, h7, h8, h9⟩ := h
  unfold sleeperStep
  cases hp : s.spc
  case test =>
    -- the test finds the condition false while the sleeper holds `lk`: the waker, which sets
    -- it under `lk`, has not started
    have hl : s.wpc.holdsLk = false := by
      cases hw : s.wpc.holdsLk
      · rfl
      · have := h1.2 (by simp [hp, SleeperPc.holdsLk])
        simp_all
    dsimp only
    split_ifs with hc
    · constructor <;> simp_all [SleeperPc.holdsLk, SleeperPc.holdsP, SleeperPc.asleep,
        SleeperPc.entering]
    · have hb := WakerPc.beforeCheck_of hl (by simpa [h5] using hc)
      constructor <;> simp_all [SleeperPc.holdsLk, SleeperPc.holdsP, SleeperPc.asleep,
        SleeperPc.entering, WakerPc.woke_of_beforeCheck]
  all_goals
    dsimp only
    (try split_ifs) <;> constructor <;>
      simp_all [SleeperPc.holdsLk, SleeperPc.holdsP, SleeperPc.asleep, SleeperPc.entering,
        WakerPc.woke_of_beforeCheck]

/-- Every step of the waker keeps the invariant. -/
theorem SleepInv.waker (h : SleepInv c s) : SleepInv c (wakerStep c s) := by
  obtain ⟨h1, h2, h3, h4, h5, h6, h7, h8, h9⟩ := h
  unfold wakerStep
  cases hw : s.wpc
  case check =>
    -- the test of `wakeup`: a sleeping sleeper is on channel `c`, so it is woken
    have hwake : (s.proc.wake c).state ≠ .SLEEPING ∧ ((s.proc.wake c).state = .RUNNING ∨
        (s.proc.wake c).state = .RUNNABLE) := by
      by_cases hs : s.proc.state = .SLEEPING
      · rw [← (h6 hs).2, Proc.wake_state_of_eq hs]
        simp
      · rw [Proc.wake_state_of_ne c hs]
        exact ⟨hs, by simpa [hs] using h7⟩
    dsimp only
    constructor <;> simp_all [WakerPc.holdsLk, WakerPc.condSet, WakerPc.woke, WakerPc.beforeCheck]
  all_goals
    dsimp only
    (try split_ifs) <;> constructor <;>
      simp_all [WakerPc.holdsLk, WakerPc.condSet, WakerPc.woke, WakerPc.beforeCheck,
        SleeperPc.entering_of]

/-- One step of the party `l`. -/
def sleepStep (c : ℕ) (s : SleepSys) : Party → SleepSys
  | .sleeper => sleeperStep c s
  | .waker => wakerStep c s

/-- Both processes start outside `lk`; the sleeper is running and the condition is false. -/
def sleepInit : SleepSys := ⟨.start, .start, none, none, ⟨.RUNNING, 0, false, 1⟩, false⟩

/-- The protocol as a machine: the label says which process takes its next step. -/
def sleepSys (c : ℕ) : Machine SleepSys Party Unit := ⟨sleepInit, fun s l => (sleepStep c s l, ())⟩

theorem sleepInv_init : SleepInv c sleepInit := by
  constructor <;> simp [sleepInit, SleeperPc.holdsLk, SleeperPc.holdsP, SleeperPc.entering,
    WakerPc.holdsLk, WakerPc.condSet, WakerPc.woke]

theorem sleepInv_reachable (h : (sleepSys c).Reachable s) : SleepInv c s :=
  Machine.Reachable.induction (SleepInv c) sleepInv_init
    (fun _ l hs => by cases l; exacts [hs.sleeper, hs.waker]) h

/-- **No wake-up is lost.**  In every interleaving of the sleeper and the waker, once the waker
has finished its `wakeup(chan)`, the sleeper is `RUNNABLE` or `RUNNING`: if it found the
condition false and went to sleep, the `wakeup` found it `SLEEPING` on `chan`. -/
theorem no_lost_wakeup (c : ℕ) (ls : List Party)
    (hw : ((sleepSys c).run (sleepSys c).init ls).wpc.woke) :
    ((sleepSys c).run (sleepSys c).init ls).proc.state = .RUNNABLE ∨
      ((sleepSys c).run (sleepSys c).init ls).proc.state = .RUNNING := by
  have h := sleepInv_reachable (Machine.Reachable.of_run (M := sleepSys c) ls)
  have hne := h.woken hw
  rcases h.state_cases with hs | hs | hs
  · exact .inr hs
  · exact absurd hs hne
  · exact .inl hs

/-- The sleeper goes to sleep first, then the waker runs through its `wakeup`. -/
theorem no_lost_wakeup_after_sleep :
    ((sleepSys 7).run (sleepSys 7).init
        (List.replicate 6 .sleeper ++ List.replicate 4 .waker)).wpc.woke ∧
      (((sleepSys 7).run (sleepSys 7).init
          (List.replicate 6 .sleeper ++ List.replicate 4 .waker)).proc.state = .RUNNABLE ∨
        ((sleepSys 7).run (sleepSys 7).init
          (List.replicate 6 .sleeper ++ List.replicate 4 .waker)).proc.state = .RUNNING) := by
  have hw : ((sleepSys 7).run (sleepSys 7).init
      (List.replicate 6 .sleeper ++ List.replicate 4 .waker)).wpc.woke := by
    decide +kernel
  exact ⟨hw, no_lost_wakeup 7 _ hw⟩

-- the sleeper does sleep in that run: six of its steps take it off the CPU, `SLEEPING`
example : ((sleepSys 7).run (sleepSys 7).init (List.replicate 6 .sleeper)).proc.state =
    .SLEEPING := by
  decide

end Kernel

end Xv6Net
