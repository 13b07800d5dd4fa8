import Mathlib.Data.List.Flatten
import Xv6Net.Ring.Counter
import Xv6Net.Kernel.Wait

/-!
# Pipes (`pipe.c`)

A pipe is a page holding `struct pipe`: `PIPESIZE` bytes of data and two free-running 32-bit
counters, `nread` and `nwrite`, of the bytes read and written so far; byte number `c` of the
stream is `data[c % PIPESIZE]`.  `pipewrite` and `piperead` run with the pipe's lock held and
give it up only in `sleep`, so each call is a sequence of atomic segments separated by its
sleeps, and the pipe is a machine (`pipeMachine`) whose labels are those segments and the
`pipeclose` of either end, in any interleaving.  What the user memory does is a parameter of
each segment: which `copyin` of a byte gives what byte (`src`) and which `copyout` succeeds
(`ok`); so is when the process is found `killed`.

The loops keep, besides what the code computes, the bytes they moved: the bytes `pipewrite`
stored, and the bytes `piperead` took out of the pipe.  Those are what the caller's buffer
held and what it should get; they make the stream of the run a function of its outputs
(`PipeEv.stored`, `PipeEv.taken`, `PipeEv.got`).

* `PipeBuf.contents` : the bytes in the pipe, oldest first (the view of the ring between the
  two counters); `put` appends (`PipeBuf.put_contents`), `get` removes the oldest
  (`PipeBuf.get_contents`).
* `pipe_fifo` : in every run the counters are at most `PIPESIZE` apart, and the bytes taken out
  of the pipe, followed by the bytes still in it, are exactly the bytes written into it: the pipe
  is a FIFO queue of capacity `PIPESIZE`, across every wrap of the counters.
* `pipe_kfree_once` : when each end is closed once, the page is freed exactly when both are
  closed, once.
* `piperead_drops_byte` : a `piperead` whose `copyout` of the first byte fails has already
  advanced `nread`: it returns `0`, the byte is gone from the pipe and no read ever returns it
  (`pipe_returned_not_prefix`).
-/

namespace Xv6Net

namespace Kernel

open RingBuf

instance : NeZero PIPESIZE.toNat := ⟨by decide⟩

theorem PIPESIZE_dvd : PIPESIZE.toNat ∣ 2 ^ 32 := ⟨2 ^ 23, by decide⟩

theorem PIPESIZE_lt : PIPESIZE.toNat < 2 ^ 32 := by decide

/-- `struct pipe`: the counters and flags of `Pipe`, and the data. -/
structure PipeBuf extends Pipe where
  data : Fin PIPESIZE.toNat → UInt8

namespace PipeBuf

/-- The bytes in the pipe, oldest first. -/
def contents (p : PipeBuf) : List UInt8 := view p.data (slotOf p.nread) (span p.nread p.nwrite)

/-- `pi->data[pi->nwrite++ % PIPESIZE] = ch`. -/
def put (p : PipeBuf) (ch : UInt8) : PipeBuf :=
  { p with data := Function.update p.data (slotOf p.nwrite) ch, nwrite := p.nwrite + 1 }

/-- `ch = pi->data[pi->nread++ % PIPESIZE]`: the byte and the pipe after. -/
def get (p : PipeBuf) : UInt8 × PipeBuf :=
  (p.data (slotOf p.nread), { p with nread := p.nread + 1 })

/-- The counters are at most `PIPESIZE` apart. -/
def Bounded (p : PipeBuf) : Prop := span p.nread p.nwrite ≤ PIPESIZE.toNat

@[simp] theorem contents_length (p : PipeBuf) : p.contents.length = span p.nread p.nwrite :=
  view_length _ _ _

@[simp] theorem put_nread (p : PipeBuf) (ch : UInt8) : (p.put ch).nread = p.nread := rfl

@[simp] theorem put_readopen (p : PipeBuf) (ch : UInt8) : (p.put ch).readopen = p.readopen := rfl

@[simp] theorem put_writeopen (p : PipeBuf) (ch : UInt8) :
    (p.put ch).writeopen = p.writeopen := rfl

@[simp] theorem get_nwrite (p : PipeBuf) : p.get.2.nwrite = p.nwrite := rfl

@[simp] theorem get_readopen (p : PipeBuf) : p.get.2.readopen = p.readopen := rfl

@[simp] theorem get_writeopen (p : PipeBuf) : p.get.2.writeopen = p.writeopen := rfl

/-- `pipewrite`'s test `nwrite == nread + PIPESIZE` is a test that the pipe is full. -/
theorem full_iff (p : PipeBuf) : p.nwrite = p.nread + PIPESIZE ↔ span p.nread p.nwrite = PIPESIZE.toNat := by
  rw [← eq_add_iff_span PIPESIZE_lt]
  rfl

/-- **Writing a byte into a pipe that is not full appends it.** -/
theorem put_contents {p : PipeBuf} (h : span p.nread p.nwrite < PIPESIZE.toNat) (ch : UInt8) :
    (p.put ch).contents = p.contents ++ [ch] :=
  view_push_counter PIPESIZE_dvd PIPESIZE_lt _ ch h

theorem put_span {p : PipeBuf} (h : span p.nread p.nwrite < PIPESIZE.toNat) (ch : UInt8) :
    span (p.put ch).nread (p.put ch).nwrite = span p.nread p.nwrite + 1 := by
  show span p.nread (p.nwrite + 1) = _
  exact span_add_one_right (by have := PIPESIZE_lt; omega)

/-- **Reading a byte out of a pipe that is not empty takes the oldest.** -/
theorem get_contents {p : PipeBuf} (h : p.nread ≠ p.nwrite) :
    p.contents = p.get.1 :: p.get.2.contents :=
  view_pop_counter PIPESIZE_dvd _ h

theorem get_span {p : PipeBuf} (h : p.nread ≠ p.nwrite) :
    span p.get.2.nread p.get.2.nwrite + 1 = span p.nread p.nwrite :=
  span_add_one_left h

end PipeBuf

open PipeBuf

/-- The pipe `pipealloc` sets up in a page whose bytes are `data₀`. -/
def pipealloc (data₀ : Fin PIPESIZE.toNat → UInt8) : PipeBuf :=
  ⟨⟨0, 0, true, true⟩, data₀⟩

/-! ### `pipewrite` -/

/-- How a segment of `pipewrite` ends. -/
inductive WriteRes
  /-- Asleep on `nwrite`, the pipe full, with `i` bytes written so far. -/
  | sleep (i : ℕ)
  /-- The call returns `r`. -/
  | ret (r : ℤ)
  deriving DecidableEq, Repr

/-- The loop of `pipewrite` from byte `i`, with `k` bytes left before `n`: the pipe, the bytes
it stored, and how the segment ends.  `src j` is what `copyin` of byte `j` gives (`none`: it
failed) and `killed j` what `killed(pr)` returns in the pass for byte `j`. -/
def pipewriteLoop (src : ℕ → Option UInt8) (killed : ℕ → Bool) :
    ℕ → ℕ → PipeBuf → PipeBuf × List UInt8 × WriteRes
  | 0, i, p => (p, [], .ret i)
  | k + 1, i, p =>
    match pipewriteWait p.toPipe (killed i) with
    | .fail => (p, [], .ret (-1))
    | .sleep => (p, [], .sleep i)
    | .proceed =>
      match src i with
      -- `copyin` failed: `break`
      | none => (p, [], .ret i)
      | some ch =>
        let r := pipewriteLoop src killed k (i + 1) (p.put ch)
        (r.1, ch :: r.2.1, r.2.2)

/-- `pipewrite(pi, addr, n)` entered, or woken up, with `i` bytes written. -/
def pipewrite (src : ℕ → Option UInt8) (killed : ℕ → Bool) (n : ℤ) (i : ℕ) (p : PipeBuf) :
    PipeBuf × List UInt8 × WriteRes :=
  pipewriteLoop src killed (n.toNat - i) i p

/-! ### `piperead` -/

/-- How a segment of `piperead` ends. -/
inductive ReadRes
  /-- Asleep on `nread`: the pipe is empty and has a writer. -/
  | sleep
  /-- The call returns `r`, having taken the bytes `taken` out of the pipe. -/
  | ret (r : ℤ) (taken : List UInt8)
  deriving DecidableEq, Repr

/-- The copy loop of `piperead` from byte `i`, with `k` bytes left before `n`: the pipe, the
bytes taken out of it, and the final `i`.  `ok j` is whether `copyout` of byte `j` succeeds. -/
def pipereadLoop (ok : ℕ → Bool) : ℕ → ℕ → PipeBuf → PipeBuf × List UInt8 × ℕ
  | 0, i, p => (p, [], i)
  | k + 1, i, p =>
    if p.nread = p.nwrite then (p, [], i)
    else
      let (ch, p) := p.get
      if ok i then
        let r := pipereadLoop ok k (i + 1) p
        (r.1, ch :: r.2.1, r.2.2)
      -- `copyout` failed: `break`, with `nread` already advanced past `ch`
      else (p, [ch], i)

/-- `piperead(pi, addr, n)`, entered or woken up. -/
def piperead (ok : ℕ → Bool) (killed : Bool) (n : ℤ) (p : PipeBuf) : PipeBuf × ReadRes :=
  match pipereadWait p.toPipe killed with
  | .fail => (p, .ret (-1) [])
  | .sleep => (p, .sleep)
  | .proceed =>
    let r := pipereadLoop ok n.toNat 0 p
    (r.1, .ret r.2.2 r.2.1)

/-! ### `pipeclose` -/

/-- `pipeclose(pi, writable)`: the pipe, and whether it `kfree`s the page. -/
def pipeclose (writable : Bool) (p : PipeBuf) : PipeBuf × Bool :=
  let p : PipeBuf := if writable then { p with writeopen := false } else { p with readopen := false }
  (p, !p.readopen && !p.writeopen)

/-- What lets `pipewrite` store a byte: a reader, no kill, and room. -/
theorem pipewriteWait_proceed {pi : Pipe} {killed : Bool} (h : pipewriteWait pi killed = .proceed) :
    pi.readopen = true ∧ killed = false ∧ pi.nwrite ≠ pi.nread + PIPESIZE := by
  unfold pipewriteWait at h
  split at h
  · cases h
  · split at h
    · cases h
    · rename_i h₁ h₂
      simp only [Bool.or_eq_true, Bool.not_eq_eq_eq_not, Bool.not_true, not_or] at h₁
      exact ⟨by simpa using h₁.1, by simpa using h₁.2, by simpa using h₂⟩

/-- `piperead` goes on to copy exactly when the pipe is not empty or has no writer. -/
theorem pipereadWait_eq_proceed {pi : Pipe} {killed : Bool} :
    pipereadWait pi killed = .proceed ↔ (pi.nread = pi.nwrite → pi.writeopen = false) := by
  unfold pipereadWait killableWait
  by_cases hw : (pi.nread == pi.nwrite && pi.writeopen) = true
  · have h : pi.nread = pi.nwrite ∧ pi.writeopen = true := by simpa using hw
    rw [if_pos hw]
    cases killed <;> simp [h]
  · have h : pi.nread = pi.nwrite → pi.writeopen = false := by simpa using hw
    simpa [hw] using h

/-! ### The pipe as a machine -/

/-- A segment of a call on the pipe. -/
inductive PipeOp
  /-- A segment of `pipewrite(pi, addr, n)` from byte `i`. -/
  | write (n : ℤ) (i : ℕ) (src : ℕ → Option UInt8) (killed : ℕ → Bool)
  /-- A segment of `piperead(pi, addr, n)`. -/
  | read (n : ℤ) (ok : ℕ → Bool) (killed : Bool)
  /-- `pipeclose(pi, writable)`. -/
  | close (writable : Bool)

/-- What a segment did. -/
inductive PipeEv
  | wrote (stored : List UInt8) (res : WriteRes)
  | read (res : ReadRes)
  | closed (writable : Bool) (kfree : Bool)
  deriving DecidableEq, Repr

def pipeStep (p : PipeBuf) : PipeOp → PipeBuf × PipeEv
  | .write n i src killed =>
    let r := pipewrite src killed n i p
    (r.1, .wrote r.2.1 r.2.2)
  | .read n ok killed =>
    let r := piperead ok killed n p
    (r.1, .read r.2)
  | .close writable =>
    let r := pipeclose writable p
    (r.1, .closed writable r.2)

/-- A pipe from `pipealloc` on, under any interleaving of segments. -/
def pipeMachine (data₀ : Fin PIPESIZE.toNat → UInt8) : Machine PipeBuf PipeOp PipeEv :=
  ⟨pipealloc data₀, pipeStep⟩

namespace PipeEv

/-- The bytes a segment stored in the pipe. -/
def stored : PipeEv → List UInt8
  | .wrote bs _ => bs
  | _ => []

/-- The bytes a segment took out of the pipe. -/
def taken : PipeEv → List UInt8
  | .read (.ret _ bs) => bs
  | _ => []

/-- The bytes a read returned to its caller: the first `r` it took. -/
def got : PipeEv → List UInt8
  | .read (.ret r bs) => bs.take r.toNat
  | _ => []

/-- The page was freed. -/
def freed : PipeEv → Bool
  | .closed _ f => f
  | _ => false

/-- The end `writable` was closed. -/
def closes (writable : Bool) : PipeEv → Bool
  | .closed w _ => w == writable
  | _ => false

end PipeEv

/-! ### The loops' effect on the contents -/

/-- `pipewrite`'s loop touches neither flag. -/
theorem pipewriteLoop_flags (src : ℕ → Option UInt8) (killed : ℕ → Bool) (k i : ℕ) (p : PipeBuf) :
    (pipewriteLoop src killed k i p).1.readopen = p.readopen ∧
      (pipewriteLoop src killed k i p).1.writeopen = p.writeopen := by
  induction k generalizing i p with
  | zero => simp [pipewriteLoop]
  | succ k ih =>
    simp only [pipewriteLoop]
    split
    · simp
    · simp
    · split
      · simp
      · rename_i ch _
        obtain ⟨hro, hwo⟩ := ih (i + 1) (p.put ch)
        exact ⟨hro.trans (put_readopen p ch), hwo.trans (put_writeopen p ch)⟩

/-- `pipewrite`'s loop appends the bytes it stored and keeps the pipe within `PIPESIZE`. -/
theorem pipewriteLoop_contents (src : ℕ → Option UInt8) (killed : ℕ → Bool) (k i : ℕ)
    {p : PipeBuf} (hp : p.Bounded) :
    let r := pipewriteLoop src killed k i p
    r.1.contents = p.contents ++ r.2.1 ∧ r.1.Bounded := by
  induction k generalizing i p with
  | zero => simp [pipewriteLoop, hp]
  | succ k ih =>
    simp only [pipewriteLoop]
    split
    · simp [hp]
    · simp [hp]
    · rename_i hw
      split
      · simp [hp]
      · rename_i ch _
        -- the wait test let the byte through: the pipe is not full
        have hlt : span p.nread p.nwrite < PIPESIZE.toNat := by
          have hfull := (pipewriteWait_proceed hw).2.2
          rw [Ne, full_iff] at hfull
          exact lt_of_le_of_ne hp hfull
        have hb : (p.put ch).Bounded := by
          rw [Bounded, put_span hlt]; omega
        obtain ⟨hc, hb'⟩ := ih (i + 1) hb
        refine ⟨?_, hb'⟩
        rw [hc, put_contents hlt, List.append_assoc, List.singleton_append]

/-- `piperead`'s loop touches neither flag. -/
theorem pipereadLoop_flags (ok : ℕ → Bool) (k i : ℕ) (p : PipeBuf) :
    (pipereadLoop ok k i p).1.readopen = p.readopen ∧
      (pipereadLoop ok k i p).1.writeopen = p.writeopen := by
  induction k generalizing i p with
  | zero => simp [pipereadLoop]
  | succ k ih =>
    simp only [pipereadLoop]
    split
    · simp
    · split
      · obtain ⟨hro, hwo⟩ := ih (i + 1) p.get.2
        exact ⟨hro.trans (get_readopen p), hwo.trans (get_writeopen p)⟩
      · simp

/-- `piperead`'s loop takes its bytes off the front. -/
theorem pipereadLoop_contents (ok : ℕ → Bool) (k i : ℕ) {p : PipeBuf} (hp : p.Bounded) :
    let r := pipereadLoop ok k i p
    p.contents = r.2.1 ++ r.1.contents ∧ r.1.Bounded := by
  induction k generalizing i p with
  | zero => simp [pipereadLoop, hp]
  | succ k ih =>
    simp only [pipereadLoop]
    split
    · simp [hp]
    · rename_i hne
      have hb : p.get.2.Bounded := by
        have := get_span hne; unfold Bounded at *; omega
      split
      · obtain ⟨hc, hb'⟩ := ih (i + 1) hb
        refine ⟨?_, hb'⟩
        rw [get_contents hne, hc, List.cons_append]
      · exact ⟨get_contents hne, hb⟩

/-- How many bytes a read took against what it returned: all of them, or one more, the one
whose `copyout` failed. -/
theorem pipereadLoop_length (ok : ℕ → Bool) (k i : ℕ) (p : PipeBuf) :
    let r := pipereadLoop ok k i p
    i ≤ r.2.2 ∧ (r.2.1.length = r.2.2 - i ∨ (r.2.1.length = r.2.2 - i + 1 ∧ ok r.2.2 = false)) := by
  induction k generalizing i p with
  | zero => simp [pipereadLoop]
  | succ k ih =>
    simp only [pipereadLoop]
    split
    · simp
    · split
      · dsimp only
        obtain ⟨hle, hlen⟩ := ih (i + 1) p.get.2
        refine ⟨by omega, ?_⟩
        simp only [List.length_cons]
        rcases hlen with h | ⟨h, hf⟩
        · left; omega
        · right; exact ⟨by omega, hf⟩
      · rename_i hok
        simp [hok]

/-! ### Runs -/

@[simp] theorem pipeMachine_init (data₀ : Fin PIPESIZE.toNat → UInt8) :
    (pipeMachine data₀).init = pipealloc data₀ := rfl

@[simp] theorem pipeMachine_step (data₀ : Fin PIPESIZE.toNat → UInt8) :
    (pipeMachine data₀).step = pipeStep := rfl

@[simp] theorem pipeclose_contents (w : Bool) (p : PipeBuf) :
    (pipeclose w p).1.contents = p.contents := by
  cases w <;> rfl

theorem pipeclose_bounded (w : Bool) {p : PipeBuf} (hp : p.Bounded) : (pipeclose w p).1.Bounded := by
  cases w <;> exact hp

/-- **One step of the FIFO law.**  What was in the pipe followed by what the step stored is
what the step took followed by what is in the pipe after. -/
theorem pipeStep_fifo {p : PipeBuf} (hp : p.Bounded) (l : PipeOp) :
    (pipeStep p l).1.Bounded ∧
      p.contents ++ (pipeStep p l).2.stored = (pipeStep p l).2.taken ++ (pipeStep p l).1.contents := by
  cases l with
  | write n i src killed =>
    obtain ⟨hc, hb⟩ := pipewriteLoop_contents src killed (n.toNat - i) i hp
    exact ⟨hb, by simp [pipeStep, pipewrite, PipeEv.stored, PipeEv.taken, hc]⟩
  | read n ok killed =>
    simp only [pipeStep, piperead]
    split
    · simp [PipeEv.stored, PipeEv.taken, hp]
    · simp [PipeEv.stored, PipeEv.taken, hp]
    · obtain ⟨hc, hb⟩ := pipereadLoop_contents ok n.toNat 0 hp
      exact ⟨hb, by simp [PipeEv.stored, PipeEv.taken, hc]⟩
  | close w =>
    exact ⟨pipeclose_bounded w hp, by simp [pipeStep, PipeEv.stored, PipeEv.taken]⟩

/-- **The pipe is a FIFO queue of capacity `PIPESIZE`.**  In every run, across every wrap of
the 32-bit counters, `nwrite - nread` is at most `PIPESIZE`, and the bytes taken out of the
pipe, followed by the bytes still in it, are the bytes written into it: nothing is lost,
duplicated or reordered inside the pipe. -/
theorem pipe_fifo (data₀ : Fin PIPESIZE.toNat → UInt8) (ls : List PipeOp) :
    let M := pipeMachine data₀
    let p := M.run M.init ls
    let evs := M.outs M.init ls
    span p.nread p.nwrite ≤ PIPESIZE.toNat ∧
      evs.flatMap PipeEv.taken ++ p.contents = evs.flatMap PipeEv.stored := by
  intro M
  refine Machine.run_outs_induction (M := M)
    (fun p evs => p.Bounded ∧ evs.flatMap PipeEv.taken ++ p.contents = evs.flatMap PipeEv.stored)
    ⟨by simp [M, Bounded, pipealloc], by simp [M, contents, pipealloc]⟩ ?_ ls
  rintro p evs l _ ⟨hb, hfifo⟩
  obtain ⟨hb', hstep⟩ := pipeStep_fifo hb l
  refine ⟨hb', ?_⟩
  simp only [M, pipeMachine_step, List.flatMap_append, List.flatMap_singleton]
  rw [List.append_assoc, ← hstep, ← List.append_assoc, hfifo]

/-- The bytes returned by reads form a sublist of the bytes written: what a read returns is a
prefix of what it took. -/
theorem pipe_returned_sublist (data₀ : Fin PIPESIZE.toNat → UInt8) (ls : List PipeOp) :
    let M := pipeMachine data₀
    let evs := M.outs M.init ls
    List.Sublist (evs.flatMap PipeEv.got) (evs.flatMap PipeEv.stored) := by
  intro M evs
  have hgot : List.Sublist (evs.flatMap PipeEv.got) (evs.flatMap PipeEv.taken) := by
    refine List.Sublist.flatMap_right _ fun e _ => ?_
    match e with
    | .read (.ret _ bs) => exact List.take_sublist _ _
    | .read .sleep => exact List.Sublist.refl _
    | .wrote _ _ => exact List.Sublist.refl _
    | .closed _ _ => exact List.Sublist.refl _
  rw [← (pipe_fifo data₀ ls).2]
  exact hgot.trans (List.sublist_append_left _ _)

/-! ### Closing the pipe -/

namespace PipeEv

/-- Only `pipeclose` clears a flag, the one of its end; it frees the page when both are
cleared after it. -/
theorem pipeStep_flags (p : PipeBuf) (l : PipeOp) :
    (pipeStep p l).1.writeopen = (p.writeopen && !(pipeStep p l).2.closes true) ∧
      (pipeStep p l).1.readopen = (p.readopen && !(pipeStep p l).2.closes false) ∧
      (pipeStep p l).2.freed = (((pipeStep p l).2.closes true || (pipeStep p l).2.closes false) &&
        !(pipeStep p l).1.readopen && !(pipeStep p l).1.writeopen) := by
  cases l with
  | write n i src killed =>
    obtain ⟨hro, hwo⟩ := pipewriteLoop_flags src killed (n.toNat - i) i p
    simp [pipeStep, pipewrite, closes, freed, hro, hwo]
  | read n ok killed =>
    simp only [pipeStep, piperead]
    split
    · simp [closes, freed]
    · simp [closes, freed]
    · obtain ⟨hro, hwo⟩ := pipereadLoop_flags ok n.toNat 0 p
      simp [closes, freed, hro, hwo]
  | close w => cases w <;> simp [pipeStep, pipeclose, closes, freed]

/-- A step closes at most one end. -/
theorem not_closes_both (e : PipeEv) : ¬ (e.closes true = true ∧ e.closes false = true) := by
  rcases e with _ | _ | ⟨_ | _, _⟩ <;> simp [closes]

theorem countP_pos_of_any {evs : List PipeEv} {q : PipeEv → Bool} (h : evs.any q = true) :
    0 < evs.countP q :=
  List.countP_pos_iff.2 (List.any_eq_true.1 h)

end PipeEv

open PipeEv in
/-- One step of the closing flags and of the count of frees: the flags say which ends were
closed, and while each end was closed at most once the page was freed once if both were. -/
theorem freed_step {evs : List PipeEv} {e : PipeEv} {p p' : PipeBuf}
    (hw : p.writeopen = !evs.any (closes true)) (hr : p.readopen = !evs.any (closes false))
    (hcount : evs.countP (closes true) ≤ 1 → evs.countP (closes false) ≤ 1 →
      evs.countP freed = if evs.any (closes true) && evs.any (closes false) then 1 else 0)
    (hw' : p'.writeopen = (p.writeopen && !e.closes true))
    (hr' : p'.readopen = (p.readopen && !e.closes false))
    (hf : e.freed = ((e.closes true || e.closes false) && !p'.readopen && !p'.writeopen)) :
    p'.writeopen = !(evs ++ [e]).any (closes true) ∧ p'.readopen = !(evs ++ [e]).any (closes false) ∧
      ((evs ++ [e]).countP (closes true) ≤ 1 → (evs ++ [e]).countP (closes false) ≤ 1 →
        (evs ++ [e]).countP freed =
          if (evs ++ [e]).any (closes true) && (evs ++ [e]).any (closes false) then 1 else 0) := by
  refine ⟨by simp [hw', hw, List.any_append], by simp [hr', hr, List.any_append], ?_⟩
  intro h1 h2
  simp only [List.countP_append, List.countP_singleton, List.any_append, List.any_cons,
    List.any_nil, Bool.or_false] at h1 h2 ⊢
  rw [hcount (by omega) (by omega)]
  -- an end already closed is not closed again by this step
  have hc1 : evs.any (closes true) = true → e.closes true = false := by
    intro ha
    have := countP_pos_of_any ha
    cases hc : e.closes true
    · rfl
    · simp only [hc, if_true] at h1; omega
  have hc2 : evs.any (closes false) = true → e.closes false = false := by
    intro ha
    have := countP_pos_of_any ha
    cases hc : e.closes false
    · rfl
    · simp only [hc, if_true] at h2; omega
  have hboth := not_closes_both e
  rw [hf, hr', hw', hr, hw]
  revert hc1 hc2 hboth
  -- what is left is a fact about four booleans
  generalize evs.any (closes true) = a₁
  generalize evs.any (closes false) = a₂
  generalize e.closes true = c₁
  generalize e.closes false = c₂
  cases a₁ <;> cases a₂ <;> cases c₁ <;> cases c₂ <;> simp

open PipeEv in
/-- **The pipe's page is freed exactly once, by the close of the second end.**  In every run in
which each end is closed at most once (as `fileclose` does, when the file's last reference
goes), `pipeclose` frees the page once if both ends have been closed and never otherwise. -/
theorem pipe_kfree_once (data₀ : Fin PIPESIZE.toNat → UInt8) (ls : List PipeOp) :
    let M := pipeMachine data₀
    let evs := M.outs M.init ls
    evs.countP (closes true) ≤ 1 → evs.countP (closes false) ≤ 1 →
      evs.countP freed = if evs.any (closes true) && evs.any (closes false) then 1 else 0 := by
  intro M
  refine (Machine.run_outs_induction (M := M) (fun p evs =>
      p.writeopen = !evs.any (closes true) ∧ p.readopen = !evs.any (closes false) ∧
      (evs.countP (closes true) ≤ 1 → evs.countP (closes false) ≤ 1 →
        evs.countP freed = if evs.any (closes true) && evs.any (closes false) then 1 else 0))
    ⟨rfl, rfl, by simp⟩ ?_ ls).2.2
  intro p evs l _ ⟨hw, hr, hcount⟩
  obtain ⟨hw', hr', hf⟩ := pipeStep_flags p l
  exact freed_step hw hr hcount hw' hr' hf

open PipeEv in
/-- The write end closed, then the read end: the page is freed once. -/
theorem pipe_kfree_once_both_closed :
    let M := pipeMachine fun _ => 0
    let evs := M.outs M.init [.close true, .close false]
    evs.countP (closes true) ≤ 1 ∧ evs.countP (closes false) ≤ 1 ∧ evs.countP freed = 1 := by
  intro M evs
  have h1 : evs.countP (closes true) ≤ 1 := by decide
  have h2 : evs.countP (closes false) ≤ 1 := by decide
  refine ⟨h1, h2, ?_⟩
  rw [pipe_kfree_once (fun _ => 0) [.close true, .close false] h1 h2]
  decide

/-! ### A failed `copyout` loses a byte -/

/-- **`piperead` consumes the byte whose `copyout` fails.**  When the pipe holds a byte `ch` and
the `copyout` of the first byte fails, `piperead` has already advanced `nread` past `ch`: it
returns `0`, as at end of file, though the pipe held data, and `ch` is gone from the pipe, so
no read will ever return it. -/
theorem piperead_drops_byte (ok : ℕ → Bool) (killed : Bool) {n : ℤ} (hn : 0 < n)
    {p : PipeBuf} {ch : UInt8} {rest : List UInt8} (hc : p.contents = ch :: rest)
    (hok : ok 0 = false) :
    (piperead ok killed n p).2 = .ret 0 [ch] ∧ (piperead ok killed n p).1.contents = rest := by
  have hne : p.nread ≠ p.nwrite := by
    intro h
    have := congrArg List.length hc
    simp [h] at this
  have hwait : pipereadWait p.toPipe killed = .proceed :=
    pipereadWait_eq_proceed.2 fun h => absurd h hne
  obtain ⟨m, hm⟩ : ∃ m, n.toNat = m + 1 := ⟨n.toNat - 1, by omega⟩
  have hget := get_contents hne
  rw [hc, List.cons.injEq] at hget
  simp only [piperead, hwait, hm, pipereadLoop, if_neg hne, hok]
  exact ⟨by rw [hget.1]; rfl, hget.2.symm⟩

/-- Two bytes written, a read of one byte whose `copyout` fails, then a read that succeeds: the
second read returns the second byte. -/
def dropRun : List PipeOp :=
  [.write 2 0 (fun j => some (j.toUInt8 + 1)) (fun _ => false), .read 1 (fun _ => false) false,
    .read 1 (fun _ => true) false]

theorem piperead_drops_byte_after_write :
    let M := pipeMachine fun _ => 0
    let p := M.run M.init (dropRun.take 1)
    (piperead (fun _ => false) false 1 p).2 = .ret 0 [1] ∧
      (piperead (fun _ => false) false 1 p).1.contents = [2] :=
  piperead_drops_byte (fun _ => false) false (by decide) (by decide) rfl

/-- The bytes the reads of `dropRun` return are not a prefix of the bytes written. -/
theorem pipe_returned_not_prefix :
    let M := pipeMachine fun _ => 0
    let evs := M.outs M.init dropRun
    ¬ (evs.flatMap PipeEv.got).IsPrefix (evs.flatMap PipeEv.stored) := by
  decide

end Kernel

end Xv6Net
