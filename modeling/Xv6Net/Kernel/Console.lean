import Mathlib.Data.List.Flatten
import Xv6Net.Ring.Counter
import Xv6Net.Kernel.Wait

/-!
# Console input (`console.c`)

The console's input is a ring of `INPUT_BUF_SIZE` bytes with three free-running 32-bit
indices: `r`, the next byte `consoleread` takes; `w`, the end of the committed input; `e`, the
end of the line being edited.  `consoleintr` edits between `w` and `e` (a byte is stored at
`e`, backspace and kill-line move `e` back) and commits the line (`w = e`) on a newline, a
`^D` or a full buffer; `consoleread` takes committed bytes from `r` on, up to a newline, and
treats `^D` as end of file.  `consoleread` gives up `cons.lock` only in `sleep`, so a call is a
sequence of atomic segments, and the console is a machine (`consMachine`) whose labels are
input characters and read segments, in any interleaving.  Which `copyout` succeeds (`ok`) and
whether the process is `killed` are parameters of a segment.

A read segment keeps, besides what the code computes, the bytes it took out of the ring
(`taken`) and the bytes it copied to the caller (`got`); an input step's output is the bytes it
committed, `committedBy`.

* `ConsBuf.Inv` : `r ≤ w ≤ e ≤ r + INPUT_BUF_SIZE` as differences of counters; it holds in
  every run (`cons_inv`).
* `consoleintr_committed` : input never changes a committed byte: it appends to the committed
  bytes exactly what it commits, so erase and kill-line stop at `w` and no unread byte is
  overwritten.
* `cons_fifo` : in every run, the bytes taken by reads followed by the committed bytes still
  unread are the committed input stream.
* `consoleread_eof` : a `^D` at the start of a read gives a 0-byte read.
* `consoleread_drops_byte` : a `consoleread` whose `copyout` of the first byte fails has
  already advanced `r`: it returns `0` and the byte is gone.
-/

namespace Xv6Net

namespace Kernel

open RingBuf

def INPUT_BUF_SIZE : UInt32 := 128

instance : NeZero INPUT_BUF_SIZE.toNat := ⟨by decide⟩

theorem INPUT_BUF_SIZE_dvd : INPUT_BUF_SIZE.toNat ∣ 2 ^ 32 := ⟨2 ^ 25, by decide⟩

theorem INPUT_BUF_SIZE_lt : INPUT_BUF_SIZE.toNat < 2 ^ 32 := by decide

/-- `C(x)`: control-`x`. -/
def C (x : Char) : UInt8 := (x.toNat - '@'.toNat).toUInt8

/-- The input part of `cons`: the indices of `Cons`, the edit index and the buffer. -/
structure ConsBuf extends Cons where
  e : UInt32
  buf : Fin INPUT_BUF_SIZE.toNat → UInt8

namespace ConsBuf

/-- The committed bytes not yet read. -/
def committed (c : ConsBuf) : List UInt8 := view c.buf (slotOf c.r) (span c.r c.w)

/-- `r ≤ w ≤ e ≤ r + INPUT_BUF_SIZE`, as differences of counters. -/
structure Inv (c : ConsBuf) : Prop where
  ordered : span c.r c.w + span c.w c.e = span c.r c.e
  bounded : span c.r c.e ≤ INPUT_BUF_SIZE.toNat

/-- `cons.buf[cons.e++ % INPUT_BUF_SIZE] = c`. -/
def store (c : ConsBuf) (ch : UInt8) : ConsBuf :=
  { c with buf := Function.update c.buf (slotOf c.e) ch, e := c.e + 1 }

/-- `cons.e--`. -/
def erase (c : ConsBuf) : ConsBuf := { c with e := c.e - 1 }

/-- `cons.w = cons.e`. -/
def commit (c : ConsBuf) : ConsBuf := { c with w := c.e }

end ConsBuf

open ConsBuf

/-! ### `consoleintr` -/

/-- The loop of kill-line: `while(cons.e != cons.w && cons.buf[(cons.e-1) % INPUT_BUF_SIZE] !=
'\n') cons.e--;`, with one round per byte between `w` and `e`. -/
def killLineLoop : ℕ → ConsBuf → ConsBuf
  | 0, c => c
  | k + 1, c =>
    if c.e ≠ c.w ∧ c.buf (slotOf (c.e - 1)) ≠ '\n'.toUInt8 then killLineLoop k c.erase
    else c

/-- `consoleintr(c)`: one input character (the echo to the UART apart). -/
def consoleintr (ch : UInt8) (c : ConsBuf) : ConsBuf :=
  if ch = C 'P' then c
  else if ch = C 'U' then killLineLoop (span c.w c.e) c
  else if ch = C 'H' ∨ ch = 0x7f then
    if c.e ≠ c.w then c.erase else c
  else if ch ≠ 0 ∧ c.e - c.r < INPUT_BUF_SIZE then
    let ch := if ch = '\r'.toUInt8 then '\n'.toUInt8 else ch
    let c := c.store ch
    if ch = '\n'.toUInt8 ∨ ch = C 'D' ∨ c.e - c.r = INPUT_BUF_SIZE then c.commit else c
  else c

/-- The bytes an input step committed: those from the old `w` to the new one. -/
def committedBy (c c' : ConsBuf) : List UInt8 := view c'.buf (slotOf c.w) (span c.w c'.w)

/-! ### `consoleread` -/

/-- How a segment of `consoleread` ends. -/
inductive ConsRes
  /-- Asleep on `cons.r`, with `n` bytes still to read. -/
  | sleep (n : ℕ)
  /-- The call returns `r`. -/
  | ret (r : ℤ)
  deriving DecidableEq, Repr

/-- The loop of `consoleread(user_dst, dst, n)` called with `n = target`, from a point where
`n` bytes are left: the console, the bytes taken out of the ring, the bytes copied out, and how
the segment ends.  `ok j` is whether `copyout` to `dst + j` succeeds. -/
def consolereadLoop (ok : ℕ → Bool) (killed : Bool) (target : ℕ) :
    ℕ → ConsBuf → ConsBuf × List UInt8 × List UInt8 × ConsRes
  | 0, c => (c, [], [], .ret target)
  | n + 1, c =>
    match consolereadWait c.toCons killed with
    | .fail => (c, [], [], .ret (-1))
    | .sleep => (c, [], [], .sleep (n + 1))
    | .proceed =>
      let ch := c.buf (slotOf c.r)
      let c := { c with r := c.r + 1 }
      if ch = C 'D' then
        -- end of file: a `^D` after some bytes is saved for the next read
        if n + 1 < target then ({ c with r := c.r - 1 }, [], [], .ret (target - (n + 1)))
        else (c, [ch], [], .ret (target - (n + 1)))
      else if ok (target - (n + 1)) then
        if ch = '\n'.toUInt8 then (c, [ch], [ch], .ret (target - n))
        else
          let r := consolereadLoop ok killed target n c
          (r.1, ch :: r.2.1, ch :: r.2.2.1, r.2.2.2)
      -- `copyout` failed: `break`, with `r` already advanced past `ch`
      else (c, [ch], [], .ret (target - (n + 1)))

/-! ### The console as a machine -/

/-- An input character, or a segment of `consoleread` with `n` of its `target` bytes left. -/
inductive ConsOp
  | intr (ch : UInt8)
  | read (target n : ℕ) (ok : ℕ → Bool) (killed : Bool)

/-- What a step did: the bytes an input step committed, or what a read segment took, copied
and returned. -/
inductive ConsEv
  | intr (committed : List UInt8)
  | read (taken got : List UInt8) (res : ConsRes)
  deriving DecidableEq, Repr

def consStep (c : ConsBuf) : ConsOp → ConsBuf × ConsEv
  | .intr ch =>
    let c' := consoleintr ch c
    (c', .intr (committedBy c c'))
  | .read target n ok killed =>
    let r := consolereadLoop ok killed target n c
    (r.1, .read r.2.1 r.2.2.1 r.2.2.2)

/-- The console from `consoleinit` on: all indices `0`, the buffer's bytes `buf₀`. -/
def consMachine (buf₀ : Fin INPUT_BUF_SIZE.toNat → UInt8) : Machine ConsBuf ConsOp ConsEv :=
  ⟨⟨⟨0, 0⟩, 0, buf₀⟩, consStep⟩

namespace ConsEv

def committed : ConsEv → List UInt8
  | .intr bs => bs
  | _ => []

def taken : ConsEv → List UInt8
  | .read bs _ _ => bs
  | _ => []

def got : ConsEv → List UInt8
  | .read _ bs _ => bs
  | _ => []

end ConsEv

/-! ### The invariant under input -/

namespace ConsBuf

@[simp] theorem store_r (c : ConsBuf) (ch : UInt8) : (c.store ch).r = c.r := rfl
@[simp] theorem store_w (c : ConsBuf) (ch : UInt8) : (c.store ch).w = c.w := rfl
@[simp] theorem store_e (c : ConsBuf) (ch : UInt8) : (c.store ch).e = c.e + 1 := rfl
@[simp] theorem erase_r (c : ConsBuf) : c.erase.r = c.r := rfl
@[simp] theorem erase_w (c : ConsBuf) : c.erase.w = c.w := rfl
@[simp] theorem erase_e (c : ConsBuf) : c.erase.e = c.e - 1 := rfl
@[simp] theorem erase_buf (c : ConsBuf) : c.erase.buf = c.buf := rfl
@[simp] theorem commit_r (c : ConsBuf) : c.commit.r = c.r := rfl
@[simp] theorem commit_w (c : ConsBuf) : c.commit.w = c.e := rfl
@[simp] theorem commit_e (c : ConsBuf) : c.commit.e = c.e := rfl
@[simp] theorem commit_buf (c : ConsBuf) : c.commit.buf = c.buf := rfl

/-- `e - r < INPUT_BUF_SIZE` compares the difference. -/
theorem lt_iff (c : ConsBuf) : c.e - c.r < INPUT_BUF_SIZE ↔ span c.r c.e < INPUT_BUF_SIZE.toNat :=
  UInt32.lt_iff_toNat_lt

/-- `e - r == INPUT_BUF_SIZE` compares the difference. -/
theorem eq_iff (c : ConsBuf) : c.e - c.r = INPUT_BUF_SIZE ↔ span c.r c.e = INPUT_BUF_SIZE.toNat :=
  UInt32.toNat_inj.symm

/-- Erasing a byte of the line being edited keeps `w` between `r` and `e`. -/
theorem Inv.erase {c : ConsBuf} (hc : c.Inv) (hne : c.e ≠ c.w) :
    c.erase.Inv ∧ span c.w c.erase.e < span c.w c.e := by
  have hwe := span_sub_one_right hne.symm
  -- `r ≠ e`, since `e` is at least one past `w`
  have hre : c.r ≠ c.e := by
    intro h
    have := hc.ordered
    rw [h, span_self] at this
    omega
  have hre' := span_sub_one_right hre
  have := hc.ordered; have := hc.bounded
  exact ⟨⟨by simp only [erase_r, erase_w, erase_e]; omega, by simp only [erase_r, erase_e]; omega⟩,
    by simp only [erase_e]; omega⟩

/-- Storing a byte at `e`, when there is room, keeps the invariant and the committed bytes. -/
theorem Inv.store {c : ConsBuf} (hc : c.Inv) (hlt : span c.r c.e < INPUT_BUF_SIZE.toNat)
    (ch : UInt8) :
    (c.store ch).Inv ∧ span c.r (c.store ch).e = span c.r c.e + 1 ∧
      view (c.store ch).buf (slotOf c.r) (span c.r c.w) = c.committed := by
  have hbig := INPUT_BUF_SIZE_lt
  have hre := span_add_one_right (r := c.r) (w := c.e) (by omega)
  have hwe := span_add_one_right (r := c.w) (w := c.e) (by have := hc.ordered; omega)
  have := hc.ordered
  refine ⟨⟨?_, ?_⟩, hre, ?_⟩
  · simp only [store_r, store_w, store_e]; omega
  · simp only [store_r, store_e]; omega
  · exact view_update_counter INPUT_BUF_SIZE_dvd _ ch (by omega) hlt

/-- Committing keeps the invariant. -/
theorem Inv.commit {c : ConsBuf} (hc : c.Inv) : c.commit.Inv :=
  ⟨by simp, hc.bounded⟩

/-- **Input appends what it commits.**  When an input step keeps `r`, leaves the committed
bytes alone and moves `w` forward (between the old `w` and itself), the committed bytes after
it are those before followed by the bytes it committed. -/
theorem committed_of_frame {c c' : ConsBuf} (hr : c'.r = c.r)
    (hview : view c'.buf (slotOf c.r) (span c.r c.w) = c.committed)
    (hord : span c.r c.w + span c.w c'.w = span c.r c'.w) :
    c'.committed = c.committed ++ committedBy c c' := by
  rw [committed, hr, view_span_add INPUT_BUF_SIZE_dvd _ hord, hview, committedBy]

end ConsBuf

/-- Kill-line erases from `e` back to at most `w`. -/
theorem killLineLoop_inv (k : ℕ) {c : ConsBuf} (hc : c.Inv) :
    (killLineLoop k c).Inv ∧ (killLineLoop k c).r = c.r ∧ (killLineLoop k c).w = c.w ∧
      (killLineLoop k c).buf = c.buf := by
  induction k generalizing c with
  | zero => exact ⟨hc, rfl, rfl, rfl⟩
  | succ k ih =>
    simp only [killLineLoop]
    split
    · rename_i h
      obtain ⟨hc', -⟩ := hc.erase h.1
      exact ih hc'
    · exact ⟨hc, rfl, rfl, rfl⟩

/-- **One input character.**  `consoleintr` keeps `r ≤ w ≤ e ≤ r + INPUT_BUF_SIZE`, leaves
`r` alone, and only appends to the committed bytes: erase and kill-line never reach back past
`w`, and no unread byte is overwritten. -/
theorem consoleintr_committed {c : ConsBuf} (hc : c.Inv) (ch : UInt8) :
    (consoleintr ch c).Inv ∧ (consoleintr ch c).r = c.r ∧
      (consoleintr ch c).committed = c.committed ++ committedBy c (consoleintr ch c) := by
  -- the steps that change neither `r`, `w` nor the buffer
  have hsame : ∀ c' : ConsBuf, c'.Inv → c'.r = c.r → c'.w = c.w → c'.buf = c.buf →
      c'.Inv ∧ c'.r = c.r ∧ c'.committed = c.committed ++ committedBy c c' := by
    intro c' hc' hr hw hb
    refine ⟨hc', hr, committed_of_frame hr (by rw [hb]; rfl) (by simp [hw])⟩
  unfold consoleintr
  split
  · exact hsame c hc rfl rfl rfl
  split
  · obtain ⟨h1, h2, h3, h4⟩ := killLineLoop_inv (span c.w c.e) hc
    exact hsame _ h1 h2 h3 h4
  split
  · split
    · rename_i hne
      exact hsame _ (hc.erase hne).1 rfl rfl rfl
    · exact hsame c hc rfl rfl rfl
  split
  · rename_i hroom
    rw [lt_iff] at hroom
    generalize (if ch = '\r'.toUInt8 then '\n'.toUInt8 else ch) = ch'
    obtain ⟨hs, hre, hview⟩ := hc.store hroom.2 ch'
    dsimp only
    split
    · -- the line is committed: `w` moves to the new `e`
      have := hc.ordered
      refine ⟨hs.commit, rfl, committed_of_frame rfl hview ?_⟩
      have := hs.ordered
      simp only [commit_w, store_e, store_r, store_w] at *
      omega
    · exact ⟨hs, rfl, committed_of_frame rfl hview (by simp)⟩
  · exact hsame c hc rfl rfl rfl

/-! ### The invariant under reads -/

/-- `consoleread` goes on exactly when some committed byte is unread. -/
theorem consolereadWait_eq_proceed {cons : Cons} {killed : Bool} :
    consolereadWait cons killed = .proceed ↔ cons.r ≠ cons.w := by
  unfold consolereadWait killableWait
  by_cases h : cons.r = cons.w
  · cases killed <;> simp [h]
  · simp [h]

namespace ConsBuf

/-- The byte at `r` is the first committed byte, when there is one. -/
theorem committed_take {c : ConsBuf} (hne : c.r ≠ c.w) :
    c.committed = c.buf (slotOf c.r) :: ({ c with r := c.r + 1 } : ConsBuf).committed :=
  view_pop_counter INPUT_BUF_SIZE_dvd _ hne

theorem r_ne_w_of_committed {c : ConsBuf} {ch : UInt8} {rest : List UInt8}
    (hc : c.committed = ch :: rest) : c.r ≠ c.w := by
  intro h
  have := congrArg List.length hc
  simp [committed, h] at this

/-- Taking the byte at `r` (`cons.r++`) keeps the invariant and removes the first committed
byte. -/
theorem Inv.take {c : ConsBuf} (hc : c.Inv) (hne : c.r ≠ c.w) :
    ({ c with r := c.r + 1 } : ConsBuf).Inv ∧
      c.committed = c.buf (slotOf c.r) :: ({ c with r := c.r + 1 } : ConsBuf).committed := by
  have hrw := span_add_one_left hne
  -- `r ≠ e`, since `w` is at least one past `r`
  have hre : c.r ≠ c.e := by
    intro h
    have := hc.ordered
    rw [← h, span_self] at this
    omega
  have hre' := span_add_one_left hre
  have := hc.ordered; have := hc.bounded
  exact ⟨⟨by dsimp only; omega, by dsimp only; omega⟩, committed_take hne⟩

/-- Putting a `^D` back (`cons.r--`) restores the console. -/
theorem untake (c : ConsBuf) : ({ c with r := c.r + 1 - 1 } : ConsBuf) = c := by
  rw [UInt32.add_sub_cancel]

end ConsBuf

/-- **A read takes bytes off the front of the committed input.**  `consoleread`'s loop keeps
the invariant, and the bytes it takes are the first committed bytes. -/
theorem consolereadLoop_fifo (ok : ℕ → Bool) (killed : Bool) (target n : ℕ) {c : ConsBuf}
    (hc : c.Inv) :
    let r := consolereadLoop ok killed target n c
    r.1.Inv ∧ c.committed = r.2.1 ++ r.1.committed := by
  induction n generalizing c with
  | zero => exact ⟨hc, rfl⟩
  | succ n ih =>
    simp only [consolereadLoop]
    split
    · exact ⟨hc, rfl⟩
    · exact ⟨hc, rfl⟩
    · rename_i hw
      have hne := consolereadWait_eq_proceed.1 hw
      obtain ⟨ht, hcom⟩ := hc.take hne
      split
      · split
        · rw [untake]; exact ⟨hc, rfl⟩
        · exact ⟨ht, hcom⟩
      · split
        · split
          · exact ⟨ht, hcom⟩
          · obtain ⟨h1, h2⟩ := ih ht
            exact ⟨h1, by rw [hcom, h2, List.cons_append]⟩
        · exact ⟨ht, hcom⟩

/-- What a read returns is among what it took, in order. -/
theorem consolereadLoop_got (ok : ℕ → Bool) (killed : Bool) (target n : ℕ) (c : ConsBuf) :
    List.Sublist (consolereadLoop ok killed target n c).2.2.1
      (consolereadLoop ok killed target n c).2.1 := by
  induction n generalizing c with
  | zero => exact List.Sublist.slnil
  | succ n ih =>
    simp only [consolereadLoop]
    split
    · exact List.Sublist.slnil
    · exact List.Sublist.slnil
    · split
      · split
        · exact List.Sublist.slnil
        · exact List.nil_sublist _
      · split
        · split
          · exact List.Sublist.refl _
          · exact (ih _).cons_cons _
        · exact List.nil_sublist _

@[simp] theorem consMachine_step (buf₀ : Fin INPUT_BUF_SIZE.toNat → UInt8) :
    (consMachine buf₀).step = consStep := rfl

/-- **One step of the console.**  The invariant is kept, and the committed bytes before the
step followed by what it committed are what it took followed by the committed bytes after. -/
theorem consStep_fifo {c : ConsBuf} (hc : c.Inv) (l : ConsOp) :
    (consStep c l).1.Inv ∧
      c.committed ++ (consStep c l).2.committed = (consStep c l).2.taken ++ (consStep c l).1.committed := by
  cases l with
  | intr ch =>
    obtain ⟨h1, -, h3⟩ := consoleintr_committed hc ch
    exact ⟨h1, by simp [consStep, ConsEv.committed, ConsEv.taken, h3]⟩
  | read target n ok killed =>
    obtain ⟨h1, h2⟩ := consolereadLoop_fifo ok killed target n hc
    exact ⟨h1, by simp [consStep, ConsEv.committed, ConsEv.taken, h2]⟩

/-- **The console input is a FIFO of committed lines.**  In every run, from `consoleinit` on and
across every wrap of the 32-bit indices, `r ≤ w ≤ e ≤ r + INPUT_BUF_SIZE` holds as differences
of counters, and the bytes taken by reads, followed by the committed bytes not yet read, are the
committed input (every byte that `consoleintr` committed, in order). -/
theorem cons_fifo (buf₀ : Fin INPUT_BUF_SIZE.toNat → UInt8) (ls : List ConsOp) :
    let M := consMachine buf₀
    let c := M.run M.init ls
    let evs := M.outs M.init ls
    c.Inv ∧ evs.flatMap ConsEv.taken ++ c.committed = evs.flatMap ConsEv.committed := by
  intro M
  refine Machine.run_outs_induction (M := M)
    (fun c evs => c.Inv ∧ evs.flatMap ConsEv.taken ++ c.committed = evs.flatMap ConsEv.committed)
    ⟨⟨by simp [M, consMachine], by simp [M, consMachine]⟩, by simp [M, consMachine, committed]⟩
    ?_ ls
  rintro c evs l _ ⟨hc, hfifo⟩
  obtain ⟨hc', hstep⟩ := consStep_fifo hc l
  refine ⟨hc', ?_⟩
  simp only [M, consMachine_step, List.flatMap_append, List.flatMap_singleton]
  rw [List.append_assoc, ← hstep, ← List.append_assoc, hfifo]

theorem consStep_got (c : ConsBuf) (l : ConsOp) :
    List.Sublist (consStep c l).2.got (consStep c l).2.taken := by
  cases l with
  | intr ch => exact List.nil_sublist _
  | read target n ok killed => exact consolereadLoop_got ok killed target n c

/-- The bytes reads return are a sublist of the committed input. -/
theorem cons_returned_sublist (buf₀ : Fin INPUT_BUF_SIZE.toNat → UInt8) (ls : List ConsOp) :
    let M := consMachine buf₀
    let evs := M.outs M.init ls
    List.Sublist (evs.flatMap ConsEv.got) (evs.flatMap ConsEv.committed) := by
  intro M evs
  -- every event of the run returned a sublist of what it took
  have hev : ∀ e ∈ evs, List.Sublist e.got e.taken :=
    Machine.run_outs_induction (M := M) (fun _ evs => ∀ e ∈ evs, List.Sublist e.got e.taken)
      (by simp) (fun c evs l _ h e he => by
        rcases List.mem_append.1 he with he | he
        · exact h e he
        · rw [List.mem_singleton.1 he]; exact consStep_got c l) ls
  have hgot : List.Sublist (evs.flatMap ConsEv.got) (evs.flatMap ConsEv.taken) :=
    List.Sublist.flatMap_right _ hev
  rw [← (cons_fifo buf₀ ls).2]
  exact hgot.trans (List.sublist_append_left _ _)

/-! ### End of file, and a failed `copyout` -/

/-- **A `^D` that starts a read gives a 0-byte read**, and is consumed. -/
theorem consoleread_eof (ok : ℕ → Bool) (killed : Bool) {n : ℕ} (hn : 0 < n) {c : ConsBuf}
    {rest : List UInt8} (hc : c.committed = C 'D' :: rest) :
    let r := consolereadLoop ok killed n n c
    r.2.2.2 = .ret 0 ∧ r.2.2.1 = [] ∧ r.1.committed = rest := by
  have hne := r_ne_w_of_committed hc
  have hwait : consolereadWait c.toCons killed = .proceed := consolereadWait_eq_proceed.2 hne
  rw [committed_take hne, List.cons.injEq] at hc
  obtain ⟨m, rfl⟩ : ∃ m, n = m + 1 := ⟨n - 1, by omega⟩
  simp only [consolereadLoop, hwait, hc.1, if_true, lt_self_iff_false, if_false]
  exact ⟨by simp, by simp, hc.2⟩

/-- **`consoleread` consumes the byte whose `copyout` fails.**  When the first committed byte
`ch` is not a `^D` and its `copyout` fails, `consoleread` has already advanced `r` past it: it
returns `0`, as it does at end of file, and `ch` is gone from the input, so no read will ever
return it. -/
theorem consoleread_drops_byte (ok : ℕ → Bool) (killed : Bool) {n : ℕ} (hn : 0 < n)
    {c : ConsBuf} {ch : UInt8} {rest : List UInt8} (hc : c.committed = ch :: rest)
    (hD : ch ≠ C 'D') (hok : ok 0 = false) :
    let r := consolereadLoop ok killed n n c
    r.2.2.2 = .ret 0 ∧ r.2.2.1 = [] ∧ r.1.committed = rest := by
  have hne := r_ne_w_of_committed hc
  have hwait : consolereadWait c.toCons killed = .proceed := consolereadWait_eq_proceed.2 hne
  rw [committed_take hne, List.cons.injEq] at hc
  obtain ⟨m, rfl⟩ : ∃ m, n = m + 1 := ⟨n - 1, by omega⟩
  simp only [consolereadLoop, hwait, hc.1, hD, if_false, hok, Nat.sub_self, Bool.false_eq_true]
  exact ⟨by simp, by simp, hc.2⟩

/-- A line `a` typed with a carriage return, then a read of two bytes into a bad address. -/
theorem consoleread_drops_byte_after_line :
    let M := consMachine fun _ => 0
    let c := M.run M.init [.intr 'a'.toUInt8, .intr '\r'.toUInt8]
    let r := consolereadLoop (fun _ => false) false 2 2 c
    r.2.2.2 = .ret 0 ∧ r.2.2.1 = [] ∧ r.1.committed = ['\n'.toUInt8] := by
  intro M c r
  exact consoleread_drops_byte (fun _ => false) false (by decide)
    (show c.committed = 'a'.toUInt8 :: ['\n'.toUInt8] by decide) (by decide) rfl

/-- The line `a`, a read whose `copyout` fails, then a read that succeeds. -/
def consDropRun : List ConsOp :=
  [.intr 'a'.toUInt8, .intr '\r'.toUInt8, .read 2 2 (fun _ => false) false,
    .read 2 2 (fun _ => true) false]

/-- The bytes the reads of `consDropRun` return are not a prefix of the committed input. -/
theorem cons_returned_not_prefix :
    let M := consMachine fun _ => 0
    let evs := M.outs M.init consDropRun
    ¬ (evs.flatMap ConsEv.got).IsPrefix (evs.flatMap ConsEv.committed) := by
  decide

end Kernel

end Xv6Net
