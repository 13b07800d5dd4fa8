import Xv6Net.Bio.Lru
import Xv6Net.Kernel.Proc

/-!
# The log in the buffer cache (`log.c` with `bio.c`)

`Xv6Net.Fs.Log` keeps of the buffer cache only its pinned copies.  Here the log runs on the cache
itself, through the four calls of `Bio.Ops`: `log_write` pins a buffer with `bpin`, and
`install_trans(0)` unpins it with `bunpin` after writing it home, between the `bread`s and
`brelse`s of `write_log`, `write_head` and `read_head`.  The data of the buffers and the disk are
left out (`Xv6Net.Fs.LogCrash` is about them): `memmove` and `bwrite` make no call on the cache.

The log is written once for every cache `Ops C`, with `bno` reading `b->blockno`; `LogCache.sim`
puts the log on `bio.c` in lock step with the log on the recency list `Bio.lru`, so that what is
proved on the list holds of the code.

The calls of the file-system code are `Call`s: `initlog` at boot (which runs `recover_from_log`
with the block numbers in the header on disk), `begin_op`, `end_op` (whose last one runs
`commit()` to its end), `log_write` of a buffer the call holds, and the call's own `bread` and
`brelse`.  A `bread` is made by a process, which holds or waits for each buffer it reads until it
releases it, so no buffer has more than `NPROC` references from the calls: a `bread` while one has
`NPROC` is not made (`Ev.refused`).
-/

namespace Xv6Net

namespace Fs

namespace LogCache

open Bio

section Calls

variable {C : Type} (o : Ops C) (dev : UInt32) (start : ℕ)

/-- `bread(log.dev, blockno)`: the buffer, or `none` for a panic. -/
def bread (h : Held C) (blockno : UInt32) : Option (Fin NBUF × Held C) :=
  match o.step h (.read dev blockno) with
  | some (h', .got i) => some (i, h')
  | _ => none

/-- `brelse(b)`. -/
def brelse (h : Held C) (i : Fin NBUF) : Option (Held C) := (o.step h (.release i)).map Prod.fst

/-- `bunpin(b)`. -/
def bunpin (h : Held C) (i : Fin NBUF) : Option (Held C) := (o.step h (.unpin i)).map Prod.fst

/-- The calls of `read_head()` and of `write_head()` on the cache: the header block read and
released (`write_head` writes it in between). -/
def logHead (h : Held C) : Option (Held C) := do
  let (buf, h) ← bread o dev h start.toUInt32
  brelse o h buf

/-- `write_log()` from `tail` on: each logged block copied from its cached buffer (`from`) into
the buffer of its log block (`to`), which `bwrite` writes. -/
def writeLog : ℕ → List UInt32 → Held C → Option (Held C)
  | _, [], h => some h
  | tail, b :: bs, h => do
    let (lbuf, h) ← bread o dev h (start + tail + 1).toUInt32
    let (cbuf, h) ← bread o dev h b
    let h ← brelse o h cbuf
    let h ← brelse o h lbuf
    writeLog (tail + 1) bs h

/-- `install_trans(recovering)` from `tail` on: each logged block read from the log into its
home buffer, which `bwrite` writes home, and unpinned after a commit. -/
def installTrans (recovering : Bool) : ℕ → List UInt32 → Held C → Option (Held C)
  | _, [], h => some h
  | tail, b :: bs, h => do
    let (lbuf, h) ← bread o dev h (start + tail + 1).toUInt32
    let (dbuf, h) ← bread o dev h b
    let h ← (if recovering then some h else bunpin o h dbuf)
    let h ← brelse o h lbuf
    let h ← brelse o h dbuf
    installTrans recovering (tail + 1) bs h

/-- `commit()` on the blocks `lh` of the log; `log.lh.n = 0` comes before the last
`write_head`. -/
def commit (lh : List UInt32) (h : Held C) : Option (Held C) :=
  if 0 < lh.length then do
    let h ← writeLog o dev start 0 lh h
    let h ← logHead o dev start h
    let h ← installTrans o dev start false 0 lh h
    logHead o dev start h
  else some h

/-- `recover_from_log()` with the block numbers `hdr` that `read_head` finds on the disk. -/
def recoverFromLog (hdr : List UInt32) (h : Held C) : Option (Held C) := do
  let h ← logHead o dev start h
  let h ← installTrans o dev start true 0 hdr h
  logHead o dev start h

end Calls

/-- The log and the cache: the cache with the calls' references and the log's pins,
`log.lh.block[0 .. log.lh.n)`, `log.outstanding`, and whether `initlog` has run. -/
structure St (C : Type) where
  held : Held C
  lh : List UInt32
  outstanding : ℕ
  booted : Bool

/-- What the file-system code calls. -/
inductive Call
  /-- `initlog` at boot, with the block numbers in the header on disk. -/
  | initlog (hdr : List UInt32)
  | beginOp
  /-- A call's `bread(log.dev, blockno)`. -/
  | read (blockno : UInt32)
  /-- A call's `brelse(&buf[i])`. -/
  | release (i : Fin NBUF)
  /-- `log_write(&buf[i])`. -/
  | logWrite (i : Fin NBUF)
  | endOp
  deriving DecidableEq, Repr

/-- What a call returns. -/
inductive Ev
  | got (i : Fin NBUF)
  | done
  /-- `begin_op` sleeps until a commit makes room. -/
  | waits
  | refused
  deriving DecidableEq, Repr

section Step

variable {C : Type} (o : Ops C) (dev : UInt32) (start : ℕ) (bno : C → Fin NBUF → UInt32)

/-- `begin_op()`: it waits while the log has no room for one more call's `MAXOPBLOCKS` blocks. -/
def beginOp (s : St C) : St C × Ev :=
  if s.lh.length + (s.outstanding + 1) * MAXOPBLOCKS > LOGBLOCKS then (s, .waits)
  else ({ s with outstanding := s.outstanding + 1 }, .done)

/-- `log_write(&buf[i])`; `none` is a panic.  The loop looks for the block in the log; a block
already there is absorbed, and a new one is pinned and added.  The pin of a buffer that the call
does not hold is refused, and so is the `log_write`. -/
def logWrite (s : St C) (i : Fin NBUF) : Option (St C × Ev) :=
  if LOGBLOCKS ≤ s.lh.length then none
  else if s.outstanding < 1 then none
  else
    let b := bno s.held.cache i
    let k := s.lh.findIdx (· == b)
    if k = s.lh.length then
      match o.step s.held (.pin i) with
      | some (h, .done) => some ({ s with held := h, lh := s.lh ++ [b] }, .done)
      | _ => some (s, .refused)
    else some ({ s with lh := s.lh.set k b }, .done)

/-- `end_op()`: the last outstanding call commits, and the log is empty after. -/
def endOp (s : St C) : Option (St C × Ev) :=
  if s.outstanding = 0 then some (s, .refused)
  else if s.outstanding - 1 = 0 then
    (commit o dev start s.lh s.held).map fun h =>
      ({ s with held := h, lh := [], outstanding := 0 }, .done)
  else some ({ s with outstanding := s.outstanding - 1 }, .done)

/-- One call; `none` is a panic.  `initlog` runs once, before every other call. -/
def step (s : St C) (c : Call) : Option (St C × Ev) :=
  match s.booted, c with
  | false, .initlog hdr =>
    (recoverFromLog o dev start hdr s.held).map fun h =>
      ({ s with held := h, lh := [], booted := true }, .done)
  | false, _ => some (s, .refused)
  | true, .initlog _ => some (s, .refused)
  | true, .beginOp => some (beginOp s)
  | true, .read b =>
    if ∃ j, Kernel.NPROC ≤ s.held.refs j then some (s, .refused)
    else (bread o dev s.held b).map fun (i, h) => ({ s with held := h }, .got i)
  | true, .release i => (brelse o s.held i).map fun h => ({ s with held := h }, .done)
  | true, .logWrite i => logWrite o bno s i
  | true, .endOp => endOp o dev start s

variable {h : Held C} {lh : List UInt32} {out : ℕ}

theorem step_unbooted {c : Call} (hc : ∀ hdr, c ≠ .initlog hdr) :
    step o dev start bno ⟨h, lh, out, false⟩ c = some (⟨h, lh, out, false⟩, .refused) := by
  cases c <;> first | rfl | exact absurd rfl (hc _)

theorem step_boot (hdr : List UInt32) :
    step o dev start bno ⟨h, lh, out, false⟩ (.initlog hdr) =
      (recoverFromLog o dev start hdr h).map fun h' => (⟨h', [], out, true⟩, .done) := rfl

theorem step_initlog (hdr : List UInt32) :
    step o dev start bno ⟨h, lh, out, true⟩ (.initlog hdr) = some (⟨h, lh, out, true⟩, .refused) :=
  rfl

theorem step_beginOp :
    step o dev start bno ⟨h, lh, out, true⟩ .beginOp = some (beginOp ⟨h, lh, out, true⟩) := rfl

theorem step_read (b : UInt32) :
    step o dev start bno ⟨h, lh, out, true⟩ (.read b) =
      if ∃ j, Kernel.NPROC ≤ h.refs j then some (⟨h, lh, out, true⟩, .refused)
      else (bread o dev h b).map fun p => (⟨p.2, lh, out, true⟩, .got p.1) := rfl

theorem step_release (i : Fin NBUF) :
    step o dev start bno ⟨h, lh, out, true⟩ (.release i) =
      (brelse o h i).map fun h' => (⟨h', lh, out, true⟩, .done) := rfl

theorem step_logWrite (i : Fin NBUF) :
    step o dev start bno ⟨h, lh, out, true⟩ (.logWrite i) = logWrite o bno ⟨h, lh, out, true⟩ i :=
  rfl

theorem step_endOp :
    step o dev start bno ⟨h, lh, out, true⟩ .endOp = endOp o dev start ⟨h, lh, out, true⟩ := rfl

/-- The log from boot on a cache that starts at `c₀`. -/
def machine (c₀ : C) : Machine (Option (St C)) Call (Option Ev) :=
  Machine.ofPartial ⟨⟨c₀, fun _ => 0, fun _ => 0⟩, [], 0, false⟩ (step o dev start bno)

end Step

/-- The log on `bio.c`, for the disk `dev` with its log at `start`. -/
def bioLog (dev : UInt32) (start : ℕ) : Machine (Option (St Bcache)) Call (Option Ev) :=
  machine bio dev start (fun c i => (c.buf i).blockno) binit

/-- The log on the recency list. -/
def lruLog (dev : UInt32) (start : ℕ) : Machine (Option (St Lru)) Call (Option Ev) :=
  machine lru dev start (fun a i => (a.buf i).blockno) Lru.init

/-! ### Two caches in lock step -/

/-- The same log on caches related by `R`. -/
def St.Rel {C D : Type} (R : C → D → Prop) (s : St C) (t : St D) : Prop :=
  Held.Rel R s.held t.held ∧ s.lh = t.lh ∧ s.outstanding = t.outstanding ∧ s.booted = t.booted

section Sim

variable {C D : Type} {o : Ops C} {o' : Ops D} {R : C → D → Prop}
  (hstep : ∀ h t l, Held.Rel R h t →
    Option.Rel (fun p q => Held.Rel R p.1 q.1 ∧ p.2 = q.2) (o.step h l) (o'.step t l))
  (dev : UInt32) (start : ℕ)
include hstep

theorem bread_rel {h : Held C} {t : Held D} (hr : Held.Rel R h t) (b : UInt32) :
    Option.Rel (fun p q => p.1 = q.1 ∧ Held.Rel R p.2 q.2) (bread o dev h b) (bread o' dev t b) := by
  have hs := hstep h t (.read dev b) hr
  unfold bread
  generalize o.step h (.read dev b) = x at hs ⊢
  generalize o'.step t (.read dev b) = y at hs ⊢
  cases hs with
  | none => exact .none
  | @some p q hpq =>
    obtain ⟨h', e⟩ := p
    obtain ⟨t', e'⟩ := q
    obtain ⟨hR, rfl : e = e'⟩ := hpq
    cases e with
    | got i => exact .some ⟨rfl, hR⟩
    | _ => exact .none

/-- A call that returns only the cache keeps the relation. -/
theorem map_fst_rel {h : Held C} {t : Held D} (hr : Held.Rel R h t) (l : BioOp) :
    Option.Rel (Held.Rel R) ((o.step h l).map Prod.fst) ((o'.step t l).map Prod.fst) := by
  have hs := hstep h t l hr
  generalize o.step h l = x at hs ⊢
  generalize o'.step t l = y at hs ⊢
  cases hs with
  | none => exact .none
  | some hpq => exact .some hpq.1

theorem logHead_rel {h : Held C} {t : Held D} (hr : Held.Rel R h t) :
    Option.Rel (Held.Rel R) (logHead o dev start h) (logHead o' dev start t) := by
  refine Machine.rel_bind (bread_rel hstep dev hr _) ?_
  rintro ⟨i, h'⟩ ⟨j, t'⟩ ⟨rfl : i = j, hr'⟩
  exact map_fst_rel hstep hr' _

theorem writeLog_rel (bs : List UInt32) :
    ∀ (tail : ℕ) {h : Held C} {t : Held D}, Held.Rel R h t →
      Option.Rel (Held.Rel R) (writeLog o dev start tail bs h) (writeLog o' dev start tail bs t) := by
  induction bs with
  | nil => intro tail h t hr; exact .some hr
  | cons b bs ih =>
    intro tail h t hr
    refine Machine.rel_bind (bread_rel hstep dev hr _) ?_
    rintro ⟨i, h₁⟩ ⟨_, t₁⟩ ⟨rfl, hr₁⟩
    refine Machine.rel_bind (bread_rel hstep dev hr₁ _) ?_
    rintro ⟨k, h₂⟩ ⟨_, t₂⟩ ⟨rfl, hr₂⟩
    refine Machine.rel_bind (map_fst_rel hstep hr₂ _) fun h₃ t₃ hr₃ => ?_
    exact Machine.rel_bind (map_fst_rel hstep hr₃ _) fun h₄ t₄ hr₄ => ih (tail + 1) hr₄

theorem installTrans_rel (recovering : Bool) (bs : List UInt32) :
    ∀ (tail : ℕ) {h : Held C} {t : Held D}, Held.Rel R h t →
      Option.Rel (Held.Rel R) (installTrans o dev start recovering tail bs h)
        (installTrans o' dev start recovering tail bs t) := by
  induction bs with
  | nil => intro tail h t hr; exact .some hr
  | cons b bs ih =>
    intro tail h t hr
    refine Machine.rel_bind (bread_rel hstep dev hr _) ?_
    rintro ⟨i, h₁⟩ ⟨_, t₁⟩ ⟨rfl, hr₁⟩
    refine Machine.rel_bind (bread_rel hstep dev hr₁ _) ?_
    rintro ⟨k, h₂⟩ ⟨_, t₂⟩ ⟨rfl, hr₂⟩
    -- after a commit the home buffer is unpinned
    have hunpin : Option.Rel (Held.Rel R) (if recovering then some h₂ else bunpin o h₂ k)
        (if recovering then some t₂ else bunpin o' t₂ k) := by
      cases recovering
      · exact map_fst_rel hstep hr₂ _
      · exact .some hr₂
    refine Machine.rel_bind hunpin fun h₃ t₃ hr₃ => ?_
    refine Machine.rel_bind (map_fst_rel hstep hr₃ _) fun h₄ t₄ hr₄ => ?_
    exact Machine.rel_bind (map_fst_rel hstep hr₄ _) fun h₅ t₅ hr₅ => ih (tail + 1) hr₅

theorem commit_rel (lh : List UInt32) {h : Held C} {t : Held D} (hr : Held.Rel R h t) :
    Option.Rel (Held.Rel R) (commit o dev start lh h) (commit o' dev start lh t) := by
  unfold commit
  split_ifs
  · refine Machine.rel_bind (writeLog_rel hstep dev start lh 0 hr) fun h₁ t₁ hr₁ => ?_
    refine Machine.rel_bind (logHead_rel hstep dev start hr₁) fun h₂ t₂ hr₂ => ?_
    refine Machine.rel_bind (installTrans_rel hstep dev start false lh 0 hr₂) fun h₃ t₃ hr₃ => ?_
    exact logHead_rel hstep dev start hr₃
  · exact .some hr

theorem recoverFromLog_rel (hdr : List UInt32) {h : Held C} {t : Held D} (hr : Held.Rel R h t) :
    Option.Rel (Held.Rel R) (recoverFromLog o dev start hdr h) (recoverFromLog o' dev start hdr t) := by
  refine Machine.rel_bind (logHead_rel hstep dev start hr) fun h₁ t₁ hr₁ => ?_
  refine Machine.rel_bind (installTrans_rel hstep dev start true hdr 0 hr₁) fun h₂ t₂ hr₂ => ?_
  exact logHead_rel hstep dev start hr₂

variable {bno : C → Fin NBUF → UInt32} {bno' : D → Fin NBUF → UInt32}
  (hbno : ∀ c d, R c d → bno c = bno' d)
include hbno

theorem step_rel {s : St C} {t : St D} (hr : St.Rel R s t) (c : Call) :
    Option.Rel (fun p q => St.Rel R p.1 q.1 ∧ p.2 = q.2) (step o dev start bno s c)
      (step o' dev start bno' t c) := by
  obtain ⟨sh, lh, out, booted⟩ := s
  obtain ⟨th, _, _, _⟩ := t
  obtain ⟨hh, rfl, rfl, rfl⟩ := hr
  change Held.Rel R sh th at hh
  -- before `initlog`, and `initlog` after, the call is refused on both
  have hrefused : ∀ b, Option.Rel (fun p q => St.Rel R p.1 q.1 ∧ p.2 = q.2)
      (some (⟨sh, lh, out, b⟩, Ev.refused)) (some (⟨th, lh, out, b⟩, Ev.refused)) :=
    fun _ => .some ⟨⟨hh, rfl, rfl, rfl⟩, rfl⟩
  cases booted
  · -- before `initlog`
    by_cases hc : ∃ hdr, c = .initlog hdr
    · obtain ⟨hdr, rfl⟩ := hc
      rw [step_boot, step_boot]
      exact Machine.rel_map (recoverFromLog_rel hstep dev start hdr hh) fun _ _ h =>
        ⟨⟨h, rfl, rfl, rfl⟩, rfl⟩
    · have hc' : ∀ hdr, c ≠ .initlog hdr := fun hdr he => hc ⟨hdr, he⟩
      rw [step_unbooted _ _ _ _ hc', step_unbooted _ _ _ _ hc']
      exact hrefused _
  cases c with
  | initlog hdr =>
    rw [step_initlog, step_initlog]
    exact hrefused _
  | beginOp =>
    rw [step_beginOp, step_beginOp]
    unfold beginOp
    split_ifs
    · exact .some ⟨⟨hh, rfl, rfl, rfl⟩, rfl⟩
    · exact .some ⟨⟨hh, rfl, rfl, rfl⟩, rfl⟩
  | read b =>
    rw [step_read, step_read, hh.2.1]
    split_ifs
    · exact hrefused _
    · refine Machine.rel_map (bread_rel hstep dev hh b) ?_
      rintro ⟨i, h'⟩ ⟨_, t'⟩ ⟨rfl, hr'⟩
      exact ⟨⟨hr', rfl, rfl, rfl⟩, rfl⟩
  | release i =>
    rw [step_release, step_release]
    exact Machine.rel_map (map_fst_rel hstep hh _) fun _ _ h => ⟨⟨h, rfl, rfl, rfl⟩, rfl⟩
  | logWrite i =>
    rw [step_logWrite, step_logWrite]
    unfold logWrite
    dsimp only
    rw [hbno _ _ hh.1]
    split_ifs
    · exact .none
    · exact .none
    · -- a new block: the pin is refused in both or done in both
      have hs := hstep sh th (.pin i) hh
      generalize o.step sh (.pin i) = x at hs ⊢
      generalize o'.step th (.pin i) = y at hs ⊢
      cases hs with
      | none => exact hrefused _
      | @some p q hpq =>
        obtain ⟨h', e⟩ := p
        obtain ⟨t', e'⟩ := q
        obtain ⟨hR, rfl : e = e'⟩ := hpq
        cases e with
        | done => exact .some ⟨⟨hR, rfl, rfl, rfl⟩, rfl⟩
        | _ => exact hrefused _
    · exact .some ⟨⟨hh, rfl, rfl, rfl⟩, rfl⟩
  | endOp =>
    rw [step_endOp, step_endOp]
    unfold endOp
    dsimp only
    split_ifs
    · exact hrefused _
    · exact Machine.rel_map (commit_rel hstep dev start lh hh) fun _ _ h =>
        ⟨⟨h, rfl, rfl, rfl⟩, rfl⟩
    · exact .some ⟨⟨hh, rfl, rfl, rfl⟩, rfl⟩

/-- **The log on two caches in lock step.**  When the calls of two caches keep `R` and
`b->blockno` reads the same in related caches, the log runs in lock step on both. -/
theorem sim {c₀ : C} {d₀ : D} (h₀ : R c₀ d₀) :
    Machine.Sim (machine o dev start bno c₀) (machine o' dev start bno' d₀)
      (Option.Rel (St.Rel R)) :=
  Machine.Sim.ofPartial ⟨⟨h₀, rfl, rfl⟩, rfl, rfl, rfl⟩ fun _ _ c h =>
    step_rel hstep dev start hbno h c

end Sim

/-- **The log on `bio.c` refines the log on the recency list.** -/
theorem bioLog_sim (dev : UInt32) (start : ℕ) :
    Machine.Sim (bioLog dev start) (lruLog dev start) (Option.Rel (St.Rel Abs)) :=
  sim (fun _ _ _ h => bio_step_rel h _) dev start (fun _ _ h => by rw [h.buf]) abs_binit

end LogCache

end Fs

end Xv6Net
