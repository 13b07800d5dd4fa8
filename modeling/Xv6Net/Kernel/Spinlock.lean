import Xv6Net.Machine.Basic
import Mathlib.Data.Finset.Card
import Mathlib.Data.Fintype.Basic
import Mathlib.Algebra.GroupWithZero.Nat

/-!
# Spin locks and the nesting of `push_off` (`spinlock.c`)

`acquire(lk)` turns interrupts off with `push_off()` before it spins for the lock, and
`release(lk)` gives them back with `pop_off()` after it: a hart never takes an interrupt while it
holds a spin lock, so an interrupt handler can never spin for a lock its own hart holds.
`push_off` and `pop_off` are matched: each hart counts the nesting in `noff` and keeps in `intena`
whether interrupts were on before the outermost `push_off`.  `acquire` panics on a lock its hart
holds, `release` on one it does not hold, and `pop_off` when interrupts are on or nothing is
pushed.

The model (`SpinSys`) has `noff`, `intena` and the SIE bit (`intr_get()`) of every hart, the spin
locks of a finite type `κ`, and the lock a hart spins for inside `acquire`.  A step is one call
by one hart, the spin loop being one round of the atomic swap a step, so the runs are all the
interleavings of the harts.  The calls of `intr_on` (by `scheduler` and `usertrap`, outside every
critical section) are not steps: from the start each hart's interrupts are as `sie₀` says.

* `popOff_iterate_pushOff` : `n` calls of `pop_off` undo `n` calls of `push_off`.
* `SpinInv` : `noff` counts the locks a hart holds and the one it spins for, interrupts are off
  while it is positive and as at the start when it is `0`; every step keeps it.
* `spinlock_intr_off` : a hart that holds a spin lock or spins for one has interrupts off.
* `spinlock_intr_restored` : a hart that holds no spin lock has its interrupts as at the start.
* `spinlock_panics_iff` : `acquire` panics exactly on a lock its hart holds, and `release`
  exactly on one it does not hold; the `pop_off` of `release` never panics.
-/

namespace Xv6Net

namespace Kernel

/-- `NCPU`. -/
def NCPU : ℕ := 8

instance : NeZero NCPU := ⟨Nat.succ_ne_zero 7⟩

/-- What `push_off` and `pop_off` use of a hart: `noff` and `intena` of its `struct cpu`, and the
SIE bit of its `sstatus`.  `noff` is an `int` in the code; `pop_off` panics before it would go
below `0`. -/
structure Cpu where
  noff : ℕ
  intena : Bool
  sie : Bool
  deriving DecidableEq, Repr

/-- `push_off()`. -/
def pushOff (c : Cpu) : Cpu :=
  { noff := c.noff + 1, intena := if c.noff = 0 then c.sie else c.intena, sie := false }

/-- `pop_off()`; `none` is a panic. -/
def popOff (c : Cpu) : Option Cpu :=
  -- `panic("pop_off - interruptible")`
  if c.sie then none
  -- `panic("pop_off")`
  else if c.noff < 1 then none
  else some { c with noff := c.noff - 1, sie := if c.noff - 1 = 0 ∧ c.intena then true else c.sie }

/-- A hart outside `push_off` has its interrupts as `b` says; inside, they are off and `intena`
is `b`. -/
def Cpu.Nested (c : Cpu) (b : Bool) : Prop :=
  (c.noff = 0 → c.sie = b) ∧ (0 < c.noff → c.sie = false ∧ c.intena = b)

theorem Cpu.Nested.pushOff {c : Cpu} {b : Bool} (h : c.Nested b) : (Kernel.pushOff c).Nested b := by
  refine ⟨fun h0 => by simp [Kernel.pushOff] at h0, fun _ => ⟨rfl, ?_⟩⟩
  unfold Kernel.pushOff
  split_ifs with h0
  · exact h.1 h0
  · exact (h.2 (Nat.pos_of_ne_zero h0)).2

/-- `pop_off` of a nested hart does not panic, and leaves it nested with one level less. -/
theorem Cpu.Nested.popOff {c : Cpu} {b : Bool} (h : c.Nested b) (hpos : 0 < c.noff) :
    ∃ c', Kernel.popOff c = some c' ∧ c'.noff = c.noff - 1 ∧ c'.Nested b := by
  obtain ⟨hsie, hint⟩ := h.2 hpos
  have hpop : Kernel.popOff c = some
      { c with
        noff := c.noff - 1
        sie := if c.noff - 1 = 0 ∧ c.intena = true then true else c.sie } := by
    rw [Kernel.popOff, if_neg (by simp [hsie]), if_neg (by omega)]
  refine ⟨_, hpop, rfl, fun h0 => ?_, fun hp => ?_⟩
  · -- the outermost `pop_off`: `intr_on()` if interrupts were on before
    cases b <;> simp_all
  · have : c.noff - 1 ≠ 0 := Nat.pos_iff_ne_zero.1 hp
    simp [this, hsie, hint]

/-- **`push_off` and `pop_off` are matched.**  From a hart outside `push_off`, or inside with its
interrupts off, `n` calls of `push_off` followed by `n` calls of `pop_off` panic nowhere and
give back `noff` and the interrupts as they were. -/
theorem popOff_iterate_pushOff (c : Cpu) (hc : 0 < c.noff → c.sie = false) (n : ℕ) :
    ∃ c', (List.replicate n ()).foldlM (fun c _ => popOff c) (pushOff^[n] c) = some c' ∧
      c'.noff = c.noff ∧ c'.sie = c.sie := by
  -- `c` is nested for its own interrupt state at the outermost level
  have hb : c.Nested (if c.noff = 0 then c.sie else c.intena) := by
    refine ⟨fun h0 => by simp [h0], fun hp => ⟨hc hp, by simp [Nat.pos_iff_ne_zero.1 hp]⟩⟩
  -- every hart nested for that state pops back to `noff` levels
  have key : ∀ (k : ℕ) (d : Cpu), d.Nested (if c.noff = 0 then c.sie else c.intena) →
      d.noff = c.noff + k → ∃ d', (List.replicate k ()).foldlM (fun c _ => popOff c) d = some d' ∧
        d'.noff = c.noff ∧ d'.Nested (if c.noff = 0 then c.sie else c.intena) := by
    intro k
    induction k with
    | zero => exact fun d hd hn => ⟨d, rfl, hn, hd⟩
    | succ k ih =>
      intro d hd hn
      obtain ⟨d₁, hpop, hn₁, hd₁⟩ := hd.popOff (by omega)
      obtain ⟨d', hrun, hn', hd'⟩ := ih d₁ hd₁ (by omega)
      refine ⟨d', ?_, hn', hd'⟩
      rw [List.replicate_succ, List.foldlM_cons, hpop]
      exact hrun
  have hpush : ∀ k, (pushOff^[k] c).noff = c.noff + k ∧
      (pushOff^[k] c).Nested (if c.noff = 0 then c.sie else c.intena) := by
    intro k
    induction k with
    | zero => exact ⟨rfl, hb⟩
    | succ k ih =>
      rw [Function.iterate_succ_apply']
      exact ⟨by simp [pushOff, ih.1]; omega, ih.2.pushOff⟩
  obtain ⟨c', hrun, hn, hd⟩ := key n _ (hpush n).2 (hpush n).1
  refine ⟨c', hrun, hn, ?_⟩
  by_cases h0 : c.noff = 0
  · rw [hd.1 (by rw [hn, h0]), if_pos h0]
  · rw [(hd.2 (by omega)).1, hc (Nat.pos_of_ne_zero h0)]

/-- Two `push_off`s and two `pop_off`s on a hart inside one level with interrupts off. -/
theorem popOff_iterate_pushOff_nested :
    (⟨1, true, false⟩ : Cpu).sie = false ∧
      ∃ c', (List.replicate 2 ()).foldlM (fun c _ => popOff c) (pushOff^[2] ⟨1, true, false⟩) =
        some c' ∧ c'.noff = 1 ∧ c'.sie = false :=
  ⟨rfl, popOff_iterate_pushOff ⟨1, true, false⟩ (fun _ => rfl) 2⟩

/-- `struct spinlock`, without its name. -/
structure Spinlock where
  locked : Bool
  cpu : Option (Fin NCPU)
  deriving DecidableEq, Repr

/-- `initlock(lk, name)`. -/
def initlock : Spinlock := ⟨false, none⟩

/-- `holding(lk)` on the hart `c`. -/
def holding (lk : Spinlock) (c : Fin NCPU) : Bool := lk.locked && lk.cpu == some c

variable {κ : Type} [DecidableEq κ]

/-- The harts and the spin locks `κ`. -/
structure SpinSys (κ : Type) where
  cpus : Fin NCPU → Cpu
  locks : κ → Spinlock
  /-- The lock the hart spins for inside `acquire`. -/
  spin : Fin NCPU → Option κ

/-- `acquire(lk)` by the hart `c` up to its spin loop: `push_off()`, then `panic("acquire")` if
the hart holds `lk`. -/
def acquire (s : SpinSys κ) (c : Fin NCPU) (l : κ) : Option (SpinSys κ) :=
  if holding (s.locks l) c then none
  else
    some { s with
      cpus := Function.update s.cpus c (pushOff (s.cpus c))
      spin := Function.update s.spin c (some l) }

/-- One round of the spin loop of `acquire`: the atomic swap finds the lock free and takes it, and
`lk->cpu = mycpu()`. -/
def spinRound (s : SpinSys κ) (c : Fin NCPU) (l : κ) : SpinSys κ :=
  if (s.locks l).locked then s
  else
    { s with
      locks := Function.update s.locks l ⟨true, some c⟩
      spin := Function.update s.spin c none }

/-- `release(lk)` by the hart `c`: `panic("release")` if it does not hold `lk`, else
`lk->cpu = 0`, the lock cleared, and `pop_off()`. -/
def release (s : SpinSys κ) (c : Fin NCPU) (l : κ) : Option (SpinSys κ) :=
  if holding (s.locks l) c then
    (popOff (s.cpus c)).map fun cpu =>
      { s with
        locks := Function.update s.locks l initlock
        cpus := Function.update s.cpus c cpu }
  else none

/-- A step of the harts. -/
inductive SpinOp (κ : Type)
  /-- The hart calls `acquire`. -/
  | acquire (c : Fin NCPU) (l : κ)
  /-- One round of the spin loop of the hart. -/
  | spin (c : Fin NCPU)
  /-- The hart calls `release`. -/
  | release (c : Fin NCPU) (l : κ)

/-- One step; a hart inside the spin loop does nothing else.  `none` is a panic. -/
def spinStep (s : SpinSys κ) : SpinOp κ → Option (SpinSys κ × Unit)
  | .acquire c l => if s.spin c = none then (acquire s c l).map (·, ()) else some (s, ())
  | .spin c =>
    match s.spin c with
    | none => some (s, ())
    | some l => some (spinRound s c l, ())
  | .release c l => if s.spin c = none then (release s c l).map (·, ()) else some (s, ())

/-- Every lock after `initlock`, and every hart with `noff = 0` and its interrupts as `sie₀` says
(`cpus[]` is zeroed). -/
def spinInit (sie₀ : Fin NCPU → Bool) : SpinSys κ :=
  ⟨fun c => ⟨0, false, sie₀ c⟩, fun _ => initlock, fun _ => none⟩

/-- The harts and the locks as a machine that may panic. -/
def spinMachine (κ : Type) [DecidableEq κ] (sie₀ : Fin NCPU → Bool) :
    Machine (Option (SpinSys κ)) (SpinOp κ) (Option Unit) :=
  Machine.ofPartial (spinInit sie₀) spinStep

/-! ### The invariant -/

section Inv

variable [Fintype κ]

/-- The locks the hart `c` holds. -/
def heldBy (s : SpinSys κ) (c : Fin NCPU) : Finset κ :=
  Finset.univ.filter fun l => (s.locks l).cpu = some c

/-- `noff` counts the locks a hart holds and the one it spins for; the hart is nested for its
interrupt state at the start; a lock is `locked` exactly when it records a hart; and no hart spins
for a lock it holds. -/
structure SpinInv (sie₀ : Fin NCPU → Bool) (s : SpinSys κ) : Prop where
  locked_eq : ∀ l, (s.locks l).locked = (s.locks l).cpu.isSome
  noff_eq : ∀ c, (s.cpus c).noff = (heldBy s c).card + (s.spin c).isSome.toNat
  nested : ∀ c, (s.cpus c).Nested (sie₀ c)
  spin_ne : ∀ c l, s.spin c = some l → (s.locks l).cpu ≠ some c

variable {sie₀ : Fin NCPU → Bool} {s : SpinSys κ} {c : Fin NCPU} {l : κ}

omit [DecidableEq κ] in
theorem mem_heldBy {x : κ} : x ∈ heldBy s c ↔ (s.locks x).cpu = some c := by
  simp [heldBy]

omit [DecidableEq κ] in
theorem SpinInv.holding_iff (h : SpinInv sie₀ s) : holding (s.locks l) c = true ↔ (s.locks l).cpu = some c := by
  have := h.locked_eq l
  constructor
  · intro hh
    simp only [holding, Bool.and_eq_true, beq_iff_eq] at hh
    exact hh.2
  · intro hc
    simp [holding, hc, this]

/-- Taking a free lock adds it to the hart's locks, and to no other hart's. -/
theorem heldBy_take (hfree : (s.locks l).cpu = none) (c' : Fin NCPU) :
    heldBy { s with locks := Function.update s.locks l ⟨true, some c⟩, spin := t } c' =
      if c' = c then insert l (heldBy s c') else heldBy s c' := by
  ext x
  rw [mem_heldBy]
  by_cases hx : x = l
  · subst hx
    by_cases hc : c' = c
    · simp [hc]
    · simp [hc, mem_heldBy, hfree, Ne.symm hc]
  · split_ifs <;> simp [mem_heldBy, hx]

/-- Releasing a lock removes it from its hart's locks. -/
theorem heldBy_release (c' : Fin NCPU) (cpus : Fin NCPU → Cpu) :
    heldBy { s with locks := Function.update s.locks l initlock, cpus := cpus } c' =
      (heldBy s c').erase l := by
  ext x
  rw [mem_heldBy, Finset.mem_erase, mem_heldBy]
  by_cases hx : x = l
  · subst hx
    simp [initlock]
  · simp [hx]

omit [DecidableEq κ] in
theorem SpinInv.acquire (h : SpinInv sie₀ s) (hs : s.spin c = none) {s' : SpinSys κ}
    (ha : Kernel.acquire s c l = some s') : SpinInv sie₀ s' := by
  unfold Kernel.acquire at ha
  split_ifs at ha with hh
  cases ha
  refine ⟨h.locked_eq, fun c' => ?_, fun c' => ?_, fun c' l' hl' => ?_⟩
  · by_cases hc : c' = c
    · subst hc
      simp [heldBy, pushOff, h.noff_eq c', hs]
    · simpa [heldBy, Function.update_of_ne hc] using h.noff_eq c'
  · by_cases hc : c' = c
    · subst hc
      simpa using (h.nested c').pushOff
    · simpa [Function.update_of_ne hc] using h.nested c'
  · by_cases hc : c' = c
    · -- the hart spins for `l`, which it does not hold
      subst hc
      simp only [Function.update_self, Option.some.injEq] at hl'
      subst hl'
      exact fun hcpu => hh (h.holding_iff.2 hcpu)
    · simp only [Function.update_of_ne hc] at hl'
      exact h.spin_ne c' l' hl'

theorem SpinInv.spinRound (h : SpinInv sie₀ s) (hs : s.spin c = some l) :
    SpinInv sie₀ (Kernel.spinRound s c l) := by
  unfold Kernel.spinRound
  split_ifs with hl
  · exact h
  · have hfree : (s.locks l).cpu = none := by
      have := h.locked_eq l
      cases hc : (s.locks l).cpu <;> simp_all
    refine ⟨fun l' => ?_, fun c' => ?_, h.nested, fun c' l' hl' => ?_⟩
    · by_cases hl' : l' = l
      · subst hl'
        simp
      · simpa [Function.update_of_ne hl'] using h.locked_eq l'
    · -- the lock moves from the spin loop of `c` to its locks
      rw [heldBy_take hfree, h.noff_eq c']
      by_cases hc : c' = c
      · subst hc
        have hnot : l ∉ heldBy s c' := by simp [heldBy, hfree]
        simp [Finset.card_insert_of_notMem hnot, hs]
      · simp [hc]
    · by_cases hc : c' = c
      · subst hc
        simp at hl'
      · simp only [Function.update_of_ne hc] at hl'
        by_cases hll : l' = l
        · subst hll
          simp [Ne.symm hc]
        · simpa [Function.update_of_ne hll] using h.spin_ne c' l' hl'

theorem SpinInv.release (h : SpinInv sie₀ s) (hs : s.spin c = none) {s' : SpinSys κ}
    (hr : Kernel.release s c l = some s') : SpinInv sie₀ s' := by
  unfold Kernel.release at hr
  split_ifs at hr with hh
  have hcpu := h.holding_iff.1 hh
  have hmem : l ∈ heldBy s c := by simp [heldBy, hcpu]
  have hpos : 0 < (s.cpus c).noff := by
    rw [h.noff_eq c]
    have := Finset.card_pos.2 ⟨l, hmem⟩
    omega
  obtain ⟨cpu, hpop, hn, hnest⟩ := (h.nested c).popOff hpos
  rw [hpop, Option.map_some, Option.some.injEq] at hr
  subst hr
  refine ⟨fun l' => ?_, fun c' => ?_, fun c' => ?_, fun c' l' hl' => ?_⟩
  · by_cases hl' : l' = l
    · subst hl'
      simp [initlock]
    · simpa [Function.update_of_ne hl'] using h.locked_eq l'
  · rw [heldBy_release]
    by_cases hc : c' = c
    · subst hc
      rw [Finset.card_erase_of_mem hmem]
      simp only [Function.update_self, hn, h.noff_eq c', hs, Option.isSome_none, Bool.toNat_false,
        Nat.add_zero]
    · have hnot : l ∉ heldBy s c' := by simp [heldBy, hcpu, Ne.symm hc]
      simpa [Function.update_of_ne hc, Finset.erase_eq_of_notMem hnot] using h.noff_eq c'
  · by_cases hc : c' = c
    · subst hc
      simpa using hnest
    · simpa [Function.update_of_ne hc] using h.nested c'
  · by_cases hll : l' = l
    · subst hll
      simp [initlock]
    · simpa [Function.update_of_ne hll] using h.spin_ne c' l' hl'

/-- Every step that does not panic keeps `SpinInv`. -/
theorem SpinInv.step (h : SpinInv sie₀ s) {op : SpinOp κ} {s' : SpinSys κ} {o : Unit}
    (hs : spinStep s op = some (s', o)) : SpinInv sie₀ s' := by
  cases op with
  | acquire c l =>
    simp only [spinStep] at hs
    split_ifs at hs with hsp
    · obtain ⟨s₁, ha, he⟩ := Option.map_eq_some_iff.1 hs
      cases he
      exact h.acquire hsp ha
    · cases hs
      exact h
  | spin c =>
    simp only [spinStep] at hs
    split at hs
    · cases hs
      exact h
    · next l hl =>
      cases hs
      exact h.spinRound hl
  | release c l =>
    simp only [spinStep] at hs
    split_ifs at hs with hsp
    · obtain ⟨s₁, hr, he⟩ := Option.map_eq_some_iff.1 hs
      cases he
      exact h.release hsp hr
    · cases hs
      exact h

theorem spinInv_reachable (h : (spinMachine κ sie₀).Reachable (some s)) : SpinInv sie₀ s :=
  Machine.Reachable.ofPartial_induction (SpinInv sie₀)
    ⟨fun _ => rfl, fun c => by simp [spinInit, heldBy, initlock], fun c => by simp [spinInit, Cpu.Nested],
      fun _ _ h => by simp [spinInit] at h⟩
    (fun _ _ _ _ hs h => hs.step h) h

end Inv

section Main

variable [Fintype κ] {sie₀ : Fin NCPU → Bool} {s : SpinSys κ}

/-- **Interrupts are off in a critical section.**  In every state the harts reach, a hart that
holds a spin lock, or spins for one, has its interrupts off. -/
theorem spinlock_intr_off (h : (spinMachine κ sie₀).Reachable (some s)) {c : Fin NCPU} {l : κ}
    (hl : (s.locks l).cpu = some c ∨ s.spin c = some l) : (s.cpus c).sie = false := by
  have hinv := spinInv_reachable h
  have hpos : 0 < (s.cpus c).noff := by
    rw [hinv.noff_eq c]
    rcases hl with hl | hl
    · have := Finset.card_pos.2 ⟨l, show l ∈ heldBy s c by simp [heldBy, hl]⟩
      omega
    · simp [hl]
  exact ((hinv.nested c).2 hpos).1

/-- Hart `0` holds lock `0` after it took it. -/
theorem spinlock_intr_off_held :
    let s := ((spinMachine (Fin 2) fun _ => true).run (spinMachine (Fin 2) fun _ => true).init
      ([.acquire 0 0, .spin 0] : List (SpinOp (Fin 2)))).getD (spinInit fun _ => true)
    (s.locks 0).cpu = some 0 ∧ (s.cpus 0).sie = false := by
  intro s
  have hreach : (spinMachine (Fin 2) fun _ => true).Reachable (some s) :=
    Machine.Reachable.of_run ([.acquire 0 0, .spin 0] : List (SpinOp (Fin 2)))
  have hl : (s.locks 0).cpu = some 0 := by decide
  exact ⟨hl, spinlock_intr_off hreach (.inl hl)⟩

/-- **Interrupts come back.**  In every state the harts reach, a hart that holds no spin lock and
spins for none has its interrupts as they were at the start: the last `release` gave them back. -/
theorem spinlock_intr_restored (h : (spinMachine κ sie₀).Reachable (some s)) {c : Fin NCPU}
    (hheld : ∀ l, (s.locks l).cpu ≠ some c) (hspin : s.spin c = none) :
    (s.cpus c).noff = 0 ∧ (s.cpus c).sie = sie₀ c := by
  have hinv := spinInv_reachable h
  have hempty : heldBy s c = ∅ := Finset.filter_eq_empty_iff.2 fun l _ => hheld l
  have h0 : (s.cpus c).noff = 0 := by simp [hinv.noff_eq c, hempty, hspin]
  exact ⟨h0, (hinv.nested c).1 h0⟩

/-- Hart `0` took lock `0` and released it: its interrupts are on again. -/
theorem spinlock_intr_restored_released :
    let s := ((spinMachine (Fin 2) fun _ => true).run (spinMachine (Fin 2) fun _ => true).init
      ([.acquire 0 0, .spin 0, .release 0 0] : List (SpinOp (Fin 2)))).getD (spinInit fun _ => true)
    (∀ l, (s.locks l).cpu ≠ some 0) ∧ s.spin 0 = none ∧ (s.cpus 0).noff = 0 ∧ (s.cpus 0).sie = true := by
  intro s
  have hreach : (spinMachine (Fin 2) fun _ => true).Reachable (some s) :=
    Machine.Reachable.of_run ([.acquire 0 0, .spin 0, .release 0 0] : List (SpinOp (Fin 2)))
  have hheld : ∀ l, (s.locks l).cpu ≠ some 0 := by decide
  have hspin : s.spin 0 = none := by decide
  exact ⟨hheld, hspin, spinlock_intr_restored hreach hheld hspin⟩

/-- **When the lock calls panic.**  In every state the harts reach, `acquire` by a hart that is
not spinning panics exactly when the hart holds the lock, and `release` exactly when it does not
hold it; the `pop_off` of `release` never panics. -/
theorem spinlock_panics_iff (h : (spinMachine κ sie₀).Reachable (some s)) (c : Fin NCPU) (l : κ) :
    (spinStep s (.acquire c l) = none ↔ s.spin c = none ∧ (s.locks l).cpu = some c) ∧
      (spinStep s (.release c l) = none ↔ s.spin c = none ∧ (s.locks l).cpu ≠ some c) := by
  have hinv := spinInv_reachable h
  refine ⟨?_, ?_⟩
  · by_cases hsp : s.spin c = none
    · simp only [spinStep, hsp, if_true, Option.map_eq_none_iff, Kernel.acquire, true_and]
      split_ifs with hh
      · simpa using hinv.holding_iff.1 hh
      · simpa using fun hc => hh (hinv.holding_iff.2 hc)
    · simp [spinStep, hsp]
  · by_cases hsp : s.spin c = none
    · simp only [spinStep, hsp, if_true, Option.map_eq_none_iff, Kernel.release, true_and]
      split_ifs with hh
      · -- the hart holds the lock: `noff` is positive and interrupts are off
        have hcpu := hinv.holding_iff.1 hh
        have hpos : 0 < (s.cpus c).noff := by
          rw [hinv.noff_eq c]
          have := Finset.card_pos.2 ⟨l, show l ∈ heldBy s c by simp [heldBy, hcpu]⟩
          omega
        obtain ⟨cpu, hpop, -⟩ := (hinv.nested c).popOff hpos
        simp [hpop, hcpu]
      · simpa using fun hc => hh (hinv.holding_iff.2 hc)
    · simp [spinStep, hsp]

/-- Hart `0` holds lock `0`: acquiring it again panics, and releasing it does not. -/
theorem spinlock_panics_iff_held :
    let s := ((spinMachine (Fin 2) fun _ => true).run (spinMachine (Fin 2) fun _ => true).init
      ([.acquire 0 0, .spin 0] : List (SpinOp (Fin 2)))).getD (spinInit fun _ => true)
    (spinStep s (.acquire 0 0) = none ↔ s.spin 0 = none ∧ (s.locks 0).cpu = some 0) ∧
      (spinStep s (.release 0 0) = none ↔ s.spin 0 = none ∧ (s.locks 0).cpu ≠ some 0) := by
  intro s
  have hreach : (spinMachine (Fin 2) fun _ => true).Reachable (some s) :=
    Machine.Reachable.of_run ([.acquire 0 0, .spin 0] : List (SpinOp (Fin 2)))
  exact spinlock_panics_iff hreach 0 0

end Main

end Kernel

end Xv6Net
