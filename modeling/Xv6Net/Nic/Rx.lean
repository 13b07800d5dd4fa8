import Xv6Net.Machine.Basic
import Xv6Net.Ring.Basic
import Xv6Net.Bytes.Basic

/-!
# The receive ring of the E1000

`e1000_init` gives every descriptor of `rx_ring` a page from `kalloc` and sets `RDH = 0`,
`RDT = RX_RING_SIZE - 1`.  The device owns the descriptors `[RDH, RDT)`: while `RDH ≠ RDT` it
DMAs a frame into the buffer at `RDH`, writes the frame's length and sets `DD` there, and
advances `RDH` (`rxDevice`, as the E1000 manual describes the device).  Each iteration of the
loop of `e1000_recv` looks at `RDT + 1`: if its `DD` bit is clear the loop ends; otherwise the
buffer and its length go to `net_rx`, a fresh page from `kalloc` replaces the buffer (the kernel
panics if there is none), `DD` is cleared and `RDT` moves to that slot (`e1000RecvStep`).

To speak of "the same buffer" across a `kfree` and a later `kalloc` of the same page, every
descriptor carries a ghost `gen`: which installation of a buffer it holds (the sixteen of
`e1000_init`, then one per loop iteration).  It is not a field of `struct rx_desc`, and no
step reads it.

* `RxRing.Inv` : `DD` is set exactly on `[RDT + 1, RDH)`, the slots holding frames the device
  stored and the driver has not taken yet; the ghost generations are distinct.
* `rx_ring_delivers` : along every interleaving of device steps and loop iterations from
  `e1000_init`, the frames handed to `net_rx` are the frames the device stored, in order and each
  once: the others are still pending in `[RDT + 1, RDH)`, and none is when the loop ends.  A loop
  iteration never writes a descriptor in `[RDH, RDT)`, and the device never writes into a buffer
  that was already handed to `net_rx`.
-/

namespace Xv6Net

namespace Nic

open RingBuf

def RX_RING_SIZE : ℕ := 16

instance : NeZero RX_RING_SIZE := ⟨by decide⟩

def E1000_RXD_STAT_DD : UInt8 := 0x01

/-- A receive descriptor (`struct rx_desc`, the fields the driver and the device use), with the
ghost `gen` of its buffer. -/
structure RxDesc where
  addr : ℕ
  length : UInt16
  status : UInt8
  gen : ℕ
  deriving DecidableEq

/-- `rx_ring`, the ring registers `RDH` and `RDT`, and the ghost count of installed buffers. -/
structure RxRing where
  ring : Fin RX_RING_SIZE → RxDesc
  rdh : Fin RX_RING_SIZE
  rdt : Fin RX_RING_SIZE
  installed : ℕ

/-- A frame as `net_rx` gets it: its buffer (with the buffer's `gen`) and its length. -/
structure RxFrame where
  addr : ℕ
  gen : ℕ
  length : UInt16
  deriving DecidableEq

def RxDesc.frame (d : RxDesc) : RxFrame := ⟨d.addr, d.gen, d.length⟩

/-- The receive half of `e1000_init`, given the sixteen pages its `kalloc`s returned. -/
def rxInit (pages : Fin RX_RING_SIZE → ℕ) : RxRing :=
  ⟨fun i => ⟨pages i, 0, 0, i.val⟩, 0, ⟨RX_RING_SIZE - 1, by decide⟩, RX_RING_SIZE⟩

/-- Initially the slot after `RDT` is `RDH`: no frame is stored. -/
theorem rxInit_rdt_add_one (pages : Fin RX_RING_SIZE → ℕ) :
    (rxInit pages).rdt + 1 = (rxInit pages).rdh := by
  show (⟨RX_RING_SIZE - 1, by decide⟩ + 1 : Fin RX_RING_SIZE) = 0
  decide

/-- One step of the device: with `RDH ≠ RDT` it stores a frame of length `len` in the buffer at
`RDH`, writes the length, sets `DD` and advances `RDH`. -/
def rxDevice (s : RxRing) (len : UInt16) : RxRing × Option RxFrame :=
  if s.rdh = s.rdt then (s, none)
  else
    let d := s.ring s.rdh
    (⟨Function.update s.ring s.rdh
        { d with length := len, status := d.status ||| E1000_RXD_STAT_DD }, s.rdh + 1, s.rdt,
        s.installed⟩,
      some ⟨d.addr, d.gen, len⟩)

/-- One iteration of the loop of `e1000_recv`, where `page` is what its `kalloc` returns: the
ring after it and the frame it handed to `net_rx` (`none`: the loop ends), or `none` for the
`panic` when `kalloc` fails. -/
def e1000RecvStep (s : RxRing) (page : ℕ) : Option (RxRing × Option RxFrame) :=
  let i := s.rdt + 1
  if (s.ring i).status &&& E1000_RXD_STAT_DD = 0 then some (s, none)
  -- `net_rx` has taken the buffer; the slot gets a new one before `DD` is cleared
  else if page = 0 then none
  else
    some (⟨Function.update s.ring i { s.ring i with addr := page, status := 0, gen := s.installed },
        s.rdh, i, s.installed + 1⟩,
      some (s.ring i).frame)

inductive RxOp
  /-- The device stores a frame of this length. -/
  | device (len : UInt16)
  /-- One iteration of `e1000_recv`'s loop; `kalloc` returns `page`. -/
  | recv (page : ℕ)

inductive RxOut
  | stored (f : Option RxFrame)
  | delivered (f : Option RxFrame)
  deriving DecidableEq

def rxStep (s : RxRing) : RxOp → Option (RxRing × RxOut)
  | .device len => some ((rxDevice s len).1, .stored (rxDevice s len).2)
  | .recv page =>
    match e1000RecvStep s page with
    | none => none
    | some (s', f) => some (s', .delivered f)

/-- The driver's loop and the device on one ring, from `e1000_init` with the given pages. -/
def rxMachine (pages : Fin RX_RING_SIZE → ℕ) : Machine (Option RxRing) RxOp (Option RxOut) :=
  Machine.ofPartial (rxInit pages) rxStep

theorem rxMachine_step (pages : Fin RX_RING_SIZE → ℕ) :
    (rxMachine pages).step = Machine.partialStep rxStep := rfl

def RxOut.storedFrame : Option RxOut → Option RxFrame
  | some (.stored f) => f
  | _ => none

def RxOut.deliveredFrame : Option RxOut → Option RxFrame
  | some (.delivered f) => f
  | _ => none

/-- The frames the device stored along a run, in order. -/
def storedFrames (os : List (Option RxOut)) : List RxFrame := os.filterMap RxOut.storedFrame

/-- The frames handed to `net_rx` along a run, in order. -/
def deliveredFrames (os : List (Option RxOut)) : List RxFrame := os.filterMap RxOut.deliveredFrame

section Frames

variable (os : List (Option RxOut)) (f : Option RxFrame)

@[simp] theorem storedFrames_stored :
    storedFrames (os ++ [some (.stored f)]) = storedFrames os ++ f.toList := by
  cases f <;> simp [storedFrames, RxOut.storedFrame]

@[simp] theorem deliveredFrames_stored :
    deliveredFrames (os ++ [some (.stored f)]) = deliveredFrames os := by
  simp [deliveredFrames, RxOut.deliveredFrame]

@[simp] theorem storedFrames_delivered :
    storedFrames (os ++ [some (.delivered f)]) = storedFrames os := by
  simp [storedFrames, RxOut.storedFrame]

@[simp] theorem deliveredFrames_delivered :
    deliveredFrames (os ++ [some (.delivered f)]) = deliveredFrames os ++ f.toList := by
  cases f <;> simp [deliveredFrames, RxOut.deliveredFrame]

@[simp] theorem storedFrames_none : storedFrames (os ++ [none]) = storedFrames os := by
  simp [storedFrames, RxOut.storedFrame]

@[simp] theorem deliveredFrames_none : deliveredFrames (os ++ [none]) = deliveredFrames os := by
  simp [deliveredFrames, RxOut.deliveredFrame]

end Frames

namespace RxRing

/-- Descriptor `j` holds a stored frame: its `DD` bit is set. -/
def Done (s : RxRing) (j : Fin RX_RING_SIZE) : Prop := (s.ring j).status &&& E1000_RXD_STAT_DD ≠ 0

/-- The frames stored and not yet taken by the driver, oldest first: the slots `[RDT + 1, RDH)`. -/
def pending (s : RxRing) : List RxFrame :=
  (view s.ring (s.rdt + 1) (dist (s.rdt + 1) s.rdh)).map RxDesc.frame

/-- What holds of every ring the loop and the device reach. -/
structure Inv (s : RxRing) : Prop where
  done : ∀ j, s.Done j ↔ InCyc (s.rdt + 1) s.rdh j
  gen_lt : ∀ j, (s.ring j).gen < s.installed
  gen_inj : ∀ j k, (s.ring j).gen = (s.ring k).gen → j = k

variable {s s' : RxRing}

/-! ### One spec lemma per step -/

theorem device_empty (h : s.rdh = s.rdt) (len : UInt16) : rxDevice s len = (s, none) := by
  rw [rxDevice, if_pos h]

theorem device_store (h : s.rdh ≠ s.rdt) (len : UInt16) :
    rxDevice s len =
      (⟨Function.update s.ring s.rdh
          { s.ring s.rdh with length := len, status := (s.ring s.rdh).status ||| E1000_RXD_STAT_DD },
          s.rdh + 1, s.rdt, s.installed⟩,
        some ⟨(s.ring s.rdh).addr, (s.ring s.rdh).gen, len⟩) := by
  rw [rxDevice, if_neg h]

theorem recv_idle (h : ¬ s.Done (s.rdt + 1)) (page : ℕ) : e1000RecvStep s page = some (s, none) := by
  rw [e1000RecvStep, if_pos (not_not.1 h)]

theorem recv_panic (h : s.Done (s.rdt + 1)) : e1000RecvStep s 0 = none := by
  rw [e1000RecvStep, if_neg h, if_pos rfl]

theorem recv_take (h : s.Done (s.rdt + 1)) {page : ℕ} (hp : page ≠ 0) :
    e1000RecvStep s page =
      some (⟨Function.update s.ring (s.rdt + 1)
          { s.ring (s.rdt + 1) with addr := page, status := 0, gen := s.installed },
          s.rdh, s.rdt + 1, s.installed + 1⟩,
        some (s.ring (s.rdt + 1)).frame) := by
  rw [e1000RecvStep, if_neg h, if_neg hp]

/-- **What one loop iteration can do**: end the loop, panic, or take the frame at `RDT + 1`. -/
theorem recv_cases {page : ℕ} {r : RxRing × Option RxFrame} (h : e1000RecvStep s page = some r) :
    (¬ s.Done (s.rdt + 1) ∧ r = (s, none)) ∨
    (s.Done (s.rdt + 1) ∧ page ≠ 0 ∧
      r = (⟨Function.update s.ring (s.rdt + 1)
          { s.ring (s.rdt + 1) with addr := page, status := 0, gen := s.installed },
          s.rdh, s.rdt + 1, s.installed + 1⟩,
        some (s.ring (s.rdt + 1)).frame)) := by
  by_cases hd : s.Done (s.rdt + 1)
  · by_cases hp : page = 0
    · subst hp; rw [recv_panic hd] at h; cases h
    · rw [recv_take hd hp, Option.some.injEq] at h
      exact .inr ⟨hd, hp, h.symm⟩
  · rw [recv_idle hd, Option.some.injEq] at h
    exact .inl ⟨hd, h.symm⟩

/-! ### The invariant -/

theorem inv_init (pages : Fin RX_RING_SIZE → ℕ) : (rxInit pages).Inv := by
  refine ⟨fun j => ?_, fun j => j.isLt, fun j k h => Fin.ext h⟩
  rw [rxInit_rdt_add_one]
  simp only [Done, rxInit, not_inCyc_self, iff_false, not_not]
  decide

/-- The slot the loop looks at holds a frame only if it is not the device's next slot. -/
theorem Inv.next_ne (h : s.Inv) (hd : s.Done (s.rdt + 1)) : s.rdt + 1 ≠ s.rdh := by
  intro e
  have := (h.done _).1 hd
  rw [e] at this
  exact not_inCyc_self _ _ this

/-- The device's next slot holds no frame yet. -/
theorem Inv.not_done_rdh (h : s.Inv) : ¬ s.Done s.rdh := fun hd =>
  not_inCyc_right _ _ ((h.done _).1 hd)

theorem Inv.device (h : s.Inv) (len : UInt16) : (rxDevice s len).1.Inv := by
  by_cases he : s.rdh = s.rdt
  · rw [device_empty he]; exact h
  rw [device_store he]
  have hne : s.rdh + 1 ≠ s.rdt + 1 := fun e => he (add_right_cancel e)
  refine ⟨fun j => ?_, fun j => ?_, fun j k e => h.gen_inj j k ?_⟩
  · -- the interval of stored frames grows at its right end by the slot just written
    simp only [Done]
    rw [inCyc_add_one_right hne]
    by_cases hj : j = s.rdh
    · subst hj
      simp only [Function.update_self, E1000_RXD_STAT_DD, Bytes.or_one_and_one, or_true, iff_true]
      decide
    · rw [Function.update_of_ne hj, ← Done, h.done j]
      simp [hj]
  · by_cases hj : j = s.rdh
    · subst hj; simpa using h.gen_lt s.rdh
    · simpa [Function.update_of_ne hj] using h.gen_lt j
  · by_cases hj : j = s.rdh <;> by_cases hk : k = s.rdh <;>
      simp_all [Function.update_of_ne]

theorem Inv.recv (h : s.Inv) {page : ℕ} {f : Option RxFrame} (hr : e1000RecvStep s page = some (s', f)) :
    s'.Inv := by
  rcases recv_cases hr with ⟨-, hr'⟩ | ⟨hd, -, hr'⟩
  · cases hr'; exact h
  obtain ⟨rfl, -⟩ := Prod.mk.inj hr'
  have hne := h.next_ne hd
  refine ⟨fun j => ?_, fun j => ?_, fun j k e => ?_⟩
  · -- the interval of stored frames shrinks at its left end by the slot just taken
    simp only [Done]
    rw [inCyc_add_one_left hne]
    by_cases hj : j = s.rdt + 1
    · subst hj; simp
    · rw [Function.update_of_ne hj, ← Done, h.done j]
      simp [hj]
  · by_cases hj : j = s.rdt + 1
    · subst hj; simp
    · dsimp only
      rw [Function.update_of_ne hj]
      exact Nat.lt_succ_of_lt (h.gen_lt j)
  · -- the new buffer's `gen` is fresh
    have hlt := h.gen_lt
    by_cases hj : j = s.rdt + 1 <;> by_cases hk : k = s.rdt + 1
    · rw [hj, hk]
    · simp only [hj, Function.update_self, Function.update_of_ne hk] at e
      exact absurd e (Nat.ne_of_gt (hlt k))
    · simp only [hk, Function.update_self, Function.update_of_ne hj] at e
      exact absurd e (Nat.ne_of_lt (hlt j))
    · simp only [Function.update_of_ne hj, Function.update_of_ne hk] at e
      exact h.gen_inj j k e

/-! ### The pending frames -/

theorem mem_pending {f : RxFrame} :
    f ∈ s.pending ↔ ∃ j, InCyc (s.rdt + 1) s.rdh j ∧ (s.ring j).frame = f := by
  simp only [pending, List.mem_map, mem_view, inCyc_iff_exists_slot]
  constructor
  · rintro ⟨d, ⟨i, hi, rfl⟩, rfl⟩
    exact ⟨_, ⟨i, hi, rfl⟩, rfl⟩
  · rintro ⟨j, ⟨i, hi, rfl⟩, rfl⟩
    exact ⟨_, ⟨i, hi, rfl⟩, rfl⟩

/-- A device step appends the frame it stores to the pending ones. -/
theorem pending_device (he : s.rdh ≠ s.rdt) (len : UInt16) :
    (rxDevice s len).1.pending = s.pending ++ [⟨(s.ring s.rdh).addr, (s.ring s.rdh).gen, len⟩] := by
  have hne : s.rdh + 1 ≠ s.rdt + 1 := fun e => he (add_right_cancel e)
  have hk := dist_lt (s.rdt + 1) s.rdh
  rw [device_store he]
  simp only [pending]
  rw [dist_add_one_right hne]
  nth_rewrite 1 [← slot_dist (s.rdt + 1) s.rdh]
  rw [view_push _ _ _ hk, List.map_append]
  rfl

/-- A loop iteration that takes a frame removes it from the front of the pending ones. -/
theorem pending_recv (h : s.Inv) (hd : s.Done (s.rdt + 1)) (page : ℕ) :
    s.pending = (s.ring (s.rdt + 1)).frame ::
      (⟨Function.update s.ring (s.rdt + 1)
          { s.ring (s.rdt + 1) with addr := page, status := 0, gen := s.installed },
          s.rdh, s.rdt + 1, s.installed + 1⟩ : RxRing).pending := by
  have hne := h.next_ne hd
  have hk := dist_add_one_left hne
  have hlt := dist_lt (s.rdt + 1) s.rdh
  simp only [pending]
  rw [← hk, view_pop, List.map_cons, view_update_of_forall_ne]
  -- the slots after the one taken stop short of it
  intro m hm e
  have := dist_slot (s.rdt + 1 + 1) (i := m) (by omega)
  rw [e, dist_add_one_self] at this
  omega

/-- When the loop ends, no frame is pending. -/
theorem pending_eq_nil (h : s.Inv) (hd : ¬ s.Done (s.rdt + 1)) : s.pending = [] := by
  have h0 : dist (s.rdt + 1) s.rdh = 0 := by
    by_contra hn
    apply hd
    rw [h.done, InCyc, RingBuf.dist_self]
    omega
  simp [pending, h0]

/-- A loop iteration writes only the slot `RDT + 1`, which lies outside `[RDH, RDT)`. -/
theorem recv_frame (h : s.Inv) {page : ℕ} {f : Option RxFrame}
    (hr : e1000RecvStep s page = some (s', f)) (j : Fin RX_RING_SIZE) (hj : InCyc s.rdh s.rdt j) :
    s'.ring j = s.ring j := by
  rcases recv_cases hr with ⟨-, hr'⟩ | ⟨hd, -, hr'⟩
  · cases hr'; rfl
  obtain ⟨rfl, -⟩ := Prod.mk.inj hr'
  have hji : j ≠ s.rdt + 1 := by
    rintro rfl
    exact not_inCyc_of_inCyc_add_one ((h.done _).1 hd) hj
  exact Function.update_of_ne hji _ _

end RxRing

open RxRing

/-! ### Runs and their outputs -/

/-- What holds of a state of `rxMachine` and the outputs so far.  After a panic only the
outputs up to it remain, with the properties they had. -/
def RxHist : Option RxRing → List (Option RxOut) → Prop
  | none, os => deliveredFrames os <+: storedFrames os ∧ ((storedFrames os).map RxFrame.gen).Nodup
  | some s, os =>
    s.Inv ∧ deliveredFrames os ++ s.pending = storedFrames os ∧
      ((storedFrames os).map RxFrame.gen).Nodup ∧
      ∀ f ∈ deliveredFrames os, f.gen < s.installed ∧ ∀ j, (s.ring j).gen ≠ f.gen

section Hist

variable {s s' : RxRing} {os : List (Option RxOut)}

theorem rxHist_init (pages : Fin RX_RING_SIZE → ℕ) : RxHist (some (rxInit pages)) [] := by
  refine ⟨inv_init pages, ?_, List.nodup_nil, fun f hf => by simp [deliveredFrames] at hf⟩
  simp [pending, rxInit_rdt_add_one, storedFrames, deliveredFrames]

theorem RxHist.stop (h : RxHist (some s) os) : RxHist none (os ++ [none]) := by
  obtain ⟨-, he, hn, -⟩ := h
  simp only [RxHist, storedFrames_none, deliveredFrames_none]
  exact ⟨⟨_, he⟩, hn⟩

theorem RxHist.stopped (h : RxHist none os) : RxHist none (os ++ [none]) := by
  simpa [RxHist] using h

theorem RxHist.device (h : RxHist (some s) os) (len : UInt16) :
    RxHist (some (rxDevice s len).1) (os ++ [some (.stored (rxDevice s len).2)]) := by
  obtain ⟨hi, he, hn, hdl⟩ := h
  by_cases hE : s.rdh = s.rdt
  · rw [device_empty hE]
    simpa [RxHist] using ⟨hi, he, hn, hdl⟩
  refine ⟨hi.device len, ?_, ?_, ?_⟩
  · rw [storedFrames_stored, deliveredFrames_stored, pending_device hE, ← he, List.append_assoc,
      device_store hE]
    rfl
  · -- the buffer written is neither one delivered nor one pending
    rw [storedFrames_stored, device_store hE]
    simp only [Option.toList_some, List.map_append, List.map_cons, List.map_nil]
    refine List.nodup_append.2 ⟨hn, by simp, ?_⟩
    intro g hg g' hg'
    rw [List.mem_singleton] at hg'
    subst hg'
    obtain ⟨f, hf, rfl⟩ := List.mem_map.1 hg
    rw [← he] at hf
    rcases List.mem_append.1 hf with hf | hf
    · exact ((hdl f hf).2 s.rdh).symm
    · obtain ⟨j, hj, rfl⟩ := mem_pending.1 hf
      intro e
      have := hi.gen_inj j s.rdh e
      subst this
      exact not_inCyc_right _ _ hj
  · intro f hf
    rw [deliveredFrames_stored] at hf
    obtain ⟨hlt, hne⟩ := hdl f hf
    rw [device_store hE]
    refine ⟨hlt, fun j => ?_⟩
    by_cases hj : j = s.rdh
    · subst hj; simpa using hne s.rdh
    · simpa [Function.update_of_ne hj] using hne j

theorem RxHist.recv (h : RxHist (some s) os) {page : ℕ} {f : Option RxFrame}
    (hr : e1000RecvStep s page = some (s', f)) : RxHist (some s') (os ++ [some (.delivered f)]) := by
  obtain ⟨hi, he, hn, hdl⟩ := h
  have hi' := hi.recv hr
  rcases recv_cases hr with ⟨-, hr'⟩ | ⟨hd, hp, hr'⟩
  · obtain ⟨rfl, rfl⟩ := Prod.mk.inj hr'
    simpa [RxHist] using ⟨hi, he, hn, hdl⟩
  obtain ⟨rfl, rfl⟩ := Prod.mk.inj hr'
  refine ⟨hi', ?_, by rw [storedFrames_delivered]; exact hn, ?_⟩
  · rw [deliveredFrames_delivered, storedFrames_delivered, ← he, pending_recv hi hd page]
    simp
  · intro g hg
    rw [deliveredFrames_delivered] at hg
    rcases List.mem_append.1 hg with hg | hg
    · obtain ⟨hlt, hne⟩ := hdl g hg
      refine ⟨Nat.lt_succ_of_lt hlt, fun j => ?_⟩
      by_cases hj : j = s.rdt + 1
      · subst hj; simpa using (Nat.ne_of_gt hlt)
      · simpa [Function.update_of_ne hj] using hne j
    · -- the frame just delivered: its buffer left the ring, the new one is fresh
      simp only [Option.toList_some, List.mem_singleton] at hg
      subst hg
      refine ⟨Nat.lt_succ_of_lt (hi.gen_lt _), fun j => ?_⟩
      by_cases hj : j = s.rdt + 1
      · subst hj; simpa [RxDesc.frame] using Nat.ne_of_gt (hi.gen_lt (s.rdt + 1))
      · simp only [Function.update_of_ne hj, RxDesc.frame]
        exact fun e => hj (hi.gen_inj _ _ e)

theorem rxHist_step (pages : Fin RX_RING_SIZE → ℕ) {so : Option RxRing} (h : RxHist so os)
    (op : RxOp) :
    RxHist ((rxMachine pages).step so op).1 (os ++ [((rxMachine pages).step so op).2]) := by
  cases so with
  | none => exact h.stopped
  | some s =>
    cases op with
    | device len =>
      have hst : rxStep s (.device len) = some ((rxDevice s len).1, .stored (rxDevice s len).2) :=
        rfl
      rw [rxMachine_step, Machine.partialStep_some hst]
      exact h.device len
    | recv page =>
      cases hr : e1000RecvStep s page with
      | none =>
        have hst : rxStep s (.recv page) = none := by simp [rxStep, hr]
        rw [rxMachine_step, Machine.partialStep_stop hst]
        exact h.stop
      | some r =>
        obtain ⟨s', f⟩ := r
        have hst : rxStep s (.recv page) = some (s', .delivered f) := by simp [rxStep, hr]
        rw [rxMachine_step, Machine.partialStep_some hst]
        exact h.recv hr

end Hist

/-- **The receive ring delivers every stored frame once, in order.**  Along every interleaving
`ops` of device steps and iterations of `e1000_recv`'s loop from `e1000_init`:
the frames handed to `net_rx` are a prefix of the frames the device stored, whose buffers are
pairwise distinct.  In a state the run reaches without a panic, the frames not yet handed to
`net_rx` are exactly those pending in `[RDT + 1, RDH)`, so when the loop ends every stored frame
has been delivered; a loop iteration writes no descriptor in `[RDH, RDT)`; and the next device
step writes into no buffer that was already handed to `net_rx`. -/
theorem rx_ring_delivers (pages : Fin RX_RING_SIZE → ℕ) (ops : List RxOp) :
    let M := rxMachine pages
    let os := M.outs M.init ops
    deliveredFrames os <+: storedFrames os ∧ ((storedFrames os).map RxFrame.gen).Nodup ∧
    ∀ s, M.run M.init ops = some s →
      deliveredFrames os ++ s.pending = storedFrames os ∧
      (∀ page s' f, e1000RecvStep s page = some (s', f) →
        (f = none → deliveredFrames os = storedFrames os) ∧
        ∀ j, InCyc s.rdh s.rdt j → s'.ring j = s.ring j) ∧
      (∀ len f, (rxDevice s len).2 = some f → f.gen ∉ (deliveredFrames os).map RxFrame.gen) := by
  intro M os
  have hH : RxHist (M.run M.init ops) os :=
    Machine.run_outs_induction RxHist (rxHist_init pages)
      (fun so os op _ h => rxHist_step pages h op) ops
  cases hs : M.run M.init ops with
  | none =>
    rw [hs] at hH
    refine ⟨hH.1, hH.2, fun s e => nomatch e⟩
  | some s =>
    rw [hs] at hH
    obtain ⟨hi, he, hn, hdl⟩ := hH
    refine ⟨⟨_, he⟩, hn, fun s' e => ?_⟩
    cases e
    refine ⟨he, fun page s' f hr => ⟨fun hf => ?_, recv_frame hi hr⟩, fun len f hf => ?_⟩
    · -- the loop ended: nothing is pending
      subst hf
      rcases recv_cases hr with ⟨hd, -⟩ | ⟨-, -, hr'⟩
      · rw [← he, pending_eq_nil hi hd, List.append_nil]
      · cases (Prod.mk.inj hr').2
    · by_cases hE : s.rdh = s.rdt
      · rw [device_empty hE] at hf; cases hf
      · rw [device_store hE, Option.some.injEq] at hf
        subst hf
        intro hg
        obtain ⟨g, hg, e⟩ := List.mem_map.1 hg
        exact (hdl g hg).2 s.rdh e.symm

end Nic

end Xv6Net
