import Xv6Net.Machine.Basic
import Xv6Net.Ring.Basic
import Xv6Net.Bytes.Basic

/-!
# The transmit ring of the E1000

`e1000_init` marks every descriptor of `tx_ring` done (`DD` set) with no buffer, and sets
`TDH = TDT = 0`.  `e1000_transmit(buf, len)` looks at the descriptor at `TDT` only: if its `DD`
bit is clear it returns `-1`; otherwise it frees the buffer the slot held before, puts `buf`
there, clears `DD` and advances `TDT`.  The device is modelled as the E1000 manual describes it
(`txDevice`): while `TDH ≠ TDT` it sends the descriptor at `TDH`, sets its `DD` bit and advances
`TDH`; with `TDH = TDT` it sees an empty ring.

* `TxRing.inv_of_reachable` : in every reachable state either the descriptors with `DD` clear
  are exactly the cyclic interval `[TDH, TDT)` (`TxRing.Pending`), or the ring is `Full`:
  `TDH = TDT` and no descriptor is done.
* `TxRing.full_run` : a `Full` ring is a trap.  The device reads `TDH = TDT` as an empty ring and
  never sends; every `e1000_transmit` finds `DD` clear at `TDT` and returns `-1`.
* `tx_ring_fills` : the driver's guard does not keep a slot free.  From every reachable state
  that is not `Full`, as many successful transmits as there are free descriptors, with no device
  step in between, reach a `Full` ring: its buffers are never sent.
-/

namespace Xv6Net

namespace Nic

open RingBuf

def TX_RING_SIZE : ℕ := 16

instance : NeZero TX_RING_SIZE := ⟨by decide⟩

def E1000_TXD_STAT_DD : UInt8 := 0x01

def E1000_TXD_CMD_EOP : UInt8 := 0x01

def E1000_TXD_CMD_RS : UInt8 := 0x08

/-- A legacy transmit descriptor (`struct tx_desc`, the fields the driver and the device use);
`addr` is the buffer's physical address, `0` for none. -/
structure TxDesc where
  addr : ℕ
  length : UInt16
  cmd : UInt8
  status : UInt8
  deriving DecidableEq

/-- `tx_ring` and the ring registers `TDH` and `TDT`. -/
structure TxRing where
  ring : Fin TX_RING_SIZE → TxDesc
  tdh : Fin TX_RING_SIZE
  tdt : Fin TX_RING_SIZE

/-- The transmit half of `e1000_init`: `memset` to zero, then `status = DD` and `addr = 0`. -/
def txInit : TxRing := ⟨fun _ => ⟨0, 0, 0, E1000_TXD_STAT_DD⟩, 0, 0⟩

/-- `e1000_transmit(buf, len)`: the ring after the call, its return value, and the buffer it
`kfree`s. -/
def e1000Transmit (s : TxRing) (buf : ℕ) (len : ℤ) : TxRing × ℤ × Option ℕ :=
  let i := s.tdt
  if (s.ring i).status &&& E1000_TXD_STAT_DD = 0 then (s, -1, none)
  else
    -- the buffer a slot held is freed only when the slot is reused
    let freed := if (s.ring i).addr ≠ 0 then some (s.ring i).addr else none
    (⟨Function.update s.ring i
        ⟨buf, UInt16.ofInt len, E1000_TXD_CMD_EOP ||| E1000_TXD_CMD_RS, 0⟩, s.tdh, i + 1⟩,
      0, freed)

/-- One step of the device: with `TDH ≠ TDT` it sends the buffer and length of the descriptor at
`TDH`, sets that descriptor's `DD` bit and advances `TDH`. -/
def txDevice (s : TxRing) : TxRing × Option (ℕ × UInt16) :=
  if s.tdh = s.tdt then (s, none)
  else
    let d := s.ring s.tdh
    (⟨Function.update s.ring s.tdh { d with status := d.status ||| E1000_TXD_STAT_DD },
        s.tdh + 1, s.tdt⟩,
      some (d.addr, d.length))

inductive TxOp
  | transmit (buf : ℕ) (len : ℤ)
  | device

inductive TxOut
  /-- The return value of `e1000_transmit` and the buffer it freed. -/
  | transmit (r : ℤ) (freed : Option ℕ)
  /-- The buffer and length the device sent, if any. -/
  | device (sent : Option (ℕ × UInt16))
  deriving DecidableEq

def txStep (s : TxRing) : TxOp → TxRing × TxOut
  | .transmit buf len =>
    ((e1000Transmit s buf len).1,
      .transmit (e1000Transmit s buf len).2.1 (e1000Transmit s buf len).2.2)
  | .device => ((txDevice s).1, .device (txDevice s).2)

/-- The driver and the device on one ring. -/
def txMachine : Machine TxRing TxOp TxOut := ⟨txInit, txStep⟩

/-- What an operation returns on a ring where nothing can move. -/
def TxOp.stuckOut : TxOp → TxOut
  | .transmit _ _ => .transmit (-1) none
  | .device => .device none

namespace TxRing

/-- Descriptor `j` is done: its `DD` bit is set. -/
def Done (s : TxRing) (j : Fin TX_RING_SIZE) : Prop :=
  (s.ring j).status &&& E1000_TXD_STAT_DD ≠ 0

instance (s : TxRing) (j : Fin TX_RING_SIZE) : Decidable (s.Done j) :=
  inferInstanceAs (Decidable (_ ≠ _))

/-- The driver's and the device's views agree: the descriptors that are not done are exactly
those the device has still to send, `[TDH, TDT)`. -/
def Pending (s : TxRing) : Prop := ∀ j, ¬ s.Done j ↔ InCyc s.tdh s.tdt j

/-- Every descriptor handed to the device, while the device sees an empty ring. -/
def Full (s : TxRing) : Prop := s.tdh = s.tdt ∧ ∀ j, ¬ s.Done j

instance (s : TxRing) : Decidable s.Full := inferInstanceAs (Decidable (_ ∧ _))

/-- What holds of every reachable ring. -/
def Inv (s : TxRing) : Prop := s.Pending ∨ s.Full

/-! ### The `DD` bit -/

theorem dd_or (x : UInt8) : (x ||| E1000_TXD_STAT_DD) &&& E1000_TXD_STAT_DD ≠ 0 := by
  rw [E1000_TXD_STAT_DD, Bytes.or_one_and_one]; decide

/-! ### One spec lemma per step -/

variable {s : TxRing}

/-- A transmit onto a descriptor that is not done fails and changes nothing. -/
theorem transmit_busy (h : ¬ s.Done s.tdt) (buf : ℕ) (len : ℤ) :
    e1000Transmit s buf len = (s, -1, none) := by
  rw [e1000Transmit, if_pos (not_not.1 h)]

/-- A transmit onto a done descriptor succeeds: it fills the slot at `TDT` and advances `TDT`. -/
theorem transmit_done (h : s.Done s.tdt) (buf : ℕ) (len : ℤ) :
    (e1000Transmit s buf len).1 =
      ⟨Function.update s.ring s.tdt
        ⟨buf, UInt16.ofInt len, E1000_TXD_CMD_EOP ||| E1000_TXD_CMD_RS, 0⟩, s.tdh, s.tdt + 1⟩ ∧
    (e1000Transmit s buf len).2.1 = 0 := by
  rw [e1000Transmit, if_neg h]
  exact ⟨rfl, rfl⟩

/-- After a successful transmit the done descriptors are the old ones but the slot at `TDT`. -/
theorem done_transmit (h : s.Done s.tdt) (buf : ℕ) (len : ℤ) (j : Fin TX_RING_SIZE) :
    (e1000Transmit s buf len).1.Done j ↔ j ≠ s.tdt ∧ s.Done j := by
  rw [(transmit_done h buf len).1]
  by_cases hj : j = s.tdt
  · subst hj
    simp [Done]
  · simp only [Done, Function.update_of_ne hj]
    exact ⟨fun h => ⟨hj, h⟩, fun h => h.2⟩

theorem device_empty (h : s.tdh = s.tdt) : txDevice s = (s, none) := by
  rw [txDevice, if_pos h]

theorem device_send (h : s.tdh ≠ s.tdt) :
    (txDevice s).1 =
      ⟨Function.update s.ring s.tdh
        { s.ring s.tdh with status := (s.ring s.tdh).status ||| E1000_TXD_STAT_DD },
        s.tdh + 1, s.tdt⟩ := by
  rw [txDevice, if_neg h]

/-- After a device step the done descriptors are the old ones and the one at `TDH`. -/
theorem done_device (h : s.tdh ≠ s.tdt) (j : Fin TX_RING_SIZE) :
    (txDevice s).1.Done j ↔ j = s.tdh ∨ s.Done j := by
  rw [device_send h]
  by_cases hj : j = s.tdh
  · subst hj
    simp only [Done, Function.update_self, true_or, iff_true]
    exact dd_or _
  · simp only [Done, Function.update_of_ne hj, hj, false_or]

/-! ### The invariant -/

theorem inv_init : txInit.Inv := by
  left
  intro j
  simp only [Done, txInit, not_inCyc_self, iff_false, not_not]
  decide

/-- On a `Pending` ring the descriptor at `TDT` is done: the transmit succeeds. -/
theorem Pending.done_tdt (h : s.Pending) : s.Done s.tdt :=
  not_not.1 fun hn => not_inCyc_right s.tdh s.tdt ((h s.tdt).1 hn)

/-- A successful transmit on a `Pending` ring lengthens `[TDH, TDT)` by one, or fills the ring
when `TDT` reaches `TDH`. -/
theorem Pending.transmit (h : s.Pending) (buf : ℕ) (len : ℤ) :
    let s' := (e1000Transmit s buf len).1
    if s.tdt + 1 = s.tdh then s'.Full
    else s'.Pending ∧ dist s'.tdh s'.tdt = dist s.tdh s.tdt + 1 := by
  intro s'
  have hd := h.done_tdt
  have hs' : s'.tdh = s.tdh ∧ s'.tdt = s.tdt + 1 := by
    simp only [s', (transmit_done hd buf len).1, and_self]
  split_ifs with hw
  · -- the last free slot: every other slot was already in `[TDH, TDT)`
    refine ⟨by rw [hs'.1, hs'.2, hw], fun j hj => ?_⟩
    rw [done_transmit hd] at hj
    exact (h j).2 (inCyc_of_add_one_eq hw hj.1) hj.2
  · refine ⟨fun j => ?_, by rw [hs'.1, hs'.2, dist_add_one_right hw]⟩
    rw [done_transmit hd, hs'.1, hs'.2, inCyc_add_one_right hw, ← h j]
    tauto

/-- A device step on a `Pending` ring shortens `[TDH, TDT)` from the left. -/
theorem Pending.device (h : s.Pending) : (txDevice s).1.Pending := by
  by_cases he : s.tdh = s.tdt
  · rw [device_empty he]; exact h
  · intro j
    have hs' : (txDevice s).1.tdh = s.tdh + 1 ∧ (txDevice s).1.tdt = s.tdt := by
      rw [device_send he]; exact ⟨rfl, rfl⟩
    rw [done_device he, hs'.1, hs'.2, inCyc_add_one_left he, ← h j]
    tauto

/-- A `Full` ring does not move: every step returns it unchanged. -/
theorem Full.step (h : s.Full) (op : TxOp) : txStep s op = (s, op.stuckOut) := by
  cases op with
  | transmit buf len =>
    simp only [txStep, transmit_busy (h.2 s.tdt) buf len, TxOp.stuckOut]
  | device =>
    simp only [txStep, device_empty h.1, TxOp.stuckOut]

theorem inv_step (h : s.Inv) (op : TxOp) : (txStep s op).1.Inv := by
  rcases h with hp | hf
  · cases op with
    | transmit buf len =>
      have ht := hp.transmit buf len
      split_ifs at ht
      · exact .inr ht
      · exact .inl ht.1
    | device => exact .inl hp.device
  · rw [hf.step op]; exact .inr hf

/-- **In every reachable state the descriptors with `DD` clear are `[TDH, TDT)`, or the ring is
`Full`.** -/
theorem inv_of_reachable (h : txMachine.Reachable s) : s.Inv :=
  Machine.Reachable.induction Inv inv_init (fun _ op hs => inv_step hs op) h

/-- **A `Full` ring is a trap**: along every run from it the ring stays as it is, the device
sends nothing and every transmit returns `-1`. -/
theorem full_run (h : s.Full) (ops : List TxOp) :
    txMachine.run s ops = s ∧ txMachine.outs s ops = ops.map TxOp.stuckOut := by
  induction ops with
  | nil => exact ⟨rfl, rfl⟩
  | cons op ops ih =>
    have hst : txMachine.step s op = (s, op.stuckOut) := h.step op
    simp only [Machine.run_cons, Machine.outs, hst, ih.1, ih.2, List.map_cons, and_self]

/-- Transmits with no device step in between, as many as a `Pending` ring has free descriptors,
all succeed and fill the ring. -/
theorem Pending.fill (h : s.Pending) (bufs : List (ℕ × ℤ))
    (hb : dist s.tdh s.tdt + bufs.length = TX_RING_SIZE) :
    let ops := bufs.map fun b => TxOp.transmit b.1 b.2
    (∀ o ∈ txMachine.outs s ops, ∃ f, o = .transmit 0 f) ∧ (txMachine.run s ops).Full := by
  induction bufs generalizing s with
  | nil =>
    have := dist_lt s.tdh s.tdt
    simp only [List.length_nil, Nat.add_zero] at hb
    omega
  | cons b bufs ih =>
    intro ops
    have ht := h.transmit b.1 b.2
    have hout : (txMachine.step s (.transmit b.1 b.2)).2 =
        .transmit 0 (e1000Transmit s b.1 b.2).2.2 := by
      simp only [txMachine, txStep, (transmit_done h.done_tdt b.1 b.2).2]
    split_ifs at ht with hw
    · -- the first transmit takes the last free slot, so it is the only one
      have hnil : bufs = [] := by
        have := dist_add_one_self s.tdt
        rw [← hw] at hb
        simp only [List.length_cons] at hb
        have : TX_RING_SIZE - 1 + (bufs.length + 1) = TX_RING_SIZE := by
          rw [← this]; exact hb
        exact List.eq_nil_of_length_eq_zero (by omega)
      subst hnil
      refine ⟨?_, ht⟩
      simp only [ops, List.map_cons, List.map_nil, Machine.outs, hout, List.mem_singleton]
      rintro o rfl
      exact ⟨_, rfl⟩
    · obtain ⟨hp', hd'⟩ := ht
      have ih' := ih hp' (by rw [hd']; simp only [List.length_cons] at hb; omega)
      refine ⟨?_, ih'.2⟩
      simp only [ops, List.map_cons, Machine.outs, hout, List.mem_cons]
      rintro o (rfl | ho)
      · exact ⟨_, rfl⟩
      · exact ih'.1 o ho

end TxRing

open TxRing

/-- **The transmit ring fills up and sticks.**  From every reachable state that is not `Full`,
transmits with no device step in between, as many as there are free descriptors
(`TX_RING_SIZE - (TDT - TDH)`), all return `0`; after them `TDT = TDH`, so the device sees an
empty ring, while every descriptor has `DD` clear, none of them in `[TDH, TDT)`.  From there
every run leaves the ring unchanged: the device never sends the queued buffers and every
further transmit returns `-1`. -/
theorem tx_ring_fills {s : TxRing} (hs : txMachine.Reachable s) (hnf : ¬ s.Full)
    (bufs : List (ℕ × ℤ)) (hb : dist s.tdh s.tdt + bufs.length = TX_RING_SIZE) (ops : List TxOp) :
    let s' := txMachine.run s (bufs.map fun b => TxOp.transmit b.1 b.2)
    (∀ o ∈ txMachine.outs s (bufs.map fun b => TxOp.transmit b.1 b.2), ∃ f, o = .transmit 0 f) ∧
    s'.tdh = s'.tdt ∧ (∀ j, ¬ s'.Done j ∧ ¬ InCyc s'.tdh s'.tdt j) ∧
    txMachine.run s' ops = s' ∧ txMachine.outs s' ops = ops.map TxOp.stuckOut := by
  intro s'
  have hp : s.Pending := (inv_of_reachable hs).resolve_right hnf
  obtain ⟨hout, hfull⟩ := hp.fill bufs hb
  refine ⟨hout, hfull.1, fun j => ⟨hfull.2 j, ?_⟩, full_run hfull ops⟩
  rw [hfull.1]
  exact not_inCyc_self _ _

/-- Sixteen transmits right after `e1000_init`. -/
theorem tx_ring_fills_init :
    txMachine.Reachable txInit ∧ ¬ txInit.Full ∧
      dist txInit.tdh txInit.tdt + (List.replicate 16 (0x87000000, 42)).length = TX_RING_SIZE ∧
      txMachine.run (txMachine.run txInit
        ((List.replicate 16 (0x87000000, 42)).map fun b => TxOp.transmit b.1 b.2)) [.device] =
        txMachine.run txInit
          ((List.replicate 16 (0x87000000, 42)).map fun b => TxOp.transmit b.1 b.2) :=
  have h := tx_ring_fills .init (by decide) (List.replicate 16 (0x87000000, 42)) (by decide)
    [.device]
  ⟨.init, by decide, by decide, h.2.2.2.1⟩

end Nic

end Xv6Net
