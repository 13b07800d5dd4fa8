import Xv6Net.Net.Ports
import Xv6Net.Net.Frame
import Xv6Net.Nic.Tx
import Xv6Net.Nic.Rx
import Xv6Net.Kernel.Kalloc
import Mathlib.Data.List.GetD

/-!
# The network stack and its pages

The whole receive and send path of the kernel as one machine: the page allocator, both E1000
rings, the port table and `arp_rx`'s `seen_arp`.  Its operations are the system calls
`send`, `bind` and `recv`, one iteration of `e1000_recv`'s loop (with `net_rx`, `arp_rx` and
`ip_rx` inside it), and a step of either half of the device.  Every operation is atomic; the
kernel `panic`s of `e1000_recv` and `arp_rx` when `kalloc` fails stop the machine.

A page on this path is meant to be in exactly one place between operations: the free list, the
`addr` of one RX descriptor, or the `addr` of one TX descriptor (`Stack.places`).  `sys_send`
ignores the result of `e1000_transmit`: when the transmit fails, the page it allocated is in no
place at all.  `send_leaks_page` shows that this happens: after `e1000_init`, seventeen sends
with no device step in between fill the transmit ring (`Nic.tx_ring_fills`), and the seventeenth
page is lost, while every send returns `0`.

The receive path allocates too: `arp_rx` takes a page for its reply before it frees the frame's
buffer, and panics when there is none.  `intr_arp_panic` shows that from every state with an
empty free list the first ARP frame stops the machine, and `arp_rx_panics_without_page` reaches
such a state from `e1000_init`.  The `kalloc` of `e1000_recv` itself gets back the page that
`net_rx` has just freed (`netRx_frees`).
-/

namespace Xv6Net

namespace Net

open Bytes Kernel Nic RingBuf

/-- The state of the network path. -/
structure Stack where
  phys : Phys
  tx : TxRing
  rx : RxRing
  ports : Ports
  seenArp : Bool

/-- The arguments of `sys_send(sport, dst, dport, bufaddr, len)`, with the user memory its
`copyin` reads from `bufaddr` (`none`: the copy fails). -/
structure SendArgs where
  sport : ℤ
  dst : ℤ
  dport : ℤ
  len : ℤ
  user : Option (List UInt8)

/-- `int total = len + sizeof(struct eth) + sizeof(struct ip) + sizeof(struct udp)`: `len` is
converted to `size_t`, the sum is taken modulo `2 ^ 64` and truncated to an `int`. -/
def sendTotal (len : ℤ) : ℤ := toInt32 ((len + (ethSize + ipSize + udpSize)) % 2 ^ 64).toNat

/-- The `uint64 len` that `copyin` receives: the `int` sign-extended. -/
def copyinLen (len : ℤ) : ℕ := (len % 2 ^ 64).toNat

/-- `sys_send`: the state after the call and its return value. -/
def sysSend (s : Stack) (a : SendArgs) : Stack × ℤ :=
  let total := sendTotal a.len
  if total > PGSIZE then (s, -1)
  else
    let ph := (kalloc s.phys).1
    let buf := (kalloc s.phys).2
    if buf = 0 then ({ s with phys := ph }, -1)
    else
      match a.user with
      | none => ({ s with phys := kfree ph buf }, -1)
      | some bytes =>
        -- `copyin` copies `len`, as a `uint64`, bytes to the payload at offset 42
        let frame := writeAt (sendHeader a.sport a.dst a.dport a.len) (ethSize + ipSize + udpSize)
          (bytes.take (copyinLen a.len))
        let ph := { ph with mem := Function.update ph.mem buf frame }
        -- the result of `e1000_transmit` is ignored
        let t := e1000Transmit s.tx buf total
        ({ s with phys := kfreeOpt ph t.2.2, tx := t.1 }, 0)

/-- `arp_rx(inbuf)`: it answers the first ARP request only, from a fresh page, and frees
`inbuf`; `none` is its `panic` when `kalloc` fails. -/
def arpRx (s : Stack) (inbuf : ℕ) : Option Stack :=
  if s.seenArp then some { s with phys := kfree s.phys inbuf }
  else
    let ph := (kalloc s.phys).1
    let buf := (kalloc s.phys).2
    if buf = 0 then none
    else
      let ph := { ph with mem := Function.update ph.mem buf (arpReply (ph.mem buf) (ph.mem inbuf)) }
      -- the result of `e1000_transmit` is ignored here too
      let t := e1000Transmit s.tx buf (ethSize + arpSize)
      some { s with phys := kfree (kfreeOpt ph t.2.2) inbuf, tx := t.1, seenArp := true }

/-- `ip_rx(buf, len)`: the port table's part (`Net.ipRx`), then the `kfree(buf)` that each of its
exits performs. -/
def ipRxPage (s : Stack) (buf : ℕ) : Stack :=
  { s with ports := ipRx s.ports (s.phys.mem buf), phys := kfree s.phys buf }

/-- `net_rx(buf, len)`. -/
def netRx (s : Stack) (buf : ℕ) (len : ℤ) : Option Stack :=
  let frame := s.phys.mem buf
  if len ≥ ethSize + arpSize ∧ ethType frame = ETHTYPE_ARP then arpRx s buf
  else if len ≥ ethSize + ipSize ∧ ethType frame = ETHTYPE_IP then some (ipRxPage s buf)
  else some { s with phys := kfree s.phys buf }

/-- One iteration of the loop of `e1000_recv`: the frame at `RDT + 1` goes to `net_rx`, then the
ring part of the iteration (`Nic.e1000RecvStep`) installs the page the next `kalloc` returns. -/
def e1000RecvIter (s : Stack) : Option (Stack × Option RxFrame) :=
  if (s.rx.ring (s.rx.rdt + 1)).status &&& E1000_RXD_STAT_DD = 0 then some (s, none)
  else
    let f := (s.rx.ring (s.rx.rdt + 1)).frame
    match netRx s f.addr f.length.toNat with
    | none => none
    | some s₁ =>
      match e1000RecvStep s₁.rx (kalloc s₁.phys).2 with
      | none => none
      | some (rx, _) => some ({ s₁ with phys := (kalloc s₁.phys).1, rx := rx }, some f)

/-- The device receives `frame`: with a buffer available it DMAs the frame into it. -/
def rxDeviceStore (s : Stack) (frame : List UInt8) : Stack × Option RxFrame :=
  match rxDevice s.rx (UInt16.ofNat frame.length) with
  | (_, none) => (s, none)
  | (rx, some f) =>
    let mem := Function.update s.phys.mem f.addr (writePrefix (s.phys.mem f.addr) frame)
    ({ s with rx := rx, phys := { s.phys with mem := mem } }, some f)

/-- The device sends the next descriptor, if any: the bytes that go on the wire. -/
def txDeviceSend (s : Stack) : Stack × Option (List UInt8) :=
  ({ s with tx := (txDevice s.tx).1 },
    (txDevice s.tx).2.map fun d => (s.phys.mem d.1).take d.2.toNat)

inductive StackOp
  | send (a : SendArgs)
  | bind (port : ℤ)
  | recv (port maxlen : ℤ)
  /-- One iteration of `e1000_recv`'s loop, run from `e1000_intr`. -/
  | intr
  /-- The device receives a frame. -/
  | rxFrame (frame : List UInt8)
  /-- The device sends the next descriptor. -/
  | txDevice

inductive StackOut
  | send (r : ℤ)
  | bind (r : ℤ)
  | recv (r : RecvOut)
  | intr (f : Option RxFrame)
  | stored (f : Option RxFrame)
  | sent (bytes : Option (List UInt8))
  deriving DecidableEq

def stackStep (s : Stack) : StackOp → Option (Stack × StackOut)
  | .send a => some ((sysSend s a).1, .send (sysSend s a).2)
  | .bind p => some ({ s with ports := (sysBind s.ports p).1 }, .bind (sysBind s.ports p).2)
  | .recv p m => some ({ s with ports := (sysRecv s.ports p m).1 }, .recv (sysRecv s.ports p m).2)
  | .intr => (e1000RecvIter s).map fun r => (r.1, .intr r.2)
  | .rxFrame f => some ((rxDeviceStore s f).1, .stored (rxDeviceStore s f).2)
  | .txDevice => some ((txDeviceSend s).1, .sent (txDeviceSend s).2)

/-- The `k` `kalloc`s of `e1000_init`'s receive loop: the allocator after them and the pages, or
`none` for the `panic` when one fails. -/
def rxPages (ph : Phys) : ℕ → Option (Phys × List ℕ)
  | 0 => some (ph, [])
  | k + 1 =>
    if (kalloc ph).2 = 0 then none
    else (rxPages (kalloc ph).1 k).map fun r => (r.1, (kalloc ph).2 :: r.2)

/-- The network path after `kinit` (which leaves the pages `fl` free, filled with `1`),
`e1000_init` and `netinit`. -/
def stackBoot (fl : List ℕ) : Option Stack :=
  (rxPages ⟨fl, fun _ => List.replicate PGSIZE 1⟩ RX_RING_SIZE).map fun r =>
    ⟨r.1, txInit, rxInit fun i => r.2.getD i 0, netinit, false⟩

/-- The network path as a machine, from a booted state. -/
def stackMachine (s₀ : Stack) : Machine (Option Stack) StackOp (Option StackOut) :=
  Machine.ofPartial s₀ stackStep

/-- The places a page of the network path can be in between operations: the free list, the
buffer of an RX descriptor, the buffer of a TX descriptor. -/
def Stack.places (s : Stack) : List ℕ :=
  s.phys.freelist ++ List.ofFn (fun j => (s.rx.ring j).addr) ++
    (List.ofFn fun j => (s.tx.ring j).addr).filter (· ≠ 0)

/-! ### Boot -/

/-- With enough non-zero free pages, the receive loop of `e1000_init` takes the first `k`. -/
theorem rxPages_eq {ph : Phys} {k : ℕ} (hk : k ≤ ph.freelist.length) (h0 : 0 ∉ ph.freelist) :
    ∃ ph', rxPages ph k = some (ph', ph.freelist.take k) ∧ ph'.freelist = ph.freelist.drop k := by
  induction k generalizing ph with
  | zero => exact ⟨ph, rfl, rfl⟩
  | succ k ih =>
    obtain ⟨r, rs, hfl⟩ : ∃ r rs, ph.freelist = r :: rs :=
      List.exists_cons_of_ne_nil (List.ne_nil_of_length_pos (by omega))
    have hka := kalloc_cons hfl
    have hr : r ≠ 0 := fun e => h0 (by rw [hfl, e]; exact List.mem_cons_self)
    obtain ⟨ph', hrun, hfl'⟩ := @ih (kalloc ph).1
      (by rw [hka]; simp only [hfl, List.length_cons] at hk ⊢; omega)
      (by rw [hka]; intro e; exact h0 (by rw [hfl]; exact List.mem_cons_of_mem _ e))
    refine ⟨ph', ?_, ?_⟩
    · rw [rxPages, if_neg (by rw [hka]; exact hr), hrun, hka, hfl]
      rfl
    · rw [hfl', hka, hfl]
      rfl

theorem stackBoot_eq {fl : List ℕ} (hk : RX_RING_SIZE ≤ fl.length) (h0 : 0 ∉ fl) :
    ∃ s₀, stackBoot fl = some s₀ ∧ s₀.phys.freelist = fl.drop RX_RING_SIZE ∧ s₀.tx = txInit ∧
      s₀.rx = rxInit fun i => fl.getD i 0 := by
  obtain ⟨ph', hrun, hfl'⟩ :=
    @rxPages_eq ⟨fl, fun _ => List.replicate PGSIZE 1⟩ RX_RING_SIZE hk h0
  refine ⟨_, by rw [stackBoot, hrun]; rfl, hfl', rfl, ?_⟩
  show rxInit (fun i => (fl.take RX_RING_SIZE).getD i 0) = rxInit fun i => fl.getD i 0
  -- the first sixteen pages, in the order `kalloc` returned them
  congr 1
  funext i
  simp [List.getD_eq_getElem?_getD]

theorem pageSized_rxPages {ph : Phys} (h : PageSized ph) {k : ℕ} {r : Phys × List ℕ}
    (hr : rxPages ph k = some r) : PageSized r.1 := by
  induction k generalizing ph r with
  | zero => cases hr; exact h
  | succ k ih =>
    rw [rxPages] at hr
    split_ifs at hr
    obtain ⟨r', hr', rfl⟩ := Option.map_eq_some_iff.1 hr
    exact ih (r := r') (pageSized_kalloc h) hr'

/-- What `stackBoot` leaves besides the rings: every page `PGSIZE` bytes long, no ARP frame
answered yet. -/
theorem stackBoot_pageSized {fl : List ℕ} {s₀ : Stack} (h : stackBoot fl = some s₀) :
    PageSized s₀.phys ∧ s₀.seenArp = false := by
  obtain ⟨r, hr, rfl⟩ := Option.map_eq_some_iff.1 h
  exact ⟨pageSized_rxPages (fun _ => List.length_replicate) hr, rfl⟩

/-! ### The length check of `sys_send` -/

/-- `total` as the code computes it: `len + 42` modulo `2 ^ 32`, as a signed value. -/
theorem sendTotal_eq_emod (len : ℤ) :
    sendTotal len = if (len + 42) % 2 ^ 32 < 2 ^ 31 then (len + 42) % 2 ^ 32
      else (len + 42) % 2 ^ 32 - 2 ^ 32 := by
  rw [sendTotal, ← toInt32_toNat_emod]
  rfl

/-- Where the sum does not wrap, `total` is `len + 42`. -/
theorem sendTotal_eq {len : ℤ} (h : -2 ^ 31 ≤ len + 42 ∧ len + 42 < 2 ^ 31) :
    sendTotal len = len + 42 := by
  rw [sendTotal_eq_emod]
  split_ifs <;> omega

/-- **The length check of `sys_send` goes through the wrapped sum.**  For every `int len`, the
guard `total > PGSIZE` lets `len` through exactly when `len ≤ PGSIZE - 42` or `len ≥ 2 ^ 31 - 42`.
On `[0, PGSIZE - 42]`, `total` is `len + 42` and `copyin` copies `len` bytes, which fit in the page
after the headers; every other length that passes (all the negative ones, and those whose sum
wraps to a negative `int`) asks `copyin` for more bytes than the page has left. -/
theorem send_len_guard (len : ℤ) (hlen : -2 ^ 31 ≤ len ∧ len < 2 ^ 31) :
    (sendTotal len ≤ PGSIZE ↔ len ≤ PGSIZE - 42 ∨ 2 ^ 31 - 42 ≤ len) ∧
      (0 ≤ len ∧ len ≤ PGSIZE - 42 → sendTotal len = len + 42 ∧ (copyinLen len : ℤ) = len) ∧
      (len < 0 ∨ PGSIZE - 42 < len → PGSIZE - 42 < (copyinLen len : ℤ)) := by
  have hc : (copyinLen len : ℤ) = len % 2 ^ 64 := by rw [copyinLen]; omega
  rw [sendTotal_eq_emod, hc, PGSIZE]
  refine ⟨?_, fun h => ?_, fun h => by omega⟩
  · split_ifs <;> omega
  · -- in range the sum does not wrap
    rw [if_pos (by omega)]
    omega

/-- `send(…, len = -1)`: `total` is `41`, so the call goes on, and `copyin` is asked for
`2 ^ 64 - 1` bytes. -/
theorem send_len_guard_minus_one :
    (-2 ^ 31 ≤ (-1 : ℤ) ∧ (-1 : ℤ) < 2 ^ 31) ∧ sendTotal (-1) ≤ PGSIZE ∧ sendTotal (-1) = 41 ∧
      copyinLen (-1) = 2 ^ 64 - 1 :=
  ⟨by decide, (send_len_guard (-1) (by decide)).1.2 (Or.inl (by decide)), by decide, by decide⟩

/-! ### Sends with no device step -/

theorem stackMachine_send (s₀ s : Stack) (a : SendArgs) :
    (stackMachine s₀).step (some s) (.send a) = (some (sysSend s a).1, some (.send (sysSend s a).2)) := by
  rw [stackMachine, Machine.ofPartial_step]
  exact Machine.partialStep_some rfl

/-- A valid send whose `kalloc` succeeds hands its page to `e1000_transmit` and returns `0`,
whatever the transmit does. -/
theorem sysSend_eq {s : Stack} {a : SendArgs} {p : ℕ} {rest : List ℕ}
    (hfl : s.phys.freelist = p :: rest) (hp : p ≠ 0) (hlen : -2 ^ 31 ≤ a.len ∧ a.len + 42 ≤ 4096)
    {bytes : List UInt8} (hu : a.user = some bytes) :
    (sysSend s a).2 = 0 ∧ (sysSend s a).1.tx = (e1000Transmit s.tx p (a.len + 42)).1 ∧
      (sysSend s a).1.rx = s.rx ∧
      (sysSend s a).1.phys.freelist = (e1000Transmit s.tx p (a.len + 42)).2.2.toList ++ rest := by
  have hka := kalloc_cons hfl
  have ht : sendTotal a.len = a.len + 42 := sendTotal_eq (by omega)
  have hle : ¬ a.len + 42 > (PGSIZE : ℤ) := by rw [PGSIZE]; omega
  simp only [sysSend, ht, if_neg hle, hka, if_neg hp, hu]
  simp

/-- What `k` sends after `e1000_init`, with no device step, leave: the next pages of the free
list in the slots `0, …, k - 1` of the transmit ring, their `DD` bits clear, the other slots as
`e1000_init` left them. -/
structure SendsInv (fl : List ℕ) (rx₀ : RxRing) (k : ℕ) (s : Stack) : Prop where
  freelist : s.phys.freelist = fl.drop (RX_RING_SIZE + k)
  rx : s.rx = rx₀
  tdt : s.tx.tdt.val = k % TX_RING_SIZE
  slot : ∀ j : Fin TX_RING_SIZE, s.tx.ring j =
    if j.val < k then ⟨fl.getD (RX_RING_SIZE + j.val) 0, (s.tx.ring j).length,
      E1000_TXD_CMD_EOP ||| E1000_TXD_CMD_RS, 0⟩
    else ⟨0, 0, 0, E1000_TXD_STAT_DD⟩

section Sends

variable {fl : List ℕ} {rx₀ : RxRing}

theorem sendsInv_boot {s₀ : Stack} (hfl : s₀.phys.freelist = fl.drop RX_RING_SIZE)
    (htx : s₀.tx = txInit) (hrx : s₀.rx = rx₀) : SendsInv fl rx₀ 0 s₀ :=
  ⟨hfl, hrx, by rw [htx]; rfl, fun j => by rw [htx]; rfl⟩

/-- **One send into a slot never used.**  While fewer than `TX_RING_SIZE` sends have run, the
slot at `TDT` is still done and holds no buffer: the transmit succeeds and frees nothing. -/
theorem SendsInv.send {k : ℕ} {s : Stack} (h : SendsInv fl rx₀ k s) (hk : k < TX_RING_SIZE)
    (hlen : RX_RING_SIZE + k < fl.length) (h0 : 0 ∉ fl) {a : SendArgs}
    (ha : -2 ^ 31 ≤ a.len ∧ a.len + 42 ≤ 4096 ∧ a.user.isSome) :
    SendsInv fl rx₀ (k + 1) (sysSend s a).1 ∧ (sysSend s a).2 = 0 := by
  obtain ⟨bytes, hu⟩ := Option.isSome_iff_exists.1 ha.2.2
  have hfl : s.phys.freelist = fl.getD (RX_RING_SIZE + k) 0 :: fl.drop (RX_RING_SIZE + k + 1) := by
    rw [h.freelist, List.getD_eq_getElem _ _ hlen, List.drop_eq_getElem_cons hlen]
  have hp : fl.getD (RX_RING_SIZE + k) 0 ≠ 0 := by
    rw [List.getD_eq_getElem _ _ hlen]
    intro e; exact h0 (e ▸ List.getElem_mem hlen)
  obtain ⟨hr, htx, hrx, hfree⟩ := sysSend_eq hfl hp ⟨ha.1, ha.2.1⟩ hu
  have htdt : (s.tx.ring s.tx.tdt) = ⟨0, 0, 0, E1000_TXD_STAT_DD⟩ := by
    rw [h.slot, if_neg (by rw [h.tdt, Nat.mod_eq_of_lt hk]; omega)]
  have hd : s.tx.Done s.tx.tdt := by
    rw [TxRing.Done, htdt]; decide
  have hfreed : (e1000Transmit s.tx (fl.getD (RX_RING_SIZE + k) 0) (a.len + 42)).2.2 = none := by
    rw [e1000Transmit, if_neg hd]
    simp [htdt]
  refine ⟨⟨?_, hrx.trans h.rx, ?_, fun j => ?_⟩, hr⟩
  · rw [hfree, hfreed]; rfl
  · rw [htx, (TxRing.transmit_done hd _ _).1, val_add_one_eq, h.tdt, Nat.mod_add_mod]
  · rw [htx, (TxRing.transmit_done hd _ _).1]
    by_cases hj : j = s.tx.tdt
    · -- the slot just filled
      have hjv : j.val = k := by rw [hj, h.tdt, Nat.mod_eq_of_lt hk]
      subst hj
      simp only [Function.update_self]
      rw [if_pos (by omega), hjv]
    · have hjv : j.val ≠ k := fun e => hj (Fin.ext (by rw [e, h.tdt, Nat.mod_eq_of_lt hk]))
      simp only [Function.update_of_ne hj]
      rw [h.slot j]
      split_ifs <;> first | rfl | omega

/-- Sends from a state of `SendsInv` while the ring has room all return `0`. -/
theorem SendsInv.run {k : ℕ} {s : Stack} (h : SendsInv fl rx₀ k s) (h0 : 0 ∉ fl) (s₀ : Stack)
    (as : List SendArgs) (hk : k + as.length ≤ TX_RING_SIZE)
    (hlen : RX_RING_SIZE + TX_RING_SIZE ≤ fl.length)
    (ha : ∀ a ∈ as, -2 ^ 31 ≤ a.len ∧ a.len + 42 ≤ 4096 ∧ a.user.isSome) :
    ∃ s', (stackMachine s₀).run (some s) (as.map .send) = some s' ∧
      SendsInv fl rx₀ (k + as.length) s' ∧
      (stackMachine s₀).outs (some s) (as.map .send) = List.replicate as.length (some (.send 0)) := by
  induction as generalizing k s with
  | nil => exact ⟨s, rfl, h, rfl⟩
  | cons a as ih =>
    simp only [List.length_cons] at hk
    obtain ⟨h', hr⟩ := h.send (by omega) (by omega) h0 (ha a List.mem_cons_self)
    obtain ⟨s', hrun, hinv, hout⟩ :=
      ih h' (by omega) (fun b hb => ha b (List.mem_cons_of_mem _ hb))
    refine ⟨s', ?_, ?_, ?_⟩
    · rw [List.map_cons, Machine.run_cons, stackMachine_send]
      exact hrun
    · rw [List.length_cons, show k + (as.length + 1) = k + 1 + as.length by omega]
      exact hinv
    · simp only [List.map_cons, Machine.outs, stackMachine_send, hr, hout, List.length_cons,
        List.replicate_succ]

end Sends

/-- A page of `fl`, at index `m`, is in no place of a state whose free list is what follows it in
`fl`, whose receive ring holds the first `RX_RING_SIZE` pages of `fl` and whose transmit ring
holds only pages of `fl` from before index `m`. -/
theorem not_mem_places_of_index {fl : List ℕ} (hnd : fl.Nodup) {m : ℕ} (hm : m < fl.length)
    (hRm : RX_RING_SIZE ≤ m) {s : Stack} (hfree : s.phys.freelist = fl.drop (m + 1))
    (hrx : s.rx = rxInit fun i => fl.getD i 0)
    (htx : ∀ j, (s.tx.ring j).addr ≠ 0 → ∃ i < m, (s.tx.ring j).addr = fl.getD i 0) :
    fl.getD m 0 ∉ s.places := by
  -- the page is at index `m` of `fl` and nowhere else
  have hinj : ∀ i < fl.length, fl.getD i 0 = fl.getD m 0 → i = m := by
    intro i hi e
    rw [List.getD_eq_getElem _ _ hi, List.getD_eq_getElem _ _ hm] at e
    exact (hnd.getElem_inj_iff).1 e
  simp only [Stack.places, hfree, hrx, List.mem_append, List.mem_ofFn, List.mem_filter, not_or]
  refine ⟨⟨?_, ?_⟩, ?_⟩
  · intro hd
    obtain ⟨i, hi, e⟩ := List.mem_iff_getElem.1 hd
    rw [List.length_drop] at hi
    rw [List.getElem_drop, ← List.getD_eq_getElem _ 0 (by omega)] at e
    have := hinj _ (by omega) e
    omega
  · rintro ⟨j, e⟩
    have hj := j.isLt
    have := hinj j.val (by unfold RX_RING_SIZE at hj hRm; omega) e
    unfold RX_RING_SIZE at hj hRm
    omega
  · rintro ⟨⟨j, e⟩, hne⟩
    obtain ⟨i, hi, e'⟩ := htx j (by simpa [e] using hne)
    have := hinj i (by omega) (e' ▸ e)
    omega

/-- **`sys_send` loses a page.**  For every free list `fl` of distinct non-zero pages, long
enough, after `e1000_init` takes the first `RX_RING_SIZE` pages for the receive ring, run
`TX_RING_SIZE + 1` sends (any ports, addresses and lengths that `sys_send` accepts, any payload)
with no device step in between.  Every one of them returns `0`.  The first `TX_RING_SIZE` fill
the transmit ring; the last one's transmit fails, and the page it allocated, the next page of
`fl`, is afterwards neither free nor the buffer of any descriptor. -/
theorem send_leaks_page (fl : List ℕ) (hnd : fl.Nodup) (h0 : 0 ∉ fl)
    (hlen : RX_RING_SIZE + TX_RING_SIZE < fl.length) (sends : List SendArgs)
    (hs : sends.length = TX_RING_SIZE + 1) (ha : ∀ a ∈ sends, -2 ^ 31 ≤ a.len ∧ a.len + 42 ≤ 4096 ∧ a.user.isSome) :
    ∃ s₀ s, stackBoot fl = some s₀ ∧
      (stackMachine s₀).run (some s₀) (sends.map .send) = some s ∧
      (stackMachine s₀).outs (some s₀) (sends.map .send) =
        List.replicate (TX_RING_SIZE + 1) (some (.send 0)) ∧
      fl.getD (RX_RING_SIZE + TX_RING_SIZE) 0 ∈ fl ∧
      fl.getD (RX_RING_SIZE + TX_RING_SIZE) 0 ∉ s.places := by
  obtain ⟨s₀, hboot, hfl, htx, hrx⟩ := stackBoot_eq (by omega) h0
  -- the first `TX_RING_SIZE` sends fill the ring
  obtain ⟨first, last, rfl, hfirst⟩ : ∃ first last, sends = first ++ [last] ∧
      first.length = TX_RING_SIZE :=
    ⟨sends.dropLast, sends.getLast (List.ne_nil_of_length_pos (by omega)),
      (List.dropLast_append_getLast _).symm, by rw [List.length_dropLast, hs]; rfl⟩
  obtain ⟨s₁, hrun₁, hinv, hout₁⟩ := (sendsInv_boot hfl htx hrx).run h0 s₀ first
    (by omega) (by omega) (fun a ha' => ha a (List.mem_append_left _ ha'))
  rw [Nat.zero_add, hfirst] at hinv
  -- the ring is full: the slot at `TDT` is slot `0`, whose `DD` bit is clear
  have hlast := ha last (List.mem_append_right _ (List.mem_singleton_self last))
  obtain ⟨bytes, hu⟩ := Option.isSome_iff_exists.1 hlast.2.2
  have hpmem : fl.getD (RX_RING_SIZE + TX_RING_SIZE) 0 ∈ fl := by
    rw [List.getD_eq_getElem _ _ hlen]; exact List.getElem_mem hlen
  have hfl₁ : s₁.phys.freelist =
      fl.getD (RX_RING_SIZE + TX_RING_SIZE) 0 :: fl.drop (RX_RING_SIZE + TX_RING_SIZE + 1) := by
    rw [hinv.freelist, List.getD_eq_getElem _ _ hlen, List.drop_eq_getElem_cons hlen]
  have hp : fl.getD (RX_RING_SIZE + TX_RING_SIZE) 0 ≠ 0 := fun e => h0 (e ▸ hpmem)
  have hbusy : ¬ s₁.tx.Done s₁.tx.tdt := by
    have h0t : s₁.tx.tdt.val = 0 := by rw [hinv.tdt]; rfl
    rw [TxRing.Done, hinv.slot, if_pos (by rw [h0t]; decide)]
    dsimp only
    decide
  obtain ⟨hr, htx₁, hrx₁, hfree⟩ := sysSend_eq hfl₁ hp ⟨hlast.1, hlast.2.1⟩ hu
  rw [TxRing.transmit_busy hbusy] at htx₁ hfree
  refine ⟨s₀, (sysSend s₁ last).1, hboot, ?_, ?_, hpmem, ?_⟩
  · rw [List.map_append, Machine.run_append, hrun₁, List.map_singleton, Machine.run_cons,
      stackMachine_send]
    rfl
  · rw [List.map_append, Machine.outs_append, hout₁, hrun₁, List.map_singleton, hfirst]
    simp only [Machine.outs, stackMachine_send, hr, List.replicate_succ']
  · -- the transmit ring still holds the pages of the first sends, and the free list what
    -- follows the lost page
    refine not_mem_places_of_index hnd hlen (by omega) (by simpa using hfree)
      (by rw [hrx₁, hinv.rx]) fun j hj => ?_
    rw [htx₁, hinv.slot] at hj ⊢
    split_ifs at hj ⊢ with hlt
    · exact ⟨_, by omega, rfl⟩
    · exact absurd rfl hj

/-- Thirty-three pages `1, …, 33` and seventeen one-byte datagrams to port 2000 of `10.0.2.2`. -/
theorem send_leaks_page_pages :
    (List.range' 1 33).Nodup ∧ 0 ∉ List.range' 1 33 ∧
      RX_RING_SIZE + TX_RING_SIZE < (List.range' 1 33).length ∧
      (List.replicate 17 (⟨2000, 0x0a000202, 2000, 1, some [0x41]⟩ : SendArgs)).length =
        TX_RING_SIZE + 1 ∧
      (∀ a ∈ List.replicate 17 (⟨2000, 0x0a000202, 2000, 1, some [0x41]⟩ : SendArgs),
        -2 ^ 31 ≤ a.len ∧ a.len + 42 ≤ 4096 ∧ a.user.isSome) ∧
      (List.range' 1 33).getD (RX_RING_SIZE + TX_RING_SIZE) 0 = 33 ∧
      ∃ s₀ s, stackBoot (List.range' 1 33) = some s₀ ∧
        (stackMachine s₀).run (some s₀)
          ((List.replicate 17 (⟨2000, 0x0a000202, 2000, 1, some [0x41]⟩ : SendArgs)).map .send) =
          some s ∧ 33 ∉ s.places := by
  have hall : ∀ a ∈ List.replicate 17 (⟨2000, 0x0a000202, 2000, 1, some [0x41]⟩ : SendArgs),
      -2 ^ 31 ≤ a.len ∧ a.len + 42 ≤ 4096 ∧ a.user.isSome := by
    intro a ha
    rw [List.eq_of_mem_replicate ha]
    decide
  obtain ⟨s₀, s, hb, hrun, -, -, hleak⟩ :=
    send_leaks_page (List.range' 1 33) (List.nodup_range') (by simp) (by decide)
      (List.replicate 17 ⟨2000, 0x0a000202, 2000, 1, some [0x41]⟩) rfl hall
  exact ⟨List.nodup_range', by simp, by decide, rfl, hall, rfl, s₀, s, hb, hrun, hleak⟩

/-! ### Running out of pages on the receive path -/

/-- Every way through `net_rx` ends with `kfree(buf)`: the next `kalloc`, that of `e1000_recv`,
returns the frame's own page. -/
theorem netRx_frees {s s₁ : Stack} {buf : ℕ} {len : ℤ} (h : netRx s buf len = some s₁) :
    (kalloc s₁.phys).2 = buf := by
  have hfree : ∃ rest, s₁.phys.freelist = buf :: rest := by
    unfold netRx at h
    dsimp only at h
    split_ifs at h
    · -- `arp_rx` frees `inbuf` last, after the reply is handed to the device
      unfold arpRx at h
      dsimp only at h
      split_ifs at h <;> cases h <;> exact ⟨_, rfl⟩
    all_goals cases h; exact ⟨_, rfl⟩
  obtain ⟨rest, hfl⟩ := hfree
  rw [kalloc_cons hfl]

/-- The device stores a frame into the buffer at `RDH`. -/
theorem rxDeviceStore_store {s : Stack} (h : s.rx.rdh ≠ s.rx.rdt) (f : List UInt8) :
    (rxDeviceStore s f).1 =
      { s with
        rx := (rxDevice s.rx (UInt16.ofNat f.length)).1
        phys := { s.phys with
          mem := Function.update s.phys.mem (s.rx.ring s.rx.rdh).addr
            (writePrefix (s.phys.mem (s.rx.ring s.rx.rdh).addr) f) } } := by
  rw [rxDeviceStore, RxRing.device_store h]

/-- `arp_rx` on the first ARP frame with no free page: the `panic`. -/
theorem arpRx_panic {s : Stack} (hfl : s.phys.freelist = []) (hseen : s.seenArp = false)
    (inbuf : ℕ) : arpRx s inbuf = none := by
  rw [arpRx, if_neg (by simp [hseen]), kalloc_nil hfl, if_pos rfl]

/-- **With no free page, the first ARP frame panics the kernel.**  From every state whose free
list is empty and that has not answered an ARP frame yet, an interrupt that finds an ARP frame of
at least 42 bytes at `RDT + 1` stops the machine: `net_rx` hands the frame to `arp_rx`, whose
`kalloc` for the reply fails before `inbuf` is freed. -/
theorem intr_arp_panic {s : Stack} (hfl : s.phys.freelist = []) (hseen : s.seenArp = false)
    (hd : s.rx.Done (s.rx.rdt + 1))
    (hlen : ethSize + arpSize ≤ (s.rx.ring (s.rx.rdt + 1)).length.toNat)
    (harp : ethType (s.phys.mem (s.rx.ring (s.rx.rdt + 1)).addr) = ETHTYPE_ARP) :
    stackStep s .intr = none := by
  have hnet : netRx s (s.rx.ring (s.rx.rdt + 1)).frame.addr
      (s.rx.ring (s.rx.rdt + 1)).frame.length.toNat = none := by
    rw [netRx, if_pos ⟨by simp only [RxDesc.frame]; omega, harp⟩, arpRx_panic hfl hseen]
  simp only [stackStep, e1000RecvIter, if_neg hd, hnet, Option.map_none]

/-- **The first ARP frame after memory runs out panics the kernel.**  Boot with exactly the
`RX_RING_SIZE` pages the receive ring takes, so that the free list is empty (as when user
processes hold every other page).  The device stores any ARP frame of 42 to `PGSIZE` bytes,
and the interrupt that follows stops the machine: `arp_rx` panics when its `kalloc` fails. -/
theorem arp_rx_panics_without_page (fl : List ℕ) (hfl : fl.length = RX_RING_SIZE) (h0 : 0 ∉ fl)
    (f : List UInt8) (hlen : ethSize + arpSize ≤ f.length ∧ f.length ≤ PGSIZE)
    (harp : ethType f = ETHTYPE_ARP) :
    ∃ s₀, stackBoot fl = some s₀ ∧ s₀.phys.freelist = [] ∧
      (stackMachine s₀).run (some s₀) [.rxFrame f, .intr] = none := by
  obtain ⟨s₀, hboot, hfl₀, -, hrx⟩ := stackBoot_eq (by omega) h0
  obtain ⟨hsize, hseen⟩ := stackBoot_pageSized hboot
  have hempty : s₀.phys.freelist = [] := by rw [hfl₀, List.drop_eq_nil_of_le (by omega)]
  refine ⟨s₀, hboot, hempty, ?_⟩
  -- the device stores `f` at `RDH = 0`, the slot after `RDT`, where the interrupt looks
  have hne : s₀.rx.rdh ≠ s₀.rx.rdt := by
    rw [hrx]
    exact fun h => absurd (congrArg Fin.val h) (by simp [rxInit, RX_RING_SIZE])
  have hnext : s₀.rx.rdt + 1 = s₀.rx.rdh := by rw [hrx]; exact rxInit_rdt_add_one _
  have hf : (UInt16.ofNat f.length).toNat = f.length := by
    simp only [PGSIZE] at hlen
    rw [UInt16.toNat_ofNat']
    omega
  -- the descriptor the interrupt looks at: `f`'s buffer, length and a set `DD` bit
  have hdesc : (rxDevice s₀.rx (UInt16.ofNat f.length)).1.ring
      ((rxDevice s₀.rx (UInt16.ofNat f.length)).1.rdt + 1) =
      ⟨(s₀.rx.ring s₀.rx.rdh).addr, UInt16.ofNat f.length,
        (s₀.rx.ring s₀.rx.rdh).status ||| E1000_RXD_STAT_DD, (s₀.rx.ring s₀.rx.rdh).gen⟩ := by
    rw [RxRing.device_store hne]
    dsimp only
    rw [hnext, Function.update_self]
  have hpanic : stackStep (rxDeviceStore s₀ f).1 .intr = none := by
    rw [rxDeviceStore_store hne]
    refine intr_arp_panic hempty hseen ?_ ?_ ?_ <;> dsimp only
    · rw [RxRing.Done, hdesc, E1000_RXD_STAT_DD, or_one_and_one]
      decide
    · rw [hdesc, hf]
      exact hlen.1
    · -- the stored frame begins with `f`, whose Ethernet type is ARP
      rw [hdesc, Function.update_self, ← harp]
      refine (fields_congr fun i hi => byteAt_writePrefix ?_ ?_).1
      · rw [hsize]
        exact hlen.2
      · simp only [ethSize, ipSize, udpSize, arpSize] at hi hlen
        omega
  rw [Machine.run_cons, Machine.run_cons, stackMachine, Machine.ofPartial_step,
    Machine.partialStep_some rfl, Machine.partialStep_stop hpanic]
  rfl

/-- Pages `1, …, 16`, and a 42-byte broadcast ARP frame. -/
theorem arp_rx_panics_without_page_sixteen_pages :
    ∃ s₀, stackBoot (List.range' 1 16) = some s₀ ∧ s₀.phys.freelist = [] ∧
      (stackMachine s₀).run (some s₀)
        [.rxFrame (List.replicate 12 0xff ++ [0x08, 0x06] ++ List.replicate 28 0), .intr] = none :=
  arp_rx_panics_without_page (List.range' 1 16) rfl (by simp) _ (by decide) (by decide)

end Net

end Xv6Net
