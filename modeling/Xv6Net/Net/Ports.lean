import Xv6Net.Net.Header
import Xv6Net.Ring.Basic
import Xv6Net.Machine.Basic
import Mathlib.Data.List.FinRange

/-!
# The UDP port table (`net.c`)

`ports[NPORTS]` holds one entry per bound port; each entry queues up to `QUEUESIZE` received
datagrams in a ring (`head`, `tail`, `count`) and counts the datagrams it had to drop.  Three
operations touch the table, each under `netlock`:

* `sysBind` : `sys_bind`, which binds a port in the first free entry;
* `ipRx` : `ip_rx`, which decodes a frame and appends its payload to the queue of its
  destination port (or drops it);
* `sysRecv` : `sys_recv`, which waits for the queue of its port to be non-empty and takes the
  oldest datagram.  Its locked part (`recvDequeue`) and its unlocked copy-out (`recvCopy`) are
  separate functions, because `Net.RecvRace` interleaves them.

`portTable` is the machine of `netinit` and these three operations.

Not modelled: the `printf` of the first IP packet, and the `kfree` of the frame buffer, which
`ip_rx` does on every exit (page ownership is the subject of `E1000.Pages`).  `ip_rx` never
reads its `len` argument, so `ipRx` has none.  The drop counter is a natural number: the code's
`int` would overflow only after 2^31 drops.
-/

namespace Xv6Net

namespace Net

open Bytes RingBuf

def NPORTS : ℕ := 32

def QUEUESIZE : ℕ := 16

instance : NeZero NPORTS := ⟨by decide⟩

instance : NeZero QUEUESIZE := ⟨by decide⟩

/-- `struct packet`: a payload buffer of 2048 bytes, of which the first `len` are the datagram. -/
structure Packet where
  data : List UInt8
  data_length : data.length = 2048
  len : ℤ
  srcIp : UInt32
  srcPort : UInt16

/-- The packet slot of the zero-initialized static array. -/
def Packet.zero : Packet := ⟨List.replicate 2048 0, List.length_replicate, 0, 0, 0⟩

/-- `memmove(pkt->data, payload, payload_len)` followed by the three field stores of `ip_rx`. -/
def Packet.fill (pkt : Packet) (payload : List UInt8) (len : ℤ) (srcIp : UInt32)
    (srcPort : UInt16) : Packet :=
  ⟨writePrefix pkt.data payload, by simp [pkt.data_length], len, srcIp, srcPort⟩

/-- `struct port_entry`. -/
structure PortEntry where
  bound : Bool
  port : UInt16
  queue : Fin QUEUESIZE → Packet
  head : Fin QUEUESIZE
  tail : Fin QUEUESIZE
  count : ℕ
  drops : ℕ

/-- `ports[]`. -/
abbrev Ports := Fin NPORTS → PortEntry

/-- The state `netinit` leaves: every entry unbound, with empty indices. -/
def netinit : Ports := fun _ =>
  { bound := false, port := 0, queue := fun _ => Packet.zero, head := 0, tail := 0, count := 0,
    drops := 0 }

/-- The first bound entry for `port`: the search loop of `sys_bind`, `sys_recv` and `ip_rx`. -/
def findPort (ports : Ports) (port : UInt16) : Option (Fin NPORTS) :=
  (List.finRange NPORTS).find? fun i => (ports i).bound && (ports i).port == port

/-- The first unbound entry: the second loop of `sys_bind`. -/
def findFree (ports : Ports) : Option (Fin NPORTS) :=
  (List.finRange NPORTS).find? fun i => !(ports i).bound

/-- `(uint16)port_arg`, for an argument that passed the range check. -/
def portOf (portArg : ℤ) : UInt16 := portArg.toNat.toUInt16

/-- `sys_bind(port_arg)`: the new table and the return value. -/
def sysBind (ports : Ports) (portArg : ℤ) : Ports × ℤ :=
  if portArg < 0 ∨ portArg > 65535 then (ports, -1)
  else
    match findPort ports (portOf portArg) with
    | some _ => (ports, 0)
    | none =>
      match findFree ports with
      | some i =>
        (Function.update ports i
          { ports i with bound := true, port := portOf portArg, head := 0, tail := 0, count := 0,
                         drops := 0 }, 0)
      | none => (ports, -1)

/-- `ip_rx(buf, len)`: the table after the frame `buf` has been handled. -/
def ipRx (ports : Ports) (buf : List UInt8) : Ports :=
  if ipP buf ≠ IPPROTO_UDP then ports
  else
    let dport := udpDport buf
    let sport := udpSport buf
    let srcIp := ipSrc buf
    let payloadLen := payloadLenOf (udpUlen buf)
    if payloadLen < 0 ∨ payloadLen > 2048 then ports
    else
      let payload := slice buf (ethSize + ipSize + udpSize) payloadLen.toNat
      match findPort ports dport with
      | none => ports
      | some i =>
        let pe := ports i
        if pe.count ≥ QUEUESIZE then Function.update ports i { pe with drops := pe.drops + 1 }
        else
          Function.update ports i
            { pe with
              queue := Function.update pe.queue pe.tail
                ((pe.queue pe.tail).fill payload payloadLen srcIp sport)
              tail := pe.tail + 1
              count := pe.count + 1 }

/-- What the locked part of `sys_recv` hands to its unlocked copy-out. -/
inductive Taken
  /-- `return -1` before the table is touched. -/
  | err
  /-- The queue is empty: the caller sleeps on the entry. -/
  | wait
  /-- `pkt = &ports[i].queue[slot]` was dequeued, with `copy_len`, `src_ip` and `src_port`. -/
  | pkt (i : Fin NPORTS) (slot : Fin QUEUESIZE) (copyLen : ℤ) (srcIp : UInt32) (srcPort : UInt16)

/-- The part of `sys_recv(dport, src, sport, buf, maxlen)` that runs under `netlock`. -/
def recvDequeue (ports : Ports) (portArg maxlen : ℤ) : Ports × Taken :=
  if portArg < 0 ∨ portArg > 65535 ∨ maxlen < 0 then (ports, .err)
  else
    match findPort ports (portOf portArg) with
    | none => (ports, .err)
    | some i =>
      let pe := ports i
      if pe.count = 0 then (ports, .wait)
      else
        let pkt := pe.queue pe.head
        let copyLen := if pkt.len < maxlen then pkt.len else maxlen
        (Function.update ports i { pe with head := pe.head + 1, count := pe.count - 1 },
          .pkt i pe.head copyLen pkt.srcIp pkt.srcPort)

/-- `copyout(p->pagetable, buf_addr, pkt->data, copy_len)`: the bytes the copy-out reads from
the slot, whenever it runs. -/
def recvCopy (ports : Ports) (i : Fin NPORTS) (slot : Fin QUEUESIZE) (copyLen : ℤ) :
    List UInt8 :=
  ((ports i).queue slot).data.take copyLen.toNat

/-- What a whole `sys_recv` returns to its caller. -/
inductive RecvOut
  | err
  | wait
  /-- The payload bytes copied to `buf` (their number is the return value), `*src`, `*sport`. -/
  | data (bytes : List UInt8) (srcIp : UInt32) (srcPort : UInt16)
  deriving DecidableEq

/-- `sys_recv` with its copy-out taken right after the dequeue. -/
def sysRecv (ports : Ports) (portArg maxlen : ℤ) : Ports × RecvOut :=
  match recvDequeue ports portArg maxlen with
  | (ports', .err) => (ports', .err)
  | (ports', .wait) => (ports', .wait)
  | (ports', .pkt i slot copyLen srcIp srcPort) =>
    (ports', .data (recvCopy ports' i slot copyLen) srcIp srcPort)

/-- The operations on the port table. -/
inductive NetOp
  | bind (port : ℤ)
  | rx (frame : List UInt8)
  | recv (port maxlen : ℤ)

/-- Their results. -/
inductive NetOut
  | bind (r : ℤ)
  | rx
  | recv (r : RecvOut)
  deriving DecidableEq

/-- One operation on the table, atomic under `netlock`. -/
def netStep (ports : Ports) : NetOp → Ports × NetOut
  | .bind p => ((sysBind ports p).1, .bind (sysBind ports p).2)
  | .rx f => (ipRx ports f, .rx)
  | .recv p m => ((sysRecv ports p m).1, .recv (sysRecv ports p m).2)

/-- The port table as a machine. -/
def portTable : Machine Ports NetOp NetOut := ⟨netinit, netStep⟩

/-! ### The search loops -/

theorem findPort_some {ports : Ports} {port : UInt16} {i : Fin NPORTS}
    (h : findPort ports port = some i) : (ports i).bound ∧ (ports i).port = port := by
  have := List.find?_some h
  simpa using this

theorem findPort_none {ports : Ports} {port : UInt16} (h : findPort ports port = none)
    (i : Fin NPORTS) : (ports i).bound → (ports i).port ≠ port := by
  have := List.find?_eq_none.1 h i (List.mem_finRange i)
  simpa using this

theorem findPort_eq_none_iff {ports : Ports} {port : UInt16} :
    findPort ports port = none ↔ ∀ i, (ports i).bound → (ports i).port ≠ port := by
  refine ⟨findPort_none, fun h => List.find?_eq_none.2 fun i _ => ?_⟩
  simpa using h i

/-- With distinct bound ports, the loop finds exactly the entry bound to the port. -/
theorem findPort_eq_some_iff {ports : Ports} {port : UInt16}
    (hd : ∀ i j, (ports i).bound → (ports j).bound → (ports i).port = (ports j).port → i = j)
    {i : Fin NPORTS} : findPort ports port = some i ↔ (ports i).bound ∧ (ports i).port = port := by
  constructor
  · exact findPort_some
  · rintro ⟨hb, hp⟩
    cases h : findPort ports port with
    | none => exact absurd hp (findPort_none h i hb)
    | some j =>
      obtain ⟨hb', hp'⟩ := findPort_some h
      rw [hd j i hb' hb (hp'.trans hp.symm)]

theorem findFree_some {ports : Ports} {i : Fin NPORTS} (h : findFree ports = some i) :
    (ports i).bound = false := by
  have := List.find?_some h
  simpa using this

theorem findFree_none {ports : Ports} (h : findFree ports = none) (i : Fin NPORTS) :
    (ports i).bound = true := by
  have := List.find?_eq_none.1 h i (List.mem_finRange i)
  simpa using this

theorem portOf_inj {p q : ℤ} (hp : 0 ≤ p ∧ p ≤ 65535) (hq : 0 ≤ q ∧ q ≤ 65535)
    (h : portOf p = portOf q) : p = q := by
  have := congrArg UInt16.toNat h
  simp only [portOf, Nat.toUInt16_eq, UInt16.toNat_ofNat'] at this
  rw [Nat.mod_eq_of_lt (by omega), Nat.mod_eq_of_lt (by omega)] at this
  omega

/-- For a non-negative argument, `portOf` is the conversion `(uint16)` that `sys_send` applies. -/
theorem portOf_eq_ofInt {p : ℤ} (hp : 0 ≤ p) : portOf p = UInt16.ofInt p := by
  apply UInt16.toNat_inj.1
  rw [toNat_uint16_ofInt, portOf, Nat.toUInt16, UInt16.toNat_ofNat']
  omega

/-- A lookup is not affected by replacing an entry with one of the same binding. -/
theorem findPort_update_of_same {ports : Ports} {i : Fin NPORTS} {pe : PortEntry}
    (hb : pe.bound = (ports i).bound) (hp : pe.port = (ports i).port) (d : UInt16) :
    findPort (Function.update ports i pe) d = findPort ports d := by
  unfold findPort
  congr 1
  funext j
  by_cases hj : j = i
  · subst hj; simp [hb, hp]
  · simp [Function.update_of_ne hj]

/-- **What a dequeue that takes a packet did**: the port was in range and bound at entry `i`,
its queue was not empty, and `head` advanced past the slot it took. -/
theorem recvDequeue_eq_pkt {ports ports' : Ports} {p m c : ℤ} {i : Fin NPORTS}
    {slot : Fin QUEUESIZE} {ip : UInt32} {sp : UInt16}
    (h : recvDequeue ports p m = (ports', .pkt i slot c ip sp)) :
    findPort ports (portOf p) = some i ∧ (ports i).count ≠ 0 ∧ slot = (ports i).head ∧
      c = (if ((ports i).queue (ports i).head).len < m then ((ports i).queue (ports i).head).len
        else m) ∧
      ports' = Function.update ports i
        { ports i with head := (ports i).head + 1, count := (ports i).count - 1 } := by
  unfold recvDequeue at h
  split_ifs at h with hr
  · simp at h
  cases hf : findPort ports (portOf p) with
  | none => rw [hf] at h; simp at h
  | some j =>
    rw [hf] at h
    dsimp only at h
    by_cases hc : (ports j).count = 0
    · rw [if_pos hc] at h; simp at h
    rw [if_neg hc] at h
    simp only [Prod.mk.injEq, Taken.pkt.injEq] at h
    obtain ⟨rfl, rfl, rfl, rfl, -, -⟩ := h
    exact ⟨rfl, hc, rfl, rfl, rfl⟩

/-- The table after a whole `sys_recv` is the table after its locked part. -/
theorem sysRecv_fst (ports : Ports) (p m : ℤ) : (sysRecv ports p m).1 = (recvDequeue ports p m).1 := by
  unfold sysRecv
  split <;> rename_i h <;> rw [h]

end Net

end Xv6Net
