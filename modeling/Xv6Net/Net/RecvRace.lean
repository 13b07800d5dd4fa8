import Xv6Net.Net.Refine

/-!
# `sys_recv` copies out after giving its slot back

`sys_recv` takes `pkt = &pe->queue[pe->head]`, advances `head`, decrements `count` and
releases `netlock`; only then does it `copyout` `pkt->data`.  From the release on, the slot is
free as far as `ip_rx` is concerned.  This file runs one receiving process whose call is split
into its two steps (`RaceOp.dequeue`, `RaceOp.copy`) against every other operation on the table
(`RaceOp.net`: `ip_rx` from the E1000 interrupt, binds, other processes' receives).

`copy_after_refill` is the general statement: from every reachable state, if the dequeue
empties a slot of a *full* queue, then `tail` is that very slot, and a datagram that `ip_rx`
accepts for the same port before the copy-out is written into it: the copy-out delivers the
new datagram's bytes.  `recv_copy_race` is an instance from `netinit`: sixteen one-byte
datagrams `0x01` fill the queue of port 7, a `sys_recv(7, …, 1)` dequeues the first one, a
datagram `0x02` arrives, and the copy-out delivers `0x02`.
-/

namespace Xv6Net

namespace Net

open Bytes RingBuf

/-- A `sys_recv` between its dequeue and its copy-out: the slot it took and `copy_len`, and (as
a record for the statement only) the bytes the slot held when it was dequeued. -/
structure InFlight where
  i : Fin NPORTS
  slot : Fin QUEUESIZE
  copyLen : ℤ
  dequeued : List UInt8

/-- The port table with one receiving process. -/
structure RecvSys where
  ports : Ports
  inFlight : Option InFlight

inductive RaceOp
  /-- An operation of the rest of the system, atomic under `netlock`. -/
  | net (op : NetOp)
  /-- The locked part of the receiving process's `sys_recv`. -/
  | dequeue (port maxlen : ℤ)
  /-- Its unlocked copy-out. -/
  | copy

inductive RaceOut
  | none
  /-- The bytes the copy-out delivered, and the bytes the slot held at the dequeue. -/
  | copied (bytes dequeued : List UInt8)
  deriving DecidableEq

/-- One step of the receiving process or of the rest of the system. -/
def raceStep (s : RecvSys) : RaceOp → RecvSys × RaceOut
  | .net op => (⟨(netStep s.ports op).1, s.inFlight⟩, .none)
  | .dequeue p m =>
    match s.inFlight with
    | some _ => (s, .none)
    | none =>
      match recvDequeue s.ports p m with
      | (ports', .pkt i slot c _ _) => (⟨ports', some ⟨i, slot, c, recvCopy ports' i slot c⟩⟩, .none)
      | (ports', _) => (⟨ports', none⟩, .none)
  | .copy =>
    match s.inFlight with
    | none => (s, .none)
    | some f => (⟨s.ports, none⟩, .copied (recvCopy s.ports f.i f.slot f.copyLen) f.dequeued)

def recvRace : Machine RecvSys RaceOp RaceOut := ⟨⟨netinit, none⟩, raceStep⟩

/-- The property asked of `sys_recv`: a copy-out delivers the bytes its dequeue took. -/
def RaceOut.Faithful : RaceOut → Prop
  | .none => True
  | .copied bytes dequeued => bytes = dequeued

/-! ### The table stays a table of `portTable` -/

/-- The ports of every reachable state are reachable by `portTable`: the dequeue changes the
table as a whole `sys_recv` does, and the copy-out does not change it. -/
theorem ports_reachable {s : RecvSys} (h : recvRace.Reachable s) : portTable.Reachable s.ports := by
  induction h with
  | init => exact .init
  | @step s op _ ih =>
    cases op with
    | net op => exact .step op ih
    | dequeue p m =>
      have hr : portTable.Reachable (recvDequeue s.ports p m).1 := by
        rw [← sysRecv_fst]; exact .step (.recv p m) ih
      show portTable.Reachable (raceStep s (.dequeue p m)).1.ports
      simp only [raceStep]
      split
      · exact ih
      · split <;> rename_i h <;> rw [h] at hr <;> exact hr
    | copy =>
      show portTable.Reachable (raceStep s .copy).1.ports
      simp only [raceStep]
      split <;> exact ih

theorem run_net (ports : Ports) (f : Option InFlight) (ops : List NetOp) :
    recvRace.run ⟨ports, f⟩ (ops.map .net) = ⟨portTable.run ports ops, f⟩ := by
  induction ops generalizing ports with
  | nil => rfl
  | cons op ops ih => exact ih _

theorem outs_net (ports : Ports) (f : Option InFlight) (ops : List NetOp) :
    recvRace.outs ⟨ports, f⟩ (ops.map .net) = List.replicate ops.length .none := by
  induction ops generalizing ports with
  | nil => rfl
  | cons op ops ih => simp only [List.map_cons, Machine.outs, List.length_cons,
      List.replicate_succ]; exact congrArg _ (ih _)

/-! ### The overwrite -/

/-- **A refill of the dequeued slot reaches the copy-out.**  From every reachable state with no
receive in flight: if the dequeue takes a packet from a full queue (entry `i`), and `ip_rx` then
accepts a datagram `dg` for the same port, the copy-out delivers the first `copy_len` bytes of
the slot as that arrival left it, `dg`'s payload written over the dequeued packet. -/
theorem copy_after_refill {s : RecvSys} (hs : recvRace.Reachable s) (hfl : s.inFlight = none)
    {p m c : ℤ} {ports' : Ports} {i : Fin NPORTS} {slot : Fin QUEUESIZE} {ip : UInt32}
    {sp : UInt16} (hd : recvDequeue s.ports p m = (ports', .pkt i slot c ip sp))
    (hfull : (s.ports i).count = QUEUESIZE) {f : List UInt8} {dg : Datagram}
    (hu : udpDatagram f = some ((s.ports i).port, dg)) :
    recvRace.outs s [.dequeue p m, .net (.rx f), .copy] =
      [.none, .none, .copied ((writePrefix ((s.ports i).queue slot).data dg.payload).take c.toNat)
        (((s.ports i).queue slot).data.take c.toNat)] := by
  obtain ⟨hf, -, rfl, -, rfl⟩ := recvDequeue_eq_pkt hd
  obtain ⟨M, -, hM⟩ := portTable_sim.reachable (ports_reachable hs)
  obtain ⟨hb, hpi⟩ := findPort_some hf
  obtain ⟨b, -, he⟩ := hM.entry i hb
  -- a full queue has its tail back at its head: the arrival goes to the slot just taken
  have htail : (s.ports i).tail = (s.ports i).head := by rw [he.tail_eq, hfull, slot_self]
  have hf' : findPort (Function.update s.ports i
      { s.ports i with head := (s.ports i).head + 1, count := (s.ports i).count - 1 })
      (s.ports i).port = some i := by
    rw [findPort_update_of_same, hpi]
    · exact hf
    · rfl
    · rfl
  have hrx := ipRx_enqueue hu hf' (by simp [hfull, QUEUESIZE])
  simp only [Machine.outs, recvRace, raceStep, hfl, hd, netStep]
  rw [hrx]
  simp [recvCopy, htail, Packet.fill]

/-! ### A run from `netinit` -/

/-- A UDP frame to port 7 from port 2000 of `10.0.2.2`, whose payload is the byte `x`. -/
def frame7 (x : UInt8) : List UInt8 :=
  List.replicate 14 0 ++ [0x45, 0, 0, 29, 0, 0, 0, 0, 100, 17, 0, 0, 10, 0, 2, 2, 10, 0, 2, 15] ++
    [0x07, 0xd0, 0, 7, 0, 9, 0, 0] ++ [x]

/-- Bind port 7, then sixteen datagrams `0x01` for it. -/
def fillOps : List NetOp := .bind 7 :: List.replicate 16 (.rx (frame7 1))

/-- `k` arrivals of a datagram for a bound port with room for them append `k` copies. -/
theorem mailbox_run_rx {M : Mailbox} {f : List UInt8} {d : UInt16} {dg : Datagram}
    (hu : udpDatagram f = some (d, dg)) {q : List Datagram} {n : ℕ}
    (hb : M.boxes d = some ⟨q, n⟩) (k : ℕ) (hk : q.length + k ≤ QUEUESIZE) :
    (mailbox.run M (List.replicate k (.rx f))).boxes d = some ⟨q ++ List.replicate k dg, n⟩ := by
  induction k generalizing M q with
  | zero => simpa using hb
  | succ k ih =>
    rw [List.replicate_succ, Machine.run_cons]
    have hstep : (mailbox.step M (.rx f)).1.boxes d = some ⟨q ++ [dg], n⟩ := by
      show (M.rx f).boxes d = _
      simp only [Mailbox.rx, hu, Mailbox.deliver, hb]
      rw [if_pos (by omega)]
      simp
    rw [ih hstep (by simp; omega), List.append_assoc, List.singleton_append, ← List.replicate_succ]

/-- After `fillOps`, port 7's box holds sixteen datagrams `0x01`. -/
theorem mailbox_fillOps :
    (mailbox.run mailbox.init fillOps).boxes 7 =
      some ⟨List.replicate 16 ⟨[1], 0x0a000202, 2000⟩, 0⟩ := by
  have hk : mailbox.init.keys = ∅ := by simp [Mailbox.keys, mailbox, Mailbox.empty]
  have h7 : portOf 7 = 7 := by decide
  have hu : udpDatagram (frame7 1) = some (7, ⟨[1], 0x0a000202, 2000⟩) := by decide
  have hb : (Mailbox.mk (Function.update mailbox.init.boxes 7 (some ⟨[], 0⟩))).boxes 7 =
      some ⟨[], 0⟩ := by simp
  rw [fillOps, Machine.run_cons, Mailbox.step_bind_fst,
    Mailbox.bind_fresh (by decide) rfl (by rw [hk]; decide), h7,
    mailbox_run_rx hu hb 16 (by simp [QUEUESIZE])]
  rfl

/-- The whole interleaving: `fillOps`, the dequeue of `sys_recv(7, …, maxlen = 1)`, a datagram
`0x02` for port 7, and the copy-out. -/
def raceOps : List RaceOp := fillOps.map .net ++ [.dequeue 7 1, .net (.rx (frame7 2)), .copy]

/-- **`sys_recv` can deliver a datagram it did not dequeue.**  In the interleaving `raceOps` the
dequeue takes the datagram `0x01`, and the copy-out delivers `0x02`. -/
theorem recv_copy_race :
    recvRace.outs recvRace.init raceOps =
      List.replicate 17 .none ++ [.none, .none, .copied [2] [1]] := by
  obtain ⟨hA, -⟩ := portTable_sim.run fillOps
  have hrun : recvRace.run recvRace.init (fillOps.map .net) =
      ⟨portTable.run portTable.init fillOps, none⟩ := run_net _ _ _
  have hs : recvRace.Reachable ⟨portTable.run portTable.init fillOps, none⟩ := hrun ▸ .of_run _
  -- from here on the table after `fillOps` is only known through `hA`
  generalize portTable.run portTable.init fillOps = P at hA hrun hs
  -- the oldest packet of port 7 holds the datagram `0x01`, one byte long
  obtain ⟨i, hf, hcount, hdg, hlen⟩ := hA.head_of_box mailbox_fillOps
  have hpi : (P i).port = 7 := (findPort_some hf).2
  have hfull : (P i).count = QUEUESIZE := by rw [hcount]; rfl
  have hlen1 : ((P i).queue (P i).head).len = 1 := hlen
  have hdata : ((P i).queue (P i).head).data.take (Int.toNat 1) = [1] := by
    rw [← hlen1]; exact congrArg Datagram.payload hdg
  have hd : recvDequeue P 7 1 = (Function.update P i
      { P i with head := (P i).head + 1, count := (P i).count - 1 },
      .pkt i (P i).head 1 ((P i).queue (P i).head).srcIp ((P i).queue (P i).head).srcPort) := by
    unfold recvDequeue
    rw [if_neg (by decide), show portOf 7 = 7 by decide, hf]
    dsimp only
    rw [if_neg (by rw [hfull]; decide), hlen1]
    rfl
  have hu : udpDatagram (frame7 2) = some ((P i).port, ⟨[2], 0x0a000202, 2000⟩) := by
    rw [hpi]; decide
  rw [raceOps, Machine.outs_append, hrun, outs_net, copy_after_refill hs rfl hd hfull hu]
  have hw : (writePrefix ((P i).queue (P i).head).data [2]).take (Int.toNat 1) = [2] := by
    rw [show Int.toNat 1 = [(2 : UInt8)].length from rfl]
    exact take_writePrefix (by rw [((P i).queue (P i).head).data_length]; decide)
  simp only [hw, hdata]
  rfl

end Net

end Xv6Net
