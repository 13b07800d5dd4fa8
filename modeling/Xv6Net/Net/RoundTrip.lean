import Xv6Net.Net.Refine
import Xv6Net.Net.Stack

/-!
# Sending a datagram and receiving it back

`sys_send(sport, dst, dport, p, |p|)` writes the three headers into a page (`sendHeader`), copies
the payload to offset 42 and hands the first `total = |p| + 42` bytes of the page to
`e1000_transmit` (`sysSend_transmits`); those bytes are `sendFrame sport dst dport p`.  When the
frame comes back in, the device stores it at the start of a receive page, whose other bytes are
whatever the page held before; `net_rx` passes it to `ip_rx` by its Ethernet type, and `ip_rx`
decodes it (`udpDatagram`) and queues the payload for `sys_recv`.

* `udpDatagram_sendFrame` : the decoding inverts the encoding: a received copy of the frame
  decodes to the destination port, `p`, `local_ip` and the source port, for every payload of at
  most 2048 bytes, whatever follows the frame in the page.
* `ipRx_sendFrame_long` : `sys_send` accepts payloads up to `PGSIZE - 42 = 4054` bytes, but
  `ip_rx` drops every frame whose payload is longer than 2048 bytes: from 2049 to 4054 bytes
  the datagram is sent and never received.
* `send_recv_round_trip` : the whole receive path for a payload of at most 2048 bytes and a
  port bound with room in its queue, from any reachable state of the port table: `net_rx`
  passes the frame to `ip_rx`, and once the datagrams queued before it are taken, `sys_recv`
  returns `p`, `local_ip` and the source port.

* `ip_rx_trusts_udp_length` : `ip_rx` takes the UDP header at offset 34 and the payload length
  from `ulen` without comparing either with the frame's length or its IHL field, so it queues
  bytes from past the end of a short frame (`ip_rx_trusts_udp_length_short_frame`).

`sys_send` converts the ports to 16 bits (`UInt16.ofInt`): the receiver sees `sport` modulo
`2 ^ 16`.
-/

namespace Xv6Net

namespace Net

open Bytes Kernel Nic

/-- The bytes `sys_send(sport, dst, dport, p, |p|)` hands to `e1000_transmit`: its page with the
payload at offset 42, cut at `total = |p| + 42`. -/
def sendFrame (sport dst dport : ℤ) (p : List UInt8) : List UInt8 :=
  (writeAt (sendHeader sport dst dport p.length) (ethSize + ipSize + udpSize) p).take
    (p.length + (ethSize + ipSize + udpSize))

/-- `sys_send` of a payload that fits the page, with a free page `pg`: the page gets the headers
and the payload, `e1000_transmit` gets the page with the length `|p| + 42`, and the call
returns `0`. -/
theorem sysSend_transmits {s : Stack} {pg : ℕ} {rest : List ℕ} (hfl : s.phys.freelist = pg :: rest)
    (hpg : pg ≠ 0) (sport dst dport : ℤ) {p : List UInt8} (hp : p.length + 42 ≤ PGSIZE) :
    sysSend s ⟨sport, dst, dport, p.length, some p⟩ =
      ({ s with
          phys := kfreeOpt ⟨rest, Function.update s.phys.mem pg
            (writeAt (sendHeader sport dst dport p.length) (ethSize + ipSize + udpSize) p)⟩
            (e1000Transmit s.tx pg (p.length + 42)).2.2
          tx := (e1000Transmit s.tx pg (p.length + 42)).1 }, 0) := by
  rw [PGSIZE] at hp
  have ht : sendTotal p.length = p.length + 42 := sendTotal_eq (by omega)
  have hc : copyinLen p.length = p.length := by rw [copyinLen]; omega
  have hle : ¬ (p.length : ℤ) + 42 > (PGSIZE : ℤ) := by rw [PGSIZE]; omega
  simp only [sysSend, ht, if_neg hle, kalloc_cons hfl, if_neg hpg, hc, List.take_length,
    Function.update_idem]

section Frame

variable (sport dst dport : ℤ) {p : List UInt8} (rest : List UInt8)

/-- The headers and a payload that `sys_send` accepts fit the page. -/
theorem sendHeader_room (hp : p.length + 42 ≤ PGSIZE) :
    ethSize + ipSize + udpSize + p.length ≤ (sendHeader sport dst dport p.length).length := by
  rw [(sendHeader_fields sport dst dport p.length).1]
  simp only [PGSIZE, ethSize, ipSize, udpSize] at hp ⊢
  omega

theorem length_sendPage (hp : p.length + 42 ≤ PGSIZE) :
    (writeAt (sendHeader sport dst dport p.length) (ethSize + ipSize + udpSize) p).length =
      PGSIZE := by
  rw [writeAt_length (sendHeader_room sport dst dport hp), (sendHeader_fields sport dst dport p.length).1]
  rfl

/-- Below offset 42, a received copy of the frame is the header `sys_send` built. -/
theorem byteAt_sendFrame_append (hp : p.length + 42 ≤ PGSIZE) {i : ℕ}
    (hi : i < ethSize + ipSize + udpSize) :
    byteAt (sendFrame sport dst dport p ++ rest) i = byteAt (sendHeader sport dst dport p.length) i := by
  rw [sendFrame, byteAt_take_append (by rw [length_sendPage sport dst dport hp]; exact hp) (by omega),
    byteAt_writeAt (sendHeader_room sport dst dport hp), if_neg (by omega)]

/-- After offset 42, a received copy of the frame holds the payload. -/
theorem slice_sendFrame_append (hp : p.length + 42 ≤ PGSIZE) :
    slice (sendFrame sport dst dport p ++ rest) (ethSize + ipSize + udpSize) p.length = p := by
  rw [sendFrame, slice_take_append (by rw [length_sendPage sport dst dport hp]; exact hp) (by omega),
    slice_writeAt_self (sendHeader_room sport dst dport hp)]

/-- The fields of a received copy of the frame are those `sys_send` wrote. -/
theorem sendFrame_fields (hp : p.length + 42 ≤ PGSIZE) :
    ethType (sendFrame sport dst dport p ++ rest) = ETHTYPE_IP ∧
      ipP (sendFrame sport dst dport p ++ rest) = IPPROTO_UDP ∧
      ipSrc (sendFrame sport dst dport p ++ rest) = local_ip ∧
      udpSport (sendFrame sport dst dport p ++ rest) = UInt16.ofInt sport ∧
      udpDport (sendFrame sport dst dport p ++ rest) = UInt16.ofInt dport ∧
      (udpUlen (sendFrame sport dst dport p ++ rest)).toNat = p.length + udpSize := by
  obtain ⟨-, h1, h2, h3, h4, h5, h6⟩ := sendHeader_fields sport dst dport p.length
  obtain ⟨e1, e2, e3, e4, e5, e6⟩ :=
    fields_congr fun i hi => byteAt_sendFrame_append sport dst dport rest hp hi
  -- `ulen = |p| + 8` fits its 16 bits
  have hulen : (UInt16.ofInt ((p.length : ℤ) + udpSize)).toNat = p.length + udpSize := by
    simp only [PGSIZE] at hp
    rw [toNat_uint16_ofInt, udpSize]
    omega
  exact ⟨e1.trans h1, e2.trans h2, e3.trans h3, e4.trans h4, e5.trans h5, by rw [e6, h6, hulen]⟩

/-- **Decoding inverts encoding.**  A received copy of the frame `sys_send` built for a payload
of at most 2048 bytes, followed by any bytes, carries the payload, `local_ip` and the source
port to the destination port. -/
theorem udpDatagram_sendFrame (hp : p.length ≤ 2048) :
    udpDatagram (sendFrame sport dst dport p ++ rest) =
      some (UInt16.ofInt dport, ⟨p, local_ip, UInt16.ofInt sport⟩) := by
  obtain ⟨-, h2, h3, h4, h5, h6⟩ := sendFrame_fields sport dst dport rest (p := p) (by rw [PGSIZE]; omega)
  rw [udpDatagram, h2, h6, if_pos ⟨rfl, by simp [udpSize], by simp [udpSize]; omega⟩, h3, h4, h5,
    udpSize, Nat.add_sub_cancel]
  -- `udpDatagram` takes the payload at offset 42, after the three headers
  rw [show 42 = ethSize + ipSize + udpSize from rfl,
    slice_sendFrame_append sport dst dport rest (p := p) (by rw [PGSIZE]; omega)]

/-- **Payloads `sys_send` accepts and `ip_rx` drops.**  `ip_rx` leaves the port table unchanged
on a frame whose payload is longer than 2048 bytes. -/
theorem ipRx_sendFrame_long (hp : 2048 < p.length) (hp' : p.length + 42 ≤ PGSIZE) (ports : Ports) :
    ipRx ports (sendFrame sport dst dport p ++ rest) = ports := by
  obtain ⟨-, h2, -, -, -, h6⟩ := sendFrame_fields sport dst dport rest hp'
  have hlen : payloadLenOf (udpUlen (sendFrame sport dst dport p ++ rest)) > 2048 := by
    rw [payloadLenOf_eq, h6, udpSize]
    omega
  unfold ipRx
  rw [if_neg (not_not.2 h2)]
  dsimp only
  rw [if_pos (Or.inr hlen)]

/-- `net_rx` passes a received copy of the frame, with its length, to `ip_rx`. -/
theorem netRx_sendFrame (hp : p.length + 42 ≤ PGSIZE) {s : Stack} {pg : ℕ}
    (hpg : s.phys.mem pg = sendFrame sport dst dport p ++ rest) :
    netRx s pg (p.length + 42) = some (ipRxPage s pg) := by
  obtain ⟨h1, -⟩ := sendFrame_fields sport dst dport rest hp
  have hlen : (p.length : ℤ) + 42 ≥ ethSize + ipSize := by simp [ethSize, ipSize]; omega
  unfold netRx
  dsimp only
  rw [hpg, h1, if_neg (fun h => absurd h.2 (by decide)), if_pos ⟨hlen, rfl⟩]

end Frame

/-- **A datagram `sys_send` sends is what `sys_recv` returns.**  Take a payload `p` of at most
2048 bytes, and a received copy of the frame `sys_send` builds for it, in a page `pg` after which
any bytes may follow, with the destination port bound, room in its queue, and the port table in
a reachable state.  Then `net_rx(pg, |p| + 42)` passes the frame to `ip_rx`, and of the
`count + 1` calls `sys_recv(dport, maxlen)` that follow, with `maxlen ≥ |p|`, the first `count`
take the datagrams queued before it and the last returns `p`, `local_ip` and the source port
(converted to 16 bits). -/
theorem send_recv_round_trip (sport dst dport : ℤ) (p rest : List UInt8) (hp : p.length ≤ 2048)
    (hd : 0 ≤ dport ∧ dport ≤ 65535) {s : Stack} (hr : portTable.Reachable s.ports) {pg : ℕ}
    (hpg : s.phys.mem pg = sendFrame sport dst dport p ++ rest) {i : Fin NPORTS}
    (hi : findPort s.ports (portOf dport) = some i) (hc : (s.ports i).count < QUEUESIZE)
    {maxlen : ℤ} (hm : (p.length : ℤ) ≤ maxlen) :
    ∃ s', netRx s pg (p.length + 42) = some s' ∧
      (portTable.outs s'.ports
        (List.replicate ((s.ports i).count + 1) (.recv dport maxlen))).getLast? =
        some (.recv (.data p local_ip (UInt16.ofInt sport))) := by
  refine ⟨ipRxPage s pg, netRx_sendFrame sport dst dport rest (by rw [PGSIZE]; omega) hpg, ?_⟩
  -- the port table implements a mailbox state `M`; the frame goes to the end of `dport`'s box
  obtain ⟨M, -, hA⟩ := portTable_sim.reachable hr
  obtain ⟨⟨q, k⟩, hb, he⟩ := hA.box_some hi
  have hq : q.length = (s.ports i).count := he.length_queue
  have hrx : (M.rx (sendFrame sport dst dport p ++ rest)).boxes (portOf dport) =
      some ⟨q ++ [⟨p, local_ip, UInt16.ofInt sport⟩], k⟩ := by
    rw [Mailbox.rx, udpDatagram_sendFrame sport dst dport rest hp, ← portOf_eq_ofInt hd.1]
    exact Mailbox.deliver_boxes_self hb (by omega) _
  -- and the calls of `sys_recv` return what the mailbox's `recv` returns
  have hsim := (portTable_sim.run_from (List.replicate ((s.ports i).count + 1) (.recv dport maxlen))
    _ _ (hA.ipRx (sendFrame sport dst dport p ++ rest))).2
  rw [ipRxPage, hpg, hsim, ← hq, Mailbox.outs_recv_getLast? hd (by omega) q hrx,
    List.take_of_length_le (by dsimp only; omega)]

theorem send_recv_round_trip_bound_port :
    ∃ s', netRx ⟨⟨[], fun _ => sendFrame 7 0 2000 [1, 2, 3] ++ []⟩, txInit, rxInit fun _ => 0,
        portTable.run portTable.init [.bind 2000], false⟩ 0 ([1, 2, 3].length + 42) = some s' ∧
      (portTable.outs s'.ports (List.replicate ((portTable.run portTable.init [.bind 2000] 0).count + 1)
        (.recv 2000 3))).getLast? = some (.recv (.data [1, 2, 3] local_ip (UInt16.ofInt 7))) :=
  send_recv_round_trip 7 0 2000 [1, 2, 3] [] (by decide) (by decide) (Machine.Reachable.of_run _) rfl
    (i := 0) (by decide) (by decide) (by decide)

/-- A payload of 2049 bytes: `sys_send` returns `0`, and `ip_rx` drops the frame whatever the
port table holds. -/
theorem send_recv_drops_2049_bytes :
    (sysSend ⟨⟨[1], fun _ => []⟩, txInit, rxInit fun _ => 0, netinit, false⟩
        ⟨7, 0, 2000, 2049, some (List.replicate 2049 1)⟩).2 = 0 ∧
      ∀ (ports : Ports) (rest : List UInt8),
        ipRx ports (sendFrame 7 0 2000 (List.replicate 2049 1) ++ rest) = ports := by
  refine ⟨?_, fun ports rest => ipRx_sendFrame_long 7 0 2000 rest
    (by rw [List.length_replicate]; decide) (by rw [List.length_replicate]; decide) ports⟩
  have h := congrArg Prod.snd (sysSend_transmits (s := ⟨⟨[1], fun _ => []⟩, txInit,
    rxInit fun _ => 0, netinit, false⟩) rfl (by decide) 7 0 2000 (p := List.replicate 2049 1)
    (by rw [List.length_replicate]; decide))
  rw [List.length_replicate] at h
  exact h

/-! ### What `ip_rx` does not check -/

/-- **`ip_rx` trusts the UDP length field.**  For every frame that `net_rx` passes on (length at
least 34, Ethernet type IPv4) whose protocol is UDP and whose `ulen` lies in `[8, 2056]`, with
the destination port bound and room in its queue, `ip_rx` queues the `ulen - 8` bytes of the
page from offset 42, whatever the frame's length `len` and whatever its IHL field (byte 14):
neither is compared with anything. -/
theorem ip_rx_trusts_udp_length (s : Stack) (buf : ℕ) (len : ℤ) (hlen : 34 ≤ len)
    (he : ethType (s.phys.mem buf) = ETHTYPE_IP) (hp : ipP (s.phys.mem buf) = IPPROTO_UDP)
    (hu : 8 ≤ (udpUlen (s.phys.mem buf)).toNat ∧ (udpUlen (s.phys.mem buf)).toNat ≤ 2056)
    {i : Fin NPORTS} (hi : findPort s.ports (udpDport (s.phys.mem buf)) = some i)
    (hc : (s.ports i).count < QUEUESIZE) :
    ∃ s', netRx s buf len = some s' ∧ (s'.ports i).count = (s.ports i).count + 1 ∧
      ((s'.ports i).queue (s.ports i).tail).datagram =
        ⟨slice (s.phys.mem buf) 42 ((udpUlen (s.phys.mem buf)).toNat - 8),
          ipSrc (s.phys.mem buf), udpSport (s.phys.mem buf)⟩ := by
  have hdg : udpDatagram (s.phys.mem buf) = some (udpDport (s.phys.mem buf),
      ⟨slice (s.phys.mem buf) 42 ((udpUlen (s.phys.mem buf)).toNat - 8),
        ipSrc (s.phys.mem buf), udpSport (s.phys.mem buf)⟩) := by
    rw [udpDatagram, if_pos ⟨hp, hu⟩]
  have hnet : netRx s buf len = some (ipRxPage s buf) := by
    unfold netRx
    dsimp only
    rw [he, if_neg (fun h => absurd h.2 (by decide)),
      if_pos ⟨by simp only [ethSize, ipSize]; omega, rfl⟩]
  refine ⟨ipRxPage s buf, hnet, ?_⟩
  rw [ipRxPage]
  dsimp only
  rw [ipRx_enqueue hdg hi hc, Function.update_self]
  refine ⟨rfl, ?_⟩
  dsimp only
  rw [Function.update_self]
  exact Packet.datagram_fill _ (by rw [slice_length]; omega) (Int.toNat_natCast _).symm _ _

/-- A frame of 42 bytes, headers only, whose UDP length field says 108: `net_rx` passes it to
`ip_rx`, which queues a datagram of 100 bytes for port 2000, all of them from past the end of
the frame. -/
theorem ip_rx_trusts_udp_length_short_frame :
    ∃ s', netRx ⟨⟨[], fun _ => sendHeader 7 0 2000 100⟩, txInit, rxInit fun _ => 0,
        portTable.run portTable.init [.bind 2000], false⟩ 0 42 = some s' ∧
      (s'.ports 0).count = 1 ∧ ((s'.ports 0).queue 0).datagram.payload.length = 100 := by
  obtain ⟨-, he, hp, -, -, hd, hu⟩ := sendHeader_fields 7 0 2000 100
  have hu' : (udpUlen (sendHeader 7 0 2000 100)).toNat = 108 := by
    rw [hu, toNat_uint16_ofInt]
    rfl
  obtain ⟨s', hn, hc, hq⟩ := ip_rx_trusts_udp_length ⟨⟨[], fun _ => sendHeader 7 0 2000 100⟩,
    txInit, rxInit fun _ => 0, portTable.run portTable.init [.bind 2000], false⟩ 0 42 (by decide) he hp
    (by rw [hu']; decide) (i := 0) (by rw [hd]; decide) (by decide)
  have ht : (portTable.run portTable.init [.bind 2000] 0).tail = 0 := by decide
  refine ⟨s', hn, hc.trans (by decide), ?_⟩
  rw [← ht, hq, slice_length, hu']

end Net

end Xv6Net
