import Xv6Net.Net.Mailbox

/-!
# The port table implements the mailboxes

`Abs ports M` relates the array `ports[]` of `net.c` to a mailbox state `M`:

* the bound entries carry pairwise distinct port numbers, and these are exactly the keys of `M`;
* every bound entry implements the box of its port (`EntryAbs`): `count ≤ QUEUESIZE`,
  `tail = (head + count) mod QUEUESIZE`, the packets in the slots `head, head + 1, …` (`count`
  of them, modulo `QUEUESIZE`) are the box's datagrams in order, each holding a payload length in
  `[0, 2048]`, and the entry's drop counter is the box's.

`portTable_sim` shows that `Abs` is a lock-step simulation of `portTable` by `mailbox` with the
same return values; `port_table_refines_mailbox` spells out what that gives along every run of
`sys_bind`, `ip_rx` and `sys_recv`.

Each kind of entry update gets its lemma once: a bound entry that keeps its port (`Abs.update`,
used by `ip_rx` and `sys_recv`, and by `sys_bind` for a fresh entry), a drop (`EntryAbs.drop`),
an append at `tail` (`EntryAbs.push`) and a removal at `head` (`EntryAbs.pop`).
-/

namespace Xv6Net

namespace Net

open Bytes RingBuf

/-- The datagram a queued packet holds. -/
def Packet.datagram (pkt : Packet) : Datagram := ⟨pkt.data.take pkt.len.toNat, pkt.srcIp, pkt.srcPort⟩

/-- A slot filled with a payload of at most 2048 bytes holds that payload as its datagram. -/
theorem Packet.datagram_fill (pkt : Packet) {payload : List UInt8} {len : ℤ}
    (hle : payload.length ≤ 2048) (hpl : payload.length = len.toNat) (ip : UInt32) (sp : UInt16) :
    (pkt.fill payload len ip sp).datagram = ⟨payload, ip, sp⟩ := by
  have hle' : payload.length ≤ pkt.data.length := by rw [pkt.data_length]; exact hle
  simp only [Packet.datagram, Packet.fill, ← hpl, take_writePrefix hle']

/-- The occupied slots of an entry, oldest first. -/
def PortEntry.pending (pe : PortEntry) : List Packet := view pe.queue pe.head pe.count

/-- A port entry implements a box. -/
structure EntryAbs (pe : PortEntry) (b : Box) : Prop where
  count_le : pe.count ≤ QUEUESIZE
  tail_eq : pe.tail = slot pe.head pe.count
  len_ok : ∀ pkt ∈ pe.pending, 0 ≤ pkt.len ∧ pkt.len ≤ 2048
  queue_eq : pe.pending.map Packet.datagram = b.queue
  drops_eq : pe.drops = b.drops

/-- The port table implements the mailbox state `M`. -/
structure Abs (ports : Ports) (M : Mailbox) : Prop where
  distinct : ∀ i j, (ports i).bound → (ports j).bound → (ports i).port = (ports j).port → i = j
  keys : ∀ p, (M.boxes p).isSome ↔ ∃ i, (ports i).bound ∧ (ports i).port = p
  entry : ∀ i, (ports i).bound → ∃ b, M.boxes (ports i).port = some b ∧ EntryAbs (ports i) b

/-! ### One entry -/

namespace EntryAbs

variable {pe : PortEntry} {b : Box}

theorem length_queue (h : EntryAbs pe b) : b.queue.length = pe.count := by
  rw [← h.queue_eq, List.length_map, PortEntry.pending, view_length]

/-- A fresh entry implements an empty box. -/
theorem fresh (pe : PortEntry) (p : UInt16) :
    EntryAbs { pe with bound := true, port := p, head := 0, tail := 0, count := 0, drops := 0 }
      ⟨[], 0⟩ :=
  ⟨by simp, by simp, by simp [PortEntry.pending], by simp [PortEntry.pending], rfl⟩

/-- A datagram turned away from a full queue is counted. -/
theorem drop (h : EntryAbs pe b) : EntryAbs { pe with drops := pe.drops + 1 } ⟨b.queue, b.drops + 1⟩ :=
  ⟨h.count_le, h.tail_eq, h.len_ok, h.queue_eq, by simp [h.drops_eq]⟩

/-- **Writing the slot at `tail` appends to the box.** -/
theorem push (h : EntryAbs pe b) (hc : pe.count < QUEUESIZE) {payload : List UInt8} {len : ℤ}
    (hlen : 0 ≤ len ∧ len ≤ 2048) (hpl : payload.length = len.toNat) (ip : UInt32) (sp : UInt16) :
    EntryAbs
      { pe with
        queue := Function.update pe.queue pe.tail ((pe.queue pe.tail).fill payload len ip sp)
        tail := pe.tail + 1
        count := pe.count + 1 }
      ⟨b.queue ++ [⟨payload, ip, sp⟩], b.drops⟩ := by
  have hview : view (Function.update pe.queue pe.tail ((pe.queue pe.tail).fill payload len ip sp))
      pe.head (pe.count + 1) = pe.pending ++ [(pe.queue pe.tail).fill payload len ip sp] := by
    rw [h.tail_eq, view_push _ _ _ hc]; rfl
  have hdg := (pe.queue pe.tail).datagram_fill (by omega) hpl ip sp
  refine ⟨by dsimp only; omega, by rw [h.tail_eq, slot_succ], ?_, ?_, h.drops_eq⟩
  · intro pkt hpkt
    simp only [PortEntry.pending, hview, List.mem_append, List.mem_singleton] at hpkt
    rcases hpkt with hpkt | rfl
    · exact h.len_ok pkt hpkt
    · exact hlen
  · rw [← h.queue_eq]
    simp only [PortEntry.pending, hview, List.map_append, List.map_cons, List.map_nil, hdg]

/-- **Advancing `head` removes the oldest datagram of the box.** -/
theorem pop (h : EntryAbs pe b) (hc : pe.count ≠ 0) :
    b.queue = (pe.queue pe.head).datagram :: b.queue.tail ∧
      EntryAbs { pe with head := pe.head + 1, count := pe.count - 1 } ⟨b.queue.tail, b.drops⟩ := by
  obtain ⟨k, hk⟩ : ∃ k, pe.count = k + 1 := ⟨pe.count - 1, by omega⟩
  have hview : pe.pending = pe.queue pe.head :: view pe.queue (pe.head + 1) k := by
    rw [PortEntry.pending, hk, view_pop]
  have hq : b.queue = (pe.queue pe.head).datagram :: (view pe.queue (pe.head + 1) k).map
      Packet.datagram := by
    rw [← h.queue_eq, hview, List.map_cons]
  refine ⟨by rw [hq, List.tail_cons], ⟨by have := h.count_le; dsimp only; omega, ?_, ?_, ?_,
    h.drops_eq⟩⟩
  · simp only [hk, Nat.add_sub_cancel, slot_add_one]
    exact h.tail_eq.trans (by rw [hk])
  · intro pkt hpkt
    simp only [PortEntry.pending, hk, Nat.add_sub_cancel] at hpkt
    exact h.len_ok pkt (by rw [hview]; exact List.mem_cons_of_mem _ hpkt)
  · simp [PortEntry.pending, hk, hq]

/-- The oldest queued packet holds a payload length. -/
theorem head_len_ok (h : EntryAbs pe b) (hc : pe.count ≠ 0) :
    0 ≤ (pe.queue pe.head).len ∧ (pe.queue pe.head).len ≤ 2048 := by
  obtain ⟨k, hk⟩ : ∃ k, pe.count = k + 1 := ⟨pe.count - 1, by omega⟩
  apply h.len_ok
  rw [PortEntry.pending, hk, view_pop]
  exact List.mem_cons_self

end EntryAbs

/-! ### The whole table -/

namespace Abs

variable {ports : Ports} {M : Mailbox}

/-- The bound ports are the images of the bound entries. -/
theorem keys_eq (h : Abs ports M) :
    M.keys = (Finset.univ.filter fun i => (ports i).bound).image fun i => (ports i).port := by
  ext p
  simp [Mailbox.mem_keys, h.keys p]

/-- As many ports are bound as entries. -/
theorem card_keys (h : Abs ports M) :
    M.keys.card = (Finset.univ.filter fun i => (ports i).bound).card := by
  rw [h.keys_eq, Finset.card_image_of_injOn]
  intro i hi j hj e
  simp only [Finset.coe_filter, Finset.mem_univ, true_and, Set.mem_ofPred_eq] at hi hj
  exact h.distinct i j hi hj e

theorem box_none (h : Abs ports M) {p : UInt16} (hp : findPort ports p = none) :
    M.boxes p = none := by
  rw [← Option.not_isSome_iff_eq_none, h.keys p]
  rintro ⟨i, hb, rfl⟩
  exact findPort_none hp i hb rfl

theorem box_some (h : Abs ports M) {p : UInt16} {i : Fin NPORTS} (hp : findPort ports p = some i) :
    ∃ b, M.boxes p = some b ∧ EntryAbs (ports i) b := by
  obtain ⟨hb, rfl⟩ := findPort_some hp
  exact h.entry i hb

/-- The oldest datagram of a box is the packet at the head of the entry bound to the port, and
that packet's `len` is the length of the datagram's payload. -/
theorem head_of_box (h : Abs ports M) {p : UInt16} {dg : Datagram} {q : List Datagram} {d : ℕ}
    (hb : M.boxes p = some ⟨dg :: q, d⟩) :
    ∃ i, findPort ports p = some i ∧ (ports i).count = q.length + 1 ∧
      ((ports i).queue (ports i).head).datagram = dg ∧
      ((ports i).queue (ports i).head).len = dg.payload.length := by
  obtain ⟨i, hbi, rfl⟩ := (h.keys p).1 (by simp [hb])
  have hf : findPort ports (ports i).port = some i := (findPort_eq_some_iff h.distinct).2 ⟨hbi, rfl⟩
  obtain ⟨b, hb', he⟩ := h.entry i hbi
  rw [hb, Option.some.injEq] at hb'
  subst hb'
  have hc : (ports i).count = q.length + 1 := by rw [← he.length_queue]; rfl
  obtain ⟨hq, -⟩ := he.pop (by omega)
  obtain ⟨hl0, hl2⟩ := he.head_len_ok (by omega)
  have hdg : ((ports i).queue (ports i).head).datagram = dg := (List.cons.inj hq).1.symm
  refine ⟨i, hf, hc, hdg, ?_⟩
  -- the payload is `data` cut at `len`, and `data` has all 2048 bytes
  rw [← hdg, Packet.datagram, List.length_take, ((ports i).queue (ports i).head).data_length]
  omega

/-- **Replacing one entry.**  If the new entry is bound, its port clashes with no other bound
entry, and it keeps the port of the old entry when that was bound, then the table implements
the mailbox state with the new entry's box in place. -/
theorem update (h : Abs ports M) {i : Fin NPORTS} {pe : PortEntry} {b : Box} (hb : pe.bound)
    (hfree : ∀ j, j ≠ i → (ports j).bound → (ports j).port ≠ pe.port)
    (hold : (ports i).bound → (ports i).port = pe.port) (he : EntryAbs pe b) :
    Abs (Function.update ports i pe) ⟨Function.update M.boxes pe.port (some b)⟩ := by
  refine ⟨fun j k hj hk e => ?_, fun q => ?_, fun j hj => ?_⟩
  · by_cases hji : j = i
    · by_cases hki : k = i
      · rw [hji, hki]
      · subst hji
        simp only [Function.update_self, Function.update_of_ne hki] at hj hk e
        exact absurd e.symm (hfree k hki hk)
    · by_cases hki : k = i
      · subst hki
        simp only [Function.update_self, Function.update_of_ne hji] at hj hk e
        exact absurd e (hfree j hji hj)
      · simp only [Function.update_of_ne hji, Function.update_of_ne hki] at hj hk e
        exact h.distinct j k hj hk e
  · by_cases hq : q = pe.port
    · subst hq
      simp only [Function.update_self, Option.isSome_some, true_iff]
      exact ⟨i, by simp [hb]⟩
    · simp only [Function.update_of_ne hq]
      rw [h.keys q]
      constructor
      · rintro ⟨j, hj, rfl⟩
        have hji : j ≠ i := fun e => hq (hold (e ▸ hj) ▸ e ▸ rfl)
        exact ⟨j, by simp [Function.update_of_ne hji, hj]⟩
      · rintro ⟨j, hj, rfl⟩
        by_cases hji : j = i
        · subst hji; simp at hq
        · exact ⟨j, by simpa [Function.update_of_ne hji] using hj⟩
  · by_cases hji : j = i
    · subst hji
      exact ⟨b, by simp, by simpa using he⟩
    · simp only [Function.update_of_ne hji] at hj ⊢
      obtain ⟨b', hb', he'⟩ := h.entry j hj
      exact ⟨b', by rw [Function.update_of_ne (hfree j hji hj)]; exact hb', he'⟩

/-- The variant of `update` for a bound entry that keeps its port. -/
theorem update_bound (h : Abs ports M) {i : Fin NPORTS} (hi : (ports i).bound) {pe : PortEntry}
    {b : Box} (hb : pe.bound) (hp : pe.port = (ports i).port) (he : EntryAbs pe b) :
    Abs (Function.update ports i pe) ⟨Function.update M.boxes (ports i).port (some b)⟩ := by
  rw [← hp]
  refine h.update hb (fun j hji hj e => hji (h.distinct j i hj hi (e.trans hp))) (fun _ => hp.symm) he

end Abs

/-! ### The three operations -/

/-- The datagram of a frame `ip_rx` accepts, read as `ip_rx` reads it. -/
theorem udpDatagram_of_accept {buf : List UInt8} (hp : ipP buf = IPPROTO_UDP)
    (hl : ¬(payloadLenOf (udpUlen buf) < 0 ∨ payloadLenOf (udpUlen buf) > 2048)) :
    udpDatagram buf = some (udpDport buf,
      ⟨slice buf (ethSize + ipSize + udpSize) (payloadLenOf (udpUlen buf)).toNat, ipSrc buf,
        udpSport buf⟩) := by
  rw [payloadLenOf_eq] at hl ⊢
  have hlen : ((udpUlen buf).toNat : ℤ) - 8 = (((udpUlen buf).toNat - 8 : ℕ) : ℤ) := by omega
  rw [udpDatagram, if_pos ⟨hp, by omega, by omega⟩, hlen, Int.toNat_natCast]
  rfl

/-- The frames `ip_rx` drops before looking at the table carry no datagram. -/
theorem udpDatagram_of_drop {buf : List UInt8}
    (h : ipP buf ≠ IPPROTO_UDP ∨ payloadLenOf (udpUlen buf) < 0 ∨ payloadLenOf (udpUlen buf) > 2048) :
    udpDatagram buf = none := by
  rw [payloadLenOf_eq] at h
  rw [udpDatagram, if_neg]
  rintro ⟨hp, hl⟩
  rcases h with h | h
  · exact h hp
  · omega

/-- **`ip_rx` on a frame carrying `dg` for a port whose entry has room** writes `dg` at `tail`
and advances `tail` and `count`. -/
theorem ipRx_enqueue {ports : Ports} {buf : List UInt8} {d : UInt16} {dg : Datagram}
    (hu : udpDatagram buf = some (d, dg)) {i : Fin NPORTS} (hf : findPort ports d = some i)
    (hc : (ports i).count < QUEUESIZE) :
    Net.ipRx ports buf = Function.update ports i
      { ports i with
        queue := Function.update (ports i).queue (ports i).tail
          (((ports i).queue (ports i).tail).fill dg.payload dg.payload.length dg.srcIp dg.srcPort)
        tail := (ports i).tail + 1
        count := (ports i).count + 1 } := by
  unfold udpDatagram at hu
  split_ifs at hu with hcond
  obtain ⟨hp, h8, h2056⟩ := hcond
  simp only [Option.some.injEq, Prod.mk.injEq] at hu
  obtain ⟨rfl, rfl⟩ := hu
  have hl : payloadLenOf (udpUlen buf) = (((udpUlen buf).toNat - 8 : ℕ) : ℤ) := by
    rw [payloadLenOf_eq]; omega
  unfold Net.ipRx
  rw [if_neg (not_not.2 hp)]
  dsimp only
  rw [if_neg (by rw [hl]; omega), hf]
  dsimp only
  rw [if_neg (by omega), hl, Int.toNat_natCast, slice_length]
  rfl

/-- `copy_len = min(pkt->len, maxlen)` bytes of the packet are its payload cut at `maxlen`. -/
theorem take_copyLen (data : List UInt8) {len m : ℤ} (hl : 0 ≤ len) (hm : 0 ≤ m) :
    data.take (if len < m then len else m).toNat = (data.take len.toNat).take m.toNat := by
  rw [List.take_take]
  congr 1
  split_ifs <;> omega

theorem abs_netinit : Abs netinit Mailbox.empty :=
  ⟨fun i _ hi => by simp [netinit] at hi, fun p => by simp [netinit, Mailbox.empty],
    fun i hi => by simp [netinit] at hi⟩

namespace Abs

variable {ports : Ports} {M : Mailbox}

/-- **`sys_bind` implements `Mailbox.bind`.** -/
theorem sysBind (h : Abs ports M) (p : ℤ) :
    Abs (Net.sysBind ports p).1 (M.bind p).1 ∧ (Net.sysBind ports p).2 = (M.bind p).2 := by
  unfold Net.sysBind Mailbox.bind
  by_cases hr : p < 0 ∨ p > 65535
  · simp only [hr, if_true, and_true]; exact h
  simp only [hr, if_false]
  cases hf : findPort ports (portOf p) with
  | some i =>
    -- the port is bound already
    have hs : (M.boxes (portOf p)).isSome := (h.keys _).2 ⟨i, findPort_some hf⟩
    simp only [hs, if_true, and_true]; exact h
  | none =>
    have hn : M.boxes (portOf p) = none := h.box_none hf
    simp only [hn, Option.isSome_none, Bool.false_eq_true, if_false]
    cases hfr : findFree ports with
    | some i =>
      have hi : (ports i).bound = false := findFree_some hfr
      have hlt : M.keys.card < NPORTS := by
        rw [h.card_keys]
        calc (Finset.univ.filter fun j => (ports j).bound).card
            < (Finset.univ : Finset (Fin NPORTS)).card := by
              apply Finset.card_lt_card
              refine Finset.ssubset_iff_subset_ne.2 ⟨Finset.filter_subset _ _, fun e => ?_⟩
              have := e ▸ Finset.mem_univ i
              simp [hi] at this
          _ = NPORTS := Finset.card_fin _
      simp only [hlt, if_true, and_true]
      exact h.update rfl (fun j _ hj => findPort_none hf j hj) (fun hb => by simp [hi] at hb)
        (EntryAbs.fresh _ _)
    | none =>
      -- every entry is bound, so are `NPORTS` ports
      have hfull : M.keys.card = NPORTS := by
        rw [h.card_keys, Finset.filter_true_of_mem (fun i _ => findFree_none hfr i),
          Finset.card_univ, Fintype.card_fin]
      simp only [hfull, lt_irrefl, if_false, and_true]
      exact h

/-- **`ip_rx` implements the arrival of a frame.** -/
theorem ipRx (h : Abs ports M) (buf : List UInt8) : Abs (Net.ipRx ports buf) (M.rx buf) := by
  unfold Net.ipRx Mailbox.rx
  by_cases hp : ipP buf ≠ IPPROTO_UDP
  · rw [if_pos hp, udpDatagram_of_drop (Or.inl hp)]; exact h
  rw [if_neg hp]
  dsimp only
  by_cases hl : payloadLenOf (udpUlen buf) < 0 ∨ payloadLenOf (udpUlen buf) > 2048
  · rw [if_pos hl, udpDatagram_of_drop (Or.inr hl)]; exact h
  rw [if_neg hl, udpDatagram_of_accept (not_not.1 hp) hl]
  dsimp only
  cases hf : findPort ports (udpDport buf) with
  | none =>
    rw [Mailbox.deliver, h.box_none hf]
    exact h
  | some i =>
    obtain ⟨b, hb, he⟩ := h.box_some hf
    obtain ⟨hbi, hpi⟩ := findPort_some hf
    dsimp only
    rw [Mailbox.deliver, hb]
    dsimp only
    rw [he.length_queue, ← hpi]
    by_cases hc : (ports i).count ≥ QUEUESIZE
    · rw [if_pos hc, if_neg (by omega)]
      exact h.update_bound hbi hbi rfl he.drop
    · rw [if_neg hc, if_pos (by omega)]
      have hlen : 0 ≤ payloadLenOf (udpUlen buf) ∧ payloadLenOf (udpUlen buf) ≤ 2048 := by omega
      exact h.update_bound hbi hbi rfl (he.push (by omega) hlen (slice_length _ _ _) _ _)

/-- **`sys_recv` implements `Mailbox.recv`.** -/
theorem sysRecv (h : Abs ports M) (p m : ℤ) :
    Abs (Net.sysRecv ports p m).1 (M.recv p m).1 ∧ (Net.sysRecv ports p m).2 = (M.recv p m).2 := by
  unfold Net.sysRecv recvDequeue Mailbox.recv
  by_cases hr : p < 0 ∨ p > 65535 ∨ m < 0
  · simp only [hr, if_true, and_true]; exact h
  simp only [hr, if_false]
  cases hf : findPort ports (portOf p) with
  | none =>
    simp only [h.box_none hf, and_true]; exact h
  | some i =>
    obtain ⟨⟨bq, bd⟩, hb, he⟩ := h.box_some hf
    obtain ⟨hbi, hpi⟩ := findPort_some hf
    rw [hb]
    by_cases hc : (ports i).count = 0
    · -- an empty queue: the caller waits
      have : bq = [] := List.eq_nil_of_length_eq_zero (he.length_queue.trans hc)
      subst this
      simp only [hc, if_true, and_true]; exact h
    · obtain ⟨hq, he'⟩ := he.pop hc
      obtain ⟨hl0, -⟩ := he.head_len_ok hc
      rcases bq with _ | ⟨dg, q⟩
      · exact absurd he.length_queue.symm (by simpa using hc)
      simp only [List.cons.injEq, List.tail_cons] at hq he'
      obtain ⟨rfl, -⟩ := hq
      simp only [hc, if_false]
      refine ⟨?_, ?_⟩
      · rw [← hpi]
        exact h.update_bound hbi hbi rfl he'
      · simp only [recvCopy, Function.update_self, Packet.datagram, RecvOut.data.injEq, and_true]
        exact take_copyLen _ hl0 (by omega)

end Abs

/-- `Abs` is a lock-step simulation of the port table by the mailboxes, with equal results. -/
theorem portTable_sim : Machine.Sim portTable mailbox Abs := by
  refine ⟨abs_netinit, fun ports M op h => ?_⟩
  cases op with
  | bind p =>
    obtain ⟨h1, h2⟩ := h.sysBind p
    exact ⟨h1, by simp [portTable, mailbox, netStep, Mailbox.step, h2]⟩
  | rx f => exact ⟨h.ipRx f, rfl⟩
  | recv p m =>
    obtain ⟨h1, h2⟩ := h.sysRecv p m
    exact ⟨h1, by simp [portTable, mailbox, netStep, Mailbox.step, h2]⟩

/-- **The UDP port table refines the mailboxes.**  After every sequence of `sys_bind`, `ip_rx`
(on any frame) and `sys_recv` calls, `ports[]` implements the mailbox state reached by the same
sequence: the bound entries have distinct ports which are the keys, and each bound entry has
`count ≤ 16`, `tail = (head + count) mod 16` and its queued datagrams in order.  That mailbox
state has at most 32 keys and at most 16 datagrams per key, and every call returned what the
mailbox operation returns. -/
theorem port_table_refines_mailbox (ops : List NetOp) :
    Abs (portTable.run portTable.init ops) (mailbox.run mailbox.init ops) ∧
      (mailbox.run mailbox.init ops).WF ∧
      portTable.outs portTable.init ops = mailbox.outs mailbox.init ops :=
  ⟨(portTable_sim.run ops).1, Mailbox.wf_of_reachable (.of_run ops), (portTable_sim.run ops).2⟩

end Net

end Xv6Net
