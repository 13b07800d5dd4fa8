import Xv6Net.Net.Ports
import Mathlib.Data.Fintype.Card
import Mathlib.Data.FinEnum

/-!
# Mailboxes: what the port table is for

The abstract view of UDP reception.  A `Mailbox` maps each bound 16-bit port to a *box*: the
FIFO list of datagrams that arrived for it and have not been received yet, and the number of
datagrams it had to turn away.  At most `NPORTS` ports are bound and a box holds at most
`QUEUESIZE` datagrams (`Mailbox.WF`, kept by every operation: `Mailbox.wf_of_reachable`).

* `Mailbox.bind p` adds an empty box for `p` if there is none and fewer than `NPORTS` ports are
  bound; it answers `0` if `p` ends up bound, `-1` otherwise (and for `p ∉ [0, 65535]`).
* `Mailbox.deliver d dg` appends `dg` to the box of `d` if it has room, counts a drop if it is
  full, and ignores datagrams for unbound ports.
* `Mailbox.recv p maxlen` takes the oldest datagram of `p`, handing out at most `maxlen` bytes
  of its payload, or says that the caller has to wait.

`udpDatagram` is the datagram a frame carries, stated over the frame's bytes: a UDP frame
whose length field lies in `[8, 2056]` carries the `ulen - 8` bytes after the UDP header.
`Net.Refine` proves that the port table of `net.c` implements this machine.
-/

namespace Xv6Net

namespace Net

open Bytes

/-- A datagram as its receiver sees it. -/
structure Datagram where
  payload : List UInt8
  srcIp : UInt32
  srcPort : UInt16
  deriving DecidableEq

/-- The undelivered datagrams of a port, oldest first, and how many were dropped. -/
structure Box where
  queue : List Datagram
  drops : ℕ

/-- The abstract state of UDP reception. -/
structure Mailbox where
  boxes : UInt16 → Option Box

/-- The destination port and the datagram carried by a frame, or `none` if the frame is not a
UDP datagram with a length field in `[8, 2056]`. -/
def udpDatagram (buf : List UInt8) : Option (UInt16 × Datagram) :=
  if ipP buf = IPPROTO_UDP ∧ 8 ≤ (udpUlen buf).toNat ∧ (udpUlen buf).toNat ≤ 2056 then
    some (udpDport buf, ⟨slice buf 42 ((udpUlen buf).toNat - 8), ipSrc buf, udpSport buf⟩)
  else none

namespace Mailbox

/-- No port bound. -/
def empty : Mailbox := ⟨fun _ => none⟩

/-- The bound ports. -/
def keys (M : Mailbox) : Finset UInt16 := Finset.univ.filter fun p => (M.boxes p).isSome

/-- At most `NPORTS` ports are bound and every box holds at most `QUEUESIZE` datagrams. -/
structure WF (M : Mailbox) : Prop where
  card_keys : M.keys.card ≤ NPORTS
  queue_le : ∀ p b, M.boxes p = some b → b.queue.length ≤ QUEUESIZE

/-- Bind a port. -/
def bind (M : Mailbox) (portArg : ℤ) : Mailbox × ℤ :=
  if portArg < 0 ∨ portArg > 65535 then (M, -1)
  else if (M.boxes (portOf portArg)).isSome then (M, 0)
  else if M.keys.card < NPORTS then
    (⟨Function.update M.boxes (portOf portArg) (some ⟨[], 0⟩)⟩, 0)
  else (M, -1)

/-- Hand a datagram to the box of port `d`. -/
def deliver (M : Mailbox) (d : UInt16) (dg : Datagram) : Mailbox :=
  match M.boxes d with
  | none => M
  | some b =>
    if b.queue.length < QUEUESIZE then ⟨Function.update M.boxes d (some ⟨b.queue ++ [dg], b.drops⟩)⟩
    else ⟨Function.update M.boxes d (some ⟨b.queue, b.drops + 1⟩)⟩

/-- Receive the oldest datagram of a port. -/
def recv (M : Mailbox) (portArg maxlen : ℤ) : Mailbox × RecvOut :=
  if portArg < 0 ∨ portArg > 65535 ∨ maxlen < 0 then (M, .err)
  else
    match M.boxes (portOf portArg) with
    | none => (M, .err)
    | some ⟨[], _⟩ => (M, .wait)
    | some ⟨dg :: q, d⟩ =>
      (⟨Function.update M.boxes (portOf portArg) (some ⟨q, d⟩)⟩,
        .data (dg.payload.take maxlen.toNat) dg.srcIp dg.srcPort)

/-- A frame arrives. -/
def rx (M : Mailbox) (buf : List UInt8) : Mailbox :=
  match udpDatagram buf with
  | none => M
  | some (d, dg) => M.deliver d dg

/-- One operation on the mailboxes. -/
def step (M : Mailbox) : NetOp → Mailbox × NetOut
  | .bind p => ((M.bind p).1, .bind (M.bind p).2)
  | .rx f => (M.rx f, .rx)
  | .recv p m => ((M.recv p m).1, .recv (M.recv p m).2)

end Mailbox

/-- The mailboxes as a machine. -/
def mailbox : Machine Mailbox NetOp NetOut := ⟨Mailbox.empty, Mailbox.step⟩

namespace Mailbox

variable {M : Mailbox}

theorem mem_keys {p : UInt16} : p ∈ M.keys ↔ (M.boxes p).isSome := by simp [keys]

/-- The keys after giving port `p` a box. -/
theorem keys_update_some (p : UInt16) (b : Box) :
    (Mailbox.mk (Function.update M.boxes p (some b))).keys = insert p M.keys := by
  ext q
  by_cases h : q = p
  · subst h; simp [mem_keys]
  · simp [mem_keys, h]

/-- Binding a free port while fewer than `NPORTS` are bound gives it an empty box. -/
theorem bind_fresh {p : ℤ} (hp : 0 ≤ p ∧ p ≤ 65535) (hn : M.boxes (portOf p) = none)
    (hc : M.keys.card < NPORTS) :
    (M.bind p).1 = ⟨Function.update M.boxes (portOf p) (some ⟨[], 0⟩)⟩ := by
  rw [bind, if_neg (by omega), if_neg (by simp [hn]), if_pos hc]

-- stated for rewriting: unfolding `mailbox.step` by `simp` leaves goals whose kernel check
-- evaluates `bind` on concrete mailboxes, and with it `keys` over all 65536 ports
theorem step_bind_fst (M : Mailbox) (p : ℤ) : (mailbox.step M (.bind p)).1 = (M.bind p).1 := rfl

theorem wf_empty : empty.WF := ⟨by simp [keys, empty, NPORTS], by simp [empty]⟩

theorem bind_wf (hM : M.WF) (p : ℤ) : (M.bind p).1.WF := by
  unfold bind
  split_ifs with h1 h2 h3
  · exact hM
  · exact hM
  · refine ⟨?_, fun q b hq => ?_⟩
    · rw [keys_update_some]
      exact (Finset.card_insert_le _ _).trans h3
    · by_cases hqp : q = portOf p
      · subst hqp; simp at hq; subst hq; simp
      · dsimp only at hq; rw [Function.update_of_ne hqp] at hq; exact hM.queue_le q b hq
  · exact hM

theorem deliver_wf (hM : M.WF) (d : UInt16) (dg : Datagram) : (M.deliver d dg).WF := by
  unfold deliver
  split
  · exact hM
  · rename_i b hb
    have hk : (Mailbox.mk (Function.update M.boxes d (some b))).keys = M.keys := by
      rw [keys_update_some, Finset.insert_eq_of_mem (mem_keys.2 (by simp [hb]))]
    split_ifs with hl
    · refine ⟨?_, fun q b' hq => ?_⟩
      · rw [keys_update_some, Finset.insert_eq_of_mem (mem_keys.2 (by simp [hb]))]
        exact hM.card_keys
      · by_cases hqd : q = d
        · subst hqd; simp at hq; subst hq; simp; omega
        · dsimp only at hq; rw [Function.update_of_ne hqd] at hq; exact hM.queue_le q b' hq
    · refine ⟨?_, fun q b' hq => ?_⟩
      · rw [keys_update_some, Finset.insert_eq_of_mem (mem_keys.2 (by simp [hb]))]
        exact hM.card_keys
      · by_cases hqd : q = d
        · subst hqd; simp at hq; subst hq; exact hM.queue_le q b hb
        · dsimp only at hq; rw [Function.update_of_ne hqd] at hq; exact hM.queue_le q b' hq

theorem recv_wf (hM : M.WF) (p m : ℤ) : (M.recv p m).1.WF := by
  unfold recv
  split_ifs
  · exact hM
  · split
    · exact hM
    · exact hM
    · rename_i dg q d hb
      refine ⟨?_, fun q' b' hq => ?_⟩
      · rw [keys_update_some, Finset.insert_eq_of_mem (mem_keys.2 (by simp [hb]))]
        exact hM.card_keys
      · by_cases hqp : q' = portOf p
        · subst hqp
          simp at hq; subst hq
          have := hM.queue_le _ _ hb
          simp at this ⊢; omega
        · dsimp only at hq; rw [Function.update_of_ne hqp] at hq; exact hM.queue_le q' b' hq

theorem step_wf (hM : M.WF) (op : NetOp) : (M.step op).1.WF := by
  cases op with
  | bind p => exact bind_wf hM p
  | rx f =>
    show (M.rx f).WF
    unfold rx
    split
    · exact hM
    · exact deliver_wf hM _ _
  | recv p m => exact recv_wf hM p m

/-- **Every reachable mailbox state binds at most `NPORTS` ports and holds at most `QUEUESIZE`
datagrams per port.** -/
theorem wf_of_reachable (h : mailbox.Reachable M) : M.WF :=
  Machine.Reachable.induction WF wf_empty (fun _ op hM => step_wf hM op) h

/-! ### Delivering and draining a box -/

/-- A call of `recv` on a box that holds `dg :: q` hands out `dg` and leaves `q`. -/
theorem recv_cons {p m : ℤ} (hp : 0 ≤ p ∧ p ≤ 65535) (hm : 0 ≤ m) {dg : Datagram}
    {q : List Datagram} {d : ℕ} (hb : M.boxes (portOf p) = some ⟨dg :: q, d⟩) :
    M.recv p m = (⟨Function.update M.boxes (portOf p) (some ⟨q, d⟩)⟩,
      .data (dg.payload.take m.toNat) dg.srcIp dg.srcPort) := by
  rw [recv, if_neg (by omega), hb]

/-- Receiving from a port whose box holds `dg` after the datagrams `q`: the first `q.length`
calls take those, and the next one hands out `dg`. -/
theorem outs_recv_getLast? {p m : ℤ} (hp : 0 ≤ p ∧ p ≤ 65535) (hm : 0 ≤ m) {dg : Datagram}
    {d : ℕ} (q : List Datagram) (hb : M.boxes (portOf p) = some ⟨q ++ [dg], d⟩) :
    (mailbox.outs M (List.replicate (q.length + 1) (.recv p m))).getLast? =
      some (.recv (.data (dg.payload.take m.toNat) dg.srcIp dg.srcPort)) := by
  induction q generalizing M with
  | nil =>
    rw [List.nil_append] at hb
    simp [Machine.outs, mailbox, step, recv_cons hp hm hb]
  | cons x q ih =>
    -- the first call takes `x` and leaves the rest of the box
    have hb' : (M.recv p m).1.boxes (portOf p) = some ⟨q ++ [dg], d⟩ := by
      rw [recv_cons hp hm hb]
      exact Function.update_self _ _ _
    rw [List.length_cons, List.replicate_succ, Machine.outs, List.getLast?_cons]
    change some ((mailbox.outs (M.recv p m).1 _).getLast?.getD _) = _
    rw [ih hb']
    rfl
/-- A datagram for a port whose box has room goes to the end of its box. -/
theorem deliver_boxes_self {d : UInt16} {q : List Datagram} {k : ℕ}
    (hb : M.boxes d = some ⟨q, k⟩) (hq : q.length < QUEUESIZE) (dg : Datagram) :
    (M.deliver d dg).boxes d = some ⟨q ++ [dg], k⟩ := by
  rw [deliver, hb]
  dsimp only
  rw [if_pos hq]
  exact Function.update_self _ _ _
end Mailbox

end Net

end Xv6Net
