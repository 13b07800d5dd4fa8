import Xv6Net.Bio.Basic

/-!
# The virtio disk driver (`virtio_disk.c`)

The driver and the device share `NUM` descriptors and two rings.  A request of
`virtio_disk_rw(b, write)` takes three free descriptors (`alloc3Desc`), links them into a chain
(a header, the buffer's data, a status byte), writes the chain's first descriptor into the
`avail` ring and sleeps until `b->disk` is `0`; then it frees the chain (`freeChain`).  The device
takes the heads from the `avail` ring and, when it has done a request, writes the head into the
`used` ring; `virtio_disk_intr` reads the `used` ring up to the device's index and clears
`b->disk` of the buffer recorded for each head.  The ring indices are 16-bit counters that wrap;
the slot of a counter is its value modulo `NUM`.

The model keeps the fields the driver reads back: of a descriptor its `flags` and `next` (the
device reads `addr` and `len`), of `disk.info` the buffer and the status.  Buffers are those of
the buffer cache (`Bio.NBUF`); one process at a time does a request on a buffer, since it holds
the buffer's sleep-lock.

`Virtio.vdiskMachine` runs the processes' critical sections under `vdisk_lock`, device steps and
interrupts in any interleaving.  Each process is in a `Phase`: outside the driver, asleep until
three descriptors are free, or asleep until its request is done, with the three descriptors it
took (the local array `idx`).  A sleeping process may be woken at any time.  The device
completes the requests it has taken in any order, with status `0`.  A `panic` stops the machine.
-/

namespace Xv6Net

namespace Virtio

open Bio (NBUF)

def NUM : ℕ := 8

instance : NeZero NUM := ⟨by decide⟩

def VRING_DESC_F_NEXT : UInt16 := 1

def VRING_DESC_F_WRITE : UInt16 := 2

/-- The fields of `struct virtq_desc` that the driver reads back. -/
structure Desc where
  flags : UInt16
  next : UInt16
  deriving DecidableEq, Repr

/-- `disk.info[i]`: the buffer of the request whose chain starts at descriptor `i`, and the
status byte the device writes. -/
structure Info where
  b : Option (Fin NBUF)
  status : UInt8
  deriving DecidableEq, Repr

/-- `struct virtq_avail`. -/
structure Avail where
  idx : UInt16
  ring : Fin NUM → UInt16

/-- `struct virtq_used`, with the `id` of each `virtq_used_elem`. -/
structure Used where
  idx : UInt16
  ring : Fin NUM → UInt32

/-- `disk` without its lock and command headers, and `b->disk` of every buffer. -/
structure Disk where
  desc : Fin NUM → Desc
  avail : Avail
  used : Used
  free : Fin NUM → Bool
  usedIdx : UInt16
  info : Fin NUM → Info
  bdisk : Fin NBUF → Bool

/-- The slot of a ring counter. -/
def slotOf (c : UInt16) : Fin NUM := ⟨c.toNat % NUM, Nat.mod_lt _ (by decide)⟩

/-- `virtio_disk_init`: everything zero, every descriptor free. -/
def diskInit : Disk :=
  ⟨fun _ => ⟨0, 0⟩, ⟨0, fun _ => 0⟩, ⟨0, fun _ => 0⟩, fun _ => true, 0, fun _ => ⟨none, 0⟩,
    fun _ => false⟩

/-- `alloc_desc()`: the first free descriptor, now not free. -/
def allocDesc (d : Disk) : Option (Fin NUM) × Disk :=
  match (List.finRange NUM).find? d.free with
  | some i => (some i, { d with free := Function.update d.free i false })
  | none => (none, d)

/-- `free_desc(i)`; `none` for its panics, on a descriptor out of range or already free. -/
def freeDesc (d : Disk) (i : ℕ) : Option Disk :=
  if h : i < NUM then
    let j : Fin NUM := ⟨i, h⟩
    if d.free j then none
    else some { d with desc := Function.update d.desc j ⟨0, 0⟩, free := Function.update d.free j true }
  else none

/-- `free_chain(i)`, with at most `n` rounds: each round frees a descriptor that was not free or
panics, so `NUM + 1` rounds are never all used. -/
def freeChain : ℕ → ℕ → Disk → Option Disk
  | 0, _, _ => none
  | n + 1, i, d =>
    match freeDesc d i with
    | none => none
    | some d' =>
      -- `flag` and `nxt` are read before `free_desc` clears them
      if (d.desc ⟨i % NUM, Nat.mod_lt _ (by decide)⟩).flags &&& VRING_DESC_F_NEXT ≠ 0 then
        freeChain n (d.desc ⟨i % NUM, Nat.mod_lt _ (by decide)⟩).next.toNat d'
      else some d'

/-- The loop of `alloc3_desc`: `k` more descriptors to take after those in `idx`; on failure the
ones taken are given back.  The outer `none` is a panic of `free_desc`. -/
def alloc3Loop : ℕ → List (Fin NUM) → Disk → Option (Option (List (Fin NUM)) × Disk)
  | 0, idx, d => some (some idx, d)
  | k + 1, idx, d =>
    match allocDesc d with
    | (some i, d) => alloc3Loop k (idx ++ [i]) d
    | (none, d) => (idx.foldlM (fun d j => freeDesc d j.val) d).map fun d => (none, d)

/-- `alloc3_desc(idx)`. -/
def alloc3Desc (d : Disk) : Option (Option (List (Fin NUM)) × Disk) := alloc3Loop 3 [] d

/-- `virtio_disk_rw(b, write)` from the formatting of the three descriptors `i0`, `i1`, `i2` to
the notification of the device. -/
def submit (d : Disk) (b : Fin NBUF) (write : Bool) (i0 i1 i2 : Fin NUM) : Disk :=
  let desc := Function.update d.desc i0 ⟨VRING_DESC_F_NEXT, i1.val.toUInt16⟩
  let desc := Function.update desc i1
    ⟨(if write then 0 else VRING_DESC_F_WRITE) ||| VRING_DESC_F_NEXT, i2.val.toUInt16⟩
  let info := Function.update d.info i0 { d.info i0 with status := 0xff }
  let desc := Function.update desc i2 ⟨VRING_DESC_F_WRITE, 0⟩
  let info := Function.update info i0 { info i0 with b := some b }
  { d with desc := desc, info := info, bdisk := Function.update d.bdisk b true,
           avail := ⟨d.avail.idx + 1, Function.update d.avail.ring (slotOf d.avail.idx) i0.val.toUInt16⟩ }

/-- The loop of `virtio_disk_intr`, with at most `n` rounds: the buffers whose `b->disk` it
clears, in order; `none` for `panic("virtio_disk_intr status")` or a head with no buffer. -/
def intrLoop : ℕ → Disk → Option (Disk × List (Fin NBUF))
  | 0, d => some (d, [])
  | n + 1, d =>
    if d.usedIdx = d.used.idx then some (d, [])
    else
      let id := d.used.ring (slotOf d.usedIdx)
      if h : id.toNat < NUM then
        let i : Fin NUM := ⟨id.toNat, h⟩
        if (d.info i).status ≠ 0 then none
        else
          match (d.info i).b with
          | none => none
          | some b =>
            (intrLoop n { d with bdisk := Function.update d.bdisk b false, usedIdx := d.usedIdx + 1 }).map
              fun r => (r.1, b :: r.2)
      else none

/-- `virtio_disk_intr()`: one round per entry the device has added. -/
def virtioDiskIntr (d : Disk) : Option (Disk × List (Fin NBUF)) :=
  intrLoop (d.used.idx - d.usedIdx).toNat d

/-! ### Processes and the device -/

/-- Where the process doing a request on a buffer is. -/
inductive Phase
  /-- Not in `virtio_disk_rw`. -/
  | idle
  /-- Asleep in the loop around `alloc3_desc`. -/
  | alloc (write : Bool)
  /-- Asleep until `b->disk` is `0`, with the descriptors `idx` it formatted. -/
  | wait (i0 i1 i2 : Fin NUM)
  deriving DecidableEq, Repr

/-- The driver, the processes, and the device: how far it has read the `avail` ring, and the
heads it took and has not yet completed. -/
structure Sys where
  disk : Disk
  phase : Fin NBUF → Phase
  devIdx : UInt16
  devHeld : List UInt16

/-- A step of the system. -/
inductive VOp
  /-- A process calls `virtio_disk_rw(b, write)`. -/
  | rw (b : Fin NBUF) (write : Bool)
  /-- The process asleep for descriptors, on buffer `b`, runs again. -/
  | retry (b : Fin NBUF)
  /-- The process asleep on buffer `b` until its request is done runs again. -/
  | wake (b : Fin NBUF)
  /-- The device takes the next entry of the `avail` ring. -/
  | take
  /-- The device completes the `k`-th request it holds. -/
  | complete (k : ℕ)
  /-- `virtio_disk_intr()`. -/
  | intr
  deriving DecidableEq, Repr

/-- What a step does. -/
inductive VEv
  | submitted (b : Fin NBUF) (i0 : Fin NUM)
  | sleeping
  | finished (b : Fin NBUF)
  | took (head : UInt16)
  | completed (head : UInt16)
  | cleared (bs : List (Fin NBUF))
  | refused
  deriving DecidableEq, Repr

/-- `alloc3_desc` and what follows it in `virtio_disk_rw`: submitted, or asleep. -/
def tryAlloc (s : Sys) (b : Fin NBUF) (write : Bool) : Option (Sys × VEv) :=
  match alloc3Desc s.disk with
  | none => none
  | some (some [i0, i1, i2], d) =>
    some ({ s with disk := submit d b write i0 i1 i2, phase := Function.update s.phase b (.wait i0 i1 i2) },
      .submitted b i0)
  | some (_, d) => some ({ s with disk := d, phase := Function.update s.phase b (.alloc write) }, .sleeping)

def vdiskStep (s : Sys) : VOp → Option (Sys × VEv)
  | .rw b write => if s.phase b = .idle then tryAlloc s b write else some (s, .refused)
  | .retry b =>
    match s.phase b with
    | .alloc write => tryAlloc s b write
    | _ => some (s, .refused)
  | .wake b =>
    match s.phase b with
    | .wait i0 _ _ =>
      if s.disk.bdisk b then some (s, .sleeping)
      else
        let d := { s.disk with info := Function.update s.disk.info i0 { s.disk.info i0 with b := none } }
        (freeChain (NUM + 1) i0.val d).map fun d =>
          ({ s with disk := d, phase := Function.update s.phase b .idle }, .finished b)
    | _ => some (s, .refused)
  | .take =>
    if s.devIdx = s.disk.avail.idx then some (s, .refused)
    else
      let head := s.disk.avail.ring (slotOf s.devIdx)
      some ({ s with devIdx := s.devIdx + 1, devHeld := s.devHeld ++ [head] }, .took head)
  | .complete k =>
    match s.devHeld[k]? with
    | some head =>
      if h : head.toNat < NUM then
        let i : Fin NUM := ⟨head.toNat, h⟩
        let d := s.disk
        -- the device writes the status byte, then the `used` entry
        let d := { d with info := Function.update d.info i { d.info i with status := 0 } }
        let d := { d with used := ⟨d.used.idx + 1, Function.update d.used.ring (slotOf d.used.idx) head.toUInt32⟩ }
        some ({ s with disk := d, devHeld := s.devHeld.eraseIdx k }, .completed head)
      else some (s, .refused)
    | none => some (s, .refused)
  | .intr =>
    (virtioDiskIntr s.disk).map fun r => ({ s with disk := r.1 }, .cleared r.2)

/-- The driver from `virtio_disk_init`, with every process outside it and the device idle. -/
def vdiskMachine : Machine (Option Sys) VOp (Option VEv) :=
  Machine.ofPartial ⟨diskInit, fun _ => .idle, 0, []⟩ vdiskStep

end Virtio

end Xv6Net
