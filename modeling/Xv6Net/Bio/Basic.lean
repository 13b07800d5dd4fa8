import Mathlib.Data.List.FinRange
import Xv6Net.DList.Basic
import Xv6Net.Machine.Basic
import Xv6Net.Fs.Log

/-!
# The buffer cache (`bio.c`)

`bcache` is an array of `NBUF` buffers threaded, through their `prev` and `next` fields, into one
circular doubly linked list through the sentinel `bcache.head`.  The nodes are `Ptr`s, and the
two fields of every node are the `DList.Links` of the cache; the operations are written with the
statements of the C code (`DList.Links.pushFront`, `DList.Links.unlink`, `DList.findFrom`).

* `binit` pushes `buf[0]`, …, `buf[NBUF-1]` in front in turn.
* `bget dev blockno` walks `next` from `head.next` for a buffer holding the block, taking one
  more reference to it; failing that, it walks `prev` from `head.prev` for a buffer with
  `refcnt == 0` and recycles it; failing that, it panics (`none`).
* `bread` is `bget` followed by the disk read when the buffer is not valid.
* `brelse` drops a reference, and moves the buffer to the front when none is left; `bpin` and
  `bunpin` add and drop one without moving it.

The data of the buffers, their sleep-locks and the `disk` flag are left out: no decision of the
cache depends on them.  The loops of `bget` are bounded by `NBUF + 1` rounds, which is enough on
the ring of `NBUF` buffers that every reachable cache has (`Bio.bcache_invariants`).

The cache is used through `Bio.Ops.step`: the callers' references (`Held.refs`, one per `bread`
not yet released) and the log's pins (`Held.pins`) are kept beside the cache, so that the
interface's rules can be stated.  `brelse` by a caller that holds no reference fails its
`holdingsleep` check and panics; a `bpin` or `bunpin` outside the log's use of them is refused.
-/

namespace Xv6Net

namespace Bio

open DList

/-- `param.h`: the number of buffers. -/
def NBUF : ℕ := Fs.MAXOPBLOCKS * 3

instance : NeZero NBUF := ⟨by decide⟩

/-- A node of the list: `&bcache.head` or `&bcache.buf[i]`. -/
inductive Ptr
  | head
  | buf (i : Fin NBUF)
  deriving DecidableEq, Repr

/-- The fields of `struct buf` that the cache reads and writes. -/
structure Buf where
  valid : Bool
  dev : UInt32
  blockno : UInt32
  refcnt : UInt32
  deriving DecidableEq, Repr

/-- `b->dev == dev && b->blockno == blockno`. -/
def Buf.holds (b : Buf) (dev blockno : UInt32) : Bool := b.dev == dev && b.blockno == blockno

/-- `bcache` without its lock: the buffers, and the `prev` and `next` fields of the buffers and
of `bcache.head`. -/
structure Bcache where
  buf : Fin NBUF → Buf
  links : Links Ptr

namespace Bcache

/-- Overwrite the fields of buffer `i`. -/
def set (c : Bcache) (i : Fin NBUF) (b : Buf) : Bcache :=
  { c with buf := Function.update c.buf i b }

/-- The test of the first loop of `bget`. -/
def cached (c : Bcache) (dev blockno : UInt32) : Ptr → Bool
  | .head => false
  | .buf i => (c.buf i).holds dev blockno

/-- `b->refcnt == 0`. -/
def unused (c : Bcache) : Ptr → Bool
  | .head => false
  | .buf i => (c.buf i).refcnt == 0

end Bcache

/-- `binit()`, on the zeroed `bcache` of the kernel image: `head` points at itself, and each buffer
in turn, from `buf[0]`, is pushed in front (the buffers' own fields are all overwritten). -/
def binit : Bcache :=
  (List.finRange NBUF).foldl (fun c i => { c with links := c.links.pushFront .head (.buf i) })
    ⟨fun _ => ⟨false, 0, 0, 0⟩, ⟨fun _ => .head, fun _ => .head⟩⟩

/-- `bget(dev, blockno)`: the buffer it returns and the cache after, or `none` for
`panic("bget: no buffers")`. -/
def bget (c : Bcache) (dev blockno : UInt32) : Option (Fin NBUF × Bcache) :=
  -- Is the block already cached?
  match findFrom c.links.nx .head (c.cached dev blockno) (NBUF + 1) (c.links.nx .head) with
  | some (.buf i) => some (i, c.set i { c.buf i with refcnt := (c.buf i).refcnt + 1 })
  | _ =>
    -- Not cached: recycle the unused buffer nearest the tail.
    match findFrom c.links.pv .head c.unused (NBUF + 1) (c.links.pv .head) with
    | some (.buf i) => some (i, c.set i ⟨false, dev, blockno, 1⟩)
    | _ => none

/-- `bread(dev, blockno)`: `bget`, then `virtio_disk_rw(b, 0)` and `b->valid = 1` when the buffer
is not valid. -/
def bread (c : Bcache) (dev blockno : UInt32) : Option (Fin NBUF × Bcache) :=
  (bget c dev blockno).map fun (i, c) =>
    if (c.buf i).valid then (i, c) else (i, c.set i { c.buf i with valid := true })

/-- `brelse(b)` after its `holdingsleep` check. -/
def brelse (c : Bcache) (i : Fin NBUF) : Bcache :=
  let c := c.set i { c.buf i with refcnt := (c.buf i).refcnt - 1 }
  if (c.buf i).refcnt = 0 then
    -- no one is waiting for it: move it to the head of the list
    { c with links := (c.links.unlink (.buf i)).pushFront .head (.buf i) }
  else c

/-- `bpin(b)`. -/
def bpin (c : Bcache) (i : Fin NBUF) : Bcache :=
  c.set i { c.buf i with refcnt := (c.buf i).refcnt + 1 }

/-- `bunpin(b)`. -/
def bunpin (c : Bcache) (i : Fin NBUF) : Bcache :=
  c.set i { c.buf i with refcnt := (c.buf i).refcnt - 1 }

/-! ### The interface -/

/-- A call on the cache. -/
inductive BioOp
  /-- `bread(dev, blockno)`. -/
  | read (dev blockno : UInt32)
  /-- `brelse(&buf[i])`. -/
  | release (i : Fin NBUF)
  /-- `bpin(&buf[i])`, by `log_write` on a buffer it holds. -/
  | pin (i : Fin NBUF)
  /-- `bunpin(&buf[i])`, by `install_trans` on a buffer the log pinned. -/
  | unpin (i : Fin NBUF)
  deriving DecidableEq, Repr

/-- What a call returns. -/
inductive BioEv
  | got (i : Fin NBUF)
  | done
  | refused
  deriving DecidableEq, Repr

/-- The four calls on a cache with states `C`. -/
structure Ops (C : Type) where
  bread : C → UInt32 → UInt32 → Option (Fin NBUF × C)
  brelse : C → Fin NBUF → C
  bpin : C → Fin NBUF → C
  bunpin : C → Fin NBUF → C

/-- A cache with the references of its callers: `refs i` `bread`s of buffer `i` not yet released,
and `pins i` pins of it by the log. -/
structure Held (C : Type) where
  cache : C
  refs : Fin NBUF → ℕ
  pins : Fin NBUF → ℕ

/-- One call, with the bookkeeping of the references; `none` is a panic. -/
def Ops.step {C : Type} (o : Ops C) (s : Held C) : BioOp → Option (Held C × BioEv)
  | .read dev blockno =>
    (o.bread s.cache dev blockno).map fun (i, c) =>
      (⟨c, Function.update s.refs i (s.refs i + 1), s.pins⟩, .got i)
  | .release i =>
    -- a caller without a reference does not hold the sleep-lock: `panic("brelse")`
    if s.refs i = 0 then none
    else some (⟨o.brelse s.cache i, Function.update s.refs i (s.refs i - 1), s.pins⟩, .done)
  | .pin i =>
    if s.refs i = 0 then some (s, .refused)
    else some (⟨o.bpin s.cache i, s.refs, Function.update s.pins i (s.pins i + 1)⟩, .done)
  | .unpin i =>
    if s.pins i = 0 then some (s, .refused)
    else some (⟨o.bunpin s.cache i, s.refs, Function.update s.pins i (s.pins i - 1)⟩, .done)

/-- The same references, and caches related by `R`. -/
def Held.Rel {C D : Type} (R : C → D → Prop) (s : Held C) (t : Held D) : Prop :=
  R s.cache t.cache ∧ s.refs = t.refs ∧ s.pins = t.pins

/-- **Caches in lock step.**  When the four calls of two caches keep a relation `R` between them,
and `bread` returns the same buffer in both or panics in both, every call keeps `Held.Rel R` and
returns the same in both. -/
theorem Ops.step_rel {C D : Type} {o : Ops C} {o' : Ops D} {R : C → D → Prop}
    (hread : ∀ c d dev blockno, R c d →
      Option.Rel (fun p q => p.1 = q.1 ∧ R p.2 q.2) (o.bread c dev blockno) (o'.bread d dev blockno))
    (hrelse : ∀ c d i, R c d → R (o.brelse c i) (o'.brelse d i))
    (hpin : ∀ c d i, R c d → R (o.bpin c i) (o'.bpin d i))
    (hunpin : ∀ c d i, R c d → R (o.bunpin c i) (o'.bunpin d i))
    {s : Held C} {t : Held D} (h : Held.Rel R s t) (l : BioOp) :
    Option.Rel (fun p q => Held.Rel R p.1 q.1 ∧ p.2 = q.2) (o.step s l) (o'.step t l) := by
  obtain ⟨c, refs, pins⟩ := s
  obtain ⟨d, refs', pins'⟩ := t
  obtain ⟨hc, rfl, rfl⟩ : R c d ∧ refs = refs' ∧ pins = pins' := h
  cases l with
  | read dev blockno =>
    have hcd := hread c d dev blockno hc
    simp only [Ops.step]
    generalize o.bread c dev blockno = x at hcd ⊢
    generalize o'.bread d dev blockno = y at hcd ⊢
    cases hcd with
    | none => exact .none
    | @some p q hpq =>
      obtain ⟨i, c'⟩ := p
      obtain ⟨j, d'⟩ := q
      obtain ⟨rfl : i = j, hR⟩ := hpq
      exact .some ⟨⟨hR, rfl, rfl⟩, rfl⟩
  | release i =>
    simp only [Ops.step]
    split_ifs
    · exact .none
    · exact .some ⟨⟨hrelse c d i hc, rfl, rfl⟩, rfl⟩
  | pin i =>
    simp only [Ops.step]
    split_ifs
    · exact .some ⟨⟨hc, rfl, rfl⟩, rfl⟩
    · exact .some ⟨⟨hpin c d i hc, rfl, rfl⟩, rfl⟩
  | unpin i =>
    simp only [Ops.step]
    split_ifs
    · exact .some ⟨⟨hc, rfl, rfl⟩, rfl⟩
    · exact .some ⟨⟨hunpin c d i hc, rfl, rfl⟩, rfl⟩

/-- The calls of `bio.c`. -/
def bio : Ops Bcache := ⟨bread, brelse, bpin, bunpin⟩

/-- The buffer cache from `binit`, under every sequence of calls; it stops at a panic. -/
def bioMachine : Machine (Option (Held Bcache)) BioOp (Option BioEv) :=
  Machine.ofPartial ⟨binit, fun _ => 0, fun _ => 0⟩ bio.step

end Bio

end Xv6Net
