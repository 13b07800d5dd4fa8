import Xv6Net.Bio.Basic

/-!
# The buffer cache as a recency list

What `bcache` stands for, in the words of its comment: the buffers in one list "sorted by how
recently the buffer was used", most recent first.  `Lru` is that list (`Lru.order`, every buffer
once) with the buffers' fields.  `Lru.bget` returns the first buffer of the list that holds the
block, or else recycles the last buffer that has no reference; `Lru.brelse` moves a buffer to
the front when its last reference goes.

* `Bio.Abs c a` : the pointer cache `c` stands for the list `a`: the same buffers, and the ring
  of `c` from `head.next` runs through them in the order of `a`.
* `Bio.bget_abs`, `Bio.bread_abs`, `Bio.brelse_abs` : the calls of `bio.c` do on the pointers
  what the calls of `Lru` do on the list; the pointer surgery of `brelse` is
  `DList.Links.Ring.moveFront`.
* `Bio.bio_sim` : from `binit`, `bioMachine` and `lruMachine` run in lock step, with the same
  outputs, under every sequence of calls.
-/

namespace Xv6Net

namespace Bio

open DList

/-- The buffers in the order of recent use, most recent first; every buffer occurs once. -/
structure Lru where
  buf : Fin NBUF → Buf
  order : List (Fin NBUF)
  perm : order.Perm (List.finRange NBUF)

namespace Lru

theorem mem_order (a : Lru) (i : Fin NBUF) : i ∈ a.order := a.perm.mem_iff.2 (List.mem_finRange i)

theorem nodup_order (a : Lru) : a.order.Nodup := a.perm.nodup_iff.2 (List.nodup_finRange NBUF)

theorem length_order (a : Lru) : a.order.length = NBUF := by simpa using a.perm.length_eq

/-- The list splits at every buffer, which occurs nowhere before. -/
theorem exists_split (a : Lru) (i : Fin NBUF) : ∃ xs ys, a.order = xs ++ i :: ys ∧ i ∉ xs := by
  obtain ⟨xs, ys, hxy⟩ := List.append_of_mem (a.mem_order i)
  refine ⟨xs, ys, hxy, fun hx => ?_⟩
  have := a.nodup_order
  rw [hxy, List.nodup_append] at this
  exact this.2.2 i hx i List.mem_cons_self rfl

/-- Overwrite the fields of buffer `i`. -/
def set (a : Lru) (i : Fin NBUF) (b : Buf) : Lru := { a with buf := Function.update a.buf i b }

/-- Buffer `i` first, the others in their order. -/
def moveFront (a : Lru) (i : Fin NBUF) : Lru :=
  ⟨a.buf, i :: a.order.erase i, (List.perm_cons_erase (a.mem_order i)).symm.trans a.perm⟩

/-- The list as `binit` leaves it, `buf[NBUF-1]` first. -/
def init : Lru := ⟨fun _ => ⟨false, 0, 0, 0⟩, (List.finRange NBUF).reverse, List.reverse_perm _⟩

/-- The first buffer of the list that holds the block, with one more reference; or else the last
buffer without references, recycled for the block; or else a panic. -/
def bget (a : Lru) (dev blockno : UInt32) : Option (Fin NBUF × Lru) :=
  match a.order.find? fun i => (a.buf i).holds dev blockno with
  | some i => some (i, a.set i { a.buf i with refcnt := (a.buf i).refcnt + 1 })
  | none =>
    match a.order.reverse.find? fun i => (a.buf i).refcnt == 0 with
    | some i => some (i, a.set i ⟨false, dev, blockno, 1⟩)
    | none => none

def bread (a : Lru) (dev blockno : UInt32) : Option (Fin NBUF × Lru) :=
  (a.bget dev blockno).map fun (i, a) =>
    if (a.buf i).valid then (i, a) else (i, a.set i { a.buf i with valid := true })

/-- One reference less; the last one moves the buffer to the front. -/
def brelse (a : Lru) (i : Fin NBUF) : Lru :=
  let a := a.set i { a.buf i with refcnt := (a.buf i).refcnt - 1 }
  if (a.buf i).refcnt = 0 then a.moveFront i else a

def bpin (a : Lru) (i : Fin NBUF) : Lru := a.set i { a.buf i with refcnt := (a.buf i).refcnt + 1 }

def bunpin (a : Lru) (i : Fin NBUF) : Lru := a.set i { a.buf i with refcnt := (a.buf i).refcnt - 1 }

end Lru

/-- The calls on the list. -/
def lru : Ops Lru := ⟨Lru.bread, Lru.brelse, Lru.bpin, Lru.bunpin⟩

def lruMachine : Machine (Option (Held Lru)) BioOp (Option BioEv) :=
  Machine.ofPartial ⟨Lru.init, fun _ => 0, fun _ => 0⟩ lru.step

/-! ### The pointers stand for the list -/

/-- The pointer cache `c` stands for the list `a`. -/
structure Abs (c : Bcache) (a : Lru) : Prop where
  buf : c.buf = a.buf
  ring : c.links.Ring .head (a.order.map .buf)

variable {c : Bcache} {a : Lru}

/-- The first loop of `bget` finds the first buffer of the list that holds the block. -/
theorem Abs.findFrom_cached (h : Abs c a) (dev blockno : UInt32) :
    findFrom c.links.nx .head (c.cached dev blockno) (NBUF + 1) (c.links.nx .head) =
      (a.order.find? fun i => (a.buf i).holds dev blockno).map .buf := by
  rw [h.ring.findFrom_nx _ (by simp [a.length_order]), List.find?_map]
  congr 2
  funext i
  simp [Bcache.cached, h.buf]

/-- The second loop of `bget` finds the last buffer of the list without references. -/
theorem Abs.findFrom_unused (h : Abs c a) :
    findFrom c.links.pv .head c.unused (NBUF + 1) (c.links.pv .head) =
      (a.order.reverse.find? fun i => (a.buf i).refcnt == 0).map .buf := by
  rw [h.ring.findFrom_pv _ (by simp [a.length_order]), ← List.map_reverse, List.find?_map]
  congr 2
  funext i
  simp [Bcache.unused, h.buf]

/-- Setting the fields of a buffer on both sides keeps the pointers standing for the list. -/
theorem Abs.set (h : Abs c a) (i : Fin NBUF) (b : Buf) : Abs (c.set i b) (a.set i b) :=
  ⟨by simp [Bcache.set, Lru.set, h.buf], h.ring⟩

theorem bget_abs (h : Abs c a) (dev blockno : UInt32) :
    Option.Rel (fun p q => p.1 = q.1 ∧ Abs p.2 q.2) (bget c dev blockno) (a.bget dev blockno) := by
  unfold bget Lru.bget
  rw [h.findFrom_cached, h.findFrom_unused, h.buf]
  -- hit, recycle, or panic on both sides
  rcases a.order.find? fun i => (a.buf i).holds dev blockno with _ | i
  · rcases a.order.reverse.find? fun i => (a.buf i).refcnt == 0 with _ | j
    · exact .none
    · exact .some ⟨rfl, h.set j _⟩
  · exact .some ⟨rfl, h.set i _⟩

theorem bread_abs (h : Abs c a) (dev blockno : UInt32) :
    Option.Rel (fun p q => p.1 = q.1 ∧ Abs p.2 q.2) (bread c dev blockno) (a.bread dev blockno) := by
  unfold bread Lru.bread
  have hg := bget_abs h dev blockno
  generalize bget c dev blockno = x at hg ⊢
  generalize a.bget dev blockno = y at hg ⊢
  cases hg with
  | none => exact .none
  | @some p q hpq =>
    obtain ⟨i, c'⟩ := p
    obtain ⟨j, a'⟩ := q
    obtain ⟨rfl : i = j, h' : Abs c' a'⟩ := hpq
    simp only [Option.map_some, h'.buf]
    split_ifs
    · exact .some ⟨rfl, h'⟩
    · exact .some ⟨rfl, h'.set i _⟩

theorem brelse_abs (h : Abs c a) (i : Fin NBUF) : Abs (brelse c i) (a.brelse i) := by
  obtain ⟨cb, L⟩ := c
  obtain ⟨rfl : cb = a.buf, hring : L.Ring .head (a.order.map .buf)⟩ := h
  simp only [brelse, Lru.brelse, Bcache.set, Lru.set, Function.update_self]
  split_ifs with h0
  · -- the pointer surgery moves `buf[i]` to the front of the ring
    refine ⟨rfl, ?_⟩
    obtain ⟨xs, ys, hxy, hix⟩ := a.exists_split i
    rw [hxy, List.map_append, List.map_cons] at hring
    have hmv := hring.moveFront
    rw [← List.map_append, ← List.map_cons] at hmv
    simpa [Lru.moveFront, hxy, List.erase_append_right _ hix] using hmv
  · exact ⟨rfl, hring⟩

theorem bpin_abs (h : Abs c a) (i : Fin NBUF) : Abs (bpin c i) (a.bpin i) := by
  unfold bpin Lru.bpin
  rw [h.buf]
  exact h.set i _

theorem bunpin_abs (h : Abs c a) (i : Fin NBUF) : Abs (bunpin c i) (a.bunpin i) := by
  unfold bunpin Lru.bunpin
  rw [h.buf]
  exact h.set i _

/-- `binit` links the buffers it pushes, the last pushed first. -/
theorem foldl_pushFront_bcache (ks : List (Fin NBUF)) (c : Bcache) :
    ks.foldl (fun c i => { c with links := c.links.pushFront .head (.buf i) }) c =
      ⟨c.buf, (ks.map Ptr.buf).foldl (fun L k => L.pushFront .head k) c.links⟩ := by
  induction ks generalizing c with
  | nil => rfl
  | cons k ks ih => exact ih _

theorem abs_binit : Abs binit Lru.init := by
  refine ⟨rfl, ?_⟩
  rw [binit, foldl_pushFront_bcache]
  have hnd : (Ptr.head :: ((List.finRange NBUF).map Ptr.buf ++ [])).Nodup := by
    rw [List.append_nil, List.nodup_cons]
    exact ⟨by simp, (List.nodup_finRange NBUF).map fun _ _ => Ptr.buf.inj⟩
  -- `head` points at itself
  have h₀ : (⟨fun _ => .head, fun _ => .head⟩ : Links Ptr).Ring .head [] := Links.ring_nil rfl rfl
  have := Links.Ring.foldl_pushFront _ h₀ hnd
  simpa [Lru.init, List.map_reverse] using this

/-- One call on the pointer cache and on the list it stands for: both panic, or both return
the same and the pointers still stand for the list. -/
theorem bio_step_rel {s : Held Bcache} {t : Held Lru} (h : Held.Rel Abs s t) (l : BioOp) :
    Option.Rel (fun p q => Held.Rel Abs p.1 q.1 ∧ p.2 = q.2) (bio.step s l) (lru.step t l) :=
  Ops.step_rel (fun _ _ _ _ h => bread_abs h _ _) (fun _ _ _ h => brelse_abs h _)
    (fun _ _ _ h => bpin_abs h _) (fun _ _ _ h => bunpin_abs h _) h l

/-- **The pointer cache refines the recency list.**  From `binit`, under every sequence of calls,
`bio.c` and the list return the same buffers and panic together, and the pointers stand for the
list throughout. -/
theorem bio_sim : Machine.Sim bioMachine lruMachine (Option.Rel (Held.Rel Abs)) :=
  Machine.Sim.ofPartial ⟨abs_binit, rfl, rfl⟩ fun _ _ l h => bio_step_rel h l

end Bio

end Xv6Net
