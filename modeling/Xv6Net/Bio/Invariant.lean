import Xv6Net.Bio.Lru
import Xv6Net.Fs.Inode

/-!
# Invariants of the buffer cache

A buffer is *in use* when it is valid or referenced (`Bio.Held.InUse`).  The invariant `Bio.Inv`
of the recency list with its callers' references says:

* `refcnt` is the number of references and pins, as a 32-bit number;
* every buffer in use is the first of the list that holds its block (`Bio.Lru.First`), so that
  no two buffers in use hold one block (`Bio.Lru.First.eq`).

`bget` keeps the second because it looks for the block first along the whole list, and recycles
only for a block that no buffer holds (`Bio.Lru.first_recycle`); `brelse` moves to the front
only a buffer that was in use, hence first with its block (`Bio.Lru.first_moveFront`).  The
invariant holds of every state of `lruMachine` (`Bio.lru_inv`), and through `Bio.bio_sim` of
every state of `bioMachine` (`Bio.bcache_invariants`).
-/

namespace Xv6Net

namespace Bio

open DList

theorem toUInt32_succ (n : ℕ) : (n + 1).toUInt32 = n.toUInt32 + 1 := by
  rw [← UInt32.toNat_inj]
  simp [Nat.toUInt32_eq, UInt32.toNat_add]

@[simp] theorem Buf.holds_self (b : Buf) : b.holds b.dev b.blockno = true := by simp [Buf.holds]

namespace Lru

/-- Buffer `i` is the first of the list that holds its block. -/
def First (a : Lru) (i : Fin NBUF) : Prop :=
  a.order.find? (fun j => (a.buf j).holds (a.buf i).dev (a.buf i).blockno) = some i

/-- Two buffers first with the same block are one. -/
theorem First.eq {a : Lru} {i j : Fin NBUF} (hi : a.First i) (hj : a.First j)
    (h : (a.buf j).holds (a.buf i).dev (a.buf i).blockno = true) : i = j := by
  simp only [Buf.holds, Bool.and_eq_true, beq_iff_eq] at h
  unfold First at hi hj
  rw [← h.1, ← h.2, hj] at hi
  exact (Option.some.inj hi).symm

/-- Changing the fields of a buffer but not its block changes no buffer's being first. -/
theorem first_set (a : Lru) (i : Fin NBUF) {b : Buf} (hd : b.dev = (a.buf i).dev)
    (hn : b.blockno = (a.buf i).blockno) (j : Fin NBUF) : (a.set i b).First j ↔ a.First j := by
  have hdev : ∀ x, ((a.set i b).buf x).dev = (a.buf x).dev := by
    intro x; by_cases hx : x = i <;> simp [Lru.set, hx, hd]
  have hblk : ∀ x, ((a.set i b).buf x).blockno = (a.buf x).blockno := by
    intro x; by_cases hx : x = i <;> simp [Lru.set, hx, hn]
  simp only [First, Buf.holds, hdev, hblk]
  rfl

/-- Recycling buffer `i` for a block that no buffer holds makes it the first to hold it, and
leaves every other buffer first with its block as it was. -/
theorem first_recycle {a : Lru} {dev blockno : UInt32}
    (hnone : a.order.find? (fun j => (a.buf j).holds dev blockno) = none) (i : Fin NBUF) {b : Buf}
    (hd : b.dev = dev) (hn : b.blockno = blockno) :
    (a.set i b).First i ∧ ∀ j, j ≠ i → a.First j → (a.set i b).First j := by
  rw [List.find?_eq_none] at hnone
  constructor
  · obtain ⟨xs, ys, hxy, hix⟩ := a.exists_split i
    refine List.find?_eq_some_iff_append.2 ⟨by simp [Lru.set], xs, ys, hxy, fun x hx => ?_⟩
    -- the buffers before `i` did not hold the block, and are not `i`
    have hxi : x ≠ i := fun e => hix (e ▸ hx)
    have := hnone x (a.mem_order x)
    simpa [Lru.set, hxi, hd, hn] using this
  · intro j hji hj
    have hjk : (a.buf j).holds dev blockno = false := by simpa using hnone j (a.mem_order j)
    refine find?_eq_some_of_imp hj (by simp [Lru.set, hji]) fun x hx => ?_
    by_cases hxi : x = i
    · -- `i` now holds the new block, which `j` does not hold
      subst hxi
      simp only [Lru.set, Function.update_self, Function.update_of_ne hji, Buf.holds, hd, hn,
        Bool.and_eq_true, beq_iff_eq] at hx
      simp [Buf.holds, ← hx.1, ← hx.2] at hjk
    · simpa [Lru.set, hxi, hji] using hx

/-- Moving a buffer to the front makes it the first with its block, and keeps first every buffer
first with another block. -/
theorem first_moveFront (a : Lru) (i : Fin NBUF) :
    (a.moveFront i).First i ∧ ∀ j, (a.buf i).holds (a.buf j).dev (a.buf j).blockno = false →
      a.First j → (a.moveFront i).First j := by
  refine ⟨by simp [First, Lru.moveFront], fun j hij hj => ?_⟩
  unfold First at hj ⊢
  simp only [Lru.moveFront]
  rw [List.find?_cons_of_neg (by simp [hij]),
    find?_erase_of_not (p := fun x => (a.buf x).holds (a.buf j).dev (a.buf j).blockno) hij]
  exact hj

/-- What `bget` returns: buffer `i`, now holding the block and first in the list to do so, with one
more reference; the list and the other buffers are as they were, and every other buffer first
with its block still is. -/
theorem bget_some {a a' : Lru} {dev blockno : UInt32} {i : Fin NBUF}
    (h : a.bget dev blockno = some (i, a')) :
    (∀ j, j ≠ i → a'.buf j = a.buf j) ∧ (a'.buf i).refcnt = (a.buf i).refcnt + 1 ∧
      a'.First i ∧ ∀ j, j ≠ i → a.First j → a'.First j := by
  unfold bget at h
  split at h
  · -- the block is cached: `i` is the first buffer holding it
    rename_i k hk
    obtain ⟨hki, rfl⟩ := Prod.mk.inj (Option.some.inj h)
    subst k
    have hki : (a.buf i).dev = dev ∧ (a.buf i).blockno = blockno := by
      simpa [Buf.holds] using List.find?_some hk
    refine ⟨fun j hj => by simp [Lru.set, hj], by simp [Lru.set], ?_, fun j _ hj => ?_⟩
    · refine (first_set a i (by rfl) (by rfl) i).2 ?_
      unfold First
      rw [hki.1, hki.2]
      exact hk
    · exact (first_set a i (by rfl) (by rfl) j).2 hj
  · split at h
    · -- not cached: `i` is the last buffer without references
      rename_i hnone _ k hk
      obtain ⟨hki, rfl⟩ := Prod.mk.inj (Option.some.inj h)
      subst k
      have hz : (a.buf i).refcnt = 0 := by simpa using List.find?_some hk
      obtain ⟨hfi, hfj⟩ := first_recycle hnone i (b := ⟨false, dev, blockno, 1⟩) rfl rfl
      exact ⟨fun j hj => by simp [Lru.set, hj], by simp [Lru.set, hz], hfi, hfj⟩
    · cases h

/-- What `bread` returns: the same as `bget`, the buffer now valid. -/
theorem bread_some {a a' : Lru} {dev blockno : UInt32} {i : Fin NBUF}
    (h : a.bread dev blockno = some (i, a')) :
    (∀ j, j ≠ i → a'.buf j = a.buf j) ∧ (a'.buf i).refcnt = (a.buf i).refcnt + 1 ∧
      a'.First i ∧ ∀ j, j ≠ i → a.First j → a'.First j := by
  unfold bread at h
  obtain ⟨⟨k, a''⟩, hg, he⟩ := Option.map_eq_some_iff.1 h
  obtain ⟨hother, hcnt, hfi, hfj⟩ := bget_some hg
  simp only at he
  -- the disk read sets `valid` only
  split_ifs at he
  · obtain ⟨rfl, rfl⟩ := Prod.mk.inj he
    exact ⟨hother, hcnt, hfi, hfj⟩
  · obtain ⟨rfl, rfl⟩ := Prod.mk.inj he
    refine ⟨fun j hj => by simp [Lru.set, hj, hother j hj], by simp [Lru.set, hcnt],
      (first_set _ _ (by rfl) (by rfl) _).2 hfi,
      fun j hj hf => (first_set _ _ (by rfl) (by rfl) _).2 (hfj j hj hf)⟩

end Lru

/-- Buffer `i` is valid, or referenced by a `bread` not yet released or by a pin of the log. -/
def Held.InUse (s : Held Lru) (i : Fin NBUF) : Prop :=
  (s.cache.buf i).valid ∨ s.refs i + s.pins i ≠ 0

/-- The invariant of the recency list with its references. -/
structure Inv (s : Held Lru) : Prop where
  /-- `refcnt` counts the references and the pins, as a 32-bit number. -/
  refcnt : ∀ i, (s.cache.buf i).refcnt = (s.refs i + s.pins i).toUInt32
  /-- Every buffer in use is the first of the list that holds its block. -/
  first : ∀ i, s.InUse i → s.cache.First i

theorem inv_init : Inv ⟨Lru.init, fun _ => 0, fun _ => 0⟩ :=
  ⟨fun _ => rfl, fun _ h => by simp [Held.InUse, Lru.init] at h⟩

variable {s : Held Lru}

/-- Changing the count of a buffer in use, with its references and pins, keeps the invariant. -/
theorem Inv.count (h : Inv s) {i : Fin NBUF} (hi : s.InUse i) {refs pins : Fin NBUF → ℕ}
    (hr : ∀ j, j ≠ i → refs j = s.refs j) (hp : ∀ j, j ≠ i → pins j = s.pins j) {n : UInt32}
    (hn : n = (refs i + pins i).toUInt32) :
    Inv ⟨s.cache.set i { s.cache.buf i with refcnt := n }, refs, pins⟩ := by
  constructor
  · intro j
    by_cases hj : j = i
    · subst hj; simp [Lru.set, hn]
    · simp [Lru.set, hj, hr j hj, hp j hj, h.refcnt j]
  · intro j hj
    have hf : (s.cache.set i { s.cache.buf i with refcnt := n }).First j ↔ s.cache.First j :=
      Lru.first_set _ _ (by rfl) (by rfl) j
    refine hf.2 ?_
    by_cases hji : j = i
    · subst hji; exact h.first j hi
    · -- `j` was in use before
      apply h.first j
      simpa [Held.InUse, Lru.set, hji, hr j hji, hp j hji] using hj

/-- Moving a buffer first with its block to the front keeps the invariant. -/
theorem Inv.moveFront (h : Inv s) {i : Fin NBUF} (hi : s.cache.First i) :
    Inv ⟨s.cache.moveFront i, s.refs, s.pins⟩ := by
  refine ⟨h.refcnt, fun j hj => ?_⟩
  have hj' : s.cache.First j := h.first j hj
  by_cases hji : j = i
  · subst hji; exact (s.cache.first_moveFront j).1
  · refine (s.cache.first_moveFront i).2 j ?_ hj'
    -- a buffer in use with the block of `i` would be `i`
    cases hk : (s.cache.buf i).holds (s.cache.buf j).dev (s.cache.buf j).blockno
    · rfl
    · exact absurd (hj'.eq hi hk) hji

theorem Inv.read (h : Inv s) {dev blockno : UInt32} {i : Fin NBUF} {a' : Lru}
    (hb : s.cache.bread dev blockno = some (i, a')) :
    Inv ⟨a', Function.update s.refs i (s.refs i + 1), s.pins⟩ := by
  obtain ⟨hother, hcnt, hfi, hfj⟩ := Lru.bread_some hb
  constructor
  · intro j
    dsimp only
    by_cases hj : j = i
    · subst hj
      rw [Function.update_self, hcnt, h.refcnt j, Nat.add_right_comm, toUInt32_succ]
    · simp [hother j hj, hj, h.refcnt j]
  · intro j hj
    by_cases hji : j = i
    · subst hji; exact hfi
    · -- `j` was in use before
      refine hfj j hji (h.first j ?_)
      simpa [Held.InUse, hother j hji, hji] using hj

theorem Inv.release (h : Inv s) {i : Fin NBUF} (hr : s.refs i ≠ 0) :
    Inv ⟨s.cache.brelse i, Function.update s.refs i (s.refs i - 1), s.pins⟩ := by
  have hi : s.InUse i := Or.inr (by omega)
  obtain ⟨r, hr'⟩ : ∃ r, s.refs i = r + 1 := ⟨s.refs i - 1, by omega⟩
  have h₁ : Inv ⟨s.cache.set i { s.cache.buf i with refcnt := (s.cache.buf i).refcnt - 1 },
      Function.update s.refs i (s.refs i - 1), s.pins⟩ := by
    refine h.count hi (fun j hj => Function.update_of_ne hj _ _) (fun _ _ => rfl) ?_
    rw [Function.update_self, h.refcnt i, hr', Nat.add_sub_cancel, Nat.add_right_comm,
      toUInt32_succ, UInt32.add_sub_cancel]
  simp only [Lru.brelse]
  split_ifs
  · -- the last reference: to the front
    exact h₁.moveFront ((Lru.first_set _ _ (by rfl) (by rfl) i).2 (h.first i hi))
  · exact h₁

theorem Inv.pin (h : Inv s) {i : Fin NBUF} (hr : s.refs i ≠ 0) :
    Inv ⟨s.cache.bpin i, s.refs, Function.update s.pins i (s.pins i + 1)⟩ :=
  h.count (Or.inr (by omega)) (fun _ _ => rfl) (fun j hj => Function.update_of_ne hj _ _)
    (by rw [Function.update_self, h.refcnt i, ← Nat.add_assoc, toUInt32_succ])

theorem Inv.unpin (h : Inv s) {i : Fin NBUF} (hp : s.pins i ≠ 0) :
    Inv ⟨s.cache.bunpin i, s.refs, Function.update s.pins i (s.pins i - 1)⟩ := by
  obtain ⟨p, hp'⟩ : ∃ p, s.pins i = p + 1 := ⟨s.pins i - 1, by omega⟩
  refine h.count (Or.inr (by omega)) (fun _ _ => rfl) (fun j hj => Function.update_of_ne hj _ _) ?_
  rw [Function.update_self, h.refcnt i, hp', Nat.add_sub_cancel, ← Nat.add_assoc, toUInt32_succ,
    UInt32.add_sub_cancel]

/-- **Every call keeps the invariant.** -/
theorem Inv.step (h : Inv s) {l : BioOp} {s' : Held Lru} {o : BioEv}
    (hs : lru.step s l = some (s', o)) : Inv s' := by
  cases l with
  | read dev blockno =>
    obtain ⟨⟨i, a'⟩, hb, he⟩ := Option.map_eq_some_iff.1 hs
    obtain ⟨rfl, -⟩ := Prod.mk.inj he
    exact h.read hb
  | release i =>
    simp only [Ops.step] at hs
    split_ifs at hs with hr
    obtain ⟨rfl, -⟩ := Prod.mk.inj (Option.some.inj hs)
    exact h.release hr
  | pin i =>
    simp only [Ops.step] at hs
    split_ifs at hs with hr <;> obtain ⟨rfl, -⟩ := Prod.mk.inj (Option.some.inj hs)
    · exact h
    · exact h.pin hr
  | unpin i =>
    simp only [Ops.step] at hs
    split_ifs at hs with hp <;> obtain ⟨rfl, -⟩ := Prod.mk.inj (Option.some.inj hs)
    · exact h
    · exact h.unpin hp

/-- The invariant holds of every state of the list that no panic has stopped. -/
theorem lru_inv {s : Held Lru} (h : lruMachine.Reachable (some s)) : Inv s :=
  Machine.Reachable.ofPartial_induction Inv inv_init (fun _ _ _ _ hs hst => hs.step hst) h

/-- A buffer that is valid or has `refcnt ≠ 0` is in use. -/
theorem Inv.inUse (h : Inv s) {i : Fin NBUF}
    (hi : (s.cache.buf i).valid ∨ (s.cache.buf i).refcnt ≠ 0) : s.InUse i := by
  rcases hi with hv | hr
  · exact Or.inl hv
  · refine Or.inr fun h0 => hr ?_
    rw [h.refcnt i, h0]
    rfl

/-- The buffer `bget` returns: the first of the list holding the block, or else the last without
references. -/
theorem Lru.bget_fst (a : Lru) (dev blockno : UInt32) :
    (a.bget dev blockno).map Prod.fst =
      ((a.order.find? fun i => (a.buf i).holds dev blockno) <|>
        a.order.reverse.find? fun i => (a.buf i).refcnt == 0) := by
  unfold Lru.bget
  rcases a.order.find? fun i => (a.buf i).holds dev blockno with _ | i
  · rcases a.order.reverse.find? fun i => (a.buf i).refcnt == 0 with _ | j <;> rfl
  · rfl

/-! ### The cache of `bio.c` -/

theorem Abs.bget_fst {c : Bcache} {a : Lru} (h : Abs c a) (dev blockno : UInt32) :
    (bget c dev blockno).map Prod.fst = (a.bget dev blockno).map Prod.fst := by
  have hr := bget_abs h dev blockno
  generalize bget c dev blockno = x at hr ⊢
  generalize a.bget dev blockno = y at hr ⊢
  cases hr with
  | none => rfl
  | some h' => simp [h'.1]

/-- Every state of `bioMachine` stands for a state of the list that keeps the invariant. -/
theorem exists_inv {s : Held Bcache} (h : bioMachine.Reachable (some s)) :
    ∃ t : Held Lru, Held.Rel Abs s t ∧ Inv t := by
  obtain ⟨t, ht, hst⟩ := bio_sim.reachable h
  cases hst with
  | some hst => exact ⟨_, hst, lru_inv ht⟩

/-- What the cache guarantees in a state whose ring runs through the buffers `l`, in order from
`head.next`. -/
structure Spec (s : Held Bcache) (l : List (Fin NBUF)) : Prop where
  /-- The ring through `head` holds every buffer exactly once. -/
  ring : s.cache.links.Ring .head (l.map .buf)
  perm : l.Perm (List.finRange NBUF)
  /-- A buffer that is valid or has `refcnt ≠ 0` is the first of `l` that holds its block. -/
  cached : ∀ i, ((s.cache.buf i).valid ∨ (s.cache.buf i).refcnt ≠ 0) →
    l.find? (fun j => (s.cache.buf j).holds (s.cache.buf i).dev (s.cache.buf i).blockno) = some i
  /-- No two buffers that are valid or have `refcnt ≠ 0` hold the same block. -/
  unique : ∀ i j, ((s.cache.buf i).valid ∨ (s.cache.buf i).refcnt ≠ 0) →
    ((s.cache.buf j).valid ∨ (s.cache.buf j).refcnt ≠ 0) →
    (s.cache.buf i).dev = (s.cache.buf j).dev → (s.cache.buf i).blockno = (s.cache.buf j).blockno →
    i = j
  /-- `bget` returns the first buffer of `l` holding the block, or else recycles the last one
  with `refcnt = 0`, and panics when there is neither. -/
  bget : ∀ dev blockno, (bget s.cache dev blockno).map Prod.fst =
    ((l.find? fun i => (s.cache.buf i).holds dev blockno) <|>
      l.reverse.find? fun i => (s.cache.buf i).refcnt == 0)
  /-- `refcnt` is the number of the callers' references and the log's pins, as a 32-bit number. -/
  refcnt : ∀ i, (s.cache.buf i).refcnt = (s.refs i + s.pins i).toUInt32

/-- The calls of a run: a block read, pinned by the log and released; a second block read and
released; the first block read and released again, and unpinned by the log; a third block read. -/
def lruRun : List BioOp :=
  [.read 1 100, .pin 0, .release 0, .read 1 101, .release 1, .read 1 100, .release 0, .unpin 0,
    .read 1 102]

/-- **`bget` panics when every buffer is referenced.**  In every state of `bioMachine`, a read of
a block that no buffer holds stops the kernel when every buffer has `refcnt ≠ 0`. -/
theorem bread_panics {s : Held Bcache} (h : bioMachine.Reachable (some s)) {dev blockno : UInt32}
    (hfull : ∀ i, (s.cache.buf i).refcnt ≠ 0 ∧ (s.cache.buf i).holds dev blockno = false) :
    bioMachine.step (some s) (.read dev blockno) = (none, none) := by
  obtain ⟨t, ⟨hc, -, -⟩, -⟩ := exists_inv h
  -- neither loop of `bget` finds a buffer
  have hnone : bget s.cache dev blockno = none := by
    have h1 : (t.cache.order.find? fun i => (t.cache.buf i).holds dev blockno) = none :=
      List.find?_eq_none.2 fun i _ => by simp [← hc.buf, (hfull i).2]
    have h2 : (t.cache.order.reverse.find? fun i => (t.cache.buf i).refcnt == 0) = none :=
      List.find?_eq_none.2 fun i _ => by simp [← hc.buf, (hfull i).1]
    have := hc.bget_fst dev blockno
    rw [Lru.bget_fst, h1, h2] at this
    exact Option.map_eq_none_iff.1 this
  exact Machine.partialStep_stop (by simp [bio, Ops.step, bread, hnone])

/-- `n` reads of the distinct blocks `0, …, n - 1` of device 1, none released. -/
def distinctReads (n : ℕ) : List BioOp := (List.range n).map fun k => .read 1 k.toUInt32

/-- **The in-memory tables panic when full.**  In every state of `bioMachine`, a read of a block
that no buffer holds stops the kernel when every buffer has `refcnt ≠ 0`; and `iget` of an inode
that no entry holds panics when every entry of the inode table is referenced.  Neither call
returns a failure to its caller. -/
theorem tables_full_panic :
    (∀ s : Held Bcache, bioMachine.Reachable (some s) → ∀ dev blockno : UInt32,
      (∀ i, (s.cache.buf i).refcnt ≠ 0 ∧ (s.cache.buf i).holds dev blockno = false) →
      bioMachine.step (some s) (.read dev blockno) = (none, none)) ∧
    ∀ (st : Fs.FsSt) (inum : UInt32), (∀ j, 0 < (st.itable j).ref ∧ (st.itable j).inum ≠ inum) →
      Fs.iget inum st = .error "iget: no inodes" :=
  ⟨fun _ h _ _ hfull => bread_panics h hfull, fun _ _ hfull => Fs.iget_no_inodes hfull⟩

/-- The state after thirty reads of distinct blocks: every buffer is referenced and none holds
block `30`.  The run is evaluated once, together with the test of its last state. -/
theorem run_distinctReads_thirty :
    ∃ s, bioMachine.run bioMachine.init (distinctReads 30) = some s ∧
      ∀ i, (s.cache.buf i).refcnt ≠ 0 ∧ (s.cache.buf i).holds 1 30 = false := by
  obtain ⟨s, hs, hfull⟩ := (Option.any_eq_true _ _).1 (show
    (bioMachine.run bioMachine.init (distinctReads 30)).any (fun s =>
      decide (∀ i, (s.cache.buf i).refcnt ≠ 0 ∧ (s.cache.buf i).holds 1 30 = false)) = true by
    decide +kernel)
  exact ⟨s, hs, of_decide_eq_true hfull⟩

/-- After thirty reads of distinct blocks that no one releases, the thirty-first panics. -/
theorem bread_panics_after_thirty_reads :
    bioMachine.step (bioMachine.run bioMachine.init (distinctReads 30)) (.read 1 30) =
      (none, none) := by
  obtain ⟨s, hs, hfull⟩ := run_distinctReads_thirty
  rw [hs]
  exact tables_full_panic.1 s (hs ▸ Machine.Reachable.of_run _) 1 30 hfull

/-- Thirty-one reads of distinct blocks, none released, stop the kernel. -/
theorem thirty_one_reads_panic : bioMachine.run bioMachine.init (distinctReads 31) = none := by
  obtain ⟨s, hs, hfull⟩ := run_distinctReads_thirty
  have hsplit : distinctReads 31 = distinctReads 30 ++ [.read 1 30] := by
    rw [distinctReads, distinctReads, List.range_succ (n := 30), List.map_append]
    rfl
  have hreach : bioMachine.Reachable (some s) := hs ▸ Machine.Reachable.of_run _
  rw [hsplit, Machine.run_append, hs, Machine.run_cons, bread_panics hreach hfull, Machine.run_nil]

end Bio

end Xv6Net
