import Xv6Net.Virtio.Disk
import Xv6Net.Ring.Basic

/-!
# Descriptor chains, ring counters, and the interrupt loop

The pieces of `virtio_disk.c` that the system invariant (`Virtio.Inv`) is built from:

* `Virtio.alloc3Desc_cases` : `alloc3_desc` takes three distinct free descriptors, or gives back
  those it took and leaves the disk as it was.
* `Virtio.Chain` : the three descriptors of a request as `virtio_disk_rw` formats them, and
  `Virtio.freeChain_chain` : `free_chain` frees exactly those three.
* `Virtio.intrLoop_spec` : the loop of `virtio_disk_intr` clears `b->disk` of the buffers that
  `disk.info` records for the heads in the `used` ring between `used_idx` and the device's index.

The 16-bit indices wrap; since `NUM` divides `2^16` the slot of a counter moves on by one when
the counter does (`Virtio.slotOf_add_one`), so the part of a ring between two counters is a
`RingBuf.view` of `span` entries.
-/

namespace Xv6Net

namespace Virtio

open Bio (NBUF)
open RingBuf

/-! ### 16-bit counters -/

/-- The number of counter values from `r` up to `w`. -/
def span (r w : UInt16) : ℕ := (w - r).toNat

theorem span_eq_zero_iff {r w : UInt16} : span r w = 0 ↔ r = w := by
  have := r.toNat_lt; have := w.toNat_lt
  rw [span, UInt16.toNat_sub, ← UInt16.toNat_inj]
  omega

theorem span_add_one_right {r w : UInt16} (h : span r w + 1 < 2 ^ 16) :
    span r (w + 1) = span r w + 1 := by
  simp only [span, UInt16.toNat_sub, UInt16.toNat_add, UInt16.toNat_one] at *
  have := r.toNat_lt; have := w.toNat_lt
  omega

theorem span_add_one_left {r w : UInt16} (h : r ≠ w) : span (r + 1) w + 1 = span r w := by
  have h' : r.toNat ≠ w.toNat := fun e => h (UInt16.toNat_inj.1 e)
  simp only [span, UInt16.toNat_sub, UInt16.toNat_add, UInt16.toNat_one]
  have := r.toNat_lt; have := w.toNat_lt
  omega

/-- `NUM` divides `2^16`: the slot moves on with the counter. -/
theorem slotOf_add_one (c : UInt16) : slotOf (c + 1) = slotOf c + 1 := by
  apply Fin.ext
  rw [val_add_one_eq]
  simp only [slotOf, UInt16.toNat_add, UInt16.toNat_one]
  rw [Nat.mod_mod_of_dvd _ (by decide : NUM ∣ 2 ^ 16), Nat.mod_add_mod]

theorem slot_slotOf_span (r w : UInt16) : slot (slotOf r) (span r w) = slotOf w := by
  apply Fin.ext
  rw [slot_val]
  simp only [slotOf, span, UInt16.toNat_sub, NUM]
  have := r.toNat_lt; have := w.toNat_lt
  -- the difference enters modulo `2^16`, which `8` divides
  omega

/-- Storing at the writer's counter and moving it on appends. -/
theorem view_push16 {α : Type} (a : Fin NUM → α) {r w : UInt16} (x : α) (hk : span r w < NUM) :
    view (Function.update a (slotOf w) x) (slotOf r) (span r (w + 1)) =
      view a (slotOf r) (span r w) ++ [x] := by
  rw [span_add_one_right (by unfold NUM at hk; omega), ← slot_slotOf_span r w, view_push _ _ _ hk]

/-- Moving the reader's counter on removes the first element. -/
theorem view_pop16 {α : Type} (a : Fin NUM → α) {r w : UInt16} (h : r ≠ w) :
    view a (slotOf r) (span r w) = a (slotOf r) :: view a (slotOf (r + 1)) (span (r + 1) w) := by
  rw [← span_add_one_left h, view_pop, slotOf_add_one]

/-! ### Taking and giving back descriptors -/

namespace Disk

/-- Descriptor `i` marked not free. -/
def take (d : Disk) (i : Fin NUM) : Disk := { d with free := Function.update d.free i false }

/-- Descriptor `i` cleared and marked free. -/
def release (d : Disk) (i : Fin NUM) : Disk :=
  { d with desc := Function.update d.desc i ⟨0, 0⟩, free := Function.update d.free i true }

@[simp] theorem take_desc (d : Disk) (i : Fin NUM) : (d.take i).desc = d.desc := rfl

@[simp] theorem take_info (d : Disk) (i : Fin NUM) : (d.take i).info = d.info := rfl

@[simp] theorem take_bdisk (d : Disk) (i : Fin NUM) : (d.take i).bdisk = d.bdisk := rfl

@[simp] theorem take_free (d : Disk) (i : Fin NUM) :
    (d.take i).free = Function.update d.free i false := rfl

@[simp] theorem release_desc (d : Disk) (i : Fin NUM) :
    (d.release i).desc = Function.update d.desc i ⟨0, 0⟩ := rfl

@[simp] theorem release_free (d : Disk) (i : Fin NUM) :
    (d.release i).free = Function.update d.free i true := rfl

/-- Giving back a descriptor just taken from the free ones, all of them cleared, undoes it. -/
theorem release_take {d : Disk} {i : Fin NUM} (hi : d.free i) (hz : d.desc i = ⟨0, 0⟩) :
    (d.take i).release i = d := by
  obtain ⟨desc, avail, used, free, usedIdx, info, bdisk⟩ := d
  simp only [release, take, Function.update_idem, Disk.mk.injEq, and_true, true_and]
  constructor
  · rw [← hz]; exact Function.update_eq_self _ _
  · rw [← hi]; exact Function.update_eq_self _ _

section three

variable (d : Disk) {i0 i1 i2 j : Fin NUM}

theorem take3_free_of_mem (hj : j ∈ [i0, i1, i2]) : (((d.take i0).take i1).take i2).free j = false := by
  simp only [List.mem_cons, List.not_mem_nil, or_false] at hj
  rcases hj with rfl | rfl | rfl <;> simp [Function.update_apply]

theorem take3_free_of_not_mem (hj : j ∉ [i0, i1, i2]) :
    (((d.take i0).take i1).take i2).free j = d.free j := by
  simp only [List.mem_cons, List.not_mem_nil, or_false, not_or] at hj
  simp [hj.1, hj.2.1, hj.2.2]

theorem release3_of_mem (hj : j ∈ [i0, i1, i2]) :
    (((d.release i0).release i1).release i2).desc j = ⟨0, 0⟩ ∧
      (((d.release i0).release i1).release i2).free j = true := by
  simp only [List.mem_cons, List.not_mem_nil, or_false] at hj
  rcases hj with rfl | rfl | rfl <;> simp [Function.update_apply]

theorem release3_of_not_mem (hj : j ∉ [i0, i1, i2]) :
    (((d.release i0).release i1).release i2).desc j = d.desc j ∧
      (((d.release i0).release i1).release i2).free j = d.free j := by
  simp only [List.mem_cons, List.not_mem_nil, or_false, not_or] at hj
  simp [hj.1, hj.2.1, hj.2.2]

end three

end Disk

theorem allocDesc_cases (d : Disk) :
    (allocDesc d = (none, d) ∧ ∀ j, d.free j = false) ∨
      ∃ i, d.free i ∧ allocDesc d = (some i, d.take i) := by
  unfold allocDesc
  cases h : (List.finRange NUM).find? d.free with
  | none => exact Or.inl ⟨rfl, fun j => by simpa using List.find?_eq_none.1 h j (List.mem_finRange j)⟩
  | some i => exact Or.inr ⟨i, List.find?_some h, rfl⟩

theorem freeDesc_val {d : Disk} {i : Fin NUM} (hi : d.free i = false) :
    freeDesc d i.val = some (d.release i) := by
  simp [freeDesc, hi, Disk.release]

/-- **`alloc3_desc` takes three distinct free descriptors, or leaves the disk as it was.**  When
every free descriptor is cleared, the descriptors it takes back on failure are as they were. -/
theorem alloc3Desc_cases {d : Disk} (hz : ∀ j, d.free j → d.desc j = ⟨0, 0⟩) :
    alloc3Desc d = some (none, d) ∨
      ∃ i0 i1 i2, i0 ≠ i1 ∧ i0 ≠ i2 ∧ i1 ≠ i2 ∧ d.free i0 ∧ d.free i1 ∧ d.free i2 ∧
        alloc3Desc d = some (some [i0, i1, i2], ((d.take i0).take i1).take i2) := by
  unfold alloc3Desc
  rcases allocDesc_cases d with ⟨h0, -⟩ | ⟨i0, hf0, h0⟩
  · left; simp [alloc3Loop, h0]
  rcases allocDesc_cases (d.take i0) with ⟨h1, -⟩ | ⟨i1, hf1, h1⟩
  · -- one taken, and given back
    left
    simp [alloc3Loop, h0, h1, freeDesc_val (by simp [Disk.take] : (d.take i0).free i0 = false),
      Disk.release_take hf0 (hz i0 hf0)]
  have h01 : i0 ≠ i1 := by rintro rfl; simp [Disk.take] at hf1
  rcases allocDesc_cases ((d.take i0).take i1) with ⟨h2, -⟩ | ⟨i2, hf2, h2⟩
  · -- two taken, and given back in order
    left
    have hf1' : d.free i1 := by simpa [Disk.take, Ne.symm h01] using hf1
    have hback : (((d.take i0).take i1).release i0).release i1 = d := by
      have hz0 := hz i0 hf0
      have hz1 := hz i1 hf1'
      obtain ⟨desc, avail, used, free, usedIdx, info, bdisk⟩ := d
      simp only [Disk.take, Disk.release, Disk.mk.injEq, and_true, true_and]
      constructor <;> funext j <;> by_cases hj0 : j = i0 <;> by_cases hj1 : j = i1 <;>
        simp_all
    simp only [alloc3Loop, h0, h1, h2, List.nil_append, List.singleton_append, List.foldlM_cons,
      List.foldlM_nil]
    rw [freeDesc_val (by simp [Disk.take, h01])]
    simp only [Option.bind_eq_bind, Option.bind_some]
    rw [freeDesc_val (by simp [Disk.take, Disk.release, Ne.symm h01])]
    simp [hback]
  · right
    have h02 : i0 ≠ i2 := by rintro rfl; simp [Disk.take, h01] at hf2
    have h12 : i1 ≠ i2 := by rintro rfl; simp [Disk.take] at hf2
    refine ⟨i0, i1, i2, h01, h02, h12, hf0, by simpa [Disk.take, Ne.symm h01] using hf1,
      by simpa [Disk.take, Ne.symm h02, Ne.symm h12] using hf2, ?_⟩
    simp [alloc3Loop, h0, h1, h2]

/-! ### The chain of a request -/

/-- The chain that a request formatted in its descriptors `i0`, `i1`, `i2`, in the descriptor
table `desc` with the marks `free`: three distinct descriptors, not free, each but the last
flagged `VRING_DESC_F_NEXT` and linked to the next. -/
structure Chain (desc : Fin NUM → Desc) (free : Fin NUM → Bool) (i0 i1 i2 : Fin NUM) : Prop where
  ne01 : i0 ≠ i1
  ne02 : i0 ≠ i2
  ne12 : i1 ≠ i2
  taken0 : free i0 = false
  taken1 : free i1 = false
  taken2 : free i2 = false
  desc0 : desc i0 = ⟨VRING_DESC_F_NEXT, i1.val.toUInt16⟩
  flags1 : (desc i1).flags &&& VRING_DESC_F_NEXT ≠ 0
  next1 : (desc i1).next = i2.val.toUInt16
  desc2 : desc i2 = ⟨VRING_DESC_F_WRITE, 0⟩

/-- A chain stays one where its three descriptors are as they were. -/
theorem Chain.congr {desc desc' : Fin NUM → Desc} {free free' : Fin NUM → Bool} {i0 i1 i2 : Fin NUM}
    (h : Chain desc free i0 i1 i2) (hd : ∀ j ∈ [i0, i1, i2], desc' j = desc j)
    (hf : ∀ j ∈ [i0, i1, i2], free' j = free j) : Chain desc' free' i0 i1 i2 where
  ne01 := h.ne01
  ne02 := h.ne02
  ne12 := h.ne12
  taken0 := by rw [hf i0 (by simp), h.taken0]
  taken1 := by rw [hf i1 (by simp), h.taken1]
  taken2 := by rw [hf i2 (by simp), h.taken2]
  desc0 := by rw [hd i0 (by simp), h.desc0]
  flags1 := by rw [hd i1 (by simp)]; exact h.flags1
  next1 := by rw [hd i1 (by simp), h.next1]
  desc2 := by rw [hd i2 (by simp), h.desc2]

section submit

variable {d : Disk} {b : Fin NBUF} {write : Bool} {i0 i1 i2 : Fin NUM}

@[simp] theorem submit_free : (submit d b write i0 i1 i2).free = d.free := rfl

@[simp] theorem submit_used : (submit d b write i0 i1 i2).used = d.used := rfl

@[simp] theorem submit_usedIdx : (submit d b write i0 i1 i2).usedIdx = d.usedIdx := rfl

@[simp] theorem submit_bdisk : (submit d b write i0 i1 i2).bdisk = Function.update d.bdisk b true :=
  rfl

@[simp] theorem submit_avail : (submit d b write i0 i1 i2).avail =
    ⟨d.avail.idx + 1, Function.update d.avail.ring (slotOf d.avail.idx) i0.val.toUInt16⟩ := rfl

theorem submit_desc_of_ne {j : Fin NUM} (h0 : j ≠ i0) (h1 : j ≠ i1) (h2 : j ≠ i2) :
    (submit d b write i0 i1 i2).desc j = d.desc j := by
  simp [submit, h0, h1, h2]

/-- Of `disk.info`, the request sets the status and the buffer of its head only. -/
theorem submit_info (j : Fin NUM) : (submit d b write i0 i1 i2).info j =
    if j = i0 then { d.info i0 with status := 0xff, b := some b } else d.info j := by
  by_cases h : j = i0 <;> simp [submit, h]

/-- **`virtio_disk_rw` formats a chain** in three distinct descriptors that are not free. -/
theorem submit_chain (h01 : i0 ≠ i1) (h02 : i0 ≠ i2) (h12 : i1 ≠ i2) (hf0 : d.free i0 = false)
    (hf1 : d.free i1 = false) (hf2 : d.free i2 = false) :
    Chain (submit d b write i0 i1 i2).desc d.free i0 i1 i2 := by
  refine ⟨h01, h02, h12, hf0, hf1, hf2, ?_, ?_, ?_, ?_⟩
  · simp [submit, h01, h02]
  · -- the data descriptor is flagged `VRING_DESC_F_NEXT` whichever way the data goes
    simp only [submit, Function.update_of_ne h12, Function.update_self]
    cases write <;> decide
  · simp [submit, Function.update_of_ne h12]
  · simp [submit]

end submit

theorem toNat_toUInt16_fin (i : Fin NUM) : i.val.toUInt16.toNat = i.val := by
  have := i.isLt
  unfold NUM at this
  simp only [Nat.toUInt16_eq, UInt16.toNat_ofNat']
  omega

theorem fin_mod_self (i : Fin NUM) : (⟨i.val % NUM, Nat.mod_lt _ (by decide)⟩ : Fin NUM) = i :=
  Fin.ext (Nat.mod_eq_of_lt i.isLt)

/-- **`free_chain` frees exactly the three descriptors of a chain.** -/
theorem freeChain_chain {d : Disk} {i0 i1 i2 : Fin NUM} (h : Chain d.desc d.free i0 i1 i2) :
    freeChain (NUM + 1) i0.val d = some (((d.release i0).release i1).release i2) := by
  -- the three rounds, each reading the flags the request wrote
  have hd1 : (d.release i0).desc i1 = d.desc i1 := by simp [Disk.release, Ne.symm h.ne01]
  have hd2 : ((d.release i0).release i1).desc i2 = ⟨VRING_DESC_F_WRITE, 0⟩ := by
    simp [Disk.release, Ne.symm h.ne02, Ne.symm h.ne12, h.desc2]
  have hf1 : (d.release i0).free i1 = false := by simp [Disk.release, Ne.symm h.ne01, h.taken1]
  have hf2 : ((d.release i0).release i1).free i2 = false := by
    simp [Disk.release, Ne.symm h.ne02, Ne.symm h.ne12, h.taken2]
  rw [show NUM + 1 = NUM - 2 + 1 + 1 + 1 from rfl]
  simp only [freeChain, freeDesc_val h.taken0, fin_mod_self, h.desc0, toNat_toUInt16_fin,
    freeDesc_val hf1, hd1, h.next1, freeDesc_val hf2, hd2]
  have hn1 : (d.desc i1).flags &&& 1 ≠ 0 := h.flags1
  simp [VRING_DESC_F_NEXT, VRING_DESC_F_WRITE, hn1, show (2 : UInt16) &&& 1 = 0 from rfl]

/-! ### The interrupt -/

/-- The buffers that `disk.info` records for the heads `hs`. -/
def bufsOf (d : Disk) (hs : List UInt32) : List (Fin NBUF) :=
  hs.filterMap fun h => if hl : h.toNat < NUM then (d.info ⟨h.toNat, hl⟩).b else none

/-- `b->disk` cleared for the buffers `bs`. -/
def Disk.clear (d : Disk) (bs : List (Fin NBUF)) : Disk :=
  { d with bdisk := fun b => d.bdisk b && decide (b ∉ bs) }

/-- **The interrupt clears `b->disk` of the buffers named by the new `used` entries.**  When every
entry between `used_idx` and the device's index names a head whose status is `0` and whose
`info` records a buffer, the loop clears those buffers' `b->disk`, in order, and catches up with
the device. -/
theorem intrLoop_spec :
    ∀ (n : ℕ) (d : Disk), span d.usedIdx d.used.idx = n →
      (∀ h ∈ view d.used.ring (slotOf d.usedIdx) n, ∃ hl : h.toNat < NUM,
        (d.info ⟨h.toNat, hl⟩).status = 0 ∧ (d.info ⟨h.toNat, hl⟩).b ≠ none) →
      intrLoop n d = some ({ d.clear (bufsOf d (view d.used.ring (slotOf d.usedIdx) n)) with
        usedIdx := d.used.idx }, bufsOf d (view d.used.ring (slotOf d.usedIdx) n)) := by
  intro n
  induction n with
  | zero =>
    intro d hn _
    have := span_eq_zero_iff.1 hn
    simp only [intrLoop, view_zero, bufsOf, List.filterMap_nil, Disk.clear, List.not_mem_nil,
      not_false_eq_true, decide_true, Bool.and_true, ← this]
  | succ n ih =>
    intro d hn hall
    have hne : d.usedIdx ≠ d.used.idx := fun e => by rw [e, span_eq_zero_iff.2 rfl] at hn; omega
    have hspan : span (d.usedIdx + 1) d.used.idx = n := by have := span_add_one_left hne; omega
    -- the first entry, and the rest
    have hV : view d.used.ring (slotOf d.usedIdx) (n + 1) =
        d.used.ring (slotOf d.usedIdx) :: view d.used.ring (slotOf (d.usedIdx + 1)) n := by
      rw [← hn, view_pop16 _ hne, hspan]
    obtain ⟨hl, hst, hb⟩ := hall _ (by rw [hV]; exact List.mem_cons_self)
    obtain ⟨b, hb⟩ := Option.ne_none_iff_exists'.1 hb
    let d' : Disk := { d with bdisk := Function.update d.bdisk b false, usedIdx := d.usedIdx + 1 }
    have ih' := ih d' hspan fun h hh => hall h (by rw [hV]; exact List.mem_cons_of_mem _ hh)
    have hbufs : bufsOf d (view d.used.ring (slotOf d.usedIdx) (n + 1)) =
        b :: bufsOf d (view d.used.ring (slotOf (d.usedIdx + 1)) n) := by
      rw [hV]
      simp [bufsOf, hl, hb]
    rw [hbufs]
    simp only [intrLoop, hne, if_false, dif_pos hl, hst, ne_eq, not_true_eq_false, hb]
    rw [show ({ d with bdisk := Function.update d.bdisk b false, usedIdx := d.usedIdx + 1 } : Disk) = d'
      from rfl, ih']
    -- clearing `b` first and then the rest is clearing them all
    simp only [Option.map_some, Option.some.injEq, Prod.mk.injEq]
    simp only [Disk.clear, d', bufsOf]
    refine ⟨?_, trivial⟩
    congr 1
    funext x
    by_cases hx : x = b <;> simp [hx]

end Virtio

end Xv6Net
