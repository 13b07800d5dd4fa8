import Xv6Net.Ring.Basic

/-!
# Free-running counters

A ring buffer of `n` slots can be indexed by free-running 32-bit counters instead of indices:
element number `c` of the stream lives in slot `c % n`, the writer's counter `w` and the reader's
counter `r` only move by one, and the buffer holds the elements `r, r + 1, …, w - 1`.  The
counters wrap past `2^32`; as long as `n` divides `2^32` the slot of a counter does not notice
(`RingBuf.slotOf_add_one`), and the number of elements is the difference `w - r` taken modulo
`2^32` (`RingBuf.span`).

* `RingBuf.slotOf c` : the slot of counter `c`.
* `RingBuf.span r w` : `(w - r) mod 2^32`, the number of counter values from `r` up to `w`.
  It grows by one when `w` goes up (`RingBuf.span_add_one_right`) and shrinks by one when `r`
  goes up (`RingBuf.span_add_one_left`); a test `w = r + k` is a test `span r w = k`
  (`RingBuf.eq_add_iff_span`).
* `RingBuf.view a (slotOf r) (span r w)` is the contents: storing at `w` and moving `w` on
  appends (`RingBuf.view_push_counter`), moving `r` on removes the first element
  (`RingBuf.view_pop_counter`), moving `w` back removes the last (`RingBuf.view_sub_one_right`),
  storing past the contents changes nothing (`RingBuf.view_update_counter`), and the contents
  split at a counter between the two (`RingBuf.view_span_add`).
-/

namespace Xv6Net

namespace RingBuf

variable {α : Type*} {n : ℕ}

/-! ### Differences of counters -/

/-- The number of counter values from `r` up to `w`. -/
def span (r w : UInt32) : ℕ := (w - r).toNat

theorem span_lt (r w : UInt32) : span r w < 2 ^ 32 := (w - r).toNat_lt

@[simp] theorem span_self (r : UInt32) : span r r = 0 := by simp [span]

theorem span_eq_zero_iff {r w : UInt32} : span r w = 0 ↔ r = w := by
  have := r.toNat_lt; have := w.toNat_lt
  rw [span, UInt32.toNat_sub, ← UInt32.toNat_inj]
  omega

theorem span_add_one_right {r w : UInt32} (h : span r w + 1 < 2 ^ 32) :
    span r (w + 1) = span r w + 1 := by
  simp only [span, UInt32.toNat_sub, UInt32.toNat_add, UInt32.toNat_one] at *
  have := r.toNat_lt; have := w.toNat_lt
  omega

theorem span_add_one_left {r w : UInt32} (h : r ≠ w) : span (r + 1) w + 1 = span r w := by
  have h' : r.toNat ≠ w.toNat := fun e => h (UInt32.toNat_inj.1 e)
  simp only [span, UInt32.toNat_sub, UInt32.toNat_add, UInt32.toNat_one]
  have := r.toNat_lt; have := w.toNat_lt
  omega

theorem span_sub_one_right {r w : UInt32} (h : r ≠ w) : span r (w - 1) + 1 = span r w := by
  have h' : r.toNat ≠ w.toNat := fun e => h (UInt32.toNat_inj.1 e)
  simp only [span, UInt32.toNat_sub, UInt32.toNat_one]
  have := r.toNat_lt; have := w.toNat_lt
  omega

theorem span_sub_one_left {r w : UInt32} (h : span r w + 1 < 2 ^ 32) :
    span (r - 1) w = span r w + 1 := by
  simp only [span, UInt32.toNat_sub, UInt32.toNat_one] at *
  have := r.toNat_lt; have := w.toNat_lt
  omega

/-- Three counters in order: the differences add up. -/
theorem span_add_span {r w e : UInt32} (h : span r w + span w e < 2 ^ 32) :
    span r w + span w e = span r e := by
  simp only [span, UInt32.toNat_sub] at *
  have := r.toNat_lt; have := w.toNat_lt; have := e.toNat_lt
  omega

/-- `w == r + k` compares the difference with `k`. -/
theorem eq_add_iff_span {r w : UInt32} {k : ℕ} (hk : k < 2 ^ 32) :
    w = r + k.toUInt32 ↔ span r w = k := by
  rw [← UInt32.toNat_inj]
  simp only [span, UInt32.toNat_sub, UInt32.toNat_add, Nat.toUInt32_eq, UInt32.toNat_ofNat']
  have := r.toNat_lt; have := w.toNat_lt
  omega

/-! ### The slot of a counter -/

variable [NeZero n]

/-- The slot of counter `c`: `c % n`. -/
def slotOf (c : UInt32) : Fin n := ⟨c.toNat % n, Nat.mod_lt _ (Nat.pos_of_neZero n)⟩

@[simp] theorem slotOf_val (c : UInt32) : (slotOf c : Fin n).val = c.toNat % n := rfl

section Divides

variable (hn : n ∣ 2 ^ 32)
include hn

theorem slotOf_add_one (c : UInt32) : slotOf (c + 1) = (slotOf c + 1 : Fin n) := by
  apply Fin.ext
  rw [val_add_one_eq, slotOf_val, slotOf_val, UInt32.toNat_add, UInt32.toNat_one,
    Nat.mod_mod_of_dvd _ hn, Nat.mod_add_mod]

theorem slotOf_sub_one (c : UInt32) : (slotOf (c - 1) + 1 : Fin n) = slotOf c := by
  rw [← slotOf_add_one hn, UInt32.sub_add_cancel]

/-- Counting `k` on from a counter is counting `k` slots on from its slot. -/
theorem slot_slotOf (c : UInt32) (k : ℕ) : slot (slotOf c) k = (slotOf (c + k.toUInt32) : Fin n) := by
  apply Fin.ext
  -- `k` enters modulo `2^32`, which `n` divides
  have hk : (c.toNat + k % 2 ^ 32) % n = (c.toNat + k) % n := by
    rw [Nat.add_mod, Nat.mod_mod_of_dvd _ hn, ← Nat.add_mod]
  rw [slot_val, slotOf_val, slotOf_val, UInt32.toNat_add, Nat.toUInt32_eq, UInt32.toNat_ofNat',
    Nat.mod_mod_of_dvd _ hn, hk, Nat.mod_add_mod]

/-- The slot after the contents is the writer's. -/
theorem slot_span (r w : UInt32) : slot (slotOf r) (span r w) = (slotOf w : Fin n) := by
  have hw : r + (w - r) = w := by
    rw [← UInt32.toNat_inj, UInt32.toNat_add, UInt32.toNat_sub]
    have := r.toNat_lt; have := w.toNat_lt
    omega
  rw [slot_slotOf hn, span, Nat.toUInt32_eq, UInt32.ofNat_toNat, hw]

/-! ### The contents between two counters -/

/-- **Storing at the writer's counter and moving it on appends.** -/
theorem view_push_counter [DecidableEq (Fin n)] (hn' : n < 2 ^ 32) (a : Fin n → α)
    {r w : UInt32} (x : α) (hk : span r w < n) :
    view (Function.update a (slotOf w) x) (slotOf r) (span r (w + 1)) =
      view a (slotOf r) (span r w) ++ [x] := by
  rw [span_add_one_right (by omega), ← slot_span hn r w, view_push _ _ _ hk]

/-- **Moving the reader's counter on removes the first element.** -/
theorem view_pop_counter (a : Fin n → α) {r w : UInt32} (h : r ≠ w) :
    view a (slotOf r) (span r w) = a (slotOf r) :: view a (slotOf (r + 1)) (span (r + 1) w) := by
  rw [← span_add_one_left h, view_pop, slotOf_add_one hn]

/-- Moving the writer's counter back removes the last element. -/
theorem view_sub_one_right (a : Fin n → α) {r w : UInt32} (h : r ≠ w) :
    view a (slotOf r) (span r w) =
      view a (slotOf r) (span r (w - 1)) ++ [a (slotOf (w - 1))] := by
  rw [← span_sub_one_right h, view_succ, slot_span hn]

/-- Storing at a counter `e` past the contents `[r, w)`, less than one revolution from `r`,
leaves the contents alone. -/
theorem view_update_counter [DecidableEq (Fin n)] (a : Fin n → α) {r w e : UInt32} (x : α)
    (hw : span r w ≤ span r e) (he : span r e < n) :
    view (Function.update a (slotOf e) x) (slotOf r) (span r w) = view a (slotOf r) (span r w) := by
  apply view_update_of_forall_ne
  intro i hi heq
  rw [← slot_span hn r e, slot_inj (by omega) he] at heq
  omega

/-- Contents up to `w'` are those up to `w` followed by those from `w` to `w'`, when `w` lies
between. -/
theorem view_span_add (a : Fin n → α) {r w w' : UInt32} (h : span r w + span w w' = span r w') :
    view a (slotOf r) (span r w') = view a (slotOf r) (span r w) ++ view a (slotOf w) (span w w') := by
  rw [← h, view_add, slot_span hn]

end Divides

end RingBuf

end Xv6Net
