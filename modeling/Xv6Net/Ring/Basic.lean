import Mathlib.Data.Fin.Basic
import Mathlib.Algebra.Group.Fin.Basic
import Mathlib.Logic.Function.Basic
import Mathlib.Data.List.Range
import Mathlib.Algebra.GroupWithZero.Nat

/-!
# Ring buffers

A ring buffer of `n` slots is an array `a : Fin n → α` with a head index: the occupied slots
are `head`, `head + 1`, … (all indices modulo `n`).  Both the kernel's per-port datagram queues
and the E1000's descriptor rings are of this shape.

* `RingBuf.slot h i` : the slot `i` places after `h`.
* `RingBuf.view a h k` : the contents of the `k` slots from `h` on, oldest first.  Writing the slot
  after the last one appends (`RingBuf.view_push`), advancing the head removes the first element
  (`RingBuf.view_pop`), writing a slot outside the occupied ones changes nothing
  (`RingBuf.view_update_of_forall_ne`), and the contents of `k + m` slots are those of the first
  `k` and of the next `m` (`RingBuf.view_add`).
* `RingBuf.InCyc a b j` : `j` lies in the cyclic interval `[a, b)`; `RingBuf.dist a b` is its length.
  The interval grows at its right end (`RingBuf.inCyc_add_one_right`) and shrinks at its left end
  (`RingBuf.inCyc_add_one_left`); `[a, b)` and `[b + 1, a)` are disjoint
  (`RingBuf.not_inCyc_of_inCyc_add_one`), and `[b + 1, b)` is every slot but `b`
  (`RingBuf.inCyc_of_add_one_eq`).

All arithmetic reduces to the fact that a sum of two indices wraps at most once
(`RingBuf.mod_eq_ite`).
-/

namespace Xv6Net

namespace RingBuf

variable {α : Type*} {n : ℕ}

/-- A sum of two numbers below `n` wraps at most once. -/
theorem mod_eq_ite {x : ℕ} (hx : x < 2 * n) : x % n = if x < n then x else x - n := by
  split_ifs with h
  · exact Nat.mod_eq_of_lt h
  · rw [Nat.mod_eq_sub_mod (by omega), Nat.mod_eq_of_lt (by omega)]

variable [NeZero n]

/-- The slot `i` places after `h`. -/
def slot (h : Fin n) (i : ℕ) : Fin n := ⟨(h.val + i) % n, Nat.mod_lt _ (Nat.pos_of_neZero n)⟩

@[simp] theorem slot_val (h : Fin n) (i : ℕ) : (slot h i).val = (h.val + i) % n := rfl

@[simp] theorem slot_zero (h : Fin n) : slot h 0 = h :=
  Fin.ext (by simp [Nat.mod_eq_of_lt h.isLt])

theorem val_add_one_eq (x : Fin n) : (x + 1).val = (x.val + 1) % n := by
  rw [Fin.val_add, Fin.val_one', Nat.add_mod_mod]

theorem slot_succ (h : Fin n) (i : ℕ) : slot h (i + 1) = slot h i + 1 := by
  apply Fin.ext
  rw [val_add_one_eq, slot_val, slot_val, Nat.mod_add_mod, Nat.add_assoc]

theorem slot_add_one (h : Fin n) (i : ℕ) : slot (h + 1) i = slot h (i + 1) := by
  apply Fin.ext
  rw [slot_val, slot_val, val_add_one_eq, Nat.mod_add_mod]
  congr 1; omega

/-- A whole revolution comes back. -/
theorem slot_self (h : Fin n) : slot h n = h :=
  Fin.ext (by simp [Nat.mod_eq_of_lt h.isLt])

/-- Two slots less than one revolution apart are different. -/
theorem slot_inj {h : Fin n} {i j : ℕ} (hi : i < n) (hj : j < n) :
    slot h i = slot h j ↔ i = j := by
  constructor
  · intro e
    have e' := congrArg Fin.val e
    simp only [slot_val] at e'
    have hh := h.isLt
    rw [mod_eq_ite (by omega), mod_eq_ite (by omega)] at e'
    split_ifs at e' <;> omega
  · rintro rfl; rfl

/-! ### The occupied slots -/

/-- The contents of the `k` slots of `a` from `h` on, oldest first. -/
def view (a : Fin n → α) (h : Fin n) (k : ℕ) : List α :=
  (List.range k).map fun i => a (slot h i)

@[simp] theorem view_length (a : Fin n → α) (h : Fin n) (k : ℕ) : (view a h k).length = k := by
  simp [view]

@[simp] theorem view_zero (a : Fin n → α) (h : Fin n) : view a h 0 = [] := rfl

theorem mem_view {a : Fin n → α} {h : Fin n} {k : ℕ} {x : α} :
    x ∈ view a h k ↔ ∃ i < k, a (slot h i) = x := by
  simp [view]

theorem view_succ (a : Fin n → α) (h : Fin n) (k : ℕ) :
    view a h (k + 1) = view a h k ++ [a (slot h k)] := by
  simp [view, List.range_succ]

/-- Advancing the head removes the oldest element. -/
theorem view_pop (a : Fin n → α) (h : Fin n) (k : ℕ) :
    view a h (k + 1) = a h :: view a (h + 1) k := by
  simp only [view, List.range_succ_eq_map, List.map_cons, List.map_map, slot_zero]
  congr 1
  apply List.map_congr_left
  intro i _
  simp [slot_add_one]

/-- Writing a slot that is not occupied leaves the contents alone. -/
theorem view_update_of_forall_ne [DecidableEq (Fin n)] (a : Fin n → α) (h j : Fin n) (x : α)
    (k : ℕ) (hj : ∀ i < k, slot h i ≠ j) : view (Function.update a j x) h k = view a h k := by
  simp only [view]
  apply List.map_congr_left
  intro i hi
  rw [Function.update_of_ne (hj i (List.mem_range.1 hi))]

/-- **Writing the slot after the last occupied one appends.** -/
theorem view_push [DecidableEq (Fin n)] (a : Fin n → α) (h : Fin n) (x : α) {k : ℕ}
    (hk : k < n) : view (Function.update a (slot h k) x) h (k + 1) = view a h k ++ [x] := by
  rw [view_succ, Function.update_self, view_update_of_forall_ne]
  intro i hi e
  exact absurd ((slot_inj (by omega) hk).1 e) (by omega)

/-- Counting `m` slots on from the slot `k` after `h` is counting `k + m` from `h`. -/
theorem slot_slot (h : Fin n) (k m : ℕ) : slot (slot h k) m = slot h (k + m) := by
  apply Fin.ext
  simp only [slot_val, Nat.mod_add_mod, Nat.add_assoc]

/-- The contents of `k + m` slots are those of the first `k` followed by those of the next `m`. -/
theorem view_add (a : Fin n → α) (h : Fin n) (k m : ℕ) :
    view a h (k + m) = view a h k ++ view a (slot h k) m := by
  induction m with
  | zero => simp
  | succ m ih => rw [← Nat.add_assoc, view_succ, ih, view_succ, slot_slot, List.append_assoc]

/-! ### Cyclic intervals -/

/-- The number of steps from `a` forward to `b`. -/
def dist (a b : Fin n) : ℕ := (b - a).val

omit [NeZero n] in
theorem dist_eq (a b : Fin n) :
    dist a b = if a.val ≤ b.val then b.val - a.val else b.val + n - a.val := by
  have ha := a.isLt
  have hb := b.isLt
  rw [dist, Fin.sub_def]
  simp only
  rw [mod_eq_ite (by omega)]
  split_ifs <;> omega

omit [NeZero n] in
theorem dist_lt (a b : Fin n) : dist a b < n := (b - a).isLt

@[simp] theorem dist_self (a : Fin n) : dist a a = 0 := by simp [dist]

theorem dist_slot (a : Fin n) {i : ℕ} (hi : i < n) : dist a (slot a i) = i := by
  have ha := a.isLt
  rw [dist_eq, slot_val, mod_eq_ite (by omega)]
  split_ifs <;> omega

theorem slot_dist (a b : Fin n) : slot a (dist a b) = b := by
  apply Fin.ext
  have ha := a.isLt
  have hb := b.isLt
  rw [slot_val, dist_eq]
  split_ifs with h
  · rw [Nat.mod_eq_of_lt (by omega)]; omega
  · rw [mod_eq_ite (by omega)]; split_ifs <;> omega

theorem dist_eq_zero_iff {a b : Fin n} : dist a b = 0 ↔ a = b := by
  constructor
  · intro h; rw [← slot_dist a b, h, slot_zero]
  · rintro rfl; exact dist_self a

/-- Stepping the right end forward by one lengthens the distance by one, unless it reaches
the left end. -/
theorem dist_add_one_right {a b : Fin n} (hb : b + 1 ≠ a) : dist a (b + 1) = dist a b + 1 := by
  have hd := dist_lt a b
  have hs : slot a (dist a b + 1) = b + 1 := by rw [slot_succ, slot_dist]
  have hlt : dist a b + 1 < n := by
    by_contra hc
    have hn : dist a b + 1 = n := by omega
    apply hb
    rw [← hs, hn]
    apply Fin.ext
    simp [Nat.mod_eq_of_lt a.isLt]
  rw [← hs, dist_slot a hlt]

/-- Stepping the left end forward by one shortens a non-empty distance by one. -/
theorem dist_add_one_left {a b : Fin n} (hab : a ≠ b) : dist (a + 1) b + 1 = dist a b := by
  have hd := dist_lt a b
  have h0 : dist a b ≠ 0 := fun h => hab (dist_eq_zero_iff.1 h)
  obtain ⟨k, hk⟩ : ∃ k, dist a b = k + 1 := ⟨dist a b - 1, by omega⟩
  have hs : slot (a + 1) k = b := by rw [slot_add_one, ← hk, slot_dist]
  have hk' : dist (a + 1) b = k := by rw [← hs, dist_slot _ (by omega)]
  omega

/-- From the slot after `j`, `j` is a whole revolution less one step away. -/
theorem dist_add_one_self (j : Fin n) : dist (j + 1) j = n - 1 := by
  have hn := Nat.pos_of_neZero n
  have hs : slot (j + 1) (n - 1) = j := by
    rw [slot_add_one, Nat.sub_add_cancel hn, slot_self]
  have := dist_slot (j + 1) (i := n - 1) (by omega)
  rwa [hs] at this

/-- `j` lies in the cyclic interval `[a, b)`: it is fewer steps from `a` than `b` is. -/
def InCyc (a b j : Fin n) : Prop := dist a j < dist a b

instance (a b j : Fin n) : Decidable (InCyc a b j) := inferInstanceAs (Decidable (_ < _))

theorem inCyc_iff_exists_slot {a b j : Fin n} :
    InCyc a b j ↔ ∃ i < dist a b, slot a i = j := by
  constructor
  · intro h; exact ⟨dist a j, h, slot_dist a j⟩
  · rintro ⟨i, hi, rfl⟩
    rw [InCyc, dist_slot a (lt_trans hi (dist_lt a b))]
    exact hi

@[simp] theorem not_inCyc_self (a j : Fin n) : ¬ InCyc a a j := by simp [InCyc]

omit [NeZero n] in
theorem not_inCyc_right (a b : Fin n) : ¬ InCyc a b b := lt_irrefl _

theorem inCyc_left {a b : Fin n} (hab : a ≠ b) : InCyc a b a := by
  rw [InCyc, dist_self]
  exact Nat.pos_of_ne_zero fun h => hab (dist_eq_zero_iff.1 h)

/-- **The interval grows at its right end.** -/
theorem inCyc_add_one_right {a b j : Fin n} (hb : b + 1 ≠ a) :
    InCyc a (b + 1) j ↔ InCyc a b j ∨ j = b := by
  rw [InCyc, InCyc, dist_add_one_right hb]
  constructor
  · intro h
    rcases Nat.lt_succ_iff_lt_or_eq.1 h with h | h
    · exact .inl h
    · right; rw [← slot_dist a j, h, slot_dist]
  · rintro (h | rfl) <;> omega

/-- **The interval shrinks at its left end.** -/
theorem inCyc_add_one_left {a b j : Fin n} (hab : a ≠ b) :
    InCyc (a + 1) b j ↔ InCyc a b j ∧ j ≠ a := by
  have hd := dist_add_one_left hab
  by_cases hj : j = a
  · subst hj
    simp only [InCyc, dist_self, ne_eq, not_true_eq_false, and_false, iff_false, not_lt]
    have := dist_lt (j + 1) b
    have := dist_add_one_self j
    omega
  · have hs : dist a j = dist (a + 1) j + 1 := (dist_add_one_left (Ne.symm hj)).symm
    simp only [InCyc, hj, ne_eq, not_false_eq_true, and_true]
    omega

/-- **A ring one short of full.**  When `b + 1 = a`, the interval `[a, b)` holds every slot
but `b`. -/
theorem inCyc_of_add_one_eq {a b j : Fin n} (hab : b + 1 = a) (hj : j ≠ b) : InCyc a b j := by
  subst hab
  have hlt := dist_lt (b + 1) j
  -- `j` is not the one slot a whole revolution less one step away
  have hne : dist (b + 1) j ≠ n - 1 := by
    intro h
    apply hj
    have hs : slot (b + 1) (dist (b + 1) b) = b := slot_dist _ _
    rw [← slot_dist (b + 1) j, h, ← dist_add_one_self b, hs]
  rw [InCyc, dist_add_one_self]
  omega

/-- **The intervals on either side of `b` do not meet**: `[b + 1, a)` and `[a, b)` are disjoint. -/
theorem not_inCyc_of_inCyc_add_one {a b j : Fin n} (h : InCyc (b + 1) a j) : ¬ InCyc a b j := by
  have ha := a.isLt
  have hb := b.isLt
  have hj := j.isLt
  -- in values: `b + 1` wraps at most once, then each distance is one of two differences
  simp only [InCyc, dist_eq, val_add_one_eq] at h ⊢
  rw [mod_eq_ite (by omega)] at h
  split_ifs at h ⊢ <;> omega

end RingBuf

end Xv6Net
