import Mathlib.Logic.Function.Basic
import Mathlib.Order.Basic

/-!
# Moving a block of memory

A memory is a function from addresses to values.  `move m d s n` is `m` with the `n` values at
`[s, s + n)` written to `[d, d + n)`, all of them read before any is written: what a `memmove`
must produce, whatever the overlap.  A loop that copies one value at a time produces it when no
value it reads has been written by the loop before:

* `copyFwd_eq_move` : copying upwards from the start, when the source does not start below the
  destination, or lies wholly below it;
* `copyBwd_eq_move` : copying downwards from the end, when the source does not start above the
  destination, or lies wholly above it.
-/

namespace Xv6Net

namespace Move

variable {α : Type*}

/-- `m` with `[d, d + n)` replaced by the values of `[s, s + n)` before the move. -/
def move (m : ℕ → α) (d s n : ℕ) : ℕ → α := fun a =>
  if d ≤ a ∧ a < d + n then m (s + (a - d)) else m a

/-- `while(n-- > 0) *d++ = *s++;` -/
def copyFwd : (ℕ → α) → ℕ → ℕ → ℕ → (ℕ → α)
  | m, _, _, 0 => m
  | m, d, s, n + 1 => copyFwd (Function.update m d (m s)) (d + 1) (s + 1) n

/-- `s += n; d += n; while(n-- > 0) *--d = *--s;` -/
def copyBwd : (ℕ → α) → ℕ → ℕ → ℕ → (ℕ → α)
  | m, _, _, 0 => m
  | m, d, s, n + 1 => copyBwd (Function.update m (d + n) (m (s + n))) d s n

variable {m : ℕ → α} {d s n : ℕ}

@[simp] theorem move_zero (m : ℕ → α) (d s : ℕ) : move m d s 0 = m := by
  funext a
  rw [move, if_neg (by omega)]

/-- The `i`-th destination address holds the `i`-th source value. -/
theorem move_add_of_lt {i : ℕ} (h : i < n) : move m d s n (d + i) = m (s + i) := by
  rw [move, if_pos (by omega), Nat.add_sub_cancel_left]

/-- A move leaves every address outside the destination alone. -/
theorem move_of_not_mem {a : ℕ} (h : a < d ∨ d + n ≤ a) : move m d s n a = m a := by
  rw [move, if_neg (by omega)]

/-- One step upwards: the first value copied, then the move of the rest, which reads nothing the
step wrote. -/
theorem move_step_fwd (h : d ≤ s ∨ s + (n + 1) ≤ d) :
    move (Function.update m d (m s)) (d + 1) (s + 1) n = move m d s (n + 1) := by
  funext a
  unfold move
  by_cases ha : d + 1 ≤ a ∧ a < d + 1 + n
  · -- the source address of `a` is not `d`
    have hne : s + 1 + (a - (d + 1)) ≠ d := by omega
    rw [if_pos ha, if_pos (by omega), Function.update_of_ne hne]
    congr 1
    omega
  · rw [if_neg ha]
    by_cases had : a = d
    · subst had
      rw [if_pos (by omega), Function.update_self, Nat.sub_self, Nat.add_zero]
    · rw [if_neg (by omega), Function.update_of_ne had]

/-- One step downwards: the last value copied, then the move of the rest, which reads nothing
the step wrote. -/
theorem move_step_bwd (h : s ≤ d ∨ d + (n + 1) ≤ s) :
    move (Function.update m (d + n) (m (s + n))) d s n = move m d s (n + 1) := by
  funext a
  unfold move
  by_cases ha : d ≤ a ∧ a < d + n
  · -- the source address of `a` is not `d + n`
    have hne : s + (a - d) ≠ d + n := by omega
    rw [if_pos ha, if_pos (by omega), Function.update_of_ne hne]
  · rw [if_neg ha]
    by_cases had : a = d + n
    · subst had
      rw [if_pos (by omega), Function.update_self, Nat.add_sub_cancel_left]
    · rw [if_neg (by omega), Function.update_of_ne had]

/-- **Copying upwards** moves the block when the source starts at or above the destination, or
ends below it. -/
theorem copyFwd_eq_move (h : d ≤ s ∨ s + n ≤ d) : copyFwd m d s n = move m d s n := by
  induction n generalizing m d s with
  | zero => simp [copyFwd]
  | succ n ih =>
    rw [copyFwd, ih (by omega), move_step_fwd h]

/-- **Copying downwards** moves the block when the source starts at or below the destination, or
lies above its end. -/
theorem copyBwd_eq_move (h : s ≤ d ∨ d + n ≤ s) : copyBwd m d s n = move m d s n := by
  induction n generalizing m with
  | zero => simp [copyBwd]
  | succ n ih =>
    rw [copyBwd, ih (by omega), move_step_bwd h]

end Move

end Xv6Net
