import Xv6Net.Move.Basic

/-!
# The two `memmove`s (`kernel/string.c`, `user/ulib.c`)

The kernel and the user library each have a `memmove`, and they choose the direction of the copy
by different tests: the kernel copies downwards exactly when the source starts below the
destination and reaches into it (`s < d && s + n > d`), the user library copies upwards exactly
when the source starts above the destination (`src > dst`).  The kernel's count is a `uint`, the
user library's an `int`, and `while(n-- > 0)` runs no round for a count that is not positive.

Addresses are natural numbers: both ranges lie in one address space, so no pointer sum wraps.

* `Kernel.memmove_eq_move`, `User.memmove_eq_move` : each `memmove` moves the block, for every
  overlap;
* `memmove_copies_block` : what that means byte by byte.
-/

namespace Xv6Net

open Move

namespace Kernel

/-- `memmove(dst, src, n)` of `kernel/string.c`. -/
def memmove (m : ℕ → UInt8) (dst src : ℕ) (n : UInt32) : ℕ → UInt8 :=
  if n = 0 then m
  else if src < dst ∧ dst < src + n.toNat then copyBwd m dst src n.toNat
  else copyFwd m dst src n.toNat

theorem memmove_eq_move (m : ℕ → UInt8) (dst src : ℕ) (n : UInt32) :
    memmove m dst src n = move m dst src n.toNat := by
  unfold memmove
  split_ifs with h0 hb
  · rw [h0, UInt32.toNat_zero, move_zero]
  -- downwards: the source starts below the destination
  · exact copyBwd_eq_move (.inl (Nat.le_of_lt hb.1))
  -- upwards: the source starts at or above the destination, or ends at or below it
  · exact copyFwd_eq_move (by omega)

end Kernel

namespace User

/-- `memmove(vdst, vsrc, n)` of `user/ulib.c`. -/
def memmove (m : ℕ → UInt8) (vdst vsrc : ℕ) (n : Int32) : ℕ → UInt8 :=
  if vsrc > vdst then copyFwd m vdst vsrc n.toInt.toNat
  else copyBwd m vdst vsrc n.toInt.toNat

theorem memmove_eq_move (m : ℕ → UInt8) (vdst vsrc : ℕ) (n : Int32) :
    memmove m vdst vsrc n = move m vdst vsrc n.toInt.toNat := by
  unfold memmove
  split_ifs with h
  · exact copyFwd_eq_move (.inl (Nat.le_of_lt h))
  · exact copyBwd_eq_move (.inl (by omega))

end User

/-- Both `memmove`s copy the `n` source bytes to the destination and leave every other byte
alone, for every placement of the two ranges; the user library's count is `max n 0`. -/
theorem memmove_copies_block (m : ℕ → UInt8) (dst src : ℕ) :
    (∀ n : UInt32,
      (∀ i < n.toNat, Kernel.memmove m dst src n (dst + i) = m (src + i)) ∧
      ∀ a, a < dst ∨ dst + n.toNat ≤ a → Kernel.memmove m dst src n a = m a) ∧
    (∀ n : Int32,
      (∀ i < n.toInt.toNat, User.memmove m dst src n (dst + i) = m (src + i)) ∧
      ∀ a, a < dst ∨ dst + n.toInt.toNat ≤ a → User.memmove m dst src n a = m a) := by
  refine ⟨fun n => ?_, fun n => ?_⟩
  · rw [Kernel.memmove_eq_move]
    exact ⟨fun i hi => move_add_of_lt hi, fun a ha => move_of_not_mem ha⟩
  · rw [User.memmove_eq_move]
    exact ⟨fun i hi => move_add_of_lt hi, fun a ha => move_of_not_mem ha⟩

end Xv6Net
