import Mathlib.Data.Nat.ModEq
import Mathlib.Algebra.BigOperators.Group.List.Basic
import Mathlib.Tactic.Ring
import Mathlib.Tactic.Linarith

/-!
# One's-complement sums

The Internet checksum adds 16-bit words with an end-around carry: a carry out of the top bit is
added back at the bottom.  Over words below a base `B` (`2 ^ 16` for the checksum) this is
addition modulo `B - 1`, in which `B - 1` ("all ones") stands for zero once anything non-zero
has been added.  Implementations do not add with an end-around carry word by word; they sum into
a wider accumulator and fold its carries back afterwards.  This module gives both and relates
them; nothing in it is about a particular protocol.

* `onesAdd B a b`, `onesSum B ws` : end-around-carry addition and the sum of a list of words.
  `onesSum_modEq` : the sum is the plain sum modulo `B - 1`; `onesSum_eq_pred` : words whose
  plain sum is a multiple of `B - 1`, not all zero, sum to all ones.
* `fold B s = s % B + s / B` : the carries of an accumulator folded back once, and
  `foldTwice B s`, the low word after folding twice.  For an accumulator below `B * B`, two
  folds suffice: `foldTwice_modEq`, `foldTwice_eq_zero_iff`.
* `swapDigits b x` : the two base-`b` digits of `x < b * b` exchanged (a byte swap for
  `b = 256`), an involution (`swapDigits_swapDigits`).  It is multiplication by `b` modulo `b * b - 1` (`swapDigits_modEq`), so a sum of
  words read in the other byte order is the sum read in this order times `b`
  (`sum_map_swapDigits_modEq`): a one's-complement checksum does not depend on byte order.
-/

namespace Xv6Net

namespace OnesComplement

variable {B : ℕ}

/-! ### End-around-carry addition -/

/-- `a + b` with the carry out of the word added back at the bottom. -/
def onesAdd (B a b : ℕ) : ℕ := if a + b < B then a + b else a + b - (B - 1)

/-- The one's-complement sum of a list of words. -/
def onesSum (B : ℕ) (ws : List ℕ) : ℕ := ws.foldl (onesAdd B) 0

theorem onesAdd_lt (ha : a < B) (hb : b < B) : onesAdd B a b < B := by
  unfold onesAdd
  split_ifs <;> omega

theorem onesAdd_modEq (a b : ℕ) : onesAdd B a b ≡ a + b [MOD B - 1] := by
  unfold onesAdd
  split_ifs with h
  · rfl
  · -- the carry `B` becomes `1`: the difference is one `B - 1`
    exact (Nat.modEq_iff_dvd' (by omega)).2 ⟨1, by omega⟩

theorem onesAdd_eq_zero_iff (hB : 0 < B) : onesAdd B a b = 0 ↔ a = 0 ∧ b = 0 := by
  unfold onesAdd
  split_ifs <;> constructor <;> intro h <;> omega

/-- The fold of `onesSum` from an accumulator `acc`: below `B`, the plain sum modulo `B - 1`,
and zero only if it starts at zero and adds only zeros. -/
theorem foldl_onesAdd (hB : 0 < B) (ws : List ℕ) (hw : ∀ w ∈ ws, w < B) {acc : ℕ}
    (hacc : acc < B) :
    ws.foldl (onesAdd B) acc < B ∧ ws.foldl (onesAdd B) acc ≡ acc + ws.sum [MOD B - 1] ∧
      (ws.foldl (onesAdd B) acc = 0 ↔ acc = 0 ∧ ∀ w ∈ ws, w = 0) := by
  induction ws generalizing acc with
  | nil => simp [hacc, Nat.ModEq.refl]
  | cons w ws ih =>
    have hw' := hw w List.mem_cons_self
    obtain ⟨hlt, hmod, hzero⟩ :=
      ih (fun v hv => hw v (List.mem_cons_of_mem _ hv)) (onesAdd_lt hacc hw')
    refine ⟨hlt, ?_, ?_⟩
    · calc ws.foldl (onesAdd B) (onesAdd B acc w)
          ≡ onesAdd B acc w + ws.sum [MOD B - 1] := hmod
        _ ≡ acc + w + ws.sum [MOD B - 1] := (onesAdd_modEq acc w).add_right _
        _ = acc + (w :: ws).sum := by rw [List.sum_cons, Nat.add_assoc]
    · rw [List.foldl_cons, hzero, onesAdd_eq_zero_iff hB, List.forall_mem_cons, and_assoc]

theorem onesSum_lt (hB : 0 < B) {ws : List ℕ} (hw : ∀ w ∈ ws, w < B) : onesSum B ws < B :=
  (foldl_onesAdd hB ws hw hB).1

theorem onesSum_modEq (hB : 0 < B) {ws : List ℕ} (hw : ∀ w ∈ ws, w < B) :
    onesSum B ws ≡ ws.sum [MOD B - 1] := by
  have := (foldl_onesAdd hB ws hw hB).2.1
  rwa [Nat.zero_add] at this

theorem onesSum_eq_zero_iff (hB : 0 < B) {ws : List ℕ} (hw : ∀ w ∈ ws, w < B) :
    onesSum B ws = 0 ↔ ∀ w ∈ ws, w = 0 := by
  rw [onesSum, (foldl_onesAdd hB ws hw hB).2.2]
  simp

/-- **All ones.**  Words whose plain sum is a multiple of `B - 1`, not all zero, have the
one's-complement sum `B - 1`. -/
theorem onesSum_eq_pred (hB : 1 < B) {ws : List ℕ} (hw : ∀ w ∈ ws, w < B)
    (hsum : ws.sum % (B - 1) = 0) (hne : ∃ w ∈ ws, w ≠ 0) : onesSum B ws = B - 1 := by
  have hlt := onesSum_lt (by omega) hw
  have hmod : onesSum B ws % (B - 1) = 0 := Eq.trans (onesSum_modEq (by omega) hw) hsum
  have hpos : onesSum B ws ≠ 0 := by
    rw [Ne, onesSum_eq_zero_iff (by omega) hw]
    obtain ⟨w, hw, h⟩ := hne
    exact fun hall => h (hall w hw)
  -- a multiple of `B - 1` below `B` is `0` or `B - 1`
  obtain ⟨k, hk⟩ := Nat.dvd_of_mod_eq_zero hmod
  rcases k with _ | _ | k
  · omega
  · omega
  · have : (B - 1) * 2 ≤ (B - 1) * (k + 1 + 1) := Nat.mul_le_mul_left _ (by omega)
    omega

/-! ### Folding the carries of an accumulator -/

/-- The carries of an accumulator folded back once: `(s & 0xffff) + (s >> 16)` for `B = 2 ^ 16`. -/
def fold (B s : ℕ) : ℕ := s % B + s / B

/-- Two folds, the second also for the carry of the first, and the low word of the result. -/
def foldTwice (B s : ℕ) : ℕ := (fold B s + fold B s / B) % B

theorem fold_modEq (hB : 0 < B) (s : ℕ) : fold B s ≡ s [MOD B - 1] := by
  have hs := Nat.div_add_mod s B
  have hle : fold B s ≤ s := by
    unfold fold
    have : s / B ≤ B * (s / B) := Nat.le_mul_of_pos_left _ hB
    omega
  -- `s - fold B s` is `(B - 1) * (s / B)`
  refine (Nat.modEq_iff_dvd' hle).2 ⟨s / B, ?_⟩
  rw [Nat.sub_one_mul]
  unfold fold
  omega

theorem fold_le (hs : s < B * B) : fold B s ≤ 2 * (B - 1) := by
  have hB : 0 < B := Nat.pos_of_ne_zero (by rintro rfl; simp at hs)
  have h1 : s % B < B := Nat.mod_lt _ hB
  have h2 : s / B < B := Nat.div_lt_of_lt_mul hs
  unfold fold
  omega

/-- **Two folds suffice** for an accumulator below `B * B`: the low word is the accumulator
modulo `B - 1`. -/
theorem foldTwice_modEq (hB : 0 < B) (hs : s < B * B) : foldTwice B s ≡ s [MOD B - 1] := by
  have hf := fold_le hs
  refine Nat.ModEq.trans ?_ (fold_modEq hB s)
  unfold foldTwice
  by_cases h : fold B s < B
  · rw [Nat.div_eq_of_lt h, Nat.add_zero, Nat.mod_eq_of_lt h]
  · -- the first fold carried once more: `f + 1 - B` is `f - (B - 1)`
    have h1 : fold B s / B = 1 := by
      exact Nat.div_eq_of_lt_le (by omega) (by omega)
    rw [h1, Nat.mod_eq_sub_mod (by omega), Nat.mod_eq_of_lt (by omega)]
    exact (Nat.modEq_iff_dvd' (by omega)).2 ⟨1, by omega⟩

theorem foldTwice_eq_zero_iff (hB : 0 < B) (hs : s < B * B) : foldTwice B s = 0 ↔ s = 0 := by
  have hf := fold_le hs
  have hpos : s ≠ 0 → fold B s ≠ 0 := by
    intro h0 hz
    obtain ⟨h1, h2⟩ := Nat.add_eq_zero_iff.1 hz
    apply h0
    rw [← Nat.div_add_mod s B, h1, h2, Nat.mul_zero]
  unfold foldTwice
  constructor
  · intro h
    by_contra h0
    have := hpos h0
    by_cases hlt : fold B s < B
    · rw [Nat.div_eq_of_lt hlt, Nat.add_zero, Nat.mod_eq_of_lt hlt] at h
      exact this h
    · have h1 : fold B s / B = 1 := by
        exact Nat.div_eq_of_lt_le (by omega) (by omega)
      rw [h1, Nat.mod_eq_sub_mod (by omega), Nat.mod_eq_of_lt (by omega)] at h
      omega
  · rintro rfl
    simp [fold]

/-! ### Byte order -/

/-- The two base-`b` digits of `x` exchanged. -/
def swapDigits (b x : ℕ) : ℕ := x % b * b + x / b

theorem swapDigits_lt (hx : x < b * b) : swapDigits b x < b * b := by
  have hb : 0 < b := Nat.pos_of_ne_zero (by rintro rfl; simp at hx)
  have h1 : x % b < b := Nat.mod_lt _ hb
  have h2 : x / b < b := Nat.div_lt_of_lt_mul hx
  unfold swapDigits
  nlinarith

/-- Exchanging the digits twice gives the number back. -/
theorem swapDigits_swapDigits (hx : x < b * b) : swapDigits b (swapDigits b x) = x := by
  have hb : 0 < b := Nat.pos_of_ne_zero (by rintro rfl; simp at hx)
  have hlo : x % b < b := Nat.mod_lt _ hb
  have hhi : x / b < b := Nat.div_lt_of_lt_mul hx
  -- the low digit of the swapped number is the old high digit, and the other way round
  have h1 : (x % b * b + x / b) % b = x / b := by
    rw [Nat.mul_add_mod_self_right, Nat.mod_eq_of_lt hhi]
  have h2 : (x % b * b + x / b) / b = x % b := by
    rw [Nat.add_comm, Nat.add_mul_div_right _ _ hb, Nat.div_eq_of_lt hhi, Nat.zero_add]
  unfold swapDigits
  rw [h1, h2, Nat.mul_comm, Nat.div_add_mod]

/-- Exchanging the digits multiplies by `b` modulo `b * b - 1`. -/
theorem swapDigits_modEq (hb : 0 < b) (x : ℕ) : swapDigits b x ≡ b * x [MOD b * b - 1] := by
  -- `b * x = b * b * h + b * l` and `b * b` is `1` modulo `b * b - 1`
  have hx := Nat.div_add_mod x b
  have hle : swapDigits b x ≤ b * x := by
    unfold swapDigits
    nlinarith [Nat.le_mul_of_pos_left (x / b) (Nat.mul_pos hb hb)]
  refine (Nat.modEq_iff_dvd' hle).2 ⟨x / b, ?_⟩
  unfold swapDigits
  have e : b * x = b * b * (x / b) + x % b * b := by
    conv_lhs => rw [← hx]
    ring
  rw [e, Nat.sub_one_mul]
  have : x / b ≤ b * b * (x / b) := Nat.le_mul_of_pos_left _ (Nat.mul_pos hb hb)
  omega

/-- Words read in the other byte order sum to `b` times the sum, modulo `b * b - 1`. -/
theorem sum_map_swapDigits_modEq (hb : 0 < b) (ws : List ℕ) :
    (ws.map (swapDigits b)).sum ≡ b * ws.sum [MOD b * b - 1] := by
  induction ws with
  | nil => simp [Nat.ModEq.refl]
  | cons w ws ih =>
    rw [List.map_cons, List.sum_cons, List.sum_cons, Nat.mul_add]
    exact (swapDigits_modEq hb w).add ih

end OnesComplement

end Xv6Net
