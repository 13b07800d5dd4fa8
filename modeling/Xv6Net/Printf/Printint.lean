import Mathlib.Data.UInt
import Mathlib.Algebra.Ring.Int.Defs

/-!
# `printint` (`kernel/printf.c`, `user/printf.c`)

The kernel's and the user library's `printint(xx, base, sign)` are one routine with two digit
tables: lower-case hexadecimal digits in the kernel, upper-case in `user/printf.c`.  A `long long`
is negated, when `sign` is set and it is negative, into an `unsigned long long`; the digit loop
writes the digits into `char buf[20]` least significant first, a `'-'` goes after them, and the
buffer is printed from the top down.

* `Printf.printint` : the routine, for a digit table; `Kernel.printint` and `User.printint` are its
  two copies.
* `numeral` : what a conventional numeral is, through core's `Nat.toDigits` (the digits of a
  number most significant first, with no leading zeros and `"0"` for zero, as Lean prints numerals).
* `digitLoop_eq` : the digit loop writes `Nat.toDigits` backwards.
* `printint_out` : `printint` prints the numeral of the value of `xx`, signed when `sign` is set;
  for `LLONG_MIN` the negation wraps to `2 ^ 63`, which is the magnitude.
* `printint_buf_length` : in base 10 or 16 it never writes more than 20 characters into `buf`.
-/

namespace Xv6Net

namespace Printf

/-- A base of numerals: at least two, so that the digit loop ends. -/
structure Base where
  val : ℕ
  two_le : 2 ≤ val

/-- The loop `do { buf[i++] = digits[x % base]; } while((x /= base) != 0)`: `buf` with the digits
of `x` written after it, least significant first. -/
def digitLoop (digits : List UInt8) (base : Base) (x : ℕ) (buf : List UInt8) : List UInt8 :=
  let buf := buf ++ [digits.getD (x % base.val) 0]
  if x / base.val = 0 then buf else digitLoop digits base (x / base.val) buf
termination_by x
decreasing_by
  exact Nat.div_lt_self (Nat.pos_of_ne_zero fun h => by simp_all) base.two_le

/-- `printint(xx, base, sign)` with the digit table `digits`: what it leaves in `buf`, and the
characters it prints, `buf` from the top down. -/
def printint (digits : List UInt8) (xx : Int64) (base : Base) (sign : Bool) :
    List UInt8 × List UInt8 :=
  let neg := sign && decide (xx < 0)
  -- `x = -xx`: for `LLONG_MIN` the negation wraps
  let x : UInt64 := if neg then (-xx).toUInt64 else xx.toUInt64
  let buf := digitLoop digits base x.toNat []
  let buf := if neg then buf ++ ['-'.toUInt8] else buf
  (buf, buf.reverse)

/-! ### Conventional numerals -/

/-- The conventional numeral of `z` in base `b`: a `'-'` for a negative number, then the digits of
`|z|` as Lean prints them, most significant first. -/
def numeral (b : ℕ) (z : ℤ) : List Char :=
  (if z < 0 then ['-'] else []) ++ Nat.toDigits b z.natAbs

theorem numeral_zero (b : ℕ) : numeral b 0 = ['0'] := by
  simp [numeral]

/-- A numeral has no leading zero: its first digit is `'0'` only for zero. -/
theorem toDigits_head {b : ℕ} (hb : 1 < b) {n : ℕ} (hn : n ≠ 0) :
    (Nat.toDigits b n).head? ≠ some '0' := by
  induction n using Nat.strong_induction_on with
  | _ n ih =>
  rw [Nat.toDigits_eq_if hb]
  by_cases hlt : n < b
  · simpa [hlt] using hn
  · -- more digits: the first is the first of `n / b`
    have hq : n / b ≠ 0 := (Nat.div_pos (by omega) (by omega)).ne'
    rw [if_neg hlt, List.head?_append_of_ne_nil _ Nat.toDigits_ne_nil]
    exact ih _ (Nat.div_lt_self (by omega) hb) hq

/-- The value `printint` shows: `xx` as a signed number when `sign` is set, as an unsigned one
otherwise. -/
def shown (xx : Int64) (sign : Bool) : ℤ := if sign then xx.toInt else xx.toUInt64.toNat

/-! ### The sign and the magnitude -/

/-- The signed value of a `long long` from its bits. -/
theorem toInt_eq_cond (xx : Int64) :
    xx.toInt = if 2 * xx.toUInt64.toNat < 2 ^ 64 then (xx.toUInt64.toNat : ℤ)
      else (xx.toUInt64.toNat : ℤ) - 2 ^ 64 :=
  BitVec.toInt_eq_toNat_cond xx.toBitVec

/-- `printint` writes a `'-'` exactly for a negative value shown. -/
theorem neg_iff (xx : Int64) (sign : Bool) :
    (sign && decide (xx < 0)) = true ↔ shown xx sign < 0 := by
  cases sign
  · simp [shown]
  · simp [shown, Int64.lt_iff_toInt_lt]

/-- The magnitude `printint` prints is that of the value shown; for `LLONG_MIN` the negation
wraps to `2 ^ 63`, which is its magnitude. -/
theorem magnitude (xx : Int64) (sign : Bool) :
    (if (sign && decide (xx < 0)) = true then (-xx).toUInt64 else xx.toUInt64).toNat =
      (shown xx sign).natAbs := by
  have hu := xx.toUInt64.toNat_lt
  have hc := toInt_eq_cond xx
  cases sign
  · simp [shown]
  · by_cases hneg : xx < 0
    · -- the negation: `2 ^ 64 - x` as an unsigned number
      have hi : xx.toInt < 0 := by simpa [Int64.lt_iff_toInt_lt] using hneg
      rw [if_pos (by simp [hneg]), Int64.toUInt64_neg, UInt64.toNat_neg, shown, if_pos rfl]
      simp only [UInt64.size] at hu ⊢
      split_ifs at hc <;> omega
    · have hi : 0 ≤ xx.toInt := by
        have := mt (Int64.lt_iff_toInt_lt).2 hneg
        simpa using this
      rw [if_neg (by simp [hneg]), shown, if_pos rfl]
      split_ifs at hc <;> omega

/-! ### The digit loop -/

/-- **The digit loop writes `Nat.toDigits` backwards**, for a table whose entries below the base
are the characters `f` makes of Lean's digits. -/
theorem digitLoop_eq {digits : List UInt8} {base : Base} {f : Char → UInt8}
    (hdig : ∀ d < base.val, digits.getD d 0 = f (Nat.digitChar d)) (x : ℕ) (buf : List UInt8) :
    digitLoop digits base x buf = buf ++ ((Nat.toDigits base.val x).map f).reverse := by
  induction x using Nat.strong_induction_on generalizing buf with
  | _ x ih =>
  have hb : 1 < base.val := base.two_le
  rw [digitLoop, Nat.toDigits_eq_if hb]
  by_cases hx : x < base.val
  · -- one digit
    have hq : x / base.val = 0 := Nat.div_eq_of_lt hx
    rw [if_pos hq, if_pos hx, Nat.mod_eq_of_lt hx, hdig x hx]
    simp
  · have hq : x / base.val ≠ 0 := (Nat.div_pos (by omega) (by omega)).ne'
    have hlt : x / base.val < x := Nat.div_lt_self (by omega) hb
    simp only [hq, if_false, if_neg hx]
    rw [ih _ hlt, hdig _ (Nat.mod_lt _ (by omega))]
    simp

theorem digitLoop_length (digits : List UInt8) (base : Base) (x : ℕ) (buf : List UInt8) :
    (digitLoop digits base x buf).length = buf.length + (Nat.toDigits base.val x).length := by
  induction x using Nat.strong_induction_on generalizing buf with
  | _ x ih =>
  have hb : 1 < base.val := base.two_le
  rw [digitLoop, Nat.toDigits_eq_if hb]
  by_cases hx : x < base.val
  · rw [if_pos (Nat.div_eq_of_lt hx), if_pos hx]
    simp
  · have hq : x / base.val ≠ 0 := (Nat.div_pos (by omega) (by omega)).ne'
    rw [if_neg hq, if_neg hx, ih _ (Nat.div_lt_self (by omega) hb)]
    simp only [List.length_append, List.length_singleton]
    omega

/-! ### `printint` -/

section Printint

variable {digits : List UInt8} {base : Base}

/-- **`printint` prints the numeral of the value shown**, for a table whose digits are the
characters `f` makes of Lean's. -/
theorem printint_out {f : Char → UInt8}
    (hdig : ∀ d < base.val, digits.getD d 0 = f (Nat.digitChar d)) (hminus : f '-' = '-'.toUInt8)
    (xx : Int64) (sign : Bool) :
    (printint digits xx base sign).2 = (numeral base.val (shown xx sign)).map f := by
  have hx := magnitude xx sign
  have hn := neg_iff xx sign
  simp only [printint, numeral]
  rw [digitLoop_eq hdig, hx]
  by_cases hneg : (sign && decide (xx < 0)) = true
  · rw [if_pos hneg, if_pos (hn.1 hneg)]
    simp [hminus]
  · rw [if_neg hneg, if_neg (mt hn.2 hneg)]
    simp

/-- **`buf` holds at most 20 characters** in a base of at least 10: the 20 digits of `2 ^ 64 - 1`,
or a `'-'` and the 19 digits of `2 ^ 63`. -/
theorem printint_buf_length (hb : 10 ≤ base.val) (xx : Int64) (sign : Bool) :
    (printint digits xx base sign).1.length ≤ 20 := by
  have hx := magnitude xx sign
  have hn := neg_iff xx sign
  have hb1 : 1 < base.val := base.two_le
  simp only [printint]
  by_cases hneg : (sign && decide (xx < 0)) = true
  · -- a negative value: at most `2 ^ 63`, 19 digits
    have hs := hn.1 hneg
    have hlo : -2 ^ 63 ≤ shown xx sign := by
      cases sign
      · simp at hneg
      · exact Int64.le_toInt xx
    have hmag : (shown xx sign).natAbs < base.val ^ 19 :=
      calc (shown xx sign).natAbs ≤ 2 ^ 63 := by omega
        _ < 10 ^ 19 := by decide
        _ ≤ base.val ^ 19 := Nat.pow_le_pow_left hb 19
    rw [hx, if_pos hneg, List.length_append, digitLoop_length]
    have := (Nat.length_toDigits_le_iff hb1 (by decide)).2 hmag
    simp only [List.length_nil, List.length_singleton]
    omega
  · -- otherwise at most `2 ^ 64 - 1`, 20 digits
    have hmag : (shown xx sign).natAbs < base.val ^ 20 :=
      calc _ < 2 ^ 64 := hx ▸ UInt64.toNat_lt _
        _ < 10 ^ 20 := by decide
        _ ≤ base.val ^ 20 := Nat.pow_le_pow_left hb 20
    rw [hx, if_neg hneg, digitLoop_length]
    have := (Nat.length_toDigits_le_iff hb1 (by decide)).2 hmag
    simp only [List.length_nil]
    omega

end Printint

end Printf

namespace Kernel

/-- `digits[]` of `kernel/printf.c`. -/
def digits : List UInt8 := "0123456789abcdef".toList.map Char.toUInt8

/-- `printint(xx, base, sign)` of `kernel/printf.c`: `buf`, and the characters passed to
`consputc`. -/
def printint (xx : Int64) (base : Printf.Base) (sign : Bool) : List UInt8 × List UInt8 :=
  Printf.printint digits xx base sign

theorem digits_getD : ∀ d < 16, digits.getD d 0 = (Nat.digitChar d).toUInt8 := by
  decide

end Kernel

namespace User

/-- `digits[]` of `user/printf.c`. -/
def digits : List UInt8 := "0123456789ABCDEF".toList.map Char.toUInt8

/-- `printint(fd, xx, base, sgn)` of `user/printf.c`: `buf`, and the characters written to `fd`,
one `write` each. -/
def printint (xx : Int64) (base : Printf.Base) (sgn : Bool) : List UInt8 × List UInt8 :=
  Printf.printint digits xx base sgn

theorem digits_getD : ∀ d < 16, digits.getD d 0 = (Nat.digitChar d).toUpper.toUInt8 := by
  decide

end User

namespace Printf

/-- **`printint`, in the kernel and in the user library, prints the conventional numeral** of the
value of `xx`, signed when `sign` is set: a `'-'` exactly for a negative value, then the digits of
its magnitude (`2 ^ 63` for `LLONG_MIN`), in lower-case hexadecimal in the kernel and upper-case in
the user library; and neither writes more than 20 characters into `buf`. -/
theorem printint_conventional (xx : Int64) (base : Base) (hb : base.val = 10 ∨ base.val = 16)
    (sign : Bool) :
    (Kernel.printint xx base sign).2 = (numeral base.val (shown xx sign)).map Char.toUInt8 ∧
      (User.printint xx base sign).2 =
        (numeral base.val (shown xx sign)).map (fun c => c.toUpper.toUInt8) ∧
      (Kernel.printint xx base sign).1.length ≤ 20 ∧
      (User.printint xx base sign).1.length ≤ 20 := by
  have h10 : 10 ≤ base.val := by omega
  -- both tables hold Lean's digit characters below 16
  have hk : ∀ d < base.val, Kernel.digits.getD d 0 = (Nat.digitChar d).toUInt8 :=
    fun d hd => Kernel.digits_getD d (by omega)
  have hu : ∀ d < base.val, User.digits.getD d 0 = (Nat.digitChar d).toUpper.toUInt8 :=
    fun d hd => User.digits_getD d (by omega)
  exact ⟨printint_out hk rfl xx sign,
    printint_out (f := fun c => c.toUpper.toUInt8) hu rfl xx sign,
    printint_buf_length h10 xx sign, printint_buf_length h10 xx sign⟩

example : (Kernel.printint Int64.minValue ⟨10, by decide⟩ true).2 =
    "-9223372036854775808".toList.map Char.toUInt8 := by
  rw [Kernel.printint, printint_out (f := Char.toUInt8)
    (fun d hd => Kernel.digits_getD d (Nat.lt_of_lt_of_le hd (by decide))) rfl]
  decide

example : (Kernel.printint (-1) ⟨10, by decide⟩ false).2 =
    "18446744073709551615".toList.map Char.toUInt8 := by
  rw [Kernel.printint, printint_out (f := Char.toUInt8)
    (fun d hd => Kernel.digits_getD d (Nat.lt_of_lt_of_le hd (by decide))) rfl]
  decide

/-- `printint(LLONG_MIN, 10, 1)`. -/
theorem printint_conventional_llong_min :
    (Kernel.printint Int64.minValue ⟨10, by decide⟩ true).2 =
        (numeral 10 (shown Int64.minValue true)).map Char.toUInt8 ∧
      (User.printint Int64.minValue ⟨10, by decide⟩ true).2 =
        (numeral 10 (shown Int64.minValue true)).map (fun c => c.toUpper.toUInt8) ∧
      (Kernel.printint Int64.minValue ⟨10, by decide⟩ true).1.length ≤ 20 ∧
      (User.printint Int64.minValue ⟨10, by decide⟩ true).1.length ≤ 20 :=
  printint_conventional Int64.minValue ⟨10, by decide⟩ (.inl rfl) true

end Printf

end Xv6Net
