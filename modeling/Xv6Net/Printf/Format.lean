import Xv6Net.Printf.Printint

/-!
# `printf` (`kernel/printf.c`, `user/printf.c`)

Both `printf`s read their format a character at a time; a `%` starts a conversion, which looks at
most three characters ahead (`%lld`) and reads the next argument with `va_arg`.  The kernel's loop
and the user library's state machine (`vprintf`) dispatch on one chain of tests, in the same
order; they differ in the digit table and in `%c`, which the kernel prints with `consputc`, where
`BACKSPACE` (256) is rubbed out.

Arguments are the 64-bit slots of the calling convention: `va_arg(ap, int)` takes the low 32 bits
as an `int`, `va_arg(ap, uint32)` as an unsigned one, and a string argument is its characters
(`none` for the null pointer).

* `conversion` : one `%` sequence; `Printf.printfLoop` : the kernel's loop, for a digit table and a
  `%c` printer; `Kernel.printf`, and `User.vprintfLoop`, the user library's own loop.
* `vprintfLoop_eq` : the user library's state machine prints what the kernel's loop prints with the
  user's table and `putc`.
* `Piece`, `render` : a format as a list of characters and conversions, and what it means:
  `%d` the numeral of an `int`, `%lu` of an `unsigned long`, `%x` the hexadecimal numeral, `%p` 16
  hexadecimal digits, and so on.
* `printfLoop_render`, `Kernel.printf_render`, `User.printf_render` : `printf` of the text of
  such a format prints its meaning.
-/

namespace Xv6Net

namespace Printf

/-- A variadic argument as `va_arg` reads it: a 64-bit slot, or a string (`none` is the null
pointer).  Reading one as the other is undefined in C; here a string reads as the number `0` and a
number as the null pointer. -/
inductive Arg
  | word (w : UInt64)
  | str (s : Option (List UInt8))

/-- The slot of an argument as a number. -/
def Arg.bits : Arg → UInt64
  | word w => w
  | str _ => 0

/-- The slot of an argument as a string. -/
def Arg.chars : Arg → Option (List UInt8)
  | word _ => none
  | str s => s

/-- `va_arg(ap, int)`, passed to `printint` as a `long long`. -/
def Arg.int (a : Arg) : Int64 := a.bits.toUInt32.toInt32.toInt64

/-- `va_arg(ap, uint64)`, passed to `printint` as a `long long`. -/
def Arg.long (a : Arg) : Int64 := a.bits.toInt64

/-- `va_arg(ap, uint32)`, passed to `printint` as a `long long`. -/
def Arg.uint (a : Arg) : Int64 := a.bits.toUInt32.toUInt64.toInt64

def ten : Base := ⟨10, by decide⟩

def sixteen : Base := ⟨16, by decide⟩

/-- The loop of `printptr`: `k` hexadecimal digits, the top four bits of `x` first. -/
def printptrLoop (digits : List UInt8) (x : UInt64) : ℕ → List UInt8
  | 0 => []
  | k + 1 => digits.getD (x >>> 60).toNat 0 :: printptrLoop digits (x <<< 4) k

/-- `printptr(x)`: `0x` and the 16 hexadecimal digits of `x`. -/
def printptr (digits : List UInt8) (x : UInt64) : List UInt8 :=
  '0'.toUInt8 :: 'x'.toUInt8 :: printptrLoop digits x 16

/-- `"(null)"`. -/
def nullStr : List UInt8 := "(null)".toList.map Char.toUInt8

/-- One `%` sequence, from the characters `c0`, `c1`, `c2` after the `%` (`0` past the end of the
format) and the next argument `a`: what it prints, how many characters after `c0` it takes, and
whether it reads `a`; `putc` prints a `%c` argument.  `none` is a `%` at the end of the format. -/
def conversion (digits : List UInt8) (putc : UInt32 → List UInt8) (c0 c1 c2 : UInt8) (a : Arg) :
    Option (List UInt8 × ℕ × Bool) :=
  if c0 = 'd'.toUInt8 then some ((printint digits a.int ten true).2, 0, true)
  else if c0 = 'l'.toUInt8 ∧ c1 = 'd'.toUInt8 then
    some ((printint digits a.long ten true).2, 1, true)
  else if c0 = 'l'.toUInt8 ∧ c1 = 'l'.toUInt8 ∧ c2 = 'd'.toUInt8 then
    some ((printint digits a.long ten true).2, 2, true)
  else if c0 = 'u'.toUInt8 then some ((printint digits a.uint ten false).2, 0, true)
  else if c0 = 'l'.toUInt8 ∧ c1 = 'u'.toUInt8 then
    some ((printint digits a.long ten false).2, 1, true)
  else if c0 = 'l'.toUInt8 ∧ c1 = 'l'.toUInt8 ∧ c2 = 'u'.toUInt8 then
    some ((printint digits a.long ten false).2, 2, true)
  else if c0 = 'x'.toUInt8 then some ((printint digits a.uint sixteen false).2, 0, true)
  else if c0 = 'l'.toUInt8 ∧ c1 = 'x'.toUInt8 then
    some ((printint digits a.long sixteen false).2, 1, true)
  else if c0 = 'l'.toUInt8 ∧ c1 = 'l'.toUInt8 ∧ c2 = 'x'.toUInt8 then
    some ((printint digits a.long sixteen false).2, 2, true)
  else if c0 = 'p'.toUInt8 then some (printptr digits a.bits, 0, true)
  else if c0 = 'c'.toUInt8 then some (putc a.bits.toUInt32, 0, true)
  -- `for(; *s; s++)`: the characters up to the first `0`
  else if c0 = 's'.toUInt8 then some ((a.chars.getD nullStr).takeWhile (· ≠ 0), 0, true)
  else if c0 = '%'.toUInt8 then some (['%'.toUInt8], 0, false)
  else if c0 = 0 then none
  -- an unknown sequence is printed as it is
  else some (['%'.toUInt8, c0], 0, false)

/-- The loop of `printf(fmt, ...)` of `kernel/printf.c` over the rest `fmt` of the format and the
arguments not yet read, with the digit table `digits` and the `%c` printer `putc`: the characters
it prints. -/
def printfLoop (digits : List UInt8) (putc : UInt32 → List UInt8) (fmt : List UInt8)
    (args : List Arg) : List UInt8 :=
  match fmt with
  | [] => []
  | cx :: fmt =>
    if cx = 0 then []
    else if cx ≠ '%'.toUInt8 then cx :: printfLoop digits putc fmt args
    else
      let c0 := fmt.getD 0 0
      let c1 := if c0 ≠ 0 then fmt.getD 1 0 else 0
      let c2 := if c1 ≠ 0 then fmt.getD 2 0 else 0
      match conversion digits putc c0 c1 c2 (args.headD (.word 0)) with
      | none => []
      | some (out, skip, used) =>
        out ++ printfLoop digits putc (fmt.drop (skip + 1)) (if used then args.tail else args)
termination_by fmt.length
decreasing_by
  all_goals simp only [List.length_cons, List.length_drop]
  all_goals omega

section Loop

variable {digits : List UInt8} {putc : UInt32 → List UInt8} {args : List Arg}

@[simp] theorem printfLoop_nil : printfLoop digits putc [] args = [] := by
  rw [printfLoop]

@[simp] theorem printfLoop_nul (fmt : List UInt8) :
    printfLoop digits putc (0 :: fmt) args = [] := by
  rw [printfLoop, if_pos rfl]

theorem printfLoop_lit {c : UInt8} (h0 : c ≠ 0) (hpct : c ≠ '%'.toUInt8) (fmt : List UInt8) :
    printfLoop digits putc (c :: fmt) args = c :: printfLoop digits putc fmt args := by
  rw [printfLoop, if_neg h0, if_pos hpct]

/-- After a `%`: the three characters the kernel looks at, and where it goes on. -/
theorem printfLoop_pct (fmt : List UInt8) :
    printfLoop digits putc ('%'.toUInt8 :: fmt) args =
      match conversion digits putc (fmt.getD 0 0)
          (if fmt.getD 0 0 ≠ 0 then fmt.getD 1 0 else 0)
          (if (if fmt.getD 0 0 ≠ 0 then fmt.getD 1 0 else 0) ≠ 0 then fmt.getD 2 0 else 0)
          (args.headD (.word 0)) with
      | none => []
      | some (out, skip, used) =>
        out ++ printfLoop digits putc (fmt.drop (skip + 1)) (if used then args.tail else args) := by
  rw [printfLoop, if_neg (by decide), if_neg (by simp)]

end Loop

/-! ### What a format means -/

/-- The conversions both `printf`s know, by the characters after the `%`. -/
inductive Conv
  | d | ld | lld | u | lu | llu | x | lx | llx | p | c | s | pct
  deriving DecidableEq, Repr

/-- The characters of a conversion after its `%`. -/
def Conv.text : Conv → List UInt8
  | d => ['d'.toUInt8]
  | ld => ['l'.toUInt8, 'd'.toUInt8]
  | lld => ['l'.toUInt8, 'l'.toUInt8, 'd'.toUInt8]
  | u => ['u'.toUInt8]
  | lu => ['l'.toUInt8, 'u'.toUInt8]
  | llu => ['l'.toUInt8, 'l'.toUInt8, 'u'.toUInt8]
  | x => ['x'.toUInt8]
  | lx => ['l'.toUInt8, 'x'.toUInt8]
  | llx => ['l'.toUInt8, 'l'.toUInt8, 'x'.toUInt8]
  | p => ['p'.toUInt8]
  | c => ['c'.toUInt8]
  | s => ['s'.toUInt8]
  | pct => ['%'.toUInt8]

/-- Whether a conversion takes an argument: all but `%%`. -/
def Conv.reads : Conv → Bool
  | pct => false
  | _ => true

/-- What a conversion prints for the argument `a`, by its meaning in C: the numeral of the value
the `int`, `long` or `unsigned` argument has, the 16 hexadecimal digits of a pointer, a character,
the characters of a string.  `f` prints a digit or the minus sign, `putc` a character. -/
def Conv.meaning (f : Char → UInt8) (putc : UInt32 → List UInt8) (a : Arg) : Conv → List UInt8
  | d => (numeral 10 a.bits.toUInt32.toInt32.toInt).map f
  | ld | lld => (numeral 10 a.bits.toInt64.toInt).map f
  | u => (numeral 10 a.bits.toUInt32.toNat).map f
  | lu | llu => (numeral 10 a.bits.toNat).map f
  | x => (numeral 16 a.bits.toUInt32.toNat).map f
  | lx | llx => (numeral 16 a.bits.toNat).map f
  | p => '0'.toUInt8 :: 'x'.toUInt8 ::
      (List.range 16).map fun i => f (Nat.digitChar (a.bits.toNat / 16 ^ (15 - i) % 16))
  | c => putc a.bits.toUInt32
  | s => (a.chars.getD nullStr).takeWhile (· ≠ 0)
  | pct => ['%'.toUInt8]

/-- A piece of a format: a character printed as it is (neither `0`, which ends the format, nor
`%`), or a conversion. -/
inductive Piece
  | lit (ch : UInt8) (h0 : ch ≠ 0) (hpct : ch ≠ '%'.toUInt8)
  | conv (k : Conv)

def Piece.text : Piece → List UInt8
  | lit ch _ _ => [ch]
  | conv k => '%'.toUInt8 :: k.text

/-- What a format means for a list of arguments: each conversion takes the next argument, and
`0` stands for an argument that is missing. -/
def render (f : Char → UInt8) (putc : UInt32 → List UInt8) :
    List Piece → List Arg → List UInt8
  | [], _ => []
  | .lit ch _ _ :: ps, args => ch :: render f putc ps args
  | .conv k :: ps, args =>
    k.meaning f putc (args.headD (.word 0)) ++
      render f putc ps (if k.reads then args.tail else args)

@[simp] theorem Arg.shown_int (a : Arg) : shown a.int true = a.bits.toUInt32.toInt32.toInt := by
  simp [shown, Arg.int, Int32.toInt_toInt64]

@[simp] theorem Arg.shown_long_true (a : Arg) : shown a.long true = a.bits.toInt64.toInt := rfl

@[simp] theorem Arg.shown_uint (a : Arg) : shown a.uint false = a.bits.toUInt32.toNat := by
  simp [shown, Arg.uint]

@[simp] theorem Arg.shown_long_false (a : Arg) : shown a.long false = a.bits.toNat := by
  simp [shown, Arg.long]

/-- Shifting left by four moves every hexadecimal digit of a 64-bit word one place up. -/
theorem toNat_shiftLeft_four_digit (x : UInt64) {j : ℕ} (hj : 1 ≤ j) (hj16 : j < 16) :
    (x <<< 4).toNat / 16 ^ j % 16 = x.toNat / 16 ^ (j - 1) % 16 := by
  obtain ⟨m, rfl⟩ : ∃ m, j = m + 1 := ⟨j - 1, by omega⟩
  have hsplit : (2 : ℕ) ^ 64 = 16 ^ (m + 1) * 16 ^ (15 - m) := by
    rw [← Nat.pow_add, show m + 1 + (15 - m) = 16 by omega]
    rfl
  have hx : (x <<< 4).toNat = x.toNat * 16 % (16 ^ (m + 1) * 16 ^ (15 - m)) := by
    rw [UInt64.toNat_shiftLeft, ← hsplit, Nat.shiftLeft_eq]
    rfl
  rw [hx, Nat.mod_mul_right_div_self, Nat.mod_mod_of_dvd _ (dvd_pow_self 16 (by omega)),
    Nat.pow_succ, Nat.mul_div_mul_right _ _ (by decide), Nat.add_sub_cancel]

theorem toNat_shiftRight_sixty (x : UInt64) : (x >>> 60).toNat = x.toNat / 16 ^ 15 % 16 := by
  have hx := x.toNat_lt
  rw [UInt64.toNat_shiftRight, Nat.shiftRight_eq_div_pow]
  simp only [show (60 : UInt64).toNat % 64 = 60 from rfl]
  rw [Nat.mod_eq_of_lt (by rw [show (16 : ℕ) ^ 15 = 2 ^ 60 from rfl]; omega)]
  rfl

/-- The loop of `printptr` prints the digits of `x` from the sixteenth down. -/
theorem printptrLoop_eq (digits : List UInt8) (k : ℕ) (hk : k ≤ 16) (x : UInt64) :
    printptrLoop digits x k =
      (List.range k).map fun i => digits.getD (x.toNat / 16 ^ (15 - i) % 16) 0 := by
  induction k generalizing x with
  | zero => rfl
  | succ k ih =>
    rw [printptrLoop, ih (by omega), List.range_succ_eq_map, List.map_cons, List.map_map,
      toNat_shiftRight_sixty]
    congr 1
    refine List.map_congr_left fun i hi => ?_
    have hi : i < k := List.mem_range.mp hi
    simp only [Function.comp_apply]
    rw [toNat_shiftLeft_four_digit x (by omega) (by omega), show 15 - i - 1 = 15 - (i + 1) by omega]

section Meaning

variable {digits : List UInt8} {putc : UInt32 → List UInt8} {f : Char → UInt8}
  (hdig : ∀ d < 16, digits.getD d 0 = f (Nat.digitChar d)) (hminus : f '-' = '-'.toUInt8)
include hdig

theorem printptr_eq (x : UInt64) :
    printptr digits x = '0'.toUInt8 :: 'x'.toUInt8 ::
      (List.range 16).map fun i => f (Nat.digitChar (x.toNat / 16 ^ (15 - i) % 16)) := by
  rw [printptr, printptrLoop_eq digits 16 le_rfl]
  congr 2
  exact List.map_congr_left fun i _ => hdig _ (Nat.mod_lt _ (by decide))

include hminus

theorem printint_out_of_le {base : Base} (hb : base.val ≤ 16) (xx : Int64) (sign : Bool) :
    (printint digits xx base sign).2 = (numeral base.val (shown xx sign)).map f :=
  printint_out (fun d hd => hdig d (by omega)) hminus xx sign

/-- A conversion, whatever follows it in the format, prints its meaning and reads its argument.
The chain of tests never takes a longer conversion for a shorter one: `%ld` is not `%lld`, since
`c1` is `d`, not `l`. -/
theorem printfLoop_conv (k : Conv) (rest : List UInt8) (args : List Arg) :
    printfLoop digits putc (('%'.toUInt8 :: k.text) ++ rest) args =
      k.meaning f putc (args.headD (.word 0)) ++
        printfLoop digits putc rest (if k.reads then args.tail else args) := by
  -- `printint` in both bases prints the numeral of the value it is given
  have h10 : ∀ xx sign,
      (printint digits xx ten sign).2 = (numeral 10 (shown xx sign)).map f :=
    printint_out_of_le hdig hminus (by decide)
  have h16 : ∀ xx sign,
      (printint digits xx sixteen sign).2 = (numeral 16 (shown xx sign)).map f :=
    printint_out_of_le hdig hminus (by decide)
  rw [List.cons_append, printfLoop_pct]
  cases k <;> simp +decide [Conv.text, conversion, Conv.meaning, h10, h16, printptr_eq hdig]

theorem printfLoop_render (ps : List Piece) (args : List Arg) :
    printfLoop digits putc (ps.flatMap Piece.text) args = render f putc ps args := by
  induction ps generalizing args with
  | nil => simp [render]
  | cons q ps ih =>
    rw [List.flatMap_cons]
    cases q with
    | lit ch h0 hpct => rw [Piece.text, List.singleton_append, printfLoop_lit h0 hpct, ih, render]
    | conv k => rw [Piece.text, printfLoop_conv hdig hminus, ih, render]

end Meaning

end Printf

namespace Kernel

def BACKSPACE : UInt32 := 0x100

/-- `consputc(c)`: what goes to the UART; `BACKSPACE` rubs out the last character. -/
def consputc (c : UInt32) : List UInt8 :=
  if c = BACKSPACE then ['\x08'.toUInt8, ' '.toUInt8, '\x08'.toUInt8] else [c.toUInt8]

/-- `printf(fmt, ...)` of `kernel/printf.c`: the characters passed to `consputc`. -/
def printf (fmt : List UInt8) (args : List Printf.Arg) : List UInt8 :=
  Printf.printfLoop digits consputc fmt args

/-- The kernel's `printf` prints what its format means, with lower-case hexadecimal digits. -/
theorem printf_render (ps : List Printf.Piece) (args : List Printf.Arg) :
    printf (ps.flatMap Printf.Piece.text) args = Printf.render Char.toUInt8 consputc ps args :=
  Printf.printfLoop_render digits_getD rfl ps args

end Kernel

namespace User

/-- `putc(fd, c)` of a `%c` argument: its low byte. -/
def putc (c : UInt32) : List UInt8 := [c.toUInt8]

/-- The loop of `vprintf(fd, fmt, ap)` of `user/printf.c`: `state` is set after a `%`.  The
characters it writes to `fd`, one `write` each. -/
def vprintfLoop (state : Bool) (fmt : List UInt8) (args : List Printf.Arg) : List UInt8 :=
  match fmt with
  | [] => []
  | c0 :: fmt =>
    if c0 = 0 then []
    else if !state then
      if c0 = '%'.toUInt8 then vprintfLoop true fmt args
      else c0 :: vprintfLoop false fmt args
    else
      let c1 := if c0 ≠ 0 then fmt.getD 0 0 else 0
      let c2 := if c1 ≠ 0 then fmt.getD 1 0 else 0
      -- the kernel's chain of tests; `c0` is not `0` here
      match Printf.conversion digits putc c0 c1 c2 (args.headD (.word 0)) with
      | none => []
      | some (out, skip, used) =>
        out ++ vprintfLoop false (fmt.drop skip) (if used then args.tail else args)
termination_by fmt.length
decreasing_by
  all_goals simp only [List.length_cons, List.length_drop]
  all_goals omega

section Loop

variable {args : List Printf.Arg}

@[simp] theorem vprintfLoop_nil (state : Bool) : vprintfLoop state [] args = [] := by
  rw [vprintfLoop]

@[simp] theorem vprintfLoop_nul (state : Bool) (fmt : List UInt8) :
    vprintfLoop state (0 :: fmt) args = [] := by
  rw [vprintfLoop, if_pos rfl]

theorem vprintfLoop_lit {c : UInt8} (h0 : c ≠ 0) (hpct : c ≠ '%'.toUInt8) (fmt : List UInt8) :
    vprintfLoop false (c :: fmt) args = c :: vprintfLoop false fmt args := by
  rw [vprintfLoop, if_neg h0, Bool.not_false, if_pos rfl, if_neg hpct]

theorem vprintfLoop_pct (fmt : List UInt8) :
    vprintfLoop false ('%'.toUInt8 :: fmt) args = vprintfLoop true fmt args := by
  rw [vprintfLoop, if_neg (by decide), Bool.not_false, if_pos rfl, if_pos rfl]

/-- In the state `'%'`: the character `c0` and the two after it, and where it goes on. -/
theorem vprintfLoop_conv {c0 : UInt8} (h0 : c0 ≠ 0) (fmt : List UInt8) :
    vprintfLoop true (c0 :: fmt) args =
      match Printf.conversion digits putc c0 (fmt.getD 0 0)
          (if fmt.getD 0 0 ≠ 0 then fmt.getD 1 0 else 0) (args.headD (.word 0)) with
      | none => []
      | some (out, skip, used) =>
        out ++ vprintfLoop false (fmt.drop skip) (if used then args.tail else args) := by
  rw [vprintfLoop, if_neg h0, if_neg (by decide), if_pos h0]

end Loop

theorem conversion_nul (digits : List UInt8) (putc : UInt32 → List UInt8) (a : Printf.Arg) :
    Printf.conversion digits putc 0 0 0 a = none := by
  simp +decide [Printf.conversion]

/-- The user library's state machine prints what the kernel's loop prints with the user's digit
table and `putc`: the state `'%'` is the kernel's look-ahead at the character after a `%`. -/
theorem vprintfLoop_eq (fmt : List UInt8) (args : List Printf.Arg) :
    vprintfLoop false fmt args = Printf.printfLoop digits putc fmt args := by
  match fmt with
  | [] => rw [vprintfLoop_nil, Printf.printfLoop_nil]
  | c :: fmt =>
    by_cases h0 : c = 0
    · subst h0
      rw [vprintfLoop_nul, Printf.printfLoop_nul]
    by_cases hpct : c = '%'.toUInt8
    · subst hpct
      rw [vprintfLoop_pct, Printf.printfLoop_pct]
      -- the character after the `%`: the end of the format, or what both loops dispatch on
      match fmt with
      | [] => simp [conversion_nul]
      | c0 :: fmt =>
        by_cases hc0 : c0 = 0
        · subst hc0
          simp [conversion_nul]
        · rw [vprintfLoop_conv hc0]
          simp only [List.getD_cons_zero, List.getD_cons_succ, List.drop_succ_cons, if_pos hc0]
          split
          · rfl
          · rw [vprintfLoop_eq]
    · rw [vprintfLoop_lit h0 hpct, Printf.printfLoop_lit h0 hpct, vprintfLoop_eq]
termination_by fmt.length
decreasing_by
  all_goals simp only [List.length_cons, List.length_drop]
  all_goals omega

/-- `printf(fmt, ...)` of `user/printf.c`: `vprintf(1, fmt, ap)`. -/
def printf (fmt : List UInt8) (args : List Printf.Arg) : List UInt8 := vprintfLoop false fmt args

/-- The user library's `printf` prints what its format means, with upper-case hexadecimal digits. -/
theorem printf_render (ps : List Printf.Piece) (args : List Printf.Arg) :
    printf (ps.flatMap Printf.Piece.text) args =
      Printf.render (fun c => c.toUpper.toUInt8) putc ps args := by
  rw [printf, vprintfLoop_eq]
  exact Printf.printfLoop_render (f := fun c => c.toUpper.toUInt8) digits_getD rfl ps args

end User

end Xv6Net
