import Xv6Net.Grep.Match

/-!
# The line loop of `grep` (`user/grep.c`)

`grep(pattern, fd)` reads its input into the 1024-byte `buf`, writes every complete line that
`match` accepts, and moves the unfinished line to the front of `buf` before the next `read`,
which asks for `sizeof(buf)-m-1` bytes.  The input is a byte stream, and `lims i` is the most
that the `i`-th `read` returns (what a pipe or the console holds at that moment): a `read`
returns the first bytes of what is left, at most as many as were asked for.  A `read` that fails
is not modelled.

* `grepSpec` : the reference output, the `'\n'`-terminated lines that the pattern matches, each
  with its `'\n'`, in order;
* `grep_eq_grepSpec` : with no NUL in the input and every line shorter than 1023 bytes, `grep`
  writes exactly `grepSpec`, however `read` splits the input;
* `grep_stops_at_long_line` : a line of 1023 bytes fills the buffer, the next `read` asks for
  no bytes and returns 0, and `grep` ignores the rest of its input.
-/

namespace Xv6Net

namespace Grep

/-- The complete (`'\n'`-terminated) lines of a byte stream; what follows the last `'\n'` is not
one. -/
def lines : List UInt8 → List (List UInt8)
  | [] => []
  | 10 :: s => [] :: lines s
  | b :: s =>
    match lines s with
    | [] => []
    | l :: ls => (b :: l) :: ls

/-- What `grep` should write: each complete line that the pattern matches, with its `'\n'`. -/
def grepSpec (pattern s : List UInt8) : List UInt8 :=
  ((lines s).filter (grepMatch pattern)).flatMap (· ++ [10])

/-- `strchr(p, c)`: the index of the first `c` in the C string `p`. -/
def strchr : List UInt8 → UInt8 → Option ℕ
  | [], _ => none
  | b :: p, c => if b = 0 then none else if b = c then some 0 else (strchr p c).map (· + 1)

theorem strchr_lt {p : List UInt8} {c : UInt8} {i : ℕ} (h : strchr p c = some i) :
    i < p.length := by
  induction p generalizing i with
  | nil => simp [strchr] at h
  | cons b p ih =>
    simp only [strchr] at h
    split_ifs at h with h0 hc
    · obtain rfl := Option.some_inj.mp h
      simp
    · obtain ⟨j, hj, rfl⟩ := Option.map_eq_some_iff.mp h
      simpa using ih hj

/-- The inner loop: write each complete line of the buffer that matches, and give back what is
left after the last `'\n'` found. -/
def scanLines (pattern p : List UInt8) : List UInt8 × List UInt8 :=
  match h : strchr p 10 with
  | none => ([], p)
  | some i =>
    -- `*q = 0` ends the line at the `'\n'`, which `write` puts back
    let line := p.take i
    let r := scanLines pattern (p.drop (i + 1))
    ((if grepMatch pattern line then line ++ [10] else []) ++ r.1, r.2)
termination_by p.length
decreasing_by
  have := strchr_lt h
  simp only [List.length_drop]
  omega

/-- The outer loop from the `i`-th `read` on: `buf` holds the `m` bytes kept from the rounds
before, and `input` what is left of the stream. -/
def grepLoop (pattern : List UInt8) (lims : ℕ → ℕ) (i : ℕ) (buf input : List UInt8) :
    List UInt8 :=
  let chunk := input.take (min (lims i) (1024 - buf.length - 1))
  if _h : 0 < chunk.length then
    let r := scanLines pattern (buf ++ chunk)
    r.1 ++ grepLoop pattern lims (i + 1) r.2 (input.drop chunk.length)
  else []
termination_by input.length
decreasing_by
  simp only [List.length_drop]
  simp only [chunk, List.length_take] at *
  omega

/-- `grep(pattern, fd)`: what it writes to the standard output. -/
def grep (pattern : List UInt8) (lims : ℕ → ℕ) (input : List UInt8) : List UInt8 :=
  grepLoop pattern lims 0 [] input

/-! ### Lines -/

/-- Bytes with no `'\n'` stick to the front of the first line, or are dropped with it when there
is none. -/
theorem lines_append_of_not_mem {x : List UInt8} (hx : 10 ∉ x) (y : List UInt8) :
    lines (x ++ y) = match lines y with
      | [] => []
      | l :: ls => (x ++ l) :: ls := by
  induction x with
  | nil =>
    rw [List.nil_append]
    cases lines y <;> rfl
  | cons b x ih =>
    have hb : b ≠ 10 := fun h => hx (h ▸ List.mem_cons_self)
    rw [List.cons_append, lines.eq_3 b (x ++ y) hb,
      ih (fun h => hx (List.mem_cons_of_mem b h))]
    cases lines y <;> rfl

theorem lines_of_not_mem {x : List UInt8} (hx : 10 ∉ x) : lines x = [] := by
  rw [← List.append_nil x, lines_append_of_not_mem hx]
  rfl

theorem lines_append_newline {x : List UInt8} (hx : 10 ∉ x) (y : List UInt8) :
    lines (x ++ 10 :: y) = x :: lines y := by
  rw [lines_append_of_not_mem hx, lines]
  simp

/-! ### The inner loop -/

/-- The line `strchr` finds ends at a `'\n'` and holds neither a `'\n'` nor a NUL. -/
theorem strchr_some {p : List UInt8} {i : ℕ} (h : strchr p 10 = some i) :
    p = p.take i ++ 10 :: p.drop (i + 1) ∧ 10 ∉ p.take i := by
  induction p generalizing i with
  | nil => simp [strchr] at h
  | cons b p ih =>
    simp only [strchr] at h
    split_ifs at h with h0 hc
    · obtain rfl := Option.some_inj.mp h
      subst hc
      simp
    · obtain ⟨j, hj, rfl⟩ := Option.map_eq_some_iff.mp h
      obtain ⟨hp, hn⟩ := ih hj
      refine ⟨?_, ?_⟩
      · rw [List.take_succ_cons, List.drop_succ_cons, List.cons_append, ← hp]
      · simp [Ne.symm hc, hn]

/-- Without a NUL, `strchr` misses only when there is no `'\n'`. -/
theorem not_mem_of_strchr_none {p : List UInt8} (h0 : 0 ∉ p) (h : strchr p 10 = none) :
    10 ∉ p := by
  induction p with
  | nil => simp
  | cons b p ih =>
    have hb0 : b ≠ 0 := fun hb => h0 (hb ▸ List.mem_cons_self)
    simp only [strchr, if_neg hb0] at h
    split_ifs at h with hc
    rw [Option.map_eq_none_iff] at h
    simpa [Ne.symm hc] using ih (fun h' => h0 (List.mem_cons_of_mem b h')) h

/-- One round of lines: `scanLines` writes the matching lines among the complete lines `ls` it
takes off the front of `p`, and leaves a suffix with no `'\n'`. -/
theorem scanLines_spec (pattern : List UInt8) {p : List UInt8} (h0 : 0 ∉ p) :
    10 ∉ (scanLines pattern p).2 ∧ (scanLines pattern p).2 <:+ p ∧
      ∃ ls, (scanLines pattern p).1 = (ls.filter (grepMatch pattern)).flatMap (· ++ [10]) ∧
        ∀ z, lines (p ++ z) = ls ++ lines ((scanLines pattern p).2 ++ z) := by
  fun_induction scanLines pattern p with
  | case1 p h =>
    exact ⟨not_mem_of_strchr_none h0 h, List.suffix_refl p, [], rfl, fun z => rfl⟩
  | case2 p i h line r ih =>
    obtain ⟨hp, hn⟩ := strchr_some h
    have h0' : 0 ∉ p.drop (i + 1) := fun hm => h0 (List.mem_of_mem_drop hm)
    obtain ⟨hr1, hr2, ls, hout, hlines⟩ := ih h0'
    refine ⟨hr1, hr2.trans (List.drop_suffix _ _), line :: ls, ?_, fun z => ?_⟩
    · dsimp only [line, r]
      rw [hout, List.filter_cons]
      split <;> simp
    · -- the first line is the one `strchr` found
      dsimp only [line, r]
      conv_lhs => rw [hp]
      rw [List.append_assoc, List.cons_append, lines_append_newline hn, hlines, List.cons_append]


theorem strchr_eq_none {p : List UInt8} (h : 10 ∉ p) : strchr p 10 = none := by
  induction p with
  | nil => rfl
  | cons b p ih =>
    have hb : b ≠ 10 := fun hb => h (hb ▸ List.mem_cons_self)
    simp only [strchr, if_neg hb, ih (fun hm => h (List.mem_cons_of_mem b hm)), Option.map_none,
      ite_self]

/-- A buffer with no `'\n'` writes nothing and is kept whole. -/
theorem scanLines_of_not_mem (pattern : List UInt8) {p : List UInt8} (h : 10 ∉ p) :
    scanLines pattern p = ([], p) := by
  rw [scanLines]
  split
  · rfl
  · rename_i i hi
    rw [strchr_eq_none h] at hi
    cases hi

/-- The reference output of a buffer and what follows it is the output of one round of lines,
then the reference output of what the round leaves. -/
theorem grepSpec_scanLines (pattern : List UInt8) {p : List UInt8} (h0 : 0 ∉ p) (z : List UInt8) :
    grepSpec pattern (p ++ z) =
      (scanLines pattern p).1 ++ grepSpec pattern ((scanLines pattern p).2 ++ z) := by
  obtain ⟨-, -, ls, hout, hlines⟩ := scanLines_spec pattern h0
  rw [grepSpec, grepSpec, hlines, hout, List.filter_append, List.flatMap_append]

/-! ### The outer loop -/

section Loop

variable (pattern : List UInt8) {lims : ℕ → ℕ}

/-- **The loop of `grep`.**  While the kept bytes hold no `'\n'`, the input no NUL and no line is
1023 bytes long, what is left of the loop writes the reference output of the kept bytes and the
unread input, whatever the chunks of the reads. -/
theorem grepLoop_spec (hlims : ∀ i, 0 < lims i) (i : ℕ) {buf input : List UInt8}
    (hbuf : 10 ∉ buf) (h0 : 0 ∉ buf ++ input)
    (hlen : ∀ l ∈ lines (buf ++ input), l.length < 1023) :
    grepLoop pattern lims i buf input = grepSpec pattern (buf ++ input) := by
  fun_induction grepLoop pattern lims i buf input with
  | case1 i buf input chunk hchunk r ih =>
    -- the read's bytes join the kept ones; one round of lines takes off what it writes
    have hinput : input = chunk ++ input.drop chunk.length :=
      (List.prefix_iff_eq_append.mp (List.take_prefix _ _)).symm
    have hsplit : buf ++ input = (buf ++ chunk) ++ input.drop chunk.length := by
      rw [List.append_assoc, ← hinput]
    have h0p : 0 ∉ buf ++ chunk := fun hm => h0 (by rw [hsplit]; exact List.mem_append_left _ hm)
    obtain ⟨hr1, ⟨pre, hpre⟩, ls, -, hlines⟩ := scanLines_spec pattern h0p
    rw [hsplit, grepSpec_scanLines pattern h0p]
    congr 1
    refine ih hr1 (fun hm => h0 ?_) (fun l hl => hlen l ?_)
    · rw [hsplit, ← hpre, List.append_assoc]
      exact List.mem_append_right _ hm
    · rw [hsplit, hlines]
      exact List.mem_append_right _ hl
  | case2 i buf input chunk hchunk =>
    -- the read returned nothing: the input is used up, or the kept bytes fill the buffer
    have hl : lines (buf ++ input) = [] := by
      rw [lines_append_of_not_mem hbuf]
      rcases hrest : lines input with _ | ⟨l, ls⟩
      · rfl
      · exfalso
        have hlong := hlen (buf ++ l) (by rw [lines_append_of_not_mem hbuf, hrest]; simp)
        have hne : input ≠ [] := by rintro rfl; simp [lines] at hrest
        have hk : chunk.length = min (min (lims i) (1024 - buf.length - 1)) input.length :=
          List.length_take
        have hin : 0 < input.length := List.length_pos_iff_ne_nil.mpr hne
        rw [List.length_append] at hlong
        have := hlims i
        omega
    simp [grepSpec, hl]

/-- **`grep` writes the matching lines.**  When the input has no NUL and each of its lines is
shorter than 1023 bytes, `grep` writes each line that the pattern matches, with its `'\n'`, in
order, however `read` splits the input. -/
theorem grep_eq_grepSpec (hlims : ∀ i, 0 < lims i) {s : List UInt8} (h0 : 0 ∉ s)
    (hlen : ∀ l ∈ lines s, l.length < 1023) : grep pattern lims s = grepSpec pattern s :=
  grepLoop_spec pattern hlims 0 (List.not_mem_nil) (by simpa using h0) (by simpa using hlen)

/-- `grep a` on two short lines read one byte at a time writes the line that holds `a`. -/
theorem grep_eq_grepSpec_bytewise :
    (∀ i, 0 < (fun _ => 1 : ℕ → ℕ) i) ∧ (0 : UInt8) ∉ [97, 10, 98, 10] ∧
      (∀ l ∈ lines [97, 10, 98, 10], l.length < 1023) ∧
      grep [97] (fun _ => 1) [97, 10, 98, 10] = grepSpec [97] [97, 10, 98, 10] :=
  ⟨fun _ => Nat.one_pos, by decide, by decide,
    grep_eq_grepSpec [97] (fun _ => Nat.one_pos) (by decide) (by decide)⟩

/-- **A long line stops `grep`.**  While the first `1023 - m` unread bytes hold no `'\n'`, no
round finds a line, the kept bytes grow to fill the buffer, and the read after that asks for no
bytes: `grep` writes nothing more, whatever follows in the input. -/
theorem grepLoop_of_long_line (i : ℕ) {buf input : List UInt8} (hbuf : 10 ∉ buf)
    (hlen : buf.length ≤ 1023) (hin : 10 ∉ input.take (1023 - buf.length)) :
    grepLoop pattern lims i buf input = [] := by
  fun_induction grepLoop pattern lims i buf input with
  | case1 i buf input chunk hchunk r ih =>
    have hk : chunk.length ≤ 1023 - buf.length := by
      simp only [chunk, List.length_take]
      omega
    -- the chunk is a prefix of the bytes without `'\n'`, so the round finds no line
    have hc : 10 ∉ chunk := fun hm => hin ((List.take_prefix_take_left (by omega)).subset hm)
    have hr : r = ([], buf ++ chunk) :=
      scanLines_of_not_mem pattern (by simp [hbuf, hc])
    have hrest : (input.drop chunk.length).take (1023 - (buf ++ chunk).length) =
        (input.take (1023 - buf.length)).drop chunk.length := by
      rw [List.drop_take, List.length_append, Nat.sub_sub]
    have h1 : r.1 = [] := by rw [hr]
    have h2 : r.2 = buf ++ chunk := by rw [hr]
    rw [h1, List.nil_append]
    refine ih ?_ ?_ ?_ <;> rw [h2]
    · simp [hbuf, hc]
    · rw [List.length_append]
      omega
    · rw [hrest]
      exact fun hm => hin (List.mem_of_mem_drop hm)
  | case2 => rfl

end Loop

/-- The line of 1023 `a`s, then the line `a`: both match the pattern `a`, and `grep a` writes
neither. -/
theorem grep_stops_at_long_line (lims : ℕ → ℕ) :
    grepSpec [97] (List.replicate 1023 97 ++ [10, 97, 10]) = List.replicate 1023 97 ++ [10, 97, 10] ∧
      grep [97] lims (List.replicate 1023 97 ++ [10, 97, 10]) = [] := by
  have hno : (10 : UInt8) ∉ List.replicate 1023 97 := fun h =>
    absurd (List.mem_replicate.mp h).2 (by decide)
  refine ⟨?_, ?_⟩
  · -- the two lines, and the pattern `a` matches each
    have hl : lines (List.replicate 1023 97 ++ [10, 97, 10]) = [List.replicate 1023 97, [97]] := by
      rw [lines_append_newline hno, show [97, 10] = [97] ++ 10 :: ([] : List UInt8) from rfl,
        lines_append_newline (by decide)]
      rfl
    have hm : ∀ t, grepMatch [97] (97 :: t) = true := by
      intro t
      simp [grepMatch, matchLoop, matchhere]
    have hm1 : grepMatch [97] (List.replicate 1023 97) = true := by
      rw [List.replicate_succ]
      exact hm _
    rw [grepSpec, hl, List.filter_cons_of_pos hm1, List.filter_cons_of_pos (hm []), List.filter_nil,
      List.flatMap_cons, List.flatMap_cons, List.flatMap_nil]
    simp only [List.append_assoc, List.singleton_append, List.append_nil]
  · -- the first 1023 bytes have no `'\n'`
    refine grepLoop_of_long_line [97] 0 List.not_mem_nil (by simp) ?_
    rw [List.length_nil, Nat.sub_zero, List.take_left' (List.length_replicate ..)]
    exact hno

end Grep

end Xv6Net
