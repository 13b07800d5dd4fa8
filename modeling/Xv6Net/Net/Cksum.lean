import Xv6Net.Net.Frame
import Xv6Net.Arith.OnesComplement
import Mathlib.Algebra.Order.BigOperators.Group.List

/-!
# The IP header checksum

`in_cksum` sums a header as 16-bit words read in the machine's byte order (little-endian on
RISC-V) into a 32-bit accumulator, folds the carries back twice and complements the low 16
bits; `sys_send` stores the result in `ip_sum` as it is.  A receiver checks the header as
RFC 1071 says: the one's-complement sum of its ten 16-bit words, read in network byte order,
must be all ones.  The two agree because the accumulator of ten words is folded completely by two
folds (`OnesComplement.foldTwice_modEq`), and because swapping the bytes of every word multiplies
a one's-complement sum by `256`, which is invertible modulo `0xffff`
(`OnesComplement.sum_map_swapDigits_modEq`).

* `hostWords`, `netWords` : the words of a header in the two byte orders.
* `inCksum_twenty` : `in_cksum(hdr, 20)` is `0xffff` minus the folded sum of the header's words.
* `cksum_stored_verifies` : every 20-byte header whose `ip_sum` is zero verifies once `in_cksum`
  is stored in it.
-/

namespace Xv6Net

namespace Net

open Bytes OnesComplement

/-- The first `n` 16-bit words of `hdr` as `in_cksum` reads them: little-endian. -/
def hostWords (hdr : List UInt8) (n : ℕ) : List ℕ :=
  (List.range n).map fun i => (load16 hdr (2 * i)).toNat

/-- The first `n` 16-bit words of `hdr` in network byte order, as a receiver reads them to verify
the checksum. -/
def netWords (hdr : List UInt8) (n : ℕ) : List ℕ :=
  (List.range n).map fun i => (byteAt hdr (2 * i)).toNat * 256 + (byteAt hdr (2 * i + 1)).toNat

@[simp] theorem length_hostWords (hdr : List UInt8) (n : ℕ) : (hostWords hdr n).length = n := by
  simp [hostWords]

theorem hostWords_lt {hdr : List UInt8} {n : ℕ} : ∀ w ∈ hostWords hdr n, w < 65536 := by
  simp only [hostWords, List.mem_map, List.mem_range]
  rintro _ ⟨i, -, rfl⟩
  exact (load16 hdr (2 * i)).toNat_lt

/-- Reading a word in network byte order swaps its bytes. -/
theorem netWords_eq_map_swap (hdr : List UInt8) (n : ℕ) :
    netWords hdr n = (hostWords hdr n).map (swapDigits 256) := by
  rw [netWords, hostWords, List.map_map]
  refine List.map_congr_left fun i _ => ?_
  have h1 := (byteAt hdr (2 * i)).toNat_lt
  have h2 := (byteAt hdr (2 * i + 1)).toNat_lt
  rw [Function.comp_apply, swapDigits, load16_toNat]
  omega

theorem netWords_lt {hdr : List UInt8} {n : ℕ} : ∀ w ∈ netWords hdr n, w < 65536 := by
  rw [netWords_eq_map_swap]
  simp only [List.mem_map]
  rintro _ ⟨w, hw, rfl⟩
  exact swapDigits_lt (hostWords_lt w hw)

theorem sum_hostWords_le (hdr : List UInt8) (n : ℕ) : (hostWords hdr n).sum ≤ n * 65535 := by
  have := List.sum_le_card_nsmul (hostWords hdr n) 65535
    fun w hw => Nat.le_of_lt_succ (hostWords_lt w hw)
  simpa using this

/-- Storing a word at an even offset inside the first `n` words replaces one word. -/
theorem hostWords_store16 {hdr : List UInt8} {n k : ℕ} (hk : k < n) (hlen : 2 * k + 2 ≤ hdr.length)
    (v : UInt16) : hostWords (store16 hdr (2 * k) v) n = (hostWords hdr n).set k v.toNat := by
  have hw : 2 * k + (le16 v).length ≤ hdr.length := by rw [le16_length]; exact hlen
  apply List.ext_getElem (by simp)
  intro i h1 h2
  simp only [List.getElem_set, hostWords, List.getElem_map, List.getElem_range, load16_toNat,
    store16_eq_writeAt, byteAt_writeAt hw, le16_length]
  split_ifs <;> first | (exfalso; omega) | skip
  · -- the stored word itself
    subst_vars
    simp only [Nat.sub_self, show 2 * i + 1 - 2 * i = 1 by omega, le16, byteAt, List.getD_cons_zero,
      List.getD_cons_succ, UInt16.toNat_toUInt8, UInt16.toNat_shiftRight]
    have := v.toNat_lt
    simp
    omega
  · rfl

theorem sum_set_of_getElem_eq_zero {l : List ℕ} {k : ℕ} (hk : k < l.length) (h : l[k] = 0)
    (x : ℕ) : (l.set k x).sum = l.sum + x := by
  rw [List.sum_set, if_pos hk, ← List.sum_take_add_sum_drop l k, List.drop_eq_getElem_cons hk,
    List.sum_cons, h]
  omega

/-! ### `in_cksum` on an IP header -/

/-- The loop of `in_cksum` adds `k` words from offset `i` to `sum`, modulo `2 ^ 32`. -/
theorem cksumWords_toNat (addr : List UInt8) (i k : ℕ) (sum : UInt32) :
    (cksumWords addr i k sum).toNat =
      (sum.toNat + ((List.range k).map fun j => (load16 addr (i + 2 * j)).toNat).sum) % 2 ^ 32 := by
  induction k generalizing i sum with
  | zero => simp [cksumWords, Nat.mod_eq_of_lt sum.toNat_lt]
  | succ k ih =>
    rw [cksumWords, ih, List.range_succ_eq_map, List.map_cons, List.map_map, List.sum_cons]
    simp only [UInt32.toNat_add, UInt16.toNat_toUInt32, Nat.mod_add_mod, Nat.add_zero,
      Nat.mul_zero, Function.comp_def]
    have e : (fun j => (load16 addr (i + 2 + 2 * j)).toNat) =
        fun j => (load16 addr (i + 2 * (j + 1))).toNat := by
      funext j
      rw [show i + 2 + 2 * j = i + 2 * (j + 1) by omega]
    rw [e, Nat.add_assoc]

theorem toNat_and_ffff (x : UInt32) : (x &&& (0xffff : UInt32)).toNat = x.toNat % 65536 := by
  rw [UInt32.toNat_and]
  exact Nat.and_two_pow_sub_one_eq_mod x.toNat 16

theorem toNat_shiftRight_sixteen (x : UInt32) : (x >>> (16 : UInt32)).toNat = x.toNat / 65536 := by
  simp [UInt32.toNat_shiftRight, Nat.shiftRight_eq_div_pow]

/-- **`in_cksum(hdr, 20)`**: ten words, no odd byte, and `0xffff` minus the low word of the sum
after two folds. -/
theorem inCksum_twenty (hdr : List UInt8) :
    (inCksum hdr 20).toNat = 65535 - foldTwice 65536 (hostWords hdr 10).sum := by
  have hS := sum_hostWords_le hdr 10
  have hs : (cksumWords hdr 0 10 0).toNat = (hostWords hdr 10).sum := by
    rw [cksumWords_toNat, hostWords]
    simp only [UInt32.toNat_zero, Nat.zero_add]
    exact Nat.mod_eq_of_lt (by rw [← hostWords]; omega)
  have hwords : (if (20 : ℤ) > 1 then ((20 : ℤ) / 2).toNat else 0) = 10 := by decide
  have hodd : ¬ ((20 : ℤ) - 2 * ((10 : ℕ) : ℤ) = 1) := by decide
  simp only [inCksum, hwords, if_neg hodd]
  generalize cksumWords hdr 0 10 0 = s at hs
  -- the first fold cannot overflow 32 bits, nor can the second
  have hf : ((s &&& (0xffff : UInt32)) + (s >>> (16 : UInt32))).toNat =
      fold 65536 (hostWords hdr 10).sum := by
    rw [UInt32.toNat_add, toNat_and_ffff, toNat_shiftRight_sixteen, hs, fold]
    exact Nat.mod_eq_of_lt (by omega)
  generalize (s &&& (0xffff : UInt32)) + (s >>> (16 : UInt32)) = f at hf
  have hg : (f + (f >>> (16 : UInt32))).toNat = fold 65536 (hostWords hdr 10).sum +
      fold 65536 (hostWords hdr 10).sum / 65536 := by
    have hfl := fold_le (B := 65536) (s := (hostWords hdr 10).sum) (by omega)
    rw [UInt32.toNat_add, toNat_shiftRight_sixteen, hf]
    exact Nat.mod_eq_of_lt (by omega)
  rw [foldTwice, ← hg]
  simp [UInt32.toNat_toUInt16]

/-- **A header verifies once its checksum is stored.**  For every 20-byte header whose `ip_sum`
field is zero, storing `in_cksum(hdr, 20)` in `ip_sum` (natively) makes the one's-complement sum
of its ten words, read in network byte order, all ones. -/
theorem cksum_stored_verifies {hdr : List UInt8} (hlen : hdr.length = 20)
    (h0 : byteAt hdr 10 = 0 ∧ byteAt hdr 11 = 0) :
    onesSum 65536 (netWords (store16 hdr 10 (inCksum hdr 20)) 10) = 0xffff := by
  set v := inCksum hdr 20
  set S := (hostWords hdr 10).sum with hSdef
  have hv : v.toNat = 65535 - foldTwice 65536 S := inCksum_twenty hdr
  have hS : S < 65536 * 65536 := by have := sum_hostWords_le hdr 10; omega
  have hft : foldTwice 65536 S < 65536 := Nat.mod_lt _ (by norm_num)
  -- storing the checksum replaces word `5`, which was zero
  have h10 : 5 < (hostWords hdr 10).length := by simp
  have h5 : (hostWords hdr 10)[5] = 0 := by
    simp [hostWords, load16_toNat, h0.1, h0.2]
  have hset : hostWords (store16 hdr 10 v) 10 = (hostWords hdr 10).set 5 v.toNat :=
    hostWords_store16 (k := 5) (by norm_num) (by omega) v
  have hsum : (hostWords (store16 hdr 10 v) 10).sum = S + v.toNat := by
    rw [hset, sum_set_of_getElem_eq_zero (by simp) h5]
  -- the plain sum of the stored header is a multiple of `0xffff` ...
  have hmul : (S + v.toNat) % 65535 = 0 := by
    calc (S + v.toNat) % 65535 = (foldTwice 65536 S + v.toNat) % 65535 :=
          Nat.ModEq.add_right _ (foldTwice_modEq (by norm_num) hS).symm
      _ = 0 := by rw [hv, show foldTwice 65536 S + (65535 - foldTwice 65536 S) = 65535 by omega]
  -- ... and stays one when the bytes of every word are swapped
  have hnet : (netWords (store16 hdr 10 v) 10).sum % 65535 = 0 := by
    have hswap : _ % 65535 = _ % 65535 :=
      sum_map_swapDigits_modEq (b := 256) (by norm_num) (hostWords (store16 hdr 10 v) 10)
    rw [netWords_eq_map_swap, hswap, hsum, Nat.mul_mod, hmul, Nat.mul_zero, Nat.zero_mod]
  refine onesSum_eq_pred (by norm_num) netWords_lt hnet ?_
  -- some word is not zero: the checksum, or else a word of the header
  rw [netWords_eq_map_swap, hset]
  have hne : ∃ w ∈ (hostWords hdr 10).set 5 v.toNat, w ≠ 0 := by
    by_cases hv0 : v.toNat = 0
    · have hS0 : S ≠ 0 := fun e => by
        rw [e, (foldTwice_eq_zero_iff (by norm_num) (by norm_num)).2 rfl] at hv
        omega
      obtain ⟨w, hw, hw0⟩ : ∃ w ∈ hostWords hdr 10, w ≠ 0 := by
        by_contra hall
        simp only [not_exists, not_and, not_not] at hall
        exact hS0 (List.sum_eq_zero hall)
      refine ⟨w, ?_, hw0⟩
      rwa [hv0, ← h5, List.set_getElem_self]
    · exact ⟨v.toNat, List.mem_set (by simp) _, hv0⟩
  obtain ⟨w, hw, hw0⟩ := hne
  refine ⟨swapDigits 256 w, List.mem_map_of_mem hw, fun e => hw0 ?_⟩
  have := (byteAt hdr 0).toNat_lt
  unfold swapDigits at e
  omega

/-- The IP header of `sys_send`'s page is the header before `ip_sum` was set, with the checksum
stored in it: the stores of the UDP header lie after it. -/
theorem slice_sendHeader (sport dst dport len : ℤ) :
    ∃ hdr : List UInt8, hdr.length = 20 ∧ byteAt hdr 10 = 0 ∧ byteAt hdr 11 = 0 ∧
      slice (sendHeader sport dst dport len) ethSize ipSize = store16 hdr 10 (inCksum hdr 20) := by
  obtain ⟨buf, hlen, h24, h25, -, -, -, heq⟩ := sendHeader_split sport dst dport len
  have hl : ∀ (b : List UInt8) (off : ℕ) (v : UInt16), b.length = 4096 → off + 2 ≤ 4096 →
      (store16 b off v).length = 4096 := fun b off v hb ho => by
    rw [store16_eq_writeAt, writeAt_length (by rw [le16_length, hb]; exact ho), hb]
  have l1 := hl buf 24 (inCksum (slice buf ethSize ipSize) ipSize) hlen (by norm_num)
  have l2 := hl _ 34 (htons (UInt16.ofInt sport)) l1 (by norm_num)
  have l3 := hl _ 36 (htons (UInt16.ofInt dport)) l2 (by norm_num)
  refine ⟨slice buf ethSize ipSize, slice_length _ _ _, ?_, ?_, ?_⟩
  · rw [byteAt_slice, if_pos (by decide)]; exact h24
  · rw [byteAt_slice, if_pos (by decide)]; exact h25
  -- the three UDP stores miss bytes `14` to `34`; the checksum store is inside them
  rw [heq, store16_eq_writeAt _ 38,
    slice_writeAt_of_disjoint (by rw [le16_length, l3]; decide) (Or.inl (by decide)),
    store16_eq_writeAt _ 36,
    slice_writeAt_of_disjoint (by rw [le16_length, l2]; decide) (Or.inl (by decide)),
    store16_eq_writeAt _ 34,
    slice_writeAt_of_disjoint (by rw [le16_length, l1]; decide) (Or.inl (by decide)),
    store16_eq_writeAt _ 24,
    slice_writeAt_inside (by rw [le16_length, hlen]; decide) (by decide)
      (by rw [le16_length]; decide)]
  rfl

/-- **The IP header checksum verifies.**  Every 20-byte header whose `ip_sum` is zero verifies
once `in_cksum` is stored in `ip_sum`, natively: the one's-complement sum of its ten words, read
in network byte order, is `0xffff`.  In particular the IP header of the page `sys_send` builds
verifies, for every source and destination port, destination address and length. -/
theorem ip_header_cksum_verifies :
    (∀ hdr : List UInt8, hdr.length = 20 → byteAt hdr 10 = 0 → byteAt hdr 11 = 0 →
      onesSum 65536 (netWords (store16 hdr 10 (inCksum hdr 20)) 10) = 0xffff) ∧
    ∀ sport dst dport len : ℤ,
      onesSum 65536 (netWords (slice (sendHeader sport dst dport len) ethSize ipSize) 10) = 0xffff := by
  refine ⟨fun hdr hlen h10 h11 => cksum_stored_verifies hlen ⟨h10, h11⟩, fun sport dst dport len => ?_⟩
  obtain ⟨hdr, hlen, h10, h11, heq⟩ := slice_sendHeader sport dst dport len
  rw [heq]
  exact cksum_stored_verifies hlen ⟨h10, h11⟩

/-- A header of twenty zero bytes, whose checksum is `0xffff`. -/
theorem ip_header_cksum_verifies_zeros :
    (List.replicate 20 (0 : UInt8)).length = 20 ∧
      onesSum 65536 (netWords (store16 (List.replicate 20 0) 10 (inCksum (List.replicate 20 0) 20)) 10) =
        0xffff :=
  ⟨rfl, ip_header_cksum_verifies.1 _ rfl (by decide) (by decide)⟩

end Net

end Xv6Net
