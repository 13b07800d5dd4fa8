import Mathlib.Data.UInt
import Xv6Net.Kernel.Vm

/-!
# The user allocator: `malloc`, `free` and `morecore` (`umalloc.c`)

Kernighan and Ritchie's allocator.  Memory is handed out in units of one `Header` (16 bytes);
every block starts with a header holding its size in units and, while the block is free, the
next free block.  The free blocks form a circular list through the static header `base`,
ordered by address, which `freep` points into; `0` is the null pointer.  `morecore` grows the
heap with `sbrk`, the kernel's `sys_sbrk` (`Kernel.sysSbrk`), and frees the new block into the
list.

Pointers are byte addresses, as numbers: user addresses lie below `MAXVA` and a block below
`2 ^ 36` bytes, so pointer arithmetic does not wrap.  Sizes are `uint`s and wrap as the code's do.
The headers are a store of their own, by address: the bytes of user memory around them are
left out.  The loops of `free` and `malloc` run along the free list, so each takes a bound on
its rounds; `none` is running out of it, or a kernel `panic` inside `sbrk`.

* `nunitsOf`, `morecore`, `free`, `malloc` : the functions of `umalloc.c`.
* `malloc_beyond_break` : `morecore` passes `nu * sizeof(Header)` to `sbrk(int)`.  For a
  request of `2 ^ 32 - 15` bytes or more that is `2 ^ 32 + 16`, and `sbrk` is asked for
  `16` bytes; the header then claims `2 ^ 28 + 1` units, and `malloc` returns a block none of
  whose bytes lie below the break.
-/

namespace Xv6Net

namespace User

open Kernel Bytes

/-- `union header`: the next free block and the size of this block, in headers. -/
structure Header where
  ptr : ℕ
  size : UInt32

/-- `sizeof(Header)`. -/
def HSIZE : ℕ := 16

/-- The allocator's memory: the header at each address, and `freep`. -/
structure Heap where
  hdr : ℕ → Header
  freep : ℕ

/-- `SBRK_ERROR`, `(char *) -1`. -/
def SBRK_ERROR : UInt64 := -1

/-- `sbrk(n)`: `sys_sbrk(n, SBRK_EAGER)`; `none` is a kernel `panic`. -/
def sbrk (vm : Vm) (n : ℤ) : Option (Vm × UInt64) := sysSbrk vm n SBRK_EAGER

/-- The loop of `free`: from `p` on, the free block after which `bp` goes, the one whose
successor lies above `bp` or, at the wrap of the list, the last block. -/
def freeScan (h : Heap) (bp : ℕ) : ℕ → ℕ → Option ℕ
  | 0, _ => none
  | fuel + 1, p =>
    let q := (h.hdr p).ptr
    if bp > p ∧ bp < q then some p
    else if p ≥ q ∧ (bp > p ∨ bp < q) then some p
    else freeScan h bp fuel q

/-- `free(ap)`: the block of `ap` put back after the block `freeScan` finds, joined to its
upper and its lower neighbour when they touch it. -/
def free (h : Heap) (ap : ℕ) (fuel : ℕ) : Option Heap := do
  let bp := ap - HSIZE
  let p ← freeScan h bp fuel h.freep
  let q := (h.hdr p).ptr
  let b := h.hdr bp
  let hdr := if bp + HSIZE * b.size.toNat = q then
      Function.update h.hdr bp ⟨(h.hdr q).ptr, b.size + (h.hdr q).size⟩
    else Function.update h.hdr bp { b with ptr := q }
  let b := hdr bp
  let hdr := if p + HSIZE * (hdr p).size.toNat = bp then
      Function.update hdr p ⟨b.ptr, (hdr p).size + b.size⟩
    else Function.update hdr p { hdr p with ptr := bp }
  pure ⟨hdr, p⟩

/-- `morecore(nu)`: at least `4096` units from `sbrk`, freed into the list; the new `freep`, or
`0` when `sbrk` fails. -/
def morecore (vm : Vm) (h : Heap) (nu : UInt32) (fuel : ℕ) : Option (Vm × Heap × ℕ) := do
  let nu := if nu < 4096 then 4096 else nu
  -- `nu * sizeof(Header)` is an `unsigned long`, converted to `sbrk`'s `int`
  let (vm, p) ← sbrk vm (toInt32 (nu.toNat * HSIZE))
  if p = SBRK_ERROR then pure (vm, h, 0)
  else
    let hp := p.toNat
    let h := { h with hdr := Function.update h.hdr hp { h.hdr hp with size := nu } }
    let h ← free h (hp + HSIZE) fuel
    pure (vm, h, h.freep)

/-- `nunits`: the units of a request, its header included. -/
def nunitsOf (nbytes : UInt32) : UInt32 := ((nbytes.toNat + HSIZE - 1) / HSIZE + 1).toUInt32

/-- The loop of `malloc` from the free block `p` after `prevp`: the first block big enough is
cut, from its top when it is bigger; past `freep`, `morecore`. -/
def mallocLoop (nunits : UInt32) : ℕ → Vm → Heap → ℕ → ℕ → Option (Vm × Heap × ℕ)
  | 0, _, _, _, _ => none
  | fuel + 1, vm, h, prevp, p =>
    let hp := h.hdr p
    if hp.size ≥ nunits then
      if hp.size = nunits then
        pure (vm, ⟨Function.update h.hdr prevp { h.hdr prevp with ptr := hp.ptr }, prevp⟩,
          p + HSIZE)
      else
        let size := hp.size - nunits
        let hdr := Function.update h.hdr p { hp with size := size }
        let p := p + HSIZE * size.toNat
        pure (vm, ⟨Function.update hdr p { hdr p with size := nunits }, prevp⟩, p + HSIZE)
    else if p = h.freep then do
      let (vm, h, q) ← morecore vm h nunits fuel
      if q = 0 then pure (vm, h, 0)
      else mallocLoop nunits fuel vm h q (h.hdr q).ptr
    else mallocLoop nunits fuel vm h p hp.ptr

/-- `malloc(nbytes)`, with `base` the address of the static header; the first call makes the
empty list of `base` alone. -/
def malloc (base fuel : ℕ) (vm : Vm) (h : Heap) (nbytes : UInt32) : Option (Vm × Heap × ℕ) :=
  let nunits := nunitsOf nbytes
  let h : Heap := if h.freep = 0 then ⟨Function.update h.hdr base ⟨base, 0⟩, base⟩ else h
  mallocLoop nunits fuel vm h h.freep (h.hdr h.freep).ptr

/-! ### The rounds of the loops -/

section Rounds

variable {vm : Vm} {h : Heap} {nunits : UInt32} {fuel prevp p : ℕ}

/-- A block of exactly the size asked for is unlinked whole. -/
theorem mallocLoop_exact (hs : (h.hdr p).size = nunits) :
    mallocLoop nunits (fuel + 1) vm h prevp p =
      some (vm, ⟨Function.update h.hdr prevp { h.hdr prevp with ptr := (h.hdr p).ptr }, prevp⟩,
        p + HSIZE) := by
  simp [mallocLoop, hs]

/-- A block too small that is `freep`: the list has been gone round, and `morecore` is called. -/
theorem mallocLoop_morecore (hs : (h.hdr p).size < nunits) (hp : p = h.freep) :
    mallocLoop nunits (fuel + 1) vm h prevp p =
      (morecore vm h nunits fuel).bind fun (vm, h, q) =>
        if q = 0 then some (vm, h, 0) else mallocLoop nunits fuel vm h q (h.hdr q).ptr := by
  simp only [mallocLoop, ge_iff_le, UInt32.not_le.2 hs, if_false, if_pos hp]
  rfl

/-- `morecore` of at least `4096` units, when `sbrk` grants them. -/
theorem morecore_run {nu : UInt32} {vm' : Vm} {q : UInt64} (hnu : 4096 ≤ nu)
    (hs : sbrk vm (toInt32 (nu.toNat * HSIZE)) = some (vm', q)) (hq : q ≠ SBRK_ERROR) :
    morecore vm h nu fuel =
      (free { h with hdr := Function.update h.hdr q.toNat { h.hdr q.toNat with size := nu } }
        (q.toNat + HSIZE) fuel).map fun h => (vm', h, h.freep) := by
  simp only [morecore, if_neg (UInt32.not_lt.2 hnu), hs]
  simp only [bind, Option.bind, if_neg hq]
  cases free _ _ fuel <;> rfl

/-- `free` into a list of one block `p`, linked to itself, of a block `bp` above it that
touches it on neither side. -/
theorem free_single (hp : (h.hdr p).ptr = p) (hfp : h.freep = p) {bp : ℕ} (hlt : p < bp)
    (hup : bp + HSIZE * (h.hdr bp).size.toNat ≠ p) (hdown : p + HSIZE * (h.hdr p).size.toNat ≠ bp) :
    free h (bp + HSIZE) (fuel + 1) =
      some ⟨Function.update (Function.update h.hdr bp { h.hdr bp with ptr := p }) p
        { h.hdr p with ptr := bp }, p⟩ := by
  have hne : bp ≠ p := by omega
  have hscan : freeScan h bp (fuel + 1) h.freep = some p := by
    simp [freeScan, hfp, hp, hlt]
  simp [free, hscan, hp, hup, Function.update_of_ne hne.symm, hdown]

end Rounds

/-! ### A request too big for `sbrk`'s `int` -/

theorem uvmallocLoop_snd {oldsz newsz xperm : UInt64} :
    ∀ {k : ℕ} {vm : Vm} {a : UInt64} {r : Vm × UInt64},
      uvmallocLoop oldsz newsz xperm k vm a = some r → r.2 = newsz ∨ r.2 = 0
  | 0, vm, a, r, h => by
    simp only [uvmallocLoop, Option.some.injEq] at h
    exact .inl (h ▸ rfl)
  | k + 1, vm, a, r, h => by
    simp only [uvmallocLoop] at h
    split_ifs at h
    · -- out of pages: the size returned is `0`
      obtain ⟨r', -, rfl⟩ := Option.map_eq_some_iff.1 h
      exact .inr rfl
    · split at h
      · cases h
      · exact uvmallocLoop_snd h
    · exact .inl (Option.some.inj h ▸ rfl)

/-- A `growproc` that grows and succeeds leaves the size it asked for. -/
theorem growproc_sz {vm vm' : Vm} {n : ℤ} (hn : 0 < n) (hwrap : vm.sz ≤ vm.sz + UInt64.ofInt n)
    (h : growproc vm n = some (vm', 0)) : vm'.sz = vm.sz + UInt64.ofInt n := by
  simp only [growproc, if_pos hn] at h
  obtain ⟨⟨vm'', sz'⟩, hu, heq⟩ := Option.map_eq_some_iff.1 h
  simp only at heq
  split_ifs at heq with h0
  · cases heq
  · obtain ⟨rfl, -⟩ := Prod.mk.inj heq
    simp only [uvmalloc, if_neg (fun hlt => absurd hwrap (UInt64.not_le.2 hlt))] at hu
    rcases uvmallocLoop_snd hu with h1 | h1
    · exact h1
    · exact absurd h1 h0

theorem nunitsOf_big {nbytes : UInt32} (h : 2 ^ 32 - 15 ≤ nbytes.toNat) :
    nunitsOf nbytes = 2 ^ 28 + 1 := by
  have hlt := nbytes.toNat_lt
  have : (nbytes.toNat + HSIZE - 1) / HSIZE + 1 = 2 ^ 28 + 1 := by
    simp only [HSIZE]
    omega
  rw [nunitsOf, this]
  rfl

/-- `sbrk(nu * sizeof(Header))` for `nu = 2 ^ 28 + 1` asks for `16` bytes. -/
theorem sbrk_arg_big : toInt32 ((2 ^ 28 + 1 : UInt32).toNat * HSIZE) = 16 := by
  decide

/-- **`malloc` returns memory that `sbrk` never gave.**  On its first call, for a request of
`2 ^ 32 - 15` bytes or more, `malloc` needs `2 ^ 28 + 1` units; `morecore` asks `sbrk` for
`(2 ^ 28 + 1) * 16 = 2 ^ 32 + 16` bytes through an `int`, that is for `16`, and when those are
granted it frees a block whose header claims all `2 ^ 28 + 1` units.  `malloc` returns the
block: the pointer it returns is the new break itself, so none of the bytes it promises lie in
memory obtained from `sbrk`. -/
theorem malloc_beyond_break {vm vm' : Vm} {h : Heap} {base : ℕ} (hfreep : h.freep = 0)
    (hbase0 : 0 < base) (hbase : base < vm.sz.toNat) (hmax : vm.sz < MAXVA)
    (hgrow : growproc vm 16 = some (vm', 0)) {nbytes : UInt32} (hbig : 2 ^ 32 - 15 ≤ nbytes.toNat)
    {fuel : ℕ} (hfuel : 2 ≤ fuel) :
    vm'.sz.toNat = vm.sz.toNat + 16 ∧
      ∃ h', malloc base fuel vm h nbytes = some (vm', h', vm.sz.toNat + 16) := by
  obtain ⟨f, rfl⟩ : ∃ f, fuel = f + 2 := ⟨fuel - 2, by omega⟩
  have hmax' : vm.sz.toNat < 2 ^ 38 := by
    rw [UInt64.lt_iff_toNat_lt, MAXVA_toNat] at hmax
    exact hmax
  -- the break moves by the `16` bytes asked for
  have hsz : vm'.sz.toNat = vm.sz.toNat + 16 := by
    have hle : vm.sz ≤ vm.sz + UInt64.ofInt 16 := by
      rw [UInt64.le_iff_toNat_le, UInt64.toNat_add]
      simp only [show (UInt64.ofInt 16).toNat = 16 from rfl]
      omega
    rw [growproc_sz (by decide) hle hgrow, UInt64.toNat_add]
    simp only [show (UInt64.ofInt 16).toNat = 16 from rfl]
    omega
  have hsbrk : sbrk vm 16 = some (vm', vm.sz) := by
    simp [sbrk, sysSbrk, hgrow]
  refine ⟨hsz, ?_⟩
  have hne : vm.sz.toNat ≠ base := by omega
  have herr : vm.sz ≠ SBRK_ERROR := by
    intro e
    rw [e] at hmax'
    exact absurd hmax' (by decide)
  -- the first call makes the list of `base` alone
  set sz := vm.sz.toNat
  set h₀ : Heap := ⟨Function.update h.hdr base ⟨base, 0⟩, base⟩
  have hb₀ : h₀.hdr base = ⟨base, 0⟩ := by simp [h₀]
  have hmalloc :
      malloc base (f + 2) vm h nbytes = mallocLoop (2 ^ 28 + 1) (f + 2) vm h₀ base base := by
    simp only [malloc, hfreep, if_true, nunitsOf_big hbig, Function.update_self]
    rfl
  -- round one: `base` is too small, and it is `freep`
  have hnu : (2 ^ 28 + 1 : UInt32).toNat = 2 ^ 28 + 1 := by decide
  rw [hmalloc,
    mallocLoop_morecore (by rw [hb₀]; exact (by decide : (0 : UInt32) < 2 ^ 28 + 1)) rfl,
    morecore_run (by decide) (by rw [sbrk_arg_big]; exact hsbrk) herr]
  -- the new block is freed into the list of `base`
  set h₁ : Heap :=
    { h₀ with hdr := Function.update h₀.hdr sz { h₀.hdr sz with size := 2 ^ 28 + 1 } }
  have hb₁ : h₁.hdr base = ⟨base, 0⟩ := by simp [h₁, hne.symm, hb₀]
  have hs₁ : (h₁.hdr sz).size = 2 ^ 28 + 1 := by simp [h₁]
  have hf₁ : h₁.freep = base := rfl
  have hup : sz + HSIZE * (h₁.hdr sz).size.toNat ≠ base := by
    rw [hs₁, hnu, HSIZE]
    omega
  have hdown : base + HSIZE * (h₁.hdr base).size.toNat ≠ sz := by
    rw [hb₁]
    simpa using hne.symm
  rw [free_single (by rw [hb₁]) hf₁ hbase hup hdown]
  -- round two: the new block fits exactly
  simp only [Option.map_some, Option.bind_some, if_neg hbase0.ne']
  rw [mallocLoop_exact (by simp [hne, hs₁])]
  simp [HSIZE]

/-- The first "malloc(0xffffffff)" of a process whose break is at `8200`, its `base` at `16`:
`sbrk` moves the break to `8216` and `malloc` returns that address. -/
theorem malloc_beyond_break_first :
    (8216 : UInt64).toNat = (8200 : UInt64).toNat + 16 ∧
      ∃ h', malloc 16 2 ⟨8200, fun _ => 0, ⟨[], fun _ => []⟩⟩ ⟨fun _ => ⟨0, 0⟩, 0⟩ 0xffffffff =
        some (⟨8216, fun _ => 0, ⟨[], fun _ => []⟩⟩, h', (8200 : UInt64).toNat + 16) :=
  malloc_beyond_break rfl (by decide) (by decide) (by decide)
    (show growproc ⟨8200, fun _ => 0, ⟨[], fun _ => []⟩⟩ 16 =
      some (⟨8216, fun _ => 0, ⟨[], fun _ => []⟩⟩, 0) from rfl) (by decide) le_rfl

end User

end Xv6Net
