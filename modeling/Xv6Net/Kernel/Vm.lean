import Xv6Net.Machine.Basic
import Xv6Net.Kernel.Kalloc
import Xv6Net.Bytes.Basic
import Mathlib.Data.List.ReduceOption

/-!
# A process's user memory: `sbrk`, page faults and the copy loops (`vm.c`, `sysproc.c`)

The size `p->sz` of a process, its user page table and the physical pages.  The page table is
flattened to its leaf entries: `Pagetable` maps the page-aligned address of each page to the
64-bit PTE in its level-0 slot.  `walk` keeps the one check it makes before it reads the table,
`va >= MAXVA`, and its `panic`; the directory pages of the three-level table and their `kalloc`s
are left out, so `walk(.., 1)` never fails here.

* `sysSbrk` : `sys_sbrk(n, t)`, eager through `growproc` (`uvmalloc` / `uvmdealloc`), or lazy,
  which only moves `p->sz` after a check for wrap-around.
* `vmfault` : the handler of a fault on a page that a lazy `sbrk` left unmapped; `usertrap`,
  `copyin` and `copyout` call it.
* `copyin`, `copyout` : the page-by-page copy loops.
* `vmMachine` : one process making these calls; a kernel `panic` stops it.

The lazy branch of `sys_sbrk` lets `p->sz` grow past `TRAPFRAME` and past `MAXVA`.  Then
`vmfault` accepts a fault address at or above `MAXVA` (it only checks `va >= p->sz`) and hands it
to `walk`, which panics: `lazy_sbrk_walk_panic`.
-/

namespace Xv6Net

namespace Kernel

open Bytes

def PTE_V : UInt64 := (1 : UInt64) <<< 0

def PTE_R : UInt64 := (1 : UInt64) <<< 1

def PTE_W : UInt64 := (1 : UInt64) <<< 2

def PTE_X : UInt64 := (1 : UInt64) <<< 3

def PTE_U : UInt64 := (1 : UInt64) <<< 4

def PA2PTE (pa : UInt64) : UInt64 := (pa >>> 12) <<< 10

def PTE2PA (pte : UInt64) : UInt64 := (pte >>> 10) <<< 12

/-- One bit less than the largest Sv39 address, so that no address needs sign extension. -/
def MAXVA : UInt64 := (1 : UInt64) <<< (9 + 9 + 9 + 12 - 1)

def TRAMPOLINE : UInt64 := MAXVA - PGSIZE.toUInt64

def TRAPFRAME : UInt64 := TRAMPOLINE - PGSIZE.toUInt64

def PGROUNDUP (sz : UInt64) : UInt64 := (sz + PGSIZE.toUInt64 - 1) &&& ~~~(PGSIZE.toUInt64 - 1)

def PGROUNDDOWN (a : UInt64) : UInt64 := a &&& ~~~(PGSIZE.toUInt64 - 1)

def SBRK_EAGER : ℤ := 1

def SBRK_LAZY : ℤ := 2

/-- A user page table, flattened: the leaf PTE of the page at each page-aligned address. -/
abbrev Pagetable := UInt64 → UInt64

/-- The memory of one process. -/
structure Vm where
  sz : UInt64
  pagetable : Pagetable
  phys : Phys

/-- `walk(pagetable, va, alloc)`: the slot of the leaf PTE of `va`'s page; `none` is its
`panic("walk")`. -/
def walk (va : UInt64) : Option UInt64 :=
  if va ≥ MAXVA then none else some (PGROUNDDOWN va)

/-- `walkaddr(pagetable, va)`: the physical page of a valid user mapping, `0` otherwise. -/
def walkaddr (pt : Pagetable) (va : UInt64) : UInt64 :=
  if va ≥ MAXVA then 0
  else
    match walk va with
    | none => 0
    | some slot =>
      if pt slot &&& PTE_V = 0 then 0
      else if pt slot &&& PTE_U = 0 then 0
      else PTE2PA (pt slot)

/-- `ismapped(pagetable, va)`; `none` is the `panic` of its `walk`. -/
def ismapped (pt : Pagetable) (va : UInt64) : Option Bool :=
  (walk va).map fun slot => pt slot &&& PTE_V ≠ 0

/-- The loop of `mappages` from `a` to `last`, one page each time (at most `k` pages). -/
def mappagesLoop (pt : Pagetable) (a last pa perm : UInt64) : ℕ → Option Pagetable
  | 0 => some pt
  | k + 1 =>
    match walk a with
    | none => none
    | some slot =>
      -- `panic("mappages: remap")`
      if pt slot &&& PTE_V ≠ 0 then none
      else
        let pt := Function.update pt slot (PA2PTE pa ||| perm ||| PTE_V)
        if a = last then some pt
        else mappagesLoop pt (a + PGSIZE.toUInt64) last (pa + PGSIZE.toUInt64) perm k

/-- `mappages(pagetable, va, size, pa, perm)`; `none` is one of its `panic`s (or `walk`'s). -/
def mappages (pt : Pagetable) (va size pa perm : UInt64) : Option Pagetable :=
  if va % PGSIZE.toUInt64 ≠ 0 then none
  else if size % PGSIZE.toUInt64 ≠ 0 then none
  else if size = 0 then none
  else mappagesLoop pt va (va + size - PGSIZE.toUInt64) pa perm (size / PGSIZE.toUInt64).toNat

/-- The loop of `uvmunmap(pagetable, a, k, do_free)`. -/
def uvmunmapLoop (vm : Vm) (a : UInt64) (doFree : Bool) : ℕ → Option Vm
  | 0 => some vm
  | k + 1 =>
    match walk a with
    | none => none
    | some slot =>
      let pte := vm.pagetable slot
      if pte &&& PTE_V = 0 then uvmunmapLoop vm (a + PGSIZE.toUInt64) doFree k
      -- `panic("uvmunmap: not a leaf")`
      else if pte &&& 0x3FF = PTE_V then none
      else
        let phys := if doFree then kfree vm.phys (PTE2PA pte).toNat else vm.phys
        uvmunmapLoop { vm with pagetable := Function.update vm.pagetable slot 0, phys := phys }
          (a + PGSIZE.toUInt64) doFree k

/-- `uvmdealloc(pagetable, oldsz, newsz)`: the memory after the call and the size it returns. -/
def uvmdealloc (vm : Vm) (oldsz newsz : UInt64) : Option (Vm × UInt64) :=
  if newsz ≥ oldsz then some (vm, oldsz)
  else if PGROUNDUP newsz < PGROUNDUP oldsz then
    let npages := (PGROUNDUP oldsz - PGROUNDUP newsz).toNat / PGSIZE
    (uvmunmapLoop vm (PGROUNDUP newsz) true npages).map fun vm => (vm, newsz)
  else some (vm, newsz)

/-- The loop of `uvmalloc` from the page `a`, the size `oldsz` rounded up, for at most `k`
pages; the size it returns, `0` on failure. -/
def uvmallocLoop (oldsz newsz xperm : UInt64) : ℕ → Vm → UInt64 → Option (Vm × UInt64)
  | 0, vm, _ => some (vm, newsz)
  | k + 1, vm, a =>
    if a < newsz then
      let (ph, mem) := kalloc vm.phys
      if mem = 0 then
        (uvmdealloc { vm with phys := ph } a oldsz).map fun r => (r.1, 0)
      else
        let ph := { ph with mem := Function.update ph.mem mem (List.replicate PGSIZE 0) }
        match mappages vm.pagetable a PGSIZE.toUInt64 mem.toUInt64 (PTE_R ||| PTE_U ||| xperm) with
        | none => none
        | some pt => uvmallocLoop oldsz newsz xperm k { vm with pagetable := pt, phys := ph }
            (a + PGSIZE.toUInt64)
    else some (vm, newsz)

/-- `uvmalloc(pagetable, oldsz, newsz, xperm)`. -/
def uvmalloc (vm : Vm) (oldsz newsz xperm : UInt64) : Option (Vm × UInt64) :=
  if newsz < oldsz then some (vm, oldsz)
  else
    let oldsz := PGROUNDUP oldsz
    uvmallocLoop oldsz newsz xperm ((newsz.toNat - oldsz.toNat + PGSIZE - 1) / PGSIZE) vm oldsz

/-- `growproc(n)`: the memory after the call and its return value. -/
def growproc (vm : Vm) (n : ℤ) : Option (Vm × ℤ) :=
  let sz := vm.sz
  if n > 0 then
    (uvmalloc vm sz (sz + UInt64.ofInt n) PTE_W).map fun (vm, sz) =>
      if sz = 0 then (vm, -1) else ({ vm with sz := sz }, 0)
  else if n < 0 then
    (uvmdealloc vm sz (sz + UInt64.ofInt n)).map fun (vm, sz) => ({ vm with sz := sz }, 0)
  else some (vm, 0)

/-- `sys_sbrk(n, t)`: the memory after the call and its return value, the old `p->sz` or `-1`. -/
def sysSbrk (vm : Vm) (n t : ℤ) : Option (Vm × UInt64) :=
  let addr := vm.sz
  if t = SBRK_EAGER ∨ n < 0 then
    (growproc vm n).map fun (vm, r) => if r < 0 then (vm, -1) else (vm, addr)
  -- lazily: only the check for wrap-around
  else if addr + UInt64.ofInt n < addr then some (vm, -1)
  else some ({ vm with sz := vm.sz + UInt64.ofInt n }, addr)

/-- `vmfault(pagetable, va, read)`: the memory after the call and the physical page it mapped,
`0` if it mapped none. -/
def vmfault (vm : Vm) (va : UInt64) : Option (Vm × UInt64) :=
  if va ≥ vm.sz then some (vm, 0)
  else
    let va := PGROUNDDOWN va
    match ismapped vm.pagetable va with
    | none => none
    | some true => some (vm, 0)
    | some false =>
      let (ph, mem) := kalloc vm.phys
      if mem = 0 then some ({ vm with phys := ph }, 0)
      else
        let ph := { ph with mem := Function.update ph.mem mem (List.replicate PGSIZE 0) }
        (mappages vm.pagetable va PGSIZE.toUInt64 mem.toUInt64 (PTE_W ||| PTE_U ||| PTE_R)).map
          fun pt => ({ vm with pagetable := pt, phys := ph }, mem.toUInt64)

/-! ### Page rounding -/

theorem PGROUNDDOWN_toNat (a : UInt64) : (PGROUNDDOWN a).toNat = a.toNat / 4096 * 4096 := by
  rw [PGROUNDDOWN, UInt64.toNat_and,
    show (~~~(PGSIZE.toUInt64 - 1)).toNat = (2 ^ 52 - 1) * 2 ^ 12 by decide,
    show (4096 : ℕ) = 2 ^ 12 from rfl]
  have ha := a.toNat_lt
  apply Nat.eq_of_testBit_eq
  intro i
  rw [Nat.testBit_and, Nat.testBit_mul_two_pow, Nat.testBit_two_pow_sub_one,
    Nat.testBit_mul_two_pow, Nat.testBit_div_two_pow]
  by_cases h1 : 12 ≤ i
  · have e : i - 12 + 12 = i := Nat.sub_add_cancel h1
    by_cases h2 : i - 12 < 52
    · simp [h1, h2, e]
    · -- above bit 63 both sides are `0`
      have : a.toNat.testBit i = false :=
        Nat.testBit_lt_two_pow (lt_of_lt_of_le ha (Nat.pow_le_pow_right (by norm_num) (by omega)))
      simp [h1, h2, e, this]
  · simp [h1]

/-- The offset of an address in its page. -/
theorem sub_PGROUNDDOWN_toNat (a : UInt64) : (a - PGROUNDDOWN a).toNat = a.toNat % 4096 := by
  have h := PGROUNDDOWN_toNat a
  rw [UInt64.toNat_sub_of_le _ _ (UInt64.le_iff_toNat_le.2 (by omega)), h]
  omega

theorem PGROUNDDOWN_idem (a : UInt64) : PGROUNDDOWN (PGROUNDDOWN a) = PGROUNDDOWN a := by
  apply UInt64.toNat_inj.1
  rw [PGROUNDDOWN_toNat, PGROUNDDOWN_toNat]
  omega

/-- The bytes a copy loop moves in one page: from the offset to the end of the page, at most
`len`, and at least one. -/
theorem chunk_pos (a len : UInt64) (hlen : len ≠ 0) :
    let n := PGSIZE.toUInt64 - (a - PGROUNDDOWN a)
    0 < (if n > len then len else n).toNat ∧ (if n > len then len else n) ≤ len := by
  intro n
  have hoff := sub_PGROUNDDOWN_toNat a
  have hn : n.toNat = 4096 - a.toNat % 4096 := by
    rw [UInt64.toNat_sub_of_le _ _ (UInt64.le_iff_toNat_le.2 (by rw [hoff]; simp [PGSIZE]; omega)),
      hoff]
    rfl
  have hl : 0 < len.toNat := by
    rcases Nat.eq_zero_or_pos len.toNat with h | h
    · exact absurd (UInt64.toNat_inj.1 (by simpa using h)) hlen
    · exact h
  split_ifs with h
  · exact ⟨hl, UInt64.le_iff_toNat_le.2 le_rfl⟩
  · rw [gt_iff_lt, UInt64.lt_iff_toNat_lt, not_lt] at h
    exact ⟨by omega, UInt64.le_iff_toNat_le.2 h⟩

/-! ### The copy loops -/

-- the bound on `len` is used by the termination proof only
set_option linter.unusedVariables false in
/-- `copyin(pagetable, dst, srcva, len)`: the memory after the call (pages that `vmfault`
mapped) and the bytes copied, `none` for `-1`; the outer `none` is a `panic`. -/
def copyin (vm : Vm) (srcva len : UInt64) : Option (Vm × Option (List UInt8)) :=
  if hlen : len = 0 then some (vm, some [])
  else
    let va0 := PGROUNDDOWN srcva
    let pa0 := walkaddr vm.pagetable va0
    let r := if pa0 = 0 then vmfault vm va0 else some (vm, pa0)
    match r with
    | none => none
    | some (vm', pa0) =>
      if pa0 = 0 then some (vm', none)
      else
        let n := PGSIZE.toUInt64 - (srcva - va0)
        let n := if n > len then len else n
        let bytes := slice (vm'.phys.mem pa0.toNat) (srcva - va0).toNat n.toNat
        (copyin vm' (va0 + PGSIZE.toUInt64) (len - n)).map fun (vm'', r) => (vm'', r.map (bytes ++ ·))
termination_by len.toNat
decreasing_by
  have ⟨h1, h2⟩ := chunk_pos srcva len hlen
  have h3 := UInt64.le_iff_toNat_le.1 h2
  simp only [dite_eq_ite]
  rw [UInt64.toNat_sub_of_le _ _ h2]
  omega

set_option linter.unusedVariables false in
/-- `copyin` with what it leaves in `dst`: the memory after the call, the bytes moved into `dst`
before it returned, and whether it returned `0`.  A copy that fails at a page has already moved
the bytes of the pages before it. -/
def copyinPartial (vm : Vm) (srcva len : UInt64) : Option (Vm × List UInt8 × Bool) :=
  if hlen : len = 0 then some (vm, [], true)
  else
    let va0 := PGROUNDDOWN srcva
    let pa0 := walkaddr vm.pagetable va0
    let r := if pa0 = 0 then vmfault vm va0 else some (vm, pa0)
    match r with
    | none => none
    | some (vm', pa0) =>
      if pa0 = 0 then some (vm', [], false)
      else
        let n := PGSIZE.toUInt64 - (srcva - va0)
        let n := if n > len then len else n
        let bytes := slice (vm'.phys.mem pa0.toNat) (srcva - va0).toNat n.toNat
        (copyinPartial vm' (va0 + PGSIZE.toUInt64) (len - n)).map
          fun (vm'', bs, ok) => (vm'', bytes ++ bs, ok)
termination_by len.toNat
decreasing_by
  have ⟨h1, h2⟩ := chunk_pos srcva len hlen
  have h3 := UInt64.le_iff_toNat_le.1 h2
  simp only [dite_eq_ite]
  rw [UInt64.toNat_sub_of_le _ _ h2]
  omega

/-- `copyin` is `copyinPartial` without the bytes a failed copy left in `dst`. -/
theorem copyin_eq_copyinPartial (vm : Vm) (srcva len : UInt64) :
    copyin vm srcva len =
      (copyinPartial vm srcva len).map fun r => (r.1, if r.2.2 then some r.2.1 else none) := by
  induction hn : len.toNat using Nat.strong_induction_on generalizing vm srcva len with
  | _ k ih =>
  rw [copyin, copyinPartial]
  split_ifs with hlen
  · rfl
  · dsimp only
    generalize (if walkaddr vm.pagetable (PGROUNDDOWN srcva) = 0 then vmfault vm (PGROUNDDOWN srcva)
      else some (vm, walkaddr vm.pagetable (PGROUNDDOWN srcva))) = r
    rcases r with _ | ⟨vm', pa0⟩
    · rfl
    · dsimp only
      by_cases hpa : pa0 = 0
      · rw [if_pos hpa, if_pos hpa]
        rfl
      -- the rest of the copy is shorter: the chunk of this page is not empty
      · rw [if_neg hpa, if_neg hpa]
        have ⟨h1, h2⟩ := chunk_pos srcva len hlen
        generalize (if PGSIZE.toUInt64 - (srcva - PGROUNDDOWN srcva) > len then len
          else PGSIZE.toUInt64 - (srcva - PGROUNDDOWN srcva)) = n at h1 h2 ⊢
        have h3 := UInt64.le_iff_toNat_le.1 h2
        rw [ih _ (by rw [UInt64.toNat_sub_of_le _ _ h2]; omega) vm' _ _ rfl]
        cases copyinPartial vm' (PGROUNDDOWN srcva + PGSIZE.toUInt64) (len - n) with
        | none => rfl
        | some r =>
          obtain ⟨vm'', bs, ok⟩ := r
          cases ok <;> rfl

set_option linter.unusedVariables false in
/-- `copyout(pagetable, dstva, src, len)`: the memory after the call and `0` or `-1`; `none` is a
`panic`.  Bytes past the end of `src` read as `0`. -/
def copyout (vm : Vm) (dstva : UInt64) (src : List UInt8) (len : UInt64) : Option (Vm × ℤ) :=
  if hlen : len = 0 then some (vm, 0)
  else
    let va0 := PGROUNDDOWN dstva
    if va0 ≥ MAXVA then some (vm, -1)
    else
      let pa0 := walkaddr vm.pagetable va0
      let r := if pa0 = 0 then vmfault vm va0 else some (vm, pa0)
      match r with
      | none => none
      | some (vm', pa0) =>
        if pa0 = 0 then some (vm', -1)
        else
          match walk va0 with
          | none => none
          | some slot =>
            -- no copy over a read-only page
            if vm'.pagetable slot &&& PTE_W = 0 then some (vm', -1)
            else
              let n := PGSIZE.toUInt64 - (dstva - va0)
              let n := if n > len then len else n
              let page := writeAt (vm'.phys.mem pa0.toNat) (dstva - va0).toNat (slice src 0 n.toNat)
              let vm' := { vm' with phys := { vm'.phys with
                mem := Function.update vm'.phys.mem pa0.toNat page } }
              copyout vm' (va0 + PGSIZE.toUInt64) (src.drop n.toNat) (len - n)
termination_by len.toNat
decreasing_by
  have ⟨h1, h2⟩ := chunk_pos dstva len hlen
  have h3 := UInt64.le_iff_toNat_le.1 h2
  simp only [dite_eq_ite]
  rw [UInt64.toNat_sub_of_le _ _ h2]
  omega

/-- The inner loop of `copyinstr` over at most `n` bytes of `page` from offset `off`: the bytes
copied, with the `NUL` that stopped it if there was one, and whether there was. -/
def copyinstrChunk (page : List UInt8) (off : ℕ) : ℕ → List UInt8 × Bool
  | 0 => ([], false)
  | n + 1 =>
    if byteAt page off = 0 then ([0], true)
    else
      let r := copyinstrChunk page (off + 1) n
      (byteAt page off :: r.1, r.2)

set_option linter.unusedVariables false in
/-- `copyinstr(pagetable, dst, srcva, max)`: the bytes copied up to and with the `NUL`, `none`
for `-1`.  It reads the pages that are mapped: unlike `copyin`, it does not call `vmfault`.  A
page that ends without a `NUL` has used up its bytes of `max`. -/
def copyinstr (vm : Vm) (srcva max : UInt64) : Option (List UInt8) :=
  if hmax : max = 0 then none
  else
    let va0 := PGROUNDDOWN srcva
    let pa0 := walkaddr vm.pagetable va0
    if pa0 = 0 then none
    else
      let n := PGSIZE.toUInt64 - (srcva - va0)
      let n := if n > max then max else n
      let r := copyinstrChunk (vm.phys.mem pa0.toNat) (srcva - va0).toNat n.toNat
      if r.2 then some r.1
      else (copyinstr vm (va0 + PGSIZE.toUInt64) (max - n)).map (r.1 ++ ·)
termination_by max.toNat
decreasing_by
  have ⟨h1, h2⟩ := chunk_pos srcva max hmax
  have h3 := UInt64.le_iff_toNat_le.1 h2
  simp only [dite_eq_ite]
  rw [UInt64.toNat_sub_of_le _ _ h2]
  omega

/-- **`copyinstr` does not fault in a lazy page.**  A process of size `0`, with one free physical
page, grows by one page lazily.  `copyin` of the page's first byte faults the page in and returns
the byte `0`; `copyinstr` from the same address returns `-1`, though the string there, in the
untouched page below `p->sz`, is empty. -/
theorem copyinstr_lazy_page :
    ∃ vm, sysSbrk ⟨0, fun _ => 0, ⟨[0x80000000], fun _ => []⟩⟩ 4096 SBRK_LAZY = some (vm, 0) ∧
      vm.sz = 4096 ∧ walkaddr vm.pagetable 0 = 0 ∧
      (∃ vm', copyin vm 0 1 = some (vm', some [0])) ∧ copyinstr vm 0 1 = none := by
  refine ⟨⟨4096, fun _ => 0, ⟨[0x80000000], fun _ => []⟩⟩, rfl, rfl, by decide, ?_, ?_⟩
  · -- `copyin` calls `vmfault`, which maps a zeroed page
    rw [copyin]
    simp +decide [walk, vmfault, ismapped, mappages, mappagesLoop, kalloc, copyin,
      -List.reduceReplicate]
  · -- `copyinstr` finds no mapping and gives up
    rw [copyinstr]
    simp +decide

/-! ### One process -/

inductive VmOp
  /-- `sys_sbrk(n, t)`. -/
  | sbrk (n t : ℤ)
  /-- A load or store page fault at `va` in user mode, handed by `usertrap` to `vmfault`. -/
  | fault (va : UInt64)
  /-- A system call's `copyin` of `len` bytes from `va`. -/
  | copyin (va len : UInt64)
  /-- A system call's `copyout` of `len` bytes of `src` to `va`. -/
  | copyout (va : UInt64) (src : List UInt8) (len : UInt64)

inductive VmOut
  | sbrk (r : UInt64)
  /-- Whether `vmfault` mapped a page; if not, `usertrap` kills the process. -/
  | fault (ok : Bool)
  | copyin (r : Option (List UInt8))
  | copyout (r : ℤ)
  deriving DecidableEq

def vmStep (vm : Vm) : VmOp → Option (Vm × VmOut)
  | .sbrk n t => (sysSbrk vm n t).map fun r => (r.1, .sbrk r.2)
  | .fault va => (vmfault vm va).map fun r => (r.1, .fault (r.2 ≠ 0))
  | .copyin va len => (copyin vm va len).map fun r => (r.1, .copyin r.2)
  | .copyout va src len => (copyout vm va src len).map fun r => (r.1, .copyout r.2)

/-- One process's memory, from `vm₀`; a kernel `panic` stops it. -/
def vmMachine (vm₀ : Vm) : Machine (Option Vm) VmOp (Option VmOut) :=
  Machine.ofPartial vm₀ vmStep

theorem vmMachine_step (vm₀ : Vm) : (vmMachine vm₀).step = Machine.partialStep vmStep := rfl

/-! ### `walk`'s `panic` -/

theorem PGROUNDDOWN_MAXVA : PGROUNDDOWN MAXVA = MAXVA := by decide

theorem MAXVA_toNat : MAXVA.toNat = 2 ^ 38 := by decide

theorem TRAPFRAME_toNat : TRAPFRAME.toNat = 2 ^ 38 - 2 * 4096 := by decide

theorem walk_of_le {va : UInt64} (h : MAXVA ≤ va) : walk va = none := by
  simp [walk, h]

theorem walkaddr_of_le (pt : Pagetable) {va : UInt64} (h : MAXVA ≤ va) : walkaddr pt va = 0 := by
  simp [walkaddr, h]

/-- `vmfault` hands every fault address below `p->sz` to `walk`, and `walk` panics from `MAXVA`
on. -/
theorem vmfault_walk_panic {vm : Vm} {va : UInt64} (hva : MAXVA ≤ PGROUNDDOWN va) (hsz : va < vm.sz) :
    vmfault vm va = none := by
  have hs : ¬ va ≥ vm.sz := by
    rw [ge_iff_le, UInt64.le_iff_toNat_le]
    rw [UInt64.lt_iff_toNat_lt] at hsz
    omega
  simp [vmfault, hs, ismapped, walk_of_le hva]

/-- A `copyin` from a page at or above `MAXVA` that lies below `p->sz` panics in `walk`. -/
theorem copyin_walk_panic {vm : Vm} {va len : UInt64} (hlen : len ≠ 0)
    (hva : MAXVA ≤ PGROUNDDOWN va) (hsz : PGROUNDDOWN va < vm.sz) : copyin vm va len = none := by
  rw [copyin, dif_neg hlen]
  simp [walkaddr_of_le _ hva, vmfault_walk_panic (by rwa [PGROUNDDOWN_idem]) hsz]

theorem walk_of_lt {va : UInt64} (h : va < MAXVA) : walk va = some (PGROUNDDOWN va) := by
  have hn : ¬ va ≥ MAXVA := by
    rw [ge_iff_le, UInt64.le_iff_toNat_le]
    rw [UInt64.lt_iff_toNat_lt] at h
    omega
  simp [walk, hn]

/-- `mappages` of one free page at a page-aligned address below `MAXVA`. -/
theorem mappages_page {pt : Pagetable} {va pa perm : UInt64} (hal : PGROUNDDOWN va = va)
    (hlt : va < MAXVA) (hv : pt va &&& PTE_V = 0) :
    mappages pt va PGSIZE.toUInt64 pa perm = some (Function.update pt va (PA2PTE pa ||| perm ||| PTE_V)) := by
  have hmod : va % PGSIZE.toUInt64 = 0 := by
    have h := PGROUNDDOWN_toNat va
    rw [hal] at h
    apply UInt64.toNat_inj.1
    rw [UInt64.toNat_mod, show PGSIZE.toUInt64.toNat = 4096 by decide, UInt64.toNat_zero]
    omega
  have hw : walk va = some va := by rw [walk_of_lt hlt, hal]
  have hlast : va + PGSIZE.toUInt64 - PGSIZE.toUInt64 = va := UInt64.add_sub_cancel _ _
  rw [mappages, if_neg (by rw [hmod]; exact fun h => h rfl), if_neg (by decide),
    if_neg (by decide), show (PGSIZE.toUInt64 / PGSIZE.toUInt64).toNat = 1 by decide, hlast]
  simp [mappagesLoop, hw, hv]

/-- **Below `MAXVA` no fault panics.**  While `p->sz` is at most `MAXVA`, `vmfault` never reaches
a `panic`: an address below `p->sz` is below `MAXVA`, and the page it maps is free. -/
theorem vmfault_isSome {vm : Vm} (h : vm.sz ≤ MAXVA) (va : UInt64) : (vmfault vm va).isSome := by
  unfold vmfault
  split_ifs with hva
  · rfl
  · have hlt : PGROUNDDOWN va < MAXVA := by
      have := PGROUNDDOWN_toNat va
      have : va.toNat / 4096 * 4096 ≤ va.toNat := Nat.div_mul_le_self _ _
      rw [ge_iff_le, UInt64.le_iff_toNat_le] at hva
      rw [UInt64.le_iff_toNat_le] at h
      rw [UInt64.lt_iff_toNat_lt]
      omega
    simp only [ismapped, walk_of_lt hlt, PGROUNDDOWN_idem, Option.map_some]
    by_cases hv : vm.pagetable (PGROUNDDOWN va) &&& PTE_V = 0
    · -- the page is not mapped: a fresh page goes there
      simp only [hv, ne_eq, not_true_eq_false, decide_false]
      split_ifs
      · rfl
      · rw [mappages_page (PGROUNDDOWN_idem va) hlt hv]
        rfl
    · simp [hv]

/-! ### Lazy `sbrk` -/

theorem toNat_ofInt_natCast (m : ℕ) : (UInt64.ofInt m).toNat = m % 2 ^ 64 := by
  simp only [UInt64.ofInt, UInt64.toNat_ofNat']
  omega

/-- A lazy `sbrk(n)` with `n ≥ 0` that does not wrap around only moves `p->sz`, and returns the
old size. -/
theorem sysSbrk_lazy {vm : Vm} {n : ℕ} {t : ℤ} (ht : t ≠ SBRK_EAGER)
    (h : vm.sz.toNat + n < 2 ^ 64) :
    sysSbrk vm n t = some ({ vm with sz := vm.sz + UInt64.ofInt n }, vm.sz) ∧
      (vm.sz + UInt64.ofInt n).toNat = vm.sz.toNat + n := by
  have hn : (UInt64.ofInt n).toNat = n := by rw [toNat_ofInt_natCast]; omega
  have hadd : (vm.sz + UInt64.ofInt n).toNat = vm.sz.toNat + n := by
    rw [UInt64.toNat_add, hn]; omega
  have hnw : ¬ vm.sz + UInt64.ofInt n < vm.sz := by
    rw [UInt64.lt_iff_toNat_lt, hadd]; omega
  refine ⟨?_, hadd⟩
  have hneg : ¬ ((n : ℤ) < 0) := by omega
  simp [sysSbrk, ht, hneg, hnw]

/-- `k` lazy `sbrk(n)` calls that do not wrap around: each returns the size before it, and
together they add `k * n` to `p->sz`. -/
theorem lazy_sbrk_run (vm₀ : Vm) {n : ℕ} {t : ℤ} (ht : t ≠ SBRK_EAGER) (k : ℕ) :
    ∀ vm : Vm, vm.sz.toNat + k * n < 2 ^ 64 →
      ∃ vm', (vmMachine vm₀).run (some vm) (List.replicate k (.sbrk n t)) = some vm' ∧
        vm'.sz.toNat = vm.sz.toNat + k * n ∧
        (vmMachine vm₀).outs (some vm) (List.replicate k (.sbrk n t)) =
          (List.range k).map fun i => some (.sbrk (UInt64.ofNat (vm.sz.toNat + i * n))) := by
  induction k with
  | zero => intro vm _; exact ⟨vm, rfl, by simp, rfl⟩
  | succ k ih =>
    intro vm h
    rw [Nat.succ_mul] at h
    obtain ⟨hsb, hsz⟩ := @sysSbrk_lazy vm n t ht (by omega)
    have hstep : (vmMachine vm₀).step (some vm) (.sbrk n t) =
        (some { vm with sz := vm.sz + UInt64.ofInt n }, some (.sbrk vm.sz)) := by
      rw [vmMachine_step]
      exact Machine.partialStep_some (by simp [vmStep, hsb])
    obtain ⟨vm', hrun, hsz', hout⟩ := ih { vm with sz := vm.sz + UInt64.ofInt n }
      (by simp only [hsz]; omega)
    refine ⟨vm', ?_, ?_, ?_⟩
    · rw [List.replicate_succ, Machine.run_cons, hstep]
      exact hrun
    · rw [hsz', hsz, Nat.succ_mul]
      omega
    · -- the first call returns the old size; the others shift by `n`
      rw [List.replicate_succ, Machine.outs, hstep, hout, List.range_succ_eq_map]
      simp only [List.map_cons, List.map_map, zero_mul, add_zero, UInt64.ofNat_toNat]
      congr 1
      apply List.map_congr_left
      intro i _
      simp only [Function.comp, hsz, Nat.succ_mul]
      congr 3
      omega

/-- **Lazy `sbrk` reaches `walk`'s `panic`.**  From every memory whose size is at most
`TRAPFRAME`, 129 lazy `sbrk(0x7fffffff)` calls all succeed, each returning the size before it,
and leave `p->sz` above `TRAPFRAME` and above `MAXVA`.  A user page fault at `MAXVA` then stops
the kernel in `walk`, and so does a system call that copies in from `MAXVA`. -/
theorem lazy_sbrk_walk_panic (vm : Vm) (hsz : vm.sz ≤ TRAPFRAME) :
    let M := vmMachine vm
    let grow := List.replicate 129 (VmOp.sbrk 0x7fffffff SBRK_LAZY)
    (∃ vm', M.run M.init grow = some vm' ∧ TRAPFRAME < vm'.sz ∧ MAXVA < vm'.sz) ∧
      M.outs M.init grow =
        (List.range 129).map (fun i => some (.sbrk (UInt64.ofNat (vm.sz.toNat + i * 0x7fffffff)))) ∧
      M.run M.init (grow ++ [.fault MAXVA]) = none ∧
      M.run M.init (grow ++ [.copyin MAXVA 1]) = none := by
  intro M grow
  have h0 : vm.sz.toNat ≤ 2 ^ 38 - 2 * 4096 := by
    rw [← TRAPFRAME_toNat]; exact UInt64.le_iff_toNat_le.1 hsz
  obtain ⟨vm', hrun, hsz', hout⟩ := lazy_sbrk_run vm (n := 0x7fffffff) (t := SBRK_LAZY)
    (by decide) 129 vm (by omega)
  simp only [Nat.cast_ofNat] at hrun hout
  -- `p->sz` is now past `MAXVA`
  have hmax : MAXVA < vm'.sz := by
    rw [UInt64.lt_iff_toNat_lt, MAXVA_toNat, hsz']; omega
  have htf : TRAPFRAME < vm'.sz := by
    rw [UInt64.lt_iff_toNat_lt, TRAPFRAME_toNat, hsz']; omega
  have hpanic : ∀ op, vmStep vm' op = none → M.run M.init (grow ++ [op]) = none := by
    intro op hop
    rw [Machine.run_append]
    show M.run (M.run (some vm) grow) [op] = none
    rw [hrun, Machine.run_cons, vmMachine_step, Machine.partialStep_stop hop]
    rfl
  refine ⟨⟨vm', hrun, htf, hmax⟩, hout, hpanic _ ?_, hpanic _ ?_⟩
  · simp [vmStep, vmfault_walk_panic (by decide) hmax]
  · have hcopy : copyin vm' MAXVA 1 = none :=
      copyin_walk_panic (by decide) (by decide) (by rwa [PGROUNDDOWN_MAXVA])
    simp [vmStep, hcopy]

/-- A process of three pages with nothing mapped: 129 lazy `sbrk`s, then a fault at `MAXVA`,
stop the kernel. -/
theorem lazy_sbrk_walk_panic_three_pages :
    let vm : Vm := ⟨0x3000, fun _ => 0, ⟨[], fun _ => []⟩⟩
    vm.sz ≤ TRAPFRAME ∧
      (vmMachine vm).run (some vm)
        (List.replicate 129 (VmOp.sbrk 0x7fffffff SBRK_LAZY) ++ [.fault MAXVA]) = none :=
  ⟨by decide, (lazy_sbrk_walk_panic _ (by decide)).2.2.1⟩

/-! ### User pages and `uvmunmap` -/

/-- A page-aligned address below `MAXVA`: a page whose leaf the flattened table keeps. -/
def UserPage (va : UInt64) : Prop := va < MAXVA ∧ va.toNat % PGSIZE = 0

namespace UserPage

variable {va : UInt64}

theorem toNat_lt (h : UserPage va) : va.toNat < 2 ^ 38 := by
  have := h.1
  rw [UInt64.lt_iff_toNat_lt, MAXVA_toNat] at this
  exact this

theorem of_toNat {va : UInt64} (h : va.toNat < 2 ^ 38) (hal : va.toNat % PGSIZE = 0) :
    UserPage va :=
  ⟨by rw [UInt64.lt_iff_toNat_lt, MAXVA_toNat]; exact h, hal⟩

theorem PGROUNDDOWN_eq (h : UserPage va) : PGROUNDDOWN va = va := by
  apply UInt64.toNat_inj.1
  have := h.2
  rw [PGROUNDDOWN_toNat]
  simp only [PGSIZE] at this
  omega

/-- The next page, as the loops step to it. -/
theorem toNat_add (h : UserPage va) : (va + PGSIZE.toUInt64).toNat = va.toNat + PGSIZE := by
  have := h.toNat_lt
  rw [UInt64.toNat_add, show PGSIZE.toUInt64.toNat = 4096 by decide]
  simp only [PGSIZE]
  omega

theorem aligned_add (h : UserPage va) : (va + PGSIZE.toUInt64).toNat % PGSIZE = 0 := by
  have := h.2
  rw [h.toNat_add]
  simp only [PGSIZE] at this ⊢
  omega

/-- `walk` of a user page finds the page's own slot. -/
theorem walk_eq (h : UserPage va) : walk va = some va := by
  rw [walk_of_lt h.1, h.PGROUNDDOWN_eq]

end UserPage

theorem PGROUNDUP_eq (sz : UInt64) : PGROUNDUP sz = PGROUNDDOWN (sz + PGSIZE.toUInt64 - 1) := rfl

theorem PGROUNDUP_aligned (sz : UInt64) : (PGROUNDUP sz).toNat % PGSIZE = 0 := by
  rw [PGROUNDUP_eq, PGROUNDDOWN_toNat]
  simp only [PGSIZE]
  omega

/-- Rounding up a size where adding `PGSIZE - 1` does not wrap. -/
theorem PGROUNDUP_toNat {sz : UInt64} (h : sz.toNat < 2 ^ 64 - 4095) :
    (PGROUNDUP sz).toNat = (sz.toNat + 4095) / 4096 * 4096 := by
  have hadd : sz + PGSIZE.toUInt64 - 1 = sz + 4095 := by
    rw [UInt64.sub_eq_add_neg, UInt64.add_assoc]
    rfl
  rw [PGROUNDUP_eq, PGROUNDDOWN_toNat, hadd, UInt64.toNat_add,
    show (4095 : UInt64).toNat = 4095 from rfl, Nat.mod_eq_of_lt (by omega)]

/-- A page-aligned size is its own rounding: below `2 ^ 64` it is at most `2 ^ 64 - 4096`, so
adding `PGSIZE - 1` does not wrap. -/
theorem PGROUNDUP_of_aligned {sz : UInt64} (h : sz.toNat % PGSIZE = 0) : PGROUNDUP sz = sz := by
  have hlt := sz.toNat_lt
  simp only [PGSIZE] at h
  apply UInt64.toNat_inj.1
  rw [PGROUNDUP_toNat (by omega)]
  omega

/-- What `uvmunmap` finds at a page: no valid PTE (`none`), or a leaf mapping the page `p`. -/
def PteMaps (pte : UInt64) : Option ℕ → Prop
  | none => pte &&& PTE_V = 0
  | some p => pte &&& PTE_V ≠ 0 ∧ pte &&& 0x3FF ≠ PTE_V ∧ (PTE2PA pte).toNat = p

namespace UserPage

variable {a va : UInt64}

/-- An aligned page other than `a` is among the `n + 1` pages from `a` exactly when it is among
the `n` pages from the next one. -/
theorem range_succ (hal : a.toNat % PGSIZE = 0) (hva : UserPage va) (hne : va ≠ a) (n : ℕ) :
    (a.toNat ≤ va.toNat ∧ va.toNat < a.toNat + (n + 1) * PGSIZE) ↔
      (a.toNat + PGSIZE ≤ va.toNat ∧ va.toNat < a.toNat + PGSIZE + n * PGSIZE) := by
  have hne' : va.toNat ≠ a.toNat := fun e => hne (UInt64.toNat_inj.1 e)
  have hal' := hva.2
  simp only [PGSIZE] at hal hal' ⊢
  constructor <;> intro h <;> omega

/-- One page further on, one place further in the list of pages. -/
theorem index_succ (hal : a.toNat % PGSIZE = 0) (hva : UserPage va)
    (h : a.toNat + PGSIZE ≤ va.toNat) :
    (va.toNat - a.toNat) / PGSIZE = (va.toNat - (a.toNat + PGSIZE)) / PGSIZE + 1 := by
  have hal' := hva.2
  simp only [PGSIZE] at hal hal' h ⊢
  omega

end UserPage

/-- **`uvmunmap` of leaves and holes.**  When each of the pages from `a` holds a leaf or no valid
PTE, the one at `a + i * PGSIZE` as `ps[i]` says, the loop of `uvmunmap(.., 1)` clears the leaves
and frees their pages in turn, so that the page of the last one is on top of the free list; every
other page keeps its bytes. -/
theorem uvmunmapLoop_holes {ps : List (Option ℕ)} : ∀ {vm : Vm} {a : UInt64},
    a.toNat % PGSIZE = 0 → a.toNat + ps.length * PGSIZE ≤ 2 ^ 38 →
    (∀ va, UserPage va → a.toNat ≤ va.toNat → va.toNat < a.toNat + ps.length * PGSIZE →
      PteMaps (vm.pagetable va) (ps.getD ((va.toNat - a.toNat) / PGSIZE) none)) →
    ∃ vm', uvmunmapLoop vm a true ps.length = some vm' ∧ vm'.sz = vm.sz ∧
      vm'.phys.freelist = ps.reduceOption.reverse ++ vm.phys.freelist ∧
      (∀ x, x ∉ ps.reduceOption → vm'.phys.mem x = vm.phys.mem x) ∧
      ∀ va, UserPage va → vm'.pagetable va =
        if a.toNat ≤ va.toNat ∧ va.toNat < a.toNat + ps.length * PGSIZE ∧
          (ps.getD ((va.toNat - a.toNat) / PGSIZE) none).isSome then 0
        else vm.pagetable va := by
  induction ps with
  | nil =>
    intro vm a _ _ _
    refine ⟨vm, rfl, rfl, by simp, fun _ _ => rfl, fun va _ => ?_⟩
    rw [if_neg (by simp)]
  | cons o ps ih =>
    intro vm a hal hk hmaps
    simp only [List.length_cons] at hk hmaps ⊢
    have hpage : UserPage a := UserPage.of_toNat (by simp only [PGSIZE] at hk; omega) hal
    have hnext := hpage.toNat_add
    have hfirst := hmaps a hpage le_rfl (by simp only [PGSIZE]; omega)
    rw [Nat.sub_self, Nat.zero_div, List.getD_cons_zero] at hfirst
    -- the round at `a`: `vm₁` is the memory the loop goes on with, from the next page
    obtain ⟨vm₁, hstep, hsz₁, hfree₁, hmem₁, hpt₁⟩ : ∃ vm₁ : Vm,
        uvmunmapLoop vm a true (ps.length + 1) =
          uvmunmapLoop vm₁ (a + PGSIZE.toUInt64) true ps.length ∧ vm₁.sz = vm.sz ∧
        vm₁.phys.freelist = o.toList ++ vm.phys.freelist ∧
        (∀ x, x ∉ o.toList → vm₁.phys.mem x = vm.phys.mem x) ∧
        vm₁.pagetable = Function.update vm.pagetable a (if o.isSome then 0 else vm.pagetable a) := by
      cases o with
      | none =>
        refine ⟨vm, ?_, rfl, rfl, fun _ _ => rfl, by simp⟩
        rw [uvmunmapLoop, hpage.walk_eq]
        simp only [if_pos (show vm.pagetable a &&& PTE_V = 0 from hfirst)]
      | some p =>
        obtain ⟨hv, hflags, hpa⟩ := hfirst
        refine ⟨⟨vm.sz, Function.update vm.pagetable a 0, kfree vm.phys p⟩, ?_, rfl, rfl,
          fun x hx => ?_, by simp⟩
        · rw [uvmunmapLoop, hpage.walk_eq]
          simp only [if_neg hv, if_neg hflags, if_true, hpa]
        · simp only [kfree, Option.toList_some, List.mem_singleton] at hx ⊢
          rw [Function.update_of_ne hx]
    obtain ⟨vm', hrun, hsz, hfree, hmem, hpt⟩ := @ih vm₁ _ hpage.aligned_add
      (by rw [hnext]; simp only [PGSIZE] at hk ⊢; omega) (fun va hva h1 h2 => by
        rw [hnext] at h1 h2 ⊢
        have hne : va ≠ a := fun e => by rw [e] at h1; simp only [PGSIZE] at h1; omega
        have hr := (UserPage.range_succ hal hva hne _).2 ⟨h1, h2⟩
        have := hmaps va hva hr.1 hr.2
        rw [UserPage.index_succ hal hva h1, List.getD_cons_succ] at this
        rwa [hpt₁, Function.update_of_ne hne])
    refine ⟨vm', hstep ▸ hrun, hsz.trans hsz₁, ?_, fun x hx => ?_, fun va hva => ?_⟩
    · rw [hfree, hfree₁]
      cases o <;> simp
    · have hx' : x ∉ o.toList ∧ x ∉ ps.reduceOption := by
        cases o <;> simpa [List.reduceOption_cons_of_some, List.reduceOption_cons_of_none] using hx
      rw [hmem x hx'.2, hmem₁ x hx'.1]
    · rw [hpt va hva, hnext, hpt₁]
      by_cases hva_a : va = a
      · -- the page of this round: past its own range in the rest of the loop
        subst hva_a
        have hlt : ¬ va.toNat + PGSIZE ≤ va.toNat := by simp only [PGSIZE]; omega
        have hP : PGSIZE ≠ 0 := by decide
        cases o <;> simp [hlt, hP]
      · rw [Function.update_of_ne hva_a]
        by_cases hin : a.toNat + PGSIZE ≤ va.toNat
        · have hiff : (a.toNat + PGSIZE ≤ va.toNat ∧
                va.toNat < a.toNat + PGSIZE + ps.length * PGSIZE ∧
                (ps.getD ((va.toNat - (a.toNat + PGSIZE)) / PGSIZE) none).isSome) ↔
              (a.toNat ≤ va.toNat ∧ va.toNat < a.toNat + (ps.length + 1) * PGSIZE ∧
                ((o :: ps).getD ((va.toNat - a.toNat) / PGSIZE) none).isSome) := by
            rw [UserPage.index_succ hal hva hin, List.getD_cons_succ, ← and_assoc, ← and_assoc,
              UserPage.range_succ hal hva hva_a]
          simp only [hiff]
        · have hin' : ¬ (a.toNat ≤ va.toNat ∧ va.toNat < a.toNat + (ps.length + 1) * PGSIZE) :=
            fun h => hin ((UserPage.range_succ hal hva hva_a _).1 h).1
          rw [if_neg (fun h => hin h.1), if_neg (fun h => hin' ⟨h.1, h.2.1⟩)]

/-- **`uvmunmap` of leaves.**  When each of the pages from `a` holds a valid leaf, the one at
`a + i * PGSIZE` mapping the page `ps[i]`, the loop of `uvmunmap(.., 1)` clears them and frees
their pages in turn, so that the page of the last one is on top of the free list. -/
theorem uvmunmapLoop_leaves {ps : List ℕ} : ∀ {vm : Vm} {a : UInt64},
    a.toNat % PGSIZE = 0 → a.toNat + ps.length * PGSIZE ≤ 2 ^ 38 →
    (∀ va, UserPage va → a.toNat ≤ va.toNat → va.toNat < a.toNat + ps.length * PGSIZE →
      vm.pagetable va &&& PTE_V ≠ 0 ∧ vm.pagetable va &&& 0x3FF ≠ PTE_V ∧
        (PTE2PA (vm.pagetable va)).toNat = ps.getD ((va.toNat - a.toNat) / PGSIZE) 0) →
    ∃ vm', uvmunmapLoop vm a true ps.length = some vm' ∧ vm'.sz = vm.sz ∧
      vm'.phys.freelist = ps.reverse ++ vm.phys.freelist ∧
      (∀ x, x ∉ ps → vm'.phys.mem x = vm.phys.mem x) ∧
      ∀ va, UserPage va → vm'.pagetable va =
        if a.toNat ≤ va.toNat ∧ va.toNat < a.toNat + ps.length * PGSIZE then 0
        else vm.pagetable va := by
  intro vm a hal hk hleaf
  -- every page of the range holds a leaf: the holes of `uvmunmapLoop_holes` are none
  have hget : ∀ i, i < ps.length → (ps.map some).getD i none = some (ps.getD i 0) := fun i hi => by
    rw [List.getD_eq_getElem _ _ (by simpa using hi), List.getD_eq_getElem _ _ hi,
      List.getElem_map]
  obtain ⟨vm', hrun, hsz, hfree, hmem, hpt⟩ := @uvmunmapLoop_holes (ps.map some) vm a hal
    (by simpa using hk) fun va hva h1 h2 => by
      have hi : (va.toNat - a.toNat) / PGSIZE < ps.length := by
        simp only [List.length_map, PGSIZE] at h2 ⊢
        omega
      rw [hget _ hi]
      exact hleaf va hva h1 (by simpa using h2)
  refine ⟨vm', by simpa using hrun, hsz, by simpa [List.reduceOption] using hfree,
    fun x hx => hmem x (by simpa [List.reduceOption] using hx), fun va hva => ?_⟩
  rw [hpt va hva, List.length_map]
  by_cases hin : a.toNat ≤ va.toNat ∧ va.toNat < a.toNat + ps.length * PGSIZE
  · have hi : (va.toNat - a.toNat) / PGSIZE < ps.length := by
      simp only [PGSIZE] at hin ⊢
      omega
    rw [if_pos ⟨hin.1, hin.2, by rw [hget _ hi]; rfl⟩, if_pos hin]
  · rw [if_neg (fun h => hin ⟨h.1, h.2.1⟩), if_neg hin]

end Kernel

end Xv6Net
