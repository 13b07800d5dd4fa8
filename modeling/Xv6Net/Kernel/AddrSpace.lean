import Xv6Net.Kernel.Freewalk
import Xv6Net.Machine.Basic

/-!
# A process's address space over its whole life (`proc.c`, `vm.c`)

`allocproc` takes a trapframe page with `kalloc` and calls `proc_pagetable`, which creates a page
table with `uvmcreate` and maps the trampoline and the trapframe at the top of the user address
space; `growproc` grows the user memory with `uvmalloc` or shrinks it with `uvmdealloc`; `freeproc`
frees the trapframe page and calls `proc_freepagetable`, which unmaps the two pages and frees the
rest with `uvmfree`.  Each of these can run out of pages and take its error path.

* `Space` : the page table of a process of size `sz`: a tree with directory entries above level 0,
  whose valid leaves are the user pages below `sz` and the kernel's pages `K` at the top, and whose
  own pages (`ownedPages`: its table pages and the pages of its user leaves), with the free list,
  are the pages that were free at the start.
* `Space.create`, `Space.mapKernel`, `Space.unmapKernel`, `Space.growproc`, `Space.uvmfree` : each
  call keeps it, on its error paths too.
* `Restored` : the free list holds the pages that were free at the start, in some order, and every
  other page has the entries and the bytes it had.
* `process_no_leak` : from any free list, `allocproc`, any run of `growproc` calls that stays below
  `TRAPFRAME`, and `freeproc` restore the memory.

The search of the process table for an `UNUSED` slot, the pid and the context `allocproc` sets up
are the subject of `Xv6Net.Kernel.Lifecycle`; here a slot is the memory it holds (`ProcMem`).
-/

namespace Xv6Net

namespace Kernel

namespace Sv39

/-! ### The functions of `proc.c` and `vm.c` -/

/-- `uvmcreate()`: the memory after the call and the new, cleared page table, `0` if out of
memory. -/
def uvmcreate (m : Mem) : Mem × ℕ :=
  let (ph, pagetable) := kalloc m.phys
  if pagetable = 0 then ({ m with phys := ph }, 0)
  else (⟨Function.update m.ptes pagetable fun _ => 0, ph⟩, pagetable)

/-- `proc_pagetable(p)`: the memory after the call and the new page table, with the trampoline code
at `trampoline` mapped at `TRAMPOLINE` and the trapframe `trapframe` at `TRAPFRAME`; `0` if it ran
out of memory. -/
def procPagetable (m : Mem) (trampoline trapframe : UInt64) : Option (Mem × ℕ) :=
  let (m, pagetable) := uvmcreate m
  if pagetable = 0 then some (m, 0)
  else
    match mappages m pagetable TRAMPOLINE PGSIZE.toUInt64 trampoline (PTE_R ||| PTE_X) with
    | none => none
    | some (m, r) =>
      if r < 0 then (uvmfree m pagetable 0).map fun m => (m, 0)
      else
        match mappages m pagetable TRAPFRAME PGSIZE.toUInt64 trapframe (PTE_R ||| PTE_W) with
        | none => none
        | some (m, r) =>
          if r < 0 then
            ((uvmunmap m pagetable TRAMPOLINE 1 false).bind fun m => uvmfree m pagetable 0).map
              fun m => (m, 0)
          else some (m, pagetable)

/-- `proc_freepagetable(pagetable, sz)`. -/
def procFreepagetable (m : Mem) (pagetable : ℕ) (sz : UInt64) : Option Mem :=
  (uvmunmap m pagetable TRAMPOLINE 1 false).bind fun m =>
    (uvmunmap m pagetable TRAPFRAME 1 false).bind fun m => uvmfree m pagetable sz

/-- `growproc(n)` of a process with the page table `pagetable` and the size `sz`: the memory after
the call, the new `p->sz` and the return value. -/
def growproc (m : Mem) (pagetable : ℕ) (sz : UInt64) (n : ℤ) : Option (Mem × UInt64 × ℤ) :=
  if n > 0 then
    (uvmalloc m pagetable sz (sz + UInt64.ofInt n) PTE_W).map fun (m, sz') =>
      if sz' = 0 then (m, sz, -1) else (m, sz', 0)
  else if n < 0 then
    (uvmdealloc m pagetable sz (sz + UInt64.ofInt n)).map fun (m, sz') => (m, sz', 0)
  else some (m, sz, 0)

/-- The memory with the page table and the size `p->sz` of one process. -/
structure AddrSpace where
  mem : Mem
  pagetable : ℕ
  sz : UInt64

/-- One `growproc(n)` of the process: its new state and the value returned. -/
def growStep (s : AddrSpace) (n : ℤ) : Option (AddrSpace × ℤ) :=
  (growproc s.mem s.pagetable s.sz n).map fun (m, sz, r) => (⟨m, s.pagetable, sz⟩, r)

/-- The process calling `growproc` again and again; a kernel `panic` stops it. -/
def growMachine (s₀ : AddrSpace) : Machine (Option AddrSpace) ℤ (Option ℤ) :=
  Machine.ofPartial s₀ growStep

/-- The memory a slot of the process table holds: `p->trapframe`, `p->pagetable` and `p->sz`, all
`0` in an `UNUSED` slot, as `freeproc` leaves it. -/
structure ProcMem where
  trapframe : ℕ
  pagetable : ℕ
  sz : UInt64

/-- `freeproc(p)`, its memory: `kfree` of the trapframe page, then `proc_freepagetable`. -/
def freeproc (m : Mem) (p : ProcMem) : Option Mem :=
  let m := if p.trapframe ≠ 0 then { m with phys := kfree m.phys p.trapframe } else m
  if p.pagetable ≠ 0 then procFreepagetable m p.pagetable p.sz else some m

/-- `allocproc()` in the `UNUSED` slot it found, its memory: a trapframe page, then
`proc_pagetable`; when either runs out of memory, `freeproc` of the slot as far as it got, and no
process. -/
def allocproc (m : Mem) (trampoline : UInt64) : Option (Mem × Option ProcMem) :=
  let (ph, trapframe) := kalloc m.phys
  let m : Mem := { m with phys := ph }
  if trapframe = 0 then (freeproc m ⟨0, 0, 0⟩).map fun m => (m, none)
  else
    match procPagetable m trampoline trapframe.toUInt64 with
    | none => none
    | some (m, pagetable) =>
      if pagetable = 0 then (freeproc m ⟨trapframe, 0, 0⟩).map fun m => (m, none)
      else some (m, some ⟨trapframe, pagetable, 0⟩)

/-! ### The pages a page table owns -/

/-- The number of pages below `sz`, as `uvmfree` unmaps them. -/
def npages (sz : UInt64) : ℕ := (PGROUNDUP sz).toNat / PGSIZE

/-- The pages a page table owns: its table pages, and the page of each valid leaf of the first `n`
user pages. -/
def ownedPages (m : Mem) (root n : ℕ) : List ℕ :=
  tablePages m root ++ (leafPages m root n).reduceOption

section Owned

variable {m m' : Mem} {root : ℕ}

theorem npages_mul (sz : UInt64) : npages sz * PGSIZE = (PGROUNDUP sz).toNat :=
  Nat.div_mul_cancel (Nat.dvd_of_mod_eq_zero (PGROUNDUP_aligned sz))

theorem tablePages_congr (hn : node m' root = node m root) : tablePages m' root = tablePages m root := by
  rw [tablePages, tablePages, hn]

/-- A tree that grew by the pages `t`, none of them a page of it before, has the table pages it had
and `t`. -/
theorem tablePages_perm {t : List ℕ} (ht : Tree m root) (ht' : Tree m' root)
    (htable : ∀ x, TablePage m' root x ↔ TablePage m root x ∨ x ∈ t) (hnd : t.Nodup)
    (hdisj : ∀ x ∈ t, ¬ TablePage m root x) :
    (tablePages m' root).Perm (tablePages m root ++ t) := by
  refine (List.perm_ext_iff_of_nodup (nodup_tablePages ht') ?_).2 fun x => ?_
  · exact List.nodup_append.2 ⟨nodup_tablePages ht, hnd,
      fun x hx y hy e => hdisj y hy (e ▸ mem_tablePages.1 hx)⟩
  · rw [List.mem_append, mem_tablePages, mem_tablePages, htable]

/-- The entry of `leafPages` for one page reads only the leaf of that page. -/
theorem leafPages_congr {n : ℕ} (hn : n * PGSIZE ≤ 2 ^ 38)
    (h : ∀ va, UserPage va → va.toNat < n * PGSIZE →
      (leaf m' root va &&& PTE_V ≠ 0 ↔ leaf m root va &&& PTE_V ≠ 0) ∧
        (leaf m root va &&& PTE_V ≠ 0 → leaf m' root va = leaf m root va)) :
    leafPages m' root n = leafPages m root n := by
  refine List.map_congr_left fun j hj => ?_
  have hj' : j < n := List.mem_range.1 hj
  have hlt : j * PGSIZE < n * PGSIZE := Nat.mul_lt_mul_of_pos_right hj' (by decide)
  have hva : ((j * PGSIZE).toUInt64).toNat = j * PGSIZE := by
    rw [Nat.toUInt64_eq, UInt64.toNat_ofNat', Nat.mod_eq_of_lt (by omega)]
  have hpage : UserPage (j * PGSIZE).toUInt64 :=
    UserPage.of_toNat (by omega) (by rw [hva]; exact Nat.mul_mod_left _ _)
  obtain ⟨hiff, heq⟩ := h _ hpage (by rw [hva]; exact hlt)
  by_cases hv : leaf m root (j * PGSIZE).toUInt64 &&& PTE_V ≠ 0
  · rw [if_pos (hiff.2 hv), if_pos hv, heq hv]
  · rw [if_neg (fun h' => hv (hiff.1 h')), if_neg hv]

/-- The first `n` entries of `leafPages` are those of the first `n` pages. -/
theorem leafPages_take {n N : ℕ} (h : n ≤ N) : (leafPages m root N).take n = leafPages m root n := by
  rw [leafPages, ← List.map_take, List.take_range, Nat.min_eq_left h, leafPages]

/-- The pages of the leaves of `N` user pages: those of the first `n`, then the rest. -/
theorem leafPages_eq_append {n N : ℕ} (h : n ≤ N) :
    leafPages m root N = leafPages m root n ++ (leafPages m root N).drop n := by
  rw [← leafPages_take h, List.take_append_drop]

/-- Pages moved from the free list `F` into the table `T` (`t`) and under new leaves `D` (`d`). -/
theorem perm_move {l T D F T' D' F' t d : List ℕ} (h : l.Perm (T ++ D ++ F))
    (hT : T'.Perm (T ++ t)) (hD : D'.Perm (D ++ d)) (hfl : F.Perm (d ++ t ++ F')) :
    l.Perm (T' ++ D' ++ F') := by
  refine h.trans (List.perm_iff_count.2 fun x => ?_)
  have h1 := hT.count_eq x
  have h2 := hD.count_eq x
  have h3 := hfl.count_eq x
  simp only [List.count_append] at h1 h2 h3 ⊢
  omega

/-- Pages `p` freed from under the leaves `D` back to the free list `F`. -/
theorem perm_free {l T D F D' F' p : List ℕ} (h : l.Perm (T ++ D ++ F)) (hD : D.Perm (D' ++ p))
    (hF : F'.Perm (p ++ F)) : l.Perm (T ++ D' ++ F') := by
  refine h.trans (List.perm_iff_count.2 fun x => ?_)
  have h1 := hD.count_eq x
  have h2 := hF.count_eq x
  simp only [List.count_append] at h1 h2 ⊢
  omega

/-- The entry of the pages from the `n`-th on, for a page `va` among them. -/
theorem leafPages_drop_getD {n N : ℕ} {va : UInt64} (hal : va.toNat % PGSIZE = 0)
    (h1 : n * PGSIZE ≤ va.toNat) (h2 : va.toNat < N * PGSIZE) :
    ((leafPages m root N).drop n).getD ((va.toNat - n * PGSIZE) / PGSIZE) none =
      if leaf m root va &&& PTE_V ≠ 0 then some (PTE2PA (leaf m root va)).toNat else none := by
  rw [List.getD_eq_getElem?_getD, List.getElem?_drop, ← List.getD_eq_getElem?_getD,
    show n + (va.toNat - n * PGSIZE) / PGSIZE = va.toNat / PGSIZE by
      simp only [PGSIZE] at hal h1 ⊢
      omega]
  exact leafPages_getD hal h2

end Owned

/-! ### Memory given back -/

/-- `m` gives back the memory of `m₀`: its free list holds the pages that were free in `m₀`, in
some order, and every other page has the entries and the bytes it had in `m₀`. -/
structure Restored (m₀ m : Mem) : Prop where
  free : m.phys.freelist.Perm m₀.phys.freelist
  ptes : ∀ x, x ∉ m₀.phys.freelist → m.ptes x = m₀.ptes x
  mem : ∀ x, x ∉ m₀.phys.freelist → m.phys.mem x = m₀.phys.mem x

section Restored

variable {m₀ m : Mem} {x : ℕ}

theorem kfree_mem_of_ne {ph : Phys} {y : ℕ} (h : y ≠ x) : (kfree ph x).mem y = ph.mem y :=
  Function.update_of_ne h _ _

theorem ne_of_not_mem_cons {y : ℕ} {l : List ℕ} (h : y ∉ x :: l) : y ≠ x := fun e =>
  h (by rw [e]; exact List.mem_cons_self)

theorem Restored.refl (m : Mem) : Restored m m :=
  ⟨List.Perm.refl _, fun _ _ => rfl, fun _ _ => rfl⟩

/-- `kfree` of one more page on both sides. -/
theorem Restored.kfree (h : Restored m₀ m) (x : ℕ) :
    Restored { m₀ with phys := kfree m₀.phys x } { m with phys := kfree m.phys x } where
  free := h.free.cons x
  ptes y hy := h.ptes y fun h' => hy (List.mem_cons_of_mem x h')
  mem y hy := by
    rw [kfree_mem_of_ne (ne_of_not_mem_cons hy), kfree_mem_of_ne (ne_of_not_mem_cons hy)]
    exact h.mem y fun h' => hy (List.mem_cons_of_mem x h')

/-- `kfree` of the page `kalloc` took from `m₀` gives back `m₀`: the junk `kalloc` wrote is in a
page that is free again. -/
theorem Restored.kalloc_kfree {rest : List ℕ} (hfl : m₀.phys.freelist = x :: rest)
    (h : Restored { m₀ with phys := Kernel.kfree (kalloc m₀.phys).1 x } m) : Restored m₀ m := by
  rw [kalloc_cons hfl] at h
  refine ⟨by rw [hfl]; exact h.free, fun y hy => h.ptes y (by rwa [hfl] at hy), fun y hy => ?_⟩
  rw [hfl] at hy
  have hne := ne_of_not_mem_cons hy
  rw [h.mem y hy, kfree_mem_of_ne hne]
  exact Function.update_of_ne hne _ _

end Restored

/-! ### The invariant -/

/-- The page table `root` of a process of size `sz` in `m`, from the memory `m₀` at the start: a
tree with directory entries above level 0 and no valid slot under the upper half of the root, whose
valid leaves are leaves of user pages below `sz` or of the kernel's pages `K` above it, and whose
own pages, with the free list, are the pages that were free in `m₀`; every other page is as it was
in `m₀`. -/
structure Space (m₀ m : Mem) (root : ℕ) (sz : UInt64) (K : List UInt64) : Prop where
  nodup : m₀.phys.freelist.Nodup
  addr : ∀ p ∈ m₀.phys.freelist, PageAddr p
  tree : Tree m root
  dir : DirOK m root
  high : ∀ i j k, 256 ≤ i.val → slot m root i j k &&& PTE_V = 0
  sz_le : sz.toNat ≤ TRAPFRAME.toNat
  kernel : ∀ k ∈ K, UserPage k ∧ TRAPFRAME.toNat ≤ k.toNat
  leaves : ∀ va, UserPage va → leaf m root va &&& PTE_V ≠ 0 →
    leaf m root va &&& 0x3FF ≠ PTE_V ∧ (va.toNat < (PGROUNDUP sz).toNat ∨ va ∈ K)
  account : m₀.phys.freelist.Perm (ownedPages m root (npages sz) ++ m.phys.freelist)
  ptes : ∀ pg, pg ∉ m₀.phys.freelist → m.ptes pg = m₀.ptes pg
  mem : ∀ x, x ∉ m₀.phys.freelist → m.phys.mem x = m₀.phys.mem x

section Space

variable {m₀ m m' : Mem} {root : ℕ} {sz : UInt64} {K : List UInt64}

theorem PGROUNDUP_le_TRAPFRAME (h : sz.toNat ≤ TRAPFRAME.toNat) :
    (PGROUNDUP sz).toNat ≤ TRAPFRAME.toNat := by
  rw [TRAPFRAME_toNat] at h ⊢
  rw [PGROUNDUP_toNat (by omega)]
  omega

theorem Space.npages_le (hs : Space m₀ m root sz K) : npages sz * PGSIZE ≤ TRAPFRAME.toNat := by
  rw [npages_mul]
  exact PGROUNDUP_le_TRAPFRAME hs.sz_le

theorem Space.npages_le_user (hs : Space m₀ m root sz K) : npages sz * PGSIZE ≤ 2 ^ 38 :=
  hs.npages_le.trans (by rw [TRAPFRAME_toNat]; omega)

/-- The free list is as `kfree` keeps it: its pages are pages that were free at the start, and none
of them is owned by the table. -/
theorem Space.freeOK (hs : Space m₀ m root sz K) : FreeOK m root := by
  have hnd := (List.nodup_append.1 (hs.account.nodup_iff.1 hs.nodup))
  refine ⟨hnd.2.1, fun p hp => hs.addr p (hs.account.mem_iff.2 (List.mem_append_right _ hp)),
    fun p hp htab => ?_⟩
  exact hnd.2.2 p (List.mem_append_left _ (mem_tablePages.2 htab)) p hp rfl

/-- A page that was not free at the start is neither a page the table owns nor free now. -/
theorem Space.not_owned (hs : Space m₀ m root sz K) {x : ℕ} (hx : x ∉ m₀.phys.freelist) :
    x ∉ ownedPages m root (npages sz) ∧ x ∉ m.phys.freelist := by
  rw [hs.account.mem_iff, List.mem_append, not_or] at hx
  exact hx

theorem Space.not_table (hs : Space m₀ m root sz K) {x : ℕ} (hx : x ∉ m₀.phys.freelist) :
    ¬ TablePage m root x := fun h =>
  (hs.not_owned hx).1 (List.mem_append_left _ (mem_tablePages.2 h))

/-- More kernel pages are allowed. -/
theorem Space.mono {K' : List UInt64} (hs : Space m₀ m root sz K) (hK : K ⊆ K')
    (hk : ∀ k ∈ K', UserPage k ∧ TRAPFRAME.toNat ≤ k.toNat) : Space m₀ m root sz K' :=
  { hs with
    kernel := hk
    leaves := fun va hva hv => (hs.leaves va hva hv).imp_right (Or.imp_right fun h => hK h) }

/-- `Space` reads the size through `PGROUNDUP` only. -/
theorem Space.of_PGROUNDUP {sz' : UInt64} (hs : Space m₀ m root sz K)
    (h : PGROUNDUP sz' = PGROUNDUP sz) (hle : sz'.toNat ≤ TRAPFRAME.toNat) : Space m₀ m root sz' K :=
  { hs with
    sz_le := hle
    leaves := fun va hva hv => by
      rw [h]
      exact hs.leaves va hva hv
    account := by
      rw [npages, h]
      exact hs.account }

/-- The leaf of every user page maps its entry of `leafPages`, as `uvmunmap` expects. -/
theorem Space.pteMaps (hs : Space m₀ m root sz K) {va : UInt64} (hva : UserPage va) :
    PteMaps (leaf m root va)
      (if leaf m root va &&& PTE_V ≠ 0 then some (PTE2PA (leaf m root va)).toNat else none) := by
  by_cases hv : leaf m root va &&& PTE_V ≠ 0
  · rw [if_pos hv]
    exact ⟨hv, (hs.leaves va hva hv).1, rfl⟩
  · rw [if_neg hv]
    exact not_not.1 hv

/-- A page above `sz` that is not a kernel page has no valid leaf. -/
theorem Space.leaf_invalid (hs : Space m₀ m root sz K) {va : UInt64} (hva : UserPage va)
    (hsz : (PGROUNDUP sz).toNat ≤ va.toNat) (hK : va ∉ K) : leaf m root va &&& PTE_V = 0 := by
  by_contra hv
  rcases (hs.leaves va hva hv).2 with h | h
  · omega
  · exact hK h

/-- A kernel page is above every user page of the process. -/
theorem Space.ne_of_kernel (hs : Space m₀ m root sz K) {k va : UInt64} (hk : k ∈ K)
    (hva : va.toNat < npages sz * PGSIZE) : va ≠ k := by
  rintro rfl
  have := (hs.kernel va hk).2
  have := hs.npages_le
  omega

/-- An allocating `walk` keeps `Space`: the pages it enters come off the free list into the
table. -/
theorem Space.grows {t : List ℕ} (hs : Space m₀ m root sz K) (hg : Grows m m' root t) :
    Space m₀ m' root sz K where
  nodup := hs.nodup
  addr := hs.addr
  tree := hg.tree
  dir := hg.dir hs.dir
  high i j k hi := by
    rw [hg.slot]
    exact hs.high i j k hi
  sz_le := hs.sz_le
  kernel := hs.kernel
  leaves va hva hv := by
    rw [hg.leaf_eq] at hv ⊢
    exact hs.leaves va hva hv
  account := by
    have hf := hs.freeOK
    have hnd : (t ++ m'.phys.freelist).Nodup := hg.free ▸ hf.nodup
    have htab := tablePages_perm hs.tree hg.tree hg.table (List.nodup_append.1 hnd).1
      fun x hx => hf.not_table x (hg.free ▸ List.mem_append_left _ hx)
    have hl : leafPages m' root (npages sz) = leafPages m root (npages sz) := by
      simp only [leafPages, hg.leaf_eq]
    refine perm_move hs.account htab (d := []) (by rw [hl, List.append_nil]) ?_
    rw [hg.free, List.nil_append]
  ptes pg hpg := by
    rw [hg.ptes pg (hs.not_table hpg) fun h =>
      (hs.not_owned hpg).2 (hg.free ▸ List.mem_append_left _ h)]
    exact hs.ptes pg hpg
  mem x hx := by
    rw [hg.mem x fun h => (hs.not_owned hx).2 (hg.free ▸ List.mem_append_left _ h)]
    exact hs.mem x hx

/-- `kfree` of a page that was not free at the start: `Space` from the memory with that page free
too. -/
theorem Space.kfree (hs : Space m₀ m root sz K) {x : ℕ} (hx : PageAddr x)
    (hfree : x ∉ m₀.phys.freelist) :
    Space { m₀ with phys := kfree m₀.phys x } { m with phys := kfree m.phys x } root sz K where
  nodup := List.nodup_cons.2 ⟨hfree, hs.nodup⟩
  addr p hp := (List.mem_cons.1 hp).elim (fun e => e ▸ hx) (hs.addr p)
  tree := hs.tree
  dir := hs.dir
  high := hs.high
  sz_le := hs.sz_le
  kernel := hs.kernel
  leaves := hs.leaves
  account := (hs.account.cons x).trans List.perm_middle.symm
  ptes pg hpg := hs.ptes pg fun h => hpg (List.mem_cons_of_mem x h)
  mem y hy := by
    rw [kfree_mem_of_ne (ne_of_not_mem_cons hy), kfree_mem_of_ne (ne_of_not_mem_cons hy)]
    exact hs.mem y fun h => hy (List.mem_cons_of_mem x h)

end Space

/-! ### `uvmcreate` -/

section Create

variable {m : Mem} {r : ℕ} {rest : List ℕ}

theorem uvmcreate_nil (h : m.phys.freelist = []) : uvmcreate m = (m, 0) := by
  simp [uvmcreate, kalloc_nil h]

theorem uvmcreate_cons (h : m.phys.freelist = r :: rest) (hr : r ≠ 0) :
    uvmcreate m = (⟨Function.update m.ptes r fun _ => 0, (kalloc m.phys).1⟩, r) := by
  simp [uvmcreate, kalloc_cons h, hr]

/-- A cleared root: no path from it leads anywhere. -/
theorem node_cleared {m : Mem} (h : ∀ i, m.ptes r i = 0) :
    ∀ p, p ≠ [] → node m r p = none := by
  have hnext : ∀ i, next m r i = none := fun i => by simp [next, h i]
  intro p hp
  rcases p with _ | ⟨i, _ | ⟨j, _ | ⟨l, p⟩⟩⟩
  · exact absurd rfl hp
  · exact hnext i
  · simp [node, hnext i]
  · rfl

/-- **`uvmcreate`** takes the page on top of the free list for an empty page table: a `Space` of
size `0` with no kernel page. -/
theorem Space.create (hnd : m.phys.freelist.Nodup) (haddr : ∀ p ∈ m.phys.freelist, PageAddr p)
    (h : m.phys.freelist = r :: rest) : Space m (uvmcreate m).1 r 0 [] := by
  have hr : PageAddr r := haddr r (by rw [h]; exact List.mem_cons_self)
  rw [uvmcreate_cons h hr.1.ne']
  set m₁ : Mem := ⟨Function.update m.ptes r fun _ => 0, (kalloc m.phys).1⟩
  have hnode := node_cleared (m := m₁) (r := r) fun i => by simp [m₁]
  have hslot : ∀ i j k, slot m₁ r i j k = 0 := fun i j k => by
    rw [slot, hnode _ (List.cons_ne_nil _ _)]
  have hroot : ∀ p x, node m₁ r p = some x → p = [] ∧ x = r := fun p x hx => by
    by_cases hp : p = []
    · subst hp
      exact ⟨rfl, (Option.some.inj hx).symm⟩
    · rw [hnode p hp] at hx
      cases hx
  have htree : Tree m₁ r := fun p q x hp hq => (hroot p x hp).1.trans (hroot q x hq).1.symm
  have htab : (tablePages m₁ r).Perm [r] := by
    refine (List.perm_ext_iff_of_nodup (nodup_tablePages htree) (List.nodup_singleton r)).2
      fun x => ?_
    rw [mem_tablePages, List.mem_singleton]
    exact ⟨fun hx => hx.elim fun p hp => (hroot p x hp).2, fun e => ⟨[], by rw [e]; rfl⟩⟩
  refine ⟨hnd, haddr, htree, fun p x _ hx i hv => ?_, fun i j k _ => by rw [hslot]; rfl, by simp,
    by simp, fun va _ hv => ?_, ?_, fun pg hpg => ?_, fun x hx => ?_⟩
  · -- the root, cleared
    obtain ⟨-, rfl⟩ := hroot p x hx
    simp [m₁] at hv
  · rw [leaf, hslot] at hv
    exact absurd rfl hv
  · have hfl : m₁.phys.freelist = rest := by simp [m₁, kalloc_cons h]
    show m.phys.freelist.Perm
      (tablePages m₁ r ++ (leafPages m₁ r (npages 0)).reduceOption ++ m₁.phys.freelist)
    rw [h, hfl, show npages 0 = 0 by decide]
    simpa [leafPages] using (htab.append_right rest).symm
  · -- only the root, the page on top of the free list, is written
    have hne : pg ≠ r := by
      rintro rfl
      exact hpg (by rw [h]; exact List.mem_cons_self)
    simp [m₁, Function.update_of_ne hne]
  · have hne : x ≠ r := by
      rintro rfl
      exact hx (by rw [h]; exact List.mem_cons_self)
    simp [m₁, kalloc_cons h, Function.update_of_ne hne]

end Create

/-! ### The kernel's pages -/

section Kernel

variable {m₀ m : Mem} {root : ℕ} {sz : UInt64} {K : List UInt64}

/-- **`mappages` of a kernel page** above the user pages, whose leaf is not valid yet: it maps the
page, or runs out of pages and returns `-1`; either way the table keeps `Space`. -/
theorem Space.mapKernel (hs : Space m₀ m root sz K) (pa perm : UInt64) {k : UInt64} (hk : UserPage k)
    (hkt : TRAPFRAME.toNat ≤ k.toNat) (hinv : leaf m root k &&& PTE_V = 0)
    (hp : perm.toNat < 2 ^ 10) (hpv : perm ||| PTE_V ≠ PTE_V) :
    ∃ m', (mappages m root k PGSIZE.toUInt64 pa perm = some (m', 0) ∧ Space m₀ m' root sz (k :: K)) ∨
      (mappages m root k PGSIZE.toUInt64 pa perm = some (m', -1) ∧ Space m₀ m' root sz K) := by
  obtain ⟨m'', t, hg, ⟨d, hd, hmap⟩ | ⟨hmap, -⟩⟩ :=
    @mappages_page m root k pa perm hs.freeOK hs.tree hk.1 hk.2 hinv
  · -- the leaf is stored: only the slot of `k` changes
    have hs'' := hs.grows hg
    have hnode := node_setPte_leaf hg.tree hd (PX 0 k) (PA2PTE pa ||| perm ||| PTE_V)
    have hleaf := fun va (hva : UserPage va) =>
      leaf_setPte hg.tree hd hk (PA2PTE pa ||| perm ||| PTE_V) hva
    -- no user page of the process is `k`
    have hbelow : ∀ va, UserPage va → va.toNat < npages sz * PGSIZE →
        leaf (m''.setPte d (PX 0 k) (PA2PTE pa ||| perm ||| PTE_V)) root va = leaf m'' root va :=
      fun va hva hlt => by
        rw [hleaf va hva, if_neg]
        rintro rfl
        have := hs.npages_le
        omega
    refine ⟨_, .inl ⟨hmap, ?_⟩⟩
    refine ⟨hs.nodup, hs.addr, hg.tree.of_node hnode, hs''.dir.setPte_leaf hg.tree hd _ _,
      fun i j l hi => ?_, hs.sz_le, ?_, fun va hva hv => ?_, ?_, fun pg hpg => ?_, fun x hx => ?_⟩
    · rw [slot_setPte_high hg.tree hd hk.1 _ hi]
      exact hs''.high i j l hi
    · intro k' hk'
      rcases List.mem_cons.1 hk' with rfl | hk'
      · exact ⟨hk, hkt⟩
      · exact hs.kernel k' hk'
    · rw [hleaf va hva] at hv ⊢
      split_ifs at hv ⊢ with he
      · -- the kernel page: its flags are `perm | PTE_V`
        subst he
        obtain ⟨hp', -⟩ := toNat_or_PTE_V hp
        refine ⟨?_, .inr List.mem_cons_self⟩
        rw [show PA2PTE pa ||| perm ||| PTE_V = PA2PTE pa ||| (perm ||| PTE_V) from
          UInt64.or_assoc _ _ _, PA2PTE_or_flags _ hp']
        exact hpv
      · exact (hs''.leaves va hva hv).imp_right (Or.imp_right (List.mem_cons_of_mem k))
    · have hl : leafPages (m''.setPte d (PX 0 k) (PA2PTE pa ||| perm ||| PTE_V)) root (npages sz) =
          leafPages m'' root (npages sz) :=
        leafPages_congr hs.npages_le_user fun va hva hlt => by
          rw [hbelow va hva hlt]
          exact ⟨Iff.rfl, fun _ => rfl⟩
      rw [ownedPages, tablePages_congr hnode, hl, setPte_phys]
      exact hs''.account
    · -- the store is to a page of the table
      have hne : pg ≠ d := by
        rintro rfl
        exact hs''.not_table hpg ⟨_, hd⟩
      rw [setPte_ptes, if_neg hne]
      exact hs''.ptes pg hpg
    · rw [setPte_phys]
      exact hs''.mem x hx
  · exact ⟨_, .inr ⟨hmap, hs.grows hg⟩⟩

/-- `uvmunmap(pagetable, va, 1, 0)` of a user page whose leaf is not a bare `PTE_V`: it clears the
leaf if it is valid, frees nothing, and changes no other leaf. -/
theorem uvmunmapLoop_one {va : UInt64} (ht : Tree m root) (hva : UserPage va)
    (hl : leaf m root va &&& PTE_V ≠ 0 → leaf m root va &&& 0x3FF ≠ PTE_V) :
    ∃ m', uvmunmapLoop root false 1 m va = some m' ∧ m'.phys = m.phys ∧
      node m' root = node m root ∧ leaf m' root va &&& PTE_V = 0 ∧
      ∀ va', UserPage va' → va' ≠ va → leaf m' root va' = leaf m root va' := by
  cases hd : node m root [PX 2 va, PX 1 va] with
  | none =>
    -- no level-0 page: nothing mapped
    refine ⟨m, ?_, rfl, rfl, by rw [leaf_of_node_none hd]; rfl, fun _ _ _ => rfl⟩
    simp [uvmunmapLoop, walk_false hva.1, hd]
  | some d =>
    by_cases hv : leaf m root va &&& PTE_V = 0
    · refine ⟨m, ?_, rfl, rfl, hv, fun _ _ _ => rfl⟩
      rw [leaf_of_node_some hd] at hv
      simp [uvmunmapLoop, walk_false hva.1, hd, hv]
    · have hf := hl hv
      rw [leaf_of_node_some hd] at hv hf
      refine ⟨m.setPte d (PX 0 va) 0, ?_, rfl, node_setPte_leaf ht hd _ _, ?_,
        fun va' hva' hne => ?_⟩
      · simp [uvmunmapLoop, walk_false hva.1, hd, hv, hf]
      · rw [leaf_setPte ht hd hva 0 hva, if_pos rfl]
        rfl
      · rw [leaf_setPte ht hd hva 0 hva', if_neg hne]

/-- **`uvmunmap(pagetable, k, 1, 0)` of a kernel page**: the leaf is cleared and no page is freed;
the table keeps `Space` without `k`. -/
theorem Space.unmapKernel {k : UInt64} (hs : Space m₀ m root sz (k :: K)) :
    ∃ m', uvmunmap m root k 1 false = some m' ∧ Space m₀ m' root sz K := by
  have hk := (hs.kernel k List.mem_cons_self).1
  obtain ⟨m', hu, hph, hnode, hclr, hother⟩ :=
    uvmunmapLoop_one hs.tree hk fun hv => (hs.leaves k hk hv).1
  refine ⟨m', by rw [uvmunmap, if_neg (not_not.2 (mod_PGSIZE_eq_zero hk.2))]; exact hu, ?_⟩
  refine ⟨hs.nodup, hs.addr, hs.tree.of_node hnode, hs.dir.uvmunmapLoop hs.tree hu,
    fun i j l hi => by rw [uvmunmapLoop_slot_high false 1 hs.tree hu hi]; exact hs.high i j l hi,
    hs.sz_le, fun k' hk' => hs.kernel k' (List.mem_cons_of_mem k hk'), fun va hva hv => ?_, ?_,
    fun pg hpg => ?_, fun x hx => ?_⟩
  · -- a valid leaf now is not `k`'s, and was there before
    have hne : va ≠ k := by
      rintro rfl
      exact hv hclr
    rw [hother va hva hne] at hv ⊢
    obtain ⟨hf, hw⟩ := hs.leaves va hva hv
    refine ⟨hf, hw.imp_right fun h => ?_⟩
    rcases List.mem_cons.1 h with rfl | h
    · exact absurd rfl hne
    · exact h
  · have hl : leafPages m' root (npages sz) = leafPages m root (npages sz) :=
      leafPages_congr hs.npages_le_user fun va hva hlt => by
        rw [hother va hva (hs.ne_of_kernel List.mem_cons_self hlt)]
        exact ⟨Iff.rfl, fun _ => rfl⟩
    rw [ownedPages, tablePages_congr hnode, hl, hph]
    exact hs.account
  · rw [(uvmunmapLoop_ptes false 1 hs.tree hu).2 pg fun i j h => hs.not_table hpg ⟨_, h⟩]
    exact hs.ptes pg hpg
  · rw [hph]
    exact hs.mem x hx

end Kernel

theorem userPage_TRAMPOLINE : UserPage TRAMPOLINE := ⟨by decide, by decide⟩

theorem userPage_TRAPFRAME : UserPage TRAPFRAME := ⟨by decide, by decide⟩

/-- The two kernel pages of every process, at the top of its address space. -/
theorem kernelPages : ∀ k ∈ [TRAMPOLINE, TRAPFRAME], UserPage k ∧ TRAPFRAME.toNat ≤ k.toNat := by
  intro k hk
  rcases List.mem_pair.1 hk with rfl | rfl
  · exact ⟨userPage_TRAMPOLINE, by decide⟩
  · exact ⟨userPage_TRAPFRAME, le_rfl⟩

/-! ### `uvmfree` -/

/-- **`uvmfree` of a table with no kernel page left** frees every page the table owns and touches
no other: it gives back the memory of the start. -/
theorem Space.uvmfree {m₀ m : Mem} {root : ℕ} {sz : UInt64} (hs : Space m₀ m root sz []) :
    ∃ m', uvmfree m root sz = some m' ∧ Restored m₀ m' := by
  have hsz : sz.toNat ≤ 2 ^ 38 := hs.sz_le.trans (by rw [TRAPFRAME_toNat]; omega)
  obtain ⟨m', hfree, hfl, hframe⟩ := uvmfree_spec hs.tree hs.dir hsz fun va hlt hal hv => by
    by_cases hu : va.toNat < 2 ^ 38
    · obtain ⟨hf, hw⟩ := hs.leaves va (UserPage.of_toNat hu hal) hv
      exact ⟨hw.resolve_right List.not_mem_nil, hf⟩
    · -- above `MAXVA`: a slot under the upper half of the root, where nothing is valid
      refine absurd (hs.high _ _ _ ?_) hv
      rw [PX_val (by norm_num)]
      norm_num
      omega
  -- a page that was not free at the start is neither a table page nor a user page's
  have hother : ∀ x, x ∉ m₀.phys.freelist →
      m'.ptes x = m₀.ptes x ∧ m'.phys.mem x = m₀.phys.mem x := fun x hx => by
    have hown := (hs.not_owned hx).1
    rw [ownedPages, List.mem_append, not_or] at hown
    obtain ⟨hp, hm⟩ := hframe x hown.1 hown.2
    exact ⟨hp.trans (hs.ptes x hx), hm.trans (hs.mem x hx)⟩
  refine ⟨m', hfree, ?_, fun x hx => (hother x hx).1, fun x hx => (hother x hx).2⟩
  rw [hfl]
  exact (((List.reverse_perm _).append (List.reverse_perm _)).append_right _).trans hs.account.symm


/-! ### `growproc` -/

/-- The leaves of the `l` pages from the page `n` on hold the pages `ds`, in order. -/
theorem leafPages_drop {m : Mem} {root n : ℕ} {ds : List ℕ}
    (hn : (n + ds.length) * PGSIZE ≤ 2 ^ 38)
    (h : ∀ va, UserPage va → n * PGSIZE ≤ va.toNat → va.toNat < (n + ds.length) * PGSIZE →
      leaf m root va &&& PTE_V ≠ 0 ∧
        (PTE2PA (leaf m root va)).toNat = ds.getD ((va.toNat - n * PGSIZE) / PGSIZE) 0) :
    (leafPages m root (n + ds.length)).drop n = ds.map some := by
  refine List.ext_getElem (by simp [leafPages]) fun i h₁ h₂ => ?_
  have hi : i < ds.length := by simpa using h₂
  have hva : ((n + i) * PGSIZE).toUInt64.toNat = (n + i) * PGSIZE := by
    rw [Nat.toUInt64_eq, UInt64.toNat_ofNat', Nat.mod_eq_of_lt]
    simp only [PGSIZE] at hn ⊢
    omega
  have hrange : n * PGSIZE ≤ (n + i) * PGSIZE ∧ (n + i) * PGSIZE < (n + ds.length) * PGSIZE := by
    simp only [PGSIZE]
    omega
  have hpage : UserPage ((n + i) * PGSIZE).toUInt64 :=
    UserPage.of_toNat (by rw [hva]; omega) (by rw [hva]; exact Nat.mul_mod_left _ _)
  obtain ⟨hv, hpa⟩ := h _ hpage (by rw [hva]; exact hrange.1) (by rw [hva]; exact hrange.2)
  have hidx : ((n + i) * PGSIZE - n * PGSIZE) / PGSIZE = i := by
    simp only [PGSIZE]
    omega
  simp only [List.getElem_drop, leafPages, List.getElem_map, List.getElem_range]
  rw [if_pos hv, hpa, hva, hidx, List.getD_eq_getElem _ _ hi]

section Grow

variable {m₀ m m' : Mem} {root : ℕ} {sz : UInt64} {K : List UInt64}

/-- The pages `t` taken off a free list as `kfree` keeps it are distinct, and none of them is a
page of the table. -/
theorem FreeOK.taken {l t fl : List ℕ} (hf : FreeOK m root)
    (h : m.phys.freelist.Perm (l ++ t ++ fl)) : t.Nodup ∧ ∀ x ∈ t, ¬ TablePage m root x := by
  have hnd := h.nodup_iff.1 hf.nodup
  refine ⟨(List.nodup_append.1 (List.nodup_append.1 hnd).1).2.1,
    fun x hx => hf.not_table x (h.mem_iff.2 ?_)⟩
  simp [hx]

/-- A `uvmalloc` that failed and cleaned up keeps `Space` at the old size: the table pages it
entered stay in the table, every other page it took is free again. -/
theorem Space.allocFailed (hs : Space m₀ m root sz K) {t : List ℕ} (hf : AllocFailed m m' root t) :
    Space m₀ m' root sz K := by
  obtain ⟨hnd, hdisj⟩ := hs.freeOK.taken (l := []) (by simpa using hf.free)
  -- a valid leaf is one that was there before
  have hsame : ∀ va, UserPage va → leaf m' root va &&& PTE_V ≠ 0 →
      leaf m' root va = leaf m root va := fun va hva hv =>
    (hf.leaves va hva).resolve_right fun h => hv (by rw [h.1]; rfl)
  refine ⟨hs.nodup, hs.addr, hf.tree, hf.dir hs.dir,
    fun i j k hi => by rw [hf.high i j k hi]; exact hs.high i j k hi, hs.sz_le, hs.kernel,
    fun va hva hv => ?_, ?_, fun pg hpg => ?_, fun x hx => ?_⟩
  · have he := hsame va hva hv
    rw [he] at hv ⊢
    exact hs.leaves va hva hv
  · have hl : leafPages m' root (npages sz) = leafPages m root (npages sz) :=
      leafPages_congr hs.npages_le_user fun va hva _ => by
        rcases hf.leaves va hva with h | ⟨h0, hv⟩
        · rw [h]
          exact ⟨Iff.rfl, fun _ => rfl⟩
        · rw [h0]
          exact ⟨⟨fun h => absurd (rfl : (0 : UInt64) &&& PTE_V = 0) h, fun h => absurd hv h⟩,
            fun h => absurd hv h⟩
    exact perm_move hs.account (tablePages_perm hs.tree hf.tree hf.table hnd hdisj) (d := [])
      (by rw [hl, List.append_nil]) (by simpa using hf.free)
  · rw [hf.ptes pg (hs.not_table hpg) (hs.not_owned hpg).2]
    exact hs.ptes pg hpg
  · rw [hf.mem x (hs.not_owned hx).2]
    exact hs.mem x hx

/-- A `uvmalloc` from `PGROUNDUP(sz)` that mapped the pages `ds` up to `newsz` keeps `Space` at
the new size: the new pages are the pages of the new leaves. -/
theorem Space.alloc (hs : Space m₀ m root sz K) {newsz : UInt64} {ds t : List ℕ}
    (hst : AllocState m m' root (PGROUNDUP sz) (PTE_R ||| PTE_U ||| PTE_W) ds t)
    (h1 : newsz.toNat ≤ (PGROUNDUP sz).toNat + ds.length * PGSIZE)
    (h2 : (PGROUNDUP sz).toNat + ds.length * PGSIZE < newsz.toNat + PGSIZE)
    (hle : newsz.toNat ≤ TRAPFRAME.toNat) : Space m₀ m' root newsz K := by
  have hf := hs.freeOK
  have hN := npages_mul sz
  -- the new size rounds up to the end of the last page mapped
  have hup : (PGROUNDUP newsz).toNat = (PGROUNDUP sz).toNat + ds.length * PGSIZE := by
    rw [TRAPFRAME_toNat] at hle
    rw [PGROUNDUP_toNat (by omega), ← hN]
    rw [← hN] at h1 h2
    simp only [PGSIZE] at h1 h2 ⊢
    omega
  have hnp : npages newsz = npages sz + ds.length := by
    rw [npages, hup, ← hN, ← Nat.add_mul, Nat.mul_div_cancel _ (by decide)]
  have hdata : ∀ va, UserPage va → (PGROUNDUP sz).toNat ≤ va.toNat →
      va.toNat < (PGROUNDUP sz).toNat + ds.length * PGSIZE →
      leaf m' root va &&& PTE_V ≠ 0 ∧ leaf m' root va &&& 0x3FF ≠ PTE_V ∧
        (PTE2PA (leaf m' root va)).toNat = ds.getD ((va.toNat - (PGROUNDUP sz).toNat) / PGSIZE) 0 :=
    fun va hva h1 h2 => by
      have hi : (va.toNat - (PGROUNDUP sz).toNat) / PGSIZE < ds.length := by
        simp only [PGSIZE] at h2 ⊢
        omega
      rw [hst.data va hva h1 h2]
      exact dataLeaf (hst.pageAddr hf hi) (by decide)
  obtain ⟨hnd, hdisj⟩ := hf.taken hst.free
  refine ⟨hs.nodup, hs.addr, hst.tree, hst.dir hs.dir,
    fun i j k hi => by rw [hst.high i j k hi]; exact hs.high i j k hi, hle, hs.kernel,
    fun va hva hv => ?_, ?_, fun pg hpg => ?_, fun x hx => ?_⟩
  · by_cases hin : (PGROUNDUP sz).toNat ≤ va.toNat ∧
        va.toNat < (PGROUNDUP sz).toNat + ds.length * PGSIZE
    · -- a page this `uvmalloc` mapped
      exact ⟨(hdata va hva hin.1 hin.2).2.1, .inl (hup ▸ hin.2)⟩
    · rw [hst.other va hva (by omega)] at hv ⊢
      exact (hs.leaves va hva hv).imp_right (Or.imp_left fun h => by omega)
  · -- the leaves below `sz` as before, then the pages `ds`
    have hbelow : leafPages m' root (npages sz) = leafPages m root (npages sz) :=
      leafPages_congr hs.npages_le_user fun va hva hlt => by
        rw [hst.other va hva (.inl (hN ▸ hlt))]
        exact ⟨Iff.rfl, fun _ => rfl⟩
    have hnew : (leafPages m' root (npages sz + ds.length)).drop (npages sz) = ds.map some :=
      leafPages_drop (by
          rw [Nat.add_mul, hN, ← hup]
          exact (PGROUNDUP_le_TRAPFRAME hle).trans (by rw [TRAPFRAME_toNat]; omega))
        fun va hva h1 h2 => by
          rw [Nat.add_mul, hN] at h2
          rw [hN] at h1 ⊢
          exact ⟨(hdata va hva h1 h2).1, (hdata va hva h1 h2).2.2⟩
    have hD : (leafPages m' root (npages newsz)).reduceOption =
        (leafPages m root (npages sz)).reduceOption ++ ds := by
      rw [hnp, leafPages_eq_append (Nat.le_add_right _ _), hnew, hbelow, List.reduceOption_append]
      simp [List.reduceOption]
    exact perm_move hs.account (tablePages_perm hs.tree hst.tree hst.table hnd hdisj)
      (List.Perm.of_eq hD) hst.free
  · rw [hst.ptes pg (hs.not_table hpg) (hs.not_owned hpg).2]
    exact hs.ptes pg hpg
  · rw [hst.mem x (hs.not_owned hx).2]
    exact hs.mem x hx

/-- **`uvmdealloc(pagetable, sz, newsz)`** keeps `Space`, at the size it returns: the leaves of the
pages from `PGROUNDUP(newsz)` to `PGROUNDUP(sz)` are cleared and their pages freed. -/
theorem Space.dealloc (hs : Space m₀ m root sz K) (newsz : UInt64) :
    ∃ m' sz', uvmdealloc m root sz newsz = some (m', sz') ∧ Space m₀ m' root sz' K ∧
      sz'.toNat ≤ sz.toNat := by
  by_cases hge : newsz ≥ sz
  · exact ⟨m, sz, by simp [Sv39.uvmdealloc, hge], hs, le_rfl⟩
  have hlt : newsz.toNat < sz.toNat := by
    rw [ge_iff_le, UInt64.le_iff_toNat_le] at hge
    omega
  have hle : newsz.toNat ≤ TRAPFRAME.toNat := hlt.le.trans hs.sz_le
  have hN := npages_mul sz
  have hN' := npages_mul newsz
  by_cases hpg : PGROUNDUP newsz < PGROUNDUP sz
  · -- `uvmunmap` of the pages from `PGROUNDUP(newsz)` up to `PGROUNDUP(sz)`, freeing them
    have hpg' := UInt64.lt_iff_toNat_lt.1 hpg
    have hNN : npages newsz ≤ npages sz := by
      rw [← hN, ← hN'] at hpg'
      simp only [PGSIZE] at hpg'
      omega
    set ps := (leafPages m root (npages sz)).drop (npages newsz) with hps
    have hlen : ps.length = npages sz - npages newsz := by simp [hps, leafPages]
    have hcount : (PGROUNDUP sz - PGROUNDUP newsz).toNat / PGSIZE = ps.length := by
      rw [UInt64.toNat_sub_of_le _ _ (UInt64.le_iff_toNat_le.2 hpg'.le), hlen, ← hN, ← hN', ← Nat.sub_mul,
        Nat.mul_div_cancel _ (by decide)]
    have hend : (PGROUNDUP newsz).toNat + ps.length * PGSIZE = npages sz * PGSIZE := by
      rw [hlen, ← hN', ← Nat.add_mul, Nat.add_sub_cancel' hNN]
    obtain ⟨m', hu, hnode, hfl, hmem, hleaf⟩ := @uvmunmapLoop_tree m root (PGROUNDUP newsz) ps hs.tree
      (PGROUNDUP_aligned newsz) (by rw [hend]; exact hs.npages_le_user) fun va hva h1 h2 => by
        rw [← hN'] at h1 ⊢
        rw [hend] at h2
        rw [hps, leafPages_drop_getD hva.2 h1 h2]
        exact hs.pteMaps hva
    refine ⟨m', newsz, ?_, ⟨hs.nodup, hs.addr, hs.tree.of_node hnode, hs.dir.uvmunmapLoop hs.tree hu,
      fun i j k hi => by rw [uvmunmapLoop_slot_high true _ hs.tree hu hi]; exact hs.high i j k hi,
      hle, hs.kernel, fun va hva hv => ?_, ?_, fun pg hpg => ?_, fun x hx => ?_⟩, hlt.le⟩
    · simp only [Sv39.uvmdealloc, if_neg hge, if_pos hpg, uvmunmap,
        mod_PGSIZE_eq_zero (PGROUNDUP_aligned newsz), ne_eq, not_true_eq_false, if_false, hcount, hu,
        Option.map_some]
    · -- a valid leaf now was not cleared, so it is below `PGROUNDUP(newsz)` or a kernel page
      rw [hleaf va hva] at hv ⊢
      split_ifs at hv ⊢ with hin
      · exact absurd rfl hv
      · obtain ⟨hf, hw⟩ := hs.leaves va hva hv
        refine ⟨hf, hw.imp_left fun h => ?_⟩
        by_contra hge'
        refine hin ⟨Nat.le_of_not_lt hge', by rw [hend, hN]; exact h, ?_⟩
        rw [← hN', hps, leafPages_drop_getD hva.2 (by rw [hN']; omega) (by rw [hN]; exact h),
          if_pos hv]
        rfl
    · have hbelow : leafPages m' root (npages newsz) = leafPages m root (npages newsz) :=
        leafPages_congr ((Nat.mul_le_mul_right _ hNN).trans hs.npages_le_user) fun va hva hlt' => by
          rw [hleaf va hva, if_neg fun h => by rw [hN'] at hlt'; omega]
          exact ⟨Iff.rfl, fun _ => rfl⟩
      rw [ownedPages, tablePages_congr hnode, hbelow]
      refine perm_free hs.account (List.Perm.of_eq ?_) (p := ps.reduceOption) ?_
      · rw [leafPages_eq_append hNN, List.reduceOption_append]
      · rw [hfl]
        exact (List.reverse_perm _).append_right _
    · rw [(uvmunmapLoop_ptes true _ hs.tree hu).2 pg fun i j h => hs.not_table hpg ⟨_, h⟩]
      exact hs.ptes pg hpg
    · -- the pages it freed were leaves of the table
      have hfreed : x ∉ ps.reduceOption := fun h => (hs.not_owned hx).1 (List.mem_append_right _ (by
        rw [leafPages_eq_append hNN, List.reduceOption_append]
        exact List.mem_append_right _ h))
      rw [hmem x hfreed]
      exact hs.mem x hx
  · -- no page to unmap: `PGROUNDUP(newsz)` is `PGROUNDUP(sz)`
    refine ⟨m, newsz, by simp [Sv39.uvmdealloc, hge, hpg], hs.of_PGROUNDUP ?_ hle, hlt.le⟩
    have hT := TRAPFRAME_toNat
    have hs' := hs.sz_le
    rw [UInt64.lt_iff_toNat_lt] at hpg
    apply UInt64.toNat_inj.1
    rw [PGROUNDUP_toNat (by omega), PGROUNDUP_toNat (by omega)] at hpg ⊢
    omega

/-- **`growproc(n)`**, with room for `n` below `TRAPFRAME`, never stops the kernel and keeps
`Space`, at the new `p->sz`: it grows the table with `uvmalloc`, or keeps it as it was when
`uvmalloc` fails, or shrinks it with `uvmdealloc`. -/
theorem Space.growproc (hs : Space m₀ m root sz K) (n : ℤ)
    (hn : sz.toNat + n.toNat ≤ TRAPFRAME.toNat) :
    ∃ m' sz' ret, growproc m root sz n = some (m', sz', ret) ∧ Space m₀ m' root sz' K ∧
      sz'.toNat ≤ sz.toNat + n.toNat := by
  rcases lt_trichotomy n 0 with hneg | rfl | hpos
  · -- shrinking
    obtain ⟨m', sz', hd, hs', hle⟩ := hs.dealloc (sz + UInt64.ofInt n)
    refine ⟨m', sz', 0, ?_, hs', by omega⟩
    simp [Sv39.growproc, hneg, not_lt.2 hneg.le, hd]
  · exact ⟨m, sz, 0, by simp [Sv39.growproc], hs, by omega⟩
  · -- `uvmalloc` of the pages up to `sz + n`
    have hT := TRAPFRAME_toNat
    have hnew : (sz + UInt64.ofInt n).toNat = sz.toNat + n.toNat := by
      have hcast : n = (n.toNat : ℤ) := (Int.toNat_of_nonneg hpos.le).symm
      rw [UInt64.toNat_add, hcast, toNat_ofInt_natCast, Int.toNat_natCast]
      omega
    obtain ⟨r, hr, hres⟩ : ∃ r, uvmalloc m root sz (sz + UInt64.ofInt n) PTE_W = some r ∧
        Allocated m root (PGROUNDUP sz) (sz + UInt64.ofInt n) (PTE_R ||| PTE_U ||| PTE_W) r :=
      uvmalloc_spec hs.freeOK hs.tree (by decide) (UInt64.le_iff_toNat_le.2 (by omega))
        (by omega) fun va hva h1 h2 => hs.leaf_invalid hva h1 fun hk => by
          have := (hs.kernel va hk).2
          omega
    cases hres with
    | ok hst h1 h2 =>
      have hne : sz + UInt64.ofInt n ≠ 0 := fun h => by
        rw [h, UInt64.toNat_zero] at hnew
        omega
      refine ⟨_, _, 0, ?_, hs.alloc hst h1 h2 (by omega), by omega⟩
      simp [Sv39.growproc, hpos, hr, hne]
    | failed hf =>
      refine ⟨_, sz, -1, ?_, hs.allocFailed hf, by omega⟩
      simp [Sv39.growproc, hpos, hr]

end Grow

/-! ### `proc_pagetable` and `proc_freepagetable` -/

section Proc

variable {m₀ m : Mem} {root : ℕ} {sz : UInt64}

/-- **`proc_freepagetable`** of a process's table frees every page the table owns, and gives back
the memory of the start. -/
theorem Space.procFreepagetable (hs : Space m₀ m root sz [TRAMPOLINE, TRAPFRAME]) :
    ∃ m', procFreepagetable m root sz = some m' ∧ Restored m₀ m' := by
  obtain ⟨m₁, h₁, hs₁⟩ := hs.unmapKernel
  obtain ⟨m₂, h₂, hs₂⟩ := hs₁.unmapKernel
  obtain ⟨m₃, h₃, hr⟩ := hs₂.uvmfree
  exact ⟨m₃, by simp only [Sv39.procFreepagetable, h₁, h₂, Option.bind_some, h₃], hr⟩

/-- **`proc_pagetable`** from a free list of distinct pages: a new table with the trampoline and
the trapframe mapped, a `Space` of size `0`; or, out of memory, `0`, with the memory given back. -/
theorem procPagetable_spec (hnd : m₀.phys.freelist.Nodup)
    (haddr : ∀ p ∈ m₀.phys.freelist, PageAddr p) (trampoline trapframe : UInt64) :
    ∃ m root, procPagetable m₀ trampoline trapframe = some (m, root) ∧
      (root = 0 ∧ Restored m₀ m ∨
        root ≠ 0 ∧ Space m₀ m root 0 [TRAMPOLINE, TRAPFRAME]) := by
  cases h : m₀.phys.freelist with
  | nil =>
    -- `uvmcreate` fails
    exact ⟨m₀, 0, by simp [procPagetable, uvmcreate_nil h], .inl ⟨rfl, Restored.refl m₀⟩⟩
  | cons r rest =>
    have hr : r ≠ 0 := (haddr r (by rw [h]; exact List.mem_cons_self)).1.ne'
    obtain ⟨m₁, huc⟩ : ∃ m₁, uvmcreate m₀ = (m₁, r) := ⟨_, uvmcreate_cons h hr⟩
    have hs₁ : Space m₀ m₁ r 0 [] := by
      have := Space.create hnd haddr h
      rwa [huc] at this
    obtain ⟨m₂, ⟨hm₂, hs₂⟩ | ⟨hm₂, hs₂⟩⟩ := hs₁.mapKernel trampoline (PTE_R ||| PTE_X)
      userPage_TRAMPOLINE (by decide)
      (hs₁.leaf_invalid userPage_TRAMPOLINE (by decide) List.not_mem_nil) (by decide) (by decide)
    · -- the trampoline is mapped: the trapframe next
      obtain ⟨m₃, ⟨hm₃, hs₃⟩ | ⟨hm₃, hs₃⟩⟩ := hs₂.mapKernel trapframe (PTE_R ||| PTE_W)
        userPage_TRAPFRAME le_rfl
        (hs₂.leaf_invalid userPage_TRAPFRAME (by decide) (by decide)) (by decide) (by decide)
      · refine ⟨m₃, r, ?_, .inr ⟨hr, hs₃.mono (by decide) kernelPages⟩⟩
        simp [procPagetable, huc, hr, hm₂, hm₃]
      · -- out of memory: `uvmunmap` of the trampoline, then `uvmfree`
        obtain ⟨m₄, hm₄, hs₄⟩ := hs₃.unmapKernel
        obtain ⟨m₅, hm₅, hback⟩ := hs₄.uvmfree
        refine ⟨m₅, 0, ?_, .inl ⟨rfl, hback⟩⟩
        simp [procPagetable, huc, hr, hm₂, hm₃, hm₄, hm₅]
    · -- out of memory: `uvmfree`
      obtain ⟨m₃, hm₃, hback⟩ := hs₂.uvmfree
      refine ⟨m₃, 0, ?_, .inl ⟨rfl, hback⟩⟩
      simp [procPagetable, huc, hr, hm₂, hm₃]

/-- **A run of `growproc` calls** with room for them below `TRAPFRAME` never stops the kernel, and
keeps `Space` at every size it reaches. -/
theorem growRun_space {K : List UInt64} (s₀ : AddrSpace) (ns : List ℤ) :
    ∀ s : AddrSpace, Space m₀ s.mem s.pagetable s.sz K →
      s.sz.toNat + (ns.map Int.toNat).sum ≤ TRAPFRAME.toNat →
      ∃ s', (growMachine s₀).run (some s) ns = some s' ∧ s'.pagetable = s.pagetable ∧
        Space m₀ s'.mem s'.pagetable s'.sz K := by
  -- induction on the calls; the room left shrinks by each call's `n`
  induction ns with
  | nil => exact fun s hs _ => ⟨s, rfl, rfl, hs⟩
  | cons n ns ih =>
    intro s hs hsum
    simp only [List.map_cons, List.sum_cons] at hsum
    obtain ⟨m', sz', r, hg, hs', hle⟩ := hs.growproc n (by omega)
    have hstep : growStep s n = some (⟨m', s.pagetable, sz'⟩, r) := by simp [growStep, hg]
    obtain ⟨s', hrun, hpt, hs''⟩ := ih ⟨m', s.pagetable, sz'⟩ hs' (by dsimp only; omega)
    refine ⟨s', ?_, hpt, hs''⟩
    simp only [Machine.run, growMachine, Machine.ofPartial_step, Machine.partialStep_some hstep]
    exact hrun

end Proc

/-! ### `allocproc` and `freeproc` -/

/-- The memory of a live process from the memory `m₀` before its `allocproc`: its trapframe page was
the page on top of the free list, and its page table is a `Space` from the memory `allocproc` left
after taking it. -/
structure Live (m₀ m : Mem) (p : ProcMem) : Prop where
  nodup : m₀.phys.freelist.Nodup
  addr : ∀ x ∈ m₀.phys.freelist, PageAddr x
  trapframe : m₀.phys.freelist.head? = some p.trapframe
  pagetable : p.pagetable ≠ 0
  space : Space { m₀ with phys := (kalloc m₀.phys).1 } m p.pagetable p.sz [TRAMPOLINE, TRAPFRAME]

section Process

variable {m₀ m : Mem} {p : ProcMem}

/-- **`allocproc`** from a free list of distinct pages: a live process of size `0`; or, out of
memory, no process, with the memory given back. -/
theorem allocproc_spec (hnd : m₀.phys.freelist.Nodup) (haddr : ∀ x ∈ m₀.phys.freelist, PageAddr x)
    (trampoline : UInt64) :
    ∃ m o, allocproc m₀ trampoline = some (m, o) ∧
      (o = none ∧ Restored m₀ m ∨ ∃ p, o = some p ∧ p.sz = 0 ∧ Live m₀ m p) := by
  cases hfl : m₀.phys.freelist with
  | nil =>
    -- no trapframe page: `freeproc` of the empty slot does nothing
    refine ⟨m₀, none, ?_, .inl ⟨rfl, Restored.refl m₀⟩⟩
    simp [allocproc, kalloc_nil hfl, freeproc]
  | cons x rest =>
    have hx : PageAddr x := haddr x (by rw [hfl]; exact List.mem_cons_self)
    have hnd₁ : (kalloc m₀.phys).1.freelist.Nodup := by
      rw [kalloc_cons hfl]
      exact (List.nodup_cons.1 (hfl ▸ hnd)).2
    have haddr₁ : ∀ y ∈ (kalloc m₀.phys).1.freelist, PageAddr y := fun y hy => by
      rw [kalloc_cons hfl] at hy
      exact haddr y (by rw [hfl]; exact List.mem_cons_of_mem x hy)
    obtain ⟨m, root, hpp, ⟨rfl, hr⟩ | ⟨hroot, hs⟩⟩ :=
      @procPagetable_spec { m₀ with phys := (kalloc m₀.phys).1 } hnd₁ haddr₁ trampoline x.toUInt64
    · -- out of memory in `proc_pagetable`: `freeproc` frees the trapframe page
      refine ⟨{ m with phys := kfree m.phys x }, none, ?_, .inl ⟨rfl, (hr.kfree x).kalloc_kfree hfl⟩⟩
      rw [kalloc_cons hfl] at hpp
      simp [allocproc, kalloc_cons hfl, hx.1.ne', hpp, freeproc]
    · refine ⟨m, some ⟨x, root, 0⟩, ?_, .inr ⟨_, rfl, rfl, ⟨hnd, haddr, by rw [hfl]; rfl, hroot, hs⟩⟩⟩
      rw [kalloc_cons hfl] at hpp
      simp [allocproc, kalloc_cons hfl, hx.1.ne', hpp, hroot]

/-- **`freeproc`** of a live process frees its trapframe page and its page table, and gives back
the memory from before its `allocproc`. -/
theorem Live.freeproc (hl : Live m₀ m p) : ∃ m', freeproc m p = some m' ∧ Restored m₀ m' := by
  obtain ⟨rest, hfl⟩ := List.head?_eq_some_iff.1 hl.trapframe
  have hx : PageAddr p.trapframe := hl.addr _ (by rw [hfl]; exact List.mem_cons_self)
  have hfree : p.trapframe ∉ ({ m₀ with phys := (kalloc m₀.phys).1 } : Mem).phys.freelist := by
    rw [kalloc_cons hfl]
    exact (List.nodup_cons.1 (hfl ▸ hl.nodup)).1
  -- the trapframe page first, then the table, from the memory with that page free again
  obtain ⟨m', hm', hr⟩ := (hl.space.kfree hx hfree).procFreepagetable
  refine ⟨m', ?_, hr.kalloc_kfree hfl⟩
  simp [Sv39.freeproc, hx.1.ne', hl.pagetable, hm']

end Process

/-- **No page is lost over a process's life.**  From a free list of distinct pages, `allocproc`
either runs out of memory and gives back the memory, or creates a process; then any run of
`growproc` calls that keeps its size below `TRAPFRAME` never stops the kernel, and `freeproc` at the
end gives back the memory from before `allocproc`: every page it took is free again, and no other
page was written. -/
theorem process_no_leak {m₀ : Mem} (hnd : m₀.phys.freelist.Nodup)
    (haddr : ∀ x ∈ m₀.phys.freelist, PageAddr x) (trampoline : UInt64) (ns : List ℤ)
    (hns : (ns.map Int.toNat).sum ≤ TRAPFRAME.toNat) :
    ∃ m o, allocproc m₀ trampoline = some (m, o) ∧ (o = none → Restored m₀ m) ∧
      ∀ p, o = some p → ∃ s,
        (growMachine ⟨m, p.pagetable, p.sz⟩).run (growMachine ⟨m, p.pagetable, p.sz⟩).init ns =
          some s ∧
        ∃ m', freeproc s.mem ⟨p.trapframe, s.pagetable, s.sz⟩ = some m' ∧ Restored m₀ m' := by
  obtain ⟨m, o, ha, ⟨rfl, hr⟩ | ⟨p, rfl, hsz, hl⟩⟩ := allocproc_spec hnd haddr trampoline
  · exact ⟨m, none, ha, fun _ => hr, fun p h => nomatch h⟩
  · refine ⟨m, some p, ha, fun h => (nomatch h), fun p' hp => ?_⟩
    cases hp
    -- the process grows and shrinks from size `0`, keeping `Space`
    obtain ⟨s, hrun, hpt, hs⟩ := growRun_space ⟨m, p.pagetable, p.sz⟩ ns ⟨m, p.pagetable, p.sz⟩
      hl.space (by rw [hsz]; simpa using hns)
    have hl' : Live m₀ s.mem ⟨p.trapframe, s.pagetable, s.sz⟩ :=
      ⟨hl.nodup, hl.addr, hl.trapframe, by rw [hpt]; exact hl.pagetable, hs⟩
    exact ⟨s, hrun, hl'.freeproc⟩

/-- Four free pages, a process that grows by one page and by one more. -/
theorem process_no_leak_four_pages :
    let m₀ : Mem := ⟨fun _ _ => 0, ⟨[4096, 8192, 12288, 16384], fun _ => []⟩⟩
    ∃ m o, allocproc m₀ 0 = some (m, o) ∧ (o = none → Restored m₀ m) ∧
      ∀ p, o = some p → ∃ s,
        (growMachine ⟨m, p.pagetable, p.sz⟩).run (growMachine ⟨m, p.pagetable, p.sz⟩).init
          [4096, 4096] = some s ∧
        ∃ m', freeproc s.mem ⟨p.trapframe, s.pagetable, s.sz⟩ = some m' ∧ Restored m₀ m' := by
  intro m₀
  refine process_no_leak (by decide) (fun p hp => ?_) 0 [4096, 4096] (by decide)
  simp only [m₀, List.mem_cons, List.not_mem_nil, or_false] at hp
  rcases hp with rfl | rfl | rfl | rfl <;> exact ⟨by decide, by decide, by decide⟩


end Sv39

end Kernel

end Xv6Net
