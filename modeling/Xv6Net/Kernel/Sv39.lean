import Xv6Net.Kernel.Vm

/-!
# The three-level page table (`vm.c`)

`Kernel.Vm` flattens a user page table to its leaf entries, and its `walk` never allocates.  Here
the page-table pages are kept: a page table is the physical address of its root page, every
page-table page holds 512 PTEs, and `walk(pagetable, va, 1)` allocates the missing directory pages
with `kalloc`, returning `0` when `kalloc` does.  So `mappages` can return `-1`, and `uvmalloc`
and `uvmcopy` can take their error paths at any page.

The entries of the page-table pages are kept in `Mem.ptes`, apart from the bytes of `Phys.mem`:
the kernel reads a page-table page only through `walk`, and clears a new one with `memset`.

* `walk`, `mappages`, `uvmunmap`, `uvmdealloc`, `uvmalloc`, `uvmcopy` : the functions of `vm.c`.
* `node`, `slot` : the page-table pages reached from the root by valid entries, and the leaf PTE
  in each slot of the level-0 pages, `0` where a directory is missing; `leaf` is the slot of an
  address, what `walk(.., 0)` reads.
* `Tree` : distinct paths from the root reach distinct pages.
* `walk_alloc` : an allocating `walk` keeps the tree and every slot, and takes the pages it
  enters from the head of the free list (`Grows`); `mappages_page` stores one leaf after it.
* `slot_setPte_leaf`, `leaf_setPte` : a store to the leaf of one address changes its slot only.
* `Refines`, `uvmunmapLoop_refines`, `uvmdealloc_refines` : the tree stands for the flattened
  table of `Kernel.Vm`, and `uvmunmap` and `uvmdealloc` on it do what they do there.
* `AllocState`, `uvmallocLoop_spec`, `uvmalloc_spec` : the loop of `uvmalloc` round by round;
  it maps every page to a fresh zeroed page, or takes its error path (`AllocState.dealloc`),
  where every page it took that is not a new page-table page is back on the free list.

`uvmcopy` is modelled here with its error path; `Kernel.Uvmcopy` proves what it does.
-/

namespace Xv6Net

namespace Kernel

namespace Sv39

open Bytes

/-- Physical memory: the 512 entries of every page used as a page-table page, and the pages. -/
structure Mem where
  ptes : ℕ → Fin 512 → UInt64
  phys : Phys

/-- `*pte = v` for the entry `idx` of the page-table page `pg`. -/
def Mem.setPte (m : Mem) (pg : ℕ) (idx : Fin 512) (v : UInt64) : Mem :=
  { m with ptes := Function.update m.ptes pg (Function.update (m.ptes pg) idx v) }

theorem toNat_and_PXMASK_lt (x : UInt64) : (x &&& 0x1FF).toNat < 512 := by
  rw [UInt64.toNat_and, show (0x1FF : UInt64).toNat = 2 ^ 9 - 1 from rfl,
    Nat.and_two_pow_sub_one_eq_mod]
  exact Nat.mod_lt _ (by norm_num)

/-- `PX(level, va)`: the index of `va` in a page-table page of `level`. -/
def PX (level : ℕ) (va : UInt64) : Fin 512 :=
  ⟨((va >>> (12 + 9 * level).toUInt64) &&& 0x1FF).toNat, toNat_and_PXMASK_lt _⟩

/-- `memset(pagetable, 0, PGSIZE)` of a new page-table page `pg`, then `*pte = PA2PTE(pagetable) |
PTE_V` for the entry `idx` of `pt`; `ph` is the allocator after the `kalloc`. -/
def Mem.enter (m : Mem) (ph : Phys) (pt : ℕ) (idx : Fin 512) (pg : ℕ) : Mem :=
  (⟨Function.update m.ptes pg fun _ => 0, ph⟩ : Mem).setPte pt idx (PA2PTE pg.toUInt64 ||| PTE_V)

/-- One round of the loop of `walk`: the page-table page that entry `idx` of `pt` points to.  With
`alloc` a missing one is allocated, cleared and entered; `none` is `return 0`. -/
def walkLevel (m : Mem) (pt : ℕ) (idx : Fin 512) (alloc : Bool) : Mem × Option ℕ :=
  let pte := m.ptes pt idx
  if pte &&& PTE_V ≠ 0 then (m, some (PTE2PA pte).toNat)
  else if alloc then
    let (ph, pg) := kalloc m.phys
    if pg = 0 then ({ m with phys := ph }, none)
    else (m.enter ph pt idx pg, some pg)
  else (m, none)

/-- `walk(pagetable, va, alloc)`: the memory after the call and the page and index of the PTE,
`none` for `return 0`; the outer `none` is `panic("walk")`. -/
def walk (m : Mem) (pagetable : ℕ) (va : UInt64) (alloc : Bool) :
    Option (Mem × Option (ℕ × Fin 512)) :=
  if va ≥ MAXVA then none
  else
    let (m, d1) := walkLevel m pagetable (PX 2 va) alloc
    match d1 with
    | none => some (m, none)
    | some d1 =>
      let (m, d0) := walkLevel m d1 (PX 1 va) alloc
      some (m, d0.map fun d0 => (d0, PX 0 va))

/-- The loop of `mappages` from `a` (mapped to `pa`) to `last`, for at most `k` pages: the memory
after it and its return value, `0` or `-1`; `none` is a `panic`. -/
def mappagesLoop (pagetable : ℕ) (last perm : UInt64) :
    ℕ → Mem → UInt64 → UInt64 → Option (Mem × ℤ)
  | 0, m, _, _ => some (m, 0)
  | k + 1, m, a, pa =>
    match walk m pagetable a true with
    | none => none
    | some (m, none) => some (m, -1)
    | some (m, some (pg, idx)) =>
      -- `panic("mappages: remap")`
      if m.ptes pg idx &&& PTE_V ≠ 0 then none
      else
        let m := m.setPte pg idx (PA2PTE pa ||| perm ||| PTE_V)
        if a = last then some (m, 0)
        else mappagesLoop pagetable last perm k m (a + PGSIZE.toUInt64) (pa + PGSIZE.toUInt64)

/-- `mappages(pagetable, va, size, pa, perm)`. -/
def mappages (m : Mem) (pagetable : ℕ) (va size pa perm : UInt64) : Option (Mem × ℤ) :=
  if va % PGSIZE.toUInt64 ≠ 0 then none
  else if size % PGSIZE.toUInt64 ≠ 0 then none
  else if size = 0 then none
  else
    mappagesLoop pagetable (va + size - PGSIZE.toUInt64) perm (size / PGSIZE.toUInt64).toNat m va pa

/-- The loop of `uvmunmap(pagetable, a, k, do_free)`. -/
def uvmunmapLoop (pagetable : ℕ) (doFree : Bool) : ℕ → Mem → UInt64 → Option Mem
  | 0, m, _ => some m
  | k + 1, m, a =>
    match walk m pagetable a false with
    | none => none
    -- no level-0 page: nothing mapped
    | some (_, none) => uvmunmapLoop pagetable doFree k m (a + PGSIZE.toUInt64)
    | some (_, some (pg, idx)) =>
      let pte := m.ptes pg idx
      if pte &&& PTE_V = 0 then uvmunmapLoop pagetable doFree k m (a + PGSIZE.toUInt64)
      -- `panic("uvmunmap: not a leaf")`
      else if pte &&& 0x3FF = PTE_V then none
      else
        let phys := if doFree then kfree m.phys (PTE2PA pte).toNat else m.phys
        uvmunmapLoop pagetable doFree k ({ m with phys := phys }.setPte pg idx 0)
          (a + PGSIZE.toUInt64)

/-- `uvmunmap(pagetable, va, npages, do_free)`. -/
def uvmunmap (m : Mem) (pagetable : ℕ) (va : UInt64) (npages : ℕ) (doFree : Bool) : Option Mem :=
  if va % PGSIZE.toUInt64 ≠ 0 then none
  else uvmunmapLoop pagetable doFree npages m va

/-- `uvmdealloc(pagetable, oldsz, newsz)`: the memory after the call and the size it returns.
`npages` is an `int` in the code; below `MAXVA` the count fits. -/
def uvmdealloc (m : Mem) (pagetable : ℕ) (oldsz newsz : UInt64) : Option (Mem × UInt64) :=
  if newsz ≥ oldsz then some (m, oldsz)
  else if PGROUNDUP newsz < PGROUNDUP oldsz then
    let npages := (PGROUNDUP oldsz - PGROUNDUP newsz).toNat / PGSIZE
    (uvmunmap m pagetable (PGROUNDUP newsz) npages true).map fun m => (m, newsz)
  else some (m, newsz)

/-- The loop of `uvmalloc` from the page `a`, the size `oldsz` rounded up, for at most `k`
pages; the size it returns, `0` on failure. -/
def uvmallocLoop (pagetable : ℕ) (oldsz newsz xperm : UInt64) :
    ℕ → Mem → UInt64 → Option (Mem × UInt64)
  | 0, m, _ => some (m, newsz)
  | k + 1, m, a =>
    if a < newsz then
      let (ph, mem) := kalloc m.phys
      if mem = 0 then
        (uvmdealloc { m with phys := ph } pagetable a oldsz).map fun r => (r.1, 0)
      else
        let ph := { ph with mem := Function.update ph.mem mem (List.replicate PGSIZE 0) }
        match mappages { m with phys := ph } pagetable a PGSIZE.toUInt64 mem.toUInt64
            (PTE_R ||| PTE_U ||| xperm) with
        | none => none
        | some (m, r) =>
          if r ≠ 0 then
            (uvmdealloc { m with phys := kfree m.phys mem } pagetable a oldsz).map fun r => (r.1, 0)
          else uvmallocLoop pagetable oldsz newsz xperm k m (a + PGSIZE.toUInt64)
    else some (m, newsz)

/-- `uvmalloc(pagetable, oldsz, newsz, xperm)`. -/
def uvmalloc (m : Mem) (pagetable : ℕ) (oldsz newsz xperm : UInt64) : Option (Mem × UInt64) :=
  if newsz < oldsz then some (m, oldsz)
  else
    let oldsz := PGROUNDUP oldsz
    uvmallocLoop pagetable oldsz newsz xperm ((newsz.toNat - oldsz.toNat + PGSIZE - 1) / PGSIZE) m
      oldsz

/-- The loop of `uvmcopy(old, new, sz)` from the page `i`, for at most `k` pages: the memory
after it and the value returned, `0` or `-1`. -/
def uvmcopyLoop (old new : ℕ) (sz : UInt64) : ℕ → Mem → UInt64 → Option (Mem × ℤ)
  | 0, m, _ => some (m, 0)
  | k + 1, m, i =>
    if i < sz then
      match walk m old i false with
      | none => none
      | some (_, none) => uvmcopyLoop old new sz k m (i + PGSIZE.toUInt64)
      | some (_, some (pg, idx)) =>
        let pte := m.ptes pg idx
        if pte &&& PTE_V = 0 then uvmcopyLoop old new sz k m (i + PGSIZE.toUInt64)
        else
          let pa := PTE2PA pte
          let flags := pte &&& 0x3FF
          -- `err`: the pages mapped so far are unmapped and freed
          let err (m : Mem) := (uvmunmap m new 0 (i / PGSIZE.toUInt64).toNat true).map (·, -1)
          let (ph, mem) := kalloc m.phys
          if mem = 0 then err { m with phys := ph }
          else
            -- `memmove(mem, (char*)pa, PGSIZE)`
            let ph := { ph with mem := Function.update ph.mem mem (slice (ph.mem pa.toNat) 0 PGSIZE) }
            match mappages { m with phys := ph } new i PGSIZE.toUInt64 mem.toUInt64 flags with
            | none => none
            | some (m, r) =>
              if r ≠ 0 then err { m with phys := kfree m.phys mem }
              else uvmcopyLoop old new sz k m (i + PGSIZE.toUInt64)
    else some (m, 0)

/-- `uvmcopy(old, new, sz)`. -/
def uvmcopy (m : Mem) (old new : ℕ) (sz : UInt64) : Option (Mem × ℤ) :=
  uvmcopyLoop old new sz ((sz.toNat + PGSIZE - 1) / PGSIZE) m 0

/-! ### PTEs and indices -/

section Pte

variable {pa f : UInt64}

theorem PA2PTE_toNat (pa : UInt64) : (PA2PTE pa).toNat = 2 ^ 10 * (pa.toNat / 2 ^ 12) := by
  have := pa.toNat_lt
  rw [PA2PTE, UInt64.toNat_shiftLeft, UInt64.toNat_shiftRight,
    show (12 : UInt64).toNat = 12 from rfl, show (10 : UInt64).toNat = 10 from rfl]
  simp only [Nat.shiftLeft_eq, Nat.shiftRight_eq_div_pow, Nat.reduceMod, Nat.reducePow]
  omega

/-- A PTE that maps `pa` with flags `f` below bit 10. -/
theorem toNat_PA2PTE_or (pa : UInt64) (hf : f.toNat < 2 ^ 10) :
    (PA2PTE pa ||| f).toNat = 2 ^ 10 * (pa.toNat / 2 ^ 12) + f.toNat := by
  rw [UInt64.toNat_or, PA2PTE_toNat, Nat.two_pow_add_eq_or_of_lt hf]

theorem PTE2PA_PA2PTE_or (hpa : pa.toNat % 2 ^ 12 = 0) (hf : f.toNat < 2 ^ 10) :
    PTE2PA (PA2PTE pa ||| f) = pa := by
  have := pa.toNat_lt
  apply UInt64.toNat_inj.1
  rw [PTE2PA, UInt64.toNat_shiftLeft, UInt64.toNat_shiftRight, toNat_PA2PTE_or pa hf,
    show (12 : UInt64).toNat = 12 from rfl, show (10 : UInt64).toNat = 10 from rfl]
  simp only [Nat.shiftLeft_eq, Nat.shiftRight_eq_div_pow, Nat.reduceMod, Nat.reducePow]
  omega

theorem PA2PTE_or_flags (pa : UInt64) (hf : f.toNat < 2 ^ 10) : (PA2PTE pa ||| f) &&& 0x3FF = f := by
  apply UInt64.toNat_inj.1
  rw [UInt64.toNat_and, toNat_PA2PTE_or pa hf, show (0x3FF : UInt64).toNat = 2 ^ 10 - 1 from rfl,
    Nat.and_two_pow_sub_one_eq_mod]
  omega

/-- The valid bit is bit `0`. -/
theorem and_PTE_V_ne_zero (x : UInt64) : x &&& PTE_V ≠ 0 ↔ x.toNat % 2 = 1 := by
  have h : (x &&& PTE_V).toNat = x.toNat % 2 := by
    rw [UInt64.toNat_and, show PTE_V.toNat = 2 ^ 1 - 1 from rfl, Nat.and_two_pow_sub_one_eq_mod,
      pow_one]
  rw [ne_eq, ← UInt64.toNat_inj, h, UInt64.toNat_zero]
  omega

@[simp] theorem zero_and_PTE_V : (0 : UInt64) &&& PTE_V = 0 := rfl

theorem toNat_or_PTE_V (hf : f.toNat < 2 ^ 10) : (f ||| PTE_V).toNat < 2 ^ 10 ∧ (f ||| PTE_V).toNat % 2 = 1 := by
  rw [UInt64.toNat_or, show PTE_V.toNat = 1 from rfl]
  exact ⟨Nat.or_lt_two_pow hf (by norm_num), Nat.or_mod_two_eq_one.2 (.inr rfl)⟩

/-- The flags of a valid PTE have `PTE_V` already. -/
theorem flags_or_PTE_V {x : UInt64} (hv : x &&& PTE_V ≠ 0) : (x &&& 0x3FF) ||| PTE_V = x &&& 0x3FF := by
  rw [and_PTE_V_ne_zero] at hv
  apply UInt64.toNat_inj.1
  rw [UInt64.toNat_or, UInt64.toNat_and, show (0x3FF : UInt64).toNat = 2 ^ 10 - 1 from rfl,
    Nat.and_two_pow_sub_one_eq_mod, show PTE_V.toNat = 1 from rfl]
  apply Nat.eq_of_testBit_eq
  intro i
  rw [Nat.testBit_or]
  cases i with
  | zero => simpa [Nat.testBit_zero] using hv
  | succ i => simp [Nat.testBit_succ]

theorem PX_val {level : ℕ} (hl : level ≤ 2) (va : UInt64) :
    (PX level va).val = va.toNat / 2 ^ (12 + 9 * level) % 512 := by
  have h : (12 + 9 * level) % 2 ^ 64 % 64 = 12 + 9 * level := by omega
  simp only [PX, Nat.toUInt64_eq]
  rw [UInt64.toNat_and, show (0x1FF : UInt64).toNat = 2 ^ 9 - 1 from rfl,
    Nat.and_two_pow_sub_one_eq_mod, UInt64.toNat_shiftRight, UInt64.toNat_ofNat', h,
    Nat.shiftRight_eq_div_pow]

/-- Below `2 ^ 39`, a page is given by its three indices. -/
theorem eq_of_PX_eq {va va' : UInt64} (h : va.toNat < 2 ^ 39) (h' : va'.toNat < 2 ^ 39)
    (ha : va.toNat % 4096 = 0) (ha' : va'.toNat % 4096 = 0) (h2 : PX 2 va = PX 2 va')
    (h1 : PX 1 va = PX 1 va') (h0 : PX 0 va = PX 0 va') : va = va' := by
  have e2 := congrArg Fin.val h2
  have e1 := congrArg Fin.val h1
  have e0 := congrArg Fin.val h0
  rw [PX_val (by norm_num), PX_val (by norm_num)] at e2 e1 e0
  apply UInt64.toNat_inj.1
  norm_num at e2 e1 e0
  omega

end Pte

/-! ### The tree of page-table pages -/

/-- The page-table page that entry `idx` of `pg` points to, if the entry is valid. -/
def next (m : Mem) (pg : ℕ) (idx : Fin 512) : Option ℕ :=
  if m.ptes pg idx &&& PTE_V ≠ 0 then some (PTE2PA (m.ptes pg idx)).toNat else none

/-- The page-table page at the end of a path of indices from the root `root`. -/
def node (m : Mem) (root : ℕ) : List (Fin 512) → Option ℕ
  | [] => some root
  | [i] => next m root i
  | [i, j] => (next m root i).bind fun d => next m d j
  | _ => none

/-- The page-table pages form a tree: distinct paths from the root reach distinct pages. -/
def Tree (m : Mem) (root : ℕ) : Prop :=
  ∀ p q x, node m root p = some x → node m root q = some x → p = q

/-- A page of the page table `root`. -/
def TablePage (m : Mem) (root x : ℕ) : Prop := ∃ p, node m root p = some x

/-- The leaf PTE in slot `k` of the level-0 page of the entries `i` and `j`, `0` where a directory
is missing. -/
def slot (m : Mem) (root : ℕ) (i j k : Fin 512) : UInt64 :=
  match node m root [i, j] with
  | some d => m.ptes d k
  | none => 0

/-- The leaf PTE of `va`: what `walk(pagetable, va, 0)` points to, `0` where it returns `0`. -/
def leaf (m : Mem) (root : ℕ) (va : UInt64) : UInt64 := slot m root (PX 2 va) (PX 1 va) (PX 0 va)

/-- A valid entry with none of `PTE_R`, `PTE_W`, `PTE_X`: an entry that points to a page-table
page, as `walk` enters them and `freewalk` follows them. -/
def DirEntry (pte : UInt64) : Prop := pte &&& PTE_V ≠ 0 ∧ pte &&& (PTE_R ||| PTE_W ||| PTE_X) = 0

/-- Every valid entry of the root and of the level-1 pages is a directory entry. -/
def DirOK (m : Mem) (root : ℕ) : Prop :=
  ∀ p x, p.length ≤ 1 → node m root p = some x → ∀ i, m.ptes x i &&& PTE_V ≠ 0 →
    DirEntry (m.ptes x i)

section Walk

variable {m : Mem} {root pt d n : ℕ} {idx : Fin 512} {alloc : Bool}

theorem walkLevel_of_next (h : next m pt idx = some d) : walkLevel m pt idx alloc = (m, some d) := by
  unfold next at h
  split_ifs at h with hv
  cases h
  simp [walkLevel, hv]

theorem walkLevel_false : walkLevel m pt idx false = (m, next m pt idx) := by
  by_cases hv : m.ptes pt idx &&& PTE_V = 0 <;> simp [walkLevel, next, hv]

theorem walk_false {va : UInt64} (h : va < MAXVA) :
    walk m root va false = some (m, (node m root [PX 2 va, PX 1 va]).map (·, PX 0 va)) := by
  have hn : ¬ va ≥ MAXVA := fun h' => absurd h (UInt64.not_lt.2 h')
  simp only [walk, hn, if_false, walkLevel_false, node]
  cases next m root (PX 2 va) <;> rfl

/-- The leaf that a non-allocating `walk` finds. -/
theorem walk_false_leaf {va : UInt64} (h : va < MAXVA) {m' : Mem} {pg : ℕ} {k : Fin 512}
    (hw : walk m root va false = some (m', some (pg, k))) : m'.ptes pg k = leaf m root va := by
  rw [walk_false h, Option.some.injEq, Prod.mk.injEq] at hw
  obtain ⟨rfl, hmap⟩ := hw
  obtain ⟨d, hd, he⟩ := Option.map_eq_some_iff.1 hmap
  obtain ⟨rfl, rfl⟩ := Prod.mk.inj he
  simp [leaf, slot, hd]

end Walk

/-! ### Stores to the tree -/

section Frame

variable {m m' : Mem} {root pt d n : ℕ} {idx : Fin 512}

/-- The tree lives in `ptes`: a change of the physical pages keeps every view of it. -/
@[simp] theorem leaf_phys (ph : Phys) : leaf { m with phys := ph } root = leaf m root := rfl

@[simp] theorem tablePage_phys (ph : Phys) (x : ℕ) :
    TablePage { m with phys := ph } root x ↔ TablePage m root x := Iff.rfl

@[simp] theorem slot_phys (ph : Phys) : slot { m with phys := ph } root = slot m root := rfl

@[simp] theorem setPte_phys (m : Mem) (pg : ℕ) (idx : Fin 512) (v : UInt64) :
    (m.setPte pg idx v).phys = m.phys := rfl

theorem setPte_ptes (m : Mem) (pg : ℕ) (idx : Fin 512) (v : UInt64) (pg' : ℕ) :
    (m.setPte pg idx v).ptes pg' =
      if pg' = pg then Function.update (m.ptes pg) idx v else m.ptes pg' := by
  simp only [Mem.setPte, Function.update_apply]

theorem next_congr {pg : ℕ} (h : m'.ptes pg = m.ptes pg) : next m' pg = next m pg := by
  funext j
  simp [next, h]

/-- `node` reads the entries of the root and of the level-1 pages only. -/
theorem node_congr (h0 : m'.ptes root = m.ptes root)
    (h1 : ∀ i d, next m root i = some d → m'.ptes d = m.ptes d) : node m' root = node m root := by
  funext p
  match p with
  | [] => rfl
  | [i] => simp [node, next_congr h0]
  | [i, j] =>
    simp only [node, next_congr h0]
    cases hd : next m root i with
    | none => rfl
    | some d => simp [next_congr (h1 i d hd)]
  | _ :: _ :: _ :: _ => rfl

theorem Tree.ne {p q : List (Fin 512)} {x y : ℕ} (ht : Tree m root) (hx : node m root p = some x)
    (hy : node m root q = some y) (hpq : p ≠ q) : x ≠ y := by
  rintro rfl
  exact hpq (ht p q x hx hy)

/-- `Tree` reads the pages reached from the root only. -/
theorem Tree.of_node (ht : Tree m root) (hn : node m' root = node m root) : Tree m' root :=
  fun p q x hp hq => ht p q x (hn ▸ hp) (hn ▸ hq)

theorem tablePage_root : TablePage m root root := ⟨[], rfl⟩

/-- A memory that keeps the entries of every page of the tree `root` keeps the tree. -/
theorem node_eq_of_ptes (h : ∀ pg, TablePage m root pg → m'.ptes pg = m.ptes pg) :
    node m' root = node m root :=
  node_congr (h root tablePage_root) fun i d hd => h d ⟨[i], hd⟩

theorem tablePage_congr (h : node m' root = node m root) (x : ℕ) :
    TablePage m' root x ↔ TablePage m root x := by
  simp only [TablePage, h]

/-- And every leaf. -/
theorem leaf_eq_of_ptes (h : ∀ pg, TablePage m root pg → m'.ptes pg = m.ptes pg) :
    leaf m' root = leaf m root := by
  funext va
  simp only [leaf, slot, node_eq_of_ptes h]
  cases hd : node m root [PX 2 va, PX 1 va] with
  | none => rfl
  | some d => exact congrFun (h d ⟨_, hd⟩) (PX 0 va)

/-- A store to a level-0 page leaves every page of the tree where it was. -/
theorem node_setPte_leaf {i j : Fin 512} (ht : Tree m root) (hd : node m root [i, j] = some d)
    (k : Fin 512) (v : UInt64) : node (m.setPte d k v) root = node m root := by
  have hne : ∀ {p x}, node m root p = some x → p ≠ [i, j] → x ≠ d := fun hx hp => ht.ne hx hd hp
  apply node_congr
  · rw [setPte_ptes, if_neg (hne (p := []) rfl (by simp))]
  · intro i' e he
    rw [setPte_ptes, if_neg (hne (p := [i']) he (by simp))]

/-- A store to a level-0 page changes its own slot only. -/
theorem slot_setPte_leaf {i j : Fin 512} (ht : Tree m root) (hd : node m root [i, j] = some d)
    (k : Fin 512) (v : UInt64) (i' j' k' : Fin 512) :
    slot (m.setPte d k v) root i' j' k' =
      if i' = i ∧ j' = j ∧ k' = k then v else slot m root i' j' k' := by
  simp only [slot, node_setPte_leaf ht hd]
  cases he : node m root [i', j'] with
  | none =>
    -- no level-0 page for `i'`, `j'`: not the slot stored to
    have : ¬(i' = i ∧ j' = j ∧ k' = k) := by
      rintro ⟨rfl, rfl, -⟩
      rw [hd] at he
      cases he
    rw [if_neg this]
  | some e =>
    by_cases hij : i' = i ∧ j' = j
    · obtain ⟨rfl, rfl⟩ := hij
      rw [hd] at he
      cases he
      by_cases hk : k' = k <;> simp [setPte_ptes, hk]
    · have hed : e ≠ d := ht.ne he hd (by simpa using hij)
      rw [if_neg (fun h => hij ⟨h.1, h.2.1⟩)]
      simp only [setPte_ptes, if_neg hed]

/-- A store to the leaf of an address below `MAXVA` leaves the slots under the upper half of the
root alone: no user address reaches them. -/
theorem slot_setPte_high {va : UInt64} (ht : Tree m root)
    (hd : node m root [PX 2 va, PX 1 va] = some d) (hva : va < MAXVA) (v : UInt64) {i : Fin 512}
    (hi : 256 ≤ i.val) (j k : Fin 512) :
    slot (m.setPte d (PX 0 va) v) root i j k = slot m root i j k := by
  rw [slot_setPte_leaf ht hd, if_neg]
  rintro ⟨rfl, -, -⟩
  have hlt : va.toNat < 2 ^ 38 := by rwa [UInt64.lt_iff_toNat_lt, MAXVA_toNat] at hva
  rw [PX_val (by norm_num)] at hi
  norm_num at hi
  omega

/-- `DirOK` reads the entries of the root and of the level-1 pages only. -/
theorem DirOK.congr (h : DirOK m root) (hn : node m' root = node m root)
    (hp : ∀ p x, p.length ≤ 1 → node m root p = some x → m'.ptes x = m.ptes x) : DirOK m' root := by
  intro p x hl hx i hv
  rw [hn] at hx
  rw [hp p x hl hx] at hv ⊢
  exact h p x hl hx i hv

@[simp] theorem dirOK_phys (ph : Phys) : DirOK { m with phys := ph } root ↔ DirOK m root := Iff.rfl

/-- A memory that keeps the tree, and the entries of every page but the level-0 pages, keeps
`DirOK`. -/
theorem DirOK.of_level0 (h : DirOK m root) (ht : Tree m root) (hn : node m' root = node m root)
    (hp : ∀ pg, (∀ i j, node m root [i, j] ≠ some pg) → m'.ptes pg = m.ptes pg) :
    DirOK m' root :=
  h.congr hn fun p x hl hx => hp x fun i j hij => by
    have := ht p [i, j] x hx hij
    rw [this] at hl
    simp at hl

/-- A store to a level-0 page keeps `DirOK`. -/
theorem DirOK.setPte_leaf {i j : Fin 512} (h : DirOK m root) (ht : Tree m root)
    (hd : node m root [i, j] = some d) (k : Fin 512) (v : UInt64) :
    DirOK (m.setPte d k v) root :=
  h.of_level0 ht (node_setPte_leaf ht hd k v) fun pg hpg => by
    rw [setPte_ptes, if_neg fun e => hpg i j (by rw [e]; exact hd)]

end Frame

/-! ### A new page-table page -/

/-- A page as `kinit` hands them to `kfree`: nonzero, page-aligned, a 64-bit address. -/
def PageAddr (n : ℕ) : Prop := 0 < n ∧ n % PGSIZE = 0 ∧ n < 2 ^ 64

theorem PageAddr.toNat_toUInt64 {n : ℕ} (ha : PageAddr n) : n.toUInt64.toNat = n := by
  rw [Nat.toUInt64_eq, UInt64.toNat_ofNat', Nat.mod_eq_of_lt ha.2.2]

/-- The entry that points to the page-table page `n`. -/
theorem PageAddr.dir {n : ℕ} (ha : PageAddr n) :
    (PA2PTE n.toUInt64 ||| PTE_V) &&& PTE_V ≠ 0 ∧ (PTE2PA (PA2PTE n.toUInt64 ||| PTE_V)).toNat = n := by
  have hf : PTE_V.toNat < 2 ^ 10 := by decide
  have hal : n.toUInt64.toNat % 2 ^ 12 = 0 := by
    rw [ha.toNat_toUInt64]
    exact ha.2.1
  refine ⟨(and_PTE_V_ne_zero _).2 ?_, by rw [PTE2PA_PA2PTE_or hal hf, ha.toNat_toUInt64]⟩
  rw [toNat_PA2PTE_or _ hf]
  simp [PTE_V]
  omega

/-- The entry that points to the page-table page `n` is a directory entry. -/
theorem PageAddr.dirEntry {n : ℕ} (ha : PageAddr n) : DirEntry (PA2PTE n.toUInt64 ||| PTE_V) := by
  refine ⟨ha.dir.1, ?_⟩
  have hf : (PA2PTE n.toUInt64 ||| PTE_V) &&& 0x3FF = PTE_V := PA2PTE_or_flags _ (by decide)
  -- the three flags are among the low ten bits
  calc (PA2PTE n.toUInt64 ||| PTE_V) &&& (PTE_R ||| PTE_W ||| PTE_X)
      = ((PA2PTE n.toUInt64 ||| PTE_V) &&& 0x3FF) &&& (PTE_R ||| PTE_W ||| PTE_X) := by
        rw [UInt64.and_assoc]
        rfl
    _ = 0 := by rw [hf]; rfl

section Enter

variable {m : Mem} {ph : Phys} {root pt n : ℕ} {idx : Fin 512}

@[simp] theorem enter_phys : (m.enter ph pt idx n).phys = ph := rfl

theorem enter_ptes (hn : n ≠ pt) (pg : ℕ) :
    (m.enter ph pt idx n).ptes pg =
      if pg = pt then Function.update (m.ptes pt) idx (PA2PTE n.toUInt64 ||| PTE_V)
      else if pg = n then fun _ => 0 else m.ptes pg := by
  simp only [Mem.enter, setPte_ptes, Function.update_apply, if_neg hn.symm]

theorem next_enter (hn : n ≠ pt) (ha : PageAddr n) (pg : ℕ) (j : Fin 512) :
    next (m.enter ph pt idx n) pg j =
      if pg = pt ∧ j = idx then some n else if pg = n then none else next m pg j := by
  have hd := ha.dir
  unfold next
  rw [enter_ptes hn]
  by_cases hpt : pg = pt
  · subst hpt
    by_cases hj : j = idx
    · simp [hj, hd.1, hd.2]
    · simp [hj, hn.symm]
  · by_cases hpn : pg = n
    · subst hpn
      simp [hpt]
    · simp [hpt, hpn]

/-- Entering a new page at entry `idx` of the page `pt` at path `p` adds the path `p ++ [idx]`
and no other. -/
theorem node_enter {p : List (Fin 512)} (ht : Tree m root) (hp : node m root p = some pt)
    (hlen : p.length ≤ 1) (hnone : next m pt idx = none) (hn : ¬ TablePage m root n)
    (ha : PageAddr n) (q : List (Fin 512)) :
    node (m.enter ph pt idx n) root q = if q = p ++ [idx] then some n else node m root q := by
  have hnt : ∀ {r x}, node m root r = some x → x ≠ n := fun hx e => hn ⟨_, e ▸ hx⟩
  have hnpt : n ≠ pt := (hnt hp).symm
  have hroot : root ≠ n := hnt (r := []) rfl
  match p, q with
  | [], [] => simp [node]
  | [], [i] =>
    cases hp
    by_cases hi : i = idx <;> simp [node, next_enter hnpt ha, hi, hroot]
  | [], [i, j] =>
    cases hp
    by_cases hi : i = idx
    · subst hi
      simp [node, next_enter hnpt ha, hnone, hnpt]
    · simp only [node, next_enter hnpt ha, hi, and_false, if_false, if_neg hroot]
      cases hd : next m root i with
      | none => simp
      | some d =>
        have hdr : d ≠ root := ht.ne (p := [i]) (q := []) hd rfl (by simp)
        simp [hdr, hnt (r := [i]) hd]
  | [], _ :: _ :: _ :: _ => simp [node]
  | [i0], [] => simp [node]
  | [i0], [i] =>
    have hrp : root ≠ pt := ht.ne (p := []) rfl hp (by simp)
    simp [node, next_enter hnpt ha, hrp, hroot]
  | [i0], [i, j] =>
    have hrp : root ≠ pt := ht.ne (p := []) rfl hp (by simp)
    simp only [node, next_enter hnpt ha, hrp, false_and, if_false, if_neg hroot]
    cases hd : next m root i with
    | none =>
      have : i ≠ i0 := by
        rintro rfl
        rw [show node m root [i] = next m root i from rfl, hd] at hp
        cases hp
      simp [this]
    | some d =>
      by_cases hi : i = i0
      · subst hi
        have hdp : d = pt := by
          rw [show node m root [i] = next m root i from rfl, hd] at hp
          exact Option.some.inj hp
        subst hdp
        by_cases hj : j = idx
        · simp [hj]
        · simp [hj, hnpt.symm]
      · have hdp : d ≠ pt := ht.ne (p := [i]) hd hp (by simpa using hi)
        simp [hdp, hnt (r := [i]) hd, hi]
  | [i0], _ :: _ :: _ :: _ => simp [node]

/-- Below a missing entry there is no page. -/
theorem node_snoc_none {p : List (Fin 512)} (hp : node m root p = some pt) (hlen : p.length ≤ 1)
    (hnone : next m pt idx = none) : node m root (p ++ [idx]) = none := by
  match p, hlen with
  | [], _ =>
    cases hp
    exact hnone
  | [i0], _ =>
    have hd : next m root i0 = some pt := hp
    simp [node, hd, hnone]

theorem tree_enter {p : List (Fin 512)} (ht : Tree m root) (hp : node m root p = some pt)
    (hlen : p.length ≤ 1) (hnone : next m pt idx = none) (hn : ¬ TablePage m root n)
    (ha : PageAddr n) : Tree (m.enter ph pt idx n) root := by
  intro q₁ q₂ x h₁ h₂
  rw [node_enter ht hp hlen hnone hn ha] at h₁ h₂
  split_ifs at h₁ h₂ with e₁ e₂ e₂
  · rw [e₁, e₂]
  · -- only the new path reaches the new page
    cases h₁
    exact absurd ⟨q₂, h₂⟩ hn
  · cases h₂
    exact absurd ⟨q₁, h₁⟩ hn
  · exact ht q₁ q₂ x h₁ h₂

theorem tablePage_enter {p : List (Fin 512)} (ht : Tree m root) (hp : node m root p = some pt)
    (hlen : p.length ≤ 1) (hnone : next m pt idx = none) (hn : ¬ TablePage m root n)
    (ha : PageAddr n) (x : ℕ) :
    TablePage (m.enter ph pt idx n) root x ↔ TablePage m root x ∨ x = n := by
  simp only [TablePage, node_enter ht hp hlen hnone hn ha]
  constructor
  · rintro ⟨q, hq⟩
    split_ifs at hq
    · exact .inr (Option.some.inj hq).symm
    · exact .inl ⟨q, hq⟩
  · rintro (⟨q, hq⟩ | rfl)
    · refine ⟨q, ?_⟩
      rw [if_neg]
      · exact hq
      · rintro rfl
        rw [node_snoc_none hp hlen hnone] at hq
        cases hq
    · exact ⟨p ++ [idx], if_pos rfl⟩

/-- Entering a new page keeps `DirOK`: the entry is a directory entry, and the new page is
cleared. -/
theorem DirOK.enter {p : List (Fin 512)} (h : DirOK m root) (ht : Tree m root)
    (hp : node m root p = some pt) (hlen : p.length ≤ 1) (hnone : next m pt idx = none)
    (hn : ¬ TablePage m root n) (ha : PageAddr n) : DirOK (m.enter ph pt idx n) root := by
  have hnpt : n ≠ pt := fun e => hn ⟨p, e ▸ hp⟩
  intro q x hq hx i hv
  rw [node_enter ht hp hlen hnone hn ha] at hx
  split_ifs at hx with hqe
  · -- the new page: all its entries are `0`
    cases hx
    rw [enter_ptes hnpt, if_neg hnpt, if_pos rfl] at hv
    exact absurd rfl hv
  · have hxn : x ≠ n := fun e => hn ⟨q, e ▸ hx⟩
    rw [enter_ptes hnpt, if_neg hxn] at hv ⊢
    by_cases hxp : x = pt
    · subst hxp
      rw [if_pos rfl] at hv ⊢
      by_cases hi : i = idx
      · subst hi
        rw [Function.update_self]
        exact ha.dirEntry
      · rw [Function.update_of_ne hi] at hv ⊢
        exact h q x hq hx i hv
    · rw [if_neg hxp] at hv ⊢
      exact h q x hq hx i hv

/-- A new page-table page is cleared: every slot reads as before. -/
theorem slot_enter {p : List (Fin 512)} (ht : Tree m root) (hp : node m root p = some pt)
    (hlen : p.length ≤ 1) (hnone : next m pt idx = none) (hn : ¬ TablePage m root n)
    (ha : PageAddr n) : slot (m.enter ph pt idx n) root = slot m root := by
  have hnpt : n ≠ pt := fun e => hn ⟨p, e ▸ hp⟩
  funext i j k
  simp only [slot, node_enter ht hp hlen hnone hn ha]
  split_ifs with hij
  · -- the new level-0 page: the path `[i, j]` ran through the missing entry before
    dsimp only
    rw [enter_ptes hnpt, if_neg hnpt, if_pos rfl, hij, node_snoc_none hp hlen hnone]
  · cases he : node m root [i, j] with
    | none => rfl
    | some e =>
      have hep : e ≠ pt := ht.ne he hp (by rintro rfl; simp at hlen)
      have hen : e ≠ n := fun h => hn ⟨_, h ▸ he⟩
      simp only [enter_ptes hnpt, if_neg hep, if_neg hen]

end Enter

/-! ### An allocating `walk` -/

/-- `m'` is `m` with the pages `t`, taken from the head of the free list, entered as new pages of
the tree `root`: every slot, and every page that is neither old nor new in the tree, as before. -/
structure Grows (m m' : Mem) (root : ℕ) (t : List ℕ) : Prop where
  free : m.phys.freelist = t ++ m'.phys.freelist
  tree : Tree m' root
  slot : slot m' root = slot m root
  table : ∀ x, TablePage m' root x ↔ TablePage m root x ∨ x ∈ t
  ptes : ∀ pg, ¬ TablePage m root pg → pg ∉ t → m'.ptes pg = m.ptes pg
  mem : ∀ a, a ∉ t → m'.phys.mem a = m.phys.mem a
  /-- The new entries point to page-table pages. -/
  dir : DirOK m root → DirOK m' root

/-- The free list as `kfree` keeps it: distinct page addresses, none of them a page of the tree
`root`. -/
structure FreeOK (m : Mem) (root : ℕ) : Prop where
  nodup : m.phys.freelist.Nodup
  addr : ∀ p ∈ m.phys.freelist, PageAddr p
  not_table : ∀ p ∈ m.phys.freelist, ¬ TablePage m root p

section Grows

variable {m m₁ m₂ : Mem} {root : ℕ} {t t₁ t₂ : List ℕ}

theorem Grows.refl (ht : Tree m root) : Grows m m root [] :=
  ⟨rfl, ht, rfl, by simp, fun _ _ _ => rfl, fun _ _ => rfl, id⟩

theorem Grows.trans (h₁ : Grows m m₁ root t₁) (h₂ : Grows m₁ m₂ root t₂) :
    Grows m m₂ root (t₁ ++ t₂) where
  free := by rw [h₁.free, h₂.free, List.append_assoc]
  tree := h₂.tree
  slot := h₂.slot.trans h₁.slot
  table x := by
    rw [h₂.table, h₁.table, List.mem_append, or_assoc]
  ptes pg hpg ht := by
    have hm : pg ∉ t₁ ∧ pg ∉ t₂ := by simpa using ht
    have h1 : ¬ TablePage m₁ root pg := by
      rw [h₁.table]
      exact fun h => h.elim hpg hm.1
    rw [h₂.ptes pg h1 hm.2, h₁.ptes pg hpg hm.1]
  mem a ha := by
    have hm : a ∉ t₁ ∧ a ∉ t₂ := by simpa using ha
    rw [h₂.mem a hm.2, h₁.mem a hm.1]
  dir h := h₂.dir (h₁.dir h)

theorem FreeOK.grows (hf : FreeOK m root) (hg : Grows m m₁ root t) : FreeOK m₁ root where
  nodup := by
    have := hf.nodup
    rw [hg.free] at this
    exact (List.nodup_append.1 this).2.1
  addr p hp := hf.addr p (by rw [hg.free]; exact List.mem_append_right _ hp)
  not_table p hp := by
    have hnd := hf.nodup
    rw [hg.free] at hnd
    rw [hg.table]
    rintro (h | h)
    · exact hf.not_table p (by rw [hg.free]; exact List.mem_append_right _ hp) h
    · exact (List.nodup_append.1 hnd).2.2 p h p hp rfl

end Grows

section WalkAlloc

variable {m : Mem} {root pt : ℕ}

/-- One allocating round of `walk` from the page `pt` at path `p`, at the index `idx`. -/
theorem walkLevel_alloc {p : List (Fin 512)} (idx : Fin 512) (hf : FreeOK m root) (ht : Tree m root)
    (hp : node m root p = some pt) (hlen : p.length ≤ 1) :
    ∃ m' t, Grows m m' root t ∧
      ((∃ d, walkLevel m pt idx true = (m', some d) ∧ node m' root (p ++ [idx]) = some d) ∨
        (walkLevel m pt idx true = (m', none) ∧ m'.phys.freelist = [])) := by
  cases hn : next m pt idx with
  | some d =>
    -- the entry is valid: no allocation
    refine ⟨m, [], Grows.refl ht, .inl ⟨d, walkLevel_of_next hn, ?_⟩⟩
    match p, hlen with
    | [], _ => cases hp; exact hn
    | [i0], _ => simp only [node, List.cons_append, List.nil_append] at hp ⊢; rw [hp]; exact hn
  | none =>
    have hv : ¬ m.ptes pt idx &&& PTE_V ≠ 0 := fun h => by simp [next, h] at hn
    cases hfl : m.phys.freelist with
    | nil =>
      refine ⟨m, [], Grows.refl ht, .inr ⟨?_, hfl⟩⟩
      simp [walkLevel, hv, kalloc_nil hfl]
    | cons n rest =>
      have hmem : n ∈ m.phys.freelist := by rw [hfl]; exact List.mem_cons_self
      have ha := hf.addr n hmem
      have hnt := hf.not_table n hmem
      set ph : Phys := ⟨rest, Function.update m.phys.mem n (List.replicate PGSIZE 5)⟩
      have hwl : walkLevel m pt idx true = (m.enter ph pt idx n, some n) := by
        simp [walkLevel, hv, kalloc_cons hfl, ha.1.ne', ph]
      refine ⟨m.enter ph pt idx n, [n], ?_, .inl ⟨n, hwl, ?_⟩⟩
      · have hnpt : n ≠ pt := fun e => hnt ⟨p, e ▸ hp⟩
        exact {
          free := by simp [hfl, ph]
          tree := tree_enter ht hp hlen hn hnt ha
          slot := slot_enter ht hp hlen hn hnt ha
          table := fun x => by rw [tablePage_enter ht hp hlen hn hnt ha]; simp [eq_comm]
          ptes := fun pg hpg hpt => by
            have hne : pg ≠ pt := fun e => hpg ⟨p, e ▸ hp⟩
            rw [enter_ptes hnpt, if_neg hne, if_neg (by simpa using hpt)]
          mem := fun a ha' => by
            simp only [enter_phys, ph, Function.update_apply]
            rw [if_neg (by simpa using ha')]
          dir := fun hd => hd.enter ht hp hlen hn hnt ha }
      · rw [node_enter ht hp hlen hn hnt ha, if_pos rfl]

/-- **An allocating `walk`** below `MAXVA` takes pages from the head of the free list and enters
them as new page-table pages: the tree and every slot are kept, and it returns the slot of `va`
unless the free list ran out. -/
theorem walk_alloc {va : UInt64} (hf : FreeOK m root) (ht : Tree m root) (hva : va < MAXVA) :
    ∃ m' t, Grows m m' root t ∧
      ((∃ d, walk m root va true = some (m', some (d, PX 0 va)) ∧
          node m' root [PX 2 va, PX 1 va] = some d) ∨
        (walk m root va true = some (m', none) ∧ m'.phys.freelist = [])) := by
  have hn : ¬ va ≥ MAXVA := fun h' => absurd hva (UInt64.not_lt.2 h')
  obtain ⟨m₁, t₁, hg₁, ⟨d₁, hw₁, hd₁⟩ | ⟨hw₁, hfl₁⟩⟩ :=
    walkLevel_alloc (PX 2 va) hf ht (show node m root [] = some root from rfl) (by simp)
  · -- the level-1 page is there now: one more round
    obtain ⟨m₂, t₂, hg₂, ⟨d₀, hw₂, hd₀⟩ | ⟨hw₂, hfl₂⟩⟩ :=
      walkLevel_alloc (PX 1 va) (hf.grows hg₁) hg₁.tree hd₁ (by simp)
    · refine ⟨m₂, t₁ ++ t₂, hg₁.trans hg₂, .inl ⟨d₀, ?_, hd₀⟩⟩
      simp [walk, hn, hw₁, hw₂]
    · refine ⟨m₂, t₁ ++ t₂, hg₁.trans hg₂, .inr ⟨?_, hfl₂⟩⟩
      simp [walk, hn, hw₁, hw₂]
  · refine ⟨m₁, t₁, hg₁, .inr ⟨?_, hfl₁⟩⟩
    simp [walk, hn, hw₁]

end WalkAlloc

/-! ### `mappages` of one page -/

theorem mod_PGSIZE_eq_zero {va : UInt64} (hal : va.toNat % PGSIZE = 0) :
    va % PGSIZE.toUInt64 = 0 := by
  apply UInt64.toNat_inj.1
  rw [UInt64.toNat_mod]
  exact hal

/-- **`mappages` of one page** at a page-aligned address below `MAXVA` whose leaf is not valid:
after the pages `walk` enters, it stores the leaf and returns `0`, or it returns `-1` with the
free list run out. -/
theorem mappages_page {m : Mem} {root : ℕ} {va pa perm : UInt64} (hf : FreeOK m root)
    (ht : Tree m root) (hva : va < MAXVA) (hal : va.toNat % PGSIZE = 0)
    (hleaf : leaf m root va &&& PTE_V = 0) :
    ∃ m' t, Grows m m' root t ∧
      ((∃ d, node m' root [PX 2 va, PX 1 va] = some d ∧
          mappages m root va PGSIZE.toUInt64 pa perm =
            some (m'.setPte d (PX 0 va) (PA2PTE pa ||| perm ||| PTE_V), 0)) ∨
        (mappages m root va PGSIZE.toUInt64 pa perm = some (m', -1) ∧ m'.phys.freelist = [])) := by
  have hloop : mappages m root va PGSIZE.toUInt64 pa perm =
      mappagesLoop root va perm 1 m va pa := by
    rw [mappages, if_neg (not_not.2 (mod_PGSIZE_eq_zero hal)), if_neg (by decide),
      if_neg (by decide), show va + PGSIZE.toUInt64 - PGSIZE.toUInt64 = va by simp]
    rfl
  obtain ⟨m', t, hg, ⟨d, hw, hd⟩ | ⟨hw, hfl⟩⟩ := walk_alloc hf ht hva (m := m)
  · -- the slot is there and, as before, not valid
    have hv : ¬ m'.ptes d (PX 0 va) &&& PTE_V ≠ 0 := by
      have : m'.ptes d (PX 0 va) = leaf m root va := by
        rw [leaf, ← hg.slot, slot, hd]
      rw [this, hleaf]
      simp
    refine ⟨m', t, hg, .inl ⟨d, hd, ?_⟩⟩
    rw [hloop]
    simp [mappagesLoop, hw, hv]
  · refine ⟨m', t, hg, .inr ⟨?_, hfl⟩⟩
    rw [hloop]
    simp [mappagesLoop, hw]


/-! ### The flattened page table of `Kernel.Vm` -/

section Flat

/-- The page table `root` in `m` stands for the flattened memory `vm` of `Kernel.Vm`: the same
physical pages, and at every user page the leaf PTE that `vm.pagetable` holds. -/
structure Refines (m : Mem) (root : ℕ) (vm : Vm) : Prop where
  tree : Tree m root
  phys : m.phys = vm.phys
  leaves : ∀ va, UserPage va → leaf m root va = vm.pagetable va

variable {m : Mem} {root d : ℕ} {vm : Vm} {va : UInt64}

/-- A store to the leaf of one user page changes the leaf of no other. -/
theorem leaf_setPte (ht : Tree m root) (hd : node m root [PX 2 va, PX 1 va] = some d)
    (hva : UserPage va) (v : UInt64) {va' : UInt64} (hva' : UserPage va') :
    leaf (m.setPte d (PX 0 va) v) root va' = if va' = va then v else leaf m root va' := by
  rw [leaf, slot_setPte_leaf ht hd]
  by_cases he : va' = va
  · subst he
    simp
  · -- distinct pages below `2 ^ 39` differ in one of their indices
    have hpx : ¬(PX 2 va' = PX 2 va ∧ PX 1 va' = PX 1 va ∧ PX 0 va' = PX 0 va) :=
      fun ⟨h2, h1, h0⟩ => he (eq_of_PX_eq (by have := hva'.toNat_lt; omega)
        (by have := hva.toNat_lt; omega) hva'.2 hva.2 h2 h1 h0)
    rw [if_neg hpx, if_neg he, leaf]

/-- The leaf of a user page whose level-0 page is missing is `0`, as `Kernel.Vm` reads it. -/
theorem leaf_of_node_none (hd : node m root [PX 2 va, PX 1 va] = none) : leaf m root va = 0 := by
  rw [leaf, slot, hd]

theorem leaf_of_node_some (hd : node m root [PX 2 va, PX 1 va] = some d) :
    leaf m root va = m.ptes d (PX 0 va) := by
  rw [leaf, slot, hd]

/-- The same store to the leaf of a user page, in the tree and in the flattened table, with the
physical pages replaced by `ph` on both sides. -/
theorem Refines.store (h : Refines m root vm) (hd : node m root [PX 2 va, PX 1 va] = some d)
    (hva : UserPage va) (v : UInt64) (ph : Phys) :
    Refines (({ m with phys := ph } : Mem).setPte d (PX 0 va) v) root
      { vm with pagetable := Function.update vm.pagetable va v, phys := ph } where
  tree := by
    intro p q x hp hq
    rw [node_setPte_leaf (m := { m with phys := ph }) h.tree hd] at hp hq
    exact h.tree p q x hp hq
  phys := rfl
  leaves va' hva' := by
    show _ = Function.update vm.pagetable va v va'
    rw [leaf_setPte (m := { m with phys := ph }) h.tree hd hva v hva', Function.update_apply]
    split_ifs
    · rfl
    · exact h.leaves va' hva'

theorem node_store (h : Refines m root vm) (hd : node m root [PX 2 va, PX 1 va] = some d)
    (v : UInt64) (ph : Phys) :
    node (({ m with phys := ph } : Mem).setPte d (PX 0 va) v) root = node m root :=
  node_setPte_leaf (m := { m with phys := ph }) h.tree hd (PX 0 va) v

/-- **`uvmunmap`'s loop on the tree does what it does on the flattened table**: the two panic
together, or end with memories that still correspond, the tree's pages where they were. -/
theorem uvmunmapLoop_refines (doFree : Bool) (k : ℕ) {m : Mem} {vm : Vm} {a : UInt64}
    (h : Refines m root vm) (hal : a.toNat % PGSIZE = 0) :
    Option.Rel (fun m' vm' => Refines m' root vm' ∧ node m' root = node m root)
      (uvmunmapLoop root doFree k m a) (Kernel.uvmunmapLoop vm a doFree k) := by
  induction k generalizing m vm a with
  | zero => exact .some ⟨h, rfl⟩
  | succ k ih =>
    by_cases hva : a < MAXVA
    · have hpage : UserPage a := ⟨hva, hal⟩
      simp only [uvmunmapLoop, Kernel.uvmunmapLoop, walk_false hva, hpage.walk_eq]
      cases hd : node m root [PX 2 a, PX 1 a] with
      | none =>
        -- no level-0 page: the flattened leaf is `0`, and both go on
        have h0 : vm.pagetable a = 0 := by
          rw [← h.leaves a hpage, leaf_of_node_none hd]
        simp only [Option.map_none, h0, zero_and_PTE_V, if_true]
        exact ih h hpage.aligned_add
      | some d =>
        have hpte : m.ptes d (PX 0 a) = vm.pagetable a := by
          rw [← h.leaves a hpage, leaf_of_node_some hd]
        simp only [Option.map_some, hpte, h.phys]
        by_cases hv : vm.pagetable a &&& PTE_V = 0
        · rw [if_pos hv, if_pos hv]
          exact ih h hpage.aligned_add
        by_cases hleaf : vm.pagetable a &&& 0x3FF = PTE_V
        · rw [if_neg hv, if_pos hleaf, if_neg hv, if_pos hleaf]
          exact .none
        -- a leaf: cleared on both sides, its page freed on both when `do_free` is set
        rw [if_neg hv, if_neg hleaf, if_neg hv, if_neg hleaf]
        have key := ih (h.store hd hpage 0
          (if doFree then kfree vm.phys (PTE2PA (vm.pagetable a)).toNat else vm.phys))
          hpage.aligned_add
        rw [node_store h hd] at key
        exact key
    · have hle : MAXVA ≤ a := UInt64.not_lt.1 hva
      have hn : walk m root a false = none := by simp [walk, hle]
      simp only [uvmunmapLoop, Kernel.uvmunmapLoop, hn, walk_of_le hle]
      exact .none

/-- One round of `uvmunmap` that does not stop the kernel goes on from the next page, after
clearing the slot of `a` or not. -/
theorem uvmunmapLoop_succ {doFree : Bool} {k : ℕ} {m m' : Mem} {a : UInt64}
    (h : uvmunmapLoop root doFree (k + 1) m a = some m') :
    uvmunmapLoop root doFree k m (a + PGSIZE.toUInt64) = some m' ∨
      ∃ d ph, node m root [PX 2 a, PX 1 a] = some d ∧ uvmunmapLoop root doFree k
        (({ m with phys := ph } : Mem).setPte d (PX 0 a) 0) (a + PGSIZE.toUInt64) = some m' := by
  by_cases hva : a < MAXVA
  · rw [uvmunmapLoop, walk_false hva] at h
    cases hd : node m root [PX 2 a, PX 1 a] with
    | none =>
      simp only [hd, Option.map_none] at h
      exact .inl h
    | some d =>
      simp only [hd, Option.map_some] at h
      by_cases hv : m.ptes d (PX 0 a) &&& PTE_V = 0
      · rw [if_pos hv] at h
        exact .inl h
      by_cases hl : m.ptes d (PX 0 a) &&& 0x3FF = PTE_V
      · rw [if_neg hv, if_pos hl] at h
        cases h
      rw [if_neg hv, if_neg hl] at h
      exact .inr ⟨d, _, rfl, h⟩
  · have hle : MAXVA ≤ a := UInt64.not_lt.1 hva
    simp [uvmunmapLoop, walk, hle] at h

/-- `uvmunmap` stores only to the level-0 pages of its own tree: it keeps the tree, and the
entries of every other page. -/
theorem uvmunmapLoop_ptes (doFree : Bool) (k : ℕ) {m m' : Mem} {a : UInt64} (ht : Tree m root)
    (h : uvmunmapLoop root doFree k m a = some m') :
    node m' root = node m root ∧
      ∀ pg, (∀ i j, node m root [i, j] ≠ some pg) → m'.ptes pg = m.ptes pg := by
  induction k generalizing m a with
  | zero =>
    cases h
    exact ⟨rfl, fun _ _ => rfl⟩
  | succ k ih =>
    rcases uvmunmapLoop_succ h with h | ⟨d, ph, hd, h⟩
    · exact ih ht h
    · -- the slot of `a` cleared: a store to a level-0 page
      have hnode := node_setPte_leaf (m := { m with phys := ph }) ht hd (PX 0 a) 0
      obtain ⟨hn, hp⟩ := ih (ht.of_node hnode) h
      refine ⟨hn.trans hnode, fun pg hpg => ?_⟩
      have hne : pg ≠ d := fun e => hpg _ _ (e ▸ hd)
      rw [hp pg (by rwa [hnode]), setPte_ptes, if_neg hne]

/-- A round of `uvmunmap` that does not stop the kernel is at an address below `MAXVA`. -/
theorem uvmunmapLoop_succ_lt {doFree : Bool} {k : ℕ} {m m' : Mem} {a : UInt64}
    (h : uvmunmapLoop root doFree (k + 1) m a = some m') : a < MAXVA := by
  by_contra hva
  simp [uvmunmapLoop, walk, UInt64.not_lt.1 hva] at h

/-- `uvmunmap` leaves the slots under the upper half of the root alone. -/
theorem uvmunmapLoop_slot_high (doFree : Bool) (k : ℕ) {m m' : Mem} {a : UInt64}
    (ht : Tree m root) (h : uvmunmapLoop root doFree k m a = some m') {i : Fin 512}
    (hi : 256 ≤ i.val) (j l : Fin 512) : slot m' root i j l = slot m root i j l := by
  induction k generalizing m a with
  | zero =>
    cases h
    rfl
  | succ k ih =>
    have ha := uvmunmapLoop_succ_lt h
    rcases uvmunmapLoop_succ h with h | ⟨d, ph, hd, h⟩
    · exact ih ht h
    · have hnode := node_setPte_leaf (m := { m with phys := ph }) ht hd (PX 0 a) 0
      rw [ih (ht.of_node hnode) h]
      exact slot_setPte_high (m := { m with phys := ph }) ht hd ha 0 hi j l

/-- `uvmdealloc` returns the memory as it was, or as a loop of `uvmunmap` left it. -/
theorem uvmdealloc_cases {m m' : Mem} {oldsz newsz sz : UInt64}
    (hd : uvmdealloc m root oldsz newsz = some (m', sz)) :
    m' = m ∨ ∃ k a, uvmunmapLoop root true k m a = some m' := by
  simp only [uvmdealloc] at hd
  split_ifs at hd
  · cases hd
    exact .inl rfl
  · obtain ⟨m₁, hu, he⟩ := Option.map_eq_some_iff.1 hd
    cases he
    rw [uvmunmap] at hu
    split_ifs at hu
    exact .inr ⟨_, _, hu⟩
  · cases hd
    exact .inl rfl

/-- `uvmunmap` keeps `DirOK`. -/
theorem DirOK.uvmunmapLoop {doFree : Bool} {k : ℕ} {m m' : Mem} {a : UInt64} (h : DirOK m root)
    (ht : Tree m root) (hu : uvmunmapLoop root doFree k m a = some m') : DirOK m' root :=
  have hp := uvmunmapLoop_ptes doFree k ht hu
  h.of_level0 ht hp.1 hp.2

/-- `uvmdealloc` keeps `DirOK`. -/
theorem DirOK.uvmdealloc {m m' : Mem} {oldsz newsz sz : UInt64} (h : DirOK m root)
    (ht : Tree m root) (hd : uvmdealloc m root oldsz newsz = some (m', sz)) : DirOK m' root := by
  rcases uvmdealloc_cases hd with rfl | ⟨k, a, hu⟩
  · exact h
  · exact h.uvmunmapLoop ht hu

/-- `uvmdealloc` leaves the slots under the upper half of the root alone. -/
theorem uvmdealloc_slot_high {m m' : Mem} {oldsz newsz sz : UInt64} (ht : Tree m root)
    (hd : uvmdealloc m root oldsz newsz = some (m', sz)) {i : Fin 512} (hi : 256 ≤ i.val)
    (j l : Fin 512) : slot m' root i j l = slot m root i j l := by
  rcases uvmdealloc_cases hd with rfl | ⟨k, a, hu⟩
  · rfl
  · exact uvmunmapLoop_slot_high true k ht hu hi j l

/-- `uvmdealloc` keeps the entries of every page outside its table. -/
theorem uvmdealloc_ptes {m m' : Mem} {oldsz newsz sz : UInt64} (ht : Tree m root)
    (hd : uvmdealloc m root oldsz newsz = some (m', sz)) {pg : ℕ} (hpg : ¬ TablePage m root pg) :
    m'.ptes pg = m.ptes pg := by
  rcases uvmdealloc_cases hd with rfl | ⟨k, a, hu⟩
  · rfl
  · exact (uvmunmapLoop_ptes true k ht hu).2 pg fun i j h => hpg ⟨_, h⟩

/-- `uvmunmap` clears slots of its tree and changes no other. -/
theorem uvmunmapLoop_slot (doFree : Bool) (k : ℕ) {m m' : Mem} {a : UInt64} (ht : Tree m root)
    (h : uvmunmapLoop root doFree k m a = some m') (i j l : Fin 512) :
    slot m' root i j l = slot m root i j l ∨ slot m' root i j l = 0 := by
  induction k generalizing m a with
  | zero =>
    cases h
    exact .inl rfl
  | succ k ih =>
    rcases uvmunmapLoop_succ h with h | ⟨d, ph, hd, h⟩
    · exact ih ht h
    · have hnode := node_setPte_leaf (m := { m with phys := ph }) ht hd (PX 0 a) 0
      have hslot := slot_setPte_leaf (m := { m with phys := ph }) ht hd (PX 0 a) 0 i j l
      rcases ih (ht.of_node hnode) h with h' | h'
      · rw [h', hslot]
        split_ifs
        · exact .inr rfl
        · exact .inl rfl
      · exact .inr h'

/-- `uvmdealloc` on the tree does what it does on the flattened table, and returns the same
size. -/
theorem uvmdealloc_refines {m : Mem} {vm : Vm} (h : Refines m root vm) (oldsz newsz : UInt64) :
    Option.Rel (fun r r' => (Refines r.1 root r'.1 ∧ node r.1 root = node m root) ∧ r.2 = r'.2)
      (uvmdealloc m root oldsz newsz) (Kernel.uvmdealloc vm oldsz newsz) := by
  unfold uvmdealloc Kernel.uvmdealloc
  split_ifs with hge hlt
  · exact .some ⟨⟨h, rfl⟩, rfl⟩
  · -- `PGROUNDUP(newsz)` is aligned: `uvmunmap` goes straight to its loop
    dsimp only
    rw [uvmunmap, if_neg (not_not.2 (mod_PGSIZE_eq_zero (PGROUNDUP_aligned newsz)))]
    exact Machine.rel_map (uvmunmapLoop_refines true _ h (PGROUNDUP_aligned newsz))
      fun _ _ hr => ⟨hr, rfl⟩
  · exact .some ⟨⟨h, rfl⟩, rfl⟩

end Flat

/-! ### `uvmalloc` -/

/-- The flattened table that the tree `root` in `m` stands for. -/
def flat (m : Mem) (root : ℕ) (sz : UInt64) : Vm := ⟨sz, leaf m root, m.phys⟩

theorem refines_flat {m : Mem} {root : ℕ} (ht : Tree m root) (sz : UInt64) :
    Refines m root (flat m root sz) :=
  ⟨ht, rfl, fun _ _ => rfl⟩

/-- **`uvmunmap(pagetable, a, n, 1)` on the tree**, where each page from `a` holds the leaf of its
entry of `ps` or nothing valid: it frees the pages of `ps` in turn, clears their leaves, keeps
every other leaf, the bytes of every other page, and the tree. -/
theorem uvmunmapLoop_tree {m : Mem} {root : ℕ} {a : UInt64} {ps : List (Option ℕ)}
    (ht : Tree m root) (hal : a.toNat % PGSIZE = 0) (hk : a.toNat + ps.length * PGSIZE ≤ 2 ^ 38)
    (hmaps : ∀ va, UserPage va → a.toNat ≤ va.toNat → va.toNat < a.toNat + ps.length * PGSIZE →
      PteMaps (leaf m root va) (ps.getD ((va.toNat - a.toNat) / PGSIZE) none)) :
    ∃ m', uvmunmapLoop root true ps.length m a = some m' ∧ node m' root = node m root ∧
      m'.phys.freelist = ps.reduceOption.reverse ++ m.phys.freelist ∧
      (∀ x, x ∉ ps.reduceOption → m'.phys.mem x = m.phys.mem x) ∧
      ∀ va, UserPage va → leaf m' root va =
        if a.toNat ≤ va.toNat ∧ va.toNat < a.toNat + ps.length * PGSIZE ∧
          (ps.getD ((va.toNat - a.toNat) / PGSIZE) none).isSome then 0
        else leaf m root va := by
  -- on the flattened table, then back through the refinement
  obtain ⟨vm', hrun, -, hfl, hmem, hpt⟩ := @uvmunmapLoop_holes ps (flat m root 0) a hal hk hmaps
  have hrel := uvmunmapLoop_refines true ps.length (refines_flat ht 0) hal
  rw [hrun] at hrel
  generalize hu : uvmunmapLoop root true ps.length m a = u at hrel
  obtain ⟨m', rfl, href, hnode⟩ : ∃ m', u = some m' ∧ Refines m' root vm' ∧
      node m' root = node m root := by
    cases hrel with
    | some h => exact ⟨_, rfl, h⟩
  refine ⟨m', rfl, hnode, by rw [href.phys, hfl]; rfl, fun x hx => by rw [href.phys, hmem x hx]; rfl,
    fun va hva => ?_⟩
  rw [href.leaves va hva, hpt va hva]
  rfl

/-- The leaf that `mappages` stores for the page `d` with the flags `f`: valid, not a directory
entry when `f` has a flag besides `PTE_V`, and pointing to `d`. -/
theorem leafPte {d : ℕ} (hd : PageAddr d) {f : UInt64} (hf : f.toNat < 2 ^ 10)
    (hne : f ||| PTE_V ≠ PTE_V) :
    let pte := PA2PTE d.toUInt64 ||| f ||| PTE_V
    pte &&& PTE_V ≠ 0 ∧ pte &&& 0x3FF ≠ PTE_V ∧ (PTE2PA pte).toNat = d := by
  intro pte
  obtain ⟨hf', hodd⟩ := toNat_or_PTE_V hf
  have hpte : pte = PA2PTE d.toUInt64 ||| (f ||| PTE_V) := UInt64.or_assoc _ _ _
  have hal : d.toUInt64.toNat % 2 ^ 12 = 0 := by
    rw [hd.toNat_toUInt64]
    exact hd.2.1
  refine ⟨?_, ?_, ?_⟩
  · rw [hpte, and_PTE_V_ne_zero, toNat_PA2PTE_or _ hf']
    omega
  · rw [hpte, PA2PTE_or_flags _ hf']
    exact hne
  · rw [hpte, PTE2PA_PA2PTE_or hal hf', hd.toNat_toUInt64]

/-- The leaf `uvmalloc` stores for the page `d`: its flags have `PTE_R`. -/
theorem dataLeaf {d : ℕ} (hd : PageAddr d) {xperm : UInt64} (hx : xperm.toNat < 2 ^ 10) :
    let pte := PA2PTE d.toUInt64 ||| (PTE_R ||| PTE_U ||| xperm) ||| PTE_V
    pte &&& PTE_V ≠ 0 ∧ pte &&& 0x3FF ≠ PTE_V ∧ (PTE2PA pte).toNat = d := by
  have hp : (PTE_R ||| PTE_U ||| xperm).toNat < 2 ^ 10 := by
    rw [UInt64.toNat_or, UInt64.toNat_or]
    exact Nat.or_lt_two_pow (Nat.or_lt_two_pow (by decide) (by decide)) hx
  refine leafPte hd hp fun h => ?_
  -- the flags have bit `1`, `PTE_R`, which `PTE_V` has not
  have hbit : ((PTE_R ||| PTE_U ||| xperm) ||| PTE_V).toNat.testBit 1 = true := by
    simp [UInt64.toNat_or, Nat.testBit_or, PTE_R, PTE_U, PTE_V]
    exact Or.inl (Or.inl (by decide))
  rw [h] at hbit
  exact absurd hbit (by decide)

/-- What the loop of `uvmalloc` has done from `m₀` when it has mapped the pages `ds` from `a0` on,
one page each, with the flags `perm`: the tree has grown by the pages `t` entered for it, both
lists came off the free list, the new pages are zeroed, and no other leaf has changed. -/
structure AllocState (m₀ m : Mem) (root : ℕ) (a0 perm : UInt64) (ds t : List ℕ) : Prop where
  tree : Tree m root
  table : ∀ x, TablePage m root x ↔ TablePage m₀ root x ∨ x ∈ t
  free : m₀.phys.freelist.Perm (ds ++ t ++ m.phys.freelist)
  data : ∀ va, UserPage va → a0.toNat ≤ va.toNat → va.toNat < a0.toNat + ds.length * PGSIZE →
    leaf m root va =
      PA2PTE (ds.getD ((va.toNat - a0.toNat) / PGSIZE) 0).toUInt64 ||| perm ||| PTE_V
  zero : ∀ d ∈ ds, m.phys.mem d = List.replicate PGSIZE 0
  other : ∀ va, UserPage va → (va.toNat < a0.toNat ∨ a0.toNat + ds.length * PGSIZE ≤ va.toNat) →
    leaf m root va = leaf m₀ root va
  dir : DirOK m₀ root → DirOK m root
  /-- No user address reaches the slots under the upper half of the root. -/
  high : ∀ i j k, 256 ≤ i.val → slot m root i j k = slot m₀ root i j k
  /-- Every page neither in the table nor free keeps its entries and its bytes. -/
  ptes : ∀ pg, ¬ TablePage m₀ root pg → pg ∉ m₀.phys.freelist → m.ptes pg = m₀.ptes pg
  mem : ∀ x, x ∉ m₀.phys.freelist → m.phys.mem x = m₀.phys.mem x

section AllocState

variable {m₀ m : Mem} {root : ℕ} {a0 perm : UInt64} {ds t : List ℕ}

theorem AllocState.init (ht : Tree m root) : AllocState m m root a0 perm [] [] where
  tree := ht
  table := by simp
  free := by simp
  data _ _ h1 h2 := by simp at h2; omega
  zero := by simp
  other _ _ _ := rfl
  dir := id
  high _ _ _ _ := rfl
  ptes _ _ _ := rfl
  mem _ _ := rfl

/-- The pages still free after the pages `ds` and `t` came off the free list, `t` into the tree
`root`, are free as they were in `m₀`. -/
theorem FreeOK.of_perm (hf : FreeOK m₀ root) (hfree : m₀.phys.freelist.Perm (ds ++ t ++ m.phys.freelist))
    (htable : ∀ x, TablePage m root x ↔ TablePage m₀ root x ∨ x ∈ t) : FreeOK m root where
  nodup := (List.nodup_append.1 (hfree.nodup_iff.1 hf.nodup)).2.1
  addr p hp := hf.addr p (hfree.mem_iff.2 (List.mem_append_right _ hp))
  not_table p hp := by
    have hnd := List.nodup_append.1 (hfree.nodup_iff.1 hf.nodup)
    rw [htable]
    rintro (h | h)
    · exact hf.not_table p (hfree.mem_iff.2 (List.mem_append_right _ hp)) h
    · exact hnd.2.2 p (List.mem_append_right _ h) p hp rfl

theorem AllocState.freeOK (hf : FreeOK m₀ root) (hs : AllocState m₀ m root a0 perm ds t) :
    FreeOK m root :=
  hf.of_perm hs.free hs.table

/-- A page of `ds` by its index is a page of `ds`, and so a page that was free. -/
theorem AllocState.pageAddr (hf : FreeOK m₀ root) (hs : AllocState m₀ m root a0 perm ds t) {i : ℕ}
    (hi : i < ds.length) : PageAddr (ds.getD i 0) := by
  rw [List.getD_eq_getElem _ _ hi]
  exact hf.addr _ (hs.free.mem_iff.2 (List.mem_append_left _
    (List.mem_append_left _ (List.getElem_mem hi))))

end AllocState

/-- An allocating `walk` keeps every leaf. -/
theorem Grows.leaf_eq {m m' : Mem} {root : ℕ} {t : List ℕ} (hg : Grows m m' root t) :
    leaf m' root = leaf m root := by
  funext va
  simp only [leaf, hg.slot]

/-- Of two aligned addresses less than a page apart, the other one is the lower. -/
theorem lt_of_aligned {x y : ℕ} (hx : x % PGSIZE = 0) (hy : y % PGSIZE = 0) (h : x < y + PGSIZE)
    (hne : x ≠ y) : x < y := by
  simp only [PGSIZE] at hx hy h
  omega

section Step

variable {m₀ m m'' : Mem} {root : ℕ} {a0 perm : UInt64} {ds t t' : List ℕ} {a : UInt64} {d : ℕ}
  {rest : List ℕ} {ph : Phys}

/-- The pages of a round are fresh: the data page `d` is not one of the earlier ones, and no data
page is one that a `walk` entered. -/
theorem fresh_of_perm {l fl : List ℕ} (hnd : l.Nodup) (h : l.Perm (ds ++ [d] ++ (t ++ t') ++ fl)) :
    d ∉ ds ∧ ∀ x ∈ ds ++ [d], x ∉ t' := by
  have h1 := List.nodup_append.1 (List.nodup_append.1 (h.nodup_iff.1 hnd)).1
  have h2 := List.nodup_append.1 h1.1
  exact ⟨fun hd => h2.2.2 d hd d (List.mem_singleton_self d) rfl,
    fun x hx hxt => h1.2.2 x hx x (List.mem_append_right _ hxt) rfl⟩

/-- The pages taken in one round of an allocating loop, after those of the rounds before: `d`
from the head of the free list, then the pages `t'` of a `walk`. -/
theorem perm_round {l fl fl' : List ℕ} (h : l.Perm (ds ++ t ++ fl)) (hfl : fl = d :: rest)
    (hrest : rest = t' ++ fl') : l.Perm (ds ++ [d] ++ (t ++ t') ++ fl') := by
  refine h.trans (List.perm_iff_count.2 fun x => ?_)
  rw [hfl, hrest]
  simp only [List.count_append, List.count_cons, List.count_nil]
  omega

theorem AllocState.free_round (hs : AllocState m₀ m root a0 perm ds t)
    (hfl : m.phys.freelist = d :: rest) (hrest : rest = t' ++ m''.phys.freelist) :
    m₀.phys.freelist.Perm (ds ++ [d] ++ (t ++ t') ++ m''.phys.freelist) :=
  perm_round hs.free hfl hrest

/-- **One round of `uvmalloc` that maps its page.**  The data page `d` comes off the head of the
free list and is zeroed (`ph`), the `walk` of `mappages` enters the pages `t'`, and the leaf of
`a` is stored: the state grows by `d` and `t'`. -/
theorem AllocState.step (hf : FreeOK m₀ root) (hs : AllocState m₀ m root a0 perm ds t)
    (ha : a.toNat = a0.toNat + ds.length * PGSIZE) (hva : UserPage a)
    (hfl : m.phys.freelist = d :: rest) (hph : ph.freelist = rest)
    (hmem : ∀ x, x ≠ d → ph.mem x = m.phys.mem x) (hzero : ph.mem d = List.replicate PGSIZE 0)
    (hg : Grows { m with phys := ph } m'' root t') {dd : ℕ}
    (hdd : node m'' root [PX 2 a, PX 1 a] = some dd) :
    AllocState m₀ (m''.setPte dd (PX 0 a) (PA2PTE d.toUInt64 ||| perm ||| PTE_V)) root a0 perm
      (ds ++ [d]) (t ++ t') := by
  have hfree := hs.free_round hfl (by rw [← hph]; exact hg.free)
  -- `d` is none of the pages of the earlier rounds, and no page of `ds` or `d` is one of `t'`
  obtain ⟨hdds, hd1⟩ := fresh_of_perm hf.nodup hfree
  -- the pages of this round were free in `m₀`
  have hwas : ∀ x, x ∈ ds ++ [d] ++ (t ++ t') → x ∈ m₀.phys.freelist := fun x hx =>
    hfree.mem_iff.2 (List.mem_append_left _ hx)
  have hnode : node (m''.setPte dd (PX 0 a) (PA2PTE d.toUInt64 ||| perm ||| PTE_V)) root =
      node m'' root := node_setPte_leaf hg.tree hdd _ _
  have hleaf : ∀ va, UserPage va → va ≠ a →
      leaf (m''.setPte dd (PX 0 a) (PA2PTE d.toUInt64 ||| perm ||| PTE_V)) root va =
        leaf m root va := fun va hva' hne => by
    rw [leaf_setPte hg.tree hdd hva _ hva', if_neg hne, hg.leaf_eq, leaf_phys]
  refine ⟨?_, fun x => ?_, hfree, fun va hva' h1 h2 => ?_, fun x hx => ?_, fun va hva' hout => ?_,
    fun h => (hg.dir (hs.dir h)).setPte_leaf hg.tree hdd _ _, fun i j k hi => ?_,
    fun pg hpg hpf => ?_, fun x hx => ?_⟩
  · intro p q x hp hq
    rw [hnode] at hp hq
    exact hg.tree p q x hp hq
  · rw [tablePage_congr hnode, hg.table, tablePage_phys, hs.table, List.mem_append, or_assoc]
  · simp only [List.length_append, List.length_singleton] at h2 ⊢
    by_cases hva_a : va = a
    · -- the page of this round
      subst hva_a
      rw [leaf_setPte hg.tree hdd hva _ hva', if_pos rfl, ha, Nat.add_sub_cancel_left,
        Nat.mul_div_cancel _ (by decide), List.getD_append_right _ _ _ _ le_rfl, Nat.sub_self]
      rfl
    · -- a page of an earlier round
      have hne : va.toNat ≠ a.toNat := fun e => hva_a (UInt64.toNat_inj.1 e)
      have hal' := hva.2
      rw [ha] at hne hal'
      -- both pages are aligned, so the one below `a` is a whole page below it
      have hlt : va.toNat < a0.toNat + ds.length * PGSIZE := by
        refine lt_of_aligned hva'.2 hal' ?_ hne
        rwa [Nat.add_assoc, ← Nat.add_one_mul]
      have hi : (va.toNat - a0.toNat) / PGSIZE < ds.length := by
        simp only [PGSIZE] at hlt ⊢
        omega
      rw [hleaf va hva' hva_a, hs.data va hva' h1 hlt, List.getD_append _ _ _ _ hi]
  · -- the data pages are zeroed, and no later round writes them
    have hxt : x ∉ t' := hd1 x hx
    simp only [Mem.setPte]
    rw [hg.mem x hxt]
    rcases List.mem_append.1 hx with hx | hx
    · have hxd : x ≠ d := fun e => hdds (e ▸ hx)
      rw [hmem x hxd]
      exact hs.zero x hx
    · rw [List.mem_singleton.1 hx]
      exact hzero
  · simp only [List.length_append, List.length_singleton, Nat.add_one_mul] at hout
    have hP : 0 < PGSIZE := by decide
    have hva_a : va ≠ a := by
      rintro rfl
      rw [ha] at hout
      omega
    rw [hleaf va hva' hva_a]
    exact hs.other va hva' (by omega)
  · rw [slot_setPte_high hg.tree hdd hva.1 _ hi, hg.slot, slot_phys]
    exact hs.high i j k hi
  · -- a page outside the table and the free list: neither `dd` nor a page of a `walk`
    have hpt : pg ∉ t ++ t' := fun h => hpf (hwas pg (List.mem_append_right _ h))
    have hnm : ¬ TablePage m root pg := by
      rw [hs.table]
      exact fun h => h.elim hpg fun h' => hpt (List.mem_append_left _ h')
    have hne : pg ≠ dd := by
      rintro rfl
      rcases (hg.table pg).1 ⟨_, hdd⟩ with h | h
      · exact hnm h
      · exact hpt (List.mem_append_right _ h)
    rw [setPte_ptes, if_neg hne, hg.ptes pg hnm fun h => hpt (List.mem_append_right _ h)]
    exact hs.ptes pg hpg hpf
  · have hxd : x ≠ d := fun e => hx (hwas x (by simp [e]))
    rw [setPte_phys, hg.mem x fun h => hx (hwas x (by simp [h]))]
    exact (hmem x hxd).trans (hs.mem x hx)

/-- A round whose `walk` runs out of pages: with `d` freed again, the state is that of the rounds
before, grown by the pages `t'` that the `walk` entered. -/
theorem AllocState.walkFailed (hf : FreeOK m₀ root) (hs : AllocState m₀ m root a0 perm ds t)
    (hfl : m.phys.freelist = d :: rest) (hph : ph.freelist = rest)
    (hmem : ∀ x, x ≠ d → ph.mem x = m.phys.mem x) (hg : Grows { m with phys := ph } m'' root t')
    (hempty : m''.phys.freelist = []) :
    AllocState m₀ { m'' with phys := kfree m''.phys d } root a0 perm ds (t ++ t') := by
  have hfree := hs.free_round hfl (by rw [← hph]; exact hg.free)
  obtain ⟨hdds, hd1⟩ := fresh_of_perm hf.nodup hfree
  have hwas : ∀ x, x ∈ ds ++ [d] ++ (t ++ t') → x ∈ m₀.phys.freelist := fun x hx =>
    hfree.mem_iff.2 (List.mem_append_left _ hx)
  have hleaf : leaf { m'' with phys := kfree m''.phys d } root = leaf m root := by
    rw [leaf_phys, hg.leaf_eq, leaf_phys]
  refine ⟨fun p q x hp hq => hg.tree p q x hp hq, fun x => ?_, ?_, fun va hva h1 h2 => ?_,
    fun x hx => ?_, fun va hva hout => ?_, fun h => hg.dir (hs.dir h), fun i j k hi => ?_,
    fun pg hpg hpf => ?_, fun x hx => ?_⟩
  · rw [tablePage_phys, hg.table, tablePage_phys, hs.table, List.mem_append, or_assoc]
  · -- `d` is back on the free list, alone
    refine hfree.trans (List.perm_iff_count.2 fun x => ?_)
    simp only [kfree_freelist, hempty, List.count_append, List.count_cons, List.count_nil]
    omega
  · rw [hleaf]
    exact hs.data va hva h1 h2
  · have hxt : x ∉ t' := hd1 x (List.mem_append_left _ hx)
    have hxd : x ≠ d := fun e => hdds (e ▸ hx)
    simp only [kfree, Function.update_of_ne hxd]
    rw [hg.mem x hxt, hmem x hxd]
    exact hs.zero x hx
  · rw [hleaf]
    exact hs.other va hva hout
  · rw [slot_phys, hg.slot, slot_phys]
    exact hs.high i j k hi
  · have hpt : pg ∉ t ++ t' := fun h => hpf (hwas pg (List.mem_append_right _ h))
    have hnm : ¬ TablePage m root pg := by
      rw [hs.table]
      exact fun h => h.elim hpg fun h' => hpt (List.mem_append_left _ h')
    exact (hg.ptes pg hnm fun h => hpt (List.mem_append_right _ h)).trans (hs.ptes pg hpg hpf)
  · have hxd : x ≠ d := fun e => hx (hwas x (by simp [e]))
    simp only [kfree, Function.update_of_ne hxd]
    rw [hg.mem x fun h => hx (hwas x (by simp [h]))]
    exact (hmem x hxd).trans (hs.mem x hx)

end Step

/-- `uvmalloc` failed from `m₀` and left `m`: the tree has grown by the pages `t`, every other page
it took is back on the free list, and each leaf is as it was or, if it was not valid, cleared. -/
structure AllocFailed (m₀ m : Mem) (root : ℕ) (t : List ℕ) : Prop where
  tree : Tree m root
  table : ∀ x, TablePage m root x ↔ TablePage m₀ root x ∨ x ∈ t
  free : m₀.phys.freelist.Perm (t ++ m.phys.freelist)
  leaves : ∀ va, UserPage va → leaf m root va = leaf m₀ root va ∨
    (leaf m root va = 0 ∧ leaf m₀ root va &&& PTE_V = 0)
  dir : DirOK m₀ root → DirOK m root
  high : ∀ i j k, 256 ≤ i.val → slot m root i j k = slot m₀ root i j k
  ptes : ∀ pg, ¬ TablePage m₀ root pg → pg ∉ m₀.phys.freelist → m.ptes pg = m₀.ptes pg
  mem : ∀ x, x ∉ m₀.phys.freelist → m.phys.mem x = m₀.phys.mem x

section Dealloc

variable {m₀ m : Mem} {root : ℕ} {a0 xperm : UInt64} {ds t : List ℕ}

/-- **The clean-up of `uvmalloc`.**  When the loop fails at the page `a`, after mapping the pages
`ds` from `a0` on, `uvmdealloc(pagetable, a, oldsz)` unmaps them and frees them: of the pages taken
from the free list only those entered in the tree are missing from it. -/
theorem AllocState.dealloc (hf : FreeOK m₀ root)
    (hs : AllocState m₀ m root a0 (PTE_R ||| PTE_U ||| xperm) ds t) (hx : xperm.toNat < 2 ^ 10)
    (ha0 : a0.toNat % PGSIZE = 0) {a : UInt64} (ha : a.toNat = a0.toNat + ds.length * PGSIZE)
    (hmax : a.toNat ≤ 2 ^ 38)
    (hfree : ∀ va, UserPage va → a0.toNat ≤ va.toNat → va.toNat < a.toNat →
      leaf m₀ root va &&& PTE_V = 0) :
    ∃ m' sz, uvmdealloc m root a a0 = some (m', sz) ∧ AllocFailed m₀ m' root t := by
  have hcount : ∀ l : List ℕ, m₀.phys.freelist.Perm (t ++ (ds.reverse ++ l)) ↔
      m₀.phys.freelist.Perm (ds ++ t ++ l) := fun l => by
    constructor <;> intro h <;> refine h.trans (List.perm_iff_count.2 fun x => ?_) <;>
      simp only [List.count_append, List.count_reverse] <;> omega
  rcases Nat.eq_zero_or_pos ds.length with hlen | hlen
  · -- nothing was mapped: `uvmdealloc` returns at once
    have hge : a0 ≥ a := by
      rw [ge_iff_le, UInt64.le_iff_toNat_le, ha, hlen]
      omega
    refine ⟨m, a, by simp [uvmdealloc, hge], hs.tree, hs.table, ?_, fun va hva => .inl ?_, hs.dir,
      hs.high, hs.ptes, hs.mem⟩
    · rw [List.length_eq_zero_iff.1 hlen] at hs
      simpa using hs.free
    · exact hs.other va hva (by rw [hlen]; omega)
  · -- `uvmunmap` of the `ds.length` pages from `a0`, on the flattened table
    have hal : a.toNat % PGSIZE = 0 := by
      rw [ha]
      simp only [PGSIZE] at ha0 ⊢
      omega
    have hlt : ¬ a0 ≥ a := by
      rw [ge_iff_le, UInt64.le_iff_toNat_le, ha]
      simp only [PGSIZE]
      omega
    have hnpages : (a - a0).toNat / PGSIZE = ds.length := by
      rw [UInt64.toNat_sub_of_le _ _ (by rw [UInt64.le_iff_toNat_le, ha]; omega), ha]
      simp only [PGSIZE]
      omega
    obtain ⟨vm', hrun, -, hfl, hmemf, hpt⟩ := @uvmunmapLoop_leaves ds (flat m root 0) a0 ha0
      (by rw [← ha]; exact hmax) fun va hva h1 h2 => by
        have hi : (va.toNat - a0.toNat) / PGSIZE < ds.length := by
          simp only [PGSIZE] at h2 ⊢
          omega
        simp only [flat]
        rw [hs.data va hva h1 h2]
        exact dataLeaf (hs.pageAddr hf hi) hx
    have hflat : Kernel.uvmdealloc (flat m root 0) a a0 = some (vm', a0) := by
      rw [Kernel.uvmdealloc, if_neg hlt, PGROUNDUP_of_aligned hal, PGROUNDUP_of_aligned ha0,
        if_pos (by rw [UInt64.lt_iff_toNat_lt, ha]; simp only [PGSIZE]; omega)]
      simp only [hnpages, hrun, Option.map_some]
    have hrel := uvmdealloc_refines (refines_flat hs.tree 0) a a0
    rw [hflat] at hrel
    generalize hu : uvmdealloc m root a a0 = u at hrel
    obtain ⟨⟨m', sz⟩, rfl, ⟨href, hnode⟩, -⟩ : ∃ r, u = some r ∧
        (Refines r.1 root vm' ∧ node r.1 root = node m root) ∧ r.2 = a0 := by
      cases hrel with
      | some h => exact ⟨_, rfl, h⟩
    refine ⟨m', sz, rfl, href.tree, fun x => by rw [tablePage_congr hnode, hs.table], ?_,
      fun va hva => ?_, fun h => (hs.dir h).uvmdealloc hs.tree hu,
      fun i j k hi => (uvmdealloc_slot_high hs.tree hu hi j k).trans (hs.high i j k hi),
      fun pg hpg hpf => ?_, fun x hx => ?_⟩
    · rw [href.phys, hfl]
      exact (hcount _).2 hs.free
    · rw [href.leaves va hva, hpt va hva]
      split_ifs with hin
      · -- a page of the range: cleared, and it was not valid before
        exact .inr ⟨rfl, hfree va hva hin.1 (by rw [ha]; exact hin.2)⟩
      · exact .inl (hs.other va hva (by omega))
    · -- the pages it entered and the pages it freed were free in `m₀`
      have hnm : ¬ TablePage m root pg := by
        rw [hs.table]
        exact fun h => h.elim hpg fun h' => hpf (hs.free.mem_iff.2 (by simp [h']))
      rw [uvmdealloc_ptes hs.tree hu hnm]
      exact hs.ptes pg hpg hpf
    · rw [href.phys, hmemf x fun h => hx (hs.free.mem_iff.2 (by simp [h]))]
      exact hs.mem x hx

end Dealloc

/-! ### `uvmalloc` -/

/-- What `uvmalloc` from `m₀`, for the pages from `a0` up to `newsz`, ends with. -/
inductive Allocated (m₀ : Mem) (root : ℕ) (a0 newsz perm : UInt64) : Mem × UInt64 → Prop
  /-- Every page up to `newsz` mapped, and `newsz` returned. -/
  | ok {m : Mem} {ds t : List ℕ} : AllocState m₀ m root a0 perm ds t →
      newsz.toNat ≤ a0.toNat + ds.length * PGSIZE →
      a0.toNat + ds.length * PGSIZE < newsz.toNat + PGSIZE →
      Allocated m₀ root a0 newsz perm (m, newsz)
  /-- A failure, cleaned up, and `0` returned. -/
  | failed {m : Mem} {t : List ℕ} : AllocFailed m₀ m root t → Allocated m₀ root a0 newsz perm (m, 0)

/-- The free list after `kalloc` has taken its head. -/
theorem FreeOK.kalloc {m : Mem} {root d : ℕ} {rest : List ℕ} {ph : Phys} (hf : FreeOK m root)
    (hfl : m.phys.freelist = d :: rest) (hph : ph.freelist = rest) :
    FreeOK { m with phys := ph } root where
  nodup := by
    have := hf.nodup
    rw [hfl] at this
    exact hph ▸ (List.nodup_cons.1 this).2
  addr p hp := hf.addr p (by rw [hfl]; exact List.mem_cons_of_mem _ (hph ▸ hp))
  not_table p hp := hf.not_table p (by rw [hfl]; exact List.mem_cons_of_mem _ (hph ▸ hp))

section Loop

variable {m₀ : Mem} {root : ℕ} {a0 newsz xperm : UInt64}

/-- **The loop of `uvmalloc`.**  From a state of the rounds so far at the page `a`, with fuel for
the pages up to `newsz`, every leaf of which is not valid yet, the loop maps them all or fails
and cleans up: it never stops the kernel. -/
theorem uvmallocLoop_spec (hf : FreeOK m₀ root) (hx : xperm.toNat < 2 ^ 10)
    (ha0 : a0.toNat % PGSIZE = 0) (hnew : newsz.toNat ≤ 2 ^ 38)
    (hfree : ∀ va, UserPage va → a0.toNat ≤ va.toNat → va.toNat < newsz.toNat →
      leaf m₀ root va &&& PTE_V = 0) (k : ℕ) :
    ∀ {m : Mem} {ds t : List ℕ} {a : UInt64},
      AllocState m₀ m root a0 (PTE_R ||| PTE_U ||| xperm) ds t →
      a.toNat = a0.toNat + ds.length * PGSIZE → a.toNat < newsz.toNat + PGSIZE →
      newsz.toNat ≤ a.toNat + k * PGSIZE →
      ∃ r, uvmallocLoop root a0 newsz xperm k m a = some r ∧
        Allocated m₀ root a0 newsz (PTE_R ||| PTE_U ||| xperm) r := by
  induction k with
  | zero =>
    intro m ds t a hs ha hlt hk
    exact ⟨_, rfl, .ok hs (by omega) (by omega)⟩
  | succ k ih =>
    intro m ds t a hs ha hlt hk
    by_cases hnext : a < newsz
    · -- a round: `a` is a user page, and its leaf is not valid yet
      have hlt' : a.toNat < newsz.toNat := UInt64.lt_iff_toNat_lt.1 hnext
      have hal : a.toNat % PGSIZE = 0 := by
        rw [ha]
        simp only [PGSIZE] at ha0 ⊢
        omega
      have hva : UserPage a := UserPage.of_toNat (by omega) hal
      -- the clean-up `uvmdealloc(pagetable, a, oldsz)`, from a state of the rounds so far
      have hfail : ∀ {m t}, AllocState m₀ m root a0 (PTE_R ||| PTE_U ||| xperm) ds t →
          ∃ r, (uvmdealloc m root a a0).map (fun r => (r.1, (0 : UInt64))) = some r ∧
            Allocated m₀ root a0 newsz (PTE_R ||| PTE_U ||| xperm) r := fun hs => by
        obtain ⟨m', sz, hd, hfl⟩ := hs.dealloc hf hx ha0 ha (by omega)
          fun va hva h1 h2 => hfree va hva h1 (by omega)
        exact ⟨(m', 0), by rw [hd]; rfl, .failed hfl⟩
      cases hfl : m.phys.freelist with
      | nil =>
        -- `kalloc` fails
        obtain ⟨r, hr, hres⟩ := hfail hs
        refine ⟨r, ?_, hres⟩
        simp only [uvmallocLoop, if_pos hnext, kalloc_nil hfl, if_true]
        exact hr
      | cons d rest =>
        have hd : PageAddr d := (hs.freeOK hf).addr d (by rw [hfl]; exact List.mem_cons_self)
        set ph : Phys := ⟨rest, Function.update (Function.update m.phys.mem d
          (List.replicate PGSIZE 5)) d (List.replicate PGSIZE 0)⟩ with hph
        have hmem : ∀ x, x ≠ d → ph.mem x = m.phys.mem x := fun x hx => by
          simp only [ph, Function.update_of_ne hx]
        have hleaf : leaf { m with phys := ph } root a &&& PTE_V = 0 := by
          rw [leaf_phys, hs.other a hva (.inr ha.ge)]
          exact hfree a hva (by omega) hlt'
        obtain ⟨m'', t', hg, ⟨dd, hdd, hmap⟩ | ⟨hmap, hempty⟩⟩ :=
          @mappages_page { m with phys := ph } root a d.toUInt64 (PTE_R ||| PTE_U ||| xperm)
            ((hs.freeOK hf).kalloc hfl rfl) hs.tree hva.1 hal hleaf
        · -- the page is mapped: the next round, from `a + PGSIZE`
          have hs' := hs.step hf ha hva hfl rfl hmem (by simp [ph]) hg hdd
          have hnext' := hva.toNat_add
          obtain ⟨r, hr, hres⟩ := ih hs'
            (by rw [hnext', ha, List.length_append, List.length_singleton, Nat.add_one_mul]; omega)
            (by omega) (by rw [Nat.add_one_mul] at hk; omega)
          refine ⟨r, ?_, hres⟩
          simp only [uvmallocLoop, if_pos hnext, kalloc_cons hfl, if_neg hd.1.ne']
          rw [hmap]
          exact hr
        · -- `walk` ran out of pages: `d` is freed, then the clean-up
          obtain ⟨r, hr, hres⟩ := hfail (hs.walkFailed hf hfl rfl hmem hg hempty)
          refine ⟨r, ?_, hres⟩
          simp only [uvmallocLoop, if_pos hnext, kalloc_cons hfl, if_neg hd.1.ne']
          rw [hmap]
          exact hr
    · -- the loop ends: `a` has reached `newsz`
      have hge : newsz.toNat ≤ a.toNat := by
        rw [UInt64.lt_iff_toNat_lt] at hnext
        omega
      refine ⟨(m, newsz), ?_, .ok hs (by omega) (by omega)⟩
      rw [uvmallocLoop, if_neg hnext]

/-- **`uvmalloc`** of the pages from `oldsz`, rounded up, to `newsz` below `MAXVA`, none of them
mapped yet: it maps each to a page of its own, taken from the free list and zeroed, and returns
`newsz`, or it fails, cleans up and returns `0`. It never stops the kernel. -/
theorem uvmalloc_spec {m : Mem} {oldsz : UInt64} (hf : FreeOK m root) (ht : Tree m root)
    (hx : xperm.toNat < 2 ^ 10) (hle : oldsz ≤ newsz) (hnew : newsz.toNat ≤ 2 ^ 38)
    (hfree : ∀ va, UserPage va → (PGROUNDUP oldsz).toNat ≤ va.toNat → va.toNat < newsz.toNat →
      leaf m root va &&& PTE_V = 0) :
    ∃ r, uvmalloc m root oldsz newsz xperm = some r ∧
      Allocated m root (PGROUNDUP oldsz) newsz (PTE_R ||| PTE_U ||| xperm) r := by
  have hold : oldsz.toNat ≤ newsz.toNat := UInt64.le_iff_toNat_le.1 hle
  have hup : (PGROUNDUP oldsz).toNat = (oldsz.toNat + 4095) / 4096 * 4096 :=
    PGROUNDUP_toNat (by omega)
  rw [uvmalloc, if_neg (UInt64.not_lt.2 hle)]
  -- the loop starts at the rounded-up size, with fuel for every page up to `newsz`
  exact uvmallocLoop_spec hf hx (PGROUNDUP_aligned oldsz) hnew hfree _ (AllocState.init ht)
    (by simp) (by rw [hup]; simp only [PGSIZE]; omega) (by rw [hup]; simp only [PGSIZE]; omega)

end Loop

end Sv39

end Kernel

end Xv6Net
