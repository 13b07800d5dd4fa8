import Xv6Net.Kernel.AddrSpace
import Xv6Net.Kernel.Uvmcopy

/-!
# The memory of `fork` (`proc.c`)

`kfork` takes a new process with `allocproc`, copies the parent's user memory into the child's page
table with `uvmcopy`, and frees the child with `freeproc` when that runs out of memory; the child's
size is the parent's.

* `Space.restored` : a memory that gives back the memory `m` keeps every `Space` of `m`, so a
  process's table is not disturbed by the whole life of another.
* `Space.copyPre`, `Space.copied` : the parent's table and the child's fresh one are what
  `uvmcopy` expects, and a `uvmcopy` that copied every page leaves the child's table a `Space` at
  the parent's size.
* `kfork_spec` : from a parent whose table is a `Space`, `kfork` never stops the kernel; it gives
  back the memory, or makes a live child that maps a copy of each of the parent's pages
  (`Copies`).
* `fork_child_life` : after the child's whole life, any run of `growproc` calls and `freeproc`,
  the memory from before the fork is given back and the parent is live as before.

The saved registers that `kfork` copies into the child's trapframe page, the open files, `cwd`,
the name, and the pid, parent and state of the child are not part of this model; the process table
is the subject of `Xv6Net.Kernel.Lifecycle`.
-/

namespace Xv6Net

namespace Kernel

namespace Sv39

open Bytes

/-- `kfork()` by a process with the page table `pagetable` and the size `sz`, its memory:
`allocproc`, then `uvmcopy` of the parent's pages into the child's table, and `freeproc` of the
child when that fails; the child gets the parent's `p->sz`. -/
def kfork (m : Mem) (trampoline : UInt64) (pagetable : ℕ) (sz : UInt64) :
    Option (Mem × Option ProcMem) :=
  (allocproc m trampoline).bind fun (m, o) =>
    match o with
    | none => some (m, none)
    | some np =>
      (uvmcopy m pagetable np.pagetable sz).bind fun (m, r) =>
        if r < 0 then (freeproc m np).map fun m => (m, none)
        else some (m, some { np with sz := sz })

/-- The child's table `new` in `m'` maps a copy of each page below `sz` that the parent's table
`old` maps in `m`: with the parent's flags, to a page that was free in `m` and holds the bytes of
the parent's page. -/
def Copies (m m' : Mem) (old : ℕ) (sz : UInt64) (new : ℕ) : Prop :=
  ∀ va, UserPage va → va.toNat < sz.toNat → leaf m old va &&& PTE_V ≠ 0 →
    ∃ d ∈ m.phys.freelist,
      leaf m' new va = PA2PTE d.toUInt64 ||| (leaf m old va &&& 0x3FF) ||| PTE_V ∧
      m'.phys.mem d = slice (m.phys.mem (PTE2PA (leaf m old va)).toNat) 0 PGSIZE

/-! ### The pages of a table -/

section Owned

variable {m₀ m m' : Mem} {root : ℕ} {sz : UInt64} {K : List UInt64}

theorem slot_eq_of_ptes (h : ∀ pg, TablePage m root pg → m'.ptes pg = m.ptes pg) :
    slot m' root = slot m root := by
  funext i j k
  simp only [slot, node_eq_of_ptes h]
  cases hd : node m root [i, j] with
  | none => rfl
  | some d => exact congrFun (h d ⟨_, hd⟩) k

/-- The leaves of the first `ps.length` pages, read off what each page maps. -/
theorem leafPages_eq {ps : List (Option ℕ)} (hn : ps.length * PGSIZE ≤ 2 ^ 38)
    (h : ∀ va, UserPage va → va.toNat < ps.length * PGSIZE →
      PteMaps (leaf m root va) (ps.getD (va.toNat / PGSIZE) none)) :
    leafPages m root ps.length = ps := by
  refine List.ext_getElem (by simp [leafPages]) fun i h₁ h₂ => ?_
  have hva : (i * PGSIZE).toUInt64.toNat = i * PGSIZE := by
    rw [Nat.toUInt64_eq, UInt64.toNat_ofNat', Nat.mod_eq_of_lt]
    simp only [PGSIZE] at hn h₂ ⊢
    omega
  have hlt : i * PGSIZE < ps.length * PGSIZE := Nat.mul_lt_mul_of_pos_right h₂ (by decide)
  have hpage : UserPage (i * PGSIZE).toUInt64 :=
    UserPage.of_toNat (by omega) (by rw [hva]; exact Nat.mul_mod_left _ _)
  have hp := h _ hpage (by rw [hva]; exact hlt)
  rw [hva, Nat.mul_div_cancel _ (by decide), List.getD_eq_getElem _ _ h₂] at hp
  simp only [leafPages, List.getElem_map, List.getElem_range]
  cases hpi : ps[i] with
  | none =>
    rw [hpi] at hp
    exact if_neg (not_not.2 hp)
  | some d =>
    rw [hpi] at hp
    rw [if_pos hp.1, hp.2.2]

/-- The pages a table owns are not free. -/
theorem Space.owned_not_free (hs : Space m₀ m root sz K) {x : ℕ}
    (hx : x ∈ ownedPages m root (npages sz)) : x ∉ m.phys.freelist := fun hf =>
  (List.nodup_append.1 (hs.account.nodup_iff.1 hs.nodup)).2.2 x hx x hf rfl

/-- The page of a valid leaf below `PGROUNDUP(sz)` is a page the table owns. -/
theorem mem_ownedPages_of_leaf {va : UInt64} (hva : UserPage va)
    (hlt : va.toNat < (PGROUNDUP sz).toNat) (hv : leaf m root va &&& PTE_V ≠ 0) :
    (PTE2PA (leaf m root va)).toNat ∈ ownedPages m root (npages sz) := by
  have hget := @leafPages_getD m root (npages sz) va hva.2 (by rw [npages_mul]; exact hlt)
  rw [if_pos hv] at hget
  exact List.mem_append_right _ (mem_reduceOption_of_getD hget)

/-- **A process's table outlives another process's whole life**: a memory that gives back `m`
keeps `Space`, since the table's pages were not free. -/
theorem Space.restored (hs : Space m₀ m root sz K) (hr : Restored m m') : Space m₀ m' root sz K := by
  have htab : ∀ pg, TablePage m root pg → m'.ptes pg = m.ptes pg := fun pg hpg =>
    hr.ptes pg fun h => hs.freeOK.not_table pg h hpg
  have hnode := node_eq_of_ptes htab
  have hleaf := leaf_eq_of_ptes htab
  refine ⟨hs.nodup, hs.addr, hs.tree.of_node hnode, hs.dir.congr hnode fun p x _ hx => htab x ⟨p, hx⟩,
    fun i j k hi => by rw [slot_eq_of_ptes htab]; exact hs.high i j k hi, hs.sz_le, hs.kernel,
    fun va hva hv => by rw [hleaf] at hv ⊢; exact hs.leaves va hva hv, ?_,
    fun pg hpg => (hr.ptes pg (hs.not_owned hpg).2).trans (hs.ptes pg hpg),
    fun x hx => (hr.mem x (hs.not_owned hx).2).trans (hs.mem x hx)⟩
  have hl : leafPages m' root (npages sz) = leafPages m root (npages sz) := by
    simp only [leafPages, hleaf]
  rw [ownedPages, tablePages_congr hnode, hl]
  exact hs.account.trans (hr.free.symm.append_left _)

end Owned

/-! ### Live processes -/

section Live

variable {m₀ m m' : Mem} {p : ProcMem}

/-- The pages a live process owns, and the free pages, were free before its `allocproc`. -/
theorem Live.mem_free (hl : Live m₀ m p) {x : ℕ}
    (hx : x ∈ ownedPages m p.pagetable (npages p.sz) ++ m.phys.freelist) : x ∈ m₀.phys.freelist := by
  obtain ⟨rest, hfl⟩ := List.head?_eq_some_iff.1 hl.trapframe
  have h := hl.space.account.mem_iff.2 hx
  rw [kalloc_cons hfl] at h
  rw [hfl]
  exact List.mem_cons_of_mem _ h

/-- A live process wrote no page that was in use before its `allocproc`. -/
theorem Live.frame (hl : Live m₀ m p) {x : ℕ} (hx : x ∉ m₀.phys.freelist) :
    m.ptes x = m₀.ptes x ∧ m.phys.mem x = m₀.phys.mem x := by
  obtain ⟨rest, hfl⟩ := List.head?_eq_some_iff.1 hl.trapframe
  have hx' : x ∉ ({ m₀ with phys := (kalloc m₀.phys).1 } : Mem).phys.freelist := by
    rw [kalloc_cons hfl]
    exact fun h => hx (by rw [hfl]; exact List.mem_cons_of_mem _ h)
  refine ⟨hl.space.ptes x hx', ?_⟩
  rw [hl.space.mem x hx', kalloc_cons hfl]
  rw [hfl] at hx
  exact Function.update_of_ne (ne_of_not_mem_cons hx) _ _

/-- A live process stays live through a memory that gives its memory back. -/
theorem Live.restored (hl : Live m₀ m p) (hr : Restored m m') : Live m₀ m' p :=
  { hl with space := hl.space.restored hr }

end Live

/-! ### `uvmcopy` from the parent into the child -/

section Copy

variable {m₀ m m₁ m₂ g : Mem} {old new : ℕ} {sz : UInt64} {K : List UInt64} {np : ProcMem}

/-- `allocproc` left the parent's table as it was: its pages were not free. -/
theorem Space.ptes_of_live (hs : Space m₀ m old sz K) (hl : Live m m₁ np) :
    ∀ pg, TablePage m old pg → m₁.ptes pg = m.ptes pg := fun pg hpg =>
  (hl.frame fun h => hs.freeOK.not_table pg h hpg).1

/-- What `kfork` calls `uvmcopy` on: the parent's table, a `Space` of size `sz` in the memory `m`
before the fork, and the empty table of the child that `allocproc` made from `m`. -/
theorem Space.copyPre (hs : Space m₀ m old sz K) (hl : Live m m₁ np) (h0 : np.sz = 0) :
    CopyPre m₁ old np.pagetable sz := by
  have hc := hl.space
  rw [h0] at hc
  have htab := hs.ptes_of_live hl
  have hold : ∀ x, TablePage m₁ old x ↔ TablePage m old x := tablePage_congr (node_eq_of_ptes htab)
  have hleaf := leaf_eq_of_ptes htab
  have hT := TRAPFRAME_toNat
  have hsz := hs.sz_le
  refine ⟨hc.freeOK, fun x hx hold' => ?_, hc.tree, fun x hold' hnew => ?_, fun va hva hlt => ?_,
    fun va hva hlt hv => ?_, by omega⟩
  · -- a page free after `allocproc` was free before, so not the parent's
    exact hs.freeOK.not_table x (hl.mem_free (List.mem_append_right _ hx)) ((hold x).1 hold')
  · -- the child's table pages were free before
    have hfree := hl.mem_free (List.mem_append_left _ (List.mem_append_left _
      (mem_tablePages.2 hnew)))
    exact hs.freeOK.not_table x hfree ((hold x).1 hold')
  · -- the child maps nothing yet below the kernel's pages
    refine hc.leaf_invalid hva (by rw [show (PGROUNDUP (0 : UInt64)).toNat = 0 by decide]; omega)
      fun hk => ?_
    have := (kernelPages va hk).2
    omega
  · -- the parent's leaf, and its page, which was in use
    rw [hleaf] at hv ⊢
    have hup : sz.toNat ≤ (PGROUNDUP sz).toNat := by
      rw [PGROUNDUP_toNat (by omega)]
      omega
    refine ⟨(hs.leaves va hva hv).1, fun hf => ?_⟩
    exact hs.owned_not_free (mem_ownedPages_of_leaf hva (by omega) hv)
      (hl.mem_free (List.mem_append_right _ hf))

/-- A `uvmcopy` that copied every page below `sz` leaves the child's table, a `Space` of size `0`
before, a `Space` of size `sz`: the copies are the pages of its new leaves. -/
theorem Space.copied (hs : Space g m₁ new 0 K) (hpre : CopyPre m₁ old new sz)
    {ps : List (Option ℕ)} {t : List ℕ} (hst : CopyState m₁ m₂ old new ps t)
    (h1 : sz.toNat ≤ ps.length * PGSIZE) (h2 : ps.length * PGSIZE < sz.toNat + PGSIZE)
    (hle : sz.toNat ≤ TRAPFRAME.toNat) : Space g m₂ new sz K := by
  have hT := TRAPFRAME_toNat
  have hup : (PGROUNDUP sz).toNat = ps.length * PGSIZE := by
    rw [PGROUNDUP_toNat (by omega)]
    simp only [PGSIZE] at h1 h2 ⊢
    omega
  have hnp : npages sz = ps.length := by rw [npages, hup, Nat.mul_div_cancel _ (by decide)]
  have h0 : (PGROUNDUP (0 : UInt64)).toNat = 0 := by decide
  -- below `PGROUNDUP(sz)` the child's leaves are what `ps` says
  have hmaps : ∀ va, UserPage va → va.toNat < ps.length * PGSIZE →
      PteMaps (leaf m₂ new va) (ps.getD (va.toNat / PGSIZE) none) := fun va hva hlt =>
    hst.pteMaps hpre hva hlt (by have := hva.2; simp only [PGSIZE] at this hlt h2 ⊢; omega)
  refine ⟨hs.nodup, hs.addr, hst.tree, hst.dir hs.dir,
    fun i j k hi => by rw [hst.high i j k hi]; exact hs.high i j k hi, hle, hs.kernel,
    fun va hva hv => ?_, ?_,
    fun pg hpg => (hst.ptes pg (hs.not_table hpg) (hs.not_owned hpg).2).trans (hs.ptes pg hpg),
    fun x hx => (hst.kept.mem x (hs.not_owned hx).2).trans (hs.mem x hx)⟩
  · by_cases hlt : va.toNat < ps.length * PGSIZE
    · -- a copy
      have hp := hmaps va hva hlt
      cases ho : ps.getD (va.toNat / PGSIZE) none with
      | none =>
        rw [ho] at hp
        exact absurd hp hv
      | some d =>
        rw [ho] at hp
        exact ⟨hp.2.1, .inl (by rw [hup]; exact hlt)⟩
    · -- above the copies: a kernel page, as before
      rw [hst.other va hva (Nat.le_of_not_lt hlt)] at hv ⊢
      exact (hs.leaves va hva hv).imp_right (Or.imp_left fun h => absurd h (by omega))
  · -- the table pages it entered, and the copies, came off the free list
    obtain ⟨hnd, hdisj⟩ := hs.freeOK.taken hst.free
    have hD : (leafPages m₂ new (npages sz)).reduceOption =
        (leafPages m₁ new (npages 0)).reduceOption ++ ps.reduceOption := by
      rw [hnp, leafPages_eq (by rw [← hup]; exact (PGROUNDUP_le_TRAPFRAME hle).trans (by omega))
        hmaps, show npages 0 = 0 by decide]
      simp [leafPages]
    exact perm_move hs.account (tablePages_perm hs.tree hst.tree hst.table hnd hdisj)
      (List.Perm.of_eq hD) hst.free

end Copy

/-! ### `kfork` -/

section Fork

variable {m₀ m : Mem} {p : ProcMem}

/-- **`kfork`** by a live process never stops the kernel: it runs out of memory and gives back the
memory it started from, or it makes a live child of the parent's size whose table maps a copy of
each of the parent's pages. -/
theorem kfork_spec (hp : Live m₀ m p) (trampoline : UInt64) :
    ∃ m' o, kfork m trampoline p.pagetable p.sz = some (m', o) ∧
      (o = none ∧ Restored m m' ∨
        ∃ np, o = some np ∧ np.sz = p.sz ∧ Live m m' np ∧ Copies m m' p.pagetable p.sz np.pagetable) := by
  have hs := hp.space
  obtain ⟨m₁, o, ha, ⟨rfl, hr⟩ | ⟨np, rfl, hsz0, hl⟩⟩ :=
    allocproc_spec hs.freeOK.nodup hs.freeOK.addr trampoline
  · -- no process
    exact ⟨m₁, none, by simp [Sv39.kfork, ha], .inl ⟨rfl, hr⟩⟩
  have hpre := hs.copyPre hl hsz0
  obtain ⟨⟨m₂, r⟩, hc, hcop⟩ := uvmcopy_spec hpre
  cases hcop with
  | ok hst h1 h2 =>
    -- every page copied: the child takes the parent's size
    have hc₁ : Space _ m₁ np.pagetable 0 _ := hsz0 ▸ hl.space
    have hl₂ : Live m m₂ { np with sz := p.sz } :=
      ⟨hl.nodup, hl.addr, hl.trapframe, hl.pagetable, hc₁.copied hpre hst h1 h2 hs.sz_le⟩
    refine ⟨m₂, some { np with sz := p.sz }, by simp [Sv39.kfork, ha, hc], .inr ⟨_, rfl, rfl, hl₂, ?_⟩⟩
    intro va hva hlt hv
    have hleaf := leaf_eq_of_ptes (hs.ptes_of_live hl)
    obtain ⟨d, hd, hmap, hmem⟩ := (Copied.ok hst h1 h2).copies rfl hva hlt (by rw [hleaf]; exact hv)
    rw [hleaf] at hmap hmem
    -- the parent's page was in use, so `allocproc` left its bytes
    have hup : p.sz.toNat ≤ (PGROUNDUP p.sz).toNat := by
      have := hs.sz_le
      rw [TRAPFRAME_toNat] at this
      rw [PGROUNDUP_toNat (by omega)]
      omega
    have hpa : (PTE2PA (leaf m p.pagetable va)).toNat ∈ ownedPages m p.pagetable (npages p.sz) :=
      mem_ownedPages_of_leaf hva (by omega) hv
    rw [(hl.frame (hs.owned_not_free hpa)).2] at hmem
    exact ⟨d, hl.mem_free (List.mem_append_right _ hd), hmap, hmem⟩
  | failed hf hk =>
    -- the copies freed: `freeproc` of the child gives back the rest
    have hl₂ : Live m m₂ np := { hl with space := hl.space.allocFailed hf }
    obtain ⟨m₃, hm₃, hr⟩ := hl₂.freeproc
    exact ⟨m₃, none, by simp [Sv39.kfork, ha, hc, hm₃], .inl ⟨rfl, hr⟩⟩

end Fork

/-- **A forked child's whole life leaves its parent as it was.**  `kfork` by a live process never
stops the kernel.  If it fails, the memory is given back.  If it succeeds, the child maps a copy
of each of the parent's pages; any run of `growproc` calls by the child that stays below
`TRAPFRAME`, then `freeproc`, never stops the kernel, gives back the memory from before the fork,
and leaves the parent live, its page table and its pages untouched. -/
theorem fork_child_life {m₀ m : Mem} {p : ProcMem} (hp : Live m₀ m p) (trampoline : UInt64)
    (ns : List ℤ) (hns : p.sz.toNat + (ns.map Int.toNat).sum ≤ TRAPFRAME.toNat) :
    ∃ m' o, kfork m trampoline p.pagetable p.sz = some (m', o) ∧ (o = none → Restored m m') ∧
      ∀ np, o = some np → Copies m m' p.pagetable p.sz np.pagetable ∧ ∃ c,
        (growMachine ⟨m', np.pagetable, np.sz⟩).run (growMachine ⟨m', np.pagetable, np.sz⟩).init ns =
          some c ∧
        ∃ m'', freeproc c.mem ⟨np.trapframe, c.pagetable, c.sz⟩ = some m'' ∧ Restored m m'' ∧
          Live m₀ m'' p := by
  obtain ⟨m', o, hk, ⟨rfl, hr⟩ | ⟨np, rfl, hsz, hl, hcopies⟩⟩ := kfork_spec hp trampoline
  · exact ⟨m', none, hk, fun _ => hr, fun np h => nomatch h⟩
  refine ⟨m', some np, hk, fun h => (nomatch h), fun np' h => ?_⟩
  cases h
  -- the child grows and shrinks from the parent's size, keeping `Space`
  obtain ⟨c, hrun, hpt, hc⟩ := growRun_space ⟨m', np.pagetable, np.sz⟩ ns ⟨m', np.pagetable, np.sz⟩
    hl.space (by rw [hsz]; exact hns)
  have hl' : Live m c.mem ⟨np.trapframe, c.pagetable, c.sz⟩ :=
    ⟨hl.nodup, hl.addr, hl.trapframe, by rw [hpt]; exact hl.pagetable, hc⟩
  obtain ⟨m'', hfree, hr⟩ := hl'.freeproc
  exact ⟨hcopies, c, hrun, m'', hfree, hr, hp.restored hr⟩

/-- Eight free pages: a process of size `0` from `allocproc`, whose child grows by one page. -/
theorem fork_child_life_eight_pages :
    let m₀ : Mem :=
      ⟨fun _ _ => 0, ⟨[4096, 8192, 12288, 16384, 20480, 24576, 28672, 32768], fun _ => []⟩⟩
    ∃ m p, allocproc m₀ 0 = some (m, some p) ∧ Live m₀ m p ∧
      ∃ m' o, kfork m 0 p.pagetable p.sz = some (m', o) ∧ (o = none → Restored m m') ∧
        ∀ np, o = some np → Copies m m' p.pagetable p.sz np.pagetable ∧ ∃ c,
          (growMachine ⟨m', np.pagetable, np.sz⟩).run (growMachine ⟨m', np.pagetable, np.sz⟩).init
            [4096] = some c ∧
          ∃ m'', freeproc c.mem ⟨np.trapframe, c.pagetable, c.sz⟩ = some m'' ∧ Restored m m'' ∧
            Live m₀ m'' p := by
  intro m₀
  have haddr : ∀ x ∈ m₀.phys.freelist, PageAddr x := fun x hx => by
    simp only [m₀, List.mem_cons, List.not_mem_nil, or_false] at hx
    rcases hx with rfl | rfl | rfl | rfl | rfl | rfl | rfl | rfl <;>
      exact ⟨by decide, by decide, by decide⟩
  have hsome : ((allocproc m₀ 0).bind (·.2)).isSome = true := by decide
  obtain ⟨m, o, ha, ⟨rfl, -⟩ | ⟨p, rfl, hsz, hl⟩⟩ := allocproc_spec (by decide) haddr 0
  · simp [ha] at hsome
  refine ⟨m, p, ha, hl, fork_child_life hl 0 [4096] ?_⟩
  rw [hsz]
  decide

end Sv39

end Kernel

end Xv6Net
