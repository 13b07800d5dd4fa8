import Xv6Net.Kernel.Sv39

/-!
# `uvmcopy` on the three-level page table (`vm.c`)

`fork` gives the child a copy of the parent's memory with `uvmcopy(old, new, sz)`.  For each page
below `sz` that the parent maps, it takes a page from `kalloc`, copies the parent's page into it
and maps it in the child's page table with the parent's flags; the pages the parent does not map
(a missing directory, or an entry without `PTE_V`) are skipped.  When `kalloc`, or a `walk` of
`mappages`, runs out of pages, it unmaps and frees the pages copied so far and returns `-1`.

* `CopyPre` : what `uvmcopy` is called on: two page tables with no page in common, the child's
  with nothing mapped below `sz`, and every page that the parent maps in use.
* `CopyState`, `CopiedPage` : the loop after the pages below an address, page by page;
  `CopyState.skip`, `CopyState.step` and `CopyState.walkFailed` are its rounds, and
  `CopyState.fail` its error path, `uvmunmap(new, 0, i / PGSIZE, 1)`, which frees every copy.
* `uvmcopyLoop_spec`, `uvmcopy_spec` : `uvmcopy` never stops the kernel.  It returns `0` with
  every page of the parent copied (`Copied.copies`), or `-1` with the child's table as it was but
  for the directory pages it gained; either way the parent's table and the bytes of every page in
  use are as they were (`Copied.kept`).
-/

namespace Xv6Net

namespace Kernel

namespace Sv39

open Bytes

/-- What `uvmcopy(old, new, sz)` is called on: the child's table `new` with nothing mapped below
`sz` and no page in common with the parent's `old`, and every page that `old` maps below `sz` a
leaf (not a bare `PTE_V` entry) to a page in use. -/
structure CopyPre (m₀ : Mem) (old new : ℕ) (sz : UInt64) : Prop where
  free : FreeOK m₀ new
  freeOld : ∀ p ∈ m₀.phys.freelist, ¬ TablePage m₀ old p
  tree : Tree m₀ new
  disjoint : ∀ x, TablePage m₀ old x → ¬ TablePage m₀ new x
  empty : ∀ va, UserPage va → va.toNat < sz.toNat → leaf m₀ new va &&& PTE_V = 0
  leaves : ∀ va, UserPage va → va.toNat < sz.toNat → leaf m₀ old va &&& PTE_V ≠ 0 →
    leaf m₀ old va &&& 0x3FF ≠ PTE_V ∧ (PTE2PA (leaf m₀ old va)).toNat ∉ m₀.phys.freelist
  sz_le : sz.toNat ≤ 2 ^ 38

/-- The parent's side as it was: the entries of its page-table pages, and the bytes of every page
in use. -/
structure Kept (m₀ m : Mem) (old : ℕ) : Prop where
  ptes : ∀ pg, TablePage m₀ old pg → m.ptes pg = m₀.ptes pg
  mem : ∀ x, x ∉ m₀.phys.freelist → m.phys.mem x = m₀.phys.mem x

/-- What the loop has left at the page `va` of the child: nothing where the parent has no valid
PTE, and where it has, the copy `d` of the parent's page, mapped with the parent's flags. -/
def CopiedPage (m₀ m : Mem) (old new : ℕ) (va : UInt64) : Option ℕ → Prop
  | none => leaf m₀ old va &&& PTE_V = 0 ∧ leaf m new va = leaf m₀ new va
  | some d => leaf m₀ old va &&& PTE_V ≠ 0 ∧
      leaf m new va = PA2PTE d.toUInt64 ||| (leaf m₀ old va &&& 0x3FF) ||| PTE_V ∧
      m.phys.mem d = slice (m₀.phys.mem (PTE2PA (leaf m₀ old va)).toNat) 0 PGSIZE

/-- The loop of `uvmcopy` after the pages `ps` from `0`: `ps[i]` is the copy of the page `i`, if
the parent maps it.  The child's table has grown by the pages `t`; the copies and `t` came off the
free list, and the parent's side is as it was. -/
structure CopyState (m₀ m : Mem) (old new : ℕ) (ps : List (Option ℕ)) (t : List ℕ) : Prop where
  tree : Tree m new
  table : ∀ x, TablePage m new x ↔ TablePage m₀ new x ∨ x ∈ t
  kept : Kept m₀ m old
  free : m₀.phys.freelist.Perm (ps.reduceOption ++ t ++ m.phys.freelist)
  pages : ∀ va, UserPage va → va.toNat < ps.length * PGSIZE →
    CopiedPage m₀ m old new va (ps.getD (va.toNat / PGSIZE) none)
  other : ∀ va, UserPage va → ps.length * PGSIZE ≤ va.toNat → leaf m new va = leaf m₀ new va
  dir : DirOK m₀ new → DirOK m new
  high : ∀ i j k, 256 ≤ i.val → slot m new i j k = slot m₀ new i j k
  /-- Every page neither in the child's table nor free keeps its entries. -/
  ptes : ∀ pg, ¬ TablePage m₀ new pg → pg ∉ m₀.phys.freelist → m.ptes pg = m₀.ptes pg

/-- What `uvmcopy` from `m₀` ends with. -/
inductive Copied (m₀ : Mem) (old new : ℕ) (sz : UInt64) : Mem × ℤ → Prop
  /-- Every page below `sz` done, and `0` returned. -/
  | ok {m : Mem} {ps : List (Option ℕ)} {t : List ℕ} : CopyState m₀ m old new ps t →
      sz.toNat ≤ ps.length * PGSIZE → ps.length * PGSIZE < sz.toNat + PGSIZE →
      Copied m₀ old new sz (m, 0)
  /-- The copies freed, the parent as it was, and `-1` returned. -/
  | failed {m : Mem} {t : List ℕ} : AllocFailed m₀ m new t → Kept m₀ m old →
      Copied m₀ old new sz (m, -1)

/-! ### The pages of the loop -/

section Pages

variable {ps : List (Option ℕ)} {i va : UInt64}

theorem mem_reduceOption_of_getD {j d : ℕ} (h : ps.getD j none = some d) :
    d ∈ ps.reduceOption := by
  rw [List.getD_eq_getElem?_getD] at h
  rw [List.reduceOption_mem_iff]
  cases hj : ps[j]? with
  | none => rw [hj] at h; cases h
  | some o =>
    rw [hj, Option.getD_some] at h
    subst h
    exact List.mem_of_getElem? hj

/-- The pages below the next one are those below `i` and `i` itself. -/
theorem lt_or_eq_of_lt_succ (hi : i.toNat = ps.length * PGSIZE) (hva : UserPage va)
    (h : va.toNat < (ps.length + 1) * PGSIZE) : va.toNat < ps.length * PGSIZE ∨ va = i := by
  by_cases hne : va = i
  · exact .inr hne
  · have hal : i.toNat % PGSIZE = 0 := by rw [hi]; exact Nat.mul_mod_left _ _
    refine .inl (hi ▸ lt_of_aligned hva.2 hal ?_ fun e => hne (UInt64.toNat_inj.1 e))
    rwa [hi, ← Nat.add_one_mul]

theorem getD_snoc_of_lt {o : Option ℕ} (h : va.toNat < ps.length * PGSIZE) :
    (ps ++ [o]).getD (va.toNat / PGSIZE) none = ps.getD (va.toNat / PGSIZE) none :=
  List.getD_append _ _ _ _ (by simp only [PGSIZE] at h ⊢; omega)

theorem getD_snoc_self {o : Option ℕ} (hi : i.toNat = ps.length * PGSIZE) :
    (ps ++ [o]).getD (i.toNat / PGSIZE) none = o := by
  rw [hi, Nat.mul_div_cancel _ (by decide), List.getD_append_right _ _ _ _ le_rfl, Nat.sub_self]
  rfl

end Pages

section State

variable {m₀ m : Mem} {old new : ℕ} {sz : UInt64} {ps : List (Option ℕ)} {t : List ℕ}

theorem Kept.leaf (h : Kept m₀ m old) : leaf m old = leaf m₀ old := leaf_eq_of_ptes h.ptes

theorem CopyState.init (hpre : CopyPre m₀ old new sz) : CopyState m₀ m₀ old new [] [] where
  tree := hpre.tree
  table := by simp
  kept := ⟨fun _ _ => rfl, fun _ _ => rfl⟩
  free := by simp
  pages _ _ h := by simp at h
  other _ _ _ := rfl
  dir := id
  high _ _ _ _ := rfl
  ptes _ _ _ := rfl

/-- The pages still free are free as they were in `m₀`. -/
theorem CopyState.freeOK (hpre : CopyPre m₀ old new sz) (hs : CopyState m₀ m old new ps t) :
    FreeOK m new :=
  hpre.free.of_perm hs.free hs.table

/-- A page of the parent's table is no page of the child's, was never free, and is not free. -/
theorem CopyState.not_old (hpre : CopyPre m₀ old new sz) (hs : CopyState m₀ m old new ps t)
    {pg : ℕ} (hpg : TablePage m₀ old pg) : ¬ TablePage m new pg ∧ pg ∉ t := by
  have ht : pg ∉ t := fun h =>
    hpre.freeOld pg (hs.free.mem_iff.2 (List.mem_append_left _ (List.mem_append_right _ h))) hpg
  refine ⟨fun h => ?_, ht⟩
  rcases (hs.table pg).1 h with h | h
  · exact hpre.disjoint pg hpg h
  · exact ht h

/-- The pages done keep their state across a round that stores no leaf below them and writes none
of their copies. -/
theorem CopyState.pages_congr (hs : CopyState m₀ m old new ps t) {m' : Mem}
    (hleaf : ∀ va, UserPage va → va.toNat < ps.length * PGSIZE → leaf m' new va = leaf m new va)
    (hmem : ∀ d ∈ ps.reduceOption, m'.phys.mem d = m.phys.mem d) {va : UInt64} (hva : UserPage va)
    (h : va.toNat < ps.length * PGSIZE) :
    CopiedPage m₀ m' old new va (ps.getD (va.toNat / PGSIZE) none) := by
  have hc := hs.pages va hva h
  cases ho : ps.getD (va.toNat / PGSIZE) none with
  | none =>
    rw [ho] at hc
    exact ⟨hc.1, (hleaf va hva h).trans hc.2⟩
  | some d =>
    rw [ho] at hc
    exact ⟨hc.1, (hleaf va hva h).trans hc.2.1,
      (hmem d (mem_reduceOption_of_getD ho)).trans hc.2.2⟩

end State

/-! ### The rounds -/

section Round

variable {m₀ m m'' : Mem} {old new : ℕ} {sz : UInt64} {ps : List (Option ℕ)} {t t' : List ℕ}
  {i : UInt64} {d : ℕ} {rest : List ℕ} {ph : Phys}

/-- A round at a page that the parent does not map: nothing changes. -/
theorem CopyState.skip (hs : CopyState m₀ m old new ps t) (hi : i.toNat = ps.length * PGSIZE)
    (hinv : leaf m₀ old i &&& PTE_V = 0) : CopyState m₀ m old new (ps ++ [none]) t where
  tree := hs.tree
  table := hs.table
  kept := hs.kept
  free := by simpa [List.reduceOption_append] using hs.free
  pages va hva h := by
    rw [List.length_append, List.length_singleton] at h
    rcases lt_or_eq_of_lt_succ hi hva h with h | rfl
    · rw [getD_snoc_of_lt h]
      exact hs.pages va hva h
    · rw [getD_snoc_self hi]
      exact ⟨hinv, hs.other va hva hi.ge⟩
  other va hva h := by
    rw [List.length_append, List.length_singleton, Nat.add_one_mul] at h
    exact hs.other va hva (by omega)
  dir := hs.dir
  high := hs.high
  ptes := hs.ptes

/-- **A round that copies its page.**  The copy `d` comes off the head of the free list and holds
the parent's page (`ph`), the `walk` of `mappages` enters the pages `t'` in the child's table, and
the child's leaf of `i` maps `d` with the parent's flags. -/
theorem CopyState.step (hpre : CopyPre m₀ old new sz) (hs : CopyState m₀ m old new ps t)
    (hi : i.toNat = ps.length * PGSIZE) (hva : UserPage i) (hv : leaf m₀ old i &&& PTE_V ≠ 0)
    (hfl : m.phys.freelist = d :: rest) (hph : ph.freelist = rest)
    (hmem : ∀ x, x ≠ d → ph.mem x = m.phys.mem x)
    (hcopy : ph.mem d = slice (m₀.phys.mem (PTE2PA (leaf m₀ old i)).toNat) 0 PGSIZE)
    (hg : Grows { m with phys := ph } m'' new t') {dd : ℕ}
    (hdd : node m'' new [PX 2 i, PX 1 i] = some dd) :
    CopyState m₀ (m''.setPte dd (PX 0 i) (PA2PTE d.toUInt64 ||| (leaf m₀ old i &&& 0x3FF) ||| PTE_V))
      old new (ps ++ [some d]) (t ++ t') := by
  have hfree := perm_round hs.free hfl (by rw [← hph]; exact hg.free)
  -- `d` is none of the copies before, and neither `d` nor a copy is a page of the `walk`
  obtain ⟨hdds, hd1⟩ := fresh_of_perm hpre.free.nodup hfree
  have ht' : ∀ x ∈ t', x ∈ m₀.phys.freelist := fun x hx =>
    hfree.mem_iff.2 (by simp [hx])
  have hnode : node (m''.setPte dd (PX 0 i) (PA2PTE d.toUInt64 ||| (leaf m₀ old i &&& 0x3FF) |||
      PTE_V)) new = node m'' new := node_setPte_leaf hg.tree hdd _ _
  have hleaf : ∀ va, UserPage va → va ≠ i →
      leaf (m''.setPte dd (PX 0 i) (PA2PTE d.toUInt64 ||| (leaf m₀ old i &&& 0x3FF) ||| PTE_V))
        new va = leaf m new va := fun va hva' hne => by
    rw [leaf_setPte hg.tree hdd hva _ hva', if_neg hne, hg.leaf_eq, leaf_phys]
  -- the bytes of every page but `d` and those of the `walk`
  have hmem' : ∀ x, x ≠ d → x ∉ t' → (m''.setPte dd (PX 0 i) (PA2PTE d.toUInt64 |||
      (leaf m₀ old i &&& 0x3FF) ||| PTE_V)).phys.mem x = m.phys.mem x := fun x hxd hxt => by
    rw [setPte_phys, hg.mem x hxt]
    exact hmem x hxd
  refine ⟨fun p q x hp hq => hg.tree p q x (hnode ▸ hp) (hnode ▸ hq), fun x => ?_,
    ⟨fun pg hpg => ?_, fun x hx => ?_⟩, ?_, fun va hva' h => ?_, fun va hva' h => ?_,
    fun h => (hg.dir (hs.dir h)).setPte_leaf hg.tree hdd _ _, fun i' j k hi' => ?_,
    fun pg hpg hpf => ?_⟩
  · rw [tablePage_congr hnode, hg.table, tablePage_phys, hs.table, List.mem_append, or_assoc]
  · -- a page of the parent's table is neither `dd` nor one of the `walk`
    obtain ⟨hn, -⟩ := hs.not_old hpre hpg
    have hpt : pg ∉ t' := fun h => hpre.freeOld pg (ht' pg h) hpg
    have hne : pg ≠ dd := by
      rintro rfl
      rcases (hg.table pg).1 ⟨_, hdd⟩ with h | h
      · exact hn h
      · exact hpt h
    rw [setPte_ptes, if_neg hne, hg.ptes pg hn hpt]
    exact hs.kept.ptes pg hpg
  · have hxd : x ≠ d := fun e => hx (e ▸ hfree.mem_iff.2 (by simp))
    have hxt : x ∉ t' := fun h => hx (ht' x h)
    rw [hmem' x hxd hxt]
    exact hs.kept.mem x hx
  · rw [List.reduceOption_append, List.reduceOption_singleton, Option.toList_some]
    exact hfree
  · rw [List.length_append, List.length_singleton] at h
    rcases lt_or_eq_of_lt_succ hi hva' h with h | rfl
    · -- a page before: its leaf and its copy are where they were
      rw [getD_snoc_of_lt h]
      refine hs.pages_congr (fun va' hva'' hlt => hleaf va' hva'' ?_) (fun x hx => ?_) hva' h
      · rintro rfl
        omega
      · exact hmem' x (fun e => hdds (e ▸ hx)) (hd1 x (List.mem_append_left _ hx))
    · -- the page of this round
      rw [getD_snoc_self hi]
      refine ⟨hv, ?_, ?_⟩
      · rw [leaf_setPte hg.tree hdd hva _ hva', if_pos rfl]
      · rw [setPte_phys, hg.mem d (hd1 d (by simp))]
        exact hcopy
  · have hne : va ≠ i := by
      rintro rfl
      rw [List.length_append, List.length_singleton, Nat.add_one_mul] at h
      have : 0 < PGSIZE := by decide
      omega
    rw [hleaf va hva' hne]
    refine hs.other va hva' ?_
    rw [List.length_append, List.length_singleton, Nat.add_one_mul] at h
    omega
  · rw [slot_setPte_high hg.tree hdd hva.1 _ hi', hg.slot, slot_phys]
    exact hs.high i' j k hi'
  · -- a page outside the child's table and the free list: neither `dd` nor one of the `walk`
    have hpt : pg ∉ t' := fun h => hpf (ht' pg h)
    have hnm : ¬ TablePage m new pg := by
      rw [hs.table]
      exact fun h => h.elim hpg fun h' => hpf (hs.free.mem_iff.2 (by simp [h']))
    have hne : pg ≠ dd := by
      rintro rfl
      rcases (hg.table pg).1 ⟨_, hdd⟩ with h | h
      · exact hnm h
      · exact hpt h
    rw [setPte_ptes, if_neg hne, hg.ptes pg hnm hpt]
    exact hs.ptes pg hpg hpf

/-- A round whose `walk` runs out of pages: with `d` freed again, the state is that of the rounds
before, the child's table grown by the pages `t'` that the `walk` entered. -/
theorem CopyState.walkFailed (hpre : CopyPre m₀ old new sz) (hs : CopyState m₀ m old new ps t)
    (hfl : m.phys.freelist = d :: rest) (hph : ph.freelist = rest)
    (hmem : ∀ x, x ≠ d → ph.mem x = m.phys.mem x) (hg : Grows { m with phys := ph } m'' new t')
    (hempty : m''.phys.freelist = []) :
    CopyState m₀ { m'' with phys := kfree m''.phys d } old new ps (t ++ t') := by
  have hfree := perm_round hs.free hfl (by rw [← hph]; exact hg.free)
  obtain ⟨hdds, hd1⟩ := fresh_of_perm hpre.free.nodup hfree
  have ht' : ∀ x ∈ t', x ∈ m₀.phys.freelist := fun x hx =>
    hfree.mem_iff.2 (by simp [hx])
  have hleaf : leaf { m'' with phys := kfree m''.phys d } new = leaf m new := by
    rw [leaf_phys, hg.leaf_eq, leaf_phys]
  have hmem' : ∀ x, x ≠ d → x ∉ t' →
      ({ m'' with phys := kfree m''.phys d } : Mem).phys.mem x = m.phys.mem x := fun x hxd hxt => by
    simp only [kfree, Function.update_of_ne hxd]
    rw [hg.mem x hxt]
    exact hmem x hxd
  refine ⟨hg.tree, fun x => ?_, ⟨fun pg hpg => ?_, fun x hx => ?_⟩, ?_,
    fun va hva h => ?_, fun va hva h => ?_, fun h => hg.dir (hs.dir h), fun i j k hi => ?_,
    fun pg hpg hpf => ?_⟩
  · rw [tablePage_phys, hg.table, tablePage_phys, hs.table, List.mem_append, or_assoc]
  · obtain ⟨hn, -⟩ := hs.not_old hpre hpg
    rw [show ({ m'' with phys := kfree m''.phys d } : Mem).ptes = m''.ptes from rfl,
      hg.ptes pg hn fun h => hpre.freeOld pg (ht' pg h) hpg]
    exact hs.kept.ptes pg hpg
  · rw [hmem' x (fun e => hx (e ▸ hfree.mem_iff.2 (by simp))) fun h => hx (ht' x h)]
    exact hs.kept.mem x hx
  · -- `d` is back on the free list, alone
    refine hfree.trans (List.perm_iff_count.2 fun x => ?_)
    simp only [kfree_freelist, hempty, List.count_append, List.count_cons, List.count_nil]
    omega
  · exact hs.pages_congr (fun va' _ _ => congrFun hleaf va')
      (fun x hx => hmem' x (fun e => hdds (e ▸ hx)) (hd1 x (List.mem_append_left _ hx))) hva h
  · rw [hleaf]
    exact hs.other va hva h
  · rw [slot_phys, hg.slot, slot_phys]
    exact hs.high i j k hi
  · have hnm : ¬ TablePage m new pg := by
      rw [hs.table]
      exact fun h => h.elim hpg fun h' => hpf (hs.free.mem_iff.2 (by simp [h']))
    exact (hg.ptes pg hnm fun h => hpf (ht' pg h)).trans (hs.ptes pg hpg hpf)

end Round

/-! ### The error path -/

section Fail

variable {m₀ m : Mem} {old new : ℕ} {sz : UInt64} {ps : List (Option ℕ)} {t : List ℕ}
  {i : UInt64}

/-- The child's leaf of each page below `sz` that the loop has passed is what `ps` says: nothing
valid, or a leaf of the copy. -/
theorem CopyState.pteMaps (hpre : CopyPre m₀ old new sz) (hs : CopyState m₀ m old new ps t)
    {va : UInt64} (hva : UserPage va) (hlt : va.toNat < ps.length * PGSIZE)
    (hvsz : va.toNat < sz.toNat) : PteMaps (leaf m new va) (ps.getD (va.toNat / PGSIZE) none) := by
  have hc := hs.pages va hva hlt
  cases ho : ps.getD (va.toNat / PGSIZE) none with
  | none =>
    rw [ho] at hc
    show leaf m new va &&& PTE_V = 0
    rw [hc.2]
    exact hpre.empty va hva hvsz
  | some d =>
    rw [ho] at hc
    -- the parent's flags, which have `PTE_V` and another bit
    have hf : (leaf m₀ old va &&& 0x3FF).toNat < 2 ^ 10 := by
      rw [UInt64.toNat_and]
      exact Nat.lt_of_le_of_lt Nat.and_le_right (by decide)
    have hne : (leaf m₀ old va &&& 0x3FF) ||| PTE_V ≠ PTE_V := by
      rw [flags_or_PTE_V hc.1]
      exact (hpre.leaves va hva hvsz hc.1).1
    have hd : d ∈ m₀.phys.freelist := hs.free.mem_iff.2
      (List.mem_append_left _ (List.mem_append_left _ (mem_reduceOption_of_getD ho)))
    show PteMaps (leaf m new va) (some d)
    rw [hc.2.1]
    exact leafPte (hpre.free.addr d hd) hf hne

/-- **The error path of `uvmcopy`.**  `uvmunmap(new, 0, i / PGSIZE, 1)` clears the child's leaf
of every page copied so far and frees its copy: of the pages taken from the free list only those
entered in the child's table are missing from it, and the parent's side is as it was. -/
theorem CopyState.fail (hpre : CopyPre m₀ old new sz) (hs : CopyState m₀ m old new ps t)
    (hi : i.toNat = ps.length * PGSIZE) (hisz : i.toNat < sz.toNat) :
    ∃ m', uvmunmap m new 0 (i / PGSIZE.toUInt64).toNat true = some m' ∧
      AllocFailed m₀ m' new t ∧ Kept m₀ m' old := by
  have hsz := hpre.sz_le
  have hn : (i / PGSIZE.toUInt64).toNat = ps.length := by
    rw [UInt64.toNat_div, hi, show PGSIZE.toUInt64.toNat = PGSIZE by decide,
      Nat.mul_div_cancel _ (by decide)]
  -- every copy came off the free list, a page address
  have hds : ∀ x ∈ ps.reduceOption, x ∈ m₀.phys.freelist := fun x hx =>
    hs.free.mem_iff.2 (List.mem_append_left _ (List.mem_append_left _ hx))
  -- on the flattened table: the copies are leaves, every other page below `i` is not valid
  obtain ⟨vm', hrun, -, hfl, hmem, hpt⟩ := @uvmunmapLoop_holes ps (flat m new 0) 0 (by decide)
    (by rw [← hi]; simp only [UInt64.toNat_zero]; omega) fun va hva _ h2 => by
      simp only [UInt64.toNat_zero, Nat.zero_add, Nat.sub_zero] at h2 ⊢
      exact hs.pteMaps hpre hva h2 (by omega)
  have hrel := uvmunmapLoop_refines true ps.length (refines_flat hs.tree 0) (a := 0) (by decide)
  rw [hrun] at hrel
  generalize hu : uvmunmapLoop new true ps.length m 0 = u at hrel
  obtain ⟨m', rfl, href, hnode⟩ : ∃ m', u = some m' ∧ Refines m' new vm' ∧
      node m' new = node m new := by
    cases hrel with
    | some h => exact ⟨_, rfl, h⟩
  have hframe := (uvmunmapLoop_ptes true _ hs.tree hu).2
  refine ⟨m', by rw [uvmunmap, if_neg (by decide), hn]; exact hu,
    ⟨href.tree, fun x => by rw [tablePage_congr hnode, hs.table], ?_, fun va hva => ?_,
      fun h => (hs.dir h).uvmunmapLoop hs.tree hu,
      fun i j k hi => (uvmunmapLoop_slot_high true _ hs.tree hu hi j k).trans (hs.high i j k hi),
      fun pg hpg hpf => ?_, fun x hx => ?_⟩,
    ⟨fun pg hpg => ?_, fun x hx => ?_⟩⟩
  · rw [href.phys, hfl]
    refine hs.free.trans (List.perm_iff_count.2 fun x => ?_)
    simp only [flat, List.count_append, List.count_reverse]
    omega
  · rw [href.leaves va hva, hpt va hva]
    simp only [UInt64.toNat_zero, Nat.zero_le, true_and, Nat.zero_add, Nat.sub_zero]
    split_ifs with hin
    · -- a copy, cleared: the child had nothing there
      exact .inr ⟨rfl, hpre.empty va hva (by omega)⟩
    · show leaf m new va = leaf m₀ new va ∨ _
      by_cases hlt : va.toNat < ps.length * PGSIZE
      · have hc := hs.pages va hva hlt
        cases ho : ps.getD (va.toNat / PGSIZE) none with
        | none =>
          rw [ho] at hc
          exact .inl hc.2
        | some d =>
          rw [ho] at hin
          exact absurd ⟨hlt, rfl⟩ hin
      · exact .inl (hs.other va hva (Nat.le_of_not_lt hlt))
  · have hnm : ¬ TablePage m new pg := by
      rw [hs.table]
      exact fun h => h.elim hpg fun h' => hpf (hs.free.mem_iff.2 (by simp [h']))
    rw [hframe pg fun _ _ h => hnm ⟨_, h⟩]
    exact hs.ptes pg hpg hpf
  · rw [href.phys, hmem x fun h => hx (hds x h)]
    exact hs.kept.mem x hx
  · rw [hframe pg fun _ _ h => (hs.not_old hpre hpg).1 ⟨_, h⟩]
    exact hs.kept.ptes pg hpg
  · rw [href.phys, hmem x fun h => hx (hds x h)]
    exact hs.kept.mem x hx

end Fail

/-! ### `uvmcopy` -/

section Loop

variable {m₀ : Mem} {old new : ℕ} {sz : UInt64}

/-- **The loop of `uvmcopy`.**  From a state of the rounds so far at the page `i`, with fuel for
the pages up to `sz`, the loop copies them all or fails and cleans up: it never stops the
kernel. -/
theorem uvmcopyLoop_spec (hpre : CopyPre m₀ old new sz) (k : ℕ) :
    ∀ {m : Mem} {ps : List (Option ℕ)} {t : List ℕ} {i : UInt64},
      CopyState m₀ m old new ps t → i.toNat = ps.length * PGSIZE →
      i.toNat < sz.toNat + PGSIZE → sz.toNat ≤ i.toNat + k * PGSIZE →
      ∃ r, uvmcopyLoop old new sz k m i = some r ∧ Copied m₀ old new sz r := by
  induction k with
  | zero =>
    intro m ps t i hs hi hlt hk
    exact ⟨_, rfl, .ok hs (by omega) (by omega)⟩
  | succ k ih =>
    intro m ps t i hs hi hlt hk
    by_cases hnext : i < sz
    · have hlt' : i.toNat < sz.toNat := UInt64.lt_iff_toNat_lt.1 hnext
      have hal : i.toNat % PGSIZE = 0 := by rw [hi]; exact Nat.mul_mod_left _ _
      have hva : UserPage i := UserPage.of_toNat (by have := hpre.sz_le; omega) hal
      have hnext' := hva.toNat_add
      -- the error path, from a state of the rounds so far
      have hfail : ∀ {m t}, CopyState m₀ m old new ps t →
          ∃ r, (uvmunmap m new 0 (i / PGSIZE.toUInt64).toNat true).map (·, (-1 : ℤ)) = some r ∧
            Copied m₀ old new sz r := fun hs => by
        obtain ⟨m', hu, hf, hk⟩ := hs.fail hpre hi hlt'
        exact ⟨(m', -1), by rw [hu]; rfl, .failed hf hk⟩
      -- the rest of the loop, from the next page
      have hgo : ∀ {m o t}, CopyState m₀ m old new (ps ++ [o]) t →
          ∃ r, uvmcopyLoop old new sz k m (i + PGSIZE.toUInt64) = some r ∧
            Copied m₀ old new sz r := fun hs' => by
        rw [Nat.add_one_mul] at hk
        exact ih hs' (by rw [hnext', hi, List.length_append, List.length_singleton,
          Nat.add_one_mul]) (by omega) (by omega)
      have hwalk : walk m old i false = some (m, (node m old [PX 2 i, PX 1 i]).map (·, PX 0 i)) :=
        walk_false hva.1
      have hleafEq : leaf m old i = leaf m₀ old i := congrFun hs.kept.leaf i
      cases hd : node m old [PX 2 i, PX 1 i] with
      | none =>
        -- no level-0 page: the parent maps nothing here
        have hinv : leaf m₀ old i &&& PTE_V = 0 := by
          rw [← hleafEq, leaf_of_node_none hd]
          rfl
        obtain ⟨r, hr, hres⟩ := hgo (hs.skip hi hinv)
        refine ⟨r, ?_, hres⟩
        simp only [uvmcopyLoop, if_pos hnext, hwalk, hd, Option.map_none]
        exact hr
      | some pg =>
        have hpte : m.ptes pg (PX 0 i) = leaf m₀ old i := by
          rw [← hleafEq, leaf_of_node_some hd]
        by_cases hv : leaf m₀ old i &&& PTE_V = 0
        · obtain ⟨r, hr, hres⟩ := hgo (hs.skip hi hv)
          refine ⟨r, ?_, hres⟩
          simp only [uvmcopyLoop, if_pos hnext, hwalk, hd, Option.map_some, hpte, if_pos hv]
          exact hr
        -- a page of the parent: `kalloc`, copy, `mappages`
        have hpa := (hpre.leaves i hva hlt' hv).2
        cases hfl : m.phys.freelist with
        | nil =>
          obtain ⟨r, hr, hres⟩ := hfail hs
          refine ⟨r, ?_, hres⟩
          simp only [uvmcopyLoop, if_pos hnext, hwalk, hd, Option.map_some, hpte, if_neg hv,
            kalloc_nil hfl, if_true]
          exact hr
        | cons d rest =>
          have hdfree : d ∈ m₀.phys.freelist := hs.free.mem_iff.2 (by simp [hfl])
          have hdA : PageAddr d := hpre.free.addr d hdfree
          have hpad : (PTE2PA (leaf m₀ old i)).toNat ≠ d := fun e => hpa (e ▸ hdfree)
          set ph : Phys := ⟨rest, Function.update (Function.update m.phys.mem d
            (List.replicate PGSIZE 5)) d (slice (Function.update m.phys.mem d
              (List.replicate PGSIZE 5) (PTE2PA (leaf m₀ old i)).toNat) 0 PGSIZE)⟩ with hph
          have hmem : ∀ x, x ≠ d → ph.mem x = m.phys.mem x := fun x hx => by
            simp only [ph, Function.update_of_ne hx]
          have hcopy : ph.mem d = slice (m₀.phys.mem (PTE2PA (leaf m₀ old i)).toNat) 0 PGSIZE := by
            simp only [ph, Function.update_self, Function.update_of_ne hpad]
            rw [hs.kept.mem _ hpa]
          have hleafNew : leaf { m with phys := ph } new i &&& PTE_V = 0 := by
            rw [leaf_phys, hs.other i hva hi.ge]
            exact hpre.empty i hva hlt'
          obtain ⟨m'', t', hg, ⟨dd, hdd, hmap⟩ | ⟨hmap, hempty⟩⟩ :=
            @mappages_page { m with phys := ph } new i d.toUInt64 (leaf m₀ old i &&& 0x3FF)
              ((hs.freeOK hpre).kalloc hfl rfl) hs.tree hva.1 hal hleafNew
          · -- the copy is mapped: the next round
            obtain ⟨r, hr, hres⟩ := hgo (hs.step hpre hi hva hv hfl rfl hmem hcopy hg hdd)
            refine ⟨r, ?_, hres⟩
            simp only [uvmcopyLoop, if_pos hnext, hwalk, hd, Option.map_some, hpte, if_neg hv,
              kalloc_cons hfl, if_neg hdA.1.ne']
            rw [hmap]
            exact hr
          · -- `walk` ran out of pages: the copy is freed, then the error path
            obtain ⟨r, hr, hres⟩ := hfail (hs.walkFailed hpre hfl rfl hmem hg hempty)
            refine ⟨r, ?_, hres⟩
            simp only [uvmcopyLoop, if_pos hnext, hwalk, hd, Option.map_some, hpte, if_neg hv,
              kalloc_cons hfl, if_neg hdA.1.ne']
            rw [hmap]
            exact hr
    · -- the loop ends: `i` has reached `sz`
      have hge : sz.toNat ≤ i.toNat := by
        rw [UInt64.lt_iff_toNat_lt] at hnext
        omega
      exact ⟨(m, 0), by rw [uvmcopyLoop, if_neg hnext], .ok hs (by omega) (by omega)⟩

/-- **`uvmcopy`** from a memory as `fork` calls it on ends with every page copied, or with the
copies freed; it never stops the kernel. -/
theorem uvmcopy_spec (hpre : CopyPre m₀ old new sz) :
    ∃ r, uvmcopy m₀ old new sz = some r ∧ Copied m₀ old new sz r :=
  uvmcopyLoop_spec hpre _ (CopyState.init hpre) (by simp)
    (by simp only [UInt64.toNat_zero, PGSIZE]; omega)
    (by simp only [UInt64.toNat_zero, PGSIZE]; omega)

/-- Whichever way `uvmcopy` ends, the parent's table and the bytes of every page in use are as
they were. -/
theorem Copied.kept {r : Mem × ℤ} (h : Copied m₀ old new sz r) : Kept m₀ r.1 old := by
  cases h with
  | ok hs _ _ => exact hs.kept
  | failed _ hk => exact hk

/-- When `uvmcopy` returns `0`, every page below `sz` that the parent maps is mapped in the child,
with the parent's flags, to a page that was free and holds a copy of the parent's page. -/
theorem Copied.copies {r : Mem × ℤ} (h : Copied m₀ old new sz r) (h0 : r.2 = 0) {va : UInt64}
    (hva : UserPage va) (hlt : va.toNat < sz.toNat) (hv : leaf m₀ old va &&& PTE_V ≠ 0) :
    ∃ d ∈ m₀.phys.freelist,
      leaf r.1 new va = PA2PTE d.toUInt64 ||| (leaf m₀ old va &&& 0x3FF) ||| PTE_V ∧
      r.1.phys.mem d = slice (m₀.phys.mem (PTE2PA (leaf m₀ old va)).toNat) 0 PGSIZE := by
  cases h with
  | failed => simp at h0
  | @ok m ps t hs hsz _ =>
    have hc := hs.pages va hva (by omega)
    cases ho : ps.getD (va.toNat / PGSIZE) none with
    | none =>
      rw [ho] at hc
      exact absurd hc.1 hv
    | some d =>
      rw [ho] at hc
      exact ⟨d, hs.free.mem_iff.2 (List.mem_append_left _ (List.mem_append_left _
        (mem_reduceOption_of_getD ho))), hc.2.1, hc.2.2⟩

end Loop

end Sv39

end Kernel

end Xv6Net
