import Xv6Net.Kernel.Sv39
import Mathlib.Data.List.Nodup

/-!
# Freeing a page table (`freewalk` and `uvmfree` of `vm.c`)

`uvmfree(pagetable, sz)` unmaps the user pages below `sz` with `uvmunmap(.., 1)`, which frees
them, then `freewalk(pagetable)` frees the page-table pages: for each valid entry without
`PTE_R`, `PTE_W` or `PTE_X` it frees the table below it and clears the entry, it stops the kernel
at any other valid entry (`panic("freewalk: leaf")`), and it frees the page itself last.

`freewalk` recurses as deep as the entries lead; the model bounds the depth (`freewalk 3` for
the three levels of Sv39), where the C code would go on below a level-0 page with a valid entry
without `PTE_R`, `PTE_W` and `PTE_X`, which no `mappages` of a user page stores.

* `FreedAs` : a memory with a list of pages freed in turn, everything else as it was.
* `Freeable` : a table with no valid leaf, level by level, and its pages in the order `freewalk`
  frees them; `Freeable.freewalk` : `freewalk` frees exactly those.
* `freewalk_tree` : a tree with directory entries above level 0 and no valid leaf is freed page by
  page, the pages being its table pages (`tablePages`).
-/

namespace Xv6Net

namespace Kernel

namespace Sv39

/-- One round of the loop of `freewalk(pagetable)`, at the entry `i` of `pg`: a valid entry
without `PTE_R`, `PTE_W` and `PTE_X` points to a lower-level page table, which `rec` frees
before the entry is cleared; any other valid entry is `panic("freewalk: leaf")`. -/
def freewalkStep (rec : Mem → ℕ → Option Mem) (pg : ℕ) (m : Mem) (i : Fin 512) : Option Mem :=
  let pte := m.ptes pg i
  if pte &&& PTE_V ≠ 0 ∧ pte &&& (PTE_R ||| PTE_W ||| PTE_X) = 0 then
    (rec m (PTE2PA pte).toNat).map fun m => m.setPte pg i 0
  else if pte &&& PTE_V ≠ 0 then none
  else some m

/-- `freewalk(pagetable)` of a table of at most `depth` levels: the loop over the 512 entries,
then `kfree(pagetable)`. -/
def freewalk : ℕ → Mem → ℕ → Option Mem
  | 0, _, _ => none
  | depth + 1, m, pagetable =>
    ((List.finRange 512).foldlM (freewalkStep (freewalk depth) pagetable) m).map
      fun m => { m with phys := kfree m.phys pagetable }

/-- `uvmfree(pagetable, sz)`. -/
def uvmfree (m : Mem) (pagetable : ℕ) (sz : UInt64) : Option Mem :=
  let m := if sz > 0 then uvmunmap m pagetable 0 (PGROUNDUP sz / PGSIZE.toUInt64).toNat true
    else some m
  m.bind fun m => freewalk 3 m pagetable

/-! ### Pages freed in turn -/

/-- `m'` is `m` with the pages `ps` freed in turn, the last on top of the free list: every other
page keeps its entries and its bytes. -/
structure FreedAs (m m' : Mem) (ps : List ℕ) : Prop where
  free : m'.phys.freelist = ps.reverse ++ m.phys.freelist
  ptes : ∀ x, x ∉ ps → m'.ptes x = m.ptes x
  mem : ∀ x, x ∉ ps → m'.phys.mem x = m.phys.mem x

theorem FreedAs.refl (m : Mem) : FreedAs m m [] :=
  ⟨rfl, fun _ _ => rfl, fun _ _ => rfl⟩

theorem FreedAs.trans {m m₁ m₂ : Mem} {ps₁ ps₂ : List ℕ} (h₁ : FreedAs m m₁ ps₁)
    (h₂ : FreedAs m₁ m₂ ps₂) : FreedAs m m₂ (ps₁ ++ ps₂) where
  free := by rw [h₂.free, h₁.free, List.reverse_append, List.append_assoc]
  ptes x hx := by
    rw [List.mem_append, not_or] at hx
    rw [h₂.ptes x hx.2, h₁.ptes x hx.1]
  mem x hx := by
    rw [List.mem_append, not_or] at hx
    rw [h₂.mem x hx.2, h₁.mem x hx.1]

/-! ### The loop of `freewalk` -/

section Loop

variable {rec : Mem → ℕ → Option Mem} {m : Mem} {pg : ℕ} {sub : Fin 512 → List ℕ}

theorem freewalkStep_invalid {m₁ : Mem} {i : Fin 512} (h : m₁.ptes pg i &&& PTE_V = 0) :
    freewalkStep rec pg m₁ i = some m₁ := by
  simp [freewalkStep, h]

theorem freewalkStep_dir {m₁ : Mem} {i : Fin 512} (h : DirEntry (m₁.ptes pg i)) :
    freewalkStep rec pg m₁ i = (rec m₁ (PTE2PA (m₁.ptes pg i)).toNat).map fun m => m.setPte pg i 0 := by
  simp only [freewalkStep]
  exact if_pos h

/-- **The loop of `freewalk`** over the entries `is` of `pg`, each invalid or a directory entry
whose table `rec` frees as the list `sub i`, on any memory that agrees with `m` on those tables
and on the entries still to come: it frees the tables in turn, and changes no other page but the
entries of `pg`. -/
theorem foldlM_freewalkStep
    (hent : ∀ i, m.ptes pg i &&& PTE_V = 0 ∧ sub i = [] ∨ DirEntry (m.ptes pg i) ∧
      ∀ m₁ : Mem, (∀ x ∈ sub i, m₁.ptes x = m.ptes x) →
        ∃ m₂, rec m₁ (PTE2PA (m.ptes pg i)).toNat = some m₂ ∧ FreedAs m₁ m₂ (sub i)) :
    ∀ (is : List (Fin 512)), is.Nodup → (is.flatMap sub).Nodup → pg ∉ is.flatMap sub →
      ∀ m₁ : Mem, (∀ x ∈ is.flatMap sub, m₁.ptes x = m.ptes x) →
        (∀ i ∈ is, m₁.ptes pg i = m.ptes pg i) →
        ∃ m₂, is.foldlM (freewalkStep rec pg) m₁ = some m₂ ∧
          m₂.phys.freelist = (is.flatMap sub).reverse ++ m₁.phys.freelist ∧
          (∀ x, x ∉ is.flatMap sub → x ≠ pg → m₂.ptes x = m₁.ptes x) ∧
          ∀ x, x ∉ is.flatMap sub → m₂.phys.mem x = m₁.phys.mem x := by
  intro is
  induction is with
  | nil =>
    intro _ _ _ m₁ _ _
    exact ⟨m₁, rfl, by simp, fun _ _ _ => rfl, fun _ _ => rfl⟩
  | cons i is ih =>
    intro hnd hsub hpg m₁ hagree hent₁
    rw [List.flatMap_cons] at hsub hpg hagree ⊢
    obtain ⟨hi, hnd'⟩ := List.nodup_cons.1 hnd
    have hdisj := List.nodup_append.1 hsub
    have hpg' : pg ∉ sub i ∧ pg ∉ is.flatMap sub := by simpa [not_or] using hpg
    have hrest : ∀ j ∈ is, m₁.ptes pg j = m.ptes pg j := fun j hj =>
      hent₁ j (List.mem_cons_of_mem _ hj)
    have hcur : m₁.ptes pg i = m.ptes pg i := hent₁ i List.mem_cons_self
    rw [List.foldlM_cons]
    rcases hent i with ⟨hv, hnil⟩ | ⟨hdir, hrec⟩
    · -- an invalid entry: nothing to free
      rw [freewalkStep_invalid (hcur ▸ hv), Option.bind_eq_bind, Option.bind_some]
      rw [hnil, List.nil_append] at hsub hpg hagree ⊢
      exact ih hnd' hsub hpg m₁ hagree hrest
    · -- a directory entry: its table first, then the entry cleared
      obtain ⟨m₂, hm₂, hfreed⟩ := hrec m₁ fun x hx => hagree x (List.mem_append_left _ hx)
      set m₃ := m₂.setPte pg i 0 with hm₃
      have hptes₃ : ∀ x, x ∉ sub i → x ≠ pg → m₃.ptes x = m₁.ptes x := fun x hx hne => by
        rw [hm₃, setPte_ptes, if_neg hne, hfreed.ptes x hx]
      obtain ⟨m₄, hm₄, hfl, hptes, hmem⟩ := ih hnd' hdisj.2.1 hpg'.2 m₃
        (fun x hx => by
          have hxi : x ∉ sub i := fun h => hdisj.2.2 x h x hx rfl
          rw [hptes₃ x hxi fun e => hpg'.2 (e ▸ hx)]
          exact hagree x (List.mem_append_right _ hx))
        (fun j hj => by
          have hji : j ≠ i := fun e => hi (e ▸ hj)
          rw [hm₃, setPte_ptes, if_pos rfl, Function.update_of_ne hji, hfreed.ptes pg hpg'.1]
          exact hrest j hj)
      refine ⟨m₄, ?_, ?_, fun x hx hne => ?_, fun x hx => ?_⟩
      · rw [freewalkStep_dir (hcur ▸ hdir), hcur, hm₂, Option.map_some, Option.bind_eq_bind,
          Option.bind_some]
        exact hm₄
      · rw [hfl, hm₃, setPte_phys, hfreed.free, List.reverse_append, List.append_assoc]
      · rw [List.mem_append, not_or] at hx
        rw [hptes x hx.2 hne, hptes₃ x hx.1 hne]
      · rw [List.mem_append, not_or] at hx
        rw [hmem x hx.2, hm₃, setPte_phys, hfreed.mem x hx.1]

end Loop

/-! ### Tables with no valid leaf -/

/-- `pg` is the page of a table of `l + 1` levels with no valid leaf: every entry of a level-0
page is invalid, and every valid entry above is a directory entry to a table one level lower.
`ps` lists its pages as `freewalk` frees them, each table after those below it. -/
inductive Freeable (m : Mem) : ℕ → ℕ → List ℕ → Prop
  | leaf {pg : ℕ} : (∀ k, m.ptes pg k &&& PTE_V = 0) → Freeable m 0 pg [pg]
  | node {l pg : ℕ} (sub : Fin 512 → List ℕ) :
      (∀ i, m.ptes pg i &&& PTE_V = 0 → sub i = []) →
      (∀ i, m.ptes pg i &&& PTE_V ≠ 0 → DirEntry (m.ptes pg i)) →
      (∀ i, m.ptes pg i &&& PTE_V ≠ 0 → Freeable m l (PTE2PA (m.ptes pg i)).toNat (sub i)) →
      ((List.finRange 512).flatMap sub ++ [pg]).Nodup →
      Freeable m (l + 1) pg ((List.finRange 512).flatMap sub ++ [pg])

/-- **`freewalk` frees a table with no valid leaf**, on any memory that agrees on its pages: the
pages of the table, in turn, and nothing else. -/
theorem Freeable.freewalk {m : Mem} {l pg : ℕ} {ps : List ℕ} (h : Freeable m l pg ps) :
    ∀ m₁ : Mem, (∀ x ∈ ps, m₁.ptes x = m.ptes x) →
      ∃ m₂, Sv39.freewalk (l + 1) m₁ pg = some m₂ ∧ FreedAs m₁ m₂ ps := by
  induction h with
  | @leaf pg hinv =>
    intro m₁ hagree
    -- a level-0 page: the loop finds nothing, then the page is freed
    have hnil : (List.finRange 512).flatMap (fun _ => ([] : List ℕ)) = [] :=
      List.flatMap_eq_nil_iff.2 fun _ _ => rfl
    obtain ⟨m₂, hloop, hfl, hptes, hmem⟩ := @foldlM_freewalkStep (Sv39.freewalk 0) m pg
      (fun _ => []) (fun i => .inl ⟨hinv i, rfl⟩) (List.finRange 512)
      (List.nodup_finRange 512) (by rw [hnil]; exact List.nodup_nil) (by rw [hnil]; simp) m₁
      (by rw [hnil]; simp) (fun i _ => congrFun (hagree pg (List.mem_singleton_self pg)) i)
    rw [hnil, List.reverse_nil, List.nil_append] at hfl
    refine ⟨_, by rw [Sv39.freewalk, hloop, Option.map_some], ?_, fun x hx => ?_, fun x hx => ?_⟩
    · rw [kfree_freelist, hfl]
      rfl
    · exact hptes x (by rw [hnil]; simp) (by simpa using hx)
    · simp only [kfree, Function.update_of_ne (show x ≠ pg by simpa using hx)]
      exact hmem x (by rw [hnil]; simp)
  | @node l pg sub hnil hdir hsub hnd ih =>
    intro m₁ hagree
    have hnd' := List.nodup_append.1 hnd
    have hpg : pg ∉ (List.finRange 512).flatMap sub := fun h => hnd'.2.2 pg h pg (by simp) rfl
    -- every entry is invalid, or leads to a table that the recursive call frees
    have hent : ∀ i, m.ptes pg i &&& PTE_V = 0 ∧ sub i = [] ∨ DirEntry (m.ptes pg i) ∧
        ∀ m₁ : Mem, (∀ x ∈ sub i, m₁.ptes x = m.ptes x) →
          ∃ m₂, Sv39.freewalk (l + 1) m₁ (PTE2PA (m.ptes pg i)).toNat = some m₂ ∧
            FreedAs m₁ m₂ (sub i) := fun i => by
      by_cases hv : m.ptes pg i &&& PTE_V = 0
      · exact .inl ⟨hv, hnil i hv⟩
      · exact .inr ⟨hdir i hv, ih i hv⟩
    obtain ⟨m₂, hloop, hfl, hptes, hmem⟩ := foldlM_freewalkStep hent (List.finRange 512)
      (List.nodup_finRange 512) hnd'.1 hpg m₁ (fun x hx => hagree x (List.mem_append_left _ hx))
      (fun i _ => congrFun (hagree pg (List.mem_append_right _ (List.mem_singleton_self pg))) i)
    refine ⟨_, by rw [Sv39.freewalk, hloop, Option.map_some], ?_, fun x hx => ?_, fun x hx => ?_⟩
    · rw [kfree_freelist, hfl, List.reverse_append, List.reverse_singleton, List.append_assoc,
        List.singleton_append]
    · rw [List.mem_append, not_or, List.mem_singleton] at hx
      exact hptes x hx.1 hx.2
    · rw [List.mem_append, not_or, List.mem_singleton] at hx
      simp only [kfree, Function.update_of_ne hx.2]
      exact hmem x hx.1


/-! ### The pages of a three-level tree -/

/-- The paths under the entry `i` of the root: to the level-0 pages, then to the level-1 page. -/
def blockPaths (i : Fin 512) : List (List (Fin 512)) :=
  (List.finRange 512).map (fun j => [i, j]) ++ [[i]]

/-- The paths to the pages of a three-level tree, in the order `freewalk` frees the pages. -/
def treePaths : List (List (Fin 512)) := (List.finRange 512).flatMap blockPaths ++ [[]]

/-- The pages of the tree `root`, in the order `freewalk` frees them. -/
def tablePages (m : Mem) (root : ℕ) : List ℕ := treePaths.filterMap (node m root)

theorem head_of_mem_blockPaths {i : Fin 512} {p : List (Fin 512)} (h : p ∈ blockPaths i) :
    p.head? = some i := by
  simp only [blockPaths, List.mem_append, List.mem_map, List.mem_singleton] at h
  rcases h with ⟨j, -, rfl⟩ | rfl <;> rfl

/-- One block: the level-0 paths differ in their second index, the level-1 path is shorter. -/
theorem nodup_blockPaths (i : Fin 512) : (blockPaths i).Nodup := by
  rw [blockPaths, List.nodup_append]
  refine ⟨(List.nodup_finRange 512).map fun j j' h => by simpa using h,
    List.nodup_singleton _, fun p hp q hq => ?_⟩
  obtain ⟨j, -, rfl⟩ := List.mem_map.1 hp
  rw [List.mem_singleton.1 hq]
  simp

theorem nodup_treePaths : treePaths.Nodup := by
  rw [treePaths, List.nodup_append, List.nodup_flatMap]
  refine ⟨⟨fun i _ => nodup_blockPaths i, ?_⟩, List.nodup_singleton _, ?_⟩
  · -- two blocks: their paths differ in the first index
    exact (List.nodup_finRange 512).imp fun hne p hp hq =>
      hne (Option.some_injective _ ((head_of_mem_blockPaths hp).symm.trans
        (head_of_mem_blockPaths hq)))
  · intro p hp q hq
    obtain ⟨i, -, hpi⟩ := List.mem_flatMap.1 hp
    rw [List.mem_singleton.1 hq]
    intro e
    have := head_of_mem_blockPaths hpi
    rw [e] at this
    cases this

theorem mem_treePaths {m : Mem} {root x : ℕ} {p : List (Fin 512)} (h : node m root p = some x) :
    p ∈ treePaths := by
  match p, h with
  | [], _ => exact List.mem_append_right _ (List.mem_singleton_self _)
  | [i], _ =>
    exact List.mem_append_left _ (List.mem_flatMap.2 ⟨i, List.mem_finRange i,
      List.mem_append_right _ (List.mem_singleton_self _)⟩)
  | [i, j], _ =>
    exact List.mem_append_left _ (List.mem_flatMap.2 ⟨i, List.mem_finRange i,
      List.mem_append_left _ (List.mem_map.2 ⟨j, List.mem_finRange j, rfl⟩)⟩)

theorem mem_tablePages {m : Mem} {root x : ℕ} : x ∈ tablePages m root ↔ TablePage m root x := by
  rw [tablePages, List.mem_filterMap]
  constructor
  · rintro ⟨p, -, hp⟩
    exact ⟨p, hp⟩
  · rintro ⟨p, hp⟩
    exact ⟨p, mem_treePaths hp, hp⟩

theorem nodup_tablePages {m : Mem} {root : ℕ} (ht : Tree m root) : (tablePages m root).Nodup :=
  nodup_treePaths.filterMap fun p q x hp hq => ht p q x hp hq

section Tree

variable {m : Mem} {root : ℕ}

theorem tablePages_eq (m : Mem) (root : ℕ) :
    tablePages m root =
      (List.finRange 512).flatMap (fun i => (blockPaths i).filterMap (node m root)) ++ [root] := by
  rw [tablePages, treePaths, List.filterMap_append, List.filterMap_flatMap]
  rfl

/-- The pages under the entry `i` of the root: none, or the level-0 pages of the level-1 page
`c`, then `c`. -/
theorem blockPages_eq (m : Mem) (root : ℕ) (i : Fin 512) :
    (blockPaths i).filterMap (node m root) = match next m root i with
      | none => []
      | some c => (List.finRange 512).flatMap (fun j => (next m c j).toList) ++ [c] := by
  rw [blockPaths, List.filterMap_append, List.filterMap_map]
  cases hc : next m root i with
  | none =>
    rw [List.filterMap_eq_nil_iff.2 fun j _ => by simp [node, hc]]
    simp [node, hc]
  | some c =>
    rw [List.filterMap_eq_flatMap_toList]
    simp [node, hc]

/-- A level-0 page with no valid leaf. -/
theorem freeable_level0 (hslot : ∀ i j k, slot m root i j k &&& PTE_V = 0) {i j : Fin 512} {d : ℕ}
    (hd : node m root [i, j] = some d) : Freeable m 0 d [d] :=
  .leaf fun k => by
    have := hslot i j k
    rwa [slot, hd] at this

theorem next_eq_some {pg : ℕ} {i : Fin 512} (hv : m.ptes pg i &&& PTE_V ≠ 0) :
    next m pg i = some (PTE2PA (m.ptes pg i)).toNat := by
  simp [next, hv]

theorem next_eq_none {pg : ℕ} {i : Fin 512} (hv : m.ptes pg i &&& PTE_V = 0) :
    next m pg i = none := by
  simp [next, hv]

/-- A level-1 page of the tree, with its level-0 pages. -/
theorem freeable_level1 (ht : Tree m root) (hdir : DirOK m root)
    (hslot : ∀ i j k, slot m root i j k &&& PTE_V = 0) {i : Fin 512} {c : ℕ}
    (hc : next m root i = some c) :
    Freeable m 1 c ((List.finRange 512).flatMap (fun j => (next m c j).toList) ++ [c]) := by
  have hnode : ∀ j, node m root [i, j] = next m c j := fun j => by simp [node, hc]
  refine .node _ (fun j hv => by rw [next_eq_none hv]; rfl)
    (fun j hv => hdir [i] c (by simp) hc j hv) (fun j hv => ?_) ?_
  · rw [next_eq_some hv]
    exact freeable_level0 hslot (by rw [hnode, next_eq_some hv])
  · -- the pages under the entry `i` of the root, distinct in the tree
    have h := (nodup_blockPaths i).filterMap (f := node m root) fun p q x hp hq => ht p q x hp hq
    rwa [blockPages_eq, hc] at h

/-- The tree from its root. -/
theorem freeable_tree (ht : Tree m root) (hdir : DirOK m root)
    (hslot : ∀ i j k, slot m root i j k &&& PTE_V = 0) : Freeable m 2 root (tablePages m root) := by
  rw [tablePages_eq]
  refine .node _ (fun i hv => by rw [blockPages_eq, next_eq_none hv])
    (fun i hv => hdir [] root (by simp) rfl i hv) (fun i hv => ?_) ?_
  · have hc := next_eq_some (m := m) hv
    rw [blockPages_eq, hc]
    exact freeable_level1 ht hdir hslot hc
  · rw [← tablePages_eq]
    exact nodup_tablePages ht

/-- **`freewalk` of a tree** whose entries above level 0 are directory entries and which has no
valid leaf frees its table pages, children before parents, and changes no other page. -/
theorem freewalk_tree (ht : Tree m root) (hdir : DirOK m root)
    (hslot : ∀ i j k, slot m root i j k &&& PTE_V = 0) :
    ∃ m', freewalk 3 m root = some m' ∧ FreedAs m m' (tablePages m root) :=
  (freeable_tree ht hdir hslot).freewalk m fun _ _ => rfl

end Tree

/-! ### `uvmfree` -/

/-- The address of the slot `k` of the level-0 page under the entries `i` and `j`. -/
def slotVa (i j k : Fin 512) : UInt64 := (i.val * 2 ^ 30 + j.val * 2 ^ 21 + k.val * 2 ^ 12).toUInt64

/-- What `uvmunmap(pagetable, 0, n, 1)` finds at the pages below `n * PGSIZE`: the page of each
valid leaf. -/
def leafPages (m : Mem) (root n : ℕ) : List (Option ℕ) :=
  (List.range n).map fun j =>
    if leaf m root (j * PGSIZE).toUInt64 &&& PTE_V ≠ 0 then
      some (PTE2PA (leaf m root (j * PGSIZE).toUInt64)).toNat
    else none

theorem slotVa_toNat (i j k : Fin 512) :
    (slotVa i j k).toNat = i.val * 2 ^ 30 + j.val * 2 ^ 21 + k.val * 2 ^ 12 := by
  have := i.isLt
  have := j.isLt
  have := k.isLt
  rw [slotVa, Nat.toUInt64_eq, UInt64.toNat_ofNat', Nat.mod_eq_of_lt (by omega)]

/-- Every slot is the leaf of its address. -/
theorem leaf_slotVa (m : Mem) (root : ℕ) (i j k : Fin 512) :
    leaf m root (slotVa i j k) = slot m root i j k := by
  have := i.isLt
  have := j.isLt
  have := k.isLt
  have hpx : ∀ (l : ℕ) (x : Fin 512), l ≤ 2 →
      (slotVa i j k).toNat / 2 ^ (12 + 9 * l) % 512 = x.val → PX l (slotVa i j k) = x :=
    fun l x hl h => Fin.ext (by rw [PX_val hl, h])
  rw [leaf, hpx 2 i (by norm_num) (by rw [slotVa_toNat]; norm_num; omega),
    hpx 1 j (by norm_num) (by rw [slotVa_toNat]; norm_num; omega),
    hpx 0 k (by norm_num) (by rw [slotVa_toNat]; norm_num; omega)]

/-- The entry of `leafPages` at a page below `n * PGSIZE`. -/
theorem leafPages_getD {m : Mem} {root n : ℕ} {va : UInt64} (hal : va.toNat % PGSIZE = 0)
    (h : va.toNat < n * PGSIZE) :
    (leafPages m root n).getD (va.toNat / PGSIZE) none =
      if leaf m root va &&& PTE_V ≠ 0 then some (PTE2PA (leaf m root va)).toNat else none := by
  have hi : va.toNat / PGSIZE < n := by
    simp only [PGSIZE] at hal h ⊢
    omega
  have hva : (va.toNat / PGSIZE * PGSIZE).toUInt64 = va := by
    apply UInt64.toNat_inj.1
    have := va.toNat_lt
    rw [Nat.toUInt64_eq, UInt64.toNat_ofNat', Nat.div_mul_cancel (Nat.dvd_of_mod_eq_zero hal),
      Nat.mod_eq_of_lt this]
  rw [List.getD_eq_getElem _ _ (by simpa [leafPages] using hi)]
  simp only [leafPages, List.getElem_map, List.getElem_range]
  rw [hva]

/-- **`uvmfree` returns every page.**  From a tree whose entries above level 0 are directory
entries and whose valid leaves are leaves of pages below `sz`, `uvmfree(pagetable, sz)` frees
the page of each valid leaf, in the order of the addresses, then the pages of the table, children
before parents; every other page keeps its entries and its bytes. -/
theorem uvmfree_spec {m : Mem} {root : ℕ} {sz : UInt64} (ht : Tree m root) (hdir : DirOK m root)
    (hsz : sz.toNat ≤ 2 ^ 38)
    (hbelow : ∀ va : UInt64, va.toNat < 2 ^ 39 → va.toNat % PGSIZE = 0 →
      leaf m root va &&& PTE_V ≠ 0 →
        va.toNat < (PGROUNDUP sz).toNat ∧ leaf m root va &&& 0x3FF ≠ PTE_V) :
    ∃ m', uvmfree m root sz = some m' ∧
      m'.phys.freelist = (tablePages m root).reverse ++
        (leafPages m root ((PGROUNDUP sz).toNat / PGSIZE)).reduceOption.reverse ++
          m.phys.freelist ∧
      ∀ x, x ∉ tablePages m root → x ∉ (leafPages m root ((PGROUNDUP sz).toNat / PGSIZE)).reduceOption →
        m'.ptes x = m.ptes x ∧ m'.phys.mem x = m.phys.mem x := by
  set n := (PGROUNDUP sz).toNat / PGSIZE with hn
  have hup : (PGROUNDUP sz).toNat = n * PGSIZE :=
    (Nat.div_mul_cancel (Nat.dvd_of_mod_eq_zero (PGROUNDUP_aligned sz))).symm
  have hupb : (PGROUNDUP sz).toNat ≤ 2 ^ 38 := by
    rw [PGROUNDUP_toNat (by omega)]
    omega
  have hlen : (leafPages m root n).length = n := by simp [leafPages]
  -- `uvmunmap(pagetable, 0, n, 1)`: each page below `sz` holds a leaf or nothing valid, as
  -- `leafPages` says
  obtain ⟨m₁, hu, hnode, hfl, hmem₁, hleaf₁⟩ := @uvmunmapLoop_tree m root 0 (leafPages m root n) ht
    (by decide) (by rw [hlen, UInt64.toNat_zero, Nat.zero_add, ← hup]; exact hupb)
    fun va hva _ h2 => by
      rw [hlen, UInt64.toNat_zero, Nat.zero_add] at h2
      rw [UInt64.toNat_zero, Nat.sub_zero, leafPages_getD hva.2 h2]
      by_cases hv : leaf m root va &&& PTE_V ≠ 0
      · rw [if_pos hv]
        exact ⟨hv, (hbelow va (by have := hva.toNat_lt; omega) hva.2 hv).2, rfl⟩
      · rw [if_neg hv]
        exact not_not.1 hv
  -- after it no leaf is valid: those that were are below `sz`, where it cleared them
  have hslot₁ : ∀ i j k, slot m₁ root i j k &&& PTE_V = 0 := fun i j k => by
    have hva := slotVa_toNat i j k
    have hal : (slotVa i j k).toNat % PGSIZE = 0 := by
      rw [hva]
      simp only [PGSIZE]
      omega
    by_cases hv : leaf m root (slotVa i j k) &&& PTE_V = 0
    · rcases uvmunmapLoop_slot true _ ht hu i j k with h | h
      · rw [h, ← leaf_slotVa]
        exact hv
      · rw [h]
        rfl
    · have hlt := (hbelow _ (by rw [hva]; have := i.isLt; have := j.isLt; have := k.isLt; omega)
        hal hv).1
      have hpage : UserPage (slotVa i j k) := UserPage.of_toNat (by omega) hal
      rw [← leaf_slotVa, hleaf₁ _ hpage, if_pos]
      · rfl
      -- a `simp only` here leaves the kernel unfolding `n * PGSIZE`
      rw [UInt64.toNat_zero, Nat.zero_add, Nat.sub_zero, hlen]
      refine ⟨Nat.zero_le _, hup ▸ hlt, ?_⟩
      rw [leafPages_getD hal (hup ▸ hlt), if_pos hv]
      rfl
  -- the entries of the root and the level-1 pages are as they were
  have hdir₁ : DirOK m₁ root := hdir.uvmunmapLoop ht hu
  obtain ⟨m₂, hfw, hfreed⟩ := freewalk_tree (ht.of_node hnode) hdir₁ hslot₁
  have htab : tablePages m₁ root = tablePages m root := by rw [tablePages, tablePages, hnode]
  refine ⟨m₂, ?_, ?_, fun x hx hleaf => ?_⟩
  · simp only [uvmfree]
    by_cases hpos : sz > 0
    · have hcount : (PGROUNDUP sz / PGSIZE.toUInt64).toNat = (leafPages m root n).length := by
        rw [UInt64.toNat_div, show PGSIZE.toUInt64.toNat = PGSIZE by decide, hlen]
      rw [if_pos hpos, uvmunmap, if_neg (by decide), hcount, hu, Option.bind_some]
      exact hfw
    · -- nothing to unmap: `n` is `0`
      have hsz0 : sz = 0 := by
        apply UInt64.toNat_inj.1
        rw [gt_iff_lt, UInt64.lt_iff_toNat_lt] at hpos
        simp only [UInt64.toNat_zero] at hpos ⊢
        omega
      have hn0 : (leafPages m root n).length = 0 := by
        rw [hlen, hn, hsz0, PGROUNDUP_of_aligned (by rfl), UInt64.toNat_zero, Nat.zero_div]
      rw [hn0] at hu
      cases hu
      rw [if_neg hpos, Option.bind_some]
      exact hfw
  · rw [hfreed.free, htab, hfl, List.append_assoc]
  · -- `uvmunmap` wrote only table pages and freed only leaf pages, `freewalk` only table pages
    rw [← htab] at hx
    rw [hfreed.ptes x hx, hfreed.mem x hx, hmem₁ x hleaf]
    refine ⟨(uvmunmapLoop_ptes true _ ht hu).2 x fun i j h => hx ?_, rfl⟩
    rw [htab]
    exact mem_tablePages.2 ⟨_, h⟩

end Sv39

end Kernel

end Xv6Net
