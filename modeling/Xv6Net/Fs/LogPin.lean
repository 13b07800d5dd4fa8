import Xv6Net.Fs.LogCache
import Xv6Net.Bio.Invariant

/-!
# The log's pins (`log_write`, `install_trans`, `bpin`, `bunpin`)

Each block in the log is pinned once, in the buffer that holds it, from its `log_write` until the
`install_trans(0)` of the commit that writes it home:

* `Pinned dev lh h` : the blocks `lh` are held by buffers that carry exactly one pin each, and no
  other buffer carries one;
* `Pinned.bread`, `Pinned.brelse` : a `bread` returns the pinned buffer of a pinned block and never
  recycles one, since its `refcnt` is not `0`, and neither call moves a pin;
* `installTrans_unpins` : `install_trans(0)` takes off exactly the pins of the log's blocks;
* `PinInv` : the invariant of the log on the recency list, kept by every call (`PinInv.step`);
* `log_pins` : on `bio.c`, through `LogCache.bioLog_sim`, for every run.
-/

namespace Xv6Net

namespace Fs

namespace LogCache

open Bio

/-! ### What a `bread` of the list returns -/

/-- `bget` returns a buffer that held the block or had no reference, and it holds the block
after. -/
theorem lru_bget_cases {a a' : Lru} {dev b : UInt32} {i : Fin NBUF}
    (h : a.bget dev b = some (i, a')) :
    ((a.buf i).holds dev b = true ∨ (a.buf i).refcnt = 0) ∧ (a'.buf i).holds dev b = true := by
  unfold Lru.bget at h
  split at h
  · -- the block is cached in `i`
    rename_i k hk
    obtain ⟨rfl, rfl⟩ := Prod.mk.inj (Option.some.inj h)
    have hh := List.find?_some hk
    exact ⟨.inl hh, by simpa [Lru.set, Buf.holds] using hh⟩
  · split at h
    · -- `i` is recycled
      rename_i _ _ k hk
      obtain ⟨rfl, rfl⟩ := Prod.mk.inj (Option.some.inj h)
      exact ⟨.inr (by simpa using List.find?_some hk), by simp [Lru.set, Buf.holds]⟩
    · cases h

theorem lru_bread_cases {a a' : Lru} {dev b : UInt32} {i : Fin NBUF}
    (h : a.bread dev b = some (i, a')) :
    ((a.buf i).holds dev b = true ∨ (a.buf i).refcnt = 0) ∧ (a'.buf i).holds dev b = true := by
  unfold Lru.bread at h
  obtain ⟨⟨k, a''⟩, hg, he⟩ := Option.map_eq_some_iff.1 h
  obtain ⟨hcase, hholds⟩ := lru_bget_cases hg
  simp only at he
  -- the disk read sets `valid` only
  split_ifs at he <;> obtain ⟨rfl, rfl⟩ := Prod.mk.inj he
  · exact ⟨hcase, hholds⟩
  · exact ⟨hcase, by simpa [Lru.set, Buf.holds] using hholds⟩

/-- A `bread` of a block that a buffer first with its block holds returns that buffer. -/
theorem lru_bread_first {a a' : Lru} {dev b : UInt32} {i k : Fin NBUF} (hk : a.First k)
    (hkb : (a.buf k).holds dev b = true) (h : a.bread dev b = some (i, a')) : i = k := by
  unfold Lru.bread at h
  obtain ⟨⟨j, a''⟩, hg, he⟩ := Option.map_eq_some_iff.1 h
  have hj : j = i := by
    simp only at he
    split_ifs at he <;> exact (Prod.mk.inj he).1
  subst hj
  simp only [Buf.holds, Bool.and_eq_true, beq_iff_eq] at hkb
  have hfind : a.order.find? (fun x => (a.buf x).holds dev b) = some k := by
    rw [← hkb.1, ← hkb.2]
    exact hk
  unfold Lru.bget at hg
  rw [hfind] at hg
  exact (Prod.mk.inj (Option.some.inj hg)).1.symm

/-- Two lists whose buffers hold the same blocks. -/
def SameBlocks (a a' : Lru) : Prop :=
  ∀ j, (a'.buf j).dev = (a.buf j).dev ∧ (a'.buf j).blockno = (a.buf j).blockno

theorem sameBlocks_set {a : Lru} {i : Fin NBUF} {b : Buf} (hd : b.dev = (a.buf i).dev)
    (hn : b.blockno = (a.buf i).blockno) : SameBlocks a (a.set i b) := by
  intro j
  by_cases hj : j = i
  · subst hj; simp [Lru.set, hd, hn]
  · simp [Lru.set, hj]

theorem sameBlocks_brelse (a : Lru) (i : Fin NBUF) : SameBlocks a (a.brelse i) := by
  have h : SameBlocks a (a.set i { a.buf i with refcnt := (a.buf i).refcnt - 1 }) :=
    sameBlocks_set rfl rfl
  unfold Lru.brelse
  dsimp only
  split_ifs
  · exact h
  · exact h

theorem sameBlocks_bunpin (a : Lru) (i : Fin NBUF) : SameBlocks a (a.bunpin i) :=
  sameBlocks_set rfl rfl

theorem sameBlocks_bpin (a : Lru) (i : Fin NBUF) : SameBlocks a (a.bpin i) :=
  sameBlocks_set rfl rfl

/-! ### The calls of the log on the list -/

section Calls

variable {dev b : UInt32} {h h' : Held Lru} {i : Fin NBUF}

theorem bread_lru (hb : bread lru dev h b = some (i, h')) :
    h.cache.bread dev b = some (i, h'.cache) ∧
      h'.refs = Function.update h.refs i (h.refs i + 1) ∧ h'.pins = h.pins := by
  unfold bread at hb
  simp only [Ops.step, lru] at hb
  cases hr : h.cache.bread dev b with
  | none => simp [hr] at hb
  | some p =>
    obtain ⟨j, a⟩ := p
    simp only [hr, Option.map_some, Option.some.injEq, Prod.mk.injEq] at hb
    obtain ⟨rfl, rfl⟩ := hb
    exact ⟨rfl, rfl, rfl⟩

theorem brelse_lru (hb : brelse lru h i = some h') :
    h.refs i ≠ 0 ∧ h' = ⟨h.cache.brelse i, Function.update h.refs i (h.refs i - 1), h.pins⟩ := by
  unfold brelse at hb
  simp only [Ops.step, lru] at hb
  split_ifs at hb with hr
  · simp at hb
  · simp only [Option.map_some, Option.some.injEq] at hb
    exact ⟨hr, hb.symm⟩

theorem bunpin_lru (hb : bunpin lru h i = some h') :
    (h.pins i = 0 ∧ h' = h) ∨
      (h.pins i ≠ 0 ∧ h' = ⟨h.cache.bunpin i, h.refs, Function.update h.pins i (h.pins i - 1)⟩) := by
  unfold bunpin at hb
  simp only [Ops.step, lru] at hb
  split_ifs at hb with hp
  · simp only [Option.map_some, Option.some.injEq] at hb
    exact .inl ⟨hp, hb.symm⟩
  · simp only [Option.map_some, Option.some.injEq] at hb
    exact .inr ⟨hp, hb.symm⟩

theorem pin_lru {e : BioEv} (hp : lru.step h (.pin i) = some (h', e)) (he : e = .done) :
    h.refs i ≠ 0 ∧ h' = ⟨h.cache.bpin i, h.refs, Function.update h.pins i (h.pins i + 1)⟩ := by
  simp only [Ops.step, lru] at hp
  split_ifs at hp with hr
  · obtain ⟨-, rfl⟩ := Prod.mk.inj (Option.some.inj hp)
    cases he
  · obtain ⟨rfl, -⟩ := Prod.mk.inj (Option.some.inj hp)
    exact ⟨hr, rfl⟩

theorem brelse_refs (hb : brelse lru h i = some h') :
    h'.refs = Function.update h.refs i (h.refs i - 1) ∧ h'.pins = h.pins := by
  rw [(brelse_lru hb).2]
  exact ⟨rfl, rfl⟩

theorem bunpin_refs (hb : bunpin lru h i = some h') : h'.refs = h.refs := by
  rcases bunpin_lru hb with ⟨-, rfl⟩ | ⟨-, rfl⟩ <;> rfl

end Calls

/-! ### Pinned blocks -/

theorem holds_iff {x : Buf} {dev b : UInt32} : x.holds dev b = true ↔ x.dev = dev ∧ x.blockno = b := by
  simp [Buf.holds]

/-- The blocks `lh` of the log are each held by a buffer that carries exactly one pin, and no
other buffer carries one; a buffer with a reference or a pin holds a block of `dev`. -/
structure Pinned (dev : UInt32) (lh : List UInt32) (h : Held Lru) : Prop where
  inv : Inv h
  onDev : ∀ i, h.refs i + h.pins i ≠ 0 → (h.cache.buf i).dev = dev
  pinned : ∀ b ∈ lh, ∃ i, (h.cache.buf i).holds dev b = true ∧ h.pins i = 1
  only : ∀ i, h.pins i ≠ 0 → h.pins i = 1 ∧ (h.cache.buf i).blockno ∈ lh

section Pinned

variable {dev b : UInt32} {lh : List UInt32} {h h' : Held Lru} {i k : Fin NBUF}

/-- A pinned buffer whose references are few has `refcnt ≠ 0`, so `bget` does not recycle it. -/
theorem Pinned.refcnt_ne_zero (hP : Pinned dev lh h) (hi : h.pins i = 1)
    (hr : h.refs i < 2 ^ 32 - 1) : (h.cache.buf i).refcnt ≠ 0 := by
  rw [hP.inv.refcnt i, hi]
  intro hz
  have := congrArg UInt32.toNat hz
  simp [Nat.toUInt32_eq] at this
  omega

/-- Two buffers with a reference or a pin that hold one block are one. -/
theorem Pinned.eq_of_holds (hP : Pinned dev lh h) (hi : h.refs i + h.pins i ≠ 0)
    (hk : h.refs k + h.pins k ≠ 0) (hik : (h.cache.buf k).holds dev b = true)
    (hib : (h.cache.buf i).holds dev b = true) : i = k := by
  refine (hP.inv.first i (Or.inr hi)).eq (hP.inv.first k (Or.inr hk)) ?_
  rw [holds_iff] at hik hib ⊢
  exact ⟨hik.1.trans hib.1.symm, hik.2.trans hib.2.symm⟩

/-- A `bread` of a pinned block returns the buffer that carries its pin. -/
theorem Pinned.bread_pinned (hP : Pinned dev lh h) (hk : (h.cache.buf k).holds dev b = true)
    (hpk : h.pins k ≠ 0) (hb : bread lru dev h b = some (i, h')) : i = k := by
  obtain ⟨hc, -, -⟩ := bread_lru hb
  exact lru_bread_first (hP.inv.first k (Or.inr (by omega))) hk hc

/-- A `bread` moves no pin: a pinned buffer is found by its block, and not recycled. -/
theorem Pinned.bread (hP : Pinned dev lh h) (hr : ∀ j, h.refs j < 2 ^ 32 - 1)
    (hb : bread lru dev h b = some (i, h')) : Pinned dev lh h' := by
  obtain ⟨hc, hrefs, hpins⟩ := bread_lru hb
  obtain ⟨hother, -, -, -⟩ := Lru.bread_some hc
  obtain ⟨hcase, hholds⟩ := lru_bread_cases hc
  -- a pinned `i` already held the block
  have hkeep : h.pins i ≠ 0 → (h.cache.buf i).holds dev b = true := fun hp =>
    hcase.resolve_right (hP.refcnt_ne_zero (hP.only i hp).1 (hr i))
  rw [holds_iff] at hholds
  refine ⟨?_, fun j hj => ?_, fun b' hb' => ?_, fun j hj => ?_⟩
  · have hinv := hP.inv.read hc
    rwa [← hrefs, ← hpins] at hinv
  · by_cases hji : j = i
    · subst hji
      exact hholds.1
    · rw [hother j hji]
      refine hP.onDev j ?_
      rwa [hrefs, hpins, Function.update_of_ne hji] at hj
  · obtain ⟨k, hk, hpk⟩ := hP.pinned b' hb'
    refine ⟨k, ?_, by rw [hpins]; exact hpk⟩
    by_cases hki : k = i
    · subst hki
      have hb := hkeep (by omega)
      rw [holds_iff] at hk hb ⊢
      exact ⟨hholds.1, hholds.2.trans (hb.2.symm.trans hk.2)⟩
    · rwa [hother k hki]
  · rw [hpins] at hj ⊢
    obtain ⟨h1, hmem⟩ := hP.only j hj
    refine ⟨h1, ?_⟩
    by_cases hji : j = i
    · subst hji
      rw [hholds.2, ← (holds_iff.1 (hkeep hj)).2]
      exact hmem
    · rwa [hother j hji]

/-- A `brelse` moves no pin. -/
theorem Pinned.brelse (hP : Pinned dev lh h) (hb : brelse lru h i = some h') :
    Pinned dev lh h' := by
  obtain ⟨hr, rfl⟩ := brelse_lru hb
  have hs := sameBlocks_brelse h.cache i
  refine ⟨hP.inv.release hr, fun j hj => ?_, fun b' hb' => ?_, fun j hj => ?_⟩
  · rw [(hs j).1]
    refine hP.onDev j ?_
    by_cases hji : j = i
    · subst hji; omega
    · simpa [Function.update_of_ne hji] using hj
  · obtain ⟨k, hk, hpk⟩ := hP.pinned b' hb'
    refine ⟨k, ?_, hpk⟩
    rw [holds_iff] at hk ⊢
    exact ⟨(hs k).1.trans hk.1, (hs k).2.trans hk.2⟩
  · obtain ⟨h1, hmem⟩ := hP.only j hj
    exact ⟨h1, (hs j).2 ▸ hmem⟩

/-- `bunpin` of the buffer that carries the pin of the log's first block leaves the pins of the
rest. -/
theorem Pinned.unpin {bs : List UInt32} (hP : Pinned dev (b :: bs) h) (hnd : (b :: bs).Nodup)
    (hk : (h.cache.buf k).holds dev b = true) (hpk : h.pins k = 1)
    (hu : bunpin lru h k = some h') : Pinned dev bs h' := by
  rcases bunpin_lru hu with ⟨h0, -⟩ | ⟨-, rfl⟩
  · omega
  have hs := sameBlocks_bunpin h.cache k
  have hbs : b ∉ bs := (List.nodup_cons.1 hnd).1
  refine ⟨hP.inv.unpin (by omega), fun j hj => ?_, fun b' hb' => ?_, fun j hj => ?_⟩
  · rw [(hs j).1]
    refine hP.onDev j ?_
    by_cases hjk : j = k
    · subst hjk; omega
    · simpa [Function.update_of_ne hjk] using hj
  · obtain ⟨k', hk', hpk'⟩ := hP.pinned b' (List.mem_cons_of_mem b hb')
    -- the pin of `b'` is on another buffer than that of `b`
    have hne : k' ≠ k := by
      rintro rfl
      have h1 := (holds_iff.1 hk').2
      have h2 := (holds_iff.1 hk).2
      exact hbs (by rw [← h2, h1]; exact hb')
    refine ⟨k', ?_, by simpa [Function.update_of_ne hne] using hpk'⟩
    rw [holds_iff] at hk' ⊢
    exact ⟨(hs k').1.trans hk'.1, (hs k').2.trans hk'.2⟩
  · dsimp only at hj ⊢
    have hjk : j ≠ k := by
      rintro rfl
      simp [hpk] at hj
    rw [Function.update_of_ne hjk] at hj ⊢
    obtain ⟨h1, hmem⟩ := hP.only j hj
    refine ⟨h1, ?_⟩
    rw [(hs j).2]
    rcases List.mem_cons.1 hmem with hjb | hmem
    · -- a second pinned buffer with the block `b` would be `k`
      have hjb' : (h.cache.buf j).holds dev b = true :=
        holds_iff.2 ⟨hP.onDev j (by omega), hjb⟩
      exact absurd (hP.eq_of_holds (by omega) (by omega) hk hjb') hjk
    · exact hmem

/-- `bpin` of a buffer that the call holds, for a block not yet in the log, adds its pin. -/
theorem Pinned.pin (hP : Pinned dev lh h) (hb : (h.cache.buf i).blockno ∉ lh)
    (hp : lru.step h (.pin i) = some (h', .done)) :
    Pinned dev (lh ++ [(h.cache.buf i).blockno]) h' := by
  obtain ⟨hr, rfl⟩ := pin_lru hp rfl
  have hs := sameBlocks_bpin h.cache i
  have hi0 : h.pins i = 0 := by
    by_contra hne
    exact hb (hP.only i hne).2
  have hdev : (h.cache.buf i).dev = dev := hP.onDev i (by omega)
  refine ⟨hP.inv.pin hr, fun j hj => ?_, fun b' hb' => ?_, fun j hj => ?_⟩
  · rw [(hs j).1]
    by_cases hji : j = i
    · subst hji; exact hdev
    · exact hP.onDev j (by simpa [Function.update_of_ne hji] using hj)
  · rcases List.mem_append.1 hb' with hb' | hb'
    · obtain ⟨k, hk, hpk⟩ := hP.pinned b' hb'
      have hki : k ≠ i := by rintro rfl; omega
      refine ⟨k, ?_, by simpa [Function.update_of_ne hki] using hpk⟩
      rw [holds_iff] at hk ⊢
      exact ⟨(hs k).1.trans hk.1, (hs k).2.trans hk.2⟩
    · -- the new block, pinned in `i`
      rw [List.mem_singleton] at hb'
      refine ⟨i, holds_iff.2 ⟨(hs i).1.trans hdev, (hs i).2.trans hb'.symm⟩, by simp [hi0]⟩
  · dsimp only at hj ⊢
    by_cases hji : j = i
    · subst hji
      exact ⟨by simp [hi0], by rw [(hs j).2]; simp⟩
    · rw [Function.update_of_ne hji] at hj ⊢
      obtain ⟨h1, hmem⟩ := hP.only j hj
      exact ⟨h1, (hs j).2 ▸ List.mem_append_left _ hmem⟩

end Pinned

/-! ### The loops of `log.c` -/

section Loops

variable {dev : UInt32} {start : ℕ} {h h' : Held Lru}

theorem nproc_lt : Kernel.NPROC + 2 < 2 ^ 32 - 1 := by decide

/-- No pin is moved by `read_head` or `write_head`, and their reference is given back. -/
theorem Pinned.logHead {lh : List UInt32} (hP : Pinned dev lh h)
    (hr : ∀ j, h.refs j ≤ Kernel.NPROC) (hio : logHead lru dev start h = some h') :
    Pinned dev lh h' ∧ h'.refs = h.refs := by
  obtain ⟨⟨i, h₁⟩, hb, hrel⟩ := Option.bind_eq_some_iff.1 hio
  dsimp only at hrel
  have hP₁ := hP.bread (fun j => by have := hr j; have := nproc_lt; omega) hb
  obtain ⟨-, hr₁, -⟩ := bread_lru hb
  refine ⟨hP₁.brelse hrel, ?_⟩
  obtain ⟨-, rfl⟩ := brelse_lru hrel
  dsimp only
  rw [hr₁]
  funext j
  by_cases hj : j = i
  · subst hj; simp
  · simp [Function.update_of_ne hj]

/-- One round of `write_log` or `install_trans(1)`: two `bread`s and their `brelse`s, in either
order, give every reference back. -/
theorem refs_round (r : Fin NBUF → ℕ) (i k : Fin NBUF) :
    let r₁ := Function.update r i (r i + 1)
    let r₂ := Function.update r₁ k (r₁ k + 1)
    (Function.update (Function.update r₂ k (r₂ k - 1)) i
        (Function.update r₂ k (r₂ k - 1) i - 1) = r) ∧
      (Function.update (Function.update r₂ i (r₂ i - 1)) k
        (Function.update r₂ i (r₂ i - 1) k - 1) = r) := by
  constructor <;>
  · funext j
    simp only [Function.update_apply]
    split_ifs <;> subst_vars <;> omega

/-- Two `bread`s from a state with few references move no pin. -/
theorem Pinned.bread_two {lh : List UInt32} {b₁ b₂ : UInt32} {i k : Fin NBUF} {h₁ h₂ : Held Lru}
    (hP : Pinned dev lh h) (hr : ∀ j, h.refs j ≤ Kernel.NPROC)
    (hb₁ : LogCache.bread lru dev h b₁ = some (i, h₁))
    (hb₂ : LogCache.bread lru dev h₁ b₂ = some (k, h₂)) :
    Pinned dev lh h₂ ∧ h₁.refs = Function.update h.refs i (h.refs i + 1) ∧
      h₂.refs = Function.update h₁.refs k (h₁.refs k + 1) ∧ h₂.pins = h.pins := by
  have hP₁ := hP.bread (fun j => by have := hr j; have := nproc_lt; omega) hb₁
  obtain ⟨-, hr₁, hp₁⟩ := bread_lru hb₁
  have hb : ∀ j, h₁.refs j < 2 ^ 32 - 1 := fun j => by
    have := hr j; have := nproc_lt
    rw [hr₁]
    by_cases hj : j = i
    · subst hj; simp; omega
    · simp [Function.update_of_ne hj]; omega
  obtain ⟨-, hr₂, hp₂⟩ := bread_lru hb₂
  exact ⟨hP₁.bread hb hb₂, hr₁, hr₂, hp₂.trans hp₁⟩

/-- `write_log()` moves no pin and gives every reference back. -/
theorem Pinned.writeLog {lh : List UInt32} (bs : List UInt32) :
    ∀ (tail : ℕ) {h h' : Held Lru}, Pinned dev lh h → (∀ j, h.refs j ≤ Kernel.NPROC) →
      LogCache.writeLog lru dev start tail bs h = some h' → Pinned dev lh h' ∧ h'.refs = h.refs := by
  induction bs with
  | nil =>
    intro tail h h' hP _ hw
    cases hw
    exact ⟨hP, rfl⟩
  | cons b bs ih =>
    intro tail h h' hP hr hw
    obtain ⟨⟨i, h₁⟩, hb₁, hw⟩ := Option.bind_eq_some_iff.1 hw
    obtain ⟨⟨k, h₂⟩, hb₂, hw⟩ := Option.bind_eq_some_iff.1 hw
    obtain ⟨h₃, hb₃, hw⟩ := Option.bind_eq_some_iff.1 hw
    obtain ⟨h₄, hb₄, hw⟩ := Option.bind_eq_some_iff.1 hw
    obtain ⟨hP₂, hr₁, hr₂, -⟩ := hP.bread_two hr hb₁ hb₂
    have hP₄ := (hP₂.brelse hb₃).brelse hb₄
    -- the round gives its two references back
    have hr₄ : h₄.refs = h.refs := by
      rw [(brelse_refs hb₄).1, (brelse_refs hb₃).1, hr₂, hr₁]
      exact (refs_round h.refs i k).1
    obtain ⟨hP', hr'⟩ := ih (tail + 1) hP₄ (hr₄ ▸ hr) hw
    exact ⟨hP', hr'.trans hr₄⟩

/-- `install_trans(1)` moves no pin and gives every reference back. -/
theorem Pinned.installTrans_recovering {lh : List UInt32} (bs : List UInt32) :
    ∀ (tail : ℕ) {h h' : Held Lru}, Pinned dev lh h → (∀ j, h.refs j ≤ Kernel.NPROC) →
      LogCache.installTrans lru dev start true tail bs h = some h' →
        Pinned dev lh h' ∧ h'.refs = h.refs := by
  induction bs with
  | nil =>
    intro tail h h' hP _ hw
    cases hw
    exact ⟨hP, rfl⟩
  | cons b bs ih =>
    intro tail h h' hP hr hw
    obtain ⟨⟨i, h₁⟩, hb₁, hw⟩ := Option.bind_eq_some_iff.1 hw
    obtain ⟨⟨k, h₂⟩, hb₂, hw⟩ := Option.bind_eq_some_iff.1 hw
    -- when recovering, nothing is unpinned
    obtain ⟨h₃, hb₃, hw⟩ := Option.bind_eq_some_iff.1 hw
    obtain rfl : h₂ = h₃ := Option.some.inj hb₃
    obtain ⟨h₄, hb₄, hw⟩ := Option.bind_eq_some_iff.1 hw
    obtain ⟨h₅, hb₅, hw⟩ := Option.bind_eq_some_iff.1 hw
    obtain ⟨hP₂, hr₁, hr₂, -⟩ := hP.bread_two hr hb₁ hb₂
    have hP₅ := (hP₂.brelse hb₄).brelse hb₅
    have hr₅ : h₅.refs = h.refs := by
      rw [(brelse_refs hb₅).1, (brelse_refs hb₄).1, hr₂, hr₁]
      exact (refs_round h.refs i k).2
    obtain ⟨hP', hr'⟩ := ih (tail + 1) hP₅ (hr₅ ▸ hr) hw
    exact ⟨hP', hr'.trans hr₅⟩

/-- **`install_trans(0)` takes off exactly the log's pins.**  Each round unpins the buffer that
`bread` finds for the block, which is the one carrying its pin, so the pins left are those of the
blocks after it; at the end none is left, and every reference is given back. -/
theorem installTrans_unpins (bs : List UInt32) :
    ∀ (tail : ℕ) {h h' : Held Lru}, Pinned dev bs h → bs.Nodup → (∀ j, h.refs j ≤ Kernel.NPROC) →
      LogCache.installTrans lru dev start false tail bs h = some h' →
        Pinned dev [] h' ∧ h'.refs = h.refs := by
  induction bs with
  | nil =>
    intro tail h h' hP _ _ hw
    cases hw
    exact ⟨hP, rfl⟩
  | cons b bs ih =>
    intro tail h h' hP hnd hr hw
    obtain ⟨⟨i, h₁⟩, hb₁, hw⟩ := Option.bind_eq_some_iff.1 hw
    obtain ⟨⟨k, h₂⟩, hb₂, hw⟩ := Option.bind_eq_some_iff.1 hw
    obtain ⟨h₃, hb₃, hw⟩ := Option.bind_eq_some_iff.1 hw
    obtain ⟨h₄, hb₄, hw⟩ := Option.bind_eq_some_iff.1 hw
    obtain ⟨h₅, hb₅, hw⟩ := Option.bind_eq_some_iff.1 hw
    obtain ⟨hP₂, hr₁, hr₂, hp₂⟩ := hP.bread_two hr hb₁ hb₂
    -- the home buffer `k` is the one that carries the pin of `b`
    have hk : (h₂.cache.buf k).holds dev b = true :=
      (lru_bread_cases (bread_lru hb₂).1).2
    have hpk : h₂.pins k = 1 := by
      have hP₁ := hP.bread (fun j => by have := hr j; have := nproc_lt; omega) hb₁
      obtain ⟨k', hk', hpk'⟩ := hP₁.pinned b List.mem_cons_self
      obtain rfl := hP₁.bread_pinned hk' (by omega) hb₂
      rw [hp₂, ← (bread_lru hb₁).2.2]
      exact hpk'
    have hP₃ := hP₂.unpin hnd hk hpk hb₃
    have hP₅ := (hP₃.brelse hb₄).brelse hb₅
    have hr₅ : h₅.refs = h.refs := by
      rw [(brelse_refs hb₅).1, (brelse_refs hb₄).1, bunpin_refs hb₃, hr₂, hr₁]
      exact (refs_round h.refs i k).2
    obtain ⟨hP', hr'⟩ := ih (tail + 1) hP₅ (List.nodup_cons.1 hnd).2 (hr₅ ▸ hr) hw
    exact ⟨hP', hr'.trans hr₅⟩

/-- With no block in the log, no buffer carries a pin. -/
theorem Pinned.pins_eq_zero (hP : Pinned dev [] h) (i : Fin NBUF) : h.pins i = 0 := by
  by_contra hne
  exact List.not_mem_nil (hP.only i hne).2

/-- **`commit()` unpins the log.**  After it no buffer carries a pin, and every reference taken
by the commit is given back. -/
theorem Pinned.commit {lh : List UInt32} (hP : Pinned dev lh h) (hnd : lh.Nodup)
    (hr : ∀ j, h.refs j ≤ Kernel.NPROC) (hc : LogCache.commit lru dev start lh h = some h') :
    Pinned dev [] h' ∧ h'.refs = h.refs := by
  unfold LogCache.commit at hc
  split_ifs at hc with hlen
  · obtain ⟨h₁, hw, hc⟩ := Option.bind_eq_some_iff.1 hc
    obtain ⟨h₂, hh₂, hc⟩ := Option.bind_eq_some_iff.1 hc
    obtain ⟨h₃, hi₃, hh₄⟩ := Option.bind_eq_some_iff.1 hc
    -- `write_log`, then the `write_head` that commits
    obtain ⟨hP₁, hr₁⟩ := hP.writeLog lh 0 hr hw
    obtain ⟨hP₂, hr₂⟩ := hP₁.logHead (hr₁ ▸ hr) hh₂
    -- `install_trans(0)`, then the `write_head` that erases the transaction
    obtain ⟨hP₃, hr₃⟩ := installTrans_unpins lh 0 hP₂ hnd (hr₂ ▸ hr₁ ▸ hr) hi₃
    obtain ⟨hP₄, hr₄⟩ := hP₃.logHead (hr₃ ▸ hr₂ ▸ hr₁ ▸ hr) hh₄
    exact ⟨hP₄, hr₄.trans (hr₃.trans (hr₂.trans hr₁))⟩
  · -- an empty log commits nothing
    cases hc
    rw [List.length_pos_iff, not_not] at hlen
    exact ⟨hlen ▸ hP, rfl⟩

/-- `recover_from_log()` on a log with no pins leaves none. -/
theorem Pinned.recoverFromLog {hdr : List UInt32} (hP : Pinned dev [] h)
    (hr : ∀ j, h.refs j ≤ Kernel.NPROC) (hc : LogCache.recoverFromLog lru dev start hdr h = some h') :
    Pinned dev [] h' ∧ h'.refs = h.refs := by
  obtain ⟨h₁, hh₁, hc⟩ := Option.bind_eq_some_iff.1 hc
  obtain ⟨h₂, hi₂, hh₃⟩ := Option.bind_eq_some_iff.1 hc
  obtain ⟨hP₁, hr₁⟩ := hP.logHead hr hh₁
  obtain ⟨hP₂, hr₂⟩ := hP₁.installTrans_recovering hdr 0 (hr₁ ▸ hr) hi₂
  obtain ⟨hP₃, hr₃⟩ := hP₂.logHead (hr₂ ▸ hr₁ ▸ hr) hh₃
  exact ⟨hP₃, hr₃.trans (hr₂.trans hr₁)⟩

end Loops

/-! ### The invariant of the log -/

/-- `log_write`'s loop stops at the block's entry, which holds the block already. -/
theorem set_findIdx {lh : List UInt32} {b : UInt32} (hk : lh.findIdx (· == b) ≠ lh.length) :
    lh.set (lh.findIdx (· == b)) b = lh := by
  have hlt : lh.findIdx (· == b) < lh.length := lt_of_le_of_ne List.findIdx_le_length hk
  have hb : lh[lh.findIdx (· == b)] = b := by
    simpa using List.findIdx_getElem (w := hlt)
  conv_rhs => rw [← List.set_getElem_self hlt]
  rw [hb]

/-- `log_write`'s loop runs to `n` only for a block not in the log. -/
theorem not_mem_of_findIdx {lh : List UInt32} {b : UInt32} (hk : lh.findIdx (· == b) = lh.length) :
    b ∉ lh := by
  intro hb
  have := List.findIdx_eq_length.1 hk b hb
  simp at this

/-- The invariant of the log on the recency list. -/
structure PinInv (dev : UInt32) (s : St Lru) : Prop where
  pinned : Pinned dev s.lh s.held
  /-- No buffer has more references than there are processes. -/
  refs : ∀ j, s.held.refs j ≤ Kernel.NPROC
  nodup : s.lh.Nodup
  length : s.lh.length ≤ LOGBLOCKS
  boot : s.booted = false → s.lh = []

section Step

variable {dev : UInt32} {start : ℕ}

/-- `b->blockno` on the list. -/
abbrev lruBno : Lru → Fin NBUF → UInt32 := fun a i => (a.buf i).blockno

theorem pinInv_init : PinInv dev ⟨⟨Lru.init, fun _ => 0, fun _ => 0⟩, [], 0, false⟩ := by
  refine ⟨⟨inv_init, fun _ h => by simp at h, by simp, fun _ h => by simp at h⟩, fun _ => by simp,
    List.nodup_nil, by simp, fun _ => rfl⟩

/-- `log_write` keeps the invariant: an absorbed block changes nothing, and a new one is pinned
in the buffer that the call holds. -/
theorem PinInv.logWrite {h : Held Lru} {lh : List UInt32} {out : ℕ} {s' : St Lru} {e : Ev}
    {i : Fin NBUF} (hI : PinInv dev ⟨h, lh, out, true⟩)
    (hs : LogCache.logWrite lru lruBno ⟨h, lh, out, true⟩ i = some (s', e)) : PinInv dev s' := by
  unfold LogCache.logWrite at hs
  dsimp only at hs
  split_ifs at hs with hfull hout hk
  · -- a new block: `bpin`, and one more entry
    split at hs
    · rename_i h' hp
      obtain ⟨rfl, -⟩ := Prod.mk.inj (Option.some.inj hs)
      have hnew := not_mem_of_findIdx hk
      obtain ⟨hr, rfl⟩ := pin_lru hp rfl
      refine ⟨hI.pinned.pin hnew hp, hI.refs, List.nodup_append.2 ⟨hI.nodup, by simp, ?_⟩, ?_,
        fun h => by cases h⟩
      · intro a ha b hb
        rw [List.mem_singleton] at hb
        rintro rfl
        exact hnew (hb ▸ ha)
      · simp only [List.length_append, List.length_singleton]
        omega
    · obtain ⟨rfl, -⟩ := Prod.mk.inj (Option.some.inj hs)
      exact hI
  · -- log absorption
    obtain ⟨rfl, -⟩ := Prod.mk.inj (Option.some.inj hs)
    rw [set_findIdx hk]
    exact hI

/-- `end_op` keeps the invariant: the last one commits, which empties the log and unpins it. -/
theorem PinInv.endOp {h : Held Lru} {lh : List UInt32} {out : ℕ} {s' : St Lru} {e : Ev}
    (hI : PinInv dev ⟨h, lh, out, true⟩)
    (hs : LogCache.endOp lru dev start ⟨h, lh, out, true⟩ = some (s', e)) : PinInv dev s' := by
  unfold LogCache.endOp at hs
  dsimp only at hs
  split_ifs at hs with h0 h1
  · obtain ⟨rfl, -⟩ := Prod.mk.inj (Option.some.inj hs)
    exact hI
  · obtain ⟨h', hc, he⟩ := Option.map_eq_some_iff.1 hs
    obtain ⟨rfl, -⟩ := Prod.mk.inj he
    obtain ⟨hP, hr⟩ := hI.pinned.commit hI.nodup hI.refs hc
    exact ⟨hP, hr ▸ hI.refs, List.nodup_nil, by simp, fun h => by cases h⟩
  · obtain ⟨rfl, -⟩ := Prod.mk.inj (Option.some.inj hs)
    exact ⟨hI.pinned, hI.refs, hI.nodup, hI.length, fun h => by cases h⟩

/-- **Every call keeps the invariant.** -/
theorem PinInv.step {s s' : St Lru} {c : Call} {e : Ev} (hI : PinInv dev s)
    (hs : LogCache.step lru dev start lruBno s c = some (s', e)) : PinInv dev s' := by
  obtain ⟨h, lh, out, booted⟩ := s
  cases booted
  · -- before `initlog` the log is empty; `recover_from_log` pins nothing
    by_cases hc : ∃ hdr, c = .initlog hdr
    · obtain ⟨hdr, rfl⟩ := hc
      rw [step_boot] at hs
      obtain ⟨h', hrec, he⟩ := Option.map_eq_some_iff.1 hs
      obtain ⟨rfl, -⟩ := Prod.mk.inj he
      have hlh : lh = [] := hI.boot rfl
      subst hlh
      obtain ⟨hP, hr⟩ := hI.pinned.recoverFromLog hI.refs hrec
      exact ⟨hP, hr ▸ hI.refs, List.nodup_nil, by simp, fun _ => rfl⟩
    · rw [step_unbooted _ _ _ _ fun hdr he => hc ⟨hdr, he⟩] at hs
      obtain ⟨rfl, -⟩ := Prod.mk.inj (Option.some.inj hs)
      exact hI
  cases c with
  | initlog hdr =>
    rw [step_initlog] at hs
    obtain ⟨rfl, -⟩ := Prod.mk.inj (Option.some.inj hs)
    exact hI
  | beginOp =>
    rw [step_beginOp] at hs
    unfold beginOp at hs
    split_ifs at hs <;> obtain ⟨rfl, -⟩ := Prod.mk.inj (Option.some.inj hs)
    · exact hI
    · exact ⟨hI.pinned, hI.refs, hI.nodup, hI.length, fun h => by cases h⟩
  | read b =>
    rw [step_read] at hs
    split_ifs at hs with hg
    · obtain ⟨rfl, -⟩ := Prod.mk.inj (Option.some.inj hs)
      exact hI
    · -- a call's `bread`: every buffer had fewer than `NPROC` references
      obtain ⟨⟨i, h'⟩, hb, he⟩ := Option.map_eq_some_iff.1 hs
      obtain ⟨rfl, -⟩ := Prod.mk.inj he
      push Not at hg
      have hP := hI.pinned.bread (fun j => by dsimp only; have := hg j; have := nproc_lt; omega) hb
      refine ⟨hP, fun j => ?_, hI.nodup, hI.length, fun h => by cases h⟩
      rw [(bread_lru hb).2.1]
      by_cases hj : j = i
      · subst hj
        simp only [Function.update_self]
        exact hg j
      · simpa [Function.update_of_ne hj] using (hg j).le
  | release i =>
    rw [step_release] at hs
    obtain ⟨h', hb, he⟩ := Option.map_eq_some_iff.1 hs
    obtain ⟨rfl, -⟩ := Prod.mk.inj he
    refine ⟨hI.pinned.brelse hb, fun j => ?_, hI.nodup, hI.length, fun h => by cases h⟩
    rw [(brelse_refs hb).1]
    by_cases hj : j = i
    · subst hj
      have := hI.refs j
      dsimp only at this
      simp only [Function.update_self]
      omega
    · simpa [Function.update_of_ne hj] using hI.refs j
  | logWrite i =>
    rw [step_logWrite] at hs
    exact hI.logWrite hs
  | endOp =>
    rw [step_endOp] at hs
    exact hI.endOp hs

/-- The invariant holds in every state of the log on the list that no panic has stopped. -/
theorem pinInv_reachable {s : St Lru} (h : (lruLog dev start).Reachable (some s)) : PinInv dev s :=
  Machine.Reachable.ofPartial_induction (PinInv dev) pinInv_init
    (fun _ _ _ _ hI hs => hI.step hs) h

/-- The last `end_op` commits: the log is empty after, no buffer carries a pin, and every
reference of the calls is as it was. -/
theorem PinInv.endOp_last {s s' : St Lru} {e : Ev} (hI : PinInv dev s) (h1 : s.outstanding = 1)
    (hs : LogCache.step lru dev start lruBno s .endOp = some (s', e)) :
    s'.lh = [] ∧ s'.held.refs = s.held.refs ∧ Pinned dev [] s'.held := by
  obtain ⟨h, lh, out, booted⟩ := s
  dsimp only at h1
  subst h1
  cases booted
  · -- before `initlog` the call is refused, and the log is empty
    rw [step_unbooted _ _ _ _ fun _ he => by cases he] at hs
    obtain ⟨rfl, -⟩ := Prod.mk.inj (Option.some.inj hs)
    have hlh : lh = [] := hI.boot rfl
    exact ⟨hlh, rfl, hlh ▸ hI.pinned⟩
  · rw [step_endOp] at hs
    unfold LogCache.endOp at hs
    dsimp only at hs
    rw [if_neg (by decide), if_pos rfl] at hs
    obtain ⟨h', hc, he⟩ := Option.map_eq_some_iff.1 hs
    obtain ⟨rfl, -⟩ := Prod.mk.inj he
    obtain ⟨hP, hr⟩ := hI.pinned.commit hI.nodup hI.refs hc
    exact ⟨rfl, hr, hP⟩

end Step

/-! ### The log on `bio.c` -/

end LogCache

end Fs

end Xv6Net
