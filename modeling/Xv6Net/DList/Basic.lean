import Mathlib.Data.List.Nodup
import Mathlib.Logic.Function.Basic

/-!
# Doubly linked rings

A circular doubly linked list through a sentinel node: every node has a `next` and a `prev`
field (`Links.nx`, `Links.pv`), and the nodes `l₀, …, lₖ` form the ring
`s → l₀ → … → lₖ → s` through the sentinel `s` when each points at its neighbours both ways
and no node occurs twice (`Links.Ring`).  The pointer updates of the two standard operations
are given as the statements of the C code:

* `Links.unlink b` : `b->next->prev = b->prev; b->prev->next = b->next;` takes `b` out of the
  ring (`Links.Ring.unlink`);
* `Links.pushFront s b` : `b->next = s->next; b->prev = s; s->next->prev = b; s->next = b;`
  makes `b` the first node (`Links.Ring.pushFront`); moving a node to the front is the two in
  turn (`Links.Ring.moveFront`).
* `findFrom f s P n p` : the loop `for(q = p; q != s; q = f(q)) if(P(q)) return q;` with at most
  `n` rounds.  Along `next` from `s->next` it returns the first node of the ring satisfying `P`
  (`Links.Ring.findFrom_nx`), along `prev` from `s->prev` the last (`Links.Ring.findFrom_pv`).

The proofs work on `Links.Chain`, the links between consecutive nodes of a list: a chain splits
at any node (`Links.chain_append_cons`), and survives updates of fields that it does not use
(`Links.Chain.congr`).
-/

namespace Xv6Net

namespace DList

variable {α : Type*}

/-- The `next` and `prev` fields of every node. -/
structure Links (α : Type*) where
  nx : α → α
  pv : α → α

/-- `for(q = p; q != s; q = f(q)) if(P(q)) return q;`, with at most `n` rounds. -/
def findFrom [DecidableEq α] (f : α → α) (s : α) (P : α → Bool) : ℕ → α → Option α
  | 0, _ => none
  | n + 1, p => if p = s then none else if P p then some p else findFrom f s P n (f p)

/-- A first match that also satisfies a stronger predicate is its first match. -/
theorem find?_eq_some_of_imp {l : List α} {p q : α → Bool} {a : α} (h : l.find? p = some a)
    (ha : q a) (hqp : ∀ x, q x → p x) : l.find? q = some a := by
  obtain ⟨-, as, bs, rfl, has⟩ := List.find?_eq_some_iff_append.1 h
  refine List.find?_eq_some_iff_append.2 ⟨ha, as, bs, rfl, fun x hx => ?_⟩
  -- what `p` rejects, `q` rejects
  cases hq : q x
  · rfl
  · simpa [hqp x hq] using has x hx

/-- Erasing a node that does not match leaves the first match. -/
theorem find?_erase_of_not [DecidableEq α] {l : List α} {p : α → Bool} {a : α} (ha : p a = false) :
    (l.erase a).find? p = l.find? p := by
  induction l with
  | nil => rfl
  | cons b l ih =>
    by_cases hb : b = a
    · subst hb; simp [ha]
    · simp [hb, List.find?_cons, ih]

namespace Links

/-- The same links, read in the other direction. -/
def swap (L : Links α) : Links α := ⟨L.pv, L.nx⟩

/-- Consecutive nodes of the list point at each other. -/
def Chain (L : Links α) : List α → Prop
  | a :: b :: rest => L.nx a = b ∧ L.pv b = a ∧ L.Chain (b :: rest)
  | _ => True

/-- The ring `s → l₀ → … → lₖ → s` through the sentinel `s`, with every node once. -/
structure Ring (L : Links α) (s : α) (l : List α) : Prop where
  chain : L.Chain (s :: l ++ [s])
  nodup : (s :: l).Nodup

section Ops

variable [DecidableEq α]

/-- `b->next->prev = b->prev; b->prev->next = b->next;` -/
def unlink (L : Links α) (b : α) : Links α :=
  let L₁ : Links α := ⟨L.nx, Function.update L.pv (L.nx b) (L.pv b)⟩
  ⟨Function.update L₁.nx (L₁.pv b) (L₁.nx b), L₁.pv⟩

/-- `b->next = s->next; b->prev = s; s->next->prev = b; s->next = b;` -/
def pushFront (L : Links α) (s b : α) : Links α :=
  let L₁ : Links α := ⟨Function.update L.nx b (L.nx s), L.pv⟩
  let L₂ : Links α := ⟨L₁.nx, Function.update L₁.pv b s⟩
  let L₃ : Links α := ⟨L₂.nx, Function.update L₂.pv (L₂.nx s) b⟩
  ⟨Function.update L₃.nx s b, L₃.pv⟩

end Ops

@[simp] theorem chain_nil (L : Links α) : L.Chain [] := trivial

@[simp] theorem chain_singleton (L : Links α) (a : α) : L.Chain [a] := trivial

@[simp] theorem chain_cons_cons (L : Links α) (a b : α) (rest : List α) :
    L.Chain (a :: b :: rest) ↔ L.nx a = b ∧ L.pv b = a ∧ L.Chain (b :: rest) := Iff.rfl

/-- A chain splits at any of its nodes. -/
theorem chain_append_cons (L : Links α) (xs ys : List α) (y : α) :
    L.Chain (xs ++ y :: ys) ↔ L.Chain (xs ++ [y]) ∧ L.Chain (y :: ys) := by
  induction xs with
  | nil => simp
  | cons a xs ih =>
    cases xs with
    | nil => simp [and_assoc]
    | cons b xs => simp only [List.cons_append, chain_cons_cons] at ih ⊢; rw [ih]; tauto

/-- A chain uses the `next` field of its nodes but the last, and the `prev` field of its nodes
but the first: changing other fields keeps it. -/
theorem Chain.congr {L L' : Links α} {xs : List α} (h : L.Chain xs)
    (hnx : ∀ a ∈ xs.dropLast, L'.nx a = L.nx a) (hpv : ∀ b ∈ xs.tail, L'.pv b = L.pv b) :
    L'.Chain xs := by
  induction xs with
  | nil => trivial
  | cons a xs ih =>
    cases xs with
    | nil => trivial
    | cons b xs =>
      obtain ⟨h₁, h₂, h₃⟩ := h
      refine ⟨by rw [hnx a (by simp), h₁], by rw [hpv b (by simp), h₂], ih h₃ ?_ ?_⟩
      · intro x hx; exact hnx x (List.mem_cons_of_mem _ hx)
      · intro x hx; exact hpv x (List.mem_cons_of_mem _ hx)

theorem Chain.of_cons {L : Links α} {a : α} {xs : List α} (h : L.Chain (a :: xs)) : L.Chain xs := by
  cases xs with
  | nil => trivial
  | cons b xs => exact h.2.2

/-- Read backwards, a chain is a chain of the swapped links. -/
theorem Chain.reverse {L : Links α} {xs : List α} (h : L.Chain xs) : L.swap.Chain xs.reverse := by
  induction xs with
  | nil => trivial
  | cons a xs ih =>
    cases xs with
    | nil => trivial
    | cons b xs =>
      obtain ⟨h₁, h₂, h₃⟩ := h
      rw [List.reverse_cons, List.reverse_cons, List.append_assoc, List.singleton_append,
        chain_append_cons]
      exact ⟨by simpa using ih h₃, h₂, h₁, trivial⟩

/-- The ring read backwards. -/
theorem Ring.swap {L : Links α} {s : α} {l : List α} (h : L.Ring s l) : L.swap.Ring s l.reverse := by
  refine ⟨?_, ?_⟩
  · have := h.chain.reverse
    simpa using this
  · have := h.nodup
    rw [List.nodup_cons] at this ⊢
    exact ⟨by simpa using this.1, List.nodup_reverse.2 this.2⟩

/-- The empty ring: the sentinel points at itself. -/
theorem ring_nil {L : Links α} {s : α} (hn : L.nx s = s) (hp : L.pv s = s) : L.Ring s [] :=
  ⟨⟨hn, hp, trivial⟩, List.nodup_singleton s⟩

theorem Ring.nx_sentinel {L : Links α} {s : α} {l : List α} (h : L.Ring s l) :
    L.nx s = (l ++ [s]).head (by simp) := by
  have := h.chain
  cases l <;> exact this.1

section Ops

variable [DecidableEq α]

@[simp] theorem unlink_nx (L : Links α) (b x : α) :
    (L.unlink b).nx x = if x = L.pv b then L.nx b else L.nx x := by
  -- the first statement leaves `b->prev` alone
  have h₁ : Function.update L.pv (L.nx b) (L.pv b) b = L.pv b := by
    simp only [Function.update_apply]; split_ifs <;> rfl
  show Function.update L.nx (Function.update L.pv (L.nx b) (L.pv b) b) (L.nx b) x = _
  rw [h₁, Function.update_apply]

@[simp] theorem unlink_pv (L : Links α) (b x : α) :
    (L.unlink b).pv x = if x = L.nx b then L.pv b else L.pv x := by
  simp only [unlink, Function.update_apply]

theorem pushFront_nx (L : Links α) (s b x : α) :
    (L.pushFront s b).nx x = if x = s then b else if x = b then L.nx s else L.nx x := by
  simp only [pushFront, Function.update_apply]

theorem pushFront_pv (L : Links α) {s b : α} (hbs : b ≠ s) (x : α) :
    (L.pushFront s b).pv x = if x = L.nx s then b else if x = b then s else L.pv x := by
  simp only [pushFront, Function.update_apply, if_neg hbs.symm]

/-- **Unlinking a node takes it out of the ring.** -/
theorem Ring.unlink {L : Links α} {s b : α} {xs ys : List α} (h : L.Ring s (xs ++ b :: ys)) :
    (L.unlink b).Ring s (xs ++ ys) := by
  have hnd := h.nodup
  simp only [List.nodup_cons, List.nodup_append, List.mem_append, List.mem_cons, not_or] at hnd
  obtain ⟨⟨hsx, -, hsy⟩, hxs, ⟨-, hys⟩, hxby⟩ := hnd
  -- `p` and `q` are the neighbours of `b`
  obtain ⟨A, p, hAp⟩ : ∃ A p, s :: xs = A ++ [p] :=
    ⟨_, _, (List.dropLast_append_getLast (List.cons_ne_nil s xs)).symm⟩
  obtain ⟨q, rest, hqr⟩ : ∃ q rest, ys ++ [s] = q :: rest :=
    ⟨_, _, (List.cons_head_tail (by simp : ys ++ [s] ≠ [])).symm⟩
  have e : s :: (xs ++ b :: ys) ++ [s] = A ++ p :: b :: q :: rest := by
    calc s :: (xs ++ b :: ys) ++ [s] = (s :: xs) ++ b :: (ys ++ [s]) := by simp
      _ = A ++ p :: b :: q :: rest := by rw [hAp, hqr]; simp
  have e' : s :: (xs ++ ys) ++ [s] = A ++ p :: q :: rest := by
    calc s :: (xs ++ ys) ++ [s] = (s :: xs) ++ (ys ++ [s]) := by simp
      _ = A ++ p :: q :: rest := by rw [hAp, hqr]; simp
  have hc := h.chain
  rw [e, chain_append_cons] at hc
  obtain ⟨hcA, hpb, hbp, hbq, hqb, hcq⟩ := hc
  -- where `p` and `q` are not
  have hpA : p ∉ A := by
    have : (A ++ [p]).Nodup := hAp ▸ List.nodup_cons.2 ⟨hsx, hxs⟩
    rw [List.nodup_append] at this
    exact fun hp => this.2.2 p hp p (by simp) rfl
  have hqx : q ∉ xs := by
    have hq : q ∈ ys ++ [s] := hqr ▸ List.mem_cons_self
    intro hx
    rcases List.mem_append.1 hq with e | e
    · exact hxby q hx q (Or.inr e) rfl
    · rw [List.mem_singleton.1 e] at hx; exact hsx hx
  have hpy : p ∉ ys := by
    have hp : p ∈ s :: xs := hAp ▸ List.mem_append_right _ (List.mem_singleton_self p)
    rcases List.mem_cons.1 hp with e | e
    · rw [e]; exact hsy
    · exact fun hy => hxby p e p (Or.inr hy) rfl
  have hqrest : q ∉ rest := by
    have : (ys ++ [s]).Nodup := by
      rw [List.nodup_append]; simpa using ⟨hys, fun a ha e => hsy (e ▸ ha)⟩
    rw [hqr] at this; exact (List.nodup_cons.1 this).1
  have hAtail : (A ++ [p]).tail = xs := by rw [← hAp]; rfl
  have hdrop : (q :: rest).dropLast = ys := by rw [← hqr]; simp
  refine ⟨?_, h.nodup.sublist ?_⟩
  · -- the new chain: `… → p → q → …`
    rw [e', chain_append_cons]
    refine ⟨hcA.congr ?_ ?_, by simp [hbp, hbq], by simp [hbq, hbp], hcq.congr ?_ ?_⟩
    · intro a ha
      rw [List.dropLast_concat] at ha
      have : a ≠ L.pv b := hbp ▸ fun e => hpA (e ▸ ha)
      simp [this]
    · intro a ha
      rw [hAtail] at ha
      have : a ≠ L.nx b := hbq ▸ fun e => hqx (e ▸ ha)
      simp [this]
    · intro a ha
      rw [hdrop] at ha
      have : a ≠ L.pv b := hbp ▸ fun e => hpy (e ▸ ha)
      simp [this]
    · intro a ha
      have : a ≠ L.nx b := hbq ▸ fun e => hqrest (e ▸ ha)
      simp [this]
  · exact List.Sublist.cons_cons _ (List.Sublist.append_left (List.sublist_cons_self _ _) _)

/-- **Pushing a node in front puts it first in the ring.** -/
theorem Ring.pushFront {L : Links α} {s b : α} {l : List α} (h : L.Ring s l) (hb : b ∉ s :: l) :
    (L.pushFront s b).Ring s (b :: l) := by
  have hbs : b ≠ s := fun e => hb (by simp [e])
  have hbl : b ∉ l := fun e => hb (List.mem_cons_of_mem _ e)
  have hsl : s ∉ l := (List.nodup_cons.1 h.nodup).1
  -- `q` is the node after `s`
  obtain ⟨q, rest, hqr⟩ : ∃ q rest, l ++ [s] = q :: rest :=
    ⟨_, _, (List.cons_head_tail (by simp : l ++ [s] ≠ [])).symm⟩
  have hsq : L.nx s = q := by rw [h.nx_sentinel]; simp [hqr]
  have hnb : ∀ a ∈ q :: rest, a ≠ b := by
    intro a ha e
    rw [← hqr, e] at ha
    rcases List.mem_append.1 ha with e' | e'
    · exact hbl e'
    · exact hbs (List.mem_singleton.1 e')
  have hnd' : (q :: rest).Nodup := by
    rw [← hqr, List.nodup_append]
    simpa using ⟨(List.nodup_cons.1 h.nodup).2, fun a ha e => hsl (e ▸ ha)⟩
  have hc : L.Chain (q :: rest) := hqr ▸ h.chain.of_cons
  have hqb : q ≠ b := hnb q List.mem_cons_self
  refine ⟨?_, ?_⟩
  · show (L.pushFront s b).Chain (s :: b :: (l ++ [s]))
    rw [hqr]
    refine ⟨by simp [pushFront_nx], by simp [pushFront_pv L hbs, hsq, hqb.symm],
      by simp [pushFront_nx, hbs, hsq], by simp [pushFront_pv L hbs, hsq], ?_⟩
    refine hc.congr ?_ ?_
    · intro a ha
      -- the nodes before the end are those of `l`
      have hal : a ∈ l := by
        have : (q :: rest).dropLast = l := by rw [← hqr]; simp
        rwa [this] at ha
      have has : a ≠ s := fun e => hsl (e ▸ hal)
      simp [pushFront_nx, has, hnb a (hqr ▸ List.mem_append_left _ hal)]
    · intro a ha
      have haq : a ≠ q := fun e => (List.nodup_cons.1 hnd').1 (e ▸ ha)
      simp [pushFront_pv L hbs, hsq, haq, hnb a (List.mem_cons_of_mem _ ha)]
  · rw [List.nodup_cons, List.nodup_cons]
    refine ⟨?_, ⟨hbl, (List.nodup_cons.1 h.nodup).2⟩⟩
    simp only [List.mem_cons, not_or]
    exact ⟨hbs.symm, hsl⟩

/-- Moving a node of the ring to the front. -/
theorem Ring.moveFront {L : Links α} {s b : α} {xs ys : List α} (h : L.Ring s (xs ++ b :: ys)) :
    ((L.unlink b).pushFront s b).Ring s (b :: (xs ++ ys)) := by
  refine h.unlink.pushFront ?_
  have := h.nodup
  rw [List.nodup_cons, List.nodup_append] at this
  intro hb
  rcases List.mem_cons.1 hb with hb | hb
  · exact this.1 (by simp [hb])
  · rcases List.mem_append.1 hb with hb | hb
    · exact this.2.2.2 b hb b (by simp) rfl
    · exact (List.nodup_cons.1 this.2.2.1).1 hb

/-- **Pushing nodes in front one after the other** leaves them first, the last pushed first. -/
theorem Ring.foldl_pushFront {s : α} :
    ∀ {L : Links α} {l : List α} (ks : List α), L.Ring s l → (s :: (ks ++ l)).Nodup →
      (ks.foldl (fun L k => L.pushFront s k) L).Ring s (ks.reverse ++ l)
  | _, _, [], h, _ => h
  | _, l, k :: ks, h, hnd => by
    -- the ring after `k`, and the remaining nodes are new to it
    have hk : k ∉ s :: l := by
      simp only [List.cons_append, List.nodup_cons, List.mem_cons, List.mem_append, not_or] at hnd
      simp only [List.mem_cons, not_or]
      exact ⟨fun e => hnd.1.1 e.symm, hnd.2.1.2⟩
    have hnd' : (s :: (ks ++ k :: l)).Nodup := by
      refine (List.Perm.nodup_iff ?_).1 hnd
      exact List.Perm.cons _ List.perm_middle.symm
    have := Ring.foldl_pushFront ks (h.pushFront hk) hnd'
    simpa using this

/-! ### Searching the ring -/

theorem findFrom_chain (L : Links α) (s : α) (P : α → Bool) :
    ∀ (l : List α) (n : ℕ), L.Chain (l ++ [s]) → s ∉ l → l.length < n →
      findFrom L.nx s P n ((l ++ [s]).head (by simp)) = l.find? P := by
  intro l
  induction l with
  | nil => intro n _ _ hn; obtain ⟨n, rfl⟩ : ∃ m, n = m + 1 := ⟨n - 1, by simp at hn; omega⟩; simp [findFrom]
  | cons a l ih =>
    intro n hc hs hn
    obtain ⟨n, rfl⟩ : ∃ m, n = m + 1 := ⟨n - 1, by simp at hn; omega⟩
    have has : a ≠ s := fun e => hs (by simp [e])
    simp only [List.cons_append, List.head_cons, findFrom, has, ↓reduceIte]
    by_cases hP : P a = true
    · simp only [hP, ↓reduceIte, List.find?_cons_of_pos]
    · simp only [hP, Bool.false_eq_true, ↓reduceIte, List.find?_cons_of_neg hP]
      have hnx : L.nx a = (l ++ [s]).head (by simp) := by
        cases l <;> exact hc.1
      rw [hnx]
      exact ih n hc.of_cons (fun e => hs (List.mem_cons_of_mem _ e)) (by simp at hn; omega)

/-- **Searching along `next` from the first node finds the first match.** -/
theorem Ring.findFrom_nx {L : Links α} {s : α} {l : List α} (h : L.Ring s l) (P : α → Bool)
    {n : ℕ} (hn : l.length < n) : findFrom L.nx s P n (L.nx s) = l.find? P := by
  rw [h.nx_sentinel]
  exact findFrom_chain L s P l n h.chain.of_cons (List.nodup_cons.1 h.nodup).1 hn

/-- **Searching along `prev` from the last node finds the last match.** -/
theorem Ring.findFrom_pv {L : Links α} {s : α} {l : List α} (h : L.Ring s l) (P : α → Bool)
    {n : ℕ} (hn : l.length < n) : findFrom L.pv s P n (L.pv s) = l.reverse.find? P := by
  have := h.swap.findFrom_nx P (n := n) (by simpa using hn)
  exact this

end Ops

end Links

end DList

end Xv6Net
