import Mathlib.Logic.Function.Basic
import Mathlib.Data.List.Basic
import Mathlib.Data.List.Induction

/-!
# Stores and lists of writes

A store is a function from keys to values, and a write replaces the value at one key.

* `Store.applyWrites f ws` : the store `f` after the writes `ws`, in order.
* `Store.lastWrite ws a` : the value of the last write to `a` in `ws`, if there is one.

`Store.applyWrites_apply` says that a list of writes leaves at each key the value of its last
write there, and the store's value where it writes nothing; with `Store.applyWrites_append`,
writes made in groups are the writes of the groups one after the other.
-/

namespace Xv6Net

namespace Store

variable {α β : Type*} [DecidableEq α]

/-- The store `f` after the writes `ws`, in order. -/
def applyWrites (f : α → β) (ws : List (α × β)) : α → β :=
  ws.foldl (fun g w => Function.update g w.1 w.2) f

/-- The value of the last write to `a` in `ws`. -/
def lastWrite (ws : List (α × β)) (a : α) : Option β :=
  ws.foldl (fun o w => if w.1 = a then some w.2 else o) none

@[simp] theorem applyWrites_nil (f : α → β) : applyWrites f [] = f := rfl

@[simp] theorem applyWrites_append (f : α → β) (ws ws' : List (α × β)) :
    applyWrites f (ws ++ ws') = applyWrites (applyWrites f ws) ws' := by
  simp [applyWrites, List.foldl_append]

@[simp] theorem applyWrites_singleton (f : α → β) (w : α × β) :
    applyWrites f [w] = Function.update f w.1 w.2 := rfl

@[simp] theorem lastWrite_nil (a : α) : lastWrite ([] : List (α × β)) a = none := rfl

@[simp] theorem lastWrite_append_singleton (ws : List (α × β)) (w : α × β) (a : α) :
    lastWrite (ws ++ [w]) a = if w.1 = a then some w.2 else lastWrite ws a := by
  simp [lastWrite, List.foldl_append]

/-- **Last write wins.** -/
theorem applyWrites_apply (f : α → β) (ws : List (α × β)) (a : α) :
    applyWrites f ws a = (lastWrite ws a).getD (f a) := by
  induction ws using List.reverseRecOn with
  | nil => rfl
  | append_singleton ws w ih =>
    rw [applyWrites_append, applyWrites_singleton, lastWrite_append_singleton]
    by_cases h : w.1 = a
    · subst h; simp
    · rw [Function.update_of_ne (Ne.symm h), if_neg h, ih]

theorem lastWrite_eq_none_iff (ws : List (α × β)) (a : α) :
    lastWrite ws a = none ↔ ∀ w ∈ ws, w.1 ≠ a := by
  induction ws using List.reverseRecOn with
  | nil => simp
  | append_singleton ws w ih =>
    rw [lastWrite_append_singleton]
    by_cases h : w.1 = a
    · rw [if_pos h]
      constructor
      · intro hc; cases hc
      · intro hall; exact absurd h (hall w (by simp))
    · rw [if_neg h, ih]
      constructor
      · intro hws x hx
        rcases List.mem_append.1 hx with hx | hx
        · exact hws x hx
        · rw [List.mem_singleton.1 hx]; exact h
      · intro hall x hx
        exact hall x (List.mem_append_left _ hx)

/-- A key that no write names keeps its value. -/
theorem applyWrites_of_forall_ne (f : α → β) {ws : List (α × β)} {a : α}
    (h : ∀ w ∈ ws, w.1 ≠ a) : applyWrites f ws a = f a := by
  rw [applyWrites_apply, (lastWrite_eq_none_iff ws a).2 h]
  rfl

end Store

end Xv6Net
