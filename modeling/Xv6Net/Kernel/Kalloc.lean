import Mathlib.Logic.Function.Basic
import Mathlib.Data.List.Basic

/-!
# The physical page allocator (`kalloc.c`)

`kmem.freelist` is a stack of free pages threaded through the pages themselves: `kfree` pushes a
page after filling it with the junk byte `1`, `kalloc` pops one and fills it with `5`, and
returns `0` when the list is empty.  The contents of physical pages are part of the state
(`Phys.mem`), since the network code builds frames in pages and the device reads and writes
them.
-/

namespace Xv6Net

namespace Kernel

def PGSIZE : ℕ := 4096

/-- `kmem.freelist` (the page on top first) and the contents of every physical page. -/
structure Phys where
  freelist : List ℕ
  mem : ℕ → List UInt8

/-- `kalloc()`: the allocator after the call and the page it returns, `0` if none is free. -/
def kalloc (ph : Phys) : Phys × ℕ :=
  match ph.freelist with
  | [] => (ph, 0)
  | r :: rs => (⟨rs, Function.update ph.mem r (List.replicate PGSIZE 5)⟩, r)

/-- `kfree(pa)`. -/
def kfree (ph : Phys) (pa : ℕ) : Phys :=
  ⟨pa :: ph.freelist, Function.update ph.mem pa (List.replicate PGSIZE 1)⟩

/-- `kfree` of the buffer a call released, if it released one. -/
def kfreeOpt (ph : Phys) : Option ℕ → Phys
  | none => ph
  | some pa => kfree ph pa

/-- Every page holds `PGSIZE` bytes, as `kalloc` and `kfree` leave them. -/
def PageSized (ph : Phys) : Prop := ∀ a, (ph.mem a).length = PGSIZE

variable {ph : Phys}

theorem kalloc_cons {r : ℕ} {rs : List ℕ} (h : ph.freelist = r :: rs) :
    kalloc ph = (⟨rs, Function.update ph.mem r (List.replicate PGSIZE 5)⟩, r) := by
  simp [kalloc, h]

theorem kalloc_nil (h : ph.freelist = []) : kalloc ph = (ph, 0) := by
  simp [kalloc, h]

theorem pageSized_kalloc (h : PageSized ph) : PageSized (kalloc ph).1 := by
  intro a
  unfold kalloc
  split
  · exact h a
  · dsimp only
    rw [Function.update_apply]
    split_ifs
    · exact List.length_replicate
    · exact h a

@[simp] theorem kfree_freelist (pa : ℕ) : (kfree ph pa).freelist = pa :: ph.freelist := rfl

@[simp] theorem kfreeOpt_freelist (o : Option ℕ) :
    (kfreeOpt ph o).freelist = o.toList ++ ph.freelist := by
  cases o <;> rfl

end Kernel

end Xv6Net
