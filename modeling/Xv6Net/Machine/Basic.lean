import Mathlib.Logic.Relation
import Mathlib.Data.List.Basic
import Mathlib.Data.List.Induction

/-!
# Labelled machines

Every kernel component modelled in this development (the UDP port table, the two E1000
descriptor rings, the wait loops, the log) is given as a *machine*: an initial state and a
total, deterministic step function `step : S → L → S × O`.  The label `L` carries everything
the environment chooses (which system call runs, with which arguments, which frame the device
stores); the output `O` is what the step returns to its caller.  A step that the code cannot
take in a state (a device step on an empty ring, a receive on an empty queue) is a step that
leaves the state unchanged and says so in its output, so that interleavings are plain lists of
labels and a run is a fold.

## Main definitions

* `Machine S L O` : initial state and step function.
* `Machine.run s ls` : the state after the labels `ls`; `Machine.outs s ls` : their outputs.
* `Machine.Reachable s` : `s` is the state after some list of labels.
* `Machine.Sim C A R` : a lock-step forward simulation of `C` by `A` with equal outputs.
* `Machine.ofPartial init step` : a machine whose steps may stop the whole system (a kernel
  `panic`); its state is `none` from then on.

The rules are `Machine.Reachable.induction` (an inductive invariant holds of every reachable
state), `Machine.run_outs_induction` and `Machine.run_outs_induction_of` (the same for a
predicate of the state and the outputs so far, over all runs or over the runs whose labels are of
a given kind), `Machine.run_induction` (an invariant of the runs from a given state whose labels are of a
given kind), `Machine.rank_run_eq_zero` (a variant that the chosen labels lower reaches `0`), `Machine.Reachable.ofPartial_induction` (an invariant of the states a partial machine
reaches without stopping) and `Machine.Sim.run` (related initial states stay related along every
run, and the two machines produce the same outputs).
-/

namespace Xv6Net

/-- A deterministic labelled machine with states `S`, labels `L` and outputs `O`. -/
structure Machine (S L O : Type*) where
  /-- The state the system starts in. -/
  init : S
  /-- One step: the next state and what the step returns. -/
  step : S → L → S × O

namespace Machine

variable {S T L O : Type*} (M : Machine S L O)

/-- The state after performing the labels `ls` in order from `s`. -/
def run : S → List L → S
  | s, [] => s
  | s, l :: ls => run (M.step s l).1 ls

/-- The outputs of the steps performed by `run`. -/
def outs : S → List L → List O
  | _, [] => []
  | s, l :: ls => (M.step s l).2 :: outs (M.step s l).1 ls

/-- The states reachable from the initial state. -/
inductive Reachable : S → Prop
  | init : Reachable M.init
  | step {s : S} (l : L) : Reachable s → Reachable (M.step s l).1

variable {M}

@[simp] theorem run_nil (s : S) : M.run s [] = s := rfl

@[simp] theorem run_cons (s : S) (l : L) (ls : List L) :
    M.run s (l :: ls) = M.run (M.step s l).1 ls := rfl

theorem run_append (s : S) (ls ls' : List L) : M.run s (ls ++ ls') = M.run (M.run s ls) ls' := by
  induction ls generalizing s with
  | nil => rfl
  | cons l ls ih => exact ih _

@[simp] theorem outs_length (s : S) (ls : List L) : (M.outs s ls).length = ls.length := by
  induction ls generalizing s with
  | nil => rfl
  | cons l ls ih => simp [outs, ih]

theorem outs_append (s : S) (ls ls' : List L) :
    M.outs s (ls ++ ls') = M.outs s ls ++ M.outs (M.run s ls) ls' := by
  induction ls generalizing s with
  | nil => rfl
  | cons l ls ih => simp [outs, ih]

namespace Reachable

/-- States reached from a reachable state stay reachable. -/
theorem run {s : S} (h : M.Reachable s) (ls : List L) : M.Reachable (M.run s ls) := by
  induction ls generalizing s with
  | nil => exact h
  | cons l ls ih => exact ih (step l h)

theorem of_run (ls : List L) : M.Reachable (M.run M.init ls) := init.run ls

/-- Every reachable state is the state after some run. -/
theorem exists_run {s : S} (h : M.Reachable s) : ∃ ls, M.run M.init ls = s := by
  induction h with
  | init => exact ⟨[], rfl⟩
  | step l _ ih =>
    obtain ⟨ls, rfl⟩ := ih
    exact ⟨ls ++ [l], by rw [run_append]; rfl⟩

theorem iff_exists_run {s : S} : M.Reachable s ↔ ∃ ls, M.run M.init ls = s :=
  ⟨exists_run, fun ⟨ls, h⟩ => h ▸ of_run ls⟩

/-- **Inductive invariants.**  A predicate that holds initially and is preserved by every
step holds of every reachable state. -/
theorem induction (P : S → Prop) (h₀ : P M.init) (hstep : ∀ s l, P s → P (M.step s l).1)
    {s : S} (h : M.Reachable s) : P s := by
  induction h with
  | init => exact h₀
  | step l _ ih => exact hstep _ l ih

end Reachable

/-- **Invariants of runs and their outputs.**  A predicate of a state and of the outputs so far
that holds initially and is preserved by every step from a reachable state holds after every
run. -/
theorem run_outs_induction (P : S → List O → Prop) (h₀ : P M.init [])
    (hstep : ∀ s os l, M.Reachable s → P s os → P (M.step s l).1 (os ++ [(M.step s l).2]))
    (ls : List L) : P (M.run M.init ls) (M.outs M.init ls) := by
  induction ls using List.reverseRecOn with
  | nil => exact h₀
  | append_singleton ls l ih =>
    rw [run_append, outs_append]
    exact hstep _ _ l (Reachable.of_run ls) ih

/-- **Invariants of runs and their outputs, for labels of a given kind.**  The same for the
runs whose labels all satisfy `A`, with a step rule for those labels only. -/
theorem run_outs_induction_of (P : S → List O → Prop) (A : L → Prop) (h₀ : P M.init [])
    (hstep : ∀ s os l, A l → P s os → P (M.step s l).1 (os ++ [(M.step s l).2]))
    {ls : List L} (hls : ∀ l ∈ ls, A l) : P (M.run M.init ls) (M.outs M.init ls) := by
  induction ls using List.reverseRecOn with
  | nil => exact h₀
  | append_singleton ls l ih =>
    rw [run_append, outs_append]
    exact hstep _ _ l (hls l (by simp)) (ih fun l' h => hls l' (List.mem_append_left _ h))

/-! ### Runs from an arbitrary state -/

/-- **Invariants of the runs from a state.**  A predicate kept by every step whose label
satisfies `A` holds after every run whose labels all satisfy `A`, from a state where it holds. -/
theorem run_induction (P : S → Prop) (A : L → Prop) (hstep : ∀ s l, A l → P s → P (M.step s l).1)
    {s : S} (hs : P s) {ls : List L} (hls : ∀ l ∈ ls, A l) : P (M.run s ls) := by
  induction ls generalizing s with
  | nil => exact hs
  | cons l ls ih =>
    rw [run_cons]
    exact ih (hstep s l (hls l List.mem_cons_self) hs) fun l' h => hls l' (List.mem_cons_of_mem _ h)

/-- **Variants.**  Along runs that keep an invariant `P`, a rank that no step raises, and that
every step labelled by `B` lowers while it is positive, is `0` once `B` has occurred as often as
the rank was at the start. -/
theorem rank_run_eq_zero (P : S → Prop) (rank : S → ℕ) (B : L → Bool)
    (hP : ∀ s l, P s → P (M.step s l).1) (hle : ∀ s l, P s → rank (M.step s l).1 ≤ rank s)
    (hlt : ∀ s l, P s → B l → 0 < rank s → rank (M.step s l).1 < rank s)
    {s : S} (hs : P s) {ls : List L} (hls : rank s ≤ ls.countP B) : rank (M.run s ls) = 0 := by
  induction ls generalizing s with
  | nil => simpa using hls
  | cons l ls ih =>
    rw [run_cons]
    apply ih (hP s l hs)
    have hle' := hle s l hs
    rw [List.countP_cons] at hls
    by_cases hb : B l
    · -- a `B` step lowers a positive rank by at least one
      rw [if_pos hb] at hls
      rcases Nat.eq_zero_or_pos (rank s) with h0 | h0
      · omega
      · have := hlt s l hs hb h0
        omega
    · rw [if_neg hb] at hls
      omega

/-- `A` simulates `C` in lock step through `R`: the initial states are related, and from related
states the same label leads to related states with the same output. -/
structure Sim (C : Machine S L O) (A : Machine T L O) (R : S → T → Prop) : Prop where
  init : R C.init A.init
  step : ∀ c a l, R c a → R (C.step c l).1 (A.step a l).1 ∧ (C.step c l).2 = (A.step a l).2

namespace Sim

variable {C : Machine S L O} {A : Machine T L O} {R : S → T → Prop}

theorem run_from (hs : Sim C A R) :
    ∀ (ls : List L) (s : S) (t : T), R s t →
      R (C.run s ls) (A.run t ls) ∧ C.outs s ls = A.outs t ls := by
  intro ls
  induction ls with
  | nil => intro s t h; exact ⟨h, rfl⟩
  | cons l ls ih =>
    intro s t h
    obtain ⟨hR, ho⟩ := hs.step s t l h
    obtain ⟨hR', ho'⟩ := ih _ _ hR
    exact ⟨hR', by simp [outs, ho, ho']⟩

/-- **Simulation along runs.**  After every list of labels the two machines are in related
states and have produced the same outputs. -/
theorem run (hs : Sim C A R) (ls : List L) :
    R (C.run C.init ls) (A.run A.init ls) ∧ C.outs C.init ls = A.outs A.init ls :=
  hs.run_from ls _ _ hs.init

/-- Every reachable state of `C` is related to a reachable state of `A`. -/
theorem reachable (hs : Sim C A R) {s : S} (h : C.Reachable s) : ∃ t, A.Reachable t ∧ R s t := by
  obtain ⟨ls, rfl⟩ := h.exists_run
  exact ⟨_, Reachable.of_run ls, (hs.run ls).1⟩

end Sim

/-! ### Machines that may stop -/

/-- One step of a machine that may stop: a stopped machine stays stopped, and a step that
returns `none` stops it. -/
def partialStep (step : S → L → Option (S × O)) : Option S → L → Option S × Option O
  | none, _ => (none, none)
  | some s, l =>
    match step s l with
    | none => (none, none)
    | some (s', o) => (some s', some o)

/-- A machine whose steps may stop the whole system (a kernel `panic`): its states are `some s`
until a step returns `none`, and `none` after. -/
def ofPartial (init : S) (step : S → L → Option (S × O)) : Machine (Option S) L (Option O) :=
  ⟨some init, partialStep step⟩

variable {init : S} {step : S → L → Option (S × O)}

theorem ofPartial_step : (ofPartial init step).step = partialStep step := rfl

theorem partialStep_some {s s' : S} {l : L} {o : O} (h : step s l = some (s', o)) :
    partialStep step (some s) l = (some s', some o) := by
  simp [partialStep, h]

theorem partialStep_stop {s : S} {l : L} (h : step s l = none) :
    partialStep step (some s) l = (none, none) := by
  simp [partialStep, h]

/-- **Invariants of a machine that may stop.**  A predicate that holds initially and is kept by
every step that does not stop the machine holds of every state it reaches. -/
theorem Reachable.ofPartial_induction (P : S → Prop) (h₀ : P init)
    (hstep : ∀ s l s' o, P s → step s l = some (s', o) → P s') {s : S}
    (h : (ofPartial init step).Reachable (some s)) : P s := by
  have key : ∀ os, (ofPartial init step).Reachable os → ∀ s, os = some s → P s := by
    intro os hos
    induction hos with
    | init => rintro s ⟨⟩; exact h₀
    | @step os l _ ih =>
      intro s' hs'
      cases os with
      | none => simp [ofPartial, partialStep] at hs'
      | some s =>
        cases hst : step s l with
        | none => simp [ofPartial, partialStep_stop hst] at hs'
        | some r =>
          obtain ⟨s'', o⟩ := r
          simp only [ofPartial, partialStep_some hst, Option.some.injEq] at hs'
          subst hs'
          exact hstep s l s'' o (ih s rfl) hst
  exact key _ h s rfl

/-- Binds keep `Option.Rel`: related results, each continued by related computations. -/
theorem rel_bind {α β γ δ : Type} {R : α → β → Prop} {R' : γ → δ → Prop} {x : Option α}
    {y : Option β} (h : Option.Rel R x y) {f : α → Option γ} {g : β → Option δ}
    (hfg : ∀ a b, R a b → Option.Rel R' (f a) (g b)) : Option.Rel R' (x >>= f) (y >>= g) := by
  cases h with
  | none => exact .none
  | some hab => exact hfg _ _ hab

theorem rel_map {α β γ δ : Type} {R : α → β → Prop} {R' : γ → δ → Prop} {x : Option α}
    {y : Option β} (h : Option.Rel R x y) {f : α → γ} {g : β → δ}
    (hfg : ∀ a b, R a b → R' (f a) (g b)) : Option.Rel R' (x.map f) (y.map g) := by
  cases h with
  | none => exact .none
  | some hab => exact .some (hfg _ _ hab)

/-- **Simulation of machines that may stop.**  Two machines that may stop are in lock step when
from related states every label either stops both or leads both to related states with the same
output; the states are then related by `Option.Rel`, stopped with stopped. -/
theorem Sim.ofPartial {init' : T} {step' : T → L → Option (T × O)} {R : S → T → Prop}
    (h₀ : R init init')
    (hstep : ∀ s t l, R s t → Option.Rel (fun p q => R p.1 q.1 ∧ p.2 = q.2) (step s l) (step' t l)) :
    Sim (ofPartial init step) (ofPartial init' step') (Option.Rel R) := by
  refine ⟨.some h₀, ?_⟩
  rintro (_ | s) (_ | t) l hst
  · exact ⟨.none, rfl⟩
  · cases hst
  · cases hst
  · cases hst with
    | some hst =>
      have h := hstep s t l hst
      rw [ofPartial_step, ofPartial_step]
      simp only [partialStep]
      generalize step s l = a at h ⊢
      generalize step' t l = b at h ⊢
      -- both stop, or both step with the same output
      cases h with
      | none => exact ⟨.none, rfl⟩
      | @some p q h =>
        obtain ⟨s', o⟩ := p
        obtain ⟨t', o'⟩ := q
        obtain ⟨hR, ho : o = o'⟩ := h
        exact ⟨.some hR, by rw [ho]⟩

end Machine

end Xv6Net
