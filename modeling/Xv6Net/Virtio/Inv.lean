import Mathlib.Data.List.ReduceOption
import Mathlib.Data.List.Perm.Subperm
import Xv6Net.Virtio.Chain

/-!
# The driver, its processes and the device

`Virtio.Inv` is the invariant of `Virtio.vdiskMachine`:

* `Virtio.Owned` : each process asleep until its request is done owns the chain of its three
  descriptors (`Virtio.Chain`), and `disk.info` records its buffer at the chain's head and
  nowhere else; a descriptor is not free exactly when a process owns it, no two processes own
  one, and every free descriptor is cleared;
* the heads of the requests whose `b->disk` is set are, each once, in the `avail` ring between
  the device's index and `avail->idx`, in the device, or in the `used` ring between `used_idx`
  and `used->idx` (`Virtio.Sys.pending`), and the status of those in the `used` ring is `0`.

`Virtio.Move` says once what a step can do from a state where the invariant holds
(`Virtio.vdiskStep_move`); so no step panics, each move keeps the invariant (`Virtio.Inv.move`),
and `b->disk` is set by a submission and cleared by an interrupt in turn (`Virtio.flag_move`).
-/

namespace Xv6Net

namespace Virtio

open Bio (NBUF)
open RingBuf

/-- The descriptors a process owns in its phase: those of its request, while it waits for it. -/
def Phase.descs : Phase → List (Fin NUM)
  | .wait i0 i1 i2 => [i0, i1, i2]
  | _ => []

theorem Phase.descs_eq_nil {p : Phase} (h : ∀ i0 i1 i2, p ≠ .wait i0 i1 i2) : p.descs = [] := by
  cases p with
  | idle => rfl
  | alloc _ => rfl
  | wait i0 i1 i2 => exact absurd rfl (h i0 i1 i2)

namespace Sys

/-- The heads in the `avail` ring that the device has not taken. -/
def availQ (s : Sys) : List UInt16 :=
  view s.disk.avail.ring (slotOf s.devIdx) (span s.devIdx s.disk.avail.idx)

/-- The heads in the `used` ring that the driver has not read. -/
def usedQ (s : Sys) : List UInt32 :=
  view s.disk.used.ring (slotOf s.disk.usedIdx) (span s.disk.usedIdx s.disk.used.idx)

/-- The heads of the requests that the driver has not yet seen done, wherever they are. -/
def pending (s : Sys) : List ℕ :=
  s.availQ.map UInt16.toNat ++ s.devHeld.map UInt16.toNat ++ s.usedQ.map UInt32.toNat

/-- `h` is the head of the request of a process whose `b->disk` is set. -/
def Flight (s : Sys) (h : ℕ) : Prop :=
  ∃ b i0 i1 i2, s.phase b = .wait i0 i1 i2 ∧ s.disk.bdisk b = true ∧ h = i0.val

theorem flight_congr {s s' : Sys} (hp : s'.phase = s.phase) (hb : s'.disk.bdisk = s.disk.bdisk) :
    s'.Flight = s.Flight := by
  funext h
  simp only [Flight, hp, hb]

end Sys

/-- The descriptors and `disk.info` as the waiting processes own them. -/
structure Owned (s : Sys) : Prop where
  chain : ∀ b i0 i1 i2, s.phase b = .wait i0 i1 i2 →
    Chain s.disk.desc s.disk.free i0 i1 i2 ∧ (s.disk.info i0).b = some b
  info : ∀ j b, (s.disk.info j).b = some b → ∃ i1 i2, s.phase b = .wait j i1 i2
  taken : ∀ j, s.disk.free j = false ↔ ∃ b, j ∈ (s.phase b).descs
  owner : ∀ j b b', j ∈ (s.phase b).descs → j ∈ (s.phase b').descs → b = b'
  cleared : ∀ j, s.disk.free j = true → s.disk.desc j = ⟨0, 0⟩

/-- The invariant of the driver with its processes and the device. -/
structure Inv (s : Sys) : Prop extends Owned s where
  nodup : s.pending.Nodup
  flight : ∀ h, h ∈ s.pending ↔ s.Flight h
  bdisk : ∀ b, s.disk.bdisk b = true → ∃ i0 i1 i2, s.phase b = .wait i0 i1 i2
  done : ∀ h ∈ s.usedQ, ∃ hl : h.toNat < NUM, (s.disk.info ⟨h.toNat, hl⟩).status = 0

/-- The initial state of `vdiskMachine`. -/
def sysInit : Sys := ⟨diskInit, fun _ => .idle, 0, []⟩

theorem inv_init : Inv sysInit where
  chain := by simp [sysInit]
  info := by simp [sysInit, diskInit]
  taken := by simp [sysInit, diskInit, Phase.descs]
  owner := by simp [sysInit, Phase.descs]
  cleared := by simp [sysInit, diskInit]
  nodup := by simp [sysInit, Sys.pending, Sys.availQ, Sys.usedQ, diskInit, span]
  flight := by simp [sysInit, Sys.pending, Sys.availQ, Sys.usedQ, Sys.Flight, diskInit, span]
  bdisk := by simp [sysInit, diskInit]
  done := by simp [sysInit, Sys.usedQ, diskInit, span]

/-! ### Consequences of the invariant -/

section

variable {s : Sys}

theorem Owned.not_free (h : Owned s) {j : Fin NUM} {b : Fin NBUF} (hj : j ∈ (s.phase b).descs) :
    s.disk.free j = false :=
  (h.taken j).2 ⟨b, hj⟩

/-- `disk.info` records a waiting buffer at the head of its chain only. -/
theorem Owned.eq_of_info (h : Owned s) {b : Fin NBUF} {i0 i1 i2 j : Fin NUM}
    (hb : s.phase b = .wait i0 i1 i2) (hj : (s.disk.info j).b = some b) : j = i0 := by
  obtain ⟨i1', i2', hb'⟩ := h.info j b hj
  rw [hb] at hb'
  cases hb'
  rfl

/-- The ownership part depends on the phases, the descriptors and the buffers of `disk.info`. -/
theorem Owned.congr {s' : Sys} (h : Owned s) (hp : s'.phase = s.phase)
    (hd : s'.disk.desc = s.disk.desc) (hf : s'.disk.free = s.disk.free)
    (hi : ∀ j, (s'.disk.info j).b = (s.disk.info j).b) : Owned s' where
  chain b i0 i1 i2 hw := by
    rw [hp] at hw
    rw [hd, hf, hi]
    exact h.chain b i0 i1 i2 hw
  info j b hj := by
    rw [hi] at hj
    rw [hp]
    exact h.info j b hj
  taken j := by rw [hp, hf]; exact h.taken j
  owner j b b' := by rw [hp]; exact h.owner j b b'
  cleared j := by rw [hd, hf]; exact h.cleared j

/-- A buffer whose process is not waiting for a request has `b->disk` clear. -/
theorem Inv.bdisk_eq_false (hi : Inv s) {b : Fin NBUF} (hb : ∀ i0 i1 i2, s.phase b ≠ .wait i0 i1 i2) :
    s.disk.bdisk b = false := by
  by_contra hc
  obtain ⟨i0, i1, i2, hw⟩ := hi.bdisk b (by simpa using hc)
  exact hb i0 i1 i2 hw

theorem Inv.lt_of_mem (hi : Inv s) {h : ℕ} (hh : h ∈ s.pending) : h < NUM := by
  obtain ⟨_, i0, _, _, _, _, rfl⟩ := (hi.flight h).1 hh
  exact i0.isLt

/-- A free descriptor is the head of no request in flight. -/
theorem Inv.not_mem_of_free (hi : Inv s) {j : Fin NUM} (hj : s.disk.free j = true) :
    j.val ∉ s.pending := by
  intro hm
  obtain ⟨b, i0, i1, i2, hw, -, he⟩ := (hi.flight _).1 hm
  have : j = i0 := Fin.ext he
  subst this
  rw [(hi.chain b j i1 i2 hw).1.taken0] at hj
  cases hj

theorem length_le_of_nodup {l : List ℕ} {n : ℕ} (hl : l.Nodup) (h : ∀ x ∈ l, x < n) :
    l.length ≤ n := by
  have hsub : l.Subperm (List.range n) := hl.subperm fun x hx => List.mem_range.2 (h x hx)
  simpa using hsub.length_le

/-- **The rings never lap.**  The heads in the two rings' windows and in the device are distinct
descriptors, so there are at most `NUM` of them. -/
theorem Inv.length_pending_le (hi : Inv s) : s.pending.length ≤ NUM :=
  length_le_of_nodup hi.nodup fun _ => hi.lt_of_mem

/-- With a free descriptor left, fewer than `NUM`. -/
theorem Inv.length_pending_lt (hi : Inv s) {j : Fin NUM} (hj : s.disk.free j = true) :
    s.pending.length < NUM := by
  have hnd : (j.val :: s.pending).Nodup := List.nodup_cons.2 ⟨hi.not_mem_of_free hj, hi.nodup⟩
  have := length_le_of_nodup hnd fun x hx => by
    rcases List.mem_cons.1 hx with rfl | hx
    · exact j.isLt
    · exact hi.lt_of_mem hx
  simp only [List.length_cons] at this
  omega

end

/-! ### What a step can do -/

/-- The steps of the system, from a state where the invariant holds. -/
inductive Move (s : Sys) : Sys → VEv → Prop
  /-- A call out of turn. -/
  | refused : Move s s .refused
  /-- A process finds its request not yet done and sleeps again. -/
  | asleep : Move s s .sleeping
  /-- `alloc3_desc` fails: the process sleeps until descriptors are freed. -/
  | sleep (b : Fin NBUF) (write : Bool) (hb : ∀ i0 i1 i2, s.phase b ≠ .wait i0 i1 i2) :
      Move s { s with phase := Function.update s.phase b (.alloc write) } .sleeping
  /-- `alloc3_desc` takes three free descriptors, and the request is submitted. -/
  | submit (b : Fin NBUF) (write : Bool) (i0 i1 i2 : Fin NUM)
      (hb : ∀ i0 i1 i2, s.phase b ≠ .wait i0 i1 i2) (h01 : i0 ≠ i1) (h02 : i0 ≠ i2) (h12 : i1 ≠ i2)
      (hf0 : s.disk.free i0 = true) (hf1 : s.disk.free i1 = true) (hf2 : s.disk.free i2 = true) :
      Move s { s with disk := submit (((s.disk.take i0).take i1).take i2) b write i0 i1 i2,
                      phase := Function.update s.phase b (.wait i0 i1 i2) } (.submitted b i0)
  /-- A process finds its request done and frees its chain. -/
  | finish (b : Fin NBUF) (i0 i1 i2 : Fin NUM) (hw : s.phase b = .wait i0 i1 i2)
      (hd : s.disk.bdisk b = false) :
      Move s
        { s with
          disk := Disk.release (Disk.release (Disk.release
            { s.disk with info := Function.update s.disk.info i0 { s.disk.info i0 with b := none } }
            i0) i1) i2
          phase := Function.update s.phase b .idle }
        (.finished b)
  /-- The device takes the next entry of the `avail` ring. -/
  | take (hne : s.devIdx ≠ s.disk.avail.idx) :
      Move s { s with devIdx := s.devIdx + 1,
                      devHeld := s.devHeld ++ [s.disk.avail.ring (slotOf s.devIdx)] }
        (.took (s.disk.avail.ring (slotOf s.devIdx)))
  /-- The device completes a request it holds. -/
  | complete (k : ℕ) (head : UInt16) (hk : s.devHeld[k]? = some head) (hl : head.toNat < NUM) :
      Move s { s with disk := { s.disk with
                          info := Function.update s.disk.info ⟨head.toNat, hl⟩
                            { s.disk.info ⟨head.toNat, hl⟩ with status := 0 },
                          used := ⟨s.disk.used.idx + 1,
                            Function.update s.disk.used.ring (slotOf s.disk.used.idx) head.toUInt32⟩ },
                      devHeld := s.devHeld.eraseIdx k } (.completed head)
  /-- `virtio_disk_intr` clears `b->disk` of the buffers of the heads in the `used` ring. -/
  | intr : Move s { s with disk := { s.disk.clear (bufsOf s.disk s.usedQ) with usedIdx := s.disk.used.idx } }
      (.cleared (bufsOf s.disk s.usedQ))

section

variable {s : Sys}

theorem Sys.mem_pending_of_usedQ {h : UInt32} (hh : h ∈ s.usedQ) : h.toNat ∈ s.pending := by
  simp only [Sys.pending, List.mem_append, List.mem_map]
  exact Or.inr ⟨h, hh, rfl⟩

/-- An entry of the `used` ring names the head of a waiting request whose `b->disk` is set, and
`disk.info` records that request's buffer there. -/
theorem Inv.of_mem_usedQ (hi : Inv s) {h : UInt32} (hh : h ∈ s.usedQ) :
    ∃ hl : h.toNat < NUM, ∃ b i1 i2, s.phase b = .wait ⟨h.toNat, hl⟩ i1 i2 ∧
      s.disk.bdisk b = true ∧ (s.disk.info ⟨h.toNat, hl⟩).b = some b := by
  obtain ⟨b, i0, i1, i2, hw, hbd, he⟩ := (hi.flight _).1 (Sys.mem_pending_of_usedQ hh)
  have hl : h.toNat < NUM := he ▸ i0.isLt
  have hi0 : (⟨h.toNat, hl⟩ : Fin NUM) = i0 := Fin.ext he
  subst hi0
  exact ⟨hl, b, i1, i2, hw, hbd, (hi.chain b _ i1 i2 hw).2⟩

/-- From the invariant, the interrupt catches up with the device and clears `b->disk` of the
buffers that `disk.info` records for the heads in the `used` ring. -/
theorem Inv.intr_eq (hi : Inv s) :
    virtioDiskIntr s.disk = some ({ s.disk.clear (bufsOf s.disk s.usedQ) with
      usedIdx := s.disk.used.idx }, bufsOf s.disk s.usedQ) := by
  apply intrLoop_spec _ s.disk rfl
  intro h hh
  obtain ⟨hl, hst⟩ := hi.done h hh
  obtain ⟨_, b, _, _, _, _, hb⟩ := hi.of_mem_usedQ hh
  exact ⟨hl, hst, by simp [hb]⟩

/-- `virtio_disk_rw` from `alloc3_desc` on: submitted, or asleep until descriptors are freed. -/
theorem tryAlloc_move (hi : Inv s) {b : Fin NBUF} (hb : ∀ i0 i1 i2, s.phase b ≠ .wait i0 i1 i2)
    (write : Bool) : ∃ s' o, tryAlloc s b write = some (s', o) ∧ Move s s' o := by
  unfold tryAlloc
  rcases alloc3Desc_cases hi.cleared with h | ⟨i0, i1, i2, h01, h02, h12, hf0, hf1, hf2, h⟩
  · rw [h]
    exact ⟨_, _, rfl, .sleep b write hb⟩
  · rw [h]
    exact ⟨_, _, rfl, .submit b write i0 i1 i2 hb h01 h02 h12 hf0 hf1 hf2⟩

/-- **What a step can do.**  From a state where the invariant holds, every step is one of the
moves, and none panics. -/
theorem vdiskStep_move (hi : Inv s) (l : VOp) :
    ∃ s' o, vdiskStep s l = some (s', o) ∧ Move s s' o := by
  cases l with
  | rw b write =>
    simp only [vdiskStep]
    split_ifs with hp
    · exact tryAlloc_move hi (by rw [hp]; nofun) write
    · exact ⟨_, _, rfl, .refused⟩
  | retry b =>
    simp only [vdiskStep]
    cases hp : s.phase b with
    | alloc write => exact tryAlloc_move hi (by rw [hp]; nofun) write
    | idle => exact ⟨_, _, rfl, .refused⟩
    | wait _ _ _ => exact ⟨_, _, rfl, .refused⟩
  | wake b =>
    simp only [vdiskStep]
    cases hp : s.phase b with
    | wait i0 i1 i2 =>
      simp only
      split_ifs with hd
      · exact ⟨_, _, rfl, .asleep⟩
      · -- the process frees the chain it owns
        rw [freeChain_chain (d := { s.disk with
          info := Function.update s.disk.info i0 { s.disk.info i0 with b := none } })
          (hi.chain b i0 i1 i2 hp).1, Option.map_some]
        exact ⟨_, _, rfl, .finish b i0 i1 i2 hp (by simpa using hd)⟩
    | idle => exact ⟨_, _, rfl, .refused⟩
    | alloc _ => exact ⟨_, _, rfl, .refused⟩
  | take =>
    simp only [vdiskStep]
    split_ifs with hne
    · exact ⟨_, _, rfl, .refused⟩
    · exact ⟨_, _, rfl, .take hne⟩
  | complete k =>
    simp only [vdiskStep]
    cases hk : s.devHeld[k]? with
    | none => exact ⟨_, _, rfl, .refused⟩
    | some head =>
      simp only
      split_ifs with hl
      · exact ⟨_, _, rfl, .complete k head hk hl⟩
      · exact ⟨_, _, rfl, .refused⟩
  | intr =>
    simp only [vdiskStep, hi.intr_eq, Option.map_some]
    exact ⟨_, _, rfl, .intr⟩

theorem vdiskStep_ne_none (hi : Inv s) (l : VOp) : vdiskStep s l ≠ none := by
  obtain ⟨s', o, h, -⟩ := vdiskStep_move hi l
  rw [h]
  nofun

end

/-! ### Each move keeps the invariant -/

section

variable {s : Sys}

/-- A process whose `b->disk` is clear changing phase, with the rings, the flags and the status
bytes as they were, keeps the part of the invariant about the requests in flight. -/
theorem Inv.of_phase {s' : Sys} (hi : Inv s) (ho : Owned s') {b : Fin NBUF}
    (hb : s.disk.bdisk b = false) (hp : ∀ b', b' ≠ b → s'.phase b' = s.phase b')
    (hbd : s'.disk.bdisk = s.disk.bdisk) (hq : s'.pending = s.pending) (hu : s'.usedQ = s.usedQ)
    (hst : ∀ j, (s'.disk.info j).status = (s.disk.info j).status) : Inv s' where
  toOwned := ho
  nodup := hq ▸ hi.nodup
  flight h := by
    rw [hq, hi.flight]
    -- the process that changed phase has no request in flight, before or after
    have hne : ∀ b', s.disk.bdisk b' = true → b' ≠ b := by
      rintro b' hd rfl
      rw [hb] at hd
      cases hd
    constructor
    · rintro ⟨b', i0, i1, i2, hw, hd, rfl⟩
      exact ⟨b', i0, i1, i2, by rw [hp b' (hne b' hd), hw], by rw [hbd, hd], rfl⟩
    · rintro ⟨b', i0, i1, i2, hw, hd, rfl⟩
      rw [hbd] at hd
      exact ⟨b', i0, i1, i2, by rw [← hp b' (hne b' hd), hw], hd, rfl⟩
  bdisk b' hd := by
    rw [hbd] at hd
    have hne : b' ≠ b := by rintro rfl; rw [hb] at hd; cases hd
    rw [hp b' hne]
    exact hi.bdisk b' hd
  done h hh := by
    rw [hu] at hh
    obtain ⟨hl, h0⟩ := hi.done h hh
    exact ⟨hl, by rw [hst, h0]⟩

/-- A move that changes neither the phases nor the flags, and only reorders the heads in
flight, keeps the invariant. -/
theorem Inv.of_perm {s' : Sys} (hi : Inv s) (ho : Owned s') (hp : s'.phase = s.phase)
    (hbd : s'.disk.bdisk = s.disk.bdisk) (hq : s'.pending.Perm s.pending)
    (hdone : ∀ h ∈ s'.usedQ, ∃ hl : h.toNat < NUM, (s'.disk.info ⟨h.toNat, hl⟩).status = 0) :
    Inv s' where
  toOwned := ho
  nodup := hq.nodup_iff.2 hi.nodup
  flight h := by rw [hq.mem_iff, hi.flight, Sys.flight_congr hp hbd]
  bdisk b hd := by
    rw [hbd] at hd
    rw [hp]
    exact hi.bdisk b hd
  done := hdone

/-- A process not waiting for a request moving to another phase in which it does not wait keeps
the ownership of the descriptors. -/
theorem Owned.setPhase (h : Owned s) {b : Fin NBUF} {p : Phase}
    (hb : ∀ i0 i1 i2, s.phase b ≠ .wait i0 i1 i2) (hp : ∀ i0 i1 i2, p ≠ .wait i0 i1 i2) :
    Owned { s with phase := Function.update s.phase b p } := by
  have hd : ∀ b', (Function.update s.phase b p b').descs = (s.phase b').descs := by
    intro b'
    by_cases hb' : b' = b
    · subst hb'
      rw [Function.update_self, Phase.descs_eq_nil hb, Phase.descs_eq_nil hp]
    · rw [Function.update_of_ne hb']
  refine ⟨fun b' i0 i1 i2 hw => ?_, fun j b' hj => ?_, fun j => ?_, fun j b1 b2 => ?_, h.cleared⟩
  · have hne : b' ≠ b := by
      rintro rfl
      exact hp i0 i1 i2 (by simpa using hw)
    dsimp only at hw
    rw [Function.update_of_ne hne] at hw
    exact h.chain b' i0 i1 i2 hw
  · obtain ⟨i1, i2, hw⟩ := h.info j b' hj
    have hne : b' ≠ b := by rintro rfl; exact hb _ _ _ hw
    exact ⟨i1, i2, by dsimp only; rw [Function.update_of_ne hne, hw]⟩
  · simp only [hd]
    exact h.taken j
  · simp only [hd]
    exact h.owner j b1 b2

/-- `alloc3_desc` fails: the process goes to sleep. -/
theorem Inv.sleep (hi : Inv s) {b : Fin NBUF} (write : Bool)
    (hb : ∀ i0 i1 i2, s.phase b ≠ .wait i0 i1 i2) :
    Inv { s with phase := Function.update s.phase b (.alloc write) } :=
  hi.of_phase (hi.toOwned.setPhase hb nofun) (hi.bdisk_eq_false hb)
    (fun _ hne => Function.update_of_ne hne _ _) rfl rfl rfl fun _ => rfl

section submit

variable {b : Fin NBUF} {write : Bool} {i0 i1 i2 : Fin NUM}

theorem not_mem_three {j i0 i1 i2 : Fin NUM} (hj : j ∉ [i0, i1, i2]) : j ≠ i0 ∧ j ≠ i1 ∧ j ≠ i2 := by
  simpa [not_or] using hj

/-- A submission gives the three free descriptors to the submitting process. -/
theorem Owned.submit (h : Owned s) (hb : ∀ i0 i1 i2, s.phase b ≠ .wait i0 i1 i2)
    (h01 : i0 ≠ i1) (h02 : i0 ≠ i2) (h12 : i1 ≠ i2)
    (hf0 : s.disk.free i0 = true) (hf1 : s.disk.free i1 = true) (hf2 : s.disk.free i2 = true) :
    Owned { s with disk := submit (((s.disk.take i0).take i1).take i2) b write i0 i1 i2,
                   phase := Function.update s.phase b (.wait i0 i1 i2) } := by
  -- the three descriptors were free, so no process owned them
  have hout : ∀ j b', j ∈ (s.phase b').descs → j ∉ [i0, i1, i2] := by
    intro j b' hj hm
    have hfree : s.disk.free j = true := by
      simp only [List.mem_cons, List.not_mem_nil, or_false] at hm
      rcases hm with rfl | rfl | rfl <;> assumption
    rw [h.not_free hj] at hfree
    cases hfree
  have hd_self : (Function.update s.phase b (.wait i0 i1 i2) b).descs = [i0, i1, i2] := by
    rw [Function.update_self]
    rfl
  have hd_ne : ∀ {b'}, b' ≠ b → (Function.update s.phase b (.wait i0 i1 i2) b').descs = (s.phase b').descs :=
    fun hne => by rw [Function.update_of_ne hne]
  refine ⟨fun b' j0 j1 j2 hw => ?_, fun j b' hj => ?_, fun j => ?_, fun j b1 b2 => ?_, fun j hj => ?_⟩
  · -- the new chain is formatted; the others are untouched
    dsimp only at hw ⊢
    rcases eq_or_ne b' b with rfl | hne
    · rw [Function.update_self] at hw
      cases hw
      refine ⟨submit_chain h01 h02 h12 (Disk.take3_free_of_mem _ (by simp))
        (Disk.take3_free_of_mem _ (by simp)) (Disk.take3_free_of_mem _ (by simp)), ?_⟩
      simp [submit_info]
    · rw [Function.update_of_ne hne] at hw
      obtain ⟨hc, hinfo⟩ := h.chain b' j0 j1 j2 hw
      have hj : ∀ j ∈ [j0, j1, j2], j ∉ [i0, i1, i2] := fun j hm => hout j b' (by rw [hw]; exact hm)
      refine ⟨hc.congr (fun j hm => ?_) (fun j hm => Disk.take3_free_of_not_mem _ (hj j hm)), ?_⟩
      · obtain ⟨h0, h1, h2⟩ := not_mem_three (hj j hm)
        rw [submit_desc_of_ne h0 h1 h2]
        rfl
      · rw [submit_info, if_neg (not_mem_three (hj j0 (by simp))).1]
        exact hinfo
  · -- `disk.info` records the new buffer at the new head only
    dsimp only at hj ⊢
    rw [submit_info] at hj
    by_cases hj0 : j = i0
    · subst hj0
      rw [if_pos rfl] at hj
      obtain rfl : b = b' := by simpa using hj
      exact ⟨i1, i2, Function.update_self _ _ _⟩
    · rw [if_neg hj0] at hj
      obtain ⟨k1, k2, hw⟩ := h.info j b' hj
      have hne : b' ≠ b := by rintro rfl; exact hb _ _ _ hw
      exact ⟨k1, k2, by rw [Function.update_of_ne hne, hw]⟩
  · dsimp only
    rw [submit_free]
    constructor
    · intro hj
      by_cases hm : j ∈ [i0, i1, i2]
      · exact ⟨b, by rw [hd_self]; exact hm⟩
      · rw [Disk.take3_free_of_not_mem _ hm] at hj
        obtain ⟨b', hb'⟩ := (h.taken j).1 hj
        have hne : b' ≠ b := by rintro rfl; rw [Phase.descs_eq_nil hb] at hb'; cases hb'
        exact ⟨b', by rw [hd_ne hne]; exact hb'⟩
    · rintro ⟨b', hb'⟩
      rcases eq_or_ne b' b with rfl | hne
      · rw [hd_self] at hb'
        exact Disk.take3_free_of_mem _ hb'
      · rw [hd_ne hne] at hb'
        rw [Disk.take3_free_of_not_mem _ (hout j b' hb')]
        exact h.not_free hb'
  · dsimp only
    intro h1 h2
    by_cases e1 : b1 = b <;> by_cases e2 : b2 = b
    · exact e1.trans e2.symm
    · rw [e1, hd_self] at h1
      rw [hd_ne e2] at h2
      exact absurd h1 (hout j b2 h2)
    · rw [e2, hd_self] at h2
      rw [hd_ne e1] at h1
      exact absurd h2 (hout j b1 h1)
    · rw [hd_ne e1] at h1
      rw [hd_ne e2] at h2
      exact h.owner j b1 b2 h1 h2
  · -- a descriptor still free is none of the three, and is as it was
    dsimp only at hj ⊢
    rw [submit_free] at hj
    have hm : j ∉ [i0, i1, i2] := fun hm => by rw [Disk.take3_free_of_mem _ hm] at hj; cases hj
    rw [Disk.take3_free_of_not_mem _ hm] at hj
    obtain ⟨h0, h1, h2⟩ := not_mem_three hm
    rw [submit_desc_of_ne h0 h1 h2]
    exact h.cleared j hj

/-- A submission puts the new head at the end of the `avail` ring, so the requests in flight
are those before and the new one. -/
theorem Inv.submit (hi : Inv s) (hb : ∀ i0 i1 i2, s.phase b ≠ .wait i0 i1 i2)
    (h01 : i0 ≠ i1) (h02 : i0 ≠ i2) (h12 : i1 ≠ i2)
    (hf0 : s.disk.free i0 = true) (hf1 : s.disk.free i1 = true) (hf2 : s.disk.free i2 = true) :
    Inv { s with disk := submit (((s.disk.take i0).take i1).take i2) b write i0 i1 i2,
                 phase := Function.update s.phase b (.wait i0 i1 i2) } := by
  -- the free descriptor `i0` heads no request, so the `avail` ring has room for it
  have hspan : span s.devIdx s.disk.avail.idx < NUM := by
    have h1 := hi.length_pending_lt hf0
    have h2 : s.availQ.length = span s.devIdx s.disk.avail.idx := view_length _ _ _
    simp only [Sys.pending, List.length_append, List.length_map] at h1
    omega
  set s' : Sys := { s with disk := Virtio.submit (((s.disk.take i0).take i1).take i2) b write i0 i1 i2,
                            phase := Function.update s.phase b (.wait i0 i1 i2) } with hs'
  have hA : s'.availQ = s.availQ ++ [i0.val.toUInt16] :=
    view_push16 s.disk.avail.ring (r := s.devIdx) (w := s.disk.avail.idx) _ hspan
  have hU : s'.usedQ = s.usedQ := rfl
  have hD : s'.devHeld = s.devHeld := rfl
  have hP : s'.phase = Function.update s.phase b (.wait i0 i1 i2) := rfl
  have hB : s'.disk.bdisk = Function.update s.disk.bdisk b true := rfl
  have hI : s'.disk.info = (Virtio.submit (((s.disk.take i0).take i1).take i2) b write i0 i1 i2).info :=
    rfl
  have hperm : s'.pending.Perm (i0.val :: s.pending) := by
    rw [Sys.pending, Sys.pending, hA, hD, hU, List.perm_iff_count]
    intro a
    simp only [List.map_append, List.map_singleton, toNat_toUInt16_fin, List.count_append,
      List.count_cons, List.count_nil]
    omega
  have hnot := hi.not_mem_of_free hf0
  refine ⟨hi.toOwned.submit hb h01 h02 h12 hf0 hf1 hf2, ?_, fun h => ?_, fun b' hd => ?_, fun h hh => ?_⟩
  · rw [hperm.nodup_iff]
    exact List.nodup_cons.2 ⟨hnot, hi.nodup⟩
  · -- in flight: the new request, and those that were
    rw [hperm.mem_iff, List.mem_cons, hi.flight]
    have hbf : s.disk.bdisk b = false := hi.bdisk_eq_false hb
    constructor
    · rintro (rfl | ⟨b', j0, j1, j2, hw, hd, rfl⟩)
      · exact ⟨b, i0, i1, i2, Function.update_self _ _ _, Function.update_self _ _ _, rfl⟩
      · have hne : b' ≠ b := by rintro rfl; rw [hbf] at hd; cases hd
        exact ⟨b', j0, j1, j2, by rw [hP, Function.update_of_ne hne, hw],
          by rw [hB, Function.update_of_ne hne, hd], rfl⟩
    · rintro ⟨b', j0, j1, j2, hw, hd, rfl⟩
      rw [hP] at hw
      rw [hB] at hd
      by_cases hne : b' = b
      · rw [hne, Function.update_self] at hw
        cases hw
        exact Or.inl rfl
      · rw [Function.update_of_ne hne] at hw hd
        exact Or.inr ⟨b', j0, j1, j2, hw, hd, rfl⟩
  · rw [hB] at hd
    by_cases hne : b' = b
    · exact ⟨i0, i1, i2, by rw [hP, hne, Function.update_self]⟩
    · rw [Function.update_of_ne hne] at hd
      obtain ⟨j0, j1, j2, hw⟩ := hi.bdisk b' hd
      exact ⟨j0, j1, j2, by rw [hP, Function.update_of_ne hne, hw]⟩
  · -- the `used` ring is as it was, and its heads are not the new head
    rw [hU] at hh
    obtain ⟨hl, h0⟩ := hi.done h hh
    have hne : (⟨h.toNat, hl⟩ : Fin NUM) ≠ i0 := by
      rintro e
      apply hnot
      rw [← e]
      exact Sys.mem_pending_of_usedQ hh
    refine ⟨hl, ?_⟩
    rw [hI, submit_info, if_neg hne]
    exact h0

end submit

section finish

variable {b : Fin NBUF} {i0 i1 i2 : Fin NUM}

/-- A process that frees its chain gives its three descriptors back. -/
theorem Owned.finish (h : Owned s) (hw : s.phase b = .wait i0 i1 i2) :
    Owned { s with
      disk := Disk.release (Disk.release (Disk.release
        { s.disk with info := Function.update s.disk.info i0 { s.disk.info i0 with b := none } }
        i0) i1) i2
      phase := Function.update s.phase b .idle } := by
  set D0 : Disk := { s.disk with info := Function.update s.disk.info i0 { s.disk.info i0 with b := none } }
  -- the descriptors of another process are none of the three
  have hout : ∀ j b', b' ≠ b → j ∈ (s.phase b').descs → j ∉ [i0, i1, i2] := by
    intro j b' hne hj hm
    exact hne (h.owner j b' b hj (by rw [hw]; exact hm))
  have hd_self : (Function.update s.phase b .idle b).descs = [] := by
    rw [Function.update_self]
    rfl
  have hd_ne : ∀ {b'}, b' ≠ b → (Function.update s.phase b .idle b').descs = (s.phase b').descs :=
    fun hne => by rw [Function.update_of_ne hne]
  have hinfo : ∀ j, (D0.info j).b = if j = i0 then none else (s.disk.info j).b := by
    intro j
    by_cases hj : j = i0 <;> simp [D0, hj]
  refine ⟨fun b' j0 j1 j2 hw' => ?_, fun j b' hj => ?_, fun j => ?_, fun j b1 b2 => ?_, fun j hj => ?_⟩
  · -- the chains of the other processes are untouched
    dsimp only at hw' ⊢
    have hne : b' ≠ b := by rintro rfl; simp at hw'
    rw [Function.update_of_ne hne] at hw'
    obtain ⟨hc, hb'⟩ := h.chain b' j0 j1 j2 hw'
    have hj : ∀ j ∈ [j0, j1, j2], j ∉ [i0, i1, i2] :=
      fun j hm => hout j b' hne (by rw [hw']; exact hm)
    refine ⟨hc.congr (fun j hm => (Disk.release3_of_not_mem _ (hj j hm)).1)
      (fun j hm => (Disk.release3_of_not_mem _ (hj j hm)).2), ?_⟩
    change (D0.info j0).b = some b'
    rw [hinfo, if_neg (not_mem_three (hj j0 (by simp))).1]
    exact hb'
  · -- `disk.info` no longer records the buffer
    change (D0.info j).b = some b' at hj
    rw [hinfo] at hj
    by_cases hj0 : j = i0
    · rw [if_pos hj0] at hj
      cases hj
    · rw [if_neg hj0] at hj
      obtain ⟨k1, k2, hw'⟩ := h.info j b' hj
      have hne : b' ≠ b := by
        rintro rfl
        rw [hw] at hw'
        cases hw'
        exact hj0 rfl
      exact ⟨k1, k2, by dsimp only; rw [Function.update_of_ne hne, hw']⟩
  · dsimp only
    constructor
    · intro hj
      by_cases hm : j ∈ [i0, i1, i2]
      · rw [(Disk.release3_of_mem _ hm).2] at hj
        cases hj
      · rw [(Disk.release3_of_not_mem _ hm).2] at hj
        obtain ⟨b', hb'⟩ := (h.taken j).1 hj
        have hne : b' ≠ b := by rintro rfl; rw [hw] at hb'; exact hm hb'
        exact ⟨b', by rw [hd_ne hne]; exact hb'⟩
    · rintro ⟨b', hb'⟩
      by_cases hne : b' = b
      · rw [hne, hd_self] at hb'
        simp at hb'
      · rw [hd_ne hne] at hb'
        rw [(Disk.release3_of_not_mem _ (hout j b' hne hb')).2]
        exact h.not_free hb'
  · dsimp only
    intro h1 h2
    by_cases e1 : b1 = b
    · rw [e1, hd_self] at h1
      simp at h1
    by_cases e2 : b2 = b
    · rw [e2, hd_self] at h2
      simp at h2
    rw [hd_ne e1] at h1
    rw [hd_ne e2] at h2
    exact h.owner j b1 b2 h1 h2
  · -- the three are cleared, the others as they were
    dsimp only at hj ⊢
    by_cases hm : j ∈ [i0, i1, i2]
    · exact (Disk.release3_of_mem _ hm).1
    · rw [(Disk.release3_of_not_mem _ hm).2] at hj
      rw [(Disk.release3_of_not_mem _ hm).1]
      exact h.cleared j hj

/-- A process whose request is done frees its chain and leaves the driver. -/
theorem Inv.finish (hi : Inv s) (hw : s.phase b = .wait i0 i1 i2) (hd : s.disk.bdisk b = false) :
    Inv { s with
      disk := Disk.release (Disk.release (Disk.release
        { s.disk with info := Function.update s.disk.info i0 { s.disk.info i0 with b := none } }
        i0) i1) i2
      phase := Function.update s.phase b .idle } :=
  hi.of_phase (hi.toOwned.finish hw) hd (fun _ hne => Function.update_of_ne hne _ _) rfl rfl rfl
    fun j => by by_cases hj : j = i0 <;> simp [Disk.release, hj]

end finish

/-- The device takes the next head of the `avail` ring. -/
theorem Inv.take (hi : Inv s) (hne : s.devIdx ≠ s.disk.avail.idx) :
    Inv { s with devIdx := s.devIdx + 1,
                 devHeld := s.devHeld ++ [s.disk.avail.ring (slotOf s.devIdx)] } := by
  set s' : Sys := { s with devIdx := s.devIdx + 1,
                           devHeld := s.devHeld ++ [s.disk.avail.ring (slotOf s.devIdx)] }
  have hA : s.availQ = s.disk.avail.ring (slotOf s.devIdx) :: s'.availQ := view_pop16 _ hne
  have hD : s'.devHeld = s.devHeld ++ [s.disk.avail.ring (slotOf s.devIdx)] := rfl
  have hU : s'.usedQ = s.usedQ := rfl
  refine hi.of_perm (hi.toOwned.congr rfl rfl rfl fun _ => rfl) rfl rfl ?_ fun h hh => hi.done h hh
  rw [Sys.pending, Sys.pending, hA, hD, hU, List.perm_iff_count]
  intro a
  simp only [List.map_append, List.map_cons, List.map_nil, List.count_append, List.count_cons,
    List.count_nil]
  omega

/-- The device completes the request of a head it holds: the head goes to the `used` ring, with
status `0`. -/
theorem Inv.complete (hi : Inv s) {k : ℕ} {head : UInt16} (hk : s.devHeld[k]? = some head)
    (hl : head.toNat < NUM) :
    Inv { s with disk := { s.disk with
                   info := Function.update s.disk.info ⟨head.toNat, hl⟩
                     { s.disk.info ⟨head.toNat, hl⟩ with status := 0 },
                   used := ⟨s.disk.used.idx + 1,
                     Function.update s.disk.used.ring (slotOf s.disk.used.idx) head.toUInt32⟩ },
                 devHeld := s.devHeld.eraseIdx k } := by
  set i : Fin NUM := ⟨head.toNat, hl⟩
  set s' : Sys :=
    { s with
      disk := { s.disk with
        info := Function.update s.disk.info i { s.disk.info i with status := 0 },
        used := ⟨s.disk.used.idx + 1,
          Function.update s.disk.used.ring (slotOf s.disk.used.idx) head.toUInt32⟩ },
      devHeld := s.devHeld.eraseIdx k }
  obtain ⟨hk', hkh⟩ := List.getElem?_eq_some_iff.1 hk
  -- the device holds the head, so the `used` ring has room for it
  have hspan : span s.disk.usedIdx s.disk.used.idx < NUM := by
    have h1 := hi.length_pending_le
    have h2 : s.usedQ.length = span s.disk.usedIdx s.disk.used.idx := view_length _ _ _
    simp only [Sys.pending, List.length_append, List.length_map] at h1
    omega
  have hU : s'.usedQ = s.usedQ ++ [head.toUInt32] :=
    view_push16 s.disk.used.ring (r := s.disk.usedIdx) (w := s.disk.used.idx) _ hspan
  have hA : s'.availQ = s.availQ := rfl
  have hD : s'.devHeld = s.devHeld.eraseIdx k := rfl
  have hperm : (s.devHeld[k] :: s.devHeld.eraseIdx k).Perm s.devHeld :=
    List.getElem_cons_eraseIdx_perm hk'
  rw [hkh] at hperm
  have hst : ∀ j, (s'.disk.info j).status = if j = i then 0 else (s.disk.info j).status := by
    intro j
    by_cases hj : j = i <;> simp [s', hj]
  refine hi.of_perm (hi.toOwned.congr rfl rfl rfl fun j => ?_) rfl rfl ?_ fun h hh => ?_
  · by_cases hj : j = i <;> simp [s', hj]
  · rw [Sys.pending, Sys.pending, hA, hD, hU, List.perm_iff_count]
    intro a
    have hc := (hperm.map UInt16.toNat).count_eq a
    simp only [List.map_append, List.map_cons, List.map_nil, List.count_append, List.count_cons,
      List.count_nil, UInt16.toNat_toUInt32] at hc ⊢
    omega
  · rw [hU, List.mem_append, List.mem_singleton] at hh
    rcases hh with hh | rfl
    · obtain ⟨hl', h0⟩ := hi.done h hh
      refine ⟨hl', ?_⟩
      rw [hst]
      split_ifs
      · rfl
      · exact h0
    · refine ⟨by simpa using hl, ?_⟩
      rw [hst, if_pos (Fin.ext (by simp [i]))]

/-- The interrupt clears a waiting buffer exactly when its head is in the `used` ring. -/
theorem Inv.mem_bufsOf (hi : Inv s) {b : Fin NBUF} {i0 i1 i2 : Fin NUM}
    (hw : s.phase b = .wait i0 i1 i2) :
    b ∈ bufsOf s.disk s.usedQ ↔ i0.val ∈ s.usedQ.map UInt32.toNat := by
  simp only [bufsOf, List.mem_filterMap, List.mem_map]
  constructor
  · rintro ⟨h, hh, hb⟩
    split at hb
    · exact ⟨h, hh, congrArg Fin.val (hi.eq_of_info hw hb)⟩
    · cases hb
  · rintro ⟨h, hh, he⟩
    have hl : h.toNat < NUM := he ▸ i0.isLt
    refine ⟨h, hh, ?_⟩
    rw [dif_pos hl, show (⟨h.toNat, hl⟩ : Fin NUM) = i0 from Fin.ext he]
    exact (hi.chain b i0 i1 i2 hw).2

/-- The interrupt names each buffer at most once. -/
theorem Inv.nodup_bufsOf (hi : Inv s) : (bufsOf s.disk s.usedQ).Nodup := by
  have hU : s.usedQ.Nodup := by
    have := hi.nodup
    rw [Sys.pending] at this
    exact this.of_append_right.of_map _
  -- two heads that record one buffer are its one head
  refine List.Nodup.filterMap (fun h h' b hb hb' => ?_) hU
  rw [Option.mem_def] at hb hb'
  split at hb
  · split at hb'
    · rename_i hl hl'
      obtain ⟨k1, k2, hw⟩ := hi.info _ b hb'
      have := congrArg Fin.val (hi.eq_of_info hw hb)
      exact UInt32.toNat_inj.1 this
    · cases hb'
  · cases hb

/-- The interrupt clears only flags that are set. -/
theorem Inv.bdisk_of_mem_bufsOf (hi : Inv s) {b : Fin NBUF} (hb : b ∈ bufsOf s.disk s.usedQ) :
    s.disk.bdisk b = true := by
  simp only [bufsOf, List.mem_filterMap] at hb
  obtain ⟨h, hh, hb⟩ := hb
  obtain ⟨hl, b', _, _, _, hd, hb'⟩ := hi.of_mem_usedQ hh
  rw [dif_pos hl, hb'] at hb
  cases hb
  exact hd

/-- The interrupt catches up with the device: the requests in flight are those whose heads are
in the `avail` ring or in the device. -/
theorem Inv.intr (hi : Inv s) :
    Inv { s with disk := { s.disk.clear (bufsOf s.disk s.usedQ) with usedIdx := s.disk.used.idx } } := by
  set bs := bufsOf s.disk s.usedQ
  set s' : Sys := { s with disk := { s.disk.clear bs with usedIdx := s.disk.used.idx } }
  have hU : s'.usedQ = [] := by
    show view _ _ (span s.disk.used.idx s.disk.used.idx) = []
    rw [span_eq_zero_iff.2 rfl, view_zero]
  have hs : s.pending = s'.pending ++ s.usedQ.map UInt32.toNat := by
    rw [Sys.pending, Sys.pending, hU, List.map_nil, List.append_nil]
    rfl
  have hnd := hi.nodup
  rw [hs] at hnd
  have hB : ∀ b, s'.disk.bdisk b = (s.disk.bdisk b && decide (b ∉ bs)) := fun _ => rfl
  refine ⟨hi.toOwned.congr rfl rfl rfl fun _ => rfl, hnd.of_append_left, fun h => ?_,
    fun b hd => ?_, fun h hh => ?_⟩
  · constructor
    · intro hh
      obtain ⟨b, i0, i1, i2, hw, hd, rfl⟩ := (hi.flight _).1 (by rw [hs]; exact List.mem_append_left _ hh)
      -- its head is not in the `used` ring, so the interrupt did not clear it
      have hnot : i0.val ∉ s.usedQ.map UInt32.toNat :=
        fun hu => (List.nodup_append.1 hnd).2.2 _ hh _ hu rfl
      refine ⟨b, i0, i1, i2, hw, ?_, rfl⟩
      rw [hB, hd, Bool.true_and, decide_eq_true_eq]
      exact fun hm => hnot ((hi.mem_bufsOf hw).1 hm)
    · rintro ⟨b, i0, i1, i2, hw, hd, rfl⟩
      rw [hB, Bool.and_eq_true, decide_eq_true_eq] at hd
      have hp := (hi.flight _).2 ⟨b, i0, i1, i2, hw, hd.1, rfl⟩
      rw [hs, List.mem_append] at hp
      rcases hp with hp | hu
      · exact hp
      · exact absurd ((hi.mem_bufsOf hw).2 hu) hd.2
  · rw [hB, Bool.and_eq_true] at hd
    exact hi.bdisk b hd.1
  · rw [hU] at hh
    cases hh

/-- **Each move keeps the invariant.** -/
theorem Inv.move {s' : Sys} {o : VEv} (hi : Inv s) (hm : Move s s' o) : Inv s' := by
  cases hm with
  | refused => exact hi
  | asleep => exact hi
  | sleep b write hb => exact hi.sleep write hb
  | submit b write i0 i1 i2 hb h01 h02 h12 hf0 hf1 hf2 => exact hi.submit hb h01 h02 h12 hf0 hf1 hf2
  | finish b i0 i1 i2 hw hd => exact hi.finish hw hd
  | take hne => exact hi.take hne
  | complete k head hk hl => exact hi.complete hk hl
  | intr => exact hi.intr

theorem Inv.step {s' : Sys} {l : VOp} {o : VEv} (hi : Inv s) (h : vdiskStep s l = some (s', o)) :
    Inv s' := by
  obtain ⟨s'', o', he, hm⟩ := vdiskStep_move hi l
  rw [he] at h
  cases h
  exact hi.move hm

end

/-- **The invariant holds in every state the system reaches.** -/
theorem vdisk_inv {s : Sys} (h : vdiskMachine.Reachable (some s)) : Inv s :=
  Machine.Reachable.ofPartial_induction Inv inv_init (fun _ _ _ _ hi hs => hi.step hs) h

/-! ### `b->disk` over a run -/

/-- How many requests on buffer `b` an event submits. -/
def VEv.submits (b : Fin NBUF) : VEv → ℕ
  | .submitted b' _ => if b' = b then 1 else 0
  | _ => 0

/-- How often an event clears `b->disk` of buffer `b`. -/
def VEv.clears (b : Fin NBUF) : VEv → ℕ
  | .cleared bs => bs.count b
  | _ => 0

/-- **`b->disk` is set by a submission and cleared by an interrupt, in turn.**  A submission
sets a flag that was clear; an interrupt clears each flag it names once, and only flags that are
set; no other move touches the flags. -/
theorem flag_move {s s' : Sys} {o : VEv} (hi : Inv s) (hm : Move s s' o) (b : Fin NBUF) :
    (s'.disk.bdisk b).toNat + o.clears b = (s.disk.bdisk b).toNat + o.submits b := by
  cases hm with
  | refused => rfl
  | asleep => rfl
  | sleep => rfl
  | submit b' write i0 i1 i2 hb =>
    have hclear := hi.bdisk_eq_false hb
    by_cases h : b' = b
    · subst h
      simp [VEv.clears, VEv.submits, hclear]
    · simp [VEv.clears, VEv.submits, h, Function.update_of_ne (Ne.symm h)]
  | finish => rfl
  | take => rfl
  | complete => rfl
  | intr =>
    change (s.disk.bdisk b && decide (b ∉ bufsOf s.disk s.usedQ)).toNat +
      (bufsOf s.disk s.usedQ).count b = (s.disk.bdisk b).toNat + 0
    by_cases hb : b ∈ bufsOf s.disk s.usedQ
    · rw [List.count_eq_one_of_mem hi.nodup_bufsOf hb, hi.bdisk_of_mem_bufsOf hb]
      simp [hb]
    · rw [List.count_eq_zero_of_not_mem hb]
      simp [hb]

/-- The requests on buffer `b` that the outputs `os` of a run submit. -/
def submitCount (b : Fin NBUF) (os : List (Option VEv)) : ℕ :=
  (os.reduceOption.map (VEv.submits b)).sum

/-- The times the outputs `os` of a run clear `b->disk` of buffer `b`. -/
def clearCount (b : Fin NBUF) (os : List (Option VEv)) : ℕ :=
  (os.reduceOption.map (VEv.clears b)).sum

/-- **`b->disk` is cleared once per request.**  After every run, each buffer's requests have had
their flag cleared, all but the one whose flag is still set. -/
theorem flag_run (ls : List VOp) {s : Sys} (h : vdiskMachine.run vdiskMachine.init ls = some s)
    (b : Fin NBUF) :
    submitCount b (vdiskMachine.outs vdiskMachine.init ls) =
      clearCount b (vdiskMachine.outs vdiskMachine.init ls) + (s.disk.bdisk b).toNat := by
  refine Machine.run_outs_induction (M := vdiskMachine) (fun x os => ∀ s, x = some s →
    submitCount b os = clearCount b os + (s.disk.bdisk b).toNat) ?_ ?_ ls s h
  · rintro s ⟨⟩
    rfl
  · intro x os l hr ih s' hs'
    cases x with
    | none => cases hs'
    | some s =>
      -- the step is a move; count its output
      obtain ⟨s'', o, he, hm⟩ := vdiskStep_move (vdisk_inv hr) l
      have hstep : vdiskMachine.step (some s) l = (some s'', some o) := Machine.partialStep_some he
      rw [hstep] at hs' ⊢
      cases hs'
      have hf := flag_move (vdisk_inv hr) hm b
      simp only [submitCount, clearCount, List.reduceOption_append, List.reduceOption_cons_of_some,
        List.reduceOption_nil, List.map_append, List.map_singleton, List.sum_append, List.sum_singleton]
      have := ih s rfl
      simp only [submitCount, clearCount] at this
      omega

/-! ### The driver under every interleaving -/

/-- **The descriptors, the rings and `b->disk` under every interleaving.**  After every run of
requests, device steps and interrupts:
* a descriptor is not free exactly when it is in the chain of a waiting request, and of one
  only; each such chain is formatted, `disk.info` of its head records the request's buffer, and
  `free_chain` on its head frees exactly its three descriptors;
* `alloc3_desc` takes three distinct free descriptors, or leaves the disk as it was;
* the slot of a 16-bit counter moves on with the counter, and the ring windows between the
  counters, with the heads the device holds, are the heads of the requests in flight, each once,
  at most `NUM` of them;
* the interrupt clears `b->disk` of exactly the waiting buffers whose heads are in the `used`
  ring, each once, and no step panics;
* each buffer's flag has been cleared once for each of its requests but a pending one. -/
theorem virtio_disk_invariants (ls : List VOp) {s : Sys}
    (h : vdiskMachine.run vdiskMachine.init ls = some s) :
    (∀ j, s.disk.free j = false ↔ ∃ b, j ∈ (s.phase b).descs) ∧
    (∀ j b b', j ∈ (s.phase b).descs → j ∈ (s.phase b').descs → b = b') ∧
    (∀ b i0 i1 i2, s.phase b = .wait i0 i1 i2 →
      Chain s.disk.desc s.disk.free i0 i1 i2 ∧ (s.disk.info i0).b = some b ∧
        freeChain (NUM + 1) i0.val s.disk = some (((s.disk.release i0).release i1).release i2)) ∧
    (alloc3Desc s.disk = some (none, s.disk) ∨
      ∃ i0 i1 i2, i0 ≠ i1 ∧ i0 ≠ i2 ∧ i1 ≠ i2 ∧ s.disk.free i0 ∧ s.disk.free i1 ∧ s.disk.free i2 ∧
        alloc3Desc s.disk = some (some [i0, i1, i2], ((s.disk.take i0).take i1).take i2)) ∧
    (∀ c : UInt16, slotOf (c + 1) = slotOf c + 1) ∧
    s.pending.Nodup ∧ (∀ h, h ∈ s.pending ↔ s.Flight h) ∧ s.pending.length ≤ NUM ∧
    virtioDiskIntr s.disk = some ({ s.disk.clear (bufsOf s.disk s.usedQ) with
      usedIdx := s.disk.used.idx }, bufsOf s.disk s.usedQ) ∧
    (bufsOf s.disk s.usedQ).Nodup ∧
    (∀ b i0 i1 i2, s.phase b = .wait i0 i1 i2 →
      (b ∈ bufsOf s.disk s.usedQ ↔ i0.val ∈ s.usedQ.map UInt32.toNat)) ∧
    (∀ l, vdiskStep s l ≠ none) ∧
    ∀ b, submitCount b (vdiskMachine.outs vdiskMachine.init ls) =
      clearCount b (vdiskMachine.outs vdiskMachine.init ls) + (s.disk.bdisk b).toNat := by
  have hi : Inv s := vdisk_inv (h ▸ Machine.Reachable.of_run ls)
  refine ⟨hi.taken, hi.owner, fun b i0 i1 i2 hw => ?_, alloc3Desc_cases hi.cleared, slotOf_add_one,
    hi.nodup, hi.flight, hi.length_pending_le, hi.intr_eq, hi.nodup_bufsOf,
    fun b i0 i1 i2 hw => hi.mem_bufsOf hw, vdiskStep_ne_none hi, flag_run ls h⟩
  obtain ⟨hc, hb⟩ := hi.chain b i0 i1 i2 hw
  exact ⟨hc, hb, freeChain_chain hc⟩

/-- One request on buffer `0`: submitted, taken and completed by the device, cleared by the
interrupt, and its chain freed by the woken process. -/
def requestCycle : List VOp := [.rw 0 false, .take, .complete 0, .intr, .wake 0]

theorem virtio_disk_invariants_requestCycle :
    ∃ s, vdiskMachine.run vdiskMachine.init requestCycle = some s ∧ s.disk.bdisk 0 = false ∧
      submitCount 0 (vdiskMachine.outs vdiskMachine.init requestCycle) =
        clearCount 0 (vdiskMachine.outs vdiskMachine.init requestCycle) + (s.disk.bdisk 0).toNat := by
  obtain ⟨s, hs⟩ : ∃ s, vdiskMachine.run vdiskMachine.init requestCycle = some s :=
    Option.isSome_iff_exists.1 (by decide +kernel)
  obtain ⟨-, -, -, -, -, -, -, -, -, -, -, -, hrun⟩ := virtio_disk_invariants requestCycle hs
  refine ⟨s, hs, ?_, hrun 0⟩
  have : (vdiskMachine.run vdiskMachine.init requestCycle).map (fun s => s.disk.bdisk 0) = some false := by
    decide +kernel
  rw [hs] at this
  simpa using this

end Virtio

end Xv6Net
