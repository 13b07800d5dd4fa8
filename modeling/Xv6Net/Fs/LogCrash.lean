import Mathlib.Data.List.GetD
import Xv6Net.Fs.Log

/-!
# Crash safety of the log

A crash stops the kernel between two block writes, and the next boot runs `recover_from_log`
on the disk the crash left.  This module proves what the log is for, of every run of
`logMachine` whose file-system writes go to blocks outside the log (`HomeWrite`): recovery
gives each home block the last write of the groups whose header reached the disk, and nothing
of the group that was running.

* `LogInv` : the inductive invariant.  Until the `write_head` of `commit()` (`Pending`) the
  header says the log is empty and the home blocks hold the committed writes, while the pinned
  buffers hold the running group's writes, which `write_log` copies into the log blocks one
  after another.  From that `write_head` on (`Installing`) the header names the group's blocks,
  the log blocks hold their committed contents, and `install_trans` writes them home.
* `LogInv.recover` : from every state of the invariant, recovery leaves on the home blocks the
  writes of the committed groups.
* `HeadOK.recoverFromLog_foldl` : recoveries stopped by crashes, then one that completes, leave
  what one recovery leaves.
* `LogInv.home_write` : only `install_trans` writes a home block.
-/

namespace Xv6Net

namespace Fs

open Bytes Store

/-- The block writes of the file-system calls go to blocks outside the log, whose numbers fit
the 32-bit words of the header. -/
def HomeWrite (start : ℕ) : LogOp → Prop
  | .write b _ => ¬ InLog start b ∧ b < 2 ^ 32
  | _ => True

instance (start : ℕ) : DecidablePred (HomeWrite start) := fun l =>
  match l with
  | .write _ _ => inferInstanceAs (Decidable (_ ∧ _))
  | .beginOp => isTrue trivial
  | .endOp => isTrue trivial
  | .commitStep => isTrue trivial

variable {start : ℕ}

theorem inLog_head : InLog start start := ⟨le_refl _, Nat.le_add_right _ _⟩

theorem inLog_log {j : ℕ} (hj : j < LOGBLOCKS) : InLog start (start + 1 + j) :=
  ⟨by omega, by omega⟩

theorem ne_of_inLog {b x : ℕ} (hb : ¬ InLog start b) (hx : InLog start x) : b ≠ x :=
  fun e => hb (e ▸ hx)

/-! ### Headers that recovery can act on -/

/-- Block numbers as a header may name them: distinct, outside the log, fitting a 32-bit word,
and no more than the log has blocks. -/
structure LhWF (start : ℕ) (lh : List ℕ) : Prop where
  nodup : lh.Nodup
  home : ∀ b ∈ lh, ¬ InLog start b
  fits : ∀ b ∈ lh, b < 2 ^ 32
  length_le : lh.length ≤ LOGBLOCKS

theorem LhWF.nil : LhWF start [] := ⟨List.nodup_nil, by simp, by simp, by simp⟩

/-- `log_write` of a block outside the log, on a log that is not full. -/
theorem LhWF.absorb {lh : List ℕ} (hwf : LhWF start lh) {b : ℕ}
    (hb : ¬ InLog start b ∧ b < 2 ^ 32) (hlt : lh.length < LOGBLOCKS) :
    LhWF start (if b ∈ lh then lh else lh ++ [b]) := by
  split_ifs with hmem
  · exact hwf
  · refine ⟨List.nodup_append.2 ⟨hwf.nodup, List.nodup_cons.2 ⟨List.not_mem_nil, List.nodup_nil⟩, fun x hx y hy => ?_⟩,
      ?_, ?_, ?_⟩
    · rw [List.mem_singleton.1 hy]
      exact fun e => hmem (e ▸ hx)
    · simpa [or_imp, forall_and] using ⟨hwf.home, hb.1⟩
    · simpa [or_imp, forall_and] using ⟨hwf.fits, hb.2⟩
    · simp only [List.length_append, List.length_singleton]
      omega

/-- The header of such blocks fits in the header block. -/
theorem LhWF.head_fits {lh : List ℕ} (hwf : LhWF start lh) : 4 + 4 * lh.length ≤ BSIZE := by
  have : lh.length ≤ 30 := hwf.length_le
  unfold BSIZE
  omega

theorem LhWF.decodeHead_encodeHead {lh : List ℕ} (hwf : LhWF start lh) {buf : List UInt8}
    (hlen : buf.length = BSIZE) : decodeHead (encodeHead buf lh) = lh :=
  Fs.decodeHead_encodeHead (hlen ▸ hwf.head_fits)
    (lt_of_le_of_lt hwf.length_le (by decide)) hwf.fits

theorem decodeHead_encodeHead_nil {buf : List UInt8} (hlen : buf.length = BSIZE) :
    decodeHead (encodeHead buf []) = [] :=
  Fs.decodeHead_encodeHead (by rw [hlen]; decide) (by decide) (by simp)

theorem encodeHead_encodeHead_nil {buf : List UInt8} (h : 4 ≤ buf.length) :
    encodeHead (encodeHead buf []) [] = encodeHead buf [] :=
  store32_store32 h _ _

/-- The header block is a whole block, and the blocks it names are as `LhWF` says. -/
structure HeadOK (start : ℕ) (disk : Disk) : Prop where
  length : (disk start).length = BSIZE
  lh : LhWF start (decodeHead (disk start))

/-! ### `install_trans(1)` and `recover_from_log` -/

theorem installLoop_of_not_mem {i : ℕ} {bs : List ℕ} {b : ℕ} (hb : b ∉ bs) (disk : Disk) :
    installLoop start i bs disk b = disk b := by
  induction bs generalizing i disk with
  | nil => rfl
  | cons x bs ih =>
    rw [List.mem_cons, not_or] at hb
    rw [installLoop, ih hb.2, Function.update_of_ne hb.1]

/-- **What `install_trans(1)` does.**  Each block of `bs` gets the log block at its position. -/
theorem installLoop_apply {i : ℕ} {bs : List ℕ} (hnd : bs.Nodup)
    (hhome : ∀ x ∈ bs, ¬ InLog start x) (hlen : i + bs.length ≤ LOGBLOCKS) (disk : Disk) (b : ℕ) :
    installLoop start i bs disk b =
      if b ∈ bs then disk (start + 1 + i + bs.idxOf b) else disk b := by
  induction bs generalizing i disk with
  | nil => simp [installLoop]
  | cons x bs ih =>
    obtain ⟨hx, hnd'⟩ := List.nodup_cons.1 hnd
    simp only [List.length_cons] at hlen
    rw [installLoop, ih hnd' (fun y hy => hhome y (List.mem_cons_of_mem x hy)) (by omega)]
    by_cases hb : b ∈ bs
    · -- a later block: its log block is not `x`, which is outside the log
      have hbx : x ≠ b := fun e => hx (e ▸ hb)
      have hidx := List.idxOf_lt_length_of_mem hb
      have hlog : InLog start (start + 1 + (i + 1 + bs.idxOf b)) := inLog_log (by omega)
      rw [if_pos hb, if_pos (List.mem_cons_of_mem x hb), List.idxOf_cons_ne bs hbx,
        show start + 1 + (i + 1) + bs.idxOf b = start + 1 + (i + 1 + bs.idxOf b) by omega,
        Function.update_of_ne (ne_of_inLog (hhome x List.mem_cons_self) hlog).symm]
      congr 1
      omega
    · by_cases hbx : b = x
      · subst hbx
        simp [hb]
      · rw [if_neg hb, Function.update_of_ne hbx, if_neg (by simp [hb, hbx])]

/-- A stopped `install_trans(1)` redone: the blocks it wrote are written again from the same
log blocks, which it did not touch. -/
theorem installLoop_installLoop_take {bs : List ℕ} (hwf : LhWF start bs) (k : ℕ) (disk : Disk) :
    installLoop start 0 bs (installLoop start 0 (bs.take k) disk) = installLoop start 0 bs disk := by
  have hlen : 0 + bs.length ≤ LOGBLOCKS := by rw [Nat.zero_add]; exact hwf.length_le
  funext b
  rw [installLoop_apply hwf.nodup hwf.home hlen, installLoop_apply hwf.nodup hwf.home hlen]
  split_ifs with hb
  · have hlog : InLog start (start + 1 + (0 + bs.idxOf b)) :=
      inLog_log (lt_of_lt_of_le (by simpa using List.idxOf_lt_length_of_mem hb) hwf.length_le)
    rw [← Nat.add_assoc] at hlog
    exact installLoop_of_not_mem
      (fun hm => hwf.home _ (List.mem_of_mem_take hm) hlog) disk
  · exact installLoop_of_not_mem (fun hm => hb (List.mem_of_mem_take hm)) disk

theorem recoverFromLog_of_ne {b : ℕ} (hb : b ≠ start) (disk : Disk) :
    recoverFromLog start disk b = installLoop start 0 (decodeHead (disk start)) disk b :=
  Function.update_of_ne hb _ _

theorem recoverPrefix_of_le {disk : Disk} {k : ℕ} (hk : k ≤ (decodeHead (disk start)).length) :
    recoverPrefix start disk k = installLoop start 0 ((decodeHead (disk start)).take k) disk := by
  simp only [recoverPrefix]
  rw [if_pos hk]

theorem recoverPrefix_of_lt {disk : Disk} {k : ℕ} (hk : (decodeHead (disk start)).length < k) :
    recoverPrefix start disk k = recoverFromLog start disk := by
  simp only [recoverPrefix, recoverFromLog]
  rw [if_neg (not_le.2 hk), List.take_of_length_le hk.le]

namespace HeadOK

variable {disk : Disk}

theorem recoverFromLog_start (h : HeadOK start disk) :
    recoverFromLog start disk start = encodeHead (disk start) [] := by
  simp only [recoverFromLog, Function.update_self]
  rw [installLoop_of_not_mem (fun hm => h.lh.home _ hm inLog_head)]

theorem recoverFromLog (h : HeadOK start disk) : HeadOK start (recoverFromLog start disk) := by
  have h4 : 4 ≤ (disk start).length := by rw [h.length]; decide
  refine ⟨?_, ?_⟩
  · rw [h.recoverFromLog_start, encodeHead_length (by simpa using h4), h.length]
  · rw [h.recoverFromLog_start, decodeHead_encodeHead_nil h.length]
    exact LhWF.nil

/-- Recovery of a recovered disk changes nothing. -/
theorem recoverFromLog_idem (h : HeadOK start disk) :
    Fs.recoverFromLog start (Fs.recoverFromLog start disk) = Fs.recoverFromLog start disk := by
  have h4 : 4 ≤ (disk start).length := by rw [h.length]; decide
  have hhead : decodeHead (Fs.recoverFromLog start disk start) = [] := by
    rw [h.recoverFromLog_start]
    exact decodeHead_encodeHead_nil h.length
  have hclear : encodeHead (Fs.recoverFromLog start disk start) [] =
      Fs.recoverFromLog start disk start := by
    rw [h.recoverFromLog_start]
    exact encodeHead_encodeHead_nil h4
  conv_lhs => simp only [Fs.recoverFromLog.eq_1 start (Fs.recoverFromLog start disk), hhead]
  rw [installLoop, hclear, Function.update_eq_self]

/-- **A crash during recovery.**  The disk it leaves can be recovered, and its recovery gives
what the interrupted one would have. -/
theorem recoverPrefix (h : HeadOK start disk) (k : ℕ) :
    HeadOK start (Fs.recoverPrefix start disk k) ∧
      Fs.recoverFromLog start (Fs.recoverPrefix start disk k) = Fs.recoverFromLog start disk := by
  by_cases hk : k ≤ (decodeHead (disk start)).length
  · -- the crash fell inside `install_trans(1)`: the header is still the one read
    have hstart : Fs.recoverPrefix start disk k start = disk start := by
      rw [recoverPrefix_of_le hk, installLoop_of_not_mem
        (fun hm => h.lh.home _ (List.mem_of_mem_take hm) inLog_head)]
    refine ⟨⟨hstart ▸ h.length, hstart ▸ h.lh⟩, ?_⟩
    simp only [Fs.recoverFromLog]
    rw [hstart, recoverPrefix_of_le hk, installLoop_installLoop_take h.lh k disk]
  · -- the crash fell after the last write of recovery
    rw [recoverPrefix_of_lt (not_le.1 hk)]
    exact ⟨h.recoverFromLog, h.recoverFromLog_idem⟩

/-- **Recovery survives crashes during recovery.**  Recoveries stopped by crashes after any
numbers of block writes, then one that completes, leave what one recovery leaves. -/
theorem recoverFromLog_foldl (h : HeadOK start disk) (ks : List ℕ) :
    Fs.recoverFromLog start (ks.foldl (Fs.recoverPrefix start) disk) =
      Fs.recoverFromLog start disk := by
  induction ks generalizing disk with
  | nil => rfl
  | cons k ks ih =>
    obtain ⟨h', e⟩ := h.recoverPrefix k
    rw [List.foldl_cons, ih h', e]

end HeadOK

/-! ### The invariant -/

/-- No group is committing: the header says the log is empty, the home blocks hold the
committed disk `D`, and the pinned buffers hold the last write of the running group `p` to each
block, which are the blocks of `lh`. -/
structure Pending (start : ℕ) (D : Disk) (p : List (ℕ × List UInt8)) (s : LogSt) : Prop where
  head : decodeHead (s.disk start) = []
  home : HomeEq start s.disk D
  pinned : ∀ b, s.pinned b = lastWrite p b
  mem_lh : ∀ b, b ∈ s.lh ↔ (lastWrite p b).isSome

/-- `write_log` has copied the first `k` logged blocks from the cache into the log. -/
def LogWritten (start k : ℕ) (s : LogSt) : Prop :=
  ∀ j < k, s.disk (start + 1 + j) = s.data (s.lh.getD j 0)

/-- The group is committed and `install_trans(0)` has written the blocks of `lh` before
position `i` home: the header names `lh`, the log blocks hold the committed disk `D` at the
blocks of `lh`, every home block not left to install holds `D`, and only the blocks left to
install are pinned. -/
structure Installing (start : ℕ) (D : Disk) (i : ℕ) (s : LogSt) : Prop where
  head : decodeHead (s.disk start) = s.lh
  ne_nil : s.lh ≠ []
  log : ∀ j < s.lh.length, s.disk (start + 1 + j) = D (s.lh.getD j 0)
  home : ∀ b, ¬ InLog start b → b ∉ s.lh.drop i → s.disk b = D b
  pinned : ∀ b, s.pinned b ≠ none → b ∈ s.lh.drop i

/-- What holds at each point of `commit()`, for the committed disk `D` and the running group's
writes `p`. -/
def Staged (start : ℕ) (D : Disk) (p : List (ℕ × List UInt8)) (s : LogSt) : Phase → Prop
  | .idle => Pending start D p s
  | .writeLog i => Pending start D p s ∧ i < s.lh.length ∧ LogWritten start i s
  | .writeHead => Pending start D p s ∧ s.lh ≠ [] ∧ LogWritten start s.lh.length s
  | .install i => Installing start D i s ∧ p = [] ∧ i < s.lh.length
  | .clearHead => Installing start D s.lh.length s ∧ p = []

/-- **The invariant of the log**, for the disk `d₀` of the boot and the history `h` of the run:
the committed disk is `d₀` after the writes of the committed groups, and the running group's
writes are the pending ones. -/
structure LogInv (start : ℕ) (d₀ : Disk) (s : LogSt)
    (h : List (ℕ × List UInt8) × List (ℕ × List UInt8)) : Prop where
  head_length : (s.disk start).length = BSIZE
  lh : LhWF start s.lh
  staged : Staged start (applyWrites d₀ h.1) h.2 s s.phase

variable {D : Disk} {p : List (ℕ × List UInt8)} {s s' : LogSt} {d₀ : Disk}
  {h : List (ℕ × List UInt8) × List (ℕ × List UInt8)}

theorem LogSt.data_of_home {x : ℕ} (hx : ¬ InLog start x) (hd : HomeEq start s'.disk s.disk)
    (hpin : s'.pinned = s.pinned) : s'.data x = s.data x := by
  simp only [LogSt.data, hpin, hd x hx]

theorem getD_mem {l : List ℕ} {j : ℕ} (hj : j < l.length) : l.getD j 0 ∈ l := by
  rw [List.getD_eq_getElem _ _ hj]
  exact List.getElem_mem hj

namespace Pending

/-- A state with the same header, home blocks, pinned buffers and logged blocks. -/
theorem of_eq (hp : Pending start D p s) (hhd : s'.disk start = s.disk start)
    (hhome : HomeEq start s'.disk s.disk) (hpin : s'.pinned = s.pinned) (hlh : s'.lh = s.lh) :
    Pending start D p s' where
  head := hhd ▸ hp.head
  home b hb := (hhome b hb).trans (hp.home b hb)
  pinned b := hpin ▸ hp.pinned b
  mem_lh b := hlh ▸ hp.mem_lh b

theorem pinned_eq_none (hp : Pending start D p s) {b : ℕ} (hb : b ∉ s.lh) : s.pinned b = none := by
  rw [hp.pinned, ← Option.not_isSome_iff_eq_none, ← hp.mem_lh]
  exact hb

/-- What `bread` gives of a home block: the committed block after the running group's writes. -/
theorem data_eq (hp : Pending start D p s) {x : ℕ} (hx : ¬ InLog start x) :
    s.data x = applyWrites D p x := by
  rw [LogSt.data, hp.pinned, applyWrites_apply, hp.home x hx]

/-- `log_write` of `b` after the call wrote `d` into its buffer. -/
theorem logWrite (hp : Pending start D p s) (b : ℕ) (d : List UInt8) :
    Pending start D (p ++ [(b, d)])
      { s with lh := if b ∈ s.lh then s.lh else s.lh ++ [b],
               pinned := Function.update s.pinned b (some d) } where
  head := hp.head
  home := hp.home
  pinned x := by
    rw [lastWrite_append_singleton]
    by_cases hx : x = b
    · subst hx
      simp
    · simp [Function.update_of_ne hx, Ne.symm hx, hp.pinned x]
  mem_lh x := by
    rw [lastWrite_append_singleton]
    by_cases hx : x = b
    · subst hx
      split_ifs <;> simp_all
    · rw [if_neg (Ne.symm hx), ← hp.mem_lh x]
      split_ifs <;> simp [hx]

/-- Recovery from a disk whose header says the log is empty writes no home block. -/
theorem recover (hp : Pending start D p s) : HomeEq start (recoverFromLog start s.disk) D := by
  intro b hb
  rw [recoverFromLog_of_ne (ne_of_inLog hb inLog_head), hp.head, installLoop, hp.home b hb]

end Pending

/-- Recovery from a disk whose header names a committed group writes its logged contents home. -/
theorem Installing.recover {i : ℕ} (hI : Installing start D i s) (hwf : LhWF start s.lh) :
    HomeEq start (recoverFromLog start s.disk) D := by
  intro b hb
  rw [recoverFromLog_of_ne (ne_of_inLog hb inLog_head), hI.head,
    installLoop_apply hwf.nodup hwf.home (by rw [Nat.zero_add]; exact hwf.length_le)]
  split_ifs with hmem
  · -- a logged block gets its log block, which holds its committed contents
    have hidx := List.idxOf_lt_length_of_mem hmem
    rw [Nat.add_zero, hI.log _ hidx, List.getD_eq_getElem _ _ hidx, List.getElem_idxOf]
  · exact hI.home b hb (fun hm => hmem (List.mem_of_mem_drop hm))

/-- The write of the `i`-th log block extends what `write_log` has copied. -/
theorem LogWritten.write {i : ℕ} (hw : LogWritten start i s) (hwf : LhWF start s.lh)
    (hi : i < s.lh.length) (ph : Phase) :
    LogWritten start (i + 1) { s with
      disk := Function.update s.disk (start + 1 + i) (s.data (s.lh.getD i 0)), phase := ph } := by
  have hlog : InLog start (start + 1 + i) := inLog_log (lt_of_lt_of_le hi hwf.length_le)
  intro j hj
  -- the cached contents of a logged block are unchanged: it is outside the log
  have hx : ¬ InLog start (s.lh.getD j 0) := hwf.home _ (getD_mem (by omega))
  simp only [LogSt.data]
  rw [Function.update_of_ne (ne_of_inLog hx hlog)]
  rcases Nat.lt_succ_iff_lt_or_eq.1 hj with hj | rfl
  · rw [Function.update_of_ne (by omega)]
    exact hw j hj
  · rw [Function.update_self]

/-- `install_trans(0)` writes the `i`-th logged block home from its log block and unpins it. -/
theorem Installing.install {i : ℕ} (hI : Installing start D i s) (hwf : LhWF start s.lh)
    (hi : i < s.lh.length) (ph : Phase) :
    Installing start D (i + 1) { s with
      disk := Function.update s.disk (s.lh.getD i 0) (s.disk (start + 1 + i)),
      pinned := Function.update s.pinned (s.lh.getD i 0) none, phase := ph } := by
  have hb : ¬ InLog start (s.lh.getD i 0) := hwf.home _ (getD_mem hi)
  have hdrop : s.lh.drop i = s.lh.getD i 0 :: s.lh.drop (i + 1) := by
    rw [List.drop_eq_getElem_cons hi, List.getD_eq_getElem _ _ hi]
  refine ⟨?_, hI.ne_nil, fun j hj => ?_, fun x hx hnot => ?_, fun x hx => ?_⟩
  · dsimp only
    rw [Function.update_of_ne (ne_of_inLog hb inLog_head).symm]
    exact hI.head
  · dsimp only at hj ⊢
    have hlog : InLog start (start + 1 + j) := inLog_log (lt_of_lt_of_le hj hwf.length_le)
    rw [Function.update_of_ne (ne_of_inLog hb hlog).symm]
    exact hI.log j hj
  · dsimp only at hnot ⊢
    by_cases hxb : x = s.lh.getD i 0
    · rw [hxb, Function.update_self]
      exact hI.log i hi
    · rw [Function.update_of_ne hxb]
      exact hI.home x hx (by rw [hdrop, List.mem_cons, not_or]; exact ⟨hxb, hnot⟩)
  · dsimp only at hx ⊢
    by_cases hxb : x = s.lh.getD i 0
    · rw [hxb, Function.update_self] at hx
      exact absurd rfl hx
    · rw [Function.update_of_ne hxb] at hx
      have hm := hI.pinned x hx
      rw [hdrop] at hm
      exact (List.mem_cons.1 hm).resolve_left hxb

namespace LogInv

theorem staged_of {ph : Phase} (hinv : LogInv start d₀ s h) (hph : s.phase = ph) :
    Staged start (applyWrites d₀ h.1) h.2 s ph :=
  hph ▸ hinv.staged

theorem of_staged {ph : Phase} (hlen : (s.disk start).length = BSIZE) (hwf : LhWF start s.lh)
    (hph : s.phase = ph) (hst : Staged start (applyWrites d₀ h.1) h.2 s ph) : LogInv start d₀ s h :=
  ⟨hlen, hwf, hph ▸ hst⟩

/-- Every phase is before the commit point or after it. -/
theorem pending_or_installing (hinv : LogInv start d₀ s h) :
    Pending start (applyWrites d₀ h.1) h.2 s ∨ ∃ i, Installing start (applyWrites d₀ h.1) i s := by
  cases hph : s.phase with
  | idle => exact .inl (hinv.staged_of hph)
  | writeLog i => exact .inl (hinv.staged_of hph).1
  | writeHead => exact .inl (hinv.staged_of hph).1
  | install i => exact .inr ⟨i, (hinv.staged_of hph).1⟩
  | clearHead => exact .inr ⟨_, (hinv.staged_of hph).1⟩

theorem headOK (hinv : LogInv start d₀ s h) : HeadOK start s.disk := by
  rcases hinv.pending_or_installing with hp | ⟨i, hI⟩
  · exact ⟨hinv.head_length, hp.head ▸ LhWF.nil⟩
  · exact ⟨hinv.head_length, hI.head ▸ hinv.lh⟩

/-- **Recovery gives the committed disk**, from every state of the invariant. -/
theorem recover (hinv : LogInv start d₀ s h) :
    HomeEq start (recoverFromLog start s.disk) (applyWrites d₀ h.1) := by
  rcases hinv.pending_or_installing with hp | ⟨i, hI⟩
  · exact hp.recover
  · exact hI.recover hinv.lh

/-- A step of a call that leaves the header, the home blocks and the cache alone, with no
commit running before or after. -/
theorem of_idle (hinv : LogInv start d₀ s h) (hph : s.phase = .idle) (hd : s'.disk = s.disk)
    (hpin : s'.pinned = s.pinned) (hlh : s'.lh = s.lh) (hph' : s'.phase = .idle) :
    LogInv start d₀ s' h :=
  of_staged (hd ▸ hinv.head_length) (hlh ▸ hinv.lh) hph'
    (Pending.of_eq (hinv.staged_of hph) (by rw [hd]) (fun b _ => congrFun hd b) hpin hlh)

theorem init (hhead : decodeHead (d₀ start) = []) (hlen : (d₀ start).length = BSIZE) :
    LogInv start d₀ (logInit d₀) ([], []) :=
  of_staged hlen LhWF.nil rfl ⟨hhead, fun _ _ => rfl, fun _ => rfl, fun _ => by simp [logInit]⟩

theorem after_beginOp (hinv : LogInv start d₀ s h) :
    LogInv start d₀ (beginOp s).1 (histStep h (beginOp s).2) := by
  unfold beginOp
  split_ifs with hph hfull
  · exact hinv
  · exact hinv
  · exact hinv.of_idle (not_not.1 hph) rfl rfl rfl (not_not.1 hph)

theorem after_logWrite (hinv : LogInv start d₀ s h) {b : ℕ} (d : List UInt8)
    (hb : ¬ InLog start b ∧ b < 2 ^ 32) :
    LogInv start d₀ (logWrite s b d).1 (histStep h (logWrite s b d).2) := by
  by_cases hblk : s.outstanding = 0 ∨ s.phase ≠ .idle
  · rw [logWrite, if_pos hblk]
    exact hinv
  have hph : s.phase = .idle := by tauto
  by_cases hfull : s.lh.length ≥ LOGBLOCKS
  · -- `panic`: the kernel stops with the disk as it is
    rw [logWrite, if_neg hblk, if_pos hfull]
    exact hinv.of_idle hph rfl rfl rfl hph
  · rw [logWrite, if_neg hblk, if_neg hfull, histStep_logged]
    exact of_staged hinv.head_length (hinv.lh.absorb hb (by omega)) hph
      (Pending.logWrite (hinv.staged_of hph) b d)

theorem after_endOp (hinv : LogInv start d₀ s h) :
    LogInv start d₀ (endOp s).1 (histStep h (endOp s).2) := by
  unfold endOp
  split_ifs with hblk hlast hnil
  · exact hinv
  · exact hinv.of_idle (by tauto) rfl rfl rfl (by tauto)
  · -- the last call of the group starts `commit()`
    have hph : s.phase = .idle := by tauto
    exact of_staged hinv.head_length hinv.lh rfl
      ⟨Pending.of_eq (hinv.staged_of hph) rfl (fun _ _ => rfl) rfl rfl,
        List.length_pos_iff.2 hnil, fun j hj => absurd hj (Nat.not_lt_zero j)⟩
  · exact hinv.of_idle (by tauto) rfl rfl rfl (by tauto)

/-- `write_log` copies the `i`-th logged block from the cache into the log. -/
theorem after_writeLog (hinv : LogInv start d₀ s h) {i : ℕ} (hph : s.phase = .writeLog i) :
    LogInv start d₀ (commitStep start s).1 (histStep h (commitStep start s).2) := by
  obtain ⟨hp, hi, hw⟩ : Pending start (applyWrites d₀ h.1) h.2 s ∧ i < s.lh.length ∧
      LogWritten start i s := hinv.staged_of hph
  have hlog : InLog start (start + 1 + i) := inLog_log (lt_of_lt_of_le hi hinv.lh.length_le)
  simp only [commitStep, hph, histStep_ok]
  -- the block written is in the log: the header, the home blocks and the cache stay
  have hhd : Function.update s.disk (start + 1 + i) (s.data (s.lh.getD i 0)) start = s.disk start :=
    Function.update_of_ne (by omega) _ _
  have hhome : HomeEq start (Function.update s.disk (start + 1 + i) (s.data (s.lh.getD i 0)))
      s.disk := fun b hb => Function.update_of_ne (ne_of_inLog hb hlog) _ _
  have hlen := (congrArg List.length hhd).trans hinv.head_length
  by_cases hlast : i + 1 < s.lh.length
  · rw [if_pos hlast]
    exact of_staged hlen hinv.lh rfl ⟨hp.of_eq hhd hhome rfl rfl, hlast, hw.write hinv.lh hi _⟩
  · -- the last log block: `write_head` is next
    rw [if_neg hlast]
    have hw' := hw.write hinv.lh hi .writeHead
    rw [show i + 1 = s.lh.length by omega] at hw'
    exact of_staged hlen hinv.lh rfl
      ⟨hp.of_eq hhd hhome rfl rfl, List.ne_nil_of_length_pos (lt_of_le_of_lt (Nat.zero_le i) hi), hw'⟩

/-- **The commit point.**  `write_head` with the group's blocks: their logged contents become
the committed disk. -/
theorem after_writeHead (hinv : LogInv start d₀ s h) (hph : s.phase = .writeHead) :
    LogInv start d₀ (commitStep start s).1 (histStep h (commitStep start s).2) := by
  obtain ⟨hp, hne, hw⟩ : Pending start (applyWrites d₀ h.1) h.2 s ∧ s.lh ≠ [] ∧
      LogWritten start s.lh.length s := hinv.staged_of hph
  simp only [commitStep, hph, histStep_committed]
  refine of_staged ?_ hinv.lh rfl
    ⟨⟨?_, hne, fun j hj => ?_, fun b hb hnot => ?_, fun b hb => ?_⟩, rfl, List.length_pos_iff.2 hne⟩
  · dsimp only
    rw [Function.update_self, encodeHead_length (by rw [hinv.head_length]; exact hinv.lh.head_fits),
      hinv.head_length]
  · dsimp only
    rw [Function.update_self]
    exact hinv.lh.decodeHead_encodeHead hinv.head_length
  · -- a log block holds the cached block, the committed one after the group's writes
    dsimp only at hj ⊢
    have hx := hinv.lh.home _ (getD_mem hj)
    rw [Function.update_of_ne (by omega), hw j hj, hp.data_eq hx, applyWrites_append]
  · -- a block the group did not write keeps its committed contents
    dsimp only at hnot ⊢
    rw [List.drop_zero] at hnot
    rw [Function.update_of_ne (ne_of_inLog hb inLog_head), applyWrites_append, ← hp.data_eq hb,
      LogSt.data, hp.pinned_eq_none hnot, Option.getD_none]
  · rw [List.drop_zero]
    by_contra hm
    exact hb (hp.pinned_eq_none hm)

theorem after_install (hinv : LogInv start d₀ s h) {i : ℕ} (hph : s.phase = .install i) :
    LogInv start d₀ (commitStep start s).1 (histStep h (commitStep start s).2) := by
  obtain ⟨hI, hp, hi⟩ : Installing start (applyWrites d₀ h.1) i s ∧ h.2 = [] ∧ i < s.lh.length :=
    hinv.staged_of hph
  have hb : ¬ InLog start (s.lh.getD i 0) := hinv.lh.home _ (getD_mem hi)
  have hhd : Function.update s.disk (s.lh.getD i 0) (s.disk (start + 1 + i)) start =
      s.disk start := Function.update_of_ne (ne_of_inLog hb inLog_head).symm _ _
  simp only [commitStep, hph, histStep_ok]
  have hlen := (congrArg List.length hhd).trans hinv.head_length
  by_cases hlast : i + 1 < s.lh.length
  · rw [if_pos hlast]
    exact of_staged hlen hinv.lh rfl ⟨hI.install hinv.lh hi _, hp, hlast⟩
  · -- the last block is home: the header is erased next
    rw [if_neg hlast]
    have hI' := hI.install hinv.lh hi .clearHead
    rw [show i + 1 = s.lh.length by omega] at hI'
    exact of_staged hlen hinv.lh rfl ⟨hI', hp⟩

/-- The `write_head` that erases the transaction: every block is home, and nothing is pinned. -/
theorem after_clearHead (hinv : LogInv start d₀ s h) (hph : s.phase = .clearHead) :
    LogInv start d₀ (commitStep start s).1 (histStep h (commitStep start s).2) := by
  obtain ⟨hI, hp⟩ : Installing start (applyWrites d₀ h.1) s.lh.length s ∧ h.2 = [] :=
    hinv.staged_of hph
  have h4 : 4 ≤ (s.disk start).length := by rw [hinv.head_length]; decide
  simp only [commitStep, hph, histStep_ok]
  refine of_staged ?_ LhWF.nil rfl ⟨?_, fun b hb => ?_, fun b => ?_, fun b => ?_⟩
  · dsimp only
    rw [Function.update_self, encodeHead_length (by simpa using h4), hinv.head_length]
  · dsimp only
    rw [Function.update_self]
    exact decodeHead_encodeHead_nil hinv.head_length
  · dsimp only
    rw [Function.update_of_ne (ne_of_inLog hb inLog_head)]
    exact hI.home b hb (by simp)
  · rw [hp, lastWrite_nil]
    by_contra hne
    simpa using hI.pinned b hne
  · rw [hp]
    simp

theorem after_commitStep (hinv : LogInv start d₀ s h) :
    LogInv start d₀ (commitStep start s).1 (histStep h (commitStep start s).2) := by
  cases hph : s.phase with
  | idle =>
    simp only [commitStep, hph, histStep_blocked]
    exact hinv
  | writeLog i => exact hinv.after_writeLog hph
  | writeHead => exact hinv.after_writeHead hph
  | install i => exact hinv.after_install hph
  | clearHead => exact hinv.after_clearHead hph

/-- **The invariant is inductive**: every step whose write goes home keeps it. -/
theorem step (hinv : LogInv start d₀ s h) {l : LogOp} (hl : HomeWrite start l) :
    LogInv start d₀ (logStep start s l).1 (histStep h (logStep start s l).2) := by
  unfold logStep
  split_ifs
  · exact hinv
  · cases l with
    | beginOp => exact hinv.after_beginOp
    | write b d => exact hinv.after_logWrite d hl
    | endOp => exact hinv.after_endOp
    | commitStep => exact hinv.after_commitStep

/-- **Only `install_trans` writes a home block**: every other step leaves the blocks outside the
log alone. -/
theorem home_write (hinv : LogInv start d₀ s h) (l : LogOp) {b : ℕ} (hb : ¬ InLog start b)
    (hne : (logStep start s l).1.disk b ≠ s.disk b) :
    ∃ i, s.phase = .install i ∧ l = .commitStep ∧ b = s.lh.getD i 0 := by
  unfold logStep at hne
  split_ifs at hne
  · exact absurd rfl hne
  · cases l with
    | beginOp => exact absurd (congrFun (beginOp_disk s) b) hne
    | write b' d => exact absurd (congrFun (logWrite_disk s b' d) b) hne
    | endOp => exact absurd (congrFun (endOp_disk s) b) hne
    | commitStep =>
      cases hph : s.phase with
      | idle => simp [commitStep, hph] at hne
      | writeLog i =>
        have hi : i < s.lh.length := (hinv.staged_of hph).2.1
        simp only [commitStep, hph] at hne
        exact absurd (Function.update_of_ne
          (ne_of_inLog hb (inLog_log (lt_of_lt_of_le hi hinv.lh.length_le))) _ _) hne
      | writeHead =>
        simp only [commitStep, hph] at hne
        exact absurd (Function.update_of_ne (ne_of_inLog hb inLog_head) _ _) hne
      | install i =>
        simp only [commitStep, hph] at hne
        refine ⟨i, rfl, rfl, ?_⟩
        by_contra hbi
        exact hne (Function.update_of_ne hbi _ _)
      | clearHead =>
        simp only [commitStep, hph] at hne
        exact absurd (Function.update_of_ne (ne_of_inLog hb inLog_head) _ _) hne

end LogInv

/-- **The invariant holds along every run** whose writes go home, with the history of the run. -/
theorem logInv_run (hhead : decodeHead (d₀ start) = []) (hlen : (d₀ start).length = BSIZE)
    {ls : List LogOp} (hls : ∀ l ∈ ls, HomeWrite start l) :
    LogInv start d₀ ((logMachine start d₀).run (logMachine start d₀).init ls)
      (logHistory ((logMachine start d₀).outs (logMachine start d₀).init ls)) :=
  Machine.run_outs_induction_of (fun s os => LogInv start d₀ s (logHistory os)) (HomeWrite start)
    (LogInv.init hhead hlen)
    (fun s os _ hl hinv => by rw [logHistory_append_singleton]; exact hinv.step hl) hls

/-- **Crash safety of the log.**  Let a run start from the disk of the boot, after `initlog`,
and let its calls write home blocks only.  A crash after any step leaves a disk whose
recovery gives every home block the writes of the groups whose commit point was reached, in
order, and none of the writes of the group still running; it leaves an empty header; crashes
during recovery, then one complete recovery, give the same disk; and no step but a block write
of `install_trans` changes a home block. -/
theorem crash_recovers_committed (start : ℕ) (d₀ : Disk) (hhead : decodeHead (d₀ start) = [])
    (hlen : (d₀ start).length = BSIZE) (ls : List LogOp) (hls : ∀ l ∈ ls, HomeWrite start l) :
    let M := logMachine start d₀
    let s := M.run M.init ls
    let d := recoverFromLog start s.disk
    HomeEq start d (applyWrites d₀ (logHistory (M.outs M.init ls)).1) ∧
      decodeHead (d start) = [] ∧
      (∀ ks : List ℕ, recoverFromLog start (ks.foldl (recoverPrefix start) s.disk) = d) ∧
      ∀ l b, ¬ InLog start b → (M.step s l).1.disk b ≠ s.disk b →
        ∃ i, s.phase = .install i ∧ l = .commitStep ∧ b = s.lh.getD i 0 := by
  intro M s d
  have hinv : LogInv start d₀ s (logHistory (M.outs M.init ls)) := logInv_run hhead hlen hls
  have hok := hinv.headOK
  refine ⟨hinv.recover, ?_, hok.recoverFromLog_foldl, fun l b hb hne => hinv.home_write l hb hne⟩
  show decodeHead (recoverFromLog start s.disk start) = []
  rw [hok.recoverFromLog_start]
  exact decodeHead_encodeHead_nil hok.length

theorem crash_recovers_committed_zeros :
    let d₀ : Disk := fun _ => List.replicate BSIZE 0
    let M := logMachine 2 d₀
    let ls := [LogOp.beginOp, .write 40 [7], .endOp, .commitStep, .commitStep]
    decodeHead (d₀ 2) = [] ∧ (d₀ 2).length = BSIZE ∧ (∀ l ∈ ls, HomeWrite 2 l) ∧
      HomeEq 2 (recoverFromLog 2 (M.run M.init ls).disk)
        (applyWrites d₀ (logHistory (M.outs M.init ls)).1) := by
  intro d₀ M ls
  have hhead : decodeHead (d₀ 2) = [] := by decide +kernel
  have hlen : (d₀ 2).length = BSIZE := List.length_replicate
  have hls : ∀ l ∈ ls, HomeWrite 2 l := by decide
  exact ⟨hhead, hlen, hls, (crash_recovers_committed 2 d₀ hhead hlen ls hls).1⟩

end Fs

end Xv6Net
