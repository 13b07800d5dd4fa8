import Xv6Net.Machine.Basic
import Xv6Net.Bytes.Basic
import Xv6Net.Store.Basic

/-!
# The write-ahead log (`log.c`, with the buffer cache of `bio.c`)

The disk is a map from block numbers to blocks of bytes, and each `bwrite` changes one block.
The log occupies the header block `start` and the `LOGBLOCKS` blocks after it.  The header is
`struct logheader`, stored in the header block as 32-bit words: `n` at offset `0`, `block[i]` at
offset `4 + 4 i` (`encodeHead`, `decodeHead`).

Of the buffer cache only the pinned buffers are kept (`LogSt.pinned`).  A file-system call
modifies a buffer and calls `log_write`, which pins it until `install_trans` has written it
home; an unpinned cached buffer holds what is on the disk, so `bread` of a block is its pinned
copy if there is one and the disk block otherwise (`LogSt.data`).

`logMachine` is the log from the moment `initlog` has recovered it: the operations of the calls
in a transaction (`begin_op`, a modified buffer handed to `log_write`, `end_op`) and the block
writes of a running `commit()`, one `bwrite` per step, so that a crash can fall between any two.
A `panic` stops the kernel, which keeps the disk as it is.  `recoverFromLog` is what the next
boot does with the disk, and `recoverPrefix` the disk a crash leaves during it.
-/

namespace Xv6Net

namespace Fs

open Bytes

def BSIZE : ℕ := 1024

def MAXOPBLOCKS : ℕ := 10

def LOGBLOCKS : ℕ := MAXOPBLOCKS * 3

/-- The disk: each block number's block. -/
abbrev Disk := ℕ → List UInt8

/-! ### The header block -/

/-- `hb->block[i + k] = bs[k]` for every `k`. -/
def storeBlocks (buf : List UInt8) (i : ℕ) : List ℕ → List UInt8
  | [] => buf
  | b :: bs => storeBlocks (store32 buf (4 + 4 * i) b.toUInt32) (i + 1) bs

/-- The stores of `write_head` into the header block `buf`: `hb->n`, then `hb->block[i]` for
`i < n`; the rest of the block stays as it was. -/
def encodeHead (buf : List UInt8) (blocks : List ℕ) : List UInt8 :=
  storeBlocks (store32 buf 0 blocks.length.toUInt32) 0 blocks

/-- The loads of `read_head`: `lh->n` as an `int`, then `lh->block[i]` for `i < n`, as the
block numbers `bread` gets. -/
def decodeHead (buf : List UInt8) : List ℕ :=
  (List.range (toInt32 (load32 buf 0).toNat).toNat).map fun i => (load32 buf (4 + 4 * i)).toNat

/-! ### The log and its operations -/

/-- Where `commit()` is, one block write after another. -/
inductive Phase
  /-- No commit runs (`log.committing` is `0`). -/
  | idle
  /-- `write_log`, before its write of log block `i`. -/
  | writeLog (i : ℕ)
  /-- The `write_head` that commits. -/
  | writeHead
  /-- `install_trans(0)`, before its write of the `i`-th logged block home. -/
  | install (i : ℕ)
  /-- The `write_head` that erases the transaction. -/
  | clearHead
  deriving DecidableEq, Repr

/-- The log: the disk, the pinned buffers, `log.lh.block[0 .. n)`, `log.outstanding`, where the
commit is, and whether a `panic` has stopped the kernel. -/
structure LogSt where
  disk : Disk
  pinned : ℕ → Option (List UInt8)
  lh : List ℕ
  outstanding : ℕ
  phase : Phase
  halted : Bool

/-- `bread(b)`: the pinned buffer of `b`, or the disk block. -/
def LogSt.data (s : LogSt) (b : ℕ) : List UInt8 := (s.pinned b).getD (s.disk b)

inductive LogOp
  /-- `begin_op()` of a file-system call. -/
  | beginOp
  /-- A call inside a transaction sets the buffer of block `b` to `d` and calls `log_write`. -/
  | write (b : ℕ) (d : List UInt8)
  /-- `end_op()` of a call inside a transaction. -/
  | endOp
  /-- The next block write of the running `commit()`. -/
  | commitStep

inductive LogOut
  | ok
  /-- The operation cannot run now: `begin_op` sleeps, or no call is in a position to make it. -/
  | blocked
  /-- `log_write` recorded the write of `d` to block `b`. -/
  | logged (b : ℕ) (d : List UInt8)
  /-- The header with `n > 0` reached the disk: the group is committed. -/
  | committed
  | halted
  deriving DecidableEq

/-- `begin_op()`: it sleeps while a commit runs, or while the group's reservations would not
fit in the log. -/
def beginOp (s : LogSt) : LogSt × LogOut :=
  if s.phase ≠ .idle then (s, .blocked)
  else if s.lh.length + (s.outstanding + 1) * MAXOPBLOCKS > LOGBLOCKS then (s, .blocked)
  else ({ s with outstanding := s.outstanding + 1 }, .ok)

/-- A call in a transaction writes `d` into the buffer of `b` and calls `log_write(b)`, which
panics on a full log, and otherwise records `b` once (log absorption) and pins its buffer. -/
def logWrite (s : LogSt) (b : ℕ) (d : List UInt8) : LogSt × LogOut :=
  if s.outstanding = 0 ∨ s.phase ≠ .idle then (s, .blocked)
  -- `panic("too big a transaction")`
  else if s.lh.length ≥ LOGBLOCKS then ({ s with halted := true }, .halted)
  else
    ({ s with lh := if b ∈ s.lh then s.lh else s.lh ++ [b],
              pinned := Function.update s.pinned b (some d) }, .logged b d)

/-- `end_op()`: the last call of a group sets `log.committing` and starts `commit()`, which
writes nothing when nothing is logged. -/
def endOp (s : LogSt) : LogSt × LogOut :=
  if s.outstanding = 0 ∨ s.phase ≠ .idle then (s, .blocked)
  else if s.outstanding - 1 = 0 then
    if s.lh = [] then ({ s with outstanding := 0 }, .ok)
    else ({ s with outstanding := 0, phase := .writeLog 0 }, .ok)
  else ({ s with outstanding := s.outstanding - 1 }, .ok)

@[simp] theorem beginOp_disk (s : LogSt) : (beginOp s).1.disk = s.disk := by
  unfold beginOp; split_ifs <;> rfl

@[simp] theorem logWrite_disk (s : LogSt) (b : ℕ) (d : List UInt8) :
    (logWrite s b d).1.disk = s.disk := by
  unfold logWrite; split_ifs <;> rfl

@[simp] theorem endOp_disk (s : LogSt) : (endOp s).1.disk = s.disk := by
  unfold endOp; split_ifs <;> rfl

/-- One block write of `commit()`: `write_log`, `write_head`, `install_trans(0)`, and the
`write_head` after `log.lh.n = 0`.  The header block is never pinned, so `bread` of it reads the
disk, and so does `bread` of a log block, which `write_log` wrote. -/
def commitStep (start : ℕ) (s : LogSt) : LogSt × LogOut :=
  match s.phase with
  | .idle => (s, .blocked)
  | .writeLog i =>
    ({ s with disk := Function.update s.disk (start + 1 + i) (s.data (s.lh.getD i 0)),
              phase := if i + 1 < s.lh.length then .writeLog (i + 1) else .writeHead }, .ok)
  | .writeHead =>
    ({ s with disk := Function.update s.disk start (encodeHead (s.disk start) s.lh),
              phase := .install 0 }, .committed)
  | .install i =>
    let b := s.lh.getD i 0
    -- `bwrite(dbuf)` of the log block's contents, then `bunpin(dbuf)`
    ({ s with disk := Function.update s.disk b (s.disk (start + 1 + i)),
              pinned := Function.update s.pinned b none,
              phase := if i + 1 < s.lh.length then .install (i + 1) else .clearHead }, .ok)
  | .clearHead =>
    ({ s with lh := [], disk := Function.update s.disk start (encodeHead (s.disk start) []),
              phase := .idle }, .ok)

def logStep (start : ℕ) (s : LogSt) (op : LogOp) : LogSt × LogOut :=
  if s.halted then (s, .halted)
  else
    match op with
    | .beginOp => beginOp s
    | .write b d => logWrite s b d
    | .endOp => endOp s
    | .commitStep => commitStep start s

/-- The log after `initlog`: the disk `d₀`, whose header says the log is empty, nothing pinned. -/
def logInit (d₀ : Disk) : LogSt := ⟨d₀, fun _ => none, [], 0, .idle, false⟩

def logMachine (start : ℕ) (d₀ : Disk) : Machine LogSt LogOp LogOut := ⟨logInit d₀, logStep start⟩

/-! ### Recovery -/

/-- `install_trans(1)` of the blocks `bs`, the first from log block `i`. -/
def installLoop (start : ℕ) : ℕ → List ℕ → Disk → Disk
  | _, [], disk => disk
  | i, b :: bs, disk => installLoop start (i + 1) bs (Function.update disk b (disk (start + 1 + i)))

/-- `recover_from_log()`: `read_head`, `install_trans(1)`, and `write_head` with `n = 0`. -/
def recoverFromLog (start : ℕ) (disk : Disk) : Disk :=
  let disk' := installLoop start 0 (decodeHead (disk start)) disk
  Function.update disk' start (encodeHead (disk' start) [])

/-- The disk after the first `k` block writes of `recover_from_log`, where a crash may stop it. -/
def recoverPrefix (start : ℕ) (disk : Disk) (k : ℕ) : Disk :=
  let bs := decodeHead (disk start)
  let disk' := installLoop start 0 (bs.take k) disk
  if k ≤ bs.length then disk' else Function.update disk' start (encodeHead (disk' start) [])

/-! ### What the log is for -/

/-- The blocks of the log: the header and the `LOGBLOCKS` blocks after it. -/
def InLog (start b : ℕ) : Prop := start ≤ b ∧ b ≤ start + LOGBLOCKS

instance (start b : ℕ) : Decidable (InLog start b) := inferInstanceAs (Decidable (_ ∧ _))

/-- Two disks that agree outside the log. -/
def HomeEq (start : ℕ) (d d' : Disk) : Prop := ∀ b, ¬ InLog start b → d b = d' b

/-- The writes of the committed groups and the writes logged since the last commit, read off
the outputs of a run. -/
def histStep (h : List (ℕ × List UInt8) × List (ℕ × List UInt8)) :
    LogOut → List (ℕ × List UInt8) × List (ℕ × List UInt8)
  | .logged b d => (h.1, h.2 ++ [(b, d)])
  | .committed => (h.1 ++ h.2, [])
  | _ => h

def logHistory (os : List LogOut) : List (ℕ × List UInt8) × List (ℕ × List UInt8) :=
  os.foldl histStep ([], [])

@[simp] theorem histStep_logged (h : List (ℕ × List UInt8) × List (ℕ × List UInt8)) (b : ℕ)
    (d : List UInt8) : histStep h (.logged b d) = (h.1, h.2 ++ [(b, d)]) := rfl

@[simp] theorem histStep_committed (h : List (ℕ × List UInt8) × List (ℕ × List UInt8)) :
    histStep h .committed = (h.1 ++ h.2, []) := rfl

@[simp] theorem histStep_ok (h : List (ℕ × List UInt8) × List (ℕ × List UInt8)) :
    histStep h .ok = h := rfl

@[simp] theorem histStep_blocked (h : List (ℕ × List UInt8) × List (ℕ × List UInt8)) :
    histStep h .blocked = h := rfl

@[simp] theorem histStep_halted (h : List (ℕ × List UInt8) × List (ℕ × List UInt8)) :
    histStep h .halted = h := rfl

theorem logHistory_append_singleton (os : List LogOut) (o : LogOut) :
    logHistory (os ++ [o]) = histStep (logHistory os) o := by
  simp [logHistory, List.foldl_append]

/-! ### The header block read back -/

theorem storeBlocks_length {buf : List UInt8} {i : ℕ} {bs : List ℕ}
    (h : 4 + 4 * (i + bs.length) ≤ buf.length) : (storeBlocks buf i bs).length = buf.length := by
  induction bs generalizing buf i with
  | nil => rfl
  | cons b bs ih =>
    simp only [List.length_cons] at h
    rw [storeBlocks, ih (by rw [store32_length (by omega)]; omega), store32_length (by omega)]

/-- The words before the ones `storeBlocks` writes stay. -/
theorem load32_storeBlocks_of_le {buf : List UInt8} {i : ℕ} {bs : List ℕ}
    (h : 4 + 4 * (i + bs.length) ≤ buf.length) {off : ℕ} (hoff : off + 4 ≤ 4 + 4 * i) :
    load32 (storeBlocks buf i bs) off = load32 buf off := by
  induction bs generalizing buf i with
  | nil => rfl
  | cons b bs ih =>
    simp only [List.length_cons] at h
    rw [storeBlocks, ih (by rw [store32_length (by omega)]; omega) (by omega),
      load32_store32_of_disjoint (by omega) (by omega)]

theorem load32_storeBlocks_at {buf : List UInt8} {i : ℕ} {bs : List ℕ}
    (h : 4 + 4 * (i + bs.length) ≤ buf.length) {j : ℕ} (hj : j < bs.length) :
    load32 (storeBlocks buf i bs) (4 + 4 * (i + j)) = (bs.get ⟨j, hj⟩).toUInt32 := by
  induction bs generalizing buf i j with
  | nil => simp at hj
  | cons b bs ih =>
    simp only [List.length_cons] at h
    rw [storeBlocks]
    cases j with
    | zero =>
      rw [load32_storeBlocks_of_le (by rw [store32_length (by omega)]; omega) (by omega),
        Nat.add_zero, load32_store32_self (by omega)]
      rfl
    | succ j =>
      rw [show i + (j + 1) = (i + 1) + j by omega, ih (by rw [store32_length (by omega)]; omega)]
      rfl

/-- **The header round trip.**  `read_head` after `write_head` gives back the logged blocks. -/
theorem decodeHead_encodeHead {buf : List UInt8} {bs : List ℕ}
    (h : 4 + 4 * bs.length ≤ buf.length) (hn : bs.length < 2 ^ 31) (hb : ∀ b ∈ bs, b < 2 ^ 32) :
    decodeHead (encodeHead buf bs) = bs := by
  have h' : 4 + 4 * (0 + bs.length) ≤ (store32 buf 0 bs.length.toUInt32).length := by
    rw [store32_length (by omega)]; omega
  have hn' : (load32 (encodeHead buf bs) 0).toNat = bs.length := by
    rw [encodeHead, load32_storeBlocks_of_le h' (by omega), load32_store32_self (by omega)]
    simp only [Nat.toUInt32_eq, UInt32.toNat_ofNat']
    omega
  apply List.ext_getElem (by simp [decodeHead, hn', toInt32_of_lt hn])
  intro j h₁ h₂
  simp only [decodeHead, List.getElem_map, List.getElem_range, encodeHead]
  rw [show 4 + 4 * j = 4 + 4 * (0 + j) by omega, load32_storeBlocks_at h' h₂]
  simp only [List.get_eq_getElem, Nat.toUInt32_eq, UInt32.toNat_ofNat']
  exact Nat.mod_eq_of_lt (hb _ (List.getElem_mem h₂))

theorem encodeHead_length {buf : List UInt8} {bs : List ℕ} (h : 4 + 4 * bs.length ≤ buf.length) :
    (encodeHead buf bs).length = buf.length := by
  rw [encodeHead, storeBlocks_length (by rw [store32_length (by omega)]; omega),
    store32_length (by omega)]

end Fs

end Xv6Net
