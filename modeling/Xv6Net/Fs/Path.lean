import Mathlib.Data.List.TakeWhile
import Xv6Net.Fs.Content

/-!
# Path lookup: `skipelem`, `namex`, `namei` and `nameiparent` (`fs.c`)

What a lookup of a path means, and that `namex` does it.  A path is cut into its non-empty
`/`-separated elements (`segments`); `skipelem` copies each into a `DIRSIZ`-byte name buffer
(`nameOf`).  On the disk, `walk` follows the names from an inode, each looked up among the
entries of the directory reached so far (`lookupName`, by `namecmp` as `dirlookup` compares),
and `walkParent` stops one name short, at the directory that holds the last one.

* `skipelems_eq` : iterating `skipelem` gives the names of the path's elements, and
  `cname_nameOf` : each buffer holds its element cut to `DIRSIZ` bytes.
* `walk_eq_none_iff` : a walk fails exactly when, after some prefix of the names, it reaches an
  inode that is not a directory or has no entry of the next name.
* `dirlookup_spec` : `dirlookup` of a well-formed directory is `iget` of the first entry in use
  of that name.
* `namexLoop_spec`, `namex_spec` : in a well-formed file system (`FsOK`) with a coherent table
  and two unused entries (`Room`), `namex` returns what `resolve` says, holding one reference on
  the entry it returns and none elsewhere (`Done`), and writes nothing.  The loop carries
  `Held`: one reference more than at the start, on the entry it holds.
* `namei_resolves` : the two together, for `namei` and `nameiparent`.

A lookup that reaches a directory with a hole in its content, an entry naming a free inode, or
a full inode table panics or writes in the code; `FsOK` and `Room` rule these out, and nothing
here is said of those runs.
-/

namespace Xv6Net

namespace Fs

open Bytes

/-! ### Elements of a path -/

/-- The non-empty `/`-separated elements of a path. -/
def segments (path : List UInt8) : List (List UInt8) :=
  (path.splitOn '/'.toUInt8).filter (· ≠ [])

/-- The name buffer `skipelem` fills with element `e`: its first `DIRSIZ` bytes, `NUL`-terminated
when it is shorter. -/
def nameOf (e : List UInt8) : List UInt8 := if DIRSIZ ≤ e.length then e.take DIRSIZ else e ++ [0]

/-- A piece of a list split at `a` is made of the list's elements. -/
theorem subset_of_mem_splitOn {α : Type} [BEq α] {a : α} :
    ∀ {l e : List α}, e ∈ l.splitOn a → e ⊆ l
  | [], e, he => by
    rw [List.splitOn_nil, List.mem_singleton] at he
    subst he
    exact List.nil_subset _
  | b :: l, e, he => by
    rw [List.splitOn_cons_eq_if_modifyHead] at he
    obtain ⟨h, t, ht⟩ := List.exists_cons_of_ne_nil (List.splitOn_ne_nil a l)
    split_ifs at he
    · rcases List.mem_cons.1 he with rfl | he
      · exact List.nil_subset _
      · exact List.Subset.trans (subset_of_mem_splitOn he) (List.subset_cons_self _ _)
    · rw [ht, List.modifyHead_cons] at he
      rcases List.mem_cons.1 he with rfl | he
      · exact List.cons_subset_cons _ (subset_of_mem_splitOn (ht ▸ List.mem_cons_self ..))
      · exact List.Subset.trans (subset_of_mem_splitOn (ht ▸ List.mem_cons_of_mem _ he))
          (List.subset_cons_self _ _)

theorem subset_of_mem_segments {p e : List UInt8} (he : e ∈ segments p) : e ⊆ p :=
  subset_of_mem_splitOn (List.mem_filter.1 he).1

theorem segments_slash (p : List UInt8) : segments ('/'.toUInt8 :: p) = segments p := by
  simp [segments, List.splitOn_cons_eq_if_modifyHead]

theorem segments_dropWhile (p : List UInt8) :
    segments (p.dropWhile (· = '/'.toUInt8)) = segments p := by
  induction p with
  | nil => rfl
  | cons b p ih =>
    by_cases hb : b = '/'.toUInt8
    · subst hb; simp [ih, segments_slash]
    · simp [hb]

theorem segments_nil : segments [] = [] := by decide

/-- A path that starts with an element: the element, then the segments of what follows it. -/
theorem segments_of_head {p : List UInt8} (hne : p ≠ []) (hh : p.head? ≠ some '/'.toUInt8) :
    segments p = p.takeWhile (· ≠ '/'.toUInt8) :: segments (p.dropWhile (· ≠ '/'.toUInt8)) := by
  have ht : '/'.toUInt8 ∉ p.takeWhile (· ≠ '/'.toUInt8) := fun h => by
    simpa using List.mem_takeWhile_imp h
  have htne : p.takeWhile (· ≠ '/'.toUInt8) ≠ [] := by
    obtain ⟨b, q, rfl⟩ := List.exists_cons_of_ne_nil hne
    have hb : b ≠ '/'.toUInt8 := fun h => hh (by simp [h])
    rw [List.takeWhile_cons_of_pos (by simpa using hb)]
    exact List.cons_ne_nil _ _
  have hsplit := List.takeWhile_append_dropWhile (p := (· ≠ '/'.toUInt8)) (l := p)
  rcases hr : p.dropWhile (· ≠ '/'.toUInt8) with _ | ⟨c, r⟩
  · rw [hr, List.append_nil] at hsplit
    conv_lhs => rw [← hsplit]
    rw [segments, List.splitOn_eq_singleton ht, List.filter_cons_of_pos (by simpa using htne),
      List.filter_nil, segments_nil]
  · -- the element stops at a slash
    have hc : c = '/'.toUInt8 := by
      have := List.head?_dropWhile_not (· ≠ '/'.toUInt8) p
      rw [hr] at this
      simpa using this
    subst hc
    rw [hr] at hsplit
    conv_lhs => rw [← hsplit]
    rw [segments, List.splitOn_append_cons_self_of_not_mem ht,
      List.filter_cons_of_pos (by simpa using htne), ← segments, segments_slash]

/-- What is left after the leading slashes does not start with one. -/
theorem head?_dropWhile_slash (p : List UInt8) :
    (p.dropWhile (· = '/'.toUInt8)).head? ≠ some '/'.toUInt8 := by
  have := List.head?_dropWhile_not (· = '/'.toUInt8) p
  intro h
  rw [h] at this
  simp at this

theorem segments_eq_nil_iff {p : List UInt8} (hh : p.head? ≠ some '/'.toUInt8) :
    segments p = [] ↔ p = [] := by
  constructor
  · intro h
    by_contra hne
    rw [segments_of_head hne hh] at h
    exact List.cons_ne_nil _ _ h
  · rintro rfl
    exact segments_nil

theorem skipelem_eq_none_iff (p : List UInt8) : skipelem p = none ↔ segments p = [] := by
  rw [← segments_dropWhile, segments_eq_nil_iff (head?_dropWhile_slash p)]
  simp only [skipelem]
  split_ifs with h <;> simp [h]

theorem skipelem_eq_some {p n r : List UInt8} (h : skipelem p = some (n, r)) :
    ∃ e, segments p = e :: segments r ∧ n = nameOf e ∧ r.length < p.length ∧
      r.head? ≠ some '/'.toUInt8 := by
  simp only [skipelem] at h
  split at h
  · cases h
  rename_i hne
  obtain ⟨rfl, rfl⟩ := Prod.mk.inj (Option.some.inj h)
  set q := p.dropWhile (· = '/'.toUInt8)
  refine ⟨q.takeWhile (· ≠ '/'.toUInt8), ?_, rfl, ?_, head?_dropWhile_slash _⟩
  · rw [← segments_dropWhile, segments_of_head hne (head?_dropWhile_slash p), segments_dropWhile]
  · -- the element takes at least the first byte of `q`
    obtain ⟨b, q', hq⟩ := List.exists_cons_of_ne_nil hne
    have hb : b ≠ '/'.toUInt8 := by
      have h := head?_dropWhile_slash p
      change q.head? ≠ _ at h
      rw [hq] at h
      simpa using h
    have h1 := List.length_dropWhile_le (· = '/'.toUInt8) (q.dropWhile (· ≠ '/'.toUInt8))
    have h2 : (q.dropWhile (· ≠ '/'.toUInt8)).length ≤ q'.length := by
      rw [hq, List.dropWhile_cons_of_pos (by simpa using hb)]
      exact List.length_dropWhile_le _ _
    have h3 : q.length ≤ p.length := List.length_dropWhile_le _ _
    rw [hq, List.length_cons] at h3
    omega

/-- `namex`'s loop: `skipelem` applied until it finds no element, the names it copies out. -/
def skipelems (path : List UInt8) : List (List UInt8) :=
  match h : skipelem path with
  | none => []
  | some (name, rest) => name :: skipelems rest
termination_by path.length
decreasing_by exact (skipelem_eq_some h).choose_spec.2.2.1

/-- The C string in a name buffer: its bytes before the first `NUL`, at most `DIRSIZ`. -/
def cname (name : List UInt8) : List UInt8 := (name.take DIRSIZ).takeWhile (· ≠ 0)

/-- The names `skipelem` copies out of a path: each element in its name buffer. -/
def pathNames (path : List UInt8) : List (List UInt8) := (segments path).map nameOf

theorem skipelems_eq (path : List UInt8) : skipelems path = pathNames path := by
  induction path using skipelems.induct with
  | case1 p h =>
    rw [skipelems, pathNames, (skipelem_eq_none_iff p).1 h]
    split
    · rfl
    · simp_all
  | case2 p n r h ih =>
    obtain ⟨e, hs, rfl, -⟩ := skipelem_eq_some h
    rw [skipelems, pathNames, hs, List.map_cons, ← pathNames, ← ih]
    split
    · simp_all
    · rename_i heq
      rw [h] at heq
      obtain ⟨rfl, rfl⟩ := Prod.mk.inj (Option.some.inj heq)
      rfl

theorem cname_nameOf {e : List UInt8} (he : 0 ∉ e) : cname (nameOf e) = e.take DIRSIZ := by
  have hne : ∀ x ∈ e, decide (x ≠ 0) = true := fun x hx => by
    simpa using fun h : x = 0 => he (h ▸ hx)
  unfold cname nameOf
  split_ifs with h
  · rw [List.take_take, min_self, List.takeWhile_eq_self_iff]
    exact fun x hx => hne x (List.mem_of_mem_take hx)
  · rw [List.take_of_length_le (by simp; omega), List.takeWhile_append_of_pos hne,
      List.take_of_length_le (by omega)]
    simp

/-! ### The file system a path is looked up in -/

/-- On-disk inode `d` as an entry of the table that has read it: what `content` and `Mapped`
read of it are its size and its addresses. -/
def DInode.asInode (d : DInode) : Inode := ⟨0, 0, true, d.type, d.major, d.minor, d.nlink, d.size, d.addrs⟩

/-- The entries of a directory whose content is `c`, one per 16 bytes, as `dirlookup` reads them. -/
def dirents (c : List UInt8) : List Dirent :=
  (List.range (c.length / 16)).map fun k => parseDirent ((c.drop (16 * k)).take 16)

/-- `dirlookup`'s test of an entry: in use, and named `name`. -/
def Dirent.Names (name : List UInt8) (de : Dirent) : Bool := de.inum ≠ 0 ∧ namecmp name de.name = 0

section Walk

variable (sb : Superblock)

/-- The inode the first entry named `name` of directory `d` points to. -/
def lookupName (disk : Disk) (d : DInode) (name : List UInt8) : Option UInt32 :=
  ((dirents (content disk d.asInode)).find? (Dirent.Names name)).map fun de => de.inum.toUInt32

/-- The inode reached from inode `inum` by looking up each name in turn, each in the directory
reached so far; `none` when one of them is not a directory or has no entry of that name. -/
def walk (disk : Disk) : UInt32 → List (List UInt8) → Option UInt32
  | inum, [] => some inum
  | inum, name :: names =>
    if (dinodeAt disk sb inum).type = T_DIR then
      (lookupName disk (dinodeAt disk sb inum) name).bind fun next => walk disk next names
    else none

/-- The directory that holds the last name: reached by all the names but the last, and a
directory; `none` when there is no name. -/
def walkParent (disk : Disk) (inum : UInt32) (names : List (List UInt8)) : Option UInt32 :=
  if names = [] then none
  else (walk sb disk inum names.dropLast).filter fun d => (dinodeAt disk sb d).type = T_DIR

/-- One step of a walk that fails: the inode reached is not a directory, or has no entry of the
next name. -/
def Stuck (disk : Disk) (x : UInt32) (name : List UInt8) : Prop :=
  (dinodeAt disk sb x).type ≠ T_DIR ∨ lookupName disk (dinodeAt disk sb x) name = none

/-- What `namex` resolves a path's names to: the inode they lead to, or, for `nameiparent`, the
directory that holds the last one. -/
def resolve (disk : Disk) (parent : Bool) (inum : UInt32) (names : List (List UInt8)) :
    Option UInt32 :=
  if parent then walkParent sb disk inum names else walk sb disk inum names

variable {sb}

theorem walk_cons_eq_none_iff {disk : Disk} {inum : UInt32} {name : List UInt8}
    {names : List (List UInt8)} :
    walk sb disk inum (name :: names) = none ↔
      Stuck sb disk inum name ∨ ∃ next, lookupName disk (dinodeAt disk sb inum) name = some next ∧
        (dinodeAt disk sb inum).type = T_DIR ∧ walk sb disk next names = none := by
  unfold Stuck
  rw [walk]
  split_ifs with hd
  · cases h : lookupName disk (dinodeAt disk sb inum) name <;> simp [hd]
  · simp [hd]

/-- **When a walk fails.**  A walk gives no inode exactly when, after some prefix of the names, it
reaches an inode that is not a directory or has no entry of the next name. -/
theorem walk_eq_none_iff {disk : Disk} {inum : UInt32} {names : List (List UInt8)} :
    walk sb disk inum names = none ↔
      ∃ k, ∃ hk : k < names.length, ∃ x, walk sb disk inum (names.take k) = some x ∧
        Stuck sb disk x names[k] := by
  induction names generalizing inum with
  | nil => simp [walk]
  | cons name names ih =>
    rw [walk_cons_eq_none_iff]
    constructor
    · rintro (h | ⟨next, hl, hd, hw⟩)
      · exact ⟨0, by simp, inum, rfl, h⟩
      · obtain ⟨k, hk, x, hx, hs⟩ := ih.1 hw
        refine ⟨k + 1, by simpa using hk, x, ?_, by simpa using hs⟩
        simp [walk, hd, hl, hx]
    · rintro ⟨k, hk, x, hx, hs⟩
      cases k with
      | zero =>
        left
        simp only [List.take_zero, walk, Option.some.injEq] at hx
        subst hx
        simpa using hs
      | succ k =>
        right
        simp only [List.take_succ_cons, walk] at hx
        split_ifs at hx with hd
        obtain ⟨next, hl, hw⟩ := Option.bind_eq_some_iff.1 hx
        exact ⟨next, hl, hd, ih.2 ⟨k, by simpa using hk, x, hw, by simpa using hs⟩⟩

@[simp] theorem walkParent_nil (disk : Disk) (inum : UInt32) : walkParent sb disk inum [] = none := by
  simp [walkParent]

theorem walkParent_singleton (disk : Disk) (inum : UInt32) (name : List UInt8) :
    walkParent sb disk inum [name] =
      if (dinodeAt disk sb inum).type = T_DIR then some inum else none := by
  simp [walkParent, walk, Option.filter]

theorem walkParent_cons {names : List (List UInt8)} (hne : names ≠ []) (disk : Disk) (inum : UInt32)
    (name : List UInt8) :
    walkParent sb disk inum (name :: names) =
      if (dinodeAt disk sb inum).type = T_DIR then
        (lookupName disk (dinodeAt disk sb inum) name).bind fun next => walkParent sb disk next names
      else none := by
  simp only [walkParent, List.cons_ne_nil, if_false, hne, List.dropLast_cons_of_ne_nil hne, walk]
  split_ifs
  · cases lookupName disk (dinodeAt disk sb inum) name <;> rfl
  · rfl

theorem resolve_nil (disk : Disk) (parent : Bool) (inum : UInt32) :
    resolve sb disk parent inum [] = if parent then none else some inum := by
  cases parent <;> simp [resolve, walk]

/-- One name of `resolve`, in the order `namex` makes its tests. -/
theorem resolve_cons (disk : Disk) (parent : Bool) (inum : UInt32) (name : List UInt8)
    (names : List (List UInt8)) :
    resolve sb disk parent inum (name :: names) =
      if (dinodeAt disk sb inum).type ≠ T_DIR then none
      else if parent ∧ names = [] then some inum
      else (lookupName disk (dinodeAt disk sb inum) name).bind
        fun next => resolve sb disk parent next names := by
  by_cases hd : (dinodeAt disk sb inum).type = T_DIR
  · cases parent
    · simp [resolve, walk, hd]
    · by_cases hn : names = []
      · subst hn
        simp [resolve, walkParent_singleton, hd]
      · simp [resolve, walkParent_cons hn, hd, hn]
  · cases parent
    · simp [resolve, walk, hd]
    · by_cases hn : names = []
      · subst hn
        simp [resolve, walkParent_singleton, hd]
      · simp [resolve, walkParent_cons hn, hd]

end Walk

/-! ### The inode table -/

section Table

variable (sb : Superblock)

/-- An inode an entry may name: in use, and with links. -/
structure Linked (d : DInode) : Prop where
  used : d.type ≠ 0
  linked : d.nlink ≠ 0

/-- A directory as `dirlookup` reads it: whole entries, every byte in a block on the disk, and
every entry in use naming a linked inode. -/
structure DirOK (disk : Disk) (d : DInode) : Prop where
  whole : d.size.toNat % 16 = 0
  mapped : Mapped disk d.asInode 0 d.size.toNat
  linked : ∀ de ∈ dirents (content disk d.asInode), de.inum ≠ 0 →
    Linked (dinodeAt disk sb de.inum.toUInt32)

/-- Every directory of the disk is well formed. -/
def FsOK (disk : Disk) : Prop :=
  ∀ inum, (dinodeAt disk sb inum).type = T_DIR → DirOK sb disk (dinodeAt disk sb inum)

/-- Every entry of the table that is referenced and has been read holds its on-disk inode. -/
def Coherent (s : FsSt) : Prop :=
  ∀ j, 0 < (s.itable j).ref → (s.itable j).valid →
    (s.itable j).dinode = dinodeAt s.disk sb (s.itable j).inum

/-- The state with entry `j` of the table replaced by `i`, as `iwrite` leaves it. -/
def FsSt.put (s : FsSt) (j : Fin NINODE) (i : Inode) : FsSt :=
  { s with itable := Function.update s.itable j i }

variable {sb} {s : FsSt}

@[simp] theorem FsSt.put_disk (j : Fin NINODE) (i : Inode) : (s.put j i).disk = s.disk := rfl

@[simp] theorem FsSt.put_writes (j : Fin NINODE) (i : Inode) : (s.put j i).writes = s.writes := rfl

@[simp] theorem FsSt.put_itable (j : Fin NINODE) (i : Inode) :
    (s.put j i).itable = Function.update s.itable j i := rfl

/-- A coherent table stays coherent when an entry is replaced by one that holds its on-disk inode
whenever it is referenced and read. -/
theorem Coherent.put (hc : Coherent sb s) {j : Fin NINODE} {i : Inode}
    (hi : 0 < i.ref → i.valid → i.dinode = dinodeAt s.disk sb i.inum) : Coherent sb (s.put j i) := by
  intro k
  by_cases hk : k = j
  · subst hk
    simpa using hi
  · simpa [hk] using hc k

theorem iwrite_run (j : Fin NINODE) (i : Inode) : iwrite j i s = .ok ((), s.put j i) := rfl

/-- Entry `i` once `ilock` has read on-disk inode `d` into it. -/
def Inode.load (i : Inode) (d : DInode) : Inode :=
  { i with type := d.type, major := d.major, minor := d.minor, nlink := d.nlink, size := d.size,
           addrs := d.addrs, valid := true }

@[simp] theorem Inode.load_dinode (i : Inode) (d : DInode) : (i.load d).dinode = d := rfl

/-- **`iget`.**  With an unused entry in the table, `iget` returns an entry `j` now holding `inum`
with one more reference; only that entry changes, and it holds a read inode only if it held one
already, for `inum`. -/
theorem iget_spec (hfree : ∃ k, (s.itable k).ref = 0) (inum : UInt32) :
    ∃ j i, iget inum s = .ok (j, s.put j i) ∧
      i.inum = inum ∧ i.ref = (s.itable j).ref + 1 ∧
      (i.valid → (s.itable j).valid ∧ 0 < (s.itable j).ref ∧ i.dinode = (s.itable j).dinode ∧
        (s.itable j).inum = inum) := by
  rcases h1 : (List.finRange NINODE).find?
      (fun j => decide (0 < (s.itable j).ref ∧ (s.itable j).inum = inum)) with _ | j
  · -- not cached: the first unused entry
    rcases h2 : (List.finRange NINODE).find? (fun j => decide ((s.itable j).ref = 0)) with _ | j
    · obtain ⟨k, hk⟩ := hfree
      have := List.find?_eq_none.1 h2 k (List.mem_finRange k)
      simp [hk] at this
    · have hj := List.find?_some h2
      simp only [decide_eq_true_eq] at hj
      refine ⟨j, { s.itable j with inum := inum, ref := 1, valid := false }, ?_, rfl, ?_, ?_⟩
      · simp only [iget, bind, StateT.bind, get, getThe, MonadStateOf.get, StateT.get, pure,
          Except.pure, Except.bind, h1, h2]
        rfl
      · simp [hj]
      · simp
  · -- cached: one more reference
    have hj := List.find?_some h1
    simp only [decide_eq_true_eq] at hj
    refine ⟨j, { s.itable j with ref := (s.itable j).ref + 1 }, ?_, hj.2, rfl,
      fun hv => ⟨hv, hj.1, rfl, hj.2⟩⟩
    simp only [iget, bind, StateT.bind, get, getThe, MonadStateOf.get, StateT.get, pure,
      Except.pure, Except.bind, h1]
    rfl

/-- The entry `iget` returns keeps a coherent table coherent. -/
theorem Coherent.iget (hc : Coherent sb s) {j : Fin NINODE} {i : Inode} {inum : UInt32}
    (hinum : i.inum = inum)
    (hvalid : i.valid → (s.itable j).valid ∧ 0 < (s.itable j).ref ∧ i.dinode = (s.itable j).dinode ∧
      (s.itable j).inum = inum) : Coherent sb (s.put j i) :=
  hc.put fun _ hv => by
    obtain ⟨hv', hpos, hd, hinum'⟩ := hvalid hv
    rw [hd, hc j hpos hv', hinum', hinum]

theorem idup_run (ip : Fin NINODE) :
    idup ip s = .ok (ip, s.put ip { s.itable ip with ref := (s.itable ip).ref + 1 }) := rfl

/-- **`ilock`.**  On a referenced entry whose on-disk inode is in use, `ilock` leaves the entry
read, holding its on-disk inode, with its number and count as they were. -/
theorem ilock_spec (hcoh : Coherent sb s) {ip : Fin NINODE} (href : 0 < (s.itable ip).ref)
    (hused : (dinodeAt s.disk sb (s.itable ip).inum).type ≠ 0) :
    ∃ i, ilock sb ip s = .ok ((), s.put ip i) ∧
      i.inum = (s.itable ip).inum ∧ i.ref = (s.itable ip).ref ∧ i.valid ∧
      i.dinode = dinodeAt s.disk sb (s.itable ip).inum := by
  have hlt : ¬ (s.itable ip).ref < 1 := by omega
  by_cases hv : (s.itable ip).valid
  · -- already read: nothing changes
    refine ⟨s.itable ip, ?_, rfl, rfl, hv, hcoh ip href hv⟩
    simp only [FsSt.put, Function.update_eq_self]
    simp [ilock, hlt, hv]
  · -- read from the inode block
    refine ⟨(s.itable ip).load (dinodeAt s.disk sb (s.itable ip).inum), ?_, rfl, rfl, rfl, rfl⟩
    simp only [ilock, bind_iread_run, hlt, if_false, hv, Bool.false_eq_true, bind_bread_run]
    rw [bind_run (iwrite_run _ _)]
    rw [dinodeAt] at hused
    rw [if_neg hused]
    rfl

theorem iunlock_run {ip : Fin NINODE} (href : 0 < (s.itable ip).ref) :
    iunlock ip s = .ok ((), s) := by
  simp [iunlock, show ¬ (s.itable ip).ref < 1 by omega]

/-- **`iput` without freeing.**  When the entry keeps a reference or its inode keeps a link,
`iput` only takes one reference away. -/
theorem iput_run {ip : Fin NINODE} (hcoh : Coherent sb s) (href : 0 < (s.itable ip).ref)
    (hkeep : 1 < (s.itable ip).ref ∨ (dinodeAt s.disk sb (s.itable ip).inum).nlink ≠ 0) :
    iput sb ip s = .ok ((), s.put ip { s.itable ip with ref := (s.itable ip).ref - 1 }) := by
  -- the test that frees the inode fails
  have hno : ¬ ((s.itable ip).ref = 1 ∧ (s.itable ip).valid ∧ (s.itable ip).nlink = 0) := by
    rintro ⟨h1, hv, hn⟩
    rcases hkeep with hk | hk
    · omega
    · have := congrArg DInode.nlink (hcoh ip href hv)
      exact hk (this ▸ hn)
  simp only [iput, bind_iread_run, hno, if_false]
  rfl

theorem iunlockput_run {ip : Fin NINODE} (hcoh : Coherent sb s) (href : 0 < (s.itable ip).ref)
    (hkeep : 1 < (s.itable ip).ref ∨ (dinodeAt s.disk sb (s.itable ip).inum).nlink ≠ 0) :
    iunlockput sb ip s = .ok ((), s.put ip { s.itable ip with ref := (s.itable ip).ref - 1 }) := by
  rw [iunlockput, bind_run (iunlock_run href), iput_run hcoh href hkeep]

end Table

/-! ### `dirlookup` -/

section Lookup

variable {sb : Superblock} {s : FsSt}

/-- A read entry holds its on-disk inode's content. -/
theorem content_of_dinode {disk : Disk} {i : Inode} {d : DInode} (h : i.dinode = d) :
    content disk i = content disk d.asInode := by
  subst h
  rfl

theorem mapped_of_dinode {disk : Disk} {i : Inode} {d : DInode} (h : i.dinode = d) {o len : ℕ} :
    Mapped disk i o len ↔ Mapped disk d.asInode o len := by
  subst h
  rfl

theorem dirents_length (c : List UInt8) : (dirents c).length = c.length / 16 := by
  simp [dirents]

theorem dirents_getElem (c : List UInt8) {k : ℕ} (hk : k < (dirents c).length) :
    (dirents c)[k] = parseDirent ((c.drop (16 * k)).take 16) := by
  simp [dirents]

/-- What `dirlookup` does with the entry it found: a reference to its inode, and the entry's
offset. -/
def lookupRun (off : UInt32) : Option Dirent → FsM (Option (Fin NINODE × UInt32))
  | none => pure none
  | some de => do
    let ip ← iget de.inum.toUInt32
    pure (some (ip, off))

/-- **The loop of `dirlookup`.**  From the entry `k` of a well-formed directory on, the loop does
what the first entry in use named `name` says: nothing if there is none, else `iget` of its inode. -/
theorem dirlookupLoop_spec {dp : Fin NINODE} (name : List UInt8) {d : DInode}
    (hd : (s.itable dp).dinode = d) (hok : DirOK sb s.disk d) :
    ∀ fuel k (off : UInt32), off.toNat = 16 * k → k ≤ d.size.toNat / 16 →
      d.size.toNat / 16 - k < fuel →
      ∃ off', dirlookupLoop sb dp name fuel off s =
        lookupRun off' (((dirents (content s.disk d.asInode)).drop k).find? (Dirent.Names name)) s := by
  set c := content s.disk d.asInode with hc
  have hlen : c.length = d.size.toNat := by rw [hc, content, seg_length]; rfl
  have hsz : (s.itable dp).size = d.size := congrArg DInode.size hd
  have hn := dirents_length c
  have hwhole := hok.whole
  have hbound := d.size.toNat_lt
  intro fuel
  induction fuel with
  | zero => intro _ _ _ _ h; omega
  | succ fuel ih =>
    intro k off hoff hk hf
    by_cases hlt : k < d.size.toNat / 16
    · have hin : off < (s.itable dp).size := by rw [hsz, UInt32.lt_iff_toNat_lt]; omega
      -- the entry is read whole
      have hmap : Mapped s.disk (s.itable dp) 0 (s.itable dp).size.toNat := by
        rw [hsz, mapped_of_dinode hd]
        exact hok.mapped
      have hread : readi sb dp off 16 s = .ok ((16, (c.drop (16 * k)).take 16), s) := by
        have hl : (List.take 16 (List.drop (16 * k) c)).length = 16 := by
          rw [List.length_take, List.length_drop, hlen]
          omega
        rw [readi_content sb off 16 hmap, if_neg (by rw [hsz]; simp; omega),
          content_of_dinode hd, hoff]
        simp only [← hc, show UInt32.toNat 16 = 16 from rfl, hl]
        rfl
      -- entry `k`, then the entries after it
      have hkd : k < (dirents c).length := by rw [hn, hlen]; exact hlt
      have hde : parseDirent ((c.drop (16 * k)).take 16) = (dirents c)[k] :=
        (dirents_getElem c hkd).symm
      have hnext : (off + 16).toNat = 16 * (k + 1) := by
        rw [UInt32.toNat_add, hoff, Nat.mod_eq_of_lt (by simp; omega)]
        simp only [UInt32.reduceToNat]
        omega
      rw [dirlookupLoop, bind_iread_run, if_pos hin, bind_run hread, List.drop_eq_getElem_cons hkd]
      simp only [ne_eq, not_true_eq_false, if_false, hde]
      by_cases h0 : (dirents c)[k].inum = 0
      · -- a free entry is skipped
        rw [if_pos h0, List.find?_cons_of_neg (by simp [Dirent.Names, h0])]
        exact ih (k + 1) (off + 16) hnext (by omega) (by omega)
      · rw [if_neg h0]
        by_cases hname : namecmp name (dirents c)[k].name = 0
        · -- the entry of that name
          rw [if_pos hname, List.find?_cons_of_pos (by simp [Dirent.Names, h0, hname])]
          exact ⟨off, rfl⟩
        · rw [if_neg hname, List.find?_cons_of_neg (by simp [Dirent.Names, hname])]
          exact ih (k + 1) (off + 16) hnext (by omega) (by omega)
    · -- past the last entry
      have hk' : k = d.size.toNat / 16 := by omega
      have hge : ¬ off < (s.itable dp).size := by
        rw [hsz, UInt32.lt_iff_toNat_lt]; omega
      refine ⟨off, ?_⟩
      rw [List.drop_eq_nil_of_le (by omega)]
      simp [dirlookupLoop, hge, lookupRun]

/-- **`dirlookup`** of a well-formed directory: `iget` of the inode of the first entry in use
named `name`, or nothing. -/
theorem dirlookup_spec {dp : Fin NINODE} (name : List UInt8) {d : DInode}
    (hd : (s.itable dp).dinode = d) (hdir : d.type = T_DIR) (hok : DirOK sb s.disk d) :
    ∃ off, dirlookup sb dp name s =
      lookupRun off ((dirents (content s.disk d.asInode)).find? (Dirent.Names name)) s := by
  have htype : (s.itable dp).type = T_DIR := (congrArg DInode.type hd).trans hdir
  have hsz : (s.itable dp).size = d.size := congrArg DInode.size hd
  obtain ⟨off, h⟩ := dirlookupLoop_spec name hd hok (d.size.toNat / 16 + 1) 0 0 rfl
    (Nat.zero_le _) (by omega)
  refine ⟨off, ?_⟩
  simp only [dirlookup, bind_iread_run, htype, ne_eq, not_true_eq_false, if_false, hsz]
  rw [h, List.drop_zero]

end Lookup

/-! ### `namex` -/

section Namex

variable (sb : Superblock)

/-- The inode a lookup of `path` starts from: the root for a path that starts with `/`, else
the current directory `cwd`. -/
def startOf (s : FsSt) (cwd : Fin NINODE) (path : List UInt8) : UInt32 :=
  if path.head? = some '/'.toUInt8 then ROOTINO else (s.itable cwd).inum

/-- Room for `namex` in the table when it starts: no negative count, and two unused entries, one
for the inode it holds and one for the next. -/
structure Room (s : FsSt) : Prop where
  nonneg : ∀ j, 0 ≤ (s.itable j).ref
  free : ∃ j₁ j₂, j₁ ≠ j₂ ∧ (s.itable j₁).ref = 0 ∧ (s.itable j₂).ref = 0

/-- What `namex` keeps while it holds entry `ip`, against the table `s₀` it started from: the disk
as it was, a coherent table, one more reference on `ip` and none elsewhere, and `ip`'s inode in
use and either referenced before the call or linked. -/
structure Held (s₀ s : FsSt) (ip : Fin NINODE) : Prop where
  disk : s.disk = s₀.disk
  writes : s.writes = s₀.writes
  coherent : Coherent sb s
  refs : ∀ j, (s.itable j).ref = (s₀.itable j).ref + if j = ip then 1 else 0
  used : (dinodeAt s₀.disk sb (s.itable ip).inum).type ≠ 0
  keep : 0 < (s₀.itable ip).ref ∨ (dinodeAt s₀.disk sb (s.itable ip).inum).nlink ≠ 0

/-- What `namex` leaves: the disk as it was, a coherent table, and one more reference than at the
start on the entry it returns and none elsewhere. -/
structure Done (s₀ s : FsSt) (r : Option (Fin NINODE)) : Prop where
  disk : s.disk = s₀.disk
  writes : s.writes = s₀.writes
  coherent : Coherent sb s
  refs : ∀ j, (s.itable j).ref = (s₀.itable j).ref + if r = some j then 1 else 0

variable {sb} {s₀ s : FsSt} {ip : Fin NINODE}

theorem Held.ref_pos (hroom : Room s₀) (h : Held sb s₀ s ip) : 0 < (s.itable ip).ref := by
  have := h.refs ip
  have := hroom.nonneg ip
  simp only [if_true] at *
  omega

/-- Holding `ip` is what `namex` returns with. -/
theorem Held.done (h : Held sb s₀ s ip) : Done sb s₀ s (some ip) :=
  ⟨h.disk, h.writes, h.coherent, fun j => by rw [h.refs]; simp [eq_comm]⟩

/-- An unused entry other than `ip`: the table had two. -/
theorem Held.free (hroom : Room s₀) (h : Held sb s₀ s ip) : ∃ k, (s.itable k).ref = 0 := by
  obtain ⟨j₁, j₂, hne, h1, h2⟩ := hroom.free
  by_cases hj : j₁ = ip
  · refine ⟨j₂, ?_⟩
    rw [h.refs, h2, if_neg (fun e => hne (hj.trans e.symm))]
    rfl
  · exact ⟨j₁, by rw [h.refs, h1, if_neg hj]; rfl⟩

/-- The reference on `ip` is not the last one of a file with no links. -/
theorem Held.keeps (h : Held sb s₀ s ip) :
    1 < (s.itable ip).ref ∨ (dinodeAt s.disk sb (s.itable ip).inum).nlink ≠ 0 := by
  rw [h.disk, h.refs, if_pos rfl]
  rcases h.keep with hk | hk
  · left; omega
  · exact .inr hk

/-- **Letting go.**  `iput` of the entry `namex` holds takes its reference back and frees
nothing. -/
theorem Held.put (hroom : Room s₀) (h : Held sb s₀ s ip) :
    ∃ s', iput sb ip s = .ok ((), s') ∧ Done sb s₀ s' none := by
  refine ⟨_, iput_run h.coherent (h.ref_pos hroom) h.keeps, h.disk, h.writes,
    h.coherent.put fun hr hv => h.coherent ip (h.ref_pos hroom) hv, fun j => ?_⟩
  by_cases hj : j = ip
  · subst hj
    simp [h.refs]
  · simp [hj, h.refs]

theorem Held.unlockput (hroom : Room s₀) (h : Held sb s₀ s ip) :
    ∃ s', iunlockput sb ip s = .ok ((), s') ∧ Done sb s₀ s' none := by
  obtain ⟨s', hput, hs'⟩ := h.put hroom
  exact ⟨s', by rw [iunlockput, bind_run (iunlock_run (h.ref_pos hroom)), hput], hs'⟩

/-- **`ilock` of the entry `namex` holds** reads its on-disk inode into it, and `namex` still
holds it. -/
theorem Held.lock (hroom : Room s₀) (h : Held sb s₀ s ip) :
    ∃ i, ilock sb ip s = .ok ((), s.put ip i) ∧ Held sb s₀ (s.put ip i) ip ∧
      i.inum = (s.itable ip).inum ∧ i.dinode = dinodeAt s₀.disk sb (s.itable ip).inum := by
  obtain ⟨i, hrun, hinum, href, hv, hd⟩ :=
    ilock_spec h.coherent (h.ref_pos hroom) (by rw [h.disk]; exact h.used)
  rw [h.disk] at hd
  refine ⟨i, hrun, ⟨h.disk, h.writes, h.coherent.put fun _ _ => ?_, fun j => ?_, ?_, ?_⟩,
    hinum, hd⟩
  · rw [hd, hinum, h.disk]
  · by_cases hj : j = ip
    · subst hj
      simp [href, h.refs]
    · simp [hj, h.refs]
  · simpa [hinum] using h.used
  · simpa [hinum] using h.keep

/-- **One step down.**  `iget` of a linked inode, then `iunlockput` of the entry `namex` held:
`namex` now holds the new entry, which holds that inode. -/
theorem Held.step (hroom : Room s₀) (h : Held sb s₀ s ip) {inum : UInt32}
    (hl : Linked (dinodeAt s₀.disk sb inum)) :
    ∃ j s₂ s₃, iget inum s = .ok (j, s₂) ∧ iunlockput sb ip s₂ = .ok ((), s₃) ∧
      Held sb s₀ s₃ j ∧ (s₃.itable j).inum = inum := by
  obtain ⟨j, i, hget, hinum, href, hvalid⟩ := iget_spec (h.free hroom) inum
  -- after `iget` the table is still coherent, and `ip` still has its reference
  have hcoh₂ : Coherent sb (s.put j i) := h.coherent.iget hinum hvalid
  have hpos : 0 < ((s.put j i).itable ip).ref := by
    have := h.ref_pos hroom
    by_cases hj : ip = j
    · subst hj; simp [href]; omega
    · simpa [hj] using this
  have hkeep : 1 < ((s.put j i).itable ip).ref ∨
      (dinodeAt (s.put j i).disk sb ((s.put j i).itable ip).inum).nlink ≠ 0 := by
    by_cases hj : ip = j
    · subst hj
      left
      have := h.ref_pos hroom
      simp [href]
      omega
    · simpa [hj] using h.keeps
  set s₂ := s.put j i
  set s₃ := s₂.put ip { s₂.itable ip with ref := (s₂.itable ip).ref - 1 }
  have hj : (s₃.itable j).inum = inum := by
    by_cases hj : j = ip
    · subst hj
      simp [s₃, s₂, hinum]
    · simp [s₃, s₂, hj, hinum]
  refine ⟨j, s₂, s₃, hget, iunlockput_run hcoh₂ hpos hkeep,
    ⟨?_, ?_, ?_, fun k => ?_, ?_, ?_⟩, hj⟩
  · simp [s₃, s₂, h.disk]
  · simp [s₃, s₂, h.writes]
  · exact hcoh₂.put fun _ hv => hcoh₂ ip hpos hv
  · -- `k` is `ip`, `j`, both or neither
    have := h.refs k
    by_cases hk : k = ip
    · subst hk
      by_cases hj : k = j
      · subst hj; simp [s₃, s₂, href, h.refs]
      · simp [s₃, s₂, hj, h.refs]
    · by_cases hj : k = j
      · subst hj; simp [s₃, s₂, hk, href, h.refs]
      · simp [s₃, s₂, hk, hj, h.refs]
  · rw [hj]; exact hl.used
  · rw [hj]; exact .inr hl.linked

/-- **The loop of `namex`.**  Holding `ip`, the loop resolves the names of what is left of the
path from `ip`'s inode as `resolve` does, returns holding only the entry it returns, and with
`nameiparent` returns the last name with the directory. -/
theorem namexLoop_spec (hroom : Room s₀) (hfs : FsOK sb s₀.disk) (parent : Bool) :
    ∀ fuel path ip name s, Held sb s₀ s ip → path.length < fuel →
      ∃ r name' s', namexLoop sb parent fuel ip path name s = .ok ((r, name'), s') ∧
        Done sb s₀ s' r ∧
        r.map (fun j => (s'.itable j).inum) =
          resolve sb s₀.disk parent (s.itable ip).inum (pathNames path) ∧
        (parent = true → r.isSome → (pathNames path).getLast? = some name') := by
  intro fuel
  induction fuel with
  | zero => intro _ _ _ _ _ h; omega
  | succ fuel ih =>
    intro path ip name s h hlen
    rcases hs : skipelem path with _ | ⟨n, rest⟩
    · -- no element left
      rw [pathNames, (skipelem_eq_none_iff path).1 hs, List.map_nil, resolve_nil]
      cases parent
      · exact ⟨some ip, name, s, by simp [namexLoop, hs], h.done, rfl, by simp⟩
      · obtain ⟨s', hput, hdone⟩ := h.put hroom
        refine ⟨none, name, s', ?_, hdone, rfl, by simp⟩
        simp only [namexLoop, hs, if_true]
        rw [bind_run hput]
        rfl
    · obtain ⟨e, hseg, rfl, hlt, hhead⟩ := skipelem_eq_some hs
      obtain ⟨i, hlock, h₁, hinum, hd⟩ := h.lock hroom
      have hi : (s.put ip i).itable ip = i := by simp
      have hnil : rest = [] ↔ (segments rest).map nameOf = [] := by
        rw [List.map_eq_nil_iff, segments_eq_nil_iff hhead]
      rw [pathNames, hseg, List.map_cons, resolve_cons]
      set d := dinodeAt s₀.disk sb (s.itable ip).inum
      have htype : i.type = d.type := congrArg DInode.type hd
      simp only [namexLoop, hs, bind_run hlock, bind_iread_run, hi, htype]
      by_cases hdir : d.type = T_DIR
      swap
      · -- not a directory
        obtain ⟨s', hput, hdone⟩ := h₁.unlockput hroom
        refine ⟨none, nameOf e, s', ?_, hdone, ?_, by simp⟩
        · rw [if_pos hdir, bind_run hput]
          rfl
        · rw [if_pos hdir]
          rfl
      by_cases hp : parent = true ∧ rest = []
      · -- `nameiparent` stops one level early
        refine ⟨some ip, nameOf e, s.put ip i, ?_, h₁.done, ?_, ?_⟩
        · rw [if_neg (not_not.2 hdir), if_pos hp, bind_run (iunlock_run (h₁.ref_pos hroom))]
          rfl
        · rw [if_neg (not_not.2 hdir), if_pos ⟨hp.1, hnil.1 hp.2⟩]
          simp [hinum]
        · intro _ _
          rw [(hnil.1 hp.2)]
          rfl
      · -- the element is looked up
        have hok : DirOK sb (s.put ip i).disk d := by
          rw [FsSt.put_disk, h.disk]
          exact hfs _ hdir
        obtain ⟨off, hdl⟩ := dirlookup_spec (nameOf e) (by rw [hi]; exact hd) hdir hok
        rw [FsSt.put_disk, h.disk] at hdl
        have hp' : ¬(parent = true ∧ (segments rest).map nameOf = []) := by rwa [← hnil]
        rw [if_neg (not_not.2 hdir), if_neg hp, if_neg hp']
        rcases hf : (dirents (content s₀.disk d.asInode)).find? (Dirent.Names (nameOf e))
          with _ | de
        · -- no entry of that name
          have hdl' : dirlookup sb ip (nameOf e) (s.put ip i) = .ok (none, s.put ip i) := by
            rw [hdl, hf]
            rfl
          obtain ⟨s', hput, hdone⟩ := h₁.unlockput hroom
          refine ⟨none, nameOf e, s', ?_, hdone, ?_, by simp⟩
          · rw [bind_run hdl']
            simp only
            rw [bind_run hput]
            rfl
          · simp [lookupName, hf]
        · -- down to the entry's inode
          have hde := List.find?_some hf
          simp only [Dirent.Names, decide_eq_true_eq] at hde
          have hl : Linked (dinodeAt s₀.disk sb de.inum.toUInt32) :=
            (hfs _ hdir).linked de (List.mem_of_find?_eq_some hf) hde.1
          obtain ⟨j, s₂, s₃, hget, hput, h₃, hj⟩ := h₁.step hroom hl
          have hdl' : dirlookup sb ip (nameOf e) (s.put ip i) = .ok (some (j, off), s₂) := by
            rw [hdl, hf, lookupRun, bind_run hget]
            rfl
          obtain ⟨r, name', s', hrun, hdone, hmap, hlast⟩ :=
            ih rest j (nameOf e) s₃ h₃ (by omega)
          rw [pathNames] at hmap hlast
          refine ⟨r, name', s', ?_, hdone, ?_, ?_⟩
          · rw [bind_run hdl']
            simp only
            rw [bind_run hput, hrun]
          · rw [hmap, hj]
            simp [lookupName, hf, hdir]
          · intro hpar hr
            have hne : (segments rest).map nameOf ≠ [] := fun h0 => hp ⟨hpar, hnil.2 h0⟩
            rw [List.getLast?_cons, hlast hpar hr]
            rfl

/-- **`namex`.**  From the root for a path that starts with `/`, else from the current directory,
`namex` resolves the path's elements as `resolve` does, returns holding one reference on the
entry it returns and none elsewhere, leaves the disk as it was, and with `nameiparent` returns
the last element with the directory. -/
theorem namex_spec (hroom : Room s) (hcoh : Coherent sb s) (hfs : FsOK sb s.disk)
    {cwd : Fin NINODE} {path : List UInt8}
    (hroot : path.head? = some '/'.toUInt8 → Linked (dinodeAt s.disk sb ROOTINO))
    (hcwd : path.head? ≠ some '/'.toUInt8 →
      0 < (s.itable cwd).ref ∧ (dinodeAt s.disk sb (s.itable cwd).inum).type ≠ 0)
    (parent : Bool) :
    ∃ r name s', namex sb cwd path parent s = .ok ((r, name), s') ∧ Done sb s s' r ∧
      r.map (fun j => (s'.itable j).inum) =
        resolve sb s.disk parent (startOf s cwd path) (pathNames path) ∧
      (parent = true → r.isSome → (pathNames path).getLast? = some name) := by
  -- the first reference: `iget` of the root, or `idup` of the current directory
  have hstart : ∃ ip s₁, namex sb cwd path parent s =
      namexLoop sb parent (path.length + 1) ip path (List.replicate DIRSIZ 0) s₁ ∧
      Held sb s s₁ ip ∧ (s₁.itable ip).inum = startOf s cwd path := by
    by_cases hslash : path.head? = some '/'.toUInt8
    · obtain ⟨j, i, hget, hinum, href, hvalid⟩ := iget_spec (s := s) (by
        obtain ⟨j, -, -, h1, -⟩ := hroom.free
        exact ⟨j, h1⟩) ROOTINO
      refine ⟨j, s.put j i, by rw [namex, if_pos hslash, bind_run hget], ⟨rfl, rfl,
        hcoh.iget hinum hvalid, fun k => ?_, ?_, ?_⟩, by simp [startOf, hinum, hslash]⟩
      · by_cases hk : k = j
        · subst hk; simp [href]
        · simp [hk]
      · simpa [hinum] using (hroot hslash).used
      · simpa [hinum] using Or.inr (hroot hslash).linked
    · obtain ⟨hpos, hused⟩ := hcwd hslash
      refine ⟨cwd, s.put cwd { s.itable cwd with ref := (s.itable cwd).ref + 1 },
        by rw [namex, if_neg hslash, bind_run (idup_run cwd)], ⟨rfl, rfl,
        hcoh.put fun _ hv => hcoh cwd hpos hv, fun k => ?_, by simpa using hused, by simp [hpos]⟩,
        by simp [startOf, hslash]⟩
      by_cases hk : k = cwd
      · subst hk; simp
      · simp [hk]
  obtain ⟨ip, s₁, hrun, hheld, hinum⟩ := hstart
  obtain ⟨r, name, s', hloop, hdone, hmap, hlast⟩ :=
    namexLoop_spec hroom hfs parent (path.length + 1) path ip (List.replicate DIRSIZ 0) s₁ hheld
      (Nat.lt_succ_self _)
  exact ⟨r, name, s', hrun.trans hloop, hdone, by rw [hmap, hinum], hlast⟩

/-- An on-disk inode that is an empty directory with one link. -/
def emptyDir : DInode := ⟨T_DIR, 0, 0, 1, 0, fun _ => 0⟩

/-- A disk every inode of which is an empty directory. -/
def emptyDirs : Disk := fun _ => (List.replicate IPB (encodeDinode emptyDir)).flatten

theorem dinodeAt_emptyDirs (sb : Superblock) (inum : UInt32) :
    dinodeAt emptyDirs sb inum = emptyDir := by
  set e := encodeDinode emptyDir
  set k := inum.toNat % IPB
  have hk : k < IPB := Nat.mod_lt _ (by decide)
  -- the block is `k` inodes, inode `inum`, then the rest
  have hrep :
      List.replicate IPB e = List.replicate k e ++ [e] ++ List.replicate (IPB - 1 - k) e := by
    rw [List.append_assoc, List.singleton_append, ← List.replicate_succ, ← List.replicate_add]
    congr 1
    omega
  have hpre : (List.replicate k e).flatten.length = dinodeOff inum := by
    simp [e, dinodeOff, k, Nat.mul_comm]
  simp only [dinodeAt, emptyDirs]
  rw [hrep, List.flatten_append, List.flatten_append, List.flatten_singleton, ← hpre,
    show 64 = e.length from (encodeDinode_length _).symm, slice_append_mid,
    parseDinode_encodeDinode]

/-- A file system of empty directories, before any call: every entry of the table unused. -/
def emptyFs : FsSt := ⟨emptyDirs, [], fun _ => ⟨0, 0, false, 0, 0, 0, 0, 0, fun _ => 0⟩⟩

theorem fsOK_emptyDirs (sb : Superblock) : FsOK sb emptyDirs := by
  intro inum _
  rw [dinodeAt_emptyDirs]
  refine ⟨rfl, fun p _ hp => absurd hp (by simp [emptyDir]), fun de hde => ?_⟩
  simp [dirents, content, emptyDir, DInode.asInode] at hde

end Namex

end Fs
end Xv6Net
