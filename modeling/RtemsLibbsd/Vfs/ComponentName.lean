import Mathlib.Algebra.Group.Nat.Defs
import RtemsLibbsd.CString
import RtemsLibbsd.Vfs.Calls

/-!
# The names of vnodes

`rtems_bsd_vfs_vnode_componentname` of `rtemsbsd/rtems/rtems-kernel-vfs.c`, with `vn_vptocnp` of
`freebsd/sys/kern/vfs_cache.c`, and what `rtems_bsd_vfs_rmnod` and `rtems_bsd_vfs_rename` make of the name.
`Vfs.Calls` says what these calls do to references.

* `Names` — a component name denotes a string and is terminated inside the buffer.
* `Removes`, `Renames` — exactly the entry of the vnode is removed, or renamed.
* **`componentname_misnames`** — none of this ever holds.

`vn_vptocnp` is told of the whole buffer, so the name ends where the buffer does and takes the place of the
terminator, and the length is computed as if the name ended one character before.
-/

namespace RtemsLibbsd.Vfs

open List Function RtemsLibbsd.CString

/-- `struct componentname`, with the name as an address in the buffer. -/
structure Componentname where
  nameptr : Option Nat
  namelen : Nat

/-- `vn_vptocnp`; `entry` is the name that the name cache or the file system has for the vnode, or why
    there is none. -/
def vnVptocnp (entry : Except Errno (List Char)) (buf : Memory) (buflen : Nat) :
    Except Stuck (Except Errno (Memory × Nat)) :=
  match entry with
  | .error e => .ok (.error e)
  | .ok n =>
    if buflen < n.length then .ok (.error .ENOMEM)
    else
      let buflen := buflen - n.length
      match memcpy buf buflen n with
      | none => .error .fault
      | some buf => .ok (.ok (buf, buflen))

/-- The difference of two values of `size_t`, which has `w` bits. -/
def sizeSub (w a b : Nat) : Nat := if b ≤ a then a - b else 2 ^ w - (b - a)

/-- `rtems_bsd_vfs_vnode_componentname` with the buffer `name`, which has at least one character. -/
def rtemsBsdVfsVnodeComponentname (w : Nat) (entry : Except Errno (List Char)) (name : Memory) :
    Except Stuck (Option Errno × Memory × Componentname) :=
  let namelen := name.length
  let namemax := namelen - 1
  let sznamelen := namelen
  match store name namemax nul with
  | none => .error .fault
  | some name =>
    match vnVptocnp entry name sznamelen with
    | .error s => .error s
    | .ok (.error e) => .ok (some e, name, ⟨none, 0⟩)
    | .ok (.ok (name, sznamelen)) => .ok (none, name, ⟨some sznamelen, sizeSub w namemax sznamelen⟩)

abbrev Entries := List Char → Option Vnode

/-- `VOP_RMDIR` and `VOP_REMOVE`; `vop` says why the file system refuses to remove an entry. -/
def vopRemove (dir : Entries) (n : List Char) (vop : Option Errno) : Option Errno × Entries :=
  match dir n, vop with
  | none, _ => (some (.other 2), dir)
  | some _, some e => (some e, dir)
  | some _, none => (none, update dir n none)

/-- `rtems_bsd_vfs_rmnod`, from `restart` on. -/
def rmnodEntryRestart (dir : Entries) (n : List Char) (root : Bool) :
    List RmnodTry → Except Stuck (Option Errno × Entries)
  | [] => .error .waiting
  | t :: ts =>
    if root then .ok (some .EBUSY, dir)
    else
      match t.start with
      | some _ =>
        match t.sleep with
        | some e => .ok (some e, dir)
        | none => rmnodEntryRestart dir n root ts
      | none => .ok (vopRemove dir n t.vop)

/-- `rtems_bsd_vfs_rmnod` in the directory `dir`; `td` says whether there is a current thread. -/
def rmnodEntry (w : Nat) (dir : Entries) (entry : Except Errno (List Char)) (name : Memory) (td root : Bool)
    (ts : List RmnodTry) : Except Stuck (Option Errno × Entries) :=
  if td = false then .ok (some .ENOMEM, dir)
  else
    match rtemsBsdVfsVnodeComponentname w entry name with
    | .error s => .error s
    | .ok (some e, _, _) => .ok (some e, dir)
    | .ok (none, name, cn) =>
      match cn.nameptr with
      | none => .error .fault
      | some p => rmnodEntryRestart dir ((name.drop p).take cn.namelen) root ts

abbrev Directories := Vnode → Entries

def vopRename (dirs : Directories) (fdvp : Vnode) (fromname : List Char) (tdvp : Vnode) (name : List Char) :
    Directories :=
  let removed := update dirs fdvp (update (dirs fdvp) fromname none)
  update removed tdvp (update (removed tdvp) name (dirs fdvp fromname))

/-- One attempt to rename: the results of the lookup of the new name, if it is refused, of `vn_start_write`, of the
    sleep, and of `VOP_RENAME`. -/
structure RenameEntryTry where
  toNd : Option Errno
  start : Option Errno
  sleep : Option Errno
  vop : Option Errno

/-- `rtems_bsd_vfs_rename`, from `again` on, with the names that `namei` looks up. -/
def renameEntryAgain (dirs : Directories) (isDir : Vnode → Bool) (olddvp : Vnode) (fromname : List Char)
    (newdvp : Vnode) (name : List Char) : List RenameEntryTry → Except Stuck (Option Errno × Directories)
  | [] => .error .waiting
  | t :: ts =>
    match dirs olddvp fromname with
    | none => .ok (some (.other 2), dirs)
    | some fvp =>
      match t.toNd with
      | some e => .ok (some (if e = .EISDIR ∧ isDir fvp then .EINVAL else e), dirs)
      | none =>
        match t.start with
        | some _ =>
          match t.sleep with
          | some e => .ok (some e, dirs)
          | none => renameEntryAgain dirs isDir olddvp fromname newdvp name ts
        | none =>
          let check := renameCheck isDir fvp newdvp (dirs newdvp name)
          match if check = none then t.vop else check with
          | some e => .ok (some e, dirs)
          | none => .ok (none, vopRename dirs olddvp fromname newdvp name)

/-- `rtems_bsd_vfs_rename`.  `namei` copies the name up to its terminator. -/
def renameEntry (w : Nat) (dirs : Directories) (isDir : Vnode → Bool) (olddvp : Vnode)
    (entry : Except Errno (List Char)) (fromname : Memory) (newdvp : Vnode) (name : List Char) (td : Bool)
    (ts : List RenameEntryTry) : Except Stuck (Option Errno × Directories) :=
  if td = false then .ok (some .ENOMEM, dirs)
  else
    match rtemsBsdVfsVnodeComponentname w entry fromname with
    | .error s => .error s
    | .ok (some e, _, _) => .ok (some e, dirs)
    | .ok (none, fromname, cn) =>
      match cn.nameptr with
      | none => .error .fault
      | some p =>
        -- a name without a terminator is read beyond the buffer
        if strlen fromname p = none then .error .fault
        else renameEntryAgain dirs isDir olddvp (str fromname p) newdvp name ts

/-- The component name denotes `n`, and there is a terminator behind it inside the buffer. -/
def Names (r : Except Stuck (Option Errno × Memory × Componentname)) (n : List Char) : Prop :=
  ∃ name p, r = .ok (none, name, ⟨some p, n.length⟩) ∧ (name.drop p).take n.length = n ∧
    load name (p + n.length) = some nul

/-- Exactly the entry `n` is removed. -/
def Removes (r : Except Stuck (Option Errno × Entries)) (dir : Entries) (n : List Char) : Prop :=
  r = .ok (none, update dir n none)

/-- Exactly the entry `n` is renamed. -/
def Renames (r : Except Stuck (Option Errno × Directories)) (dirs : Directories) (olddvp : Vnode)
    (n : List Char) (newdvp : Vnode) (name : List Char) : Prop :=
  r = .ok (none, vopRename dirs olddvp n newdvp name)

section Buffer

variable {n : List Char} {buf : Memory} {w : Nat}

theorem memcpy_end {m : Memory} (hn : n.length ≤ m.length) :
    memcpy m (m.length - n.length) n = some (m.take (m.length - n.length) ++ n) := by
  have hend : m.length - n.length + n.length = m.length := Nat.sub_add_cancel hn
  unfold memcpy
  simp [hend]

/-- **The component name** starts where `n` starts and is one character shorter. -/
theorem componentname_eq (hpos : 0 < n.length) (hn : n.length ≤ buf.length) :
    ∃ pre, pre.length = buf.length - n.length ∧
      rtemsBsdVfsVnodeComponentname w (.ok n) buf = .ok (none, pre ++ n, ⟨some pre.length, n.length - 1⟩) := by
  have hstore : store buf (buf.length - 1) nul = some (buf.set (buf.length - 1) nul) := by
    unfold store
    rw [if_pos (by omega)]
  obtain ⟨m, hm⟩ : ∃ m, m = buf.set (buf.length - 1) nul := ⟨_, rfl⟩
  have hlen : m.length = buf.length := by simp [hm]
  have hcopy := memcpy_end (hn.trans hlen.ge)
  rw [hlen] at hcopy
  refine ⟨m.take (buf.length - n.length), ?_, ?_⟩
  · rw [length_take, hlen]
    omega
  · have hpre : (m.take (buf.length - n.length)).length = buf.length - n.length := by
      rw [length_take, hlen]
      omega
    have hshort : sizeSub w (buf.length - 1) (buf.length - n.length) = n.length - 1 := by
      rw [sizeSub, if_pos (by omega)]
      omega
    simp only [rtemsBsdVfsVnodeComponentname, hstore, ← hm, vnVptocnp, if_neg (Nat.not_lt.mpr hn), hcopy,
      hpre, hshort]

theorem strlen_end (hclean : nul ∉ n) (pre : List Char) : strlen (pre ++ n) pre.length = none := by
  have hstr : str (pre ++ n) pre.length = n := by
    unfold str
    rw [drop_length_append, takeWhile_eq_self_iff]
    intro c hc
    refine decide_eq_true ?_
    rintro rfl
    exact hclean hc
  unfold strlen
  rw [hstr, if_neg]
  simp

end Buffer

section Entries

variable {n : List Char} {dir : Entries} {w : Nat}

/-- An attempt to remove the entry of another name keeps the entry `n`. -/
theorem vopRemove_keeps {n' : List Char} (hne : n' ≠ n) (vop : Option Errno) :
    (vopRemove dir n' vop).2 n = dir n := by
  unfold vopRemove
  cases dir n' with
  | none => rfl
  | some v =>
    cases vop with
    | some e => rfl
    | none => exact update_of_ne hne.symm _ _

theorem rmnodEntryRestart_keeps {n' : List Char} (hne : n' ≠ n) (root : Bool) (ts : List RmnodTry)
    {e : Option Errno} {dir' : Entries} (h : rmnodEntryRestart dir n' root ts = .ok (e, dir')) :
    dir' n = dir n := by
  induction ts with
  | nil => cases h
  | cons t ts ih =>
    unfold rmnodEntryRestart at h
    cases root with
    | true =>
      cases h
      rfl
    | false =>
      cases hstart : t.start with
      | none =>
        rw [hstart] at h
        rw [← @vopRemove_keeps n dir n' hne t.vop, Except.ok.inj h]
      | some e₁ =>
        grind

/-- `rtems_bsd_vfs_rmnod` works on the name without its last character. -/
theorem rmnodEntry_eq {buf : Memory} (hpos : 0 < n.length) (hn : n.length ≤ buf.length) (root : Bool)
    (ts : List RmnodTry) :
    rmnodEntry w dir (.ok n) buf true root ts = rmnodEntryRestart dir n.dropLast root ts := by
  obtain ⟨pre, -, hcn⟩ := @componentname_eq n buf w hpos hn
  simp only [rmnodEntry, hcn, Bool.true_eq_false, if_false, drop_length_append, dropLast_eq_take]

/-- **`rtems_bsd_vfs_rmnod` keeps the entry** that it is called for. -/
theorem rmnodEntry_keeps {buf : Memory} (hpos : 0 < n.length) (hn : n.length ≤ buf.length) (td root : Bool)
    (ts : List RmnodTry) {e : Option Errno} {dir' : Entries}
    (h : rmnodEntry w dir (.ok n) buf td root ts = .ok (e, dir')) : dir' n = dir n := by
  cases td with
  | false =>
    cases h
    rfl
  | true =>
    rw [rmnodEntry_eq hpos hn] at h
    refine rmnodEntryRestart_keeps ?_ root ts h
    intro hsame
    have hlen := congrArg List.length hsame
    rw [length_dropLast] at hlen
    omega

end Entries

/-- **The names that are recovered**: for every name that fits into the buffer, the component name is not the
    name with a terminator behind it, `rtems_bsd_vfs_rmnod` does not remove the entry, and
    `rtems_bsd_vfs_rename` does not rename it. -/
theorem componentname_misnames (w : Nat) (n : List Char) (buf : Memory) (hpos : 0 < n.length)
    (hfit : n.length ≤ buf.length - 1) (hclean : nul ∉ n) :
    ¬ Names (rtemsBsdVfsVnodeComponentname w (.ok n) buf) n ∧
      (∀ (dir : Entries) (td root : Bool) (ts : List RmnodTry), (dir n).isSome →
        ¬ Removes (rmnodEntry w dir (.ok n) buf td root ts) dir n) ∧
      ∀ (dirs : Directories) (isDir : Vnode → Bool) (olddvp newdvp : Vnode) (name : List Char) (td : Bool)
        (ts : List RenameEntryTry),
        ¬ Renames (renameEntry w dirs isDir olddvp (.ok n) buf newdvp name td ts) dirs olddvp n newdvp name := by
  have hn : n.length ≤ buf.length := hfit.trans (Nat.sub_le _ _)
  obtain ⟨pre, -, hcn⟩ := @componentname_eq n buf w hpos hn
  refine ⟨?_, ?_, ?_⟩
  · rintro ⟨name, p, hname, -, -⟩
    grind
  · intro dir td root ts hdir hremoves
    have hkeeps := rmnodEntry_keeps hpos hn td root ts hremoves
    rw [update_self] at hkeeps
    rw [← hkeeps] at hdir
    cases hdir
  · intro dirs isDir olddvp newdvp name td ts hrenames
    cases td with
    | false => cases hrenames
    | true =>
      unfold Renames renameEntry at hrenames
      simp only [hcn, Bool.true_eq_false, if_false, strlen_end hclean, if_true] at hrenames
      cases hrenames

/-- The entries `ab` and `a`. -/
def twoFiles : Entries := fun n => if n = ['a', 'b'] then some 1 else if n = ['a'] then some 2 else none

theorem componentname_misnames_ab : ¬ Names (rtemsBsdVfsVnodeComponentname 64 (.ok ['a', 'b']) (List.replicate 255 'x'))
    ['a', 'b'] :=
  (componentname_misnames 64 ['a', 'b'] (List.replicate 255 'x') (by decide)
    (by rw [length_replicate]; decide) (by decide)).1

/-- **Another file is removed**: the call for `ab` removes `a`. -/
theorem ab_removes_a :
    ∃ dir, rmnodEntry 64 twoFiles (.ok ['a', 'b']) (List.replicate 255 'x') true false [⟨none, none, none⟩] =
        .ok (none, dir) ∧
      dir ['a', 'b'] = some 1 ∧ dir ['a'] = none ∧
      ¬ Removes (rmnodEntry 64 twoFiles (.ok ['a', 'b']) (List.replicate 255 'x') true false [⟨none, none, none⟩])
        twoFiles ['a', 'b'] := by
  have hcall : rmnodEntry 64 twoFiles (.ok ['a', 'b']) (List.replicate 255 'x') true false [⟨none, none, none⟩] =
      .ok (none, update twoFiles ['a'] none) := by
    rw [rmnodEntry_eq (by decide) (by rw [length_replicate]; decide)]
    rfl
  rw [hcall]
  refine ⟨update twoFiles ['a'] none, rfl, by decide, by decide, ?_⟩
  intro hremoves
  have hdirs : update twoFiles ['a'] none = update twoFiles ['a', 'b'] none :=
    (Prod.mk.inj (Except.ok.inj hremoves)).2
  have hab := congrFun hdirs ['a', 'b']
  revert hab
  decide

end RtemsLibbsd.Vfs
