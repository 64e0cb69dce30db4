import Mathlib.Data.List.TakeWhile
import RtemsLibbsd.Vfs.Calls

/-!
# Names in a directory tree

Model of `namei` and `vfs_lookup` of `freebsd/sys/kern/vfs_lookup.c`, of `vn_open_cred` and `vn_open_vnode` of
`freebsd/sys/kern/vfs_vnops.c` and of `kern_openat`, on a tree of directories, files and symbolic
links.  `Vfs.Calls` says what these functions do to references, and leaves open what they find.

* `Tree` — the nodes, and what the file system says about the opening and the creation of files.  The
  limits on links and names are constants of RTEMS.
* `Tree.dirloop`, `Tree.vfsLookup` — one pass over a name, up to a symbolic link that is followed.
* `Tree.namei` — the passes.  A symbolic link is replaced by its text, and the next pass starts in the directory
  the link is in, or in the root directory of the process.
* `Tree.kernOpenat` — the lookup, and the opening or the creation of what it finds.

The lookup has the privileges of the kernel and is refused nowhere; mounted file systems are directories of
the tree.  What is opened with `O_PATH` is not modelled.

* `Tree.namei_plain`, `Tree.namei_absent` — the lookup of one component.
* `Tree.namei_found` — without `CREATE` only what exists is found.
-/

namespace RtemsLibbsd.Vfs

open List

def ENOENT : Errno := .other 2

def EMLINK : Errno := .other 31

def ENAMETOOLONG : Errno := .other 91

def ELOOP : Errno := .other 92

/-- The part of the flags of an open that is looked at on the way to a vnode. -/
structure Oflag where
  write : Bool
  creat : Bool
  excl : Bool
  trunc : Bool
  nofollow : Bool
  directory : Bool

inductive Node where
  | file
  | link (target : List Char)
  | dir (parent : Vnode) (entries : List (List Char × Vnode))

def Node.isDir : Node → Bool
  | .dir _ _ => true
  | _ => false

/-- `vopOpen` stands for `VOP_ACCESS`, `VOP_OPEN` and the table of the open files, `vopCreate` for `VOP_CREATE` and the
    opening of the new file. -/
structure Tree where
  node : Vnode → Node
  vopOpen : Vnode → Oflag → Option Errno
  vopCreate : Vnode → List Char → Except Errno Vnode
  MAXSYMLINKS : Nat
  MAXPATHLEN : Nat
  parent_isDir : ∀ v p es, node v = .dir p es → (node p).isDir = true
  name_fits : NAMEMAX < MAXPATHLEN

/-- `ni_dvp`, `ni_vp` and the last component. -/
structure Named where
  dvp : Vnode
  vp : Option Vnode
  name : List Char

/-- What a pass over a name ends with.  The rest of the name is `ni_next`. -/
inductive Looked where
  | found (n : Named)
  | symlink (dvp : Vnode) (target : List Char) (next : List Char) (trailing : Bool)

inductive Target where
  | existing (v : Vnode)
  | missing (dvp : Vnode) (name : List Char)
  deriving DecidableEq

def Named.target (n : Named) : Target :=
  match n.vp with
  | some v => .existing v
  | none => .missing n.dvp n.name

@[simp] theorem Named.target_existing {n : Named} {v : Vnode} : n.target = .existing v ↔ n.vp = some v := by
  obtain ⟨dvp, vp, name⟩ := n
  cases vp <;> simp [Named.target]

@[simp] theorem Named.target_missing {n : Named} {dvp : Vnode} {name : List Char} :
    n.target = .missing dvp name ↔ n = ⟨dvp, none, name⟩ := by
  obtain ⟨dvp, vp, name⟩ := n
  cases vp <;> simp [Named.target]

/-- A file that `kern_openat` has opened, and its vnode. -/
structure File where
  target : Target
  vp : Vnode
  isDir : Bool

/-- `vn_open_cred` refuses the flags. -/
def Oflag.invalid (o : Oflag) : Bool := o.creat && o.excl && o.directory

/-- The open looks a name up with `CREATE`. -/
def Oflag.creates (o : Oflag) : Bool := o.creat && !o.directory

/-- The open looks a name up with `FOLLOW`. -/
def Oflag.follows (o : Oflag) : Bool := !(o.creates && o.excl) && !o.nofollow

namespace Tree

variable (T : Tree)

def isDir (v : Vnode) : Bool := (T.node v).isDir

def vopLookup (dp : Vnode) (name : List Char) : Except Errno (Option Vnode) :=
  match T.node dp with
  | .dir parent entries =>
    .ok (if isCurrentDirectory name then some dp
      else if isParentDirectory name then some parent
      else entries.lookup name)
  | _ => .error .ENOTDIR

/-- The directories that `..` does not leave. -/
def isRoot (k : Kernel) (dp : Vnode) : Bool :=
  dp == k.pwd.rdir || some dp == k.pwd.jdir || dp == k.rootvnode

def component (k : Kernel) (dp : Vnode) (name : List Char) : Except Errno (Option Vnode) :=
  if isParentDirectory name && isRoot k dp then .ok (some dp) else T.vopLookup dp name

/-- A vnode was found.  The rest of the name is `next`. -/
def afterFound (follow trailing : Bool) (dp vp : Vnode) (name next : List Char) : Except Errno (Option Looked) :=
  match T.node vp with
  | .link target =>
    if follow || trailing || !next.isEmpty then .ok (some (.symlink dp target next trailing))
    else .ok (some (.found ⟨dp, some vp, name⟩))
  | n =>
    if !next.isEmpty then .ok none
    else if trailing && !n.isDir then .error .ENOTDIR
    else .ok (some (.found ⟨dp, some vp, name⟩))

/-- The loop `dirloop` of `vfs_lookup`; each round takes a component off the path. -/
def dirloop (k : Kernel) (create follow trailing : Bool) : Nat → Vnode → List Char → Except Errno Looked
  | 0, _, _ => .error ENOENT
  | n + 1, dp, path =>
    let name := path.takeWhile (· != '/')
    let next := path.dropWhile (· != '/')
    if name.length > NAMEMAX then .error ENAMETOOLONG
    else match T.component k dp name with
      | .error e => .error e
      | .ok none =>
        if create && next.isEmpty && !trailing then .ok (.found ⟨dp, none, name⟩) else .error ENOENT
      | .ok (some vp) =>
        match T.afterFound follow trailing dp vp name next with
        | .error e => .error e
        | .ok (some l) => .ok l
        | .ok none => dirloop k create follow trailing n vp (next.dropWhile (· == '/'))

/-- `vfs_lookup` of a name without leading slashes. -/
def vfsLookup (k : Kernel) (create follow trailing : Bool) (dp : Vnode) (path : List Char) : Except Errno Looked :=
  if path.isEmpty then
    if !T.isDir dp then .error .ENOTDIR
    else if create then .error .EISDIR
    else .ok (.found ⟨dp, some dp, []⟩)
  else
    let trailing := trailing || path.getLast? == some '/'
    let path := (path.reverse.dropWhile (· == '/')).reverse
    T.dirloop k create follow trailing path.length dp path

/-- The loop of `namei`, with the number of links that may still be followed. -/
def nameiLoop (k : Kernel) (create follow : Bool) : Nat → Bool → Vnode → List Char → Except Errno Named
  | loops, trailing, dp, path =>
    match T.vfsLookup k create follow trailing dp path with
    | .error e => .error e
    | .ok (.found n) => .ok n
    | .ok (.symlink dvp target next trailing) =>
      match loops with
      | 0 => .error ELOOP
      | loops + 1 =>
        -- namei_follow_link
        if target.isEmpty then .error ENOENT
        else if target.length + (next.length + 1) > T.MAXPATHLEN then .error ENAMETOOLONG
        else if target.head? == some '/' then
          nameiLoop k create follow loops trailing k.pwd.rdir ((target ++ next).dropWhile (· == '/'))
        else nameiLoop k create follow loops trailing dvp (target ++ next)

/-- `namei` of a path that starts at `dp`. -/
def namei (k : Kernel) (create follow : Bool) (dp : Vnode) (path : List Char) : Except Errno Named :=
  if path.length + 1 > T.MAXPATHLEN then .error ENAMETOOLONG
  else if path.isEmpty then .error ENOENT
  else if path.head? == some '/' then
    T.nameiLoop k create follow T.MAXSYMLINKS false k.pwd.rdir (path.dropWhile (· == '/'))
  else if !T.isDir dp then .error .ENOTDIR
  else T.nameiLoop k create follow T.MAXSYMLINKS false dp path

def vnOpenVnode (vp : Vnode) (o : Oflag) : Option Errno :=
  match T.node vp with
  | .link _ => some EMLINK
  | .file => if o.directory then some .ENOTDIR else T.vopOpen vp o
  | .dir _ _ => if o.write || o.trunc then some .EISDIR else T.vopOpen vp o

/-- `vn_open_cred` once a vnode is found. -/
def vnOpenFound (vp : Vnode) (o : Oflag) : Option Errno :=
  if o.creates && o.excl then some .EEXIST
  else if o.creates && T.isDir vp then some .EISDIR
  else T.vnOpenVnode vp o

/-- `kern_openat` with `AT_FDCWD`: `vn_open_cred`. -/
def kernOpenat (k : Kernel) (path : List Char) (o : Oflag) : Except Errno File :=
  if o.invalid then .error .EINVAL
  else match T.namei k o.creates o.follows k.pwd.cdir path with
    | .error e => .error e
    | .ok ⟨dvp, none, name⟩ => (T.vopCreate dvp name).map fun vp => ⟨.missing dvp name, vp, false⟩
    | .ok ⟨_, some vp, _⟩ =>
      match T.vnOpenFound vp o with
      | some e => .error e
      | none => .ok ⟨.existing vp, vp, T.isDir vp⟩

theorem component_name {t : List Char} (h : isParentDirectory t = false) (k : Kernel) (d : Vnode) :
    T.component k d t = T.vopLookup d t := by
  simp [component, h]

theorem vopLookup_ok {d : Vnode} (hd : T.isDir d = true) (t : List Char) : ∃ r, T.vopLookup d t = .ok r := by
  unfold isDir at hd
  unfold vopLookup
  split
  · exact ⟨_, rfl⟩
  · rename_i h
    cases hn : T.node d with
    | dir p es => exact absurd hn (h p es)
    | file => rw [hn] at hd; cases hd
    | link t => rw [hn] at hd; cases hd

theorem component_parent {d : Vnode} (hd : T.isDir d = true) (k : Kernel) :
    ∃ p, T.component k d ['.', '.'] = .ok (some p) ∧ T.isDir p = true := by
  unfold component
  split
  · exact ⟨d, rfl, hd⟩
  · unfold isDir at hd
    cases hn : T.node d with
    | dir p es => exact ⟨p, by simp [vopLookup, hn, isCurrentDirectory, isParentDirectory], T.parent_isDir d p es hn⟩
    | file => rw [hn] at hd; cases hd
    | link t => rw [hn] at hd; cases hd

theorem node_ne_link {v : Vnode} (hv : T.isDir v = true) (target : List Char) : T.node v ≠ .link target := by
  intro h
  rw [isDir, h] at hv
  cases hv

section Component

variable {T} {k : Kernel} {d : Vnode} {t : List Char} (hd : T.isDir d = true) (ht : t ≠ [])
  (hs : ∀ c ∈ t, c ≠ '/') (hl : t.length ≤ NAMEMAX)

include hs in
theorem takeWhile_slash : t.takeWhile (· != '/') = t :=
  takeWhile_eq_self_iff.mpr fun c hc => by simpa using hs c hc

include hs in
theorem dropWhile_slash : t.dropWhile (· != '/') = [] :=
  dropWhile_eq_nil_iff.mpr fun c hc => by simpa using hs c hc

include ht hs in
theorem vfsLookup_token (create follow : Bool) :
    T.vfsLookup k create follow false d t = T.dirloop k create follow false t.length d t := by
  have hlast : (t.getLast? == some '/') = false :=
    beq_eq_false_iff_ne.mpr fun h => hs _ (mem_of_getLast? h) rfl
  have hrev : t.reverse.dropWhile (· == '/') = t.reverse := by
    cases hr : t.reverse with
    | nil => rfl
    | cons c cs =>
      have hc : c ≠ '/' := hs c (mem_reverse.mp (hr ▸ mem_cons_self))
      simp [hc]
  simp [vfsLookup, ht, hrev, hlast]

include hd ht hs hl in
theorem namei_eq_loop (create follow : Bool) :
    T.namei k create follow d t = T.nameiLoop k create follow T.MAXSYMLINKS false d t := by
  have hhead : t.head? ≠ some '/' := fun h => hs _ (mem_of_head? h) rfl
  grind [T.name_fits, namei]

include hd ht hs hl in
theorem namei_plain {create follow : Bool} {vp : Vnode} (hc : T.component k d t = .ok (some vp))
    (hf : ∀ target, T.node vp = .link target → follow = false) :
    T.namei k create follow d t = .ok ⟨d, some vp, t⟩ := by
  rw [namei_eq_loop hd ht hs hl, nameiLoop, vfsLookup_token ht hs]
  obtain ⟨n, hn⟩ := Nat.exists_eq_succ_of_ne_zero (length_pos_iff.mpr ht).ne'
  have hlen : ¬ t.length > NAMEMAX := by omega
  have hfound : T.afterFound follow false d vp t [] = .ok (some (.found ⟨d, some vp, t⟩)) := by
    unfold afterFound
    split
    · rename_i target hlink
      simp [hf target hlink]
    · simp
  rw [hn, dirloop, takeWhile_slash hs, dropWhile_slash hs]
  simp [hlen, hc, hfound]

include hd ht hs hl in
theorem namei_absent {create follow : Bool} (hc : T.component k d t = .ok none) :
    T.namei k create follow d t = if create then .ok ⟨d, none, t⟩ else .error ENOENT := by
  rw [namei_eq_loop hd ht hs hl, nameiLoop, vfsLookup_token ht hs]
  obtain ⟨n, hn⟩ := Nat.exists_eq_succ_of_ne_zero (length_pos_iff.mpr ht).ne'
  grind [dirloop, takeWhile_slash, dropWhile_slash]

end Component

theorem isDir_of_namei {k : Kernel} {create follow : Bool} {d : Vnode} {t : List Char} {n : Named}
    (hs : ∀ c ∈ t, c ≠ '/') (h : T.namei k create follow d t = .ok n) : T.isDir d = true ∧ t ≠ [] := by
  have hhead : t.head? ≠ some '/' := fun h => hs _ (mem_of_head? h) rfl
  unfold namei at h
  split at h
  · cases h
  split at h
  · cases h
  grind

section Lookup

variable {T} {k : Kernel} {follow : Bool} {n : Named}

variable {trailing : Bool}

theorem afterFound_found {dp vp : Vnode} {name next : List Char}
    (h : T.afterFound follow trailing dp vp name next = .ok (some (.found n))) : n = ⟨dp, some vp, name⟩ := by
  grind [afterFound]

theorem dirloop_found : ∀ {fuel : Nat} {dp : Vnode} {path : List Char},
    T.dirloop k false follow trailing fuel dp path = .ok (.found n) → n.vp ≠ none := by
  intro fuel
  induction fuel with
  | zero => intro _ _ h; cases h
  | succ fuel ih =>
    intro dp path h
    rw [dirloop] at h
    split at h
    · cases h
    split at h
    · cases h
    · cases h
    · split at h
      · cases h
      · rename_i l hafter
        cases h
        rw [afterFound_found hafter]
        simp
      · exact ih h

theorem vfsLookup_found {dp : Vnode} {path : List Char}
    (h : T.vfsLookup k false follow trailing dp path = .ok (.found n)) : n.vp ≠ none := by
  grind [vfsLookup, dirloop_found]

theorem nameiLoop_found : ∀ {loops : Nat} {trailing : Bool} {dp : Vnode} {path : List Char},
    T.nameiLoop k false follow loops trailing dp path = .ok n → n.vp ≠ none := by
  intro loops
  induction loops with
  | zero =>
    intro trailing dp path h
    grind [nameiLoop, vfsLookup_found]
  | succ loops ih =>
    intro trailing dp path h
    grind [nameiLoop, vfsLookup_found]

/-- **A name that is looked up without `CREATE` exists.** -/
theorem namei_found {dp : Vnode} {path : List Char} (h : T.namei k false follow dp path = .ok n) : n.vp ≠ none := by
  grind [namei, nameiLoop_found]

end Lookup

end Tree

end RtemsLibbsd.Vfs
