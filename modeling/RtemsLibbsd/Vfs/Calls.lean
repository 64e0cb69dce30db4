import RtemsLibbsd.Vfs.Kernel

/-!
# The file system calls on vnodes

Model of `rtems_bsd_vfs_eval_token`, `rtems_bsd_vfs_mknod`, `rtems_bsd_vfs_symlink`, `rtems_bsd_vfs_link`,
`rtems_bsd_vfs_rmnod` and `rtems_bsd_vfs_rename` of `rtemsbsd/rtems/rtems-kernel-vfs.c`, and of
`rtems_bsd_sysgen_open_node` of `rtemsbsd/rtems/rtems-bsd-syscall-api.c`.

What the FreeBSD primitives do to references, locks and buffers is part of the model, their outcomes are
chosen by the caller of the model:

* `pwd_chdir` takes over a reference of its caller, `pwd_chroot` takes references of its own, and is refused
  while a directory is open and the root directory is not `rootvnode`.
* `namei` consumes the reference on the directory it starts at.  It returns references on the parent
  and on the target, the parent locked for `LOCKPARENT` and the target for `LOCKLEAF`; a target that is its
  own parent is locked for `LOCKLEAF` only.  If it fails it has freed the name buffer.  In either case
  `ni_startdir` is `NULL` afterwards.
* `vn_vptocnp` consumes the reference on the vnode and returns one on its parent.
* `VOP_SYMLINK` returns a vnode that is referenced and locked, `VOP_RENAME` releases its four vnodes.
* `vn_start_write` with `V_XSLEEP` announces nothing.

A call that waits for a suspended file system starts again; the attempts are given as a list, and a
call for which there are no more attempts is waiting.
-/

namespace RtemsLibbsd.Vfs

inductive Errno where
  | E2BIG
  | ENOMEM
  | EPERM
  | EXDEV
  | EAGAIN
  | EBUSY
  | EEXIST
  | EINVAL
  | EISDIR
  | ENOTDIR
  | other (n : Nat)
  deriving DecidableEq

/-- A call that has not returned: it releases `NULL`, or it waits. -/
inductive Stuck where
  | fault
  | waiting

abbrev Result := Except Stuck (Option Errno × Kernel)

namespace Kernel

variable (k : Kernel)

/-- `vref` of a vnode that may be missing. -/
def vrefIf (vp : Option Vnode) : Kernel := { k with usecount := k.usecount + oneOf vp }

def vreleIf (vp : Option Vnode) : Kernel := { k with usecount := k.usecount - oneOf vp }

/-- `vput` of a vnode that may be missing. -/
def vputIf (vp : Option Vnode) : Kernel :=
  { k with usecount := k.usecount - oneOf vp, locks := k.locks - oneOf vp }

/-- `vn_start_write` that succeeds. -/
def startWrite : Kernel := { k with writes := k.writes + 1 }

/-- `vn_finished_write`. -/
def finishedWrite : Kernel := { k with writes := k.writes - 1 }

/-- `NDFREE_PNBUF` after `namei` succeeded. -/
def ndfreePnbuf : Kernel := { k with names := k.names - 1 }

def pwdDrop (p : Pwd) : Kernel := (((k.vrele p.cdir).vrele p.rdir).vreleIf p.jdir).vrele p.adir

def pwdChdir (vp : Vnode) : Kernel :=
  let old := k.pwd
  -- pwd_fill
  let k := ((k.vref old.rdir).vrefIf old.jdir).vref old.adir
  pwdDrop { k with pwd := { old with cdir := vp } } old

/-- `chroot_refuse_vdir_fds` as `pwd_chroot` asks for it. -/
def Refused : Prop := k.pwd.rdir ≠ k.rootvnode ∧ k.dirOpen = true

instance : Decidable k.Refused := inferInstanceAs (Decidable (_ ∧ _))

def pwdChroot (vp : Vnode) : Kernel :=
  let old := k.pwd
  if k.Refused then k
  else
    let k := (k.vref vp).vref vp
    let k := if old.jdir = none then k.vref vp else k
    let k := (k.vref old.cdir).vrefIf old.jdir
    pwdDrop { k with pwd := ⟨old.cdir, vp, some (old.jdir.getD vp), vp, rfl⟩ } old

end Kernel

/-- The outcome of `namei`: an error, or the parent and the target if this exists. -/
inductive NameiResult where
  | error (e : Errno)
  | found (dvp : Vnode) (vp : Option Vnode)

/-- `namei`.  The start directory is `none` for a lookup at the current directory, on which it takes a
    reference of its own. -/
def namei (k : Kernel) (startdir : Option Vnode) (lockParent lockLeaf : Bool) : NameiResult → Kernel
  | .error _ => k.vreleIf startdir
  | .found dvp vp =>
    let k := ((k.vreleIf startdir).vref dvp).vrefIf vp
    let k := if lockParent ∧ vp ≠ some dvp then k.vnLock dvp else k
    { k with
      locks := if lockLeaf then k.locks + oneOf vp else k.locks
      names := k.names + 1 }

/-- `ni_startdir` after `namei`. -/
def startdirAfter : NameiResult → Option Vnode := fun _ => none

/-- `vrele` of a pointer. -/
def vreleOrFault (k : Kernel) : Option Vnode → Except Stuck Kernel
  | none => .error .fault
  | some v => .ok (k.vrele v)

def NAMEMAX : Nat := 255

def isCurrentDirectory (token : List Char) : Bool := token == ['.']

def isParentDirectory (token : List Char) : Bool := token == ['.', '.']

/-- A token of a path, whether it is the last one, whether the last one may be created, and what
    `namei` says about it. -/
structure Token where
  token : List Char
  noMorePath : Bool
  make : Bool
  namei : NameiResult

/-- The token is looked up with `CREATE` and `LOCKPARENT`. -/
def Token.create (t : Token) : Bool := t.noMorePath && t.make

inductive EvalStatus where
  | CONTINUE
  | DONE
  deriving DecidableEq

/-- The result of the evaluation of a token: the error of the evaluation, and `*vpp`. -/
structure Evaluated where
  status : EvalStatus
  error : Option Errno
  vpp : Option Vnode
  kernel : Kernel

def evalStatus (noMorePath : Bool) : EvalStatus := if noMorePath then .DONE else .CONTINUE

def setLocation (k : Kernel) (currentloc : Nat) (dvp : Vnode) (vp : Option Vnode) : Kernel :=
  if vp ≠ none then
    let k := exec k (rtemsBsdLibioLocSetVnode k currentloc vp)
    exec k (rtemsBsdLibioLocSetVnodeDir k currentloc (some dvp))
  else k

/-- The kernel in which `rtems_bsd_vfs_eval_token` calls `namei`. -/
def tokenKernel (k : Kernel) (vpp : Vnode) : Kernel :=
  (((k.vref k.pwd.cdir).pwdChroot k.rootvnode).pwdChdir vpp).vref vpp

/-- `rtems_bsd_vfs_eval_token`, from the change of the directories on.  An error leaves them changed. -/
def evalTokenAt (k : Kernel) (currentloc rootloc : Nat) (vpp : Vnode) (t : Token) : Evaluated :=
  let rdir := k.pwd.rdir
  let cdir := k.pwd.cdir
  let k := k.vref cdir
  let k := k.pwdChroot k.rootvnode
  let k := k.pwdChdir vpp
  let k := k.vref vpp
  let k := namei k (some vpp) t.create false t.namei
  match t.namei with
  | .error e => ⟨.DONE, some e, some vpp, k⟩
  | .found dvp vp =>
    let k := k.pwdChroot rdir
    let k := k.pwdChdir cdir
    let k := setLocation k currentloc dvp vp
    let k := k.ndfreePnbuf.vreleIf vp
    ⟨if vp = k.access rootloc .node then .CONTINUE else evalStatus t.noMorePath, none, vp, k⟩

/-- `rtems_bsd_vfs_eval_token`, without the handlers of the location. -/
def rtemsBsdVfsEvalToken (k : Kernel) (currentloc rootloc : Nat) (vpp : Vnode) (t : Token) : Evaluated :=
  if t.token.length > NAMEMAX then ⟨.DONE, some .E2BIG, some vpp, k⟩
  else if isCurrentDirectory t.token then ⟨evalStatus t.noMorePath, none, some vpp, k⟩
  else if some vpp = k.access rootloc .node ∧ isParentDirectory t.token then ⟨.CONTINUE, none, some vpp, k⟩
  else evalTokenAt k currentloc rootloc vpp t

/-- A file that was opened: its vnode, which is missing if another task has closed it, and whether it
    is a directory. -/
structure Opened where
  vn : Option Vnode
  isDir : Bool

/-- The arguments of an open, and what `kern_openat` returns. -/
structure Opening where
  td : Bool
  path : List Char
  write : Bool
  creat : Bool
  openat : Except Errno Opened

def isDelimiter (c : Char) : Bool := c == '/' || c == '\\'

def lastToken (path : List Char) : List Char := (path.reverse.takeWhile fun c => !isDelimiter c).reverse

/-- `opath`: of the location, the vnode `vn`; of the root location, the vnode `rvn`. -/
def openPath (vn rvn : Vnode) (o : Opening) : List Char := if vn = rvn then ['.'] else lastToken o.path

/-- The open is of `.` or `..`. -/
def openDot (vn rvn : Vnode) (o : Opening) : Bool :=
  isCurrentDirectory (openPath vn rvn o) || isParentDirectory (openPath vn rvn o)

/-- The directory in which `kern_openat` looks for the file. -/
def openDir (vn rvn : Vnode) (dvn : Option Vnode) (o : Opening) : Vnode :=
  if openDot vn rvn o then vn else if o.creat then vn else dvn.getD vn

/-- `rtems_bsd_sysgen_open_node` of the location `iop`, whose vnodes are `vn` and `dvn`.  The structure `pwd` has
    been released by the first `pwd_chdir` and is read after that; it has the old directories. -/
def rtemsBsdSysgenOpenNode (k : Kernel) (iop : Nat) (vn rvn : Vnode) (dvn : Option Vnode) (o : Opening) :
    Option Errno × Kernel :=
  let pwd := k.pwd
  if o.td = false then (some .ENOMEM, k)
  else if openDot vn rvn o ∧ o.write then (some .EPERM, k)
  else
    let cdir := openDir vn rvn dvn o
    let rdir := pwd.cdir
    let k := (k.vref rdir).vref cdir
    let k := k.pwdChdir cdir
    let cdir := rdir
    let rdir := pwd.rdir
    let k := k.pwdChroot pwd.cdir
    match o.openat with
    | .error e => (some e, k)
    | .ok f =>
      -- the file has a reference on its vnode
      let k := { k.vrefIf f.vn with dirOpen := k.dirOpen || f.isDir }
      let k := k.pwdChdir cdir
      let k := k.pwdChroot rdir
      (none, exec k (rtemsBsdLibioLocSetVnode k iop f.vn))

inductive NodeType where
  | S_IFREG
  | S_IFDIR
  | device

/-- `rtems_bsd_vfs_mknod` in the directory `vn`; `error` is the result of `kern_mkdirat` or `kern_mknodat`. -/
def rtemsBsdVfsMknod (k : Kernel) (vn : Vnode) (mode : NodeType) (error : Option Errno) : Option Errno × Kernel :=
  let k := k.pwdChdir vn
  match mode with
  | .S_IFREG => (none, k)
  | .S_IFDIR => (error, (k.vref vn).vrele vn)
  | .device => (error, (k.vref vn).vrele vn)

/-- One attempt to make a symbolic link: the results of `namei`, of `vn_start_write` with `V_NOWAIT`, of
    the sleep, and of `VOP_SYMLINK`. -/
structure SymlinkTry where
  namei : NameiResult
  start : Option Errno
  sleep : Option Errno
  vop : Except Errno Vnode

/-- The release of a parent and a target that is its own parent, or not. -/
def Kernel.vputParent (k : Kernel) (dvp : Vnode) (vp : Option Vnode) : Kernel :=
  if vp = some dvp then k.vrele dvp else k.vput dvp

/-- `rtems_bsd_vfs_symlink`, from `restart` on. -/
def symlinkRestart (k : Kernel) : List SymlinkTry → Result
  | [] => .error .waiting
  | t :: ts =>
    let k := namei k none true false t.namei
    match t.namei with
    | .error e => .ok (some e, k)
    | .found dvp (some vp) =>
      .ok (some .EEXIST, ((k.ndfreePnbuf).vputParent dvp (some vp)).vrele vp)
    | .found dvp none =>
      match t.start with
      | some _ =>
        let k := k.ndfreePnbuf.vput dvp
        match t.sleep with
        | some e => .ok (some e, k)
        | none => symlinkRestart k ts
      | none =>
        let k := k.startWrite
        match t.vop with
        | .error e => .ok (some e, k)
        | .ok vp => .ok (none, ((((k.vref vp).vnLock vp).ndfreePnbuf).vput dvp).finishedWrite)

/-- `rtems_bsd_vfs_symlink` in the directory `tdvp`. -/
def rtemsBsdVfsSymlink (k : Kernel) (tdvp : Vnode) (ts : List SymlinkTry) : Result :=
  symlinkRestart (k.pwdChdir tdvp) ts

/-- The file systems of the vnodes, and the results of `vn_start_write`, of the sleep, and of
    `VOP_LINK`. -/
structure Linking where
  mount : Vnode → Nat
  start : Option Errno
  sleep : Option Errno
  vop : Option Errno

/-- `rtems_bsd_vfs_link` of `svp` into the directory `tdvp`. -/
def rtemsBsdVfsLink (k : Kernel) (tdvp svp : Vnode) (l : Linking) : Option Errno × Kernel :=
  if l.mount svp ≠ l.mount tdvp then (some .EXDEV, k)
  else
    let k := (k.vref tdvp).vnLock tdvp
    match l.start with
    | some _ =>
      let k := k.vput tdvp
      match l.sleep with
      | some e => (some e, k)
      | none => (some .EAGAIN, k)
    | none => (l.vop, k.startWrite.vopUnlock tdvp)

/-- `rtems_bsd_vfs_vnode_componentname`; `r` is the parent that `vn_vptocnp` finds. -/
def vnodeComponentname (k : Kernel) (vp : Vnode) (r : Except Errno Vnode) : Kernel :=
  match r with
  | .error _ => k.vrele vp
  | .ok dvp => (k.vref dvp).vrele vp

structure RmnodTry where
  start : Option Errno
  sleep : Option Errno
  vop : Option Errno

/-- `rtems_bsd_vfs_rmnod`, from `restart` on. -/
def rmnodRestart (k : Kernel) (root : Bool) : List RmnodTry → Result
  | [] => .error .waiting
  | t :: ts =>
    if root then .ok (some .EBUSY, k)
    else
      match t.start with
      | some _ =>
        match t.sleep with
        | some e => .ok (some e, k)
        | none => rmnodRestart k root ts
      | none => .ok (t.vop, k.startWrite.finishedWrite)

/-- `rtems_bsd_vfs_rmnod` of `vp`, which is the root of its file system if `root`. -/
def rtemsBsdVfsRmnod (k : Kernel) (vp : Vnode) (root : Bool) (cn : Except Errno Vnode) (ts : List RmnodTry) :
    Result :=
  let k := vnodeComponentname k vp cn
  match cn with
  | .error e => .ok (some e, k)
  | .ok _ => rmnodRestart (k.vref vp) root ts

/-- One attempt to rename: the results of the two lookups, of `vn_start_write`, of the sleep, and of
    `VOP_RENAME`, and which vnodes are directories. -/
structure RenameTry where
  fromNd : NameiResult
  toNd : NameiResult
  start : Option Errno
  sleep : Option Errno
  vop : Option Errno
  isDir : Vnode → Bool

/-- The release of everything that the two lookups have returned. -/
def renameRelease (k : Kernel) (fdvp fvp tdvp : Vnode) (tvp : Option Vnode) : Kernel :=
  (((k.vputIf tvp).vputParent tdvp tvp).vrele fdvp).vrele fvp

/-- The checks before `VOP_RENAME`. -/
def renameCheck (isDir : Vnode → Bool) (fvp tdvp : Vnode) (tvp : Option Vnode) : Option Errno :=
  if ∃ v ∈ tvp, isDir fvp ∧ ¬ isDir v then some .ENOTDIR
  else if ∃ v ∈ tvp, ¬ isDir fvp ∧ isDir v then some .EISDIR
  else if fvp = tdvp then some .EINVAL
  else none

/-- `rtems_bsd_vfs_rename`, from `again` on. -/
def renameAgain (k : Kernel) (olddvp newdvp : Vnode) : List RenameTry → Result
  | [] => .error .waiting
  | t :: ts =>
    let k := namei k (some olddvp) false false t.fromNd
    match t.fromNd with
    | .error e => .ok (some e, k)
    | .found _ none => .error .fault
    | .found fdvp (some fvp) =>
      let k := namei k (some newdvp) true true t.toNd
      match t.toNd with
      | .error e =>
        let e := if e = .EISDIR ∧ t.isDir fvp then .EINVAL else e
        .ok (some e, (k.ndfreePnbuf.vrele fdvp).vrele fvp)
      | .found tdvp tvp =>
        match t.start with
        | some _ => do
          let k := renameRelease k.ndfreePnbuf.ndfreePnbuf fdvp fvp tdvp tvp
          let k ← vreleOrFault k (startdirAfter t.toNd)
          let k := k.vreleIf (startdirAfter t.fromNd)
          match t.sleep with
          | some e => .ok (some e, k)
          | none => renameAgain k olddvp newdvp ts
        | none => do
          let k := k.startWrite
          let check := renameCheck t.isDir fvp tdvp tvp
          let error := if check = none then t.vop else check
          -- VOP_RENAME releases the four vnodes, as the code does if it is not called
          let k := renameRelease k fdvp fvp tdvp tvp
          let k := k.ndfreePnbuf.ndfreePnbuf
          let k ← vreleOrFault k (startdirAfter t.toNd)
          let k := k.finishedWrite
          .ok (error, k.vreleIf (startdirAfter t.fromNd))

/-- `rtems_bsd_vfs_rename` of `oldvp` in `olddvp` into `newdvp`. -/
def rtemsBsdVfsRename (k : Kernel) (olddvp oldvp newdvp : Vnode) (cn : Except Errno Vnode) (t : RenameTry)
    (ts : List RenameTry) : Result :=
  let k := vnodeComponentname k oldvp cn
  match cn with
  | .error e => .ok (some e, k)
  | .ok _ => renameAgain k olddvp newdvp (t :: ts)

end RtemsLibbsd.Vfs
