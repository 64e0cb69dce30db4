import Mathlib.Algebra.Group.Int.Defs
import Mathlib.Algebra.Group.Pi.Basic
import Mathlib.Algebra.Ring.Int.Defs

/-!
# Vnodes, and what the file system calls do to them

The part of the FreeBSD kernel that `rtemsbsd/rtems/rtems-kernel-vfs.c` and
`rtemsbsd/rtems/rtems-bsd-libio.c` work on: use counts, locks, the writes that have been announced
to a file system, name buffers, the process-wide directories, and the locations of RTEMS.

* `vref`, `vrele`, `vput`, `vnLock`, `vopUnlock` — with counts in `Int`, so that a release too many
  shows as a negative count.  Counts are functions of the vnode, and an operation adds or subtracts `one`.
* `Prim`, `exec` — the primitives that the functions on locations consist of.
* `rtemsBsdLibioLocSetVnode`, `rtemsBsdVfsClonenode`, `rtemsBsdVfsFreenode` — as lists of primitives,
  so that the states inside a call can be spoken about.

A use count is a 32-bit number; there are never that many references, since each one is held by an
object in memory.
-/

namespace RtemsLibbsd.Vfs

abbrev Vnode := Nat

/-- `node_access` and `node_access_2` of a location. -/
inductive Field where
  | node
  | dir
  deriving DecidableEq

/-- `struct pwd`.  The directories are there once the root file system is mounted, and nothing sets an
    alternative root with `pwd_altroot`. -/
structure Pwd where
  cdir : Vnode
  rdir : Vnode
  jdir : Option Vnode
  adir : Vnode
  adir_eq : adir = rdir

/-- All directories of a process are `v`. -/
def Pwd.allAt (v : Vnode) (jdir : Option Vnode) : Pwd := ⟨v, v, jdir, v, rfl⟩

/-- `dirOpen` says that a directory is among the open files. -/
structure Kernel where
  usecount : Vnode → Int
  locks : Vnode → Int
  writes : Int
  names : Int
  pwd : Pwd
  rootvnode : Vnode
  dirOpen : Bool
  locs : Nat
  access : Nat → Field → Option Vnode

def one (v : Vnode) : Vnode → Int := Pi.single v 1

theorem one_apply (v w : Vnode) : one v w = if w = v then 1 else 0 := by
  unfold one
  by_cases h : w = v
  · subst h
    simp
  · simp [h]

theorem one_self (v : Vnode) : one v v = 1 := by simp [one_apply]

theorem one_of_ne {v w : Vnode} (h : w ≠ v) : one v w = 0 := by simp [one_apply, h]

def oneOf (vp : Option Vnode) : Vnode → Int := vp.elim 0 one

theorem oneOf_apply (vp : Option Vnode) (v : Vnode) : oneOf vp v = if vp = some v then 1 else 0 := by
  cases vp with
  | none => simp [oneOf]
  | some w =>
    show one w v = _
    rw [one_apply]
    simp [eq_comm]

theorem one_injective {v w : Vnode} (h : one v = one w) : v = w := by
  by_contra hne
  have := congrFun h v
  rw [one_self, one_of_ne hne] at this
  cases this

namespace Kernel

variable (k : Kernel)

/-- `vref`, `VREF` and `vrefact`. -/
def vref (v : Vnode) : Kernel := { k with usecount := k.usecount + one v }

def vrele (v : Vnode) : Kernel := { k with usecount := k.usecount - one v }

def vnLock (v : Vnode) : Kernel := { k with locks := k.locks + one v }

def vopUnlock (v : Vnode) : Kernel := { k with locks := k.locks - one v }

def vput (v : Vnode) : Kernel := (k.vrele v).vopUnlock v

end Kernel

inductive Prim where
  | vref (v : Vnode)
  | vrele (v : Vnode)
  | store (i : Nat) (f : Field) (vp : Option Vnode)
  | copy (i : Nat)
  deriving DecidableEq

/-- `copy` makes a new location, the one with the next number. -/
def Prim.exec (k : Kernel) : Prim → Kernel
  | .vref v => k.vref v
  | .vrele v => k.vrele v
  | .store i f vp =>
    { k with access := fun j g => if j = i ∧ g = f then vp else k.access j g }
  | .copy i =>
    { k with
      access := fun j g => if j = k.locs then k.access i g else k.access j g
      locs := k.locs + 1 }

def exec (k : Kernel) (ps : List Prim) : Kernel := ps.foldl Prim.exec k

theorem exec_append (k : Kernel) (ps qs : List Prim) : exec k (ps ++ qs) = exec (exec k ps) qs :=
  List.foldl_append

/-- `vrele` and `VREF` of a vnode that may be missing. -/
def vreleOf (vp : Option Vnode) : List Prim := (vp.map Prim.vrele).toList

def vrefOf (vp : Option Vnode) : List Prim := (vp.map Prim.vref).toList

/-- `rtems_bsd_libio_loc_set_vnode` and `rtems_bsd_libio_loc_set_vnode_dir`. -/
def locSet (f : Field) (k : Kernel) (i : Nat) (vp : Option Vnode) : List Prim :=
  let old := k.access i f
  if vp ≠ old then vreleOf old ++ vrefOf vp ++ [.store i f vp] else []

def rtemsBsdLibioLocSetVnode : Kernel → Nat → Option Vnode → List Prim := locSet .node

def rtemsBsdLibioLocSetVnodeDir : Kernel → Nat → Option Vnode → List Prim := locSet .dir

/-- `rtems_bsd_vfs_clonenode` of the location `i`: `rtems_bsd_vfs_loc_hold`. -/
def rtemsBsdVfsClonenode (k : Kernel) (i : Nat) : List Prim :=
  vrefOf (k.access i .node) ++ vrefOf (k.access i .dir)

/-- `rtems_bsd_vfs_freenode`: `rtems_bsd_vfs_loc_drop`. -/
def rtemsBsdVfsFreenode (k : Kernel) (i : Nat) : List Prim :=
  let ps := rtemsBsdLibioLocSetVnode k i none
  ps ++ rtemsBsdLibioLocSetVnodeDir (exec k ps) i none

/-- `rtems_filesystem_location_clone`: the location is copied and the copy is held. -/
def locationClone (k : Kernel) (i : Nat) : List Prim :=
  .copy i :: rtemsBsdVfsClonenode ((Prim.copy i).exec k) k.locs

end RtemsLibbsd.Vfs
