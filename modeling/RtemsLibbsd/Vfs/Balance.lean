import Mathlib.Tactic.Abel
import RtemsLibbsd.Vfs.Frame
import RtemsLibbsd.Vfs.Location

/-!
# References, locks, writes and name buffers across the file system calls

What `rtems_bsd_vfs_eval_token`, `rtems_bsd_vfs_link`, `rtems_bsd_vfs_rmnod`, `rtems_bsd_vfs_symlink` and
`rtems_bsd_vfs_rename` leave behind, on each of their exits.

* `Balanced` — locks, announced writes and name buffers are as before the call, and the use counts
  differ by the references of the evaluated location.
* `Clean` — the calls that keep the balance.  The evaluation of a token does if the lookup succeeds in the
  directory it starts at and need not lock it, or if it fails without a change of the root
  directory.  A link does if it is not made.  A call of the other three never does once it returns:
  `rmnod` and `rename` forget that `vn_vptocnp` consumes a reference and returns another one, `symlink` gives
  `pwd_chdir` a reference that it does not have, and `rename` releases the `ni_startdir` that `namei` has cleared.
* **`balanced_iff`** — over any sequence of calls, a call is balanced exactly if it is clean.

Use counts are sums of `one`s, so that the effect of a call is an equation in a group of functions and
`abel` does the bookkeeping.
-/

namespace RtemsLibbsd.Vfs

open RtemsLibbsd.Transition

def heldBy (k : Kernel) (i : Nat) : Vnode → Int := oneOf (k.access i .node) + oneOf (k.access i .dir)

/-- What changed between two states, apart from the references `Δ`. -/
structure Even (k k' : Kernel) (Δ : Vnode → Int) : Prop where
  usecount : k'.usecount = k.usecount + Δ
  locks : k'.locks = k.locks
  writes : k'.writes = k.writes
  names : k'.names = k.names

inductive Operation where
  | evalToken (currentloc rootloc : Nat) (vpp : Vnode) (t : Token)
  | link (tdvp svp : Vnode) (l : Linking)
  | rmnod (vp : Vnode) (root : Bool) (cn : Except Errno Vnode) (ts : List RmnodTry)
  | symlink (tdvp : Vnode) (ts : List SymlinkTry)
  | rename (olddvp oldvp newdvp : Vnode) (cn : Except Errno Vnode) (t : RenameTry) (ts : List RenameTry)

def Operation.exec (k : Kernel) : Operation → Except Stuck Kernel
  | .evalToken currentloc rootloc vpp t => .ok (rtemsBsdVfsEvalToken k currentloc rootloc vpp t).kernel
  | .link tdvp svp l => .ok (rtemsBsdVfsLink k tdvp svp l).2
  | .rmnod vp root cn ts => (rtemsBsdVfsRmnod k vp root cn ts).map Prod.snd
  | .symlink tdvp ts => (rtemsBsdVfsSymlink k tdvp ts).map Prod.snd
  | .rename olddvp oldvp newdvp cn t ts => (rtemsBsdVfsRename k olddvp oldvp newdvp cn t ts).map Prod.snd

def Operation.moved (k k' : Kernel) : Operation → Vnode → Int
  | .evalToken currentloc _ _ _ => heldBy k' currentloc - heldBy k currentloc
  | _ => 0

/-- **Every lock is as before, every write that was announced is finished, every name buffer is freed,
    and a use count has changed by the references of the evaluated location only.**  A call that waits has
    not returned; to release `NULL` is no balance. -/
def Balanced (k : Kernel) (c : Operation) : Prop :=
  match c.exec k with
  | .ok k' => Even k k' (c.moved k k')
  | .error .waiting => True
  | .error .fault => False

/-- The file system is suspended, and the sleep ends because it is no more. -/
def RmnodTry.Waits (t : RmnodTry) : Prop := t.start ≠ none ∧ t.sleep = none

/-- The environments in which an operation takes an exit that leaves every count as it has to be. -/
def Clean (k : Kernel) : Operation → Prop
  | .evalToken _ rootloc vpp t =>
    t.Early k rootloc vpp ∨
      match t.namei with
      | .error _ => k.Refused ∨ k.pwd.jdir ≠ none ∧ k.pwd.rdir = k.rootvnode
      | .found dvp vp => (k.Refused ∨ k.pwd.jdir ≠ none) ∧ dvp = vpp ∧ (t.create = false ∨ vp = some dvp)
  | .link tdvp svp l => l.mount svp ≠ l.mount tdvp ∨ l.start ≠ none
  | .rmnod _ root cn ts => (∃ dvp, cn = .ok dvp) ∧ ∀ t ∈ ts, root = false ∧ t.Waits
  | .symlink _ ts => ∀ t ∈ ts, t.Waits
  | .rename _ _ _ _ _ _ => False

section Sums

variable {a b p : Vnode} {g : Vnode → Int}

theorem one_ne_add (hg : ∀ v, 0 ≤ g v) : one p ≠ one a + one b + g := by
  intro h
  have ha := congrFun h a
  have hb := congrFun h b
  simp only [Pi.add_apply, one_apply] at ha hb
  grind

theorem one_nonneg (v w : Vnode) : 0 ≤ one v w := by
  rw [one_apply]
  split <;> omega

theorem one_ne_zero (v : Vnode) : one v ≠ 0 := by
  intro h
  have := congrFun h v
  rw [one_self] at this
  cases this

end Sums

section Directories

variable (k : Kernel) (v : Vnode)

theorem usecount_pwdChdir : (k.pwdChdir v).usecount = k.usecount - one k.pwd.cdir := by
  show k.usecount + one k.pwd.rdir + oneOf k.pwd.jdir + one k.pwd.adir - one k.pwd.cdir - one k.pwd.rdir -
    oneOf k.pwd.jdir - one k.pwd.adir = _
  abel

/-- What `pwd_chroot` adds to the use counts. -/
def chrootCost : Vnode → Int :=
  if k.Refused then 0
  else one v + one v + (if k.pwd.jdir = none then one v else 0) - one k.pwd.rdir - one k.pwd.rdir

theorem usecount_pwdChroot : (k.pwdChroot v).usecount = k.usecount + chrootCost k v := by
  unfold Kernel.pwdChroot chrootCost
  by_cases hr : k.Refused
  · simp [if_pos hr]
  · rw [if_neg hr, if_neg hr]
    by_cases hj : k.pwd.jdir = none
    · simp only [hj, if_true]
      show k.usecount + one v + one v + one v + one k.pwd.cdir + oneOf none - one k.pwd.cdir - one k.pwd.rdir -
        oneOf k.pwd.jdir - one k.pwd.adir = _
      rw [hj, k.pwd.adir_eq]
      abel
    · simp only [hj, if_false]
      show k.usecount + one v + one v + one k.pwd.cdir + oneOf k.pwd.jdir - one k.pwd.cdir - one k.pwd.rdir -
        oneOf k.pwd.jdir - one k.pwd.adir = _
      rw [k.pwd.adir_eq]
      abel

/-- `pwd_chroot` changes nothing but use counts and the directories. -/
theorem others_pwdChroot : (k.pwdChroot v).locks = k.locks ∧ (k.pwdChroot v).writes = k.writes ∧
    (k.pwdChroot v).names = k.names ∧ (k.pwdChroot v).access = k.access := by
  unfold Kernel.pwdChroot
  simp only
  split
  · exact ⟨rfl, rfl, rfl, rfl⟩
  · split <;> exact ⟨rfl, rfl, rfl, rfl⟩

/-- There and back again: only a reference for `pwd_jdir` stays. -/
def jailed : Vnode → Int := if k.Refused ∨ k.pwd.jdir ≠ none then 0 else one k.rootvnode

theorem pwdChroot_of_refused (hr : k.Refused) : k.pwdChroot v = k := if_pos hr

theorem pwd_pwdChroot (hr : ¬ k.Refused) :
    (k.pwdChroot v).pwd.rdir = v ∧ (k.pwdChroot v).pwd.jdir = some (k.pwd.jdir.getD v) := by
  unfold Kernel.pwdChroot
  rw [if_neg hr]
  split <;> exact ⟨rfl, rfl⟩

theorem chrootCost_back {m : Kernel} (hroot : m.rootvnode = k.rootvnode) (hopen : m.dirOpen = k.dirOpen)
    (hrdir : m.pwd.rdir = (k.pwdChroot k.rootvnode).pwd.rdir)
    (hjdir : m.pwd.jdir = (k.pwdChroot k.rootvnode).pwd.jdir) :
    chrootCost k k.rootvnode + chrootCost m k.pwd.rdir = jailed k := by
  unfold chrootCost
  by_cases hr : k.Refused
  · rw [pwdChroot_of_refused k _ hr] at hrdir
    have hm : m.Refused := ⟨by rw [hrdir, hroot]; exact hr.1, by rw [hopen]; exact hr.2⟩
    have hjail : jailed k = 0 := if_pos (.inl hr)
    rw [if_pos hr, if_pos hm, hjail]
    rfl
  · obtain ⟨hrdir', hjdir'⟩ := pwd_pwdChroot k k.rootvnode hr
    rw [hrdir'] at hrdir
    rw [hjdir'] at hjdir
    have hm : ¬ m.Refused := fun h => h.1 (hrdir.trans hroot.symm)
    rw [if_neg hr, if_neg hm, hrdir, hjdir]
    by_cases hj : k.pwd.jdir = none
    · have hjail : jailed k = one k.rootvnode := if_neg (by simp [hr, hj])
      rw [hjail]
      simp only [hj, if_true, reduceCtorEq, if_false]
      abel
    · have hjail : jailed k = 0 := if_pos (.inr hj)
      rw [hjail]
      simp only [hj, if_false, reduceCtorEq]
      abel

end Directories

section EvalToken

variable {k : Kernel} {vpp dvp : Vnode} {vp : Option Vnode} {t : Token}

theorem namei_found (k : Kernel) (startdir : Option Vnode) (lockParent lockLeaf : Bool) (dvp : Vnode)
    (vp : Option Vnode) :
    (namei k startdir lockParent lockLeaf (.found dvp vp)).usecount =
        k.usecount - oneOf startdir + one dvp + oneOf vp ∧
      (namei k startdir lockParent lockLeaf (.found dvp vp)).locks = k.locks +
        (if lockParent ∧ vp ≠ some dvp then one dvp else 0) + (if lockLeaf then oneOf vp else 0) ∧
      (namei k startdir lockParent lockLeaf (.found dvp vp)).writes = k.writes ∧
      (namei k startdir lockParent lockLeaf (.found dvp vp)).names = k.names + 1 ∧
      (namei k startdir lockParent lockLeaf (.found dvp vp)).access = k.access ∧
      (namei k startdir lockParent lockLeaf (.found dvp vp)).pwd = k.pwd := by
  unfold namei
  simp only
  by_cases hp : lockParent = true ∧ vp ≠ some dvp
  · rw [if_pos hp, if_pos hp]
    refine ⟨rfl, ?_, rfl, rfl, rfl, rfl⟩
    cases lockLeaf with
    | true => rfl
    | false => exact (add_zero _).symm
  · rw [if_neg hp, if_neg hp, add_zero]
    refine ⟨rfl, ?_, rfl, rfl, rfl, rfl⟩
    cases lockLeaf with
    | true => rfl
    | false => exact (add_zero _).symm

theorem setLocation_spec (k : Kernel) (i : Nat) (dvp : Vnode) (vp : Option Vnode) :
    (setLocation k i dvp vp).usecount = k.usecount + (heldBy (setLocation k i dvp vp) i - heldBy k i) ∧
      (setLocation k i dvp vp).locks = k.locks ∧ (setLocation k i dvp vp).writes = k.writes ∧
      (setLocation k i dvp vp).names = k.names := by
  unfold setLocation
  by_cases hvp : vp ≠ none
  swap
  · rw [if_neg hvp]
    exact ⟨by simp, rfl, rfl, rfl⟩
  rw [if_pos hvp]
  obtain ⟨m, hm⟩ : ∃ m, m = exec k (rtemsBsdLibioLocSetVnode k i vp) := ⟨_, rfl⟩
  have hm' : m = { (Prim.store i .node vp).exec k with
      usecount := k.usecount - oneOf (k.access i .node) + oneOf vp } := hm.trans (exec_locSet .node k i vp)
  have hdir : m.access i .dir = k.access i .dir := by
    rw [hm']
    show (if i = i ∧ Field.dir = .node then vp else k.access i .dir) = _
    simp
  have hnode : m.access i .node = vp := by
    rw [hm']
    show (if i = i ∧ Field.node = .node then vp else k.access i .node) = _
    simp
  rw [← hm]
  have hn := exec_locSet .dir m i (some dvp)
  rw [show rtemsBsdLibioLocSetVnodeDir = locSet .dir from rfl, hn]
  refine ⟨?_, ?_, ?_, ?_⟩
  · have hheld : heldBy { (Prim.store i .dir (some dvp)).exec m with
        usecount := m.usecount - oneOf (m.access i .dir) + oneOf (some dvp) } i = oneOf vp + one dvp := by
      show oneOf (if i = i ∧ Field.node = .dir then some dvp else m.access i .node) +
        oneOf (if i = i ∧ Field.dir = .dir then some dvp else m.access i .dir) = _
      simp only [true_and, reduceCtorEq, if_false, if_true, hnode]
      rfl
    grind [oneOf, heldBy]
  · show m.locks = k.locks
    rw [hm']
    rfl
  · show m.writes = k.writes
    rw [hm']
    rfl
  · show m.names = k.names
    rw [hm']
    rfl

theorem chroot_rootvnode (d : Dirs) (v : Vnode) :
    (d.chroot v).rootvnode = d.rootvnode ∧ (d.chroot v).dirOpen = d.dirOpen := by
  unfold Dirs.chroot
  split <;> exact ⟨rfl, rfl⟩

theorem tokenKernel_spec (k : Kernel) (vpp : Vnode) :
    (tokenKernel k vpp).usecount = k.usecount + chrootCost k k.rootvnode + one vpp ∧
      (tokenKernel k vpp).locks = k.locks ∧ (tokenKernel k vpp).writes = k.writes ∧
      (tokenKernel k vpp).names = k.names ∧ (tokenKernel k vpp).access = k.access ∧
      (tokenKernel k vpp).pwd.cdir = vpp ∧
      (tokenKernel k vpp).pwd.rdir = (k.pwdChroot k.rootvnode).pwd.rdir ∧
      (tokenKernel k vpp).pwd.jdir = (k.pwdChroot k.rootvnode).pwd.jdir := by
  obtain ⟨hlocks, hwrites, hnames, haccess⟩ := others_pwdChroot (k.vref k.pwd.cdir) k.rootvnode
  have hdirs := dirs_pwdChroot (k.vref k.pwd.cdir) k.rootvnode
  refine ⟨?_, hlocks, hwrites, hnames, haccess, rfl, ?_, ?_⟩
  · show ((k.vref k.pwd.cdir).pwdChroot k.rootvnode |>.pwdChdir vpp).usecount + one vpp = _
    have hcdir : ((k.vref k.pwd.cdir).pwdChroot k.rootvnode).pwd.cdir = k.pwd.cdir := by
      have := congrArg Dirs.cdir hdirs
      rw [Dirs.chroot] at this
      split at this <;> exact this
    have hcost : chrootCost (k.vref k.pwd.cdir) k.rootvnode = chrootCost k k.rootvnode := rfl
    rw [usecount_pwdChdir, usecount_pwdChroot, hcdir, hcost]
    show k.usecount + one k.pwd.cdir + _ - one k.pwd.cdir + _ = _
    abel
  · by_cases hr : k.Refused
    · show ((k.vref k.pwd.cdir).pwdChroot k.rootvnode).pwd.rdir = _
      rw [pwdChroot_of_refused k _ hr, pwdChroot_of_refused (k.vref k.pwd.cdir) _ hr]
      rfl
    · show ((k.vref k.pwd.cdir).pwdChroot k.rootvnode).pwd.rdir = _
      rw [(pwd_pwdChroot k _ hr).1, (pwd_pwdChroot (k.vref k.pwd.cdir) _ hr).1]
  · by_cases hr : k.Refused
    · show ((k.vref k.pwd.cdir).pwdChroot k.rootvnode).pwd.jdir = _
      rw [pwdChroot_of_refused k _ hr, pwdChroot_of_refused (k.vref k.pwd.cdir) _ hr]
      rfl
    · show ((k.vref k.pwd.cdir).pwdChroot k.rootvnode).pwd.jdir = _
      rw [(pwd_pwdChroot k _ hr).2, (pwd_pwdChroot (k.vref k.pwd.cdir) _ hr).2]
      rfl

theorem evalTokenAt_error (k : Kernel) (currentloc rootloc : Nat) {e : Errno} (hn : t.namei = .error e) :
    (evalTokenAt k currentloc rootloc vpp t).kernel.usecount = k.usecount + chrootCost k k.rootvnode ∧
      (evalTokenAt k currentloc rootloc vpp t).kernel.locks = k.locks ∧
      (evalTokenAt k currentloc rootloc vpp t).kernel.writes = k.writes ∧
      (evalTokenAt k currentloc rootloc vpp t).kernel.names = k.names ∧
      (evalTokenAt k currentloc rootloc vpp t).kernel.access = k.access := by
  have hkernel : (evalTokenAt k currentloc rootloc vpp t).kernel = (tokenKernel k vpp).vreleIf (some vpp) := by
    unfold evalTokenAt
    rw [hn]
    rfl
  obtain ⟨huse, hlocks, hwrites, hnames, haccess, -⟩ := tokenKernel_spec k vpp
  rw [hkernel]
  refine ⟨?_, hlocks, hwrites, hnames, haccess⟩
  show (tokenKernel k vpp).usecount - one vpp = _
  rw [huse]
  abel

theorem evalTokenAt_found (k : Kernel) (currentloc rootloc : Nat) (hn : t.namei = .found dvp vp) :
    (evalTokenAt k currentloc rootloc vpp t).kernel.usecount = k.usecount + jailed k + one dvp - one vpp +
        (heldBy (evalTokenAt k currentloc rootloc vpp t).kernel currentloc - heldBy k currentloc) ∧
      (evalTokenAt k currentloc rootloc vpp t).kernel.locks =
        k.locks + (if t.create = true ∧ vp ≠ some dvp then one dvp else 0) ∧
      (evalTokenAt k currentloc rootloc vpp t).kernel.writes = k.writes ∧
      (evalTokenAt k currentloc rootloc vpp t).kernel.names = k.names := by
  obtain ⟨m, hm⟩ : ∃ m, m = namei (tokenKernel k vpp) (some vpp) t.create false (.found dvp vp) := ⟨_, rfl⟩
  obtain ⟨n, hn'⟩ : ∃ n, n = (m.pwdChroot k.pwd.rdir).pwdChdir k.pwd.cdir := ⟨_, rfl⟩
  have hkernel : (evalTokenAt k currentloc rootloc vpp t).kernel =
      (setLocation n currentloc dvp vp).ndfreePnbuf.vreleIf vp := by
    unfold evalTokenAt
    rw [hn, hn', hm]
    rfl
  obtain ⟨huse, hlocks, hwrites, hnames, haccess, hcdir, hrdir, hjdir⟩ := tokenKernel_spec k vpp
  obtain ⟨muse, mlocks, mwrites, mnames, maccess, mpwd⟩ :=
    namei_found (tokenKernel k vpp) (some vpp) t.create false dvp vp
  rw [← hm] at muse mlocks mwrites mnames maccess mpwd
  obtain ⟨clocks, cwrites, cnames, caccess⟩ := others_pwdChroot m k.pwd.rdir
  have hdirs : m.dirs = ((k.vref k.pwd.cdir).dirs.chroot k.rootvnode).chdir vpp := by
    rw [hm, dirs_namei, tokenKernel, dirs_vref, dirs_pwdChdir, dirs_pwdChroot]
  have hkeep := chroot_rootvnode (k.vref k.pwd.cdir).dirs k.rootvnode
  have hback := @chrootCost_back k m ((congrArg Dirs.rootvnode hdirs).trans hkeep.1)
    ((congrArg Dirs.dirOpen hdirs).trans hkeep.2) (by rw [mpwd, hrdir]) (by rw [mpwd, hjdir])
  have nuse : n.usecount = k.usecount + jailed k + one dvp + oneOf vp - one vpp := by
    have hcdir' : (m.pwdChroot k.pwd.rdir).pwd.cdir = vpp := by
      have := congrArg Dirs.cdir (dirs_pwdChroot m k.pwd.rdir)
      rw [Dirs.chroot, hdirs] at this
      split at this <;> exact this
    grind [usecount_pwdChdir, usecount_pwdChroot, oneOf]
  obtain ⟨suse, slocks, swrites, snames⟩ := setLocation_spec n currentloc dvp vp
  have hheld : heldBy n currentloc = heldBy k currentloc := by
    unfold heldBy
    have : n.access = k.access := by
      rw [hn']
      exact caccess.trans (maccess.trans haccess)
    rw [this]
  rw [hkernel]
  refine ⟨?_, ?_, ?_, ?_⟩
  · show (setLocation n currentloc dvp vp).usecount - oneOf vp = k.usecount + jailed k + one dvp - one vpp +
      (heldBy (setLocation n currentloc dvp vp) currentloc - heldBy k currentloc)
    rw [suse, nuse, hheld]
    abel
  · show (setLocation n currentloc dvp vp).locks = _
    rw [slocks, hn']
    show (m.pwdChroot k.pwd.rdir).locks = _
    rw [clocks, mlocks, hlocks]
    exact add_zero _
  · show (setLocation n currentloc dvp vp).writes = _
    rw [swrites, hn']
    exact cwrites.trans (mwrites.trans hwrites)
  · show (setLocation n currentloc dvp vp).names - 1 = _
    rw [snames, hn']
    show (m.pwdChroot k.pwd.rdir).names - 1 = _
    omega

theorem add_eq_self_iff {a b : Vnode → Int} : a + b = a ↔ b = 0 := by
  constructor
  · intro h
    funext v
    have hv := congrFun h v
    simp only [Pi.add_apply] at hv
    show b v = 0
    omega
  · rintro rfl
    exact add_zero a

theorem chrootCost_eq_zero_iff (k : Kernel) :
    chrootCost k k.rootvnode = 0 ↔ k.Refused ∨ k.pwd.jdir ≠ none ∧ k.pwd.rdir = k.rootvnode := by
  unfold chrootCost
  by_cases hr : k.Refused
  · rw [if_pos hr]
    exact iff_of_true rfl (.inl hr)
  · rw [if_neg hr]
    simp only [hr, false_or]
    constructor
    · intro h
      have hroot := congrFun h k.rootvnode
      simp only [Pi.sub_apply, Pi.add_apply, one_self, Pi.zero_apply, one_apply k.pwd.rdir] at hroot
      by_cases hrdir : k.rootvnode = k.pwd.rdir
      · refine ⟨fun hj => ?_, hrdir.symm⟩
        rw [if_pos hj, one_self, if_pos hrdir] at hroot
        omega
      · split at hroot
        · rw [one_self] at hroot
          omega
        · simp at hroot
    · rintro ⟨hj, hrdir⟩
      rw [if_neg hj, hrdir]
      abel

theorem lookup_eq_iff (k : Kernel) (dvp vpp : Vnode) :
    jailed k + one dvp - one vpp = 0 ↔ (k.Refused ∨ k.pwd.jdir ≠ none) ∧ dvp = vpp := by
  unfold jailed
  by_cases hj : k.Refused ∨ k.pwd.jdir ≠ none
  · rw [if_pos hj]
    simp only [hj, true_and]
    constructor
    · intro h
      refine one_injective ?_
      rw [zero_add, sub_eq_zero] at h
      exact h
    · rintro rfl
      abel
  · rw [if_neg hj]
    refine iff_of_false ?_ (fun h => hj h.1)
    intro h
    rw [sub_eq_zero] at h
    exact one_ne_add (fun _ => le_rfl) (h.symm.trans (add_zero _).symm)

theorem balanced_evalToken (k : Kernel) (currentloc rootloc : Nat) (vpp : Vnode) (t : Token) :
    Balanced k (.evalToken currentloc rootloc vpp t) ↔ Clean k (.evalToken currentloc rootloc vpp t) := by
  show Even k (rtemsBsdVfsEvalToken k currentloc rootloc vpp t).kernel
    (heldBy (rtemsBsdVfsEvalToken k currentloc rootloc vpp t).kernel currentloc - heldBy k currentloc) ↔ _
  unfold Clean
  by_cases hearly : t.Early k rootloc vpp
  · have hkernel : (rtemsBsdVfsEvalToken k currentloc rootloc vpp t).kernel = k := by
      grind [rtemsBsdVfsEvalToken, Token.Early]
    rw [hkernel]
    exact iff_of_true ⟨by simp, rfl, rfl, rfl⟩ (.inl hearly)
  · have hat : rtemsBsdVfsEvalToken k currentloc rootloc vpp t = evalTokenAt k currentloc rootloc vpp t := by
      unfold rtemsBsdVfsEvalToken
      rw [if_neg (fun h => hearly (.inl h)), if_neg (fun h => hearly (.inr (.inl h))),
        if_neg (fun h => hearly (.inr (.inr h)))]
    rw [hat]
    simp only [hearly, false_or]
    cases hn : t.namei with
    | error e =>
      obtain ⟨huse, hlocks, hwrites, hnames, haccess⟩ := @evalTokenAt_error vpp t k currentloc rootloc e hn
      rw [← chrootCost_eq_zero_iff]
      have hheld : heldBy (evalTokenAt k currentloc rootloc vpp t).kernel currentloc = heldBy k currentloc := by
        unfold heldBy
        rw [haccess]
      rw [hheld, sub_self]
      constructor
      · intro h
        have := h.usecount
        rw [huse, add_zero] at this
        exact add_eq_self_iff.mp this
      · intro h
        exact ⟨by rw [huse, h], hlocks, hwrites, hnames⟩
    | found dvp vp =>
      obtain ⟨huse, hlocks, hwrites, hnames⟩ := @evalTokenAt_found vpp dvp vp t k currentloc rootloc hn
      simp only
      rw [← and_assoc, ← lookup_eq_iff]
      have hsum : k.usecount + jailed k + one dvp - one vpp = k.usecount + (jailed k + one dvp - one vpp) := by
        abel
      have hkept : (t.create = false ∨ vp = some dvp) ↔ ¬ (t.create = true ∧ vp ≠ some dvp) := by
        rw [not_and_or, not_not, Bool.not_eq_true]
      rw [hkept]
      constructor
      · intro h
        constructor
        · grind [h.usecount]
        · intro hlock
          have := h.locks
          rw [hlocks, if_pos hlock] at this
          exact one_ne_zero dvp (add_eq_self_iff.mp this)
      · rintro ⟨hzero, hlock⟩
        refine ⟨?_, ?_, hwrites, hnames⟩
        · rw [huse, hsum, hzero, add_zero]
        · rw [hlocks, if_neg hlock, add_zero]

end EvalToken

section Others

variable {k k' : Kernel} {c : Operation}

theorem balanced_of_ok (h : c.exec k = .ok k') : Balanced k c ↔ Even k k' (c.moved k k') := by
  unfold Balanced
  rw [h]

theorem balanced_of_waiting (h : c.exec k = .error .waiting) : Balanced k c := by
  unfold Balanced
  rw [h]
  trivial

theorem balanced_link (k : Kernel) (tdvp svp : Vnode) (l : Linking) :
    Balanced k (.link tdvp svp l) ↔ Clean k (.link tdvp svp l) := by
  show Even k (rtemsBsdVfsLink k tdvp svp l).2 0 ↔ l.mount svp ≠ l.mount tdvp ∨ l.start ≠ none
  unfold rtemsBsdVfsLink
  by_cases hmount : l.mount svp ≠ l.mount tdvp
  · rw [if_pos hmount]
    exact iff_of_true ⟨(add_zero _).symm, rfl, rfl, rfl⟩ (.inl hmount)
  · rw [if_neg hmount]
    cases hs : l.start with
    | some e =>
      refine iff_of_true ?_ (.inr (by simp))
      have heven : Even k (((k.vref tdvp).vnLock tdvp).vput tdvp) 0 := by
        refine ⟨?_, ?_, rfl, rfl⟩
        · show k.usecount + one tdvp - one tdvp = k.usecount + 0
          abel
        · show k.locks + one tdvp - one tdvp = k.locks
          abel
      cases l.sleep with
      | none => exact heven
      | some e' => exact heven
    | none =>
      refine iff_of_false ?_ (by simp [hmount])
      intro h
      have := h.writes
      have : k.writes + 1 = k.writes := this
      omega

theorem rmnodRestart_spec (k : Kernel) (root : Bool) (ts : List RmnodTry) :
    ((∀ t ∈ ts, root = false ∧ t.Waits) ∧ rmnodRestart k root ts = .error .waiting) ∨
      (¬ (∀ t ∈ ts, root = false ∧ t.Waits) ∧
        ∃ r, rmnodRestart k root ts = .ok r ∧ r.2.usecount = k.usecount) := by
  induction ts with
  | nil => exact .inl ⟨fun t ht => (by cases ht), rfl⟩
  | cons t ts ih =>
    have hends : ¬ (root = false ∧ t.Waits) → ¬ ∀ u ∈ t :: ts, root = false ∧ u.Waits :=
      fun h hall => h (hall t List.mem_cons_self)
    unfold rmnodRestart
    cases root with
    | true =>
      exact .inr ⟨hends (fun h => (by cases h.1)), _, rfl, rfl⟩
    | false =>
      cases hs : t.start with
      | none => exact .inr ⟨hends (fun h => h.2.1 hs), _, rfl, rfl⟩
      | some e =>
        cases hsleep : t.sleep with
        | some e' =>
          refine .inr ⟨hends (fun h => ?_), _, rfl, rfl⟩
          have := h.2.2
          rw [hsleep] at this
          cases this
        | none =>
          have hwaits : t.Waits := ⟨by simp [hs], hsleep⟩
          grind

/-- `rtems_bsd_vfs_rmnod`: the parent that `vn_vptocnp` returns is never released. -/
theorem balanced_rmnod (k : Kernel) (vp : Vnode) (root : Bool) (cn : Except Errno Vnode) (ts : List RmnodTry) :
    Balanced k (.rmnod vp root cn ts) ↔ Clean k (.rmnod vp root cn ts) := by
  cases cn with
  | error e =>
    refine iff_of_false ?_ (fun h => ?_)
    · intro h
      have huse : k.usecount - one vp = k.usecount + 0 := h.usecount
      rw [add_zero, sub_eq_add_neg] at huse
      exact one_ne_zero vp (neg_eq_zero.mp (add_eq_self_iff.mp huse))
    · obtain ⟨⟨dvp, h⟩, -⟩ := h
      cases h
  | ok dvp =>
    rcases rmnodRestart_spec (((k.vref dvp).vrele vp).vref vp) root ts with ⟨hall, he⟩ | ⟨hnot, r, hr, huse⟩
    · have hexec : (Operation.rmnod vp root (.ok dvp) ts).exec k = .error .waiting := by
        show (rmnodRestart (((k.vref dvp).vrele vp).vref vp) root ts).map Prod.snd = _
        rw [he]
        rfl
      exact iff_of_true (balanced_of_waiting hexec) ⟨⟨dvp, rfl⟩, hall⟩
    · have hexec : (Operation.rmnod vp root (.ok dvp) ts).exec k = .ok r.2 := by
        show (rmnodRestart (((k.vref dvp).vrele vp).vref vp) root ts).map Prod.snd = _
        rw [hr]
        rfl
      rw [balanced_of_ok hexec]
      refine iff_of_false ?_ (fun h => hnot h.2)
      intro h
      have heven : r.2.usecount = k.usecount + 0 := h.usecount
      have hsum : r.2.usecount = k.usecount + one dvp := by
        rw [huse]
        show k.usecount + one dvp - one vp + one vp = _
        abel
      rw [hsum, add_zero] at heven
      exact one_ne_zero dvp (add_eq_self_iff.mp heven)

/-- The attempts of `rtems_bsd_vfs_symlink`: if the call returns, it has added nothing, or a lock is left. -/
theorem symlinkRestart_spec (ts : List SymlinkTry) :
    ∀ k : Kernel, ((∀ t ∈ ts, t.Waits) ∧ symlinkRestart k ts = .error .waiting) ∨
      (¬ (∀ t ∈ ts, t.Waits) ∧ ∃ r, symlinkRestart k ts = .ok r ∧
        (r.2.usecount = k.usecount ∨ ∃ v, r.2.locks = k.locks + one v)) := by
  induction ts with
  | nil => exact fun k => .inl ⟨fun t ht => (by cases ht), rfl⟩
  | cons t ts ih =>
    intro k
    have hends : ¬ t.Waits → ¬ ∀ u ∈ t :: ts, u.Waits := fun h hall => h (hall t List.mem_cons_self)
    unfold symlinkRestart
    cases hn : t.namei with
    | error e =>
      refine .inr ⟨hends ?_, _, rfl, .inl ?_⟩
      · rintro ⟨⟨dvp, h⟩, -⟩
        rw [hn] at h
        cases h
      · exact sub_zero _
    | found dvp vp =>
      obtain ⟨m, hm⟩ : ∃ m, m = namei k none true false (.found dvp vp) := ⟨_, rfl⟩
      obtain ⟨muse, mlocks, -⟩ := namei_found k none true false dvp vp
      rw [← hm] at muse mlocks ⊢
      cases vp with
      | some v =>
        refine .inr ⟨hends ?_, _, rfl, .inl ?_⟩
        · rintro ⟨⟨dvp', h⟩, -⟩
          rw [hn] at h
          cases h
        · have hparent : (m.ndfreePnbuf.vputParent dvp (some v)).usecount = m.usecount - one dvp := by
            unfold Kernel.vputParent
            split <;> rfl
          show (m.ndfreePnbuf.vputParent dvp (some v)).usecount - one v = _
          rw [hparent, muse]
          show k.usecount - 0 + one dvp + one v - one dvp - one v = _
          abel
      | none =>
        have hlock : m.locks = k.locks + one dvp := by
          rw [mlocks]
          simp
        have huse : m.usecount = k.usecount + one dvp := by
          rw [muse]
          show k.usecount - 0 + one dvp + 0 = _
          abel
        cases hs : t.start with
        | none =>
          have hnot : ¬ t.Waits := fun h => h.2.1 hs
          cases t.vop with
          | error e => exact .inr ⟨hends hnot, _, rfl, .inr ⟨dvp, hlock⟩⟩
          | ok v =>
            refine .inr ⟨hends hnot, _, rfl, .inr ⟨v, ?_⟩⟩
            show m.locks + one v - one dvp = _
            rw [hlock]
            abel
        | some e =>
          cases hsleep : t.sleep with
          | some e' =>
            refine .inr ⟨hends ?_, _, rfl, .inl ?_⟩
            · rintro ⟨-, -, h⟩
              rw [hsleep] at h
              cases h
            · show m.usecount - one dvp = _
              rw [huse]
              abel
          | none =>
            have hwaits : t.Waits := ⟨⟨dvp, hn⟩, by simp [hs], hsleep⟩
            have hback : (m.ndfreePnbuf.vput dvp).usecount = k.usecount ∧
                (m.ndfreePnbuf.vput dvp).locks = k.locks := by
              constructor
              · show m.usecount - one dvp = _
                rw [huse]
                abel
              · show m.locks - one dvp = _
                rw [hlock]
                abel
            grind

/-- `rtems_bsd_vfs_symlink`: `pwd_chdir` takes over a reference that the call does not have. -/
theorem balanced_symlink (k : Kernel) (tdvp : Vnode) (ts : List SymlinkTry) :
    Balanced k (.symlink tdvp ts) ↔ Clean k (.symlink tdvp ts) := by
  rcases symlinkRestart_spec ts (k.pwdChdir tdvp) with ⟨hall, he⟩ | ⟨hnot, r, hr, heffect⟩
  · have hexec : (Operation.symlink tdvp ts).exec k = .error .waiting := by
      show (symlinkRestart (k.pwdChdir tdvp) ts).map Prod.snd = _
      rw [he]
      rfl
    exact iff_of_true (balanced_of_waiting hexec) hall
  · have hexec : (Operation.symlink tdvp ts).exec k = .ok r.2 := by
      show (symlinkRestart (k.pwdChdir tdvp) ts).map Prod.snd = _
      rw [hr]
      rfl
    rw [balanced_of_ok hexec]
    refine iff_of_false ?_ hnot
    intro h
    rcases heffect with huse | ⟨v, hlocks⟩
    · have heven : r.2.usecount = k.usecount + 0 := h.usecount
      grind [usecount_pwdChdir, one_ne_zero]
    · have heven : r.2.locks = k.locks := h.locks
      rw [hlocks] at heven
      exact one_ne_zero v (add_eq_self_iff.mp heven)

theorem unbalanced {u : Vnode → Int} {p a b : Vnode} {g : Vnode → Int} (hg : ∀ v, 0 ≤ g v) :
    u + one p - one a - one b - g ≠ u := by
  intro h
  have hsum : u + (one p - (one a + one b + g)) = u := by
    refine Eq.trans ?_ h
    abel
  exact one_ne_add hg (sub_eq_zero.mp (add_eq_self_iff.mp hsum))

/-- An attempt of `rtems_bsd_vfs_rename`: the two directories lose the reference that `namei` consumes, or
    the call gets to the release of `ni_startdir`. -/
theorem renameAgain_spec (k : Kernel) (olddvp newdvp : Vnode) (t : RenameTry) (ts : List RenameTry) :
    renameAgain k olddvp newdvp (t :: ts) = .error .fault ∨
      ∃ r g, renameAgain k olddvp newdvp (t :: ts) = .ok r ∧ (∀ v, 0 ≤ g v) ∧
        r.2.usecount = k.usecount - one olddvp - g := by
  unfold renameAgain
  cases t.fromNd with
  | error e => exact .inr ⟨_, 0, rfl, fun _ => le_rfl, (sub_zero _).symm⟩
  | found fdvp fvp =>
    cases fvp with
    | none => exact .inl rfl
    | some fvp =>
      obtain ⟨muse, -⟩ := namei_found k (some olddvp) false false fdvp (some fvp)
      obtain ⟨m, hm⟩ : ∃ m, m = namei k (some olddvp) false false (.found fdvp (some fvp)) := ⟨_, rfl⟩
      rw [← hm] at muse
      simp only [← hm]
      cases t.toNd with
      | error e =>
        refine .inr ⟨_, one newdvp, rfl, one_nonneg newdvp, ?_⟩
        show m.usecount - one newdvp - one fdvp - one fvp = _
        rw [muse]
        show k.usecount - one olddvp + one fdvp + one fvp - one newdvp - one fdvp - one fvp = _
        abel
      | found tdvp tvp =>
        cases t.start with
        | none => exact .inl rfl
        | some e => exact .inl rfl

theorem balanced_rename (k : Kernel) (olddvp oldvp newdvp : Vnode) (cn : Except Errno Vnode) (t : RenameTry)
    (ts : List RenameTry) : ¬ Balanced k (.rename olddvp oldvp newdvp cn t ts) := by
  cases cn with
  | error e =>
    intro h
    have huse : k.usecount - one oldvp = k.usecount + 0 := h.usecount
    rw [add_zero, sub_eq_add_neg] at huse
    exact one_ne_zero oldvp (neg_eq_zero.mp (add_eq_self_iff.mp huse))
  | ok dvp =>
    rcases renameAgain_spec ((k.vref dvp).vrele oldvp) olddvp newdvp t ts with hf | ⟨r, g, hr, hg, huse⟩
    · have hexec : (Operation.rename olddvp oldvp newdvp (.ok dvp) t ts).exec k = .error .fault := by
        show (renameAgain ((k.vref dvp).vrele oldvp) olddvp newdvp (t :: ts)).map Prod.snd = _
        rw [hf]
        rfl
      unfold Balanced
      rw [hexec]
      exact id
    · have hexec : (Operation.rename olddvp oldvp newdvp (.ok dvp) t ts).exec k = .ok r.2 := by
        show (renameAgain ((k.vref dvp).vrele oldvp) olddvp newdvp (t :: ts)).map Prod.snd = _
        rw [hr]
        rfl
      rw [balanced_of_ok hexec]
      intro h
      have heven : r.2.usecount = k.usecount + 0 := h.usecount
      rw [huse, add_zero] at heven
      exact unbalanced hg heven

end Others

theorem balanced_call_iff (k : Kernel) (c : Operation) : Balanced k c ↔ Clean k c := by
  cases c with
  | evalToken currentloc rootloc vpp t => exact balanced_evalToken k currentloc rootloc vpp t
  | link tdvp svp l => exact balanced_link k tdvp svp l
  | rmnod vp root cn ts => exact balanced_rmnod k vp root cn ts
  | symlink tdvp ts => exact balanced_symlink k tdvp ts
  | rename olddvp oldvp newdvp cn t ts =>
    exact iff_of_false (balanced_rename k olddvp oldvp newdvp cn t ts) id

def Operation.step (k : Kernel) (c : Operation) : Option Kernel := (c.exec k).toOption

/-- **Balance of references, locks, writes and name buffers.**  In every sequence of calls, each call
    is balanced exactly if it is clean. -/
theorem balanced_iff (k : Kernel) (cs : List Operation) :
    StepsMeet Operation.step Balanced k cs ↔ StepsMeet Operation.step Clean k cs :=
  stepsMeet_congr balanced_call_iff cs k

/-- A link that is made leaves a reference on the directory, and the write is not finished. -/
theorem link_leaks :
    ¬ StepsMeet Operation.step Balanced rootKernel [.link 5 6 ⟨fun _ => 0, none, none, none⟩] := by
  rintro ⟨hbalanced, -⟩
  have hwrites := hbalanced.writes
  cases hwrites

end RtemsLibbsd.Vfs
