import RtemsLibbsd.Transition
import RtemsLibbsd.Vfs.Calls

/-!
# The working directory as a frame of the file system calls

`rtems_bsd_vfs_eval_token`, `rtems_bsd_sysgen_open_node`, `rtems_bsd_vfs_mknod` and `rtems_bsd_vfs_symlink` change
the current and the root directory of the process to steer `namei`.

* `Dirs` — what the directories of a kernel depend on, and what each primitive does to it.
* `Framed` — a call that returns leaves both directories as they were.
* `Restores` — the call does not get to an exit on which the directories are not restored: a lookup
  or an open that fails, and every exit of `mknod` and `symlink`, leave the directory of the call as the
  current one; an open of a directory may not get the root directory back, because `pwd_chroot` is
  refused while a directory is open and the root directory is another one.
* **`framed_iff`** — over any sequence of calls, a call is framed exactly if it restores.
-/

namespace RtemsLibbsd.Vfs

open RtemsLibbsd.Transition

/-- The directories of the process, and what decides whether `pwd_chroot` is refused. -/
structure Dirs where
  cdir : Vnode
  rdir : Vnode
  rootvnode : Vnode
  dirOpen : Bool

def Kernel.dirs (k : Kernel) : Dirs := ⟨k.pwd.cdir, k.pwd.rdir, k.rootvnode, k.dirOpen⟩

def Dirs.chdir (d : Dirs) (v : Vnode) : Dirs := { d with cdir := v }

def Dirs.Refused (d : Dirs) : Prop := d.rdir ≠ d.rootvnode ∧ d.dirOpen = true

instance (d : Dirs) : Decidable d.Refused := inferInstanceAs (Decidable (_ ∧ _))

def Dirs.chroot (d : Dirs) (v : Vnode) : Dirs := if d.Refused then d else { d with rdir := v }

section Dirs

variable (k : Kernel) (v : Vnode)

theorem dirs_pwdChdir : (k.pwdChdir v).dirs = k.dirs.chdir v := rfl

theorem dirs_pwdChroot : (k.pwdChroot v).dirs = k.dirs.chroot v := by
  unfold Kernel.pwdChroot Dirs.chroot
  by_cases h : k.Refused
  · rw [if_pos h, if_pos (show k.dirs.Refused from h)]
  · rw [if_neg h, if_neg (show ¬ k.dirs.Refused from h)]
    split <;> rfl

theorem dirs_vref : (k.vref v).dirs = k.dirs := rfl

theorem dirs_namei (startdir : Option Vnode) (lockParent lockLeaf : Bool) (r : NameiResult) :
    (namei k startdir lockParent lockLeaf r).dirs = k.dirs := by
  unfold namei
  cases r with
  | error e => rfl
  | found dvp vp =>
    simp only
    split <;> rfl

theorem dirs_exec (ps : List Prim) : ∀ k : Kernel, (exec k ps).dirs = k.dirs := by
  induction ps with
  | nil => exact fun _ => rfl
  | cons p ps ih =>
    intro k
    show (exec (p.exec k) ps).dirs = k.dirs
    rw [ih]
    cases p <;> rfl

theorem dirs_setLocation (currentloc : Nat) (dvp : Vnode) (vp : Option Vnode) :
    (setLocation k currentloc dvp vp).dirs = k.dirs := by
  unfold setLocation
  split
  · exact (dirs_exec _ _).trans (dirs_exec _ _)
  · rfl

theorem dirs_vputParent (dvp : Vnode) (vp : Option Vnode) : (k.vputParent dvp vp).dirs = k.dirs := by
  unfold Kernel.vputParent
  split <;> rfl

end Dirs

/-- The calls that steer `namei`. -/
inductive Steering where
  | evalToken (currentloc rootloc : Nat) (vpp : Vnode) (t : Token)
  | openNode (iop : Nat) (vn rvn : Vnode) (dvn : Option Vnode) (o : Opening)
  | mknod (vn : Vnode) (mode : NodeType) (error : Option Errno)
  | symlink (tdvp : Vnode) (ts : List SymlinkTry)

/-- The kernel after the call; a call that waits has not returned. -/
def Steering.exec (k : Kernel) : Steering → Option Kernel
  | .evalToken currentloc rootloc vpp t => some (rtemsBsdVfsEvalToken k currentloc rootloc vpp t).kernel
  | .openNode iop vn rvn dvn o => some (rtemsBsdSysgenOpenNode k iop vn rvn dvn o).2
  | .mknod vn mode error => some (rtemsBsdVfsMknod k vn mode error).2
  | .symlink tdvp ts => (rtemsBsdVfsSymlink k tdvp ts).toOption.map Prod.snd

/-- **The current and the root directory are the same after the call.** -/
def Framed (k : Kernel) (c : Steering) : Prop :=
  ∀ k' ∈ c.exec k, k'.pwd.cdir = k.pwd.cdir ∧ k'.pwd.rdir = k.pwd.rdir

/-- The file system is suspended, and the sleep ends because it is no more. -/
def SymlinkTry.Waits (t : SymlinkTry) : Prop :=
  (∃ dvp, t.namei = .found dvp none) ∧ t.start ≠ none ∧ t.sleep = none

def Token.Early (t : Token) (k : Kernel) (rootloc : Nat) (vpp : Vnode) : Prop :=
  t.token.length > NAMEMAX ∨ isCurrentDirectory t.token = true ∨
    some vpp = k.access rootloc .node ∧ isParentDirectory t.token = true

def Opening.Early (o : Opening) (vn rvn : Vnode) : Prop :=
  o.td = false ∨ openDot vn rvn o = true ∧ o.write = true

def Restores (k : Kernel) : Steering → Prop
  | .evalToken _ rootloc vpp t =>
    t.Early k rootloc vpp ∨ (∃ dvp vp, t.namei = .found dvp vp) ∨
      vpp = k.pwd.cdir ∧ (k.pwd.rdir = k.rootvnode ∨ k.dirOpen = true)
  | .openNode _ vn rvn dvn o =>
    o.Early vn rvn ∨
      match o.openat with
      | .error _ => openDir vn rvn dvn o = k.pwd.cdir ∧ (k.Refused ∨ k.pwd.cdir = k.pwd.rdir)
      | .ok f =>
        k.Refused ∨ k.pwd.cdir = k.pwd.rdir ∨ k.pwd.cdir = k.rootvnode ∨ k.dirOpen = false ∧ f.isDir = false
  | .mknod vn _ _ => vn = k.pwd.cdir
  | .symlink tdvp ts => tdvp = k.pwd.cdir ∨ ∀ t ∈ ts, t.Waits

section Calls

variable {k : Kernel}

theorem dirs_evalTokenAt (k : Kernel) (currentloc rootloc : Nat) (vpp : Vnode) (t : Token) :
    (evalTokenAt k currentloc rootloc vpp t).kernel.dirs =
      match t.namei with
      | .error _ => (k.dirs.chroot k.rootvnode).chdir vpp
      | .found _ _ => (((k.dirs.chroot k.rootvnode).chdir vpp).chroot k.pwd.rdir).chdir k.pwd.cdir := by
  obtain ⟨m, hm⟩ : ∃ m, m = namei ((((k.vref k.pwd.cdir).pwdChroot k.rootvnode).pwdChdir vpp).vref vpp)
      (some vpp) t.create false t.namei := ⟨_, rfl⟩
  have hdirs : m.dirs = (k.dirs.chroot k.rootvnode).chdir vpp := by
    rw [hm, dirs_namei, dirs_vref, dirs_pwdChdir, dirs_pwdChroot, dirs_vref]
  unfold evalTokenAt
  simp only
  rw [show (k.vref k.pwd.cdir).rootvnode = k.rootvnode from rfl, ← hm]
  cases t.namei with
  | error e => exact hdirs
  | found dvp vp =>
    rw [← hdirs, ← dirs_pwdChroot, ← dirs_pwdChdir]
    exact dirs_setLocation _ currentloc dvp vp

theorem Dirs.chroot_back (d : Dirs) (v : Vnode) :
    ((d.chroot d.rootvnode).chdir v).chroot d.rdir = d.chdir v := by
  unfold Dirs.chroot
  by_cases h : d.Refused
  · rw [if_pos h, if_pos (show (d.chdir v).Refused from h)]
  · rw [if_neg h, if_neg (fun hr => hr.1 rfl)]
    rfl

theorem framed_some {c : Steering} {k' : Kernel} (h : c.exec k = some k') :
    Framed k c ↔ k'.dirs.cdir = k.pwd.cdir ∧ k'.dirs.rdir = k.pwd.rdir := by
  unfold Framed
  rw [h]
  simp [Kernel.dirs]

theorem framed_evalToken (k : Kernel) (currentloc rootloc : Nat) (vpp : Vnode) (t : Token) :
    Framed k (.evalToken currentloc rootloc vpp t) ↔ Restores k (.evalToken currentloc rootloc vpp t) := by
  rw [framed_some rfl]
  unfold rtemsBsdVfsEvalToken Restores Token.Early
  by_cases hlong : t.token.length > NAMEMAX
  · rw [if_pos hlong]
    exact iff_of_true ⟨rfl, rfl⟩ (.inl (.inl hlong))
  rw [if_neg hlong]
  by_cases hcur : isCurrentDirectory t.token
  · rw [if_pos hcur]
    exact iff_of_true ⟨rfl, rfl⟩ (.inl (.inr (.inl hcur)))
  rw [if_neg hcur]
  by_cases hpar : some vpp = k.access rootloc .node ∧ isParentDirectory t.token
  · rw [if_pos hpar]
    exact iff_of_true ⟨rfl, rfl⟩ (.inl (.inr (.inr hpar)))
  rw [if_neg hpar, dirs_evalTokenAt]
  have hearly : ¬ (t.token.length > NAMEMAX ∨ isCurrentDirectory t.token = true ∨
      some vpp = k.access rootloc .node ∧ isParentDirectory t.token = true) := by
    rintro (h | h | h)
    · exact hlong h
    · exact hcur h
    · exact hpar h
  cases hnamei : t.namei with
  | found dvp vp =>
    refine iff_of_true ?_ (.inr (.inl ⟨dvp, vp, hnamei⟩))
    have hback := k.dirs.chroot_back vpp
    rw [show k.pwd.rdir = k.dirs.rdir from rfl, show k.rootvnode = k.dirs.rootvnode from rfl, hback]
    exact ⟨rfl, rfl⟩
  | error e =>
    simp only [hearly, false_or, hnamei, reduceCtorEq, exists_false]
    refine and_congr Iff.rfl ?_
    show ((k.dirs.chroot k.rootvnode).chdir vpp).rdir = k.pwd.rdir ↔ _
    unfold Dirs.chroot
    by_cases hr : k.dirs.Refused
    · rw [if_pos hr]
      exact iff_of_true rfl (.inr hr.2)
    · rw [if_neg hr]
      constructor
      · intro h
        exact .inl h.symm
      · rintro (h | h)
        · exact h.symm
        · by_contra hne
          exact hr ⟨fun heq => hne heq.symm, h⟩

/-- The directories after an open that got as far as `kern_openat`. -/
theorem dirs_openNode (k : Kernel) (iop : Nat) (vn rvn : Vnode) (dvn : Option Vnode) (o : Opening)
    (hearly : ¬ o.Early vn rvn) :
    (rtemsBsdSysgenOpenNode k iop vn rvn dvn o).2.dirs =
      match o.openat with
      | .error _ => (k.dirs.chdir (openDir vn rvn dvn o)).chroot k.pwd.cdir
      | .ok f =>
        let d := (k.dirs.chdir (openDir vn rvn dvn o)).chroot k.pwd.cdir
        (({ d with dirOpen := d.dirOpen || f.isDir }).chdir k.pwd.cdir).chroot k.pwd.rdir := by
  have htd : ¬ o.td = false := fun h => hearly (.inl h)
  have hdot : ¬ (openDot vn rvn o = true ∧ o.write = true) := fun h => hearly (.inr h)
  obtain ⟨m, hm⟩ : ∃ m, m = (((k.vref k.pwd.cdir).vref (openDir vn rvn dvn o)).pwdChdir
      (openDir vn rvn dvn o)).pwdChroot k.pwd.cdir := ⟨_, rfl⟩
  have hdirs : m.dirs = (k.dirs.chdir (openDir vn rvn dvn o)).chroot k.pwd.cdir := by
    rw [hm, dirs_pwdChroot, dirs_pwdChdir]
    rfl
  unfold rtemsBsdSysgenOpenNode
  simp only
  rw [if_neg htd, if_neg hdot, ← hm]
  cases o.openat with
  | error e => exact hdirs
  | ok f =>
    rw [dirs_exec, dirs_pwdChroot, dirs_pwdChdir, ← hdirs]
    rfl

theorem framed_openNode (k : Kernel) (iop : Nat) (vn rvn : Vnode) (dvn : Option Vnode) (o : Opening) :
    Framed k (.openNode iop vn rvn dvn o) ↔ Restores k (.openNode iop vn rvn dvn o) := by
  rw [framed_some rfl]
  unfold Restores
  by_cases hearly : o.Early vn rvn
  · refine iff_of_true ?_ (.inl hearly)
    unfold rtemsBsdSysgenOpenNode
    by_cases htd : o.td = false
    · rw [if_pos htd]
      exact ⟨rfl, rfl⟩
    · rw [if_neg htd, if_pos (hearly.resolve_left htd)]
      exact ⟨rfl, rfl⟩
  · rw [dirs_openNode k iop vn rvn dvn o hearly]
    simp only [hearly, false_or]
    obtain ⟨d, hd⟩ : ∃ d, d = openDir vn rvn dvn o := ⟨_, rfl⟩
    rw [← hd]
    have hrefused : (k.dirs.chdir d).Refused ↔ k.Refused := Iff.rfl
    cases o.openat with
    | error e =>
      unfold Dirs.chroot
      by_cases hr : k.Refused
      · rw [if_pos (hrefused.mpr hr)]
        exact and_congr Iff.rfl (iff_of_true rfl (.inl hr))
      · rw [if_neg (mt hrefused.mp hr)]
        exact and_congr Iff.rfl (by simp [hr])
    | ok f =>
      simp only
      unfold Dirs.chroot
      by_cases hr : k.Refused
      · -- both changes of the root directory are refused
        rw [if_pos (hrefused.mpr hr), if_pos ⟨hr.1, by simp [Dirs.chdir, Kernel.dirs, hr.2]⟩]
        exact iff_of_true ⟨rfl, rfl⟩ (.inl hr)
      · rw [if_neg (mt hrefused.mp hr)]
        split
        · rename_i hback
          have hback : k.pwd.cdir ≠ k.rootvnode ∧ (k.dirOpen || f.isDir) = true := hback
          constructor
          · intro h
            exact .inr (.inl h.2)
          · rintro (h | h | h | h)
            · exact absurd h hr
            · exact ⟨rfl, h⟩
            · exact absurd h hback.1
            · have := hback.2
              rw [h.1, h.2] at this
              cases this
        · rename_i hback
          have hback : ¬ (k.pwd.cdir ≠ k.rootvnode ∧ (k.dirOpen || f.isDir) = true) := hback
          refine iff_of_true ⟨rfl, rfl⟩ (.inr (.inr ?_))
          grind

theorem framed_mknod (k : Kernel) (vn : Vnode) (mode : NodeType) (error : Option Errno) :
    Framed k (.mknod vn mode error) ↔ Restores k (.mknod vn mode error) := by
  rw [framed_some rfl]
  have hdirs : (rtemsBsdVfsMknod k vn mode error).2.dirs = k.dirs.chdir vn := by
    cases mode <;> rfl
  rw [hdirs]
  exact and_iff_left rfl

/-- Every attempt keeps the directories, and the call has not returned if all attempts have waited. -/
theorem dirs_symlinkRestart (ts : List SymlinkTry) :
    ∀ k : Kernel, (∃ e, (∀ t ∈ ts, t.Waits) ∧ symlinkRestart k ts = .error e) ∨
      ∃ r, ¬ (∀ t ∈ ts, t.Waits) ∧ symlinkRestart k ts = .ok r ∧ r.2.dirs = k.dirs := by
  induction ts with
  | nil =>
    intro k
    exact .inl ⟨.waiting, fun t ht => (by cases ht), rfl⟩
  | cons t ts ih =>
    intro k
    have hnamei := dirs_namei k none true false t.namei
    have hends : ¬ t.Waits → ¬ ∀ u ∈ t :: ts, u.Waits := fun h hall => h (hall t List.mem_cons_self)
    unfold symlinkRestart
    cases hn : t.namei with
    | error e =>
      refine .inr ⟨_, hends ?_, rfl, hn ▸ hnamei⟩
      rintro ⟨⟨dvp, h⟩, -⟩
      rw [hn] at h
      cases h
    | found dvp vp =>
      rw [hn] at hnamei
      cases vp with
      | some v =>
        refine .inr ⟨_, hends ?_, rfl, ?_⟩
        · rintro ⟨⟨dvp', h⟩, -⟩
          rw [hn] at h
          cases h
        · exact (dirs_vputParent _ dvp (some v)).trans hnamei
      | none =>
        cases hs : t.start with
        | none =>
          have hnot : ¬ t.Waits := fun h => h.2.1 hs
          cases t.vop with
          | error e => exact .inr ⟨_, hends hnot, rfl, hnamei⟩
          | ok v => exact .inr ⟨_, hends hnot, rfl, hnamei⟩
        | some e =>
          cases hsleep : t.sleep with
          | some e' =>
            refine .inr ⟨_, hends ?_, rfl, hnamei⟩
            rintro ⟨-, -, h⟩
            rw [hsleep] at h
            cases h
          | none =>
            have hwaits : t.Waits := ⟨⟨dvp, hn⟩, by simp [hs], hsleep⟩
            rcases ih ((namei k none true false (.found dvp none)).ndfreePnbuf.vput dvp) with
              ⟨e', hall, he⟩ | ⟨r, hnot, hr, hdirs⟩
            · grind
            · refine .inr ⟨r, fun hall => hnot fun u hu => hall u (List.mem_cons_of_mem _ hu), hr, ?_⟩
              exact hdirs.trans hnamei

theorem framed_symlink (k : Kernel) (tdvp : Vnode) (ts : List SymlinkTry) :
    Framed k (.symlink tdvp ts) ↔ Restores k (.symlink tdvp ts) := by
  rcases dirs_symlinkRestart ts (k.pwdChdir tdvp) with ⟨e, hall, he⟩ | ⟨r, hnot, hr, hdirs⟩
  · refine iff_of_true ?_ (.inr hall)
    intro k' hk'
    have hnone : (Steering.symlink tdvp ts).exec k = none := by
      show (symlinkRestart (k.pwdChdir tdvp) ts).toOption.map Prod.snd = none
      rw [he]
      rfl
    rw [hnone] at hk'
    cases hk'
  · have hsome : (Steering.symlink tdvp ts).exec k = some r.2 := by
      show (symlinkRestart (k.pwdChdir tdvp) ts).toOption.map Prod.snd = some r.2
      rw [hr]
      rfl
    rw [framed_some hsome, hdirs]
    show tdvp = k.pwd.cdir ∧ k.pwd.rdir = k.pwd.rdir ↔ tdvp = k.pwd.cdir ∨ ∀ t ∈ ts, t.Waits
    simp [hnot]

end Calls

theorem framed_call_iff (k : Kernel) (c : Steering) : Framed k c ↔ Restores k c := by
  cases c with
  | evalToken currentloc rootloc vpp t => exact framed_evalToken k currentloc rootloc vpp t
  | openNode iop vn rvn dvn o => exact framed_openNode k iop vn rvn dvn o
  | mknod vn mode error => exact framed_mknod k vn mode error
  | symlink tdvp ts => exact framed_symlink k tdvp ts

/-- **The working directory as a frame.**  In every sequence of calls, each call leaves the current and the
    root directory as they were exactly if it restores them. -/
theorem framed_iff (k : Kernel) (cs : List Steering) :
    StepsMeet Steering.exec Framed k cs ↔ StepsMeet Steering.exec Restores k cs :=
  stepsMeet_congr framed_call_iff cs k

def rootKernel : Kernel := ⟨fun _ => 4, 0, 0, 0, .allAt 0 (some 0), 0, false, 2, fun _ _ => none⟩

/-- The lookup of a name that does not exist (`ENOENT`) leaves its directory as the current one. -/
theorem failedLookup_moves :
    ¬ StepsMeet Steering.exec Framed rootKernel
      [.evalToken 0 1 5 ⟨['x'], true, false, .error (.other 2)⟩] := by
  rintro ⟨hframed, -⟩
  have hmoved := (hframed _ rfl).1
  cases hmoved

end RtemsLibbsd.Vfs
