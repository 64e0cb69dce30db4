import RtemsLibbsd.Vfs.Location
import RtemsLibbsd.Vfs.Namei

/-!
# Opening a path that was evaluated

A path is resolved twice: token by token by `rtems_bsd_vfs_eval_path` of
`rtemsbsd/rtems/rtems-kernel-vfs.c`, which leaves a location, and by `rtems_bsd_sysgen_open_node` of
`rtemsbsd/rtems/rtems-bsd-syscall-api.c`, which takes the last token of the string again and lets `kern_openat`
look it up in a directory of the location.

* `PathTokens` — what is relied on of the generic path evaluation of RTEMS: the tokens of a path.
* `evalTokens`, `rtemsBsdVfsEvalPath` — the evaluation, with `rtemsBsdVfsEvalToken` for each token.
* `openat`, `Opens` — the open of the location, with `rtemsBsdSysgenOpenNode`.
* `Agrees` — the condition under which the second lookup ends where the first one did.

* `opens_iff_agrees` — the open opens, or creates, what the evaluation found exactly under this condition.
* `reopening_fails` — a delimiter at the end, a link into another directory, an existing file that may be
  created, and a new file in the root directory.
-/

namespace RtemsLibbsd.Vfs

open List

/-- The tokens that `rtems_filesystem_eval_path_generic` passes on as long as it is told to go on: the parts of
    the path between delimiters.  With each comes whether no path is left after it. -/
structure PathTokens where
  tokens : List Char → List (List Char × Bool)
  map_fst : ∀ path, (tokens path).map Prod.fst = (path.splitOnP isDelimiter).filter (!·.isEmpty)
  noMorePath : ∀ path init t b rest, tokens path = init ++ (t, b) :: rest →
    (b = true ↔ rest = [] ∧ lastToken path ≠ [])

/-- The lookup of a token.  The flags of the evaluation are those of the open. -/
def Tree.nameiToken (T : Tree) (k : Kernel) (vpp : Vnode) (o : Oflag) (t : List Char) (noMorePath : Bool) :
    Except Errno Named :=
  T.namei (tokenKernel k vpp) (noMorePath && o.creat) (!o.nofollow) vpp t

def nameiResult : Except Errno Named → NameiResult
  | .error e => .error e
  | .ok n => .found n.dvp n.vp

/-- How an evaluation ends.  It leaves the file system with `..` in the root directory.  If it ends at a target, `base`
    is the directory in which the last token was looked up. -/
inductive Evaluation where
  | failed (e : Errno) (k : Kernel)
  | left (k : Kernel)
  | resolved (base : Vnode) (target : Target) (k : Kernel)

/-- The loop of the evaluation.  A token that is not followed by a vnode names an entry that is missing. -/
def evalTokens (T : Tree) (loc rootloc : Nat) (o : Oflag) :
    Kernel → Vnode → Vnode → List (List Char × Bool) → Evaluation
  | k, base, vpp, [] => .resolved base (.existing vpp) k
  | k, _, vpp, (t, noMorePath) :: ts =>
    if !T.isDir vpp then .failed .ENOTDIR k
    -- the token is put back
    else if some vpp = k.access rootloc .node ∧ isParentDirectory t then .left k
    else
      let n := T.nameiToken k vpp o t noMorePath
      let r := rtemsBsdVfsEvalToken k loc rootloc vpp ⟨t, noMorePath, o.creat, nameiResult n⟩
      match r.error, r.vpp with
      | some e, _ => .failed e r.kernel
      | none, none => .resolved vpp ((n.toOption.map Named.target).getD (.missing vpp t)) r.kernel
      | none, some vp =>
        if r.status = .DONE then .resolved vpp (.existing vp) r.kernel
        else evalTokens T loc rootloc o r.kernel vpp vp ts

/-- `rtems_bsd_vfs_eval_path` of the location `loc`; nothing is returned for a location without a vnode. -/
def rtemsBsdVfsEvalPath (E : PathTokens) (T : Tree) (k : Kernel) (loc rootloc : Nat) (o : Oflag) (path : List Char) :
    Option Evaluation :=
  (k.access loc .node).map fun vp =>
    let k := exec k (rtemsBsdLibioLocSetVnode k loc (some vp))
    let k := exec k (rtemsBsdLibioLocSetVnodeDir k loc (some vp))
    evalTokens T loc rootloc o k vp vp (E.tokens path)

def opening (path : List Char) (o : Oflag) (openat : Except Errno Opened) : Opening :=
  ⟨true, path, o.write, o.creat, openat⟩

section Open

variable (T : Tree) (k : Kernel) (iop : Nat) (vn rvn : Vnode) (path : List Char) (o : Oflag)

/-- `cdir`, which does not depend on what is opened. -/
def openCdir : Vnode := openDir vn rvn (k.access iop .dir) (opening path o (.error ENOENT))

/-- `opath`. -/
def openOpath : List Char :=
  if openDot vn rvn (opening path o (.error ENOENT)) then ['.'] else openPath vn rvn (opening path o (.error ENOENT))

/-- The kernel in which `rtems_bsd_sysgen_open_node` calls `kern_openat`: the working directory of the process
    is its root directory. -/
def openKernel (cdir : Vnode) : Kernel :=
  (((k.vref k.pwd.cdir).vref cdir).pwdChdir cdir).pwdChroot k.pwd.cdir

def openat : Except Errno File :=
  T.kernOpenat (openKernel k (openCdir k iop vn rvn path o)) (openOpath vn rvn path o) o

/-- `rtems_bsd_sysgen_open_node` with what `kern_openat` finds in the tree. -/
def openNode : Option Errno × Kernel :=
  rtemsBsdSysgenOpenNode k iop vn rvn (k.access iop .dir)
    (opening path o ((openat T k iop vn rvn path o).map fun f => ⟨some f.vp, f.isDir⟩))

end Open

/-- The open of the location succeeds, what it opens or creates is `target`, and the location has its vnode. -/
def Opens (T : Tree) (k : Kernel) (iop : Nat) (rvn : Vnode) (path : List Char) (o : Oflag) (target : Target) : Prop :=
  ∃ vn f k', k.access iop .node = some vn ∧ openat T k iop vn rvn path o = .ok f ∧ f.target = target ∧
    (∀ v, target = .existing v → f.vp = v) ∧
    openNode T k iop vn rvn path o = (none, k') ∧ k'.access iop .node = some f.vp

/-- The last token of the path is a symbolic link that is followed. -/
def Tree.FollowsLink (T : Tree) (base : Vnode) (t : List Char) (o : Oflag) : Prop :=
  ∃ w target, T.vopLookup base t = .ok (some w) ∧ T.node w = .link target ∧ o.nofollow = false

/-- The lookup of the open, of a name in the directory `dvp`, leads to `target`. -/
def LeadsTo (T : Tree) (k : Kernel) (o : Oflag) (dvp : Vnode) (name : List Char) (target : Target) : Prop :=
  ∃ n, T.namei (openKernel k dvp) o.creates o.follows dvp name = .ok n ∧ n.target = target

/-- The vnode can be opened with these flags, or the entry created. -/
def Tree.Allows (T : Tree) (o : Oflag) : Target → Prop
  | .existing v => T.vnOpenFound v o = none
  | .missing dvp name => ∃ vp, T.vopCreate dvp name = .ok vp

section Agrees

variable (T : Tree) (k : Kernel) (iop : Nat) (rvn base : Vnode) (path : List Char) (o : Oflag)

/-- A vnode that exists is found again: it is the root directory, the path ends with `.` or `..`, or it ends with
    a name that leads to `v` from the directory in which the open looks it up.  With `O_CREAT` this directory is `v`
    itself, otherwise it is the one in which `v` was found, and a name that is not a link leads back to `v`. -/
def Reopens (v : Vnode) : Prop :=
  v = rvn ∨ isCurrentDirectory (lastToken path) = true ∨ isParentDirectory (lastToken path) = true ∨
    (lastToken path ≠ [] ∧
      if o.creat then o.directory = true ∧ LeadsTo T k o v (lastToken path) (.existing v)
      else ¬ T.FollowsLink base (lastToken path) o ∨
        ∃ dvp, k.access iop .dir = some dvp ∧ LeadsTo T k o dvp (lastToken path) (.existing v))

/-- A missing entry is created: it is not in the root directory, and it is named by the path or by a link that leads
    there again. -/
def Creates (dvp : Vnode) (name : List Char) : Prop :=
  base ≠ rvn ∧ o.directory = false ∧
    (T.vopLookup base (lastToken path) = .ok none ∨ LeadsTo T k o base (lastToken path) (.missing dvp name))

/-- The kernel allows the open, and the second lookup ends where the first one did. -/
def Agrees (target : Target) : Prop :=
  o.invalid = false ∧ T.Allows o target ∧
    match target with
    | .existing v => Reopens T k iop rvn base path o v
    | .missing dvp name => Creates T k rvn base path o dvp name

end Agrees

section LastToken

variable (path : List Char)

theorem lastToken_mem {c : Char} (h : c ∈ lastToken path) : isDelimiter c = false := by
  simpa using mem_takeWhile_imp (mem_reverse.mp h)

theorem splitOnP_lastToken : ∃ init, path.splitOnP isDelimiter = init ++ [lastToken path] := by
  have hsplit : path = (path.reverse.dropWhile fun c => !isDelimiter c).reverse ++ lastToken path := by
    simp [lastToken, ← reverse_append]
  have hlast : (lastToken path).splitOnP isDelimiter = [lastToken path] :=
    splitOnP_eq_singleton fun c hc => lastToken_mem path hc
  cases hdrop : path.reverse.dropWhile fun c => !isDelimiter c with
  | nil =>
    rw [hdrop, reverse_nil, nil_append] at hsplit
    exact ⟨[], by rw [← hsplit] at hlast; simp [hlast, ← hsplit]⟩
  | cons sep rest =>
    grind [head?_dropWhile_not, reverse_cons, splitOnP_append_cons]

theorem PathTokens.tokens_lastToken (E : PathTokens) {init : List (List Char × Bool)} {t : List Char} {b : Bool}
    (h : E.tokens path = init ++ [(t, b)]) (hlast : lastToken path ≠ []) : t = lastToken path := by
  obtain ⟨xs, hxs⟩ := splitOnP_lastToken path
  have hmap := E.map_fst path
  have hone : [lastToken path].filter (!·.isEmpty) = [lastToken path] := by simp [hlast]
  rw [h, hxs, filter_append, hone, map_append, map_singleton] at hmap
  exact (append_inj_right' hmap rfl |> singleton_inj.mp)

theorem PathTokens.tokens_ne_nil (E : PathTokens) (hlast : lastToken path ≠ []) : E.tokens path ≠ [] := by
  intro h
  obtain ⟨xs, hxs⟩ := splitOnP_lastToken path
  have hmap := E.map_fst path
  rw [h, hxs, filter_append] at hmap
  simp [hlast] at hmap

end LastToken

section Access

variable (k : Kernel)

theorem access_pwdChdir (v : Vnode) : (k.pwdChdir v).access = k.access := rfl

theorem access_pwdChroot (v : Vnode) : (k.pwdChroot v).access = k.access := by
  unfold Kernel.pwdChroot
  simp only
  split
  · rfl
  · split <;> rfl

theorem access_namei (startdir : Option Vnode) (lockParent lockLeaf : Bool) (r : NameiResult) :
    (namei k startdir lockParent lockLeaf r).access = k.access := by
  unfold namei
  cases r with
  | error e => rfl
  | found dvp vp =>
    simp only
    split <;> rfl

variable (i : Nat) (f : Field)

theorem access_setLocation (loc : Nat) (dvp : Vnode) (vp : Option Vnode) :
    (setLocation k loc dvp vp).access i f =
      if vp ≠ none ∧ i = loc then (match f with | .node => vp | .dir => some dvp) else k.access i f := by
  unfold setLocation
  by_cases hvp : vp = none
  · simp [hvp]
  · rw [if_pos hvp]
    rw [rtemsBsdLibioLocSetVnodeDir, rtemsBsdLibioLocSetVnode, access_locSet .dir _ loc _ (i, f),
      access_locSet .node k loc vp (i, f)]
    by_cases hi : i = loc
    · cases f <;> simp [hi, hvp]
    · simp [hi]

theorem access_evalTokenAt (loc rootloc : Nat) (vpp : Vnode) {t : Token} {dvp : Vnode} {vp : Option Vnode}
    (h : t.namei = .found dvp vp) :
    (evalTokenAt k loc rootloc vpp t).kernel.access i f =
      if vp ≠ none ∧ i = loc then (match f with | .node => vp | .dir => some dvp) else k.access i f := by
  obtain ⟨m, hm⟩ : ∃ m, m = namei ((((k.vref k.pwd.cdir).pwdChroot k.rootvnode).pwdChdir vpp).vref vpp)
      (some vpp) t.create false t.namei := ⟨_, rfl⟩
  have haccess : m.access = k.access := by
    rw [hm, access_namei]
    show (((k.vref k.pwd.cdir).pwdChroot k.rootvnode).pwdChdir vpp).access = _
    rw [access_pwdChdir, access_pwdChroot]
    rfl
  unfold evalTokenAt
  simp only
  rw [show (k.vref k.pwd.cdir).rootvnode = k.rootvnode from rfl, ← hm, h]
  show (setLocation _ loc dvp vp).access i f = _
  rw [access_setLocation, access_pwdChdir, access_pwdChroot, haccess]

end Access

section Evaluate

variable (T : Tree) (loc rootloc : Nat) (o : Oflag)

/-- What the lookup of the token `t` in `base` left behind in the kernel `k'`. -/
structure Moved (k k' : Kernel) (base : Vnode) (t : List Char) (b : Bool) (n : Named) : Prop where
  lookup : T.nameiToken k base o t b = .ok n
  length : t.length ≤ NAMEMAX
  notDot : isCurrentDirectory t = false
  root : ∀ f, k'.access rootloc f = k.access rootloc f
  found : ∀ v, n.vp = some v → k'.access loc .node = some v ∧ k'.access loc .dir = some n.dvp
  missing : n.vp = none → k'.access loc .node = k.access loc .node

/-- What an evaluation ends with: the last token is `.`, or it was looked up. -/
def Arrived (k' : Kernel) (base : Vnode) (t : List Char) (b : Bool) (target : Target) : Prop :=
  T.isDir base = true ∧
    ((isCurrentDirectory t = true ∧ target = .existing base ∧ k'.access loc .node = some base) ∨
      ∃ k n, Moved T loc rootloc o k k' base t b n ∧ n.target = target ∧
        k.access loc .node = some base)

variable {T loc rootloc o}

variable {base : Vnode} {b : Bool}

/-- Only the lookup of the last token ends with a missing entry, and only with `O_CREAT`. -/
theorem Moved.creates {k k' : Kernel} {t : List Char} {n : Named}
    (h : Moved T loc rootloc o k k' base t b n) (hvp : n.vp = none) : (b && o.creat) = true := by
  by_contra hb
  have hl := h.lookup
  rw [Tree.nameiToken, Bool.eq_false_of_not_eq_true hb] at hl
  exact Tree.namei_found hl hvp

variable (hne : rootloc ≠ loc)

theorem evalStatus_done (h : evalStatus b = .DONE) : b = true := by
  cases b with
  | true => rfl
  | false => cases h

include hne in
/-- A token that is evaluated without an error is `.`, or it was looked up. -/
theorem evalToken_cases {k : Kernel} {t : List Char} {r : Evaluated}
    (hr : rtemsBsdVfsEvalToken k loc rootloc base ⟨t, b, o.creat, nameiResult (T.nameiToken k base o t b)⟩ = r)
    (hroot : ¬ (some base = k.access rootloc .node ∧ isParentDirectory t = true)) (herr : r.error = none) :
    (isCurrentDirectory t = true ∧ r = ⟨evalStatus b, none, some base, k⟩) ∨
      ∃ n, Moved T loc rootloc o k r.kernel base t b n ∧ r.vpp = n.vp ∧ (r.status = .DONE → b = true) := by
  unfold rtemsBsdVfsEvalToken at hr
  simp only [hroot, if_false] at hr
  split at hr
  · subst hr
    cases herr
  split at hr
  · rename_i hdot
    exact .inl ⟨hdot, hr.symm⟩
  · rename_i hdot
    right
    cases hn : T.nameiToken k base o t b with
    | error e =>
      rw [hn] at hr
      subst hr
      cases herr
    | ok n =>
      rw [hn] at hr
      subst hr
      have hacc := fun i f => @access_evalTokenAt k i f loc rootloc base
        ⟨t, b, o.creat, nameiResult (.ok n)⟩ n.dvp n.vp rfl
      refine ⟨n, ⟨hn, by omega, by simpa using hdot, fun f => ?_, fun v hv => ?_, fun hv => ?_⟩, rfl, ?_⟩
      · rw [hacc, if_neg fun h => hne h.2]
      · exact ⟨by simp [hacc, hv], by rw [hacc, if_pos ⟨by simp [hv], rfl⟩]⟩
      · rw [hacc, if_neg fun h => h.1 hv]
      · intro hdone
        by_contra hb
        simp only [evalTokenAt, nameiResult, evalStatus, if_neg hb] at hdone
        split at hdone <;> cases hdone

include hne in
/-- **The evaluation of a list of tokens ends with the last one.** -/
theorem evalTokens_resolved {target : Target} {k' : Kernel} :
    ∀ (ts : List (List Char × Bool)) (k : Kernel) (before vpp : Vnode), k.access loc .node = some vpp →
      (∀ init t rest, ts = init ++ (t, true) :: rest → rest = []) →
      evalTokens T loc rootloc o k before vpp ts = .resolved base target k' →
      (∀ f, k'.access rootloc f = k.access rootloc f) ∧
        ((ts = [] ∧ target = .existing vpp ∧ k' = k) ∨
          ∃ init t b, ts = init ++ [(t, b)] ∧ Arrived T loc rootloc o k' base t b target) := by
  intro ts
  induction ts with
  | nil =>
    intro k before vpp hk _ h
    cases h
    exact ⟨fun _ => rfl, .inl ⟨rfl, rfl, rfl⟩⟩
  | cons x ts ih =>
    obtain ⟨t, b⟩ := x
    intro k before vpp hk honly h
    rw [evalTokens] at h
    split at h
    · cases h
    rename_i hdir
    have hdir' : T.isDir vpp = true := by simpa using hdir
    split at h
    · cases h
    rename_i hroot
    simp only at h
    obtain ⟨r, hr⟩ : ∃ r, rtemsBsdVfsEvalToken k loc rootloc vpp
        ⟨t, b, o.creat, nameiResult (T.nameiToken k vpp o t b)⟩ = r := ⟨_, rfl⟩
    rw [hr] at h
    -- the rest of the list, for a token that is not the last one
    have hgo : ∀ vp k2, k2.access loc .node = some vp → (∀ f, k2.access rootloc f = k.access rootloc f) →
        Arrived T loc rootloc o k2 vpp t b (.existing vp) →
        evalTokens T loc rootloc o k2 vpp vp ts = .resolved base target k' →
        (∀ f, k'.access rootloc f = k.access rootloc f) ∧
          (((t, b) :: ts = [] ∧ target = .existing vpp ∧ k' = k) ∨
            ∃ init t' b', (t, b) :: ts = init ++ [(t', b')] ∧ Arrived T loc rootloc o k' base t' b' target) := by
      intro vp k2 hk2 hframe harrived hrest
      obtain ⟨hframe', hend⟩ := ih k2 vpp vp hk2
        (fun init t' rest hts => honly ((t, b) :: init) t' rest (by rw [hts]; rfl)) hrest
      refine ⟨fun f => (hframe' f).trans (hframe f), .inr ?_⟩
      rcases hend with ⟨rfl, rfl, rfl⟩ | ⟨init, t', b', rfl, harr⟩
      · cases hrest
        exact ⟨[], t, b, rfl, harrived⟩
      · exact ⟨(t, b) :: init, t', b', rfl, harr⟩
    have hdone : b = true → ts = [] := fun hb => honly [] t ts (by rw [hb]; rfl)
    split at h
    · cases h
    · rename_i herr hvpp
      rcases evalToken_cases hne hr hroot herr with ⟨_, rfl⟩ | ⟨n, hm, hn, _⟩
      · cases hvpp
      · have hmiss : n.vp = none := hn.symm.trans hvpp
        have hb := hm.creates hmiss
        have hts := hdone (Bool.and_eq_true_iff.mp hb).1
        rw [hm.lookup] at h
        cases h
        exact ⟨hm.root, .inr ⟨[], t, b, by rw [hts]; rfl, hdir', .inr ⟨k, n, hm, rfl, hk⟩⟩⟩
    · rename_i vp herr hvpp
      rcases evalToken_cases hne hr hroot herr with ⟨hdot, rfl⟩ | ⟨n, hm, hn, hstat⟩
      · cases hvpp
        have harr : Arrived T loc rootloc o k vpp t b (.existing vpp) := ⟨hdir', .inl ⟨hdot, rfl, hk⟩⟩
        split at h
        · rename_i hd
          cases h
          have hts := hdone (evalStatus_done hd)
          exact ⟨fun _ => rfl, .inr ⟨[], t, b, by rw [hts]; rfl, harr⟩⟩
        · exact hgo vpp k hk (fun _ => rfl) harr h
      · have hv : n.vp = some vp := hn.symm.trans hvpp
        have harr : Arrived T loc rootloc o r.kernel vpp t b (.existing vp) :=
          ⟨hdir', .inr ⟨k, n, hm, by simp [hv], hk⟩⟩
        split at h
        · rename_i hd
          cases h
          have hts := hdone (hstat hd)
          exact ⟨hm.root, .inr ⟨[], t, b, by rw [hts]; rfl, harr⟩⟩
        · exact hgo vp r.kernel (hm.found vp hv).1 hm.root harr h

end Evaluate

section Opening

variable {T : Tree} {k : Kernel} {iop : Nat} {vn rvn : Vnode} {path : List Char} {o : Oflag}

theorem cdir_openKernel (k : Kernel) (c : Vnode) : (openKernel k c).pwd.cdir = c := by
  unfold openKernel Kernel.pwdChroot
  split <;> rfl

theorem kernOpenat_iff (k : Kernel) (path : List Char) (target : Target) :
    (∃ f, T.kernOpenat k path o = .ok f ∧ f.target = target ∧ ∀ v, target = .existing v → f.vp = v) ↔
      o.invalid = false ∧ T.Allows o target ∧
        ∃ n, T.namei k o.creates o.follows k.pwd.cdir path = .ok n ∧ n.target = target := by
  unfold Tree.kernOpenat
  cases hinv : o.invalid with
  | true => simp
  | false =>
    cases hn : T.namei k o.creates o.follows k.pwd.cdir path with
    | error e => simp
    | ok n =>
      obtain ⟨dvp, vp, name⟩ := n
      cases vp with
      | none =>
        cases hc : T.vopCreate dvp name with
        | error e =>
          have : ∀ h : Target.missing dvp name = target, ¬ T.Allows o target := by
            rintro rfl ⟨vp, hvp⟩
            rw [hc] at hvp
            cases hvp
          simpa [Except.map, Named.target, hc, imp_not_comm] using this
        | ok vp =>
          constructor
          · rintro ⟨f, hf, rfl, _⟩
            simp [Except.map, hc] at hf
            subst hf
            exact ⟨rfl, ⟨vp, hc⟩, _, rfl, rfl⟩
          · rintro ⟨_, _, n, hn', rfl⟩
            cases hn'
            exact ⟨⟨.missing dvp name, vp, false⟩, by simp [Except.map, hc], rfl, fun v hv => by cases hv⟩
      | some vp =>
        cases hfound : T.vnOpenFound vp o with
        | some e =>
          have : ∀ h : Target.existing vp = target, ¬ T.Allows o target := by
            rintro rfl hallow
            exact absurd (hfound.symm.trans hallow) (by simp)
          simpa [Named.target, hfound, imp_not_comm] using this
        | none =>
          constructor
          · rintro ⟨f, hf, rfl, _⟩
            simp [hfound] at hf
            subst hf
            exact ⟨rfl, hfound, _, rfl, rfl⟩
          · rintro ⟨_, _, n, hn', rfl⟩
            cases hn'
            exact ⟨⟨.existing vp, vp, T.isDir vp⟩, by simp [hfound], rfl, fun v hv => by cases hv; rfl⟩

theorem openNode_ok {f : File} (hdot : ¬ (openDot vn rvn (opening path o (.error ENOENT)) = true ∧ o.write = true))
    (h : openat T k iop vn rvn path o = .ok f) :
    ∃ k', openNode T k iop vn rvn path o = (none, k') ∧ k'.access iop .node = some f.vp := by
  unfold openNode
  rw [h]
  unfold rtemsBsdSysgenOpenNode
  split
  · rename_i htd
    cases htd
  split
  · rename_i hd
    exact absurd hd hdot
  exact ⟨_, rfl, (access_locSet .node _ iop (some f.vp) (iop, .node)).trans (if_pos rfl)⟩

theorem openNode_dot (hdot : openDot vn rvn (opening path o (.error ENOENT)) = true ∧ o.write = true) :
    openNode T k iop vn rvn path o = (some .EPERM, k) := by
  exact if_pos hdot

theorem opens_iff_leadsTo (hvn : k.access iop .node = some vn) (target : Target) :
    Opens T k iop rvn path o target ↔
      ¬ (openDot vn rvn (opening path o (.error ENOENT)) = true ∧ o.write = true) ∧
        o.invalid = false ∧ T.Allows o target ∧
          LeadsTo T k o (openCdir k iop vn rvn path o) (openOpath vn rvn path o) target := by
  have hkern := kernOpenat_iff (T := T) (o := o) (openKernel k (openCdir k iop vn rvn path o))
    (openOpath vn rvn path o) target
  rw [cdir_openKernel] at hkern
  unfold LeadsTo
  rw [← hkern]
  constructor
  · rintro ⟨vn', f, k', hvn', hf, ht, hv, hopen, _⟩
    cases Option.some.inj (hvn.symm.trans hvn')
    refine ⟨fun hdot => ?_, f, hf, ht, hv⟩
    rw [openNode_dot hdot] at hopen
    cases hopen
  · rintro ⟨hdot, f, hf, ht, hv⟩
    obtain ⟨k', hopen, hbound⟩ := openNode_ok hdot hf
    exact ⟨vn, f, k', hvn, hf, ht, hv, hopen, hbound⟩

variable {v : Vnode}

theorem Tree.Allows.not_write (h : T.Allows o (.existing v)) (hdir : T.isDir v = true) :
    o.write = false := by
  change T.vnOpenFound v o = none at h
  unfold Tree.vnOpenFound Tree.vnOpenVnode at h
  split at h
  · cases h
  split at h
  · cases h
  unfold Tree.isDir at hdir
  split at h
  · rename_i hn
    rw [hn] at hdir
    cases hdir
  · rename_i hn
    rw [hn] at hdir
    cases hdir
  · split at h
    · cases h
    · simp_all

theorem Tree.Allows.not_isDir (h : T.Allows o (.existing v)) (hc : o.creates = true) :
    T.isDir v = false := by
  by_contra hdir
  change T.vnOpenFound v o = none at h
  unfold Tree.vnOpenFound at h
  split at h <;> simp_all

theorem leadsTo_dot (hdir : T.isDir v = true) : LeadsTo T k o v ['.'] (.existing v) := by
  obtain ⟨r, hr⟩ := T.vopLookup_ok hdir ['.']
  have hc : T.component (openKernel k v) v ['.'] = .ok (some v) := by
    rw [Tree.component_name _ (by decide)]
    unfold Tree.vopLookup at hr ⊢
    split at hr
    · rfl
    · cases hr
  exact ⟨_, Tree.namei_plain hdir (by simp) (by simp) (by decide) hc
    fun target h => absurd h (Tree.node_ne_link T hdir target), rfl⟩

/-- An open of `.`, of `..` or of the root directory opens the directory of the location. -/
theorem opens_dot (hv : k.access iop .node = some v) (hdir : T.isDir v = true)
    (hdot : openDot v rvn (opening path o (.error ENOENT)) = true) (target : Target) :
    Opens T k iop rvn path o target ↔ o.invalid = false ∧ T.Allows o target ∧ target = .existing v := by
  have hcdir : openCdir k iop v rvn path o = v := by simp [openCdir, openDir, hdot]
  have hopath : openOpath v rvn path o = ['.'] := by simp [openOpath, hdot]
  rw [opens_iff_leadsTo hv, hcdir, hopath]
  constructor
  · rintro ⟨_, hinv, hallow, n, hn, rfl⟩
    obtain ⟨m, hm, ht⟩ := leadsTo_dot (k := k) (o := o) hdir
    cases hn.symm.trans hm
    exact ⟨hinv, hallow, ht⟩
  · rintro ⟨hinv, hallow, rfl⟩
    refine ⟨fun h => ?_, hinv, hallow, leadsTo_dot hdir⟩
    rw [hallow.not_write hdir] at h
    cases h.2

end Opening

/-- The location `loc` and the root location of its file system, which has the vnode of a directory. -/
structure Mounted (T : Tree) (k : Kernel) (loc : Nat) where
  rootloc : Nat
  rvn : Vnode
  ne : rootloc ≠ loc
  access : k.access rootloc .node = some rvn
  isDir : T.isDir rvn = true

section Evaluated

variable {E : PathTokens} {T : Tree} {k k' : Kernel} {loc : Nat} {o : Oflag} {path : List Char} {base : Vnode}
  {target : Target}

/-- What an evaluation leaves behind: the location has the vnode that exists, or the directory of the entry that is
    missing, and the last token of the path was evaluated in `base`. -/
structure Located (T : Tree) (k' : Kernel) (loc rootloc : Nat) (o : Oflag) (path : List Char) (base : Vnode)
    (target : Target) : Prop where
  existing : ∀ v, target = .existing v → k'.access loc .node = some v
  missing : ∀ dvp name, target = .missing dvp name →
    k'.access loc .node = some base ∧ o.creat = true ∧ lastToken path ≠ []
  last : lastToken path ≠ [] → ∃ b, Arrived T loc rootloc o k' base (lastToken path) b target

theorem Arrived.node {rootloc : Nat} {t : List Char} {b : Bool} (h : Arrived T loc rootloc o k' base t b target) :
    (∀ v, target = .existing v → k'.access loc .node = some v) ∧
      ∀ dvp name, target = .missing dvp name →
        k'.access loc .node = some base ∧ o.creat = true ∧ b = true := by
  obtain ⟨_, ⟨_, rfl, hnode⟩ | ⟨k, n, hm, rfl, hk⟩⟩ := h
  · exact ⟨fun v hv => by cases hv; exact hnode, fun _ _ h => by cases h⟩
  · refine ⟨?_, ?_⟩
    · exact fun v hv => (hm.found v (Named.target_existing.mp hv)).1
    · intro dvp name hv
      have hvp : n.vp = none := by rw [Named.target_missing.mp hv]
      grind [hm.creates, hm.missing]

/-- **The evaluation of a path leaves the location at its target.** -/
theorem evalPath_located (m : Mounted T k loc)
    (h : rtemsBsdVfsEvalPath E T k loc m.rootloc o path = some (.resolved base target k')) :
    Located T k' loc m.rootloc o path base target := by
  obtain ⟨vp, hvp, heval⟩ := Option.map_eq_some_iff.mp h
  obtain ⟨k₀, hk₀⟩ : ∃ k₀, exec (exec k (rtemsBsdLibioLocSetVnode k loc (some vp)))
      (rtemsBsdLibioLocSetVnodeDir (exec k (rtemsBsdLibioLocSetVnode k loc (some vp))) loc (some vp)) = k₀ := ⟨_, rfl⟩
  simp only [hk₀] at heval
  have hnode : k₀.access loc .node = some vp := by
    rw [← hk₀, rtemsBsdLibioLocSetVnodeDir, rtemsBsdLibioLocSetVnode, access_locSet .dir _ loc _ (loc, .node),
      access_locSet .node k loc _ (loc, .node)]
    simp
  have honly : ∀ init t rest, E.tokens path = init ++ (t, true) :: rest → rest = [] := fun init t rest hts =>
    ((E.noMorePath path init t true rest hts).mp rfl).1
  rcases (evalTokens_resolved m.ne _ k₀ vp vp hnode honly heval).2 with ⟨hnil, rfl, rfl⟩ | ⟨init, t, b, hts, harr⟩
  · refine ⟨fun v hv => ?_, fun _ _ hv => (by cases hv), fun hlast => absurd hnil (E.tokens_ne_nil path hlast)⟩
    cases hv
    exact hnode
  · refine ⟨harr.node.1, fun dvp name hv => ?_, fun hlast => ⟨b, ?_⟩⟩
    · grind [harr.node, E.noMorePath]
    · rw [← E.tokens_lastToken path hts hlast]
      exact harr

section

variable {rootloc : Nat} (hloc : Located T k' loc rootloc o path base target)

include hloc in
theorem Located.isDir_of_dot {v : Vnode} (hv : target = .existing v)
    (hdot : isCurrentDirectory (lastToken path) = true ∨ isParentDirectory (lastToken path) = true) :
    T.isDir v = true := by
  have hlast : lastToken path ≠ [] := by
    rintro h
    rw [h] at hdot
    cases hdot <;> contradiction
  obtain ⟨b, hdir, ⟨_, hbase, _⟩ | ⟨k₁, n, hm, hn, _⟩⟩ := hloc.last hlast
  · cases hbase.symm.trans hv
    exact hdir
  · have hparent : lastToken path = ['.', '.'] := by
      rcases hdot with h | h
      · rw [hm.notDot] at h
        cases h
      · exact beq_iff_eq.mp h
    obtain ⟨p, hp, hpdir⟩ := T.component_parent hdir (tokenKernel k₁ base)
    have hlookup := hm.lookup
    rw [hparent, Tree.nameiToken, Tree.namei_plain hdir (by simp) (by simp) (by decide) hp
      fun link h => absurd h (Tree.node_ne_link T hpdir link)] at hlookup
    cases hlookup
    rw [hv] at hn
    cases Named.target_existing.mp hn
    exact hpdir

include hloc in
/-- A path that does not end with a delimiter or with `.` ends with a name that was looked up. -/
theorem Located.moved (hlast : lastToken path ≠ []) (hdot : isCurrentDirectory (lastToken path) = false) :
    T.isDir base = true ∧ ∃ k₁ b n, Moved T loc rootloc o k₁ k' base (lastToken path) b n ∧ n.target = target := by
  obtain ⟨b, hdir, ⟨hcur, _, _⟩ | ⟨k₁, n, hm, hn, _⟩⟩ := hloc.last hlast
  · rw [hdot] at hcur
    cases hcur
  · exact ⟨hdir, k₁, b, n, hm, hn⟩

theorem lastToken_slash : ∀ c ∈ lastToken path, c ≠ '/' := by
  rintro c hc rfl
  cases lastToken_mem path hc

theorem LeadsTo.isDir {dvp : Vnode} (h : LeadsTo T k o dvp (lastToken path) target) :
    T.isDir dvp = true ∧ lastToken path ≠ [] := by
  obtain ⟨n, hn, _⟩ := h
  exact T.isDir_of_namei lastToken_slash hn

include hloc in
/-- A name that is not a link leads from the directory in which it was found to the same vnode. -/
theorem Located.leadsTo_of_name {v : Vnode} (hv : target = .existing v) (hlast : lastToken path ≠ [])
    (hcur : isCurrentDirectory (lastToken path) = false) (hpar : isParentDirectory (lastToken path) = false)
    (hcreat : o.creat = false) {dvp : Vnode} (hdvp : k'.access loc .dir = some dvp)
    (hlink : ¬ T.FollowsLink base (lastToken path) o) : LeadsTo T k o dvp (lastToken path) (.existing v) := by
  obtain ⟨hdir, k₁, b, n, hm, hn⟩ := hloc.moved hlast hcur
  have hnv := Named.target_existing.mp (hn.trans hv)
  have hn' := hm.lookup
  rw [Tree.nameiToken, hcreat, Bool.and_false] at hn'
  obtain ⟨r, hr⟩ := T.vopLookup_ok hdir (lastToken path)
  cases r with
  | none =>
    rw [Tree.namei_absent hdir hlast lastToken_slash hm.length ((T.component_name hpar _ _).trans hr)] at hn'
    cases hn'
  | some w =>
    have hplain : ∀ link, T.node w = .link link → (!o.nofollow) = false := by
      intro link hw
      by_contra hfollow
      exact hlink ⟨w, link, hr, hw, by simpa using hfollow⟩
    rw [Tree.namei_plain hdir hlast lastToken_slash hm.length ((T.component_name hpar _ _).trans hr) hplain] at hn'
    cases hn'
    cases hnv
    have hbase : dvp = base := Option.some.inj (hdvp.symm.trans (hm.found _ rfl).2)
    subst hbase
    have hfollows : o.follows = !o.nofollow := by simp [Oflag.follows, Oflag.creates, hcreat]
    refine ⟨⟨dvp, some v, lastToken path⟩, ?_, rfl⟩
    rw [hfollows]
    exact Tree.namei_plain hdir hlast lastToken_slash hm.length ((T.component_name hpar _ _).trans hr) hplain

/-- The open looks for `.` in the location, or for the last token. -/
theorem openDot_iff (vn rvn : Vnode) :
    openDot vn rvn (opening path o (.error ENOENT)) = true ↔
      vn = rvn ∨ isCurrentDirectory (lastToken path) = true ∨ isParentDirectory (lastToken path) = true := by
  unfold openDot openPath
  by_cases hv : vn = rvn
  · simp [hv, isCurrentDirectory]
  · simp [hv, opening]

theorem opens_name {vn rvn : Vnode} (hvn : k.access loc .node = some vn) (hroot : vn ≠ rvn)
    (hcur : isCurrentDirectory (lastToken path) = false) (hpar : isParentDirectory (lastToken path) = false) :
    Opens T k loc rvn path o target ↔
      o.invalid = false ∧ T.Allows o target ∧
        LeadsTo T k o (if o.creat then vn else (k.access loc .dir).getD vn) (lastToken path) target := by
  have hdot : openDot vn rvn (opening path o (.error ENOENT)) = false := by
    grind [openDot_iff]
  have hcdir : openCdir k loc vn rvn path o = if o.creat then vn else (k.access loc .dir).getD vn := by
    rw [openCdir, openDir, hdot]
    rfl
  have hopath : openOpath vn rvn path o = lastToken path := by
    rw [openOpath, hdot, openPath, if_neg hroot]
    rfl
  rw [opens_iff_leadsTo hvn, hdot, hcdir, hopath]
  simp

include hloc in
theorem Located.opens_existing {v rvn : Vnode} (hv : target = .existing v) (hrvn : T.isDir rvn = true) :
    Opens T k' loc rvn path o (.existing v) ↔ Agrees T k' loc rvn base path o (.existing v) := by
  have hnode := hloc.existing v hv
  by_cases hdot : openDot v rvn (opening path o (.error ENOENT)) = true
  · have hreopens := (openDot_iff v rvn).mp hdot
    have hdir : T.isDir v = true := by
      rcases hreopens with rfl | h
      · exact hrvn
      · exact hloc.isDir_of_dot hv h
    rw [opens_dot hnode hdir hdot]
    refine and_congr_right fun _ => and_congr_right fun _ => iff_of_true rfl ?_
    rcases hreopens with h | h | h
    · exact .inl h
    · exact .inr (.inl h)
    · exact .inr (.inr (.inl h))
  · rw [openDot_iff, not_or, not_or, Bool.not_eq_true, Bool.not_eq_true] at hdot
    obtain ⟨hroot, hcur, hpar⟩ := hdot
    rw [opens_name hnode hroot hcur hpar]
    refine and_congr_right fun _ => and_congr_right fun hallow => ?_
    have hreopens : Reopens T k' loc rvn base path o v ↔ lastToken path ≠ [] ∧
        if o.creat then o.directory = true ∧ LeadsTo T k' o v (lastToken path) (.existing v)
        else ¬ T.FollowsLink base (lastToken path) o ∨
          ∃ dvp, k'.access loc .dir = some dvp ∧ LeadsTo T k' o dvp (lastToken path) (.existing v) := by
      unfold Reopens
      simp [hroot, hcur, hpar]
    show _ ↔ Reopens T k' loc rvn base path o v
    rw [hreopens]
    cases hcreat : o.creat with
    | true =>
      constructor
      · intro hleads
        grind [hleads.isDir, hallow.not_isDir, Oflag.creates]
      · exact fun h => h.2.2
    | false =>
      constructor
      · intro hleads
        have hlast := hleads.isDir.2
        obtain ⟨_, k₁, b, n, hm, hn⟩ := hloc.moved hlast hcur
        have hdvp := (hm.found v (Named.target_existing.mp (hn.trans hv))).2
        rw [hdvp] at hleads
        exact ⟨hlast, .inr ⟨n.dvp, hdvp, hleads⟩⟩
      · rintro ⟨hlast, hlink | ⟨dvp, hdvp, hleads⟩⟩
        · obtain ⟨_, k₁, b, n, hm, hn⟩ := hloc.moved hlast hcur
          have hdvp := (hm.found v (Named.target_existing.mp (hn.trans hv))).2
          rw [hdvp]
          exact hloc.leadsTo_of_name hv hlast hcur hpar hcreat hdvp hlink
        · rw [hdvp]
          exact hleads

include hloc in
theorem Located.opens_missing {dvp rvn : Vnode} {name : List Char} (hv : target = .missing dvp name)
    (hrvn : T.isDir rvn = true) :
    Opens T k' loc rvn path o (.missing dvp name) ↔ Agrees T k' loc rvn base path o (.missing dvp name) := by
  obtain ⟨hnode, hcreat, hlast⟩ := hloc.missing dvp name hv
  have hcur : isCurrentDirectory (lastToken path) = false := by
    by_contra h
    obtain ⟨b, _, ⟨_, hbase, _⟩ | ⟨k₁, n, hm, _⟩⟩ := hloc.last hlast
    · cases hbase.symm.trans hv
    · exact h hm.notDot
  obtain ⟨hdir, k₁, b, n, hm, hn⟩ := hloc.moved hlast hcur
  have hmiss := Named.target_missing.mp (hn.trans hv)
  have hpar : isParentDirectory (lastToken path) = false := by
    by_contra h
    obtain ⟨p, hp, hpdir⟩ := T.component_parent hdir (tokenKernel k₁ base)
    have hparent : lastToken path = ['.', '.'] := beq_iff_eq.mp (Bool.not_eq_false _ ▸ h)
    have hlookup := hm.lookup
    rw [hparent, Tree.nameiToken, Tree.namei_plain hdir (by simp) (by simp) (by decide) hp
      fun link h => absurd h (Tree.node_ne_link T hpdir link), hmiss] at hlookup
    cases hlookup
  by_cases hroot : base = rvn
  · subst hroot
    have hdot : openDot base base (opening path o (.error ENOENT)) = true := (openDot_iff base base).mpr (.inl rfl)
    rw [opens_dot hnode hrvn hdot]
    constructor
    · rintro ⟨_, _, h⟩
      cases h
    · rintro ⟨_, _, hne, _⟩
      exact absurd rfl hne
  · rw [opens_name hnode hroot hcur hpar, hcreat, if_pos rfl]
    refine and_congr_right fun _ => and_congr_right fun _ => ?_
    constructor
    · intro hleads
      refine ⟨hroot, ?_, .inr hleads⟩
      obtain ⟨n', hn', ht⟩ := hleads
      grind [Oflag.creates, Tree.namei_found, Named.target]
    · rintro ⟨_, hdirectory, habsent | hleads⟩
      · have hlookup := hm.lookup
        have hc := fun k => (T.component_name hpar k base).trans habsent
        have hcreates : o.creates = true := by simp [Oflag.creates, hcreat, hdirectory]
        have hb := hm.creates (by rw [hmiss])
        rw [Tree.nameiToken, hb, Tree.namei_absent hdir hlast lastToken_slash hm.length (hc _), if_pos rfl,
          hmiss] at hlookup
        cases hlookup
        refine ⟨_, ?_, Named.target_missing.mpr rfl⟩
        simp [hcreates, Tree.namei_absent hdir hlast lastToken_slash hm.length (hc _)]
      · exact hleads

end

end Evaluated

/-- **The open of a path that was evaluated opens what the evaluation found, or creates the entry that it found missing,
    exactly if the second lookup agrees.** -/
theorem opens_iff_agrees (E : PathTokens) (T : Tree) (k : Kernel) (loc : Nat) (m : Mounted T k loc) (o : Oflag)
    (path : List Char) (base : Vnode) (target : Target) (k' : Kernel)
    (h : rtemsBsdVfsEvalPath E T k loc m.rootloc o path = some (.resolved base target k')) :
    Opens T k' loc m.rvn path o target ↔ Agrees T k' loc m.rvn base path o target := by
  have hloc := evalPath_located m h
  cases target with
  | existing v => exact hloc.opens_existing rfl m.isDir
  | missing dvp name => exact hloc.opens_missing rfl m.isDir

section Samples

/-- The tokens, and `last` for the last one. -/
def flagLast (last : Bool) : List (List Char) → List (List Char × Bool)
  | [] => []
  | [t] => [(t, last)]
  | t :: u :: ts => (t, false) :: flagLast last (u :: ts)

theorem map_flagLast (last : Bool) : ∀ ts : List (List Char), (flagLast last ts).map Prod.fst = ts
  | [] => rfl
  | [_] => rfl
  | t :: u :: ts => congrArg (t :: ·) (map_flagLast last (u :: ts))

theorem flagLast_flag (last : Bool) {t : List Char} {b : Bool} {rest : List (List Char × Bool)} :
    ∀ (ts : List (List Char)) (init : List (List Char × Bool)), flagLast last ts = init ++ (t, b) :: rest →
      (b = true ↔ rest = [] ∧ last = true) := by
  intro ts
  induction ts with
  | nil => intro init h; simp [flagLast] at h
  | cons u ts ih =>
    intro init h
    cases ts with
    | nil =>
      cases init with
      | nil =>
        cases h
        simp
      | cons x init => simp [flagLast] at h
    | cons w ts =>
      cases init with
      | nil =>
        have hrest : flagLast last (w :: ts) = rest := (List.cons.inj h).2
        cases (List.cons.inj h).1
        have hne : rest ≠ [] := by
          rintro rfl
          have := congrArg (List.map Prod.fst) hrest
          rw [map_flagLast] at this
          cases this
        simp [hne]
      | cons x init => exact ih init (List.cons.inj h).2

def splitTokens : PathTokens where
  tokens path := flagLast (!(lastToken path).isEmpty) ((path.splitOnP isDelimiter).filter (!·.isEmpty))
  map_fst path := map_flagLast _ _
  noMorePath path init t b rest h := by
    rw [flagLast_flag _ _ init h]
    simp

/-- A root directory `0` with the mounted directory `1`.  It has the file `f`, the directory `d` with the file `g`, and
    the link `l` to the latter. -/
def sampleNode : Vnode → Node
  | 0 => .dir 0 [(['m'], 1)]
  | 1 => .dir 0 [(['f'], 2), (['d'], 3), (['l'], 5)]
  | 3 => .dir 1 [(['g'], 4)]
  | 5 => .link ['d', '/', 'g']
  | _ => .file

def sampleTree : Tree where
  node := sampleNode
  vopOpen _ _ := none
  vopCreate _ _ := .ok 6
  MAXSYMLINKS := 32
  MAXPATHLEN := 1024
  parent_isDir v p es h := by
    unfold sampleNode at h
    split at h <;> cases h <;> rfl
  name_fits := by decide

/-- The locations `0` and `1` are at the mounted directory. -/
def sampleKernel : Kernel where
  usecount := 0
  locks := 0
  writes := 0
  names := 0
  pwd := .allAt 0 (some 0)
  rootvnode := 0
  dirOpen := false
  locs := 2
  access _ _ := some 1

def sampleMount : Mounted sampleTree sampleKernel 0 where
  rootloc := 1
  rvn := 1
  ne := by decide
  access := rfl
  isDir := rfl

def rdonly : Oflag := ⟨false, false, false, false, false, false⟩

/-- `O_WRONLY | O_CREAT`. -/
def wronlyCreat : Oflag := ⟨true, true, false, false, false, false⟩

theorem opens_iff_agrees_file :
    ∃ k', rtemsBsdVfsEvalPath splitTokens sampleTree sampleKernel 0 sampleMount.rootloc rdonly ['d', '/', 'g'] =
        some (.resolved 3 (.existing 4) k') ∧
      Opens sampleTree k' 0 sampleMount.rvn ['d', '/', 'g'] rdonly (.existing 4) := by
  refine ⟨_, rfl, (opens_iff_agrees splitTokens sampleTree sampleKernel 0 sampleMount rdonly ['d', '/', 'g'] 3
    (.existing 4) _ rfl).mpr ?_⟩
  refine ⟨rfl, rfl, .inr (.inr (.inr ⟨by decide, .inl ?_⟩))⟩
  rintro ⟨w, target, hw, hlink, _⟩
  cases hw
  cases hlink

def evaluateAndOpen (T : Tree) (k : Kernel) (loc rootloc : Nat) (rvn : Vnode) (o : Oflag) (path : List Char) :
    Option (Target × Option Errno) :=
  match rtemsBsdVfsEvalPath splitTokens T k loc rootloc o path with
  | some (.resolved _ target k') =>
    (k'.access loc .node).map fun vn => (target, (openNode T k' loc vn rvn path o).1)
  | _ => none

/-- The path leads to `target`, which the kernel allows to be opened, and the open does not. -/
def FailsToReopen (o : Oflag) (path : List Char) (target : Target) : Prop :=
  sampleTree.Allows o target ∧ ∃ base k',
    rtemsBsdVfsEvalPath splitTokens sampleTree sampleKernel 0 sampleMount.rootloc o path =
      some (.resolved base target k') ∧ ¬ Opens sampleTree k' 0 sampleMount.rvn path o target

theorem failsToReopen_of_error {o : Oflag} {path : List Char} {target : Target} {e : Errno}
    (hallow : sampleTree.Allows o target)
    (h : evaluateAndOpen sampleTree sampleKernel 0 sampleMount.rootloc sampleMount.rvn o path = some (target, some e)) :
    FailsToReopen o path target := by
  unfold evaluateAndOpen at h
  split at h
  · rename_i base target' k' heval
    obtain ⟨vn, hvn, hopen⟩ := Option.map_eq_some_iff.mp h
    obtain ⟨rfl, herr⟩ := Prod.mk.inj hopen
    refine ⟨hallow, base, k', heval, ?_⟩
    rintro ⟨vn', f, k'', hvn', _, _, _, hopen', _⟩
    cases Option.some.inj (hvn.symm.trans hvn')
    rw [hopen'] at herr
    cases herr
  · cases h

theorem reopening_fails :
    FailsToReopen rdonly ['d', '/'] (.existing 3) ∧
      FailsToReopen rdonly ['l'] (.existing 4) ∧
      FailsToReopen wronlyCreat ['f'] (.existing 2) ∧
      FailsToReopen wronlyCreat ['n'] (.missing 1 ['n']) := by
  refine ⟨?_, ?_, ?_, ?_⟩
  · exact @failsToReopen_of_error _ _ _ ENOENT rfl (by decide)
  · exact @failsToReopen_of_error _ _ _ ENOENT rfl (by decide)
  · exact @failsToReopen_of_error _ _ _ .ENOTDIR rfl (by decide)
  · exact @failsToReopen_of_error _ _ _ .EPERM ⟨6, rfl⟩ (by decide)

end Samples

end RtemsLibbsd.Vfs
