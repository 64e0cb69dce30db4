import Mathlib.Order.Nat
import RtemsLibbsd.Nfs.Mount

/-!
# What a mount leaves behind

* `Same` — the lists, the counters and the objects are as before.
* `AllOrNothing` — a mount that fails leaves everything the same; one that succeeds has entered
  a file system with its server and its root node.
* `serverCreate_spec`, `mntcall_spec` — what the creation of a server and a call leave behind.
* **`allOrNothing_iff`** — a mount is all-or-nothing exactly if it fails at a clean point or not at
  all (`MountEnv.clean`).

`rpcUdpServerCreate` does not release the credentials if the port mapper fails, a failed allocation
of a record ends in an assertion or a null pointer, and the cleanup block releases the `NfsRec`
before the root node.
-/

namespace RtemsLibbsd.NfsMount

open RtemsLibbsd.Transition

structure Same (s t : Driver) : Prop where
  obj : t.heap.obj = s.heap.obj
  misuse : t.heap.misuse = s.heap.misuse
  next : s.heap.next ≤ t.heap.next
  rpcUdpServers : t.rpcUdpServers = s.rpcUdpServers
  mountedFs : t.mountedFs = s.mountedFs
  numMountedFs : t.numMountedFs = s.numMountedFs
  fsIds : t.fsIds = s.fsIds
  mounts : t.mounts = s.mounts

structure Opened (s t : Driver) (srv auth : Nat) : Prop where
  obj : t.heap.obj = fun j =>
    if j = srv then some (.server auth) else if j = auth then some .auth else s.heap.obj j
  ne : srv ≠ auth
  server_new : s.heap.obj srv = none
  auth_new : s.heap.obj auth = none
  server_lt : srv < t.heap.next
  auth_lt : auth < t.heap.next
  misuse : t.heap.misuse = s.heap.misuse
  next : s.heap.next ≤ t.heap.next
  rpcUdpServers : t.rpcUdpServers = srv :: s.rpcUdpServers
  mountedFs : t.mountedFs = s.mountedFs
  numMountedFs : t.numMountedFs = s.numMountedFs
  fsIds : t.fsIds = s.fsIds
  mounts : t.mounts = s.mounts

structure Leaked (s t : Driver) (auth : Nat) : Prop where
  obj : t.heap.obj = fun j => if j = auth then some .auth else s.heap.obj j
  new : s.heap.obj auth = none
  lt : auth < t.heap.next
  misuse : t.heap.misuse = s.heap.misuse
  next : s.heap.next ≤ t.heap.next
  rpcUdpServers : t.rpcUdpServers = s.rpcUdpServers
  mountedFs : t.mountedFs = s.mountedFs
  numMountedFs : t.numMountedFs = s.numMountedFs
  fsIds : t.fsIds = s.fsIds
  mounts : t.mounts = s.mounts

section Servers

variable {s t u : Driver} {srv auth : Nat}

theorem Same.refl (s : Driver) : Same s s := ⟨rfl, rfl, le_rfl, rfl, rfl, rfl, rfl, rfl⟩

theorem Same.fresh (h : Same s t) (hf : s.heap.Fresh) : t.heap.Fresh := by
  intro j hj
  rw [h.obj]
  exact hf j (h.next.trans hj)

theorem Opened.fresh (h : Opened s t srv auth) (hf : s.heap.Fresh) : t.heap.Fresh := by
  intro j hj
  have h1 := h.server_lt
  have h2 := h.auth_lt
  rw [h.obj]
  simp only [show j ≠ srv by omega, show j ≠ auth by omega, if_false]
  exact hf j (h.next.trans hj)

theorem Leaked.fresh (h : Leaked s t auth) (hf : s.heap.Fresh) : t.heap.Fresh := by
  intro j hj
  have h1 := h.lt
  rw [h.obj]
  simp only [show j ≠ auth by omega, if_false]
  exact hf j (h.next.trans hj)

theorem Opened.same (h : Opened s t srv auth) (h' : Same t u) : Opened s u srv auth :=
  ⟨h'.obj.trans h.obj, h.ne, h.server_new, h.auth_new, lt_of_lt_of_le h.server_lt h'.next,
    lt_of_lt_of_le h.auth_lt h'.next, h'.misuse.trans h.misuse, h.next.trans h'.next,
    h'.rpcUdpServers.trans h.rpcUdpServers, h'.mountedFs.trans h.mountedFs,
    h'.numMountedFs.trans h.numMountedFs, h'.fsIds.trans h.fsIds, h'.mounts.trans h.mounts⟩

theorem Leaked.same (h : Leaked s t auth) (h' : Same t u) : Leaked s u auth :=
  ⟨h'.obj.trans h.obj, h.new, lt_of_lt_of_le h.lt h'.next, h'.misuse.trans h.misuse,
    h.next.trans h'.next, h'.rpcUdpServers.trans h.rpcUdpServers, h'.mountedFs.trans h.mountedFs,
    h'.numMountedFs.trans h.numMountedFs, h'.fsIds.trans h.fsIds, h'.mounts.trans h.mounts⟩

theorem leaked_alloc (hf : s.heap.Fresh) : Leaked s (s.alloc .auth) s.heap.next :=
  ⟨rfl, hf _ le_rfl, Nat.lt_succ_self _, rfl, Nat.le_succ _, rfl, rfl, rfl, rfl, rfl⟩

theorem serverDestroy_eq (hsrv : s.heap.obj srv = some (.server auth))
    (hauth : s.heap.obj auth = some .auth) (hmem : srv ∈ s.rpcUdpServers) :
    rpcUdpServerDestroy s srv = { s with
      heap := { s.heap with
        obj := fun j => if j = srv then none else if j = auth then none else s.heap.obj j }
      rpcUdpServers := s.rpcUdpServers.erase srv } := by
  have hne : srv ≠ auth := by
    rintro rfl
    rw [hsrv] at hauth
    cases hauth
  unfold rpcUdpServerDestroy
  simp only [hsrv, if_pos hmem, Driver.free, Heap.free, hauth, if_neg hne]

theorem Opened.destroy (h : Opened s t srv auth) : Same s (rpcUdpServerDestroy t srv) := by
  have hsrv : t.heap.obj srv = some (.server auth) := by simp [h.obj]
  have hauth : t.heap.obj auth = some .auth := by simp [h.obj, h.ne.symm]
  rw [serverDestroy_eq hsrv hauth (by simp [h.rpcUdpServers])]
  refine ⟨?_, h.misuse, h.next, ?_, h.mountedFs, h.numMountedFs, h.fsIds, h.mounts⟩
  · grind [h.obj, h.server_new, h.auth_new]
  · simp [h.rpcUdpServers]

theorem Leaked.link (h : Leaked s t auth) (hf : s.heap.Fresh) (record : Bool) :
    (record = true → ∃ u i, linkServer t auth record = .ok u i ∧ Opened s u i auth) ∧
    (record = false → linkServer t auth record = .fatal) := by
  constructor
  · rintro rfl
    have hnone : s.heap.obj t.heap.next = none := hf _ h.next
    have hne : t.heap.next ≠ auth := Nat.ne_of_gt h.lt
    refine ⟨_, _, rfl, ?_, hne, hnone, h.new, Nat.lt_succ_self _, Nat.lt_succ_of_lt h.lt, h.misuse,
      Nat.le_succ_of_le h.next, congrArg _ h.rpcUdpServers, h.mountedFs, h.numMountedFs, h.fsIds,
      h.mounts⟩
    funext j
    show (if j = t.heap.next then _ else t.heap.obj j) = _
    rw [h.obj]
  · rintro rfl
    rfl

/-- The results for which `rpcUdpServerCreate` with a port succeeds. -/
def PortEnv.works (env : PortEnv) : Bool := env.hostname && env.groups && env.auth && env.record

def PortEnv.clean (env : PortEnv) : Bool := !(env.hostname && env.groups && env.auth) || env.record

theorem serverCreateAt_spec (hf : s.heap.Fresh) (env : PortEnv) :
    (env.works = true → ∃ t i a, serverCreateAt s env = .ok t i ∧ Opened s t i a) ∧
    (env.works = false → env.clean = true → serverCreateAt s env = .error s) ∧
    (env.clean = false → serverCreateAt s env = .fatal) := by
  have hlink := (leaked_alloc hf).link hf env.record
  grind [serverCreateAt, PortEnv.works, PortEnv.clean]

theorem callRp_spec {ε : Type} (h : Opened s t srv auth) (hf : s.heap.Fresh) (env : CallEnv ε) :
    ((env.xact && env.call) = true → ∃ u, callRp (.ok t srv) env = .ok u () ∧ Same s u) ∧
    ((env.xact && env.call) = false → ∃ u, callRp (.ok t srv) env = .error u ∧ Same s u) := by
  have hsame : Same s ((rpcUdpServerDestroy (t.alloc .xact) srv).free t.heap.next) := by
    have hx1 : srv ≠ t.heap.next := Nat.ne_of_lt h.server_lt
    have hx2 : auth ≠ t.heap.next := Nat.ne_of_lt h.auth_lt
    have hsrv : (t.alloc .xact).heap.obj srv = some (.server auth) := by
      rw [Driver.alloc, Heap.alloc_ne _ hx1]
      simp [h.obj]
    have hauth : (t.alloc .xact).heap.obj auth = some .auth := by
      rw [Driver.alloc, Heap.alloc_ne _ hx2]
      simp [h.obj, h.ne.symm]
    rw [serverDestroy_eq hsrv hauth (by
      show srv ∈ t.rpcUdpServers
      simp [h.rpcUdpServers])]
    have hfree : (if t.heap.next = srv then none else if t.heap.next = auth then none else
        (t.heap.alloc .xact).obj t.heap.next) = some Obj.xact := by
      rw [if_neg hx1.symm, if_neg hx2.symm]
      exact Heap.alloc_self _
    refine ⟨?_, ?_, ?_, ?_, h.mountedFs, h.numMountedFs, h.fsIds, h.mounts⟩
    · simp only [Driver.free, Driver.alloc, Heap.free, hfree]
      funext j
      by_cases h1 : j = t.heap.next
      · rw [if_pos h1, h1]
        exact (hf _ h.next).symm
      · rw [if_neg h1, Heap.alloc_ne _ h1, h.obj]
        grind [h.server_new, h.auth_new]
    · simp only [Driver.free, Driver.alloc, Heap.free, hfree]
      exact h.misuse
    · simp only [Driver.free, Driver.alloc, Heap.free, hfree]
      exact Nat.le_succ_of_le h.next
    · show (t.rpcUdpServers.erase srv) = _
      simp [h.rpcUdpServers]
  unfold callRp
  cases hx : env.xact with
  | true =>
    grind
  | false =>
    constructor
    · intro hc
      cases hc
    · intro _
      exact ⟨_, rfl, h.destroy⟩

def CallEnv.answers (env : CallEnv PortEnv) : Bool := env.server.works && (env.xact && env.call)

/-- The results with which `rpcUdpServerCreate` gets as far as to have credentials. -/
def ServerEnv.begun (env : ServerEnv) : Bool := env.hostname && env.groups && env.auth

/-- The results for which `rpcUdpServerCreate` succeeds. -/
def ServerEnv.works (env : ServerEnv) : Bool :=
  env.begun && (env.pmap.answers && (env.port != 0 && env.record))

def ServerEnv.clean (env : ServerEnv) : Bool := !env.begun || env.works

theorem pmap_spec (hf : s.heap.Fresh) (env : CallEnv PortEnv) :
    (env.answers = true → ∃ t, callRp (serverCreateAt s env.server) env = .ok t () ∧ Same s t) ∧
    (env.answers = false → callRp (serverCreateAt s env.server) env = .fatal ∨
      ∃ t, callRp (serverCreateAt s env.server) env = .error t ∧ Same s t) := by
  obtain ⟨hok, herr, hfatal⟩ := serverCreateAt_spec hf env.server
  unfold CallEnv.answers
  cases hw : env.server.works with
  | true =>
    obtain ⟨t, i, a, ht, ho⟩ := hok hw
    rw [ht, Bool.true_and]
    obtain ⟨h1, h2⟩ := callRp_spec ho hf env
    exact ⟨h1, fun h => .inr (h2 h)⟩
  | false =>
    refine ⟨fun h => (by cases h), fun _ => ?_⟩
    cases hc : env.server.clean with
    | true =>
      rw [herr hw hc]
      exact .inr ⟨s, rfl, Same.refl s⟩
    | false =>
      rw [hfatal hc]
      exact .inl rfl

/-- **`rpcUdpServerCreate`**: a server, or nothing; outside of the clean points credentials are left
    behind or the system ends. -/
theorem serverCreate_spec (hf : s.heap.Fresh) (env : ServerEnv) :
    (env.works = true → ∃ t i a, rpcUdpServerCreate s env = .ok t i ∧ Opened s t i a) ∧
    (env.begun = false → rpcUdpServerCreate s env = .error s) ∧
    (env.clean = false → rpcUdpServerCreate s env = .fatal ∨
      ∃ t a, rpcUdpServerCreate s env = .error t ∧ Leaked s t a) := by
  unfold ServerEnv.clean ServerEnv.works rpcUdpServerCreate
  cases hb : env.begun with
  | false =>
    have hb' : (env.hostname && env.groups && env.auth) = false := hb
    rw [hb']
    simp
  | true =>
    have hb' : (env.hostname && env.groups && env.auth) = true := hb
    have hl := leaked_alloc hf
    rw [hb']
    simp only [Bool.true_and, Bool.not_true, Bool.false_or, if_true]
    obtain ⟨hans, hno⟩ := pmap_spec (hl.fresh hf) env.pmap
    cases hp : env.pmap.answers with
    | false =>
      refine ⟨fun h => (by cases h), fun h => (by cases h), fun _ => ?_⟩
      rcases hno hp with h | ⟨t, ht, hsame⟩
      · exact .inl (by rw [h])
      · exact .inr ⟨t, _, by rw [ht], hl.same hsame⟩
    | true =>
      obtain ⟨t, ht, hsame⟩ := hans hp
      have hlt := hl.same hsame
      obtain ⟨h1, h2⟩ := hlt.link hf env.record
      grind

/-- The results for which `mntcall` succeeds. -/
def CallEnv.mounts (env : CallEnv ServerEnv) : Bool := env.server.works && (env.xact && env.call)

/-- **`mntcall`** leaves nothing behind if its server is created at clean points. -/
theorem mntcall_spec (hf : s.heap.Fresh) (env : CallEnv ServerEnv) :
    (env.mounts = true → ∃ t, mntcall s env = .ok t () ∧ Same s t) ∧
    (env.mounts = false → env.server.clean = true → ∃ t, mntcall s env = .error t ∧ Same s t) ∧
    (env.server.clean = false → mntcall s env = .fatal ∨
      ∃ t a, mntcall s env = .error t ∧ Leaked s t a) := by
  obtain ⟨hok, herr, hbad⟩ := serverCreate_spec hf env.server
  unfold CallEnv.mounts mntcall
  cases hw : env.server.works with
  | true =>
    grind [callRp_spec]
  | false =>
    refine ⟨fun h => (by cases h), fun _ hc => ?_, fun hc => ?_⟩
    · have hb : env.server.begun = false := by simpa [ServerEnv.clean, hw] using hc
      rw [herr hb]
      exact ⟨s, rfl, Same.refl s⟩
    · grind [callRp]

end Servers

/-- A file system was entered: its record, with one node, its server and its root node are new. -/
structure Entered (s t : Driver) (f root srv auth : Nat) : Prop where
  obj : t.heap.obj = fun j =>
    if j = root then some (.node f none)
    else if j = f then some (.nfs srv 1 s.fsIds)
    else if j = srv then some (.server auth)
    else if j = auth then some .auth
    else s.heap.obj j
  new : ∀ j, j = root ∨ j = f ∨ j = srv ∨ j = auth → s.heap.obj j = none
  distinct : [root, f, srv, auth].Nodup
  fresh : t.heap.Fresh
  next : s.heap.next ≤ t.heap.next
  misuse : t.heap.misuse = s.heap.misuse
  rpcUdpServers : t.rpcUdpServers = srv :: s.rpcUdpServers
  mountedFs : t.mountedFs = f :: s.mountedFs
  numMountedFs : t.numMountedFs = s.numMountedFs + 1
  mounts : t.mounts = ⟨f, root⟩ :: s.mounts

/-- A mount returns; if it fails, lists, counters and objects are as before and nothing was used
    after its release, and if it succeeds a file system was entered. -/
def AllOrNothing (s : Driver) (env : MountEnv) : Prop :=
  match rtemsNfsInitialize s env with
  | .fatal => False
  | .returns t (some _) => Same s t
  | .returns t none => ∃ f root srv auth, Entered s t f root srv auth

/-- The mount fails at a clean point or succeeds: it does not fail to create a server once there are
    credentials for it, and after the answer to the mount call nothing fails. -/
def MountEnv.clean (env : MountEnv) : Prop :=
  env.rpcUdpInit = false ∨ env.nfsInit = false ∨
  buildIpAddr env.scanIds env.resolve env.dev = none ∨
  env.server.clean = true ∧
    (env.server.works = true → env.ping = none →
      env.mnt.server.clean = true ∧
      (env.mnt.mounts = true → env.fhsStatus = 0 →
        env.nfs = true ∧ env.node = true ∧ env.attr = none))

instance (env : MountEnv) : Decidable env.clean := by
  unfold MountEnv.clean
  infer_instance

section Mounts

variable {s t : Driver} {srv auth : Nat}

theorem Leaked.not_same {u : Driver} {a : Nat} (ho : Opened s t srv auth) (hl : Leaked t u a) :
    ¬ Same s (rpcUdpServerDestroy u srv) := by
  intro hsame
  have hta := hl.new
  have h1 : a ≠ srv := by
    rintro rfl
    rw [ho.obj] at hta
    simp at hta
  have h2 : a ≠ auth := by
    rintro rfl
    rw [ho.obj] at hta
    simp [h1] at hta
  have hsa : s.heap.obj a = none := by
    rw [ho.obj] at hta
    simpa [h1, h2] using hta
  have hsrv : u.heap.obj srv = some (.server auth) := by
    rw [hl.obj, ho.obj]
    simp [h1.symm]
  have hauth : u.heap.obj auth = some .auth := by
    rw [hl.obj, ho.obj]
    simp [ho.ne.symm]
  have hmem : srv ∈ u.rpcUdpServers := by simp [hl.rpcUdpServers, ho.rpcUdpServers]
  have hobj := congrFun hsame.obj a
  rw [serverDestroy_eq hsrv hauth hmem, hsa] at hobj
  simp [h1, h2, hl.obj] at hobj

theorem nodeCreate_eq (t : Driver) (srv : Nat) :
    nfsNodeCreate (nfsCreate t srv) t.heap.next = { t with
      heap := ⟨fun j =>
        if j = t.heap.next then some (.nfs srv 1 0)
        else if j = t.heap.next + 1 then some (.node t.heap.next none)
        else t.heap.obj j, t.heap.next + 2, t.heap.misuse⟩
      mountedFs := t.heap.next :: t.mountedFs } := by
  simp only [nfsNodeCreate, nfsCreate, addNodes, Driver.alloc, Heap.alloc, Heap.set]
  grind

theorem nodeDestroy_dangling {f n : Nat} (hn : s.heap.obj n = some (.node f none))
    (hf : s.heap.obj f = none) : (nfsNodeDestroy s n).heap.misuse = true := by
  unfold nfsNodeDestroy
  simp only [hn, addNodes, hf, Driver.misused, Driver.free, Heap.free]

theorem Opened.entered (ho : Opened s t srv auth) (hf : s.heap.Fresh) :
    Entered s (enter (nfsNodeCreate (nfsCreate t srv) t.heap.next) t.heap.next (t.heap.next + 1))
      t.heap.next (t.heap.next + 1) srv auth := by
  have h1 := ho.server_lt
  have h2 := ho.auth_lt
  have h3 := ho.next
  have hft := ho.fresh hf
  have heq : enter (nfsNodeCreate (nfsCreate t srv) t.heap.next) t.heap.next (t.heap.next + 1) =
      { t with
        heap := ⟨fun j =>
          if j = t.heap.next then some (.nfs srv 1 t.fsIds)
          else if j = t.heap.next + 1 then some (.node t.heap.next none)
          else t.heap.obj j, t.heap.next + 2, t.heap.misuse⟩
        mountedFs := t.heap.next :: t.mountedFs
        numMountedFs := t.numMountedFs + 1
        fsIds := (t.fsIds + 1) % 2 ^ 16
        mounts := ⟨t.heap.next, t.heap.next + 1⟩ :: t.mounts } := by
    rw [nodeCreate_eq]
    simp only [enter, Heap.set, if_true]
    congr 2
    funext j
    by_cases hj : j = t.heap.next
    · simp [hj]
    · simp [hj]
  rw [heq]
  refine ⟨?_, ?_, ?_, ?_, Nat.le_trans h3 (Nat.le_add_right _ 2), ho.misuse, ho.rpcUdpServers,
    congrArg _ ho.mountedFs, ?_, congrArg _ ho.mounts⟩
  · grind [ho.obj, ho.fsIds]
  · rintro j (rfl | rfl | rfl | rfl)
    · exact hf _ (by omega)
    · exact hf _ (by omega)
    · exact ho.server_new
    · exact ho.auth_new
  · have := ho.ne
    simp only [List.nodup_cons, List.mem_cons, List.not_mem_nil, or_false, not_or, not_false_eq_true,
      List.nodup_nil, and_true]
    omega
  · intro j hj
    have hj' : t.heap.next + 2 ≤ j := hj
    show (if j = t.heap.next then some (.nfs srv 1 t.fsIds)
      else if j = t.heap.next + 1 then some (.node t.heap.next none) else t.heap.obj j) = none
    rw [if_neg (by omega), if_neg (by omega)]
    exact hft j (by omega)
  · show t.numMountedFs + 1 = s.numMountedFs + 1
    rw [ho.numMountedFs]

theorem Opened.cleanup_misuses (ho : Opened s t srv auth) :
    (nfsNodeDestroy (nfsDestroy (nfsNodeCreate (nfsCreate t srv) t.heap.next) t.heap.next)
      (t.heap.next + 1)).heap.misuse = true := by
  have h1 := ho.server_lt
  have h2 := ho.auth_lt
  obtain ⟨u, hu⟩ : ∃ u, u = nfsNodeCreate (nfsCreate t srv) t.heap.next := ⟨_, rfl⟩
  rw [← hu]
  rw [nodeCreate_eq] at hu
  have hobj : u.heap.obj = fun j => if j = t.heap.next then some (.nfs srv 1 0)
      else if j = t.heap.next + 1 then some (.node t.heap.next none) else t.heap.obj j := by rw [hu]
  have hsrv : u.heap.obj srv = some (.server auth) := by
    rw [hobj, ho.obj]
    simp [show srv ≠ t.heap.next by omega, show srv ≠ t.heap.next + 1 by omega]
  have hauth : u.heap.obj auth = some .auth := by
    rw [hobj, ho.obj]
    simp only [show auth ≠ t.heap.next by omega, show auth ≠ t.heap.next + 1 by omega, if_false,
      ho.ne.symm, if_true]
  have hmem : srv ∈ u.rpcUdpServers := by
    rw [hu]
    simp [ho.rpcUdpServers]
  have hdestroy : nfsDestroy u t.heap.next = { u with
      heap := { u.heap with obj := fun j => if j = t.heap.next then none
        else if j = srv then none else if j = auth then none else u.heap.obj j }
      rpcUdpServers := u.rpcUdpServers.erase srv
      mountedFs := u.mountedFs.erase t.heap.next } := by
    have hf : u.heap.obj t.heap.next = some (.nfs srv 1 0) := by simp [hobj]
    have hfm : t.heap.next ∈ u.mountedFs := by
      rw [hu]
      exact List.mem_cons_self
    unfold nfsDestroy
    simp only [hf, if_pos hfm]
    rw [serverDestroy_eq (s := { u with mountedFs := u.mountedFs.erase t.heap.next }) hsrv hauth hmem]
    simp only [Driver.free, Heap.free, show t.heap.next ≠ srv by omega, show t.heap.next ≠ auth by omega,
      if_false, hf]
  rw [hdestroy]
  apply nodeDestroy_dangling (f := t.heap.next)
  · grind
  · simp

/-- **A mount is all-or-nothing exactly if it fails at a clean point or not at all.** -/
theorem allOrNothing_iff (hf : s.heap.Fresh) (hm : s.heap.misuse = false) (env : MountEnv) :
    AllOrNothing s env ↔ env.clean := by
  unfold AllOrNothing MountEnv.clean rtemsNfsInitialize
  by_cases hinit : env.rpcUdpInit = false ∨ env.nfsInit = false
  · grind [Same.refl]
  rw [if_neg hinit]
  by_cases hip : buildIpAddr env.scanIds env.resolve env.dev = none
  · rw [if_pos hip]
    exact ⟨fun _ => .inr (.inr (.inl hip)), fun _ => Same.refl s⟩
  rw [if_neg hip]
  have hdrop : ∀ p : Prop, (env.rpcUdpInit = false ∨ env.nfsInit = false ∨
      buildIpAddr env.scanIds env.resolve env.dev = none ∨ p) ↔ p := by
    intro p
    grind
  rw [hdrop]
  obtain ⟨hok, herr, hbad⟩ := serverCreate_spec hf env.server
  cases hc : env.server.clean with
  | false =>
    refine ⟨?_, fun h => (by cases h.1)⟩
    rcases hbad hc with h | ⟨t, a, ht, hl⟩
    · rw [h]
      exact False.elim
    · rw [ht]
      intro hsame
      have := congrFun hsame.obj a
      simp [hl.new, hl.obj] at this
  | true =>
    rw [eq_self_iff_true, true_and]
    cases hw : env.server.works with
    | false =>
      have hb : env.server.begun = false := by simpa [ServerEnv.clean, hw] using hc
      rw [herr hb]
      exact ⟨fun _ h => (by cases h), fun _ => Same.refl s⟩
    | true =>
      obtain ⟨t, srv, auth, ht, ho⟩ := hok hw
      rw [ht, eq_self_iff_true, forall_const]
      cases hping : env.ping with
      | some e => exact ⟨fun _ h => (by cases h), fun _ => ho.destroy⟩
      | none =>
        rw [eq_self_iff_true, forall_const]
        obtain ⟨hok', herr', hbad'⟩ := mntcall_spec (ho.fresh hf) env.mnt
        cases hc' : env.mnt.server.clean with
        | false =>
          refine ⟨?_, fun h => (by cases h.1)⟩
          rcases hbad' hc' with h | ⟨u, a, hu, hl⟩
          · simp only [h]
            exact False.elim
          · simp only [hu]
            exact fun hsame => absurd hsame (hl.not_same ho)
        | true =>
          rw [eq_self_iff_true, true_and]
          cases hw' : env.mnt.mounts with
          | false =>
            obtain ⟨u, hu, hsame⟩ := herr' hw' hc'
            simp only [hu]
            exact ⟨fun _ h => (by cases h), fun _ => (ho.same hsame).destroy⟩
          | true =>
            obtain ⟨u, hu, hsame⟩ := hok' hw'
            have ho' := ho.same hsame
            simp only [hu]
            by_cases hst : env.fhsStatus = 0
            · simp only [hst, ne_eq, not_true, if_false, forall_const]
              cases hn : env.nfs with
              | false => simp
              | true =>
                cases hno : env.node with
                | false => simp
                | true =>
                  cases hattr : env.attr with
                  | none =>
                    simp only [Bool.true_eq_false, if_false, true_and, iff_true]
                    exact ⟨_, _, _, _, ho'.entered hf⟩
                  | some e =>
                    simp only [Bool.true_eq_false, if_false, reduceCtorEq, and_false, iff_false]
                    intro hs
                    have := hs.misuse
                    rw [hm] at this
                    cases this.symm.trans ho'.cleanup_misuses
            · simp only [hst, ne_eq, not_false_eq_true, if_true, false_implies, implies_true, iff_true]
              exact ho'.destroy

end Mounts

end RtemsLibbsd.NfsMount
