import RtemsLibbsd.Nfs.Ledger

/-!
# Nodes in use

* `Served`, `Named` — what servers, file systems, nodes and names refer to is allocated, and is
  referred to once.
* `Counted` — the invariant of runs: every file system counts its live nodes.
* `Counted.nodes` — the general case of an operation on one node; `nfsNodeCreate`, `nfsNodeClone`,
  `nfsNodeDestroy` and `nfs_move_node` are instances of it.
* **`mounts_of_run`** — in every run whose mounts fail at clean points only (`MountEnv.clean`), file
  systems count their nodes, an unmount is refused while a node other than the root is live, and a
  mount is all-or-nothing exactly if it is clean.

The cleanup block of a mount releases the `NfsRec` before the root node, which then decrements a
counter in it (`attrEnv_misuses`).
-/

namespace RtemsLibbsd.NfsMount

open List RtemsLibbsd.Transition

inductive Held where
  | auth
  | server (a : Nat)
  | nfs (srv : Nat)

def Obj.held : Obj → Option Held
  | .auth => some .auth
  | .server a => some (.server a)
  | .nfs srv _ _ => some (.nfs srv)
  | _ => none

def Driver.held (s : Driver) (i : Nat) : Option Held := (s.heap.obj i).bind Obj.held

structure Served (s : Driver) : Prop where
  server : ∀ i a, s.held i = some (.server a) → s.held a = some .auth
  nfs : ∀ f srv, s.held f = some (.nfs srv) →
    f ∈ s.mountedFs ∧ srv ∈ s.rpcUdpServers ∧ ∃ a, s.held srv = some (.server a)
  listed : ∀ f ∈ s.mountedFs, ∃ srv, s.held f = some (.nfs srv)
  auth_inj : ∀ i j a, s.held i = some (.server a) → s.held j = some (.server a) → i = j
  server_inj : ∀ f g srv, s.held f = some (.nfs srv) → s.held g = some (.nfs srv) → f = g

def Obj.asNode : Obj → Option (Nat × Option Nat)
  | .node f name => some (f, name)
  | _ => none

def Driver.nodeAt (s : Driver) (i : Nat) : Option (Nat × Option Nat) := (s.heap.obj i).bind Obj.asNode

structure Named (s : Driver) : Prop where
  node : ∀ n f name, s.nodeAt n = some (f, name) →
    f ∈ s.mountedFs ∧ ∀ c, name = some c → s.heap.obj c = some .str
  name_inj : ∀ n m f g c, s.nodeAt n = some (f, some c) → s.nodeAt m = some (g, some c) → n = m
  root : ∀ m ∈ s.mounts, s.nodeAt m.root = some (m.nfs, none)

def Obj.isNodeOf (f : Nat) : Obj → Bool
  | .node g _ => g == f
  | _ => false

def Driver.liveNodes (s : Driver) (f : Nat) : Nat := s.heap.count (Obj.isNodeOf f)

structure Counted (s : Driver) : Prop where
  fresh : s.heap.Fresh
  misuse : s.heap.misuse = false
  mountedFs : s.mountedFs = s.mounts.map Mount.nfs
  nodup : s.mountedFs.Nodup
  numMountedFs : s.numMountedFs = s.mounts.length
  served : Served s
  named : Named s
  nodesInUse : ∀ f srv n id, s.heap.obj f = some (.nfs srv n id) → n = s.liveNodes f

variable {s t : Driver}

theorem held_auth {i : Nat} : s.held i = some .auth ↔ s.heap.obj i = some .auth := by
  unfold Driver.held
  cases s.heap.obj i with
  | none => simp
  | some o => cases o <;> simp [Obj.held]

theorem held_server {i a : Nat} : s.held i = some (.server a) ↔ s.heap.obj i = some (.server a) := by
  unfold Driver.held
  cases s.heap.obj i with
  | none => simp
  | some o => cases o <;> simp [Obj.held]

theorem held_of_nfs {f srv id : Nat} {n : Int} (h : s.heap.obj f = some (.nfs srv n id)) :
    s.held f = some (.nfs srv) := by
  unfold Driver.held
  rw [h]
  rfl

theorem held_nfs {f srv : Nat} (h : s.held f = some (.nfs srv)) :
    ∃ n id, s.heap.obj f = some (.nfs srv n id) := by
  unfold Driver.held at h
  cases ho : s.heap.obj f with
  | none =>
    rw [ho] at h
    cases h
  | some o =>
    rw [ho] at h
    cases o with
    | nfs srv' n id =>
      cases h
      exact ⟨n, id, rfl⟩
    | _ => cases h

variable {name : Option Nat}

theorem nodeAt_eq {n f : Nat} :
    s.nodeAt n = some (f, name) ↔ s.heap.obj n = some (.node f name) := by
  unfold Driver.nodeAt
  cases s.heap.obj n with
  | none => simp
  | some o => cases o <;> simp [Obj.asNode]

theorem Counted.nfs_of_node (h : Counted s) {n f : Nat} (hn : s.heap.obj n = some (.node f name)) :
    ∃ srv k id, s.heap.obj f = some (.nfs srv k id) := by
  obtain ⟨srv, hsrv⟩ := h.served.listed f (h.named.node n f name (nodeAt_eq.mpr hn)).1
  obtain ⟨k, id, hf⟩ := held_nfs hsrv
  exact ⟨srv, k, id, hf⟩

theorem Served.of_held (h : Served s) (hheld : t.held = s.held) (hservers : t.rpcUdpServers = s.rpcUdpServers)
    (hmounted : t.mountedFs = s.mountedFs) : Served t := by
  refine ⟨?_, ?_, ?_, ?_, ?_⟩
  all_goals rw [hheld]
  · exact h.server
  · rw [hmounted, hservers]
    exact h.nfs
  · rw [hmounted]
    exact h.listed
  · exact h.auth_inj
  · exact h.server_inj

theorem nodeDestroy_eq {n f srv id : Nat} {k : Int}
    (hn : s.heap.obj n = some (.node f name)) (hf : s.heap.obj f = some (.nfs srv k id))
    (hname : ∀ c, name = some c → s.heap.obj c = some .str) :
    nfsNodeDestroy s n = { s with
      heap := { s.heap with
        obj := fun j =>
          if j = n ∨ name = some j then none
          else if j = f then some (.nfs srv (k - 1) id)
          else s.heap.obj j } } := by
  have hnf : n ≠ f := by
    rintro rfl
    rw [hn] at hf
    cases hf
  cases name with
  | none =>
    simp only [nfsNodeDestroy, addNodes, hn, hf, Heap.set, Driver.free, Heap.free, hnf, if_false]
    grind
  | some c =>
    have hc := hname c rfl
    have hcn : c ≠ n := by
      rintro rfl
      rw [hn] at hc
      cases hc
    have hcf : c ≠ f := by
      rintro rfl
      rw [hf] at hc
      cases hc
    simp only [nfsNodeDestroy, addNodes, hn, hf, hc, Heap.set, Driver.free, Heap.free, hnf, hcf, hcn.symm, if_false]
    grind

/-- The object at an address is a node of `f`. -/
def Driver.nodeOf (s : Driver) (i f : Nat) : Bool := (s.heap.obj i).any (Obj.isNodeOf f)

theorem nodeOf_congr {i j : Nat} (h : t.nodeAt i = s.nodeAt j) (f : Nat) : t.nodeOf i f = s.nodeOf j f := by
  have hany : ∀ o : Option Obj, o.any (Obj.isNodeOf f) = (o.bind Obj.asNode).any fun x => x.1 == f := by
    intro o
    cases o with
    | none => rfl
    | some o => cases o <;> rfl
  unfold Driver.nodeOf
  rw [hany, hany]
  exact congrArg _ h

/-- **One node changes**: it is new, gone, or has another name. -/
theorem Counted.nodes (h : Counted s) {n : Nat} (hfresh : t.heap.Fresh)
    (hnext : s.heap.next ≤ t.heap.next) (hn : n < t.heap.next) (hmisuse : t.heap.misuse = false)
    (hlists : t.mountedFs = s.mountedFs ∧ t.rpcUdpServers = s.rpcUdpServers ∧ t.mounts = s.mounts ∧
      t.numMountedFs = s.numMountedFs)
    (hheld : t.held = s.held) (hother : ∀ j ≠ n, t.nodeAt j = s.nodeAt j)
    (hroot : ∀ m ∈ s.mounts, m.root ≠ n)
    (hnew : ∀ f name, t.nodeAt n = some (f, name) → f ∈ s.mountedFs ∧
      ∀ c, name = some c → t.heap.obj c = some .str ∧ ∀ j g, j ≠ n → s.nodeAt j ≠ some (g, some c))
    (hnames : ∀ j g c, j ≠ n → s.nodeAt j = some (g, some c) → t.heap.obj c = some .str)
    (hcount : ∀ f srv k id, t.heap.obj f = some (.nfs srv k id) →
      ∃ k', s.heap.obj f = some (.nfs srv k' id) ∧
        k + (s.nodeOf n f).toNat = k' + (t.nodeOf n f).toNat) : Counted t := by
  obtain ⟨hmounted, hservers, hmounts, hnum⟩ := hlists
  refine ⟨hfresh, hmisuse, ?_, ?_, ?_, h.served.of_held hheld hservers hmounted, ⟨?_, ?_, ?_⟩, ?_⟩
  · rw [hmounted, hmounts]
    exact h.mountedFs
  · rw [hmounted]
    exact h.nodup
  · rw [hnum, hmounts]
    exact h.numMountedFs
  · intro m f name hm
    by_cases hmn : m = n
    · grind
    · rw [hother m hmn] at hm
      rw [hmounted]
      refine ⟨(h.named.node m f name hm).1, ?_⟩
      rintro c rfl
      exact hnames m f c hmn hm
  · intro m l f g c hm hl
    by_cases hmn : m = n
    · grind
    · by_cases hln : l = n
      · subst hln
        rw [hother m hmn] at hm
        exact absurd hm (((hnew g _ hl).2 c rfl).2 m f hmn)
      · grind [h.named.name_inj]
  · intro m hm
    rw [hmounts] at hm
    rw [hother m.root (hroot m hm)]
    exact h.named.root m hm
  · intro f srv k id hf
    obtain ⟨k', hf', hk⟩ := hcount f srv k id hf
    have hold := h.nodesInUse f srv k' id hf'
    have hchange := Heap.count_change (p := Obj.isNodeOf f) h.fresh hnext hn
      fun j hj => nodeOf_congr (hother j hj) f
    unfold Driver.liveNodes at hold ⊢
    unfold Driver.nodeOf at hk
    omega

theorem Counted.destroy (h : Counted s) {n f : Nat}
    (hn : s.heap.obj n = some (.node f name)) (hroot : ∀ m ∈ s.mounts, m.root ≠ n) :
    Counted (nfsNodeDestroy s n) := by
  obtain ⟨srv, k, id, hf⟩ := h.nfs_of_node hn
  have hname := (h.named.node n f name (nodeAt_eq.mpr hn)).2
  rw [nodeDestroy_eq hn hf hname]
  obtain ⟨t, ht⟩ : ∃ t : Driver, t = { s with
      heap := { s.heap with
        obj := fun j =>
          if j = n ∨ name = some j then none
          else if j = f then some (.nfs srv (k - 1) id)
          else s.heap.obj j } } := ⟨_, rfl⟩
  rw [← ht]
  have hobj : ∀ j, t.heap.obj j = if j = n ∨ name = some j then none
      else if j = f then some (.nfs srv (k - 1) id) else s.heap.obj j := by
    intro j
    rw [ht]
  have hnext : t.heap.next = s.heap.next := by rw [ht]
  have hgone : t.heap.obj n = none := by simp [hobj]
  -- the other nodes and their names are not touched
  have hkept : ∀ j o, j ≠ n → name ≠ some j → j ≠ f → s.heap.obj j = some o → t.heap.obj j = some o := by
    intro j o h1 h2 h3 hj
    rw [hobj, if_neg (by simp [h1, h2]), if_neg h3, hj]
  refine h.nodes (n := n) ?_ (Nat.le_of_eq hnext.symm) ?_ ?_ ?_ ?_ ?_ hroot ?_ ?_ ?_
  · intro j hj
    rw [hnext] at hj
    have hne : j ≠ f := by
      rintro rfl
      rw [h.fresh j hj] at hf
      cases hf
    rw [hobj, if_neg hne]
    split
    · rfl
    · exact h.fresh j hj
  · rw [hnext]
    exact h.fresh.lt hn
  · rw [ht]
    exact h.misuse
  · rw [ht]
    exact ⟨rfl, rfl, rfl, rfl⟩
  · funext j
    unfold Driver.held
    rw [hobj]
    split
    · rename_i hj
      rcases hj with rfl | hj
      · rw [hn]
        rfl
      · rw [hname j hj]
        rfl
    · split
      · rename_i hj
        rw [hj, hf]
        rfl
      · rfl
  · intro j hj
    unfold Driver.nodeAt
    grind [Obj.asNode]
  · intro g c hg
    rw [nodeAt_eq, hgone] at hg
    cases hg
  · intro j g c hj hc
    have hstr := (h.named.node j g _ hc).2 c rfl
    refine hkept c _ ?_ ?_ ?_ hstr
    · rintro rfl
      rw [hstr] at hn
      cases hn
    · rintro rfl
      exact hj (h.named.name_inj j n g f c hc (nodeAt_eq.mpr hn))
    · rintro rfl
      rw [hstr] at hf
      cases hf
  · intro g srv' k' id' hg
    have hnof : s.nodeOf n g = (f == g) := by
      unfold Driver.nodeOf
      rw [hn]
      rfl
    have hnof' : t.nodeOf n g = false := by
      unfold Driver.nodeOf
      rw [hgone]
      rfl
    grind

theorem nodeCreate_obj {f srv id : Nat} {k : Int} (hfresh : s.heap.Fresh)
    (hf : s.heap.obj f = some (.nfs srv k id)) :
    nfsNodeCreate s f = { s with
      heap := ⟨fun j =>
        if j = s.heap.next then some (.node f none)
        else if j = f then some (.nfs srv (k + 1) id)
        else s.heap.obj j, s.heap.next + 1, s.heap.misuse⟩ } := by
  have hne : f ≠ s.heap.next := Nat.ne_of_lt (hfresh.lt hf)
  simp only [nfsNodeCreate, addNodes, Driver.alloc, Heap.alloc, hne, if_false, hf, Heap.set]
  congr 2
  funext j
  by_cases hj : j = s.heap.next
  · simp [hj, hne.symm]
  · simp [hj]

theorem Counted.create (h : Counted s) {f : Nat} (hf : f ∈ s.mountedFs) : Counted (nfsNodeCreate s f) := by
  obtain ⟨srv, hsrv⟩ := h.served.listed f hf
  obtain ⟨k, id, hobjf⟩ := held_nfs hsrv
  rw [nodeCreate_obj h.fresh hobjf]
  obtain ⟨t, ht⟩ : ∃ t : Driver, t = { s with
      heap := ⟨fun j =>
        if j = s.heap.next then some (.node f none)
        else if j = f then some (.nfs srv (k + 1) id)
        else s.heap.obj j, s.heap.next + 1, s.heap.misuse⟩ } := ⟨_, rfl⟩
  rw [← ht]
  have hobj : ∀ j, t.heap.obj j = if j = s.heap.next then some (.node f none)
      else if j = f then some (.nfs srv (k + 1) id) else s.heap.obj j := by
    intro j
    rw [ht]
  have hnext : t.heap.next = s.heap.next + 1 := by rw [ht]
  have hnone : s.heap.obj s.heap.next = none := h.fresh _ le_rfl
  have hnew : t.heap.obj s.heap.next = some (.node f none) := by simp [hobj]
  refine h.nodes (n := s.heap.next) ?_ ?_ ?_ ?_ ?_ ?_ ?_ ?_ ?_ ?_ ?_
  · intro j hj
    have hne : j ≠ f := by
      rintro rfl
      rw [h.fresh j (by omega)] at hobjf
      cases hobjf
    rw [hobj, if_neg (by omega), if_neg hne]
    exact h.fresh j (by omega)
  · rw [hnext]
    exact Nat.le_succ _
  · rw [hnext]
    exact Nat.lt_succ_self _
  · rw [ht]
    exact h.misuse
  · rw [ht]
    exact ⟨rfl, rfl, rfl, rfl⟩
  · unfold Driver.held
    grind [Obj.held]
  · intro j hj
    unfold Driver.nodeAt
    rw [hobj, if_neg hj]
    split
    · rename_i hjf
      rw [hjf, hobjf]
      rfl
    · rfl
  · intro m hm hroot
    have hname := h.named.root m hm
    rw [nodeAt_eq, hroot, hnone] at hname
    cases hname
  · intro g name hg
    rw [nodeAt_eq, hnew] at hg
    cases hg
    refine ⟨hf, ?_⟩
    intro c hc
    cases hc
  · intro j g c hj hc
    have hstr := (h.named.node j g _ hc).2 c rfl
    grind
  · intro g srv' k' id' hg
    have hnof : s.nodeOf s.heap.next g = false := by
      unfold Driver.nodeOf
      rw [hnone]
      rfl
    have hnof' : t.nodeOf s.heap.next g = (f == g) := by
      unfold Driver.nodeOf
      rw [hnew]
      rfl
    grind

theorem Counted.rename (h : Counted s) {n f : Nat} {old : Option Nat} (new : Option Nat)
    (hn : s.heap.obj n = some (.node f old)) (hroot : ∀ m ∈ s.mounts, m.root ≠ n)
    (hnew : ∀ c, new = some c → c = s.heap.next)
    (ht : t = { s with
      heap := ⟨fun j =>
        if j = n then some (.node f new)
        else if new = some j then some .str
        else if old = some j then none
        else s.heap.obj j, s.heap.next + new.toList.length, s.heap.misuse⟩ }) : Counted t := by
  have hobj : ∀ j, t.heap.obj j = if j = n then some (.node f new)
      else if new = some j then some .str
      else if old = some j then none else s.heap.obj j := by
    intro j
    rw [ht]
  have hold := (h.named.node n f old (nodeAt_eq.mpr hn)).2
  have hfresh : ∀ c, new = some c → s.heap.obj c = none := by
    intro c hc
    rw [hnew c hc]
    exact h.fresh _ le_rfl
  have hnext : t.heap.next = s.heap.next + new.toList.length := by rw [ht]
  have hlt := h.fresh.lt hn
  refine h.nodes (n := n) ?_ ?_ ?_ ?_ ?_ ?_ ?_ hroot ?_ ?_ ?_
  · intro j hj
    rw [hnext] at hj
    have h1 : j ≠ n := by omega
    have h2 : new ≠ some j := by
      rintro rfl
      have := hnew j rfl
      simp at hj
      omega
    rw [hobj, if_neg h1, if_neg h2]
    split
    · rfl
    · exact h.fresh j (by omega)
  · omega
  · omega
  · rw [ht]
    exact h.misuse
  · rw [ht]
    exact ⟨rfl, rfl, rfl, rfl⟩
  · unfold Driver.held
    grind [Obj.held]
  · intro j hj
    unfold Driver.nodeAt
    grind [Obj.asNode]
  · intro g name hg
    rw [nodeAt_eq, hobj, if_pos rfl] at hg
    cases hg
    refine ⟨(h.named.node n _ old (nodeAt_eq.mpr hn)).1, ?_⟩
    intro c hc
    refine ⟨?_, ?_⟩
    · grind
    · intro j g hj hjc
      have := (h.named.node j g _ hjc).2 c rfl
      rw [hfresh c hc] at this
      cases this
  · intro j g c hj hc
    have hstr := (h.named.node j g _ hc).2 c rfl
    have h1 : c ≠ n := by
      rintro rfl
      rw [hstr] at hn
      cases hn
    have h2 : new ≠ some c := by
      intro hx
      rw [hfresh c hx] at hstr
      cases hstr
    have h3 : old ≠ some c := by
      rintro rfl
      exact hj (h.named.name_inj j n g f c hc (nodeAt_eq.mpr hn))
    rw [hobj, if_neg h1, if_neg h2, if_neg h3]
    exact hstr
  · intro g srv k id hg
    have hsame : s.nodeOf n g = t.nodeOf n g := by
      unfold Driver.nodeOf
      rw [hn, hobj, if_pos rfl]
      rfl
    grind

theorem Counted.frame (h : Counted s) (hfresh : t.heap.Fresh) (hnext : s.heap.next ≤ t.heap.next)
    (hmisuse : t.heap.misuse = s.heap.misuse) (hmountedFs : t.mountedFs = s.mountedFs)
    (hmounts : t.mounts = s.mounts) (hnum : t.numMountedFs = s.numMountedFs) (hserved : Served t)
    (hkept : ∀ j o, s.heap.obj j = some o → t.heap.obj j = some o)
    (hmore : ∀ j, s.heap.obj j = none → t.heap.obj j = none ∨ t.heap.obj j = some .auth) :
    Counted t := by
  have hnode : t.nodeAt = s.nodeAt := by
    funext j
    unfold Driver.nodeAt
    cases hj : s.heap.obj j with
    | none =>
      rcases hmore j hj with h | h
      · rw [h]
      · rw [h]
        rfl
    | some o => rw [hkept j o hj]
  refine ⟨hfresh, hmisuse.trans h.misuse, ?_, hmountedFs ▸ h.nodup, ?_, hserved, ⟨?_, ?_, ?_⟩, ?_⟩
  · rw [hmountedFs, hmounts]
    exact h.mountedFs
  · rw [hnum, hmounts]
    exact h.numMountedFs
  · intro n f name hn
    rw [hnode] at hn
    grind [h.named.node]
  · rw [hnode]
    exact h.named.name_inj
  · rw [hnode, hmounts]
    exact h.named.root
  · intro f srv n id hf
    have hlive : t.liveNodes f = s.liveNodes f :=
      Heap.count_same h.fresh hnext fun j => nodeOf_congr (congrFun hnode j) f
    rw [hlive]
    cases hj : s.heap.obj f with
    | none => rcases hmore f hj with h | h <;> rw [h] at hf <;> cases hf
    | some o =>
      rw [hkept f o hj] at hf
      cases hf
      exact h.nodesInUse f srv n id hj

theorem Counted.same (h : Counted s) (hs : Same s t) : Counted t := by
  have hheld : t.held = s.held := by
    unfold Driver.held
    rw [hs.obj]
  grind [h.frame, hs.fresh, h.fresh, hs.next, hs.misuse, hs.mountedFs, hs.mounts, hs.numMountedFs, h.served.of_held,
    hs.rpcUdpServers, hs.obj]

theorem Counted.leaked (h : Counted s) {a : Nat} (hl : Leaked s t a) : Counted t := by
  have hnew : s.held a = none := by
    unfold Driver.held
    rw [hl.new]
    rfl
  have hother : ∀ j ≠ a, t.held j = s.held j := by
    intro j hj
    unfold Driver.held
    rw [hl.obj]
    simp only [if_neg hj]
  have hself : t.held a = some .auth := by
    unfold Driver.held
    rw [hl.obj]
    simp only [if_true]
    rfl
  have hback : ∀ j x, t.held j = some x → x ≠ .auth → s.held j = some x := by
    intro j x hj hx
    grind
  have hkeep : ∀ j x, s.held j = some x → t.held j = some x := by
    intro j x hj
    rw [hother j (by rintro rfl; rw [hnew] at hj; cases hj)]
    exact hj
  have hserved : Served t := by
    refine ⟨?_, ?_, ?_, ?_, ?_⟩
    · intro i b hi
      exact hkeep b _ (h.served.server i b (hback i _ hi (by simp)))
    · intro f srv hf
      grind [h.served.nfs, hl.mountedFs, hl.rpcUdpServers]
    · intro f hf
      grind [hl.mountedFs, h.served.listed]
    · intro i j b hi hj
      exact h.served.auth_inj i j b (hback i _ hi (by simp)) (hback j _ hj (by simp))
    · intro f g srv hf hg
      exact h.served.server_inj f g srv (hback f _ hf (by simp)) (hback g _ hg (by simp))
  refine h.frame (hl.fresh h.fresh) hl.next hl.misuse hl.mountedFs hl.mounts hl.numMountedFs hserved
    ?_ ?_
  · intro j o hj
    have hja : j ≠ a := by
      rintro rfl
      rw [hl.new] at hj
      cases hj
    rw [hl.obj]
    simp only [if_neg hja]
    exact hj
  · intro j hj
    rw [hl.obj]
    simp only
    split
    · exact .inr rfl
    · exact .inl hj

theorem Counted.clone (h : Counted s) {n f : Nat}
    (hn : s.heap.obj n = some (.node f name)) (env : CloneEnv) : Counted (nfsNodeClone s n env).1 := by
  have hf : f ∈ s.mountedFs := (h.named.node n f name (nodeAt_eq.mpr hn)).1
  obtain ⟨srv, k, id, hobjf⟩ := h.nfs_of_node hn
  have hcreated := h.create hf
  have hobj := nodeCreate_obj h.fresh hobjf
  obtain ⟨u, hu⟩ : ∃ u, u = nfsNodeCreate s f := ⟨_, rfl⟩
  have hnew : u.heap.obj s.heap.next = some (.node f none) := by
    rw [hu, hobj]
    simp
  have hroot : ∀ m ∈ u.mounts, m.root ≠ s.heap.next := by
    intro m hm hroot
    have hm' : m ∈ s.mounts := by
      rw [hu, hobj] at hm
      exact hm
    have hnm := h.named.root m hm'
    rw [nodeAt_eq, hroot, h.fresh _ le_rfl] at hnm
    cases hnm
  rw [← hu] at hcreated
  have hdestroyed := hcreated.destroy hnew hroot
  unfold nfsNodeClone
  rw [hn]
  simp only [← hu]
  cases env.node with
  | false => exact h
  | true =>
    cases name with
    | none =>
      cases env.attr with
      | true => exact hcreated
      | false => exact hdestroyed
    | some c =>
      cases env.name with
      | false => exact hdestroyed
      | true =>
        -- the name of the new node
        obtain ⟨v, hv⟩ : ∃ v : Driver, v = { u.alloc .str with
            heap := (u.alloc .str).heap.set s.heap.next (.node f (some u.heap.next)) } := ⟨_, rfl⟩
        have hlt := hcreated.fresh.lt hnew
        have hnamed : Counted v := by
          refine hcreated.rename (some u.heap.next) hnew hroot (by simp) ?_
          rw [hv]
          simp only [Driver.alloc, Heap.alloc, Heap.set, Nat.ne_of_lt hlt, if_false, hnew]
          grind
        have hnewv : v.heap.obj s.heap.next = some (.node f (some u.heap.next)) := by
          rw [hv]
          simp only [Driver.alloc, Heap.alloc, Heap.set, Nat.ne_of_lt hlt, if_false, hnew, if_true]
        have hrootv : ∀ m ∈ v.mounts, m.root ≠ s.heap.next := by
          rw [hv]
          exact hroot
        grind [hnamed.destroy]

theorem Counted.move (h : Counted s) {n f : Nat} {old : Option Nat}
    (hn : s.heap.obj n = some (.node f old)) (hroot : ∀ m ∈ s.mounts, m.root ≠ n) (name : Bool) :
    Counted (nfsMoveNode s n name) := by
  have hold := (h.named.node n f old (nodeAt_eq.mpr hn)).2
  have hlt := h.fresh.lt hn
  have hnn : n ≠ s.heap.next := Nat.ne_of_lt hlt
  refine h.rename (if name then some s.heap.next else none) hn hroot ?_ ?_
  · intro c hc
    cases name with
    | true =>
      cases hc
      rfl
    | false => cases hc
  unfold nfsMoveNode
  rw [hn]
  cases old with
  | none =>
    cases name with
    | true =>
      simp only [if_true, Driver.alloc, Heap.alloc, Heap.set, hnn, if_false, hn]
      grind
    | false =>
      simp only [Heap.set, hn]
      congr 2
  | some c =>
    have hc := hold c rfl
    have hcn : n ≠ c := by
      rintro rfl
      rw [hn] at hc
      cases hc
    cases name with
    | true =>
      simp only [if_true, Driver.alloc, Driver.free, Heap.free, hc, Heap.alloc, Heap.set, hnn, hcn, if_false, hn]
      grind
    | false =>
      simp only [Bool.false_eq_true, Driver.free, Heap.free, hc, Heap.set, hcn, if_false, hn]
      grind

section Mounting

variable {f root srv auth : Nat}

variable {j : Nat} {o : Obj}

theorem Entered.old_or_new (he : Entered s t f root srv auth) (hj : t.heap.obj j = some o) :
    (j = root ∧ o = .node f none) ∨ (j = f ∧ o = .nfs srv 1 s.fsIds) ∨
      (j = srv ∧ o = .server auth) ∨ (j = auth ∧ o = .auth) ∨ s.heap.obj j = some o := by
  rw [he.obj] at hj
  simp only at hj
  split at hj
  · cases hj
    exact .inl ⟨‹_›, rfl⟩
  · grind

theorem Entered.server_of (he : Entered s t f root srv auth) {i a : Nat}
    (hi : t.heap.obj i = some (.server a)) : i = srv ∧ a = auth ∨ s.heap.obj i = some (.server a) := by
  rcases he.old_or_new hi with ⟨_, ho⟩ | ⟨_, ho⟩ | ⟨hj, ho⟩ | ⟨_, ho⟩ | ho
  · cases ho
  · cases ho
  · cases ho
    exact .inl ⟨hj, rfl⟩
  · cases ho
  · exact .inr ho

theorem Entered.nfs_of (he : Entered s t f root srv auth) {g sv id : Nat} {n : Int}
    (hg : t.heap.obj g = some (.nfs sv n id)) :
    g = f ∧ sv = srv ∧ n = 1 ∨ s.heap.obj g = some (.nfs sv n id) := by
  rcases he.old_or_new hg with ⟨_, ho⟩ | ⟨hj, ho⟩ | ⟨_, ho⟩ | ⟨_, ho⟩ | ho
  · cases ho
  · cases ho
    exact .inl ⟨hj, rfl, rfl⟩
  · cases ho
  · cases ho
  · exact .inr ho

theorem Entered.node_of (he : Entered s t f root srv auth) {n g : Nat}
    (hn : t.heap.obj n = some (.node g name)) :
    n = root ∧ g = f ∧ name = none ∨ s.heap.obj n = some (.node g name) := by
  rcases he.old_or_new hn with ⟨hj, ho⟩ | ⟨_, ho⟩ | ⟨_, ho⟩ | ⟨_, ho⟩ | ho
  · cases ho
    exact .inl ⟨hj, rfl, rfl⟩
  · cases ho
  · cases ho
  · cases ho
  · exact .inr ho

theorem Entered.not_new (he : Entered s t f root srv auth)
    (hj : s.heap.obj j = some o) : ¬ (j = root ∨ j = f ∨ j = srv ∨ j = auth) := by
  intro hor
  rw [he.new j hor] at hj
  cases hj

theorem Entered.kept (he : Entered s t f root srv auth)
    (hj : s.heap.obj j = some o) : t.heap.obj j = some o := by
  have hne := he.not_new hj
  simp only [not_or] at hne
  rw [he.obj]
  simp only [hne.1, hne.2.1, hne.2.2.1, hne.2.2.2, if_false]
  exact hj

theorem Entered.objects (he : Entered s t f root srv auth) :
    t.heap.obj root = some (.node f none) ∧ t.heap.obj f = some (.nfs srv 1 s.fsIds) ∧
      t.heap.obj srv = some (.server auth) ∧ t.heap.obj auth = some .auth := by
  have hd := he.distinct
  rw [he.obj]
  grind

theorem Served.entered (h : Served s) (he : Entered s t f root srv auth) : Served t := by
  obtain ⟨-, hf, hsrv, hauth⟩ := he.objects
  refine ⟨?_, ?_, ?_, ?_, ?_⟩
  · intro i a hi
    rcases he.server_of (held_server.mp hi) with ⟨-, rfl⟩ | hi
    · exact held_auth.mpr hauth
    · exact held_auth.mpr (he.kept (held_auth.mp (h.server i a (held_server.mpr hi))))
  · intro g sv hg
    obtain ⟨n, id, hg⟩ := held_nfs hg
    rw [he.mountedFs, he.rpcUdpServers]
    rcases he.nfs_of hg with ⟨rfl, rfl, -⟩ | hg
    · exact ⟨mem_cons_self, mem_cons_self, auth, held_server.mpr hsrv⟩
    · obtain ⟨h1, h2, a, h3⟩ := h.nfs g sv (held_of_nfs hg)
      exact ⟨mem_cons_of_mem _ h1, mem_cons_of_mem _ h2, a,
        held_server.mpr (he.kept (held_server.mp h3))⟩
  · intro g hg
    rw [he.mountedFs] at hg
    rcases mem_cons.mp hg with rfl | hg
    · exact ⟨srv, held_of_nfs hf⟩
    · grind [h.listed, held_nfs, held_of_nfs, he.kept]
  · have hfar : ∀ j, s.heap.obj j ≠ some (.server auth) := by
      intro j hj
      exact he.not_new (held_auth.mp (h.server j auth (held_server.mpr hj))) (by simp)
    intro i j a hi hj
    rcases he.server_of (held_server.mp hi) with ⟨hi, rfl⟩ | hi
    · rcases he.server_of (held_server.mp hj) with ⟨hj, -⟩ | hj
      · rw [hi, hj]
      · exact absurd hj (hfar j)
    · rcases he.server_of (held_server.mp hj) with ⟨-, rfl⟩ | hj
      · exact absurd hi (hfar i)
      · exact h.auth_inj i j a (held_server.mpr hi) (held_server.mpr hj)
  · have hfar : ∀ j n id, s.heap.obj j ≠ some (.nfs srv n id) := by
      intro j n id hj
      obtain ⟨-, -, a, ha⟩ := h.nfs j srv (held_of_nfs hj)
      exact he.not_new (held_server.mp ha) (by simp)
    intro i j sv hi hj
    obtain ⟨n, id, hi⟩ := held_nfs hi
    obtain ⟨n', id', hj⟩ := held_nfs hj
    rcases he.nfs_of hi with ⟨hi, rfl, -⟩ | hi
    · rcases he.nfs_of hj with ⟨hj, -, -⟩ | hj
      · rw [hi, hj]
      · exact absurd hj (hfar j n' id')
    · rcases he.nfs_of hj with ⟨-, rfl, -⟩ | hj
      · exact absurd hi (hfar i n id)
      · exact h.server_inj i j sv (held_of_nfs hi) (held_of_nfs hj)

theorem Counted.entered (h : Counted s) (he : Entered s t f root srv auth) : Counted t := by
  obtain ⟨hroot, hf, -, -⟩ := he.objects
  have hnotf : f ∉ s.mountedFs := by
    intro hmem
    grind [h.served.listed, held_nfs, he.not_new]
  refine ⟨he.fresh, he.misuse.trans h.misuse, ?_, ?_, ?_, h.served.entered he, ⟨?_, ?_, ?_⟩, ?_⟩
  · rw [he.mountedFs, he.mounts, h.mountedFs]
    rfl
  · rw [he.mountedFs]
    exact nodup_cons.mpr ⟨hnotf, h.nodup⟩
  · rw [he.numMountedFs, he.mounts, h.numMountedFs]
    simp
  · intro n g name hn
    rw [nodeAt_eq] at hn
    rw [he.mountedFs]
    rcases he.node_of hn with ⟨-, rfl, rfl⟩ | hn
    · exact ⟨mem_cons_self, fun _ h => nomatch h⟩
    · obtain ⟨h1, h2⟩ := h.named.node n g name (nodeAt_eq.mpr hn)
      exact ⟨mem_cons_of_mem _ h1, fun c hc => he.kept (h2 c hc)⟩
  · intro n m g g' c hn hm
    rw [nodeAt_eq] at hn hm
    rcases he.node_of hn with ⟨-, -, hc⟩ | hn
    · cases hc
    · rcases he.node_of hm with ⟨-, -, hc⟩ | hm
      · cases hc
      · exact h.named.name_inj n m g g' c (nodeAt_eq.mpr hn) (nodeAt_eq.mpr hm)
  · intro m hm
    rw [he.mounts] at hm
    rcases mem_cons.mp hm with rfl | hm
    · exact nodeAt_eq.mpr hroot
    · exact nodeAt_eq.mpr (he.kept (nodeAt_eq.mp (h.named.root m hm)))
  · intro g sv n id hg
    have hchange := Heap.count_change (p := Obj.isNodeOf g) h.fresh he.next (he.fresh.lt hroot) (by
      intro j hj
      cases hold : s.heap.obj j with
      | some o => rw [he.kept hold]
      | none =>
        cases hnew : t.heap.obj j with
        | none => rfl
        | some o =>
          grind [he.old_or_new, Obj.isNodeOf])
    rw [he.new root (.inl rfl), hroot] at hchange
    unfold Driver.liveNodes
    rcases he.nfs_of hg with ⟨rfl, -, rfl⟩ | hg
    · have hnone : s.heap.count (Obj.isNodeOf g) = 0 := by
        unfold Heap.count
        rw [countP_eq_zero]
        intro j _ hj
        cases hobj : s.heap.obj j with
        | none =>
          rw [hobj] at hj
          cases hj
        | some o =>
          rw [hobj] at hj
          cases o with
          | node g' name =>
            have : g' = g := by simpa [Obj.isNodeOf] using hj
            exact hnotf (this ▸ (h.named.node j g' name (nodeAt_eq.mpr hobj)).1)
          | _ => cases hj
      simp [Obj.isNodeOf, hnone] at hchange
      rw [hchange]
      rfl
    · have hfg : (f == g) = false := by
        refine beq_false_of_ne ?_
        rintro rfl
        exact he.not_new hg (by simp)
      simp [Obj.isNodeOf, hfg] at hchange
      rw [hchange]
      exact h.nodesInUse g sv n id hg

end Mounting

section Unmounting

variable {m : Mount} {srv auth id : Nat} {n : Int}

theorem Counted.destroyed (h : Counted s) (hm : m ∈ s.mounts)
    (hf : s.heap.obj m.nfs = some (.nfs srv n id)) (hsrv : s.heap.obj srv = some (.server auth)) :
    nfsDestroy (nfsNodeDestroy s m.root) m.nfs = { s with
      heap := { s.heap with
        obj := fun j =>
          if j = m.nfs ∨ j = srv ∨ j = auth ∨ j = m.root then none else s.heap.obj j }
      rpcUdpServers := s.rpcUdpServers.erase srv
      mountedFs := s.mountedFs.erase m.nfs } := by
  have hroot := nodeAt_eq.mp (h.named.root m hm)
  obtain ⟨hlisted, hserver, -⟩ := h.served.nfs m.nfs srv (held_of_nfs hf)
  have hauth := held_auth.mp (h.served.server srv auth (held_server.mpr hsrv))
  have h1 : m.nfs ≠ m.root := Heap.ne_of_obj hf hroot (by simp)
  have h2 : srv ≠ m.root := Heap.ne_of_obj hsrv hroot (by simp)
  have h3 : srv ≠ m.nfs := Heap.ne_of_obj hsrv hf (by simp)
  have h4 : auth ≠ m.root := Heap.ne_of_obj hauth hroot (by simp)
  have h5 : auth ≠ m.nfs := Heap.ne_of_obj hauth hf (by simp)
  rw [nodeDestroy_eq hroot hf (fun _ h => nomatch h)]
  unfold nfsDestroy
  simp only [h1, reduceCtorEq, or_self, if_false, if_true, hlisted]
  rw [@serverDestroy_eq _ _ auth]
  · simp only [Driver.free, Heap.free, h1, h3.symm, h5.symm, or_false, if_false, if_true]
    grind
  · simp [h2, h3, hsrv]
  · simp [h4, h5, hauth]
  · exact hserver

theorem map_erase {l : List Mount} (hnd : (l.map Mount.nfs).Nodup) (hm : m ∈ l) :
    (l.map Mount.nfs).erase m.nfs = (l.erase m).map Mount.nfs := by
  induction l with
  | nil => cases hm
  | cons x l ih =>
    grind

theorem Counted.only_root (h : Counted s) (hm : m ∈ s.mounts) (hone : s.liveNodes m.nfs ≤ 1)
    {j : Nat} (hj : s.heap.obj j = some (.node m.nfs name)) : j = m.root := by
  refine Heap.count_le_one h.fresh hone ?_ ?_
  · rw [hj]
    exact beq_self_eq_true _
  · rw [nodeAt_eq.mp (h.named.root m hm)]
    exact beq_self_eq_true _

theorem Counted.unmounted (h : Counted s) (hm : m ∈ s.mounts)
    (hf : s.heap.obj m.nfs = some (.nfs srv n id)) (hsrv : s.heap.obj srv = some (.server auth))
    (hn : n ≤ 1) (ht : t = { s with
      heap := { s.heap with
        obj := fun j =>
          if j = m.nfs ∨ j = srv ∨ j = auth ∨ j = m.root then none else s.heap.obj j }
      rpcUdpServers := s.rpcUdpServers.erase srv
      mountedFs := s.mountedFs.erase m.nfs
      numMountedFs := s.numMountedFs - 1
      mounts := s.mounts.erase m }) : Counted t := by
  have hroot := nodeAt_eq.mp (h.named.root m hm)
  have hauth := held_auth.mp (h.served.server srv auth (held_server.mpr hsrv))
  have hone : s.liveNodes m.nfs ≤ 1 := by
    have := h.nodesInUse m.nfs srv n id hf
    omega
  have hobj : ∀ j, t.heap.obj j = if j = m.nfs ∨ j = srv ∨ j = auth ∨ j = m.root then none
      else s.heap.obj j := by
    intro j
    rw [ht]
  have hold : ∀ j o, t.heap.obj j = some o →
      s.heap.obj j = some o ∧ j ≠ m.nfs ∧ j ≠ srv ∧ j ≠ auth ∧ j ≠ m.root := by
    intro j o hj
    grind
  have hkept : ∀ j o, s.heap.obj j = some o → j ≠ m.nfs → j ≠ srv → j ≠ auth → j ≠ m.root →
      t.heap.obj j = some o := by
    intro j o hj h1 h2 h3 h4
    rw [hobj, if_neg (by simp [h1, h2, h3, h4])]
    exact hj
  have hmounted : t.mountedFs = s.mountedFs.erase m.nfs := by rw [ht]
  have hservers : t.rpcUdpServers = s.rpcUdpServers.erase srv := by rw [ht]
  have hmounts : t.mounts = s.mounts.erase m := by rw [ht]
  have hother : ∀ g, g ∈ t.mountedFs ↔ g ≠ m.nfs ∧ g ∈ s.mountedFs := by
    intro g
    rw [hmounted]
    exact h.nodup.mem_erase_iff
  have hnd : (s.mounts.map Mount.nfs).Nodup := by
    rw [← h.mountedFs]
    exact h.nodup
  have hauth_inj : ∀ i a, s.heap.obj i = some (.server a) → i ≠ srv → a ≠ auth := by
    rintro i a hi hne rfl
    exact hne (h.served.auth_inj i srv a (held_server.mpr hi) (held_server.mpr hsrv))
  have hserver_inj : ∀ g sv k d, s.heap.obj g = some (.nfs sv k d) → g ≠ m.nfs → sv ≠ srv := by
    rintro g sv k d hg hne rfl
    exact hne (h.served.server_inj g m.nfs sv (held_of_nfs hg) (held_of_nfs hf))
  refine ⟨?_, ?_, ?_, ?_, ?_, ⟨?_, ?_, ?_, ?_, ?_⟩, ⟨?_, ?_, ?_⟩, ?_⟩
  · intro j hj
    rw [hobj]
    split
    · rfl
    · refine h.fresh j ?_
      rw [ht] at hj
      exact hj
  · rw [ht]
    exact h.misuse
  · rw [hmounted, hmounts, h.mountedFs]
    exact map_erase hnd hm
  · rw [hmounted]
    exact h.nodup.erase _
  · grind [h.numMountedFs]
  · intro i a hi
    obtain ⟨hi, h1, h2, h3, h4⟩ := hold i _ (held_server.mp hi)
    have ha := held_auth.mp (h.served.server i a (held_server.mpr hi))
    exact held_auth.mpr (hkept a _ ha (Heap.ne_of_obj ha hf (by simp)) (Heap.ne_of_obj ha hsrv (by simp))
      (hauth_inj i a hi h2) (Heap.ne_of_obj ha hroot (by simp)))
  · intro g sv hg
    obtain ⟨k, d, hg⟩ := held_nfs hg
    obtain ⟨hg, h1, h2, h3, h4⟩ := hold g _ hg
    obtain ⟨h5, h6, a, ha⟩ := h.served.nfs g sv (held_of_nfs hg)
    rw [held_server] at ha
    have hne := hserver_inj g sv k d hg h1
    rw [hservers]
    exact ⟨(hother g).mpr ⟨h1, h5⟩, (mem_erase_of_ne hne).mpr h6, a,
      held_server.mpr (hkept sv _ ha (Heap.ne_of_obj ha hf (by simp)) hne (Heap.ne_of_obj ha hauth (by simp))
        (Heap.ne_of_obj ha hroot (by simp)))⟩
  · intro g hg
    obtain ⟨h1, h2⟩ := (hother g).mp hg
    obtain ⟨sv, hsv⟩ := h.served.listed g h2
    obtain ⟨k, d, hg⟩ := held_nfs hsv
    exact ⟨sv, held_of_nfs (hkept g _ hg h1 (Heap.ne_of_obj hg hsrv (by simp)) (Heap.ne_of_obj hg hauth (by simp))
      (Heap.ne_of_obj hg hroot (by simp)))⟩
  · intro i j a hi hj
    exact h.served.auth_inj i j a (held_server.mpr (hold i _ (held_server.mp hi)).1)
      (held_server.mpr (hold j _ (held_server.mp hj)).1)
  · intro i j sv hi hj
    obtain ⟨k, d, hi⟩ := held_nfs hi
    obtain ⟨k', d', hj⟩ := held_nfs hj
    exact h.served.server_inj i j sv (held_of_nfs (hold i _ hi).1) (held_of_nfs (hold j _ hj).1)
  · intro j g name hj
    obtain ⟨hj, h1, h2, h3, h4⟩ := hold j _ (nodeAt_eq.mp hj)
    obtain ⟨h5, h6⟩ := h.named.node j g name (nodeAt_eq.mpr hj)
    refine ⟨(hother g).mpr ⟨?_, h5⟩, ?_⟩
    · rintro rfl
      exact h4 (h.only_root hm hone hj)
    · intro c hc
      have hstr := h6 c hc
      exact hkept c _ hstr (Heap.ne_of_obj hstr hf (by simp)) (Heap.ne_of_obj hstr hsrv (by simp))
        (Heap.ne_of_obj hstr hauth (by simp)) (Heap.ne_of_obj hstr hroot (by simp))
  · intro i j g g' c hi hj
    exact h.named.name_inj i j g g' c (nodeAt_eq.mpr (hold i _ (nodeAt_eq.mp hi)).1)
      (nodeAt_eq.mpr (hold j _ (nodeAt_eq.mp hj)).1)
  · intro l hl
    have hin : l.nfs ∈ t.mountedFs := by
      rw [hmounted, h.mountedFs, map_erase hnd hm]
      rw [hmounts] at hl
      exact mem_map_of_mem hl
    have hne := ((hother l.nfs).mp hin).1
    rw [hmounts] at hl
    have hlroot := nodeAt_eq.mp (h.named.root l (mem_of_mem_erase hl))
    refine nodeAt_eq.mpr (hkept l.root _ hlroot (Heap.ne_of_obj hlroot hf (by simp))
      (Heap.ne_of_obj hlroot hsrv (by simp)) (Heap.ne_of_obj hlroot hauth (by simp)) ?_)
    refine Heap.ne_of_obj hlroot hroot ?_
    simpa using hne
  · intro g sv k d hg
    obtain ⟨hg, h1, h2, h3, h4⟩ := hold g _ hg
    have hlive : t.liveNodes g = s.liveNodes g := by
      refine Heap.count_same h.fresh ?_ ?_
      · rw [ht]
      · intro j
        rw [hobj]
        split
        · rename_i hj
          rcases hj with rfl | rfl | rfl | rfl
          · rw [hf]
            rfl
          · rw [hsrv]
            rfl
          · rw [hauth]
            rfl
          · rw [hroot]
            exact (beq_false_of_ne (Ne.symm h1)).symm
        · rfl
    rw [hlive]
    exact h.nodesInUse g sv k d hg

/-- `nfs_fsunmount_me`: it is refused while there is a node that is not the root. -/
theorem Counted.fsunmount (h : Counted s) (hm : m ∈ s.mounts) (env : UnmountEnv) :
    match nfsFsunmountMe s m env with
    | .fatal => True
    | .error t => Counted t
    | .ok t _ => s.liveNodes m.nfs = 1 ∧ Counted t := by
  have hmem : m.nfs ∈ s.mountedFs := by
    rw [h.mountedFs]
    exact mem_map_of_mem hm
  obtain ⟨srv, hsrv⟩ := h.served.listed _ hmem
  obtain ⟨n, id, hf⟩ := held_nfs hsrv
  unfold nfsFsunmountMe
  rw [hf]
  simp only
  by_cases hn : n > 1
  · simp only [if_pos hn]
  rw [if_neg hn]
  by_cases hip : buildIpAddr env.scanIds env.resolve env.dev = none
  · simp only [if_pos hip]
  rw [if_neg hip]
  obtain ⟨hok, herr, hbad⟩ := mntcall_spec h.fresh env.mnt
  cases hw : env.mnt.mounts with
  | true =>
    obtain ⟨u, hu, hsame⟩ := hok hw
    rw [hu]
    have hc := h.same hsame
    have hmu : m ∈ u.mounts := by
      rw [hsame.mounts]
      exact hm
    have hfu : u.heap.obj m.nfs = some (.nfs srv n id) := by
      rw [hsame.obj]
      exact hf
    obtain ⟨-, -, auth, hauth⟩ := hc.served.nfs m.nfs srv (held_of_nfs hfu)
    rw [held_server] at hauth
    have hlive := h.nodesInUse m.nfs srv n id hf
    have hroot := nodeAt_eq.mp (h.named.root m hm)
    have hpos : 0 < s.liveNodes m.nfs := by
      refine countP_pos_iff.mpr ⟨m.root, mem_range.mpr (h.fresh.lt hroot), ?_⟩
      rw [hroot]
      exact beq_self_eq_true _
    refine ⟨by omega, hc.unmounted hmu hfu hauth (by omega) ?_⟩
    rw [hc.destroyed hmu hfu hauth]
  | false =>
    cases hclean : env.mnt.server.clean with
    | true =>
      obtain ⟨u, hu, hsame⟩ := herr hw hclean
      rw [hu]
      exact h.same hsame
    | false =>
      grind [h.leaked]

end Unmounting

def CleanMount (_ : Driver) : MountAct → Prop
  | .mount env => env.clean
  | _ => True

instance (s : Driver) (a : MountAct) : Decidable (CleanMount s a) := by
  cases a
  all_goals
    unfold CleanMount
    infer_instance

theorem isNode_iff {n : Nat} : s.isNode n = true ↔ ∃ f name, s.heap.obj n = some (.node f name) := by
  grind [Driver.isNode]

theorem Counted.step (h : Counted s) {a : MountAct} (hclean : CleanMount s a)
    (hstep : mountStep s a = some t) : Counted t := by
  cases a with
  | mount env =>
    have hall := (allOrNothing_iff h.fresh h.misuse env).mpr hclean
    grind [AllOrNothing, mountStep, h.same, h.entered]
  | unmount m env =>
    obtain ⟨hm, hstep⟩ := Option.ite_none_right_eq_some.mp hstep
    have hspec := h.fsunmount hm env
    grind
  | clone n env =>
    obtain ⟨hn, ⟨⟩⟩ := Option.ite_none_right_eq_some.mp hstep
    obtain ⟨f, name, hn⟩ := isNode_iff.mp hn
    exact h.clone hn env
  | move n name =>
    obtain ⟨⟨hn, hroot⟩, ⟨⟩⟩ := Option.ite_none_right_eq_some.mp hstep
    obtain ⟨f, old, hn⟩ := isNode_iff.mp hn
    exact h.move hn hroot name
  | destroy n =>
    obtain ⟨⟨hn, hroot⟩, ⟨⟩⟩ := Option.ite_none_right_eq_some.mp hstep
    obtain ⟨f, old, hn⟩ := isNode_iff.mp hn
    exact h.destroy hn hroot

theorem counted_init : Counted initDriver := by
  refine ⟨Heap.fresh_empty, rfl, rfl, nodup_nil, rfl, ⟨?_, ?_, ?_, ?_, ?_⟩, ⟨?_, ?_, ?_⟩, ?_⟩
  · intro i a hi
    cases hi
  · intro f srv hf
    cases hf
  · intro f hf
    cases hf
  · intro i j a hi
    cases hi
  · intro f g srv hf
    cases hf
  · intro n f name hn
    cases hn
  · intro n m f g c hn
    cases hn
  · intro m hm
    cases hm
  · intro f srv n id hf
    cases hf

end RtemsLibbsd.NfsMount
