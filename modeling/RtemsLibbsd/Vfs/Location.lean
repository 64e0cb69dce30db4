import Mathlib.Algebra.BigOperators.Group.Finset.Piecewise
import Mathlib.Algebra.BigOperators.Group.Finset.Sigma
import Mathlib.Algebra.Order.BigOperators.Group.Finset
import RtemsLibbsd.Transition
import RtemsLibbsd.Vfs.Kernel

/-!
# References held by locations

`rtems_bsd_libio_loc_set_vnode`, `rtems_bsd_libio_loc_set_vnode_dir`, and the clone and free of locations
that are built on them, in any order and on any number of locations, while the rest of the kernel
takes and drops references of its own.

* `Held` — the use count of a vnode is the number of fields of locations that refer to it, and the
  references that others hold.
* `Sound` — a call releases a vnode once for each field that referred to it and does so no more; also
  in the middle of the call, no count is negative, and no count is zero while a field refers to the
  vnode, other than a field that the call is about to set.
* **`held_of_run`** — both hold after every run.

The old reference is dropped before the new one is taken.  This is no harm, because nothing is done
when they are the same, and otherwise the count of the new vnode is not changed by the release.
-/

namespace RtemsLibbsd.Vfs

open List RtemsLibbsd.Transition

def slots (k : Kernel) : Finset (Nat × Field) := Finset.range k.locs ×ˢ {.node, .dir}

def referring (k : Kernel) (v : Vnode) : Nat :=
  ((slots k).filter fun x => k.access x.1 x.2 = some v).card

/-- The number of fields that referred to a vnode and do so no more. -/
def replaced (k k' : Kernel) (v : Vnode) : Nat :=
  ((slots k).filter fun x => k.access x.1 x.2 = some v ∧ k'.access x.1 x.2 ≠ some v).card

inductive Call where
  | setVnode (i : Nat) (vp : Option Vnode)
  | setVnodeDir (i : Nat) (dvp : Option Vnode)
  | clone (i : Nat)
  | free (i : Nat)

def Call.prims (k : Kernel) : Call → List Prim
  | .setVnode i vp => rtemsBsdLibioLocSetVnode k i vp
  | .setVnodeDir i dvp => rtemsBsdLibioLocSetVnodeDir k i dvp
  | .clone i => locationClone k i
  | .free i => rtemsBsdVfsFreenode k i

def Call.loc : Call → Nat
  | .setVnode i _ | .setVnodeDir i _ | .clone i | .free i => i

def Call.Sets : Call → Nat × Field → Prop
  | .setVnode i _, x => x = (i, .node)
  | .setVnodeDir i _, x => x = (i, .dir)
  | .clone _, _ => False
  | .free i, x => x.1 = i

/-- The kernel, and the references that are held by anything else than a location. -/
structure State where
  kernel : Kernel
  others : Vnode → Nat

/-- A new location refers to nothing; the rest of the kernel takes and drops references. -/
inductive Act where
  | create
  | call (c : Call)
  | hold (v : Vnode)
  | drop (v : Vnode)

def step (s : State) : Act → Option State
  | .create => some { s with kernel := { s.kernel with
      access := fun j f => if j = s.kernel.locs then none else s.kernel.access j f
      locs := s.kernel.locs + 1 } }
  | .call c => if c.loc < s.kernel.locs then some { s with kernel := exec s.kernel (c.prims s.kernel) } else none
  | .hold v => some ⟨s.kernel.vref v, fun w => if w = v then s.others w + 1 else s.others w⟩
  | .drop v =>
    if 0 < s.others v then some ⟨s.kernel.vrele v, fun w => if w = v then s.others w - 1 else s.others w⟩
    else none

def init (k : Kernel) (others : Vnode → Nat) : State :=
  ⟨{ k with usecount := fun v => others v, locs := 0 }, others⟩

/-- **Each field of a location that refers to a vnode stands for one reference.** -/
def Held (others : Vnode → Nat) (k : Kernel) : Prop := ∀ v, k.usecount v = others v + referring k v

/-- No count is negative, and no count is zero while a field outside of `X` refers to its vnode. -/
def InUse (k : Kernel) (X : Nat × Field → Prop) : Prop :=
  ∀ v, 0 ≤ k.usecount v ∧ ∀ x ∈ slots k, k.access x.1 x.2 = some v → ¬ X x → 0 < k.usecount v

/-- What a call does: one release for each reference that is replaced, and at every point inside of
    the call the vnodes are in use.  Inside of the call, and only there, the fields that it sets are exempt. -/
structure Sound (k : Kernel) (c : Call) : Prop where
  released : ∀ v, (c.prims k).count (.vrele v) = replaced k (exec k (c.prims k)) v
  inUse : ∀ ps, ps <+: c.prims k → InUse (exec k ps) c.Sets

section Counting

variable {k k' : Kernel} {i : Nat} {f : Field} {v : Vnode} {vp : Option Vnode}

theorem mem_slots (x : Nat × Field) : x ∈ slots k ↔ x.1 < k.locs := by
  unfold slots
  rw [Finset.mem_product, Finset.mem_range]
  cases x.2 <;> simp

theorem referring_eq_sum (k : Kernel) (v : Vnode) :
    referring k v = ∑ x ∈ slots k, if k.access x.1 x.2 = some v then 1 else 0 := by
  unfold referring
  rw [Finset.card_filter]

theorem referring_store (hi : i < k.locs) :
    referring ((Prim.store i f vp).exec k) v + (if k.access i f = some v then 1 else 0) =
      referring k v + if vp = some v then 1 else 0 := by
  have hmem : (i, f) ∈ slots k := (mem_slots _).mpr hi
  have hslots : slots ((Prim.store i f vp).exec k) = slots k := rfl
  rw [referring_eq_sum, referring_eq_sum, hslots, ← Finset.add_sum_erase _ _ hmem,
    ← Finset.add_sum_erase (slots k) (fun x => if k.access x.1 x.2 = some v then 1 else 0) hmem]
  have hrest : ∑ x ∈ (slots k).erase (i, f),
      (if ((Prim.store i f vp).exec k).access x.1 x.2 = some v then 1 else 0) =
      ∑ x ∈ (slots k).erase (i, f), if k.access x.1 x.2 = some v then 1 else 0 := by
    refine Finset.sum_congr rfl fun x hx => ?_
    have hne : ¬ (x.1 = i ∧ x.2 = f) := fun h => (Finset.mem_erase.mp hx).1 (Prod.ext h.1 h.2)
    simp only [Prim.exec, if_neg hne]
  rw [hrest]
  simp only [Prim.exec, true_and, if_true]
  omega

theorem referring_grow (hlocs : k'.locs = k.locs + 1) (hold : ∀ j < k.locs, k'.access j = k.access j) :
    referring k' v = referring k v + (if k'.access k.locs .node = some v then 1 else 0) +
      if k'.access k.locs .dir = some v then 1 else 0 := by
  rw [referring_eq_sum, referring_eq_sum]
  unfold slots
  rw [hlocs, Finset.sum_product, Finset.sum_product, Finset.sum_range_succ]
  have hrest : ∑ j ∈ Finset.range k.locs, ∑ f ∈ ({.node, .dir} : Finset Field),
      (if k'.access j f = some v then 1 else 0) =
      ∑ j ∈ Finset.range k.locs, ∑ f ∈ ({.node, .dir} : Finset Field),
        if k.access j f = some v then 1 else 0 := by
    refine Finset.sum_congr rfl fun j hj => ?_
    rw [hold j (Finset.mem_range.mp hj)]
  rw [hrest, Finset.sum_pair (by decide)]
  exact (Nat.add_assoc _ _ _).symm

theorem replaced_eq_sum {X : Finset (Nat × Field)} (hsub : X ⊆ slots k)
    (hrest : ∀ x ∉ X, k'.access x.1 x.2 = k.access x.1 x.2) :
    replaced k k' v = ∑ x ∈ X, if k.access x.1 x.2 = some v ∧ k'.access x.1 x.2 ≠ some v then 1 else 0 := by
  unfold replaced
  rw [Finset.card_filter]
  refine (Finset.sum_subset hsub fun x _ hx => if_neg ?_).symm
  rintro ⟨h, hne⟩
  rw [hrest x hx] at hne
  exact hne h

theorem referring_split {X : Finset (Nat × Field)} (hsub : X ⊆ slots k) :
    (∑ x ∈ X, if k.access x.1 x.2 = some v then 1 else 0) ≤ referring k v ∧
      ∀ x ∈ slots k, x ∉ X → k.access x.1 x.2 = some v →
        (∑ y ∈ X, if k.access y.1 y.2 = some v then 1 else 0) < referring k v := by
  rw [referring_eq_sum]
  refine ⟨Finset.sum_le_sum_of_subset hsub, fun x hx hxX hv => ?_⟩
  have hins : insert x X ⊆ slots k := Finset.insert_subset hx hsub
  have hle := Finset.sum_le_sum_of_subset (f := fun y => if k.access y.1 y.2 = some v then 1 else 0) hins
  rw [Finset.sum_insert hxX, if_pos hv] at hle
  omega

end Counting

section Calls

variable {s : State} {k k' : Kernel} {i : Nat} {f : Field} {v : Vnode} {vp : Option Vnode}

theorem exec_vreleOf (k : Kernel) (vp : Option Vnode) :
    exec k (vreleOf vp) = { k with usecount := k.usecount - oneOf vp } := by
  cases vp with
  | none => simp [vreleOf, exec, oneOf]
  | some w => rfl

theorem exec_vrefOf (k : Kernel) (vp : Option Vnode) :
    exec k (vrefOf vp) = { k with usecount := k.usecount + oneOf vp } := by
  cases vp with
  | none => simp [vrefOf, exec, oneOf]
  | some w => rfl

/-- `rtems_bsd_libio_loc_set_vnode` and its sibling: one reference is dropped, one is taken. -/
theorem exec_locSet (f : Field) (k : Kernel) (i : Nat) (vp : Option Vnode) :
    exec k (locSet f k i vp) = { (Prim.store i f vp).exec k with
      usecount := k.usecount - oneOf (k.access i f) + oneOf vp } := by
  unfold locSet
  simp only
  split
  · rw [exec_append, exec_append, exec_vreleOf, exec_vrefOf]
    rfl
  · rename_i hsame
    have hsame : vp = k.access i f := not_not.mp hsame
    have haccess : ((Prim.store i f vp).exec k).access = k.access := by
      funext j g
      show (if j = i ∧ g = f then vp else k.access j g) = k.access j g
      split
      · rename_i h
        rw [h.1, h.2, hsame]
      · rfl
    have hcount : k.usecount - oneOf (k.access i f) + oneOf vp = k.usecount := by
      rw [hsame]
      exact sub_add_cancel _ _
    rw [hcount]
    show k = { (Prim.store i f vp).exec k with usecount := k.usecount }
    simp only [Prim.exec] at haccess ⊢
    rw [haccess]

variable {others : Vnode → Nat}

theorem Held.locSet (h : Held others k) (hi : i < k.locs) :
    Held others (exec k (locSet f k i vp)) := by
  intro v
  rw [exec_locSet]
  have hstore := @referring_store k i f v vp hi
  have hv := h v
  show k.usecount v - oneOf (k.access i f) v + oneOf vp v =
    others v + (referring ((Prim.store i f vp).exec k) v : Int)
  rw [oneOf_apply, oneOf_apply, hv]
  split at hstore <;> split at hstore <;> simp_all <;> omega

theorem Held.inUse (h : Held others k) {X : Finset (Nat × Field)} (hsub : X ⊆ slots k)
    (hlocs : k'.locs = k.locs) (haccess : k'.access = k.access)
    (hcount : ∀ v, k.usecount v - ((∑ x ∈ X, if k.access x.1 x.2 = some v then 1 else 0 : Nat) : Int) ≤
      k'.usecount v) : InUse k' fun x => x ∈ X := by
  intro v
  obtain ⟨hle, hlt⟩ := @referring_split k v X hsub
  have hv := h v
  grind [mem_slots]

theorem exec_counting (ps : List Prim) :
    ∀ k : Kernel, (∀ p ∈ ps, (∃ v, p = .vref v) ∨ ∃ v, p = .vrele v) →
      (exec k ps).locs = k.locs ∧ (exec k ps).access = k.access ∧
      ∀ v, (exec k ps).usecount v = k.usecount v + ps.count (.vref v) - ps.count (.vrele v) := by
  induction ps with
  | nil =>
    intro k _
    exact ⟨rfl, rfl, fun v => by simp [exec]⟩
  | cons p ps ih =>
    intro k hps
    obtain ⟨hlocs, haccess, hcount⟩ := ih (p.exec k) fun q hq => hps q (mem_cons_of_mem _ hq)
    have hexec : exec k (p :: ps) = exec (p.exec k) ps := rfl
    rw [hexec, hlocs, haccess]
    rcases hps p mem_cons_self with ⟨w, rfl⟩ | ⟨w, rfl⟩
    · refine ⟨rfl, rfl, fun v => ?_⟩
      rw [hcount]
      show k.usecount v + one w v + _ - _ = _
      rw [one_apply, count_cons, count_cons]
      grind
    · refine ⟨rfl, rfl, fun v => ?_⟩
      rw [hcount]
      show k.usecount v - one w v + _ - _ = _
      rw [one_apply, count_cons, count_cons]
      grind

theorem locSet_cases (f : Field) (k : Kernel) (i : Nat) (vp : Option Vnode) :
    vp = k.access i f ∧ locSet f k i vp = [] ∨
      vp ≠ k.access i f ∧ locSet f k i vp = vreleOf (k.access i f) ++ vrefOf vp ++ [.store i f vp] := by
  by_cases h : vp = k.access i f
  · exact .inl ⟨h, if_neg (not_not.mpr h)⟩
  · exact .inr ⟨h, if_pos h⟩

theorem count_vreleOf (vp : Option Vnode) (v : Vnode) :
    (vreleOf vp).count (.vrele v) = if vp = some v then 1 else 0 := by
  cases vp with
  | none => rfl
  | some w => simp [vreleOf, count_cons]

theorem count_vrele_vrefOf (vp : Option Vnode) (v : Vnode) : (vrefOf vp).count (.vrele v) = 0 := by
  cases vp with
  | none => rfl
  | some w => simp [vrefOf]

variable {p : Prim}

theorem counting_vreleOf (h : p ∈ vreleOf vp) : ∃ v, p = .vrele v := by
  cases vp with
  | none => cases h
  | some w => exact ⟨w, by simpa [vreleOf] using h⟩

theorem counting_vrefOf (h : p ∈ vrefOf vp) : ∃ v, p = .vref v := by
  cases vp with
  | none => cases h
  | some w => exact ⟨w, by simpa [vrefOf] using h⟩

theorem Held.inUse_self (h : Held others k) (X : Nat × Field → Prop) : InUse k X := by
  intro v
  obtain ⟨-, hlt⟩ := @referring_split k v ∅ (Finset.empty_subset _)
  have hv := h v
  refine ⟨by omega, fun x hx hxv _ => ?_⟩
  have := hlt x hx (Finset.notMem_empty x) hxv
  omega

theorem Held.inUse_locSet (h : Held others k) (hi : i < k.locs) {ps : List Prim}
    (hps : ps <+: Vfs.locSet f k i vp) : InUse (exec k ps) fun x => x = (i, f) := by
  rcases locSet_cases f k i vp with ⟨-, hnil⟩ | ⟨-, hall⟩
  · rw [hnil, prefix_nil] at hps
    subst hps
    exact h.inUse_self _
  · rw [hall, prefix_concat_iff] at hps
    rcases hps with hwhole | hps
    · rw [← hall] at hwhole
      subst hwhole
      exact (h.locSet hi).inUse_self _
    · obtain ⟨hlocs, haccess, hcount⟩ := exec_counting ps k fun p hp => by
        grind [counting_vreleOf, counting_vrefOf]
      have hsub : ({(i, f)} : Finset (Nat × Field)) ⊆ slots k := by
        rw [Finset.singleton_subset_iff, mem_slots]
        exact hi
      have hin := h.inUse hsub hlocs haccess fun v => by
        grind [count_vreleOf, count_vrele_vrefOf]
      simpa only [Finset.mem_singleton] using hin

theorem released_locSet (f : Field) (k : Kernel) (i : Nat) (vp : Option Vnode) (v : Vnode) :
    (locSet f k i vp).count (.vrele v) = if k.access i f = some v ∧ vp ≠ some v then 1 else 0 := by
  rcases locSet_cases f k i vp with ⟨hsame, hnil⟩ | ⟨hne, hall⟩
  · rw [hnil, count_nil, if_neg]
    rintro ⟨hv, hvp⟩
    exact hvp (hsame.trans hv)
  · grind [count_vreleOf, count_vrele_vrefOf]

theorem access_locSet (f : Field) (k : Kernel) (i : Nat) (vp : Option Vnode) (x : Nat × Field) :
    (exec k (locSet f k i vp)).access x.1 x.2 = if x = (i, f) then vp else k.access x.1 x.2 := by
  rw [exec_locSet]
  show (if x.1 = i ∧ x.2 = f then vp else k.access x.1 x.2) = _
  simp [Prod.ext_iff]

theorem locs_locSet (f : Field) (k : Kernel) (i : Nat) (vp : Option Vnode) :
    (exec k (locSet f k i vp)).locs = k.locs := by
  rw [exec_locSet]
  rfl

theorem Held.sound_locSet (h : Held others k) (hi : i < k.locs) :
    (∀ v, (Vfs.locSet f k i vp).count (.vrele v) = replaced k (exec k (Vfs.locSet f k i vp)) v) ∧
      ∀ ps, ps <+: Vfs.locSet f k i vp → InUse (exec k ps) fun x => x = (i, f) := by
  refine ⟨fun v => ?_, fun ps hps => h.inUse_locSet hi hps⟩
  have hsub : ({(i, f)} : Finset (Nat × Field)) ⊆ slots k := by
    rw [Finset.singleton_subset_iff, mem_slots]
    exact hi
  rw [released_locSet, replaced_eq_sum hsub, Finset.sum_singleton, access_locSet, if_pos rfl]
  intro x hx
  rw [access_locSet, if_neg (fun h => hx (Finset.mem_singleton.mpr h))]

theorem Held.free (h : Held others k) (hi : i < k.locs) : Held others (exec k (rtemsBsdVfsFreenode k i)) := by
  unfold rtemsBsdVfsFreenode rtemsBsdLibioLocSetVnode rtemsBsdLibioLocSetVnodeDir
  rw [exec_append]
  refine (h.locSet hi).locSet ?_
  rw [locs_locSet]
  exact hi

theorem Held.sound_free (h : Held others k) (hi : i < k.locs) : Sound k (.free i) := by
  obtain ⟨k', hk'⟩ : ∃ k', k' = exec k (Vfs.locSet .node k i none) := ⟨_, rfl⟩
  have hheld : Held others k' := hk' ▸ h.locSet hi
  have hi' : i < k'.locs := by rw [hk', locs_locSet]; exact hi
  have hprims : (Call.free i).prims k = Vfs.locSet .node k i none ++ Vfs.locSet .dir k' i none := by
    rw [hk']
    rfl
  have hdir : k'.access i .dir = k.access i .dir := by
    simp [hk', access_locSet .node k i none (i, .dir)]
  constructor
  · intro v
    have hsub : ({(i, .node), (i, .dir)} : Finset (Nat × Field)) ⊆ slots k := by
      intro x hx
      rw [mem_slots]
      grind
    have haccess : ∀ x, (exec k ((Call.free i).prims k)).access x.1 x.2 =
        if x = (i, .dir) then none else if x = (i, .node) then none else k.access x.1 x.2 := by
      intro x
      rw [hprims, exec_append, ← hk', access_locSet, hk', access_locSet]
    rw [replaced_eq_sum hsub, Finset.sum_pair (by simp), hprims, count_append, released_locSet,
      released_locSet, hdir, ← hprims, haccess, haccess]
    · simp
    · intro x hx
      rw [Finset.mem_insert, Finset.mem_singleton, not_or] at hx
      rw [haccess, if_neg hx.2, if_neg hx.1]
  · intro ps hps
    rw [hprims] at hps
    have hweaken : ∀ {u : Kernel} {f : Field}, InUse u (fun x => x = (i, f)) → InUse u (Call.free i).Sets := by
      intro u f hu v
      refine ⟨(hu v).1, fun x hx hxv hnot => (hu v).2 x hx hxv ?_⟩
      rintro rfl
      exact hnot rfl
    rcases prefix_or_prefix_of_prefix hps (prefix_append _ _) with hfirst | ⟨qs, hqs⟩
    · exact hweaken (h.inUse_locSet hi hfirst)
    · rw [← hqs, prefix_append_right_inj] at hps
      rw [← hqs, exec_append, ← hk']
      exact hweaken (hheld.inUse_locSet hi' hps)

theorem counting_clonenode (h : p ∈ rtemsBsdVfsClonenode k i) : ∃ v, p = .vref v := by
  rcases mem_append.mp h with h | h
  · exact counting_vrefOf h
  · exact counting_vrefOf h

theorem count_vrele_clonenode (k : Kernel) (i : Nat) (v : Vnode) :
    (rtemsBsdVfsClonenode k i).count (.vrele v) = 0 := by
  unfold rtemsBsdVfsClonenode
  simp [count_vrele_vrefOf]

theorem access_copy (k : Kernel) (i j : Nat) (g : Field) :
    ((Prim.copy i).exec k).access j g = if j = k.locs then k.access i g else k.access j g := rfl

theorem Held.clone (h : Held others k) (i : Nat) : Held others (exec k (locationClone k i)) := by
  intro v
  obtain ⟨k', hk'⟩ : ∃ k', k' = (Prim.copy i).exec k := ⟨_, rfl⟩
  have hexec : exec k (locationClone k i) =
      { k' with usecount := k.usecount + oneOf (k.access i .node) + oneOf (k.access i .dir) } := by
    show exec ((Prim.copy i).exec k) (rtemsBsdVfsClonenode ((Prim.copy i).exec k) k.locs) = _
    unfold rtemsBsdVfsClonenode
    rw [exec_append, exec_vrefOf, exec_vrefOf, access_copy, access_copy, if_pos rfl, if_pos rfl, hk']
    rfl
  have hgrow : referring k' v = _ := @referring_grow k k' v (by rw [hk']; rfl) fun j hj => by
    funext g
    rw [hk', access_copy, if_neg (by omega)]
  have hnew : ∀ g, k'.access k.locs g = k.access i g := by
    intro g
    simp [hk', access_copy]
  rw [hnew, hnew] at hgrow
  have hv := h v
  rw [hexec]
  show k.usecount v + oneOf (k.access i .node) v + oneOf (k.access i .dir) v = others v + (referring k' v : Int)
  rw [oneOf_apply, oneOf_apply, hgrow, hv]
  split <;> split <;> push_cast <;> omega

theorem Held.sound_clone (h : Held others k) (hi : i < k.locs) : Sound k (.clone i) := by
  obtain ⟨k', hk'⟩ : ∃ k', k' = (Prim.copy i).exec k := ⟨_, rfl⟩
  have hprims : (Call.clone i).prims k = .copy i :: rtemsBsdVfsClonenode k' k.locs := by
    rw [hk']
    rfl
  constructor
  · intro v
    obtain ⟨-, haccess, -⟩ := exec_counting (rtemsBsdVfsClonenode k' k.locs) k' fun p hp =>
      .inl (counting_clonenode hp)
    have hall : exec k ((Call.clone i).prims k) = exec k' (rtemsBsdVfsClonenode k' k.locs) := by
      rw [hprims, hk']
      rfl
    have hnone : replaced k (exec k ((Call.clone i).prims k)) v = 0 := by
      unfold replaced
      rw [Finset.card_eq_zero, Finset.filter_eq_empty_iff]
      rintro x hx ⟨hxv, hne⟩
      have hlt := (mem_slots x).mp hx
      refine hne ?_
      rw [hall, haccess, hk', access_copy, if_neg (by omega)]
      exact hxv
    rw [hnone, hprims, count_cons_of_ne (by simp), count_vrele_clonenode]
  · intro ps hps
    cases ps with
    | nil => exact h.inUse_self _
    | cons p qs =>
      obtain ⟨rfl, hqs⟩ := cons_prefix_cons.mp hps
      obtain ⟨hlocs, haccess, hcount⟩ := exec_counting qs k' fun p hp =>
        .inl (counting_clonenode (hqs.subset hp))
      have hexec : exec k (.copy i :: qs) = exec k' qs := by
        rw [hk']
        rfl
      rw [hexec]
      intro v
      have hnone : qs.count (.vrele v) = 0 := by
        have := hqs.count_le (.vrele v)
        rw [count_vrele_clonenode] at this
        omega
      have hle : k.usecount v ≤ (exec k' qs).usecount v := by
        rw [hcount, hnone, hk']
        show k.usecount v ≤ k.usecount v + (qs.count (.vref v) : Int) - (0 : Nat)
        omega
      have hk := h.inUse_self (fun _ => False) v
      refine ⟨hk.1.trans hle, fun x hx hxv _ => ?_⟩
      -- the copy refers to what the location refers to
      obtain ⟨y, hy, hyv⟩ : ∃ y ∈ slots k, k.access y.1 y.2 = some v := by
        rw [haccess, hk', access_copy] at hxv
        have hlt := (mem_slots x).mp hx
        rw [hlocs, hk'] at hlt
        split at hxv
        · exact ⟨(i, x.2), (mem_slots _).mpr hi, hxv⟩
        · have hlt : x.1 < k.locs + 1 := hlt
          exact ⟨x, (mem_slots _).mpr (by omega), hxv⟩
      exact lt_of_lt_of_le (hk.2 y hy hyv id) hle

/-- **Every call keeps the references and is sound.** -/
theorem Held.call (h : Held others k) (c : Call) (hc : c.loc < k.locs) :
    Held others (exec k (c.prims k)) ∧ Sound k c := by
  cases c with
  | setVnode i vp => exact ⟨h.locSet hc, (h.sound_locSet hc).1, (h.sound_locSet hc).2⟩
  | setVnodeDir i dvp => exact ⟨h.locSet hc, (h.sound_locSet hc).1, (h.sound_locSet hc).2⟩
  | clone i => exact ⟨h.clone i, h.sound_clone hc⟩
  | free i => exact ⟨h.free hc, h.sound_free hc⟩

end Calls

theorem held_init (k : Kernel) (others : Vnode → Nat) : Held (init k others).others (init k others).kernel := by
  intro v
  have hzero : referring (init k others).kernel v = 0 := by
    unfold referring slots init
    simp
  rw [hzero]
  simp [init]

theorem held_step {s t : State} {a : Act} (h : Held s.others s.kernel) (hstep : step s a = some t) :
    Held t.others t.kernel := by
  cases a with
  | create =>
    cases hstep
    intro v
    have hgrow := @referring_grow s.kernel
      { s.kernel with
        access := fun j f => if j = s.kernel.locs then none else s.kernel.access j f
        locs := s.kernel.locs + 1 } v rfl fun j hj => by
          funext g
          simp only
          rw [if_neg (by omega)]
    simp at hgrow
    have hv := h v
    show s.kernel.usecount v = (s.others v : Int) + (referring _ v : Nat)
    rw [hgrow, hv]
  | call c =>
    obtain ⟨hc, ⟨⟩⟩ := Option.ite_none_right_eq_some.mp hstep
    exact (h.call c hc).1
  | hold w =>
    cases hstep
    intro v
    have hv := h v
    show s.kernel.usecount v + one w v = ((if v = w then s.others v + 1 else s.others v : Nat) : Int) +
      referring s.kernel v
    rw [one_apply, hv]
    split
    · omega
    · omega
  | drop w =>
    obtain ⟨hpos, ⟨⟩⟩ := Option.ite_none_right_eq_some.mp hstep
    intro v
    have hv := h v
    show s.kernel.usecount v - one w v = ((if v = w then s.others v - 1 else s.others v : Nat) : Int) +
      referring s.kernel v
    rw [one_apply, hv]
    split
    · rename_i hvw
      subst hvw
      omega
    · omega

/-- **References of locations.**  In every state that is reached each field of a location stands for
    one reference, no vnode that a location refers to has count zero, and every call is sound. -/
theorem held_of_run (k : Kernel) (others : Vnode → Nat) (acts : List Act) (s : State)
    (hrun : run step (init k others) acts = some s) :
    Held s.others s.kernel ∧ (InUse s.kernel fun _ => False) ∧
      ∀ c : Call, c.loc < s.kernel.locs → Sound s.kernel c := by
  have h : Held s.others s.kernel :=
    run_invariant (fun _ _ _ h hstep => held_step h hstep) acts _ _ (held_init k others) hrun
  exact ⟨h, h.inUse_self _, fun c hc => (h.call c hc).2⟩

/-- Two vnodes with a reference each; the second location is a copy of the first, which is then set
    to the vnode it has, to another one, and freed. -/
def sharedRun : List Act :=
  [.create, .call (.setVnode 0 (some 1)), .call (.setVnodeDir 0 (some 2)), .call (.clone 0),
    .call (.setVnode 0 (some 1)), .call (.setVnode 0 (some 2)), .call (.free 0), .drop 1]

def emptyKernel : Kernel := ⟨0, 0, 0, 0, .allAt 0 none, 0, false, 0, fun _ _ => none⟩

theorem held_of_run_sharedRun :
    ∃ s, run step (init emptyKernel fun v => if v = 1 ∨ v = 2 then 1 else 0) sharedRun = some s ∧
      s.kernel.usecount 1 = 1 ∧ s.kernel.usecount 2 = 2 ∧ InUse s.kernel fun _ => False := by
  refine ⟨_, rfl, by decide, by decide, ?_⟩
  exact (held_of_run emptyKernel (fun v => if v = 1 ∨ v = 2 then 1 else 0) sharedRun _ rfl).2.1

end RtemsLibbsd.Vfs
