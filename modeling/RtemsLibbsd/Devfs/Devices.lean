import RtemsLibbsd.Transition
import Mathlib.Algebra.Group.Nat.Defs
import Mathlib.Data.List.Nodup
import Mathlib.Data.List.Perm.Subperm
import Mathlib.Logic.Function.Basic

/-!
# The devices of the device file system

`rtemsbsd/sys/fs/devfs/devfs_devs.c` has the part of the device file system that the generic device
code, `freebsd/sys/kern/kern_conf.c`, calls: devices are allocated, created, destroyed and freed.  A
created device is on `cdevp_list`, has an inode number of `devfs_inos` and one reference more.

The calls of `kern_conf.c` are modelled with it, as steps under `devmtx`: `make_dev` and its variants
allocate and create a device, `delist_dev` and `destroy_dev` destroy it, and others take references
(`dev_refl`) and release them (`dev_rel`).  `destroy_devl` releases the lock while it waits for the
threads in the device, so it is two steps.  Children are destroyed by steps of their own.  Which memory
is allocated is a choice of the environment, and inode numbers are also used by others
(`devfs_alloc_cdp_inode`).

* `LifeCycle` — what has to hold at every moment: the list has the devices that are created and not
  destroyed, with inode numbers of their own, and a destroyed device that nobody uses is freed.
* `Counted` — the invariant of all runs.
* `Lasting` — no device is destroyed, and there is an inode number for each new one; `lifeCycle_iff` is
  the result about runs.
* `created_stays` — a device that was created is never freed and stays on the list.
-/

namespace RtemsLibbsd.Devfs

open Option List Function Transition

/-! ## Devices -/

/-- How far a device is in its life.  It is `leaving` from the call of `devfs_destroy` on, and `gone` when
    `destroy_devl` is done with it. -/
inductive Phase where
  | allocated | created | leaving | gone
  deriving DecidableEq

/-- `struct cdev_priv` and its `struct cdev`: the flags `CDP_ACTIVE`, `CDP_UNREF_DTR` and `SI_NAMED`,
    whether there is a `si_devsw`, `cdp_inode` and `si_refcount`.  The ledger has the phase, the number
    of open descriptors and the number of references of others. -/
structure Cdev where
  active : Bool
  unrefDtr : Bool
  named : Bool
  devsw : Bool
  inode : Nat
  refcount : Nat
  phase : Phase
  opens : Nat
  outside : Nat

/-- The allocated devices, `cdevp_list`, and the numbers of `devfs_inos` in use, of which `others` are
    not used by devices. -/
structure State where
  devs : Nat → Option Cdev
  cdevpList : List Nat
  inos : List Nat
  others : List Nat

def boot : State := ⟨fun _ => none, [], [], []⟩

def devfsRootino : Nat := 2

def intMax : Nat := 2 ^ 31 - 1

/-- The value -1 of `alloc_unrl` as an unsigned number. -/
def noInode : Nat := 2 ^ 32 - 1

/-- `alloc_unrl` of `devfs_inos`: the lowest free number, or -1. -/
def allocUnrl (inos : List Nat) : Nat × List Nat :=
  match (List.range' (devfsRootino + 1) (inos.length + 1)).find? fun i => i ∉ inos with
  | none => (noInode, inos)
  | some i => if i ≤ intMax then (i, i :: inos) else (noInode, inos)

/-- `devfs_free_cdp_inode`. -/
def freeCdpInode (inos : List Nat) (ino : Nat) : List Nat :=
  if 0 < ino then inos.filter (· ≠ ino) else inos

def State.put (k : State) (d : Nat) (c : Cdev) : State :=
  { k with devs := update k.devs d (some c) }

def devfsAlloc (k : State) (d : Nat) : State := k.put d ⟨false, false, false, false, 0, 0, .allocated, 0, 0⟩

def devfsFree (k : State) (d : Nat) (c : Cdev) : State :=
  { k with
    devs := update k.devs d none
    inos := freeCdpInode k.inos c.inode }

/-- `devfs_create`; alias devices have no `si_devsw`. -/
def devfsCreate (k : State) (d : Nat) (c : Cdev) (siAlias : Bool) : State :=
  { k with
    devs := update k.devs d (some
      { c with
        active := true
        named := true
        devsw := !siAlias
        inode := (allocUnrl k.inos).1
        refcount := c.refcount + 1
        phase := .created })
    inos := (allocUnrl k.inos).2
    cdevpList := k.cdevpList ++ [d] }

/-- `devfs_destroy`, after the caller took a reference. -/
def devfsDestroy (c : Cdev) : Cdev :=
  { c with active := false, refcount := c.refcount + 1, phase := .leaving }

/-- `dev_rel` of a reference of others. -/
def devRel (k : State) (d : Nat) (c : Cdev) : State :=
  if c.devsw = false ∧ c.refcount - 1 = 0 then devfsFree k d c
  else k.put d { c with refcount := c.refcount - 1, outside := c.outside - 1 }

/-- `delist_dev_locked`. -/
def delistDev (c : Cdev) : Cdev :=
  if c.unrefDtr then c else { devfsDestroy c with unrefDtr := true }

/-- `destroy_devl` until there are no more threads in the device. -/
def destroyDevlBegin (c : Cdev) : Cdev :=
  { (if c.unrefDtr then c else devfsDestroy c) with named := false, devsw := false }

/-- The rest of `destroy_devl`. -/
def destroyDevlEnd (k : State) (d : Nat) (c : Cdev) : State :=
  if 0 < c.refcount - 1 then
    k.put d { c with unrefDtr := false, refcount := c.refcount - 1, phase := .gone }
  else devfsFree k d c

/-! ## Steps -/

/-- What can happen.  `free` is a `make_dev` that fails after the allocation. -/
inductive Action where
  | alloc (d : Nat)
  | free (d : Nat)
  | create (d : Nat) (siAlias : Bool)
  | ref (d : Nat)
  | rel (d : Nat)
  | openDev (d : Nat)
  | closeDev (d : Nat)
  | delist (d : Nat)
  | destroyBegin (d : Nat)
  | destroyEnd (d : Nat)
  | allocInode
  | freeInode (ino : Nat)

/-- A step on an allocated device, if it is possible in its state. -/
def State.on (k : State) (d : Nat) (ok : Cdev → Bool) (f : Cdev → State) : Option State :=
  (k.devs d).bind fun c => if ok c then some (f c) else none

/-- One step.  New memory is not in use, references are released by those who hold them, a descriptor is
    opened while the device has its file, and a device is destroyed once. -/
def step (k : State) : Action → Option State
  | .alloc d => if (k.devs d).isNone then some (devfsAlloc k d) else none
  | .free d => k.on d (fun c => c.phase = .allocated) fun c => devfsFree k d c
  | .create d siAlias => k.on d (fun c => c.phase = .allocated) fun c => devfsCreate k d c siAlias
  | .ref d =>
    k.on d (fun c => c.phase ≠ .allocated) fun c =>
      k.put d { c with refcount := c.refcount + 1, outside := c.outside + 1 }
  | .rel d => k.on d (fun c => 0 < c.outside) fun c => devRel k d c
  | .openDev d => k.on d (fun c => c.active) fun c => k.put d { c with opens := c.opens + 1 }
  | .closeDev d => k.on d (fun c => 0 < c.opens) fun c => k.put d { c with opens := c.opens - 1 }
  | .delist d => k.on d (fun c => c.named) fun c => k.put d (delistDev c)
  | .destroyBegin d => k.on d (fun c => c.named) fun c => k.put d (destroyDevlBegin c)
  | .destroyEnd d => k.on d (fun c => c.phase = .leaving ∧ ¬ c.named) fun c => destroyDevlEnd k d c
  | .allocInode =>
    some { k with
      inos := (allocUnrl k.inos).2
      others := if (allocUnrl k.inos).1 = noInode then k.others else (allocUnrl k.inos).1 :: k.others }
  | .freeInode ino =>
    if ino ∈ k.others then
      some { k with inos := freeCdpInode k.inos ino, others := k.others.filter (· ≠ ino) }
    else none

/-- **What has to hold at every moment.** -/
structure LifeCycle (k : State) : Prop where
  /-- The list has the devices that are created and not destroyed, each once. -/
  listed : k.cdevpList.Nodup ∧ ∀ d, d ∈ k.cdevpList ↔ ∃ c, k.devs d = some c ∧ c.phase = .created
  numbered : ∀ d ∈ k.cdevpList, ∀ c, k.devs d = some c → c.inode ∈ k.inos
  distinct : ∀ d ∈ k.cdevpList, ∀ e ∈ k.cdevpList, ∀ c c', k.devs d = some c → k.devs e = some c' →
    c.inode = c'.inode → d = e
  /-- A number that is in use is in use by a device that is not freed, or by others. -/
  available : ∀ i ∈ k.inos, i ∈ k.others ∨ ∃ d c, k.devs d = some c ∧ c.inode = i
  /-- A destroyed device is freed unless a descriptor is open or others have a reference. -/
  freed : ∀ d c, k.devs d = some c → c.phase = .gone → 0 < c.opens ∨ 0 < c.outside

/-- No device is destroyed, and a new device finds a free inode number. -/
def Lasting (k : State) (a : Action) : Prop :=
  (step k a).isSome →
    (∀ d, a ≠ .delist d ∧ a ≠ .destroyBegin d) ∧
    ∀ d siAlias, a = .create d siAlias → ∃ i, devfsRootino < i ∧ i ≤ intMax ∧ i ∉ k.inos

/-! ## Inode numbers -/

theorem exists_free (inos : List Nat) :
    ∃ i ∈ List.range' (devfsRootino + 1) (inos.length + 1), i ∉ inos := by
  by_contra hall
  push Not at hall
  have hnodup : (List.range' (devfsRootino + 1) (inos.length + 1)).Nodup := nodup_range'
  have hle := (hnodup.subperm hall).length_le
  rw [length_range'] at hle
  omega

theorem allocUnrl_cases (inos : List Nat) :
    (∃ i, devfsRootino < i ∧ i ≤ intMax ∧ i ∉ inos ∧ allocUnrl inos = (i, i :: inos)) ∨
    ((∀ i, devfsRootino < i → i ≤ intMax → i ∈ inos) ∧ allocUnrl inos = (noInode, inos)) := by
  unfold allocUnrl
  split
  · rename_i hnone
    obtain ⟨i, hi, hfree⟩ := exists_free inos
    exact absurd (decide_eq_true hfree) (find?_eq_none.mp hnone i hi)
  · rename_i i hfind
    have hfree : i ∉ inos := by simpa using find?_some hfind
    have hmem := mem_range'_1.mp (mem_of_find?_eq_some hfind)
    split <;> rename_i hle
    · exact .inl ⟨i, by omega, hle, hfree, rfl⟩
    · refine .inr ⟨?_, rfl⟩
      intro j hlow hhigh
      -- a lower number would have been found first
      obtain ⟨-, l₁, l₂, hsplit, hbefore⟩ := find?_eq_some_iff_append.mp hfind
      have hjmem : j ∈ l₁ ++ i :: l₂ := by
        rw [← hsplit, mem_range'_1]
        omega
      grind

/-! ## The invariant -/

/-- The references of a device: one from its creation, one while it is destroyed, and those of others. -/
structure Fits (c : Cdev) : Prop where
  allocated : c.phase = .allocated → c.inode = 0 ∧ c.refcount = 0 ∧ c.named = false ∧
    c.unrefDtr = false ∧ c.outside = 0
  created : c.phase = .created → c.named = true ∧ c.unrefDtr = false ∧ c.refcount = 1 + c.outside
  leaving : c.phase = .leaving → c.refcount = 2 + c.outside ∧ (c.named = true → c.unrefDtr = true)
  gone : c.phase = .gone → c.refcount = 1 + c.outside ∧ c.named = false

def State.Has (k : State) (d : Nat) (c : Cdev) : Prop := k.devs d = some c ∧ c.phase ≠ .allocated

/-- The list has all devices that were ever created, and the numbers in use are theirs or of others. -/
structure Counted (k : State) : Prop where
  nodup : k.cdevpList.Nodup
  mem_list : ∀ d, d ∈ k.cdevpList ↔ ∃ c, k.Has d c
  fits : ∀ d c, k.devs d = some c → Fits c
  number : ∀ d c, k.Has d c → c.inode ≠ noInode → c.inode ∈ k.inos ∧ c.inode ∉ k.others
  distinct : ∀ d e c c', k.Has d c → k.Has e c' → c.inode ≠ noInode → c.inode = c'.inode → d = e
  owner : ∀ i ∈ k.inos, i ∈ k.others ∨ ∃ d c, k.Has d c ∧ c.inode = i
  others : ∀ i ∈ k.others, i ∈ k.inos
  range : ∀ i ∈ k.inos, devfsRootino < i ∧ i ≤ intMax

theorem counted_boot : Counted boot where
  nodup := nodup_nil
  mem_list := by
    intro d
    constructor
    · intro h
      cases h
    · rintro ⟨c, h, -⟩
      cases h
  fits := fun _ _ h => nomatch h
  number := fun _ _ h => nomatch h.1
  distinct := fun _ _ _ _ h => nomatch h.1
  owner := fun _ h => nomatch h
  others := fun _ h => nomatch h
  range := fun _ h => nomatch h

theorem ne_noInode {i : Nat} (h : i ≤ intMax) : i ≠ noInode := by
  unfold intMax at h
  unfold noInode
  omega

variable {k : State} {c : Cdev} {o : Option Cdev}

theorem has_update {d e : Nat} {l i r : List Nat} :
    State.Has ⟨update k.devs d o, l, i, r⟩ e c ↔
      (e = d ∧ o = some c ∧ c.phase ≠ .allocated) ∨ (e ≠ d ∧ k.Has e c) := by
  unfold State.Has
  by_cases h : e = d
  · subst h
    simp
  · simp [h]

variable {d : Nat}

theorem Counted.put (h : Counted k) {c c' : Cdev} (hd : k.devs d = some c)
    (hfits : Fits c') (hino : c'.inode = c.inode) (hphase : c'.phase = .allocated ↔ c.phase = .allocated) :
    Counted (k.put d c') := by
  -- created devices correspond to each other
  have hback : ∀ e b', (k.put d c').Has e b' → ∃ b, k.Has e b ∧ b.inode = b'.inode := by
    intro e b' hb'
    rcases has_update.mp hb' with ⟨rfl, hb, hp⟩ | ⟨-, hb⟩
    · cases hb
      exact ⟨c, ⟨hd, fun hc => hp (hphase.mpr hc)⟩, hino.symm⟩
    · exact ⟨b', hb, rfl⟩
  have hforth : ∀ e b, k.Has e b → ∃ b', (k.put d c').Has e b' ∧ b'.inode = b.inode := by
    intro e b hb
    by_cases he : e = d
    · subst he
      have hbc : b = c := some.inj (hb.1.symm.trans hd)
      subst hbc
      exact ⟨c', has_update.mpr (.inl ⟨rfl, rfl, fun hc => hb.2 (hphase.mp hc)⟩), hino⟩
    · exact ⟨b, has_update.mpr (.inr ⟨he, hb⟩), rfl⟩
  constructor
  · exact h.nodup
  · intro e
    grind [h.mem_list, State.put]
  · intro e b hb
    by_cases he : e = d
    · subst he
      simp only [State.put, update_self, some.injEq] at hb
      exact hb ▸ hfits
    · simp only [State.put, update_of_ne he] at hb
      exact h.fits e b hb
  · intro e b' hb' hne
    obtain ⟨b, hb, hib⟩ := hback e b' hb'
    rw [← hib] at hne ⊢
    exact h.number e b hb hne
  · intro e e' b' b'' hb' hb'' hne heq
    grind [h.distinct]
  · intro i hi
    refine (h.owner i hi).imp_right ?_
    rintro ⟨e, b, hb, rfl⟩
    obtain ⟨b', hb', hib⟩ := hforth e b hb
    exact ⟨e, b', hb', hib⟩
  · exact h.others
  · exact h.range

theorem Counted.blank (h : Counted k) (hd : ∀ c, ¬ k.Has d c)
    (ho : ∀ c, o = some c → c.phase = .allocated ∧ Fits c) :
    Counted { k with devs := update k.devs d o } := by
  have hsame : ∀ e b, State.Has { k with devs := update k.devs d o } e b ↔ k.Has e b := by
    intro e b
    rw [has_update]
    grind
  constructor
  · exact h.nodup
  · intro e
    simp only [hsame]
    exact h.mem_list e
  · intro e b hb
    grind [h.fits]
  · intro e b hb
    exact h.number e b ((hsame e b).mp hb)
  · intro e e' b b' hb hb'
    exact h.distinct e e' b b' ((hsame e b).mp hb) ((hsame e' b').mp hb')
  · intro i hi
    simp only [hsame]
    exact h.owner i hi
  · exact h.others
  · exact h.range

theorem Counted.create (h : Counted k) (hd : k.devs d = some c)
    (hp : c.phase = .allocated) (siAlias : Bool) : Counted (devfsCreate k d c siAlias) := by
  obtain ⟨c', hc'⟩ : ∃ c' : Cdev, c' =
      { c with
        active := true
        named := true
        devsw := !siAlias
        inode := (allocUnrl k.inos).1
        refcount := c.refcount + 1
        phase := .created } := ⟨_, rfl⟩
  have hk : devfsCreate k d c siAlias =
      ⟨update k.devs d (some c'), k.cdevpList ++ [d], (allocUnrl k.inos).2, k.others⟩ := by
    rw [hc']
    rfl
  have hino : c'.inode = (allocUnrl k.inos).1 := by rw [hc']
  have hfits : Fits c' := by
    have hfit := (h.fits d c hd).allocated hp
    subst hc'
    refine ⟨nofun, fun _ => ⟨rfl, hfit.2.2.2.1, ?_⟩, nofun, nofun⟩
    simp only [hfit.2.1, hfit.2.2.2.2]
  have hnot : ∀ b, ¬ k.Has d b := by
    rintro b ⟨hb, hpb⟩
    rw [hd] at hb
    cases hb
    exact hpb hp
  have hhas : ∀ {e b}, State.Has
      ⟨update k.devs d (some c'), k.cdevpList ++ [d], (allocUnrl k.inos).2, k.others⟩ e b ↔
        (e = d ∧ b = c') ∨ (e ≠ d ∧ k.Has e b) := by
    intro e b
    rw [has_update]
    grind
  have hsub : ∀ j ∈ k.inos, j ∈ (allocUnrl k.inos).2 := by
    intro j hj
    grind [allocUnrl_cases]
  -- the number of the new device is no number in use, unless it has none
  have hnew : c'.inode ≠ noInode → c'.inode ∈ (allocUnrl k.inos).2 ∧ c'.inode ∉ k.inos := by
    intro hne
    rw [hino] at hne ⊢
    rcases allocUnrl_cases k.inos with ⟨i, -, -, hfree, hi⟩ | ⟨-, hi⟩
    · rw [hi]
      exact ⟨mem_cons_self, hfree⟩
    · rw [hi] at hne
      exact absurd rfl hne
  rw [hk]
  constructor
  · refine nodup_append.mpr ⟨h.nodup, nodup_singleton d, ?_⟩
    rintro e he e' he' rfl
    obtain rfl := mem_singleton.mp he'
    obtain ⟨b, hb⟩ := (h.mem_list e).mp he
    exact hnot b hb
  · intro e
    simp only [hhas, mem_append, mem_singleton, h.mem_list]
    grind
  · intro e b hb
    grind [h.fits]
  · intro e b hb hne
    rcases hhas.mp hb with ⟨-, rfl⟩ | ⟨-, hb⟩
    · exact ⟨(hnew hne).1, fun hmem => (hnew hne).2 (h.others _ hmem)⟩
    · exact ⟨hsub _ (h.number e b hb hne).1, (h.number e b hb hne).2⟩
  · intro e e' b b' hb hb' hne heq
    rcases hhas.mp hb with ⟨rfl, rfl⟩ | ⟨-, hold⟩ <;> rcases hhas.mp hb' with ⟨rfl, rfl⟩ | ⟨-, hold'⟩
    · rfl
    · have hmem := (h.number e' b' hold' (heq ▸ hne)).1
      exact absurd (heq ▸ hmem) (hnew hne).2
    · have hmem := (h.number e b hold hne).1
      exact absurd (heq ▸ hmem) (hnew (heq ▸ hne)).2
    · exact h.distinct e e' b b' hold hold' hne heq
  · intro j hj
    by_cases hold : j ∈ k.inos
    · refine (h.owner j hold).imp_right ?_
      rintro ⟨e, b, hb, rfl⟩
      refine ⟨e, b, hhas.mpr (.inr ⟨?_, hb⟩), rfl⟩
      rintro rfl
      exact hnot b hb
    · refine .inr ⟨d, c', hhas.mpr (.inl ⟨rfl, rfl⟩), ?_⟩
      rcases allocUnrl_cases k.inos with ⟨i, -, -, -, hi⟩ | ⟨-, hi⟩ <;> rw [hi] at hj
      · rw [hino, hi]
        exact ((mem_cons.mp hj).resolve_right hold).symm
      · exact absurd hj hold
  · exact fun j hj => hsub j (h.others j hj)
  · intro j hj
    rcases allocUnrl_cases k.inos with ⟨i, hlow, hhigh, -, hi⟩ | ⟨-, hi⟩ <;> rw [hi] at hj
    · rcases mem_cons.mp hj with rfl | hj
      · exact ⟨hlow, hhigh⟩
      · exact h.range j hj
    · exact h.range j hj

theorem Counted.allocInode {k t : State} (h : Counted k) (ht : step k .allocInode = some t) : Counted t := by
  obtain rfl := (some.inj ht).symm
  rcases allocUnrl_cases k.inos with ⟨i, hlow, hhigh, hfree, hi⟩ | ⟨-, hi⟩
  · rw [hi, if_neg (ne_noInode hhigh)]
    constructor
    · exact h.nodup
    · exact h.mem_list
    · exact h.fits
    · intro d c hc hne
      obtain ⟨hin, hout⟩ := h.number d c hc hne
      grind
    · exact h.distinct
    · intro j hj
      rcases mem_cons.mp hj with rfl | hj
      · exact .inl mem_cons_self
      · exact (h.owner j hj).imp_left (mem_cons_of_mem _)
    · intro j hj
      rcases mem_cons.mp hj with rfl | hj
      · exact mem_cons_self
      · exact mem_cons_of_mem _ (h.others j hj)
    · intro j hj
      rcases mem_cons.mp hj with rfl | hj
      · exact ⟨hlow, hhigh⟩
      · exact h.range j hj
  · rw [hi, if_pos rfl]
    exact h

theorem Counted.freeInode (h : Counted k) {ino : Nat} (hmem : ino ∈ k.others) :
    Counted { k with inos := freeCdpInode k.inos ino, others := k.others.filter (· ≠ ino) } := by
  have hpos : 0 < ino := by
    have := (h.range ino (h.others ino hmem)).1
    omega
  have hin : ∀ j, j ∈ freeCdpInode k.inos ino ↔ j ∈ k.inos ∧ j ≠ ino := by
    intro j
    simp [freeCdpInode, hpos]
  have hout : ∀ j, j ∈ k.others.filter (· ≠ ino) ↔ j ∈ k.others ∧ j ≠ ino := by
    intro j
    simp
  constructor
  · exact h.nodup
  · exact h.mem_list
  · exact h.fits
  · intro d c hc hne
    obtain ⟨h₁, h₂⟩ := h.number d c hc hne
    grind
  · exact h.distinct
  · intro j hj
    obtain ⟨hj, hne⟩ := (hin j).mp hj
    exact (h.owner j hj).imp_left fun hjo => (hout j).mpr ⟨hjo, hne⟩
  · intro j hj
    obtain ⟨hj, hne⟩ := (hout j).mp hj
    exact (hin j).mpr ⟨h.others j hj, hne⟩
  · exact fun j hj => h.range j ((hin j).mp hj).1

theorem on_eq_some {k t : State} {ok : Cdev → Bool} {f : Cdev → State} :
    k.on d ok f = some t ↔ ∃ c, k.devs d = some c ∧ ok c ∧ f c = t := by
  simp [State.on, bind_eq_some_iff]

/-- What a step on a device leaves as it is: it is created before and after, and keeps its number. -/
structure Keeps (c c' : Cdev) : Prop where
  fits : Fits c'
  inode : c'.inode = c.inode
  phase : c'.phase = .allocated ↔ c.phase = .allocated

theorem Fits.delistDev (h : Fits c) (hn : c.named = true) : Keeps c (delistDev c) := by
  unfold Devfs.delistDev
  split <;> rename_i hu
  · exact ⟨h, rfl, Iff.rfl⟩
  · cases hp : c.phase with
    | allocated => simp [((h.allocated hp).2.2.1)] at hn
    | created =>
      have hcount := (h.created hp).2.2
      refine ⟨⟨nofun, nofun, fun _ => ⟨?_, fun _ => rfl⟩, nofun⟩, rfl, by simp [devfsDestroy, hp]⟩
      simp only [devfsDestroy]
      omega
    | leaving => exact absurd ((h.leaving hp).2 hn) hu
    | gone => simp [(h.gone hp).2] at hn

theorem Fits.destroyDevlBegin (h : Fits c) (hn : c.named = true) :
    Keeps c (destroyDevlBegin c) := by
  unfold Devfs.destroyDevlBegin
  cases hp : c.phase with
  | allocated => simp [((h.allocated hp).2.2.1)] at hn
  | created =>
    obtain ⟨-, hu, hcount⟩ := h.created hp
    refine ⟨⟨?_, ?_, fun _ => ⟨?_, nofun⟩, ?_⟩, ?_, ?_⟩ <;> simp [hu, devfsDestroy, hp]
    omega
  | leaving =>
    obtain ⟨hcount, hu⟩ := h.leaving hp
    refine ⟨⟨?_, ?_, fun _ => ⟨?_, nofun⟩, ?_⟩, ?_, ?_⟩ <;> simp [hu hn, hp]
    exact hcount
  | gone => simp [(h.gone hp).2] at hn

theorem Fits.ref (h : Fits c) (hp : c.phase ≠ .allocated) :
    Keeps c { c with refcount := c.refcount + 1, outside := c.outside + 1 } := by
  refine ⟨⟨fun ha => absurd ha hp, ?_, ?_, ?_⟩, rfl, Iff.rfl⟩
  · intro hc
    obtain ⟨h₁, h₂, hcount⟩ := h.created hc
    exact ⟨h₁, h₂, by simp only; omega⟩
  · intro hl
    obtain ⟨hcount, h₂⟩ := h.leaving hl
    exact ⟨by simp only; omega, h₂⟩
  · intro hg
    obtain ⟨hcount, h₂⟩ := h.gone hg
    exact ⟨by simp only; omega, h₂⟩

theorem Fits.rel (h : Fits c) (ho : 0 < c.outside) :
    Keeps c { c with refcount := c.refcount - 1, outside := c.outside - 1 } := by
  refine ⟨⟨?_, ?_, ?_, ?_⟩, rfl, Iff.rfl⟩
  · intro ha
    have := (h.allocated ha).2.2.2.2
    omega
  · intro hc
    obtain ⟨h₁, h₂, hcount⟩ := h.created hc
    exact ⟨h₁, h₂, by simp only; omega⟩
  · intro hl
    obtain ⟨hcount, h₂⟩ := h.leaving hl
    exact ⟨by simp only; omega, h₂⟩
  · intro hg
    obtain ⟨hcount, h₂⟩ := h.gone hg
    exact ⟨by simp only; omega, h₂⟩

theorem Fits.opens (h : Fits c) (n : Nat) : Keeps c { c with opens := n } := by
  obtain ⟨h₁, h₂, h₃, h₄⟩ := h
  exact ⟨⟨h₁, h₂, h₃, h₄⟩, rfl, Iff.rfl⟩

theorem Fits.destroyDevlEnd (h : Fits c) (hp : c.phase = .leaving) (hn : c.named = false) :
    Keeps c { c with unrefDtr := false, refcount := c.refcount - 1, phase := .gone } := by
  have hcount := (h.leaving hp).1
  refine ⟨⟨nofun, nofun, nofun, fun _ => ⟨?_, hn⟩⟩, rfl, by simp [hp]⟩
  simp only
  omega

theorem Fits.outside_lt (h : Fits c) (ho : 0 < c.outside) : c.outside < c.refcount := by
  cases hp : c.phase with
  | allocated =>
    have := (h.allocated hp).2.2.2.2
    omega
  | created =>
    have := (h.created hp).2.2
    omega
  | leaving =>
    have := (h.leaving hp).1
    omega
  | gone =>
    have := (h.gone hp).1
    omega

variable {a : Action}

/-- **What a step does**: memory that is in no created device changes, a device is created, others take
    or give back a number, or a device changes and keeps its number.  No created device is freed. -/
theorem step_cases {k t : State} (h : Counted k) (ht : step k a = some t) :
    (∃ d o, (∀ c, ¬ k.Has d c) ∧ (∀ c, o = some c → c.phase = .allocated ∧ Fits c) ∧
      t = { k with devs := update k.devs d o }) ∨
    (∃ d c siAlias, a = .create d siAlias ∧ k.devs d = some c ∧ c.phase = .allocated ∧
      t = devfsCreate k d c siAlias) ∨ a = .allocInode ∨ (∃ ino ∈ k.others,
      t = { k with inos := freeCdpInode k.inos ino, others := k.others.filter (· ≠ ino) }) ∨
    ∃ d c c', k.devs d = some c ∧ Keeps c c' ∧ t = k.put d c' := by
  cases a with
  | alloc d =>
    obtain ⟨hfree, ⟨⟩⟩ := ite_none_right_eq_some.mp ht
    refine .inl ⟨d, _, ?_, ?_, rfl⟩
    · rintro c ⟨hc, -⟩
      simp [hc] at hfree
    · rintro c ⟨⟩
      exact ⟨rfl, fun _ => ⟨rfl, rfl, rfl, rfl, rfl⟩, nofun, nofun, nofun⟩
  | free d =>
    obtain ⟨c, hd, hok, rfl⟩ := on_eq_some.mp ht
    have hp : c.phase = .allocated := of_decide_eq_true hok
    refine .inl ⟨d, none, ?_, nofun, ?_⟩
    · rintro b ⟨hb, hpb⟩
      rw [hd] at hb
      cases hb
      exact hpb hp
    · simp [devfsFree, freeCdpInode, ((h.fits d c hd).allocated hp).1]
  | create d siAlias =>
    obtain ⟨c, hd, hok, rfl⟩ := on_eq_some.mp ht
    exact .inr (.inl ⟨d, c, siAlias, rfl, hd, of_decide_eq_true hok, rfl⟩)
  | ref d =>
    obtain ⟨c, hd, hok, rfl⟩ := on_eq_some.mp ht
    have hk := (h.fits d c hd).ref (of_decide_eq_true hok)
    exact .inr (.inr (.inr (.inr ⟨d, c, _, hd, hk, rfl⟩)))
  | rel d =>
    obtain ⟨c, hd, hok, rfl⟩ := on_eq_some.mp ht
    have hout : 0 < c.outside := of_decide_eq_true hok
    have hlt := (h.fits d c hd).outside_lt hout
    have hrel : devRel k d c =
        k.put d { c with refcount := c.refcount - 1, outside := c.outside - 1 } := by
      unfold devRel
      rw [if_neg]
      omega
    exact .inr (.inr (.inr (.inr ⟨d, c, _, hd, (h.fits d c hd).rel hout, hrel⟩)))
  | openDev d =>
    obtain ⟨c, hd, -, rfl⟩ := on_eq_some.mp ht
    exact .inr (.inr (.inr (.inr ⟨d, c, _, hd, (h.fits d c hd).opens _, rfl⟩)))
  | closeDev d =>
    obtain ⟨c, hd, -, rfl⟩ := on_eq_some.mp ht
    exact .inr (.inr (.inr (.inr ⟨d, c, _, hd, (h.fits d c hd).opens _, rfl⟩)))
  | delist d =>
    obtain ⟨c, hd, hn, rfl⟩ := on_eq_some.mp ht
    exact .inr (.inr (.inr (.inr ⟨d, c, _, hd, (h.fits d c hd).delistDev hn, rfl⟩)))
  | destroyBegin d =>
    obtain ⟨c, hd, hn, rfl⟩ := on_eq_some.mp ht
    exact .inr (.inr (.inr (.inr ⟨d, c, _, hd, (h.fits d c hd).destroyDevlBegin hn, rfl⟩)))
  | destroyEnd d =>
    obtain ⟨c, hd, hok, rfl⟩ := on_eq_some.mp ht
    obtain ⟨hp, hn⟩ := of_decide_eq_true hok
    have hcount := ((h.fits d c hd).leaving hp).1
    -- the reference from the creation is still there
    have hend : destroyDevlEnd k d c =
        k.put d { c with unrefDtr := false, refcount := c.refcount - 1, phase := .gone } := by
      unfold Devfs.destroyDevlEnd
      rw [if_pos]
      omega
    have hk := (h.fits d c hd).destroyDevlEnd hp (by simpa using hn)
    exact .inr (.inr (.inr (.inr ⟨d, c, _, hd, hk, hend⟩)))
  | allocInode => exact .inr (.inr (.inl rfl))
  | freeInode ino =>
    obtain ⟨hmem, ⟨⟩⟩ := ite_none_right_eq_some.mp ht
    exact .inr (.inr (.inr (.inl ⟨ino, hmem, rfl⟩)))

theorem counted_step {k t : State} (h : Counted k) (ht : step k a = some t) : Counted t := by
  rcases step_cases h ht with ⟨d, o, hd, ho, rfl⟩ | ⟨d, c, siAlias, rfl, hd, hp, rfl⟩ | rfl |
    ⟨ino, hmem, rfl⟩ | ⟨d, c, c', hd, hk, rfl⟩
  · exact h.blank hd ho
  · exact h.create hd hp siAlias
  · exact h.allocInode ht
  · exact h.freeInode hmem
  · exact h.put hd hk.fits hk.inode hk.phase

/-! ## Runs -/

/-- No device was destroyed, and none had to do without a number. -/
def Unharmed (k : State) : Prop :=
  ∀ d c, k.devs d = some c → (c.phase = .allocated ∨ c.phase = .created) ∧ c.inode ≠ noInode

theorem unharmed_boot : Unharmed boot := fun _ _ h => nomatch h

theorem lifeCycle_iff_unharmed (h : Counted k) : LifeCycle k ↔ Unharmed k := by
  constructor
  · intro hl d c hd
    cases hp : c.phase with
    | allocated =>
      rw [((h.fits d c hd).allocated hp).1]
      exact ⟨.inl rfl, ne_noInode (Nat.zero_le _)⟩
    | created =>
      have hmem := hl.listed.2 d |>.mpr ⟨c, hd, hp⟩
      exact ⟨.inr rfl, ne_noInode (h.range _ (hl.numbered d hmem c hd)).2⟩
    | leaving | gone =>
      have hmem := (h.mem_list d).mpr ⟨c, hd, by simp [hp]⟩
      obtain ⟨c', hd', hp'⟩ := (hl.listed.2 d).mp hmem
      rw [hd] at hd'
      cases hd'
      rw [hp] at hp'
      cases hp'
  · intro hu
    have hcreated : ∀ d c, k.Has d c → c.phase = .created := fun d c hc =>
      (hu d c hc.1).1.resolve_left hc.2
    have hhas : ∀ d ∈ k.cdevpList, ∀ c, k.devs d = some c → k.Has d c := by
      intro d hmem c hd
      grind [h.mem_list, State.Has]
    constructor
    · grind [h.nodup, h.mem_list, State.Has]
    · intro d hmem c hd
      exact (h.number d c (hhas d hmem c hd) (hu d c hd).2).1
    · intro d hd e he c c' hc hc' heq
      exact h.distinct d e c c' (hhas d hd c hc) (hhas e he c' hc') (hu d c hc).2 heq
    · intro i hi
      refine (h.owner i hi).imp_right ?_
      rintro ⟨d, c, hc, hci⟩
      exact ⟨d, c, hc.1, hci⟩
    · intro d c hd hg
      rcases (hu d c hd).1 with hp | hp <;> rw [hp] at hg <;> cases hg

theorem unharmed_update (hu : Unharmed k) {l i r : List Nat} :
    Unharmed ⟨update k.devs d o, l, i, r⟩ ↔
      ∀ c, o = some c → (c.phase = .allocated ∨ c.phase = .created) ∧ c.inode ≠ noInode := by
  constructor
  · intro h c hc
    exact h d c (by simpa using hc)
  · intro h e c hc
    grind [Unharmed]

theorem unharmed_put (hu : Unharmed k) {c c' : Cdev} (hd : k.devs d = some c)
    (hi : c'.inode = c.inode) : Unharmed (k.put d c') ↔ c'.phase = .allocated ∨ c'.phase = .created := by
  unfold State.put
  rw [unharmed_update hu]
  constructor
  · exact fun h => (h c' rfl).1
  · rintro hp b ⟨⟩
    exact ⟨hp, hi ▸ (hu d c hd).2⟩

theorem Unharmed.put (hu : Unharmed k) {c c' : Cdev} (hd : k.devs d = some c)
    (hi : c'.inode = c.inode) (hp : c'.phase = c.phase) : Unharmed (k.put d c') := by
  rw [unharmed_put hu hd hi, hp]
  exact (hu d c hd).1

theorem unharmed_create (hu : Unharmed k) (d : Nat) (c : Cdev) (siAlias : Bool) :
    Unharmed (devfsCreate k d c siAlias) ↔ ∃ i, devfsRootino < i ∧ i ≤ intMax ∧ i ∉ k.inos := by
  unfold devfsCreate
  rw [unharmed_update hu]
  simp only [some.injEq, forall_eq']
  rcases allocUnrl_cases k.inos with ⟨i, hlow, hhigh, hfree, hi⟩ | ⟨hall, hi⟩ <;> rw [hi]
  · exact ⟨fun _ => ⟨i, hlow, hhigh, hfree⟩, fun _ => ⟨.inr trivial, ne_noInode hhigh⟩⟩
  · grind

theorem destroy_phase (h : Counted k) (hu : Unharmed k)
    (hd : k.devs d = some c) (hn : c.named = true) :
    (delistDev c).phase = .leaving ∧ (destroyDevlBegin c).phase = .leaving := by
  have hfit := h.fits d c hd
  grind [hfit.allocated, hfit.created, delistDev, devfsDestroy, destroyDevlBegin, Unharmed]

theorem unharmed_step_iff {k t : State} (h : Counted k) (hu : Unharmed k) (ht : step k a = some t) :
    Unharmed t ↔ (∀ d, a ≠ .delist d ∧ a ≠ .destroyBegin d) ∧
      ∀ d siAlias, a = .create d siAlias → ∃ i, devfsRootino < i ∧ i ≤ intMax ∧ i ∉ k.inos := by
  cases a with
  | alloc d =>
    obtain ⟨-, ⟨⟩⟩ := ite_none_right_eq_some.mp ht
    refine iff_of_true ((unharmed_update hu).mpr ?_) (by simp)
    rintro c ⟨⟩
    exact ⟨.inl rfl, ne_noInode (Nat.zero_le _)⟩
  | free d =>
    obtain ⟨c, -, -, rfl⟩ := on_eq_some.mp ht
    exact iff_of_true ((unharmed_update hu).mpr nofun) (by simp)
  | create d siAlias =>
    obtain ⟨c, -, -, rfl⟩ := on_eq_some.mp ht
    simp [unharmed_create hu]
  | ref d =>
    obtain ⟨c, hd, -, rfl⟩ := on_eq_some.mp ht
    refine iff_of_true ?_ (by simp)
    exact hu.put hd rfl rfl
  | rel d =>
    obtain ⟨c, hd, -, rfl⟩ := on_eq_some.mp ht
    refine iff_of_true ?_ (by simp)
    unfold devRel
    split
    · exact (unharmed_update hu).mpr nofun
    · exact hu.put hd rfl rfl
  | openDev d =>
    obtain ⟨c, hd, -, rfl⟩ := on_eq_some.mp ht
    refine iff_of_true ?_ (by simp)
    exact hu.put hd rfl rfl
  | closeDev d =>
    obtain ⟨c, hd, -, rfl⟩ := on_eq_some.mp ht
    refine iff_of_true ?_ (by simp)
    exact hu.put hd rfl rfl
  | delist d =>
    obtain ⟨c, hd, hn, rfl⟩ := on_eq_some.mp ht
    have hk := (h.fits d c hd).delistDev hn
    simp [unharmed_put hu hd hk.inode, (destroy_phase h hu hd hn).1]
  | destroyBegin d =>
    obtain ⟨c, hd, hn, rfl⟩ := on_eq_some.mp ht
    have hk := (h.fits d c hd).destroyDevlBegin hn
    simp [unharmed_put hu hd hk.inode, (destroy_phase h hu hd hn).2]
  | destroyEnd d =>
    obtain ⟨c, hd, hok, rfl⟩ := on_eq_some.mp ht
    obtain ⟨hp, -⟩ := of_decide_eq_true hok
    rcases (hu d c hd).1 with hp' | hp' <;> rw [hp'] at hp <;> cases hp
  | allocInode =>
    cases ht
    exact iff_of_true hu (by simp)
  | freeInode ino =>
    obtain ⟨-, ⟨⟩⟩ := ite_none_right_eq_some.mp ht
    exact iff_of_true hu (by simp)

/-- **The life cycle of devices is as it has to be at every moment of a run exactly if the run destroys no
    device** (and there is an inode number for every new one). -/
theorem lifeCycle_iff (as : List Action) :
    StepsMeet step (fun k a => ∀ t ∈ step k a, LifeCycle t) boot as ↔ StepsMeet step Lasting boot as := by
  have hcall : ∀ k a, Counted k ∧ Unharmed k → ((∀ t ∈ step k a, LifeCycle t) ↔ Lasting k a) := by
    rintro k a ⟨h, hu⟩
    unfold Lasting
    cases ht : step k a with
    | none => simp
    | some t =>
      have hiff := unharmed_step_iff h hu ht
      rw [← lifeCycle_iff_unharmed (counted_step h ht)] at hiff
      simpa using hiff
  have hstep : ∀ k a t, Counted k ∧ Unharmed k → (∀ t ∈ step k a, LifeCycle t) → step k a = some t →
      Counted t ∧ Unharmed t := by
    rintro k a t ⟨h, -⟩ hl ht
    have hc := counted_step h ht
    exact ⟨hc, (lifeCycle_iff_unharmed hc).mp (hl t ht)⟩
  exact stepsMeet_congr_of_invariant hcall hstep as boot ⟨counted_boot, unharmed_boot⟩

/-- A device that was created and destroyed, and that nobody uses any more, is on the list. -/
theorem destroyed_listed :
    ¬ StepsMeet step (fun k a => ∀ t ∈ step k a, LifeCycle t) boot
      [.alloc 1, .create 1 false, .destroyBegin 1, .destroyEnd 1] := by
  rintro ⟨-, h⟩
  obtain ⟨-, h⟩ := h _ rfl
  obtain ⟨h, -⟩ := h _ rfl
  have hl := (h _ rfl).listed.2 1
  obtain ⟨c, hd, hp⟩ := hl.mp (mem_singleton.mpr rfl)
  cases hd
  cases hp

/-- **A device that was created is never freed**: it stays on the list and keeps its number, whatever
    happens to it. -/
theorem created_stays {as bs : List Action} {k t : State} {d : Nat} {c : Cdev} (hk : run step boot as = some k)
    (hc : k.Has d c) (hr : run step k bs = some t) :
    d ∈ t.cdevpList ∧ ∃ c', t.Has d c' ∧ c'.inode = c.inode := by
  have hstep : ∀ k a t, (Counted k ∧ ∃ b, k.Has d b ∧ b.inode = c.inode) → step k a = some t →
      Counted t ∧ ∃ b, t.Has d b ∧ b.inode = c.inode := by
    rintro k a t ⟨h, b, hb, hino⟩ ht
    refine ⟨counted_step h ht, ?_⟩
    rcases step_cases h ht with ⟨e, o, he, -, rfl⟩ | ⟨e, b', siAlias, rfl, he, hp, rfl⟩ | rfl |
      ⟨ino, -, rfl⟩ | ⟨e, b', b'', he, hk, rfl⟩
    · refine ⟨b, has_update.mpr (.inr ⟨?_, hb⟩), hino⟩
      rintro rfl
      exact he b hb
    · refine ⟨b, has_update.mpr (.inr ⟨?_, hb⟩), hino⟩
      rintro rfl
      rw [hb.1] at he
      cases he
      exact hb.2 hp
    · cases ht
      exact ⟨b, hb, hino⟩
    · exact ⟨b, hb, hino⟩
    · by_cases hde : d = e
      · subst hde
        rw [hb.1] at he
        cases he
        exact ⟨b'', has_update.mpr (.inl ⟨rfl, rfl, fun hp => hb.2 (hk.phase.mp hp)⟩), hk.inode.trans hino⟩
      · exact ⟨b, has_update.mpr (.inr ⟨hde, hb⟩), hino⟩
  have h := run_invariant (fun _ _ _ => counted_step) as boot k counted_boot hk
  obtain ⟨ht, c', hc', hino⟩ := run_invariant hstep bs k t ⟨h, c, hc, rfl⟩ hr
  exact ⟨(ht.mem_list d).mpr ⟨c', hc'⟩, c', hc', hino⟩

theorem created_stays_destroyed : ∃ t,
    run step boot [.alloc 1, .create 1 false, .destroyBegin 1, .destroyEnd 1] = some t ∧ 1 ∈ t.cdevpList :=
  ⟨_, rfl, (@created_stays [.alloc 1, .create 1 false] [.destroyBegin 1, .destroyEnd 1] _ _ 1 _ rfl
    ⟨rfl, fun h => by cases h⟩ rfl).1⟩

end RtemsLibbsd.Devfs
