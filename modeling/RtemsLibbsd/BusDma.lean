import Mathlib.Data.Finmap
import Mathlib.Data.Finset.Card
import Mathlib.Data.Finset.Max
import RtemsLibbsd.Transition

/-!
# DMA tags and their reference counts

Model of `bus_dma_tag_create`, `bus_dma_tag_destroy`, `bus_dmamap_create` and
`bus_dmamap_destroy` of `rtemsbsd/rtems/rtems-kernel-bus-dma.c`.

* The heap of tags is a finite map; `malloc` may return any address that is not allocated, so
  addresses are reused.
* `busDmaTagCreate` — the new tag inherits the restrictions of its parent.  Without a filter of
  its own it skips over the parent and links to the grandparent; the reference is nevertheless
  counted on the *parent*.
* `busDmaTagDestroy` — drops one reference and walks up the parent chain while counts reach
  zero.  Reading a tag that is not allocated is recorded as a fault.

`State.held`, `State.born`, `State.clock`, `State.mallocs` and `State.frees` are bookkeeping of
the model (who still owns a tag, creation times, allocator calls); no modelled function reads
them.

Principal results: `busDmaTagCreate_spec`, `dropRefs_spec` and the run theorem
`contract_of_linkCounted` — as long as no tag skips over a parent that has a parent itself, the
count of every tag is exact in every reachable state, nothing is freed early or twice and
nothing leaks.  `skipRun_breaks` shows what a single such skip does.
-/

namespace RtemsLibbsd.BusDma

open RtemsLibbsd.Transition

abbrev Addr := Nat

/-- `ENOMEM`, `EBUSY`. -/
inductive Errno where
  | enomem
  | ebusy

/-- The lock function of a tag: `dflt_lock`, or one the driver passed. -/
inductive LockFunc where
  | dfltLock
  | driver (f : Nat)

/-- `struct bus_dma_tag`. -/
structure Tag where
  parent : Option Addr
  alignment : Nat
  boundary : Nat
  lowaddr : Nat
  highaddr : Nat
  filter : Option Nat
  filterarg : Nat
  maxsize : Nat
  nsegments : Nat
  maxsegsz : Nat
  flags : Nat
  refCount : Int
  mapCount : Int
  lockfunc : LockFunc
  lockfuncarg : Nat

/-- The arguments of `bus_dma_tag_create` besides the parent. -/
structure TagArgs where
  alignment : Nat
  boundary : Nat
  lowaddr : Nat
  highaddr : Nat
  filter : Option Nat
  filterarg : Nat
  maxsize : Nat
  nsegments : Nat
  maxsegsz : Nat
  flags : Nat
  lockfunc : Option Nat
  lockfuncarg : Nat

inductive Fault where
  | useAfterFree
  | outOfRounds

structure State where
  heap : Finmap (fun _ : Addr => Tag)
  held : Finset Addr
  born : Addr → Nat
  clock : Nat
  mallocs : List Addr
  frees : List Addr
  fault : Option Fault

def State.init : State := ⟨∅, ∅, fun _ => 0, 0, [], [], none⟩

/-- The kernel's `min`, an inline function on `u_int`. -/
def uMin (a b : Nat) : Nat := min (a % 2 ^ 32) (b % 2 ^ 32)

/-- The kernel's `max`, an inline function on `u_int`. -/
def uMax (a b : Nat) : Nat := max (a % 2 ^ 32) (b % 2 ^ 32)

/-- The fields set before the parent is looked at; "count ourself". -/
def newTag (parent : Option Addr) (a : TagArgs) : Tag where
  parent := parent
  alignment := a.alignment
  boundary := a.boundary
  lowaddr := a.lowaddr
  highaddr := a.highaddr
  filter := a.filter
  filterarg := a.filterarg
  maxsize := a.maxsize
  nsegments := a.nsegments
  maxsegsz := a.maxsegsz
  flags := a.flags
  refCount := 1
  mapCount := 0
  lockfunc := match a.lockfunc with
    | some f => .driver f
    | none => .dfltLock
  lockfuncarg := match a.lockfunc with
    | some _ => a.lockfuncarg
    | none => 0

/-- The restrictions imposed by the parent tag `p`. -/
def Tag.restrict (t p : Tag) : Tag :=
  let t := { t with
    lowaddr := uMin p.lowaddr t.lowaddr
    highaddr := uMax p.highaddr t.highaddr
    boundary :=
      if t.boundary = 0 then p.boundary
      else if p.boundary ≠ 0 then min p.boundary t.boundary else t.boundary }
  -- the short circuit: all of the parent's information is encapsulated in the new tag
  if t.filter = none then { t with filter := p.filter, filterarg := p.filterarg, parent := p.parent }
  else t

/-- The address returned in `*dmat` and the error. -/
abbrev CreateResult := Except Errno Addr

/-- A successful `malloc` of a tag at `n`. -/
def State.addTag (s : State) (n : Addr) (t : Tag) : State :=
  { s with
    heap := s.heap.insert n t
    born := fun a => if a = n then s.clock else s.born a
    clock := s.clock + 1
    mallocs := n :: s.mallocs }

def State.setTag (s : State) (n : Addr) (t : Tag) : State := { s with heap := s.heap.insert n t }

/-- `bus_dma_tag_create`; `mem` is what `malloc` returns. -/
def busDmaTagCreate (s : State) (parent : Option Addr) (args : TagArgs) (mem : Option Addr) :
    State × CreateResult :=
  match mem with
  | none => (s, .error .enomem)
  | some n =>
    match parent with
    | none => (s.addTag n (newTag none args), .ok n)
    | some p =>
      match s.heap.lookup p with
      | none => ({ s with fault := some .useAfterFree }, .ok n)
      | some pt =>
        let t := (newTag (some p) args).restrict pt
        -- `atomic_add_int(&parent->ref_count, 1)`: the argument, not the stored parent
        let s := if t.parent = none then s else s.setTag p { pt with refCount := pt.refCount + 1 }
        (s.addTag n t, .ok n)

/-- The `while (dmat != NULL)` loop of `bus_dma_tag_destroy`. -/
def dropRefs : Nat → State → Option Addr → State
  | _, s, none => s
  | 0, s, some _ => { s with fault := some .outOfRounds }
  | n + 1, s, some d =>
    match s.heap.lookup d with
    | none => { s with fault := some .useAfterFree }
    | some t =>
      if t.refCount - 1 = 0 then
        dropRefs n { s with heap := s.heap.erase d, frees := d :: s.frees } t.parent
      else s.setTag d { t with refCount := t.refCount - 1 }

/-- `bus_dma_tag_destroy`: every round but the last frees a tag, so the loop ends within
    `heap.keys.card + 1` rounds. -/
def busDmaTagDestroy (s : State) (dmat : Option Addr) : State × Except Errno Unit :=
  match dmat with
  | none => (s, .ok ())
  | some d =>
    match s.heap.lookup d with
    | none => ({ s with fault := some .useAfterFree }, .ok ())
    | some t =>
      if t.mapCount ≠ 0 then (s, .error .ebusy)
      else (dropRefs (s.heap.keys.card + 1) s (some d), .ok ())

/-- `bus_dmamap_create`; `mem` tells whether `malloc` of the map succeeds. -/
def busDmamapCreate (s : State) (d : Addr) (mem : Bool) : State :=
  if mem then
    match s.heap.lookup d with
    | none => { s with fault := some .useAfterFree }
    | some t => s.setTag d { t with mapCount := t.mapCount + 1 }
  else s

def busDmamapDestroy (s : State) (d : Addr) : State :=
  match s.heap.lookup d with
  | none => { s with fault := some .useAfterFree }
  | some t => s.setTag d { t with mapCount := t.mapCount - 1 }

inductive Act where
  | tagCreate (parent : Option Addr) (args : TagArgs) (mem : Option Addr)
  | tagDestroy (d : Addr)
  | mapCreate (d : Addr) (mem : Bool)
  | mapDestroy (d : Addr)

/-- What the callers may do: parents are existing tags, `malloc` returns unallocated memory,
    and each creator destroys its tag at most once and uses it only before. -/
def Act.possible (s : State) : Act → Prop
  | .tagCreate parent _ mem => (∀ p ∈ parent, p ∈ s.heap) ∧ ∀ n ∈ mem, n ∉ s.heap
  | .tagDestroy d => d ∈ s.held
  | .mapCreate d _ => d ∈ s.held
  | .mapDestroy d => d ∈ s.held

instance (s : State) : ∀ a : Act, Decidable (a.possible s)
  | .tagCreate _ _ _ => inferInstanceAs (Decidable (_ ∧ _))
  | .tagDestroy _ => inferInstanceAs (Decidable (_ ∈ _))
  | .mapCreate _ _ => inferInstanceAs (Decidable (_ ∈ _))
  | .mapDestroy _ => inferInstanceAs (Decidable (_ ∈ _))

/-- A tag is held from the return of `bus_dma_tag_create` until `bus_dma_tag_destroy` succeeds. -/
def effect (s : State) : Act → State
  | .tagCreate parent args mem =>
    match busDmaTagCreate s parent args mem with
    | (s, .ok n) => { s with held := insert n s.held }
    | (s, .error _) => s
  | .tagDestroy d =>
    match busDmaTagDestroy s (some d) with
    | (s, .ok ()) => { s with held := s.held.erase d }
    | (s, .error _) => s
  | .mapCreate d mem => busDmamapCreate s d mem
  | .mapDestroy d => busDmamapDestroy s d

def step (s : State) (a : Act) : Option State := if a.possible s then some (effect s a) else none

/-! ## The invariant -/

/-- The stored parent pointer of the tag at `a`. -/
def State.parentOf (s : State) (a : Addr) : Option Addr := (s.heap.lookup a).bind Tag.parent

/-- The existing tags whose stored parent pointer refers to `a`. -/
def State.children (s : State) (a : Addr) : Finset Addr := s.heap.keys.filter (fun b => s.parentOf b = some a)

def State.creatorRef (s : State) (a : Addr) : Nat := if a ∈ s.held then 1 else 0

/-- The invariant of the reference counts while the reference `owed` is still to be dropped
    (`none` between two calls). -/
structure TagInv (owed : Option Addr) (s : State) : Prop where
  count : ∀ a t, s.heap.lookup a = some t →
    t.refCount = (s.creatorRef a + (s.children a).card + if owed = some a then 1 else 0 : Nat)
  parent : ∀ a p, s.parentOf a = some p → p ∈ s.heap
  older : ∀ a p, s.parentOf a = some p → s.born p < s.born a
  young : ∀ a ∈ s.heap, s.born a < s.clock
  used : ∀ a t, s.heap.lookup a = some t → 0 < t.refCount
  held : ∀ a ∈ s.held, a ∈ s.heap
  owed : ∀ a ∈ owed, a ∈ s.heap
  freed : ∀ a, s.mallocs.count a = s.frees.count a + if a ∈ s.heap then 1 else 0
  fault : s.fault = none

theorem TagInv.init : TagInv none State.init where
  count a t h := by simp [State.init] at h
  parent a p h := by simp [State.init, State.parentOf] at h
  older a p h := by simp [State.init, State.parentOf] at h
  young a h := absurd h Finmap.notMem_empty
  used a t h := by simp [State.init] at h
  held a h := by simp [State.init] at h
  owed a h := by simp at h
  freed a := by
    rfl
  fault := rfl

/-! ## Effect of the heap updates on the links -/

section Links

variable {s : State} {n d a : Addr} {t t' : Tag}

theorem parentOf_of_lookup (h : s.heap.lookup a = some t) : s.parentOf a = t.parent := by
  simp [State.parentOf, h]

theorem mem_of_parentOf {p : Addr} (h : s.parentOf a = some p) : a ∈ s.heap := by
  obtain ⟨t, ht, _⟩ := Option.bind_eq_some_iff.mp h
  exact Finmap.mem_of_lookup_eq_some ht

theorem mem_children {b : Addr} : b ∈ s.children a ↔ s.parentOf b = some a := by
  simp only [State.children, Finset.mem_filter, Finmap.mem_keys, and_iff_right_iff_imp]
  exact mem_of_parentOf

theorem mem_setTag (h : s.heap.lookup n = some t) : a ∈ (s.setTag n t').heap ↔ a ∈ s.heap := by
  simp only [State.setTag, Finmap.mem_insert, or_iff_right_iff_imp]
  rintro rfl
  exact Finmap.mem_of_lookup_eq_some h

theorem lookup_setTag_ne (h : a ≠ n) : (s.setTag n t').heap.lookup a = s.heap.lookup a :=
  Finmap.lookup_insert_of_ne _ h

theorem parentOf_setTag (h : s.heap.lookup n = some t) (hp : t'.parent = t.parent) (a : Addr) :
    (s.setTag n t').parentOf a = s.parentOf a := by
  by_cases ha : a = n
  · subst ha
    rw [parentOf_of_lookup h, ← hp]
    exact parentOf_of_lookup (Finmap.lookup_insert _)
  · simp only [State.parentOf, lookup_setTag_ne ha]

theorem children_setTag (h : s.heap.lookup n = some t) (hp : t'.parent = t.parent) (a : Addr) :
    (s.setTag n t').children a = s.children a := by
  ext b
  simp only [mem_children, parentOf_setTag h hp]

theorem parentOf_addTag_self : (s.addTag n t).parentOf n = t.parent :=
  parentOf_of_lookup (Finmap.lookup_insert _)

theorem parentOf_addTag_ne (h : a ≠ n) : (s.addTag n t).parentOf a = s.parentOf a := by
  simp only [State.parentOf, State.addTag, Finmap.lookup_insert_of_ne _ h]

theorem mem_addTag : a ∈ (s.addTag n t).heap ↔ a = n ∨ a ∈ s.heap := by
  simp [State.addTag]

theorem children_addTag (hn : n ∉ s.heap) (a : Addr) :
    (s.addTag n t).children a = if t.parent = some a then insert n (s.children a) else s.children a := by
  grind [mem_of_parentOf, mem_children, parentOf_addTag_self, parentOf_addTag_ne]

theorem parentOf_erase {s' : State} (hs : s'.heap = s.heap.erase d) (a : Addr) :
    s'.parentOf a = if a = d then none else s.parentOf a := by
  split
  · rename_i ha
    subst ha
    simp [State.parentOf, hs]
  · rename_i ha
    simp only [State.parentOf, hs, Finmap.lookup_erase_ne ha]

theorem children_erase {s' : State} (hs : s'.heap = s.heap.erase d) (a : Addr) :
    s'.children a = (s.children a).erase d := by
  ext b
  simp only [Finset.mem_erase, mem_children, parentOf_erase hs]
  by_cases hb : b = d <;> simp [hb]

end Links

/-! ## One update at a time -/

section Steps

variable {s : State} {n d : Addr} {t t' : Tag} {o o' : Option Addr}

/-- Replacing a tag by one with the same parent keeps the invariant when the new count is exact
    for the new owed reference. -/
theorem TagInv.setTag (I : TagInv o s) (ht : s.heap.lookup n = some t) (hp : t'.parent = t.parent)
    (hc : t'.refCount = (s.creatorRef n + (s.children n).card + if o' = some n then 1 else 0 : Nat))
    (hpos : 0 < t'.refCount) (hother : ∀ a ≠ n, (o = some a ↔ o' = some a))
    (ho : ∀ a ∈ o', a ∈ s.heap) : TagInv o' (s.setTag n t') where
  count a u hu := by
    rw [children_setTag ht hp]
    by_cases ha : a = n
    · subst ha
      have : u = t' := by simpa [State.setTag] using hu.symm
      exact this ▸ hc
    · rw [lookup_setTag_ne ha] at hu
      have h := I.count a u hu
      simp only [hother a ha] at h
      exact h
  parent a p h := by
    rw [parentOf_setTag ht hp] at h
    exact (mem_setTag ht).mpr (I.parent a p h)
  older a p h := I.older a p (by rwa [parentOf_setTag ht hp] at h)
  young a h := I.young a ((mem_setTag ht).mp h)
  used a u hu := by
    by_cases ha : a = n
    · subst ha
      have : u = t' := by simpa [State.setTag] using hu.symm
      exact this ▸ hpos
    · exact I.used a u (by rwa [lookup_setTag_ne ha] at hu)
  held a h := (mem_setTag ht).mpr (I.held a h)
  owed a h := (mem_setTag ht).mpr (ho a h)
  freed a := by
    simp only [mem_setTag ht]
    exact I.freed a
  fault := I.fault

/-- The reference of a new tag is the one owed to its creator. -/
theorem TagInv.addTag (I : TagInv o s) (hn : n ∉ s.heap) (hp : t.parent = o) (hc : t.refCount = 1) :
    TagInv (some n) (s.addTag n t) where
  count a u hu := by
    have hcr : (s.addTag n t).creatorRef a = s.creatorRef a := rfl
    by_cases ha : a = n
    · subst ha
      have hut : u = t := by simpa [State.addTag] using hu.symm
      have hch : (s.addTag a t).children a = ∅ := by
        rw [children_addTag hn, if_neg (fun h => hn (I.owed a (hp.symm.trans h)))]
        exact Finset.eq_empty_of_forall_notMem fun b hb => hn (I.parent b a (mem_children.mp hb))
      have hheld : a ∉ s.held := fun h => hn (I.held a h)
      rw [hut, hc, hch, hcr]
      simp [State.creatorRef, hheld]
    · have hu' : s.heap.lookup a = some u := by
        rwa [State.addTag, Finmap.lookup_insert_of_ne _ ha] at hu
      rw [I.count a u hu', hcr, children_addTag hn, hp, if_neg fun h => ha (Option.some.inj h).symm]
      split
      · rw [Finset.card_insert_of_notMem (fun h => hn (mem_of_parentOf (mem_children.mp h)))]
        simp [Nat.add_assoc]
      · simp
  parent a p h := by
    rw [mem_addTag]
    by_cases ha : a = n
    · subst ha
      rw [parentOf_addTag_self, hp] at h
      exact Or.inr (I.owed p h)
    · rw [parentOf_addTag_ne ha] at h
      exact Or.inr (I.parent a p h)
  older a p h := by
    have hpn : p ∈ s.heap → p ≠ n := fun hm he => hn (he ▸ hm)
    by_cases ha : a = n
    · subst ha
      rw [parentOf_addTag_self, hp] at h
      simpa [State.addTag, hpn (I.owed p h)] using I.young p (I.owed p h)
    · rw [parentOf_addTag_ne ha] at h
      simpa [State.addTag, ha, hpn (I.parent a p h)] using I.older a p h
  young a h := by
    simp only [State.addTag]
    split
    · omega
    · have := I.young a ((mem_addTag.mp h).resolve_left ‹_›)
      omega
  used a u hu := by
    by_cases ha : a = n
    · subst ha
      have hut : u = t := by simpa [State.addTag] using hu.symm
      rw [hut, hc]
      decide
    · exact I.used a u (by rwa [State.addTag, Finmap.lookup_insert_of_ne _ ha] at hu)
  held a h := mem_addTag.mpr (Or.inr (I.held a h))
  owed a h := mem_addTag.mpr (Or.inl (Option.some.inj h).symm)
  freed a := by
    have h := I.freed a
    by_cases ha : a = n
    · subst ha
      rw [if_neg hn] at h
      rw [if_pos (mem_addTag.mpr (Or.inl rfl))]
      simp only [State.addTag, List.count_cons_self]
      omega
    · simp only [mem_addTag, ha, false_or]
      simpa [State.addTag, Ne.symm ha] using h
  fault := I.fault

/-- References move between the creators and the owed one as long as every tag keeps its number. -/
theorem TagInv.transfer (I : TagInv o s) {held : Finset Addr}
    (hsum : ∀ a, (if a ∈ held then 1 else 0) + (if o' = some a then 1 else 0) =
      s.creatorRef a + if o = some a then 1 else 0)
    (hheld : ∀ a ∈ held, a ∈ s.heap) (ho : ∀ a ∈ o', a ∈ s.heap) : TagInv o' { s with held := held } where
  count a u hu := by
    have hc := I.count a u hu
    have hs := hsum a
    rw [hc]
    change ((s.creatorRef a + (s.children a).card + _ : Nat) : Int) =
      ((if a ∈ held then 1 else 0) + (s.children a).card + _ : Nat)
    omega
  parent := I.parent
  older := I.older
  young := I.young
  used := I.used
  held := hheld
  owed := ho
  freed := I.freed
  fault := I.fault

/-- The creator takes the reference that is owed to it. -/
theorem TagInv.own (I : TagInv (some n) s) (hn : n ∉ s.held) :
    TagInv none { s with held := insert n s.held } := by
  refine I.transfer (fun a => ?_) (fun a ha => ?_) (by simp)
  · by_cases ha : a = n
    · subst ha
      simp [State.creatorRef, hn]
    · simp [State.creatorRef, ha, Ne.symm ha]
  · exact (Finset.mem_insert.mp ha).elim (fun he => he ▸ I.owed n rfl) (I.held a)

/-- A creator that destroys its tag leaves its reference to be dropped. -/
theorem TagInv.disown (I : TagInv none s) (hd : d ∈ s.held) :
    TagInv (some d) { s with held := s.held.erase d } := by
  refine I.transfer (fun a => ?_) (fun a ha => I.held a (Finset.mem_of_mem_erase ha)) (fun a ha => ?_)
  · by_cases ha : a = d
    · subst ha
      simp [State.creatorRef, hd]
    · simp [State.creatorRef, ha, Ne.symm ha]
  · cases ha
    exact I.held d hd

/-- Freeing a tag whose last reference is the owed one turns its reference on the parent into
    the owed one. -/
theorem TagInv.erase (I : TagInv (some d) s) (ht : s.heap.lookup d = some t) (hc : t.refCount = 1) :
    TagInv t.parent { s with heap := s.heap.erase d, frees := d :: s.frees } := by
  have h := I.count d t ht
  rw [hc, if_pos rfl] at h
  have hheld : d ∉ s.held := fun hd => by
    simp only [State.creatorRef, if_pos hd] at h
    omega
  have hch : s.children d = ∅ := Finset.card_eq_zero.mp (by omega)
  have hmem : ∀ {a}, a ∈ s.heap.erase d ↔ a ≠ d ∧ a ∈ s.heap := Finmap.mem_erase
  -- nobody points to the freed tag, so every remaining parent still exists
  have hpar : ∀ a p, s.parentOf a = some p → p ≠ d ∧ p ∈ s.heap := fun a p hp =>
    ⟨fun he => by
      subst he
      have hm := mem_children.mpr hp
      rw [hch] at hm
      exact absurd hm (Finset.notMem_empty a), I.parent a p hp⟩
  refine ⟨?_, ?_, ?_, ?_, ?_, ?_, ?_, ?_, I.fault⟩
  · intro a u hu
    have ha : a ≠ d := fun he => by
      subst he
      simp at hu
    rw [Finmap.lookup_erase_ne ha] at hu
    have hcnt := I.count a u hu
    rw [if_neg (fun he => ha (Option.some.inj he).symm)] at hcnt
    rw [children_erase rfl, hcnt]
    change ((s.creatorRef a + _ + 0 : Nat) : Int) = (s.creatorRef a + _ + _ : Nat)
    by_cases hd : d ∈ s.children a
    · rw [if_pos ((parentOf_of_lookup ht).symm.trans (mem_children.mp hd)), Finset.card_erase_of_mem hd]
      have := Finset.card_pos.mpr ⟨d, hd⟩
      omega
    · rw [if_neg (fun he => hd (mem_children.mpr ((parentOf_of_lookup ht).trans he))),
        Finset.erase_eq_of_notMem hd]
  · intro a p hp
    rw [parentOf_erase rfl] at hp
    split at hp
    · cases hp
    · exact hmem.mpr (hpar a p hp)
  · intro a p hp
    rw [parentOf_erase rfl] at hp
    split at hp
    · cases hp
    · exact I.older a p hp
  · exact fun a ha => I.young a (hmem.mp ha).2
  · intro a u hu
    have ha : a ≠ d := fun he => by
      subst he
      simp at hu
    exact I.used a u (by rwa [Finmap.lookup_erase_ne ha] at hu)
  · exact fun a ha => hmem.mpr ⟨fun he => hheld (he ▸ ha), I.held a ha⟩
  · intro a ha
    exact hmem.mpr (hpar d a ((parentOf_of_lookup ht).trans ha))
  · intro a
    have hf := I.freed a
    by_cases ha : a = d
    · subst ha
      rw [if_pos (Finmap.mem_of_lookup_eq_some ht)] at hf
      rw [if_neg (fun hm => (hmem.mp hm).1 rfl)]
      simp only [List.count_cons_self]
      omega
    · simp only [hmem, ne_eq, ha, not_false_eq_true, true_and]
      simpa [Ne.symm ha] using hf

/-- **The destroy loop**: with more rounds than tags it drops the owed reference, frees exactly
    the tags whose count reaches zero and leaves the invariant. -/
theorem dropRefs_spec : ∀ (k : Nat) (s : State) (o : Option Addr), s.heap.keys.card < k → TagInv o s →
    TagInv none (dropRefs k s o)
  | _, s, none, _, I => by
    unfold dropRefs
    exact I
  | 0, _, some _, hk, _ => absurd hk (Nat.not_lt_zero _)
  | k + 1, s, some d, hk, I => by
    have hd : d ∈ s.heap := I.owed d rfl
    obtain ⟨t, ht⟩ := Finmap.mem_iff.mp hd
    simp only [dropRefs, ht]
    split
    · refine dropRefs_spec k _ _ ?_ (I.erase ht (by omega))
      have hcard : (s.heap.erase d).keys.card < s.heap.keys.card := by
        rw [Finmap.keys_erase]
        exact Finset.card_erase_lt_of_mem (Finmap.mem_keys.mpr hd)
      exact Nat.lt_of_lt_of_le hcard (Nat.le_of_lt_succ hk)
    · have hcnt := I.count d t ht
      rw [if_pos rfl] at hcnt
      refine I.setTag ht rfl (by simp; omega) (by simp; omega) ?_ (by simp)
      intro a ha
      simp [Ne.symm ha]

/-- The loop reads and writes nothing of what the creators hold. -/
theorem dropRefs_held (h : Finset Addr) : ∀ (k : Nat) (s : State) (o : Option Addr),
    dropRefs k { s with held := h } o = { dropRefs k s o with held := h }
  | k, s, none => by
    unfold dropRefs
    rfl
  | 0, s, some _ => rfl
  | k + 1, s, some d => by
    simp only [dropRefs]
    split
    · rfl
    · split
      · exact dropRefs_held h k { s with heap := s.heap.erase d, frees := d :: s.frees } _
      · rfl

/-- The count of the stored parent is the one incremented: the new tag has a filter of its own,
    or the tag it skips over has no parent. -/
def LinkCounted (s : State) : Act → Prop
  | .tagCreate (some p) args _ => args.filter ≠ none ∨ s.parentOf p = none
  | _ => True

instance (s : State) : ∀ a : Act, Decidable (LinkCounted s a)
  | .tagCreate (some _) _ _ => inferInstanceAs (Decidable (_ ∨ _))
  | .tagCreate none _ _ | .tagDestroy _ | .mapCreate _ _ | .mapDestroy _ => inferInstanceAs (Decidable True)

theorem restrict_refCount (t p : Tag) : (t.restrict p).refCount = t.refCount := by
  unfold Tag.restrict
  dsimp only
  split <;> rfl

theorem restrict_parent (t p : Tag) :
    (t.restrict p).parent = if t.filter = none then p.parent else t.parent := by
  unfold Tag.restrict
  dsimp only
  split <;> rfl

theorem busDmaTagCreate_spec (I : TagInv none s) {parent : Option Addr} {args : TagArgs}
    {mem : Option Addr} (hpar : ∀ p ∈ parent, p ∈ s.heap) (hmem : ∀ n ∈ mem, n ∉ s.heap)
    (hok : LinkCounted s (.tagCreate parent args mem)) :
    TagInv none (effect s (.tagCreate parent args mem)) := by
  unfold effect busDmaTagCreate
  cases mem with
  | none => exact I
  | some n =>
    have hn := hmem n rfl
    have hheld : n ∉ s.held := fun h => hn (I.held n h)
    cases parent with
    | none => exact (I.addTag hn rfl rfl).own hheld
    | some p =>
      obtain ⟨pt, hpt⟩ := Finmap.mem_iff.mp (hpar p rfl)
      simp only [hpt]
      have hcount : ((newTag (some p) args).restrict pt).refCount = 1 := restrict_refCount _ _
      have hlink := restrict_parent (newTag (some p) args) pt
      split
      · rename_i hnone
        exact (I.addTag hn hnone hcount).own hheld
      · rename_i hsome
        -- the link is not skipped: skipping would need a parent without a parent
        have hown : ((newTag (some p) args).restrict pt).parent = some p := by
          rw [hlink] at hsome ⊢
          split at hsome
          · rename_i hf
            rcases hok with hok | hok
            · exact absurd hf hok
            · exact absurd ((parentOf_of_lookup hpt).symm.trans hok) hsome
          · rename_i hf
            rw [if_neg hf]
            rfl
        have hc := I.count p pt hpt
        have I' : TagInv (some p) (s.setTag p { pt with refCount := pt.refCount + 1 }) := by
          refine I.setTag hpt rfl (by simp [hc]) (by simp; omega) ?_ (by simpa using hpar p rfl)
          intro a ha
          simp [Ne.symm ha]
        exact (I'.addTag (fun h => hn ((mem_setTag hpt).mp h)) hown hcount).own hheld

theorem busDmaTagDestroy_spec (I : TagInv none s) (hd : d ∈ s.held) :
    TagInv none (effect s (.tagDestroy d)) := by
  obtain ⟨t, ht⟩ := Finmap.mem_iff.mp (I.held d hd)
  simp only [effect, busDmaTagDestroy, ht]
  split
  · rename_i heq
    split at heq
    · cases heq
    · cases heq
      have hkept : (dropRefs (s.heap.keys.card + 1) s (some d)).held = s.held :=
        (congrArg State.held (dropRefs_held s.held (s.heap.keys.card + 1) s (some d))).trans rfl
      rw [hkept, ← dropRefs_held]
      exact dropRefs_spec _ _ _ (Nat.lt_succ_self _) (I.disown hd)
  · rename_i heq
    split at heq
    · cases heq
      exact I
    · cases heq

theorem TagInv.mapCount (I : TagInv none s) (ht : s.heap.lookup d = some t) (m : Int) :
    TagInv none (s.setTag d { t with mapCount := m }) :=
  I.setTag ht rfl (I.count d t ht) (I.used d t ht) (fun _ _ => Iff.rfl) (by simp)

theorem step_tagInv (s : State) (a : Act) (s' : State) (I : TagInv none s) (hok : LinkCounted s a)
    (h : step s a = some s') : TagInv none s' := by
  unfold step at h
  split at h
  · rename_i hposs
    cases h
    cases a with
    | tagCreate parent args mem => exact busDmaTagCreate_spec I hposs.1 hposs.2 hok
    | tagDestroy d => exact busDmaTagDestroy_spec I hposs
    | mapCreate d mem =>
      obtain ⟨t, ht⟩ := Finmap.mem_iff.mp (I.held d hposs)
      cases mem
      · exact I
      · simp only [effect, busDmamapCreate, ht, if_true]
        exact I.mapCount ht _
    | mapDestroy d =>
      obtain ⟨t, ht⟩ := Finmap.mem_iff.mp (I.held d hposs)
      simp only [effect, busDmamapDestroy, ht]
      exact I.mapCount ht _
  · cases h

/-- When every creator has destroyed its tag no tag is left: the youngest one could only be kept
    by a younger child. -/
theorem TagInv.heap_empty (I : TagInv none s) (hheld : s.held = ∅) : s.heap = ∅ := by
  have hkeys : s.heap.keys = ∅ := by
    by_contra hne
    obtain ⟨a, ha, hmax⟩ := s.heap.keys.exists_max_image s.born (Finset.nonempty_iff_ne_empty.mpr hne)
    obtain ⟨t, ht⟩ := Finmap.mem_iff.mp (Finmap.mem_keys.mp ha)
    have hc := I.count a t ht
    have hpos := I.used a t ht
    simp only [State.creatorRef, hheld, Finset.notMem_empty, if_false, reduceCtorEq] at hc
    obtain ⟨b, hb⟩ := Finset.card_pos.mp (show 0 < (s.children a).card by omega)
    have hlink := mem_children.mp hb
    have hyoung := I.older b a hlink
    have hle := hmax b (Finmap.mem_keys.mpr (mem_of_parentOf hlink))
    omega
  refine Finmap.ext_lookup fun a => ?_
  rw [Finmap.lookup_empty, Finmap.lookup_eq_none, ← Finmap.mem_keys, hkeys]
  exact Finset.notMem_empty a

end Steps

/-! ## Whole runs -/

/-- The contract of the reference counts in one state: every count is exact, no tag is freed
    while another existing tag points to it, every tag is freed exactly once, no freed tag is
    read, and nothing remains once every creator has destroyed its tag. -/
structure Contract (s : State) : Prop where
  exact : ∀ a t, s.heap.lookup a = some t → t.refCount = (s.creatorRef a + (s.children a).card : Nat)
  noDangling : ∀ a p, s.parentOf a = some p → p ∈ s.heap
  freedOnce : ∀ a, s.mallocs.count a = s.frees.count a + if a ∈ s.heap then 1 else 0
  noUseAfterFree : s.fault = none
  noLeak : s.held = ∅ → s.heap = ∅

/-- **Reference counting is exact in every run in which each created tag has a filter of its own
    or a parent without a parent.** -/
theorem contract_of_linkCounted (as : List Act) (s : State) (hrun : run step State.init as = some s)
    (hok : StepsMeet step LinkCounted State.init as) : Contract s := by
  have I := run_invariant_of_meet step_tagInv as State.init s TagInv.init hok hrun
  refine ⟨?_, I.parent, I.freed, I.fault, I.heap_empty⟩
  intro a t ht
  simpa using I.count a t ht

def argsOf (filter : Option Nat) : TagArgs := ⟨0, 0, 0, 0, filter, 0, 0, 0, 0, 0, none, 0⟩

/-- A parent, a child with a filter of its own, and the parent destroyed first. -/
def pairRun : List Act :=
  [.tagCreate none (argsOf none) (some 1), .tagCreate (some 1) (argsOf (some 7)) (some 2), .tagDestroy 1]

theorem contract_of_linkCounted_pairRun :
    ∃ s, run step State.init pairRun = some s ∧
      ((s.heap.lookup 1).map Tag.refCount = some 1 ∧ s.parentOf 2 = some 1 ∧ s.frees = []) ∧ Contract s :=
  ⟨_, rfl, by decide, contract_of_linkCounted pairRun _ rfl (by decide)⟩

/-- Tags 1, 2 (child of 1) and 3, which has no filter, names 2 as its parent and links to 1;
    then each creator destroys its tag. -/
def skipRun : List Act :=
  [.tagCreate none (argsOf none) (some 1), .tagCreate (some 1) (argsOf (some 7)) (some 2),
    .tagCreate (some 2) (argsOf none) (some 3), .tagDestroy 3, .tagDestroy 1, .tagDestroy 2]

/-- The skip counts the reference of tag 3 on tag 2: tag 1 has a reference too few and is freed
    while tag 2 points to it, and tag 2 is never freed. -/
theorem skipRun_breaks :
    (∃ s, run step State.init (skipRun.take 3) = some s ∧
      (s.heap.lookup 1).map Tag.refCount = some 2 ∧ s.creatorRef 1 + (s.children 1).card = 3) ∧
    ∃ s, run step State.init skipRun = some s ∧ s.held = ∅ ∧ s.parentOf 2 = some 1 ∧ 1 ∉ s.heap ∧
      2 ∈ s.heap :=
  ⟨⟨_, rfl, by decide⟩, _, rfl, by decide⟩

end RtemsLibbsd.BusDma
