import Mathlib.Algebra.Group.Nat.Defs
import Mathlib.Data.List.Perm.Basic
import RtemsLibbsd.SearchTree
import RtemsLibbsd.Transition

/-!
# Chunks of memory

Model of `rtems-kernel-chunk.c`.  The description of a chunk is in front of it, in the same block of the heap, and a
tree of the descriptions is searched with `chunk_compare`, which compares a begin address with a range.

* `Control` — the tree; `System` — with it the live chunks, by the addresses that the callers got and freed.
* `step` — an allocation, with the address that the heap returns, and a free of an address in a live chunk.

`lookup_of_run`: the tree has the live chunks, they are disjoint, and the search for an address yields its chunk.
-/

namespace RtemsLibbsd.Chunk

open List SearchTree Transition

/-- `rtems_bsd_chunk_info`, without what its constructor adds. -/
structure Info where
  beginAddr : Nat
  endAddr : Nat
deriving DecidableEq

def Info.Contains (c : Info) (addr : Nat) : Prop := c.beginAddr ≤ addr ∧ addr < c.endAddr

instance (c : Info) (addr : Nat) : Decidable (c.Contains addr) := inferInstanceAs (Decidable (_ ∧ _))

def chunkCompare (left right : Info) : Ordering :=
  if left.beginAddr < right.beginAddr then .lt
  else if left.beginAddr < right.endAddr then .eq
  else .gt

/-- `info_size` is rounded up by `rtems_bsd_chunk_init`. -/
structure Control where
  infoSize : Nat
  chunks : BinaryTree Info

/-- `x`, rounded up to a multiple of `y`. -/
def roundup (x y : Nat) : Nat := (x + (y - 1)) / y * y

def init (infoSize lineSize heapAlignment : Nat) : Control :=
  ⟨roundup infoSize (if lineSize < heapAlignment then heapAlignment else lineSize), .nil⟩

variable (prim : Primitives Info)

/-- `rtems_bsd_chunk_alloc`; `p` is what `rtems_cache_aligned_malloc` returns. -/
def alloc (self : Control) (chunkSize : Nat) : Option Nat → Option Nat × Control
  | none => (none, self)
  | some p =>
    let p := p + self.infoSize
    (some p, { self with chunks := prim.insert chunkCompare ⟨p, p + chunkSize⟩ self.chunks })

/-- `find_me` has a begin address only. -/
def getInfo (self : Control) (addr : Nat) : Option Info := prim.find (chunkCompare ⟨addr, 0⟩) self.chunks

/-- `rtems_bsd_chunk_free`.  A null pointer would be used if the search found nothing. -/
def free (self : Control) (addr : Nat) : Option Control :=
  (getInfo prim self addr).map fun info => { self with chunks := prim.extract info self.chunks }

/-- The chunks that the callers have: from the address that an allocation returned, until a free of an address in it. -/
structure System where
  control : Control
  live : List Info

inductive Action where
  | alloc (chunkSize : Nat) (p : Option Nat)
  | free (addr : Nat)
deriving DecidableEq

/-- A new block of the heap lies below the end of the address space and apart from those of the live chunks. -/
def HeapBlock (width : Nat) (s : System) (p size : Nat) : Prop :=
  p + size < 2 ^ width ∧ ∀ c ∈ s.live, p + size ≤ c.beginAddr - s.control.infoSize ∨ c.endAddr ≤ p

instance (width : Nat) (s : System) (p size : Nat) : Decidable (HeapBlock width s p size) :=
  inferInstanceAs (Decidable (_ ∧ _))

/-- The sizes are added in `uintptr_t`. -/
def step (width : Nat) (s : System) : Action → Option System
  | .alloc chunkSize p =>
    if 1 ≤ chunkSize ∧ chunkSize + s.control.infoSize < 2 ^ width ∧
        ∀ q ∈ p, HeapBlock width s q ((chunkSize + s.control.infoSize) % 2 ^ width) then
      let (r, self) := alloc prim s.control chunkSize p
      some ⟨self, (r.map fun addr => ⟨addr, addr + chunkSize⟩).toList ++ s.live⟩
    else none
  | .free addr =>
    if ∃ c ∈ s.live, c.Contains addr then
      (free prim s.control addr).map fun self => ⟨self, s.live.filter (¬·.Contains addr)⟩
    else none

/-! ## The order of disjoint ranges -/

def Before (c d : Info) : Prop := c.endAddr ≤ d.beginAddr

structure Inv (s : System) : Prop where
  ordered : (inorder s.control.chunks).Pairwise Before
  nonempty : ∀ c ∈ inorder s.control.chunks, c.beginAddr < c.endAddr
  perm : (inorder s.control.chunks).Perm s.live

variable {c d : Info}

theorem chunkCompare_lt : chunkCompare c d = .lt ↔ c.beginAddr < d.beginAddr := by
  unfold chunkCompare
  split
  · simp [*]
  · split <;> simp [*]

theorem chunkCompare_gt (hd : d.beginAddr < d.endAddr) :
    chunkCompare c d = .gt ↔ d.endAddr ≤ c.beginAddr := by
  unfold chunkCompare
  split
  · simp
    omega
  · split <;> simp <;> omega

theorem chunkCompare_eq : chunkCompare c d = .eq ↔ d.Contains c.beginAddr := by
  unfold chunkCompare Info.Contains
  split
  · simp
    omega
  · split <;> simp <;> omega

variable {prim : Primitives Info} {width : Nat} {s t : System}

theorem Inv.cuts (h : Inv s) (c : Info) : Cuts (chunkCompare c) (inorder s.control.chunks) := by
  refine List.Pairwise.imp_of_mem ?_ h.ordered
  intro x y hx hy hxy
  have hxe := h.nonempty x hx
  have hye := h.nonempty y hy
  rw [chunkCompare_lt, chunkCompare_lt, chunkCompare_gt hye, chunkCompare_gt hxe]
  unfold Before at hxy
  omega

variable {addr : Nat}

theorem Inv.getInfo_some (h : Inv s) {c : Info} (hc : getInfo prim s.control addr = some c) :
    c ∈ s.live ∧ c.Contains addr :=
  have hfind := prim.find_some hc
  ⟨h.perm.mem_iff.mp hfind.1, chunkCompare_eq.mp hfind.2⟩

theorem Inv.getInfo_none (h : Inv s) (hc : getInfo prim s.control addr = none) : ∀ c ∈ s.live, ¬c.Contains addr :=
  fun c hm hin => prim.find_none (h.cuts _) hc c (h.perm.mem_iff.mpr hm) (chunkCompare_eq.mpr hin)

theorem Inv.unique (h : Inv s) (hc : c ∈ s.live) (hd : d ∈ s.live)
    (hca : c.Contains addr) (hda : d.Contains addr) : c = d := by
  have hapart : ∀ {x y : Info}, Before x y → ¬(x.Contains addr ∧ y.Contains addr) := by
    intro x y hxy
    unfold Before at hxy
    unfold Info.Contains
    omega
  refine List.Pairwise.forall_of_forall_of_flip (R := fun x y => x.Contains addr → y.Contains addr → x = y)
    (fun _ _ _ _ => rfl) (h.ordered.imp ?_) (h.ordered.imp ?_) (h.perm.mem_iff.mpr hc) (h.perm.mem_iff.mpr hd) hca hda
  · exact fun hxy hx hy => absurd ⟨hx, hy⟩ (hapart hxy)
  · exact fun hxy hy hx => absurd ⟨hx, hy⟩ (hapart hxy)

theorem Inv.alloc (h : Inv s) {chunkSize p : Nat} (hsize : 1 ≤ chunkSize)
    (hheap : ∀ c ∈ s.live, p + (chunkSize + s.control.infoSize) ≤ c.beginAddr - s.control.infoSize ∨ c.endAddr ≤ p) :
    Inv ⟨(alloc prim s.control chunkSize (some p)).2,
      ⟨p + s.control.infoSize, p + s.control.infoSize + chunkSize⟩ :: s.live⟩ := by
  generalize hinfo : (⟨p + s.control.infoSize, p + s.control.infoSize + chunkSize⟩ : Info) = info
  have hapart : ∀ y ∈ inorder s.control.chunks, info.endAddr ≤ y.beginAddr ∨ y.endAddr ≤ info.beginAddr := by
    intro y hy
    have hy' := hheap y (h.perm.mem_iff.mp hy)
    rw [← hinfo]
    dsimp only
    omega
  have hlen : info.beginAddr < info.endAddr := by
    rw [← hinfo]
    dsimp only
    omega
  have hne : ∀ y ∈ inorder s.control.chunks, chunkCompare info y ≠ .eq := by
    intro y hy he
    have hin := chunkCompare_eq.mp he
    have := hapart y hy
    unfold Info.Contains at hin
    omega
  obtain ⟨l, r, hlr, hins, hl, hr⟩ := prim.inorder_insert chunkCompare info s.control.chunks (h.cuts info) hne
  have hord := h.ordered
  rw [hlr, pairwise_append] at hord
  have hchunks : (Chunk.alloc prim s.control chunkSize (some p)).2.chunks =
      prim.insert chunkCompare info s.control.chunks := by
    rw [← hinfo]
    rfl
  refine ⟨?_, ?_, ?_⟩
  · rw [hchunks, hins, pairwise_append, pairwise_cons]
    refine ⟨hord.1, ⟨?_, hord.2.1⟩, ?_⟩
    · intro y hy
      have hlt := chunkCompare_lt.mp (hr y hy)
      have := hapart y (by simp [hlr, hy])
      have := h.nonempty y (by simp [hlr, hy])
      unfold Before
      omega
    · intro x hx y hy
      have hgt := (chunkCompare_gt (h.nonempty x (by simp [hlr, hx]))).mp (hl x hx)
      rcases mem_cons.mp hy with rfl | hy
      · exact hgt
      · exact hord.2.2 x hx y hy
  · intro c hc
    rw [hchunks, hins] at hc
    rcases mem_append.mp hc with hc | hc
    · exact h.nonempty c (by simp [hlr, hc])
    · rcases mem_cons.mp hc with rfl | hc
      · exact hlen
      · exact h.nonempty c (by simp [hlr, hc])
  · rw [hchunks, hins]
    exact perm_middle.trans ((hlr ▸ h.perm).cons info)

theorem Inv.free (h : Inv s) {self : Control} (hf : free prim s.control addr = some self) :
    Inv ⟨self, s.live.filter (¬·.Contains addr)⟩ := by
  obtain ⟨c, hc, rfl⟩ := Option.map_eq_some_iff.mp hf
  have hm := h.getInfo_some hc
  have hmem := h.perm.mem_iff.mpr hm.1
  have hnodup : s.live.Nodup := by
    refine h.perm.nodup_iff.mp (h.ordered.imp_of_mem fun {x y} hx _ hxy hxe => ?_)
    have := h.nonempty x hx
    rw [← hxe] at hxy
    unfold Before at hxy
    omega
  have hlive : s.live.filter (fun d => decide ¬d.Contains addr) = s.live.erase c := by
    rw [hnodup.erase_eq_filter]
    refine filter_congr fun d hd => ?_
    by_cases hdc : d = c
    · simp [hdc, hm.2]
    · have : ¬d.Contains addr := fun hda => hdc (h.unique hd hm.1 hda hm.2)
      simp [hdc, this]
  have hsub : List.Sublist ((inorder s.control.chunks).erase c) (inorder s.control.chunks) := erase_sublist
  refine ⟨?_, ?_, ?_⟩
  · exact (prim.inorder_extract c s.control.chunks hmem).symm ▸ h.ordered.sublist hsub
  · exact (prim.inorder_extract c s.control.chunks hmem).symm ▸ fun d hd => h.nonempty d (hsub.subset hd)
  · exact (prim.inorder_extract c s.control.chunks hmem).symm ▸ hlive.symm ▸ h.perm.erase c

theorem Inv.step (h : Inv s) (a : Action) (hs : step prim width s a = some t) : Inv t := by
  cases a with
  | alloc chunkSize p =>
    obtain ⟨⟨hsize, hwrap, hheap⟩, ht⟩ := Option.ite_none_right_eq_some.mp hs
    cases ht
    cases p with
    | none => exact h
    | some p =>
      have hp := (hheap p rfl).2
      rw [Nat.mod_eq_of_lt hwrap] at hp
      exact h.alloc hsize hp
  | free addr =>
    obtain ⟨self, hself, rfl⟩ := Option.map_eq_some_iff.mp (Option.ite_none_right_eq_some.mp hs).2
    exact h.free hself

/-- **What the bookkeeping knows**, behind any sequence of allocations and frees. -/
theorem lookup_of_run {infoSize lineSize heapAlignment : Nat} {as : List Action}
    (h : run (step prim width) ⟨init infoSize lineSize heapAlignment, []⟩ as = some s) :
    (s.live.Pairwise fun c d => ∀ addr, ¬(c.Contains addr ∧ d.Contains addr)) ∧
      (inorder s.control.chunks).Perm s.live ∧
      (∀ c ∈ s.live, ∀ addr, c.Contains addr → getInfo prim s.control addr = some c) ∧
      ∀ addr, (∀ c ∈ s.live, ¬c.Contains addr) → getInfo prim s.control addr = none := by
  have hinv : Inv s := by
    refine run_invariant (fun s a t hs ht => hs.step a ht) as _ s ⟨?_, ?_, ?_⟩ h
    · exact .nil
    · exact fun c hc => absurd hc not_mem_nil
    · exact .nil
  refine ⟨?_, hinv.perm, ?_, ?_⟩
  · refine hinv.perm.pairwise_iff (fun {c d} hcd addr hx => hcd addr hx.symm) |>.mp (hinv.ordered.imp ?_)
    intro c d hcd addr hx
    unfold Before at hcd
    unfold Info.Contains at hx
    omega
  · intro c hc addr hin
    cases hg : getInfo prim s.control addr with
    | none => exact absurd hin (hinv.getInfo_none hg c hc)
    | some d =>
      have hd := hinv.getInfo_some hg
      rw [hinv.unique hd.1 hc hd.2 hin]
  · intro addr hout
    cases hg : getInfo prim s.control addr with
    | none => rfl
    | some d => exact absurd (hinv.getInfo_some hg).2 (hout d (hinv.getInfo_some hg).1)

/-- Adjacent blocks, the first of which is freed and its place used again. -/
def blocksRun : List Action := [.alloc 16 (some 256), .alloc 8 (some 288), .free 287, .alloc 4 (some 240)]

theorem lookup_of_run_blocks : ∃ s,
    run (step (leafPrimitives Info) 32) ⟨init 12 16 8, []⟩ blocksRun = some s ∧ s.live = [⟨256, 260⟩, ⟨304, 312⟩] ∧
      getInfo (leafPrimitives Info) s.control 304 = some ⟨304, 312⟩ ∧
      getInfo (leafPrimitives Info) s.control 260 = none := by
  have h := @lookup_of_run (leafPrimitives Info) 32 _ 12 16 8 blocksRun rfl
  exact ⟨_, rfl, rfl, h.2.2.1 ⟨304, 312⟩ (by decide) 304 (by decide), h.2.2.2 260 (by decide)⟩

end RtemsLibbsd.Chunk
