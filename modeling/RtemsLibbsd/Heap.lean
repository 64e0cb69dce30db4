import Mathlib.Data.List.Basic

/-!
# Objects that are allocated and released

A heap of objects of any type, known by their addresses.  Using or releasing an object that is not
allocated is a misuse, which is remembered: a run without a misuse has released nothing twice and
used nothing after its release, and a heap with the same objects as before has lost nothing.

* `alloc`, `free`, `set` — the operations.
* `Fresh` — addresses are not reused.
* `count` — the number of objects with a property, and how changes of the heap change it.
* `Grown` — a heap that has got objects in addition, and how the operations change which ones.
-/

namespace RtemsLibbsd

open List

universe u

/-- Allocated objects, the next address, and whether an object was misused. -/
structure Heap (ω : Type u) where
  obj : Nat → Option ω
  next : Nat
  misuse : Bool

namespace Heap

variable {ω : Type u}

def empty : Heap ω := ⟨fun _ => none, 0, false⟩

def alloc (h : Heap ω) (o : ω) : Heap ω :=
  { h with obj := fun j => if j = h.next then some o else h.obj j, next := h.next + 1 }

def free (h : Heap ω) (i : Nat) : Heap ω :=
  match h.obj i with
  | none => { h with misuse := true }
  | some _ => { h with obj := fun j => if j = i then none else h.obj j }

def set (h : Heap ω) (i : Nat) (o : ω) : Heap ω :=
  match h.obj i with
  | none => { h with misuse := true }
  | some _ => { h with obj := fun j => if j = i then some o else h.obj j }

/-- Addresses from `next` on are not in use. -/
def Fresh (h : Heap ω) : Prop := ∀ i, h.next ≤ i → h.obj i = none

def count (h : Heap ω) (p : ω → Bool) : Nat := (List.range h.next).countP fun i => (h.obj i).any p

variable {h : Heap ω} {i j : Nat} {o : ω}

theorem fresh_empty : (empty : Heap ω).Fresh := fun _ _ => rfl

theorem Fresh.lt (hf : h.Fresh) (hi : h.obj i = some o) : i < h.next := by
  by_contra hlt
  rw [hf i (by omega)] at hi
  cases hi

theorem ne_of_obj {o' : ω} (hi : h.obj i = some o) (hj : h.obj j = some o') (hne : o ≠ o') : i ≠ j := by
  rintro rfl
  rw [hi] at hj
  exact hne (Option.some.inj hj)

theorem alloc_self (o : ω) : (h.alloc o).obj h.next = some o := by simp [alloc]

theorem alloc_ne (o : ω) (hj : j ≠ h.next) : (h.alloc o).obj j = h.obj j := by simp [alloc, hj]

/-- Two properties of numbers below `n` that agree but for `i` are counted the same but for `i`. -/
theorem countP_range_update {n : Nat} {p q : Nat → Bool} (hi : i < n) (hpq : ∀ j ≠ i, p j = q j) :
    (List.range n).countP p + (q i).toNat = (List.range n).countP q + (p i).toNat := by
  induction n with
  | zero => exact absurd hi (Nat.not_lt_zero i)
  | succ n ih =>
    simp only [range_succ, countP_append, countP_singleton]
    by_cases hin : i = n
    · subst hin
      have hsame : (List.range i).countP p = (List.range i).countP q := by
        apply countP_congr
        intro j hj
        rw [hpq j (Nat.ne_of_lt (mem_range.mp hj))]
      rw [hsame]
      cases p i <;> cases q i <;> simp
    · rw [hpq n (fun h => hin h.symm)]
      omega

theorem count_congr {h' : Heap ω} (hf : h.Fresh) (hobj : h'.obj = h.obj) (hle : h.next ≤ h'.next)
    (p : ω → Bool) : h'.count p = h.count p := by
  unfold count
  rw [hobj]
  obtain ⟨k, hk⟩ := Nat.exists_eq_add_of_le hle
  rw [hk]
  clear hle hk hobj
  induction k with
  | zero => rfl
  | succ k ih =>
    rw [← Nat.add_assoc, range_succ, countP_append, countP_singleton, ih,
      hf _ (Nat.le_add_right _ _)]
    rfl

theorem count_change {h' : Heap ω} {p : ω → Bool} (hf : h.Fresh) (hle : h.next ≤ h'.next)
    (hi : i < h'.next) (hother : ∀ j ≠ i, (h'.obj j).any p = (h.obj j).any p) :
    h'.count p + ((h.obj i).any p).toNat = h.count p + ((h'.obj i).any p).toNat := by
  have hwide : ({ h with next := h'.next } : Heap ω).count p = h.count p :=
    @count_congr _ h { h with next := h'.next } hf rfl hle p
  grind [countP_range_update, count]

theorem count_same {h' : Heap ω} {p : ω → Bool} (hf : h.Fresh) (hle : h.next ≤ h'.next)
    (hall : ∀ j, (h'.obj j).any p = (h.obj j).any p) : h'.count p = h.count p := by
  have hwide : ({ h with next := h'.next } : Heap ω).count p = h.count p :=
    @count_congr _ h { h with next := h'.next } hf rfl hle p
  rw [← hwide]
  unfold count
  simp only [hall]

theorem count_le_one {p : ω → Bool} (hf : h.Fresh) (hone : h.count p ≤ 1)
    (hi : (h.obj i).any p = true) (hj : (h.obj j).any p = true) : i = j := by
  have hlt : ∀ k, (h.obj k).any p = true → k < h.next := by
    intro k hk
    obtain ⟨o, ho, -⟩ := (Option.any_eq_true p _).mp hk
    exact hf.lt ho
  by_contra hne
  obtain ⟨h', hh'⟩ : ∃ h' : Heap ω, h' = ⟨fun k => if k = i then none else h.obj k, h.next, h.misuse⟩ :=
    ⟨_, rfl⟩
  have hobj : ∀ k, h'.obj k = if k = i then none else h.obj k := by
    intro k
    rw [hh']
  have hnext : h'.next = h.next := by rw [hh']
  have hchange := @count_change _ h i h' p hf (Nat.le_of_eq hnext.symm) (hnext ▸ hlt i hi) (by
    intro k hk
    rw [hobj, if_neg hk])
  rw [hobj, if_pos rfl, hi] at hchange
  have hzero : h'.count p = 0 := by
    simp at hchange
    omega
  have hnone := countP_eq_zero.mp hzero j (mem_range.mpr (hnext ▸ hlt j hj))
  rw [hobj, if_neg (fun h => hne h.symm)] at hnone
  exact hnone hj

/-- A heap with the same objects as an earlier one and those at `new` in addition, without a misuse. -/
structure Grown (h h' : Heap ω) (new : List Nat) : Prop where
  before : h.Fresh
  fresh : h'.Fresh
  next_le : h.next ≤ h'.next
  misuse : h'.misuse = h.misuse
  nodup : new.Nodup
  above : ∀ i ∈ new, h.next ≤ i
  live : ∀ i ∈ new, ∃ o, h'.obj i = some o
  others : ∀ i ∉ new, h'.obj i = h.obj i

section

variable {h' h'' : Heap ω} {new more : List Nat}

theorem alloc_fresh (hf : h.Fresh) (o : ω) : (h.alloc o).Fresh := by
  intro i hi
  have hlt : h.next + 1 ≤ i := hi
  rw [alloc_ne o (by omega)]
  exact hf i (by omega)

theorem Grown.refl (hf : h.Fresh) : Grown h h [] where
  before := hf
  fresh := hf
  next_le := Nat.le_refl _
  misuse := rfl
  nodup := nodup_nil
  above := fun _ hi => absurd hi not_mem_nil
  live := fun _ hi => absurd hi not_mem_nil
  others := fun _ _ => rfl

theorem Grown.lt (hg : Grown h h' new) (hi : i ∈ new) : i < h'.next := by
  obtain ⟨o, ho⟩ := hg.live i hi
  exact hg.fresh.lt ho

theorem Grown.keeps (hg : Grown h h' new) (hi : h.obj i = some o) : h'.obj i = some o := by
  have hnot : i ∉ new := by
    intro hmem
    have hlt := hg.before.lt hi
    have hle := hg.above i hmem
    omega
  rw [hg.others i hnot, hi]

theorem Grown.alloc (hg : Grown h h' new) (o : ω) : Grown h (h'.alloc o) (h'.next :: new) where
  before := hg.before
  fresh := alloc_fresh hg.fresh o
  next_le := Nat.le_succ_of_le hg.next_le
  misuse := hg.misuse
  nodup := nodup_cons.mpr ⟨fun hmem => Nat.lt_irrefl _ (hg.lt hmem), hg.nodup⟩
  above := by
    intro i hi
    rcases mem_cons.mp hi with rfl | hi
    · exact hg.next_le
    · exact hg.above i hi
  live := by
    intro i hi
    rcases mem_cons.mp hi with rfl | hi
    · exact ⟨o, alloc_self o⟩
    · rw [alloc_ne o (Nat.ne_of_lt (hg.lt hi))]
      exact hg.live i hi
  others := by
    intro i hi
    rw [mem_cons, not_or] at hi
    rw [alloc_ne o hi.1, hg.others i hi.2]

theorem set_obj {o' : ω} (hi : h.obj i = some o') (o : ω) :
    h.set i o = { h with obj := fun j => if j = i then some o else h.obj j } := by
  unfold set
  rw [hi]

theorem free_obj (hi : h.obj i = some o) :
    h.free i = { h with obj := fun j => if j = i then none else h.obj j } := by
  unfold free
  rw [hi]

theorem Grown.set (hg : Grown h h' new) (hi : i ∈ new) (o : ω) :
    Grown h (h'.set i o) new ∧ (h'.set i o).obj i = some o ∧ (h'.set i o).next = h'.next ∧
      ∀ j ≠ i, (h'.set i o).obj j = h'.obj j := by
  obtain ⟨o', ho'⟩ := hg.live i hi
  have hset := set_obj ho' o
  have hself : (h'.set i o).obj i = some o := by
    rw [hset]
    exact if_pos rfl
  have hother : ∀ j ≠ i, (h'.set i o).obj j = h'.obj j := by
    intro j hj
    rw [hset]
    exact if_neg hj
  have hnext : (h'.set i o).next = h'.next := by rw [hset]
  refine ⟨⟨hg.before, ?_, ?_, ?_, hg.nodup, hg.above, ?_, ?_⟩, hself, hnext, hother⟩
  · intro j hj
    have hlt := hg.lt hi
    rw [hnext] at hj
    rw [hother j (by omega)]
    exact hg.fresh j hj
  · rw [hnext]
    exact hg.next_le
  · rw [hset]
    exact hg.misuse
  · intro j hj
    grind [hg.live]
  · intro j hj
    rw [hother j (fun hji => hj (hji ▸ hi))]
    exact hg.others j hj

theorem Grown.perm (hg : Grown h h' new) (hp : new.Perm more) : Grown h h' more where
  before := hg.before
  fresh := hg.fresh
  next_le := hg.next_le
  misuse := hg.misuse
  nodup := hp.nodup_iff.mp hg.nodup
  above := fun i hi => hg.above i (hp.mem_iff.mpr hi)
  live := fun i hi => hg.live i (hp.mem_iff.mpr hi)
  others := fun i hi => hg.others i (fun hmem => hi (hp.mem_iff.mp hmem))

theorem Grown.free (hg : Grown h h' (i :: new)) : Grown h (h'.free i) new := by
  obtain ⟨o, ho⟩ := hg.live i mem_cons_self
  obtain ⟨hnot, hnodup⟩ := nodup_cons.mp hg.nodup
  rw [free_obj ho]
  refine ⟨hg.before, ?_, hg.next_le, hg.misuse, hnodup, ?_, ?_, ?_⟩
  · intro j hj
    have hlt := hg.lt mem_cons_self
    have hji : j ≠ i := by
      have hle : h'.next ≤ j := hj
      omega
    exact (if_neg hji).trans (hg.fresh j hj)
  · intro j hj
    exact hg.above j (mem_cons_of_mem i hj)
  · intro j hj
    have hji : j ≠ i := fun heq => hnot (heq ▸ hj)
    obtain ⟨o', ho'⟩ := hg.live j (mem_cons_of_mem i hj)
    exact ⟨o', (if_neg hji).trans ho'⟩
  · intro j hj
    by_cases hji : j = i
    · subst hji
      exact (if_pos rfl).trans (hg.before j (hg.above j mem_cons_self)).symm
    · exact (if_neg hji).trans (hg.others j (by simp [hji, hj]))

theorem Grown.freeAll (hg : Grown h h' (new ++ more)) : Grown h (new.foldl Heap.free h') more := by
  induction new generalizing h' with
  | nil => exact hg
  | cons i new ih => exact ih hg.free

theorem Grown.trans (hg : Grown h h' new) (hg' : Grown h' h'' more) : Grown h h'' (more ++ new) := by
  have hdisjoint : ∀ i ∈ new, i ∉ more := by
    intro i hi hmore
    have hlt := hg.lt hi
    have hle := hg'.above i hmore
    omega
  refine ⟨hg.before, hg'.fresh, Nat.le_trans hg.next_le hg'.next_le, hg'.misuse.trans hg.misuse, ?_, ?_, ?_, ?_⟩
  · refine nodup_append.mpr ⟨hg'.nodup, hg.nodup, ?_⟩
    rintro i hi j hj rfl
    exact hdisjoint i hj hi
  · intro i hi
    rcases mem_append.mp hi with hi | hi
    · exact Nat.le_trans hg.next_le (hg'.above i hi)
    · exact hg.above i hi
  · intro i hi
    grind [hg'.live, hg'.others, hg.live]
  · intro i hi
    rw [mem_append, not_or] at hi
    rw [hg'.others i hi.1, hg.others i hi.2]

end

end Heap

end RtemsLibbsd
