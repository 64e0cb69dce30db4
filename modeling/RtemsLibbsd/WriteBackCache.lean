import Mathlib.Algebra.Group.Nat.Defs
import Mathlib.Data.List.Basic
import Mathlib.Logic.Function.Basic

/-!
# Memory behind a write-back cache

A memory of cells of any type with a data cache in front of it, as one processor and one device see them.  The
processor goes through the cache, the device does not.

* `Geometry` — the size of a line, which lines are not cached and what a miss does.
* `CachedMemory` — the memory and the cached lines; a line may be dirty, and it may be older than the memory under it.
* `view` — what the processor reads at an address.
* `read`, `write`, `load`, `store` — accesses of the processor to one cell and to consecutive cells.
* `Manager` — routines that invalidate the lines of an area, or write them back.
* `deviceRead`, `deviceWrite` — accesses of the device to consecutive cells.
* `Coherent` — no line that is not dirty differs from the memory.

`view_load`, `view_store` and `Manager.view_invalidate` say what the operations do to the view of the processor:
reading leaves it, writing changes the written cells, and invalidating shows the memory in the lines of the area.
For a transfer of the device, `Manager.view_deviceWrite` is the rule for an area that has been invalidated and
`Manager.deviceRead_flush` the one for an area that has been written back.
-/

namespace RtemsLibbsd.WriteBackCache

open List Function

universe u

/-- Lines have `2 ^ shift` cells; a line may be excluded from the cache. -/
structure Geometry where
  shift : Nat
  uncached : Nat → Bool
  readAllocate : Bool
  writeAllocate : Bool

namespace Geometry

def lineSize (G : Geometry) : Nat := 2 ^ G.shift

theorem lineSize_pos (G : Geometry) : 0 < G.lineSize := Nat.two_pow_pos G.shift

def lineOf (G : Geometry) (a : Nat) : Nat := a / G.lineSize

/-- The line `i` has a cell of the area. -/
def Covers (G : Geometry) (first size i : Nat) : Prop :=
  0 < size ∧ G.lineOf first ≤ i ∧ i ≤ G.lineOf (first + size - 1)

instance (G : Geometry) (first size i : Nat) : Decidable (G.Covers first size i) :=
  inferInstanceAs (Decidable (_ ∧ _ ∧ _))

theorem covers_of_mem {G : Geometry} {first size a : Nat} (hlo : first ≤ a) (hhi : a < first + size) :
    G.Covers first size (G.lineOf a) :=
  ⟨by omega, Nat.div_le_div_right hlo, Nat.div_le_div_right (by omega)⟩

theorem Covers.bounds {G : Geometry} {first size a : Nat} (h : G.Covers first size (G.lineOf a)) :
    first / G.lineSize * G.lineSize ≤ a ∧ a < ((first + size - 1) / G.lineSize + 1) * G.lineSize := by
  obtain ⟨-, hlo, hhi⟩ := h
  constructor
  · exact Nat.le_trans (Nat.mul_le_mul_right _ hlo) (Nat.div_mul_le_self a G.lineSize)
  · refine Nat.lt_of_lt_of_le (Nat.lt_mul_of_div_lt (Nat.lt_succ_self (G.lineOf a)) G.lineSize_pos) ?_
    exact Nat.mul_le_mul_right _ (Nat.succ_le_succ hhi)

theorem end_of_lastLine {n x : Nat} (hn : 0 < n) (h : n ∣ x) (hx : 0 < x) : ((x - 1) / n + 1) * n = x := by
  obtain ⟨q, rfl⟩ := h
  have hq : 0 < q := Nat.pos_of_mul_pos_left hx
  have hdiv : (n * q - 1) / n = q - 1 := by
    refine Nat.div_eq_of_lt_le ?_ ?_
    · rw [Nat.sub_mul, Nat.mul_comm q]
      omega
    · rw [Nat.sub_add_cancel hq, Nat.mul_comm q]
      omega
  rw [hdiv, Nat.sub_add_cancel hq, Nat.mul_comm]

theorem covers_iff_mem {G : Geometry} {first size : Nat} (hfirst : G.lineSize ∣ first) (hsize : G.lineSize ∣ size)
    (a : Nat) : G.Covers first size (G.lineOf a) ↔ first ≤ a ∧ a < first + size := by
  refine ⟨fun h => ?_, fun ⟨hlo, hhi⟩ => covers_of_mem hlo hhi⟩
  have hpos : 0 < first + size := Nat.lt_of_lt_of_le h.1 (Nat.le_add_left size first)
  grind [h.bounds, Nat.div_mul_cancel, end_of_lastLine, G.lineSize_pos, Nat.dvd_add]

end Geometry

variable {β : Type u}

structure Line (β : Type u) where
  cells : Nat → β
  dirty : Bool

structure CachedMemory (β : Type u) where
  memory : Nat → β
  line : Nat → Option (Line β)

variable (G : Geometry)

def view (s : CachedMemory β) (a : Nat) : β :=
  if G.uncached (G.lineOf a) then s.memory a
  else match s.line (G.lineOf a) with
    | none => s.memory a
    | some l => l.cells a

def fill (s : CachedMemory β) (i : Nat) : CachedMemory β :=
  { s with line := update s.line i (some ⟨s.memory, false⟩) }

def read (s : CachedMemory β) (a : Nat) : β × CachedMemory β :=
  (view G s a,
    if G.uncached (G.lineOf a) = false ∧ s.line (G.lineOf a) = none ∧ G.readAllocate = true then
      fill s (G.lineOf a)
    else s)

def write (s : CachedMemory β) (a : Nat) (v : β) : CachedMemory β :=
  let through := { s with memory := update s.memory a v }
  let into := fun cells => { s with
    line := update s.line (G.lineOf a) (some ⟨update cells a v, true⟩) }
  if G.uncached (G.lineOf a) then through
  else match s.line (G.lineOf a) with
    | some l => into l.cells
    | none => if G.writeAllocate then into s.memory else through

/-- Reads of `n` consecutive cells. -/
def load (s : CachedMemory β) (a : Nat) : Nat → List β × CachedMemory β
  | 0 => ([], s)
  | n + 1 =>
    let r := load s a n
    let c := read G r.2 (a + n)
    (r.1 ++ [c.1], c.2)

def store (s : CachedMemory β) (a : Nat) : List β → CachedMemory β
  | [] => s
  | v :: vs => store (write G s a v) (a + 1) vs

variable {G} {s : CachedMemory β}

variable {a : Nat}

theorem view_of_uncached (h : G.uncached (G.lineOf a) = true) : view G s a = s.memory a := if_pos h

theorem view_of_absent (h : s.line (G.lineOf a) = none) : view G s a = s.memory a := by
  unfold view
  rw [h]
  exact ite_self _

theorem view_fill {i : Nat} (h : s.line i = none) : view G (fill s i) = view G s := by
  funext a
  by_cases hi : G.lineOf a = i
  · unfold view fill
    simp [hi, h]
  · unfold view fill
    simp only [update_of_ne hi]

theorem view_read (a : Nat) : view G (read G s a).2 = view G s := by
  unfold read
  split
  · rename_i h
    exact view_fill h.2.1
  · rfl

theorem memory_read (a : Nat) : (read G s a).2.memory = s.memory := by
  unfold read
  split <;> rfl

theorem view_write (a : Nat) (v : β) : view G (write G s a v) = update (view G s) a v := by
  have hother : ∀ {x : Nat}, x ≠ a → ∀ f : Nat → β, update f a v x = f x :=
    fun hx f => update_of_ne hx v f
  funext x
  unfold write
  by_cases hu : G.uncached (G.lineOf a) = true
  · simp only [hu, if_true]
    rcases eq_or_ne x a with rfl | hx
    · simp [view_of_uncached hu]
    · simp only [view, hother hx]
  · rw [if_neg hu]
    have hinto : ∀ cells : Nat → β, (∀ y, G.lineOf y = G.lineOf a → cells y = view G s y) →
        view G { s with line := update s.line (G.lineOf a) (some ⟨update cells a v, true⟩) } x =
          update (view G s) a v x := by
      intro cells hcells
      rcases eq_or_ne x a with rfl | hx
      · simp [view, if_neg hu]
      · rw [hother hx]
        by_cases hl : G.lineOf x = G.lineOf a
        · rw [← hcells x hl]
          simp only [view, hl, if_neg hu, update_self, hother hx]
        · simp only [view, update_of_ne hl]
    split
    · rename_i l hl
      refine hinto l.cells fun y hy => ?_
      simp only [view, hy, hl, if_neg hu]
    · rename_i hl
      split
      · refine hinto s.memory fun y hy => ?_
        rw [view_of_absent (hy ▸ hl)]
      · rcases eq_or_ne x a with rfl | hx
        · unfold view
          simp [hl]
        · simp only [view, hother hx]

theorem view_load (a n : Nat) : view G (load G s a n).2 = view G s := by
  induction n with
  | zero => rfl
  | succ n ih => exact (view_read (a + n)).trans ih

theorem memory_load (a n : Nat) : (load G s a n).2.memory = s.memory := by
  induction n with
  | zero => rfl
  | succ n ih => exact (memory_read (a + n)).trans ih

theorem load_eq (a n : Nat) : (load G s a n).1 = (List.range n).map fun i => view G s (a + i) := by
  induction n with
  | zero => rfl
  | succ n ih =>
    show (load G s a n).1 ++ [view G (load G s a n).2 (a + n)] = _
    rw [ih, view_load, range_succ, map_append]
    rfl

theorem view_store (a : Nat) (vs : List β) (x : Nat) :
    view G (store G s a vs) x = if a ≤ x then vs[x - a]?.getD (view G s x) else view G s x := by
  induction vs generalizing s a with
  | nil =>
    show view G s x = _
    simp
  | cons v vs ih =>
    show view G (store G (write G s a v) (a + 1) vs) x = _
    rw [ih, view_write]
    grind

theorem view_store_load {t : CachedMemory β} (dst src n x : Nat) :
    view G (store G s dst (load G t src n).1) x =
      if dst ≤ x ∧ x < dst + n then view G t (src + (x - dst)) else view G s x := by
  rw [view_store, load_eq]
  by_cases hx : dst ≤ x
  · grind
  · rw [if_neg hx, if_neg (by omega)]

theorem view_store_back {t : CachedMemory β} (a n x : Nat) :
    view G (store G s a (load G t a n).1) x = if a ≤ x ∧ x < a + n then view G t x else view G s x := by
  rw [view_store_load]
  split
  · rename_i h
    rw [Nat.add_sub_cancel' h.1]
  · rfl

variable (G) in
def memcpy (s : CachedMemory β) (dst src n : Nat) : CachedMemory β :=
  let r := load G s src n
  store G r.2 dst r.1

theorem view_memcpy (dst src n x : Nat) :
    view G (memcpy G s dst src n) x =
      if dst ≤ x ∧ x < dst + n then view G s (src + (x - dst)) else view G s x := by
  unfold memcpy
  rw [view_store_load, view_load]

variable {vs : List β}

theorem load_eq_of_view (h : ∀ i (hi : i < vs.length), view G s (a + i) = vs[i]) :
    (load G s a vs.length).1 = vs := by
  grind [load_eq, ext_getElem, length_map]

theorem load_memcpy (dst src n : Nat) : (load G (memcpy G s dst src n) dst n).1 = (load G s src n).1 := by
  rw [load_eq, load_eq]
  refine map_congr_left fun i hi => ?_
  have hi := mem_range.mp hi
  simp [view_memcpy, if_pos (by omega)]

/-- Cache maintenance routines: `invalidate` drops the lines of an area, `flush` writes back those that are dirty. -/
structure Manager (G : Geometry) (β : Type u) where
  invalidate : CachedMemory β → Nat → Nat → CachedMemory β
  invalidate_memory : ∀ s first size, (invalidate s first size).memory = s.memory
  invalidate_line : ∀ s first size i,
    (invalidate s first size).line i = if G.Covers first size i then none else s.line i
  flush : CachedMemory β → Nat → Nat → CachedMemory β
  flush_memory : ∀ s first size a, (flush s first size).memory a =
    match s.line (G.lineOf a) with
    | some l => if G.Covers first size (G.lineOf a) ∧ l.dirty = true then l.cells a else s.memory a
    | none => s.memory a
  flush_line : ∀ s first size i, (flush s first size).line i =
    if G.Covers first size i then (s.line i).map fun l => { l with dirty := false } else s.line i

theorem Manager.view_invalidate (C : Manager G β) (s : CachedMemory β) (first size a : Nat) :
    view G (C.invalidate s first size) a =
      if G.Covers first size (G.lineOf a) then s.memory a else view G s a := by
  have hline := C.invalidate_line s first size (G.lineOf a)
  split
  · rename_i hc
    rw [if_pos hc] at hline
    rw [view_of_absent hline, C.invalidate_memory]
  · rename_i hc
    rw [if_neg hc] at hline
    unfold view
    rw [hline, C.invalidate_memory]

def lineManager (G : Geometry) (β : Type u) : Manager G β where
  invalidate s first size := { s with line := fun i => if G.Covers first size i then none else s.line i }
  invalidate_memory _ _ _ := rfl
  invalidate_line _ _ _ _ := rfl
  flush s first size :=
    { memory := fun a => match s.line (G.lineOf a) with
        | some l => if G.Covers first size (G.lineOf a) ∧ l.dirty = true then l.cells a else s.memory a
        | none => s.memory a
      line := fun i =>
        if G.Covers first size i then (s.line i).map fun l => { l with dirty := false } else s.line i }
  flush_memory _ _ _ _ := rfl
  flush_line _ _ _ _ := rfl

/-! ## Transfers of the device -/

def deviceRead (s : CachedMemory β) (a n : Nat) : List β := (List.range n).map fun i => s.memory (a + i)

def deviceWrite (s : CachedMemory β) (a : Nat) (vs : List β) : CachedMemory β :=
  { s with memory := fun x => if a ≤ x then vs[x - a]?.getD (s.memory x) else s.memory x }

/-- An excluded line is not cached, and a line that is not dirty is what the memory is. -/
structure Coherent (G : Geometry) (s : CachedMemory β) : Prop where
  uncached : ∀ i, G.uncached i = true → s.line i = none
  clean : ∀ a l, s.line (G.lineOf a) = some l → l.dirty = false → l.cells a = s.memory a

theorem deviceWrite_memory_of_not_mem {a x : Nat} (h : ¬ (a ≤ x ∧ x < a + vs.length)) :
    (deviceWrite s a vs).memory x = s.memory x := by
  grind [deviceWrite]

/-- **The device writes to an area of whole lines that has been invalidated.**  The processor sees in the area what
the device has written there, and elsewhere what it saw before. -/
theorem Manager.view_deviceWrite (C : Manager G β) {first size : Nat} (hfirst : G.lineSize ∣ first)
    (hsize : G.lineSize ∣ size) (hlen : vs.length ≤ size) (a : Nat) :
    view G (deviceWrite (C.invalidate s first size) first vs) a =
      if first ≤ a ∧ a < first + size then vs[a - first]?.getD (s.memory a) else view G s a := by
  have hcovers := G.covers_iff_mem hfirst hsize a
  have hline := C.invalidate_line s first size (G.lineOf a)
  by_cases hmem : first ≤ a ∧ a < first + size
  · rw [if_pos (hcovers.mpr hmem)] at hline
    rw [if_pos hmem, view_of_absent (s := deviceWrite (C.invalidate s first size) first vs) hline]
    show (if first ≤ a then vs[a - first]?.getD ((C.invalidate s first size).memory a) else _) = _
    rw [if_pos hmem.1, C.invalidate_memory]
  · have hout : ¬ (first ≤ a ∧ a < first + vs.length) := by omega
    have hmemory := deviceWrite_memory_of_not_mem (s := C.invalidate s first size) hout
    rw [C.invalidate_memory] at hmemory
    rw [if_neg (mt hcovers.mp hmem)] at hline
    rw [if_neg hmem]
    unfold view
    rw [hmemory]
    show (if _ then _ else match (C.invalidate s first size).line _ with | none => _ | some l => _) = _
    rw [hline]

theorem Manager.load_deviceWrite (C : Manager G β) {first size : Nat} (hfirst : G.lineSize ∣ first)
    (hsize : G.lineSize ∣ size) (hlen : vs.length ≤ size) :
    (load G (deviceWrite (C.invalidate s first size) first vs) first vs.length).1 = vs := by
  apply load_eq_of_view
  intro i hi
  rw [C.view_deviceWrite hfirst hsize hlen, if_pos (by omega), Nat.add_sub_cancel_left,
    getElem?_eq_getElem hi, Option.getD_some]

theorem Manager.flush_memory_of_mem (C : Manager G β) (hs : Coherent G s) {first size a : Nat} (hlo : first ≤ a)
    (hhi : a < first + size) : (C.flush s first size).memory a = view G s a := by
  have hc := G.covers_of_mem hlo hhi
  rw [C.flush_memory]
  cases hl : s.line (G.lineOf a) with
  | none => exact (view_of_absent hl).symm
  | some l =>
    have hu : ¬ G.uncached (G.lineOf a) = true := by
      intro hu
      rw [hs.uncached _ hu] at hl
      cases hl
    have hview : view G s a = l.cells a := by
      unfold view
      rw [if_neg hu, hl]
    rw [hview]
    show (if G.Covers first size (G.lineOf a) ∧ l.dirty = true then l.cells a else s.memory a) = l.cells a
    by_cases hd : l.dirty = true
    · exact if_pos ⟨hc, hd⟩
    · rw [hs.clean a l hl (Bool.eq_false_iff.mpr hd)]
      exact ite_self _

/-- **The device reads an area that has been written back**: it gets what the processor would load. -/
theorem Manager.deviceRead_flush (C : Manager G β) (hs : Coherent G s) {first size n : Nat} (hn : n ≤ size) :
    deviceRead (C.flush s first size) first n = (load G s first n).1 := by
  rw [load_eq]
  refine map_congr_left fun i hi => ?_
  have hi := mem_range.mp hi
  exact C.flush_memory_of_mem hs (Nat.le_add_right first i) (by omega)

namespace Coherent

theorem of_empty (h : ∀ i, s.line i = none) : Coherent G s := by
  refine ⟨fun i _ => h i, fun a l hl => ?_⟩
  rw [h] at hl
  cases hl

theorem read (h : Coherent G s) (a : Nat) : Coherent G (read G s a).2 := by
  unfold WriteBackCache.read
  split
  · rename_i hfill
    constructor
    · intro i hi
      have hne : i ≠ G.lineOf a := by
        rintro rfl
        rw [hfill.1] at hi
        cases hi
      exact (update_of_ne hne _ _).trans (h.uncached i hi)
    · intro x l hl hd
      by_cases hx : G.lineOf x = G.lineOf a
      · change update s.line (G.lineOf a) _ (G.lineOf x) = some l at hl
        rw [hx, update_self] at hl
        cases hl
        rfl
      · exact h.clean x l ((update_of_ne hx _ _).symm.trans hl) hd
  · exact h

theorem through (h : Coherent G s) {a : Nat} (ha : s.line (G.lineOf a) = none) (v : β) :
    Coherent G { s with memory := update s.memory a v } := by
  refine ⟨h.uncached, fun x l hl hd => ?_⟩
  have hne : x ≠ a := by
    rintro rfl
    change s.line (G.lineOf x) = some l at hl
    rw [ha] at hl
    cases hl
  exact (h.clean x l hl hd).trans (update_of_ne hne v s.memory).symm

theorem into (h : Coherent G s) {a : Nat} (ha : ¬ G.uncached (G.lineOf a) = true) (cells : Nat → β) :
    Coherent G { s with line := update s.line (G.lineOf a) (some ⟨cells, true⟩) } := by
  constructor
  · intro i hi
    have hne : i ≠ G.lineOf a := by
      rintro rfl
      exact ha hi
    exact (update_of_ne hne _ _).trans (h.uncached i hi)
  · intro x l hl hd
    grind [h.clean]

theorem write (h : Coherent G s) (a : Nat) (v : β) : Coherent G (write G s a v) := by
  unfold WriteBackCache.write
  by_cases hu : G.uncached (G.lineOf a) = true
  · rw [if_pos hu]
    exact h.through (h.uncached _ hu) v
  · grind [h.into, h.through]

theorem load (h : Coherent G s) (a n : Nat) : Coherent G (load G s a n).2 := by
  induction n with
  | zero => exact h
  | succ n ih => exact ih.read (a + n)

theorem store (h : Coherent G s) (a : Nat) (vs : List β) : Coherent G (store G s a vs) := by
  induction vs generalizing s a with
  | nil => exact h
  | cons v vs ih => exact ih (h.write a v) (a + 1)

theorem memcpy (h : Coherent G s) (dst src n : Nat) : Coherent G (memcpy G s dst src n) :=
  (h.load src n).store dst _

theorem invalidate (h : Coherent G s) (C : Manager G β) (first size : Nat) :
    Coherent G (C.invalidate s first size) := by
  have hsub : ∀ {i l}, (C.invalidate s first size).line i = some l → s.line i = some l := by
    intro i l hl
    rw [C.invalidate_line] at hl
    split at hl
    · cases hl
    · exact hl
  constructor
  · intro i hi
    rw [C.invalidate_line, h.uncached i hi]
    exact ite_self _
  · intro a l hl hd
    rw [C.invalidate_memory]
    exact h.clean a l (hsub hl) hd

theorem flush (h : Coherent G s) (C : Manager G β) (first size : Nat) : Coherent G (C.flush s first size) := by
  constructor
  · intro i hi
    rw [C.flush_line, h.uncached i hi]
    exact ite_self _
  · intro a l hl hd
    rw [C.flush_line] at hl
    rw [C.flush_memory]
    cases hcached : s.line (G.lineOf a) with
    | none =>
      rw [hcached] at hl
      split at hl <;> cases hl
    | some k =>
      rw [hcached] at hl
      by_cases hc : G.Covers first size (G.lineOf a)
      · rw [if_pos hc] at hl
        obtain rfl : { k with dirty := false } = l := Option.some.inj hl
        show k.cells a = if _ then _ else _
        by_cases hk : k.dirty = true
        · rw [if_pos ⟨hc, hk⟩]
        · rw [if_neg fun hboth => hk hboth.2]
          exact h.clean a k hcached (Bool.eq_false_iff.mpr hk)
      · rw [if_neg hc] at hl
        obtain rfl : k = l := Option.some.inj hl
        show k.cells a = if _ then _ else _
        rw [if_neg fun hboth => hc hboth.1]
        exact h.clean a k hcached hd

theorem deviceWrite (h : Coherent G s) {a : Nat}
    (habsent : ∀ x, a ≤ x → x < a + vs.length → s.line (G.lineOf x) = none) :
    Coherent G (deviceWrite s a vs) := by
  refine ⟨h.uncached, fun x l hl hd => ?_⟩
  have hout : ¬ (a ≤ x ∧ x < a + vs.length) := by
    rintro ⟨hlo, hhi⟩
    change s.line (G.lineOf x) = some l at hl
    rw [habsent x hlo hhi] at hl
    cases hl
  exact (h.clean x l hl hd).trans (deviceWrite_memory_of_not_mem hout).symm

end Coherent

end RtemsLibbsd.WriteBackCache
