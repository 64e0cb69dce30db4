import Mathlib.Data.List.Basic
import Mathlib.Data.List.Range

/-!
# Coalescing address ranges

Pieces of memory are cut into chunks, and a chunk is joined to the segment before it whenever that segment may
grow.

* `Range`, `expand` — a range of addresses, and the addresses of a list of ranges in order.
* `chunks cut` — the cuts of one piece; `cut a n` is the length of the first chunk of the `n` bytes at `a`.
* `push`, `join` — a chunk is added to a list of segments (newest first); the segments of a list of chunks.

Principal results: `expand_chunks` and `expand_join` (no address is lost, repeated or moved), `forall_join` (what
holds of each chunk and is kept when a segment grows holds of each segment) and `length_le_foldl_push` (the number
of segments never falls).
-/

namespace RtemsLibbsd.Segments

open List

/-- `len` addresses from `addr` on. -/
structure Range where
  addr : Nat
  len : Nat
  deriving DecidableEq

def expand (l : List Range) : List Nat := l.flatMap fun r => List.range' r.addr r.len

@[simp] theorem expand_nil : expand [] = [] := rfl

@[simp] theorem expand_cons (r : Range) (l : List Range) :
    expand (r :: l) = List.range' r.addr r.len ++ expand l := rfl

theorem expand_append (l₁ l₂ : List Range) : expand (l₁ ++ l₂) = expand l₁ ++ expand l₂ :=
  flatMap_append

/-! ## The chunks of a piece -/

/-- The chunks of the `n` bytes at `a`; the first argument bounds their number. -/
def chunks (cut : Nat → Nat → Nat) : Nat → Nat → Nat → List Range
  | 0, _, _ => []
  | fuel + 1, a, n =>
      if n = 0 then []
      else ⟨a, cut a n⟩ :: chunks cut fuel (a + cut a n) (n - cut a n)

section Cut

variable {cut : Nat → Nat → Nat}

theorem chunks_zero (fuel a : Nat) : chunks cut fuel a 0 = [] := by
  cases fuel <;> simp [chunks]

theorem chunks_succ (fuel a : Nat) {n : Nat} (hn : n ≠ 0) :
    chunks cut (fuel + 1) a n = ⟨a, cut a n⟩ :: chunks cut fuel (a + cut a n) (n - cut a n) := by
  rw [chunks, if_neg hn]

theorem expand_chunks (hcut : ∀ a n, 0 < n → 1 ≤ cut a n ∧ cut a n ≤ n) {fuel n : Nat} (a : Nat)
    (hf : n ≤ fuel) : expand (chunks cut fuel a n) = List.range' a n := by
  induction fuel generalizing a n with
  | zero =>
      obtain rfl : n = 0 := by omega
      rfl
  | succ fuel ih =>
      grind [chunks_zero, chunks_succ, expand_cons]

theorem forall_chunks {P : Range → Prop} (hP : ∀ a n, 0 < n → P ⟨a, cut a n⟩) (fuel a n : Nat) :
    ∀ r ∈ chunks cut fuel a n, P r := by
  induction fuel generalizing a n with
  | zero => exact fun _ h => absurd h not_mem_nil
  | succ fuel ih =>
      grind [chunks_zero, chunks_succ]

end Cut

/-! ## Joining chunks -/

section Join

variable (fits : Range → Range → Prop) [DecidableRel fits]

/-- The chunk `c` after the segments `l`, the newest of which stands first. -/
def push : List Range → Range → List Range
  | [], c => [c]
  | s :: l, c => if fits s c then ⟨s.addr, s.len + c.len⟩ :: l else c :: s :: l

def join (cs : List Range) : List Range := (cs.foldl (push fits) []).reverse

variable {fits}

theorem push_cons (s : Range) (l : List Range) (c : Range) :
    push fits (s :: l) c = if fits s c then ⟨s.addr, s.len + c.len⟩ :: l else c :: s :: l := rfl

theorem length_le_push (l : List Range) (c : Range) : l.length ≤ (push fits l c).length := by
  cases l with
  | nil => exact Nat.zero_le _
  | cons s l =>
      rw [push_cons]
      split
      · exact le_refl _
      · exact Nat.le_succ _

/-- **The number of segments never falls.** -/
theorem length_le_foldl_push (cs l : List Range) : l.length ≤ (cs.foldl (push fits) l).length := by
  induction cs generalizing l with
  | nil => exact le_refl _
  | cons c cs ih => exact (length_le_push l c).trans (ih (push fits l c))

theorem push_ne_nil (l : List Range) (c : Range) : push fits l c ≠ [] := by
  cases l with
  | nil => exact cons_ne_nil _ _
  | cons s l =>
      rw [push_cons]
      split <;> exact cons_ne_nil _ _

theorem foldl_push_ne_nil (cs : List Range) {l : List Range} (hl : l ≠ []) :
    cs.foldl (push fits) l ≠ [] := by
  induction cs generalizing l with
  | nil => exact hl
  | cons c cs ih => exact ih (push_ne_nil l c)

theorem expand_push (hfits : ∀ s c, fits s c → c.addr = s.addr + s.len) (l : List Range) (c : Range) :
    expand (push fits l c).reverse = expand l.reverse ++ List.range' c.addr c.len := by
  cases l with
  | nil => simp [push]
  | cons s l =>
      grind [push_cons, expand_append, expand_cons, expand_nil]

theorem expand_foldl_push (hfits : ∀ s c, fits s c → c.addr = s.addr + s.len) (cs l : List Range) :
    expand (cs.foldl (push fits) l).reverse = expand l.reverse ++ expand cs := by
  induction cs generalizing l with
  | nil => simp
  | cons c cs ih => simp [ih, expand_push hfits]

/-- **Joining keeps the addresses and their order.** -/
theorem expand_join (hfits : ∀ s c, fits s c → c.addr = s.addr + s.len) (cs : List Range) :
    expand (join fits cs) = expand cs := by
  simp [join, expand_foldl_push hfits]

variable {P : Range → Prop}

theorem forall_push
    (hgrow : ∀ s c, P s → P c → fits s c → P ⟨s.addr, s.len + c.len⟩) {l : List Range} {c : Range}
    (hl : ∀ r ∈ l, P r) (hc : P c) : ∀ r ∈ push fits l c, P r := by
  cases l with
  | nil => exact forall_mem_singleton.mpr hc
  | cons s l =>
      have hs : P s := hl s mem_cons_self
      have hrest : ∀ r ∈ l, P r := fun r hr => hl r (mem_cons_of_mem s hr)
      rw [push_cons]
      split
      · rename_i hfit
        exact forall_mem_cons.mpr ⟨hgrow s c hs hc hfit, hrest⟩
      · exact forall_mem_cons.mpr ⟨hc, hl⟩

theorem forall_foldl_push
    (hgrow : ∀ s c, P s → P c → fits s c → P ⟨s.addr, s.len + c.len⟩) {cs l : List Range}
    (hl : ∀ r ∈ l, P r) (hcs : ∀ r ∈ cs, P r) : ∀ r ∈ cs.foldl (push fits) l, P r := by
  induction cs generalizing l with
  | nil => exact hl
  | cons c cs ih =>
      obtain ⟨hc, hrest⟩ := forall_mem_cons.mp hcs
      exact ih (forall_push hgrow hl hc) hrest

theorem forall_join
    (hgrow : ∀ s c, P s → P c → fits s c → P ⟨s.addr, s.len + c.len⟩) {cs : List Range}
    (hcs : ∀ r ∈ cs, P r) : ∀ r ∈ join fits cs, P r := fun r hr =>
  forall_foldl_push hgrow (fun _ h => absurd h not_mem_nil) hcs r (mem_reverse.mp hr)

end Join

end RtemsLibbsd.Segments
