import Mathlib.Algebra.Group.Nat.Defs
import Mathlib.Data.List.Basic

/-!
# Chains of mbufs

What the transmit functions of the Ethernet drivers read of a frame: for each `struct mbuf` of the chain the
address of its data and their length.  A descriptor is needed for the elements that are not empty.

Some drivers free the elements one by one:

* `Element` — an mbuf with an identity of its own; `filled`, `skipEmpty` — the elements that are not empty, and
  the chain from the first of them on.
* `frameDescs` — what the hardware has to find in the descriptors of a frame.
-/

namespace RtemsLibbsd.Ethernet

open List

/-- One `struct mbuf` of a chain. -/
structure Mbuf where
  data : Nat
  len : Nat
  deriving DecidableEq

def nonEmpty (n : List Mbuf) : List Mbuf := n.filter fun e => 0 < e.len

theorem nonEmpty_concat_pos (pre : List Mbuf) {e : Mbuf} (he : 0 < e.len) :
    nonEmpty (pre ++ [e]) = nonEmpty pre ++ [e] := by
  rw [nonEmpty, filter_append, filter_singleton, nonEmpty]
  simp [he]

theorem nonEmpty_concat_zero (pre : List Mbuf) {e : Mbuf} (he : ¬ 0 < e.len) :
    nonEmpty (pre ++ [e]) = nonEmpty pre := by
  rw [nonEmpty, filter_append, filter_singleton, nonEmpty]
  simp [he]

/-! ## Elements with an identity -/

structure Element extends Mbuf where
  id : Nat

def ids (c : List Element) : List Nat := c.map Element.id

def filled (c : List Element) : List Element := c.filter fun e => 0 < e.len

def skipEmpty (c : List Element) : List Element := c.dropWhile fun e => e.len = 0

def emptyPrefix (c : List Element) : List Element := c.takeWhile fun e => e.len = 0

@[simp] theorem ids_append (c d : List Element) : ids (c ++ d) = ids c ++ ids d := map_append

@[simp] theorem ids_cons (e : Element) (c : List Element) : ids (e :: c) = e.id :: ids c := rfl

theorem emptyPrefix_append (c : List Element) : emptyPrefix c ++ skipEmpty c = c :=
  takeWhile_append_dropWhile

theorem skipEmpty_head {c n : List Element} {e : Element} (h : skipEmpty c = e :: n) : 0 < e.len := by
  have hhead : (skipEmpty c).head? = some e := by rw [h]; rfl
  have := head?_dropWhile_not (fun e : Element => decide (e.len = 0)) c
  rw [show c.dropWhile (fun e => decide (e.len = 0)) = skipEmpty c from rfl, hhead] at this
  simp only [decide_eq_false_iff_not] at this
  omega

theorem filled_cons_pos {e : Element} (c : List Element) (he : 0 < e.len) :
    filled (e :: c) = e :: filled c := by
  simp [filled, he]

theorem filled_skipEmpty (c : List Element) : filled (skipEmpty c) = filled c := by
  induction c with
  | nil => rfl
  | cons e c ih =>
    by_cases he : e.len = 0
    · have hskip : skipEmpty (e :: c) = skipEmpty c := by simp [skipEmpty, he]
      rw [hskip, ih]
      simp [filled, he]
    · have hskip : skipEmpty (e :: c) = e :: c := by simp [skipEmpty, he]
      rw [hskip]

structure Desc where
  data : Nat
  len : Nat
  last : Bool

def Element.desc (last : Bool) (e : Element) : Desc := ⟨e.data, e.len % 2 ^ 16, last⟩

/-- The descriptors of a frame with the given elements: only the final one is the last. -/
def frameDescs : List Element → List Desc
  | [] => []
  | [e] => [e.desc true]
  | e :: f :: c => e.desc false :: frameDescs (f :: c)

theorem frameDescs_concat (c : List Element) (e : Element) :
    frameDescs (c ++ [e]) = c.map (Element.desc false) ++ [e.desc true] := by
  induction c with
  | nil => rfl
  | cons f c ih =>
    cases c with
    | nil => rfl
    | cons g c =>
      rw [cons_append, cons_append, frameDescs, ← cons_append, ih]
      rfl

theorem frameDescs_last {c : List Element} (hc : c ≠ []) :
    ∃ p x, frameDescs c = p ++ [x] ∧ (∀ y ∈ p, y.last = false) ∧ x.last = true := by
  obtain ⟨c', e, rfl⟩ := (eq_nil_or_concat c).resolve_left hc
  refine ⟨c'.map (Element.desc false), e.desc true, ?_, ?_, rfl⟩
  · simp [frameDescs_concat]
  · intro y hy
    obtain ⟨f, -, rfl⟩ := mem_map.mp hy
    rfl

theorem cut_unique {p q r r' : List Desc} {x z : Desc} (hp : ∀ y ∈ p, y.last = false) (hx : x.last = true)
    (hq : ∀ y ∈ q, y.last = false) (hz : z.last = true) (h : p ++ x :: r = q ++ z :: r') :
    p = q ∧ x = z ∧ r = r' := by
  induction p generalizing q with
  | nil =>
    cases q with
    | nil => exact ⟨rfl, List.cons.inj h⟩
    | cons y q =>
      obtain ⟨rfl, -⟩ := List.cons.inj h
      exact absurd (hx.symm.trans (hq x mem_cons_self)) nofun
  | cons y p ih =>
    obtain ⟨hy, hp⟩ := forall_mem_cons.mp hp
    cases q with
    | nil =>
      obtain ⟨rfl, -⟩ := List.cons.inj h
      exact absurd (hz.symm.trans hy) nofun
    | cons w q =>
      grind

theorem flatMap_frameDescs_cut {cs : List (List Element)} (hne : ∀ c ∈ cs, filled c ≠ []) {p r : List Desc}
    {x : Desc} (h : (cs.flatMap fun c => frameDescs (filled c)) = p ++ x :: r)
    (hp : ∀ y ∈ p, y.last = false) (hx : x.last = true) :
    ∃ c cs', cs = c :: cs' ∧ frameDescs (filled c) = p ++ [x] ∧
      (cs'.flatMap fun c => frameDescs (filled c)) = r := by
  cases cs with
  | nil => exact absurd h.symm (append_ne_nil_of_right_ne_nil p (cons_ne_nil x r))
  | cons c cs' =>
    obtain ⟨q, z, hc, hq, hz⟩ := frameDescs_last (hne c mem_cons_self)
    rw [flatMap_cons, hc, append_assoc] at h
    obtain ⟨rfl, rfl, hr⟩ := cut_unique hq hz hp hx h
    exact ⟨c, cs', rfl, hc, hr⟩

theorem flatMap_frameDescs_open {cs : List (List Element)} (hne : ∀ c ∈ cs, filled c ≠ [])
    (h : ∀ y ∈ cs.flatMap fun c => frameDescs (filled c), y.last = false) : cs = [] := by
  cases cs with
  | nil => rfl
  | cons c cs' =>
    obtain ⟨q, z, hc, -, hz⟩ := frameDescs_last (hne c mem_cons_self)
    grind

theorem length_frameDescs (c : List Element) : (frameDescs c).length = c.length := by
  rcases eq_nil_or_concat c with rfl | ⟨c', e, rfl⟩
  · rfl
  · rw [concat_eq_append, frameDescs_concat, length_append, length_append, length_map]
    rfl

end RtemsLibbsd.Ethernet
