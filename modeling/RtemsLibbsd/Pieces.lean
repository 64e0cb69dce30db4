import Mathlib.Algebra.Group.Nat.Defs
import Mathlib.Data.List.Basic

/-!
# Lists that are joined from pieces

When two lists that are joined from a piece for each element of a list are equal only if the pieces are.

* `flatMap_eq_iff` — if the pieces of one of them are not longer.
* `flatMap_tagged_iff` — if each element says which piece it belongs to.
-/

namespace RtemsLibbsd.Pieces

open List

universe u v

variable {α : Type u} {β : Type v} {f g : α → List β}

theorem length_flatMap_le (hle : ∀ a, (g a).length ≤ (f a).length) (l : List α) :
    (l.flatMap g).length ≤ (l.flatMap f).length := by
  induction l with
  | nil => exact Nat.le_refl _
  | cons a l ih =>
    simp only [flatMap_cons, length_append]
    exact Nat.add_le_add (hle a) ih

theorem flatMap_eq_iff (hle : ∀ a, (g a).length ≤ (f a).length) (l : List α) :
    l.flatMap f = l.flatMap g ↔ ∀ a ∈ l, f a = g a := by
  constructor
  · intro heq
    induction l with
    | nil => exact fun a ha => absurd ha not_mem_nil
    | cons b l ih =>
      rw [flatMap_cons, flatMap_cons] at heq
      have hsum := congrArg List.length heq
      simp only [length_append] at hsum
      have hhead := hle b
      have htail := length_flatMap_le hle l
      obtain ⟨hb, hl⟩ := append_inj heq (by omega)
      intro a ha
      rcases mem_cons.1 ha with rfl | ha
      · exact hb
      · exact ih hl a ha
  · intro h
    exact flatMap_congr h

section

variable [DecidableEq α] {tag : β → α}

theorem filter_tagged (hf : ∀ a, ∀ b ∈ f a, tag b = a) (i : α) (l : List α) :
    (l.flatMap f).filter (fun b => tag b = i) = l.flatMap fun a => if a = i then f a else [] := by
  induction l with
  | nil => rfl
  | cons a l ih =>
    rw [flatMap_cons, flatMap_cons, filter_append, ih]
    congr 1
    by_cases hai : a = i
    · rw [if_pos hai, filter_eq_self]
      intro b hb
      simpa [hai] using hf a b hb
    · rw [if_neg hai, filter_eq_nil_iff]
      intro b hb
      simpa [hf a b hb] using hai

theorem length_pieces (i : α) (l : List α) :
    (l.flatMap fun a => if a = i then f a else []).length = l.count i * (f i).length := by
  induction l with
  | nil => simp
  | cons a l ih =>
    grind

theorem flatMap_tagged_iff (hf : ∀ a, ∀ b ∈ f a, tag b = a) (hg : ∀ a, ∀ b ∈ g a, tag b = a) (l : List α) :
    l.flatMap f = l.flatMap g ↔ ∀ a ∈ l, f a = g a := by
  constructor
  · intro heq i hi
    have hsame := congrArg (List.filter fun b => tag b = i) heq
    rw [filter_tagged hf, filter_tagged hg] at hsame
    have hlength := congrArg List.length hsame
    rw [length_pieces, length_pieces] at hlength
    have hcount : 0 < l.count i := count_pos_iff.2 hi
    have hlen := Nat.eq_of_mul_eq_mul_left hcount hlength
    have hpieces := (flatMap_eq_iff (g := fun a => if a = i then g a else []) (by
      intro a
      grind) l).1 hsame i hi
    rwa [if_pos rfl, if_pos rfl] at hpieces
  · intro h
    exact flatMap_congr h

end

end RtemsLibbsd.Pieces
