import Mathlib.Data.List.Nodup

/-!
# A walk through a list that changes meanwhile

Who walks through a linked list and lets go of it between two elements keeps a cursor, the element to go on with.
Others may take elements out, and move the cursor on if it is theirs, or put new ones in front and set the cursor to
them.

* `listNext` — the element behind a given one.
* `CursorOk` — the elements with a property are at the cursor or behind it.
* `CursorOk.insert`, `CursorOk.remove`, `CursorOk.advance` — what others and the walker do keeps it.
* `CursorOk.done` — at the end of the walk no element with the property is left.
-/

namespace RtemsLibbsd.ListCursor

open List

universe u

variable {α : Type u} [DecidableEq α]

/-- The element behind `x`. -/
def listNext (x : α) : List α → Option α
  | [] => none
  | y :: ys => if y = x then ys.head? else listNext x ys

/-- The elements with the property are at the cursor or behind it. -/
def CursorOk (xs : List α) (cursor : Option α) (P : α → Prop) : Prop :=
  ∃ pre suf, xs = pre ++ suf ∧ cursor = suf.head? ∧ ∀ x ∈ pre, ¬ P x

variable {xs : List α} {cursor : Option α} {P Q : α → Prop} {x : α}

theorem listNext_of_split {pre suf : List α} (h : x ∉ pre) : listNext x (pre ++ x :: suf) = suf.head? := by
  induction pre with
  | nil => simp [listNext]
  | cons y pre ih =>
    obtain ⟨hy, hpre⟩ := not_or.mp (fun hm => h (mem_cons.mpr hm))
    rw [cons_append, listNext, if_neg (Ne.symm hy), ih hpre]

namespace CursorOk

omit [DecidableEq α] in
theorem start : CursorOk xs xs.head? P := ⟨[], xs, rfl, rfl, nofun⟩

omit [DecidableEq α] in
theorem mono (h : CursorOk xs cursor P) (hpq : ∀ y ∈ xs, Q y → P y) : CursorOk xs cursor Q := by
  obtain ⟨pre, suf, rfl, hcursor, hpre⟩ := h
  exact ⟨pre, suf, rfl, hcursor, fun y hy hq => hpre y hy (hpq y (mem_append_left _ hy) hq)⟩

omit [DecidableEq α] in
theorem insert : CursorOk (x :: xs) (some x) P := ⟨[], x :: xs, rfl, rfl, nofun⟩

omit [DecidableEq α] in
theorem mem (h : CursorOk xs (some x) P) : x ∈ xs := by
  obtain ⟨pre, suf, rfl, hcursor, -⟩ := h
  exact mem_append_right _ (mem_of_mem_head? hcursor.symm)

omit [DecidableEq α] in
theorem done (h : CursorOk xs none P) : ∀ y ∈ xs, ¬ P y := by
  obtain ⟨pre, suf, rfl, hcursor, hpre⟩ := h
  obtain rfl := head?_eq_none_iff.mp hcursor.symm
  rwa [append_nil]

theorem remove (h : CursorOk xs cursor P) (hn : xs.Nodup) (x : α) :
    CursorOk (xs.erase x) (if cursor = some x then listNext x xs else cursor) P := by
  obtain ⟨pre, suf, rfl, rfl, hpre⟩ := h
  by_cases hx : x ∈ pre
  · have hsuf : suf.head? ≠ some x := fun he =>
      disjoint_of_nodup_append hn hx (mem_of_mem_head? he)
    rw [if_neg hsuf, erase_append_left _ hx]
    exact ⟨pre.erase x, suf, rfl, rfl, fun y hy => hpre y (mem_of_mem_erase hy)⟩
  · rw [erase_append_right _ hx]
    cases suf with
    | nil => exact ⟨pre, [], rfl, rfl, hpre⟩
    | cons y suf =>
      rw [head?_cons]
      by_cases hy : y = x
      · subst hy
        rw [if_pos rfl, listNext_of_split hx, erase_cons_head]
        exact ⟨pre, suf, rfl, rfl, hpre⟩
      · rw [if_neg fun he => hy (Option.some.inj he), erase_cons_tail (by simpa using hy)]
        exact ⟨pre, y :: suf.erase x, rfl, rfl, hpre⟩

theorem advance (h : CursorOk xs (some x) P) (hn : xs.Nodup) (hx : ¬ P x) : CursorOk xs (listNext x xs) P := by
  obtain ⟨pre, suf, rfl, hcursor, hpre⟩ := h
  cases suf with
  | nil => cases hcursor
  | cons y suf =>
    obtain rfl : x = y := Option.some.inj hcursor
    have hmem : x ∉ pre := fun hm => disjoint_of_nodup_append hn hm mem_cons_self
    rw [listNext_of_split hmem]
    refine ⟨pre ++ [x], suf, by rw [append_assoc]; rfl, rfl, fun y hy => ?_⟩
    grind

end CursorOk

end RtemsLibbsd.ListCursor
