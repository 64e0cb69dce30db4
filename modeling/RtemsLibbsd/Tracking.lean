import Mathlib.Data.List.Perm.Basic
import Mathlib.Data.List.Nodup
import Mathlib.Data.List.Range

/-!
# Lists that track live resources

A component that has to give back what was obtained through it keeps a list of handles.  Handles
are used again after a release, so the resources themselves are numbered in the order they were
obtained; the numbers of the live ones and of the released ones are kept next to the list.

* `Tracker` — the list of handles, the live resources, the released ones and the number of
  releases that hit no live resource.
* `acquire`, `unlist`, `release`, `closeRemove`, `closeAll` — the operations on it.
* `Accounted` — the list names exactly the live resources, and every resource that was ever
  obtained is either live or was released once.  `Accounted.acquire` and `Accounted.closeRemove`
  are the step lemmas, `Accounted.closeAll` the result about giving back everything.
-/

namespace RtemsLibbsd.Tracking

open Option

open List

universe u

variable {α : Type u}

/-- The list without the first item for `x`, `none` when it has no such item. -/
def removeFirst [DecidableEq α] (x : α) : List α → Option (List α)
  | [] => none
  | y :: ys => if y = x then some ys else (removeFirst x ys).map (y :: ·)

/-- `tracked` is the list of handles.  `live` gives the handle and the number of every live
    resource, `released` the numbers of the released ones in order, `obtained` the next number,
    `stray` counts the releases of handles that were not live. -/
structure Tracker (α : Type u) where
  tracked : List α
  live : List (α × Nat)
  released : List Nat
  obtained : Nat
  stray : Nat

def Tracker.empty : Tracker α := ⟨[], [], [], 0, 0⟩

/-- A new resource with the handle `x`, put on the list. -/
def Tracker.acquire (t : Tracker α) (x : α) : Tracker α :=
  { t with
    tracked := x :: t.tracked
    live := (x, t.obtained) :: t.live
    obtained := t.obtained + 1 }

def Tracker.unlist [DecidableEq α] (t : Tracker α) (x : α) : Option (Tracker α) :=
  (removeFirst x t.tracked).map fun l => { t with tracked := l }

/-- The resource with the handle `x` is given back. -/
def Tracker.release [DecidableEq α] (t : Tracker α) (x : α) : Tracker α :=
  match t.live.find? fun r => r.1 = x with
  | none => { t with stray := t.stray + 1 }
  | some r => { t with live := t.live.erase r, released := t.released ++ [r.2] }

/-- The handle is taken off the list and, if it was there, given back; `closes` says whether
    giving it back succeeds. -/
def Tracker.closeRemove [DecidableEq α] (closes : α → Bool) (t : Tracker α) (x : α) : Tracker α :=
  match t.unlist x with
  | none => t
  | some t' => if closes x then t'.release x else t'

/-- `n` times the first handle of the list. -/
def Tracker.closeFirst [DecidableEq α] (closes : α → Bool) : Nat → Tracker α → Tracker α
  | 0, t => t
  | n + 1, t =>
    match t.tracked with
    | [] => t
    | x :: _ => closeFirst closes n (t.closeRemove closes x)

def Tracker.closeAll [DecidableEq α] (closes : α → Bool) (t : Tracker α) : Tracker α :=
  t.closeFirst closes t.tracked.length

/-- The list names exactly the live resources; each resource obtained is live or was released
    once. -/
structure Accounted (t : Tracker α) : Prop where
  tracked_eq : t.tracked = t.live.map Prod.fst
  nodup : t.tracked.Nodup
  perm : (t.released ++ t.live.map Prod.snd).Perm (List.range t.obtained)
  stray : t.stray = 0

theorem Accounted.empty : Accounted (Tracker.empty : Tracker α) :=
  ⟨rfl, nodup_nil, List.Perm.refl _, rfl⟩

/-- **Step**: a new resource whose handle is not live. -/
theorem Accounted.acquire {t : Tracker α} (h : Accounted t) {x : α} (hx : x ∉ t.tracked) :
    Accounted (t.acquire x) := by
  refine ⟨?_, nodup_cons.mpr ⟨hx, h.nodup⟩, ?_, h.stray⟩
  · simp [Tracker.acquire, h.tracked_eq]
  · show (t.released ++ t.obtained :: t.live.map Prod.snd).Perm (List.range (t.obtained + 1))
    rw [range_succ]
    exact perm_middle.trans ((h.perm.cons _).trans (perm_append_singleton _ _).symm)

section Handles

variable [DecidableEq α]

variable {x : α}

theorem removeFirst_eq_none : ∀ {l : List α}, removeFirst x l = none ↔ x ∉ l
  | [] => by simp [removeFirst]
  | y :: ys => by
    unfold removeFirst
    split
    · rename_i h
      simp [h]
    · rename_i h
      simp [removeFirst_eq_none, Ne.symm h]

theorem removeFirst_eq_erase : ∀ {l l' : List α}, removeFirst x l = some l' → l' = l.erase x
  | [], _, h => by cases h
  | y :: ys, l', h => by
    unfold removeFirst at h
    split at h
    · rename_i hy
      cases h
      simp [hy]
    · rename_i hy
      obtain ⟨m, hm, rfl⟩ := map_eq_some_iff.mp h
      rw [removeFirst_eq_erase hm, erase_cons_tail]
      simpa using hy

theorem removeFirst_map (x : α) : ∀ l : List (α × Nat),
    removeFirst x (l.map Prod.fst) =
      (l.find? fun r => r.1 = x).map fun r => (l.erase r).map Prod.fst
  | [] => rfl
  | y :: ys => by
    rw [map_cons, removeFirst, find?_cons]
    split
    · rename_i h
      simp [h]
    · rename_i h
      rw [removeFirst_map x ys]
      simp only [h, decide_false]
      cases hf : ys.find? fun r => r.1 = x with
      | none => rfl
      | some r =>
        grind

theorem Accounted.unlist_release {t t' : Tracker α} (h : Accounted t) (hu : t.unlist x = some t') :
    Accounted (t'.release x) ∧ (t'.release x).tracked = t'.tracked := by
  obtain ⟨l, hl, rfl⟩ := map_eq_some_iff.mp hu
  have hl' := hl
  rw [h.tracked_eq, removeFirst_map] at hl'
  obtain ⟨r, hr, rfl⟩ := map_eq_some_iff.mp hl'
  have hmem : r ∈ t.live := mem_of_find?_eq_some hr
  have hsub : ((t.live.erase r).map Prod.fst).Sublist (t.live.map Prod.fst) :=
    (erase_sublist).map _
  have hperm : (t.live.map Prod.snd).Perm (r.2 :: (t.live.erase r).map Prod.snd) := by
    simpa using (perm_cons_erase hmem).map Prod.snd
  simp only [Tracker.release, hr]
  refine ⟨⟨rfl, ?_, ?_, h.stray⟩, trivial⟩
  · have hn := h.nodup
    rw [h.tracked_eq] at hn
    exact hn.sublist hsub
  · have := (hperm.append_left t.released).symm.trans h.perm
    simpa using this

variable {t : Tracker α}

theorem unlist_isSome (hx : x ∈ t.tracked) : ∃ t', t.unlist x = some t' := by
  unfold Tracker.unlist
  cases hr : removeFirst x t.tracked with
  | none => exact absurd hx (removeFirst_eq_none.mp hr)
  | some l => exact ⟨_, rfl⟩

theorem Accounted.not_mem_unlist {t t' : Tracker α} (h : Accounted t) {x y : α}
    (hu : t.unlist x = some t') (hy : y ∉ t.tracked ∨ x = y) : y ∉ t'.tracked := by
  obtain ⟨l, hl, rfl⟩ := map_eq_some_iff.mp hu
  rw [removeFirst_eq_erase hl]
  rcases hy with hy | rfl
  · exact fun hm => hy (mem_of_mem_erase hm)
  · exact h.nodup.not_mem_erase

variable {closes : α → Bool}

/-- **Step**: taking a handle off the list and giving the resource back. -/
theorem Accounted.closeRemove (h : Accounted t)
    (hc : x ∈ t.tracked → closes x = true) : Accounted (t.closeRemove closes x) := by
  unfold Tracker.closeRemove
  split
  · exact h
  · rename_i t' hu
    have hx : x ∈ t.tracked := by
      by_contra hx
      rw [Tracker.unlist, removeFirst_eq_none.mpr hx] at hu
      cases hu
    rw [hc hx]
    exact (h.unlist_release hu).1

theorem closeRemove_head {xs : List α}
    (hs : t.tracked = x :: xs) : (t.closeRemove closes x).tracked = xs := by
  unfold Tracker.closeRemove Tracker.unlist
  simp only [hs, removeFirst, if_true, map_some]
  split
  · unfold Tracker.release
    split <;> rfl
  · rfl

theorem Accounted.closeFirst :
    ∀ (n : Nat) {t : Tracker α}, Accounted t → (∀ x ∈ t.tracked, closes x = true) →
      t.tracked.length = n →
      Accounted (t.closeFirst closes n) ∧ (t.closeFirst closes n).tracked = []
  | 0, t, h, _, hn => ⟨h, length_eq_zero_iff.mp hn⟩
  | n + 1, t, h, hc, hn => by
    unfold Tracker.closeFirst
    split
    · rename_i hs
      exact ⟨h, hs⟩
    · rename_i x xs hs
      have htail : (t.closeRemove closes x).tracked = xs := closeRemove_head hs
      apply Accounted.closeFirst n
      · exact h.closeRemove fun hx => hc x hx
      · rw [htail]
        intro y hy
        exact hc y (hs ▸ mem_cons_of_mem x hy)
      · rw [htail]
        simpa [hs] using hn

/-- **Giving back everything**: afterwards nothing is listed and nothing is live, and every
    resource ever obtained was released exactly once. -/
theorem Accounted.closeAll (h : Accounted t) (hc : ∀ x ∈ t.tracked, closes x = true) :
    Accounted (t.closeAll closes) ∧ (t.closeAll closes).tracked = [] :=
  h.closeFirst t.tracked.length hc rfl

theorem closeFirst_obtained (closes : α → Bool) : ∀ (n : Nat) (t : Tracker α),
    (t.closeFirst closes n).obtained = t.obtained
  | 0, _ => rfl
  | n + 1, t => by
    unfold Tracker.closeFirst
    split
    · rfl
    · rw [closeFirst_obtained closes n]
      unfold Tracker.closeRemove
      split
      · rfl
      · rename_i t' hu
        obtain ⟨l, -, rfl⟩ := map_eq_some_iff.mp hu
        split
        · unfold Tracker.release
          split <;> rfl
        · rfl

end Handles

end RtemsLibbsd.Tracking
