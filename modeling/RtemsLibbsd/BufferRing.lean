import Mathlib.Data.List.Basic
import Mathlib.Data.List.Count
import Mathlib.Data.List.Nodup
import Mathlib.Data.Nat.ModEq
import Mathlib.Logic.Function.Basic

/-!
# Rings of slots and the buffers in them

A ring is a function from slot numbers below `n`; who walks through it goes from slot `i` to `(i + 1) % n`.  From
a slot on it is a list of `n` slots, and operations at an index are operations of lists:

* `next`, `prev` — the neighbours of a slot; `free_slots` — how many slots there are from one on up to before another.
* `view` — the slots from `i` on, all of them once.
* `view_get`, `view_set` — reading and writing the slot behind a part of the list.
* `view_perm` — the list has the same slots from every index on.
* `view_split` — every slot has its place in the list.
* `view_drop` — the ring from a later slot on: the part in front goes to the end.

The buffers that were handed to a driver are in its hands (in the ring, or in the call it works at) or were freed:

* `Account` — each buffer is in one of these places, and was freed at most once.
-/

namespace RtemsLibbsd.BufferRing

open List

universe u

variable {δ : Type u} {n : Nat} {f : Nat → δ}

/-! ## Indices -/

def next (n i : Nat) : Nat := (i + 1) % n

def prev (n i : Nat) : Nat := (i + n - 1) % n

theorem next_slot (n t o : Nat) : next n ((t + o) % n) = (t + (o + 1)) % n := by
  rw [next, Nat.mod_add_mod, Nat.add_assoc]

theorem prev_slot (n t o : Nat) (hn : 0 < n) : prev n ((t + (o + 1)) % n) = (t + o) % n := by
  rw [prev, Nat.add_sub_assoc hn, Nat.mod_add_mod, show t + (o + 1) + (n - 1) = t + o + n by omega,
    Nat.add_mod_right]

/-- Between the slot `h` and the one in front of `t`, which is `m` slots before it. -/
theorem free_slots {t h m : Nat} (ht : t < n) (hh : h = (t + m) % n) (hm : m ≤ n - 1) :
    (t + n - h - 1) % n = n - 1 - m := by
  by_cases hlt : t + m < n
  · rw [Nat.mod_eq_of_lt hlt] at hh
    rw [hh, show t + n - (t + m) - 1 = n - 1 - m by omega, Nat.mod_eq_of_lt (by omega)]
  · rw [Nat.mod_eq_sub_mod (by omega), Nat.mod_eq_of_lt (by omega)] at hh
    rw [hh, show t + n - (t + m - n) - 1 = n - 1 - m + n by omega, Nat.add_mod_right, Nat.mod_eq_of_lt (by omega)]

/-! ## The slots of a ring -/

/-- The slots from `i` on. -/
def view (n : Nat) (f : Nat → δ) (i : Nat) : List δ := (List.range n).map fun o => f ((i + o) % n)

@[simp] theorem length_view (n : Nat) (f : Nat → δ) (i : Nat) : (view n f i).length = n := by
  rw [view, length_map, length_range]

theorem getElem?_view {i o : Nat} (h : o < n) : (view n f i)[o]? = some (f ((i + o) % n)) := by
  rw [view, getElem?_map, getElem?_range h]
  rfl

theorem slot_inj {i o p : Nat} (ho : o < n) (hp : p < n) (h : (i + o) % n = (i + p) % n) : o = p := by
  have := Nat.ModEq.add_left_cancel' i h
  rwa [Nat.ModEq, Nat.mod_eq_of_lt ho, Nat.mod_eq_of_lt hp] at this

variable {i : Nat}

theorem length_le_of_view {xs ys : List δ} (h : view n f i = xs ++ ys) : xs.length + ys.length = n := by
  simp [← length_append, ← h]

theorem view_get {d : δ} {xs ys : List δ} (h : view n f i = xs ++ d :: ys) :
    f ((i + xs.length) % n) = d := by
  have hlen := length_le_of_view h
  rw [length_cons] at hlen
  have hget : (view n f i)[xs.length]? = some (f ((i + xs.length) % n)) := getElem?_view (by omega)
  rw [h, getElem?_append_right (Nat.le_refl _), Nat.sub_self] at hget
  exact (Option.some.inj hget).symm

theorem view_set {d e : δ} {xs ys : List δ} (h : view n f i = xs ++ d :: ys) :
    view n (Function.update f ((i + xs.length) % n) e) i = xs ++ e :: ys := by
  have hlen := length_le_of_view h
  rw [length_cons] at hlen
  apply ext_getElem?
  intro o
  by_cases ho : o < n
  · have hold : (view n f i)[o]? = some (f ((i + o) % n)) := getElem?_view ho
    rw [getElem?_view ho]
    rw [h] at hold
    rcases Nat.lt_trichotomy o xs.length with hlt | heq | hgt
    · have hne : (i + o) % n ≠ (i + xs.length) % n := fun he => by
        have := slot_inj ho (by omega) he
        omega
      rw [Function.update_of_ne hne, getElem?_append_left hlt, ← hold, getElem?_append_left hlt]
    · subst heq
      rw [Function.update_self, getElem?_append_right (Nat.le_refl _), Nat.sub_self]
      rfl
    · have hne : (i + o) % n ≠ (i + xs.length) % n := fun he => by
        have := slot_inj ho (by omega) he
        omega
      grind
  · grind [length_view]

theorem view_drop {xs ys : List δ} (h : view n f i = xs ++ ys) :
    view n f ((i + xs.length) % n) = ys ++ xs := by
  have hlen := length_le_of_view h
  apply ext_getElem?
  intro o
  by_cases ho : o < n
  · rw [getElem?_view ho, Nat.mod_add_mod, Nat.add_assoc]
    by_cases hy : o < ys.length
    · have hold : (view n f i)[xs.length + o]? = some (f ((i + (xs.length + o)) % n)) := getElem?_view (by omega)
      rw [h, getElem?_append_right (by omega), Nat.add_sub_cancel_left] at hold
      rw [getElem?_append_left hy, hold]
    · have hold : (view n f i)[o - ys.length]? = some (f ((i + (o - ys.length)) % n)) := getElem?_view (by omega)
      rw [h, getElem?_append_left (by omega)] at hold
      have hmod : (i + (xs.length + o)) % n = (i + (o - ys.length)) % n := by
        simp [show i + (xs.length + o) = i + (o - ys.length) + n by omega]
      rw [getElem?_append_right (by omega), hold, hmod]
  · grind [length_view]

theorem view_perm (hi : i ≤ n) : (view n f 0).Perm (view n f i) := by
  obtain ⟨xs, ys, hsplit, hlen⟩ : ∃ xs ys, view n f 0 = xs ++ ys ∧ xs.length = i :=
    ⟨(view n f 0).take i, (view n f 0).drop i, (take_append_drop i _).symm, by
      simp [Nat.min_eq_left hi]⟩
  have hdrop := view_drop hsplit
  have hview : view n f ((0 + xs.length) % n) = view n f i := by
    refine map_congr_left fun o _ => ?_
    simp [hlen]
  rw [← hview, hdrop, hsplit]
  exact perm_append_comm

theorem view_map {ε : Type u} (g : δ → ε) (i : Nat) : view n (fun idx => g (f idx)) i = (view n f i).map g := by
  rw [view, view, map_map]
  rfl

theorem view_split {i idx : Nat} (hi : i < n) (hidx : idx < n) :
    ∃ pre post, view n f i = pre ++ f idx :: post ∧ idx = (i + pre.length) % n := by
  obtain ⟨o, ho, heq⟩ : ∃ o < n, (i + o) % n = idx := by
    by_cases hle : i ≤ idx
    · refine ⟨idx - i, by omega, ?_⟩
      rw [Nat.add_sub_cancel' hle, Nat.mod_eq_of_lt hidx]
    · refine ⟨idx + n - i, by omega, ?_⟩
      simp [show i + (idx + n - i) = idx + n by omega, Nat.mod_eq_of_lt hidx]
  have hlt : o < (view n f i).length := by rwa [length_view]
  have hget : (view n f i)[o] = f idx := by
    have := getElem?_eq_getElem hlt
    rw [getElem?_view ho, heq] at this
    exact (Option.some.inj this).symm
  refine ⟨(view n f i).take o, (view n f i).drop (o + 1), ?_, ?_⟩
  · simp [← hget]
  · simp [Nat.min_eq_left (Nat.le_of_lt ho), heq]

/-! ## Accounts -/

/-- `given` are the buffers that were handed over, `live` those that still are in the driver's hands. -/
structure Account {β : Type u} [DecidableEq β] (given freed live : List β) : Prop where
  nodup : live.Nodup
  sub : ∀ b ∈ live, b ∈ given
  /-- A buffer that was handed over is in the driver's hands or was freed exactly once. -/
  count : ∀ b, freed.count b = if b ∈ given ∧ b ∉ live then 1 else 0

section Account

variable {β : Type u} [DecidableEq β] {given freed xs ys : List β} {b : β}

theorem Account.empty : Account ([] : List β) [] [] := ⟨nodup_nil, nofun, fun _ => rfl⟩

theorem Account.give (h : Account given freed (xs ++ ys)) (hb : b ∉ given) :
    Account (b :: given) freed (xs ++ b :: ys) := by
  have hlive : b ∉ xs ++ ys := fun hm => hb (h.sub b hm)
  refine ⟨?_, ?_, ?_⟩
  · rw [nodup_middle]
    exact nodup_cons.mpr ⟨hlive, h.nodup⟩
  · intro c hc
    rcases mem_append.mp hc with hc | hc
    · exact mem_cons_of_mem _ (h.sub c (mem_append_left _ hc))
    · rcases mem_cons.mp hc with rfl | hc
      · exact mem_cons_self
      · exact mem_cons_of_mem _ (h.sub c (mem_append_right _ hc))
  · intro c
    rw [h.count c]
    by_cases hcb : c = b
    · subst hcb
      simp [hb]
    · simp [hcb]

theorem Account.free (h : Account given freed (xs ++ b :: ys)) : Account given (freed ++ [b]) (xs ++ ys) := by
  obtain ⟨hlive, hnodup⟩ := nodup_cons.mp (nodup_middle.mp h.nodup)
  refine ⟨hnodup, ?_, ?_⟩
  · intro c hc
    grind [h.sub]
  · intro c
    grind [h.sub, h.count]

theorem Account.freeAll (h : Account given freed xs) (hp : ys.Perm xs) : Account given (freed ++ ys) [] := by
  refine ⟨nodup_nil, nofun, fun c => ?_⟩
  grind [h.count, h.nodup, h.sub]

theorem Account.giveAll (h : Account given freed []) (hn : xs.Nodup) (hx : ∀ b ∈ xs, b ∉ given) :
    Account (xs ++ given) freed xs := by
  refine ⟨hn, fun b hb => mem_append_left _ hb, fun b => ?_⟩
  rw [h.count b]
  by_cases hb : b ∈ xs
  · simp [hb, hx b hb]
  · simp [hb]

theorem Account.perm (h : Account given freed xs) (hp : xs.Perm ys) : Account given freed ys := by
  refine ⟨hp.nodup_iff.mp h.nodup, fun b hb => h.sub b (hp.mem_iff.mpr hb), fun b => ?_⟩
  simp only [h.count b, hp.mem_iff]

theorem Account.freeList {zs : List β} (h : Account given freed (zs ++ ys)) :
    Account given (freed ++ zs) ys := by
  induction zs generalizing freed with
  | nil => rwa [append_nil]
  | cons b zs ih =>
    have hhead : Account given freed ([] ++ b :: (zs ++ ys)) := h
    rw [append_cons]
    exact ih hhead.free

theorem Account.giveList {zs : List β} (h : Account given freed ys) (hn : zs.Nodup)
    (hz : ∀ b ∈ zs, b ∉ given) : Account (zs ++ given) freed (zs ++ ys) := by
  induction zs with
  | nil => exact h
  | cons b zs ih =>
    obtain ⟨hb, hn⟩ := nodup_cons.mp hn
    obtain ⟨hbg, hz⟩ := forall_mem_cons.mp hz
    have hnew : b ∉ zs ++ given := fun hm => (mem_append.mp hm).elim hb hbg
    have htail : Account (zs ++ given) freed ([] ++ (zs ++ ys)) := ih hn hz
    exact htail.give hnew

theorem Account.count_le_one (h : Account given freed xs) (b : β) : freed.count b ≤ 1 := by
  rw [h.count b]
  split <;> omega

end Account

end RtemsLibbsd.BufferRing
