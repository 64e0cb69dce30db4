import Mathlib.Data.List.Nodup

/-!
# Chains

Doubly linked chains of nodes as lists.  A node is known by its key; keys in a chain are different.

* `extract`, `insert`, `previous` — the operations, as `rtems_chain_extract`, `rtems_chain_insert` and
  `rtems_chain_previous` do them; the first node has no previous one (its previous node is the head
  of the chain).
* `extract_split`, `insert_split`, `previous_split` — what they do at a node, in terms of the nodes
  before and after it.
-/

namespace RtemsLibbsd.Chain

open List

universe u v

variable {α : Type u} {κ : Type v} [DecidableEq κ] (key : α → κ)

def extract (chain : List α) (k : κ) : List α := chain.filter fun x => key x ≠ k

def insert (chain : List α) (k : κ) (new : α) : List α :=
  match chain with
  | [] => []
  | x :: rest => if key x = k then x :: new :: rest else x :: insert rest k new

def previous (chain : List α) (k : κ) : Option κ :=
  match chain with
  | [] => none
  | x :: rest => (rest.head?.bind fun y => if key y = k then some (key x) else none).or (previous rest k)

variable {key} {chain l₁ l₂ : List α} {x new : α}

def Distinct (key : α → κ) (chain : List α) : Prop := (chain.map key).Nodup

omit [DecidableEq κ] in
theorem Distinct.split (h : Distinct key (l₁ ++ x :: l₂)) : key x ∉ l₁.map key ∧ key x ∉ l₂.map key := by
  unfold Distinct at h
  rw [map_append, map_cons, nodup_middle, nodup_cons] at h
  simpa [not_or] using h.1

theorem extract_of_not_mem {k : κ} (h : k ∉ chain.map key) : extract key chain k = chain := by
  unfold extract
  rw [filter_eq_self]
  intro y hy
  have hne : key y ≠ k := by
    rintro rfl
    exact h (mem_map_of_mem hy)
  exact decide_eq_true hne

theorem extract_split (h : key x ∉ (l₁ ++ l₂).map key) : extract key (l₁ ++ x :: l₂) (key x) = l₁ ++ l₂ := by
  rw [← extract_of_not_mem h]
  simp [extract]

theorem insert_split (h : key x ∉ l₁.map key) :
    insert key (l₁ ++ x :: l₂) (key x) new = l₁ ++ x :: new :: l₂ := by
  induction l₁ with
  | nil => simp [insert]
  | cons y l₁ ih =>
    simp only [map_cons, mem_cons, not_or] at h
    simp only [cons_append, insert, if_neg (Ne.symm h.1), ih h.2]

theorem previous_of_not_mem {k : κ} (h : k ∉ chain.map key) : previous key chain k = none := by
  induction chain with
  | nil => rfl
  | cons y chain ih =>
    simp only [map_cons, mem_cons, not_or] at h
    rw [previous, ih h.2]
    cases chain with
    | nil => rfl
    | cons z chain =>
      simp only [map_cons, mem_cons, not_or] at h
      simp [Ne.symm h.2.1]

theorem previous_split (h : Distinct key (l₁ ++ x :: l₂)) :
    previous key (l₁ ++ x :: l₂) (key x) = l₁.getLast?.map key := by
  obtain ⟨h₁, h₂⟩ := h.split
  clear h
  induction l₁ with
  | nil =>
    simp only [nil_append, previous, previous_of_not_mem h₂]
    cases l₂ with
    | nil => rfl
    | cons y l₂ =>
      simp only [map_cons, mem_cons, not_or] at h₂
      simp [Ne.symm h₂.1]
  | cons y l₁ ih =>
    simp only [map_cons, mem_cons, not_or] at h₁
    rw [cons_append, previous, ih h₁.2]
    cases l₁ with
    | nil => simp
    | cons z l₁ =>
      simp only [map_cons, mem_cons, not_or] at h₁
      simp [Ne.symm h₁.2.1]

theorem mem_of_previous {k : κ} (hd : Distinct key chain) (hx : x ∈ chain)
    (h : previous key chain (key x) = some k) : ∃ y ∈ chain, key y = k ∧ key y ≠ key x := by
  obtain ⟨l₁, l₂, rfl⟩ := append_of_mem hx
  rw [previous_split hd] at h
  obtain ⟨y, hy, rfl⟩ := Option.map_eq_some_iff.mp h
  have hmem := mem_of_getLast? hy
  refine ⟨y, mem_append_left _ hmem, rfl, ?_⟩
  intro heq
  exact hd.split.1 (heq ▸ mem_map_of_mem hmem)

theorem insert_behind (h : Distinct key (l₁ ++ l₂)) :
    (l₁.getLast?.map key).elim (new :: (l₁ ++ l₂)) (fun k => insert key (l₁ ++ l₂) k new) =
      l₁ ++ new :: l₂ := by
  rcases eq_nil_or_concat' l₁ with rfl | ⟨l, y, rfl⟩
  · rfl
  · rw [append_assoc] at h
    have hy := Distinct.split h
    simp [insert_split hy.1]

theorem split_unique {l₁' l₂' : List α} {new' : α} (h : l₁ ++ l₂ = l₁' ++ l₂')
    (hnew : key new ∉ (l₁ ++ l₂).map key) (hnew' : key new' ∉ (l₁ ++ l₂).map key)
    (heq : l₁ ++ new :: l₂ = l₁' ++ new' :: l₂') : l₁ = l₁' ∧ new = new' ∧ l₂ = l₂' := by
  have hpart : ∀ {m₁ m₂ : List α} {y : α}, key y ∉ (l₁ ++ l₂).map key → (∀ x ∈ m₁, x ∈ l₁ ++ l₂) →
      (m₁ ++ y :: m₂).takeWhile (fun x => decide (key x ∈ (l₁ ++ l₂).map key)) = m₁ := by
    intro m₁ m₂ y hy hm
    rw [takeWhile_append_of_pos fun x hx => decide_eq_true (mem_map_of_mem (hm x hx)),
      takeWhile_cons_of_neg (by simpa using hy), append_nil]
  have h₁ : l₁ = l₁' := by
    grind
  subst h₁
  have := append_cancel_left heq
  simp only [List.cons.injEq] at this
  exact ⟨rfl, this⟩

end RtemsLibbsd.Chain
