import Mathlib.Data.List.Basic
import Mathlib.Data.Tree.Basic

/-!
# Search trees with a comparison of their own

* `inorder` — the nodes of a tree in order.
* `Cuts` — the results of a comparison along a list: first the nodes before the place, then the equal ones.
* `Primitives` — search, insertion and extraction, which may rebalance the tree as they like.  A search finds an
  equal node if there is one, whatever the tree looks like.
* `descend`, `insertLeaf` — the primitives without rebalancing.
-/

namespace RtemsLibbsd.SearchTree

open List

variable {α : Type*}

def inorder : BinaryTree α → List α
  | .nil => []
  | .node x l r => inorder l ++ x :: inorder r

/-- The search compares with the node and goes to one side, up to the first node that is equal. -/
def descend (cmp : α → Ordering) : BinaryTree α → Option α
  | .nil => none
  | .node x l r =>
    match cmp x with
    | .lt => descend cmp l
    | .eq => some x
    | .gt => descend cmp r

def Cuts (cmp : α → Ordering) (xs : List α) : Prop :=
  xs.Pairwise fun x y => (cmp x = .lt → cmp y = .lt) ∧ (cmp y = .gt → cmp x = .gt)

theorem descend_some {cmp : α → Ordering} {t : BinaryTree α} {x : α} (h : descend cmp t = some x) :
    x ∈ inorder t ∧ cmp x = .eq := by
  induction t with
  | nil => cases h
  | node y l r ihl ihr =>
    rw [descend] at h
    rw [inorder, mem_append, mem_cons]
    split at h
    · exact ⟨.inl (ihl h).1, (ihl h).2⟩
    · rename_i hy
      cases h
      exact ⟨.inr (.inl rfl), hy⟩
    · exact ⟨.inr (.inr (ihr h).1), (ihr h).2⟩

/-- **No node is equal if the search ends without one**. -/
theorem descend_none {cmp : α → Ordering} {t : BinaryTree α} (hc : Cuts cmp (inorder t)) (h : descend cmp t = none) :
    ∀ x ∈ inorder t, cmp x ≠ .eq := by
  induction t with
  | nil => exact fun x hx => absurd hx not_mem_nil
  | node y l r ihl ihr =>
    rw [descend] at h
    rw [Cuts, inorder, pairwise_append, pairwise_cons] at hc
    obtain ⟨hl, ⟨hyr, hr⟩, hlr⟩ := hc
    intro x hx
    rw [inorder, mem_append, mem_cons] at hx
    split at h
    · rename_i hy
      rcases hx with hx | rfl | hx
      · exact ihl hl h x hx
      · simp [hy]
      · simp [(hyr x hx).1 hy]
    · cases h
    · rename_i hy
      rcases hx with hx | rfl | hx
      · simp [(hlr x hx y mem_cons_self).2 hy]
      · simp [hy]
      · exact ihr hr h x hx

/-- A search ends at an equal node if there is one, insertion places a node that is equal to no other where the
comparison says, and extraction takes one away. -/
structure Primitives (α : Type*) [DecidableEq α] where
  find : (α → Ordering) → BinaryTree α → Option α
  insert : (α → α → Ordering) → α → BinaryTree α → BinaryTree α
  extract : α → BinaryTree α → BinaryTree α
  find_some : ∀ {cmp t x}, find cmp t = some x → x ∈ inorder t ∧ cmp x = .eq
  find_none : ∀ {cmp t}, Cuts cmp (inorder t) → find cmp t = none → ∀ x ∈ inorder t, cmp x ≠ .eq
  inorder_insert : ∀ cmp x t, Cuts (cmp x) (inorder t) → (∀ y ∈ inorder t, cmp x y ≠ .eq) → ∃ l r,
    inorder t = l ++ r ∧ inorder (insert cmp x t) = l ++ x :: r ∧
    (∀ y ∈ l, cmp x y = .gt) ∧ ∀ y ∈ r, cmp x y = .lt
  inorder_extract : ∀ x t, x ∈ inorder t → inorder (extract x t) = (inorder t).erase x

/-! ## Primitives without rebalancing -/

def insertLeaf (cmp : α → α → Ordering) (x : α) : BinaryTree α → BinaryTree α
  | .nil => .node x .nil .nil
  | .node y l r =>
    match cmp x y with
    | .lt => .node y (insertLeaf cmp x l) r
    | .eq => .node y l r
    | .gt => .node y l (insertLeaf cmp x r)

def ofList (xs : List α) : BinaryTree α := xs.foldr (fun x t => .node x .nil t) .nil

theorem inorder_ofList (xs : List α) : inorder (ofList xs) = xs := by
  induction xs with
  | nil => rfl
  | cons x xs ih => exact congrArg (x :: ·) ih

theorem inorder_insertLeaf (cmp : α → α → Ordering) (x : α) (t : BinaryTree α) (hc : Cuts (cmp x) (inorder t))
    (hne : ∀ y ∈ inorder t, cmp x y ≠ .eq) : ∃ l r, inorder t = l ++ r ∧
      inorder (insertLeaf cmp x t) = l ++ x :: r ∧ (∀ y ∈ l, cmp x y = .gt) ∧ ∀ y ∈ r, cmp x y = .lt := by
  induction t with
  | nil => exact ⟨[], [], rfl, rfl, by simp, by simp⟩
  | node y l r ihl ihr =>
    rw [Cuts, inorder, pairwise_append, pairwise_cons] at hc
    obtain ⟨hl, ⟨hyr, hr⟩, hlr⟩ := hc
    rw [inorder] at hne
    rw [insertLeaf, inorder]
    cases hy : cmp x y with
    | eq => exact absurd hy (hne y (by simp))
    | lt =>
      obtain ⟨a, b, hab, hins, ha, hb⟩ := ihl hl fun z hz => hne z (by simp [hz])
      refine ⟨a, b ++ y :: inorder r, by simp [hab], by simp [inorder, hins], ha, ?_⟩
      intro z hz
      rcases mem_append.mp hz with hz | hz
      · exact hb z hz
      · rcases mem_cons.mp hz with rfl | hz
        · exact hy
        · exact (hyr z hz).1 hy
    | gt =>
      obtain ⟨a, b, hab, hins, ha, hb⟩ := ihr hr fun z hz => hne z (by simp [hz])
      refine ⟨inorder l ++ y :: a, b, by simp [hab], by simp [inorder, hins], ?_, hb⟩
      intro z hz
      rcases mem_append.mp hz with hz | hz
      · exact (hlr z hz y mem_cons_self).2 hy
      · rcases mem_cons.mp hz with rfl | hz
        · exact hy
        · exact ha z hz

def leafPrimitives (α : Type*) [DecidableEq α] : Primitives α where
  find := descend
  insert := insertLeaf
  extract x t := ofList ((inorder t).erase x)
  find_some := descend_some
  find_none := descend_none
  inorder_insert := inorder_insertLeaf
  inorder_extract _ _ _ := inorder_ofList _

end RtemsLibbsd.SearchTree
