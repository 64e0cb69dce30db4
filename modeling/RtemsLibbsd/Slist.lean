import Mathlib.Data.List.Nodup
import Mathlib.Logic.Function.Basic

/-!
# Singly linked lists in memory

A list is a first node and a link in every node.  `Linked next p xs` says that the nodes reached from
`p` are `xs`, in order, and that the last one has no link.

* `linked_none`, `linked_some` — the two ways a walk through the list goes on.
* `Linked.congr`, `Linked.update` — writing a node that is not in the list.
* `Linked.unique`, `Linked.nodup` — the nodes are determined, and no node occurs twice.
* `nodes` — the nodes of a list that is not longer than a number.

The address of a link is a value as well, `Address`: a pointer to the pointer to the next node.

* `Links` — the first link and the links of the nodes, read and written by their addresses.
* `Links.append` — a list is extended at the address of its last link.
* `Links.unlink` — the first node is taken off.
-/

namespace RtemsLibbsd.Slist

open List

universe u

variable {α : Type u}

/-- The nodes of the list that starts at `p`. -/
def Linked (next : α → Option α) : Option α → List α → Prop
  | p, [] => p = none
  | p, x :: xs => p = some x ∧ Linked next (next x) xs

variable {next next' : α → Option α} {p : Option α} {x : α} {xs ys : List α}

theorem linked_none : Linked next none xs ↔ xs = [] := by
  cases xs <;> simp [Linked]

theorem linked_some : Linked next (some x) xs ↔ ∃ ys, xs = x :: ys ∧ Linked next (next x) ys := by
  cases xs with
  | nil => simp [Linked]
  | cons y ys =>
    simp only [Linked, Option.some.injEq, List.cons.injEq]
    grind

theorem Linked.congr (h : Linked next p xs) (hnext : ∀ x ∈ xs, next' x = next x) : Linked next' p xs := by
  induction xs generalizing p with
  | nil => exact h
  | cons x xs ih =>
    grind [Linked]

theorem Linked.update [DecidableEq α] {q : Option α} (h : Linked next p xs) (hx : x ∉ xs) :
    Linked (Function.update next x q) p xs :=
  h.congr fun y hy => Function.update_of_ne (fun he : y = x => hx (he ▸ hy)) _ _

theorem Linked.unique (h : Linked next p xs) (h' : Linked next p ys) : xs = ys := by
  induction xs generalizing p ys with
  | nil =>
    cases ys with
    | nil => rfl
    | cons y ys => exact absurd (h.symm.trans h'.1) (by simp)
  | cons x xs ih =>
    cases ys with
    | nil => exact absurd (h'.symm.trans h.1) (by simp)
    | cons y ys =>
      grind [Linked]

theorem Linked.suffix (h : Linked next p (xs ++ x :: ys)) : Linked next (some x) (x :: ys) := by
  induction xs generalizing p with
  | nil => exact ⟨rfl, h.2⟩
  | cons y xs ih => exact ih h.2

theorem Linked.nodup (h : Linked next p xs) : xs.Nodup := by
  induction xs generalizing p with
  | nil => exact nodup_nil
  | cons x xs ih =>
    refine nodup_cons.mpr ⟨fun hx => ?_, ih h.2⟩
    obtain ⟨before, after, rfl⟩ := append_of_mem hx
    have heq := (h.1 ▸ h : Linked next (some x) _).unique (h.2.suffix)
    have hlen := congrArg List.length heq
    simp only [length_cons, length_append] at hlen
    omega

/-- The nodes from `p` on, `n` of them at most. -/
def nodes (next : α → Option α) : Nat → Option α → List α
  | 0, _ => []
  | _ + 1, none => []
  | n + 1, some x => x :: nodes next n (next x)

theorem Linked.nodes_eq {n : Nat} (h : Linked next p xs) (hn : xs.length ≤ n) : nodes next n p = xs := by
  induction xs generalizing p n with
  | nil =>
    obtain rfl : p = none := h
    cases n <;> rfl
  | cons x xs ih =>
    obtain ⟨rfl, h⟩ := h
    rw [length_cons] at hn
    obtain ⟨m, rfl⟩ : ∃ m, n = m + 1 := ⟨n - 1, by omega⟩
    rw [nodes, ih h (by omega)]

/-! ## Addresses of links -/

/-- The address of a link: of the first one, or of the one in a node. -/
inductive Address (α : Type u) where
  | head
  | link (x : α)

structure Links (α : Type u) where
  head : Option α
  next : α → Option α

namespace Links

variable [DecidableEq α] {l : Links α}

def get (l : Links α) : Address α → Option α
  | .head => l.head
  | .link x => l.next x

def set (l : Links α) (p : Address α) (q : Option α) : Links α :=
  match p with
  | .head => { l with head := q }
  | .link x => { l with next := Function.update l.next x q }

end Links

def lastAddress (xs : List α) : Address α :=
  match xs.getLast? with
  | none => .head
  | some x => .link x

@[simp] theorem lastAddress_nil : lastAddress ([] : List α) = .head := rfl

@[simp] theorem lastAddress_concat (xs : List α) (x : α) : lastAddress (xs ++ [x]) = .link x := by
  rw [lastAddress, getLast?_concat]

theorem lastAddress_eq_head : lastAddress xs = .head ↔ xs = [] := by
  rcases eq_nil_or_concat' xs with rfl | ⟨ys, y, rfl⟩
  · simp
  · simp

theorem Linked.concat [DecidableEq α] {y m : α} (h : Linked next p (ys ++ [y])) (hm : m ∉ ys ++ [y]) :
    Linked (Function.update (Function.update next y (some m)) m none) p (ys ++ [y] ++ [m]) := by
  have hnodup := h.nodup
  induction ys generalizing p with
  | nil =>
    grind [Linked]
  | cons z ys ih =>
    rw [cons_append, mem_cons, not_or] at hm
    obtain ⟨hz, hnodup⟩ := nodup_cons.mp hnodup
    have hzy : z ≠ y := fun he => hz (by rw [he]; exact mem_append_right _ mem_cons_self)
    refine ⟨h.1, ?_⟩
    rw [Function.update_of_ne (Ne.symm hm.1), Function.update_of_ne hzy]
    exact ih h.2 hm.2 hnodup

theorem Links.append [DecidableEq α] {l : Links α} {m : α} (h : Linked l.next l.head xs) (hm : m ∉ xs) :
    Linked ((l.set (lastAddress xs) (some m)).set (.link m) none).next
      ((l.set (lastAddress xs) (some m)).set (.link m) none).head (xs ++ [m]) := by
  rcases eq_nil_or_concat' xs with rfl | ⟨ys, y, rfl⟩
  · refine ⟨rfl, ?_⟩
    show Function.update l.next m none m = none
    simp
  · rw [lastAddress_concat]
    exact h.concat hm

theorem Links.unlink [DecidableEq α] {l : Links α} {m : α} (h : Linked l.next l.head (m :: xs)) :
    Linked ((l.set .head (l.next m)).set (.link m) none).next
      ((l.set .head (l.next m)).set (.link m) none).head xs :=
  Linked.update h.2 (nodup_cons.mp h.nodup).1

end RtemsLibbsd.Slist
