import RtemsLibbsd.Slist

/-!
# Doubly linked lists whose nodes know the link to them

Every node has the link to the next one and the address of the link that leads to it, which is the head of the list
or the link in the node before.

* `BackLinks.insertHead`, `BackLinks.remove` — the two operations, assignment by assignment.
* `BackLinks.touched` — the nodes that a removal reads or writes.
* `Threaded` — the nodes behind an address, with their addresses.
* `Threaded.insertHead`, `Threaded.remove` — what the operations do to the list.
-/

namespace RtemsLibbsd.DoublyLinked

open List Function RtemsLibbsd.Slist

universe u

variable {α : Type u}

/-- The links forward, and for each node the address of the link to it. -/
structure BackLinks (α : Type u) extends Links α where
  prev : α → Address α

namespace BackLinks

/-- The nodes that a removal of `x` reads or writes. -/
def touched (l : BackLinks α) (x : α) : List α :=
  match l.prev x with
  | .head => x :: (l.next x).toList
  | .link y => x :: y :: (l.next x).toList

variable [DecidableEq α]

def setLink (l : BackLinks α) (a : Address α) (q : Option α) : BackLinks α := { l with toLinks := l.toLinks.set a q }

def setPrev (l : BackLinks α) (q : Option α) (a : Address α) : BackLinks α :=
  match q with
  | none => l
  | some y => { l with prev := update l.prev y a }

def insertHead (l : BackLinks α) (x : α) : BackLinks α :=
  (((l.setLink (.link x) l.head).setPrev l.head (.link x)).setLink .head (some x)).setPrev (some x) .head

def remove (l : BackLinks α) (x : α) : BackLinks α :=
  (l.setPrev (l.next x) (l.prev x)).setLink (l.prev x) (l.next x)

end BackLinks

/-- The nodes behind the link at `a`, each with the address of the link to it. -/
def Threaded [DecidableEq α] (l : BackLinks α) : Address α → List α → Prop
  | a, [] => l.get a = none
  | a, x :: xs => l.get a = some x ∧ l.prev x = a ∧ Threaded l (.link x) xs

variable [DecidableEq α] {l m : BackLinks α} {a : Address α} {x y : α} {xs pre suf : List α}

theorem threaded_nil : Threaded l a [] ↔ l.get a = none := Iff.rfl

theorem get_set_self (a : Address α) (q : Option α) : (l.setLink a q).get a = q := by
  cases a with
  | head => rfl
  | link x => exact update_self ..

theorem get_set_of_ne {b : Address α} (h : b ≠ a) (q : Option α) : (l.setLink a q).get b = l.get b := by
  cases a with
  | head =>
    cases b with
    | head => exact absurd rfl h
    | link y => rfl
  | link x =>
    cases b with
    | head => rfl
    | link y => exact update_of_ne (fun he => h (congrArg Address.link he)) ..

theorem get_setPrev (q : Option α) (a b : Address α) : (l.setPrev q a).get b = l.get b := by
  cases q <;> rfl

theorem prev_setPrev_of_ne {q : Option α} (h : q ≠ some y) : (l.setPrev q a).prev y = l.prev y := by
  cases q with
  | none => rfl
  | some z => exact update_of_ne (fun he => h (congrArg some he.symm)) ..

theorem prev_setPrev_self : (l.setPrev (some y) a).prev y = a := update_self ..

namespace Threaded

theorem linked : Threaded l a xs → Linked l.next (l.get a) xs := by
  induction xs generalizing a with
  | nil => exact id
  | cons x xs ih => exact fun h => ⟨h.1, ih h.2.2⟩

theorem nodup (h : Threaded l a xs) : xs.Nodup := h.linked.nodup

theorem get_eq_head? (h : Threaded l a xs) : l.get a = xs.head? := by
  cases xs with
  | nil => exact h
  | cons x xs => exact h.1

theorem behind (h : Threaded l a (pre ++ x :: suf)) : Threaded l (.link x) suf := by
  induction pre generalizing a with
  | nil => exact h.2.2
  | cons y pre ih => exact ih h.2.2

theorem prev_eq (h : Threaded l a (pre ++ x :: suf)) :
    l.prev x = if pre = [] then a else lastAddress pre := by
  rcases eq_nil_or_concat' pre with rfl | ⟨ys, y, rfl⟩
  · exact h.2.1
  · rw [if_neg (by simp), lastAddress_concat]
    rw [append_assoc] at h
    exact h.behind.2.1

theorem congr (h : Threaded l a xs) (hget : m.get a = l.get a) (hnext : ∀ y ∈ xs, m.next y = l.next y)
    (hprev : ∀ y ∈ xs, m.prev y = l.prev y) : Threaded m a xs := by
  induction xs generalizing a with
  | nil => exact hget.trans h
  | cons y ys ih =>
    refine ⟨hget.trans h.1, (hprev y mem_cons_self).trans h.2.1, ?_⟩
    exact ih h.2.2 (hnext y mem_cons_self) (fun z hz => hnext z (mem_cons_of_mem y hz))
      fun z hz => hprev z (mem_cons_of_mem y hz)

theorem insertHead (h : Threaded l .head xs) (hx : x ∉ xs) : Threaded (l.insertHead x) .head (x :: xs) := by
  have hhead : l.head = xs.head? := h.get_eq_head?
  refine ⟨rfl, prev_setPrev_self, ?_⟩
  cases xs with
  | nil =>
    rw [threaded_nil, BackLinks.insertHead, get_setPrev, get_set_of_ne (by simp), get_setPrev, get_set_self]
    exact hhead
  | cons y ys =>
    obtain ⟨hxy, hys⟩ := not_or.mp (fun hm => hx (mem_cons.mpr hm))
    have hy : y ∉ ys := (nodup_cons.mp h.nodup).1
    have hnext : ∀ z ≠ x, (l.insertHead x).next z = l.next z := by
      intro z hz
      show (l.insertHead x).get (.link z) = l.get (.link z)
      rw [BackLinks.insertHead, get_setPrev, get_set_of_ne (by simp), get_setPrev, get_set_of_ne (by simpa using hz)]
    refine ⟨?_, ?_, ?_⟩
    · rw [BackLinks.insertHead, get_setPrev, get_set_of_ne (by simp), get_setPrev, get_set_self]
      exact hhead
    · rw [BackLinks.insertHead, prev_setPrev_of_ne (by simpa using hxy)]
      show (BackLinks.setPrev _ l.head (.link x)).prev y = .link x
      rw [hhead]
      exact prev_setPrev_self
    · refine h.2.2.congr (hnext y (Ne.symm hxy)) (fun z hz => hnext z ?_) fun z hz => ?_
      · exact fun he => hys (he ▸ hz)
      · have hzx : x ≠ z := fun he => hys (he ▸ hz)
        have hzy : y ≠ z := fun he => hy (he ▸ hz)
        rw [BackLinks.insertHead, prev_setPrev_of_ne (by simpa using hzx)]
        show (BackLinks.setPrev _ l.head (.link x)).prev z = l.prev z
        rw [hhead, prev_setPrev_of_ne (by simpa using hzy)]
        rfl

theorem remove_first (h : Threaded l a (x :: xs)) (ha : ∀ y ∈ x :: xs, a ≠ .link y) :
    Threaded (l.remove x) a xs := by
  obtain ⟨-, hprev, htail⟩ := h
  have hnext : l.next x = xs.head? := htail.get_eq_head?
  rw [BackLinks.remove, hprev, hnext]
  cases xs with
  | nil => exact get_set_self a none
  | cons y ys =>
    have hy : y ∉ ys := (nodup_cons.mp htail.nodup).1
    have hget : ∀ z ∈ y :: ys, ((l.setPrev (some y) a).setLink a (some y)).next z = l.next z := by
      intro z hz
      show Links.get _ (.link z) = l.get (.link z)
      rw [get_set_of_ne (Ne.symm (ha z (mem_cons_of_mem x hz))), get_setPrev]
    refine ⟨get_set_self a _, prev_setPrev_self, ?_⟩
    refine htail.2.2.congr (hget y mem_cons_self) (fun z hz => hget z (mem_cons_of_mem y hz)) fun z hz => ?_
    have hzy : some y ≠ some z := fun he => hy (Option.some.inj he ▸ hz)
    exact prev_setPrev_of_ne hzy

theorem remove_split (h : Threaded l a (pre ++ x :: suf)) (ha : ∀ y ∈ pre ++ x :: suf, a ≠ .link y) :
    Threaded (l.remove x) a (pre ++ suf) := by
  induction pre generalizing a with
  | nil => exact h.remove_first ha
  | cons z pre ih =>
    obtain ⟨hz, hnodup⟩ := nodup_cons.mp h.nodup
    have hprev : l.prev x ≠ a := by
      rw [h.prev_eq, if_neg (cons_ne_nil z pre)]
      rcases eq_nil_or_concat' (z :: pre) with he | ⟨ws, w, he⟩
      · exact absurd he (cons_ne_nil z pre)
      · rw [he, lastAddress_concat]
        grind
    have hnext : l.next x ≠ some z := by
      rw [show l.next x = suf.head? from h.behind.get_eq_head?]
      exact fun he => hz (mem_append_right _ (mem_cons_of_mem x (mem_of_mem_head? he)))
    refine ⟨?_, ?_, ih h.2.2 fun y hy he => ?_⟩
    · rw [BackLinks.remove, get_set_of_ne (Ne.symm hprev), get_setPrev]
      exact h.1
    · exact (prev_setPrev_of_ne hnext).trans h.2.1
    · exact hz (Address.link.inj he ▸ hy)

/-- **A node of the list is taken out.** -/
theorem remove (h : Threaded l .head (pre ++ x :: suf)) : Threaded (l.remove x) .head (pre ++ suf) :=
  h.remove_split fun _ _ => by simp

theorem touched_eq (h : Threaded l .head (pre ++ x :: suf)) :
    l.touched x = x :: (pre.getLast?.toList ++ suf.head?.toList) := by
  have hnext : l.next x = suf.head? := h.behind.get_eq_head?
  have hprev := h.prev_eq
  rcases eq_nil_or_concat' pre with rfl | ⟨ys, y, rfl⟩
  · simp [BackLinks.touched, hprev, hnext]
  · simp [BackLinks.touched, hprev, hnext]

end Threaded

end RtemsLibbsd.DoublyLinked
