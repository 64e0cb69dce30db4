import Mathlib.Data.List.Nodup
import RtemsLibbsd.Sleepqueue.Model

/-!
# The sleepqueue objects

Every sleepqueue object is owned by a thread, attached to a wait channel or on the free list of the
object attached to a wait channel.

* `Place` and `Placed` — where each object is, and that the lists agree with it.
* `Placed.lookup` — `sleepq_lookup` finds the attached object.
* `Placed.add` and `Placed.remove` — `sleepq_add` and `sleepq_remove_thread` keep the lists in
  order.
-/

namespace RtemsLibbsd.Sleepqueue

open List Function

inductive Place where
  | thread (t : Nat)
  | chain (w : Nat)
  | free (w : Nat)

structure Placed (qs : Queues) (place : Nat → Place) : Prop where
  chain : ∀ h o, o ∈ qs.chain h ↔ ∃ w, place o = .chain w ∧ scHash w = h
  chainNodup : ∀ h, (qs.chain h).Nodup
  wchan : ∀ o w, (qs.object o).wchan = some w ↔ place o = .chain w
  unique : ∀ o p w, place o = .chain w → place p = .chain w → o = p
  free : ∀ o w, place o = .chain w → ∀ p, p ∈ (qs.object o).free ↔ place p = .free w
  freeNodup : ∀ o, (qs.object o).free.Nodup
  attached : ∀ p w, place p = .free w → ∃ o, place o = .chain w
  thread : ∀ t o, (qs.link t).sleepqueue = some o ↔ place o = .thread t
  unused : ∀ o, (∀ w, place o ≠ .chain w) → (∀ q, (qs.object o).blocked q = []) ∧
    (qs.object o).free = []
  blocked : ∀ o w, place o = .chain w → ∀ q t, t ∈ (qs.object o).blocked q ↔
    (qs.link t).wchan = some w ∧ (qs.link t).sqqueue = q
  blockedNodup : ∀ o q, ((qs.object o).blocked q).Nodup
  count : ∀ o q, (qs.object o).blockedcnt q = ((qs.object o).blocked q).length
  queued : ∀ t w, (qs.link t).wchan = some w → ∃ o, place o = .chain w
  owner : ∀ t, (qs.link t).wchan = none ↔ (qs.link t).sleepqueue ≠ none
  size : ∀ o w, place o = .chain w → ((qs.object o).blocked 0).length +
    ((qs.object o).blocked 1).length = 1 + (qs.object o).free.length

section Insert

variable (priority : Nat → Nat) (t : Nat)

theorem insertBlocked_perm (l : List Nat) : (insertBlocked priority t l).Perm (t :: l) := by
  induction l with
  | nil => exact List.Perm.refl _
  | cons u us ih =>
    grind [insertBlocked]

@[simp] theorem mem_insertBlocked {l : List Nat} {u : Nat} :
    u ∈ insertBlocked priority t l ↔ u = t ∨ u ∈ l := by
  rw [(insertBlocked_perm priority t l).mem_iff]
  exact mem_cons

@[simp] theorem length_insertBlocked (l : List Nat) :
    (insertBlocked priority t l).length = l.length + 1 :=
  (insertBlocked_perm priority t l).length_eq

theorem nodup_insertBlocked {l : List Nat} (hl : l.Nodup) (ht : t ∉ l) :
    (insertBlocked priority t l).Nodup :=
  (insertBlocked_perm priority t l).nodup_iff.mpr (nodup_cons.mpr ⟨ht, hl⟩)

end Insert

section Lists

variable {qs : Queues} {place : Nat → Place}

/-- **`sleepq_lookup` finds the object attached to the wait channel.** -/
theorem Placed.lookup (h : Placed qs place) (w o : Nat) :
    qs.lookup w = some o ↔ place o = .chain w := by
  constructor
  · intro hfind
    have hw := find?_some hfind
    simp only [beq_iff_eq] at hw
    exact (h.wchan o w).mp hw
  · intro hplace
    have hmem : o ∈ qs.chain (scHash w) := (h.chain _ o).mpr ⟨w, hplace, rfl⟩
    cases hfind : qs.lookup w with
    | none =>
      have hno := find?_eq_none.mp hfind o hmem
      simp [(h.wchan o w).mpr hplace] at hno
    | some p =>
      have hw := find?_some hfind
      simp only [beq_iff_eq] at hw
      rw [h.unique p o w ((h.wchan p w).mp hw) hplace]

theorem Placed.lookup_none (h : Placed qs place) {w : Nat} (hnone : qs.lookup w = none) (o : Nat) :
    place o ≠ .chain w := by
  intro hplace
  rw [(h.lookup w o).mpr hplace] at hnone
  cases hnone

theorem Placed.not_blocked (h : Placed qs place) {t : Nat} (ht : (qs.link t).wchan = none) (o : Nat)
    (q : Fin NR_SLEEPQS) : t ∉ (qs.object o).blocked q := by
  intro hmem
  by_cases hplace : ∃ w, place o = .chain w
  · obtain ⟨w, hplace⟩ := hplace
    have := ((h.blocked o w hplace q t).mp hmem).1
    rw [ht] at this
    cases this
  · rw [(h.unused o (fun w hw => hplace ⟨w, hw⟩)).1 q] at hmem
    cases hmem

end Lists

section Operations

variable (qs : Queues) (priority : Nat → Nat) (t o p w r : Nat) (q i : Fin NR_SLEEPQS)

@[simp] theorem enqueue_blocked : ((qs.enqueue priority t p w q).object r).blocked i =
    if r = p ∧ i = q then insertBlocked priority t ((qs.object p).blocked q)
    else (qs.object r).blocked i := by
  by_cases hr : r = p
  · by_cases hi : i = q
    · simp [Queues.enqueue, Queues.setObject, Queues.setLink, hr, hi]
    · simp [Queues.enqueue, Queues.setObject, Queues.setLink, hr, hi]
  · simp [Queues.enqueue, Queues.setObject, Queues.setLink, hr]

@[simp] theorem enqueue_blockedcnt : ((qs.enqueue priority t p w q).object r).blockedcnt i =
    if r = p ∧ i = q then (qs.object p).blockedcnt q + 1 else (qs.object r).blockedcnt i := by
  by_cases hr : r = p
  · by_cases hi : i = q
    · simp [Queues.enqueue, Queues.setObject, Queues.setLink, hr, hi]
    · simp [Queues.enqueue, Queues.setObject, Queues.setLink, hr, hi]
  · simp [Queues.enqueue, Queues.setObject, Queues.setLink, hr]

@[simp] theorem enqueue_free :
    ((qs.enqueue priority t p w q).object r).free = (qs.object r).free := by
  by_cases hr : r = p
  · simp [Queues.enqueue, Queues.setObject, Queues.setLink, hr]
  · simp [Queues.enqueue, Queues.setObject, Queues.setLink, hr]

@[simp] theorem enqueue_wchan :
    ((qs.enqueue priority t p w q).object r).wchan = (qs.object r).wchan := by
  by_cases hr : r = p
  · simp [Queues.enqueue, Queues.setObject, Queues.setLink, hr]
  · simp [Queues.enqueue, Queues.setObject, Queues.setLink, hr]

@[simp] theorem enqueue_link : (qs.enqueue priority t p w q).link r =
    if r = t then ⟨none, some w, q⟩ else qs.link r :=
  update_apply _ _ _ _

@[simp] theorem enqueue_chain : (qs.enqueue priority t p w q).chain = qs.chain := by
  simp only [Queues.enqueue, Queues.setObject, Queues.setLink]

@[simp] theorem give_blocked : ((qs.give o w).1.object r).blocked = (qs.object r).blocked := by
  unfold Queues.give
  split
  · rcases eq_or_ne r o with rfl | hr
    · simp [Queues.setObject]
    · simp [Queues.setObject, hr]
  · rename_i p _
    rcases eq_or_ne r p with rfl | hr
    · simp [Queues.setObject]
    · simp [Queues.setObject, hr]

@[simp] theorem give_blockedcnt :
    ((qs.give o w).1.object r).blockedcnt = (qs.object r).blockedcnt := by
  unfold Queues.give
  split
  · rcases eq_or_ne r o with rfl | hr
    · simp [Queues.setObject]
    · simp [Queues.setObject, hr]
  · rename_i p _
    rcases eq_or_ne r p with rfl | hr
    · simp [Queues.setObject]
    · simp [Queues.setObject, hr]

@[simp] theorem give_link : (qs.give o w).1.link = qs.link := by
  unfold Queues.give
  split <;> rfl

end Operations

section Add

variable {qs : Queues} {place : Nat → Place} {t o : Nat}

theorem queue_cases : ∀ q : Fin NR_SLEEPQS, q = 0 ∨ q = 1 := by decide

theorem Placed.attach (h : Placed qs place) (hown : (qs.link t).sleepqueue = some o)
    {w : Nat} (hnone : qs.lookup w = none) (priority : Nat → Nat) (q : Fin NR_SLEEPQS) :
    Placed ((qs.give o w).1.enqueue priority t (qs.give o w).2 w q)
      (update place o (.chain w)) := by
  have hplace : place o = .thread t := (h.thread t o).mp hown
  have hoff : (qs.link t).wchan = none := (h.owner t).mpr (by simp [hown])
  have hnew := h.lookup_none hnone
  obtain ⟨hblocked, hfree⟩ := h.unused o (by simp [hplace])
  have hgive : qs.give o w = ({ qs.setObject o { qs.object o with wchan := some w } with
      chain := update qs.chain (scHash w) (o :: qs.chain (scHash w)) }, o) := by
    simp [Queues.give, hnone]
  have hfrees : ∀ p, ((qs.give o w).1.object p).free = (qs.object p).free := by
    intro p
    rw [hgive]
    rcases eq_or_ne p o with rfl | hp
    · simp [Queues.setObject]
    · simp [Queues.setObject, hp]
  have hwchan : ∀ p, ((qs.give o w).1.object p).wchan =
      if p = o then some w else (qs.object p).wchan := by
    intro p
    rw [hgive]
    rcases eq_or_ne p o with rfl | hp
    · simp [Queues.setObject]
    · simp [Queues.setObject, hp]
  have hchain : ∀ i, (qs.give o w).1.chain i =
      if i = scHash w then o :: qs.chain (scHash w) else qs.chain i := by
    intro i
    rw [hgive]
    exact update_apply _ _ _ _
  have htarget : (qs.give o w).2 = o := by rw [hgive]
  rw [htarget]
  have hnot : o ∉ qs.chain (scHash w) := by
    intro hm
    obtain ⟨v, hv, -⟩ := (h.chain _ o).mp hm
    rw [hplace] at hv
    cases hv
  refine ⟨?_, ?_, ?_, ?_, ?_, ?_, ?_, ?_, ?_, ?_, ?_, ?_, ?_, ?_, ?_⟩
  all_goals simp only [enqueue_blocked, enqueue_blockedcnt, enqueue_free, enqueue_wchan, enqueue_link,
    enqueue_chain, give_blocked, give_blockedcnt, give_link, hfrees, hwchan, hchain,
    update_apply, hblocked, insertBlocked]
  · have chain := h.chain
    grind
  · have chainNodup := h.chainNodup
    grind
  · have wchan := h.wchan
    grind
  · have unique := h.unique
    grind
  · have free := h.free
    have attached := h.attached
    grind
  · have freeNodup := h.freeNodup
    grind
  · have attached := h.attached
    grind
  · have thread := h.thread
    grind
  · have unused := h.unused
    grind
  · intro p v hp i u
    by_cases hpo : p = o
    · grind [h.queued]
    · rw [if_neg hpo] at hp
      have hold := h.blocked p v hp i u
      grind
  · have blockedNodup := h.blockedNodup
    grind
  · have count := h.count
    grind
  · have queued := h.queued
    grind
  · have owner := h.owner
    grind
  · intro p v hp
    obtain rfl | rfl : q = 0 ∨ q = 1 := queue_cases q
    · have size := h.size
      grind
    · have size := h.size
      grind

theorem Placed.join (h : Placed qs place) (hown : (qs.link t).sleepqueue = some o) {w p : Nat}
    (hsome : qs.lookup w = some p) (priority : Nat → Nat) (q : Fin NR_SLEEPQS) :
    Placed ((qs.give o w).1.enqueue priority t (qs.give o w).2 w q)
      (update place o (.free w)) := by
  have hplace : place o = .thread t := (h.thread t o).mp hown
  have hoff : (qs.link t).wchan = none := (h.owner t).mpr (by simp [hown])
  have hp : place p = .chain w := (h.lookup w p).mp hsome
  have hgive : qs.give o w =
      (qs.setObject p { qs.object p with free := o :: (qs.object p).free }, p) := by
    simp [Queues.give, hsome]
  have hfrees : ∀ r, ((qs.give o w).1.object r).free =
      if r = p then o :: (qs.object p).free else (qs.object r).free := by
    intro r
    rw [hgive]
    rcases eq_or_ne r p with rfl | hr
    · simp [Queues.setObject]
    · simp [Queues.setObject, hr]
  have hwchan : ∀ r, ((qs.give o w).1.object r).wchan = (qs.object r).wchan := by
    intro r
    rw [hgive]
    rcases eq_or_ne r p with rfl | hr
    · simp [Queues.setObject]
    · simp [Queues.setObject, hr]
  have hchain : (qs.give o w).1.chain = qs.chain := by rw [hgive]; rfl
  have htarget : (qs.give o w).2 = p := by rw [hgive]
  rw [htarget]
  have hfresh : ∀ i, t ∉ (qs.object p).blocked i := h.not_blocked hoff p
  have hnodup := nodup_insertBlocked priority t (h.blockedNodup p q) (hfresh q)
  refine ⟨?_, ?_, ?_, ?_, ?_, ?_, ?_, ?_, ?_, ?_, ?_, ?_, ?_, ?_, ?_⟩
  all_goals simp only [enqueue_blocked, enqueue_blockedcnt, enqueue_free, enqueue_wchan, enqueue_link,
    enqueue_chain, give_blocked, give_blockedcnt, give_link, hfrees, hwchan, hchain,
    update_apply]
  · grind [h.chain]
  · have chainNodup := h.chainNodup
    grind
  · have wchan := h.wchan
    grind
  · have unique := h.unique
    grind
  · have unique := h.unique
    have free := h.free
    grind
  · have free := h.free
    have freeNodup := h.freeNodup
    grind
  · have attached := h.attached
    grind
  · have thread := h.thread
    grind
  · have unused := h.unused
    grind
  · intro r v hr i u
    have hro : r ≠ o := by
      rintro rfl
      rw [if_pos rfl] at hr
      cases hr
    rw [if_neg hro] at hr
    have hold := h.blocked r v hr i u
    by_cases hrp : r = p
    · subst hrp
      rw [hp] at hr
      cases hr
      by_cases hu : u = t
      · by_cases hi : i = q
        · simp [hu, hi]
        · simp [hu, hi, hfresh i, Ne.symm hi]
      · by_cases hi : i = q
        · subst hi
          simp [hu, hold]
        · simp [hu, hi, hold]
    · have hne : w ≠ v := by
        rintro rfl
        exact hrp (h.unique r p w hr hp)
      grind
  · have blockedNodup := h.blockedNodup
    grind
  · have count := h.count
    grind [length_insertBlocked]
  · grind [h.queued]
  · have owner := h.owner
    grind
  · intro r v hr
    obtain rfl | rfl : q = 0 ∨ q = 1 := queue_cases q
    · have size := h.size
      grind [length_insertBlocked]
    · have size := h.size
      grind [length_insertBlocked]

end Add

section Remove

variable {qs : Queues} {place : Nat → Place} {t o w : Nat}

theorem dequeue_blocked (r : Nat) (i : Fin NR_SLEEPQS) : ((qs.dequeue o t).object r).blocked i =
    if r = o ∧ i = (qs.link t).sqqueue then ((qs.object o).blocked i).erase t
    else (qs.object r).blocked i := by
  by_cases hr : r = o
  · by_cases hi : i = (qs.link t).sqqueue
    · simp [Queues.dequeue, Queues.setObject, hr, hi]
    · simp [Queues.dequeue, Queues.setObject, hr, hi]
  · simp [Queues.dequeue, Queues.setObject, hr]

theorem dequeue_blockedcnt (r : Nat) (i : Fin NR_SLEEPQS) :
    ((qs.dequeue o t).object r).blockedcnt i =
      if r = o ∧ i = (qs.link t).sqqueue then (qs.object o).blockedcnt i - 1
      else (qs.object r).blockedcnt i := by
  by_cases hr : r = o
  · by_cases hi : i = (qs.link t).sqqueue
    · simp [Queues.dequeue, Queues.setObject, hr, hi]
    · simp [Queues.dequeue, Queues.setObject, hr, hi]
  · simp [Queues.dequeue, Queues.setObject, hr]

theorem dequeue_free (r : Nat) : ((qs.dequeue o t).object r).free = (qs.object r).free := by
  by_cases hr : r = o
  · simp [Queues.dequeue, Queues.setObject, hr]
  · simp [Queues.dequeue, Queues.setObject, hr]

theorem dequeue_wchan (r : Nat) : ((qs.dequeue o t).object r).wchan = (qs.object r).wchan := by
  by_cases hr : r = o
  · simp [Queues.dequeue, Queues.setObject, hr]
  · simp [Queues.dequeue, Queues.setObject, hr]

@[simp] theorem take_blocked (r : Nat) : ((qs.take o t).object r).blocked = (qs.object r).blocked := by
  unfold Queues.take
  dsimp only
  split
  · rcases eq_or_ne r o with rfl | hr
    · simp [Queues.setObject, Queues.setLink]
    · simp [Queues.setObject, Queues.setLink, hr]
  · rcases eq_or_ne r o with rfl | hr
    · simp [Queues.setObject, Queues.setLink]
    · simp [Queues.setObject, Queues.setLink, hr]

@[simp] theorem take_blockedcnt (r : Nat) :
    ((qs.take o t).object r).blockedcnt = (qs.object r).blockedcnt := by
  unfold Queues.take
  dsimp only
  split
  · rcases eq_or_ne r o with rfl | hr
    · simp [Queues.setObject, Queues.setLink]
    · simp [Queues.setObject, Queues.setLink, hr]
  · rcases eq_or_ne r o with rfl | hr
    · simp [Queues.setObject, Queues.setLink]
    · simp [Queues.setObject, Queues.setLink, hr]

theorem Placed.left (h : Placed qs place) (hplace : place o = .chain w)
    (hon : (qs.link t).wchan = some w) :
    (∀ i u, u ∈ ((qs.dequeue o t).object o).blocked i ↔ u ≠ t ∧ u ∈ (qs.object o).blocked i) ∧
    (((qs.dequeue o t).object o).blocked 0).length + (((qs.dequeue o t).object o).blocked 1).length =
      (qs.object o).free.length := by
  have hmem : t ∈ (qs.object o).blocked (qs.link t).sqqueue :=
    (h.blocked o w hplace _ t).mpr ⟨hon, rfl⟩
  refine ⟨?_, ?_⟩
  · intro i u
    rw [dequeue_blocked]
    by_cases hi : i = (qs.link t).sqqueue
    · rw [if_pos ⟨rfl, hi⟩, (h.blockedNodup o i).mem_erase_iff]
    · rw [if_neg fun hboth => hi hboth.2]
      refine ⟨?_, And.right⟩
      intro hu
      refine ⟨?_, hu⟩
      rintro rfl
      exact hi ((h.blocked o w hplace i u).mp hu).2.symm
  · grind [h.size, dequeue_blocked]

/-- What both ways of `sleepq_remove_thread` to find an object have in common. -/
theorem Placed.dequeued (h : Placed qs place) (hplace : place o = .chain w)
    (hon : (qs.link t).wchan = some w) : (∀ r i, (((qs.dequeue o t).object r).blocked i).Nodup) ∧
    ∀ r i, ((qs.dequeue o t).object r).blockedcnt i = (((qs.dequeue o t).object r).blocked i).length := by
  have hmem : t ∈ (qs.object o).blocked (qs.link t).sqqueue :=
    (h.blocked o w hplace _ t).mpr ⟨hon, rfl⟩
  grind [dequeue_blocked, h.blockedNodup, dequeue_blockedcnt, h.count]

theorem Placed.detach (h : Placed qs place) (hplace : place o = .chain w)
    (hon : (qs.link t).wchan = some w) (hfree : (qs.object o).free = []) :
    Placed ((qs.dequeue o t).take o t) (update place o (.thread t)) := by
  have hown : (qs.link t).sleepqueue = none := by
    by_contra hne
    rw [(h.owner t).mpr hne] at hon
    cases hon
  have hw : (qs.object o).wchan = some w := (h.wchan o w).mpr hplace
  have htake : (qs.dequeue o t).take o t =
      { ((qs.dequeue o t).setObject o { (qs.dequeue o t).object o with wchan := none }).setLink t
          ⟨some o, none, (qs.link t).sqqueue⟩ with
        chain := update qs.chain (scHash w) ((qs.chain (scHash w)).erase o) } := by
    unfold Queues.take
    simp only [dequeue_free, dequeue_wchan, hfree, hw, Option.getD_some]
    rfl
  have hfrees : ∀ r, (((qs.dequeue o t).take o t).object r).free = (qs.object r).free := by
    intro r
    rw [htake]
    rcases eq_or_ne r o with rfl | hr
    · simp [Queues.setLink, Queues.setObject, dequeue_free]
    · simp [Queues.setLink, Queues.setObject, dequeue_free, hr]
  have hwchan : ∀ r, (((qs.dequeue o t).take o t).object r).wchan =
      if r = o then none else (qs.object r).wchan := by
    intro r
    rw [htake]
    rcases eq_or_ne r o with rfl | hr
    · simp [Queues.setLink, Queues.setObject]
    · simp [Queues.setLink, Queues.setObject, dequeue_wchan, hr]
  have hlink : ∀ u, ((qs.dequeue o t).take o t).link u =
      if u = t then ⟨some o, none, (qs.link t).sqqueue⟩ else qs.link u := by
    intro u
    rw [htake]
    exact update_apply _ _ _ _
  have hchain : ∀ i, ((qs.dequeue o t).take o t).chain i =
      if i = scHash w then (qs.chain (scHash w)).erase o else qs.chain i := by
    intro i
    rw [htake]
    exact update_apply _ _ _ _
  obtain ⟨hleft, hlen⟩ := h.left hplace hon
  have hempty : ∀ i, ((qs.dequeue o t).object o).blocked i = [] := by
    rw [hfree, length_nil] at hlen
    intro i
    match i with
    | 0 => exact length_eq_zero_iff.mp (by omega)
    | 1 => exact length_eq_zero_iff.mp (by omega)
  have hother : ∀ r i, r ≠ o → ((qs.dequeue o t).object r).blocked i = (qs.object r).blocked i := by
    intro r i hr
    rw [dequeue_blocked, if_neg fun hboth => hr hboth.1]
  obtain ⟨hnodup, hcount⟩ := h.dequeued hplace hon
  -- no other thread waits for the channel
  have hlast : ∀ u ≠ t, (qs.link u).wchan ≠ some w := by
    intro u hu hwu
    have hin := (hleft (qs.link u).sqqueue u).mpr ⟨hu, (h.blocked o w hplace _ u).mpr ⟨hwu, rfl⟩⟩
    rw [hempty] at hin
    cases hin
  have hchainNodup := h.chainNodup
  have hlone : ∀ p, place p ≠ .free w := by
    intro p hp
    have := (h.free o w hplace p).mpr hp
    rw [hfree] at this
    cases this
  refine ⟨?_, ?_, ?_, ?_, ?_, ?_, ?_, ?_, ?_, ?_, ?_, ?_, ?_, ?_, ?_⟩
  all_goals simp only [take_blocked, take_blockedcnt, hfrees, hwchan, hlink, hchain,
    update_apply]
  · intro i p
    by_cases hi : i = scHash w
    · rw [if_pos hi, (h.chainNodup _).mem_erase_iff]
      have chain := h.chain
      have queued := h.queued
      grind
    · rw [if_neg hi]
      have chain := h.chain
      grind
  · intro i
    split
    · exact (h.chainNodup _).erase o
    · exact h.chainNodup i
  · have wchan := h.wchan
    grind
  · have unique := h.unique
    grind
  · have free := h.free
    grind
  · have freeNodup := h.freeNodup
    grind
  · have wchan := h.wchan
    have unique := h.unique
    have attached := h.attached
    have unused := h.unused
    have queued := h.queued
    have size := h.size
    grind
  · have thread := h.thread
    grind
  · have wchan := h.wchan
    have unique := h.unique
    have unused := h.unused
    have queued := h.queued
    have size := h.size
    grind
  · have wchan := h.wchan
    have unique := h.unique
    have blocked := h.blocked
    grind
  · exact hnodup
  · exact hcount
  · have wchan := h.wchan
    have unique := h.unique
    have unused := h.unused
    have queued := h.queued
    have size := h.size
    grind
  · have owner := h.owner
    grind
  · have size := h.size
    grind

theorem Placed.release (h : Placed qs place) (hplace : place o = .chain w)
    (hon : (qs.link t).wchan = some w) {p : Nat} {free : List Nat}
    (hfree : (qs.object o).free = p :: free) :
    Placed ((qs.dequeue o t).take o t) (update place p (.thread t)) := by
  have hown : (qs.link t).sleepqueue = none := by
    by_contra hne
    rw [(h.owner t).mpr hne] at hon
    cases hon
  have htake : (qs.dequeue o t).take o t =
      ((qs.dequeue o t).setObject o { (qs.dequeue o t).object o with free := free }).setLink t
        ⟨some p, none, (qs.link t).sqqueue⟩ := by
    unfold Queues.take
    simp only [dequeue_free, hfree]
    rfl
  have hfrees : ∀ r, (((qs.dequeue o t).take o t).object r).free =
      if r = o then free else (qs.object r).free := by
    intro r
    rw [htake]
    rcases eq_or_ne r o with rfl | hr
    · simp [Queues.setLink, Queues.setObject]
    · simp [Queues.setLink, Queues.setObject, dequeue_free, hr]
  have hwchan : ∀ r, (((qs.dequeue o t).take o t).object r).wchan = (qs.object r).wchan := by
    intro r
    rw [htake]
    rcases eq_or_ne r o with rfl | hr
    · simp [Queues.setLink, Queues.setObject, dequeue_wchan]
    · simp [Queues.setLink, Queues.setObject, dequeue_wchan, hr]
  have hlink : ∀ u, ((qs.dequeue o t).take o t).link u =
      if u = t then ⟨some p, none, (qs.link t).sqqueue⟩ else qs.link u := by
    intro u
    rw [htake]
    exact update_apply _ _ _ _
  have hchain : ((qs.dequeue o t).take o t).chain = qs.chain := by
    rw [htake]
    rfl
  obtain ⟨hleft, hlen⟩ := h.left hplace hon
  have hother : ∀ r i, r ≠ o → ((qs.dequeue o t).object r).blocked i = (qs.object r).blocked i := by
    intro r i hr
    rw [dequeue_blocked, if_neg fun hboth => hr hboth.1]
  obtain ⟨hnodup, hcount⟩ := h.dequeued hplace hon
  have hp : place p = .free w := (h.free o w hplace p).mp (hfree ▸ mem_cons_self)
  obtain ⟨hpfree, hfreeNodup⟩ := nodup_cons.mp (hfree ▸ h.freeNodup o)
  refine ⟨?_, ?_, ?_, ?_, ?_, ?_, ?_, ?_, ?_, ?_, ?_, ?_, ?_, ?_, ?_⟩
  all_goals simp only [take_blocked, take_blockedcnt, hfrees, hwchan, hlink, hchain,
    update_apply]
  · have chain := h.chain
    grind
  · exact h.chainNodup
  · have wchan := h.wchan
    grind
  · have unique := h.unique
    grind
  · have unique := h.unique
    have listed := h.free
    grind
  · have freeNodup := h.freeNodup
    grind
  · have attached := h.attached
    grind
  · have thread := h.thread
    grind
  · have unused := h.unused
    grind
  · have unique := h.unique
    have blocked := h.blocked
    grind
  · exact hnodup
  · exact hcount
  · have queued := h.queued
    grind
  · have owner := h.owner
    grind
  · have size := h.size
    grind

/-- **`sleepq_add` keeps the lists in order** and leaves the queues of other wait channels alone. -/
theorem Placed.add (h : Placed qs place) (hown : (qs.link t).sleepqueue = some o)
    (priority : Nat → Nat) (w : Nat) (q : Fin NR_SLEEPQS) :
    (∃ place', Placed ((qs.give o w).1.enqueue priority t (qs.give o w).2 w q) place') ∧
    ∀ r v, v ≠ w → (qs.object r).wchan = some v →
      (((qs.give o w).1.enqueue priority t (qs.give o w).2 w q).object r).wchan = some v ∧
      ∀ i, (((qs.give o w).1.enqueue priority t (qs.give o w).2 w q).object r).blocked i =
        (qs.object r).blocked i := by
  have hplace : place o = .thread t := (h.thread t o).mp hown
  cases hlookup : qs.lookup w with
  | none =>
    refine ⟨⟨_, h.attach hown hlookup priority q⟩, ?_⟩
    intro r v _ hv
    have hr : r ≠ o := by
      rintro rfl
      rw [(h.wchan r v).mp hv] at hplace
      cases hplace
    simp [Queues.give, hlookup, Queues.setObject, hr, hv]
  | some p =>
    refine ⟨⟨_, h.join hown hlookup priority q⟩, ?_⟩
    intro r v hne hv
    have hr : r ≠ p := by
      rintro rfl
      have := (h.wchan r w).mpr ((h.lookup w r).mp hlookup)
      rw [hv] at this
      cases this
      exact hne rfl
    simp [Queues.give, hlookup, Queues.setObject, hr, hv]

/-- **`sleepq_remove_thread` keeps the lists in order** and leaves the queues of other wait channels
    alone.  The object stays attached if another thread is on it. -/
theorem Placed.remove (h : Placed qs place) (hw : (qs.object o).wchan = some w)
    (hon : (qs.link t).wchan = some w) :
    (∃ place', Placed ((qs.dequeue o t).take o t) place') ∧
    (∀ r v, v ≠ w → (qs.object r).wchan = some v →
      (((qs.dequeue o t).take o t).object r).wchan = some v ∧
      ∀ i, (((qs.dequeue o t).take o t).object r).blocked i = (qs.object r).blocked i) ∧
    ((∃ i, ((qs.dequeue o t).object o).blocked i ≠ []) →
      (((qs.dequeue o t).take o t).object o).wchan = some w) := by
  have hplace := (h.wchan o w).mp hw
  have hother : ∀ r v, v ≠ w → (qs.object r).wchan = some v → r ≠ o := by
    rintro r v hne hv rfl
    rw [hw] at hv
    cases hv
    exact hne rfl
  cases hfree : (qs.object o).free with
  | nil =>
    refine ⟨⟨_, h.detach hplace hon hfree⟩, ?_, ?_⟩
    · intro r v hne hv
      have hr := hother r v hne hv
      simp [Queues.take, dequeue_free, hfree, Queues.setObject, Queues.setLink, dequeue_blocked,
        dequeue_wchan, hr, hv]
    · rintro ⟨i, hi⟩
      obtain ⟨-, hlen⟩ := h.left hplace hon
      rw [hfree, length_nil] at hlen
      match i with
      | 0 => exact absurd (length_eq_zero_iff.mp (by omega)) hi
      | 1 => exact absurd (length_eq_zero_iff.mp (by omega)) hi
  | cons p free =>
    refine ⟨⟨_, h.release hplace hon hfree⟩, ?_, ?_⟩
    · intro r v hne hv
      have hr := hother r v hne hv
      simp [Queues.take, dequeue_free, hfree, Queues.setObject, Queues.setLink, dequeue_blocked,
        dequeue_wchan, hr, hv]
    · intro _
      simp [Queues.take, dequeue_free, hfree, Queues.setObject, Queues.setLink, dequeue_wchan, hw]

theorem take_link (u : Nat) (hu : u ≠ t) : ((qs.dequeue o t).take o t).link u = qs.link u := by
  unfold Queues.take
  dsimp only
  split <;> exact update_of_ne hu _ _

theorem take_wchan : (((qs.dequeue o t).take o t).link t).wchan = none := by
  unfold Queues.take
  dsimp only
  split <;> simp [Queues.setLink]

end Remove

theorem placed_init : Placed init.queues Place.thread := by
  refine ⟨?_, ?_, ?_, ?_, ?_, ?_, ?_, ?_, ?_, ?_, ?_, ?_, ?_, ?_, ?_⟩ <;> simp [init, eq_comm]

end RtemsLibbsd.Sleepqueue
