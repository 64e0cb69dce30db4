import RtemsLibbsd.Sleepqueue.Invariant

/-!
# The steps of sleepers, wakers and timers

Each function of `subr_sleepqueue.c` keeps the invariants.

* `Inv.switchStep` — the own steps of `sleepq_switch`.
* `Inv.resumed` and `Inv.dequeueSelf` — `sleepq_remove_thread` of a waker and of the thread itself.
* `Inv.fire` — `sleepq_timeout`; `Inv.wakerClear` and `Inv.timerClear` — `_Thread_Clear_state`.
* **`Inv.step`** — every step that is in time keeps the invariants; a step other than the routine
  of a watchdog on its own fails no assertion.
-/

namespace RtemsLibbsd.Sleepqueue

open Option

open Function

section Remove

variable {s : State} {place : Nat → Place} {clearer : Nat → Option Clearer} {o t w : Nat}

theorem assert_failed (s : State) (p : Prop) [Decidable p] (hp : p) :
    (s.assert p).failed = s.failed := by
  simp [State.assert, hp]

theorem Inv.removeThread_failed (h : Inv s place clearer)
    (hw : (s.queues.object o).wchan = some w) (hon : s.wchan t = some w) :
    (sleepqRemoveThread s o t).1.failed = s.failed := by
  have hfits := h.fits t
  rw [hon] at hfits
  have hst := hfits.not_wakeup
  simp [sleepqRemoveThread, State.setThread, State.assert, hw, hon, hst]

theorem removeThread_queues (s : State) (o t : Nat) :
    (sleepqRemoveThread s o t).1.queues = (s.queues.dequeue o t).take o t := rfl

theorem Inv.removeThread_fits (h : Inv s place clearer) (hon : s.wchan t = some w) :
    Fits (s.thread t).pc (s.thread t).sqState.removed.1 none (s.thread t).waiting
      ((clearer t).isSome || (s.thread t).sqState.removed.2) := by
  have hfits := h.fits t
  rw [hon] at hfits
  exact hfits.removed

theorem removeThread_thread (s : State) (o t u : Nat) :
    (sleepqRemoveThread s o t).1.thread u =
      if u = t then { s.thread t with sqState := (s.thread t).sqState.removed.1 } else s.thread u :=
  update_apply _ _ _ _

theorem removeThread_wchan (s : State) (o t u : Nat) : (sleepqRemoveThread s o t).1.wchan u =
    if u = t then none else s.wchan u := by
  grind [State.wchan, removeThread_queues, take_wchan, take_link]

theorem Inv.removeThread_timed (h : Inv s place clearer) (u : Nat) :
    Timed ((sleepqRemoveThread s o t).1.thread u) (fun g => (u, g) ∈ s.fired) := by
  rw [removeThread_thread]
  split
  · rename_i hu
    subst hu
    refine (h.timed u).move rfl rfl (.inr ⟨rfl, rfl⟩) (fun _ hw => hw) (h.timed u).disarmed.2 ?_
    intro hasleep
    refine ⟨hasleep, ?_⟩
    cases (s.thread u).sqState <;> simp [SqState.removed, SqState.Leads, SqState.dozing]
  · exact h.timed u

theorem Inv.removeThread_loop (h : Inv s place clearer) (hw : (s.queues.object o).wchan = some w)
    (hon : s.wchan t = some w) {j v p u : Nat} {q : Fin NR_SLEEPQS}
    (hnext : (s.waker j).next = some (v, p, q, u)) (hne : v ≠ w) :
    (((s.queues.dequeue o t).take o t).object p).wchan = some v ∧
      ((((s.queues.dequeue o t).take o t).object p).blocked q).head? = some u := by
  obtain ⟨h1, h2⟩ := h.locks.loop j v p q u hnext
  obtain ⟨h3, h4⟩ := (h.placed.remove hw hon).2.1 p v hne h1
  exact ⟨h3, by rw [h4, h2]⟩

/-- **`sleepq_remove_thread` of a waker** that has locked the chain and goes on with `rest`. -/
theorem Inv.resumed (h : Inv s place clearer) (hw : (s.queues.object o).wchan = some w)
    (hon : s.wchan t = some w) {k : Nat} {rest : Waker}
    (hother : ∀ j v, j ≠ k → (s.waker j).holds = some v → v ≠ w)
    (hlock : s.lock (scHash w) = some (.waker k)) (hidle : (s.waker k).clears = none)
    (hholds : rest.holds = some w) (hclears : rest.clears = none)
    (hloop : ∀ v p q u, rest.next = some (v, p, q, u) →
      (((s.queues.dequeue o t).take o t).object p).wchan = some v ∧
      ((((s.queues.dequeue o t).take o t).object p).blocked q).head? = some u) :
    ∃ place' clearer', Inv (resume (sleepqRemoveThread s o t) k t rest) place' clearer' := by
  obtain ⟨⟨place', hplaced⟩, -⟩ := h.placed.remove hw hon
  have hself : (resume (sleepqRemoveThread s o t) k t rest).waker k =
      if (s.thread t).sqState.removed.2 then .clear t rest else rest := update_self _ _ _
  have hwakers : ∀ j, j ≠ k →
      (resume (sleepqRemoveThread s o t) k t rest).waker j = s.waker j :=
    fun j hj => update_of_ne hj _ _
  have hrest : ∀ p : Waker, (p = .clear t rest ∨ p = rest) → p.holds = some w ∧ p.next = rest.next := by
    rintro p (rfl | rfl)
    · exact ⟨hholds, rfl⟩
    · exact ⟨hholds, rfl⟩
  have hwaker : (resume (sleepqRemoveThread s o t) k t rest).waker k = .clear t rest ∨
      (resume (sleepqRemoveThread s o t) k t rest).waker k = rest := by
    rw [hself]
    split
    · exact .inl rfl
    · exact .inr rfl
  have hpending : (s.thread t).sqState.removed.2 = true → clearer t = none := by
    intro hunblock
    have hfits := h.fits t
    rw [hon] at hfits
    simpa using hfits.unblock hunblock
  refine ⟨place', fun u => if u = t ∧ (s.thread t).sqState.removed.2 = true then some (.waker k)
    else clearer u, hplaced, ?_, h.removeThread_timed, ⟨?_, ?_, ?_⟩, ⟨?_, ?_, ?_⟩⟩
  · intro u
    show Fits ((sleepqRemoveThread s o t).1.thread u).pc _ ((sleepqRemoveThread s o t).1.wchan u)
      ((sleepqRemoveThread s o t).1.thread u).waiting _
    rw [removeThread_wchan]
    show Fits ((sleepqRemoveThread s o t).1.thread u).pc ((sleepqRemoveThread s o t).1.thread u).sqState
      _ _ _
    rw [removeThread_thread]
    by_cases hu : u = t
    · have hfits := h.removeThread_fits hon
      grind
    · rw [if_neg hu, if_neg hu, if_neg fun hboth => hu hboth.1]
      exact h.fits u
  · intro j u
    by_cases hj : j = k
    · subst hj
      rw [hself]
      cases hunblock : (s.thread t).sqState.removed.2 with
      | true =>
        by_cases hu : u = t
        · simp [Waker.clears, hu]
        · have := h.clearing.byWaker j u
          rw [hidle] at this
          simp [Waker.clears, hu, Ne.symm hu, ← this]
      | false =>
        have := h.clearing.byWaker j u
        rw [hidle] at this
        simp [hclears, ← this]
    · rw [hwakers j hj, h.clearing.byWaker j u]
      grind
  · intro u
    show ((sleepqRemoveThread s o t).1.thread u).clears = _
    grind [removeThread_thread, h.clearing.byTimer]
  · intro j u r hj
    grind [h.clearing.plain, Waker.clears]
  · intro u v hv
    have hv' : ((sleepqRemoveThread s o t).1.thread u).pc.holds = some v := hv
    rw [removeThread_thread] at hv'
    refine h.locks.thread u v ?_
    split at hv'
    · rename_i hu
      rw [hu]
      exact hv'
    · exact hv'
  · intro j v hv
    by_cases hj : j = k
    · subst hj
      rw [(hrest _ hwaker).1] at hv
      cases hv
      exact hlock
    · rw [hwakers j hj] at hv
      exact h.locks.waker j v hv
  · intro j v p q u hnext
    by_cases hj : j = k
    · subst hj
      rw [(hrest _ hwaker).2] at hnext
      exact hloop v p q u hnext
    · rw [hwakers j hj] at hnext
      exact h.removeThread_loop hw hon hnext (hother j v hj (Waker.holds_of_next hnext))

/-- `sleepq_remove_thread` of the thread itself, after it has timed out. -/
theorem Inv.dequeueSelf (h : Inv s place clearer) (hpc : (s.thread t).pc = .remove w)
    (hw : (s.queues.object o).wchan = some w) (hon : s.wchan t = some w)
    (hfree : s.lock (scHash w) = none) :
    (s.thread t).sqState = .panic ∧
    ∃ place', Inv (sleepqReturn (sleepqRemoveThread s o t).1 t) place' clearer := by
  obtain ⟨⟨place', hplaced⟩, -⟩ := h.placed.remove hw hon
  have hfits := h.fits t
  rw [hpc] at hfits
  obtain ⟨-, hst, hwaiting, hpending⟩ := hfits
  have hthread : ∀ u, (sleepqReturn (sleepqRemoveThread s o t).1 t).thread u =
      if u = t then { s.thread t with pc := .run } else s.thread u := by
    intro u
    unfold sleepqReturn
    rcases eq_or_ne u t with rfl | hu
    · simp [State.setThread, removeThread_thread, hst, SqState.removed]
    · simp [State.setThread, removeThread_thread, hu]
  have hwchan : ∀ u, (sleepqReturn (sleepqRemoveThread s o t).1 t).wchan u =
      if u = t then none else s.wchan u := removeThread_wchan s o t
  refine ⟨hst, place', hplaced, ?_, ?_, ⟨h.clearing.byWaker, ?_, h.clearing.plain⟩,
    ⟨?_, h.locks.waker, ?_⟩⟩
  · intro u
    rw [hthread, hwchan]
    split
    · rename_i hu
      subst hu
      exact ⟨rfl, .inr hst, hwaiting, hpending⟩
    · exact h.fits u
  · intro u
    rw [hthread]
    split
    · rename_i hu
      subst hu
      refine (h.timed u).move rfl rfl (.inl ((h.timed u).disarmed.2 w hpc)) ?_ ?_ ?_
      · intro _ hv
        cases hv
      · intro _ hv
        cases hv
      · intro hv
        cases hv
    · exact h.timed u
  · intro u
    rw [← h.clearing.byTimer u, hthread]
    split
    · rename_i hu
      rw [hu]
    · rfl
  · intro u v hv
    rw [hthread] at hv
    split at hv
    · cases hv
    · exact h.locks.thread u v hv
  · intro j v p q u hnext
    refine h.removeThread_loop hw hon hnext ?_
    rintro rfl
    have hheld := h.locks.waker j v (Waker.holds_of_next hnext)
    rw [hfree] at hheld
    cases hheld

end Remove

section Add

variable {s : State} {place : Nat → Place} {clearer : Nat → Option Clearer} {t w : Nat}

/-- The own object of a thread meets the assertions of `sleepq_add`. -/
theorem Placed.own_unused {qs : Queues} (h : Placed qs place) {o : Nat}
    (hown : (qs.link t).sleepqueue = some o) : (qs.object o).Unused := by
  have hplace := (h.thread t o).mp hown
  obtain ⟨hblocked, hfree⟩ := h.unused o (by simp [hplace])
  refine ⟨hblocked, ?_, hfree, ?_⟩
  · intro q
    rw [h.count o q, hblocked q]
    rfl
  · cases hw : (qs.object o).wchan with
    | none => rfl
    | some v =>
      rw [(h.wchan o v).mp hw] at hplace
      cases hplace

/-- **`sleepq_add`.** -/
theorem Inv.add (h : Inv s place clearer) (hpc : (s.thread t).pc = .locked w)
    (q : Fin NR_SLEEPQS) :
    (sleepqAdd s t w q).failed = s.failed ∧
    ∃ place', Inv ((sleepqAdd s t w q).setThread t
      { (sleepqAdd s t w q).thread t with pc := .added w }) place' clearer := by
  have hfits := h.fits t
  rw [hpc] at hfits
  obtain ⟨hoff, -, hwaiting, hpending⟩ := hfits
  obtain ⟨o, hown⟩ := ne_none_iff_exists'.mp ((h.placed.owner t).mp hoff)
  have hunused := h.placed.own_unused hown
  have hadd : sleepqAdd s t w q = { (s.assert (s.queues.lookup w = none →
      (s.queues.object o).Unused)).setThread t
        { s.thread t with sqState := .tired, sleep := (s.thread t).sleep + 1 } with
      queues := (s.queues.give o w).1.enqueue (fun u => (s.thread u).priority) t
        (s.queues.give o w).2 w q } := by
    unfold sleepqAdd
    simp only [hown]
    rfl
  obtain ⟨⟨place', hplaced⟩, hsame⟩ := h.placed.add hown (fun u => (s.thread u).priority) w q
  have hself : (sleepqAdd s t w q).thread t =
      { s.thread t with sqState := .tired, sleep := (s.thread t).sleep + 1 } := by
    rw [hadd]
    exact update_self _ _ _
  have hother : ∀ u ≠ t, (sleepqAdd s t w q).thread u = s.thread u := by
    intro u hu
    rw [hadd]
    exact update_of_ne hu _ _
  have hthread : ∀ u, ((sleepqAdd s t w q).setThread t
      { (sleepqAdd s t w q).thread t with pc := .added w }).thread u =
      if u = t then { s.thread t with
        sqState := .tired, sleep := (s.thread t).sleep + 1, pc := .added w } else s.thread u := by
    intro u
    rcases eq_or_ne u t with rfl | hu
    · simp [hself]
    · rw [setThread_of_ne _ _ hu, hother u hu, if_neg hu]
  have hwchan : ∀ u, ((sleepqAdd s t w q).setThread t
      { (sleepqAdd s t w q).thread t with pc := .added w }).wchan u =
      if u = t then some w else s.wchan u := by
    intro u
    show ((sleepqAdd s t w q).queues.link u).wchan = _
    grind [enqueue_link, give_link, State.wchan]
  refine ⟨?_, place', ?_, ?_, ?_, ⟨?_, ?_, ?_⟩, ⟨?_, ?_, ?_⟩⟩
  · rw [hadd]
    exact assert_failed s _ fun _ => hunused
  · show Placed (sleepqAdd s t w q).queues place'
    rw [hadd]
    exact hplaced
  · intro u
    rw [hthread, hwchan]
    split
    · rename_i hu
      subst hu
      exact ⟨.inl ⟨rfl, .inl rfl⟩, hwaiting, hpending⟩
    · exact h.fits u
  · intro u
    show Timed _ fun g => (u, g) ∈ (sleepqAdd s t w q).fired
    rw [hthread, hadd]
    split
    · rename_i hu
      subst hu
      exact (h.timed u).add (by rw [hpc]; rfl) w
    · exact h.timed u
  · show ∀ k u, ((sleepqAdd s t w q).waker k).clears = some u ↔ _
    rw [hadd]
    exact h.clearing.byWaker
  · intro u
    rw [hthread, ← h.clearing.byTimer u]
    split
    · rename_i hu
      rw [hu]
    · rfl
  · show ∀ k u rest, (sleepqAdd s t w q).waker k = _ → _
    rw [hadd]
    exact h.clearing.plain
  · intro u v hv
    show (sleepqAdd s t w q).lock (scHash v) = _
    rw [hthread] at hv
    rw [hadd]
    refine h.locks.thread u v ?_
    split at hv
    · rename_i hu
      rw [hu, hpc]
      exact hv
    · exact hv
  · show ∀ k v, ((sleepqAdd s t w q).waker k).holds = some v →
      (sleepqAdd s t w q).lock (scHash v) = _
    rw [hadd]
    exact h.locks.waker
  · show ∀ j v p i u, ((sleepqAdd s t w q).waker j).next = _ →
      ((sleepqAdd s t w q).queues.object p).wchan = _ ∧
      (((sleepqAdd s t w q).queues.object p).blocked i).head? = _
    rw [hadd]
    intro j v p i u hnext
    obtain ⟨h1, h2⟩ := h.locks.loop j v p i u hnext
    have hne : v ≠ w := by
      rintro rfl
      have hmine := h.locks.thread t v (by rw [hpc]; rfl)
      rw [h.locks.waker j v (Waker.holds_of_next hnext)] at hmine
      cases hmine
    obtain ⟨h3, h4⟩ := hsame p v hne h1
    exact ⟨h3, by rw [h4, h2]⟩

end Add

section Timer

variable {s : State} {place : Nat → Place} {clearer : Nat → Option Clearer} {t g : Nat}

/-- **`sleepq_timeout`** for the insertion of the sleep `g`. -/
theorem Inv.fire (h : Inv s place clearer) (hle : g ≤ (s.thread t).sleep)
    (hdue : g ∉ (s.thread t).due) (hdog : (s.thread t).watchdog ≠ some g)
    (hadded : ∀ w, (s.thread t).pc = .added w → g ≠ (s.thread t).sleep)
    (htime : (s.thread t).sqState = .tired ∨ (s.thread t).sqState = .sleepy ∨
      (s.thread t).sqState = .sleeping → g = (s.thread t).sleep) :
    ∃ clearer', Inv (s.fire t g) place clearer' := by
  have hmem : ∀ u k, (u, k) ∈ (t, g) :: s.fired ↔ (u = t ∧ k = g) ∨ (u, k) ∈ s.fired := by
    intro u k
    simp
  -- the routine changes the state of the thread, and its clear is pending if the thread is blocked
  have key : ∀ (st : SqState) (n : Nat) (c : Option Clearer) (x : State),
      (x.queues = s.queues ∧ x.waker = s.waker ∧ x.lock = s.lock ∧ x.fired = (t, g) :: s.fired ∧
        x.thread = update s.thread t { s.thread t with sqState := st, clears := n }) →
      Fits (s.thread t).pc st (s.wchan t) (s.thread t).waiting c.isSome →
      (st = (s.thread t).sqState ∧ ((s.thread t).sqState.dozing = true → g ≠ (s.thread t).sleep) ∨
        st = .nightmare ∧ g = (s.thread t).sleep) →
      (c = clearer t ∧ n = (s.thread t).clears ∨ clearer t = none ∧ c = some .timer ∧ n = 1) →
      Inv x place (update clearer t c) := by
    rintro st n c x ⟨hqueues, hwaker, hlock, hfired, hthread⟩ hfits hst hclearer
    have hx : ∀ u, x.thread u =
        if u = t then { s.thread t with sqState := st, clears := n } else s.thread u := by
      intro u
      rw [hthread]
      exact update_apply _ _ _ _
    refine ⟨hqueues ▸ h.placed, ?_, ?_, ⟨?_, ?_, ?_⟩, ⟨?_, ?_, ?_⟩⟩
    · intro u
      have hw : x.wchan u = s.wchan u := by
        unfold State.wchan
        rw [hqueues]
      rw [hx, hw]
      rcases eq_or_ne u t with rfl | hu
      · rw [if_pos rfl, update_self]
        exact hfits
      · rw [if_neg hu, update_of_ne hu]
        exact h.fits u
    · intro u
      rw [hx, hfired]
      rcases eq_or_ne u t with rfl | hu
      · rw [if_pos rfl]
        have := (h.timed u).fire hle hdue hdog hadded st n hst
        simpa [hmem] using this
      · rw [if_neg hu]
        simpa [hmem, hu] using h.timed u
    · intro k u
      rw [hwaker, h.clearing.byWaker k u]
      grind
    · intro u
      rw [hx]
      rcases eq_or_ne u t with rfl | hu
      · rw [if_pos rfl, update_self]
        rcases hclearer with ⟨rfl, rfl⟩ | ⟨-, rfl, rfl⟩
        · exact h.clearing.byTimer u
        · simp
      · rw [if_neg hu, update_of_ne hu]
        exact h.clearing.byTimer u
    · rw [hwaker]
      exact h.clearing.plain
    · intro u v hv
      rw [hlock]
      grind [h.locks.thread]
    · rw [hwaker, hlock]
      exact h.locks.waker
    · rw [hwaker, hqueues]
      exact h.locks.loop
  have hfits := h.fits t
  cases hst : (s.thread t).sqState with
  | sleeping =>
    rw [hst] at hfits
    obtain ⟨hnext, hnone, -⟩ := hfits.timedOut (.inr (.inr rfl))
    have hclearer : clearer t = none := by simpa using hnone rfl
    have hclears := h.clearing.byTimer t
    simp only [hclearer, reduceCtorEq, if_false] at hclears
    simp only [State.fire, sleepqTimeout, hst]
    refine ⟨_, key .nightmare 1 (some .timer) _ ⟨rfl, rfl, rfl, rfl, ?_⟩ ?_
      (.inr ⟨rfl, htime (by simp [hst])⟩) (.inr ⟨hclearer, rfl, rfl⟩)⟩
    · simp only [hclears]
      rfl
    · simpa using hnext
  | tired =>
    rw [hst] at hfits
    obtain ⟨hnext, -, -⟩ := hfits.timedOut (.inl rfl)
    simp only [State.fire, sleepqTimeout, hst]
    exact ⟨_, key .nightmare (s.thread t).clears (clearer t) _ ⟨rfl, rfl, rfl, rfl, rfl⟩
      (by simpa using hnext) (.inr ⟨rfl, htime (by simp [hst])⟩) (.inl ⟨rfl, rfl⟩)⟩
  | sleepy =>
    rw [hst] at hfits
    obtain ⟨hnext, -, -⟩ := hfits.timedOut (.inr (.inl rfl))
    simp only [State.fire, sleepqTimeout, hst]
    exact ⟨_, key .nightmare (s.thread t).clears (clearer t) _ ⟨rfl, rfl, rfl, rfl, rfl⟩
      (by simpa using hnext) (.inr ⟨rfl, htime (by simp [hst])⟩) (.inl ⟨rfl, rfl⟩)⟩
  | _ =>
    simp only [State.fire, sleepqTimeout, hst]
    refine ⟨_, key (s.thread t).sqState (s.thread t).clears (clearer t) _
      ⟨rfl, rfl, rfl, rfl, ?_⟩ hfits (.inl ⟨rfl, by simp [hst, SqState.dozing]⟩) (.inl ⟨rfl, rfl⟩)⟩
    exact (update_eq_self t s.thread).symm

theorem Inv.wakerClear (h : Inv s place clearer) {k : Nat} {rest : Waker}
    (hk : s.waker k = .clear t rest) :
    Inv ((clearState s t).setWaker k rest) place (update clearer t none) := by
  have hclearer : clearer t = some (.waker k) :=
    (h.clearing.byWaker k t).mp (by rw [hk]; rfl)
  have hplain := h.clearing.plain k t rest hk
  have hself : ((clearState s t).setWaker k rest).waker k = rest := update_self _ _ _
  have hother : ∀ j ≠ k, ((clearState s t).setWaker k rest).waker j = s.waker j :=
    fun j hj => update_of_ne hj _ _
  have hthread : ∀ u, ((clearState s t).setWaker k rest).thread u =
      if u = t then { s.thread t with waiting := false } else s.thread u :=
    fun u => update_apply _ _ _ _
  refine ⟨h.placed, ?_, ?_, ⟨?_, ?_, ?_⟩, ⟨?_, ?_, ?_⟩⟩
  · intro u
    show Fits _ _ (s.wchan u) _ _
    rw [hthread]
    rcases eq_or_ne u t with rfl | hu
    · rw [if_pos rfl, update_self]
      have hfits := h.fits u
      rw [hclearer] at hfits
      exact hfits.cleared
    · rw [if_neg hu, update_of_ne hu]
      exact h.fits u
  · intro u
    rw [hthread]
    split
    · rename_i hu
      subst hu
      exact (h.timed u).move rfl rfl (.inr ⟨rfl, rfl⟩) (fun _ hw => hw) (h.timed u).disarmed.2
        (fun hasleep => ⟨hasleep, .refl _⟩)
    · exact h.timed u
  · intro j u
    rcases eq_or_ne j k with rfl | hj
    · rw [hself, hplain]
      rcases eq_or_ne u t with rfl | hu
      · simp
      · rw [update_of_ne hu, ← h.clearing.byWaker j u, hk]
        simp [Waker.clears, Ne.symm hu]
    · rw [hother j hj, h.clearing.byWaker j u]
      grind
  · intro u
    rw [hthread]
    rcases eq_or_ne u t with rfl | hu
    · have := h.clearing.byTimer u
      simp only [hclearer] at this
      simpa using this
    · rw [if_neg hu, update_of_ne hu]
      exact h.clearing.byTimer u
  · intro j u r hj
    rcases eq_or_ne j k with rfl | hjk
    · rw [hself] at hj
      rw [hj] at hplain
      cases hplain
    · rw [hother j hjk] at hj
      exact h.clearing.plain j u r hj
  · intro u v hv
    refine h.locks.thread u v ?_
    grind
  · intro j v hv
    refine h.locks.waker j v ?_
    rcases eq_or_ne j k with rfl | hj
    · rw [hself] at hv
      rw [hk]
      exact hv
    · rw [hother j hj] at hv
      exact hv
  · intro j v p q u hnext
    refine h.locks.loop j v p q u ?_
    rcases eq_or_ne j k with rfl | hj
    · rw [hself] at hnext
      rw [hk]
      exact hnext
    · rw [hother j hj] at hnext
      exact hnext

theorem Inv.timerClear (h : Inv s place clearer) (hne : (s.thread t).clears ≠ 0) :
    Inv (clearState (s.setThread t { s.thread t with clears := (s.thread t).clears - 1 }) t) place
      (update clearer t none) := by
  have hclears := h.clearing.byTimer t
  have hclearer : clearer t = some .timer := by
    by_contra hno
    simp only [hno, if_false] at hclears
    exact hne hclears
  simp only [hclearer, if_true] at hclears
  have hthread : ∀ u, (clearState (s.setThread t
      { s.thread t with clears := (s.thread t).clears - 1 }) t).thread u =
      if u = t then { s.thread t with clears := 0, waiting := false } else s.thread u := by
    intro u
    unfold clearState
    rcases eq_or_ne u t with rfl | hu
    · simp [hclears]
    · simp [setThread_of_ne _ _ hu, if_neg hu]
  refine ⟨h.placed, ?_, ?_, ⟨?_, ?_, h.clearing.plain⟩, ⟨?_, h.locks.waker, h.locks.loop⟩⟩
  · intro u
    show Fits _ _ (s.wchan u) _ _
    rw [hthread]
    rcases eq_or_ne u t with rfl | hu
    · rw [if_pos rfl, update_self]
      have hfits := h.fits u
      rw [hclearer] at hfits
      exact hfits.cleared
    · rw [if_neg hu, update_of_ne hu]
      exact h.fits u
  · intro u
    rw [hthread]
    split
    · rename_i hu
      subst hu
      exact (h.timed u).move rfl rfl (.inr ⟨rfl, rfl⟩) (fun _ hw => hw) (h.timed u).disarmed.2
        (fun hasleep => ⟨hasleep, .refl _⟩)
    · exact h.timed u
  · intro k u
    show (s.waker k).clears = some u ↔ _
    rw [h.clearing.byWaker k u]
    rcases eq_or_ne u t with rfl | hu
    · simp [hclearer]
    · rw [update_of_ne hu]
  · intro u
    rw [hthread]
    rcases eq_or_ne u t with rfl | hu
    · simp
    · rw [if_neg hu, update_of_ne hu]
      exact h.clearing.byTimer u
  · intro u v hv
    refine h.locks.thread u v ?_
    grind

end Timer

section Switch

variable {s s' : State} {place : Nat → Place} {clearer : Nat → Option Clearer} {t : Nat}

theorem Inv.sleepStep (h : Inv s place clearer) {p : Prop} [Decidable p] {td : Thread}
    (hasleep : (s.thread t).pc.asleep = true) (hheld : (s.thread t).pc.holds = none) (hp : p)
    (hsame : td.sleep = (s.thread t).sleep ∧ td.due = (s.thread t).due ∧
      td.watchdog = (s.thread t).watchdog ∧ td.clears = (s.thread t).clears)
    (hpc : td.pc.asleep = true ∧ td.pc.holds = none ∧ ∀ w, td.pc ≠ .remove w)
    (hleads : (s.thread t).sqState.Leads td.sqState)
    (hfits : Fits td.pc td.sqState (s.wchan t) td.waiting (clearer t).isSome) :
    ((s.assert p).setThread t td).failed = s.failed ∧
      ∃ place', Inv ((s.assert p).setThread t td) place' clearer := by
  obtain ⟨hsleep, hdue, hdog, hclears⟩ := hsame
  refine ⟨assert_failed s p hp, place, h.local (x := s.assert p) ⟨rfl, rfl, rfl, rfl⟩ rfl t td hclears
    (hpc.2.1.trans hheld.symm) hfits ((h.timed t).move hsleep hdue
    (.inr ⟨hdog, hpc.1.trans hasleep.symm⟩) ?_ (fun w hw => absurd hw (hpc.2.2 w))
    (fun _ => ⟨hasleep, hleads⟩))⟩
  intro w hw
  rw [hw] at hpc
  cases hpc.2.1

theorem Inv.return (h : Inv s place clearer) (td : Thread)
    (htd : td = { s.thread t with watchdog := none, pc := .run })
    (hheld : (s.thread t).pc.holds = none)
    (hfits : Fits .run (s.thread t).sqState (s.wchan t) (s.thread t).waiting (clearer t).isSome)
    (l : List (Nat × Nat × SqState)) :
    Inv (State.setThread { s with returned := l } t td) place clearer := by
  subst htd
  exact h.local (x := { s with returned := l }) ⟨rfl, rfl, rfl, rfl⟩ rfl t _ rfl hheld.symm hfits
    ((h.timed t).move rfl rfl (.inl rfl) (fun _ hv => nomatch hv) (fun _ hv => nomatch hv)
      (fun hv => nomatch hv))

/-- **The own steps of `sleepq_switch`** meet their assertions and keep the invariants. -/
theorem Inv.switchStep (h : Inv s place clearer) (hstep : sleepqSwitch s t = some s') :
    s'.failed = s.failed ∧ ∃ place', Inv s' place' clearer := by
  have hfits := h.fits t
  unfold sleepqSwitch at hstep
  cases hpc : (s.thread t).pc with
  | switch1 w =>
    have hasleep : (s.thread t).pc.asleep = true := by rw [hpc]; rfl
    have hheld : (s.thread t).pc.holds = none := by rw [hpc]; rfl
    rw [hpc] at hfits
    obtain ⟨⟨hw, hst | hst⟩ | ⟨hw, hst⟩, hwaiting, hpending⟩ := hfits
    · simp only [hpc, hst, some.injEq] at hstep
      subst hstep
      exact h.sleepStep hasleep hheld hw ⟨rfl, rfl, rfl, rfl⟩ ⟨rfl, rfl, by simp⟩
        (by simp [hst, SqState.Leads, SqState.dozing])
        ⟨.inl ⟨hw, .inl rfl⟩, hwaiting, hpending⟩
    · simp only [hpc, hst, some.injEq] at hstep
      subst hstep
      exact h.sleepStep hasleep hheld hw ⟨rfl, rfl, rfl, rfl⟩ ⟨rfl, rfl, by simp⟩
        (by simp [hst, SqState.Leads, SqState.dozing]) ⟨.inl hw, rfl, hwaiting, hpending⟩
    · simp only [hpc, hst, some.injEq] at hstep
      subst hstep
      exact h.sleepStep hasleep hheld ⟨hw, trivial⟩ ⟨rfl, rfl, rfl, rfl⟩ ⟨rfl, rfl, by simp⟩
        (by simp [hst, SqState.Leads, SqState.dozing]) ⟨hw, rfl, hwaiting, hpending⟩
  | setState w =>
    have hasleep : (s.thread t).pc.asleep = true := by rw [hpc]; rfl
    rw [hpc] at hfits
    simp only [hpc, some.injEq] at hstep
    subst hstep
    exact ⟨rfl, place, h.local ⟨rfl, rfl, rfl, rfl⟩ rfl t _ rfl (by rw [hpc]; rfl)
      ⟨hfits.1, rfl, hfits.2.2⟩ ((h.timed t).move rfl rfl (.inr ⟨rfl, by rw [hpc]; rfl⟩)
        (fun _ hv => by cases hv) (fun _ hv => by cases hv) (fun _ => ⟨hasleep, .refl _⟩))⟩
  | switch2 w =>
    have hasleep : (s.thread t).pc.asleep = true := by rw [hpc]; rfl
    have hheld : (s.thread t).pc.holds = none := by rw [hpc]; rfl
    rw [hpc] at hfits
    obtain ⟨⟨hw, hst | hst⟩ | ⟨hw, hst⟩, hwaiting, hpending⟩ := hfits
    · simp only [hpc, hst, some.injEq] at hstep
      subst hstep
      exact h.sleepStep hasleep hheld ⟨hw, trivial⟩ ⟨rfl, rfl, rfl, rfl⟩ ⟨rfl, rfl, by simp⟩
        (by simp [hst, SqState.Leads, SqState.dozing]) (.inl ⟨hw, rfl, hwaiting, hpending⟩)
    · simp only [hpc, hst, some.injEq] at hstep
      subst hstep
      exact h.sleepStep hasleep hheld hw ⟨rfl, rfl, rfl, rfl⟩ ⟨rfl, rfl, by simp⟩
        (by simp [hst, SqState.Leads, SqState.dozing]) ⟨.inl hw, rfl, hwaiting, hpending⟩
    · simp only [hpc, hst, some.injEq] at hstep
      subst hstep
      exact h.sleepStep hasleep hheld hw ⟨rfl, rfl, rfl, rfl⟩ ⟨rfl, rfl, by simp⟩
        (by simp [hst, SqState.Leads, SqState.dozing])
        ⟨hw, rfl, hwaiting, hpending⟩
  | clear w r =>
    have hasleep : (s.thread t).pc.asleep = true := by rw [hpc]; rfl
    rw [hpc] at hfits
    simp only [hpc, some.injEq] at hstep
    subst hstep
    refine ⟨rfl, place, h.local ⟨rfl, rfl, rfl, rfl⟩ rfl t _ rfl (by rw [hpc]; rfl) ?_
      ((h.timed t).move rfl rfl (.inr ⟨rfl, by rw [hpc]; rfl⟩) (fun _ hv => by cases hv)
        (fun _ hv => by cases hv) (fun _ => ⟨hasleep, .refl _⟩))⟩
    cases r with
    | true => exact ⟨hfits.1, hfits.2.1, rfl, hfits.2.2.2⟩
    | false => exact .inr ⟨.inr ⟨hfits.1, hfits.2.1⟩, hfits.2.2.2.symm⟩
  | switch3 w r =>
    have hasleep : (s.thread t).pc.asleep = true := by rw [hpc]; rfl
    have hheld : (s.thread t).pc.holds = none := by rw [hpc]; rfl
    rw [hpc] at hfits
    cases hwait : (s.thread t).waiting with
    | true => simp [hpc, hwait] at hstep
    | false =>
      rw [hwait] at hfits
      cases r with
      | true =>
        obtain ⟨hw, hst, -, hpending⟩ := hfits
        simp only [hpc, hwait, hst, Bool.false_eq_true, if_false, some.injEq] at hstep
        subst hstep
        exact h.sleepStep hasleep hheld (.inr trivial) ⟨rfl, rfl, rfl, rfl⟩ ⟨rfl, rfl, by simp⟩
          (by simp [hst, SqState.Leads, SqState.dozing]) ⟨hw, rfl, rfl, hpending⟩
      | false =>
        rcases hfits with ⟨-, -, hw, -⟩ | ⟨⟨hw, hst⟩ | ⟨hw, hst⟩, hpending⟩
        · cases hw
        · simp only [hpc, hwait, hst, Bool.false_eq_true, if_false, some.injEq] at hstep
          subst hstep
          exact h.sleepStep hasleep hheld hw ⟨rfl, rfl, rfl, rfl⟩ ⟨rfl, rfl, by simp⟩
            (by simp [hst, SqState.Leads, SqState.dozing]) ⟨.inl hw, rfl, rfl, hpending.symm⟩
        · simp only [hpc, hwait, hst, Bool.false_eq_true, if_false, some.injEq] at hstep
          subst hstep
          exact h.sleepStep hasleep hheld (.inl trivial) ⟨rfl, rfl, rfl, rfl⟩ ⟨rfl, rfl, by simp⟩
            (by simp [hst, SqState.Leads, SqState.dozing]) ⟨hw, rfl, rfl, hpending.symm⟩
  | timerRemove w r =>
    have hasleep : (s.thread t).pc.asleep = true := by rw [hpc]; rfl
    have hheld : (s.thread t).pc.holds = none := by rw [hpc]; rfl
    rw [hpc] at hfits
    simp only [hpc, some.injEq] at hstep
    subst hstep
    cases r with
    | true =>
      exact ⟨rfl, place, h.local ⟨rfl, rfl, rfl, rfl⟩ rfl t _ rfl hheld.symm hfits
        ((h.timed t).move rfl rfl (.inl rfl) (fun _ hv => by cases hv) (fun _ _ => rfl)
          (fun _ => ⟨hasleep, .refl _⟩))⟩
    | false =>
      refine ⟨rfl, place, ?_⟩
      have hret := h.return _ rfl hheld ⟨hfits.1, .inl hfits.2.1, hfits.2.2⟩
        ((t, (s.thread t).sleep, (s.thread t).sqState) :: s.returned)
      simpa [sleepqReturn, State.setThread] using hret
  | remove w =>
    have hheld : (s.thread t).pc.holds = none := by rw [hpc]; rfl
    simp only [hpc] at hstep
    split at hstep
    · cases hstep
    · rename_i hlock
      split at hstep
      · -- a waker has dequeued the thread
        rename_i hoff
        cases hstep
        rw [hpc] at hfits
        obtain ⟨hw, hst, hrest⟩ := hfits
        have hnone : s.wchan t = none := hw.resolve_left hoff
        have hdog := (h.timed t).disarmed.2 w hpc
        refine ⟨rfl, place, ?_⟩
        have hret := h.return _ rfl hheld ⟨hnone, .inr hst, hrest⟩
          ((t, (s.thread t).sleep, (s.thread t).sqState) :: s.returned)
        rw [← hdog] at hret
        exact hret
      · rename_i hon
        rw [not_not] at hon
        obtain ⟨p, hp⟩ := h.placed.queued t w hon
        have hlookup := (h.placed.lookup w p).mpr hp
        have hw := (h.placed.wchan p w).mpr hp
        obtain ⟨hst, hinv⟩ := h.dequeueSelf hpc hw hon (by simpa using hlock)
        have hno : (sleepqRemoveThread s p t).2 = false := by
          show (s.thread t).sqState.removed.2 = false
          rw [hst]
          rfl
        simp only [hlookup, some.injEq] at hstep
        subst hstep
        rw [if_neg (by simp [hno])]
        exact ⟨h.removeThread_failed hw hon, hinv⟩
  | _ => simp [hpc] at hstep

end Switch

section System

variable {s s' : State} {place : Nat → Place} {clearer : Nat → Option Clearer}

variable {k w : Nat}

theorem Inv.wakerLocks (h : Inv s place clearer) (hfree : s.lock (scHash w) = none) :
    (∀ t v, (s.thread t).pc.holds = some v →
      update s.lock (scHash w) (some (.waker k)) (scHash v) = some (.thread t)) ∧
    ∀ j v, j ≠ k → (s.waker j).holds = some v →
      update s.lock (scHash w) (some (.waker k)) (scHash v) = some (.waker j) := by
  have hne : ∀ v x, s.lock (scHash v) = some x → scHash v ≠ scHash w := by
    intro v x hv heq
    rw [heq, hfree] at hv
    cases hv
  refine ⟨?_, ?_⟩
  · intro t v hv
    have hheld := h.locks.thread t v hv
    rw [update_of_ne (hne v _ hheld)]
    exact hheld
  · intro j v _ hv
    grind [h.locks.waker]

theorem Inv.wakerLock (h : Inv s place clearer) (hk : s.waker k = .idle)
    (hfree : s.lock (scHash w) = none) :
    Inv ((s.setLock w (some (.waker k))).setWaker k (.locked w)) place clearer := by
  obtain ⟨hthreads, hwakers⟩ := h.wakerLocks (k := k) hfree
  refine h.setWaker k (.locked w) _ (by rw [hk]; rfl) rfl ⟨hthreads, hwakers, ?_⟩
    (fun _ _ _ _ hnext => nomatch hnext)
  rintro v hv
  cases hv
  exact update_self _ _ _

theorem Inv.wakerRelease (h : Inv s place clearer) (hk : s.waker k = .locked w) :
    Inv ((s.setLock w none).setWaker k .idle) place clearer := by
  have hmine := h.locks.waker k w (by rw [hk]; rfl)
  refine h.setWaker k .idle _ (by rw [hk]; rfl) rfl ⟨?_, ?_, fun _ hv => nomatch hv⟩
    (fun _ _ _ _ hnext => nomatch hnext)
  · intro t v hv
    grind [h.locks.thread]
  · intro j v hj hv
    grind [h.locks.waker]

theorem Inv.wakerMove (h : Inv s place clearer) {p : Waker}
    (hheld : (s.waker k).holds = some w) (hidle : (s.waker k).clears = none)
    (hholds : p.holds = some w) (hclears : p.clears = none)
    (hloop : ∀ w o q t, p.next = some (w, o, q, t) →
      (s.queues.object o).wchan = some w ∧ ((s.queues.object o).blocked q).head? = some t) :
    Inv (s.setWaker k p) place clearer := by
  refine h.setWaker k p s.lock hidle hclears ⟨h.locks.thread, fun j v _ => h.locks.waker j v, ?_⟩
    hloop
  intro v hv
  rw [hholds] at hv
  cases hv
  exact h.locks.waker k w hheld

theorem Inv.alone (h : Inv s place clearer) (hheld : (s.waker k).holds = some w) :
    ∀ j v, j ≠ k → (s.waker j).holds = some v → v ≠ w := by
  rintro j v hj hv rfl
  have hmine := h.locks.waker k v hheld
  rw [h.locks.waker j v hv] at hmine
  cases hmine
  exact hj rfl

variable {q : Fin NR_SLEEPQS}

theorem Inv.on_queue (h : Inv s place clearer) {o w t : Nat}
    (hw : (s.queues.object o).wchan = some w) (ht : t ∈ (s.queues.object o).blocked q) :
    s.wchan t = some w ∧ (s.queues.link t).sqqueue = q :=
  (h.placed.blocked o w ((h.placed.wchan o w).mp hw) q t).mp ht

theorem Inv.lookup_wchan (h : Inv s place clearer) {o w : Nat} (hlookup : s.queues.lookup w = some o) :
    (s.queues.object o).wchan = some w :=
  (h.placed.wchan o w).mpr ((h.placed.lookup w o).mp hlookup)

theorem tailqNext_head (l : List Nat) (t : Nat) : tailqNext (t :: l) t = l.head? := by
  unfold tailqNext
  cases l <;> simp

theorem Inv.signal (h : Inv s place clearer) {k w o t : Nat}
    {rest : List Nat} (hk : s.waker k = .locked w) (hlookup : s.queues.lookup w = some o)
    (hqueue : (s.queues.object o).blocked q = t :: rest) (l : List (Nat × Nat)) :
    (∃ place' clearer', Inv (resume (sleepqRemoveThread { s with signalled := l } o t) k t
      (.locked w)) place' clearer') ∧
    (resume (sleepqRemoveThread { s with signalled := l } o t) k t (.locked w)).failed = s.failed := by
  have hheld : (s.waker k).holds = some w := by rw [hk]; rfl
  have hw := h.lookup_wchan hlookup
  have hon := (h.on_queue hw (hqueue ▸ List.mem_cons_self)).1
  have h' : Inv { s with signalled := l } place clearer :=
    ⟨h.placed, h.fits, h.timed, h.clearing, ⟨h.locks.thread, h.locks.waker, h.locks.loop⟩⟩
  refine ⟨h'.resumed hw hon (h.alone hheld) (h.locks.waker k w hheld) ?_ rfl rfl
    (fun _ _ _ _ hnext => nomatch hnext), h'.removeThread_failed hw hon⟩
  show (s.waker k).clears = none
  rw [hk]
  rfl

theorem Inv.broadcastStep (h : Inv s place clearer) {k w o t : Nat}
    (hk : s.waker k = .broadcast w o q (some t)) :
    (∃ place' clearer', Inv (resume (sleepqRemoveThread s o t) k t
      (.broadcast w o q (tailqNext ((s.queues.object o).blocked q) t))) place' clearer') ∧
    (resume (sleepqRemoveThread s o t) k t
      (.broadcast w o q (tailqNext ((s.queues.object o).blocked q) t))).failed = s.failed := by
  have hheld : (s.waker k).holds = some w := by rw [hk]; rfl
  obtain ⟨hw, hhead⟩ := h.locks.loop k w o q t (by rw [hk]; rfl)
  obtain ⟨rest, hqueue⟩ := List.head?_eq_some_iff.mp hhead
  obtain ⟨hon, hsq⟩ := h.on_queue hw (hqueue ▸ List.mem_cons_self)
  rw [hqueue, tailqNext_head]
  refine ⟨h.resumed hw hon (h.alone hheld) (h.locks.waker k w hheld) (by rw [hk]; rfl) rfl rfl ?_,
    h.removeThread_failed hw hon⟩
  intro v p i u hnext
  -- the next thread is at the head of the queue, so the object stays attached
  cases rest with
  | nil => cases hnext
  | cons u' rest =>
    cases hnext
    have hleft : ((s.queues.dequeue o t).object o).blocked q = u :: rest := by
      rw [dequeue_blocked, if_pos ⟨rfl, hsq.symm⟩, hqueue, List.erase_cons_head]
    refine ⟨(h.placed.remove hw hon).2.2 ⟨q, by simp [hleft]⟩, ?_⟩
    rw [take_blocked, hleft]
    rfl

theorem Inv.timeout (h : Inv s place clearer) {t g : Nat} (hg : (s.thread t).watchdog = some g) :
    (∃ clearer', Inv ((s.setThread t { s.thread t with watchdog := none }).fire t g) place
      clearer') ∧
    ((s.setThread t { s.thread t with watchdog := none }).fire t g).failed = s.failed := by
  obtain ⟨hsleep, hasleep, hdue⟩ := (h.timed t).armed g hg
  have hoff : Inv (s.setThread t { s.thread t with watchdog := none }) place clearer :=
    h.local ⟨rfl, rfl, rfl, rfl⟩ rfl t _ rfl rfl (h.fits t)
      ((h.timed t).move rfl rfl (.inl rfl) (fun _ hw => hw) (fun _ _ => rfl)
        (fun hasleep => ⟨hasleep, .refl _⟩))
  have hthread : (s.setThread t { s.thread t with watchdog := none }).thread t =
      { s.thread t with watchdog := none } := setThread_self _ _ _
  refine ⟨hoff.fire ?_ ?_ ?_ ?_ ?_, ?_⟩
  · rw [hthread]
    exact Nat.le_of_eq hsleep
  · rw [hthread]
    exact hdue
  · simp
  · rw [hthread]
    intro w hw
    have := ((h.timed t).disarmed.1 w hw).1
    rw [hg] at this
    cases this
  · rw [hthread]
    exact fun _ => hsleep
  · -- the thread has not timed out yet
    have hlight : (s.thread t).sqState ≠ .nightmare ∧ (s.thread t).sqState ≠ .panic := by
      refine ⟨?_, ?_⟩
      · intro hst
        have hran := (h.timed t).timedOut hasleep (.inl hst)
        exact ((h.timed t).ran _ hran).2.2 (hsleep ▸ hg)
      · intro hst
        have hran := (h.timed t).timedOut hasleep (.inr hst)
        exact ((h.timed t).ran _ hran).2.2 (hsleep ▸ hg)
    unfold State.fire sleepqTimeout
    simp only [hthread]
    cases hst : (s.thread t).sqState with
    | nightmare => exact absurd hst hlight.1
    | panic => exact absurd hst hlight.2
    | wakeup => simp [State.assert, State.setThread]
    | _ => rfl

theorem Inv.routine (h : Inv s place clearer) {t g : Nat} (hg : g ∈ (s.thread t).due)
    (htime : InTime s (.routine t g)) :
    ∃ clearer', Inv ((s.setThread t { s.thread t with due := (s.thread t).due.erase g }).fire t g) place
      clearer' := by
  have hstart : Inv (s.setThread t { s.thread t with due := (s.thread t).due.erase g }) place
      clearer :=
    h.local ⟨rfl, rfl, rfl, rfl⟩ rfl t _ rfl rfl (h.fits t) ((h.timed t).start g)
  have hthread : (s.setThread t { s.thread t with due := (s.thread t).due.erase g }).thread t =
      { s.thread t with due := (s.thread t).due.erase g } := setThread_self _ _ _
  refine hstart.fire ?_ ?_ ?_ ?_ ?_
  · rw [hthread]
    exact (h.timed t).due.2 g hg
  · rw [hthread]
    exact (h.timed t).due.1.not_mem_erase
  · rw [hthread]
    intro hdog
    exact ((h.timed t).armed g hdog).2.2 hg
  · rw [hthread]
    intro w hw heq
    exact ((h.timed t).disarmed.1 w hw).2.1 (heq ▸ hg)
  · rw [hthread]
    exact htime

theorem Inv.suspend (h : Inv s place clearer) {t w : Nat} {pc : Pc}
    (hpc : (s.thread t).pc = .added w ∨ (s.thread t).pc = .ready w) (hnext : pc = .dropped w ∨ pc = .switch1 w) :
    Inv ((s.setLock w none).setThread t { s.thread t with pc := pc }) place clearer := by
  have hheld : (s.thread t).pc.holds = some w := by rcases hpc with hpc | hpc <;> rw [hpc] <;> rfl
  have hasleep : (s.thread t).pc.asleep = true := by rcases hpc with hpc | hpc <;> rw [hpc] <;> rfl
  have hfits := h.fits t
  rcases hnext with rfl | rfl
  all_goals
    refine h.giveBack t w _ hheld rfl rfl ?_ ((h.timed t).move rfl rfl (.inr ⟨rfl, hasleep.symm⟩)
      (fun _ hv => nomatch hv) (fun _ hv => nomatch hv) (fun _ => ⟨hasleep, .refl _⟩))
    rcases hpc with hpc | hpc <;> (rw [hpc] at hfits; exact hfits)

/-- **Every step that is in time keeps the invariants, and fails no assertion** unless it is the
    routine of a watchdog on its own. -/
theorem Inv.step (h : Inv s place clearer) {a : Act} (htime : InTime s a)
    (hstep : step s a = some s') :
    (∃ place' clearer', Inv s' place' clearer') ∧
      ((∀ t g, a ≠ .routine t g) → s'.failed = s.failed) := by
  cases a with
  | setPriority t p =>
    cases hstep
    refine ⟨⟨place, clearer, h.local ⟨rfl, rfl, rfl, rfl⟩ rfl t _ rfl rfl (h.fits t)
      ((h.timed t).move rfl rfl (.inr ⟨rfl, rfl⟩) (fun _ hw => hw) (h.timed t).disarmed.2
        (fun hasleep => ⟨hasleep, .refl _⟩))⟩, fun _ => rfl⟩
  | lock t w =>
    obtain ⟨⟨hpc, hfree⟩, ⟨⟩⟩ := ite_none_right_eq_some.mp hstep
    have hfits := h.fits t
    have hawake : (s.thread t).pc.asleep = false := by rw [hpc]; rfl
    rw [hpc] at hfits
    exact ⟨⟨place, clearer, h.acquire t w _ hfree rfl rfl hfits ((h.timed t).move rfl rfl
      (.inl ((h.timed t).not_armed hawake)) (fun _ hv => nomatch hv) (fun _ hv => nomatch hv)
      (fun hv => nomatch hv))⟩, fun _ => rfl⟩
  | unlock t =>
    simp only [Sleepqueue.step] at hstep
    split at hstep
    · rename_i w hpc
      cases hstep
      have hfits := h.fits t
      have hawake : (s.thread t).pc.asleep = false := by rw [hpc]; rfl
      have hheld : (s.thread t).pc.holds = some w := by rw [hpc]; rfl
      rw [hpc] at hfits
      exact ⟨⟨place, clearer, h.giveBack t w _ hheld rfl rfl hfits ((h.timed t).move rfl rfl
        (.inl ((h.timed t).not_armed hawake)) (fun _ hv => nomatch hv) (fun _ hv => nomatch hv)
        (fun hv => nomatch hv))⟩, fun _ => rfl⟩
    · cases hstep
  | add t q =>
    simp only [Sleepqueue.step] at hstep
    split at hstep
    · rename_i w hpc
      cases hstep
      obtain ⟨hfailed, place', hinv⟩ := h.add hpc q
      exact ⟨⟨place', clearer, hinv⟩, fun _ => hfailed⟩
    · cases hstep
  | setTimeout t =>
    simp only [Sleepqueue.step] at hstep
    split at hstep
    · rename_i w hpc
      cases hstep
      have hfits := h.fits t
      rw [hpc] at hfits
      refine ⟨⟨place, clearer, h.local (x := s.assert ((s.thread t).watchdog = none))
        ⟨rfl, rfl, rfl, rfl⟩ rfl t _ rfl (by rw [hpc]; rfl) hfits ((h.timed t).arm hpc)⟩,
        fun _ => assert_failed s _ ((h.timed t).disarmed.1 w hpc).1⟩
    · cases hstep
  | drop t =>
    simp only [Sleepqueue.step] at hstep
    split at hstep
    · rename_i w hpc
      cases hstep
      exact ⟨⟨place, clearer, h.suspend (.inl hpc) (.inl rfl)⟩, fun _ => rfl⟩
    · rename_i w hpc
      cases hstep
      exact ⟨⟨place, clearer, h.suspend (.inr hpc) (.inl rfl)⟩, fun _ => rfl⟩
    · cases hstep
  | relock t =>
    simp only [Sleepqueue.step] at hstep
    split at hstep
    · rename_i w hpc
      obtain ⟨hfree, ⟨⟩⟩ := ite_none_right_eq_some.mp hstep
      have hasleep : (s.thread t).pc.asleep = true := by rw [hpc]; rfl
      have hfits := h.fits t
      rw [hpc] at hfits
      exact ⟨⟨place, clearer, h.acquire t w _ hfree rfl rfl hfits ((h.timed t).move rfl rfl
        (.inr ⟨rfl, hasleep.symm⟩) (fun _ hv => nomatch hv) (fun _ hv => nomatch hv)
        (fun _ => ⟨hasleep, .refl _⟩))⟩, fun _ => rfl⟩
    · cases hstep
  | wait t =>
    simp only [Sleepqueue.step] at hstep
    split at hstep
    · rename_i w hpc
      cases hstep
      exact ⟨⟨place, clearer, h.suspend (.inl hpc) (.inr rfl)⟩, fun _ => rfl⟩
    · rename_i w hpc
      cases hstep
      exact ⟨⟨place, clearer, h.suspend (.inr hpc) (.inr rfl)⟩, fun _ => rfl⟩
    · cases hstep
  | switch t =>
    grind [h.switchStep, Sleepqueue.step]
  | wakerLock k w =>
    obtain ⟨⟨hk, hfree⟩, ⟨⟩⟩ := ite_none_right_eq_some.mp hstep
    exact ⟨⟨place, clearer, h.wakerLock hk hfree⟩, fun _ => rfl⟩
  | wakerRelease k =>
    simp only [Sleepqueue.step] at hstep
    split at hstep
    · rename_i w hk
      cases hstep
      exact ⟨⟨place, clearer, h.wakerRelease hk⟩, fun _ => rfl⟩
    · cases hstep
  | signal k q =>
    simp only [Sleepqueue.step] at hstep
    split at hstep
    · split at hstep
      · cases hstep
        exact ⟨⟨place, clearer, h⟩, fun _ => rfl⟩
      · grind [h.signal]
    · cases hstep
  | broadcast k q =>
    simp only [Sleepqueue.step] at hstep
    split at hstep
    · rename_i w hk
      split at hstep
      · cases hstep
        exact ⟨⟨place, clearer, h⟩, fun _ => rfl⟩
      · rename_i o hlookup
        cases hstep
        refine ⟨⟨place, clearer, h.wakerMove (w := w) (by rw [hk]; rfl) (by rw [hk]; rfl) rfl rfl ?_⟩,
          fun _ => rfl⟩
        intro v p i u hnext
        cases hhead : ((s.queues.object o).blocked q).head? with
        | none =>
          rw [hhead] at hnext
          cases hnext
        | some u' =>
          rw [hhead] at hnext
          cases hnext
          exact ⟨h.lookup_wchan hlookup, hhead⟩
    · cases hstep
  | remove k t w =>
    obtain ⟨⟨hk, hfree⟩, hrest⟩ := ite_none_right_eq_some.mp hstep
    split at hrest
    · cases hrest
      exact ⟨⟨place, clearer, h⟩, fun _ => rfl⟩
    · rename_i hon
      rw [not_not] at hon
      obtain ⟨p, hp⟩ := h.placed.queued t w hon
      have hlookup := (h.placed.lookup w p).mpr hp
      have hw := (h.placed.wchan p w).mpr hp
      simp only [hlookup, some.injEq] at hrest
      subst hrest
      obtain ⟨hthreads, hwakers⟩ := h.wakerLocks (k := k) hfree
      have hidle : (s.waker k).clears = none := by rw [hk]; rfl
      -- the waker has the lock before it is at the list
      have hlocked : Inv (s.setLock w (some (.waker k))) place clearer := by
        refine ⟨h.placed, h.fits, h.timed, h.clearing, ⟨hthreads, ?_, h.locks.loop⟩⟩
        intro j v hv
        rcases eq_or_ne j k with rfl | hj
        · have hv' : (s.waker j).holds = some v := hv
          rw [hk] at hv'
          cases hv'
        · exact hwakers j v hj hv
      refine ⟨hlocked.resumed hw hon ?_ (update_self _ _ _) hidle rfl rfl
        (fun _ _ _ _ hnext => nomatch hnext), fun _ => hlocked.removeThread_failed hw hon⟩
      rintro j v - hv rfl
      have hheld := h.locks.waker j v hv
      rw [hfree] at hheld
      cases hheld
  | waker k =>
    have hwaker : wakerStep s k = some s' := hstep
    unfold wakerStep at hwaker
    split at hwaker
    · rename_i t rest hk
      cases hwaker
      exact ⟨⟨place, _, h.wakerClear hk⟩, fun _ => rfl⟩
    · rename_i w o q hk
      cases hwaker
      exact ⟨⟨place, clearer, h.wakerMove (w := w) (by rw [hk]; rfl) (by rw [hk]; rfl) rfl rfl
        (fun _ _ _ _ hnext => nomatch hnext)⟩, fun _ => rfl⟩
    · grind [h.broadcastStep]
    · cases hwaker
  | timeout t =>
    simp only [Sleepqueue.step] at hstep
    split at hstep
    · cases hstep
    · rename_i g hg
      cases hstep
      obtain ⟨⟨clearer', hinv⟩, hfailed⟩ := h.timeout hg
      exact ⟨⟨place, clearer', hinv⟩, fun _ => hfailed⟩
  | expire t =>
    simp only [Sleepqueue.step] at hstep
    split at hstep
    · cases hstep
    · rename_i g hg
      cases hstep
      exact ⟨⟨place, clearer, h.local ⟨rfl, rfl, rfl, rfl⟩ rfl t _ rfl rfl (h.fits t)
        ((h.timed t).expire hg)⟩, fun _ => rfl⟩
  | routine t g =>
    obtain ⟨hg, ⟨⟩⟩ := ite_none_right_eq_some.mp hstep
    obtain ⟨clearer', hinv⟩ := h.routine hg htime
    exact ⟨⟨place, clearer', hinv⟩, fun hne => absurd rfl (hne t g)⟩
  | timerClear t =>
    simp only [Sleepqueue.step] at hstep
    split at hstep
    · cases hstep
    · rename_i hne
      cases hstep
      exact ⟨⟨place, _, h.timerClear hne⟩, fun _ => rfl⟩

theorem inv_init : Inv init Place.thread (fun _ => none) := by
  refine ⟨placed_init, ?_, ?_, ⟨?_, ?_, ?_⟩, ⟨?_, ?_, ?_⟩⟩
  · intro t
    exact ⟨rfl, .inl rfl, rfl, rfl⟩
  · intro t
    refine ⟨?_, ⟨?_, ?_⟩, ⟨List.nodup_nil, ?_⟩, ?_, ?_, ?_⟩ <;> simp [init]
  all_goals simp [init, Waker.clears, Waker.holds, Waker.next, Pc.holds]

end System

end RtemsLibbsd.Sleepqueue
