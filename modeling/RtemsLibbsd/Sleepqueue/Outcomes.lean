import RtemsLibbsd.Sleepqueue.Safety

/-!
# What a sleep returns

`sleepq_timedwait` returns `td_sq_state`: 0 after a wakeup, `EWOULDBLOCK` after a timeout.  Timers
take two steps here, so a routine may run after `_Thread_Timer_remove`.

* `Truthful` — a result of `EWOULDBLOCK` is due to the watchdog inserted for this sleep, a signal
  makes one sleeper return 0, and no routine ends another sleep than its own.
* `Picks` — `sleepq_signal` does not find a thread at the head of its queue that has timed out.
* **`truthful_of_run`** — in every run whose steps meet `InTime` and `Picks` the results are
  truthful.

A thread in state `TD_SQ_PANIC` stays on its queue until it dequeues itself, and takes a signal to
no effect.  A routine that is late ends the next sleep (`stolenRun_not_truthful`).
-/

namespace RtemsLibbsd.Sleepqueue

open Option List RtemsLibbsd.Transition

def State.Settled (s : State) (t : Nat) : Prop :=
  (s.thread t).pc.asleep = true ∧ (s.thread t).sqState = .wakeup ∧ s.wchan t = none

structure Truthful (s : State) : Prop where
  timeout : ∀ t g, (t, g, SqState.panic) ∈ s.returned → (t, g) ∈ s.fired
  /-- The sleep that a signal picked has returned 0, or is about to. -/
  signal : ∀ t g, (t, g) ∈ s.signalled →
    ((t, g, SqState.wakeup) ∈ s.returned ∨ (s.thread t).sleep = g ∧ s.Settled t) ∧
    ∀ st, (t, g, st) ∈ s.returned → st = .wakeup
  once : s.signalled.Nodup
  own : ∀ t g k, (t, g, k) ∈ s.ended → g = k

/-- The thread that `sleepq_signal` picks has not timed out. -/
def Picks (s : State) : Act → Prop
  | .signal k q =>
    match s.waker k with
    | .locked w =>
      match s.queues.lookup w with
      | none => True
      | some o => ∀ t ∈ ((s.queues.object o).blocked q).head?, (s.thread t).sqState ≠ .panic
    | _ => True
  | _ => True

instance (s : State) (a : Act) : Decidable (Picks s a) := by
  unfold Picks
  split
  · split
    · split <;> infer_instance
    · infer_instance
  · infer_instance

structure Outcomes (s : State) : Prop where
  results : ∀ t g st, (t, g, st) ∈ s.returned → g ≤ (s.thread t).sleep ∧
    (g = (s.thread t).sleep → (s.thread t).pc.asleep = false) ∧
    (st = .panic → (t, g) ∈ s.fired) ∧ ((t, g) ∈ s.signalled → st = .wakeup)
  signals : ∀ t g, (t, g) ∈ s.signalled → g ≤ (s.thread t).sleep ∧
    ((t, g, SqState.wakeup) ∈ s.returned ∨ g = (s.thread t).sleep ∧ s.Settled t)
  once : s.signalled.Nodup
  own : ∀ t g k, (t, g, k) ∈ s.ended → g = k

theorem Outcomes.truthful {s : State} (h : Outcomes s) : Truthful s := by
  refine ⟨?_, ?_, h.once, h.own⟩
  · intro t g hret
    exact (h.results t g .panic hret).2.2.1 rfl
  · intro t g hsig
    refine ⟨?_, ?_⟩
    · rcases (h.signals t g hsig).2 with hret | ⟨hg, hset⟩
      · exact .inl hret
      · exact .inr ⟨hg.symm, hset⟩
    · intro st hret
      exact (h.results t g st hret).2.2.2 hsig

/-- A step that neither begins nor ends a sleep and picks no thread. -/
structure Quiet (s s' : State) : Prop where
  sleep : ∀ t, (s'.thread t).sleep = (s.thread t).sleep
  asleep : ∀ t, (s'.thread t).pc.asleep = (s.thread t).pc.asleep
  settled : ∀ t, s.Settled t → s'.Settled t
  fired : ∀ p ∈ s.fired, p ∈ s'.fired
  returned : s'.returned = s.returned
  signalled : s'.signalled = s.signalled

section Steps

variable {s s' : State}

theorem Outcomes.quiet (h : Outcomes s) (hq : Quiet s s')
    (hended : ∀ t g k, (t, g, k) ∈ s'.ended → (t, g, k) ∈ s.ended ∨ g = k) : Outcomes s' := by
  refine ⟨?_, ?_, ?_, ?_⟩
  · intro t g st hret
    rw [hq.returned] at hret
    obtain ⟨h1, h2, h3, h4⟩ := h.results t g st hret
    rw [hq.sleep, hq.asleep, hq.signalled]
    exact ⟨h1, h2, fun hst => hq.fired _ (h3 hst), h4⟩
  · intro t g hsig
    rw [hq.signalled] at hsig
    obtain ⟨h1, h2⟩ := h.signals t g hsig
    grind [hq.sleep, hq.returned, hq.settled]
  · rw [hq.signalled]
    exact h.once
  · intro t g k hk
    rcases hended t g k hk with hold | heq
    · exact h.own t g k hold
    · exact heq

theorem quiet_setThread {x : State} (t : Nat) (td : Thread) (hthread : x.thread = s.thread)
    (hwchan : ∀ u, x.wchan u = s.wchan u) (hfired : x.fired = s.fired)
    (hreturned : x.returned = s.returned) (hsignalled : x.signalled = s.signalled)
    (hsleep : td.sleep = (s.thread t).sleep) (hasleep : td.pc.asleep = (s.thread t).pc.asleep)
    (hst : (s.thread t).sqState = .wakeup → td.sqState = .wakeup) :
    Quiet s (x.setThread t td) := by
  have hself := setThread_self x t td
  have hother : ∀ u ≠ t, (x.setThread t td).thread u = s.thread u := by
    intro u hu
    rw [setThread_of_ne x td hu, hthread]
  refine ⟨?_, ?_, ?_, ?_, hreturned, hsignalled⟩
  · intro u
    rcases eq_or_ne u t with rfl | hu
    · rw [hself, hsleep]
    · rw [hother u hu]
  · intro u
    rcases eq_or_ne u t with rfl | hu
    · rw [hself, hasleep]
    · rw [hother u hu]
  · rintro u ⟨h1, h2, h3⟩
    have hw : (x.setThread t td).wchan u = none := (hwchan u).trans h3
    rcases eq_or_ne u t with rfl | hu
    · refine ⟨?_, ?_, hw⟩
      · rw [hself, hasleep, h1]
      · rw [hself, hst h2]
    · refine ⟨?_, ?_, hw⟩
      · rw [hother u hu, h1]
      · rw [hother u hu, h2]
  · intro p hp
    show p ∈ x.fired
    rw [hfired]
    exact hp

theorem quiet_remove {o t k : Nat} {rest : Waker} (hon : s.wchan t ≠ none) :
    Quiet s (resume (sleepqRemoveThread s o t) k t rest) := by
  have hthread : ∀ u, (resume (sleepqRemoveThread s o t) k t rest).thread u =
      if u = t then { s.thread t with sqState := (s.thread t).sqState.removed.1 } else s.thread u :=
    removeThread_thread s o t
  have hwchan : ∀ u, (resume (sleepqRemoveThread s o t) k t rest).wchan u =
      if u = t then none else s.wchan u := removeThread_wchan s o t
  refine ⟨?_, ?_, ?_, fun _ h => h, rfl, rfl⟩
  · intro u
    rw [hthread]
    split
    · rename_i hu
      rw [hu]
    · rfl
  · intro u
    rw [hthread]
    split
    · rename_i hu
      rw [hu]
    · rfl
  · rintro u ⟨h1, h2, h3⟩
    have hu : u ≠ t := by
      rintro rfl
      exact hon h3
    refine ⟨?_, ?_, ?_⟩
    · rw [hthread, if_neg hu]
      exact h1
    · rw [hthread, if_neg hu]
      exact h2
    · rw [hwchan, if_neg hu]
      exact h3

theorem Outcomes.begin (h : Outcomes s) {t : Nat} (hawake : (s.thread t).pc.asleep = false)
    (hother : ∀ u ≠ t, s'.thread u = s.thread u ∧ s'.wchan u = s.wchan u)
    (hsleep : (s'.thread t).sleep = (s.thread t).sleep + 1) (hfired : s'.fired = s.fired)
    (hreturned : s'.returned = s.returned) (hsignalled : s'.signalled = s.signalled)
    (hended : s'.ended = s.ended) : Outcomes s' := by
  refine ⟨?_, ?_, hsignalled ▸ h.once, hended ▸ h.own⟩
  · intro u g st hret
    rw [hreturned] at hret
    obtain ⟨h1, h2, h3⟩ := h.results u g st hret
    grind
  · intro u g hsig
    rw [hsignalled] at hsig
    rw [hreturned]
    obtain ⟨h1, h2⟩ := h.signals u g hsig
    rcases eq_or_ne u t with rfl | hu
    · grind [State.Settled]
    · rw [(hother u hu).1]
      refine ⟨h1, h2.imp_right ?_⟩
      rintro ⟨hg, hset⟩
      grind [State.Settled]

theorem Outcomes.return (h : Outcomes s) {t : Nat} (hasleep : (s.thread t).pc.asleep = true)
    (hfired : (s.thread t).sqState = .panic → (t, (s.thread t).sleep) ∈ s.fired)
    (hother : ∀ u ≠ t, s'.thread u = s.thread u ∧ s'.wchan u = s.wchan u)
    (hsleep : (s'.thread t).sleep = (s.thread t).sleep) (hpc : (s'.thread t).pc = .run)
    (hran : s'.fired = s.fired)
    (hreturned : s'.returned = (t, (s.thread t).sleep, (s.thread t).sqState) :: s.returned)
    (hsignalled : s'.signalled = s.signalled) (hended : s'.ended = s.ended) : Outcomes s' := by
  have hsettled : (t, (s.thread t).sleep) ∈ s.signalled → (s.thread t).sqState = .wakeup := by
    intro hsig
    rcases (h.signals t _ hsig).2 with hret | ⟨-, hset⟩
    · have := (h.results t _ _ hret).2.1 rfl
      rw [hasleep] at this
      cases this
    · exact hset.2.1
  refine ⟨?_, ?_, hsignalled ▸ h.once, hended ▸ h.own⟩
  · intro u g st hret
    rw [hreturned] at hret
    rw [hran, hsignalled]
    rcases mem_cons.mp hret with heq | hret
    · cases heq
      rw [hsleep, hpc]
      exact ⟨Nat.le_refl _, fun _ => rfl, hfired, hsettled⟩
    · obtain ⟨h1, h2, h3⟩ := h.results u g st hret
      grind
  · intro u g hsig
    rw [hsignalled] at hsig
    obtain ⟨h1, h2⟩ := h.signals u g hsig
    rcases eq_or_ne u t with rfl | hu
    · grind
    · grind [State.Settled]

theorem Outcomes.pick (h : Outcomes s) {o t k : Nat} {rest : Waker} (hon : s.wchan t ≠ none)
    (hasleep : (s.thread t).pc.asleep = true) (hst : (s.thread t).sqState.removed.1 = .wakeup) :
    Outcomes (resume (sleepqRemoveThread { s with
      signalled := (t, (s.thread t).sleep) :: s.signalled } o t) k t rest) := by
  have hthread : ∀ u, (resume (sleepqRemoveThread { s with
      signalled := (t, (s.thread t).sleep) :: s.signalled } o t) k t rest).thread u =
      if u = t then { s.thread t with sqState := (s.thread t).sqState.removed.1 } else s.thread u :=
    removeThread_thread _ o t
  have hwchan : ∀ u, (resume (sleepqRemoveThread { s with
      signalled := (t, (s.thread t).sleep) :: s.signalled } o t) k t rest).wchan u =
      if u = t then none else s.wchan u := removeThread_wchan _ o t
  have hview : ∀ u, ((resume (sleepqRemoveThread { s with
      signalled := (t, (s.thread t).sleep) :: s.signalled } o t) k t rest).thread u).sleep =
      (s.thread u).sleep ∧ ((resume (sleepqRemoveThread { s with
      signalled := (t, (s.thread t).sleep) :: s.signalled } o t) k t rest).thread u).pc =
      (s.thread u).pc := by
    intro u
    grind
  -- this sleep is still under way
  have hnew : ∀ st, (t, (s.thread t).sleep, st) ∉ s.returned := by
    intro st hret
    have := (h.results t _ _ hret).2.1 rfl
    rw [hasleep] at this
    cases this
  refine ⟨?_, ?_, ?_, h.own⟩
  · intro u g st hret
    have hret' : (u, g, st) ∈ s.returned := hret
    obtain ⟨h1, h2, h3, h4⟩ := h.results u g st hret'
    rw [(hview u).1, (hview u).2]
    refine ⟨h1, h2, h3, ?_⟩
    intro hsig
    rcases mem_cons.mp hsig with heq | hsig
    · cases heq
      exact absurd hret' (hnew st)
    · exact h4 hsig
  · intro u g hsig
    rw [(hview u).1]
    rcases mem_cons.mp hsig with heq | hsig
    · cases heq
      refine ⟨Nat.le_refl _, .inr ⟨rfl, ?_, ?_, ?_⟩⟩
      · rw [(hview t).2, hasleep]
      · rw [hthread, if_pos rfl]
        exact hst
      · simp [hwchan]
    · obtain ⟨h1, h2⟩ := h.signals u g hsig
      refine ⟨h1, h2.imp_right ?_⟩
      rintro ⟨hg, hset⟩
      have hu : u ≠ t := by
        rintro rfl
        exact hon hset.2.2
      refine ⟨hg, ?_, ?_, ?_⟩
      · rw [(hview u).2]
        exact hset.1
      · rw [hthread, if_neg hu]
        exact hset.2.1
      · rw [hwchan, if_neg hu]
        exact hset.2.2
  · refine nodup_cons.mpr ⟨?_, h.once⟩
    intro hsig
    rcases (h.signals t _ hsig).2 with hret | ⟨-, hset⟩
    · exact hnew _ hret
    · exact hon hset.2.2

theorem Outcomes.fire (h : Outcomes s) {t g : Nat}
    (htime : (s.thread t).sqState = .tired ∨ (s.thread t).sqState = .sleepy ∨
      (s.thread t).sqState = .sleeping → g = (s.thread t).sleep) :
    Outcomes (s.fire t g) := by
  have hquiet : ∀ (td : Thread) (l : List (Nat × Nat × Nat)), td.sleep = (s.thread t).sleep →
      td.pc = (s.thread t).pc → ((s.thread t).sqState = .wakeup → td.sqState = .wakeup) →
      Quiet s (State.setThread { s with fired := (t, g) :: s.fired, ended := l } t td) := by
    intro td l hsleep hpc hst
    have hbase := quiet_setThread (s := s) (x := s) t td rfl (fun _ => rfl) rfl rfl rfl hsleep
      (by rw [hpc]) hst
    exact ⟨hbase.sleep, hbase.asleep, hbase.settled, fun _ hp => mem_cons_of_mem _ hp, rfl, rfl⟩
  have hended : g = (s.thread t).sleep → ∀ u k j,
      (u, k, j) ∈ (t, g, (s.thread t).sleep) :: s.ended → (u, k, j) ∈ s.ended ∨ k = j := by
    intro hg u k j hmem
    grind
  cases hst : (s.thread t).sqState with
  | sleeping =>
    simp only [State.fire, sleepqTimeout, hst]
    exact h.quiet (hquiet { s.thread t with sqState := .nightmare, clears := (s.thread t).clears + 1 }
      ((t, g, (s.thread t).sleep) :: s.ended) rfl rfl (by simp [hst]))
      (hended (htime (by simp [hst])))
  | tired =>
    simp only [State.fire, sleepqTimeout, hst]
    exact h.quiet (hquiet { s.thread t with sqState := .nightmare }
      ((t, g, (s.thread t).sleep) :: s.ended) rfl rfl (by simp [hst]))
      (hended (htime (by simp [hst])))
  | sleepy =>
    simp only [State.fire, sleepqTimeout, hst]
    exact h.quiet (hquiet { s.thread t with sqState := .nightmare }
      ((t, g, (s.thread t).sleep) :: s.ended) rfl rfl (by simp [hst]))
      (hended (htime (by simp [hst])))
  | _ =>
    simp only [State.fire, sleepqTimeout, hst]
    refine h.quiet ⟨fun _ => rfl, fun _ => rfl, fun _ h => h, fun _ hp => mem_cons_of_mem _ hp,
      rfl, rfl⟩ ?_
    intro u k j hmem
    exact .inl hmem

theorem removed_wakeup {st : SqState} (h : st ≠ .panic) : st.removed.1 = .wakeup := by
  cases st with
  | panic => exact absurd rfl h
  | _ => rfl

theorem Outcomes.move (h : Outcomes s) (x : State) (t : Nat) (td : Thread) (hthread : x.thread = s.thread)
    (hwchan : ∀ u, x.wchan u = s.wchan u) (hfired : x.fired = s.fired) (hreturned : x.returned = s.returned)
    (hsignalled : x.signalled = s.signalled) (hended : x.ended = s.ended) (hsleep : td.sleep = (s.thread t).sleep)
    (hasleep : td.pc.asleep = (s.thread t).pc.asleep)
    (hwakeup : (s.thread t).sqState = .wakeup → td.sqState = .wakeup) : Outcomes (x.setThread t td) := by
  grind [h.quiet, quiet_setThread, State.setThread]

theorem Outcomes.same (h : Outcomes s) (x : State) (hthread : x.thread = s.thread)
    (hqueues : x.queues = s.queues) (hfired : x.fired = s.fired) (hreturned : x.returned = s.returned)
    (hsignalled : x.signalled = s.signalled) (hended : x.ended = s.ended) : Outcomes x := by
  have hwchan : ∀ u, x.wchan u = s.wchan u := by
    intro u
    unfold State.wchan
    rw [hqueues]
  have hx := h.move x 0 (s.thread 0) hthread hwchan hfired hreturned hsignalled hended rfl rfl id
  have heq : x.setThread 0 (s.thread 0) = x := by
    unfold State.setThread
    simp [← hthread]
  rw [heq] at hx
  exact hx

theorem Outcomes.switchStep {place : Nat → Place} {clearer : Nat → Option Clearer} (h : Outcomes s)
    (hi : Inv s place clearer) {t : Nat} (hstep : sleepqSwitch s t = some s') : Outcomes s' := by
  unfold sleepqSwitch at hstep
  cases hpc : (s.thread t).pc with
  | switch1 w =>
    cases hst : (s.thread t).sqState <;> simp only [hpc, hst, some.injEq] at hstep <;>
      subst hstep <;>
      exact h.move (s.assert _) t _ rfl (fun _ => rfl) rfl rfl rfl rfl rfl (by rw [hpc]; rfl)
        (by simp [hst])
  | setState w =>
    simp only [hpc, some.injEq] at hstep
    subst hstep
    exact h.move s t _ rfl (fun _ => rfl) rfl rfl rfl rfl rfl (by rw [hpc]; rfl) id
  | switch2 w =>
    cases hst : (s.thread t).sqState <;> simp only [hpc, hst, some.injEq] at hstep <;>
      subst hstep <;>
      exact h.move (s.assert _) t _ rfl (fun _ => rfl) rfl rfl rfl rfl rfl (by rw [hpc]; rfl)
        (by simp [hst])
  | clear w r =>
    simp only [hpc, some.injEq] at hstep
    subst hstep
    exact h.move s t _ rfl (fun _ => rfl) rfl rfl rfl rfl rfl (by rw [hpc]; rfl) id
  | switch3 w r =>
    simp only [hpc] at hstep
    split at hstep
    · cases hstep
    · cases hst : (s.thread t).sqState <;> simp only [hst, some.injEq] at hstep <;>
        subst hstep <;>
        exact h.move (s.assert _) t _ rfl (fun _ => rfl) rfl rfl rfl rfl rfl (by rw [hpc]; rfl)
          (by simp [hst])
  | timerRemove w r =>
    have hasleep : (s.thread t).pc.asleep = true := by rw [hpc]; rfl
    simp only [hpc, some.injEq] at hstep
    subst hstep
    cases r with
    | true => exact h.move s t _ rfl (fun _ => rfl) rfl rfl rfl rfl rfl (by rw [hpc]; rfl) id
    | false =>
      refine h.return (t := t) hasleep (fun hst => (hi.timed t).timedOut hasleep (.inr hst)) ?_ ?_ ?_
        rfl ?_ rfl rfl
      · intro u hu
        simp [sleepqReturn, State.setThread, hu, State.wchan]
      · simp [sleepqReturn]
      · simp [sleepqReturn]
      · simp [sleepqReturn, State.setThread]
  | remove w =>
    have hasleep : (s.thread t).pc.asleep = true := by rw [hpc]; rfl
    have hfired : (s.thread t).sqState = .panic → (t, (s.thread t).sleep) ∈ s.fired :=
      fun hst => (hi.timed t).timedOut hasleep (.inr hst)
    simp only [hpc] at hstep
    split at hstep
    · cases hstep
    · split at hstep
      · cases hstep
        refine h.return (t := t) hasleep hfired ?_ ?_ ?_ rfl rfl rfl rfl
        · intro u hu
          simp [sleepqReturn, State.setThread, hu, State.wchan]
        · simp [sleepqReturn]
        · simp [sleepqReturn]
      · rename_i hon
        rw [not_not] at hon
        have hfits := hi.fits t
        rw [hpc] at hfits
        have hst : (s.thread t).sqState = .panic := hfits.2.1
        obtain ⟨p, hp⟩ := hi.placed.queued t w hon
        have hlookup := (hi.placed.lookup w p).mpr hp
        have hno : (sleepqRemoveThread s p t).2 = false := by
          show (s.thread t).sqState.removed.2 = false
          rw [hst]
          rfl
        simp only [hlookup, some.injEq] at hstep
        subst hstep
        rw [if_neg (by simp [hno])]
        refine h.return (t := t) hasleep hfired ?_ ?_ ?_ rfl ?_ rfl rfl
        · intro u hu
          refine ⟨?_, ?_⟩
          · simp [sleepqReturn, State.setThread, removeThread_thread, hu]
          · show (sleepqRemoveThread s p t).1.wchan u = _
            rw [removeThread_wchan, if_neg hu]
        · simp [sleepqReturn, removeThread_thread]
        · simp [sleepqReturn]
        · simp only [sleepqReturn, removeThread_thread, if_pos, hst]
          rfl
  | _ => simp [hpc] at hstep

/-- **Every step that is in time and picks no thread that has timed out keeps the histories.** -/
theorem Outcomes.step {place : Nat → Place} {clearer : Nat → Option Clearer} (h : Outcomes s)
    (hi : Inv s place clearer) {a : Act} (htime : InTime s a) (hpicks : Picks s a)
    (hstep : step s a = some s') : Outcomes s' := by
  cases a with
  | setPriority t p =>
    cases hstep
    exact h.move s t _ rfl (fun _ => rfl) rfl rfl rfl rfl rfl rfl id
  | lock t w =>
    obtain ⟨⟨hpc, -⟩, ⟨⟩⟩ := ite_none_right_eq_some.mp hstep
    exact h.move (s.setLock w _) t _ rfl (fun _ => rfl) rfl rfl rfl rfl rfl (by rw [hpc]; rfl) id
  | unlock t =>
    simp only [Sleepqueue.step] at hstep
    split at hstep
    · rename_i w hpc
      cases hstep
      exact h.move (s.setLock w none) t _ rfl (fun _ => rfl) rfl rfl rfl rfl rfl (by rw [hpc]; rfl) id
    · cases hstep
  | add t q =>
    simp only [Sleepqueue.step] at hstep
    split at hstep
    · rename_i w hpc
      cases hstep
      have hfits := hi.fits t
      rw [hpc] at hfits
      obtain ⟨o, hown⟩ := ne_none_iff_exists'.mp ((hi.placed.owner t).mp hfits.1)
      refine h.begin (t := t) (by rw [hpc]; rfl) ?_ ?_ ?_ ?_ ?_ ?_
      · intro u hu
        refine ⟨?_, ?_⟩
        · simp [sleepqAdd, hown, State.setThread, State.assert, hu]
        · simp only [sleepqAdd, hown, State.setThread, State.assert, State.wchan, enqueue_link,
            give_link, if_neg hu]
      · simp [sleepqAdd, hown, State.setThread, State.assert]
      all_goals simp [sleepqAdd, hown, State.setThread, State.assert]
    · cases hstep
  | setTimeout t =>
    simp only [Sleepqueue.step] at hstep
    split at hstep
    · rename_i w hpc
      cases hstep
      exact h.move (s.assert _) t _ rfl (fun _ => rfl) rfl rfl rfl rfl rfl (by rw [hpc]; rfl) id
    · cases hstep
  | drop t =>
    simp only [Sleepqueue.step] at hstep
    split at hstep
    · rename_i w hpc
      cases hstep
      exact h.move (s.setLock w none) t _ rfl (fun _ => rfl) rfl rfl rfl rfl rfl (by rw [hpc]; rfl) id
    · rename_i w hpc
      cases hstep
      exact h.move (s.setLock w none) t _ rfl (fun _ => rfl) rfl rfl rfl rfl rfl (by rw [hpc]; rfl) id
    · cases hstep
  | relock t =>
    simp only [Sleepqueue.step] at hstep
    split at hstep
    · rename_i w hpc
      obtain ⟨-, ⟨⟩⟩ := ite_none_right_eq_some.mp hstep
      exact h.move (s.setLock w _) t _ rfl (fun _ => rfl) rfl rfl rfl rfl rfl (by rw [hpc]; rfl) id
    · cases hstep
  | wait t =>
    simp only [Sleepqueue.step] at hstep
    split at hstep
    · rename_i w hpc
      cases hstep
      exact h.move (s.setLock w none) t _ rfl (fun _ => rfl) rfl rfl rfl rfl rfl (by rw [hpc]; rfl) id
    · rename_i w hpc
      cases hstep
      exact h.move (s.setLock w none) t _ rfl (fun _ => rfl) rfl rfl rfl rfl rfl (by rw [hpc]; rfl) id
    · cases hstep
  | switch t => exact h.switchStep hi hstep
  | wakerLock k w =>
    obtain ⟨-, ⟨⟩⟩ := ite_none_right_eq_some.mp hstep
    exact h.same _ rfl rfl rfl rfl rfl rfl
  | wakerRelease k =>
    simp only [Sleepqueue.step] at hstep
    split at hstep
    · cases hstep
      exact h.same _ rfl rfl rfl rfl rfl rfl
    · cases hstep
  | signal k q =>
    simp only [Sleepqueue.step] at hstep
    simp only [Picks] at hpicks
    split at hstep
    · rename_i w hk
      simp only [hk] at hpicks
      split at hstep
      · cases hstep
        exact h
      · rename_i o hlookup
        simp only [hlookup] at hpicks
        split at hstep
        · cases hstep
        · rename_i t rest hqueue
          cases hstep
          have hon := (hi.on_queue (hi.lookup_wchan hlookup) (hqueue ▸ mem_cons_self)).1
          have hst : (s.thread t).sqState ≠ .panic := by
            refine hpicks t ?_
            rw [hqueue]
            rfl
          have hfits := hi.fits t
          rw [hon] at hfits
          exact h.pick (by rw [hon]; simp) hfits.asleep (removed_wakeup hst)
    · cases hstep
  | broadcast k q =>
    simp only [Sleepqueue.step] at hstep
    split at hstep
    · split at hstep
      · cases hstep
        exact h
      · cases hstep
        exact h.same _ rfl rfl rfl rfl rfl rfl
    · cases hstep
  | remove k t w =>
    obtain ⟨-, hrest⟩ := ite_none_right_eq_some.mp hstep
    split at hrest
    · cases hrest
      exact h
    · rename_i hon
      rw [not_not] at hon
      obtain ⟨p, hp⟩ := hi.placed.queued t w hon
      have hlookup := (hi.placed.lookup w p).mpr hp
      simp only [hlookup, some.injEq] at hrest
      subst hrest
      have hlocked := h.same (s.setLock w (some (.waker k))) rfl rfl rfl rfl rfl rfl
      refine hlocked.quiet (quiet_remove ?_) (fun _ _ _ hmem => .inl hmem)
      show s.wchan t ≠ none
      rw [hon]
      simp
  | waker k =>
    have hwaker : wakerStep s k = some s' := hstep
    unfold wakerStep at hwaker
    split at hwaker
    · rename_i t rest hk
      cases hwaker
      have hclear := h.move s t { s.thread t with waiting := false } rfl (fun _ => rfl) rfl rfl rfl rfl rfl rfl id
      exact ⟨hclear.results, hclear.signals, hclear.once, hclear.own⟩
    · cases hwaker
      exact h.same _ rfl rfl rfl rfl rfl rfl
    · rename_i w o q t hk
      cases hwaker
      obtain ⟨hw, hhead⟩ := hi.locks.loop k w o q t (by rw [hk]; rfl)
      obtain ⟨rest, hqueue⟩ := head?_eq_some_iff.mp hhead
      have hon := (hi.on_queue hw (hqueue ▸ mem_cons_self)).1
      exact h.quiet (quiet_remove (by rw [hon]; simp)) (fun _ _ _ hmem => .inl hmem)
    · cases hwaker
  | timeout t =>
    simp only [Sleepqueue.step] at hstep
    split at hstep
    · cases hstep
    · rename_i g hg
      cases hstep
      have hoff := h.move s t { s.thread t with watchdog := none } rfl (fun _ => rfl) rfl rfl rfl rfl rfl rfl id
      refine hoff.fire ?_
      intro _
      rw [setThread_self]
      exact ((hi.timed t).armed g hg).1
  | expire t =>
    simp only [Sleepqueue.step] at hstep
    split at hstep
    · cases hstep
    · cases hstep
      exact h.move s t _ rfl (fun _ => rfl) rfl rfl rfl rfl rfl rfl id
  | routine t g =>
    obtain ⟨-, ⟨⟩⟩ := ite_none_right_eq_some.mp hstep
    have hstart := h.move s t { s.thread t with due := (s.thread t).due.erase g } rfl (fun _ => rfl)
      rfl rfl rfl rfl rfl rfl id
    refine hstart.fire ?_
    rw [setThread_self]
    exact htime
  | timerClear t =>
    simp only [Sleepqueue.step] at hstep
    split at hstep
    · cases hstep
    · cases hstep
      have hclear := h.move s t { s.thread t with clears := (s.thread t).clears - 1, waiting := false } rfl (fun _ => rfl)
        rfl rfl rfl rfl rfl rfl id
      have heq : clearState (s.setThread t { s.thread t with clears := (s.thread t).clears - 1 }) t =
          s.setThread t { s.thread t with clears := (s.thread t).clears - 1, waiting := false } := by
        simp [clearState, State.setThread]
      rw [heq]
      exact hclear

end Steps

theorem outcomes_init : Outcomes init := by
  refine ⟨?_, ?_, nodup_nil, ?_⟩ <;> simp [init]

/-- **The results of sleeps are truthful in every run** in which no routine ends another sleep than
    its own and no signal finds a thread at the head of its queue that has timed out. -/
theorem truthful_of_run {acts : List Act} {s : State}
    (hmeet : StepsMeet step (fun u a => InTime u a ∧ Picks u a) init acts)
    (hrun : run step init acts = some s) : Truthful s := by
  have hinv : ∀ u a v, ((∃ place clearer, Inv u place clearer) ∧ Outcomes u) →
      InTime u a ∧ Picks u a → step u a = some v →
      (∃ place clearer, Inv v place clearer) ∧ Outcomes v := by
    rintro u a v ⟨⟨place, clearer, hi⟩, h⟩ ⟨htime, hpicks⟩ hstep
    exact ⟨(hi.step htime hstep).1, h.step hi htime hpicks hstep⟩
  exact (run_invariant_of_meet hinv acts init s ⟨⟨_, _, inv_init⟩, outcomes_init⟩ hmeet hrun).2.truthful

def sleepRun (t : Nat) : List Act :=
  [.lock t 1, .add t firstQueue, .setTimeout t, .wait t, .switch t, .switch t, .switch t]

/-- Two threads sleep; a signal wakes one of them up and the other times out, the routine of its
    watchdog running late, but in time. -/
def fairRun : List Act :=
  sleepRun 0 ++ sleepRun 1 ++ [.expire 1, .wakerLock 0 1, .signal 0 firstQueue, .waker 0, .wakerRelease 0,
    .switch 0, .switch 0, .routine 1 1, .timerClear 1, .switch 1, .switch 1, .switch 1]

theorem truthful_of_run_fairRun :
    (after fairRun).returned = [(1, 1, .panic), (0, 1, .wakeup)] ∧
    (after fairRun).signalled = [(0, 1)] ∧ Truthful (after fairRun) :=
  ⟨by decide, by decide, @truthful_of_run fairRun (after fairRun) (by decide) rfl⟩

/-- The first of two sleepers has timed out and is about to dequeue itself when a signal comes. -/
def stolenRun : List Act :=
  sleepRun 0 ++ sleepRun 1 ++ [.timeout 0, .timerClear 0, .switch 0, .switch 0, .wakerLock 0 1,
    .signal 0 firstQueue, .wakerRelease 0, .switch 0]

/-- A watchdog is taken off the timer queue, the thread is woken up and sleeps again, and the routine
    ends the second sleep. -/
def lateRun : List Act :=
  sleepRun 0 ++ [.expire 0, .wakerLock 0 1, .signal 0 firstQueue, .waker 0, .wakerRelease 0, .switch 0,
    .switch 0] ++ sleepRun 0 ++ [.routine 0 1, .timerClear 0, .switch 0, .switch 0, .switch 0]

theorem stolenRun_not_truthful :
    (∃ s, run step init stolenRun = some s ∧ ¬Truthful s) ∧
    ∃ s, run step init lateRun = some s ∧ ¬Truthful s := by
  refine ⟨⟨after stolenRun, rfl, ?_⟩, ⟨after lateRun, rfl, ?_⟩⟩
  · intro h
    have := (h.signal 0 1 (by decide)).2 .panic (by decide)
    cases this
  · intro h
    have := h.timeout 0 2 (by decide)
    revert this
    decide

end RtemsLibbsd.Sleepqueue
