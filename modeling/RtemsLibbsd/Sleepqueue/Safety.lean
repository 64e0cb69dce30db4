import RtemsLibbsd.Sleepqueue.Steps

/-!
# No sleeper is lost

What the invariants say about every reachable state, when a watchdog is taken off the timer queue
and its routine is run in one step.

* `Home` and `Sound` — the lists, the sleepqueue objects and the blocked threads.
* `Remaining` — the steps under way that unblock a thread.
* **`sleepq_sound_of_run`** — every reachable state is sound.
-/

namespace RtemsLibbsd.Sleepqueue

open RtemsLibbsd.Transition

inductive Home where
  | thread (t : Nat)
  | chain (h : Nat)
  | free (o : Nat)

/-- The object `o` is there. -/
def Queues.At (qs : Queues) (o : Nat) : Home → Prop
  | .thread t => (qs.link t).sleepqueue = some o
  | .chain h => o ∈ qs.chain h
  | .free p => o ∈ (qs.object p).free

/-- Steps of the thread's own `sleepq_switch`, of a waker or of a timer routine under way. -/
def Remaining (t : Nat) (acts : List Act) : Prop :=
  acts = [.switch t] ∨ acts = [.switch t, .switch t] ∨ acts = [.timerClear t] ∨
    ∃ k, acts = [.waker k]

def Queues.Listed (qs : Queues) (t : Nat) (p : Nat × Fin NR_SLEEPQS) : Prop :=
  t ∈ (qs.object p.1).blocked p.2

/-- The contract of the sleepqueues in one state. -/
structure Sound (s : State) : Prop where
  asserted : s.failed = false
  listed : ∀ t, (s.thread t).sqState = .tired ∨ (s.thread t).sqState = .sleepy ∨
    (s.thread t).sqState = .sleeping ∨ (s.thread t).sqState = .nightmare →
    ∃! p, s.queues.Listed t p
  /-- A thread is on one list at most, or it owns a sleepqueue object. -/
  owner : ∀ t, (∃! p, s.queues.Listed t p) ∧ (s.queues.link t).sleepqueue = none ∨
    (∀ p, ¬s.queues.Listed t p) ∧ ∃ o, (s.queues.link t).sleepqueue = some o
  conserved : ∀ o, ∃! p, s.queues.At o p
  nodup : (∀ o q, ((s.queues.object o).blocked q).Nodup) ∧ (∀ h, (s.queues.chain h).Nodup) ∧
    ∀ o, (s.queues.object o).free.Nodup
  /-- A blocked thread that was removed, or for whose sleep the watchdog routine has run, is unblocked by
      steps under way. -/
  relieved : ∀ t, (s.thread t).waiting = true →
    s.wchan t = none ∨ (t, (s.thread t).sleep) ∈ s.fired →
    ∃ acts s', Remaining t acts ∧ run step s acts = some s' ∧ (s'.thread t).waiting = false
  returned : ∀ t, (s.thread t).pc = .run → (∀ p, ¬s.queues.Listed t p) ∧
    (∃ o, (s.queues.link t).sleepqueue = some o) ∧ (s.thread t).watchdog = none ∧
    (s.thread t).waiting = false

section Sound

variable {s : State} {place : Nat → Place} {clearer : Nat → Option Clearer}

theorem Inv.listed_iff (h : Inv s place clearer) (t : Nat) (p : Nat × Fin NR_SLEEPQS) :
    s.queues.Listed t p ↔ ∃ w, s.wchan t = some w ∧ place p.1 = .chain w ∧
      (s.queues.link t).sqqueue = p.2 := by
  unfold Queues.Listed
  constructor
  · intro hmem
    by_cases hplace : ∃ w, place p.1 = .chain w
    · obtain ⟨w, hplace⟩ := hplace
      obtain ⟨hw, hq⟩ := (h.placed.blocked p.1 w hplace p.2 t).mp hmem
      exact ⟨w, hw, hplace, hq⟩
    · rw [(h.placed.unused p.1 (fun w hw => hplace ⟨w, hw⟩)).1] at hmem
      cases hmem
  · rintro ⟨w, hw, hplace, hq⟩
    exact (h.placed.blocked p.1 w hplace p.2 t).mpr ⟨hw, hq⟩

theorem Inv.listed_of_wchan (h : Inv s place clearer) {t w : Nat} (hw : s.wchan t = some w) :
    ∃! p, s.queues.Listed t p := by
  obtain ⟨o, ho⟩ := h.placed.queued t w hw
  refine ⟨(o, (s.queues.link t).sqqueue), (h.listed_iff t _).mpr ⟨w, hw, ho, rfl⟩, ?_⟩
  rintro ⟨p, q⟩ hp
  grind [h.listed_iff, h.placed.unique]

theorem Inv.not_listed (h : Inv s place clearer) {t : Nat} (hw : s.wchan t = none) (p) :
    ¬s.queues.Listed t p := by
  intro hp
  obtain ⟨v, hv, -⟩ := (h.listed_iff t p).mp hp
  rw [hw] at hv
  cases hv

theorem Fits.queued {pc : Pc} {st : SqState} {wchan : Option Nat} {waiting pending : Bool}
    (h : Fits pc st wchan waiting pending)
    (hst : st = .tired ∨ st = .sleepy ∨ st = .sleeping ∨ st = .nightmare) :
    ∃ w, wchan = some w := by
  cases pc with
  | clear v r => cases r <;> (obtain ⟨-, rfl, -⟩ := h; simp at hst)
  | switch3 v r =>
    cases r with
    | true =>
      obtain ⟨-, rfl, -⟩ := h
      simp at hst
    | false =>
      rcases h with ⟨hw, -⟩ | ⟨⟨hw, -⟩ | ⟨-, rfl⟩, -⟩
      · exact ⟨v, hw⟩
      · exact ⟨v, hw⟩
      · simp at hst
  | timerRemove v r => cases r <;> (obtain ⟨-, rfl, -⟩ := h; simp at hst)
  | remove v =>
    obtain ⟨-, rfl, -⟩ := h
    simp at hst
  | run =>
    obtain ⟨-, rfl | rfl, -⟩ := h <;> simp at hst
  | locked v =>
    obtain ⟨-, rfl | rfl, -⟩ := h <;> simp at hst
  | _ =>
    obtain ⟨⟨hw, -⟩ | ⟨-, rfl⟩, -⟩ := h
    · exact ⟨_, hw⟩
    · simp at hst

theorem Inv.conserved (h : Inv s place clearer) (o : Nat) : ∃! p, s.queues.At o p := by
  have hfree : ∀ p, o ∈ (s.queues.object p).free → ∃ w, place p = .chain w ∧ place o = .free w := by
    intro p hp
    grind [h.placed.free, h.placed.unused]
  cases hplace : place o with
  | thread t =>
    refine ⟨.thread t, (h.placed.thread t o).mpr hplace, ?_⟩
    rintro (u | i | p) hp
    · have := (h.placed.thread u o).mp hp
      rw [hplace] at this
      cases this
      rfl
    · obtain ⟨w, hw, -⟩ := (h.placed.chain i o).mp hp
      rw [hplace] at hw
      cases hw
    · obtain ⟨w, -, hw⟩ := hfree p hp
      rw [hplace] at hw
      cases hw
  | chain w =>
    refine ⟨.chain (scHash w), (h.placed.chain _ o).mpr ⟨w, hplace, rfl⟩, ?_⟩
    rintro (u | i | p) hp
    · have := (h.placed.thread u o).mp hp
      rw [hplace] at this
      cases this
    · obtain ⟨v, hv, rfl⟩ := (h.placed.chain i o).mp hp
      rw [hplace] at hv
      cases hv
      rfl
    · obtain ⟨v, -, hv⟩ := hfree p hp
      rw [hplace] at hv
      cases hv
  | free w =>
    obtain ⟨p, hp⟩ := h.placed.attached o w hplace
    refine ⟨.free p, (h.placed.free p w hp o).mpr hplace, ?_⟩
    rintro (u | i | r) hr
    · have := (h.placed.thread u o).mp hr
      rw [hplace] at this
      cases this
    · obtain ⟨v, hv, -⟩ := (h.placed.chain i o).mp hr
      rw [hplace] at hv
      cases hv
    · grind [h.placed.unique, Queues.At]

theorem Inv.relieved (h : Inv s place clearer) {t : Nat} (hwaiting : (s.thread t).waiting = true)
    (hover : s.wchan t = none ∨ (t, (s.thread t).sleep) ∈ s.fired) :
    ∃ acts s', Remaining t acts ∧ run Sleepqueue.step s acts = some s' ∧
      (s'.thread t).waiting = false := by
  have hdone : s.wchan t = none ∨ (s.thread t).sqState = .nightmare ∨ (s.thread t).sqState = .panic := by
    cases hw : s.wchan t with
    | none => exact .inl rfl
    | some w =>
      have hfits := h.fits t
      rw [hw] at hfits
      have hended := (h.timed t).ended hfits.asleep (hover.resolve_left (by simp [hw]))
      exact .inr (SqState.dark hended hfits.not_wakeup)
  have hclear : ∀ (u : State) w r, (u.thread t).pc = .clear w r →
      ∃ s', Sleepqueue.step u (.switch t) = some s' ∧ (s'.thread t).waiting = false := by
    intro u w r hpc
    grind [Sleepqueue.step, sleepqSwitch, setThread_self]
  have hfits := h.fits t
  rw [hwaiting] at hfits
  rcases hfits.relief hdone with hpending | ⟨w, r, hpc⟩ | ⟨w, hpc, hst⟩
  · cases hclearer : clearer t with
    | none =>
      rw [hclearer] at hpending
      cases hpending
    | some c =>
      cases c with
      | timer =>
        have hclears := h.clearing.byTimer t
        simp only [hclearer, if_true] at hclears
        refine ⟨[.timerClear t],
          clearState (s.setThread t { s.thread t with clears := (s.thread t).clears - 1 }) t,
          .inr (.inr (.inl rfl)), ?_, ?_⟩
        · simp [run, Sleepqueue.step, hclears]
        · exact congrArg Thread.waiting (setThread_self _ _ _)
      | waker k =>
        have hk := (h.clearing.byWaker k t).mpr hclearer
        cases hw : s.waker k with
        | clear u rest =>
          rw [hw] at hk
          cases hk
          refine ⟨[.waker k], (clearState s t).setWaker k rest, .inr (.inr (.inr ⟨k, rfl⟩)), ?_, ?_⟩
          · simp [run, Sleepqueue.step, wakerStep, hw]
          · exact congrArg Thread.waiting (setThread_self _ _ _)
        | _ =>
          rw [hw] at hk
          cases hk
  · obtain ⟨s', hs', hfalse⟩ := hclear s w r hpc
    exact ⟨[.switch t], s', .inl rfl, run_cons.mpr ⟨s', hs', rfl⟩, hfalse⟩
  · have hfirst : ∃ u r, Sleepqueue.step s (.switch t) = some u ∧ (u.thread t).pc = .clear w r := by
      rcases hst with hst | hst
      · refine ⟨(s.assert (s.wchan t = some w)).setThread t
          { s.thread t with sqState := .panic, pc := .clear w true }, true, ?_, ?_⟩
        · simp [Sleepqueue.step, sleepqSwitch, hpc, hst]
        · simp
      · refine ⟨(s.assert (s.wchan t = none)).setThread t { s.thread t with pc := .clear w false },
          false, ?_, ?_⟩
        · simp [Sleepqueue.step, sleepqSwitch, hpc, hst]
        · simp
    obtain ⟨u, r, hu, hupc⟩ := hfirst
    obtain ⟨s', hs', hfalse⟩ := hclear u w r hupc
    exact ⟨[.switch t, .switch t], s', .inr (.inl rfl),
      run_cons.mpr ⟨u, hu, run_cons.mpr ⟨s', hs', rfl⟩⟩, hfalse⟩

theorem Inv.sound (h : Inv s place clearer) (hfailed : s.failed = false) : Sound s := by
  have hown : ∀ t, s.wchan t = none → ∃ o, (s.queues.link t).sleepqueue = some o :=
    fun t hw => Option.ne_none_iff_exists'.mp ((h.placed.owner t).mp hw)
  refine ⟨hfailed, ?_, ?_, h.conserved, ⟨h.placed.blockedNodup, h.placed.chainNodup,
    h.placed.freeNodup⟩, fun t => h.relieved, ?_⟩
  · intro t hst
    obtain ⟨w, hw⟩ := (h.fits t).queued hst
    exact h.listed_of_wchan hw
  · intro t
    cases hw : s.wchan t with
    | none => exact .inr ⟨h.not_listed hw, hown t hw⟩
    | some w =>
      refine .inl ⟨h.listed_of_wchan hw, ?_⟩
      grind [h.placed.owner, State.wchan]
  · intro t hpc
    have hfits := h.fits t
    rw [hpc] at hfits
    exact ⟨h.not_listed hfits.1, hown t hfits.1, (h.timed t).not_armed (by rw [hpc]; rfl), hfits.2.2.1⟩

end Sound

/-- The watchdog is taken off the timer queue together with running its routine. -/
def Act.whole : Act → Bool
  | .expire _ | .routine _ _ => false
  | _ => true

/-- **Every reachable state is sound**: for any number of threads, wakers and timers and any order
    of their steps, no assertion fails, every thread that waits is on exactly one blocked list, the
    sleepqueue objects are conserved, a blocked thread that was removed or whose watchdog routine has
    run is unblocked by a step under way, and a thread that has returned is on no list, owns a sleepqueue
    object and has no watchdog on the timer queue. -/
theorem sleepq_sound_of_run {acts : List Act} {s : State} (hwhole : ∀ a ∈ acts, a.whole = true)
    (hrun : run step init acts = some s) : Sound s := by
  have hmeet : StepsMeet step (fun _ a => a.whole = true) init acts :=
    stepsMeet_of_forall acts init fun a ha _ => hwhole a ha
  have hinv : ∀ u a v, ((∃ place clearer, Inv u place clearer) ∧ u.failed = false) →
      a.whole = true → step u a = some v →
      (∃ place clearer, Inv v place clearer) ∧ v.failed = false := by
    rintro u a v ⟨⟨place, clearer, h⟩, hfailed⟩ ha hstep
    have hne : ∀ t g, a ≠ .routine t g := by
      rintro t g rfl
      cases ha
    have htime : InTime u a := by
      cases a with
      | routine t g => cases ha
      | _ => trivial
    obtain ⟨hnext, hsame⟩ := h.step htime hstep
    exact ⟨hnext, (hsame hne).trans hfailed⟩
  obtain ⟨⟨place, clearer, h⟩, hfailed⟩ := run_invariant_of_meet hinv acts init s
    ⟨⟨_, _, inv_init⟩, rfl⟩ hmeet hrun
  exact h.sound hfailed

def after (acts : List Act) : State := (run step init acts).getD init

def firstQueue : Fin NR_SLEEPQS := ⟨0, Nat.two_pos⟩

/-- The watchdog routine of a thread runs and a signal removes it while it blocks itself. -/
def raceRun : List Act :=
  [.lock 0 1, .add 0 firstQueue, .setTimeout 0, .wait 0, .switch 0, .switch 0, .lock 1 1,
   .add 1 firstQueue, .wait 1, .timeout 0, .wakerLock 0 1, .signal 0 firstQueue]

theorem sleepq_sound_of_run_raceRun :
    ((after raceRun).thread 0).waiting = true ∧ (after raceRun).wchan 0 = none ∧
    (0, ((after raceRun).thread 0).sleep) ∈ (after raceRun).fired ∧ Sound (after raceRun) :=
  ⟨by decide, by decide, by decide, @sleepq_sound_of_run raceRun (after raceRun) (by decide) rfl⟩

end RtemsLibbsd.Sleepqueue
