import RtemsLibbsd.Epoch.Callbacks

/-!
# Reclamation

* `Due` — a callback that the pass of `epoch_call_handler` under way, or the next one, executes if
  no section of its epoch is open meanwhile.
* `Reclaims` — no callback is about to be executed while a section is open that is older, every
  registered callback is pending, deferred or executed, once, and the handler is asked for while
  one is pending.
* **`reclaims_of_run`** — this holds in every run in which `epoch_call` undoes no store, and every
  pass of the handler during which no section of an epoch is open executes the callbacks of the
  epoch.

A thread that is pre-empted inside `cb_count += 1` loses the increments made meanwhile, and a
callback is forgotten (`lostRun_forgets`).
-/

namespace RtemsLibbsd.Epoch

open Option List Function RtemsLibbsd.Transition

/-- The pass under way, or the next one, polls the epoch `e` and has not seen an active thread. -/
def Ahead (e : Nat) : Server → Prop
  | .idle | .drainCall _ => True
  | .pass es => e ∈ es
  | .loaded f _ _ es => f = e ∨ e ∈ es
  | .scan f _ _ _ active es => (f = e ∧ active = false) ∨ e ∈ es
  | .scanEpoch _ _ _ _ _ es | .cas _ _ _ es | .tail _ _ _ es | .polled _ _ es => e ∈ es
  | .exec => False

/-- The callback `x` is executed before pass `n` of the handler ends. -/
def Due (x : Callback) (n : Nat) (s : State) : Prop :=
  x ∈ s.executed ∨
  (s.passes x.cpu = n ∧ (x ∈ s.places.pendingOf x → Ahead x.epoch (s.server x.cpu)))

def QuietEpoch (cpus e : Nat) (s : State) : Prop := ∀ k < cpus, (s.domain e).sections k = []

instance (cpus e : Nat) (s : State) : Decidable (QuietEpoch cpus e s) :=
  inferInstanceAs (Decidable (∀ k < cpus, _))

structure Inv (cpus : Nat) (epochs : List Nat) (s : State) : Prop where
  grace : Grace cpus s
  located : Located s
  counted : Counted cpus epochs s
  inEpochs : ∀ x ∈ s.registered, x.epoch ∈ epochs ∧ x.cpu < cpus

section Passes

variable {cpus : Nat} {epochs : List Nat} {s t : State}

variable {a : Act}

theorem Inv.step (h : Inv cpus epochs s) (hl : epochs.Nodup) (hwhole : Undisturbed s a)
    (hstep : step cpus epochs s a = some t) : Inv cpus epochs t := by
  refine ⟨h.grace.step hwhole hstep, h.located.step h.grace hwhole hstep,
    h.counted.step hl hwhole hstep, ?_⟩
  obtain ⟨f, hplaces, -, -, -, hcause⟩ := step_effect hstep
  have hreg : t.registered = (f.apply s).registered := congrArg Places.registered hplaces
  rw [hreg]
  cases f with
  | push x v m head =>
    exact forall_mem_cons.mpr ⟨h.counted.called x hcause.2.1, h.inEpochs⟩
  | _ => exact h.inEpochs

theorem inv_init : Inv cpus epochs init :=
  ⟨grace_init, located_init, counted_init, forall_mem_nil _⟩

variable {x : Callback}

theorem Located.cases (h : Located s) (hx : x ∈ s.registered) :
    x ∈ s.places.pendingOf x ∨ x ∈ s.cbStack x.cpu ∨ x ∈ s.executed := by
  have hone : (s.places.pendingOf x).count x + (s.cbStack x.cpu).count x + s.executed.count x = 1 :=
    (h.once x).trans (if_pos hx)
  grind

/-- A callback that is pending after a step and was registered before it was pending before it. -/
theorem pending_of_effect (h : Located s) (hx : x ∈ s.registered)
    (hwhole : Undisturbed s a) {f : Effect} (hcause : Cause cpus s a f)
    (hp : x ∈ (f.apply s).places.pendingOf x) : x ∈ s.places.pendingOf x := by
  cases f with
  | quiet => exact hp
  | execute c y rest =>
    rwa [Places.pendingOf, pending_execute] at hp
  | drain e d calls ret time =>
    have hsame := places_setDomain (s := s) (e := e) (d := { s.domain e with drain := d }) fun _ => rfl
    exact hsame ▸ hp
  | push y v m head =>
    rw [Places.pendingOf, Effect.apply, pending_push (hwhole.head hcause.1 hcause.2.2)] at hp
    split at hp
    · rcases mem_cons.mp hp with hnew | hp
      · have := h.earlier x hx
        rw [hnew] at this
        exact absurd this (Nat.lt_irrefl _)
      · exact hp
    · exact hp
  | dispatch c e i => exact (later_dispatch x.epoch).pending _ x hp
  | dispatchAll c e epoch =>
    by_cases he : x.epoch = e
    · subst he
      by_cases hc : x.cpu = c
      · subst hc
        simp only [Effect.apply, Places.pendingOf, State.places, dispatchAllStep, State.setDomain,
          Domain.setRecord, update_self] at hp
        have hp' := mem_dispatchAll_pending hp
        exact hp'
      · simpa [Effect.apply, Places.pendingOf, State.places, dispatchAllStep, State.setDomain,
          Domain.setRecord, hc] using hp
    · simpa [Effect.apply, Places.pendingOf, State.places, dispatchAllStep, State.setDomain, he]
        using hp

theorem dispatchAll_pending (r : Record) (deferred : List Callback) {i : Nat}
    (hi : i < CK_EPOCH_LENGTH) : (dispatchAll r deferred).1.pending i = [] := by
  have key : ∀ (l : List Nat) (p : Record × List Callback), (∀ j ∈ l, j < CK_EPOCH_LENGTH) →
      (i ∈ l ∨ p.1.pending i = []) →
      (l.foldl (fun p i => Epoch.dispatch p.1 i p.2) p).1.pending i = [] := by
    intro l
    induction l with
    | nil =>
      intro p _ h
      exact h.resolve_left not_mem_nil
    | cons j l ih =>
      intro p hl h
      refine ih _ (fun k hk => hl k (mem_cons_of_mem _ hk)) ?_
      have hj : j % CK_EPOCH_LENGTH = j := Nat.mod_eq_of_lt (hl j mem_cons_self)
      rcases eq_or_ne i j with rfl | hij
      · right
        simp [hj]
      · rw [dispatch_pending, hj, update_of_ne hij]
        exact h.imp_left fun h => (mem_cons.mp h).resolve_left hij
  exact key _ (r, deferred) (fun j hj => mem_range.mp hj) (.inl (mem_range.mpr hi))

theorem serverStep_drainCall {c e : Nat} (hpc : s.server c = .drainCall e)
    (hstep : serverStep cpus s c = some t) : t.server c = .idle ∨ t.server c = .drainCall e := by
  unfold serverStep at hstep
  simp only [hpc] at hstep
  obtain ⟨y, -, rfl⟩ := map_eq_some_iff.mp hstep
  split
  · exact .inl (update_self _ _ _)
  · exact .inr (by rw [access_server, hpc])

/-- **The handler of the processor stays ahead of a pending callback**, if it finds no active
    thread. -/
theorem ahead_serverStep (h : Inv cpus epochs s)
    (hquiet : QuietEpoch cpus x.epoch s) (hp : x ∈ s.places.pendingOf x)
    (hp' : x ∈ t.places.pendingOf x) (hstep : serverStep cpus s x.cpu = some t)
    (hahead : Ahead x.epoch (s.server x.cpu)) : Ahead x.epoch (t.server x.cpu) := by
  have hvalue : x.value % CK_EPOCH_LENGTH < CK_EPOCH_LENGTH := Nat.mod_lt _ (by decide)
  have hmove : ∀ (u : State) (q : Server), (u.setServer x.cpu q).server x.cpu = q :=
    fun u q => update_self _ _ _
  unfold serverStep at hstep
  cases hpc : s.server x.cpu with
  | idle => simp [hpc] at hstep
  | drainCall e => rcases serverStep_drainCall hpc hstep with h | h <;> (rw [h]; trivial)
  | pass es =>
    rw [hpc] at hahead
    cases es with
    | nil => cases hahead
    | cons e es =>
      simp only [hpc] at hstep
      split at hstep
      · cases hstep
        rw [hmove]
        exact (mem_cons.mp hahead).imp Eq.symm id
      · cases hstep
        rw [hmove]
        rcases mem_cons.mp hahead with heq | hmem
        · subst heq
          have := (h.counted.nPending_pos hvalue hp).2
          omega
        · exact hmem
  | loaded e epoch np es =>
    rw [hpc] at hahead
    simp only [hpc, some.injEq] at hstep
    subst hstep
    rw [hmove]
    exact hahead.imp_left fun he => ⟨he, rfl⟩
  | scan e epoch np todo active es =>
    rw [hpc] at hahead
    cases todo with
    | nil =>
      simp only [hpc] at hstep
      split at hstep
      · grind [Ahead]
      · cases hstep
        rw [hmove]
        refine hahead.resolve_left ?_
        rintro ⟨rfl, -⟩
        have hempty := dispatchAll_pending { (s.domain x.epoch).record x.cpu with epoch := epoch }
          (s.cbStack x.cpu) hvalue
        simp only [State.setServer, dispatchAllStep, State.setDomain, Domain.setRecord, Places.pendingOf,
          State.places, update_self] at hp'
        rw [hempty] at hp'
        cases hp'
    | cons d ds =>
      simp only [hpc] at hstep
      split at hstep
      · rename_i hactive
        cases hstep
        rw [hmove]
        refine hahead.resolve_left ?_
        rintro ⟨rfl, -⟩
        have hlen := ((h.grace.core.domain x.epoch).tracked d).active
        by_cases hd : d < cpus
        · rw [hquiet d hd] at hlen
          exact hactive hlen
        · rw [(h.grace.core.domain x.epoch).cpu d (by omega)] at hlen
          exact hactive hlen
      · cases hstep
        rw [hmove]
        exact hahead
  | scanEpoch e epoch np d ds es =>
    grind [Ahead]
  | cas e epoch np es =>
    rw [hpc] at hahead
    simp only [hpc, some.injEq] at hstep
    subst hstep
    rw [hmove]
    exact hahead
  | tail e epoch np es =>
    rw [hpc] at hahead
    simp only [hpc, some.injEq] at hstep
    subst hstep
    rw [hmove]
    exact hahead
  | polled e np es =>
    rw [hpc] at hahead
    simp only [hpc, some.injEq] at hstep
    subst hstep
    rw [hmove]
    exact hahead
  | exec =>
    rw [hpc] at hahead
    cases hahead

theorem serverStep_other {c k : Nat} (hk : k ≠ c) (hstep : serverStep cpus s c = some t) :
    t.server k = s.server k ∧ t.passes k = s.passes k := by
  have hmove : ∀ (u : State) (q : Server), (u.setServer c q).server k = u.server k :=
    fun u q => update_of_ne hk _ _
  unfold serverStep at hstep
  split at hstep
  case h_2 =>
    obtain ⟨y, -, rfl⟩ := map_eq_some_iff.mp hstep
    split
    · rw [hmove]
      simp [State.setServer]
    · simp
  all_goals try split at hstep
  all_goals
    cases hstep <;> first
    | exact ⟨hmove _ _, rfl⟩
    | exact ⟨rfl, rfl⟩
    | exact ⟨hmove _ _, update_of_ne hk _ _⟩

theorem serverStep_passes {c : Nat} (hstep : serverStep cpus s c = some t) :
    t.passes c = s.passes c ∨ (s.server c = .exec ∧ s.cbStack c = []) := by
  unfold serverStep at hstep
  split at hstep
  case h_2 =>
    obtain ⟨y, -, rfl⟩ := map_eq_some_iff.mp hstep
    left
    split <;> simp [State.setServer]
  all_goals try split at hstep
  all_goals
    first
    | exact .inr ⟨by assumption, by assumption⟩
    | (cases hstep <;> exact .inl rfl)

theorem registered_mono (hstep : step cpus epochs s a = some t)
    (hx : x ∈ s.registered) : x ∈ t.registered := by
  obtain ⟨f, hplaces, -⟩ := step_effect hstep
  have hreg : t.registered = (f.apply s).registered := congrArg Places.registered hplaces
  rw [hreg]
  cases f with
  | push y v m head => exact mem_cons_of_mem _ hx
  | _ => exact hx

theorem executed_mono (hstep : step cpus epochs s a = some t)
    (hx : x ∈ s.executed) : x ∈ t.executed := by
  obtain ⟨f, hplaces, -⟩ := step_effect hstep
  have hexec : t.executed = (f.apply s).executed := congrArg Places.executed hplaces
  rw [hexec]
  cases f with
  | execute c y rest => exact mem_cons_of_mem _ hx
  | _ => exact hx

theorem step_server {c : Nat} (hstep : step cpus epochs s a = some t) (ha : a ≠ .server c) :
    t.passes c = s.passes c ∧ (t.server c = s.server c ∨
      (s.server c = .idle ∧ (t.server c = .pass epochs ∨ ∃ e, t.server c = .drainCall e))) := by
  cases a with
  | enter k d e tracked =>
    obtain ⟨-, ⟨⟩⟩ := ite_none_right_eq_some.mp hstep
    exact ⟨rfl, .inl rfl⟩
  | exit k d e =>
    obtain ⟨-, hfind⟩ := ite_none_right_eq_some.mp hstep
    obtain ⟨y, -, rfl⟩ := map_eq_some_iff.mp hfind
    exact ⟨rfl, .inl rfl⟩
  | callBegin k d e =>
    obtain ⟨-, ⟨⟩⟩ := ite_none_right_eq_some.mp hstep
    exact ⟨rfl, .inl rfl⟩
  | access k =>
    obtain ⟨x, -, hstep⟩ := bind_eq_some_iff.mp hstep
    obtain ⟨-, ⟨⟩⟩ := ite_none_right_eq_some.mp hstep
    simp
  | tick d =>
    simp only [Epoch.step] at hstep
    split at hstep <;>
      (cases hstep
       exact ⟨rfl, .inl rfl⟩)
  | start d =>
    obtain ⟨⟨-, -, hidle⟩, ⟨⟩⟩ := ite_none_right_eq_some.mp hstep
    refine ⟨rfl, ?_⟩
    rcases eq_or_ne c d with rfl | hcd
    · exact .inr ⟨hidle, .inl (update_self _ _ _)⟩
    · exact .inl (update_of_ne hcd _ _)
  | startDrain d e =>
    obtain ⟨⟨-, -, -, hidle⟩, ⟨⟩⟩ := ite_none_right_eq_some.mp hstep
    refine ⟨rfl, ?_⟩
    rcases eq_or_ne c d with rfl | hcd
    · exact .inr ⟨hidle, .inr ⟨e, update_self _ _ _⟩⟩
    · exact .inl (update_of_ne hcd _ _)
  | server d =>
    obtain ⟨-, hserver⟩ := ite_none_right_eq_some.mp hstep
    have hcd : c ≠ d := by
      rintro rfl
      exact ha rfl
    obtain ⟨h1, h2⟩ := serverStep_other hcd hserver
    exact ⟨h2, .inl h1⟩
  | drainBegin e =>
    obtain ⟨-, ⟨⟩⟩ := ite_none_right_eq_some.mp hstep
    exact ⟨rfl, .inl rfl⟩
  | drainReturn e =>
    simp only [Epoch.step] at hstep
    split at hstep
    · cases hstep
    · obtain ⟨-, ⟨⟩⟩ := ite_none_right_eq_some.mp hstep
      exact ⟨rfl, .inl rfl⟩

/-- **A due callback stays due** while no section of its epoch is open. -/
theorem Due.step {n : Nat} (hd : Due x n s) (h : Inv cpus epochs s)
    (hx : x ∈ s.registered) (hquiet : QuietEpoch cpus x.epoch s) (hwhole : Undisturbed s a)
    (hstep : Epoch.step cpus epochs s a = some t) : Due x n t := by
  rcases hd with hd | ⟨hn, hahead⟩
  · exact .inl (executed_mono hstep hd)
  · have hold : x ∈ t.places.pendingOf x → x ∈ s.places.pendingOf x := by
      intro hp
      obtain ⟨f, hplaces, -, -, -, hcause⟩ := step_effect hstep
      exact pending_of_effect h.located hx hwhole hcause (hplaces ▸ hp)
    by_cases ha : a = .server x.cpu
    · grind [serverStep_passes, ahead_serverStep, h.located.cases, executed_mono, Due, Epoch.step, Ahead]
    · obtain ⟨hpass, hserver⟩ := step_server hstep ha
      refine .inr ⟨hpass.trans hn, ?_⟩
      intro hp
      grind [h.inEpochs, Ahead]

/-- **A pass of the handler during which no section of the epoch is open executes its callbacks.** -/
theorem Inv.executes (h : Inv cpus epochs s) (hl : epochs.Nodup)
    (hx : x ∈ s.registered) (hidle : s.server x.cpu = .idle) {acts : List Act}
    (hmeet : StepsMeet (Epoch.step cpus epochs)
      (fun u a => Undisturbed u a ∧ QuietEpoch cpus x.epoch u) s acts)
    (hrun : run (Epoch.step cpus epochs) s acts = some t) (hpass : s.passes x.cpu < t.passes x.cpu) :
    t.executed.count x = 1 := by
  have hstart : Due x (s.passes x.cpu) s := by
    refine .inr ⟨rfl, fun _ => ?_⟩
    rw [hidle]
    trivial
  have key : Inv cpus epochs t ∧ x ∈ t.registered ∧ Due x (s.passes x.cpu) t := by
    refine @run_invariant_of_meet _ _ _ _
      (fun u => Inv cpus epochs u ∧ x ∈ u.registered ∧ Due x (s.passes x.cpu) u) ?_ acts s t
      ⟨h, hx, hstart⟩ hmeet hrun
    rintro u a w ⟨hu, hxu, hdu⟩ ⟨hwhole, hqu⟩ hst
    exact ⟨hu.step hl hwhole hst, registered_mono hst hxu, hdu.step hu hxu hqu hwhole hst⟩
  rcases key.2.2 with hexec | ⟨hn, -⟩
  · have hone : (t.places.pendingOf x).count x + (t.cbStack x.cpu).count x + t.executed.count x = 1 :=
      (key.1.located.once x).trans (if_pos key.2.1)
    have hpos : 0 < t.executed.count x := count_pos_iff.mpr hexec
    omega
  · omega

end Passes

/-- Grace periods, one execution of each callback, and the request for the handler. -/
structure Reclaims (s : State) : Prop where
  /-- Before an execution no section is open that was open when `epoch_call` was made. -/
  grace : ∀ c x rest, s.server c = .exec → s.cbStack c = x :: rest →
    ∀ k, ∀ y ∈ (s.domain x.epoch).sections k, ¬ y.time < x.made
  once : ∀ x, s.executed.count x ≤ 1
  only : ∀ x ∈ s.executed, x ∈ s.registered
  kept : ∀ x ∈ s.registered, x ∉ s.executed → x ∈ s.places.pendingOf x ∨ x ∈ s.cbStack x.cpu
  requested : ∀ x ∈ s.registered, x ∈ s.places.pendingOf x → s.cbCount x.cpu ≠ 0

theorem Inv.reclaims {cpus : Nat} {epochs : List Nat} {s : State} (h : Inv cpus epochs s) :
    Reclaims s := by
  have hcount : ∀ x, s.executed.count x ≤ if x ∈ s.registered then 1 else 0 := by
    intro x
    have hone : (s.places.pendingOf x).count x + (s.cbStack x.cpu).count x + s.executed.count x =
      if x ∈ s.registered then 1 else 0 := h.located.once x
    omega
  refine ⟨?_, ?_, ?_, ?_, ?_⟩
  · intro c x rest _ hstack k y hy
    have hx : x ∈ s.cbStack c := hstack ▸ mem_cons_self
    exact not_lt.mpr (h.grace.core.deferred c x hx k y hy)
  · intro x
    refine le_trans (hcount x) ?_
    split <;> omega
  · intro x hx
    grind
  · intro x hx hno
    grind [h.located.cases]
  · intro x hx hp
    have := h.counted.pos (h.inEpochs x hx).1 (Nat.mod_lt _ (by decide)) hp
    omega

/-- **Callbacks in every run of threads, clock and interrupt servers whose accesses in `epoch_call`
    undo no store**: none is executed while a read section of its epoch is open that was open when
    `epoch_call` was made, each is executed at most once and is not lost, the clock asks for the
    handler while one is pending, and a pass of the handler during which no section of the epoch is
    open executes those of the processor. -/
theorem reclaims_of_run {cpus : Nat} {epochs : List Nat} (hl : epochs.Nodup) {acts : List Act}
    {s : State} (hmeet : StepsMeet (step cpus epochs) Undisturbed init acts)
    (hrun : run (step cpus epochs) init acts = some s) :
    Reclaims s ∧ ∀ x ∈ s.registered, s.server x.cpu = .idle → ∀ bs t,
      StepsMeet (step cpus epochs) (fun u a => Undisturbed u a ∧ QuietEpoch cpus x.epoch u) s bs →
      run (step cpus epochs) s bs = some t → s.passes x.cpu < t.passes x.cpu →
      t.executed.count x = 1 := by
  have hinv : ∀ u a v, Inv cpus epochs u → Undisturbed u a → step cpus epochs u a = some v →
      Inv cpus epochs v := fun u a v h hwhole hst => h.step hl hwhole hst
  have h := run_invariant_of_meet hinv acts init s inv_init hmeet hrun
  exact ⟨h.reclaims, fun x hx hidle bs t hmeet' hrun' hpass => h.executes hl hx hidle hmeet' hrun' hpass⟩

/-- The steps of a thread that calls `epoch_call`. -/
def callRun (t c e : Nat) : List Act := .callBegin t c e :: List.replicate 6 (.access t)

/-- A callback is registered while a section is open on another processor; the pass of the handler
    advances the global epoch, then the section ends. -/
def readerRun : List Act :=
  [.enter 1 1 0 true, .enter 1 1 0 false, .exit 1 1 0] ++ callRun 2 0 0 ++ [.tick 0, .start 0] ++
    List.replicate 12 (.server 0) ++ [.exit 1 1 0]

def passRun : List Act := [.tick 0, .start 0] ++ List.replicate 10 (.server 0)

def after (acts : List Act) : State := (run (step 2 [0, 1]) init acts).getD init

theorem reclaims_of_run_readerRun :
    ((after readerRun).domain 0).global = 2 ∧ (after readerRun).executed = [] ∧
    Reclaims (after readerRun) ∧
    (after (readerRun ++ passRun)).executed.count ⟨0, 0, 1, 2, 3, false⟩ = 1 := by
  have h := @reclaims_of_run 2 [0, 1] (by decide) readerRun (after readerRun) (by decide) rfl
  refine ⟨by decide, by decide, h.1, ?_⟩
  exact h.2 ⟨0, 0, 1, 2, 3, false⟩ (by decide) (by decide) passRun _ (by decide) rfl (by decide)

def afterOne (acts : List Act) : State := (run (step 1 [0]) init acts).getD init

/-- Thread 1 loads `cb_count` and is pre-empted.  Thread 2 registers a callback and a poll advances
    the global epoch while thread 3 reads.  Thread 1 stores 1, which loses the increment of thread 2,
    and registers its callback.  The next poll dispatches the callback of thread 2 only. -/
def lostRun : List Act :=
  [.enter 3 0 0 true, .callBegin 1 0 0] ++ callRun 2 0 0 ++ [.tick 0, .start 0] ++
    List.replicate 10 (.server 0) ++ List.replicate 6 (.access 1) ++
    [.exit 3 0 0, .enter 3 0 0 true, .tick 0, .start 0] ++ List.replicate 11 (.server 0) ++
    [.exit 3 0 0]

/-- No call and no drain is under way, the interrupt servers are idle, and `cb_count` is 0. -/
def Asleep (cpus : Nat) (epochs : List Nat) (s : State) : Prop :=
  s.calls = [] ∧ ∀ c < cpus, s.cbCount c = 0 ∧ s.submitted c = false ∧ s.server c = .idle ∧
    ∀ e ∈ epochs, (s.domain e).drain.request c = false

instance (cpus : Nat) (epochs : List Nat) (s : State) : Decidable (Asleep cpus epochs s) :=
  inferInstanceAs (Decidable (_ ∧ ∀ c < cpus, _))

/-- A thread calls `epoch_call` or `epoch_drain_callbacks`. -/
def Act.calls : Act → Bool
  | .callBegin .. | .drainBegin _ => true
  | _ => false

theorem Asleep.step {cpus : Nat} {epochs : List Nat} {s t : State} (h : Asleep cpus epochs s) {a : Act}
    (ha : a.calls = false) (hstep : step cpus epochs s a = some t) :
    Asleep cpus epochs t ∧ t.executed = s.executed := by
  obtain ⟨hcalls, hcpu⟩ := h
  cases a with
  | callBegin k c e => cases ha
  | drainBegin e => cases ha
  | enter k c e tracked =>
    obtain ⟨-, ⟨⟩⟩ := ite_none_right_eq_some.mp hstep
    refine ⟨⟨hcalls, fun k hk => ?_⟩, rfl⟩
    obtain ⟨h1, h2, h3, h4⟩ := hcpu k hk
    refine ⟨h1, h2, h3, fun f hf => ?_⟩
    rcases eq_or_ne f e with rfl | hne
    · simpa [epochEnter, State.setDomain, Domain.setRecord] using h4 f hf
    · simpa [epochEnter, State.setDomain, hne] using h4 f hf
  | exit k c e =>
    obtain ⟨-, hfind⟩ := ite_none_right_eq_some.mp hstep
    obtain ⟨x, -, rfl⟩ := map_eq_some_iff.mp hfind
    refine ⟨⟨hcalls, fun k hk => ?_⟩, rfl⟩
    obtain ⟨h1, h2, h3, h4⟩ := hcpu k hk
    refine ⟨h1, h2, h3, fun f hf => ?_⟩
    rcases eq_or_ne f e with rfl | hne
    · simpa [epochExit, State.setDomain, Domain.setRecord] using h4 f hf
    · simpa [epochExit, State.setDomain, hne] using h4 f hf
  | access k => simp [Epoch.step, threadCall, hcalls] at hstep
  | tick c =>
    simp only [Epoch.step] at hstep
    split at hstep <;> cases hstep
    · rename_i hcount
      refine ⟨⟨hcalls, fun k hk => ?_⟩, rfl⟩
      have hne : k ≠ c := by
        rintro rfl
        exact hcount (hcpu k hk).1
      simpa [hne] using hcpu k hk
    · exact ⟨⟨hcalls, hcpu⟩, rfl⟩
  | start c =>
    obtain ⟨⟨hc, hsub, -⟩, -⟩ := ite_none_right_eq_some.mp hstep
    rw [(hcpu c hc).2.1] at hsub
    cases hsub
  | startDrain c e =>
    obtain ⟨⟨hc, he, hreq, -⟩, -⟩ := ite_none_right_eq_some.mp hstep
    rw [(hcpu c hc).2.2.2 e he] at hreq
    cases hreq
  | server c =>
    obtain ⟨⟨hc, -⟩, hserver⟩ := ite_none_right_eq_some.mp hstep
    simp [serverStep, (hcpu c hc).2.2.1] at hserver
  | drainReturn e =>
    simp only [Epoch.step] at hstep
    split at hstep
    · cases hstep
    · obtain ⟨-, ⟨⟩⟩ := ite_none_right_eq_some.mp hstep
      refine ⟨⟨hcalls, fun k hk => ?_⟩, rfl⟩
      obtain ⟨h1, h2, h3, h4⟩ := hcpu k hk
      refine ⟨h1, h2, h3, fun f hf => ?_⟩
      rcases eq_or_ne f e with rfl | hne
      · simpa [State.setDomain] using h4 f hf
      · simpa [State.setDomain, hne] using h4 f hf

/-- The callback of thread 1 is registered and pending, no section is open, and it is not executed
    until somebody calls `epoch_call` or `epoch_drain_callbacks` again. -/
theorem lostRun_forgets :
    (¬∀ acts s, run (step 1 [0]) init acts = some s → Reclaims s) ∧
    QuietEpoch 1 0 (afterOne lostRun) ∧ ∀ bs t,
      StepsMeet (step 1 [0]) (fun _ a => a.calls = false) (afterOne lostRun) bs →
      run (step 1 [0]) (afterOne lostRun) bs = some t →
      (⟨0, 0, 2, 3, 4, false⟩ : Callback) ∉ t.executed := by
  refine ⟨?_, by decide, ?_⟩
  · intro h
    exact (h lostRun (afterOne lostRun) rfl).requested ⟨0, 0, 2, 3, 4, false⟩ (by decide) (by decide)
      (by decide)
  · intro bs t hmeet hrun
    have key : Asleep 1 [0] t ∧ t.executed = (afterOne lostRun).executed := by
      refine @run_invariant_of_meet _ _ _ _
        (fun u => Asleep 1 [0] u ∧ u.executed = (afterOne lostRun).executed) ?_ bs _ t
        ⟨by decide, rfl⟩ hmeet hrun
      rintro u a w ⟨hu, hexec⟩ ha hst
      obtain ⟨hw, hsame⟩ := hu.step ha hst
      exact ⟨hw, hsame.trans hexec⟩
    rw [key.2]
    decide

end RtemsLibbsd.Epoch
