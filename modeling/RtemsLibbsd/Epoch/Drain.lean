import RtemsLibbsd.Epoch.Reclaim

/-!
# Draining callbacks

`epoch_drain_callbacks` registers a marker on each processor and waits until all markers were
executed.  A marker has to be executed after the callbacks registered earlier on its processor.

* `Prior` — registered earlier on the same processor for the same epoch.
* `Ordered` — the callbacks prior to a marker are executed before it.
* `InTurn` — the dispatches of the handler do not put a marker on top of a callback prior to it and
  do not leave one behind.
* `DrainOf`, `Drains` — the state of the drains under way; **`drains_of_inTurn`**: in every run
  whose steps meet `InTurn` and undo no store of `epoch_call`, what was registered before a drain
  began is executed when it returns.

A poll dispatches one stack after the other, and the stack that is dispatched last is executed
first.  A marker in a newer stack overtakes the older callbacks (`overtakeRun_returns`).
-/

namespace RtemsLibbsd.Epoch

open Option List Function RtemsLibbsd.Transition

/-- `x` was registered before `m` on the same processor for the same epoch. -/
def Prior (x m : Callback) : Prop := x.epoch = m.epoch ∧ x.cpu = m.cpu ∧ x.time < m.time

instance (x m : Callback) : Decidable (Prior x m) :=
  inferInstanceAs (Decidable (_ ∧ _ ∧ _))

/-- The callbacks prior to a marker are executed before it.  While the handler polls, some of them
    may still be pending. -/
structure Ordered (v : Places) (server : Nat → Server) : Prop where
  home : ∀ c, ∀ x ∈ v.cbStack c, x.cpu = c
  sorted : ∀ e c i, (v.pending e c i).Pairwise fun x y => y.time < x.time
  stack : ∀ c l₁ m l₂, v.cbStack c = l₁ ++ m :: l₂ → m.marker = true →
    ∀ x ∈ v.registered, Prior x m →
      x ∈ v.executed ∨ x ∈ l₁ ∨ (x ∈ v.pendingOf x ∧ server c ≠ .exec)
  executed : ∀ m ∈ v.executed, m.marker = true → ∀ x ∈ v.registered, Prior x m → x ∈ v.executed

/-- When the stacks `order` of a record are dispatched in this order, no marker is deferred on top
    of a callback prior to it. -/
def Unhindered (s : State) (c e : Nat) (order : List Nat) : Prop :=
  ∀ i ∈ order, ∀ m ∈ ((s.domain e).record c).pending i, m.marker = true →
    (∀ x ∈ s.cbStack c, ¬Prior x m) ∧
    ∀ j ∈ order, j < i → ∀ x ∈ ((s.domain e).record c).pending j, ¬Prior x m

instance (s : State) (c e : Nat) (order : List Nat) : Decidable (Unhindered s c e order) :=
  inferInstanceAs (Decidable (∀ i ∈ order, _))

/-- The handler does not defer a marker on top of a callback prior to it, and has deferred the
    callbacks prior to a deferred marker when its polls are done. -/
def InTurn (s : State) : Act → Prop
  | .server c =>
    match s.server c with
    | .loaded e epoch _ _ => Unhindered s c e [(epoch + 2) % CK_EPOCH_LENGTH]
    | .tail e epoch _ _ => Unhindered s c e [(epoch + 3) % CK_EPOCH_LENGTH]
    | .scan e _ _ [] false _ => Unhindered s c e (List.range CK_EPOCH_LENGTH)
    | .pass [] => ∀ m ∈ s.cbStack c, m.marker = true →
        ∀ x ∈ s.registered, Prior x m → x ∉ s.places.pendingOf x
    | _ => True
  | _ => True

instance (s : State) (a : Act) : Decidable (InTurn s a) := by
  unfold InTurn
  split
  · split <;> infer_instance
  · infer_instance

section Order

variable {cpus : Nat} {epochs : List Nat} {s t : State} {server : Nat → Server}

theorem Located.dispatch (h : Located s) (hh : Homed s) (c e i : Nat) :
    Located (dispatchStep s c e i) :=
  ⟨fun x => (located_dispatch hh c e i x).trans (h.once x), h.earlier⟩

theorem Ordered.dispatch (h : Ordered s.places server) (hloc : Located s) (hh : Homed s)
    {c e i : Nat} (hpc : server c ≠ .exec)
    (hturn : ∀ m ∈ ((s.domain e).record c).pending (i % CK_EPOCH_LENGTH), m.marker = true →
      ∀ x ∈ s.cbStack c, ¬Prior x m) : Ordered (dispatchStep s c e i).places server := by
  have hstack : (dispatchStep s c e i).places.cbStack = update s.cbStack c
      ((((s.domain e).record c).pending (i % CK_EPOCH_LENGTH)).reverse ++ s.cbStack c) := by
    simp [State.places, dispatchStep]
  have hpending : ∀ f k j, (dispatchStep s c e i).places.pending f k j =
      if f = e ∧ k = c ∧ j = i % CK_EPOCH_LENGTH then [] else s.places.pending f k j := by
    intro f k j
    by_cases hf : f = e
    · by_cases hk : k = c
      · by_cases hj : j = i % CK_EPOCH_LENGTH
        · simp [State.places, dispatchStep, State.setDomain, Domain.setRecord, hf, hk, hj]
        · simp [State.places, dispatchStep, State.setDomain, Domain.setRecord, hf, hk, hj]
      · simp [State.places, dispatchStep, State.setDomain, Domain.setRecord, hf, hk]
    · simp [State.places, dispatchStep, State.setDomain, hf]
  have hstill : ∀ x, x ∈ s.places.pendingOf x →
      (x.cpu = c ∧ x ∈ ((s.domain e).record c).pending (i % CK_EPOCH_LENGTH)) ∨
      x ∈ (dispatchStep s c e i).places.pendingOf x := by
    intro x hx
    unfold Places.pendingOf at hx ⊢
    rw [hpending]
    split
    · rename_i hsame
      obtain ⟨h1, h2, h3⟩ := hsame
      rw [h1, h2, h3] at hx
      exact .inl ⟨h2, hx⟩
    · exact .inr hx
  refine ⟨?_, ?_, ?_, h.executed⟩
  · intro k x hx
    rw [hstack] at hx
    rcases eq_or_ne k c with rfl | hk
    · rw [update_self] at hx
      rcases mem_append.mp hx with hx | hx
      · exact (hh e k _ x (mem_reverse.mp hx)).2.1
      · exact h.home k x hx
    · rw [update_of_ne hk] at hx
      exact h.home k x hx
  · intro f k j
    rw [hpending]
    split
    · exact List.Pairwise.nil
    · exact h.sorted f k j
  · intro k l₁ m l₂ hl hmark x hx hprior
    rw [hstack] at hl
    rcases eq_or_ne k c with rfl | hk
    · rw [update_self] at hl
      have hsorted : (((s.domain e).record k).pending (i % CK_EPOCH_LENGTH)).reverse.Pairwise
          fun x y => x.time < y.time := pairwise_reverse.mpr (h.sorted e k _)
      -- a callback below the marker in the stack, or deferred before it, is not prior to it
      have hcase : (∃ a, l₁ = (((s.domain e).record k).pending (i % CK_EPOCH_LENGTH)).reverse ++ a ∧
          s.cbStack k = a ++ m :: l₂) ∨ ∃ a,
          (((s.domain e).record k).pending (i % CK_EPOCH_LENGTH)).reverse = l₁ ++ m :: a := by
        rcases append_eq_append_iff.mp hl with ⟨a, ha, hrest⟩ | ⟨a, ha, hrest⟩
        · exact .inl ⟨a, ha, hrest⟩
        · cases a with
          | nil =>
            rw [append_nil] at ha
            exact .inl ⟨[], by simp [ha], hrest.symm⟩
          | cons y a =>
            obtain ⟨rfl, -⟩ := List.cons.inj hrest
            exact .inr ⟨a, ha⟩
      rcases hcase with ⟨a, rfl, hrest⟩ | ⟨a, ha⟩
      · rcases h.stack k a m l₂ hrest hmark x hx hprior with hex | hxa | ⟨hxp, -⟩
        · exact .inl hex
        · exact .inr (.inl (mem_append_right _ hxa))
        · grind
      · have hm : m ∈ ((s.domain e).record k).pending (i % CK_EPOCH_LENGTH) := by
          rw [← mem_reverse, ha]
          exact mem_append_right _ mem_cons_self
        have hmc : m.cpu = k := (hh e k _ m hm).2.1
        rcases hloc.cases hx with hxp | hxs | hxe
        · rcases hstill x hxp with ⟨-, hxd⟩ | hxp
          · right; left
            have hxr : x ∈ l₁ ++ m :: a := ha ▸ mem_reverse.mpr hxd
            rw [ha] at hsorted
            rcases mem_append.mp hxr with hx1 | hx1
            · exact hx1
            · have hlt := hprior.2.2
              rcases mem_cons.mp hx1 with rfl | hx2
              · omega
              · have := (pairwise_cons.mp (pairwise_append.mp hsorted).2.1).1 x hx2
                omega
          · exact .inr (.inr ⟨hxp, hpc⟩)
        · rw [hprior.2.1, hmc] at hxs
          exact absurd hprior (hturn m hm hmark x hxs)
        · exact .inl hxe
    · rw [update_of_ne hk] at hl
      rcases h.stack k l₁ m l₂ hl hmark x hx hprior with hex | hxl | ⟨hxp, hne⟩
      · exact .inl hex
      · exact .inr (.inl hxl)
      · rcases hstill x hxp with ⟨hxc, -⟩ | hxp
        · have hl' : s.places.cbStack k = l₁ ++ m :: l₂ := hl
          have hmk := h.home k m (hl' ▸ mem_append_right _ mem_cons_self)
          exact absurd (hmk.symm.trans (hprior.2.1.symm.trans hxc)) hk
        · exact .inr (.inr ⟨hxp, hne⟩)

theorem Ordered.dispatchAll (h : Ordered s.places server) (hloc : Located s) (hh : Homed s)
    {c e : Nat} (epoch : Nat) (hpc : server c ≠ .exec)
    (hturn : Unhindered s c e (List.range CK_EPOCH_LENGTH)) :
    Ordered (dispatchAllStep s c e epoch).places server := by
  let start := s.setDomain e ((s.domain e).setRecord c { (s.domain e).record c with epoch := epoch })
  have hsame : ∀ f k, ((start.domain f).record k).pending = ((s.domain f).record k).pending := by
    intro f k
    by_cases hf : f = e
    · by_cases hk : k = c
      · simp [start, State.setDomain, Domain.setRecord, hf, hk]
      · simp [start, State.setDomain, Domain.setRecord, hf, hk]
    · simp [start, State.setDomain, hf]
  have hplaces : start.places = s.places := by
    refine places_setDomain ?_
    intro k
    rcases eq_or_ne k c with rfl | hk
    · simp [Domain.setRecord]
    · simp [Domain.setRecord, hk]
  -- after `n` dispatches, what was deferred is from the first `n` stacks
  have key : ∀ n ≤ CK_EPOCH_LENGTH, ∀ u,
      u = (List.range n).foldl (fun v i => dispatchStep v c e i) start →
      Ordered u.places server ∧ Located u ∧ Homed u ∧
      (∀ i, n ≤ i → ((u.domain e).record c).pending i = ((s.domain e).record c).pending i) ∧
      ∀ x ∈ u.cbStack c, x ∈ s.cbStack c ∨ ∃ j < n, x ∈ ((s.domain e).record c).pending j := by
    intro n
    induction n with
    | zero =>
      rintro - u rfl
      refine ⟨hplaces ▸ h, ⟨?_, hloc.earlier⟩, ?_, fun i _ => by simp [hsame],
        fun x hx => .inl hx⟩
      · intro x
        exact hplaces ▸ hloc.once x
      · intro f k i y hy
        rw [range_zero, foldl_nil, hsame] at hy
        exact hh f k i y hy
    | succ n ih =>
      rintro hn u rfl
      rw [range_succ, foldl_append]
      obtain ⟨ho, hl, hu, hrest, hfrom⟩ := ih (by omega) _ rfl
      generalize (List.range n).foldl (fun v i => dispatchStep v c e i) start = u at ho hl hu hrest hfrom
      have hmod : n % CK_EPOCH_LENGTH = n := Nat.mod_eq_of_lt (by omega)
      refine ⟨?_, hl.dispatch hu c e n, hu.dispatch c e n, ?_, ?_⟩
      · refine ho.dispatch hl hu hpc ?_
        intro m hm hmark x hx
        rw [hmod, hrest n le_rfl] at hm
        obtain ⟨h1, h2⟩ := hturn n (mem_range.mpr (by omega)) m hm hmark
        rcases hfrom x hx with hxs | ⟨j, hj, hxj⟩
        · exact h1 x hxs
        · exact h2 j (mem_range.mpr (by omega)) hj x hxj
      · intro i hi
        have hne : i ≠ n := by omega
        simp only [foldl_cons, foldl_nil, dispatchStep, State.setDomain,
          Domain.setRecord, update_self, Epoch.dispatch, hmod, update_of_ne hne]
        exact hrest i (by omega)
      · intro x hx
        simp only [foldl_cons, foldl_nil, dispatchStep, update_self, dispatch_stack,
          hmod, mem_append, mem_reverse] at hx
        rcases hx with hx | hx
        · rw [hrest n le_rfl] at hx
          exact .inr ⟨n, Nat.lt_succ_self n, hx⟩
        · rcases hfrom x hx with hxs | ⟨j, hj, hxj⟩
          · exact .inl hxs
          · exact .inr ⟨j, Nat.lt_succ_of_lt hj, hxj⟩
  rw [dispatchAllStep_eq]
  exact (key CK_EPOCH_LENGTH le_rfl _ rfl).1

theorem Ordered.execute (h : Ordered s.places server) {c : Nat} {y : Callback}
    {rest : List Callback} (hpc : server c = .exec) (hstack : s.cbStack c = y :: rest) :
    Ordered ((Effect.execute c y rest).apply s).places server := by
  have hpending : ((Effect.execute c y rest).apply s).places.pending = s.places.pending :=
    pending_execute c y rest
  refine ⟨?_, hpending ▸ h.sorted, ?_, ?_⟩
  · intro k x hx
    have hx' : x ∈ update s.cbStack c rest k := hx
    rcases eq_or_ne k c with rfl | hk
    · rw [update_self] at hx'
      have hxs : x ∈ s.cbStack k := hstack ▸ mem_cons_of_mem _ hx'
      exact h.home k x hxs
    · rw [update_of_ne hk] at hx'
      exact h.home k x hx'
  · intro k l₁ m l₂ hl hmark x hx hprior
    have hl' : update s.cbStack c rest k = l₁ ++ m :: l₂ := hl
    rcases eq_or_ne k c with rfl | hk
    · rw [update_self] at hl'
      have hold : s.places.cbStack k = (y :: l₁) ++ m :: l₂ := by
        show s.cbStack k = _
        rw [hstack, hl']
        rfl
      rcases h.stack k (y :: l₁) m l₂ hold hmark x hx hprior with hex | hxl | hxp
      · exact .inl (mem_cons_of_mem _ hex)
      · rcases mem_cons.mp hxl with rfl | hxl
        · exact .inl mem_cons_self
        · exact .inr (.inl hxl)
      · refine .inr (.inr ?_)
        rwa [Places.pendingOf, hpending]
    · rw [update_of_ne hk] at hl'
      rw [Places.pendingOf, hpending]
      exact (h.stack k l₁ m l₂ hl' hmark x hx hprior).imp_left (mem_cons_of_mem _)
  · intro m hm hmark x hx hprior
    rcases mem_cons.mp hm with rfl | hm
    · rcases h.stack c [] m rest hstack hmark x hx hprior with hex | hxl | ⟨-, hne⟩
      · exact mem_cons_of_mem _ hex
      · cases hxl
      · exact absurd hpc hne
    · exact mem_cons_of_mem _ (h.executed m hm hmark x hx hprior)

theorem Ordered.push (h : Ordered s.places server) (hi : Inv cpus epochs s) {x : Call} {v m : Nat}
    {head : List Callback}
    (hhead : ((s.domain x.epoch).record x.cpu).pending (v % CK_EPOCH_LENGTH) = head) :
    Ordered (push s x v m head).places server := by
  have hpending := pending_push (m := m) hhead
  have hold : ∀ y : Callback, y.time < s.time → ∀ z ∈ (Epoch.push s x v m head).places.registered,
      Prior z y → z ∈ s.places.registered := by
    intro y hy z hz hprior
    rcases mem_cons.mp hz with rfl | hz
    · exact absurd hprior.2.2 (Nat.lt_asymm hy)
    · exact hz
  refine ⟨h.home, ?_, ?_, ?_⟩
  · intro f k j
    rw [hpending]
    split
    · refine pairwise_cons.mpr ⟨?_, h.sorted f k j⟩
      intro z hz
      exact ((hi.grace.core.domain f).pending k j z hz).2.2.2
    · exact h.sorted f k j
  · intro k l₁ y l₂ hl hmark z hz hprior
    have hl' : s.cbStack k = l₁ ++ y :: l₂ := hl
    have hy : y ∈ s.cbStack k := hl' ▸ mem_append_right _ mem_cons_self
    have hzr := hold y (hi.grace.core.stacked k y hy).2.2 z hz hprior
    rcases h.stack k l₁ y l₂ hl hmark z hzr hprior with hex | hzl | ⟨hzp, hne⟩
    · exact .inl hex
    · exact .inr (.inl hzl)
    · grind [Places.pendingOf]
  · intro y hy hmark z hz hprior
    have hyr := hi.reclaims.only y hy
    exact h.executed y hy hmark z (hold y (hi.located.earlier y hyr) z hz hprior) hprior

theorem exec_of_step {a : Act} {k : Nat} (hstep : Epoch.step cpus epochs s a = some t)
    (hk : t.server k = .exec) :
    s.server k = .exec ∨ (a = .server k ∧ s.server k = .pass [] ∧ t = s.setServer k .exec) := by
  by_cases ha : a = .server k
  · subst ha
    obtain ⟨-, hserver⟩ := ite_none_right_eq_some.mp hstep
    have hmove : ∀ (u : State) (q : Server), (u.setServer k q).server k = q :=
      fun u q => update_self _ _ _
    by_cases hdrain : ∃ e, s.server k = .drainCall e
    · obtain ⟨e, hpc⟩ := hdrain
      rcases serverStep_drainCall hpc hserver with h | h <;> rw [hk] at h <;> cases h
    · unfold serverStep at hserver
      grind
  · rcases step_server hstep ha with ⟨-, hsame | ⟨-, hstart⟩⟩
    · exact .inl (hsame ▸ hk)
    · rw [hk] at hstart
      simp at hstart

/-- **Every step that meets `InTurn` and undoes no store keeps the order.** -/
theorem Ordered.step (h : Ordered s.places s.server) (hi : Inv cpus epochs s) {a : Act}
    (hwhole : Undisturbed s a) (hturn : InTurn s a) (hstep : Epoch.step cpus epochs s a = some t) :
    Ordered t.places t.server := by
  have hmoved : Ordered t.places s.server := by
    obtain ⟨f, hplaces, -, -, -, hcause⟩ := step_effect hstep
    rw [hplaces]
    cases f with
    | quiet => exact h
    | push x v m head => exact h.push hi (hwhole.head hcause.1 hcause.2.2)
    | drain e d calls ret time =>
      have hsame := places_setDomain (s := s) (e := e) (d := { s.domain e with drain := d }) fun _ => rfl
      exact hsame ▸ h
    | dispatch c e i =>
      obtain ⟨rfl, -, hpc⟩ := hcause
      have hunhindered : Unhindered s c e [i % CK_EPOCH_LENGTH] := by
        unfold InTurn at hturn
        grind
      refine h.dispatch hi.located hi.grace.homed ?_ ?_
      · rcases hpc with ⟨epoch, np, es, hpc, -⟩ | ⟨epoch, np, es, hpc, -⟩ <;> simp [hpc]
      · intro m hm hmark
        exact (hunhindered _ (mem_singleton.mpr rfl) m hm hmark).1
    | dispatchAll c e epoch =>
      obtain ⟨rfl, -, np, es, hpc⟩ := hcause
      unfold InTurn at hturn
      simp only [hpc] at hturn
      exact h.dispatchAll hi.located hi.grace.homed epoch (by simp [hpc]) hturn
    | execute c x rest => exact h.execute hcause.2.2.1 hcause.2.2.2
  refine ⟨hmoved.home, hmoved.sorted, ?_, hmoved.executed⟩
  intro k l₁ m l₂ hl hmark x hx hprior
  rcases hmoved.stack k l₁ m l₂ hl hmark x hx hprior with hex | hxl | ⟨hxp, hne⟩
  · exact .inl hex
  · exact .inr (.inl hxl)
  · refine .inr (.inr ⟨hxp, ?_⟩)
    intro hk
    rcases exec_of_step hstep hk with hsame | ⟨rfl, hpc, rfl⟩
    · exact hne hsame
    · -- the polls are done: nothing prior to the marker is pending
      unfold InTurn at hturn
      simp only [hpc] at hturn
      have hl' : s.cbStack k = l₁ ++ m :: l₂ := hl
      exact hturn m (hl' ▸ mem_append_right _ mem_cons_self) hmark x hx hprior hxp

end Order

/-- A drain still waits for the processor: its marker was not executed. -/
def Marks.waits (v : Marks) (c : Nat) : Bool :=
  match v.drain.marker c with
  | none => true
  | some m => m ∉ v.executed

/-- The drains of one epoch. -/
structure DrainOf (cpus time : Nat) (v : Marks) : Prop where
  /-- A marker that was not executed is the current one of its processor. -/
  current : ∀ m ∈ v.registered, m ∉ v.executed →
    v.drain.start ≠ none ∧ v.drain.marker m.cpu = some m
  marker : ∀ c m, v.drain.marker c = some m → m ∈ v.registered ∧ m.cpu = c ∧
    ∀ start, v.drain.start = some start → start < m.time
  /-- A processor is to be asked, registers its marker, or has a marker. -/
  turn : v.drain.start ≠ none → ∀ c < cpus,
    (v.drain.request c).toNat + v.calls c + (v.drain.marker c).isSome.toNat = 1
  idle : v.drain.start = none → v.drain.count = 0 ∧
    ∀ c < cpus, v.drain.request c = false ∧ v.calls c = 0
  count : v.drain.start ≠ none → v.drain.count = (List.range cpus).countP v.waits
  started : ∀ start, v.drain.start = some start → start < time

section Drain

variable {cpus time : Nat} {v : Marks} {c : Nat}

theorem countP_lose {l : List Nat} (hl : l.Nodup) (hc : c ∈ l) {p q : Nat → Bool}
    (hp : p c = true) (hq : q c = false) (hsame : ∀ k ≠ c, q k = p k) :
    l.countP q + 1 = l.countP p := by
  induction l with
  | nil => cases hc
  | cons k l ih =>
    obtain ⟨hk, hl⟩ := nodup_cons.mp hl
    rcases mem_cons.mp hc with rfl | hc
    · have hrest : l.countP q = l.countP p := by
        refine countP_congr ?_
        intro j hj
        rw [hsame j]
        rintro rfl
        exact hk hj
      rw [countP_cons_of_neg (by simp [hq]), countP_cons_of_pos hp, hrest]
    · grind

theorem DrainOf.mono (h : DrainOf cpus time v) {time' : Nat} (htime : time ≤ time') :
    DrainOf cpus time' v :=
  { h with started := fun start hs => lt_of_lt_of_le (h.started start hs) htime }

/-- `epoch_drain_callbacks` begins. -/
theorem DrainOf.begin (h : DrainOf cpus time v) (hnone : v.drain.start = none) :
    DrainOf cpus (time + 1) { v with
      drain := ⟨v.drain.count + cpus, fun c => decide (c < cpus), some time, fun _ => none⟩ } := by
  obtain ⟨hzero, hquiet⟩ := h.idle hnone
  refine ⟨?_, ?_, ?_, ?_, ?_, ?_⟩
  · intro m hm hnot
    exact absurd hnone (h.current m hm hnot).1
  · rintro c m ⟨⟩
  · intro _ c hc
    simp [hc, (hquiet c hc).2]
  · rintro ⟨⟩
  · intro _
    have hall : (List.range cpus).countP (fun _ => true) = cpus := by simp
    exact (congrArg (· + cpus) hzero).trans ((Nat.zero_add _).trans hall.symm)
  · rintro start ⟨⟩
    exact Nat.lt_succ_self _

/-- The interrupt server of a processor starts `epoch_call_drain_cb`. -/
theorem DrainOf.ask (h : DrainOf cpus time v) (hc : c < cpus) (hreq : v.drain.request c = true) :
    DrainOf cpus time { v with
      drain := { v.drain with request := update v.drain.request c false }
      calls := update v.calls c (v.calls c + 1) } := by
  have hstart : v.drain.start ≠ none := by
    intro hnone
    have := ((h.idle hnone).2 c hc).1
    rw [hreq] at this
    cases this
  refine ⟨h.current, h.marker, ?_, fun hnone => absurd hnone hstart, h.count, h.started⟩
  intro hne k hk
  have hturn := h.turn hne k hk
  rcases eq_or_ne k c with rfl | hkc
  · simp only [hreq, Bool.toNat_true, update_self, Bool.toNat_false] at hturn ⊢
    omega
  · simpa [hkc] using hturn

/-- The marker of a processor is registered. -/
theorem DrainOf.mark (h : DrainOf cpus time v) {y : Callback} (hc : y.cpu < cpus) {n : Nat}
    (hn : n + 1 = v.calls y.cpu) (hnew : y ∉ v.executed) (htime : y.time = time) :
    DrainOf cpus (time + 1)
      ⟨{ v.drain with marker := update v.drain.marker y.cpu (some y) },
        update v.calls y.cpu n, y :: v.registered, v.executed⟩ := by
  have hstart : v.drain.start ≠ none := by
    intro hnone
    have := ((h.idle hnone).2 _ hc).2
    omega
  have hturn := h.turn hstart _ hc
  have hnone : v.drain.marker y.cpu = none := by
    cases hm : v.drain.marker y.cpu with
    | none => rfl
    | some m =>
      simp only [hm, isSome_some, Bool.toNat_true] at hturn
      omega
  refine ⟨?_, ?_, ?_, fun hnone => absurd hnone hstart, ?_, ?_⟩
  · intro m hm hnot
    refine ⟨hstart, ?_⟩
    rcases mem_cons.mp hm with rfl | hm
    · exact update_self _ _ _
    · have hcur := (h.current m hm hnot).2
      have hne : m.cpu ≠ y.cpu := by
        intro heq
        rw [heq, hnone] at hcur
        cases hcur
      simpa [hne] using hcur
  · intro c m hm
    rcases eq_or_ne c y.cpu with rfl | hcy
    · simp only [update_self] at hm
      cases hm
      exact ⟨mem_cons_self, rfl, fun start hs => htime ▸ h.started start hs⟩
    · simp only [update_of_ne hcy] at hm
      obtain ⟨hreg, hrest⟩ := h.marker c m hm
      exact ⟨mem_cons_of_mem _ hreg, hrest⟩
  · intro hne k hk
    have hold := h.turn hne k hk
    rcases eq_or_ne k y.cpu with rfl | hky
    · simp only [update_self, isSome_some, Bool.toNat_true]
      omega
    · simpa [hky] using hold
  · intro hne
    refine (h.count hne).trans (countP_congr ?_)
    intro k _
    unfold Marks.waits
    rcases eq_or_ne k y.cpu with rfl | hky
    · simp [hnone, hnew]
    · simp [hky]
  · intro start hs
    exact Nat.lt_succ_of_lt (h.started start hs)

/-- `epoch_drain_cb`. -/
theorem DrainOf.drainCb (h : DrainOf cpus time v) {x : Callback} (hc : x.cpu < cpus)
    (hreg : x ∈ v.registered) (hnot : x ∉ v.executed) :
    DrainOf cpus time { v with
      drain := { v.drain with count := v.drain.count - 1 }
      executed := x :: v.executed } := by
  obtain ⟨hstart, hcurrent⟩ := h.current x hreg hnot
  refine ⟨?_, h.marker, h.turn, fun hnone => absurd hnone hstart, ?_, h.started⟩
  · intro m hm hno
    exact h.current m hm fun hex => hno (mem_cons_of_mem _ hex)
  · intro hne
    have hlose : (List.range cpus).countP (Marks.waits { v with
        drain := { v.drain with count := v.drain.count - 1 }, executed := x :: v.executed }) + 1 =
        (List.range cpus).countP v.waits := by
      refine countP_lose nodup_range (mem_range.mpr hc) ?_ ?_ ?_
      · simp [Marks.waits, hcurrent, hnot]
      · simp [Marks.waits, hcurrent]
      · intro k hk
        unfold Marks.waits
        cases hm : v.drain.marker k with
        | none => rfl
        | some m =>
          have hmx : m ≠ x := by
            rintro rfl
            exact hk (h.marker k m hm).2.1.symm
          simp [hmx]
    have hcount := h.count hne
    show v.drain.count - 1 = _
    omega

theorem DrainOf.done (h : DrainOf cpus time v) (hstart : v.drain.start ≠ none)
    (hzero : v.drain.count = 0) (hc : c < cpus) :
    ∃ m, v.drain.marker c = some m ∧ m ∈ v.executed := by
  have hcount := h.count hstart
  rw [hzero] at hcount
  have hwaits := countP_eq_zero.mp hcount.symm c (mem_range.mpr hc)
  unfold Marks.waits at hwaits
  cases hm : v.drain.marker c with
  | none => simp [hm] at hwaits
  | some m => exact ⟨m, rfl, by simpa [hm] using hwaits⟩

/-- `epoch_drain_callbacks` returns. -/
theorem DrainOf.finish (h : DrainOf cpus time v) (hstart : v.drain.start ≠ none)
    (hzero : v.drain.count = 0) (hcpu : ∀ m ∈ v.registered, m.cpu < cpus) :
    DrainOf cpus time { v with drain := { v.drain with start := none } } := by
  refine ⟨?_, ?_, fun hne => absurd rfl hne, ?_, fun hne => absurd rfl hne, ?_⟩
  · intro m hm hnot
    obtain ⟨k, hk, hex⟩ := h.done hstart hzero (hcpu m hm)
    rw [(h.current m hm hnot).2] at hk
    cases hk
    exact absurd hex hnot
  · intro c m hm
    obtain ⟨hreg, hmc, -⟩ := h.marker c m hm
    exact ⟨hreg, hmc, fun start hs => by cases hs⟩
  · refine fun _ => ⟨hzero, fun c hc => ?_⟩
    obtain ⟨m, hm, -⟩ := h.done hstart hzero hc
    have hturn := h.turn hstart c hc
    simp only [hm, isSome_some, Bool.toNat_true] at hturn
    refine ⟨?_, Nat.eq_zero_of_add_eq_zero_left (Nat.add_right_cancel hturn)⟩
    cases hreq : v.drain.request c with
    | false => rfl
    | true =>
      simp only [hreq, Bool.toNat_true] at hturn
      omega
  · intro start hs
    cases hs

end Drain

structure Drains (cpus : Nat) (s : State) : Prop where
  drain : ∀ e, DrainOf cpus s.time (s.marks e)
  returned : ∀ p ∈ s.returned, p.2 ≤ s.time ∧
    ∀ x ∈ s.registered, x.epoch = p.1 → x.time < p.2 → x ∈ s.executed

section DrainSteps

variable {cpus : Nat} {epochs : List Nat} {s t : State}

theorem Inv.stacked (h : Inv cpus epochs s) {c : Nat} {x : Callback} (hx : x ∈ s.cbStack c) :
    x ∈ s.registered ∧ x ∉ s.executed := by
  obtain ⟨rfl, -⟩ := h.grace.core.stacked c x hx
  have hone : (s.places.pendingOf x).count x + (s.cbStack x.cpu).count x + s.executed.count x =
    if x ∈ s.registered then 1 else 0 := h.located.once x
  grind

theorem Inv.mem_marks (h : Inv cpus epochs s) {e : Nat} {m : Callback} (hm : m ∈ (s.marks e).registered) :
    m ∈ s.registered ∧ m.marker = true ∧ m.epoch = e ∧ m.cpu < cpus := by
  obtain ⟨hreg, hmark⟩ := mem_filter.mp hm
  rw [Bool.and_eq_true, beq_iff_eq] at hmark
  exact ⟨hreg, hmark.1, hmark.2, (h.inEpochs m hreg).2⟩

/-- What a step registers is later than the drains that have returned. -/
theorem Drains.earlier (h : Drains cpus s) {u : State} {time : Nat} (htime : s.time ≤ time)
    (hreg : ∀ x ∈ u.registered, x ∈ s.registered ∨ s.time ≤ x.time)
    (hexec : ∀ x ∈ s.executed, x ∈ u.executed) : ∀ p ∈ s.returned, p.2 ≤ time ∧
      ∀ x ∈ u.registered, x.epoch = p.1 → x.time < p.2 → x ∈ u.executed := by
  intro p hp
  obtain ⟨hle, hdone⟩ := h.returned p hp
  refine ⟨le_trans hle htime, ?_⟩
  intro x hx hepoch hlt
  rcases hreg x hx with hx | hx
  · exact hexec x (hdone x hx hepoch hlt)
  · omega

theorem Drains.push (h : Drains cpus s) (hi : Inv cpus epochs s) {x : Call} (hx : x ∈ s.calls)
    (v m : Nat) (head : List Callback) (e : Nat) :
    DrainOf cpus (s.time + 1) ((Epoch.push s x v m head).marks e) := by
  have hcalls : ∀ k, ((Epoch.push s x v m head).marks e).calls k +
      (x.thread == none && x.epoch == e && x.cpu == k).toNat = (s.marks e).calls k :=
    fun _ => countP_erase_call hx _
  have hfresh : x.callback v m s.time ∉ s.executed := by
    intro hex
    exact Nat.lt_irrefl _ (hi.located.earlier _ (hi.reclaims.only _ hex))
  by_cases hmark : x.thread = none ∧ x.epoch = e
  · obtain ⟨hthread, rfl⟩ := hmark
    have hdrain := (h.drain x.epoch).mark (y := x.callback v m s.time) (hi.counted.called x hx).2
      (n := ((Epoch.push s x v m head).marks x.epoch).calls x.cpu) ?_ ?_ rfl
    · convert hdrain using 1
      refine Marks.ext ?_ ?_ ?_ rfl
      · simp [State.marks, Epoch.push, State.setDomain, Call.callback, hthread]
      · funext k
        rcases eq_or_ne k x.cpu with rfl | hk
        · simp [Call.callback]
        · have := hcalls k
          simp only [beq_false_of_ne hk.symm, Bool.and_false, Bool.toNat_false, Nat.add_zero] at this
          simpa [Call.callback, hk] using this
      · simp [State.marks, Epoch.push, Call.callback, hthread]
    · simpa [hthread, Call.callback] using hcalls x.cpu
    · exact fun hex => hfresh (mem_filter.mp hex).1
  · have hsame : (Epoch.push s x v m head).marks e = s.marks e := by
      refine Marks.ext ?_ (funext fun k => ?_) ?_ rfl
      · rcases eq_or_ne e x.epoch with rfl | he
        · have hthread : x.thread.isNone = false := by simpa [isSome_iff_ne_none] using hmark
          simp [State.marks, Epoch.push, State.setDomain, Call.callback, hthread]
        · simp [State.marks, Epoch.push, State.setDomain, he]
      · have := hcalls k
        grind
      · simpa [State.marks, Epoch.push, Call.callback, filter_cons] using hmark
    rw [hsame]
    exact (h.drain e).mono (Nat.le_succ _)

theorem Drains.execute (h : Drains cpus s) (hi : Inv cpus epochs s) {c : Nat} {x : Callback}
    {rest : List Callback} (hstack : s.cbStack c = x :: rest) (e : Nat) :
    DrainOf cpus s.time (((Effect.execute c x rest).apply s).marks e) := by
  obtain ⟨hreg, hnot⟩ := hi.stacked (c := c) (x := x) (hstack ▸ mem_cons_self)
  by_cases hmark : x.marker = true ∧ x.epoch = e
  · obtain ⟨hmark, rfl⟩ := hmark
    have hmem : x ∈ (s.marks x.epoch).registered := mem_filter.mpr ⟨hreg, by simp [hmark]⟩
    have hcb := (h.drain x.epoch).drainCb (hi.inEpochs x hreg).2 hmem
      fun hex => hnot (mem_filter.mp hex).1
    convert hcb using 1
    refine Marks.ext ?_ rfl rfl ?_
    · simp [State.marks, Effect.apply, State.setDomain, hmark]
    · simp [State.marks, Effect.apply, hmark]
  · have hsame : ((Effect.execute c x rest).apply s).marks e = s.marks e := by
      refine Marks.ext ?_ rfl rfl ?_
      · rcases eq_or_ne e x.epoch with rfl | he
        · have hplain : x.marker = false := by simpa using hmark
          simp [State.marks, Effect.apply, State.setDomain, hplain]
        · simp [State.marks, Effect.apply, State.setDomain, he]
      · simpa [State.marks, Effect.apply, filter_cons] using hmark
    rw [hsame]
    exact h.drain e

theorem Drains.proceed (h : Drains cpus s) (hi : Inv cpus epochs s) (ho : Ordered s.places s.server)
    {a : Act} {e : Nat} {d : Drain} {calls : List Call} {ret : List (Nat × Nat)} {time : Nat}
    (hcause : Cause cpus s a (.drain e d calls ret time)) :
    (∀ f, DrainOf cpus time (((Effect.drain e d calls ret time).apply s).marks f)) ∧
    s.time ≤ time ∧ ∀ p ∈ ret, p.2 ≤ time ∧
      ∀ x ∈ s.registered, x.epoch = p.1 → x.time < p.2 → x ∈ s.executed := by
  have hdrain := h.drain e
  -- only the marks of the epoch change
  have hmarks : ∀ n : Nat → Nat, s.time ≤ time →
      (∀ f k, (calls.countP fun x => x.thread == none && x.epoch == f && x.cpu == k) =
        if f = e then n k else (s.marks f).calls k) →
      DrainOf cpus time { s.marks e with drain := d, calls := n } →
      ∀ f, DrainOf cpus time (((Effect.drain e d calls ret time).apply s).marks f) := by
    intro n htime hcalls hnew f
    rcases eq_or_ne f e with rfl | hf
    · convert hnew using 1
      refine Marks.ext ?_ (funext fun k => (hcalls f k).trans (if_pos rfl)) rfl rfl
      simp [State.marks, Effect.apply, State.setDomain]
    · convert (h.drain f).mono htime using 1
      refine Marks.ext ?_ (funext fun k => (hcalls f k).trans (if_neg hf)) rfl rfl
      simp [State.marks, Effect.apply, State.setDomain, hf]
  have hsame : ∀ f k, (s.calls.countP fun x => x.thread == none && x.epoch == f && x.cpu == k) =
      if f = e then (s.marks e).calls k else (s.marks f).calls k := by
    intro f k
    split
    · rename_i hf
      rw [hf]
      rfl
    · rfl
  rcases hcause with ⟨c, hc, hreq, rfl, rfl, rfl, rfl⟩ | ⟨hnone, rfl, rfl, rfl, rfl⟩ |
    ⟨start, hstart, hzero, rfl, rfl, rfl, rfl⟩
  · refine ⟨hmarks _ le_rfl ?_ (hdrain.ask hc hreq), le_rfl, h.returned⟩
    intro f k
    rw [countP_cons, hsame]
    by_cases hf : f = e
    · by_cases hk : k = c
      · simp [hf, hk]
      · simp [hf, hk, Ne.symm hk]
    · simp [hf, Ne.symm hf]
  · refine ⟨hmarks _ (Nat.le_succ _) hsame (hdrain.begin hnone), Nat.le_succ _, ?_⟩
    exact fun p hp => ⟨Nat.le_succ_of_le (h.returned p hp).1, (h.returned p hp).2⟩
  · have hne : (s.marks e).drain.start ≠ none := by
      show (s.domain e).drain.start ≠ none
      rw [hstart]
      exact some_ne_none _
    refine ⟨hmarks _ le_rfl hsame (hdrain.finish hne hzero fun m hm => (hi.mem_marks hm).2.2.2), le_rfl,
      forall_mem_cons.mpr ⟨⟨Nat.le_of_lt (hdrain.started start hstart), ?_⟩, h.returned⟩⟩
    -- the marker of the processor was executed, and the callback is prior to it
    intro x hx he hlt
    obtain ⟨m, hm, hex⟩ := hdrain.done hne hzero (hi.inEpochs x hx).2
    obtain ⟨hreg, hmc, hafter⟩ := hdrain.marker _ m hm
    obtain ⟨-, hmark, hme, -⟩ := hi.mem_marks hreg
    have hprior : Prior x m := ⟨he.trans hme.symm, hmc.symm, lt_trans hlt (hafter start hstart)⟩
    exact ho.executed m (mem_filter.mp hex).1 hmark x hx hprior

theorem Drains.step (h : Drains cpus s) (hi : Inv cpus epochs s) (ho : Ordered s.places s.server)
    {a : Act} (hstep : Epoch.step cpus epochs s a = some t) : Drains cpus t := by
  obtain ⟨f, hplaces, hmarks, hret, htime, hcause⟩ := step_effect hstep
  have hreg : t.registered = (f.apply s).registered := congrArg Places.registered hplaces
  have hexec : t.executed = (f.apply s).executed := congrArg Places.executed hplaces
  have hquiet : (∀ e, (f.apply s).marks e = s.marks e) → s.time ≤ t.time →
      t.returned = s.returned → (∀ x ∈ t.registered, x ∈ s.registered ∨ s.time ≤ x.time) →
      (∀ x ∈ s.executed, x ∈ t.executed) → Drains cpus t := by
    intro hsame hle hr hx hex
    refine ⟨fun e => ?_, ?_⟩
    · rw [hmarks, hsame]
      exact (h.drain e).mono hle
    · rw [hr]
      exact h.earlier hle hx hex
  cases f with
  | quiet =>
    exact hquiet (fun _ => rfl) htime hret (fun x hx => .inl (hreg ▸ hx)) fun x hx => hexec ▸ hx
  | dispatch c e i =>
    exact hquiet (marks_setDomain rfl) htime hret (fun x hx => .inl (hreg ▸ hx)) fun x hx => hexec ▸ hx
  | dispatchAll c e epoch =>
    exact hquiet (marks_setDomain rfl) htime hret (fun x hx => .inl (hreg ▸ hx)) fun x hx => hexec ▸ hx
  | push x v m head =>
    refine ⟨fun e => ?_, ?_⟩
    · rw [hmarks]
      exact (h.push hi hcause.2.1 v m head e).mono htime
    · rw [hret]
      refine h.earlier (le_trans (Nat.le_succ _) htime) ?_ fun x hx => hexec ▸ hx
      intro y hy
      rw [hreg] at hy
      rcases mem_cons.mp hy with rfl | hy
      · exact .inr le_rfl
      · exact .inl hy
  | execute c x rest =>
    refine ⟨fun e => ?_, ?_⟩
    · rw [hmarks]
      exact (h.execute hi hcause.2.2.2 e).mono htime
    · rw [hret]
      exact h.earlier htime (fun y hy => .inl (hreg ▸ hy)) fun y hy => hexec ▸ mem_cons_of_mem _ hy
  | drain e d calls ret time =>
    obtain ⟨hdrain, hle, hdone⟩ := h.proceed hi ho hcause
    refine ⟨fun f => ?_, ?_⟩
    · rw [hmarks]
      exact (hdrain f).mono htime
    · rw [hret, hreg, hexec]
      exact fun p hp => ⟨le_trans (hdone p hp).1 htime, (hdone p hp).2⟩

theorem drains_init : Drains cpus init := by
  refine ⟨fun e => ?_, forall_mem_nil _⟩
  refine ⟨forall_mem_nil _, ?_, ?_, ?_, ?_, ?_⟩ <;> simp [State.marks, init]

theorem ordered_init : Ordered init.places init.server := by
  refine ⟨?_, ?_, ?_, forall_mem_nil _⟩ <;> simp [State.places, init]

end DrainSteps

/-- **Drains are complete in every run whose steps meet `InTurn` and undo no store of
    `epoch_call`**: when `epoch_drain_callbacks` has returned, the callbacks of the epoch that were
    registered before it began are executed. -/
theorem drains_of_inTurn {cpus : Nat} {epochs : List Nat} (hl : epochs.Nodup) {acts : List Act}
    {s : State} (hmeet : StepsMeet (step cpus epochs) (fun u a => Undisturbed u a ∧ InTurn u a) init acts)
    (hrun : run (step cpus epochs) init acts = some s) :
    ∀ e start, (e, start) ∈ s.returned →
      ∀ x ∈ s.registered, x.epoch = e → x.time < start → x ∈ s.executed := by
  have hinv : ∀ u a v, Inv cpus epochs u ∧ Ordered u.places u.server ∧ Drains cpus u →
      Undisturbed u a ∧ InTurn u a → step cpus epochs u a = some v →
      Inv cpus epochs v ∧ Ordered v.places v.server ∧ Drains cpus v := by
    rintro u a v ⟨hi, ho, hd⟩ ⟨hwhole, hin⟩ hstep
    exact ⟨hi.step hl hwhole hstep, ho.step hi hwhole hin hstep, hd.step hi ho hstep⟩
  have hend := run_invariant_of_meet hinv acts init s ⟨inv_init, ordered_init, drains_init⟩ hmeet hrun
  intro e start hret
  exact (hend.2.2.returned (e, start) hret).2

/-- A drain while a callback is in the stack of the current global epoch. -/
def drainRun : List Act :=
  callRun 2 0 0 ++ [.drainBegin 0, .startDrain 0 0] ++ List.replicate 6 (.server 0) ++
    [.tick 0, .start 0] ++ List.replicate 8 (.server 0) ++ [.drainReturn 0]

theorem drains_of_inTurn_drainRun :
    (afterOne drainRun).returned = [(0, 2)] ∧
    (⟨0, 0, 1, 0, 1, false⟩ : Callback) ∈ (afterOne drainRun).executed :=
  ⟨by decide, @drains_of_inTurn 1 [0] (by decide) drainRun (afterOne drainRun) (by decide) rfl 0 2
    (by decide) ⟨0, 0, 1, 0, 1, false⟩ (by decide) rfl (by decide)⟩

/-- A callback is registered while a section is open, and a poll advances the global epoch.  The
    marker of the drain goes to the next stack.  After the end of the section, a poll dispatches
    both stacks. -/
def overtakeRun : List Act :=
  [.enter 1 0 0 true] ++ callRun 2 0 0 ++ [.tick 0, .start 0] ++ List.replicate 10 (.server 0) ++
  [.drainBegin 0, .startDrain 0 0] ++ List.replicate 6 (.server 0) ++
  [.exit 1 0 0, .tick 0, .start 0] ++ List.replicate 7 (.server 0) ++ [.drainReturn 0]

theorem overtakeRun_returns :
    ¬∀ acts s, run (step 1 [0]) init acts = some s → ∀ e start, (e, start) ∈ s.returned →
      ∀ x ∈ s.registered, x.epoch = e → x.time < start → x ∈ s.executed := by
  intro h
  have hexec := h overtakeRun (afterOne overtakeRun) rfl 0 3 (by decide) ⟨0, 0, 1, 1, 2, false⟩
    (by decide) rfl (by decide)
  revert hexec
  decide

end RtemsLibbsd.Epoch
