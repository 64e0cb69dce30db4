import Mathlib.Algebra.Order.BigOperators.Group.List
import Mathlib.Algebra.Order.Ring.Nat
import RtemsLibbsd.Epoch.Grace

/-!
# Callbacks are executed once

* `located` — how often a callback is pending, deferred or executed; **`Located`**: once, if it was
  registered.
* `Counted` — `n_pending` of a record and `cb_count` of a processor cover the pending callbacks, so
  the next clock tick asks for `epoch_call_handler`.
* `Effect` — what a step does to the callbacks, with **`step_effect`**: every step is one of them.
-/

namespace RtemsLibbsd.Epoch

open Option List Function RtemsLibbsd.Transition

/-- Where the callbacks are. -/
structure Places where
  pending : Nat → Nat → Nat → List Callback
  cbStack : Nat → List Callback
  registered : List Callback
  executed : List Callback

def State.places (s : State) : Places where
  pending e c := ((s.domain e).record c).pending
  cbStack := s.cbStack
  registered := s.registered
  executed := s.executed

/-- What the drains of an epoch depend on: their state, the calls of `epoch_call_drain_cb` under way
    on each processor, and the markers registered and executed. -/
@[ext] structure Marks where
  drain : Drain
  calls : Nat → Nat
  registered : List Callback
  executed : List Callback

def State.marks (s : State) (e : Nat) : Marks where
  drain := (s.domain e).drain
  calls c := s.calls.countP fun x => x.thread == none && x.epoch == e && x.cpu == c
  registered := s.registered.filter fun m => m.marker && m.epoch == e
  executed := s.executed.filter fun m => m.marker && m.epoch == e

inductive Effect where
  | quiet
  | push (x : Call) (value made : Nat) (head : List Callback)
  | dispatch (c e i : Nat)
  | dispatchAll (c e epoch : Nat)
  | execute (c : Nat) (x : Callback) (rest : List Callback)
  | drain (e : Nat) (d : Drain) (calls : List Call) (returned : List (Nat × Nat)) (time : Nat)

def Effect.apply (s : State) : Effect → State
  | .quiet => s
  | .push x value made head => Epoch.push s x value made head
  | .dispatch c e i => dispatchStep s c e i
  | .dispatchAll c e epoch => dispatchAllStep s c e epoch
  | .execute c x rest =>
    let d := s.domain x.epoch
    { s.setDomain x.epoch
        (if x.marker then { d with drain := { d.drain with count := d.drain.count - 1 } } else d) with
      cbStack := update s.cbStack c rest
      executed := x :: s.executed }
  | .drain e d calls returned time =>
    { s.setDomain e { s.domain e with drain := d } with
      calls := calls
      returned := returned
      time := time }

def Cause (cpus : Nat) (s : State) (a : Act) : Effect → Prop
  | .quiet => True
  | .push x value made head =>
      callOf s a = some x ∧ x ∈ s.calls ∧ x.pc = .linked value made head
  | .dispatch c e i => a = .server c ∧ c < cpus ∧
      ((∃ epoch np es, s.server c = .loaded e epoch np es ∧ i = epoch + 2) ∨
       (∃ epoch np es, s.server c = .tail e epoch np es ∧ i = epoch + 3))
  | .dispatchAll c e epoch => a = .server c ∧ c < cpus ∧
      ∃ np es, s.server c = .scan e epoch np [] false es
  | .execute c x rest => a = .server c ∧ c < cpus ∧ s.server c = .exec ∧ s.cbStack c = x :: rest
  | .drain e d calls returned time =>
      let old := (s.domain e).drain
      (∃ c < cpus, old.request c = true ∧ d = { old with request := update old.request c false } ∧
        calls = ⟨none, e, c, .counted (s.cbCount c)⟩ :: s.calls ∧ returned = s.returned ∧
        time = s.time) ∨
      (old.start = none ∧ d = ⟨old.count + cpus, fun c => decide (c < cpus), some s.time, fun _ => none⟩ ∧
        calls = s.calls ∧ returned = s.returned ∧ time = s.time + 1) ∨
      ∃ start, old.start = some start ∧ old.count = 0 ∧ d = { old with start := none } ∧
        calls = s.calls ∧ returned = (e, start) :: s.returned ∧ time = s.time

/-- The stack of pending callbacks that `x` was pushed to. -/
def Places.pendingOf (v : Places) (x : Callback) : List Callback :=
  v.pending x.epoch x.cpu (x.value % CK_EPOCH_LENGTH)

/-- How often `x` is pending, deferred or executed. -/
def Places.located (v : Places) (x : Callback) : Nat :=
  (v.pendingOf x).count x + (v.cbStack x.cpu).count x + v.executed.count x

def Homed (s : State) : Prop :=
  ∀ e c i, ∀ x ∈ ((s.domain e).record c).pending i,
    x.epoch = e ∧ x.cpu = c ∧ x.value % CK_EPOCH_LENGTH = i

structure Located (s : State) : Prop where
  once : ∀ x, s.places.located x = if x ∈ s.registered then 1 else 0
  earlier : ∀ x ∈ s.registered, x.time < s.time

section Places

variable {cpus : Nat} {epochs : List Nat} {s t : State}

theorem Grace.homed (h : Grace cpus s) : Homed s := by
  intro e c i x hx
  obtain ⟨he, hc⟩ := (h.core.domain e).home c i x hx
  exact ⟨he, hc, ((h.core.domain e).pending c i x hx).1⟩

theorem located_dispatch (hh : Homed s) (c e epoch : Nat) (x : Callback) :
    (dispatchStep s c e epoch).places.located x = s.places.located x := by
  unfold Places.located
  have hexec : (dispatchStep s c e epoch).places.executed = s.places.executed := rfl
  rw [hexec]
  by_cases hhome : x.epoch = e ∧ x.cpu = c ∧ x.value % CK_EPOCH_LENGTH = epoch % CK_EPOCH_LENGTH
  · obtain ⟨rfl, rfl, hi⟩ := hhome
    simp [Places.pendingOf, State.places, dispatchStep, State.setDomain, Domain.setRecord, hi]
  · have hnot : x ∉ ((s.domain e).record c).pending (epoch % CK_EPOCH_LENGTH) :=
      fun hx => hhome (hh e c _ x hx)
    have hstack : ((dispatchStep s c e epoch).places.cbStack x.cpu).count x =
        (s.places.cbStack x.cpu).count x := by
      rcases eq_or_ne x.cpu c with hc | hc
      · simp [State.places, dispatchStep, hc, count_eq_zero_of_not_mem hnot]
      · simp [State.places, dispatchStep, hc]
    have hpending : (dispatchStep s c e epoch).places.pendingOf x = s.places.pendingOf x := by
      unfold Places.pendingOf State.places
      by_cases he : x.epoch = e
      · by_cases hc : x.cpu = c
        · have hi : x.value % CK_EPOCH_LENGTH ≠ epoch % CK_EPOCH_LENGTH :=
            fun hi => hhome ⟨he, hc, hi⟩
          simp [dispatchStep, State.setDomain, Domain.setRecord, he, hc, hi]
        · simp [dispatchStep, State.setDomain, Domain.setRecord, he, hc]
      · simp [dispatchStep, State.setDomain, he]
    rw [hstack, hpending]

theorem Homed.dispatch (hh : Homed s) (c e epoch : Nat) : Homed (dispatchStep s c e epoch) := by
  intro f k i x hx
  refine hh f k i x ?_
  by_cases hf : f = e
  · subst hf
    by_cases hk : k = c
    · subst hk
      simp only [dispatchStep, State.setDomain, Domain.setRecord, update_self] at hx
      exact mem_dispatch_pending hx
    · simpa [dispatchStep, State.setDomain, Domain.setRecord, hk] using hx
  · simpa [dispatchStep, State.setDomain, hf] using hx

theorem located_dispatchAll (hh : Homed s) (c e epoch : Nat) (x : Callback) :
    (dispatchAllStep s c e epoch).places.located x = s.places.located x := by
  let P : State → Prop := fun u => Homed u ∧ u.places.located x = s.places.located x
  have hpending : ∀ f k, (((s.setDomain e ((s.domain e).setRecord c
      { (s.domain e).record c with epoch := epoch })).domain f).record k).pending =
      ((s.domain f).record k).pending := by
    intro f k
    by_cases hf : f = e
    · subst hf
      by_cases hk : k = c
      · subst hk
        simp [State.setDomain, Domain.setRecord]
      · simp [State.setDomain, Domain.setRecord, hk]
    · simp [State.setDomain, hf]
  have hstart : P (s.setDomain e ((s.domain e).setRecord c
      { (s.domain e).record c with epoch := epoch })) := by
    refine ⟨?_, ?_⟩
    · intro f k i y hy
      rw [hpending] at hy
      exact hh f k i y hy
    · unfold Places.located Places.pendingOf State.places
      simp only [hpending]
      rfl
  have hstep : ∀ u i, P u → P (dispatchStep u c e i) := fun u i hu =>
    ⟨hu.1.dispatch c e i, (located_dispatch hu.1 c e i x).trans hu.2⟩
  have hend := foldl_dispatch hstep (List.range CK_EPOCH_LENGTH) hstart
  rw [← dispatchAllStep_eq] at hend
  exact hend.2

variable {v m : Nat}

variable {x : Call}

theorem pending_push {head : List Callback}
    (hhead : ((s.domain x.epoch).record x.cpu).pending (v % CK_EPOCH_LENGTH) = head) (f k i : Nat) :
    (push s x v m head).places.pending f k i =
      if f = x.epoch ∧ k = x.cpu ∧ i = v % CK_EPOCH_LENGTH then
        x.callback v m s.time :: s.places.pending f k i else s.places.pending f k i := by
  subst hhead
  unfold State.places push State.setDomain Domain.setRecord
  by_cases hf : f = x.epoch
  · by_cases hk : k = x.cpu
    · by_cases hi : i = v % CK_EPOCH_LENGTH
      · simp [hf, hk, hi]
      · simp [hf, hk, hi]
    · simp [hf, hk]
  · simp [hf]

theorem Located.push (h : Located s) {head : List Callback}
    (hhead : ((s.domain x.epoch).record x.cpu).pending (v % CK_EPOCH_LENGTH) = head) :
    Located (push s x v m head) := by
  have hnew : x.callback v m s.time ∉ s.registered :=
    fun hmem => Nat.lt_irrefl _ (h.earlier _ hmem)
  constructor
  · intro y
    have hold := h.once y
    have hloc : (Epoch.push s x v m head).places.located y =
        s.places.located y + if y = x.callback v m s.time then 1 else 0 := by
      unfold Places.located
      have hrest : (Epoch.push s x v m head).places.cbStack = s.places.cbStack ∧
          (Epoch.push s x v m head).places.executed = s.places.executed := ⟨rfl, rfl⟩
      rw [Places.pendingOf, pending_push hhead, hrest.1, hrest.2]
      grind [Call.callback, Places.pendingOf]
    grind [Epoch.push]
  · intro y hy
    rcases mem_cons.mp hy with rfl | hy
    · exact Nat.lt_succ_self _
    · exact Nat.lt_succ_of_lt (h.earlier y hy)

theorem pending_execute (c : Nat) (x : Callback) (rest : List Callback) :
    ((Effect.execute c x rest).apply s).places.pending = s.places.pending := by
  funext f k
  simp only [State.places, Effect.apply, State.setDomain]
  rcases eq_or_ne f x.epoch with rfl | hf
  · rw [update_self]
    split <;> rfl
  · rw [update_of_ne hf]

theorem located_execute {c : Nat} {x : Callback} {rest : List Callback} (hc : x.cpu = c)
    (hstack : s.cbStack c = x :: rest) (y : Callback) :
    ((Effect.execute c x rest).apply s).places.located y = s.places.located y := by
  unfold Places.located
  rw [Places.pendingOf, pending_execute, Nat.add_assoc, Nat.add_assoc]
  congr 1
  show (update s.cbStack c rest y.cpu).count y + (x :: s.executed).count y =
    (s.cbStack y.cpu).count y + s.executed.count y
  grind

theorem places_eq
    (hpending : ∀ f k, ((t.domain f).record k).pending = ((s.domain f).record k).pending)
    (hstack : t.cbStack = s.cbStack) (hreg : t.registered = s.registered)
    (hexec : t.executed = s.executed) : t.places = s.places := by
  grind [State.places]

theorem places_setDomain {e : Nat} {d : Domain}
    (h : ∀ k, (d.record k).pending = ((s.domain e).record k).pending) :
    (s.setDomain e d).places = s.places := by
  refine places_eq ?_ rfl rfl rfl
  intro f k
  rcases eq_or_ne f e with rfl | hf
  · simp [State.setDomain, h]
  · simp [State.setDomain, hf]

@[simp] theorem access_server (s : State) (x : Call) : (access s x).server = s.server := by
  unfold access
  split <;> rfl

@[simp] theorem access_passes (s : State) (x : Call) : (access s x).passes = s.passes := by
  unfold access
  split <;> rfl

theorem marks_setDomain {e : Nat} {d : Domain} (h : d.drain = (s.domain e).drain) (f : Nat) :
    (s.setDomain e d).marks f = s.marks f := by
  refine Marks.ext ?_ rfl rfl rfl
  rcases eq_or_ne f e with rfl | hf
  · simpa [State.marks, State.setDomain] using h
  · simp [State.marks, State.setDomain, hf]

theorem countP_recall {l : List Call} (hx : x ∈ l) (y : Call) (p : Call → Bool) :
    (y :: l.erase x).countP p + (p x).toNat = l.countP p + (p y).toNat := by
  have hpos : p x = true → 0 < l.countP p := fun h => countP_pos_iff.mpr ⟨x, hx, h⟩
  rw [countP_cons, countP_erase]
  cases hpx : p x with
  | false => cases p y <;> simp
  | true =>
    have := hpos hpx
    cases p y <;> simp [hx] <;> omega

theorem marks_setPc (hx : x ∈ s.calls) (pc : Pc) (f : Nat) :
    (s.setPc x pc).marks f = s.marks f := by
  refine Marks.ext rfl (funext fun c => ?_) rfl rfl
  have h := countP_recall hx { x with pc := pc } fun x => x.thread == none && x.epoch == f && x.cpu == c
  exact Nat.add_right_cancel h

/-- What a step does to the callbacks and to the drains. -/
def Does (cpus : Nat) (s t : State) (a : Act) (f : Effect) : Prop :=
  t.places = (f.apply s).places ∧ (∀ e, t.marks e = (f.apply s).marks e) ∧
    t.returned = (f.apply s).returned ∧ (f.apply s).time ≤ t.time ∧ Cause cpus s a f

variable {a : Act}

/-- An access of `epoch_call` registers the callback if it is the last one. -/
theorem access_effect (hcall : callOf s a = some x) (hx : x ∈ s.calls) :
    ∃ f : Effect, Does cpus s (access s x) a f := by
  unfold access
  cases hpc : x.pc with
  | linked v m head => exact ⟨.push x v m head, rfl, fun _ => rfl, rfl, le_rfl, hcall, hx, hpc⟩
  | begun => exact ⟨.quiet, rfl, marks_setPc hx _, rfl, Nat.le_succ _, trivial⟩
  | sized v m n =>
    refine ⟨.quiet, places_setDomain ?_, ?_, rfl, le_rfl, trivial⟩
    · intro k
      rcases eq_or_ne k x.cpu with rfl | hk
      · simp [Domain.setRecord]
      · simp [Domain.setRecord, hk]
    · intro f
      refine (marks_setPc (s := s.setDomain x.epoch _) hx _ f).trans (marks_setDomain ?_ f)
      rfl
  | _ => exact ⟨.quiet, rfl, marks_setPc hx _, rfl, le_rfl, trivial⟩

theorem serverStep_effect {c : Nat} (hc : c < cpus) (hstep : serverStep cpus s c = some t) :
    ∃ f : Effect, Does cpus s t (.server c) f := by
  unfold serverStep at hstep
  cases hpc : s.server c with
  | idle => simp [hpc] at hstep
  | drainCall e =>
    simp only [hpc] at hstep
    obtain ⟨x, hx, rfl⟩ := map_eq_some_iff.mp hstep
    have hcall : callOf s (.server c) = some x := by simpa [callOf, hpc] using hx
    split <;> exact access_effect hcall (drainCall_cases hx).1
  | pass es =>
    cases es with
    | nil =>
      simp only [hpc, some.injEq] at hstep
      subst hstep
      exact ⟨.quiet, rfl, fun _ => rfl, rfl, le_rfl, trivial⟩
    | cons e es =>
      simp only [hpc] at hstep
      split at hstep <;>
        (cases hstep
         exact ⟨.quiet, rfl, fun _ => rfl, rfl, le_rfl, trivial⟩)
  | loaded e epoch np es =>
    simp only [hpc, some.injEq] at hstep
    subst hstep
    exact ⟨.dispatch c e (epoch + 2), rfl, fun _ => rfl, rfl, le_rfl, rfl, hc,
      .inl ⟨epoch, np, es, hpc, rfl⟩⟩
  | scan e epoch np todo active es =>
    cases todo with
    | nil =>
      simp only [hpc] at hstep
      split at hstep
      · cases hstep
        exact ⟨.quiet, rfl, fun _ => rfl, rfl, le_rfl, trivial⟩
      · rename_i hactive
        cases hstep
        rw [Bool.not_eq_true] at hactive
        subst hactive
        exact ⟨.dispatchAll c e epoch, rfl, fun _ => rfl, rfl, le_rfl, rfl, hc, np, es, hpc⟩
    | cons d ds =>
      simp only [hpc] at hstep
      split at hstep <;>
        (cases hstep
         exact ⟨.quiet, rfl, fun _ => rfl, rfl, le_rfl, trivial⟩)
  | scanEpoch e epoch np d ds es =>
    simp only [hpc] at hstep
    split at hstep <;>
      (cases hstep
       exact ⟨.quiet, rfl, fun _ => rfl, rfl, le_rfl, trivial⟩)
  | cas e epoch np es =>
    simp only [hpc, some.injEq] at hstep
    subst hstep
    exact ⟨.quiet, places_setDomain fun _ => rfl, marks_setDomain rfl, rfl, le_rfl, trivial⟩
  | tail e epoch np es =>
    simp only [hpc, some.injEq] at hstep
    subst hstep
    exact ⟨.dispatch c e (epoch + 3), rfl, fun _ => rfl, rfl, le_rfl, rfl, hc,
      .inr ⟨epoch, np, es, hpc, rfl⟩⟩
  | polled e np es =>
    simp only [hpc, some.injEq] at hstep
    subst hstep
    exact ⟨.quiet, rfl, fun _ => rfl, rfl, le_rfl, trivial⟩
  | exec =>
    simp only [hpc] at hstep
    cases hstack : s.cbStack c with
    | nil =>
      simp only [hstack, some.injEq] at hstep
      subst hstep
      exact ⟨.quiet, rfl, fun _ => rfl, rfl, le_rfl, trivial⟩
    | cons x rest =>
      simp only [hstack, some.injEq] at hstep
      subst hstep
      exact ⟨.execute c x rest, rfl, fun _ => rfl, rfl, le_rfl, rfl, hc, hpc, hstack⟩

/-- **Every step is one of the effects.** -/
theorem step_effect (hstep : step cpus epochs s a = some t) :
    ∃ f : Effect, Does cpus s t a f := by
  cases a with
  | enter k c e tracked =>
    obtain ⟨-, ⟨⟩⟩ := ite_none_right_eq_some.mp hstep
    refine ⟨.quiet, places_setDomain ?_, marks_setDomain rfl, rfl, Nat.le_succ _, trivial⟩
    intro j
    rcases eq_or_ne j c with rfl | hj
    · simp [Domain.setRecord]
    · simp [Domain.setRecord, hj]
  | exit k c e =>
    obtain ⟨-, hfind⟩ := ite_none_right_eq_some.mp hstep
    obtain ⟨x, -, rfl⟩ := map_eq_some_iff.mp hfind
    refine ⟨.quiet, places_setDomain ?_, marks_setDomain rfl, rfl, le_rfl, trivial⟩
    intro j
    rcases eq_or_ne j c with rfl | hj
    · simp [Domain.setRecord]
    · simp [Domain.setRecord, hj]
  | callBegin k c e =>
    obtain ⟨-, ⟨⟩⟩ := ite_none_right_eq_some.mp hstep
    refine ⟨.quiet, rfl, fun f => Marks.ext rfl (funext fun d => ?_) rfl rfl, rfl, le_rfl, trivial⟩
    simp [State.marks, Effect.apply]
  | access k =>
    obtain ⟨x, hx, hstep⟩ := bind_eq_some_iff.mp hstep
    obtain ⟨-, ⟨⟩⟩ := ite_none_right_eq_some.mp hstep
    exact access_effect hx (threadCall_cases hx).1
  | tick c =>
    simp only [Epoch.step] at hstep
    split at hstep <;>
      (cases hstep
       exact ⟨.quiet, rfl, fun _ => rfl, rfl, le_rfl, trivial⟩)
  | start c =>
    obtain ⟨-, ⟨⟩⟩ := ite_none_right_eq_some.mp hstep
    exact ⟨.quiet, rfl, fun _ => rfl, rfl, le_rfl, trivial⟩
  | startDrain c e =>
    obtain ⟨⟨hc, -, hreq, -⟩, ⟨⟩⟩ := ite_none_right_eq_some.mp hstep
    exact ⟨.drain e _ _ s.returned s.time, rfl, fun _ => rfl, rfl, le_rfl,
      .inl ⟨c, hc, hreq, rfl, rfl, rfl, rfl⟩⟩
  | server c =>
    obtain ⟨⟨hc, -⟩, hserver⟩ := ite_none_right_eq_some.mp hstep
    exact serverStep_effect hc hserver
  | drainBegin e =>
    obtain ⟨⟨-, hnone⟩, ⟨⟩⟩ := ite_none_right_eq_some.mp hstep
    exact ⟨.drain e _ s.calls s.returned _, rfl, fun _ => rfl, rfl, le_rfl,
      .inr (.inl ⟨hnone, rfl, rfl, rfl, rfl⟩)⟩
  | drainReturn e =>
    simp only [Epoch.step] at hstep
    split at hstep
    · cases hstep
    · rename_i start hstart
      obtain ⟨hcount, ⟨⟩⟩ := ite_none_right_eq_some.mp hstep
      exact ⟨.drain e _ s.calls _ s.time, rfl, fun _ => rfl, rfl, le_rfl,
        .inr (.inr ⟨start, hstart, hcount, rfl, rfl, rfl, rfl⟩)⟩

/-- Under the condition, the head that a call stores is the stack of pending callbacks. -/
theorem Undisturbed.head (h : Undisturbed s a) (hx : callOf s a = some x) {head : List Callback}
    (hpc : x.pc = .linked v m head) :
    ((s.domain x.epoch).record x.cpu).pending (v % CK_EPOCH_LENGTH) = head := by
  have hwhole := h x hx
  unfold Whole at hwhole
  rwa [hpc] at hwhole

theorem Located.step (h : Located s) (hg : Grace cpus s) (hwhole : Undisturbed s a)
    (hstep : Epoch.step cpus epochs s a = some t) : Located t := by
  obtain ⟨f, hplaces, -, -, htime, hcause⟩ := step_effect hstep
  have key : Located (f.apply s) := by
    cases f with
    | quiet => exact h
    | push x v m head => exact h.push (hwhole.head hcause.1 hcause.2.2)
    | dispatch c e i =>
      exact ⟨fun x => (located_dispatch hg.homed c e i x).trans (h.once x), h.earlier⟩
    | dispatchAll c e epoch =>
      exact ⟨fun x => (located_dispatchAll hg.homed c e epoch x).trans (h.once x), h.earlier⟩
    | execute c x rest =>
      obtain ⟨-, -, -, hstack⟩ := hcause
      have hc : x.cpu = c := (hg.core.stacked c x (hstack ▸ mem_cons_self)).1
      exact ⟨fun y => (located_execute hc hstack y).trans (h.once y), h.earlier⟩
    | drain e d calls ret time =>
      have hplaced : ∀ x, ((Effect.drain e d calls ret time).apply s).places.located x =
          s.places.located x :=
        fun x => congrArg (Places.located · x) (places_setDomain (d := { s.domain e with drain := d })
          fun _ => rfl)
      refine ⟨fun x => (hplaced x).trans (h.once x), fun x hx => lt_of_lt_of_le (h.earlier x hx) ?_⟩
      rcases hcause with ⟨_, _, _, _, _, _, rfl⟩ | ⟨_, _, _, _, rfl⟩ | ⟨_, _, _, _, _, _, rfl⟩
      · exact le_rfl
      · exact Nat.le_succ _
      · exact le_rfl
  have hreg : t.registered = (f.apply s).registered := congrArg Places.registered hplaces
  refine ⟨?_, ?_⟩
  · intro x
    rw [hplaces, hreg]
    exact key.once x
  · intro x hx
    rw [hreg] at hx
    exact lt_of_lt_of_le (key.earlier x hx) htime

theorem located_init : Located init :=
  ⟨fun _ => rfl, forall_mem_nil _⟩

end Places

def Record.total (r : Record) : Nat :=
  (r.pending 0).length + (r.pending 1).length + (r.pending 2).length + (r.pending 3).length

/-- The call has stored its increment of `cb_count`. -/
def Pc.counts : Pc → Bool
  | .counted _ => false
  | _ => true

/-- The call has stored its increment of `n_pending`. -/
def Pc.sizes : Pc → Bool
  | .queued .. | .linked .. => true
  | _ => false

/-- The epoch that is polled and `npending`. -/
def Server.polling : Server → Option (Nat × Int)
  | .loaded e _ np _ | .scan e _ np _ _ _ | .scanEpoch e _ np _ _ _ | .cas e _ np _
  | .tail e _ np _ | .polled e np _ => some (e, np)
  | _ => none

def Server.epochs : Server → List Nat
  | .idle | .exec => []
  | .drainCall e => [e]
  | .pass es => es
  | .loaded e _ _ es | .scan e _ _ _ _ es | .scanEpoch e _ _ _ _ es | .cas e _ _ es
  | .tail e _ _ es | .polled e _ es => e :: es

/-- The calls that have stored their increment of `n_pending` of a record, and of `cb_count`. -/
def sizing (calls : List Call) (e c : Nat) : Nat :=
  calls.countP fun x => x.epoch == e && x.cpu == c && x.pc.sizes

def counting (calls : List Call) (c : Nat) : Nat := calls.countP fun x => x.cpu == c && x.pc.counts

/-- The accounts of a processor: the pending callbacks and `n_pending` of each epoch, the calls that
    have stored an increment and not yet pushed, `cb_count` and the interrupt server. -/
@[ext] structure Account where
  total : Nat → Nat
  nPending : Nat → Int
  sizing : Nat → Nat
  counting : Nat
  cbCount : Int
  server : Server

def State.account (s : State) (c : Nat) : Account where
  total e := ((s.domain e).record c).total
  nPending e := ((s.domain e).record c).nPending
  sizing e := sizing s.calls e c
  counting := counting s.calls c
  cbCount := s.cbCount c
  server := s.server c

/-- What the poll under way has dispatched and not yet taken off `cb_count`. -/
def Account.dispatched (a : Account) : Int :=
  match a.server.polling with
  | some (e, np) => np - a.nPending e
  | none => 0

/-- `n_pending` and `cb_count` cover what is pending. -/
structure Account.Covers (epochs : List Nat) (a : Account) : Prop where
  sized : ∀ e, (a.total e + a.sizing e : Int) ≤ a.nPending e
  count : ((epochs.map a.total).sum + a.counting : Int) + a.dispatched ≤ a.cbCount
  listed : ∀ e ∈ a.server.epochs, e ∈ epochs
  polled : ∀ e np, a.server.polling = some (e, np) → a.nPending e ≤ np

structure Counted (cpus : Nat) (epochs : List Nat) (s : State) : Prop where
  covers : ∀ c, (s.account c).Covers epochs
  called : ∀ x ∈ s.calls, x.epoch ∈ epochs ∧ x.cpu < cpus

section Accounts

variable {epochs : List Nat} {a : Account} {e : Nat}

theorem sum_map_update {l : List Nat} (hl : l.Nodup) (he : e ∈ l) (n : Nat → Nat) (k : Nat) :
    (l.map (update n e k)).sum + n e = (l.map n).sum + k := by
  induction l with
  | nil => cases he
  | cons f l ih =>
    obtain ⟨hf, hl⟩ := nodup_cons.mp hl
    simp only [map_cons, sum_cons]
    rcases mem_cons.mp he with rfl | he
    · have hrest : l.map (update n e k) = l.map n := by
        refine map_congr_left ?_
        rintro g hg
        refine update_of_ne ?_ _ _
        rintro rfl
        exact hf hg
      rw [hrest, update_self]
      omega
    · grind

variable {p : Server}

theorem disabled_of_polling {x : Nat × Int} (h : p.polling = some x) :
    p.disabled = true := by
  cases p <;> first | rfl | cases h

theorem polling_none (h : p.disabled = false) : p.polling = none := by
  cases hp : p.polling with
  | none => rfl
  | some x =>
    rw [disabled_of_polling hp] at h
    cases h

theorem Account.dispatched_none (h : a.server.polling = none) : a.dispatched = 0 := by
  unfold Account.dispatched
  rw [h]

theorem Account.dispatched_some {np : Int} (h : a.server.polling = some (e, np)) :
    a.dispatched = np - a.nPending e := by
  unfold Account.dispatched
  rw [h]

theorem Account.Covers.move (h : a.Covers epochs) (hp : p.polling = a.server.polling)
    (hlisted : ∀ e ∈ p.epochs, e ∈ epochs) : Account.Covers epochs { a with server := p } := by
  refine ⟨h.sized, ?_, hlisted, ?_⟩
  · have hcount := h.count
    unfold Account.dispatched at hcount ⊢
    rwa [hp]
  · intro e np hpoll
    exact h.polled e np (hp ▸ hpoll)

/-- **A dispatch** takes callbacks off a stack and off `n_pending`. -/
theorem Account.Covers.dispatch (h : a.Covers epochs) (hl : epochs.Nodup) (he : e ∈ epochs) {np : Int}
    (hpoll : a.server.polling = some (e, np)) {n k : Nat} (hn : n + k = a.total e) :
    Account.Covers epochs { a with
      total := update a.total e n
      nPending := update a.nPending e (a.nPending e - k) } := by
  have hsum := sum_map_update hl he a.total n
  have hcount := h.count
  unfold Account.dispatched at hcount
  simp only [hpoll] at hcount
  refine ⟨?_, ?_, h.listed, ?_⟩
  · intro f
    have hsized := h.sized f
    rcases eq_or_ne f e with rfl | hf
    · simp only [update_self]
      omega
    · simpa [hf] using hsized
  · unfold Account.dispatched
    simp only [hpoll, update_self]
    omega
  · intro f m hf
    have hold := h.polled f m hf
    rcases eq_or_ne f e with rfl | hfe
    · simp only [update_self]
      omega
    · simpa [hfe] using hold

theorem Account.Covers.counts (h : a.Covers epochs) {n : Int} (hn : a.cbCount ≤ n) :
    Account.Covers epochs { a with counting := a.counting + 1, cbCount := n + 1 } := by
  refine ⟨h.sized, ?_, h.listed, h.polled⟩
  have hcount := h.count
  show ((epochs.map a.total).sum + (a.counting + 1 : Nat) : Int) + a.dispatched ≤ n + 1
  omega

theorem Account.Covers.sizes (h : a.Covers epochs) (hpoll : a.server.polling = none) {n : Int}
    (hn : a.nPending e ≤ n) :
    Account.Covers epochs { a with
      nPending := update a.nPending e (n + 1)
      sizing := update a.sizing e (a.sizing e + 1) } := by
  have hcount := h.count
  unfold Account.dispatched at hcount
  rw [hpoll] at hcount
  refine ⟨?_, ?_, h.listed, ?_⟩
  · intro f
    have hsized := h.sized f
    rcases eq_or_ne f e with rfl | hf
    · simp only [update_self]
      omega
    · simpa [hf] using hsized
  · unfold Account.dispatched
    simpa only [hpoll] using hcount
  · intro f np hf
    rw [hpoll] at hf
    cases hf

/-- **A push** makes pending what the call has counted. -/
theorem Account.Covers.push (h : a.Covers epochs) (hl : epochs.Nodup) (he : e ∈ epochs)
    {n k : Nat} (hn : n + 1 = a.sizing e) (hk : k + 1 = a.counting) :
    Account.Covers epochs { a with
      total := update a.total e (a.total e + 1)
      sizing := update a.sizing e n
      counting := k } := by
  have hsum := sum_map_update hl he a.total (a.total e + 1)
  refine ⟨?_, ?_, h.listed, h.polled⟩
  · intro f
    have hsized := h.sized f
    rcases eq_or_ne f e with rfl | hf
    · simp only [update_self]
      omega
    · simpa [hf] using hsized
  · have hcount := h.count
    show ((epochs.map (update a.total e (a.total e + 1))).sum + k : Int) + a.dispatched ≤
      a.cbCount
    omega

theorem Account.Covers.pos (h : a.Covers epochs) (he : e ∈ epochs) (hn : 0 < a.total e) :
    0 < a.cbCount := by
  have hdispatched : 0 ≤ a.dispatched := by
    unfold Account.dispatched
    split
    · rename_i f np hp
      have := h.polled f np hp
      omega
    · exact le_rfl
  have hsum : a.total e ≤ (epochs.map a.total).sum :=
    single_le_sum (fun _ _ => Nat.zero_le _) _ (mem_map.mpr ⟨e, he, rfl⟩)
  have hcount := h.count
  omega

end Accounts

section Counts

variable {cpus : Nat} {epochs : List Nat} {s t : State} {c e : Nat}

variable {k : Nat}

theorem account_eq
    (hrecord : ∀ f, ((t.domain f).record k).pending = ((s.domain f).record k).pending ∧
      ((t.domain f).record k).nPending = ((s.domain f).record k).nPending)
    (hcalls : ∀ p : Call → Bool, (∀ y, p y = true → y.cpu = k) → t.calls.countP p = s.calls.countP p)
    (hcount : t.cbCount k = s.cbCount k) (hserver : t.server k = s.server k) :
    t.account k = s.account k := by
  have hp := fun f => (hrecord f).1
  have hn := fun f => (hrecord f).2
  have hsizing : ∀ f, sizing t.calls f k = sizing s.calls f k :=
    fun f => hcalls _ (by simp +contextual)
  have hcounting : counting t.calls k = counting s.calls k := hcalls _ (by simp +contextual)
  unfold State.account Record.total
  simp only [hp, hn, hcount, hserver, hsizing, hcounting]

theorem account_setServer_self (s : State) (c : Nat) (p : Server) :
    (s.setServer c p).account c = { s.account c with server := p } := by
  simp [State.account, State.setServer]

theorem account_setServer_ne (s : State) (hk : k ≠ c) (p : Server) :
    (s.setServer c p).account k = s.account k :=
  account_eq (fun _ => ⟨rfl, rfl⟩) (fun _ _ => rfl) rfl (update_of_ne hk _ _)

theorem account_setDomain_self {d : Domain} {r : Record} (hr : d.record c = r) :
    (s.setDomain e d).account c = { s.account c with
      total := update (s.account c).total e r.total
      nPending := update (s.account c).nPending e r.nPending } := by
  have hrecord : ∀ f, (update s.domain e d f).record c =
      if f = e then r else (s.domain f).record c := by
    intro f
    rcases eq_or_ne f e with rfl | hf
    · simp [hr]
    · simp [hf]
  unfold State.account State.setDomain
  simp only [hrecord]
  congr 1 <;> (funext f; rcases eq_or_ne f e with rfl | hf <;> simp [*])

theorem account_setRecord_ne (s : State) (hk : k ≠ c) (e : Nat) (r : Record) :
    (s.setDomain e ((s.domain e).setRecord c r)).account k = s.account k := by
  refine account_eq ?_ (fun _ _ => rfl) rfl rfl
  intro f
  rcases eq_or_ne f e with rfl | hf
  · simp [State.setDomain, Domain.setRecord, hk]
  · simp [State.setDomain, hf]

theorem account_setDomain {d : Domain} (h : ∀ k, (d.record k).pending = ((s.domain e).record k).pending ∧
    (d.record k).nPending = ((s.domain e).record k).nPending) (k : Nat) :
    (s.setDomain e d).account k = s.account k := by
  refine account_eq ?_ (fun _ _ => rfl) rfl rfl
  intro f
  rcases eq_or_ne f e with rfl | hf
  · simp [State.setDomain, h]
  · simp [State.setDomain, hf]

variable {x : Call} {l : List Call}

theorem countP_erase_call (hx : x ∈ l) (p : Call → Bool) :
    (l.erase x).countP p + (p x).toNat = l.countP p := by
  have h := countP_recall hx x p
  rw [countP_cons] at h
  cases hpx : p x <;> simp [hpx] at h ⊢ <;> omega

theorem sizing_recall (hx : x ∈ l) (y : Call) (e c : Nat) :
    sizing (y :: l.erase x) e c + (x.epoch == e && x.cpu == c && x.pc.sizes).toNat =
      sizing l e c + (y.epoch == e && y.cpu == c && y.pc.sizes).toNat := countP_recall hx y _

theorem counting_recall (hx : x ∈ l) (y : Call) (c : Nat) :
    counting (y :: l.erase x) c + (x.cpu == c && x.pc.counts).toNat =
      counting l c + (y.cpu == c && y.pc.counts).toNat := countP_recall hx y _

theorem sizing_erase (hx : x ∈ l) (e c : Nat) :
    sizing (l.erase x) e c + (x.epoch == e && x.cpu == c && x.pc.sizes).toNat = sizing l e c :=
  countP_erase_call hx _

theorem counting_erase (hx : x ∈ l) (c : Nat) :
    counting (l.erase x) c + (x.cpu == c && x.pc.counts).toNat = counting l c :=
  countP_erase_call hx _

theorem Counted.move (h : Counted cpus epochs s) (hother : ∀ k ≠ c, t.account k = s.account k)
    (hc : (t.account c).Covers epochs) (hcalls : ∀ x ∈ t.calls, x.epoch ∈ epochs ∧ x.cpu < cpus) :
    Counted cpus epochs t := by
  refine ⟨?_, hcalls⟩
  intro k
  rcases eq_or_ne k c with rfl | hk
  · exact hc
  · rw [hother k hk]
    exact h.covers k

/-- A step that changes no account. -/
theorem Counted.quiet (h : Counted cpus epochs s) (ht : ∀ k, t.account k = s.account k)
    (hcalls : t.calls = s.calls) : Counted cpus epochs t :=
  h.move (c := 0) (fun k _ => ht k) (ht 0 ▸ h.covers 0) (hcalls ▸ h.called)

/-- The interrupt server proceeds and polls nothing else. -/
theorem Counted.server (h : Counted cpus epochs s) {p : Server} (hp : p.polling = (s.server c).polling)
    (hlisted : ∀ f ∈ p.epochs, f ∈ epochs) : Counted cpus epochs (s.setServer c p) := by
  refine h.move (c := c) (fun k hk => account_setServer_ne s hk p) ?_ h.called
  rw [account_setServer_self]
  exact (h.covers c).move hp hlisted

theorem mod_length (n : Nat) : n % CK_EPOCH_LENGTH = 0 ∨ n % CK_EPOCH_LENGTH = 1 ∨
    n % CK_EPOCH_LENGTH = 2 ∨ n % CK_EPOCH_LENGTH = 3 := by
  unfold CK_EPOCH_LENGTH
  omega

theorem total_pushed (r : Record) (y : Callback) : (r.pushed y).total = r.total + 1 := by
  unfold Record.total Record.pushed
  rcases mod_length y.value with h | h | h | h <;> rw [h] <;> simp [update] <;> omega

theorem total_dispatch (r : Record) (epoch : Nat) (deferred : List Callback) :
    (dispatch r epoch deferred).1.total + (r.pending (epoch % CK_EPOCH_LENGTH)).length = r.total := by
  unfold Record.total
  rw [dispatch_pending]
  rcases mod_length epoch with h | h | h | h <;> rw [h] <;> simp [update] <;> omega

theorem Counted.dispatch (h : Counted cpus epochs s) (hl : epochs.Nodup) (he : e ∈ epochs) {np : Int}
    (hpoll : (s.server c).polling = some (e, np)) (i : Nat) :
    Counted cpus epochs (dispatchStep s c e i) := by
  refine h.move (fun k hk => account_setRecord_ne s hk e _) ?_ h.called
  show ((s.setDomain e ((s.domain e).setRecord c _)).account c).Covers epochs
  rw [account_setDomain_self (update_self _ _ _)]
  exact (h.covers c).dispatch hl he hpoll (total_dispatch ((s.domain e).record c) i (s.cbStack c))

theorem Counted.dispatchAll (h : Counted cpus epochs s) (hl : epochs.Nodup) (he : e ∈ epochs) {np : Int}
    (hpoll : (s.server c).polling = some (e, np)) (epoch : Nat) :
    Counted cpus epochs (dispatchAllStep s c e epoch) := by
  have hstart : Counted cpus epochs (s.setDomain e ((s.domain e).setRecord c
      { (s.domain e).record c with epoch := epoch })) := by
    refine h.quiet (account_setDomain ?_) rfl
    intro k
    rcases eq_or_ne k c with rfl | hk
    · simp [Domain.setRecord]
    · simp [Domain.setRecord, hk]
  let P : State → Prop := fun u => u.server = s.server ∧ Counted cpus epochs u
  have hstep : ∀ u i, P u → P (dispatchStep u c e i) := fun u i hu =>
    ⟨hu.1, hu.2.dispatch hl he (hu.1 ▸ hpoll) i⟩
  have hbegin : P (s.setDomain e ((s.domain e).setRecord c
      { (s.domain e).record c with epoch := epoch })) := ⟨rfl, hstart⟩
  have hend := foldl_dispatch hstep (List.range CK_EPOCH_LENGTH) hbegin
  rw [← dispatchAllStep_eq] at hend
  exact hend.2

/-- A call proceeds and stores nothing. -/
theorem Counted.recall (h : Counted cpus epochs s) (hx : x ∈ s.calls) {pc : Pc}
    (hcounts : pc.counts = x.pc.counts) (hsizes : pc.sizes = x.pc.sizes) :
    Counted cpus epochs (s.setPc x pc) := by
  refine ⟨?_, ?_⟩
  · intro k
    have haccount : (s.setPc x pc).account k = s.account k := by
      refine Account.ext rfl rfl ?_ ?_ rfl rfl
      · funext f
        have hsizing := sizing_recall hx { x with pc := pc } f k
        simp only [hsizes] at hsizing
        exact Nat.add_right_cancel hsizing
      · have hcounting := counting_recall hx { x with pc := pc } k
        simp only [hcounts] at hcounting
        exact Nat.add_right_cancel hcounting
    exact haccount ▸ h.covers k
  · intro y hy
    rcases mem_cons.mp hy with rfl | hy
    · exact h.called x hx
    · exact h.called y (mem_of_mem_erase hy)

theorem account_access_ne (hx : x ∈ s.calls) (hk : k ≠ x.cpu) :
    (access s x).account k = s.account k := by
  have hcall : ∀ pc (p : Call → Bool), (∀ y, p y = true → y.cpu = k) →
      ({ x with pc := pc } :: s.calls.erase x).countP p = s.calls.countP p := by
    intro pc p hp
    have hno : ∀ y : Call, y.cpu = x.cpu → p y = false := by
      intro y hy
      by_contra hpy
      exact hk ((hp y (by simpa using hpy)).symm.trans hy)
    have := countP_recall hx { x with pc := pc } p
    simpa [hno x rfl, hno { x with pc := pc } rfl] using this
  unfold access
  cases x.pc with
  | counted n =>
    exact account_eq (fun _ => ⟨rfl, rfl⟩) (hcall _) (update_of_ne hk _ _) rfl
  | sized v m n =>
    refine account_eq ?_ (hcall _) rfl rfl
    intro f
    rcases eq_or_ne f x.epoch with rfl | hf
    · simp [State.setPc, State.setDomain, Domain.setRecord, hk]
    · simp [State.setPc, State.setDomain, hf]
  | linked v m head =>
    refine account_eq ?_ ?_ rfl rfl
    · intro f
      rcases eq_or_ne f x.epoch with rfl | hf
      · simp [push, State.setDomain, Domain.setRecord, hk]
      · simp [push, State.setDomain, hf]
    · intro p hp
      have := countP_erase_call hx p
      have hno : p x = false := by
        by_contra hpx
        exact hk (hp x (by simpa using hpx)).symm
      rw [hno] at this
      exact this
  | _ => exact account_eq (fun _ => ⟨rfl, rfl⟩) (hcall _) rfl rfl

theorem Counted.recalled (h : Counted cpus epochs s) (hx : x ∈ s.calls) (pc : Pc) :
    ∀ y ∈ ({ x with pc := pc } :: s.calls.erase x : List Call), y.epoch ∈ epochs ∧ y.cpu < cpus := by
  intro y hy
  rcases mem_cons.mp hy with rfl | hy
  · exact h.called x hx
  · exact h.called y (mem_of_mem_erase hy)

variable {n : Int}

theorem Counted.count (h : Counted cpus epochs s) (hx : x ∈ s.calls)
    (hpc : x.pc = .counted n) (hn : s.cbCount x.cpu ≤ n) : Counted cpus epochs (access s x) := by
  refine h.move (fun k hk => account_access_ne hx hk) ?_ ?_
  · have hcounting := counting_recall hx { x with pc := .begun } x.cpu
    have hsizing := fun f => sizing_recall hx { x with pc := .begun } f x.cpu
    simp only [hpc, beq_self_eq_true, Bool.true_and, Pc.counts, Pc.sizes, Bool.and_false,
      Bool.toNat_false, Bool.toNat_true, Nat.add_zero] at hcounting hsizing
    rw [access, hpc]
    convert (h.covers x.cpu).counts hn using 1
    refine Account.ext rfl rfl (funext hsizing) hcounting ?_ rfl
    simp [State.account]
  · rw [access, hpc]
    exact h.recalled hx _

theorem Counted.size (h : Counted cpus epochs s) (hx : x ∈ s.calls)
    (hc : (s.server x.cpu).disabled = false) {v m : Nat} (hpc : x.pc = .sized v m n)
    (hn : ((s.domain x.epoch).record x.cpu).nPending ≤ n) : Counted cpus epochs (access s x) := by
  refine h.move (fun k hk => account_access_ne hx hk) ?_ ?_
  · have hcounting := counting_recall hx { x with pc := .queued v m } x.cpu
    have hsizing := fun f => sizing_recall hx { x with pc := .queued v m } f x.cpu
    simp only [hpc, beq_self_eq_true, Bool.and_true, Pc.counts, Pc.sizes, Bool.and_false,
      Bool.toNat_false, Bool.toNat_true, Nat.add_zero, Nat.add_right_cancel_iff] at hcounting hsizing
    have hrecord : (s.setDomain x.epoch ((s.domain x.epoch).setRecord x.cpu
        { (s.domain x.epoch).record x.cpu with nPending := n + 1 })).account x.cpu = _ :=
      account_setDomain_self (update_self _ _ _)
    have htotal := congrArg Account.total hrecord
    have hpending := congrArg Account.nPending hrecord
    rw [access, hpc]
    convert (h.covers x.cpu).sizes (polling_none hc) hn using 1
    refine Account.ext (htotal.trans (update_eq_self _ _)) hpending ?_ hcounting rfl rfl
    funext f
    refine (hsizing f).trans ?_
    rcases eq_or_ne f x.epoch with rfl | hf
    · simp [State.account]
    · simp [State.account, hf, hf.symm]
  · rw [access, hpc]
    exact h.recalled hx _

theorem Counted.push (h : Counted cpus epochs s) (hl : epochs.Nodup) (hx : x ∈ s.calls)
    {v m : Nat} {head : List Callback} (hpc : x.pc = .linked v m head)
    (hhead : ((s.domain x.epoch).record x.cpu).pending (v % CK_EPOCH_LENGTH) = head) :
    Counted cpus epochs (access s x) := by
  subst hhead
  refine h.move (fun k hk => account_access_ne hx hk) ?_ ?_
  · have hcounting := counting_erase hx x.cpu
    have hsizing := fun f => sizing_erase hx f x.cpu
    simp only [hpc, beq_self_eq_true, Bool.and_true, Pc.counts, Pc.sizes, Bool.toNat_true]
      at hcounting hsizing
    have hsized := hsizing x.epoch
    rw [beq_self_eq_true] at hsized
    rw [access, hpc]
    have hrecord : ∀ d : Domain, d.record x.cpu = ((s.domain x.epoch).record x.cpu).pushed
        (x.callback v m s.time) → (s.setDomain x.epoch d).account x.cpu = _ :=
      fun _ hd => account_setDomain_self hd
    have htotal := fun d hd => congrArg Account.total (hrecord d hd)
    have hpending := fun d hd => congrArg Account.nPending (hrecord d hd)
    convert (h.covers x.cpu).push hl (h.called x hx).1 hsized hcounting using 1
    refine Account.ext ?_ ?_ ?_ rfl rfl rfl
    · refine (htotal _ (update_self _ _ _)).trans ?_
      rw [total_pushed]
      rfl
    · exact (hpending _ (update_self _ _ _)).trans (update_eq_self _ _)
    · funext f
      rcases eq_or_ne f x.epoch with rfl | hf
      · simp [State.account, Epoch.push]
      · have := hsizing f
        simp only [beq_false_of_ne hf.symm, Bool.toNat_false, Nat.add_zero] at this
        simp only [update_of_ne hf]
        exact this
  · rw [access, hpc]
    exact fun y hy => h.called y (mem_of_mem_erase hy)

/-- **The accesses of `epoch_call` keep the accounts**, if they undo no other store. -/
theorem Counted.access (h : Counted cpus epochs s) (hl : epochs.Nodup) (hx : x ∈ s.calls)
    (hc : (s.server x.cpu).disabled = false) (hwhole : Whole s x) : Counted cpus epochs (access s x) := by
  unfold Whole at hwhole
  cases hpc : x.pc with
  | counted n =>
    rw [hpc] at hwhole
    exact h.count hx hpc hwhole
  | sized v m n =>
    rw [hpc] at hwhole
    exact h.size hx hc hpc hwhole
  | linked v m head =>
    rw [hpc] at hwhole
    exact h.push hl hx hpc hwhole
  | begun =>
    have hrecall : Counted cpus epochs (s.setPc x (.valued (s.domain x.epoch).global s.time)) :=
      h.recall hx (by simp [hpc, Pc.counts]) (by simp [hpc, Pc.sizes])
    rw [Epoch.access, hpc]
    exact hrecall.quiet (fun _ => rfl) rfl
  | _ =>
    rw [Epoch.access, hpc]
    exact h.recall hx (by simp [hpc, Pc.counts]) (by simp [hpc, Pc.sizes])

theorem Counted.begin (h : Counted cpus epochs s) (hx : x.pc = .counted n)
    (he : x.epoch ∈ epochs ∧ x.cpu < cpus) : Counted cpus epochs { s with calls := x :: s.calls } := by
  refine ⟨?_, forall_mem_cons.mpr ⟨he, h.called⟩⟩
  intro k
  have haccount : ({ s with calls := x :: s.calls } : State).account k = s.account k := by
    refine Account.ext rfl rfl ?_ ?_ rfl rfl
    · funext f
      simp [State.account, sizing, hx, Pc.sizes]
    · simp [State.account, counting, hx, Pc.counts]
  exact haccount ▸ h.covers k

theorem Counted.serverStep (h : Counted cpus epochs s) (hl : epochs.Nodup)
    (hwhole : Undisturbed s (.server c)) (hstep : serverStep cpus s c = some t) :
    Counted cpus epochs t := by
  unfold Epoch.serverStep at hstep
  have hlisted : ∀ f ∈ (s.server c).epochs, f ∈ epochs := (h.covers c).listed
  cases hpc : s.server c with
  | idle => simp [hpc] at hstep
  | drainCall e =>
    simp only [hpc] at hstep
    obtain ⟨x, hx, rfl⟩ := map_eq_some_iff.mp hstep
    obtain ⟨hmem, -, rfl, rfl⟩ := drainCall_cases hx
    have haccess := h.access hl hmem (by rw [hpc]; rfl) (hwhole x (by simpa [callOf, hpc] using hx))
    split
    · refine haccess.server ?_ (forall_mem_nil _)
      rw [access_server, hpc]
      rfl
    · exact haccess
  | pass es =>
    rw [hpc] at hlisted
    cases es with
    | nil =>
      simp only [hpc, some.injEq] at hstep
      subst hstep
      exact h.server (by rw [hpc]; rfl) (forall_mem_nil _)
    | cons e es =>
      simp only [hpc] at hstep
      split at hstep <;> cases hstep
      · have hold := h.covers c
        refine h.move (c := c) (fun k hk => account_setServer_ne s hk _) ?_ h.called
        rw [account_setServer_self]
        refine ⟨hold.sized, ?_, hlisted, ?_⟩
        · have hcount := hold.count
          rw [Account.dispatched_none (by rw [State.account, hpc]; rfl)] at hcount
          rw [Account.dispatched_some rfl]
          simpa [State.account] using hcount
        · rintro f np ⟨⟩
          exact le_rfl
      · exact h.server (by rw [hpc]; rfl) fun f hf => hlisted f (mem_cons_of_mem _ hf)
  | loaded e epoch np es =>
    rw [hpc] at hlisted
    simp only [hpc, some.injEq] at hstep
    subst hstep
    have hpoll : (s.server c).polling = some (e, np) := by rw [hpc]; rfl
    exact (h.dispatch hl (hlisted e mem_cons_self) hpoll _).server hpoll.symm hlisted
  | scan e epoch np todo active es =>
    rw [hpc] at hlisted
    have hpoll : (s.server c).polling = some (e, np) := by rw [hpc]; rfl
    cases todo with
    | nil =>
      simp only [hpc] at hstep
      split at hstep <;> cases hstep
      · exact h.server hpoll.symm hlisted
      · exact (h.dispatchAll hl (hlisted e mem_cons_self) hpoll _).server hpoll.symm hlisted
    | cons d ds =>
      simp only [hpc] at hstep
      split at hstep <;>
        (cases hstep
         exact h.server hpoll.symm hlisted)
  | scanEpoch e epoch np d ds es =>
    rw [hpc] at hlisted
    have hpoll : (s.server c).polling = some (e, np) := by rw [hpc]; rfl
    simp only [hpc] at hstep
    split at hstep <;>
      (cases hstep
       exact h.server hpoll.symm hlisted)
  | cas e epoch np es =>
    rw [hpc] at hlisted
    simp only [hpc, some.injEq] at hstep
    subst hstep
    have hquiet : Counted cpus epochs (s.setDomain e { s.domain e with
        global := if (s.domain e).global = epoch then epoch + 1 else (s.domain e).global }) :=
      h.quiet (account_setDomain fun _ => ⟨rfl, rfl⟩) rfl
    exact hquiet.server (by rw [State.setDomain, hpc]; rfl) hlisted
  | tail e epoch np es =>
    rw [hpc] at hlisted
    simp only [hpc, some.injEq] at hstep
    subst hstep
    have hpoll : (s.server c).polling = some (e, np) := by rw [hpc]; rfl
    exact (h.dispatch hl (hlisted e mem_cons_self) hpoll _).server hpoll.symm hlisted
  | polled e np es =>
    rw [hpc] at hlisted
    simp only [hpc, some.injEq] at hstep
    subst hstep
    have hold := h.covers c
    refine h.move (c := c) ?_ ?_ h.called
    · intro k hk
      exact account_eq (fun _ => ⟨rfl, rfl⟩) (fun _ _ => rfl) (update_of_ne hk _ _)
        (update_of_ne hk _ _)
    · rw [account_setServer_self]
      refine ⟨hold.sized, ?_, fun f hf => hlisted f (mem_cons_of_mem _ hf), by rintro _ _ ⟨⟩⟩
      have hcount := hold.count
      rw [Account.dispatched_some (by rw [State.account, hpc]; rfl)] at hcount
      rw [Account.dispatched_none rfl]
      simp only [State.account, update_self] at hcount ⊢
      omega
  | exec =>
    simp only [hpc] at hstep
    split at hstep <;> cases hstep
    · have hquiet : Counted cpus epochs { s with
          passes := update s.passes c (s.passes c + 1) } := h.quiet (fun _ => rfl) rfl
      exact hquiet.server (by rw [hpc]; rfl) (forall_mem_nil _)
    · refine h.quiet (account_setDomain ?_) rfl
      intro k
      split <;> exact ⟨rfl, rfl⟩

/-- **`cb_count` and `n_pending` cover the pending callbacks after every step that undoes no
    store.** -/
theorem Counted.step (h : Counted cpus epochs s) (hl : epochs.Nodup) {a : Act} (hwhole : Undisturbed s a)
    (hstep : Epoch.step cpus epochs s a = some t) : Counted cpus epochs t := by
  cases a with
  | enter k c e tracked =>
    obtain ⟨-, ⟨⟩⟩ := ite_none_right_eq_some.mp hstep
    refine h.quiet (account_setDomain ?_) rfl
    intro j
    rcases eq_or_ne j c with rfl | hj
    · simp [Domain.setRecord]
    · simp [Domain.setRecord, hj]
  | exit k c e =>
    obtain ⟨-, hfind⟩ := ite_none_right_eq_some.mp hstep
    obtain ⟨x, -, rfl⟩ := map_eq_some_iff.mp hfind
    refine h.quiet (account_setDomain ?_) rfl
    intro j
    rcases eq_or_ne j c with rfl | hj
    · simp [Domain.setRecord]
    · simp [Domain.setRecord, hj]
  | callBegin k c e =>
    obtain ⟨⟨hc, he, -, -⟩, ⟨⟩⟩ := ite_none_right_eq_some.mp hstep
    exact h.begin rfl ⟨he, hc⟩
  | access k =>
    obtain ⟨x, hx, hstep⟩ := bind_eq_some_iff.mp hstep
    obtain ⟨hrun, ⟨⟩⟩ := ite_none_right_eq_some.mp hstep
    exact h.access hl (threadCall_cases hx).1 (enabled_of_mayRun hrun) (hwhole x hx)
  | tick c =>
    simp only [Epoch.step] at hstep
    split at hstep <;>
      (cases hstep
       exact h.quiet (fun _ => rfl) rfl)
  | start c =>
    obtain ⟨⟨-, -, hidle⟩, ⟨⟩⟩ := ite_none_right_eq_some.mp hstep
    have hquiet : Counted cpus epochs { s with
        submitted := update s.submitted c false } := h.quiet (fun _ => rfl) rfl
    exact hquiet.server (p := .pass epochs) (by rw [hidle]; rfl) fun _ hf => hf
  | startDrain c e =>
    obtain ⟨⟨hc, he, -, hidle⟩, ⟨⟩⟩ := ite_none_right_eq_some.mp hstep
    have hquiet : Counted cpus epochs (s.setDomain e { s.domain e with drain := { (s.domain e).drain with
        request := update (s.domain e).drain.request c false } }) :=
      h.quiet (account_setDomain fun _ => ⟨rfl, rfl⟩) rfl
    have hbegin := hquiet.begin (x := ⟨none, e, c, .counted (s.cbCount c)⟩) rfl ⟨he, hc⟩
    refine hbegin.server (p := .drainCall e) ?_ (by simpa [Server.epochs] using he)
    show Server.polling (.drainCall e) = (s.server c).polling
    rw [hidle]
    rfl
  | server c =>
    obtain ⟨-, hserver⟩ := ite_none_right_eq_some.mp hstep
    exact h.serverStep hl hwhole hserver
  | drainBegin e =>
    obtain ⟨-, ⟨⟩⟩ := ite_none_right_eq_some.mp hstep
    exact h.quiet (account_setDomain fun _ => ⟨rfl, rfl⟩) rfl
  | drainReturn e =>
    simp only [Epoch.step] at hstep
    split at hstep
    · cases hstep
    · obtain ⟨-, ⟨⟩⟩ := ite_none_right_eq_some.mp hstep
      exact h.quiet (account_setDomain fun _ => ⟨rfl, rfl⟩) rfl

theorem counted_init : Counted cpus epochs init := by
  refine ⟨?_, forall_mem_nil _⟩
  intro c
  refine ⟨fun _ => le_rfl, ?_, forall_mem_nil _, by rintro _ _ ⟨⟩⟩
  have hsum : (epochs.map fun _ => 0).sum = 0 := by simp
  show (((epochs.map fun _ => 0).sum : Nat) + ((0 : Nat) : Int)) + 0 ≤ 0
  rw [hsum]
  rfl

theorem Counted.nPending_pos (h : Counted cpus epochs s) {i : Nat} {x : Callback} (hi : i < CK_EPOCH_LENGTH)
    (hx : x ∈ ((s.domain e).record c).pending i) :
    0 < ((s.domain e).record c).total ∧ 0 < ((s.domain e).record c).nPending := by
  have hpos : 0 < ((s.domain e).record c).total := by
    unfold Record.total
    have := length_pos_of_mem hx
    unfold CK_EPOCH_LENGTH at hi
    have : i = 0 ∨ i = 1 ∨ i = 2 ∨ i = 3 := by omega
    grind
  have hsized : (((s.domain e).record c).total + sizing s.calls e c : Int) ≤
      ((s.domain e).record c).nPending := (h.covers c).sized e
  exact ⟨hpos, by omega⟩

theorem Counted.pos (h : Counted cpus epochs s) (he : e ∈ epochs) {i : Nat} {x : Callback}
    (hi : i < CK_EPOCH_LENGTH) (hx : x ∈ ((s.domain e).record c).pending i) : 0 < s.cbCount c :=
  (h.covers c).pos he (h.nPending_pos hi hx).1

end Counts

end RtemsLibbsd.Epoch
