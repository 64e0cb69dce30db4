import Mathlib.Logic.Basic

/-!
# Finite runs of partial, action-labelled transition functions

A system is given by a function `step : σ → α → Option σ`: `step s a = none` means that the
action `a` is not possible in `s`.  The choices of the environment (what an allocator
returns, which thread runs next, which datagram arrives) are part of the action, so a list of
actions determines a run and a run can be evaluated.

* `run` — the state after a list of actions, `none` when one of them was not possible.
* `StepsMeet` — every step of a run meets a condition on the state before it and its action.
* `run_invariant`, `run_invariant_of_meet` — the two induction rules every safety result of
  the development is assembled with.
* `good_iff_stepsMeet` — the rule for exact conditions: a property holds in every state of a run exactly
  when every step meets the condition.
* `run_length_le` — the rule for termination.
-/

namespace RtemsLibbsd.Transition

open Option

open List

universe u v

variable {σ : Type u} {α : Type v}

/-- The state after the actions `as`, in order. -/
def run (step : σ → α → Option σ) : σ → List α → Option σ
  | s, [] => some s
  | s, a :: as => (step s a).bind fun t => run step t as

/-- Every step of the run of `as` from `s` meets `ok`. -/
def StepsMeet (step : σ → α → Option σ) (ok : σ → α → Prop) : σ → List α → Prop
  | _, [] => True
  | s, a :: as => ok s a ∧ ∀ t ∈ step s a, StepsMeet step ok t as

instance StepsMeet.decidable (step : σ → α → Option σ) (ok : σ → α → Prop)
    [∀ s a, Decidable (ok s a)] : ∀ (s : σ) (as : List α), Decidable (StepsMeet step ok s as)
  | _, [] => inferInstanceAs (Decidable True)
  | s, a :: as =>
    have : ∀ t, Decidable (StepsMeet step ok t as) := fun t => StepsMeet.decidable step ok t as
    inferInstanceAs (Decidable (ok s a ∧ ∀ t ∈ step s a, StepsMeet step ok t as))

variable {ok : σ → α → Prop} {as : List α}

variable {s : σ} {a : α}

theorem stepsMeet_total_cons {next : σ → α → σ} :
    StepsMeet (fun s a => some (next s a)) ok s (a :: as) ↔
      ok s a ∧ StepsMeet (fun s a => some (next s a)) ok (next s a) as := by
  refine and_congr_right fun _ => ⟨fun h => h _ rfl, fun h t ht => ?_⟩
  obtain rfl : next s a = t := some.inj ht
  exact h

theorem stepsMeet_total_append {next : σ → α → σ} {as bs : List α}
    (h : StepsMeet (fun s a => some (next s a)) ok s (as ++ bs)) :
    StepsMeet (fun s a => some (next s a)) ok (as.foldl next s) bs := by
  induction as generalizing s with
  | nil => exact h
  | cons a as ih => exact ih (stepsMeet_total_cons.mp h).2

variable {step : σ → α → Option σ}

@[simp] theorem run_nil (s : σ) : run step s [] = some s := rfl

theorem run_cons {s t : σ} :
    run step s (a :: as) = some t ↔ ∃ m, step s a = some m ∧ run step m as = some t := by
  simp [run, bind_eq_some_iff]

theorem run_append {s t : σ} (h : run step s as = some t) (bs : List α) :
    run step s (as ++ bs) = run step t bs := by
  induction as generalizing s with
  | nil =>
    cases h
    rfl
  | cons a as ih =>
    obtain ⟨m, hm, h⟩ := run_cons.mp h
    rw [cons_append, run, hm]
    exact ih h

variable {Inv : σ → Prop}

/-- **Invariant rule**: what holds first and is preserved by every step holds after every run. -/
theorem run_invariant (hstep : ∀ s a t, Inv s → step s a = some t → Inv t) :
    ∀ (as : List α) (s t : σ), Inv s → run step s as = some t → Inv t
  | [], s, t, hs, h => by
    simp only [run_nil, some.injEq] at h
    exact h ▸ hs
  | a :: as, s, t, hs, h => by
    obtain ⟨m, hm, h⟩ := run_cons.mp h
    exact run_invariant hstep as m t (hstep s a m hs hm) h

theorem stepsMeet_of_forall :
    ∀ (as : List α) (s : σ), (∀ a ∈ as, ∀ t, ok t a) → StepsMeet step ok s as
  | [], _, _ => trivial
  | a :: as, s, h =>
    ⟨h a mem_cons_self s,
      fun t _ => stepsMeet_of_forall as t fun b hb => h b (mem_cons_of_mem _ hb)⟩

theorem stepsMeet_congr {ok ok' : σ → α → Prop} (h : ∀ s a, ok s a ↔ ok' s a) :
    ∀ (as : List α) (s : σ), StepsMeet step ok s as ↔ StepsMeet step ok' s as
  | [], _ => Iff.rfl
  | a :: as, s =>
    and_congr (h s a) (forall_congr' fun t => imp_congr_right fun _ => stepsMeet_congr h as t)

/-- Conditions that say the same wherever an invariant holds that the steps meeting the first one
    preserve. -/
theorem stepsMeet_congr_of_invariant {ok ok' : σ → α → Prop} (h : ∀ s a, Inv s → (ok s a ↔ ok' s a))
    (hstep : ∀ s a t, Inv s → ok s a → step s a = some t → Inv t) :
    ∀ (as : List α) (s : σ), Inv s → (StepsMeet step ok s as ↔ StepsMeet step ok' s as)
  | [], _, _ => Iff.rfl
  | a :: as, s, hs => by
    have htail : ok s a → ∀ t ∈ step s a, (StepsMeet step ok t as ↔ StepsMeet step ok' t as) :=
      fun hok t ht => stepsMeet_congr_of_invariant h hstep as t (hstep s a t hs hok ht)
    grind [StepsMeet]

/-- A condition that follows from another one wherever an invariant holds that the steps meeting the
    other one preserve. -/
theorem stepsMeet_of_invariant {ok ok' : σ → α → Prop} (h : ∀ s a, Inv s → ok s a → ok' s a)
    (hstep : ∀ s a t, Inv s → ok s a → step s a = some t → Inv t) :
    ∀ (as : List α) (s : σ), Inv s → StepsMeet step ok s as → StepsMeet step ok' s as
  | [], _, _, _ => trivial
  | a :: as, s, hs, hm =>
    ⟨h s a hs hm.1, fun t ht =>
      stepsMeet_of_invariant h hstep as t (hstep s a t hs hm.1 ht) (hm.2 t ht)⟩

theorem stepsMeet_mono {ok ok' : σ → α → Prop} (h : ∀ s a, ok s a → ok' s a) (as : List α) (s : σ)
    (hm : StepsMeet step ok s as) : StepsMeet step ok' s as :=
  have hweaker : ∀ s a, True → ok s a → ok' s a := fun s a _ => h s a
  stepsMeet_of_invariant hweaker (fun _ _ _ _ _ _ => trivial) as s trivial hm

/-- **Conditional invariant rule**: the preservation is only needed for the steps that meet
    `ok`, for the runs all of whose steps do. -/
theorem run_invariant_of_meet (hstep : ∀ s a t, Inv s → ok s a → step s a = some t → Inv t) :
    ∀ (as : List α) (s t : σ), Inv s → StepsMeet step ok s as → run step s as = some t → Inv t
  | [], s, t, hs, _, h => by
    simp only [run_nil, some.injEq] at h
    exact h ▸ hs
  | a :: as, s, t, hs, hok, h => by
    obtain ⟨m, hm, h⟩ := run_cons.mp h
    exact run_invariant_of_meet hstep as m t (hstep s a m hs hok.1 hm) (hok.2 m hm) h

/-- The property holds in the state before every step of the run of `as` and in the last one. -/
def Throughout (step : σ → α → Option σ) (good : σ → Prop) (s : σ) (as : List α) : Prop :=
  ∀ bs, bs <+: as → ∀ t, run step s bs = some t → good t

theorem throughout_cons {good : σ → Prop} {s m : σ} (hm : step s a = some m) :
    Throughout step good s (a :: as) ↔ good s ∧ Throughout step good m as := by
  constructor
  · refine fun h => ⟨h [] nil_prefix s rfl, fun bs hbs t ht => ?_⟩
    exact h (a :: bs) ((prefix_cons_inj a).mpr hbs) t (run_cons.mpr ⟨m, hm, ht⟩)
  · rintro ⟨hs, htail⟩ bs hbs t ht
    cases bs with
    | nil =>
      obtain rfl : s = t := some.inj ht
      exact hs
    | cons b bs =>
      obtain ⟨hb, hbs'⟩ := cons_prefix_cons.mp hbs
      subst hb
      obtain ⟨m', hm', ht⟩ := run_cons.mp ht
      obtain rfl : m = m' := some.inj (hm.symm.trans hm')
      exact htail bs hbs' t ht

theorem stepsMeet_initial {bs : List α} :
    ∀ {as : List α} {s : σ}, bs <+: as → StepsMeet step ok s as → StepsMeet step ok s bs := by
  induction bs with
  | nil => exact fun _ _ => trivial
  | cons b bs ih =>
    intro as s hbs hm
    obtain ⟨cs, rfl⟩ := hbs
    exact ⟨hm.1, fun t ht => ih (prefix_append bs cs) (hm.2 t ht)⟩

theorem throughout_of_meet {Inv good : σ → Prop} (hgood : ∀ s, Inv s → good s)
    (hstep : ∀ s a t, Inv s → ok s a → step s a = some t → Inv t) (hs : Inv s)
    (hm : StepsMeet step ok s as) : Throughout step good s as :=
  fun bs hbs t ht => hgood t (run_invariant_of_meet hstep bs s t hs (stepsMeet_initial hbs hm) ht)

/-- **Exact condition rule**: the steps that meet `ok` preserve an invariant that gives `good`, and any
other step leads to a state that is not `good`. -/
theorem good_iff_stepsMeet {Inv good : σ → Prop} (hgood : ∀ s, Inv s → good s)
    (hstep : ∀ s a t, Inv s → ok s a → step s a = some t → Inv t)
    (hbad : ∀ s a t, Inv s → ¬ ok s a → step s a = some t → ¬ good t) :
    ∀ (as : List α) (s t : σ), Inv s → run step s as = some t →
      (Throughout step good s as ↔ StepsMeet step ok s as)
  | [], s, t, hs, _ => by
    refine ⟨fun _ => trivial, fun _ bs hbs t ht => ?_⟩
    obtain rfl := prefix_nil.mp hbs
    obtain rfl : s = t := some.inj ht
    exact hgood s hs
  | a :: as, s, t, hs, hrun => by
    obtain ⟨m, hm, hrun⟩ := run_cons.mp hrun
    rw [throughout_cons hm]
    constructor
    · rintro ⟨-, htail⟩
      have hok : ok s a := Classical.byContradiction fun hno =>
        hbad s a m hs hno hm (htail [] nil_prefix m rfl)
      refine ⟨hok, fun m' hm' => ?_⟩
      obtain rfl : m = m' := some.inj (hm.symm.trans hm')
      exact (good_iff_stepsMeet hgood hstep hbad as m t (hstep s a m hs hok hm) hrun).mp htail
    · rintro ⟨hok, htail⟩
      exact ⟨hgood s hs,
        (good_iff_stepsMeet hgood hstep hbad as m t (hstep s a m hs hok hm) hrun).mpr (htail m hm)⟩

/-- **Doom rule**: a step that does not meet `ok` leads to a state out of which no step leads back. -/
theorem meet_or_bad {Inv bad : σ → Prop}
    (hstep : ∀ s a t, Inv s → ok s a → step s a = some t → Inv t)
    (hbad : ∀ s a t, Inv s → ¬ ok s a → step s a = some t → bad t)
    (hkeep : ∀ s a t, bad s → step s a = some t → bad t) :
    ∀ (as : List α) (s t : σ), Inv s → run step s as = some t → StepsMeet step ok s as ∨ bad t
  | [], _, _, _, _ => .inl trivial
  | a :: as, s, t, hs, hrun => by
    obtain ⟨m, hm, hrun⟩ := run_cons.mp hrun
    by_cases hok : ok s a
    · refine (meet_or_bad hstep hbad hkeep as m t (hstep s a m hs hok hm) hrun).imp_left fun htail => ?_
      refine ⟨hok, fun m' hm' => ?_⟩
      obtain rfl : m = m' := some.inj (hm.symm.trans hm')
      exact htail
    · exact .inr (run_invariant hkeep as m t (hbad s a m hs hok hm) hrun)

theorem exists_run (hstep : ∀ s a, ∃ t, step s a = some t) : ∀ (as : List α) (s : σ), ∃ t, run step s as = some t
  | [], s => ⟨s, rfl⟩
  | a :: as, s => by
    obtain ⟨m, hm⟩ := hstep s a
    obtain ⟨t, ht⟩ := exists_run hstep as m
    exact ⟨t, run_cons.mpr ⟨m, hm, ht⟩⟩

/-- **Termination rule**: runs are not longer than a number that every step makes smaller. -/
theorem run_length_le {μ : σ → Nat}
    (hstep : ∀ s a t, Inv s → step s a = some t → Inv t ∧ μ t < μ s) :
    ∀ (as : List α) (s t : σ), Inv s → run step s as = some t → as.length + μ t ≤ μ s
  | [], s, t, _, h => by
    simp only [run_nil, some.injEq] at h
    subst h
    exact Nat.le_of_eq (Nat.zero_add _)
  | a :: as, s, t, hs, h => by
    obtain ⟨m, hm, h⟩ := run_cons.mp h
    obtain ⟨hinv, hlt⟩ := hstep s a m hs hm
    have := run_length_le hstep as m t hinv h
    rw [length_cons]
    omega

end RtemsLibbsd.Transition
