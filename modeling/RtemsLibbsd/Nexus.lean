import RtemsLibbsd.Transition
import RtemsLibbsd.Chain
import Mathlib.Data.List.Perm.Basic
import Mathlib.Data.List.Perm.Subperm
import Mathlib.Logic.Function.Basic

/-!
# Interrupt handlers of the nexus bus

`rtemsbsd/rtems/rtems-kernel-nexus.c`: a driver installs its interrupt handler with
`nexus_setup_intr` and removes it with `nexus_teardown_intr`.  The handler runs on the interrupt
server of RTEMS, which has a collection of handlers with an argument for each interrupt vector.  A
handler without a filter is installed as it is; for one with a filter the server calls
`nexus_intr_with_filter` with the `nexus_intr` object of the setup as its argument.

The memory a `malloc` returns and whether the interrupt server accepts a handler are choices of the
environment.  Calls follow the bus interface: a teardown is made with the resource and the cookie of
a setup that was successful and was not undone yet.

* `setupIntr`, `teardownIntr` — the two methods; `setupPair` and `teardownPair` are the handler and
  the argument each of them gives to the interrupt server.
* `Setup` — the ledger of the setups in effect.
* `Undone` — what a call has to do: a teardown removes what its setup installed, and no entry of the
  interrupt server refers to an object that was freed.
* `PairMatches` — the teardown finds the handler of its setup; `undone_iff` is the result about runs.
* `Accounted` — the invariant: the interrupt server has the handlers of the setups in effect.
-/

namespace RtemsLibbsd.Nexus

universe u v

open List Function Transition

variable {F : Type u} {I : Type v}

/-- `struct nexus_intr`.  Pointers are numbers; `none` is `NULL`. -/
structure NexusIntr (F : Type u) (I : Type v) where
  filt : Option F
  intr : Option I
  arg : Nat

/-- A handler of the interrupt server: the function of a driver, or `nexus_intr_with_filter`. -/
inductive Handler (I : Type v) where
  | driver (intr : Option I)
  | nexusIntrWithFilter
  deriving DecidableEq

inductive Err where
  | zero | einval | enomem

/-- The arguments of a setup in effect and the cookie it returned. -/
structure Setup (F : Type u) (I : Type v) where
  cookie : Nat
  vector : Nat
  filt : Option F
  intr : Option I
  arg : Nat

/-- `intrs` are the `nexus_intr` objects that are allocated, `installed` the handlers of the
    interrupt server for each vector.  `setups` is the ledger. -/
structure State (F : Type u) (I : Type v) where
  intrs : Nat → Option (NexusIntr F I)
  installed : Nat → List (Handler I × Nat)
  setups : List (Setup F I)

def boot : State F I := ⟨fun _ => none, fun _ => [], []⟩

/-- The handler and the argument `nexus_setup_intr` installs. -/
def setupPair (filt : Option F) (intr : Option I) (arg ni : Nat) : Handler I × Nat :=
  match filt with
  | none => (.driver intr, arg)
  | some _ => (.nexusIntrWithFilter, ni)

/-- The handler and the argument `nexus_teardown_intr` removes. -/
def teardownPair (ni : NexusIntr F I) : Handler I × Nat :=
  match ni.filt with
  | none => (.driver ni.intr, ni.arg)
  | some _ => (.nexusIntrWithFilter, ni.arg)

def Setup.pair (s : Setup F I) : Handler I × Nat := setupPair s.filt s.intr s.arg s.cookie

/-- `rtems_interrupt_server_handler_install`: a handler has to be there, and `accepted` says whether
    the interrupt server takes it (it may lack memory, refuse a handler it already has, and so on). -/
def handlerInstall (entries : List (Handler I × Nat)) (p : Handler I × Nat) (accepted : Bool) :
    Option (List (Handler I × Nat)) :=
  match p.1, accepted with
  | .driver none, _ => none
  | _, false => none
  | _, true => some (p :: entries)

/-- `rtems_interrupt_server_handler_remove`: not successful if there is no such entry. -/
def handlerRemove [DecidableEq I] (entries : List (Handler I × Nat)) (p : Handler I × Nat) :
    Option (List (Handler I × Nat)) :=
  if p ∈ entries then some (entries.erase p) else none

/-- `nexus_setup_intr` for a resource that starts at `vector`; `mem` is what `malloc` returns. -/
def setupIntr (k : State F I) (vector : Nat) (filt : Option F) (intr : Option I) (arg : Nat)
    (mem : Option Nat) (accepted : Bool) : Err × State F I :=
  match mem with
  | none => (.enomem, k)
  | some ni =>
    match handlerInstall (k.installed vector) (setupPair filt intr arg ni) accepted with
    -- the object is freed again
    | none => (.einval, k)
    | some entries =>
      (.zero,
        { intrs := update k.intrs ni (some ⟨filt, intr, arg⟩)
          installed := update k.installed vector entries
          setups := ⟨ni, vector, filt, intr, arg⟩ :: k.setups })

/-- `nexus_teardown_intr`; reading the object of a wrong cookie is undefined. -/
def teardownIntr [DecidableEq I] (k : State F I) (vector cookie : Nat) : Option (Err × State F I) :=
  (k.intrs cookie).map fun ni =>
    match handlerRemove (k.installed vector) (teardownPair ni) with
    | none => (.einval, k)
    | some entries =>
      (.zero,
        { intrs := update k.intrs cookie none
          installed := update k.installed vector entries
          setups := Chain.extract Setup.cookie k.setups cookie })

inductive Call (F : Type u) (I : Type v) where
  | setup (vector : Nat) (filt : Option F) (intr : Option I) (arg : Nat) (mem : Option Nat) (accepted : Bool)
  | teardown (vector cookie : Nat)

/-- One call.  New memory is not in use, and a teardown is one of a setup in effect. -/
def step [DecidableEq I] (k : State F I) : Call F I → Option (State F I)
  | .setup vector filt intr arg mem accepted =>
    if mem.all fun ni => (k.intrs ni).isNone then
      some (setupIntr k vector filt intr arg mem accepted).2
    else none
  | .teardown vector cookie =>
    if k.setups.any fun s => s.cookie = cookie ∧ s.vector = vector then
      (teardownIntr k vector cookie).map Prod.snd
    else none

inductive DriverCall (F : Type u) (I : Type v) where
  | filt (f : F) (arg : Nat)
  | intr (i : Option I) (arg : Nat)

/-- What the interrupt server does for one of its entries.  `schedules` says whether a filter returns
    `FILTER_SCHEDULE_THREAD`; reading an object that is not allocated is undefined. -/
def serve (k : State F I) (schedules : F → Nat → Bool) : Handler I × Nat → Option (List (DriverCall F I))
  | (.driver intr, arg) => some [.intr intr arg]
  | (.nexusIntrWithFilter, arg) =>
    (k.intrs arg).bind fun ni => ni.filt.map fun f =>
      .filt f ni.arg :: if schedules f ni.arg then [.intr ni.intr ni.arg] else []

/-- No entry of the interrupt server refers to an object that was freed. -/
def NoDangling (k : State F I) : Prop :=
  ∀ v, ∀ p ∈ k.installed v, p.1 = .nexusIntrWithFilter → (k.intrs p.2).isSome

/-- **What a call has to do**: no entry refers to an object that was freed, and the teardown of a setup
    in effect is successful and removes what the setup installed and nothing else. -/
def Undone [DecidableEq I] (k : State F I) (c : Call F I) : Prop :=
  (∀ t ∈ step k c, NoDangling t) ∧
    ∀ vector cookie, c = .teardown vector cookie →
      ∀ s ∈ k.setups, s.cookie = cookie → s.vector = vector →
        s.pair ∈ k.installed vector ∧
        ∃ t, teardownIntr k vector cookie = some (.zero, t) ∧
          t.installed = update k.installed vector ((k.installed vector).erase s.pair)

/-- The setup to undo was made without a filter, or its argument is its own `nexus_intr` object. -/
def PairMatches (k : State F I) (c : Call F I) : Prop :=
  ∀ vector cookie, c = .teardown vector cookie →
    ∀ s ∈ k.setups, s.cookie = cookie → s.vector = vector → s.filt = none ∨ s.arg = s.cookie

/-! ## The invariant -/

/-- The objects of the setups in effect are allocated, and the interrupt server has their handlers. -/
structure Accounted (k : State F I) : Prop where
  obj : ∀ s ∈ k.setups, k.intrs s.cookie = some ⟨s.filt, s.intr, s.arg⟩
  distinct : Chain.Distinct Setup.cookie k.setups
  entries : ∀ v, (k.installed v).Perm ((k.setups.filter fun s => s.vector = v).map Setup.pair)

theorem accounted_boot : Accounted (boot : State F I) where
  obj := fun _ hs => absurd hs not_mem_nil
  distinct := nodup_nil
  entries := fun _ => List.Perm.nil

theorem pair_withFilter {s : Setup F I} (h : s.pair.1 = .nexusIntrWithFilter) :
    s.pair = (.nexusIntrWithFilter, s.cookie) := by
  unfold Setup.pair setupPair at h ⊢
  cases hf : s.filt with
  | none =>
    rw [hf] at h
    cases h
  | some f => rfl

theorem Accounted.setup_of_entry {k : State F I} (h : Accounted k) {v : Nat} {p : Handler I × Nat}
    (hp : p ∈ k.installed v) : ∃ s ∈ k.setups, s.vector = v ∧ s.pair = p := by
  obtain ⟨s, hs, rfl⟩ := mem_map.mp ((h.entries v).mem_iff.mp hp)
  obtain ⟨hs, hv⟩ := mem_filter.mp hs
  exact ⟨s, hs, of_decide_eq_true hv, rfl⟩

theorem Accounted.entry_of_setup {k : State F I} (h : Accounted k) {s : Setup F I} (hs : s ∈ k.setups) :
    s.pair ∈ k.installed s.vector := by
  rw [(h.entries s.vector).mem_iff]
  exact mem_map_of_mem (mem_filter.mpr ⟨hs, decide_eq_true rfl⟩)

theorem Accounted.noDangling {k : State F I} (h : Accounted k) : NoDangling k := by
  intro v p hp hf
  obtain ⟨s, hs, -, rfl⟩ := h.setup_of_entry hp
  rw [pair_withFilter hf, h.obj s hs]
  rfl

theorem Accounted.perm_extract {k : State F I} (h : Accounted k) {s : Setup F I} (hs : s ∈ k.setups) :
    k.setups.Perm (s :: Chain.extract Setup.cookie k.setups s.cookie) := by
  obtain ⟨l₁, l₂, heq⟩ := append_of_mem hs
  have hd := h.distinct
  rw [heq] at hd ⊢
  have hsplit := hd.split
  rw [Chain.extract_split (by simpa using hsplit)]
  exact perm_middle

/-! ## Steps -/

theorem handlerInstall_eq {entries e' : List (Handler I × Nat)} {p : Handler I × Nat} {accepted : Bool}
    (h : handlerInstall entries p accepted = some e') : e' = p :: entries := by
  unfold handlerInstall at h
  split at h
  · cases h
  · cases h
  · exact (Option.some.inj h).symm

theorem setupIntr_cases (k : State F I) (vector : Nat) (filt : Option F) (intr : Option I) (arg : Nat)
    (mem : Option Nat) (accepted : Bool) :
    (setupIntr k vector filt intr arg mem accepted).2 = k ∨
    ∃ ni, mem = some ni ∧ (setupIntr k vector filt intr arg mem accepted).2 =
      { intrs := update k.intrs ni (some ⟨filt, intr, arg⟩)
        installed := update k.installed vector (setupPair filt intr arg ni :: k.installed vector)
        setups := ⟨ni, vector, filt, intr, arg⟩ :: k.setups } := by
  unfold setupIntr
  split
  · exact .inl rfl
  · rename_i ni
    split
    · exact .inl rfl
    · rename_i entries he
      rw [handlerInstall_eq he]
      exact .inr ⟨ni, rfl, rfl⟩

theorem Accounted.setup {k : State F I} (h : Accounted k) (s : Setup F I)
    (hfresh : k.intrs s.cookie = none) :
    Accounted
      { intrs := update k.intrs s.cookie (some ⟨s.filt, s.intr, s.arg⟩)
        installed := update k.installed s.vector (s.pair :: k.installed s.vector)
        setups := s :: k.setups } := by
  have hne : ∀ s' ∈ k.setups, s'.cookie ≠ s.cookie := by
    intro s' hs' heq
    rw [← heq, h.obj s' hs'] at hfresh
    cases hfresh
  constructor
  · intro s' hs'
    rcases mem_cons.mp hs' with rfl | hs'
    · simp
    · simpa [update_apply, hne s' hs'] using h.obj s' hs'
  · grind [Chain.Distinct, h.distinct]
  · intro v
    by_cases hv : v = s.vector
    · subst hv
      simpa [update_apply] using h.entries s.vector
    · simpa [update_apply, hv, Ne.symm hv] using h.entries v

/-- A teardown looks for the entry of its setup exactly if the setup had no filter, or its own
    object as its argument. -/
theorem teardownPair_eq_iff (s : Setup F I) :
    teardownPair ⟨s.filt, s.intr, s.arg⟩ = s.pair ↔ s.filt = none ∨ s.arg = s.cookie := by
  unfold teardownPair Setup.pair setupPair
  cases hf : s.filt with
  | none => simp
  | some f => simp

variable [DecidableEq I]

theorem Accounted.teardown {k : State F I} (h : Accounted k) {s : Setup F I} (hs : s ∈ k.setups) :
    Accounted
      { intrs := update k.intrs s.cookie none
        installed := update k.installed s.vector ((k.installed s.vector).erase s.pair)
        setups := Chain.extract Setup.cookie k.setups s.cookie } := by
  have hperm := h.perm_extract hs
  constructor
  · intro s' hs'
    obtain ⟨hs', hne⟩ := mem_filter.mp hs'
    have hne := of_decide_eq_true hne
    simpa [update_apply, hne] using h.obj s' hs'
  · have hmap := hperm.map Setup.cookie
    exact (nodup_cons.mp (hmap.nodup_iff.mp h.distinct)).2
  · intro v
    have hent := (h.entries v).trans ((hperm.filter fun s => s.vector = v).map Setup.pair)
    grind

theorem erase_ne_erase {l : List (Handler I × Nat)} {p q : Handler I × Nat} (hp : p ∈ l)
    (hne : q ≠ p) : l.erase q ≠ l.erase p := by
  intro heq
  have hcount := congrArg (List.count p) heq
  grind

theorem teardownIntr_eq {k : State F I} (h : Accounted k) {s : Setup F I} (hs : s ∈ k.setups) :
    teardownIntr k s.vector s.cookie = some
      (if teardownPair ⟨s.filt, s.intr, s.arg⟩ ∈ k.installed s.vector then
        (.zero,
          { intrs := update k.intrs s.cookie none
            installed := update k.installed s.vector
              ((k.installed s.vector).erase (teardownPair ⟨s.filt, s.intr, s.arg⟩))
            setups := Chain.extract Setup.cookie k.setups s.cookie })
       else (.einval, k)) := by
  unfold teardownIntr handlerRemove
  rw [h.obj s hs]
  grind

theorem teardownIntr_of_match {k : State F I} (h : Accounted k) {s : Setup F I} (hs : s ∈ k.setups)
    (hm : s.filt = none ∨ s.arg = s.cookie) :
    teardownIntr k s.vector s.cookie = some
      (.zero,
        { intrs := update k.intrs s.cookie none
          installed := update k.installed s.vector ((k.installed s.vector).erase s.pair)
          setups := Chain.extract Setup.cookie k.setups s.cookie }) := by
  rw [teardownIntr_eq h hs, (teardownPair_eq_iff s).mpr hm, if_pos (h.entry_of_setup hs)]

theorem accounted_step {k t : State F I} {c : Call F I} (h : Accounted k) (hm : PairMatches k c)
    (ht : step k c = some t) : Accounted t := by
  cases c with
  | setup vector filt intr arg mem accepted =>
    obtain ⟨hfresh, ⟨⟩⟩ := Option.ite_none_right_eq_some.mp ht
    rcases setupIntr_cases k vector filt intr arg mem accepted with heq | ⟨ni, rfl, heq⟩
    · rw [heq]
      exact h
    · rw [heq]
      have hnone : k.intrs ni = none := by simpa using hfresh
      exact h.setup ⟨ni, vector, filt, intr, arg⟩ hnone
  | teardown vector cookie =>
    obtain ⟨hlive, ht⟩ := Option.ite_none_right_eq_some.mp ht
    obtain ⟨s, hs, hsv⟩ := any_eq_true.mp hlive
    obtain ⟨rfl, rfl⟩ := of_decide_eq_true hsv
    rw [teardownIntr_of_match h hs (hm _ _ rfl s hs rfl rfl)] at ht
    cases ht
    exact h.teardown hs

theorem undone_call_iff {k : State F I} {c : Call F I} (h : Accounted k) : Undone k c ↔ PairMatches k c := by
  constructor
  · rintro ⟨-, hu⟩ vector cookie rfl s hs rfl rfl
    obtain ⟨hmem, t, ht, hinst⟩ := hu _ _ rfl s hs rfl rfl
    rw [← teardownPair_eq_iff]
    by_contra hne
    rw [teardownIntr_eq h hs] at ht
    split at ht
    · cases ht
      have hv := congrFun hinst s.vector
      simp only [update_self] at hv
      exact erase_ne_erase hmem hne hv
    · cases ht
  · intro hm
    refine ⟨fun t ht => (accounted_step h hm ht).noDangling, ?_⟩
    rintro vector cookie rfl s hs rfl rfl
    exact ⟨h.entry_of_setup hs, _, teardownIntr_of_match h hs (hm _ _ rfl s hs rfl rfl), rfl⟩

/-! ## Runs -/

/-- **The calls of a run do what they have to do exactly if no setup with a filter is undone** (but for
    one whose argument is its own object). -/
theorem undone_iff (cs : List (Call F I)) :
    StepsMeet step Undone (boot : State F I) cs ↔ StepsMeet step PairMatches (boot : State F I) cs := by
  have hstep : ∀ (k : State F I) (c : Call F I) (t : State F I), Accounted k → Undone k c →
      step k c = some t → Accounted t :=
    fun k c t h hu ht => accounted_step h ((undone_call_iff h).mp hu) ht
  exact stepsMeet_congr_of_invariant (fun k c => undone_call_iff) hstep cs boot accounted_boot

/-- The handler of a driver with a filter cannot be removed: the interrupt server is asked for
    the argument of the driver, and has the object of the setup. -/
theorem filterTeardown_fails :
    ¬ StepsMeet step Undone (boot : State Unit Unit)
      [.setup 5 (some ()) (some ()) 100 (some 7) true, .teardown 5 7] := by
  rintro ⟨-, hu⟩
  obtain ⟨⟨-, hu⟩, -⟩ := hu _ rfl
  obtain ⟨-, t, ht, -⟩ := hu 5 7 rfl ⟨7, 5, some (), some (), 100⟩ mem_cons_self rfl rfl
  cases ht

/-- While only setups without a filter are undone, the interrupt server calls the functions of the
    driver for every setup in effect: a filter first, and then the handler if the filter asks for it. -/
theorem serve_of_run {cs : List (Call F I)} {k : State F I} (hm : StepsMeet step PairMatches boot cs)
    (hr : run step boot cs = some k) (schedules : F → Nat → Bool) {v : Nat} {p : Handler I × Nat}
    (hp : p ∈ k.installed v) :
    ∃ s ∈ k.setups, s.vector = v ∧ serve k schedules p =
      some (match s.filt with
        | none => [.intr s.intr s.arg]
        | some f => .filt f s.arg :: if schedules f s.arg then [.intr s.intr s.arg] else []) := by
  have h := run_invariant_of_meet (fun _ _ _ => accounted_step) cs boot k accounted_boot hm hr
  obtain ⟨s, hs, hv, rfl⟩ := h.setup_of_entry hp
  grind [Setup.pair, setupPair, serve, h.obj]

/-- A handler without a filter and one with a filter are installed, and the first one is removed. -/
def handlersRun : List (Call Unit Unit) :=
  [.setup 3 none (some ()) 50 (some 4) true, .setup 5 (some ()) (some ()) 100 (some 7) true, .teardown 3 4]

theorem serve_of_run_filter : ∃ k, run step boot handlersRun = some k ∧ k.installed 3 = [] ∧
    serve k (fun _ _ => true) (.nexusIntrWithFilter, 7) = some [.filt () 100, .intr (some ()) 100] := by
  have hm : StepsMeet step PairMatches boot handlersRun := by
    refine ⟨fun _ _ h => (by cases h), fun _ h₁ => ?_⟩
    cases h₁
    refine ⟨fun _ _ h => (by cases h), fun _ h₂ => ?_⟩
    cases h₂
    refine ⟨?_, fun _ _ => trivial⟩
    rintro _ _ ⟨⟩ s hs hcookie -
    rcases mem_pair.mp hs with rfl | rfl
    · cases hcookie
    · exact .inl rfl
  refine ⟨_, rfl, rfl, ?_⟩
  obtain ⟨s, hs, -, hserve⟩ := @serve_of_run Unit Unit _ handlersRun _ hm rfl (fun _ _ => true) 5 _ mem_cons_self
  obtain rfl := mem_singleton.mp hs
  exact hserve

end RtemsLibbsd.Nexus
