import RtemsLibbsd.Transition
import Mathlib.Data.List.Basic
import Mathlib.Data.List.Count
import Mathlib.Logic.Function.Basic

/-!
# The start of kernel threads

`rtemsbsd/rtems/rtems-kernel-thread.c`: `kthread_add`, `kproc_create` and `kproc_kthread_add` all call
`rtems_bsd_thread_start`.  It creates a task and starts it if `rtems_bsd_thread_ready_to_start` is
set; otherwise it stores the entry and the argument in the task and appends it to the delay chain.
`rtems_bsd_threads_init_late` starts the tasks of the delay chain until it is empty, and sets the flag.

Calls of `rtems_bsd_thread_start` can be made by any thread at any time, so the steps of any number of
calls and of `rtems_bsd_threads_init_late` are interleaved in any order.  The operations on the chain are
taken as atomic.  Tasks are numbered in the order of their creation.

* `step` — the steps of the calls and of `rtems_bsd_threads_init_late`.
* `Started` — after `rtems_bsd_threads_init_late` every thread was started once, with its entry and its
  argument, and the delay chain is empty.
* `InTime` — a deferred thread is put on the chain before the chain is found empty; `started_iff` is the
  result about runs.
* `Counted` — the invariant: a thread whose creation returned was started, or is on the chain, or is just
  being started.
-/

namespace RtemsLibbsd.ThreadStart

universe u v

open Option List Transition

variable {F : Type u} {A : Type v}

/-- A call of `rtems_bsd_thread_start` has created the task, has found the flag set or not, or has
    returned. -/
inductive Phase where
  | created | starting | deferring | returned
  deriving DecidableEq

/-- A task, with the arguments of the call that created it; `entry` is its `Start.Entry`. -/
structure Thread (F : Type u) (A : Type v) where
  func : F
  arg : A
  phase : Phase
  entry : Option (F × A)

/-- `rtems_bsd_threads_init_late`: it got a task from the chain, found the chain empty, or has set the
    flag. -/
inductive InitLate where
  | idle | draining | starting (n : Nat) | drained | done
  deriving DecidableEq

/-- The tasks, the delay chain, the flag, and the calls of `rtems_task_start` made so far. -/
structure State (F : Type u) (A : Type v) where
  threads : Nat → Option (Thread F A)
  next : Nat
  chain : List Nat
  ready : Bool
  init : InitLate
  starts : List (Nat × Option (F × A))

def boot : State F A := ⟨fun _ => none, 0, [], false, .idle, []⟩

inductive Action (F : Type u) (A : Type v) where
  | create (func : F) (arg : A) (created : Bool)
  | test (n : Nat)
  | finish (n : Nat)
  | initBegin | initGet | initStart | initReady

def State.put (k : State F A) (n : Nat) (t : Thread F A) : State F A :=
  { k with threads := Function.update k.threads n (some t) }

/-- `rtems_bsd_thread_start` until the task is created, or `ENOMEM`. -/
def threadCreate (k : State F A) (func : F) (arg : A) (created : Bool) : State F A :=
  if created then { k.put k.next ⟨func, arg, .created, none⟩ with next := k.next + 1 } else k

def threadTest (k : State F A) (n : Nat) (t : Thread F A) : State F A :=
  k.put n { t with phase := if k.ready then .starting else .deferring }

def threadFinish (k : State F A) (n : Nat) (t : Thread F A) : Option (State F A) :=
  match t.phase with
  | .starting =>
    some { k.put n { t with phase := .returned } with starts := k.starts ++ [(n, some (t.func, t.arg))] }
  | .deferring =>
    some { k.put n { t with phase := .returned, entry := some (t.func, t.arg) } with
      chain := k.chain ++ [n] }
  | _ => none

/-- `_Chain_Get_unprotected`. -/
def initGet (k : State F A) : State F A :=
  match k.chain with
  | [] => { k with init := .drained }
  | n :: rest => { k with init := .starting n, chain := rest }

/-- One step.  The task number `n` of a step is the one of a call that has got that far. -/
def step (k : State F A) : Action F A → Option (State F A)
  | .create func arg created => some (threadCreate k func arg created)
  | .test n => (k.threads n).bind fun t => if t.phase = .created then some (threadTest k n t) else none
  | .finish n => (k.threads n).bind fun t => threadFinish k n t
  | .initBegin => if k.init = .idle then some { k with init := .draining } else none
  | .initGet => if k.init = .draining then some (initGet k) else none
  | .initStart =>
    match k.init with
    | .starting n =>
      some { k with
        init := .draining
        starts := k.starts ++ [(n, (k.threads n).bind Thread.entry)] }
    | _ => none
  | .initReady => if k.init = .drained then some { k with init := .done, ready := true } else none

/-- **No thread is lost**: when `rtems_bsd_threads_init_late` has finished, every thread whose creation
    returned was started exactly once with its entry and argument, and the delay chain is empty. -/
def Started (k : State F A) : Prop :=
  k.init = .done →
    k.chain = [] ∧
    ∀ n t, k.threads n = some t → t.phase = .returned →
      k.starts.filter (fun p => p.1 = n) = [(n, some (t.func, t.arg))]

/-- `rtems_bsd_threads_init_late` has found the chain empty. -/
def State.Emptied (k : State F A) : Prop := k.init = .drained ∨ k.init = .done

/-- A thread that found the flag clear is put on the delay chain before the chain is found empty. -/
def InTime (k : State F A) (a : Action F A) : Prop :=
  ∀ n t, a = .finish n → k.threads n = some t → t.phase = .deferring → ¬ k.Emptied

/-! ## What a step does -/

/-- The cases of a step; the two ends of a call and the two results of `_Chain_Get_unprotected` are cases
    of their own. -/
inductive Moves (k : State F A) : Action F A → State F A → Prop
  | refused (func : F) (arg : A) : Moves k (.create func arg false) k
  | created (func : F) (arg : A) :
    Moves k (.create func arg true) { k.put k.next ⟨func, arg, .created, none⟩ with next := k.next + 1 }
  | tested {n : Nat} {t : Thread F A} {p : Phase} (ht : k.threads n = some t) (hp : t.phase = .created)
    (hp' : p ≠ .returned) : Moves k (.test n) (k.put n { t with phase := p })
  | started {n : Nat} {t : Thread F A} (ht : k.threads n = some t) (hp : t.phase = .starting) :
    Moves k (.finish n)
      { k.put n { t with phase := .returned } with starts := k.starts ++ [(n, some (t.func, t.arg))] }
  | deferred {n : Nat} {t : Thread F A} (ht : k.threads n = some t) (hp : t.phase = .deferring) :
    Moves k (.finish n)
      { k.put n { t with phase := .returned, entry := some (t.func, t.arg) } with chain := k.chain ++ [n] }
  | initBegin (hi : k.init = .idle) : Moves k .initBegin { k with init := .draining }
  | emptied (hi : k.init = .draining) (hc : k.chain = []) : Moves k .initGet { k with init := .drained }
  | got {n : Nat} {rest : List Nat} (hi : k.init = .draining) (hc : k.chain = n :: rest) :
    Moves k .initGet { k with init := .starting n, chain := rest }
  | initStart {n : Nat} (hi : k.init = .starting n) :
    Moves k .initStart
      { k with init := .draining, starts := k.starts ++ [(n, (k.threads n).bind Thread.entry)] }
  | initReady (hi : k.init = .drained) : Moves k .initReady { k with init := .done, ready := true }

variable {k k' : State F A} {a : Action F A}

theorem moves_of_step (h : step k a = some k') : Moves k a k' := by
  cases a with
  | create func arg created =>
    cases h
    cases created with
    | false => exact .refused func arg
    | true => exact .created func arg
  | test n =>
    obtain ⟨t, ht, h⟩ := bind_eq_some_iff.mp h
    obtain ⟨hp, ⟨⟩⟩ := ite_none_right_eq_some.mp h
    refine .tested ht hp ?_
    split <;> nofun
  | finish n =>
    obtain ⟨t, ht, h⟩ := bind_eq_some_iff.mp h
    unfold threadFinish at h
    split at h <;> rename_i hp
    · cases h
      exact .started ht hp
    · cases h
      exact .deferred ht hp
    · cases h
  | initBegin =>
    obtain ⟨hi, ⟨⟩⟩ := ite_none_right_eq_some.mp h
    exact .initBegin hi
  | initGet =>
    obtain ⟨hi, ⟨⟩⟩ := ite_none_right_eq_some.mp h
    unfold initGet
    split <;> rename_i hc
    · exact .emptied hi hc
    · exact .got hi hc
  | initStart =>
    simp only [step] at h
    split at h <;> rename_i hi
    · cases h
      exact .initStart hi
    · cases h
  | initReady =>
    obtain ⟨hi, ⟨⟩⟩ := ite_none_right_eq_some.mp h
    exact .initReady hi

/-! ## The invariant -/

/-- How often a thread was started, is on the chain, and is just being started. -/
def State.placed (k : State F A) (n : Nat) : Nat :=
  k.starts.countP (fun p => p.1 = n) + k.chain.count n + if k.init = .starting n then 1 else 0

def State.returned (k : State F A) (n : Nat) : Bool := (k.threads n).any fun t => t.phase = .returned

/-- A thread whose creation returned is in one place, with its own entry and argument. -/
structure Counted (k : State F A) : Prop where
  fresh : ∀ n, k.next ≤ n → k.threads n = none
  placed : ∀ n, k.placed n = (k.returned n).toNat
  own : ∀ p ∈ k.starts, ∃ t, k.threads p.1 = some t ∧ p.2 = some (t.func, t.arg)
  stored : ∀ n t, k.threads n = some t → n ∈ k.chain ∨ k.init = .starting n →
    t.entry = some (t.func, t.arg)

theorem counted_boot : Counted (boot : State F A) where
  fresh := fun _ _ => rfl
  placed := fun _ => rfl
  own := fun _ h => absurd h not_mem_nil
  stored := fun _ _ h => nomatch h

theorem threads_put {n m : Nat} {t t' : Thread F A} :
    (k.put n t).threads m = some t' ↔ (m = n ∧ t' = t) ∨ (m ≠ n ∧ k.threads m = some t') := by
  by_cases h : m = n
  · subst h
    simp [State.put, eq_comm]
  · simp [State.put, h]

variable {t : Thread F A}

theorem returned_put {n m : Nat} :
    (k.put n t).returned m = if m = n then decide (t.phase = .returned) else k.returned m := by
  by_cases h : m = n
  · subst h
    simp [State.returned, State.put]
  · simp [State.returned, State.put, h]

variable {n : Nat}

theorem Counted.not_placed (h : Counted k) (hn : k.returned n = false) :
    n ∉ k.chain ∧ k.init ≠ .starting n ∧ ∀ p ∈ k.starts, p.1 ≠ n := by
  have hzero := h.placed n
  grind [State.placed, Nat.add_eq_zero_iff]

theorem Counted.put (h : Counted k)
    (hn : k.returned n = false) (ht : t.phase ≠ .returned) (hlt : n < k.next) : Counted (k.put n t) := by
  obtain ⟨hchain, hinit, hstarts⟩ := h.not_placed hn
  constructor
  · intro m hm
    have hne : m ≠ n := by
      have : k.next ≤ m := hm
      omega
    simpa [State.put, hne] using h.fresh m hm
  · intro m
    rw [returned_put]
    split <;> rename_i hm
    · subst hm
      rw [decide_eq_false ht, ← hn]
      exact h.placed m
    · exact h.placed m
  · intro p hp
    obtain ⟨t', ht', heq⟩ := h.own p hp
    exact ⟨t', threads_put.mpr (.inr ⟨hstarts p hp, ht'⟩), heq⟩
  · intro m t' ht' hm
    rcases threads_put.mp ht' with ⟨rfl, -⟩ | ⟨-, hold⟩
    · exact absurd hm (not_or.mpr ⟨hchain, hinit⟩)
    · exact h.stored m t' hold hm

theorem Counted.lt_next (h : Counted k) (ht : k.threads n = some t) : n < k.next := by
  by_contra hlt
  rw [h.fresh n (by omega)] at ht
  cases ht

theorem returned_eq_false (ht : k.threads n = some t)
    (hp : t.phase ≠ .returned) : k.returned n = false := by
  simp [State.returned, ht, hp]

theorem Counted.place (h : Counted k) (t' : Thread F A)
    (ht : k.threads n = some t) (hp : t.phase ≠ .returned)
    (hsame : t'.func = t.func ∧ t'.arg = t.arg ∧ t'.phase = .returned)
    (hthreads : k'.threads = (k.put n t').threads) (hnext : k'.next = k.next)
    (hplaced : ∀ m, k'.placed m = k.placed m + if n = m then 1 else 0)
    (hstarts : ∀ p ∈ k'.starts, p ∈ k.starts ∨ p = (n, some (t.func, t.arg)))
    (hstored : ∀ m, m ∈ k'.chain ∨ k'.init = .starting m →
      (m ∈ k.chain ∨ k.init = .starting m) ∨ (m = n ∧ t'.entry = some (t.func, t.arg))) : Counted k' := by
  have hn := returned_eq_false ht hp
  obtain ⟨hchain, hinit, hnot⟩ := h.not_placed hn
  have hlt := h.lt_next ht
  constructor
  · intro m hm
    rw [hnext] at hm
    have hne : m ≠ n := by omega
    rw [hthreads]
    simpa [State.put, hne] using h.fresh m hm
  · intro m
    have hret : k'.returned m = (k.put n t').returned m := by
      unfold State.returned
      rw [hthreads]
    rw [hplaced, h.placed, hret, returned_put]
    by_cases hm : m = n
    · subst hm
      simp [hn, hsame.2.2]
    · simp [hm, Ne.symm hm]
  · intro p hp'
    rw [hthreads]
    rcases hstarts p hp' with hold | rfl
    · obtain ⟨t'', ht'', heq⟩ := h.own p hold
      exact ⟨t'', threads_put.mpr (.inr ⟨hnot p hold, ht''⟩), heq⟩
    · exact ⟨t', threads_put.mpr (.inl ⟨rfl, rfl⟩), by rw [hsame.1, hsame.2.1]⟩
  · intro m t'' ht'' hm
    rw [hthreads] at ht''
    rcases threads_put.mp ht'' with ⟨rfl, rfl⟩ | ⟨hne, hold⟩
    · grind
    · grind [h.stored]

/-- `rtems_bsd_threads_init_late` goes on, and all threads stay where they are. -/
theorem Counted.moved (h : Counted k) (hthreads : k'.threads = k.threads)
    (hnext : k'.next = k.next) (hstarts : k'.starts = k.starts) (hplaced : ∀ n, k'.placed n = k.placed n)
    (hstored : ∀ n, n ∈ k'.chain ∨ k'.init = .starting n → n ∈ k.chain ∨ k.init = .starting n) :
    Counted k' := by
  constructor
  · rw [hthreads, hnext]
    exact h.fresh
  · intro n
    rw [hplaced, h.placed, State.returned, State.returned, hthreads]
  · rw [hstarts, hthreads]
    exact h.own
  · intro n t ht hm
    rw [hthreads] at ht
    exact h.stored n t ht (hstored n hm)

theorem counted_step (h : Counted k) (hs : step k a = some k') :
    Counted k' := by
  cases moves_of_step hs with
  | refused => exact h
  | created func arg =>
    have hnext : Counted { k with next := k.next + 1 } :=
      ⟨fun n hn => h.fresh n (Nat.le_of_succ_le hn), h.placed, h.own, h.stored⟩
    have hn : k.returned k.next = false := by
      unfold State.returned
      rw [h.fresh k.next (Nat.le_refl _)]
      rfl
    exact hnext.put hn nofun (Nat.lt_succ_self _)
  | tested ht hp hp' =>
    exact h.put (returned_eq_false ht (by simp [hp])) hp' (h.lt_next ht)
  | started ht hp =>
    refine h.place _ ht (by simp [hp]) ⟨?_, ?_, ?_⟩ rfl rfl ?_ ?_ fun _ hm => .inl hm
    · rfl
    · rfl
    · rfl
    · intro m
      simp only [State.placed, State.put, countP_append, countP_singleton, decide_eq_true_eq]
      rw [Nat.add_right_comm (k.starts.countP _), Nat.add_right_comm]
      rfl
    · intro p hp
      simpa using hp
  | deferred ht hp =>
    refine h.place _ ht (by simp [hp]) ⟨?_, ?_, ?_⟩ rfl rfl ?_ (fun _ hp => .inl hp) ?_
    · rfl
    · rfl
    · rfl
    · intro m
      simp only [State.placed, State.put, count_append, count_singleton, beq_iff_eq]
      rw [← Nat.add_assoc, Nat.add_right_comm]
      rfl
    · intro m hm
      rcases hm with hm | hm
      · grind
      · exact .inl (.inr hm)
  | initBegin hi =>
    refine h.moved rfl rfl rfl ?_ fun n hm => hm.imp_right nofun
    intro n
    simp [State.placed, hi]
  | emptied hi hc =>
    refine h.moved rfl rfl rfl ?_ fun n hm => hm.imp_right nofun
    intro n
    simp [State.placed, hi]
  | got hi hc =>
    refine h.moved rfl rfl rfl ?_ ?_
    · intro m
      simp only [State.placed, hi, hc, count_cons, beq_iff_eq, InitLate.starting.injEq, reduceCtorEq,
        if_false]
      omega
    · intro m hm
      grind
  | initStart hi =>
    rename_i n
    -- the thread is one whose entry was stored
    have hret : k.returned n = true := by
      by_contra hret
      exact (h.not_placed (by simpa using hret)).2.1 hi
    obtain ⟨t, ht, -⟩ := (any_eq_true _ _).mp hret
    have hentry := h.stored n t ht (.inr hi)
    refine ⟨h.fresh, ?_, ?_, ?_⟩
    · intro m
      have := h.placed m
      simp only [State.placed, hi, InitLate.starting.injEq, State.returned] at this
      simp only [State.placed, countP_append, countP_singleton, decide_eq_true_eq, reduceCtorEq,
        if_false, State.returned]
      omega
    · intro p hp
      rcases mem_append.mp hp with hp | hp
      · exact h.own p hp
      · obtain rfl := mem_singleton.mp hp
        exact ⟨t, ht, by simp [ht, hentry]⟩
    · intro m t' ht' hm
      exact h.stored m t' ht' (hm.imp_right nofun)
  | initReady hi =>
    refine h.moved rfl rfl rfl ?_ fun n hm => hm.imp_right nofun
    intro n
    simp [State.placed, hi]

/-! ## Runs -/

theorem Counted.started_of_done (h : Counted k) (hi : k.init = .done) (hc : k.chain = [])
    (ht : k.threads n = some t) (hp : t.phase = .returned) :
    k.starts.filter (fun p => p.1 = n) = [(n, some (t.func, t.arg))] := by
  have hcount := h.placed n
  simp only [State.placed, State.returned, hi, hc, ht, count_nil, any_some, hp] at hcount
  have hlen : (k.starts.filter fun p => p.1 = n).length = 1 := by
    rw [← countP_eq_length_filter]
    simpa using hcount
  obtain ⟨p, hp'⟩ := length_eq_one_iff.mp hlen
  have hmem : p ∈ k.starts.filter fun p => p.1 = n := by rw [hp']; exact mem_singleton.mpr rfl
  grind [h.own]

theorem empty_step (h : k.Emptied → k.chain = []) (hin : InTime k a)
    (hs : step k a = some k') : k'.Emptied → k'.chain = [] := by
  cases moves_of_step hs with
  | refused | created | tested | started => exact h
  | deferred ht hp => exact fun hk => absurd hk (hin _ _ rfl ht hp)
  | initBegin | got | initStart => exact fun hk => nomatch hk
  | emptied hi hc => exact fun _ => hc
  | initReady hi => exact fun _ => h (.inl hi)

theorem late_step (h : k.Emptied ∧ k.chain ≠ [])
    (hs : step k a = some k') : k'.Emptied ∧ k'.chain ≠ [] := by
  obtain ⟨hk, hc⟩ := h
  cases moves_of_step hs with
  | refused | created | tested | started => exact ⟨hk, hc⟩
  | deferred => exact ⟨hk, append_ne_nil_of_left_ne_nil hc _⟩
  | initReady => exact ⟨.inr rfl, hc⟩
  | initBegin hi | emptied hi | got hi | initStart hi => rcases hk with hk | hk <;> rw [hi] at hk <;> cases hk

theorem late_of_not_inTime (hin : ¬ InTime k a) (hs : step k a = some k') :
    k'.Emptied ∧ k'.chain ≠ [] := by
  unfold InTime at hin
  push Not at hin
  obtain ⟨n, t, rfl, ht, hp, hk⟩ := hin
  cases moves_of_step hs with
  | started ht' hp' =>
    rw [ht] at ht'
    cases ht'
    rw [hp] at hp'
    cases hp'
  | deferred => exact ⟨hk, append_ne_nil_of_right_ne_nil _ (cons_ne_nil _ _)⟩

theorem late_of_run : ∀ (as : List (Action F A)) (k k' : State F A), ¬ StepsMeet step InTime k as →
    run step k as = some k' → k'.Emptied ∧ k'.chain ≠ []
  | [], _, _, hn, _ => absurd trivial hn
  | a :: as, k, k', hn, hr => by
    obtain ⟨m, hm, hr⟩ := run_cons.mp hr
    by_cases hin : InTime k a
    · refine late_of_run as m k' (fun hmeet => hn ⟨hin, fun t ht => ?_⟩) hr
      rw [hm] at ht
      cases ht
      exact hmeet
    · exact run_invariant (fun _ _ _ => late_step) as m k' (late_of_not_inTime hin hm) hr

/-- **No thread is lost in a run exactly if every deferred thread was put on the delay chain
    before the chain was found empty.** -/
theorem started_iff {as : List (Action F A)} {k : State F A} (hr : run step boot as = some k) :
    Started k ↔ (k.init = .done → StepsMeet step InTime (boot : State F A) as) := by
  have hcounted := run_invariant (fun _ _ _ => counted_step) as boot k counted_boot hr
  constructor
  · intro hs hi
    by_contra hn
    exact (late_of_run as boot k hn hr).2 (hs hi).1
  · intro hm hi
    have hchain := run_invariant_of_meet (fun _ _ _ => empty_step) as boot k (fun _ => rfl) (hm hi) hr (.inr hi)
    exact ⟨hchain, fun n t ht hp => hcounted.started_of_done hi hchain ht hp⟩

/-- A thread created before `rtems_bsd_threads_init_late` is started by it, another one directly. -/
theorem started_iff_twoThreads :
    ∃ k : State Nat Nat, run step boot
        [.create 10 1 true, .test 0, .finish 0, .initBegin, .initGet, .initStart, .initGet, .initReady,
          .create 20 2 true, .test 1, .finish 1] = some k ∧
      k.starts = [(0, some (10, 1)), (1, some (20, 2))] ∧
      (Started k ↔ (k.init = .done → StepsMeet step InTime (boot : State Nat Nat)
        [.create 10 1 true, .test 0, .finish 0, .initBegin, .initGet, .initStart, .initGet, .initReady,
          .create 20 2 true, .test 1, .finish 1])) :=
  ⟨_, rfl, rfl, started_iff rfl⟩

/-- A thread that is created after the chain was found empty and before the flag is set is never
    started: it stays on the delay chain. -/
theorem lateThread_lost :
    ∃ k : State Nat Nat, run step boot
        [.create 10 1 true, .test 0, .finish 0, .initBegin, .initGet, .initStart, .initGet,
          .create 20 2 true, .test 1, .finish 1, .initReady] = some k ∧
      k.starts = [(0, some (10, 1))] ∧ k.chain = [1] ∧ ¬ Started k := by
  refine ⟨_, rfl, rfl, rfl, ?_⟩
  intro hs
  have hchain := (hs rfl).1
  cases hchain

end RtemsLibbsd.ThreadStart
