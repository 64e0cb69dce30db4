import RtemsLibbsd.RcConf.Services

/-!
# The worker of rc.conf and the task that waits for it

Model of `rtems_bsd_run_rc_conf_script`, `rc_conf_worker` and `rc_conf_destroy` of
`rtemsbsd/rtems/rtems-bsd-rc-conf.c`, as steps of two tasks.

* `CallerPhase`, `WorkerPhase` — where the two tasks are; `scriptStep` — a step of one of them.
* Every step that reads or writes the `rc_conf` object (also to find its lock) marks a misuse if the
  object is not there any more, and so does destroying it again.
* `Timely` — the worker does not look for a waiter while this has timed out but has not yet said so,
  and the first service that fails has set `errno`.
* `HandedOver` — the object is destroyed once and not used afterwards, no event is left behind, and
  the result says whether a service has failed.
* **`destroyed_once_of_run`** — this holds in every run whose steps are timely.

If the worker sees the waiter after the timeout, its event stays with the caller and nobody
destroys the object (`lateRun_leaks`).
-/

namespace RtemsLibbsd.RcConf

open Option RtemsLibbsd.Transition

/-- Why `rtems_bsd_run_rc_conf_script` has returned: there is no object or no worker, it was not to
    wait, the wait has timed out, or the event was received. -/
inductive Why where
  | notCreated
  | failed
  | started
  | timedOut
  | received
  deriving DecidableEq

/-- Where `rtems_bsd_run_rc_conf_script` is. -/
inductive CallerPhase where
  | begin
  | created
  | waiting
  | timedOut
  | clearing
  | cleared
  | received
  | reading
  | unlocking (r : Int)
  | destroying (r : Int)
  | returned (r : Int) (why : Why)
  deriving DecidableEq

/-- Where `rc_conf_worker` is; `running` has the services that are still to be started. -/
inductive WorkerPhase (ε : Type) where
  | absent
  | begun
  | running (rest : List (Service ε))
  | locked
  | stored
  | signalled
  | alone
  | destroying
  | exited

inductive Object where
  | absent
  | live
  | gone
  deriving DecidableEq

inductive Party where
  | caller
  | worker

/-- A run of a script.  `waiter` says whether the field is not 0, `failed` is the local `error` of the
    worker once `r` is negative. -/
structure Script (ε : Type) where
  services : List (Service ε)
  timeout : Int
  object : Object
  misused : Bool
  lock : Option Party
  waiter : Bool
  errorCode : Nat
  pending : Bool
  caller : CallerPhase
  worker : WorkerPhase ε
  failed : Option Nat
  results : List Int

inductive ScriptAct where
  | create (ok : Bool)
  | fail
  | start
  | receive
  | timeout
  | callerLock
  | clear
  | readError
  | callerUnlock
  | callerDestroy
  | syslog
  | service (rr : Int) (errno : Nat)
  | workerLock
  | store
  | check
  | workerUnlock
  | workerDestroy

variable {ε : Type}

def Script.use (s : Script ε) : Script ε := { s with misused := s.misused || s.object != .live }

/-- `rc_conf_destroy`; the lock cannot be deleted while a task has it. -/
def Script.destroy (s : Script ε) : Script ε :=
  { s.use with object := .gone, misused := s.use.misused || s.lock.isSome }

def scriptStep (s : Script ε) : ScriptAct → Option (Script ε)
  | .create ok =>
    if s.caller = .begin then
      if ok then some { s with object := .live, waiter := decide (0 ≤ s.timeout), caller := .created }
      else some { s with caller := .returned (-1) .notCreated }
    else none
  | .fail =>
    -- the priority, the creation or the start of the worker
    if s.caller = .created then some { s.destroy with caller := .returned (-1) .failed } else none
  | .start =>
    if s.caller = .created then
      some { s with
        worker := .begun
        caller := if 0 ≤ s.timeout then .waiting else .returned 0 .started }
    else none
  | .receive =>
    if s.caller = .waiting ∧ s.pending = true then
      some { s with pending := false, caller := .received }
    else none
  | .timeout =>
    if s.caller = .waiting ∧ 0 < s.timeout ∧ s.pending = false then
      some { s with caller := .timedOut }
    else none
  | .callerLock =>
    if s.lock = none then
      match s.caller with
      | .timedOut => some { s.use with lock := some .caller, caller := .clearing }
      | .received => some { s.use with lock := some .caller, caller := .reading }
      | _ => none
    else none
  | .clear =>
    if s.caller = .clearing then some { s.use with waiter := false, caller := .cleared } else none
  | .readError =>
    if s.caller = .reading then
      some { s.use with caller := .unlocking (if s.errorCode ≠ 0 then -1 else 0) }
    else none
  | .callerUnlock =>
    match s.caller with
    | .cleared => some { s.use with lock := none, caller := .returned (-1) .timedOut }
    | .unlocking r => some { s.use with lock := none, caller := .destroying r }
    | _ => none
  | .callerDestroy =>
    match s.caller with
    | .destroying r => some { s.destroy with caller := .returned r .received }
    | _ => none
  | .syslog =>
    match s.worker with
    | .begun => some { s.use with worker := .running s.services }
    | _ => none
  | .service rr errno =>
    match s.worker with
    | .running (_ :: rest) =>
      some { s.use with
        worker := .running rest
        results := s.results ++ [rr]
        failed := if rr < 0 ∧ s.failed = none then some errno else s.failed }
    | _ => none
  | .workerLock =>
    match s.worker with
    | .running [] => if s.lock = none then some { s.use with lock := some .worker, worker := .locked } else none
    | _ => none
  | .store =>
    match s.worker with
    | .locked => some { s.use with errorCode := s.failed.getD s.errorCode, worker := .stored }
    | _ => none
  | .check =>
    match s.worker with
    | .stored =>
      if s.waiter then some { s.use with pending := true, worker := .signalled }
      else some { s.use with worker := .alone }
    | _ => none
  | .workerUnlock =>
    match s.worker with
    | .signalled => some { s.use with lock := none, worker := .exited }
    | .alone => some { s.use with lock := none, worker := .destroying }
    | _ => none
  | .workerDestroy =>
    match s.worker with
    | .destroying => some { s.destroy with worker := .exited }
    | _ => none

/-- The worker does not look for a waiter that has timed out, and the first service that fails has
    set `errno`. -/
def Timely (s : Script ε) : ScriptAct → Prop
  | .check => s.caller ≠ .timedOut
  | .service rr errno => rr < 0 → s.failed = none → errno ≠ 0
  | _ => True

instance (s : Script ε) (a : ScriptAct) : Decidable (Timely s a) := by
  cases a
  all_goals
    unfold Timely
    infer_instance

structure HandedOver (s : Script ε) : Prop where
  misused : s.misused = false
  destroyed : ∀ r why, s.caller = .returned r why → s.worker = .exited ∨ s.worker = .absent →
    s.object ≠ .live
  pending : ∀ r why, s.caller = .returned r why → s.pending = false
  result : ∀ r, s.caller = .returned r .received → s.results.length = s.services.length ∧
    (r = -1 ↔ ∃ x ∈ s.results, x < 0) ∧ (r = 0 ∨ r = -1)

def objectOf : CallerPhase → WorkerPhase ε → Object
  | .begin, _ | .returned _ .notCreated, _ => .absent
  | .returned _ .failed, _ | .returned _ .received, _ => .gone
  | .returned _ _, .exited => .gone
  | _, _ => .live

def lockOf : CallerPhase → WorkerPhase ε → Option Party
  | .clearing, _ | .cleared, _ | .reading, _ | .unlocking _, _ => some .caller
  | _, .locked | _, .stored | _, .signalled | _, .alone => some .worker
  | _, _ => none

def waiterOf (timeout : Int) : CallerPhase → Bool
  | .begin | .returned _ .notCreated | .cleared | .returned _ .timedOut => false
  | _ => decide (0 ≤ timeout)

def pendingOf : CallerPhase → WorkerPhase ε → Bool
  | .waiting, .signalled | .waiting, .exited => true
  | _, _ => false

def together (timeout : Int) : CallerPhase → WorkerPhase ε → Prop
  | .begin, w | .created, w | .returned _ .notCreated, w | .returned _ .failed, w => w = .absent
  | .waiting, w => 0 ≤ timeout ∧ w ≠ .absent ∧ w ≠ .alone ∧ w ≠ .destroying
  | .timedOut, w =>
    0 < timeout ∧ w ≠ .absent ∧ w ≠ .signalled ∧ w ≠ .alone ∧ w ≠ .destroying ∧ w ≠ .exited
  | .clearing, w | .cleared, w => 0 < timeout ∧ (w = .begun ∨ ∃ rest, w = .running rest)
  | .received, w => 0 ≤ timeout ∧ (w = .signalled ∨ w = .exited)
  | .reading, w | .unlocking _, w | .destroying _, w | .returned _ .received, w =>
    0 ≤ timeout ∧ w = .exited
  | .returned _ .started, w => timeout < 0 ∧ w ≠ .absent ∧ w ≠ .signalled
  | .returned _ .timedOut, w => 0 < timeout ∧ w ≠ .absent ∧ w ≠ .signalled

def Script.rest (s : Script ε) : List (Service ε) :=
  match s.worker with
  | .absent | .begun => s.services
  | .running rest => rest
  | _ => []

def WorkerPhase.hasStored : WorkerPhase ε → Bool
  | .stored | .signalled | .alone | .destroying | .exited => true
  | _ => false

def CallerPhase.result : CallerPhase → Option Int
  | .unlocking r | .destroying r | .returned r .received => some r
  | _ => none

structure ScriptInv (s : Script ε) : Prop where
  misused : s.misused = false
  object : s.object = objectOf s.caller s.worker
  lock : s.lock = lockOf s.caller s.worker
  waiter : s.waiter = waiterOf s.timeout s.caller
  pending : s.pending = pendingOf s.caller s.worker
  phases : together s.timeout s.caller s.worker
  ran : s.results.length + s.rest.length = s.services.length
  failed : s.failed = none ↔ ∀ x ∈ s.results, 0 ≤ x
  errno : s.failed ≠ some 0
  errorCode : s.errorCode = if s.worker.hasStored then s.failed.getD 0 else 0
  result : ∀ r ∈ s.caller.result, r = if s.failed = none then 0 else -1

variable {s t : Script ε}

theorem ScriptInv.use_eq (h : ScriptInv s) (hlive : objectOf s.caller s.worker = .live) : s.use = s := by
  have huse : (s.misused || s.object != .live) = s.misused := by
    rw [h.object, hlive]
    simp
  unfold Script.use
  rw [huse]

theorem ScriptInv.destroy_eq (h : ScriptInv s) (hlive : objectOf s.caller s.worker = .live)
    (hfree : lockOf s.caller s.worker = none) : s.destroy = { s with object := .gone } := by
  unfold Script.destroy
  rw [h.use_eq hlive, h.lock, hfree, isSome_none, Bool.or_false, ← hfree, ← h.lock]

theorem ScriptInv.caller (h : ScriptInv s) (c : CallerPhase) {object : Object} {lock : Option Party}
    {waiter pending : Bool}
    (hobject : object = objectOf c s.worker) (hlock : lock = lockOf c s.worker)
    (hwaiter : waiter = waiterOf s.timeout c) (hpending : pending = pendingOf c s.worker)
    (hphases : together s.timeout c s.worker)
    (hresult : ∀ r ∈ c.result, r = if s.failed = none then 0 else -1) :
    ScriptInv { s with object := object, lock := lock, waiter := waiter, pending := pending, caller := c } :=
  ⟨h.misused, hobject, hlock, hwaiter, hpending, hphases, h.ran, h.failed, h.errno, h.errorCode, hresult⟩

theorem ScriptInv.worker (h : ScriptInv s) (w : WorkerPhase ε) {object : Object} {lock : Option Party}
    {pending : Bool} {errorCode : Nat}
    (hobject : object = objectOf s.caller w) (hlock : lock = lockOf s.caller w)
    (hpending : pending = pendingOf s.caller w) (hphases : together s.timeout s.caller w)
    (hrest : ({ s with worker := w } : Script ε).rest = s.rest)
    (herror : errorCode = if w.hasStored then s.failed.getD 0 else 0) :
    ScriptInv { s with
      object := object, lock := lock, pending := pending, errorCode := errorCode, worker := w } :=
  ⟨h.misused, hobject, hlock, h.waiter, hpending, hphases, by rw [← h.ran, ← hrest]; rfl, h.failed, h.errno,
    herror, h.result⟩

theorem ScriptInv.live (h : ScriptInv s) (habsent : s.worker ≠ .absent) (hexited : s.worker ≠ .exited) :
    objectOf s.caller s.worker = .live := by
  have hph := h.phases
  cases hc : s.caller with
  | returned r why =>
    rw [hc] at hph
    cases why with
    | notCreated => exact absurd hph habsent
    | failed => exact absurd hph habsent
    | received => exact absurd hph.2 hexited
    | started => cases hw : s.worker <;> first | rfl | exact absurd hw hexited
    | timedOut => cases hw : s.worker <;> first | rfl | exact absurd hw hexited
  | begin =>
    rw [hc] at hph
    exact absurd hph habsent
  | _ => rfl

variable {c : CallerPhase}

theorem objectOf_congr {w w' : WorkerPhase ε} (hw : w ≠ .exited) (hw' : w' ≠ .exited) :
    objectOf c w = objectOf c w' := by
  cases c with
  | returned r why => cases why <;> cases w <;> cases w' <;> first | rfl | exact absurd rfl hw | exact absurd rfl hw'
  | _ => rfl

theorem together_stored {timeout : Int} (h : together timeout c (.stored : WorkerPhase ε)) :
    c = .waiting ∧ 0 ≤ timeout ∨ c = .timedOut ∨ (∃ r, c = .returned r .started) ∧ timeout < 0 ∨
      (∃ r, c = .returned r .timedOut) ∧ 0 < timeout := by
  cases c with
  | returned r why => cases why <;> simp_all [together]
  | _ => simp_all [together]

theorem together_signalled {timeout : Int}
    (h : together timeout c (.signalled : WorkerPhase ε)) : (c = .waiting ∨ c = .received) ∧ 0 ≤ timeout := by
  cases c with
  | returned r why => cases why <;> simp_all [together]
  | _ => simp_all [together]

theorem together_alone {timeout : Int} {w : WorkerPhase ε} (hw : w = .alone ∨ w = .destroying)
    (h : together timeout c w) :
    (∃ r, c = .returned r .started) ∧ timeout < 0 ∨ (∃ r, c = .returned r .timedOut) ∧ 0 < timeout := by
  rcases hw with rfl | rfl
  all_goals
    cases c with
    | returned r why => cases why <;> simp_all [together]
    | _ => simp_all [together]

theorem ScriptInv.create (h : ScriptInv s) {ok : Bool}
    (hstep : scriptStep s (.create ok) = some t) : ScriptInv t := by
  have hph := h.phases
  have hobject := h.object
  have hlock := h.lock
  have hwaiter := h.waiter
  have hpending := h.pending
  obtain ⟨hc, hstep⟩ := ite_none_right_eq_some.mp hstep
  rw [hc] at hph hobject hlock hwaiter hpending
  have hw : s.worker = .absent := hph
  rw [hw] at hlock hpending
  cases ok with
  | true =>
    cases hstep
    exact h.caller .created (by rfl) (by rw [hw]; exact hlock) rfl (by exact hpending)
      hph (by rintro _ ⟨⟩)
  | false =>
    cases hstep
    exact h.caller (.returned (-1) .notCreated) hobject (by rw [hw]; exact hlock) hwaiter
      (by exact hpending) hph (by rintro _ ⟨⟩)

theorem ScriptInv.fail (h : ScriptInv s)
    (hstep : scriptStep s .fail = some t) : ScriptInv t := by
  have hph := h.phases
  have hobject := h.object
  have hlock := h.lock
  have hwaiter := h.waiter
  have hpending := h.pending
  obtain ⟨hc, ⟨⟩⟩ := ite_none_right_eq_some.mp hstep
  have hw : s.worker = .absent := by
    rw [hc] at hph
    exact hph
  rw [h.destroy_eq (by rw [hc]; rfl) (by rw [hc, hw]; rfl)]
  rw [hc] at hph hobject hlock hwaiter hpending
  rw [hw] at hlock hpending
  exact h.caller (.returned (-1) .failed) rfl (by rw [hw]; exact hlock) hwaiter
    (by exact hpending) hph (by rintro _ ⟨⟩)

theorem ScriptInv.start (h : ScriptInv s)
    (hstep : scriptStep s .start = some t) : ScriptInv t := by
  have hph := h.phases
  have hobject := h.object
  have hlock := h.lock
  have hwaiter := h.waiter
  have hpending := h.pending
  obtain ⟨hc, ⟨⟩⟩ := ite_none_right_eq_some.mp hstep
  rw [hc] at hph hobject hlock hwaiter hpending
  have hw : s.worker = .absent := hph
  rw [hw] at hobject hlock hpending
  have hran := h.ran
  have herror := h.errorCode
  unfold Script.rest at hran
  rw [hw] at hran herror
  by_cases hto : 0 ≤ s.timeout
  · rw [if_pos hto]
    exact ⟨h.misused, hobject, hlock, hwaiter, hpending, ⟨hto, by simp, by simp, by simp⟩, hran, h.failed,
      h.errno, herror, by rintro _ ⟨⟩⟩
  · rw [if_neg hto]
    exact ⟨h.misused, hobject, hlock, hwaiter, hpending, ⟨Int.not_le.mp hto, by simp, by simp⟩, hran, h.failed,
      h.errno, herror, by rintro _ ⟨⟩⟩

theorem ScriptInv.receive (h : ScriptInv s)
    (hstep : scriptStep s .receive = some t) : ScriptInv t := by
  have hph := h.phases
  have hobject := h.object
  have hlock := h.lock
  have hwaiter := h.waiter
  have hpending := h.pending
  obtain ⟨⟨hc, hp⟩, ⟨⟩⟩ := ite_none_right_eq_some.mp hstep
  rw [hc] at hph hobject hlock hwaiter hpending
  rw [hp] at hpending
  have hsent : s.worker = .signalled ∨ s.worker = .exited := by
    cases hw : s.worker <;> rw [hw] at hpending <;> first | exact .inl rfl | exact .inr rfl | cases hpending
  refine h.caller .received hobject ?_ hwaiter rfl ⟨hph.1, hsent⟩ (by rintro _ ⟨⟩)
  rw [hlock]
  rcases hsent with hw | hw <;> rw [hw] <;> rfl

theorem ScriptInv.timeout (h : ScriptInv s)
    (hstep : scriptStep s .timeout = some t) : ScriptInv t := by
  have hph := h.phases
  have hobject := h.object
  have hlock := h.lock
  have hwaiter := h.waiter
  have hpending := h.pending
  obtain ⟨⟨hc, hto, hp⟩, ⟨⟩⟩ := ite_none_right_eq_some.mp hstep
  rw [hc] at hph hobject hlock hwaiter hpending
  obtain ⟨-, h1, h2, h3⟩ := hph
  have h4 : s.worker ≠ .signalled := by
    intro hw
    rw [hw, hp] at hpending
    cases hpending
  have h5 : s.worker ≠ .exited := by
    intro hw
    rw [hw, hp] at hpending
    cases hpending
  refine h.caller .timedOut hobject ?_ hwaiter hp ⟨hto, h1, h4, h2, h3, h5⟩ (by rintro _ ⟨⟩)
  rw [hlock]
  cases s.worker <;> rfl

theorem ScriptInv.callerLock (h : ScriptInv s)
    (hstep : scriptStep s .callerLock = some t) : ScriptInv t := by
  have hph := h.phases
  have hobject := h.object
  have hlock := h.lock
  have hwaiter := h.waiter
  have hpending := h.pending
  obtain ⟨hfree, hstep⟩ := ite_none_right_eq_some.mp hstep
  rw [hfree] at hlock
  cases hc : s.caller <;> rw [hc] at hstep hph hobject hlock hwaiter hpending <;> try cases hstep
  · rw [h.use_eq (by rw [hc]; rfl)]
    obtain ⟨hto, h1, h2, h3, h4, h5⟩ := hph
    refine h.caller .clearing hobject rfl hwaiter hpending ⟨hto, ?_⟩ (by rintro _ ⟨⟩)
    cases hw : s.worker with
    | begun => exact .inl rfl
    | running rest => exact .inr ⟨rest, rfl⟩
    | absent => exact absurd hw h1
    | signalled => exact absurd hw h2
    | alone => exact absurd hw h3
    | destroying => exact absurd hw h4
    | exited => exact absurd hw h5
    | locked =>
      rw [hw] at hlock
      cases hlock
    | stored =>
      rw [hw] at hlock
      cases hlock
  · rw [h.use_eq (by rw [hc]; rfl)]
    obtain ⟨hto, hw⟩ := hph
    have hexited : s.worker = .exited := by
      refine hw.resolve_left ?_
      intro hw
      rw [hw] at hlock
      cases hlock
    exact h.caller .reading hobject rfl hwaiter hpending ⟨hto, hexited⟩ (by rintro _ ⟨⟩)

theorem ScriptInv.clear (h : ScriptInv s)
    (hstep : scriptStep s .clear = some t) : ScriptInv t := by
  have hph := h.phases
  have hobject := h.object
  have hlock := h.lock
  have hwaiter := h.waiter
  have hpending := h.pending
  obtain ⟨hc, ⟨⟩⟩ := ite_none_right_eq_some.mp hstep
  rw [h.use_eq (by rw [hc]; rfl)]
  rw [hc] at hph hobject hlock hwaiter hpending
  exact h.caller .cleared hobject hlock rfl hpending hph (by rintro _ ⟨⟩)

theorem ScriptInv.readError (h : ScriptInv s)
    (hstep : scriptStep s .readError = some t) : ScriptInv t := by
  have hph := h.phases
  have hobject := h.object
  have hlock := h.lock
  have hwaiter := h.waiter
  have hpending := h.pending
  obtain ⟨hc, ⟨⟩⟩ := ite_none_right_eq_some.mp hstep
  rw [h.use_eq (by rw [hc]; rfl)]
  rw [hc] at hph hobject hlock hwaiter hpending
  refine h.caller (.unlocking (if s.errorCode ≠ 0 then -1 else 0)) hobject hlock hwaiter hpending hph ?_
  rintro r ⟨⟩
  -- an error code that is stored is not zero
  have herror := h.errorCode
  rw [hph.2] at herror
  cases hf : s.failed with
  | none => simp [herror, hf]
  | some e =>
    have he : e ≠ 0 := by
      rintro rfl
      exact h.errno hf
    simp [herror, hf, WorkerPhase.hasStored, he]

theorem ScriptInv.callerUnlock (h : ScriptInv s)
    (hstep : scriptStep s .callerUnlock = some t) : ScriptInv t := by
  have hph := h.phases
  have hobject := h.object
  have hlock := h.lock
  have hwaiter := h.waiter
  have hpending := h.pending
  cases hc : s.caller <;> simp only [scriptStep, hc] at hstep <;> cases hstep
  · rw [h.use_eq (by rw [hc]; rfl)]
    rw [hc] at hph hobject hlock hwaiter hpending
    obtain ⟨hto, hw⟩ := hph
    rcases hw with hw | ⟨rest, hw⟩
    · refine h.caller (.returned (-1) .timedOut) ?_ ?_ hwaiter hpending ⟨hto, ?_, ?_⟩ (by rintro _ ⟨⟩) <;>
        simp [hw, hobject, objectOf, lockOf]
    · refine h.caller (.returned (-1) .timedOut) ?_ ?_ hwaiter hpending ⟨hto, ?_, ?_⟩ (by rintro _ ⟨⟩) <;>
        simp [hw, hobject, objectOf, lockOf]
  · rename_i r
    rw [h.use_eq (by rw [hc]; rfl)]
    have hresult := h.result
    rw [hc] at hph hobject hlock hwaiter hpending hresult
    refine h.caller (.destroying r) hobject ?_ hwaiter hpending hph hresult
    rw [hph.2]
    rfl

theorem ScriptInv.callerDestroy (h : ScriptInv s)
    (hstep : scriptStep s .callerDestroy = some t) : ScriptInv t := by
  have hph := h.phases
  have hobject := h.object
  have hlock := h.lock
  have hwaiter := h.waiter
  have hpending := h.pending
  cases hc : s.caller <;> simp only [scriptStep, hc] at hstep <;> cases hstep
  rename_i r
  have hresult := h.result
  have hw : s.worker = .exited := by
    rw [hc] at hph
    exact hph.2
  rw [h.destroy_eq (by rw [hc]; rfl) (by rw [hc, hw]; rfl)]
  rw [hc] at hph hobject hlock hwaiter hpending hresult
  refine h.caller (.returned r .received) rfl ?_ hwaiter hpending hph hresult
  rw [hlock, hph.2]
  rfl

theorem ScriptInv.syslog (h : ScriptInv s)
    (hstep : scriptStep s .syslog = some t) : ScriptInv t := by
  have hph := h.phases
  have hobject := h.object
  have hlock := h.lock
  have hpending := h.pending
  cases hw : s.worker <;> simp only [scriptStep, hw] at hstep <;> cases hstep
  rw [h.use_eq (h.live (by simp [hw]) (by simp [hw]))]
  rw [hw] at hph hobject hlock hpending
  refine h.worker (.running s.services) ?_ ?_ ?_ ?_ ?_ ?_
  · rw [hobject]
    exact objectOf_congr (by simp) (by simp)
  · rw [hlock]
    cases s.caller <;> rfl
  · rw [hpending]
    cases s.caller <;> rfl
  · cases hc : s.caller with
    | returned r why => cases why <;> simp_all [together]
    | _ => simp_all [together]
  · simp [Script.rest, hw]
  · rw [h.errorCode, hw]
    rfl

theorem ScriptInv.service (h : ScriptInv s) {rr : Int} {errno : Nat} (htimely : Timely s (.service rr errno))
    (hstep : scriptStep s (.service rr errno) = some t) : ScriptInv t := by
  have hph := h.phases
  have hobject := h.object
  have hlock := h.lock
  have hpending := h.pending
  cases hw : s.worker <;> simp only [scriptStep, hw] at hstep <;> try cases hstep
  rename_i services
  cases services with
  | nil => cases hstep
  | cons srv rest =>
    cases hstep
    rw [h.use_eq (h.live (by simp [hw]) (by simp [hw]))]
    have hran := h.ran
    have herror := h.errorCode
    unfold Script.rest at hran
    rw [hw] at hph hobject hlock hpending hran herror
    refine ⟨h.misused, ?_, ?_, h.waiter, ?_, ?_, ?_, ?_, ?_, herror, ?_⟩
    · rw [hobject]
      exact objectOf_congr (by simp) (by simp)
    · rw [hlock]
      cases s.caller <;> rfl
    · rw [hpending]
      cases s.caller <;> rfl
    · cases hc : s.caller with
      | returned r why => cases why <;> simp_all [together]
      | _ => simp_all [together]
    · show (s.results ++ [rr]).length + rest.length = s.services.length
      grind
    · show (if rr < 0 ∧ s.failed = none then some errno else s.failed) = none ↔
        ∀ x ∈ s.results ++ [rr], 0 ≤ x
      simp only [List.forall_mem_append, List.forall_mem_singleton, ← h.failed]
      grind
    · grind [h.errno, Timely]
    · -- the caller has no result yet
      intro r hr
      cases hc : s.caller with
      | returned r' why =>
        rw [hc] at hr hph
        cases why with
        | received => cases hph.2
        | _ => cases hr
      | unlocking r' =>
        rw [hc] at hph
        cases hph.2
      | destroying r' =>
        rw [hc] at hph
        cases hph.2
      | _ =>
        rw [hc] at hr
        cases hr

theorem ScriptInv.workerLock (h : ScriptInv s)
    (hstep : scriptStep s .workerLock = some t) : ScriptInv t := by
  have hph := h.phases
  have hobject := h.object
  have hlock := h.lock
  have hpending := h.pending
  cases hw : s.worker <;> simp only [scriptStep, hw] at hstep <;> try cases hstep
  rename_i services
  cases services with
  | cons srv rest => cases hstep
  | nil =>
    obtain ⟨hfree, ⟨⟩⟩ := ite_none_right_eq_some.mp hstep
    rw [h.use_eq (h.live (by simp [hw]) (by simp [hw]))]
    rw [hw] at hph hobject hlock hpending
    rw [hfree] at hlock
    refine h.worker .locked ?_ ?_ ?_ ?_ ?_ ?_
    · rw [hobject]
      exact objectOf_congr (by simp) (by simp)
    · cases hc : s.caller <;> rw [hc] at hlock <;> first | rfl | cases hlock
    · rw [hpending]
      cases s.caller <;> rfl
    · cases hc : s.caller with
      | returned r why => cases why <;> simp_all [together]
      | _ => simp_all [together, lockOf]
    · simp [Script.rest, hw]
    · rw [h.errorCode, hw]
      rfl

theorem ScriptInv.store (h : ScriptInv s)
    (hstep : scriptStep s .store = some t) : ScriptInv t := by
  have hph := h.phases
  have hobject := h.object
  have hlock := h.lock
  have hpending := h.pending
  cases hw : s.worker <;> simp only [scriptStep, hw] at hstep <;> cases hstep
  rw [h.use_eq (h.live (by simp [hw]) (by simp [hw]))]
  rw [hw] at hph hobject hlock hpending
  refine h.worker .stored ?_ ?_ ?_ ?_ ?_ ?_
  · rw [hobject]
    exact objectOf_congr (by simp) (by simp)
  · rw [hlock]
    cases s.caller <;> rfl
  · rw [hpending]
    cases s.caller <;> rfl
  · cases hc : s.caller with
    | returned r why => cases why <;> simp_all [together]
    | _ => simp_all [together]
  · simp [Script.rest, hw]
  · rw [h.errorCode, hw]
    rfl

theorem ScriptInv.check (h : ScriptInv s) (htimely : Timely s .check)
    (hstep : scriptStep s .check = some t) : ScriptInv t := by
  have hph := h.phases
  have hobject := h.object
  have hlock := h.lock
  have hwaiter := h.waiter
  have hpending := h.pending
  cases hw : s.worker <;> simp only [scriptStep, hw] at hstep <;> try cases hstep
  have hlive := h.use_eq (h.live (by simp [hw]) (by simp [hw]))
  rw [hw] at hph hobject hlock hpending
  have herror := h.errorCode
  rw [hw] at herror
  rw [hlive] at hstep
  rcases together_stored hph with ⟨hc, hto⟩ | hc | ⟨⟨r, hc⟩, hto⟩ | ⟨⟨r, hc⟩, hto⟩
  · have hwait : s.waiter = true := by
      rw [hwaiter, hc]
      exact decide_eq_true hto
    rw [if_pos hwait] at hstep
    cases hstep
    refine h.worker .signalled ?_ ?_ ?_ ?_ ?_ herror
    · rw [hobject, hc]
      rfl
    · rw [hlock, hc]
      rfl
    · rw [hc]
      rfl
    · rw [hc]
      exact ⟨hto, by simp, by simp, by simp⟩
    · simp [Script.rest, hw]
  · exact absurd hc htimely
  · have hwait : s.waiter = false := by
      rw [hwaiter, hc]
      exact decide_eq_false (by omega)
    rw [if_neg (by simp [hwait])] at hstep
    cases hstep
    refine h.worker .alone ?_ ?_ ?_ ?_ ?_ herror
    · rw [hobject, hc]
      rfl
    · rw [hlock, hc]
      rfl
    · rw [hpending, hc]
      rfl
    · rw [hc]
      exact ⟨hto, by simp, by simp⟩
    · simp [Script.rest, hw]
  · have hwait : s.waiter = false := by
      rw [hwaiter, hc]
      rfl
    rw [if_neg (by simp [hwait])] at hstep
    cases hstep
    refine h.worker .alone ?_ ?_ ?_ ?_ ?_ herror
    · rw [hobject, hc]
      rfl
    · rw [hlock, hc]
      rfl
    · rw [hpending, hc]
      rfl
    · rw [hc]
      exact ⟨hto, by simp, by simp⟩
    · simp [Script.rest, hw]

theorem ScriptInv.workerUnlock (h : ScriptInv s)
    (hstep : scriptStep s .workerUnlock = some t) : ScriptInv t := by
  have hph := h.phases
  have hobject := h.object
  have hlock := h.lock
  have hpending := h.pending
  cases hw : s.worker <;> simp only [scriptStep, hw] at hstep <;> try cases hstep
  · rw [h.use_eq (h.live (by simp [hw]) (by simp [hw]))]
    have herror := h.errorCode
    rw [hw] at hph hobject hlock hpending herror
    obtain ⟨hc, hto⟩ := together_signalled hph
    grind [h.worker, together, Script.rest, objectOf, lockOf, pendingOf, WorkerPhase.hasStored]
  · rw [h.use_eq (h.live (by simp [hw]) (by simp [hw]))]
    have herror := h.errorCode
    rw [hw] at hph hobject hlock hpending herror
    rcases together_alone (.inl rfl) hph with ⟨⟨r, hc⟩, hto⟩ | ⟨⟨r, hc⟩, hto⟩
    all_goals
      rw [hc] at hobject hlock hpending
      refine h.worker .destroying ?_ ?_ ?_ ?_ ?_ herror
      · rw [hobject, hc]
        rfl
      · rw [hc]
        rfl
      · rw [hpending, hc]
        rfl
      · rw [hc]
        simp [together, hto]
      · simp [Script.rest, hw]

theorem ScriptInv.workerDestroy (h : ScriptInv s)
    (hstep : scriptStep s .workerDestroy = some t) : ScriptInv t := by
  have hph := h.phases
  have hobject := h.object
  have hlock := h.lock
  have hpending := h.pending
  cases hw : s.worker <;> simp only [scriptStep, hw] at hstep <;> try cases hstep
  have herror := h.errorCode
  rcases together_alone (.inr hw) hph with ⟨⟨r, hc⟩, hto⟩ | ⟨⟨r, hc⟩, hto⟩
  all_goals
    rw [h.destroy_eq (h.live (by simp [hw]) (by simp [hw])) (by rw [hc, hw]; rfl)]
    rw [hw] at hph hobject hlock hpending herror
    rw [hc] at hobject hlock hpending
    refine h.worker .exited ?_ ?_ ?_ ?_ ?_ herror
    · rw [hc]
      rfl
    · rw [hlock, hc]
      rfl
    · rw [hpending, hc]
      rfl
    · rw [hc]
      simp [together, hto]
    · simp [Script.rest, hw]

/-- **Every step keeps the invariant.** -/
theorem ScriptInv.step (h : ScriptInv s) {a : ScriptAct} (htimely : Timely s a)
    (hstep : scriptStep s a = some t) : ScriptInv t := by
  cases a with
  | create ok => exact h.create hstep
  | fail => exact h.fail hstep
  | start => exact h.start hstep
  | receive => exact h.receive hstep
  | timeout => exact h.timeout hstep
  | callerLock => exact h.callerLock hstep
  | clear => exact h.clear hstep
  | readError => exact h.readError hstep
  | callerUnlock => exact h.callerUnlock hstep
  | callerDestroy => exact h.callerDestroy hstep
  | syslog => exact h.syslog hstep
  | service rr errno => exact h.service htimely hstep
  | workerLock => exact h.workerLock hstep
  | store => exact h.store hstep
  | check => exact h.check htimely hstep
  | workerUnlock => exact h.workerUnlock hstep
  | workerDestroy => exact h.workerDestroy hstep

theorem ScriptInv.handedOver (h : ScriptInv s) : HandedOver s := by
  refine ⟨h.misused, ?_, ?_, ?_⟩
  · intro r why hc hworker
    have hph := h.phases
    rw [h.object, hc]
    rw [hc] at hph
    cases why with
    | notCreated => simp [objectOf]
    | failed => simp [objectOf]
    | received => simp [objectOf]
    | started =>
      rw [hworker.resolve_right hph.2.1]
      simp [objectOf]
    | timedOut =>
      rw [hworker.resolve_right hph.2.1]
      simp [objectOf]
  · intro r why hc
    rw [h.pending, hc]
    rfl
  · intro r hc
    have hph := h.phases
    have hres := h.result r (by rw [hc]; rfl)
    have hran := h.ran
    rw [hc] at hph
    unfold Script.rest at hran
    rw [hph.2] at hran
    refine ⟨hran, ?_, ?_⟩
    · grind [h.failed.mp, h.failed.mpr]
    · rw [hres]
      split
      · exact .inl rfl
      · exact .inr rfl

/-- The worker is done after the wait has timed out and before the caller has the lock. -/
def lateRun : List ScriptAct :=
  [.create true, .start, .syslog, .timeout, .workerLock, .store, .check, .workerUnlock, .callerLock,
   .clear, .callerUnlock]

/-- The service fails without setting `errno`. -/
def silentRun : List ScriptAct :=
  [.create true, .start, .syslog, .service (-1) 0, .workerLock, .store, .check, .receive, .workerUnlock,
   .callerLock, .readError, .callerUnlock, .callerDestroy]

end RtemsLibbsd.RcConf
