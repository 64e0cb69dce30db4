import Mathlib.Logic.Function.Basic
import RtemsLibbsd.Transition

/-!
# Sleep queues

Model of the RTEMS variant of `freebsd/sys/kern/subr_sleepqueue.c`: a step relation over any number
of threads, wakers and timers.

* `Queues` — what is under the chain locks: the chains of `sleepq_chains`, the sleepqueue objects
  and the members of `struct thread` that link a thread to them.
* `Thread` — the rest of a thread: `td_sq_state`, the blocking state, the watchdog and where it is
  in `sleepq_add` … `sleepq_switch`.
* `Waker` — where a caller of `sleepq_signal`, `sleepq_broadcast` or `sleepq_remove` is.
* `step` — a section under a chain lock or under the wait lock of a thread is one step; a section
  under the wait lock within one under a chain lock ends a step.  `_Thread_Set_state` and
  `_Thread_Clear_state` are steps of their own.  `Act.timeout` takes the watchdog off the timer
  queue and runs `sleepq_timeout`; `Act.expire` and `Act.routine` are the same in two steps.

A failed assertion sets `State.failed`.  The type and the lock of a sleepqueue, which only
assertions about the callers read, are left out.  The number of a sleep and the lists after
`State.failed` are not read by the code.
-/

namespace RtemsLibbsd.Sleepqueue

open Function

abbrev NR_SLEEPQS : Nat := 2

/-- `SC_HASH`, with `SC_SHIFT` and `SC_MASK`. -/
def scHash (wchan : Nat) : Nat := ((wchan >>> 8) ^^^ wchan) &&& 255

/-- `td_sq_state`. -/
inductive SqState where
  | wakeup
  | panic
  | tired
  | sleepy
  | sleeping
  | nightmare
  deriving DecidableEq

/-- `struct sleepqueue`. -/
structure SleepQueue where
  blocked : Fin NR_SLEEPQS → List Nat
  blockedcnt : Fin NR_SLEEPQS → Nat
  free : List Nat
  wchan : Option Nat

/-- `td_sleepqueue`, `td_wchan` and `td_sqqueue`. -/
structure Link where
  sleepqueue : Option Nat
  wchan : Option Nat
  sqqueue : Fin NR_SLEEPQS

structure Queues where
  chain : Nat → List Nat
  object : Nat → SleepQueue
  link : Nat → Link

/-- Where a thread is: outside, with the chain of `wchan` locked, after `sleepq_add`, after
    `sleepq_set_timeout_sbt`, with the chain unlocked for the interlock, or in `sleepq_switch`. -/
inductive Pc where
  | run
  | locked (wchan : Nat)
  | added (wchan : Nat)
  | ready (wchan : Nat)
  | dropped (wchan : Nat)
  | switch1 (wchan : Nat)
  | setState (wchan : Nat)
  | switch2 (wchan : Nat)
  | clear (wchan : Nat) (remove : Bool)
  | switch3 (wchan : Nat) (remove : Bool)
  | timerRemove (wchan : Nat) (remove : Bool)
  | remove (wchan : Nat)
  deriving DecidableEq

structure Thread where
  pc : Pc
  sqState : SqState
  /-- `STATES_WAITING_FOR_BSD_WAKEUP`. -/
  waiting : Bool
  priority : Nat
  sleep : Nat
  /-- The watchdog is on the timer queue, with the sleep it was inserted for. -/
  watchdog : Option Nat
  /-- Insertions taken off the timer queue whose routine did not run yet. -/
  due : List Nat
  /-- Routines about to call `_Thread_Clear_state`. -/
  clears : Nat

/-- Where a waker is: outside, with the chain locked, in the loop of `sleepq_remove_matching`, or
    about to call `_Thread_Clear_state` in `sleepq_remove_thread`. -/
inductive Waker where
  | idle
  | locked (wchan : Nat)
  | broadcast (wchan sq : Nat) (queue : Fin NR_SLEEPQS) (next : Option Nat)
  | clear (td : Nat) (rest : Waker)
  deriving DecidableEq

inductive Holder where
  | thread (t : Nat)
  | waker (k : Nat)

structure State where
  queues : Queues
  thread : Nat → Thread
  waker : Nat → Waker
  /-- `sc_lock`. -/
  lock : Nat → Option Holder
  failed : Bool
  /-- The routines that ran: thread and sleep of the insertion. -/
  fired : List (Nat × Nat)
  /-- The routines that ended a sleep: thread, sleep of the insertion, sleep that was ended. -/
  ended : List (Nat × Nat × Nat)
  /-- The sleeps picked by `sleepq_signal`. -/
  signalled : List (Nat × Nat)
  /-- The results of `sleepq_timedwait`. -/
  returned : List (Nat × Nat × SqState)

section Lists

/-- `sleepq_lookup`. -/
def Queues.lookup (qs : Queues) (w : Nat) : Option Nat :=
  (qs.chain (scHash w)).find? fun o => (qs.object o).wchan == some w

def insertBlocked (priority : Nat → Nat) (t : Nat) : List Nat → List Nat
  | [] => [t]
  | u :: us => if priority t < priority u then t :: u :: us else u :: insertBlocked priority t us

def tailqNext (l : List Nat) (t : Nat) : Option Nat :=
  match l.dropWhile (· != t) with
  | _ :: u :: _ => some u
  | _ => none

def Queues.setObject (qs : Queues) (o : Nat) (sq : SleepQueue) : Queues :=
  { qs with object := update qs.object o sq }

def Queues.setLink (qs : Queues) (t : Nat) (l : Link) : Queues :=
  { qs with link := update qs.link t l }

/-- The thread's sleepqueue object is given to the chain or to the free list. -/
def Queues.give (qs : Queues) (o w : Nat) : Queues × Nat :=
  match qs.lookup w with
  | none =>
    ({ qs.setObject o { qs.object o with wchan := some w } with
        chain := update qs.chain (scHash w) (o :: qs.chain (scHash w)) }, o)
  | some p => (qs.setObject p { qs.object p with free := o :: (qs.object p).free }, p)

def Queues.enqueue (qs : Queues) (priority : Nat → Nat) (t p w : Nat) (q : Fin NR_SLEEPQS) :
    Queues :=
  let sq := qs.object p
  (qs.setObject p { sq with
    blocked := update sq.blocked q (insertBlocked priority t (sq.blocked q))
    blockedcnt := update sq.blockedcnt q (sq.blockedcnt q + 1) }).setLink t ⟨none, some w, q⟩

def Queues.dequeue (qs : Queues) (o t : Nat) : Queues :=
  let sq := qs.object o
  let q := (qs.link t).sqqueue
  qs.setObject o { sq with
    blocked := update sq.blocked q ((sq.blocked q).erase t)
    blockedcnt := update sq.blockedcnt q (sq.blockedcnt q - 1) }

/-- A sleepqueue object is taken from the free list or from the chain. -/
def Queues.take (qs : Queues) (o t : Nat) : Queues :=
  let sq := qs.object o
  match sq.free with
  | [] =>
    let h := scHash (sq.wchan.getD 0)
    { (qs.setObject o { sq with wchan := none }).setLink t ⟨some o, none, (qs.link t).sqqueue⟩ with
      chain := update qs.chain h ((qs.chain h).erase o) }
  | p :: free =>
    (qs.setObject o { sq with free := free }).setLink t ⟨some p, none, (qs.link t).sqqueue⟩

end Lists

def State.setThread (s : State) (t : Nat) (td : Thread) : State :=
  { s with thread := update s.thread t td }

def State.setWaker (s : State) (k : Nat) (p : Waker) : State :=
  { s with waker := update s.waker k p }

def State.setLock (s : State) (w : Nat) (h : Option Holder) : State :=
  { s with lock := update s.lock (scHash w) h }

/-- `BSD_ASSERT`, `MPASS` and `KASSERT`. -/
def State.assert (s : State) (p : Prop) [Decidable p] : State :=
  { s with failed := s.failed || !decide p }

/-- `td_wchan`. -/
def State.wchan (s : State) (t : Nat) : Option Nat := (s.queues.link t).wchan

/-- `_Thread_Clear_state` for `STATES_WAITING_FOR_BSD_WAKEUP`. -/
def clearState (s : State) (t : Nat) : State :=
  s.setThread t { s.thread t with waiting := false }

/-- The assertions of `sleepq_add` about the own sleepqueue object. -/
def SleepQueue.Unused (sq : SleepQueue) : Prop :=
  (∀ q, sq.blocked q = []) ∧ (∀ q, sq.blockedcnt q = 0) ∧ sq.free = [] ∧ sq.wchan = none

instance (sq : SleepQueue) : Decidable sq.Unused :=
  inferInstanceAs (Decidable (_ ∧ _ ∧ _ ∧ _))

def sleepqAdd (s : State) (t w : Nat) (q : Fin NR_SLEEPQS) : State :=
  match (s.queues.link t).sleepqueue with
  | none => s.assert False
  | some o =>
    let s := s.assert (s.queues.lookup w = none → (s.queues.object o).Unused)
    let given := s.queues.give o w
    let td := s.thread t
    { s.setThread t { td with sqState := .tired, sleep := td.sleep + 1 } with
      queues := given.1.enqueue (fun u => (s.thread u).priority) t given.2 w q }

/-- The wait lock section of `sleepq_remove_thread`: the next state and whether to unblock. -/
def SqState.removed : SqState → SqState × Bool
  | .sleeping => (.wakeup, true)
  | .tired | .sleepy | .nightmare => (.wakeup, false)
  | st => (st, false)

/-- `sleepq_remove_thread` up to `_Thread_Clear_state`. -/
def sleepqRemoveThread (s : State) (o t : Nat) : State × Bool :=
  let s := s.assert ((s.queues.object o).wchan ≠ none ∧ s.wchan t = (s.queues.object o).wchan)
  let td := s.thread t
  let s := s.assert (td.sqState ≠ .wakeup)
  ({ s.setThread t { td with sqState := td.sqState.removed.1 } with
      queues := (s.queues.dequeue o t).take o t }, td.sqState.removed.2)

/-- The wait lock section of `sleepq_timeout` for the insertion of the sleep `g`. -/
def sleepqTimeout (s : State) (t g : Nat) : State :=
  let td := s.thread t
  match td.sqState with
  | .sleeping =>
    { s.setThread t { td with sqState := .nightmare, clears := td.clears + 1 } with
      ended := (t, g, td.sleep) :: s.ended }
  | .tired | .sleepy =>
    { s.setThread t { td with sqState := .nightmare } with ended := (t, g, td.sleep) :: s.ended }
  | st => s.assert (st = .wakeup)

/-- The routine of the watchdog runs for the insertion of the sleep `g`. -/
def State.fire (s : State) (t g : Nat) : State :=
  sleepqTimeout { s with fired := (t, g) :: s.fired } t g

/-- The end of `sleepq_timedwait`. -/
def sleepqReturn (s : State) (t : Nat) : State :=
  let td := s.thread t
  { s.setThread t { td with pc := .run } with returned := (t, td.sleep, td.sqState) :: s.returned }

/-- The next step of `sleepq_switch`. -/
def sleepqSwitch (s : State) (t : Nat) : Option State :=
  let td := s.thread t
  match td.pc with
  | .switch1 w =>
    match td.sqState with
    | .tired =>
      some ((s.assert (s.wchan t = some w)).setThread t
        { td with sqState := .sleepy, pc := .setState w })
    | .nightmare =>
      some ((s.assert (s.wchan t = some w)).setThread t
        { td with sqState := .panic, pc := .timerRemove w true })
    | st =>
      some ((s.assert (s.wchan t = none ∧ st = .wakeup)).setThread t
        { td with pc := .timerRemove w false })
  | .setState w => some (s.setThread t { td with waiting := true, pc := .switch2 w })
  | .switch2 w =>
    match td.sqState with
    | .nightmare =>
      some ((s.assert (s.wchan t = some w)).setThread t
        { td with sqState := .panic, pc := .clear w true })
    | .wakeup => some ((s.assert (s.wchan t = none)).setThread t { td with pc := .clear w false })
    | st =>
      some ((s.assert (s.wchan t = some w ∧ st = .sleepy)).setThread t
        { td with sqState := .sleeping, pc := .switch3 w false })
  | .clear w remove => some (s.setThread t { td with waiting := false, pc := .switch3 w remove })
  | .switch3 w remove =>
    if td.waiting then none
    else
      match td.sqState with
      | .nightmare =>
        some ((s.assert (s.wchan t = some w)).setThread t
          { td with sqState := .panic, pc := .timerRemove w true })
      | st =>
        some ((s.assert (st = .wakeup ∨ st = .panic)).setThread t
          { td with pc := .timerRemove w remove })
  | .timerRemove w remove =>
    let s := s.setThread t { td with watchdog := none, pc := .remove w }
    some (if remove then s else sleepqReturn s t)
  | .remove w =>
    if s.lock (scHash w) ≠ none then none
    else if s.wchan t ≠ some w then some (sleepqReturn s t)
    else
      match s.queues.lookup w with
      | none => some (s.assert False)
      | some o =>
        let (s, unblock) := sleepqRemoveThread s o t
        some (sleepqReturn (if unblock then clearState s t else s) t)
  | _ => none

/-- After `sleepq_remove_thread`, the waker clears the state of the thread and goes on. -/
def resume (p : State × Bool) (k t : Nat) (rest : Waker) : State :=
  p.1.setWaker k (if p.2 then .clear t rest else rest)

/-- The next step of `sleepq_remove_thread` or of the loop of `sleepq_remove_matching`. -/
def wakerStep (s : State) (k : Nat) : Option State :=
  match s.waker k with
  | .clear t rest => some ((clearState s t).setWaker k rest)
  | .broadcast w _ _ none => some (s.setWaker k (.locked w))
  | .broadcast w o q (some t) =>
    let tdn := tailqNext ((s.queues.object o).blocked q) t
    some (resume (sleepqRemoveThread s o t) k t (.broadcast w o q tdn))
  | _ => none

inductive Act where
  | setPriority (t p : Nat)
  | lock (t w : Nat)
  | unlock (t : Nat)
  | add (t : Nat) (q : Fin NR_SLEEPQS)
  | setTimeout (t : Nat)
  | drop (t : Nat)
  | relock (t : Nat)
  | wait (t : Nat)
  | switch (t : Nat)
  | wakerLock (k w : Nat)
  | wakerRelease (k : Nat)
  | signal (k : Nat) (q : Fin NR_SLEEPQS)
  | broadcast (k : Nat) (q : Fin NR_SLEEPQS)
  | remove (k t w : Nat)
  | waker (k : Nat)
  | timeout (t : Nat)
  | expire (t : Nat)
  | routine (t g : Nat)
  | timerClear (t : Nat)

def step (s : State) (a : Act) : Option State :=
  match a with
  | .setPriority t p => some (s.setThread t { s.thread t with priority := p })
  | .lock t w =>
    if (s.thread t).pc = .run ∧ s.lock (scHash w) = none then
      some ((s.setLock w (some (.thread t))).setThread t { s.thread t with pc := .locked w })
    else none
  | .unlock t =>
    match (s.thread t).pc with
    | .locked w => some ((s.setLock w none).setThread t { s.thread t with pc := .run })
    | _ => none
  | .add t q =>
    match (s.thread t).pc with
    | .locked w =>
      let s := sleepqAdd s t w q
      some (s.setThread t { s.thread t with pc := .added w })
    | _ => none
  | .setTimeout t =>
    match (s.thread t).pc with
    | .added w =>
      let td := s.thread t
      some ((s.assert (td.watchdog = none)).setThread t
        { td with watchdog := some td.sleep, pc := .ready w })
    | _ => none
  | .drop t =>
    match (s.thread t).pc with
    | .added w | .ready w =>
      some ((s.setLock w none).setThread t { s.thread t with pc := .dropped w })
    | _ => none
  | .relock t =>
    match (s.thread t).pc with
    | .dropped w =>
      if s.lock (scHash w) = none then
        some ((s.setLock w (some (.thread t))).setThread t { s.thread t with pc := .ready w })
      else none
    | _ => none
  | .wait t =>
    match (s.thread t).pc with
    | .added w | .ready w =>
      some ((s.setLock w none).setThread t { s.thread t with pc := .switch1 w })
    | _ => none
  | .switch t => sleepqSwitch s t
  | .wakerLock k w =>
    if s.waker k = .idle ∧ s.lock (scHash w) = none then
      some ((s.setLock w (some (.waker k))).setWaker k (.locked w))
    else none
  | .wakerRelease k =>
    match s.waker k with
    | .locked w => some ((s.setLock w none).setWaker k .idle)
    | _ => none
  | .signal k q =>
    match s.waker k with
    | .locked w =>
      match s.queues.lookup w with
      | none => some s
      | some o =>
        match (s.queues.object o).blocked q with
        | [] => none
        | t :: _ =>
          let s := { s with signalled := (t, (s.thread t).sleep) :: s.signalled }
          some (resume (sleepqRemoveThread s o t) k t (.locked w))
    | _ => none
  | .broadcast k q =>
    match s.waker k with
    | .locked w =>
      match s.queues.lookup w with
      | none => some s
      | some o => some (s.setWaker k (.broadcast w o q ((s.queues.object o).blocked q).head?))
    | _ => none
  | .remove k t w =>
    if s.waker k = .idle ∧ s.lock (scHash w) = none then
      if s.wchan t ≠ some w then some s
      else
        match s.queues.lookup w with
        | none => some (s.assert False)
        | some o =>
          some (resume (sleepqRemoveThread (s.setLock w (some (.waker k))) o t) k t (.locked w))
    else none
  | .waker k => wakerStep s k
  | .timeout t =>
    match (s.thread t).watchdog with
    | none => none
    | some g => some ((s.setThread t { s.thread t with watchdog := none }).fire t g)
  | .expire t =>
    match (s.thread t).watchdog with
    | none => none
    | some g =>
      some (s.setThread t { s.thread t with watchdog := none, due := g :: (s.thread t).due })
  | .routine t g =>
    let td := s.thread t
    if g ∈ td.due then some ((s.setThread t { td with due := td.due.erase g }).fire t g)
    else none
  | .timerClear t =>
    let td := s.thread t
    if td.clears = 0 then none
    else some (clearState (s.setThread t { td with clears := td.clears - 1 }) t)

/-- Each thread owns its sleepqueue object of `sleepq_alloc`. -/
def init : State where
  queues :=
    { chain := fun _ => []
      object := fun _ => ⟨fun _ => [], fun _ => 0, [], none⟩
      link := fun t => ⟨some t, none, 0⟩ }
  thread _ := ⟨.run, .wakeup, false, 0, 0, none, [], 0⟩
  waker _ := .idle
  lock _ := none
  failed := false
  fired := []
  ended := []
  signalled := []
  returned := []

end RtemsLibbsd.Sleepqueue
