import RtemsLibbsd.Transition
import RtemsLibbsd.Mutex
import Mathlib.Data.Finset.Card
import Mathlib.Logic.Function.Basic

/-!
# Mutexes, reader/writer locks and shared/exclusive locks

`rtemsbsd/include/machine/rtems-bsd-muteximpl.h`, `rtemsbsd/rtems/rtems-kernel-muteximpl.c`,
`rtems-kernel-mutex.c`, `rtems-kernel-rwlock.c` and `rtems-kernel-sx.c`, with the names `sys/sx.h` gives to the
functions of the last one.  All locks are the same recursive mutex: an owner, a nest level and a queue of
threads; the owner's resource count says how many of them it has.

What runs under the lock of a thread queue is one step.  Which thread `_Thread_queue_Surrender` takes from the
queue depends on the priorities, so it is part of the action.  A panic, and the fatal error of a deadlock, end
the run.  Nest levels and resource counts are numbers; an overflow of an `int` is undefined in the source.

* `rtemsBsdMutexLock`, `rtemsBsdMutexTrylock`, `rtemsBsdMutexUnlock` — the mutex with its queue; without
  the queue they are the functions of `RtemsLibbsd.Mutex`.
* `Call.op` — what the functions of the three lock classes do with the mutex.
* `Sys.holds` — the ledger: the successful locks of a thread that it did not undo, each for reading or writing.
* `Safe`, `SafeCall` — what has to hold in every state and of every call; `locks_safe` is the result about runs.
-/

namespace RtemsLibbsd.Locks

open Option List Function Transition

variable {ι : Type} [DecidableEq ι]

/-! ## The mutex with its queue -/

/-- The lock classes, and whether the options of `mtx_init` and `sx_init_flags` ask for recursion. -/
inductive Kind where
  | mtx (recurse : Bool)
  | rw
  | sx (recurse : Bool)

/-- `LO_RECURSABLE` of the flags that `mtx_init`, `rw_init_flags` and `sx_init_flags` set. -/
def Kind.recursable : Kind → Bool
  | .mtx recurse => recurse
  | .rw => true
  | .sx recurse => recurse

/-- `struct lock_object` with its `rtems_bsd_mutex`: the owner, the nest level and the threads of the queue. -/
structure LockObject extends Mutex.Mtx where
  kind : Kind
  heads : List Tid

structure Kernel (ι : Type) where
  lock : ι → LockObject
  resourceCount : Tid → Nat

/-- `_Thread_Resource_count_increment`. -/
def Kernel.increment (k : Kernel ι) (t : Tid) : Kernel ι :=
  { k with resourceCount := update k.resourceCount t (k.resourceCount t + 1) }

/-- `_Thread_Resource_count_decrement`. -/
def Kernel.decrement (k : Kernel ι) (t : Tid) : Kernel ι :=
  { k with resourceCount := update k.resourceCount t (k.resourceCount t - 1) }

def Kernel.setLock (k : Kernel ι) (l : ι) (lk : LockObject) : Kernel ι :=
  { k with lock := update k.lock l lk }

/-- `rtems_bsd_mutex_lock_more`: `none` is the panic, the flag says whether the call returns. -/
def rtemsBsdMutexLockMore (k : Kernel ι) (l : ι) (owner executing : Tid) : Option (Kernel ι × Bool) :=
  let lk := k.lock l
  if owner = executing then
    if lk.kind.recursable then some (k.setLock l { lk with nestLevel := lk.nestLevel + 1 }, true)
    else none
  else some (k.setLock l { lk with heads := lk.heads ++ [executing] }, false)

def rtemsBsdMutexLock (k : Kernel ι) (l : ι) (executing : Tid) : Option (Kernel ι × Bool) :=
  match (k.lock l).owner with
  | none => some ((k.setLock l { k.lock l with owner := some executing }).increment executing, true)
  | some owner => rtemsBsdMutexLockMore k l owner executing

/-- `rtems_bsd_mutex_trylock`: `none` is the panic, the flag is the result. -/
def rtemsBsdMutexTrylock (k : Kernel ι) (l : ι) (executing : Tid) : Option (Kernel ι × Bool) :=
  let lk := k.lock l
  match lk.owner with
  | none => some ((k.setLock l { lk with owner := some executing }).increment executing, true)
  | some owner =>
    if owner = executing then
      if lk.kind.recursable then some (k.setLock l { lk with nestLevel := lk.nestLevel + 1 }, true)
      else none
    else some (k, false)

/-- `_Thread_queue_Surrender`: the thread `next` of the queue is the new owner. -/
def threadQueueSurrender (k : Kernel ι) (l : ι) (next : Tid) : Option (Kernel ι) :=
  let lk := k.lock l
  if next ∈ lk.heads then
    some ((k.setLock l { lk with owner := some next, heads := lk.heads.erase next }).increment next)
  else none

/-- `rtems_bsd_mutex_unlock`: `none` is the panic; with the thread that runs again, if there is one. -/
def rtemsBsdMutexUnlock (k : Kernel ι) (l : ι) (executing next : Tid) : Option (Kernel ι × Option Tid) :=
  let lk := k.lock l
  if lk.owner ≠ some executing then none
  else if lk.nestLevel = 0 then
    let k := (k.setLock l { lk with owner := none }).decrement executing
    if lk.heads = [] then some (k, none)
    else (threadQueueSurrender k l next).map fun k => (k, some next)
  else some (k.setLock l { lk with nestLevel := lk.nestLevel - 1 }, none)

/-! ## The functions of the lock classes -/

/-- A thread holds a lock for reading or for writing; a mutex is held for writing. -/
inductive Mode where
  | read | write
  deriving DecidableEq

inductive Op where
  | lock (m : Mode)
  | trylock (m : Mode)
  | unlock (m : Mode)
  | upgrade
  | downgrade

inductive Call where
  | mtxLockFlags | mtxTrylockFlags | mtxUnlockFlags
  | rwWlock | rwTryWlock | rwWunlock | rwRlock | rwTryRlock | rwRunlock | rwTryUpgrade | rwDowngrade
  | sxSlockInt | sxTrySlockInt | sxSunlockInt | sxXlock | sxTryXlock | sxXunlock
  | sxTryUpgradeInt | sxDowngradeInt | sxTryDowngrade

/-- What a function does with the mutex, and what its caller has then. -/
def Call.op : Call → Op
  | .mtxLockFlags | .rwWlock | .sxXlock => .lock .write
  | .mtxTrylockFlags | .rwTryWlock | .sxTryXlock => .trylock .write
  | .mtxUnlockFlags | .rwWunlock | .sxXunlock => .unlock .write
  | .rwRlock | .sxSlockInt => .lock .read
  | .rwTryRlock | .sxTrySlockInt => .trylock .read
  | .rwRunlock | .sxSunlockInt => .unlock .read
  | .rwTryUpgrade | .sxTryUpgradeInt => .upgrade
  | .rwDowngrade | .sxDowngradeInt | .sxTryDowngrade => .downgrade

def Call.isOf : Call → Kind → Bool
  | .mtxLockFlags, .mtx _ | .mtxTrylockFlags, .mtx _ | .mtxUnlockFlags, .mtx _ => true
  | .rwWlock, .rw | .rwTryWlock, .rw | .rwWunlock, .rw | .rwRlock, .rw | .rwTryRlock, .rw | .rwRunlock, .rw
  | .rwTryUpgrade, .rw | .rwDowngrade, .rw => true
  | .sxSlockInt, .sx _ | .sxTrySlockInt, .sx _ | .sxSunlockInt, .sx _ | .sxXlock, .sx _ | .sxTryXlock, .sx _
  | .sxXunlock, .sx _ | .sxTryUpgradeInt, .sx _ | .sxDowngradeInt, .sx _ | .sxTryDowngrade, .sx _ => true
  | _, _ => false

/-! ## Threads -/

/-- The locks, the call in which a thread waits, and the ledger. -/
structure Sys (ι : Type) extends Kernel ι where
  wants : Tid → Option (ι × Mode)
  holds : ι → Tid → List Mode

def Sys.init (kinds : ι → Kind) : Sys ι where
  lock l := { owner := none, nestLevel := 0, kind := kinds l, heads := [] }
  resourceCount _ := 0
  wants _ := none
  holds _ _ := []

def setHolds (holds : ι → Tid → List Mode) (l : ι) (t : Tid) (hs : List Mode) : ι → Tid → List Mode :=
  update holds l (update (holds l) t hs)

/-- One hold less, one for `m` if there is one. -/
def release (m : Mode) (hs : List Mode) : List Mode := if m ∈ hs then hs.erase m else hs.tail

/-- A hold for `m` becomes one for `m'`. -/
def convert (m m' : Mode) (hs : List Mode) : List Mode := if m ∈ hs then m' :: hs.erase m else hs

/-- The call in which `u` waits returns. -/
def Sys.resume (s : Sys ι) (u : Tid) : Sys ι :=
  match s.wants u with
  | none => s
  | some (l, m) =>
    { s with wants := update s.wants u none, holds := setHolds s.holds l u (m :: s.holds l u) }

/-- A call of the thread `t`, with its result; a call that waits has none. -/
def Op.exec (s : Sys ι) (t : Tid) (l : ι) (next : Tid) : Op → Option (Sys ι × Option Bool)
  | .lock m =>
    (rtemsBsdMutexLock s.toKernel l t).map fun (k, returns) =>
      if returns then ({ s with toKernel := k, holds := setHolds s.holds l t (m :: s.holds l t) }, some true)
      else ({ s with toKernel := k, wants := update s.wants t (some (l, m)) }, none)
  | .trylock m =>
    (rtemsBsdMutexTrylock s.toKernel l t).map fun (k, success) =>
      ({ s with toKernel := k, holds := if success then setHolds s.holds l t (m :: s.holds l t) else s.holds },
        some success)
  | .unlock m =>
    (rtemsBsdMutexUnlock s.toKernel l t next).map fun (k, ready) =>
      let s := { s with toKernel := k, holds := setHolds s.holds l t (release m (s.holds l t)) }
      (match ready with
        | none => s
        | some u => s.resume u, some true)
  | .upgrade => some ({ s with holds := setHolds s.holds l t (convert .read .write (s.holds l t)) }, some true)
  | .downgrade => some ({ s with holds := setHolds s.holds l t (convert .write .read (s.holds l t)) }, some true)

structure Action (ι : Type) where
  thread : Tid
  lock : ι
  call : Call
  next : Tid

def exec (s : Sys ι) (a : Action ι) : Option (Sys ι × Option Bool) :=
  if s.wants a.thread = none ∧ a.call.isOf (s.lock a.lock).kind then a.call.op.exec s a.thread a.lock a.next
  else none

def step (s : Sys ι) (a : Action ι) : Option (Sys ι) := (exec s a).map Prod.fst

/-! ## What has to hold -/

/-- A thread's resource count is the number of the locks it owns. -/
def Counts (owner : ι → Option Tid) (count : Tid → Nat) : Prop :=
  ∀ t, ∃ F : Finset ι, (∀ l, l ∈ F ↔ owner l = some t) ∧ F.card = count t

/-- **What has to hold in every state.** -/
structure Safe (s : Sys ι) : Prop where
  /-- The owner is the thread that locked more often than it unlocked. -/
  owner : ∀ l t, (s.lock l).owner = some t ↔ s.holds l t ≠ []
  depth : ∀ l t, (s.lock l).owner = some t → (s.holds l t).length = (s.lock l).nestLevel + 1
  single : ∀ l t u, s.holds l t ≠ [] → s.holds l u ≠ [] → t = u
  exclusive : ∀ l t u, .write ∈ s.holds l t → t ≠ u → s.holds l u = []
  count : Counts (fun l => (s.lock l).owner) s.resourceCount
  /-- The queue of a lock are the threads that wait for it, each of them once. -/
  queue : ∀ l t, t ∈ (s.lock l).heads ↔ ∃ m, s.wants t = some (l, m)
  nodup : ∀ l, (s.lock l).heads.Nodup
  waits : ∀ l t m, s.wants t = some (l, m) → ∃ u ≠ t, (s.lock l).owner = some u

/-- **What has to hold of every call.** -/
structure SafeCall (s : Sys ι) (a : Action ι) (s' : Sys ι) (result : Option Bool) : Prop where
  keeps : ∀ l t, (s.lock l).owner = some t → (s'.lock l).owner = some t ∨
    (a.thread = t ∧ a.lock = l ∧ (∃ m, a.call.op = .unlock m) ∧ (s.holds l t).length = 1)
  /-- If a thread waits for the lock, the last unlock gives it to exactly one such thread, with nest level zero. -/
  handover : ∀ m, a.call.op = .unlock m → (s.holds a.lock a.thread).length = 1 →
    (∃ t m', s.wants t = some (a.lock, m')) →
    ∃ u m', s.wants u = some (a.lock, m') ∧
      (s'.lock a.lock).owner = some u ∧ (s'.lock a.lock).nestLevel = 0 ∧
      (s'.lock a.lock).heads = (s.lock a.lock).heads.erase u ∧
      s'.wants = update s.wants u none ∧ s'.holds a.lock u = [m']
  failed : ∀ m, a.call.op = .trylock m → result = some false → s' = s
  upgraded : a.call.op = .upgrade → result = some true

/-! ## Resource counts -/

variable {count : Tid → Nat}

theorem Counts.acquire {owner : ι → Option Tid} (h : Counts owner count)
    (hfree : owner l = none) (t : Tid) :
    Counts (update owner l (some t)) (update count t (count t + 1)) := by
  intro u
  obtain ⟨F, hF, hcard⟩ := h u
  have hl : l ∉ F := by
    rw [hF, hfree]
    exact nofun
  by_cases hu : u = t
  · subst hu
    refine ⟨insert l F, fun l' => ?_, by simp [Finset.card_insert_of_notMem hl, hcard]⟩
    by_cases hl' : l' = l
    · simp [hl']
    · simp [hl', hF]
  · grind

theorem Counts.release {owner : ι → Option Tid} (h : Counts owner count)
    (howner : owner l = some t) :
    Counts (update owner l none) (update count t (count t - 1)) := by
  intro u
  obtain ⟨F, hF, hcard⟩ := h u
  by_cases hu : u = t
  · subst hu
    refine ⟨F.erase l, fun l' => ?_, by simp [Finset.card_erase_of_mem ((hF l).mpr howner), hcard]⟩
    by_cases hl' : l' = l
    · simp [hl']
    · simp [hl', hF]
  · grind

/-! ## The ledger -/

theorem length_release (m : Mode) (hs : List Mode) : (release m hs).length = hs.length - 1 := by
  unfold release
  split
  · exact length_erase_of_mem ‹_›
  · exact length_tail

theorem length_convert (m m' : Mode) (hs : List Mode) : (convert m m' hs).length = hs.length := by
  unfold convert
  split
  · rename_i hm
    have := length_pos_of_mem hm
    rw [length_cons, length_erase_of_mem hm]
    omega
  · rfl

variable {holds : ι → Tid → List Mode}

theorem setHolds_ne {l l' : ι} (h : l' ≠ l) (t : Tid) (hs : List Mode) :
    setHolds holds l t hs l' = holds l' := update_of_ne h _ _

theorem setHolds_self (holds : ι → Tid → List Mode) (l : ι) (t : Tid) (hs : List Mode) :
    setHolds holds l t hs l t = hs := by
  simp [setHolds]

theorem setHolds_other {t u : Tid} (h : u ≠ t) (l : ι) (hs : List Mode) :
    setHolds holds l t hs l u = holds l u := by
  simp [setHolds, update_of_ne h]

theorem length_acquire (holds : ι → Tid → List Mode) (l : ι) (t : Tid) (m : Mode) :
    (fun u => (setHolds holds l t (m :: holds l t) l u).length) =
      Mutex.bump (fun u => (holds l u).length) t := by
  grind [setHolds_self, Mutex.bump, setHolds_other]

theorem length_unlock (holds : ι → Tid → List Mode) (l : ι) (t : Tid) (m : Mode) :
    (fun u => (setHolds holds l t (Locks.release m (holds l t)) l u).length) =
      Mutex.unbump (fun u => (holds l u).length) t := by
  grind [setHolds_self, Mutex.unbump, length_release, setHolds_other]

theorem length_setHolds_eq {hs : List Mode} (h : hs.length = (holds l t).length) :
    (fun u => (setHolds holds l t hs l u).length) = fun u => (holds l u).length := by
  funext u
  by_cases hu : u = t
  · subst hu
    simp [setHolds_self, h]
  · simp [setHolds_other hu]

/-! ## What a call does -/

inductive Moves (s : Sys ι) (t : Tid) (l : ι) : Op → Sys ι → Option Bool → Prop
  | acquire {op : Op} {m : Mode} (hop : op = .lock m ∨ op = .trylock m) (hfree : (s.lock l).owner = none) :
    Moves s t l op
      { s with
        toKernel := (s.toKernel.setLock l { s.lock l with owner := some t }).increment t
        holds := setHolds s.holds l t (m :: s.holds l t) } (some true)
  | recurse {op : Op} {m : Mode} (hop : op = .lock m ∨ op = .trylock m) (howner : (s.lock l).owner = some t)
    (hrec : (s.lock l).kind.recursable) :
    Moves s t l op
      { s with
        toKernel := s.toKernel.setLock l { s.lock l with nestLevel := (s.lock l).nestLevel + 1 }
        holds := setHolds s.holds l t (m :: s.holds l t) } (some true)
  | enqueue {m : Mode} {owner : Tid} (howner : (s.lock l).owner = some owner) (hne : owner ≠ t) :
    Moves s t l (.lock m)
      { s with
        toKernel := s.toKernel.setLock l { s.lock l with heads := (s.lock l).heads ++ [t] }
        wants := update s.wants t (some (l, m)) } none
  | fail {m : Mode} : Moves s t l (.trylock m) s (some false)
  | unnest {m : Mode} (howner : (s.lock l).owner = some t) (hnest : (s.lock l).nestLevel ≠ 0) :
    Moves s t l (.unlock m)
      { s with
        toKernel := s.toKernel.setLock l { s.lock l with nestLevel := (s.lock l).nestLevel - 1 }
        holds := setHolds s.holds l t (release m (s.holds l t)) } (some true)
  | unlock {m : Mode} (howner : (s.lock l).owner = some t) (hnest : (s.lock l).nestLevel = 0)
    (hheads : (s.lock l).heads = []) :
    Moves s t l (.unlock m)
      { s with
        toKernel := (s.toKernel.setLock l { s.lock l with owner := none }).decrement t
        holds := setHolds s.holds l t (release m (s.holds l t)) } (some true)
  | surrender {m : Mode} {next : Tid} (howner : (s.lock l).owner = some t) (hnest : (s.lock l).nestLevel = 0)
    (hnext : next ∈ (s.lock l).heads) :
    Moves s t l (.unlock m)
      (Sys.resume
        { s with
          toKernel := ((((s.toKernel.setLock l { s.lock l with owner := none }).decrement t).setLock l
            { s.lock l with owner := some next, heads := (s.lock l).heads.erase next }).increment next)
          holds := setHolds s.holds l t (release m (s.holds l t)) } next) (some true)
  | convert {op : Op} {m m' : Mode} (hop : op = .upgrade ∨ op = .downgrade) :
    Moves s t l op { s with holds := setHolds s.holds l t (Locks.convert m m' (s.holds l t)) } (some true)

variable {result : Option Bool}

theorem moves_of_exec {s s' : Sys ι} {t next : Tid} {l : ι} {op : Op}
    (h : op.exec s t l next = some (s', result)) : Moves s t l op s' result := by
  cases op with
  | lock m =>
    obtain ⟨⟨k, returns⟩, hk, h⟩ := map_eq_some_iff.mp h
    unfold rtemsBsdMutexLock at hk
    split at hk
    · cases hk
      cases h
      exact .acquire (.inl rfl) ‹_›
    · rename_i owner howner
      unfold rtemsBsdMutexLockMore at hk
      split at hk
      · rename_i he
        subst he
        obtain ⟨hrec, ⟨⟩⟩ := ite_none_right_eq_some.mp hk
        cases h
        exact .recurse (.inl rfl) howner hrec
      · cases hk
        cases h
        exact .enqueue howner ‹_›
  | trylock m =>
    obtain ⟨⟨k, success⟩, hk, h⟩ := map_eq_some_iff.mp h
    unfold rtemsBsdMutexTrylock at hk
    dsimp only at hk
    split at hk
    · cases hk
      cases h
      exact .acquire (.inr rfl) ‹_›
    · rename_i owner howner
      split at hk
      · rename_i he
        subst he
        obtain ⟨hrec, ⟨⟩⟩ := ite_none_right_eq_some.mp hk
        cases h
        exact .recurse (.inr rfl) howner hrec
      · cases hk
        cases h
        exact .fail
  | unlock m =>
    obtain ⟨⟨k, ready⟩, hk, h⟩ := map_eq_some_iff.mp h
    unfold rtemsBsdMutexUnlock at hk
    dsimp only at hk
    split at hk
    · cases hk
    · rename_i howner
      rw [not_not] at howner
      split at hk
      · rename_i hnest
        split at hk
        · cases hk
          cases h
          exact .unlock howner hnest ‹_›
        · obtain ⟨k', hk', hk⟩ := map_eq_some_iff.mp hk
          have hlk : ((s.toKernel.setLock l { s.lock l with owner := none }).decrement t).lock l =
              { s.lock l with owner := none } := update_self _ _ _
          unfold threadQueueSurrender at hk'
          rw [hlk] at hk'
          obtain ⟨hnext, ⟨⟩⟩ := ite_none_right_eq_some.mp hk'
          cases hk
          cases h
          exact .surrender howner hnest hnext
      · cases hk
        cases h
        exact .unnest howner ‹_›
  | upgrade =>
    cases h
    exact .convert (.inl rfl)
  | downgrade =>
    cases h
    exact .convert (.inr rfl)

/-! ## The invariant -/

/-- One lock: its mutex agrees with the ledger, its queue are the threads that wait for it, and another thread
    is the owner then. -/
structure LockInv (lk : LockObject) (l : ι) (wants : Tid → Option (ι × Mode)) (holds : Tid → List Mode) :
    Prop where
  agrees : Mutex.Agrees lk.toMtx fun t => (holds t).length
  waiting : ∀ t, t ∈ lk.heads ↔ ∃ m, wants t = some (l, m)
  nodup : lk.heads.Nodup
  other : ∀ t ∈ lk.heads, ∃ u ≠ t, lk.owner = some u

structure Inv (s : Sys ι) : Prop where
  locks : ∀ l, LockInv (s.lock l) l s.wants (s.holds l)
  count : Counts (fun l => (s.lock l).owner) s.resourceCount

omit [DecidableEq ι] in
theorem inv_init (kinds : ι → Kind) : Inv (Sys.init kinds) where
  locks := fun _ => ⟨Mutex.Agrees.init, by simp [Sys.init], nodup_nil, by simp [Sys.init]⟩
  count := fun _ => ⟨∅, by simp [Sys.init], rfl⟩

theorem inv_of_lock (h : Inv s) (l : ι) (hlock : ∀ l' ≠ l, s'.lock l' = s.lock l')
    (hholds : ∀ l' ≠ l, s'.holds l' = s.holds l')
    (hwants : ∀ l' t m, l' ≠ l → (s'.wants t = some (l', m) ↔ s.wants t = some (l', m)))
    (hl : LockInv (s'.lock l) l s'.wants (s'.holds l))
    (hcount : Counts (fun l => (s'.lock l).owner) s'.resourceCount) : Inv s' := by
  refine ⟨fun l' => ?_, hcount⟩
  by_cases hl' : l' = l
  · subst hl'
    exact hl
  · obtain ⟨hagrees, hwaiting, hnodup, hother⟩ := h.locks l'
    rw [hlock l' hl', hholds l' hl']
    refine ⟨hagrees, fun t => ?_, hnodup, hother⟩
    simp only [hwaiting, hwants l' t _ hl']

theorem owner_setLock (k : Kernel ι) (l : ι) (lk : LockObject) :
    (fun l' => ((k.setLock l lk).lock l').owner) =
      update (fun l' => (k.lock l').owner) l lk.owner := by
  funext l'
  by_cases hl : l' = l
  · subst hl
    simp [Kernel.setLock]
  · simp [Kernel.setLock, hl]

variable {lk : LockObject} {k : Kernel ι}

theorem Counts.setLock (h : Counts (fun l => (k.lock l).owner) count) (howner : lk.owner = (k.lock l).owner) :
    Counts (fun l' => ((k.setLock l lk).lock l').owner) count := by
  rw [owner_setLock, howner, update_eq_self]
  exact h

theorem Counts.increment (h : Counts (fun l => (k.lock l).owner) k.resourceCount)
    (hfree : (k.lock l).owner = none) (howner : lk.owner = some t) :
    Counts (fun l' => (((k.setLock l lk).increment t).lock l').owner)
      ((k.setLock l lk).increment t).resourceCount := by
  have := h.acquire hfree t
  rw [← howner, ← owner_setLock k l lk] at this
  exact this

theorem Counts.decrement (h : Counts (fun l => (k.lock l).owner) k.resourceCount)
    (howner : (k.lock l).owner = some t) (hfree : lk.owner = none) :
    Counts (fun l' => (((k.setLock l lk).decrement t).lock l').owner)
      ((k.setLock l lk).decrement t).resourceCount := by
  have := h.release howner
  rw [← hfree, ← owner_setLock k l lk] at this
  exact this

theorem setLock_self (k : Kernel ι) (l : ι) (lk : LockObject) : (k.setLock l lk).lock l = lk :=
  update_self _ _ _

theorem setLock_ne {l l' : ι} (k : Kernel ι) (lk : LockObject) (h : l' ≠ l) :
    (k.setLock l lk).lock l' = k.lock l' := update_of_ne h _ _

variable {s s' : Sys ι} {t : Tid} {l : ι}

omit [DecidableEq ι] in
theorem Inv.heads_of_free (h : Inv s) (hfree : (s.lock l).owner = none) : (s.lock l).heads = [] := by
  apply eq_nil_iff_forall_not_mem.mpr
  intro u hu
  obtain ⟨v, -, hv⟩ := (h.locks l).other u hu
  rw [hfree] at hv
  cases hv

theorem Inv.acquire (h : Inv s) (hfree : (s.lock l).owner = none) (m : Mode) :
    Inv { s with
      toKernel := (s.toKernel.setLock l { s.lock l with owner := some t }).increment t
      holds := setHolds s.holds l t (m :: s.holds l t) } := by
  have hl := h.locks l
  have hlock : Mutex.rtemsBsdMutexLock true (s.lock l).toMtx t = .ok { (s.lock l).toMtx with owner := some t } := by
    unfold Mutex.rtemsBsdMutexLock
    rw [hfree]
  refine inv_of_lock h l (fun l' hl' => setLock_ne _ _ hl') (fun l' hl' => setHolds_ne hl' _ _)
    (fun _ _ _ _ => Iff.rfl) ?_ ?_
  · refine (setLock_self s.toKernel l _).symm ▸ ⟨?_, hl.waiting, hl.nodup, ?_⟩
    · rw [length_acquire]
      exact (hl.agrees.of_lock hlock).1
    · intro u hu
      rw [h.heads_of_free hfree] at hu
      cases hu
  · exact h.count.increment hfree rfl

theorem Inv.recurse (h : Inv s) (howner : (s.lock l).owner = some t) (m : Mode) :
    Inv { s with
      toKernel := s.toKernel.setLock l { s.lock l with nestLevel := (s.lock l).nestLevel + 1 }
      holds := setHolds s.holds l t (m :: s.holds l t) } := by
  have hl := h.locks l
  have hlock : Mutex.rtemsBsdMutexLock true (s.lock l).toMtx t =
      .ok { (s.lock l).toMtx with nestLevel := (s.lock l).nestLevel + 1 } := by
    simp [Mutex.rtemsBsdMutexLock, howner]
  refine inv_of_lock h l (fun l' hl' => setLock_ne _ _ hl') (fun l' hl' => setHolds_ne hl' _ _)
    (fun _ _ _ _ => Iff.rfl) ?_ ?_
  · refine (setLock_self s.toKernel l _).symm ▸ ⟨?_, hl.waiting, hl.nodup, hl.other⟩
    rw [length_acquire]
    exact (hl.agrees.of_lock hlock).1
  · exact h.count.setLock rfl

theorem Inv.enqueue {owner : Tid} (h : Inv s) (hwants : s.wants t = none)
    (howner : (s.lock l).owner = some owner) (hne : owner ≠ t) (m : Mode) :
    Inv { s with
      toKernel := s.toKernel.setLock l { s.lock l with heads := (s.lock l).heads ++ [t] }
      wants := update s.wants t (some (l, m)) } := by
  have hl := h.locks l
  have hnot : t ∉ (s.lock l).heads := by
    intro ht
    obtain ⟨m', hm'⟩ := (hl.waiting t).mp ht
    rw [hwants] at hm'
    cases hm'
  refine inv_of_lock h l (fun l' hl' => setLock_ne _ _ hl') (fun _ _ => rfl) ?_ ?_ (h.count.setLock rfl)
  · intro l' u m' hl'
    by_cases hu : u = t
    · subst hu
      simp [hwants, Ne.symm hl']
    · simp [hu]
  · refine (setLock_self s.toKernel l _).symm ▸ ⟨hl.agrees, fun u => ?_, ?_, ?_⟩
    · by_cases hu : u = t
      · subst hu
        simp
      · simp [hu, hl.waiting]
    · grind [hl.nodup]
    · intro u hu
      grind [hl.other]

theorem Inv.unnest (h : Inv s) (howner : (s.lock l).owner = some t) (hnest : (s.lock l).nestLevel ≠ 0)
    (m : Mode) :
    Inv { s with
      toKernel := s.toKernel.setLock l { s.lock l with nestLevel := (s.lock l).nestLevel - 1 }
      holds := setHolds s.holds l t (release m (s.holds l t)) } := by
  have hl := h.locks l
  have hunlock : Mutex.rtemsBsdMutexUnlock (s.lock l).toMtx t =
      .ok { (s.lock l).toMtx with nestLevel := (s.lock l).nestLevel - 1 } := by
    simp [Mutex.rtemsBsdMutexUnlock, howner, hnest]
  refine inv_of_lock h l (fun l' hl' => setLock_ne _ _ hl') (fun l' hl' => setHolds_ne hl' _ _)
    (fun _ _ _ _ => Iff.rfl) ?_ (h.count.setLock rfl)
  refine (setLock_self s.toKernel l _).symm ▸ ⟨?_, hl.waiting, hl.nodup, hl.other⟩
  rw [length_unlock]
  exact (hl.agrees.of_unlock hunlock).1

theorem LockInv.released {wants : Tid → Option (ι × Mode)}
    (h : LockInv lk l wants (holds l)) (howner : lk.owner = some t) (hnest : lk.nestLevel = 0) (m : Mode) :
    Mutex.Agrees { lk.toMtx with owner := none }
      fun u => (setHolds holds l t (release m (holds l t)) l u).length := by
  have hunlock : Mutex.rtemsBsdMutexUnlock lk.toMtx t = .ok { lk.toMtx with owner := none } := by
    simp [Mutex.rtemsBsdMutexUnlock, howner, hnest]
  rw [length_unlock]
  exact (h.agrees.of_unlock hunlock).1

theorem Inv.unlock (h : Inv s) (howner : (s.lock l).owner = some t) (hnest : (s.lock l).nestLevel = 0)
    (hheads : (s.lock l).heads = []) (m : Mode) :
    Inv { s with
      toKernel := (s.toKernel.setLock l { s.lock l with owner := none }).decrement t
      holds := setHolds s.holds l t (release m (s.holds l t)) } := by
  have hl := h.locks l
  refine inv_of_lock h l (fun l' hl' => setLock_ne _ _ hl') (fun l' hl' => setHolds_ne hl' _ _)
    (fun _ _ _ _ => Iff.rfl) ?_ ?_
  · refine (setLock_self s.toKernel l _).symm ▸ ⟨hl.released howner hnest m, hl.waiting, hl.nodup, ?_⟩
    intro u hu
    rw [hheads] at hu
    cases hu
  · exact h.count.decrement howner rfl

/-- The state after the lock was given to the thread `next`, which waited for it with `m'`. -/
def Sys.surrendered (s : Sys ι) (t : Tid) (l : ι) (m : Mode) (next : Tid) (m' : Mode) : Sys ι :=
  { s with
    toKernel := (((s.toKernel.setLock l { s.lock l with owner := none }).decrement t).setLock l
      { s.lock l with owner := some next, heads := (s.lock l).heads.erase next }).increment next
    wants := update s.wants next none
    holds := setHolds (setHolds s.holds l t (release m (s.holds l t))) l next
      (m' :: setHolds s.holds l t (release m (s.holds l t)) l next) }

theorem Inv.surrender {next : Tid} {m m' : Mode} (h : Inv s) (howner : (s.lock l).owner = some t)
    (hnest : (s.lock l).nestLevel = 0) (hnext : next ∈ (s.lock l).heads)
    (hwants : s.wants next = some (l, m')) : Inv (s.surrendered t l m next m') := by
  have hl := h.locks l
  have hlock : Mutex.rtemsBsdMutexLock true { (s.lock l).toMtx with owner := none } next =
      .ok { (s.lock l).toMtx with owner := some next } := rfl
  refine inv_of_lock h l (fun l' hl' => ?_) (fun l' hl' => ?_) ?_ ?_ ?_
  · exact (setLock_ne _ _ hl').trans (setLock_ne _ _ hl')
  · exact (setHolds_ne hl' _ _).trans (setHolds_ne hl' _ _)
  · intro l' u m'' hl'
    by_cases hu : u = next
    · subst hu
      simp [Sys.surrendered, hwants, Ne.symm hl']
    · simp [Sys.surrendered, hu]
  · refine (setLock_self _ l _).symm ▸ ⟨?_, fun u => ?_, hl.nodup.erase next, ?_⟩
    · rw [Sys.surrendered, length_acquire]
      exact ((hl.released howner hnest m).of_lock hlock).1
    · by_cases hu : u = next
      · subst hu
        simp [Sys.surrendered, hl.nodup.mem_erase_iff]
      · simp [Sys.surrendered, hu, hl.nodup.mem_erase_iff, hl.waiting]
    · intro u hu
      exact ⟨next, fun he => hl.nodup.not_mem_erase (he ▸ hu), rfl⟩
  · have hfree := @Counts.decrement ι _ { s.lock l with owner := none } s.toKernel l t h.count howner rfl
    refine hfree.increment ?_ rfl
    rw [Kernel.decrement, setLock_self]

theorem Inv.convert (h : Inv s) (m m' : Mode) :
    Inv { s with holds := setHolds s.holds l t (Locks.convert m m' (s.holds l t)) } := by
  have hl := h.locks l
  refine inv_of_lock h l (fun _ _ => rfl) (fun l' hl' => setHolds_ne hl' _ _) (fun _ _ _ _ => Iff.rfl) ?_ h.count
  refine ⟨?_, hl.waiting, hl.nodup, hl.other⟩
  rw [length_setHolds_eq (length_convert m m' _)]
  exact hl.agrees

theorem resume_eq {next : Tid} {m m' : Mode} (hwants : s.wants next = some (l, m')) :
    Sys.resume
      { s with
        toKernel := ((((s.toKernel.setLock l { s.lock l with owner := none }).decrement t).setLock l
          { s.lock l with owner := some next, heads := (s.lock l).heads.erase next }).increment next)
        holds := setHolds s.holds l t (release m (s.holds l t)) } next = s.surrendered t l m next m' := by
  unfold Sys.resume
  simp only [hwants]
  rfl

theorem inv_moves {op : Op} (h : Inv s) (hwants : s.wants t = none)
    (hm : Moves s t l op s' result) : Inv s' := by
  cases hm with
  | acquire _ hfree => exact h.acquire hfree _
  | recurse _ howner _ => exact h.recurse howner _
  | enqueue howner hne => exact h.enqueue hwants howner hne _
  | fail => exact h
  | unnest howner hnest => exact h.unnest howner hnest _
  | unlock howner hnest hheads => exact h.unlock howner hnest hheads _
  | surrender howner hnest hnext =>
    obtain ⟨m', hm'⟩ := ((h.locks l).waiting _).mp hnext
    rw [resume_eq hm']
    exact h.surrender howner hnest hnext hm'
  | convert _ => exact h.convert _ _

variable {a : Action ι}

theorem moves_of_call (h : exec s a = some (s', result)) :
    s.wants a.thread = none ∧ Moves s a.thread a.lock a.call.op s' result := by
  obtain ⟨⟨hwants, -⟩, h⟩ := ite_none_right_eq_some.mp h
  exact ⟨hwants, moves_of_exec h⟩

theorem inv_step (h : Inv s) (hs : step s a = some s') : Inv s' := by
  obtain ⟨⟨u, result⟩, hcall, hu⟩ := map_eq_some_iff.mp hs
  cases hu
  obtain ⟨hwants, hm⟩ := moves_of_call hcall
  exact inv_moves h hwants hm

/-! ## Runs -/

omit [DecidableEq ι] in
theorem Inv.owner_iff (h : Inv s) (l : ι) (t : Tid) : (s.lock l).owner = some t ↔ s.holds l t ≠ [] := by
  rw [(h.locks l).agrees.owner t]
  exact length_pos_iff

omit [DecidableEq ι] in
theorem Inv.single (h : Inv s) {u : Tid} (ht : s.holds l t ≠ []) (hu : s.holds l u ≠ []) : t = u := by
  have ht := (h.owner_iff l t).mpr ht
  have hu := (h.owner_iff l u).mpr hu
  rw [ht] at hu
  exact some.inj hu

omit [DecidableEq ι] in
theorem Inv.nestLevel (h : Inv s) (howner : (s.lock l).owner = some t) :
    (s.holds l t).length = (s.lock l).nestLevel + 1 := (h.locks l).agrees.depth t howner

omit [DecidableEq ι] in
theorem Inv.safe (h : Inv s) : Safe s where
  owner := h.owner_iff
  depth := fun _ _ => h.nestLevel
  single := fun _ _ _ => h.single
  exclusive := by
    intro l t u hw hne
    by_contra hu
    exact hne (h.single (ne_nil_of_mem hw) hu)
  count := h.count
  queue := fun l => (h.locks l).waiting
  nodup := fun l => (h.locks l).nodup
  waits := fun l t m ht => (h.locks l).other t (((h.locks l).waiting t).mpr ⟨m, ht⟩)

theorem lock_of_ne {op : Op} {l' : ι} (h : Inv s) (hm : Moves s t l op s' result)
    (hl : l' ≠ l) : s'.lock l' = s.lock l' := by
  cases hm with
  | acquire _ _ => exact setLock_ne _ _ hl
  | recurse _ _ _ => exact setLock_ne _ _ hl
  | enqueue _ _ => exact setLock_ne _ _ hl
  | fail => rfl
  | unnest _ _ => exact setLock_ne _ _ hl
  | unlock _ _ _ => exact setLock_ne _ _ hl
  | surrender _ _ hnext =>
    obtain ⟨m', hm'⟩ := ((h.locks l).waiting _).mp hnext
    rw [resume_eq hm']
    exact (setLock_ne _ _ hl).trans (setLock_ne _ _ hl)
  | convert _ => rfl

theorem owner_of_moves {op : Op} {u : Tid} (h : Inv s) (hm : Moves s t l op s' result)
    (hu : (s.lock l).owner = some u) :
    (s'.lock l).owner = some u ∨ (t = u ∧ (∃ m, op = .unlock m) ∧ (s.holds l u).length = 1) := by
  have hlast : (s.lock l).owner = some t → (s.lock l).nestLevel = 0 → t = u ∧ (s.holds l u).length = 1 := by
    intro howner hnest
    rw [howner] at hu
    cases hu
    rw [h.nestLevel howner, hnest]
    exact ⟨rfl, rfl⟩
  cases hm with
  | acquire _ hfree =>
    rw [hfree] at hu
    cases hu
  | recurse _ _ _ =>
    refine .inl ?_
    rw [setLock_self]
    exact hu
  | enqueue _ _ =>
    refine .inl ?_
    rw [setLock_self]
    exact hu
  | fail => exact .inl hu
  | unnest _ _ =>
    refine .inl ?_
    rw [setLock_self]
    exact hu
  | unlock howner hnest _ =>
    obtain ⟨ht, hlen⟩ := hlast howner hnest
    exact .inr ⟨ht, ⟨_, rfl⟩, hlen⟩
  | surrender howner hnest _ =>
    obtain ⟨ht, hlen⟩ := hlast howner hnest
    exact .inr ⟨ht, ⟨_, rfl⟩, hlen⟩
  | convert _ => exact .inl hu

theorem handover_of_moves {m : Mode} (h : Inv s) (hm : Moves s t l (.unlock m) s' result)
    (hlen : (s.holds l t).length = 1) (hheads : (s.lock l).heads ≠ []) :
    ∃ u m', s' = s.surrendered t l m u m' ∧ s.wants u = some (l, m') ∧ u ≠ t := by
  cases hm with
  | unnest howner hnest =>
    have := h.nestLevel howner
    omega
  | unlock _ _ hnone => exact absurd hnone hheads
  | surrender howner _ hnext =>
    obtain ⟨m', hm'⟩ := ((h.locks l).waiting _).mp hnext
    obtain ⟨v, hv, hown⟩ := (h.locks l).other _ hnext
    rw [howner] at hown
    cases hown
    exact ⟨_, m', resume_eq hm', hm', hv.symm⟩
  | acquire hop _ => rcases hop with hop | hop <;> cases hop
  | recurse hop _ _ => rcases hop with hop | hop <;> cases hop
  | convert hop => rcases hop with hop | hop <;> cases hop

theorem Inv.safeCall (h : Inv s) (hcall : exec s a = some (s', result)) :
    SafeCall s a s' result := by
  obtain ⟨hwants, hm⟩ := moves_of_call hcall
  refine ⟨?_, ?_, ?_, ?_⟩
  · intro l t hown
    by_cases hl : l = a.lock
    · subst hl
      rcases owner_of_moves h hm hown with hkeep | ⟨ht, hop, hlen⟩
      · exact .inl hkeep
      · exact .inr ⟨ht, rfl, hop, hlen⟩
    · rw [lock_of_ne h hm hl]
      exact .inl hown
  · rintro m hop hlen ⟨t, n, ht⟩
    have hheads := ne_nil_of_mem (((h.locks a.lock).waiting t).mpr ⟨n, ht⟩)
    rw [hop] at hm
    obtain ⟨u, m', rfl, hm', hne⟩ := handover_of_moves h hm hlen hheads
    have hown : (s.lock a.lock).owner = some a.thread := by
      rw [h.owner_iff]
      exact ne_nil_of_length_pos (by omega)
    have hnest := h.nestLevel hown
    have hempty : s.holds a.lock u = [] := by
      by_contra hu'
      have := (h.owner_iff a.lock u).mpr hu'
      rw [hown] at this
      exact hne (some.inj this).symm
    refine ⟨u, m', hm', ?_⟩
    simp only [Sys.surrendered, Kernel.increment, setLock_self, setHolds_self, setHolds_other hne, hempty]
    refine ⟨trivial, by omega, trivial, trivial, trivial⟩
  · intro m hop hresult
    rw [hop] at hm
    subst hresult
    cases hm with
    | fail => rfl
  · intro hop
    rw [hop] at hm
    cases hm with
    | acquire hop _ => rcases hop with hop | hop <;> cases hop
    | recurse hop _ _ => rcases hop with hop | hop <;> cases hop
    | convert _ => rfl

/-- **The emulated locks are safe**: in every run of any threads with any locks, a lock has one owner, which is
    the thread that locked it more often than it unlocked it and which keeps it up to its last unlock; the resource
    counts are right, and a writer is alone. -/
theorem locks_safe (kinds : ι → Kind) (as : List (Action ι)) (s : Sys ι)
    (h : run step (Sys.init kinds) as = some s) :
    Safe s ∧ ∀ a s' result, exec s a = some (s', result) → SafeCall s a s' result := by
  have hinv : Inv s := run_invariant (fun _ _ _ => inv_step) as _ s (inv_init kinds) h
  exact ⟨hinv.safe, fun _ _ _ hcall => hinv.safeCall hcall⟩

/-- A reader upgrades; another one fails to get the lock, and then waits for it. -/
def upgradeRun : List (Action Nat) :=
  [⟨1, 0, .rwRlock, 0⟩, ⟨1, 0, .rwTryUpgrade, 0⟩, ⟨2, 0, .rwTryRlock, 0⟩, ⟨2, 0, .rwRlock, 0⟩]

/-- The unlock of the writer gives the lock to the reader that waits. -/
theorem locks_safe_upgradeRun : ∃ s s', run step (Sys.init fun _ : Nat => Kind.rw) upgradeRun = some s ∧
    s.holds 0 1 = [.write] ∧ s.wants 2 = some (0, .read) ∧
    exec s ⟨1, 0, .rwWunlock, 2⟩ = some (s', some true) ∧ s'.holds 0 1 = [] ∧ s'.holds 0 2 = [.read] ∧
    s'.wants 2 = none ∧ Safe s ∧ SafeCall s ⟨1, 0, .rwWunlock, 2⟩ s' (some true) := by
  have hsafe := locks_safe (fun _ => Kind.rw) upgradeRun _ rfl
  exact ⟨_, _, rfl, rfl, rfl, rfl, rfl, rfl, rfl, hsafe.1, hsafe.2 _ _ _ rfl⟩

end RtemsLibbsd.Locks
