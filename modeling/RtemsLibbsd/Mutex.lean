import Mathlib.Logic.Basic

/-!
# The RTEMS BSD mutex

Model of `rtems_bsd_mutex_lock` (with `rtems_bsd_mutex_lock_more`), `rtems_bsd_mutex_trylock`,
`rtems_bsd_mutex_unlock` and `rtems_bsd_mutex_owned` of
`rtemsbsd/include/machine/rtems-bsd-muteximpl.h` and `rtemsbsd/rtems/rtems-kernel-muteximpl.c`.
Each runs under the lock of its thread queue, so one call is one step.

A call that would enqueue the thread returns `Outcome.wait`: it has no effect yet and takes
effect once the mutex allows it.  A panic is a value of its own and never a state.
-/

namespace RtemsLibbsd

abbrev Tid := Nat

/-- What a call does: it returns, it has to wait, or it panics. -/
inductive Outcome (ε α : Type) where
  | ok (a : α)
  | wait
  | panic (e : ε)

def Outcome.map {ε α β : Type} (f : α → β) : Outcome ε α → Outcome ε β
  | .ok a => .ok (f a)
  | .wait => .wait
  | .panic e => .panic e

@[simp] theorem Outcome.map_ok {ε α β : Type} (f : α → β) (a : α) :
    (Outcome.ok a : Outcome ε α).map f = .ok (f a) := rfl

namespace Mutex

inductive Panic where
  | lockNotRecursable
  | trylockNotRecursable
  | unlockNotOwner
  deriving DecidableEq

/-- `rtems_bsd_mutex`: the owner of the thread queue and the nest level. -/
structure Mtx where
  owner : Option Tid
  nestLevel : Nat
  deriving DecidableEq

/-- After `rtems_bsd_mutex_init`. -/
def Mtx.init : Mtx := ⟨none, 0⟩

def rtemsBsdMutexLock (recursable : Bool) (m : Mtx) (executing : Tid) : Outcome Panic Mtx :=
  match m.owner with
  | none => .ok { m with owner := some executing }
  | some owner =>
    if owner = executing then
      if recursable then .ok { m with nestLevel := m.nestLevel + 1 } else .panic .lockNotRecursable
    else .wait

def rtemsBsdMutexTrylock (recursable : Bool) (m : Mtx) (executing : Tid) : Outcome Panic (Bool × Mtx) :=
  match m.owner with
  | none => .ok (true, { m with owner := some executing })
  | some owner =>
    if owner = executing then
      if recursable then .ok (true, { m with nestLevel := m.nestLevel + 1 })
      else .panic .trylockNotRecursable
    else .ok (false, m)

def rtemsBsdMutexUnlock (m : Mtx) (executing : Tid) : Outcome Panic Mtx :=
  if m.owner ≠ some executing then .panic .unlockNotOwner
  else if m.nestLevel = 0 then .ok { m with owner := none }
  else .ok { m with nestLevel := m.nestLevel - 1 }

def rtemsBsdMutexOwned (m : Mtx) (executing : Tid) : Bool := m.owner = some executing

def Mtx.depth (m : Mtx) : Nat := if m.owner = none then 0 else m.nestLevel + 1

/-- The number of holds `holds t` of each thread is the one the mutex records. -/
structure Agrees (m : Mtx) (holds : Tid → Nat) : Prop where
  owner : ∀ t, m.owner = some t ↔ 0 < holds t
  depth : ∀ t, m.owner = some t → holds t = m.nestLevel + 1
  free : m.owner = none → m.nestLevel = 0

variable {m m' : Mtx} {t : Tid} {holds : Tid → Nat} {r : Bool}

theorem Agrees.init : Agrees Mtx.init (fun _ => 0) :=
  ⟨fun t => by simp [Mtx.init], fun t h => by simp [Mtx.init] at h, fun _ => rfl⟩

/-- One more hold of `t`. -/
def bump (holds : Tid → Nat) (t : Tid) : Tid → Nat := fun u => if u = t then holds u + 1 else holds u

/-- One hold of `t` less. -/
def unbump (holds : Tid → Nat) (t : Tid) : Tid → Nat := fun u => if u = t then holds u - 1 else holds u

theorem Agrees.of_lock (A : Agrees m holds) (h : rtemsBsdMutexLock r m t = .ok m') :
    Agrees m' (bump holds t) ∧ m'.owner = some t ∧ m'.depth = m.depth + 1 := by
  unfold rtemsBsdMutexLock at h
  split at h
  · rename_i hfree
    cases h
    have hz : ∀ u, holds u = 0 := fun u => by
      have := A.owner u
      simp [hfree] at this
      omega
    refine ⟨⟨fun u => ?_, fun u hu => ?_, by simp⟩, rfl, by simp [Mtx.depth, hfree, A.free hfree]⟩
    · by_cases hu : u = t
      · simp [bump, hu]
      · simp [bump, hu, hz, Ne.symm hu]
    · simp only [Option.some.injEq] at hu
      subst hu
      simp [bump, hz, A.free hfree]
  · rename_i owner hown
    split at h
    · rename_i he
      subst he
      split at h
      · cases h
        have hother : ∀ u ≠ owner, holds u = 0 := fun u hu => by
          have := A.owner u
          simp [hown, Ne.symm hu] at this
          omega
        refine ⟨⟨fun u => ?_, fun u hu => ?_, by simp [hown]⟩, hown, by simp [Mtx.depth, hown]⟩
        · by_cases hu : u = owner
          · simp [hown, bump, hu]
          · simp [hown, bump, hu, hother u hu, Ne.symm hu]
        · grind [bump, A.depth]
      · cases h
    · cases h

theorem Agrees.of_unlock (A : Agrees m holds) (h : rtemsBsdMutexUnlock m t = .ok m') :
    Agrees m' (unbump holds t) ∧ m.owner = some t ∧ m'.depth = m.depth - 1 := by
  unfold rtemsBsdMutexUnlock at h
  split at h
  · cases h
  · rename_i hown
    simp only [ne_eq, Decidable.not_not] at hown
    have hother : ∀ u ≠ t, holds u = 0 := fun u hu => by
      have := A.owner u
      simp [hown, Ne.symm hu] at this
      omega
    have ht := A.depth t hown
    split at h
    · rename_i hz
      cases h
      refine ⟨⟨fun u => ?_, by simp, by simp [hz]⟩, hown, by simp [Mtx.depth, hown, hz]⟩
      by_cases hu : u = t
      · simp [unbump, hu, ht, hz]
      · simp [unbump, hu, hother u hu]
    · cases h
      refine ⟨⟨fun u => ?_, fun u hu => ?_, by simp [hown]⟩, hown, by simp [Mtx.depth, hown]; omega⟩
      · by_cases hu : u = t
        · simp [hown, unbump, hu]
          omega
        · simp [hown, unbump, hu, hother u hu, Ne.symm hu]
      · simp only [hown, Option.some.injEq] at hu
        subst hu
        simp [unbump]
        omega

/-- The mutex is available to `t` exactly when no other thread holds it. -/
theorem Agrees.available (A : Agrees m holds) :
    rtemsBsdMutexLock r m t ≠ .wait ↔ ∀ u ≠ t, holds u = 0 := by
  unfold rtemsBsdMutexLock
  split
  · rename_i hfree
    simp only [ne_eq, reduceCtorEq, not_false_eq_true, true_iff]
    intro u _
    have := A.owner u
    simp [hfree] at this
    omega
  · rename_i owner hown
    by_cases he : owner = t
    · rw [if_pos he]
      refine iff_of_true (by split <;> simp) fun u hu => ?_
      have := A.owner u
      simp [hown, he, Ne.symm hu] at this
      omega
    · rw [if_neg he]
      refine iff_of_false (by simp) fun h => ?_
      have := (A.owner owner).mp hown
      exact absurd (h owner he) (by omega)

end Mutex

end RtemsLibbsd
