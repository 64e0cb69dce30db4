import RtemsLibbsd.Lockmgr

/-!
# Requests to the lock manager

The two entry points that take a request, `lockmgr_lock_flags` and `__lockmgr_args`, side by side: what they do with
the interlock, with `LK_NOWAIT`, with each other's requests and with `LK_DOWNGRADE`.

* `call` — an entry point with its test of `panicstr`.
* `Respected` — what a caller may expect of a request.
* `Handled` — the requests for which the expectations are met.

`lockmgr_downgrade` leaves the interlock to its caller, and `lockmgr_lock_flags` does not look at it;
`lockmgr_slock_hard` does not look at `LK_NOWAIT`; and the word that `lockmgr_downgrade` stores has no share bit.
**`respected_iff`** says for which requests none of this matters.
-/

namespace RtemsLibbsd.Lockmgr

open RtemsLibbsd.Mutex

inductive EntryPoint where
  | args
  | lockFlags

/-- An entry point; `panicked` says whether `panicstr` is set. -/
def call (w : Nat) (panicked : Bool) (d : EntryPoint) (lk : Lock) (f : Flags) (td : Tid) : Res :=
  if panicked then .ok ⟨lk, false, 0⟩
  else match d with
    | .args => lockmgrArgs w lk f td
    | .lockFlags => lockmgrLockFlags w lk f td

def Op.common : Op → Bool
  | .shared | .exclusive | .upgrade | .tryupgrade | .downgrade => true
  | .release | .drain | .unknown => false

def outcome (o : Res) : Outcome Panic (Lock × Bool) := o.map fun r => (r.lk, r.busy)

def HeldByOther (lk : Lock) (td : Tid) : Prop := ∃ u, lk.mtx.owner = some u ∧ u ≠ td

/-- What a caller may expect of the request `f`. -/
structure Respected (w : Nat) (panicked : Bool) (lk : Lock) (f : Flags) (td : Tid) : Prop where
  interlock : ∀ d r, call w panicked d lk f td = .ok r → r.ilkUnlocks = if f.interlock then 1 else 0
  nowait : f.nowait = true → ∀ d, call w panicked d lk f td ≠ .wait ∧
    (HeldByOther lk td → ∃ r, call w panicked d lk f td = .ok r ∧ r.busy = true)
  agree : f.op.common = true → outcome (call w panicked .args lk f td) = outcome (call w panicked .lockFlags lk f td)
  downgrade : f.op = .downgrade → lockstatus lk td = .exclusive → ∀ d, ∃ r, call w panicked d lk f td = .ok r ∧
    lockstatus r.lk td = .shared ∧ ∃ r', lockmgrUnlock w r.lk td = .ok r'

/-- A request with the interlock is no downgrade and comes before a panic; one with `LK_NOWAIT` for a lock of another
    thread acquires it, and not as a sharer; on a lock without sharers a request only changes the share bit if it
    is not there; and an exclusive lock is not downgraded. -/
structure Handled (panicked : Bool) (lk : Lock) (f : Flags) (td : Tid) : Prop where
  interlock : f.interlock = true → panicked = false ∧ f.op ≠ .downgrade
  nowait : f.nowait = true → HeldByOther lk td →
    panicked = false ∧ (f.op = .exclusive ∨ (f.op = .shared ∧ lk.noshare = true))
  agree : panicked = false → lk.noshare = true →
    (f.op = .upgrade ∨ f.op = .tryupgrade → lk.lkLock / 2 * 2 = lk.lkLock) ∧
      (f.op = .downgrade → lk.lkLock &&& LK_ALL_WAITERS = lk.lkLock)
  downgrade : f.op = .downgrade → lockstatus lk td ≠ .exclusive

section

variable {w : Nat} {panicked : Bool} {d : EntryPoint} {lk : Lock} {f : Flags} {td : Tid}

theorem call_panicked (d : EntryPoint) : call w true d lk f td = .ok ⟨lk, false, 0⟩ := rfl

theorem call_args : call w false .args lk f td = lockmgrArgs w lk f td := rfl

theorem call_lockFlags : call w false .lockFlags lk f td = lockmgrLockFlags w lk f td := rfl

/-! ## The interlock -/

/-- Whoever returns has been through `lockmgr_exit`. -/
def Exits (f : Flags) (o : Res) : Prop := ∀ r, o = .ok r → r.ilkUnlocks = lockmgrExit f

theorem exits_ok {r : Ret} (h : r.ilkUnlocks = lockmgrExit f) : Exits f (.ok r) := by
  intro r' hr
  cases hr
  exact h

theorem exits_onMutex {α : Type} {o : Outcome Mutex.Panic α} {k : α → Res} (h : ∀ a, Exits f (k a)) :
    Exits f (onMutex o k) := by
  cases o with
  | ok a => exact h a
  | wait => exact fun r hr => nomatch hr
  | panic p => exact fun r hr => nomatch hr

theorem exits_slockHard : Exits f (lockmgrSlockHard w lk f td) := exits_onMutex fun _ => exits_ok rfl

theorem exits_xlockHard : Exits f (lockmgrXlockHard lk f td) := by
  unfold lockmgrXlockHard
  split
  · refine exits_onMutex fun a => ?_
    split
    · exact exits_ok rfl
    · exact exits_ok rfl
  · exact exits_onMutex fun _ => exits_ok rfl

theorem exits_upgrade : Exits f (lockmgrUpgrade lk f) := exits_ok rfl

theorem exits_release : Exits f (lockmgrRelease w lk f td) := by
  unfold lockmgrRelease
  split
  · unfold lockmgrSunlockHard
    split
    · exact fun r hr => nomatch hr
    · exact exits_onMutex fun _ => exits_ok rfl
  · exact exits_onMutex fun _ => exits_ok rfl

theorem exits_args : Exits f (lockmgrArgs w lk f td) := by
  unfold lockmgrArgs
  split
  · split
    · exact exits_xlockHard
    · exact exits_slockHard
  · split
    · exact exits_ok rfl
    · exact exits_upgrade
  · split
    · exact exits_ok rfl
    · exact exits_upgrade
  · exact exits_xlockHard
  · split
    · exact exits_ok rfl
    · exact exits_ok rfl
  · exact exits_release
  · exact exits_ok rfl
  · exact fun r hr => nomatch hr

theorem exits_lockFlags (h : f.interlock = true → f.op ≠ .downgrade) : Exits f (lockmgrLockFlags w lk f td) := by
  grind [lockmgrLockFlags, exits_xlockHard, exits_slockHard, exits_upgrade, lockmgrExit, Exits]

theorem interlock_iff :
    (∀ d r, call w panicked d lk f td = .ok r → r.ilkUnlocks = if f.interlock then 1 else 0) ↔
      (f.interlock = true → panicked = false ∧ f.op ≠ .downgrade) := by
  constructor
  · intro h hi
    rw [hi] at h
    cases panicked with
    | true =>
      have := h .args _ (call_panicked _)
      cases this
    | false =>
      refine ⟨rfl, fun hop => ?_⟩
      have hcall : call w false .lockFlags lk f td = .ok ⟨lockmgrDowngrade lk, false, 0⟩ := by
        rw [call_lockFlags, lockmgrLockFlags, hop]
      cases h .lockFlags _ hcall
  · intro h d r hr
    cases panicked with
    | true =>
      have hilk : f.interlock = false := Bool.eq_false_iff.mpr fun hi => Bool.noConfusion (h hi).1
      cases hr
      rw [hilk]
      rfl
    | false =>
      cases d with
      | args => exact exits_args r hr
      | lockFlags => exact exits_lockFlags (fun hi => (h hi).2) r hr

/-! ## Requests that do not wait -/

theorem lock_of_held (h : HeldByOther lk td) : rtemsBsdMutexLock lk.recursable lk.mtx td = .wait := by
  obtain ⟨u, hu, hne⟩ := h
  unfold rtemsBsdMutexLock
  rw [hu]
  exact if_neg hne

theorem trylock_of_held (h : HeldByOther lk td) : rtemsBsdMutexTrylock lk.recursable lk.mtx td = .ok (false, lk.mtx) := by
  obtain ⟨u, hu, hne⟩ := h
  unfold rtemsBsdMutexTrylock
  rw [hu]
  exact if_neg hne

theorem lock_ne_wait (h : ¬ HeldByOther lk td) : rtemsBsdMutexLock lk.recursable lk.mtx td ≠ .wait := by
  unfold rtemsBsdMutexLock
  split
  · exact fun hw => nomatch hw
  · rename_i u hu
    have he : u = td := Classical.byContradiction fun hne => h ⟨u, hu, hne⟩
    rw [if_pos he]
    split
    · exact fun hw => nomatch hw
    · exact fun hw => nomatch hw

theorem trylock_ne_wait : rtemsBsdMutexTrylock lk.recursable lk.mtx td ≠ .wait := by
  grind [rtemsBsdMutexTrylock]

theorem unlock_ne_wait {m : Mtx} : rtemsBsdMutexUnlock m td ≠ .wait := by
  unfold rtemsBsdMutexUnlock
  split
  · exact fun hw => nomatch hw
  · split
    · exact fun hw => nomatch hw
    · exact fun hw => nomatch hw

theorem onMutex_ne_wait {α : Type} {o : Outcome Mutex.Panic α} {k : α → Res} (ho : o ≠ .wait) (hk : ∀ a, k a ≠ .wait) :
    onMutex o k ≠ .wait := by
  cases o with
  | ok a => exact hk a
  | wait => exact absurd rfl ho
  | panic p => exact fun hw => nomatch hw

theorem ok_ne_wait {r : Ret} : (Outcome.ok r : Res) ≠ .wait := fun hw => nomatch hw

theorem xlockHard_ne_wait (h : f.nowait = true) : lockmgrXlockHard lk f td ≠ .wait := by
  unfold lockmgrXlockHard
  rw [if_pos h]
  refine onMutex_ne_wait trylock_ne_wait fun a => ?_
  split
  · exact ok_ne_wait
  · exact ok_ne_wait

theorem xlockHard_of_held (h : f.nowait = true) (held : HeldByOther lk td) :
    lockmgrXlockHard lk f td = .ok ⟨lk, true, lockmgrExit f⟩ := by
  unfold lockmgrXlockHard
  rw [if_pos h, trylock_of_held held]
  rfl

theorem slockHard_ne_wait (held : ¬ HeldByOther lk td) : lockmgrSlockHard w lk f td ≠ .wait :=
  onMutex_ne_wait (lock_ne_wait held) fun _ => ok_ne_wait

theorem slockHard_of_held (held : HeldByOther lk td) : lockmgrSlockHard w lk f td = .wait := by
  unfold lockmgrSlockHard
  rw [lock_of_held held]
  rfl

theorem release_ne_wait : lockmgrRelease w lk f td ≠ .wait := by
  unfold lockmgrRelease
  split
  · unfold lockmgrSunlockHard
    split
    · exact fun hw => nomatch hw
    · exact onMutex_ne_wait unlock_ne_wait fun _ => ok_ne_wait
  · exact onMutex_ne_wait unlock_ne_wait fun _ => ok_ne_wait

theorem call_ne_wait (h : f.nowait = true) (held : ¬ HeldByOther lk td) : call w panicked d lk f td ≠ .wait := by
  cases panicked with
  | true => exact ok_ne_wait
  | false =>
    cases d with
    | args =>
      rw [call_args]
      unfold lockmgrArgs
      split
      · split
        · exact xlockHard_ne_wait h
        · exact slockHard_ne_wait held
      · split
        · exact ok_ne_wait
        · exact ok_ne_wait
      · split
        · exact ok_ne_wait
        · exact ok_ne_wait
      · exact xlockHard_ne_wait h
      · split
        · exact ok_ne_wait
        · exact ok_ne_wait
      · exact release_ne_wait
      · exact ok_ne_wait
      · exact fun hw => nomatch hw
    | lockFlags =>
      rw [call_lockFlags]
      unfold lockmgrLockFlags
      split
      · split
        · exact xlockHard_ne_wait h
        · exact slockHard_ne_wait held
      · exact xlockHard_ne_wait h
      · exact ok_ne_wait
      · exact ok_ne_wait
      · exact ok_ne_wait
      · exact fun hw => nomatch hw

theorem call_exclusive (h : f.op = .exclusive ∨ (f.op = .shared ∧ lk.noshare = true)) :
    call w false d lk f td = lockmgrXlockHard lk f td := by
  rcases h with hop | ⟨hop, hn⟩
  · cases d with
    | args => rw [call_args, lockmgrArgs, hop]
    | lockFlags => rw [call_lockFlags, lockmgrLockFlags, hop]
  · cases d with
    | args =>
      rw [call_args, lockmgrArgs, hop]
      exact if_pos hn
    | lockFlags =>
      rw [call_lockFlags, lockmgrLockFlags, hop]
      exact if_pos hn

theorem nowait_iff :
    (f.nowait = true → ∀ d, call w panicked d lk f td ≠ .wait ∧
        (HeldByOther lk td → ∃ r, call w panicked d lk f td = .ok r ∧ r.busy = true)) ↔
      (f.nowait = true → HeldByOther lk td →
        panicked = false ∧ (f.op = .exclusive ∨ (f.op = .shared ∧ lk.noshare = true))) := by
  constructor
  · intro h hn held
    cases panicked with
    | true =>
      obtain ⟨r, hr, hb⟩ := (h hn .args).2 held
      cases hr
      cases hb
    | false =>
      refine ⟨rfl, ?_⟩
      obtain ⟨hwait, hbusy⟩ := h hn .lockFlags
      obtain ⟨r, hr, hb⟩ := hbusy held
      rw [call_lockFlags, lockmgrLockFlags] at hwait hr
      split at hr
      · grind [slockHard_of_held]
      · rename_i hop
        exact .inl hop
      · cases hr
        cases hb
      · cases hr
        cases hb
      · cases hr
        cases hb
      · cases hr
  · intro h hn d
    by_cases held : HeldByOther lk td
    · obtain ⟨rfl, hop⟩ := h hn held
      rw [call_exclusive hop, xlockHard_of_held hn held]
      exact ⟨ok_ne_wait, fun _ => ⟨_, rfl, rfl⟩⟩
    · exact ⟨call_ne_wait hn held, fun hh => absurd hh held⟩

/-! ## The same request to both -/

theorem lock_word_eq {x : Nat} : ({ lk with lkLock := x } : Lock) = lk ↔ x = lk.lkLock := by
  constructor
  · exact fun h => congrArg Lock.lkLock h
  · rintro rfl
    rfl

theorem outcome_ok_eq {r r' : Ret} (hb : r.busy = r'.busy) : outcome (.ok r) = outcome (.ok r') ↔ r.lk = r'.lk := by
  unfold outcome
  rw [Outcome.map_ok, Outcome.map_ok]
  constructor
  · intro h
    exact congrArg Prod.fst (Outcome.ok.inj h)
  · intro h
    rw [h, hb]

/-- On a lock without sharers `__lockmgr_args` leaves the word alone, and `lockmgr_lock_flags` stores `x`. -/
theorem agree_word {x n : Nat} :
    outcome (if lk.noshare then .ok ⟨lk, false, lockmgrExit f⟩ else .ok ⟨{ lk with lkLock := x }, false, lockmgrExit f⟩) =
        outcome (.ok ⟨{ lk with lkLock := x }, false, n⟩) ↔ (lk.noshare = true → x = lk.lkLock) := by
  by_cases hn : lk.noshare = true
  · rw [if_pos hn]
    have hb : (⟨lk, false, lockmgrExit f⟩ : Ret).busy = (⟨{ lk with lkLock := x }, false, n⟩ : Ret).busy := rfl
    rw [outcome_ok_eq hb, eq_comm, lock_word_eq]
    exact ⟨fun h _ => h, fun h => h hn⟩
  · rw [if_neg hn]
    exact iff_of_true rfl fun h => absurd h hn

theorem agree_iff :
    (f.op.common = true → outcome (call w panicked .args lk f td) = outcome (call w panicked .lockFlags lk f td)) ↔
      (panicked = false → lk.noshare = true →
        (f.op = .upgrade ∨ f.op = .tryupgrade → lk.lkLock / 2 * 2 = lk.lkLock) ∧
          (f.op = .downgrade → lk.lkLock &&& LK_ALL_WAITERS = lk.lkLock)) := by
  cases panicked with
  | true => exact iff_of_true (fun _ => rfl) fun h => nomatch h
  | false =>
    rw [call_args, call_lockFlags, lockmgrArgs, lockmgrLockFlags]
    cases hop : f.op with
    | shared => simp
    | exclusive => simp
    | upgrade =>
      refine (forall_prop_of_true rfl).trans (agree_word.trans ?_)
      simp
    | tryupgrade =>
      refine (forall_prop_of_true rfl).trans (agree_word.trans ?_)
      simp
    | downgrade =>
      refine (forall_prop_of_true rfl).trans (agree_word.trans ?_)
      simp
    | release => simp [Op.common]
    | drain => simp [Op.common]
    | unknown => simp [Op.common]

/-! ## Downgrades -/

theorem downgraded_share : (lk.lkLock &&& LK_ALL_WAITERS) &&& LK_SHARE = 0 := by
  rw [Nat.and_assoc]
  exact Nat.and_zero _

theorem not_shared_of_downgrade (hop : f.op = .downgrade) (hs : lockstatus lk td = .exclusive) {r : Ret}
    (hr : call w panicked d lk f td = .ok r) : lockstatus r.lk td ≠ .shared := by
  have hshare : lk.lkLock &&& LK_SHARE = 0 := by
    unfold lockstatus at hs
    by_contra hno
    rw [if_neg hno] at hs
    split at hs
    · cases hs
    · cases hs
  have hr' : r.lk.lkLock &&& LK_SHARE = 0 := by
    cases panicked with
    | true =>
      cases hr
      exact hshare
    | false =>
      cases d with
      | args =>
        rw [call_args, lockmgrArgs, hop] at hr
        dsimp only at hr
        split at hr
        · cases hr
          exact hshare
        · cases hr
          exact downgraded_share
      | lockFlags =>
        rw [call_lockFlags, lockmgrLockFlags, hop] at hr
        cases hr
        exact downgraded_share
  unfold lockstatus
  rw [if_pos hr']
  split
  · exact fun h => by cases h
  · exact fun h => by cases h

theorem downgrade_iff :
    (f.op = .downgrade → lockstatus lk td = .exclusive → ∀ d, ∃ r, call w panicked d lk f td = .ok r ∧
        lockstatus r.lk td = .shared ∧ ∃ r', lockmgrUnlock w r.lk td = .ok r') ↔
      (f.op = .downgrade → lockstatus lk td ≠ .exclusive) := by
  constructor
  · intro h hop hs
    obtain ⟨r, hr, hshared, -⟩ := h hop hs .args
    exact not_shared_of_downgrade hop hs hr hshared
  · exact fun h hop hs => absurd hs (h hop)

/-- **A request meets the expectations exactly under these conditions.** -/
theorem respected_iff (w : Nat) (panicked : Bool) (lk : Lock) (f : Flags) (td : Tid) :
    Respected w panicked lk f td ↔ Handled panicked lk f td := by
  constructor
  · rintro ⟨hi, hn, ha, hd⟩
    exact ⟨interlock_iff.mp hi, nowait_iff.mp hn, agree_iff.mp ha, downgrade_iff.mp hd⟩
  · rintro ⟨hi, hn, ha, hd⟩
    exact ⟨interlock_iff.mpr hi, nowait_iff.mpr hn, agree_iff.mpr ha, downgrade_iff.mpr hd⟩

end

def heldExclusively : Lock := ⟨⟨some 1, 0⟩, true, false, 0, 0⟩

/-- A downgrade by `lockmgr_lock_flags` does not release the interlock, a downgraded lock is not a shared one, and a
    sharer with `LK_NOWAIT` waits for the lock of another thread. -/
theorem heldExclusively_not_respected :
    ¬ Respected 32 false heldExclusively ⟨.downgrade, true, false⟩ 1 ∧
      ¬ Respected 32 false heldExclusively ⟨.downgrade, false, false⟩ 1 ∧
      ¬ Respected 32 false heldExclusively ⟨.shared, false, true⟩ 2 := by
  refine ⟨fun h => ?_, fun h => ?_, fun h => ?_⟩
  · cases h.interlock .lockFlags _ rfl
  · obtain ⟨r, hr, hshared, -⟩ := h.downgrade rfl rfl .args
    exact not_shared_of_downgrade rfl rfl hr hshared
  · exact (h.nowait rfl .args).1 rfl

end RtemsLibbsd.Lockmgr
