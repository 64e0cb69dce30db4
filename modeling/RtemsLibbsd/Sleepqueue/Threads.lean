import RtemsLibbsd.Sleepqueue.Queues

/-!
# A thread going to sleep

The invariants of one thread in `sleepq_add`, `sleepq_set_timeout_sbt` and `sleepq_switch`.

* `Fits` — how the place of the thread in the code, `td_sq_state`, `td_wchan`, the blocking state
  and a pending `_Thread_Clear_state` of others go together.  `Fits.removed`, `Fits.timedOut` and
  `Fits.cleared` are what `sleepq_remove_thread`, `sleepq_timeout` and `_Thread_Clear_state` do to
  it.
* `Timed` — the watchdog of a thread and the routines that ran for it.
-/

namespace RtemsLibbsd.Sleepqueue

def Pc.holds : Pc → Option Nat
  | .locked w | .added w | .ready w => some w
  | _ => none

/-- The thread is between `sleepq_add` and the return of `sleepq_switch`. -/
def Pc.asleep : Pc → Bool
  | .run | .locked _ => false
  | _ => true

def OnOff (wchan : Option Nat) (w : Nat) (st awake : SqState) : Prop :=
  wchan = some w ∧ (st = awake ∨ st = .nightmare) ∨ wchan = none ∧ st = .wakeup

/-- The states of a thread in its place in the code.  `pending` is a `_Thread_Clear_state` of a
    waker or a timer that is still to come. -/
def Fits (pc : Pc) (st : SqState) (wchan : Option Nat) (waiting pending : Bool) : Prop :=
  match pc with
  | .run | .locked _ =>
    wchan = none ∧ (st = .wakeup ∨ st = .panic) ∧ waiting = false ∧ pending = false
  | .added w | .ready w | .dropped w | .switch1 w =>
    OnOff wchan w st .tired ∧ waiting = false ∧ pending = false
  | .setState w => OnOff wchan w st .sleepy ∧ waiting = false ∧ pending = false
  | .switch2 w => OnOff wchan w st .sleepy ∧ waiting = true ∧ pending = false
  | .clear w true =>
    (wchan = some w ∨ wchan = none) ∧ st = .panic ∧ waiting = true ∧ pending = false
  | .clear _ false => wchan = none ∧ st = .wakeup ∧ waiting = true ∧ pending = false
  | .switch3 w true | .timerRemove w true | .remove w =>
    (wchan = some w ∨ wchan = none) ∧ st = .panic ∧ waiting = false ∧ pending = false
  | .switch3 w false =>
    (wchan = some w ∧ st = .sleeping ∧ waiting = true ∧ pending = false) ∨
    ((wchan = some w ∧ st = .nightmare ∨ wchan = none ∧ st = .wakeup) ∧ waiting = pending)
  | .timerRemove _ false => wchan = none ∧ st = .wakeup ∧ waiting = false ∧ pending = false

section Fits

variable {pc : Pc} {st : SqState} {wchan : Option Nat} {waiting pending : Bool}

variable {w : Nat}

/-- A thread on a queue is in a state that `sleepq_remove_thread` expects. -/
theorem Fits.not_wakeup (h : Fits pc st (some w) waiting pending) : st ≠ .wakeup := by
  rintro rfl
  cases pc with
  | clear v r => cases r <;> simp [Fits] at h
  | switch3 v r => cases r <;> simp [Fits] at h
  | timerRemove v r => cases r <;> simp [Fits] at h
  | _ => simp [Fits, OnOff] at h

theorem Fits.asleep (h : Fits pc st (some w) waiting pending) : pc.asleep = true := by
  cases pc with
  | run => cases h.1
  | locked v => cases h.1
  | _ => rfl

theorem Fits.removed (h : Fits pc st (some w) waiting pending) :
    Fits pc st.removed.1 none waiting (pending || st.removed.2) := by
  cases pc with
  | clear v r =>
    cases r with
    | true =>
      obtain ⟨-, rfl, rfl, rfl⟩ := h
      exact ⟨.inr rfl, rfl, rfl, rfl⟩
    | false => cases h.1
  | switch3 v r =>
    cases r with
    | true =>
      obtain ⟨-, rfl, rfl, rfl⟩ := h
      exact ⟨.inr rfl, rfl, rfl, rfl⟩
    | false =>
      rcases h with ⟨-, rfl, rfl, rfl⟩ | ⟨⟨-, rfl⟩ | ⟨hw, -⟩, rfl⟩
      · exact .inr ⟨.inr ⟨rfl, rfl⟩, rfl⟩
      · exact .inr ⟨.inr ⟨rfl, rfl⟩, by simp [SqState.removed]⟩
      · cases hw
  | timerRemove v r =>
    cases r with
    | true =>
      obtain ⟨-, rfl, rfl, rfl⟩ := h
      exact ⟨.inr rfl, rfl, rfl, rfl⟩
    | false => cases h.1
  | remove v =>
    obtain ⟨-, rfl, rfl, rfl⟩ := h
    exact ⟨.inr rfl, rfl, rfl, rfl⟩
  | run => cases h.1
  | locked v => cases h.1
  | _ =>
    obtain ⟨⟨-, rfl | rfl⟩ | ⟨hw, -⟩, rfl, rfl⟩ := h
    · exact ⟨.inr ⟨rfl, rfl⟩, rfl, rfl⟩
    · exact ⟨.inr ⟨rfl, rfl⟩, rfl, rfl⟩
    · cases hw

/-- The thread is unblocked by `sleepq_remove_thread` if nobody else does it. -/
theorem Fits.unblock (h : Fits pc st (some w) waiting pending)
    (hunblock : st.removed.2 = true) : pending = false := by
  have hst : st = .sleeping := by
    cases st <;> simp [SqState.removed] at hunblock ⊢
  subst hst
  cases pc with
  | clear v r => cases r <;> simp [Fits] at h
  | switch3 v r =>
    cases r
    · rcases h with ⟨-, -, -, rfl⟩ | ⟨⟨-, hst⟩ | ⟨hw, -⟩, -⟩
      · rfl
      · cases hst
      · cases hw
    · cases h.2.1
  | timerRemove v r => cases r <;> simp [Fits] at h
  | _ => simp [Fits, OnOff] at h

theorem Fits.timedOut (h : Fits pc st wchan waiting pending)
    (hst : st = .tired ∨ st = .sleepy ∨ st = .sleeping) :
    Fits pc .nightmare wchan waiting (pending || decide (st = .sleeping)) ∧
      (st = .sleeping → pending = false) ∧ pc.asleep = true := by
  cases pc with
  | clear v r =>
    cases r <;> (obtain ⟨-, rfl, -, -⟩ := h; simp at hst)
  | switch3 v r =>
    cases r with
    | true =>
      obtain ⟨-, rfl, -, -⟩ := h
      simp at hst
    | false =>
      rcases h with ⟨hw, rfl, rfl, rfl⟩ | ⟨⟨-, rfl⟩ | ⟨-, rfl⟩, -⟩
      · exact ⟨.inr ⟨.inl ⟨hw, rfl⟩, rfl⟩, fun _ => rfl, rfl⟩
      · simp at hst
      · simp at hst
  | timerRemove v r =>
    cases r <;> (obtain ⟨-, rfl, -, -⟩ := h; simp at hst)
  | remove v =>
    obtain ⟨-, rfl, -, -⟩ := h
    simp at hst
  | run =>
    obtain ⟨-, rfl | rfl, -⟩ := h <;> simp at hst
  | locked v =>
    obtain ⟨-, rfl | rfl, -⟩ := h <;> simp at hst
  | _ =>
    obtain ⟨⟨hw, rfl | rfl⟩ | ⟨-, rfl⟩, rfl, rfl⟩ := h
    · exact ⟨⟨.inl ⟨hw, .inr rfl⟩, rfl, rfl⟩, fun _ => rfl, rfl⟩
    · simp at hst
    · simp at hst

theorem Fits.cleared (h : Fits pc st wchan waiting true) : Fits pc st wchan false false := by
  cases pc with
  | clear v r => cases r <;> simp [Fits] at h
  | switch3 v r =>
    cases r with
    | true => cases h.2.2.2
    | false =>
      rcases h with ⟨-, -, -, hp⟩ | ⟨hst, -⟩
      · cases hp
      · exact .inr ⟨hst, rfl⟩
  | timerRemove v r => cases r <;> simp [Fits] at h
  | _ => simp [Fits] at h

theorem Fits.relief (h : Fits pc st wchan true pending)
    (hdone : wchan = none ∨ st = .nightmare ∨ st = .panic) :
    pending = true ∨ (∃ w r, pc = .clear w r) ∨
      ∃ w, pc = .switch2 w ∧ (st = .nightmare ∨ st = .wakeup) := by
  cases pc with
  | clear v r => exact .inr (.inl ⟨v, r, rfl⟩)
  | switch2 v =>
    refine .inr (.inr ⟨v, rfl, ?_⟩)
    obtain ⟨⟨hw, rfl | rfl⟩ | ⟨-, rfl⟩, -⟩ := h
    · simp [hw] at hdone
    · exact .inl rfl
    · exact .inr rfl
  | switch3 v r =>
    cases r with
    | true => cases h.2.2.1
    | false =>
      rcases h with ⟨hw, rfl, -, -⟩ | ⟨-, hp⟩
      · simp [hw] at hdone
      · exact .inl hp.symm
  | timerRemove v r => cases r <;> simp [Fits] at h
  | _ => simp [Fits] at h

end Fits

/-- The sleep was not ended. -/
def SqState.dozing : SqState → Bool
  | .tired | .sleepy | .sleeping => true
  | _ => false

/-- A change of the state that is not by a timeout and starts no sleep. -/
def SqState.Leads (st st' : SqState) : Prop :=
  (st' = .nightmare ∨ st' = .panic → st = .nightmare ∨ st = .panic) ∧
    (st'.dozing = true → st.dozing = true)

theorem SqState.dark {st : SqState} (h : st.dozing = false) (hne : st ≠ .wakeup) :
    st = .nightmare ∨ st = .panic := by
  cases st <;> simp [SqState.dozing] at h hne ⊢

theorem SqState.Leads.refl (st : SqState) : st.Leads st := ⟨id, id⟩

/-- The watchdog of a thread and the insertions whose routine ran. -/
structure Timed (td : Thread) (fired : Nat → Prop) : Prop where
  armed : ∀ g, td.watchdog = some g → g = td.sleep ∧ td.pc.asleep = true ∧ g ∉ td.due
  disarmed : (∀ w, td.pc = .added w → td.watchdog = none ∧ td.sleep ∉ td.due ∧ ¬fired td.sleep) ∧
    ∀ w, td.pc = .remove w → td.watchdog = none
  due : td.due.Nodup ∧ ∀ g ∈ td.due, g ≤ td.sleep
  ran : ∀ g, fired g → g ≤ td.sleep ∧ g ∉ td.due ∧ td.watchdog ≠ some g
  timedOut : td.pc.asleep = true → td.sqState = .nightmare ∨ td.sqState = .panic → fired td.sleep
  ended : td.pc.asleep = true → fired td.sleep → td.sqState.dozing = false

section Timed

variable {td td' : Thread} {fired : Nat → Prop}

theorem Timed.not_armed (h : Timed td fired) (hawake : td.pc.asleep = false) :
    td.watchdog = none := by
  cases hdog : td.watchdog with
  | none => rfl
  | some g =>
    have := (h.armed g hdog).2.1
    rw [hawake] at this
    cases this

theorem Timed.move (h : Timed td fired) (hsleep : td'.sleep = td.sleep) (hdue : td'.due = td.due)
    (hdog : td'.watchdog = none ∨ td'.watchdog = td.watchdog ∧ td'.pc.asleep = td.pc.asleep)
    (hadded : ∀ w, td'.pc = .added w → td.pc = .added w)
    (hremove : ∀ w, td'.pc = .remove w → td'.watchdog = none)
    (hleads : td'.pc.asleep = true → td.pc.asleep = true ∧ td.sqState.Leads td'.sqState) :
    Timed td' fired := by
  refine ⟨?_, ⟨?_, hremove⟩, ?_, ?_, ?_, ?_⟩
  · intro g hg
    grind [h.armed]
  · intro w hw
    grind [h.disarmed]
  · rw [hsleep, hdue]
    exact h.due
  · intro g hg
    obtain ⟨h1, h2, h3⟩ := h.ran g hg
    grind
  · intro hasleep hst
    obtain ⟨hasleep, hdark, -⟩ := hleads hasleep
    rw [hsleep]
    exact h.timedOut hasleep (hdark hst)
  · intro hasleep hfired
    obtain ⟨hasleep, -, hdozing⟩ := hleads hasleep
    rw [hsleep] at hfired
    by_contra hne
    have := hdozing (Bool.not_eq_false _ ▸ hne)
    rw [h.ended hasleep hfired] at this
    cases this

theorem Timed.add (h : Timed td fired) (hawake : td.pc.asleep = false) (w : Nat) :
    Timed { td with sqState := .tired, sleep := td.sleep + 1, pc := .added w } fired := by
  have hnone := h.not_armed hawake
  have hnew : td.sleep + 1 ∉ td.due := by
    intro hmem
    have := h.due.2 _ hmem
    omega
  refine ⟨?_, ⟨?_, ?_⟩, ⟨h.due.1, ?_⟩, ?_, ?_, ?_⟩
  · intro g hg
    have hg' : td.watchdog = some g := hg
    rw [hnone] at hg'
    cases hg'
  · intro v _
    refine ⟨hnone, hnew, ?_⟩
    intro hran
    have := (h.ran _ hran).1
    simp only at this
    omega
  · intro v hv
    cases hv
  · intro g hg
    have := h.due.2 g hg
    simp only
    omega
  · intro g hg
    obtain ⟨h1, h2, h3⟩ := h.ran g hg
    exact ⟨Nat.le_succ_of_le h1, h2, h3⟩
  · intro _ hst
    simp at hst
  · intro _ hran
    have := (h.ran _ hran).1
    simp only at this
    omega

theorem Timed.arm (h : Timed td fired) {w : Nat} (hpc : td.pc = .added w) :
    Timed { td with watchdog := some td.sleep, pc := .ready w } fired := by
  obtain ⟨-, hdue, hran⟩ := h.disarmed.1 w hpc
  refine ⟨?_, ⟨?_, ?_⟩, h.due, ?_, ?_, fun _ => h.ended (by simp [hpc, Pc.asleep])⟩
  · intro g hg
    cases hg
    exact ⟨rfl, rfl, hdue⟩
  · intro v hv
    cases hv
  · intro v hv
    cases hv
  · intro g hg
    obtain ⟨h1, h2, -⟩ := h.ran g hg
    refine ⟨h1, h2, ?_⟩
    intro heq
    cases heq
    exact hran hg
  · intro _ hst
    exact h.timedOut (by simp [hpc, Pc.asleep]) hst

theorem Timed.expire (h : Timed td fired) {g : Nat} (hg : td.watchdog = some g) :
    Timed { td with watchdog := none, due := g :: td.due } fired := by
  obtain ⟨hsleep, hasleep, hnot⟩ := h.armed g hg
  refine ⟨?_, ⟨?_, fun _ _ => rfl⟩, ⟨List.nodup_cons.mpr ⟨hnot, h.due.1⟩, ?_⟩, ?_, h.timedOut,
    h.ended⟩
  · intro g' hg'
    cases hg'
  · intro w hw
    have := (h.disarmed.1 w hw).1
    rw [hg] at this
    cases this
  · intro g' hg'
    rcases List.mem_cons.mp hg' with rfl | hg'
    · exact Nat.le_of_eq hsleep
    · exact h.due.2 g' hg'
  · intro g' hg'
    obtain ⟨h1, h2, h3⟩ := h.ran g' hg'
    grind

theorem Timed.start (h : Timed td fired) (g : Nat) :
    Timed { td with due := td.due.erase g } fired := by
  refine ⟨?_, ⟨?_, h.disarmed.2⟩, ⟨h.due.1.erase g, ?_⟩, ?_, h.timedOut, h.ended⟩
  · intro k hk
    obtain ⟨h1, h2, h3⟩ := h.armed k hk
    exact ⟨h1, h2, fun hmem => h3 (List.mem_of_mem_erase hmem)⟩
  · intro w hw
    obtain ⟨h1, h2, h3⟩ := h.disarmed.1 w hw
    exact ⟨h1, fun hmem => h2 (List.mem_of_mem_erase hmem), h3⟩
  · intro k hk
    exact h.due.2 k (List.mem_of_mem_erase hk)
  · intro k hk
    obtain ⟨h1, h2, h3⟩ := h.ran k hk
    exact ⟨h1, fun hmem => h2 (List.mem_of_mem_erase hmem), h3⟩

theorem Timed.fire (h : Timed td fired) {g : Nat} (hle : g ≤ td.sleep) (hdue : g ∉ td.due)
    (hdog : td.watchdog ≠ some g) (hadded : ∀ w, td.pc = .added w → g ≠ td.sleep) (st : SqState)
    (n : Nat) (hst : st = td.sqState ∧ (td.sqState.dozing = true → g ≠ td.sleep) ∨
      st = .nightmare ∧ g = td.sleep) :
    Timed { td with sqState := st, clears := n } (fun k => k = g ∨ fired k) := by
  refine ⟨h.armed, ⟨?_, h.disarmed.2⟩, h.due, ?_, ?_, ?_⟩
  · intro w hw
    grind [h.disarmed]
  · rintro k (rfl | hk)
    · exact ⟨hle, hdue, hdog⟩
    · exact h.ran k hk
  · intro hasleep hdark
    rcases hst with ⟨rfl, -⟩ | ⟨-, rfl⟩
    · exact .inr (h.timedOut hasleep hdark)
    · exact .inl rfl
  · intro hasleep hran
    rcases hst with ⟨rfl, hother⟩ | ⟨rfl, -⟩
    · by_contra hne
      have hdozing : td.sqState.dozing = true := Bool.not_eq_false _ ▸ hne
      rcases hran with hran | hran
      · exact hother hdozing hran.symm
      · exact hne (h.ended hasleep hran)
    · rfl

end Timed

end RtemsLibbsd.Sleepqueue
