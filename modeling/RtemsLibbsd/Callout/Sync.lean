import RtemsLibbsd.Callout.Model

/-!
# Drains and the locks of callouts

* `SyncOk` — `cc_curr` is set exactly while a callout is being called; a drain call sleeps only while its callout is
  being called and `cc_waiting` says so, or `wakeup` is next; before the handler the processing thread has the lock
  of the callout, and from then on the callout cannot be stopped.
* `SameControl` — what callouts that are put on the wheel and taken off it leave alone.
* `syncOk_step` — every step keeps `SyncOk`.
-/

namespace RtemsLibbsd.Callout

open Option

def Pc.calling : Pc → Bool
  | .lock | .check | .start | .run | .finish => true
  | .idle | .scan | .wake | .relock => false

def Pc.beforeCall : Pc → Bool
  | .lock | .check | .start => true
  | .idle | .scan | .run | .finish | .wake | .relock => false

variable {C L : Type} {cfg : Config C L} {s t : Callouts C L}

structure SyncOk (cfg : Config C L) (s : Callouts C L) : Prop where
  places : s.curr.isSome = s.pc.calling
  sleeping : ∀ d ∈ s.drainers, d.woken = false → (s.curr = some d.callout ∧ s.waiting = true) ∨ s.pc = .wake
  held : ∀ c l, s.curr = some c → cfg.lock c = some l → s.pc = .check ∨ s.pc = .start → s.owner l = some .proc
  locked : ∀ c, s.curr = some c → s.pc.beforeCall = true → (cfg.lock c).isSome = true
  firm : ∀ c, s.curr = some c → (cfg.lock c).isSome = true → s.pc = .run ∨ s.pc = .finish → s.cancel = true

theorem syncOk_free (hcurr : s.curr = none) (hpc : s.pc.calling = false)
    (hdrainers : ∀ d ∈ s.drainers, d.woken = true ∨ s.pc = .wake) : SyncOk cfg s := by
  have hno : ∀ c, s.curr ≠ some c := by
    rw [hcurr]
    nofun
  refine ⟨by simp [hcurr, hpc], fun d hd hw => .inr ?_, fun c _ hc => absurd hc (hno c),
    fun c hc => absurd hc (hno c), fun c hc => absurd hc (hno c)⟩
  exact (hdrainers d hd).resolve_left (by rw [hw]; nofun)

theorem SyncOk.free (h : SyncOk cfg s) (hpc : s.pc.calling = false) : s.curr = none :=
  isNone_iff_eq_none.mp (by rw [← not_isSome, h.places, hpc]; rfl)

theorem SyncOk.awake (h : SyncOk cfg s) (hcurr : s.curr = none ∨ s.waiting = false) (hpc : s.pc ≠ .wake) :
    ∀ d ∈ s.drainers, d.woken = true := by
  intro d hd
  refine Classical.byContradiction fun hw => ?_
  rcases h.sleeping d hd (Bool.eq_false_iff.mpr hw) with ⟨hc, hwaiting⟩ | hwake
  · grind
  · exact hpc hwake

/-! ## The calls of other threads and of handlers -/

/-- The processing thread and the drain calls are where they were. -/
structure SameControl (s t : Callouts C L) : Prop where
  curr : t.curr = s.curr
  currArming : t.currArming = s.currArming
  pc : t.pc = s.pc
  owner : t.owner = s.owner
  waiting : t.waiting = s.waiting
  drainers : t.drainers = s.drainers
  drained : t.drained = s.drained
  cancel : s.cancel = true → t.cancel = true

theorem SameControl.trans {r : Callouts C L} (h : SameControl r s) (h' : SameControl s t) : SameControl r t where
  curr := h'.curr.trans h.curr
  currArming := h'.currArming.trans h.currArming
  pc := h'.pc.trans h.pc
  owner := h'.owner.trans h.owner
  waiting := h'.waiting.trans h.waiting
  drainers := h'.drainers.trans h.drainers
  drained := h'.drained.trans h.drained
  cancel := fun hc => h'.cancel (h.cancel hc)

theorem SyncOk.same (h : SyncOk cfg s) (hs : SameControl s t) : SyncOk cfg t where
  places := by rw [hs.curr, hs.pc, h.places]
  sleeping := by
    rw [hs.drainers, hs.curr, hs.waiting, hs.pc]
    exact h.sleeping
  held := by
    rw [hs.curr, hs.pc, hs.owner]
    exact h.held
  locked := by
    rw [hs.curr, hs.pc]
    exact h.locked
  firm := by
    rw [hs.curr, hs.pc]
    exact fun c hc hl hp => hs.cancel (h.firm c hc hl hp)

variable [DecidableEq C]

theorem sameControl_unlinkPending (s : Callouts C L) (c : C) : SameControl s (unlinkPending s c) := by
  unfold unlinkPending
  split
  · exact ⟨rfl, rfl, rfl, rfl, rfl, rfl, rfl, id⟩
  · exact ⟨rfl, rfl, rfl, rfl, rfl, rfl, rfl, id⟩

theorem sameControl_cancelCurrent (cfg : Config C L) (s : Callouts C L) (c : C) :
    SameControl s (cancelCurrent cfg s c) := by
  unfold cancelCurrent
  split
  · exact ⟨rfl, rfl, rfl, rfl, rfl, rfl, rfl, fun _ => rfl⟩
  · exact ⟨rfl, rfl, rfl, rfl, rfl, rfl, rfl, id⟩

theorem sameControl_reset (cfg : Config C L) (s : Callouts C L) (c : C) (sbt precision : Nat) :
    SameControl s (callout_reset cfg s c sbt precision) := by
  have hcancel := sameControl_cancelCurrent cfg s c
  unfold callout_reset
  dsimp only
  split
  · exact hcancel
  · have hun := hcancel.trans (sameControl_unlinkPending (cancelCurrent cfg s c) c)
    exact hun.trans ⟨rfl, rfl, rfl, rfl, rfl, rfl, rfl, id⟩

theorem sameControl_stop (cfg : Config C L) (s : Callouts C L) (c : C) : SameControl s (callout_stop cfg s c) := by
  unfold callout_stop
  split
  · split
    · exact ⟨rfl, rfl, rfl, rfl, rfl, rfl, rfl, fun _ => rfl⟩
    · exact sameControl_unlinkPending s c
  · split
    · exact ⟨rfl, rfl, rfl, rfl, rfl, rfl, rfl, id⟩
    · exact ⟨rfl, rfl, rfl, rfl, rfl, rfl, rfl, id⟩

theorem sameControl_drainReturn (s : Callouts C L) (c : C) : SameControl s (drainReturn s c) :=
  (sameControl_unlinkPending s c).trans ⟨rfl, rfl, rfl, rfl, rfl, rfl, rfl, id⟩

theorem SyncOk.drain (h : SyncOk cfg s) (c : C) : SyncOk cfg (callout_drain s c) := by
  unfold callout_drain
  dsimp only
  split
  · rename_i hcurr
    refine ⟨h.places, fun d hd hw => ?_, h.held, h.locked, h.firm⟩
    rcases List.mem_append.mp hd with hd | hd
    · exact (h.sleeping d hd hw).imp_left fun hs => ⟨hs.1, rfl⟩
    · rw [List.mem_singleton.mp hd]
      exact .inl ⟨hcurr, rfl⟩
  · have hbegun : SyncOk cfg { s with drained := c :: s.drained } :=
      ⟨h.places, h.sleeping, h.held, h.locked, h.firm⟩
    exact hbegun.same (sameControl_drainReturn _ c)

/-! ## The processing thread -/

theorem SyncOk.call (h : SyncOk cfg s) [DecidableEq L] (hpc : s.pc = .scan) (c : C) :
    SyncOk cfg (softclock_call_cc cfg s c) := by
  have hfree : s.curr = none := h.free (by rw [hpc]; rfl)
  have hawake := h.awake (.inl hfree) (by rw [hpc]; nofun)
  have hsleep : ∀ {P : Prop}, ∀ d ∈ s.drainers, d.woken = false → P := fun d hd hw =>
    Bool.noConfusion (hw.symm.trans (hawake d hd))
  unfold softclock_call_cc
  split
  · rename_i hlock
    refine ⟨rfl, fun d hd hw => hsleep d hd hw, fun d l hd hl => ?_, nofun, fun d hd hl => ?_⟩
    · obtain rfl : c = d := some.inj hd
      rw [hlock] at hl
      cases hl
    · obtain rfl : c = d := some.inj hd
      rw [hlock] at hl
      cases hl
  · rename_i l hlock
    have hlocked : ∀ d, some c = some d → (cfg.lock d).isSome = true := by
      intro d hd
      simp [← some.inj hd, hlock]
    split
    · split
      · refine ⟨rfl, fun d hd hw => hsleep d hd hw, fun d k hd hk _ => ?_, fun d hd _ => hlocked d hd, nofun⟩
        obtain rfl : c = d := some.inj hd
        obtain rfl : l = k := some.inj (hlock.symm.trans hk)
        exact Function.update_self ..
      · exact syncOk_free rfl rfl fun d hd => .inl (hawake d hd)
    · exact ⟨rfl, fun d hd hw => hsleep d hd hw, nofun, fun d hd _ => hlocked d hd, nofun⟩

omit [DecidableEq C] in
theorem SyncOk.goOn (h : SyncOk cfg s) {pc : Pc} {owner : L → Option Owner} {cancel : Bool} {ran : List Nat}
    (hs : s.pc.calling = true) (hp : pc.calling = true)
    (hheld : ∀ c l, s.curr = some c → cfg.lock c = some l → pc = .check ∨ pc = .start → owner l = some .proc)
    (hbefore : pc.beforeCall = true → s.pc.beforeCall = true)
    (hfirm : ∀ c, s.curr = some c → (cfg.lock c).isSome = true → pc = .run ∨ pc = .finish → cancel = true) :
    SyncOk cfg { s with owner := owner, pc := pc, cancel := cancel, ran := ran } where
  places := h.places.trans (hs.trans hp.symm)
  sleeping := fun d hd hw => (h.sleeping d hd hw).imp_right fun hwake => by
    rw [hwake] at hs
    cases hs
  held := hheld
  locked := fun c hc hb => h.locked c hc (hbefore hb)
  firm := hfirm

omit [DecidableEq C] in
theorem SyncOk.others [DecidableEq L] (h : SyncOk cfg s) {l : L} (hl : s.owner l ≠ some .proc) (o : Option Owner) :
    SyncOk cfg { s with owner := Function.update s.owner l o } where
  places := h.places
  sleeping := h.sleeping
  held := by
    intro c k hc hk hpc
    have hproc := h.held c k hc hk hpc
    grind
  locked := h.locked
  firm := h.firm

omit [DecidableEq C] in
theorem syncOk_init : SyncOk cfg (callwheelInit C L) := syncOk_free rfl rfl nofun

/-- **Every step keeps the places of the processing thread and the drain calls together.** -/
theorem syncOk_step [DecidableEq L] {a : Act C L} (h : SyncOk cfg s) (hstep : step cfg s a = some t) :
    SyncOk cfg t := by
  cases move_of_step hstep with
  | process now hpc hnow =>
    have hfree : s.curr = none := h.free (by rw [hpc]; rfl)
    exact syncOk_free hfree rfl fun d hd => .inl (h.awake (.inl hfree) (by rw [hpc]; nofun) d hd)
  | call c hpc hpos hdue => exact h.call hpc c
  | pass c loop hpc hpos hdue hfirst hnow hlast hnext => exact ⟨h.places, h.sleeping, h.held, h.locked, h.firm⟩
  | bucket hpc hpos hlast => exact ⟨h.places, h.sleeping, h.held, h.locked, h.firm⟩
  | endPass hpc hpos hlast =>
    have hfree : s.curr = none := h.free (by rw [hpc]; rfl)
    exact syncOk_free hfree rfl fun d hd => .inl (h.awake (.inl hfree) (by rw [hpc]; nofun) d hd)
  | acquire c l hcurr hlock hpc hfree =>
    refine h.goOn (by rw [hpc]; rfl) rfl (fun d k hd hk _ => ?_) (fun _ => by rw [hpc]; rfl) nofun
    grind
  | skip c hcurr hpc hcancel =>
    unfold unlockProc
    split
    · exact h.goOn (by rw [hpc]; rfl) rfl nofun nofun fun _ _ _ _ => hcancel
    · exact h.goOn (by rw [hpc]; rfl) rfl nofun nofun fun _ _ _ _ => hcancel
  | sure c hcurr hpc hcancel =>
    exact h.goOn (by rw [hpc]; rfl) rfl (fun d l hd hl _ => h.held d l hd hl (.inl hpc)) (fun _ => by rw [hpc]; rfl)
      nofun
  | start hpc => exact h.goOn (by rw [hpc]; rfl) rfl nofun nofun fun _ _ _ _ => rfl
  | handlerReset c sbt precision hcurr hpc => exact h.same (sameControl_reset cfg s c sbt precision)
  | handlerLocks a owner hpc =>
    refine ⟨h.places, h.sleeping, fun d l hd hl hp => ?_, h.locked, h.firm⟩
    rw [hpc] at hp
    rcases hp with hp | hp
    · cases hp
    · cases hp
  | finish owner hpc =>
    exact h.goOn (by rw [hpc]; rfl) rfl nofun nofun fun d hd hl _ => h.firm d hd hl (.inl hpc)
  | wake hpc hwaiting => exact syncOk_free rfl rfl fun _ _ => .inr rfl
  | done hpc hwaiting =>
    exact syncOk_free rfl rfl fun d hd => .inl (h.awake (.inr hwaiting) (by rw [hpc]; nofun) d hd)
  | wakeup hpc =>
    refine syncOk_free (h.free (by rw [hpc]; rfl)) rfl fun d hd => .inl ?_
    obtain ⟨e, -, rfl⟩ := List.mem_map.mp hd
    rfl
  | relock hpc =>
    have hfree : s.curr = none := h.free (by rw [hpc]; rfl)
    exact syncOk_free hfree rfl fun d hd => .inl (h.awake (.inl hfree) (by rw [hpc]; nofun) d hd)
  | reset c sbt precision hpc hdrained => exact h.same (sameControl_reset cfg s c sbt precision)
  | stop o c hpc hmay => exact h.same (sameControl_stop cfg s c)
  | drain c hpc => exact h.drain c
  | drainWoken k c hpc hk =>
    have hsame := sameControl_drainReturn s c
    have hret := h.same hsame
    exact ⟨hret.places,
      fun d hd hw => hret.sleeping d (hsame.drainers ▸ List.mem_of_mem_eraseIdx hd) hw, hret.held, hret.locked,
      hret.firm⟩
  | lockBy t l hfree => exact h.others (by rw [hfree]; nofun) _
  | unlockBy t l hheld => exact h.others (by rw [hheld]; nofun) _

end RtemsLibbsd.Callout
