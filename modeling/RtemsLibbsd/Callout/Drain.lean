import RtemsLibbsd.Callout.Armings

/-!
# Draining callouts

* `WillRun` — the handler runs, or is going to be called and has not been cancelled.
* `Kept` — the condition on a step: a drain call that was woken up does not get `cc_lock` back while its callout is
  being called again; it does not look at `cc_curr` a second time.
* `CalloutsOk` — what drain calls, successful stops and passes promise.
* `calloutsOk_iff` — the promises hold throughout a run exactly when its steps meet the condition.
* `rearmRun_breaks` — a run in which a drain call returns while the handler runs.
-/

namespace RtemsLibbsd.Callout

open List Function RtemsLibbsd.Transition

variable {C L : Type} {cfg : Config C L} {s t : Callouts C L}

/-- The handler of `c` runs, or is going to be called and has not been cancelled. -/
def WillRun (s : Callouts C L) (c : C) : Prop :=
  s.curr = some c ∧ (s.pc = .run ∨ s.pc = .start ∨ (s.pc.beforeCall = true ∧ s.cancel = false))

instance [DecidableEq C] (s : Callouts C L) (c : C) : Decidable (WillRun s c) := inferInstanceAs (Decidable (_ ∧ _))

/-- A drain call that was woken up finds its callout at rest. -/
def Kept (s : Callouts C L) : Act C L → Prop
  | .drainWoken k => ∀ d ∈ s.drainers[k]?, d.woken = true → ¬ WillRun s d.callout
  | _ => True

instance [DecidableEq C] (s : Callouts C L) : ∀ a, Decidable (Kept s a)
  | .drainWoken k => inferInstanceAs (Decidable (∀ d ∈ s.drainers[k]?, d.woken = true → ¬ WillRun s d.callout))
  | .process _ | .scan | .acquire | .check | .start | .handlerReset _ _ | .handlerLock _ | .handlerUnlock _
  | .finish | .done | .wakeup | .relock | .reset _ _ _ | .stop _ _ | .drain _ | .lockBy _ _ | .unlockBy _ _ =>
    inferInstanceAs (Decidable True)

/-- What the callouts promise in one state. -/
structure CalloutsOk (cfg : Config C L) (s : Callouts C L) : Prop where
  returned : ∀ c ∈ s.returned, s.pending c = false ∧ ¬ WillRun s c
  /-- A drain call sleeps only while its callout is being called, or is about to be woken up. -/
  sleeping : ∀ d ∈ s.drainers, d.woken = false → (s.curr = some d.callout ∧ s.waiting = true) ∨ s.pc = .wake
  stopped : ∀ n ∈ s.stopped, n ∉ s.ran
  once : s.ran.Nodup
  passed : s.pc = .idle → ∀ n < s.passStart, Settled s n ∨ ∃ c, s.pending c = true ∧ s.arming c = n ∧
    (s.lastscan < s.time c ∨ (n ∈ s.tried ∧ (cfg.lock c).isSome = true ∧ cfg.trylock c = true))

/-- The callouts for which a drain call has returned are at rest. -/
structure DrainOk (s : Callouts C L) : Prop where
  sleepers : ∀ c ∈ s.drainers.map Drainer.callout, c ∈ s.drained
  began : ∀ c ∈ s.returned, c ∈ s.drained
  idle : ∀ c ∈ s.returned, s.pending c = false
  quiet : ∀ c ∈ s.returned, ¬ WillRun s c

theorem DrainOk.next (h : DrainOk s) (hreturned : t.returned = s.returned) (hdrained : ∀ c ∈ s.drained, c ∈ t.drained)
    (hsleepers : ∀ c ∈ t.drainers.map Drainer.callout, c ∈ s.drainers.map Drainer.callout)
    (hpending : ∀ c, t.pending c = true → s.pending c = true) (hwill : ∀ c, WillRun t c → WillRun s c) :
    DrainOk t where
  sleepers := fun c hc => hdrained c (h.sleepers c (hsleepers c hc))
  began := fun c hc => hdrained c (h.began c (hreturned ▸ hc))
  idle := fun c hc => Bool.eq_false_iff.mpr fun hp =>
    Bool.noConfusion ((h.idle c (hreturned ▸ hc)).symm.trans (hpending c hp))
  quiet := fun c hc hw => h.quiet c (hreturned ▸ hc) (hwill c hw)

theorem DrainOk.away (h : DrainOk s) {next curr : Option C} {bucket lastscan passStart : Nat} {cancel waiting : Bool}
    {owner : L → Option Owner} {pc : Pc} {loop : Scan C} {tried : List Nat} (hrun : pc ≠ .run)
    (hbefore : pc.beforeCall = false) :
    DrainOk { s with
      next := next, curr := curr, bucket := bucket, lastscan := lastscan, passStart := passStart, cancel := cancel,
      waiting := waiting, owner := owner, pc := pc, loop := loop, tried := tried } := by
  refine h.next rfl (fun _ => id) (fun _ => id) (fun _ => id) ?_
  rintro c ⟨-, hpc | hpc | ⟨hpc, -⟩⟩
  · exact absurd hpc hrun
  · rw [show pc = .start from hpc] at hbefore
    cases hbefore
  · exact Bool.noConfusion (hbefore.symm.trans hpc)

variable {c : C}

theorem SameControl.willRun (h : SameControl s t) (hw : WillRun t c) : WillRun s c := by
  obtain ⟨hc, hpc⟩ := hw
  rw [h.pc] at hpc
  refine ⟨h.curr ▸ hc, hpc.imp_right fun hpc => hpc.imp_right fun hb => ⟨hb.1, ?_⟩⟩
  refine Bool.eq_false_iff.mpr fun hcancel => ?_
  exact Bool.noConfusion (hb.2.symm.trans (h.cancel hcancel))

theorem DrainOk.same (h : DrainOk s) (hs : SameControl s t) (hreturned : t.returned = s.returned)
    (hpending : ∀ c, t.pending c = true → s.pending c = true) : DrainOk t :=
  h.next hreturned (fun _ hc => hs.drained ▸ hc) (fun _ hc => hs.drainers ▸ hc) hpending fun _ => hs.willRun

variable [DecidableEq C]

theorem unlinkPending_returned (s : Callouts C L) (c : C) : (unlinkPending s c).returned = s.returned := by
  unfold unlinkPending
  split
  · rfl
  · rfl

theorem pending_of_unlinkPending {c d : C} (h : (unlinkPending s c).pending d = true) : s.pending d = true := by
  unfold unlinkPending at h
  split at h
  · exact pending_unlink h
  · exact h

theorem DrainOk.unlinkPending (h : DrainOk s) (c : C) : DrainOk (unlinkPending s c) :=
  h.same (sameControl_unlinkPending s c) (unlinkPending_returned s c) fun _ => pending_of_unlinkPending

theorem DrainOk.cancelCurrent (h : DrainOk s) (c : C) : DrainOk (cancelCurrent cfg s c) := by
  refine h.same (sameControl_cancelCurrent cfg s c) ?_ fun d hd => ?_
  · unfold Callout.cancelCurrent
    split
    · rfl
    · rfl
  · unfold Callout.cancelCurrent at hd
    split at hd
    · exact hd
    · exact hd

theorem DrainOk.reset (h : DrainOk s) (hc : c ∉ s.returned) (sbt precision : Nat) :
    DrainOk (callout_reset cfg s c sbt precision) := by
  have hcancel : DrainOk (Callout.cancelCurrent cfg s c) := h.cancelCurrent c
  have hkeep : (Callout.cancelCurrent cfg s c).returned = s.returned := by
    unfold Callout.cancelCurrent
    split
    · rfl
    · rfl
  rw [← hkeep] at hc
  unfold callout_reset
  dsimp only
  generalize Callout.cancelCurrent cfg s c = r at *
  split
  · exact hcancel
  · have hun := hcancel.unlinkPending c
    rw [← unlinkPending_returned r c] at hc
    refine ⟨hun.sleepers, hun.began, fun d hd => ?_, hun.quiet⟩
    have hne : d ≠ c := by
      rintro rfl
      exact hc hd
    exact (update_of_ne hne _ _).trans (hun.idle d hd)

theorem DrainOk.stop (h : DrainOk s) (c : C) : DrainOk (callout_stop cfg s c) := by
  refine h.same (sameControl_stop cfg s c) ?_ fun d hd => ?_
  · unfold callout_stop
    grind [Callout.unlinkPending, unlink]
  · grind [callout_stop, pending_of_unlinkPending, pending_unlink]

theorem DrainOk.drainReturn (h : DrainOk s) (hc : c ∈ s.drained) (hquiet : ¬ WillRun s c) :
    DrainOk (drainReturn s c) := by
  have hsame := sameControl_drainReturn s c
  have hun := h.unlinkPending c
  refine ⟨hun.sleepers, fun d hd => ?_, fun d hd => ?_, fun d hd hw => ?_⟩
  · rcases mem_cons.mp hd with rfl | hd
    · rw [hsame.drained]
      exact hc
    · rw [hsame.drained]
      exact h.began d (unlinkPending_returned s c ▸ hd)
  · rcases mem_cons.mp hd with rfl | hd
    · exact pending_unlinkPending s d
    · exact hun.idle d (unlinkPending_returned s c ▸ hd)
  · rcases mem_cons.mp hd with rfl | hd
    · exact hquiet (hsame.willRun hw)
    · exact h.quiet d (unlinkPending_returned s c ▸ hd) (hsame.willRun hw)

theorem DrainOk.drain (h : DrainOk s) (c : C) : DrainOk (callout_drain s c) := by
  have hbegun : DrainOk { s with drained := c :: s.drained } :=
    h.next rfl (fun _ => mem_cons_of_mem _) (fun _ => id) (fun _ => id) fun _ => id
  unfold callout_drain
  dsimp only
  split
  · refine ⟨fun d hd => ?_, hbegun.began, hbegun.idle, hbegun.quiet⟩
    grind [hbegun.sleepers]
  · rename_i hcurr
    exact hbegun.drainReturn mem_cons_self fun hw => hcurr hw.1

theorem DrainOk.begin (h : DrainOk s) (hpending : s.pending c = true) (owner : L → Option Owner) (pc : Pc)
    (ran : List Nat) : DrainOk { beginCallout s c with owner := owner, pc := pc, ran := ran } where
  sleepers := h.sleepers
  began := h.began
  idle := by
    intro d hd
    refine Bool.eq_false_iff.mpr fun hp => ?_
    have hold := (update_eq_true.mp hp).resolve_left fun h => Bool.noConfusion h.2
    exact Bool.noConfusion ((h.idle d hd).symm.trans hold.2)
  quiet := by
    intro d hd hw
    obtain rfl : c = d := Option.some.inj hw.1
    exact Bool.noConfusion ((h.idle c hd).symm.trans hpending)

theorem DrainOk.call [DecidableEq L] (h : DrainOk s) (hpending : s.pending c = true) :
    DrainOk (softclock_call_cc cfg s c) := by
  unfold softclock_call_cc
  split
  · exact h.begin hpending s.owner .run _
  · split
    · split
      · exact h.begin hpending _ .start s.ran
      · have hnot : c ∉ s.returned := fun hc => Bool.noConfusion ((h.idle c hc).symm.trans hpending)
        refine ⟨h.sleepers, h.began, fun d hd => ?_, fun d _ hw => Option.some_ne_none d hw.1.symm⟩
        have hne : d ≠ c := by
          rintro rfl
          exact hnot hd
        show update (update s.pending c false) c true d = false
        rw [update_of_ne hne, update_of_ne hne]
        exact h.idle d hd
    · exact h.begin hpending s.owner .lock s.ran

variable {a : Act C L}

/-- **Every step that meets the condition leaves the drained callouts at rest.** -/
theorem drainOk_step [DecidableEq L] (h : DrainOk s) (hp : PassOk s) (hk : Kept s a)
    (hstep : step cfg s a = some t) : DrainOk t := by
  cases move_of_step hstep with
  | process now hpc hnow => exact h.away nofun rfl
  | call c hpc hpos hdue => exact h.call (hp.begin hpc hpos).2
  | pass c loop hpc hpos hdue hfirst hnow hlast hnext =>
    exact h.next rfl (fun _ => id) (fun _ => id) (fun _ => id) fun _ => id
  | bucket hpc hpos hlast => exact h.next rfl (fun _ => id) (fun _ => id) (fun _ => id) fun _ => id
  | endPass hpc hpos hlast => exact h.away nofun rfl
  | acquire c l hcurr hlock hpc hfree =>
    refine h.next rfl (fun _ => id) (fun _ => id) (fun _ => id) fun d hw => ⟨hw.1, ?_⟩
    grind [Pc.beforeCall, WillRun]
  | skip c hcurr hpc hcancel =>
    unfold unlockProc
    split
    · exact h.away nofun rfl
    · exact h.away nofun rfl
  | sure c hcurr hpc hcancel =>
    exact h.next rfl (fun _ => id) (fun _ => id) (fun _ => id) fun d hw => ⟨hw.1, .inr (.inr ⟨by rw [hpc]; rfl, hcancel⟩)⟩
  | start hpc => exact h.next rfl (fun _ => id) (fun _ => id) (fun _ => id) fun d hw => ⟨hw.1, .inr (.inl hpc)⟩
  | handlerReset c sbt precision hcurr hpc => exact h.reset (fun hc => h.quiet c hc ⟨hcurr, .inl hpc⟩) sbt precision
  | handlerLocks a owner hpc => exact h.next rfl (fun _ => id) (fun _ => id) (fun _ => id) fun _ => id
  | finish owner hpc => exact h.away nofun rfl
  | wake hpc hwaiting => exact h.away nofun rfl
  | done hpc hwaiting => exact h.away nofun rfl
  | wakeup hpc =>
    have haway : DrainOk { s with pc := .relock } := h.away nofun rfl
    refine haway.next rfl (fun _ => id) (fun c hc => ?_) (fun _ => id) fun _ => id
    rwa [map_map] at hc
  | relock hpc => exact h.away nofun rfl
  | reset c sbt precision hpc hdrained => exact h.reset (fun hc => hdrained (h.began c hc)) sbt precision
  | stop o c hpc hmay => exact h.stop c
  | drain c hpc => exact h.drain c
  | drainWoken k c hpc hwoken =>
    have hbegan : c ∈ s.drained := h.sleepers c (mem_map_of_mem (mem_of_getElem? hwoken))
    have hret := h.drainReturn hbegan (hk _ hwoken rfl)
    refine hret.next rfl (fun _ => id) (fun d hd => ?_) (fun _ => id) fun _ => id
    rw [(sameControl_drainReturn s c).drainers]
    obtain ⟨e, he, rfl⟩ := mem_map.mp hd
    exact mem_map_of_mem (mem_of_mem_eraseIdx he)
  | lockBy t l hfree => exact h.next rfl (fun _ => id) (fun _ => id) (fun _ => id) fun _ => id
  | unlockBy t l hheld => exact h.next rfl (fun _ => id) (fun _ => id) (fun _ => id) fun _ => id

/-! ## Runs -/

structure Processed (cfg : Config C L) (s : Callouts C L) : Prop where
  pass : PassOk s
  sync : SyncOk cfg s
  apart : Apart s
  ledger : Ledger cfg s
  drain : DrainOk s

omit [DecidableEq C] in
theorem processed_init : Processed cfg (callwheelInit C L) :=
  ⟨passOk_init, syncOk_init, apart_init, ledger_init, nofun, nofun, nofun, nofun⟩

theorem Processed.step [DecidableEq L] (h : Processed cfg s) (hk : Kept s a)
    (hstep : step cfg s a = some t) : Processed cfg t where
  pass := passOk_step h.pass hstep
  sync := syncOk_step h.sync hstep
  apart := apart_step h.apart h.pass h.sync hstep
  ledger := ledger_step h.ledger h.pass hstep
  drain := drainOk_step h.drain h.pass hk hstep

omit [DecidableEq C] in
theorem Processed.calloutsOk (h : Processed cfg s) : CalloutsOk cfg s where
  returned := fun c hc => ⟨h.drain.idle c hc, h.drain.quiet c hc⟩
  sleeping := h.sync.sleeping
  stopped := h.apart.apart
  once := h.apart.once
  passed := fun hpc _ => h.ledger.passed h.pass hpc

theorem willRun_drainReturn (h : WillRun s c) : WillRun (drainReturn s c) c := by
  unfold drainReturn unlinkPending
  split
  · exact h
  · exact h

theorem drainWoken_spec [DecidableEq L] {k : Nat} (hstep : step cfg s (.drainWoken k) = some t) :
    ∃ c, s.drainers[k]? = some ⟨c, true⟩ ∧ t = { drainReturn s c with drainers := s.drainers.eraseIdx k } := by
  simp only [step] at hstep
  split at hstep
  · grind
  · cases hstep

theorem not_calloutsOk [DecidableEq L] (hk : ¬ Kept s a) (hstep : step cfg s a = some t) :
    ¬ CalloutsOk cfg t := by
  intro hok
  refine hk ?_
  cases a with
  | drainWoken k =>
    obtain ⟨c, hwoken, rfl⟩ := drainWoken_spec hstep
    intro d hd hw hwill
    obtain rfl : ⟨c, true⟩ = d := Option.some.inj (hwoken.symm.trans hd)
    exact (hok.returned c mem_cons_self).2 (willRun_drainReturn hwill)
  | _ => exact trivial

/-- **Drain calls, stops and passes.**  They keep their promises throughout a run exactly when no drain call that was
    woken up gets `cc_lock` back while its callout is being called again. -/
theorem calloutsOk_iff [DecidableEq L] (cfg : Config C L) {acts : List (Act C L)} {s : Callouts C L}
    (hrun : run (step cfg) (callwheelInit C L) acts = some s) :
    Throughout (step cfg) (CalloutsOk cfg) (callwheelInit C L) acts ↔
      StepsMeet (step cfg) Kept (callwheelInit C L) acts :=
  good_iff_stepsMeet (fun _ => Processed.calloutsOk) (fun _ _ _ h hk hst => h.step hk hst)
    (fun _ _ _ _ hk hst => not_calloutsOk hk hst) acts _ s processed_init hrun

def calloutsAfter (cfg : Config Nat Nat) (acts : List (Act Nat Nat)) : Callouts Nat Nat :=
  (run (step cfg) (callwheelInit Nat Nat) acts).getD (callwheelInit Nat Nat)

/-- Callout 1 has no lock, and callout 2 has `CALLOUT_TRYLOCK`. -/
def lockConfig : Config Nat Nat := ⟨fun c => if c = 1 then none else some c, fun c => c = 2, fun _ => false⟩

/-- In one pass callout 2 is put back, callout 1 re-arms itself and is drained, and callout 0 is stopped by the thread
    that has its lock. -/
def drainRun : List (Act Nat Nat) :=
  [.reset 0 0 0, .reset 1 0 0, .reset 2 0 33554432, .lockBy 7 0, .lockBy 8 2, .process 0, .scan, .scan,
    .handlerReset 16777216 0, .drain 1, .finish, .done, .wakeup, .relock, .scan, .drainWoken 0, .stop (.thread 7) 0,
    .unlockBy 7 0, .acquire, .check, .done] ++ List.replicate 17 .scan

theorem calloutsOk_iff_drainRun :
    (calloutsAfter lockConfig drainRun).pc = .idle ∧ (calloutsAfter lockConfig drainRun).returned = [1] ∧
      (calloutsAfter lockConfig drainRun).ran = [1] ∧ (calloutsAfter lockConfig drainRun).stopped = [0] ∧
      CalloutsOk lockConfig (calloutsAfter lockConfig drainRun) :=
  ⟨by decide, by decide, by decide, by decide,
    (calloutsOk_iff lockConfig rfl).mpr (by decide) drainRun (prefix_refl _) _ rfl⟩

/-- The handler re-arms its callout for the next tick, the callout is drained, and the drain call gets `cc_lock` back
    only in the next pass. -/
def rearmRun : List (Act Nat Nat) :=
  [.reset 1 42949672 0, .process 42949672, .scan, .scan, .scan, .handlerReset 85899344 0, .drain 1, .finish, .done,
    .wakeup, .relock] ++ List.replicate 31 .scan ++ [.process 85899344] ++ List.replicate 4 .scan ++ [.drainWoken 0]

theorem rearmRun_breaks :
    ∃ s, run (step lockConfig) (callwheelInit Nat Nat) rearmRun = some s ∧ s.returned = [1] ∧ s.pc = .run ∧
      s.curr = some 1 ∧ ¬ CalloutsOk lockConfig s := by
  refine ⟨calloutsAfter lockConfig rearmRun, rfl, by decide, by decide, by decide, fun h => ?_⟩
  exact (h.returned 1 (by decide)).2 (by decide)

end RtemsLibbsd.Callout
