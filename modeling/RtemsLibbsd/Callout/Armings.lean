import RtemsLibbsd.Callout.Pass
import RtemsLibbsd.Callout.Sync

/-!
# What becomes of an arming

* `Apart` — the handler is called at most once for an arming, and not for one that a successful `callout_stop` ended.
* `Ledger` — every arming was run, was stopped, was ended, waits on the callwheel or is that of the callout that is
  being called; on the wheel again after it was taken off it in the same pass is only a `CALLOUT_TRYLOCK` callout.
* `apart_step`, `ledger_step` — every step keeps both.
-/

namespace RtemsLibbsd.Callout

open List Function

variable {C L : Type} {cfg : Config C L} {s t : Callouts C L}

structure Apart (s : Callouts C L) : Prop where
  known : ∀ n, n ∈ s.ran ∨ n ∈ s.stopped → n < s.armings
  once : s.ran.Nodup
  apart : ∀ n ∈ s.stopped, n ∉ s.ran
  waiting : ∀ c, s.pending c = true → s.arming c ∉ s.ran ∧ s.arming c ∉ s.stopped
  called : s.pc.beforeCall = true → s.currArming ∉ s.ran
  willRun : s.pc.beforeCall = true → s.pc = .start ∨ s.cancel = false → s.currArming ∉ s.stopped

structure SameFate (s t : Callouts C L) : Prop where
  armings : t.armings = s.armings
  ran : t.ran = s.ran
  stopped : t.stopped = s.stopped

theorem apart_init : Apart (callwheelInit C L) where
  known := by
    rintro n (hn | hn)
    · cases hn
    · cases hn
  once := nodup_nil
  apart := nofun
  waiting := nofun
  called := nofun
  willRun := nofun

theorem Apart.fewer (h : Apart s) (hs : SameFate s t)
    (hpending : ∀ c, t.pending c = true → s.pending c = true ∧ t.arming c = s.arming c)
    (hcurr : t.pc.beforeCall = true → s.pc.beforeCall = true ∧ t.currArming = s.currArming)
    (hwill : t.pc.beforeCall = true → t.pc = .start ∨ t.cancel = false → s.pc = .start ∨ s.cancel = false) :
    Apart t where
  known := by
    rw [hs.armings, hs.ran, hs.stopped]
    exact h.known
  once := hs.ran ▸ h.once
  apart := by
    rw [hs.ran, hs.stopped]
    exact h.apart
  waiting := by
    intro c hc
    obtain ⟨hc, harming⟩ := hpending c hc
    rw [hs.ran, hs.stopped, harming]
    exact h.waiting c hc
  called := by
    intro hb
    obtain ⟨hb, heq⟩ := hcurr hb
    rw [hs.ran, heq]
    exact h.called hb
  willRun := by
    intro hb hw
    grind [hs.stopped, h.willRun]

variable {bucket lastscan passStart : Nat} {drainers : List (Drainer C)} {drained returned : List C}
    {owner : L → Option Owner} {cancel waiting : Bool} {loop : Scan C} {pc : Pc}

theorem Apart.frame (h : Apart s) {next curr : Option C}
    {tried ended : List Nat} (hpc : pc.beforeCall = true → s.pc.beforeCall = true)
    (hwill : pc.beforeCall = true → pc = .start ∨ cancel = false → s.pc = .start ∨ s.cancel = false) :
    Apart { s with
      next := next, curr := curr, bucket := bucket, lastscan := lastscan, passStart := passStart, cancel := cancel,
      waiting := waiting, owner := owner, pc := pc, loop := loop, drainers := drainers, drained := drained,
      returned := returned, tried := tried, ended := ended } :=
  h.fewer ⟨rfl, rfl, rfl⟩ (fun _ hc => ⟨hc, rfl⟩) (fun hb => ⟨hpc hb, rfl⟩) hwill

theorem SyncOk.curr_of_beforeCall (h : SyncOk cfg s) (hb : s.pc.beforeCall = true) : ∃ c, s.curr = some c := by
  refine Option.isSome_iff_exists.mp (h.places.trans ?_)
  revert hb
  cases s.pc with
  | lock | check | start => exact fun _ => rfl
  | idle | scan | run | finish | wake | relock => exact nofun

variable {c : C}

/-- Who may stop the callout that is being called, and still can, finds the processing thread before the lock. -/
theorem SyncOk.stop_place [DecidableEq C] [DecidableEq L] (h : SyncOk cfg s) {o : Owner}
    (hmay : MayStop cfg s o c) (hcurr : s.curr = some c) (hlock : (cfg.lock c).isSome = true)
    (hcancel : s.cancel = false) : s.pc = .lock := by
  obtain ⟨l, hl⟩ := Option.isSome_iff_exists.mp hlock
  have howner : s.owner l = some o := hmay.1 l hl
  have hcalling : s.pc.calling = true := h.places.symm.trans (by simp [hcurr])
  have hfirm : s.pc ≠ .run ∧ s.pc ≠ .finish := by
    constructor
    · intro hpc
      exact Bool.noConfusion ((h.firm c hcurr hlock (.inl hpc)).symm.trans hcancel)
    · intro hpc
      exact Bool.noConfusion ((h.firm c hcurr hlock (.inr hpc)).symm.trans hcancel)
  have hheld : s.pc ≠ .check ∧ s.pc ≠ .start := by
    have hno : ¬ (s.pc = .check ∨ s.pc = .start) := by
      intro hpc
      have hproc := h.held c l hcurr hl hpc
      exact hfirm.1 (hmay.2 (Option.some.inj (howner.symm.trans hproc)))
    exact not_or.mp hno
  revert hcalling hfirm hheld
  cases s.pc with
  | lock => exact fun _ _ _ => rfl
  | check => exact fun _ _ hh => absurd rfl hh.1
  | start => exact fun _ _ hh => absurd rfl hh.2
  | run => exact fun _ hf _ => absurd rfl hf.1
  | finish => exact fun _ hf _ => absurd rfl hf.2
  | idle | scan | wake | relock => exact nofun

/-! ## The calls of other threads and of handlers -/

variable [DecidableEq C]

theorem Apart.unlinkPending (h : Apart s) (c : C) : Apart (unlinkPending s c) := by
  unfold Callout.unlinkPending
  split
  · refine h.fewer ⟨rfl, rfl, rfl⟩ (fun d hd => ⟨?_, rfl⟩) (fun hb => ⟨hb, rfl⟩) fun _ hw => hw
    exact (update_eq_true.mp hd).elim (fun h => Bool.noConfusion h.2) fun h => h.2
  · exact h

theorem Apart.cancelCurrent (h : Apart s) (c : C) : Apart (cancelCurrent cfg s c) := by
  unfold Callout.cancelCurrent
  split
  · exact h.frame id fun _ hw => .inl (hw.resolve_right nofun)
  · exact h

theorem Apart.arm (h : Apart s) (c : C) (sbt precision : Nat) :
    Apart { callout_cc_add s c sbt precision s.armings with armings := s.armings + 1 } := by
  have hnew : s.armings ∉ s.ran ∧ s.armings ∉ s.stopped :=
    ⟨fun hm => Nat.lt_irrefl _ (h.known _ (.inl hm)), fun hm => Nat.lt_irrefl _ (h.known _ (.inr hm))⟩
  refine ⟨fun n hn => Nat.lt_succ_of_lt (h.known n hn), h.once, h.apart, fun d hd => ?_, h.called, h.willRun⟩
  show update s.arming c s.armings d ∉ s.ran ∧ update s.arming c s.armings d ∉ s.stopped
  rcases update_eq_true.mp hd with ⟨rfl, -⟩ | ⟨hne, hd⟩
  · rw [update_self]
    exact hnew
  · rw [update_of_ne hne]
    exact h.waiting d hd

theorem Apart.reset (h : Apart s) (c : C) (sbt precision : Nat) : Apart (callout_reset cfg s c sbt precision) := by
  have hcancel : Apart (Callout.cancelCurrent cfg s c) := h.cancelCurrent c
  unfold callout_reset
  dsimp only
  split
  · exact hcancel
  · exact (hcancel.unlinkPending c).arm c sbt precision

theorem Apart.stop [DecidableEq L] (h : Apart s) (hw : WheelOk s) (hs : SyncOk cfg s) {o : Owner}
    (hmay : MayStop cfg s o c) : Apart (callout_stop cfg s c) := by
  unfold callout_stop
  split
  · rename_i hcurr
    split
    · rename_i hcan
      have hpc := hs.stop_place hmay hcurr hcan.1 hcan.2
      have hbefore : s.pc.beforeCall = true := by
        rw [hpc]
        rfl
      refine ⟨fun n hn => ?_, h.once, fun n hn => ?_, fun d hd => ⟨(h.waiting d hd).1, fun hm => ?_⟩, h.called,
        fun _ hw => ?_⟩
      · rcases hn with hn | hn
        · exact h.known n (.inl hn)
        · rcases mem_cons.mp hn with rfl | hn
          · exact hw.current c hcurr
          · exact h.known n (.inr hn)
      · rcases mem_cons.mp hn with rfl | hn
        · exact h.called hbefore
        · exact h.apart n hn
      · rcases mem_cons.mp hm with heq | hm
        · exact hw.other c d hcurr hd heq
        · exact (h.waiting d hd).2 hm
      · rcases hw with hw | hw
        · exact Pc.noConfusion (hpc.symm.trans hw)
        · cases hw
    · exact h.unlinkPending c
  · split
    · rename_i hpending
      have hold : ∀ d, update s.pending c false d = true → d ≠ c ∧ s.pending d = true := fun d hd =>
        (update_eq_true.mp hd).resolve_left fun h => Bool.noConfusion h.2
      refine ⟨fun n hn => ?_, h.once, fun n hn => ?_, fun d hd => ?_, h.called, fun hb hwill hm => ?_⟩
      · rcases hn with hn | hn
        · exact h.known n (.inl hn)
        · rcases mem_cons.mp hn with rfl | hn
          · exact hw.known c hpending
          · exact h.known n (.inr hn)
      · rcases mem_cons.mp hn with rfl | hn
        · exact (h.waiting c hpending).1
        · exact h.apart n hn
      · obtain ⟨hne, hd⟩ := hold d hd
        grind [h.waiting, hw.distinct, unlink]
      · obtain ⟨d, hd⟩ := hs.curr_of_beforeCall hb
        grind [hw.other, h.willRun, unlink]
    · exact h

theorem Apart.drainReturn (h : Apart s) (c : C) : Apart (drainReturn s c) :=
  (h.unlinkPending c).frame id fun _ hw => hw

theorem Apart.drain (h : Apart s) (c : C) : Apart (callout_drain s c) := by
  have hbegun : Apart { s with drained := c :: s.drained } := h.frame id fun _ hw => hw
  unfold callout_drain
  dsimp only
  split
  · exact hbegun.frame id fun _ hw => hw
  · exact hbegun.drainReturn c

/-! ## The processing thread -/

theorem Apart.begin (h : Apart s) (hpending : s.pending c = true) (pc : Pc) (owner : L → Option Owner) :
    Apart { beginCallout s c with owner := owner, pc := pc } := by
  refine ⟨h.known, h.once, h.apart, fun d hd => ?_, fun _ => (h.waiting c hpending).1,
    fun _ _ => (h.waiting c hpending).2⟩
  exact (update_eq_true.mp hd).elim (fun h => Bool.noConfusion h.2) fun hd => h.waiting d hd.2

omit [DecidableEq C] in
theorem Apart.run (h : Apart s) {n : Nat} (hn : n < s.armings) (hran : n ∉ s.ran) (hstopped : n ∉ s.stopped)
    (hother : ∀ d, s.pending d = true → s.arming d ≠ n) (cancel : Bool) :
    Apart { s with cancel := cancel, pc := .run, ran := n :: s.ran } where
  known := by
    rintro m (hm | hm)
    · rcases mem_cons.mp hm with rfl | hm
      · exact hn
      · exact h.known m (.inl hm)
    · exact h.known m (.inr hm)
  once := nodup_cons.mpr ⟨hran, h.once⟩
  apart := by
    intro m hm hr
    rcases mem_cons.mp hr with rfl | hr
    · exact hstopped hm
    · exact h.apart m hm hr
  waiting := by
    intro d hd
    grind [h.waiting]
  called := nofun
  willRun := nofun

theorem Apart.call [DecidableEq L] (h : Apart s) (hp : PassOk s) (hpc : s.pc = .scan)
    (hpos : s.loop.pos = some c) : Apart (softclock_call_cc cfg s c) := by
  obtain ⟨hbegin, hpending⟩ := hp.begin hpc hpos
  have hapart : ∀ pc owner, Apart { beginCallout s c with owner := owner, pc := pc } := h.begin hpending
  unfold softclock_call_cc
  split
  · have hlock := hapart .lock s.owner
    obtain ⟨hran, hstopped⟩ := h.waiting c hpending
    exact hlock.run (hp.wheel.known c hpending) hran hstopped (fun d hd => hbegin.wheel.other c d rfl hd) false
  · split
    · split
      · exact hapart _ _
      · refine ⟨h.known, h.once, h.apart, fun d hd => ?_, nofun, nofun⟩
        show update s.arming c (s.arming c) d ∉ s.ran ∧ update s.arming c (s.arming c) d ∉ s.stopped
        rw [update_eq_self]
        rcases update_eq_true.mp hd with ⟨rfl, -⟩ | ⟨-, hd⟩
        · exact h.waiting d hpending
        · exact (hapart .lock s.owner).waiting d hd
    · exact hapart _ _

/-- **Every step keeps what was run and what was stopped apart.** -/
theorem apart_step [DecidableEq L] {a : Act C L} (h : Apart s) (hp : PassOk s) (hs : SyncOk cfg s)
    (hstep : step cfg s a = some t) : Apart t := by
  cases move_of_step hstep with
  | process now hpc hnow => exact h.frame nofun nofun
  | call c hpc hpos hdue => exact h.call hp hpc hpos
  | pass c loop hpc hpos hdue hfirst hnow hlast hnext => exact h.frame id fun _ hw => hw
  | bucket hpc hpos hlast => exact h.frame id fun _ hw => hw
  | endPass hpc hpos hlast => exact h.frame nofun nofun
  | acquire c l hcurr hlock hpc hfree =>
    exact h.frame (fun _ => by rw [hpc]; rfl) fun _ hw => .inr (hw.resolve_left nofun)
  | skip c hcurr hpc hcancel =>
    unfold unlockProc
    split
    · exact h.frame nofun nofun
    · exact h.frame nofun nofun
  | sure c hcurr hpc hcancel => exact h.frame (fun _ => by rw [hpc]; rfl) fun _ _ => .inr hcancel
  | start hpc =>
    have hbefore : s.pc.beforeCall = true := by
      rw [hpc]
      rfl
    obtain ⟨c, hcurr⟩ := hs.curr_of_beforeCall hbefore
    grind [h.run, hp.wheel.current, h.called, h.willRun, hp.wheel.other]
  | handlerReset c sbt precision hcurr hpc => exact h.reset c sbt precision
  | handlerLocks a owner hpc => exact h.frame id fun _ hw => hw
  | finish owner hpc => exact h.frame nofun nofun
  | wake hpc hwaiting => exact h.frame nofun nofun
  | done hpc hwaiting => exact h.frame nofun nofun
  | wakeup hpc => exact h.frame nofun nofun
  | relock hpc => exact h.frame nofun nofun
  | reset c sbt precision hpc hdrained => exact h.reset c sbt precision
  | stop o c hpc hmay => exact h.stop hp.wheel hs hmay
  | drain c hpc => exact h.drain c
  | drainWoken k c hpc hk => exact (h.drainReturn c).frame id fun _ hw => hw
  | lockBy t l hfree => exact h.frame id fun _ hw => hw
  | unlockBy t l hheld => exact h.frame id fun _ hw => hw

/-! ## No arming is lost -/

def Settled (s : Callouts C L) (n : Nat) : Prop := n ∈ s.ran ∨ n ∈ s.stopped ∨ n ∈ s.ended

def Waits (s : Callouts C L) (n : Nat) : Prop := ∃ c, s.pending c = true ∧ s.arming c = n

structure Ledger (cfg : Config C L) (s : Callouts C L) : Prop where
  account : ∀ n < s.armings, Settled s n ∨ Waits s n ∨ (s.pc.beforeCall = true ∧ s.currArming = n)
  cancelled : s.pc.beforeCall = true → s.pc ≠ .start → s.cancel = true → Settled s s.currArming
  known : ∀ n ∈ s.tried, n < s.armings
  retried : ∀ c, s.pending c = true → s.arming c ∈ s.tried → (cfg.lock c).isSome = true ∧ cfg.trylock c = true

omit [DecidableEq C] in
theorem ledger_init : Ledger cfg (callwheelInit C L) := ⟨nofun, nofun, nofun, nofun⟩

omit [DecidableEq C] in
theorem Ledger.next (h : Ledger cfg s) (harmings : t.armings = s.armings) (htried : ∀ n ∈ t.tried, n ∈ s.tried)
    (hsettled : ∀ n, Settled s n → Settled t n) (hwaits : ∀ n, Waits s n → Settled t n ∨ Waits t n)
    (hold : ∀ c, t.pending c = true → s.pending c = true ∧ t.arming c = s.arming c)
    (hcall : s.pc.beforeCall = true →
      Settled t s.currArming ∨ (t.pc.beforeCall = true ∧ t.currArming = s.currArming))
    (hcancel : t.pc.beforeCall = true → t.pc ≠ .start → t.cancel = true → Settled t t.currArming) : Ledger cfg t where
  account := by
    intro n hn
    rw [harmings] at hn
    rcases h.account n hn with hs | hw | ⟨hb, rfl⟩
    · exact .inl (hsettled n hs)
    · exact (hwaits n hw).imp_right .inl
    · exact (hcall hb).imp_right .inr
  cancelled := hcancel
  known := fun n hn => harmings ▸ h.known n (htried n hn)
  retried := by
    intro c hc hm
    obtain ⟨hc, harming⟩ := hold c hc
    exact h.retried c hc (harming ▸ htried _ hm)

omit [DecidableEq C] in
theorem Ledger.frame (h : Ledger cfg s) {next curr : Option C} {tried : List Nat} (htried : ∀ n ∈ tried, n ∈ s.tried)
    (hcall : s.pc.beforeCall = true → Settled s s.currArming ∨ pc.beforeCall = true)
    (hcancel : pc.beforeCall = true → pc ≠ .start → cancel = true → Settled s s.currArming) :
    Ledger cfg { s with
      next := next, curr := curr, bucket := bucket, lastscan := lastscan, passStart := passStart, cancel := cancel,
      waiting := waiting, owner := owner, pc := pc, loop := loop, drainers := drainers, drained := drained,
      returned := returned, tried := tried } :=
  h.next rfl htried (fun _ => id) (fun _ => .inr) (fun _ hc => ⟨hc, rfl⟩)
    (fun hb => (hcall hb).imp_right fun hb => ⟨hb, rfl⟩) hcancel

omit [DecidableEq C] in
theorem Ledger.away (h : Ledger cfg s) {next curr : Option C} {tried : List Nat} (hs : s.pc.beforeCall = false)
    (hpc : pc.beforeCall = false) (htried : ∀ n ∈ tried, n ∈ s.tried) :
    Ledger cfg { s with
      next := next, curr := curr, bucket := bucket, lastscan := lastscan, passStart := passStart, cancel := cancel,
      waiting := waiting, owner := owner, pc := pc, loop := loop, drainers := drainers, drained := drained,
      returned := returned, tried := tried } :=
  h.frame htried (fun hb => Bool.noConfusion (hs.symm.trans hb)) fun hb => Bool.noConfusion (hpc.symm.trans hb)

theorem waits_unlink {n : Nat} (h : Waits s n) : n = s.arming c ∨ Waits (unlink s c) n := by
  obtain ⟨d, hd, rfl⟩ := h
  by_cases hdc : d = c
  · exact .inl (hdc ▸ rfl)
  · exact .inr ⟨d, (update_of_ne hdc _ _).trans hd, rfl⟩

theorem pending_unlink {c d : C} (h : (unlink s c).pending d = true) : s.pending d = true :=
  (update_eq_true.mp h).elim (fun h => Bool.noConfusion h.2) fun h => h.2

theorem Ledger.unlinkPending (h : Ledger cfg s) (c : C) : Ledger cfg (unlinkPending s c) := by
  unfold Callout.unlinkPending
  split
  · have hmono : ∀ n, Settled s n → Settled { unlink s c with ended := s.arming c :: s.ended } n := fun n hn =>
      hn.imp_right fun hn => hn.imp_right (mem_cons_of_mem _)
    refine h.next rfl (fun _ => id) hmono (fun n hn => ?_) (fun d hd => ⟨pending_unlink hd, rfl⟩)
      (fun hb => .inr ⟨hb, rfl⟩) fun hb hp hc => hmono _ (h.cancelled hb hp hc)
    rcases waits_unlink (c := c) hn with rfl | hw
    · exact .inl (.inr (.inr mem_cons_self))
    · exact .inr hw
  · exact h

theorem Ledger.cancelCurrent (h : Ledger cfg s) (c : C) : Ledger cfg (cancelCurrent cfg s c) := by
  unfold Callout.cancelCurrent
  split
  · refine h.next rfl (fun _ => id) (fun n hn => ?_) (fun _ => .inr) (fun d hd => ⟨hd, rfl⟩)
      (fun hb => .inr ⟨hb, rfl⟩) fun _ _ _ => .inr (.inr mem_cons_self)
    exact hn.imp_right fun hn => hn.imp_right (mem_cons_of_mem _)
  · exact h

theorem Ledger.arm (h : Ledger cfg s) (hc : s.pending c = false) (sbt precision : Nat) :
    Ledger cfg { callout_cc_add s c sbt precision s.armings with armings := s.armings + 1 } where
  account := by
    intro n hn
    rcases Nat.lt_succ_iff_lt_or_eq.mp hn with hn | rfl
    · rcases h.account n hn with hs | ⟨d, hd, hdn⟩ | hcall
      · exact .inl hs
      · have hne : d ≠ c := by
          rintro rfl
          exact Bool.noConfusion (hc.symm.trans hd)
        exact .inr (.inl ⟨d, (update_of_ne hne _ _).trans hd, (update_of_ne hne _ _).trans hdn⟩)
      · exact .inr (.inr hcall)
    · exact .inr (.inl ⟨c, update_self .., update_self ..⟩)
  cancelled := h.cancelled
  known := fun n hn => Nat.lt_succ_of_lt (h.known n hn)
  retried := by
    intro d hd hm
    have hm : update s.arming c s.armings d ∈ s.tried := hm
    rcases update_eq_true.mp hd with ⟨rfl, -⟩ | ⟨hne, hd⟩
    · rw [update_self] at hm
      exact absurd (h.known _ hm) (Nat.lt_irrefl _)
    · rw [update_of_ne hne] at hm
      exact h.retried d hd hm

theorem Ledger.reset (h : Ledger cfg s) (c : C) (sbt precision : Nat) :
    Ledger cfg (callout_reset cfg s c sbt precision) := by
  have hcancel := h.cancelCurrent c
  unfold callout_reset
  dsimp only
  split
  · exact hcancel
  · exact (hcancel.unlinkPending c).arm (pending_unlinkPending _ c) sbt precision

theorem Ledger.stop (h : Ledger cfg s) (c : C) : Ledger cfg (callout_stop cfg s c) := by
  unfold callout_stop
  split
  · split
    · refine h.next rfl (fun _ => id) (fun n hn => ?_) (fun _ => .inr) (fun d hd => ⟨hd, rfl⟩)
        (fun hb => .inr ⟨hb, rfl⟩) fun _ _ _ => .inr (.inl mem_cons_self)
      exact hn.imp_right fun hn => hn.imp_left (mem_cons_of_mem _)
    · exact h.unlinkPending c
  · split
    · have hmono : ∀ n, Settled s n → Settled { unlink s c with stopped := s.arming c :: s.stopped } n := fun n hn =>
        hn.imp_right fun hn => hn.imp_left (mem_cons_of_mem _)
      refine h.next rfl (fun _ => id) hmono (fun n hn => ?_) (fun d hd => ⟨pending_unlink hd, rfl⟩)
        (fun hb => .inr ⟨hb, rfl⟩) fun hb hp hc => hmono _ (h.cancelled hb hp hc)
      rcases waits_unlink (c := c) hn with rfl | hw
      · exact .inl (.inr (.inl mem_cons_self))
      · exact .inr hw
    · exact h

theorem Ledger.drainReturn (h : Ledger cfg s) (c : C) : Ledger cfg (drainReturn s c) := by
  have hun := h.unlinkPending c
  exact hun.frame (fun _ => id) (fun hb => .inr hb) hun.cancelled

theorem Ledger.drain (h : Ledger cfg s) (c : C) : Ledger cfg (callout_drain s c) := by
  have hbegun : Ledger cfg { s with drained := c :: s.drained } :=
    h.frame (fun _ => id) (fun hb => .inr hb) h.cancelled
  unfold callout_drain
  dsimp only
  split
  · exact hbegun.frame (fun _ => id) (fun hb => .inr hb) hbegun.cancelled
  · exact hbegun.drainReturn c

theorem Ledger.begin (h : Ledger cfg s) (hw : WheelOk s) (hpc : s.pc.beforeCall = false)
    (hpending : s.pending c = true) {ran : List Nat} (hran : ∀ n ∈ s.ran, n ∈ ran)
    (hcall : s.arming c ∈ ran ∨ pc.beforeCall = true) (owner : L → Option Owner) :
    Ledger cfg { beginCallout s c with owner := owner, pc := pc, ran := ran } where
  account := by
    intro n hn
    rcases h.account n hn with hs | ⟨d, hd, rfl⟩ | ⟨hb, -⟩
    · exact .inl (hs.imp_left (hran n))
    · by_cases hdc : d = c
      · subst hdc
        exact hcall.imp .inl fun hb => .inr ⟨hb, rfl⟩
      · exact .inr (.inl ⟨d, (update_of_ne hdc _ _).trans hd, rfl⟩)
    · exact Bool.noConfusion (hpc.symm.trans hb)
  cancelled := nofun
  known := by
    intro n hn
    rcases mem_cons.mp hn with rfl | hn
    · exact hw.known c hpending
    · exact h.known n hn
  retried := by
    intro d hd hm
    obtain ⟨hne, hd⟩ := (update_eq_true.mp hd).resolve_left fun h => Bool.noConfusion h.2
    grind [h.retried, hw.distinct, beginCallout]

theorem Ledger.putBack (h : Ledger cfg s) (hw : WheelOk s) (hpc : s.pc.beforeCall = false)
    (hpending : s.pending c = true) (hlock : (cfg.lock c).isSome = true) (htry : cfg.trylock c = true) :
    Ledger cfg (putBack s c) := by
  have hbegin : Ledger cfg { beginCallout s c with owner := s.owner, pc := .lock, ran := s.ran } :=
    h.begin hw hpc hpending (fun _ => id) (.inr rfl) s.owner
  have harming : (Callout.putBack s c).arming = s.arming := update_eq_self ..
  have hold : ∀ d, (Callout.putBack s c).pending d = true ↔ s.pending d = true := by
    intro d
    show update (update s.pending c false) c true d = true ↔ _
    grind
  refine ⟨fun n hn => ?_, nofun, hbegin.known, fun d hd hm => ?_⟩
  · rcases h.account n hn with hs | ⟨d, hd, rfl⟩ | ⟨hb, -⟩
    · exact .inl hs
    · exact .inr (.inl ⟨d, (hold d).mpr hd, congrFun harming d⟩)
    · exact Bool.noConfusion (hpc.symm.trans hb)
  · by_cases hdc : d = c
    · subst hdc
      exact ⟨hlock, htry⟩
    · rw [harming] at hm
      exact hbegin.retried d ((update_of_ne hdc _ _).trans ((hold d).mp hd)) hm

theorem Ledger.call [DecidableEq L] (h : Ledger cfg s) (hp : PassOk s) (hpc : s.pc = .scan)
    (hpos : s.loop.pos = some c) : Ledger cfg (softclock_call_cc cfg s c) := by
  obtain ⟨-, hpending⟩ := hp.begin hpc hpos
  have haway : s.pc.beforeCall = false := by
    rw [hpc]
    rfl
  unfold softclock_call_cc
  split
  · exact h.begin hp.wheel haway hpending (fun _ => mem_cons_of_mem _) (.inl mem_cons_self) s.owner
  · rename_i l hlock
    split
    · rename_i htry
      split
      · exact h.begin hp.wheel haway hpending (fun _ => id) (.inr rfl) _
      · exact h.putBack hp.wheel haway hpending (by rw [hlock]; rfl) htry
    · exact h.begin hp.wheel haway hpending (fun _ => id) (.inr rfl) s.owner

/-- **Every step keeps account of the armings.** -/
theorem ledger_step [DecidableEq L] {a : Act C L} (h : Ledger cfg s) (hp : PassOk s)
    (hstep : step cfg s a = some t) : Ledger cfg t := by
  have hkeep : ∀ n ∈ s.tried, n ∈ s.tried := fun _ => id
  have hat : ∀ {p : Pc}, s.pc = p → p.beforeCall = false → s.pc.beforeCall = false := fun hpc hb => hpc ▸ hb
  cases move_of_step hstep with
  | process now hpc hnow => exact h.away (hat hpc rfl) rfl nofun
  | call c hpc hpos hdue => exact h.call hp hpc hpos
  | pass c loop hpc hpos hdue hfirst hnow hlast hnext => exact h.away (hat hpc rfl) (hat hpc rfl) hkeep
  | bucket hpc hpos hlast => exact h.away (hat hpc rfl) (hat hpc rfl) hkeep
  | endPass hpc hpos hlast => exact h.away (hat hpc rfl) rfl hkeep
  | acquire c l hcurr hlock hpc hfree =>
    refine h.frame hkeep (fun _ => .inr rfl) fun _ _ hc => h.cancelled (by rw [hpc]; rfl) ?_ hc
    rw [hpc]
    nofun
  | skip c hcurr hpc hcancel =>
    have hsettled : Settled s s.currArming := h.cancelled (by rw [hpc]; rfl) (by rw [hpc]; nofun) hcancel
    grind [unlockProc, h.frame]
  | sure c hcurr hpc hcancel => exact h.frame hkeep (fun _ => .inr rfl) fun _ hne => absurd rfl hne
  | start hpc =>
    refine h.next rfl hkeep (fun n hn => ?_) (fun _ => .inr) (fun d hd => ⟨hd, rfl⟩)
      (fun _ => .inl (.inl mem_cons_self)) nofun
    exact hn.imp_left (mem_cons_of_mem _)
  | handlerReset c sbt precision hcurr hpc => exact h.reset c sbt precision
  | handlerLocks a owner hpc => exact h.away (hat hpc rfl) (hat hpc rfl) hkeep
  | finish owner hpc => exact h.away (hat hpc rfl) rfl hkeep
  | wake hpc hwaiting => exact h.away (hat hpc rfl) rfl hkeep
  | done hpc hwaiting => exact h.away (hat hpc rfl) rfl hkeep
  | wakeup hpc => exact h.away (hat hpc rfl) rfl hkeep
  | relock hpc => exact h.away (hat hpc rfl) rfl hkeep
  | reset c sbt precision hpc hdrained => exact h.reset c sbt precision
  | stop o c hpc hmay => exact h.stop c
  | drain c hpc => exact h.drain c
  | drainWoken k c hpc hk =>
    have hret := h.drainReturn c
    exact hret.frame (fun _ => id) (fun hb => .inr hb) hret.cancelled
  | lockBy t l hfree => exact h.frame hkeep (fun hb => .inr hb) h.cancelled
  | unlockBy t l hheld => exact h.frame hkeep (fun hb => .inr hb) h.cancelled

omit [DecidableEq C] in
theorem Ledger.passed (h : Ledger cfg s) (hp : PassOk s) (hpc : s.pc = .idle) {n : Nat} (hn : n < s.passStart) :
    Settled s n ∨ ∃ c, s.pending c = true ∧ s.arming c = n ∧
      (s.lastscan < s.time c ∨ (n ∈ s.tried ∧ (cfg.lock c).isSome = true ∧ cfg.trylock c = true)) := by
  rcases h.account n (Nat.lt_of_lt_of_le hn hp.began) with hs | ⟨c, hc, rfl⟩ | ⟨hb, -⟩
  · exact .inl hs
  · refine .inr ⟨c, hc, rfl, ?_⟩
    rcases Nat.lt_or_ge s.lastscan (s.time c) with hlater | hdue
    · exact .inl hlater
    · have hplace := hp.place
      rw [hpc] at hplace
      have htried : s.arming c ∈ s.tried := Classical.byContradiction fun hno => hplace c ⟨hc, hdue, hn, hno⟩
      exact .inr ⟨htried, h.retried c hc htried⟩
  · rw [hpc] at hb
    cases hb

end RtemsLibbsd.Callout
