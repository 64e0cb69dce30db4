import Mathlib.Algebra.Order.BigOperators.Group.List
import Mathlib.Algebra.Order.Ring.Int
import RtemsLibbsd.Rpcio.Completion
import RtemsLibbsd.Rpcio.RetryPeriod

/-!
# The lifetime of a call

* `scheduled`, `recordStep` — the waiting periods of one call, recorded next to the state.
* `Silent` — no reply is matched to the call, and `sendto` takes its datagrams.
* **`Account.step`** — what the recorded periods have to do with the lifetime of the call.

Principal result: `lifetime_of_run`.  XIDs may wrap around, other calls may be answered or fail, and the retry
periods may be any positive numbers.  The test of `tolive` is strict: a call that has nothing left, but does not
owe anything, is transmitted once more.
-/

namespace RtemsLibbsd.Rpcio

open List RtemsLibbsd.Transition

/-- The period that a step schedules for the call `j`. -/
def scheduled (ticksPerSec j : Nat) (s : State) : Act → List Int
  | .work true =>
    match s.listHead with
    | [] => []
    | p :: _ =>
      if (s.xact p).age ≤ s.now ∧ 0 ≤ (s.xact p).tolive ∧ (s.xact p).call = some j then
        [@period ticksPerSec s p]
      else []
  | _ => []

/-- A step, and the periods that were scheduled for the call `j` so far. -/
def recordStep (ticksPerSec j : Nat) (x : State × List Int) (a : Act) : Option (State × List Int) :=
  (step ticksPerSec x.1 a).map fun t => (t, x.2 ++ scheduled ticksPerSec j x.1 a)

/-- No reply is matched to the transaction of the call `j`, and `sendto` does not fail for it. -/
def Silent (j : Nat) (s : State) : Act → Prop
  | .rcv k port =>
    match sockRcv s (s.call k).xid port with
    | .found p => (s.xact p).call ≠ some j
    | _ => True
  | .work false => ∀ p ∈ s.listHead.head?, (s.xact p).age ≤ s.now → 0 ≤ (s.xact p).tolive → (s.xact p).call ≠ some j
  | _ => True

instance (j : Nat) (s : State) : (a : Act) → Decidable (Silent j s a)
  | .rcv k port =>
    have hrcv (r : Rcv) : Decidable (match r with
        | .found p => (s.xact p).call ≠ some j
        | _ => True) :=
      match r with
      | .found p => inferInstanceAs (Decidable ((s.xact p).call ≠ some j))
      | .drop | .fault => inferInstanceAs (Decidable True)
    hrcv (sockRcv s (s.call k).xid port)
  | .work false =>
    inferInstanceAs (Decidable (∀ p ∈ s.listHead.head?, (s.xact p).age ≤ s.now → 0 ≤ (s.xact p).tolive →
      (s.xact p).call ≠ some j))
  | .work true | .create _ _ | .destroy _ | .sendBegin _ _ _ _ | .sendQueue _ | .sendEvent _ | .kevent _ _ _
  | .rcvEnd | .tx | .insert => inferInstanceAs (Decidable True)

section Frames

variable {ticksPerSec : Nat} {base : Nat → Nat} {s t : State} {j : Nat} {a : Act}

theorem scheduled_cons {p : Ptr} {rest : List Ptr} (hl : s.listHead = p :: rest) :
    scheduled ticksPerSec j s (.work true) =
      if (s.core p).age ≤ s.now ∧ 0 ≤ (s.core p).tolive ∧ (s.core p).call = some j then [@period ticksPerSec s p]
      else [] := by
  unfold scheduled
  rw [hl]
  rfl

theorem scheduled_late (hlate : ∀ p rest, s.listHead = p :: rest → s.now < (s.core p).age) :
    scheduled ticksPerSec j s (.work true) = [] := by
  cases hl : s.listHead with
  | nil =>
    unfold scheduled
    rw [hl]
  | cons p rest =>
    rw [scheduled_cons hl]
    exact if_neg fun h => absurd h.1 (not_le.mpr (hlate p rest hl))

theorem Silent.found (h : Silent j s a) {k port : Nat} {p : Ptr} (ha : a = .rcv k port)
    (hfound : sockRcv s (s.call k).xid port = .found p) : (s.xact p).call ≠ some j := by
  subst ha
  simp only [Silent] at h
  rw [hfound] at h
  exact h

/-- The transaction of the call `j` keeps its lifetime and what is left of it. -/
def Steady (j : Nat) (s t : State) : Prop :=
  ∀ p ∈ s.flight, (s.core p).call = some j →
    (t.core p).lifetime = (s.core p).lifetime ∧ (t.core p).tolive = (s.core p).tolive

theorem steady_of_core (h : t.core = s.core) : Steady j s t := by
  intro p _ _
  rw [h]
  exact ⟨rfl, rfl⟩

theorem steady_requestor (hs : Sound base s.view) (ha : a.ofRequestor = true)
    (h : step ticksPerSec s a = some t) : Steady j s t := by
  obtain ⟨-, hspec⟩ := step_spec h
  intro q hq _
  have hne : ∀ p ∉ s.flight, q ≠ p := by
    rintro p hp rfl
    exact hp hq
  cases a with
  | create p header =>
    obtain ⟨hp, rfl⟩ := hspec
    rw [core_create s p header (hne p fun h => hp (hs.flight_live p h))]
    exact ⟨rfl, rfl⟩
  | destroy p =>
    obtain ⟨-, -, rfl⟩ := hspec
    exact ⟨rfl, rfl⟩
  | sendBegin p srvr ms encodes =>
    obtain ⟨hown, -, rfl⟩ := hspec
    rw [core_sendBegin, upd_ne _ _ (hne p (owned_eq_true_iff.mp hown).2)]
    exact ⟨rfl, rfl⟩
  | sendQueue p =>
    obtain ⟨hown, -, rfl⟩ := hspec
    rw [core_sendQueue]
    split <;> (rw [upd_ne _ _ (hne p (owned_eq_true_iff.mp hown).2)]; exact ⟨rfl, rfl⟩)
  | sendEvent p =>
    obtain ⟨-, -, rfl⟩ := hspec
    rw [core_sendEvent]
    unfold upd
    split
    · rename_i h
      rw [h]
      exact ⟨rfl, rfl⟩
    · exact ⟨rfl, rfl⟩
  | _ => cases ha

theorem ncalls_step_eq (hq : ∀ p, a ≠ .sendQueue p) (h : step ticksPerSec s a = some t) : t.ncalls = s.ncalls := by
  obtain ⟨e, -, hv, hc⟩ := step_event h
  have hn : t.ncalls = (s.view.apply e).ncalls := congrArg View.ncalls hv
  cases e with
  | accept p lifetime => exact absurd hc (hq p)
  | _ => exact hn

theorem call_of_completed {p : Ptr} (hv : t.view.call = (s.view.complete p).call)
    (hp : (s.core p).call ≠ some j) : t.call j = s.call j := by
  show t.view.call j = s.view.call j
  rw [hv]
  exact complete_call_ne s.view hp

theorem call_timedOut (s : State) (p : Ptr) (rest : List Ptr) :
    (timedOut { s with listHead := rest } p).view.call = (s.view.complete p).call := by
  rw [view_timedOut]
  rfl

theorem call_sendFailed (s : State) (p : Ptr) (rest : List Ptr) :
    (sendFailed { s with listHead := rest } p).view.call = (s.view.complete p).call := by
  rw [view_sendFailed]
  rfl

theorem call_received (s : State) (p : Ptr) :
    (received ticksPerSec s p).view.call = (s.view.complete p).call := by
  rw [view_received]
  rfl

end Frames

/-- The periods that were scheduled for the call `j`: each one is at least a tick, they make up what is gone of the
    lifetime, and when the last one was scheduled the lifetime was not exceeded. -/
structure Account (j : Nat) (ps : List Int) (s : State) : Prop where
  fresh : s.ncalls ≤ j → ps = []
  sends : j < s.ncalls → ps.length = (s.call j).sends
  ticks : ∀ x ∈ ps, 1 ≤ x
  before : ∀ l x, ps = l ++ [x] → l.sum ≤ (s.call j).lifetime
  once : j < s.ncalls → (s.call j).done ≤ 1
  positive : j < s.ncalls → 1 ≤ (s.call j).lifetime
  left : j < s.ncalls → (s.call j).done = 0 → (s.core (s.call j).ptr).lifetime = (s.call j).lifetime ∧
    (s.core (s.call j).ptr).tolive + ps.sum = (s.call j).lifetime
  spent : j < s.ncalls → 0 < (s.call j).done → (s.call j).lifetime < ps.sum

structure Running (base : Nat → Nat) (j : Nat) (s : State) : Prop where
  sound : Sound base s.view
  tagged : Tagged s.view
  flow : Flow s
  full : Full s
  timing : Timing s
  opened : Open j s.view

section AccountSteps

variable {ticksPerSec : Nat} {base : Nat → Nat} {s t : State} {j : Nat} {ps : List Int} {a : Act}

theorem Running.step (hr : Running base j s) (hle : ticksPerSec ≤ 10 ^ 6) (hretry : RetryPositive s a)
    (hsilent : Silent j s a) (h : step ticksPerSec s a = some t) : Running base j t := by
  have hopen : Open j t.view := by
    refine hr.opened.step hr.sound hr.tagged h ?_
    intro k port p ha hfound _ hc
    exact absurd hc (hsilent.found ha hfound)
  exact ⟨sound_step hr.sound h, tagged_step hr.sound hr.tagged h, hr.flow.step hr.sound h, hr.full.step h,
    hr.timing.step hr.flow hr.sound (hretry.one_le_period hr.flow hle) h, hopen⟩

theorem Account.frame (ha : Account j ps s) (ht : Tagged s.view) (hn : t.ncalls = s.ncalls)
    (hcall : j < s.ncalls → t.call j = s.call j) (hsteady : Steady j s t) : Account j ps t := by
  constructor
  · rw [hn]
    exact ha.fresh
  · intro hj
    rw [hn] at hj
    rw [hcall hj]
    exact ha.sends hj
  · exact ha.ticks
  · intro l x hps
    have hj : j < s.ncalls := by
      by_contra hj
      rw [ha.fresh (not_lt.mp hj)] at hps
      simp at hps
    rw [hcall hj]
    exact ha.before l x hps
  · intro hj
    rw [hn] at hj
    rw [hcall hj]
    exact ha.once hj
  · intro hj
    rw [hn] at hj
    rw [hcall hj]
    exact ha.positive hj
  · intro hj hd
    rw [hn] at hj
    rw [hcall hj] at hd ⊢
    obtain ⟨hp, hc⟩ := ht.pending j hj hd
    obtain ⟨h1, h2⟩ := hsteady (s.call j).ptr hp hc
    rw [h1, h2]
    exact ha.left hj hd
  · intro hj hd
    rw [hn] at hj
    rw [hcall hj] at hd ⊢
    exact ha.spent hj hd

theorem Account.accept (ha : Account j ps s) (hr : Running base j s) {p : Ptr} (hp : p ∉ s.flight)
    (hph : (s.core p).phase = .encoded) : Account j ps (sendQueue s p) := by
  by_cases hroom : s.msgQOpen = true ∧ s.msgQ.length < RPCIOD_QDEPTH
  · have hcore := core_sendQueue s p
    rw [if_pos hroom] at hcore
    have hn : (sendQueue s p).ncalls = s.ncalls + 1 := by rw [sendQueue_room hroom]
    have hcall : (sendQueue s p).call = upd s.call s.ncalls ⟨p, slot (s.xact p).xid, s.gen (slot (s.xact p).xid),
        (s.xact p).xid, (s.core p).lifetime, 0, 0⟩ := by
      rw [sendQueue_room hroom]
      rfl
    have hold : j < s.ncalls → (sendQueue s p).call j = s.call j := by
      intro hj
      rw [hcall, upd_ne _ _ (Nat.ne_of_lt hj)]
    have hnil : s.ncalls ≤ j → ps = [] := ha.fresh
    constructor
    · intro hj
      exact hnil (by omega)
    · intro hj
      rcases Nat.lt_or_ge j s.ncalls with hlt | hge
      · rw [hold hlt]
        exact ha.sends hlt
      · obtain rfl : j = s.ncalls := by omega
        rw [hnil hge, hcall, upd_self]
        rfl
    · exact ha.ticks
    · intro l x hps
      have hlt : j < s.ncalls := by
        by_contra hlt
        rw [hnil (not_lt.mp hlt)] at hps
        simp at hps
      rw [hold hlt]
      exact ha.before l x hps
    · intro hj
      rcases Nat.lt_or_ge j s.ncalls with hlt | hge
      · rw [hold hlt]
        exact ha.once hlt
      · obtain rfl : j = s.ncalls := by omega
        rw [hcall, upd_self]
        exact Nat.zero_le _
    · intro hj
      rcases Nat.lt_or_ge j s.ncalls with hlt | hge
      · rw [hold hlt]
        exact ha.positive hlt
      · obtain rfl : j = s.ncalls := by omega
        rw [hcall, upd_self]
        exact (hr.flow.served p (.inr hph)).2
    · intro hj hd
      rcases Nat.lt_or_ge j s.ncalls with hlt | hge
      · rw [hold hlt] at hd ⊢
        have hne : (s.call j).ptr ≠ p := by
          rintro rfl
          exact hp (hr.tagged.pending j hlt hd).1
        rw [hcore, upd_ne _ _ hne]
        exact ha.left hlt hd
      · obtain rfl : j = s.ncalls := by omega
        rw [hnil hge, hcall, upd_self, hcore]
        simp only [upd_self, sum_nil, add_zero, true_and]
        exact (hr.full p hph).2
    · intro hj hd
      rcases Nat.lt_or_ge j s.ncalls with hlt | hge
      · rw [hold hlt] at hd ⊢
        exact ha.spent hlt hd
      · obtain rfl : j = s.ncalls := by omega
        rw [hcall, upd_self] at hd
        exact absurd hd (Nat.lt_irrefl 0)
  · refine ha.frame hr.tagged ?_ ?_ ?_
    · rw [sendQueue_full hroom]
    · rw [sendQueue_full hroom]
      exact fun _ => rfl
    · intro q hq _
      have hqp : q ≠ p := by
        rintro rfl
        exact hp hq
      rw [core_sendQueue, if_neg hroom, upd_ne _ _ hqp]
      exact ⟨rfl, rfl⟩

theorem Account.sent (ha : Account j ps s) (hr : Running base j s) {p : Ptr} {rest : List Ptr}
    (hl : s.listHead = p :: rest) (hlive : 0 ≤ (s.core p).tolive) (hc : (s.core p).call = some j)
    (hperiod : 1 ≤ @period ticksPerSec s p) :
    Account j (ps ++ [@period ticksPerSec s p]) (sent ticksPerSec { s with listHead := rest } p) := by
  have hp : p ∈ s.flight := mem_flight_of_listHead (hl ▸ mem_cons_self)
  obtain ⟨hj, hptr⟩ := hr.tagged.own p j hc
  have hptr' : (s.call j).ptr = p := hptr
  have hdone : (s.call j).done = 0 := hr.opened p hp hc
  have hc' : (s.xact p).call = some j := hc
  have hcall : (Rpcio.sent ticksPerSec { s with listHead := rest } p).call =
      upd s.call j { s.call j with sends := (s.call j).sends + 1 } := by
    show upd s.call ((s.xact p).call.getD 0) _ = _
    rw [hc']
    rfl
  have hcore := @core_sent ticksPerSec { s with listHead := rest } p
  obtain ⟨hlife, hleft⟩ := ha.left hj hdone
  rw [hptr'] at hlife hleft
  constructor
  · intro h
    exact absurd hj (not_lt.mpr h)
  · intro _
    rw [hcall, upd_self, length_append, ha.sends hj]
    rfl
  · intro x hx
    rcases mem_append.mp hx with hx | hx
    · exact ha.ticks x hx
    · rw [mem_singleton.mp hx]
      exact hperiod
  · intro l x hps
    obtain ⟨rfl, -⟩ := append_inj' hps rfl
    rw [hcall, upd_self]
    show ps.sum ≤ (s.call j).lifetime
    omega
  · intro _
    rw [hcall, upd_self]
    exact ha.once hj
  · intro _
    rw [hcall, upd_self]
    exact ha.positive hj
  · intro _ _
    rw [hcall, upd_self]
    show ((Rpcio.sent ticksPerSec { s with listHead := rest } p).core (s.call j).ptr).lifetime = (s.call j).lifetime ∧
      ((Rpcio.sent ticksPerSec { s with listHead := rest } p).core (s.call j).ptr).tolive +
        (ps ++ [@period ticksPerSec s p]).sum = (s.call j).lifetime
    rw [hptr', hcore, upd_self, sum_append, sum_singleton]
    refine ⟨hlife, ?_⟩
    show (s.core p).tolive - @period ticksPerSec s p + (ps.sum + @period ticksPerSec s p) = _
    omega
  · intro _ hd
    rw [hcall, upd_self] at hd
    have hd' : 0 < (s.call j).done := hd
    omega

theorem Account.timedOut (ha : Account j ps s) (hr : Running base j s) {p : Ptr} {rest : List Ptr}
    (hl : s.listHead = p :: rest) (hdead : (s.core p).tolive < 0) (hc : (s.core p).call = some j) :
    Account j ps (timedOut { s with listHead := rest } p) := by
  have hp : p ∈ s.flight := mem_flight_of_listHead (hl ▸ mem_cons_self)
  obtain ⟨hj, hptr⟩ := hr.tagged.own p j hc
  have hptr' : (s.call j).ptr = p := hptr
  have hdone : (s.call j).done = 0 := hr.opened p hp hc
  have hfin := finished_timedOut s p rest
  have hnow : (Rpcio.timedOut { s with listHead := rest } p).call j = { s.call j with done := (s.call j).done + 1 } := by
    have h := congrFun (call_timedOut s p rest) j
    have hcomplete : (s.view.complete p).call j = { s.call j with done := (s.call j).done + 1 } := by
      have hc' : s.view.callOf p = some j := hc
      simp only [View.complete, hc', upd_self]
      rfl
    exact h.trans hcomplete
  obtain ⟨-, hleft⟩ := ha.left hj hdone
  rw [hptr'] at hleft
  constructor
  · exact ha.fresh
  · intro _
    rw [hnow]
    exact ha.sends hj
  · exact ha.ticks
  · intro l x hps
    rw [hnow]
    exact ha.before l x hps
  · intro _
    rw [hnow]
    show (s.call j).done + 1 ≤ 1
    omega
  · intro _
    rw [hnow]
    exact ha.positive hj
  · intro _ hd
    rw [hnow] at hd
    exact absurd hd (Nat.succ_ne_zero _)
  · intro _ _
    rw [hnow]
    show (s.call j).lifetime < ps.sum
    omega

/-- **What a step does for a call** that it does not answer: nothing, or the call is accepted, transmitted or times
    out. -/
theorem silent_cases (hr : Running base j s) (hsilent : Silent j s a) (h : step ticksPerSec s a = some t) :
    (scheduled ticksPerSec j s a = [] ∧ t.ncalls = s.ncalls ∧ (j < s.ncalls → t.call j = s.call j) ∧ Steady j s t) ∨
    (scheduled ticksPerSec j s a = [] ∧ ∃ p ∉ s.flight, (s.core p).phase = .encoded ∧ t = sendQueue s p) ∨
    ∃ p rest, s.listHead = p :: rest ∧ (s.core p).call = some j ∧
      ((scheduled ticksPerSec j s a = [] ∧ (s.core p).tolive < 0 ∧ t = timedOut { s with listHead := rest } p) ∨
       (scheduled ticksPerSec j s a = [@period ticksPerSec s p] ∧ a = .work true ∧ (s.core p).age ≤ s.now ∧
         0 ≤ (s.core p).tolive ∧ t = sent ticksPerSec { s with listHead := rest } p)) := by
  have hspec := (step_spec h).2
  have hdead : ∀ p rest, s.listHead = p :: rest → (s.core p).tolive < 0 → scheduled ticksPerSec j s a = [] →
      t = timedOut { s with listHead := rest } p →
      (scheduled ticksPerSec j s a = [] ∧ t.ncalls = s.ncalls ∧ (j < s.ncalls → t.call j = s.call j) ∧ Steady j s t) ∨
      ((s.core p).call = some j ∧ t = timedOut { s with listHead := rest } p) := by
    rintro p rest hl hdead hnil rfl
    have hfin := finished_timedOut s p rest
    by_cases hc : (s.core p).call = some j
    · exact .inr ⟨hc, rfl⟩
    · exact .inl ⟨hnil, hfin.ncalls, fun _ => call_of_completed (call_timedOut s p rest) hc, steady_of_core hfin.core⟩
  cases a with
  | work sends =>
    obtain ⟨-, rfl⟩ := hspec
    have hnil : sends = false ∨ scheduled ticksPerSec j s (.work sends) = scheduled ticksPerSec j s (.work true) := by
      cases sends with
      | true => exact .inr rfl
      | false => exact .inl rfl
    rcases work_cases ticksPerSec s sends with ⟨heq, hlate⟩ | ⟨p, rest, hl, hage, ⟨hneg, heq⟩ | ⟨hlive, rfl, heq⟩ |
      ⟨hlive, rfl, heq⟩⟩
    · refine .inl ⟨?_, by rw [heq], by rw [heq]; exact fun _ => rfl, by rw [heq]; exact steady_of_core rfl⟩
      rcases hnil with rfl | hnil
      · rfl
      · exact hnil.trans (scheduled_late hlate)
    · have hnone : scheduled ticksPerSec j s (.work sends) = [] := by
        rcases hnil with rfl | hnil
        · rfl
        · rw [hnil, scheduled_cons hl]
          exact if_neg fun h => absurd h.2.1 (not_le.mpr hneg)
      grind
    · rw [scheduled_cons hl]
      by_cases hc : (s.core p).call = some j
      · exact .inr (.inr ⟨p, rest, hl, hc, .inr ⟨if_pos ⟨hage, hlive, hc⟩, rfl, hage, hlive, heq⟩⟩)
      · obtain ⟨k, hk⟩ := hr.tagged.carries p (mem_flight_of_listHead (hl ▸ mem_cons_self))
        have hk' : (s.xact p).call = some k := hk
        have hjk : j ≠ k := by
          rintro rfl
          exact hc hk
        refine .inl ⟨if_neg fun h => hc h.2.2, by rw [heq]; rfl, ?_, ?_⟩
        · intro _
          rw [heq]
          show upd s.call ((s.xact p).call.getD 0) _ j = _
          simp [hk', upd_ne _ _ hjk]
        · intro q _ hq
          have hqp : q ≠ p := by
            rintro rfl
            exact hc hq
          rw [heq, core_sent, upd_ne _ _ hqp]
          exact ⟨rfl, rfl⟩
    · have hfin := finished_sendFailed s p rest
      have hc : (s.core p).call ≠ some j := hsilent p (by rw [hl]; rfl) hage hlive
      rw [heq]
      exact .inl ⟨rfl, hfin.ncalls, fun _ => call_of_completed (call_sendFailed s p rest) hc,
        steady_of_core hfin.core⟩
  | sendQueue p =>
    obtain ⟨hown, hph, rfl⟩ := hspec
    exact .inr (.inl ⟨rfl, p, (owned_eq_true_iff.mp hown).2, hph, rfl⟩)
  | kevent rx kill unow =>
    obtain ⟨-, -, rfl⟩ := hspec
    left
    unfold kevent
    split <;> exact ⟨rfl, rfl, fun _ => rfl, steady_of_core rfl⟩
  | rcv k port =>
    obtain ⟨-, -, -, rfl⟩ := hspec
    left
    rcases @rcv_eq ticksPerSec s k port with heq | heq | ⟨p, hfound, heq⟩
    · rw [heq]
      exact ⟨rfl, rfl, fun _ => rfl, steady_of_core rfl⟩
    · rw [heq]
      exact ⟨rfl, rfl, fun _ => rfl, steady_of_core rfl⟩
    · rw [heq]
      have hfin := finished_received ticksPerSec s p
      exact ⟨rfl, hfin.ncalls, fun _ => call_of_completed (call_received s p) (hsilent.found rfl hfound),
        steady_of_core hfin.core⟩
  | rcvEnd =>
    obtain ⟨tx, -, rfl⟩ := hspec
    exact .inl ⟨rfl, rfl, fun _ => rfl, steady_of_core rfl⟩
  | tx =>
    obtain ⟨-, rfl⟩ := hspec
    have hv := view_txStep s
    refine .inl ⟨rfl, congrArg View.ncalls hv, fun _ => congrFun (congrArg View.call hv) j, ?_⟩
    intro q _ _
    obtain ⟨h1, h2, -, -⟩ := core_txStep_rest s q
    exact ⟨h2, h1⟩
  | insert =>
    obtain ⟨-, rfl⟩ := hspec
    have hv := @view_insertStep ticksPerSec s
    refine .inl ⟨rfl, congrArg View.ncalls hv, fun _ => congrFun (congrArg View.call hv) j, ?_⟩
    intro q _ _
    obtain ⟨h1, h2, -, -⟩ := @core_insertStep_rest ticksPerSec s q
    exact ⟨h2, h1⟩
  | _ =>
    refine .inl ⟨rfl, ncalls_step_eq (fun p => Act.noConfusion) h, ?_, steady_requestor hr.sound rfl h⟩
    exact fun hj => (undisturbed_step hr.sound rfl h).calls j hj

/-- **The account of a call is kept by every step** that neither answers the call nor fails to transmit it. -/
theorem Account.step (ha : Account j ps s) (hr : Running base j s) (hle : ticksPerSec ≤ 10 ^ 6)
    (hretry : RetryPositive s a) (hsilent : Silent j s a) (h : step ticksPerSec s a = some t) :
    Account j (ps ++ scheduled ticksPerSec j s a) t := by
  rcases silent_cases hr hsilent h with ⟨hnil, hn, hcall, hsteady⟩ | ⟨hnil, p, hp, hph, rfl⟩ |
    ⟨p, rest, hl, hc, ⟨hnil, hdead, rfl⟩ | ⟨hone, rfl, hage, hlive, rfl⟩⟩
  · rw [hnil, append_nil]
    exact ha.frame hr.tagged hn hcall hsteady
  · rw [hnil, append_nil]
    exact ha.accept hr hp hph
  · rw [hnil, append_nil]
    exact ha.timedOut hr hl hdead hc
  · rw [hone]
    exact ha.sent hr hl hlive hc (hretry.one_le_period hr.flow hle rfl p rest hl hage hlive)

theorem Running.status (hr : Running base j s) (hsilent : Silent j s a)
    (h : Rpcio.step ticksPerSec s a = some t)
    (hj : j < s.ncalls) (hdone : (s.call j).done = 0) (hdone' : 0 < (t.call j).done) :
    (t.xact (t.call j).ptr).status = .timedout := by
  rcases silent_cases hr hsilent h with ⟨-, -, hcall, -⟩ | ⟨-, p, hp, -, rfl⟩ |
    ⟨p, rest, hl, hc, ⟨-, -, rfl⟩ | ⟨-, -, -, -, rfl⟩⟩
  · rw [hcall hj, hdone] at hdone'
    cases hdone'
  · rw [(undisturbed_sendQueue hp).calls j hj, hdone] at hdone'
    cases hdone'
  · have hptr : ((timedOut { s with listHead := rest } p).call j).ptr = p := by
      have h1 : (timedOut { s with listHead := rest } p).call j = (s.view.complete p).call j :=
        congrFun (call_timedOut s p rest) j
      rw [h1, complete_ptr]
      exact (hr.tagged.own p j hc).2
    rw [hptr]
    simp [timedOut, complete]
  · have hc' : (s.xact p).call = some j := hc
    have hcall : (sent ticksPerSec { s with listHead := rest } p).call j =
        { s.call j with sends := (s.call j).sends + 1 } := by
      show upd s.call ((s.xact p).call.getD 0) _ j = _
      rw [hc']
      exact upd_self _ _ _
    rw [hcall] at hdone'
    have hpos : 0 < (s.call j).done := hdone'
    omega

theorem Account.sends_le (ha : Account j ps s) (hj : j < s.ncalls) :
    ((s.call j).sends : Int) ≤ (s.call j).lifetime + 1 := by
  rw [← ha.sends hj]
  rcases eq_nil_or_concat' ps with rfl | ⟨l, x, rfl⟩
  · have hpos := ha.positive hj
    show ((0 : Nat) : Int) ≤ (s.call j).lifetime + 1
    omega
  · have hsum := ha.before l x rfl
    have hlen : (l.length : Int) ≤ l.sum := by
      have := card_nsmul_le_sum l (1 : Int) fun y hy => ha.ticks y (mem_append_left _ hy)
      simpa using this
    rw [length_append, length_singleton]
    omega

theorem Account.sum_bounds (ha : Account j ps s) (hj : j < s.ncalls) (hd : 0 < (s.call j).done) :
    (s.call j).lifetime < ps.sum ∧ ∃ last ∈ ps.getLast?, ps.sum ≤ (s.call j).lifetime + last := by
  have hspent := ha.spent hj hd
  refine ⟨hspent, ?_⟩
  rcases eq_nil_or_concat' ps with rfl | ⟨l, x, rfl⟩
  · have hpos := ha.positive hj
    rw [sum_nil] at hspent
    omega
  · refine ⟨x, by simp, ?_⟩
    have hsum := ha.before l x rfl
    rw [sum_append, sum_singleton]
    omega

theorem running_init (ticksPerSec : Nat) (xid : Option Nat) (port : Nat → Nat) (j : Nat) :
    Running (baseOf xid) j (init ticksPerSec xid port) where
  sound := sound_init
  tagged := tagged_init xid port
  flow := by
    refine ⟨fun _ _ => rfl, ?_, forall_mem_nil _⟩
    rintro p (hp | hp) <;> cases hp
  full p h := by cases h
  timing := ⟨⟨[], [], rfl, forall_mem_nil _, List.Pairwise.nil, fun _ _ => rfl⟩,
    fun _ => forall_mem_nil _, forall_mem_nil _⟩
  opened p h := absurd h (Multiset.notMem_zero p)

theorem account_init (ticksPerSec : Nat) (xid : Option Nat) (port : Nat → Nat) (j : Nat) :
    Account j [] (init ticksPerSec xid port) where
  fresh _ := rfl
  sends h := absurd h (Nat.not_lt_zero j)
  ticks := forall_mem_nil _
  before l x h := by simp at h
  once h := absurd h (Nat.not_lt_zero j)
  positive h := absurd h (Nat.not_lt_zero j)
  left h := absurd h (Nat.not_lt_zero j)
  spent h := absurd h (Nat.not_lt_zero j)

/-- The steps of a run in which the call `j` gets no reply. -/
def Unanswered (j : Nat) (s : State) (a : Act) : Prop := RetryPositive s a ∧ Silent j s a

instance (j : Nat) (s : State) (a : Act) : Decidable (Unanswered j s a) := inferInstanceAs (Decidable (_ ∧ _))

theorem account_of_run (hle : ticksPerSec ≤ 10 ^ 6) {acts : List Act} {x y : State × List Int}
    (hr : Running base j x.1) (ha : Account j x.2 x.1)
    (hok : StepsMeet (recordStep ticksPerSec j) (fun u a => Unanswered j u.1 a) x acts)
    (hrun : run (recordStep ticksPerSec j) x acts = some y) : Running base j y.1 ∧ Account j y.2 y.1 := by
  refine @run_invariant_of_meet _ _ _ _ (fun u => Running base j u.1 ∧ Account j u.2 u.1) ?_ acts x y ⟨hr, ha⟩ hok hrun
  rintro u a w ⟨hu, hacc⟩ ⟨hretry, hsilent⟩ hstep
  obtain ⟨t, ht, rfl⟩ := Option.map_eq_some_iff.mp hstep
  exact ⟨hu.step hle hretry hsilent ht, hacc.step hu hle hretry hsilent ht⟩

/-- A run with `n` iterations in which the timer of the call `j` has expired, and no reply to the call. -/
inductive Turns (ticksPerSec j : Nat) : Nat → State → State → Prop
  | nil (s : State) : Turns ticksPerSec j 0 s s
  | cons {n : Nat} {s m t : State} (acts : List Act)
      (unanswered : StepsMeet (Rpcio.step ticksPerSec) (Unanswered j) s acts)
      (hrun : run (Rpcio.step ticksPerSec) s acts = some m) (expired : Expired j s m)
      (rest : Turns ticksPerSec j n m t) : Turns ticksPerSec j (n + 1) s t

/-- **A call that gets no reply is completed** after as many iterations as its lifetime has ticks, and two more. -/
theorem Running.completes {n : Nat} (hr : Running base j s) (ha : ∃ ps, Account j ps s)
    (hle : ticksPerSec ≤ 10 ^ 6) (hj : j < s.ncalls) (hturns : Turns ticksPerSec j n s t)
    (hn : (s.call j).lifetime + 1 < n) : (t.call j).done = 1 := by
  have key : (∃ ps, Account j ps t) ∧ Grows j s.view t.view ∧
      (0 < (t.call j).done ∨ (s.call j).sends + n ≤ (t.call j).sends) := by
    clear hn
    induction hturns with
    | nil s => exact ⟨ha, ⟨le_rfl, rfl, le_rfl, le_rfl⟩, .inr le_rfl⟩
    | cons acts unanswered hrun expired rest ih =>
      obtain ⟨hm, ham⟩ := @run_invariant_of_meet _ _ _ _ (fun u => Running base j u ∧ ∃ ps, Account j ps u)
        (fun u a w ⟨hu, qs, hqs⟩ ⟨hretry, hsilent⟩ hstep =>
          ⟨hu.step hle hretry hsilent hstep, _, hqs.step hu hle hretry hsilent hstep⟩) acts _ _ ⟨hr, ha⟩ unanswered hrun
      have hgrow := grows_of_run hj hrun
      obtain ⟨hacc, hrest, hor⟩ := ih hm ham (Nat.lt_of_lt_of_le hj hgrow.ncalls)
      refine ⟨hacc, ⟨hgrow.ncalls.trans hrest.ncalls, hrest.lifetime.trans hgrow.lifetime,
        hgrow.sends.trans hrest.sends, hgrow.done.trans hrest.done⟩, ?_⟩
      rcases expired.progress hr.sound hr.tagged hr.flow hm.timing hj hrun with h | h
      · exact .inl (Nat.lt_of_lt_of_le h hrest.done)
      · refine hor.imp_right ?_
        intro h'
        omega
  obtain ⟨⟨ps, hacc⟩, hgrow, hor⟩ := key
  have hjt : j < t.ncalls := Nat.lt_of_lt_of_le hj hgrow.ncalls
  have hpos : 0 < (t.call j).done := by
    refine hor.resolve_right ?_
    intro h
    have hspent := hacc.sends_le hjt
    have hlife : (t.call j).lifetime = (s.call j).lifetime := hgrow.lifetime
    omega
  have := hacc.once hjt
  omega

end AccountSteps

/-- **The lifetime of a call that gets no reply.**  It is transmitted a bounded number of times and completed with
    `RPC_TIMEDOUT`; then its periods make up more than its lifetime, by at most the last one. -/
theorem lifetime_of_run {ticksPerSec : Nat} (hle : ticksPerSec ≤ 10 ^ 6) {xid : Option Nat} {port : Nat → Nat}
    {acts : List Act} {j : Nat} {s : State} {ps : List Int}
    (hok : StepsMeet (recordStep ticksPerSec j) (fun u a => Unanswered j u.1 a) (init ticksPerSec xid port, []) acts)
    (hrun : run (recordStep ticksPerSec j) (init ticksPerSec xid port, []) acts = some (s, ps))
    (hj : j < s.ncalls) :
    (ps.length = (s.call j).sends ∧ (s.call j).sends ≤ (s.call j).lifetime + 1) ∧
    (∀ a t, Unanswered j s a → step ticksPerSec s a = some t → (s.call j).done = 0 → 0 < (t.call j).done →
      (t.xact (t.call j).ptr).status = .timedout) ∧
    (0 < (s.call j).done → (s.call j).lifetime ≤ ps.sum ∧
      ∃ last ∈ ps.getLast?, ps.sum ≤ (s.call j).lifetime + last) ∧
    ∀ n t, Turns ticksPerSec j n s t → (s.call j).lifetime + 1 < n → (t.call j).done = 1 := by
  obtain ⟨hr, ha⟩ := account_of_run hle (running_init ticksPerSec xid port j) (account_init ticksPerSec xid port j)
    hok hrun
  refine ⟨⟨ha.sends hj, ha.sends_le hj⟩, ?_, ?_, ?_⟩
  · intro a t hun hstep hdone hdone'
    exact hr.status hun.2 hstep hj hdone hdone'
  · intro hd
    obtain ⟨hlt, hlast⟩ := ha.sum_bounds hj hd
    exact ⟨le_of_lt hlt, hlast⟩
  · intro n t hturns hn
    exact hr.completes ⟨ps, ha⟩ hle hj hturns hn

def oneTickRun : List Act := acceptRun ++ transmitRun ++ retransmitRun ++ timeoutRun

theorem lifetime_of_run_oneTickRun :
    (∃ s, run (recordStep 100 0) (init 100 none fun _ => 2049, []) acceptRun = some (s, []) ∧
      Turns 100 0 3 s (after oneTickRun) ∧ ((after oneTickRun).call 0).done = 1) ∧
    ∃ s, run (recordStep 100 0) (init 100 none fun _ => 2049, []) oneTickRun = some (s, [1, 1]) ∧
      (s.call 0).lifetime ≤ [1, 1].sum ∧ ∃ last ∈ [(1 : Int), 1].getLast?, [1, 1].sum ≤ (s.call 0).lifetime + last := by
  constructor
  · have h := @lifetime_of_run 100 (by decide) none (fun _ => 2049) acceptRun 0 (after acceptRun) []
      (by decide) rfl (by decide)
    have hturns : Turns 100 0 3 (after acceptRun) (after oneTickRun) := by
      refine .cons (m := after (acceptRun ++ transmitRun)) transmitRun (by decide) rfl
        ⟨rfl, rfl, by decide, by decide, by decide⟩ ?_
      refine .cons (m := after (acceptRun ++ transmitRun ++ retransmitRun)) retransmitRun (by decide) rfl
        ⟨rfl, rfl, by decide, by decide, by decide⟩ ?_
      refine .cons timeoutRun (by decide) rfl ⟨rfl, rfl, by decide, by decide, by decide⟩ ?_
      exact .nil _
    exact ⟨after acceptRun, rfl, hturns, h.2.2.2 3 _ hturns (by decide)⟩
  · have h := @lifetime_of_run 100 (by decide) none (fun _ => 2049) oneTickRun 0 _ [1, 1] (by decide) rfl (by decide)
    exact ⟨_, rfl, h.2.2.1 (by decide)⟩

/-- The periods exceed the lifetime by a whole period, and a call is completed without a timeout when `sendto` fails. -/
theorem oneTickRun_exceeds :
    (∃ s, run (recordStep 100 0) (init 100 none fun _ => 2049, []) oneTickRun = some (s, [1, 1]) ∧
      (s.call 0).done = 1 ∧ ¬ [1, 1].sum < (s.call 0).lifetime + 1) ∧
    ∃ s, run (step 100) (init 100 none fun _ => 2049)
        (acceptRun ++ [.kevent false false 5, .tx, .tx, .work false]) = some s ∧
      (s.call 0).done = 1 ∧ (s.xact (s.call 0).ptr).status = .cantsend :=
  ⟨⟨_, rfl, by decide, by decide⟩, _, rfl, by decide, by decide⟩

end RtemsLibbsd.Rpcio
