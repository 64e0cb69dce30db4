import Mathlib.Logic.Function.Basic
import RtemsLibbsd.Transition

/-!
# The restart of the MCF548x FEC

A restart request sets the state and sends an event to both daemons.  A daemon that finds the request resets its
ring and calls `mcf548x_fec_restart`: the first one announces itself and waits, the second one initialises the
hardware, sets the state back and wakes up the first one.  The daemons hold a mutex except while they wait for an
event (and while the receive daemon is in `if_input`); requests come from interrupts and do not take it.

* `Pc` — the places of a daemon; `mcf548x_fec_restart` is cut at each access to the state.
* `RestartState`, `restartStep` — requests, the delivery of their events, ordinary events, and the daemons.
* `RestartGood` — no mutual wait, rings reset before the hardware is started, no lost request.
* `RestartSound` — a request comes while no daemon has taken its decision in `mcf548x_fec_restart`.
* `Pair` — the invariant, symmetric in the daemons; one lemma for a move of one of them.
* `restart_good` — runs whose requests come at such times are good.
* `request_breaks` — any other request is followed by a bad state.
* `late_request_breaks` — two runs.
-/

namespace RtemsLibbsd.Mcf548x

open Function RtemsLibbsd.Transition

/-- `FEC_STATE_RESTART_0`, `FEC_STATE_RESTART_1`, `FEC_STATE_NORMAL`. -/
inductive FecState where
  | restart0
  | restart1
  | normal
deriving DecidableEq

inductive Daemon where
  | tx
  | rx
deriving DecidableEq

def Daemon.other : Daemon → Daemon
  | tx => rx
  | rx => tx

inductive Pc where
  /-- `fec_wait_for_event` in the main loop: the event, and the mutex behind it. -/
  | wait
  | acquire
  /-- `fec_transmit` or `fec_ether_input`, which use the ring. -/
  | work
  /-- `if_input`, without the mutex. -/
  | input
  /-- "`if (sc->state != FEC_STATE_NORMAL)`" -/
  | check
  /-- `fec_reset_tx_dma` or `fec_reset_rx_dma` -/
  | reset
  /-- `mcf548x_fec_restart`: "`if (sc->state == FEC_STATE_RESTART_1)`" -/
  | decide
  /-- `mcf548x_fec_initialize_hardware` and `fec_start_dma_and_controller` -/
  | startHardware
  | setNormal
  | setRestart1
  /-- `fec_send_event(otherDaemon)` -/
  | notify
  /-- "`while (sc->state != FEC_STATE_NORMAL)`" -/
  | test
  | restartWait
  | restartAcquire
deriving DecidableEq

def Pc.holds : Pc → Bool
  | wait | acquire | input | restartWait | restartAcquire => false
  | _ => true

/-- The daemon has taken its decision in `mcf548x_fec_restart`: it starts the hardware, -/
def Pc.starting : Pc → Bool
  | startHardware | setNormal => true
  | _ => false

def Pc.inside : Pc → Bool
  | notify | test | restartWait | restartAcquire => true
  | _ => false

structure RestartState where
  state : FecState
  pc : Daemon → Pc
  /-- The pending events; an event that is sent twice is received once. -/
  event : Daemon → Bool
  owed : Daemon → Nat
  ringReset : Daemon → Bool
  /-- A start of the hardware has begun after the last request. -/
  fresh : Bool

def restartInit : RestartState where
  state := .restart0
  pc := fun _ => .wait
  event := fun _ => false
  owed := fun _ => 0
  ringReset := fun _ => false
  fresh := false

inductive RestartAction where
  /-- `mcf548x_fec_request_restart` sets the state. -/
  | request
  | deliver (d : Daemon)
  | event (d : Daemon)
  | run (d : Daemon)
  | input

def RestartState.goto (s : RestartState) (d : Daemon) (p : Pc) : RestartState :=
  { s with pc := update s.pc d p }

def RestartState.useRing (s : RestartState) (d : Daemon) : RestartState :=
  { s.goto d .work with ringReset := update s.ringReset d false }

/-- Behind the check for a restart: the transmit daemon calls `fec_transmit`, the receive daemon is at the end of its
    loop. -/
def RestartState.leave (s : RestartState) : Daemon → RestartState
  | .tx => s.useRing .tx
  | .rx => s.goto .rx .wait

def runDaemon (s : RestartState) (d : Daemon) : Option RestartState :=
  match s.pc d with
  | .wait =>
    if s.event d then some { s.goto d .acquire with event := update s.event d false } else none
  | .acquire =>
    if (s.pc d.other).holds then none
    else match d with
      | .tx => some (s.goto .tx .check)
      | .rx => some (s.useRing .rx)
  | .work =>
    match d with
    | .tx => some (s.goto .tx .wait)
    | .rx => some (s.goto .rx .check)
  | .input => if (s.pc d.other).holds then none else some (s.useRing d)
  | .check => if s.state ≠ .normal then some (s.goto d .reset) else some (s.leave d)
  | .reset => some { s.goto d .decide with ringReset := update s.ringReset d true }
  | .decide =>
    if s.state = .restart1 then some { s.goto d .startHardware with fresh := true }
    else some (s.goto d .setRestart1)
  | .startHardware => some (s.goto d .setNormal)
  | .setNormal => some { s.goto d .notify with state := .normal }
  | .setRestart1 => some { s.goto d .notify with state := .restart1 }
  | .notify => some { s.goto d .test with event := update s.event d.other true }
  | .test => if s.state ≠ .normal then some (s.goto d .restartWait) else some (s.leave d)
  | .restartWait =>
    if s.event d then some { s.goto d .restartAcquire with event := update s.event d false }
    else none
  | .restartAcquire => if (s.pc d.other).holds then none else some (s.goto d .test)

def restartStep (s : RestartState) : RestartAction → Option RestartState
  | .request => some { s with state := .restart0, owed := fun d => s.owed d + 1, fresh := false }
  | .deliver d =>
    if s.owed d = 0 then none
    else some { s with
      event := update s.event d true
      owed := update s.owed d (s.owed d - 1) }
  | .event d => some { s with event := update s.event d true }
  | .run d => runDaemon s d
  | .input => if s.pc .rx = .work then some (s.goto .rx .input) else none

/-! ## What has to hold -/

structure RestartGood (s : RestartState) : Prop where
  noMutualWait : ¬ ∀ d, s.pc d = .restartWait ∧ s.event d = false ∧ s.owed d = 0
  ringsReset : ∀ d, s.pc d = .startHardware → ∀ e, s.ringReset e = true
  /-- The state is back to normal after a start that began behind the last request. -/
  normal : s.state = .normal → s.fresh = true

/-- The condition on a request: no daemon has taken its decision in `mcf548x_fec_restart`. -/
def RestartSound (s : RestartState) : RestartAction → Prop
  | .request => ∀ d, (s.pc d).starting = false ∧ (s.pc d).inside = false
  | _ => True

instance (s : RestartState) : ∀ a, Decidable (RestartSound s a)
  | .request => decidable_of_iff
      (((s.pc .tx).starting = false ∧ (s.pc .tx).inside = false) ∧
        (s.pc .rx).starting = false ∧ (s.pc .rx).inside = false)
      ⟨fun h d => match d with
        | .tx => h.1
        | .rx => h.2, fun h => ⟨h .tx, h .rx⟩⟩
  | .deliver _ | .event _ | .run _ | .input => isTrue trivial

/-! ## The invariant -/

/-- What holds of a daemon: `reset` says that its ring is reset. -/
structure Side (state : FecState) (fresh : Bool) (p : Pc) (reset : Bool) : Prop where
  outside : state = .restart0 → p.inside = false
  starting : p.starting = true → state = .restart1 ∧ fresh = true
  requested : p = .reset ∨ p = .decide → state ≠ .normal
  first : p = .setRestart1 → state = .restart0
  ring : p = .decide ∨ p = .setRestart1 ∨ p.starting = true ∨ p.inside = true → reset = true

/-- What holds of both: one of them has announced itself, or neither, or they are about to leave. -/
structure Pair (state : FecState) (fresh : Bool) (p : Pc) (pReset : Bool) (q : Pc) (qReset : Bool) : Prop where
  left : Side state fresh p pReset
  right : Side state fresh q qReset
  mutex : p.holds = true → q.holds = false
  announced : state = .restart1 → p.inside = !q.inside
  normal : state = .normal → fresh = true ∧ (p = .restartWait ∨ p = .restartAcquire →
    q ≠ .restartWait ∧ q ≠ .restartAcquire)

def RestartInv (s : RestartState) : Prop :=
  Pair s.state s.fresh (s.pc .tx) (s.ringReset .tx) (s.pc .rx) (s.ringReset .rx)

section Steps

variable {state : FecState} {fresh : Bool} {p q : Pc} {pReset qReset : Bool}

theorem Pair.symm (h : Pair state fresh p pReset q qReset) : Pair state fresh q qReset p pReset where
  left := h.right
  right := h.left
  mutex := fun hq => by
    cases hp : p.holds with
    | false => rfl
    | true => exact absurd (hq.symm.trans (h.mutex hp)) nofun
  announced := fun hs => by simp [h.announced hs]
  normal := fun hs => ⟨(h.normal hs).1, fun hq => by
    refine ⟨fun hp => ?_, fun hp => ?_⟩
    · exact hq.elim ((h.normal hs).2 (.inl hp)).1 ((h.normal hs).2 (.inl hp)).2
    · exact hq.elim ((h.normal hs).2 (.inr hp)).1 ((h.normal hs).2 (.inr hp)).2⟩

variable {p' : Pc}

theorem Pair.move (h : Pair state fresh p pReset q qReset) {reset : Bool}
    (hside : Side state fresh p' reset) (hholds : p'.holds = true → q.holds = false)
    (hinside : state = .restart1 → p'.inside = p.inside)
    (hwait : state = .normal → p' = .restartWait ∨ p' = .restartAcquire →
      p = .restartWait ∨ p = .restartAcquire) : Pair state fresh p' reset q qReset where
  left := hside
  right := h.right
  mutex := hholds
  announced := fun hs => (hinside hs).trans (h.announced hs)
  normal := fun hs => ⟨(h.normal hs).1, fun hp => (h.normal hs).2 (hwait hs hp)⟩

theorem Side.before (reset : Bool) (hin : p'.inside = false) (hst : p'.starting = false)
    (hr : p' = .reset → state ≠ .normal) (hd : p' ≠ .decide) (hf : p' ≠ .setRestart1) :
    Side state fresh p' reset where
  outside := fun _ => hin
  starting := fun h => absurd (hst.symm.trans h) nofun
  requested := fun h => h.elim hr fun h => absurd h hd
  first := fun h => absurd h hf
  ring := by
    rintro (h | h | h | h)
    · exact absurd h hd
    · exact absurd h hf
    · exact absurd (hst.symm.trans h) nofun
    · exact absurd (hin.symm.trans h) nofun

theorem Side.behind (hstate : state ≠ .restart0) (hst : p'.starting = false)
    (hr : p' ≠ .reset) (hd : p' ≠ .decide) (hf : p' ≠ .setRestart1) :
    Side state fresh p' true where
  outside := fun h => absurd h hstate
  starting := fun h => absurd (hst.symm.trans h) nofun
  requested := fun h => h.elim (fun h => absurd h hr) fun h => absurd h hd
  first := fun h => absurd h hf
  ring := fun _ => rfl

/-- How a daemon may move while the other one is at `q`. -/
inductive Move (state : FecState) (fresh : Bool) (q : Pc) :
    Pc → Bool → FecState → Bool → Pc → Bool → Prop
  | woken (r : Bool) : Move state fresh q .wait r state fresh .acquire r
  | locked (r : Bool) (hq : q.holds = false) : Move state fresh q .acquire r state fresh .check r
  | lockedWork (r : Bool) (hq : q.holds = false) : Move state fresh q .acquire r state fresh .work false
  | worked (r : Bool) : Move state fresh q .work r state fresh .wait r
  | workedCheck (r : Bool) : Move state fresh q .work r state fresh .check r
  | passedUp (r : Bool) (hq : q.holds = false) : Move state fresh q .input r state fresh .work false
  | requested (r : Bool) (hs : state ≠ .normal) : Move state fresh q .check r state fresh .reset r
  | unrequested (r : Bool) : Move state fresh q .check r state fresh .work false
  | unrequestedWait (r : Bool) : Move state fresh q .check r state fresh .wait r
  | reset (r : Bool) : Move state fresh q .reset r state fresh .decide true
  | second (r : Bool) (hs : state = .restart1) : Move state fresh q .decide r state true .startHardware r
  | first (r : Bool) (hs : state ≠ .restart1) : Move state fresh q .decide r state fresh .setRestart1 r
  | started (r : Bool) : Move state fresh q .startHardware r state fresh .setNormal r
  | setNormal (r : Bool) : Move state fresh q .setNormal r .normal fresh .notify r
  | setRestart1 (r : Bool) : Move state fresh q .setRestart1 r .restart1 fresh .notify r
  | notified (r : Bool) : Move state fresh q .notify r state fresh .test r
  | waits (r : Bool) (hs : state ≠ .normal) : Move state fresh q .test r state fresh .restartWait r
  | returns (r : Bool) (hs : state = .normal) : Move state fresh q .test r state fresh .work false
  | returnsWait (r : Bool) (hs : state = .normal) : Move state fresh q .test r state fresh .wait r
  | notifiedBack (r : Bool) : Move state fresh q .restartWait r state fresh .restartAcquire r
  | lockedBack (r : Bool) (hq : q.holds = false) : Move state fresh q .restartAcquire r state fresh .test r

/-- **A move** keeps the invariant. -/
theorem Pair.of_move (h : Pair state fresh p pReset q qReset) {state' : FecState} {fresh' : Bool}
    {reset : Bool} (hm : Move state fresh q p pReset state' fresh' p' reset) :
    Pair state' fresh' p' reset q qReset := by
  have hfree (hp : p.holds = true) : q.holds = false := h.mutex hp
  have hnot0 (hp : p.inside = true) : state ≠ .restart0 := fun hs =>
    absurd ((h.left.outside hs).symm.trans hp) nofun
  cases hm with
  | woken => exact h.move (.before _ rfl rfl nofun nofun nofun) nofun (fun _ => rfl) nofun
  | locked _ hq => exact h.move (.before _ rfl rfl nofun nofun nofun) (fun _ => hq) (fun _ => rfl) nofun
  | lockedWork _ hq => exact h.move (.before _ rfl rfl nofun nofun nofun) (fun _ => hq) (fun _ => rfl) nofun
  | worked => exact h.move (.before _ rfl rfl nofun nofun nofun) nofun (fun _ => rfl) nofun
  | workedCheck => exact h.move (.before _ rfl rfl nofun nofun nofun) (fun _ => hfree rfl) (fun _ => rfl) nofun
  | passedUp _ hq => exact h.move (.before _ rfl rfl nofun nofun nofun) (fun _ => hq) (fun _ => rfl) nofun
  | requested _ hs =>
    exact h.move (.before _ rfl rfl (fun _ => hs) nofun nofun) (fun _ => hfree rfl) (fun _ => rfl) nofun
  | unrequested => exact h.move (.before _ rfl rfl nofun nofun nofun) (fun _ => hfree rfl) (fun _ => rfl) nofun
  | unrequestedWait => exact h.move (.before _ rfl rfl nofun nofun nofun) nofun (fun _ => rfl) nofun
  | reset =>
    have hside : Side state fresh .decide true :=
      ⟨fun _ => rfl, nofun, fun _ => h.left.requested (.inl rfl), nofun, fun _ => rfl⟩
    exact h.move hside (fun _ => hfree rfl) (fun _ => rfl) nofun
  | second _ hs =>
    -- the other one waits for the start of the hardware
    have hring := h.left.ring (.inl rfl)
    refine ⟨⟨fun _ => rfl, fun _ => ⟨hs, rfl⟩, nofun, nofun, fun _ => hring⟩, ?_, fun _ => hfree rfl,
      fun hs => h.announced hs, fun hn => absurd (hs.symm.trans hn) nofun⟩
    exact { h.right with starting := fun hq => ⟨hs, rfl⟩ }
  | first _ hs =>
    have hring := h.left.ring (.inl rfl)
    have hzero : state = .restart0 := by
      have hn := h.left.requested (.inr rfl)
      cases state with
      | restart0 => rfl
      | restart1 => exact absurd rfl hs
      | normal => exact absurd rfl hn
    have hside : Side state fresh .setRestart1 pReset :=
      ⟨fun _ => rfl, nofun, nofun, fun _ => hzero, fun _ => hring⟩
    exact h.move hside (fun _ => hfree rfl) (fun _ => rfl) nofun
  | started =>
    have hring := h.left.ring (.inr (.inr (.inl rfl)))
    have hside : Side state fresh .setNormal pReset :=
      ⟨fun _ => rfl, fun _ => h.left.starting rfl, nofun, nofun, fun _ => hring⟩
    exact h.move hside (fun _ => hfree rfl) (fun _ => rfl) nofun
  | setNormal =>
    obtain ⟨rfl, rfl⟩ := h.left.starting rfl
    have hq : q.inside = true := by
      have := h.announced rfl
      cases hq : q.inside with
      | true => rfl
      | false => rw [hq] at this; cases this
    obtain rfl := h.left.ring (.inr (.inr (.inl rfl)))
    refine ⟨.behind nofun rfl nofun nofun nofun, ?_, fun _ => hfree rfl, nofun, fun _ => ⟨rfl, nofun⟩⟩
    have hring := h.right.ring (.inr (.inr (.inr hq)))
    subst hring
    refine .behind nofun ?_ ?_ ?_ ?_
    all_goals cases q <;> first | (cases hq; done) | rfl | exact nofun
  | setRestart1 =>
    obtain rfl := h.left.first rfl
    obtain rfl := h.left.ring (.inr (.inl rfl))
    have hq : q.inside = false := h.right.outside rfl
    have hlock : q.holds = false := hfree rfl
    refine ⟨.behind nofun rfl nofun nofun nofun, ?_, fun _ => hlock, fun _ => by rw [hq]; rfl, nofun⟩
    refine .before _ hq ?_ ?_ ?_ ?_
    all_goals cases q <;> first | (cases hlock; done) | (cases hq; done) | rfl | exact nofun
  | notified =>
    obtain rfl := h.left.ring (.inr (.inr (.inr rfl)))
    exact h.move (.behind (hnot0 rfl) rfl nofun nofun nofun) (fun _ => hfree rfl) (fun _ => rfl) nofun
  | waits _ hs =>
    obtain rfl := h.left.ring (.inr (.inr (.inr rfl)))
    exact h.move (.behind (hnot0 rfl) rfl nofun nofun nofun) nofun (fun _ => rfl) fun hn => absurd hn hs
  | returns _ hs =>
    subst hs
    exact h.move (.before _ rfl rfl nofun nofun nofun) (fun _ => hfree rfl) nofun nofun
  | returnsWait _ hs =>
    subst hs
    exact h.move (.before _ rfl rfl nofun nofun nofun) nofun nofun nofun
  | notifiedBack =>
    obtain rfl := h.left.ring (.inr (.inr (.inr rfl)))
    exact h.move (.behind (hnot0 rfl) rfl nofun nofun nofun) nofun (fun _ => rfl) fun _ _ => .inl rfl
  | lockedBack _ hq =>
    obtain rfl := h.left.ring (.inr (.inr (.inr rfl)))
    exact h.move (.behind (hnot0 rfl) rfl nofun nofun nofun) (fun _ => hq) (fun _ => rfl) nofun

variable {s t : RestartState}

theorem other_ne (d : Daemon) : d.other ≠ d := by cases d <;> exact nofun

structure Moved (s t : RestartState) (d : Daemon) : Prop where
  move : Move s.state s.fresh (s.pc d.other) (s.pc d) (s.ringReset d) t.state t.fresh (t.pc d) (t.ringReset d)
  pc : t.pc d.other = s.pc d.other
  ringReset : t.ringReset d.other = s.ringReset d.other

theorem goto_pc (s : RestartState) (d : Daemon) (p : Pc) : (s.goto d p).pc d = p := update_self ..

theorem goto_other (s : RestartState) (d : Daemon) (p : Pc) : (s.goto d p).pc d.other = s.pc d.other :=
  update_of_ne (other_ne d) ..

variable {d : Daemon}

theorem moved_goto (ht : t.pc = (s.goto d p).pc) (hr : t.ringReset = s.ringReset)
    (hm : Move s.state s.fresh (s.pc d.other) (s.pc d) (s.ringReset d) t.state t.fresh p (s.ringReset d)) :
    Moved s t d where
  move := by rw [ht, hr, goto_pc]; exact hm
  pc := by rw [ht, goto_other]
  ringReset := by rw [hr]

theorem moved_ring {r : Bool} (ht : t.pc = (s.goto d p).pc)
    (hr : t.ringReset = update s.ringReset d r)
    (hm : Move s.state s.fresh (s.pc d.other) (s.pc d) (s.ringReset d) t.state t.fresh p r) : Moved s t d where
  move := by rw [ht, hr, goto_pc, update_self]; exact hm
  pc := by rw [ht, goto_other]
  ringReset := by rw [hr, update_of_ne (other_ne d)]

/-- **The steps of a daemon** are moves. -/
theorem runDaemon_moved (h : runDaemon s d = some t) : Moved s t d := by
  unfold runDaemon at h
  split at h <;> rename_i hpc
  · split at h
    · cases h
      exact moved_goto rfl rfl (hpc ▸ .woken _)
    · cases h
  · split at h
    · cases h
    · rename_i hlock
      have hq := Bool.eq_false_iff.mpr hlock
      cases d with
      | tx =>
        cases h
        exact moved_goto rfl rfl (hpc ▸ .locked _ hq)
      | rx =>
        cases h
        exact moved_ring rfl rfl (hpc ▸ .lockedWork _ hq)
  · cases d with
    | tx =>
      cases h
      exact moved_goto rfl rfl (hpc ▸ .worked _)
    | rx =>
      cases h
      exact moved_goto rfl rfl (hpc ▸ .workedCheck _)
  · split at h
    · cases h
    · rename_i hlock
      cases h
      exact moved_ring rfl rfl (hpc ▸ .passedUp _ (Bool.eq_false_iff.mpr hlock))
  · split at h
    · rename_i hs
      cases h
      exact moved_goto rfl rfl (hpc ▸ .requested _ hs)
    · cases d with
      | tx =>
        cases h
        exact moved_ring rfl rfl (hpc ▸ .unrequested _)
      | rx =>
        cases h
        exact moved_goto rfl rfl (hpc ▸ .unrequestedWait _)
  · cases h
    exact moved_ring rfl rfl (hpc ▸ .reset _)
  · split at h
    · rename_i hs
      cases h
      exact moved_goto rfl rfl (hpc ▸ .second _ hs)
    · rename_i hs
      cases h
      exact moved_goto rfl rfl (hpc ▸ .first _ hs)
  · cases h
    exact moved_goto rfl rfl (hpc ▸ .started _)
  · cases h
    exact moved_goto rfl rfl (hpc ▸ .setNormal _)
  · cases h
    exact moved_goto rfl rfl (hpc ▸ .setRestart1 _)
  · cases h
    exact moved_goto rfl rfl (hpc ▸ .notified _)
  · split at h
    · rename_i hs
      cases h
      exact moved_goto rfl rfl (hpc ▸ .waits _ hs)
    · rename_i hs
      have hs := Classical.not_not.mp hs
      cases d with
      | tx =>
        cases h
        exact moved_ring rfl rfl (hpc ▸ .returns _ hs)
      | rx =>
        cases h
        exact moved_goto rfl rfl (hpc ▸ .returnsWait _ hs)
  · split at h
    · cases h
      exact moved_goto rfl rfl (hpc ▸ .notifiedBack _)
    · cases h
  · split at h
    · cases h
    · rename_i hlock
      cases h
      exact moved_goto rfl rfl (hpc ▸ .lockedBack _ (Bool.eq_false_iff.mpr hlock))

theorem restartInv_init : RestartInv restartInit where
  left := .before _ rfl rfl nofun nofun nofun
  right := .before _ rfl rfl nofun nofun nofun
  mutex := nofun
  announced := nofun
  normal := nofun

theorem Pair.request (h : Pair state fresh p pReset q qReset) (hp : p.starting = false ∧ p.inside = false)
    (hq : q.starting = false ∧ q.inside = false) : Pair .restart0 false p pReset q qReset where
  left := { h.left with
    outside := fun _ => hp.2
    starting := fun hs => absurd (hp.1.symm.trans hs) nofun
    requested := fun _ => nofun
    first := fun _ => rfl }
  right := { h.right with
    outside := fun _ => hq.2
    starting := fun hs => absurd (hq.1.symm.trans hs) nofun
    requested := fun _ => nofun
    first := fun _ => rfl }
  mutex := h.mutex
  announced := nofun
  normal := nofun

/-- **One step** that meets the condition. -/
theorem restartInv_step {a : RestartAction} (h : RestartInv s) (hok : RestartSound s a)
    (hstep : restartStep s a = some t) : RestartInv t := by
  cases a with
  | request =>
    cases hstep
    exact Pair.request h (hok .tx) (hok .rx)
  | deliver d =>
    simp only [restartStep] at hstep
    split at hstep
    · cases hstep
    · cases hstep
      exact h
  | event d =>
    cases hstep
    exact h
  | run d =>
    obtain ⟨hmove, hpc, hreset⟩ := runDaemon_moved hstep
    cases d with
    | tx =>
      grind [Daemon.other, Pair.of_move, RestartInv]
    | rx =>
      grind [Daemon.other, Pair.of_move, Pair.symm, RestartInv]
  | input =>
    simp only [restartStep] at hstep
    split at hstep
    · rename_i hpc
      cases hstep
      have h' := Pair.symm h
      rw [hpc] at h'
      have hside : Side s.state s.fresh .input (s.ringReset .rx) := .before _ rfl rfl nofun nofun nofun
      exact (h'.move hside nofun (fun _ => rfl) nofun).symm
    · cases hstep

theorem Pair.not_both (h : Pair state fresh .restartWait pReset .restartWait qReset) : False := by
  cases state with
  | restart0 => exact absurd (h.left.outside rfl) nofun
  | restart1 => exact absurd (h.announced rfl) nofun
  | normal => exact ((h.normal rfl).2 (.inl rfl)).1 rfl

theorem Pair.rings (h : Pair state fresh .startHardware pReset q qReset) : pReset = true ∧ qReset = true := by
  obtain ⟨rfl, -⟩ := h.left.starting rfl
  have hq : q.inside = true := by
    have := h.announced rfl
    cases hq : q.inside with
    | true => rfl
    | false => rw [hq] at this; cases this
  exact ⟨h.left.ring (.inr (.inr (.inl rfl))), h.right.ring (.inr (.inr (.inr hq)))⟩

theorem RestartInv.good (h : RestartInv s) : RestartGood s where
  noMutualWait := by
    intro hwait
    rw [RestartInv, (hwait .tx).1, (hwait .rx).1] at h
    exact h.not_both
  ringsReset := by
    intro d hpc e
    have hboth : s.ringReset d = true ∧ s.ringReset d.other = true := by
      cases d with
      | tx =>
        rw [RestartInv, hpc] at h
        exact h.rings
      | rx =>
        have h' := Pair.symm h
        rw [hpc] at h'
        exact h'.rings
    cases d <;> cases e
    · exact hboth.1
    · exact hboth.2
    · exact hboth.2
    · exact hboth.1
  normal := fun hs => (h.normal hs).1

end Steps

/-- **The rendezvous**: when all requests of a run come at times when no daemon has taken its decision in
`mcf548x_fec_restart`, the daemons never wait for each other, the hardware is started when both rings are reset,
and no request is lost. -/
theorem restart_good (as : List RestartAction) (hok : StepsMeet restartStep RestartSound restartInit as) :
    Throughout restartStep RestartGood restartInit as :=
  throughout_of_meet (fun _ h => h.good) (fun _ _ _ h hok hstep => restartInv_step h hok hstep)
    restartInv_init hok

/-! ## Requests at other times -/

def deadlocked (s : RestartState) : Bool :=
  decide (s.pc .tx = .restartWait ∧ s.pc .rx = .restartWait) && !s.event .tx && !s.event .rx &&
    decide (s.owed .tx = 0 ∧ s.owed .rx = 0)

/-- Who goes on: the holder of the mutex, else the transmit daemon as long as it can. -/
def nextAction (s : RestartState) : RestartAction :=
  let go (d : Daemon) : RestartAction :=
    if s.pc d = .wait ∧ s.event d = false then .event d else .run d
  if (s.pc .tx).holds then .run .tx
  else if (s.pc .rx).holds then .run .rx
  else if s.pc .tx = .restartWait ∧ s.event .tx = false then go .rx
  else go .tx

def schedule : Nat → RestartState → List RestartAction
  | 0, _ => []
  | k + 1, s =>
    if deadlocked s then []
    else match restartStep s (nextAction s) with
      | some t => nextAction s :: schedule k t
      | none => []

def requestedAt (p q : Pc) (r r' : Bool) : RestartState where
  state := .restart0
  pc := fun d => match d with
    | .tx => p
    | .rx => q
  event := fun _ => true
  owed := fun _ => 0
  ringReset := fun d => match d with
    | .tx => r
    | .rx => r'
  fresh := false

def Pc.all : List Pc :=
  [.wait, .acquire, .work, .input, .check, .reset, .decide, .startHardware, .setNormal, .setRestart1, .notify,
    .test, .restartWait, .restartAcquire]

theorem Pc.mem_all (p : Pc) : p ∈ Pc.all := by cases p <;> decide

theorem schedule_deadlocks : ∀ p ∈ Pc.all, ∀ q ∈ Pc.all, ∀ r r' : Bool,
    (p.inside || q.inside) && !p.starting && !q.starting && !(p.holds && q.holds) = true →
      ((run restartStep (requestedAt p q r r') (schedule 40 (requestedAt p q r r'))).map deadlocked) =
        some true := by
  decide +kernel

theorem nextAction_ne_request (s : RestartState) : nextAction s ≠ .request := by
  simp only [nextAction]
  repeat' split
  all_goals (intro h; cases h)

theorem schedule_ne_request (k : Nat) (s : RestartState) : ∀ a ∈ schedule k s, a ≠ .request := by
  induction k generalizing s with
  | zero => exact nofun
  | succ k ih =>
    grind [schedule, nextAction_ne_request]

theorem mutualWait_of_deadlocked {s : RestartState} (h : deadlocked s = true) (d : Daemon) :
    s.pc d = .restartWait ∧ s.event d = false ∧ s.owed d = 0 := by
  simp only [deadlocked, Bool.and_eq_true, decide_eq_true_eq, Bool.not_eq_true'] at h
  obtain ⟨⟨⟨⟨htx, hrx⟩, hetx⟩, herx⟩, hotx, horx⟩ := h
  cases d with
  | tx => exact ⟨htx, hetx, hotx⟩
  | rx => exact ⟨hrx, herx, horx⟩

theorem deliver_owed (d : Daemon) : ∀ (k : Nat) (s : RestartState), s.owed d = k → ∃ ev,
    run restartStep s (List.replicate k (.deliver d)) =
      some { s with event := ev, owed := update s.owed d 0 }
  | 0, s, h => by
    have hnone : update s.owed d 0 = s.owed := by simp [← h]
    exact ⟨s.event, by rw [hnone]; rfl⟩
  | k + 1, s, h => by
    let m : RestartState := { s with
      event := update s.event d true
      owed := update s.owed d k }
    have hm : restartStep s (.deliver d) = some m := by
      simp only [restartStep, h, Nat.succ_ne_zero, if_false, Nat.add_sub_cancel, m]
    obtain ⟨ev, hev⟩ := deliver_owed d k m (update_self ..)
    refine ⟨ev, run_cons.mpr ⟨m, hm, hev.trans ?_⟩⟩
    simp [m]

theorem settle (s : RestartState) : ∃ bs, (∀ a ∈ bs, a ≠ .request) ∧
    run restartStep s bs = some { s with event := fun _ => true, owed := fun _ => 0 } := by
  obtain ⟨ev, htx⟩ := deliver_owed .tx _ s rfl
  obtain ⟨ev', hrx⟩ := deliver_owed .rx _
    { s with event := ev, owed := update s.owed .tx 0 } rfl
  refine ⟨List.replicate (s.owed .tx) (.deliver .tx) ++ (List.replicate (s.owed .rx) (.deliver .rx) ++
    [.event .tx, .event .rx]), ?_, ?_⟩
  · intro a ha
    grind
  · rw [run_append htx]
    refine (run_append hrx _).trans ?_
    have hev (ev : Daemon → Bool) :
        update (update ev .tx true) .rx true = fun _ => true := by
      funext d
      cases d <;> rfl
    have howed : update (update s.owed .tx 0) .rx 0 = fun _ => 0 := by
      funext d
      cases d <;> rfl
    simp only [run, restartStep, Option.bind_some, hev, howed]

theorem start_loses {s : RestartState} {d : Daemon} (hd : (s.pc d).starting = true) (hf : s.fresh = false) :
    ∃ bs u, (∀ a ∈ bs, a ≠ .request) ∧ run restartStep s bs = some u ∧ ¬ RestartGood u := by
  have hset (t : RestartState) (hpc : t.pc d = .setNormal) (ht : t.fresh = false) :
      ∃ u, restartStep t (.run d) = some u ∧ ¬ RestartGood u := by
    refine ⟨{ t.goto d .notify with state := .normal }, by simp only [restartStep, runDaemon, hpc], ?_⟩
    exact fun hgood => absurd (ht.symm.trans (hgood.normal rfl)) nofun
  cases hpc : s.pc d with
  | startHardware =>
    obtain ⟨u, hu, hbad⟩ := hset (s.goto d .setNormal) (goto_pc s d _) hf
    have hrun : restartStep s (.run d) = some (s.goto d .setNormal) := by
      simp only [restartStep, runDaemon, hpc]
    exact ⟨[.run d, .run d], u, by simp, run_cons.mpr ⟨_, hrun, run_cons.mpr ⟨u, hu, rfl⟩⟩, hbad⟩
  | setNormal =>
    obtain ⟨u, hu, hbad⟩ := hset s hpc hf
    exact ⟨[.run d], u, by simp, run_cons.mpr ⟨u, hu, rfl⟩, hbad⟩
  | _ =>
    rw [hpc] at hd
    cases hd

/-- **Any other request** can be followed, without another one, by a lost request or a mutual wait. -/
theorem request_breaks {as : List RestartAction} {s t : RestartState}
    (hmeet : StepsMeet restartStep RestartSound restartInit as) (hrun : run restartStep restartInit as = some s)
    (hbad : ¬ RestartSound s .request) (hstep : restartStep s .request = some t) :
    ∃ bs u, (∀ a ∈ bs, a ≠ .request) ∧ run restartStep t bs = some u ∧ ¬ RestartGood u := by
  have h := run_invariant_of_meet (fun _ _ _ h hok hs => restartInv_step h hok hs) as _ s restartInv_init hmeet hrun
  cases hstep
  by_cases hstart : ∃ d, (s.pc d).starting = true
  · obtain ⟨d, hd⟩ := hstart
    exact start_loses hd rfl
  · have hnot (d : Daemon) : (s.pc d).starting = false :=
      Bool.eq_false_iff.mpr fun hd => hstart ⟨d, hd⟩
    have hin : ((s.pc .tx).inside || (s.pc .rx).inside) = true := by
      refine Classical.byContradiction fun hno => hbad fun d => ⟨hnot d, ?_⟩
      rw [Bool.or_eq_true, not_or, Bool.not_eq_true, Bool.not_eq_true] at hno
      cases d with
      | tx => exact hno.1
      | rx => exact hno.2
    have hmutex : ((s.pc .tx).holds && (s.pc .rx).holds) = false := by
      cases hp : (s.pc .tx).holds with
      | false => rfl
      | true => rw [h.mutex hp]; rfl
    obtain ⟨bs, hbs, hrun⟩ := settle { s with
      state := .restart0, owed := fun d => s.owed d + 1, fresh := false }
    have hsame : ({ s with state := .restart0, owed := fun _ => 0, fresh := false, event := fun _ => true } :
        RestartState) = requestedAt (s.pc .tx) (s.pc .rx) (s.ringReset .tx) (s.ringReset .rx) := by
      simp only [requestedAt, RestartState.mk.injEq, true_and, and_true]
      constructor <;> funext d <;> cases d <;> rfl
    have hdead := schedule_deadlocks _ (Pc.mem_all (s.pc .tx)) _ (Pc.mem_all (s.pc .rx))
      (s.ringReset .tx) (s.ringReset .rx) (by rw [hin, hnot, hnot, hmutex]; rfl)
    obtain ⟨u, hu, hdl⟩ := Option.map_eq_some_iff.mp hdead
    refine ⟨bs ++ schedule 40 (requestedAt (s.pc .tx) (s.pc .rx) (s.ringReset .tx) (s.ringReset .rx)), u, ?_, ?_,
      fun hgood => hgood.noMutualWait (mutualWait_of_deadlocked hdl)⟩
    · intro a ha
      exact (List.mem_append.mp ha).elim (hbs a) (schedule_ne_request _ _ a)
    · rw [run_append hrun]
      rw [hsame]
      exact hu

/-! ## Runs -/

def firstRestart : List RestartAction :=
  [.request, .deliver .tx, .deliver .rx] ++ List.replicate 8 (.run .tx) ++ List.replicate 10 (.run .rx) ++
    List.replicate 4 (.run .tx)

theorem restart_good_first :
    (run restartStep restartInit firstRestart).map RestartState.state = some .normal ∧
      Throughout restartStep RestartGood restartInit firstRestart :=
  ⟨by decide, restart_good firstRestart (by decide)⟩

/-- The transmit daemon has announced itself and waits when a second request comes. -/
def secondRequest : List RestartAction :=
  [.request, .deliver .tx, .deliver .rx] ++ List.replicate 8 (.run .tx) ++
    [.request, .deliver .tx, .deliver .rx] ++ List.replicate 3 (.run .tx) ++ List.replicate 9 (.run .rx) ++
    List.replicate 3 (.run .tx)

theorem request_breaks_second : ∃ bs u, (∀ a ∈ bs, a ≠ .request) ∧
    run restartStep restartInit (secondRequest.take 12 ++ bs) = some u ∧ ¬ RestartGood u := by
  obtain ⟨bs, u, hbs, hrun, hbad⟩ := @request_breaks (secondRequest.take 11)
    ((run restartStep restartInit (secondRequest.take 11)).get rfl)
    ((run restartStep restartInit (secondRequest.take 12)).get rfl) (by decide) rfl (by decide) rfl
  have hfirst : run restartStep restartInit (secondRequest.take 12) =
      some ((run restartStep restartInit (secondRequest.take 12)).get rfl) := rfl
  exact ⟨bs, u, hbs, (run_append hfirst bs).trans hrun, hbad⟩

/-- The second request comes while the receive daemon starts the hardware. -/
def lostRequest : List RestartAction :=
  [.request, .deliver .tx, .deliver .rx] ++ List.replicate 8 (.run .tx) ++ List.replicate 6 (.run .rx) ++
    [.request, .run .rx, .run .rx]

/-- Both daemons wait for each other after a request that comes during a restart; a request that comes during the
start of the hardware is overwritten. -/
theorem late_request_breaks :
    (¬ ∀ as t, run restartStep restartInit as = some t →
      ¬ ∀ d, t.pc d = .restartWait ∧ t.event d = false ∧ t.owed d = 0) ∧
    ¬ ∀ as t, run restartStep restartInit as = some t → t.state = .normal → t.fresh = true := by
  constructor
  · intro h
    have hrun : (run restartStep restartInit secondRequest).map deadlocked = some true := by decide
    obtain ⟨t, ht, hdead⟩ := Option.map_eq_some_iff.mp hrun
    exact h _ t ht (mutualWait_of_deadlocked hdead)
  · intro h
    have hrun : (run restartStep restartInit lostRequest).map
        (fun t => decide (t.state = .normal ∧ t.fresh = false)) = some true := by decide
    obtain ⟨t, ht, hstate⟩ := Option.map_eq_some_iff.mp hrun
    obtain ⟨hnormal, hfresh⟩ := of_decide_eq_true hstate
    exact absurd (hfresh.symm.trans (h _ t ht hnormal)) nofun

end RtemsLibbsd.Mcf548x
