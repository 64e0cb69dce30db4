import RtemsLibbsd.Polling
import Mathlib.Data.Nat.Bitwise

/-!
# Stopping the MV643xx transmitter

`rtemsbsd/sys/dev/mve/if_mve.c`: `mveth_stop_tx` stops the transmit queues of a port, waits until they have
stopped, and then waits until the transmit FIFO is empty.  The second loop tests the number of the port
status register instead of its content, so what it does depends on the port alone.

* `Device` — the controller as a machine that answers every access to a register.
* `Drains` — a controller whose queues stop and whose FIFO then becomes empty.
* `stopTx_even`, `stopTx_odd` — what happens at active queues: an even port does not wait, an odd port
  waits forever.
* `stopTx_ok_iff` — the call is as expected exactly when no queue is active.
-/

namespace RtemsLibbsd.Mve.Stop

open Polling

universe u

/-! ## The driver -/

/-- The controller: any state, and for each access the new state and, for a read, the value. -/
structure Device (σ : Type u) where
  read : σ → ℕ → σ × ℕ
  write : σ → ℕ → ℕ → σ

inductive Access where
  | read (reg value : ℕ)
  | write (reg value : ℕ)

structure Bus (σ : Type u) where
  device : σ
  trace : List Access

def transmitQueueCommandR (port : ℕ) : ℕ := 0x2448 + port <<< 10

def portStatusR (port : ℕ) : ℕ := 0x2444 + port <<< 10

def txStopAll : ℕ := 0xff00

def txAnyRunning : ℕ := 0x00ff

def txFifoEmpty : ℕ := 1 <<< 10

section

variable {σ : Type u} (d : Device σ)

def mvRead (reg : ℕ) (b : Bus σ) : Bus σ × ℕ :=
  (⟨(d.read b.device reg).1, b.trace ++ [.read reg (d.read b.device reg).2]⟩, (d.read b.device reg).2)

def mvWrite (reg value : ℕ) (b : Bus σ) : Bus σ :=
  ⟨d.write b.device reg value, b.trace ++ [.write reg value]⟩

/-- The condition of the second loop: the macro is the number of the register, and nothing is read. -/
def statusCondition (port : ℕ) (b : Bus σ) : Bus σ × ℕ := (b, portStatusR port)

/-- `mveth_stop_tx`, with a bound for the rounds of each loop. -/
def stopTx (fuel port : ℕ) (b : Bus σ) : Option (ℕ × Bus σ) :=
  let r := mvRead d (transmitQueueCommandR port) b
  let activeQ := r.2 &&& txAnyRunning
  if activeQ ≠ 0 then
    let b := mvWrite d (transmitQueueCommandR port) txStopAll r.1
    (poll (mvRead d (transmitQueueCommandR port)) (fun v => txAnyRunning &&& v = 0) fuel b).bind fun b =>
      (poll (statusCondition port) (fun v => v &&& txFifoEmpty ≠ 0) fuel b).map fun b => (activeQ, b)
  else some (activeQ, r.1)

/-! ## What is expected -/

def QueuesIdle (v : ℕ) : Prop := txAnyRunning &&& v = 0

def FifoEmpty (v : ℕ) : Prop := v &&& txFifoEmpty ≠ 0

def stopped (port : ℕ) (s : σ) : σ :=
  d.write (d.read s (transmitQueueCommandR port)).1 (transmitQueueCommandR port) txStopAll

/-- Behind the stop command the queues report that they have stopped, after some reads, and then the port
    status reports an empty FIFO, after some further reads. -/
structure Drains (port : ℕ) (s : σ) : Prop where
  queues : ∃ n, QueuesIdle (value (d.read · (transmitQueueCommandR port)) n (stopped d port s))
  fifo : ∀ n, First (d.read · (transmitQueueCommandR port)) QueuesIdle n (stopped d port s) →
    ∃ m, FifoEmpty (value (d.read · (portStatusR port)) m
      (after (d.read · (transmitQueueCommandR port)) (n + 1) (stopped d port s)))

def Active (port : ℕ) (s : σ) : Prop := (d.read s (transmitQueueCommandR port)).2 &&& txAnyRunning ≠ 0

/-- The accesses contain a report of the port that its FIFO is empty. -/
def Reported (port : ℕ) (trace : List Access) : Prop :=
  ∃ v, Access.read (portStatusR port) v ∈ trace ∧ FifoEmpty v

/-- The call returns, and at active queues not before the port has reported an empty FIFO. -/
structure StopTxOk (port : ℕ) (s : σ) : Prop where
  returns : ∃ fuel active b, stopTx d fuel port ⟨s, []⟩ = some (active, b)
  waits : Active d port s → ∀ fuel active b, stopTx d fuel port ⟨s, []⟩ = some (active, b) →
    Reported port b.trace

end

/-! ## The loops -/

theorem portStatusR_bit (port : ℕ) : portStatusR port &&& txFifoEmpty ≠ 0 ↔ port % 2 = 0 := by
  have hdiv : portStatusR port / 2 ^ 10 = port + 9 := by
    unfold portStatusR
    omega
  rw [txFifoEmpty, Nat.one_shiftLeft, Nat.and_two_pow, Nat.testBit_eq_decide_div_mod_eq, hdiv]
  by_cases heven : port % 2 = 0
  · have hone : (port + 9) % 2 = 1 := by omega
    simp [heven, hone]
  · have hzero : (port + 9) % 2 = 0 := by omega
    simp [heven, hzero]

theorem portStatusR_ne (port : ℕ) : portStatusR port ≠ transmitQueueCommandR port := by
  unfold portStatusR transmitQueueCommandR
  omega

section

variable {σ : Type u} {d : Device σ} {port fuel : ℕ} {s : σ} {b : Bus σ}

theorem after_mvRead_trace {reg n : ℕ} {a : Access} (h : a ∈ (after (mvRead d reg) n b).trace) :
    a ∈ b.trace ∨ ∃ v, a = .read reg v := by
  induction n generalizing b with
  | zero => exact .inl h
  | succ n ih =>
    grind [after, mvRead]

theorem after_statusCondition (n : ℕ) (b : Bus σ) : after (statusCondition port) n b = b := by
  induction n with
  | zero => rfl
  | succ n ih => exact ih

theorem statusLoop_even (heven : port % 2 = 0) (hfuel : 0 < fuel) (b : Bus σ) :
    poll (statusCondition port) (fun v => v &&& txFifoEmpty ≠ 0) fuel b = some b := by
  rw [poll_eq_some_iff]
  exact ⟨0, hfuel, first_zero.2 ((portStatusR_bit port).2 heven), after_statusCondition 1 b⟩

theorem statusLoop_odd (hodd : port % 2 ≠ 0) (b : Bus σ) :
    poll (statusCondition port) (fun v => v &&& txFifoEmpty ≠ 0) fuel b = none := by
  rw [Option.eq_none_iff_forall_ne_some]
  intro t ht
  obtain ⟨n, _, hfirst, _⟩ := poll_eq_some_iff.1 ht
  exact hodd ((portStatusR_bit port).1 hfirst.ends)

/-! ## The call -/

def commanded (d : Device σ) (port : ℕ) (b : Bus σ) : Bus σ :=
  mvWrite d (transmitQueueCommandR port) txStopAll (mvRead d (transmitQueueCommandR port) b).1

theorem stopTx_idle (h : ¬ Active d port s) (fuel : ℕ) :
    stopTx d fuel port ⟨s, []⟩ =
      some ((d.read s (transmitQueueCommandR port)).2 &&& txAnyRunning,
        (mvRead d (transmitQueueCommandR port) ⟨s, []⟩).1) := if_neg h

theorem stopTx_active (h : Active d port s) (fuel : ℕ) :
    stopTx d fuel port ⟨s, []⟩ =
      (poll (mvRead d (transmitQueueCommandR port)) (fun v => txAnyRunning &&& v = 0) fuel
        (commanded d port ⟨s, []⟩)).bind fun b =>
        (poll (statusCondition port) (fun v => v &&& txFifoEmpty ≠ 0) fuel b).map fun b =>
          ((d.read s (transmitQueueCommandR port)).2 &&& txAnyRunning, b) := if_pos h

/-- An even port with active queues returns when these have stopped, and has not read the port status. -/
theorem stopTx_even (hdrains : Drains d port s) (hactive : Active d port s) (heven : port % 2 = 0) :
    ∃ fuel active b, stopTx d fuel port ⟨s, []⟩ = some (active, b) ∧ ¬ Reported port b.trace := by
  have hvalue : ∀ n, value (mvRead d (transmitQueueCommandR port)) n (commanded d port ⟨s, []⟩) =
      value (d.read · (transmitQueueCommandR port)) n (stopped d port s) := by
    intro n
    exact value_map (f := Bus.device) (fun _ => rfl) (fun _ => rfl) n _
  obtain ⟨n, hfirst⟩ : ∃ n, First (mvRead d (transmitQueueCommandR port))
      (fun v => txAnyRunning &&& v = 0) n (commanded d port ⟨s, []⟩) := by
    apply exists_first
    obtain ⟨n, hn⟩ := hdrains.queues
    rw [← hvalue] at hn
    exact ⟨n, hn⟩
  refine ⟨n + 1, (d.read s (transmitQueueCommandR port)).2 &&& txAnyRunning,
    after (mvRead d (transmitQueueCommandR port)) (n + 1) (commanded d port ⟨s, []⟩), ?_, ?_⟩
  · rw [stopTx_active hactive, poll_of_first hfirst, Option.bind_some,
      statusLoop_even heven (Nat.succ_pos n), Option.map_some]
  · rintro ⟨v, hmem, _⟩
    rcases after_mvRead_trace hmem with hmem | ⟨w, hread⟩
    · grind [commanded, mvWrite, mvRead, portStatusR_ne]
    · injection hread with hreg
      exact portStatusR_ne port hreg

theorem stopTx_odd (hactive : Active d port s) (hodd : port % 2 ≠ 0) (fuel : ℕ) :
    stopTx d fuel port ⟨s, []⟩ = none := by
  rw [stopTx_active hactive, Option.bind_eq_none_iff]
  intro b _
  simp [statusLoop_odd hodd]

/-- At a controller that drains, the call is as expected exactly when no queue is active. -/
theorem stopTx_ok_iff (d : Device σ) (port : ℕ) (s : σ) (hdrains : Drains d port s) :
    StopTxOk d port s ↔ ¬ Active d port s := by
  constructor
  · rintro ⟨returns, waits⟩ hactive
    grind [stopTx_even, stopTx_odd]
  · intro hidle
    exact ⟨⟨0, _, _, stopTx_idle hidle 0⟩, fun hactive => absurd hactive hidle⟩

end

/-! ## A controller -/

/-- A controller with one port: its queue runs until the stop command, and its FIFO holds a number of bytes,
    one less after each read of the port status. -/
def fifoDevice (port : ℕ) : Device (Bool × ℕ) where
  read s reg :=
    if reg = transmitQueueCommandR port then (s, if s.1 then 1 else 0)
    else if reg = portStatusR port then ((s.1, s.2 - 1), if s.2 = 0 then txFifoEmpty else 0)
    else (s, 0)
  write s reg value :=
    if reg = transmitQueueCommandR port ∧ value = txStopAll then (false, s.2) else s

theorem fifoDevice_drains (port fill : ℕ) : Drains (fifoDevice port) port (true, fill) := by
  have hstopped : stopped (fifoDevice port) port (true, fill) = (false, fill) := by
    simp [stopped, fifoDevice]
  have hqueue : ∀ n, after ((fifoDevice port).read · (transmitQueueCommandR port)) n (false, fill) =
      (false, fill) := by
    intro n
    induction n with
    | zero => rfl
    | succ n ih => grind [after_succ, fifoDevice]
  have hfifo : ∀ m, value ((fifoDevice port).read · (portStatusR port)) m (false, m) = txFifoEmpty := by
    intro m
    induction m with
    | zero => simp [value, after, fifoDevice, portStatusR_ne]
    | succ m ih => grind [value_succ, fifoDevice, portStatusR_ne]
  constructor
  · refine ⟨0, ?_⟩
    rw [hstopped]
    simp [value, after, fifoDevice, QueuesIdle]
  · intro n _
    refine ⟨fill, ?_⟩
    rw [hstopped, hqueue, hfifo]
    unfold FifoEmpty
    decide

/-- With bytes in the FIFO and a running queue, port 0 returns early and port 1 never. -/
theorem stopTx_ignores_fifo :
    Drains (fifoDevice 0) 0 (true, 3) ∧ ¬ StopTxOk (fifoDevice 0) 0 (true, 3) ∧
    Drains (fifoDevice 1) 1 (true, 3) ∧ (∀ fuel, stopTx (fifoDevice 1) fuel 1 ⟨(true, 3), []⟩ = none) ∧
    ¬ StopTxOk (fifoDevice 1) 1 (true, 3) := by
  have hzero : Active (fifoDevice 0) 0 (true, 3) := by
    unfold Active
    decide
  have hone : Active (fifoDevice 1) 1 (true, 3) := by
    unfold Active
    decide
  have hnever := stopTx_odd hone (by decide)
  refine ⟨fifoDevice_drains 0 3, ?_, fifoDevice_drains 1 3, hnever, ?_⟩
  · rintro ⟨_, waits⟩
    obtain ⟨fuel, active, b, hsome, hno⟩ := stopTx_even (fifoDevice_drains 0 3) hzero (by decide)
    exact hno (waits hzero fuel active b hsome)
  · rintro ⟨⟨fuel, active, b, hsome⟩, _⟩
    rw [hnever fuel] at hsome
    cases hsome

theorem stopTx_ok_iff_fifoDevice : StopTxOk (fifoDevice 0) 0 (true, 3) ↔ ¬ Active (fifoDevice 0) 0 (true, 3) :=
  stopTx_ok_iff (fifoDevice 0) 0 (true, 3) (fifoDevice_drains 0 3)

end RtemsLibbsd.Mve.Stop
