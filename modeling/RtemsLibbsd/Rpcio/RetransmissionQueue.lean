import RtemsLibbsd.Rpcio.Handover
import RtemsLibbsd.Rpcio.Lifetime

/-!
# The retransmission queue

The timeout queue of the daemon at the end of an iteration of its main loop, over the runs of tasks and daemon of
`Requestors`.

* `nextRetrans` — how long the daemon waits for events.
* `QueueInvariant` — the queue is sorted, and has the calls that the daemon took and did not complete.
* `Rebased` — the epoch is moved, and absolute times are as before.
* **`taskStep_base`** — a step of a task or of the daemon is a step of the model of the daemon, as far as the queues
  are concerned.

Principal result: `queue_of_run`.  A task that goes on with a transaction which `rpcUdpRcv` queued again puts it
into the queue twice, and a retry period of 0 leaves the age of a transaction at the current time
(`resendRun_breaks`).
-/

namespace RtemsLibbsd.Rpcio

open RtemsLibbsd.Transition

def nextRetrans (ticksPerSec : Nat) (s : State) : Int :=
  match s.listHead with
  | [] => RPCIOD_EPOCH_SECS * ticksPerSec
  | p :: _ => (s.xact p).age - s.now

/-- The transaction carries an accepted call that was not completed. -/
def State.Pending (s : State) (p : Ptr) : Prop := ∃ j < s.ncalls, (s.call j).ptr = p ∧ (s.call j).done = 0

/-- The timeout queue between two iterations; what is in the message queue was not taken yet. -/
structure QueueInvariant (ticksPerSec : Nat) (s : State) : Prop where
  sorted : s.listHead.Pairwise fun p q => (s.xact p).age ≤ (s.xact q).age
  once : s.listHead.Nodup
  pending : ∀ p, p ∈ s.listHead ↔ p ∉ s.msgQ ∧ s.Pending p
  later : ∀ p ∈ s.listHead, s.now < (s.xact p).age
  positive : 0 < nextRetrans ticksPerSec s
  first : ∀ p ∈ s.listHead.head?, nextRetrans ticksPerSec s = (s.xact p).age - s.now

/-- The clock and the absolute times of the transactions in the queue are as before. -/
structure Rebased (s t : State) : Prop where
  clock : t.clock = s.clock
  listHead : t.listHead = s.listHead
  expiry : ∀ p ∈ s.listHead, t.thenTicks + (t.xact p).age = s.thenTicks + (s.xact p).age
  trip : ∀ p ∈ s.listHead, t.thenTicks + (t.xact p).trip = s.thenTicks + (s.xact p).trip

def QueueKept (S : System) : TaskAct → Prop
  | .daemon a => Returns S (.daemon a) ∧ RetryPositive S.d a
  | a => Returns S a

instance (S : System) : (a : TaskAct) → Decidable (QueueKept S a)
  | .daemon a => inferInstanceAs (Decidable (Returns S (.daemon a) ∧ RetryPositive S.d a))
  | .get t pool p header => inferInstanceAs (Decidable (Returns S (.get t pool p header)))
  | .create t p srvr header => inferInstanceAs (Decidable (Returns S (.create t p srvr header)))
  | .put t => inferInstanceAs (Decidable (Returns S (.put t)))
  | .destroy t => inferInstanceAs (Decidable (Returns S (.destroy t)))
  | .send t srvr ms encodes => inferInstanceAs (Decidable (Returns S (.send t srvr ms encodes)))
  | .queue t => inferInstanceAs (Decidable (Returns S (.queue t)))
  | .wake t => inferInstanceAs (Decidable (Returns S (.wake t)))
  | .receive t => inferInstanceAs (Decidable (Returns S (.receive t)))
  | .decode t reply encodes => inferInstanceAs (Decidable (Returns S (.decode t reply encodes)))

section Epoch

variable {ticksPerSec : Nat}

/-- **The epoch is moved without a change of absolute times.** -/
theorem readjust_rebased (s : State) : Rebased s (readjust ticksPerSec s) := by
  unfold readjust
  split
  · refine ⟨?_, rfl, ?_, ?_⟩
    · show s.thenTicks + s.now + 0 = s.thenTicks + s.now
      omega
    · intro p hp
      simp only [if_pos hp]
      omega
    · intro p hp
      simp only [if_pos hp]
      omega
  · exact ⟨rfl, rfl, fun _ _ => rfl, fun _ _ => rfl⟩

end Epoch

structure SameQueues (s t : State) : Prop where
  view : t.view = s.view
  listHead : t.listHead = s.listHead
  newList : t.newList = s.newList
  pc : t.pc = s.pc
  now : t.now = s.now
  age : ∀ p, (t.core p).age = (s.core p).age

theorem SameQueues.refl (s : State) : SameQueues s s := ⟨rfl, rfl, rfl, rfl, rfl, fun _ => rfl⟩

theorem Timing.same {s t : State} (ht : Timing s) (h : SameQueues s t) : Timing t := by
  obtain ⟨pre, rest, hl, hpre, hrest, hnil⟩ := ht.sorted
  refine ⟨⟨pre, rest, h.listHead.trans hl, ?_, ?_, h.pc ▸ hnil⟩, ?_, ?_⟩
  · intro p hp
    rw [h.age, h.now]
    exact hpre p hp
  · simp only [h.age]
    exact hrest
  · intro hpc p hp
    rw [h.pc] at hpc
    rw [h.listHead] at hp
    rw [h.age, h.now]
    exact ht.later hpc p hp
  · intro p hp
    rw [h.newList] at hp
    rw [h.age, h.now]
    exact ht.fresh p hp

section Steps

variable {ticksPerSec : Nat} {poolsize : Nat → Nat} {base : Nat → Nat} {S T : System} {a : TaskAct}

/-- What a task or the daemon does is a step of the model of the daemon, which is then one of a requestor or `a`. -/
def BaseStep (ticksPerSec : Nat) (s t : State) (a : TaskAct) : Prop :=
  SameQueues s t ∨ ∃ b u, step ticksPerSec s b = some u ∧ SameQueues u t ∧ (b.ofRequestor = true ∨ a = .daemon b)

theorem baseStep_of_step {s t : State} {b : Act} (h : step ticksPerSec s b = some t)
    (hb : b.ofRequestor = true ∨ a = .daemon b) : BaseStep ticksPerSec s t a :=
  .inr ⟨b, t, h, .refl t, hb⟩

variable {p : Ptr}

theorem baseStep_created (hd : S.d.fault = false) {t : Nat} (hp : p ∉ S.d.live) (header : Bool)
    (pool server : Option Nat) : BaseStep ticksPerSec S.d (S.created t p header pool server).d a := by
  have hstep : step ticksPerSec S.d (.create p header) = some (rpcUdpXactCreate S.d p header).1 := by
    rw [step, if_neg (by simp [hd])]
    exact if_neg hp
  refine .inr ⟨_, _, hstep, ?_, .inl rfl⟩
  unfold System.created
  simp only
  split
  · refine ⟨view_upd_xact _ p rfl rfl rfl, rfl, rfl, rfl, rfl, fun q => ?_⟩
    rw [core_upd (rpcUdpXactCreate S.d p header).1 p _ _ rfl]
    rcases eq_or_ne q p with rfl | hq
    · rw [upd_self]
      rfl
    · rw [upd_ne _ _ hq]
  · exact .refl _

theorem Owners.owned_of_holds (h : Owners base S) {t : Nat} (ht : S.task t = .holds p) :
    S.d.owned p = true ∧ (S.d.core p).phase = .idle := by
  have hat := h.position t
  rw [ht] at hat
  exact ⟨owned_eq_true_iff.mpr ⟨h.live t p (by rw [ht]; rfl), hat.1⟩, hat.2.1⟩

theorem Owners.decode_d (h : Owners base S) {t : Nat} (ht : S.task t = .decode p) {reply : Reply}
    {encodes : Bool} (hno : ¬ Requeues S t reply encodes) : (decodeReply S t p reply encodes).d = S.d := by
  unfold decodeReply
  split
  · rfl
  · rfl
  · grind [h.decode_full, queueXact, System.returns]

/-- **A step of a task or of the daemon** that meets the condition is one of the model of the daemon, but for the
    server of a new transaction. -/
theorem taskStep_base (h : Owners base S) (hk : Returns S a) (hstep : taskStep ticksPerSec poolsize S a = some T) :
    BaseStep ticksPerSec S.d T.d a := by
  unfold taskStep at hstep
  split at hstep
  · cases hstep
  rename_i hfault
  have hd : S.d.fault = false := Bool.eq_false_iff.mpr hfault
  have hbase {b : Act} {s : State} (hb : b.ofRequestor = true) (hs : step ticksPerSec S.d b = some s) :
      BaseStep ticksPerSec S.d s a := baseStep_of_step hs (.inl hb)
  have hdestroy {t : Nat} {p : Ptr} (ht : S.task t = .holds p) :
      BaseStep ticksPerSec S.d (rpcUdpXactDestroy S.d p) a := by
    refine hbase (b := .destroy p) rfl ?_
    rw [step, if_neg hfault]
    exact if_pos (h.owned_of_holds ht)
  cases a with
  | daemon b =>
    simp only at hstep
    split at hstep
    · cases hstep
    · obtain ⟨d, hd, rfl⟩ := Option.map_eq_some_iff.mp hstep
      exact baseStep_of_step hd (.inr rfl)
  | get t k p header =>
    obtain ⟨⟨ht, hp⟩, ⟨⟩⟩ := Option.ite_none_right_eq_some.mp hstep
    unfold rpcUdpXactPoolGet
    split
    · exact .inl (.refl _)
    · exact baseStep_created hd hp header (some k) none
  | create t p srvr header =>
    grind [baseStep_created]
  | put t =>
    simp only at hstep
    split at hstep
    · rename_i p ht
      split at hstep
      · cases hstep
        unfold rpcUdpXactPoolPut
        split
        · exact .inl (.refl _)
        · exact hdestroy ht
      · cases hstep
    · cases hstep
  | destroy t =>
    grind
  | send t srvr ms encodes =>
    simp only at hstep
    split at hstep
    · rename_i p ht
      cases hstep
      obtain ⟨hown, hph⟩ := h.owned_of_holds ht
      refine hbase (b := .sendBegin p srvr ms encodes) rfl ?_
      rw [step, if_neg hfault]
      exact if_pos ⟨hown, hph⟩
    · cases hstep
  | queue t =>
    simp only at hstep
    split at hstep
    · rename_i p ht
      cases hstep
      have hat := h.position t
      rw [ht] at hat
      have hlive := h.live t p (by rw [ht]; rfl)
      refine hbase (b := .sendQueue p) rfl ?_
      rw [step, if_neg hfault]
      exact if_pos ⟨owned_eq_true_iff.mpr ⟨hlive, hat.1⟩, hat.2.1⟩
    · cases hstep
  | wake t =>
    simp only at hstep
    have hat := h.position t
    split at hstep
    · rename_i p ht
      rw [ht] at hat
      cases hstep
      have hlive := h.live t p (by rw [ht]; rfl)
      refine hbase (b := .sendEvent p) rfl ?_
      rw [step, if_neg hfault]
      exact if_pos ⟨hlive, hat.1⟩
    · rename_i p ht
      rw [ht] at hat
      exact hat.elim
    · cases hstep
  | receive t =>
    simp only at hstep
    split at hstep
    · split at hstep
      · cases hstep
      · cases hstep
        unfold receiveEvent
        split <;> exact .inl (.refl _)
    · cases hstep
  | decode t reply encodes =>
    simp only at hstep
    split at hstep
    · rename_i p ht
      cases hstep
      refine .inl ?_
      rw [h.decode_d ht hk]
      exact .refl _
    · cases hstep

structure Managed (base : Nat → Nat) (S : System) : Prop where
  owners : Owners base S
  tagged : Tagged S.d.view
  timing : Timing S.d
  opened : ∀ j, Open j S.d.view

theorem QueueKept.returns (h : QueueKept S a) : Returns S a := by
  cases a with
  | daemon b => exact h.1
  | _ => exact h

theorem Owners.listed (h : Owners base S) {b : Act} {u : State} (hstep : Rpcio.step ticksPerSec S.d b = some u)
    {k port : Nat} (hb : b = .rcv k port) (hfound : sockRcv S.d (S.d.call k).xid port = .found p) :
    p ∈ S.d.listHead := by
  subst hb
  obtain ⟨-, ⟨tx, hpc⟩, hk, hsends, -⟩ := step_spec hstep
  rcases @Queues.rcv_cases ticksPerSec _ _ h.paired.queues h.paired.sound h.paired.matched h.paired.bounded tx hpc k
    port hk hsends with ⟨hdrop, -⟩ | ⟨hnull, -⟩ | ⟨q, hq, -, hfound', -⟩
  · cases hdrop.symm.trans hfound
  · cases hnull.symm.trans hfound
  · cases hfound'.symm.trans hfound
    exact hq

/-- **Every step that meets the condition keeps what the queue rests on.** -/
theorem Managed.step (h : Managed base S) (hle : ticksPerSec ≤ 10 ^ 6) (hk : QueueKept S a)
    (hstep : taskStep ticksPerSec poolsize S a = some T) : Managed base T := by
  have hown := h.owners.step hk.returns hstep
  rcases taskStep_base h.owners hk.returns hstep with hsame | ⟨b, u, hu, hsame, hb⟩
  · exact ⟨hown, hsame.view ▸ h.tagged, h.timing.same hsame, fun j => hsame.view ▸ h.opened j⟩
  · have hsound := h.owners.paired.sound
    have hflow := h.owners.paired.queues.flow
    have hperiod : b = .work true → ∀ p rest, S.d.listHead = p :: rest → (S.d.core p).age ≤ S.d.now →
        0 ≤ (S.d.core p).tolive → 1 ≤ @period ticksPerSec S.d p := by
      rintro rfl
      rcases hb with hb | rfl
      · cases hb
      · exact hk.2.one_le_period hflow hle rfl
    refine ⟨hown, ?_, ?_, fun j => ?_⟩
    · rw [hsame.view]
      exact tagged_step hsound h.tagged hu
    · exact (h.timing.step hflow hsound hperiod hu).same hsame
    · rw [hsame.view]
      exact (h.opened j).step hsound h.tagged hu fun k port p hbk hfound _ _ => h.owners.listed hu hbk hfound

theorem managed_init (ticksPerSec : Nat) (xid : Option Nat) (port : Nat → Nat) :
    Managed (baseOf xid) (initSystem ticksPerSec xid port) where
  owners := owners_init ticksPerSec xid port
  tagged := tagged_init xid port
  timing := (running_init ticksPerSec xid port 0).timing
  opened j := (running_init ticksPerSec xid port j).opened

theorem Managed.mem_listHead (h : Managed base S) (hpc : S.d.pc = .wait) (p : Ptr) :
    p ∈ S.d.listHead ↔ p ∉ S.d.msgQ ∧ S.d.Pending p := by
  constructor
  · intro hp
    have hflight := mem_flight_of_listHead hp
    obtain ⟨j, hj⟩ := h.tagged.carries p hflight
    obtain ⟨hlt, hptr⟩ := h.tagged.own p j hj
    exact ⟨fun hm => h.owners.paired.sound.msgQ_listHead hm hp rfl, j, hlt, hptr, h.opened j p hflight hj⟩
  · rintro ⟨hm, j, hlt, rfl, hdone⟩
    have hflight : (S.d.call j).ptr ∈ S.d.flight := (h.tagged.pending j hlt hdone).1
    have hnew := h.owners.paired.queues.newList_nil (by simp [hpc]) (by simp [hpc])
    rcases List.mem_append.mp hflight with hmsg | hmem
    · exact absurd hmsg hm
    · rw [hnew, List.append_nil] at hmem
      exact hmem

theorem Managed.queueInvariant (h : Managed base S) (hticks : 0 < ticksPerSec) (hpc : S.d.pc = .wait) :
    QueueInvariant ticksPerSec S.d := by
  obtain ⟨pre, rest, hl, -, hrest, hnil⟩ := h.timing.sorted
  have hpre := hnil (by simp [hpc]) (by simp [hpc])
  subst hpre
  have hlater : ∀ p ∈ S.d.listHead, S.d.now < (S.d.xact p).age := h.timing.later (.inr hpc)
  have hnodup : S.d.flight.Nodup := Multiset.coe_nodup.mp h.owners.paired.sound.flight_nodup
  refine ⟨hl ▸ hrest, ?_, h.mem_listHead hpc, hlater, ?_, ?_⟩
  · exact (hnodup.of_append_right).of_append_left
  · grind [nextRetrans]
  · intro p hp
    obtain ⟨rest, hrest⟩ := List.head?_eq_some_iff.1 hp
    unfold nextRetrans
    rw [hrest]

end Steps

/-- **The retransmission queue.**  In every run of tasks and daemon whose steps meet the condition, the queue is as it
    should be whenever an iteration has ended, and moving the epoch changes no absolute time. -/
theorem queue_of_run {ticksPerSec : Nat} (hticks : 0 < ticksPerSec) (hle : ticksPerSec ≤ 10 ^ 6)
    {poolsize : Nat → Nat} {xid : Option Nat} {port : Nat → Nat} {acts : List TaskAct} {S : System}
    (hmeet : StepsMeet (taskStep ticksPerSec poolsize) QueueKept (initSystem ticksPerSec xid port) acts)
    (hrun : run (taskStep ticksPerSec poolsize) (initSystem ticksPerSec xid port) acts = some S) :
    (S.d.pc = .wait → QueueInvariant ticksPerSec S.d) ∧ Rebased S.d (readjust ticksPerSec S.d) := by
  have hmanaged := run_invariant_of_meet (fun _ _ _ h hk hst => Managed.step h hle hk hst) acts _ S
    (managed_init ticksPerSec xid port) hmeet hrun
  exact ⟨hmanaged.queueInvariant hticks, readjust_rebased S.d⟩

/-- Two tasks call through one pool; the first call is answered, the second one waits for its reply. -/
def waitingRun : List TaskAct :=
  callRun 1 4096 0 5 ++ [.decode 1 (.accepted .success .other) true, .put 1, .get 2 0 5120 true,
    .send 2 0 10000 true, .queue 2, .wake 2, .daemon (.kevent false false 10), .daemon .tx, .daemon .tx,
    .daemon (.work true), .daemon (.work true), .daemon .insert, .daemon .insert]

theorem queue_of_run_waitingRun :
    (systemAfter waitingRun).d.listHead = [4096] ∧ nextRetrans 100 (systemAfter waitingRun).d = 227 ∧
      QueueInvariant 100 (systemAfter waitingRun).d :=
  ⟨by decide, by decide, (@queue_of_run 100 (by decide) (by decide) (fun _ => 10) none (fun _ => 2049) waitingRun _
    (by decide) rfl).1 rfl⟩

/-- After `refreshRun` the task gets the same transaction from the pool and calls again. -/
def resendRun : List TaskAct :=
  refreshRun ++ [.put 1, .get 1 0 12288 true, .send 1 0 10000 true, .queue 1, .wake 1,
    .daemon (.kevent false false 15), .daemon .tx, .daemon .tx, .daemon .tx, .daemon (.work true),
    .daemon (.work true), .daemon .insert, .daemon .insert]

/-- A reply is received `2 ^ 29` ticks after the transmission, and another call is made to the server. -/
def stalledRun : List TaskAct :=
  callRun 1 4096 0 5 ++ [.decode 1 (.accepted .success .other) true, .put 1, .get 1 0 5120 true,
    .send 1 0 10000 true, .queue 1, .wake 1, .daemon (.kevent false false 10), .daemon .tx, .daemon .tx,
    .daemon (.work true), .daemon (.work true), .daemon .insert, .daemon .insert,
    .daemon (.kevent true false 536870837), .daemon (.rcv 1 2049), .daemon .rcvEnd, .daemon (.work true),
    .daemon .insert, .receive 1, .decode 1 (.accepted .success .other) true, .put 1, .get 1 0 5120 true,
    .send 1 0 10000 true, .queue 1, .wake 1, .daemon (.kevent false false 536870900), .daemon .tx, .daemon .tx,
    .daemon (.work true), .daemon (.work true), .daemon .insert, .daemon .insert]

/-- The transaction is in the queue twice, for two calls.  In the other run it is there once, but its age is the
    current time, and the daemon does not wait at all. -/
theorem resendRun_breaks :
    (∃ S, run (taskStep 100 fun _ => 10) (initSystem 100 none fun _ => 2049) resendRun = some S ∧ S.d.pc = .wait ∧
      S.d.listHead = [4096, 4096] ∧ ¬ QueueInvariant 100 S.d) ∧
    ∃ S, run (taskStep 100 fun _ => 10) (initSystem 100 none fun _ => 2049) stalledRun = some S ∧ S.d.pc = .wait ∧
      nextRetrans 100 S.d = 0 ∧ ¬ QueueInvariant 100 S.d := by
  refine ⟨⟨systemAfter resendRun, rfl, by decide, by decide, ?_⟩, systemAfter stalledRun, rfl, by decide, by decide, ?_⟩
  · intro h
    exact absurd h.once (by decide)
  · intro h
    exact absurd h.positive (by decide)

end RtemsLibbsd.Rpcio
