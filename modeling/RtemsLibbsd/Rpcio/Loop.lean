import RtemsLibbsd.Rpcio.Matching

/-!
# The main loop of the RPC daemon

* `Core` — the fields of a transaction that the queues and timers depend on, with one lemma for
  each operation of the model.
* **`step_spec`** — the inversion of `step`.
* `Queues`, `Budget`, `Timing` — what the main loop keeps about its queues, about the lifetime of
  the transactions and about the order of the timeout queue.
-/

namespace RtemsLibbsd.Rpcio

open Option List RtemsLibbsd.Transition

/-- The fields of a transaction that the queues and timers depend on. -/
structure Core where
  server : Option Nat
  lifetime : Int
  tolive : Int
  age : Int
  phase : Phase
  call : Option Nat

def Xact.core (x : Xact) : Core := ⟨x.server, x.lifetime, x.tolive, x.age, x.phase, x.call⟩

def State.core (s : State) (p : Ptr) : Core := (s.xact p).core

section Cores

variable {ticksPerSec : Nat} (s : State) (p : Ptr)

theorem core_upd (x : Xact) (t : State) (ht : t.xact = upd s.xact p x) :
    t.core = upd s.core p x.core := by
  funext q
  show (t.xact q).core = _
  rw [ht]
  unfold upd
  split <;> rfl

theorem upd_same {β : Type} (f : Nat → β) (a : Nat) : upd f a (f a) = f := by
  funext x
  unfold upd
  split
  · rename_i h
    rw [h]
  · rfl

theorem core_advance : (advance s p).core = s.core := by
  rw [core_upd s p _ (advance s p) rfl]
  exact upd_same s.core p

theorem core_complete (status : ClntStat) : (complete s p status).core = s.core := by
  rw [core_upd s p _ (complete s p status) rfl]
  exact upd_same s.core p

theorem core_sendBegin (srvr ms : Nat) (encodes : Bool) :
    (sendBegin ticksPerSec s p srvr ms encodes).core =
      upd s.core p { s.core p with
        server := some srvr, lifetime := lifetimeOf ticksPerSec ms,
        tolive := lifetimeOf ticksPerSec ms,
        phase := if encodes then .encoded else (s.core p).phase } := by
  funext q
  rcases eq_or_ne q p with rfl | hq
  · cases encodes <;> simp [sendBegin, advance, State.core, Xact.core]
  · cases encodes <;> simp [sendBegin, advance, State.core, hq]

theorem core_sendQueue :
    (sendQueue s p).core =
      if s.msgQOpen ∧ s.msgQ.length < RPCIOD_QDEPTH then
        upd s.core p { s.core p with phase := .queued, call := some s.ncalls }
      else upd s.core p { s.core p with phase := .idle } := by
  unfold sendQueue
  split
  all_goals
    funext q
    rcases eq_or_ne q p with rfl | hq
    · simp [State.core, Xact.core]
    · simp [State.core, hq]

theorem core_sendEvent :
    (sendEvent s p).core = upd s.core p { s.core p with phase := .idle } := by
  rw [core_upd s p _ (sendEvent s p) rfl]
  rfl

theorem core_create (header : Bool) {q : Ptr} (hq : q ≠ p) :
    (rpcUdpXactCreate s p header).1.core q = s.core q := by
  unfold rpcUdpXactCreate
  split
  · simp only
    split
    · rfl
    · show (upd s.xact p _ q).core = _
      rw [upd_ne _ _ hq]
      rfl
  · rfl

theorem core_create_phase (header : Bool) :
    ((rpcUdpXactCreate s p header).1.core p).phase = .idle ∨
    (rpcUdpXactCreate s p header).1.core p = s.core p := by
  unfold rpcUdpXactCreate
  split
  · simp only
    split
    · exact .inr rfl
    · left
      show (upd s.xact p _ p).core.phase = _
      rw [upd_self]
      rfl
  · exact .inr rfl

theorem core_txStep {rest : List Ptr} (hq : s.msgQ = p :: rest) :
    (txStep s).core = upd s.core p { s.core p with age := s.now } := by
  unfold txStep
  rw [hq]
  rw [core_upd s p _ _ rfl]
  rfl

/-- The waiting time that `sent` schedules. -/
def period : Int :=
  min (if (s.xact p).trip ≠ FIRST_ATTEMPT then
      backOff ticksPerSec (s.server ((s.core p).server.getD 0)).retryPeriod
    else (s.server ((s.core p).server.getD 0)).retryPeriod : Nat) (s.core p).lifetime

theorem core_sent :
    (sent ticksPerSec s p).core = upd s.core p { s.core p with
      age := s.now + @period ticksPerSec s p, tolive := (s.core p).tolive - @period ticksPerSec s p } := by
  rw [core_upd s p _ _ rfl]
  rfl

theorem core_readjust (q : Ptr) (hq : q ∈ s.listHead) :
    (readjust ticksPerSec s).core q =
      { s.core q with age := s.thenTicks + (s.core q).age - (readjust ticksPerSec s).thenTicks } := by
  unfold readjust
  split
  · show (if q ∈ s.listHead then _ else s.xact q : Xact).core = _
    rw [if_pos hq]
    simp only [Xact.core, State.core, Core.mk.injEq, true_and, and_true]
    omega
  · show s.core q = { s.core q with age := s.thenTicks + (s.core q).age - s.thenTicks }
    simp

theorem core_readjust_rest (q : Ptr) :
    ((readjust ticksPerSec s).core q).server = (s.core q).server ∧
    ((readjust ticksPerSec s).core q).lifetime = (s.core q).lifetime ∧
    ((readjust ticksPerSec s).core q).tolive = (s.core q).tolive ∧
    ((readjust ticksPerSec s).core q).phase = (s.core q).phase ∧
    ((readjust ticksPerSec s).core q).call = (s.core q).call := by
  unfold readjust
  split
  · simp only [State.core]
    split <;> exact ⟨rfl, rfl, rfl, rfl, rfl⟩
  · exact ⟨rfl, rfl, rfl, rfl, rfl⟩

theorem core_txStep_rest (q : Ptr) :
    ((txStep s).core q).tolive = (s.core q).tolive ∧ ((txStep s).core q).lifetime = (s.core q).lifetime ∧
    ((txStep s).core q).call = (s.core q).call ∧ ((txStep s).core q).phase = (s.core q).phase := by
  cases hm : s.msgQ with
  | nil =>
    unfold txStep
    rw [hm]
    exact ⟨rfl, rfl, rfl, rfl⟩
  | cons p rest =>
    rw [core_txStep s p hm]
    unfold upd
    grind

theorem core_insertStep_rest (q : Ptr) :
    ((insertStep ticksPerSec s).core q).tolive = (s.core q).tolive ∧
    ((insertStep ticksPerSec s).core q).lifetime = (s.core q).lifetime ∧
    ((insertStep ticksPerSec s).core q).call = (s.core q).call ∧
    ((insertStep ticksPerSec s).core q).phase = (s.core q).phase := by
  unfold insertStep
  split
  · obtain ⟨-, h2, h3, h4, h5⟩ := @core_readjust_rest ticksPerSec s q
    exact ⟨h3, h2, h5, h4⟩
  · exact ⟨rfl, rfl, rfl, rfl⟩

end Cores

def StepSpec (ticksPerSec : Nat) (s t : State) : Act → Prop
  | .create p header => p ∉ s.live ∧ t = (rpcUdpXactCreate s p header).1
  | .destroy p => s.owned p = true ∧ (s.core p).phase = .idle ∧ t = rpcUdpXactDestroy s p
  | .sendBegin p srvr ms encodes => s.owned p = true ∧ (s.core p).phase = .idle ∧
      t = sendBegin ticksPerSec s p srvr ms encodes
  | .sendQueue p => s.owned p = true ∧ (s.core p).phase = .encoded ∧ t = sendQueue s p
  | .sendEvent p => p ∈ s.live ∧ (s.core p).phase = .queued ∧ t = sendEvent s p
  | .kevent rx kill unow => s.pc = .wait ∧ s.thenTicks + s.now ≤ unow ∧ t = kevent s rx kill unow
  | .rcv j port => (∃ tx, s.pc = .rx tx) ∧ j < s.ncalls ∧ 0 < (s.call j).sends ∧
      t = rcv ticksPerSec s j port
  | .rcvEnd => ∃ tx, s.pc = .rx tx ∧ t = rcvEnd s tx
  | .tx => s.pc = .tx ∧ t = txStep s
  | .work sends => s.pc = .work ∧ t = work ticksPerSec s sends
  | .insert => s.pc = .insert ∧ t = insertStep ticksPerSec s

theorem step_spec {ticksPerSec : Nat} {s t : State} {a : Act}
    (h : step ticksPerSec s a = some t) : s.fault = false ∧ StepSpec ticksPerSec s t a := by
  unfold step at h
  split at h
  · cases h
  · rename_i hfault
    refine ⟨by simpa using hfault, ?_⟩
    cases a with
    | create p header =>
      simp only at h
      split at h
      · cases h
      · rename_i hp
        cases h
        exact ⟨hp, rfl⟩
    | destroy p =>
      obtain ⟨⟨hown, hph⟩, ⟨⟩⟩ := ite_none_right_eq_some.mp h
      exact ⟨hown, hph, rfl⟩
    | sendBegin p srvr ms encodes =>
      obtain ⟨⟨hown, hph⟩, ⟨⟩⟩ := ite_none_right_eq_some.mp h
      exact ⟨hown, hph, rfl⟩
    | sendQueue p =>
      obtain ⟨⟨hown, hph⟩, ⟨⟩⟩ := ite_none_right_eq_some.mp h
      exact ⟨hown, hph, rfl⟩
    | sendEvent p =>
      obtain ⟨⟨hp, hph⟩, ⟨⟩⟩ := ite_none_right_eq_some.mp h
      exact ⟨hp, hph, rfl⟩
    | kevent rx kill unow =>
      obtain ⟨⟨hpc, hle⟩, ⟨⟩⟩ := ite_none_right_eq_some.mp h
      exact ⟨hpc, hle, rfl⟩
    | rcv j port =>
      simp only at h
      split at h
      · rename_i tx hpc
        obtain ⟨⟨hj, hs⟩, ⟨⟩⟩ := ite_none_right_eq_some.mp h
        exact ⟨⟨tx, hpc⟩, hj, hs, rfl⟩
      · cases h
    | rcvEnd =>
      simp only at h
      split at h
      · rename_i tx hpc
        cases h
        exact ⟨tx, hpc, rfl⟩
      · cases h
    | tx =>
      obtain ⟨hpc, ⟨⟩⟩ := ite_none_right_eq_some.mp h
      exact ⟨hpc, rfl⟩
    | work sends =>
      obtain ⟨hpc, ⟨⟩⟩ := ite_none_right_eq_some.mp h
      exact ⟨hpc, rfl⟩
    | insert =>
      obtain ⟨hpc, ⟨⟩⟩ := ite_none_right_eq_some.mp h
      exact ⟨hpc, rfl⟩

theorem work_cases (ticksPerSec : Nat) (s : State) (sends : Bool) :
    (work ticksPerSec s sends = { s with pc := .insert } ∧
      ∀ p rest, s.listHead = p :: rest → s.now < (s.core p).age) ∨
    ∃ p rest, s.listHead = p :: rest ∧ (s.core p).age ≤ s.now ∧
      (((s.core p).tolive < 0 ∧ work ticksPerSec s sends = timedOut { s with listHead := rest } p) ∨
       (0 ≤ (s.core p).tolive ∧ sends = true ∧
         work ticksPerSec s sends = sent ticksPerSec { s with listHead := rest } p) ∨
       (0 ≤ (s.core p).tolive ∧ sends = false ∧
         work ticksPerSec s sends = sendFailed { s with listHead := rest } p)) := by
  unfold work
  cases hl : s.listHead with
  | nil => exact .inl ⟨rfl, fun _ _ h => by cases h⟩
  | cons p rest =>
    simp only
    split
    · rename_i hage
      refine .inr ⟨p, rest, rfl, hage, ?_⟩
      split
      · rename_i hlive
        exact .inl ⟨hlive, rfl⟩
      · rename_i hlive
        refine .inr ?_
        cases sends with
        | true => exact .inl ⟨not_lt.mp hlive, rfl, rfl⟩
        | false => exact .inr ⟨not_lt.mp hlive, rfl, rfl⟩
    · rename_i hage
      refine .inl ⟨rfl, ?_⟩
      rintro q r ⟨⟩
      exact not_le.mp hage

/-- The transaction `p` was completed and the timeout queue is `l`: all that the queues and timers
    depend on is as before. -/
structure Finished (s t : State) (p : Ptr) (l : List Ptr) : Prop where
  core : t.core = s.core
  msgQ : t.msgQ = s.msgQ
  listHead : t.listHead = l
  newList : t.newList = s.newList
  pc : t.pc = s.pc
  txEvent : t.txEvent = s.txEvent
  now : t.now = s.now
  thenTicks : t.thenTicks = s.thenTicks
  iterations : t.iterations = s.iterations
  ncalls : t.ncalls = s.ncalls
  calls : ∀ j, (t.call j).sends = (s.call j).sends ∧ (t.call j).lifetime = (s.call j).lifetime
  done_le : ∀ j, (s.call j).done ≤ (t.call j).done
  event : ∀ j, (s.core p).call = some j → 0 < (t.call j).done

theorem finished_complete {s u : State} (hcore : u.core = s.core) (hcall : u.call = s.call)
    (hmsg : u.msgQ = s.msgQ) (hnew : u.newList = s.newList) (hpc : u.pc = s.pc)
    (htx : u.txEvent = s.txEvent) (hnow : u.now = s.now) (hthen : u.thenTicks = s.thenTicks)
    (hit : u.iterations = s.iterations) (hn : u.ncalls = s.ncalls) {l : List Ptr}
    (hl : u.listHead = l) (p : Ptr) (status : ClntStat) :
    Finished s (complete u p status) p l := by
  have hc : (complete u p status).call = (s.core p).call.elim s.call fun j =>
      upd s.call j { s.call j with done := (s.call j).done + 1 } := by
    rw [← hcore, ← hcall]
    show (complete u p status).call = (u.xact p).call.elim u.call _
    unfold complete
    cases (u.xact p).call <;> rfl
  refine ⟨(core_complete u p status).trans hcore, hmsg, hl, hnew, hpc, htx, hnow, hthen, hit, hn,
    ?_, ?_, ?_⟩
  · intro j
    rw [hc]
    cases (s.core p).call with
    | none => exact ⟨rfl, rfl⟩
    | some k =>
      show (upd s.call k _ j).sends = _ ∧ (upd s.call k _ j).lifetime = _
      unfold upd
      grind
  · intro j
    rw [hc]
    cases (s.core p).call with
    | none => exact le_rfl
    | some k =>
      show _ ≤ (upd s.call k _ j).done
      unfold upd
      split
      · rename_i h
        rw [h]
        exact Nat.le_succ _
      · exact le_rfl
  · intro j hj
    rw [hc, hj]
    show 0 < (upd s.call j _ j).done
    rw [upd_self]
    exact Nat.succ_pos _

theorem finished_timedOut (s : State) (p : Ptr) (l : List Ptr) :
    Finished s (timedOut { s with listHead := l } p) p l := by
  apply finished_complete
  · exact core_advance { s with listHead := l } p
  all_goals rfl

theorem finished_sendFailed (s : State) (p : Ptr) (l : List Ptr) :
    Finished s (sendFailed { s with listHead := l } p) p l := by
  apply finished_complete
  · rw [core_upd s p _ _ rfl]
    exact upd_same s.core p
  all_goals rfl

theorem finished_received (ticksPerSec : Nat) (s : State) (p : Ptr) :
    Finished s (received ticksPerSec s p) p (s.listHead.erase p) := by
  apply finished_complete
  · rw [core_upd (advance { s with listHead := s.listHead.erase p } p) p _ _ rfl]
    exact (upd_same _ p).trans (core_advance { s with listHead := s.listHead.erase p } p)
  all_goals rfl

theorem Finished.flight {s t : State} {p : Ptr} {l : List Ptr} (h : Finished s t p l)
    (hl : ∀ p ∈ l, p ∈ s.listHead) : ∀ p ∈ t.flight, p ∈ s.flight := by
  intro p hp
  unfold State.flight at hp ⊢
  rw [h.msgQ, h.listHead, h.newList] at hp
  grind

/-- What the queues keep without the matching of replies: new transmissions are collected in one
    iteration only, an owned transaction has a server and a lifetime, and the daemon has been or
    will be told about the message queue. -/
structure Flow (s : State) : Prop where
  newList_nil : s.pc ≠ .work → s.pc ≠ .insert → s.newList = []
  served : ∀ p, p ∈ s.flight ∨ (s.core p).phase = .encoded →
    (s.core p).server.isSome = true ∧ 1 ≤ (s.core p).lifetime
  signalled : ∀ p ∈ s.msgQ,
    (s.core p).phase = .queued ∨ s.txEvent = true ∨ s.pc = .rx true ∨ s.pc = .tx

/-- The queues of the daemon: new transmissions are collected in one iteration only, a call in the
    message queue was not transmitted, an owned transaction has a server and a lifetime, and the
    daemon has been or will be told about the message queue. -/
structure Queues (s : State) : Prop where
  newList_nil : s.pc ≠ .work → s.pc ≠ .insert → s.newList = []
  unsent : ∀ p ∈ s.msgQ, ∀ j, (s.core p).call = some j → (s.call j).sends = 0
  served : ∀ p, p ∈ s.flight ∨ (s.core p).phase = .encoded →
    (s.core p).server.isSome = true ∧ 1 ≤ (s.core p).lifetime
  signalled : ∀ p ∈ s.msgQ,
    (s.core p).phase = .queued ∨ s.txEvent = true ∨ s.pc = .rx true ∨ s.pc = .tx

theorem Queues.flow {s : State} (hq : Queues s) : Flow s := ⟨hq.newList_nil, hq.served, hq.signalled⟩

section FlowSteps

variable {ticksPerSec : Nat} {base : Nat → Nat} {s : State}

variable {p : Ptr}

theorem mem_flight_of_msgQ (h : p ∈ s.msgQ) : p ∈ s.flight := mem_append_left _ h

theorem mem_flight_of_listHead (h : p ∈ s.listHead) : p ∈ s.flight :=
  mem_append_right _ (mem_append_left _ h)

theorem mem_flight_of_newList (h : p ∈ s.newList) : p ∈ s.flight :=
  mem_append_right _ (mem_append_right _ h)

theorem one_le_lifetimeOf (ms : Nat) : 1 ≤ lifetimeOf ticksPerSec ms := by
  unfold lifetimeOf
  split
  · exact le_rfl
  · omega

theorem Flow.create (hq : Flow s) (hs : Sound base s.view) (hp : p ∉ s.live)
    (header : Bool) : Flow (rpcUdpXactCreate s p header).1 := by
  have hne : ∀ q ∈ s.flight, q ≠ p := by
    rintro q hqf rfl
    exact hp (hs.flight_live q hqf)
  have hframe : ∀ r : State, r = (rpcUdpXactCreate s p header).1 → r.msgQ = s.msgQ ∧
      r.listHead = s.listHead ∧ r.newList = s.newList ∧ r.pc = s.pc ∧ r.txEvent = s.txEvent := by
    rintro r rfl
    unfold rpcUdpXactCreate
    grind
  obtain ⟨hmsg, hlist, hnew, hpc, htx⟩ := hframe _ rfl
  have hflight : (rpcUdpXactCreate s p header).1.flight = s.flight := by
    unfold State.flight
    rw [hmsg, hlist, hnew]
  constructor
  · rw [hpc, hnew]
    exact hq.newList_nil
  · intro q hqf
    rw [hflight] at hqf
    rcases eq_or_ne q p with rfl | hqp
    · rcases hqf with hqf | hph
      · exact absurd rfl (hne q hqf)
      · grind [core_create_phase, hq.served]
    · rw [core_create s p header hqp] at hqf ⊢
      exact hq.served q hqf
  · intro q hqm
    rw [hmsg] at hqm
    rw [core_create s p header (hne q (mem_flight_of_msgQ hqm)), htx, hpc]
    exact hq.signalled q hqm

theorem Flow.sendBegin (hq : Flow s) (hp : p ∉ s.flight) (srvr ms : Nat)
    (encodes : Bool) : Flow (sendBegin ticksPerSec s p srvr ms encodes) := by
  have hne : ∀ q ∈ s.flight, q ≠ p := by
    rintro q hqf rfl
    exact hp hqf
  have hcore := @core_sendBegin ticksPerSec s p srvr ms encodes
  refine ⟨hq.newList_nil, ?_, ?_⟩
  · intro q hqf
    rw [hcore] at hqf ⊢
    rcases eq_or_ne q p with rfl | hqp
    · rw [upd_self]
      exact ⟨rfl, one_le_lifetimeOf ms⟩
    · rw [upd_ne _ _ hqp] at hqf ⊢
      exact hq.served q hqf
  · intro q hqm
    rw [hcore, upd_ne _ _ (hne q (mem_flight_of_msgQ hqm))]
    exact hq.signalled q hqm

theorem sendQueue_room (hroom : s.msgQOpen = true ∧ s.msgQ.length < RPCIOD_QDEPTH) :
    sendQueue s p = { s with
      msgQ := s.msgQ ++ [p]
      xact := upd s.xact p { s.xact p with phase := .queued, call := some s.ncalls }
      call := upd s.call s.ncalls ⟨p, slot (s.xact p).xid, s.gen (slot (s.xact p).xid),
        (s.xact p).xid, (s.xact p).lifetime, 0, 0⟩
      ncalls := s.ncalls + 1 } := if_pos hroom

theorem sendQueue_full (hfull : ¬ (s.msgQOpen = true ∧ s.msgQ.length < RPCIOD_QDEPTH)) :
    sendQueue s p = { s with xact := upd s.xact p { s.xact p with phase := .idle } } := if_neg hfull

theorem mem_flight_sendQueue {p q : Ptr} (h : q ∈ (sendQueue s p).flight) : q ∈ s.flight ∨ q = p := by
  by_cases hroom : s.msgQOpen = true ∧ s.msgQ.length < RPCIOD_QDEPTH
  · rw [sendQueue_room hroom] at h
    rcases mem_append.mp h with h | h
    · grind [mem_flight_of_msgQ]
    · exact .inl (mem_append_right _ h)
  · rw [sendQueue_full hroom] at h
    exact .inl h

theorem Flow.sendQueue (hq : Flow s) (hp : p ∉ s.flight)
    (hph : (s.core p).phase = .encoded) : Flow (sendQueue s p) := by
  have hne : ∀ q ∈ s.flight, q ≠ p := by
    rintro q hqf rfl
    exact hp hqf
  have hserved : ∀ q, q ∈ (Rpcio.sendQueue s p).flight ∨
      ((Rpcio.sendQueue s p).core q).phase = .encoded →
      ((Rpcio.sendQueue s p).core q).server.isSome = true ∧
      1 ≤ ((Rpcio.sendQueue s p).core q).lifetime := by
    intro q hqf
    have hold := hq.served p (.inr hph)
    rw [core_sendQueue] at hqf ⊢
    rcases eq_or_ne q p with rfl | hqp
    · split <;> simpa using hold
    · have hq' : q ∈ s.flight ∨ (s.core q).phase = .encoded := by
        refine hqf.imp (fun h => (mem_flight_sendQueue h).resolve_right hqp) ?_
        split <;> simp [hqp]
      split <;> simpa [hqp] using hq.served q hq'
  by_cases hroom : s.msgQOpen = true ∧ s.msgQ.length < RPCIOD_QDEPTH
  · have hcore := core_sendQueue s p
    rw [if_pos hroom] at hcore
    refine ⟨?_, hserved, ?_⟩
    · rw [sendQueue_room hroom]
      exact hq.newList_nil
    · intro q hqm
      rw [hcore]
      rw [sendQueue_room hroom] at hqm ⊢
      rcases mem_append.mp hqm with hqm | hqm
      · rw [upd_ne _ _ (hne q (mem_flight_of_msgQ hqm))]
        exact hq.signalled q hqm
      · rw [mem_singleton.mp hqm, upd_self]
        exact .inl rfl
  · have hcore := core_sendQueue s p
    refine ⟨?_, hserved, ?_⟩
    · rw [sendQueue_full hroom]
      exact hq.newList_nil
    · intro q hqm
      rw [hcore]
      grind [sendQueue_full, upd_ne, hq.signalled]

theorem Flow.sendEvent (hq : Flow s) : Flow (sendEvent s p) := by
  have hcore := core_sendEvent s p
  have hrest : ∀ q, ((Rpcio.sendEvent s p).core q).server = (s.core q).server ∧
      ((Rpcio.sendEvent s p).core q).lifetime = (s.core q).lifetime := by
    intro q
    rw [hcore]
    unfold upd
    split
    · rename_i h
      rw [h]
      exact ⟨rfl, rfl⟩
    · exact ⟨rfl, rfl⟩
  refine ⟨hq.newList_nil, ?_, fun _ _ => .inr (.inl rfl)⟩
  intro q hqf
  rw [(hrest q).1, (hrest q).2]
  refine hq.served q (hqf.imp_right ?_)
  intro h
  rw [hcore] at h
  unfold upd at h
  split at h
  · cases h
  · exact h

theorem Flow.quiet (hq : Flow s) {t : State} (hmsg : t.msgQ = s.msgQ)
    (hflight : ∀ p ∈ t.flight, p ∈ s.flight)
    (hcore : ∀ p, (t.core p).server = (s.core p).server ∧
      (t.core p).lifetime = (s.core p).lifetime ∧ (t.core p).phase = (s.core p).phase)
    (hnew : t.pc ≠ .work → t.pc ≠ .insert → t.newList = [])
    (hsignal : ∀ p ∈ s.msgQ, (s.core p).phase = .queued ∨ t.txEvent = true ∨ t.pc = .rx true ∨
      t.pc = .tx) : Flow t := by
  refine ⟨hnew, ?_, ?_⟩
  · intro p hp
    rw [(hcore p).1, (hcore p).2.1]
    rw [(hcore p).2.2] at hp
    exact hq.served p (hp.imp_left (hflight p))
  · intro p hp
    rw [hmsg] at hp
    rw [(hcore p).2.2]
    exact hsignal p hp

theorem Flow.finished (hq : Flow s) {t : State} {l : List Ptr} (h : Finished s t p l)
    (hl : ∀ p ∈ l, p ∈ s.listHead) : Flow t := by
  refine hq.quiet h.msgQ (h.flight hl) ?_ ?_ ?_
  · intro p
    rw [h.core]
    exact ⟨rfl, rfl, rfl⟩
  · rw [h.pc, h.newList]
    exact hq.newList_nil
  · intro p hp
    rw [h.txEvent, h.pc]
    exact hq.signalled p hp

theorem Flow.kevent (hq : Flow s) (hpc : s.pc = .wait) (rx kill : Bool) (unow : Int)
    (hopen : ¬ (kill = true ∧ ∀ i < XACT_HASHS, s.xactHashTbl i = none)) :
    Flow (kevent s rx kill unow) := by
  have ht : Rpcio.kevent s rx kill unow = { s with
      txEvent := false
      now := unow - s.thenTicks
      pc := if rx then .rx s.txEvent else if s.txEvent then .tx else .work } := if_neg hopen
  rw [ht]
  refine hq.quiet rfl (fun _ h => h) (fun _ => ⟨rfl, rfl, rfl⟩) ?_ ?_
  · intro _ _
    exact hq.newList_nil (by simp [hpc]) (by simp [hpc])
  · intro p hp
    rcases hq.signalled p hp with h | h | h | h
    · exact .inl h
    · simp only [h, if_true]
      cases rx <;> simp
    · simp [hpc] at h
    · simp [hpc] at h

theorem Flow.rcvEnd (hq : Flow s) {tx : Bool} (hpc : s.pc = .rx tx) : Flow (rcvEnd s tx) := by
  refine hq.quiet rfl (fun _ h => h) (fun _ => ⟨rfl, rfl, rfl⟩) ?_ ?_
  · intro _ _
    exact hq.newList_nil (by simp [hpc]) (by simp [hpc])
  · intro p hp
    rcases hq.signalled p hp with h | h | h | h
    · exact .inl h
    · exact .inr (.inl h)
    · rw [hpc] at h
      cases h
      exact .inr (.inr (.inr rfl))
    · simp [hpc] at h

theorem Flow.txStep (hq : Flow s) (hpc : s.pc = .tx) : Flow (txStep s) := by
  have hnil := hq.newList_nil (by simp [hpc]) (by simp [hpc])
  cases hm : s.msgQ with
  | nil =>
    have ht : Rpcio.txStep s = { s with pc := .work } := by
      unfold Rpcio.txStep
      rw [hm]
    rw [ht]
    refine hq.quiet rfl (fun _ h => h) (fun _ => ⟨rfl, rfl, rfl⟩) (fun _ _ => hnil) ?_
    intro p hp
    rw [hm] at hp
    cases hp
  | cons p rest =>
    have hcore := core_txStep s p hm
    have hsame : ∀ q, ((Rpcio.txStep s).core q).server = (s.core q).server ∧
        ((Rpcio.txStep s).core q).lifetime = (s.core q).lifetime ∧
        ((Rpcio.txStep s).core q).phase = (s.core q).phase := by
      intro q
      rw [hcore]
      unfold upd
      grind
    have hflight : ∀ q ∈ (Rpcio.txStep s).flight, q ∈ s.flight := by
      intro q hqf
      have := congrArg View.flight (view_txStep s)
      exact (mem_flight s).mp (this ▸ (mem_flight _).mpr hqf)
    have hfix : (Rpcio.txStep s).pc = .tx ∧ (Rpcio.txStep s).newList = [] := by
      unfold Rpcio.txStep
      rw [hm]
      exact ⟨hpc, hnil⟩
    refine ⟨fun _ _ => hfix.2, ?_, fun _ _ => .inr (.inr (.inr hfix.1))⟩
    intro q hqf
    rw [(hsame q).1, (hsame q).2.1]
    rw [(hsame q).2.2] at hqf
    exact hq.served q (hqf.imp_left (hflight q))

theorem Sound.msgQ_listHead (hs : Sound base s.view) {p q : Ptr} (hp : p ∈ s.msgQ)
    (hq : q ∈ s.listHead) : p ≠ q := by
  rintro rfl
  have hnodup : s.flight.Nodup := Multiset.coe_nodup.mp hs.flight_nodup
  exact (disjoint_of_nodup_append hnodup) hp (mem_append_left _ hq)

theorem Flow.sent (hq : Flow s) {rest : List Ptr} (hl : s.listHead = p :: rest)
    (hpc : s.pc = .work) : Flow (sent ticksPerSec { s with listHead := rest } p) := by
  refine hq.quiet rfl ?_ ?_ (fun h => absurd hpc h) hq.signalled
  · intro q hqf
    grind [State.flight, Rpcio.sent]
  · intro q
    rw [core_sent]
    unfold upd
    split
    · rename_i h
      rw [h]
      exact ⟨rfl, rfl, rfl⟩
    · exact ⟨rfl, rfl, rfl⟩

theorem Flow.insertStep (hq : Flow s) (hpc : s.pc = .insert) :
    Flow (insertStep ticksPerSec s) := by
  have hflight : ∀ q ∈ (Rpcio.insertStep ticksPerSec s).flight, q ∈ s.flight := by
    intro q hqf
    have := congrArg View.flight (@view_insertStep ticksPerSec s)
    exact (mem_flight s).mp (this ▸ (mem_flight _).mpr hqf)
  refine hq.quiet ?_ hflight ?_ ?_ ?_
  · unfold Rpcio.insertStep
    split
    · unfold readjust
      split <;> rfl
    · rfl
  · intro q
    unfold Rpcio.insertStep
    split
    · obtain ⟨h1, h2, -, h4, -⟩ := @core_readjust_rest ticksPerSec s q
      exact ⟨h1, h2, h4⟩
    · exact ⟨rfl, rfl, rfl⟩
  · grind [Rpcio.insertStep, readjust]
  · intro p hp
    grind [hq.signalled, Rpcio.insertStep, readjust]

theorem Sound.flight_nil (hs : Sound base s.view) (htbl : ∀ i < XACT_HASHS, s.xactHashTbl i = none) :
    s.flight = [] := by
  apply eq_nil_iff_forall_not_mem.mpr
  intro p hp
  have := hs.slotted p (hs.flight_live p hp)
  cases this.symm.trans (htbl _ (slot_lt _))

theorem Flow.killed (hq : Flow s) (hs : Sound base s.view) (hpc : s.pc = .wait)
    (htbl : ∀ i < XACT_HASHS, s.xactHashTbl i = none) :
    Flow { s with msgQOpen := false, pc := .dead } := by
  refine hq.quiet rfl (fun _ h => h) (fun _ => ⟨rfl, rfl, rfl⟩) ?_ ?_
  · intro _ _
    exact hq.newList_nil (by simp [hpc]) (by simp [hpc])
  · intro p hp
    have := mem_flight_of_msgQ hp
    rw [hs.flight_nil htbl] at this
    cases this

theorem rcv_eq (s : State) (j port : Nat) :
    rcv ticksPerSec s j port = s ∨ rcv ticksPerSec s j port = { s with fault := true } ∨
    ∃ p, sockRcv s (s.call j).xid port = .found p ∧ rcv ticksPerSec s j port = received ticksPerSec s p := by
  unfold rcv
  grind

/-- **The flow of the queues is kept by every step**, whatever a datagram is matched to. -/
theorem Flow.step (hq : Flow s) (hs : Sound base s.view) {a : Act} {t : State}
    (h : step ticksPerSec s a = some t) : Flow t := by
  obtain ⟨-, hspec⟩ := step_spec h
  cases a with
  | create p header =>
    obtain ⟨hp, rfl⟩ := hspec
    exact hq.create hs hp header
  | destroy p =>
    obtain ⟨-, -, rfl⟩ := hspec
    exact ⟨hq.newList_nil, hq.served, hq.signalled⟩
  | sendBegin p srvr ms encodes =>
    obtain ⟨hown, -, rfl⟩ := hspec
    exact hq.sendBegin (owned_eq_true_iff.mp hown).2 srvr ms encodes
  | sendQueue p =>
    obtain ⟨hown, hph, rfl⟩ := hspec
    exact hq.sendQueue (owned_eq_true_iff.mp hown).2 hph
  | sendEvent p =>
    obtain ⟨-, -, rfl⟩ := hspec
    exact hq.sendEvent
  | kevent rx kill unow =>
    obtain ⟨hpc, -, rfl⟩ := hspec
    by_cases hk : kill = true ∧ ∀ i < XACT_HASHS, s.xactHashTbl i = none
    · rw [Rpcio.kevent, if_pos hk]
      exact hq.killed hs hpc hk.2
    · exact hq.kevent hpc rx kill unow hk
  | rcv j port =>
    obtain ⟨-, -, -, rfl⟩ := hspec
    rcases @rcv_eq ticksPerSec s j port with h | h | ⟨p, -, h⟩
    · rw [h]
      exact hq
    · rw [h]
      exact ⟨hq.newList_nil, hq.served, hq.signalled⟩
    · rw [h]
      exact hq.finished (finished_received ticksPerSec s p) (fun _ h => mem_of_mem_erase h)
  | rcvEnd =>
    obtain ⟨tx, hpc, rfl⟩ := hspec
    exact hq.rcvEnd hpc
  | tx =>
    obtain ⟨hpc, rfl⟩ := hspec
    exact hq.txStep hpc
  | work sends =>
    obtain ⟨hpc, rfl⟩ := hspec
    rcases work_cases ticksPerSec s sends with ⟨h, -⟩ | ⟨p, rest, hl, -, hw⟩
    · rw [h]
      refine hq.quiet rfl (fun _ h => h) (fun _ => ⟨rfl, rfl, rfl⟩) (fun _ h => absurd rfl h) ?_
      intro p hp
      have := hq.signalled p hp
      simp only [hpc] at this
      simpa using this
    · grind [hq.finished, finished_timedOut, hq.sent, finished_sendFailed]
  | insert =>
    obtain ⟨hpc, rfl⟩ := hspec
    exact hq.insertStep hpc

end FlowSteps

section QueueSteps

variable {ticksPerSec : Nat} {base : Nat → Nat} {s : State}

/-- A datagram finds a transaction of the timeout queue, or nothing, unless the pointer to the server that
    `sockRcv` follows is null. -/
theorem Queues.rcv_cases (hq : Queues s) (hs : Sound base s.view) (hm : Matched s.view)
    (hb : Bounded s.view) {tx : Bool} (hpc : s.pc = .rx tx) {j : Nat} (port : Nat)
    (hj : j < s.ncalls) (hsends : 0 < (s.call j).sends) :
    (sockRcv s (s.call j).xid port = .drop ∧ rcv ticksPerSec s j port = s) ∨
    (sockRcv s (s.call j).xid port = .fault ∧ ¬ Addressed s (s.call j).xid ∧
      rcv ticksPerSec s j port = { s with fault := true }) ∨
    ∃ p ∈ s.listHead, (s.core p).call = some j ∧ sockRcv s (s.call j).xid port = .found p ∧
      rcv ticksPerSec s j port = received ticksPerSec s p := by
  unfold rcv sockRcv
  cases htbl : s.xactHashTbl (slot (s.call j).xid) with
  | none => exact .inl ⟨rfl, rfl⟩
  | some p =>
    dsimp only
    cases hsrv : (s.xact p).server with
    | none => exact .inr (.inl ⟨rfl, fun h => h p htbl hsrv, rfl⟩)
    | some srv =>
      dsimp only
      by_cases hmatch : (s.xact p).xid = (s.call j).xid ∧ (s.server srv).port = port
      · obtain ⟨hp, hc⟩ := hm.answered_current hs hb hj hsends htbl hmatch.1
        have hlisted : p ∈ s.listHead := by
          rcases mem_append.mp hp with h | h
          · have := hq.unsent p h j hc
            omega
          · rw [hq.newList_nil (by simp [hpc]) (by simp [hpc]), append_nil] at h
            exact h
        refine .inr (.inr ⟨p, hlisted, hc, if_pos hmatch, ?_⟩)
        rw [if_pos hmatch]
      · refine .inl ⟨if_neg hmatch, ?_⟩
        rw [if_neg hmatch]

variable {t : State}

theorem Queues.unsent_quiet (hq : Queues s) (hmsg : ∀ p ∈ t.msgQ, p ∈ s.msgQ)
    (hcore : ∀ p ∈ s.msgQ, (t.core p).call = (s.core p).call)
    (hcalls : ∀ p ∈ s.msgQ, ∀ j, (s.core p).call = some j → (t.call j).sends = (s.call j).sends) :
    ∀ p ∈ t.msgQ, ∀ j, (t.core p).call = some j → (t.call j).sends = 0 := by
  intro p hp j hj
  rw [hcore p (hmsg p hp)] at hj
  rw [hcalls p (hmsg p hp) j hj]
  exact hq.unsent p (hmsg p hp) j hj

theorem Queues.unsent_finished (hq : Queues s) {p : Ptr} {l : List Ptr} (h : Finished s t p l) :
    ∀ p ∈ t.msgQ, ∀ j, (t.core p).call = some j → (t.call j).sends = 0 :=
  hq.unsent_quiet (fun _ hp => h.msgQ ▸ hp) (fun _ _ => by rw [h.core]) fun _ _ j _ => (h.calls j).1

theorem Queues.unsent_sendQueue (hq : Queues s) {p : Ptr} (hp : p ∉ s.flight) :
    ∀ q ∈ (sendQueue s p).msgQ, ∀ j, ((sendQueue s p).core q).call = some j →
      ((sendQueue s p).call j).sends = 0 := by
  have hne : ∀ q ∈ s.msgQ, q ≠ p := by
    rintro q hqm rfl
    exact hp (mem_flight_of_msgQ hqm)
  have hcore := core_sendQueue s p
  intro q hqm j hj
  by_cases hroom : s.msgQOpen = true ∧ s.msgQ.length < RPCIOD_QDEPTH
  · rw [hcore, if_pos hroom] at hj
    rw [sendQueue_room hroom] at hqm ⊢
    grind [upd, hq.unsent]
  · rw [hcore, if_neg hroom] at hj
    rw [sendQueue_full hroom] at hqm ⊢
    rw [upd_ne _ _ (hne q hqm)] at hj
    exact hq.unsent q hqm j hj

theorem Queues.unsent_sent (hq : Queues s) (hs : Sound base s.view) (hm : Matched s.view) {p : Ptr}
    {rest : List Ptr} (hl : s.listHead = p :: rest) :
    ∀ q ∈ (sent ticksPerSec { s with listHead := rest } p).msgQ, ∀ j,
      ((sent ticksPerSec { s with listHead := rest } p).core q).call = some j →
      ((sent ticksPerSec { s with listHead := rest } p).call j).sends = 0 := by
  have hp : p ∈ s.listHead := hl ▸ mem_cons_self
  refine hq.unsent_quiet (fun _ h => h) ?_ ?_
  · intro q hqm
    rw [core_sent, upd_ne _ _ (hs.msgQ_listHead hqm hp)]
    rfl
  · intro q hqm j hj
    obtain ⟨k, -, hck, -⟩ := hm.flying p (mem_flight_of_listHead hp)
    have hck' : (s.xact p).call = some k := hck
    have hjk : j ≠ k := by
      rintro rfl
      exact hs.msgQ_listHead hqm hp
        (hm.call_inj hs (mem_flight_of_msgQ hqm) (mem_flight_of_listHead hp) hj hck)
    show (upd s.call ((s.xact p).call.getD 0) _ j).sends = _
    simp [hck', upd_ne _ _ hjk]

/-- **The queues are kept by every step.** -/
theorem Queues.step (hq : Queues s) (hs : Sound base s.view) (hm : Matched s.view) {a : Act}
    (h : step ticksPerSec s a = some t) : Queues t := by
  obtain ⟨hnew, hserved, hsignalled⟩ := hq.flow.step hs h
  refine ⟨hnew, ?_, hserved, hsignalled⟩
  obtain ⟨-, hspec⟩ := step_spec h
  cases a with
  | create p header =>
    obtain ⟨hp, rfl⟩ := hspec
    have hframe : ∀ r : State, r = (rpcUdpXactCreate s p header).1 → r.msgQ = s.msgQ ∧ r.call = s.call := by
      rintro r rfl
      unfold rpcUdpXactCreate
      split
      · simp only
        split <;> exact ⟨rfl, rfl⟩
      · exact ⟨rfl, rfl⟩
    obtain ⟨hmsg, hcall⟩ := hframe _ rfl
    refine hq.unsent_quiet (fun _ h => hmsg ▸ h) ?_ (fun _ _ _ _ => by rw [hcall])
    intro q hqm
    rw [core_create s p header]
    rintro rfl
    exact hp (hs.flight_live q (mem_flight_of_msgQ hqm))
  | destroy p =>
    obtain ⟨-, -, rfl⟩ := hspec
    exact hq.unsent
  | sendBegin p srvr ms encodes =>
    obtain ⟨hown, -, rfl⟩ := hspec
    refine hq.unsent_quiet (fun _ h => h) ?_ (fun _ _ _ _ => rfl)
    intro q hqm
    rw [core_sendBegin, upd_ne]
    rintro rfl
    exact (owned_eq_true_iff.mp hown).2 (mem_flight_of_msgQ hqm)
  | sendQueue p =>
    obtain ⟨hown, -, rfl⟩ := hspec
    exact hq.unsent_sendQueue (owned_eq_true_iff.mp hown).2
  | sendEvent p =>
    obtain ⟨-, -, rfl⟩ := hspec
    refine hq.unsent_quiet (fun _ h => h) ?_ (fun _ _ _ _ => rfl)
    intro q _
    rw [core_sendEvent]
    unfold upd
    split
    · rename_i h
      rw [h]
    · rfl
  | kevent rx kill unow =>
    obtain ⟨-, -, rfl⟩ := hspec
    unfold kevent
    split <;> exact hq.unsent
  | rcv j port =>
    obtain ⟨-, -, -, rfl⟩ := hspec
    rcases @rcv_eq ticksPerSec s j port with h | h | ⟨p, -, h⟩
    · rw [h]
      exact hq.unsent
    · rw [h]
      exact hq.unsent
    · rw [h]
      exact hq.unsent_finished (finished_received ticksPerSec s p)
  | rcvEnd =>
    obtain ⟨tx, -, rfl⟩ := hspec
    exact hq.unsent
  | tx =>
    obtain ⟨-, rfl⟩ := hspec
    cases hmsgQ : s.msgQ with
    | nil =>
      intro q hqm
      unfold txStep at hqm
      rw [hmsgQ] at hqm
      cases hqm
    | cons p rest =>
      have hfix : (txStep s).msgQ = rest ∧ (txStep s).call = s.call := by
        unfold txStep
        rw [hmsgQ]
        exact ⟨rfl, rfl⟩
      refine hq.unsent_quiet ?_ ?_ (fun _ _ _ _ => by rw [hfix.2])
      · rw [hfix.1, hmsgQ]
        exact fun q hqr => mem_cons_of_mem _ hqr
      · intro q _
        rw [core_txStep s p hmsgQ]
        unfold upd
        split
        · rename_i h
          rw [h]
        · rfl
  | work sends =>
    obtain ⟨-, rfl⟩ := hspec
    rcases work_cases ticksPerSec s sends with ⟨h, -⟩ | ⟨p, rest, hl, -, ⟨-, h⟩ | ⟨-, -, h⟩ | ⟨-, -, h⟩⟩
    · rw [h]
      exact hq.unsent
    · rw [h]
      exact hq.unsent_finished (finished_timedOut s p rest)
    · rw [h]
      exact hq.unsent_sent hs hm hl
    · rw [h]
      exact hq.unsent_finished (finished_sendFailed s p rest)
  | insert =>
    obtain ⟨-, rfl⟩ := hspec
    have hfix : (insertStep ticksPerSec s).msgQ = s.msgQ ∧ (insertStep ticksPerSec s).call = s.call := by
      unfold insertStep
      split
      · unfold readjust
        split <;> exact ⟨rfl, rfl⟩
      · exact ⟨rfl, rfl⟩
    refine hq.unsent_quiet (fun _ h => hfix.1 ▸ h) ?_ (fun _ _ _ _ => by rw [hfix.2])
    intro q _
    unfold insertStep
    split
    · exact (@core_readjust_rest ticksPerSec s q).2.2.2.2
    · rfl

theorem Queues.no_fault (hq : Queues s) (hs : Sound base s.view) (hm : Matched s.view)
    (hb : Bounded s.view) {a : Act} (h : Rpcio.step ticksPerSec s a = some t)
    (hserver : ∀ j port, a = .rcv j port → Addressed s (s.call j).xid) : t.fault = false := by
  obtain ⟨hfault, hspec⟩ := step_spec h
  cases a with
  | create p header =>
    obtain ⟨-, rfl⟩ := hspec
    grind [rpcUdpXactCreate]
  | destroy p =>
    obtain ⟨hown, -, rfl⟩ := hspec
    have : s.xactHashTbl (slot (s.xact p).xid) = some p := hs.slotted p (owned_eq_true_iff.mp hown).1
    simp [rpcUdpXactDestroy, hfault, this]
  | sendQueue p =>
    obtain ⟨-, -, rfl⟩ := hspec
    unfold Rpcio.sendQueue
    split <;> exact hfault
  | kevent rx kill unow =>
    obtain ⟨-, -, rfl⟩ := hspec
    unfold Rpcio.kevent
    split <;> exact hfault
  | rcv j port =>
    obtain ⟨⟨tx, hpc⟩, hj, hsends, rfl⟩ := hspec
    rcases @Queues.rcv_cases ticksPerSec _ _ hq hs hm hb tx hpc j port hj hsends with
      ⟨-, h⟩ | ⟨-, hnull, -⟩ | ⟨p, -, -, -, h⟩
    · rw [h]
      exact hfault
    · exact absurd (hserver j port rfl) hnull
    · rw [h]
      exact hfault
  | tx =>
    obtain ⟨-, rfl⟩ := hspec
    unfold Rpcio.txStep
    split <;> exact hfault
  | work sends =>
    obtain ⟨-, rfl⟩ := hspec
    rcases work_cases ticksPerSec s sends with ⟨h, -⟩ | ⟨p, rest, -, -, ⟨-, h⟩ | ⟨-, -, h⟩ | ⟨-, -, h⟩⟩
    all_goals
      rw [h]
      exact hfault
  | insert =>
    obtain ⟨-, rfl⟩ := hspec
    grind [Rpcio.insertStep, readjust]
  | sendBegin p srvr ms encodes =>
    obtain ⟨-, -, rfl⟩ := hspec
    exact hfault
  | sendEvent p =>
    obtain ⟨-, -, rfl⟩ := hspec
    exact hfault
  | rcvEnd =>
    obtain ⟨tx, -, rfl⟩ := hspec
    exact hfault

end QueueSteps

/-- The running average of the retry period that `received` computes does not wrap around. -/
def AverageFits (s : State) (p : Ptr) : Prop :=
  3 * (s.server ((s.xact p).server.getD 0)).retryPeriod +
    8 * max 1 ((s.now - (s.xact p).trip) % 2 ^ 32).toNat < 2 ^ 32

instance (s : State) (p : Ptr) : Decidable (AverageFits s p) :=
  inferInstanceAs (Decidable (_ < _))

/-- A transaction that was encoded and not handed over has all of its lifetime left. -/
def Full (s : State) : Prop :=
  ∀ p, (s.core p).phase = .encoded → p ∉ s.flight ∧ (s.core p).tolive = (s.core p).lifetime

section FullSteps

variable {ticksPerSec : Nat} {s : State}

variable {t : State}

theorem Full.quiet (hf : Full s)
    (hflight : ∀ p ∈ t.flight, (t.core p).phase = .encoded → p ∈ s.flight)
    (hphase : ∀ p, (t.core p).phase = .encoded → (s.core p).phase = .encoded)
    (hcore : ∀ p, (t.core p).phase = .encoded → p ∉ s.flight →
      (t.core p).tolive = (s.core p).tolive ∧ (t.core p).lifetime = (s.core p).lifetime) : Full t := by
  intro p hp
  obtain ⟨hnot, hfull⟩ := hf p (hphase p hp)
  obtain ⟨h1, h2⟩ := hcore p hp hnot
  rw [h1, h2]
  exact ⟨fun h => hnot (hflight p h hp), hfull⟩

theorem Full.finished (hf : Full s) {p : Ptr} {l : List Ptr} (h : Finished s t p l)
    (hl : ∀ p ∈ l, p ∈ s.listHead) : Full t := by
  refine hf.quiet (fun q hq _ => h.flight hl q hq) ?_ ?_
  · rw [h.core]
    exact fun _ hq => hq
  · rw [h.core]
    exact fun _ _ _ => ⟨rfl, rfl⟩

theorem mem_flight_sent {p : Ptr} {rest : List Ptr} (hl : s.listHead = p :: rest) {q : Ptr}
    (hq : q ∈ (sent ticksPerSec { s with listHead := rest } p).flight) : q ∈ s.flight := by
  unfold State.flight at hq ⊢
  simp only [Rpcio.sent, mem_append, mem_cons] at hq ⊢
  grind

theorem mem_flight_of_view (h : t.view = s.view) {p : Ptr} (hp : p ∈ t.flight) : p ∈ s.flight :=
  (mem_flight s).mp (congrArg View.flight h ▸ (mem_flight t).mpr hp)

/-- **An encoded transaction keeps its lifetime** until it is handed over. -/
theorem Full.step (hf : Full s) {a : Act} (h : step ticksPerSec s a = some t) : Full t := by
  obtain ⟨-, hspec⟩ := step_spec h
  cases a with
  | create p header =>
    obtain ⟨hp, rfl⟩ := hspec
    have hflight : (rpcUdpXactCreate s p header).1.flight = s.flight := by
      unfold rpcUdpXactCreate
      split
      · simp only
        split <;> rfl
      · rfl
    have hcore : ∀ q, ((rpcUdpXactCreate s p header).1.core q).phase = .encoded →
        (rpcUdpXactCreate s p header).1.core q = s.core q := by
      intro q hq
      rcases eq_or_ne q p with rfl | hqp
      · grind [core_create_phase]
      · exact core_create s p header hqp
    refine hf.quiet (fun q hq _ => hflight ▸ hq) (fun q hq => hcore q hq ▸ hq) ?_
    intro q hq _
    rw [hcore q hq]
    exact ⟨rfl, rfl⟩
  | destroy p =>
    obtain ⟨-, -, rfl⟩ := hspec
    exact hf
  | sendBegin p srvr ms encodes =>
    obtain ⟨hown, -, rfl⟩ := hspec
    intro q hq
    rw [core_sendBegin] at hq ⊢
    rcases eq_or_ne q p with rfl | hqp
    · rw [upd_self]
      exact ⟨(owned_eq_true_iff.mp hown).2, rfl⟩
    · rw [upd_ne _ _ hqp] at hq ⊢
      exact hf q hq
  | sendQueue p =>
    obtain ⟨-, -, rfl⟩ := hspec
    have hcore : ∀ q, ((sendQueue s p).core q).phase = .encoded →
        q ≠ p ∧ (sendQueue s p).core q = s.core q := by
      intro q hq
      rw [core_sendQueue] at hq ⊢
      rcases eq_or_ne q p with rfl | hqp
      · grind [upd_self]
      · refine ⟨hqp, ?_⟩
        split <;> exact upd_ne _ _ hqp
    refine hf.quiet ?_ (fun q hq => (hcore q hq).2 ▸ hq) ?_
    · intro q hqf hq
      exact (mem_flight_sendQueue hqf).resolve_right (hcore q hq).1
    · intro q hq _
      rw [(hcore q hq).2]
      exact ⟨rfl, rfl⟩
  | sendEvent p =>
    obtain ⟨-, -, rfl⟩ := hspec
    have hcore : ∀ q, ((sendEvent s p).core q).phase = .encoded → (sendEvent s p).core q = s.core q := by
      intro q hq
      rw [core_sendEvent] at hq ⊢
      rcases eq_or_ne q p with rfl | hqp
      · rw [upd_self] at hq
        cases hq
      · exact upd_ne _ _ hqp
    refine hf.quiet (fun _ hq _ => hq) (fun q hq => hcore q hq ▸ hq) ?_
    intro q hq _
    rw [hcore q hq]
    exact ⟨rfl, rfl⟩
  | kevent rx kill unow =>
    obtain ⟨-, -, rfl⟩ := hspec
    unfold kevent
    split <;> exact hf
  | rcv j port =>
    obtain ⟨-, -, -, rfl⟩ := hspec
    rcases @rcv_eq ticksPerSec s j port with h | h | ⟨p, -, h⟩
    · rw [h]
      exact hf
    · rw [h]
      exact hf
    · rw [h]
      exact hf.finished (finished_received ticksPerSec s p) (fun _ h => mem_of_mem_erase h)
  | rcvEnd =>
    obtain ⟨tx, -, rfl⟩ := hspec
    exact hf
  | tx =>
    obtain ⟨-, rfl⟩ := hspec
    grind [core_txStep_rest, hf.quiet, mem_flight_of_view, view_txStep]
  | work sends =>
    obtain ⟨-, rfl⟩ := hspec
    rcases work_cases ticksPerSec s sends with ⟨h, -⟩ | ⟨p, rest, hl, -, hw⟩
    · rw [h]
      exact hf
    · have hrest : ∀ q ∈ rest, q ∈ s.listHead := fun q hq => hl ▸ mem_cons_of_mem _ hq
      rcases hw with ⟨-, h⟩ | ⟨-, -, h⟩ | ⟨-, -, h⟩
      · rw [h]
        exact hf.finished (finished_timedOut s p rest) hrest
      · rw [h]
        have hp : p ∈ s.flight := mem_flight_of_listHead (hl ▸ mem_cons_self)
        have hphase : ∀ q, ((sent ticksPerSec { s with listHead := rest } p).core q).phase = (s.core q).phase := by
          intro q
          rw [core_sent]
          rcases eq_or_ne q p with rfl | hqp
          · rw [upd_self]
            rfl
          · rw [upd_ne _ _ hqp]
            rfl
        refine hf.quiet (fun q hq _ => mem_flight_sent hl hq) (fun q hq => hphase q ▸ hq) ?_
        intro q _ hq
        have hqp : q ≠ p := by
          rintro rfl
          exact hq hp
        rw [core_sent, upd_ne _ _ hqp]
        exact ⟨rfl, rfl⟩
      · rw [h]
        exact hf.finished (finished_sendFailed s p rest) hrest
  | insert =>
    obtain ⟨-, rfl⟩ := hspec
    grind [core_insertStep_rest, hf.quiet, mem_flight_of_view, view_insertStep]

end FullSteps

/-- The lifetime bounds the number of transmissions: each one costs at least a tick. -/
structure Budget (s : State) : Prop where
  full : ∀ p, (s.core p).phase = .encoded →
    p ∉ s.flight ∧ (s.core p).tolive = (s.core p).lifetime
  flying : ∀ p ∈ s.flight, ∀ j, (s.core p).call = some j →
    (s.call j).lifetime = (s.core p).lifetime ∧
    (s.core p).tolive + (s.call j).sends ≤ (s.core p).lifetime
  spent : ∀ j < s.ncalls, (s.call j).sends ≤ (s.call j).lifetime + 1
  retry : ∀ n, 0 < (s.server n).retryPeriod

section BudgetSteps

variable {ticksPerSec : Nat} {base : Nat → Nat} {s : State}

theorem averageRetry_pos (hticks : 0 < ticksPerSec) {rtry : Nat} {trip : Int}
    (h : 3 * rtry + 8 * max 1 (trip % 2 ^ 32).toNat < 2 ^ 32) :
    0 < averageRetry ticksPerSec rtry trip := by
  unfold averageRetry RPCIOD_RETX_CAP_S
  grind

theorem backOff_pos (hle : ticksPerSec ≤ 10 ^ 6) {rtry : Nat} (h : 0 < rtry) :
    0 < backOff ticksPerSec rtry := by
  unfold backOff RPCIOD_RETX_CAP_S
  split
  · omega
  · exact h

theorem Budget.quiet (hb : Budget s) {t : State} (hfull : Full t) (hflight : ∀ p ∈ t.flight, p ∈ s.flight)
    (hcore : ∀ p ∈ s.flight, (t.core p).tolive = (s.core p).tolive ∧
      (t.core p).lifetime = (s.core p).lifetime ∧ (t.core p).call = (s.core p).call)
    (hcalls : ∀ j, (t.call j).sends = (s.call j).sends ∧ (t.call j).lifetime = (s.call j).lifetime)
    (hn : t.ncalls = s.ncalls) (hretry : ∀ n, 0 < (t.server n).retryPeriod) : Budget t := by
  refine ⟨hfull, ?_, ?_, hretry⟩
  · intro p hp j hj
    grind [hb.flying]
  · intro j hj
    rw [hn] at hj
    rw [(hcalls j).1, (hcalls j).2]
    exact hb.spent j hj

variable {p : Ptr}

theorem Budget.finished (hb : Budget s) {t : State} (hfull : Full t) {l : List Ptr}
    (h : Finished s t p l) (hl : ∀ p ∈ l, p ∈ s.listHead) (hretry : ∀ n, 0 < (t.server n).retryPeriod) :
    Budget t := by
  refine hb.quiet hfull (h.flight hl) ?_ h.calls h.ncalls hretry
  intro p _
  rw [h.core]
  exact ⟨rfl, rfl, rfl⟩

theorem Budget.create (hb : Budget s) (hs : Sound base s.view) (hp : p ∉ s.live) (header : Bool)
    (hfull : Full (rpcUdpXactCreate s p header).1) : Budget (rpcUdpXactCreate s p header).1 := by
  have hframe : ∀ r : State, r = (rpcUdpXactCreate s p header).1 → r.flight = s.flight ∧
      r.ncalls = s.ncalls ∧ r.server = s.server ∧ r.call = s.call := by
    rintro r rfl
    unfold rpcUdpXactCreate
    split
    · simp only
      split <;> exact ⟨rfl, rfl, rfl, rfl⟩
    · exact ⟨rfl, rfl, rfl, rfl⟩
  obtain ⟨hflight, hn, hserver, hcall⟩ := hframe _ rfl
  refine hb.quiet hfull (fun q h => hflight ▸ h) ?_ ?_ hn (fun n => hserver ▸ hb.retry n)
  · intro q hq
    have hqp : q ≠ p := by
      rintro rfl
      exact hp (hs.flight_live q hq)
    rw [core_create s p header hqp]
    exact ⟨rfl, rfl, rfl⟩
  · intro j
    rw [hcall]
    exact ⟨rfl, rfl⟩

theorem Budget.sendBegin (hb : Budget s) (hp : p ∉ s.flight) (srvr ms : Nat) (encodes : Bool)
    (hfull : Full (sendBegin ticksPerSec s p srvr ms encodes)) :
    Budget (sendBegin ticksPerSec s p srvr ms encodes) := by
  refine ⟨hfull, ?_, hb.spent, hb.retry⟩
  intro q hqf j hj
  have hqp : q ≠ p := by
    rintro rfl
    exact hp hqf
  rw [core_sendBegin, upd_ne _ _ hqp] at hj ⊢
  exact hb.flying q hqf j hj

theorem Budget.sendQueue (hb : Budget s) (hm : Matched s.view) (hp : p ∉ s.flight)
    (hph : (s.core p).phase = .encoded) (hlife : 1 ≤ (s.core p).lifetime)
    (hfull : Full (sendQueue s p)) : Budget (sendQueue s p) := by
  by_cases hroom : s.msgQOpen = true ∧ s.msgQ.length < RPCIOD_QDEPTH
  · have hcore := core_sendQueue s p
    rw [if_pos hroom] at hcore
    have hcall : (Rpcio.sendQueue s p).call = upd s.call s.ncalls ⟨p, slot (s.xact p).xid,
        s.gen (slot (s.xact p).xid), (s.xact p).xid, (s.core p).lifetime, 0, 0⟩ := by
      rw [sendQueue_room hroom]
      rfl
    refine ⟨hfull, ?_, ?_, ?_⟩
    · intro q hqf j hj
      rw [hcore] at hj ⊢
      rw [hcall]
      rcases eq_or_ne q p with rfl | hqp
      · rw [upd_self] at hj ⊢
        cases hj
        rw [upd_self]
        grind [hb.full]
      · rw [upd_ne _ _ hqp] at hj ⊢
        have hqs : q ∈ s.flight := (mem_flight_sendQueue hqf).resolve_right hqp
        obtain ⟨k, hk, hck, -⟩ := hm.flying q hqs
        have hkj : k = j := some.inj (hck.symm.trans hj)
        rw [upd_ne _ _ (Nat.ne_of_lt (hkj ▸ hk))]
        exact hb.flying q hqs j hj
    · intro j hj
      rw [hcall]
      rcases eq_or_ne j s.ncalls with rfl | hjn
      · rw [upd_self]
        show ((0 : Nat) : Int) ≤ (s.core p).lifetime + 1
        omega
      · rw [upd_ne _ _ hjn]
        rw [sendQueue_room hroom] at hj
        have hj' : j < s.ncalls + 1 := hj
        exact hb.spent j (by omega)
    · rw [sendQueue_room hroom]
      exact hb.retry
  · have hcore := core_sendQueue s p
    rw [if_neg hroom] at hcore
    refine hb.quiet hfull ?_ ?_ ?_ ?_ ?_
    · rw [sendQueue_full hroom]
      exact fun _ h => h
    · intro q hq
      have hqp : q ≠ p := by
        rintro rfl
        exact hp hq
      rw [hcore, upd_ne _ _ hqp]
      exact ⟨rfl, rfl, rfl⟩
    · rw [sendQueue_full hroom]
      exact fun _ => ⟨rfl, rfl⟩
    · rw [sendQueue_full hroom]
    · rw [sendQueue_full hroom]
      exact hb.retry

theorem Budget.sendEvent (hb : Budget s) (hfull : Full (sendEvent s p)) : Budget (sendEvent s p) := by
  refine hb.quiet hfull (fun _ h => h) ?_ (fun _ => ⟨rfl, rfl⟩) rfl hb.retry
  intro q _
  rw [core_sendEvent]
  unfold upd
  split
  · rename_i h
    rw [h]
    exact ⟨rfl, rfl, rfl⟩
  · exact ⟨rfl, rfl, rfl⟩

theorem Budget.txStep (hb : Budget s) (hfull : Full (txStep s)) : Budget (txStep s) := by
  have hflight : ∀ q ∈ (Rpcio.txStep s).flight, q ∈ s.flight := fun _ => mem_flight_of_view (view_txStep s)
  have hcore := core_txStep_rest s
  have hrest : (Rpcio.txStep s).call = s.call ∧ (Rpcio.txStep s).ncalls = s.ncalls ∧
      (Rpcio.txStep s).server = s.server := by
    unfold Rpcio.txStep
    split <;> exact ⟨rfl, rfl, rfl⟩
  refine hb.quiet hfull hflight (fun q _ => ⟨(hcore q).1, (hcore q).2.1, (hcore q).2.2.1⟩) ?_
    hrest.2.1 (fun n => hrest.2.2 ▸ hb.retry n)
  intro j
  rw [hrest.1]
  exact ⟨rfl, rfl⟩

theorem Budget.insertStep (hb : Budget s) (hfull : Full (insertStep ticksPerSec s)) :
    Budget (insertStep ticksPerSec s) := by
  have hflight : ∀ q ∈ (Rpcio.insertStep ticksPerSec s).flight, q ∈ s.flight := fun _ =>
    mem_flight_of_view (@view_insertStep ticksPerSec s)
  have hcall : (Rpcio.insertStep ticksPerSec s).call = s.call :=
    congrArg View.call (@view_insertStep ticksPerSec s)
  have hcore := @core_insertStep_rest ticksPerSec s
  have hserver : (Rpcio.insertStep ticksPerSec s).server = s.server := by
    grind [Rpcio.insertStep, readjust]
  refine hb.quiet hfull hflight (fun q _ => ⟨(hcore q).1, (hcore q).2.1, (hcore q).2.2.1⟩) ?_
    (congrArg View.ncalls (@view_insertStep ticksPerSec s)) (fun n => hserver ▸ hb.retry n)
  intro j
  rw [hcall]
  exact ⟨rfl, rfl⟩

theorem one_le_period (hle : ticksPerSec ≤ 10 ^ 6)
    (hretry : 0 < (s.server ((s.core p).server.getD 0)).retryPeriod) (hlife : 1 ≤ (s.core p).lifetime) :
    1 ≤ @period ticksPerSec s p := by
  unfold period
  split
  · have := backOff_pos hle hretry
    omega
  · omega

theorem Budget.sent (hb : Budget s) (hs : Sound base s.view) (hm : Matched s.view)
    (hle : ticksPerSec ≤ 10 ^ 6) {rest : List Ptr} (hl : s.listHead = p :: rest)
    (hlive : 0 ≤ (s.core p).tolive) (hlife : 1 ≤ (s.core p).lifetime)
    (hfull : Full (sent ticksPerSec { s with listHead := rest } p)) :
    Budget (sent ticksPerSec { s with listHead := rest } p) := by
  have hp : p ∈ s.flight := mem_flight_of_listHead (hl ▸ mem_cons_self)
  obtain ⟨k, hk, hck, -⟩ := hm.flying p hp
  have hck' : (s.xact p).call = some k := hck
  have hperiod := one_le_period hle (hb.retry _) hlife
  have hcore := @core_sent ticksPerSec { s with listHead := rest } p
  have hcall : (Rpcio.sent ticksPerSec { s with listHead := rest } p).call =
      upd s.call k { s.call k with sends := (s.call k).sends + 1 } := by
    show upd s.call ((s.xact p).call.getD 0) _ = _
    rw [hck']
    rfl
  have hflight : ∀ q ∈ (Rpcio.sent ticksPerSec { s with listHead := rest } p).flight, q ∈ s.flight :=
    fun _ => mem_flight_sent hl
  obtain ⟨hlt, hbud⟩ := hb.flying p hp k hck
  refine ⟨hfull, ?_, ?_, ?_⟩
  · intro q hqf j hj
    rw [hcore] at hj ⊢
    rw [hcall]
    rcases eq_or_ne q p with rfl | hqp
    · rw [upd_self] at hj ⊢
      have hjk : k = j := some.inj (hck.symm.trans hj)
      subst hjk
      rw [upd_self]
      refine ⟨hlt, ?_⟩
      show (s.core q).tolive - @period ticksPerSec s q + (((s.call k).sends + 1 : Nat) : Int)
        ≤ (s.core q).lifetime
      omega
    · rw [upd_ne _ _ hqp] at hj ⊢
      have hjk : j ≠ k := by
        rintro rfl
        exact hqp (hm.call_inj hs (hflight q hqf) hp hj hck)
      rw [upd_ne _ _ hjk]
      exact hb.flying q (hflight q hqf) j hj
  · intro j hj
    rw [hcall]
    rcases eq_or_ne j k with rfl | hjk
    · grind [upd_self]
    · rw [upd_ne _ _ hjk]
      exact hb.spent j hj
  · intro n
    show 0 < (upd s.server ((s.core p).server.getD 0) _ n).retryPeriod
    unfold upd
    split
    · show 0 < (if (s.xact p).trip ≠ FIRST_ATTEMPT then _ else _)
      have hr := hb.retry ((s.core p).server.getD 0)
      split
      · exact backOff_pos hle hr
      · exact hr
    · exact hb.retry n

/-- **The budget is kept by every step** whose round trip time fits. -/
theorem Budget.step (hb : Budget s) (hq : Queues s) (hs : Sound base s.view) (hm : Matched s.view)
    (hbound : Bounded s.view) (hticks : 0 < ticksPerSec) (hle : ticksPerSec ≤ 10 ^ 6) {a : Act}
    {t : State} (h : step ticksPerSec s a = some t)
    (hfits : ∀ j port p, a = .rcv j port → sockRcv s (s.call j).xid port = .found p →
      AverageFits s p) : Budget t := by
  have hfull : Full t := Full.step hb.full h
  obtain ⟨-, hspec⟩ := step_spec h
  cases a with
  | create p header =>
    obtain ⟨hp, rfl⟩ := hspec
    exact hb.create hs hp header hfull
  | destroy p =>
    obtain ⟨-, -, rfl⟩ := hspec
    exact ⟨hb.full, hb.flying, hb.spent, hb.retry⟩
  | sendBegin p srvr ms encodes =>
    obtain ⟨hown, -, rfl⟩ := hspec
    exact hb.sendBegin (owned_eq_true_iff.mp hown).2 srvr ms encodes hfull
  | sendQueue p =>
    obtain ⟨hown, hph, rfl⟩ := hspec
    exact hb.sendQueue hm (owned_eq_true_iff.mp hown).2 hph (hq.served p (.inr hph)).2 hfull
  | sendEvent p =>
    obtain ⟨-, -, rfl⟩ := hspec
    exact hb.sendEvent hfull
  | kevent rx kill unow =>
    obtain ⟨-, -, rfl⟩ := hspec
    unfold kevent
    split <;> exact ⟨hb.full, hb.flying, hb.spent, hb.retry⟩
  | rcv j port =>
    obtain ⟨⟨tx, hpc⟩, hj, hsends, rfl⟩ := hspec
    rcases @Queues.rcv_cases ticksPerSec _ _ hq hs hm hbound tx hpc j port hj hsends with
      ⟨-, h⟩ | ⟨-, -, h⟩ | ⟨p, hp, -, hfound, h⟩
    · rw [h]
      exact hb
    · rw [h]
      exact ⟨hb.full, hb.flying, hb.spent, hb.retry⟩
    · rw [h] at hfull ⊢
      refine hb.finished hfull (finished_received ticksPerSec s p) (fun _ h => mem_of_mem_erase h) ?_
      intro n
      show 0 < (upd s.server (((advance { s with listHead := s.listHead.erase p } p).xact p).server.getD 0)
        _ n).retryPeriod
      unfold upd
      split
      · have hf := hfits j port p rfl hfound
        refine averageRetry_pos hticks ?_
        simpa [AverageFits, advance] using hf
      · exact hb.retry n
  | rcvEnd =>
    obtain ⟨tx, -, rfl⟩ := hspec
    exact ⟨hb.full, hb.flying, hb.spent, hb.retry⟩
  | tx =>
    obtain ⟨-, rfl⟩ := hspec
    exact hb.txStep hfull
  | work sends =>
    obtain ⟨-, rfl⟩ := hspec
    rcases work_cases ticksPerSec s sends with ⟨h, -⟩ | ⟨p, rest, hl, -, hw⟩
    · rw [h]
      exact ⟨hb.full, hb.flying, hb.spent, hb.retry⟩
    · have hrest : ∀ q ∈ rest, q ∈ s.listHead := fun q hq => hl ▸ mem_cons_of_mem _ hq
      have hp : p ∈ s.flight := mem_flight_of_listHead (hl ▸ mem_cons_self)
      rcases hw with ⟨-, h⟩ | ⟨hlive, -, h⟩ | ⟨-, -, h⟩
      · rw [h] at hfull ⊢
        exact hb.finished hfull (finished_timedOut s p rest) hrest hb.retry
      · rw [h] at hfull ⊢
        exact hb.sent hs hm hle hl hlive (hq.served p (.inl hp)).2 hfull
      · rw [h] at hfull ⊢
        exact hb.finished hfull (finished_sendFailed s p rest) hrest hb.retry
  | insert =>
    obtain ⟨-, rfl⟩ := hspec
    exact hb.insertStep hfull

end BudgetSteps

end RtemsLibbsd.Rpcio
