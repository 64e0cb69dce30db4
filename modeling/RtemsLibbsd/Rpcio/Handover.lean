import RtemsLibbsd.Rpcio.Requestors

/-!
# Hand-over of transactions

* `Released` — neither the queues of the daemon nor a pending event hold the transaction.
* `HandedOver` — every transaction that a task holds outside of a call or that is in a pool is
  released, and every event that a task received was sent for the call it waited for.
* **`handedOver_of_run`** — this holds in every run in which no XID is left in use (`XidRetired`)
  and no `rpcUdpRcv` queues its transaction again (`Requeues`).

`rpcUdpRcv` queues the transaction again after it has refreshed the credentials, and returns
(`refreshRun_not_handedOver`): its loop is switched off by `while ( 0 && .. )`.
-/

namespace RtemsLibbsd.Rpcio

open List RtemsLibbsd.Transition

def System.Released (S : System) (p : Ptr) : Prop :=
  p ∉ S.d.msgQ ∧ p ∉ S.d.listHead ∧ p ∉ S.d.newList ∧ ∀ t, ∀ j ∈ S.pending t, (S.d.call j).ptr ≠ p

structure HandedOver (S : System) : Prop where
  returned : ∀ t p, S.task t = .holds p → S.Released p
  pooled : ∀ k, ∀ p ∈ S.box k, S.Released p
  own : ∀ c l, (c, l) ∈ S.received → ∃ j, c = some j ∧ l = [j]

/-- `rpcUdpRcv` queues the transaction again: the reply is an error on the level of RPC, the
    credential of the server is a shorthand, it can be replaced and the queue takes the message. -/
def Requeues (S : System) (t : Nat) (reply : Reply) (encodes : Bool) : Prop :=
  match S.task t with
  | .decode p =>
    seterrReply reply ≠ none ∧ seterrReply reply ≠ some .success ∧
      S.short ((S.d.xact p).server.getD 0) = true ∧ encodes = true ∧ S.d.room
  | _ => False

instance (S : System) (t : Nat) (reply : Reply) (encodes : Bool) :
    Decidable (Requeues S t reply encodes) := by
  unfold Requeues
  split <;> infer_instance

def Returns (S : System) : TaskAct → Prop
  | .daemon a => XidRetired S.d a
  | .decode t reply encodes => ¬ Requeues S t reply encodes
  | _ => BelowWrap S.d

instance (S : System) (a : TaskAct) : Decidable (Returns S a) := by
  unfold Returns
  split <;> infer_instance

/-- What a step of the daemon does to transactions and calls; `w` is for whom it sends an event. -/
structure Served (s t : State) (w : Option (Ptr × Option Nat)) : Prop where
  live : t.live = s.live
  ncalls : t.ncalls = s.ncalls
  phase : ∀ q, (t.core q).phase = (s.core q).phase
  call : ∀ q, (t.core q).call = (s.core q).call
  ptr : ∀ j, (t.call j).ptr = (s.call j).ptr
  flight : ∀ q, q ∈ t.flight ↔ q ∈ s.flight ∧ ∀ j, w ≠ some (q, j)
  woken : ∀ p j, w = some (p, j) → p ∈ s.flight ∧ (s.core p).call = j

section Daemon

variable {ticksPerSec : Nat} {base : Nat → Nat} {s t : State}

theorem served_none (hlive : t.live = s.live) (hn : t.ncalls = s.ncalls)
    (hphase : ∀ q, (t.core q).phase = (s.core q).phase)
    (hcall : ∀ q, (t.core q).call = (s.core q).call)
    (hptr : ∀ j, (t.call j).ptr = (s.call j).ptr)
    (hflight : t.view.flight = s.view.flight) : Served s t none := by
  refine ⟨hlive, hn, hphase, hcall, hptr, ?_, fun _ _ h => by cases h⟩
  intro q
  rw [← mem_flight t, hflight, mem_flight s]
  exact ⟨fun h => ⟨h, fun _ h => by cases h⟩, fun h => h.1⟩

variable {p : Ptr}

theorem core_kept {c : Core} (hcore : t.core = upd s.core p c)
    (hphase : c.phase = (s.core p).phase) (hcall : c.call = (s.core p).call) (q : Ptr) :
    (t.core q).phase = (s.core q).phase ∧ (t.core q).call = (s.core q).call := by
  rw [hcore]
  unfold upd
  split
  · rename_i h
    rw [h]
    exact ⟨hphase, hcall⟩
  · exact ⟨rfl, rfl⟩

theorem ptr_complete (s : State) (p : Ptr) (status : ClntStat) (j : Nat) :
    ((complete s p status).call j).ptr = (s.call j).ptr := by
  unfold complete
  cases (s.xact p).call with
  | none => rfl
  | some k =>
    show (upd s.call k _ j).ptr = _
    unfold upd
    split
    · rename_i h
      rw [h]
    · rfl

theorem served_finished (hs : Sound base s.view) {l : List Ptr}
    (hl : s.listHead.Perm (p :: l)) (h : Finished s t p l) (hlive : t.live = s.live)
    (hptr : ∀ j, (t.call j).ptr = (s.call j).ptr) {j : Option Nat} (hj : (s.core p).call = j) :
    Served s t (some (p, j)) := by
  have hp : p ∈ s.flight := mem_flight_of_listHead (hl.mem_iff.mpr mem_cons_self)
  have hperm : s.flight.Perm (p :: t.flight) := by
    grind [State.flight, h.msgQ, h.listHead, h.newList]
  have hnodup : (p :: t.flight).Nodup := hperm.nodup_iff.mp hs.flight_nodup
  refine ⟨hlive, h.ncalls, fun q => by rw [h.core], fun q => by rw [h.core], hptr, ?_, ?_⟩
  · intro q
    rw [hperm.mem_iff]
    constructor
    · intro hq
      grind
    · rintro ⟨hq, hne⟩
      rcases mem_cons.mp hq with rfl | hq
      · exact absurd rfl (hne j)
      · exact hq
  · rintro q k ⟨⟩
    exact ⟨hp, hj⟩

theorem wakes_work {rest : List Ptr} (hl : s.listHead = p :: rest) (sends : Bool) :
    wakes s (.work sends) = if (s.core p).age ≤ s.now ∧ ((s.core p).tolive < 0 ∨ sends = false) then
      some (p, (s.core p).call) else none := by
  unfold wakes
  rw [hl]
  rfl

theorem served_work (hs : Sound base s.view) (sends : Bool) :
    Served s (work ticksPerSec s sends) (wakes s (.work sends)) := by
  rcases work_cases ticksPerSec s sends with ⟨h, hlater⟩ | ⟨p, rest, hl, hage, hw⟩
  · have hwakes : wakes s (.work sends) = none := by
      cases hl : s.listHead with
      | nil => simp [wakes, hl]
      | cons p rest =>
        rw [wakes_work hl]
        have := hlater p rest hl
        exact if_neg (fun h => absurd h.1 (not_le.mpr this))
    rw [h, hwakes]
    exact served_none rfl rfl (fun _ => rfl) (fun _ => rfl) (fun _ => rfl) rfl
  · rw [wakes_work hl]
    rcases hw with ⟨hlive, h⟩ | ⟨hlive, hsends, h⟩ | ⟨hlive, hsends, h⟩
    · rw [h, if_pos ⟨hage, .inl hlive⟩]
      exact served_finished hs (List.Perm.of_eq hl) (finished_timedOut s p rest) rfl
        (ptr_complete _ p _) rfl
    · rw [h, if_neg (by rintro ⟨-, h | h⟩; omega; simp [hsends] at h)]
      have hcore := core_kept (s := s) (@core_sent ticksPerSec
        { s with listHead := rest } p) rfl rfl
      refine served_none rfl rfl (fun q => (hcore q).1) (fun q => (hcore q).2) ?_ ?_
      · intro j
        show (upd s.call _ _ j).ptr = _
        unfold upd
        split
        · rename_i hj
          rw [hj]
        · rfl
      · show ((s.msgQ ++ (rest ++ p :: s.newList) : List Ptr) : Multiset Ptr)
          = ((s.msgQ ++ (s.listHead ++ s.newList) : List Ptr) : Multiset Ptr)
        rw [hl, Multiset.coe_eq_coe]
        exact List.Perm.append_left _ perm_middle
    · rw [h, if_pos ⟨hage, .inr hsends⟩]
      exact served_finished hs (List.Perm.of_eq hl) (finished_sendFailed s p rest) rfl
        (ptr_complete _ p _) rfl

/-- **What a step of the daemon does**: it completes at most one call, of a transaction it owns,
    and gives this transaction back. -/
theorem served_step (hi : Paired base s) {a : Act} (ha : a.ofRequestor = false)
    (h : step ticksPerSec s a = some t) : Served s t (wakes s a) := by
  obtain ⟨-, hspec⟩ := step_spec h
  cases a with
  | kevent rx kill unow =>
    obtain ⟨-, -, rfl⟩ := hspec
    unfold kevent
    split <;> exact served_none rfl rfl (fun _ => rfl) (fun _ => rfl) (fun _ => rfl) rfl
  | rcv j port =>
    obtain ⟨⟨tx, hpc⟩, hj, hsends, rfl⟩ := hspec
    rcases @Queues.rcv_cases ticksPerSec _ _ hi.queues hi.sound hi.matched hi.bounded tx hpc j port hj
      hsends with ⟨hdrop, hr⟩ | ⟨hnull, -, hr⟩ | ⟨p, hp, hcall, hfound, hr⟩
    · have hwakes : wakes s (.rcv j port) = none := by simp [wakes, hdrop]
      rw [hr, hwakes]
      exact served_none rfl rfl (fun _ => rfl) (fun _ => rfl) (fun _ => rfl) rfl
    · have hwakes : wakes s (.rcv j port) = none := by simp [wakes, hnull]
      rw [hr, hwakes]
      exact served_none rfl rfl (fun _ => rfl) (fun _ => rfl) (fun _ => rfl) rfl
    · have hwakes : wakes s (.rcv j port) = some (p, some j) := by simp [wakes, hfound]
      rw [hr, hwakes]
      exact served_finished hi.sound (perm_cons_erase hp) (finished_received ticksPerSec s p) rfl
        (ptr_complete _ p _) hcall
  | rcvEnd =>
    obtain ⟨tx, -, rfl⟩ := hspec
    exact served_none rfl rfl (fun _ => rfl) (fun _ => rfl) (fun _ => rfl) rfl
  | tx =>
    obtain ⟨-, rfl⟩ := hspec
    have hview := congrArg View.flight (view_txStep s)
    cases hq : s.msgQ with
    | nil =>
      have htx : txStep s = { s with pc := .work } := by rw [txStep, hq]
      rw [htx]
      exact served_none rfl rfl (fun _ => rfl) (fun _ => rfl) (fun _ => rfl) rfl
    | cons p rest =>
      have hcore := core_kept (core_txStep s p hq) rfl rfl
      rw [txStep, hq] at hview hcore ⊢
      exact served_none rfl rfl (fun q => (hcore q).1) (fun q => (hcore q).2) (fun _ => rfl) hview
  | work sends =>
    obtain ⟨-, rfl⟩ := hspec
    exact served_work hi.sound sends
  | insert =>
    obtain ⟨-, rfl⟩ := hspec
    have hview := congrArg View.flight (@view_insertStep ticksPerSec s)
    unfold insertStep at hview ⊢
    split at hview
    · have hkept : (readjust ticksPerSec s).live = s.live ∧ (readjust ticksPerSec s).ncalls = s.ncalls ∧
          (readjust ticksPerSec s).call = s.call := by
        unfold readjust
        split <;> exact ⟨rfl, rfl, rfl⟩
      exact served_none hkept.1 hkept.2.1 (fun q => (core_readjust_rest s q).2.2.2.1)
        (fun q => (core_readjust_rest s q).2.2.2.2) (fun j => congrArg Call.ptr (congrFun hkept.2.2 j))
        hview
    · exact served_none rfl rfl (fun _ => rfl) (fun _ => rfl) (fun _ => rfl) hview
  | _ => cases ha

end Daemon

/-- The call of a task: with the daemon, or completed and its event pending. -/
def System.Waiting (S : System) (t : Nat) (p : Ptr) : Prop :=
  S.requestor p = t ∧ ∃ j < S.d.ncalls, (S.d.core p).call = some j ∧ (S.d.call j).ptr = p ∧
    (p ∈ S.d.flight ∧ S.pending t = [] ∨ p ∉ S.d.flight ∧ S.pending t = [j])

def System.At (S : System) (t : Nat) : TaskPc → Prop
  | .idle => S.pending t = []
  | .holds p | .decode p => p ∉ S.d.flight ∧ (S.d.core p).phase = .idle ∧ S.pending t = []
  | .encoded p => p ∉ S.d.flight ∧ (S.d.core p).phase = .encoded ∧ S.pending t = []
  | .queued p => (S.d.core p).phase = .queued ∧ S.Waiting t p
  | .receive p => (S.d.core p).phase = .idle ∧ S.Waiting t p
  | .requeued _ => False

structure Owners (base : Nat → Nat) (S : System) : Prop where
  paired : Paired base S.d
  position : ∀ t, S.At t (S.task t)
  live : ∀ t p, (S.task t).held = some p → p ∈ S.d.live
  distinct : ∀ t u p, (S.task t).held = some p → (S.task u).held = some p → t = u
  boxed : ∀ k, ∀ p ∈ S.box k, p ∈ S.d.live ∧ p ∉ S.d.flight ∧ (S.d.core p).phase = .idle ∧
    ∀ t, (S.task t).held ≠ some p
  box_nodup : ∀ k, (S.box k).Nodup
  box_inj : ∀ k l p, p ∈ S.box k → p ∈ S.box l → k = l
  flight : ∀ p ∈ S.d.flight, S.task (S.requestor p) = .queued p ∨ S.task (S.requestor p) = .receive p
  own : ∀ c l, (c, l) ∈ S.received → ∃ j, c = some j ∧ l = [j]

section Positions

variable {base : Nat → Nat} {S T : System}

variable {t : Nat}

theorem System.At.pending {pc : TaskPc} (h : S.At t pc) {j : Nat} (hj : j ∈ S.pending t) :
    ∃ p, (pc = .queued p ∨ pc = .receive p) ∧ p ∉ S.d.flight ∧ (S.d.call j).ptr = p := by
  have hwait : ∀ p, S.Waiting t p → p ∉ S.d.flight ∧ (S.d.call j).ptr = p := by
    rintro p ⟨-, k, -, -, hptr, ⟨-, hnil⟩ | ⟨hp, hone⟩⟩
    · rw [hnil] at hj
      cases hj
    · rw [hone, mem_singleton] at hj
      subst hj
      exact ⟨hp, hptr⟩
  have hnone : S.pending t = [] → False := by
    intro hnil
    rw [hnil] at hj
    cases hj
  cases pc with
  | idle => exact (hnone h).elim
  | holds p => exact (hnone h.2.2).elim
  | encoded p => exact (hnone h.2.2).elim
  | decode p => exact (hnone h.2.2).elim
  | requeued p => exact h.elim
  | queued p => exact ⟨p, .inl rfl, hwait p h.2⟩
  | receive p => exact ⟨p, .inr rfl, hwait p h.2⟩

/-- **What the owners give**: returned and pooled transactions are released. -/
theorem Owners.handedOver (h : Owners base S) : HandedOver S := by
  have hrelease : ∀ p ∉ S.d.flight, (∀ t, S.task t ≠ .queued p ∧ S.task t ≠ .receive p) →
      S.Released p := by
    intro p hp hne
    refine ⟨fun h => hp (mem_flight_of_msgQ h), fun h => hp (mem_flight_of_listHead h),
      fun h => hp (mem_flight_of_newList h), ?_⟩
    intro t j hj hptr
    obtain ⟨q, hpc, -, hq⟩ := (h.position t).pending hj
    grind
  refine ⟨?_, ?_, h.own⟩
  · intro t p ht
    have hat := h.position t
    rw [ht] at hat
    refine hrelease p hat.1 ?_
    intro u
    constructor
    all_goals
      intro hu
      have hut : u = t := h.distinct u t p (by rw [hu]; rfl) (by rw [ht]; rfl)
      rw [hut, ht] at hu
      cases hu
  · intro k p hp
    obtain ⟨-, hf, -, hne⟩ := h.boxed k p hp
    refine hrelease p hf ?_
    intro t
    constructor
    all_goals
      intro ht
      exact hne t (by rw [ht]; rfl)

/-- A step that changes the transaction `p` and the task `t` only. -/
structure Apart (S T : System) (t : Nat) (p : Ptr) : Prop where
  phase : ∀ q ≠ p, (T.d.core q).phase = (S.d.core q).phase
  call : ∀ q ≠ p, (T.d.core q).call = (S.d.core q).call
  flight : ∀ q ≠ p, (q ∈ T.d.flight ↔ q ∈ S.d.flight)
  live : ∀ q ≠ p, q ∈ S.d.live → q ∈ T.d.live
  requestor : ∀ q ≠ p, T.requestor q = S.requestor q
  ncalls : S.d.ncalls ≤ T.d.ncalls
  ptr : ∀ j < S.d.ncalls, (T.d.call j).ptr = (S.d.call j).ptr
  pending : ∀ u ≠ t, T.pending u = S.pending u
  task : ∀ u ≠ t, T.task u = S.task u

theorem System.At.apart {t u : Nat} {p : Ptr} (ha : Apart S T t p) (hu : u ≠ t) {pc : TaskPc}
    (hp : pc.held ≠ some p) (h : S.At u pc) : T.At u pc := by
  have hquiet : ∀ q ≠ p, ∀ ph, (q ∉ S.d.flight ∧ (S.d.core q).phase = ph ∧ S.pending u = []) →
      q ∉ T.d.flight ∧ (T.d.core q).phase = ph ∧ T.pending u = [] := by
    rintro q hq ph ⟨h1, h2, h3⟩
    rw [ha.flight q hq, ha.phase q hq, ha.pending u hu]
    exact ⟨h1, h2, h3⟩
  have hwait : ∀ q ≠ p, S.Waiting u q → T.Waiting u q := by
    rintro q hq ⟨h1, j, hj, h2, h3, h4⟩
    refine ⟨(ha.requestor q hq).trans h1, j, Nat.lt_of_lt_of_le hj ha.ncalls, (ha.call q hq).trans h2,
      (ha.ptr j hj).trans h3, ?_⟩
    rw [ha.flight q hq, ha.pending u hu]
    exact h4
  cases pc with
  | idle => exact (ha.pending u hu).trans h
  | requeued q => exact h
  | holds q => exact hquiet q (fun h => hp (congrArg some h)) _ h
  | decode q => exact hquiet q (fun h => hp (congrArg some h)) _ h
  | encoded q => exact hquiet q (fun h => hp (congrArg some h)) _ h
  | queued q =>
    have hq : q ≠ p := fun h => hp (congrArg some h)
    exact ⟨(ha.phase q hq).trans h.1, hwait q hq h.2⟩
  | receive q =>
    have hq : q ≠ p := fun h => hp (congrArg some h)
    exact ⟨(ha.phase q hq).trans h.1, hwait q hq h.2⟩

/-- **A step of a task** that owns the transaction `p`, or gets it, keeps the owners. -/
theorem Owners.move (h : Owners base S) {p : Ptr} (ha : Apart S T t p)
    (hpaired : Paired base T.d) (hother : ∀ u ≠ t, (S.task u).held ≠ some p)
    (hold : ∀ q, (S.task t).held = some q → q = p) (hat : T.At t (T.task t))
    (hnew : ∀ q, (T.task t).held = some q → q = p ∧ p ∈ T.d.live)
    (hbox : ∀ k q, q ∈ T.box k → q ≠ p → q ∈ S.box k)
    (hboxp : ∀ k, p ∈ T.box k → p ∈ T.d.live ∧ p ∉ T.d.flight ∧ (T.d.core p).phase = .idle ∧
      (T.task t).held = none)
    (hnodup : ∀ k, (T.box k).Nodup) (hinj : ∀ k l, p ∈ T.box k → p ∈ T.box l → k = l)
    (hflight : p ∈ T.d.flight → T.requestor p = t ∧ (T.task t = .queued p ∨ T.task t = .receive p))
    (hown : ∀ c l, (c, l) ∈ T.received → ∃ j, c = some j ∧ l = [j]) : Owners base T := by
  have hheld : ∀ u ≠ t, ∀ q, (T.task u).held = some q → (S.task u).held = some q ∧ q ≠ p := by
    intro u hu q hq
    rw [ha.task u hu] at hq
    exact ⟨hq, fun h => hother u hu (h ▸ hq)⟩
  refine ⟨hpaired, ?_, ?_, ?_, ?_, hnodup, ?_, ?_, hown⟩
  · intro u
    by_cases hu : u = t
    · subst hu
      exact hat
    · rw [ha.task u hu]
      exact (h.position u).apart ha hu (hother u hu)
  · intro u q hq
    by_cases hu : u = t
    · subst hu
      obtain ⟨rfl, hlive⟩ := hnew q hq
      exact hlive
    · obtain ⟨hq, hne⟩ := hheld u hu q hq
      exact ha.live q hne (h.live u q hq)
  · intro u v q hq hq'
    grind [h.distinct]
  · intro k q hq
    grind [h.boxed, ha.live, ha.phase, ha.flight]
  · intro k l q hk hl
    grind [h.box_inj]
  · intro q hq
    by_cases hqp : q = p
    · subst hqp
      obtain ⟨hreq, htask⟩ := hflight hq
      rw [hreq]
      exact htask
    · rw [ha.flight q hqp] at hq
      rw [ha.requestor q hqp]
      have hq' := h.flight q hq
      have hne : S.requestor q ≠ t := by
        intro hrt
        rw [hrt] at hq'
        rcases hq' with hq' | hq'
        · exact hqp (hold q (by rw [hq']; rfl))
        · exact hqp (hold q (by rw [hq']; rfl))
      rw [ha.task _ hne]
      exact hq'

/-- A step of a task that owns the transaction `p` and no pool sees. -/
theorem Owners.change (h : Owners base S) {p : Ptr} (hheld : (S.task t).held = some p)
    (ha : Apart S T t p) (hpaired : Paired base T.d) (hat : T.At t (T.task t))
    (hnew : ∀ q, (T.task t).held = some q → q = p ∧ p ∈ T.d.live) (hbox : T.box = S.box)
    (hflight : p ∈ T.d.flight → T.requestor p = t ∧ (T.task t = .queued p ∨ T.task t = .receive p))
    (hown : ∀ c l, (c, l) ∈ T.received → ∃ j, c = some j ∧ l = [j]) : Owners base T := by
  have hnone : ∀ k, p ∉ T.box k := by
    intro k hk
    rw [hbox] at hk
    exact (h.boxed k p hk).2.2.2 t hheld
  refine h.move ha hpaired ?_ ?_ hat hnew ?_ ?_ ?_ ?_ hflight hown
  · intro u hu hup
    exact hu (h.distinct u t p hup hheld)
  · intro q hq
    rw [hheld] at hq
    cases hq
    rfl
  · intro k q hq _
    rw [hbox] at hq
    exact hq
  · intro k hk
    exact absurd hk (hnone k)
  · rw [hbox]
    exact h.box_nodup
  · intro k l hk _
    exact absurd hk (hnone k)

end Positions

section Steps

variable {ticksPerSec : Nat} {base : Nat → Nat} {S T : System}

variable {p : Ptr} {t : Nat}

theorem apart_of_core {c : Core} (hcore : T.d.core = upd S.d.core p c)
    (hflight : ∀ q ≠ p, (q ∈ T.d.flight ↔ q ∈ S.d.flight))
    (hlive : ∀ q ≠ p, q ∈ S.d.live → q ∈ T.d.live)
    (hreq : ∀ q ≠ p, T.requestor q = S.requestor q) (hn : S.d.ncalls ≤ T.d.ncalls)
    (hptr : ∀ j < S.d.ncalls, (T.d.call j).ptr = (S.d.call j).ptr)
    (hpending : ∀ u ≠ t, T.pending u = S.pending u)
    (htask : ∀ u ≠ t, T.task u = S.task u) : Apart S T t p := by
  have hne : ∀ q ≠ p, T.d.core q = S.d.core q := by
    intro q hq
    rw [hcore, upd_ne _ _ hq]
  exact ⟨fun q hq => by rw [hne q hq], fun q hq => by rw [hne q hq], hflight, hlive, hreq, hn, hptr,
    hpending, htask⟩

theorem Owners.base_step (ticksPerSec : Nat) (h : Owners base S) (hd : S.d.fault = false) (hb : BelowWrap S.d)
    (hlive : p ∈ S.d.live) (hf : p ∉ S.d.flight) :
    ((S.d.core p).phase = .idle → ∀ srvr ms encodes,
      Paired base (sendBegin ticksPerSec S.d p srvr ms encodes)) ∧
    ((S.d.core p).phase = .encoded → Paired base (sendQueue S.d p)) ∧
    ((S.d.core p).phase = .idle → Paired base (rpcUdpXactDestroy S.d p)) := by
  have hown : S.d.owned p = true := owned_eq_true_iff.mpr ⟨hlive, hf⟩
  have hfault : ¬ S.d.fault = true := by simp [hd]
  have hstep : ∀ a s, XidRetired S.d a → step ticksPerSec S.d a = some s → Paired base s :=
    fun _ _ => h.paired.step
  refine ⟨?_, ?_, ?_⟩
  · intro hph srvr ms encodes
    refine hstep (.sendBegin p srvr ms encodes) _ hb ?_
    rw [step, if_neg hfault]
    exact if_pos ⟨hown, hph⟩
  · intro hph
    refine hstep (.sendQueue p) _ hb ?_
    rw [step, if_neg hfault]
    exact if_pos ⟨hown, hph⟩
  · intro hph
    refine hstep (.destroy p) _ hb ?_
    rw [step, if_neg hfault]
    exact if_pos ⟨hown, hph⟩

theorem Owners.send (h : Owners base S) (hd : S.d.fault = false) (hb : BelowWrap S.d)
    (ht : S.task t = .holds p) (srvr ms : Nat) (encodes : Bool) :
    Owners base (rpcUdpSend ticksPerSec S t p srvr ms encodes) := by
  have hat := h.position t
  rw [ht] at hat
  obtain ⟨hf, hph, hpend⟩ := hat
  have hheld : (S.task t).held = some p := by rw [ht]; rfl
  have hlive := h.live t p hheld
  have hcore := @core_sendBegin ticksPerSec S.d p srvr ms encodes
  have hphase : ((sendBegin ticksPerSec S.d p srvr ms encodes).core p).phase =
      if encodes then .encoded else .idle := by
    rw [hcore, upd_self]
    simp only [hph]
  have hpaired : Paired base (sendBegin ticksPerSec S.d p srvr ms encodes) :=
    (h.base_step ticksPerSec hd hb hlive hf).1 hph srvr ms encodes
  have htask : (rpcUdpSend ticksPerSec S t p srvr ms encodes).task t =
      if encodes then .encoded p else .holds p := upd_self _ _ _
  refine h.change hheld ?_ hpaired ?_ ?_ rfl (fun hp => absurd hp hf) h.own
  · exact apart_of_core hcore (fun _ _ => Iff.rfl) (fun _ _ h => h) (fun _ _ => rfl) le_rfl
      (fun _ _ => rfl) (fun _ _ => rfl) (fun u hu => upd_ne _ _ hu)
  · rw [htask]
    cases encodes with
    | true => exact ⟨hf, hphase, hpend⟩
    | false => exact ⟨hf, hphase, hpend⟩
  · intro q hq
    rw [htask] at hq
    cases encodes with
    | true =>
      cases hq
      exact ⟨rfl, hlive⟩
    | false =>
      cases hq
      exact ⟨rfl, hlive⟩

theorem Owners.queue (h : Owners base S) (hd : S.d.fault = false) (hb : BelowWrap S.d)
    (ht : S.task t = .encoded p) : Owners base (queueXact S t p (.queued p)) := by
  have hat := h.position t
  rw [ht] at hat
  obtain ⟨hf, hph, hpend⟩ := hat
  have hheld : (S.task t).held = some p := by rw [ht]; rfl
  have hlive := h.live t p hheld
  have hpaired : Paired base (sendQueue S.d p) := (h.base_step 0 hd hb hlive hf).2.1 hph
  have hcore := core_sendQueue S.d p
  by_cases hroom : S.d.room
  · have hd := sendQueue_room (p := p) hroom
    rw [if_pos (show S.d.msgQOpen = true ∧ S.d.msgQ.length < RPCIOD_QDEPTH from hroom)] at hcore
    have htask : (queueXact S t p (.queued p)).task t = .queued p := by
      show upd S.task t (if S.d.room then _ else _) t = _
      rw [upd_self, if_pos hroom]
    have hmem : p ∈ (sendQueue S.d p).flight := by
      rw [hd]
      exact mem_flight_of_msgQ (mem_append_right _ mem_cons_self)
    refine h.change hheld ?_ hpaired ?_ ?_ rfl ?_ h.own
    · refine apart_of_core hcore ?_ ?_ (fun q hq => upd_ne _ _ hq) ?_ ?_ (fun _ _ => rfl)
        (fun u hu => upd_ne _ _ hu)
      · intro q hq
        show q ∈ (sendQueue S.d p).flight ↔ _
        rw [hd]
        simp [State.flight, hq]
      · intro q _ hq
        show q ∈ (sendQueue S.d p).live
        rw [hd]
        exact hq
      · show _ ≤ (sendQueue S.d p).ncalls
        rw [hd]
        exact Nat.le_succ _
      · intro j hj
        show ((sendQueue S.d p).call j).ptr = _
        rw [hd]
        exact congrArg Call.ptr (upd_ne _ _ (Nat.ne_of_lt hj))
    · rw [htask]
      refine ⟨?_, upd_self _ _ _, S.d.ncalls, ?_, ?_, ?_, .inl ⟨hmem, hpend⟩⟩
      · show ((sendQueue S.d p).core p).phase = _
        rw [hcore, upd_self]
      · show _ < (sendQueue S.d p).ncalls
        rw [hd]
        exact Nat.lt_succ_self _
      · show ((sendQueue S.d p).core p).call = _
        rw [hcore, upd_self]
      · show ((sendQueue S.d p).call S.d.ncalls).ptr = p
        rw [hd]
        exact congrArg Call.ptr (upd_self _ _ _)
    · intro q hq
      rw [htask] at hq
      cases hq
      refine ⟨rfl, ?_⟩
      show p ∈ (sendQueue S.d p).live
      rw [hd]
      exact hlive
    · intro _
      exact ⟨upd_self _ _ _, .inl htask⟩
  · have hd := sendQueue_full (p := p) hroom
    rw [if_neg (show ¬ (S.d.msgQOpen = true ∧ S.d.msgQ.length < RPCIOD_QDEPTH) from hroom)] at hcore
    have htask : (queueXact S t p (.queued p)).task t = .holds p := by
      show upd S.task t (if S.d.room then _ else _) t = _
      rw [upd_self, if_neg hroom]
    have hflight : (sendQueue S.d p).flight = S.d.flight := by rw [hd]; rfl
    refine h.change hheld ?_ hpaired ?_ ?_ rfl ?_ h.own
    · refine apart_of_core hcore ?_ ?_ (fun q hq => upd_ne _ _ hq) ?_ ?_ (fun _ _ => rfl)
        (fun u hu => upd_ne _ _ hu)
      · intro q _
        show q ∈ (sendQueue S.d p).flight ↔ _
        rw [hflight]
      · intro q _ hq
        show q ∈ (sendQueue S.d p).live
        rw [hd]
        exact hq
      · show _ ≤ (sendQueue S.d p).ncalls
        rw [hd]
      · intro j _
        show ((sendQueue S.d p).call j).ptr = _
        rw [hd]
    · rw [htask]
      refine ⟨?_, ?_, hpend⟩
      · show p ∉ (sendQueue S.d p).flight
        rw [hflight]
        exact hf
      · show ((sendQueue S.d p).core p).phase = _
        rw [hcore, upd_self]
    · intro q hq
      rw [htask] at hq
      cases hq
      refine ⟨rfl, ?_⟩
      show p ∈ (sendQueue S.d p).live
      rw [hd]
      exact hlive
    · intro hp
      have hp' : p ∈ (sendQueue S.d p).flight := hp
      rw [hflight] at hp'
      exact absurd hp' hf

theorem Owners.wake (h : Owners base S) (hd : S.d.fault = false) (hb : BelowWrap S.d)
    (ht : S.task t = .queued p) :
    Owners base { S with d := sendEvent S.d p, task := upd S.task t (.receive p) } := by
  have hat := h.position t
  rw [ht] at hat
  obtain ⟨hph, hreq, j, hj, hcall, hptr, hwait⟩ := hat
  have hheld : (S.task t).held = some p := by rw [ht]; rfl
  have hlive := h.live t p hheld
  have hcore := core_sendEvent S.d p
  have hpaired : Paired base (sendEvent S.d p) := by
    have hstep : step 0 S.d (.sendEvent p) = some (sendEvent S.d p) := by
      rw [step, if_neg (by simp [hd])]
      exact if_pos ⟨hlive, hph⟩
    exact @Paired.step 0 base S.d _ (.sendEvent p) h.paired hb hstep
  refine h.change hheld ?_ hpaired ?_ ?_ rfl ?_ h.own
  · exact apart_of_core hcore (fun _ _ => Iff.rfl) (fun _ _ h => h) (fun _ _ => rfl) le_rfl
      (fun _ _ => rfl) (fun _ _ => rfl) (fun u hu => upd_ne _ _ hu)
  · show System.At _ t (upd S.task t (.receive p) t)
    rw [upd_self]
    refine ⟨?_, hreq, j, hj, ?_, hptr, hwait⟩
    · show ((sendEvent S.d p).core p).phase = _
      rw [hcore, upd_self]
    · show ((sendEvent S.d p).core p).call = _
      rw [hcore, upd_self]
      exact hcall
  · intro q hq
    simp only [upd_self] at hq
    cases hq
    exact ⟨rfl, hlive⟩
  · intro _
    exact ⟨hreq, .inr (upd_self _ _ _)⟩

theorem Owners.stay (h : Owners base S) (hheld : (S.task t).held = some p)
    (hf : p ∉ S.d.flight) (hd : T.d = S.d) (hreq : ∀ q ≠ p, T.requestor q = S.requestor q)
    (hbox : T.box = S.box) (hpending : ∀ u ≠ t, T.pending u = S.pending u)
    (htask : ∀ u ≠ t, T.task u = S.task u) (hat : T.At t (T.task t))
    (hnew : (T.task t).held = some p)
    (hown : ∀ c l, (c, l) ∈ T.received → ∃ j, c = some j ∧ l = [j]) : Owners base T := by
  refine h.change hheld ?_ (hd ▸ h.paired) hat ?_ hbox ?_ hown
  · refine ⟨?_, ?_, ?_, ?_, hreq, ?_, ?_, hpending, htask⟩
    all_goals simp [hd]
  · intro q hq
    rw [hnew] at hq
    cases hq
    rw [hd]
    exact ⟨rfl, h.live t p hheld⟩
  · intro hp
    rw [hd] at hp
    exact absurd hp hf

theorem Owners.receive (h : Owners base S) (ht : S.task t = .receive p)
    (hpend : S.pending t ≠ []) : Owners base (receiveEvent S t p) := by
  have hat := h.position t
  rw [ht] at hat
  obtain ⟨hph, hreq, j, hj, hcall, hptr, ⟨-, hnil⟩ | ⟨hf, hone⟩⟩ := hat
  · exact absurd hnil hpend
  have hheld : (S.task t).held = some p := by rw [ht]; rfl
  have hown : ∀ c l, (c, l) ∈ ((S.d.xact p).call, S.pending t) :: S.received →
      ∃ j, c = some j ∧ l = [j] := by
    intro c l hmem
    rcases mem_cons.mp hmem with heq | hmem
    · cases heq
      exact ⟨j, hcall, hone⟩
    · exact h.own c l hmem
  have hcleared : ∀ u ≠ t, upd S.pending t [] u = S.pending u := fun u hu => upd_ne _ _ hu
  have hmove : ∀ (pc : TaskPc) (stat : Nat → RcvStat), pc = .holds p ∨ pc = .decode p →
      Owners base { S with
        pending := upd S.pending t []
        received := ((S.d.xact p).call, S.pending t) :: S.received
        task := upd S.task t pc
        stat := stat } := by
    intro pc stat hpc
    refine h.stay hheld hf rfl (fun _ _ => rfl) rfl hcleared (fun u hu => upd_ne _ _ hu) ?_ ?_ hown
    · simp only [upd_self]
      rcases hpc with rfl | rfl
      · exact ⟨hf, hph, upd_self _ _ _⟩
      · exact ⟨hf, hph, upd_self _ _ _⟩
    · simp only [upd_self]
      rcases hpc with rfl | rfl
      · rfl
      · rfl
  unfold receiveEvent
  grind

/-- A credential that is refreshed where the transaction is not queued again: the message queue is full. -/
theorem Owners.decode_full (h : Owners base S) (ht : S.task t = .decode p) {reply : Reply}
    {encodes : Bool} (hno : ¬ Requeues S t reply encodes) {stat : RcvStat} (hstat : seterrReply reply = some stat)
    (hne : stat ≠ .success)
    (hok : (authunixRefresh (S.short ((S.d.xact p).server.getD 0)) encodes).2 = true) :
    ¬ S.d.room ∧ sendQueue S.d p = S.d := by
  have hat := h.position t
  rw [ht] at hat
  have hph := hat.2.1
  have hshort : S.short ((S.d.xact p).server.getD 0) = true ∧ encodes = true := by
    grind [authunixRefresh]
  have hfull : ¬ S.d.room := by
    intro hroom
    refine hno ?_
    unfold Requeues
    grind
  refine ⟨hfull, ?_⟩
  rw [sendQueue_full (p := p) hfull]
  have hx : ({ S.d.xact p with phase := .idle } : Xact) = S.d.xact p := by
    rw [← hph]
    rfl
  rw [hx, upd_same]

/-- `rpcUdpRcv`: the reply, if the transaction is not queued again. -/
theorem Owners.decode (h : Owners base S) (ht : S.task t = .decode p)
    {reply : Reply} {encodes : Bool} (hno : ¬ Requeues S t reply encodes) :
    Owners base (decodeReply S t p reply encodes) := by
  have hat := h.position t
  rw [ht] at hat
  obtain ⟨hf, hph, hpend⟩ := hat
  have hheld : (S.task t).held = some p := by rw [ht]; rfl
  have hreturn : ∀ (short : Nat → Bool) (stat : Nat → RcvStat) (requestor : Ptr → Nat),
      (∀ q ≠ p, requestor q = S.requestor q) →
      Owners base { S with
        short := short, stat := stat, requestor := requestor, task := upd S.task t (.holds p) } := by
    intro short stat requestor hreq
    refine h.stay hheld hf rfl hreq rfl (fun _ _ => rfl) (fun u hu => upd_ne _ _ hu) ?_ ?_ h.own
    · simp only [upd_self]
      exact ⟨hf, hph, hpend⟩
    · simp only [upd_self]
      rfl
  unfold decodeReply
  simp only
  split
  · exact hreturn S.short _ S.requestor (fun _ _ => rfl)
  · exact hreturn _ _ S.requestor (fun _ _ => rfl)
  · rename_i stat hne hstat
    split
    · rename_i hok
      obtain ⟨hfull, hd⟩ := h.decode_full ht hno hstat (fun heq => hne heq) hok
      have := hreturn (upd S.short ((S.d.xact p).server.getD 0)
        (authunixRefresh (S.short ((S.d.xact p).server.getD 0)) encodes).1)
        (upd (upd S.stat t stat) t (.daemon .cantsend)) (upd S.requestor p t)
        (fun q hq => upd_ne _ _ hq)
      unfold queueXact
      simp only [if_neg hfull, hd]
      exact this
    · exact hreturn _ _ S.requestor (fun _ _ => rfl)

theorem Owners.destroy (h : Owners base S) (hd : S.d.fault = false) (hb : BelowWrap S.d)
    (ht : S.task t = .holds p) :
    Owners base { S with d := rpcUdpXactDestroy S.d p, task := upd S.task t .idle } := by
  have hat := h.position t
  rw [ht] at hat
  obtain ⟨hf, hph, hpend⟩ := hat
  have hheld : (S.task t).held = some p := by rw [ht]; rfl
  have hlive := h.live t p hheld
  refine h.change hheld ?_ ((h.base_step 0 hd hb hlive hf).2.2 hph) ?_ ?_ rfl (fun hp => absurd hp hf) h.own
  · refine ⟨fun _ _ => rfl, fun _ _ => rfl, fun _ _ => Iff.rfl, ?_, fun _ _ => rfl, le_rfl,
      fun _ _ => rfl, fun _ _ => rfl, fun u hu => upd_ne _ _ hu⟩
    intro q hq hl
    exact (mem_erase_of_ne hq).mpr hl
  · simp only [upd_self]
    exact hpend
  · intro q hq
    simp only [upd_self] at hq
    cases hq

theorem Owners.put (h : Owners base S) (hd : S.d.fault = false) (hb : BelowWrap S.d)
    (ht : S.task t = .holds p) (poolsize : Nat → Nat) (k : Nat) :
    Owners base (rpcUdpXactPoolPut poolsize S t p k) := by
  unfold rpcUdpXactPoolPut
  split
  · have hat := h.position t
    rw [ht] at hat
    obtain ⟨hf, hph, hpend⟩ := hat
    have hheld : (S.task t).held = some p := by rw [ht]; rfl
    have hnone : ∀ l, p ∉ S.box l := fun l hl => (h.boxed l p hl).2.2.2 t hheld
    have hbox : ∀ l q, q ∈ upd S.box k (S.box k ++ [p]) l → q ∈ S.box l ∨ q = p ∧ l = k := by
      intro l q hq
      unfold upd at hq
      grind
    refine h.move (t := t) (p := p) ?_ h.paired ?_ ?_ ?_ ?_ ?_ ?_ ?_ ?_ (fun hp => absurd hp hf) h.own
    · exact ⟨fun _ _ => rfl, fun _ _ => rfl, fun _ _ => Iff.rfl, fun _ _ h => h, fun _ _ => rfl, le_rfl,
        fun _ _ => rfl, fun _ _ => rfl, fun u hu => upd_ne _ _ hu⟩
    · intro u hu hup
      exact hu (h.distinct u t p hup hheld)
    · intro q hq
      rw [hheld] at hq
      cases hq
      rfl
    · simp only [upd_self]
      exact hpend
    · intro q hq
      simp only [upd_self] at hq
      cases hq
    · intro l q hq hne
      exact (hbox l q hq).resolve_right fun h => hne h.1
    · intro l _
      refine ⟨h.live t p hheld, hf, hph, ?_⟩
      simp only [upd_self]
      rfl
    · intro l
      show (upd S.box k (S.box k ++ [p]) l).Nodup
      unfold upd
      split
      · refine nodup_append.mpr ⟨h.box_nodup k, nodup_singleton p, ?_⟩
        rintro q hq r hr rfl
        exact hnone k (mem_singleton.mp hr ▸ hq)
      · exact h.box_nodup l
    · intro l m hl hm
      grind
  · exact h.destroy hd hb ht

theorem Paired.setServer {s : State} (hi : Paired base s) (hf : p ∉ s.flight)
    (hph : (s.core p).phase = .idle) (server : Option Nat) :
    Paired base { s with xact := upd s.xact p { s.xact p with server := server } } := by
  have hview : ({ s with xact := upd s.xact p { s.xact p with server := server } } : State).view =
      s.view := view_upd_xact s p rfl rfl rfl
  have hcore := core_upd s p { s.xact p with server := server }
    { s with xact := upd s.xact p { s.xact p with server := server } } rfl
  have hkept := core_kept hcore rfl rfl
  refine ⟨hview ▸ hi.sound, hview ▸ hi.bounded, hview ▸ hi.matched, ⟨hi.queues.newList_nil, ?_, ?_, ?_⟩⟩
  · intro q hq j hj
    rw [(hkept q).2] at hj
    exact hi.queues.unsent q hq j hj
  · intro q hq
    rw [(hkept q).1] at hq
    have hqp : q ≠ p := by
      rintro rfl
      rcases hq with hq | hq
      · exact hf hq
      · rw [hph] at hq
        cases hq
    rw [hcore, upd_ne _ _ hqp]
    exact hi.queues.served q hq
  · intro q hq
    rw [(hkept q).1]
    exact hi.queues.signalled q hq

theorem create_cases (s : State) (p : Ptr) (header : Bool) :
    ((rpcUdpXactCreate s p header).2 = false ∧
      ∃ seed, (rpcUdpXactCreate s p header).1 = { s with xidHashSeed := seed }) ∨
    ((rpcUdpXactCreate s p header).2 = true ∧
      ∃ seed tbl xid, (rpcUdpXactCreate s p header).1 = { s with
        xidHashSeed := seed
        live := p :: s.live
        xactHashTbl := tbl
        xact := upd s.xact p ⟨xid, none, 0, 0, .success, 0, 0, .idle, none, false⟩ }) := by
  unfold rpcUdpXactCreate
  split
  · simp only
    split
    · exact .inl ⟨rfl, _, rfl⟩
    · exact .inr ⟨rfl, _, _, _, rfl⟩
  · exact .inl ⟨rfl, s.xidHashSeed, rfl⟩

theorem Owners.created (h : Owners base S) (hd : S.d.fault = false) (hb : BelowWrap S.d)
    (ht : S.task t = .idle) (hp : p ∉ S.d.live) (header : Bool) (pool server : Option Nat) :
    Owners base (S.created t p header pool server) := by
  have hpend := h.position t
  rw [ht] at hpend
  have hf : p ∉ S.d.flight := fun h' => hp (h.paired.sound.flight_live p h')
  have hother : ∀ u, (S.task u).held ≠ some p := fun u hu => hp (h.live u p hu)
  have hnone : ∀ k, p ∉ S.box k := fun k hk => hp (h.boxed k p hk).1
  have hpaired : Paired base (rpcUdpXactCreate S.d p header).1 := by
    have hstep : step 0 S.d (.create p header) = some (rpcUdpXactCreate S.d p header).1 := by
      rw [step, if_neg (by simp [hd])]
      exact if_neg hp
    exact @Paired.step 0 base S.d _ (.create p header) h.paired hb hstep
  have hmove : ∀ T : System, Paired base T.d → T.d.flight = S.d.flight → T.d.ncalls = S.d.ncalls →
      T.d.call = S.d.call → (∀ q ≠ p, T.d.core q = S.d.core q) →
      (∀ q ∈ S.d.live, q ∈ T.d.live) → T.requestor = S.requestor → T.box = S.box →
      T.pending = S.pending → T.received = S.received → (∀ u ≠ t, T.task u = S.task u) →
      T.At t (T.task t) → (∀ q, (T.task t).held = some q → q = p ∧ p ∈ T.d.live) → Owners base T := by
    intro T hT h1 h2 h3 h4 h5 h6 h7 h8 h9 h10 h11 h12
    refine h.move (t := t) (p := p) ?_ hT (fun u _ => hother u) ?_ h11 h12 ?_ ?_ ?_ ?_ ?_ (h9 ▸ h.own)
    · exact ⟨fun q hq => by rw [h4 q hq], fun q hq => by rw [h4 q hq], fun q _ => by rw [h1],
        fun q _ hq => h5 q hq, fun q _ => by rw [h6], Nat.le_of_eq h2.symm, fun j _ => by rw [h3],
        fun u _ => by rw [h8], h10⟩
    · intro q hq
      rw [ht] at hq
      cases hq
    · intro k q hq _
      exact h7 ▸ hq
    · intro k hk
      exact absurd (h7 ▸ hk) (hnone k)
    · exact h7 ▸ h.box_nodup
    · intro k l hk _
      exact absurd (h7 ▸ hk) (hnone k)
    · intro hq
      exact absurd (h1 ▸ hq) hf
  unfold System.created
  rcases create_cases S.d p header with ⟨hok, seed, hd⟩ | ⟨hok, seed, tbl, xid, hd⟩
  · rw [hd] at hpaired
    have hpair : rpcUdpXactCreate S.d p header = ({ S.d with xidHashSeed := seed }, false) :=
      Prod.ext hd hok
    rw [hpair]
    refine hmove _ hpaired rfl rfl rfl (fun _ _ => rfl) (fun _ h => h) rfl rfl rfl rfl
      (fun _ _ => rfl) ?_ ?_
    · show System.At _ t (S.task t)
      rw [ht]
      exact hpend
    · intro q hq
      have hq' : (S.task t).held = some q := hq
      rw [ht] at hq'
      cases hq'
  · rw [hd] at hpaired
    have hpair := Prod.ext (x := rpcUdpXactCreate S.d p header) (y := (_, true)) hd hok
    rw [hpair]
    refine hmove _ (hpaired.setServer hf ?_ server) rfl rfl rfl ?_ (fun _ h => mem_cons_of_mem _ h)
      rfl rfl rfl rfl (fun u hu => upd_ne _ _ hu) ?_ ?_
    · simp [State.core, Xact.core]
    · intro q hq
      simp [State.core, hq]
    · simp only [if_true, upd_self]
      refine ⟨hf, ?_, hpend⟩
      simp [State.core, Xact.core]
    · intro q hq
      simp only [if_true, upd_self] at hq
      cases hq
      exact ⟨rfl, mem_cons_self⟩

theorem Owners.get (h : Owners base S) (hd : S.d.fault = false) (hb : BelowWrap S.d)
    (ht : S.task t = .idle) (hp : p ∉ S.d.live) (header : Bool) (k : Nat) :
    Owners base (rpcUdpXactPoolGet S t k p header) := by
  unfold rpcUdpXactPoolGet
  split
  · rename_i q rest hk
    have hpend := h.position t
    rw [ht] at hpend
    have hq : q ∈ S.box k := by rw [hk]; exact mem_cons_self
    obtain ⟨hlive, hf, hph, hother⟩ := h.boxed k q hq
    have hnodup := h.box_nodup k
    have hbox : ∀ l r, r ∈ upd S.box k rest l → r ∈ S.box l ∧ r ≠ q := by
      intro l r hr
      unfold upd at hr
      split at hr
      · grind
      · rename_i hl
        refine ⟨hr, ?_⟩
        rintro rfl
        exact hl (h.box_inj l k r hr hq)
    refine h.move (t := t) (p := q) ?_ h.paired (fun u _ => hother u) ?_ ?_ ?_ ?_ ?_ ?_ ?_
      (fun h => absurd h hf) h.own
    · exact ⟨fun _ _ => rfl, fun _ _ => rfl, fun _ _ => Iff.rfl, fun _ _ h => h, fun _ _ => rfl, le_rfl,
        fun _ _ => rfl, fun _ _ => rfl, fun u hu => upd_ne _ _ hu⟩
    · intro r hr
      rw [ht] at hr
      cases hr
    · simp only [upd_self]
      exact ⟨hf, hph, hpend⟩
    · intro r hr
      simp only [upd_self] at hr
      cases hr
      exact ⟨rfl, hlive⟩
    · intro l r hr _
      exact (hbox l r hr).1
    · intro l hl
      exact absurd rfl (hbox l q hl).2
    · intro l
      grind [upd, h.box_nodup]
    · intro l m hl _
      exact absurd rfl (hbox l q hl).2
  · exact h.created hd hb ht hp header (some k) none

/-- **A step of the daemon keeps the owners**: the event goes to the task that waits for it. -/
theorem Owners.served (h : Owners base S) {a : Act} (ha : a.ofRequestor = false)
    (hk : XidRetired S.d a) {d : State} (hstep : step ticksPerSec S.d a = some d) :
    Owners base { S.wake (wakes S.d a) with d := d } := by
  have hs := served_step h.paired ha hstep
  have hpaired := h.paired.step hk hstep
  obtain ⟨T, hT⟩ : ∃ T, T = ({ S.wake (wakes S.d a) with d := d } : System) := ⟨_, rfl⟩
  have hsame : T.d = d ∧ T.task = S.task ∧ T.box = S.box ∧ T.requestor = S.requestor ∧
      T.received = S.received := by
    rw [hT]
    unfold System.wake
    split <;> exact ⟨rfl, rfl, rfl, rfl, rfl⟩
  have hpend : ∀ t, T.pending t = S.pending t ∨
      ∃ p j, wakes S.d a = some (p, j) ∧ S.requestor p = t ∧ T.pending t = S.pending t ++ j.toList := by
    intro t
    rw [hT]
    unfold System.wake
    split
    · exact .inl rfl
    · rename_i p j hw
      by_cases hreq : S.requestor p = t
      · grind [upd_self]
      · refine .inl ?_
        show upd S.pending _ _ t = _
        rw [upd_ne _ _ (Ne.symm hreq)]
  rw [← hT]
  obtain ⟨hd, htask, hbox, hreq, hrec⟩ := hsame
  have hflight : ∀ q ∉ S.d.flight, q ∉ T.d.flight := by
    intro q hq hq'
    rw [hd, hs.flight] at hq'
    exact hq hq'.1
  -- an event goes to a task that waits with its transaction
  have htold : ∀ p j, wakes S.d a = some (p, j) →
      S.task (S.requestor p) = .queued p ∨ S.task (S.requestor p) = .receive p :=
    fun p j hw => h.flight p (hs.woken p j hw).1
  have hquiet : ∀ t, (∀ p, S.task t ≠ .queued p ∧ S.task t ≠ .receive p) → T.pending t = S.pending t := by
    intro t hne
    grind
  have hwait : ∀ t p, S.task t = .queued p ∨ S.task t = .receive p → S.Waiting t p → T.Waiting t p := by
    rintro t p ht ⟨hrp, j, hj, hcall, hptr, hcase⟩
    have hown : ∀ q k, wakes S.d a = some (q, k) → S.requestor q = t → q = p := by
      intro q k hw hq
      grind
    refine ⟨by rw [hreq]; exact hrp, j, ?_, ?_, ?_, ?_⟩
    · rw [hd, hs.ncalls]
      exact hj
    · rw [hd, hs.call]
      exact hcall
    · rw [hd, hs.ptr]
      exact hptr
    · rcases hcase with ⟨hp, hnil⟩ | ⟨hp, hone⟩
      · rcases hpend t with hsame | ⟨q, k, hw, hq, happ⟩
        · by_cases hw : ∃ k, wakes S.d a = some (p, k)
          · obtain ⟨k, hw⟩ := hw
            right
            have hk : (S.d.core p).call = k := (hs.woken p k hw).2
            refine ⟨?_, ?_⟩
            · rw [hd, hs.flight]
              exact fun h => h.2 k hw
            · rw [hT]
              unfold System.wake
              simp only [hw]
              rw [hrp, upd_self, hnil, ← hk, hcall]
              rfl
          · left
            refine ⟨?_, hsame.trans hnil⟩
            rw [hd, hs.flight]
            exact ⟨hp, fun k hk => hw ⟨k, hk⟩⟩
        · have hqp := hown q k hw hq
          subst hqp
          have hk : (S.d.core q).call = k := (hs.woken q k hw).2
          right
          refine ⟨?_, ?_⟩
          · rw [hd, hs.flight]
            exact fun h => h.2 k hw
          · rw [happ, hnil, ← hk, hcall]
            rfl
      · grind [hs.woken]
  refine ⟨hd ▸ hpaired, ?_, ?_, ?_, ?_, ?_, ?_, ?_, ?_⟩
  · intro t
    have hat := h.position t
    rw [htask]
    have hphase : ∀ q, (T.d.core q).phase = (S.d.core q).phase := by
      intro q
      rw [hd]
      exact hs.phase q
    cases hpc : S.task t with
    | idle =>
      rw [hpc] at hat
      exact (hquiet t (by simp [hpc])).trans hat
    | requeued p =>
      rw [hpc] at hat
      exact hat.elim
    | holds p =>
      rw [hpc] at hat
      exact ⟨hflight p hat.1, (hphase p).trans hat.2.1, (hquiet t (by simp [hpc])).trans hat.2.2⟩
    | decode p =>
      rw [hpc] at hat
      exact ⟨hflight p hat.1, (hphase p).trans hat.2.1, (hquiet t (by simp [hpc])).trans hat.2.2⟩
    | encoded p =>
      rw [hpc] at hat
      exact ⟨hflight p hat.1, (hphase p).trans hat.2.1, (hquiet t (by simp [hpc])).trans hat.2.2⟩
    | queued p =>
      rw [hpc] at hat
      exact ⟨(hphase p).trans hat.1, hwait t p (.inl hpc) hat.2⟩
    | receive p =>
      rw [hpc] at hat
      exact ⟨(hphase p).trans hat.1, hwait t p (.inr hpc) hat.2⟩
  · intro t p hp
    rw [htask] at hp
    rw [hd, hs.live]
    exact h.live t p hp
  · rw [htask]
    exact h.distinct
  · intro k p hp
    rw [hbox] at hp
    obtain ⟨h1, h2, h3, h4⟩ := h.boxed k p hp
    rw [htask]
    refine ⟨by rw [hd, hs.live]; exact h1, hflight p h2, ?_, h4⟩
    rw [hd, hs.phase]
    exact h3
  · rw [hbox]
    exact h.box_nodup
  · rw [hbox]
    exact h.box_inj
  · intro p hp
    rw [hd, hs.flight] at hp
    rw [hreq, htask]
    exact h.flight p hp.1
  · rw [hrec]
    exact h.own

/-- **Every step that meets the conditions keeps the owners.** -/
theorem Owners.step (h : Owners base S) {poolsize : Nat → Nat} {a : TaskAct} (hk : Returns S a)
    (hstep : taskStep ticksPerSec poolsize S a = some T) : Owners base T := by
  unfold taskStep at hstep
  split at hstep
  · cases hstep
  rename_i hfault
  have hd : S.d.fault = false := Bool.eq_false_iff.mpr hfault
  cases a with
  | daemon a =>
    simp only at hstep
    split at hstep
    · cases hstep
    · rename_i ha
      obtain ⟨d, hd, rfl⟩ := Option.map_eq_some_iff.mp hstep
      exact h.served (by simpa using ha) hk hd
  | get t k p header =>
    obtain ⟨⟨ht, hp⟩, ⟨⟩⟩ := Option.ite_none_right_eq_some.mp hstep
    exact h.get hd hk ht hp header k
  | create t p srvr header =>
    obtain ⟨⟨ht, hp⟩, ⟨⟩⟩ := Option.ite_none_right_eq_some.mp hstep
    exact h.created hd hk ht hp header none (some srvr)
  | put t =>
    simp only at hstep
    split at hstep
    · rename_i p ht
      split at hstep
      · rename_i k hpool
        cases hstep
        exact h.put hd hk ht poolsize k
      · cases hstep
    · cases hstep
  | destroy t =>
    simp only at hstep
    split at hstep
    · grind [h.destroy, Returns]
    · cases hstep
  | send t srvr ms encodes =>
    simp only at hstep
    split at hstep
    · rename_i p ht
      cases hstep
      exact h.send hd hk ht srvr ms encodes
    · cases hstep
  | queue t =>
    simp only at hstep
    split at hstep
    · rename_i p ht
      cases hstep
      exact h.queue hd hk ht
    · cases hstep
  | wake t =>
    simp only at hstep
    split at hstep
    · rename_i p ht
      cases hstep
      exact h.wake hd hk ht
    · rename_i p ht
      have hat := h.position t
      rw [ht] at hat
      exact hat.elim
    · cases hstep
  | receive t =>
    grind [h.receive]
  | decode t reply encodes =>
    simp only at hstep
    split at hstep
    · rename_i p ht
      cases hstep
      exact h.decode ht hk
    · cases hstep

end Steps

theorem owners_init (ticksPerSec : Nat) (xid : Option Nat) (port : Nat → Nat) :
    Owners (baseOf xid) (initSystem ticksPerSec xid port) where
  paired := by
    refine ⟨sound_init, fun _ => Nat.two_pow_pos 24, ?_, ?_⟩
    · exact ⟨fun _ hp => absurd hp (Multiset.notMem_zero _), fun _ hj => absurd hj (Nat.not_lt_zero _)⟩
    · refine ⟨fun _ _ => rfl, forall_mem_nil _, ?_, forall_mem_nil _⟩
      rintro p (hp | hp)
      · cases hp
      · cases hp
  position _ := rfl
  live _ _ h := by cases h
  distinct _ _ _ h := by cases h
  boxed _ := forall_mem_nil _
  box_nodup _ := nodup_nil
  box_inj _ _ _ h := by cases h
  flight := forall_mem_nil _
  own _ _ h := by cases h

/-- **Transactions are handed over in every run** of tasks and daemon in which XIDs do not wrap
    around, no retransmission fails and no `rpcUdpRcv` queues its transaction again. -/
theorem handedOver_of_run {ticksPerSec : Nat} {poolsize : Nat → Nat} {xid : Option Nat}
    {port : Nat → Nat} {acts : List TaskAct} {S : System}
    (hmeet : StepsMeet (taskStep ticksPerSec poolsize) Returns (initSystem ticksPerSec xid port) acts)
    (hrun : run (taskStep ticksPerSec poolsize) (initSystem ticksPerSec xid port) acts = some S) :
    HandedOver S :=
  (run_invariant_of_meet (fun _ _ _ h hk hst => Owners.step h hk hst) acts _ S
    (owners_init ticksPerSec xid port) hmeet hrun).handedOver

/-- A task gets a transaction, at the address `p` if it is a new one, and sends it; the daemon
    transmits it at the tick `now` and receives the answer to the call `j` one tick later. -/
def callRun (t p j : Nat) (now : Int) : List TaskAct :=
  [.get t 0 p true, .send t 0 10000 true, .queue t, .wake t, .daemon (.kevent false false now),
   .daemon .tx, .daemon .tx, .daemon (.work true), .daemon (.work true), .daemon .insert,
   .daemon .insert, .daemon (.kevent true false (now + 1)), .daemon (.rcv j 2049), .daemon .rcvEnd,
   .daemon (.work true), .daemon .insert, .receive t]

def systemAfter (acts : List TaskAct) : System :=
  (run (taskStep 100 fun _ => 10) (initSystem 100 none fun _ => 2049) acts).getD
    (initSystem 100 none fun _ => 2049)

/-- The first call is denied, the transaction goes back to the pool and another task calls with it. -/
def deniedRun : List TaskAct :=
  callRun 1 4096 0 5 ++ [.decode 1 (.denied .authError) true, .put 1] ++ callRun 2 5120 1 10

theorem handedOver_of_run_deniedRun :
    (systemAfter deniedRun).stat 1 = .autherror ∧ (systemAfter deniedRun).task 2 = .decode 4096 ∧
    (systemAfter deniedRun).received = [(some 1, [1]), (some 0, [0])] ∧
    HandedOver (systemAfter deniedRun) :=
  ⟨by decide, by decide, by decide,
    @handedOver_of_run 100 (fun _ => 10) none (fun _ => 2049) deniedRun _ (by decide) rfl⟩

/-- The answer to the first call has a shorthand credential, which the server rejects in the answer
    to the second one. -/
def refreshRun : List TaskAct :=
  callRun 1 4096 0 5 ++ [.decode 1 (.accepted .success (.short true)) true, .put 1] ++
  callRun 1 5120 1 10 ++ [.decode 1 (.denied .authError) true, .wake 1]

/-- The task puts the transaction back into the pool and makes another call, with a new
    transaction of another pool; it receives the event of the queued one. -/
def staleRun : List TaskAct :=
  refreshRun ++ [.put 1, .get 1 1 8192 true, .send 1 0 10000 true, .queue 1, .wake 1,
    .daemon (.kevent false false 15), .daemon .tx, .daemon .tx, .daemon .tx, .daemon (.work true),
    .daemon (.work true), .daemon (.work true), .daemon .insert, .daemon .insert, .daemon .insert,
    .daemon (.kevent true false 16), .daemon (.rcv 2 2049), .receive 1]

/-- `rpcUdpRcv` returns `RPC_AUTHERROR` with the transaction in the message queue of the daemon, and
    the next call of the task is woken up by its completion. -/
theorem refreshRun_not_handedOver :
    (∃ S, run (taskStep 100 fun _ => 10) (initSystem 100 none fun _ => 2049) refreshRun = some S ∧
      S.task 1 = .holds 4096 ∧ S.stat 1 = .autherror ∧ 4096 ∈ S.d.msgQ ∧ ¬ HandedOver S) ∧
    ∃ S, run (taskStep 100 fun _ => 10) (initSystem 100 none fun _ => 2049) staleRun = some S ∧
      S.task 1 = .decode 8192 ∧ (some 3, [2]) ∈ S.received ∧ ¬ HandedOver S := by
  refine ⟨⟨systemAfter refreshRun, rfl, by decide, by decide, by decide, ?_⟩,
    systemAfter staleRun, rfl, by decide, by decide, ?_⟩
  · intro h
    exact (h.returned 1 4096 (by decide)).1 (by decide)
  · intro h
    obtain ⟨j, hj, hl⟩ := h.own (some 3) [2] (by decide)
    cases hj
    cases hl

end RtemsLibbsd.Rpcio
