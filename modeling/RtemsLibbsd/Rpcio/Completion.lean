import RtemsLibbsd.Rpcio.Loop
import RtemsLibbsd.Rpcio.Tags

/-!
# Completion of calls

Results about the RPC daemon for every interleaving of requestors and daemon, every loss,
duplication and delay of datagrams and every failure of `sendto` that `Kept` allows.

* `Timing` — the order of the timeout queue: when an iteration ends no timer has expired.
* `Expired` — the daemon finished an iteration at a time when the timer of a call had expired;
  **`completes`**: a call gets its event after a bounded number of such iterations.
* `Settled` — one event for each call that the daemon does not own any more, and no transaction
  that matches an answer to it.  **`matching_of_kept`** is the result about whole runs.

The daemon advances the XID when a reply arrives and when a call times out, but not when `sendto`
fails.  After a failed retransmission the answer to the first transmission still finds the
transaction (`lateRun_breaks`).
-/

namespace RtemsLibbsd.Rpcio

open List RtemsLibbsd.Transition

/-- The timeout queue: new messages in front of a sorted rest.  Outside of the timeout loop it is
    sorted, and when the loop is left no timer has expired. -/
structure Timing (s : State) : Prop where
  sorted : ∃ pre rest, s.listHead = pre ++ rest ∧ (∀ p ∈ pre, (s.core p).age ≤ s.now) ∧
    rest.Pairwise (fun p q => (s.core p).age ≤ (s.core q).age) ∧
    (s.pc ≠ .tx → s.pc ≠ .work → pre = [])
  later : s.pc = .insert ∨ s.pc = .wait → ∀ p ∈ s.listHead, s.now < (s.core p).age
  fresh : ∀ p ∈ s.newList, s.now < (s.core p).age

/-- A step that does not touch the queues of the daemon other than adding a message. -/
structure Undisturbed (s t : State) : Prop where
  listHead : t.listHead = s.listHead
  newList : t.newList = s.newList
  pc : t.pc = s.pc
  now : t.now = s.now
  thenTicks : t.thenTicks = s.thenTicks
  iterations : t.iterations = s.iterations
  msgQ : ∀ p ∈ s.msgQ, p ∈ t.msgQ
  txEvent : s.txEvent = true → t.txEvent = true
  age : ∀ p ∈ s.flight, (t.core p).age = (s.core p).age ∧ (t.core p).call = (s.core p).call
  calls : ∀ j < s.ncalls, t.call j = s.call j

section TimingSteps

variable {ticksPerSec : Nat} {base : Nat → Nat} {s : State}

variable {p : Ptr}

theorem undisturbed_create (hs : Sound base s.view) (hp : p ∉ s.live) (header : Bool) :
    Undisturbed s (rpcUdpXactCreate s p header).1 := by
  have hcore : ∀ q ∈ s.flight, (rpcUdpXactCreate s p header).1.core q = s.core q := by
    intro q hq
    refine core_create s p header ?_
    rintro rfl
    exact hp (hs.flight_live q hq)
  have hage : ∀ q ∈ s.flight, ((rpcUdpXactCreate s p header).1.core q).age = (s.core q).age ∧
      ((rpcUdpXactCreate s p header).1.core q).call = (s.core q).call := by
    intro q hq
    rw [hcore q hq]
    exact ⟨rfl, rfl⟩
  unfold rpcUdpXactCreate at hage ⊢
  split
  · rename_i hh
    simp only [hh, if_true] at hage ⊢
    split
    · exact ⟨rfl, rfl, rfl, rfl, rfl, rfl, fun _ h => h, fun h => h, fun _ _ => ⟨rfl, rfl⟩,
        fun _ _ => rfl⟩
    · rename_i i hi
      simp only [hi] at hage
      exact ⟨rfl, rfl, rfl, rfl, rfl, rfl, fun _ h => h, fun h => h, hage, fun _ _ => rfl⟩
  · exact ⟨rfl, rfl, rfl, rfl, rfl, rfl, fun _ h => h, fun h => h, fun _ _ => ⟨rfl, rfl⟩,
      fun _ _ => rfl⟩

theorem undisturbed_sendBegin (hp : p ∉ s.flight) (srvr ms : Nat) (encodes : Bool) :
    Undisturbed s (sendBegin ticksPerSec s p srvr ms encodes) := by
  refine ⟨rfl, rfl, rfl, rfl, rfl, rfl, fun _ h => h, fun h => h, ?_, fun _ _ => rfl⟩
  intro q hq
  have hqp : q ≠ p := by
    rintro rfl
    exact hp hq
  rw [core_sendBegin, upd_ne _ _ hqp]
  exact ⟨rfl, rfl⟩

theorem undisturbed_sendQueue (hp : p ∉ s.flight) : Undisturbed s (sendQueue s p) := by
  have hage : ∀ q ∈ s.flight, ((sendQueue s p).core q).age = (s.core q).age ∧
      ((sendQueue s p).core q).call = (s.core q).call := by
    intro q hq
    have hqp : q ≠ p := by
      rintro rfl
      exact hp hq
    rw [core_sendQueue]
    split <;> (rw [upd_ne _ _ hqp]; exact ⟨rfl, rfl⟩)
  by_cases hroom : s.msgQOpen = true ∧ s.msgQ.length < RPCIOD_QDEPTH
  · rw [sendQueue_room hroom] at hage ⊢
    exact ⟨rfl, rfl, rfl, rfl, rfl, rfl, fun _ h => mem_append_left _ h, fun h => h, hage,
      fun j hj => upd_ne _ _ (Nat.ne_of_lt hj)⟩
  · rw [sendQueue_full hroom] at hage ⊢
    exact ⟨rfl, rfl, rfl, rfl, rfl, rfl, fun _ h => h, fun h => h, hage, fun _ _ => rfl⟩

theorem undisturbed_sendEvent (p : Ptr) : Undisturbed s (sendEvent s p) := by
  refine ⟨rfl, rfl, rfl, rfl, rfl, rfl, fun _ h => h, fun _ => rfl, ?_, fun _ _ => rfl⟩
  intro q _
  rw [core_sendEvent]
  unfold upd
  split
  · rename_i h
    rw [h]
    exact ⟨rfl, rfl⟩
  · exact ⟨rfl, rfl⟩

def Act.ofRequestor : Act → Bool
  | .create _ _ | .destroy _ | .sendBegin _ _ _ _ | .sendQueue _ | .sendEvent _ => true
  | _ => false

variable {t : State}

theorem undisturbed_step (hs : Sound base s.view) {a : Act} (ha : a.ofRequestor = true)
    (h : step ticksPerSec s a = some t) : Undisturbed s t := by
  obtain ⟨-, hspec⟩ := step_spec h
  cases a with
  | create p header =>
    obtain ⟨hp, rfl⟩ := hspec
    exact undisturbed_create hs hp header
  | destroy p =>
    obtain ⟨-, -, rfl⟩ := hspec
    exact ⟨rfl, rfl, rfl, rfl, rfl, rfl, fun _ h => h, fun h => h, fun _ _ => ⟨rfl, rfl⟩,
      fun _ _ => rfl⟩
  | sendBegin p srvr ms encodes =>
    obtain ⟨hown, -, rfl⟩ := hspec
    exact undisturbed_sendBegin (owned_eq_true_iff.mp hown).2 srvr ms encodes
  | sendQueue p =>
    obtain ⟨hown, -, rfl⟩ := hspec
    exact undisturbed_sendQueue (owned_eq_true_iff.mp hown).2
  | sendEvent p =>
    obtain ⟨-, -, rfl⟩ := hspec
    exact undisturbed_sendEvent p
  | _ => cases ha

theorem Timing.undisturbed (ht : Timing s) (h : Undisturbed s t) : Timing t := by
  have hage : ∀ p ∈ s.listHead, (t.core p).age = (s.core p).age := fun p hp =>
    (h.age p (mem_flight_of_listHead hp)).1
  obtain ⟨pre, rest, hl, hpre, hrest, hnil⟩ := ht.sorted
  refine ⟨⟨pre, rest, h.listHead.trans hl, ?_, ?_, h.pc ▸ hnil⟩, ?_, ?_⟩
  · intro p hp
    rw [hage p (hl ▸ mem_append_left _ hp), h.now]
    exact hpre p hp
  · grind [hrest.imp_of_mem]
  · rw [h.pc, h.listHead, h.now]
    intro hpc p hp
    rw [hage p hp]
    exact ht.later hpc p hp
  · rw [h.newList, h.now]
    intro p hp
    rw [(h.age p (mem_flight_of_newList hp)).1]
    exact ht.fresh p hp

variable {l : List Ptr}

theorem Timing.dequeue (ht : Timing s) (hl : s.listHead = p :: l)
    (htl : t.listHead = l) (hage : ∀ q ∈ l, (t.core q).age = (s.core q).age) (hnow : t.now = s.now)
    (hpc : t.pc = .work) (hfresh : ∀ q ∈ t.newList, t.now < (t.core q).age) : Timing t := by
  obtain ⟨pre, rest, happ, hpre, hrest, -⟩ := ht.sorted
  have hpair : ∀ r : List Ptr, (∀ q ∈ r, q ∈ l) → r.Pairwise (fun p q => (s.core p).age ≤ (s.core q).age) →
      r.Pairwise (fun p q => (t.core p).age ≤ (t.core q).age) := by
    intro r hr h
    refine h.imp_of_mem ?_
    intro a b ha hb hle
    rw [hage a (hr a ha), hage b (hr b hb)]
    exact hle
  refine ⟨?_, by simp [hpc], hfresh⟩
  cases pre with
  | nil =>
    grind
  | cons q pre =>
    grind

theorem Timing.finished_head (ht : Timing s) (hpc : s.pc = .work)
    (hl : s.listHead = p :: l) (h : Finished s t p l) : Timing t := by
  refine ht.dequeue hl h.listHead (fun q _ => by rw [h.core]) h.now (h.pc.trans hpc) ?_
  rw [h.newList, h.now, h.core]
  exact ht.fresh

theorem Timing.received (ht : Timing s) {tx : Bool} (hpc : s.pc = .rx tx) (p : Ptr) :
    Timing (received ticksPerSec s p) := by
  have h := finished_received ticksPerSec s p
  obtain ⟨pre, rest, happ, -, hrest, hnil⟩ := ht.sorted
  have hpre := hnil (by simp [hpc]) (by simp [hpc])
  subst hpre
  refine ⟨⟨[], rest.erase p, ?_, forall_mem_nil _, ?_, fun _ _ => rfl⟩, ?_, ?_⟩
  · rw [h.listHead, happ]
    rfl
  · rw [h.core]
    exact hrest.sublist erase_sublist
  · rw [h.pc, hpc]
    simp
  · rw [h.newList, h.now, h.core]
    exact ht.fresh

theorem Timing.txStep (ht : Timing s) (hs : Sound base s.view) (hq : Flow s) (hpc : s.pc = .tx) :
    Timing (txStep s) := by
  have hnil := hq.newList_nil (by simp [hpc]) (by simp [hpc])
  obtain ⟨pre, rest, happ, hpre, hrest, -⟩ := ht.sorted
  cases hm : s.msgQ with
  | nil =>
    have hw : Rpcio.txStep s = { s with pc := .work } := by
      unfold Rpcio.txStep
      rw [hm]
    rw [hw]
    exact ⟨⟨pre, rest, happ, hpre, hrest, fun _ h => absurd rfl h⟩, by simp, ht.fresh⟩
  | cons p msgs =>
    have hage : ∀ q ∈ s.listHead, ((Rpcio.txStep s).core q).age = (s.core q).age := by
      intro q hql
      have hqp : q ≠ p := (hs.msgQ_listHead (hm ▸ mem_cons_self) hql).symm
      rw [core_txStep s p hm, upd_ne _ _ hqp]
    have hfix : (Rpcio.txStep s).listHead = p :: s.listHead ∧ (Rpcio.txStep s).pc = .tx ∧
        (Rpcio.txStep s).newList = [] ∧ (Rpcio.txStep s).now = s.now := by
      unfold Rpcio.txStep
      rw [hm]
      exact ⟨rfl, hpc, hnil, rfl⟩
    obtain ⟨hlist, hpc', hnew, hnow⟩ := hfix
    refine ⟨⟨p :: pre, rest, ?_, ?_, ?_, fun h => absurd hpc' h⟩, ?_, ?_⟩
    · rw [hlist, happ]
      rfl
    · intro q hqm
      rw [hnow]
      rcases mem_cons.mp hqm with rfl | hqm
      · rw [core_txStep s q hm, upd_self]
      · rw [hage q (happ ▸ mem_append_left _ hqm)]
        exact hpre q hqm
    · grind [hrest.imp_of_mem]
    · rw [hpc']
      simp
    · rw [hnew]
      intro _ h
      cases h

theorem Timing.leave (ht : Timing s)
    (hhead : ∀ p rest, s.listHead = p :: rest → s.now < (s.core p).age) :
    Timing { s with pc := .insert } := by
  obtain ⟨pre, rest, happ, hpre, hrest, -⟩ := ht.sorted
  cases pre with
  | cons q pre =>
    have h1 := hhead q (pre ++ rest) happ
    have h2 := hpre q mem_cons_self
    omega
  | nil =>
    refine ⟨⟨[], rest, happ, forall_mem_nil _, hrest, fun _ _ => rfl⟩, ?_, ht.fresh⟩
    rintro - q hq
    cases rest with
    | nil =>
      rw [show ({ s with pc := .insert } : State).listHead = [] from happ] at hq
      cases hq
    | cons p rest =>
      have h1 := hhead p rest happ
      rw [show ({ s with pc := .insert } : State).listHead = p :: rest from happ] at hq
      rcases mem_cons.mp hq with rfl | hq
      · exact h1
      · exact lt_of_lt_of_le h1 (rel_of_pairwise_cons hrest hq)

theorem Timing.sent (ht : Timing s) (hs : Sound base s.view) (hpc : s.pc = .work) (hl : s.listHead = p :: l)
    (hperiod : 1 ≤ @period ticksPerSec s p) :
    Timing (sent ticksPerSec { s with listHead := l } p) := by
  have hcore := @core_sent ticksPerSec { s with listHead := l } p
  have hnodup : s.flight.Nodup := Multiset.coe_nodup.mp hs.flight_nodup
  have hlist := (nodup_append.mp hnodup).2.1
  rw [hl] at hlist
  have hp : p ∉ l ++ s.newList := (nodup_cons.mp hlist).1
  have hne : ∀ q ∈ l ++ s.newList, q ≠ p := by
    rintro q hq rfl
    exact hp hq
  refine ht.dequeue hl rfl ?_ rfl hpc ?_
  · intro q hq
    rw [hcore, upd_ne _ _ (hne q (mem_append_left _ hq))]
    rfl
  · intro q hq
    rw [hcore]
    rcases mem_cons.mp hq with rfl | hq
    · rw [upd_self]
      show s.now < s.now + @period ticksPerSec s q
      omega
    · rw [upd_ne _ _ (hne q (mem_append_right _ hq))]
      exact ht.fresh q hq

theorem insertByAge_sorted (age : Ptr → Int) (p : Ptr) : ∀ {l : List Ptr},
    l.Pairwise (fun p q => age p ≤ age q) →
    (insertByAge age p l).Pairwise (fun p q => age p ≤ age q)
  | [], _ => pairwise_singleton _ _
  | n :: ns, h => by
    obtain ⟨hn, hns⟩ := pairwise_cons.mp h
    unfold insertByAge
    split
    · refine pairwise_cons.mpr ⟨?_, insertByAge_sorted age p hns⟩
      intro q hq
      rcases mem_cons.mp ((insertByAge_perm age p ns).mem_iff.mp hq) with rfl | hq
      · omega
      · exact hn q hq
    · refine pairwise_cons.mpr ⟨?_, h⟩
      intro q hq
      rcases mem_cons.mp hq with rfl | hq
      · omega
      · have := hn q hq
        omega

theorem Timing.insertStep (ht : Timing s) (hpc : s.pc = .insert) :
    Timing (insertStep ticksPerSec s) := by
  obtain ⟨pre, rest, happ, -, hrest, hnil⟩ := ht.sorted
  have hpre := hnil (by simp [hpc]) (by simp [hpc])
  subst hpre
  have hlater := ht.later (.inl hpc)
  cases hn : s.newList with
  | cons p news =>
    have ht' : Rpcio.insertStep ticksPerSec s = { s with
        newList := news
        listHead := insertByAge (fun q => (s.xact q).age) p s.listHead } := by
      unfold Rpcio.insertStep
      rw [hn]
    rw [ht']
    refine ⟨⟨[], _, rfl, forall_mem_nil _, ?_, fun _ _ => rfl⟩, ?_, ?_⟩
    · rw [happ]
      exact insertByAge_sorted _ p hrest
    · rintro - q hq
      rcases mem_cons.mp ((insertByAge_perm _ p s.listHead).mem_iff.mp hq) with rfl | hq
      · exact ht.fresh q (hn ▸ mem_cons_self)
      · exact hlater q hq
    · intro q hq
      exact ht.fresh q (hn ▸ mem_cons_of_mem _ hq)
  | nil =>
    have ht' : Rpcio.insertStep ticksPerSec s =
        { readjust ticksPerSec s with pc := .wait, iterations := s.iterations + 1 } := by
      unfold Rpcio.insertStep
      rw [hn]
    have hfix : (readjust ticksPerSec s).listHead = s.listHead ∧
        (readjust ticksPerSec s).newList = s.newList ∧
        (readjust ticksPerSec s).thenTicks + (readjust ticksPerSec s).now =
          s.thenTicks + s.now := by
      unfold readjust
      split
      · exact ⟨rfl, rfl, add_zero _⟩
      · exact ⟨rfl, rfl, rfl⟩
    obtain ⟨hlist, hnew, hclock⟩ := hfix
    have hage : ∀ q ∈ s.listHead, ((Rpcio.insertStep ticksPerSec s).core q).age =
        s.thenTicks + (s.core q).age - (readjust ticksPerSec s).thenTicks := by
      intro q hq
      rw [ht']
      exact congrArg Core.age (core_readjust s q hq)
    refine ⟨⟨[], rest, ?_, forall_mem_nil _, ?_, fun _ _ => rfl⟩, ?_, ?_⟩
    · rw [ht']
      exact hlist.trans happ
    · grind [hrest.imp_of_mem]
    · rintro - q hq
      grind
    · intro q hq
      grind

/-- **The order of the timeout queue is kept by every step.** -/
theorem Timing.step (ht : Timing s) (hq : Flow s) (hs : Sound base s.view) {a : Act}
    (hperiod : a = .work true → ∀ p rest, s.listHead = p :: rest → (s.core p).age ≤ s.now →
      0 ≤ (s.core p).tolive → 1 ≤ @period ticksPerSec s p)
    (h : step ticksPerSec s a = some t) : Timing t := by
  cases hr : a.ofRequestor with
  | true => exact ht.undisturbed (undisturbed_step hs hr h)
  | false =>
    obtain ⟨-, hspec⟩ := step_spec h
    cases a with
    | kevent rx kill unow =>
      obtain ⟨hpc, -, rfl⟩ := hspec
      obtain ⟨pre, rest, happ, -, hrest, hnil⟩ := ht.sorted
      have hpre := hnil (by simp [hpc]) (by simp [hpc])
      subst hpre
      have hnew := hq.newList_nil (by simp [hpc]) (by simp [hpc])
      unfold kevent
      split
      · exact ⟨⟨[], rest, happ, forall_mem_nil _, hrest, fun _ _ => rfl⟩, by simp, ht.fresh⟩
      · refine ⟨⟨[], rest, happ, forall_mem_nil _, hrest, fun _ _ => rfl⟩, ?_, ?_⟩
        · cases rx <;> cases s.txEvent <;> simp
        · show ∀ p ∈ s.newList, _
          rw [hnew]
          intro _ h
          cases h
    | rcv j port =>
      obtain ⟨⟨tx, hpc⟩, -, -, rfl⟩ := hspec
      rcases @rcv_eq ticksPerSec s j port with h | h | ⟨p, -, h⟩
      · rw [h]
        exact ht
      · rw [h]
        exact ⟨ht.sorted, ht.later, ht.fresh⟩
      · rw [h]
        exact ht.received hpc p
    | rcvEnd =>
      obtain ⟨tx, hpc, rfl⟩ := hspec
      obtain ⟨pre, rest, happ, hpre, hrest, hnil⟩ := ht.sorted
      have hpre' := hnil (by simp [hpc]) (by simp [hpc])
      refine ⟨⟨pre, rest, happ, hpre, hrest, fun _ _ => hpre'⟩, ?_, ht.fresh⟩
      cases tx <;> simp [rcvEnd]
    | tx =>
      obtain ⟨hpc, rfl⟩ := hspec
      exact ht.txStep hs hq hpc
    | work sends =>
      obtain ⟨hpc, rfl⟩ := hspec
      rcases work_cases ticksPerSec s sends with ⟨h, hhead⟩ | ⟨p, rest, hl, hage, hw⟩
      · rw [h]
        exact ht.leave hhead
      · rcases hw with ⟨-, h⟩ | ⟨hlive, rfl, h⟩ | ⟨-, -, h⟩
        · rw [h]
          exact ht.finished_head hpc hl (finished_timedOut s p rest)
        · rw [h]
          exact ht.sent hs hpc hl (hperiod rfl p rest hl hage hlive)
        · rw [h]
          exact ht.finished_head hpc hl (finished_sendFailed s p rest)
    | insert =>
      obtain ⟨hpc, rfl⟩ := hspec
      exact ht.insertStep hpc
    | _ => cases hr

end TimingSteps

/-- If `sendto` fails now, it fails for a call that was never transmitted. -/
def NeverSent (s : State) : Prop :=
  match s.listHead with
  | [] => True
  | p :: _ => (s.xact p).age ≤ s.now → 0 ≤ (s.xact p).tolive →
      ∀ j ∈ (s.xact p).call, (s.call j).sends = 0

instance (s : State) : Decidable (NeverSent s) := by
  unfold NeverSent
  split <;> infer_instance

/-- The transaction that a datagram finds has a round trip time that fits. -/
def TripFits (s : State) (j port : Nat) : Prop :=
  match sockRcv s (s.call j).xid port with
  | .found p => AverageFits s p
  | _ => True

instance (s : State) (j port : Nat) : Decidable (TripFits s j port) := by
  unfold TripFits
  split <;> infer_instance

/-- The steps for which the daemon keeps calls and replies matched: XIDs do not wrap around, the
    average of the retry period does not, no retransmission fails, and no reply meets a transaction
    that was never sent. -/
def Kept (s : State) : Act → Prop
  | .work sends => BelowWrap s ∧ (sends = false → NeverSent s)
  | .rcv j port => BelowWrap s ∧ TripFits s j port ∧ Addressed s (s.call j).xid
  | _ => BelowWrap s

instance (s : State) (a : Act) : Decidable (Kept s a) := by
  unfold Kept
  split <;> infer_instance

/-- The steps after which no completed call has an XID that is still in use: XIDs do not wrap
    around and no retransmission fails. -/
def XidRetired (s : State) : Act → Prop
  | .work sends => BelowWrap s ∧ (sends = false → NeverSent s)
  | _ => BelowWrap s

instance (s : State) (a : Act) : Decidable (XidRetired s a) := by
  unfold XidRetired
  split <;> infer_instance

theorem XidRetired.belowWrap {s : State} {a : Act} (h : XidRetired s a) : BelowWrap s := by
  unfold XidRetired at h
  split at h
  · exact h.1
  · exact h

theorem Kept.xidRetired {s : State} {a : Act} (h : Kept s a) : XidRetired s a := by
  cases a with
  | work sends => exact h
  | rcv j port => exact h.1
  | _ => exact h

/-- Calls, slots and queues: the invariants of the daemon that do not depend on its timers. -/
structure Paired (base : Nat → Nat) (s : State) : Prop where
  sound : Sound base s.view
  bounded : Bounded s.view
  matched : Matched s.view
  queues : Queues s

structure Inv (base : Nat → Nat) (s : State) : Prop where
  sound : Sound base s.view
  bounded : Bounded s.view
  matched : Matched s.view
  queues : Queues s
  budget : Budget s
  timing : Timing s
  fault : s.fault = false

section Runs

variable {ticksPerSec : Nat} {base : Nat → Nat} {s t : State}

variable {a : Act}

theorem Paired.matched_step (hi : Paired base s) (hk : XidRetired s a)
    (h : step ticksPerSec s a = some t) : Matched t.view := by
  obtain ⟨e, he, hv, hc⟩ := step_event h
  obtain ⟨-, hspec⟩ := step_spec h
  rw [hv]
  refine hi.matched.event hi.sound hi.bounded he ?_ ?_
  · rintro p j rfl hj
    obtain ⟨rfl, rest, hl, hage, hlive⟩ := hc
    have hns := hk.2 rfl
    unfold NeverSent at hns
    rw [hl] at hns
    exact hns hage hlive j hj
  · rintro p j listed rfl hp hj
    obtain ⟨rfl, port, rfl, hfound⟩ := hc
    obtain ⟨⟨tx, hpc⟩, hjn, hsends, -⟩ := hspec
    rcases @Queues.rcv_cases ticksPerSec _ _ hi.queues hi.sound hi.matched hi.bounded tx hpc j port hjn
      hsends with ⟨hdrop, -⟩ | ⟨hnull, -⟩ | ⟨q, hq, -, hfound', -⟩
    · rw [hfound] at hdrop
      cases hdrop
    · rw [hfound] at hnull
      cases hnull
    · rw [hfound] at hfound'
      cases hfound'
      exact decide_eq_true hq

/-- **Calls and replies stay paired** in a step that retires the XID of the call it completes. -/
theorem Paired.step (hi : Paired base s) (hk : XidRetired s a)
    (h : step ticksPerSec s a = some t) : Paired base t := by
  have hbounded : Bounded t.view := by
    obtain ⟨e, he, hv, -⟩ := step_event h
    rw [hv]
    exact bounded_event hi.sound hi.bounded hk.belowWrap he
  exact ⟨sound_step hi.sound h, hbounded, hi.matched_step hk h, hi.queues.step hi.sound hi.matched h⟩

theorem Inv.paired (hi : Inv base s) : Paired base s :=
  ⟨hi.sound, hi.bounded, hi.matched, hi.queues⟩

theorem Inv.step (hi : Inv base s) (hticks : 0 < ticksPerSec) (hle : ticksPerSec ≤ 10 ^ 6)
    (hk : Kept s a) (h : step ticksPerSec s a = some t) : Inv base t := by
  obtain ⟨hsound, hbounded, hmatched, hqueues⟩ := hi.paired.step hk.xidRetired h
  have hfault : t.fault = false := by
    refine hi.queues.no_fault hi.sound hi.matched hi.bounded h ?_
    rintro j port rfl
    exact hk.2.2
  have hperiod : a = .work true → ∀ p rest, s.listHead = p :: rest → (s.core p).age ≤ s.now →
      0 ≤ (s.core p).tolive → 1 ≤ @period ticksPerSec s p := by
    intro _ p rest hl _ _
    have hp : p ∈ s.flight := mem_flight_of_listHead (hl ▸ mem_cons_self)
    exact one_le_period hle (hi.budget.retry _) (hi.queues.served p (.inl hp)).2
  refine ⟨hsound, hbounded, hmatched, hqueues, ?_,
    hi.timing.step hi.queues.flow hi.sound hperiod h, hfault⟩
  refine hi.budget.step hi.queues hi.sound hi.matched hi.bounded hticks hle h ?_
  rintro j port p rfl hfound
  have hfits := hk.2.1
  unfold TripFits at hfits
  rw [hfound] at hfits
  exact hfits

theorem inv_init (hticks : 0 < ticksPerSec) (xid : Option Nat) (port : Nat → Nat) :
    Inv (baseOf xid) (init ticksPerSec xid port) where
  sound := sound_init
  bounded _ := Nat.two_pow_pos 24
  matched := ⟨fun _ hp => absurd hp (Multiset.notMem_zero _), fun _ hj => absurd hj (Nat.not_lt_zero _)⟩
  queues := by
    refine ⟨fun _ _ => rfl, forall_mem_nil _, ?_, forall_mem_nil _⟩
    rintro p (hp | hp)
    · cases hp
    · cases hp
  budget := by
    refine ⟨?_, forall_mem_nil _, fun _ hj => absurd hj (Nat.not_lt_zero _), ?_⟩
    · intro p h
      cases h
    intro n
    show 0 < RPCIOD_RETX_CAP_S * ticksPerSec
    exact Nat.mul_pos (by decide) hticks
  timing := ⟨⟨[], [], rfl, forall_mem_nil _, List.Pairwise.nil, fun _ _ => rfl⟩,
    fun _ => forall_mem_nil _, forall_mem_nil _⟩
  fault := rfl

variable {acts : List Act}

theorem inv_of_run (hticks : 0 < ticksPerSec) (hle : ticksPerSec ≤ 10 ^ 6)
    (hi : Inv base s) (hok : StepsMeet (Rpcio.step ticksPerSec) Kept s acts)
    (hrun : run (Rpcio.step ticksPerSec) s acts = some t) : Inv base t :=
  run_invariant_of_meet (fun _ _ _ hi hk hst => hi.step hticks hle hk hst) acts s t hi hok hrun

/-- What the clock of the daemon reads in the current iteration. -/
def State.clock (s : State) : Int := s.thenTicks + s.now

theorem clock_step (h : Rpcio.step ticksPerSec s a = some t) (hs : Sound base s.view) :
    s.clock ≤ t.clock := by
  cases hr : a.ofRequestor with
  | true =>
    have hu := undisturbed_step hs hr h
    unfold State.clock
    rw [hu.thenTicks, hu.now]
  | false =>
    obtain ⟨-, hspec⟩ := step_spec h
    cases a with
    | kevent rx kill unow =>
      obtain ⟨-, hle, rfl⟩ := hspec
      grind [kevent, State.clock]
    | rcv j port =>
      obtain ⟨-, -, -, rfl⟩ := hspec
      unfold rcv
      split
      · exact le_rfl
      · exact le_rfl
      · exact le_rfl
    | rcvEnd =>
      obtain ⟨tx, -, rfl⟩ := hspec
      exact le_rfl
    | tx =>
      obtain ⟨-, rfl⟩ := hspec
      unfold txStep
      split <;> exact le_rfl
    | work sends =>
      obtain ⟨-, rfl⟩ := hspec
      rcases work_cases ticksPerSec s sends with ⟨h, -⟩ | ⟨p, rest, -, -, ⟨-, h⟩ | ⟨-, -, h⟩ | ⟨-, -, h⟩⟩
      all_goals
        rw [h]
        exact le_rfl
    | insert =>
      obtain ⟨-, rfl⟩ := hspec
      grind [insertStep, readjust, State.clock]
    | _ => cases hr

/-- The daemon has been told about the message queue and will look at it in this iteration. -/
def State.told (s : State) : Prop :=
  (s.pc = .wait ∧ s.txEvent = true) ∨ s.pc = .rx true ∨ s.pc = .tx

/-- The call `j` is due before the clock reads `c`: it is completed or was transmitted more than
    `n` times, or its timer expires until then, or it is a message that iteration `i` takes. -/
def Due (j n i : Nat) (c : Int) (s : State) : Prop :=
  0 < (s.call j).done ∨ n < (s.call j).sends ∨
  (n ≤ (s.call j).sends ∧ ∃ p, (s.core p).call = some j ∧
    ((p ∈ s.listHead ∧ s.thenTicks + (s.core p).age ≤ c) ∨
     (p ∈ s.msgQ ∧ s.iterations = i ∧ s.told)))

variable {j n i : Nat} {c : Int}

theorem Due.finished (hd : Due j n i c s) {l : List Ptr} {q : Ptr}
    (h : Finished s t q l) (hl : ∀ p ∈ s.listHead, p ≠ q → p ∈ l) : Due j n i c t := by
  rcases hd with hd | hd | ⟨hn, p, hc, hp⟩
  · exact .inl (lt_of_lt_of_le hd (h.done_le j))
  · refine .inr (.inl ?_)
    rw [(h.calls j).1]
    exact hd
  · rcases eq_or_ne p q with rfl | hpq
    · exact .inl (h.event j hc)
    · refine .inr (.inr ⟨(h.calls j).1 ▸ hn, p, ?_, ?_⟩)
      · rw [h.core]
        exact hc
      · rcases hp with ⟨hp, hage⟩ | ⟨hp, hit, htold⟩
        · left
          rw [h.listHead, h.thenTicks, h.core]
          exact ⟨hl p hp hpq, hage⟩
        · grind [h.msgQ, h.iterations, State.told, h.pc, h.txEvent]

theorem Due.undisturbed (hd : Due j n i c s) (hj : j < s.ncalls)
    (h : Undisturbed s t) : Due j n i c t := by
  grind [Due, h.calls, h.age, mem_flight_of_listHead, h.listHead, h.thenTicks, mem_flight_of_msgQ, h.iterations,
    h.msgQ, State.told, h.pc, h.txEvent]

theorem Due.kevent (hd : Due j n i c s) (hs : Sound base s.view) (hpc : s.pc = .wait) (rx kill : Bool)
    (unow : Int) : Due j n i c (kevent s rx kill unow) := by
  rcases hd with hd | hd | ⟨hn, p, hc, hp⟩
  · unfold Rpcio.kevent
    split <;> exact .inl hd
  · unfold Rpcio.kevent
    split <;> exact .inr (.inl hd)
  · have hflight : p ∈ s.flight := by
      rcases hp with ⟨hp, -⟩ | ⟨hp, -⟩
      · exact mem_flight_of_listHead hp
      · exact mem_flight_of_msgQ hp
    unfold Rpcio.kevent
    split
    · rename_i hk
      rw [hs.flight_nil hk.2] at hflight
      cases hflight
    · refine .inr (.inr ⟨hn, p, hc, ?_⟩)
      refine hp.imp (fun h => h) ?_
      rintro ⟨hp, hit, htold⟩
      grind [State.told]

theorem Due.txStep (hd : Due j n i c s) (hpc : s.pc = .tx) (hc : s.clock ≤ c) :
    Due j n i c (txStep s) := by
  cases hm : s.msgQ with
  | nil =>
    have hw : Rpcio.txStep s = { s with pc := .work } := by
      unfold Rpcio.txStep
      rw [hm]
    rw [hw]
    rcases hd with hd | hd | ⟨hn, p, hcall, hp | ⟨hp, -⟩⟩
    · exact .inl hd
    · exact .inr (.inl hd)
    · exact .inr (.inr ⟨hn, p, hcall, .inl hp⟩)
    · rw [hm] at hp
      cases hp
  | cons q msgs =>
    have hcore := core_txStep s q hm
    have hfix : (Rpcio.txStep s).call = s.call ∧ (Rpcio.txStep s).listHead = q :: s.listHead ∧
        (Rpcio.txStep s).msgQ = msgs ∧ (Rpcio.txStep s).pc = .tx ∧
        (Rpcio.txStep s).iterations = s.iterations ∧
        (Rpcio.txStep s).thenTicks = s.thenTicks := by
      unfold Rpcio.txStep
      rw [hm]
      exact ⟨rfl, rfl, rfl, hpc, rfl, rfl⟩
    obtain ⟨hcalls, hlist, hmsg, hpc', hit', hthen⟩ := hfix
    unfold Due
    rw [hcalls, hlist, hmsg, hit', hthen, hcore]
    rcases hd with hd | hd | ⟨hn, p, hcall, hp⟩
    · exact .inl hd
    · exact .inr (.inl hd)
    · refine .inr (.inr ⟨hn, p, ?_⟩)
      rcases eq_or_ne p q with rfl | hpq
      · rw [upd_self]
        exact ⟨hcall, .inl ⟨mem_cons_self, hc⟩⟩
      · rw [upd_ne _ _ hpq]
        refine ⟨hcall, ?_⟩
        rcases hp with ⟨hp, hage⟩ | ⟨hp, hit, -⟩
        · exact .inl ⟨mem_cons_of_mem _ hp, hage⟩
        · rw [hm] at hp
          exact .inr ⟨(mem_cons.mp hp).resolve_left hpq, hit, .inr (.inr hpc')⟩

theorem Due.sent (hd : Due j n i c s) (ht : Tagged s.view) {q : Ptr} {l : List Ptr}
    (hl : s.listHead = q :: l) (hpc : s.pc = .work) :
    Due j n i c (sent ticksPerSec { s with listHead := l } q) := by
  have hq : q ∈ s.flight := mem_flight_of_listHead (hl ▸ mem_cons_self)
  obtain ⟨k, hck⟩ := ht.carries q hq
  have hck' : (s.xact q).call = some k := hck
  have hcall : (Rpcio.sent ticksPerSec { s with listHead := l } q).call =
      upd s.call k { s.call k with sends := (s.call k).sends + 1 } := by
    show upd s.call ((s.xact q).call.getD 0) _ = _
    rw [hck']
    rfl
  have hcore := @core_sent ticksPerSec { s with listHead := l } q
  unfold Due
  rw [hcall, hcore]
  rcases eq_or_ne j k with rfl | hjk
  · rw [upd_self]
    rcases hd with hd | hd | ⟨hn, -⟩
    · exact .inl hd
    · exact .inr (.inl (Nat.lt_succ_of_lt hd))
    · exact .inr (.inl (Nat.lt_succ_of_le hn))
  · rw [upd_ne _ _ hjk]
    rcases hd with hd | hd | ⟨hn, p, hc, hp | ⟨-, -, htold⟩⟩
    · exact .inl hd
    · exact .inr (.inl hd)
    · have hpq : p ≠ q := by
        rintro rfl
        exact hjk (Option.some.inj (hc.symm.trans hck))
      refine .inr (.inr ⟨hn, p, ?_⟩)
      rw [upd_ne _ _ hpq]
      refine ⟨hc, .inl ⟨?_, hp.2⟩⟩
      have := hp.1
      rw [hl] at this
      exact (mem_cons.mp this).resolve_left hpq
    · unfold State.told at htold
      simp [hpc] at htold

theorem Due.insertStep (hd : Due j n i c s) (hpc : s.pc = .insert) :
    Due j n i c (insertStep ticksPerSec s) := by
  have hcall : (Rpcio.insertStep ticksPerSec s).call = s.call :=
    congrArg View.call (@view_insertStep ticksPerSec s)
  unfold Due
  rw [hcall]
  rcases hd with hd | hd | ⟨hn, p, hc, hp | ⟨-, -, htold⟩⟩
  · exact .inl hd
  · exact .inr (.inl hd)
  · refine .inr (.inr ⟨hn, p, ?_⟩)
    unfold Rpcio.insertStep
    split
    · have hcore := @core_readjust ticksPerSec s p hp.1
      have hlist : (readjust ticksPerSec s).listHead = s.listHead := by
        unfold readjust
        split <;> rfl
      show ((readjust ticksPerSec s).core p).call = _ ∧ ((p ∈ (readjust ticksPerSec s).listHead ∧
        (readjust ticksPerSec s).thenTicks + ((readjust ticksPerSec s).core p).age ≤ c) ∨ _)
      grind
    · rename_i q news hnew
      exact ⟨hc, .inl ⟨(insertByAge_perm _ q s.listHead).mem_iff.mpr
        (mem_cons_of_mem _ hp.1), hp.2⟩⟩
  · unfold State.told at htold
    simp [hpc] at htold

/-- **A due call stays due** until the clock reads `c`. -/
theorem Due.step (hd : Due j n i c s) (hs : Sound base s.view) (ht : Tagged s.view)
    (hj : j < s.ncalls) (hc : s.clock ≤ c) (h : Rpcio.step ticksPerSec s a = some t) : Due j n i c t := by
  cases hr : a.ofRequestor with
  | true => exact hd.undisturbed hj (undisturbed_step hs hr h)
  | false =>
    obtain ⟨-, hspec⟩ := step_spec h
    cases a with
    | kevent rx kill unow =>
      obtain ⟨hpc, -, rfl⟩ := hspec
      exact hd.kevent hs hpc rx kill unow
    | rcv k port =>
      obtain ⟨-, -, -, rfl⟩ := hspec
      rcases @rcv_eq ticksPerSec s k port with h | h | ⟨q, -, h⟩
      · rw [h]
        exact hd
      · rw [h]
        exact hd
      · grind [hd.finished, finished_received]
    | rcvEnd =>
      obtain ⟨tx, hpc, rfl⟩ := hspec
      rcases hd with hd | hd | ⟨hn, p, hcall, hp | ⟨hp, hit, htold⟩⟩
      · exact .inl hd
      · exact .inr (.inl hd)
      · exact .inr (.inr ⟨hn, p, hcall, .inl hp⟩)
      · refine .inr (.inr ⟨hn, p, hcall, .inr ⟨hp, hit, ?_⟩⟩)
        unfold State.told at htold ⊢
        simp only [hpc] at htold
        simp only [reduceCtorEq, false_and, Pc.rx.injEq, or_false, false_or] at htold
        rw [htold]
        exact .inr (.inr rfl)
    | tx =>
      obtain ⟨hpc, rfl⟩ := hspec
      exact hd.txStep hpc hc
    | work sends =>
      obtain ⟨hpc, rfl⟩ := hspec
      rcases work_cases ticksPerSec s sends with ⟨h, -⟩ | ⟨q, l, hl, -, hw⟩
      · rw [h]
        rcases hd with hd | hd | ⟨hn, p, hcall, hp | ⟨-, -, htold⟩⟩
        · exact .inl hd
        · exact .inr (.inl hd)
        · exact .inr (.inr ⟨hn, p, hcall, .inl hp⟩)
        · unfold State.told at htold
          simp [hpc] at htold
      · grind [hd.finished, finished_timedOut, hd.sent, finished_sendFailed]
    | insert =>
      obtain ⟨hpc, rfl⟩ := hspec
      exact hd.insertStep hpc
    | _ => cases hr

theorem ncalls_step (h : Rpcio.step ticksPerSec s a = some t) : s.ncalls ≤ t.ncalls := by
  obtain ⟨e, -, hv, -⟩ := step_event h
  show s.view.ncalls ≤ t.view.ncalls
  rw [hv]
  cases e with
  | accept p lifetime => exact Nat.le_succ _
  | _ => exact le_rfl

theorem clock_of_run : ∀ (acts : List Act) {s : State}, Sound base s.view →
    run (Rpcio.step ticksPerSec) s acts = some t → s.clock ≤ t.clock
  | [], s, _, h => by
    cases h
    exact le_rfl
  | a :: acts, s, hs, h => by
    obtain ⟨m, hm, h⟩ := run_cons.mp h
    exact (clock_step hm hs).trans (clock_of_run acts (sound_step hs hm) h)

theorem due_of_run : ∀ (acts : List Act) {s : State}, Sound base s.view → Tagged s.view → j < s.ncalls →
    run (Rpcio.step ticksPerSec) s acts = some t → Due j n i t.clock s → Due j n i t.clock t
  | [], s, _, _, _, h, hd => by
    cases h
    exact hd
  | a :: acts, s, hs, ht, hj, h, hd => by
    have hc := clock_of_run (a :: acts) hs h
    obtain ⟨m, hm, h⟩ := run_cons.mp h
    exact due_of_run acts (sound_step hs hm) (tagged_step hs ht hm) (hj.trans_le (ncalls_step hm)) h
      (hd.step hs ht hj hc hm)

/-- The record of a call keeps its lifetime and only counts up. -/
structure Grows (j : Nat) (v w : View) : Prop where
  ncalls : v.ncalls ≤ w.ncalls
  lifetime : (w.call j).lifetime = (v.call j).lifetime
  sends : (v.call j).sends ≤ (w.call j).sends
  done : (v.call j).done ≤ (w.call j).done

theorem grows_complete (v : View) (p : Ptr) : Grows j v (v.complete p) := by
  unfold View.complete
  cases hc : v.callOf p with
  | none => exact ⟨le_rfl, rfl, le_rfl, le_rfl⟩
  | some k =>
    rcases eq_or_ne j k with rfl | hjk
    · exact ⟨le_rfl, by simp, by simp, by simp⟩
    · exact ⟨le_rfl, by simp [hjk], by simp [hjk], by simp [hjk]⟩

theorem grows_event {v : View} (hj : j < v.ncalls) (e : Event) : Grows j v (v.apply e) := by
  have hcomplete : ∀ (u : View) (p : Ptr) (w : View), u.call = v.call → u.ncalls = v.ncalls →
      w.call = (u.complete p).call → w.ncalls = v.ncalls → Grows j v w := by
    intro u p w hu hn hw hwn
    have h := grows_complete (j := j) u p
    exact ⟨hwn ▸ le_rfl, by rw [hw, h.lifetime, hu], by rw [hw, ← hu]; exact h.sends,
      by rw [hw, ← hu]; exact h.done⟩
  cases e with
  | accept p lifetime =>
    have h := @call_accept_old v p lifetime j (Nat.ne_of_lt hj)
    exact ⟨Nat.le_succ _, by rw [h], by rw [h], by rw [h]⟩
  | sent p =>
    rcases eq_or_ne j ((v.callOf p).getD 0) with h | h
    · exact ⟨le_rfl, by simp [View.apply, ← h], by simp [View.apply, ← h], by simp [View.apply, ← h]⟩
    · exact ⟨le_rfl, by simp [View.apply, h], by simp [View.apply, h], by simp [View.apply, h]⟩
  | timedOut p => exact hcomplete (v.advance p) p _ rfl rfl rfl rfl
  | failed p => exact hcomplete { v with failed := upd v.failed p true } p _ rfl rfl rfl rfl
  | answered p k listed => exact hcomplete (v.advance p) p _ rfl rfl rfl rfl
  | _ => exact ⟨le_rfl, rfl, le_rfl, le_rfl⟩

theorem grows_of_run (hj : j < s.ncalls)
    (hrun : run (Rpcio.step ticksPerSec) s acts = some t) : Grows j s.view t.view := by
  refine @run_invariant _ _ _ (fun u => Grows j s.view u.view) ?_ acts s t
    ⟨le_rfl, rfl, le_rfl, le_rfl⟩ hrun
  intro u a w hu hw
  obtain ⟨e, -, hv, -⟩ := step_event hw
  have h := grows_event (Nat.lt_of_lt_of_le hj hu.ncalls) e
  rw [hv]
  exact ⟨hu.ncalls.trans h.ncalls, h.lifetime.trans hu.lifetime, hu.sends.trans h.sends,
    hu.done.trans h.done⟩

/-- From `s` to `t` the daemon finished an iteration, at a time when the timer of the call `j` had
    expired; the requestor has sent its wake-up. -/
structure Expired (j : Nat) (s t : State) : Prop where
  start : s.pc = .wait
  stop : t.pc = .wait
  iterations : s.iterations < t.iterations
  woken : ∀ p ∈ s.msgQ, (s.xact p).call = some j → (s.xact p).phase ≠ .queued
  expired : ∀ p ∈ s.listHead, (s.xact p).call = some j → s.thenTicks + (s.xact p).age ≤ t.clock

theorem Expired.progress (hexp : Expired j s t) (hs : Sound base s.view) (ht : Tagged s.view) (hq : Flow s)
    (htiming : Timing t) (hj : j < s.ncalls) (hrun : run (Rpcio.step ticksPerSec) s acts = some t) :
    0 < (t.call j).done ∨ (s.call j).sends < (t.call j).sends := by
  have hdue : Due j (s.call j).sends s.iterations t.clock s := by
    rcases Nat.eq_zero_or_pos (s.call j).done with h0 | hpos
    · obtain ⟨hp, hc⟩ := ht.pending j hj h0
      refine .inr (.inr ⟨le_rfl, (s.call j).ptr, hc, ?_⟩)
      rcases mem_append.mp hp with hmsg | hl
      · right
        refine ⟨hmsg, rfl, ?_⟩
        rcases hq.signalled _ hmsg with h | h | h | h
        · exact absurd h (hexp.woken _ hmsg hc)
        · exact .inl ⟨hexp.start, h⟩
        · exact .inr (.inl h)
        · exact .inr (.inr h)
      · rw [hq.newList_nil (by simp [hexp.start]) (by simp [hexp.start]), append_nil] at hl
        exact .inl ⟨hl, hexp.expired _ hl hc⟩
    · exact .inl hpos
  rcases due_of_run acts hs ht hj hrun hdue with h | h | ⟨-, p, -, ⟨hp, hage⟩ | ⟨-, hit, -⟩⟩
  · exact .inl h
  · exact .inr h
  · have hlater := htiming.later (.inr hexp.stop) p hp
    unfold State.clock at hage
    omega
  · have := hexp.iterations
    omega

/-- A run with `n` iterations in which the timer of the call `j` has expired. -/
inductive Iterations (ticksPerSec j : Nat) : Nat → State → State → Prop
  | nil (s : State) : Iterations ticksPerSec j 0 s s
  | cons {n : Nat} {s m t : State} (acts : List Act)
      (kept : StepsMeet (Rpcio.step ticksPerSec) Kept s acts)
      (hrun : run (Rpcio.step ticksPerSec) s acts = some m) (expired : Expired j s m)
      (rest : Iterations ticksPerSec j n m t) : Iterations ticksPerSec j (n + 1) s t

/-- **A call gets its completion event** after as many iterations as its lifetime has ticks, and
    two more. -/
theorem Inv.completes (hi : Inv base s) (ht : Tagged s.view) (hticks : 0 < ticksPerSec) (hle : ticksPerSec ≤ 10 ^ 6)
    (hj : j < s.ncalls) (hit : Iterations ticksPerSec j n s t)
    (hn : (s.call j).lifetime + 1 < n) : (t.call j).done = 1 := by
  have key : Inv base t ∧ Grows j s.view t.view ∧
      (0 < (t.call j).done ∨ (s.call j).sends + n ≤ (t.call j).sends) := by
    clear hn
    induction hit with
    | nil s => exact ⟨hi, ⟨le_rfl, rfl, le_rfl, le_rfl⟩, .inr le_rfl⟩
    | cons acts kept hrun expired rest ih =>
      have hm := inv_of_run hticks hle hi kept hrun
      have hgrow := grows_of_run hj hrun
      obtain ⟨hit, hrest, hor⟩ := ih hm (tagged_of_run hi.sound ht hrun) (Nat.lt_of_lt_of_le hj hgrow.ncalls)
      refine ⟨hit, ⟨hgrow.ncalls.trans hrest.ncalls, hrest.lifetime.trans hgrow.lifetime,
        hgrow.sends.trans hrest.sends, hgrow.done.trans hrest.done⟩, ?_⟩
      rcases expired.progress hi.sound ht hi.queues.flow hm.timing hj hrun with h | h
      · exact .inl (Nat.lt_of_lt_of_le h hrest.done)
      · refine hor.imp_right ?_
        intro h'
        omega
  obtain ⟨hit, hgrow, hor⟩ := key
  have hjt : j < t.ncalls := Nat.lt_of_lt_of_le hj hgrow.ncalls
  have hpos : 0 < (t.call j).done := by
    refine hor.resolve_right ?_
    intro h
    have hspent := hit.budget.spent j hjt
    have hlife : (t.call j).lifetime = (s.call j).lifetime := hgrow.lifetime
    omega
  rcases hit.matched.calls j hjt with ⟨h, -⟩ | ⟨h, -⟩
  · have h' : (t.call j).done = 0 := h
    omega
  · exact h

end Runs

/-- Each accepted call is with the daemon or has got one event, and no datagram that answers a
    completed call matches a transaction. -/
structure Settled (s : State) : Prop where
  fault : s.fault = false
  once : ∀ j < s.ncalls, (s.call j).done ≤ 1
  owned : ∀ j < s.ncalls, (s.call j).done = 0 ↔ ∃ p ∈ s.flight, (s.xact p).call = some j
  late : ∀ j < s.ncalls, (s.call j).done = 1 → 0 < (s.call j).sends →
    ∀ port, sockRcv s (s.call j).xid port = if Addressed s (s.call j).xid then .drop else .fault

theorem Inv.settled {base : Nat → Nat} {s : State} (hi : Inv base s) : Settled s := by
  refine ⟨hi.fault, ?_, ?_, ?_⟩
  · intro j hj
    rcases hi.matched.calls j hj with ⟨h, -⟩ | ⟨h, -⟩
    · have h' : (s.call j).done = 0 := h
      omega
    · exact le_of_eq h
  · intro j hj
    constructor
    · intro h0
      rcases hi.matched.calls j hj with ⟨-, p, hp, hc⟩ | ⟨h1, -⟩
      · exact ⟨p, hp, hc⟩
      · rw [show (s.call j).done = 1 from h1] at h0
        cases h0
    · rintro ⟨p, hp, hc⟩
      obtain ⟨k, -, hck, -, -, hdone⟩ := hi.matched.flying p hp
      cases Option.some.inj (hck.symm.trans hc)
      exact hdone
  · intro j hj hdone hsends port
    unfold sockRcv
    cases htbl : s.xactHashTbl (slot (s.call j).xid) with
    | none => exact (if_pos fun p hp => by cases htbl.symm.trans hp).symm
    | some p =>
      dsimp only
      cases hsrv : (s.xact p).server with
      | none => exact (if_neg fun h => h p htbl hsrv).symm
      | some srv =>
        have haddressed : Addressed s (s.call j).xid := by
          intro q hq
          cases htbl.symm.trans hq
          rw [hsrv]
          exact nofun
        rw [if_pos haddressed]
        refine if_neg ?_
        rintro ⟨hxid, -⟩
        obtain ⟨hp, hc⟩ := hi.matched.answered_current hi.sound hi.bounded hj hsends htbl hxid
        obtain ⟨k, -, hck, -, -, h0⟩ := hi.matched.flying p hp
        cases Option.some.inj (hck.symm.trans hc)
        exact absurd (hdone.symm.trans h0) one_ne_zero

/-- **Calls and replies are matched in every run whose steps are `Kept`**: no assertion fails and no null pointer is
    followed, a call that the daemon does not own any more has got one completion event, no datagram that
    answers a completed call is matched again, and each call is completed after a bounded number
    of iterations. -/
theorem matching_of_kept {ticksPerSec : Nat} (hticks : 0 < ticksPerSec) (hle : ticksPerSec ≤ 10 ^ 6)
    {xid : Option Nat} {port : Nat → Nat} {acts : List Act} {s : State}
    (hok : StepsMeet (step ticksPerSec) Kept (init ticksPerSec xid port) acts)
    (hrun : run (step ticksPerSec) (init ticksPerSec xid port) acts = some s) :
    Settled s ∧ ∀ j < s.ncalls, ∀ n t, Iterations ticksPerSec j n s t →
      (s.call j).lifetime + 1 < n → (t.call j).done = 1 := by
  have hi := inv_of_run hticks hle (inv_init hticks xid port) hok hrun
  grind [hi.settled, hi.completes, tagged_of_run, sound_init, tagged_init]

def acceptRun : List Act :=
  [.create 4096 true, .sendBegin 4096 0 10 true, .sendQueue 4096, .sendEvent 4096]

def transmitRun : List Act :=
  [.kevent false false 5, .tx, .tx, .work true, .work true, .insert, .insert]

def retransmitRun : List Act :=
  [.kevent false false 7, .work true, .work true, .insert, .insert]

def timeoutRun : List Act := [.kevent false false 9, .work true, .work true, .insert]

/-- The next call through the transaction, with late answers to the first one. -/
def nextRun : List Act :=
  [.sendBegin 4096 0 10 true, .sendQueue 4096, .sendEvent 4096,
   .kevent true false 10, .rcv 0 2049, .rcv 0 2049, .rcvEnd, .tx, .tx, .work true, .work true,
   .insert, .insert, .kevent true false 11, .rcv 0 2049, .rcv 1 2049, .rcv 1 2049]

/-- The state after a run of a daemon with 100 ticks per second. -/
def after (acts : List Act) : State :=
  (run (step 100) (init 100 none fun _ => 2049) acts).getD (init 100 none fun _ => 2049)

theorem matching_of_kept_timeoutRun :
    (((after acceptRun).call 0).done = 0 ∧
      Iterations 100 0 3 (after acceptRun)
        (after (acceptRun ++ transmitRun ++ retransmitRun ++ timeoutRun)) ∧
      ((after (acceptRun ++ transmitRun ++ retransmitRun ++ timeoutRun)).call 0).done = 1) ∧
    ∃ s, run (step 100) (init 100 none fun _ => 2049)
        (acceptRun ++ transmitRun ++ retransmitRun ++ timeoutRun ++ nextRun) = some s ∧
      s.ncalls = 2 ∧ (s.call 0).sends = 2 ∧ (s.call 1).done = 1 ∧ Settled s := by
  constructor
  · have h := @matching_of_kept 100 (by decide) (by decide) none (fun _ => 2049) acceptRun
      (after acceptRun) (by decide) rfl
    have hit : Iterations 100 0 3 (after acceptRun)
        (after (acceptRun ++ transmitRun ++ retransmitRun ++ timeoutRun)) := by
      refine .cons (m := after (acceptRun ++ transmitRun)) transmitRun (by decide) rfl
        ⟨rfl, rfl, by decide, by decide, by decide⟩ ?_
      refine .cons (m := after (acceptRun ++ transmitRun ++ retransmitRun)) retransmitRun (by decide) rfl
        ⟨rfl, rfl, by decide, by decide, by decide⟩ ?_
      refine .cons timeoutRun (by decide) rfl ⟨rfl, rfl, by decide, by decide, by decide⟩ ?_
      exact .nil _
    exact ⟨by decide, hit, h.2 0 (by decide) 3 _ hit (by decide)⟩
  · have h := @matching_of_kept 100 (by decide) (by decide) none (fun _ => 2049)
      (acceptRun ++ transmitRun ++ retransmitRun ++ timeoutRun ++ nextRun) _ (by decide) rfl
    exact ⟨_, rfl, by decide, by decide, by decide, h.1⟩

/-- The first transmission is successful and the second fails; the answer to the first comes when
    the call is completed. -/
def lateRun : List Act :=
  [.create 4096 true, .sendBegin 4096 0 10 true, .sendQueue 4096, .sendEvent 4096,
   .kevent false false 5, .tx, .tx, .work true, .work true, .insert, .insert,
   .kevent false false 7, .work false, .work true, .insert, .kevent true false 8]

/-- The call is answered, the transaction destroyed, and the slot given to a new one, which is not sent. -/
def unsentRun : List Act :=
  acceptRun ++ transmitRun ++ [.kevent true false 6, .rcv 0 2049, .rcvEnd, .work true, .insert, .destroy 4096,
    .create 5120 true, .kevent true false 8]

/-- The transaction of a call that `sendto` completed is found by an answer to the call, and the
    requestor gets a second event.  A late answer that meets a transaction which was never sent makes the daemon
    follow a null pointer. -/
theorem lateRun_breaks :
    (∃ s t, run (step 100) (init 100 none fun _ => 2049) lateRun = some s ∧
      (s.call 0).done = 1 ∧ sockRcv s (s.call 0).xid 2049 = .found 4096 ∧ ¬ Settled s ∧
      step 100 s (.rcv 0 2049) = some t ∧ (t.call 0).done = 2) ∧
    ∃ s t, run (step 100) (init 100 none fun _ => 2049) unsentRun = some s ∧
      (s.call 0).done = 1 ∧ step 100 s (.rcv 0 2049) = some t ∧ t.fault = true := by
  refine ⟨⟨_, _, rfl, by decide, by decide, ?_, rfl, by decide⟩, _, _, rfl, by decide, rfl, rfl⟩
  intro h
  exact absurd (h.late 0 (by decide) (by decide) (by decide) 2049) (by decide)

end RtemsLibbsd.Rpcio
