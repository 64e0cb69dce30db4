import Mathlib.Data.Multiset.UnionInter
import RtemsLibbsd.Rpcio.Model

/-!
# Slots and generations of the RPC daemon

What matters for the matching of replies is a small part of the daemon's state: which
transaction sits in which slot, which generation of XIDs the slot has reached, which
transactions the daemon owns, and what became of the accepted calls.

* `View` is that part; the queues of the daemon are one multiset.
* `Event` lists what a step does to it, and **`step_event`** says that every step of the model is
  one of these events: all later invariants are proved over events.
* `Sound` is the invariant of the hash table: transactions and slots, the XID as slot and
  generation, the XIDs of the calls.  It holds in every run (`sound_of_run`).
* `Fresh` says that a free slot has a generation no call has used.  **`table_of_run`** assembles
  the results about the table, with the runs for which `Fresh` holds.

A transaction that is destroyed after a failed `sendto` keeps the XID of its last call, so the
next transaction of the slot gets it again (`failedRun_reuses`).
-/

namespace RtemsLibbsd.Rpcio

open Option List RtemsLibbsd.Transition

/-- The part of the state that the matching of replies depends on. -/
structure View where
  live : List Ptr
  tbl : Nat → Option Ptr
  upper : Nat → Nat
  xid : Ptr → Nat
  gen : Nat → Nat
  flight : Multiset Ptr
  callOf : Ptr → Option Nat
  failed : Ptr → Bool
  call : Nat → Call
  ncalls : Nat

def State.view (s : State) : View where
  live := s.live
  tbl := s.xactHashTbl
  upper := s.xidUpper
  xid p := (s.xact p).xid
  gen := s.gen
  flight := (s.flight : Multiset Ptr)
  callOf p := (s.xact p).call
  failed p := (s.xact p).failed
  call := s.call
  ncalls := s.ncalls

inductive Event where
  | quiet
  | create (p : Ptr) (i : Nat)
  | destroy (p : Ptr)
  | begin (p : Ptr)
  | accept (p : Ptr) (lifetime : Int)
  | sent (p : Ptr)
  | timedOut (p : Ptr)
  | failed (p : Ptr)
  | answered (p : Ptr) (j : Nat) (listed : Bool)

def View.advance (v : View) (p : Ptr) : View :=
  { v with
    xid := upd v.xid p ((v.xid p + XACT_HASHS) % 2 ^ 32)
    gen := upd v.gen (slot (v.xid p)) (v.gen (slot (v.xid p)) + 1)
    failed := upd v.failed p false }

def View.complete (v : View) (p : Ptr) : View :=
  { v with
    call := match v.callOf p with
      | none => v.call
      | some j => upd v.call j { v.call j with done := (v.call j).done + 1 } }

def View.apply (v : View) : Event → View
  | .quiet => v
  | .create p i =>
    { v with
      live := p :: v.live
      tbl := upd v.tbl i (some p)
      xid := upd v.xid p ((v.upper i ||| i) % 2 ^ 32)
      callOf := upd v.callOf p none
      failed := upd v.failed p false }
  | .destroy p =>
    { v with
      live := v.live.erase p
      tbl := upd v.tbl (slot (v.xid p)) none
      upper := upd v.upper (slot (v.xid p)) (v.xid p) }
  | .begin p => v.advance p
  | .accept p lifetime =>
    { v with
      flight := p ::ₘ v.flight
      callOf := upd v.callOf p (some v.ncalls)
      call := upd v.call v.ncalls
        ⟨p, slot (v.xid p), v.gen (slot (v.xid p)), v.xid p, lifetime, 0, 0⟩
      ncalls := v.ncalls + 1 }
  | .sent p =>
    let j := (v.callOf p).getD 0
    { v with call := upd v.call j { v.call j with sends := (v.call j).sends + 1 } }
  | .timedOut p => { (v.advance p).complete p with flight := v.flight.erase p }
  | .failed p =>
    { View.complete { v with failed := upd v.failed p true } p with flight := v.flight.erase p }
  | .answered p _ listed =>
    { (v.advance p).complete p with flight := if listed then v.flight.erase p else v.flight }

def Enabled (v : View) : Event → Prop
  | .quiet => True
  | .create p i => p ∉ v.live ∧ v.tbl i = none ∧ i < XACT_HASHS
  | .destroy p => p ∈ v.live ∧ p ∉ v.flight
  | .begin p | .accept p _ => p ∈ v.live ∧ p ∉ v.flight
  | .sent p | .timedOut p | .failed p => p ∈ v.flight
  | .answered p j _ =>
    j < v.ncalls ∧ 0 < (v.call j).sends ∧ v.tbl (slot (v.call j).xid) = some p ∧
      v.xid p = (v.call j).xid

section Frame

@[simp] theorem upd_self {β : Type} (f : Nat → β) (a : Nat) (b : β) : upd f a b a = b := by simp [upd]

@[simp] theorem upd_ne {β : Type} (f : Nat → β) {a x : Nat} (b : β) (h : x ≠ a) :
    upd f a b x = f x := by simp [upd, h]

theorem map_upd {β γ : Type} (g : β → γ) (f : Nat → β) (a : Nat) (b : β) :
    (fun x => g (upd f a b x)) = upd (fun x => g (f x)) a (g b) := by
  funext x
  unfold upd
  split <;> rfl

theorem map_upd_same {β γ : Type} (g : β → γ) (f : Nat → β) (a : Nat) (b : β) (h : g b = g (f a)) :
    (fun x => g (upd f a b x)) = fun x => g (f x) := by
  funext x
  unfold upd
  split
  · rename_i hx
    rw [hx, h]
  · rfl

theorem view_ext {v w : View} (h1 : v.live = w.live) (h2 : v.tbl = w.tbl) (h3 : v.upper = w.upper)
    (h4 : v.xid = w.xid) (h5 : v.gen = w.gen) (h6 : v.flight = w.flight)
    (h7 : v.callOf = w.callOf) (h8 : v.failed = w.failed) (h9 : v.call = w.call)
    (h10 : v.ncalls = w.ncalls) : v = w := by
  cases v
  simp_all

variable (s : State) (p : Ptr)

theorem view_upd_xact {x : Xact} (hx : x.xid = (s.xact p).xid) (hc : x.call = (s.xact p).call)
    (hf : x.failed = (s.xact p).failed) :
    ({ s with xact := upd s.xact p x } : State).view = s.view := by
  apply view_ext <;> try rfl
  · exact map_upd_same Xact.xid s.xact p x hx
  · exact map_upd_same Xact.call s.xact p x hc
  · exact map_upd_same Xact.failed s.xact p x hf

theorem view_advance : (advance s p).view = s.view.advance p := by
  apply view_ext <;> try rfl
  · exact map_upd Xact.xid s.xact p _
  · exact map_upd_same Xact.call s.xact p _ rfl
  · exact map_upd Xact.failed s.xact p _

theorem view_complete (status : ClntStat) : (complete s p status).view = s.view.complete p := by
  apply view_ext <;> try rfl
  · exact map_upd_same Xact.xid s.xact p _ rfl
  · exact map_upd_same Xact.call s.xact p _ rfl
  · exact map_upd_same Xact.failed s.xact p _ rfl

end Frame

section Events

variable {ticksPerSec : Nat} (s : State)

def Cause (s : State) (a : Act) : Event → Prop
  | .destroy p => a = .destroy p
  | .accept p _ => a = .sendQueue p
  | .failed p => a = .work false ∧
      ∃ rest, s.listHead = p :: rest ∧ (s.xact p).age ≤ s.now ∧ 0 ≤ (s.xact p).tolive
  | .answered p j listed => listed = decide (p ∈ s.listHead) ∧
      ∃ port, a = .rcv j port ∧ sockRcv s (s.call j).xid port = .found p
  | _ => True

theorem mem_flight {p : Ptr} : p ∈ s.view.flight ↔ p ∈ s.flight := Iff.rfl

theorem owned_eq_true_iff {s : State} {p : Ptr} :
    s.owned p = true ↔ p ∈ s.view.live ∧ p ∉ s.view.flight := decide_eq_true_iff

theorem probe_spec {tbl : Nat → Option Ptr} : ∀ {n i k : Nat}, probe tbl n i = some k →
    tbl k = none ∧ k < XACT_HASHS
  | 0, _, _, h => by cases h
  | n + 1, i, k, h => by
    unfold probe at h
    simp only at h
    split at h
    · rename_i hn
      cases h
      exact ⟨isNone_iff_eq_none.mp hn, Nat.mod_lt _ (by decide)⟩
    · exact probe_spec h

theorem view_create (p : Ptr) (header : Bool) :
    ∃ e, (p ∉ s.live → Enabled s.view e) ∧
      (rpcUdpXactCreate s p header).1.view = s.view.apply e ∧ Cause s (.create p header) e := by
  unfold rpcUdpXactCreate
  split
  · simp only
    split
    · exact ⟨.quiet, fun _ => trivial, rfl, trivial⟩
    · rename_i i hi
      split at hi
      · obtain ⟨hnone, hlt⟩ := probe_spec hi
        refine ⟨.create p i, fun hp => ⟨hp, hnone, hlt⟩, ?_, trivial⟩
        apply view_ext <;> try rfl
        · exact map_upd Xact.xid s.xact p _
        · exact map_upd Xact.call s.xact p _
        · exact map_upd Xact.failed s.xact p _
      · cases hi
  · exact ⟨.quiet, fun _ => trivial, rfl, trivial⟩

theorem view_sendBegin (p : Ptr) (srvr ms : Nat) (encodes : Bool) :
    (sendBegin ticksPerSec s p srvr ms encodes).view = s.view.apply (.begin p) := by
  unfold sendBegin
  rw [view_upd_xact, view_advance, view_upd_xact]
  · rfl
  all_goals first | rfl | (cases encodes <;> rfl)

theorem view_sendQueue (p : Ptr) :
    (∃ lifetime, (sendQueue s p).view = s.view.apply (.accept p lifetime)) ∨
    (sendQueue s p).view = s.view := by
  unfold sendQueue
  split
  · left
    refine ⟨(s.xact p).lifetime, ?_⟩
    apply view_ext <;> try rfl
    · exact map_upd_same Xact.xid s.xact p _ rfl
    · show ((s.msgQ ++ [p] ++ (s.listHead ++ s.newList) : List Ptr) : Multiset Ptr)
        = p ::ₘ (s.flight : Multiset Ptr)
      rw [Multiset.cons_coe, Multiset.coe_eq_coe, append_assoc]
      exact perm_middle
    · exact map_upd Xact.call s.xact p _
    · exact map_upd_same Xact.failed s.xact p _ rfl
  · right
    exact view_upd_xact s p rfl rfl rfl

theorem view_txStep : (txStep s).view = s.view := by
  unfold txStep
  split
  · rfl
  · rename_i p rest hq
    apply view_ext <;> try rfl
    · exact map_upd_same Xact.xid s.xact p _ rfl
    · show ((rest ++ (p :: s.listHead ++ s.newList) : List Ptr) : Multiset Ptr)
        = ((s.msgQ ++ (s.listHead ++ s.newList) : List Ptr) : Multiset Ptr)
      rw [hq, Multiset.coe_eq_coe]
      exact perm_middle
    · exact map_upd_same Xact.call s.xact p _ rfl
    · exact map_upd_same Xact.failed s.xact p _ rfl

theorem insertByAge_perm (age : Ptr → Int) (p : Ptr) : ∀ l, (insertByAge age p l).Perm (p :: l)
  | [] => List.Perm.refl _
  | n :: ns => by
    unfold insertByAge
    split
    · exact ((insertByAge_perm age p ns).cons n).trans (List.Perm.swap p n ns)
    · exact List.Perm.refl _

theorem view_readjust : (readjust ticksPerSec s).view = s.view := by
  unfold readjust
  split
  · apply view_ext <;> try rfl
    all_goals
      funext p
      simp only [State.view]
      split <;> rfl
  · rfl

theorem view_insertStep : (insertStep ticksPerSec s).view = s.view := by
  unfold insertStep
  split
  · exact (view_readjust s :)
  · rename_i p rest hn
    apply view_ext <;> try rfl
    show ((s.msgQ ++ (insertByAge _ p s.listHead ++ rest) : List Ptr) : Multiset Ptr)
      = ((s.msgQ ++ (s.listHead ++ s.newList) : List Ptr) : Multiset Ptr)
    grind [Multiset.coe_eq_coe, insertByAge_perm]

theorem view_dequeue {p : Ptr} {rest : List Ptr} (hl : s.listHead.Perm (p :: rest)) :
    ({ s with listHead := rest } : State).view =
      { s.view with flight := s.view.flight.erase p } := by
  apply view_ext <;> try rfl
  show ((s.msgQ ++ (rest ++ s.newList) : List Ptr) : Multiset Ptr)
    = ((s.msgQ ++ (s.listHead ++ s.newList) : List Ptr) : Multiset Ptr).erase p
  have hp : (s.msgQ ++ (s.listHead ++ s.newList)).Perm (p :: (s.msgQ ++ (rest ++ s.newList))) :=
    ((hl.append_right _).append_left _).trans perm_middle
  rw [Multiset.coe_erase, Multiset.coe_eq_coe]
  exact ((hp.erase p).trans (by simp)).symm

theorem view_timedOut (p : Ptr) : (timedOut s p).view = (s.view.advance p).complete p := by
  rw [timedOut, view_complete, view_advance]

theorem view_sendFailed (p : Ptr) :
    (sendFailed s p).view = View.complete { s.view with failed := upd s.view.failed p true } p := by
  have h : ({ s with xact := upd s.xact p { s.xact p with failed := true } } : State).view
      = { s.view with failed := upd s.view.failed p true } := by
    apply view_ext <;> try rfl
    · exact map_upd_same Xact.xid s.xact p _ rfl
    · exact map_upd_same Xact.call s.xact p _ rfl
    · exact map_upd Xact.failed s.xact p _
  rw [sendFailed, view_complete, h]

theorem view_received (p : Ptr) :
    (received ticksPerSec s p).view =
      ((({ s with listHead := s.listHead.erase p } : State).view).advance p).complete p := by
  unfold received
  rw [view_complete, ← view_advance]
  congr 1
  exact view_upd_xact (advance { s with listHead := s.listHead.erase p } p) p rfl rfl rfl

theorem view_work (sends : Bool) :
    ∃ e, Enabled s.view e ∧ (work ticksPerSec s sends).view = s.view.apply e ∧
      (e = .quiet ∨ ∃ p rest, s.listHead = p :: rest ∧ (s.xact p).age ≤ s.now ∧
        (((s.xact p).tolive < 0 ∧ e = .timedOut p) ∨
         (0 ≤ (s.xact p).tolive ∧ sends = true ∧ e = .sent p) ∨
         (0 ≤ (s.xact p).tolive ∧ sends = false ∧ e = .failed p))) := by
  unfold work
  split
  · exact ⟨.quiet, trivial, rfl, .inl rfl⟩
  · rename_i p rest hl
    have hmem : p ∈ s.view.flight := by
      rw [mem_flight, State.flight, hl]
      simp
    split
    · rename_i hage
      split
      · rename_i hlive
        refine ⟨.timedOut p, hmem, ?_, .inr ⟨p, rest, hl, hage, .inl ⟨hlive, rfl⟩⟩⟩
        rw [view_timedOut, view_dequeue s (List.Perm.of_eq hl)]
        rfl
      · split
        · rename_i hs
          refine ⟨.sent p, hmem, ?_, .inr ⟨p, rest, hl, hage, .inr (.inl ⟨by omega, hs, rfl⟩)⟩⟩
          apply view_ext <;> try rfl
          · exact map_upd_same Xact.xid s.xact p _ rfl
          · show ((s.msgQ ++ (rest ++ p :: s.newList) : List Ptr) : Multiset Ptr)
              = ((s.msgQ ++ (s.listHead ++ s.newList) : List Ptr) : Multiset Ptr)
            rw [hl, Multiset.coe_eq_coe]
            exact List.Perm.append_left _ perm_middle
          · exact map_upd_same Xact.call s.xact p _ rfl
          · exact map_upd_same Xact.failed s.xact p _ rfl
        · rename_i hs
          refine ⟨.failed p, hmem, ?_,
            .inr ⟨p, rest, hl, hage, .inr (.inr ⟨by omega, by simpa using hs, rfl⟩)⟩⟩
          rw [view_sendFailed, view_dequeue s (List.Perm.of_eq hl)]
          rfl
    · exact ⟨.quiet, trivial, rfl, .inl rfl⟩

theorem view_rcv {j port : Nat} (hj : j < s.ncalls) (hs : 0 < (s.call j).sends) :
    (rcv ticksPerSec s j port).view = s.view ∨
    ∃ p listed, sockRcv s (s.call j).xid port = .found p ∧ listed = decide (p ∈ s.listHead) ∧
      Enabled s.view (.answered p j listed) ∧
      (rcv ticksPerSec s j port).view = s.view.apply (.answered p j listed) := by
  unfold rcv
  cases hr : sockRcv s (s.call j).xid port with
  | drop => exact .inl rfl
  | fault => exact .inl rfl
  | found p =>
    right
    refine ⟨p, _, rfl, rfl, ⟨hj, hs, ?_⟩, ?_⟩
    · unfold sockRcv at hr
      split at hr
      · cases hr
      · rename_i q hq
        split at hr
        · cases hr
        · split at hr
          · rename_i hmatch
            cases hr
            exact ⟨hq, hmatch.1⟩
          · cases hr
    · have hflight : ({ s with listHead := s.listHead.erase p } : State).view =
          { s.view with
            flight := if decide (p ∈ s.listHead) then s.view.flight.erase p else s.view.flight } := by
        cases hm : decide (p ∈ s.listHead) with
        | false =>
          rw [erase_of_not_mem (of_decide_eq_false hm)]
          rfl
        | true => exact view_dequeue s (perm_cons_erase (of_decide_eq_true hm))
      rw [view_received, hflight]
      rfl

variable {s}

/-- **Every step is one of the events.** -/
theorem step_event {a : Act} {t : State} (h : step ticksPerSec s a = some t) :
    ∃ e, Enabled s.view e ∧ t.view = s.view.apply e ∧ Cause s a e := by
  unfold step at h
  split at h
  · cases h
  · cases a with
    | create p header =>
      simp only at h
      split at h
      · cases h
      · rename_i hp
        cases h
        obtain ⟨e, hen, heq, hc⟩ := view_create s p header
        exact ⟨e, hen hp, heq, hc⟩
    | destroy p =>
      obtain ⟨⟨hown, -⟩, ⟨⟩⟩ := ite_none_right_eq_some.mp h
      exact ⟨.destroy p, owned_eq_true_iff.mp hown, rfl, rfl⟩
    | sendBegin p srvr ms encodes =>
      obtain ⟨⟨hown, -⟩, ⟨⟩⟩ := ite_none_right_eq_some.mp h
      exact ⟨.begin p, owned_eq_true_iff.mp hown, view_sendBegin s p srvr ms encodes, trivial⟩
    | sendQueue p =>
      obtain ⟨⟨hown, -⟩, ⟨⟩⟩ := ite_none_right_eq_some.mp h
      rcases view_sendQueue s p with ⟨lt, hv⟩ | hv
      · exact ⟨.accept p lt, owned_eq_true_iff.mp hown, hv, rfl⟩
      · exact ⟨.quiet, trivial, hv, trivial⟩
    | sendEvent p =>
      obtain ⟨-, ⟨⟩⟩ := ite_none_right_eq_some.mp h
      exact ⟨.quiet, trivial, view_upd_xact s p rfl rfl rfl, trivial⟩
    | kevent rx kill unow =>
      obtain ⟨-, ⟨⟩⟩ := ite_none_right_eq_some.mp h
      refine ⟨.quiet, trivial, ?_, trivial⟩
      unfold kevent
      split <;> rfl
    | rcv j port =>
      simp only at h
      split at h
      · obtain ⟨⟨hj, hs⟩, ⟨⟩⟩ := ite_none_right_eq_some.mp h
        rcases view_rcv s hj hs with hv | ⟨p, listed, hr, hl, hen, hv⟩
        · exact ⟨.quiet, trivial, hv, trivial⟩
        · exact ⟨.answered p j listed, hen, hv, hl, port, rfl, hr⟩
      · cases h
    | rcvEnd =>
      simp only at h
      split at h
      · cases h
        exact ⟨.quiet, trivial, rfl, trivial⟩
      · cases h
    | tx =>
      obtain ⟨-, ⟨⟩⟩ := ite_none_right_eq_some.mp h
      exact ⟨.quiet, trivial, view_txStep s, trivial⟩
    | work sends =>
      obtain ⟨-, ⟨⟩⟩ := ite_none_right_eq_some.mp h
      obtain ⟨e, hen, hv, hc⟩ := view_work s sends
      refine ⟨e, hen, hv, ?_⟩
      rcases hc with rfl | ⟨p, rest, hl, hage, ⟨-, rfl⟩ | ⟨-, -, rfl⟩ | ⟨hlive, rfl, rfl⟩⟩
      · trivial
      · trivial
      · trivial
      · exact ⟨rfl, rest, hl, hage, hlive⟩
    | insert =>
      obtain ⟨-, ⟨⟩⟩ := ite_none_right_eq_some.mp h
      exact ⟨.quiet, trivial, view_insertStep s, trivial⟩

end Events

def encode (base gen : Nat) : Nat := (base + XACT_HASHS * gen) % 2 ^ 32

/-- The hash table: live transactions and slots correspond, the XID of a transaction is that of
    the generation of its slot, and so are the XIDs kept for the free slots.  The daemon owns
    live transactions only.  No call has a generation its slot has not reached. -/
structure Sound (base : Nat → Nat) (v : View) : Prop where
  base_slot : ∀ i < XACT_HASHS, base i % XACT_HASHS = i
  nodup : v.live.Nodup
  slotted : ∀ p ∈ v.live, v.tbl (slot (v.xid p)) = some p
  owner : ∀ i p, v.tbl i = some p → p ∈ v.live ∧ slot (v.xid p) = i
  flight_live : ∀ p ∈ v.flight, p ∈ v.live
  flight_nodup : v.flight.Nodup
  xid_gen : ∀ p ∈ v.live, v.xid p = encode (base (slot (v.xid p))) (v.gen (slot (v.xid p)))
  upper_gen : ∀ i < XACT_HASHS, v.tbl i = none →
    (v.upper i ||| i) % 2 ^ 32 = encode (base i) (v.gen i)
  call_slot : ∀ j < v.ncalls, (v.call j).slot < XACT_HASHS
  call_xid : ∀ j < v.ncalls, (v.call j).xid = encode (base (v.call j).slot) (v.call j).gen
  call_gen : ∀ j < v.ncalls, (v.call j).gen ≤ v.gen (v.call j).slot

section Arithmetic

theorem slot_lt (xid : Nat) : slot xid < XACT_HASHS := Nat.mod_lt _ (by decide)

/-- **Advancing the XID never changes its slot bits.** -/
theorem slot_advance (xid : Nat) : slot ((xid + XACT_HASHS) % 2 ^ 32) = slot xid := by
  unfold slot XACT_HASHS
  omega

theorem slot_encode {base i : Nat} (gen : Nat) (h : base % XACT_HASHS = i) :
    slot (encode base gen) = i := by
  unfold slot encode XACT_HASHS
  unfold XACT_HASHS at h
  omega

theorem encode_succ (base gen : Nat) :
    (encode base gen + XACT_HASHS) % 2 ^ 32 = encode base (gen + 1) := by
  unfold encode XACT_HASHS
  omega

theorem or_slot (xid : Nat) : xid ||| slot xid = xid := by
  apply Nat.eq_of_testBit_eq
  intro i
  rw [slot, show XACT_HASHS = 2 ^ 8 from rfl, Nat.testBit_or, Nat.testBit_mod_two_pow]
  cases xid.testBit i <;> simp

theorem encode_inj {base g g' : Nat} (hg : g < 2 ^ 24) (hg' : g' < 2 ^ 24)
    (h : encode base g = encode base g') : g = g' := by
  unfold encode XACT_HASHS at h
  omega

end Arithmetic

section SoundEvents

variable {base : Nat → Nat} {v : View}

theorem Sound.slot_ne (hv : Sound base v) {p q : Ptr} (hp : p ∈ v.live) (hq : q ∈ v.live)
    (hne : q ≠ p) : slot (v.xid q) ≠ slot (v.xid p) := by
  intro h
  have hs := hv.slotted q hq
  rw [h, hv.slotted p hp] at hs
  cases hs
  exact hne rfl

theorem slot_xid_advance (v : View) (p q : Ptr) :
    slot ((v.advance p).xid q) = slot (v.xid q) := by
  show slot (upd v.xid p ((v.xid p + XACT_HASHS) % 2 ^ 32) q) = _
  unfold upd
  split
  · rename_i h
    rw [slot_advance, h]
  · rfl

theorem gen_advance_le (v : View) (p : Ptr) (i : Nat) : v.gen i ≤ (v.advance p).gen i := by
  show v.gen i ≤ upd v.gen _ _ i
  unfold upd
  split
  · rename_i h
    rw [h]
    exact Nat.le_succ _
  · exact Nat.le_refl _

variable {p : Ptr}

theorem Sound.advance (hv : Sound base v) (hp : p ∈ v.live) :
    Sound base (v.advance p) := by
  refine ⟨hv.base_slot, hv.nodup, ?_, ?_, hv.flight_live, hv.flight_nodup, ?_, ?_, hv.call_slot,
    hv.call_xid, ?_⟩
  · intro q hq
    rw [slot_xid_advance]
    exact hv.slotted q hq
  · intro i q hq
    rw [slot_xid_advance]
    exact hv.owner i q hq
  · intro q hq
    rw [slot_xid_advance]
    show upd v.xid p _ q = encode _ (upd v.gen (slot (v.xid p)) _ (slot (v.xid q)))
    rcases eq_or_ne q p with rfl | hne
    · simp [← encode_succ, ← hv.xid_gen q hq]
    · rw [upd_ne _ _ hne, upd_ne _ _ (hv.slot_ne hp hq hne)]
      exact hv.xid_gen q hq
  · intro i hi hnone
    have hne : i ≠ slot (v.xid p) := by
      rintro rfl
      rw [show (v.advance p).tbl = v.tbl from rfl, hv.slotted p hp] at hnone
      cases hnone
    show _ = encode _ (upd v.gen (slot (v.xid p)) _ i)
    rw [upd_ne _ _ hne]
    exact hv.upper_gen i hi hnone
  · intro j hj
    exact (hv.call_gen j hj).trans (gen_advance_le v p _)

theorem Sound.record (hv : Sound base v) {w : View} (hlive : w.live = v.live) (htbl : w.tbl = v.tbl)
    (hupper : w.upper = v.upper) (hxid : w.xid = v.xid) (hgen : w.gen = v.gen)
    (hn : w.ncalls = v.ncalls) (hflight : w.flight ≤ v.flight)
    (hcall : ∀ j, (w.call j).slot = (v.call j).slot ∧ (w.call j).gen = (v.call j).gen ∧
      (w.call j).xid = (v.call j).xid) : Sound base w := by
  refine ⟨hv.base_slot, hlive ▸ hv.nodup, ?_, ?_, ?_, Multiset.nodup_of_le hflight hv.flight_nodup,
    ?_, ?_, ?_, ?_, ?_⟩
  · rw [hlive, htbl, hxid]
    exact hv.slotted
  · rw [hlive, htbl, hxid]
    exact hv.owner
  · intro p hp
    rw [hlive]
    exact hv.flight_live p (Multiset.mem_of_le hflight hp)
  · rw [hlive, hxid, hgen]
    exact hv.xid_gen
  · rw [htbl, hupper, hgen]
    exact hv.upper_gen
  · intro j hj
    rw [(hcall j).1]
    exact hv.call_slot j (hn ▸ hj)
  · intro j hj
    rw [(hcall j).2.2, (hcall j).1, (hcall j).2.1]
    exact hv.call_xid j (hn ▸ hj)
  · intro j hj
    rw [(hcall j).2.1, (hcall j).1, hgen]
    exact hv.call_gen j (hn ▸ hj)

theorem call_upd_ident {f : Nat → Call} {c : Call} {k : Nat} (hs : c.slot = (f k).slot)
    (hg : c.gen = (f k).gen) (hx : c.xid = (f k).xid) (j : Nat) :
    (upd f k c j).slot = (f j).slot ∧ (upd f k c j).gen = (f j).gen ∧
      (upd f k c j).xid = (f j).xid := by
  unfold upd
  split
  · rename_i h
    subst h
    exact ⟨hs, hg, hx⟩
  · exact ⟨rfl, rfl, rfl⟩

theorem call_complete_ident (v : View) (p : Ptr) (j : Nat) :
    ((v.complete p).call j).slot = (v.call j).slot ∧
    ((v.complete p).call j).gen = (v.call j).gen ∧
    ((v.complete p).call j).xid = (v.call j).xid := by
  unfold View.complete
  cases v.callOf p with
  | none => exact ⟨rfl, rfl, rfl⟩
  | some k =>
    exact @call_upd_ident v.call { v.call k with done := (v.call k).done + 1 } k rfl rfl rfl j

theorem call_accept {j : Nat} (hj : j < v.ncalls + 1) : (j ≠ v.ncalls ∧ j < v.ncalls) ∨ j = v.ncalls := by
  omega

variable {lifetime : Int}

theorem call_accept_old {j : Nat} (hne : j ≠ v.ncalls) :
    (v.apply (.accept p lifetime)).call j = v.call j := upd_ne _ _ hne

theorem call_accept_new :
    (v.apply (.accept p lifetime)).call v.ncalls =
      ⟨p, slot (v.xid p), v.gen (slot (v.xid p)), v.xid p, lifetime, 0, 0⟩ := upd_self _ _ _

theorem Sound.accept (hv : Sound base v) (hp : p ∈ v.live)
    (hf : p ∉ v.flight) : Sound base (v.apply (.accept p lifetime)) := by
  refine ⟨hv.base_slot, hv.nodup, hv.slotted, hv.owner, ?_, Multiset.nodup_cons.mpr
    ⟨hf, hv.flight_nodup⟩, hv.xid_gen, hv.upper_gen, ?_, ?_, ?_⟩
  · intro q hq
    rcases Multiset.mem_cons.mp hq with rfl | hq
    · exact hp
    · exact hv.flight_live q hq
  · intro j hj
    rcases call_accept hj with ⟨hne, hlt⟩ | rfl
    · rw [call_accept_old hne]
      exact hv.call_slot j hlt
    · rw [call_accept_new]
      exact slot_lt _
  · intro j hj
    rcases call_accept hj with ⟨hne, hlt⟩ | rfl
    · rw [call_accept_old hne]
      exact hv.call_xid j hlt
    · rw [call_accept_new]
      exact hv.xid_gen p hp
  · intro j hj
    rcases call_accept hj with ⟨hne, hlt⟩ | rfl
    · rw [call_accept_old hne]
      exact hv.call_gen j hlt
    · rw [call_accept_new]
      exact le_rfl

theorem Sound.create (hv : Sound base v) {i : Nat} (hp : p ∉ v.live)
    (hnone : v.tbl i = none) (hi : i < XACT_HASHS) : Sound base (v.apply (.create p i)) := by
  have hx : (v.upper i ||| i) % 2 ^ 32 = encode (base i) (v.gen i) := hv.upper_gen i hi hnone
  have hslot : slot ((v.upper i ||| i) % 2 ^ 32) = i := by
    rw [hx]
    exact slot_encode _ (hv.base_slot i hi)
  have hnew : (v.apply (.create p i)).xid p = (v.upper i ||| i) % 2 ^ 32 := upd_self _ _ _
  have hold : ∀ q ≠ p, (v.apply (.create p i)).xid q = v.xid q := fun q hq => upd_ne _ _ hq
  have hfree : ∀ q ∈ v.live, slot (v.xid q) ≠ i := by
    rintro q hq rfl
    rw [hv.slotted q hq] at hnone
    cases hnone
  refine ⟨hv.base_slot, nodup_cons.mpr ⟨hp, hv.nodup⟩, ?_, ?_, ?_, hv.flight_nodup, ?_, ?_,
    hv.call_slot, hv.call_xid, hv.call_gen⟩
  · intro q hq
    rcases mem_cons.mp hq with rfl | hq
    · rw [hnew, hslot]
      exact upd_self _ _ _
    · rw [hold q (fun h => hp (h ▸ hq))]
      exact (upd_ne _ _ (hfree q hq)).trans (hv.slotted q hq)
  · intro k q hq
    rcases eq_or_ne k i with rfl | hk
    · have : some p = some q := (upd_self _ _ _).symm.trans hq
      cases this
      exact ⟨mem_cons_self, by rw [hnew, hslot]⟩
    · obtain ⟨hql, hqs⟩ := hv.owner k q ((upd_ne _ _ hk).symm.trans hq)
      refine ⟨mem_cons_of_mem p hql, ?_⟩
      rw [hold q (fun h => hp (h ▸ hql))]
      exact hqs
  · intro q hq
    exact mem_cons_of_mem p (hv.flight_live q hq)
  · intro q hq
    rcases mem_cons.mp hq with rfl | hq
    · rw [hnew, hslot]
      exact hx
    · rw [hold q (fun h => hp (h ▸ hq))]
      exact hv.xid_gen q hq
  · intro k hk hkn
    rcases eq_or_ne k i with rfl | hne
    · cases (upd_self _ _ _).symm.trans hkn
    · exact hv.upper_gen k hk ((upd_ne _ _ hne).symm.trans hkn)

theorem Sound.destroy (hv : Sound base v) (hp : p ∈ v.live) (hf : p ∉ v.flight) :
    Sound base (v.apply (.destroy p)) := by
  have hmem : ∀ q, q ∈ v.live.erase p → q ∈ v.live ∧ q ≠ p := fun q hq =>
    ⟨mem_of_mem_erase hq, fun h => hv.nodup.not_mem_erase (h ▸ hq)⟩
  refine ⟨hv.base_slot, hv.nodup.erase p, ?_, ?_, ?_, hv.flight_nodup, ?_, ?_, hv.call_slot,
    hv.call_xid, hv.call_gen⟩
  · intro q hq
    obtain ⟨hql, hne⟩ := hmem q hq
    exact (upd_ne _ _ (hv.slot_ne hp hql hne)).trans (hv.slotted q hql)
  · intro k q hq
    rcases eq_or_ne k (slot (v.xid p)) with rfl | hk
    · cases (upd_self _ _ _).symm.trans hq
    · obtain ⟨hql, hqs⟩ := hv.owner k q ((upd_ne _ _ hk).symm.trans hq)
      refine ⟨(mem_erase_of_ne ?_).mpr hql, hqs⟩
      rintro rfl
      exact hk hqs.symm
  · intro q hq
    refine (mem_erase_of_ne ?_).mpr (hv.flight_live q hq)
    rintro rfl
    exact hf hq
  · intro q hq
    exact hv.xid_gen q (hmem q hq).1
  · intro k hk hkn
    rcases eq_or_ne k (slot (v.xid p)) with rfl | hne
    · show (upd v.upper _ (v.xid p) (slot (v.xid p)) ||| slot (v.xid p)) % 2 ^ 32 = _
      rw [upd_self, or_slot]
      have hx := hv.xid_gen p hp
      have hlt : v.xid p < 2 ^ 32 := by
        rw [hx]
        exact Nat.mod_lt _ (by decide)
      rw [Nat.mod_eq_of_lt hlt]
      exact hx
    · show (upd v.upper _ _ k ||| k) % 2 ^ 32 = _
      rw [upd_ne _ _ hne]
      exact hv.upper_gen k hk ((upd_ne _ _ hne).symm.trans hkn)

/-- **Every event keeps the hash table sound.** -/
theorem Sound.event (hv : Sound base v) {e : Event} (he : Enabled v e) : Sound base (v.apply e) := by
  cases e with
  | quiet => exact hv
  | begin p => exact hv.advance he.1
  | sent p => exact hv.record rfl rfl rfl rfl rfl rfl le_rfl (call_upd_ident rfl rfl rfl)
  | timedOut p =>
    have hp : p ∈ v.live := hv.flight_live p he
    exact (hv.advance hp).record rfl rfl rfl rfl rfl rfl (Multiset.erase_le p _)
      (call_complete_ident _ p)
  | failed p =>
    exact hv.record rfl rfl rfl rfl rfl rfl (Multiset.erase_le p _) (call_complete_ident _ p)
  | answered p j listed =>
    obtain ⟨-, -, htbl, -⟩ := he
    have hp : p ∈ v.live := (hv.owner _ p htbl).1
    refine (hv.advance hp).record rfl rfl rfl rfl rfl rfl ?_ (call_complete_ident _ p)
    cases listed with
    | false => exact le_rfl
    | true => exact Multiset.erase_le p _
  | accept p lifetime => exact hv.accept he.1 he.2
  | create p i => exact hv.create he.1 he.2.1 he.2.2
  | destroy p => exact hv.destroy he.1 he.2

end SoundEvents

section FreshEvents

variable {base : Nat → Nat} {v : View}

/-- The slot is free, or its transaction is not with the daemon and its last call did not end with
    a failed `sendto`. -/
def Unused (v : View) (i : Nat) : Prop :=
  v.tbl i = none ∨ ∃ p, v.tbl i = some p ∧ p ∉ v.flight ∧ v.failed p = false

def Fresh (v : View) : Prop :=
  ∀ i, Unused v i → ∀ j < v.ncalls, (v.call j).slot = i → (v.call j).gen < v.gen i

theorem Fresh.of (hv : Sound base v) (hf : Fresh v) {w : View} (hn : w.ncalls = v.ncalls)
    (hcall : ∀ j, (w.call j).slot = (v.call j).slot ∧ (w.call j).gen = (v.call j).gen ∧
      (w.call j).xid = (v.call j).xid)
    (h : ∀ i, Unused w i → v.gen i < w.gen i ∨ (Unused v i ∧ w.gen i = v.gen i)) : Fresh w := by
  intro i hi j hj hslot
  rw [hn] at hj
  rw [(hcall j).1] at hslot
  rw [(hcall j).2.1]
  rcases h i hi with hlt | ⟨hu, heq⟩
  · have hle := hv.call_gen j hj
    rw [hslot] at hle
    omega
  · rw [heq]
    exact hf i hu j hj hslot

theorem unused_advance (hv : Sound base v) {p : Ptr} (hp : p ∈ v.live) {w : View}
    (htbl : w.tbl = v.tbl) (hgen : w.gen = (v.advance p).gen)
    (hfailed : ∀ q ≠ p, w.failed q = v.failed q)
    (hflight : ∀ q ≠ p, q ∉ w.flight → q ∉ v.flight) (i : Nat) (hi : Unused w i) :
    v.gen i < w.gen i ∨ (Unused v i ∧ w.gen i = v.gen i) := by
  rw [hgen]
  rcases eq_or_ne i (slot (v.xid p)) with rfl | hne
  · left
    show _ < upd v.gen _ _ _
    rw [upd_self]
    exact Nat.lt_succ_self _
  · right
    refine ⟨?_, upd_ne _ _ hne⟩
    rcases hi with hnone | ⟨q, hq, hnf, hfl⟩
    · exact .inl (htbl ▸ hnone)
    · rw [htbl] at hq
      have hqp : q ≠ p := by
        rintro rfl
        exact hne (hv.owner i q hq).2.symm
      exact .inr ⟨q, hq, hflight q hqp hnf, (hfailed q hqp) ▸ hfl⟩

theorem Fresh.accept (hv : Sound base v) (hf : Fresh v) {p : Ptr} {lifetime : Int}
    (hp : p ∈ v.live) : Fresh (v.apply (.accept p lifetime)) := by
  intro i hi j hj hslot
  have hne : i ≠ slot (v.xid p) := by
    rintro rfl
    rcases hi with hnone | ⟨q, hq, hnf, -⟩
    · have := (hv.slotted p hp).symm.trans hnone
      cases this
    · have := (hv.slotted p hp).symm.trans hq
      cases this
      exact hnf (Multiset.mem_cons_self _ _)
  rcases call_accept hj with ⟨hjn, hlt⟩ | rfl
  · rw [call_accept_old hjn] at hslot ⊢
    refine hf i ?_ j hlt hslot
    rcases hi with hnone | ⟨q, hq, hnf, hfl⟩
    · exact .inl hnone
    · exact .inr ⟨q, hq, fun hm => hnf (Multiset.mem_cons_of_mem hm), hfl⟩
  · rw [call_accept_new] at hslot
    exact absurd hslot.symm hne

/-- **Every event keeps the free slots fresh**, except the destruction of a transaction whose last
    call ended with a failed `sendto`. -/
theorem Fresh.event (hv : Sound base v) (hf : Fresh v) {e : Event} (he : Enabled v e)
    (hd : ∀ p, e = .destroy p → v.failed p = false) : Fresh (v.apply e) := by
  cases e with
  | quiet => exact hf
  | begin p =>
    exact hf.of hv rfl (fun _ => ⟨rfl, rfl, rfl⟩)
      (unused_advance hv he.1 rfl rfl (fun _ hq => upd_ne _ _ hq) (fun _ _ hq => hq))
  | sent p =>
    exact hf.of hv rfl (call_upd_ident rfl rfl rfl) fun i hi => .inr ⟨hi, rfl⟩
  | timedOut p =>
    refine hf.of hv rfl (call_complete_ident _ p) (unused_advance hv (hv.flight_live p he) rfl rfl
      (fun _ hq => upd_ne _ _ hq) ?_)
    intro q hq hnf hm
    exact hnf ((Multiset.mem_erase_of_ne hq).mpr hm)
  | answered p j listed =>
    obtain ⟨-, -, htbl, -⟩ := he
    refine hf.of hv rfl (call_complete_ident _ p) (unused_advance hv (hv.owner _ p htbl).1 rfl rfl
      (fun _ hq => upd_ne _ _ hq) ?_)
    intro q hq hnf hm
    cases listed with
    | false => exact hnf hm
    | true => exact hnf ((Multiset.mem_erase_of_ne hq).mpr hm)
  | failed p =>
    refine hf.of hv rfl (call_complete_ident _ p) ?_
    rintro i (hnone | ⟨q, hq, hnf, hfl⟩)
    · exact .inr ⟨.inl hnone, rfl⟩
    · have hqp : q ≠ p := by
        rintro rfl
        exact absurd ((upd_self _ _ _).symm.trans hfl) (by simp)
      refine .inr ⟨.inr ⟨q, hq, ?_, (upd_ne _ _ hqp).symm.trans hfl⟩, rfl⟩
      exact fun hm => hnf ((Multiset.mem_erase_of_ne hqp).mpr hm)
  | accept p lifetime => exact hf.accept hv he.1
  | create p i =>
    refine hf.of hv rfl (fun _ => ⟨rfl, rfl, rfl⟩) ?_
    intro k hk
    refine .inr ⟨?_, rfl⟩
    rcases eq_or_ne k i with rfl | hne
    · exact .inl he.2.1
    · have htbl : (v.apply (.create p i)).tbl k = v.tbl k := upd_ne _ _ hne
      rcases hk with hnone | ⟨q, hq, hnf, hfl⟩
      · exact .inl (htbl ▸ hnone)
      · rw [htbl] at hq
        have hqp : q ≠ p := by
          rintro rfl
          exact he.1 (hv.owner k q hq).1
        exact .inr ⟨q, hq, hnf, (upd_ne _ _ hqp).symm.trans hfl⟩
  | destroy p =>
    refine hf.of hv rfl (fun _ => ⟨rfl, rfl, rfl⟩) ?_
    intro k hk
    refine .inr ⟨?_, rfl⟩
    rcases eq_or_ne k (slot (v.xid p)) with rfl | hne
    · exact .inr ⟨p, hv.slotted p he.1, he.2, hd p rfl⟩
    · have htbl : (v.apply (.destroy p)).tbl k = v.tbl k := upd_ne _ _ hne
      rcases hk with hnone | ⟨q, hq, hnf, hfl⟩
      · exact .inl (htbl ▸ hnone)
      · exact .inr ⟨q, htbl ▸ hq, hnf, hfl⟩

end FreshEvents

section Runs

variable {ticksPerSec : Nat} {xid : Option Nat} {port : Nat → Nat}

def baseOf (xid : Option Nat) (i : Nat) : Nat := ((init 0 xid fun _ => 0).xidUpper i ||| i) % 2 ^ 32

theorem slot_baseOf (xid : Option Nat) {i : Nat} (hi : i < XACT_HASHS) :
    baseOf xid i % XACT_HASHS = i := by
  have hor : ∀ a : Nat, a % 2 ^ 8 = 0 → ((a ||| i) ||| i) % 2 ^ 32 % 2 ^ 8 = i := by
    intro a ha
    rw [Nat.mod_mod_of_dvd _ (by decide : 2 ^ 8 ∣ 2 ^ 32), Nat.or_mod_two_pow, Nat.or_mod_two_pow,
      ha, Nat.mod_eq_of_lt (show i < 2 ^ 8 from hi)]
    simp
  cases xid with
  | none =>
    have h := hor 0 rfl
    rw [Nat.zero_or, Nat.or_self] at h
    show (0 ||| i) % 2 ^ 32 % 2 ^ 8 = i
    rwa [Nat.zero_or]
  | some x =>
    have ha : (x / XACT_HASHS * XACT_HASHS) % XACT_HASHS = 0 := Nat.mul_mod_left _ _
    exact hor (x / XACT_HASHS * XACT_HASHS) ha

theorem sound_init : Sound (baseOf xid) (init ticksPerSec xid port).view where
  base_slot _ hi := slot_baseOf xid hi
  nodup := nodup_nil
  slotted _ hp := by cases hp
  owner _ _ h := by cases h
  flight_live _ hp := absurd hp (Multiset.notMem_zero _)
  flight_nodup := Multiset.nodup_zero
  xid_gen _ hp := by cases hp
  upper_gen i _ _ := by
    show _ = (baseOf xid i + XACT_HASHS * 0) % 2 ^ 32
    rw [Nat.mul_zero, Nat.add_zero, baseOf, Nat.mod_mod]
    rfl
  call_slot _ hj := absurd hj (Nat.not_lt_zero _)
  call_xid _ hj := absurd hj (Nat.not_lt_zero _)
  call_gen _ hj := absurd hj (Nat.not_lt_zero _)

theorem fresh_init : Fresh (init ticksPerSec xid port).view :=
  fun _ _ _ hj => absurd hj (Nat.not_lt_zero _)

variable {base : Nat → Nat}

theorem sound_step {s t : State} {a : Act} (hs : Sound base s.view)
    (h : step ticksPerSec s a = some t) : Sound base t.view := by
  obtain ⟨e, he, hv, -⟩ := step_event h
  rw [hv]
  exact hs.event he

variable {s : State}

theorem sound_of_run {acts : List Act}
    (hrun : run (step ticksPerSec) (init ticksPerSec xid port) acts = some s) :
    Sound (baseOf xid) s.view :=
  run_invariant (fun _ _ _ hi hst => sound_step hi hst) acts _ s sound_init hrun

/-- The generations the slots of the live transactions reach stay below `2 ^ 24`, so that XIDs do
    not come back. -/
def BelowWrap (s : State) : Prop := ∀ p ∈ s.live, s.gen (slot (s.xact p).xid) + 1 < 2 ^ 24

instance (s : State) : Decidable (BelowWrap s) := inferInstanceAs (Decidable (∀ p ∈ _, _))

/-- A transaction whose last call ended with a failed `sendto` is not destroyed before its XID is
    advanced. -/
def XidAdvanced (s : State) : Act → Prop
  | .destroy p => BelowWrap s ∧ (s.xact p).failed = false
  | _ => BelowWrap s

instance (s : State) (a : Act) : Decidable (XidAdvanced s a) := by
  unfold XidAdvanced
  split <;> infer_instance

theorem XidAdvanced.belowWrap {a : Act} (h : XidAdvanced s a) : BelowWrap s := by
  unfold XidAdvanced at h
  split at h
  · exact h.1
  · exact h

def Bounded (v : View) : Prop := ∀ i, v.gen i < 2 ^ 24

theorem gen_event {v : View} (hv : Sound base v) {e : Event} (he : Enabled v e)
    (i : Nat) : (v.apply e).gen i = v.gen i ∨
      ∃ p ∈ v.live, slot (v.xid p) = i ∧ (v.apply e).gen i = v.gen i + 1 := by
  have hadv : ∀ p ∈ v.live, ∀ w : View, w.gen = (v.advance p).gen → w.gen i = v.gen i ∨
      ∃ p ∈ v.live, slot (v.xid p) = i ∧ w.gen i = v.gen i + 1 := by
    intro p hp w hw
    rw [hw]
    rcases eq_or_ne i (slot (v.xid p)) with rfl | hne
    · exact .inr ⟨p, hp, rfl, upd_self _ _ _⟩
    · exact .inl (upd_ne _ _ hne)
  cases e with
  | begin p => exact hadv p he.1 _ rfl
  | timedOut p => exact hadv p (hv.flight_live p he) _ rfl
  | answered p j listed => exact hadv p (hv.owner _ p he.2.2.1).1 _ rfl
  | _ => exact .inl rfl

theorem bounded_event {v : View} (hv : Sound base v) (hb : Bounded v)
    (hw : ∀ p ∈ v.live, v.gen (slot (v.xid p)) + 1 < 2 ^ 24) {e : Event} (he : Enabled v e) :
    Bounded (v.apply e) := by
  intro i
  rcases gen_event hv he i with h | ⟨p, hp, rfl, h⟩
  · rw [h]
    exact hb i
  · rw [h]
    exact hw p hp

theorem fresh_of_run {acts : List Act}
    (hok : StepsMeet (step ticksPerSec) XidAdvanced (init ticksPerSec xid port) acts)
    (hrun : run (step ticksPerSec) (init ticksPerSec xid port) acts = some s) :
    Fresh s.view ∧ Bounded s.view := by
  have key : Sound (baseOf xid) s.view ∧ Fresh s.view ∧ Bounded s.view := by
    have hinit : Bounded (init ticksPerSec xid port).view := fun _ => Nat.two_pow_pos 24
    refine @run_invariant_of_meet _ _ _ _
      (fun s => Sound (baseOf xid) s.view ∧ Fresh s.view ∧ Bounded s.view) ?_ acts _ s
      ⟨sound_init, fresh_init, hinit⟩ hok hrun
    rintro m a t ⟨hs, hf, hb⟩ hk hst
    obtain ⟨e, he, hv, hc⟩ := step_event hst
    refine ⟨sound_step hs hst, ?_, ?_⟩
    · rw [hv]
      refine hf.event hs he ?_
      rintro p rfl
      subst hc
      exact hk.2
    · rw [hv]
      exact bounded_event hs hb hk.belowWrap he
  exact key.2

end Runs

section Table

variable {base : Nat → Nat} {s : State}

theorem probe_none {tbl : Nat → Option Ptr} : ∀ {n i : Nat}, probe tbl n i = none →
    ∀ k, 1 ≤ k → k ≤ n → tbl ((i + k) % XACT_HASHS) ≠ none
  | 0, _, _, k, h1, h2 => by omega
  | n + 1, i, h, k, h1, h2 => by
    unfold probe at h
    simp only at h
    split at h
    · cases h
    · rename_i hsome
      rcases Nat.eq_or_lt_of_le h1 with rfl | hlt
      · exact fun hn => hsome (isNone_iff_eq_none.mpr hn)
      · have ih := probe_none h (k - 1) (by omega) (by omega)
        grind

theorem probe_eq_none {tbl : Nat → Option Ptr} (j : Nat) :
    probe tbl XACT_HASHS j = none ↔ ∀ i < XACT_HASHS, tbl i ≠ none := by
  constructor
  · intro h i hi
    have hk := probe_none h ((i + XACT_HASHS - 1 - j % XACT_HASHS) % XACT_HASHS + 1) (by omega)
      (by unfold XACT_HASHS; omega)
    grind
  · intro h
    cases hp : probe tbl XACT_HASHS j with
    | none => rfl
    | some k => exact absurd (probe_spec hp).1 (h k (probe_spec hp).2)

theorem Sound.nodup_slots (hs : Sound base s.view) :
    (s.live.map fun p => slot (s.xact p).xid).Nodup := by
  refine (nodup_map_iff_inj_on hs.nodup).mpr ?_
  intro p hp q hq h
  by_contra hne
  exact hs.slot_ne hq hp hne h

/-- **A slot is free exactly when fewer transactions are live than the table has slots.** -/
theorem Sound.free_iff (hs : Sound base s.view) :
    (∃ i < XACT_HASHS, s.xactHashTbl i = none) ↔ s.live.length < XACT_HASHS := by
  constructor
  · rintro ⟨i, hi, hnone⟩
    have hni : i ∉ s.live.map fun p => slot (s.xact p).xid := by
      intro hm
      obtain ⟨p, hp, rfl⟩ := mem_map.mp hm
      cases (hs.slotted p hp).symm.trans hnone
    have hsub : (i :: s.live.map fun p => slot (s.xact p).xid) ⊆ List.range XACT_HASHS := by
      intro k hk
      rcases mem_cons.mp hk with rfl | hk
      · exact mem_range.mpr hi
      · obtain ⟨p, -, rfl⟩ := mem_map.mp hk
        exact mem_range.mpr (slot_lt _)
    have hlen := ((nodup_cons.mpr ⟨hni, hs.nodup_slots⟩).subperm hsub).length_le
    rw [length_cons, length_map, length_range] at hlen
    omega
  · intro hlt
    by_contra hno
    have hsub : List.range XACT_HASHS ⊆ s.live.map fun p => slot (s.xact p).xid := by
      intro i hi
      cases ht : s.xactHashTbl i with
      | none => exact absurd ⟨i, mem_range.mp hi, ht⟩ hno
      | some p => exact mem_map.mpr ⟨p, (hs.owner i p ht).1, (hs.owner i p ht).2⟩
    have hlen := (nodup_range.subperm hsub).length_le
    rw [length_map, length_range] at hlen
    omega

theorem Sound.create_iff (hs : Sound base s.view) (hq : s.msgQOpen = true) (p : Ptr) :
    (rpcUdpXactCreate s p true).2 = true ↔ s.live.length < XACT_HASHS := by
  rw [← hs.free_iff]
  unfold rpcUdpXactCreate
  simp only [if_true, hq]
  cases hp : probe s.xactHashTbl XACT_HASHS (slot (s.xidHashSeed ^^^ (p >>> 10))) with
  | none =>
    have h := (probe_eq_none _).mp hp
    simp only [Bool.false_eq_true, false_iff]
    rintro ⟨i, hi, hnone⟩
    exact h i hi hnone
  | some i =>
    obtain ⟨hnone, hi⟩ := probe_spec hp
    simp only [true_iff]
    exact ⟨i, hi, hnone⟩

end Table

/-- Live transactions and slots correspond, the slot of a transaction being the low bits of its
    XID. -/
structure TableInvariant (s : State) : Prop where
  nodup : s.live.Nodup
  occupies : ∀ p ∈ s.live, ∀ i, s.xactHashTbl i = some p ↔ i = slot (s.xact p).xid
  distinct : ∀ p ∈ s.live, ∀ q ∈ s.live, slot (s.xact p).xid = slot (s.xact q).xid → p = q
  empty : ∀ i, (∀ p ∈ s.live, slot (s.xact p).xid ≠ i) → s.xactHashTbl i = none

theorem Sound.tableInvariant {base : Nat → Nat} {s : State} (hs : Sound base s.view) :
    TableInvariant s := by
  refine ⟨hs.nodup, ?_, ?_, ?_⟩
  · intro p hp i
    constructor
    · intro h
      exact (hs.owner i p h).2.symm
    · rintro rfl
      exact hs.slotted p hp
  · intro p hp q hq h
    by_contra hne
    exact hs.slot_ne hq hp hne h
  · intro i hi
    cases h : s.xactHashTbl i with
    | none => rfl
    | some p => exact absurd (hs.owner i p h).2 (hi p (hs.owner i p h).1)

theorem slot_step {ticksPerSec : Nat} {s t : State} {a : Act}
    (h : step ticksPerSec s a = some t) {p : Ptr} (hp : p ∈ s.live) :
    slot (t.xact p).xid = slot (s.xact p).xid := by
  obtain ⟨e, he, hv, -⟩ := step_event h
  show slot (t.view.xid p) = slot (s.view.xid p)
  rw [hv]
  cases e with
  | begin q => exact slot_xid_advance _ _ _
  | timedOut q => exact slot_xid_advance _ _ _
  | answered q j listed => exact slot_xid_advance _ _ _
  | create q i =>
    have hne : p ≠ q := by
      rintro rfl
      exact he.1 hp
    exact congrArg slot (upd_ne _ _ hne)
  | _ => rfl

/-- A transaction created in a slot has an XID that no call through the slot had. -/
def NewXidUnused (s : State) : Prop :=
  ∀ p header, p ∉ s.live → (rpcUdpXactCreate s p header).2 = true →
    ∀ j < s.ncalls, (s.call j).slot = slot ((rpcUdpXactCreate s p header).1.xact p).xid →
      (s.call j).xid ≠ ((rpcUdpXactCreate s p header).1.xact p).xid

theorem Fresh.newXidUnused {base : Nat → Nat} {s : State} (hs : Sound base s.view)
    (hf : Fresh s.view) (hb : Bounded s.view) : NewXidUnused s := by
  intro p header _ hc j hj hslot heq
  unfold rpcUdpXactCreate at hc hslot heq
  split at hc
  · rename_i hh
    simp only [hh, if_true] at hc hslot heq
    split at hc
    · cases hc
    · rename_i i hi
      simp only [hi, upd_self] at hslot heq
      split at hi
      · obtain ⟨hnone, hlt⟩ := probe_spec hi
        have hx := hs.upper_gen i hlt hnone
        have hx' : (s.xidUpper i ||| i) % 2 ^ 32 = encode (base i) (s.gen i) := hx
        rw [hx', slot_encode _ (hs.base_slot i hlt)] at hslot
        have hgen : (s.call j).gen < s.gen i := hf i (.inl hnone) j hj hslot
        have hcx : (s.call j).xid = encode (base (s.call j).slot) (s.call j).gen :=
          hs.call_xid j hj
        rw [hx', hcx, hslot] at heq
        have hbi : s.gen i < 2 ^ 24 := hb i
        have := encode_inj (by omega) hbi heq
        omega
      · cases hi
  · cases hc

/-- **The hash table in every run of requestors and daemon**: transactions and slots correspond,
    no step changes the slot of a transaction, and `rpcUdpXactCreate` finds a slot exactly when
    fewer transactions are live than there are slots.  If no transaction is destroyed with the
    XID of a call whose `sendto` failed, a new transaction never has the XID of an earlier call
    through its slot. -/
theorem table_of_run {ticksPerSec : Nat} {xid : Option Nat} {port : Nat → Nat} {acts : List Act}
    {s : State} (hrun : run (step ticksPerSec) (init ticksPerSec xid port) acts = some s) :
    TableInvariant s ∧
    (∀ a t, step ticksPerSec s a = some t → ∀ p ∈ s.live, slot (t.xact p).xid = slot (s.xact p).xid) ∧
    (s.msgQOpen = true → ∀ p, (rpcUdpXactCreate s p true).2 = true ↔ s.live.length < XACT_HASHS) ∧
    (StepsMeet (step ticksPerSec) XidAdvanced (init ticksPerSec xid port) acts → NewXidUnused s) := by
  have hs := sound_of_run hrun
  refine ⟨hs.tableInvariant, ?_, ?_, ?_⟩
  · intro a t h p hp
    exact slot_step h hp
  · intro hq p
    exact hs.create_iff hq p
  · intro hok
    obtain ⟨hf, hb⟩ := fresh_of_run hok hrun
    exact hf.newXidUnused hs hb

/-- A call that is transmitted once, answered, and whose transaction is destroyed. -/
def answeredRun : List Act :=
  [.create 4096 true, .sendBegin 4096 0 10 true, .sendQueue 4096, .sendEvent 4096,
   .kevent false false 5, .tx, .tx, .work true, .work true, .insert, .insert,
   .kevent true false 7, .rcv 0 2049, .rcv 0 2049, .rcvEnd, .work true, .insert, .destroy 4096]

theorem table_of_run_answeredRun :
    ∃ s, run (step 100) (init 100 none fun _ => 2049) answeredRun = some s ∧
      s.ncalls = 1 ∧ (s.call 0).done = 1 ∧ TableInvariant s ∧
      ((rpcUdpXactCreate s 8192 true).2 = true ↔ s.live.length < XACT_HASHS) ∧ NewXidUnused s := by
  have h := @table_of_run 100 none (fun _ => 2049) answeredRun _ rfl
  exact ⟨_, rfl, by decide, by decide, h.1, h.2.2.1 (by decide) 8192, h.2.2.2 (by decide)⟩

/-- A call that is transmitted once and whose retransmission fails, and whose transaction is
    destroyed. -/
def failedRun : List Act :=
  [.create 4096 true, .sendBegin 4096 0 10 true, .sendQueue 4096, .sendEvent 4096,
   .kevent false false 5, .tx, .tx, .work true, .work true, .insert, .insert,
   .kevent false false 7, .work false, .destroy 4096]

/-- The next transaction of the slot has the XID of the call of `failedRun`. -/
theorem failedRun_reuses :
    ∃ s, run (step 100) (init 100 none fun _ => 2049) failedRun = some s ∧
      (s.call 0).sends = 1 ∧ (rpcUdpXactCreate s 5120 true).2 = true ∧
      ((rpcUdpXactCreate s 5120 true).1.xact 5120).xid = (s.call 0).xid ∧ ¬ NewXidUnused s := by
  refine ⟨_, rfl, by decide, by decide, by decide, ?_⟩
  intro h
  exact h 5120 true (by decide) (by decide) 0 (by decide) (by decide) (by decide)

end RtemsLibbsd.Rpcio
