import RtemsLibbsd.Ppp.Input

/-!
# The PPP receive daemon and its buffers

Model of `ppp_rxdaemon` and of what `ppp_inproc` does with the chain of a packet (`if_ppp.c`), next to the
receiver interrupt.

* `RxState` — the receiver and the place of the daemon.  `pppinput` is one step; the daemon's steps are its
  accesses to what it shares with the interrupt: the events, the two queues.
* Events of one kind merge while they are pending, and `rtems_event_receive` takes all of them.
* The allocations of the daemon succeed, but for the header mbuf of `ppp_inproc`, which does not wait.
* `Softc.entries`, `Softc.mbufs` — the buffers of the receiver, counted as chains and as mbufs.

The interrupt takes buffers from the free queue and says so with `RX_MBUF` and `RX_PACKET`; for each of
these the daemon puts a buffer back.  The buffers are conserved if no `RX_MBUF` merges, neither with another
one nor with `RX_PACKET` in one `rtems_event_receive`: `buffers_conserved`.
-/

namespace RtemsLibbsd.Ppp

open Option RtemsLibbsd.Transition

inductive RxPc where
  | waiting
  | received (packet : Bool)
  | dequeued (m : RawPacket)
  | replacing (mp : Option Chain)
  | enqueued
  | posting
  deriving DecidableEq

structure RxState where
  sc : Softc
  pc : RxPc
  deriving DecidableEq

inductive RxAct where
  | input (c : Byte)
  /-- The daemon goes on; `header` says whether `ppp_inproc` gets a header mbuf. -/
  | daemon (header : Bool)

/-- The chain that `ppp_inproc` hands back: that of a packet which fits into a header mbuf. -/
def ppp_inproc (mhlen : Nat) (header : Bool) (m : RawPacket) : Option Chain :=
  if m.contents.length ≤ mhlen ∧ header then
    match m.chain with
    | [] => none
    | first :: rest => some ⟨first, rest⟩
  else none

def RxEvents.none : RxEvents := ⟨false, false, false⟩

/-- A step of `ppp_rxdaemon`. -/
def ppp_rxdaemon (mru mhlen : Nat) (header : Bool) (s : RxState) : Option RxState :=
  match s.pc with
  | .waiting =>
    if s.sc.events = .none then none
    else
      let sc := { s.sc with events := .none }
      -- `RX_EMPTY` alone is not processed
      if s.sc.events.packet || s.sc.events.mbuf then some ⟨sc, .received s.sc.events.packet⟩
      else some ⟨sc, .waiting⟩
  | .received packet =>
    match packet, s.sc.rawq with
    | true, m :: rawq => some ⟨{ s.sc with rawq := rawq }, .dequeued m⟩
    | _, _ => some { s with pc := .replacing none }
  | .dequeued m => some { s with pc := .replacing (ppp_inproc mhlen header m) }
  | .replacing mp =>
    some ⟨{ s.sc with freeq := s.sc.freeq ++ [mp.getD (pppallocmbuf mru)] }, .enqueued⟩
  | .enqueued => some { s with pc := if s.sc.rawq = [] then .waiting else .posting }
  | .posting => some ⟨{ s.sc with events := { s.sc.events with packet := true } }, .waiting⟩

def rxStep (cfg : RxConfig) (mhlen : Nat) (s : RxState) : RxAct → Option RxState
  | .input c => some { s with sc := pppinput cfg s.sc c }
  | .daemon header => ppp_rxdaemon cfg.mru mhlen header s

def rxInit : RxState := ⟨pppopen, .waiting⟩

namespace Softc

/-- The buffers on the free queue and the one in `sc_m`. -/
def entries (s : Softc) : Nat := s.freeq.length + if s.m.isSome then 1 else 0

def mbufs (s : Softc) : Nat :=
  (s.freeq.map fun b => 1 + b.rest.length).sum +
    match s.m with
    | some cur => cur.before.length + 1 + cur.behind.length
    | none => 0

/-- An octet that is stored goes into an mbuf from the free queue. -/
def storeTakes (cfg : RxConfig) (s : Softc) (cur : Cur) (c : Byte) : Bool :=
  let p := s.firstOctet cfg cur c
  let q := p.1.protocolOctet p.2.1 c
  p.2.2 && !(decide (p.1.ilen = 1 ∧ c ≠ PPP_UI)) && !(decide (q.1.ilen = 3 ∧ odd c = false)) &&
    decide (short (q.1.ilen + 1) ≤ (cfg.mru + PPP_HDRLEN + PPP_FCSLEN : Nat)) &&
    decide (MCLBYTES ≤ q.2.mc.length) && q.2.behind.isEmpty && !q.1.freeq.isEmpty

def octetTakes (cfg : RxConfig) (s : Softc) (cur : Cur) (c : Byte) : Bool :=
  decide (c ≠ PPP_FLAG) && !removed cfg.rasyncmap c &&
    if s.escaped then storeTakes cfg { s with escaped := false } cur (transform c)
    else decide (c ≠ PPP_ESCAPE) && storeTakes cfg s cur c

/-- The current mbuf of the receive chain is full, and the character needs another one. -/
def takesMbuf (cfg : RxConfig) (s : Softc) (c : Byte) : Bool :=
  match s.m, s.freeq with
  | some cur, _ => s.octetTakes cfg cur c
  | none, b :: freeq =>
    octetTakes cfg { s with m := some b.cur, freeq := freeq, events := { s.events with empty := true } } b.cur c
  | none, [] => false

end Softc

/-- `RX_MBUF` is not sent while it is pending, and not received together with `RX_PACKET`. -/
def NoMerge (cfg : RxConfig) (s : RxState) : RxAct → Prop
  | .input c => s.sc.events.mbuf = true → s.sc.takesMbuf cfg c = false
  | .daemon _ => s.pc = .waiting → ¬ (s.sc.events.packet = true ∧ s.sc.events.mbuf = true)

instance (cfg : RxConfig) : ∀ (s : RxState) (a : RxAct), Decidable (NoMerge cfg s a)
  | s, .input c => inferInstanceAs (Decidable (s.sc.events.mbuf = true → s.sc.takesMbuf cfg c = false))
  | s, .daemon _ =>
    inferInstanceAs (Decidable (s.pc = .waiting → ¬ (s.sc.events.packet = true ∧ s.sc.events.mbuf = true)))

section Interrupt

variable {cfg : RxConfig} {s t : Softc} {cur : Cur} {c : Byte}

/-- The buffers of the receiver with those that the daemon still has to replace. -/
def Softc.credit (s : Softc) : Nat :=
  s.entries + (if s.events.mbuf then 1 else 0) + s.rawq.length

theorem credit_congr (hfreeq : t.freeq = s.freeq) (hm : t.m.isSome = s.m.isSome)
    (hmbuf : t.events.mbuf = s.events.mbuf) (hrawq : t.rawq = s.rawq) : t.credit = s.credit := by
  rw [Softc.credit, Softc.credit, Softc.entries, Softc.entries, hfreeq, hm, hmbuf, hrawq]

structure SameBuffers (s t : Softc) : Prop where
  freeq : t.freeq = s.freeq
  m : t.m = s.m
  events : t.events = s.events
  rawq : t.rawq = s.rawq

theorem SameBuffers.trans {u : Softc} (h : SameBuffers s t) (h' : SameBuffers t u) : SameBuffers s u :=
  ⟨h'.freeq.trans h.freeq, h'.m.trans h.m, h'.events.trans h.events, h'.rawq.trans h.rawq⟩

theorem sameBuffers_firstOctet (cfg : RxConfig) (s : Softc) (cur : Cur) (c : Byte) :
    SameBuffers s (s.firstOctet cfg cur c).1 := by
  unfold Softc.firstOctet
  split
  · split
    · split <;> exact ⟨rfl, rfl, rfl, rfl⟩
    · exact ⟨rfl, rfl, rfl, rfl⟩
  · exact ⟨rfl, rfl, rfl, rfl⟩

theorem sameBuffers_protocolOctet (s : Softc) (cur : Cur) (c : Byte) :
    SameBuffers s (s.protocolOctet cur c).1 := by
  unfold Softc.protocolOctet
  split <;> exact ⟨rfl, rfl, rfl, rfl⟩

theorem credit_toFlush (h : SameBuffers s t) (hm : s.m.isSome = true) (cur : Cur) :
    (t.toFlush cur).credit = s.credit :=
  credit_congr h.freeq hm.symm (congrArg RxEvents.mbuf h.events) h.rawq

theorem credit_append (h : SameBuffers s t) (hm : s.m.isSome = true)
    (hmerge : s.events.mbuf = true → MCLBYTES ≤ cur.mc.length → cur.behind = [] → s.freeq = []) :
    s.credit ≤ (t.append cur c).credit := by
  have hsame : ∀ u : Softc, u.freeq = t.freeq → u.m.isSome = true → u.events = t.events → u.rawq = t.rawq →
      s.credit ≤ u.credit := by
    intro u hfreeq hsome hevents hrawq
    exact Nat.le_of_eq (credit_congr (hfreeq.trans h.freeq) (hsome.trans hm.symm)
      (congrArg RxEvents.mbuf (hevents.trans h.events)) (hrawq.trans h.rawq)).symm
  unfold Softc.append Softc.room
  split
  · exact hsame _ rfl rfl rfl rfl
  · rename_i hroom
    split at hroom
    · cases hroom
      exact hsame _ rfl rfl rfl rfl
    · split at hroom
      · cases hroom
        exact hsame _ rfl rfl rfl rfl
      · rename_i hbehind
        split at hroom
        · cases hroom
        · rename_i b freeq hfree
          cases hroom
          have hpending : s.events.mbuf = false := by
            rw [← Bool.not_eq_true]
            intro hpending
            have hnil := hmerge hpending (by omega) hbehind
            exact nomatch (h.freeq.symm.trans hfree).symm.trans hnil
          have hlen : s.freeq.length = freeq.length + 1 := by
            rw [← h.freeq, hfree]
            rfl
          simp only [Softc.credit, Softc.entries, h.rawq, hm, hpending, hlen, isSome_some, if_true,
            Bool.false_eq_true, if_false]
          omega

theorem credit_storeOctet (h : SameBuffers s t) (hm : s.m.isSome = true)
    (hmerge : s.events.mbuf = true → (t.ilen = 1 ∧ c ≠ PPP_UI) ∨
      ((t.protocolOctet cur c).1.ilen = 3 ∧ odd c = false) ∨
      short ((t.protocolOctet cur c).1.ilen + 1) > (cfg.mru + PPP_HDRLEN + PPP_FCSLEN : Nat) ∨
      (MCLBYTES ≤ (t.protocolOctet cur c).2.mc.length → (t.protocolOctet cur c).2.behind = [] → s.freeq = [])) :
    s.credit ≤ (t.storeOctet cfg cur c).credit := by
  have hprotocol := h.trans (sameBuffers_protocolOctet t cur c)
  unfold Softc.storeOctet
  split
  · exact Nat.le_of_eq (credit_toFlush h hm cur).symm
  · dsimp only
    split
    · exact Nat.le_of_eq (credit_toFlush hprotocol hm _).symm
    · have hlen : ∀ i, SameBuffers s { (t.protocolOctet cur c).1 with ilen := i } := fun i =>
        ⟨hprotocol.freeq, hprotocol.m, hprotocol.events, hprotocol.rawq⟩
      split
      · exact Nat.le_of_eq (credit_toFlush (hlen _) hm _).symm
      · refine credit_append (hlen _) hm fun hpending => ?_
        grind

theorem credit_store (h : SameBuffers s t) (hm : s.m.isSome = true)
    (hmerge : s.events.mbuf = true → t.storeTakes cfg cur c = false) :
    s.credit ≤ (t.store cfg cur c).credit := by
  have hfirst := h.trans (sameBuffers_firstOctet cfg t cur c)
  have hprotocol := hfirst.trans (sameBuffers_protocolOctet (t.firstOctet cfg cur c).1
    (t.firstOctet cfg cur c).2.1 c)
  unfold Softc.store
  dsimp only
  split
  · rename_i hgo
    refine credit_storeOctet hfirst hm fun hpending => ?_
    have htakes := hmerge hpending
    simp only [Softc.storeTakes, hgo, Bool.true_and, Bool.and_eq_false_iff, Bool.not_eq_false',
      decide_eq_true_eq, decide_eq_false_iff_not, List.isEmpty_eq_false_iff, List.isEmpty_iff] at htakes
    rcases htakes with ((((h1 | h3) | hlimit) | hroom) | hbehind) | hfree
    · exact Or.inl h1
    · exact Or.inr (Or.inl h3)
    · exact Or.inr (Or.inr (Or.inl (Int.not_le.mp hlimit)))
    · exact Or.inr (Or.inr (Or.inr fun hfull _ => absurd hfull hroom))
    · exact Or.inr (Or.inr (Or.inr fun _ hnil => absurd hnil hbehind))
    · exact Or.inr (Or.inr (Or.inr fun _ _ => hprotocol.freeq.symm.trans hfree))
  · exact Nat.le_of_eq (credit_toFlush hfirst hm _).symm

theorem credit_endFrame (hm : s.m = some cur) : s.credit ≤ (s.endFrame cur).credit := by
  unfold Softc.endFrame
  split
  · exact Nat.le_refl _
  · split
    · exact Nat.le_refl _
    · cases hfree : s.freeq with
      | nil =>
        simp only [Softc.credit, Softc.entries, hm, hfree, List.head?_nil, map_none, isSome_none,
          isSome_some, List.tail_nil, List.length_nil, List.length_append, List.length_singleton,
          Bool.false_eq_true, if_false, if_true]
        omega
      | cons b freeq =>
        simp only [Softc.credit, Softc.entries, hm, hfree, List.head?_cons, map_some,
          isSome_some, List.tail_cons, List.length_cons, List.length_append, List.length_nil, if_true]
        omega

theorem credit_octet (hm : s.m = some cur) (hmerge : s.events.mbuf = true → s.octetTakes cfg cur c = false) :
    s.credit ≤ (s.octet cfg cur c).credit := by
  have hsome : s.m.isSome = true := by
    rw [hm]
    rfl
  unfold Softc.octet
  split
  · exact credit_endFrame hm
  · split
    · exact Nat.le_refl _
    · have htakes : s.events.mbuf = true →
          (if s.escaped then Softc.storeTakes cfg { s with escaped := false } cur (transform c)
            else decide (c ≠ PPP_ESCAPE) && s.storeTakes cfg cur c) = false := by
        intro hpending
        grind [Softc.octetTakes]
      split
      · rename_i hescaped
        rw [if_pos hescaped] at htakes
        exact credit_store ⟨rfl, rfl, rfl, rfl⟩ hsome htakes
      · rename_i hescaped
        rw [if_neg hescaped] at htakes
        split
        · exact Nat.le_refl _
        · rename_i hesc
          rw [decide_eq_true hesc] at htakes
          exact credit_store ⟨rfl, rfl, rfl, rfl⟩ hsome htakes

theorem credit_pppinput (hmerge : s.events.mbuf = true → s.takesMbuf cfg c = false) :
    s.credit ≤ (pppinput cfg s c).credit := by
  unfold pppinput
  split
  · grind [credit_octet, Softc.takesMbuf]
  · rename_i hm
    split
    · exact Nat.le_refl _
    · rename_i b freeq hfree
      have htaken : s.credit = ({ s with
          m := some b.cur, freeq := freeq, events := { s.events with empty := true } } : Softc).credit := by
        simp only [Softc.credit, Softc.entries, hm, hfree, List.length_cons, isSome_none,
          isSome_some, Bool.false_eq_true, if_false, if_true]
      rw [htaken]
      refine credit_octet rfl fun hpending => ?_
      have := hmerge hpending
      rw [Softc.takesMbuf] at this
      grind

end Interrupt

section Daemon

variable {cfg : RxConfig} {mhlen : Nat} {s t : RxState} {a : RxAct}

/-- Buffers that the daemon is going to put on the free queue, but for those of packets on the raw queue. -/
def RxPc.owes : RxPc → Nat
  | .received packet => if packet then 0 else 1
  | .dequeued _ => 1
  | .replacing _ => 1
  | _ => 0

def RxPc.needs : RxPc → Nat
  | .received packet => if packet then 1 else 0
  | .posting => 1
  | _ => 0

/-- All buffers are accounted for, and `RX_PACKET` stands for a packet that is not the one that the daemon
    goes for. -/
structure RxInv (s : RxState) : Prop where
  credit : NUM_MBUFQ ≤ s.sc.credit + s.pc.owes
  packets : s.pc.needs + (if s.sc.events.packet ∧ s.pc ≠ .posting then 1 else 0) ≤ s.sc.rawq.length

theorem rxInv_init : RxInv rxInit := ⟨by decide, by decide⟩

/-- The interrupt puts packets on the raw queue, with `RX_PACKET`, and never takes one from it. -/
def Queues (s t : Softc) : Prop :=
  (t.rawq = s.rawq ∧ t.events.packet = s.events.packet) ∨ ∃ m, t.rawq = s.rawq ++ [m]

theorem packet_append (s : Softc) (cur : Cur) (c : Byte) :
    (s.append cur c).events.packet = s.events.packet := by
  unfold Softc.append Softc.room
  split
  · rfl
  · grind

theorem packet_store (cfg : RxConfig) (s : Softc) (cur : Cur) (c : Byte) :
    (s.store cfg cur c).events.packet = s.events.packet := by
  have hfirst := sameBuffers_firstOctet cfg s cur c
  have hprotocol := hfirst.trans (sameBuffers_protocolOctet (s.firstOctet cfg cur c).1
    (s.firstOctet cfg cur c).2.1 c)
  unfold Softc.store
  dsimp only
  split
  · unfold Softc.storeOctet
    split
    · exact congrArg RxEvents.packet hfirst.events
    · dsimp only
      split
      · exact congrArg RxEvents.packet hprotocol.events
      · split
        · exact congrArg RxEvents.packet hprotocol.events
        · rw [packet_append]
          exact congrArg RxEvents.packet hprotocol.events
  · exact congrArg RxEvents.packet hfirst.events

theorem queues_octet (cfg : RxConfig) (s : Softc) (cur : Cur) (c : Byte) : Queues s (s.octet cfg cur c) := by
  unfold Softc.octet
  split
  · unfold Softc.endFrame
    split
    · exact Or.inl ⟨rfl, rfl⟩
    · split
      · exact Or.inl ⟨rfl, rfl⟩
      · exact Or.inr ⟨_, rfl⟩
  · split
    · exact Or.inl ⟨rfl, rfl⟩
    · split
      · exact Or.inl ⟨(kept_store cfg _ cur _).rawq, packet_store cfg _ cur _⟩
      · split
        · exact Or.inl ⟨rfl, rfl⟩
        · exact Or.inl ⟨(kept_store cfg s cur c).rawq, packet_store cfg s cur c⟩

theorem queues_pppinput (cfg : RxConfig) (s : Softc) (c : Byte) : Queues s (pppinput cfg s c) := by
  unfold pppinput
  split
  · exact queues_octet cfg s _ c
  · split
    · exact Or.inl ⟨rfl, rfl⟩
    · exact queues_octet cfg _ _ c

theorem rxInv_input (h : RxInv s) (c : Byte) (hmerge : NoMerge cfg s (.input c)) :
    RxInv { s with sc := pppinput cfg s.sc c } where
  credit := Nat.le_trans h.credit (Nat.add_le_add_right (credit_pppinput hmerge) _)
  packets := by
    have hpackets := h.packets
    show s.pc.needs + (if (pppinput cfg s.sc c).events.packet ∧ s.pc ≠ .posting then 1 else 0) ≤
      (pppinput cfg s.sc c).rawq.length
    rcases queues_pppinput cfg s.sc c with ⟨hrawq, hpacket⟩ | ⟨m, hrawq⟩
    · rw [hrawq, hpacket]
      exact hpackets
    · rw [hrawq, List.length_append, List.length_singleton]
      split <;> omega

theorem credit_enqueue (s : Softc) (b : Chain) :
    ({ s with freeq := s.freeq ++ [b] } : Softc).credit = s.credit + 1 := by
  simp only [Softc.credit, Softc.entries, List.length_append, List.length_singleton]
  omega

theorem rxInv_daemon (h : RxInv s) {header : Bool} (hmerge : NoMerge cfg s (.daemon header))
    (hstep : ppp_rxdaemon cfg.mru mhlen header s = some t) : RxInv t := by
  obtain ⟨sc, pc⟩ := s
  obtain ⟨hcredit, hpackets⟩ := h
  cases pc with
  | waiting =>
    have hnot := hmerge rfl
    have hclear : sc.credit = ({ sc with events := .none } : Softc).credit + if sc.events.mbuf then 1 else 0 := by
      simp only [Softc.credit, Softc.entries, RxEvents.none, Bool.false_eq_true, if_false]
      omega
    simp only [RxPc.owes, RxPc.needs, hclear, ne_eq, reduceCtorEq, not_false_eq_true, and_true] at hcredit hpackets
    simp only [ppp_rxdaemon] at hstep
    split at hstep
    · cases hstep
    · split at hstep
      · rename_i hany
        cases hstep
        cases hpacket : sc.events.packet with
        | true =>
          have hmbuf : sc.events.mbuf = false := by
            rw [← Bool.not_eq_true]
            exact fun hmbuf => hnot ⟨hpacket, hmbuf⟩
          rw [hmbuf] at hcredit
          rw [hpacket] at hpackets
          exact ⟨hcredit, hpackets⟩
        | false =>
          have hmbuf : sc.events.mbuf = true := by simpa [hpacket] using hany
          rw [hmbuf] at hcredit
          exact ⟨hcredit, Nat.zero_le _⟩
      · rename_i hnone
        cases hstep
        simp only [Bool.or_eq_true, not_or, Bool.not_eq_true] at hnone
        rw [hnone.2] at hcredit
        exact ⟨hcredit, Nat.zero_le _⟩
  | received packet =>
    cases packet with
    | true =>
      cases hrawq : sc.rawq with
      | nil =>
        simp only [hrawq, RxPc.needs, List.length_nil, if_true] at hpackets
        omega
      | cons m rawq =>
        simp only [ppp_rxdaemon, hrawq, some.injEq] at hstep
        subst hstep
        simp only [hrawq, List.length_cons, RxPc.needs, RxPc.owes, Softc.credit, Softc.entries, if_true, ne_eq,
          reduceCtorEq, not_false_eq_true, and_true] at hcredit hpackets
        refine ⟨?_, ?_⟩
        · simp only [Softc.credit, Softc.entries, RxPc.owes]
          omega
        · simp only [RxPc.needs, ne_eq, reduceCtorEq, not_false_eq_true, and_true]
          omega
    | false =>
      cases hstep
      refine ⟨hcredit, ?_⟩
      simp only [RxPc.needs, ne_eq, reduceCtorEq, not_false_eq_true, and_true] at hpackets ⊢
      exact hpackets
  | dequeued m =>
    cases hstep
    refine ⟨hcredit, ?_⟩
    simp only [RxPc.needs, ne_eq, reduceCtorEq, not_false_eq_true, and_true] at hpackets ⊢
    exact hpackets
  | replacing mp =>
    cases hstep
    refine ⟨?_, ?_⟩
    · rw [credit_enqueue]
      exact hcredit
    · simp only [RxPc.needs, ne_eq, reduceCtorEq, not_false_eq_true, and_true] at hpackets ⊢
      exact hpackets
  | enqueued =>
    cases hstep
    refine ⟨?_, ?_⟩
    · split <;> exact hcredit
    · split
      · simp only [RxPc.needs, ne_eq, reduceCtorEq, not_false_eq_true, and_true] at hpackets ⊢
        exact hpackets
      · rename_i hmore
        have hpos : 1 ≤ sc.rawq.length := List.length_pos_of_ne_nil hmore
        simp only [RxPc.needs, ne_eq, not_true_eq_false, and_false, if_false]
        exact hpos
  | posting =>
    cases hstep
    refine ⟨hcredit, ?_⟩
    simp only [RxPc.needs, ne_eq, not_true_eq_false, and_false, if_false] at hpackets
    simp only [RxPc.needs, ne_eq, reduceCtorEq, not_false_eq_true, and_true, if_true]
    omega

theorem rxInv_step (s : RxState) (a : RxAct) (t : RxState) (h : RxInv s) (hmerge : NoMerge cfg s a)
    (hstep : rxStep cfg mhlen s a = some t) : RxInv t := by
  cases a with
  | input c =>
    cases hstep
    exact rxInv_input h c hmerge
  | daemon header => exact rxInv_daemon h hmerge hstep

theorem entries_le_mbufs (s : Softc) : s.entries ≤ s.mbufs := by
  have hchains : ∀ bs : List Chain, bs.length ≤ (bs.map fun b => 1 + b.rest.length).sum := by
    intro bs
    induction bs with
    | nil => exact Nat.le_refl 0
    | cons b bs ih =>
      rw [List.map_cons, List.sum_cons, List.length_cons]
      omega
  unfold Softc.entries Softc.mbufs
  grind

/-- **The receive buffers are conserved**: in every run in which no `RX_MBUF` merges, whenever the daemon
    waits with no event pending and the raw queue is empty, there are as many chains on the free queue and
    in `sc_m`, and so at least as many mbufs, as `pppopen` provided. -/
theorem buffers_conserved (cfg : RxConfig) (mhlen : Nat) (as : List RxAct)
    (hmeet : StepsMeet (rxStep cfg mhlen) (NoMerge cfg) rxInit as) (t : RxState)
    (hrun : run (rxStep cfg mhlen) rxInit as = some t) (hpc : t.pc = .waiting)
    (hevents : t.sc.events = .none) (hrawq : t.sc.rawq = []) :
    NUM_MBUFQ ≤ t.sc.entries ∧ NUM_MBUFQ ≤ t.sc.mbufs := by
  have hinv := run_invariant_of_meet rxInv_step as rxInit t rxInv_init hmeet hrun
  have hentries : NUM_MBUFQ ≤ t.sc.entries := by
    have hcredit := hinv.credit
    rw [hpc, Softc.credit, hevents, hrawq] at hcredit
    exact hcredit
  exact ⟨hentries, Nat.le_trans hentries (entries_le_mbufs t.sc)⟩

def rxCycle : List RxAct := List.replicate 5 (.daemon true)

def rotation : List RxAct := shortFrame.map .input ++ rxCycle

theorem buffers_conserved_rotation :
    ∃ t, run (rxStep longConfig 168) rxInit rotation = some t ∧
      NUM_MBUFQ ≤ t.sc.entries ∧ NUM_MBUFQ ≤ t.sc.mbufs := by
  have hrun : run (rxStep longConfig 168) rxInit rotation =
      some ⟨⟨some ⟨[], [], []⟩, 0, PPP_GOODFCS, false, false, false,
        List.replicate 62 ⟨[], []⟩ ++ [⟨[PPP_ALLSTATIONS, PPP_UI, 0, 0x21], []⟩], [], .none, false⟩,
        .waiting⟩ := by
    decide
  exact ⟨_, hrun, buffers_conserved longConfig 168 rotation (by decide) _ hrun rfl rfl rfl⟩

end Daemon

section Loss

/-- The octets of a frame up to the first one in a second mbuf: those behind the protocol make the check
    sequence zero, and it stays zero up to the trailer. -/
def largeStart : List Byte := [0x21] ++ ([0x0c, 0x3f] ++ List.replicate 2042 0) ++ [0xff]

def largeFrame : List Byte := largeStart ++ [0xff, PPP_FLAG]

theorem pppfcs_zeros {zeros : List Byte} (h : ∀ c ∈ zeros, c = 0) : pppfcs 0 zeros = 0 := by
  induction zeros with
  | nil => rfl
  | cons c cs ih =>
    have hc : PPP_FCS 0 c = 0 := by
      rw [h c List.mem_cons_self]
      decide
    show pppfcs (PPP_FCS 0 c) cs = 0
    rw [hc, ih fun d hd => h d (List.mem_cons_of_mem c hd)]

theorem feed_secondMbuf (mc : Mbuf) (fcs : BitVec 16) (pktlost starved : Bool) (b : Chain)
    (freeq : List Chain) (events : RxEvents) :
    ∃ first, first.length = MCLBYTES ∧
      feed longConfig ⟨some ⟨[], mc, []⟩, 0, fcs, false, false, pktlost, b :: freeq, [], events, starved⟩
          (largeStart.map .input) =
        ⟨some ⟨[first], [0xff], []⟩, 2049, PPP_FCS 0 0xff, false, false, pktlost, freeq, [],
          { events with mbuf := true }, starved⟩ := by
  have hheader : feed longConfig
      ⟨some ⟨[], mc, []⟩, 0, fcs, false, false, pktlost, b :: freeq, [], events, starved⟩ [.input 0x21] =
      ⟨some ⟨[], [PPP_ALLSTATIONS, PPP_UI, 0, 0x21], []⟩, 4, PPP_FCS PPP_INITFCS 0x21, false, false, pktlost,
        b :: freeq, [], events, starved⟩ := rfl
  have hzero : ∀ c ∈ List.replicate 2042 (0 : Byte), c = 0 := fun c hc => List.eq_of_mem_replicate hc
  have hlen : (List.replicate 2042 (0 : Byte)).length = 2042 := List.length_replicate
  rw [largeStart]
  generalize List.replicate 2042 (0 : Byte) = zeros at hzero hlen
  have hfcs : pppfcs (PPP_FCS PPP_INITFCS 0x21) ([0x0c, 0x3f] ++ zeros) = 0 := by
    have hfirst : pppfcs (PPP_FCS PPP_INITFCS 0x21) [0x0c, 0x3f] = 0 := by decide
    rw [pppfcs_append, hfirst, pppfcs_zeros hzero]
  have hoctets : ([0x0c, 0x3f] ++ zeros).length = 2044 := by
    rw [List.length_append, hlen]
    rfl
  have hfirst : ∀ c ∈ ([0x0c, 0x3f] : List Byte), plain longConfig c = true := by decide
  have hplain : ∀ c ∈ [0x0c, 0x3f] ++ zeros, plain longConfig c = true := by
    intro c hc
    rcases List.mem_append.mp hc with hc | hc
    · exact hfirst c hc
    · rw [hzero c hc]
      decide
  generalize [0x0c, 0x3f] ++ zeros = cs at hfcs hoctets hplain
  have hplains := feed_plain (s := ⟨some ⟨[], [PPP_ALLSTATIONS, PPP_UI, 0, 0x21], []⟩, 4,
      PPP_FCS PPP_INITFCS 0x21, false, false, pktlost, b :: freeq, [], events, starved⟩) (k := 4) hplain
    (by decide) rfl rfl rfl (by decide) (by rw [hoctets]; decide) (by rw [hoctets]; decide)
  rw [hoctets, hfcs] at hplains
  have hfull : ([PPP_ALLSTATIONS, PPP_UI, 0, 0x21] ++ cs).length = MCLBYTES := by
    rw [List.length_append, hoctets]
    rfl
  have hlast : plain longConfig 0xff = true := by decide
  have hlimit : 2048 + 1 ≤ longConfig.mru + PPP_HDRLEN + PPP_FCSLEN := by decide
  have hsecond := pppinput_full (s := ⟨some ⟨[], [PPP_ALLSTATIONS, PPP_UI, 0, 0x21] ++ cs, []⟩, 2048, 0, false,
      false, pktlost, b :: freeq, [], events, starved⟩) hlast (by decide) rfl rfl rfl (by decide) hlimit hfull
    rfl rfl
  refine ⟨_, hfull, ?_⟩
  rw [List.map_append, List.map_append, feed_append, feed_append, List.map_singleton, hheader, hplains]
  exact hsecond

/-- The frame takes two buffers from the free queue, and leaves `RX_MBUF` and `RX_PACKET` pending. -/
theorem feed_largeFrame (mc : Mbuf) (fcs : BitVec 16) (pktlost starved : Bool) (b b' : Chain)
    (freeq : List Chain) :
    ∃ first, first.length = MCLBYTES ∧
      feed longConfig ⟨some ⟨[], mc, []⟩, 0, fcs, false, false, pktlost, b :: b' :: freeq, [], .none, starved⟩
          (largeFrame.map .input) =
        ⟨some b'.cur, 0, PPP_GOODFCS, false, false, false, freeq, [⟨pktlost, [first, []]⟩],
          ⟨true, true, false⟩, starved⟩ := by
  obtain ⟨first, hfirst, hsecond⟩ := feed_secondMbuf mc fcs pktlost starved b (b' :: freeq) .none
  have hlast : plain longConfig 0xff = true := by decide
  have hlimit : 2049 + 1 ≤ longConfig.mru + PPP_HDRLEN + PPP_FCSLEN := by decide
  have hoctet := pppinput_plain (s := ⟨some ⟨[first], [0xff], []⟩, 2049, PPP_FCS 0 0xff, false, false, pktlost,
      b' :: freeq, [], { RxEvents.none with mbuf := true }, starved⟩) hlast (by decide) rfl rfl rfl (by decide) hlimit
  have hstep : pppinput longConfig ⟨some ⟨[first], [0xff], []⟩, 2049, PPP_FCS 0 0xff, false, false, pktlost,
      b' :: freeq, [], { RxEvents.none with mbuf := true }, starved⟩ 0xff =
      ⟨some ⟨[first], [0xff, 0xff], []⟩, 2050, PPP_FCS (PPP_FCS 0 0xff) 0xff, false, false, pktlost,
        b' :: freeq, [], { RxEvents.none with mbuf := true }, starved⟩ := hoctet.trans rfl
  refine ⟨first, hfirst, ?_⟩
  rw [largeFrame, List.map_append, feed_append, hsecond]
  have htwo : ∀ s, feed longConfig s ([0xff, PPP_FLAG].map .input) =
      pppinput longConfig (pppinput longConfig s 0xff) PPP_FLAG := fun _ => rfl
  rw [htwo, hstep]
  rfl

theorem run_input {cfg : RxConfig} {mhlen : Nat} (sc : Softc) (pc : RxPc) (cs : List Byte) :
    run (rxStep cfg mhlen) ⟨sc, pc⟩ (cs.map .input) = some ⟨feed cfg sc (cs.map .input), pc⟩ := by
  induction cs generalizing sc with
  | nil => rfl
  | cons c cs ih => exact ih (pppinput cfg sc c)

/-- `RX_MBUF` and `RX_PACKET` are received together, and one chain is put on the free queue. -/
theorem run_rxCycle_large {first : Mbuf} (hfirst : first.length = MCLBYTES) (m : Option Cur) (pktlost : Bool)
    (freeq : List Chain) :
    run (rxStep longConfig 168) ⟨⟨m, 0, PPP_GOODFCS, false, false, false, freeq, [⟨pktlost, [first, []]⟩],
        ⟨true, true, false⟩, false⟩, .waiting⟩ rxCycle =
      some ⟨⟨m, 0, PPP_GOODFCS, false, false, false, freeq ++ [⟨[], [[]]⟩], [], .none, false⟩, .waiting⟩ := by
  have hinproc : ppp_inproc 168 true ⟨pktlost, [first, []]⟩ = none := by
    have hlong : ¬ (RawPacket.contents ⟨pktlost, [first, []]⟩).length ≤ 168 := by
      have hlen : (RawPacket.contents ⟨pktlost, [first, []]⟩).length = MCLBYTES := by
        simp [RawPacket.contents, hfirst]
      rw [hlen]
      decide
    exact if_neg fun h => hlong h.1
  have hcycle : run (rxStep longConfig 168) ⟨⟨m, 0, PPP_GOODFCS, false, false, false, freeq,
        [⟨pktlost, [first, []]⟩], ⟨true, true, false⟩, false⟩, .waiting⟩ rxCycle =
      some ⟨⟨m, 0, PPP_GOODFCS, false, false, false,
        freeq ++ [(ppp_inproc 168 true ⟨pktlost, [first, []]⟩).getD (pppallocmbuf 2047)], [], .none, false⟩,
        .waiting⟩ := rfl
  rw [hcycle, hinproc]
  rfl

/-- A frame in two mbufs, then frames that bring the pair of mbufs allocated for it to the head of the
    free queue, then another frame in two mbufs: the second mbuf of the pair is cut off. -/
def mergedRun : List RxAct :=
  largeFrame.map .input ++ (rxCycle ++ ((List.replicate 61 rotation).flatten ++
    (largeFrame.map .input ++ rxCycle)))

def mbufLost : Softc :=
  ⟨some ⟨[], [PPP_ALLSTATIONS, PPP_UI, 0, 0x21], []⟩, 0, PPP_GOODFCS, false, false, false,
    List.replicate 60 ⟨[PPP_ALLSTATIONS, PPP_UI, 0, 0x21], []⟩ ++ [⟨[], [[]]⟩], [], .none, false⟩

/-- The buffers after the run: an mbuf is lost. -/
theorem merged_events_lose_mbuf :
    pppiocsmru PPP_MRU 2047 = some longConfig.mru ∧
      ∃ t, run (rxStep longConfig 168) rxInit mergedRun = some t ∧ t.pc = .waiting ∧
        t.sc.events = .none ∧ t.sc.rawq = [] ∧ t.sc.mbufs < NUM_MBUFQ := by
  obtain ⟨first, hfirst, hframe⟩ := feed_largeFrame [] 0 false false ⟨[], []⟩ ⟨[], []⟩
    (List.replicate 61 ⟨[], []⟩)
  obtain ⟨second, hsecond, hframe'⟩ := feed_largeFrame [] PPP_GOODFCS false false ⟨[], [[]]⟩
    ⟨[PPP_ALLSTATIONS, PPP_UI, 0, 0x21], []⟩ (List.replicate 60 ⟨[PPP_ALLSTATIONS, PPP_UI, 0, 0x21], []⟩)
  have hrotate : run (rxStep longConfig 168) ⟨⟨some (Chain.cur ⟨[], []⟩), 0, PPP_GOODFCS, false, false, false,
        List.replicate 61 ⟨[], []⟩ ++ [⟨[], [[]]⟩], [], .none, false⟩, .waiting⟩
        (List.replicate 61 rotation).flatten =
      some ⟨⟨some ⟨[], [], []⟩, 0, PPP_GOODFCS, false, false, false,
        ⟨[], [[]]⟩ :: List.replicate 61 ⟨[PPP_ALLSTATIONS, PPP_UI, 0, 0x21], []⟩, [], .none, false⟩,
        .waiting⟩ := by
    decide +kernel
  have hinit : rxInit = ⟨⟨some ⟨[], [], []⟩, 0, 0, false, false, false,
      ⟨[], []⟩ :: ⟨[], []⟩ :: List.replicate 61 ⟨[], []⟩, [], .none, false⟩, .waiting⟩ := rfl
  refine ⟨rfl, ⟨mbufLost, .waiting⟩, ?_, rfl, rfl, rfl, by decide⟩
  rw [mergedRun, run_append ((congrArg (run _ · _) hinit).trans (run_input _ _ _)), hframe,
    run_append (run_rxCycle_large hfirst _ _ _), run_append hrotate]
  show run (rxStep longConfig 168) ⟨⟨some ⟨[], [], []⟩, 0, PPP_GOODFCS, false, false, false,
    ⟨[], [[]]⟩ :: ⟨[PPP_ALLSTATIONS, PPP_UI, 0, 0x21], []⟩ ::
      List.replicate 60 ⟨[PPP_ALLSTATIONS, PPP_UI, 0, 0x21], []⟩, [], .none, false⟩, .waiting⟩ _ = _
  rw [run_append (run_input _ _ _), hframe']
  exact run_rxCycle_large hsecond _ _ _

end Loss

end RtemsLibbsd.Ppp
