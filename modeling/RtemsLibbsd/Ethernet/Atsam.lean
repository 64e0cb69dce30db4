import RtemsLibbsd.Transition
import RtemsLibbsd.BufferRing
import RtemsLibbsd.Ethernet.Mbuf

/-!
# The transmit ring of the ATSAM Ethernet driver

`if_atsam_setup_tx`, `if_atsam_tx_reclaim`, `if_atsam_tx_enqueue` and `if_atsam_transmit` of
`rtemsbsd/sys/dev/atsam/if_atsam.c`.  A transmit call has the lock of the driver, so there is one at a time; the
hardware works at the same time.  Each store to a descriptor is a step, and so is each frame that is
reclaimed (the hardware does not write its descriptors any more).

The hardware reads the descriptors in order while they are not marked used.  When a frame is out, it marks the
first descriptor of it, and only this one.  The results of `ether_vlanencap` and `m_defrag`, which depend on free
memory, are part of the actions: both return the frame in another chain, or `NULL`.  When `ether_vlanencap`
returns `NULL`, it has freed the frame; when `m_defrag` returns a chain, it has freed the old one.

* `step` — one step of the driver or of the hardware.
* `Proper` — what has to hold at every moment; `SafeStep` — what has to hold of every step.
* `Encapsulated` — `ether_vlanencap` does not fail; `proper_iff_encapsulated` is the result about runs.
-/

namespace RtemsLibbsd.Atsam

open Transition BufferRing Ethernet

/-! ## Descriptors and frames -/

def txDescCount : Nat := 64

/-- A frame: its chain and `M_VLANTAG`. -/
structure Frame where
  id : Nat
  vlanTag : Bool
  chain : List Mbuf
  deriving DecidableEq

def Frame.bufs (m : Frame) : List Mbuf := nonEmpty m.chain

/-- A descriptor (the fields of its status word) with its entry of `tx_mbufs`. -/
structure Slot where
  addr : Nat
  size : Nat
  used : Bool
  wrap : Bool
  last : Bool
  err : Bool
  mbuf : Option Nat

def txDescWrap (idx : Nat) : Bool := ((idx + 1) &&& txDescCount) ≠ 0

/-! ## The driver -/

/-- Where a transmit call is, with its local variables; `retry` is the second call of
    `if_atsam_tx_enqueue`. -/
inductive Pc where
  | idle
  | fill (m : Frame) (retry : Bool) (n : List Mbuf) (idx bufs : Nat)
  | publish (m : Frame) (retry : Bool) (headIdx idx : Nat) (status : Bool)
  | reclaim (m : Option Frame) (tailIdx : Nat)
  | defrag (m : Frame)
  deriving DecidableEq

/-- `struct if_atsam_softc`, the place of the hardware in the ring, and the ledger: the chains that were handed to
    the driver, the frames that were accepted, those the hardware sent, and the calls of `m_freem`. -/
structure Softc where
  ring : Nat → Slot
  txIdxHead : Nat
  txIdxTail : Nat
  pc : Pc
  opackets : Nat
  oerrors : Nat
  oqdrops : Nat
  hw : Nat
  fault : Bool
  given : List Nat
  accepted : List Frame
  sent : List (List Mbuf)
  freed : List Nat

def ifAtsamSetupTx : Softc where
  ring idx := ⟨0, 0, true, txDescWrap idx, false, false, none⟩
  txIdxHead := 0
  txIdxTail := 0
  pc := .idle
  opackets := 0
  oerrors := 0
  oqdrops := 0
  hw := 0
  fault := false
  given := []
  accepted := []
  sent := []
  freed := []

def Softc.set (k : Softc) (idx : Nat) (s : Slot) : Softc := { k with ring := Function.update k.ring idx s }

/-- The free descriptors, less one: `(tail_idx - head_idx - 1) % TX_DESC_COUNT`. -/
def Softc.capacity (k : Softc) : Nat := (k.txIdxTail + txDescCount - k.txIdxHead - 1) % txDescCount

/-- The start of `if_atsam_tx_enqueue`. -/
def Softc.enqueue (k : Softc) (m : Frame) (retry : Bool) : Softc :=
  { k with pc := .fill m retry m.chain k.txIdxHead 0 }

/-- One pass of the first loop of `if_atsam_tx_enqueue`, or the code behind it. -/
def txEnqueueFill (k : Softc) (m : Frame) (retry : Bool) (n : List Mbuf) (idx bufs : Nat) : Softc :=
  match n with
  | e :: n =>
    if 0 < e.len then
      if k.capacity < bufs + 1 then
        -- the call returns `ENOBUFS`
        if retry then { k with freed := k.freed ++ [m.id], oqdrops := k.oqdrops + 1, pc := .idle }
        else { k with pc := .reclaim (some m) k.txIdxTail }
      else
        { k.set idx ⟨e.data, e.len, true, txDescWrap idx, false, false, (k.ring idx).mbuf⟩ with
          pc := .fill m retry n (next txDescCount idx) (bufs + 1) }
    else { k with pc := .fill m retry n idx bufs }
  | [] =>
    { k.set (prev txDescCount idx) { k.ring (prev txDescCount idx) with mbuf := some m.id } with
      txIdxHead := idx
      pc := .publish m retry k.txIdxHead (prev txDescCount idx) true }

/-- One pass of the second loop, from the last descriptor to the first one. -/
def txEnqueuePublish (k : Softc) (m : Frame) (retry : Bool) (headIdx idx : Nat) (status : Bool) : Softc :=
  let k := k.set idx { k.ring idx with used := false, last := (k.ring idx).last || status }
  if idx ≠ headIdx then { k with pc := .publish m retry headIdx (prev txDescCount idx) false }
  else
    { k with
      accepted := k.accepted ++ [m]
      pc := if retry then .idle else .reclaim none k.txIdxTail }

/-- The inner loop of `if_atsam_tx_reclaim`: the ring, the index and the mbuf at its end, and whether a
    descriptor had an error.  After as many passes as there are descriptors it does not end any more. -/
def reclaimLoop (ring : Nat → Slot) : Nat → Nat → Bool → Option ((Nat → Slot) × Nat × Nat × Bool)
  | 0, _, _ => none
  | fuel + 1, tailIdx, err =>
    match (ring tailIdx).mbuf with
    | none =>
      reclaimLoop (Function.update ring tailIdx { ring tailIdx with used := true }) fuel (next txDescCount tailIdx)
        (err || (ring (next txDescCount tailIdx)).err)
    | some m =>
      some (Function.update ring tailIdx { ring tailIdx with used := true, mbuf := none }, tailIdx, m, err)

/-- One pass of the outer loop of `if_atsam_tx_reclaim`, or the code behind it; `none` is an inner loop that does
    not end. -/
def txReclaim (k : Softc) (m : Option Frame) (tailIdx : Nat) : Option Softc :=
  if k.txIdxHead ≠ tailIdx ∧ (k.ring tailIdx).used then
    (reclaimLoop k.ring txDescCount tailIdx (k.ring tailIdx).err).map fun (ring, last, freed, err) =>
      { k with
        ring := ring
        freed := k.freed ++ [freed]
        opackets := if err then k.opackets else k.opackets + 1
        oerrors := if err then k.oerrors + 1 else k.oerrors
        pc := .reclaim m (next txDescCount last) }
  else
    some { k with
      txIdxTail := tailIdx
      pc := match m with
        | none => .idle
        | some m => .defrag m }

/-- `if_atsam_transmit` up to the first call of `if_atsam_tx_enqueue`. -/
def ifAtsamTransmit (k : Softc) (m : Frame) (encap : Option (List Mbuf)) : Softc :=
  let k := { k with given := m.id :: k.given }
  if m.vlanTag then
    match encap with
    | none => { k with freed := k.freed ++ [m.id] ++ [m.id] }
    | some chain => k.enqueue { m with chain := chain } false
  else k.enqueue m false

/-! ## The hardware -/

/-- The hardware reads the descriptors of a frame from `idx` on; `none` is a frame that is not there as a whole. -/
def hwRead (ring : Nat → Slot) : Nat → Nat → Option (List Mbuf × Nat)
  | 0, _ => none
  | fuel + 1, idx =>
    let s := ring idx
    let idx' := if s.wrap then 0 else idx + 1
    if s.used then none
    else if s.last then some ([⟨s.addr, s.size⟩], idx')
    else (hwRead ring fuel idx').map fun (bufs, e) => (⟨s.addr, s.size⟩ :: bufs, e)

def hwComplete (k : Softc) (err : Bool) : Softc :=
  match hwRead k.ring txDescCount k.hw with
  | none => { k with fault := true }
  | some (bufs, hw) =>
    { k.set k.hw { k.ring k.hw with used := true, err := err } with hw := hw, sent := k.sent ++ [bufs] }

/-! ## Steps -/

inductive Action where
  | transmit (m : Frame) (encap : Option (List Mbuf))
  | driver
  | defrag (n : Option Frame)
  | complete (err : Bool)

/-- Frames are chains with an element that is not empty; a new chain has a new name. -/
def step (k : Softc) : Action → Option Softc
  | .transmit m encap =>
    if k.pc = .idle ∧ m.id ∉ k.given ∧ m.bufs ≠ [] ∧ ∀ n ∈ encap, nonEmpty n ≠ [] then
      some (ifAtsamTransmit k m encap)
    else none
  | .driver =>
    match k.pc with
    | .idle => none
    | .fill m retry n idx bufs => some (txEnqueueFill k m retry n idx bufs)
    | .publish m retry headIdx idx status => some (txEnqueuePublish k m retry headIdx idx status)
    | .reclaim m tailIdx => txReclaim k m tailIdx
    | .defrag _ => none
  | .defrag n =>
    match k.pc, n with
    | .defrag m, none => some (k.enqueue m true)
    | .defrag m, some n =>
      if n.id ∉ k.given ∧ n.bufs ≠ [] then
        some (Softc.enqueue { k with given := n.id :: k.given, freed := k.freed ++ [m.id] } n true)
      else none
    | _, _ => none
  | .complete err => if (k.ring k.hw).used then none else some (hwComplete k err)

/-! ## What has to hold -/

/-- A descriptor without the flags that do not depend on the frame. -/
def Slot.core (s : Slot) : Slot := { s with wrap := false, err := false }

/-- The descriptors of a frame that the hardware may read: one for each element, and the last one has
    the mbuf. -/
def readySlots (id : Nat) : List Mbuf → List Slot
  | [] => []
  | [b] => [⟨b.data, b.len, false, false, true, false, some id⟩]
  | b :: c :: bs => ⟨b.data, b.len, false, false, false, false, none⟩ :: readySlots id (c :: bs)

def Frame.ready (m : Frame) : List Slot := readySlots m.id m.bufs

def markFirst : List Slot → List Slot
  | [] => []
  | s :: ss => { s with used := true } :: ss

def Frame.out (m : Frame) : List Slot := markFirst m.ready

/-- The index where the next frame to be reclaimed starts; `if_atsam_tx_reclaim` has it in a variable. -/
def Softc.tailNow (k : Softc) : Nat :=
  match k.pc with
  | .reclaim _ tailIdx => tailIdx
  | _ => k.txIdxTail

def Softc.headNow (k : Softc) : Nat :=
  match k.pc with
  | .publish _ _ headIdx _ _ => headIdx
  | _ => k.txIdxHead

def Pc.frame : Pc → List Nat
  | .idle => []
  | .fill m _ _ _ _ => [m.id]
  | .publish m _ _ _ _ => [m.id]
  | .reclaim m _ => (m.map Frame.id).toList
  | .defrag m => [m.id]

/-- The descriptors of the frames `out`, which are out, and `pend`, which are not. -/
def flight (out pend : List Frame) : List Slot := out.flatMap Frame.out ++ pend.flatMap Frame.ready

/-- The frames that were accepted: some were reclaimed, then some are out, and the others are not.  The
    last two kinds fill the descriptors from the tail to the head, one frame behind the other. -/
structure Flight (k : Softc) (reclaimed out pend : List Frame) (rest : List Slot) : Prop where
  accepted : k.accepted = reclaimed ++ out ++ pend
  sent : k.sent = (reclaimed ++ out).map Frame.bufs
  ring : view txDescCount (fun idx => (k.ring idx).core) k.tailNow = flight out pend ++ rest
  head : k.headNow = (k.tailNow + (flight out pend).length) % txDescCount
  size : (flight out pend).length ≤ txDescCount - 1
  freed : ∀ m ∈ reclaimed, m.id ∈ k.freed
  /-- Every chain is in the ring, in the call, or was freed exactly once. -/
  account : Account k.given k.freed ((out ++ pend).map Frame.id ++ k.pc.frame)

/-- **What has to hold at every moment.** -/
structure Proper (k : Softc) : Prop where
  flight : ∃ reclaimed out pend rest, Flight k reclaimed out pend rest
  /-- Where the hardware sees a descriptor that is not marked, it sees the rest of the frame too. -/
  ready : ∀ idx < txDescCount, (k.ring idx).used = false → (hwRead k.ring txDescCount idx).isSome
  fault : k.fault = false
  ends : ∀ m tailIdx, k.pc = .reclaim m tailIdx → k.txIdxHead ≠ tailIdx → (k.ring tailIdx).used →
    ∃ f ∈ k.accepted, ∃ ring err, reclaimLoop k.ring txDescCount tailIdx (k.ring tailIdx).err =
      some (ring, (tailIdx + (f.bufs.length - 1)) % txDescCount, f.id, err)

/-- **What has to hold of every step.** -/
structure SafeStep (k : Softc) (a : Action) (t : Softc) : Prop where
  /-- Up to a refusal the descriptors of the frames, the mbufs, head and tail are left as they are. -/
  refused : ∀ m retry n idx bufs, k.pc = .fill m retry n idx bufs → n ≠ [] → a = .driver →
    t.txIdxHead = k.txIdxHead ∧ t.txIdxTail = k.txIdxTail ∧
      ∀ i, (t.ring i).mbuf = (k.ring i).mbuf ∧ ((k.ring i).used → (t.ring i).used) ∧
        ((k.ring i).used = false → t.ring i = k.ring i)
  /-- When the outer loop ends, all frames that are out were freed. -/
  reclaimed : ∀ m tailIdx, k.pc = .reclaim m tailIdx → a = .driver → (∀ m' i, t.pc ≠ .reclaim m' i) →
    ∀ f ∈ k.accepted.take k.sent.length, f.id ∈ t.freed

/-- `ether_vlanencap` does not fail. -/
def Encapsulated (k : Softc) (a : Action) : Prop :=
  (step k a).isSome → ∀ m, a = .transmit m none → m.vlanTag = false

end RtemsLibbsd.Atsam
