import RtemsLibbsd.Transition
import RtemsLibbsd.BufferRing
import RtemsLibbsd.Ethernet.Mbuf

/-!
# The transmit ring of the STM32 Ethernet driver

`stmac_tx_reclaim`, `stmac_tx_enqueue`, `stmac_transmit`, `stmac_transmit_no_link`, `stmac_tx_setup_desc`,
`stmac_init_locked`, `stmac_tx_reclaim_all`, `stmac_stop_locked` and `stmac_miibus_statchg` of
`rtemsbsd/sys/dev/stmac/if_stmac.c`, with the callers of the init and stop functions (`stmac_ioctl`,
`stmac_init`, and `stmac_interrupt` for a fatal bus error).

A transmit call has the transmit lock, and so have a stop and the restart after a bus error; an initialisation by
`stmac_ioctl` has not.  Each element of a chain that is put into the ring, each descriptor that is given to the
hardware and each one that is reclaimed is a step; the hardware completes its descriptors in order between them,
while the DMA is enabled.  Nothing is read from the memory of the ring before the first initialisation, so it
does not matter that it starts with zeros here.

* `step` — one step of the driver, of its environment or of the hardware.
* `Proper` — what has to hold at every moment; `SafeStep` — what has to hold of every step.
* `Accountable` — the condition on the steps: the link was up once, a frame has an element that is not empty and
  none of 2^16 octets or more, and no frame is in the ring when the driver is initialised.
-/

namespace RtemsLibbsd.Stmac

open Transition BufferRing Ethernet

/-! ## Descriptors and frames -/

def txDescCount : Nat := 256

/-- The checksum insertion control in `DESC3`. -/
inductive Cic where
  | none | iphdrInsert | iphdrPayloadInsertPhdrCalc

/-- A frame: its chain, `m_pkthdr.len`, and whether `csum_flags` asks for TCP or UDP and for IP checksums. -/
structure Frame where
  id : Nat
  chain : List Mbuf
  len : Nat
  csumTransport : Bool
  csumIp : Bool
  deriving DecidableEq

def Frame.bufs (m : Frame) : List Mbuf := nonEmpty m.chain

def Frame.cic (m : Frame) : Cic :=
  if m.csumTransport then .iphdrPayloadInsertPhdrCalc else if m.csumIp then .iphdrInsert else .none

/-- `DESC0`, `DESC1` and `DESC2`: two buffers, and the word of their sizes. -/
structure Bufs where
  desc0 : Nat
  desc1 : Nat
  desc2 : Nat
  deriving DecidableEq

/-- `(size << 16) | desc2`, a 32-bit word. -/
def sizes (desc2 size : Nat) : Nat := (size <<< 16 ||| desc2) % 2 ^ 32

/-- `struct stmac_desc` with the fields of `DESC3`. -/
structure Slot where
  bufs : Bufs
  own : Bool
  fd : Bool
  ld : Bool
  es : Bool
  len : Nat
  cic : Cic
  m : Option Nat

def Slot.zero : Slot := ⟨⟨0, 0, 0⟩, false, false, false, false, 0, .none, none⟩

/-! ## The driver -/

/-- Where a transmit call is, with its local variables; `retry` is the second call of `stmac_tx_enqueue`. -/
inductive Pc where
  | idle
  | fill (m : Frame) (retry : Bool) (n : List Mbuf) (idx bufs desc2 : Nat)
  | publish (m : Frame) (retry : Bool) (headIdx idx : Nat) (ld : Bool)
  | reclaim (m : Option Frame) (tailIdx : Nat)
  deriving DecidableEq

/-- The value of `if_transmit`. -/
inductive TransmitFn where
  | transmit | transmitNoLink
  deriving DecidableEq

/-- `struct stmac_softc`, `IFF_DRV_RUNNING`, the place of the hardware in the ring, and the ledger: the mbufs that
    were passed to the transmit function, those that were freed, and since the last initialisation the frames that
    were accepted and the descriptors the hardware completed. -/
structure Softc where
  ring : Nat → Slot
  txIdxHead : Nat
  txIdxTail : Nat
  pc : Pc
  running : Bool
  ifTransmit : TransmitFn
  miiMediaActive : Nat
  miiMediaStatus : Bool
  opackets : Nat
  oerrors : Nat
  oqdrops : Nat
  hw : Nat
  given : List Nat
  freed : List Nat
  accepted : List Frame
  sent : List Slot

def stmacAttach : Softc where
  ring _ := Slot.zero
  txIdxHead := 0
  txIdxTail := 0
  pc := .idle
  running := false
  ifTransmit := .transmitNoLink
  miiMediaActive := 0
  miiMediaStatus := false
  opackets := 0
  oerrors := 0
  oqdrops := 0
  hw := 0
  given := []
  freed := []
  accepted := []
  sent := []

def Softc.set (k : Softc) (idx : Nat) (s : Slot) : Softc := { k with ring := Function.update k.ring idx s }

/-- Two buffers for each free descriptor but one: `2 * ((tail_idx - head_idx - 1) % TX_DESC_COUNT)`. -/
def Softc.capacity (k : Softc) : Nat := 2 * ((k.txIdxTail + txDescCount - k.txIdxHead - 1) % txDescCount)

/-- The start of `stmac_tx_enqueue`. -/
def Softc.enqueue (k : Softc) (m : Frame) (retry : Bool) : Softc :=
  { k with pc := .fill m retry m.chain k.txIdxHead 0 0 }

def Slot.setBufs (s : Slot) (b : Bufs) : Slot := { s with bufs := b }

/-- Behind the first loop of `stmac_tx_enqueue`; `idx` is the first descriptor that is not used. -/
def txEnqueueFilled (k : Softc) (m : Frame) (retry : Bool) (idx : Nat) : Softc :=
  { k.set (prev txDescCount idx) { k.ring (prev txDescCount idx) with m := some m.id } with
    txIdxHead := idx
    pc := .publish m retry k.txIdxHead (prev txDescCount idx) true }

/-- One pass of the first loop of `stmac_tx_enqueue`, or the code behind it. -/
def txEnqueueFill (k : Softc) (m : Frame) (retry : Bool) (n : List Mbuf) (idx bufs desc2 : Nat) : Softc :=
  let b := (k.ring idx).bufs
  match n with
  | e :: n =>
    if 0 < e.len then
      if k.capacity < bufs + 1 then
        -- the call returns `ENOBUFS`
        if retry then { k with freed := k.freed ++ [m.id], oqdrops := k.oqdrops + 1, pc := .idle }
        else { k with pc := .reclaim (some m) k.txIdxTail }
      else if (bufs + 1) % 2 = 1 then
        { k.set idx ((k.ring idx).setBufs { b with desc0 := e.data }) with
          pc := .fill m retry n idx (bufs + 1) e.len }
      else
        { k.set idx ((k.ring idx).setBufs { b with desc1 := e.data, desc2 := sizes desc2 e.len }) with
          pc := .fill m retry n (next txDescCount idx) (bufs + 1) desc2 }
    else { k with pc := .fill m retry n idx bufs desc2 }
  | [] =>
    if bufs % 2 = 1 then
      txEnqueueFilled (k.set idx ((k.ring idx).setBufs { b with desc1 := 0, desc2 := desc2 })) m retry
        (next txDescCount idx)
    else txEnqueueFilled k m retry idx

/-- One pass of the second loop, from the last descriptor to the first one, which has the first-descriptor flag. -/
def txEnqueuePublish (k : Softc) (m : Frame) (retry : Bool) (headIdx idx : Nat) (ld : Bool) : Softc :=
  let k := k.set idx { k.ring idx with
    own := true, fd := decide (idx = headIdx), ld := ld, es := false, len := m.len, cic := m.cic }
  if idx ≠ headIdx then { k with pc := .publish m retry headIdx (prev txDescCount idx) false }
  else
    { k with
      accepted := k.accepted ++ [m]
      pc := if retry then .idle else .reclaim none k.txIdxTail }

/-- One pass of the loop of `stmac_tx_reclaim`, or the code behind it and the second try of `stmac_transmit`. -/
def txReclaim (k : Softc) (m : Option Frame) (tailIdx : Nat) : Softc :=
  let s := k.ring tailIdx
  if k.txIdxHead ≠ tailIdx ∧ s.own = false then
    if s.ld then
      { k.set tailIdx { s with m := none } with
        freed := k.freed ++ s.m.toList
        opackets := if s.es then k.opackets else k.opackets + 1
        oerrors := if s.es then k.oerrors + 1 else k.oerrors
        pc := .reclaim m (next txDescCount tailIdx) }
    else { k with pc := .reclaim m (next txDescCount tailIdx) }
  else
    let k := { k with txIdxTail := tailIdx, pc := .idle }
    match m with
    | none => k
    | some m => k.enqueue m true

/-- `stmac_transmit` up to the first call of `stmac_tx_enqueue`. -/
def stmacTransmit (k : Softc) (m : Frame) : Softc := Softc.enqueue { k with given := m.id :: k.given } m false

def stmacTransmitNoLink (k : Softc) (m : Frame) : Softc := { k with given := m.id :: k.given }

/-- `stmac_tx_reclaim_all`. -/
def txReclaimAll (k : Softc) : Softc :=
  { k with
    ring := fun idx => { k.ring idx with m := none }
    freed := k.freed ++ (view txDescCount k.ring 0).filterMap Slot.m }

def stmacStopLocked (k : Softc) : Softc :=
  if k.running then txReclaimAll { k with running := false } else k

/-- `stmac_init_locked` with `stmac_tx_setup_desc`. -/
def stmacInitLocked (k : Softc) : Softc :=
  if k.running then k
  else
    { k with
      running := true
      ring := fun _ => Slot.zero
      txIdxHead := 0
      txIdxTail := 0
      hw := 0
      accepted := []
      sent := [] }

/-- `stmac_miibus_statchg`: the media, and whether the link is active. -/
def stmacMiibusStatchg (k : Softc) (active : Nat) (status : Bool) : Softc :=
  if k.miiMediaActive = active ∧ k.miiMediaStatus = status then k
  else
    { k with
      miiMediaActive := active
      miiMediaStatus := status
      ifTransmit := if status then .transmit else k.ifTransmit }

/-! ## Steps -/

def hwComplete (k : Softc) (es : Bool) : Softc :=
  { k.set k.hw { k.ring k.hw with own := false, es := es } with
    hw := next txDescCount k.hw
    sent := k.sent ++ [k.ring k.hw] }

inductive Action where
  | transmit (m : Frame)
  | driver
  | complete (es : Bool)
  | statchg (active : Nat) (status : Bool)
  | stop
  | init
  | fatalBusError

def step (k : Softc) : Action → Option Softc
  | .transmit m =>
    if m.id ∉ k.given ∧ m.chain ≠ [] then
      match k.ifTransmit with
      | .transmitNoLink => some (stmacTransmitNoLink k m)
      | .transmit => if k.pc = .idle then some (stmacTransmit k m) else none
    else none
  | .driver =>
    match k.pc with
    | .idle => none
    | .fill m retry n idx bufs desc2 => some (txEnqueueFill k m retry n idx bufs desc2)
    | .publish m retry headIdx idx ld => some (txEnqueuePublish k m retry headIdx idx ld)
    | .reclaim m tailIdx => some (txReclaim k m tailIdx)
  | .complete es => if k.running ∧ (k.ring k.hw).own then some (hwComplete k es) else none
  | .statchg active status => some (stmacMiibusStatchg k active status)
  | .stop => if k.pc = .idle then some (stmacStopLocked k) else none
  | .init => some (stmacInitLocked k)
  | .fatalBusError => if k.pc = .idle then some (stmacInitLocked (stmacStopLocked k)) else none

/-! ## What has to hold -/

def pack : List Mbuf → List Bufs
  | [] => []
  | [a] => [⟨a.data, 0, a.len⟩]
  | a :: b :: bs => ⟨a.data, b.data, sizes a.len b.len⟩ :: pack bs

/-- What the hardware reads from a descriptor: the buffers whose half of `DESC2` is not zero. -/
def Bufs.elements (b : Bufs) : List Mbuf := nonEmpty [⟨b.desc0, b.desc2 % 2 ^ 16⟩, ⟨b.desc1, b.desc2 / 2 ^ 16⟩]

/-- The frame has an element that is not empty, and their sizes fit into `DESC2`. -/
def Frame.Fits (m : Frame) : Prop := m.bufs ≠ [] ∧ ∀ e ∈ m.bufs, e.len < 2 ^ 16

instance (m : Frame) : Decidable m.Fits := inferInstanceAs (Decidable (_ ∧ _))

/-- The descriptors that describe the buffers `bs` of the frame, the first one with the flag `fd`. -/
def readySlots (m : Frame) (fd : Bool) : List Bufs → List Slot
  | [] => []
  | [b] => [⟨b, true, fd, true, false, m.len, m.cic, some m.id⟩]
  | b :: c :: bs => ⟨b, true, fd, false, false, m.len, m.cic, none⟩ :: readySlots m false (c :: bs)

def Frame.ready (m : Frame) : List Slot := readySlots m true (pack m.bufs)

/-- A descriptor without what changes while the frame is in the ring. -/
def Slot.image (s : Slot) : Slot := { s with own := true, es := false, m := none }

def Softc.tailNow (k : Softc) : Nat :=
  match k.pc with
  | .reclaim _ tailIdx => tailIdx
  | _ => k.txIdxTail

def Softc.headNow (k : Softc) : Nat :=
  match k.pc with
  | .publish _ _ headIdx _ _ => headIdx
  | _ => k.txIdxHead

def Pc.frame : Pc → List Nat
  | .idle => []
  | .fill m _ _ _ _ _ => [m.id]
  | .publish _ _ _ _ _ => []
  | .reclaim m _ => (m.map Frame.id).toList

def Softc.ringMbufs (k : Softc) : List Nat := (view txDescCount k.ring k.tailNow).filterMap Slot.m

/-- The descriptors between tail and head: first those the hardware completed, then those it owns.  The descriptors
    it completed since the last initialisation and those it owns are those of the accepted frames, in order, and
    until a stop they have the mbufs of these frames. -/
structure Flight (k : Softc) (done owned rest : List Slot) : Prop where
  ring : view txDescCount k.ring k.tailNow = done ++ (owned ++ rest)
  head : k.headNow = (k.tailNow + (done ++ owned).length) % txDescCount
  size : (done ++ owned).length ≤ txDescCount - 1
  completed : ∀ s ∈ done, s.own = false
  ownedByHw : ∀ s ∈ owned, s.own = true
  frames : (k.sent ++ owned).map Slot.image = k.accepted.flatMap fun m => m.ready.map Slot.image
  mbufs : k.running = true → (k.sent ++ owned).map Slot.m = k.accepted.flatMap fun m => m.ready.map Slot.m

/-- **What has to hold at every moment.** -/
structure Proper (k : Softc) : Prop where
  /-- Every mbuf is in the ring, in the call, or was freed exactly once. -/
  account : Account k.given k.freed (k.ringMbufs ++ k.pc.frame)
  /-- The hardware owns no other descriptors, unless a frame is just given to it. -/
  flight : ∃ done owned rest, Flight k done owned rest ∧
    ((∀ m retry headIdx idx ld, k.pc ≠ .publish m retry headIdx idx ld) → ∀ s ∈ rest, s.own = false)
  /-- The descriptors of a frame describe exactly its elements that are not empty, in order. -/
  described : ∀ m ∈ k.accepted, m.ready.flatMap (fun s => s.bufs.elements) = m.bufs
  /-- Until a stop, only frames whose last descriptor the hardware completed are freed. -/
  freed : k.running = true → ∀ m ∈ k.accepted, m.id ∈ k.freed → some m.id ∈ k.sent.map Slot.m

/-- **What has to hold of every step.** -/
structure SafeStep (k : Softc) (a : Action) (t : Softc) : Prop where
  /-- Nobody else changes a descriptor that the hardware owns, as long as it is not initialised again. -/
  owned : (∀ es, a ≠ .complete es) → a ≠ .fatalBusError → (a = .init → k.running = true) →
    ∀ idx, (k.ring idx).own → { t.ring idx with m := none } = { k.ring idx with m := none } ∧
      (a ≠ .stop → (t.ring idx).m = (k.ring idx).m)
  /-- Up to a refusal the head and the descriptors of the hardware are left as they are. -/
  refused : ∀ m retry n idx bufs desc2, k.pc = .fill m retry n idx bufs desc2 → n ≠ [] → a = .driver →
    t.txIdxHead = k.txIdxHead ∧ ∀ i, (k.ring i).own → t.ring i = k.ring i
  /-- When the loop of a reclaim ends, the mbufs of all descriptors that the hardware completed were freed. -/
  reclaimed : ∀ m tailIdx, k.pc = .reclaim m tailIdx → a = .driver → (∀ m' i, t.pc ≠ .reclaim m' i) →
    ∀ b, some b ∈ k.sent.map Slot.m → b ∈ t.freed
  /-- A stop of the running driver frees what is in the ring. -/
  stopped : a = .stop → k.running = true → t.ringMbufs = [] ∧ ∀ b ∈ k.ringMbufs, b ∈ t.freed

/-- No frame is lost by design of the call: it goes to the ring, its descriptors are its own, and the ring is
    not cleared while frames are in it. -/
def Accountable (k : Softc) : Action → Prop
  | .transmit m => k.ifTransmit = .transmit ∧ m.Fits
  | .init => k.running = false → k.pc = .idle ∧ k.ringMbufs = []
  | .fatalBusError => k.running = false → k.ringMbufs = []
  | _ => True

instance Accountable.decidable (k : Softc) : ∀ a, Decidable (Accountable k a)
  | .transmit m => inferInstanceAs (Decidable (k.ifTransmit = .transmit ∧ m.Fits))
  | .init => inferInstanceAs (Decidable (k.running = false → k.pc = .idle ∧ k.ringMbufs = []))
  | .fatalBusError => inferInstanceAs (Decidable (k.running = false → k.ringMbufs = []))
  | .driver => inferInstanceAs (Decidable True)
  | .complete _ => inferInstanceAs (Decidable True)
  | .statchg _ _ => inferInstanceAs (Decidable True)
  | .stop => inferInstanceAs (Decidable True)

end RtemsLibbsd.Stmac
