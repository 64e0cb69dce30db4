import RtemsLibbsd.BufferRing
import RtemsLibbsd.Ethernet.Mbuf
import RtemsLibbsd.Transition

/-!
# Transmission of the MPC8xx FEC

`fec_sendpacket` fills one descriptor for each element of a chain that is not empty; the first one gets its `READY`
flag after the last one was filled.  `m8xx_fec_Enet_retire_tx_bd` frees the mbufs of the frames that were
transmitted.

* `TxState`, `txStep` — the steps of `fec_sendpacket` with its waiting for descriptors; completions of the hardware
  come in between.  No descriptor of a loop of `m8xx_fec_Enet_retire_tx_bd` is read twice, so that a call is one
  step.
* `TxGood` — what has to hold of descriptors, counts and mbufs.
* `TxSound` — the condition on the chains: no empty element behind one that is not empty.  The code writes the
  status of the descriptor at the head for an empty element too, which is not its own.
-/

namespace RtemsLibbsd.Mpc8xx

open RtemsLibbsd.Transition RtemsLibbsd.BufferRing RtemsLibbsd.Ethernet

/-- A transmit buffer descriptor (`TX_CRC` is set with `LAST`), and its entry of `txMbuf`. -/
structure TxBd where
  ready : Bool
  wrap : Bool
  last : Bool
  length : Nat
  buffer : Nat
  mbuf : Option Element

def TxBd.desc (bd : TxBd) : Desc := ⟨bd.buffer, bd.length, bd.last⟩

def TxBd.ids (bd : TxBd) : List Nat := (bd.mbuf.map Element.id).toList

/-- The place in `fec_sendpacket`: not called, before the check for a free descriptor, waiting for one, before the
    element is put into it, and before the first descriptor gets its `READY` flag. -/
inductive TxPc where
  | idle
  | check
  | wait
  | fill
  | publish
deriving DecidableEq

structure TxState where
  txBd : Nat → TxBd
  txBdHead : Nat
  txBdTail : Nat
  txBdActiveCount : Nat
  pc : TxPc
  m : List Element
  nAdded : Nat
  firstTxBd : Nat
  hwIndex : Nat
  /-- The chain that `fec_sendpacket` was called with. -/
  chain : List Element
  frames : List (List Element)
  /-- The frames that were made visible to the hardware and not retired. -/
  active : List (List Element)
  done : List Nat
  freed : List Nat
  /-- The mbufs that were freed before their descriptors were completed. -/
  premature : List Nat

def txStart : TxState where
  txBd := fun _ => ⟨false, false, false, 0, 0, none⟩
  txBdHead := 0
  txBdTail := 0
  txBdActiveCount := 0
  pc := .idle
  m := []
  nAdded := 0
  firstTxBd := 0
  hwIndex := 0
  chain := []
  frames := []
  active := []
  done := []
  freed := []
  premature := []

/-- `++i == sc->txBdCount ? 0 : i` -/
def nextBd (txBdCount i : Nat) : Nat := if i + 1 = txBdCount then 0 else i + 1

def freeRetired (txBdCount : Nat) : Nat → TxState → TxState
  | 0, s => s
  | nRetired + 1, s =>
    let m := (s.txBd s.txBdTail).ids
    freeRetired txBdCount nRetired { s with
      freed := s.freed ++ m
      premature := s.premature ++ m.filter fun i => i ∉ s.done
      txBdTail := nextBd txBdCount s.txBdTail }

/-- The loop of `m8xx_fec_Enet_retire_tx_bd`; without rounds left there is no result. -/
def retireLoop (txBdCount : Nat) : Nat → Nat → Nat → TxState → Option TxState
  | 0, _, _, _ => none
  | rounds + 1, i, nRetired, s =>
    if s.txBdActiveCount ≠ 0 ∧ (s.txBd i).ready = false then
      if (s.txBd i).last then
        -- a full frame has been transmitted
        retireLoop txBdCount rounds (nextBd txBdCount i) 0 (freeRetired txBdCount (nRetired + 1) { s with
          txBdActiveCount := s.txBdActiveCount - (nRetired + 1)
          active := s.active.tail })
      else retireLoop txBdCount rounds (nextBd txBdCount i) (nRetired + 1) s
    else some s

/-- `m8xx_fec_Enet_retire_tx_bd` -/
def retireTxBd (txBdCount : Nat) (s : TxState) : Option TxState :=
  retireLoop txBdCount (txBdCount + 1) s.txBdTail 0 s

def checkAvailable (txBdCount : Nat) (full : TxPc) (s : TxState) : TxState :=
  if s.txBdActiveCount + s.nAdded = txBdCount then { s with pc := full } else { s with pc := .fill }

/-- `txBd->status = status` -/
def setStatus (s : TxState) (ready last : Bool) : TxState :=
  let bd := { s.txBd s.txBdHead with ready := ready, wrap := false, last := last }
  { s with txBd := Function.update s.txBd s.txBdHead bd }

/-- From the choice of `status` to the write of `txBd->status`; `txBd` is the descriptor at the head. -/
def fillBd (txBdCount : Nat) (s : TxState) : TxState :=
  match s.m with
  | [] => s
  | e :: rest =>
    let ready := decide (s.nAdded ≠ 0)
    if e.len ≠ 0 then
      { s with
        txBd := Function.update s.txBd s.txBdHead
          ⟨ready, s.txBdHead + 1 = txBdCount, rest = [], e.len % 2 ^ 16, e.data, some e⟩
        nAdded := s.nAdded + 1
        txBdHead := nextBd txBdCount s.txBdHead
        m := rest
        pc := if rest = [] then .publish else .check }
    else
      -- just toss empty mbufs
      let s := { s with m := rest, freed := s.freed ++ [e.id] }
      if rest = [] then
        if s.nAdded ≠ 0 then { setStatus s ready true with pc := .publish } else { s with pc := .idle }
      else { setStatus s ready false with pc := .check }

inductive TxAction where
  /-- The daemon calls `fec_sendpacket`. -/
  | sendpacket (c : List Element)
  | check
  | wakeup
  | fill
  /-- `firstTxBd->status |= M8xx_BD_READY` -/
  | publish
  | complete

def txStep (txBdCount : Nat) (s : TxState) : TxAction → Option TxState
  | .sendpacket c =>
    if s.pc = .idle ∧ c ≠ [] ∧ (filled c).length ≤ txBdCount ∧ (ids c).Nodup ∧
        ∀ i ∈ ids c, i ∉ ids s.frames.flatten then
      (retireTxBd txBdCount s).map fun s => { s with
        pc := .check
        m := c
        nAdded := 0
        firstTxBd := s.txBdHead
        chain := c
        frames := c :: s.frames }
    else none
  | .check =>
    if s.pc = .check then
      if s.txBdActiveCount + s.nAdded = txBdCount then
        (retireTxBd txBdCount s).map (checkAvailable txBdCount .wait)
      else some { s with pc := .fill }
    else none
  | .wakeup =>
    if s.pc = .wait then (retireTxBd txBdCount s).map (checkAvailable txBdCount .wait) else none
  | .fill => if s.pc = .fill then some (fillBd txBdCount s) else none
  | .publish =>
    if s.pc = .publish then
      some { s with
        txBd := Function.update s.txBd s.firstTxBd { s.txBd s.firstTxBd with ready := true }
        txBdActiveCount := s.txBdActiveCount + s.nAdded
        -- the end of the call
        nAdded := 0
        pc := .idle
        active := s.active ++ [s.chain] }
    else none
  | .complete =>
    let bd := s.txBd s.hwIndex
    if bd.ready then
      some { s with
        txBd := Function.update s.txBd s.hwIndex { bd with ready := false }
        done := s.done ++ bd.ids
        hwIndex := if bd.wrap then 0 else s.hwIndex + 1 }
    else none

/-! ## What has to hold -/

def inUse (txBdCount : Nat) (s : TxState) : List TxBd :=
  (view txBdCount s.txBd s.txBdTail).take (s.txBdActiveCount + s.nAdded)

structure TxGood (txBdCount : Nat) (s : TxState) : Prop where
  /-- The descriptors that were published, as many as the count says, describe the elements of their frames in
      order, and only the final one of a frame is the last. -/
  published : ((view txBdCount s.txBd s.txBdTail).take s.txBdActiveCount).map TxBd.desc =
    s.active.flatMap fun c => frameDescs (filled c)
  /-- They are `READY` until they are completed. -/
  readied : ∀ d ∈ (view txBdCount s.txBd s.txBdTail).take s.txBdActiveCount,
    d.ready = true ∨ ∀ i ∈ d.ids, i ∈ s.done
  count : s.txBdActiveCount = (s.active.flatMap filled).length
  /-- A descriptor that belongs to no frame is not `READY`, -/
  unused : ∀ d ∈ (view txBdCount s.txBd s.txBdTail).drop (s.txBdActiveCount + s.nAdded), d.ready = false
  held : s.nAdded ≠ 0 → (s.txBd s.firstTxBd).ready = false ∧
    (s.txBd s.firstTxBd).mbuf = (filled s.chain).head?
  /-- Each mbuf is in one place or was freed exactly once, and not before its descriptor was completed. -/
  account : Account (ids s.frames.flatten) s.freed ((inUse txBdCount s).flatMap TxBd.ids ++ ids s.m)
  premature : s.premature = []

/-- The condition on a step: an empty element is met before the first one that is not empty only. -/
def TxSound (s : TxState) : TxAction → Prop
  | .fill => ∀ e ∈ s.m.head?, e.len = 0 → s.nAdded = 0
  | _ => True

end RtemsLibbsd.Mpc8xx
