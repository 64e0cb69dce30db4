import RtemsLibbsd.BufferRing
import RtemsLibbsd.Ethernet.Mbuf
import RtemsLibbsd.Transition

/-!
# Transmission of the MCF548x FEC

The transmit daemon walks around the ring: `fec_transmit` frees the mbuf of a descriptor that is not `READY`, takes
the next element of the frame in hand, or of the next frame, and fills the descriptor.  The first descriptor of a
frame gets its `READY` flag after the last one was filled.

* `TxState`, `txStep` — one iteration of the loop is a step, the late `READY` flag is a step of its own; the
  hardware, the senders and restarts come in between.
* `fecNextFragment` — the empty elements are freed, and the next frame is dequeued at the end of one.
* `TxGood` — what has to hold of the mbufs, of the descriptors the hardware sees, and after a reset.
* `TxSound` — the condition on an iteration of the loop.
-/

namespace RtemsLibbsd.Mcf548x

open RtemsLibbsd.Transition RtemsLibbsd.BufferRing RtemsLibbsd.Ethernet

/-- A transmit buffer descriptor (`INT` is set with `LAST`), and its entry of `mbufs`. -/
structure TxBd where
  ready : Bool
  wrap : Bool
  last : Bool
  length : Nat
  dataPointer : Nat
  mbuf : Option Element

def TxBd.desc (bd : TxBd) : Desc := ⟨bd.dataPointer, bd.length, bd.last⟩

def TxBd.ids (bd : TxBd) : List Nat := (bd.mbuf.map Element.id).toList

/-- The place of the daemon: `fec_wait_for_event`, the loop of `fec_transmit`, before the `READY` flag of the
    first descriptor is set, or `mcf548x_fec_restart`. -/
inductive TxPc where
  | waiting
  | transmit
  | publish
  | restart
deriving DecidableEq

structure TxState where
  bdRing : Nat → TxBd
  bdIndex : Nat
  m : List Element
  first : Option Nat
  pc : TxPc
  ifSnd : List (List Element)
  oactive : Bool
  hwIndex : Nat
  chain : List Element
  frames : List (List Element)
  /-- The frames that were made visible to the DMA since its start, and the descriptors it read. -/
  published : List (List Element)
  sent : List Desc
  done : List Nat
  freed : List Nat
  /-- The mbufs that `fec_transmit` freed before their descriptors were completed. -/
  premature : List Nat

/-- `fec_init_tx_dma` and the local variables of the daemon. -/
def fecInitTxDma (bdCount : Nat) : TxState where
  bdRing := fun k => ⟨false, k + 1 = bdCount, false, 0, 0, none⟩
  bdIndex := 0
  m := []
  first := none
  pc := .waiting
  ifSnd := []
  oactive := false
  hwIndex := 0
  chain := []
  frames := []
  published := []
  sent := []
  done := []
  freed := []
  premature := []

/-! ## The next fragment -/

/-- What `fec_next_fragment` leaves: the element to transmit with the rest of its frame (`[]` for `NULL`),
    `*isFirst`, the queue and the mbufs it freed. -/
structure Fragment where
  m : List Element
  isFirst : Bool
  ifSnd : List (List Element)
  freed : List Nat
  chain : List Element

/-- The element `e` is not empty: the empty ones behind it are freed. -/
def fragmentAt (e : Element) (n : List Element) (isFirst : Bool) (ifSnd : List (List Element))
    (freed : List Nat) (chain : List Element) : Fragment :=
  ⟨e :: skipEmpty n, isFirst, ifSnd, freed ++ ids (emptyPrefix n), chain⟩

/-- The loop of `fec_next_fragment`. -/
def fecNextFragment : List (List Element) → List Element → List Element → Bool → Fragment
  | [], chain, m, isFirst =>
    match skipEmpty m with
    | e :: n => fragmentAt e n isFirst [] (ids (emptyPrefix m)) chain
    | [] => ⟨[], isFirst, [], ids (emptyPrefix m), chain⟩
  | c :: ifSnd, chain, m, isFirst =>
    match skipEmpty m with
    | e :: n => fragmentAt e n isFirst (c :: ifSnd) (ids (emptyPrefix m)) chain
    | [] =>
      let r := fecNextFragment ifSnd c c true
      { r with freed := ids (emptyPrefix m) ++ r.freed }

/-! ## The steps -/

/-- `m_free(done)`. -/
def freeDone (s : TxState) : TxState :=
  let done := (s.bdRing s.bdIndex).ids
  { s with
    bdRing := Function.update s.bdRing s.bdIndex { s.bdRing s.bdIndex with mbuf := none }
    freed := s.freed ++ done
    premature := s.premature ++ done.filter fun i => i ∉ s.done }

def txNextIndex (bdCount bdIndex : Nat) : Nat := if bdIndex < bdCount - 1 then bdIndex + 1 else 0

/-- The descriptor of the element `e`, which is the last one of its frame when `next` is empty. -/
def fillBd (bdCount bdIndex : Nat) (isFirst : Bool) (e : Element) (next : List Element) : TxBd where
  ready := !isFirst
  wrap := bdIndex + 1 = bdCount
  last := next = []
  length := e.len % 2 ^ 16
  dataPointer := e.data
  mbuf := some e

/-- The element `e` goes into the descriptor, `next` is left of its frame. -/
def fillFragment (bdCount : Nat) (s : TxState) (r : Fragment) (e : Element) (next : List Element) : TxState :=
  { s with
    bdRing := Function.update s.bdRing s.bdIndex (fillBd bdCount s.bdIndex r.isFirst e next)
    bdIndex := txNextIndex bdCount s.bdIndex
    m := next
    first := if r.isFirst then some s.bdIndex else s.first
    pc := if next = [] then .publish else .transmit
    ifSnd := r.ifSnd
    chain := r.chain
    freed := s.freed ++ r.freed }

def noFragment (s : TxState) (r : Fragment) : TxState :=
  { s with
    m := []
    pc := .waiting
    ifSnd := r.ifSnd
    oactive := false
    chain := r.chain
    freed := s.freed ++ r.freed }

/-- An iteration of `fec_transmit`, up to the write of `bd->statCtrl`. -/
def fecTransmit (bdCount : Nat) (s : TxState) : TxState :=
  if (s.bdRing s.bdIndex).ready = false then
    let r := fecNextFragment s.ifSnd s.chain s.m false
    match r.m with
    | e :: next => fillFragment bdCount (freeDone s) r e next
    | [] => noFragment (freeDone s) r
  else { s with pc := .waiting }

/-- `fec_reset_tx_dma`; the daemon resets its variables. -/
def fecResetTxDma (bdCount : Nat) (s : TxState) : TxState :=
  { s with
    bdRing := fun k => { s.bdRing k with ready := false, wrap := k + 1 = bdCount, last := false, mbuf := none }
    bdIndex := 0
    m := []
    first := none
    pc := .restart
    published := []
    sent := []
    freed := s.freed ++ ids s.m ++ (view bdCount s.bdRing 0).flatMap TxBd.ids }

inductive TxAction where
  | send (c : List Element)
  | wake
  | transmit
  /-- `first->statCtrl |= READY` -/
  | publish
  /-- The daemon is woken up and finds that a restart is requested. -/
  | reset
  /-- The return of `mcf548x_fec_restart`: the DMA was started at the first descriptor. -/
  | restarted
  | complete

def txStep (bdCount : Nat) (s : TxState) : TxAction → Option TxState
  | .send c =>
    if c ≠ [] ∧ (ids c).Nodup ∧ ∀ i ∈ ids c, i ∉ ids s.frames.flatten then
      some { s with
        ifSnd := s.ifSnd ++ [c]
        oactive := true
        frames := c :: s.frames }
    else none
  | .wake => if s.pc = .waiting then some { s with pc := .transmit } else none
  | .transmit => if s.pc = .transmit then some (fecTransmit bdCount s) else none
  | .publish =>
    match s.pc, s.first with
    | .publish, some i =>
      some { s with
        bdRing := Function.update s.bdRing i { s.bdRing i with ready := true }
        pc := .transmit
        published := s.published ++ [s.chain] }
    | _, _ => none
  | .reset => if s.pc = .waiting then some (fecResetTxDma bdCount s) else none
  | .restarted => if s.pc = .restart then some { s with pc := .transmit, hwIndex := 0 } else none
  | .complete =>
    let bd := s.bdRing s.hwIndex
    if bd.ready then
      some { s with
        bdRing := Function.update s.bdRing s.hwIndex { bd with ready := false }
        sent := s.sent ++ [bd.desc]
        done := s.done ++ bd.ids
        hwIndex := if bd.wrap then 0 else s.hwIndex + 1 }
    else none

/-! ## What has to hold -/

def visible (bdCount : Nat) (s : TxState) : List TxBd :=
  (view bdCount s.bdRing s.hwIndex).takeWhile TxBd.ready

def liveMbufs (bdCount : Nat) (s : TxState) : List Nat :=
  (view bdCount s.bdRing 0).flatMap TxBd.ids ++ (ids s.m ++ ids s.ifSnd.flatten)

structure TxGood (bdCount : Nat) (s : TxState) : Prop where
  account : Account (ids s.frames.flatten) s.freed (liveMbufs bdCount s)
  /-- `fec_transmit` frees the ones whose transmission is complete. -/
  premature : s.premature = []
  /-- What the DMA read and what it can read are the descriptors of whole frames. -/
  stream : s.sent ++ (visible bdCount s).map TxBd.desc =
    s.published.flatMap fun c => frameDescs (filled c)
  genuine : ∀ c ∈ s.published, c ∈ s.frames
  /-- The first descriptor of a frame that is being filled has its first element. -/
  held : s.m ≠ [] ∨ s.pc = .publish → ∃ i, s.first = some i ∧ (s.bdRing i).ready = false ∧
    (s.bdRing i).mbuf = (filled s.chain).head? ∧ (s.bdRing i).mbuf ≠ none
  reset : s.pc = .restart → s.m = [] ∧
    ∀ k < bdCount, (s.bdRing k).ready = false ∧ (s.bdRing k).mbuf = none

/-- The condition on an iteration of the loop: when the ring is full of elements of the frame in hand, none is
    left. -/
def TxSound (bdCount : Nat) (s : TxState) : TxAction → Prop
  | .transmit => s.m ≠ [] → (filled s.chain).length ≠ bdCount + (filled s.m).length
  | _ => True

end RtemsLibbsd.Mcf548x
