import RtemsLibbsd.Transition
import RtemsLibbsd.BufferRing
import RtemsLibbsd.Ethernet.Mbuf

/-!
# The transmit ring of the MV643xx driver

`BSP_mve_swipe_tx`, `BSP_mve_send_buf_chain` and `mveth_init_tx_desc_ring` of `rtemsbsd/sys/dev/mve/if_mve.c` with
the iterator over the chain and `mve_send_mbuf` of `if_mve_nexus.c`.  The callers have the lock of the driver; the
hardware works at the same time.  One pass of a loop is a step.  The stores that hand over a chain are one step
with the last of them, before which the hardware does not read the first descriptor.

The hardware works at the descriptor of the register for the currently served one; it completes descriptors
in order and may leave the flag of a descriptor that it completed.  The assertions are left out.

* `step` — one step of a call or of the hardware.
* `Proper` — what has to hold at every moment.
* `Scavenged` — what the scavenger does with the ring; `SafeStep` is what has to hold of every step.
-/

namespace RtemsLibbsd.Mve.Tx

open Transition BufferRing Ethernet

/-! ## Chains and descriptors -/

structure Chain where
  id : Nat
  bufs : List Mbuf
  deriving DecidableEq

/-- `MveEthBufIter`; `uptr` is the chain when the buffer is the last one of it. -/
structure Buf where
  data : Nat
  len : Nat
  uptr : Option Nat
  deriving DecidableEq

/-- `MveMbufIter`. -/
structure MbufIter where
  it : Buf
  next : List Mbuf
  head : Nat
  deriving DecidableEq

def skipEmpty (m : List Mbuf) : List Mbuf := m.dropWhile fun e => e.len = 0

def nextBuf (it : MbufIter) : Option MbufIter :=
  match it.next with
  | m :: rest =>
    let next := skipEmpty rest
    some ⟨⟨m.data, m.len, if next = [] then some it.head else none⟩, next, it.head⟩
  | [] => none

def initIter (m : Chain) : Option MbufIter := nextBuf ⟨⟨0, 0, none⟩, skipEmpty m.bufs, m.id⟩

/-- `buf_ptr` of a descriptor: the null pointer, the address of the data, or `workaround` of the descriptor. -/
inductive BufPtr where
  | null
  | buf (addr : Nat)
  | workaround
  deriving DecidableEq

/-- `struct mveth_tx_desc`; of `cmd_sts` the flags `TDESC_DMA_OWNED`, `TDESC_FRST`, `TDESC_LAST` and `TDESC_ERROR`. -/
structure Desc where
  byteCnt : Nat
  dmaOwned : Bool
  frst : Bool
  last : Bool
  error : Bool
  bufPtr : BufPtr
  uBuf : Option Nat

def cpuaddr2enet (addr : Nat) : BufPtr := if addr = 0 then .null else .buf addr

/-- `mveth_assign_desc_raw` with `TDESC_DMA_OWNED` or `TDESC_FRST`. -/
def mvethAssignDescRaw (b : Buf) (dmaOwned frst : Bool) : Desc :=
  let rval := b.len % 2 ^ 16
  { byteCnt := rval
    dmaOwned, frst
    last := false
    error := false
    bufPtr := if rval < 8 ∧ b.data % 8 ≠ 0 then .workaround else cpuaddr2enet b.data
    uBuf := b.uptr }

/-! ## The driver -/

/-- The local variables of `BSP_mve_send_buf_chain`; `head` is the first buffer, `it` the iterator. -/
structure Fill where
  m : Chain
  head : Buf
  it : MbufIter
  h : Nat
  l : Nat
  d : Nat
  nmbs : Nat
  rval : Nat
  deriving DecidableEq

/-- Who called the scavenger: the daemon, or a send before or in its loop. -/
inductive Caller where
  | daemon
  | start (m : Chain) (it : MbufIter)
  | more (s : Fill) (it : MbufIter)
  deriving DecidableEq

/-- Where a call is: the scavenger is at a descriptor, or a send is at the head of its loop. -/
inductive Pc where
  | idle
  | swipe (d rval : Nat) (caller : Caller)
  | fill (s : Fill)
  deriving DecidableEq

/-- What the scavenger changes: the pointers of the descriptors in use, tail, head, `avail`, and the chains that were
    released. -/
structure Snapshot where
  used : List (BufPtr × Option Nat)
  dTxT : Nat
  dTxH : Nat
  avail : Int
  released : List Nat

/-- The driver with the place of the hardware; and the ledger: the chains that were accepted, those the hardware has
    sent, those that `cleanup_txbuf` was called for, the empty ones that were freed at once, the result of
    the last send, and the snapshot before the last call. -/
structure Softc where
  desc : Nat → Desc
  dTxT : Nat
  dTxH : Nat
  avail : Int
  pc : Pc
  hw : Nat
  accepted : List Nat
  sent : List Nat
  released : List Nat
  empty : List Nat
  result : Int
  before : Snapshot

-- `xbuf_count`, with the slot for the tag
variable (n : Nat)

def txAvailableRingSize : Int := (n : Int) - 1

def nextTxd (d : Nat) : Nat := (d + 1) % n

def mvethInitTxDescRing : Softc where
  desc _ := ⟨0, false, false, false, false, .null, none⟩
  dTxT := 0
  dTxH := 0
  avail := txAvailableRingSize n
  pc := .idle
  hw := 0
  accepted := []
  sent := []
  released := []
  empty := []
  result := 0
  before := ⟨[], 0, 0, txAvailableRingSize n, []⟩

def Softc.set (k : Softc) (d : Nat) (r : Desc) : Softc := { k with desc := Function.update k.desc d r }

def Softc.tailNow (k : Softc) : Nat :=
  match k.pc with
  | .swipe d _ _ => d
  | _ => k.dTxT

def Desc.use (d : Desc) : BufPtr × Option Nat := (d.bufPtr, d.uBuf)

def Softc.used (k : Softc) : List (BufPtr × Option Nat) :=
  ((view n k.desc k.tailNow).take ((k.dTxH + n - k.tailNow) % n)).map Desc.use

def Softc.snapshot (k : Softc) : Snapshot := ⟨k.used n, k.dTxT, k.dTxH, k.avail, k.released⟩

def Softc.begin (k : Softc) (m : Chain) (it : MbufIter) : Softc :=
  { k with
    avail := k.avail - 1
    pc := .fill ⟨m, it.it, it, k.dTxH, k.dTxH, nextTxd n k.dTxH, 1, 0⟩ }

def Softc.more (k : Softc) (s : Fill) (it : MbufIter) : Softc :=
  { k.set s.d (mvethAssignDescRaw it.it true false) with
    avail := k.avail - 1
    pc := .fill { s with
      it := it
      l := s.d
      d := nextTxd n s.d
      nmbs := s.nmbs + 1
      rval := s.rval + it.it.len % 2 ^ 16 } }

def Desc.undo (r : Desc) : Desc :=
  { r with bufPtr := .null, dmaOwned := false, frst := false, last := false, error := false }

/-- The loop that undoes a send, from descriptor `l` to `d`; `none` is a loop that does not end. -/
def undoLoop : Nat → (Nat → Desc) → Nat → Nat → Int → Option ((Nat → Desc) × Int)
  | 0, _, _, _, _ => none
  | fuel + 1, desc, l, d, avail =>
    if l ≠ d then
      undoLoop fuel (Function.update desc l (desc l).undo) (nextTxd n l) d (avail + 1)
    else some (desc, avail)

/-- The send gives up at its buffer number `s.nmbs + 1`. -/
def Softc.undo (k : Softc) (s : Fill) : Option Softc :=
  (undoLoop n n k.desc (nextTxd n s.h) s.d k.avail).map fun (desc, avail) =>
    { k with
      desc := desc
      avail := avail + 1
      pc := .idle
      result := if ((s.nmbs + 1 : Nat) : Int) > txAvailableRingSize n then -2 else -1 }

def Softc.finish (k : Softc) (s : Fill) : Softc :=
  let k := k.set s.h (mvethAssignDescRaw s.head false true)
  let k := k.set s.l { k.desc s.l with last := true }
  let tag := nextTxd n s.l
  let k := k.set tag { k.desc tag with dmaOwned := false, frst := false, last := false, error := false }
  let k := k.set s.h { k.desc s.h with dmaOwned := true }
  { k with
    dTxH := s.d
    pc := .idle
    accepted := k.accepted ++ [s.m.id]
    result := ((s.rval + s.head.len % 2 ^ 16 : Nat) : Int) }

/-- One pass of the loop of `BSP_mve_send_buf_chain`, up to a call of the scavenger. -/
def fillPass (k : Softc) (s : Fill) : Softc :=
  match nextBuf s.it with
  | none => k.finish n s
  | some it =>
    if it.it.len = 0 then { k with pc := .fill { s with it := it } }
    else if k.avail < 1 then { k with pc := .swipe k.dTxT 0 (.more s it) }
    else k.more n s it

def swipeReturn (k : Softc) : Caller → Option Softc
  | .daemon => some { k with pc := .idle }
  | .start m it =>
    if k.avail ≤ 0 then some { k with pc := .idle, result := -1 } else some (k.begin n m it)
  | .more s it =>
    if k.avail ≤ 0 then k.undo n s else some (k.more n s it)

/-- One pass of the loop of `BSP_mve_swipe_tx`, or the code behind it. -/
def bspMveSwipeTx (k : Softc) (d rval : Nat) (caller : Caller) : Option Softc :=
  let r := k.desc d
  if r.bufPtr = .null ∨ r.dmaOwned ∧ d = k.hw then
    swipeReturn n { k with dTxT := d, avail := k.avail + rval } caller
  else
    some { k.set d { r with bufPtr := .null, uBuf := none } with
      pc := .swipe (nextTxd n d) (rval + 1) caller
      released := k.released ++ r.uBuf.toList }

/-! ## Steps -/

inductive Action where
  | send (m : Chain)
  | swipe
  | driver
  | complete (clear error : Bool)

/-- `mve_send_mbuf` up to the loop of `BSP_mve_send_buf_chain`. -/
def mveSendMbuf (k : Softc) (m : Chain) : Softc :=
  let k : Softc := { k with before := k.snapshot n }
  match initIter m with
  | none => { k with empty := k.empty ++ [m.id], result := 0 }
  | some it =>
    if k.avail < 1 then { k with pc := .swipe k.dTxT 0 (.start m it) } else k.begin n m it

def hwComplete (k : Softc) (clear error : Bool) : Softc :=
  let r := k.desc k.hw
  { k.set k.hw { r with dmaOwned := !clear, error := error } with
    hw := nextTxd n k.hw
    sent := k.sent ++ r.uBuf.toList }

def step (k : Softc) : Action → Option Softc
  | .send m => if k.pc = .idle ∧ ∀ e ∈ m.bufs, e.data ≠ 0 then some (mveSendMbuf n k m) else none
  | .swipe =>
    if k.pc = .idle then some { k with before := k.snapshot n, pc := .swipe k.dTxT 0 .daemon } else none
  | .driver =>
    match k.pc with
    | .idle => none
    | .swipe d rval caller => bspMveSwipeTx n k d rval caller
    | .fill s => some (fillPass n k s)
  | .complete clear error => if (k.desc k.hw).dmaOwned then some (hwComplete n k clear error) else none

/-! ## What has to hold -/

/-- The descriptors that were scavenged and are not counted yet. -/
def Softc.swept (k : Softc) : Nat :=
  match k.pc with
  | .swipe _ rval _ => rval
  | _ => 0

/-- A descriptor that is reserved for the first buffer of a chain. -/
def Softc.reserved (k : Softc) : Nat :=
  match k.pc with
  | .fill _ | .swipe _ _ (.more _ _) => 1
  | _ => 0

def Softc.inUse (k : Softc) : Nat := (List.range n).countP fun d => (k.desc d).bufPtr ≠ .null

/-- **What has to hold at every moment.** -/
structure Proper (k : Softc) : Prop where
  head : (k.desc k.dTxH).bufPtr = .null
  avail : k.avail + (k.swept : Int) = txAvailableRingSize n - (k.inUse n : Int) - (k.reserved : Int)
  /-- The accepted chains were released, in their order, or are in the ring, each with its last descriptor. -/
  accepted : k.accepted = k.released ++ (k.used n).filterMap Prod.snd
  released : k.released <+: k.sent
  sent : k.sent <+: k.accepted
  free : k.pc = .idle → ∀ d < n, (k.desc d).bufPtr = .null → (k.desc d).uBuf = none

/-- From `e` to `t` the first descriptors in use were given back and their chains released, and nothing else
    happened to the ring. -/
def Scavenged (e t : Snapshot) : Prop :=
  ∃ swept, e.used = swept ++ t.used ∧ t.dTxT = (e.dTxT + swept.length) % n ∧ t.dTxH = e.dTxH ∧
    t.avail = e.avail + swept.length ∧ t.released = e.released ++ swept.filterMap Prod.snd

def Pc.chain : Pc → Option Chain
  | .fill s | .swipe _ _ (.more s _) => some s.m
  | .swipe _ _ (.start m _) => some m
  | _ => none

def Chain.needed (m : Chain) : Nat := (nonEmpty m.bufs).length

def Refused (k t : Softc) : Prop := k.pc.chain.isSome ∧ t.pc = .idle ∧ t.accepted = k.accepted

/-- **What has to hold of every step that ends a call.** -/
structure SafeStep (k t : Softc) : Prop where
  swept : (∃ d rval, k.pc = .swipe d rval .daemon) → t.pc = .idle →
    Scavenged n k.before (t.snapshot n) ∧ t.released = t.sent
  /-- A send that is refused leaves the ring as the scavenger does; the result is -2 when no other chain is left in
      the ring, and the chain does not fit into it. -/
  refused : Refused k t → Scavenged n k.before (t.snapshot n) ∧ (t.result = -1 ∨ t.result = -2) ∧
    (t.result = -2 ↔ t.used n = []) ∧
      ∀ m ∈ k.pc.chain, t.result = -2 → txAvailableRingSize n < (m.needed : Int)
  /-- A chain that is accepted fits into the ring, and the result is no error. -/
  accepted : t.accepted ≠ k.accepted →
    0 ≤ t.result ∧
      ∀ m ∈ k.pc.chain, (m.needed : Int) ≤ txAvailableRingSize n ∧ t.accepted = k.accepted ++ [m.id]

end RtemsLibbsd.Mve.Tx
