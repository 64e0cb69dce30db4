import Mathlib.Data.Nat.Bitwise
import RtemsLibbsd.Transition

/-!
# The RPC daemon

Model of `rtemsbsd/nfsclient/rpcio.c`: requestors create transactions, hand them to the daemon
with `rpcUdpSend` and wait for its event; the daemon transmits them, matches reply datagrams to
them, retransmits and times them out.

* A transaction is known by its address.  The low eight bits of its XID are its slot in
  `xactHashTbl`, the other bits count up.
* `rpcUdpSend` takes three steps (`sendBegin` up to the end of the encoding, `sendQueue`,
  `sendEvent`), so the steps of the daemon and of other requestors fall between them.  A
  transaction is touched by its requestor only while the daemon does not own it, as the comment
  in `rpcio_daemon` asks for.
* The main loop of the daemon is a state machine over `Pc`: one step for the call of `kevent`,
  for each datagram `sockRcv` looks at, for each message taken from the queue, for each
  transaction of the timeout queue and for each one inserted again.
* A datagram is an answer to some call that was transmitted; it arrives as often and as late as
  the action says, or never.  Its port is free.
* The C library, the clock and the network decide through the actions.  XIDs are 32-bit, times
  are unbounded.

`State.gen` and what follows it in `State` is not read by the code.  It numbers the XIDs of a slot
and records the accepted calls: `Call.done` counts the completion events of a call.
-/

namespace RtemsLibbsd.Rpcio

open RtemsLibbsd.Transition

abbrev XACT_HASHS : Nat := 256

abbrev RPCIOD_QDEPTH : Nat := 20

abbrev RPCIOD_EPOCH_SECS : Nat := 10000

abbrev RPCIOD_RETX_CAP_S : Nat := 3

abbrev FIRST_ATTEMPT : Int := 0x88888888

abbrev Ptr := Nat

/-- The values of `enum clnt_stat` that are stored in a transaction. -/
inductive ClntStat where
  | success
  | cantencodeargs
  | cantsend
  | timedout
  deriving DecidableEq

/-- Where the requestor of a transaction is in `rpcUdpSend`. -/
inductive Phase where
  | idle
  | encoded
  | queued
  deriving DecidableEq

/-- `RpcUdpXactRec`.  `call` is the last accepted call and `failed` says that the daemon completed
    it because `sendto` failed and that the XID was not advanced since; no code reads them. -/
structure Xact where
  xid : Nat
  server : Option Nat
  lifetime : Int
  tolive : Int
  status : ClntStat
  age : Int
  trip : Int
  phase : Phase
  call : Option Nat
  failed : Bool

/-- `RpcUdpServerRec`: the port and the retry period. -/
structure Server where
  port : Nat
  retryPeriod : Nat

/-- The position of the daemon in its main loop.  `rx` remembers `RPCIOD_TX_EVENT`. -/
inductive Pc where
  | wait
  | rx (tx : Bool)
  | tx
  | work
  | insert
  | dead
  deriving DecidableEq

/-- An accepted call: its transaction, slot, generation and XID, its lifetime, the number of
    successful transmissions and the number of completion events. -/
structure Call where
  ptr : Ptr
  slot : Nat
  gen : Nat
  xid : Nat
  lifetime : Int
  sends : Nat
  done : Nat

structure State where
  live : List Ptr
  xact : Ptr → Xact
  xactHashTbl : Nat → Option Ptr
  xidUpper : Nat → Nat
  xidHashSeed : Nat
  server : Nat → Server
  msgQOpen : Bool
  msgQ : List Ptr
  txEvent : Bool
  pc : Pc
  now : Int
  thenTicks : Int
  listHead : List Ptr
  newList : List Ptr
  fault : Bool
  gen : Nat → Nat
  call : Nat → Call
  ncalls : Nat
  iterations : Nat

/-- `f` with the value `b` at `a`. -/
def upd {β : Type} (f : Nat → β) (a : Nat) (b : β) : Nat → β := fun x => if x = a then b else f x

/-- The slot of an XID, `xid & XACT_HASH_MSK`. -/
def slot (xid : Nat) : Nat := xid % XACT_HASHS

def State.flight (s : State) : List Ptr := s.msgQ ++ (s.listHead ++ s.newList)

/-- `xact->obuf.xid += XACT_HASHS`. -/
def advance (s : State) (p : Ptr) : State :=
  let x := s.xact p
  { s with
    xact := upd s.xact p { x with xid := (x.xid + XACT_HASHS) % 2 ^ 32, failed := false }
    gen := upd s.gen (slot x.xid) (s.gen (slot x.xid) + 1) }

/-- `rtems_event_system_send(xact->requestor, RTEMS_RPC_EVENT)` with the status of the
    transaction. -/
def complete (s : State) (p : Ptr) (status : ClntStat) : State :=
  { s with
    xact := upd s.xact p { s.xact p with status := status }
    call := match (s.xact p).call with
      | none => s.call
      | some j => upd s.call j { s.call j with done := (s.call j).done + 1 } }

/-- The probe loop of `rpcUdpXactCreate`: the first free slot behind `i`, `n` of them. -/
def probe (tbl : Nat → Option Ptr) : Nat → Nat → Option Nat
  | 0, _ => none
  | n + 1, i =>
    let i' := (i + 1) % XACT_HASHS
    if (tbl i').isNone then some i' else probe tbl n i'

/-- `rpcUdpXactCreate` for the address `p` that `calloc` answers, `header` says whether
    `xdr_callhdr` succeeds.  The answer says whether a transaction was created. -/
def rpcUdpXactCreate (s : State) (p : Ptr) (header : Bool) : State × Bool :=
  if header then
    let s' := { s with xidHashSeed := (s.xidHashSeed + 1) % 2 ^ 32 }
    let j := slot (s.xidHashSeed ^^^ (p >>> 10))
    match if s.msgQOpen then probe s.xactHashTbl XACT_HASHS j else none with
    | none => (s', false)
    | some i =>
      ({ s' with
        live := p :: s.live
        xactHashTbl := upd s.xactHashTbl i (some p)
        xact := upd s.xact p
          ⟨(s.xidUpper i ||| i) % 2 ^ 32, none, 0, 0, .success, 0, 0, .idle, none, false⟩ }, true)
  else (s, false)

def rpcUdpXactDestroy (s : State) (p : Ptr) : State :=
  let xid := (s.xact p).xid
  let i := slot xid
  { s with
    fault := s.fault || s.xactHashTbl i ≠ some p
    xactHashTbl := upd s.xactHashTbl i none
    xidUpper := upd s.xidUpper i xid
    live := s.live.erase p }

def rpcSetXIDs (xid : Nat) (i : Nat) : Nat := xid / XACT_HASHS * XACT_HASHS ||| i

section Daemon

variable (ticksPerSec : Nat)

/-- `xact->lifetime` for a timeout of `ms` milliseconds. -/
def lifetimeOf (ms : Nat) : Int :=
  if (ms * ticksPerSec + 500) / 1000 = 0 then 1 else ((ms * ticksPerSec + 500) / 1000 : Nat)

/-- `rpcUdpSend` up to the end of the encoding, which succeeds if `encodes`. -/
def sendBegin (s : State) (p : Ptr) (srvr ms : Nat) (encodes : Bool) : State :=
  let x := s.xact p
  let lt := lifetimeOf ticksPerSec ms
  let s' := advance { s with
    xact := upd s.xact p { x with
      lifetime := lt, tolive := lt, server := some srvr } } p
  let x' := s'.xact p
  { s' with
    xact := upd s'.xact p
      (if encodes then { x' with phase := .encoded } else { x' with status := .cantencodeargs }) }

/-- `rpcUdpSend`: the message to the daemon. -/
def sendQueue (s : State) (p : Ptr) : State :=
  let x := s.xact p
  if s.msgQOpen ∧ s.msgQ.length < RPCIOD_QDEPTH then
    { s with
      msgQ := s.msgQ ++ [p]
      xact := upd s.xact p { x with phase := .queued, call := some s.ncalls }
      call := upd s.call s.ncalls ⟨p, slot x.xid, s.gen (slot x.xid), x.xid, x.lifetime, 0, 0⟩
      ncalls := s.ncalls + 1 }
  else { s with xact := upd s.xact p { x with phase := .idle } }

/-- `rpcUdpSend`: the wake-up of the daemon. -/
def sendEvent (s : State) (p : Ptr) : State :=
  { s with
    txEvent := true
    xact := upd s.xact p { s.xact p with phase := .idle } }

/-- The call of `kevent` and the reading of the clock; `rx` and `kill` are events, `unow` the
    ticks since boot. -/
def kevent (s : State) (rx kill : Bool) (unow : Int) : State :=
  if kill ∧ ∀ i < XACT_HASHS, s.xactHashTbl i = none then { s with msgQOpen := false, pc := .dead }
  else
    { s with
      txEvent := false
      now := unow - s.thenTicks
      pc := if rx then .rx s.txEvent else if s.txEvent then .tx else .work }

/-- What `sockRcv` makes of a datagram. -/
inductive Rcv where
  | drop
  | fault
  | found (p : Ptr)
  deriving DecidableEq

/-- The match of `sockRcv`.  It reads the port through `xact->server`, which is null in a
    transaction that was never sent; if the XIDs differ, the message about the mismatch does. -/
def sockRcv (s : State) (xid port : Nat) : Rcv :=
  match s.xactHashTbl (slot xid) with
  | none => .drop
  | some p =>
    match (s.xact p).server with
    | none => .fault
    | some srv => if (s.xact p).xid = xid ∧ (s.server srv).port = port then .found p else .drop

/-- The slot of the XID is empty, or its transaction has a server. -/
def Addressed (s : State) (xid : Nat) : Prop :=
  ∀ p ∈ s.xactHashTbl (slot xid), (s.xact p).server ≠ none

instance (s : State) (xid : Nat) : Decidable (Addressed s xid) :=
  inferInstanceAs (Decidable (∀ p ∈ s.xactHashTbl (slot xid), (s.xact p).server ≠ none))

/-- The running average of the retry period, on `rtems_interval`. -/
def averageRetry (rtry : Nat) (trip : Int) : Nat :=
  let trip := if (trip % 2 ^ 32).toNat = 0 then 1 else (trip % 2 ^ 32).toNat
  min ((3 * rtry + trip * 8) % 2 ^ 32 / 4) (RPCIOD_RETX_CAP_S * ticksPerSec)

/-- The daemon handles a transaction that `sockRcv` found. -/
def received (s : State) (p : Ptr) : State :=
  let s1 := advance { s with listHead := s.listHead.erase p } p
  let x := s1.xact p
  let trip := s1.now - x.trip
  let srv := x.server.getD 0
  complete { s1 with
    xact := upd s1.xact p { x with trip := trip }
    server := upd s1.server srv { s1.server srv with
      retryPeriod := averageRetry ticksPerSec (s1.server srv).retryPeriod trip } } p .success

/-- One datagram, an answer to the call `j` from `port`. -/
def rcv (s : State) (j port : Nat) : State :=
  match sockRcv s (s.call j).xid port with
  | .drop => s
  | .fault => { s with fault := true }
  | .found p => received ticksPerSec s p

def rcvEnd (s : State) (tx : Bool) : State := { s with pc := if tx then .tx else .work }

/-- One message of the queue, put to the head of the timeout queue. -/
def txStep (s : State) : State :=
  match s.msgQ with
  | [] => { s with pc := .work }
  | p :: rest =>
    { s with
      msgQ := rest
      listHead := p :: s.listHead
      xact := upd s.xact p { s.xact p with age := s.now, trip := FIRST_ATTEMPT } }

/-- `xact->tolive < 0`. -/
def timedOut (s : State) (p : Ptr) : State := complete (advance s p) p .timedout

/-- `sendto` failed. -/
def sendFailed (s : State) (p : Ptr) : State :=
  complete { s with xact := upd s.xact p { s.xact p with failed := true } } p .cantsend

def backOff (rtry : Nat) : Nat :=
  if rtry < RPCIOD_RETX_CAP_S * ticksPerSec then rtry * 2 % 2 ^ 32 else rtry

/-- `sendto` was successful. -/
def sent (s : State) (p : Ptr) : State :=
  let x := s.xact p
  let srv := x.server.getD 0
  let rtry :=
    if x.trip ≠ FIRST_ATTEMPT then backOff ticksPerSec (s.server srv).retryPeriod
    else (s.server srv).retryPeriod
  let capped : Int := min rtry x.lifetime
  let j := x.call.getD 0
  { s with
    server := upd s.server srv { s.server srv with retryPeriod := rtry }
    xact := upd s.xact p
      { x with trip := s.now, age := s.now + capped, tolive := x.tolive - capped }
    newList := p :: s.newList
    call := upd s.call j { s.call j with sends := (s.call j).sends + 1 } }

/-- The first transaction of the timeout queue; `sends` says whether `sendto` succeeds. -/
def work (s : State) (sends : Bool) : State :=
  match s.listHead with
  | [] => { s with pc := .insert }
  | p :: rest =>
    if (s.xact p).age ≤ s.now then
      let s' := { s with listHead := rest }
      if (s.xact p).tolive < 0 then timedOut s' p
      else if sends then sent ticksPerSec s' p
      else sendFailed s' p
    else { s with pc := .insert }

def insertByAge (age : Ptr → Int) (p : Ptr) : List Ptr → List Ptr
  | [] => [p]
  | n :: ns => if age p > age n then n :: insertByAge age p ns else p :: n :: ns

/-- The epoch is moved to `now`. -/
def readjust (s : State) : State :=
  if s.now > RPCIOD_EPOCH_SECS * ticksPerSec then
    { s with
      thenTicks := s.thenTicks + s.now
      now := 0
      xact := fun p =>
        if p ∈ s.listHead then
          { s.xact p with age := (s.xact p).age - s.now, trip := (s.xact p).trip - s.now }
        else s.xact p }
  else s

/-- One of the newly sent transactions, or the end of the iteration. -/
def insertStep (s : State) : State :=
  match s.newList with
  | [] => { readjust ticksPerSec s with pc := .wait, iterations := s.iterations + 1 }
  | p :: rest =>
    { s with
      newList := rest
      listHead := insertByAge (fun q => (s.xact q).age) p s.listHead }

inductive Act where
  | create (p : Ptr) (header : Bool)
  | destroy (p : Ptr)
  | sendBegin (p : Ptr) (srvr ms : Nat) (encodes : Bool)
  | sendQueue (p : Ptr)
  | sendEvent (p : Ptr)
  | kevent (rx kill : Bool) (unow : Int)
  | rcv (j port : Nat)
  | rcvEnd
  | tx
  | work (sends : Bool)
  | insert

def State.owned (s : State) (p : Ptr) : Bool := p ∈ s.live ∧ p ∉ s.flight

def step (s : State) (a : Act) : Option State :=
  if s.fault then none
  else
    match a with
    | .create p header => if p ∈ s.live then none else some (rpcUdpXactCreate s p header).1
    | .destroy p =>
      if s.owned p ∧ (s.xact p).phase = .idle then some (rpcUdpXactDestroy s p) else none
    | .sendBegin p srvr ms encodes =>
      if s.owned p ∧ (s.xact p).phase = .idle then
        some (sendBegin ticksPerSec s p srvr ms encodes)
      else none
    | .sendQueue p =>
      if s.owned p ∧ (s.xact p).phase = .encoded then some (sendQueue s p) else none
    | .sendEvent p =>
      if p ∈ s.live ∧ (s.xact p).phase = .queued then some (sendEvent s p) else none
    | .kevent rx kill unow =>
      if s.pc = .wait ∧ s.thenTicks + s.now ≤ unow then some (kevent s rx kill unow) else none
    | .rcv j port =>
      match s.pc with
      | .rx _ => if j < s.ncalls ∧ 0 < (s.call j).sends then some (rcv ticksPerSec s j port) else none
      | _ => none
    | .rcvEnd =>
      match s.pc with
      | .rx tx => some (rcvEnd s tx)
      | _ => none
    | .tx => if s.pc = .tx then some (txStep s) else none
    | .work sends => if s.pc = .work then some (work ticksPerSec s sends) else none
    | .insert => if s.pc = .insert then some (insertStep ticksPerSec s) else none

/-- A running daemon, no transactions.  `xid` is the argument of a call of `rpcSetXIDs`, if there
    was one, and `port` gives the ports of the servers. -/
def init (xid : Option Nat) (port : Nat → Nat) : State where
  live := []
  xact _ := ⟨0, none, 0, 0, .success, 0, 0, .idle, none, false⟩
  xactHashTbl _ := none
  xidUpper i := match xid with
    | none => 0
    | some xid => rpcSetXIDs xid i
  xidHashSeed := 0
  server n := ⟨port n, RPCIOD_RETX_CAP_S * ticksPerSec⟩
  msgQOpen := true
  msgQ := []
  txEvent := false
  pc := .wait
  now := 0
  thenTicks := 0
  listHead := []
  newList := []
  fault := false
  gen _ := 0
  call _ := ⟨0, 0, 0, 0, 0, 0, 0⟩
  ncalls := 0
  iterations := 0

end Daemon

end RtemsLibbsd.Rpcio
