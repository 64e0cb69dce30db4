import RtemsLibbsd.Rpcio.Completion

/-!
# The requestors of the RPC daemon

Model of the callers' side of `rtemsbsd/nfsclient/rpcio.c` over the daemon of `Rpcio.Model`: a task
gets a transaction from a pool or creates one, sends it with `rpcUdpSend`, waits for its event in
`rpcUdpRcv` and puts it back into the pool or destroys it, as `nfscall` and `rpcUdpCallRp` do.

* A task is in one call at a time.  Its steps are the sections between the points at which the
  daemon or another task may run: the three steps of `rpcUdpSend`, the reception of the event, the
  decoding of the reply up to the message that queues the transaction again, and the wake-up of
  the daemon after it.
* No step of a task asks who owns the transaction.
* A reply is any answer a server can give.  `authunix_validate` and `authunix_refresh` of
  `freebsd/lib/libc/rpc/auth_unix.c` decide whether the credentials are refreshed.
* `RTEMS_RPC_EVENT` is pending at a task if the list `pending` of it is not empty; the list names
  the calls whose completion is behind the event: for a reply the call that the datagram
  answers, which is not read by the code.  Likewise `received` records which call a task waited
  for and which calls the event it received was sent for.
-/

namespace RtemsLibbsd.Rpcio

open RtemsLibbsd.Transition

/-- `enum accept_stat`. -/
inductive AcceptStat where
  | success
  | progUnavail
  | progMismatch
  | procUnavail
  | garbageArgs
  | systemErr
  | unknown
  deriving DecidableEq

/-- `enum reject_stat`. -/
inductive RejectStat where
  | rpcMismatch
  | authError
  | unknown
  deriving DecidableEq

/-- The verifier of an accepted reply: of flavor `AUTH_SHORT`, with a credential in it that can be
    decoded or not, or of another flavor. -/
inductive Verf where
  | short (decodes : Bool)
  | other
  deriving DecidableEq

/-- What `xdr_replymsg` makes of a reply. -/
inductive Reply where
  | undecodable
  | accepted (stat : AcceptStat) (verf : Verf)
  | denied (stat : RejectStat)

/-- What `rpcUdpRcv` and `rpcUdpSend` return. -/
inductive RcvStat where
  | daemon (status : ClntStat)
  | success
  | cantdecoderes
  | autherror
  | progunavail
  | progversmismatch
  | procunavail
  | cantdecodeargs
  | systemerror
  | versmismatch
  | failed
  deriving DecidableEq

/-- `_seterr_reply`; no status for a reply that cannot be decoded. -/
def seterrReply : Reply → Option RcvStat
  | .undecodable => none
  | .accepted .success _ => some .success
  | .accepted .progUnavail _ => some .progunavail
  | .accepted .progMismatch _ => some .progversmismatch
  | .accepted .procUnavail _ => some .procunavail
  | .accepted .garbageArgs _ => some .cantdecodeargs
  | .accepted .systemErr _ => some .systemerror
  | .accepted .unknown _ => some .failed
  | .denied .rpcMismatch => some .versmismatch
  | .denied .authError => some .autherror
  | .denied .unknown => some .failed

/-- `authunix_validate`: whether the credential is a shorthand of the server afterwards, and the
    answer. -/
def authunixValidate (short : Bool) : Reply → Bool × Bool
  | .accepted _ (.short decodes) => (decodes, true)
  | _ => (short, true)

/-- `authunix_refresh`: the original credential is used again if it is not in use; `encodes` says
    whether it can be encoded. -/
def authunixRefresh (short encodes : Bool) : Bool × Bool :=
  if short then (!encodes, encodes) else (short, false)

inductive TaskPc where
  | idle
  | holds (p : Ptr)
  | encoded (p : Ptr)
  | queued (p : Ptr)
  | receive (p : Ptr)
  | decode (p : Ptr)
  | requeued (p : Ptr)
  deriving DecidableEq

def TaskPc.held : TaskPc → Option Ptr
  | .idle => none
  | .holds p | .encoded p | .queued p | .receive p | .decode p | .requeued p => some p

structure System where
  d : State
  requestor : Ptr → Nat
  pool : Ptr → Option Nat
  box : Nat → List Ptr
  short : Nat → Bool
  task : Nat → TaskPc
  /-- The last result of `rpcUdpSend` or `rpcUdpRcv`. -/
  stat : Nat → RcvStat
  pending : Nat → List Nat
  received : List (Option Nat × List Nat)

/-- The transaction and the call for which an action of the daemon sends an event. -/
def wakes (s : State) : Act → Option (Ptr × Option Nat)
  | .rcv j port =>
    match sockRcv s (s.call j).xid port with
    | .found p => some (p, some j)
    | _ => none
  | .work sends =>
    match s.listHead with
    | [] => none
    | p :: _ =>
      if (s.xact p).age ≤ s.now ∧ ((s.xact p).tolive < 0 ∨ sends = false) then
        some (p, (s.xact p).call)
      else none
  | _ => none

/-- `rtems_event_system_send(xact->requestor, RTEMS_RPC_EVENT)`. -/
def System.wake (S : System) (w : Option (Ptr × Option Nat)) : System :=
  match w with
  | none => S
  | some (p, j) =>
    { S with pending := upd S.pending (S.requestor p) (S.pending (S.requestor p) ++ j.toList) }

section Tasks

variable (ticksPerSec : Nat) (poolsize : Nat → Nat)

def daemon (S : System) (a : Act) : Option System :=
  (step ticksPerSec S.d a).map fun d => { S.wake (wakes S.d a) with d := d }

/-- The task `t` has the new transaction `p`, if `rpcUdpXactCreate` was successful.  Its server is
    set by `rpcUdpClntCreate` only. -/
def System.created (S : System) (t p : Nat) (header : Bool) (pool server : Option Nat) : System :=
  let (d, ok) := rpcUdpXactCreate S.d p header
  if ok then
    { S with
      d := { d with xact := upd d.xact p { d.xact p with server := server } }
      pool := upd S.pool p pool
      task := upd S.task t (.holds p) }
  else { S with d := d }

/-- `rpcUdpXactPoolGet` with `XactGetCreate`; `p` and `header` are for `rpcUdpXactCreate`. -/
def rpcUdpXactPoolGet (S : System) (t pool p : Nat) (header : Bool) : System :=
  match S.box pool with
  | q :: rest => { S with box := upd S.box pool rest, task := upd S.task t (.holds q) }
  | [] => S.created t p header (some pool) none

def rpcUdpXactPoolPut (S : System) (t p pool : Nat) : System :=
  if (S.box pool).length < poolsize pool then
    { S with box := upd S.box pool (S.box pool ++ [p]), task := upd S.task t .idle }
  else { S with d := rpcUdpXactDestroy S.d p, task := upd S.task t .idle }

/-- `rpcUdpSend` up to the end of the encoding. -/
def rpcUdpSend (S : System) (t p srvr ms : Nat) (encodes : Bool) : System :=
  { S with
    d := sendBegin ticksPerSec S.d p srvr ms encodes
    task := upd S.task t (if encodes then .encoded p else .holds p)
    stat := if encodes then S.stat else upd S.stat t (.daemon .cantencodeargs) }

def State.room (s : State) : Prop := s.msgQOpen ∧ s.msgQ.length < RPCIOD_QDEPTH

instance (s : State) : Decidable s.room := by unfold State.room; infer_instance

/-- `rtems_task_ident` and `rtems_message_queue_send` of `rpcUdpSend` and `rpcUdpRcv`; the next
    position of the task is `pc` if the queue takes the message. -/
def queueXact (S : System) (t p : Nat) (pc : TaskPc) : System :=
  { S with
    d := sendQueue S.d p
    requestor := upd S.requestor p t
    task := upd S.task t (if S.d.room then pc else .holds p)
    stat := if S.d.room then S.stat else upd S.stat t (.daemon .cantsend) }

/-- `rpcUdpRcv`: the event. -/
def receiveEvent (S : System) (t p : Nat) : System :=
  let S' := { S with
    pending := upd S.pending t []
    received := ((S.d.xact p).call, S.pending t) :: S.received }
  match (S.d.xact p).status with
  | .success => { S' with task := upd S.task t (.decode p) }
  | status => { S' with
      task := upd S.task t (.holds p)
      stat := upd S.stat t (.daemon status) }

/-- `rpcUdpRcv` returns. -/
def System.returns (S : System) (t p : Nat) (stat : RcvStat) : System :=
  { S with task := upd S.task t (.holds p), stat := upd S.stat t stat }

/-- `rpcUdpRcv`: the reply; `encodes` is for `authunix_refresh`. -/
def decodeReply (S : System) (t p : Nat) (reply : Reply) (encodes : Bool) : System :=
  let srv := ((S.d.xact p).server).getD 0
  match seterrReply reply with
  | none => S.returns t p .cantdecoderes
  | some .success =>
    let (short, ok) := authunixValidate (S.short srv) reply
    System.returns { S with short := upd S.short srv short } t p (if ok then .success else .autherror)
  | some stat =>
    -- `refresh` is set for every status other than `RPC_SUCCESS`
    let (short, ok) := authunixRefresh (S.short srv) encodes
    let S' := { S with short := upd S.short srv short, stat := upd S.stat t stat }
    if ok then queueXact S' t p (.requeued p) else S'.returns t p stat

inductive TaskAct where
  | daemon (a : Act)
  | get (t pool p : Nat) (header : Bool)
  | create (t p srvr : Nat) (header : Bool)
  | put (t : Nat)
  | destroy (t : Nat)
  | send (t srvr ms : Nat) (encodes : Bool)
  | queue (t : Nat)
  | wake (t : Nat)
  | receive (t : Nat)
  | decode (t : Nat) (reply : Reply) (encodes : Bool)

/-- One step of a task or of the daemon.  `calloc` does not answer the address of a live
    transaction; after a failed assertion nothing happens. -/
def taskStep (S : System) (a : TaskAct) : Option System :=
  if S.d.fault then none
  else
    match a with
    | .daemon a => if a.ofRequestor then none else daemon ticksPerSec S a
    | .get t pool p header =>
      if S.task t = .idle ∧ p ∉ S.d.live then some (rpcUdpXactPoolGet S t pool p header) else none
    | .create t p srvr header =>
      if S.task t = .idle ∧ p ∉ S.d.live then some (S.created t p header none (some srvr)) else none
    | .put t =>
      match S.task t with
      | .holds p =>
        match S.pool p with
        | some pool => some (rpcUdpXactPoolPut poolsize S t p pool)
        | none => none
      | _ => none
    | .destroy t =>
      match S.task t with
      | .holds p =>
        if S.pool p = none then
          some { S with d := rpcUdpXactDestroy S.d p, task := upd S.task t .idle }
        else none
      | _ => none
    | .send t srvr ms encodes =>
      match S.task t with
      | .holds p => some (rpcUdpSend ticksPerSec S t p srvr ms encodes)
      | _ => none
    | .queue t =>
      match S.task t with
      | .encoded p => some (queueXact S t p (.queued p))
      | _ => none
    | .wake t =>
      match S.task t with
      | .queued p => some { S with d := sendEvent S.d p, task := upd S.task t (.receive p) }
      | .requeued p => some { S with d := sendEvent S.d p, task := upd S.task t (.holds p) }
      | _ => none
    | .receive t =>
      match S.task t with
      | .receive p => if S.pending t = [] then none else some (receiveEvent S t p)
      | _ => none
    | .decode t reply encodes =>
      match S.task t with
      | .decode p => some (decodeReply S t p reply encodes)
      | _ => none

end Tasks

def initSystem (ticksPerSec : Nat) (xid : Option Nat) (port : Nat → Nat) : System where
  d := init ticksPerSec xid port
  requestor _ := 0
  pool _ := none
  box _ := []
  short _ := false
  task _ := .idle
  stat _ := .success
  pending _ := []
  received := []

end RtemsLibbsd.Rpcio
