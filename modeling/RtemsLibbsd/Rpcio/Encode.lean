import RtemsLibbsd.Xdr
import RtemsLibbsd.Rpcio.Model

/-!
# The encoding of a request

`rpcUdpSend` of `rtemsbsd/nfsclient/rpcio.c` with the bytes it writes; `Rpcio.Model` has its effect on the queues.

* `Obuf` — the output buffer of a transaction and the XDR stream on it.  `obuf.xid` lies over the first word of the
  stream, in the byte order of the machine.
* `rpcUdpSend` — an argument is the pair of an XDR routine and the value it is called with, so it is an `Encoder`; the
  variadic list is the list of pairs in front of the null pointer.
* `datagram` — what the daemon gives to `sendto`.

Principal result: `rpcUdpSend_encodes_iff`.  In the loop over the variadic list only `va_end` depends on the failure of the
encoder, and the `return` behind it is taken after the first pair in any case.
-/

namespace RtemsLibbsd.Rpcio.Encode

open RtemsLibbsd.Xdr RtemsLibbsd.Transition

abbrev RPC_MSG_VERSION : Nat := 2

/-- `CALL` of `enum msg_type` -/
abbrev CALL : Nat := 0

/-- The words that `xdr_callhdr` writes, for the XID 0. -/
def callhdr (program version : Nat) : List Encoder :=
  [.long 0, .long CALL, .long RPC_MSG_VERSION, .long program, .long version]

/-- The bytes of the permanent header; `xdrpos` is their number. -/
def callHeader (program version : Nat) : List UInt8 := (callhdr program version).flatMap Encoder.bytes

def hostLong (bigEndian : Bool) (n : Nat) : List UInt8 := if bigEndian then putLong n else (putLong n).reverse

/-- The output buffer.  `xdrs` is what the stream has up to its position, with the XID 0. -/
structure Obuf where
  program : Nat
  version : Nat
  obufsize : Nat
  xdrs : List UInt8
  header_fits : (callHeader program version).length ≤ obufsize

/-- The daemon, the output buffers, and what `AUTH_MARSHALL` writes for a server. -/
structure Sender where
  daemon : State
  obuf : Ptr → Obuf
  auth : Nat → Encoder

def Sender.datagram (bigEndian : Bool) (s : Sender) (p : Ptr) : List UInt8 :=
  hostLong bigEndian (s.daemon.xact p).xid ++ (s.obuf p).xdrs.drop 4

/-- The loop over the variadic list: what the stream has then, and whether the loop came to the null pointer. -/
def variadic (size : Nat) (buf : List UInt8) : List Encoder → List UInt8 × Bool
  | [] => (buf, true)
  -- `if (!xargs(..)) va_end(ap); return ..;` without braces
  | e :: _ => ((e.run size buf).getD buf, false)

/-- The encoding: what the stream has, and whether the request is queued.  The stream of a refused request is not
    read, the next one sets it back to the header. -/
def encode (obuf : Obuf) (proc : Nat) (auth xargs : Encoder) (more : List Encoder) : List UInt8 × Bool :=
  match encodeAll obuf.obufsize (callHeader obuf.program obuf.version) [.long proc, auth, xargs] with
  | none => (callHeader obuf.program obuf.version, false)
  | some buf => variadic obuf.obufsize buf more

section Send

variable (ticksPerSec : Nat)

/-- `rpcUdpSend`; `xargs` and `more` are the arguments. -/
def rpcUdpSend (s : Sender) (p : Ptr) (srvr ms proc : Nat) (xargs : Encoder) (more : List Encoder) :
    ClntStat × Sender :=
  let encoded := encode (s.obuf p) proc (s.auth srvr) xargs more
  let daemon := sendBegin ticksPerSec s.daemon p srvr ms encoded.2
  let s := { s with obuf := upd s.obuf p { s.obuf p with xdrs := encoded.1 } }
  if encoded.2 then
    if daemon.msgQOpen ∧ daemon.msgQ.length < RPCIOD_QDEPTH then
      (.success, { s with daemon := sendEvent (sendQueue daemon p) p })
    else (.cantsend, { s with daemon := sendQueue daemon p })
  else (.cantencodeargs, { s with daemon := daemon })

def request (s : Sender) (srvr proc : Nat) (xargs : Encoder) (more : List Encoder) : List Encoder :=
  .long proc :: s.auth srvr :: xargs :: more

/-- Every encoder of a request succeeds within the output buffer. -/
def EncodersFit (s : Sender) (p : Ptr) (srvr proc : Nat) (xargs : Encoder) (more : List Encoder) : Prop :=
  Fits (s.obuf p).obufsize (callHeader (s.obuf p).program (s.obuf p).version).length (request s srvr proc xargs more)

/-- **What `rpcUdpSend` has to do with a request.** -/
structure Encodes (s : Sender) (p : Ptr) (srvr ms proc : Nat) (xargs : Encoder) (more : List Encoder) : Prop where
  queued : EncodersFit s p srvr proc xargs more →
    (rpcUdpSend ticksPerSec s p srvr ms proc xargs more).1 = .success ∧
    (rpcUdpSend ticksPerSec s p srvr ms proc xargs more).2.daemon.msgQ = s.daemon.msgQ ++ [p] ∧
    ∀ bigEndian, (rpcUdpSend ticksPerSec s p srvr ms proc xargs more).2.datagram bigEndian p =
      hostLong bigEndian (((s.daemon.xact p).xid + XACT_HASHS) % 2 ^ 32) ++
        ((callHeader (s.obuf p).program (s.obuf p).version).drop 4 ++
          (putLong proc ++ ((s.auth srvr).bytes ++ (xargs :: more).flatMap Encoder.bytes)))
  refused : ¬ EncodersFit s p srvr proc xargs more →
    (rpcUdpSend ticksPerSec s p srvr ms proc xargs more).1 = .cantencodeargs ∧
    (rpcUdpSend ticksPerSec s p srvr ms proc xargs more).2.daemon.msgQ = s.daemon.msgQ

end Send

/-! ## What is written -/

theorem length_callHeader (program version : Nat) : (callHeader program version).length = 20 := by
  simp [callHeader, callhdr, Encoder.long, putLong]

section Encoding

variable {obuf : Obuf} {proc : Nat} {auth xargs : Encoder} {more : List Encoder}

theorem encode_snd :
    (encode obuf proc auth xargs more).2 = true ↔
      more = [] ∧
      Fits obuf.obufsize (callHeader obuf.program obuf.version).length [.long proc, auth, xargs] := by
  unfold encode
  rw [encodeAll_eq obuf.header_fits]
  by_cases h : Fits obuf.obufsize (callHeader obuf.program obuf.version).length [.long proc, auth, xargs]
  · rw [if_pos h]
    cases more with
    | nil => simp [variadic, h]
    | cons e es => simp [variadic]
  · simp [h]

theorem encode_fst
    (h : Fits obuf.obufsize (callHeader obuf.program obuf.version).length [.long proc, auth, xargs]) :
    (encode obuf proc auth xargs []).1 =
      callHeader obuf.program obuf.version ++ (putLong proc ++ (auth.bytes ++ xargs.bytes)) := by
  unfold encode
  rw [encodeAll_eq obuf.header_fits, if_pos h]
  simp [variadic, Encoder.long]

end Encoding

section Sending

variable {ticksPerSec : Nat} {s : Sender} {p : Ptr} {srvr ms proc : Nat} {xargs : Encoder} {more : List Encoder}

theorem sendBegin_xid (s : State) (encodes : Bool) :
    ((sendBegin ticksPerSec s p srvr ms encodes).xact p).xid = ((s.xact p).xid + XACT_HASHS) % 2 ^ 32 := by
  cases encodes <;> simp [sendBegin, advance, upd]

theorem sendQueue_xid (s : State) : ((sendEvent (sendQueue s p) p).xact p).xid = (s.xact p).xid := by
  unfold sendEvent sendQueue
  split <;> simp [upd]

theorem sendQueue_msgQ {s : State} (hroom : s.msgQOpen = true ∧ s.msgQ.length < RPCIOD_QDEPTH) :
    (sendQueue s p).msgQ = s.msgQ ++ [p] := by
  unfold sendQueue
  rw [if_pos hroom]

theorem rpcUdpSend_refused (h : (encode (s.obuf p) proc (s.auth srvr) xargs more).2 = false) :
    (rpcUdpSend ticksPerSec s p srvr ms proc xargs more).1 = .cantencodeargs ∧
    (rpcUdpSend ticksPerSec s p srvr ms proc xargs more).2.daemon.msgQ = s.daemon.msgQ := by
  unfold rpcUdpSend
  simp only [h]
  exact ⟨rfl, rfl⟩

theorem rpcUdpSend_success (h : (encode (s.obuf p) proc (s.auth srvr) xargs more).2 = true) :
    (rpcUdpSend ticksPerSec s p srvr ms proc xargs more).1 = .success ↔
      s.daemon.msgQOpen = true ∧ s.daemon.msgQ.length < RPCIOD_QDEPTH := by
  unfold rpcUdpSend
  simp only [h, if_true]
  show (if s.daemon.msgQOpen = true ∧ s.daemon.msgQ.length < RPCIOD_QDEPTH then _ else _ : ClntStat × Sender).1 = _ ↔ _
  grind

theorem rpcUdpSend_eq (h : (encode (s.obuf p) proc (s.auth srvr) xargs more).2 = true)
    (hroom : s.daemon.msgQOpen = true ∧ s.daemon.msgQ.length < RPCIOD_QDEPTH) :
    rpcUdpSend ticksPerSec s p srvr ms proc xargs more =
      (.success, { s with
        obuf := upd s.obuf p { s.obuf p with xdrs := (encode (s.obuf p) proc (s.auth srvr) xargs more).1 }
        daemon := sendEvent (sendQueue (sendBegin ticksPerSec s.daemon p srvr ms true) p) p }) := by
  unfold rpcUdpSend
  simp only [h, if_true]
  exact if_pos hroom

theorem rpcUdpSend_queued (h : (encode (s.obuf p) proc (s.auth srvr) xargs more).2 = true)
    (hroom : s.daemon.msgQOpen = true ∧ s.daemon.msgQ.length < RPCIOD_QDEPTH) (bigEndian : Bool) :
    (rpcUdpSend ticksPerSec s p srvr ms proc xargs more).2.daemon.msgQ = s.daemon.msgQ ++ [p] ∧
    (rpcUdpSend ticksPerSec s p srvr ms proc xargs more).2.datagram bigEndian p =
      hostLong bigEndian (((s.daemon.xact p).xid + XACT_HASHS) % 2 ^ 32) ++
        (encode (s.obuf p) proc (s.auth srvr) xargs more).1.drop 4 := by
  rw [rpcUdpSend_eq h hroom]
  constructor
  · show (sendQueue (sendBegin ticksPerSec s.daemon p srvr ms true) p).msgQ = _
    exact sendQueue_msgQ hroom
  · show hostLong bigEndian _ ++ List.drop 4 (upd s.obuf p _ p).xdrs = _
    rw [sendQueue_xid, sendBegin_xid]
    simp [upd]

end Sending

/-- **A request is handled as it should if and only if** an encoder fails, or there is one argument and room in the
    message queue. -/
theorem rpcUdpSend_encodes_iff (ticksPerSec : Nat) (s : Sender) (p : Ptr) (srvr ms proc : Nat) (xargs : Encoder)
    (more : List Encoder) :
    Encodes ticksPerSec s p srvr ms proc xargs more ↔
      ¬ EncodersFit s p srvr proc xargs more ∨
      (more = [] ∧ s.daemon.msgQOpen = true ∧ s.daemon.msgQ.length < RPCIOD_QDEPTH) := by
  constructor
  · intro h
    grind [h.queued, rpcUdpSend_refused, encode_snd, rpcUdpSend_success]
  · intro h
    constructor
    · intro hfit
      obtain ⟨rfl, hroom⟩ := h.resolve_left (not_not_intro hfit)
      have henc : (encode (s.obuf p) proc (s.auth srvr) xargs []).2 = true := encode_snd.2 ⟨rfl, hfit⟩
      refine ⟨(rpcUdpSend_success henc).2 hroom, (rpcUdpSend_queued henc hroom false).1, fun bigEndian => ?_⟩
      rw [(rpcUdpSend_queued henc hroom bigEndian).2, encode_fst hfit]
      simp [List.drop_append, length_callHeader]
    · intro hfit
      refine rpcUdpSend_refused ?_
      rw [← Bool.not_eq_true, encode_snd]
      rintro ⟨rfl, hfits⟩
      exact hfit hfits

section TwoArguments

/-- A transaction of the first program and version, in a daemon without other work. -/
def idleSender : Sender where
  daemon := { init 100 none (fun _ => 2049) with live := [0] }
  obuf _ := ⟨0, 0, 400, [], by decide⟩
  auth _ := .long 0

/-- A request with two words is refused although they fit. -/
theorem two_arguments_refused : ¬ Encodes 100 idleSender 0 0 1000 1 (.long 1) [.long 2] := fun h => by
  have hfit : EncodersFit idleSender 0 0 1 (.long 1) [.long 2] := by
    refine ⟨?_, by decide⟩
    simp [request, idleSender, Encoder.long]
  have hsuccess := (h.queued hfit).1
  cases hsuccess

end TwoArguments

end RtemsLibbsd.Rpcio.Encode
