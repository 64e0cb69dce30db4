import Mathlib.Data.List.Forall2
import Mathlib.Data.List.OfFn
import Mathlib.Data.Nat.Bitwise
import Mathlib.Logic.Function.Basic
import RtemsLibbsd.Transition

/-!
# Looking up a route

`rtems_get_route` writes a request to a routing socket and reads from it until it finds a reply.  The
kernel delivers every routing message to every open routing socket, the replies of other callers
included.

* `RtMsg` — a routing message with its addresses, `payload` — the bytes after its header.
* `getRtaddrs` — the walk over the addresses by their rounded lengths.
* `step` — callers, the kernel's replies and unrelated messages in any order.  Every call has its own
  buffer, and a pointer into a buffer is valid while the buffer is allocated.

Results:

* `getRtaddrs_located` — for every combination of address bits the walk finds the addresses of the
  message where the kernel put them, inside the message.
* `route_contract_iff` — a run keeps the contract exactly when every call accepts the reply to its own
  request and this reply carries no address: the addresses are in the buffer, which is freed.
* `foreign_reply` — two callers, one of which gets the reply of the other one.
-/

namespace RtemsLibbsd.Routes

open Option RtemsLibbsd.Transition

/-! ## Addresses in a message -/

def RTM_GET : Nat := 4
def RTAX_MAX : Nat := 8
structure Target where
  sizeofULong : Nat
  ilp32_or_lp64 : sizeofULong = 4 ∨ sizeofULong = 8

/-- `struct sockaddr`: its length and the bytes behind it. -/
structure Sockaddr where
  saLen : Nat
  rest : List Nat
  saLen_le : saLen ≤ 64
  rest_length : rest.length = saLen - 1

def rrRoundup (a size : Nat) : Nat :=
  if a &&& (size - 1) ≠ 0 then 1 + (a ||| (size - 1)) else a

/-- The distance of `NEXT_SA`. -/
def nextSa (tg : Target) (saLen : Nat) : Nat :=
  if saLen ≠ 0 then rrRoundup saLen tg.sizeofULong else tg.sizeofULong

/-- `SA_SIZE` of the kernel. -/
def saSize (tg : Target) (saLen : Nat) : Nat :=
  if saLen = 0 then tg.sizeofULong else 1 + ((saLen - 1) ||| (tg.sizeofULong - 1))

def Sockaddr.bytes (tg : Target) (a : Sockaddr) : List Nat :=
  (a.saLen :: a.rest) ++ List.replicate (saSize tg a.saLen - (1 + a.rest.length)) 0

structure Origin (ι : Type) where
  task : ι
  call : Nat
  dst : Nat
deriving DecidableEq

/-- A routing message; `origin` is there for the statements. -/
structure RtMsg (ι : Type) where
  rtmType : Nat
  rtmSeq : Nat
  rtmPid : Nat
  slots : Fin 8 → Option Sockaddr
  pad : Nat
  origin : Option (Origin ι)

def RtMsg.rtmAddrs {ι : Type} (m : RtMsg ι) : Nat := Nat.ofBits fun i => (m.slots i).isSome

/-- The bytes of `rtsock_msg_buffer` after the header. -/
def RtMsg.payload {ι : Type} (tg : Target) (m : RtMsg ι) : List Nat :=
  ((List.ofFn m.slots).filterMap id).flatMap (Sockaddr.bytes tg) ++ List.replicate m.pad 0

/-- The loop of `get_rtaddrs` over the bits that are left, from the offset `sa`. -/
def walkRtaddrs (tg : Target) (buf : List Nat) : List Bool → Nat → List (Option Nat)
  | [], _ => []
  | true :: bits, sa => some sa :: walkRtaddrs tg buf bits (sa + nextSa tg (buf.getD sa 0))
  | false :: bits, sa => none :: walkRtaddrs tg buf bits sa

/-- `get_rtaddrs`: the offsets of the addresses behind the header. -/
def getRtaddrs (tg : Target) (addrs : Nat) (buf : List Nat) : List (Option Nat) :=
  walkRtaddrs tg buf ((List.range RTAX_MAX).map addrs.testBit) 0

section Walk

variable {tg : Target} {a : Sockaddr}

theorem nextSa_eq (tg : Target) {n : Nat} (h : n ≤ 64) : nextSa tg n = saSize tg n := by
  have h4 : ∀ n, n < 65 →
      (if n ≠ 0 then rrRoundup n 4 else 4) = if n = 0 then 4 else 1 + ((n - 1) ||| (4 - 1)) := by
    decide
  have h8 : ∀ n, n < 65 →
      (if n ≠ 0 then rrRoundup n 8 else 8) = if n = 0 then 8 else 1 + ((n - 1) ||| (8 - 1)) := by
    decide
  grind [nextSa, saSize, tg.ilp32_or_lp64]

theorem le_saSize (tg : Target) (n : Nat) : max 1 n ≤ saSize tg n := by
  grind [saSize, tg.ilp32_or_lp64, Nat.left_le_or]

theorem bytes_length : (a.bytes tg).length = saSize tg a.saLen := by
  have hle := le_saSize tg a.saLen
  have hrest := a.rest_length
  simp only [Sockaddr.bytes, List.length_append, List.length_cons, List.length_replicate]
  omega

theorem bytes_getD (pre post : List Nat) : (pre ++ (a.bytes tg ++ post)).getD pre.length 0 = a.saLen := by
  simp [Sockaddr.bytes]

/-- The address `a` is at the offset `off` of the message. -/
def Located (tg : Target) (buf : List Nat) (off : Nat) (a : Sockaddr) : Prop :=
  ∃ pre post, buf = pre ++ (a.bytes tg ++ post) ∧ off = pre.length

/-- The pointer that the walk stores for a slot of the message. -/
def Designates (tg : Target) (buf : List Nat) : Option Nat → Option Sockaddr → Prop
  | some off, some a => Located tg buf off a
  | none, none => True
  | _, _ => False

theorem walkRtaddrs_located (as : List (Option Sockaddr)) (pre post : List Nat) :
    List.Forall₂ (Designates tg (pre ++ ((as.filterMap id).flatMap (Sockaddr.bytes tg) ++ post)))
      (walkRtaddrs tg (pre ++ ((as.filterMap id).flatMap (Sockaddr.bytes tg) ++ post))
        (as.map Option.isSome) pre.length) as := by
  induction as generalizing pre with
  | nil => exact .nil
  | cons a? as ih =>
    cases a? with
    | none =>
      refine .cons trivial ?_
      exact ih pre
    | some a =>
      have hbuf : pre ++ (((some a :: as).filterMap id).flatMap (Sockaddr.bytes tg) ++ post) =
          (pre ++ a.bytes tg) ++ ((as.filterMap id).flatMap (Sockaddr.bytes tg) ++ post) := by
        simp
      have hnext : nextSa tg a.saLen = (a.bytes tg).length := by
        rw [bytes_length, nextSa_eq tg a.saLen_le]
      rw [hbuf]
      refine .cons ⟨pre, (as.filterMap id).flatMap (Sockaddr.bytes tg) ++ post, ?_, rfl⟩ ?_
      · simp
      · grind [bytes_getD]

/-- **The walk is right for every combination of address bits.** -/
theorem getRtaddrs_located {ι : Type} (tg : Target) (m : RtMsg ι) :
    List.Forall₂ (Designates tg (m.payload tg)) (getRtaddrs tg m.rtmAddrs (m.payload tg))
      (List.ofFn m.slots) := by
  have hbits : (List.range RTAX_MAX).map m.rtmAddrs.testBit = (List.ofFn m.slots).map Option.isSome := by
    grind [List.ext_getElem, RTAX_MAX, List.length_map, Nat.testBit_ofBits_lt, RtMsg.rtmAddrs]
  unfold getRtaddrs
  rw [hbits]
  exact walkRtaddrs_located (List.ofFn m.slots) [] (List.replicate m.pad 0)

end Walk

/-! ## Callers and the routing sockets -/

def BUFLEN_DATA : Nat := 512

/-- `seq`, the same in every call. -/
def RTM_SEQ : Nat := 0x28290817

/-- `getpid()`: there is one process. -/
def PID : Nat := 1

/-- What a `read` leaves in the buffer. -/
def received {ι : Type} (tg : Target) (m : RtMsg ι) : List Nat := (m.payload tg).take BUFLEN_DATA

/-- Inside of a call the caller has a buffer and an open routing socket. -/
inductive Phase where
  | idle
  | opened (buf : Nat)
  | reading (buf : Nat)
deriving DecidableEq

/-- A successful return: the call, what it read and the pointers into its buffer. -/
structure Answer (ι : Type) where
  call : Nat
  dst : Nat
  buf : Nat
  msg : RtMsg ι
  rtiInfo : List (Option Nat)

structure Caller (ι : Type) where
  phase : Phase
  queue : List (RtMsg ι)
  calls : Nat
  dst : Nat
  answers : List (Answer ι)

structure State (ι : Type) where
  callers : ι → Caller ι
  allocated : List Nat
  nextBuf : Nat

inductive Action (ι : Type) where
  | start (i : ι) (dst : Nat)
  /-- The kernel's reply to the request; a reply to a failed `write` goes to the other sockets. -/
  | request (i : ι) (ok : Bool) (slots : Fin 8 → Option Sockaddr) (pad : Nat)
  /-- A message that is no reply to a call of `rtems_get_route`. -/
  | other (rtmType rtmSeq rtmPid : Nat) (slots : Fin 8 → Option Sockaddr) (pad : Nat)
  | read (i : ι) (ok : Bool)

def initCaller (ι : Type) : Caller ι := ⟨.idle, [], 0, 0, []⟩

def getRouteInit (ι : Type) : State ι := ⟨fun _ => initCaller ι, [], 0⟩

def RtMsg.matches {ι : Type} (m : RtMsg ι) : Bool :=
  m.rtmType = RTM_GET && m.rtmSeq = RTM_SEQ && m.rtmPid = PID

def broadcast {ι : Type} (m : RtMsg ι) (s : State ι) : State ι :=
  { s with callers := fun j =>
      if (s.callers j).phase = .idle then s.callers j
      else { s.callers j with queue := (s.callers j).queue ++ [m] } }

def answerOf {ι : Type} (tg : Target) (c : Caller ι) (buf : Nat) (m : RtMsg ι) : Answer ι :=
  ⟨c.calls, c.dst, buf, m, getRtaddrs tg m.rtmAddrs (received tg m)⟩

section Step

variable {ι : Type} [DecidableEq ι]

def State.setCaller (s : State ι) (i : ι) (c : Caller ι) : State ι :=
  { s with callers := Function.update s.callers i c }

/-- `close(s)` and `free(buf)`. -/
def State.leave (s : State ι) (i : ι) (buf : Nat) (answers : List (Answer ι)) : State ι :=
  { s.setCaller i { s.callers i with phase := .idle, queue := [], answers := answers } with
    allocated := s.allocated.erase buf }

def getRouteStep (tg : Target) (s : State ι) : Action ι → Option (State ι)
  | .start i dst =>
    match (s.callers i).phase with
    | .idle =>
      some { s.setCaller i { s.callers i with
          phase := .opened s.nextBuf, calls := (s.callers i).calls + 1, dst := dst } with
        allocated := s.nextBuf :: s.allocated, nextBuf := s.nextBuf + 1 }
    | _ => none
  | .request i ok slots pad =>
    match (s.callers i).phase with
    | .opened buf =>
      let m : RtMsg ι := ⟨RTM_GET, RTM_SEQ, PID, slots, pad,
        some ⟨i, (s.callers i).calls, (s.callers i).dst⟩⟩
      let s := broadcast m s
      if ok then some (s.setCaller i { s.callers i with phase := .reading buf })
      else some (s.leave i buf (s.callers i).answers)
    | _ => none
  | .other rtmType rtmSeq rtmPid slots pad =>
    some (broadcast ⟨rtmType, rtmSeq, rtmPid, slots, pad, none⟩ s)
  | .read i ok =>
    match (s.callers i).phase with
    | .reading buf =>
      if ok then
        match (s.callers i).queue with
        | [] => none
        | m :: queue =>
          if m.matches then
            some (s.leave i buf (answerOf tg (s.callers i) buf m :: (s.callers i).answers))
          else some (s.setCaller i { s.callers i with queue := queue })
      else some (s.leave i buf (s.callers i).answers)
    | _ => none

/-- The message that the action accepts as the reply of a call. -/
def accepted (s : State ι) : Action ι → Option (ι × RtMsg ι)
  | .read i true =>
    match (s.callers i).phase, (s.callers i).queue with
    | .reading _, m :: _ => if m.matches then some (i, m) else none
    | _, _ => none
  | _ => none

variable {tg : Target} {s t : State ι} {i j : ι} {c : Caller ι}

@[simp] theorem setCaller_same : (s.setCaller i c).callers i = c := by simp [State.setCaller]

theorem setCaller_other (h : j ≠ i) : (s.setCaller i c).callers j = s.callers j := by
  simp [State.setCaller, h]

omit [DecidableEq ι] in
theorem broadcast_answers (m : RtMsg ι) (s : State ι) (j : ι) :
    ((broadcast m s).callers j).answers = (s.callers j).answers := by
  simp only [broadcast]
  split <;> rfl

omit [DecidableEq ι] in
theorem broadcast_phase (m : RtMsg ι) (s : State ι) (j : ι) :
    ((broadcast m s).callers j).phase = (s.callers j).phase := by
  simp only [broadcast]
  split <;> rfl

variable {a : Action ι}

theorem step_answers (h : getRouteStep tg s a = some t) :
    (accepted s a = none ∧ ∀ j, (t.callers j).answers = (s.callers j).answers) ∨
      ∃ i buf m, accepted s a = some (i, m) ∧ (s.callers i).phase = .reading buf ∧
        t = s.leave i buf (answerOf tg (s.callers i) buf m :: (s.callers i).answers) := by
  have hset {s : State ι} {i : ι} {c : Caller ι} (hc : c.answers = (s.callers i).answers) (j : ι) :
      ((s.setCaller i c).callers j).answers = (s.callers j).answers := by
    by_cases hj : j = i
    · subst hj
      simp [hc]
    · rw [setCaller_other hj]
  cases a with
  | start i dst =>
    simp only [getRouteStep] at h
    split at h
    · cases h
      exact .inl ⟨rfl, hset rfl⟩
    · cases h
  | request i ok slots pad =>
    simp only [getRouteStep] at h
    split at h
    · split at h <;> cases h
      all_goals
        refine .inl ⟨rfl, fun j => ?_⟩
        refine Eq.trans (hset ?_ j) (broadcast_answers _ s j)
        rfl
    · cases h
  | other rtmType rtmSeq rtmPid slots pad =>
    simp only [getRouteStep, some.injEq] at h
    subst h
    exact .inl ⟨rfl, broadcast_answers _ s⟩
  | read i ok =>
    simp only [getRouteStep] at h
    split at h
    · rename_i buf hphase
      cases ok with
      | false =>
        cases h
        exact .inl ⟨rfl, hset rfl⟩
      | true =>
        rw [if_pos rfl] at h
        split at h
        · cases h
        · rename_i m queue hqueue
          split at h
          · rename_i hmatch
            cases h
            exact .inr ⟨i, buf, m, by simp [accepted, hphase, hqueue, hmatch], hphase, rfl⟩
          · rename_i hmatch
            cases h
            exact .inl ⟨by simp [accepted, hphase, hqueue, hmatch], hset rfl⟩
    · cases h

/-! ## The buffers -/

def Phase.buf : Phase → Option Nat
  | .idle => none
  | .opened buf => some buf
  | .reading buf => some buf

/-- An answer keeps what the call computed, and its buffer is free. -/
structure AnswerInv (tg : Target) (allocated : List Nat) (nextBuf : Nat) (r : Answer ι) : Prop where
  rtiInfo : r.rtiInfo = getRtaddrs tg r.msg.rtmAddrs (received tg r.msg)
  freed : r.buf ∉ allocated
  old : r.buf < nextBuf

structure BufferInv (tg : Target) (s : State ι) : Prop where
  nodup : s.allocated.Nodup
  allocated : ∀ b ∈ s.allocated, b < s.nextBuf
  phase : ∀ i b, (s.callers i).phase.buf = some b → b < s.nextBuf
  answers : ∀ i, ∀ r ∈ (s.callers i).answers, AnswerInv tg s.allocated s.nextBuf r

omit [DecidableEq ι] in
theorem bufferInv_init (tg : Target) : BufferInv tg (getRouteInit ι) where
  nodup := List.nodup_nil
  allocated := nofun
  phase := nofun
  answers := nofun

omit [DecidableEq ι] in
theorem BufferInv.broadcast (h : BufferInv tg s) (m : RtMsg ι) : BufferInv tg (broadcast m s) where
  nodup := h.nodup
  allocated := h.allocated
  phase := fun i b hb => h.phase i b (by rw [broadcast_phase] at hb; exact hb)
  answers := fun i r hr => h.answers i r (by rw [broadcast_answers] at hr; exact hr)

theorem BufferInv.setCaller (h : BufferInv tg s) (hphase : c.phase.buf = (s.callers i).phase.buf)
    (hanswers : c.answers = (s.callers i).answers) : BufferInv tg (s.setCaller i c) where
  nodup := h.nodup
  allocated := h.allocated
  phase := by
    intro j b hb
    by_cases hj : j = i
    · subst hj
      rw [setCaller_same, hphase] at hb
      exact h.phase j b hb
    · rw [setCaller_other hj] at hb
      exact h.phase j b hb
  answers := by
    intro j r hr
    by_cases hj : j = i
    · subst hj
      rw [setCaller_same, hanswers] at hr
      exact h.answers j r hr
    · rw [setCaller_other hj] at hr
      exact h.answers j r hr

theorem BufferInv.leave (h : BufferInv tg s) {buf : Nat} {answers : List (Answer ι)}
    (hanswers : ∀ r ∈ answers, r ∈ (s.callers i).answers ∨
      r.rtiInfo = getRtaddrs tg r.msg.rtmAddrs (received tg r.msg) ∧ r.buf = buf ∧ buf < s.nextBuf) :
    BufferInv tg (s.leave i buf answers) := by
  have hkeep {j : ι} {r : Answer ι} (hr : r ∈ (s.callers j).answers) :
      AnswerInv tg (s.allocated.erase buf) s.nextBuf r :=
    have hold := h.answers j r hr
    ⟨hold.rtiInfo, fun hmem => hold.freed (List.mem_of_mem_erase hmem), hold.old⟩
  refine ⟨h.nodup.erase buf, fun b hb => h.allocated b (List.mem_of_mem_erase hb), ?_, ?_⟩
  · intro j b hb
    by_cases hj : j = i
    · subst hj
      simp [State.leave, State.setCaller, Phase.buf] at hb
    · refine h.phase j b ?_
      simpa [State.leave, State.setCaller, hj] using hb
  · intro j r hr
    by_cases hj : j = i
    · subst hj
      have hr' : r ∈ answers := by simpa [State.leave, State.setCaller] using hr
      rcases hanswers r hr' with hold | ⟨hinfo, hbuf, hlt⟩
      · exact hkeep hold
      · exact ⟨hinfo, fun hmem => (h.nodup.mem_erase_iff.mp hmem).1 hbuf, by rw [hbuf]; exact hlt⟩
    · exact hkeep (by simpa [State.leave, State.setCaller, hj] using hr)

theorem step_bufferInv (h : BufferInv tg s) (hstep : getRouteStep tg s a = some t) :
    BufferInv tg t := by
  cases a with
  | start i dst =>
    simp only [getRouteStep] at hstep
    split at hstep
    · cases hstep
      have hfresh : s.nextBuf ∉ s.allocated := fun hmem => (h.allocated _ hmem).false
      refine ⟨List.nodup_cons.mpr ⟨hfresh, h.nodup⟩, ?_, ?_, ?_⟩
      · intro b hb
        rcases List.mem_cons.mp hb with rfl | hb
        · exact Nat.lt_succ_self _
        · exact Nat.lt_succ_of_lt (h.allocated b hb)
      · intro j b hb
        by_cases hj : j = i
        · subst hj
          have hb' : s.nextBuf = b := by simpa [State.setCaller, Phase.buf] using hb
          exact hb' ▸ Nat.lt_succ_self _
        · exact Nat.lt_succ_of_lt (h.phase j b (by simpa [State.setCaller, hj] using hb))
      · intro j r hr
        have hr' : r ∈ (s.callers j).answers := by
          by_cases hj : j = i
          · subst hj
            simpa [State.setCaller] using hr
          · simpa [State.setCaller, hj] using hr
        have hold := h.answers j r hr'
        refine ⟨hold.rtiInfo, fun hmem => ?_, Nat.lt_succ_of_lt hold.old⟩
        rcases List.mem_cons.mp hmem with hbuf | hmem
        · exact absurd hold.old (by rw [hbuf]; exact Nat.lt_irrefl _)
        · exact hold.freed hmem
    · cases hstep
  | request i ok slots pad =>
    simp only [getRouteStep] at hstep
    split at hstep
    · rename_i buf hphase
      have hb := h.broadcast
        ⟨RTM_GET, RTM_SEQ, PID, slots, pad, some ⟨i, (s.callers i).calls, (s.callers i).dst⟩⟩
      split at hstep <;> cases hstep
      · refine hb.setCaller ?_ rfl
        rw [broadcast_phase, hphase]
        rfl
      · exact hb.leave fun r hr => .inl hr
    · cases hstep
  | other rtmType rtmSeq rtmPid slots pad =>
    simp only [getRouteStep, some.injEq] at hstep
    subst hstep
    exact h.broadcast _
  | read i ok =>
    simp only [getRouteStep] at hstep
    split at hstep
    · rename_i buf hphase
      have hbuf : buf < s.nextBuf := h.phase i buf (by rw [hphase]; rfl)
      split at hstep
      · split at hstep
        · cases hstep
        · split at hstep <;> cases hstep
          · refine h.leave fun r hr => ?_
            rcases List.mem_cons.mp hr with rfl | hr
            · exact .inr ⟨rfl, rfl, hbuf⟩
            · exact .inl hr
          · exact h.setCaller rfl rfl
      · cases hstep
        exact h.leave fun r hr => .inl hr
    · cases hstep

/-! ## The contract -/

omit [DecidableEq ι] in
/-- The kernel's addresses fit into the buffer: `read` cuts off padding at most. -/
theorem received_eq (tg : Target) (m : RtMsg ι) :
    ∃ pad, received tg m = { m with pad := pad }.payload tg := by
  have hsize : ∀ a : Sockaddr, (a.bytes tg).length ≤ 64 := by
    intro a
    have h4 : ∀ n < 65, (if n = 0 then 4 else 1 + ((n - 1) ||| (4 - 1))) ≤ 64 := by decide
    have h8 : ∀ n < 65, (if n = 0 then 8 else 1 + ((n - 1) ||| (8 - 1))) ≤ 64 := by decide
    rw [bytes_length]
    unfold saSize
    rcases tg.ilp32_or_lp64 with hlong | hlong <;> rw [hlong]
    · exact h4 _ (Nat.lt_succ_of_le a.saLen_le)
    · exact h8 _ (Nat.lt_succ_of_le a.saLen_le)
  have hall (as : List (Option Sockaddr)) :
      ((as.filterMap id).flatMap (Sockaddr.bytes tg)).length ≤ 64 * as.length := by
    induction as with
    | nil => exact Nat.zero_le _
    | cons a? as ih =>
      grind
  have hfit : (((List.ofFn m.slots).filterMap id).flatMap (Sockaddr.bytes tg)).length ≤ BUFLEN_DATA := by
    have hfit := hall (List.ofFn m.slots)
    exact hfit
  refine ⟨min (BUFLEN_DATA - (((List.ofFn m.slots).filterMap id).flatMap (Sockaddr.bytes tg)).length) m.pad, ?_⟩
  unfold received RtMsg.payload
  rw [List.take_append, List.take_of_length_le hfit, List.take_replicate]

/-- What a successful return promises while the buffers `allocated` are allocated. -/
structure RouteContract (tg : Target) (allocated : List Nat) (i : ι) (r : Answer ι) : Prop where
  /-- It is the reply to the request of this call for its destination. -/
  own : r.msg.origin = some ⟨i, r.call, r.dst⟩
  /-- The pointers designate the addresses of the reply, inside of it. -/
  gateway : List.Forall₂ (Designates tg (received tg r.msg)) r.rtiInfo (List.ofFn r.msg.slots)
  valid : ∀ off, some off ∈ r.rtiInfo → r.buf ∈ allocated

/-- Every answer a caller has got is the one it was promised. -/
def ContractKept (tg : Target) (s : State ι) : Prop :=
  ∀ i, ∀ r ∈ (s.callers i).answers, RouteContract tg s.allocated i r

/-- The message is the reply to the request of the caller's current call and carries no address. -/
def OwnWithoutAddress (s : State ι) (i : ι) (m : RtMsg ι) : Prop :=
  m.origin = some ⟨i, (s.callers i).calls, (s.callers i).dst⟩ ∧ ∀ k, m.slots k = none

/-- Of the messages delivered to the socket, the first that looks like a reply is of that kind. -/
def OwnFirst (s : State ι) (i : ι) : Prop :=
  ∀ m, (s.callers i).queue.find? RtMsg.matches = some m → OwnWithoutAddress s i m

/-- The condition on a step: so it is before a read that ends a call with an answer. -/
def AcceptsOwn (s : State ι) (a : Action ι) : Prop :=
  ∀ i m, accepted s a = some (i, m) → OwnFirst s i

omit [DecidableEq ι] in
theorem ownFirst_iff {m : RtMsg ι} (h : accepted s a = some (i, m)) : OwnFirst s i ↔ OwnWithoutAddress s i m := by
  have hfind : (s.callers i).queue.find? RtMsg.matches = some m := by
    unfold accepted at h
    grind
  exact ⟨fun hfirst => hfirst m hfind, fun hown x hx => some.inj (hfind.symm.trans hx) ▸ hown⟩

omit [DecidableEq ι] in
theorem routeContract_iff {r : Answer ι} {allocated : List Nat} {nextBuf : Nat}
    (h : AnswerInv tg allocated nextBuf r) :
    RouteContract tg allocated i r ↔ r.msg.origin = some ⟨i, r.call, r.dst⟩ ∧ ∀ k, r.msg.slots k = none := by
  have hlocated : List.Forall₂ (Designates tg (received tg r.msg)) r.rtiInfo (List.ofFn r.msg.slots) := by
    obtain ⟨pad, hpad⟩ := received_eq tg r.msg
    rw [h.rtiInfo, hpad]
    exact getRtaddrs_located tg { r.msg with pad := pad }
  constructor
  · intro hr
    refine ⟨hr.own, fun k => ?_⟩
    by_contra hne
    obtain ⟨a, ha⟩ := ne_none_iff_exists'.mp hne
    have hmem : some a ∈ List.ofFn r.msg.slots := List.mem_ofFn.mpr ⟨k, ha⟩
    obtain ⟨n, hn, hget⟩ := List.mem_iff_getElem.mp hmem
    have hn' : n < r.rtiInfo.length := by rw [hlocated.length_eq]; exact hn
    have hslot := (List.forall₂_iff_get.mp hlocated).2 n hn' hn
    rw [List.get_eq_getElem, List.get_eq_getElem, hget] at hslot
    cases hptr : r.rtiInfo[n] with
    | none =>
      rw [hptr] at hslot
      exact hslot
    | some off => exact h.freed (hr.valid off (hptr ▸ List.getElem_mem hn'))
  · rintro ⟨hown, hnone⟩
    refine ⟨hown, hlocated, fun off hoff => ?_⟩
    obtain ⟨n, hn, hget⟩ := List.mem_iff_getElem.mp hoff
    have hn' : n < (List.ofFn r.msg.slots).length := by rw [← hlocated.length_eq]; exact hn
    have hslot := (List.forall₂_iff_get.mp hlocated).2 n hn hn'
    rw [List.get_eq_getElem, List.get_eq_getElem, hget, List.getElem_ofFn, hnone] at hslot
    exact hslot.elim

/-- What a step adds to the answers keeps the contract exactly when the step meets the condition. -/
theorem contractKept_step (h : BufferInv tg s) (hstep : getRouteStep tg s a = some t) :
    ContractKept tg t ↔ ContractKept tg s ∧ AcceptsOwn s a := by
  have ht := step_bufferInv h hstep
  have hiff {s : State ι} (hs : BufferInv tg s) : ContractKept tg s ↔
      ∀ i, ∀ r ∈ (s.callers i).answers,
        r.msg.origin = some ⟨i, r.call, r.dst⟩ ∧ ∀ k, r.msg.slots k = none :=
    forall_congr' fun i => forall_congr' fun r => imp_congr_right fun hr =>
      routeContract_iff (hs.answers i r hr)
  rw [hiff ht, hiff h]
  rcases step_answers hstep with ⟨hnone, hsame⟩ | ⟨i, buf, m, hacc, hphase, rfl⟩
  · grind [AcceptsOwn]
  · have hown : AcceptsOwn s a ↔ OwnWithoutAddress s i m := by
      grind [AcceptsOwn, ownFirst_iff]
    have hanswers (j : ι) (r : Answer ι) :
        r ∈ ((s.leave i buf (answerOf tg (s.callers i) buf m :: (s.callers i).answers)).callers j).answers ↔
          j = i ∧ r = answerOf tg (s.callers i) buf m ∨ r ∈ (s.callers j).answers := by
      by_cases hj : j = i
      · subst hj
        simp [State.leave]
      · simp [State.leave, State.setCaller, hj]
    rw [hown]
    constructor
    · intro hall
      exact ⟨fun j r hr => hall j r ((hanswers j r).mpr (.inr hr)),
        hall i _ ((hanswers i _).mpr (.inl ⟨rfl, rfl⟩))⟩
    · rintro ⟨hall, hm⟩ j r hr
      rcases (hanswers j r).mp hr with ⟨rfl, rfl⟩ | hr
      · exact hm
      · exact hall j r hr

theorem contractKept_run (as : List (Action ι)) (s : State ι) (h : BufferInv tg s)
    (hrun : run (getRouteStep tg) s as = some t) :
    ContractKept tg t ↔ ContractKept tg s ∧ StepsMeet (getRouteStep tg) AcceptsOwn s as := by
  induction as generalizing s with
  | nil =>
    cases hrun
    exact ⟨fun hall => ⟨hall, trivial⟩, fun hall => hall.1⟩
  | cons a as ih =>
    obtain ⟨m, hm, hrun⟩ := run_cons.mp hrun
    rw [ih m (step_bufferInv h hm) hrun, contractKept_step h hm, and_assoc]
    refine and_congr_right fun _ => and_congr_right fun _ => ⟨?_, fun hmeet => hmeet m hm⟩
    rintro hmeet t' ht'
    obtain rfl : m = t' := some.inj (hm.symm.trans ht')
    exact hmeet

/-- **Route look-ups**: after any run of any number of callers, replies and messages, every successful
call has the gateway of its own reply, in storage that is valid, exactly when every message that a call
accepted was the reply to its own request and carried no address. -/
theorem route_contract_iff (tg : Target) (as : List (Action ι))
    (hrun : run (getRouteStep tg) (getRouteInit ι) as = some t) :
    ContractKept tg t ↔ StepsMeet (getRouteStep tg) AcceptsOwn (getRouteInit ι) as := by
  rw [contractKept_run as _ (bufferInv_init tg) hrun]
  exact and_iff_right nofun

end Step

/-! ## Two runs -/

theorem ilp32_bytes : 4 = 4 ∨ 4 = 8 := .inl rfl

def ilp32 : Target := ⟨4, ilp32_bytes⟩

def sockaddrIn (a b c d : Nat) : Sockaddr := ⟨16, [2, 0, 0, a, b, c, d, 0, 0, 0, 0, 0, 0, 0, 0], by decide, rfl⟩

def viaGateway (dst gateway : Sockaddr) : Fin 8 → Option Sockaddr := fun k =>
  if k.val = 0 then some dst else if k.val = 1 then some gateway else none

def bareReply : List (Action Unit) := [.start () 0, .request () true (fun _ => none) 0, .read () true]

theorem route_contract_bareReply :
    ∃ t, run (getRouteStep ilp32) (getRouteInit Unit) bareReply = some t ∧
      (ContractKept ilp32 t ↔ StepsMeet (getRouteStep ilp32) AcceptsOwn (getRouteInit Unit) bareReply) :=
  ⟨_, rfl, route_contract_iff ilp32 bareReply rfl⟩

/-- Two callers ask for different destinations; the reply to the first is the first message that the
second one reads. -/
def twoCallers : List (Action Bool) :=
  [.start false 10, .start true 20,
    .request false true (viaGateway (sockaddrIn 10 0 0 0) (sockaddrIn 192 168 0 1)) 0,
    .request true true (viaGateway (sockaddrIn 20 0 0 0) (sockaddrIn 192 168 0 2)) 0, .read true true]

/-- The second caller returns the gateway of the first one, in a buffer that is free. -/
theorem foreign_reply :
    ∃ t, run (getRouteStep ilp32) (getRouteInit Bool) twoCallers = some t ∧ ¬ ContractKept ilp32 t ∧
      ∃ r ∈ (t.callers true).answers, r.dst = 20 ∧ r.msg.origin = some ⟨false, 1, 10⟩ ∧
        some 16 ∈ r.rtiInfo ∧ r.buf ∉ t.allocated := by
  have hrun : (run (getRouteStep ilp32) (getRouteInit Bool) twoCallers).map (fun t =>
      (t.callers true).answers.map fun r =>
        (r.dst, decide (r.msg.origin = some ⟨false, 1, 10⟩), decide (some 16 ∈ r.rtiInfo),
          decide (r.buf ∈ t.allocated))) = some [(20, true, true, false)] := by
    decide
  obtain ⟨t, ht, hanswers⟩ := map_eq_some_iff.mp hrun
  obtain ⟨r, rs, hcons, hr, -⟩ := List.map_eq_cons_iff.mp hanswers
  simp only [Prod.mk.injEq, decide_eq_true_eq, decide_eq_false_iff_not] at hr
  obtain ⟨hdst, horigin, hinfo, hfreed⟩ := hr
  have hmem : r ∈ (t.callers true).answers := by
    rw [hcons]
    exact List.mem_cons_self
  refine ⟨t, ht, fun hkept => ?_, r, hmem, hdst, horigin, hinfo, hfreed⟩
  exact hfreed ((hkept true r hmem).valid 16 hinfo)

end RtemsLibbsd.Routes
