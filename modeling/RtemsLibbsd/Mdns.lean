import Mathlib.Logic.Function.Basic
import RtemsLibbsd.Transition

/-!
# Host names by multicast DNS

`mdns_gethostbyname` starts a query, waits at most ten seconds for the transient event of its task and
stops the query.  The query context is on its stack; `query_callback` runs on the mDNS task, under
the mutex of the mDNS core, and stores the address and sends the event.

* `Requestor` — a task with the context of its query and its transient event.  `sent` are the calls
  whose callback sent the event since the last receive: the event is pending when there is one.
* `Daemon` — the mDNS task and the place in `query_callback` where it is.
* `step` — the two kinds of task, statement by statement where they share state.

Results, for any number of requestors, calls and answers:

* `context_live` — the callback works on the context of a call that has not stopped its query.
* `query_handover` — when no callback sends its event to a requestor that has given up waiting, no event
  of a call is pending after its return, and a successful call returns an address that the callback of
  this call stored.
* `stale_success` — without that, the event of a query that timed out lets the next one succeed with no
  address.
-/

namespace RtemsLibbsd.Mdns

open List RtemsLibbsd.Transition

/-! ## Data -/

def kDNSType_A : Nat := 1
def kDNSType_AAAA : Nat := 28
def AF_INET : Nat := 2
def AF_INET6 : Nat := 28
def NS_INADDRSZ : Nat := 4
def NS_IN6ADDRSZ : Nat := 16

structure ResourceRecord where
  rrtype : Nat
  rdata : List UInt8

inductive Errno where
  | einval
  | eafnosupport
  | erange
  | etimedout
deriving DecidableEq

inductive Nss where
  | notFound
  | unavail
  | success
deriving DecidableEq

/-- What a call hands back: the status, `*errnop` and the entry `h_addr_list[0]` of `*resultp`. -/
structure Result where
  nss : Nss
  errno : Option Errno
  addr : Option (List UInt8)
deriving DecidableEq

def isLocalName (name : List Char) : Bool :=
  if name = [] then false
  else
    let name := if name.getLast? = some '.' then name.dropLast else name
    if name.length < 5 then false
    else (name.drop (name.length - 5)).map Char.toLower = "local".toList

/-- The arguments; `room` says that the buffer holds the pointers, the address and the name, `qname`
that the name is a domain name. -/
structure Args where
  name : List Char
  af : Nat
  room : Bool
  qname : Bool

def checkArgs (a : Args) : Option Result :=
  if ¬ isLocalName a.name then some ⟨.notFound, some .einval, none⟩
  else if a.af ≠ AF_INET ∧ a.af ≠ AF_INET6 then some ⟨.unavail, some .eafnosupport, none⟩
  else if ¬ a.room then some ⟨.unavail, some .erange, none⟩
  else if ¬ a.qname then some ⟨.unavail, some .erange, none⟩
  else none

/-! ## State -/

/-- Where `mdns_gethostbyname` is; `woken` and `stopped` carry whether the receive was successful. -/
inductive Phase where
  | returned
  | waiting
  | woken (ok : Bool)
  | stopped (ok : Bool)
deriving DecidableEq

structure Requestor where
  phase : Phase
  call : Nat
  /-- `ctx.rrtype`. -/
  rrtype : Nat
  /-- `ctx.task_id` is not zero. -/
  taskId : Bool
  /-- What a callback of this call stored at `ctx.he->h_addr_list[0]`. -/
  stored : Option (List UInt8)
  sent : List Nat
  results : List Result

/-- The place in `query_callback`: after the reads of the context, after the address was stored, after
    `task_id` was cleared. -/
inductive Pc where
  | entered
  | matched
  | cleared

/-- The mDNS task: without the mutex, in the mDNS core, in the callback for the query `call` of `i`
    with the `task_id` it read. -/
inductive Daemon (ι : Type) where
  | idle
  | core
  | callback (i : ι) (call : Nat) (answer : ResourceRecord) (taskId : Bool) (pc : Pc)

structure State (ι : Type) where
  daemon : Daemon ι
  req : ι → Requestor

inductive Action (ι : Type) where
  | call (i : ι) (args : Args)
  | receive (i : ι)
  | timeout (i : ι)
  | stopQuery (i : ι)
  | ret (i : ι)
  | lock
  | unlock
  | answer (i : ι) (answer : ResourceRecord)
  | callback

def Requestor.init : Requestor := ⟨.returned, 0, 0, false, none, [], []⟩

def init (ι : Type) : State ι := ⟨.idle, fun _ => Requestor.init⟩

/-- The query of the requestor is on the list of the mDNS core. -/
def Phase.active : Phase → Bool
  | .waiting => true
  | .woken _ => true
  | _ => false

/-- `memcpy` of the first branch that applies. -/
def copyAddr (rrtype : Nat) (answer : ResourceRecord) : Option (List UInt8) :=
  if rrtype = kDNSType_A ∧ answer.rrtype = kDNSType_A then some (answer.rdata.take NS_INADDRSZ)
  else if rrtype = kDNSType_AAAA ∧ answer.rrtype = kDNSType_AAAA then
    some (answer.rdata.take NS_IN6ADDRSZ)
  else none

def finish (r : Requestor) (ok : Bool) : Result :=
  if ok then ⟨.success, none, r.stored⟩ else ⟨.notFound, some .etimedout, none⟩

/-- The start of a query: `ctx.rrtype` is set once more, to the type of an IPv4 address. -/
def startQuery (r : Requestor) : Requestor :=
  { r with phase := .waiting, call := r.call + 1, rrtype := kDNSType_A, taskId := true, stored := none }

section Step

variable {ι : Type} [DecidableEq ι]

def State.setReq (s : State ι) (i : ι) (r : Requestor) : State ι :=
  { s with req := Function.update s.req i r }

def stepCallback (s : State ι) (i : ι) (call : Nat) (answer : ResourceRecord) (taskId : Bool) : Pc → State ι
  | .entered =>
    match copyAddr (s.req i).rrtype answer with
    | none => { s with daemon := .core }
    | some addr =>
      { s.setReq i { s.req i with stored := some addr } with
        daemon := .callback i call answer taskId .matched }
  | .matched =>
    if taskId then
      { s.setReq i { s.req i with taskId := false } with
        daemon := .callback i call answer taskId .cleared }
    else { s with daemon := .core }
  | .cleared =>
    { s.setReq i { s.req i with sent := call :: (s.req i).sent } with daemon := .core }

def step (s : State ι) : Action ι → Option (State ι)
  | .call i args =>
    if (s.req i).phase = .returned then
      match checkArgs args with
      | some res => some (s.setReq i { s.req i with results := res :: (s.req i).results })
      | none =>
        -- `mDNS_StartQuery` takes the mutex
        match s.daemon with
        | .idle => some (s.setReq i (startQuery (s.req i)))
        | _ => none
    else none
  | .receive i =>
    if (s.req i).phase = .waiting ∧ (s.req i).sent ≠ [] then
      some (s.setReq i { s.req i with phase := .woken true, sent := [] })
    else none
  | .timeout i =>
    if (s.req i).phase = .waiting ∧ (s.req i).sent = [] then
      some (s.setReq i { s.req i with phase := .woken false })
    else none
  | .stopQuery i =>
    match s.daemon, (s.req i).phase with
    | .idle, .woken ok => some (s.setReq i { s.req i with phase := .stopped ok })
    | _, _ => none
  | .ret i =>
    match (s.req i).phase with
    | .stopped ok =>
      some (s.setReq i
        { s.req i with phase := .returned, results := finish (s.req i) ok :: (s.req i).results })
    | _ => none
  | .lock =>
    match s.daemon with
    | .idle => some { s with daemon := .core }
    | _ => none
  | .unlock =>
    match s.daemon with
    | .core => some { s with daemon := .idle }
    | _ => none
  | .answer i answer =>
    match s.daemon with
    | .core =>
      if (s.req i).phase.active then
        some { s with daemon := .callback i (s.req i).call answer (s.req i).taskId .entered }
      else none
    | _ => none
  | .callback =>
    match s.daemon with
    | .callback i call answer taskId pc => some (stepCallback s i call answer taskId pc)
    | _ => none

/-! ## The context of a callback -/

/-- The place of the mDNS task in a callback for `i`. -/
def Daemon.at (d : Daemon ι) (i : ι) : Option (Nat × Bool × Pc) :=
  match d with
  | .callback j call _ taskId pc => if j = i then some (call, taskId, pc) else none
  | _ => none

variable {s t : State ι} {i j : ι} {r : Requestor}

@[simp] theorem setReq_same : (s.setReq i r).req i = r := by
  simp [State.setReq]

theorem setReq_other (h : j ≠ i) : (s.setReq i r).req j = s.req j := by
  simp [State.setReq, h]

variable {answer : ResourceRecord} {taskId : Bool} {call : Nat} {pc : Pc}

@[simp] theorem at_same :
    (Daemon.callback i call answer taskId pc).at i = some (call, taskId, pc) := if_pos rfl

theorem at_other (h : j ≠ i) :
    (Daemon.callback i call answer taskId pc).at j = none := if_neg (Ne.symm h)

variable {P : Option (Nat × Bool × Pc) → Requestor → Prop}

/-- A property of every requestor and the callback for it is kept by a step that changes one of them. -/
theorem forall_req {d : Daemon ι}
    (hother : ∀ j ≠ i, P (d.at j) (s.req j)) (hsame : P (d.at i) r) :
    ∀ j, P (d.at j) ((s.setReq i r).req j) := by
  intro j
  by_cases h : j = i
  · subst h
    rw [setReq_same]
    exact hsame
  · rw [setReq_other h]
    exact hother j h

inductive Move (s : State ι) : Action ι → State ι → Prop where
  | refused {i : ι} {args : Args} {res : Result} (hphase : (s.req i).phase = .returned)
      (hargs : checkArgs args = some res) :
      Move s (.call i args) (s.setReq i { s.req i with results := res :: (s.req i).results })
  | start {i : ι} {args : Args} (hphase : (s.req i).phase = .returned) (hargs : checkArgs args = none)
      (hd : s.daemon = .idle) : Move s (.call i args) (s.setReq i (startQuery (s.req i)))
  | receive {i : ι} (hphase : (s.req i).phase = .waiting) (hsent : (s.req i).sent ≠ []) :
      Move s (.receive i) (s.setReq i { s.req i with phase := .woken true, sent := [] })
  | timeout {i : ι} (hphase : (s.req i).phase = .waiting) (hsent : (s.req i).sent = []) :
      Move s (.timeout i) (s.setReq i { s.req i with phase := .woken false })
  | stopQuery {i : ι} {ok : Bool} (hphase : (s.req i).phase = .woken ok) (hd : s.daemon = .idle) :
      Move s (.stopQuery i) (s.setReq i { s.req i with phase := .stopped ok })
  | ret {i : ι} {ok : Bool} (hphase : (s.req i).phase = .stopped ok) :
      Move s (.ret i) (s.setReq i
        { s.req i with phase := .returned, results := finish (s.req i) ok :: (s.req i).results })
  | lock (hd : s.daemon = .idle) : Move s .lock { s with daemon := .core }
  | unlock (hd : s.daemon = .core) : Move s .unlock { s with daemon := .idle }
  | answer {i : ι} {answer : ResourceRecord} (hd : s.daemon = .core)
      (hactive : (s.req i).phase.active) : Move s (.answer i answer)
        { s with daemon := .callback i (s.req i).call answer (s.req i).taskId .entered }
  | noMatch {i : ι} {call : Nat} {answer : ResourceRecord} {taskId : Bool}
      (hd : s.daemon = .callback i call answer taskId .entered) :
      Move s .callback { s with daemon := .core }
  | store {i : ι} {call : Nat} {answer : ResourceRecord} {taskId : Bool} {addr : List UInt8}
      (hd : s.daemon = .callback i call answer taskId .entered)
      (haddr : copyAddr (s.req i).rrtype answer = some addr) :
      Move s .callback { s.setReq i { s.req i with stored := some addr } with
        daemon := .callback i call answer taskId .matched }
  | again {i : ι} {call : Nat} {answer : ResourceRecord}
      (hd : s.daemon = .callback i call answer false .matched) :
      Move s .callback { s with daemon := .core }
  | clear {i : ι} {call : Nat} {answer : ResourceRecord}
      (hd : s.daemon = .callback i call answer true .matched) :
      Move s .callback { s.setReq i { s.req i with taskId := false } with
        daemon := .callback i call answer true .cleared }
  | send {i : ι} {call : Nat} {answer : ResourceRecord} {taskId : Bool}
      (hd : s.daemon = .callback i call answer taskId .cleared) :
      Move s .callback { s.setReq i { s.req i with sent := call :: (s.req i).sent } with
        daemon := .core }

theorem stepCallback_move (hd : s.daemon = .callback i call answer taskId pc) :
    Move s .callback (stepCallback s i call answer taskId pc) := by
  cases pc with
  | entered =>
    simp only [stepCallback]
    split
    · exact .noMatch hd
    · rename_i addr haddr
      exact .store hd haddr
  | matched =>
    cases taskId with
    | false => exact .again hd
    | true => exact .clear hd
  | cleared => exact .send hd

variable {a : Action ι}

theorem step_move (h : step s a = some t) : Move s a t := by
  cases a with
  | call i args =>
    simp only [step] at h
    split at h
    · rename_i hphase
      split at h
      · rename_i res hargs
        cases h
        exact .refused hphase hargs
      · rename_i hargs
        split at h
        · rename_i hd
          cases h
          exact .start hphase hargs hd
        · cases h
    · cases h
  | receive i =>
    simp only [step] at h
    split at h
    · rename_i hguard
      cases h
      exact .receive hguard.1 hguard.2
    · cases h
  | timeout i =>
    simp only [step] at h
    split at h
    · rename_i hguard
      cases h
      exact .timeout hguard.1 hguard.2
    · cases h
  | stopQuery i =>
    simp only [step] at h
    split at h
    · rename_i ok hd hphase
      cases h
      exact .stopQuery hphase hd
    · cases h
  | ret i =>
    simp only [step] at h
    split at h
    · rename_i ok hphase
      cases h
      exact .ret hphase
    · cases h
  | lock =>
    simp only [step] at h
    split at h
    · rename_i hd
      cases h
      exact .lock hd
    · cases h
  | unlock =>
    simp only [step] at h
    split at h
    · rename_i hd
      cases h
      exact .unlock hd
    · cases h
  | answer i answer =>
    simp only [step] at h
    split at h
    · rename_i hd
      split at h
      · rename_i hactive
        cases h
        exact .answer hd hactive
      · cases h
    · cases h
  | callback =>
    grind [step, stepCallback_move]

/-- A callback works for a call that has not stopped its query, and the `task_id` it read is the one
of the context until it clears it. -/
structure Live (c : Option (Nat × Bool × Pc)) (r : Requestor) : Prop where
  active : c.isSome → r.phase.active
  call : ∀ call taskId pc, c = some (call, taskId, pc) → call = r.call
  taskId : ∀ call taskId pc, c = some (call, taskId, pc) → pc ≠ .cleared → taskId = r.taskId

theorem Live.none : Live none r :=
  ⟨fun h => absurd h Bool.false_ne_true, fun _ _ _ h => (nomatch h), fun _ _ _ h => (nomatch h)⟩

theorem Live.of_eq {c : Option (Nat × Bool × Pc)} {r' : Requestor} (h : Live c r)
    (hphase : r.phase.active → r'.phase.active) (hcall : r'.call = r.call)
    (htask : r'.taskId = r.taskId) : Live c r' :=
  ⟨fun hc => hphase (h.active hc), fun call tid pc hc => (h.call call tid pc hc).trans hcall.symm,
    fun call tid pc hc hpc => (h.taskId call tid pc hc hpc).trans htask.symm⟩

theorem Live.next {tid : Bool} {pc pc' : Pc} {r' : Requestor}
    (h : Live (some (call, tid, pc)) r) (hphase : r'.phase = r.phase) (hcall : r'.call = r.call)
    (htask : pc' ≠ .cleared → tid = r'.taskId) : Live (some (call, tid, pc')) r' := by
  refine ⟨fun _ => hphase ▸ h.active rfl, ?_, ?_⟩
  · rintro _ _ _ ⟨⟩
    exact (h.call _ _ _ rfl).trans hcall.symm
  · rintro _ _ _ ⟨⟩ hpc
    exact htask hpc

def ForallReq (P : Option (Nat × Bool × Pc) → Requestor → Prop) (s : State ι) : Prop :=
  ∀ i, P (s.daemon.at i) (s.req i)

theorem live_init : ForallReq Live (init ι) := fun _ => Live.none

theorem ForallReq.other (h : ForallReq P s)
    (hd : s.daemon = .callback i call answer taskId pc) (hj : j ≠ i) : P none (s.req j) := by
  have hP := h j
  rw [hd, at_other hj] at hP
  exact hP

theorem ForallReq.same (h : ForallReq P s)
    (hd : s.daemon = .callback i call answer taskId pc) : P (some (call, taskId, pc)) (s.req i) := by
  have hP := h i
  rw [hd, at_same] at hP
  exact hP

theorem ForallReq.no_callback (h : ForallReq P s)
    (hd : s.daemon = .idle ∨ s.daemon = .core) (j : ι) : P none (s.req j) := by
  have hP := h j
  rcases hd with hd | hd <;> rw [hd] at hP <;> exact hP

theorem ForallReq.setReq (h : ForallReq P s)
    (hi : P (s.daemon.at i) r) : ForallReq P (s.setReq i r) :=
  forall_req (fun j _ => h j) hi

theorem ForallReq.callback (h : ForallReq P s) {pc pc' : Pc}
    (hd : s.daemon = .callback i call answer taskId pc) (hi : P (some (call, taskId, pc')) r) :
    ForallReq P { s.setReq i r with daemon := .callback i call answer taskId pc' } := by
  refine forall_req (d := .callback i call answer taskId pc') (fun j hj => ?_) ?_
  · rw [at_other hj]
    exact h.other hd hj
  · rw [at_same]
    exact hi

theorem step_live (h : ForallReq Live s) (hstep : step s a = some t) : ForallReq Live t := by
  cases step_move hstep with
  | refused => exact h.setReq ((h _).of_eq id rfl rfl)
  | start hphase hargs hd => exact h.setReq (by rw [hd]; exact Live.none)
  | receive hphase => exact h.setReq ((h _).of_eq (fun _ => rfl) rfl rfl)
  | timeout hphase => exact h.setReq ((h _).of_eq (fun _ => rfl) rfl rfl)
  | stopQuery hphase hd => exact h.setReq (by rw [hd]; exact Live.none)
  | ret hphase =>
    refine h.setReq ((h _).of_eq (fun hactive => ?_) rfl rfl)
    rw [hphase] at hactive
    cases hactive
  | lock => exact fun j => Live.none
  | unlock => exact fun j => Live.none
  | @answer i answer hd hactive =>
    intro j
    by_cases hj : j = i
    · subst hj
      simp only [at_same]
      refine ⟨fun _ => hactive, ?_, ?_⟩
      · rintro _ _ _ ⟨⟩
        rfl
      · rintro _ _ _ ⟨⟩ -
        rfl
    · simp only [at_other hj]
      exact Live.none
  | noMatch => exact fun j => Live.none
  | store hd =>
    exact h.callback hd ((h.same hd).next rfl rfl fun _ => (h.same hd).taskId _ _ _ rfl nofun)
  | again => exact fun j => Live.none
  | clear hd => exact h.callback hd ((h.same hd).next rfl rfl fun hpc => absurd rfl hpc)
  | send => exact fun j => Live.none

/-- **The context of a callback is live**: whenever the mDNS task is in the callback for a call, this call
is in progress and its query is not stopped. -/
theorem context_live (as : List (Action ι)) (hrun : run step (init ι) as = some t) {call : Nat}
    {answer : ResourceRecord} {taskId : Bool} {pc : Pc}
    (hd : t.daemon = .callback i call answer taskId pc) :
    (t.req i).phase.active ∧ (t.req i).call = call := by
  have hlive := (run_invariant (fun _ _ _ h hs => step_live h hs) as _ _ live_init hrun).same hd
  exact ⟨hlive.active rfl, (hlive.call _ _ _ rfl).symm⟩

/-! ## The hand-over -/

/-- What holds of a requestor while no event is sent to it after its wait. -/
structure Handed (c : Option (Nat × Bool × Pc)) (r : Requestor) : Prop where
  live : Live c r
  /-- A pending event is the one of the call that waits for it. -/
  sent : r.sent ≠ [] → r.phase = .waiting ∧ r.taskId = false ∧ ∀ n ∈ r.sent, n = r.call
  /-- The context without its `task_id` belongs to a call with an address. -/
  stored : r.phase.active → r.taskId = false → r.stored.isSome
  woken : r.phase = .woken true → r.taskId = false
  stopped : r.phase = .stopped true → r.stored.isSome
  matched : ∀ call taskId, c = some (call, taskId, .matched) → r.stored.isSome
  cleared : ∀ call taskId, c = some (call, taskId, .cleared) →
    r.taskId = false ∧ r.sent = [] ∧ r.phase ≠ .woken true
  results : ∀ res ∈ r.results, res.nss = .success → res.addr.isSome

theorem Handed.init : Handed none Requestor.init where
  live := Live.none
  sent := fun h => absurd rfl h
  stored := nofun
  woken := nofun
  stopped := nofun
  matched := nofun
  cleared := nofun
  results := nofun

theorem Handed.done {c : Option (Nat × Bool × Pc)} (h : Handed c r) : Handed none r :=
  { h with live := Live.none, matched := nofun, cleared := nofun }

theorem checkArgs_nss {args : Args} {res : Result} (h : checkArgs args = some res) : res.nss ≠ .success := by
  unfold checkArgs at h
  repeat' split at h
  all_goals cases h
  all_goals nofun

theorem finish_results {ok : Bool} (h : Handed none r) (hphase : r.phase = .stopped ok) :
    ∀ res ∈ finish r ok :: r.results, res.nss = .success → res.addr.isSome := by
  intro res hres hsuccess
  rcases mem_cons.mp hres with rfl | hres
  · cases ok with
    | false => cases hsuccess
    | true => exact h.stopped hphase
  · exact h.results res hres hsuccess

/-- The next statement of the mDNS task is the send of an event to `i`. -/
def sendTo (s : State ι) : Action ι → Option ι
  | .callback =>
    match s.daemon with
    | .callback i _ _ _ .cleared => some i
    | _ => none
  | _ => none

/-- The callback does not send its event to a requestor that no longer waits for it. -/
def SendsInTime (s : State ι) (a : Action ι) : Prop := ∀ i ∈ sendTo s a, (s.req i).phase = .waiting

instance (s : State ι) (a : Action ι) : Decidable (SendsInTime s a) :=
  inferInstanceAs (Decidable (∀ i ∈ sendTo s a, (s.req i).phase = .waiting))

theorem step_handed (h : ForallReq Handed s) (hok : SendsInTime s a)
    (hstep : step s a = some t) : ForallReq Handed t := by
  have hlive : ForallReq Live t := step_live (fun i => (h i).live) hstep
  cases step_move hstep with
  | @refused i args res hphase hargs =>
    refine h.setReq { h i with live := ?_, results := ?_ }
    · exact (h i).live.of_eq id rfl rfl
    · intro res' hres hsuccess
      rcases mem_cons.mp hres with rfl | hres
      · exact absurd hsuccess (checkArgs_nss hargs)
      · exact (h i).results res' hres hsuccess
  | @start i args hphase hargs hd =>
    have hsent : (s.req i).sent = [] := by
      by_contra hne
      exact absurd (((h i).sent hne).1.symm.trans hphase) nofun
    refine h.setReq ?_
    rw [hd]
    exact {
      live := Live.none
      sent := fun hne => absurd hsent hne
      stored := fun _ => nofun
      woken := nofun
      stopped := nofun
      matched := nofun
      cleared := nofun
      results := (h i).results }
  | @receive i hphase hsent =>
    obtain ⟨-, htask, -⟩ := (h i).sent hsent
    have hactive : (s.req i).phase.active := by rw [hphase]; rfl
    exact h.setReq {
      live := (h i).live.of_eq (fun _ => rfl) rfl rfl
      sent := fun hne => absurd rfl hne
      stored := fun _ _ => (h i).stored hactive htask
      woken := fun _ => htask
      stopped := nofun
      matched := (h i).matched
      cleared := fun call taskId hc => absurd ((h i).cleared call taskId hc).2.1 hsent
      results := (h i).results }
  | @timeout i hphase hsent =>
    have hactive : (s.req i).phase.active := by rw [hphase]; rfl
    exact h.setReq {
      live := (h i).live.of_eq (fun _ => rfl) rfl rfl
      sent := fun hne => absurd hsent hne
      stored := fun _ => (h i).stored hactive
      woken := nofun
      stopped := nofun
      matched := (h i).matched
      cleared := fun call taskId hc => ⟨((h i).cleared call taskId hc).1, hsent, nofun⟩
      results := (h i).results }
  | @stopQuery i ok hphase hd =>
    have hactive : (s.req i).phase.active := by rw [hphase]; rfl
    refine h.setReq ?_
    rw [hd]
    exact {
      live := Live.none
      sent := fun hne => absurd (((h i).sent hne).1.symm.trans hphase) nofun
      stored := nofun
      woken := nofun
      stopped := by
        rintro ⟨⟩
        exact (h i).stored hactive ((h i).woken hphase)
      matched := nofun
      cleared := nofun
      results := (h i).results }
  | @ret i ok hphase =>
    have hat : s.daemon.at i = none := by
      by_contra hne
      have hactive := (h i).live.active (Option.isSome_iff_ne_none.mpr hne)
      rw [hphase] at hactive
      cases hactive
    have hi := h i
    rw [hat] at hi
    refine h.setReq ?_
    rw [hat]
    exact {
      live := Live.none
      sent := fun hne => absurd ((hi.sent hne).1.symm.trans hphase) nofun
      stored := nofun
      woken := nofun
      stopped := nofun
      matched := nofun
      cleared := nofun
      results := finish_results hi hphase }
  | lock => exact fun j => (h j).done
  | unlock => exact fun j => (h j).done
  | @answer i answer hd hactive =>
    intro j
    have hj := h.no_callback (.inr hd) j
    refine { hj with live := hlive j, matched := ?_, cleared := ?_ }
    all_goals
      intro call taskId hc
      by_cases hij : j = i
      · subst hij
        simp only [at_same] at hc
        cases hc
      · simp only [at_other hij] at hc
        cases hc
  | noMatch => exact fun j => (h j).done
  | @store i call answer taskId addr hd haddr =>
    have hi := h.same hd
    refine h.callback hd { hi with live := ?_, stored := ?_, stopped := ?_, matched := ?_, cleared := nofun }
    · exact hi.live.next rfl rfl fun _ => hi.live.taskId _ _ _ rfl nofun
    · exact fun _ _ => rfl
    · exact fun _ => rfl
    · exact fun _ _ _ => rfl
  | again => exact fun j => (h j).done
  | @clear i call answer hd =>
    have hi := h.same hd
    have htask : (s.req i).taskId = true := (hi.live.taskId _ _ _ rfl nofun).symm
    have hsent : (s.req i).sent = [] := by
      by_contra hne
      exact absurd ((hi.sent hne).2.1.symm.trans htask) nofun
    refine h.callback hd { hi with
      live := ?_, sent := ?_, stored := ?_, woken := ?_, matched := nofun, cleared := ?_ }
    · exact hi.live.next rfl rfl fun hpc => absurd rfl hpc
    · exact fun hne => absurd hsent hne
    · exact fun _ _ => hi.matched _ _ rfl
    · exact fun _ => rfl
    · exact fun _ _ _ => ⟨rfl, hsent, fun hw => absurd ((hi.woken hw).symm.trans htask) nofun⟩
  | @send i call answer taskId hd =>
    have hi := h.same hd
    have hwaiting : (s.req i).phase = .waiting := hok i (by simp [sendTo, hd])
    obtain ⟨htask, hsent, -⟩ := hi.cleared _ _ rfl
    refine forall_req (d := .core) (fun j hj => h.other hd hj)
      { hi.done with live := Live.none, sent := ?_, cleared := nofun }
    intro _
    refine ⟨hwaiting, htask, fun n hn => ?_⟩
    rw [hsent, mem_singleton] at hn
    exact hn.trans (hi.live.call _ _ _ rfl)

structure Handover (s : State ι) : Prop where
  /-- No event of a call is pending once it has returned, nor can one become pending: an event that is
      on its way belongs to a call whose query is not stopped. -/
  pending : ∀ i, (s.req i).phase = .returned → (s.req i).sent = []
  current : ∀ i, ∀ n ∈ (s.req i).sent, n = (s.req i).call
  context : ∀ i call answer taskId pc, s.daemon = .callback i call answer taskId pc →
    (s.req i).phase.active ∧ (s.req i).call = call
  /-- A successful call returns an address that was stored by its own callback. -/
  success : ∀ i, ∀ res ∈ (s.req i).results, res.nss = .success → res.addr.isSome

theorem Handover.of_handed (h : ForallReq Handed s) : Handover s where
  pending := by
    intro i hphase
    by_contra hne
    exact absurd (((h i).sent hne).1.symm.trans hphase) nofun
  current := fun i n hn => ((h i).sent (ne_nil_of_mem hn)).2.2 n hn
  context := fun i call answer taskId pc hd =>
    ⟨(h.same hd).live.active rfl, ((h.same hd).live.call _ _ _ rfl).symm⟩
  success := fun i => (h i).results

/-- **The hand-over of a query**: in every run in which no callback sends its event to a requestor
whose wait has ended. -/
theorem query_handover (as : List (Action ι)) (hmeet : StepsMeet step SendsInTime (init ι) as)
    (hrun : run step (init ι) as = some t) : Handover t :=
  .of_handed (run_invariant_of_meet (fun _ _ _ h hok hs => step_handed h hok hs) as (init ι) t
    (fun _ => Handed.init) hmeet hrun)

/-! ## Late events -/

def Late (r : Requestor) : Prop := r.phase ≠ .waiting ∧ r.sent ≠ []

theorem late_step (h : Late (s.req i)) (hstep : step s a = some t)
    (hcall : ∀ args, a ≠ .call i args) : Late (t.req i) := by
  have hother {j : ι} {r : Requestor} (hr : j = i → Late r) : Late ((s.setReq j r).req i) := by
    by_cases hij : i = j
    · subst hij
      rw [setReq_same]
      exact hr rfl
    · rw [setReq_other hij]
      exact h
  cases step_move hstep with
  | refused => exact hother fun hij => absurd (by rw [hij]) (hcall _)
  | start => exact hother fun hij => absurd (by rw [hij]) (hcall _)
  | receive hphase => exact hother fun hij => absurd hphase (hij ▸ h.1)
  | timeout hphase => exact hother fun hij => absurd hphase (hij ▸ h.1)
  | stopQuery => exact hother fun hij => ⟨nofun, hij ▸ h.2⟩
  | ret => exact hother fun hij => ⟨nofun, hij ▸ h.2⟩
  | lock => exact h
  | unlock => exact h
  | answer => exact h
  | noMatch => exact h
  | store => exact hother fun hij => hij ▸ h
  | again => exact h
  | clear => exact hother fun hij => hij ▸ h
  | send => exact hother fun hij => ⟨hij ▸ h.1, cons_ne_nil _ _⟩

theorem late_run :
    ∀ (as : List (Action ι)) (s : State ι), Late (s.req i) → (∀ b ∈ as, ∀ args, b ≠ .call i args) →
      run step s as = some t → Late (t.req i)
  | [], s, h, _, hrun => by
    cases hrun
    exact h
  | b :: as, s, h, hcalls, hrun => by
    obtain ⟨m, hm, hrun⟩ := run_cons.mp hrun
    exact late_run as m (late_step h hm (hcalls b mem_cons_self))
      (fun c hc => hcalls c (mem_cons_of_mem b hc)) hrun

/-- **The condition is needed**: an event sent to a requestor whose wait has ended stays pending, also at the
return of its call, whatever happens in between. -/
theorem late_send_pending {a : Action ι} (hsend : sendTo s a = some i)
    (hlate : (s.req i).phase ≠ .waiting) :
    ∀ (as : List (Action ι)), (∀ b ∈ as, ∀ args, b ≠ .call i args) →
      run step s (a :: as) = some t → (t.req i).sent ≠ [] := by
  intro as hcalls hrun
  obtain ⟨m, hm, hrun⟩ := run_cons.mp hrun
  have hfirst : Late (m.req i) := by
    unfold sendTo at hsend
    split at hsend
    · split at hsend
      · rename_i hd
        cases hsend
        simp only [step, hd, stepCallback, Option.some.injEq] at hm
        subst hm
        rw [setReq_same]
        exact ⟨hlate, cons_ne_nil _ _⟩
      · cases hsend
    · cases hsend
  exact (late_run as m hfirst hcalls hrun).2

end Step

/-! ## Two runs -/

def hostArgs : Args := ⟨"host.local".toList, AF_INET, true, true⟩

def hostRecord : ResourceRecord := ⟨kDNSType_A, [192, 168, 0, 7]⟩

def lookupRun : List (Action Unit) :=
  [.call () hostArgs, .lock, .answer () hostRecord, .callback, .callback, .callback, .unlock, .receive (),
    .stopQuery (), .ret ()]

theorem query_handover_lookup :
    ∃ t, run step (init Unit) lookupRun = some t ∧ Handover t ∧
      (t.req ()).results = [⟨.success, none, some [192, 168, 0, 7]⟩] := by
  have hrun : (run step (init Unit) lookupRun).map (fun t => (t.req ()).results) =
      some [⟨.success, none, some [192, 168, 0, 7]⟩] := by
    decide
  obtain ⟨t, ht, hresults⟩ := Option.map_eq_some_iff.mp hrun
  exact ⟨t, ht, query_handover lookupRun (by decide) ht, hresults⟩

theorem context_live_lookup : ∃ t, run step (init Unit) (lookupRun.take 3) = some t ∧
    (t.req ()).phase.active ∧ (t.req ()).call = 1 :=
  ⟨_, rfl, context_live (lookupRun.take 3) rfl rfl⟩

/-- The wait ends between the statements of the callback; a second call finds the event. -/
def lateRun : List (Action Unit) :=
  [.call () hostArgs, .lock, .answer () hostRecord, .callback, .callback, .timeout (), .callback, .unlock,
    .stopQuery (), .ret ()]

theorem late_send_pending_timeout : ∃ t, run step (init Unit) lateRun = some t ∧
    (t.req ()).phase = .returned ∧ (t.req ()).sent ≠ [] := by
  refine ⟨_, rfl, rfl, late_send_pending (i := ()) (a := .callback)
    (s := (run step (init Unit) (lateRun.take 6)).get rfl) rfl ?_ (lateRun.drop 7) ?_ rfl⟩
  · intro h
    cases h
  · rintro b hb args rfl
    simp [lateRun] at hb

def secondCall : List (Action Unit) := [.call () hostArgs, .receive (), .stopQuery (), .ret ()]

/-- The event of the first call is pending after its return, and the second call succeeds without an
address. -/
theorem stale_success : ¬ (∀ (as : List (Action Unit)) (t : State Unit),
      run step (init Unit) as = some t → ∀ i, (t.req i).phase = .returned → (t.req i).sent = []) ∧
    ¬ ∀ (as : List (Action Unit)) (t : State Unit), run step (init Unit) as = some t →
      ∀ i, ∀ res ∈ (t.req i).results, res.nss = .success → res.addr.isSome := by
  have hfirst : (run step (init Unit) lateRun).map
      (fun t => ((t.req ()).phase, (t.req ()).sent)) = some (.returned, [1]) := by
    decide
  have hsecond : (run step (init Unit) (lateRun ++ secondCall)).map (fun t => (t.req ()).results) =
      some [⟨.success, none, none⟩, ⟨.notFound, some .etimedout, none⟩] := by
    decide
  constructor
  · intro h
    obtain ⟨t, ht, hfields⟩ := Option.map_eq_some_iff.mp hfirst
    simp only [Prod.mk.injEq] at hfields
    have hsent := h lateRun t ht () hfields.1
    rw [hfields.2] at hsent
    cases hsent
  · intro h
    obtain ⟨t, ht, hresults⟩ := Option.map_eq_some_iff.mp hsecond
    have hmem : (⟨.success, none, none⟩ : Result) ∈ (t.req ()).results := by
      rw [hresults]
      exact mem_cons_self
    exact absurd (h _ t ht () _ hmem rfl) Bool.false_ne_true

end RtemsLibbsd.Mdns
