import Mathlib.Logic.Function.Basic
import RtemsLibbsd.Transition

/-!
# Epoch based reclamation

Model of `rtemsbsd/rtems/rtems-kernel-epoch.c` on top of the record operations of
`contrib/ck/src/ck_epoch.c` and `contrib/ck/include/ck_epoch.h`.

* `Record` is `ck_epoch_record_t`, one for each epoch and processor; `ckEpochBegin`, `ckEpochEnd`,
  `ckEpochCall` and `dispatch` are the functions of the Concurrency Kit on a record and the global
  epoch.  The stacks of pending callbacks are lists, the last callback first.
* `epoch_call` pins the thread and makes plain loads and stores: `cb_count`, the global epoch,
  `n_pending` and the head of the stack.  Each load and each store is one step, since the threads of
  the processor may run between them.  A head that is stored long after it was loaded brings back
  the entries behind it; the steps that store such a head are the ones excluded below, so the links
  of entries that were taken off a stack are not modelled.
* `epoch_call_handler` runs on the interrupt server of its processor.  `ck_epoch_poll_deferred` is
  cut into steps: the load of the global epoch, the first dispatch, two loads for each record of
  the scan, the compare and set, the last dispatch; the steps of other processors fall between
  them.  Threads of the same processor do not run meanwhile, since thread dispatching is disabled.
* `epoch_enter` disables thread dispatching until `epoch_exit`, `epoch_enter_preempt` pins the
  thread to its processor until `epoch_exit_preempt`.  The sections of a thread are nested.
* `epoch_drain_callbacks` asks the interrupt server of each processor for a call of
  `epoch_call_drain_cb`, which registers a marker, and returns when all markers were executed.

Epochs are unbounded numbers; the code compares them for equality and by the sign of a difference
of neighbours only.  `Section.opened`, the times and what follows `State.time` are not read by the
code.
-/

namespace RtemsLibbsd.Epoch

open Function RtemsLibbsd.Transition

abbrev CK_EPOCH_LENGTH : Nat := 4

abbrev CK_EPOCH_SENSE : Nat := 2

/-- A registered callback: its epoch and processor, the global epoch that `epoch_call` loaded and
    the time of this load, when it was pushed, and whether it is `epoch_drain_cb`. -/
structure Callback where
  epoch : Nat
  cpu : Nat
  value : Nat
  made : Nat
  time : Nat
  marker : Bool
  deriving DecidableEq

/-- `struct ck_epoch_ref`. -/
structure Ref where
  epoch : Nat
  count : Nat

/-- `ck_epoch_record_t`. -/
structure Record where
  epoch : Nat
  active : Nat
  bucket : Nat → Ref
  nPending : Int
  pending : Nat → List Callback

/-- An open read section.  `bucket` is `et_section.bucket`, none for `epoch_enter`. -/
structure Section where
  thread : Nat
  bucket : Option Nat
  opened : Nat
  time : Nat
  deriving DecidableEq

section ConcurrencyKit

/-- `_ck_epoch_addref`. -/
def addref (global : Nat) (r : Record) : Record :=
  let i := global % CK_EPOCH_SENSE
  let ref := r.bucket i
  { r with
    bucket := update r.bucket i
      ⟨if ref.count = 0 then global else ref.epoch, ref.count + 1⟩ }

/-- `_ck_epoch_delref`. -/
def delref (r : Record) (i : Nat) : Record :=
  let current : Ref := ⟨(r.bucket i).epoch, (r.bucket i).count - 1⟩
  let r' := { r with bucket := update r.bucket i current }
  if current.count > 0 then r'
  else
    let other := r'.bucket ((i + 1) % CK_EPOCH_SENSE)
    if other.count > 0 ∧ current.epoch < other.epoch then { r' with epoch := other.epoch } else r'

/-- `ck_epoch_begin`, with a section object if `tracked`. -/
def ckEpochBegin (global : Nat) (r : Record) (tracked : Bool) : Record :=
  let r' :=
    if r.active = 0 then { r with active := 1, epoch := global }
    else { r with active := r.active + 1 }
  if tracked then addref global r' else r'

def ckEpochEnd (r : Record) (bucket : Option Nat) : Record :=
  let r' := { r with active := r.active - 1 }
  match bucket with
  | none => r'
  | some i => delref r' i

/-- `ck_epoch_dispatch`: the callbacks of a stack are pushed to `deferred`. -/
def dispatch (r : Record) (epoch : Nat) (deferred : List Callback) : Record × List Callback :=
  let i := epoch % CK_EPOCH_LENGTH
  let entries := r.pending i
  ({ r with
      pending := update r.pending i []
      nPending := r.nPending - entries.length },
    entries.foldl (fun stack x => x :: stack) deferred)

def dispatchAll (r : Record) (deferred : List Callback) : Record × List Callback :=
  (List.range CK_EPOCH_LENGTH).foldl (fun p i => dispatch p.1 i p.2) (r, deferred)

end ConcurrencyKit

/-- Where the interrupt server of a processor is.  `epochs` are the epochs of `epoch_list` still to
    be polled, `epoch` the snapshot of the global epoch and `records` the records still to be
    scanned. -/
inductive Server where
  | idle
  | drainCall (e : Nat)
  | pass (epochs : List Nat)
  | loaded (e epoch : Nat) (npending : Int) (epochs : List Nat)
  | scan (e epoch : Nat) (npending : Int) (records : List Nat) (active : Bool) (epochs : List Nat)
  | scanEpoch (e epoch : Nat) (npending : Int) (record : Nat) (records epochs : List Nat)
  | cas (e epoch : Nat) (npending : Int) (epochs : List Nat)
  | tail (e epoch : Nat) (npending : Int) (epochs : List Nat)
  | polled (e : Nat) (npending : Int) (epochs : List Nat)
  | exec
  deriving DecidableEq

/-- Thread dispatching is disabled by `epoch_call_handler`. -/
def Server.disabled : Server → Bool
  | .idle | .drainCall _ | .pass _ | .exec => false
  | _ => true

/-- Where a call of `epoch_call` is: it has loaded `cb_count`, stored the increment, loaded the
    global epoch `value` at the time `made`, loaded `n_pending`, stored its increment, loaded the
    head of the stack. -/
inductive Pc where
  | counted (n : Int)
  | begun
  | valued (value made : Nat)
  | sized (value made : Nat) (n : Int)
  | queued (value made : Nat)
  | linked (value made : Nat) (head : List Callback)
  deriving DecidableEq

/-- A call of `epoch_call` under way, by a thread or, for `none`, by `epoch_call_drain_cb` on the
    interrupt server of the processor. -/
structure Call where
  thread : Option Nat
  epoch : Nat
  cpu : Nat
  pc : Pc
  deriving DecidableEq

/-- The state of `epoch_drain_callbacks`: `e_drain_count`, the interrupt servers still to start
    `epoch_call_drain_cb`, when the drain under way began, and the markers it registered. -/
structure Drain where
  count : Nat
  request : Nat → Bool
  start : Option Nat
  marker : Nat → Option Callback

/-- `struct epoch`: the global epoch, the records of the processors, and the sections open on each
    processor, the last one first. -/
structure Domain where
  global : Nat
  record : Nat → Record
  sections : Nat → List Section
  drain : Drain

structure State where
  domain : Nat → Domain
  cbCount : Nat → Int
  submitted : Nat → Bool
  server : Nat → Server
  cbStack : Nat → List Callback
  calls : List Call
  time : Nat
  registered : List Callback
  executed : List Callback
  passes : Nat → Nat
  returned : List (Nat × Nat)

def State.setDomain (s : State) (e : Nat) (d : Domain) : State :=
  { s with domain := update s.domain e d }

def State.setServer (s : State) (c : Nat) (p : Server) : State :=
  { s with server := update s.server c p }

def State.setPc (s : State) (x : Call) (pc : Pc) : State :=
  { s with calls := { x with pc := pc } :: s.calls.erase x }

def Domain.setRecord (d : Domain) (c : Nat) (r : Record) : Domain :=
  { d with record := update d.record c r }

section System

variable (cpus : Nat) (epochs : List Nat)

/-- The thread `t` can run on the processor: thread dispatching is not disabled by the handler or
    by another thread. -/
def mayRun (s : State) (t c : Nat) : Bool :=
  !(s.server c).disabled &&
    epochs.all fun e => ((s.domain e).sections c).all fun x => x.bucket.isSome || x.thread == t

/-- The thread is not in `epoch_call`. -/
def notCalling (s : State) (t : Nat) : Bool := s.calls.all fun x => x.thread != some t

/-- The thread is not in `epoch_call` and has no section on other processors. -/
def placed (s : State) (t c : Nat) : Bool :=
  notCalling s t && epochs.all fun e => (List.range cpus).all fun d =>
    d == c || ((s.domain e).sections d).all fun x => x.thread != t

/-- `epoch_enter` and `epoch_enter_preempt`. -/
def epochEnter (s : State) (t c e : Nat) (tracked : Bool) : State :=
  let d := s.domain e
  let x : Section :=
    ⟨t, if tracked then some (d.global % CK_EPOCH_SENSE) else none, d.global, s.time⟩
  { s.setDomain e { d.setRecord c (ckEpochBegin d.global (d.record c) tracked) with
      sections := update d.sections c (x :: d.sections c) } with
    time := s.time + 1 }

/-- `epoch_exit` and `epoch_exit_preempt` for the section `x`. -/
def epochExit (s : State) (c e : Nat) (x : Section) : State :=
  let d := s.domain e
  s.setDomain e { d.setRecord c (ckEpochEnd (d.record c) x.bucket) with
    sections := update d.sections c ((d.sections c).erase x) }

/-- The callback that the call `x` pushes. -/
def Call.callback (x : Call) (value made time : Nat) : Callback :=
  ⟨x.epoch, x.cpu, value, made, time, x.thread.isNone⟩

/-- The store of `ck_stack_push_spnc` in `ck_epoch_call`, the last access of the call `x`. -/
def push (s : State) (x : Call) (value made : Nat) (head : List Callback) : State :=
  let d := s.domain x.epoch
  let r := d.record x.cpu
  let y := x.callback value made s.time
  let pending := update r.pending (value % CK_EPOCH_LENGTH) (y :: head)
  { s.setDomain x.epoch { d.setRecord x.cpu { r with pending := pending } with
      drain := if y.marker then
          { d.drain with marker := update d.drain.marker x.cpu (some y) }
        else d.drain } with
    calls := s.calls.erase x
    time := s.time + 1
    registered := y :: s.registered }

/-- The next load or store of the call `x` of `epoch_call`. -/
def access (s : State) (x : Call) : State :=
  let d := s.domain x.epoch
  let r := d.record x.cpu
  match x.pc with
  | .counted n => { s.setPc x .begun with cbCount := update s.cbCount x.cpu (n + 1) }
  | .begun => { s.setPc x (.valued d.global s.time) with time := s.time + 1 }
  | .valued value made => s.setPc x (.sized value made r.nPending)
  | .sized value made n =>
    (s.setDomain x.epoch (d.setRecord x.cpu { r with nPending := n + 1 })).setPc x
      (.queued value made)
  | .queued value made => s.setPc x (.linked value made (r.pending (value % CK_EPOCH_LENGTH)))
  | .linked value made head => push s x value made head

/-- The call of `epoch_call` that a thread has under way. -/
def threadCall (s : State) (t : Nat) : Option Call := s.calls.find? fun x => x.thread == some t

def drainCall (s : State) (c e : Nat) : Option Call :=
  s.calls.find? fun x => x.thread == none && x.cpu == c && x.epoch == e

/-- `ck_epoch_dispatch` of the handler's processor. -/
def dispatchStep (s : State) (c e epoch : Nat) : State :=
  let d := s.domain e
  let p := dispatch (d.record c) epoch (s.cbStack c)
  { s.setDomain e (d.setRecord c p.1) with cbStack := update s.cbStack c p.2 }

def dispatchAllStep (s : State) (c e epoch : Nat) : State :=
  let d := s.domain e
  let p := dispatchAll { d.record c with epoch := epoch } (s.cbStack c)
  { s.setDomain e (d.setRecord c p.1) with cbStack := update s.cbStack c p.2 }

/-- The next step of `epoch_call_handler` or `epoch_call_drain_cb` on the processor. -/
def serverStep (s : State) (c : Nat) : Option State :=
  match s.server c with
  | .idle => none
  | .drainCall e => (drainCall s c e).map fun x =>
      match x.pc with
      | .linked .. => (access s x).setServer c .idle
      | _ => access s x
  | .pass [] => some (s.setServer c .exec)
  | .pass (e :: es) =>
    if ((s.domain e).record c).nPending ≠ 0 then
      some (s.setServer c (.loaded e (s.domain e).global ((s.domain e).record c).nPending es))
    else some (s.setServer c (.pass es))
  | .loaded e epoch np es =>
    some ((dispatchStep s c e (epoch + 2)).setServer c
      (.scan e epoch np (List.range cpus).reverse false es))
  | .scan e epoch np [] active es =>
    if active then some (s.setServer c (.cas e epoch np es))
    else some ((dispatchAllStep s c e epoch).setServer c (.polled e np es))
  | .scan e epoch np (d :: ds) active es =>
    if ((s.domain e).record d).active ≠ 0 then some (s.setServer c (.scanEpoch e epoch np d ds es))
    else some (s.setServer c (.scan e epoch np ds active es))
  | .scanEpoch e epoch np d ds es =>
    if ((s.domain e).record d).epoch ≠ epoch then some (s.setServer c (.polled e np es))
    else some (s.setServer c (.scan e epoch np ds true es))
  | .cas e epoch np es =>
    let d := s.domain e
    some ((s.setDomain e { d with global := if d.global = epoch then epoch + 1 else d.global }).setServer
      c (.tail e epoch np es))
  | .tail e epoch np es =>
    some ((dispatchStep s c e (epoch + 3)).setServer c (.polled e np es))
  | .polled e np es =>
    some (State.setServer { s with
      cbCount := update s.cbCount c
        (s.cbCount c - (np - ((s.domain e).record c).nPending)) } c (.pass es))
  | .exec =>
    match s.cbStack c with
    | [] =>
      some (State.setServer { s with
        passes := update s.passes c (s.passes c + 1) } c .idle)
    | x :: rest =>
      let d := s.domain x.epoch
      some { s.setDomain x.epoch
          (if x.marker then { d with drain := { d.drain with count := d.drain.count - 1 } } else d) with
        cbStack := update s.cbStack c rest
        executed := x :: s.executed }

inductive Act where
  | enter (t c e : Nat) (tracked : Bool)
  | exit (t c e : Nat)
  | callBegin (t c e : Nat)
  | access (t : Nat)
  | tick (c : Nat)
  | start (c : Nat)
  | startDrain (c e : Nat)
  | server (c : Nat)
  | drainBegin (e : Nat)
  | drainReturn (e : Nat)
  deriving DecidableEq

/-- One step of a thread, of the clock or of an interrupt server. -/
def step (s : State) (a : Act) : Option State :=
  match a with
  | .enter t c e tracked =>
    if c < cpus ∧ e ∈ epochs ∧ mayRun epochs s t c ∧ placed cpus epochs s t c then
      some (epochEnter s t c e tracked)
    else none
  | .exit t c e =>
    if c < cpus ∧ e ∈ epochs ∧ mayRun epochs s t c ∧ notCalling s t then
      ((s.domain e).sections c).find? (fun x => x.thread == t) |>.map (epochExit s c e)
    else none
  | .callBegin t c e =>
    if c < cpus ∧ e ∈ epochs ∧ mayRun epochs s t c ∧ placed cpus epochs s t c then
      some { s with calls := ⟨some t, e, c, .counted (s.cbCount c)⟩ :: s.calls }
    else none
  | .access t =>
    (threadCall s t).bind fun x => if mayRun epochs s t x.cpu then some (access s x) else none
  | .tick c =>
    if s.cbCount c ≠ 0 then some { s with submitted := update s.submitted c true } else some s
  | .start c =>
    if c < cpus ∧ s.submitted c ∧ s.server c = .idle then
      some (State.setServer { s with
        submitted := update s.submitted c false } c (.pass epochs))
    else none
  | .startDrain c e =>
    let d := s.domain e
    if c < cpus ∧ e ∈ epochs ∧ d.drain.request c ∧ s.server c = .idle then
      some (State.setServer { s.setDomain e { d with
          drain := { d.drain with request := update d.drain.request c false } } with
        calls := ⟨none, e, c, .counted (s.cbCount c)⟩ :: s.calls } c (.drainCall e))
    else none
  | .server c =>
    if c < cpus ∧ epochs.all fun e => ((s.domain e).sections c).all fun x => x.bucket.isSome then
      serverStep cpus s c
    else none
  | .drainBegin e =>
    let d := s.domain e
    if e ∈ epochs ∧ d.drain.start = none then
      some { s.setDomain e { d with
          drain :=
            { count := d.drain.count + cpus
              request := fun c => decide (c < cpus)
              start := some s.time
              marker := fun _ => none } } with
        time := s.time + 1 }
    else none
  | .drainReturn e =>
    let d := s.domain e
    match d.drain.start with
    | none => none
    | some start =>
      if d.drain.count = 0 then
        some { s.setDomain e { d with drain := { d.drain with start := none } } with
          returned := (e, start) :: s.returned }
      else none

/-- The state after `_bsd_epoch_init` and `epoch_sysinit`. -/
def init : State where
  domain _ :=
    { global := 1
      record := fun _ => ⟨0, 0, fun _ => ⟨0, 0⟩, 0, fun _ => []⟩
      sections := fun _ => []
      drain :=
        { count := 0
          request := fun _ => false
          start := none
          marker := fun _ => none } }
  cbCount _ := 0
  submitted _ := false
  server _ := .idle
  cbStack _ := []
  calls := []
  time := 0
  registered := []
  executed := []
  passes _ := 0
  returned := []

/-- The call of `epoch_call` that the action continues. -/
def callOf (s : State) : Act → Option Call
  | .access t => threadCall s t
  | .server c =>
    match s.server c with
    | .drainCall e => drainCall s c e
    | _ => none
  | _ => none

/-- The next store of the call does not undo what was stored since its load: no increment of
    `cb_count` or `n_pending` is lost, and the stack is the one that was loaded. -/
def Whole (s : State) (x : Call) : Prop :=
  let r := (s.domain x.epoch).record x.cpu
  match x.pc with
  | .counted n => s.cbCount x.cpu ≤ n
  | .sized _ _ n => r.nPending ≤ n
  | .linked value _ head => r.pending (value % CK_EPOCH_LENGTH) = head
  | _ => True

instance (s : State) (x : Call) : Decidable (Whole s x) := by
  unfold Whole
  split <;> infer_instance

/-- The action makes no store of `epoch_call` that undoes another one. -/
def Undisturbed (s : State) (a : Act) : Prop := ∀ x ∈ callOf s a, Whole s x

instance (s : State) (a : Act) : Decidable (Undisturbed s a) :=
  inferInstanceAs (Decidable (∀ x ∈ callOf s a, _))

end System

end RtemsLibbsd.Epoch
