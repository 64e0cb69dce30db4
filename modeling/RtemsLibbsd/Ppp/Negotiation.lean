import Mathlib.Data.List.Count
import RtemsLibbsd.Transition

/-!
# The negotiation of a control protocol

Model of `pppd/fsm.c`, the automaton behind LCP, IPCP and CCP, for any configuration of it.

* `Fsm` — the members of `fsm` that it reads, the pending timeouts of `fsm_timeout`, and what it sent and which
  callbacks it called, newest first, those that check options with what they answered.
* `step` — the events of the lower layer and of the user, a timeout, and a packet of any bytes with the answers of
  the callbacks that check its options.
* `Sound` — a timeout is pending exactly in the states that wait for one, `up` and `down` alternate and `OPENED` is
  between them, and there each side has accepted the options of the other one: the last request of the peer was
  agreed to and acknowledged, and what was heard last about the own request, under its id, is a valid Ack.

A Terminate-Ack in `OPENED` calls `down` and starts the negotiation again, but stays in `OPENED`.
**`sound_iff_opened_left`** says that nothing else goes wrong, **`gives_up`** that a peer that is silent is given up.
-/

namespace RtemsLibbsd.Ppp.Negotiation

open Option List Transition

inductive Link where
  | initial
  | starting
  | closed
  | stopped
  | closing
  | stopping
  | reqsent
  | ackrcvd
  | acksent
  | opened
deriving DecidableEq

@[simp] def Link.timed : Link → Bool
  | .closing | .stopping | .reqsent | .ackrcvd | .acksent => true
  | .initial | .starting | .closed | .stopped | .opened => false

@[simp] def Link.negotiated : Link → Bool
  | .reqsent | .ackrcvd | .acksent | .opened => true
  | .initial | .starting | .closed | .stopped | .closing | .stopping => false

def HEADERLEN : Nat := 4

@[simp] def CONFREQ : Nat := 1
@[simp] def CONFACK : Nat := 2
@[simp] def CONFNAK : Nat := 3
@[simp] def CONFREJ : Nat := 4
@[simp] def TERMREQ : Nat := 5
@[simp] def TERMACK : Nat := 6
@[simp] def CODEREJ : Nat := 7

inductive Callback where
  | resetci
  | starting
  | finished
  | up
  | down
  | retransmit
deriving DecidableEq

/-- `check` is a call of `reqci`, `ackci`, `nakci` or `rejci` for a packet, and whether it agreed to the options or
    took them for valid. -/
inductive Output where
  | packet (code id : Nat)
  | call (c : Callback)
  | check (code id : Nat) (agreed : Bool)
deriving DecidableEq

/-- `silent`, `restart` and `passive` are the bits of `flags`. -/
structure Fsm where
  state : Link
  silent : Bool
  restart : Bool
  passive : Bool
  id : Nat
  reqid : Nat
  seenAck : Bool
  retransmits : Int
  maxconfreqtransmits : Int
  maxtermtransmits : Int
  nakloops : Nat
  maxnakloops : Nat
  timers : Nat
  out : List Output

/-- What `reqci` makes of the options of the peer: Ack, Nak or Reject. -/
inductive Verdict where
  | ack
  | nak
  | rej
deriving DecidableEq

@[simp] def Verdict.code : Verdict → Nat
  | .ack => CONFACK
  | .nak => CONFNAK
  | .rej => CONFREJ

/-- What the callbacks answer: `reqci` for its argument `reject_if_disagree`, `ackci`, `nakci` or `rejci`, and
    `extcode`. -/
structure Answers where
  reqci : Bool → Verdict
  ackci : Bool
  nakci : Int
  extcode : Bool

namespace Fsm

variable (f : Fsm)

@[simp] def sdata (code id : Nat) : Fsm := { f with out := .packet code id :: f.out }

@[simp] def call (c : Callback) : Fsm := { f with out := .call c :: f.out }

@[simp] def check (code id : Nat) (agreed : Bool) : Fsm := { f with out := .check code id agreed :: f.out }

@[simp] def timeout : Fsm := { f with timers := f.timers + 1 }

/-- `pppuntimeout` removes the first match only. -/
@[simp] def untimeout : Fsm := { f with timers := f.timers - 1 }

@[simp] def goto (s : Link) : Fsm := { f with state := s }

def sconfreq (retransmit : Bool) : Fsm :=
  let f := if f.state ≠ .reqsent ∧ f.state ≠ .ackrcvd ∧ f.state ≠ .acksent then
    { f.call .resetci with nakloops := 0 } else f
  let f := if retransmit then f else
    { f with retransmits := f.maxconfreqtransmits, id := (f.id + 1) % 256, reqid := (f.id + 1) % 256 }
  let f := { f with seenAck := false }.sdata CONFREQ f.reqid
  { f with retransmits := f.retransmits - 1 }.timeout

/-- `fsm_sdata(f, TERMREQ, f->reqid = ++f->id, …)` and the timeout behind it. -/
def termreq : Fsm :=
  let f := { f with id := (f.id + 1) % 256, reqid := (f.id + 1) % 256 }
  let f := (f.sdata TERMREQ f.reqid).timeout
  { f with retransmits := f.retransmits - 1 }

def lowerup : Fsm :=
  match f.state with
  | .initial => f.goto .closed
  | .starting => if f.silent then f.goto .stopped else (f.sconfreq false).goto .reqsent
  | _ => f

def lowerdown : Fsm :=
  match f.state with
  | .closed => f.goto .initial
  | .stopped => (f.goto .starting).call .starting
  | .closing => (f.goto .initial).untimeout
  | .stopping | .reqsent | .ackrcvd | .acksent => (f.goto .starting).untimeout
  | .opened => (f.call .down).goto .starting
  | .initial | .starting => f

def reopen : Fsm := if f.restart then f.lowerdown.lowerup else f

def openLink : Fsm :=
  match f.state with
  | .initial => (f.goto .starting).call .starting
  | .closed => if f.silent then f.goto .stopped else (f.sconfreq false).goto .reqsent
  | .closing => (f.goto .stopping).reopen
  | .stopped | .opened => f.reopen
  | _ => f

def close : Fsm :=
  match f.state with
  | .starting => f.goto .initial
  | .stopped => f.goto .closed
  | .stopping => f.goto .closing
  | .reqsent | .ackrcvd | .acksent | .opened =>
    let f := if f.state ≠ .opened then f.untimeout else f.call .down
    { f with retransmits := f.maxtermtransmits }.termreq.goto .closing
  | _ => f

/-- `fsm_timeout` -/
def expired : Fsm :=
  match f.state with
  | .closing | .stopping =>
    if f.retransmits ≤ 0 then
      (f.goto (if f.state = .closing then .closed else .stopped)).call .finished
    else f.termreq
  | .reqsent | .ackrcvd | .acksent =>
    if f.retransmits ≤ 0 then
      if f.passive then f.goto .stopped else (f.goto .stopped).call .finished
    else
      let f := (f.call .retransmit).sconfreq true
      if f.state = .ackrcvd then f.goto .reqsent else f
  | _ => f

/-- `fsm_rconfreq` behind the cases that return, with what `reqci` answers. -/
def answer (id : Nat) (verdict : Verdict) : Fsm :=
  let f := (f.check CONFREQ id (verdict = .ack)).sdata verdict.code id
  match verdict with
  | .ack =>
    let f := if f.state = .ackrcvd then (f.untimeout.goto .opened).call .up else f.goto .acksent
    { f with nakloops := 0 }
  | v =>
    let f := if f.state ≠ .ackrcvd then f.goto .reqsent else f
    if v = .nak then { f with nakloops := f.nakloops + 1 } else f

def rconfreq (id : Nat) (reqci : Bool → Verdict) : Fsm :=
  match f.state with
  | .closed => f.sdata TERMACK id
  | .closing | .stopping => f
  | .opened =>
    let f := (f.call .down).sconfreq false
    f.answer id (reqci (decide (f.maxnakloops ≤ f.nakloops)))
  | .stopped =>
    let f := (f.sconfreq false).goto .reqsent
    f.answer id (reqci (decide (f.maxnakloops ≤ f.nakloops)))
  | _ => f.answer id (reqci (decide (f.maxnakloops ≤ f.nakloops)))

def rconfack (id : Nat) (ackci : Bool) : Fsm :=
  if id ≠ f.reqid ∨ f.seenAck then f
  else if ¬ackci then f.check CONFACK id false
  else
    let f := { f.check CONFACK id true with seenAck := true }
    match f.state with
    | .closed | .stopped => f.sdata TERMACK id
    | .reqsent => { f.goto .ackrcvd with retransmits := f.maxconfreqtransmits }
    | .ackrcvd => (f.untimeout.sconfreq false).goto .reqsent
    | .acksent => ({ f.untimeout.goto .opened with retransmits := f.maxconfreqtransmits }).call .up
    | .opened => ((f.call .down).sconfreq false).goto .reqsent
    | _ => f

def rconfnakrej (code id : Nat) (ret : Int) : Fsm :=
  if id ≠ f.reqid ∨ f.seenAck then f
  else if ret = 0 then f.check code id false
  else
    let f := { f.check code id true with seenAck := true }
    match f.state with
    | .closed | .stopped => f.sdata TERMACK id
    | .reqsent | .acksent => if ret < 0 then f.untimeout.goto .stopped else f.untimeout.sconfreq false
    | .ackrcvd => (f.untimeout.sconfreq false).goto .reqsent
    | .opened => ((f.call .down).sconfreq false).goto .reqsent
    | _ => f

def rtermreq (id : Nat) : Fsm :=
  let f := match f.state with
    | .ackrcvd | .acksent => f.goto .reqsent
    | .opened => ({ f.call .down with retransmits := 0 }.goto .stopping).timeout
    | _ => f
  f.sdata TERMACK id

def rtermack : Fsm :=
  match f.state with
  | .closing => (f.untimeout.goto .closed).call .finished
  | .stopping => (f.untimeout.goto .stopped).call .finished
  | .ackrcvd => f.goto .reqsent
  | .opened => (f.call .down).sconfreq false
  | _ => f

def rcoderej (len : Nat) : Fsm :=
  if len < HEADERLEN then f else if f.state = .ackrcvd then f.goto .reqsent else f

def protreject : Fsm :=
  match f.state with
  | .closing => (f.untimeout.goto .closed).call .finished
  | .closed => f.call .finished
  | .stopping | .reqsent | .ackrcvd | .acksent => (f.untimeout.goto .stopped).call .finished
  | .stopped => f.call .finished
  | .opened => { f.call .down with retransmits := f.maxtermtransmits }.termreq.goto .stopping
  | .initial | .starting => f

end Fsm

/-- The header of a packet that is not dropped: the code, the id, and the length of what follows. -/
def header : List UInt8 → Option (Nat × Nat × Nat)
  | code :: id :: high :: low :: data =>
    let len := high.toNat * 256 + low.toNat
    if len < HEADERLEN then none
    else if data.length + HEADERLEN < len then none
    else some (code.toNat, id.toNat, len - HEADERLEN)
  | _ => none

def Fsm.input (f : Fsm) (packet : List UInt8) (a : Answers) : Fsm :=
  match header packet with
  | none => f
  | some (code, id, len) =>
    if f.state = .initial ∨ f.state = .starting then f
    else if code = CONFREQ then f.rconfreq id a.reqci
    else if code = CONFACK then f.rconfack id a.ackci
    else if code = CONFNAK ∨ code = CONFREJ then f.rconfnakrej code id a.nakci
    else if code = TERMREQ then f.rtermreq id
    else if code = TERMACK then f.rtermack
    else if code = CODEREJ then f.rcoderej len
    else if a.extcode then f
    else { f with id := (f.id + 1) % 256 }.sdata CODEREJ ((f.id + 1) % 256)

inductive Event where
  | lowerup
  | lowerdown
  | openLink
  | close
  | timeout
  | input (packet : List UInt8) (a : Answers)
  | protreject

/-- The callout is off the list when `fsm_timeout` is called. -/
def step (f : Fsm) : Event → Option Fsm
  | .lowerup => some f.lowerup
  | .lowerdown => some f.lowerdown
  | .openLink => some f.openLink
  | .close => some f.close
  | .timeout => if 0 < f.timers then some f.untimeout.expired else none
  | .input packet a => some (f.input packet a)
  | .protreject => some f.protreject

/-- `fsm_init`, with flags and limits that the protocol may have set. -/
def init (silent restart passive : Bool) (maxconfreq maxterm : Int) (maxnakloops : Nat) : Fsm :=
  ⟨.initial, silent, restart, passive, 100, 0, false, 0, maxconfreq, maxterm, 0, maxnakloops, 0, []⟩

@[simp] def Fsm.count (f : Fsm) (c : Callback) : Nat := f.out.count (.call c)

/-- An answer to a request of the peer. -/
@[simp] def Output.reply : Output → Option (Nat × Nat)
  | .packet code id => if code = CONFACK ∨ code = CONFNAK ∨ code = CONFREJ then some (code, id) else none
  | _ => none

/-- A request of the peer, and whether it was agreed to. -/
@[simp] def Output.judged : Output → Option (Nat × Bool)
  | .check code id agreed => if code = CONFREQ then some (id, agreed) else none
  | _ => none

/-- The id of an own request. -/
@[simp] def Output.request : Output → Option Nat
  | .packet code id => if code = CONFREQ then some id else none
  | _ => none

/-- An own request, or a valid answer of the peer to it. -/
@[simp] def Output.heard : Output → Option (Nat × Nat)
  | .packet code id => if code = CONFREQ then some (code, id) else none
  | .check code id true => if code = CONFREQ then none else some (code, id)
  | _ => none

/-- The last output of a kind. -/
@[simp] def Fsm.last {α : Type} (f : Fsm) (kind : Output → Option α) : Option α := f.out.findSome? kind

/-- Timer, notifications and acknowledged requests agree with the state. -/
structure Sound (f : Fsm) : Prop where
  timers : f.timers = if f.state.timed then 1 else 0
  layers : f.count .up = f.count .down + if f.state = .opened then 1 else 0
  acked : f.state = .acksent ∨ f.state = .opened →
    ∃ id, f.last Output.reply = some (CONFACK, id) ∧ f.last Output.judged = some (id, true)
  request : f.state.negotiated = true → f.last Output.request = some f.reqid
  heard : f.state = .ackrcvd ∨ f.state = .opened → f.last Output.heard = some (CONFACK, f.reqid)

variable {f : Fsm}

section Observed

variable (f)

@[simp] theorem sconfreq_state (r : Bool) : (f.sconfreq r).state = f.state := by
  unfold Fsm.sconfreq
  split <;> cases r <;> rfl

@[simp] theorem sconfreq_timers (r : Bool) : (f.sconfreq r).timers = f.timers + 1 := by
  unfold Fsm.sconfreq
  split <;> cases r <;> rfl

@[simp] theorem sconfreq_seenAck (r : Bool) : (f.sconfreq r).seenAck = false := by
  unfold Fsm.sconfreq
  split <;> cases r <;> rfl

@[simp] theorem count_sconfreq (r : Bool) {c : Callback} (hc : c ≠ .resetci) :
    (f.sconfreq r).out.count (.call c) = f.out.count (.call c) := by
  unfold Fsm.sconfreq
  split <;> cases r <;> simp [hc.symm]

@[simp] theorem reply_sconfreq (r : Bool) :
    (f.sconfreq r).out.findSome? Output.reply = f.out.findSome? Output.reply := by
  unfold Fsm.sconfreq
  split <;> cases r <;> rfl

@[simp] theorem judged_sconfreq (r : Bool) :
    (f.sconfreq r).out.findSome? Output.judged = f.out.findSome? Output.judged := by
  unfold Fsm.sconfreq
  split <;> cases r <;> rfl

@[simp] theorem request_sconfreq (r : Bool) :
    (f.sconfreq r).out.findSome? Output.request = some (f.sconfreq r).reqid := by
  unfold Fsm.sconfreq
  split <;> cases r <;> rfl

end Observed

/-- What the peer says in vain. -/
theorem Sound.check (h : Sound f) {code : Nat} (hcode : code ≠ CONFREQ) (id : Nat) :
    Sound (f.check code id false) := by
  obtain ⟨ht, hl, ha, hr, hs⟩ := h
  simp only [CONFREQ, ne_eq] at hcode
  refine ⟨ht, ?_, by simpa [findSome?_cons, hcode] using ha, hr, hs⟩
  simp only [Fsm.count, Fsm.check, count_cons]
  exact hl

theorem Sound.lowerup (h : Sound f) : Sound f.lowerup := by
  obtain ⟨ht, hl, ha, hr, hs⟩ := h
  unfold Fsm.lowerup
  split <;> (try split) <;> constructor <;> simp_all

theorem Sound.lowerdown (h : Sound f) : Sound f.lowerdown := by
  obtain ⟨ht, hl, ha, hr, hs⟩ := h
  unfold Fsm.lowerdown
  split <;> constructor <;> simp_all

theorem Sound.openLink (h : Sound f) : Sound f.openLink := by
  have hre : ∀ {g}, Sound g → Sound g.reopen := by
    intro g hg
    unfold Fsm.reopen
    split
    · exact hg.lowerdown.lowerup
    · exact hg
  have hmove := h
  obtain ⟨ht, hl, ha, hr, hs⟩ := h
  unfold Fsm.openLink
  split
  · constructor <;> simp_all
  · split <;> constructor <;> simp_all
  · refine hre ?_
    constructor <;> simp_all
  · exact hre hmove
  · exact hre hmove
  · exact hmove

theorem Sound.close (h : Sound f) : Sound f.close := by
  obtain ⟨ht, hl, ha, hr, hs⟩ := h
  unfold Fsm.close Fsm.termreq
  split <;> (try split) <;> constructor <;> simp_all

theorem Sound.expired (h : Sound f) (htimed : f.state.timed = true) : Sound f.untimeout.expired := by
  obtain ⟨ht, hl, ha, hr, hs⟩ := h
  unfold Fsm.expired Fsm.termreq
  cases hst : f.state <;> simp only [hst, Fsm.untimeout] at * <;> (try split) <;> (try split) <;> constructor <;>
    simp_all [findSome?_cons]

theorem Sound.answer (ht : f.timers = 1) (hl : f.count .up = f.count .down)
    (hr : f.last Output.request = some f.reqid)
    (hs : f.state = .ackrcvd → f.last Output.heard = some (CONFACK, f.reqid)) (id : Nat) (v : Verdict) :
      Sound (f.answer id v) := by
  unfold Fsm.answer
  by_cases hst : f.state = .ackrcvd <;> cases v <;> constructor <;> simp_all [findSome?_cons]

theorem Sound.rconfreq (h : Sound f) (hup : f.state ≠ .initial ∧ f.state ≠ .starting) (id : Nat)
    (reqci : Bool → Verdict) : Sound (f.rconfreq id reqci) := by
  have hkeep := h
  obtain ⟨ht, hl, ha, hr, hs⟩ := h
  unfold Fsm.rconfreq
  split
  · constructor <;> simp_all
  · exact hkeep
  · exact hkeep
  · apply Sound.answer <;> simp_all
  · apply Sound.answer <;> simp_all
  · apply Sound.answer <;> cases hst : f.state <;> simp_all

theorem Sound.rconfack (h : Sound f) (id : Nat) (ackci : Bool) : Sound (f.rconfack id ackci) := by
  have hkeep := h
  obtain ⟨ht, hl, ha, hr, hs⟩ := h
  unfold Fsm.rconfack
  split
  · exact hkeep
  · split
    · exact hkeep.check (by decide) id
    · cases hst : f.state <;> simp only [Fsm.check, hst] <;> constructor <;> simp_all [findSome?_cons]

theorem Sound.rconfnakrej (h : Sound f) {code : Nat} (hcode : code ≠ CONFREQ) (id : Nat) (ret : Int) :
    Sound (f.rconfnakrej code id ret) := by
  have hkeep := h
  obtain ⟨ht, hl, ha, hr, hs⟩ := h
  unfold Fsm.rconfnakrej
  split
  · exact hkeep
  · split
    · exact hkeep.check hcode id
    · cases hst : f.state <;> simp only [Fsm.check, hst] <;> (try split) <;> constructor <;>
        simp_all [findSome?_cons]

theorem Sound.rtermreq (h : Sound f) (id : Nat) : Sound (f.rtermreq id) := by
  obtain ⟨ht, hl, ha, hr, hs⟩ := h
  unfold Fsm.rtermreq
  cases hst : f.state <;> constructor <;> simp_all

theorem Sound.rtermack (h : Sound f) (hno : f.state ≠ .opened) : Sound f.rtermack := by
  obtain ⟨ht, hl, ha, hr, hs⟩ := h
  unfold Fsm.rtermack
  split <;> constructor <;> simp_all

theorem Sound.protreject (h : Sound f) : Sound f.protreject := by
  obtain ⟨ht, hl, ha, hr, hs⟩ := h
  unfold Fsm.protreject Fsm.termreq
  split <;> constructor <;> simp_all

/-! ## Runs -/

def Event.IsTermack : Event → Prop
  | .input packet _ => ∃ id len, header packet = some (TERMACK, id, len)
  | _ => False

/-- No Terminate-Ack arrives in `OPENED`. -/
def Expected (f : Fsm) (e : Event) : Prop := ¬(f.state = .opened ∧ e.IsTermack)

theorem Sound.input (h : Sound f) {packet : List UInt8} {a : Answers} (hok : Expected f (.input packet a)) :
    Sound (f.input packet a) := by
  unfold Fsm.input
  split
  · exact h
  · rename_i code id len hhead
    split
    · exact h
    · rename_i hup
      rw [not_or] at hup
      split
      · exact h.rconfreq hup id a.reqci
      · split
        · exact h.rconfack id a.ackci
        · split
          · rename_i hcode _ _
            exact h.rconfnakrej hcode id a.nakci
          · split
            · exact h.rtermreq id
            · split
              · rename_i hcode
                exact h.rtermack fun hop => hok ⟨hop, id, len, hcode ▸ hhead⟩
              · obtain ⟨ht, hl, ha, hr, hs⟩ := h
                split
                · unfold Fsm.rcoderej
                  split
                  · exact ⟨ht, hl, ha, hr, hs⟩
                  · split <;> constructor <;> simp_all
                · split
                  · exact ⟨ht, hl, ha, hr, hs⟩
                  · refine ⟨ht, ?_, by simpa [findSome?_cons] using ha, by simpa [findSome?_cons] using hr,
                      by simpa [findSome?_cons] using hs⟩
                    simp only [Fsm.count, Fsm.sdata, count_cons]
                    exact hl

theorem sound_step {g : Fsm} {e : Event} (h : Sound f) (hok : Expected f e) (hstep : step f e = some g) : Sound g := by
  cases e with
  | timeout =>
    obtain ⟨hpos, hg⟩ := ite_none_right_eq_some.mp hstep
    cases hg
    refine h.expired ?_
    have ht := h.timers
    by_contra hno
    rw [if_neg hno] at ht
    omega
  | lowerup => exact some.inj hstep ▸ h.lowerup
  | lowerdown => exact some.inj hstep ▸ h.lowerdown
  | openLink => exact some.inj hstep ▸ h.openLink
  | close => exact some.inj hstep ▸ h.close
  | input packet a => exact some.inj hstep ▸ h.input hok
  | protreject => exact some.inj hstep ▸ h.protreject

theorem unsound_of_termack {g : Fsm} {e : Event} (h : Sound f) (hno : ¬Expected f e) (hstep : step f e = some g) :
    ¬Sound g := by
  obtain ⟨hop, hack⟩ := not_not.mp hno
  cases e with
  | input packet a =>
    obtain ⟨id, len, hhead⟩ := hack
    cases hstep
    intro hg
    have ht := hg.timers
    have hf := h.timers
    simp [Fsm.input, hhead, hop, Fsm.rtermack] at ht hf
  | _ => exact absurd hack id

theorem sound_init (silent restart passive : Bool) (maxconfreq maxterm : Int) (maxnakloops : Nat) :
    Sound (init silent restart passive maxconfreq maxterm maxnakloops) := by
  constructor <;> simp [init]

/-- **Timers, layers and options**, behind any events in any order: they are as they should be as long as, and no
    longer than, no Terminate-Ack arrives in `OPENED`. -/
theorem sound_iff_opened_left {silent restart passive : Bool} {maxconfreq maxterm : Int} {maxnakloops : Nat}
    {es : List Event} {g : Fsm} (hrun : run step (init silent restart passive maxconfreq maxterm maxnakloops) es = some g) :
    Throughout step Sound (init silent restart passive maxconfreq maxterm maxnakloops) es ↔
      StepsMeet step Expected (init silent restart passive maxconfreq maxterm maxnakloops) es :=
  good_iff_stepsMeet (fun _ h => h) (fun _ _ _ h hok hs => sound_step h hok hs)
    (fun _ _ _ h hno hs => unsound_of_termack h hno hs) es _ g (sound_init ..) hrun

def agreeing : Answers := ⟨fun _ => .ack, true, 1, false⟩

def termackRun : List Event :=
  [.openLink, .lowerup, .input [1, 1, 0, 4] agreeing, .input [2, 101, 0, 4] agreeing, .input [6, 9, 0, 4] agreeing]

set_option maxRecDepth 2048 in
theorem sound_iff_opened_left_termack : ¬Throughout step Sound (init false false false 10 2 10) termackRun := by
  intro h
  have hmeet := (sound_iff_opened_left rfl).mp h
  exact ((((hmeet.2 _ rfl).2 _ rfl).2 _ rfl).2 _ rfl).1 ⟨rfl, 9, 0, rfl⟩

/-! ## A silent peer -/

@[simp] def Fsm.packets (f : Fsm) : Nat := f.out.countP fun o => match o with
  | .packet _ _ => true
  | .call _ | .check _ _ _ => false

theorem expired_last (htimed : f.state.timed = true) (hr : f.retransmits ≤ 0) :
    (f.untimeout.expired.state = .closed ∨ f.untimeout.expired.state = .stopped) ∧
      f.untimeout.expired.packets = f.packets := by
  unfold Fsm.expired
  cases hst : f.state <;> cases hp : f.passive <;> simp_all

theorem expired_again (htimed : f.state.timed = true) (hr : 0 < f.retransmits) :
    f.untimeout.expired.state.timed = true ∧ f.untimeout.expired.retransmits = f.retransmits - 1 ∧
      f.untimeout.expired.packets = f.packets + 1 := by
  have hno : ¬f.retransmits ≤ 0 := by omega
  unfold Fsm.expired Fsm.termreq Fsm.sconfreq
  cases hst : f.state <;> simp only [hst, Fsm.untimeout, if_neg hno] <;> simp_all

theorem Sound.silent (h : Sound f) (htimed : f.state.timed = true) :
    ∃ g, run step f (List.replicate (f.retransmits.toNat + 1) .timeout) = some g ∧
      (g.state = .closed ∨ g.state = .stopped) ∧ g.timers = 0 ∧ g.packets = f.packets + f.retransmits.toNat := by
  have hpos : ∀ {f : Fsm}, Sound f → f.state.timed = true → step f .timeout = some f.untimeout.expired := by
    intro f h htimed
    have ht := h.timers
    rw [if_pos htimed] at ht
    exact if_pos (by omega)
  generalize hn : f.retransmits.toNat = n
  induction n generalizing f with
  | zero =>
    obtain ⟨hstate, hpackets⟩ := expired_last htimed (by omega)
    have ht := (h.expired htimed).timers
    refine ⟨f.untimeout.expired, run_cons.mpr ⟨_, hpos h htimed, rfl⟩, hstate, ?_, hpackets⟩
    rcases hstate with hstate | hstate <;> rw [ht, hstate] <;> rfl
  | succ n ih =>
    obtain ⟨htimed', hretransmits, hpackets⟩ := expired_again htimed (by omega)
    obtain ⟨g, hg, hstate, ht, hp⟩ := ih (h.expired htimed) htimed' (by omega)
    exact ⟨g, run_cons.mpr ⟨_, hpos h htimed, hg⟩, hstate, ht, by omega⟩

/-- **A peer that is silent is given up**, from any state in which a timeout is pending: the retransmissions that are
    left are sent, and one more timeout ends the negotiation. -/
theorem gives_up {silent restart passive : Bool} {maxconfreq maxterm : Int} {maxnakloops : Nat} {es : List Event}
    (hrun : run step (init silent restart passive maxconfreq maxterm maxnakloops) es = some f)
    (hmeet : StepsMeet step Expected (init silent restart passive maxconfreq maxterm maxnakloops) es)
    (htimed : f.state.timed = true) :
    ∃ g, run step f (List.replicate (f.retransmits.toNat + 1) .timeout) = some g ∧
      (g.state = .closed ∨ g.state = .stopped) ∧ g.timers = 0 ∧ g.packets = f.packets + f.retransmits.toNat :=
  (run_invariant_of_meet (fun _ _ _ h hok hs => sound_step h hok hs) es _ f (sound_init ..) hmeet hrun).silent htimed

theorem gives_up_reqsent : ∃ g, run step ((init false false false 3 2 10).openLink.lowerup)
    (List.replicate 3 .timeout) = some g ∧ (g.state = .closed ∨ g.state = .stopped) ∧ g.timers = 0 ∧ g.packets = 3 :=
  @gives_up _ false false false 3 2 10 [.openLink, .lowerup] rfl
    ⟨fun h => h.2.elim, fun _ _ => ⟨fun h => h.2.elim, fun _ _ => trivial⟩⟩ rfl

end RtemsLibbsd.Ppp.Negotiation
