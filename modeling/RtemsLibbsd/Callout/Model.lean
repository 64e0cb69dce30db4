import Mathlib.Algebra.Group.Nat.Defs
import Mathlib.Logic.Function.Basic
import RtemsLibbsd.ListCursor
import RtemsLibbsd.Transition

/-!
# Callouts

Model of `kern_timeout.c` as it is built for RTEMS: one callwheel, processed by the timer server thread, which drops
`cc_lock` around the locks and the handlers of the callouts.

* `Config` — what `_callout_init_lock` fixes: `c_lock`, `CALLOUT_TRYLOCK` and `CALLOUT_RETURNUNLOCKED`.
* `Callouts` — the callouts, `struct callout_cpu`, the owners of the locks, the place of the processing thread with
  the variables of `callout_process`, and the drain calls that have not returned.
* A step is what one thread does while it holds `cc_lock`, or one action of the processing thread without it.
  `scan` is one round of the loops of `callout_process`.
* A lock has one owner.  Who reads under a `CALLOUT_SHAREDLOCK` lock must not stop the callout, and is left out.
* Every arming has a number.  `ran` records the armings whose handler was called, `stopped` those that a successful
  `callout_stop` ended, `ended` those that a re-arming, a drain or any other `callout_stop` ended, `tried` those that
  were taken off the wheel in this pass; `passStart` is the number of armings before it.

Times are natural numbers in units of 2⁻³² s; the differences between the numbers of the buckets in a pass are far
below the range of an `int`.  `CALLOUT_ACTIVE` and `cc_firstevent` are not read, `first` is not used; the function
and the argument of a callout are those of its arming.
-/

namespace RtemsLibbsd.Callout

open Function RtemsLibbsd.ListCursor

structure Config (C L : Type) where
  lock : C → Option L
  trylock : C → Bool
  returnUnlocked : C → Bool

inductive Owner where
  | proc
  | thread (t : Nat)
  deriving DecidableEq

inductive Pc where
  | idle
  /-- In the loops of `callout_process`, with `cc_lock`. -/
  | scan
  /-- Before `lc_lock`. -/
  | lock
  /-- Before the test of `cc_cancel`. -/
  | check
  | start
  | run
  /-- At `skip`. -/
  | finish
  /-- Before `wakeup`. -/
  | wake
  /-- Behind `wakeup`. -/
  | relock
  deriving DecidableEq

/-- The variables of `callout_process`; `pos` is the callout of the next round of the inner loop. -/
structure Scan (C : Type) where
  firstb : Nat
  nowb : Nat
  lastb : Nat
  last : Nat
  max : Nat
  pos : Option C

structure Drainer (C : Type) where
  callout : C
  woken : Bool

structure Callouts (C L : Type) where
  /-- `CALLOUT_PENDING`. -/
  pending : C → Bool
  time : C → Nat
  precision : C → Nat
  arming : C → Nat
  wheel : Nat → List C
  /-- `cc_next`. -/
  next : Option C
  bucket : Nat
  lastscan : Nat
  /-- `cc_curr`. -/
  curr : Option C
  currArming : Nat
  cancel : Bool
  waiting : Bool
  owner : L → Option Owner
  pc : Pc
  loop : Scan C
  drainers : List (Drainer C)
  drained : List C
  returned : List C
  armings : Nat
  passStart : Nat
  tried : List Nat
  ran : List Nat
  stopped : List Nat
  ended : List Nat

def callwheelInit (C L : Type) : Callouts C L where
  pending := fun _ => false
  time := fun _ => 0
  precision := fun _ => 0
  arming := fun _ => 0
  wheel := fun _ => []
  next := none
  bucket := 0
  lastscan := 0
  curr := none
  currArming := 0
  cancel := false
  waiting := false
  owner := fun _ => none
  pc := .idle
  loop := ⟨0, 0, 0, 0, 0, none⟩
  drainers := []
  drained := []
  returned := []
  armings := 0
  passStart := 0
  tried := []
  ran := []
  stopped := []
  ended := []

abbrev callwheelsize : Nat := 32
abbrev SBT_1S : Nat := 2 ^ 32

def callout_hash (sbt : Nat) : Nat := sbt / 2 ^ 24

def callout_get_bucket (sbt : Nat) : Nat := callout_hash sbt % callwheelsize

section Operations

variable {C L : Type} [DecidableEq C] [DecidableEq L]

def unlink (s : Callouts C L) (c : C) : Callouts C L :=
  let b := callout_get_bucket (s.time c)
  { s with
    next := if s.next = some c then listNext c (s.wheel b) else s.next
    wheel := update s.wheel b ((s.wheel b).erase c)
    pending := update s.pending c false }

def unlinkPending (s : Callouts C L) (c : C) : Callouts C L :=
  if s.pending c then { unlink s c with ended := s.arming c :: s.ended } else s

/-- `callout_cc_add`, for the arming `n`. -/
def callout_cc_add (s : Callouts C L) (c : C) (sbt precision n : Nat) : Callouts C L :=
  let t := max sbt s.lastscan
  let b := callout_get_bucket t
  { s with
    pending := update s.pending c true
    time := update s.time c t
    precision := update s.precision c precision
    arming := update s.arming c n
    wheel := update s.wheel b (c :: s.wheel b)
    next := if s.bucket = b then some c else s.next }

/-- A callout that has not really started is cancelled to be rescheduled. -/
def cancelCurrent (cfg : Config C L) (s : Callouts C L) (c : C) : Callouts C L :=
  if s.curr = some c ∧ (cfg.lock c).isSome ∧ s.cancel = false then
    { s with cancel := true, ended := s.currArming :: s.ended }
  else s

/-- `callout_reset_sbt_on` behind `callout_when`. -/
def callout_reset (cfg : Config C L) (s : Callouts C L) (c : C) (sbt precision : Nat) : Callouts C L :=
  let s := cancelCurrent cfg s c
  -- someone has called `callout_drain`
  if s.curr = some c ∧ s.waiting = true then s
  else
    let s := unlinkPending s c
    { callout_cc_add s c sbt precision s.armings with armings := s.armings + 1 }

/-- `_callout_stop_safe` without `CS_DRAIN`, by a thread that holds the lock of the callout if it has one. -/
def callout_stop (cfg : Config C L) (s : Callouts C L) (c : C) : Callouts C L :=
  if s.curr = some c then
    if (cfg.lock c).isSome ∧ s.cancel = false then { s with cancel := true, stopped := s.currArming :: s.stopped }
    else unlinkPending s c
  else if s.pending c then { unlink s c with stopped := s.arming c :: s.stopped }
  else s

/-- The end of `_callout_stop_safe` with `CS_DRAIN`. -/
def drainReturn (s : Callouts C L) (c : C) : Callouts C L :=
  { unlinkPending s c with returned := c :: s.returned }

/-- `_callout_stop_safe` with `CS_DRAIN`, up to its return or to `msleep_spin`. -/
def callout_drain (s : Callouts C L) (c : C) : Callouts C L :=
  let s := { s with drained := c :: s.drained }
  if s.curr = some c then { s with waiting := true, drainers := s.drainers ++ [⟨c, false⟩] }
  else drainReturn s c

/-- `callout_process` up to its loops. -/
def callout_process (s : Callouts C L) (now : Nat) : Callouts C L :=
  let firstb := callout_hash s.lastscan
  let nowb := callout_hash now
  let lookahead := if nowb = firstb then SBT_1S / 16 else if nowb - firstb = 1 then SBT_1S / 8 else SBT_1S
  let last := (now + lookahead) / 2 ^ 24 * 2 ^ 24
  let lastb := callout_hash last - 1
  let wrapped : Bool := decide (callwheelsize ≤ lastb - firstb)
  { s with
    lastscan := now
    pc := .scan
    loop :=
      { firstb := firstb
        nowb := if wrapped ∧ callwheelsize ≤ nowb - firstb then firstb + callwheelsize - 1 else nowb
        lastb := if wrapped then firstb + callwheelsize - 1 else lastb
        last := last
        max := last
        pos := (s.wheel (firstb % callwheelsize)).head? }
    passStart := s.armings
    tried := [] }

/-- The processing thread goes on with the callout at `cc_next`. -/
def resumeScan (s : Callouts C L) : Callouts C L :=
  { s with loop := { s.loop with pos := s.next }, next := none, pc := .scan }

/-- A callout that is due is taken off its list, and the first part of `softclock_call_cc`. -/
def beginCallout (s : Callouts C L) (c : C) : Callouts C L :=
  let b := s.loop.firstb % callwheelsize
  { s with
    next := listNext c (s.wheel b)
    bucket := b
    wheel := update s.wheel b ((s.wheel b).erase c)
    pending := update s.pending c false
    tried := s.arming c :: s.tried
    curr := some c
    currArming := s.arming c
    cancel := false }

/-- The lock of a `CALLOUT_TRYLOCK` callout is not free: the callout is put back for later. -/
def putBack (s : Callouts C L) (c : C) : Callouts C L :=
  resumeScan (callout_cc_add { beginCallout s c with curr := none } c (s.lastscan + s.precision c / 2)
    (max (s.precision c / 2) 1) (s.arming c))

/-- `softclock_call_cc`, until `cc_lock` is dropped. -/
def softclock_call_cc (cfg : Config C L) (s : Callouts C L) (c : C) : Callouts C L :=
  match cfg.lock c with
  | none => { beginCallout s c with pc := .run, ran := s.arming c :: s.ran }
  | some l =>
    if cfg.trylock c then
      if s.owner l = none then
        { beginCallout s c with owner := update s.owner l (some .proc), pc := .start }
      else putBack s c
    else { beginCallout s c with pc := .lock }

/-- One round of the loops of `callout_process`. -/
def scanRound (cfg : Config C L) (s : Callouts C L) : Callouts C L :=
  match s.loop.pos with
  | some c =>
    let next := listNext c (s.wheel (s.loop.firstb % callwheelsize))
    if s.time c ≤ s.lastscan then softclock_call_cc cfg s c
    else if s.loop.max ≤ s.time c then { s with loop := { s.loop with pos := next } }
    else if s.loop.last < s.time c then { s with loop := { s.loop with lastb := s.loop.nowb, pos := next } }
    else
      { s with loop := { s.loop with last := min s.loop.last (s.time c + s.precision c), pos := next } }
  | none =>
    let firstb := s.loop.firstb + 1
    if firstb ≤ s.loop.lastb then
      { s with loop := { s.loop with firstb := firstb, pos := (s.wheel (firstb % callwheelsize)).head? } }
    else { s with loop := { s.loop with firstb := firstb }, pc := .idle }

def unlockProc (cfg : Config C L) (s : Callouts C L) (c : C) : Callouts C L :=
  match cfg.lock c with
  | none => s
  | some l => { s with owner := update s.owner l none }

inductive Act (C L : Type) where
  /-- The timer calls `callout_process`. -/
  | process (now : Nat)
  | scan
  | acquire
  | check
  | start
  | handlerReset (sbt precision : Nat)
  | handlerLock (l : L)
  /-- The handler drops a lock; that of its callout only with `CALLOUT_RETURNUNLOCKED`. -/
  | handlerUnlock (l : L)
  | finish
  /-- At `skip`. -/
  | done
  | wakeup
  | relock
  /-- Somebody else re-arms a callout that is not being drained. -/
  | reset (c : C) (sbt precision : Nat)
  | stop (o : Owner) (c : C)
  | drain (c : C)
  /-- A drain call that was woken up has `cc_lock` again. -/
  | drainWoken (k : Nat)
  | lockBy (t : Nat) (l : L)
  | unlockBy (t : Nat) (l : L)

/-- The lock of the callout is held by `o`, if it has one; the processing thread stops callouts in handlers. -/
def MayStop (cfg : Config C L) (s : Callouts C L) (o : Owner) (c : C) : Prop :=
  (∀ l ∈ cfg.lock c, s.owner l = some o) ∧ (o = .proc → s.pc = .run)

instance (cfg : Config C L) (s : Callouts C L) (o : Owner) (c : C) : Decidable (MayStop cfg s o c) :=
  inferInstanceAs (Decidable (_ ∧ _))

/-- One step; threads other than the processing thread need `cc_lock`. -/
def step (cfg : Config C L) (s : Callouts C L) : Act C L → Option (Callouts C L)
  | .process now => if s.pc = .idle ∧ s.lastscan ≤ now then some (callout_process s now) else none
  | .scan => if s.pc = .scan then some (scanRound cfg s) else none
  | .acquire =>
    match s.curr.bind cfg.lock with
    | some l =>
      if s.pc = .lock ∧ s.owner l = none then
        some { s with owner := update s.owner l (some .proc), pc := .check }
      else none
    | none => none
  | .check =>
    match s.curr with
    | some c =>
      if s.pc = .check then
        some (if s.cancel then { unlockProc cfg s c with pc := .finish } else { s with pc := .start })
      else none
    | none => none
  | .start =>
    if s.pc = .start then some { s with cancel := true, pc := .run, ran := s.currArming :: s.ran } else none
  | .handlerReset sbt precision =>
    match s.curr with
    | some c => if s.pc = .run then some (callout_reset cfg s c sbt precision) else none
    | none => none
  | .handlerLock l =>
    if s.pc = .run ∧ s.owner l = none then some { s with owner := update s.owner l (some .proc) } else none
  | .handlerUnlock l =>
    if s.pc = .run ∧ s.owner l = some .proc ∧
        (∀ c ∈ s.curr, cfg.lock c = some l → cfg.returnUnlocked c = true) then
      some { s with owner := update s.owner l none }
    else none
  | .finish =>
    match s.curr with
    | some c =>
      if s.pc = .run then
        if cfg.returnUnlocked c then
          if ∀ l ∈ cfg.lock c, s.owner l ≠ some .proc then some { s with pc := .finish } else none
        else some { unlockProc cfg s c with pc := .finish }
      else none
    | none => none
  | .done =>
    if s.pc = .finish then
      if s.waiting then some { s with curr := none, waiting := false, pc := .wake }
      else some (resumeScan { s with curr := none })
    else none
  | .wakeup =>
    if s.pc = .wake then some { s with drainers := s.drainers.map fun d => { d with woken := true }, pc := .relock }
    else none
  | .relock => if s.pc = .relock then some (resumeScan s) else none
  | .reset c sbt precision =>
    if s.pc ≠ .scan ∧ c ∉ s.drained then some (callout_reset cfg s c sbt precision) else none
  | .stop o c => if s.pc ≠ .scan ∧ MayStop cfg s o c then some (callout_stop cfg s c) else none
  | .drain c => if s.pc ≠ .scan then some (callout_drain s c) else none
  | .drainWoken k =>
    match s.drainers[k]? with
    | some ⟨c, true⟩ =>
      if s.pc ≠ .scan then some { drainReturn s c with drainers := s.drainers.eraseIdx k } else none
    | _ => none
  | .lockBy t l =>
    if s.owner l = none then some { s with owner := update s.owner l (some (.thread t)) } else none
  | .unlockBy t l =>
    if s.owner l = some (.thread t) then some { s with owner := update s.owner l none } else none

/-! ## What a step can do -/

inductive Move (cfg : Config C L) (s : Callouts C L) : Act C L → Callouts C L → Prop
  | process (now : Nat) (hpc : s.pc = .idle) (hnow : s.lastscan ≤ now) :
      Move cfg s (.process now) (callout_process s now)
  | call (c : C) (hpc : s.pc = .scan) (hpos : s.loop.pos = some c) (hdue : s.time c ≤ s.lastscan) :
      Move cfg s .scan (softclock_call_cc cfg s c)
  | pass (c : C) (loop : Scan C) (hpc : s.pc = .scan) (hpos : s.loop.pos = some c) (hdue : ¬ s.time c ≤ s.lastscan)
      (hfirst : loop.firstb = s.loop.firstb) (hnow : loop.nowb = s.loop.nowb)
      (hlast : loop.lastb = s.loop.lastb ∨ loop.lastb = s.loop.nowb)
      (hnext : loop.pos = listNext c (s.wheel (s.loop.firstb % callwheelsize))) : Move cfg s .scan { s with loop := loop }
  | bucket (hpc : s.pc = .scan) (hpos : s.loop.pos = none) (hlast : s.loop.firstb + 1 ≤ s.loop.lastb) :
      Move cfg s .scan
        { s with
          loop :=
            { s.loop with
              firstb := s.loop.firstb + 1
              pos := (s.wheel ((s.loop.firstb + 1) % callwheelsize)).head? } }
  | endPass (hpc : s.pc = .scan) (hpos : s.loop.pos = none) (hlast : ¬ s.loop.firstb + 1 ≤ s.loop.lastb) :
      Move cfg s .scan { s with loop := { s.loop with firstb := s.loop.firstb + 1 }, pc := .idle }
  | acquire (c : C) (l : L) (hcurr : s.curr = some c) (hlock : cfg.lock c = some l) (hpc : s.pc = .lock)
      (hfree : s.owner l = none) :
      Move cfg s .acquire { s with owner := update s.owner l (some .proc), pc := .check }
  | skip (c : C) (hcurr : s.curr = some c) (hpc : s.pc = .check) (hcancel : s.cancel = true) :
      Move cfg s .check { unlockProc cfg s c with pc := .finish }
  | sure (c : C) (hcurr : s.curr = some c) (hpc : s.pc = .check) (hcancel : s.cancel = false) :
      Move cfg s .check { s with pc := .start }
  | start (hpc : s.pc = .start) :
      Move cfg s .start { s with cancel := true, pc := .run, ran := s.currArming :: s.ran }
  | handlerReset (c : C) (sbt precision : Nat) (hcurr : s.curr = some c) (hpc : s.pc = .run) :
      Move cfg s (.handlerReset sbt precision) (callout_reset cfg s c sbt precision)
  | handlerLocks (a : Act C L) (owner : L → Option Owner) (hpc : s.pc = .run) : Move cfg s a { s with owner := owner }
  | finish (owner : L → Option Owner) (hpc : s.pc = .run) : Move cfg s .finish { s with owner := owner, pc := .finish }
  | wake (hpc : s.pc = .finish) (hwaiting : s.waiting = true) :
      Move cfg s .done { s with curr := none, waiting := false, pc := .wake }
  | done (hpc : s.pc = .finish) (hwaiting : s.waiting = false) :
      Move cfg s .done (resumeScan { s with curr := none })
  | wakeup (hpc : s.pc = .wake) :
      Move cfg s .wakeup { s with drainers := s.drainers.map fun d => { d with woken := true }, pc := .relock }
  | relock (hpc : s.pc = .relock) : Move cfg s .relock (resumeScan s)
  | reset (c : C) (sbt precision : Nat) (hpc : s.pc ≠ .scan) (hdrained : c ∉ s.drained) :
      Move cfg s (.reset c sbt precision) (callout_reset cfg s c sbt precision)
  | stop (o : Owner) (c : C) (hpc : s.pc ≠ .scan) (hmay : MayStop cfg s o c) :
      Move cfg s (.stop o c) (callout_stop cfg s c)
  | drain (c : C) (hpc : s.pc ≠ .scan) : Move cfg s (.drain c) (callout_drain s c)
  | drainWoken (k : Nat) (c : C) (hpc : s.pc ≠ .scan) (hk : s.drainers[k]? = some ⟨c, true⟩) :
      Move cfg s (.drainWoken k) { drainReturn s c with drainers := s.drainers.eraseIdx k }
  | lockBy (t : Nat) (l : L) (hfree : s.owner l = none) :
      Move cfg s (.lockBy t l) { s with owner := update s.owner l (some (.thread t)) }
  | unlockBy (t : Nat) (l : L) (hheld : s.owner l = some (.thread t)) :
      Move cfg s (.unlockBy t l) { s with owner := update s.owner l none }

variable {cfg : Config C L} {s t : Callouts C L}

theorem move_of_scan (hpc : s.pc = .scan) : Move cfg s .scan (scanRound cfg s) := by
  unfold scanRound
  cases hpos : s.loop.pos with
  | some c =>
    dsimp only
    split
    · rename_i hdue
      exact .call c hpc hpos hdue
    · rename_i hdue
      split
      · exact .pass c _ hpc hpos hdue rfl rfl (.inl rfl) rfl
      · split
        · exact .pass c _ hpc hpos hdue rfl rfl (.inr rfl) rfl
        · exact .pass c _ hpc hpos hdue rfl rfl (.inl rfl) rfl
  | none =>
    dsimp only
    split
    · rename_i hlast
      exact .bucket hpc hpos hlast
    · rename_i hlast
      exact .endPass hpc hpos hlast

/-- **What a step can do.** -/
theorem move_of_step {a : Act C L} (h : step cfg s a = some t) : Move cfg s a t := by
  cases a with
  | process now =>
    simp only [step] at h
    split at h
    · rename_i hg
      cases h
      exact .process now hg.1 hg.2
    · cases h
  | scan =>
    grind [step, move_of_scan]
  | acquire =>
    simp only [step] at h
    split at h
    · rename_i l hl
      obtain ⟨c, hcurr, hlock⟩ := Option.bind_eq_some_iff.mp hl
      split at h
      · rename_i hg
        cases h
        exact .acquire c l hcurr hlock hg.1 hg.2
      · cases h
    · cases h
  | check =>
    simp only [step] at h
    split at h
    · rename_i c hcurr
      split at h
      · rename_i hpc
        cases h
        split
        · rename_i hcancel
          exact .skip c hcurr hpc hcancel
        · rename_i hcancel
          exact .sure c hcurr hpc (by simpa using hcancel)
      · cases h
    · cases h
  | start =>
    simp only [step] at h
    split at h
    · rename_i hpc
      cases h
      exact .start hpc
    · cases h
  | handlerReset sbt precision =>
    simp only [step] at h
    split at h
    · rename_i c hcurr
      split at h
      · rename_i hpc
        cases h
        exact .handlerReset c sbt precision hcurr hpc
      · cases h
    · cases h
  | handlerLock l =>
    simp only [step] at h
    split at h
    · rename_i hg
      cases h
      exact .handlerLocks _ _ hg.1
    · cases h
  | handlerUnlock l =>
    simp only [step] at h
    split at h
    · rename_i hg
      cases h
      exact .handlerLocks _ _ hg.1
    · cases h
  | finish =>
    simp only [step] at h
    split at h
    · split at h
      · rename_i hpc
        split at h
        · split at h
          · cases h
            exact .finish _ hpc
          · cases h
        · cases h
          unfold unlockProc
          split
          · exact .finish _ hpc
          · exact .finish _ hpc
      · cases h
    · cases h
  | done =>
    simp only [step] at h
    split at h
    · rename_i hpc
      split at h
      · rename_i hw
        cases h
        exact .wake hpc hw
      · rename_i hw
        cases h
        exact .done hpc (by simpa using hw)
    · cases h
  | wakeup =>
    simp only [step] at h
    split at h
    · rename_i hpc
      cases h
      exact .wakeup hpc
    · cases h
  | relock =>
    simp only [step] at h
    split at h
    · rename_i hpc
      cases h
      exact .relock hpc
    · cases h
  | reset c sbt precision =>
    simp only [step] at h
    split at h
    · rename_i hg
      cases h
      exact .reset c sbt precision hg.1 hg.2
    · cases h
  | stop o c =>
    simp only [step] at h
    split at h
    · rename_i hg
      cases h
      exact .stop o c hg.1 hg.2
    · cases h
  | drain c =>
    simp only [step] at h
    split at h
    · rename_i hg
      cases h
      exact .drain c hg
    · cases h
  | drainWoken k =>
    simp only [step] at h
    split at h
    · rename_i c hk
      split at h
      · rename_i hg
        cases h
        exact .drainWoken k c hg hk
      · cases h
    · cases h
  | lockBy t l =>
    simp only [step] at h
    split at h
    · rename_i hg
      cases h
      exact .lockBy t l hg
    · cases h
  | unlockBy t l =>
    simp only [step] at h
    split at h
    · rename_i hg
      cases h
      exact .unlockBy t l hg
    · cases h

end Operations

end RtemsLibbsd.Callout
