import RtemsLibbsd.Transition
import RtemsLibbsd.Heap
import Mathlib.Algebra.BigOperators.Group.Finset.Basic
import Mathlib.Algebra.Order.BigOperators.Group.Finset
import Mathlib.Data.Nat.Bitwise
import Mathlib.Logic.Function.Basic

/-!
# Block requests of the NVMe disk driver

`rtemsbsd/sys/dev/nvd/nvd.c`: `nvd_request` starts one NVMe command for each buffer of a block request.
The number of commands that are not done is kept in the upper half of the `bufnum` field of the request,
and `nvd_request_done` calls `rtems_blkdev_request_done` when it decrements it to zero.  It is called by
the completion of a command, in any context, and by `nvd_request` for a command that cannot be started.

The steps of the loop and of the completions are interleaved in any order; a command may complete as soon
as it was submitted.  Loads, stores and the atomic decrement are single steps.

* `Phase` — how far the command of a buffer is; `write`, `dec` and `call` are the steps of the completion
  (or of the loop) that store the status, decrement the count and call `rtems_blkdev_request_done`.
* `Contract` — what the trace of a run has to be like.
* `Counted` — the invariant: the upper half of `bufnum` is the number of commands that are not done.
* `requestDone_once` — the result about all runs.
-/

namespace RtemsLibbsd.Nvd

open List Function Transition

/-! ## The driver -/

inductive Status where
  | successful | ioError | noMemory
  deriving DecidableEq

/-- `rtems_blkdev_sg_buffer`. -/
structure SgBuffer where
  block : Nat
  length : Nat
  buffer : Nat

/-- The parts of the request and of the disk that are read: whether it is a read, the buffers, the size
    of a media block, and `lb_per_media_block`. -/
structure Request where
  isRead : Bool
  bufs : Nat → SgBuffer
  mediaBlockSize : Nat
  lbPerMediaBlock : Nat

/-- The arguments of `nvme_ns_cmd_read` and `nvme_ns_cmd_write`. -/
structure Command where
  isRead : Bool
  buffer : Nat
  lba : Nat
  lbCount : Nat
  deriving DecidableEq

def Request.command (r : Request) (i : Nat) : Command :=
  let sg := r.bufs i
  { isRead := r.isRead
    buffer := sg.buffer
    lba := sg.block * r.lbPerMediaBlock % 2 ^ 32
    lbCount := sg.length / r.mediaBlockSize * r.lbPerMediaBlock % 2 ^ 32 }

/-- What can be seen: a buffer descriptor is read for a command, a command cannot be started, it completes
    (with an error or without), and `rtems_blkdev_request_done` is called, with the `bufnum` field at that
    time. -/
inductive Event where
  | read (i : Nat) (c : Command)
  | failed (i : Nat)
  | completed (i : Nat) (error : Bool)
  | done (status : Status) (bufnum : Nat)

/-- The command of a buffer: not submitted, submitted, and the steps of `nvd_completion` and
    `nvd_request_done` (or of the error case of the loop). -/
inductive Phase where
  | idle | flight | entered (error : Bool) | write (s : Status) | dec | call | finished
  deriving DecidableEq

/-- The loop of `nvd_request`: at its head, at the submission of a command, waiting for the steps of the
    error case, and behind it. -/
inductive Pc where
  | loop (i : Nat) | submit (i : Nat) | failing (i : Nat) | returned
  deriving DecidableEq

/-- The `status` and `bufnum` fields of the request, the loop, the commands, and the trace. -/
structure State where
  status : Status
  bufnum : Nat
  pc : Pc
  phase : Nat → Phase
  trace : List Event

def nvdBufnumShift : Nat := 16

def nvdBufnumDec : Nat := 2 ^ nvdBufnumShift

/-- `nvd_request` before its loop. -/
def nvdRequest (bufnum : Nat) : State :=
  ⟨.successful, bufnum ||| bufnum <<< nvdBufnumShift, .loop 0, fun _ => .idle, []⟩

inductive Action where
  | next
  | submit (accepted : Bool)
  | complete (i : Nat) (error : Bool)
  | advance (i : Nat)

def State.setPhase (k : State) (i : Nat) (p : Phase) : State :=
  { k with phase := update k.phase i p }

def Pc.resume (pc : Pc) (i : Nat) : Pc := if pc = .failing i then .loop (i + 1) else pc

/-- `atomic_fetch_sub_explicit` of an unsigned number of 32 bits. -/
def fetchSub (v d : Nat) : Nat := (v + 2 ^ 32 - d) % 2 ^ 32

/-- A step of `nvd_completion` or `nvd_request_done` for the command of a buffer. -/
def advance (k : State) (i : Nat) : Option State :=
  match k.phase i with
  | .entered error =>
    some (k.setPhase i (if error ∧ k.status = .successful then .write .ioError else .dec))
  | .write s => some { k.setPhase i .dec with status := s }
  | .dec =>
    if k.bufnum >>> nvdBufnumShift = 1 then
      some { k.setPhase i .call with bufnum := fetchSub k.bufnum nvdBufnumDec }
    else
      some { k.setPhase i .finished with
        bufnum := fetchSub k.bufnum nvdBufnumDec
        pc := k.pc.resume i }
  | .call =>
    some { k.setPhase i .finished with
      pc := k.pc.resume i
      trace := k.trace ++ [.done k.status k.bufnum] }
  | _ => none

/-- One step, with `bufnum` the variable of `nvd_request`. -/
def step (r : Request) (bufnum : Nat) (k : State) : Action → Option State
  | .next =>
    match k.pc with
    | .loop i =>
      if i < bufnum then some { k with pc := .submit i, trace := k.trace ++ [.read i (r.command i)] }
      else some { k with pc := .returned }
    | _ => none
  | .submit accepted =>
    match k.pc with
    | .submit i =>
      if accepted then some { k.setPhase i .flight with pc := .loop (i + 1) }
      else some { k.setPhase i (.write .noMemory) with pc := .failing i, trace := k.trace ++ [.failed i] }
    | _ => none
  | .complete i error =>
    if k.phase i = .flight then
      some { k.setPhase i (.entered error) with trace := k.trace ++ [.completed i error] }
    else none
  | .advance i => advance k i

/-! ## What has to hold -/

/-- Whether the event says that the command of a buffer succeeded or not. -/
def Event.outcome (i : Nat) : Event → Option Bool
  | .failed j => if j = i then some false else none
  | .completed j error => if j = i then some (!error) else none
  | _ => none

def outcomes (trace : List Event) (i : Nat) : List Bool := trace.filterMap (Event.outcome i)

def Event.isDone : Event → Bool
  | .done _ _ => true
  | _ => false

/-- **What a trace has to be like**: `rtems_blkdev_request_done` is called after each command has completed
    or failed to start, with the status of success exactly if all commands succeeded, with the original
    value of `bufnum` in the request; and nothing happens to the request after it. -/
def Contract (bufnum : Nat) (trace : List Event) : Prop :=
  ∀ before status n after, trace = before ++ .done status n :: after →
    after = [] ∧ n = bufnum ∧ before.countP Event.isDone = 0 ∧
    (∀ i < bufnum, (outcomes before i).length = 1) ∧
    (status = .successful ↔ ∀ i < bufnum, outcomes before i = [true])

/-! ## The invariant -/

/-- The command still counts in the upper half of `bufnum`. -/
def Phase.isOpen : Phase → Bool
  | .call | .finished => false
  | _ => true

def State.openCount (k : State) (n : Nat) : Nat := (List.range n).countP fun i => (k.phase i).isOpen

/-- The number of commands whose completion is about to call `rtems_blkdev_request_done`. -/
def State.callCount (k : State) (n : Nat) : Nat := (List.range n).countP fun i => k.phase i = .call

def Pc.index (n : Nat) : Pc → Nat
  | .loop i => i
  | .submit i => i
  | .failing i => i + 1
  | .returned => n

/-- What is known of the outcome of a command in each phase, while the status of the request is `s`. -/
def Phase.Fits (s : Status) (o : List Bool) : Phase → Prop
  | .idle | .flight => o = []
  | .entered error => o = [!error]
  | .write s' => o = [false] ∧ s' ≠ .successful
  | .dec | .call | .finished => o.length = 1 ∧ (s = .successful → o = [true])

structure Counted (n : Nat) (k : State) : Prop where
  bufnum : k.bufnum = n + nvdBufnumDec * k.openCount n
  done : k.trace.countP Event.isDone + k.callCount n = if k.openCount n = 0 then 1 else 0
  index : k.pc.index n ≤ n ∧ ∀ i, k.phase i = .idle ↔ k.pc.index n ≤ i
  submit : ∀ i, k.pc = .submit i → i < n
  failing : ∀ i, k.pc = .failing i → k.phase i = .dec ∨ k.phase i = .call ∨ ∃ s, k.phase i = .write s
  fits : ∀ i, (k.phase i).Fits k.status (outcomes k.trace i)
  error : k.status ≠ .successful → ∃ i < n, outcomes k.trace i = [false]
  contract : Contract n k.trace

theorem outcomes_append (t es : List Event) (i : Nat) :
    outcomes (t ++ es) i = outcomes t i ++ outcomes es i := filterMap_append

theorem openCount_setPhase {k : State} {n i : Nat} (hi : i < n) (p : Phase) :
    (k.setPhase i p).openCount n + (k.phase i).isOpen.toNat = k.openCount n + p.isOpen.toNat := by
  have h := @Heap.countP_range_update i n (fun j => ((k.setPhase i p).phase j).isOpen)
    (fun j => (k.phase j).isOpen) hi (by
      intro j hj
      simp [State.setPhase, hj])
  simpa [State.setPhase, State.openCount] using h

theorem callCount_setPhase {k : State} {n i : Nat} (hi : i < n) (p : Phase) :
    (k.setPhase i p).callCount n + (decide (k.phase i = .call)).toNat =
      k.callCount n + (decide (p = .call)).toNat := by
  have h := @Heap.countP_range_update i n (fun j => decide ((k.setPhase i p).phase j = .call))
    (fun j => decide (k.phase j = .call)) hi (by
      intro j hj
      simp [State.setPhase, hj])
  simpa [State.setPhase, State.callCount] using h

theorem openCount_pos {k : State} {n i : Nat} (hi : i < n) (ho : (k.phase i).isOpen = true) :
    0 < k.openCount n :=
  countP_pos_iff.mpr ⟨i, mem_range.mpr hi, ho⟩

theorem Phase.Fits.length_le {s : Status} {o : List Bool} {p : Phase} (h : p.Fits s o) : o.length ≤ 1 := by
  cases p with
  | idle | flight =>
    rw [show o = [] from h]
    exact Nat.zero_le _
  | entered error =>
    rw [show o = [!error] from h]
    exact Nat.le_refl _
  | write s' =>
    rw [h.1]
    exact Nat.le_refl _
  | dec | call | finished => exact Nat.le_of_eq h.1

section Steps

variable {n : Nat} {k : State}

variable {i : Nat}

/-- While a command counts, `rtems_blkdev_request_done` was not called. -/
theorem Counted.not_done (h : Counted n k) (hi : i < n) (ho : (k.phase i).isOpen = true) :
    k.trace.countP Event.isDone = 0 ∧ k.callCount n = 0 := by
  have hpos := openCount_pos hi ho
  have hdone := h.done
  rw [if_neg (by omega)] at hdone
  omega

theorem Counted.lt_of_phase (h : Counted n k) (hp : k.phase i ≠ .idle) : i < n := by
  have hlt : ¬ k.pc.index n ≤ i := fun hle => hp ((h.index.2 i).mpr hle)
  have := h.index.1
  omega

theorem contract_append {t es : List Event} (ht : t.countP Event.isDone = 0)
    (hes : es.countP Event.isDone = 0) : Contract n (t ++ es) := by
  intro before status m after heq
  have hcount := congrArg (List.countP Event.isDone) heq
  rw [countP_append, countP_append, countP_cons_of_pos rfl] at hcount
  omega

/-- The call of `rtems_blkdev_request_done` when no command counts any more. -/
theorem contract_done {t : List Event} {status : Status} {m : Nat} {phase : Nat → Phase}
    (ht : t.countP Event.isDone = 0) (hm : m = n)
    (hclosed : ∀ j < n, (phase j).Fits status (outcomes t j) ∧ (phase j).isOpen = false)
    (herror : status ≠ .successful → ∃ i < n, outcomes t i = [false]) :
    Contract n (t ++ [.done status m]) := by
  have hlen : ∀ j < n, (outcomes t j).length = 1 ∧ (status = .successful → outcomes t j = [true]) := by
    intro j hj
    obtain ⟨hfits, hclosed⟩ := hclosed j hj
    cases hp : phase j <;> rw [hp] at hfits hclosed <;>
      first
      | exact hfits
      | cases hclosed
  intro before status' m' after heq
  rcases eq_nil_or_concat' after with rfl | ⟨after, e, rfl⟩
  · obtain ⟨rfl, hlast⟩ := append_inj' heq rfl
    grind
  · rw [← cons_append, ← append_assoc] at heq
    have hpre := (append_inj' heq rfl).1
    rw [hpre, countP_append, countP_cons_of_pos rfl] at ht
    omega

/-- The command of one buffer makes a step and still counts afterwards.  `es` are the events of the
    step. -/
theorem Counted.move (i : Nat) (p : Phase) (es : List Event) (h : Counted n k) (hi : i < n)
    (hopen : (k.phase i).isOpen = true) (hp : p.isOpen = true)
    (hphase : k'.phase = (k.setPhase i p).phase) (hbufnum : k'.bufnum = k.bufnum)
    (htrace : k'.trace = k.trace ++ es) (hes : es.countP Event.isDone = 0)
    (hother : ∀ j ≠ i, outcomes es j = [])
    (hindex : k'.pc.index n ≤ n ∧ ∀ j, k'.phase j = .idle ↔ k'.pc.index n ≤ j)
    (hsubmit : ∀ j, k'.pc = .submit j → j < n)
    (hfailing : ∀ j, k'.pc = .failing j → k'.phase j = .dec ∨ k'.phase j = .call ∨ ∃ s, k'.phase j = .write s)
    (hstatus : k'.status = k.status ∨ (k'.status ≠ .successful ∧ outcomes k'.trace i = [false]))
    (hfits : p.Fits k'.status (outcomes k'.trace i)) : Counted n k' := by
  obtain ⟨hnot, hcall⟩ := h.not_done hi hopen
  have hpos := openCount_pos hi hopen
  have hopenCount : k'.openCount n = k.openCount n := by
    have := openCount_setPhase (k := k) hi p
    rw [hopen, hp] at this
    unfold State.openCount at this ⊢
    rw [hphase]
    omega
  have hcallCount : k'.callCount n = 0 := by
    have hne : ∀ q : Phase, q.isOpen = true → q ≠ .call := by
      rintro q hq rfl
      cases hq
    have := callCount_setPhase (k := k) hi p
    grind [State.callCount]
  have hout : ∀ j ≠ i, outcomes k'.trace j = outcomes k.trace j := by
    intro j hj
    rw [htrace, outcomes_append, hother j hj, append_nil]
  constructor
  · rw [hbufnum, hopenCount]
    exact h.bufnum
  · rw [htrace, countP_append, hnot, hes, hcallCount, if_neg (by omega)]
  · exact hindex
  · exact hsubmit
  · exact hfailing
  · intro j
    by_cases hj : j = i
    · subst hj
      rw [hphase]
      simpa [State.setPhase] using hfits
    · have hold := h.fits j
      rw [hphase, hout j hj]
      simp only [State.setPhase, update_of_ne hj]
      rcases hstatus with hs | ⟨hs, -⟩
      · rw [hs]
        exact hold
      · -- a status that is not the one of success asks for less
        cases hq : k.phase j <;> rw [hq] at hold <;>
          first
          | exact hold
          | exact ⟨hold.1, fun hc => absurd hc hs⟩
  · intro hs
    rcases hstatus with heq | ⟨-, hfalse⟩
    · obtain ⟨j, hj, hj'⟩ := h.error (heq ▸ hs)
      by_cases hji : j = i
      · subst hji
        -- there is no second outcome
        have hlen := hfits.length_le
        have heq' : outcomes k'.trace j = [false] ++ outcomes es j := by rw [htrace, outcomes_append, hj']
        rw [heq', length_append] at hlen
        have hnil : outcomes es j = [] := length_eq_zero_iff.mp (by simpa using hlen)
        exact ⟨j, hi, by rw [heq', hnil]; rfl⟩
      · exact ⟨j, hj, (hout j hji).trans hj'⟩
    · exact ⟨i, hi, hfalse⟩
  · rw [htrace]
    exact contract_append hnot hes

theorem counted_nvdRequest (hn : 0 < n) (hmax : n < nvdBufnumDec) : Counted n (nvdRequest n) := by
  have hopen : (nvdRequest n).openCount n = n := by
    simp [State.openCount, nvdRequest, Phase.isOpen]
  constructor
  · grind [Nat.two_pow_add_eq_or_of_lt, nvdBufnumDec, nvdRequest, Nat.shiftLeft_eq, Nat.mul_comm]
  · rw [hopen, if_neg (by omega)]
    simp [State.callCount, nvdRequest]
  · exact ⟨Nat.zero_le _, fun i => iff_of_true rfl (Nat.zero_le _)⟩
  · exact nofun
  · exact nofun
  · exact fun _ => rfl
  · exact fun h => absurd rfl h
  · intro before status m after heq
    exact absurd heq.symm (by simp [nvdRequest])

variable {k' : State} {r : Request}

theorem Counted.fetchSub (h : Counted n k) (hmax : n < nvdBufnumDec) (hpos : 0 < k.openCount n) :
    Nvd.fetchSub k.bufnum nvdBufnumDec = n + nvdBufnumDec * (k.openCount n - 1) := by
  grind [State.openCount, countP_le_length, Nvd.fetchSub, h.bufnum, nvdBufnumDec, nvdBufnumShift]

/-- The upper half of `bufnum` is the number of commands that count. -/
theorem Counted.shift (h : Counted n k) (hmax : n < nvdBufnumDec) :
    k.bufnum >>> nvdBufnumShift = k.openCount n := by
  rw [h.bufnum, Nat.shiftRight_eq_div_pow]
  simp only [nvdBufnumDec, nvdBufnumShift] at hmax ⊢
  omega

theorem all_closed (h : k.openCount n = 0) (hi : i < n) : (k.phase i).isOpen = false := by
  have := countP_eq_zero.mp h i (mem_range.mpr hi)
  simpa using this

theorem index_resume (pc : Pc) (i : Nat) : (pc.resume i).index n = pc.index n := by
  unfold Pc.resume
  split <;> rename_i h
  · rw [h]
    rfl
  · rfl

theorem resume_ne_failing {pc : Pc} {i j : Nat} (h : pc.resume i = .failing j) : pc = .failing j ∧ j ≠ i := by
  unfold Pc.resume at h
  split at h <;> rename_i hpc
  · cases h
  · refine ⟨h, ?_⟩
    rintro rfl
    exact hpc h

theorem resume_eq_submit {pc : Pc} {i j : Nat} (h : pc.resume i = .submit j) : pc = .submit j := by
  unfold Pc.resume at h
  split at h
  · cases h
  · exact h

theorem Counted.index_setPhase (h : Counted n k) {p : Phase} (hold : k.phase i ≠ .idle)
    (hp : p ≠ .idle) (j : Nat) : (k.setPhase i p).phase j = .idle ↔ k.pc.index n ≤ j := by
  rw [← h.index.2 j]
  by_cases hj : j = i
  · subst hj
    simp [State.setPhase, hp, hold]
  · simp [State.setPhase, hj]

/-- The step of `nvd_request_done` that decrements the count.  It is the last one exactly if the call of
    `rtems_blkdev_request_done` is next. -/
theorem Counted.decrement (i : Nat) (q : Phase) (h : Counted n k) (hmax : n < nvdBufnumDec) (hi : i < n)
    (hp : k.phase i = .dec)
    (hq : (q = .call ∧ k.openCount n = 1) ∨ (q = .finished ∧ k.openCount n ≠ 1))
    (hphase : k'.phase = (k.setPhase i q).phase)
    (hbufnum : k'.bufnum = Nvd.fetchSub k.bufnum nvdBufnumDec) (htrace : k'.trace = k.trace)
    (hstatus : k'.status = k.status) (hindex : k'.pc.index n = k.pc.index n)
    (hsubmit : ∀ j, k'.pc = .submit j → j < n)
    (hfailing : ∀ j, k'.pc = .failing j → k'.phase j = .dec ∨ k'.phase j = .call ∨ ∃ s, k'.phase j = .write s) :
    Counted n k' := by
  have hopen : (k.phase i).isOpen = true := by simp [hp, Phase.isOpen]
  have hpos := openCount_pos hi hopen
  obtain ⟨hnot, hcall⟩ := h.not_done hi hopen
  have hclosed : q.isOpen = false ∧ q ≠ .idle := by rcases hq with ⟨rfl, -⟩ | ⟨rfl, -⟩ <;> exact ⟨rfl, nofun⟩
  have hcount : k'.openCount n = k.openCount n - 1 := by
    have := openCount_setPhase (k := k) hi q
    grind [State.openCount]
  have hcalls : k'.callCount n = (decide (q = .call)).toNat := by
    have := callCount_setPhase (k := k) hi q
    grind [State.callCount]
  constructor
  · rw [hbufnum, h.fetchSub hmax hpos, hcount]
  · grind
  · rw [hindex, hphase]
    exact ⟨h.index.1, h.index_setPhase (by simp [hp]) hclosed.2⟩
  · exact hsubmit
  · exact hfailing
  · intro j
    rw [hphase, htrace, hstatus]
    by_cases hj : j = i
    · subst hj
      have hfit := h.fits j
      rw [hp] at hfit
      simp only [State.setPhase, update_self]
      rcases hq with ⟨rfl, -⟩ | ⟨rfl, -⟩ <;> exact hfit
    · simpa [State.setPhase, hj] using h.fits j
  · rw [hstatus, htrace]
    exact h.error
  · rw [htrace]
    exact h.contract

theorem Counted.callDone (i : Nat) (h : Counted n k) (hi : i < n) (hp : k.phase i = .call)
    (hphase : k'.phase = (k.setPhase i .finished).phase) (hbufnum : k'.bufnum = k.bufnum)
    (htrace : k'.trace = k.trace ++ [.done k.status k.bufnum]) (hstatus : k'.status = k.status)
    (hindex : k'.pc.index n = k.pc.index n) (hsubmit : ∀ j, k'.pc = .submit j → j < n)
    (hfailing : ∀ j, k'.pc = .failing j → k'.phase j = .dec ∨ k'.phase j = .call ∨ ∃ s, k'.phase j = .write s) :
    Counted n k' := by
  have hcall : 0 < k.callCount n :=
    countP_pos_iff.mpr ⟨i, mem_range.mpr hi, decide_eq_true hp⟩
  have hdone := h.done
  have hopen : k.openCount n = 0 := by
    by_contra hne
    rw [if_neg hne] at hdone
    omega
  rw [if_pos hopen] at hdone
  have hnot : k.trace.countP Event.isDone = 0 := by omega
  have hopen' : k'.openCount n = 0 := by
    have := openCount_setPhase (k := k) hi .finished
    grind [State.openCount, Phase.isOpen]
  have hcall' : k'.callCount n = 0 := by
    have := callCount_setPhase (k := k) hi .finished
    grind [State.callCount]
  have hout : ∀ j, outcomes k'.trace j = outcomes k.trace j := by
    intro j
    rw [htrace, outcomes_append]
    exact append_nil _
  constructor
  · rw [hbufnum, hopen', h.bufnum, hopen]
  · rw [htrace, countP_append, hnot, hcall', if_pos hopen']
    rfl
  · rw [hindex, hphase]
    exact ⟨h.index.1, h.index_setPhase (by simp [hp]) nofun⟩
  · exact hsubmit
  · exact hfailing
  · intro j
    rw [hphase, hstatus, hout]
    by_cases hj : j = i
    · subst hj
      have hfit := h.fits j
      rw [hp] at hfit
      simp only [State.setPhase, update_self]
      exact hfit
    · simpa [State.setPhase, hj] using h.fits j
  · rw [hstatus]
    simp only [hout]
    exact h.error
  · have hm : k.bufnum = n := by simp [h.bufnum, hopen]
    rw [htrace]
    exact contract_done hnot hm (fun j hj => ⟨h.fits j, all_closed hopen hj⟩) h.error

theorem counted_advance (hmax : n < nvdBufnumDec) (h : Counted n k) (hs : advance k i = some k') :
    Counted n k' := by
  have hfit := h.fits i
  unfold advance at hs
  split at hs <;> rename_i hp <;> try rw [hp] at hfit
  · -- the completion tests the error and the status
    rename_i error
    cases hs
    have hi := h.lt_of_phase (i := i) (by simp [hp])
    obtain ⟨q, hq⟩ : ∃ q : Phase, q = if error ∧ k.status = .successful then .write .ioError else .dec :=
      ⟨_, rfl⟩
    have hqo : q.isOpen = true ∧ q ≠ .idle ∧ q.Fits k.status (outcomes k.trace i) := by
      have ho : outcomes k.trace i = [!error] := hfit
      rw [hq, ho]
      split <;> rename_i hcond
      · obtain ⟨rfl, hst⟩ := hcond
        exact ⟨rfl, nofun, rfl, nofun⟩
      · refine ⟨rfl, nofun, rfl, fun hst => ?_⟩
        cases error with
        | false => rfl
        | true => exact absurd ⟨rfl, hst⟩ hcond
    rw [← hq]
    refine h.move i q [] hi (by simp [hp, Phase.isOpen]) hqo.1 rfl rfl (by simp [State.setPhase]) rfl
      (fun _ _ => rfl) ⟨h.index.1, h.index_setPhase (by simp [hp]) hqo.2.1⟩ h.submit ?_ (.inl rfl) hqo.2.2
    intro j hj
    have hji : j ≠ i := by
      rintro rfl
      simpa [hp] using h.failing j hj
    simpa [State.setPhase, hji] using h.failing j hj
  · -- the status is stored
    cases hs
    have hi := h.lt_of_phase (i := i) (by simp [hp])
    refine h.move i .dec [] hi (by simp [hp, Phase.isOpen]) rfl rfl rfl (by simp [State.setPhase]) rfl
      (fun _ _ => rfl) ⟨h.index.1, h.index_setPhase (by simp [hp]) nofun⟩ h.submit ?_
      (.inr ⟨hfit.2, hfit.1⟩) ⟨by simp [State.setPhase, hfit.1], fun hst => absurd hst hfit.2⟩
    intro j hj
    by_cases hji : j = i
    · subst hji
      exact .inl (by simp [State.setPhase])
    · simpa [State.setPhase, hji] using h.failing j hj
  · -- the count is decremented
    have hi := h.lt_of_phase (i := i) (by simp [hp])
    have hshift := h.shift hmax
    split at hs <;> rename_i hone <;> rw [hshift] at hone <;> cases hs
    · refine h.decrement i .call hmax hi hp (.inl ⟨rfl, hone⟩) rfl rfl rfl rfl rfl h.submit ?_
      intro j hj
      by_cases hji : j = i
      · subst hji
        exact .inr (.inl (by simp [State.setPhase]))
      · simpa [State.setPhase, hji] using h.failing j hj
    · refine h.decrement i .finished hmax hi hp (.inr ⟨rfl, hone⟩) rfl rfl rfl rfl (index_resume _ _)
        (fun j hj => h.submit j (resume_eq_submit hj)) ?_
      intro j hj
      obtain ⟨hj, hji⟩ := resume_ne_failing hj
      simpa [State.setPhase, hji] using h.failing j hj
  · -- the request is done
    cases hs
    have hi := h.lt_of_phase (i := i) (by simp [hp])
    refine h.callDone i hi hp rfl rfl rfl rfl (index_resume _ _)
      (fun j hj => h.submit j (resume_eq_submit hj)) ?_
    intro j hj
    obtain ⟨hj, hji⟩ := resume_ne_failing hj
    simpa [State.setPhase, hji] using h.failing j hj
  · cases hs

theorem counted_step (hmax : n < nvdBufnumDec) {a : Action} (h : Counted n k)
    (hs : step r n k a = some k') : Counted n k' := by
  cases a with
  | next =>
    simp only [step] at hs
    split at hs <;> rename_i hpc
    · rename_i i
      split at hs <;> rename_i hi <;> cases hs
      · have hidle : k.phase i = .idle := (h.index.2 i).mpr (by rw [hpc]; exact Nat.le_refl _)
        have hout : ∀ j, outcomes (k.trace ++ [.read i (r.command i)]) j = outcomes k.trace j := by
          intro j
          rw [outcomes_append]
          exact append_nil _
        obtain ⟨hnot, -⟩ := h.not_done hi (by rw [hidle]; rfl)
        have hindex := h.index
        rw [hpc] at hindex
        refine ⟨h.bufnum, ?_, hindex, ?_, nofun, ?_, ?_, contract_append hnot rfl⟩
        · have hdone := h.done
          rw [hnot] at hdone
          simp only [countP_append, hnot]
          exact hdone
        · rintro j ⟨⟩
          exact hi
        · intro j
          simp only [hout]
          exact h.fits j
        · intro hst
          simp only [hout]
          exact h.error hst
      · have hin : i = n := by
          have := h.index.1
          rw [hpc] at this
          simp only [Pc.index] at this
          omega
        have hindex := h.index
        rw [hpc, hin] at hindex
        exact ⟨h.bufnum, h.done, hindex, nofun, nofun, h.fits, h.error, h.contract⟩
    · cases hs
  | submit accepted =>
    simp only [step] at hs
    split at hs <;> rename_i hpc
    · rename_i i
      have hi := h.submit i hpc
      have hidx := h.index.2
      rw [hpc] at hidx
      have hidle : k.phase i = .idle := (hidx i).mpr (Nat.le_refl _)
      have hfit := h.fits i
      rw [hidle] at hfit
      -- the command is the next one
      have hindex : ∀ p : Phase, p ≠ .idle → ∀ j, (k.setPhase i p).phase j = .idle ↔ i + 1 ≤ j := by
        intro p hp j
        by_cases hj : j = i
        · subst hj
          simp [State.setPhase, hp]
        · simp only [State.setPhase, update_of_ne hj, hidx j, Pc.index]
          omega
      split at hs <;> cases hs
      · exact h.move i .flight [] hi (by rw [hidle]; rfl) rfl rfl rfl (by simp [State.setPhase]) rfl (fun _ _ => rfl)
          ⟨hi, hindex .flight nofun⟩ nofun nofun (.inl rfl) hfit
      · have hout : outcomes (k.trace ++ [.failed i]) i = [false] := by
          rw [outcomes_append, show outcomes k.trace i = [] from hfit]
          simp [outcomes, Event.outcome]
        refine h.move i (.write .noMemory) [.failed i] hi (by rw [hidle]; rfl) rfl rfl rfl rfl rfl ?_
          ⟨hi, hindex (.write .noMemory) nofun⟩ nofun ?_ (.inl rfl) ⟨hout, nofun⟩
        · intro j hj
          simp [outcomes, Event.outcome, Ne.symm hj]
        · rintro j ⟨⟩
          exact .inr (.inr ⟨.noMemory, by simp [State.setPhase]⟩)
    · cases hs
  | complete i error =>
    obtain ⟨hp, ⟨⟩⟩ := Option.ite_none_right_eq_some.mp hs
    have hi := h.lt_of_phase (i := i) (by simp [hp])
    have hfit := h.fits i
    refine h.move i (.entered error) [.completed i error] hi (by rw [hp]; rfl) rfl rfl rfl rfl rfl ?_
      ⟨h.index.1, h.index_setPhase (by simp [hp]) nofun⟩ h.submit ?_ (.inl rfl) ?_
    · intro j hj
      simp [outcomes, Event.outcome, Ne.symm hj]
    · intro j hj
      have hji : j ≠ i := by
        rintro rfl
        simpa [hp] using h.failing j hj
      simpa [State.setPhase, hji] using h.failing j hj
    · grind [outcomes, Event.outcome, Phase.Fits]
  | advance i => exact counted_advance hmax h hs

/-! ## Termination -/

/-- How many steps of the command of a buffer are left at most. -/
def Phase.rank : Phase → Nat
  | .idle => 6
  | .flight => 5
  | .entered _ => 4
  | .write _ => 3
  | .dec => 2
  | .call => 1
  | .finished => 0

def Pc.rank (n : Nat) : Pc → Nat
  | .loop i => 3 * (n - i) + 1
  | .submit i => 3 * (n - i)
  | .failing i => 3 * (n - i) - 1
  | .returned => 0

def State.rank (n : Nat) (k : State) : Nat := k.pc.rank n + ∑ i ∈ Finset.range n, (k.phase i).rank

theorem State.rank_lt (p : Phase) (hi : i < n) (hphase : k'.phase = update k.phase i p)
    (hpc : k'.pc.rank n ≤ k.pc.rank n) (hp : p.rank < (k.phase i).rank) : k'.rank n < k.rank n := by
  refine Nat.add_lt_add_of_le_of_lt hpc (Finset.sum_lt_sum ?_ ?_)
  · intro j _
    rw [hphase]
    by_cases hj : j = i
    · subst hj
      simpa using Nat.le_of_lt hp
    · simp [hj]
  · refine ⟨i, Finset.mem_range.mpr hi, ?_⟩
    rw [hphase]
    simpa using hp

theorem rank_resume_le (pc : Pc) (hi : i < n) : (pc.resume i).rank n ≤ pc.rank n := by
  unfold Pc.resume
  split <;> rename_i h
  · rw [h]
    simp only [Pc.rank]
    omega
  · exact Nat.le_refl _

theorem rank_step {a : Action} (h : Counted n k) (hs : step r n k a = some k') : k'.rank n < k.rank n := by
  cases a with
  | next =>
    grind [step, State.rank, Pc.rank]
  | submit accepted =>
    simp only [step] at hs
    split at hs <;> rename_i hpc
    · rename_i i
      have hi := h.submit i hpc
      have hidle : k.phase i = .idle := (h.index.2 i).mpr (by rw [hpc]; exact Nat.le_refl _)
      split at hs <;> cases hs
      · exact State.rank_lt .flight hi rfl (by simp only [hpc, Pc.rank]; omega) (by simp [hidle, Phase.rank])
      · exact State.rank_lt (.write .noMemory) hi rfl (by simp only [hpc, Pc.rank]; omega) (by simp [hidle, Phase.rank])
    · cases hs
  | complete i error =>
    obtain ⟨hp, ⟨⟩⟩ := Option.ite_none_right_eq_some.mp hs
    have hi := h.lt_of_phase (i := i) (by simp [hp])
    exact State.rank_lt (.entered error) hi rfl (Nat.le_refl _) (by simp [hp, Phase.rank])
  | advance i =>
    simp only [step] at hs
    unfold advance at hs
    split at hs <;> rename_i hp
    · cases hs
      have hi := h.lt_of_phase (i := i) (by simp [hp])
      refine State.rank_lt _ hi rfl (Nat.le_refl _) ?_
      rw [hp]
      split <;> simp [Phase.rank]
    · cases hs
      have hi := h.lt_of_phase (i := i) (by simp [hp])
      exact State.rank_lt .dec hi rfl (Nat.le_refl _) (by simp [hp, Phase.rank])
    · have hi := h.lt_of_phase (i := i) (by simp [hp])
      split at hs <;> cases hs
      · exact State.rank_lt .call hi rfl (Nat.le_refl _) (by simp [hp, Phase.rank])
      · exact State.rank_lt .finished hi rfl (rank_resume_le _ hi) (by simp [hp, Phase.rank])
    · have hi := h.lt_of_phase (i := i) (by simp [hp])
      cases hs
      exact State.rank_lt .finished hi rfl (rank_resume_le _ hi) (by simp [hp, Phase.rank])
    · cases hs

/-- When nothing is left to do, `rtems_blkdev_request_done` was called. -/
theorem Counted.done_of_final (h : Counted n k) (hfinal : ∀ a, step r n k a = none) :
    k.trace.countP Event.isDone = 1 := by
  have hpc : k.pc = .returned := by
    cases hpc : k.pc with
    | loop i =>
      have := hfinal .next
      simp only [step, hpc] at this
      split at this <;> cases this
    | submit i =>
      have := hfinal (.submit true)
      simp [step, hpc] at this
    | failing i =>
      have := hfinal (.advance i)
      grind [step, advance, h.failing]
    | returned => rfl
  have hfinished : ∀ i < n, k.phase i = .finished := by
    intro i hi
    have hidle : k.phase i ≠ .idle := by
      rw [Ne, h.index.2 i, hpc]
      simpa [Pc.index] using hi
    have hadvance := hfinal (.advance i)
    simp only [step, advance] at hadvance
    cases hp : k.phase i with
    | idle => exact absurd hp hidle
    | flight =>
      have := hfinal (.complete i false)
      simp [step, hp] at this
    | dec =>
      rw [hp] at hadvance
      simp only at hadvance
      split at hadvance <;> cases hadvance
    | finished => rfl
    | entered | write | call => simp [hp] at hadvance
  have hopen : k.openCount n = 0 := by
    grind [Phase.isOpen, State.openCount]
  have hcall : k.callCount n = 0 := by
    grind [State.callCount]
  have hdone := h.done
  rw [hopen, hcall, if_pos rfl] at hdone
  exact hdone

end Steps

/-! ## Runs -/

/-- **`rtems_blkdev_request_done` is called exactly once** for a request with 1 to 65535 buffers: every run is
    finite, when nothing is left to do the last event is the call, and the trace of every run meets the
    contract. -/
theorem requestDone_once {r : Request} {bufnum : Nat} {as : List Action} {k : State} (hpos : 0 < bufnum)
    (hmax : bufnum ≤ 65535) (hr : run (step r bufnum) (nvdRequest bufnum) as = some k) :
    Contract bufnum k.trace ∧ as.length ≤ 9 * bufnum + 1 ∧
    ((∀ a, step r bufnum k a = none) → ∃ before status, k.trace = before ++ [.done status bufnum]) := by
  have hmax : bufnum < nvdBufnumDec := Nat.lt_succ_of_le hmax
  have hboot := counted_nvdRequest hpos hmax
  have hk := run_invariant (fun _ _ _ => counted_step hmax) as _ k hboot hr
  refine ⟨hk.contract, ?_, ?_⟩
  · have hlen := run_length_le (fun _ _ _ h hs => ⟨counted_step hmax h hs, rank_step h hs⟩) as _ k hboot hr
    have hrank : (nvdRequest bufnum).rank bufnum = 9 * bufnum + 1 := by
      simp only [State.rank, nvdRequest, Pc.rank, Phase.rank, Finset.sum_const, Finset.card_range, nsmul_eq_mul,
        Nat.cast_id]
      omega
    omega
  · intro hfinal
    have hone := hk.done_of_final hfinal
    obtain ⟨e, he, hdone⟩ := countP_pos_iff.mp (hone ▸ Nat.one_pos)
    obtain ⟨before, after, heq⟩ := append_of_mem he
    cases e with
    | done status n =>
      obtain ⟨rfl, rfl, -⟩ := hk.contract before status n after heq
      exact ⟨before, status, heq⟩
    | read | failed | completed => cases hdone

/-- Two buffers: the first command completes before the second one is submitted, which fails. -/
theorem requestDone_once_twoBuffers :
    ∃ k, run (step ⟨true, fun i => ⟨i, 512, i⟩, 512, 1⟩ 2) (nvdRequest 2)
        [.next, .submit true, .complete 0 false, .advance 0, .advance 0, .next, .submit false, .advance 1,
          .advance 1, .advance 1, .next] = some k ∧
      k.trace = [.read 0 ⟨true, 0, 0, 1⟩, .completed 0 false, .read 1 ⟨true, 1, 1, 1⟩, .failed 1,
        .done .noMemory 2] ∧
      Contract 2 k.trace := by
  obtain ⟨k, hr, htrace⟩ : ∃ k, run (step ⟨true, fun i => ⟨i, 512, i⟩, 512, 1⟩ 2) (nvdRequest 2)
      [.next, .submit true, .complete 0 false, .advance 0, .advance 0, .next, .submit false, .advance 1,
        .advance 1, .advance 1, .next] = some k ∧
    k.trace = [.read 0 ⟨true, 0, 0, 1⟩, .completed 0 false, .read 1 ⟨true, 1, 1, 1⟩, .failed 1,
      .done .noMemory 2] := ⟨_, rfl, rfl⟩
  exact ⟨k, hr, htrace, (requestDone_once (by decide) (by decide) hr).1⟩

end RtemsLibbsd.Nvd
