import Mathlib.Logic.Function.Basic
import RtemsLibbsd.Slist
import RtemsLibbsd.Transition

/-!
# Waiters of preemptible epoch sections

Model of `epoch_enter_preempt`, `epoch_exit_preempt`, `epoch_register_mutex` and
`epoch_block_handler_preempt` of `rtemsbsd/rtems/rtems-kernel-epoch.c`, the part of them that lets
`epoch_wait_preempt` wait for an open section.

* `et_td` and `et_mtx` of the trackers, the lists `er_tdlist` of the records and the memory of the
  tracker mutexes are as in the code.  A tracker mutex is on the stack of the thread that is in
  `epoch_block_handler_preempt`; when the thread has returned, anything may be written there.
* The removal of a tracker from `er_tdlist`, with interrupts disabled, is one step.  So is
  `epoch_register_mutex`: it runs on the processor of the record, as an action of that processor or with
  thread dispatching disabled, and it is taken for granted that no other action comes in between.
  Every unlock of `epoch_exit_preempt` and every advance of its `SLIST_FOREACH` is a step, and so are `rtems_mutex_lock` and the unlock,
  destroy and return at the end of the handler.
* A mutex has an owner and at most one thread waiting for it, the one on whose stack it is.
* For which records `ck_epoch_synchronize_wait` calls the handler, and when, is left to the
  environment; the sections themselves and the resource counts of the threads are left out.
* `Frame`, the numbers of the sections and what follows `State.frame` are not read by the code.

Every registered waiter is released exactly once as long as a released waiter does not return before
`epoch_exit_preempt` has read the link of its tracker mutex: `orderly_of_inFrame`.  But that link is
always read after the unlock; no read is late in exactly the runs in which no exit finds a waiter,
`punctual_iff_no_waiter`.
-/

namespace RtemsLibbsd.Epoch.Waiters

open Option RtemsLibbsd.Slist RtemsLibbsd.Transition
open Function (update update_eq_self update_of_ne update_self)

/-- `struct epoch_tracker_mutex`: `etm_link`, the owner of `etm_mtx`, the thread that waits for it,
    and `etm_record`. -/
structure Cell where
  link : Option Nat
  owner : Option Nat
  heads : Option Nat
  record : Nat

/-- `rtems_mutex_unlock`: the waiting thread, if there is one, becomes the owner. -/
def Cell.unlock (c : Cell) : Cell := { c with owner := c.heads, heads := none }

/-- Where a thread is.  `unlocking` and `unlocked` are in the loop of `epoch_exit_preempt` for the
    tracker `et`, at the tracker mutex `etm`; the last four are in `epoch_block_handler_preempt`.
    The number of an `unlocked` thread is the waiter it has released. -/
inductive Pc where
  | run
  | unlocking (et etm : Nat)
  | unlocked (et etm : Nat) (waiter : Option Nat)
  | registering (etm : Nat)
  | locking (etm : Nat)
  | blocked (etm : Nat)
  | locked (etm : Nat)
  deriving DecidableEq

def Pc.exiting : Pc → Option Nat
  | .unlocking et _ | .unlocked et _ _ => some et
  | _ => none

def Pc.tracker : Pc → Option Nat
  | .registering etm | .locking etm | .blocked etm | .locked etm => some etm
  | _ => none

def Pc.woken : Pc → Pc
  | .blocked etm => .locked etm
  | pc => pc

/-- An activation of `epoch_block_handler_preempt`. -/
structure Frame where
  thread : Nat
  number : Nat

structure State where
  /-- `er_tdlist`. -/
  tdlist : Nat → List Nat
  /-- `et_td`. -/
  td : Nat → Nat
  /-- The first entry of `et_mtx`. -/
  mtx : Nat → Option Nat
  cell : Nat → Cell
  pc : Nat → Pc
  frame : Nat → Option Frame
  nextFrame : Nat
  /-- Whether the tracker is in use, the number of its section, and whether the section was left. -/
  busy : Nat → Bool
  sect : Nat → Nat
  nextSection : Nat
  left : Nat → Bool
  /-- The section on which a waiter was registered, and how often it was released by an exit. -/
  on : Nat → Option Nat
  releases : Nat → Nat

namespace State

def setPc (s : State) (t : Nat) (pc : Pc) : State := { s with pc := update s.pc t pc }

/-- The waiter whose tracker mutex is at `etm`. -/
def waiterAt (s : State) (etm : Nat) : Option Nat := (s.frame etm).map Frame.number

/-- The head of the loop of `epoch_exit_preempt`. -/
def loop (s : State) (t et : Nat) (etm : Option Nat) : State :=
  match etm with
  | some etm => s.setPc t (.unlocking et etm)
  | none =>
    { s.setPc t .run with
      busy := update s.busy et false
      left := update s.left (s.sect et) true }

/-- `epoch_enter_preempt`. -/
def enter (s : State) (c t et : Nat) : State :=
  { s with
    tdlist := update s.tdlist c (s.tdlist c ++ [et])
    td := update s.td et t
    mtx := update s.mtx et none
    busy := update s.busy et true
    sect := update s.sect et s.nextSection
    nextSection := s.nextSection + 1 }

/-- `epoch_exit_preempt` up to the loop. -/
def exit (s : State) (c t et : Nat) : State :=
  { s with tdlist := update s.tdlist c ((s.tdlist c).erase et) }.loop t et (s.mtx et)

/-- One `rtems_mutex_unlock` of the loop. -/
def unlock (s : State) (t et etm : Nat) : State :=
  let woken := match (s.cell etm).heads with
    | some w => update s.pc w (s.pc w).woken
    | none => s.pc
  { s with
    pc := update woken t (.unlocked et etm (s.waiterAt etm))
    cell := update s.cell etm (s.cell etm).unlock
    releases := match s.waiterAt etm with
      | some n => update s.releases n (s.releases n + 1)
      | none => s.releases }

/-- `epoch_block_handler_preempt` up to the registration. -/
def prepare (s : State) (c w etm : Nat) : State :=
  { s.setPc w (.registering etm) with
    cell := update s.cell etm ⟨(s.cell etm).link, none, none, c⟩
    frame := update s.frame etm (some ⟨w, s.nextFrame⟩)
    nextFrame := s.nextFrame + 1 }

/-- `epoch_register_mutex`. -/
def register (s : State) (w etm : Nat) : State :=
  match s.tdlist (s.cell etm).record with
  | [] => s.setPc w (.locking etm)
  | et :: _ =>
    { s.setPc w (.locking etm) with
      cell := update s.cell etm
        { s.cell etm with owner := some (s.td et), link := s.mtx et }
      mtx := update s.mtx et (some etm)
      on := match s.waiterAt etm with
        | some n => update s.on n (some (s.sect et))
        | none => s.on }

/-- `rtems_mutex_lock` of the handler. -/
def lock (s : State) (w etm : Nat) : State :=
  match (s.cell etm).owner with
  | none =>
    { s.setPc w (.locked etm) with
      cell := update s.cell etm { s.cell etm with owner := some w } }
  | some _ =>
    { s.setPc w (.blocked etm) with
      cell := update s.cell etm { s.cell etm with heads := some w } }

/-- The unlock, the destruction of the mutex and the return of the handler. -/
def leave (s : State) (w etm : Nat) : State :=
  { s.setPc w .run with
    cell := update s.cell etm (s.cell etm).unlock
    frame := update s.frame etm none }

end State

inductive Act where
  | enter (c t et : Nat)
  | exit (c t et : Nat)
  | unlock (t : Nat)
  | next (t : Nat)
  | prepare (c w etm : Nat)
  | register (w : Nat)
  | lock (w : Nat)
  | leave (w : Nat)
  /-- Stack memory that is in no activation of the handler is written. -/
  | reuse (etm : Nat) (cell : Cell)

def step (s : State) (a : Act) : Option State :=
  match a with
  | .enter c t et => if s.pc t = .run ∧ s.busy et = false then some (s.enter c t et) else none
  | .exit c t et =>
    if s.pc t = .run ∧ et ∈ s.tdlist c ∧ s.td et = t then some (s.exit c t et) else none
  | .unlock t =>
    match s.pc t with
    | .unlocking et etm => some (s.unlock t et etm)
    | _ => none
  | .next t =>
    match s.pc t with
    | .unlocked et etm _ => some (s.loop t et (s.cell etm).link)
    | _ => none
  | .prepare c w etm =>
    if s.pc w = .run ∧ s.frame etm = none then some (s.prepare c w etm) else none
  | .register w =>
    match s.pc w with
    | .registering etm => some (s.register w etm)
    | _ => none
  | .lock w =>
    match s.pc w with
    | .locking etm => some (s.lock w etm)
    | _ => none
  | .leave w =>
    match s.pc w with
    | .locked etm => some (s.leave w etm)
    | _ => none
  | .reuse etm cell =>
    if s.frame etm = none then some { s with cell := update s.cell etm cell } else none

/-- No section is open and no thread is in one of the functions. -/
def init : State where
  tdlist _ := []
  td _ := 0
  mtx _ := none
  cell _ := ⟨none, none, none, 0⟩
  pc _ := .run
  frame _ := none
  nextFrame := 0
  busy _ := false
  sect _ := 0
  nextSection := 0
  left _ := false
  on _ := none
  releases _ := 0

/-- Registered waiters are released exactly once: never more than once, and once when the section on
    which they are registered was left.  Waiters that were registered while no section was open are not
    released, and need not be: only registered waiters are blocked, until they are released. -/
structure Orderly (s : State) : Prop where
  once : ∀ n, s.releases n ≤ 1
  registered : ∀ n, s.on n = none → s.releases n = 0
  all : ∀ n m, s.on n = some m → s.left m = true → s.releases n = 1
  blocked : ∀ w etm, s.pc w = .blocked etm →
    ∃ n m, s.waiterAt etm = some n ∧ s.on n = some m ∧ s.releases n = 0
  through : ∀ w etm, s.pc w = .locked etm →
    ∃ n, s.waiterAt etm = some n ∧ (s.on n = none ∨ s.releases n = 1)

/-- The waiter whose tracker mutex `epoch_exit_preempt` reads in a step. -/
def readWaiter (s : State) : Act → Option Nat
  | .unlock t =>
    match s.pc t with
    | .unlocking _ etm => s.waiterAt etm
    | _ => none
  | .next t =>
    match s.pc t with
    | .unlocked _ _ n => n
    | _ => none
  | _ => none

/-- The tracker mutex that is read belongs to a waiter that was not yet released. -/
def ReadsInTime (s : State) (a : Act) : Prop := ∀ n ∈ readWaiter s a, s.releases n = 0

/-- A released waiter is still in its activation of the handler when the link is read. -/
def InFrame (s : State) : Act → Prop
  | .next t =>
    match s.pc t with
    | .unlocked _ etm n => s.waiterAt etm = n
    | _ => True
  | _ => True

instance : ∀ (s : State) (a : Act), Decidable (InFrame s a) := by
  intro s a
  unfold InFrame
  split
  · split <;> infer_instance
  · infer_instance

/-- `epoch_exit_preempt` finds no waiter on the tracker. -/
def NoWaiter (s : State) : Act → Prop
  | .exit _ _ et => s.mtx et = none
  | _ => True

/-- No thread is in `epoch_exit_preempt`. -/
def Quiet (s : State) : Prop := ∀ t, (s.pc t).exiting = none

section Invariant

def Waits (s : State) (n : Nat) : Prop := s.on n ≠ none ∧ s.releases n = 0

structure Sections (s : State) : Prop where
  busy : ∀ c et, et ∈ s.tdlist c → s.busy et = true
  nodup : ∀ c, (s.tdlist c).Nodup
  once : ∀ c d et, et ∈ s.tdlist c → et ∈ s.tdlist d → c = d
  fresh : ∀ et, s.busy et = true → s.sect et < s.nextSection ∧ s.left (s.sect et) = false
  inj : ∀ et et', s.busy et = true → s.busy et' = true → s.sect et = s.sect et' → et = et'
  bound : ∀ m, s.left m = true → m < s.nextSection

structure Frames (s : State) : Prop where
  thread : ∀ etm f, s.frame etm = some f → (s.pc f.thread).tracker = some etm
  frame : ∀ w etm, (s.pc w).tracker = some etm → ∃ f, s.frame etm = some f ∧ f.thread = w
  bound : ∀ etm f, s.frame etm = some f → f.number < s.nextFrame
  inj : ∀ etm etm' f g, s.frame etm = some f → s.frame etm' = some g → f.number = g.number → etm = etm'

structure Ledger (s : State) : Prop where
  bound : ∀ n m, s.on n = some m → m < s.nextSection ∧ n < s.nextFrame
  registered : ∀ n, s.on n = none → s.releases n = 0
  once : ∀ n, s.releases n ≤ 1

/-- The lists of tracker mutexes: `q et` are the waiters of a tracker still to be released. -/
structure Queues (s : State) (q : Nat → List Nat) : Prop where
  opened : ∀ c et, et ∈ s.tdlist c → Linked (fun x => (s.cell x).link) (s.mtx et) (q et)
  member : ∀ et etm, etm ∈ q et →
    s.busy et = true ∧ ∃ f, s.frame etm = some f ∧ s.on f.number = some (s.sect et) ∧ s.releases f.number = 0
  covered : ∀ n m, s.on n = some m → s.releases n = 0 →
    ∃ et etm f, etm ∈ q et ∧ s.sect et = m ∧ s.frame etm = some f ∧ f.number = n

/-- The loops of `epoch_exit_preempt`. -/
structure Exits (s : State) (q : Nat → List Nat) : Prop where
  busy : ∀ t et, (s.pc t).exiting = some et → s.busy et = true ∧ ∀ c, et ∉ s.tdlist c
  once : ∀ t u et, (s.pc t).exiting = some et → (s.pc u).exiting = some et → t = u
  unlocking : ∀ t et etm, s.pc t = .unlocking et etm →
    Linked (fun x => (s.cell x).link) (some etm) (q et)
  unlocked : ∀ t et etm n, s.pc t = .unlocked et etm n →
    ∃ k, n = some k ∧ s.releases k = 1 ∧
      (s.waiterAt etm = n → Linked (fun x => (s.cell x).link) (s.cell etm).link (q et))

def MutexAt (s : State) (f : Frame) (c : Cell) : Pc → Prop
  | .registering _ => s.on f.number = none ∧ c.owner = none ∧ c.heads = none
  | .locking _ => (c.owner = none ↔ ¬ Waits s f.number) ∧ c.heads = none
  | .blocked _ => Waits s f.number ∧ c.owner ≠ none ∧ c.heads = some f.thread
  | .locked _ => ¬ Waits s f.number ∧ c.heads = none
  | _ => True

structure Inv (s : State) (q : Nat → List Nat) : Prop where
  sections : Sections s
  frames : Frames s
  ledger : Ledger s
  queues : Queues s q
  exits : Exits s q
  mutexes : ∀ etm f, s.frame etm = some f → MutexAt s f (s.cell etm) (s.pc f.thread)

theorem Inv.init : Inv init fun _ => [] where
  sections :=
    { busy := nofun, nodup := fun _ => List.nodup_nil, once := nofun, fresh := nofun, inj := nofun
      bound := nofun }
  frames := { thread := nofun, frame := nofun, bound := nofun, inj := nofun }
  ledger := { bound := nofun, registered := fun _ _ => rfl, once := fun _ => Nat.zero_le 1 }
  queues := { opened := nofun, member := nofun, covered := nofun }
  exits := { busy := nofun, once := nofun, unlocking := nofun, unlocked := nofun }
  mutexes := nofun

variable {s : State} {q : Nat → List Nat}

theorem setPc_of_ne (s : State) {t u : Nat} (pc : Pc) (h : u ≠ t) : (s.setPc t pc).pc u = s.pc u :=
  update_of_ne h _ _

@[simp] theorem setPc_self (s : State) (t : Nat) (pc : Pc) : (s.setPc t pc).pc t = pc :=
  update_self _ _ _

variable {f : Frame}

theorem Frames.thread_ne (h : Frames s) {t etm : Nat} (ht : (s.pc t).tracker = none)
    (hf : s.frame etm = some f) : f.thread ≠ t := by
  rintro rfl
  rw [h.thread etm f hf] at ht
  cases ht

theorem Frames.move (h : Frames s) {t : Nat} {p : Pc} (ht : p.tracker = (s.pc t).tracker) :
    Frames (s.setPc t p) where
  thread etm f hf := by
    grind [setPc_self, h.thread, setPc_of_ne, State.setPc]
  frame w etm hw := by
    by_cases hwt : w = t
    · subst hwt
      rw [setPc_self, ht] at hw
      exact h.frame w etm hw
    · rw [setPc_of_ne s p hwt] at hw
      exact h.frame w etm hw
  bound := h.bound
  inj := h.inj

variable {etm : Nat}

theorem Frames.waiterAt (hf : s.frame etm = some f) :
    s.waiterAt etm = some f.number := by
  simp [State.waiterAt, hf]

theorem Inv.queue_nil (h : Inv s q) {et : Nat} (hb : s.busy et = false) : q et = [] := by
  rw [List.eq_nil_iff_forall_not_mem]
  intro etm hm
  exact Bool.noConfusion (hb.symm.trans (h.queues.member et etm hm).1)

theorem Inv.waits (h : Inv s q) {et etm : Nat} (hm : etm ∈ q et) (hf : s.frame etm = some f) :
    Waits s f.number := by
  obtain ⟨-, g, hg, hon, hrel⟩ := h.queues.member et etm hm
  rw [hf] at hg
  cases hg
  exact ⟨by rw [hon]; simp, hrel⟩

theorem Inv.enter (h : Inv s q) {c t et : Nat} (hb : s.busy et = false) : Inv (s.enter c t et) q := by
  have hne : ∀ et', s.busy et' = true → et' ≠ et := by
    rintro _ hb' rfl
    exact Bool.noConfusion (hb.symm.trans hb')
  have hbusy : ∀ et' ≠ et, (s.enter c t et).busy et' = s.busy et' :=
    fun et' hne => update_of_ne hne _ _
  have hbusyet : (s.enter c t et).busy et = true := update_self _ _ _
  have hsect : ∀ et' ≠ et, (s.enter c t et).sect et' = s.sect et' :=
    fun et' hne => update_of_ne hne _ _
  have hsectet : (s.enter c t et).sect et = s.nextSection := update_self _ _ _
  have hold : ∀ d, et ∉ s.tdlist d := fun d hd => hne et (h.sections.busy d et hd) rfl
  have hlist : ∀ d et', et' ∈ (s.enter c t et).tdlist d ↔ et' ∈ s.tdlist d ∨ (d = c ∧ et' = et) := by
    intro d et'
    by_cases hd : d = c
    · subst hd
      simp [State.enter]
    · simp [State.enter, hd]
  refine ⟨?_, { h.frames with }, ?_, ?_, ?_, h.mutexes⟩
  · constructor
    · intro d et' hd
      rcases (hlist d et').mp hd with hd | ⟨-, rfl⟩
      · have hb' := h.sections.busy d et' hd
        exact (hbusy et' (hne et' hb')).trans hb'
      · exact hbusyet
    · intro d
      by_cases hd : d = c
      · subst hd
        show (update s.tdlist d (s.tdlist d ++ [et]) d).Nodup
        grind [h.sections.nodup]
      · show (update s.tdlist c _ d).Nodup
        rw [update_of_ne hd]
        exact h.sections.nodup d
    · intro d d' et' hd hd'
      grind [h.sections.once]
    · intro et' hb'
      by_cases he : et' = et
      · rw [he, hsectet]
        exact ⟨Nat.lt_succ_self _, Bool.eq_false_iff.mpr fun hl =>
          Nat.lt_irrefl _ (h.sections.bound _ hl)⟩
      · rw [hbusy et' he] at hb'
        rw [hsect et' he]
        obtain ⟨hlt, hleft⟩ := h.sections.fresh et' hb'
        exact ⟨Nat.lt_succ_of_lt hlt, hleft⟩
    · intro et₁ et₂ h₁ h₂ hs
      by_cases he₁ : et₁ = et <;> by_cases he₂ : et₂ = et
      · omega
      · rw [hbusy et₂ he₂] at h₂
        rw [he₁, hsectet, hsect et₂ he₂] at hs
        exact absurd (h.sections.fresh et₂ h₂).1 (by omega)
      · rw [hbusy et₁ he₁] at h₁
        rw [he₂, hsectet, hsect et₁ he₁] at hs
        exact absurd (h.sections.fresh et₁ h₁).1 (by omega)
      · grind [h.sections.inj]
    · intro m hm
      exact Nat.lt_succ_of_lt (h.sections.bound m hm)
  · refine { h.ledger with bound := fun n m hn => ?_ }
    obtain ⟨hm, hn⟩ := h.ledger.bound n m hn
    exact ⟨Nat.lt_succ_of_lt hm, hn⟩
  · constructor
    · intro d et' hd
      rcases (hlist d et').mp hd with hd | ⟨-, rfl⟩
      · have hmtx : (s.enter c t et).mtx et' = s.mtx et' :=
          update_of_ne (hne et' (h.sections.busy d et' hd)) _ _
        rw [hmtx]
        exact h.queues.opened d et' hd
      · have hmtx : (s.enter c t et').mtx et' = none := update_self _ _ _
        rw [hmtx, h.queue_nil hb]
        rfl
    · intro et' etm hm
      obtain ⟨hb', f, hf, hon, hrel⟩ := h.queues.member et' etm hm
      refine ⟨(hbusy et' (hne et' hb')).trans hb', f, hf, ?_, hrel⟩
      rw [hsect et' (hne et' hb')]
      exact hon
    · intro n m hn hrel
      obtain ⟨et', etm, f, hm, hs, hf⟩ := h.queues.covered n m hn hrel
      refine ⟨et', etm, f, hm, ?_, hf⟩
      rw [hsect et' (hne et' (h.queues.member et' etm hm).1)]
      exact hs
  · refine { h.exits with busy := fun u et' hu => ?_ }
    obtain ⟨hb', hlist'⟩ := h.exits.busy u et' hu
    grind

theorem Inv.loop (h : Inv s q) {t et : Nat} {p : Option Nat} (ht : (s.pc t).tracker = none)
    (hbusy : s.busy et = true ∧ ∀ c, et ∉ s.tdlist c)
    (honly : ∀ u, (s.pc u).exiting = some et → u = t)
    (hq : Linked (fun x => (s.cell x).link) p (q et)) : Inv (s.loop t et p) q := by
  have hmutexes : ∀ pc etm f, s.frame etm = some f →
      MutexAt s f (s.cell etm) ((s.setPc t pc).pc f.thread) := by
    intro pc etm f hf
    rw [setPc_of_ne s pc (h.frames.thread_ne ht hf)]
    exact h.mutexes etm f hf
  cases p with
  | some etm =>
    have hpc : ∀ u ≠ t, (s.loop t et (some etm)).pc u = s.pc u := fun u hu => setPc_of_ne s _ hu
    have hpct : (s.loop t et (some etm)).pc t = .unlocking et etm := setPc_self s t _
    refine ⟨{ h.sections with }, h.frames.move ht.symm, { h.ledger with }, { h.queues with }, ?_, hmutexes _⟩
    constructor
    · intro u et' hu
      by_cases hut : u = t
      · subst hut
        rw [hpct] at hu
        cases hu
        exact hbusy
      · rw [hpc u hut] at hu
        exact h.exits.busy u et' hu
    · intro u v et' hu hv
      by_cases hut : u = t <;> by_cases hvt : v = t
      · rw [hut, hvt]
      · subst hut
        rw [hpct] at hu
        rw [hpc v hvt] at hv
        cases hu
        exact (honly v hv).symm
      · grind [Pc.exiting]
      · rw [hpc u hut] at hu
        rw [hpc v hvt] at hv
        exact h.exits.once u v et' hu hv
    · intro u et' etm' hu
      by_cases hut : u = t
      · subst hut
        rw [hpct] at hu
        cases hu
        exact hq
      · rw [hpc u hut] at hu
        exact h.exits.unlocking u et' etm' hu
    · intro u et' etm' n hu
      by_cases hut : u = t
      · subst hut
        rw [hpct] at hu
        cases hu
      · rw [hpc u hut] at hu
        exact h.exits.unlocked u et' etm' n hu
  | none =>
    have hpc : ∀ u ≠ t, (s.loop t et none).pc u = s.pc u := fun u hu => setPc_of_ne s _ hu
    have hpct : (s.loop t et none).pc t = .run := setPc_self s t _
    have hnil : q et = [] := linked_none.mp hq
    have hother : ∀ et' ≠ et, (s.loop t et none).busy et' = s.busy et' :=
      fun et' hne => update_of_ne hne _ _
    have hbusy' : ∀ et', (s.loop t et none).busy et' = true → et' ≠ et ∧ s.busy et' = true := by
      intro et' hb
      have hne : et' ≠ et := by
        rintro rfl
        exact Bool.noConfusion (hb.symm.trans (update_self _ _ _))
      exact ⟨hne, (hother et' hne).symm.trans hb⟩
    have hexit : ∀ u et', ((s.loop t et none).pc u).exiting = some et' →
        et' ≠ et ∧ (s.pc u).exiting = some et' ∧ u ≠ t := by
      intro u et' hu
      have hut : u ≠ t := by
        rintro rfl
        rw [hpct] at hu
        cases hu
      rw [hpc u hut] at hu
      exact ⟨fun he => hut (honly u (he ▸ hu)), hu, hut⟩
    refine ⟨?_, { h.frames.move (p := .run) ht.symm with }, { h.ledger with }, ?_, ?_, hmutexes _⟩
    · constructor
      · intro c et' hc
        rw [hother et' fun he => hbusy.2 c (he ▸ hc)]
        exact h.sections.busy c et' hc
      · exact h.sections.nodup
      · exact h.sections.once
      · intro et' hb
        obtain ⟨hne, hb⟩ := hbusy' et' hb
        have hsect : s.sect et' ≠ s.sect et := fun he => hne (h.sections.inj et' et hb hbusy.1 he)
        obtain ⟨hlt, hleft⟩ := h.sections.fresh et' hb
        exact ⟨hlt, (update_of_ne hsect _ _).trans hleft⟩
      · intro et₁ et₂ h₁ h₂
        exact h.sections.inj et₁ et₂ (hbusy' et₁ h₁).2 (hbusy' et₂ h₂).2
      · intro m hm
        by_cases he : m = s.sect et
        · rw [he]
          exact (h.sections.fresh et hbusy.1).1
        · exact h.sections.bound m ((update_of_ne he _ _).symm.trans hm)
    · constructor
      · exact h.queues.opened
      · intro et' etm hm
        have hne : et' ≠ et := by
          rintro rfl
          rw [hnil] at hm
          cases hm
        obtain ⟨hb, f, hf⟩ := h.queues.member et' etm hm
        exact ⟨(hother et' hne).trans hb, f, hf⟩
      · exact h.queues.covered
    · constructor
      · intro u et' hu
        obtain ⟨hne, hu, -⟩ := hexit u et' hu
        rw [hother et' hne]
        exact h.exits.busy u et' hu
      · intro u v et' hu hv
        exact h.exits.once u v et' (hexit u et' hu).2.1 (hexit v et' hv).2.1
      · intro u et' etm hu
        obtain ⟨-, -, hut⟩ := hexit u et' (by rw [hu]; rfl)
        rw [hpc u hut] at hu
        exact h.exits.unlocking u et' etm hu
      · intro u et' etm n hu
        obtain ⟨-, -, hut⟩ := hexit u et' (by rw [hu]; rfl)
        rw [hpc u hut] at hu
        exact h.exits.unlocked u et' etm n hu

theorem Inv.exit (h : Inv s q) {c t et : Nat} (ht : s.pc t = .run) (hopen : et ∈ s.tdlist c) :
    Inv (s.exit c t et) q := by
  have hsub : ∀ d et', et' ∈ update s.tdlist c ((s.tdlist c).erase et) d → et' ∈ s.tdlist d := by
    intro d et' hd
    grind
  have hoff : ∀ d, et ∉ update s.tdlist c ((s.tdlist c).erase et) d := by
    intro d hd
    have hdc : d = c := h.sections.once d c et (hsub d et hd) hopen
    subst hdc
    rw [update_self] at hd
    exact (h.sections.nodup d).not_mem_erase hd
  have hremoved : Inv { s with tdlist := update s.tdlist c ((s.tdlist c).erase et) } q := by
    refine ⟨?_, { h.frames with }, { h.ledger with }, ?_, ?_, h.mutexes⟩
    · refine
        { h.sections with
          busy := fun d et' hd => h.sections.busy d et' (hsub d et' hd)
          nodup := fun d => ?_
          once := fun d d' et' hd hd' => h.sections.once d d' et' (hsub d et' hd) (hsub d' et' hd') }
      grind [h.sections.nodup]
    · exact { h.queues with opened := fun d et' hd => h.queues.opened d et' (hsub d et' hd) }
    · refine { h.exits with busy := fun u et' hu => ?_ }
      obtain ⟨hb, hlist⟩ := h.exits.busy u et' hu
      exact ⟨hb, fun d hd => hlist d (hsub d et' hd)⟩
  refine hremoved.loop (by rw [ht]; rfl) ⟨h.sections.busy c et hopen, hoff⟩ (fun u hu => ?_)
    (h.queues.opened c et hopen)
  exact absurd hopen ((h.exits.busy u et hu).2 c)

theorem woken_tracker (pc : Pc) : pc.woken.tracker = pc.tracker := by cases pc <;> rfl

theorem woken_exiting (pc : Pc) : pc.woken.exiting = pc.exiting := by cases pc <;> rfl

theorem woken_eq_of_exiting {pc : Pc} {et : Nat} (h : pc.woken.exiting = some et) : pc.woken = pc := by
  cases pc <;> first | rfl | cases h

/-- A waiter that has to be released is before `rtems_mutex_lock` or blocked there. -/
theorem Inv.member_pc (h : Inv s q) {et etm : Nat} (hm : etm ∈ q et) (hf : s.frame etm = some f) :
    (s.pc f.thread = .locking etm ∧ (s.cell etm).heads = none) ∨
      (s.pc f.thread = .blocked etm ∧ (s.cell etm).heads = some f.thread) := by
  have hwaits := h.waits hm hf
  have htracker := h.frames.thread etm f hf
  have hmutex := h.mutexes etm f hf
  cases hpc : s.pc f.thread with
  | run | unlocking | unlocked =>
    rw [hpc] at htracker
    cases htracker
  | registering =>
    rw [hpc] at hmutex
    exact absurd hmutex.1 hwaits.1
  | locked =>
    rw [hpc] at hmutex
    exact absurd hwaits hmutex.1
  | locking =>
    rw [hpc] at hmutex htracker
    cases htracker
    exact Or.inl ⟨rfl, hmutex.2⟩
  | blocked =>
    rw [hpc] at hmutex htracker
    cases htracker
    exact Or.inr ⟨rfl, hmutex.2.2⟩

theorem Inv.unlock_spec (h : Inv s q) {t et etm : Nat} (ht : s.pc t = .unlocking et etm)
    (hm : etm ∈ q et) :
    ∃ f, s.frame etm = some f ∧ f.thread ≠ t ∧ s.on f.number = some (s.sect et) ∧
      (s.unlock t et etm).pc t = .unlocked et etm (some f.number) ∧
      (s.unlock t et etm).pc f.thread = (s.pc f.thread).woken ∧
      (∀ u ≠ t, u ≠ f.thread → (s.unlock t et etm).pc u = s.pc u) ∧
      s.releases f.number = 0 ∧ (s.unlock t et etm).releases = update s.releases f.number 1 ∧
      MutexAt (s.unlock t et etm) f (s.cell etm).unlock (s.pc f.thread).woken := by
  obtain ⟨hb, f, hf, hon, hrel⟩ := h.queues.member et etm hm
  have hne : f.thread ≠ t := h.frames.thread_ne (by rw [ht]; rfl) hf
  have hat : s.waiterAt etm = some f.number := Frames.waiterAt hf
  have hreleases : (s.unlock t et etm).releases = update s.releases f.number 1 := by
    simp only [State.unlock, hat, hrel]
  have hdone : ¬ Waits (s.unlock t et etm) f.number := by
    intro hw
    have hzero := hw.2
    rw [hreleases, update_self] at hzero
    cases hzero
  refine ⟨f, hf, hne, hon, ?_, ?_⟩
  · rw [State.unlock, hat]
    exact update_self _ _ _
  · rcases h.member_pc hm hf with ⟨hpc, hheads⟩ | ⟨hpc, hheads⟩
    · have heq : (s.unlock t et etm).pc = (s.setPc t (.unlocked et etm (s.waiterAt etm))).pc := by
        simp only [State.unlock, hheads, State.setPc]
      rw [heq, hpc]
      exact ⟨(setPc_of_ne s _ hne).trans hpc, fun u hut _ => setPc_of_ne s _ hut, hrel, hreleases,
        ⟨fun _ => hdone, fun _ => hheads⟩, rfl⟩
    · have heq : (s.unlock t et etm).pc =
          ((s.setPc f.thread (.locked etm)).setPc t (.unlocked et etm (s.waiterAt etm))).pc := by
        simp only [State.unlock, hheads, hpc, Pc.woken, State.setPc]
      rw [heq, hpc]
      exact ⟨(setPc_of_ne _ _ hne).trans (setPc_self s f.thread _),
        fun u hut huw => (setPc_of_ne _ _ hut).trans (setPc_of_ne s _ huw), hrel, hreleases, hdone,
        rfl⟩

theorem Inv.unlock (h : Inv s q) {t et etm : Nat} {rest : List Nat} (ht : s.pc t = .unlocking et etm)
    (hq : q et = etm :: rest) (hrest : Linked (fun x => (s.cell x).link) (s.cell etm).link rest) :
    Inv (s.unlock t et etm) (update q et rest) := by
  have hm : etm ∈ q et := hq ▸ List.mem_cons_self
  obtain ⟨f, hf, hne, hon, hpct, hpcf, hpc, hzero, hreleases, hmutex⟩ := h.unlock_spec ht hm
  have hnodup : etm ∉ rest := by
    have hnd := (h.exits.unlocking t et etm ht).nodup
    rw [hq] at hnd
    exact (List.nodup_cons.mp hnd).1
  -- the threads besides `t` are where they were, except that the released one may be woken
  have hother : ∀ u ≠ t, (s.unlock t et etm).pc u = s.pc u ∨
      (u = f.thread ∧ (s.unlock t et etm).pc u = (s.pc u).woken) := by
    intro u hut
    grind
  have htracker : ∀ u, ((s.unlock t et etm).pc u).tracker = (s.pc u).tracker := by
    intro u
    grind [woken_tracker, Pc.tracker]
  have hexiting : ∀ u, ((s.unlock t et etm).pc u).exiting = (s.pc u).exiting := by
    intro u
    grind [woken_exiting, Pc.exiting]
  have hloop : ∀ u et', u ≠ t → ((s.unlock t et etm).pc u).exiting = some et' →
      (s.unlock t et etm).pc u = s.pc u ∧ et' ≠ et := by
    intro u et' hut hu
    refine ⟨?_, ?_⟩
    · grind [woken_eq_of_exiting]
    · rintro rfl
      rw [hexiting] at hu
      exact hut (h.exits.once u t et' hu (by rw [ht]; rfl))
  have hlink : ∀ x, ((s.unlock t et etm).cell x).link = (s.cell x).link := by
    intro x
    by_cases hx : x = etm
    · subst hx
      show (update s.cell x _ x).link = _
      rw [update_self]
      rfl
    · show (update s.cell etm _ x).link = _
      rw [update_of_ne hx]
  have hqueue : ∀ et' ≠ et, update q et rest et' = q et' :=
    fun et' he => update_of_ne he _ _
  have hmember : ∀ et' x, x ∈ update q et rest et' → x ∈ q et' ∧ x ≠ etm := by
    intro et' x hx
    by_cases he : et' = et
    · grind
    · rw [hqueue et' he] at hx
      refine ⟨hx, ?_⟩
      rintro rfl
      obtain ⟨hb, g, hg, hon', -⟩ := h.queues.member et' x hx
      rw [hf] at hg
      cases hg
      exact he (h.sections.inj et' et hb (h.queues.member et x hm).1 (some.inj (hon'.symm.trans hon)))
  have hnumber : ∀ x g, s.frame x = some g → x ≠ etm → g.number ≠ f.number :=
    fun x g hg hx he => hx (h.frames.inj x etm g f hg hf he)
  have hrel : ∀ n ≠ f.number, (s.unlock t et etm).releases n = s.releases n := by
    intro n hn
    rw [hreleases, update_of_ne hn]
  refine ⟨{ h.sections with }, ?_, ?_, ?_, ?_, ?_⟩
  · exact
      { h.frames with
        thread := fun x g hg => (htracker _).trans (h.frames.thread x g hg)
        frame := fun w x hw => h.frames.frame w x ((htracker w).symm.trans hw) }
  · refine { h.ledger with registered := fun n hn => ?_, once := fun n => ?_ }
    · have hne : n ≠ f.number := by
        rintro rfl
        exact nomatch hn.symm.trans hon
      exact (hrel n hne).trans (h.ledger.registered n hn)
    · by_cases he : n = f.number
      · exact Nat.le_of_eq (by simp [he, hreleases])
      · rw [hrel n he]
        exact h.ledger.once n
  · constructor
    · intro c et' hc
      have he : et' ≠ et := by
        rintro rfl
        exact (h.exits.busy t et' (by rw [ht]; rfl)).2 c hc
      rw [hqueue et' he]
      exact (h.queues.opened c et' hc).congr fun x _ => hlink x
    · intro et' x hx
      obtain ⟨hx, hxe⟩ := hmember et' x hx
      obtain ⟨hb, g, hg, hon', hrel'⟩ := h.queues.member et' x hx
      exact ⟨hb, g, hg, hon', (hrel _ (hnumber x g hg hxe)).trans hrel'⟩
    · intro n m hn hzero
      have hnf : n ≠ f.number := by
        rintro rfl
        rw [hreleases, update_self] at hzero
        cases hzero
      obtain ⟨et', x, g, hx, hs, hg, hgn⟩ := h.queues.covered n m hn ((hrel n hnf).symm.trans hzero)
      refine ⟨et', x, g, ?_, hs, hg, hgn⟩
      grind
  · constructor
    · intro u et' hu
      exact h.exits.busy u et' ((hexiting u).symm.trans hu)
    · intro u v et' hu hv
      exact h.exits.once u v et' ((hexiting u).symm.trans hu) ((hexiting v).symm.trans hv)
    · intro u et' x hu
      have hut : u ≠ t := by
        rintro rfl
        rw [hpct] at hu
        cases hu
      obtain ⟨he, hne'⟩ := hloop u et' hut (by rw [hu]; rfl)
      rw [hqueue et' hne']
      exact (h.exits.unlocking u et' x (he.symm.trans hu)).congr fun x _ => hlink x
    · intro u et' x n hu
      by_cases hut : u = t
      · rw [hut, hpct] at hu
        cases hu
        refine ⟨f.number, rfl, ?_, fun _ => ?_⟩
        · simp [hreleases]
        · rw [update_self, hlink]
          exact hrest.congr fun x _ => hlink x
      · obtain ⟨he, hne'⟩ := hloop u et' hut (by rw [hu]; rfl)
        obtain ⟨k, hn, hk, hlinked⟩ := h.exits.unlocked u et' x n (he.symm.trans hu)
        have hkf : k ≠ f.number := by
          rintro rfl
          exact nomatch hk.symm.trans hzero
        rw [hqueue et' hne', hlink]
        exact ⟨k, hn, (hrel k hkf).trans hk, fun hx => (hlinked hx).congr fun x _ => hlink x⟩
  · intro x g hg
    by_cases hx : x = etm
    · subst hx
      have hgf : g = f := some.inj (hg.symm.trans hf)
      subst hgf
      have hcell : (s.unlock t et x).cell x = (s.cell x).unlock := update_self _ _ _
      rw [hcell, hpcf]
      exact hmutex
    · have hcell : (s.unlock t et etm).cell x = s.cell x := update_of_ne hx _ _
      have hgt : g.thread ≠ t := h.frames.thread_ne (by rw [ht]; rfl) hg
      have hgf : g.thread ≠ f.thread := by
        intro he
        have hx' := h.frames.thread x g hg
        rw [he, h.frames.thread etm f hf] at hx'
        exact hx (some.inj hx').symm
      have hwaits : Waits (s.unlock t et etm) g.number ↔ Waits s g.number := by
        unfold Waits
        rw [hrel _ (hnumber x g hg hx)]
        exact Iff.rfl
      have hmutex' := h.mutexes x g hg
      rw [hcell, hpc _ hgt hgf]
      cases hpcg : s.pc g.thread <;> rw [hpcg] at hmutex' <;> simp only [MutexAt, hwaits] at hmutex' ⊢ <;>
        exact hmutex'

theorem Exits.move (h : Exits s q) {t : Nat} {p : Pc} (hnew : p.exiting = none) :
    Exits (s.setPc t p) q := by
  have hsame : ∀ u et, ((s.setPc t p).pc u).exiting = some et → (s.setPc t p).pc u = s.pc u := by
    intro u et hu
    grind [setPc_self, setPc_of_ne]
  constructor
  · intro u et hu
    rw [hsame u et hu] at hu
    exact h.busy u et hu
  · intro u v et hu hv
    rw [hsame u et hu] at hu
    rw [hsame v et hv] at hv
    exact h.once u v et hu hv
  · intro u et etm hu
    rw [hsame u et (by rw [hu]; rfl)] at hu
    exact h.unlocking u et etm hu
  · intro u et etm n hu
    rw [hsame u et (by rw [hu]; rfl)] at hu
    exact h.unlocked u et etm n hu

variable {c : Cell}

theorem Exits.write (h : Exits s q) {e : Nat} (hc : c.link = (s.cell e).link) :
    Exits { s with cell := update s.cell e c } q := by
  have hlink : ∀ x, (update s.cell e c x).link = (s.cell x).link := by
    intro x
    grind
  refine { h with unlocking := fun u et x hu => ?_, unlocked := fun u et x n hu => ?_ }
  · exact (h.unlocking u et x hu).congr fun y _ => hlink y
  · obtain ⟨k, hn, hk, hlinked⟩ := h.unlocked u et x n hu
    refine ⟨k, hn, hk, fun hx => ?_⟩
    rw [hlink x]
    exact (hlinked hx).congr fun y _ => hlink y

theorem Queues.write (h : Queues s q) {e : Nat} (hc : c.link = (s.cell e).link) :
    Queues { s with cell := update s.cell e c } q := by
  refine { h with opened := fun d et hd => (h.opened d et hd).congr fun x _ => ?_ }
  grind

theorem Frames.at (h : Frames s) {w e : Nat} (hw : (s.pc w).tracker = some e) :
    ∃ f, s.frame e = some f ∧ f.thread = w ∧
      ∀ x g, s.frame x = some g → x ≠ e → g.thread ≠ w ∧ g.number ≠ f.number := by
  obtain ⟨f, hf, hft⟩ := h.frame w e hw
  refine ⟨f, hf, hft, fun x g hg hx => ⟨?_, fun he => hx (h.inj x e g f hg hf he)⟩⟩
  rintro rfl
  rw [h.thread x g hg] at hw
  exact hx (some.inj hw)

theorem Inv.advance (h : Inv s q) {p : Pc} (hf : s.frame etm = some f)
    (htracker : p.tracker = some etm) (hexit : p.exiting = none) (hlink : c.link = (s.cell etm).link)
    (hmutex : MutexAt s f c p) :
    Inv { s.setPc f.thread p with cell := update s.cell etm c } q := by
  have hw := h.frames.thread etm f hf
  obtain ⟨f', hf', -, hothers⟩ := h.frames.at hw
  have hframes : Frames (s.setPc f.thread p) := h.frames.move (htracker.trans hw.symm)
  refine ⟨{ h.sections with }, { hframes with }, { h.ledger with }, { h.queues.write hlink with },
    (h.exits.write hlink).move hexit, fun x g hg => ?_⟩
  by_cases hx : x = etm
  · subst hx
    have hgf : g = f := some.inj (hg.symm.trans hf)
    subst hgf
    show MutexAt _ g (update s.cell x c x) (update s.pc g.thread p g.thread)
    rw [update_self, update_self]
    exact hmutex
  · show MutexAt _ g (update s.cell etm c x) (update s.pc f.thread p g.thread)
    rw [update_of_ne hx, update_of_ne (hothers x g hg hx).1]
    exact h.mutexes x g hg

theorem Inv.lock (h : Inv s q) {w etm : Nat} (hw : s.pc w = .locking etm) : Inv (s.lock w etm) q := by
  obtain ⟨f, hf, rfl, -⟩ := h.frames.at (w := w) (e := etm) (by rw [hw]; rfl)
  have hmutex := h.mutexes etm f hf
  rw [hw] at hmutex
  obtain ⟨howner, hheads⟩ := hmutex
  unfold State.lock
  split
  · rename_i hnone
    exact h.advance hf rfl rfl rfl ⟨howner.mp hnone, hheads⟩
  · rename_i o hsome
    refine h.advance hf rfl rfl rfl ⟨?_, ?_, rfl⟩
    · by_contra hw'
      exact nomatch hsome.symm.trans (howner.mpr hw')
    · exact fun hnone => nomatch hsome.symm.trans hnone

theorem Inv.unregistered (h : Inv s q) {n : Nat} (hn : s.nextFrame ≤ n) : s.on n = none := by
  cases hon : s.on n with
  | none => rfl
  | some m => exact absurd (h.ledger.bound n m hon).2 (Nat.not_lt.mpr hn)

theorem Inv.released_lt (h : Inv s q) {n : Nat} (hn : s.releases n = 1) : n < s.nextFrame := by
  by_contra hlt
  exact nomatch hn.symm.trans (h.ledger.registered n (h.unregistered (Nat.not_lt.mp hlt)))

theorem Inv.not_queued (h : Inv s q) (hnone : s.frame etm = none) (et : Nat) : etm ∉ q et := by
  intro hm
  obtain ⟨-, f, hf, -⟩ := h.queues.member et etm hm
  exact nomatch hnone.symm.trans hf

theorem waiterAt_none (hnone : s.frame etm = none) : s.waiterAt etm = none := by
  simp [State.waiterAt, hnone]

theorem Inv.reuse (h : Inv s q) (hnone : s.frame etm = none) :
    Inv { s with cell := update s.cell etm c } q := by
  have hoff := h.not_queued hnone
  have hlinked : ∀ {p : Option Nat} {et : Nat}, Linked (fun x => (s.cell x).link) p (q et) →
      Linked (fun x => (update s.cell etm c x).link) p (q et) := by
    intro p et hl
    refine hl.congr fun x hx => ?_
    grind
  have hne : ∀ x g, s.frame x = some g → x ≠ etm := by
    rintro x g hg rfl
    exact nomatch hnone.symm.trans hg
  refine ⟨{ h.sections with }, { h.frames with }, { h.ledger with }, ?_, ?_, fun x g hg => ?_⟩
  · exact { h.queues with opened := fun d et hd => hlinked (h.queues.opened d et hd) }
  · refine { h.exits with unlocking := fun u et x hu => ?_, unlocked := fun u et x n hu => ?_ }
    · exact hlinked (h.exits.unlocking u et x hu)
    · obtain ⟨k, rfl, hk, hl⟩ := h.exits.unlocked u et x n hu
      grind [State.waiterAt]
  · show MutexAt _ g (update s.cell etm c x) (s.pc g.thread)
    rw [update_of_ne (hne x g hg)]
    exact h.mutexes x g hg

theorem Inv.leave (h : Inv s q) {w etm : Nat} (hw : s.pc w = .locked etm) : Inv (s.leave w etm) q := by
  obtain ⟨f, hf, rfl, hothers⟩ := h.frames.at (w := w) (e := etm) (by rw [hw]; rfl)
  have hmutex := h.mutexes etm f hf
  rw [hw] at hmutex
  have hoff : ∀ et, etm ∉ q et := fun et hm => hmutex.1 (h.waits hm hf)
  have hframe : ∀ x ≠ etm, (s.leave f.thread etm).frame x = s.frame x :=
    fun x hx => update_of_ne hx _ _
  have hsome : ∀ x g, (s.leave f.thread etm).frame x = some g → x ≠ etm ∧ s.frame x = some g := by
    intro x g hg
    have hx : x ≠ etm := by
      rintro rfl
      exact nomatch (update_self x _ s.frame).symm.trans hg
    exact ⟨hx, (hframe x hx).symm.trans hg⟩
  have hpc : ∀ u ≠ f.thread, (s.leave f.thread etm).pc u = s.pc u := fun u hu => setPc_of_ne s _ hu
  have hexits := (h.exits.write (e := etm) (c := (s.cell etm).unlock) rfl).move (t := f.thread) (p := .run)
    rfl
  refine ⟨{ h.sections with }, ?_, { h.ledger with }, ?_, ?_, fun x g hg => ?_⟩
  · constructor
    · intro x g hg
      grind [h.frames.thread]
    · intro u x hu
      have huf : u ≠ f.thread := by
        rintro rfl
        grind [setPc_self, Pc.tracker, State.leave]
      rw [hpc u huf] at hu
      obtain ⟨g, hg, hgu⟩ := h.frames.frame u x hu
      grind
    · intro x g hg
      exact h.frames.bound x g (hsome x g hg).2
    · intro x y g g' hg hg'
      exact h.frames.inj x y g g' (hsome x g hg).2 (hsome y g' hg').2
  · have hqueues := h.queues.write (e := etm) (c := (s.cell etm).unlock) rfl
    refine { hqueues with member := fun et x hx => ?_, covered := fun n m hn hrel => ?_ }
    · obtain ⟨hb, g, hg, hon⟩ := h.queues.member et x hx
      exact ⟨hb, g, (hframe x fun he => hoff et (he ▸ hx)).trans hg, hon⟩
    · obtain ⟨et, x, g, hx, hs, hg, hgn⟩ := h.queues.covered n m hn hrel
      exact ⟨et, x, g, hx, hs, (hframe x fun he => hoff et (he ▸ hx)).trans hg, hgn⟩
  · refine { hexits with unlocked := fun u et x n hu => ?_ }
    obtain ⟨k, rfl, hk, hl⟩ := hexits.unlocked u et x n hu
    refine ⟨k, rfl, hk, fun hx => hl ?_⟩
    have hxe : x ≠ etm := by
      rintro rfl
      exact nomatch (waiterAt_none (s := s.leave f.thread x) (update_self x _ _)).symm.trans hx
    rw [State.waiterAt, hframe x hxe] at hx
    exact hx
  · obtain ⟨hx, hg⟩ := hsome x g hg
    have hcell : (s.leave f.thread etm).cell x = s.cell x := update_of_ne hx _ _
    rw [hcell, hpc g.thread (hothers x g hg hx).1]
    exact h.mutexes x g hg

theorem Inv.prepare (h : Inv s q) {c w etm : Nat} (hw : s.pc w = .run) (hnone : s.frame etm = none) :
    Inv (s.prepare c w etm) q := by
  have htracker : (s.pc w).tracker = none := by rw [hw]; rfl
  have hframe : ∀ x ≠ etm, (s.prepare c w etm).frame x = s.frame x :=
    fun x hx => update_of_ne hx _ _
  have hframet : (s.prepare c w etm).frame etm = some ⟨w, s.nextFrame⟩ := update_self _ _ _
  have hne : ∀ x g, s.frame x = some g → x ≠ etm := by
    rintro x g hg rfl
    exact nomatch hnone.symm.trans hg
  have hpc : ∀ u ≠ w, (s.prepare c w etm).pc u = s.pc u := fun u hu => setPc_of_ne s _ hu
  have hpcw : (s.prepare c w etm).pc w = .registering etm := setPc_self s _ _
  have hexits := (h.exits.write (e := etm) (c := ⟨(s.cell etm).link, none, none, c⟩) rfl).move (t := w)
    (p := .registering etm) rfl
  refine ⟨{ h.sections with }, ?_, ?_, ?_, ?_, fun x g hg => ?_⟩
  · constructor
    · intro x g hg
      grind [h.frames.thread, Pc.tracker]
    · intro u x hu
      grind [h.frames.frame, Pc.tracker]
    · intro x g hg
      by_cases hx : x = etm
      · rw [hx, hframet] at hg
        cases hg
        exact Nat.lt_succ_self _
      · rw [hframe x hx] at hg
        exact Nat.lt_succ_of_lt (h.frames.bound x g hg)
    · intro x y g g' hg hg' hn
      by_cases hx : x = etm <;> by_cases hy : y = etm
      · rw [hx, hy]
      · rw [hx, hframet] at hg
        rw [hframe y hy] at hg'
        cases hg
        exact absurd (h.frames.bound y g' hg') (hn ▸ Nat.lt_irrefl _)
      · rw [hframe x hx] at hg
        rw [hy, hframet] at hg'
        cases hg'
        exact absurd (h.frames.bound x g hg) (hn ▸ Nat.lt_irrefl _)
      · grind [h.frames.inj]
  · refine { h.ledger with bound := fun n m hn => ?_ }
    obtain ⟨hm, hn⟩ := h.ledger.bound n m hn
    exact ⟨hm, Nat.lt_succ_of_lt hn⟩
  · have hqueues := h.queues.write (e := etm) (c := ⟨(s.cell etm).link, none, none, c⟩) rfl
    refine { hqueues with member := fun et x hx => ?_, covered := fun n m hn hrel => ?_ }
    · obtain ⟨hb, g, hg, hon⟩ := h.queues.member et x hx
      exact ⟨hb, g, (hframe x (hne x g hg)).trans hg, hon⟩
    · obtain ⟨et, x, g, hx, hs, hg, hgn⟩ := h.queues.covered n m hn hrel
      exact ⟨et, x, g, hx, hs, (hframe x (hne x g hg)).trans hg, hgn⟩
  · refine { hexits with unlocked := fun u et x n hu => ?_ }
    obtain ⟨k, rfl, hk, hl⟩ := hexits.unlocked u et x n hu
    refine ⟨k, rfl, hk, fun hx => hl ?_⟩
    have hxe : x ≠ etm := by
      rintro rfl
      rw [State.waiterAt, hframet] at hx
      cases hx
      exact absurd (h.released_lt hk) (Nat.lt_irrefl _)
    rw [State.waiterAt, hframe x hxe] at hx
    exact hx
  · by_cases hx : x = etm
    · rw [hx, hframet] at hg
      cases hg
      have hcell : (s.prepare c w etm).cell etm = ⟨(s.cell etm).link, none, none, c⟩ :=
        update_self _ _ _
      rw [hx, hcell, hpcw]
      exact ⟨h.unregistered (Nat.le_refl _), rfl, rfl⟩
    · rw [hframe x hx] at hg
      have hcell : (s.prepare c w etm).cell x = s.cell x := update_of_ne hx _ _
      rw [hcell, hpc _ (h.frames.thread_ne htracker hg)]
      exact h.mutexes x g hg

theorem Inv.register_none (h : Inv s q) (hf : s.frame etm = some f)
    (hw : s.pc f.thread = .registering etm) : Inv (s.setPc f.thread (.locking etm)) q := by
  have hmutex := h.mutexes etm f hf
  rw [hw] at hmutex
  obtain ⟨hon, howner, hheads⟩ := hmutex
  have hadvance := h.advance (p := .locking etm) hf rfl rfl rfl
    ⟨⟨fun _ hwaits => hwaits.1 hon, fun _ => howner⟩, hheads⟩
  rw [update_eq_self] at hadvance
  exact hadvance

theorem Inv.register_some (h : Inv s q) {etm c et : Nat} {rest : List Nat}
    (hf : s.frame etm = some f) (hw : s.pc f.thread = .registering etm)
    (hc : s.tdlist c = et :: rest) :
    Inv { s.setPc f.thread (.locking etm) with
        cell := update s.cell etm { s.cell etm with owner := some (s.td et), link := s.mtx et }
        mtx := update s.mtx et (some etm)
        on := update s.on f.number (some (s.sect et)) }
      (update q et (etm :: q et)) := by
  have hmutex := h.mutexes etm f hf
  rw [hw] at hmutex
  obtain ⟨hon, -, hheads⟩ := hmutex
  obtain ⟨f', hf', -, hothers⟩ := h.frames.at (w := f.thread) (e := etm) (by rw [hw]; rfl)
  obtain rfl : f' = f := some.inj (hf'.symm.trans hf)
  have hopen : et ∈ s.tdlist c := hc ▸ List.mem_cons_self
  have hoff : ∀ et', etm ∉ q et' := fun et' hm => (h.waits hm hf).1 hon
  have hrel : s.releases f'.number = 0 := h.ledger.registered _ hon
  have hlinked : ∀ {p : Option Nat} {et' : Nat}, Linked (fun x => (s.cell x).link) p (q et') →
      Linked (fun x => (update s.cell etm
        { s.cell etm with owner := some (s.td et), link := s.mtx et } x).link) p (q et') := by
    intro p et' hl
    refine hl.congr fun x hx => ?_
    grind
  have hqueue : ∀ et' ≠ et, update q et (etm :: q et) et' = q et' :=
    fun et' he => update_of_ne he _ _
  have hon' : ∀ n ≠ f'.number, update s.on f'.number (some (s.sect et)) n = s.on n :=
    fun n hn => update_of_ne hn _ _
  have hframes : Frames (s.setPc f'.thread (.locking etm)) := h.frames.move (by rw [hw]; rfl)
  have hexits : Exits (s.setPc f'.thread (.locking etm)) q := h.exits.move rfl
  have hexitne : ∀ u et', (s.pc u).exiting = some et' → et' ≠ et := by
    rintro u _ hu rfl
    exact (h.exits.busy u _ hu).2 c hopen
  refine ⟨{ h.sections with }, { hframes with }, ?_, ?_, ?_, fun x g hg => ?_⟩
  · refine { h.ledger with bound := fun n m hn => ?_, registered := fun n hn => ?_ }
    · by_cases hnf : n = f'.number
      · subst hnf
        have hm : m = s.sect et := some.inj (hn.symm.trans (update_self _ _ _))
        rw [hm]
        exact ⟨(h.sections.fresh et (h.sections.busy c et hopen)).1, h.frames.bound etm f' hf⟩
      · exact h.ledger.bound n m ((hon' n hnf).symm.trans hn)
    · by_cases hnf : n = f'.number
      · rw [hnf]
        exact hrel
      · exact h.ledger.registered n ((hon' n hnf).symm.trans hn)
  · constructor
    · intro d et' hd
      by_cases he : et' = et
      · subst he
        show Linked _ (update s.mtx et' (some etm) et') (update q et' (etm :: q et') et')
        rw [update_self, update_self]
        refine ⟨rfl, ?_⟩
        grind [h.queues.opened]
      · show Linked _ (update s.mtx et (some etm) et') _
        rw [update_of_ne he, hqueue et' he]
        exact hlinked (h.queues.opened d et' hd)
    · intro et' x hx
      have hold : x ∈ q et' → s.busy et' = true ∧ ∃ g, s.frame x = some g ∧
          update s.on f'.number (some (s.sect et)) g.number = some (s.sect et') ∧
          s.releases g.number = 0 := by
        intro hold
        obtain ⟨hb, g, hg, hgon, hgrel⟩ := h.queues.member et' x hold
        grind
      by_cases he : et' = et
      · subst he
        rw [update_self] at hx
        rcases List.mem_cons.mp hx with rfl | hx
        · exact ⟨h.sections.busy c et' hopen, f', hf, update_self _ _ _, hrel⟩
        · exact hold hx
      · rw [hqueue et' he] at hx
        exact hold hx
    · intro n m hn hzero
      by_cases hnf : n = f'.number
      · subst hnf
        have hm : m = s.sect et := some.inj (hn.symm.trans (update_self _ _ _))
        exact ⟨et, etm, f', by rw [update_self]; exact List.mem_cons_self, hm.symm, hf, rfl⟩
      · obtain ⟨et', x, g, hx, hs, hg, hgn⟩ :=
          h.queues.covered n m ((hon' n hnf).symm.trans hn) hzero
        refine ⟨et', x, g, ?_, hs, hg, hgn⟩
        grind
  · have hsame : ∀ u ≠ f'.thread, (s.setPc f'.thread (.locking etm)).pc u = s.pc u :=
      fun u hu => setPc_of_ne s _ hu
    have hexiting : ∀ u et', ((s.setPc f'.thread (.locking etm)).pc u).exiting = some et' → et' ≠ et := by
      intro u et' hu
      grind [setPc_self, Pc.exiting]
    refine { hexits with unlocking := fun u et' x hu => ?_, unlocked := fun u et' x n hu => ?_ }
    · rw [hqueue et' (hexiting u et' (congrArg Pc.exiting hu))]
      exact hlinked (hexits.unlocking u et' x hu)
    · obtain ⟨k, rfl, hk, hl⟩ := hexits.unlocked u et' x n hu
      rw [hqueue et' (hexiting u et' (congrArg Pc.exiting hu))]
      refine ⟨k, rfl, hk, fun hx => ?_⟩
      have hxe : x ≠ etm := by
        rintro rfl
        have hkf : k = f'.number := some.inj (hx.symm.trans (Frames.waiterAt hf))
        rw [hkf] at hk
        exact nomatch hk.symm.trans hrel
      show Linked _ (update s.cell etm _ x).link (q et')
      rw [update_of_ne hxe]
      exact hlinked (hl hx)
  · by_cases hx : x = etm
    · subst hx
      obtain rfl : g = f' := some.inj (hg.symm.trans hf)
      show MutexAt _ g (update s.cell x _ x) (update s.pc g.thread _ g.thread)
      rw [update_self, update_self]
      refine ⟨⟨nofun, fun hnot => absurd ⟨?_, hrel⟩ hnot⟩, hheads⟩
      grind
    · have hne := hothers x g hg hx
      show MutexAt _ g (update s.cell etm _ x) (update s.pc f'.thread _ g.thread)
      rw [update_of_ne hx, update_of_ne hne.1]
      have hold := h.mutexes x g hg
      have hsame := hon' g.number hne.2
      cases hpc : s.pc g.thread <;> rw [hpc] at hold <;> simp only [MutexAt, Waits, hsame] at hold ⊢ <;>
        exact hold

theorem Inv.register (h : Inv s q) {w etm : Nat} (hw : s.pc w = .registering etm) :
    ∃ q', Inv (s.register w etm) q' := by
  obtain ⟨f, hf, rfl, -⟩ := h.frames.at (w := w) (e := etm) (by rw [hw]; rfl)
  unfold State.register
  split
  · exact ⟨q, h.register_none hf hw⟩
  · rename_i et rest hc
    rw [Frames.waiterAt hf]
    exact ⟨_, h.register_some hf hw hc⟩

theorem inv_step {s t : State} {a : Act} (h : ∃ q, Inv s q) (hok : InFrame s a) (hstep : step s a = some t) :
    ∃ q, Inv t q := by
  obtain ⟨q, h⟩ := h
  cases a with
  | enter c u et =>
    simp only [step, ite_none_right_eq_some, some.injEq] at hstep
    obtain ⟨⟨-, hb⟩, rfl⟩ := hstep
    exact ⟨q, h.enter hb⟩
  | exit c u et =>
    simp only [step, ite_none_right_eq_some, some.injEq] at hstep
    obtain ⟨⟨hrun, hopen, -⟩, rfl⟩ := hstep
    exact ⟨q, h.exit hrun hopen⟩
  | unlock u =>
    simp only [step] at hstep
    split at hstep
    · rename_i et etm hpc
      cases hstep
      obtain ⟨rest, hq, hrest⟩ := linked_some.mp (h.exits.unlocking u et etm hpc)
      exact ⟨_, h.unlock hpc hq hrest⟩
    · cases hstep
  | next u =>
    simp only [step] at hstep
    split at hstep
    · rename_i et etm n hpc
      cases hstep
      obtain ⟨k, rfl, -, hl⟩ := h.exits.unlocked u et etm n hpc
      have hat : s.waiterAt etm = some k := by
        simp only [InFrame, hpc] at hok
        exact hok
      have hexit : (s.pc u).exiting = some et := by rw [hpc]; rfl
      exact ⟨q, h.loop (by rw [hpc]; rfl) (h.exits.busy u et hexit)
        (fun v hv => h.exits.once v u et hv hexit) (hl hat)⟩
    · cases hstep
  | prepare c w etm =>
    simp only [step, ite_none_right_eq_some, some.injEq] at hstep
    obtain ⟨⟨hrun, hnone⟩, rfl⟩ := hstep
    exact ⟨q, h.prepare hrun hnone⟩
  | register w =>
    simp only [step] at hstep
    split at hstep
    · rename_i etm hpc
      cases hstep
      exact h.register hpc
    · cases hstep
  | lock w =>
    simp only [step] at hstep
    split at hstep
    · rename_i etm hpc
      cases hstep
      exact ⟨q, h.lock hpc⟩
    · cases hstep
  | leave w =>
    simp only [step] at hstep
    split at hstep
    · rename_i etm hpc
      cases hstep
      exact ⟨q, h.leave hpc⟩
    · cases hstep
  | reuse etm cell =>
    simp only [step, ite_none_right_eq_some, some.injEq] at hstep
    obtain ⟨hnone, rfl⟩ := hstep
    exact ⟨q, h.reuse hnone⟩

theorem Inv.orderly (h : Inv s q) : Orderly s where
  once := h.ledger.once
  registered := h.ledger.registered
  all n m hn hm := by
    have hle := h.ledger.once n
    have hne : s.releases n ≠ 0 := by
      intro hzero
      obtain ⟨et, etm, f, hx, hs, -⟩ := h.queues.covered n m hn hzero
      have hfresh := (h.sections.fresh et (h.queues.member et etm hx).1).2
      rw [hs, hm] at hfresh
      cases hfresh
    omega
  blocked w etm hw := by
    obtain ⟨f, hf, rfl, -⟩ := h.frames.at (w := w) (e := etm) (by rw [hw]; rfl)
    have hmutex := h.mutexes etm f hf
    rw [hw] at hmutex
    obtain ⟨⟨hon, hzero⟩, -⟩ := hmutex
    obtain ⟨m, hm⟩ := ne_none_iff_exists'.mp hon
    exact ⟨f.number, m, Frames.waiterAt hf, hm, hzero⟩
  through w etm hw := by
    obtain ⟨f, hf, rfl, -⟩ := h.frames.at (w := w) (e := etm) (by rw [hw]; rfl)
    have hmutex := h.mutexes etm f hf
    rw [hw] at hmutex
    refine ⟨f.number, Frames.waiterAt hf, ?_⟩
    by_cases hon : s.on f.number = none
    · exact Or.inl hon
    · have hle := h.ledger.once f.number
      have hne : s.releases f.number ≠ 0 := fun hzero => hmutex.1 ⟨hon, hzero⟩
      exact Or.inr (by omega)

end Invariant

section Runs

variable {s t : State} {q : Nat → List Nat} {a : Act}

theorem inFrame_of_readsInTime (h : Inv s q) (hok : ReadsInTime s a) : InFrame s a := by
  cases a with
  | next u =>
    cases hpc : s.pc u with
    | unlocked et etm n =>
      obtain ⟨k, rfl, hk, -⟩ := h.exits.unlocked u et etm n hpc
      have hzero : s.releases k = 0 := by
        refine hok k ?_
        simp only [readWaiter, hpc]
        rfl
      exact nomatch hk.symm.trans hzero
    | _ => simp only [InFrame, hpc]
  | _ => trivial

theorem exiting_step (h : Inv s q) (hok : ReadsInTime s a) {u et : Nat}
    (hu : (s.pc u).exiting = some et) (hstep : step s a = some t) : (t.pc u).exiting = some et := by
  have hkeep : ∀ v pc, s.pc v = pc → pc.exiting = none → ∀ pc' : Pc,
      (update s.pc v pc' u).exiting = some et := by
    rintro v pc rfl hv pc'
    grind
  cases a with
  | enter c v et' =>
    simp only [step, ite_none_right_eq_some, some.injEq] at hstep
    obtain ⟨-, rfl⟩ := hstep
    exact hu
  | exit c v et' =>
    simp only [step, ite_none_right_eq_some, some.injEq] at hstep
    obtain ⟨⟨hrun, -⟩, rfl⟩ := hstep
    unfold State.exit State.loop
    split <;> exact hkeep v .run hrun rfl _
  | unlock v =>
    simp only [step] at hstep
    split at hstep
    · rename_i et' etm hpc
      obtain ⟨rest, hq, -⟩ := linked_some.mp (h.exits.unlocking v et' etm hpc)
      grind [h.unlock_spec, woken_exiting, Pc.exiting]
    · cases hstep
  | next v =>
    simp only [step] at hstep
    split at hstep
    · rename_i et' etm n hpc
      obtain ⟨k, rfl, hk, -⟩ := h.exits.unlocked v et' etm n hpc
      have hzero : s.releases k = 0 := by
        refine hok k ?_
        simp only [readWaiter, hpc]
        rfl
      exact nomatch hk.symm.trans hzero
    · cases hstep
  | prepare c w etm =>
    simp only [step, ite_none_right_eq_some, some.injEq] at hstep
    obtain ⟨⟨hrun, -⟩, rfl⟩ := hstep
    exact hkeep w .run hrun rfl _
  | register w =>
    simp only [step] at hstep
    split at hstep
    · rename_i etm hpc
      cases hstep
      unfold State.register
      split <;> exact hkeep w _ hpc rfl _
    · cases hstep
  | lock w =>
    simp only [step] at hstep
    split at hstep
    · rename_i etm hpc
      cases hstep
      unfold State.lock
      split <;> exact hkeep w _ hpc rfl _
    · cases hstep
  | leave w =>
    simp only [step] at hstep
    split at hstep
    · rename_i etm hpc
      cases hstep
      exact hkeep w _ hpc rfl _
    · cases hstep
  | reuse etm cell =>
    simp only [step, ite_none_right_eq_some, some.injEq] at hstep
    obtain ⟨-, rfl⟩ := hstep
    exact hu

/-- **Registered waiters are released exactly once** if released waiters stay in the handler until the
    exit has gone on. -/
theorem orderly_of_inFrame (as : List Act) (h : StepsMeet step InFrame init as) :
    StepsMeet step (fun s a => ∀ t ∈ step s a, Orderly t) init as := by
  have horderly : ∀ s a, (∃ q, Inv s q) → InFrame s a → ∀ t ∈ step s a, Orderly t := by
    intro s a hs hok t ht
    obtain ⟨q, hq⟩ := inv_step hs hok ht
    exact hq.orderly
  exact stepsMeet_of_invariant horderly (fun s a t hs hok ht => inv_step hs hok ht) as init ⟨_, Inv.init⟩ h

theorem quiet_step (hs : Quiet s) (hok : NoWaiter s a) (hstep : step s a = some t) : Quiet t := by
  have hkeep : ∀ v pc', Pc.exiting pc' = none → ∀ u, (update s.pc v pc' u).exiting = none := by
    intro v pc' hpc' u
    grind [Quiet]
  cases a with
  | enter c v et' =>
    simp only [step, ite_none_right_eq_some, some.injEq] at hstep
    obtain ⟨-, rfl⟩ := hstep
    exact hs
  | exit c v et' =>
    simp only [step, ite_none_right_eq_some, some.injEq] at hstep
    obtain ⟨-, rfl⟩ := hstep
    have hnone : s.mtx et' = none := hok
    unfold State.exit
    rw [hnone]
    exact hkeep v .run rfl
  | unlock v =>
    simp only [step] at hstep
    split at hstep
    · rename_i et' etm hpc
      exact nomatch (congrArg Pc.exiting hpc).symm.trans (hs v)
    · cases hstep
  | next v =>
    simp only [step] at hstep
    split at hstep
    · rename_i et' etm n hpc
      exact nomatch (congrArg Pc.exiting hpc).symm.trans (hs v)
    · cases hstep
  | prepare c w etm =>
    simp only [step, ite_none_right_eq_some, some.injEq] at hstep
    obtain ⟨-, rfl⟩ := hstep
    exact hkeep w _ rfl
  | register w =>
    simp only [step] at hstep
    split at hstep
    · cases hstep
      unfold State.register
      split <;> exact hkeep w _ rfl
    · cases hstep
  | lock w =>
    simp only [step] at hstep
    split at hstep
    · cases hstep
      unfold State.lock
      split <;> exact hkeep w _ rfl
    · cases hstep
  | leave w =>
    simp only [step] at hstep
    split at hstep
    · cases hstep
      exact hkeep w _ rfl
    · cases hstep
  | reuse etm cell =>
    simp only [step, ite_none_right_eq_some, some.injEq] at hstep
    obtain ⟨-, rfl⟩ := hstep
    exact hs

theorem readWaiter_of_quiet (hs : Quiet s) (a : Act) : readWaiter s a = none := by
  unfold readWaiter
  split
  · split
    · rename_i hpc
      exact nomatch (congrArg Pc.exiting hpc).symm.trans (hs _)
    · rfl
  · split
    · rename_i hpc
      exact nomatch (congrArg Pc.exiting hpc).symm.trans (hs _)
    · rfl
  · rfl

theorem noWaiter_of_readsInTime :
    ∀ (as : List Act) (s t : State), (∃ q, Inv s q) → run step s as = some t → Quiet t →
      StepsMeet step ReadsInTime s as → StepsMeet step NoWaiter s as
  | [], _, _, _, _, _, _ => trivial
  | a :: as, s, t, hs, hrun, hquiet, hm => by
    obtain ⟨q, hq⟩ := hs
    obtain ⟨m, hm', hrun'⟩ := run_cons.mp hrun
    have hinv : ∃ q, Inv m q := inv_step ⟨q, hq⟩ (inFrame_of_readsInTime hq hm.1) hm'
    have htail : StepsMeet step NoWaiter m as :=
      noWaiter_of_readsInTime as m t hinv hrun' hquiet (hm.2 m hm')
    refine ⟨?_, fun m' hm'' => ?_⟩
    · cases a with
      | exit c u et =>
        show s.mtx et = none
        cases hmtx : s.mtx et with
        | none => rfl
        | some etm =>
          have hstart : (m.pc u).exiting = some et := by
            simp only [step, ite_none_right_eq_some, some.injEq] at hm'
            obtain ⟨-, rfl⟩ := hm'
            unfold State.exit
            rw [hmtx]
            exact congrArg Pc.exiting (setPc_self _ u _)
          have hkeep : ∀ s a t, ((∃ q, Inv s q) ∧ (s.pc u).exiting = some et) → ReadsInTime s a →
              step s a = some t → (∃ q, Inv t q) ∧ (t.pc u).exiting = some et := by
            rintro s a t ⟨⟨q, hq⟩, hu⟩ hok hstep
            exact ⟨inv_step ⟨q, hq⟩ (inFrame_of_readsInTime hq hok) hstep, exiting_step hq hok hu hstep⟩
          have hend := run_invariant_of_meet hkeep as m t ⟨hinv, hstart⟩ (hm.2 m hm') hrun'
          exact nomatch hend.2.symm.trans (hquiet u)
      | _ => trivial
    · rw [mem_def, hm', some.injEq] at hm''
      exact hm'' ▸ htail

/-- **Releases of registered waiters**: they are exactly once as long as released waiters stay in the
    handler until the exit has gone on; a run of which all exits are finished has only reads that are in
    time if and only if no exit found a waiter. -/
theorem punctual_iff_no_waiter (as : List Act) :
    (StepsMeet step InFrame init as → StepsMeet step (fun s a => ∀ t ∈ step s a, Orderly t) init as) ∧
    ∀ t, run step init as = some t → Quiet t →
      (StepsMeet step (fun s a => ReadsInTime s a ∧ ∀ t ∈ step s a, Orderly t) init as ↔
        StepsMeet step NoWaiter init as) := by
  refine ⟨orderly_of_inFrame as, fun t hrun hquiet => ⟨fun h => ?_, fun h => ?_⟩⟩
  · grind [noWaiter_of_readsInTime, Inv.init, stepsMeet_mono]
  · have hquiet_frame : ∀ s a, Quiet s → InFrame s a := by
      intro s a hs
      cases a with
      | next u =>
        cases hpc : s.pc u with
        | unlocked et etm n => exact nomatch (congrArg Pc.exiting hpc).symm.trans (hs u)
        | _ => simp only [InFrame, hpc]
      | _ => trivial
    have hpunctual : ∀ s a, ((∃ q, Inv s q) ∧ Quiet s) → NoWaiter s a →
        ReadsInTime s a ∧ ∀ t ∈ step s a, Orderly t := by
      intro s a hs _
      refine ⟨fun n hn => ?_, fun t ht => ?_⟩
      · rw [readWaiter_of_quiet hs.2] at hn
        cases hn
      · obtain ⟨q, hq⟩ := inv_step hs.1 (hquiet_frame s a hs.2) ht
        exact hq.orderly
    exact stepsMeet_of_invariant hpunctual
      (fun s a t hs hok hstep =>
        ⟨inv_step hs.1 (hquiet_frame s a hs.2) hstep, quiet_step hs.2 hok hstep⟩)
      as init ⟨⟨_, Inv.init⟩, fun _ => rfl⟩ h

/-- A waiter that is released while it is blocked and returns after the exit; a section with a waiter
    that is still open next to one that was left without a waiter. -/
theorem punctual_iff_no_waiter_twoSections :
    StepsMeet step (fun s a => ∀ t ∈ step s a, Orderly t) init
        [.enter 0 0 0, .prepare 0 1 7, .register 1, .lock 1, .exit 0 0 0, .unlock 0, .next 0, .leave 1] ∧
      (StepsMeet step (fun s a => ReadsInTime s a ∧ ∀ t ∈ step s a, Orderly t) init
          [.enter 0 0 0, .enter 1 1 1, .prepare 0 2 7, .register 2, .lock 2, .exit 1 1 1] ↔
        StepsMeet step NoWaiter init
          [.enter 0 0 0, .enter 1 1 1, .prepare 0 2 7, .register 2, .lock 2, .exit 1 1 1]) := by
  refine ⟨(punctual_iff_no_waiter _).1 (by decide), (punctual_iff_no_waiter _).2 _ rfl fun t => ?_⟩
  show (update (update (update (update (fun _ => Pc.run) 2 _) 2 _) 2 _)
    1 _ t).exiting = none
  by_cases h1 : t = 1
  · rw [h1]
    rfl
  · by_cases h2 : t = 2
    · rw [h2]
      rfl
    · simp only [update_of_ne h1, update_of_ne h2]
      rfl

/-- Two waiters of one section: the second one to be released returns after the unlock, its stack is
    written, and the link that `epoch_exit_preempt` then reads is gone.  The other waiter stays blocked
    although the section was left. -/
theorem released_tracker_read :
    ∃ as s, run step init as = some s ∧
      ¬ StepsMeet step (fun s a => ReadsInTime s a ∧ ∀ t ∈ step s a, Orderly t) init as ∧
      s.on 0 = some 0 ∧ s.left 0 = true ∧ s.releases 0 = 0 ∧ s.pc 1 = .blocked 7 := by
  refine ⟨[.enter 0 0 0, .prepare 0 1 7, .register 1, .lock 1, .prepare 0 2 8, .register 2, .lock 2,
    .exit 0 0 0, .unlock 0, .leave 2, .reuse 8 ⟨none, none, none, 0⟩, .next 0], _, rfl, fun h => ?_,
    rfl, rfl, rfl, rfl⟩
  have hlast := (((((((((((h.2 _ rfl).2 _ rfl).2 _ rfl).2 _ rfl).2 _ rfl).2 _ rfl).2 _ rfl).2 _ rfl).2 _ rfl).2
    _ rfl).2 _ rfl).1.1
  exact absurd (hlast 1 rfl) (by decide)

end Runs

end RtemsLibbsd.Epoch.Waiters
