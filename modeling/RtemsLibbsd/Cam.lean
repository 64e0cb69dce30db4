import RtemsLibbsd.Transition
import Mathlib.Data.List.Nodup
import Mathlib.Data.List.Count

/-!
# Requests of SCSI disks

`rtemsbsd/rtems/rtems-kernel-cam.c`: the disk of a SIM.  One CCB and one state word are shared by the
attach worker, which tries the disk (`rtems_bsd_ccb_action`), by the requests of the block device
(`rtems_bsd_sim_disk_read_write`), by the callback that is called at the end of each transfer and starts
the next one (`rtems_bsd_csio_callback`), and by the removal of the device (`cam_sim_free`).

All functions run with the mutex of the SIM, so each of them is one step up to the next wait.  A transfer that
completes at once is one that completes in the next step.  Before `cam_sim_free` is called, the driver of the
SIM has cancelled its transfers, which then do not complete.  A block device is deleted when no request is
in progress (the transitions are those of the comment in `cam_sim.h`).

* `csioCallback`, `ccbCallback` — the two callbacks.
* `Proper` — what has to hold at every moment: a request that was accepted is completed once or is in
  progress, and without a request in progress the SIM is idle.
* `ReadWrite` — no request is of another kind than read and write; `proper_iff` is the result about runs.
-/

namespace RtemsLibbsd.Cam

open Option List Transition

/-! ## The SIM -/

/-- `enum bsd_sim_state`. -/
inductive SimState where
  | init | initBusy | initReady | idle | busy | deleted
  deriving DecidableEq

/-- `CAM_REQ_CMP`, `CAM_SEL_TIMEOUT`, and other values. -/
inductive CamStatus where
  | reqCmp | selTimeout | other (code : Nat)
  deriving DecidableEq

inductive Sc where
  | successful | unsatisfied | ioError
  deriving DecidableEq

inductive ReqKind where
  | read | write | sync
  deriving DecidableEq

structure SgBuffer where
  block : Nat
  length : Nat
  buffer : Nat

/-- What the CCB asks the SIM to do: one of the commands of the attach worker, or a transfer with the
    arguments of `scsi_read_write`. -/
inductive Command where
  | probe
  | transfer (readop : Bool) (block blockCount buffer length : Nat)
  deriving DecidableEq

/-- The value of `cbfcnp`. -/
inductive Callback where
  | ccb | csio

/-- `struct cam_sim` with its CCB; `sg` are the buffers from `sg_current` to `sg_end`, and `action` is the
    command the driver of the SIM works at.  The ledger has the requests that were accepted and the calls of
    `rtems_blkdev_request_done`. -/
structure Sim where
  state : SimState
  cbfcnp : Callback
  status : CamStatus
  readop : Bool
  sg : List SgBuffer
  req : Option Nat
  action : Option Command
  disk : Bool
  freed : Bool
  accepted : List Nat
  done : List (Nat × Sc)

def camSimAlloc : Sim := ⟨.init, .ccb, .reqCmp, false, [], none, none, false, false, [], []⟩

/-- `rtems_bsd_ccb_callback`; `none` is a failed assertion. -/
def ccbCallback (k : Sim) : Option Sim :=
  if k.state = .initBusy then some { k with state := .initReady } else none

def finish (k : Sim) (sc : Sc) : Option Sim :=
  k.req.map fun r => { k with done := k.done ++ [(r, sc)], state := .idle }

/-- `rtems_bsd_csio_callback`. -/
def csioCallback (k : Sim) : Option Sim :=
  if k.state = .busy then
    match k.status with
    | .reqCmp =>
      match k.sg with
      | sg :: rest =>
        some { k with
          cbfcnp := .csio
          action := some (.transfer k.readop sg.block (sg.length / 512) sg.buffer sg.length)
          sg := rest }
      | [] => finish k .successful
    | .selTimeout => finish k .unsatisfied
    | .other _ => finish k .ioError
  else none

def callback (k : Sim) : Option Sim :=
  match k.cbfcnp with
  | .ccb => ccbCallback k
  | .csio => csioCallback k

/-- `rtems_bsd_sim_disk_read_write` when the SIM is idle: a request of another kind is refused. -/
def simDiskReadWrite (k : Sim) (r : Nat) (kind : ReqKind) (bufs : List SgBuffer) : Option Sim :=
  let k := { k with state := .busy }
  match kind with
  | .sync => some k
  | .read =>
    csioCallback { k with readop := true, sg := bufs, req := some r, status := .reqCmp, accepted := r :: k.accepted }
  | .write =>
    csioCallback { k with readop := false, sg := bufs, req := some r, status := .reqCmp, accepted := r :: k.accepted }

inductive Action where
  | initAction
  | initFinish
  | initialized (disk : Bool)
  | request (r : Nat) (kind : ReqKind) (bufs : List SgBuffer)
  | complete (status : CamStatus)
  | cancel
  | deleted
  | free

/-- One step.  The waits for a state are the conditions of the steps; `cancel` is one pass of the loop in
    `rtems_bsd_sim_wait_for_state_and_cancel_ccb`, `free` the end of `cam_sim_free`. -/
def step (k : Sim) (a : Action) : Option Sim :=
  if k.freed then none
  else
    match a with
    | .initAction =>
      if k.state = .init then some { k with state := .initBusy, cbfcnp := .ccb, action := some .probe } else none
    | .initFinish => if k.state = .initReady then some { k with state := .init } else none
    | .initialized disk => if k.state = .init then some { k with state := .idle, disk := disk } else none
    | .request r kind bufs =>
      if k.state = .idle ∧ r ∉ k.accepted then simDiskReadWrite k r kind bufs else none
    | .complete status =>
      if k.action.isSome then callback { k with action := none, status := status } else none
    | .cancel =>
      if k.state = .busy then callback { k with action := none, status := .selTimeout } else none
    | .deleted => if k.state = .idle ∧ k.disk then some { k with state := .deleted, disk := false } else none
    | .free =>
      if (k.state = .idle ∧ ¬ k.disk) ∨ k.state = .deleted then some { k with freed := true } else none

/-! ## What has to hold -/

def Sim.inProgress (k : Sim) : List Nat := k.accepted.filter fun r => r ∉ k.done.map Prod.fst

/-- **What has to hold at every moment.**  The states before the disk was tried and after it was deleted are
    no states in which requests are possible. -/
structure Proper (k : Sim) : Prop where
  /-- A request that was accepted is completed at most once, another one is not completed. -/
  once : ∀ r, (k.done.map Prod.fst).count r ≤ if r ∈ k.accepted then 1 else 0
  /-- At most one request is not completed; the SIM is busy with it, and its driver works at a transfer. -/
  single : k.inProgress.length ≤ 1 ∧
    ∀ r ∈ k.inProgress, k.state = .busy ∧ k.req = some r ∧ k.action.isSome
  idle : k.inProgress = [] → k.state = .idle ∨ k.state = .deleted ∨
    k.state = .init ∨ k.state = .initBusy ∨ k.state = .initReady
  /-- A request in progress can be cancelled, and the SIM is idle then. -/
  cancel : k.freed = false → k.state = .busy → ∃ t, step k .cancel = some t ∧ t.state = .idle

def ReadWrite (k : Sim) (a : Action) : Prop :=
  (step k a).isSome → ∀ r bufs, a ≠ .request r .sync bufs

/-! ## The invariant -/

/-- The SIM is busy with the one request that is not completed, or there is none. -/
structure Inv (k : Sim) : Prop where
  once : ∀ r, (k.done.map Prod.fst).count r ≤ if r ∈ k.accepted then 1 else 0
  busy : k.state = .busy → ∃ r, k.req = some r ∧ k.inProgress = [r] ∧ k.cbfcnp = .csio ∧ k.action.isSome
  other : k.state ≠ .busy → k.inProgress = []
  initBusy : k.state = .initBusy → k.cbfcnp = .ccb
  action : k.action.isSome → k.state = .busy ∨ k.state = .initBusy

theorem inv_camSimAlloc : Inv camSimAlloc where
  once := fun _ => Nat.zero_le _
  busy := nofun
  other := fun _ => rfl
  initBusy := nofun
  action := nofun

theorem count_eq_zero_of_inProgress {k : Sim} {r : Nat} (h : r ∈ k.inProgress) :
    (k.done.map Prod.fst).count r = 0 := by
  have := (mem_filter.mp h).2
  exact count_eq_zero.mpr (of_decide_eq_true this)

theorem inv_finish {k t : Sim} {sc : Sc} {r : Nat} (hreq : k.req = some r)
    (honce : ∀ r, (k.done.map Prod.fst).count r ≤ if r ∈ k.accepted then 1 else 0)
    (hprog : k.inProgress = [r]) (haction : k.action = none) (ht : finish k sc = some t) :
    Inv t ∧ t.state = .idle := by
  unfold finish at ht
  rw [hreq] at ht
  cases ht
  have hmem : r ∈ k.inProgress := by
    rw [hprog]
    exact mem_singleton.mpr rfl
  have hacc : r ∈ k.accepted := (mem_filter.mp hmem).1
  refine ⟨⟨?_, nofun, fun _ => ?_, nofun, ?_⟩, rfl⟩
  · intro r'
    simp only [map_append, map_cons, map_nil, count_append, count_singleton]
    by_cases hr : r = r'
    · subst hr
      rw [count_eq_zero_of_inProgress hmem, if_pos hacc]
      simp
    · simpa [hr] using honce r'
  · rw [Sim.inProgress, filter_eq_nil_iff]
    intro r' hr'
    simp only [map_append, map_cons, map_nil, mem_append, mem_singleton]
    by_cases hr : r' = r
    · simp [hr]
    · have hnot : r' ∉ k.inProgress := by
        rw [hprog]
        simpa using hr
      have : r' ∈ k.done.map Prod.fst := by
        by_contra hdone
        exact hnot (mem_filter.mpr ⟨hr', decide_eq_true hdone⟩)
      simp only [decide_eq_true_eq, not_not]
      exact .inl this
  · intro h
    rw [haction] at h
    cases h

/-- The callback at the end of a transfer: the next one is started, or the request is completed. -/
theorem inv_csioCallback {k : Sim} {r : Nat} (hbusy : k.state = .busy) (hreq : k.req = some r)
    (honce : ∀ r, (k.done.map Prod.fst).count r ≤ if r ∈ k.accepted then 1 else 0)
    (hprog : k.inProgress = [r]) (haction : k.action = none) :
    ∃ t, csioCallback k = some t ∧ Inv t ∧ (k.status ≠ .reqCmp → t.state = .idle) := by
  have hfin : ∀ sc, ∃ t, finish k sc = some t ∧ Inv t ∧ (k.status ≠ .reqCmp → t.state = .idle) := by
    intro sc
    obtain ⟨t, ht⟩ : ∃ t, finish k sc = some t := by
      unfold finish
      rw [hreq]
      exact ⟨_, rfl⟩
    grind [inv_finish]
  unfold csioCallback
  rw [if_pos hbusy]
  split <;> rename_i hstatus
  · split
    · refine ⟨_, rfl, ⟨honce, fun _ => ⟨r, hreq, hprog, rfl, rfl⟩, fun h => absurd hbusy h, ?_, fun _ => .inl hbusy⟩,
        fun h => absurd hstatus h⟩
      intro h
      rw [show k.state = .initBusy from h] at hbusy
      cases hbusy
    · exact hfin .successful
  · exact hfin .unsatisfied
  · exact hfin .ioError

theorem inv_accept {k t : Sim} {r : Nat} {readop : Bool} {bufs : List SgBuffer} (h : Inv k)
    (hidle : k.state = .idle) (hr : r ∉ k.accepted)
    (ht : csioCallback { k with
      state := .busy
      readop := readop
      sg := bufs
      req := some r
      status := .reqCmp
      accepted := r :: k.accepted } = some t) : Inv t := by
  have hzero : (k.done.map Prod.fst).count r = 0 := by
    have := h.once r
    rw [if_neg hr] at this
    omega
  have hnone : k.inProgress = [] := h.other (by simp [hidle])
  have haction : k.action = none := by
    by_contra hne
    rcases h.action (isSome_iff_ne_none.mpr hne) with hs | hs <;> rw [hidle] at hs <;> cases hs
  obtain ⟨t', ht', hinv, -⟩ := @inv_csioCallback
    { k with state := .busy, readop := readop, sg := bufs, req := some r, status := .reqCmp,
             accepted := r :: k.accepted } r rfl rfl
    (by
      intro r'
      have := h.once r'
      by_cases hrr : r' = r
      · subst hrr
        simp [hzero]
      · simpa [hrr] using this)
    (by
      have hnot : r ∉ k.done.map Prod.fst := count_eq_zero.mp hzero
      unfold Sim.inProgress at hnone ⊢
      rw [filter_cons_of_pos (by simpa using hnot), hnone])
    haction
  rw [ht'] at ht
  cases ht
  exact hinv

theorem Inv.callback {k : Sim} (h : Inv k) (hbusy : k.state = .busy) (status : CamStatus) :
    ∃ t, Cam.callback { k with action := none, status := status } = some t ∧ Inv t ∧
      (status ≠ .reqCmp → t.state = .idle) := by
  obtain ⟨r, hreq, hprog, hcb, -⟩ := h.busy hbusy
  obtain ⟨t, ht, hinv, hidle⟩ :=
    @inv_csioCallback { k with action := none, status := status } r hbusy hreq h.once hprog rfl
  grind [Cam.callback]

theorem Inv.ccbCallback {k : Sim} (h : Inv k) (hstate : k.state = .initBusy) (status : CamStatus) :
    ∃ t, Cam.callback { k with action := none, status := status } = some t ∧ Inv t := by
  refine ⟨{ k with action := none, status := status, state := .initReady }, ?_, ?_⟩
  · unfold Cam.callback Cam.ccbCallback
    simp [h.initBusy hstate, hstate]
  · exact ⟨h.once, nofun, fun _ => h.other (by simp [hstate]), nofun, nofun⟩

theorem inv_step {k t : Sim} {a : Action} (h : Inv k) (ha : ∀ r bufs, a ≠ .request r .sync bufs)
    (ht : step k a = some t) : Inv t := by
  obtain ⟨-, ht⟩ := ite_none_left_eq_some.mp ht
  cases a with
  | initAction =>
    obtain ⟨hs, ⟨⟩⟩ := ite_none_right_eq_some.mp ht
    exact ⟨h.once, nofun, fun _ => h.other (by simp [hs]), fun _ => rfl, fun _ => .inr rfl⟩
  | initFinish =>
    obtain ⟨hs, ⟨⟩⟩ := ite_none_right_eq_some.mp ht
    refine ⟨h.once, nofun, fun _ => h.other (by simp [hs]), nofun, fun hact => ?_⟩
    rcases h.action hact with hb | hb <;> rw [hs] at hb <;> cases hb
  | initialized disk =>
    obtain ⟨hs, ⟨⟩⟩ := ite_none_right_eq_some.mp ht
    refine ⟨h.once, nofun, fun _ => h.other (by simp [hs]), nofun, fun hact => ?_⟩
    rcases h.action hact with hb | hb <;> rw [hs] at hb <;> cases hb
  | request r kind bufs =>
    obtain ⟨⟨hs, hr⟩, ht⟩ := ite_none_right_eq_some.mp ht
    cases kind with
    | read => exact inv_accept h hs hr ht
    | write => exact inv_accept h hs hr ht
    | sync => exact absurd rfl (ha r bufs)
  | complete status =>
    obtain ⟨hact, ht⟩ := ite_none_right_eq_some.mp ht
    rcases h.action hact with hs | hs
    · obtain ⟨t', ht', hinv, -⟩ := h.callback hs status
      rw [ht'] at ht
      cases ht
      exact hinv
    · obtain ⟨t', ht', hinv⟩ := h.ccbCallback hs status
      rw [ht'] at ht
      cases ht
      exact hinv
  | cancel =>
    obtain ⟨hs, ht⟩ := ite_none_right_eq_some.mp ht
    obtain ⟨t', ht', hinv, -⟩ := h.callback hs .selTimeout
    rw [ht'] at ht
    cases ht
    exact hinv
  | deleted =>
    obtain ⟨⟨hs, -⟩, ⟨⟩⟩ := ite_none_right_eq_some.mp ht
    refine ⟨h.once, nofun, fun _ => h.other (by simp [hs]), nofun, fun hact => ?_⟩
    rcases h.action hact with hb | hb <;> rw [hs] at hb <;> cases hb
  | free =>
    obtain ⟨-, ⟨⟩⟩ := ite_none_right_eq_some.mp ht
    exact ⟨h.once, h.busy, h.other, h.initBusy, h.action⟩

theorem Inv.proper {k : Sim} (h : Inv k) : Proper k := by
  refine ⟨h.once, ⟨?_, ?_⟩, ?_, ?_⟩
  · by_cases hs : k.state = .busy
    · obtain ⟨r, -, hprog, -⟩ := h.busy hs
      rw [hprog]
      exact Nat.le_refl _
    · rw [h.other hs]
      exact Nat.zero_le _
  · intro r hr
    by_cases hs : k.state = .busy
    · obtain ⟨r', hreq, hprog, -, hact⟩ := h.busy hs
      rw [hprog, mem_singleton] at hr
      exact ⟨hs, hr ▸ hreq, hact⟩
    · rw [h.other hs] at hr
      cases hr
  · intro hnone
    cases hs : k.state with
    | busy =>
      obtain ⟨r, -, hprog, -⟩ := h.busy hs
      rw [hnone] at hprog
      cases hprog
    | init | initBusy | initReady | idle | deleted => simp
  · intro hfreed hs
    obtain ⟨t, ht, -, hidle⟩ := h.callback hs .selTimeout
    refine ⟨t, ?_, hidle nofun⟩
    unfold step
    rw [if_neg (by simp [hfreed])]
    simp only [hs, if_true]
    rw [← ht, hs]

/-! ## Runs -/

theorem not_proper_refused {k t : Sim} {r : Nat} {bufs : List SgBuffer} (h : Inv k)
    (ht : step k (.request r .sync bufs) = some t) : ¬ Proper t := by
  obtain ⟨-, ht⟩ := ite_none_left_eq_some.mp ht
  obtain ⟨⟨hs, -⟩, ⟨⟩⟩ := ite_none_right_eq_some.mp ht
  intro hp
  rcases hp.idle (h.other (by simp [hs])) with hidle | hidle | hidle | hidle | hidle <;> cases hidle

/-- **Requests are completed exactly once, one at a time, and the SIM is idle between them, in every run exactly
    if all requests are reads and writes.** -/
theorem proper_iff (as : List Action) :
    StepsMeet step (fun k a => ∀ t ∈ step k a, Proper t) camSimAlloc as ↔
      StepsMeet step ReadWrite camSimAlloc as := by
  have hcall : ∀ k a, Inv k → ((∀ t ∈ step k a, Proper t) ↔ ReadWrite k a) := by
    intro k a h
    constructor
    · rintro hp hsome r bufs rfl
      obtain ⟨t, ht⟩ := isSome_iff_exists.mp hsome
      exact not_proper_refused h ht (hp t ht)
    · intro hrw t ht
      exact (inv_step h (hrw (isSome_iff_exists.mpr ⟨t, ht⟩)) ht).proper
  have hstep : ∀ k a t, Inv k → (∀ t ∈ step k a, Proper t) → step k a = some t → Inv t := by
    intro k a t h hp ht
    exact inv_step h ((hcall k a h).mp hp (isSome_iff_exists.mpr ⟨t, ht⟩)) ht
  exact stepsMeet_congr_of_invariant hcall hstep as camSimAlloc inv_camSimAlloc

/-- After a synchronisation request was refused, the SIM is busy without a request. -/
theorem syncRequest_blocks :
    ¬ StepsMeet step (fun k a => ∀ t ∈ step k a, Proper t) camSimAlloc
      [.initialized true, .request 1 .sync []] := by
  rintro ⟨-, h⟩
  obtain ⟨h, -⟩ := h _ rfl
  rcases (h _ rfl).idle rfl with hs | hs | hs | hs | hs <;> cases hs

end RtemsLibbsd.Cam
