import RtemsLibbsd.Transition
import Mathlib.Data.List.Nodup
import Mathlib.Logic.Function.Basic

/-!
# File handlers of devices

The handlers of a device file in `rtemsbsd/sys/fs/devfs/devfs_devs.c`: `devfs_imfs_open`, `_close`,
`_readv`, `_writev`, `_ioctl`, `_poll` and `_kqfilter`, with `dev_refthread` and `dev_relthread` of
`kern_conf.c`, and `falloc`, `fget_unlocked`, `fdclose` and `fdrop` as far as they concern the table of BSD
descriptors and the reference counts of files.

The device an I/O object belongs to, whether there is a thread structure, what the allocation of a
descriptor gives and what the driver returns are arguments of a call.  Devices change between calls in any
way (they are destroyed, become aliases).  A reference of the I/O object goes with each reference of its
file, and is not modelled.

* `imfsCall` — what most handlers do; `devfsImfsOpen` and `devfsImfsKqfilter` are different.
* `Balanced` — what a handler has to do.
* `Keeps` — the same for a step of a sequence of calls, after which there also have to be as many BSD
  descriptors as open devices.
* `Sound` — the condition under which a step does; `keeps_of_sound` and `sound_of_keeps` are about one step,
  `devices_iff` about sequences of them.

`devfs_imfs_open` keeps a reference of the new file if the driver refuses, `devfs_imfs_close` leaves the
BSD descriptor allocated, and `devfs_imfs_kqfilter` goes on without a device or without a driver.
-/

namespace RtemsLibbsd.Devfs.Imfs

open Option Function Transition

/-! ## Devices and files -/

def enxio : Nat := 6
def EBADF : Nat := 9
def ENOMEM : Nat := 12
def POLLERR : Nat := 8

/-- The parts of a device that the handlers use: the parent of an alias, whether there is a `si_devsw`,
    `CDP_SCHED_DTR`, `SI_ETERNAL` and `si_threadcount`. -/
structure Cdev where
  siParent : Option Nat
  devsw : Bool
  schedDtr : Bool
  eternal : Bool
  threadcount : Nat

/-- A call of a function of a driver: the device, its `si_threadcount` and `td_fpop` at that time. -/
structure DriverCall where
  dev : Nat
  threadcount : Nat
  fpop : Option Nat

/-- The devices, `td_fpop` of the threads, the table of BSD descriptors with their files, `f_count` of the
    files and whether they have a `f_cdevpriv`, the open device descriptors with their BSD descriptors, and
    the calls of drivers so far. -/
structure State where
  cdevs : Nat → Cdev
  fpop : Nat → Option Nat
  table : List (Nat × Nat)
  count : Nat → Nat
  priv : Nat → Bool
  nextFile : Nat
  opened : List (Nat × Nat)
  calls : List DriverCall

/-- `dev_refthread`: the driver, if it can be used, and whether the reference counts. -/
def devRefthread (c : Cdev) : Option (Cdev × Bool) :=
  if c.eternal then (if c.devsw then some (c, false) else none)
  else if c.devsw ∧ ¬ c.schedDtr then some ({ c with threadcount := c.threadcount + 1 }, true)
  else none

def devRelthread (c : Cdev) (ref : Bool) : Cdev :=
  if ref then { c with threadcount := c.threadcount - 1 } else c

def State.setCdev (k : State) (d : Nat) (c : Cdev) : State :=
  { k with cdevs := update k.cdevs d c }

def fdrop (k : State) (f : Nat) : State :=
  { k with count := update k.count f (k.count f - 1) }

/-- `rtems_bsd_libio_iop_to_file_hold`. -/
def iopToFileHold (k : State) (iop : Nat) : Option (Nat × State) :=
  ((k.opened.lookup iop).bind fun fd => k.table.lookup fd).map fun f =>
    (f, { k with count := update k.count f (k.count f + 1) })

/-- `falloc` with the new descriptor `fd`; the caller and the table have a reference of the file. -/
def falloc (k : State) (fd : Nat) : State :=
  { k with
    table := (fd, k.nextFile) :: k.table
    count := update k.count k.nextFile 2
    priv := update k.priv k.nextFile false
    nextFile := k.nextFile + 1 }

def fdclose (k : State) (f fd : Nat) : State :=
  if k.table.lookup fd = some f then fdrop { k with table := k.table.filter fun e => e.1 ≠ fd } f else k

/-! ## Handlers -/

/-- What a handler depends on: the thread and whether it has a thread structure, the I/O object and the
    device `IMFS_generic_get_context_by_iop` gives for it, and what the driver does: its error, the number
    of bytes that remain, and whether it leaves private data at the file. -/
structure Ctx where
  thread : Nat
  td : Bool
  iop : Nat
  cdev : Option Nat
  error : Nat
  resid : Int
  priv : Bool

def State.target (k : State) (d : Nat) : Nat := (k.cdevs d).siParent.getD d

/-- The driver is called with `td_fpop` set to the file. -/
def callDriver (k : State) (x : Ctx) (d f : Nat) : State :=
  let fpop := k.fpop x.thread
  let k := { k with fpop := update k.fpop x.thread (some f) }
  let k := { k with
    calls := k.calls ++ [DriverCall.mk d (k.cdevs d).threadcount (k.fpop x.thread)]
    priv := update k.priv f x.priv }
  { k with fpop := update k.fpop x.thread fpop }

/-- What most handlers do, up to their return value.  `gone` is the error when there is no device, and
    `after` what is done with the file when the driver has returned. -/
def imfsCall (k : State) (x : Ctx) (gone : Nat) (after : State → Nat → State) : Nat × State :=
  if x.td then
    match x.cdev with
    | none => (gone, k)
    | some d =>
      let d := k.target d
      match iopToFileHold k x.iop with
      | none => (EBADF, k)
      | some (f, k) =>
        match devRefthread (k.cdevs d) with
        | none => (gone, fdrop k f)
        | some (c, ref) =>
          let k := after (callDriver (k.setCdev d c) x d f) f
          (x.error, fdrop (k.setCdev d (devRelthread (k.cdevs d) ref)) f)
  else (ENOMEM, k)

/-- `rtems_bsd_error_to_status_and_errno`, and the return values of reads and writes. -/
inductive Ret where
  | value (v : Int)
  | minusOne (errno : Nat)

def toStatus (error : Nat) : Ret := if error = 0 then .value 0 else .minusOne error

structure Out where
  error : Nat
  ret : Ret
  st : State

/-- `devfs_imfs_open`; `alloc` is the result of `falloc`.  After an error of the driver
    `devfs_clear_cdevpriv` is called while `td_fpop` is set. -/
def devfsImfsOpen (k : State) (x : Ctx) (alloc : Except Nat Nat) : Out :=
  if x.td then
    match x.cdev with
    | none => ⟨enxio, toStatus enxio, k⟩
    | some d =>
      match alloc with
      | .error e => ⟨e, toStatus e, k⟩
      | .ok fd =>
        let f := k.nextFile
        let k := falloc k fd
        let d := k.target d
        match devRefthread (k.cdevs d) with
        | none => ⟨enxio, toStatus enxio, fdclose k f fd⟩
        | some (c, ref) =>
          let k := callDriver (k.setCdev d c) x d f
          let k := if x.error ≠ 0 then { k with priv := update k.priv f false } else k
          let k := k.setCdev d (devRelthread (k.cdevs d) ref)
          ⟨x.error, toStatus x.error, if x.error ≠ 0 then fdclose k f fd else fdrop k f⟩
  else ⟨ENOMEM, toStatus ENOMEM, k⟩

/-- `devfs_imfs_close`; `devfs_fpdrop` releases the private data. -/
def devfsImfsClose (k : State) (x : Ctx) : Out :=
  let r := imfsCall k x enxio fun k f =>
    if k.priv f then { k with priv := update k.priv f false } else k
  ⟨r.1, toStatus r.1, r.2⟩

/-- `devfs_imfs_readv` and `devfs_imfs_writev`. -/
def transfer (k : State) (x : Ctx) (total : Int) : Out :=
  let r := imfsCall k x enxio fun k _ => k
  ⟨r.1, if r.1 = 0 then .value (total - x.resid) else .minusOne r.1, r.2⟩

def devfsImfsReadv (k : State) (x : Ctx) (total : Int) : Out := transfer k x total

def devfsImfsWritev (k : State) (x : Ctx) (total : Int) : Out := transfer k x total

def devfsImfsIoctl (k : State) (x : Ctx) : Out :=
  let r := imfsCall k x enxio fun k _ => k
  ⟨r.1, toStatus r.1, r.2⟩

def devfsImfsPoll (k : State) (x : Ctx) : Out :=
  let r := imfsCall k x POLLERR fun k _ => k
  ⟨r.1, .value r.1, r.2⟩

/-- `devfs_imfs_kqfilter`: without a device or without a driver the error is set, and the function
    goes on; using the pointer is undefined. -/
def devfsImfsKqfilter (k : State) (x : Ctx) : Option Out :=
  if x.td then
    match iopToFileHold k x.iop with
    | none => some ⟨EBADF, .value EBADF, k⟩
    | some (f, k) =>
      match x.cdev with
      | none => none
      | some d =>
        let d := k.target d
        match devRefthread (k.cdevs d) with
        | none => none
        | some (c, ref) =>
          let k := callDriver (k.setCdev d c) x d f
          let k := fdrop (k.setCdev d (devRelthread (k.cdevs d) ref)) f
          some ⟨x.error, .value x.error, k⟩
  else some ⟨ENOMEM, .value ENOMEM, k⟩

inductive Call where
  | openDev (x : Ctx) (alloc : Except Nat Nat)
  | close (x : Ctx)
  | readv (x : Ctx) (total : Int)
  | writev (x : Ctx) (total : Int)
  | ioctl (x : Ctx)
  | poll (x : Ctx)
  | kqfilter (x : Ctx)

def Call.exec (k : State) : Call → Option Out
  | .openDev x alloc => some (devfsImfsOpen k x alloc)
  | .close x => some (devfsImfsClose k x)
  | .readv x total => some (devfsImfsReadv k x total)
  | .writev x total => some (devfsImfsWritev k x total)
  | .ioctl x => some (devfsImfsIoctl k x)
  | .poll x => some (devfsImfsPoll k x)
  | .kqfilter x => devfsImfsKqfilter k x

def Call.ctx : Call → Ctx
  | .openDev x _ | .close x | .readv x _ | .writev x _ | .ioctl x | .poll x | .kqfilter x => x

/-- An I/O object and its BSD descriptor are new in an open, and `falloc` gives a descriptor or an error;
    the other handlers are called for open descriptors. -/
def Call.enabled (k : State) : Call → Bool
  | .openDev x alloc =>
    (k.opened.lookup x.iop).isNone &&
      match alloc with
      | .error e => e ≠ 0
      | .ok fd => (k.table.lookup fd).isNone
  | c => (k.opened.lookup c.ctx.iop).isSome

/-- What the I/O library does with the descriptor after the handler: it is open if the open was successful,
    and it is free after a close. -/
def Call.library (c : Call) (o : Out) : State :=
  match c with
  | .openDev x (.ok fd) => if o.error = 0 then { o.st with opened := (x.iop, fd) :: o.st.opened } else o.st
  | .close x => { o.st with opened := o.st.opened.filter fun e => e.1 ≠ x.iop }
  | _ => o.st

inductive Action where
  | call (c : Call)
  | change (d : Nat) (c : Cdev)

def step (k : State) : Action → Option State
  | .call c => if c.enabled k then (c.exec k).map c.library else none
  | .change d c => some (k.setCdev d { c with threadcount := (k.cdevs d).threadcount })

def boot (cdevs : Nat → Cdev) : State :=
  ⟨cdevs, fun _ => none, [], fun _ => 0, fun _ => false, 0, [], []⟩

/-! ## What a handler has to do -/

def Call.isOpen : Call → Bool
  | .openDev _ _ => true
  | _ => false

/-- **What a handler has to do**: the references of the device and of the file are released, but for the
    reference of the table of descriptors in a successful open; `td_fpop` is restored; the driver is called
    while the thread has a reference of the device; and there is an error if it is not called. -/
structure Balanced (k : State) (c : Call) (o : Out) : Prop where
  cdevs : o.st.cdevs = k.cdevs
  fpop : o.st.fpop = k.fpop
  count : ∀ f, o.st.count f = k.count f + if c.isOpen ∧ o.error = 0 ∧ f = k.nextFile then 1 else 0
  calls : ∃ new, o.st.calls = k.calls ++ new ∧
    (∀ v ∈ new, (k.cdevs v.dev).eternal ∨ v.threadcount = (k.cdevs v.dev).threadcount + 1) ∧
    (new = [] → o.error ≠ 0)

/-- A step has to keep references balanced, and there have to be as many BSD descriptors as open devices
    after it. -/
def Keeps (k : State) : Action → Prop
  | .change _ _ => True
  | .call c => c.enabled k →
    (∃ o, c.exec k = some o ∧ Balanced k c o) ∧
    ∀ t ∈ step k (.call c), t.table.length = t.opened.length

def State.available (k : State) (x : Ctx) : Bool :=
  x.cdev.any fun d => (devRefthread (k.cdevs (k.target d))).isSome

/-- No device is closed; the driver can be used and succeeds once a descriptor is allocated, and it can be
    used if there is a thread structure in `devfs_imfs_kqfilter`. -/
def Sound (k : State) : Action → Prop
  | .change _ _ => True
  | .call c => c.enabled k →
    match c with
    | .openDev x alloc =>
      x.td = false ∨ x.cdev = none ∨ (∃ e, alloc = .error e) ∨ (k.available x ∧ x.error = 0)
    | .close _ => False
    | .kqfilter x => x.td = false ∨ k.available x
    | _ => True

/-! ## References -/

theorem devRelthread_refthread {c c' : Cdev} {ref : Bool} (h : devRefthread c = some (c', ref)) :
    devRelthread c' ref = c ∧ (c.eternal ∨ c'.threadcount = c.threadcount + 1) := by
  unfold devRefthread at h
  split at h <;> rename_i he
  · split at h
    · cases h
      exact ⟨rfl, .inl he⟩
    · cases h
  · split at h
    · cases h
      exact ⟨rfl, .inr rfl⟩
    · cases h

theorem callDriver_spec (k : State) (x : Ctx) (d f : Nat) :
    ∃ p, callDriver k x d f = { k with
      calls := k.calls ++ [⟨d, (k.cdevs d).threadcount, some f⟩]
      priv := p } := by
  simp [callDriver]

theorem driver_spec {k : State} {x : Ctx} {d f : Nat} {c : Cdev} {ref : Bool} {after : State → Nat → State}
    (hafter : ∀ k f, ∃ p, after k f = { k with priv := p }) (h : devRefthread (k.cdevs d) = some (c, ref)) :
    ∃ p, (let k := after (callDriver (k.setCdev d c) x d f) f
        k.setCdev d (devRelthread (k.cdevs d) ref)) =
      { k with calls := k.calls ++ [⟨d, c.threadcount, some f⟩], priv := p } := by
  obtain ⟨p, hp⟩ := callDriver_spec (k.setCdev d c) x d f
  obtain ⟨q, hq⟩ := hafter (callDriver (k.setCdev d c) x d f) f
  refine ⟨q, ?_⟩
  simp only [hq]
  simp only [hp]
  simp [State.setCdev, (devRelthread_refthread h).1]

theorem fdrop_hold {k : State} {f : Nat} {calls : List DriverCall} {p : Nat → Bool} :
    fdrop { k with count := update k.count f (k.count f + 1), calls := calls, priv := p } f =
      { k with calls := calls, priv := p } := by
  simp [fdrop]

/-- The handlers that are alike: nothing changes but the private data and the calls of the driver. -/
theorem imfsCall_spec {k : State} {x : Ctx} {gone : Nat} {after : State → Nat → State} (hgone : gone ≠ 0)
    (hafter : ∀ k f, ∃ p, after k f = { k with priv := p }) :
    ∃ p new, (imfsCall k x gone after).2 = { k with priv := p, calls := k.calls ++ new } ∧
      (∀ v ∈ new, (k.cdevs v.dev).eternal ∨ v.threadcount = (k.cdevs v.dev).threadcount + 1) ∧
      (new = [] → (imfsCall k x gone after).1 ≠ 0) := by
  have hnone : ∀ e : Nat, e ≠ 0 → ∃ p new, k = { k with priv := p, calls := k.calls ++ new } ∧
      (∀ v ∈ new, (k.cdevs v.dev).eternal ∨ v.threadcount = (k.cdevs v.dev).threadcount + 1) ∧
      (new = [] → e ≠ 0) :=
    fun e he => ⟨k.priv, [], by simp, fun _ h => absurd h List.not_mem_nil, fun _ => he⟩
  unfold imfsCall
  split
  · split
    · exact hnone gone hgone
    · simp only
      split
      · exact hnone EBADF (by decide)
      · rename_i f k' hhold
        obtain ⟨g, -, heq⟩ := map_eq_some_iff.mp hhold
        cases heq
        split
        · rw [fdrop_hold]
          exact hnone gone hgone
        · rename_i c ref href
          obtain ⟨p, hp⟩ := driver_spec (x := x) (f := f) hafter href
          grind [fdrop_hold, devRefthread]
  · exact hnone ENOMEM (by decide)

theorem balanced_refused {k : State} {c : Call} {e : Nat} {ret : Ret} (he : e ≠ 0) : Balanced k c ⟨e, ret, k⟩ where
  cdevs := rfl
  fpop := rfl
  count := fun f => by simp [he]
  calls := ⟨[], by simp, fun _ h => absurd h List.not_mem_nil, fun _ => he⟩

theorem balanced_imfsCall {k : State} {x : Ctx} {gone : Nat} {after : State → Nat → State} {c : Call} {ret : Ret}
    (hc : c.isOpen = false) (hgone : gone ≠ 0) (hafter : ∀ k f, ∃ p, after k f = { k with priv := p }) :
    Balanced k c ⟨(imfsCall k x gone after).1, ret, (imfsCall k x gone after).2⟩ := by
  obtain ⟨p, new, hst, hheld, herror⟩ := imfsCall_spec (k := k) (x := x) hgone hafter
  constructor
  · simp [hst]
  · simp [hst]
  · simp [hst, hc]
  · exact ⟨new, by simp [hst], hheld, herror⟩

theorem imfsCall_tables {k : State} {x : Ctx} {gone : Nat} {after : State → Nat → State} (hgone : gone ≠ 0)
    (hafter : ∀ k f, ∃ p, after k f = { k with priv := p }) :
    ∃ p new, (imfsCall k x gone after).2 = { k with priv := p, calls := new } := by
  obtain ⟨p, new, hst, -⟩ := imfsCall_spec (k := k) (x := x) hgone hafter
  exact ⟨p, _, hst⟩

/-! ## The handlers that are different -/

theorem open_spec {k : State} {x : Ctx} {d fd : Nat} {c : Cdev} {ref : Bool} (htd : x.td = true)
    (hcdev : x.cdev = some d) (href : devRefthread (k.cdevs (k.target d)) = some (c, ref)) :
    ∃ p, devfsImfsOpen k x (.ok fd) =
      ⟨x.error, toStatus x.error,
        if x.error ≠ 0 then
          { k with
            count := update k.count k.nextFile 1
            nextFile := k.nextFile + 1
            calls := k.calls ++ [⟨k.target d, c.threadcount, some k.nextFile⟩]
            priv := p
            table := k.table.filter fun e => e.1 ≠ fd }
        else
          { k with
            count := update k.count k.nextFile 1
            nextFile := k.nextFile + 1
            calls := k.calls ++ [⟨k.target d, c.threadcount, some k.nextFile⟩]
            priv := p
            table := (fd, k.nextFile) :: k.table }⟩ := by
  obtain ⟨p, hp⟩ := @driver_spec (falloc k fd) x (k.target d) k.nextFile c ref
    (fun k f => if x.error ≠ 0 then { k with priv := update k.priv f false } else k)
    (by
      intro k f
      split
      · exact ⟨_, rfl⟩
      · exact ⟨k.priv, rfl⟩) href
  unfold devfsImfsOpen
  rw [if_pos htd, hcdev]
  have htarget : (falloc k fd).target d = k.target d := rfl
  have hcdevs : (falloc k fd).cdevs = k.cdevs := rfl
  simp only [htarget, hcdevs, href]
  rw [hp]
  split
  · simp [fdclose, falloc, fdrop]
  · simp [falloc, fdrop]

theorem open_gone {k : State} {x : Ctx} {d fd : Nat} (htd : x.td = true) (hcdev : x.cdev = some d)
    (href : devRefthread (k.cdevs (k.target d)) = none) :
    (devfsImfsOpen k x (.ok fd)).error = enxio ∧
      (devfsImfsOpen k x (.ok fd)).st.count k.nextFile = 1 := by
  unfold devfsImfsOpen
  rw [if_pos htd, hcdev]
  have htarget : (falloc k fd).target d = k.target d := rfl
  have hcdevs : (falloc k fd).cdevs = k.cdevs := rfl
  simp only [htarget, hcdevs, href]
  simp [fdclose, falloc, fdrop]

theorem kqfilter_spec {k : State} {x : Ctx} {d fd f : Nat} {c : Cdev} {ref : Bool} (htd : x.td = true)
    (hcdev : x.cdev = some d) (hfd : k.opened.lookup x.iop = some fd) (hf : k.table.lookup fd = some f)
    (href : devRefthread (k.cdevs (k.target d)) = some (c, ref)) :
    ∃ p, devfsImfsKqfilter k x = some ⟨x.error, .value x.error,
      { k with calls := k.calls ++ [⟨k.target d, c.threadcount, some f⟩], priv := p }⟩ := by
  obtain ⟨p, hp⟩ := @driver_spec { k with count := update k.count f (k.count f + 1) } x (k.target d) f
    c ref (fun k _ => k) (fun k _ => ⟨k.priv, rfl⟩) href
  unfold devfsImfsKqfilter iopToFileHold
  grind [State.target, fdrop_hold]

theorem kqfilter_gone {k : State} {x : Ctx} {fd f : Nat} (htd : x.td = true)
    (hfd : k.opened.lookup x.iop = some fd) (hf : k.table.lookup fd = some f)
    (hgone : k.available x = false) : devfsImfsKqfilter k x = none := by
  unfold devfsImfsKqfilter iopToFileHold
  grind [State.available, State.target]

/-! ## Sequences of calls -/

/-- New files have no references, open devices have a BSD descriptor, and there are as many of the one as of
    the other. -/
structure Wf (k : State) : Prop where
  fresh : ∀ f, k.nextFile ≤ f → k.count f = 0
  opened : ∀ iop fd, k.opened.lookup iop = some fd → (k.table.lookup fd).isSome
  length : k.table.length = k.opened.length

theorem wf_boot (cdevs : Nat → Cdev) : Wf (boot cdevs) where
  fresh := fun _ _ => rfl
  opened := fun _ _ h => nomatch h
  length := rfl

theorem Wf.same {k : State} (h : Wf k) {p : Nat → Bool} {new : List DriverCall} {cdevs : Nat → Cdev} :
    Wf { k with priv := p, calls := new, cdevs := cdevs } := ⟨h.fresh, h.opened, h.length⟩

theorem Wf.openDev {k : State} (h : Wf k) {iop fd : Nat} {p : Nat → Bool} {new : List DriverCall} :
    Wf { k with
      count := update k.count k.nextFile 1
      nextFile := k.nextFile + 1
      calls := new
      priv := p
      table := (fd, k.nextFile) :: k.table
      opened := (iop, fd) :: k.opened } := by
  constructor
  · intro f hf
    grind [h.fresh]
  · intro i g hi
    grind [h.opened]
  · simp [h.length]

theorem step_call {k t : State} {c : Call} :
    step k (.call c) = some t ↔ c.enabled k = true ∧ ∃ o, c.exec k = some o ∧ c.library o = t := by
  simp [step]

theorem keeps_of_exec {k : State} {c : Call} {o : Out} (hex : c.exec k = some o) (hb : Balanced k c o)
    (hwf : Wf (c.library o)) : Keeps k (.call c) ∧ ∀ t ∈ step k (.call c), Wf t := by
  have ht : ∀ t ∈ step k (.call c), Wf t := by
    intro t ht
    obtain ⟨-, o', hex', rfl⟩ := step_call.mp ht
    rw [hex] at hex'
    cases hex'
    exact hwf
  exact ⟨fun _ => ⟨⟨o, hex, hb⟩, fun t h => (ht t h).length⟩, ht⟩

theorem keeps_imfsCall {k : State} {c : Call} {gone : Nat} {after : State → Nat → State} {ret : Ret} (h : Wf k)
    (hc : c.isOpen = false) (hlib : ∀ o, c.library o = o.st) (hgone : gone ≠ 0)
    (hafter : ∀ k f, ∃ p, after k f = { k with priv := p })
    (hex : c.exec k = some ⟨(imfsCall k c.ctx gone after).1, ret, (imfsCall k c.ctx gone after).2⟩) :
    Keeps k (.call c) ∧ ∀ t ∈ step k (.call c), Wf t := by
  refine keeps_of_exec hex (balanced_imfsCall hc hgone hafter) ?_
  obtain ⟨p, new, hst⟩ := imfsCall_tables (k := k) (x := c.ctx) hgone hafter
  rw [hlib, hst]
  exact h.same

theorem after_same : ∀ (k : State) (f : Nat), ∃ p, (fun (k : State) (_ : Nat) => k) k f = { k with priv := p } :=
  fun k _ => ⟨k.priv, rfl⟩

theorem after_fpdrop : ∀ (k : State) (f : Nat), ∃ p,
    (if k.priv f then { k with priv := update k.priv f false } else k) = { k with priv := p } := by
  intro k f
  split
  · exact ⟨_, rfl⟩
  · exact ⟨k.priv, rfl⟩

theorem length_filter_lt {l : List (Nat × Nat)} {i : Nat} (h : (l.lookup i).isSome = true) :
    (l.filter fun e => e.1 ≠ i).length < l.length := by
  obtain ⟨fd, hfd⟩ := isSome_iff_exists.mp h
  obtain ⟨l₁, l₂, rfl, -⟩ := List.lookup_eq_some_iff.mp hfd
  refine List.length_filter_lt_length_iff_exists.mpr ⟨(i, fd), by simp, by simp⟩

theorem keeps_openDev {k : State} {x : Ctx} {d fd : Nat} (h : Wf k) (htd : x.td = true)
    (hcdev : x.cdev = some d) (hav : k.available x = true) (herr : x.error = 0) :
    Keeps k (.call (.openDev x (.ok fd))) ∧ ∀ t ∈ step k (.call (.openDev x (.ok fd))), Wf t := by
  have hsome : (devRefthread (k.cdevs (k.target d))).isSome = true := by
    simpa [State.available, hcdev] using hav
  obtain ⟨⟨c, ref⟩, href⟩ := isSome_iff_exists.mp hsome
  obtain ⟨p, hp⟩ := @open_spec k x d fd c ref htd hcdev href
  rw [if_neg (by simpa using herr)] at hp
  have hex : (Call.openDev x (.ok fd)).exec k = some _ := congrArg some hp
  refine keeps_of_exec hex ?_ ?_
  · refine ⟨rfl, rfl, ?_, [⟨k.target d, c.threadcount, some k.nextFile⟩], rfl, ?_, nofun⟩
    · intro f
      by_cases hf : f = k.nextFile
      · subst hf
        simp [Call.isOpen, herr, h.fresh k.nextFile (Nat.le_refl _)]
      · simp [hf]
    · intro v hv
      cases List.mem_singleton.mp hv
      exact (devRelthread_refthread href).2
  · simp only [Call.library, if_pos herr]
    exact h.openDev

/-- An open that gets a descriptor keeps a reference of the file if the driver cannot be used or fails. -/
theorem sound_of_openDev {k : State} {x : Ctx} {d fd : Nat} (h : Wf k)
    (hen : (Call.openDev x (.ok fd)).enabled k = true) (htd : x.td = true) (hcdev : x.cdev = some d)
    (hkeeps : Keeps k (.call (.openDev x (.ok fd)))) : k.available x ∧ x.error = 0 := by
  obtain ⟨⟨o, hex, hb⟩, -⟩ := hkeeps hen
  have hcount := hb.count k.nextFile
  rw [h.fresh k.nextFile (Nat.le_refl _)] at hcount
  cases hex
  cases href : devRefthread (k.cdevs (k.target d)) with
  | none =>
    grind [open_gone, enxio]
  | some r =>
    obtain ⟨c, ref⟩ := r
    obtain ⟨p, hp⟩ := @open_spec k x d fd c ref htd hcdev href
    refine ⟨by simp [State.available, hcdev, href], ?_⟩
    by_contra herr
    rw [hp, if_pos herr] at hcount
    simp [herr] at hcount

theorem keeps_of_sound {k : State} {a : Action} (h : Wf k) (hs : Sound k a) :
    Keeps k a ∧ ∀ t ∈ step k a, Wf t := by
  cases a with
  | change d c =>
    refine ⟨trivial, ?_⟩
    rintro t ⟨⟩
    exact h.same
  | call c =>
    by_cases hen : c.enabled k = true
    · have hs := hs hen
      cases c with
      | openDev x alloc =>
        cases htd : x.td with
        | false =>
          have hex : (Call.openDev x alloc).exec k = some ⟨ENOMEM, toStatus ENOMEM, k⟩ := by
            simp [Call.exec, devfsImfsOpen, htd]
          refine keeps_of_exec hex (balanced_refused (by decide)) ?_
          cases alloc <;> exact h
        | true =>
          cases hcdev : x.cdev with
          | none =>
            have hex : (Call.openDev x alloc).exec k = some ⟨enxio, toStatus enxio, k⟩ := by
              simp [Call.exec, devfsImfsOpen, htd, hcdev]
            refine keeps_of_exec hex (balanced_refused (by decide)) ?_
            cases alloc <;> exact h
          | some d =>
            cases alloc with
            | error e =>
              have he : e ≠ 0 := by
                have := (Bool.and_eq_true_iff.mp hen).2
                simpa using this
              have hex : (Call.openDev x (.error e)).exec k = some ⟨e, toStatus e, k⟩ := by
                simp [Call.exec, devfsImfsOpen, htd, hcdev]
              exact keeps_of_exec hex (balanced_refused he) h
            | ok fd =>
              grind [keeps_openDev]
      | close x => exact hs.elim
      | readv x total => exact keeps_imfsCall h rfl (fun _ => rfl) (by decide) after_same rfl
      | writev x total => exact keeps_imfsCall h rfl (fun _ => rfl) (by decide) after_same rfl
      | ioctl x => exact keeps_imfsCall h rfl (fun _ => rfl) (by decide) after_same rfl
      | poll x => exact keeps_imfsCall h rfl (fun _ => rfl) (by decide) after_same rfl
      | kqfilter x =>
        obtain ⟨fd, hfd⟩ := isSome_iff_exists.mp hen
        obtain ⟨f, hf⟩ := isSome_iff_exists.mp (h.opened _ _ hfd)
        cases htd : x.td with
        | false =>
          have hex : (Call.kqfilter x).exec k = some ⟨ENOMEM, .value ENOMEM, k⟩ := by
            simp [Call.exec, devfsImfsKqfilter, htd]
          exact keeps_of_exec hex (balanced_refused (by decide)) h
        | true =>
          have hav : k.available x = true := hs.resolve_left (by simp [htd])
          obtain ⟨d, hcdev, href⟩ := (any_eq_true _ _).mp hav
          obtain ⟨⟨c, ref⟩, href⟩ := isSome_iff_exists.mp href
          obtain ⟨p, hex⟩ := kqfilter_spec htd hcdev hfd hf href
          refine @keeps_of_exec k (.kqfilter x) _ hex ?_ h.same
          refine ⟨rfl, rfl, fun f => by simp [Call.isOpen], [⟨k.target d, c.threadcount, some f⟩], rfl, ?_, nofun⟩
          intro v hv
          cases List.mem_singleton.mp hv
          exact (devRelthread_refthread href).2
    · grind [Keeps, step]

theorem sound_of_keeps {k : State} {a : Action} (h : Wf k) (hk : Keeps k a) : Sound k a := by
  cases a with
  | change d c => trivial
  | call c =>
    intro hen
    cases c with
    | openDev x alloc =>
      cases htd : x.td with
      | false => exact .inl htd
      | true =>
        cases hcdev : x.cdev with
        | none => exact .inr (.inl hcdev)
        | some d =>
          cases alloc with
          | error e => exact .inr (.inr (.inl ⟨e, rfl⟩))
          | ok fd => exact .inr (.inr (.inr (sound_of_openDev h hen htd hcdev hk)))
    | close x =>
      -- the descriptor is closed, and the BSD descriptor is not
      have hlen := (hk hen).2 _ (step_call.mpr ⟨hen, _, rfl, rfl⟩)
      obtain ⟨p, new, hst⟩ := @imfsCall_tables k x enxio
        (fun k f => if k.priv f then { k with priv := update k.priv f false } else k) (by decide) after_fpdrop
      simp only [Call.library, devfsImfsClose, hst, h.length] at hlen
      exact Nat.ne_of_gt (length_filter_lt hen) hlen
    | readv | writev | ioctl | poll => trivial
    | kqfilter x =>
      obtain ⟨fd, hfd⟩ := isSome_iff_exists.mp hen
      obtain ⟨f, hf⟩ := isSome_iff_exists.mp (h.opened _ _ hfd)
      cases htd : x.td with
      | false => exact .inl htd
      | true =>
        refine .inr ?_
        by_contra hav
        obtain ⟨⟨o, hex, -⟩, -⟩ := hk hen
        have hnone := @kqfilter_gone k x fd f htd hfd hf (by simpa using hav)
        rw [show (Call.kqfilter x).exec k = devfsImfsKqfilter k x from rfl, hnone] at hex
        cases hex

/-- **The handlers keep references and descriptors balanced in a sequence of calls exactly if every call meets
    the condition**: no device is closed, and so on. -/
theorem devices_iff (cdevs : Nat → Cdev) (as : List Action) :
    StepsMeet step Keeps (boot cdevs) as ↔ StepsMeet step Sound (boot cdevs) as := by
  have hcall : ∀ k a, Wf k → (Keeps k a ↔ Sound k a) :=
    fun k a h => ⟨sound_of_keeps h, fun hs => (keeps_of_sound h hs).1⟩
  have hstep : ∀ k a t, Wf k → Keeps k a → step k a = some t → Wf t :=
    fun k a t h hk ht => (keeps_of_sound h (sound_of_keeps h hk)).2 t ht
  exact stepsMeet_congr_of_invariant hcall hstep as (boot cdevs) (wf_boot cdevs)

/-- After an open and a close of a device its BSD descriptor is still allocated. -/
theorem close_leaks :
    ¬ StepsMeet step Keeps (boot fun _ => ⟨none, true, false, false, 0⟩)
      [.call (.openDev ⟨0, true, 5, some 1, 0, 0, false⟩ (.ok 3)),
        .call (.close ⟨0, true, 5, some 1, 0, 0, false⟩)] := by
  rintro ⟨-, h⟩
  obtain ⟨h, -⟩ := h _ rfl
  have hlen := (h rfl).2 _ rfl
  cases hlen

end RtemsLibbsd.Devfs.Imfs
