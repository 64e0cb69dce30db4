import Mathlib.Data.List.Nodup
import Mathlib.Order.Nat
import RtemsLibbsd.Libio
import RtemsLibbsd.Transition

/-!
# System calls that create descriptors

Model of `socket`, `socketpair`, `kqueue` and `accept` of `rtemsbsd/rtems/rtems-bsd-syscall-api.c`,
over the two tables of `RtemsLibbsd.Libio`, with `kern_socket`, `kern_socketpair` and `kern_kqueue` as far
as they create descriptors.

* The results of checks and allocations are chosen by the caller of the model.  `ripped` says that
  another task closes a new BSD descriptor before it is bound to its libio object; only then does
  `rtems_bsd_libio_iop_set_bsd_fd` fail.
* `rtems_libio_free` clears the object and appends it to the list of free ones.
* `NoTrace` — a call that fails has opened and closed no BSD descriptor and allocated and freed no
  libio object.
* **`noTrace_iff`** — in every state that is reached, `accept` and `socket` leave no trace; `kqueue` leaves
  none unless the descriptor was ripped and the number of its libio object is an open BSD descriptor;
  `socketpair` leaves none exactly if it succeeds, or does not get as far as to have two libio
  objects, or BSD descriptor 0 is not open and no descriptor is left over.

`kqueue` closes the libio number instead of the BSD number, and `socketpair` reads the BSD numbers out
of its libio objects before they are there (`failedPair_closes`).
-/

namespace RtemsLibbsd.Libio

open List RtemsLibbsd.Transition

def State.rip (s : State) (ripped : Bool) (fd : Nat) : State := if ripped then fdclose s fd else s

def rtemsBsdLibioIopFree (s : State) (i : Nat) : State :=
  { s.modIop i (fun o => { o with isOpen := false, handlers := .foreign, data0 := 0, bound := none }) with
    freeIops := s.freeIops ++ [i] }

def kernClose (s : State) (fd : Int) : State :=
  match bsdEntry s fd with
  | none => s
  | some _ => fdclose s fd.toNat

def finit (s : State) (f : FileId) (ftype : FType) : State :=
  { s with files := fun g => if g = f then ⟨ftype, false, none⟩ else s.files g }

/-- What `socket` and `kqueue` depend on: whether there is a thread structure, the check before the
    allocation of a descriptor (the limit of kqueues), the allocation, and the creation of the
    socket. -/
structure CreateEnv where
  td : Bool
  refused : Option Errno
  noFile : Option Errno
  failed : Option Errno
  ripped : Bool

def kernSocket (s : State) (e : CreateEnv) : Except Errno Nat × State :=
  match falloc s e.noFile with
  | .error err => (.error err, s)
  | .ok (fd, f, s) =>
    match e.failed with
    | some err => (.error err, fdclose s fd)
    | none => (.ok fd, finit s f .socket)

def kernKqueue (s : State) (e : CreateEnv) : Except Errno Nat × State :=
  match e.refused with
  | some err => (.error err, s)
  | none =>
    match falloc s e.noFile with
    | .error err => (.error err, s)
    | .ok (fd, f, s) => (.ok fd, finit s f .kqueue)

def socket (s : State) (e : CreateEnv) : Except Errno Int × State :=
  if e.td then
    match s.freeIops with
    | [] => (.error .ENFILE, s)
    | i :: rest =>
      match kernSocket { s with freeIops := rest } e with
      | (.error err, s) => (.error err, rtemsBsdLibioIopFree s i)
      | (.ok fd, s) =>
        let s := s.rip e.ripped fd
        match rtemsBsdLibioIopSetBsdFd s fd i .nodeops with
        | .error err => (.error err, rtemsBsdLibioIopFree (kernClose s fd) i)
        | .ok s => (.ok i, s)
  else (.error .ENOMEM, s)

/-- `kqueue`: the number that it closes is the one of the libio object. -/
def kqueue (s : State) (e : CreateEnv) : Except Errno Int × State :=
  if e.td then
    match s.freeIops with
    | [] => (.error .ENFILE, s)
    | i :: rest =>
      match kernKqueue { s with freeIops := rest } e with
      | (.error err, s) => (.error err, rtemsBsdLibioIopFree s i)
      | (.ok fd, s) =>
        let s := s.rip e.ripped fd
        match rtemsBsdLibioIopSetBsdFd s fd i .nodeops with
        | .error err => (.error err, rtemsBsdLibioIopFree (kernClose s i) i)
        | .ok s => (.ok i, s)
  else (.error .ENOMEM, s)

/-- What `socketpair` depends on: the creation of the two sockets, of their descriptors, and their
    connection. -/
structure PairEnv where
  td : Bool
  socreate : Option Errno
  noFile₁ : Option Errno
  noFile₂ : Option Errno
  connect : Option Errno
  ripped₁ : Bool
  ripped₂ : Bool

def kernSocketpair (s : State) (e : PairEnv) : Except Errno (Nat × Nat) × State :=
  match e.socreate with
  | some err => (.error err, s)
  | none =>
    match falloc s e.noFile₁ with
    | .error err => (.error err, s)
    | .ok (fd₁, f₁, s) =>
      match falloc s e.noFile₂ with
      | .error err => (.error err, fdclose s fd₁)
      | .ok (fd₂, f₂, s) =>
        match e.connect with
        | some err => (.error err, fdclose (fdclose s fd₂) fd₁)
        | none => (.ok (fd₁, fd₂), finit (finit s f₁ .socket) f₂ .socket)

/-- The block at `out` of `socketpair`. -/
def pairOut (s : State) (i j : Nat) (err : Errno) : Except Errno Int × State :=
  let s := kernClose s (rtemsBsdLibioIopToDescriptor (s.iops i))
  let s := kernClose s (rtemsBsdLibioIopToDescriptor (s.iops j))
  (.error err, rtemsBsdLibioIopFree (rtemsBsdLibioIopFree s i) j)

def socketpair (s : State) (e : PairEnv) : Except Errno Int × State :=
  if e.td then
    match s.freeIops with
    | [] => (.error .ENFILE, s)
    | i :: [] => (.error .ENFILE, rtemsBsdLibioIopFree { s with freeIops := [] } i)
    | i :: j :: rest =>
      match kernSocketpair { s with freeIops := rest } e with
      | (.error err, s) => pairOut s i j err
      | (.ok (fd₁, fd₂), s) =>
        let s := (s.rip e.ripped₁ fd₁).rip e.ripped₂ fd₂
        match rtemsBsdLibioIopSetBsdFd s fd₁ i .nodeops with
        | .error err => pairOut s i j err
        | .ok s =>
          match rtemsBsdLibioIopSetBsdFd s fd₂ j .nodeops with
          | .error err => pairOut s i j err
          | .ok s => (.ok 0, s)
  else (.error .ENOMEM, s)

/-- `accept`, with a descriptor that may be ripped. -/
def acceptRaced (s : State) (fd : Int) (e : Env) (ripped : Bool) : Except Errno Int × State :=
  if e.td then
    let h := rtemsBsdLibioIopHold s fd
    if negative h.1 then (.error .EBADF, h.2)
    else
      match fgetUnlocked h.2 h.1 with
      | .error err => (.error err, rtemsBsdLibioIopDrop h.2 fd)
      | .ok (f, s') =>
        match Need.sock.check (s'.files f) with
        | some err => (.error err, rtemsBsdLibioIopDrop (fdrop s' f) fd)
        | none =>
          match kernAccept s' e with
          | (.error err, s'') => (.error err, rtemsBsdLibioIopDrop (fdrop s'' f) fd)
          | (.ok (afd, _), s'') =>
            acceptFinish ((rtemsBsdLibioIopDrop (fdrop s'' f) fd).rip ripped afd) afd
  else (.error .ENOMEM, s)

/-- `close` of a descriptor: of a BSD object, `rtems_bsd_sysgen_close`. -/
def closeFd (s : State) (i : Nat) : State :=
  let o := s.iops i
  let s := if rtemsBsdIsLibbsdDescriptor o ∧ 0 ≤ rtemsBsdLibioIopToDescriptor o then
      kernClose (rtemsLibioIopHold s i) (rtemsBsdLibioIopToDescriptor o)
    else s
  rtemsBsdLibioIopFree s i

inductive Creating where
  | accept (fd : Int) (e : Env) (ripped : Bool)
  | socket (e : CreateEnv)
  | kqueue (e : CreateEnv)
  | socketpair (e : PairEnv)

def Creating.exec (s : State) : Creating → Except Errno Int × State
  | .accept fd e ripped => acceptRaced s fd e ripped
  | .socket e => Libio.socket s e
  | .kqueue e => Libio.kqueue s e
  | .socketpair e => Libio.socketpair s e

/-- What happens to the tables: a creating call, a file of another file system is opened, and a
    descriptor is closed. -/
inductive TableAct where
  | create (c : Creating)
  | openForeign (data0 : Nat)
  | close (i : Nat)

def tableStep (s : State) : TableAct → Option State
  | .create c => some (c.exec s).2
  | .openForeign data0 =>
    match s.freeIops with
    | [] => none
    | i :: rest =>
      some { s.modIop i (fun o => { o with isOpen := true, handlers := .foreign, data0 := data0 }) with
        freeIops := rest }
  | .close i => if i < s.numberIops ∧ (s.iops i).isOpen then some (closeFd s i) else none

/-- No descriptor is open; the BSD table has `NDFILE` entries. -/
def initTables (numberIops maxfd : Nat) : State :=
  ⟨numberIops, fun _ => ⟨false, .foreign, 0, 0, none⟩, List.range numberIops, 20, maxfd, fun _ => none,
    fun _ => ⟨.none, false, none⟩, 0⟩

section Tables

variable {s t u : State} {i fd : Nat}

/-- The tables are as before; reference counts and the size of the BSD table may differ. -/
structure Kept (s t : State) : Prop where
  ofiles : t.ofiles = s.ofiles
  nfiles : s.nfiles ≤ t.nfiles
  maxfd : t.maxfd = s.maxfd
  freeIops : t.freeIops = s.freeIops
  iops : ∀ i, (t.iops i).data0 = (s.iops i).data0 ∧ (t.iops i).isOpen = (s.iops i).isOpen

theorem Kept.refl (s : State) : Kept s s := ⟨rfl, le_rfl, rfl, rfl, fun _ => ⟨rfl, rfl⟩⟩

theorem Kept.trans (h : Kept s t) (h' : Kept t u) : Kept s u :=
  ⟨h'.ofiles.trans h.ofiles, h.nfiles.trans h'.nfiles, h'.maxfd.trans h.maxfd,
    h'.freeIops.trans h.freeIops,
    fun i => ⟨(h'.iops i).1.trans (h.iops i).1, (h'.iops i).2.trans (h.iops i).2⟩⟩

theorem kept_modIop (s : State) (i : Nat) {g : Iop → Iop}
    (hg : ∀ o, (g o).data0 = o.data0 ∧ (g o).isOpen = o.isOpen) : Kept s (s.modIop i g) := by
  refine ⟨rfl, le_rfl, rfl, rfl, ?_⟩
  intro j
  by_cases hj : j = i
  · subst hj
    simp [State.modIop, hg]
  · simp [State.modIop, hj]

theorem kept_iopDrop (s : State) (i : Nat) : Kept s (rtemsLibioIopDrop s i) := by
  exact kept_modIop s i fun _ => ⟨rfl, rfl⟩

theorem kept_iopHold (s : State) (i : Nat) : Kept s (rtemsLibioIopHold s i) := by
  exact kept_modIop s i fun _ => ⟨rfl, rfl⟩

theorem kept_hold (s : State) (fd : Int) : Kept s (rtemsBsdLibioIopHold s fd).2 := by
  unfold rtemsBsdLibioIopHold
  split
  · simp only
    have hhold := kept_iopHold s fd.toNat
    split
    · split
      · exact hhold
      · exact hhold
    · exact hhold.trans (kept_iopDrop _ _)
  · exact Kept.refl s

theorem kept_fdrop (s : State) (f : FileId) : Kept s (fdrop s f) := by
  unfold fdrop
  split
  · exact Kept.refl s
  · exact kept_iopDrop s _

theorem kept_fgetUnlocked {fd : Int} {f : FileId} (h : fgetUnlocked s fd = .ok (f, t)) : Kept s t := by
  unfold fgetUnlocked at h
  split at h
  · cases h
  · split at h
    · cases h
      exact Kept.refl s
    · cases h
      exact kept_modIop s _ fun _ => ⟨rfl, rfl⟩

structure Closed (s t : State) (fd : Nat) : Prop where
  ofiles : t.ofiles = fun i => if i = fd then none else s.ofiles i
  nfiles : t.nfiles = s.nfiles
  maxfd : t.maxfd = s.maxfd
  freeIops : t.freeIops = s.freeIops
  iops : ∀ i, (t.iops i).data0 = (s.iops i).data0 ∧ (t.iops i).isOpen = (s.iops i).isOpen

theorem closed_of_none (h : s.ofiles fd = none) : Closed s s fd := by
  refine ⟨?_, rfl, rfl, rfl, fun _ => ⟨rfl, rfl⟩⟩
  funext i
  split
  · rename_i hi
    rw [hi, h]
  · rfl

theorem closed_fdclose (s : State) (fd : Nat) : Closed s (fdclose s fd) fd := by
  unfold fdclose
  split
  · rename_i hnone
    exact closed_of_none hnone
  · rename_i f hf
    obtain ⟨t, ht⟩ : ∃ t : State, t = { s with ofiles := fun i => if i = fd then none else s.ofiles i } :=
      ⟨_, rfl⟩
    have hkept := kept_fdrop t f
    rw [← ht]
    refine ⟨?_, ?_, ?_, ?_, ?_⟩
    · rw [hkept.ofiles, ht]
    · unfold fdrop
      split
      · rw [ht]
      · show t.nfiles = s.nfiles
        rw [ht]
    · rw [hkept.maxfd, ht]
    · rw [hkept.freeIops, ht]
    · intro i
      have := hkept.iops i
      rw [ht] at this
      rw [ht]
      exact this

/-- Well-formed tables: there is nothing behind the end of the BSD table, and free libio objects are
    cleared and listed once. -/
structure Wf (s : State) : Prop where
  size : 0 < s.nfiles
  int : s.maxfd < 2 ^ 31
  beyond : ∀ i, s.nfiles ≤ i → s.ofiles i = none
  nodup : s.freeIops.Nodup
  free : ∀ i ∈ s.freeIops, (s.iops i).data0 = 0 ∧ (s.iops i).isOpen = false

theorem Wf.kept (h : Wf s) (hk : Kept s t) : Wf t := by
  refine ⟨lt_of_lt_of_le h.size hk.nfiles, hk.maxfd ▸ h.int, ?_, ?_, ?_⟩
  · intro i hi
    rw [hk.ofiles]
    exact h.beyond i (hk.nfiles.trans hi)
  · rw [hk.freeIops]
    exact h.nodup
  · intro i hi
    rw [hk.freeIops] at hi
    rw [(hk.iops i).1, (hk.iops i).2]
    exact h.free i hi

theorem Wf.closed (h : Wf s) (hc : Closed s t fd) : Wf t := by
  refine ⟨hc.nfiles ▸ h.size, hc.maxfd ▸ h.int, ?_, ?_, ?_⟩
  · intro i hi
    rw [hc.ofiles]
    rw [hc.nfiles] at hi
    simp only
    split
    · rfl
    · exact h.beyond i hi
  · rw [hc.freeIops]
    exact h.nodup
  · intro i hi
    rw [hc.freeIops] at hi
    rw [(hc.iops i).1, (hc.iops i).2]
    exact h.free i hi

structure Created (s t : State) (fd : Nat) : Prop where
  ofiles : ∃ f, t.ofiles = fun i => if i = fd then some f else s.ofiles i
  unused : s.ofiles fd = none
  lt : fd < t.nfiles
  nfiles : s.nfiles ≤ t.nfiles
  maxfd : t.maxfd = s.maxfd
  freeIops : t.freeIops = s.freeIops
  iops : t.iops = s.iops

theorem fdFirstFree_unused (h : Wf s) : s.ofiles (fdFirstFree s) = none := by
  unfold fdFirstFree
  cases hfind : (List.range s.nfiles).find? fun i => s.ofiles i = none with
  | none => exact h.beyond _ le_rfl
  | some i => simpa using (find?_eq_some_iff_append.mp hfind).1

/-- `falloc` succeeds. -/
def fallocs (s : State) (noFile : Option Errno) : Prop := noFile = none ∧ fdFirstFree s < s.maxfd

theorem falloc_spec (h : Wf s) (noFile : Option Errno) :
    (¬ fallocs s noFile → ∃ err, falloc s noFile = .error err) ∧
    (fallocs s noFile → ∃ f t, falloc s noFile = .ok (fdFirstFree s, f, t) ∧ Created s t (fdFirstFree s)) := by
  unfold falloc fallocs
  cases noFile with
  | some e => exact ⟨fun _ => ⟨e, rfl⟩, fun h => (by cases h.1)⟩
  | none =>
    simp only [true_and]
    by_cases hlt : fdFirstFree s < s.maxfd
    · rw [if_neg (by omega)]
      refine ⟨fun hn => absurd hlt hn, fun _ => ⟨_, _, rfl, ⟨⟨_, rfl⟩, fdFirstFree_unused h, ?_, ?_, rfl, rfl, rfl⟩⟩⟩
      · have hsize := h.size
        show fdFirstFree s < if s.nfiles ≤ fdFirstFree s then
          fdgrowtableExp s.nfiles (min (fdFirstFree s * 2) s.maxfd) else s.nfiles
        split
        · unfold fdgrowtableExp NDENTRIES
          omega
        · omega
      · grind [fdgrowtableExp]
    · rw [if_pos (by omega)]
      exact ⟨fun _ => ⟨_, rfl⟩, fun hn => absurd hn hlt⟩

theorem Created.finit (h : Created s t fd) (f : FileId) (ftype : FType) : Created s (finit t f ftype) fd :=
  ⟨h.ofiles, h.unused, h.lt, h.nfiles, h.maxfd, h.freeIops, h.iops⟩

theorem Created.close_kept {v : State} (h : Created s t fd) (hk : Kept t u) (hc : Closed u v fd) :
    Kept s v := by
  obtain ⟨f, hf⟩ := h.ofiles
  refine ⟨?_, hc.nfiles ▸ h.nfiles.trans hk.nfiles, hc.maxfd.trans (hk.maxfd.trans h.maxfd),
    hc.freeIops.trans (hk.freeIops.trans h.freeIops), ?_⟩
  · rw [hc.ofiles, hk.ofiles, hf]
    funext i
    by_cases hi : i = fd
    · simp [hi, h.unused]
    · simp [hi]
  · intro i
    rw [← h.iops]
    exact ⟨(hc.iops i).1.trans (hk.iops i).1, (hc.iops i).2.trans (hk.iops i).2⟩

theorem Created.close (h : Created s t fd) (hc : Closed t u fd) : Kept s u :=
  h.close_kept (Kept.refl t) hc

theorem Wf.created (h : Wf s) (hc : Created s t fd) : Wf t := by
  obtain ⟨f, hf⟩ := hc.ofiles
  have hlt := hc.lt
  refine ⟨by omega, hc.maxfd ▸ h.int, ?_, hc.freeIops ▸ h.nodup, ?_⟩
  · intro i hi
    rw [hf]
    simp only [show i ≠ fd by omega, if_false]
    exact h.beyond i (hc.nfiles.trans hi)
  · intro i hi
    rw [hc.freeIops] at hi
    rw [hc.iops]
    exact h.free i hi

theorem Kept.closed (h : Kept s t) (hc : Closed t u fd) (hnone : s.ofiles fd = none) : Kept s u := by
  refine ⟨?_, hc.nfiles ▸ h.nfiles, hc.maxfd.trans h.maxfd, hc.freeIops.trans h.freeIops, ?_⟩
  · grind [hc.ofiles, h.ofiles]
  · intro i
    exact ⟨(hc.iops i).1.trans (h.iops i).1, (hc.iops i).2.trans (h.iops i).2⟩

theorem closed_kernClose (h : Wf s) (fd : Nat) : Closed s (kernClose s fd) fd := by
  unfold kernClose bsdEntry
  by_cases hlt : (fd : Int) < s.nfiles
  · rw [if_pos ⟨Int.natCast_nonneg fd, hlt⟩, Int.toNat_natCast]
    cases hf : s.ofiles fd with
    | none => exact closed_of_none hf
    | some f => exact closed_fdclose s fd
  · rw [if_neg (fun h => hlt h.2)]
    exact closed_of_none (h.beyond fd (by omega))

structure Bound (s t : State) (fd i : Nat) : Prop where
  ofiles : t.ofiles = s.ofiles
  nfiles : t.nfiles = s.nfiles
  maxfd : t.maxfd = s.maxfd
  freeIops : t.freeIops = s.freeIops
  self : (t.iops i).data0 = fd % 2 ^ 32
  other : ∀ j ≠ i, t.iops j = s.iops j

theorem setBsdFd_error (h : s.ofiles fd = none) :
    rtemsBsdLibioIopSetBsdFd s fd i .nodeops = .error .EBADF := by
  unfold rtemsBsdLibioIopSetBsdFd
  rw [h]
  split <;> rfl

theorem setBsdFd_ok {f : FileId} (hlt : fd < s.nfiles) (h : s.ofiles fd = some f) :
    ∃ t, rtemsBsdLibioIopSetBsdFd s fd i .nodeops = .ok t ∧ Bound s t fd i := by
  unfold rtemsBsdLibioIopSetBsdFd
  rw [if_pos hlt, h]
  refine ⟨_, rfl, rfl, rfl, rfl, rfl, ?_, ?_⟩
  · simp [State.modIop]
  · intro j hj
    simp [State.modIop, hj]

theorem Wf.bound (h : Wf s) (hb : Bound s t fd i) (hi : i ∉ s.freeIops) : Wf t := by
  refine ⟨hb.nfiles ▸ h.size, hb.maxfd ▸ h.int, ?_, hb.freeIops ▸ h.nodup, ?_⟩
  · intro j hj
    rw [hb.ofiles]
    exact h.beyond j (hb.nfiles ▸ hj)
  · intro j hj
    rw [hb.freeIops] at hj
    have hne : j ≠ i := by
      rintro rfl
      exact hi hj
    rw [hb.other j hne]
    exact h.free j hj

theorem Wf.iopFree (h : Wf s) (hi : i ∉ s.freeIops) : Wf (rtemsBsdLibioIopFree s i) := by
  refine ⟨h.size, h.int, h.beyond, ?_, ?_⟩
  · show (s.freeIops ++ [i]).Nodup
    rw [nodup_append]
    refine ⟨h.nodup, nodup_singleton i, ?_⟩
    intro a ha b hb
    rw [mem_singleton] at hb
    rintro rfl
    exact hi (hb ▸ ha)
  · intro j hj
    grind [rtemsBsdLibioIopFree, State.modIop, h.free]

theorem Wf.take {rest : List Nat} (h : Wf s) (hfree : s.freeIops = i :: rest) :
    Wf { s with freeIops := rest } ∧ i ∉ rest ∧ (s.iops i).data0 = 0 := by
  have hnd := h.nodup
  rw [hfree, nodup_cons] at hnd
  refine ⟨⟨h.size, h.int, h.beyond, hnd.2, ?_⟩, hnd.1, (h.free i (by simp [hfree])).1⟩
  intro j hj
  exact h.free j (by simp [hfree, show j ∈ rest from hj])

end Tables

/-- A call that fails leaves the descriptors and the libio objects as they were. -/
def NoTrace (s : State) (r : Except Errno Int × State) : Prop :=
  ∀ err, r.1 = .error err → r.2.ofiles = s.ofiles ∧ ∀ i, i ∈ r.2.freeIops ↔ i ∈ s.freeIops

/-- `kern_socketpair` succeeds. -/
def pairWorks (s : State) (e : PairEnv) : Prop :=
  e.socreate = none ∧ fallocs s e.noFile₁ ∧ e.connect = none ∧
    ∀ fd f t, falloc s e.noFile₁ = .ok (fd, f, t) → fallocs t e.noFile₂

/-- The call does not get to a place where it closes the wrong descriptor. -/
def Creating.Clean (s : State) : Creating → Prop
  | .accept _ _ _ | .socket _ => True
  | .kqueue e =>
    ¬ (e.td = true ∧ e.refused = none ∧ fallocs s e.noFile ∧ e.ripped = true) ∨
      ∀ i ∈ s.freeIops.head?, s.ofiles i = none
  | .socketpair e =>
    e.td = false ∨ s.freeIops.length < 2 ∨
      (pairWorks s e ∧ e.ripped₁ = false ∧ e.ripped₂ = false) ∨
      s.ofiles 0 = none ∧ (pairWorks s e → e.ripped₁ = true → e.ripped₂ = true)

section Calls

variable {s t u : State} {i j fd : Nat} {rest : List Nat}

theorem noTrace_kept {err : Errno} (h : Kept s t) : NoTrace s (.error err, t) :=
  fun _ _ => ⟨h.ofiles, fun i => by rw [h.freeIops]⟩

theorem noTrace_free {err : Errno} (hfree : s.freeIops = i :: rest)
    (h : Kept { s with freeIops := rest } t) : NoTrace s (.error err, rtemsBsdLibioIopFree t i) := by
  refine fun _ _ => ⟨h.ofiles, fun k => ?_⟩
  show k ∈ t.freeIops ++ [i] ↔ k ∈ s.freeIops
  rw [h.freeIops, hfree]
  simp [or_comm]

theorem kernSocket_spec (h : Wf s) (e : CreateEnv) :
    (∃ t, kernSocket s e = (.ok (fdFirstFree s), t) ∧ Created s t (fdFirstFree s)) ∨
      ∃ err t, kernSocket s e = (.error err, t) ∧ Kept s t := by
  unfold kernSocket
  obtain ⟨hno, hyes⟩ := falloc_spec h e.noFile
  by_cases hf : fallocs s e.noFile
  · obtain ⟨f, t, ht, hc⟩ := hyes hf
    rw [ht]
    cases e.failed with
    | none => exact .inl ⟨_, rfl, hc.finit f .socket⟩
    | some err => exact .inr ⟨err, _, rfl, hc.close (closed_fdclose t _)⟩
  · obtain ⟨err, herr⟩ := hno hf
    rw [herr]
    exact .inr ⟨err, s, rfl, Kept.refl s⟩

theorem kernKqueue_spec (h : Wf s) (e : CreateEnv) :
    (e.refused = none ∧ fallocs s e.noFile →
      ∃ t, kernKqueue s e = (.ok (fdFirstFree s), t) ∧ Created s t (fdFirstFree s)) ∧
    (¬ (e.refused = none ∧ fallocs s e.noFile) →
      ∃ err t, kernKqueue s e = (.error err, t) ∧ Kept s t) := by
  unfold kernKqueue
  obtain ⟨hno, hyes⟩ := falloc_spec h e.noFile
  cases e.refused with
  | some err => exact ⟨fun h => (by cases h.1), fun _ => ⟨err, s, rfl, Kept.refl s⟩⟩
  | none =>
    simp only [true_and]
    constructor
    · intro hf
      obtain ⟨f, t, ht, hc⟩ := hyes hf
      rw [ht]
      exact ⟨_, rfl, hc.finit f .kqueue⟩
    · intro hf
      obtain ⟨err, herr⟩ := hno hf
      rw [herr]
      exact ⟨err, s, rfl, Kept.refl s⟩

theorem Created.bind (h : Created s t fd) (ripped : Bool) :
    (ripped = false → ∃ u, rtemsBsdLibioIopSetBsdFd (t.rip ripped fd) fd i .nodeops = .ok u ∧
      Bound t u fd i) ∧
    (ripped = true → rtemsBsdLibioIopSetBsdFd (t.rip ripped fd) fd i .nodeops = .error .EBADF ∧
      Kept s (t.rip ripped fd)) := by
  obtain ⟨f, hf⟩ := h.ofiles
  constructor
  · rintro rfl
    exact @setBsdFd_ok _ _ _ f h.lt (by simp [State.rip, hf])
  · rintro rfl
    have hclosed := closed_fdclose t fd
    refine ⟨setBsdFd_error ?_, h.close hclosed⟩
    show (fdclose t fd).ofiles fd = none
    simp [hclosed.ofiles]

/-- **`socket`.** -/
theorem socket_spec (h : Wf s) (e : CreateEnv) : NoTrace s (socket s e) ∧ Wf (socket s e).2 := by
  unfold socket
  by_cases htd : e.td
  · rw [if_pos htd]
    cases hfree : s.freeIops with
    | nil => exact ⟨noTrace_kept (Kept.refl s), h⟩
    | cons i rest =>
      obtain ⟨hwf, hi, -⟩ := h.take hfree
      rcases kernSocket_spec hwf e with ⟨t, ht, hc⟩ | ⟨err, t, ht, hk⟩
      · simp only [ht]
        obtain ⟨hbind, hrip⟩ := @Created.bind _ _ i _ hc e.ripped
        cases hr : e.ripped with
        | false =>
          rw [hr] at hbind
          obtain ⟨u, hu, hb⟩ := hbind rfl
          simp only [hu]
          refine ⟨fun _ hok => (by cases hok), (hwf.created hc).bound hb ?_⟩
          rw [hc.freeIops]
          exact hi
        | true =>
          rw [hr] at hrip
          obtain ⟨hu, hk⟩ := hrip rfl
          simp only [hu]
          have hk' := hk.closed (closed_kernClose (hwf.kept hk) _) hc.unused
          refine ⟨noTrace_free hfree hk', (hwf.kept hk').iopFree ?_⟩
          rw [hk'.freeIops]
          exact hi
      · simp only [ht]
        refine ⟨noTrace_free hfree hk, (hwf.kept hk).iopFree ?_⟩
        rw [hk.freeIops]
        exact hi
  · rw [if_neg htd]
    exact ⟨noTrace_kept (Kept.refl s), h⟩

/-- **`kqueue`.** -/
theorem kqueue_spec (h : Wf s) (e : CreateEnv) :
    (NoTrace s (kqueue s e) ↔ (Creating.kqueue e).Clean s) ∧ Wf (kqueue s e).2 := by
  unfold kqueue Creating.Clean
  by_cases htd : e.td
  · rw [if_pos htd]
    cases hfree : s.freeIops with
    | nil =>
      exact ⟨iff_of_true (noTrace_kept (Kept.refl s)) (.inr (fun _ hi => (by cases hi))), h⟩
    | cons i rest =>
      obtain ⟨hwf, hi, -⟩ := h.take hfree
      simp only [htd, true_and]
      obtain ⟨hyes, hno⟩ := kernKqueue_spec hwf e
      by_cases hworks : e.refused = none ∧ fallocs s e.noFile
      · obtain ⟨t, ht, hc⟩ := hyes hworks
        simp only [ht]
        obtain ⟨hbind, hrip⟩ := @Created.bind _ _ i _ hc e.ripped
        cases hr : e.ripped with
        | false =>
          rw [hr] at hbind
          obtain ⟨u, hu, hb⟩ := hbind rfl
          simp only [hu]
          refine ⟨iff_of_true (fun _ hok => (by cases hok)) (.inl (by simp)),
            (hwf.created hc).bound hb ?_⟩
          rw [hc.freeIops]
          exact hi
        | true =>
          rw [hr] at hrip
          obtain ⟨hu, hk⟩ := hrip rfl
          simp only [hu]
          have hclosed := closed_kernClose (hwf.kept hk) i
          refine ⟨?_, ((hwf.kept hk).closed hclosed).iopFree ?_⟩
          · constructor
            · intro hno
              refine .inr ?_
              rintro _ ⟨⟩
              have hof := (hno _ rfl).1
              have : (kernClose (t.rip true (fdFirstFree { s with freeIops := rest })) i).ofiles i = s.ofiles i :=
                congrFun hof i
              rw [← this, hclosed.ofiles]
              simp
            · rintro (hnot | hnone)
              · exact absurd ⟨hworks.1, hworks.2, trivial⟩ hnot
              · exact noTrace_free hfree (hk.closed hclosed (hnone i rfl))
          · rw [hclosed.freeIops, hk.freeIops]
            exact hi
      · obtain ⟨err, t, ht, hk⟩ := hno hworks
        simp only [ht]
        refine ⟨iff_of_true (noTrace_free hfree hk) (.inl (fun hall => hworks ⟨hall.1, hall.2.1⟩)),
          (hwf.kept hk).iopFree ?_⟩
        rw [hk.freeIops]
        exact hi
  · rw [if_neg htd]
    exact ⟨iff_of_true (noTrace_kept (Kept.refl s)) (.inl (fun hall => htd hall.1)), h⟩

theorem kernSocketpair_spec (h : Wf s) (e : PairEnv) :
    (pairWorks s e → ∃ m fd₂ t, kernSocketpair s e = (.ok (fdFirstFree s, fd₂), t) ∧
      Created s m (fdFirstFree s) ∧ Created m t fd₂) ∧
    (¬ pairWorks s e → ∃ err t, kernSocketpair s e = (.error err, t) ∧ Kept s t) := by
  unfold kernSocketpair pairWorks
  obtain ⟨hno, hyes⟩ := falloc_spec h e.noFile₁
  cases e.socreate with
  | some err => exact ⟨fun h => (by cases h.1), fun _ => ⟨err, s, rfl, Kept.refl s⟩⟩
  | none =>
    simp only [true_and]
    by_cases hf : fallocs s e.noFile₁
    · obtain ⟨f₁, m, hm, hc₁⟩ := hyes hf
      rw [hm]
      obtain ⟨hno₂, hyes₂⟩ := falloc_spec (h.created hc₁) e.noFile₂
      have hsecond : (∀ fd f t, (.ok (fdFirstFree s, f₁, m) : Except Errno _) = .ok (fd, f, t) →
          fallocs t e.noFile₂) ↔ fallocs m e.noFile₂ := by
        grind
      rw [hsecond]
      by_cases hf₂ : fallocs m e.noFile₂
      · obtain ⟨f₂, t, ht, hc₂⟩ := hyes₂ hf₂
        simp only [ht]
        have hc₁' := hc₂.close (closed_fdclose t _)
        cases e.connect with
        | none =>
          refine ⟨fun _ => ⟨m, _, _, rfl, hc₁, (hc₂.finit f₁ .socket).finit f₂ .socket⟩, fun hnot => ?_⟩
          exact absurd ⟨hf, rfl, hf₂⟩ hnot
        | some err =>
          exact ⟨fun h => (by cases h.2.1),
            fun _ => ⟨err, _, rfl, hc₁.close_kept hc₁' (closed_fdclose _ _)⟩⟩
      · obtain ⟨err, herr⟩ := hno₂ hf₂
        simp only [herr]
        exact ⟨fun h => absurd h.2.2 hf₂, fun _ => ⟨err, _, rfl, hc₁.close (closed_fdclose m _)⟩⟩
    · obtain ⟨err, herr⟩ := hno hf
      rw [herr]
      exact ⟨fun h => absurd h.1 hf, fun _ => ⟨err, s, rfl, Kept.refl s⟩⟩

theorem toDescriptor_eq {o : Iop} {n : Nat} (h : o.data0 = n % 2 ^ 32) (hn : n < 2 ^ 31) :
    rtemsBsdLibioIopToDescriptor o = n := by
  unfold rtemsBsdLibioIopToDescriptor sint
  rw [h]
  have h1 : n % 2 ^ 32 % 2 ^ 32 = n := by omega
  omega

/-- The block at `out`: the descriptors that it reads in the objects are closed. -/
theorem pairOut_spec (h : Wf s) {x y : Nat} (hx : (s.iops i).data0 = x % 2 ^ 32) (hx' : x < 2 ^ 31)
    (hy : (s.iops j).data0 = y % 2 ^ 32) (hy' : y < 2 ^ 31) (err : Errno) :
    (pairOut s i j err).1 = .error err ∧
    (pairOut s i j err).2.ofiles = (fun k => if k = x ∨ k = y then none else s.ofiles k) ∧
    (pairOut s i j err).2.freeIops = s.freeIops ++ [i, j] ∧
    (i ∉ s.freeIops → j ∉ s.freeIops → i ≠ j → Wf (pairOut s i j err).2) := by
  unfold pairOut
  have h₁ := closed_kernClose h x
  have hw₁ := h.closed h₁
  have h₂ := closed_kernClose hw₁ y
  have hw₂ := hw₁.closed h₂
  have hj : rtemsBsdLibioIopToDescriptor ((kernClose s x).iops j) = y := by
    refine toDescriptor_eq ?_ hy'
    rw [(h₁.iops j).1]
    exact hy
  simp only [toDescriptor_eq hx hx', hj]
  refine ⟨trivial, ?_, ?_, ?_⟩
  · show (kernClose (kernClose s x) y).ofiles = _
    grind [h₂.ofiles, h₁.ofiles]
  · show (kernClose (kernClose s x) y).freeIops ++ [i] ++ [j] = _
    rw [h₂.freeIops, h₁.freeIops]
    simp
  · intro hi hj hij
    have hfree : (kernClose (kernClose s x) y).freeIops = s.freeIops := by rw [h₂.freeIops, h₁.freeIops]
    refine (hw₂.iopFree (hfree ▸ hi)).iopFree ?_
    show j ∉ (kernClose (kernClose s x) y).freeIops ++ [i]
    rw [hfree]
    simp [hj, Ne.symm hij]

theorem fdFirstFree_zero (h : Wf s) (hzero : s.ofiles 0 = none) : fdFirstFree s = 0 := by
  unfold fdFirstFree
  have hrange : List.range s.nfiles = 0 :: (List.range (s.nfiles - 1)).map Nat.succ := by
    obtain ⟨n, hn⟩ : ∃ n, s.nfiles = n + 1 := ⟨s.nfiles - 1, by have := h.size; omega⟩
    rw [hn, range_succ_eq_map]
    rfl
  rw [hrange, find?_cons_of_pos (by simp [hzero])]
  rfl

theorem pairWorks_free (s : State) (l : List Nat) (e : PairEnv) :
    pairWorks { s with freeIops := l } e ↔ pairWorks s e := by
  have hfalloc : falloc { s with freeIops := l } e.noFile₁ =
      (falloc s e.noFile₁).map fun r => (r.1, r.2.1, { r.2.2 with freeIops := l }) := by
    cases e.noFile₁ with
    | some err => rfl
    | none =>
      show (if fdFirstFree s ≥ s.maxfd then _ else _) = Except.map _ (if fdFirstFree s ≥ s.maxfd then _ else _)
      split <;> rfl
  unfold pairWorks
  rw [hfalloc]
  refine and_congr Iff.rfl (and_congr Iff.rfl (and_congr Iff.rfl ?_))
  cases falloc s e.noFile₁ with
  | error err => simp [Except.map]
  | ok r =>
    constructor
    · rintro h _ _ t ⟨⟩
      exact h _ _ { t with freeIops := l } rfl
    · rintro h _ _ _ ⟨⟩
      exact h _ _ r.2.2 rfl

theorem noTrace_pairOut (h : Wf t) (hfree : s.freeIops = i :: j :: rest) (hrest : t.freeIops = rest) {x y : Nat}
    (hx : (t.iops i).data0 = x % 2 ^ 32) (hx' : x < 2 ^ 31) (hy : (t.iops j).data0 = y % 2 ^ 32)
    (hy' : y < 2 ^ 31) (err : Errno) :
    NoTrace s (pairOut t i j err) ↔ (fun k => if k = x ∨ k = y then none else t.ofiles k) = s.ofiles := by
  grind [pairOut_spec, NoTrace]

theorem clear_zero_iff (ofiles : Nat → Option FileId) :
    (fun k => if k = 0 ∨ k = 0 then none else ofiles k) = ofiles ↔ ofiles 0 = none := by
  grind

theorem rip_spec (h : Wf s) (ripped : Bool) (fd : Nat) :
    Wf (s.rip ripped fd) ∧ (s.rip ripped fd).nfiles = s.nfiles ∧ (s.rip ripped fd).maxfd = s.maxfd ∧
    (s.rip ripped fd).freeIops = s.freeIops ∧
    (∀ i, ((s.rip ripped fd).iops i).data0 = (s.iops i).data0) ∧
    ∀ k, (s.rip ripped fd).ofiles k = if ripped = true ∧ k = fd then none else s.ofiles k := by
  cases ripped with
  | false => exact ⟨h, rfl, rfl, rfl, fun _ => rfl, fun k => by simp [State.rip]⟩
  | true =>
    have hc := closed_fdclose s fd
    refine ⟨h.closed hc, hc.nfiles, hc.maxfd, hc.freeIops, fun i => (hc.iops i).1, fun k => ?_⟩
    show (fdclose s fd).ofiles k = _
    rw [hc.ofiles]
    simp

/-- After `kern_socketpair`: `v` has the new descriptors that were not ripped. -/
structure Pair (s v : State) (e : PairEnv) (fd₁ fd₂ : Nat) : Prop where
  wf : Wf v
  ne : fd₂ ≠ fd₁
  first : s.ofiles 0 = none → fd₁ = 0
  unused₁ : s.ofiles fd₁ = none
  unused₂ : s.ofiles fd₂ = none
  lt₁ : fd₁ < v.nfiles
  lt₂ : fd₂ < v.nfiles
  bound : fd₁ < v.maxfd
  iops : ∀ i, (v.iops i).data0 = (s.iops i).data0
  ofiles : ∃ f₁ f₂, ∀ k, v.ofiles k =
    if k = fd₁ then (if e.ripped₁ then none else some f₁)
    else if k = fd₂ then (if e.ripped₂ then none else some f₂) else s.ofiles k

theorem pair_spec (hwf : Wf { s with freeIops := rest }) (e : PairEnv) (hworks : pairWorks s e) :
    ∃ fd₁ fd₂ t, kernSocketpair { s with freeIops := rest } e = (.ok (fd₁, fd₂), t) ∧
      Pair s ((t.rip e.ripped₁ fd₁).rip e.ripped₂ fd₂) e fd₁ fd₂ ∧
      ((t.rip e.ripped₁ fd₁).rip e.ripped₂ fd₂).freeIops = rest := by
  obtain ⟨m, fd₂, t, ht, hc₁, hc₂⟩ := (kernSocketpair_spec hwf e).1 ((pairWorks_free s rest e).mpr hworks)
  obtain ⟨fd₁, hfd₁⟩ : ∃ fd₁, fd₁ = fdFirstFree { s with freeIops := rest } := ⟨_, rfl⟩
  rw [← hfd₁] at ht hc₁
  obtain ⟨f₁, hf₁⟩ := hc₁.ofiles
  obtain ⟨f₂, hf₂⟩ := hc₂.ofiles
  have hne : fd₂ ≠ fd₁ := by
    rintro rfl
    have := hc₂.unused
    rw [hf₁] at this
    simp at this
  have hs₂ : s.ofiles fd₂ = none := by
    have := hc₂.unused
    rw [hf₁] at this
    simpa [hne] using this
  have hwt := (hwf.created hc₁).created hc₂
  obtain ⟨hwu, hnu, hmu, hfu, hiu, hou⟩ := rip_spec hwt e.ripped₁ fd₁
  obtain ⟨hwv, hnv, hmv, hfv, hiv, hov⟩ := rip_spec hwu e.ripped₂ fd₂
  refine ⟨fd₁, fd₂, t, ht, ⟨hwv, hne, ?_, hc₁.unused, hs₂, ?_, ?_, ?_, ?_, f₁, f₂, ?_⟩, ?_⟩
  · intro hzero
    rw [hfd₁]
    exact fdFirstFree_zero hwf hzero
  · rw [hnv, hnu]
    exact lt_of_lt_of_le hc₁.lt hc₂.nfiles
  · rw [hnv, hnu]
    exact hc₂.lt
  · rw [hmv, hmu, hc₂.maxfd, hc₁.maxfd, hfd₁]
    exact hworks.2.1.2
  · intro i
    rw [hiv, hiu, hc₂.iops, hc₁.iops]
  · intro k
    grind
  · rw [hfv, hfu, hc₂.freeIops, hc₁.freeIops]

/-- **`socketpair`.** -/
theorem socketpair_spec (h : Wf s) (e : PairEnv) :
    (NoTrace s (socketpair s e) ↔ (Creating.socketpair e).Clean s) ∧ Wf (socketpair s e).2 := by
  unfold socketpair Creating.Clean
  by_cases htd : e.td
  swap
  · rw [if_neg htd]
    exact ⟨iff_of_true (noTrace_kept (Kept.refl s)) (.inl (by simpa using htd)), h⟩
  rw [if_pos htd]
  match hfree : s.freeIops with
  | [] => exact ⟨iff_of_true (noTrace_kept (Kept.refl s)) (.inr (.inl (by simp))), h⟩
  | [i] =>
    obtain ⟨hwf, hi, -⟩ := h.take hfree
    exact ⟨iff_of_true (noTrace_free hfree (Kept.refl _)) (.inr (.inl (by simp))), hwf.iopFree hi⟩
  | i :: j :: rest =>
    obtain ⟨hwf₁, hi, hdi⟩ := h.take hfree
    obtain ⟨hwf, hj, hdj⟩ : Wf { s with freeIops := rest } ∧ j ∉ rest ∧ (s.iops j).data0 = 0 :=
      hwf₁.take rfl
    have hij : i ≠ j := fun heq => hi (heq ▸ mem_cons_self)
    have hi' : i ∉ rest := fun hmem => hi (mem_cons_of_mem _ hmem)
    have hclean : ∀ p : Prop, (e.td = false ∨ (i :: j :: rest).length < 2 ∨ p) ↔ p := by
      intro p
      simp [htd]
    simp only
    rw [hclean]
    by_cases hworks : pairWorks s e
    · obtain ⟨fd₁, fd₂, t, ht, hp, hrest⟩ := pair_spec hwf e hworks
      simp only [ht]
      obtain ⟨v, hv⟩ : ∃ v, v = (t.rip e.ripped₁ fd₁).rip e.ripped₂ fd₂ := ⟨_, rfl⟩
      rw [← hv] at hp hrest ⊢
      obtain ⟨f₁, f₂, hof⟩ := hp.ofiles
      cases hr₁ : e.ripped₁ with
      | true =>
        have hset : rtemsBsdLibioIopSetBsdFd v fd₁ i .nodeops = .error .EBADF := by
          refine setBsdFd_error ?_
          rw [hof]
          simp [hr₁]
        simp only [hset]
        have hx : (v.iops i).data0 = 0 % 2 ^ 32 := (hp.iops i).trans hdi
        have hy : (v.iops j).data0 = 0 % 2 ^ 32 := (hp.iops j).trans hdj
        have hout := @pairOut_spec _ i j hp.wf 0 0 hx (by decide) hy (by decide) .EBADF
        refine ⟨?_, hout.2.2.2 (hrest ▸ hi') (hrest ▸ hj) hij⟩
        rw [noTrace_pairOut hp.wf hfree hrest hx (by decide) hy (by decide)]
        cases hr₂ : e.ripped₂ with
        | true =>
          have hback : v.ofiles = s.ofiles := by
            grind [hp.unused₁, hp.unused₂]
          rw [hback, clear_zero_iff]
          simp
        | false =>
          refine iff_of_false ?_ (by simp [hworks])
          intro heq
          have hzero : s.ofiles 0 = none := by
            have := congrFun heq 0
            simpa using this.symm
          -- the second descriptor is left over
          have hfd := hp.first hzero
          have hne := hp.ne
          have htwo := congrFun heq fd₂
          rw [hp.unused₂] at htwo
          simp [hof, hr₂, hne, show fd₂ ≠ 0 by omega] at htwo
      | false =>
        obtain ⟨w, hw, hb⟩ := @setBsdFd_ok v i fd₁ f₁ hp.lt₁ (by rw [hof]; simp [hr₁])
        have hww : Wf w := hp.wf.bound hb (hrest ▸ hi')
        have hrestw : w.freeIops = rest := hb.freeIops.trans hrest
        simp only [hw]
        cases hr₂ : e.ripped₂ with
        | false =>
          have hsecond : w.ofiles fd₂ = some f₂ := by
            rw [hb.ofiles, hof]
            simp [hr₂, hp.ne]
          obtain ⟨x, hx, hbx⟩ := @setBsdFd_ok w j fd₂ f₂ (hb.nfiles ▸ hp.lt₂) hsecond
          simp only [hx]
          exact ⟨iff_of_true (fun _ hok => (by cases hok)) (.inl ⟨hworks, trivial, trivial⟩),
            hww.bound hbx (hrestw ▸ hj)⟩
        | true =>
          have hset : rtemsBsdLibioIopSetBsdFd w fd₂ j .nodeops = .error .EBADF := by
            refine setBsdFd_error ?_
            rw [hb.ofiles, hof]
            simp [hr₂, hp.ne]
          simp only [hset]
          have hlt : fd₁ < 2 ^ 31 := lt_trans hp.bound hp.wf.int
          have hy : (w.iops j).data0 = 0 % 2 ^ 32 := by
            rw [hb.other j hij.symm]
            exact (hp.iops j).trans hdj
          have hout := @pairOut_spec _ i j hww fd₁ 0 hb.self hlt hy (by decide) .EBADF
          refine ⟨?_, hout.2.2.2 (hrestw ▸ hi') (hrestw ▸ hj) hij⟩
          rw [noTrace_pairOut hww hfree hrestw hb.self hlt hy (by decide)]
          have hback : (fun k => if k = fd₁ ∨ k = 0 then none else w.ofiles k) =
              fun k => if k = 0 ∨ k = 0 then none else s.ofiles k := by
            grind [hb.ofiles, hp.unused₁, hp.unused₂]
          rw [hback, clear_zero_iff]
          simp
    · obtain ⟨err, t, ht, hk⟩ := (kernSocketpair_spec hwf e).2 (mt (pairWorks_free s rest e).mp hworks)
      simp only [ht]
      have hx : (t.iops i).data0 = 0 % 2 ^ 32 := (hk.iops i).1.trans hdi
      have hy : (t.iops j).data0 = 0 % 2 ^ 32 := (hk.iops j).1.trans hdj
      have hout := @pairOut_spec _ i j (hwf.kept hk) 0 0 hx (by decide) hy (by decide) err
      refine ⟨?_, hout.2.2.2 (hk.freeIops ▸ hi') (hk.freeIops ▸ hj) hij⟩
      rw [noTrace_pairOut (hwf.kept hk) hfree hk.freeIops hx (by decide) hy (by decide), hk.ofiles,
        clear_zero_iff]
      grind

theorem kernAccept_spec (h : Wf s) (e : Env) :
    (∃ f t, kernAccept s e = (.ok (fdFirstFree s, f), t) ∧ Created s t (fdFirstFree s)) ∨
      ∃ err t, kernAccept s e = (.error err, t) ∧ Kept s t := by
  unfold kernAccept
  by_cases hl : e.listening
  swap
  · rw [if_neg hl]
    exact .inr ⟨_, s, rfl, Kept.refl s⟩
  rw [if_pos hl]
  obtain ⟨hno, hyes⟩ := falloc_spec h e.noFile
  by_cases hf : fallocs s e.noFile
  · obtain ⟨f, t, ht, hc⟩ := hyes hf
    rw [ht]
    cases e.result with
    | ok n => exact .inl ⟨f, _, rfl, hc.finit f .socket⟩
    | error err => exact .inr ⟨err, _, rfl, hc.close (closed_fdclose t _)⟩
  · obtain ⟨err, herr⟩ := hno hf
    rw [herr]
    exact .inr ⟨err, s, rfl, Kept.refl s⟩

theorem kept_drop (s : State) (fd : Int) : Kept s (rtemsBsdLibioIopDrop s fd) := by
  exact kept_iopDrop s _

theorem acceptFinish_spec (h : Wf s) (hc : Created s t fd) (hk : Kept t u) (ripped : Bool) :
    NoTrace s (acceptFinish (u.rip ripped fd) fd) ∧ Wf (acceptFinish (u.rip ripped fd) fd).2 := by
  have hwu : Wf u := (h.created hc).kept hk
  obtain ⟨hwv, hnv, -, hfv, -, hov⟩ := rip_spec hwu ripped fd
  obtain ⟨v, hv⟩ : ∃ v, v = u.rip ripped fd := ⟨_, rfl⟩
  rw [← hv] at hwv hnv hfv hov ⊢
  obtain ⟨f, hf⟩ := hc.ofiles
  -- whether it was ripped or not, closing it gives the state before the call
  have hback : ∀ w, Closed v w fd → w.ofiles = s.ofiles := by
    intro w hw
    grind [hw.ofiles, hk.ofiles, hc.unused]
  have hfree : v.freeIops = s.freeIops := hfv.trans (hk.freeIops.trans hc.freeIops)
  unfold acceptFinish
  cases hcons : v.freeIops with
  | nil =>
    have hclosed := closed_fdclose v fd
    refine ⟨fun _ _ => ⟨hback _ hclosed, fun k => ?_⟩, hwv.closed hclosed⟩
    show k ∈ (fdclose v fd).freeIops ↔ _
    rw [hclosed.freeIops, hfree]
  | cons i rest =>
    obtain ⟨hwrest, hi, -⟩ := hwv.take hcons
    simp only
    cases ripped with
    | false =>
      obtain ⟨w, hw, hb⟩ := @setBsdFd_ok { v with freeIops := rest } i fd f
        (by rw [hnv]; exact lt_of_lt_of_le hc.lt hk.nfiles)
        (by rw [hov, hk.ofiles, hf]; simp)
      rw [hw]
      exact ⟨fun _ hok => (by cases hok), hwrest.bound hb hi⟩
    | true =>
      have hset : rtemsBsdLibioIopSetBsdFd { v with freeIops := rest } fd i .nodeops = .error .EBADF := by
        refine setBsdFd_error ?_
        show v.ofiles fd = none
        rw [hov]
        simp
      rw [hset]
      have hclosed := closed_fdclose { v with freeIops := rest ++ [i] } fd
      refine ⟨fun _ _ => ⟨?_, fun k => ?_⟩, ?_⟩
      · show (fdclose { v with freeIops := rest ++ [i] } fd).ofiles = s.ofiles
        rw [hclosed.ofiles]
        have := hback _ (closed_fdclose v fd)
        rw [(closed_fdclose v fd).ofiles] at this
        exact this
      · show k ∈ (fdclose { v with freeIops := rest ++ [i] } fd).freeIops ↔ _
        rw [hclosed.freeIops, ← hfree, hcons]
        simp [or_comm]
      · have hwback : Wf { v with freeIops := rest ++ [i] } := by
          have hperm := perm_append_singleton i rest
          refine ⟨hwv.size, hwv.int, hwv.beyond, ?_, ?_⟩
          · have hnd := hwv.nodup
            rw [hcons] at hnd
            exact hperm.nodup_iff.mpr hnd
          · intro k hk
            refine hwv.free k ?_
            rw [hcons]
            exact hperm.mem_iff.mp hk
        exact hwback.closed hclosed

/-- **`accept`.** -/
theorem acceptRaced_spec (h : Wf s) (fd : Int) (e : Env) (ripped : Bool) :
    NoTrace s (acceptRaced s fd e ripped) ∧ Wf (acceptRaced s fd e ripped).2 := by
  have hfails : ∀ {t : State} (err : Errno), Kept s t →
      NoTrace s ((.error err : Except Errno Int), t) ∧ Wf t :=
    fun _ hk => ⟨noTrace_kept hk, h.kept hk⟩
  unfold acceptRaced
  by_cases htd : e.td
  swap
  · rw [if_neg htd]
    exact hfails _ (Kept.refl s)
  simp only [if_pos htd]
  have hhold := kept_hold s fd
  split
  · exact hfails _ hhold
  · cases hget : fgetUnlocked (rtemsBsdLibioIopHold s fd).2 (rtemsBsdLibioIopHold s fd).1 with
    | error err => exact hfails _ (hhold.trans (kept_drop _ _))
    | ok r =>
      obtain ⟨f, s'⟩ := r
      have hget' := hhold.trans (kept_fgetUnlocked hget)
      simp only
      cases Need.sock.check (s'.files f) with
      | some err => exact hfails _ ((hget'.trans (kept_fdrop _ _)).trans (kept_drop _ _))
      | none =>
        have hws' : Wf s' := h.kept hget'
        rcases kernAccept_spec hws' e with ⟨g, t, ht, hc⟩ | ⟨err, t, ht, hk⟩
        · rw [ht]
          have hfin := acceptFinish_spec hws' hc ((kept_fdrop t f).trans (kept_drop _ fd)) ripped
          refine ⟨?_, hfin.2⟩
          intro err herr
          have hno := hfin.1 err herr
          rw [hget'.ofiles, hget'.freeIops] at hno
          exact hno
        · rw [ht]
          exact hfails _ (((hget'.trans hk).trans (kept_fdrop _ _)).trans (kept_drop _ _))

theorem exec_spec (h : Wf s) (c : Creating) : (NoTrace s (c.exec s) ↔ c.Clean s) ∧ Wf (c.exec s).2 := by
  cases c with
  | accept fd e ripped =>
    have hspec := acceptRaced_spec h fd e ripped
    exact ⟨iff_of_true hspec.1 trivial, hspec.2⟩
  | socket e =>
    have hspec := socket_spec h e
    exact ⟨iff_of_true hspec.1 trivial, hspec.2⟩
  | kqueue e => exact kqueue_spec h e
  | socketpair e => exact socketpair_spec h e

theorem closeFd_wf (h : Wf s) (hopen : (s.iops i).isOpen = true) : Wf (closeFd s i) := by
  have hi : i ∉ s.freeIops := by
    intro hmem
    have := (h.free i hmem).2
    rw [hopen] at this
    cases this
  unfold closeFd
  simp only
  split
  · rename_i hbsd
    have hk := kept_iopHold s i
    obtain ⟨n, hn⟩ := Int.eq_ofNat_of_zero_le hbsd.2
    rw [hn]
    have hc := closed_kernClose (h.kept hk) n
    refine ((h.kept hk).closed hc).iopFree ?_
    rw [hc.freeIops, hk.freeIops]
    exact hi
  · exact h.iopFree hi

theorem tableStep_wf (h : Wf s) (a : TableAct) (hstep : tableStep s a = some t) : Wf t := by
  cases a with
  | create c =>
    cases hstep
    exact (exec_spec h c).2
  | openForeign data0 =>
    unfold tableStep at hstep
    simp only at hstep
    split at hstep
    · cases hstep
    · rename_i i rest hfree
      cases hstep
      obtain ⟨hwf, hi, -⟩ := h.take hfree
      refine ⟨hwf.size, hwf.int, hwf.beyond, hwf.nodup, ?_⟩
      intro j hj
      have hne : j ≠ i := by
        rintro rfl
        exact hi hj
      simpa [State.modIop, hne] using hwf.free j hj
  | close i =>
    obtain ⟨⟨-, hopen⟩, ⟨⟩⟩ := Option.ite_none_right_eq_some.mp hstep
    exact closeFd_wf h hopen

theorem initTables_wf (numberIops : Nat) {maxfd : Nat} (hmax : maxfd < 2 ^ 31) :
    Wf (initTables numberIops maxfd) := by
  refine ⟨Nat.succ_pos 19, hmax, fun _ _ => rfl, nodup_range, ?_⟩
  intro i _
  exact ⟨rfl, rfl⟩

/-- **When a call that fails leaves no trace.**  The largest number of descriptors is an `int`. -/
theorem noTrace_iff {numberIops maxfd : Nat} (hmax : maxfd < 2 ^ 31) (acts : List TableAct)
    (hrun : run tableStep (initTables numberIops maxfd) acts = some s) (c : Creating) :
    NoTrace s (c.exec s) ↔ c.Clean s := by
  have hwf : Wf s :=
    run_invariant (fun _ a _ h hstep => tableStep_wf h a hstep) acts _ _ (initTables_wf numberIops hmax) hrun
  exact (exec_spec hwf c).1

def oneSocket : List TableAct := [.create (.socket ⟨true, none, none, none, false⟩)]

/-- A kqueue whose descriptor is ripped, while the number of its libio object is not open. -/
theorem noTrace_iff_oneSocket :
    ∃ s, run tableStep (initTables 4 64) oneSocket = some s ∧
      NoTrace s (kqueue s ⟨true, none, none, none, true⟩) := by
  refine ⟨_, rfl, ?_⟩
  refine (noTrace_iff (by decide) oneSocket rfl (.kqueue ⟨true, none, none, none, true⟩)).mpr (.inr ?_)
  rintro i ⟨⟩
  rfl

/-- The two sockets cannot be connected (`EOPNOTSUPP`), and the socket that was there before is closed. -/
theorem failedPair_closes :
    ∃ s, run tableStep (initTables 4 64) oneSocket = some s ∧
      ¬ NoTrace s (socketpair s ⟨true, none, none, none, some (.other 95), false, false⟩) := by
  refine ⟨_, rfl, ?_⟩
  intro hno
  have hof := (hno (.other 95) rfl).1
  have hzero := congrFun hof 0
  cases hzero

end Calls

end RtemsLibbsd.Libio
