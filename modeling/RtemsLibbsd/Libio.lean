import Mathlib.Algebra.Group.Int.Defs
import Mathlib.Algebra.Group.Nat.Defs
import Mathlib.Data.Option.Basic
import Mathlib.Tactic.Basic

/-!
# Descriptors of the socket system calls

Model of the two descriptor tables behind `rtemsbsd/rtems/rtems-bsd-syscall-api.c` and
`rtemsbsd/include/machine/rtems-bsd-libio.h`: the table of libio objects, which application
descriptors index, and the BSD descriptor table of `kern_descrip.c`.  A libio object that stands
for a BSD file keeps the BSD descriptor number in `data0`.

* `rtemsBsdLibioIopHold` translates a libio descriptor.  It answers `data0` for a BSD object and
  the libio descriptor itself for an object of another file system.
* `viaDescriptor` is the body the thirteen system calls share; each is an instance of it under
  its own name, `accept` and `shutdown` have bodies of their own.
* `Out` records which BSD file a call took a reference on (`touched`) and on which it performed
  its operation (`performed`).

Only `shutdown` asks whether the object is a BSD object.  The others use the answer of
`rtemsBsdLibioIopHold` as a BSD descriptor in any case, so a descriptor of another file system
reaches the BSD file that happens to have its number (`bind_foreign_breaks`).
**`confined_iff`** says exactly when a call stays with the file bound to its descriptor.

An operation on a file is one step with a result of the environment; what a `kevent` change list
names is not part of the model.
-/

namespace RtemsLibbsd.Libio

inductive Errno where
  | EBADF
  | ENOMEM
  | ENFILE
  | EMFILE
  | ENOTSOCK
  | EINVAL
  | other (n : Nat)

/-- The file handlers `rtems_bsd_sysgen_*`, or those of another file system. -/
inductive Handlers where
  | dirops
  | fileops
  | nodeops
  | imfsnodeops
  | foreign
  deriving DecidableEq

inductive FType where
  | none
  | vnode
  | socket
  | kqueue
  | other
  deriving DecidableEq

abbrev FileId := Nat

/-- `struct file`: `f_type`, `KQ_CLOSING` of its kqueue, and `f_io`. -/
structure File where
  ftype : FType
  kqClosing : Bool
  fIo : Option Nat

/-- `rtems_libio_t`: `LIBIO_FLAGS_OPEN`, the handlers, `data0` (a `uint32_t`) and the reference
    count.  `bound` is the BSD file the object was opened for; no code reads it. -/
structure Iop where
  isOpen : Bool
  handlers : Handlers
  data0 : Nat
  refs : Nat
  bound : Option FileId

/-- Both tables.  `nfiles` is `fdt_nfiles`, `maxfd` the answer of `getmaxfd`. -/
structure State where
  numberIops : Nat
  iops : Nat → Iop
  freeIops : List Nat
  nfiles : Nat
  maxfd : Nat
  ofiles : Nat → Option FileId
  files : FileId → File
  nextFile : FileId

def rtemsBsdIsLibbsdNvops (o : Iop) : Bool := o.handlers = .dirops || o.handlers = .fileops

def rtemsBsdIsLibbsdDescriptor (o : Iop) : Bool :=
  o.handlers = .nodeops || rtemsBsdIsLibbsdNvops o

/-- `(int)n` of a `uint32_t`. -/
def sint (n : Nat) : Int :=
  if n % 2 ^ 32 < 2 ^ 31 then (n % 2 ^ 32 : Nat) else (n % 2 ^ 32 : Nat) - 2 ^ 32

def rtemsBsdLibioIopToDescriptor (o : Iop) : Int := sint o.data0

/-- The state after a change of the libio object `i`. -/
def State.modIop (s : State) (i : Nat) (g : Iop → Iop) : State :=
  { s with iops := fun j => if j = i then g (s.iops j) else s.iops j }

def rtemsLibioIopHold (s : State) (i : Nat) : State :=
  s.modIop i fun o => { o with refs := o.refs + 1 }

def rtemsLibioIopDrop (s : State) (i : Nat) : State :=
  s.modIop i fun o => { o with refs := o.refs - 1 }

/-- `rtems_bsd_libio_iop_hold` with a null `iopp`. -/
def rtemsBsdLibioIopHold (s : State) (fd : Int) : Int × State :=
  if 0 ≤ fd ∧ fd < s.numberIops then
    let o := s.iops fd.toNat
    let s' := rtemsLibioIopHold s fd.toNat
    if o.isOpen then
      if rtemsBsdIsLibbsdDescriptor o then (rtemsBsdLibioIopToDescriptor o, s')
      else (fd, s')
    else (-1, rtemsLibioIopDrop s' fd.toNat)
  else (-1, s)

def rtemsBsdLibioIopDrop (s : State) (fd : Int) : State := rtemsLibioIopDrop s fd.toNat

/-- The entry of the BSD descriptor table that `fget_unlocked` reads.  `fdt_nfiles` is an `int`,
    so its test `(u_int)fd >= fdt_nfiles` refuses the negative numbers. -/
def bsdEntry (s : State) (fd : Int) : Option FileId :=
  if 0 ≤ fd ∧ fd < s.nfiles then s.ofiles fd.toNat else none

/-- `fget_unlocked`: a reference on the file and on its libio object. -/
def fgetUnlocked (s : State) (fd : Int) : Except Errno (FileId × State) :=
  match bsdEntry s fd with
  | none => .error .EBADF
  | some f =>
    match (s.files f).fIo with
    | none => .ok (f, s)
    | some i => .ok (f, rtemsLibioIopHold s i)

/-- `fdrop` while the table still refers to the file. -/
def fdrop (s : State) (f : FileId) : State :=
  match (s.files f).fIo with
  | none => s
  | some i => rtemsLibioIopDrop s i

inductive Need where
  | sock
  | kq

/-- The type check of `getsock` and of `kqueue_acquire`. -/
def Need.check : Need → File → Option Errno
  | .sock, f => if f.ftype ≠ .socket then some .ENOTSOCK else none
  | .kq, f => if f.ftype ≠ .kqueue then some .EBADF else if f.kqClosing then some .EBADF else none

structure Out where
  st : State
  touched : Option FileId
  performed : Option FileId
  ret : Except Errno Int

def Out.fail (s : State) (e : Errno) : Out := ⟨s, none, none, .error e⟩

/-- What the caller and the kernel decide: whether there is a thread structure, the answer of the
    argument checks a system call makes before it looks at the descriptor, the result of the
    operation, and for `accept` whether the socket listens and whether a file can be allocated. -/
structure Env where
  td : Bool
  argError : Option Errno
  result : Except Errno Int
  listening : Bool
  noFile : Option Errno

/-- `sys_*`: the lookup of the BSD descriptor, the type check and the operation. -/
def sysCall (need : Need) (argError : Option Errno) (result : Except Errno Int) (s : State)
    (ffd : Int) : Out :=
  match argError with
  | some e => Out.fail s e
  | none =>
    match fgetUnlocked s ffd with
    | .error e => Out.fail s e
    | .ok (f, s') =>
      match need.check (s'.files f) with
      | some e => ⟨fdrop s' f, some f, none, .error e⟩
      | none => ⟨fdrop s' f, some f, some f, result⟩

/-- The body of the system calls.  `refuse` is the test of the translated descriptor, `retval`
    says whether `td_retval[0]` is returned. -/
def viaDescriptor (need : Need) (refuse : Int → Bool) (argError : Env → Option Errno)
    (retval : Bool) (s : State) (fd : Int) (e : Env) : Out :=
  if e.td then
    let h := rtemsBsdLibioIopHold s fd
    if refuse h.1 then Out.fail h.2 .EBADF
    else
      let r := sysCall need (argError e) e.result h.2 h.1
      { r with
        st := rtemsBsdLibioIopDrop r.st fd
        ret := if retval then r.ret else r.ret.map fun _ => 0 }
  else Out.fail s .ENOMEM

/-- `ffd < 0`. -/
def negative (ffd : Int) : Bool := ffd < 0

/-- `ffd == -1`, the test of `bind`. -/
def minusOne (ffd : Int) : Bool := ffd = -1

/-- A system call that checks no argument before the descriptor. -/
def unchecked (_ : Env) : Option Errno := none

def bind := viaDescriptor .sock minusOne Env.argError false

def connect := viaDescriptor .sock negative Env.argError false

def getpeername := viaDescriptor .sock negative unchecked false

def getsockname := viaDescriptor .sock negative unchecked false

def getsockopt := viaDescriptor .sock negative Env.argError false

def kevent := viaDescriptor .kq negative unchecked true

def listen := viaDescriptor .sock negative unchecked false

def recvfrom := viaDescriptor .sock negative unchecked true

def recvmsg := viaDescriptor .sock negative Env.argError true

def sendto := viaDescriptor .sock negative Env.argError true

def sendmsg := viaDescriptor .sock negative Env.argError true

def setsockopt := viaDescriptor .sock negative Env.argError false

/-- `fd_first_free`, the whole table being in use when it answers `nfiles`. -/
def fdFirstFree (s : State) : Nat :=
  ((List.range s.nfiles).find? fun i => s.ofiles i = none).getD s.nfiles

/-- `NDENTRIES`, with a `u_long` of 32 bits. -/
abbrev NDENTRIES : Nat := 32

/-- `fdgrowtable_exp`: the new size of the table. -/
def fdgrowtableExp (nfiles nfd : Nat) : Nat :=
  max nfiles ((max (nfiles * 2) nfd + NDENTRIES - 1) / NDENTRIES * NDENTRIES)

/-- `falloc`: `fdalloc` and `_finstall` of a new file. -/
def falloc (s : State) (noFile : Option Errno) : Except Errno (Nat × FileId × State) :=
  match noFile with
  | some e => .error e
  | none =>
    let fd := fdFirstFree s
    if fd ≥ s.maxfd then .error .EMFILE
    else
      let f := s.nextFile
      .ok (fd, f, { s with
        nfiles := if s.nfiles ≤ fd then fdgrowtableExp s.nfiles (min (fd * 2) s.maxfd) else s.nfiles
        ofiles := fun i => if i = fd then some f else s.ofiles i
        files := fun g => if g = f then ⟨.none, false, none⟩ else s.files g
        nextFile := f + 1 })

/-- `fdclose`, `kern_close` of a descriptor: the entry is cleared and its reference dropped. -/
def fdclose (s : State) (fd : Nat) : State :=
  match s.ofiles fd with
  | none => s
  | some f => fdrop { s with ofiles := fun i => if i = fd then none else s.ofiles i } f

/-- `kern_accept4` behind the descriptor lookup: a socket file in a new descriptor. -/
def kernAccept (s : State) (e : Env) : Except Errno (Nat × FileId) × State :=
  if e.listening then
    match falloc s e.noFile with
    | .error err => (.error err, s)
    | .ok (fd, nfp, s') =>
      match e.result with
      | .error err => (.error err, fdclose s' fd)
      | .ok _ =>
        (.ok (fd, nfp), { s' with
          files := fun g => if g = nfp then ⟨.socket, false, none⟩ else s'.files g })
  else (.error .EINVAL, s)

def rtemsBsdLibioIopSetBsdFd (s : State) (fd : Nat) (i : Nat) (ops : Handlers) :
    Except Errno State :=
  if fd < s.nfiles then
    match s.ofiles fd with
    | none => .error .EBADF
    | some f =>
      .ok { s.modIop i (fun o => { o with
              isOpen := true, handlers := ops, data0 := fd % 2 ^ 32, bound := some f }) with
            files := fun g => if g = f then { s.files g with fIo := some i } else s.files g }
  else .error .EBADF

/-- `accept`, from the allocation of the libio object on. -/
def acceptFinish (s : State) (afd : Nat) : Except Errno Int × State :=
  match s.freeIops with
  | [] => (.error .ENFILE, fdclose s afd)
  | i :: rest =>
    match rtemsBsdLibioIopSetBsdFd { s with freeIops := rest } afd i .nodeops with
    | .error err => (.error err, fdclose { s with freeIops := rest ++ [i] } afd)
    | .ok s' => (.ok i, s')

def accept (s : State) (fd : Int) (e : Env) : Out :=
  if e.td then
    let h := rtemsBsdLibioIopHold s fd
    if negative h.1 then Out.fail h.2 .EBADF
    else
      match fgetUnlocked h.2 h.1 with
      | .error err => Out.fail (rtemsBsdLibioIopDrop h.2 fd) err
      | .ok (f, s') =>
        match Need.sock.check (s'.files f) with
        | some err => ⟨rtemsBsdLibioIopDrop (fdrop s' f) fd, some f, none, .error err⟩
        | none =>
          match kernAccept s' e with
          | (.error err, s'') =>
            ⟨rtemsBsdLibioIopDrop (fdrop s'' f) fd, some f, some f, .error err⟩
          | (.ok (afd, _), s'') =>
            let r := acceptFinish (rtemsBsdLibioIopDrop (fdrop s'' f) fd) afd
            ⟨r.2, some f, some f, r.1⟩
  else Out.fail s .ENOMEM

/-- `shutdown`, the one system call that asks whether the object is a BSD object. -/
def shutdown (s : State) (fd : Int) (e : Env) : Out :=
  if e.td then
    let h := rtemsBsdLibioIopHold s fd
    if negative h.1 then Out.fail h.2 .EBADF
    else if rtemsBsdIsLibbsdDescriptor (h.2.iops fd.toNat) then
      let r := sysCall .sock e.argError e.result h.2 h.1
      { r with
        st := rtemsBsdLibioIopDrop r.st fd
        ret := r.ret.map fun _ => 0 }
    else Out.fail (rtemsBsdLibioIopDrop h.2 fd) .ENOTSOCK
  else Out.fail s .ENOMEM

inductive Call where
  | accept
  | bind
  | connect
  | getpeername
  | getsockname
  | getsockopt
  | kevent
  | listen
  | recvfrom
  | recvmsg
  | sendto
  | sendmsg
  | setsockopt
  deriving DecidableEq

def Call.exec : Call → State → Int → Env → Out
  | .accept => Libio.accept
  | .bind => Libio.bind
  | .connect => Libio.connect
  | .getpeername => Libio.getpeername
  | .getsockname => Libio.getsockname
  | .getsockopt => Libio.getsockopt
  | .kevent => Libio.kevent
  | .listen => Libio.listen
  | .recvfrom => Libio.recvfrom
  | .recvmsg => Libio.recvmsg
  | .sendto => Libio.sendto
  | .sendmsg => Libio.sendmsg
  | .setsockopt => Libio.setsockopt

def Call.need : Call → Need
  | .kevent => .kq
  | _ => .sock

/-- The argument check made before the descriptor is looked up. -/
def Call.argError : Call → Env → Option Errno
  | .accept | .getpeername | .getsockname | .kevent | .listen | .recvfrom => unchecked
  | _ => Env.argError

def openIop (s : State) (fd : Int) : Option Iop :=
  if 0 ≤ fd ∧ fd < s.numberIops ∧ (s.iops fd.toNat).isOpen then some (s.iops fd.toNat) else none

/-- The BSD file that was bound to the descriptor when it was opened. -/
def boundFile (s : State) (fd : Int) : Option FileId :=
  match openIop s fd with
  | none => none
  | some o => if rtemsBsdIsLibbsdDescriptor o then o.bound else none

/-- The call performs its operation on the file bound to the descriptor, or fails without any;
    for a descriptor of another file system it takes no BSD file at all. -/
structure Confined (s : State) (fd : Int) (out : Out) : Prop where
  operation : (∃ f, out.performed = some f ∧ boundFile s fd = some f) ∨
    (out.performed = none ∧ ∃ err, out.ret = .error err)
  foreign : ∀ o, openIop s fd = some o → rtemsBsdIsLibbsdDescriptor o = false → out.touched = none

/-- The descriptor is one of another file system and the BSD table has a file at its number, or
    it is a BSD descriptor whose number now names another file that the operation would accept. -/
def Misdirected (need : Need) (s : State) (fd : Int) : Prop :=
  ∃ o f, openIop s fd = some o ∧
    ((rtemsBsdIsLibbsdDescriptor o = false ∧ bsdEntry s fd = some f) ∨
     (rtemsBsdIsLibbsdDescriptor o = true ∧ bsdEntry s (rtemsBsdLibioIopToDescriptor o) = some f ∧
       need.check (s.files f) = none ∧ o.bound ≠ some f))

def reached (s : State) (fd : Int) : Option FileId :=
  match openIop s fd with
  | none => none
  | some o =>
    if rtemsBsdIsLibbsdDescriptor o then bsdEntry s (rtemsBsdLibioIopToDescriptor o)
    else bsdEntry s fd

section Facts

variable (s : State) (i : Nat) (g : Iop → Iop) (fd : Int)

@[simp] theorem bsdEntry_modIop : bsdEntry (s.modIop i g) fd = bsdEntry s fd := rfl

@[simp]
theorem drop_hold : rtemsLibioIopDrop (rtemsLibioIopHold s i) i = s := by
  unfold rtemsLibioIopDrop rtemsLibioIopHold State.modIop
  cases s
  simp only [State.mk.injEq, true_and, and_true]
  funext j
  by_cases h : j = i <;> simp [h]

theorem bsdEntry_negative (h : fd < 0) : bsdEntry s fd = none := by
  unfold bsdEntry
  rw [if_neg]
  omega

theorem hold_of_open {o : Iop} (h : openIop s fd = some o) :
    rtemsBsdLibioIopHold s fd =
      (if rtemsBsdIsLibbsdDescriptor o then rtemsBsdLibioIopToDescriptor o else fd,
        rtemsLibioIopHold s fd.toNat) := by
  unfold openIop at h
  split at h
  · rename_i hc
    cases h
    unfold rtemsBsdLibioIopHold
    rw [if_pos ⟨hc.1, hc.2.1⟩]
    simp only [hc.2.2, if_true]
    split <;> rfl
  · cases h

theorem hold_of_closed (h : openIop s fd = none) : rtemsBsdLibioIopHold s fd = (-1, s) := by
  unfold openIop at h
  split at h
  · cases h
  · unfold rtemsBsdLibioIopHold
    split
    · have : (s.iops fd.toNat).isOpen = false := by
        grind
      simp [this]
    · rfl

/-- The translated descriptor leads to the file `reached` names, or is refused. -/
theorem bsdEntry_hold :
    bsdEntry (rtemsBsdLibioIopHold s fd).2 (rtemsBsdLibioIopHold s fd).1 = reached s fd := by
  grind [hold_of_closed, reached, bsdEntry_negative, hold_of_open, rtemsLibioIopHold, bsdEntry_modIop]

theorem fgetUnlocked_cases :
    (fgetUnlocked s fd = .error .EBADF ∧ bsdEntry s fd = none) ∨
    (∃ f s', fgetUnlocked s fd = .ok (f, s') ∧ bsdEntry s fd = some f ∧ s'.files = s.files) := by
  unfold fgetUnlocked
  cases h : bsdEntry s fd with
  | none => exact .inl ⟨rfl, rfl⟩
  | some f =>
    right
    cases hf : (s.files f).fIo with
    | none => exact ⟨f, s, by simp [hf], rfl, rfl⟩
    | some j => exact ⟨f, rtemsLibioIopHold s j, by simp [hf], rfl, rfl⟩

end Facts

/-- What a call does when its lookup takes the file `target`: it performs its operation when the
    file passes the type check and fails otherwise. -/
structure Follows (need : Need) (files : FileId → File) (target : Option FileId) (out : Out) :
    Prop where
  touched : out.touched = target
  performed : out.performed = target.filter fun f => need.check (files f) = none
  failed : out.performed = none → ∃ err, out.ret = .error err

theorem follows_fail (need : Need) (files : FileId → File) (s : State) (err : Errno) :
    Follows need files none (Out.fail s err) :=
  ⟨rfl, rfl, fun _ => ⟨err, rfl⟩⟩

variable {need : Need} {out : Out}

/-- A call that follows `target` still does after the work that comes behind its operation. -/
theorem Follows.after {files : FileId → File} {target : Option FileId}
    (h : Follows need files target out) (s : State) (retval : Bool) :
    Follows need files target { out with
      st := s
      ret := if retval then out.ret else out.ret.map fun _ => 0 } := by
  refine ⟨h.touched, h.performed, ?_⟩
  intro hp
  obtain ⟨err, he⟩ := h.failed hp
  cases retval <;> simp [he, Except.map]

theorem sysCall_follows (need : Need) (argError : Option Errno) (result : Except Errno Int)
    (s : State) (ffd : Int) :
    Follows need s.files (if argError = none then bsdEntry s ffd else none)
      (sysCall need argError result s ffd) := by
  unfold sysCall
  cases argError with
  | some err => exact follows_fail need s.files s err
  | none =>
    rcases fgetUnlocked_cases s ffd with ⟨hg, hb⟩ | ⟨f, s', hg, hb, hfiles⟩
    · simp only [hg, hb, if_true]
      exact follows_fail need s.files s .EBADF
    · simp only [hg, hb, if_true, hfiles]
      cases hc : need.check (s.files f) with
      | some err => exact ⟨rfl, by simp [Option.filter, hc], fun _ => ⟨err, rfl⟩⟩
      | none => exact ⟨rfl, by simp [Option.filter, hc], fun h => by cases h⟩

theorem hold_files (s : State) (fd : Int) : (rtemsBsdLibioIopHold s fd).2.files = s.files := by
  cases h : openIop s fd with
  | none => rw [hold_of_closed s fd h]
  | some o =>
    rw [hold_of_open s fd h]
    rfl

theorem reached_of_negative {s : State} {fd : Int} (h : (rtemsBsdLibioIopHold s fd).1 < 0) :
    reached s fd = none := by
  rw [← bsdEntry_hold]
  exact bsdEntry_negative _ _ h

/-- The shared body follows the file its descriptor leads to, for every test of the translated
    descriptor that refuses negative numbers only. -/
theorem viaDescriptor_follows (need : Need) {refuse : Int → Bool}
    (hr : ∀ ffd, refuse ffd = true → ffd < 0) (argError : Env → Option Errno) (retval : Bool)
    (s : State) (fd : Int) (e : Env) :
    Follows need s.files (if e.td ∧ argError e = none then reached s fd else none)
      (viaDescriptor need refuse argError retval s fd e) := by
  unfold viaDescriptor
  cases e.td with
  | false => simpa using follows_fail need s.files s .ENOMEM
  | true =>
    simp only [if_true, true_and]
    cases hf : refuse (rtemsBsdLibioIopHold s fd).1 with
    | true =>
      rw [reached_of_negative (hr _ hf)]
      simpa using follows_fail need s.files _ .EBADF
    | false =>
      have h := sysCall_follows need (argError e) e.result (rtemsBsdLibioIopHold s fd).2
        (rtemsBsdLibioIopHold s fd).1
      rw [bsdEntry_hold, hold_files] at h
      exact h.after _ retval

theorem negative_lt (ffd : Int) (h : negative ffd = true) : ffd < 0 := of_decide_eq_true h

theorem minusOne_lt (ffd : Int) (h : minusOne ffd = true) : ffd < 0 := by
  have : ffd = -1 := of_decide_eq_true h
  omega

theorem accept_follows (s : State) (fd : Int) (e : Env) :
    Follows .sock s.files (if e.td then reached s fd else none) (accept s fd e) := by
  unfold accept
  cases e.td with
  | false => exact follows_fail .sock s.files s .ENOMEM
  | true =>
    simp only [if_true]
    split
    · rename_i hf
      rw [reached_of_negative (negative_lt _ hf)]
      exact follows_fail .sock s.files _ .EBADF
    · rw [← bsdEntry_hold, ← hold_files s fd]
      rcases fgetUnlocked_cases (rtemsBsdLibioIopHold s fd).2 (rtemsBsdLibioIopHold s fd).1 with
        ⟨hg, hb⟩ | ⟨f, s', hg, hb, hfiles⟩
      · simp only [hg, hb]
        exact follows_fail .sock _ _ .EBADF
      · simp only [hg, hb, hfiles]
        cases hc : Need.sock.check ((rtemsBsdLibioIopHold s fd).2.files f) with
        | some err => exact ⟨rfl, by simp [Option.filter, hc], fun _ => ⟨err, rfl⟩⟩
        | none =>
          rcases kernAccept s' e with ⟨_ | ⟨afd, nfp⟩, s''⟩
          · exact ⟨rfl, by simp [Option.filter, hc], fun h => by cases h⟩
          · exact ⟨rfl, by simp [Option.filter, hc], fun h => by cases h⟩

theorem exec_follows (c : Call) (s : State) (fd : Int) (e : Env) :
    Follows c.need s.files (if e.td ∧ c.argError e = none then reached s fd else none)
      (c.exec s fd e) := by
  cases c with
  | accept =>
    simp only [Call.argError, unchecked, and_true]
    exact accept_follows s fd e
  | bind => exact viaDescriptor_follows .sock minusOne_lt Env.argError false s fd e
  | kevent => exact viaDescriptor_follows .kq negative_lt unchecked true s fd e
  | connect => exact viaDescriptor_follows .sock negative_lt Env.argError false s fd e
  | getpeername => exact viaDescriptor_follows .sock negative_lt unchecked false s fd e
  | getsockname => exact viaDescriptor_follows .sock negative_lt unchecked false s fd e
  | getsockopt => exact viaDescriptor_follows .sock negative_lt Env.argError false s fd e
  | listen => exact viaDescriptor_follows .sock negative_lt unchecked false s fd e
  | recvfrom => exact viaDescriptor_follows .sock negative_lt unchecked true s fd e
  | recvmsg => exact viaDescriptor_follows .sock negative_lt Env.argError true s fd e
  | sendto => exact viaDescriptor_follows .sock negative_lt Env.argError true s fd e
  | sendmsg => exact viaDescriptor_follows .sock negative_lt Env.argError true s fd e
  | setsockopt => exact viaDescriptor_follows .sock negative_lt Env.argError false s fd e

theorem Follows.confined_of_none {files : FileId → File} {s : State} {fd : Int} (h : Follows need files none out) :
    Confined s fd out :=
  ⟨.inr ⟨h.performed, h.failed h.performed⟩, fun _ _ _ => h.touched⟩

/-- A call that follows its descriptor is confined exactly when the descriptor does not lead to a
    file of somebody else. -/
theorem Follows.confined_reached {s : State} {fd : Int}
    (h : Follows need s.files (reached s fd) out) :
    Confined s fd out ↔ ¬ Misdirected need s fd := by
  constructor
  · rintro ⟨hop, hfor⟩ ⟨o, f, ho, ⟨hlib, hf⟩ | ⟨hlib, hf, hcheck, hbound⟩⟩
    · have ht := h.touched.symm.trans (hfor o ho hlib)
      simp [reached, ho, hlib, hf] at ht
    · have hp : out.performed = some f := by
        rw [h.performed]
        simp [reached, ho, hlib, hf, Option.filter, hcheck]
      rcases hop with ⟨f', hf', hb⟩ | ⟨hnone, -⟩
      · rw [hp] at hf'
        cases hf'
        simp only [boundFile, ho, hlib, if_true] at hb
        exact hbound hb
      · rw [hp] at hnone
        cases hnone
  · intro hm
    cases ho : openIop s fd with
    | none =>
      have hr : reached s fd = none := by simp [reached, ho]
      rw [hr] at h
      exact h.confined_of_none
    | some o =>
      cases hlib : rtemsBsdIsLibbsdDescriptor o with
      | false =>
        have hr : reached s fd = none := by
          simp only [reached, ho, hlib]
          cases hf : bsdEntry s fd with
          | none => rfl
          | some f => exact absurd ⟨o, f, ho, .inl ⟨hlib, hf⟩⟩ hm
        rw [hr] at h
        exact h.confined_of_none
      | true =>
        refine ⟨?_, fun o' ho' hl => ?_⟩
        · cases hp : out.performed with
          | none => exact .inr ⟨rfl, h.failed hp⟩
          | some f =>
            left
            have hf := h.performed
            rw [hp] at hf
            obtain ⟨hr, hcheck⟩ := Option.filter_eq_some_iff.mp hf.symm
            simp only [reached, ho, hlib, if_true] at hr
            have hb : o.bound = some f := by
              by_contra hne
              exact hm ⟨o, f, ho, .inr ⟨hlib, hr, of_decide_eq_true hcheck, hne⟩⟩
            exact ⟨f, rfl, by simp [boundFile, ho, hlib, hb]⟩
        · rw [ho] at ho'
          cases ho'
          rw [hlib] at hl
          cases hl

/-- **A system call is confined to the file of its descriptor exactly when it does not get to its
    lookup with a descriptor that leads to a file of somebody else.** -/
theorem confined_iff (c : Call) (s : State) (fd : Int) (e : Env) :
    Confined s fd (c.exec s fd e) ↔
      ¬ (e.td = true ∧ c.argError e = none ∧ Misdirected c.need s fd) := by
  have h := exec_follows c s fd e
  by_cases hreach : e.td = true ∧ c.argError e = none
  · rw [if_pos hreach] at h
    rw [h.confined_reached]
    simp [hreach.1, hreach.2]
  · rw [if_neg hreach] at h
    refine iff_of_true h.confined_of_none ?_
    rintro ⟨htd, harg, -⟩
    exact hreach ⟨htd, harg⟩

/-- Descriptor 0 is a file of another file system, and a socket opened through descriptor 1 has
    the BSD descriptor 0. -/
def consoleAndSocket : State where
  numberIops := 2
  iops i := if i = 0 then ⟨true, .foreign, 0, 0, none⟩ else ⟨true, .nodeops, 0, 0, some 7⟩
  freeIops := []
  nfiles := 20
  maxfd := 64
  ofiles i := if i = 0 then some 7 else none
  files _ := ⟨.socket, false, some 1⟩
  nextFile := 8

/-- `bind` on descriptor 0 binds the socket of descriptor 1. -/
theorem bind_foreign_breaks :
    (Call.bind.exec consoleAndSocket 0 ⟨true, none, .ok 0, false, none⟩).performed = some 7 ∧
    ¬ Confined consoleAndSocket 0
      (Call.bind.exec consoleAndSocket 0 ⟨true, none, .ok 0, false, none⟩) := by
  refine ⟨by decide, ?_⟩
  intro h
  rcases h.operation with ⟨f, -, hb⟩ | ⟨hp, -⟩
  · exact absurd hb (by simp [boundFile, openIop, consoleAndSocket, rtemsBsdIsLibbsdDescriptor,
      rtemsBsdIsLibbsdNvops])
  · exact absurd hp (by decide)

end RtemsLibbsd.Libio
