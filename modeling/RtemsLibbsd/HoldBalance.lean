import Mathlib.Data.List.Count
import Mathlib.Tactic.IntervalCases
import RtemsLibbsd.Libio

/-!
# Holds and drops of the system calls

What the system calls of `Libio` do to the reference counts of libio objects, with a model of the change list of
`kevent`: `kqueue_register`, `kqueue_kevent` and `kqueue_scan` of `freebsd/sys/kern/kern_event.c`, as far as they
take and drop references.

* `Knote` — a knote keeps a reference on a file, or on a libio object of another file system.
* `kqueueRegister` — one change.  A knote that is added keeps the reference that was taken to look up its descriptor.
* `World` — the tables and the knotes of all kqueues; `Act` — a system call.
* `Balanced` — no reference count changes but by the knotes that the call adds and removes.
* `Consistent` — open BSD objects have a file in the descriptor table, and counts cover the knotes.
* `calls_balanced` — the calls other than `kevent` need less: the numbers of these objects are not negative.
* **`balanced_of_run`** — after every run of calls, every call is balanced.

A file that is not in the table, or a descriptor that is negative, would leave `kqueue_register` and the other calls
with a reference that they do not drop.
-/

namespace RtemsLibbsd.Libio

open List

/-- `kn_fp`: a file, or a libio object for `KN_FP_IS_IOP`; nothing for a filter that is not about descriptors. -/
inductive KnoteFp where
  | file (f : FileId)
  | iop (i : Nat)
  | none
  deriving DecidableEq

structure Knote where
  kq : FileId
  ident : Nat
  filter : Nat
  fp : KnoteFp
  oneshot : Bool
  deriving DecidableEq

structure Kevent where
  ident : Nat
  filter : Nat
  add : Bool
  delete : Bool
  enable : Bool
  disable : Bool
  keepudata : Bool
  oneshot : Bool
  forceoneshot : Bool
  receipt : Bool

/-- What else decides about a change: the filter and whether it is about descriptors, the result of `kqueue_expand` if it
    has to be repeated, how often the knote is in flux, and the result of the filter's `f_attach`. -/
structure ChangeEnv where
  isfd : Option Bool
  expand : Option (Option Errno)
  influx : Nat
  attach : Option Errno

/-- The libio object whose reference is kept by `kn_fp`. -/
def KnoteFp.object (s : State) : KnoteFp → Option Nat
  | .file f => (s.files f).fIo
  | .iop i => some i
  | .none => Option.none

/-- `fdrop` or `rtems_libio_iop_drop`. -/
def KnoteFp.release (s : State) : KnoteFp → State
  | .file f => fdrop s f
  | .iop i => rtemsLibioIopDrop s i
  | .none => s

/-- The lookup of a descriptor in `kqueue_register`. -/
def keventFp (s : State) (ident : Nat) : Except Errno KnoteFp × State :=
  if 2 ^ 31 - 1 < ident then (.error .EBADF, s)
  else
    let h := rtemsBsdLibioIopHold s ident
    if h.1 < 0 then (.error .EBADF, h.2)
    else if rtemsBsdIsLibbsdDescriptor (h.2.iops ident) then
      match fgetUnlocked h.2 h.1 with
      | .error e => (.error e, h.2)
      | .ok (f, s') => (.ok (.file f), rtemsBsdLibioIopDrop s' ident)
    else (.ok (.iop ident), h.2)

/-- The lookup, which starts again after each wait for a knote in flux. -/
def findkn (s : State) (ident : Nat) : Nat → Except Errno KnoteFp × State
  | 0 => keventFp s ident
  | influx + 1 =>
    match keventFp s ident with
    | (.error e, s) => (.error e, s)
    | (.ok fp, s) => findkn (fp.release s) ident influx

/-- The lookup with `kqueue_expand`, which is repeated without the reference. -/
def expandFindkn (s : State) (kev : Kevent) (env : ChangeEnv) : Except Errno KnoteFp × State :=
  match if kev.add then env.expand else none with
  | none => findkn s kev.ident env.influx
  | some again =>
    match keventFp s kev.ident with
    | (.error e, s) => (.error e, s)
    | (.ok fp, s) =>
      match again with
      | some e => (.error e, fp.release s)
      | none => findkn (fp.release s) kev.ident env.influx

def Knote.matches (kq : FileId) (kev : Kevent) (kn : Knote) : Bool :=
  kn.kq = kq && kn.ident = kev.ident && kn.filter = kev.filter

/-- `kqueue_register` behind the lookup. -/
def registerKnote (kq : FileId) (kev : Kevent) (attach : Option Errno) (fp : KnoteFp) (s : State) (kns : List Knote) :
    Option Errno × State × List Knote :=
  match kns.find? (Knote.matches kq kev) with
  | none =>
    if kev.add then
      match attach with
      | some e => (some e, fp.release s, kns)
      | none => (none, s, ⟨kq, kev.ident, kev.filter, fp, kev.oneshot⟩ :: kns)
    else (some (.other 2), fp.release s, kns)
  | some kn =>
    if kev.delete then (none, fp.release (kn.fp.release s), kns.eraseP (Knote.matches kq kev))
    else
      (none, fp.release s, kns.map fun x => if x = kn ∧ kev.forceoneshot then { x with oneshot := true } else x)

/-- `kqueue_register` for the kqueue `kq`. -/
def kqueueRegister (kq : FileId) (kev : Kevent) (env : ChangeEnv) (s : State) (kns : List Knote) :
    Option Errno × State × List Knote :=
  if kev.enable ∧ kev.disable then (some .EINVAL, s, kns)
  else
    match env.isfd with
    | none => (some .EINVAL, s, kns)
    | some isfd =>
      if kev.add ∧ kev.keepudata then (some .EINVAL, s, kns)
      else if isfd then
        match expandFindkn s kev env with
        | (.error e, s) => (some e, s, kns)
        | (.ok fp, s) =>
          if fp = .file kq ∧ (s.files kq).ftype = .kqueue then (some .EINVAL, fp.release s, kns)
          else registerKnote kq kev env.attach fp s kns
      else registerKnote kq kev env.attach .none s kns

/-- The change list of `kqueue_kevent`, with the error that ends it and the number of errors that are stored. -/
def changes (kq : FileId) : List (Kevent × ChangeEnv) → Nat → Nat → State → List Knote →
    Option Errno × Nat × State × List Knote
  | [], _, nerrors, s, kns => (none, nerrors, s, kns)
  | (kev, env) :: rest, nevents, nerrors, s, kns =>
    if kev.filter = 0 then changes kq rest nevents nerrors s kns
    else
      match kqueueRegister kq kev env s kns with
      | (error, s, kns) =>
        if error.isSome ∨ kev.receipt then
          if nevents = 0 then (error, nerrors, s, kns)
          else changes kq rest (nevents - 1) (nerrors + 1) s kns
        else changes kq rest nevents nerrors s kns

/-- What decides about a scan: the knotes it gets to, and those for which the filter itself has set `EV_DROP` or
    `EV_ONESHOT`. -/
structure ScanEnv where
  delivered : Knote → Bool
  ended : Knote → Bool

/-- `kqueue_scan`: the knotes it gets to go, if they are for one event only. -/
def kqueueScan (kq : FileId) (env : ScanEnv) : State → List Knote → State × List Knote
  | s, [] => (s, [])
  | s, kn :: kns =>
    if kn.kq = kq ∧ env.delivered kn ∧ (kn.oneshot ∨ env.ended kn) then kqueueScan kq env (kn.fp.release s) kns
    else
      let r := kqueueScan kq env s kns
      (r.1, kn :: r.2)

def kqueueKevent (kq : FileId) (changelist : List (Kevent × ChangeEnv)) (nevents : Nat) (scan : ScanEnv)
    (s : State) (kns : List Knote) : State × List Knote :=
  match changes kq changelist nevents 0 s kns with
  | (some _, _, s, kns) => (s, kns)
  | (none, nerrors, s, kns) => if nerrors = 0 then kqueueScan kq scan s kns else (s, kns)

structure World where
  st : State
  knotes : List Knote

/-- `kevent` with a change list. -/
def keventList (w : World) (fd : Int) (td : Bool) (changelist : List (Kevent × ChangeEnv)) (nevents : Nat)
    (scan : ScanEnv) : World :=
  if td then
    let h := rtemsBsdLibioIopHold w.st fd
    if negative h.1 then ⟨h.2, w.knotes⟩
    else
      match fgetUnlocked h.2 h.1 with
      | .error _ => ⟨rtemsBsdLibioIopDrop h.2 fd, w.knotes⟩
      | .ok (f, s) =>
        match Need.kq.check (s.files f) with
        | some _ => ⟨rtemsBsdLibioIopDrop (fdrop s f) fd, w.knotes⟩
        | none =>
          let r := kqueueKevent f changelist nevents scan s w.knotes
          ⟨rtemsBsdLibioIopDrop (fdrop r.1 f) fd, r.2⟩
  else w

inductive Act where
  | call (c : Call) (fd : Int) (e : Env)
  | shutdown (fd : Int) (e : Env)
  | kevent (fd : Int) (td : Bool) (changelist : List (Kevent × ChangeEnv)) (nevents : Nat) (scan : ScanEnv)

def World.step (w : World) : Act → World
  | .call c fd e => ⟨(c.exec w.st fd e).st, w.knotes⟩
  | .shutdown fd e => ⟨(Libio.shutdown w.st fd e).st, w.knotes⟩
  | .kevent fd td changelist nevents scan => keventList w fd td changelist nevents scan

/-- The number of knotes that keep a reference on a libio object. -/
def heldBy (s : State) (kns : List Knote) (i : Nat) : Nat := kns.countP fun kn => kn.fp.object s = some i

def World.held (w : World) (i : Nat) : Nat := heldBy w.st w.knotes i

def World.refs (w : World) (i : Nat) : Nat := (w.st.iops i).refs

/-- No count changes but by the knotes that are added and removed; there are such for `kevent` only. -/
def Balanced (w : World) (a : Act) : Prop :=
  (∀ i, (w.step a).refs i + w.held i = w.refs i + (w.step a).held i) ∧
    ((∀ fd td changelist nevents scan, a ≠ .kevent fd td changelist nevents scan) →
      ∀ i, (w.step a).refs i = w.refs i)

def Entry (s : State) : Prop :=
  ∀ i, (s.iops i).isOpen = true → rtemsBsdIsLibbsdDescriptor (s.iops i) = true →
    (bsdEntry s (rtemsBsdLibioIopToDescriptor (s.iops i))).isSome

def Numbered (s : State) : Prop :=
  ∀ i, (s.iops i).isOpen = true → rtemsBsdIsLibbsdDescriptor (s.iops i) = true →
    0 ≤ rtemsBsdLibioIopToDescriptor (s.iops i)

def Fresh (s : State) : Prop := ∀ d f, s.ofiles d = some f → f < s.nextFile

def KnoteFp.Known (s : State) (fp : KnoteFp) : Prop := ∀ f, fp = .file f → f < s.nextFile

/-- Open BSD objects have a file in the descriptor table, whose size is an `int`; files are older than the next
    one, and counts cover the knotes. -/
structure Consistent (w : World) : Prop where
  entry : Entry w.st
  fresh : Fresh w.st
  known : ∀ kn ∈ w.knotes, kn.fp.Known w.st
  held : ∀ i, w.held i ≤ w.refs i
  maxfd : w.st.maxfd ≤ 2 ^ 31

section References

def take (s : State) : Option Nat → State
  | none => s
  | some i => rtemsLibioIopHold s i

def give (s : State) : Option Nat → State
  | none => s
  | some i => rtemsLibioIopDrop s i

/-- The references that `take` adds. -/
def one (o : Option Nat) (i : Nat) : Nat := if o = some i then 1 else 0

variable (s : State)

@[simp] theorem take_files (o : Option Nat) : (take s o).files = s.files := by cases o <;> rfl

@[simp] theorem give_files (o : Option Nat) : (give s o).files = s.files := by cases o <;> rfl

@[simp] theorem give_take (o : Option Nat) : give (take s o) o = s := by
  cases o with
  | none => rfl
  | some i => exact drop_hold s i

theorem take_refs (o : Option Nat) (i : Nat) : ((take s o).iops i).refs = (s.iops i).refs + one o i := by
  cases o with
  | none => rfl
  | some j =>
    simp only [take, rtemsLibioIopHold, State.modIop, one, Option.some.injEq, eq_comm (a := j)]
    by_cases h : i = j <;> simp [h]

theorem give_refs (o : Option Nat) (i : Nat) : ((give s o).iops i).refs = (s.iops i).refs - one o i := by
  cases o with
  | none => rfl
  | some j =>
    simp only [give, rtemsLibioIopDrop, State.modIop, one, Option.some.injEq, eq_comm (a := j)]
    by_cases h : i = j <;> simp [h]

theorem release_eq (fp : KnoteFp) : fp.release s = give s (fp.object s) := by
  cases fp with
  | file f =>
    cases (s.files f).fIo <;> rfl
  | iop i => rfl
  | none => rfl

theorem fdrop_eq (f : FileId) : fdrop s f = give s (s.files f).fIo := release_eq s (.file f)

variable {s}

variable {f : FileId} {fd : Int}

theorem fgetUnlocked_some (h : bsdEntry s fd = some f) :
    fgetUnlocked s fd = .ok (f, take s (s.files f).fIo) := by
  unfold fgetUnlocked
  rw [h]
  cases hio : (s.files f).fIo <;> simp [take, hio]

theorem fgetUnlocked_none (h : bsdEntry s fd = none) : fgetUnlocked s fd = .error .EBADF := by
  unfold fgetUnlocked
  rw [h]

theorem drop_take_hold (s : State) (i : Nat) (o : Option Nat) :
    rtemsLibioIopDrop (take (rtemsLibioIopHold s i) o) i = take s o := by
  cases o with
  | none => exact drop_hold s i
  | some j =>
    unfold take rtemsLibioIopDrop rtemsLibioIopHold State.modIop
    simp only [State.mk.injEq, true_and, and_true]
    funext x
    by_cases hi : x = i
    · subst hi
      by_cases hj : x = j
      · subst hj
        simp
      · simp [hj]
    · simp [hi]

theorem Entry.numbered (he : Entry s) : Numbered s := by
  intro i hopen hlib
  by_contra hneg
  have hentry := he i hopen hlib
  rw [bsdEntry_negative s _ (by omega)] at hentry
  cases hentry

/-- What a lookup by the application's descriptor does: nothing, or it holds the object. -/
theorem hold_cases (hn : Numbered s) (fd : Int) :
    rtemsBsdLibioIopHold s fd = (-1, s) ∨
    (∃ d, rtemsBsdIsLibbsdDescriptor (s.iops fd.toNat) = true ∧
      rtemsBsdLibioIopHold s fd = (d, rtemsLibioIopHold s fd.toNat) ∧ 0 ≤ d ∧
      (Entry s → ∃ f, bsdEntry s d = some f)) ∨
    (rtemsBsdIsLibbsdDescriptor (s.iops fd.toNat) = false ∧
      rtemsBsdLibioIopHold s fd = (fd, rtemsLibioIopHold s fd.toNat) ∧ 0 ≤ fd) := by
  cases ho : openIop s fd with
  | none => exact .inl (hold_of_closed s fd ho)
  | some o =>
    right
    have hh := hold_of_open s fd ho
    have hopen : 0 ≤ fd ∧ o = s.iops fd.toNat ∧ o.isOpen = true := by
      unfold openIop at ho
      grind
    obtain ⟨hfd, rfl, hopen⟩ := hopen
    cases hlib : rtemsBsdIsLibbsdDescriptor (s.iops fd.toNat) with
    | false =>
      refine .inr ⟨rfl, ?_, hfd⟩
      rw [hh, hlib]
      rfl
    | true =>
      left
      refine ⟨_, rfl, ?_, hn _ hopen hlib, fun he => Option.isSome_iff_exists.mp (he _ hopen hlib)⟩
      rw [hh, hlib]
      rfl

theorem sysCall_st (need : Need) (argError : Option Errno) (result : Except Errno Int) (s : State) (ffd : Int) :
    (sysCall need argError result s ffd).st = s := by
  unfold sysCall
  cases argError with
  | some err => rfl
  | none =>
    cases hb : bsdEntry s ffd with
    | none =>
      rw [fgetUnlocked_none hb]
      rfl
    | some f =>
      have hdrop : fdrop (take s (s.files f).fIo) f = s := by
        simp [fdrop_eq]
      grind [fgetUnlocked_some]

/-- The shared body leaves the tables as they were, for every test that refuses `-1` and no number from 0 on. -/
theorem viaDescriptor_st (hn : Numbered s) (need : Need) {refuse : Int → Bool} (hr : refuse (-1) = true)
    (hpass : ∀ ffd, 0 ≤ ffd → refuse ffd = false) (argError : Env → Option Errno) (retval : Bool) (fd : Int) (e : Env) :
    (viaDescriptor need refuse argError retval s fd e).st = s := by
  unfold viaDescriptor
  cases e.td with
  | false => rfl
  | true =>
    rcases hold_cases hn fd with hh | ⟨d, -, hh, hd, -⟩ | ⟨-, hh, hd⟩
    · simp only [hh, hr]
      rfl
    all_goals
      simp only [hh, hpass _ hd, if_true, Bool.false_eq_true, if_false, sysCall_st]
      exact drop_hold s fd.toNat

theorem negative_of_nonneg (ffd : Int) (h : 0 ≤ ffd) : negative ffd = false := decide_eq_false (by omega)

theorem minusOne_of_nonneg (ffd : Int) (h : 0 ≤ ffd) : minusOne ffd = false := decide_eq_false (by omega)

theorem shutdown_st (hn : Numbered s) (fd : Int) (e : Env) : (Libio.shutdown s fd e).st = s := by
  unfold Libio.shutdown
  cases e.td with
  | false => rfl
  | true =>
    rcases hold_cases hn fd with hh | ⟨d, -, hh, hd, -⟩ | ⟨-, hh, hd⟩
    · simp only [hh]
      rfl
    all_goals
      simp only [hh, negative_of_nonneg _ hd, if_true, Bool.false_eq_true, if_false]
      split
      · simp only [sysCall_st]
        exact drop_hold s fd.toNat
      · exact drop_hold s fd.toNat

theorem exec_st (hn : Numbered s) {c : Call} (hc : c ≠ .accept) (fd : Int) (e : Env) : (c.exec s fd e).st = s := by
  have hneg (need argError retval) : (viaDescriptor need negative argError retval s fd e).st = s :=
    viaDescriptor_st hn need rfl negative_of_nonneg argError retval fd e
  cases c with
  | accept => exact absurd rfl hc
  | bind => exact viaDescriptor_st hn .sock rfl minusOne_of_nonneg Env.argError false fd e
  | kevent => exact hneg .kq unchecked true
  | connect => exact hneg .sock Env.argError false
  | getpeername => exact hneg .sock unchecked false
  | getsockname => exact hneg .sock unchecked false
  | getsockopt => exact hneg .sock Env.argError false
  | listen => exact hneg .sock unchecked false
  | recvfrom => exact hneg .sock unchecked true
  | recvmsg => exact hneg .sock Env.argError true
  | sendto => exact hneg .sock Env.argError true
  | sendmsg => exact hneg .sock Env.argError true
  | setsockopt => exact hneg .sock Env.argError false

/-- What a new file leaves as it was: the files that there are and their entries in the table. -/
structure Extends (s s' : State) : Prop where
  files : ∀ f < s.nextFile, s'.files f = s.files f
  next : s.nextFile ≤ s'.nextFile
  maxfd : s'.maxfd = s.maxfd
  entries : ∀ fd, (bsdEntry s fd).isSome → (bsdEntry s' fd).isSome
  fresh : Fresh s → Fresh s'

theorem Extends.refl (s : State) : Extends s s := ⟨fun _ _ => rfl, Nat.le_refl _, rfl, fun _ h => h, id⟩

theorem Extends.trans {s s' s'' : State} (h : Extends s s') (h' : Extends s' s'') : Extends s s'' where
  files f hf := (h'.files f (Nat.lt_of_lt_of_le hf h.next)).trans (h.files f hf)
  next := Nat.le_trans h.next h'.next
  maxfd := h'.maxfd.trans h.maxfd
  entries fd hfd := h'.entries fd (h.entries fd hfd)
  fresh hs := h'.fresh (h.fresh hs)

theorem bsdEntry_fdFirstFree (s : State) : bsdEntry s (fdFirstFree s) = none := by
  unfold bsdEntry
  split
  · rename_i hlt
    unfold fdFirstFree at hlt ⊢
    cases hfind : (List.range s.nfiles).find? fun i => s.ofiles i = none with
    | none =>
      rw [hfind] at hlt
      simp at hlt
    | some i => simpa using find?_some hfind
  · rfl

theorem fdgrowtableExp_ge (nfiles nfd : Nat) : nfiles ≤ fdgrowtableExp nfiles nfd := Nat.le_max_left _ _

theorem falloc_ok {noFile : Option Errno} {fd : Nat} {s' : State} (h : falloc s noFile = .ok (fd, f, s')) :
    Extends s s' ∧ s'.iops = s.iops ∧ bsdEntry s fd = none ∧ fd < s.maxfd ∧ f = s.nextFile ∧ s'.ofiles fd = some f ∧
      f < s'.nextFile ∧ s'.files f = ⟨.none, false, none⟩ := by
  unfold falloc at h
  cases noFile with
  | some err => cases h
  | none =>
    simp only at h
    split at h
    · cases h
    · cases h
      refine ⟨⟨?_, Nat.le_succ _, rfl, ?_, ?_⟩, rfl, bsdEntry_fdFirstFree s, by omega, rfl, by simp, Nat.lt_succ_self _,
        by simp⟩
      · intro f hf
        exact if_neg (Nat.ne_of_lt hf)
      · intro fd hfd
        grind [bsdEntry, fdgrowtableExp_ge]
      · intro hs d f hd
        simp only at hd
        split at hd
        · cases hd
          exact Nat.lt_succ_self _
        · exact Nat.lt_succ_of_lt (hs d f hd)

theorem fdclose_extends {s s' : State} {fd : Nat} (h : Extends s s') (hfree : bsdEntry s fd = none)
    (hent : s'.ofiles fd = some f) (hio : (s'.files f).fIo = none) :
    Extends s (fdclose s' fd) ∧ (fdclose s' fd).iops = s'.iops := by
  have hclose : fdclose s' fd = { s' with ofiles := fun i => if i = fd then none else s'.ofiles i } := by
    unfold fdclose fdrop
    rw [hent]
    simp only [hio]
  rw [hclose]
  refine ⟨⟨h.files, h.next, h.maxfd, ?_, ?_⟩, rfl⟩
  · intro x hx
    have hx' := h.entries x hx
    unfold bsdEntry at hx' ⊢
    grind
  · intro hs d g hd
    simp only at hd
    split at hd
    · cases hd
    · exact h.fresh hs d g hd

/-- What `kernAccept` does to the tables, and the descriptor and the file it answers. -/
theorem kernAccept_extends (s : State) (e : Env) :
    Extends s (kernAccept s e).2 ∧ (kernAccept s e).2.iops = s.iops ∧
      ∀ afd nfp, (kernAccept s e).1 = .ok (afd, nfp) →
        bsdEntry s afd = none ∧ afd < s.maxfd ∧ (kernAccept s e).2.ofiles afd = some nfp ∧ s.nextFile ≤ nfp ∧
          nfp < (kernAccept s e).2.nextFile ∧ ((kernAccept s e).2.files nfp).fIo = none := by
  unfold kernAccept
  split
  · cases hf : falloc s e.noFile with
    | error err => exact ⟨.refl s, rfl, fun _ _ h => by cases h⟩
    | ok r =>
      obtain ⟨fd, nfp, s'⟩ := r
      obtain ⟨hext, hiops, hfree, hlt, rfl, hent, hnext, hfile⟩ := falloc_ok hf
      cases e.result with
      | error err =>
        grind [fdclose_extends]
      | ok n =>
        refine ⟨⟨?_, hext.next, hext.maxfd, hext.entries, hext.fresh⟩, hiops, ?_⟩
        · intro f hlt'
          rw [← hext.files f hlt']
          exact if_neg (Nat.ne_of_lt hlt')
        · intro afd nfp h
          cases h
          exact ⟨hfree, hlt, hent, Nat.le_refl _, hnext, by simp⟩
  · exact ⟨.refl s, rfl, fun _ _ h => by cases h⟩

theorem sint_small {n : Nat} (h : n < 2 ^ 31) : sint (n % 2 ^ 32) = n := by
  unfold sint
  have hmod : n % 2 ^ 32 = n := Nat.mod_eq_of_lt (by omega)
  rw [hmod, hmod, if_pos h]

/-- The end of `accept` for the new file `nfp` of the descriptor `afd`. -/
theorem acceptFinish_extends {s₀ s : State} (hext : Extends s₀ s) (hopen : s.iops = s₀.iops) {afd : Nat}
    {nfp : FileId} (hfree : bsdEntry s₀ afd = none) (hlt : afd < 2 ^ 31) (hent : s.ofiles afd = some nfp)
    (hnew : s₀.nextFile ≤ nfp) (hio : (s.files nfp).fIo = none) :
    Extends s₀ (acceptFinish s afd).2 ∧ (Entry s₀ → Entry (acceptFinish s afd).2) ∧
      ∀ i, ((acceptFinish s afd).2.iops i).refs = (s₀.iops i).refs := by
  -- without a libio object for it, the descriptor is closed
  have hclosed (rest : List Nat) :
      Extends s₀ (fdclose { s with freeIops := rest } afd) ∧
        (Entry s₀ → Entry (fdclose { s with freeIops := rest } afd)) ∧
        ∀ i, ((fdclose { s with freeIops := rest } afd).iops i).refs = (s₀.iops i).refs := by
    have hext' : Extends s₀ { s with freeIops := rest } :=
      ⟨hext.files, hext.next, hext.maxfd, hext.entries, hext.fresh⟩
    obtain ⟨hx, hi⟩ := fdclose_extends hext' hfree hent hio
    have hi' := hi.trans hopen
    refine ⟨hx, ?_, fun i => by rw [hi']⟩
    intro he i ho hl
    rw [hi'] at ho hl ⊢
    exact hx.entries _ (he i ho hl)
  unfold acceptFinish
  cases hfreeIops : s.freeIops with
  | nil =>
    have heq : s = { s with freeIops := [] } := by rw [← hfreeIops]
    have hc := hclosed []
    rw [← heq] at hc
    exact hc
  | cons i rest =>
    unfold rtemsBsdLibioIopSetBsdFd
    simp only [hent]
    split
    · rename_i hs'
      split at hs'
      · exact hclosed _
      · exact hclosed _
    · rename_i s' hs'
      split at hs'
      · rename_i hrange
        cases hs'
        refine ⟨⟨?_, hext.next, hext.maxfd, hext.entries, hext.fresh⟩, ?_, ?_⟩
        · intro f hf
          rw [← hext.files f hf]
          exact if_neg (Nat.ne_of_lt (Nat.lt_of_lt_of_le hf hnew))
        · intro he j ho hl
          by_cases hj : j = i
          · subst hj
            simp only [State.modIop, if_true, rtemsBsdLibioIopToDescriptor, sint_small hlt]
            simp [bsdEntry, hrange, hent]
          · simp only [State.modIop, hj, if_false, hopen] at ho hl ⊢
            exact hext.entries _ (he j ho hl)
        · intro j
          simp only [State.modIop, hopen]
          split <;> rfl
      · cases hs'

theorem take_extends (s : State) (o : Option Nat) : Extends s (take s o) := by
  cases o <;> exact ⟨fun _ _ => rfl, Nat.le_refl _, rfl, fun _ h => h, id⟩

theorem give_extends (s : State) (o : Option Nat) : Extends s (give s o) := by
  cases o <;> exact ⟨fun _ _ => rfl, Nat.le_refl _, rfl, fun _ h => h, id⟩

theorem give_congr {s s' : State} (h : s'.iops = s.iops) (o : Option Nat) : (give s' o).iops = (give s o).iops := by
  cases o with
  | none => exact h
  | some i => simp only [give, rtemsLibioIopDrop, State.modIop, h]

theorem Entry.of_extends {s s' : State} (he : Entry s) (h : Extends s s') (hi : s'.iops = s.iops) : Entry s' := by
  intro i ho hl
  rw [hi] at ho hl ⊢
  exact h.entries _ (he i ho hl)

/-- References on an object and on a file that are taken, and dropped when files and entries may have been added. -/
theorem drop_fdrop {s s' : State} {i : Nat} (hf : f < s.nextFile)
    (h : Extends (take (rtemsLibioIopHold s i) (s.files f).fIo) s')
    (hi : s'.iops = (take (rtemsLibioIopHold s i) (s.files f).fIo).iops) :
    Extends s (rtemsLibioIopDrop (fdrop s' f) i) ∧ (rtemsLibioIopDrop (fdrop s' f) i).iops = s.iops := by
  have hext : Extends s s' := ((take_extends s (some i)).trans (take_extends _ _)).trans h
  rw [fdrop_eq, hext.files f hf]
  refine ⟨hext.trans ((give_extends _ _).trans (give_extends _ (some i))), ?_⟩
  refine (give_congr (give_congr hi (s.files f).fIo) (some i)).trans ?_
  rw [give_take]
  exact congrArg State.iops (drop_hold s i)

theorem lt_nextFile_of_bsdEntry (h : Fresh s) (hb : bsdEntry s fd = some f) : f < s.nextFile := by
  unfold bsdEntry at hb
  split at hb
  · exact h _ _ hb
  · cases hb

@[simp] theorem take_maxfd (s : State) (o : Option Nat) : (take s o).maxfd = s.maxfd := by cases o <;> rfl

theorem drop_fdrop_ofiles (s : State) (f : FileId) (i : Nat) :
    (rtemsLibioIopDrop (fdrop s f) i).ofiles = s.ofiles := by
  unfold fdrop
  split <;> rfl

theorem drop_fdrop_files (s : State) (f : FileId) (i : Nat) :
    (rtemsLibioIopDrop (fdrop s f) i).files = s.files := by
  unfold fdrop
  split <;> rfl

@[simp] theorem bsdEntry_take (s : State) (o : Option Nat) (fd : Int) : bsdEntry (take s o) fd = bsdEntry s fd := by
  cases o <;> rfl

theorem acceptHeld_extends (hfresh : Fresh s) (hmax : s.maxfd ≤ 2 ^ 31) {fd ffd : Int} {e : Env}
    (hh : rtemsBsdLibioIopHold s fd = (ffd, rtemsLibioIopHold s fd.toNat)) (hd : 0 ≤ ffd) (htd : e.td = true) :
    Extends s (Libio.accept s fd e).st ∧ (Entry s → Entry (Libio.accept s fd e).st) ∧
      ∀ i, ((Libio.accept s fd e).st.iops i).refs = (s.iops i).refs := by
  have hleft {s' : State} (h : Extends s s') (hi : s'.iops = s.iops) :
      Extends s s' ∧ (Entry s → Entry s') ∧ ∀ i, (s'.iops i).refs = (s.iops i).refs :=
    ⟨h, fun he => he.of_extends h hi, fun i => by rw [hi]⟩
  unfold Libio.accept
  simp only [htd, hh, negative_of_nonneg _ hd, if_true, Bool.false_eq_true, if_false]
  cases hb : bsdEntry s ffd with
  | none =>
    rw [fgetUnlocked_none (s := rtemsLibioIopHold s fd.toNat) hb]
    have hdrop : rtemsBsdLibioIopDrop (rtemsLibioIopHold s fd.toNat) fd = s := drop_hold s fd.toNat
    simp only [hdrop]
    exact hleft (.refl s) rfl
  | some f =>
    have hf := lt_nextFile_of_bsdEntry hfresh hb
    rw [fgetUnlocked_some (s := rtemsLibioIopHold s fd.toNat) hb]
    have hfiles : (rtemsLibioIopHold s fd.toNat).files = s.files := rfl
    simp only [hfiles]
    split
    · obtain ⟨hx, hi⟩ := drop_fdrop hf (.refl _) rfl
      exact hleft hx hi
    · obtain ⟨hext, hiops, hok⟩ := kernAccept_extends (take (rtemsLibioIopHold s fd.toNat) (s.files f).fIo) e
      split
      · rename_i hk
        rw [hk] at hext hiops
        obtain ⟨hx, hi⟩ := drop_fdrop hf hext hiops
        exact hleft hx hi
      · rename_i afd nfp s₂ hk
        rw [hk] at hext hiops hok
        obtain ⟨hfree, hlt, hent, hnew, -, hio⟩ := hok afd nfp rfl
        obtain ⟨hx, hi⟩ := drop_fdrop hf hext hiops
        have hlt' : afd < 2 ^ 31 := Nat.lt_of_lt_of_le hlt (by rw [take_maxfd]; exact hmax)
        have hnew' : s.nextFile ≤ nfp := Nat.le_trans ((take_extends s (some fd.toNat)).trans (take_extends _ _)).next hnew
        refine acceptFinish_extends hx hi ?_ hlt' ?_ hnew' ?_
        · rw [bsdEntry_take] at hfree
          exact hfree
        · rw [drop_fdrop_ofiles]
          exact hent
        · rw [drop_fdrop_files]
          exact hio

/-- `accept` changes no count, and keeps the files and entries that there are. -/
theorem accept_extends (hn : Numbered s) (hfresh : Fresh s) (hmax : s.maxfd ≤ 2 ^ 31) (fd : Int) (e : Env) :
    Extends s (Libio.accept s fd e).st ∧ (Entry s → Entry (Libio.accept s fd e).st) ∧
      ∀ i, ((Libio.accept s fd e).st.iops i).refs = (s.iops i).refs := by
  have hsame {s' : State} (h : s' = s) :
      Extends s s' ∧ (Entry s → Entry s') ∧ ∀ i, (s'.iops i).refs = (s.iops i).refs := by
    subst h
    exact ⟨.refl _, id, fun _ => rfl⟩
  rcases Bool.eq_false_or_eq_true e.td with htd | htd
  · rcases hold_cases hn fd with hh | ⟨d, -, hh, hd, -⟩ | ⟨-, hh, hd⟩
    · apply hsame
      unfold Libio.accept
      simp only [htd, hh]
      rfl
    · exact acceptHeld_extends hfresh hmax hh hd htd
    · exact acceptHeld_extends hfresh hmax hh hd htd
  · apply hsame
    unfold Libio.accept
    simp [htd, Out.fail]

end References

section Knotes

structure SameTables (s s' : State) : Prop where
  files : s'.files = s.files
  next : s'.nextFile = s.nextFile
  maxfd : s'.maxfd = s.maxfd
  fresh : Fresh s → Fresh s'
  entry : Entry s → Entry s'

theorem SameTables.refl (s : State) : SameTables s s := ⟨rfl, rfl, rfl, id, id⟩

theorem SameTables.trans {s s' s'' : State} (h : SameTables s s') (h' : SameTables s' s'') : SameTables s s'' :=
  ⟨h'.files.trans h.files, h'.next.trans h.next, h'.maxfd.trans h.maxfd, h'.fresh ∘ h.fresh, h'.entry ∘ h.entry⟩

theorem modIop_same (s : State) (i : Nat) (g : Nat → Nat) :
    SameTables s (s.modIop i fun o => { o with refs := g o.refs }) := by
  refine ⟨rfl, rfl, rfl, id, ?_⟩
  intro he j ho hl
  by_cases hj : j = i
  · subst hj
    simp only [State.modIop, if_true] at ho hl ⊢
    exact he j ho hl
  · simp only [State.modIop, hj, if_false] at ho hl ⊢
    exact he j ho hl

theorem take_same (s : State) (o : Option Nat) : SameTables s (take s o) := by
  cases o with
  | none => exact .refl s
  | some i => exact modIop_same s i (· + 1)

theorem give_same (s : State) (o : Option Nat) : SameTables s (give s o) := by
  cases o with
  | none => exact .refl s
  | some i => exact modIop_same s i (· - 1)

/-- The counts are those of the knotes and of the others, `e`. -/
structure Ledger (s₀ s : State) (kns : List Knote) (e : Nat → Nat) : Prop where
  same : SameTables s₀ s
  known : ∀ kn ∈ kns, kn.fp.Known s₀
  count : ∀ i, (s.iops i).refs = heldBy s kns i + e i

variable {s₀ s : State} {kns : List Knote} {e : Nat → Nat}

theorem object_congr {s' : State} (h : s'.files = s.files) (fp : KnoteFp) : fp.object s' = fp.object s := by
  cases fp <;> simp [KnoteFp.object, h]

theorem heldBy_congr {s' : State} (h : s'.files = s.files) (kns : List Knote) (i : Nat) :
    heldBy s' kns i = heldBy s kns i := by
  unfold heldBy
  simp only [object_congr h]

theorem heldBy_cons (s : State) (kn : Knote) (kns : List Knote) (i : Nat) :
    heldBy s (kn :: kns) i = heldBy s kns i + one (kn.fp.object s) i := by
  unfold heldBy one
  simp [countP_cons]

theorem Ledger.take (h : Ledger s₀ s kns e) (o : Option Nat) :
    Ledger s₀ (take s o) kns fun i => e i + one o i := by
  refine ⟨h.same.trans (take_same s o), h.known, fun i => ?_⟩
  rw [take_refs, heldBy_congr (take_files s o), h.count i, Nat.add_assoc]

theorem Ledger.takeFp (h : Ledger s₀ s kns e) (fp : KnoteFp) :
    Ledger s₀ (Libio.take s (fp.object s)) kns fun i => e i + one (fp.object (Libio.take s (fp.object s))) i := by
  rw [object_congr (take_files s _)]
  exact h.take (fp.object s)

theorem Ledger.give {o : Option Nat} (h : Ledger s₀ s kns fun i => e i + one o i) : Ledger s₀ (give s o) kns e := by
  refine ⟨h.same.trans (give_same s o), h.known, fun i => ?_⟩
  rw [give_refs, heldBy_congr (give_files s o), h.count i]
  omega

theorem Ledger.fdrop {f : FileId} (h : Ledger s₀ s kns fun i => e i + one ((KnoteFp.file f).object s) i) :
    Ledger s₀ (Libio.fdrop s f) kns e := by
  exact h.give

variable {kn : Knote}

theorem Ledger.cons (h : Ledger s₀ s kns fun i => e i + one (kn.fp.object s) i) (hk : kn.fp.Known s₀) :
    Ledger s₀ s (kn :: kns) e := by
  refine ⟨h.same, ?_, fun i => ?_⟩
  · intro x hx
    rcases mem_cons.mp hx with rfl | hx
    · exact hk
    · exact h.known x hx
  · rw [heldBy_cons, h.count i]
    omega

theorem Ledger.uncons (h : Ledger s₀ s (kn :: kns) e) :
    Ledger s₀ s kns fun i => e i + one (kn.fp.object s) i := by
  refine ⟨h.same, fun x hx => h.known x (mem_cons_of_mem _ hx), fun i => ?_⟩
  rw [h.count i, heldBy_cons]
  omega

theorem Ledger.perm {kns' : List Knote} (h : Ledger s₀ s kns e) (hp : kns.Perm kns') : Ledger s₀ s kns' e := by
  refine ⟨h.same, fun x hx => h.known x (hp.mem_iff.mpr hx), fun i => ?_⟩
  rw [h.count i]
  unfold heldBy
  rw [hp.countP_eq]

theorem Ledger.map {g : Knote → Knote} (h : Ledger s₀ s kns e) (hg : ∀ kn, (g kn).fp = kn.fp) :
    Ledger s₀ s (kns.map g) e := by
  refine ⟨h.same, ?_, fun i => ?_⟩
  · intro x hx
    obtain ⟨y, hy, rfl⟩ := mem_map.mp hx
    rw [hg]
    exact h.known y hy
  · rw [h.count i]
    unfold heldBy
    rw [countP_map]
    simp only [Function.comp_def, hg]

theorem Ledger.release {fp : KnoteFp} (h : Ledger s₀ s kns fun i => e i + one (fp.object s) i) :
    Ledger s₀ (fp.release s) kns e := by
  rw [release_eq]
  exact h.give

/-- What a lookup of a descriptor for a knote leaves: no reference, or that of what it answers. -/
def Looked (s : State) (r : Except Errno KnoteFp × State) : Prop :=
  (∃ err, r = (.error err, s)) ∨ ∃ fp, r = (.ok fp, Libio.take s (fp.object s)) ∧ fp.Known s

theorem keventFp_looked (he : Entry s) (hfresh : Fresh s) (ident : Nat) : Looked s (keventFp s ident) := by
  unfold keventFp
  split
  · exact .inl ⟨_, rfl⟩
  · rcases hold_cases he.numbered ident with hh | ⟨d, hl, hh, hd, hentry⟩ | ⟨hl, hh, hd⟩
    · simp only [hh]
      exact .inl ⟨_, rfl⟩
    all_goals
      have hl' : rtemsBsdIsLibbsdDescriptor ((rtemsLibioIopHold s ident).iops ident) =
          rtemsBsdIsLibbsdDescriptor (s.iops ident) := by
        simp [rtemsLibioIopHold, State.modIop, rtemsBsdIsLibbsdDescriptor, rtemsBsdIsLibbsdNvops]
      simp only [Int.toNat_natCast] at hl hh
      simp only [hh, if_neg (Int.not_lt.mpr hd), hl', hl, if_true, Bool.false_eq_true, if_false]
    · obtain ⟨f, hb⟩ := hentry he
      rw [fgetUnlocked_some (s := rtemsLibioIopHold s ident) hb]
      refine .inr ⟨.file f, ?_, ?_⟩
      · simp only [rtemsBsdLibioIopDrop, Int.toNat_natCast]
        rw [drop_take_hold]
        rfl
      · intro g hg
        cases hg
        exact lt_nextFile_of_bsdEntry hfresh hb
    · exact .inr ⟨.iop ident, rfl, fun f hf => by cases hf⟩

theorem release_take (s : State) (fp : KnoteFp) : fp.release (Libio.take s (fp.object s)) = s := by
  rw [release_eq, object_congr (take_files s _), give_take]

theorem findkn_looked (he : Entry s) (hfresh : Fresh s) (ident influx : Nat) : Looked s (findkn s ident influx) := by
  induction influx with
  | zero => exact keventFp_looked he hfresh ident
  | succ influx ih =>
    unfold findkn
    rcases keventFp_looked he hfresh ident with ⟨err, hr⟩ | ⟨fp, hr, -⟩
    · rw [hr]
      exact .inl ⟨err, rfl⟩
    · rw [hr]
      simp only [release_take]
      exact ih

theorem expandFindkn_looked (he : Entry s) (hfresh : Fresh s) (kev : Kevent) (env : ChangeEnv) :
    Looked s (expandFindkn s kev env) := by
  unfold expandFindkn
  split
  · exact findkn_looked he hfresh _ _
  · rename_i again _
    rcases keventFp_looked he hfresh kev.ident with ⟨err, hr⟩ | ⟨fp, hr, -⟩
    · rw [hr]
      exact .inl ⟨err, rfl⟩
    · rw [hr]
      simp only [release_take]
      cases again with
      | some err => exact .inl ⟨err, rfl⟩
      | none => exact findkn_looked he hfresh _ _

theorem perm_eraseP {p : Knote → Bool} (h : kns.find? p = some kn) : kns.Perm (kn :: kns.eraseP p) := by
  obtain ⟨hp, as, bs, rfl, has⟩ := find?_eq_some_iff_append.mp h
  grind

theorem release_files (s : State) (fp : KnoteFp) : (fp.release s).files = s.files := by simp [release_eq]

theorem registerKnote_ledger {fp : KnoteFp} (h : Ledger s₀ s kns fun i => e i + one (fp.object s) i)
    (hk : fp.Known s₀) (kq : FileId) (kev : Kevent) (attach : Option Errno) :
    Ledger s₀ (registerKnote kq kev attach fp s kns).2.1 (registerKnote kq kev attach fp s kns).2.2 e := by
  unfold registerKnote
  cases hfind : kns.find? (Knote.matches kq kev) with
  | none =>
    simp only
    split
    · cases attach with
      | some err => exact h.release
      | none => exact h.cons hk
    · exact h.release
  | some kn =>
    simp only
    split
    · -- the knote that is found comes first
      have hu : Ledger s₀ s (kns.eraseP (Knote.matches kq kev))
          fun i => e i + one (fp.object s) i + one (kn.fp.object s) i := (h.perm (perm_eraseP hfind)).uncons
      have hrel := hu.release
      rw [← object_congr (release_files s kn.fp) fp] at hrel
      exact hrel.release
    · refine Ledger.map h.release fun x => ?_
      split <;> rfl

theorem kqueueRegister_ledger (h : Ledger s₀ s kns e) (he : Entry s) (hfresh : Fresh s) (kq : FileId) (kev : Kevent)
    (env : ChangeEnv) :
    Ledger s₀ (kqueueRegister kq kev env s kns).2.1 (kqueueRegister kq kev env s kns).2.2 e := by
  unfold kqueueRegister
  split
  · exact h
  · cases env.isfd with
    | none => exact h
    | some isfd =>
      simp only
      split
      · exact h
      · split
        · rcases expandFindkn_looked he hfresh kev env with ⟨err, hr⟩ | ⟨fp, hr, hk⟩
          · rw [hr]
            exact h
          · have htake := h.takeFp fp
            rw [hr]
            simp only
            split
            · exact htake.release
            · refine registerKnote_ledger htake ?_ kq kev env.attach
              exact fun f hf => h.same.next ▸ hk f hf
        · refine registerKnote_ledger ?_ (fun f hf => by cases hf) kq kev env.attach
          simpa [one, KnoteFp.object] using h

theorem changes_ledger (hs : Entry s₀) (hfresh : Fresh s₀) (kq : FileId) (changelist : List (Kevent × ChangeEnv)) :
    ∀ (nevents nerrors : Nat) {s : State} {kns : List Knote}, Ledger s₀ s kns e →
      Ledger s₀ (changes kq changelist nevents nerrors s kns).2.2.1 (changes kq changelist nevents nerrors s kns).2.2.2
        e := by
  induction changelist with
  | nil => exact fun _ _ _ _ h => h
  | cons c rest ih =>
    intro nevents nerrors s kns h
    grind [kqueueRegister_ledger, h.same.entry, h.same.fresh, changes]

theorem kqueueScan_ledger (kq : FileId) (env : ScanEnv) :
    ∀ (kns : List Knote) {s : State} {e : Nat → Nat}, Ledger s₀ s kns e →
      Ledger s₀ (kqueueScan kq env s kns).1 (kqueueScan kq env s kns).2 e := by
  intro kns
  induction kns with
  | nil => exact fun h => h
  | cons kn rest ih =>
    intro s e h
    unfold kqueueScan
    split
    · exact ih h.uncons.release
    · have hkept := ih h.uncons
      have hfiles := hkept.same.files.trans h.same.files.symm
      rw [← object_congr hfiles kn.fp] at hkept
      exact hkept.cons (h.known kn mem_cons_self)

theorem kqueueKevent_ledger (h : Ledger s₀ s kns e) (hs : Entry s₀) (hfresh : Fresh s₀) (kq : FileId)
    (changelist : List (Kevent × ChangeEnv)) (nevents : Nat) (scan : ScanEnv) :
    Ledger s₀ (kqueueKevent kq changelist nevents scan s kns).1 (kqueueKevent kq changelist nevents scan s kns).2 e := by
  grind [changes_ledger, kqueueKevent, kqueueScan_ledger]

/-- `kevent` with its change list changes the counts by the knotes, and nothing else. -/
theorem keventList_ledger {w : World} (h : Ledger s₀ w.st w.knotes e) (hs : Entry s₀) (hfresh : Fresh s₀) (fd : Int)
    (td : Bool) (changelist : List (Kevent × ChangeEnv)) (nevents : Nat) (scan : ScanEnv) :
    Ledger s₀ (keventList w fd td changelist nevents scan).st (keventList w fd td changelist nevents scan).knotes e := by
  have hhold : rtemsLibioIopHold w.st fd.toNat = Libio.take w.st (some fd.toNat) := rfl
  -- behind a lookup that holds the object
  have hheld {ffd : Int} (hh : rtemsBsdLibioIopHold w.st fd = (ffd, rtemsLibioIopHold w.st fd.toNat)) (hd : 0 ≤ ffd)
      (htd : td = true) :
      Ledger s₀ (keventList w fd td changelist nevents scan).st (keventList w fd td changelist nevents scan).knotes
        e := by
    have h₁ := h.take (some fd.toNat)
    unfold keventList
    simp only [htd, hh, negative_of_nonneg _ hd, if_true, Bool.false_eq_true, if_false, hhold]
    cases hb : bsdEntry (Libio.take w.st (some fd.toNat)) ffd with
    | none =>
      rw [fgetUnlocked_none hb]
      exact h₁.give
    | some f =>
      have h₂ := h₁.takeFp (.file f)
      rw [fgetUnlocked_some hb]
      simp only
      split
      · exact h₂.release.give
      · have hk := kqueueKevent_ledger h₂ hs hfresh f changelist nevents scan
        have hfiles := hk.same.files.trans h₂.same.files.symm
        rw [← object_congr hfiles (.file f)] at hk
        exact hk.fdrop.give
  cases td with
  | false => exact h
  | true =>
    rcases hold_cases (h.same.entry hs).numbered fd with hh | ⟨d, -, hh, hd, -⟩ | ⟨-, hh, hd⟩
    · unfold keventList
      simp only [hh]
      exact h
    · exact hheld hh hd rfl
    · exact hheld hh hd rfl

end Knotes

section Runs

variable {w : World}

theorem Consistent.ledger (h : Consistent w) : Ledger w.st w.st w.knotes fun i => w.refs i - w.held i where
  same := .refl w.st
  known := h.known
  count i := by
    have hheld := h.held i
    unfold World.held World.refs at *
    omega

theorem heldBy_extends {s s' : State} {kns : List Knote} (h : Extends s s') (hk : ∀ kn ∈ kns, kn.fp.Known s) (i : Nat) :
    heldBy s' kns i = heldBy s kns i := by
  refine countP_congr fun kn hkn => ?_
  have hobject : kn.fp.object s' = kn.fp.object s := by
    have hknown := hk kn hkn
    cases hfp : kn.fp with
    | file f => simp only [KnoteFp.object, h.files f (hknown f hfp)]
    | iop j => rfl
    | none => rfl
  rw [hobject]

theorem Consistent.extend (h : Consistent w) {s' : State} (hx : Extends w.st s') (he : Entry s')
    (hrefs : ∀ i, (s'.iops i).refs = (w.st.iops i).refs) :
    Consistent ⟨s', w.knotes⟩ ∧ ∀ i, World.held ⟨s', w.knotes⟩ i = w.held i ∧ World.refs ⟨s', w.knotes⟩ i = w.refs i := by
  have hheld (i) : World.held ⟨s', w.knotes⟩ i = w.held i := heldBy_extends hx h.known i
  refine ⟨⟨he, hx.fresh h.fresh, ?_, ?_, ?_⟩, fun i => ⟨hheld i, hrefs i⟩⟩
  · exact fun kn hkn f hf => Nat.lt_of_lt_of_le (h.known kn hkn f hf) hx.next
  · intro i
    rw [hheld, show World.refs ⟨s', w.knotes⟩ i = w.refs i from hrefs i]
    exact h.held i
  · rw [show s'.maxfd = w.st.maxfd from hx.maxfd]
    exact h.maxfd

theorem call_kept (hn : Numbered w.st) (hfresh : Fresh w.st) (hmax : w.st.maxfd ≤ 2 ^ 31) (c : Call) (fd : Int)
    (e : Env) :
    Extends w.st (c.exec w.st fd e).st ∧ (Entry w.st → Entry (c.exec w.st fd e).st) ∧
      ∀ i, ((c.exec w.st fd e).st.iops i).refs = (w.st.iops i).refs := by
  by_cases hc : c = .accept
  · subst hc
    exact accept_extends hn hfresh hmax fd e
  · rw [exec_st hn hc]
    exact ⟨.refl _, id, fun _ => rfl⟩

/-- **Every call but `kevent` with a change list leaves every count as it was**, wherever the numbers of the open BSD
    objects are not negative. -/
theorem calls_balanced (hn : Numbered w.st) (hfresh : Fresh w.st) (hmax : w.st.maxfd ≤ 2 ^ 31) {a : Act}
    (ha : ∀ fd td changelist nevents scan, a ≠ .kevent fd td changelist nevents scan) (i : Nat) :
    (w.step a).refs i = w.refs i := by
  cases a with
  | call c fd e => exact (call_kept hn hfresh hmax c fd e).2.2 i
  | shutdown fd e => exact congrArg (fun s : State => (s.iops i).refs) (shutdown_st hn fd e)
  | kevent fd td changelist nevents scan => exact absurd rfl (ha fd td changelist nevents scan)

theorem kevent_ledger (h : Consistent w) (fd : Int) (td : Bool) (changelist : List (Kevent × ChangeEnv)) (nevents : Nat)
    (scan : ScanEnv) :
    Ledger w.st (keventList w fd td changelist nevents scan).st (keventList w fd td changelist nevents scan).knotes
      fun i => w.refs i - w.held i :=
  keventList_ledger h.ledger h.entry h.fresh fd td changelist nevents scan

theorem step_shutdown (h : Consistent w) (fd : Int) (e : Env) : w.step (.shutdown fd e) = w :=
  congrArg (fun s => World.mk s w.knotes) (shutdown_st h.entry.numbered fd e)

theorem Consistent.step (h : Consistent w) (a : Act) : Consistent (w.step a) := by
  cases a with
  | call c fd e =>
    obtain ⟨hx, he, hrefs⟩ := call_kept h.entry.numbered h.fresh h.maxfd c fd e
    exact (h.extend hx (he h.entry) hrefs).1
  | shutdown fd e => exact (step_shutdown h fd e).symm ▸ h
  | kevent fd td changelist nevents scan =>
    have hl := kevent_ledger h fd td changelist nevents scan
    refine ⟨hl.same.entry h.entry, hl.same.fresh h.fresh, ?_, ?_, ?_⟩
    · exact fun kn hkn f hf => hl.same.next.symm ▸ hl.known kn hkn f hf
    · exact fun i => Nat.le.intro (hl.count i).symm
    · grind [hl.same.maxfd, h.maxfd, World.step]

theorem Consistent.run (h : Consistent w) (acts : List Act) : Consistent (acts.foldl World.step w) := by
  induction acts generalizing w with
  | nil => exact h
  | cons a rest ih => exact ih (h.step a)

theorem Consistent.balanced (h : Consistent w) (a : Act) : Balanced w a := by
  refine ⟨fun i => ?_, fun ha => calls_balanced h.entry.numbered h.fresh h.maxfd ha⟩
  cases a with
  | call c fd e =>
    obtain ⟨hx, he, hrefs⟩ := call_kept h.entry.numbered h.fresh h.maxfd c fd e
    obtain ⟨-, hsame⟩ := h.extend hx (he h.entry) hrefs
    grind [World.step]
  | shutdown fd e => rw [step_shutdown h fd e]
  | kevent fd td changelist nevents scan =>
    have hl := (kevent_ledger h fd td changelist nevents scan).count i
    grind [held, World.refs, World.step, World.held]

/-- **After every run of calls, each further call leaves every count as it was, but for the knotes that `kevent` adds and
    removes.** -/
theorem balanced_of_run (h : Consistent w) (acts : List Act) (a : Act) : Balanced (acts.foldl World.step w) a :=
  (h.run acts).balanced a

end Runs

/-- A socket at descriptor 0 and a kqueue at descriptor 1, with BSD descriptors of the same numbers. -/
def socketAndQueue : World where
  st :=
    { numberIops := 2
      iops := fun i => if i < 2 then ⟨true, .nodeops, i, 0, some i⟩ else ⟨false, .foreign, 0, 0, none⟩
      freeIops := []
      nfiles := 20
      maxfd := 64
      ofiles := fun d => if d < 2 then some d else none
      files := fun f => if f = 0 then ⟨.socket, false, some 0⟩ else ⟨.kqueue, false, some 1⟩
      nextFile := 2 }
  knotes := []

/-- `EV_ADD` for descriptor 0. -/
def addSocket : Kevent × ChangeEnv :=
  (⟨0, 1, true, false, false, false, false, false, false, false⟩, ⟨some true, none, 0, none⟩)

theorem socketAndQueue_consistent : Consistent socketAndQueue := by
  refine ⟨?_, ?_, by simp [socketAndQueue], fun i => Nat.zero_le _, by decide⟩
  · intro i ho hl
    by_cases hi : i < 2
    · interval_cases i <;> decide
    · simp only [socketAndQueue, if_neg hi, Bool.false_eq_true] at ho
  · intro d f hd
    by_cases h : d < 2
    · simp only [socketAndQueue, h, if_true, Option.some.injEq] at hd
      exact hd ▸ h
    · simp only [socketAndQueue, if_neg h, reduceCtorEq] at hd

/-- `kevent` adds a knote for the socket, then `shutdown` is called on it. -/
theorem balanced_of_run_socketAndQueue :
    Balanced ([.kevent 1 true [addSocket] 0 ⟨fun _ => false, fun _ => false⟩].foldl World.step socketAndQueue)
      (.shutdown 0 ⟨true, none, .ok 0, false, none⟩) :=
  balanced_of_run socketAndQueue_consistent _ _

/-- A `kevent` that adds a knote returns with one more reference on the socket. -/
theorem kevent_add_keeps :
    socketAndQueue.refs 0 = 0 ∧
      (socketAndQueue.step (.kevent 1 true [addSocket] 0 ⟨fun _ => false, fun _ => false⟩)).refs 0 = 1 := by
  decide

end RtemsLibbsd.Libio
