import RtemsLibbsd.Masks
import RtemsLibbsd.Tracking
import RtemsLibbsd.Transition

/-!
# Resources of a program

Model of the resource wrappers of `rtemsbsd/rtems/rtems-program.c` and
`rtems-program-socket.c`: the control structure of a running program lists the descriptors, the
`FILE`s and the heap blocks the program obtained through the wrappers, and `rtems_bsd_program_call`
gives back what is still listed when the program returns or exits.

* A resource list is a `Tracker`; the live resources stand next to the list, so that a list that
  lost a resource can be told from one that did not.
* Pointers have `2 ^ k` bytes and `size_t` has `w` bits.  The tracking item of a heap block lies
  behind the rounded size inside the block; a size computation that wraps makes the wrapper write
  outside the block, recorded in `corrupt`.
* What the C library answers is part of the action.  A call that C gives no meaning to (`realloc`
  of a pointer that is not a live block) is not a step, and neither is an answer that C rules out
  (a new descriptor that is already open).  `assert(rv == 0)` of `free` is recorded in `asserted`.
* A program ends after any of its calls, so its runs are the lists of actions.

`rtems_bsd_program_alloc` takes the old block off the list before it calls `realloc`; when that
fails the block is live and no longer listed (`reallocRun_leaks`).  **`resources_of_kept`** is the
accounting result for the runs in which this does not happen.
-/

namespace RtemsLibbsd.Program

open Option RtemsLibbsd.Transition RtemsLibbsd.Tracking

/-- `struct rtems_bsd_program_control`, less the destructors. -/
structure State where
  openFd : Tracker Int
  openFile : Tracker Nat
  allocatedMem : Tracker Nat
  asserted : Bool
  corrupt : Bool

/-- After the `LIST_INIT`s of `rtems_bsd_program_call`. -/
def init : State := ⟨Tracker.empty, Tracker.empty, Tracker.empty, false, false⟩

section Sizes

variable (k w : Nat)

def sizeAlligned (size : Nat) : Nat :=
  if size &&& (2 ^ k - 1) ≠ 0 then ((size ||| (2 ^ k - 1)) + 1) % 2 ^ w else size

/-- `sizeof(struct program_allocmem_item)`: three pointers. -/
def allocmemItemSize : Nat := 3 * 2 ^ k

def sizeWithList (size : Nat) : Nat := (sizeAlligned k w size + allocmemItemSize k) % 2 ^ w

/-- `rtems_bsd_program_alloc`; `res` is the answer of `realloc`. -/
def rtemsBsdProgramAlloc (s : State) (size : Nat) (orgPtr res : Option Nat) : State :=
  let m :=
    match orgPtr with
    | none => s.allocatedMem
    | some p => (s.allocatedMem.unlist p).getD s.allocatedMem
  match res with
  | none => { s with allocatedMem := m }
  | some ptr =>
    let m' :=
      match orgPtr with
      | none => m
      | some p => m.release p
    { s with
      allocatedMem := m'.acquire ptr
      corrupt := s.corrupt || sizeWithList k w size < sizeAlligned k w size + allocmemItemSize k }

/-- A wrapper writes `size` bytes to the block it just obtained. -/
def fill (s : State) (size : Nat) (res : Option Nat) : State :=
  { s with corrupt := s.corrupt || (res.isSome && sizeAlligned k w size < size) }

def rtemsBsdProgramMalloc (s : State) (size : Nat) (res : Option Nat) : State :=
  rtemsBsdProgramAlloc k w s size none res

def rtemsBsdProgramCalloc (s : State) (nelem elsize : Nat) (res : Option Nat) : State :=
  let size := elsize * nelem % 2 ^ w
  fill k w (rtemsBsdProgramAlloc k w s size none res) size res

def rtemsBsdProgramRealloc (s : State) (ptr : Option Nat) (size : Nat) (res : Option Nat) : State :=
  rtemsBsdProgramAlloc k w s size ptr res

def rtemsBsdProgramReallocf (s : State) (ptr : Option Nat) (size : Nat) (res : Option Nat) :
    State :=
  let s' := rtemsBsdProgramAlloc k w s size ptr res
  match res, ptr with
  | none, some p => { s' with allocatedMem := s'.allocatedMem.release p }
  | _, _ => s'

/-- `rtems_bsd_program_strdup` of a string of `strlen` characters. -/
def rtemsBsdProgramStrdup (s : State) (strlen : Nat) (res : Option Nat) : State :=
  let size := (strlen + 1) % 2 ^ w
  fill k w (rtemsBsdProgramAlloc k w s size none res) size res

def rtemsBsdProgramStrndup (s : State) (strlen n : Nat) (res : Option Nat) : State :=
  let size := (min strlen n + 1) % 2 ^ w
  fill k w (rtemsBsdProgramAlloc k w s size none res) size res

/-- `rtems_bsd_program_vasprintf`; `n` is the answer of `vsnprintf`. -/
def rtemsBsdProgramVasprintf (s : State) (n : Int) (res : Option Nat) : State :=
  let size := ((n + 1) % 2 ^ w).toNat
  fill k w (rtemsBsdProgramAlloc k w s size none res) size res

end Sizes

def rtemsBsdProgramFree (s : State) : Option Nat → State
  | none => s
  | some p =>
    match s.allocatedMem.unlist p with
    | none => { s with asserted := true }
    | some m => { s with allocatedMem := m.release p }

/-- `rtems_bsd_program_open`; `item` says whether the list item could be allocated. -/
def rtemsBsdProgramOpen (s : State) (item : Bool) (fd : Int) : State :=
  if item then if fd ≠ -1 then { s with openFd := s.openFd.acquire fd } else s else s

def rtemsBsdProgramSocket (s : State) (item : Bool) (fd : Int) : State :=
  if item then if 0 ≤ fd then { s with openFd := s.openFd.acquire fd } else s else s

/-- `rtems_bsd_program_close`; `closes` says whether `close` gives the descriptor back. -/
def rtemsBsdProgramClose (s : State) (fd : Int) (closes : Bool) : State :=
  { s with openFd := s.openFd.closeRemove (fun _ => closes) fd }

def rtemsBsdProgramFopen (s : State) (item : Bool) (file : Option Nat) : State :=
  match item, file with
  | true, some f => { s with openFile := s.openFile.acquire f }
  | _, _ => s

/-- `rtems_bsd_program_fclose`; `fclose` gives the stream back in any case. -/
def rtemsBsdProgramFclose (s : State) (file : Nat) : State :=
  { s with openFile := s.openFile.closeRemove (fun _ => true) file }

/-- The end of `rtems_bsd_program_call`: `fd_close_all`, `file_close_all` and
    `allocmem_free_all`. -/
def closeAndFreeAll (closes : Int → Bool) (s : State) : State :=
  { s with
    openFd := s.openFd.closeAll closes
    openFile := s.openFile.closeAll fun _ => true
    allocatedMem := s.allocatedMem.closeAll fun _ => true }

inductive Act where
  | open (item : Bool) (fd : Int)
  | socket (item : Bool) (fd : Int)
  | close (fd : Int) (closes : Bool)
  | fopen (item : Bool) (file : Option Nat)
  | fclose (file : Nat)
  | malloc (size : Nat) (res : Option Nat)
  | calloc (nelem elsize : Nat) (res : Option Nat)
  | realloc (ptr : Option Nat) (size : Nat) (res : Option Nat)
  | reallocf (ptr : Option Nat) (size : Nat) (res : Option Nat)
  | strdup (strlen : Nat) (res : Option Nat)
  | strndup (strlen n : Nat) (res : Option Nat)
  | vasprintf (n : Int) (res : Option Nat)
  | asprintf (n : Int) (res : Option Nat)
  | free (ptr : Option Nat)

def unused {α : Type} [DecidableEq α] (t : Tracker α) (x : α) : Bool := x ∉ t.live.map Prod.fst

/-- An answer of `open` or `socket`: `-1` or an unused descriptor. -/
def descriptorAnswer (s : State) (fd : Int) : Bool := fd = -1 || (0 ≤ fd && unused s.openFd fd)

/-- What `realloc` may be given and may answer. -/
def reallocAnswer (s : State) (orgPtr res : Option Nat) : Bool :=
  (orgPtr.all fun p => !unused s.allocatedMem p) &&
    res.all fun q => unused s.allocatedMem q || orgPtr = some q

section System

variable (k w : Nat)

def step (s : State) : Act → Option State
  | .open item fd => if descriptorAnswer s fd then some (rtemsBsdProgramOpen s item fd) else none
  | .socket item fd => if descriptorAnswer s fd then some (rtemsBsdProgramSocket s item fd) else none
  | .close fd closes => some (rtemsBsdProgramClose s fd closes)
  | .fopen item file =>
    if file.all fun f => unused s.openFile f then some (rtemsBsdProgramFopen s item file) else none
  | .fclose file => some (rtemsBsdProgramFclose s file)
  | .malloc size res =>
    if reallocAnswer s none res then some (rtemsBsdProgramMalloc k w s size res) else none
  | .calloc nelem elsize res =>
    if reallocAnswer s none res then some (rtemsBsdProgramCalloc k w s nelem elsize res) else none
  | .realloc ptr size res =>
    if reallocAnswer s ptr res then some (rtemsBsdProgramRealloc k w s ptr size res) else none
  | .reallocf ptr size res =>
    if reallocAnswer s ptr res then some (rtemsBsdProgramReallocf k w s ptr size res) else none
  | .strdup strlen res =>
    if reallocAnswer s none res then some (rtemsBsdProgramStrdup k w s strlen res) else none
  | .strndup strlen n res =>
    if reallocAnswer s none res then some (rtemsBsdProgramStrndup k w s strlen n res) else none
  | .vasprintf n res | .asprintf n res =>
    if reallocAnswer s none res then some (rtemsBsdProgramVasprintf k w s n res) else none
  | .free ptr => some (rtemsBsdProgramFree s ptr)

/-- `rtems_bsd_program_call` of a program that makes the calls `acts`. -/
def rtemsBsdProgramCall (acts : List Act) (closes : Int → Bool) : Option State :=
  (run (step k w) init acts).map (closeAndFreeAll closes)

def roundUp (size : Nat) : Nat := (size + (2 ^ k - 1)) / 2 ^ k * 2 ^ k

/-- The rounded size and the tracking item fit into `size_t`, or nothing is allocated. -/
def Fits (size : Nat) (res : Option Nat) : Prop :=
  res = none ∨ roundUp k size + allocmemItemSize k < 2 ^ w

instance (size : Nat) (res : Option Nat) : Decidable (Fits k w size res) :=
  inferInstanceAs (Decidable (_ ∨ _))

/-- No size computation wraps, no `realloc` of a live block fails, and `close` gives a listed
    descriptor back. -/
def Kept (s : State) : Act → Prop
  | .open _ _ | .socket _ _ | .fopen _ _ | .fclose _ | .free _ => True
  | .close fd closes => fd ∈ s.openFd.tracked → closes = true
  | .malloc size res => Fits k w size res
  | .calloc nelem elsize res => Fits k w (elsize * nelem % 2 ^ w) res
  | .realloc ptr size res => Fits k w size res ∧ (ptr ≠ none → res ≠ none)
  | .reallocf _ size res => Fits k w size res
  | .strdup strlen res => Fits k w ((strlen + 1) % 2 ^ w) res
  | .strndup strlen n res => Fits k w ((min strlen n + 1) % 2 ^ w) res
  | .vasprintf n res | .asprintf n res => Fits k w ((n + 1) % 2 ^ w).toNat res

instance (s : State) : (a : Act) → Decidable (Kept k w s a)
  | .open _ _ | .socket _ _ | .fopen _ _ | .fclose _ | .free _ => inferInstanceAs (Decidable True)
  | .close _ _ => inferInstanceAs (Decidable (_ → _))
  | .realloc _ _ _ => inferInstanceAs (Decidable (_ ∧ _))
  | .malloc _ _ | .calloc _ _ _ | .reallocf _ _ _ | .strdup _ _ | .strndup _ _ _ | .vasprintf _ _
  | .asprintf _ _ => inferInstanceAs (Decidable (Fits _ _ _ _))

end System

/-- The three lists name exactly the live resources, every resource obtained is live or was
    released once, nothing else was released, and no wrapper wrote outside a block. -/
structure Balanced (s : State) : Prop where
  fd : Accounted s.openFd
  file : Accounted s.openFile
  mem : Accounted s.allocatedMem
  intact : s.corrupt = false

/-- What is left of a list after the clean-up: nothing is live and the resources obtained were
    released, each exactly once. -/
structure GivenBack {α : Type} (before after : Tracker α) : Prop where
  live : after.live = []
  once : after.released.Perm (List.range before.obtained)
  stray : after.stray = 0

section Sizes

variable {k w : Nat}

theorem roundUp_eq (k size : Nat) : roundUp k size = size ⌈/⌉ 2 ^ k * 2 ^ k := by
  unfold roundUp
  rw [Nat.ceilDiv_eq_add_pred_div, Nat.add_sub_assoc (Nat.two_pow_pos k)]

variable {size : Nat}

theorem roundUp_of_aligned (h : size % 2 ^ k = 0) : roundUp k size = size := by
  rw [roundUp_eq]
  exact Masks.ceilDiv_mul_of_dvd (Nat.two_pow_pos k) (Nat.dvd_of_mod_eq_zero h)

theorem roundUp_of_unaligned (h : size % 2 ^ k ≠ 0) :
    roundUp k size = size / 2 ^ k * 2 ^ k + 2 ^ k := by
  rw [roundUp_eq]
  exact Masks.ceilDiv_mul_of_mod_ne (Nat.two_pow_pos k) h

theorem le_roundUp (k size : Nat) : size ≤ roundUp k size := by
  rw [roundUp_eq]
  exact Masks.le_ceilDiv_mul (Nat.two_pow_pos k) size

theorem sizeAlligned_eq (h : roundUp k size < 2 ^ w) :
    sizeAlligned k w size = roundUp k size := by
  unfold sizeAlligned
  rw [Nat.and_two_pow_sub_one_eq_mod]
  split
  · grind [roundUp_of_unaligned, Masks.or_mask, Nat.mod_eq_of_lt]
  · rename_i hmod
    exact (roundUp_of_aligned (not_not.mp hmod)).symm

theorem sizes_of_fits (h : roundUp k size + allocmemItemSize k < 2 ^ w) :
    sizeWithList k w size = sizeAlligned k w size + allocmemItemSize k ∧
      size ≤ sizeAlligned k w size := by
  grind [sizeAlligned_eq, le_roundUp, sizeWithList, Nat.mod_eq_of_lt]

end Sizes

section Steps

variable {k w : Nat} {s : State}

theorem not_mem_of_unused {α : Type} [DecidableEq α] {t : Tracker α} (ht : Accounted t) {x : α}
    (hx : unused t x = true) : x ∉ t.tracked := by
  rw [ht.tracked_eq]
  simpa [unused] using hx

theorem mem_of_used {α : Type} [DecidableEq α] {t : Tracker α} (ht : Accounted t) {x : α}
    (hx : unused t x = false) : x ∈ t.tracked := by
  rw [ht.tracked_eq]
  simpa [unused] using hx

theorem accounted_alloc (hs : Balanced s) (size : Nat) {orgPtr res : Option Nat}
    (ha : reallocAnswer s orgPtr res = true) (hf : orgPtr ≠ none → res ≠ none) :
    Accounted (rtemsBsdProgramAlloc k w s size orgPtr res).allocatedMem := by
  simp only [reallocAnswer, Bool.and_eq_true] at ha
  obtain ⟨horg, hres⟩ := ha
  cases orgPtr with
  | none =>
    cases res with
    | none => exact hs.mem
    | some q =>
      simp only [all_some, reduceCtorEq, decide_false, Bool.or_false] at hres
      exact hs.mem.acquire (not_mem_of_unused hs.mem hres)
  | some p =>
    cases res with
    | none => exact absurd rfl (hf (by simp))
    | some q =>
      simp only [all_some, Bool.not_eq_true'] at horg
      obtain ⟨m, hm⟩ := unlist_isSome (mem_of_used hs.mem horg)
      obtain ⟨hacc, htr⟩ := hs.mem.unlist_release hm
      simp only [rtemsBsdProgramAlloc, hm, getD_some]
      refine hacc.acquire ?_
      rw [htr]
      simp only [all_some, Bool.or_eq_true, decide_eq_true_eq, some.injEq] at hres
      exact hs.mem.not_mem_unlist hm (hres.imp_left (not_mem_of_unused hs.mem))

variable {size : Nat}

theorem intact_alloc (hs : Balanced s) (orgPtr : Option Nat) {res : Option Nat}
    (hf : Fits k w size res) : (rtemsBsdProgramAlloc k w s size orgPtr res).corrupt = false := by
  cases res with
  | none => exact hs.intact
  | some q =>
    have hfit := hf.resolve_left (by simp)
    simp [rtemsBsdProgramAlloc, hs.intact, (sizes_of_fits hfit).1]

/-- `rtems_bsd_program_alloc` keeps the balance unless `realloc` fails on a live block. -/
theorem balanced_alloc (hs : Balanced s) {orgPtr res : Option Nat}
    (ha : reallocAnswer s orgPtr res = true) (hfit : Fits k w size res)
    (hf : orgPtr ≠ none → res ≠ none) :
    Balanced (rtemsBsdProgramAlloc k w s size orgPtr res) := by
  refine ⟨?_, ?_, accounted_alloc hs size ha hf, intact_alloc hs orgPtr hfit⟩
  · cases res <;> exact hs.fd
  · cases res <;> exact hs.file

theorem balanced_fill (hs : Balanced s) {res : Option Nat}
    (ha : reallocAnswer s none res = true) (hfit : Fits k w size res) :
    Balanced (fill k w (rtemsBsdProgramAlloc k w s size none res) size res) := by
  have h := balanced_alloc hs ha hfit fun h => absurd rfl h
  refine ⟨h.fd, h.file, h.mem, ?_⟩
  cases res with
  | none => simp [fill, h.intact]
  | some q =>
    have hfit' := hfit.resolve_left (by simp)
    simp [fill, h.intact, (sizes_of_fits hfit').2]

theorem balanced_reallocf (hs : Balanced s) {ptr res : Option Nat}
    (ha : reallocAnswer s ptr res = true) (hfit : Fits k w size res) :
    Balanced (rtemsBsdProgramReallocf k w s ptr size res) := by
  unfold rtemsBsdProgramReallocf
  cases res with
  | some q => exact balanced_alloc hs ha hfit fun _ => by simp
  | none =>
    cases ptr with
    | none => exact balanced_alloc hs ha hfit fun h => absurd rfl h
    | some p =>
      simp only [reallocAnswer, all_some, all_none, Bool.and_true,
        Bool.not_eq_true'] at ha
      obtain ⟨m, hm⟩ := unlist_isSome (mem_of_used hs.mem ha)
      simp only [rtemsBsdProgramAlloc, hm, getD_some]
      exact ⟨hs.fd, hs.file, (hs.mem.unlist_release hm).1, hs.intact⟩

theorem balanced_free (hs : Balanced s) (ptr : Option Nat) : Balanced (rtemsBsdProgramFree s ptr) := by
  unfold rtemsBsdProgramFree
  split
  · exact hs
  · split
    · exact ⟨hs.fd, hs.file, hs.mem, hs.intact⟩
    · rename_i m hm
      exact ⟨hs.fd, hs.file, (hs.mem.unlist_release hm).1, hs.intact⟩

variable {fd : Int}

theorem balanced_openFd (hs : Balanced s) (ha : descriptorAnswer s fd = true)
    (hne : fd ≠ -1) : Balanced { s with openFd := s.openFd.acquire fd } := by
  simp only [descriptorAnswer, hne, decide_false, Bool.false_or, Bool.and_eq_true] at ha
  exact ⟨hs.fd.acquire (not_mem_of_unused hs.fd ha.2), hs.file, hs.mem, hs.intact⟩

theorem balanced_open (hs : Balanced s) (item : Bool)
    (ha : descriptorAnswer s fd = true) : Balanced (rtemsBsdProgramOpen s item fd) := by
  grind [rtemsBsdProgramOpen, balanced_openFd]

theorem balanced_socket (hs : Balanced s) (item : Bool)
    (ha : descriptorAnswer s fd = true) : Balanced (rtemsBsdProgramSocket s item fd) := by
  grind [rtemsBsdProgramSocket, balanced_openFd]

theorem balanced_fopen (hs : Balanced s) (item : Bool) {file : Option Nat}
    (ha : (file.all fun f => unused s.openFile f) = true) :
    Balanced (rtemsBsdProgramFopen s item file) := by
  cases item with
  | false => exact hs
  | true =>
    cases file with
    | none => exact hs
    | some f =>
      have hf : f ∉ s.openFile.tracked := not_mem_of_unused hs.file (by simpa using ha)
      exact ⟨hs.fd, hs.file.acquire hf, hs.mem, hs.intact⟩

/-- **Step**: a call that meets the condition keeps the balance. -/
theorem balanced_step {a : Act} {t : State} (hs : Balanced s) (hk : Kept k w s a)
    (h : step k w s a = some t) : Balanced t := by
  cases a with
  | «open» item fd =>
    obtain ⟨ha, ⟨⟩⟩ := ite_none_right_eq_some.mp h
    exact balanced_open hs item ha
  | socket item fd =>
    obtain ⟨ha, ⟨⟩⟩ := ite_none_right_eq_some.mp h
    exact balanced_socket hs item ha
  | close fd closes =>
    cases h
    have hfd : Accounted (s.openFd.closeRemove (fun _ => closes) fd) := hs.fd.closeRemove hk
    exact ⟨hfd, hs.file, hs.mem, hs.intact⟩
  | fopen item file =>
    obtain ⟨ha, ⟨⟩⟩ := ite_none_right_eq_some.mp h
    exact balanced_fopen hs item ha
  | fclose file =>
    cases h
    have hfile : Accounted (s.openFile.closeRemove (fun _ => true) file) :=
      hs.file.closeRemove fun _ => rfl
    exact ⟨hs.fd, hfile, hs.mem, hs.intact⟩
  | malloc size res =>
    obtain ⟨ha, ⟨⟩⟩ := ite_none_right_eq_some.mp h
    exact balanced_alloc hs ha hk fun h => absurd rfl h
  | realloc ptr size res =>
    obtain ⟨ha, ⟨⟩⟩ := ite_none_right_eq_some.mp h
    exact balanced_alloc hs ha hk.1 hk.2
  | reallocf ptr size res =>
    obtain ⟨ha, ⟨⟩⟩ := ite_none_right_eq_some.mp h
    exact balanced_reallocf hs ha hk
  | free ptr =>
    cases h
    exact balanced_free hs ptr
  | calloc nelem elsize res =>
    obtain ⟨ha, ⟨⟩⟩ := ite_none_right_eq_some.mp h
    exact balanced_fill hs ha hk
  | strdup strlen res =>
    obtain ⟨ha, ⟨⟩⟩ := ite_none_right_eq_some.mp h
    exact balanced_fill hs ha hk
  | strndup strlen n res =>
    obtain ⟨ha, ⟨⟩⟩ := ite_none_right_eq_some.mp h
    exact balanced_fill hs ha hk
  | vasprintf n res =>
    obtain ⟨ha, ⟨⟩⟩ := ite_none_right_eq_some.mp h
    exact balanced_fill hs ha hk
  | asprintf n res =>
    obtain ⟨ha, ⟨⟩⟩ := ite_none_right_eq_some.mp h
    exact balanced_fill hs ha hk

end Steps

theorem balanced_init : Balanced init := ⟨Accounted.empty, Accounted.empty, Accounted.empty, rfl⟩

theorem givenBack_closeAll {α : Type} [DecidableEq α] {t : Tracker α} (h : Accounted t)
    {closes : α → Bool} (hc : ∀ x ∈ t.tracked, closes x = true) :
    GivenBack t (t.closeAll closes) := by
  obtain ⟨hacc, hnil⟩ := h.closeAll hc
  have hlive : (t.closeAll closes).live = [] := by
    have := hacc.tracked_eq
    rw [hnil] at this
    exact List.map_eq_nil_iff.mp this.symm
  have hperm := hacc.perm
  rw [hlive, List.map_nil, List.append_nil, Tracker.closeAll, closeFirst_obtained] at hperm
  exact ⟨hlive, hperm, hacc.stray⟩

/-- **A program in which no `realloc` of a live block fails, no size wraps and no `close` leaves
    its descriptor open**: after each of its calls the lists name exactly the live resources, and
    at the end of `rtems_bsd_program_call` every resource it ever obtained has been released
    exactly once and nothing else was. -/
theorem resources_of_kept {k w : Nat} {acts : List Act} {s : State}
    (hok : StepsMeet (step k w) (Kept k w) init acts) (hrun : run (step k w) init acts = some s)
    {closes : Int → Bool} (hc : ∀ fd ∈ s.openFd.tracked, closes fd = true) :
    Balanced s ∧
    ∃ e, rtemsBsdProgramCall k w acts closes = some e ∧
      GivenBack s.openFd e.openFd ∧ GivenBack s.openFile e.openFile ∧
      GivenBack s.allocatedMem e.allocatedMem := by
  have hs : Balanced s :=
    run_invariant_of_meet (fun _ _ _ hi hk hst => balanced_step hi hk hst) acts init s
      balanced_init hok hrun
  refine ⟨hs, closeAndFreeAll closes s, ?_, ?_, ?_, ?_⟩
  · simp [rtemsBsdProgramCall, hrun]
  · exact givenBack_closeAll hs.fd hc
  · exact givenBack_closeAll hs.file fun _ _ => rfl
  · exact givenBack_closeAll hs.mem fun _ _ => rfl

/-- A descriptor, a block that moves, a stream and a string; the program closes the descriptor. -/
def tidyRun : List Act :=
  [.open true 3, .malloc 10 (some 100), .realloc (some 100) 50 (some 200), .fopen true (some 7),
   .strdup 5 (some 300), .free (some 300), .close 3 true, .reallocf (some 200) 60 none]

theorem resources_of_kept_tidyRun :
    ∃ s, run (step 2 32) init tidyRun = some s ∧ Balanced s ∧
      ∃ e, rtemsBsdProgramCall 2 32 tidyRun (fun _ => true) = some e ∧
        GivenBack s.openFd e.openFd ∧ GivenBack s.openFile e.openFile ∧
        GivenBack s.allocatedMem e.allocatedMem :=
  ⟨_, rfl, @resources_of_kept 2 32 tidyRun _ (by decide) rfl (fun _ => true) fun _ _ => rfl⟩

/-- A block whose `realloc` fails. -/
def reallocRun : List Act := [.malloc 8 (some 100), .realloc (some 100) 16 none]

/-- The block of `reallocRun` is live and no longer listed, and it is never released. -/
theorem reallocRun_leaks :
    ∃ s e, run (step 2 32) init reallocRun = some s ∧ ¬ Balanced s ∧
      s.allocatedMem.live = [(100, 0)] ∧ s.allocatedMem.tracked = [] ∧
      rtemsBsdProgramCall 2 32 reallocRun (fun _ => true) = some e ∧
      ¬ GivenBack s.allocatedMem e.allocatedMem := by
  refine ⟨_, _, rfl, ?_, rfl, rfl, rfl, ?_⟩
  · intro h
    exact absurd h.mem.tracked_eq (by decide)
  · intro h
    exact absurd h.live (by decide)

end RtemsLibbsd.Program
