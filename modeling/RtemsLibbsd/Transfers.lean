import Mathlib.Algebra.Group.Int.Defs
import Mathlib.Algebra.Group.Nat.Defs
import Mathlib.Logic.Basic

/-!
# The results of transfers

Model of `rtems_bsd_sysgen_read`, `rtems_bsd_sysgen_readv`, `rtems_bsd_sysgen_write` and `rtems_bsd_sysgen_writev` of
`rtemsbsd/rtems/rtems-bsd-syscall-api.c`, of `rtems_bsd_vfs_readlink` of `rtemsbsd/rtems/rtems-kernel-vfs.c`, and
of the functions of the kernel that they call: `kern_readv`, `kern_writev` and `kern_getdirentries`.

* `FileOp` — a file operation fails or not, and leaves a part of the request.
* `Call.returned` — what a call returns, and `errno`.
* `Call.outcome` — what happened: the call was refused, the kernel failed, or bytes were transferred.
* `Convention` — the result says what happened.
* **`returned_convention_iff`** — for `read` and `readv` always, for `write` and `writev` unless the request is too
  long, and for `readlink` if nothing was transferred.
-/

namespace RtemsLibbsd.Transfers

def ERESTART : Int := -1

def ENOENT : Int := 2

def EINTR : Int := 4

def EBADF : Int := 9

def EWOULDBLOCK : Int := 11

def ENOMEM : Int := 12

def EINVAL : Int := 22

/-- What a call returns, and `errno` if it is set. -/
structure Returned where
  value : Int
  errno : Option Int

def rtemsBsdErrorToStatusAndErrno (error : Int) : Returned :=
  if error = 0 then ⟨0, none⟩ else ⟨-1, some error⟩

/-- A file operation on a request of `resid` bytes: its error and the `uio_resid` that it leaves. -/
structure FileOp (resid : Nat) where
  error : Int
  left : Nat
  left_le : left ≤ resid

/-- What a function of the kernel returns, with `td_retval[0]` and the `uio_resid` afterwards. -/
structure KernelResult where
  error : Int
  retval : Int
  resid : Nat

/-- The error of a file operation, which does not count if a part was transferred before. -/
def transferError {resid : Nat} (op : FileOp resid) : Int :=
  if op.left ≠ resid ∧ (op.error = ERESTART ∨ op.error = EINTR ∨ op.error = EWOULDBLOCK) then 0 else op.error

section Kernel

variable {resid : Nat}

def dofileread (op : FileOp resid) : KernelResult :=
  if resid = 0 then ⟨0, 0, 0⟩ else ⟨transferError op, resid - op.left, op.left⟩

/-- `kern_readv`; `fget` is the result of `fget_read`. -/
def kernReadv (retval fget : Int) (op : FileOp resid) : KernelResult :=
  if fget ≠ 0 then ⟨fget, retval, resid⟩ else dofileread op

/-- The error of a socket counts, also if a part was transferred before. -/
def dofilewrite (socket : Bool) (op : FileOp resid) : KernelResult :=
  ⟨if socket then op.error else transferError op, resid - op.left, op.left⟩

/-- `kern_writev`; `fget` is the result of `fget_write`. -/
def kernWritev (retval fget : Int) (socket : Bool) (op : FileOp resid) : KernelResult :=
  if fget ≠ 0 then ⟨fget, retval, resid⟩ else dofilewrite socket op

/-- A vnode that `kern_getdirentries` gets to; the error of `readdir` is that of `VOP_READDIR`. -/
structure DirVnode (count : Nat) where
  isDir : Bool
  unlinked : Bool
  readdir : FileOp count

/-- `kern_getdirentries` at one vnode. -/
def readdirAt {count : Nat} (retval : Int) (vp : DirVnode count) : KernelResult :=
  if vp.isDir = false then ⟨EINVAL, retval, count⟩
  else if vp.unlinked then ⟨ENOENT, retval, count⟩
  else if vp.readdir.error ≠ 0 then ⟨vp.readdir.error, retval, vp.readdir.left⟩
  else ⟨0, count - vp.readdir.left, vp.readdir.left⟩

/-- `kern_getdirentries`, from `unionread` on.  If there are no entries in the root of a union mount, the
    directory that it covers is the next one; `covered` are those in this order. -/
def unionread {count : Nat} (retval : Int) (vp : DirVnode count) (covered : List (DirVnode count)) :
    KernelResult :=
  match covered with
  | [] => readdirAt retval vp
  | next :: covered =>
    let k := readdirAt retval vp
    if k.error = 0 ∧ k.resid = count then unionread retval next covered else k

/-- `kern_getdirentries`; `getvnode` is the result of `getvnode`, and `fread` says that the file is open for
    reading. -/
def kernGetdirentries {count : Nat} (iosizeMax : Nat) (retval getvnode : Int) (fread : Bool) (vp : DirVnode count)
    (covered : List (DirVnode count)) : KernelResult :=
  if iosizeMax < count then ⟨EINVAL, retval, count⟩
  else if getvnode ≠ 0 then ⟨getvnode, retval, count⟩
  else if fread = false then ⟨EBADF, retval, count⟩
  else unionread retval vp covered

end Kernel

inductive Source (count : Nat) where
  | directory (getvnode : Int) (fread : Bool) (vp : DirVnode count) (covered : List (DirVnode count))
  | file (fget : Int) (op : FileOp count)

structure Sink (count : Nat) where
  fget : Int
  socket : Bool
  op : FileOp count

/-- A vnode with a text, if `isLink`. -/
structure Link (bufsize : Nat) where
  isLink : Bool
  vop : FileOp bufsize

/-- `IOSIZE_MAX`, and `td_retval[0]` of the current thread, if there is one. -/
structure Env where
  iosizeMax : Nat
  td : Option Int

section Calls

variable {count : Nat} (env : Env)

def Source.kernel (retval : Int) : Source count → KernelResult
  | .directory getvnode fread vp covered => kernGetdirentries env.iosizeMax retval getvnode fread vp covered
  | .file fget op => kernReadv retval fget op

def rtemsBsdSysgenRead (source : Source count) : Returned :=
  match env.td with
  | none => rtemsBsdErrorToStatusAndErrno ENOMEM
  | some retval =>
    if env.iosizeMax < count then rtemsBsdErrorToStatusAndErrno EINVAL
    else
      let k := source.kernel env retval
      if k.error ≠ 0 then rtemsBsdErrorToStatusAndErrno k.error else ⟨k.retval, none⟩

def rtemsBsdSysgenReadv (fget : Int) (op : FileOp count) : Returned :=
  match env.td with
  | none => rtemsBsdErrorToStatusAndErrno ENOMEM
  | some retval =>
    if env.iosizeMax < count then rtemsBsdErrorToStatusAndErrno EINVAL
    else
      let k := kernReadv retval fget op
      if k.error ≠ 0 then rtemsBsdErrorToStatusAndErrno k.error else ⟨k.retval, none⟩

def rtemsBsdSysgenWrite (sink : Sink count) : Returned :=
  match env.td with
  | none => rtemsBsdErrorToStatusAndErrno ENOMEM
  | some retval =>
    if env.iosizeMax < count then ⟨EINVAL, none⟩
    else
      let k := kernWritev retval sink.fget sink.socket sink.op
      if k.error ≠ 0 then rtemsBsdErrorToStatusAndErrno k.error else ⟨k.retval, none⟩

def rtemsBsdSysgenWritev (sink : Sink count) : Returned :=
  if env.iosizeMax < count then ⟨EINVAL, none⟩
  else
    match env.td with
    | none => rtemsBsdErrorToStatusAndErrno ENOMEM
    | some retval =>
      let k := kernWritev retval sink.fget sink.socket sink.op
      if k.error ≠ 0 then rtemsBsdErrorToStatusAndErrno k.error else ⟨k.retval, none⟩

/-- The number of bytes is only stored in `td_retval[0]`. -/
def rtemsBsdVfsReadlink (link : Link count) : Returned :=
  match env.td with
  | none => rtemsBsdErrorToStatusAndErrno ENOMEM
  | some _ =>
    if link.isLink = false then rtemsBsdErrorToStatusAndErrno EINVAL
    else rtemsBsdErrorToStatusAndErrno link.vop.error

end Calls

inductive Call where
  | read (count : Nat) (source : Source count)
  | readv (total : Nat) (fget : Int) (op : FileOp total)
  | write (count : Nat) (sink : Sink count)
  | writev (total : Nat) (sink : Sink total)
  | readlink (bufsize : Nat) (link : Link bufsize)

def Call.count : Call → Nat
  | .read count _ | .readv count _ _ | .write count _ | .writev count _ | .readlink count _ => count

def Call.returned (env : Env) : Call → Returned
  | .read _ source => rtemsBsdSysgenRead env source
  | .readv _ fget op => rtemsBsdSysgenReadv env fget op
  | .write _ sink => rtemsBsdSysgenWrite env sink
  | .writev _ sink => rtemsBsdSysgenWritev env sink
  | .readlink _ link => rtemsBsdVfsReadlink env link

inductive Outcome where
  | refused
  | failed (error : Int)
  | transferred (bytes : Nat)

/-- What the kernel did with a request of `count` bytes. -/
def KernelResult.outcome (count : Nat) (k : KernelResult) : Outcome :=
  if k.error ≠ 0 then .failed k.error else .transferred (count - k.resid)

/-- A call is refused without a current thread, and if it asks for too much or for the text of what is
    not a link; otherwise the kernel is called. -/
def Call.outcome (env : Env) (c : Call) : Outcome :=
  match env.td with
  | none => .refused
  | some retval =>
    match c with
    | .read count source =>
      if env.iosizeMax < count then .refused else (source.kernel env retval).outcome count
    | .readv total fget op =>
      if env.iosizeMax < total then .refused else (kernReadv retval fget op).outcome total
    | .write count sink | .writev count sink =>
      if env.iosizeMax < count then .refused
      else (kernWritev retval sink.fget sink.socket sink.op).outcome count
    | .readlink bufsize link =>
      if link.isLink = false then .refused
      else if link.vop.error ≠ 0 then .failed link.vop.error
      else .transferred (bufsize - link.vop.left)

/-- The result is -1 with `errno` if and only if the call was refused or failed, and otherwise the number of
    bytes. -/
def Convention (r : Returned) (count : Nat) : Outcome → Prop
  | .refused => r.value = -1 ∧ r.errno.isSome
  | .failed error => r = ⟨-1, some error⟩
  | .transferred bytes => r = ⟨bytes, none⟩ ∧ bytes ≤ count

/-- The request of a write is not too long, and no text of a link is transferred. -/
def Call.Meets (env : Env) : Call → Prop
  | .read _ _ | .readv _ _ _ => True
  | .write count _ => env.td = none ∨ count ≤ env.iosizeMax
  | .writev total _ => total ≤ env.iosizeMax
  | .readlink bufsize link =>
    env.td = none ∨ link.isLink = false ∨ link.vop.error ≠ 0 ∨ link.vop.left = bufsize

section Results

variable {count : Nat}

/-- The number in `td_retval[0]` is that of the bytes that are not left. -/
def KernelResult.Counts (count : Nat) (k : KernelResult) : Prop :=
  k.error = 0 → k.retval = count - k.resid ∧ k.resid ≤ count

theorem kernReadv_counts (retval fget : Int) (op : FileOp count) : (kernReadv retval fget op).Counts count := by
  unfold kernReadv dofileread
  by_cases hfget : fget = 0
  · rw [if_neg (not_not.mpr hfget)]
    by_cases hzero : count = 0
    · subst hzero
      intro _
      simp
    · rw [if_neg hzero]
      exact fun _ => ⟨rfl, op.left_le⟩
  · rw [if_pos hfget]
    exact fun herror => absurd herror hfget

theorem kernWritev_counts (retval fget : Int) (socket : Bool) (op : FileOp count) :
    (kernWritev retval fget socket op).Counts count := by
  unfold kernWritev dofilewrite
  by_cases hfget : fget = 0
  · rw [if_neg (not_not.mpr hfget)]
    exact fun _ => ⟨rfl, op.left_le⟩
  · rw [if_pos hfget]
    exact fun herror => absurd herror hfget

theorem readdirAt_counts (retval : Int) (vp : DirVnode count) : (readdirAt retval vp).Counts count := by
  unfold readdirAt
  split
  · exact fun herror => by cases herror
  split
  · exact fun herror => by cases herror
  split
  · rename_i hvop
    exact fun herror => absurd herror hvop
  · exact fun _ => ⟨rfl, vp.readdir.left_le⟩

theorem unionread_counts (retval : Int) (vp : DirVnode count) (covered : List (DirVnode count)) :
    (unionread retval vp covered).Counts count := by
  induction covered generalizing vp with
  | nil => exact readdirAt_counts retval vp
  | cons next covered ih =>
    unfold unionread
    simp only
    split
    · exact ih next
    · exact readdirAt_counts retval vp

theorem kernGetdirentries_counts (iosizeMax : Nat) (retval getvnode : Int) (fread : Bool) (vp : DirVnode count)
    (covered : List (DirVnode count)) :
    (kernGetdirentries iosizeMax retval getvnode fread vp covered).Counts count := by
  unfold kernGetdirentries
  grind [unionread_counts, KernelResult.Counts, EINVAL, EBADF]

theorem Source.kernel_counts (env : Env) (retval : Int) (source : Source count) :
    (source.kernel env retval).Counts count := by
  cases source with
  | file fget op => exact kernReadv_counts retval fget op
  | directory getvnode fread vp covered =>
    exact kernGetdirentries_counts env.iosizeMax retval getvnode fread vp covered

theorem convention_kernel {k : KernelResult} (hk : k.Counts count) :
    Convention (if k.error ≠ 0 then rtemsBsdErrorToStatusAndErrno k.error else ⟨k.retval, none⟩) count
      (k.outcome count) := by
  unfold KernelResult.outcome
  by_cases herror : k.error = 0
  · obtain ⟨hretval, hresid⟩ := hk herror
    rw [if_neg (not_not.mpr herror), if_neg (not_not.mpr herror)]
    refine ⟨?_, Nat.sub_le _ _⟩
    rw [hretval, Int.ofNat_sub hresid]
  · rw [if_pos herror, if_pos herror]
    unfold rtemsBsdErrorToStatusAndErrno
    rw [if_neg herror]
    rfl

theorem not_convention_refused {value : Int} (errno : Option Int) (hvalue : 0 ≤ value) :
    ¬ Convention ⟨value, errno⟩ count .refused := by
  rintro ⟨hminus, -⟩
  simp only at hminus
  omega

end Results

/-- **The result of a transfer** says what happened, except for a write that is too long and for a link
    with a text. -/
theorem returned_convention_iff (env : Env) (c : Call) :
    Convention (c.returned env) c.count (c.outcome env) ↔ c.Meets env := by
  have hrefused : ∀ count error, error ≠ 0 →
      Convention (rtemsBsdErrorToStatusAndErrno error) count .refused := by
    intro count error herror
    unfold rtemsBsdErrorToStatusAndErrno
    rw [if_neg herror]
    exact ⟨rfl, rfl⟩
  obtain ⟨iosizeMax, td⟩ := env
  cases c with
  | read count source =>
    refine iff_of_true ?_ trivial
    cases td with
    | none => exact hrefused count ENOMEM (by decide)
    | some retval =>
      simp only [Call.returned, Call.count, Call.outcome, rtemsBsdSysgenRead]
      by_cases hlong : iosizeMax < count
      · rw [if_pos hlong, if_pos hlong]
        exact hrefused count EINVAL (by decide)
      · rw [if_neg hlong, if_neg hlong]
        exact convention_kernel (source.kernel_counts _ retval)
  | readv count fget op =>
    refine iff_of_true ?_ trivial
    cases td with
    | none => exact hrefused count ENOMEM (by decide)
    | some retval =>
      simp only [Call.returned, Call.count, Call.outcome, rtemsBsdSysgenReadv]
      by_cases hlong : iosizeMax < count
      · rw [if_pos hlong, if_pos hlong]
        exact hrefused count EINVAL (by decide)
      · rw [if_neg hlong, if_neg hlong]
        exact convention_kernel (kernReadv_counts retval fget op)
  | write count sink =>
    cases td with
    | none => exact iff_of_true (hrefused count ENOMEM (by decide)) (.inl rfl)
    | some retval =>
      simp only [Call.returned, Call.count, Call.outcome, Call.Meets, rtemsBsdSysgenWrite]
      by_cases hlong : iosizeMax < count
      · rw [if_pos hlong, if_pos hlong]
        refine iff_of_false (not_convention_refused none (by decide)) ?_
        rintro (hnone | hfit)
        · cases hnone
        · omega
      · rw [if_neg hlong, if_neg hlong]
        exact iff_of_true (convention_kernel (kernWritev_counts retval sink.fget sink.socket sink.op))
          (.inr (Nat.not_lt.mp hlong))
  | writev count sink =>
    simp only [Call.returned, Call.count, Call.Meets, rtemsBsdSysgenWritev]
    by_cases hlong : iosizeMax < count
    · rw [if_pos hlong]
      have hrefuse : Call.outcome ⟨iosizeMax, td⟩ (.writev count sink) = .refused := by
        cases td with
        | none => rfl
        | some retval =>
          simp only [Call.outcome]
          rw [if_pos hlong]
      rw [hrefuse]
      exact iff_of_false (not_convention_refused none (by decide)) (Nat.not_le.mpr hlong)
    · rw [if_neg hlong]
      refine iff_of_true ?_ (Nat.not_lt.mp hlong)
      cases td with
      | none => exact hrefused count ENOMEM (by decide)
      | some retval =>
        simp only [Call.outcome]
        rw [if_neg hlong]
        exact convention_kernel (kernWritev_counts retval sink.fget sink.socket sink.op)
  | readlink count link =>
    cases td with
    | none => exact iff_of_true (hrefused count ENOMEM (by decide)) (.inl rfl)
    | some retval =>
      simp only [Call.returned, Call.count, Call.outcome, Call.Meets, rtemsBsdVfsReadlink]
      cases hlink : link.isLink with
      | false =>
        exact iff_of_true (hrefused count EINVAL (by decide)) (.inr (.inl rfl))
      | true =>
        rw [if_neg (by decide), if_neg (by decide)]
        unfold rtemsBsdErrorToStatusAndErrno
        by_cases herror : link.vop.error = 0
        · rw [if_pos herror, if_neg (not_not.mpr herror)]
          have hle := link.vop.left_le
          constructor
          · rintro ⟨hzero, -⟩
            simp only [Returned.mk.injEq, and_true] at hzero
            exact .inr (.inr (.inr (by omega)))
          · rintro (hnone | hfalse | hfail | hall)
            · cases hnone
            · cases hfalse
            · exact absurd herror hfail
            · rw [hall, Nat.sub_self]
              exact ⟨rfl, Nat.zero_le _⟩
        · rw [if_neg herror, if_pos herror]
          exact iff_of_true rfl (.inr (.inr (.inl herror)))

/-- **A refused write and a link**: a write of more than `IOSIZE_MAX` bytes returns 22, and the text `abc` of a link
    is transferred with the result 0. -/
theorem write_and_readlink_differ :
    ¬ Convention (Call.returned ⟨2147483647, some 0⟩ (.write 2147483648 ⟨0, false, ⟨0, 2147483648, Nat.le_refl _⟩⟩))
      2147483648
        (Call.outcome ⟨2147483647, some 0⟩ (.write 2147483648 ⟨0, false, ⟨0, 2147483648, Nat.le_refl _⟩⟩)) ∧
      ¬ Convention (Call.returned ⟨2147483647, some 0⟩ (.readlink 256 ⟨true, ⟨0, 253, by decide⟩⟩)) 256
        (Call.outcome ⟨2147483647, some 0⟩ (.readlink 256 ⟨true, ⟨0, 253, by decide⟩⟩)) := by
  refine ⟨not_convention_refused none (by decide), ?_⟩
  rintro ⟨hzero, -⟩
  cases hzero

end RtemsLibbsd.Transfers
