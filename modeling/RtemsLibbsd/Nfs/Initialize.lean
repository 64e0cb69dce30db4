import Mathlib.Data.List.DropRight
import RtemsLibbsd.Nfs.Options

/-!
# The result of an NFS mount

Model of `rtems_nfs_initialize`, `nfs_trymount` and `nfs_tryproto` of `rtemsbsd/fs/nfsclient/nfs.c`, and of
`rtems_bsd_rootfs_mkdir` and `rtems_bsd_rootfs_rmdir` of `rtemsbsd/fs/rootfs/rootfs.c`.

* `Setup` — the mount table entry, and the outcomes of everything that is called.  `fspath` is what the buffer on
  the stack has in it before it is written.
* `Kernel` — the directories in the BSD root file system, the buffers that were allocated and released, and
  the root location.
* `Sound` — a result 0 is a mount with its root, and a result -1 leaves no directory and no buffer.
* **`rtemsNfsInitialize_sound_iff`** — this is so exactly if the mount succeeds, or fails before its directory
  is made.

The directory is made under its name and removed under its path, which begins with a slash and names nothing.  The
lookup of that path behind a successful `kernel_mount` gets to the root of what was mounted.
-/

namespace RtemsLibbsd.NfsInitialize

open List

open RtemsLibbsd.NfsOptions (initializeOptions nfsArgsDefaults Mountmode Opflags)

abbrev Name := List Char

abbrev Vnode := Nat

def ENOENT : Nat := 2

def EIO : Nat := 5

def ENOMEM : Nat := 12

def EINVAL : Nat := 22

inductive Buffer where
  | addrinfo
  | ma
  | addr
  | fh

inductive Family where
  | inet
  | inet6
  | other
  deriving DecidableEq

/-- The ways in which `nfs_tryproto` fails. -/
inductive Tryret where
  | timeout
  | remoteerr
  | localerr

/-- An address of the server: `rpc` is how the attempt fails before the address is stored, if it does, and the other
    fields are the results of the allocations. -/
structure Addrinfo where
  family : Family
  rpc : Option Tryret
  addr : Bool
  fh : Bool

/-- A call.  `getnfsargs` are the addresses of the host, and `kernelMount` and `namei` are errors. -/
structure Setup where
  dev : Name
  target : Name
  data : Option (List Char)
  fspath : Name
  mountCounter : List Char
  getnfsargs : Option (List Addrinfo)
  mkdir : Bool
  curthread : Bool
  kernelMount : Nat
  namei : Nat
  root : Vnode
  counter_plain : '/' ∉ mountCounter

/-- The entries of the BSD root file system have no slash in their names. -/
structure Kernel where
  names : List Name
  allocated : List Buffer
  released : List Buffer
  mounted : Bool
  location : Option Vnode
  plain : ∀ n ∈ names, '/' ∉ n

namespace Kernel

variable (k : Kernel)

def alloc (bs : List Buffer) : Kernel := { k with allocated := k.allocated ++ bs }

def free (bs : List Buffer) : Kernel := { k with released := k.released ++ bs }

def rtemsBsdRootfsMkdir (n : Name) (h : '/' ∉ n) (mem : Bool) : Nat × Kernel :=
  if mem then
    (0, { k with
      names := k.names ++ [n]
      plain := fun n' hn' => (mem_append.mp hn').elim (k.plain n') fun h' => mem_singleton.mp h' ▸ h })
  else (ENOENT, k)

def rtemsBsdRootfsRmdir (n : Name) : Kernel :=
  { k with names := k.names.erase n, plain := fun n' hn' => k.plain n' (mem_of_mem_erase hn') }

end Kernel

def nfsTryproto (mode : Mountmode) (ai : Addrinfo) (k : Kernel) : Option Tryret × Kernel :=
  match ai.rpc with
  | some failure => (some failure, k)
  | none =>
    let k := if ai.addr then k.alloc [.addr] else k
    match mode with
    | .V4 => if ai.addr = false then (some .localerr, k) else (none, k.alloc [.ma])
    | _ =>
      let k := if ai.fh then k.alloc [.fh] else k
      if ai.addr = false ∨ ai.fh = false then
        let k := if ai.addr then k.free [.addr] else k
        let k := if ai.fh then k.free [.fh] else k
        (some .localerr, k)
      else (none, k.alloc [.ma])

/-- `nfs_trymount` with the directory `fspath`.  `kernel_mount` releases its arguments. -/
def nfsTrymount (s : Setup) (fspath : Name) (k : Kernel) : Nat × Kernel :=
  if s.curthread = false then (ENOMEM, k)
  else
    let k := k.free [.ma]
    if s.kernelMount = 0 then
      let k := { k with mounted := true }
      if s.namei = 0 then (0, { k with location := some s.root })
      else (s.namei, ({ k with location := none }).rtemsBsdRootfsRmdir fspath)
    else (s.kernelMount, k)

/-- The address is not used because of `noinet4` or `noinet6`. -/
def skipped (opflags : Opflags) (ai : Addrinfo) : Bool :=
  ai.family = .inet6 && opflags.noinet6 || ai.family = .inet && opflags.noinet4

def tryAddresses (s : Setup) (opflags : Opflags) (mode : Mountmode) (fspath : Name) :
    List Addrinfo → Nat → Kernel → Nat × Kernel
  | [], error, k => (error, k)
  | ai :: rest, error, k =>
    if skipped opflags ai then tryAddresses s opflags mode fspath rest error k
    else
      match nfsTryproto mode ai k with
      | (none, k) => nfsTrymount s fspath k
      | (some _, k) => tryAddresses s opflags mode fspath rest EIO k

def lastComponent (path : Name) : Name := path.rtakeWhile fun c => c ≠ '/' && c ≠ '\\'

/-- The name of the directory, which is `fspath` without its slash. -/
def directory (s : Setup) : Name := (lastComponent s.target ++ '-' :: s.mountCounter).take 254

theorem directory_plain (s : Setup) : '/' ∉ directory s := by
  intro h
  have hmem := mem_of_mem_take h
  rcases mem_append.mp hmem with hlast | hcounter
  · have hkept := mem_rtakeWhile_imp hlast
    simp at hkept
  · grind [s.counter_plain]

/-- What is left behind at `out`, where `fspath` is removed if there is an error. -/
def out (fspath : Name) (r : Nat × Kernel) : Int × Kernel :=
  if r.1 ≠ 0 then (-1, r.2.rtemsBsdRootfsRmdir fspath) else (0, r.2)

def parsedOptions (s : Setup) : Option NfsOptions.NfsArgs :=
  match s.data with
  | none => some nfsArgsDefaults
  | some data => (initializeOptions data nfsArgsDefaults).toOption

def rtemsNfsInitialize (s : Setup) (k : Kernel) : Int × Kernel :=
  if '@' ∈ s.dev then out s.fspath (EINVAL, k)
  else
    match parsedOptions s with
    | none => out s.fspath (EINVAL, k)
    | some args =>
      if 248 ≤ (lastComponent s.target).length then out s.fspath (EINVAL, k)
      else
        let fspath := '/' :: directory s
        match s.getnfsargs with
        | none => out fspath (EINVAL, k)
        | some addresses =>
          let k := { k.alloc [.addrinfo] with location := none }
          let (error, k) := k.rtemsBsdRootfsMkdir (directory s) (directory_plain s) s.mkdir
          let (error, k) :=
            if error = 0 then tryAddresses s args.opflags args.mountmode fspath addresses error k else (error, k)
          out fspath (error, k.free [.addrinfo])

def Kernel.Fresh (k : Kernel) : Prop :=
  k.allocated = [] ∧ k.released = [] ∧ k.mounted = false ∧ k.location = none

/-- A result 0 means that the export is mounted and that the location refers to its root; a result -1 leaves the
    directories as they were, and everything that was allocated was released once. -/
def Sound (s : Setup) (k : Kernel) (r : Int × Kernel) : Prop :=
  (r.1 = 0 ∧ r.2.mounted = true ∧ r.2.location = some s.root) ∨
    (r.1 = -1 ∧ r.2.names = k.names ∧ r.2.released.Perm r.2.allocated)

/-- The first address that is not excluded and that can be connected to. -/
def connected (args : NfsOptions.NfsArgs) (addresses : List Addrinfo) : Option Addrinfo :=
  addresses.find? fun ai => !skipped args.opflags ai && (ai.rpc.isNone && ai.addr && (args.mountmode = .V4 || ai.fh))

def Early (s : Setup) : Prop :=
  '@' ∈ s.dev ∨ parsedOptions s = none ∨ 248 ≤ (lastComponent s.target).length

/-- An address can be connected to, and the mount and the lookup of its root succeed. -/
def Mounts (s : Setup) (addresses : List Addrinfo) : Prop :=
  (∃ args ∈ parsedOptions s, (connected args addresses).isSome) ∧ s.curthread = true ∧ s.kernelMount = 0 ∧ s.namei = 0

/-- The stack does not name a directory where the path is not known, and a directory that is made is mounted. -/
def Meets (s : Setup) (k : Kernel) : Prop :=
  (Early s → s.fspath ∉ k.names) ∧
    (¬ Early s → ∀ addresses ∈ s.getnfsargs, s.mkdir = true → Mounts s addresses)

section Directories

variable {k : Kernel} {fspath : Name}

/-- **A path with a slash** names no directory. -/
theorem rmdir_slash (k : Kernel) (n : Name) : (k.rtemsBsdRootfsRmdir ('/' :: n)).names = k.names := by
  have hnone : '/' :: n ∉ k.names := fun h => k.plain _ h mem_cons_self
  exact erase_of_not_mem hnone

theorem rmdir_keeps_iff (k : Kernel) (n : Name) : (k.rtemsBsdRootfsRmdir n).names = k.names ↔ n ∉ k.names := by
  refine ⟨?_, fun h => erase_of_not_mem h⟩
  intro h hmem
  have hlen := congrArg List.length h
  grind [Kernel.rtemsBsdRootfsRmdir]

theorem out_early (s : Setup) (hk : k.Fresh) {error : Nat} (herror : error ≠ 0) :
    Sound s k (out fspath (error, k)) ↔ (k.rtemsBsdRootfsRmdir fspath).names = k.names := by
  obtain ⟨halloc, hfree, -, -⟩ := hk
  unfold out Sound
  rw [if_pos herror]
  constructor
  · rintro (⟨hzero, -⟩ | ⟨-, hnames, -⟩)
    · cases hzero
    · exact hnames
  · intro hnames
    refine .inr ⟨rfl, hnames, ?_⟩
    show k.released.Perm k.allocated
    rw [halloc, hfree]

end Directories

section Attempts

variable {s : Setup} {k : Kernel} {mode : Mountmode} {ai : Addrinfo}

structure Kernel.Same (k k' : Kernel) : Prop where
  names : k'.names = k.names
  mounted : k'.mounted = k.mounted
  location : k'.location = k.location

theorem Kernel.Same.rfl : k.Same k := ⟨Eq.refl _, Eq.refl _, Eq.refl _⟩

theorem Kernel.Same.trans {k₁ k₂ k₃ : Kernel} (h : k₁.Same k₂) (h' : k₂.Same k₃) : k₁.Same k₃ :=
  ⟨h'.names.trans h.names, h'.mounted.trans h.mounted, h'.location.trans h.location⟩

theorem Kernel.same_alloc (b : Bool) (bs : List Buffer) : k.Same (if b then k.alloc bs else k) := by
  cases b <;> exact ⟨Eq.refl _, Eq.refl _, Eq.refl _⟩

theorem Kernel.same_free (b : Bool) (bs : List Buffer) : k.Same (if b then k.free bs else k) := by
  cases b <;> exact ⟨Eq.refl _, Eq.refl _, Eq.refl _⟩

theorem nfsTryproto_same (mode : Mountmode) (ai : Addrinfo) (k : Kernel) : k.Same (nfsTryproto mode ai k).2 := by
  unfold nfsTryproto
  cases ai.rpc with
  | some failure => exact .rfl
  | none =>
    have haddr := k.same_alloc ai.addr [.addr]
    cases mode
    case V4 =>
      simp only
      split
      · exact haddr
      · exact haddr.trans (Kernel.same_alloc true [.ma])
    all_goals
      have hfh := haddr.trans (Kernel.same_alloc ai.fh [.fh])
      simp only
      split
      · exact (hfh.trans (Kernel.same_free ai.addr [.addr])).trans (Kernel.same_free ai.fh [.fh])
      · exact hfh.trans (Kernel.same_alloc true [.ma])

theorem nfsTryproto_eq_none (mode : Mountmode) (ai : Addrinfo) (k : Kernel) :
    (nfsTryproto mode ai k).1 = none ↔ (ai.rpc.isNone && ai.addr && (mode = .V4 || ai.fh)) = true := by
  grind [nfsTryproto]

/-- **The loop over the addresses** ends with the mount of the first one that can be connected to. -/
theorem tryAddresses_spec (s : Setup) (args : NfsOptions.NfsArgs) (fspath : Name) (addresses : List Addrinfo) (error : Nat)
    (k : Kernel) :
    ∃ k', k.Same k' ∧ if (connected args addresses).isSome then
      tryAddresses s args.opflags args.mountmode fspath addresses error k = nfsTrymount s fspath k'
      else (tryAddresses s args.opflags args.mountmode fspath addresses error k).2 = k' := by
  induction addresses generalizing error k with
  | nil => exact ⟨k, .rfl, Eq.refl _⟩
  | cons ai rest ih =>
    unfold tryAddresses connected
    cases hskip : skipped args.opflags ai with
    | true =>
      rw [if_pos (Eq.refl _), find?_cons_of_neg (by simp [hskip])]
      exact ih error k
    | false =>
      have hsame := nfsTryproto_same args.mountmode ai k
      have hnone := nfsTryproto_eq_none args.mountmode ai k
      cases htry : nfsTryproto args.mountmode ai k with
      | mk failure k₁ =>
        rw [htry] at hsame hnone
        cases failure with
        | none =>
          grind
        | some failure =>
          have hfail : ¬ (ai.rpc.isNone && ai.addr && (args.mountmode = .V4 || ai.fh)) = true :=
            fun h => by cases hnone.mpr h
          rw [find?_cons_of_neg (by simpa [hskip] using hfail)]
          obtain ⟨k', hsame', hrest⟩ := ih EIO k₁
          exact ⟨k', hsame.trans hsame', hrest⟩

theorem nfsTrymount_spec (s : Setup) (n : Name) (k : Kernel) :
    (s.curthread = true ∧ s.kernelMount = 0 ∧ s.namei = 0 ∧
      (nfsTrymount s ('/' :: n) k).1 = 0 ∧ (nfsTrymount s ('/' :: n) k).2.mounted = true ∧
      (nfsTrymount s ('/' :: n) k).2.location = some s.root) ∨
    (¬ (s.curthread = true ∧ s.kernelMount = 0 ∧ s.namei = 0) ∧ (nfsTrymount s ('/' :: n) k).1 ≠ 0 ∧
      (nfsTrymount s ('/' :: n) k).2.names = k.names) := by
  unfold nfsTrymount
  cases hthread : s.curthread with
  | false =>
    right
    refine ⟨by simp, by simp [ENOMEM], by simp⟩
  | true =>
    rw [if_neg (by simp)]
    by_cases hmount : s.kernelMount = 0
    · by_cases hnamei : s.namei = 0
      · simp [hmount, hnamei]
      · right
        simp only [if_pos hmount, if_neg hnamei]
        refine ⟨fun h => hnamei h.2.2, hnamei, ?_⟩
        rw [rmdir_slash]
        rfl
    · right
      simp only [if_neg hmount]
      exact ⟨fun h => hmount h.2.1, hmount, Eq.refl _⟩

end Attempts

section Calls

variable {s : Setup} {k : Kernel}

theorem meets_of_early (h : Early s) : Meets s k ↔ s.fspath ∉ k.names :=
  ⟨fun hm => hm.1 h, fun hf => ⟨fun _ => hf, fun hearly => absurd h hearly⟩⟩

theorem out_made {n : Name} {r : Nat × Kernel} (hnames : r.2.names = k.names ++ [n] ∨ r.1 = 0) :
    Sound s k (out ('/' :: directory s) (r.1, r.2.free [.addrinfo])) ↔
      r.1 = 0 ∧ r.2.mounted = true ∧ r.2.location = some s.root := by
  unfold out Sound
  by_cases hzero : r.1 = 0
  · rw [if_neg (by simpa using hzero)]
    constructor
    · rintro (⟨-, hmounted, hlocation⟩ | ⟨hminus, -⟩)
      · exact ⟨hzero, hmounted, hlocation⟩
      · cases hminus
    · rintro ⟨-, hmounted, hlocation⟩
      exact .inl ⟨rfl, hmounted, hlocation⟩
  · rw [if_pos hzero]
    refine iff_of_false ?_ fun h => hzero h.1
    rintro (⟨hvalue, -⟩ | ⟨-, hkept, -⟩)
    · cases hvalue
    · rw [rmdir_slash] at hkept
      have hlen := congrArg List.length (hkept.symm.trans (hnames.resolve_right hzero))
      simp at hlen

theorem tryAddresses_sound {n : Name} {args : NfsOptions.NfsArgs} (hargs : parsedOptions s = some args)
    (addresses : List Addrinfo) {k₁ : Kernel} (hnames : k₁.names = k.names ++ [n]) (hmounted : k₁.mounted = false) :
    Sound s k (out ('/' :: directory s)
      ((tryAddresses s args.opflags args.mountmode ('/' :: directory s) addresses 0 k₁).1,
        (tryAddresses s args.opflags args.mountmode ('/' :: directory s) addresses 0 k₁).2.free [.addrinfo])) ↔
      Mounts s addresses := by
  have hmounts : Mounts s addresses ↔ (connected args addresses).isSome = true ∧ s.curthread = true ∧
      s.kernelMount = 0 ∧ s.namei = 0 := by
    unfold Mounts
    simp [hargs]
  rw [hmounts]
  obtain ⟨k', hsame, hspec⟩ := tryAddresses_spec s args ('/' :: directory s) addresses 0 k₁
  cases hconnected : (connected args addresses).isSome with
  | true =>
    rw [hconnected, if_pos rfl] at hspec
    rw [hspec]
    obtain ⟨hthread, hmount, hnamei, hzero, hmounted', hlocation⟩ | ⟨hfail, herror, hkept⟩ :=
      nfsTrymount_spec s (directory s) k'
    · rw [out_made (n := n) (.inr hzero)]
      exact iff_of_true ⟨hzero, hmounted', hlocation⟩ ⟨rfl, hthread, hmount, hnamei⟩
    · rw [out_made (n := n) (.inl (hkept.trans (hsame.names.trans hnames)))]
      exact iff_of_false (fun h => herror h.1) fun h => hfail h.2
  | false =>
    rw [hconnected, if_neg Bool.false_ne_true] at hspec
    rw [out_made (n := n) (.inl (by rw [hspec, hsame.names, hnames])), hspec, hsame.mounted, hmounted]
    exact iff_of_false (fun h => by cases h.2.1) fun h => by cases h.1

end Calls

/-- **The result of a mount** is sound if the mount succeeds, and if the call fails before it makes a directory. -/
theorem rtemsNfsInitialize_sound_iff (s : Setup) (k : Kernel) (hk : k.Fresh) :
    Sound s k (rtemsNfsInitialize s k) ↔ Meets s k := by
  have hearly : ∀ {error : Nat}, error ≠ 0 → Early s → (Sound s k (out s.fspath (error, k)) ↔ Meets s k) := by
    intro error herror h
    rw [meets_of_early h, out_early s hk herror, rmdir_keeps_iff]
  unfold rtemsNfsInitialize
  by_cases hat : '@' ∈ s.dev
  · rw [if_pos hat]
    exact hearly (by decide) (.inl hat)
  rw [if_neg hat]
  cases hargs : parsedOptions s with
  | none => exact hearly (by decide) (.inr (.inl hargs))
  | some args =>
    simp only
    by_cases hlong : 248 ≤ (lastComponent s.target).length
    · rw [if_pos hlong]
      exact hearly (by decide) (.inr (.inr hlong))
    rw [if_neg hlong]
    have hlate : ¬ Early s := by
      rintro (h | h | h)
      · exact hat h
      · rw [hargs] at h
        cases h
      · exact hlong h
    have hmeets : Meets s k ↔ ∀ addresses ∈ s.getnfsargs, s.mkdir = true → Mounts s addresses :=
      ⟨fun h => h.2 hlate, fun h => ⟨fun hearly => absurd hearly hlate, fun _ => h⟩⟩
    rw [hmeets]
    cases haddresses : s.getnfsargs with
    | none =>
      refine iff_of_true ((out_early s hk (by decide)).mpr (rmdir_slash k _)) ?_
      rintro _ ⟨⟩
    | some addresses =>
      simp only [Option.mem_some, forall_eq']
      cases hmkdir : s.mkdir with
      | false =>
        refine iff_of_true ?_ fun h => by cases h
        obtain ⟨halloc, hfree, -, -⟩ := hk
        refine .inr ⟨rfl, rmdir_slash k _, ?_⟩
        show (k.released ++ [Buffer.addrinfo]).Perm (k.allocated ++ [Buffer.addrinfo])
        rw [halloc, hfree]
      | true =>
        simp only [Kernel.rtemsBsdRootfsMkdir, if_true, forall_const]
        exact tryAddresses_sound hargs addresses rfl hk.2.2.1

def emptyRoot : Kernel := ⟨[], [], [], false, none, fun _ h => nomatch h⟩

/-- A mount of `h:/` at `/m` from an IPv4 address, with the result of `kernel_mount`. -/
def mountOf (data : Option (List Char)) (kernelMount : Nat) : Setup where
  dev := ['h', ':', '/']
  target := ['/', 'm']
  data := data
  fspath := []
  mountCounter := ['0']
  getnfsargs := some [⟨.inet, none, true, true⟩]
  mkdir := true
  curthread := true
  kernelMount := kernelMount
  namei := 0
  root := 7
  counter_plain := by decide

theorem rtemsNfsInitialize_sound_iff_mountOf :
    Sound (mountOf none 0) emptyRoot (rtemsNfsInitialize (mountOf none 0) emptyRoot) := by
  refine (rtemsNfsInitialize_sound_iff (mountOf none 0) emptyRoot ⟨rfl, rfl, rfl, rfl⟩).mpr ⟨?_, ?_⟩
  · intro _ h
    cases h
  · rintro _ addresses haddresses -
    cases haddresses
    exact ⟨⟨_, rfl, rfl⟩, rfl, rfl, rfl⟩

/-- `noinet4` -/
def noinet4Only : List Char := ['n', 'o', 'i', 'n', 'e', 't', '4']

/-- **A success without a mount, and a failure that leaves its directory**: with `noinet4` no address is tried
    and the result is 0; if `kernel_mount` fails the result is -1, and the directory and the address
    stay. -/
theorem mountOf_not_sound :
    ((rtemsNfsInitialize (mountOf (some noinet4Only) 0) emptyRoot).1 = 0 ∧
      (rtemsNfsInitialize (mountOf (some noinet4Only) 0) emptyRoot).2.mounted = false ∧
      ¬ Sound (mountOf (some noinet4Only) 0) emptyRoot (rtemsNfsInitialize (mountOf (some noinet4Only) 0) emptyRoot)) ∧
    (rtemsNfsInitialize (mountOf none EIO) emptyRoot).1 = -1 ∧
      (rtemsNfsInitialize (mountOf none EIO) emptyRoot).2.names = [['m', '-', '0']] ∧
      (rtemsNfsInitialize (mountOf none EIO) emptyRoot).2.allocated = [.addrinfo, .addr, .fh, .ma] ∧
      (rtemsNfsInitialize (mountOf none EIO) emptyRoot).2.released = [.ma, .addrinfo] ∧
      ¬ Sound (mountOf none EIO) emptyRoot (rtemsNfsInitialize (mountOf none EIO) emptyRoot) := by
  have hargs : parsedOptions (mountOf (some noinet4Only) 0) =
      some { nfsArgsDefaults with opflags := ⟨true, false⟩ } := by
    simp only [parsedOptions, mountOf, initializeOptions]
    rw [if_neg (by decide), NfsOptions.optionLoop_eq]
    rfl
  have hexcluded : (rtemsNfsInitialize (mountOf (some noinet4Only) 0) emptyRoot).1 = 0 ∧
      (rtemsNfsInitialize (mountOf (some noinet4Only) 0) emptyRoot).2.mounted = false := by
    unfold rtemsNfsInitialize
    rw [hargs]
    exact ⟨rfl, rfl⟩
  refine ⟨⟨hexcluded.1, hexcluded.2, ?_⟩, rfl, rfl, rfl, rfl, ?_⟩
  · rintro (⟨-, hmounted, -⟩ | ⟨hminus, -⟩)
    · rw [hexcluded.2] at hmounted
      cases hmounted
    · rw [hexcluded.1] at hminus
      cases hminus
  · rintro (⟨hzero, -⟩ | ⟨-, hnames, -⟩)
    · cases hzero
    · cases hnames

end RtemsLibbsd.NfsInitialize
