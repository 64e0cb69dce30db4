import Mathlib.Data.List.TakeWhile
import RtemsLibbsd.RcConf.Services

/-!
# The options of an NFS mount

Model of the two loops over the option string in `rtems_nfs_initialize` and `nfs_trymount` of
`rtemsbsd/fs/nfsclient/nfs.c`.

* `optionLoop` — a loop that cuts the string at its commas; the loops differ in their bodies,
  `initializeOption` and `trymountOption`.
* `effect`, `passedOn` — what an option is to do: it sets one argument, or it is passed on to `kernel_mount`, or both for
  the options that name a transport.
* `EachOnce` — each loop does so for each option of the string, whatever the options before it have set.
* **`options_eachOnce_iff`** — this is so exactly if there is no option `port` or `vers`, and no option
  that is kept from the kernel has a value.

The first loop looks for `=` but does not cut the option there, so an option with a value is never
recognised by it; the second loop does cut it, and keeps the option from the kernel by its name.
-/

namespace RtemsLibbsd.NfsOptions

open List

open RtemsLibbsd.RcConf (strcasecmp)

def nfsv2 : List Char := ['n', 'f', 's', 'v', '2']

def nfsv3 : List Char := ['n', 'f', 's', 'v', '3']

def nfsv4 : List Char := ['n', 'f', 's', 'v', '4']

def tcp : List Char := ['t', 'c', 'p']

def udp : List Char := ['u', 'd', 'p']

def port : List Char := ['p', 'o', 'r', 't']

def noinet4 : List Char := ['n', 'o', 'i', 'n', 'e', 't', '4']

def noinet6 : List Char := ['n', 'o', 'i', 'n', 'e', 't', '6']

def vers : List Char := ['v', 'e', 'r', 's']

def optsExclude : List (List Char) := [nfsv2, nfsv3, nfsv4, port, noinet4, noinet6, vers]

inductive Mountmode where
  | ANY
  | V2
  | V3
  | V4
  deriving DecidableEq

inductive Proto where
  | tcp
  | udp
  deriving DecidableEq

/-- `OF_NOINET4` and `OF_NOINET6`. -/
structure Opflags where
  noinet4 : Bool
  noinet6 : Bool
  deriving DecidableEq

/-- The part of `struct nfs_args` that options set. -/
structure NfsArgs where
  vers : Nat
  mountmode : Mountmode
  nfsproto : Proto
  portspec : List Char
  opflags : Opflags
  deriving DecidableEq

def nfsArgsDefaults : NfsArgs := ⟨4, .ANY, .tcp, [], ⟨false, false⟩⟩

inductive Errno where
  | EINVAL
  deriving DecidableEq

/-- What is behind the first character `c`. -/
def behind (c : Char) (w : List Char) : Option (List Char) :=
  match w.dropWhile (· ≠ c) with
  | [] => none
  | _ :: rest => some rest

theorem behind_shorter {c : Char} {w rest : List Char} (h : behind c w = some rest) : rest.length < w.length := by
  unfold behind at h
  have hle := (dropWhile_suffix (l := w) (· ≠ c)).length_le
  grind

def optionLoop {α : Type} (body : List Char → α → Except Errno α) (opts : List Char) (a : α) : Except Errno α :=
  match _h : behind ',' opts with
  | none => body opts a
  | some rest =>
    match body (opts.takeWhile (· ≠ ',')) a with
    | .error e => .error e
    | .ok a => optionLoop body rest a
termination_by opts.length
decreasing_by exact behind_shorter _h

/-- The body of the loop in `rtems_nfs_initialize`. -/
def initializeOption (opt : List Char) (args : NfsArgs) : Except Errno NfsArgs :=
  let delimiter := behind '=' opt
  if strcasecmp opt nfsv2 then .ok { args with vers := 2, mountmode := .V2 }
  else if strcasecmp opt nfsv3 then .ok { args with vers := 3, mountmode := .V3 }
  else if strcasecmp opt nfsv4 then
    .ok { args with
      vers := 4
      mountmode := .V4
      portspec := if args.portspec = [] then ['2', '0', '4', '9'] else args.portspec }
  else if strcasecmp opt tcp then .ok { args with nfsproto := .tcp }
  else if strcasecmp opt udp then .ok { args with nfsproto := .udp }
  else if strcasecmp opt port then
    match delimiter with
    | some v => .ok { args with portspec := v.take 15 }
    | none => .error .EINVAL
  else if strcasecmp opt noinet4 then .ok { args with opflags := { args.opflags with noinet4 := true } }
  else if strcasecmp opt noinet6 then .ok { args with opflags := { args.opflags with noinet6 := true } }
  else if strcasecmp opt vers then
    match delimiter with
    | some _ => .ok { args with vers := 2 }
    | none => .error .EINVAL
  else .ok args

/-- The options of `rtems_nfs_initialize`. -/
def initializeOptions (data : List Char) (args : NfsArgs) : Except Errno NfsArgs :=
  if 64 ≤ data.length then .error .EINVAL else optionLoop initializeOption data args

/-- An argument of `kernel_mount` and its value. -/
abbrev Mntarg := List Char × Option (List Char)

def excluded (name : List Char) : Bool := optsExclude.any (strcasecmp name)

/-- The body of the loop in `nfs_trymount`. -/
def trymountOption (opt : List Char) (ma : List Mntarg) : Except Errno (List Mntarg) :=
  let name := opt.takeWhile (· ≠ '=')
  .ok (if excluded name then ma else ma ++ [(name, behind '=' opt)])

/-- The options of `nfs_trymount`, which has a buffer of 257 characters for them. -/
def trymountOptions (data : List Char) (ma : List Mntarg) : Except Errno (List Mntarg) :=
  optionLoop trymountOption (data.take 256) ma

/-- `name` or `name=value`. -/
structure Opt where
  name : List Char
  value : Option (List Char)

def parseOpt (w : List Char) : Opt := ⟨w.takeWhile (· ≠ '='), behind '=' w⟩

def options (data : List Char) : List Opt := (data.splitOn ',').map parseOpt

def atoi (digits : List Char) : Nat := digits.foldl (fun n c => 10 * n + (c.toNat - '0'.toNat)) 0

/-- The argument that an option sets, if it is one of those that set arguments. -/
def setting (o : Opt) : Option (NfsArgs → NfsArgs) :=
  match o.value with
  | none =>
    if strcasecmp o.name nfsv2 then some fun args => { args with vers := 2, mountmode := .V2 }
    else if strcasecmp o.name nfsv3 then some fun args => { args with vers := 3, mountmode := .V3 }
    else if strcasecmp o.name nfsv4 then some fun args =>
      { args with
        vers := 4
        mountmode := .V4
        portspec := if args.portspec = [] then ['2', '0', '4', '9'] else args.portspec }
    else if strcasecmp o.name tcp then some fun args => { args with nfsproto := .tcp }
    else if strcasecmp o.name udp then some fun args => { args with nfsproto := .udp }
    else if strcasecmp o.name noinet4 then some fun args =>
      { args with opflags := { args.opflags with noinet4 := true } }
    else if strcasecmp o.name noinet6 then some fun args =>
      { args with opflags := { args.opflags with noinet6 := true } }
    else none
  | some value =>
    if strcasecmp o.name port then some fun args => { args with portspec := value }
    else if strcasecmp o.name vers then some fun args => { args with vers := atoi value }
    else none

def effect (args : NfsArgs) (o : Opt) : NfsArgs := ((setting o).getD id) args

/-- What an option hands to `kernel_mount`: nothing, if it sets an argument and is excluded. -/
def passedOn (o : Opt) : Option Mntarg :=
  if (setting o).isSome ∧ excluded o.name then none else some (o.name, o.value)

/-- The two loops give the option its one effect, whatever the arguments are that were set before. -/
structure Once (w : List Char) : Prop where
  sets : ∀ args, initializeOption w args = .ok (effect args (parseOpt w))
  passes : ∀ ma, trymountOption w ma = .ok (ma ++ (passedOn (parseOpt w)).toList)

/-- Each option has its one effect, and the string has those of its options. -/
structure EachOnce (data : List Char) : Prop where
  each : ∀ w ∈ data.splitOn ',', Once w
  sets : ∀ args, initializeOptions data args = .ok ((options data).foldl effect args)
  passes : ∀ ma, trymountOptions data ma = .ok (ma ++ (options data).filterMap passedOn)

/-- The name is not that of a port or a version, and an option that is excluded has no value. -/
def Opt.Plain (o : Opt) : Prop :=
  strcasecmp o.name port = false ∧ strcasecmp o.name vers = false ∧
    (o.value.isSome → excluded o.name = false)

section Loop

variable {α : Type} {body : List Char → α → Except Errno α}

theorem behind_of_not_mem {c : Char} {w : List Char} (h : c ∉ w) : behind c w = none ∧ w.takeWhile (· ≠ c) = w := by
  have hall : ∀ x ∈ w, (decide (x ≠ c)) = true := by
    intro x hx
    refine decide_eq_true ?_
    rintro rfl
    exact h hx
  refine ⟨?_, takeWhile_eq_self_iff.mpr hall⟩
  unfold behind
  rw [dropWhile_eq_nil_iff.mpr hall]

theorem behind_append {c : Char} {w rest : List Char} (h : c ∉ w) :
    behind c (w ++ c :: rest) = some rest ∧ (w ++ c :: rest).takeWhile (· ≠ c) = w := by
  have hall : ∀ x ∈ w, (decide (x ≠ c)) = true := by
    intro x hx
    refine decide_eq_true ?_
    rintro rfl
    exact h hx
  unfold behind
  rw [dropWhile_append_of_pos hall, takeWhile_append_of_pos hall]
  simp

theorem optionLoop_eq (opts : List Char) (a : α) :
    optionLoop body opts a = (opts.splitOn ',').foldlM (fun a w => body w a) a := by
  induction hn : opts.length using Nat.strongRecOn generalizing opts a with
  | ind n ih =>
    by_cases hmem : ',' ∈ opts
    · obtain ⟨w, rest, rfl, hw⟩ := eq_append_cons_of_mem hmem
      obtain ⟨hbehind, htake⟩ := @behind_append ',' w rest hw
      rw [splitOn_append_cons_self_of_not_mem hw, foldlM_cons, optionLoop]
      split
      · rename_i hnone
        rw [hbehind] at hnone
        cases hnone
      · rename_i rest' hsome
        rw [hbehind] at hsome
        cases hsome
        rw [htake]
        cases body w a with
        | error e => rfl
        | ok a' =>
          refine ih rest.length ?_ rest a' rfl
          rw [← hn, length_append, length_cons]
          omega
    · obtain ⟨hbehind, -⟩ := behind_of_not_mem hmem
      rw [splitOn_eq_singleton hmem, optionLoop]
      split
      · rw [foldlM_cons]
        cases body opts a <;> rfl
      · rename_i rest' hsome
        rw [hbehind] at hsome
        cases hsome

end Loop

section Names

theorem strcasecmp_other {w a b : List Char} (h : strcasecmp w a = true) (hne : strcasecmp a b = false) :
    strcasecmp w b = false := by
  grind [strcasecmp]

theorem strcasecmp_valued {w kw : List Char} (hw : '=' ∈ w) (hkw : '=' ∉ kw.map Char.toLower) :
    strcasecmp w kw = false := by
  rw [Bool.eq_false_iff]
  intro h
  have hmap : w.map Char.toLower = kw.map Char.toLower := by simpa [strcasecmp] using h
  grind

end Names

section Options

variable {w n v : List Char}

theorem parseOpt_name (h : '=' ∉ w) : parseOpt w = ⟨w, none⟩ := by
  obtain ⟨hbehind, htake⟩ := behind_of_not_mem h
  unfold parseOpt
  rw [hbehind, htake]

theorem parseOpt_value (h : '=' ∉ n) : parseOpt (n ++ '=' :: v) = ⟨n, some v⟩ := by
  obtain ⟨hbehind, htake⟩ := @behind_append '=' n v h
  unfold parseOpt
  rw [hbehind, htake]

/-- The option `port` without a value is refused, and so is `vers`. -/
theorem initializeOption_refused (h : '=' ∉ w) (hname : strcasecmp w port = true ∨ strcasecmp w vers = true)
    (args : NfsArgs) : initializeOption w args = .error .EINVAL := by
  obtain ⟨hbehind, -⟩ := behind_of_not_mem h
  unfold initializeOption
  rcases hname with hport | hvers
  · rw [strcasecmp_other hport (by decide : strcasecmp port nfsv2 = false),
      strcasecmp_other hport (by decide : strcasecmp port nfsv3 = false),
      strcasecmp_other hport (by decide : strcasecmp port nfsv4 = false),
      strcasecmp_other hport (by decide : strcasecmp port tcp = false),
      strcasecmp_other hport (by decide : strcasecmp port udp = false), hport, hbehind]
    rfl
  · rw [strcasecmp_other hvers (by decide : strcasecmp vers nfsv2 = false),
      strcasecmp_other hvers (by decide : strcasecmp vers nfsv3 = false),
      strcasecmp_other hvers (by decide : strcasecmp vers nfsv4 = false),
      strcasecmp_other hvers (by decide : strcasecmp vers tcp = false),
      strcasecmp_other hvers (by decide : strcasecmp vers udp = false),
      strcasecmp_other hvers (by decide : strcasecmp vers port = false),
      strcasecmp_other hvers (by decide : strcasecmp vers noinet4 = false),
      strcasecmp_other hvers (by decide : strcasecmp vers noinet6 = false), hvers, hbehind]
    rfl

theorem once_name (h : '=' ∉ w) (hport : strcasecmp w port = false) (hvers : strcasecmp w vers = false) :
    Once w := by
  have hparse := parseOpt_name h
  obtain ⟨hbehind, htake⟩ := behind_of_not_mem h
  refine ⟨?_, ?_⟩
  · intro args
    rw [hparse]
    simp only [initializeOption, effect, setting, hport, hvers, Bool.false_eq_true, if_false]
    split
    · rfl
    split
    · rfl
    split
    · rfl
    split
    · rfl
    split
    · rfl
    split
    · rfl
    split <;> rfl
  · intro ma
    have hset : excluded w = true → (setting ⟨w, none⟩).isSome = true := by
      intro hexcl
      simp only [excluded, optsExclude, any_cons, any_nil, hport, hvers, Bool.or_false,
        Bool.false_or, Bool.or_eq_true] at hexcl
      rcases hexcl with hname | hname | hname | hname | hname <;> simp only [setting, hname, if_true] <;>
        (repeat' split) <;> rfl
    grind [trymountOption, passedOn]

theorem once_value (h : '=' ∉ n) :
    Once (n ++ '=' :: v) ↔
      strcasecmp n port = false ∧ strcasecmp n vers = false ∧ excluded n = false := by
  have hparse := @parseOpt_value n v h
  obtain ⟨hbehind, htake⟩ := @behind_append '=' n v h
  have hnone : ∀ kw, '=' ∉ kw.map Char.toLower → strcasecmp (n ++ '=' :: v) kw = false :=
    fun kw hkw => strcasecmp_valued (by simp) hkw
  have hkeeps : ∀ args, initializeOption (n ++ '=' :: v) args = .ok args := by
    intro args
    unfold initializeOption
    rw [hnone nfsv2 (by decide), hnone nfsv3 (by decide), hnone nfsv4 (by decide), hnone tcp (by decide),
      hnone udp (by decide), hnone port (by decide), hnone noinet4 (by decide), hnone noinet6 (by decide),
      hnone vers (by decide)]
    rfl
  constructor
  · rintro ⟨hsets, hpasses⟩
    have hid : ∀ args, effect args ⟨n, some v⟩ = args := by
      intro args
      grind
    have hport : strcasecmp n port = false := by
      rw [Bool.eq_false_iff]
      intro hport
      have hsame := congrArg NfsArgs.portspec (hid { nfsArgsDefaults with portspec := ' ' :: v })
      simp only [effect, setting, hport, if_true, Option.getD_some] at hsame
      exact absurd (congrArg List.length hsame) (by simp)
    have hvers : strcasecmp n vers = false := by
      rw [Bool.eq_false_iff]
      intro hvers
      have hsame := congrArg NfsArgs.vers (hid { nfsArgsDefaults with vers := atoi v + 1 })
      simp only [effect, setting, hport, hvers, if_true, Option.getD_some, Bool.false_eq_true, if_false] at hsame
      omega
    refine ⟨hport, hvers, ?_⟩
    rw [Bool.eq_false_iff]
    intro hexcl
    have hsame := hpasses []
    grind [trymountOption, passedOn, setting]
  · rintro ⟨hport, hvers, hexcl⟩
    refine ⟨?_, ?_⟩
    · intro args
      rw [hkeeps, hparse]
      simp [effect, setting, hport, hvers]
    · intro ma
      rw [hparse]
      simp only [trymountOption, passedOn, htake, hbehind, hexcl]
      simp

/-- **One option** of a string. -/
theorem once_iff (w : List Char) : Once w ↔ (parseOpt w).Plain := by
  by_cases hmem : '=' ∈ w
  · obtain ⟨n, v, rfl, hn⟩ := eq_append_cons_of_mem hmem
    rw [once_value hn, parseOpt_value hn]
    simp [Opt.Plain]
  · rw [parseOpt_name hmem]
    simp only [Opt.Plain, Option.isSome_none, Bool.false_eq_true, false_implies, and_true]
    constructor
    · intro honce
      have hset := honce.sets nfsArgsDefaults
      rw [← Bool.not_eq_true, ← Bool.not_eq_true, ← not_or]
      intro hname
      rw [initializeOption_refused hmem hname] at hset
      cases hset
    · rintro ⟨hport, hvers⟩
      exact once_name hmem hport hvers

theorem foldlM_once {ws : List (List Char)} (h : ∀ w ∈ ws, Once w) :
    (∀ args, ws.foldlM (fun a w => initializeOption w a) args = .ok ((ws.map parseOpt).foldl effect args)) ∧
      ∀ ma, ws.foldlM (fun a w => trymountOption w a) ma = .ok (ma ++ (ws.map parseOpt).filterMap passedOn) := by
  induction ws with
  | nil => exact ⟨fun _ => rfl, fun ma => by simp [pure, Except.pure]⟩
  | cons w ws ih =>
    obtain ⟨hsets, hpasses⟩ := ih fun w' hw' => h w' (mem_cons_of_mem _ hw')
    have honce := h w mem_cons_self
    refine ⟨?_, ?_⟩
    · intro args
      rw [foldlM_cons, honce.sets]
      exact hsets _
    · intro ma
      rw [foldlM_cons, honce.passes]
      refine (hpasses _).trans ?_
      rw [map_cons, filterMap_cons, append_assoc]
      cases passedOn (parseOpt w) <;> rfl

end Options

/-- **The options of a mount**: each has its one effect exactly if none is called `port` or `vers`, and none that is
    excluded has a value. -/
theorem options_eachOnce_iff (data : List Char) (hlen : data.length < 64) :
    EachOnce data ↔ ∀ o ∈ options data, o.Plain := by
  have hopts : (∀ o ∈ options data, o.Plain) ↔ ∀ w ∈ data.splitOn ',', Once w := by
    simp [options, once_iff]
  rw [hopts]
  refine ⟨fun h => h.each, ?_⟩
  intro honce
  obtain ⟨hsets, hpasses⟩ := foldlM_once honce
  refine ⟨honce, ?_, ?_⟩
  · intro args
    unfold initializeOptions
    rw [if_neg (Nat.not_le.mpr hlen), optionLoop_eq]
    exact hsets args
  · intro ma
    unfold trymountOptions
    rw [take_of_length_le (by omega), optionLoop_eq]
    exact hpasses ma

/-- `NFSv3,udp` -/
def plainOptions : List Char := ['N', 'F', 'S', 'v', '3', ',', 'u', 'd', 'p']

theorem options_eachOnce_iff_plainOptions : EachOnce plainOptions := by
  refine (options_eachOnce_iff plainOptions (by decide)).mpr ?_
  simp only [Opt.Plain]
  decide

/-- `port=700,vers=3` -/
def valuedOptions : List Char :=
  ['p', 'o', 'r', 't', '=', '7', '0', '0', ',', 'v', 'e', 'r', 's', '=', '3']

/-- **A port and a version that are lost**: they are not set, and not passed on. -/
theorem valuedOptions_lost :
    initializeOptions valuedOptions nfsArgsDefaults = .ok nfsArgsDefaults ∧
      trymountOptions valuedOptions [] = .ok [] ∧ ¬ EachOnce valuedOptions := by
  have hsets : initializeOptions valuedOptions nfsArgsDefaults = .ok nfsArgsDefaults := by
    unfold initializeOptions
    rw [if_neg (by decide), optionLoop_eq]
    decide
  refine ⟨hsets, ?_, ?_⟩
  · unfold trymountOptions
    rw [optionLoop_eq]
    decide
  · intro h
    have hrun := h.sets nfsArgsDefaults
    rw [hsets] at hrun
    revert hrun
    decide

end RtemsLibbsd.NfsOptions
