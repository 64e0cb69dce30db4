import Mathlib.Logic.Function.Basic
import Mathlib.Tactic.Basic

/-!
# The default route of the PPP daemon

`dodefaultroute` of the PPP daemon sets and clears the default route through `rtems_bsdnet_rtrequest`,
which builds an address block and hands it to `rib_action` of the kernel's route control.

* `RtTable` — the IPv4 routing table, prefixes to next hops; `rnMatch`, `rnLookup` — the search in it.
* `ribAddRoute`, `ribDelRoute`, `ribChangeRoute`, `ribAction` — route control, one next hop a prefix.
* `rtemsBsdnetRtrequest`, `dodefaultroute` — the two layers above it.  `none` is an access through a
  null pointer.

Results:

* `default_route_contract` — setting and clearing are never inverse to each other, since the absent
  result pointer is followed on the way.  The request executes its command exactly when the command is
  an addition and the caller passes the storage for the result.
-/

namespace RtemsLibbsd.Routes

/-! ## The table -/

abbrev Ip := BitVec 32

/-- `RTAX_GATEWAY`: an address, or an interface by its index. -/
inductive Gateway where
  | inet (sinAddr : Ip)
  | link (sdlIndex : Nat)
deriving DecidableEq

/-- The flags of a request that route control looks at or keeps. -/
structure RtFlags where
  rtfUp : Bool
  rtfGateway : Bool
  rtfHost : Bool
  rtfStatic : Bool
  rtfPinned : Bool

/-- `struct nhop_object`. -/
structure Nhop where
  gwSa : Gateway
  nhfGateway : Bool
  rtfStatic : Bool
  pinned : Bool
  nhIfa : Nat

structure Prefix where
  rtDst : Ip
  rtMask : Option Nat
deriving DecidableEq

abbrev RtTable := Prefix → Option Nhop

/-- `INADDR_ANY` under the mask of length zero. -/
def defaultPrefix : Prefix := ⟨0, some 0⟩

def netmask : Option Nat → Ip
  | none => BitVec.allOnes 32
  | some len => BitVec.allOnes 32 <<< (32 - len)

/-- The masks of one key, the most specific one first: the chain of `rn_dupedkey`. -/
def dupedkeys : List (Option Nat) := none :: (List.range 33).reverse.map some

/-- `rn_match`: the most specific route to an address. -/
def rnMatch (t : RtTable) (dst : Ip) : Option Prefix :=
  dupedkeys.findSome? fun m =>
    if (t ⟨dst &&& netmask m, m⟩).isSome then some ⟨dst &&& netmask m, m⟩ else none

/-- `rn_lookup`: the match and from there along its chain. -/
def rnLookup (t : RtTable) (dst : Ip) (m : Option Nat) : Option Prefix :=
  match rnMatch t dst with
  | none => none
  | some p =>
    if m ∈ dupedkeys.dropWhile (fun m' => m' ≠ p.rtMask) ∧ (t ⟨p.rtDst, m⟩).isSome then
      some ⟨p.rtDst, m⟩
    else none

/-! ## Route control -/

inductive Errno where
  | einval
  | enetunreach
  | enobufs
  | enomem
  | eexist
  | esrch
  | eaddrinuse
  | enotsup

/-- `struct rt_addrinfo` with the slots that a request of this interface fills. -/
structure RtAddrinfo where
  rtiFlags : RtFlags
  rtaxDst : Ip
  rtaxGateway : Option Gateway
  rtaxNetmask : Option Nat

/-- `struct rib_cmd_info`. -/
structure RibCmdInfo where
  rcCmd : Nat
  rcNhOld : Option Nhop
  rcNhNew : Option Nhop

def RTM_ADD : Nat := 1
def RTM_DELETE : Nat := 2
def RTM_CHANGE : Nat := 3

/-- What the rest of the kernel answers to a request: the interface address for a gateway, the
interface indices and the allocators. -/
structure Kernel where
  rtGetifaFib : RtTable → RtAddrinfo → Option Nat
  ifnetByindex : Nat → Bool
  rtAlloc : Bool
  nhopAlloc : Bool

def setNhopGwFromInfo (k : Kernel) (info : RtAddrinfo) (gw : Gateway) (nh : Nhop) : Except Errno Nhop :=
  match gw with
  | .link i =>
    if info.rtiFlags.rtfGateway then .ok { nh with gwSa := gw, nhfGateway := true }
    else if k.ifnetByindex i then .ok { nh with gwSa := gw, nhfGateway := false }
    else .error .einval
  | .inet _ => .ok { nh with gwSa := gw, nhfGateway := info.rtiFlags.rtfGateway }

def nhopCreateFromInfo (k : Kernel) (info : RtAddrinfo) (ifa : Nat) : Except Errno Nhop :=
  match info.rtaxGateway with
  | none => .error .einval
  | some gw =>
    if ¬ k.nhopAlloc then .error .enomem
    else
      setNhopGwFromInfo k info gw
        { gwSa := gw, nhfGateway := false, rtfStatic := info.rtiFlags.rtfStatic,
          pinned := info.rtiFlags.rtfPinned, nhIfa := ifa }

def addMask (info : RtAddrinfo) : Except Errno (Option Nat) :=
  if info.rtiFlags.rtfHost then .ok none
  else
    match info.rtaxNetmask with
    | none => .error .einval
    | some len => .ok (some len)

/-- `rib_add_route`, `add_route_byinfo` and `add_route_flags`. -/
def ribAddRoute (k : Kernel) (info : RtAddrinfo) (t : RtTable) : Except Errno (RtTable × RibCmdInfo) :=
  match addMask info with
  | .error e => .error e
  | .ok m =>
    if info.rtiFlags.rtfGateway ∧ info.rtaxGateway = none then .error .einval
    else
      match k.rtGetifaFib t info with
      | none => .error .enetunreach
      | some ifa =>
        if ¬ k.rtAlloc then .error .enobufs
        else
          match nhopCreateFromInfo k info ifa with
          | .error e => .error e
          | .ok nh =>
            match rnLookup t (info.rtaxDst &&& netmask m) m with
            | none =>
              .ok (Function.update t ⟨info.rtaxDst &&& netmask m, m⟩ (some nh), ⟨RTM_ADD, none, some nh⟩)
            | some _ => .error .eexist

/-- `rib_del_route` and `rt_delete_conditional`. -/
def ribDelRoute (info : RtAddrinfo) (t : RtTable) : Except Errno (RtTable × RibCmdInfo) :=
  match rnLookup t (info.rtaxDst &&& netmask info.rtaxNetmask) info.rtaxNetmask with
  | none => .error .esrch
  | some p =>
    match t p with
    | none => .error .esrch
    | some nh =>
      -- `match_gw_one` is the filter when the request names a gateway
      if info.rtaxGateway.any (· ≠ nh.gwSa) then .error .esrch
      else if nh.pinned ∧ ¬ info.rtiFlags.rtfPinned then .error .eaddrinuse
      else .ok (Function.update t p none, ⟨RTM_DELETE, some nh, none⟩)

/-- `change_nhop` with `alter_nhop_from_info`. -/
def changeNhop (k : Kernel) (info : RtAddrinfo) (t : RtTable) (nh : Nhop) : Except Errno Nhop :=
  let info := { info with
    rtiFlags := { info.rtiFlags with
      rtfGateway := info.rtiFlags.rtfGateway && info.rtaxGateway.isSome } }
  let ifa? : Except Errno (Option Nat) :=
    if nh.nhfGateway ∧ info.rtaxGateway.isSome then
      match k.rtGetifaFib t info with
      | none => .error .enetunreach
      | some ifa => .ok (some ifa)
    else .ok none
  match ifa? with
  | .error e => .error e
  | .ok ifa? =>
    if ¬ k.nhopAlloc then .error .enomem
    else
      let nh := { nh with rtfStatic := info.rtiFlags.rtfStatic, nhIfa := ifa?.getD nh.nhIfa }
      match info.rtaxGateway with
      | none => .ok nh
      | some gw => setNhopGwFromInfo k info gw nh

def ribChangeRoute (k : Kernel) (info : RtAddrinfo) (t : RtTable) :
    Except Errno (RtTable × RibCmdInfo) :=
  match rnLookup t info.rtaxDst info.rtaxNetmask with
  | none => .error .esrch
  | some p =>
    match t p with
    | none => .error .esrch
    | some nh =>
      match changeNhop k info t nh with
      | .error e => .error e
      | .ok nh' => .ok (Function.update t p (some nh'), ⟨RTM_CHANGE, some nh, some nh'⟩)

def ribAction (k : Kernel) (action : Nat) (info : RtAddrinfo) (t : RtTable) :
    Except Errno (RtTable × RibCmdInfo) :=
  if action = RTM_ADD then ribAddRoute k info t
  else if action = RTM_DELETE then ribDelRoute info t
  else if action = RTM_CHANGE then ribChangeRoute k info t
  else .error .enotsup

/-! ## The legacy request and the daemon -/

/-- The outcome of a request: its return value, `errno` where it is set, the table. -/
structure Reply where
  ret : Int
  errno : Option Errno
  table : RtTable

def reply (t : RtTable) : Except Errno (RtTable × RibCmdInfo) → Reply
  | .error e => ⟨-1, some e, t⟩
  | .ok (t', _) => ⟨0, none, t'⟩

/-- The pointer argument `rc`: null, or the address of a pointer that may itself be null. -/
abbrev ResultPointer := Option (Option RibCmdInfo)

def rtemsBsdnetRtrequest (k : Kernel) (_req : Nat) (dst : Ip) (gateway : Option Gateway)
    (netmask : Option Nat) (flags : RtFlags) (rc : ResultPointer) (t : RtTable) : Option Reply :=
  let info : RtAddrinfo := ⟨flags, dst, gateway, netmask⟩
  -- `*rc` is an argument of the call
  match rc with
  | none => none
  | some none =>
    -- `rib_add_route` clears the result once the mask has passed its check
    match addMask info with
    | .error e => some (reply t (.error e))
    | .ok _ => none
  | some (some _) => some (reply t (ribAction k RTM_ADD info t))

/-- `RTF_UP|RTF_GATEWAY|RTF_STATIC` and `RTF_UP|RTF_STATIC`. -/
def defaultFlags (gateway : Bool) : RtFlags := ⟨true, gateway, false, true, false⟩

/-- The commands `'s'` and `'c'`. -/
inductive RouteCmd where
  | set
  | clear

/-- What `dodefaultroute` leaves: its return value, the table and `default_route_gateway`. -/
structure DefaultRoute where
  ret : Int
  table : RtTable
  defaultRouteGateway : Ip

/-- `dodefaultroute`; the return value of the request is not looked at. -/
def dodefaultroute (k : Kernel) (g : Ip) (cmd : RouteCmd) (t : RtTable) : Option DefaultRoute :=
  match cmd with
  | .set =>
    (rtemsBsdnetRtrequest k RTM_ADD 0 (some (.inet g)) (some 0) (defaultFlags true) none t).map fun r =>
      ⟨1, r.table, g⟩
  | .clear =>
    (rtemsBsdnetRtrequest k RTM_DELETE 0 (some (.inet 0)) (some 0) (defaultFlags false) none t).map
      fun r => ⟨1, r.table, 0⟩

/-- A request for the default route of the shape that `dodefaultroute` builds. -/
def defaultInfo (fl : RtFlags) (gw : Option Gateway) : RtAddrinfo := ⟨fl, 0, gw, some 0⟩

/-! ## The contract -/

/-- Setting and then clearing restores the table, and neither step touches another route. -/
def SetClearInverse (k k' : Kernel) (t : RtTable) (g : Ip) : Prop :=
  ∃ s c, dodefaultroute k g .set t = some s ∧ dodefaultroute k' g .clear s.table = some c ∧
    c.table = t ∧ ∀ q ≠ defaultPrefix, s.table q = t q ∧ c.table q = t q

/-- The request executes its command, for every kernel, address block and table. -/
def ExecutesCommand (req : Nat) (rc : ResultPointer) : Prop :=
  ∀ (k : Kernel) (info : RtAddrinfo) (t : RtTable),
    rtemsBsdnetRtrequest k req info.rtaxDst info.rtaxGateway info.rtaxNetmask info.rtiFlags rc t =
      some (reply t (ribAction k req info t))

def readyKernel : Kernel := ⟨fun _ _ => some 1, fun _ => true, true, true⟩

theorem ribAction_empty {req : Nat} (k : Kernel) (info : RtAddrinfo) (hreq : req ≠ RTM_ADD) :
    ∃ e, ribAction k req info (fun _ => none) = .error e := by
  have hlookup (dst : Ip) (m : Option Nat) : rnLookup (fun _ => none) dst m = none := by
    unfold rnLookup
    grind
  unfold ribAction
  rw [if_neg hreq]
  split
  · exact ⟨_, rfl⟩
  · split
    · exact ⟨_, rfl⟩
    · exact ⟨_, rfl⟩

theorem executesCommand_iff (req : Nat) (rc : ResultPointer) :
    ExecutesCommand req rc ↔ req = RTM_ADD ∧ ∃ i, rc = some (some i) := by
  constructor
  · intro h
    have hready := h readyKernel (defaultInfo (defaultFlags false) (some (.inet 0))) fun _ => none
    -- the reply to the addition of a default route to an empty table is a success
    match rc, hready with
    | none, hready => cases hready
    | some none, hready => cases hready
    | some (some i), hready =>
      refine ⟨?_, i, rfl⟩
      by_contra hreq
      obtain ⟨e, he⟩ := ribAction_empty readyKernel
        (defaultInfo (defaultFlags false) (some (.inet 0))) hreq
      rw [he] at hready
      have hadded : (rtemsBsdnetRtrequest readyKernel req 0 (some (.inet 0)) (some 0)
          (defaultFlags false) (some (some i)) fun _ => none).map Reply.ret = some 0 := rfl
      have hfailed := hadded.symm.trans (congrArg (Option.map Reply.ret) hready)
      cases hfailed
  · rintro ⟨rfl, i, rfl⟩ k info t
    rfl

/-- **The default route of the daemon**: setting and clearing it are never inverse to each other,
since both follow the absent result pointer, and the request executes the command it was asked for
exactly when that is an addition and the caller passes the storage for the result. -/
theorem default_route_contract (k k' : Kernel) (t : RtTable) (g : Ip) (req : Nat) (rc : ResultPointer) :
    ¬ SetClearInverse k k' t g ∧ (ExecutesCommand req rc ↔ req = RTM_ADD ∧ ∃ i, rc = some (some i)) := by
  refine ⟨?_, executesCommand_iff req rc⟩
  rintro ⟨s, c, hs, -⟩
  cases hs

/-- The gateway 192.168.0.1, an empty table and a kernel that refuses nothing. -/
theorem set_clear_faults : ¬ SetClearInverse readyKernel readyKernel (fun _ => none) 0xc0a80001#32 ∧
    dodefaultroute readyKernel 0xc0a80001#32 .set (fun _ => none) = none := by
  refine ⟨?_, rfl⟩
  rintro ⟨s, c, hs, -⟩
  cases hs

end RtemsLibbsd.Routes
