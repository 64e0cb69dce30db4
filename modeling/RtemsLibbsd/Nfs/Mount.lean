import Mathlib.Algebra.Group.Nat.Defs
import RtemsLibbsd.Heap
import RtemsLibbsd.Transition

/-!
# Mounting an NFS

Model of `rtems_nfs_initialize`, `nfs_fsunmount_me` and the node operations of
`rtemsbsd/nfsclient/nfs.c`, with `rpcUdpServerCreate`, `rpcUdpServerDestroy` and `rpcUdpCallRp` of
`rpcio.c` as far as they allocate and release objects.

* All objects live in one `Heap`: credentials, server records, transactions of single calls,
  `NfsRec`, `NfsNodeRec` and the names attached to nodes.
* The results of allocations, of the C library and of the calls to a server are chosen by the
  actions (`ServerEnv`, `CallEnv`, `MountEnv`).  A failed assertion, a null pointer that is followed
  and a fatal error end the run (`Outcome.fatal`).
* `rpcUdpInit` and `nfsInit` set up the drivers once; the transactions of `nfscall` belong to pools
  that keep them.  Neither is an object of a mount.
-/

namespace RtemsLibbsd.NfsMount

open RtemsLibbsd.Transition

/-- Objects: `AUTH`, `RpcUdpServerRec`, `RpcUdpXactRec`, `NfsRec`, `NfsNodeRec` and a name. -/
inductive Obj where
  | auth
  | server (auth : Nat)
  | xact
  | nfs (server : Nat) (nodesInUse : Int) (id : Nat)
  | node (nfs : Nat) (str : Option Nat)
  | str

/-- The `fs_info` and the root node of a mount table entry. -/
structure Mount where
  nfs : Nat
  root : Nat
  deriving DecidableEq

/-- `nfsGlob`, the list `rpcUdpServers` and the mount table entries of NFS. -/
structure Driver where
  heap : Heap Obj
  rpcUdpServers : List Nat
  mountedFs : List Nat
  numMountedFs : Int
  fsIds : Nat
  mounts : List Mount

/-- What a call comes to: a result, an error, or the end of the system. -/
inductive Outcome (α : Type) where
  | ok (s : Driver) (a : α)
  | error (s : Driver)
  | fatal

def Driver.alloc (s : Driver) (o : Obj) : Driver := { s with heap := s.heap.alloc o }

def Driver.free (s : Driver) (i : Nat) : Driver := { s with heap := s.heap.free i }

def Driver.misused (s : Driver) : Driver := { s with heap := { s.heap with misuse := true } }

/-- The results that `rpcUdpServerCreate` depends on for a known port: `gethostname`, `getgroups`,
    `authunix_create` and the allocation of the record. -/
structure PortEnv where
  hostname : Bool
  groups : Bool
  auth : Bool
  record : Bool

/-- Of a call with `rpcUdpCallRp`: the server, the transaction and the call. -/
structure CallEnv (ε : Type) where
  server : ε
  xact : Bool
  call : Bool

/-- Of `rpcUdpServerCreate` without a port: the answer of the port mapper comes in between. -/
structure ServerEnv where
  hostname : Bool
  groups : Bool
  auth : Bool
  pmap : CallEnv PortEnv
  port : Nat
  record : Bool

/-- `rpcUdpServerCreate` from the allocation of the record on; the record is not checked. -/
def linkServer (s : Driver) (auth : Nat) (record : Bool) : Outcome Nat :=
  if record then
    let i := s.heap.next
    let s := s.alloc (.server auth)
    .ok { s with rpcUdpServers := i :: s.rpcUdpServers } i
  else .fatal

/-- `rpcUdpServerCreate` for an address with a port. -/
def serverCreateAt (s : Driver) (env : PortEnv) : Outcome Nat :=
  if env.hostname && env.groups && env.auth then
    linkServer (s.alloc .auth) s.heap.next env.record
  else .error s

def rpcUdpServerDestroy (s : Driver) (i : Nat) : Driver :=
  match s.heap.obj i with
  | some (.server auth) =>
    if i ∈ s.rpcUdpServers then
      (({ s with rpcUdpServers := s.rpcUdpServers.erase i }).free auth).free i
    else s.misused
  | _ => s.misused

/-- `rpcUdpCallRp` once the server of the client was created or not. -/
def callRp {ε : Type} (created : Outcome Nat) (env : CallEnv ε) : Outcome Unit :=
  match created with
  | .fatal => .fatal
  | .error s => .error s
  | .ok s srv =>
    if env.xact then
      let x := s.heap.next
      let s := (rpcUdpServerDestroy (s.alloc .xact) srv).free x
      if env.call then .ok s () else .error s
    else .error (rpcUdpServerDestroy s srv)

/-- `rpcUdpServerCreate` for an address without a port. -/
def rpcUdpServerCreate (s : Driver) (env : ServerEnv) : Outcome Nat :=
  if env.hostname && env.groups && env.auth then
    let auth := s.heap.next
    let s := s.alloc .auth
    match callRp (serverCreateAt s env.pmap.server) env.pmap with
    | .fatal => .fatal
    | .error s => .error s
    | .ok s _ => if env.port = 0 then .error s else linkServer s auth env.record
  else .error s

def mntcall (s : Driver) (env : CallEnv ServerEnv) : Outcome Unit :=
  callRp (rpcUdpServerCreate s env.server) env

/-- `buildIpAddr` for a device `[<uid>.<gid>@]<host>:<path>`: the host and the path.  `scanIds` says
    whether `sscanf` finds the two numbers, `resolve` whether `gethostbyname` knows the host. -/
def buildIpAddr (scanIds resolve : List Char → Bool) (dev : Option (List Char)) :
    Option (List Char × List Char) :=
  match dev with
  | none => none
  | some dev =>
    if '@' ∈ dev ∧ scanIds dev = false then none
    else
      let chpt := if '@' ∈ dev then (dev.dropWhile (· ≠ '@')).drop 1 else dev
      let host := chpt.takeWhile (· ≠ ':')
      if ':' ∉ chpt ∨ 63 ≤ host.length then none
      else if resolve host then some (host, (chpt.dropWhile (· ≠ ':')).drop 1) else none

def nfsCreate (s : Driver) (server : Nat) : Driver :=
  let f := s.heap.next
  let s := s.alloc (.nfs server 0 0)
  { s with mountedFs := f :: s.mountedFs }

def nfsDestroy (s : Driver) (f : Nat) : Driver :=
  match s.heap.obj f with
  | some (.nfs server _ _) =>
    if f ∈ s.mountedFs then
      (rpcUdpServerDestroy { s with mountedFs := s.mountedFs.erase f } server).free f
    else s.misused
  | _ => s.misused

/-- `node->nfs->nodesInUse += d`. -/
def addNodes (s : Driver) (f : Nat) (d : Int) : Driver :=
  match s.heap.obj f with
  | some (.nfs server n id) => { s with heap := s.heap.set f (.nfs server (n + d) id) }
  | _ => s.misused

/-- `nfsNodeCreate`, once there is memory. -/
def nfsNodeCreate (s : Driver) (f : Nat) : Driver := addNodes (s.alloc (.node f none)) f 1

def nfsNodeDestroy (s : Driver) (n : Nat) : Driver :=
  match s.heap.obj n with
  | some (.node f str) =>
    let s := addNodes s f (-1)
    let s := match str with
      | none => s
      | some c => s.free c
    s.free n
  | _ => s.misused

/-- The results that `nfsNodeClone` depends on: the node, its name, the attributes. -/
structure CloneEnv where
  node : Bool
  name : Bool
  attr : Bool

/-- `nfsNodeClone`: the driver and the new node. -/
def nfsNodeClone (s : Driver) (n : Nat) (env : CloneEnv) : Driver × Option Nat :=
  match s.heap.obj n with
  | some (.node f str) =>
    if env.node then
      let new := s.heap.next
      let s := nfsNodeCreate s f
      match str with
      | none => if env.attr then (s, some new) else (nfsNodeDestroy s new, none)
      | some _ =>
        if env.name then
          let c := s.heap.next
          let s := s.alloc .str
          let s := { s with heap := s.heap.set new (.node f (some c)) }
          if env.attr then (s, some new) else (nfsNodeDestroy s new, none)
        else (nfsNodeDestroy s new, none)
    else (s, none)
  | _ => (s.misused, none)

/-- `nfs_move_node`: the node becomes the one of the next path component, `name` says whether there
    is memory for its name. -/
def nfsMoveNode (s : Driver) (n : Nat) (name : Bool) : Driver :=
  match s.heap.obj n with
  | some (.node f str) =>
    let s := match str with
      | none => s
      | some c => s.free c
    if name then
      let c := s.heap.next
      let s := s.alloc .str
      { s with heap := s.heap.set n (.node f (some c)) }
    else { s with heap := s.heap.set n (.node f none) }
  | _ => s.misused

/-- `errno` of a failed mount. -/
inductive MountError where
  | init
  | einval
  | eprotonosupport
  | eio
  | errno (e : Nat)

/-- The results that `rtems_nfs_initialize` depends on: of the initializations, for the device, of
    the creation of the server, of the ping (or its `errno`), of the mount call, the status the
    server answered, of two allocations, and of reading the root attributes (or its `errno`,
    which is not zero). -/
structure MountEnv where
  rpcUdpInit : Bool
  nfsInit : Bool
  dev : Option (List Char)
  scanIds : List Char → Bool
  resolve : List Char → Bool
  server : ServerEnv
  ping : Option Nat
  mnt : CallEnv ServerEnv
  fhsStatus : Nat
  nfs : Bool
  node : Bool
  attr : Option Nat

/-- What `rtems_nfs_initialize` comes to: it returns 0, or -1 with `errno` set. -/
inductive MountOutcome where
  | returns (s : Driver) (e : Option MountError)
  | fatal

/-- The block at `cleanup`. -/
def cleanup (s : Driver) (nfs server root : Option Nat) (e : Option MountError) : MountOutcome :=
  let s := nfs.elim s (nfsDestroy s)
  let s := server.elim s (rpcUdpServerDestroy s)
  let s := root.elim s (nfsNodeDestroy s)
  .returns s e

def enter (s : Driver) (f root : Nat) : Driver :=
  match s.heap.obj f with
  | some (.nfs server n _) =>
    { s with
      heap := s.heap.set f (.nfs server n s.fsIds)
      numMountedFs := s.numMountedFs + 1
      fsIds := (s.fsIds + 1) % 2 ^ 16
      mounts := ⟨f, root⟩ :: s.mounts }
  | _ => s.misused

def rtemsNfsInitialize (s : Driver) (env : MountEnv) : MountOutcome :=
  if env.rpcUdpInit = false ∨ env.nfsInit = false then .returns s (some .init)
  else if buildIpAddr env.scanIds env.resolve env.dev = none then .returns s (some .einval)
  else
    match rpcUdpServerCreate s env.server with
    | .fatal => .fatal
    | .error s => cleanup s none none none (some .eprotonosupport)
    | .ok s srv =>
      match env.ping with
      | some e => cleanup s none (some srv) none (some (if e = 0 then .eio else .errno e))
      | none =>
        match mntcall s env.mnt with
        | .fatal => .fatal
        | .error s => cleanup s none (some srv) none (some .eio)
        | .ok s _ =>
          if env.fhsStatus ≠ 0 then cleanup s none (some srv) none (some (.errno env.fhsStatus))
          else if env.nfs = false then .fatal
          else
            let f := s.heap.next
            let s := nfsCreate s srv
            if env.node = false then .fatal
            else
              let root := s.heap.next
              let s := nfsNodeCreate s f
              match env.attr with
              | some e => cleanup s (some f) none (some root) (some (.errno (e + 1)))
              | none => cleanup (enter s f root) none none none none

/-- The results that `nfs_fsunmount_me` depends on. -/
structure UnmountEnv where
  dev : Option (List Char)
  scanIds : List Char → Bool
  resolve : List Char → Bool
  mnt : CallEnv ServerEnv

/-- `nfs_fsunmount_me`: it unmounts, it does nothing because the call failed, or it refuses with a
    fatal error. -/
def nfsFsunmountMe (s : Driver) (m : Mount) (env : UnmountEnv) : Outcome Unit :=
  match s.heap.obj m.nfs with
  | some (.nfs _ n _) =>
    if n > 1 then .fatal
    else if buildIpAddr env.scanIds env.resolve env.dev = none then .fatal
    else
      match mntcall s env.mnt with
      | .fatal => .fatal
      | .error s => .error s
      | .ok s _ =>
        let s := nfsDestroy (nfsNodeDestroy s m.root) m.nfs
        .ok { s with numMountedFs := s.numMountedFs - 1, mounts := s.mounts.erase m } ()
  | _ => .error s.misused

inductive MountAct where
  | mount (env : MountEnv)
  | unmount (m : Mount) (env : UnmountEnv)
  | clone (n : Nat) (env : CloneEnv)
  | move (n : Nat) (name : Bool)
  | destroy (n : Nat)

def Driver.isNode (s : Driver) (n : Nat) : Bool :=
  match s.heap.obj n with
  | some (.node _ _) => true
  | _ => false

/-- One operation.  Locations have nodes, which are cloned, moved and destroyed; the one of a root
    is destroyed when the file system is unmounted. -/
def mountStep (s : Driver) : MountAct → Option Driver
  | .mount env =>
    match rtemsNfsInitialize s env with
    | .returns t _ => some t
    | .fatal => none
  | .unmount m env =>
    if m ∈ s.mounts then
      match nfsFsunmountMe s m env with
      | .ok t _ | .error t => some t
      | .fatal => none
    else none
  | .clone n env => if s.isNode n then some (nfsNodeClone s n env).1 else none
  | .move n name =>
    if s.isNode n ∧ ∀ m ∈ s.mounts, m.root ≠ n then some (nfsMoveNode s n name) else none
  | .destroy n =>
    if s.isNode n ∧ ∀ m ∈ s.mounts, m.root ≠ n then some (nfsNodeDestroy s n) else none

def initDriver : Driver := ⟨.empty, [], [], 0, 0, []⟩

end RtemsLibbsd.NfsMount
