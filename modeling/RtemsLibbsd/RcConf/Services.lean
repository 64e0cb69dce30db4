import RtemsLibbsd.Chain
import RtemsLibbsd.Transition

/-!
# Services of rc.conf

Model of `rtems_bsd_rc_conf_service_add` and `rtems_bsd_rc_conf_service_remove` of
`rtemsbsd/rtems/rtems-bsd-rc-conf.c`.

* Strings are lists of characters without their terminating null character.
* The chain of services is a list; a service is known by its address.  A node that was extracted
  keeps its links, which `rtems_chain_is_first` and `rtems_chain_previous` read if the search for a
  name of the `before` list stops at the new service itself.
* The results of the allocations are chosen by the caller of the model (`Memory`).
-/

namespace RtemsLibbsd.RcConf

def strncasecmp (a b : List Char) (n : Nat) : Bool :=
  (a.take n).map Char.toLower == (b.take n).map Char.toLower

def strcasecmp (a b : List Char) : Bool := a.map Char.toLower == b.map Char.toLower

structure Lists where
  before : Option (List Char)
  after : Option (List Char)
  require : Option (List Char)
  deriving DecidableEq

/-- `service`, with its address.  The copy of the control string only has the memory of the lists. -/
structure Service (ε : Type) where
  node : Nat
  name : List Char
  lists : Lists
  entry : ε
  deriving DecidableEq

/-- `errno` of a call that fails. -/
inductive Error where
  | enomem
  | einval
  | enoent

structure Services (ε : Type) where
  chain : List (Service ε)
  next : Nat

/-- What a call comes to; `crash` stands for reading through a null pointer. -/
inductive Outcome (ε : Type) where
  | ok (s : Services ε)
  | error (s : Services ε) (e : Error)
  | crash

def beforeKey : List Char := ['b', 'e', 'f', 'o', 'r', 'e', ':']

def afterKey : List Char := ['a', 'f', 't', 'e', 'r', ':']

def requireKey : List Char := ['r', 'e', 'q', 'u', 'i', 'r', 'e', ':']

def first : List Char := ['f', 'i', 'r', 's', 't']

def last : List Char := ['l', 'a', 's', 't']

/-- What is done at a `;` with the text `s` before it: no result if the keyword is not known or
    repeated. -/
def setList (s : List Char) (lists : Lists) : Option Lists :=
  if strncasecmp beforeKey s beforeKey.length then
    match lists.before with
    | none => some { lists with before := some (s.drop beforeKey.length) }
    | some _ => none
  else if strncasecmp afterKey s afterKey.length then
    match lists.after with
    | none => some { lists with after := some (s.drop afterKey.length) }
    | some _ => none
  else if strncasecmp requireKey s requireKey.length then
    match lists.require with
    | none => some { lists with require := some (s.drop requireKey.length) }
    | some _ => none
  else none

inductive Parsed where
  | lists (l : Lists)
  | einval
  | crash
  deriving DecidableEq

/-- The loop over the control string from `c` on; `s` is the text since the last `;`, or a null
    pointer. -/
def parseControl (c : List Char) (s : Option (List Char)) (lists : Lists) : Parsed :=
  match c with
  | [] => if s.isSome then .einval else .lists lists
  | ch :: c =>
    if ch = ';' then
      match s with
      | none => .crash
      | some text =>
        match setList text lists with
        | none => .einval
        | some lists => parseControl c none lists
    else parseControl c (some (s.getD [] ++ [ch])) lists

section Loops

variable {ε : Type}

/-- The service `ss` has the name of the item at `cs` of length `l`. -/
def isNamed (cs : List Char) (l : Nat) (ss : Service ε) : Bool :=
  ss.name.length == l && strncasecmp ss.name cs l

def itemLength (cc : List Char) : Nat := (cc.takeWhile (· ≠ ',')).length

/-- The search of the loop over the `after` list. -/
def placeAfter (chain : List (Service ε)) (srv : Service ε) (cs : List Char) (l : Nat) :
    List (Service ε) :=
  match chain.find? fun ss => ss.node != srv.node && isNamed cs l ss with
  | none => chain
  | some ss => Chain.insert Service.node (Chain.extract Service.node chain srv.node) ss.node srv

/-- The search of the loop over the `before` list. -/
def placeBefore (chain : List (Service ε)) (srv : Service ε) (cs : List Char) (l : Nat) :
    List (Service ε) :=
  match chain.find? (isNamed cs l) with
  | none => chain
  | some ss =>
    let rest := Chain.extract Service.node chain srv.node
    -- the links of the new service are those it had in the chain
    let links := if ss.node = srv.node then chain else rest
    match Chain.previous Service.node links ss.node with
    | none => srv :: rest
    | some sp => Chain.insert Service.node rest sp srv

theorem item_shorter {cc kw : List Char} (h : strncasecmp cc kw (itemLength cc) = false) :
    (cc.drop (itemLength cc)).length < cc.length := by
  have hpos : itemLength cc ≠ 0 := by
    intro h0
    simp [h0, strncasecmp] at h
  have hle : itemLength cc ≤ cc.length := (List.takeWhile_sublist _).length_le
  rw [List.length_drop]
  omega

/-- A loop over a list from `cc` on: no chain if it fails, which it does at the keyword `stop`.  The
    comma behind an item is not skipped. -/
def itemLoop (stop : List Char) (place : List (Service ε) → List Char → Nat → List (Service ε))
    (cc : List Char) (chain : List (Service ε)) : Option (List (Service ε)) :=
  if cc = [] then some chain
  else if _ : strncasecmp cc stop (itemLength cc) then none
  else itemLoop stop place (cc.drop (itemLength cc)) (place chain cc (itemLength cc))
termination_by cc.length
decreasing_by exact item_shorter (Bool.eq_false_iff.mpr ‹_›)

/-- The loop over the `after` list; for `first`, the service is already prepended. -/
def afterLoop (srv : Service ε) : List Char → List (Service ε) → Option (List (Service ε)) :=
  itemLoop last fun chain cs l => if strncasecmp cs first l then chain else placeAfter chain srv cs l

/-- The loop over the `before` list. -/
def beforeLoop (srv : Service ε) : List Char → List (Service ε) → Option (List (Service ε)) :=
  itemLoop first fun chain cs l =>
    if strncasecmp cs last l then Chain.extract Service.node chain srv.node ++ [srv]
    else placeBefore chain srv cs l

/-- The results of `malloc` and of the two calls to `strdup`. -/
structure Memory where
  service : Bool
  name : Bool
  control : Bool

/-- `rtems_bsd_rc_conf_service_add`. -/
def serviceAdd (s : Services ε) (name : List Char) (control : Option (List Char)) (entry : ε)
    (mem : Memory) : Outcome ε :=
  if mem.service = false then .error s .enomem
  else if mem.name = false ∨ control.isSome ∧ mem.control = false then .error s .enomem
  else
    let taken := { s with next := s.next + 1 }
    match control with
    | none =>
      let srv := ⟨s.next, name, ⟨none, none, none⟩, entry⟩
      .ok { taken with chain := s.chain ++ [srv] }
    | some ctl =>
      match parseControl ctl (some []) ⟨none, none, none⟩ with
      | .crash => .crash
      | .einval => .error taken .einval
      | .lists lists =>
        let srv := ⟨s.next, name, lists, entry⟩
        match afterLoop srv (lists.after.getD []) (srv :: s.chain) with
        | none => .error taken .einval
        | some chain =>
          match beforeLoop srv (lists.before.getD []) chain with
          | none => .error taken .einval
          | some chain => .ok { taken with chain := chain }

/-- `rtems_bsd_rc_conf_service_remove`. -/
def serviceRemove (s : Services ε) (name : List Char) : Outcome ε :=
  match s.chain.find? fun srv => strcasecmp name srv.name with
  | some srv => .ok { s with chain := Chain.extract Service.node s.chain srv.node }
  | none => .error s .enoent

end Loops

inductive Act (ε : Type) where
  | add (name : List Char) (control : Option (List Char)) (entry : ε) (mem : Memory)
  | remove (name : List Char)

def serviceStep {ε : Type} (s : Services ε) (a : Act ε) : Option (Services ε) :=
  let outcome := match a with
    | .add name control entry mem => serviceAdd s name control entry mem
    | .remove name => serviceRemove s name
  match outcome with
  | .ok t | .error t _ => some t
  | .crash => none

def noServices {ε : Type} : Services ε := ⟨[], 0⟩

end RtemsLibbsd.RcConf
