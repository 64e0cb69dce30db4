import RtemsLibbsd.BufferRing
import RtemsLibbsd.Slist
import RtemsLibbsd.Transition

/-!
# The output queues of a PPP unit

Model of the ways of a packet behind `pppoutput` (`if_ppp.c`): the network protocol queue with its tail pointer,
`ppp_requeue`, the fast queue, the send queue of the interface, the current packet of `ppp_txdaemon`, `pppdealloc`
and `pppalloc` with the part of `pppopen` for these fields.

* `Pkt` — an mbuf chain: its arrival number, and what `pppoutput` writes into it.
* `OutQueues` — the queues.  `np` are the link `sc_npqueue` and the `m_nextpkt` links, `sc_npqtail` is the address
  of one of them; `given`, `freed` and `sent` record what was handed to `pppoutput`, to `m_freem` and to the
  transmit daemon.
* `outStep` — the operations, one at a time: they run under the lock of the network stack.
* `Owned` — every chain is in one place or was freed once, `sc_npqtail` is the address behind the last packet held
  back, and the packets of the network protocol are sent in the order of their arrival, but for those with low
  delay, which may go first.

A packet that `ppp_requeue` takes off the network protocol queue when its destination is full is lost, and
`pppdealloc` leaves the address of a freed packet in `sc_npqtail`.  Nothing else goes wrong: `owned_iff`.
-/

namespace RtemsLibbsd.Ppp

open List RtemsLibbsd.BufferRing RtemsLibbsd.Slist RtemsLibbsd.Transition

abbrev PPP_IP : Nat := 0x21

/-- A chain that was handed to `pppoutput`: its arrival number, `M_HIGHPRI`, `PPP_PROTOCOL` of its header, and
    whether its destination is of the family `AF_INET`. -/
structure Pkt where
  id : Nat
  highpri : Bool
  protocol : Nat
  inet : Bool
  deriving DecidableEq

inductive NPmode where
  | pass
  | drop
  | error
  | queue
  deriving DecidableEq

/-- The destination of a packet: an `AF_INET` packet may ask for low delay, the address of an `AF_UNSPEC` one
    is its header. -/
inductive Dst where
  | inet (lowdelay : Bool)
  | unspec (protocol : Nat)
  | other

/-- The packet with the header and the flag that `pppoutput` computes. -/
def Dst.packet (id : Nat) : Dst → Pkt
  | .inet lowdelay => ⟨id, lowdelay, PPP_IP, true⟩
  | .unspec protocol => ⟨id, false, protocol, false⟩
  | .other => ⟨id, false, 0, false⟩

/-- `ifq_maxlen` of `sc_fastq` and `if_snd`. -/
structure OutLimits where
  fastq : Nat
  snd : Nat

structure OutQueues where
  /-- `sc_devp` is not `NULL`. -/
  devp : Bool
  /-- `IFF_DRV_RUNNING`. -/
  running : Bool
  /-- `IFF_UP`. -/
  up : Bool
  npmode : NPmode
  np : Links Pkt
  npqtail : Address Pkt
  fastq : List Pkt
  snd : List Pkt
  outm : Option Pkt
  given : List Pkt
  freed : List Pkt
  sent : List Pkt

namespace OutQueues

def mFreem (s : OutQueues) (m : Pkt) : OutQueues := { s with freed := s.freed ++ [m] }

/-- `_IF_QFULL`, for the queue that a packet belongs to. -/
def qfull (lim : OutLimits) (s : OutQueues) (m : Pkt) : Bool :=
  if m.highpri then decide (lim.fastq ≤ s.fastq.length) else decide (lim.snd ≤ s.snd.length)

/-- `IF_ENQUEUE`, on the queue that a packet belongs to. -/
def ifEnqueue (s : OutQueues) (m : Pkt) : OutQueues :=
  if m.highpri then { s with fastq := s.fastq ++ [m] } else { s with snd := s.snd ++ [m] }

/-- A packet behind the last one of the network protocol queue. -/
def hold (s : OutQueues) (m : Pkt) : OutQueues :=
  { s with np := (s.np.set s.npqtail (some m)).set (.link m) none, npqtail := .link m }

def heldBack (s : OutQueues) : List Pkt := nodes s.np.next s.given.length s.np.head

def live (s : OutQueues) : List Pkt := s.heldBack ++ (s.fastq ++ (s.snd ++ s.outm.toList))

end OutQueues

/-- The mode of the packets to a destination, `none` if the family is not supported. -/
def Dst.mode (npmode : NPmode) : Dst → Option NPmode
  | .inet _ => some npmode
  | .unspec _ => some .pass
  | .other => none

def Dst.isUnspec : Dst → Bool
  | .unspec _ => true
  | .inet _ | .other => false

/-- `pppoutput`.  There is space for the header in front of the packet, `leading`, or `m_prepend` can allocate it,
    `prepend`; if `m_prepend` cannot it frees the packet. -/
def pppoutput (lim : OutLimits) (s : OutQueues) (dst : Dst) (leading prepend : Bool) : OutQueues :=
  let m0 := dst.packet s.given.length
  let s := { s with given := m0 :: s.given }
  if s.devp = false ∨ s.running = false ∨ (s.up = false ∧ dst.isUnspec = false) then s.mFreem m0
  else
    match dst.mode s.npmode with
    | none | some .error | some .drop => s.mFreem m0
    | some .queue => if leading || prepend then s.hold m0 else s.mFreem m0
    | some .pass =>
      if leading || prepend then
        if s.qfull lim m0 ∧ dst.isUnspec = false then s.mFreem m0 else s.ifEnqueue m0
      else s.mFreem m0

/-- The loop of `ppp_requeue`. -/
def requeueLoop (lim : OutLimits) : Nat → Address Pkt → OutQueues → OutQueues
  | 0, _, s => s
  | n + 1, mpp, s =>
    match s.np.get mpp with
    | none => { s with npqtail := mpp }
    | some m =>
      match if m.protocol = PPP_IP then s.npmode else .pass with
      | .pass =>
        let s := { s with np := (s.np.set mpp (s.np.next m)).set (.link m) none }
        requeueLoop lim n mpp (if s.qfull lim m then s else s.ifEnqueue m)
      | .drop | .error =>
        let s := { s with np := s.np.set mpp (s.np.next m) }
        requeueLoop lim n mpp (s.mFreem m)
      | .queue => requeueLoop lim n (.link m) s

def ppp_requeue (lim : OutLimits) (s : OutQueues) : OutQueues := requeueLoop lim (s.given.length + 1) .head s

/-- `PPPIOCSNPMODE`. -/
def setNpmode (lim : OutLimits) (s : OutQueues) (mode : NPmode) : OutQueues :=
  if mode = s.npmode then s
  else
    let s := { s with npmode := mode }
    if mode = .queue then s else ppp_requeue lim s

/-- `ppp_txdaemon` takes a packet if it has none. -/
def txDequeue (s : OutQueues) : OutQueues :=
  if s.outm = none then
    match s.fastq with
    | m :: ms => { s with fastq := ms, outm := some m, sent := s.sent ++ [m] }
    | [] =>
      match s.snd with
      | m :: ms => { s with snd := ms, outm := some m, sent := s.sent ++ [m] }
      | [] => s
  else s

/-- The current packet is freed: `TX_TRANSMIT`, and in `pppdealloc`. -/
def freeOutm (s : OutQueues) : OutQueues :=
  { s with outm := none, freed := s.freed ++ s.outm.toList }

def if_down (s : OutQueues) : OutQueues :=
  { s with up := false, snd := [], freed := s.freed ++ s.snd }

/-- The loop of `pppdealloc` for the network protocol queue. -/
def freeNpqueue : Nat → OutQueues → OutQueues
  | 0, s => s
  | n + 1, s =>
    match s.np.head with
    | none => s
    | some m => freeNpqueue n (({ s with np := s.np.set .head (s.np.next m) } : OutQueues).mFreem m)

/-- The loop of `pppdealloc` for the fast queue. -/
def freeFastq (s : OutQueues) : OutQueues := { s with fastq := [], freed := s.freed ++ s.fastq }

def pppdealloc (s : OutQueues) : OutQueues :=
  let s := if_down s
  let s := freeOutm { s with running := false, devp := false }
  freeNpqueue s.given.length (freeFastq s)

/-- `pppalloc` and `pppopen`: only a unit that is not in use is taken. -/
def pppalloc (s : OutQueues) : OutQueues :=
  if s.devp then s
  else
    { s with
      npmode := .error
      np := s.np.set .head none
      npqtail := .head
      devp := true
      running := true
      outm := none }

def allocated : OutQueues where
  devp := true
  running := true
  up := false
  npmode := .error
  np := ⟨none, fun _ => none⟩
  npqtail := .head
  fastq := []
  snd := []
  outm := none
  given := []
  freed := []
  sent := []

inductive OutAct where
  | output (dst : Dst) (leading prepend : Bool)
  | npmode (mode : NPmode)
  | dequeue
  /-- `TX_TRANSMIT`. -/
  | complete
  | dealloc
  | alloc
  | ifUp
  | ifDown

def outNext (lim : OutLimits) (s : OutQueues) : OutAct → OutQueues
  | .output dst leading prepend => pppoutput lim s dst leading prepend
  | .npmode mode => setNpmode lim s mode
  | .dequeue => txDequeue s
  | .complete => freeOutm s
  | .dealloc => pppdealloc s
  | .alloc => pppalloc s
  | .ifUp => { s with up := true }
  | .ifDown => if_down s

def outStep (lim : OutLimits) (s : OutQueues) (a : OutAct) : Option OutQueues := some (outNext lim s a)

/-- Of two packets of the network protocol the one that is sent first arrived first, or it asked for low delay and
    the other one did not. -/
def SentBefore (a b : Pkt) : Prop :=
  a.inet = true → b.inet = true → a.id < b.id ∨ (a.highpri = true ∧ b.highpri = false)

/-- Every packet has one owner, and the packets held back will be sent in their order. -/
structure Owned (s : OutQueues) : Prop where
  /-- A packet that was handed over is in one place, once, or was freed exactly once. -/
  account : Account s.given s.freed s.live
  linked : Linked s.np.next s.np.head s.heldBack
  /-- `sc_npqtail` addresses the link behind the last packet of the network protocol queue. -/
  tail : s.npqtail = lastAddress s.heldBack
  order : s.sent.Pairwise SentBefore

/-- `ppp_requeue` meets no full queue, and `pppdealloc` finds no packet that is held back. -/
def Tidy (lim : OutLimits) (s : OutQueues) : OutAct → Prop
  | .npmode .pass =>
    (s.heldBack.filter fun m => m.highpri).length ≤ lim.fastq - s.fastq.length ∧
      (s.heldBack.filter fun m => !m.highpri).length ≤ lim.snd - s.snd.length
  | .dealloc => s.heldBack = []
  | _ => True

/-! ## The loops -/

section Loops

variable {lim : OutLimits} {s : OutQueues} {xs : List Pkt}

variable {m : Pkt}

theorem qfull_of_highpri (hm : m.highpri = true) :
    s.qfull lim m = decide (lim.fastq ≤ s.fastq.length) := if_pos hm

theorem qfull_of_normal (hm : m.highpri = false) :
    s.qfull lim m = decide (lim.snd ≤ s.snd.length) := by
  rw [OutQueues.qfull, hm]
  rfl

theorem append_take (queue ys : List Pkt) (m : Pkt) (maxlen : Nat) (h : queue.length < maxlen) :
    queue ++ [m] ++ ys.take (maxlen - (queue ++ [m]).length) = queue ++ (m :: ys).take (maxlen - queue.length) := by
  have hlen : maxlen - queue.length = maxlen - (queue ++ [m]).length + 1 := by
    rw [length_append, length_singleton]
    omega
  simp [hlen]

theorem append_take_of_full (queue ys zs : List Pkt) (maxlen : Nat) (h : maxlen ≤ queue.length) :
    queue ++ ys.take (maxlen - queue.length) = queue ++ zs.take (maxlen - queue.length) := by
  simp [Nat.sub_eq_zero_of_le h]

variable {n : Nat}

theorem requeueLoop_pass_step (hm : s.np.head = some m) (hip : m.protocol = PPP_IP)
    (hmode : s.npmode = .pass) :
    requeueLoop lim (n + 1) .head s = requeueLoop lim n .head
      (if s.qfull lim m then { s with np := (s.np.set .head (s.np.next m)).set (.link m) none }
        else ({ s with np := (s.np.set .head (s.np.next m)).set (.link m) none } : OutQueues).ifEnqueue m) := by
  rw [requeueLoop, show s.np.get .head = some m from hm]
  dsimp only
  rw [if_pos hip, hmode]
  rfl

theorem requeueLoop_free_step (hm : s.np.head = some m) (hip : m.protocol = PPP_IP)
    (hmode : s.npmode = .drop ∨ s.npmode = .error) :
    requeueLoop lim (n + 1) .head s = requeueLoop lim n .head
      (({ s with np := s.np.set .head (s.np.next m) } : OutQueues).mFreem m) := by
  rw [requeueLoop, show s.np.get .head = some m from hm]
  dsimp only
  rw [if_pos hip]
  rcases hmode with hmode | hmode
  · rw [hmode]
  · rw [hmode]

theorem requeueLoop_end (h : s.np.head = none) (hn : 0 < n) :
    requeueLoop lim n .head s = { s with npqtail := .head } := by
  obtain ⟨k, rfl⟩ : ∃ k, n = k + 1 := ⟨n - 1, by omega⟩
  rw [requeueLoop, show s.np.get .head = none from h]

/-- `ppp_requeue` with packets that may pass: each goes to its queue if that has space, the others are gone. -/
theorem requeueLoop_pass (h : Linked s.np.next s.np.head xs) (hip : ∀ m ∈ xs, m.protocol = PPP_IP)
    (hmode : s.npmode = .pass) (hn : xs.length < n) :
    ∃ np : Links Pkt, np.head = none ∧ requeueLoop lim n .head s = { s with
        np := np
        npqtail := .head
        fastq := s.fastq ++ (xs.filter fun m => m.highpri).take (lim.fastq - s.fastq.length)
        snd := s.snd ++ (xs.filter fun m => !m.highpri).take (lim.snd - s.snd.length) } := by
  induction xs generalizing s n with
  | nil =>
    grind [requeueLoop_end, Linked]
  | cons m xs ih =>
    obtain ⟨k, rfl⟩ : ∃ k, n = k + 1 := ⟨n - 1, by omega⟩
    rw [length_cons] at hn
    obtain ⟨hm, hip⟩ := forall_mem_cons.mp hip
    have hnext := Links.unlink h
    rw [requeueLoop_pass_step h.1 hm hmode]
    cases hp : m.highpri with
    | true =>
      rw [filter_cons_of_pos hp, filter_cons_of_neg (by rw [hp]; decide)]
      by_cases hfull : lim.fastq ≤ s.fastq.length
      · rw [qfull_of_highpri hp, decide_eq_true hfull, if_pos rfl]
        obtain ⟨np, hnp, heq⟩ := ih (n := k) (s := { s with np := (s.np.set .head (s.np.next m)).set (.link m) none })
          hnext hip hmode (by omega)
        refine ⟨np, hnp, heq.trans ?_⟩
        rw [append_take_of_full s.fastq _ (m :: xs.filter fun m => m.highpri) _ hfull]
      · rw [qfull_of_highpri hp, decide_eq_false hfull, if_neg Bool.false_ne_true, OutQueues.ifEnqueue, if_pos hp]
        obtain ⟨np, hnp, heq⟩ := ih (n := k) (s := { s with
          np := (s.np.set .head (s.np.next m)).set (.link m) none, fastq := s.fastq ++ [m] })
          hnext hip hmode (by omega)
        refine ⟨np, hnp, heq.trans ?_⟩
        rw [append_take s.fastq _ m _ (by omega)]
    | false =>
      rw [filter_cons_of_neg (by rw [hp]; decide), filter_cons_of_pos (by rw [hp]; rfl)]
      by_cases hfull : lim.snd ≤ s.snd.length
      · rw [qfull_of_normal hp, decide_eq_true hfull, if_pos rfl]
        obtain ⟨np, hnp, heq⟩ := ih (n := k) (s := { s with np := (s.np.set .head (s.np.next m)).set (.link m) none })
          hnext hip hmode (by omega)
        refine ⟨np, hnp, heq.trans ?_⟩
        rw [append_take_of_full s.snd _ (m :: xs.filter fun m => !m.highpri) _ hfull]
      · rw [qfull_of_normal hp, decide_eq_false hfull, if_neg Bool.false_ne_true, OutQueues.ifEnqueue,
          if_neg (by rw [hp]; exact Bool.false_ne_true)]
        obtain ⟨np, hnp, heq⟩ := ih (n := k) (s := { s with
          np := (s.np.set .head (s.np.next m)).set (.link m) none, snd := s.snd ++ [m] })
          hnext hip hmode (by omega)
        refine ⟨np, hnp, heq.trans ?_⟩
        rw [append_take s.snd _ m _ (by omega)]

theorem requeueLoop_free (h : Linked s.np.next s.np.head xs) (hip : ∀ m ∈ xs, m.protocol = PPP_IP)
    (hmode : s.npmode = .drop ∨ s.npmode = .error) (hn : xs.length < n) :
    ∃ np : Links Pkt, np.head = none ∧ requeueLoop lim n .head s =
      { s with np := np, npqtail := .head, freed := s.freed ++ xs } := by
  induction xs generalizing s n with
  | nil =>
    refine ⟨s.np, h, (requeueLoop_end h hn).trans ?_⟩
    simp
  | cons m xs ih =>
    obtain ⟨k, rfl⟩ : ∃ k, n = k + 1 := ⟨n - 1, by omega⟩
    rw [length_cons] at hn
    obtain ⟨hm, hip⟩ := forall_mem_cons.mp hip
    obtain ⟨np, hnp, heq⟩ := ih (n := k) (s := ({ s with
      np := s.np.set .head (s.np.next m) } : OutQueues).mFreem m) h.2 hip hmode (by omega)
    refine ⟨np, hnp, (requeueLoop_free_step h.1 hm hmode).trans (heq.trans ?_)⟩
    rw [append_cons]
    rfl

theorem freeNpqueue_eq (h : Linked s.np.next s.np.head xs) (hn : xs.length ≤ n) :
    ∃ np : Links Pkt, np.head = none ∧ freeNpqueue n s = { s with np := np, freed := s.freed ++ xs } := by
  induction xs generalizing s n with
  | nil =>
    refine ⟨s.np, h, ?_⟩
    rw [append_nil]
    cases n with
    | zero => rfl
    | succ k => rw [freeNpqueue, show s.np.head = none from h]
  | cons m xs ih =>
    obtain ⟨k, rfl⟩ : ∃ k, n = k + 1 := ⟨n - 1, by rw [length_cons] at hn; omega⟩
    rw [length_cons] at hn
    obtain ⟨np, hnp, heq⟩ := ih (n := k) (s := ({ s with
      np := s.np.set .head (s.np.next m) } : OutQueues).mFreem m) h.2 (by omega)
    refine ⟨np, hnp, ?_⟩
    rw [freeNpqueue, h.1]
    refine heq.trans ?_
    rw [append_cons]
    rfl

end Loops

/-! ## The invariant -/

/-- The network protocol queue holds `xs`; what waits behind the other queues arrived before. -/
structure QueuesOk (s : OutQueues) (xs : List Pkt) : Prop where
  linked : Linked s.np.next s.np.head xs
  tail : s.npqtail = lastAddress xs
  account : Account s.given s.freed (xs ++ (s.fastq ++ (s.snd ++ s.outm.toList)))
  fresh : ∀ m ∈ s.given, m.id < s.given.length
  known : ∀ m ∈ s.sent, m ∈ s.given
  mode : xs ≠ [] → s.npmode = .queue
  ip : ∀ m ∈ xs, m.protocol = PPP_IP
  inet : ∀ m ∈ xs, m.inet = true
  fast : ∀ m ∈ s.fastq, m.highpri = true
  normal : ∀ m ∈ s.snd, m.highpri = false
  closed : s.devp = false → xs = [] ∧ s.fastq = [] ∧ s.snd = [] ∧ s.outm = none
  order : (s.sent ++ (s.fastq ++ s.snd)).Pairwise SentBefore
  held : xs.Pairwise fun a b => a.id < b.id
  later : ∀ a ∈ s.sent ++ (s.fastq ++ s.snd), a.inet = true → ∀ x ∈ xs, a.id < x.id

theorem queuesOk_allocated : QueuesOk allocated [] where
  linked := rfl
  tail := rfl
  account := Account.empty
  fresh := nofun
  known := nofun
  mode := fun h => absurd rfl h
  ip := nofun
  inet := nofun
  fast := nofun
  normal := nofun
  closed := nofun
  order := List.Pairwise.nil
  held := List.Pairwise.nil
  later := nofun

theorem order_extend {sent fastq snd hs ls : List Pkt} (h : (sent ++ (fastq ++ snd)).Pairwise SentBefore)
    (hhs : hs.Pairwise SentBefore) (hls : ls.Pairwise SentBefore)
    (hnew : ∀ a ∈ sent ++ (fastq ++ snd), ∀ x ∈ hs ++ ls, SentBefore a x) (hfast : ∀ x ∈ hs, x.highpri = true)
    (hnormal : ∀ y ∈ snd ++ ls, y.highpri = false) :
    (sent ++ ((fastq ++ hs) ++ (snd ++ ls))).Pairwise SentBefore := by
  grind [SentBefore]

namespace QueuesOk

variable {lim : OutLimits} {s : OutQueues} {xs : List Pkt} {m : Pkt}

theorem length_le (h : QueuesOk s xs) : xs.length ≤ s.given.length :=
  (subperm_of_subset (nodup_append.mp h.account.nodup).1 fun m hm =>
    h.account.sub m (mem_append_left _ hm)).length_le

theorem heldBack_eq (h : QueuesOk s xs) : s.heldBack = xs := h.linked.nodes_eq h.length_le

theorem live_eq (h : QueuesOk s xs) : s.live = xs ++ (s.fastq ++ (s.snd ++ s.outm.toList)) := by
  rw [OutQueues.live, h.heldBack_eq]

theorem owned (h : QueuesOk s xs) : Owned s where
  account := by
    rw [h.live_eq]
    exact h.account
  linked := by
    rw [h.heldBack_eq]
    exact h.linked
  tail := by
    rw [h.heldBack_eq]
    exact h.tail
  order := (pairwise_append.mp h.order).1

theorem mem_given (h : QueuesOk s xs) : ∀ a ∈ s.sent ++ (s.fastq ++ s.snd), a ∈ s.given := by
  intro a ha
  grind [h.known, h.account.sub]

theorem not_mem_given (h : QueuesOk s xs) (hm : m.id = s.given.length) : m ∉ s.given := fun hmem =>
  absurd (h.fresh m hmem) (by omega)

theorem fresh_cons (h : QueuesOk s xs) (hm : m.id = s.given.length) :
    ∀ a ∈ m :: s.given, a.id < (m :: s.given).length := by
  intro a ha
  rw [length_cons]
  rcases mem_cons.mp ha with rfl | ha
  · omega
  · have := h.fresh a ha
    omega

theorem refuse (h : QueuesOk s xs) (hm : m.id = s.given.length) :
    QueuesOk (({ s with given := m :: s.given } : OutQueues).mFreem m) xs where
  linked := h.linked
  tail := h.tail
  account := (h.account.give (h.not_mem_given hm)).free
  fresh := h.fresh_cons hm
  known := fun a ha => mem_cons_of_mem m (h.known a ha)
  mode := h.mode
  ip := h.ip
  inet := h.inet
  fast := h.fast
  normal := h.normal
  closed := h.closed
  order := h.order
  held := h.held
  later := h.later

theorem hold (h : QueuesOk s xs) (hm : m.id = s.given.length) (hip : m.protocol = PPP_IP) (hinet : m.inet = true)
    (hmode : s.npmode = .queue) (hdevp : s.devp = true) :
    QueuesOk (({ s with given := m :: s.given } : OutQueues).hold m) (xs ++ [m]) where
  linked := by
    have hnew : m ∉ xs := fun hmem => h.not_mem_given hm (h.account.sub m (mem_append_left _ hmem))
    have happend := Links.append h.linked hnew
    rw [← h.tail] at happend
    exact happend
  tail := (lastAddress_concat xs m).symm
  account := by
    rw [append_assoc]
    exact h.account.give (h.not_mem_given hm)
  fresh := h.fresh_cons hm
  known := fun a ha => mem_cons_of_mem m (h.known a ha)
  mode := fun _ => hmode
  ip := forall_mem_append.mpr ⟨h.ip, by simpa using hip⟩
  inet := forall_mem_append.mpr ⟨h.inet, by simpa using hinet⟩
  fast := h.fast
  normal := h.normal
  closed := fun hc => absurd (hc.symm.trans hdevp) Bool.false_ne_true
  order := h.order
  held := by
    refine pairwise_append.mpr ⟨h.held, pairwise_singleton _ m, fun a ha b hb => ?_⟩
    obtain rfl := mem_singleton.mp hb
    have := h.fresh a (h.account.sub a (mem_append_left _ ha))
    omega
  later := by
    intro a ha hia x hx
    rcases mem_append.mp hx with hx | hx
    · exact h.later a ha hia x hx
    · obtain rfl := mem_singleton.mp hx
      have := h.fresh a (h.mem_given a ha)
      omega

theorem enqueue (h : QueuesOk s xs) (hm : m.id = s.given.length) (hxs : m.inet = true → xs = [])
    (hdevp : s.devp = true) : QueuesOk (({ s with given := m :: s.given } : OutQueues).ifEnqueue m) xs := by
  have hgive := h.account.give (h.not_mem_given hm)
  have hbefore : ∀ a ∈ s.sent ++ (s.fastq ++ s.snd), SentBefore a m := fun a ha _ _ => by
    have := h.fresh a (h.mem_given a ha)
    exact .inl (by omega)
  have hlater : ∀ a, a ∈ s.sent ++ (s.fastq ++ s.snd) ∨ a = m → a.inet = true → ∀ x ∈ xs, a.id < x.id := by
    rintro a (ha | rfl) hia x hx
    · exact h.later a ha hia x hx
    · rw [hxs hia] at hx
      exact absurd hx not_mem_nil
  have hclosed : s.devp ≠ false := by
    rw [hdevp]
    decide
  cases hp : m.highpri with
  | true =>
    rw [OutQueues.ifEnqueue, if_pos hp]
    exact {
      linked := h.linked
      tail := h.tail
      account := hgive.perm (perm_iff_count.mpr fun i => by
        simp only [count_append, count_cons, count_nil]
        omega)
      fresh := h.fresh_cons hm
      known := fun a ha => mem_cons_of_mem m (h.known a ha)
      mode := h.mode
      ip := h.ip
      inet := h.inet
      fast := forall_mem_append.mpr ⟨h.fast, by simpa using hp⟩
      normal := h.normal
      closed := fun hc => absurd hc hclosed
      order := by
        have hnew : ∀ a ∈ s.sent ++ (s.fastq ++ s.snd), ∀ x ∈ [m] ++ [], SentBefore a x := by
          simpa using hbefore
        have := order_extend h.order (pairwise_singleton _ m) List.Pairwise.nil hnew (by simpa using hp)
          (by simpa using h.normal)
        rwa [append_nil] at this
      held := h.held
      later := fun a ha => hlater a (by
        grind) }
  | false =>
    rw [OutQueues.ifEnqueue, if_neg (by rw [hp]; exact Bool.false_ne_true)]
    exact {
      linked := h.linked
      tail := h.tail
      account := hgive.perm (perm_iff_count.mpr fun i => by
        simp only [count_append, count_cons, count_nil]
        omega)
      fresh := h.fresh_cons hm
      known := fun a ha => mem_cons_of_mem m (h.known a ha)
      mode := h.mode
      ip := h.ip
      inet := h.inet
      fast := h.fast
      normal := forall_mem_append.mpr ⟨h.normal, by simpa using hp⟩
      closed := fun hc => absurd hc hclosed
      order := by
        grind [h.order]
      held := h.held
      later := fun a ha => hlater a (by
        grind) }

theorem pass (h : QueuesOk s xs) {np : Links Pkt} (hnp : np.head = none) :
    QueuesOk { s with
      npmode := .pass
      np := np
      npqtail := .head
      fastq := s.fastq ++ xs.filter fun m => m.highpri
      snd := s.snd ++ xs.filter fun m => !m.highpri } [] where
  linked := hnp
  tail := rfl
  account := by
    refine h.account.perm (perm_iff_count.mpr fun i => ?_)
    have hsplit := perm_iff_count.mp (filter_append_perm (fun m : Pkt => m.highpri) xs) i
    simp only [count_append, count_nil] at hsplit ⊢
    omega
  fresh := h.fresh
  known := h.known
  mode := fun hne => absurd rfl hne
  ip := nofun
  inet := nofun
  fast := forall_mem_append.mpr ⟨h.fast, fun m hm => (mem_filter.mp hm).2⟩
  normal := forall_mem_append.mpr ⟨h.normal, fun m hm => by simpa using (mem_filter.mp hm).2⟩
  closed := by
    intro hc
    obtain ⟨rfl, hfastq, hsnd, houtm⟩ := h.closed hc
    refine ⟨rfl, ?_, ?_, houtm⟩
    · show s.fastq ++ [] = []
      simp [hfastq]
    · show s.snd ++ [] = []
      simp [hsnd]
  order := by
    have hsorted : xs.Pairwise SentBefore := h.held.imp fun hlt _ _ => .inl hlt
    refine order_extend h.order (hsorted.sublist filter_sublist) (hsorted.sublist filter_sublist) ?_
      (fun x hx => (mem_filter.mp hx).2)
      (forall_mem_append.mpr ⟨h.normal, fun m hm => by simpa using (mem_filter.mp hm).2⟩)
    intro a ha x hx hia _
    have hmem : x ∈ xs := (mem_append.mp hx).elim mem_of_mem_filter mem_of_mem_filter
    exact .inl (h.later a ha hia x hmem)
  held := List.Pairwise.nil
  later := nofun

theorem drop (h : QueuesOk s xs) {np : Links Pkt} {mode : NPmode} (hnp : np.head = none) :
    QueuesOk { s with npmode := mode, np := np, npqtail := .head, freed := s.freed ++ xs } [] where
  linked := hnp
  tail := rfl
  account := h.account.freeList
  fresh := h.fresh
  known := h.known
  mode := fun hne => absurd rfl hne
  ip := nofun
  inet := nofun
  fast := h.fast
  normal := h.normal
  closed := fun hc => ⟨rfl, (h.closed hc).2⟩
  order := h.order
  held := List.Pairwise.nil
  later := nofun

theorem queueMode (h : QueuesOk s xs) : QueuesOk { s with npmode := .queue } xs :=
  { h with mode := fun _ => rfl }

theorem dequeue_fastq (h : QueuesOk s xs) {ms : List Pkt} (houtm : s.outm = none) (hq : s.fastq = m :: ms) :
    QueuesOk { s with fastq := ms, outm := some m, sent := s.sent ++ [m] } xs where
  linked := h.linked
  tail := h.tail
  account := by
    refine h.account.perm (perm_iff_count.mpr fun i => ?_)
    grind
  fresh := h.fresh
  known := by
    grind [h.mem_given]
  mode := h.mode
  ip := h.ip
  inet := h.inet
  fast := fun a ha => h.fast a (by rw [hq]; exact mem_cons_of_mem m ha)
  normal := h.normal
  closed := by
    intro hc
    obtain ⟨-, hfastq, -⟩ := h.closed hc
    exact absurd (hq.symm.trans hfastq) (cons_ne_nil m ms)
  order := by
    have := h.order
    rwa [hq, cons_append, append_cons] at this
  held := h.held
  later := by
    have := h.later
    rwa [hq, cons_append, append_cons] at this

theorem dequeue_snd (h : QueuesOk s xs) {ms : List Pkt} (houtm : s.outm = none) (hf : s.fastq = [])
    (hq : s.snd = m :: ms) : QueuesOk { s with snd := ms, outm := some m, sent := s.sent ++ [m] } xs where
  linked := h.linked
  tail := h.tail
  account := by
    refine h.account.perm (perm_iff_count.mpr fun i => ?_)
    grind
  fresh := h.fresh
  known := by
    refine forall_mem_append.mpr ⟨h.known, fun a ha => h.mem_given a ?_⟩
    rw [mem_singleton.mp ha, hq]
    simp
  mode := h.mode
  ip := h.ip
  inet := h.inet
  fast := h.fast
  normal := fun a ha => h.normal a (by rw [hq]; exact mem_cons_of_mem m ha)
  closed := by
    intro hc
    obtain ⟨-, -, hsnd, -⟩ := h.closed hc
    exact absurd (hq.symm.trans hsnd) (cons_ne_nil m ms)
  order := by
    have := h.order
    rw [hf, hq, nil_append, append_cons] at this
    rwa [hf, nil_append]
  held := h.held
  later := by
    have := h.later
    rw [hf, hq, nil_append, append_cons] at this
    rwa [hf, nil_append]

theorem txDequeue (h : QueuesOk s xs) : QueuesOk (txDequeue s) xs := by
  grind [Ppp.txDequeue, h.dequeue_fastq, h.dequeue_snd]

theorem freeOutm (h : QueuesOk s xs) : QueuesOk (freeOutm s) xs :=
  { h with
    account := by
      have hperm : (xs ++ (s.fastq ++ (s.snd ++ s.outm.toList))).Perm
          (s.outm.toList ++ (xs ++ (s.fastq ++ (s.snd ++ [])))) := perm_iff_count.mpr fun i => by
        simp only [count_append, count_nil]
        omega
      exact (h.account.perm hperm).freeList
    closed := fun hc =>
      have hempty := h.closed hc
      ⟨hempty.1, hempty.2.1, hempty.2.2.1, rfl⟩ }

theorem ifDown (h : QueuesOk s xs) : QueuesOk (if_down s) xs :=
  have hsub : (s.sent ++ (s.fastq ++ [])).Sublist (s.sent ++ (s.fastq ++ s.snd)) :=
    ((nil_sublist s.snd).append_left s.fastq).append_left s.sent
  { h with
    account := by
      have hperm : (xs ++ (s.fastq ++ (s.snd ++ s.outm.toList))).Perm
          (s.snd ++ (xs ++ (s.fastq ++ ([] ++ s.outm.toList)))) := perm_iff_count.mpr fun i => by
        simp only [count_append, count_nil]
        omega
      exact (h.account.perm hperm).freeList
    normal := nofun
    closed := fun hc =>
      have hempty := h.closed hc
      ⟨hempty.1, hempty.2.1, rfl, hempty.2.2.2⟩
    order := h.order.sublist hsub
    later := fun a ha => h.later a (hsub.subset ha) }

theorem freeFastq (h : QueuesOk s xs) : QueuesOk (freeFastq s) xs :=
  have hsub : (s.sent ++ ([] ++ s.snd)).Sublist (s.sent ++ (s.fastq ++ s.snd)) :=
    (sublist_append_right s.fastq s.snd).append_left s.sent
  { h with
    account := by
      have hperm : (xs ++ (s.fastq ++ (s.snd ++ s.outm.toList))).Perm
          (s.fastq ++ (xs ++ ([] ++ (s.snd ++ s.outm.toList)))) := perm_iff_count.mpr fun i => by
        simp only [count_append, count_nil]
        omega
      exact (h.account.perm hperm).freeList
    fast := nofun
    closed := fun hc =>
      have hempty := h.closed hc
      ⟨hempty.1, rfl, hempty.2.2⟩
    order := h.order.sublist hsub
    later := fun a ha => h.later a (hsub.subset ha) }

theorem close (h : QueuesOk s xs) (hf : s.fastq = []) (hn : s.snd = []) (houtm : s.outm = none) (hxs : xs = []) :
    QueuesOk { s with running := false, devp := false } xs :=
  { h with closed := fun _ => ⟨hxs, hf, hn, houtm⟩ }

end QueuesOk

/-! ## The operations -/

section Steps

variable {lim : OutLimits} {s t : OutQueues} {xs : List Pkt}

theorem dst_packet_id (dst : Dst) (id : Nat) : (dst.packet id).id = id := by
  cases dst <;> rfl

theorem packet_of_queue {dst : Dst} {npmode : NPmode} (h : dst.mode npmode = some .queue) (id : Nat) :
    npmode = .queue ∧ (dst.packet id).protocol = PPP_IP ∧ (dst.packet id).inet = true := by
  cases dst with
  | inet lowdelay => exact ⟨Option.some.inj h, rfl, rfl⟩
  | unspec protocol => cases h
  | other => cases h

theorem packet_of_pass {dst : Dst} {npmode : NPmode} {id : Nat} (h : dst.mode npmode = some .pass)
    (hinet : (dst.packet id).inet = true) : npmode = .pass := by
  cases dst with
  | inet lowdelay => exact Option.some.inj h
  | unspec protocol => cases hinet
  | other => cases h

theorem queuesOk_output (h : QueuesOk s xs) (dst : Dst) (leading prepend : Bool) :
    ∃ ys, QueuesOk (pppoutput lim s dst leading prepend) ys := by
  have hid := dst_packet_id dst s.given.length
  have hrefuse := h.refuse hid
  unfold pppoutput
  dsimp only
  split
  · exact ⟨xs, hrefuse⟩
  · rename_i hopen
    have hdevp : s.devp = true := by
      cases hd : s.devp
      · exact absurd (.inl hd) hopen
      · rfl
    split
    · exact ⟨xs, hrefuse⟩
    · exact ⟨xs, hrefuse⟩
    · exact ⟨xs, hrefuse⟩
    · rename_i hmode
      obtain ⟨hqueue, hip, hinet⟩ := packet_of_queue hmode s.given.length
      split
      · exact ⟨_, h.hold hid hip hinet hqueue hdevp⟩
      · exact ⟨xs, hrefuse⟩
    · rename_i hmode
      have hxs : (dst.packet s.given.length).inet = true → xs = [] := fun hinet =>
        Classical.byContradiction fun hne => by
          have := (packet_of_pass hmode hinet).symm.trans (h.mode hne)
          cases this
      split
      · split
        · exact ⟨xs, hrefuse⟩
        · exact ⟨xs, h.enqueue hid hxs hdevp⟩
      · exact ⟨xs, hrefuse⟩

theorem requeue_pass (lim : OutLimits) (h : QueuesOk s xs) : ∃ np : Links Pkt, np.head = none ∧
    ppp_requeue lim { s with npmode := .pass } =
      { s with
        npmode := .pass
        np := np
        npqtail := .head
        fastq := s.fastq ++ (xs.filter fun m => m.highpri).take (lim.fastq - s.fastq.length)
        snd := s.snd ++ (xs.filter fun m => !m.highpri).take (lim.snd - s.snd.length) } :=
  requeueLoop_pass (s := { s with npmode := .pass }) h.linked h.ip rfl (Nat.lt_succ_of_le h.length_le)

theorem requeue_free (lim : OutLimits) (h : QueuesOk s xs) {mode : NPmode} (hmode : mode = .drop ∨ mode = .error) :
    ∃ np : Links Pkt, np.head = none ∧ ppp_requeue lim { s with npmode := mode } =
      { s with npmode := mode, np := np, npqtail := .head, freed := s.freed ++ xs } :=
  requeueLoop_free (s := { s with npmode := mode }) h.linked h.ip hmode (Nat.lt_succ_of_le h.length_le)

theorem queuesOk_npmode (h : QueuesOk s xs) (mode : NPmode) (htidy : Tidy lim s (.npmode mode)) :
    ∃ ys, QueuesOk (setNpmode lim s mode) ys := by
  unfold setNpmode
  split
  · exact ⟨xs, h⟩
  · cases mode with
    | queue => exact ⟨xs, h.queueMode⟩
    | pass =>
      obtain ⟨hfits, hfits'⟩ := htidy
      rw [h.heldBack_eq] at hfits hfits'
      obtain ⟨np, hnp, heq⟩ := requeue_pass lim h
      rw [take_of_length_le hfits, take_of_length_le hfits'] at heq
      rw [if_neg (by decide), heq]
      exact ⟨[], h.pass hnp⟩
    | drop =>
      obtain ⟨np, hnp, heq⟩ := requeue_free lim h (.inl rfl)
      rw [if_neg (by decide), heq]
      exact ⟨[], h.drop hnp⟩
    | error =>
      obtain ⟨np, hnp, heq⟩ := requeue_free lim h (.inr rfl)
      rw [if_neg (by decide), heq]
      exact ⟨[], h.drop hnp⟩

theorem pppdealloc_eq (h : QueuesOk s xs) : ∃ np : Links Pkt, np.head = none ∧ pppdealloc s =
    { freeFastq (freeOutm (if_down s)) with
      running := false
      devp := false
      np := np
      freed := (freeFastq (freeOutm (if_down s))).freed ++ xs } :=
  freeNpqueue_eq (s := { freeFastq (freeOutm (if_down s)) with running := false, devp := false })
    h.linked h.length_le

theorem queuesOk_dealloc (h : QueuesOk s []) : QueuesOk (pppdealloc s) [] := by
  obtain ⟨np, hnp, heq⟩ := pppdealloc_eq h
  rw [heq, append_nil]
  have hclose := h.ifDown.freeOutm.freeFastq.close rfl rfl rfl rfl
  exact { hclose with linked := hnp }

theorem queuesOk_alloc (h : QueuesOk s xs) : ∃ ys, QueuesOk (pppalloc s) ys := by
  unfold pppalloc
  split
  · exact ⟨xs, h⟩
  · rename_i hdevp
    obtain ⟨rfl, hf, hn, houtm⟩ := h.closed (by simpa using hdevp)
    refine ⟨[], { h with
      linked := rfl, tail := rfl, account := ?_, mode := fun hne => absurd rfl hne, closed := nofun }⟩
    have := h.account
    rwa [houtm] at this

/-- **Every operation that is tidy keeps the invariant.** -/
theorem queuesOk_step (h : ∃ xs, QueuesOk s xs) {a : OutAct} (htidy : Tidy lim s a)
    (hstep : outStep lim s a = some t) : ∃ xs, QueuesOk t xs := by
  obtain ⟨xs, h⟩ := h
  obtain rfl : outNext lim s a = t := Option.some.inj hstep
  cases a with
  | output dst leading prepend => exact queuesOk_output h dst leading prepend
  | npmode mode => exact queuesOk_npmode h mode htidy
  | dequeue => exact ⟨xs, h.txDequeue⟩
  | complete => exact ⟨xs, h.freeOutm⟩
  | dealloc =>
    have hxs : xs = [] := h.heldBack_eq.symm.trans htidy
    rw [hxs] at h
    exact ⟨[], queuesOk_dealloc h⟩
  | alloc => exact queuesOk_alloc h
  | ifUp => exact ⟨xs, { h with }⟩
  | ifDown => exact ⟨xs, h.ifDown⟩

/-! ## What goes wrong otherwise -/

theorem heldBack_of_head (hhead : s.np.head = none) : s.heldBack = [] := by
  rw [OutQueues.heldBack, hhead]
  cases s.given.length <;> rfl

theorem not_owned_of_lost (h : QueuesOk s xs) (hgiven : t.given = s.given) (hfreed : t.freed = s.freed) {m : Pkt}
    (hm : m ∈ xs) (hlost : m ∉ t.live) : ¬ Owned t := by
  intro howned
  have hmem : m ∈ xs ++ (s.fastq ++ (s.snd ++ s.outm.toList)) := mem_append_left _ hm
  have hcount := howned.account.count m
  rw [hgiven, hfreed, h.account.count m, if_neg (fun hc => hc.2 hmem), if_pos ⟨h.account.sub m hmem, hlost⟩] at hcount
  cases hcount

theorem exists_lost {ys : List Pkt} (hnodup : ys.Nodup) {k : Nat} (hk : k < ys.length) : ∃ m ∈ ys, m ∉ ys.take k := by
  refine ⟨ys[k], getElem_mem hk, fun hmem => ?_⟩
  have hdrop : ys[k] ∈ ys.drop k := by
    rw [drop_eq_getElem_cons hk]
    exact mem_cons_self
  exact disjoint_take_drop hnodup (Nat.le_refl k) hmem hdrop

theorem not_owned_pass (h : QueuesOk s xs) {np : Links Pkt} (hnp : np.head = none) {hs ls : List Pkt} {m : Pkt}
    (hm : m ∈ xs) (hhs : m ∉ hs) (hls : m ∉ ls) :
    ¬ Owned { s with
      npmode := .pass
      np := np
      npqtail := .head
      fastq := s.fastq ++ hs
      snd := s.snd ++ ls } := by
  refine not_owned_of_lost h rfl rfl hm fun hmem => ?_
  have hother : m ∉ s.fastq ++ (s.snd ++ s.outm.toList) :=
    (disjoint_of_nodup_append h.account.nodup) hm
  rw [OutQueues.live, heldBack_of_head hnp] at hmem
  grind

theorem not_owned_npmode (h : QueuesOk s xs) {mode : NPmode} (htidy : ¬ Tidy lim s (.npmode mode)) :
    ¬ Owned (setNpmode lim s mode) := by
  cases mode with
  | queue => exact absurd trivial htidy
  | drop => exact absurd trivial htidy
  | error => exact absurd trivial htidy
  | pass =>
    have hnodup := (nodup_append.mp h.account.nodup).1
    have hmode : ¬ NPmode.pass = s.npmode := fun he => by
      have hxs : xs = [] := Classical.byContradiction fun hne => by
        have := he.trans (h.mode hne)
        cases this
      refine htidy ?_
      rw [Tidy, h.heldBack_eq, hxs]
      exact ⟨Nat.zero_le _, Nat.zero_le _⟩
    obtain ⟨np, hnp, heq⟩ := requeue_pass lim h
    unfold setNpmode
    rw [Tidy, h.heldBack_eq] at htidy
    rcases Classical.not_and_iff_not_or_not.mp htidy with hfull | hfull
    · obtain ⟨m, hm, hlost⟩ := exists_lost (hnodup.filter _) (Nat.lt_of_not_le hfull)
      grind [not_owned_pass]
    · obtain ⟨m, hm, hlost⟩ := exists_lost (hnodup.filter _) (Nat.lt_of_not_le hfull)
      grind [not_owned_pass]

theorem not_owned_dealloc (h : QueuesOk s xs) (hxs : xs ≠ []) : ¬ Owned (pppdealloc s) := by
  intro howned
  obtain ⟨np, hnp, heq⟩ := pppdealloc_eq h
  have htail := howned.tail
  rw [heldBack_of_head (by rw [heq]; exact hnp), heq] at htail
  exact hxs (lastAddress_eq_head.mp (h.tail.symm.trans htail))

theorem not_owned_step (h : ∃ xs, QueuesOk s xs) {a : OutAct} (htidy : ¬ Tidy lim s a)
    (hstep : outStep lim s a = some t) : ¬ Owned t := by
  obtain ⟨xs, h⟩ := h
  obtain rfl : outNext lim s a = t := Option.some.inj hstep
  cases a with
  | npmode mode => exact not_owned_npmode h htidy
  | dealloc => exact not_owned_dealloc h fun hxs => htidy (h.heldBack_eq.trans hxs)
  | output _ _ _ | dequeue | complete | alloc | ifUp | ifDown => exact absurd trivial htidy

end Steps

/-- **Whatever the order of the operations, every packet has one owner and the order of the packets that are held
    back is kept, exactly as long as `ppp_requeue` meets no full queue and `pppdealloc` finds no packet that is held
    back.** -/
theorem owned_iff (lim : OutLimits) (as : List OutAct) :
    Throughout (outStep lim) Owned allocated as ↔ StepsMeet (outStep lim) (Tidy lim) allocated as := by
  have hstep : ∀ s a, ∃ t, outStep lim s a = some t := fun s a => ⟨outNext lim s a, rfl⟩
  have hgood : ∀ s, (∃ xs, QueuesOk s xs) → Owned s := fun s hs => hs.elim fun xs h => h.owned
  obtain ⟨t, hrun⟩ := exists_run hstep as allocated
  exact good_iff_stepsMeet hgood (fun s a t hs hok => queuesOk_step hs hok)
    (fun s a t hs hno => not_owned_step hs hno) as allocated t ⟨[], queuesOk_allocated⟩ hrun

/-- The packets are held back, one more than the send queue takes, and then may pass. -/
def passTooMany : List OutAct :=
  [.npmode .queue, .ifUp] ++ List.replicate 51 (.output (.inet false) true true) ++ [.npmode .pass]

/-- The last of 51 packets is on no queue and was not freed. -/
theorem requeue_loses_packet : ¬ Throughout (outStep ⟨50, 50⟩) Owned allocated passTooMany := by
  intro h
  have hrun : (run (outStep ⟨50, 50⟩) allocated passTooMany).map
      (fun s => (s.freed, decide (Dst.packet 50 (.inet false) ∈ s.given),
        decide (Dst.packet 50 (.inet false) ∈ s.live))) = some ([], true, false) := by decide +kernel
  obtain ⟨t, ht, hproj⟩ := Option.map_eq_some_iff.mp hrun
  simp only [Prod.mk.injEq, decide_eq_true_eq, decide_eq_false_iff_not] at hproj
  obtain ⟨hfreed, hgiven, hlive⟩ := hproj
  have hcount := (h passTooMany (prefix_refl _) t ht).account.count (Dst.packet 50 (.inet false))
  rw [hfreed, if_pos ⟨hgiven, hlive⟩] at hcount
  cases hcount

end RtemsLibbsd.Ppp
