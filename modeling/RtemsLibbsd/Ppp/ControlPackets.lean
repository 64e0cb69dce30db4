import RtemsLibbsd.Ppp.Output
import RtemsLibbsd.Transition

/-!
# Control packets on their way to the daemon

Model of `pppread` (`ppp_tty.c`), `read_packet` (`pppd/sys-rtems.c`) and `get_input` (`pppd/rtemsmain.c`), with the
end of `ppp_inproc` (`if_ppp.c`) and `wait_input`.

* `copyChain` — the loop of `pppread` over the mbufs of a packet.
* `libcRead` — the library's `read`: the octets that were moved, or -1.  Another line discipline, or the system for a
  descriptor that is closed, may answer anything.
* `get_input` — what becomes of a packet; a read of no octets is a hangup.
* `Daemon`, `daemonStep` — packets are enqueued, announced with `PPPD_EVENT`, and read in any order of these steps.
  A step that is not possible changes nothing.

The loop stops in front of an mbuf that would fill the buffer, and in front of one without octets.  So the packets
arrive as they are exactly when they leave room in the buffer: **`arrives_iff_fits`**.
-/

namespace RtemsLibbsd.Ppp

open List RtemsLibbsd.Transition

abbrev PPP_MTU : Nat := 1500

abbrev IFQ_MAXLEN : Nat := 50

abbrev PPP_LQR : BitVec 16 := 0xc025

abbrev PPP_PAP : BitVec 16 := 0xc023

abbrev PPP_CHAP : BitVec 16 := 0xc223

abbrev PHASE_AUTHENTICATE : Nat := 5

/-- The tty: whether `t_sc` is set, whether the unit is attached to it, and whether `t_line` is `PPPDISC`. -/
structure Tty where
  t_sc : Bool
  devp : Bool
  pppdisc : Bool
  deriving DecidableEq

/-- The descriptor of the serial line, with the PPP line discipline. -/
abbrev attached : Option Tty := some ⟨true, true, true⟩

def Gone : Option Tty → Prop
  | none => True
  | some tty => tty.pppdisc = false ∨ tty.t_sc = false

/-- What `pppread` gives: whether the status is `RTEMS_SUCCESSFUL`, the octets in the buffer, the packet that was taken,
the rest of the queue, and whether another event is posted. -/
structure PppRead where
  successful : Bool
  buffer : List Byte
  m0 : Option (List Mbuf)
  inq : List (List Mbuf)
  event : Bool

/-- The octets that are copied from a chain, behind `count` others. -/
def copyChain (maximum : Nat) : Nat → List Mbuf → List Byte
  | _, [] => []
  | count, m :: ms =>
    if 0 < m.length ∧ count + m.length < maximum then m ++ copyChain maximum (count + m.length) ms else []

def pppread (tty : Tty) (maximum : Nat) (inq : List (List Mbuf)) : PppRead :=
  if tty.t_sc = false then ⟨true, [], none, inq, false⟩
  else if tty.devp = false ∨ tty.pppdisc = false then ⟨false, [], none, inq, false⟩
  else
    match inq with
    | [] => ⟨false, [], none, [], false⟩
    | m0 :: inq => ⟨true, copyChain maximum 0 m0, some m0, inq, decide (inq ≠ [])⟩

structure ReadResult where
  len : Int
  buffer : List Byte

/-- `read`; `other` is the answer of another line discipline, or for a closed descriptor. -/
def libcRead (fd : Option Tty) (other : ReadResult) (count : Nat) (inq : List (List Mbuf)) : ReadResult × PppRead :=
  match fd with
  | none => (other, ⟨false, [], none, inq, false⟩)
  | some tty =>
    if tty.pppdisc then
      let r := pppread tty count inq
      (if r.successful then ⟨r.buffer.length, r.buffer⟩ else ⟨-1, []⟩, r)
    else (other, ⟨false, [], none, inq, false⟩)

def read_packet (fd : Option Tty) (other : ReadResult) (inq : List (List Mbuf)) : ReadResult × PppRead :=
  libcRead fd other (PPP_MTU + PPP_HDRLEN) inq

/-- An entry of `protocols`: whether it is enabled, and whether it has a `datainput`. -/
structure Protent where
  protocol : BitVec 16
  enabled_flag : Bool
  datainput : Bool

/-- The variables of the daemon that `get_input` looks at. -/
structure Pppd where
  lcpOpened : Bool
  phase : Nat
  protocols : List Protent

/-- What `get_input` does: the calls of the protocols, with the entry of the table, have the packet behind its header. -/
inductive Upcall where
  | none
  | hangup
  | short
  | tossed
  | input (entry : Protent) (p : List Byte)
  | datainput (entry : Protent) (p : List Byte)
  | sprotrej (packet : List Byte)

def upcall (protocol : BitVec 16) (packet : List Byte) : List Protent → Upcall
  | [] => .sprotrej packet
  | protp :: rest =>
    if protp.protocol = protocol ∧ protp.enabled_flag = true then .input protp (packet.drop PPP_HDRLEN)
    else if protocol = protp.protocol &&& ~~~0x8000 ∧ protp.enabled_flag = true ∧ protp.datainput = true then
      .datainput protp (packet.drop PPP_HDRLEN)
    else upcall protocol packet rest

def get_input (pppd : Pppd) (r : ReadResult) : Upcall :=
  if r.len < 0 then .none
  else if r.len = 0 then .hangup
  else if r.len < (PPP_HDRLEN : Nat) then .short
  else
    let packet := r.buffer.take r.len.toNat
    let protocol : BitVec 16 := packet.getD 2 0 ++ packet.getD 3 0
    if protocol ≠ BitVec.ofNat 16 PPP_LCP ∧ pppd.lcpOpened = false then .tossed
    else if pppd.phase ≤ PHASE_AUTHENTICATE ∧ ¬ (protocol = BitVec.ofNat 16 PPP_LCP ∨ protocol = PPP_LQR ∨
        protocol = PPP_PAP ∨ protocol = PPP_CHAP) then .tossed
    else upcall protocol packet pppd.protocols

/-- A call of `get_input`: the descriptor, the packet that was taken, what was read, and what was done with it. -/
structure Got where
  fd : Option Tty
  m0 : Option (List Mbuf)
  read : ReadResult
  upcall : Upcall

/-- The daemon and its queue.  `owed` counts the packets that `ppp_inproc` has enqueued and not yet announced; `queued`
and `got` say what has been enqueued, and what the calls of `get_input` have done. -/
structure Daemon where
  fd : Option Tty
  inq : List (List Mbuf)
  owed : Nat
  event : Bool
  woken : Bool
  hungup : Bool
  queued : List (List Mbuf)
  got : List Got

inductive DaemonAct where
  /-- `ppp_inproc` has a packet that is not for IP. -/
  | inproc (packet : List Mbuf)
  /-- `ppp_inproc` calls `sc_ctlp`. -/
  | ctlp
  /-- `wait_input` returns, for an event or a timeout. -/
  | wait_input
  | get_input (pppd : Pppd) (other : ReadResult)
  /-- The descriptor is closed, or the line discipline or the unit taken away. -/
  | detach (fd : Option Tty)

def Daemon.init : Daemon := ⟨attached, [], 0, false, false, false, [], []⟩

/-- The call of `get_input` of the daemon. -/
def Daemon.get_input (s : Daemon) (pppd : Pppd) (other : ReadResult) : Daemon :=
  let (r, p) := read_packet s.fd other s.inq
  let up := Ppp.get_input pppd r
  { s with
    inq := p.inq
    event := s.event || p.event
    woken := false
    hungup := s.hungup || decide (r.len = 0)
    got := s.got ++ [⟨s.fd, p.m0, r, up⟩] }

def daemonStep (s : Daemon) : DaemonAct → Daemon
  | .inproc packet =>
    if s.inq.length ≥ IFQ_MAXLEN then s
    else { s with inq := s.inq ++ [packet], owed := s.owed + 1, queued := s.queued ++ [packet] }
  | .ctlp => if s.owed = 0 then s else { s with owed := s.owed - 1, event := true }
  | .wait_input => { s with event := false, woken := true }
  | .get_input pppd other =>
    -- a hangup has ended the loop of the daemon
    if s.woken = false ∨ s.hungup = true then s else s.get_input pppd other
  | .detach fd => if fd = attached then s else { s with fd := fd }

/-- A call of `get_input` has its packet as it was queued, whatever the size of it, and a hangup is one. -/
structure Got.Right (mru : Nat) (g : Got) : Prop where
  complete : ∀ packet ∈ g.m0, packet.flatten.length ≤ mru + PPP_HDRLEN →
    g.read.len = packet.flatten.length ∧ g.read.buffer = packet.flatten
  whole : ∀ packet ∈ g.m0, 0 < g.read.len → g.read.buffer = packet.flatten
  hangup : g.upcall = .hangup → Gone g.fd

/-- Every packet is announced, read once and in order, and arrives as it is. -/
structure Arrives (mru : Nat) (s : Daemon) : Prop where
  order : s.got.filterMap Got.m0 ++ s.inq = s.queued
  announced : s.fd = attached → s.inq ≠ [] → s.event = true ∨ 0 < s.owed ∨ s.woken = true
  right : ∀ g ∈ s.got, g.Right mru

/-- The packet leaves room in the buffer, and has no octets behind an mbuf without any. -/
structure Fits (packet : List Mbuf) : Prop where
  pos : 0 < packet.flatten.length
  room : packet.flatten.length < PPP_MTU + PPP_HDRLEN
  solid : (packet.dropWhile (· ≠ [])).flatten = []

/-- `get_input` is called when the next packet fits. -/
def ReadsFitting (s : Daemon) : DaemonAct → Prop
  | .get_input _ _ =>
    s.woken = true → s.hungup = false → s.fd = attached → ∀ packet ∈ s.inq.head?, Fits packet
  | _ => True

section Copy

variable {maximum count : Nat} {ms : List Mbuf}

theorem copyChain_eq_iff : copyChain maximum count ms = ms.flatten ↔
    (ms.dropWhile (· ≠ [])).flatten = [] ∧ (ms.flatten = [] ∨ count + ms.flatten.length < maximum) := by
  induction ms generalizing count with
  | nil => exact ⟨fun _ => ⟨rfl, .inl rfl⟩, fun _ => rfl⟩
  | cons m ms ih =>
    unfold copyChain
    by_cases hm : m = []
    · subst hm
      rw [if_neg fun h => absurd h.1 (Nat.lt_irrefl 0), dropWhile_cons_of_neg (by simp)]
      grind
    · have hpos := length_pos_iff.mpr hm
      rw [dropWhile_cons_of_pos (by simp [hm]), flatten_cons, length_append]
      by_cases hroom : count + m.length < maximum
      · rw [if_pos ⟨hpos, hroom⟩, append_cancel_left_eq, ih]
        grind [length_nil]
      · rw [if_neg fun h => hroom h.2]
        constructor
        · intro h
          exact absurd (append_eq_nil_iff.mp h.symm).1 hm
        · rintro ⟨-, hnil | hlt⟩
          · exact absurd (append_eq_nil_iff.mp hnil).1 hm
          · omega

theorem fits_iff {packet : List Mbuf} : Fits packet ↔
    copyChain (PPP_MTU + PPP_HDRLEN) 0 packet = packet.flatten ∧ copyChain (PPP_MTU + PPP_HDRLEN) 0 packet ≠ [] := by
  constructor
  · intro h
    have hcopy := copyChain_eq_iff.mpr ⟨h.solid, .inr (by rw [Nat.zero_add]; exact h.room)⟩
    exact ⟨hcopy, fun hnil => absurd h.pos (by rw [← hcopy, hnil]; exact Nat.lt_irrefl 0)⟩
  · rintro ⟨hcopy, hne⟩
    obtain ⟨hsolid, hnil | hroom⟩ := copyChain_eq_iff.mp hcopy
    · exact absurd (hcopy.trans hnil) hne
    · rw [Nat.zero_add] at hroom
      rw [hcopy] at hne
      exact ⟨length_pos_iff.mpr hne, hroom, hsolid⟩

end Copy

section Daemon

variable {mru : Nat} {s : Daemon} {fd : Option Tty} {inq : List (List Mbuf)}

theorem upcall_ne_hangup (protocol : BitVec 16) (packet : List Byte) (table : List Protent) :
    upcall protocol packet table ≠ .hangup := by
  induction table with
  | nil => nofun
  | cons protp rest ih =>
    unfold upcall
    split
    · nofun
    · split
      · nofun
      · exact ih

theorem get_input_hangup (pppd : Pppd) (r : ReadResult) : get_input pppd r = .hangup ↔ r.len = 0 := by
  unfold get_input
  by_cases hneg : r.len < 0
  · rw [if_pos hneg]
    exact ⟨nofun, fun h => absurd hneg (by omega)⟩
  · rw [if_neg hneg]
    by_cases hzero : r.len = 0
    · rw [if_pos hzero]
      exact ⟨fun _ => hzero, fun _ => rfl⟩
    · rw [if_neg hzero]
      grind [upcall_ne_hangup]

def readOf (m0 : List Mbuf) : ReadResult :=
  ⟨(copyChain (PPP_MTU + PPP_HDRLEN) 0 m0).length, copyChain (PPP_MTU + PPP_HDRLEN) 0 m0⟩

theorem read_packet_attached (other : ReadResult) (m0 : List Mbuf) (rest : List (List Mbuf)) :
    read_packet attached other (m0 :: rest) =
      (readOf m0, ⟨true, (readOf m0).buffer, some m0, rest, decide (rest ≠ [])⟩) := rfl

theorem read_packet_idle (other : ReadResult) (h : fd = attached → inq = []) :
    (read_packet fd other inq).2.m0 = none ∧ (read_packet fd other inq).2.inq = inq ∧
      ((read_packet fd other inq).1.len = 0 → Gone fd) := by
  match fd with
  | none => exact ⟨rfl, rfl, fun _ => trivial⟩
  | some ⟨sc, devp, false⟩ => exact ⟨rfl, rfl, fun _ => .inl rfl⟩
  | some ⟨false, devp, true⟩ => exact ⟨rfl, rfl, fun _ => .inr rfl⟩
  | some ⟨true, false, true⟩ => exact ⟨rfl, rfl, fun h => absurd (show (-1 : Int) = 0 from h) (by decide)⟩
  | some ⟨true, true, true⟩ =>
    obtain rfl := h rfl
    exact ⟨rfl, rfl, fun h => absurd (show (-1 : Int) = 0 from h) (by decide)⟩

/-- **One call**: the packet arrives as it is exactly when it fits. -/
theorem right_iff_fits (pppd : Pppd) (m0 : List Mbuf) :
    Got.Right mru ⟨attached, some m0, readOf m0, get_input pppd (readOf m0)⟩ ↔ Fits m0 := by
  have hgone : ¬ Gone attached := by
    rintro (h | h) <;> cases h
  rw [fits_iff]
  constructor
  · intro h
    have hne : copyChain (PPP_MTU + PPP_HDRLEN) 0 m0 ≠ [] := by
      intro hnil
      apply hgone
      apply h.hangup
      rw [get_input_hangup, readOf, hnil]
      rfl
    have hpos := length_pos_iff.mpr hne
    exact ⟨h.whole m0 rfl (Int.natCast_pos.mpr hpos), hne⟩
  · rintro ⟨hcopy, hne⟩
    have hpos := length_pos_iff.mpr hne
    refine ⟨fun packet hp _ => ?_, fun packet hp _ => ?_, fun hup => ?_⟩
    · cases hp
      exact ⟨congrArg (fun b => (List.length b : Int)) hcopy, hcopy⟩
    · cases hp
      exact hcopy
    · grind [get_input_hangup, readOf]

theorem arrives_init : Arrives mru .init := ⟨rfl, fun _ h => absurd rfl h, fun _ h => absurd h not_mem_nil⟩

theorem Arrives.idle (h : Arrives mru s) (hidle : s.fd = attached → s.inq = []) (pppd : Pppd) (other : ReadResult) :
    Arrives mru (s.get_input pppd other) := by
  obtain ⟨hm0, hinq, hgone⟩ := read_packet_idle other hidle
  refine ⟨?_, fun hfd hne => ?_, fun g hg => ?_⟩
  · show (s.got ++ [_]).filterMap Got.m0 ++ (read_packet s.fd other s.inq).2.inq = s.queued
    rw [hinq, filterMap_append, filterMap_cons_none (by exact hm0), filterMap_nil, append_nil]
    exact h.order
  · exact absurd (hinq.trans (hidle hfd)) hne
  · rcases mem_append.mp hg with hg | hg
    · exact h.right g hg
    · rw [mem_singleton.mp hg]
      refine ⟨fun packet hp => ?_, fun packet hp => ?_, fun hup => hgone ((get_input_hangup pppd _).mp hup)⟩
      · exact nomatch hm0.symm.trans hp
      · exact nomatch hm0.symm.trans hp

variable {rest : List (List Mbuf)} {m0 : List Mbuf}

theorem get_input_attached (pppd : Pppd) (other : ReadResult) (hfd : s.fd = attached) (hinq : s.inq = m0 :: rest) :
    s.get_input pppd other =
      { s with
        inq := rest
        event := s.event || decide (rest ≠ [])
        woken := false
        hungup := s.hungup || decide ((readOf m0).len = 0)
        got := s.got ++ [⟨attached, some m0, readOf m0, get_input pppd (readOf m0)⟩] } := by
  unfold Daemon.get_input
  rw [hfd, hinq]
  rfl

theorem Arrives.fits (h : Arrives mru s) (pppd : Pppd) (other : ReadResult) (hfd : s.fd = attached)
    (hinq : s.inq = m0 :: rest) (hfits : Fits m0) : Arrives mru (s.get_input pppd other) := by
  rw [get_input_attached pppd other hfd hinq]
  refine ⟨?_, fun _ hne => .inl ?_, fun g hg => ?_⟩
  · have horder := h.order
    grind
  · simp [decide_eq_true hne]
  · grind [h.right, right_iff_fits]

theorem not_arrives_of_not_fits (pppd : Pppd) (other : ReadResult) (hfd : s.fd = attached)
    (hinq : s.inq = m0 :: rest) (hfits : ¬ Fits m0) :
    ¬ Arrives mru (s.get_input pppd other) := by
  rw [get_input_attached pppd other hfd hinq]
  intro h
  exact hfits ((right_iff_fits pppd m0).mp (h.right _ (mem_append_right _ mem_cons_self)))

theorem arrives_step (h : Arrives mru s) {a : DaemonAct} (hfits : ReadsFitting s a) : Arrives mru (daemonStep s a) := by
  cases a with
  | inproc packet =>
    dsimp only [daemonStep]
    split
    · exact h
    · refine ⟨?_, fun _ _ => .inr (.inl (Nat.succ_pos _)), h.right⟩
      rw [← append_assoc, h.order]
  | ctlp =>
    dsimp only [daemonStep]
    split
    · exact h
    · exact ⟨h.order, fun _ _ => .inl rfl, h.right⟩
  | wait_input => exact ⟨h.order, fun _ _ => .inr (.inr rfl), h.right⟩
  | detach fd =>
    dsimp only [daemonStep]
    split
    · exact h
    · rename_i hfd
      exact ⟨h.order, fun hfd' => absurd hfd' hfd, h.right⟩
  | get_input pppd other =>
    dsimp only [daemonStep]
    split
    · exact h
    · rename_i hrun
      obtain ⟨hwoken, hhungup⟩ := not_or.mp hrun
      by_cases hidle : s.fd = attached → s.inq = []
      · exact h.idle hidle pppd other
      · obtain ⟨hfd, hne⟩ := Classical.not_imp.mp hidle
        obtain ⟨m0, rest, hinq⟩ := exists_cons_of_ne_nil hne
        refine h.fits pppd other hfd hinq ?_
        exact hfits (Bool.eq_true_of_not_eq_false hwoken) (Bool.eq_false_iff.mpr hhungup) hfd m0 (by rw [hinq]; rfl)

theorem not_arrives_step {a : DaemonAct} (hfits : ¬ ReadsFitting s a) : ¬ Arrives mru (daemonStep s a) := by
  cases a with
  | get_input pppd other =>
    simp only [ReadsFitting, Classical.not_imp, not_forall] at hfits
    obtain ⟨hwoken, hhungup, hfd, m0, hm0, hfits⟩ := hfits
    obtain ⟨rest, hinq⟩ : ∃ rest, s.inq = m0 :: rest := by
      cases hq : s.inq with
      | nil =>
        rw [hq] at hm0
        cases hm0
      | cons m rest =>
        rw [hq] at hm0
        cases hm0
        exact ⟨rest, rfl⟩
    have hstep : daemonStep s (.get_input pppd other) = s.get_input pppd other :=
      if_neg (by rw [hwoken, hhungup]; decide)
    rw [hstep]
    exact not_arrives_of_not_fits pppd other hfd hinq hfits
  | _ => exact absurd trivial hfits

abbrev daemonRun (s : Daemon) (a : DaemonAct) : Option Daemon := some (daemonStep s a)

/-- **Control packets arrive**: in every run, whatever packets are queued in whatever mbufs, they are read once, in
order and completely, and the daemon sees a hangup only when the line discipline or the descriptor is gone, if and only
if each packet that is read has at least one octet and less than `PPP_MTU + PPP_HDRLEN` of them, and none behind an
empty mbuf. -/
theorem arrives_iff_fits (mru : Nat) (as : List DaemonAct) :
    Throughout daemonRun (Arrives mru) .init as ↔ StepsMeet daemonRun ReadsFitting .init as := by
  obtain ⟨t, ht⟩ := exists_run (fun s a => ⟨daemonStep s a, rfl⟩) as .init
  refine good_iff_stepsMeet (fun _ h => h) (fun s a t h hok hstep => ?_)
    (fun s a t _ hno hstep => ?_) as _ t arrives_init ht
  · obtain rfl := Option.some.inj hstep
    exact arrives_step h hok
  · obtain rfl := Option.some.inj hstep
    exact not_arrives_step hno

def largestPacket : List Mbuf := [[0xff, 0x03, 0xc0, 0x21] ++ List.replicate 1500 0]

def largestRun : List DaemonAct :=
  [.inproc largestPacket, .ctlp, .wait_input, .get_input ⟨true, PHASE_AUTHENTICATE, []⟩ ⟨0, []⟩]

/-- A packet of the default size is read as a hangup. -/
theorem largest_is_hangup : largestPacket.flatten.length = PPP_MRU + PPP_HDRLEN ∧
    (read_packet attached ⟨-1, []⟩ [largestPacket]).1 = ⟨0, []⟩ ∧
    ¬ Throughout daemonRun (Arrives PPP_MRU) .init largestRun := by
  have hmbuf : ([0xff, 0x03, 0xc0, 0x21] ++ List.replicate 1500 0 : Mbuf).length = 1504 := by
    rw [length_append, length_replicate]
    rfl
  have hlength : largestPacket.flatten.length = 1504 := by
    rw [largestPacket, flatten_singleton]
    exact hmbuf
  have hfits : ¬ Fits largestPacket := fun h => absurd (hlength ▸ h.room) (by decide)
  have hcopy : copyChain (PPP_MTU + PPP_HDRLEN) 0 largestPacket = [] := by
    refine if_neg fun h => absurd h.2 ?_
    rw [hmbuf]
    decide
  refine ⟨hlength, ?_, fun h => ?_⟩
  · rw [read_packet_attached, readOf, hcopy]
    rfl
  · have hnot : ¬Arrives PPP_MRU (([.inproc largestPacket, .ctlp, .wait_input].foldl daemonStep .init).get_input
        ⟨true, PHASE_AUTHENTICATE, []⟩ ⟨0, []⟩) :=
      not_arrives_of_not_fits _ _ rfl (show _ = [largestPacket] from rfl) hfits
    exact hnot (h largestRun (prefix_refl _) _ rfl)

end Daemon

end RtemsLibbsd.Ppp
