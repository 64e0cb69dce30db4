import RtemsLibbsd.Ppp.Framing
import RtemsLibbsd.Transition

/-!
# The PPP receiver interrupt

Model of `pppinput`, `pppopen` and `pppallocmbuf` of `rtemsbsd/sys/net/ppp_tty.c`, the receive part of
`struct ppp_softc` in `if_pppvar.h`, and `PPPIOCSMRU` in `if_ppp.c`.

* Mbufs are the `m_len` octets in them; all of them have a cluster of `MCLBYTES` octets, since
  `pppallocmbuf` attaches one and `ppp_inproc` hands back clusters only.  The octets of the current mbuf
  start at its beginning and `sc_mp` points behind them.
* `Cur` is the receive chain `sc_m` with the place of `sc_mc` in it: the mbufs before, the current one,
  and those that are linked behind it.  A chain keeps the mbufs, and their `m_len`, of a frame that was
  abandoned.
* `sc_ilen` is a `short`, its increments wrap.
* The free queue is filled by the receive daemon, here by an action of the environment with any chain.
* Statistics, the `SC_RCV` flags and the parity table, and units without a tty are left out.
  `Softc.starved` is not read by the code.

The packets put on the raw queue are the frames of the stream, each with its own octets, if and only if
no good frame ends in front of mbufs that hold octets of another frame: `contents_iff_noLeftovers`.
-/

namespace RtemsLibbsd.Ppp

open Option List RtemsLibbsd.OctetStuffing RtemsLibbsd.Transition

abbrev NUM_MBUFQ : Nat := 64

abbrev Mbuf := List Byte

structure Chain where
  first : Mbuf
  rest : List Mbuf
  deriving DecidableEq

/-- `sc_m` and `sc_mc`. -/
structure Cur where
  before : List Mbuf
  mc : Mbuf
  behind : List Mbuf
  deriving DecidableEq

/-- A chain on the raw queue, with the mark `M_ERRMARK`. -/
structure RawPacket where
  errmark : Bool
  chain : List Mbuf
  deriving DecidableEq

/-- The events `RX_PACKET`, `RX_MBUF` and `RX_EMPTY` pending at the receive daemon. -/
structure RxEvents where
  packet : Bool
  mbuf : Bool
  empty : Bool
  deriving DecidableEq

structure Softc where
  m : Option Cur
  ilen : Int
  fcs : BitVec 16
  flush : Bool
  escaped : Bool
  pktlost : Bool
  freeq : List Chain
  rawq : List RawPacket
  events : RxEvents
  starved : Bool
  deriving DecidableEq

/-- The value of a `short`. -/
def short (x : Int) : Int := x.bmod 65536

def RawPacket.contents (p : RawPacket) : List Byte := p.chain.flatten

def Chain.cur (c : Chain) : Cur := ⟨[], c.first, c.rest⟩

/-- `sc_mc` is set to the first mbuf of the chain, and its `m_len` to zero. -/
def Cur.restart (cur : Cur) : Cur :=
  match cur.before with
  | [] => ⟨[], [], cur.behind⟩
  | _ :: bs => ⟨[], [], bs ++ cur.mc :: cur.behind⟩

/-- Octets are stored at `sc_mp`. -/
def Cur.push (cur : Cur) (cs : List Byte) : Cur := { cur with mc := cur.mc ++ cs }

/-- `m_len` of the last of some mbufs is decremented. -/
def trimLast (bs : List Mbuf) : List Mbuf := bs.dropLast ++ [(bs.getLastD []).dropLast]

def Cur.strip (cur : Cur) : List Mbuf :=
  if cur.mc.length - 1 = 0 then trimLast cur.before ++ cur.mc.dropLast :: cur.behind
  else cur.before ++ cur.mc.dropLast.dropLast :: cur.behind

/-- `pppallocmbuf`: a cluster for every `MCLBYTES` octets of a frame that are begun. -/
def pppallocmbuf (mru : Nat) : Chain :=
  ⟨[], List.replicate ((mru + PPP_HDRLEN + PPP_FCSLEN + MCLBYTES - 1) / MCLBYTES - 1) []⟩

/-- The receive part of `pppopen` and `pppalloc`. -/
def pppopen : Softc where
  m := some (pppallocmbuf PPP_MRU).cur
  ilen := 0
  fcs := 0
  flush := false
  escaped := false
  pktlost := false
  freeq := List.replicate (NUM_MBUFQ - 1) (pppallocmbuf PPP_MRU)
  rawq := []
  events := ⟨false, false, false⟩
  starved := false

/-- `PPPIOCSMRU`: the new value of `sc_mru`, none for an error. -/
def pppiocsmru (mru new : Nat) : Option Nat :=
  if new ≥ MCLBYTES then none else if new ≥ PPP_MRU then some new else some mru

namespace Softc

variable (cfg : RxConfig)

/-- The label `flush`. -/
def toFlush (s : Softc) (cur : Cur) : Softc := { s with m := some cur, flush := true }

def endFrame (s : Softc) (cur : Cur) : Softc :=
  let t := { s with ilen := 0 }
  if s.flush || s.escaped || (decide (s.ilen > 0) && s.fcs != PPP_GOODFCS) then
    { t with pktlost := true, flush := false, escaped := false }
  else if s.ilen < (PPP_HDRLEN + PPP_FCSLEN : Nat) then
    { t with pktlost := s.pktlost || decide (s.ilen ≠ 0) }
  else
    { t with
      pktlost := false
      rawq := s.rawq ++ [⟨s.pktlost, cur.strip⟩]
      m := s.freeq.head?.map Chain.cur
      freeq := s.freeq.tail
      events := { s.events with packet := true } }

/-- The first octet: the buffer is initialised and left out address and control octets are stored.
    `false` for a frame that has to be ignored. -/
def firstOctet (s : Softc) (cur : Cur) (c : Byte) : Softc × Cur × Bool :=
  if s.ilen = 0 then
    let t := { s with fcs := PPP_INITFCS }
    if c ≠ PPP_ALLSTATIONS then
      if cfg.rejCompAc then (t, cur.restart, false)
      else ({ t with ilen := short (t.ilen + 2) }, cur.restart.push [PPP_ALLSTATIONS, PPP_UI], true)
    else (t, cur.restart, true)
  else (s, cur, true)

def protocolOctet (s : Softc) (cur : Cur) (c : Byte) : Softc × Cur :=
  if s.ilen = 2 ∧ odd c then ({ s with ilen := short (s.ilen + 1) }, cur.push [0]) else (s, cur)

/-- If the mbuf is full, the next one is used; none without a free buffer. -/
def room (s : Softc) (cur : Cur) : Option (Softc × Cur) :=
  if MCLBYTES - cur.mc.length > 0 then some (s, cur)
  else
    match cur.behind with
    | _ :: _ => some (s, ⟨cur.before ++ [cur.mc], [], []⟩)
    | [] =>
      match s.freeq with
      | [] => none
      | _ :: freeq =>
        some ({ s with freeq := freeq, events := { s.events with mbuf := true } },
          ⟨cur.before ++ [cur.mc], [], []⟩)

/-- The octet goes into the buffer and into the check sequence. -/
def append (s : Softc) (cur : Cur) (c : Byte) : Softc :=
  match s.room cur with
  | none => { s.toFlush cur with starved := true }
  | some (t, cur) => { t with m := some (cur.push [c]), fcs := PPP_FCS t.fcs c }

def storeOctet (s : Softc) (cur : Cur) (c : Byte) : Softc :=
  if s.ilen = 1 ∧ c ≠ PPP_UI then s.toFlush cur
  else
    let p := protocolOctet s cur c
    if p.1.ilen = 3 ∧ odd c = false then p.1.toFlush p.2
    else
      let t : Softc := { p.1 with ilen := short (p.1.ilen + 1) }
      if t.ilen > (cfg.mru + PPP_HDRLEN + PPP_FCSLEN : Nat) then t.toFlush p.2 else t.append p.2 c

def store (s : Softc) (cur : Cur) (c : Byte) : Softc :=
  let p := firstOctet cfg s cur c
  if p.2.2 then storeOctet cfg p.1 p.2.1 c else p.1.toFlush p.2.1

/-- `pppinput` with a receive chain. -/
def octet (s : Softc) (cur : Cur) (c : Byte) : Softc :=
  if c = PPP_FLAG then s.endFrame cur
  else if removed cfg.rasyncmap c then s
  else if s.escaped then store cfg { s with escaped := false } cur (transform c)
  else if c = PPP_ESCAPE then { s with escaped := true }
  else store cfg s cur c

end Softc

def pppinput (cfg : RxConfig) (s : Softc) (c : Byte) : Softc :=
  match s.m with
  | some cur => s.octet cfg cur c
  | none =>
    let t := { s with events := { s.events with empty := true } }
    match s.freeq with
    | [] => { t with starved := true }
    | b :: freeq => { t with m := some b.cur, freeq := freeq }.octet cfg b.cur c

inductive InputAct where
  | input (c : Byte)
  | free (b : Chain)

def inputStep (cfg : RxConfig) (s : Softc) : InputAct → Softc
  | .input c => pppinput cfg s c
  | .free b => { s with freeq := s.freeq ++ [b] }

def feed (cfg : RxConfig) (s : Softc) (as : List InputAct) : Softc := as.foldl (inputStep cfg) s

def stream (as : List InputAct) : List Byte :=
  as.filterMap fun a =>
    match a with
    | .input c => some c
    | .free _ => none

def Softc.accepts (s : Softc) : Bool :=
  !s.flush && !s.escaped && s.fcs == PPP_GOODFCS && decide ((PPP_HDRLEN + PPP_FCSLEN : Nat) ≤ s.ilen)

def NoLeftovers (s : Softc) : InputAct → Prop
  | .input c => c = PPP_FLAG → s.accepts = true → ∀ cur ∈ s.m, cur.behind.flatten = []
  | .free _ => True

section Content

theorem take_length_sub_two (xs : List Byte) (y x : Byte) :
    (xs ++ [y] ++ [x]).take ((xs ++ [y] ++ [x]).length - PPP_FCSLEN) = xs := by
  simp

theorem flatten_strip {cur : Cur} {e : List Byte} (he : cur.before.flatten ++ cur.mc = e) (hmc : cur.mc ≠ [])
    (hbefore : ∀ b ∈ cur.before, b ≠ []) (hlen : 2 ≤ e.length) :
    cur.strip.flatten = e.take (e.length - PPP_FCSLEN) ++ cur.behind.flatten := by
  obtain ⟨xs, x, hx⟩ := eq_nil_or_concat cur.mc |>.resolve_left hmc
  rw [concat_eq_append] at hx
  unfold Cur.strip
  split
  · rename_i hone
    have hxs : xs = [] := by
      rw [hx, length_append, length_singleton] at hone
      exact length_eq_zero_iff.mp (by omega)
    subst hxs
    have hne : cur.before ≠ [] := by
      intro hnil
      rw [← he, hnil, hx] at hlen
      exact absurd hlen (by simp)
    -- the check sequence begins in the mbuf before the current one
    obtain ⟨bs, b, hb⟩ := eq_nil_or_concat cur.before |>.resolve_left hne
    obtain ⟨ys, y, hy⟩ := eq_nil_or_concat b |>.resolve_left (hbefore b (by rw [hb]; simp))
    have heq : e = bs.flatten ++ ys ++ [y] ++ [x] := by
      rw [← he, hb, hx, hy]
      simp
    rw [heq, take_length_sub_two]
    simp [trimLast, hb, hx, hy]
  · rename_i hmore
    have hxs : xs ≠ [] := by
      rintro rfl
      rw [hx] at hmore
      exact hmore rfl
    obtain ⟨ys, y, hy⟩ := eq_nil_or_concat xs |>.resolve_left hxs
    grind [take_length_sub_two]

end Content

section Store

variable {cfg : RxConfig} {s t : Softc} {cur : Cur} {c : Byte} {us e : List Byte}

structure Kept (s t : Softc) : Prop where
  rawq : t.rawq = s.rawq
  escaped : t.escaped = s.escaped
  flush : s.flush = true → t.flush = true
  starved : s.starved = true → t.starved = true

theorem Kept.trans {u : Softc} (h : Kept s t) (h' : Kept t u) : Kept s u :=
  ⟨h'.rawq.trans h.rawq, h'.escaped.trans h.escaped, fun hf => h'.flush (h.flush hf),
    fun hs => h'.starved (h.starved hs)⟩

theorem kept_toFlush (s : Softc) (cur : Cur) : Kept s (s.toFlush cur) := ⟨rfl, rfl, fun _ => rfl, id⟩

theorem kept_room {p : Softc × Cur} (h : s.room cur = some p) : Kept s p.1 := by
  unfold Softc.room at h
  split at h
  · cases h
    exact ⟨rfl, rfl, id, id⟩
  · split at h
    · cases h
      exact ⟨rfl, rfl, id, id⟩
    · split at h
      · cases h
      · cases h
        exact ⟨rfl, rfl, id, id⟩

theorem kept_append (s : Softc) (cur : Cur) (c : Byte) : Kept s (s.append cur c) := by
  unfold Softc.append
  split
  · exact ⟨rfl, rfl, fun _ => rfl, fun _ => rfl⟩
  · rename_i hroom
    obtain ⟨hrawq, hescaped, hflush, hstarved⟩ := kept_room hroom
    exact ⟨hrawq, hescaped, hflush, hstarved⟩

theorem kept_storeOctet (cfg : RxConfig) (s : Softc) (cur : Cur) (c : Byte) :
    Kept s (s.storeOctet cfg cur c) := by
  have hprotocol : Kept s (s.protocolOctet cur c).1 := by
    unfold Softc.protocolOctet
    split <;> exact ⟨rfl, rfl, id, id⟩
  unfold Softc.storeOctet
  split
  · exact kept_toFlush s cur
  · dsimp only
    split
    · exact hprotocol.trans (kept_toFlush _ _)
    · have hlen : ∀ i, Kept s { (s.protocolOctet cur c).1 with ilen := i } :=
        fun i => ⟨hprotocol.rawq, hprotocol.escaped, hprotocol.flush, hprotocol.starved⟩
      split
      · exact (hlen _).trans (kept_toFlush _ _)
      · exact (hlen _).trans (kept_append _ _ c)

theorem kept_store (cfg : RxConfig) (s : Softc) (cur : Cur) (c : Byte) : Kept s (s.store cfg cur c) := by
  have hfirst : Kept s (s.firstOctet cfg cur c).1 := by
    unfold Softc.firstOctet
    split
    · split
      · split <;> exact ⟨rfl, rfl, id, id⟩
      · exact ⟨rfl, rfl, id, id⟩
    · exact ⟨rfl, rfl, id, id⟩
  unfold Softc.store
  dsimp only
  split
  · exact hfirst.trans (kept_storeOctet cfg _ _ c)
  · exact hfirst.trans (kept_toFlush _ _)

/-- The octets of a frame are in the mbufs up to the current one. -/
structure InChain (cur : Cur) (e : List Byte) : Prop where
  octets : cur.before.flatten ++ cur.mc = e
  mc : e ≠ [] → cur.mc ≠ []
  before : ∀ b ∈ cur.before, b ≠ []

theorem InChain.push (h : InChain cur e) {cs : List Byte} (hcs : cs ≠ []) :
    InChain (cur.push cs) (e ++ cs) where
  octets := by
    rw [← h.octets, append_assoc]
    rfl
  mc _ := by
    intro hnil
    exact hcs (append_eq_nil_iff.mp hnil).2
  before := h.before

theorem inChain_restart (cur : Cur) : InChain cur.restart [] := by
  unfold Cur.restart
  split <;> exact ⟨rfl, fun h => absurd rfl h, fun b hb => by cases hb⟩

theorem short_eq {n : Nat} (h : n < 32768) : short n = n := by
  rw [short, Int.bmod_def]
  split <;> omega

theorem room_spec {p : Softc × Cur} (hin : InChain cur e) (h : s.room cur = some p) :
    p.2.before.flatten ++ p.2.mc = e ∧ (∀ b ∈ p.2.before, b ≠ []) ∧
      p.1.flush = s.flush ∧ p.1.ilen = s.ilen ∧ p.1.fcs = s.fcs := by
  have hfull : ¬ MCLBYTES - cur.mc.length > 0 →
      (cur.before ++ [cur.mc]).flatten ++ [] = e ∧ ∀ b ∈ cur.before ++ [cur.mc], b ≠ [] := by
    intro hlen
    grind [hin.octets, hin.before]
  unfold Softc.room at h
  split at h
  · cases h
    exact ⟨hin.octets, hin.before, rfl, rfl, rfl⟩
  · grind

/-- The receiver has the octets `us` of a frame, which stand for `e`. -/
structure Holds (s : Softc) (us e : List Byte) : Prop where
  flush : s.flush = false
  ilen : s.ilen = e.length
  held : us ≠ [] → s.fcs = pppfcs PPP_INITFCS us ∧ ∃ cur, s.m = some cur ∧ InChain cur e

/-- What the receiver makes of octets, if they stand for `e`. -/
def Reads (cfg : RxConfig) (s : Softc) (us : List Byte) : Option (List Byte) → Prop
  | some e => if e.length ≤ cfg.mru + PPP_HDRLEN + PPP_FCSLEN then Holds s us e else s.flush = true
  | none => s.flush = true

theorem append_spec (hflush : s.flush = false) (hilen : s.ilen = (e ++ [c]).length)
    (hfcs : s.fcs = pppfcs PPP_INITFCS us) (hin : InChain cur e) (hfed : (s.append cur c).starved = false) :
    Holds (s.append cur c) (us ++ [c]) (e ++ [c]) := by
  unfold Softc.append at hfed ⊢
  split at hfed
  · cases hfed
  · rename_i t cur' hroom
    obtain ⟨hoctets, hbefore, hflush', hilen', hfcs'⟩ := room_spec hin hroom
    refine ⟨hflush'.trans hflush, hilen'.trans hilen, fun _ => ⟨?_, _, rfl, ?_⟩⟩
    · show PPP_FCS t.fcs c = _
      rw [pppfcs_append, ← hfcs, ← hfcs']
      rfl
    · refine ⟨?_, fun _ hnil => ?_, hbefore⟩
      · rw [← hoctets, append_assoc]
        rfl
      · exact absurd (append_eq_nil_iff.mp hnil).2 (cons_ne_nil c [])

theorem storeOctet_spec (hmru : cfg.mru < MCLBYTES) (hflush : s.flush = false) (hilen : s.ilen = e.length)
    (hfcs : s.fcs = pppfcs PPP_INITFCS us) (hin : InChain cur e)
    (hlen : e.length ≤ cfg.mru + PPP_HDRLEN + PPP_FCSLEN) (hfed : (s.storeOctet cfg cur c).starved = false) :
    Reads cfg (s.storeOctet cfg cur c) (us ++ [c])
      (if e.length = 1 ∧ c ≠ PPP_UI then none else putProtocol e c) := by
  have hconst : MCLBYTES = 2048 ∧ PPP_HDRLEN = 4 ∧ PPP_FCSLEN = 2 := ⟨rfl, rfl, rfl⟩
  have hshort : ∀ n ≤ e.length + 2, short n = n := fun n hn => short_eq (by omega)
  unfold Softc.storeOctet at hfed ⊢
  have hcontrol : (s.ilen = 1 ∧ c ≠ PPP_UI) ↔ (e.length = 1 ∧ c ≠ PPP_UI) := by
    rw [hilen]
    exact and_congr_left' (by omega)
  by_cases h1 : e.length = 1 ∧ c ≠ PPP_UI
  · rw [if_pos (hcontrol.mpr h1), if_pos h1]
    rfl
  · rw [if_neg fun h => h1 (hcontrol.mp h)] at hfed ⊢
    rw [if_neg h1]
    dsimp only at hfed ⊢
    have hlimit : ∀ (e' : List Byte) (t : Softc) (cur' : Cur), e'.length ≤ e.length + 1 → t.flush = false →
        t.ilen = e'.length → t.fcs = pppfcs PPP_INITFCS us → InChain cur' e' →
        (if short (t.ilen + 1) > (cfg.mru + PPP_HDRLEN + PPP_FCSLEN : Nat) then
            ({ t with ilen := short (t.ilen + 1) } : Softc).toFlush cur'
          else ({ t with ilen := short (t.ilen + 1) } : Softc).append cur' c).starved = false →
        Reads cfg (if short (t.ilen + 1) > (cfg.mru + PPP_HDRLEN + PPP_FCSLEN : Nat) then
            ({ t with ilen := short (t.ilen + 1) } : Softc).toFlush cur'
          else ({ t with ilen := short (t.ilen + 1) } : Softc).append cur' c) (us ++ [c])
          (some (e' ++ [c])) := by
      intro e' t cur' he' htflush htilen htfcs htin htfed
      have hnext : short (t.ilen + 1) = (e' ++ [c]).length := by
        rw [htilen, length_append, length_singleton]
        exact hshort (e'.length + 1) (by omega)
      rw [hnext] at htfed ⊢
      by_cases hbig : (e' ++ [c]).length ≤ cfg.mru + PPP_HDRLEN + PPP_FCSLEN
      · rw [if_neg (by omega)] at htfed ⊢
        rw [Reads, if_pos hbig]
        exact append_spec htflush rfl htfcs htin htfed
      · rw [if_pos (by omega)]
        rw [Reads, if_neg hbig]
        rfl
    by_cases h2 : e.length = 2 ∧ odd c
    · have hpair : s.protocolOctet cur c = ({ s with ilen := short (s.ilen + 1) }, cur.push [0]) :=
        if_pos ⟨by rw [hilen]; omega, h2.2⟩
      have hput : putProtocol e c = some (e ++ [0] ++ [c]) := by
        rw [putProtocol, if_pos h2, append_assoc]
        rfl
      have hilen' : short (s.ilen + 1) = (e ++ [0]).length := by
        rw [hilen, length_append, length_singleton]
        exact hshort (e.length + 1) (by omega)
      rw [hpair] at hfed ⊢
      rw [hput]
      dsimp only at hfed ⊢
      rw [if_neg (by simp [h2.2])] at hfed ⊢
      exact hlimit (e ++ [0]) { s with ilen := short (s.ilen + 1) } (cur.push [0]) (by simp) hflush hilen' hfcs
        (hin.push (cons_ne_nil 0 [])) hfed
    · have hpair : s.protocolOctet cur c = (s, cur) := by
        refine if_neg fun h => h2 ⟨?_, h.2⟩
        have := hilen.symm.trans h.1
        omega
      rw [hpair] at hfed ⊢
      dsimp only at hfed ⊢
      by_cases h3 : e.length = 3 ∧ odd c = false
      · rw [if_pos ⟨by rw [hilen]; omega, h3.2⟩]
        rw [putProtocol, if_neg h2, if_pos h3]
        rfl
      · have h3' : ¬ (s.ilen = 3 ∧ odd c = false) := by
          rintro ⟨hl, ho⟩
          exact h3 ⟨by omega, ho⟩
        rw [if_neg h3'] at hfed ⊢
        rw [putProtocol, if_neg h2, if_neg h3]
        exact hlimit e s cur (by omega) hflush hilen hfcs hin hfed

theorem expand_ne_nil {rejCompAc : Bool} (h : expand rejCompAc us = some e) (hus : us ≠ []) : e ≠ [] := by
  unfold expand at h
  rcases address_cases rejCompAc us with ⟨rfl, -⟩ | ⟨-, ha⟩ | ⟨-, ha⟩ | ⟨-, w, hw, ha⟩
  · exact absurd rfl hus
  · rw [ha] at h
    cases h
    exact cons_ne_nil _ _
  · have hnil := ha []
    rw [append_nil] at hnil
    rw [hnil] at h
    cases h
  · have hnil := ha []
    rw [append_nil, append_nil] at hnil
    rw [hnil, bind_some] at h
    rintro rfl
    exact absurd (two_le_length_protocol hw h) (by decide)

theorem length_put_le {rejCompAc : Bool} {e' : List Byte} (h : put rejCompAc e c = some e') :
    e.length ≤ e'.length := by
  have hprotocol : ∀ {e₀ e' : List Byte}, putProtocol e₀ c = some e' → e₀.length ≤ e'.length := by
    intro e₀ e' h
    grind [putProtocol]
  unfold put at h
  grind

theorem store_spec (hmru : cfg.mru < MCLBYTES) (h : Reads cfg s us (expand cfg.rejCompAc us))
    (hm : s.m = some cur) (hfed : (s.store cfg cur c).starved = false) :
    Reads cfg (s.store cfg cur c) (us ++ [c]) (expand cfg.rejCompAc (us ++ [c])) := by
  have hkept := kept_store cfg s cur c
  rw [expand_concat]
  cases he : expand cfg.rejCompAc us with
  | none =>
    rw [he] at h
    exact hkept.flush h
  | some e =>
    rw [he, Reads] at h
    rw [bind_some]
    by_cases hlen : e.length ≤ cfg.mru + PPP_HDRLEN + PPP_FCSLEN
    · rw [if_pos hlen] at h
      by_cases hus : us = []
      · subst hus
        have hnil : e = [] := by
          cases he
          rfl
        subst hnil
        have hstart : ∀ (e : List Byte) (cur' : Cur), InChain cur' e → e.length ≤ 2 →
            (({ s with fcs := PPP_INITFCS, ilen := e.length } : Softc).storeOctet cfg cur' c).starved = false →
            Reads cfg (({ s with fcs := PPP_INITFCS, ilen := e.length } : Softc).storeOctet cfg cur' c) [c]
              (if e.length = 1 ∧ c ≠ PPP_UI then none else putProtocol e c) := by
          intro e cur' hin he hfed
          have hlimit : e.length ≤ cfg.mru + PPP_HDRLEN + PPP_FCSLEN :=
            Nat.le_trans he (Nat.le_add_left 2 _)
          have hempty : PPP_INITFCS = pppfcs PPP_INITFCS [] := rfl
          exact storeOctet_spec (s := { s with fcs := PPP_INITFCS, ilen := e.length }) hmru h.flush rfl hempty
            hin hlimit hfed
        have hzero : s.ilen = 0 := h.ilen
        unfold Softc.store Softc.firstOctet at hfed ⊢
        rw [if_pos hzero] at hfed ⊢
        by_cases hc : c = PPP_ALLSTATIONS
        · have hput : put cfg.rejCompAc [] c = putProtocol [] c := by
            rw [put, if_pos rfl, if_pos hc]
            rfl
          grind [inChain_restart]
        · rw [if_pos hc] at hfed ⊢
          have hput : put cfg.rejCompAc [] c =
              if cfg.rejCompAc then none else putProtocol [PPP_ALLSTATIONS, PPP_UI] c := if_neg hc
          rw [hput]
          by_cases hrej : cfg.rejCompAc = true
          · rw [if_pos hrej] at hfed ⊢
            rw [if_pos hrej]
            rfl
          · rw [if_neg hrej] at hfed ⊢
            rw [if_neg hrej]
            have hshort : short (s.ilen + 2) = (([PPP_ALLSTATIONS, PPP_UI] : List Byte).length : Int) := by
              rw [hzero]
              rfl
            rw [hshort] at hfed ⊢
            exact hstart [PPP_ALLSTATIONS, PPP_UI] _
              ((inChain_restart cur).push (cons_ne_nil _ _)) (by simp) hfed
      · obtain ⟨hfcs, cur', hm', hin⟩ := h.held hus
        obtain rfl : cur' = cur := some.inj (hm'.symm.trans hm)
        have hne : e ≠ [] := expand_ne_nil he hus
        have hfirst : s.firstOctet cfg cur' c = (s, cur', true) := by
          refine if_neg fun hzero => hne ?_
          exact length_eq_zero_iff.mp (by exact_mod_cast h.ilen.symm.trans hzero)
        have hstore : s.store cfg cur' c = s.storeOctet cfg cur' c := by
          rw [Softc.store, hfirst]
          rfl
        rw [hstore] at hfed ⊢
        have hput : put cfg.rejCompAc e c = if e.length = 1 ∧ c ≠ PPP_UI then none else putProtocol e c :=
          if_neg hne
        rw [hput]
        exact storeOctet_spec hmru h.flush h.ilen hfcs hin hlen hfed
    · rw [if_neg hlen] at h
      cases hput : put cfg.rejCompAc e c with
      | none => exact hkept.flush h
      | some e' =>
        have := length_put_le hput
        rw [Reads, if_neg (by omega)]
        exact hkept.flush h

end Store

section Receive

variable {cfg : RxConfig} {s : Softc} {cur : Cur} {c : Byte} {seg : List Byte}

def heard (cfg : RxConfig) (seg : List Byte) : List Byte × Bool :=
  scan PPP_ESCAPE transform (seg.filter fun c => !removed cfg.rasyncmap c)

structure Receives (cfg : RxConfig) (s : Softc) (seg : List Byte) : Prop where
  escaped : s.escaped = (heard cfg seg).2
  reads : Reads cfg s (heard cfg seg).1 (expand cfg.rejCompAc (heard cfg seg).1)

theorem Reads.congr {t : Softc} {us : List Byte} {o : Option (List Byte)} (h : Reads cfg s us o)
    (hflush : t.flush = s.flush) (hilen : t.ilen = s.ilen) (hfcs : t.fcs = s.fcs)
    (hm : us ≠ [] → t.m = s.m) : Reads cfg t us o := by
  cases o with
  | none => exact hflush.trans h
  | some e =>
    rw [Reads] at h ⊢
    split
    · rename_i hlen
      rw [if_pos hlen] at h
      refine ⟨hflush.trans h.flush, hilen.trans h.ilen, fun hus => ?_⟩
      rw [hfcs, hm hus]
      exact h.held hus
    · rename_i hlen
      rw [if_neg hlen] at h
      exact hflush.trans h

theorem heard_concat (cfg : RxConfig) (seg : List Byte) (c : Byte) :
    heard cfg (seg ++ [c]) =
      if removed cfg.rasyncmap c then heard cfg seg
      else scanOctet PPP_ESCAPE transform (heard cfg seg) c := by
  unfold heard
  rw [filter_append]
  split
  · rename_i hr
    simp [hr]
  · rename_i hr
    have hkeep : removed cfg.rasyncmap c = false := Bool.eq_false_iff.mpr hr
    simp [hkeep, scan_concat]

theorem octet_spec (hmru : cfg.mru < MCLBYTES) (h : Receives cfg s seg) (hm : s.m = some cur)
    (hc : c ≠ PPP_FLAG) (hfed : (s.octet cfg cur c).starved = false) :
    Receives cfg (s.octet cfg cur c) (seg ++ [c]) ∧ (s.octet cfg cur c).rawq = s.rawq := by
  have hheard := heard_concat cfg seg c
  unfold Softc.octet at hfed ⊢
  rw [if_neg hc] at hfed ⊢
  by_cases hr : removed cfg.rasyncmap c = true
  · rw [if_pos hr] at hfed ⊢
    rw [if_pos hr] at hheard
    exact ⟨⟨hheard ▸ h.escaped, hheard ▸ h.reads⟩, rfl⟩
  · rw [if_neg hr] at hfed ⊢
    rw [if_neg hr, scanOctet, ← h.escaped] at hheard
    by_cases hesc : s.escaped = true
    · rw [if_pos hesc] at hfed ⊢
      rw [if_pos hesc] at hheard
      have hkept := kept_store cfg { s with escaped := false } cur (transform c)
      refine ⟨⟨?_, ?_⟩, hkept.rawq⟩
      · rw [hheard]
        exact hkept.escaped
      · rw [hheard]
        exact store_spec hmru (h.reads.congr rfl rfl rfl fun _ => rfl) hm hfed
    · rw [if_neg hesc] at hfed ⊢
      rw [if_neg hesc] at hheard
      by_cases hce : c = PPP_ESCAPE
      · rw [if_pos hce] at hfed ⊢
        rw [if_pos hce] at hheard
        refine ⟨⟨?_, ?_⟩, rfl⟩
        · rw [hheard]
        · rw [hheard]
          exact h.reads.congr rfl rfl rfl fun _ => rfl
      · rw [if_neg hce] at hfed ⊢
        rw [if_neg hce] at hheard
        have hkept := kept_store cfg s cur c
        refine ⟨⟨?_, ?_⟩, hkept.rawq⟩
        · rw [hheard, hkept.escaped]
          exact Bool.not_eq_true _ ▸ hesc
        · rw [hheard]
          exact store_spec hmru h.reads hm hfed

theorem receives_nil (hilen : s.ilen = 0) (hflush : s.flush = false) (hescaped : s.escaped = false) :
    Receives cfg s [] := by
  refine ⟨hescaped, ?_⟩
  have hholds : Holds s [] [] := ⟨hflush, hilen, fun hne => absurd rfl hne⟩
  have hshort : ([] : List Byte).length ≤ cfg.mru + PPP_HDRLEN + PPP_FCSLEN := Nat.zero_le _
  show Reads cfg s [] (some [])
  rw [Reads]
  split
  · exact hholds
  · rename_i hlong
    exact absurd hshort hlong

theorem frameOf_eq (cfg : RxConfig) (seg : List Byte) : frameOf cfg seg =
    if (heard cfg seg).2 then none
    else (expand cfg.rejCompAc (heard cfg seg).1).bind fun e =>
      if pppfcs PPP_INITFCS (heard cfg seg).1 = PPP_GOODFCS ∧ PPP_HDRLEN + PPP_FCSLEN ≤ e.length ∧
          e.length ≤ cfg.mru + PPP_HDRLEN + PPP_FCSLEN then some (e.take (e.length - PPP_FCSLEN))
      else none := by
  unfold frameOf unstuff heard
  split <;> rfl

theorem frameOf_of_flush (h : Receives cfg s seg) (hflush : s.flush = true) : frameOf cfg seg = none := by
  have hreads := h.reads
  rw [frameOf_eq]
  cases he : expand cfg.rejCompAc (heard cfg seg).1 with
  | none =>
    split <;> rfl
  | some e =>
    rw [he, Reads] at hreads
    have hlong : ¬ e.length ≤ cfg.mru + PPP_HDRLEN + PPP_FCSLEN := by
      intro hlen
      rw [if_pos hlen] at hreads
      exact Bool.noConfusion (hflush.symm.trans hreads.flush)
    split
    · rfl
    · rw [bind_some, if_neg fun hgood => hlong hgood.2.2]

theorem Receives.holds (h : Receives cfg s seg) (hflush : s.flush = false) :
    ∃ e, expand cfg.rejCompAc (heard cfg seg).1 = some e ∧
      e.length ≤ cfg.mru + PPP_HDRLEN + PPP_FCSLEN ∧ Holds s (heard cfg seg).1 e := by
  have hreads := h.reads
  cases he : expand cfg.rejCompAc (heard cfg seg).1 with
  | none =>
    rw [he] at hreads
    exact Bool.noConfusion (hflush.symm.trans hreads)
  | some e =>
    rw [he, Reads] at hreads
    grind

theorem frameOf_of_holds {e : List Byte} (h : Receives cfg s seg)
    (he : expand cfg.rejCompAc (heard cfg seg).1 = some e)
    (hlen : e.length ≤ cfg.mru + PPP_HDRLEN + PPP_FCSLEN) (hholds : Holds s (heard cfg seg).1 e) :
    frameOf cfg seg = if s.accepts then some (e.take (e.length - PPP_FCSLEN)) else none := by
  have hesc := h.escaped
  rw [frameOf_eq, ← hesc, he, bind_some]
  by_cases hescaped : s.escaped = true
  · rw [if_pos hescaped, if_neg (by simp [Softc.accepts, hescaped])]
  · rw [if_neg hescaped]
    have hescaped' : s.escaped = false := Bool.eq_false_iff.mpr hescaped
    have hiff : (pppfcs PPP_INITFCS (heard cfg seg).1 = PPP_GOODFCS ∧ PPP_HDRLEN + PPP_FCSLEN ≤ e.length ∧
        e.length ≤ cfg.mru + PPP_HDRLEN + PPP_FCSLEN) ↔ s.accepts = true := by
      have hilen : ((PPP_HDRLEN + PPP_FCSLEN : Nat) : Int) ≤ s.ilen ↔ PPP_HDRLEN + PPP_FCSLEN ≤ e.length := by
        rw [hholds.ilen]
        exact Int.ofNat_le
      simp only [Softc.accepts, hholds.flush, hescaped', Bool.not_false, Bool.true_and, Bool.and_eq_true,
        beq_iff_eq, decide_eq_true_eq, hilen]
      by_cases hus : (heard cfg seg).1 = []
      · have hnil : e = [] := by
          rw [hus] at he
          cases he
          rfl
        grind
      · grind [hholds.held]
    grind

/-- `endFrame` puts a chain on the raw queue if `accepts` says so. -/
theorem endFrame_of_not_accepts (s : Softc) (cur : Cur) (h : s.accepts = false) :
    (s.endFrame cur).rawq = s.rawq ∧ (s.endFrame cur).starved = s.starved ∧ (s.endFrame cur).ilen = 0 ∧
      (s.endFrame cur).flush = false ∧ (s.endFrame cur).escaped = false := by
  unfold Softc.endFrame
  split
  · exact ⟨rfl, rfl, rfl, rfl, rfl⟩
  · rename_i hgood
    simp only [Bool.or_eq_true, Bool.and_eq_true, decide_eq_true_eq, bne_iff_ne, not_or, not_and,
      not_not, Bool.not_eq_true] at hgood
    obtain ⟨⟨hflush, hescaped⟩, hfcs⟩ := hgood
    split
    · exact ⟨rfl, rfl, rfl, hflush, hescaped⟩
    · have hacc : s.accepts = true := by
        have hpos : s.ilen > 0 := by
          have hconst : PPP_HDRLEN + PPP_FCSLEN = 6 := rfl
          omega
        simp only [Softc.accepts, hflush, hescaped, hfcs hpos, Bool.not_false, Bool.true_and, beq_self_eq_true,
          decide_eq_true_eq]
        omega
      exact Bool.noConfusion (h.symm.trans hacc)

theorem endFrame_of_accepts (s : Softc) (cur : Cur) (h : s.accepts = true) :
    (s.endFrame cur).rawq = s.rawq ++ [⟨s.pktlost, cur.strip⟩] ∧
      (s.endFrame cur).starved = s.starved ∧ (s.endFrame cur).ilen = 0 ∧
      (s.endFrame cur).flush = false ∧ (s.endFrame cur).escaped = false := by
  simp only [Softc.accepts, Bool.and_eq_true, Bool.not_eq_true', beq_iff_eq, decide_eq_true_eq] at h
  unfold Softc.endFrame
  grind

/-- A flag while the receiver has the octets of a segment: the frame in it, if there is one, goes to the
    raw queue, and what is linked behind it goes with it. -/
theorem endFrame_spec (h : Receives cfg s seg) (hm : s.m = some cur) :
    Receives cfg (s.endFrame cur) [] ∧ (s.endFrame cur).starved = s.starved ∧
      (s.accepts = false → frameOf cfg seg = none ∧ (s.endFrame cur).rawq = s.rawq) ∧
      (s.accepts = true → ∃ f raw, frameOf cfg seg = some f ∧ (s.endFrame cur).rawq = s.rawq ++ [raw] ∧
        raw.contents = f ++ cur.behind.flatten) := by
  cases hacc : s.accepts with
  | false =>
    obtain ⟨hrawq, hstarved, hilen, hflush, hescaped⟩ := endFrame_of_not_accepts s cur hacc
    refine ⟨receives_nil hilen hflush hescaped, hstarved, fun _ => ⟨?_, hrawq⟩, nofun⟩
    cases hfl : s.flush with
    | true => exact frameOf_of_flush h hfl
    | false =>
      obtain ⟨e, he, hlen, hholds⟩ := h.holds hfl
      rw [frameOf_of_holds h he hlen hholds, hacc]
      rfl
  | true =>
    obtain ⟨hrawq, hstarved, hilen, hflush, hescaped⟩ := endFrame_of_accepts s cur hacc
    refine ⟨receives_nil hilen hflush hescaped, hstarved, nofun, fun _ => ?_⟩
    have hfl : s.flush = false := by
      simp only [Softc.accepts, Bool.and_eq_true, Bool.not_eq_true'] at hacc
      exact hacc.1.1.1
    obtain ⟨e, he, hlen, hholds⟩ := h.holds hfl
    have hlong : PPP_HDRLEN + PPP_FCSLEN ≤ e.length := by
      simp only [Softc.accepts, Bool.and_eq_true, decide_eq_true_eq, hholds.ilen, Int.ofNat_le] at hacc
      exact hacc.2
    have hne : e ≠ [] := by
      rintro rfl
      exact absurd hlong (by decide)
    have hus : (heard cfg seg).1 ≠ [] := by
      intro hnil
      rw [hnil] at he
      cases he
      exact hne rfl
    obtain ⟨-, cur', hm', hin⟩ := hholds.held hus
    obtain rfl : cur' = cur := some.inj (hm'.symm.trans hm)
    refine ⟨e.take (e.length - PPP_FCSLEN), _, ?_, hrawq, ?_⟩
    · rw [frameOf_of_holds h he hlen hholds, hacc]
      rfl
    · exact flatten_strip hin.octets (hin.mc hne) hin.before (Nat.le_trans (by decide) hlong)

theorem Receives.of_none {t : Softc} (h : Receives cfg s seg) (hnone : s.m = none)
    (hflush : t.flush = s.flush) (hilen : t.ilen = s.ilen) (hescaped : t.escaped = s.escaped) :
    Receives cfg t seg := by
  refine ⟨hescaped.trans h.escaped, ?_⟩
  have hreads := h.reads
  cases he : expand cfg.rejCompAc (heard cfg seg).1 with
  | none =>
    rw [he] at hreads
    exact hflush.trans hreads
  | some e =>
    rw [he, Reads] at hreads
    rw [Reads]
    split
    · rename_i hlen
      rw [if_pos hlen] at hreads
      refine ⟨hflush.trans hreads.flush, hilen.trans hreads.ilen, fun hus => ?_⟩
      obtain ⟨-, cur, hm, -⟩ := hreads.held hus
      exact nomatch hnone.symm.trans hm
    · rename_i hlen
      rw [if_neg hlen] at hreads
      exact hflush.trans hreads

theorem not_accepts_of_none (h : Receives cfg s seg) (hnone : s.m = none) : s.accepts = false := by
  rw [← Bool.not_eq_true]
  intro hacc
  simp only [Softc.accepts, Bool.and_eq_true, Bool.not_eq_true', decide_eq_true_eq] at hacc
  obtain ⟨⟨⟨hflush, -⟩, -⟩, hlong⟩ := hacc
  obtain ⟨e, he, -, hholds⟩ := h.holds hflush
  rw [hholds.ilen, Int.ofNat_le] at hlong
  have hus : (heard cfg seg).1 ≠ [] := by
    intro hnil
    rw [hnil] at he
    cases he
    exact absurd hlong (by decide)
  obtain ⟨-, cur, hm, -⟩ := hholds.held hus
  exact nomatch hnone.symm.trans hm

theorem pppinput_octet (hmru : cfg.mru < MCLBYTES) (h : Receives cfg s seg) (hc : c ≠ PPP_FLAG)
    (hfed : (pppinput cfg s c).starved = false) :
    Receives cfg (pppinput cfg s c) (seg ++ [c]) ∧ (pppinput cfg s c).rawq = s.rawq := by
  unfold pppinput at hfed ⊢
  split
  · rename_i cur hm
    rw [hm] at hfed
    exact octet_spec hmru h hm hc hfed
  · rename_i hm
    rw [hm] at hfed
    split
    · rename_i hfree
      rw [hfree] at hfed
      cases hfed
    · rename_i b freeq hfree
      rw [hfree] at hfed
      exact octet_spec hmru (h.of_none hm rfl rfl rfl) rfl hc hfed

theorem pppinput_flag (h : Receives cfg s seg) (hfed : (pppinput cfg s PPP_FLAG).starved = false) :
    Receives cfg (pppinput cfg s PPP_FLAG) [] ∧
      ((s.accepts = false ∧ frameOf cfg seg = none ∧ (pppinput cfg s PPP_FLAG).rawq = s.rawq) ∨
        ∃ cur f raw, s.accepts = true ∧ s.m = some cur ∧ frameOf cfg seg = some f ∧
          (pppinput cfg s PPP_FLAG).rawq = s.rawq ++ [raw] ∧ raw.contents = f ++ cur.behind.flatten) := by
  unfold pppinput at hfed ⊢
  split
  · rename_i cur hm
    obtain ⟨hnil, -, hbad, hgood⟩ := endFrame_spec h hm
    have hoctet : s.octet cfg cur PPP_FLAG = s.endFrame cur := if_pos rfl
    grind
  · rename_i hm
    have hacc := not_accepts_of_none h hm
    rw [hm] at hfed
    split
    · rename_i hfree
      rw [hfree] at hfed
      cases hfed
    · rename_i b freeq hfree
      obtain ⟨hnil, -, hbad, -⟩ := endFrame_spec (h.of_none (t := { s with
        m := some b.cur, freeq := freeq, events := { s.events with empty := true } }) hm rfl rfl rfl) rfl
      exact ⟨hnil, Or.inl ⟨hacc, (hbad hacc).1, (hbad hacc).2⟩⟩

end Receive

section Stream

variable {cfg : RxConfig}

variable {s : Softc}

theorem starved_octet (cur : Cur) (c : Byte) (h : s.starved = true) :
    (s.octet cfg cur c).starved = true := by
  unfold Softc.octet
  split
  · grind [endFrame_of_not_accepts, endFrame_of_accepts]
  · split
    · exact h
    · split
      · exact (kept_store cfg _ cur _).starved h
      · split
        · exact h
        · exact (kept_store cfg s cur c).starved h

theorem starved_inputStep (a : InputAct) (h : s.starved = true) :
    (inputStep cfg s a).starved = true := by
  cases a with
  | free b => exact h
  | input c =>
    show (pppinput cfg s c).starved = true
    grind [pppinput, starved_octet]

variable {as : List InputAct}

theorem fed_of_feed (h : (feed cfg s as).starved = false) :
    s.starved = false := by
  induction as generalizing s with
  | nil => exact h
  | cons a as ih =>
    have hnext := ih h
    cases hs : s.starved with
    | false => rfl
    | true => exact Bool.noConfusion (hnext.symm.trans (starved_inputStep a hs))

theorem contents_feed_prefix (hmru : cfg.mru < MCLBYTES) {seg : List Byte}
    (h : Receives cfg s seg) (hfed : (feed cfg s as).starved = false) :
    ∃ tail, (feed cfg s as).rawq = s.rawq ++ tail := by
  induction as generalizing s seg with
  | nil => exact ⟨[], (append_nil _).symm⟩
  | cons a as ih =>
    have hstep : (inputStep cfg s a).starved = false := fed_of_feed hfed
    cases a with
    | free b =>
      have hnext : Receives cfg (inputStep cfg s (.free b)) seg :=
        ⟨h.escaped, h.reads.congr rfl rfl rfl fun _ => rfl⟩
      obtain ⟨tail, htail⟩ := ih hnext hfed
      exact ⟨tail, htail⟩
    | input c =>
      by_cases hc : c = PPP_FLAG
      · subst hc
        obtain ⟨hnil, hcases⟩ := pppinput_flag h hstep
        obtain ⟨tail, htail⟩ := ih hnil hfed
        rcases hcases with ⟨-, -, hrawq⟩ | ⟨cur, f, raw, -, -, -, hrawq, -⟩
        · exact ⟨tail, htail.trans (congrArg (· ++ tail) hrawq)⟩
        · refine ⟨raw :: tail, htail.trans ?_⟩
          grind
      · obtain ⟨hnext, hrawq⟩ := pppinput_octet hmru h hc hstep
        obtain ⟨tail, htail⟩ := ih hnext hfed
        exact ⟨tail, htail.trans (congrArg (· ++ tail) hrawq)⟩

/-- The packets on the raw queue are the frames of the stream if and only if no good frame ends in front
    of octets that do not belong to it. -/
theorem contents_iff (hmru : cfg.mru < MCLBYTES) {seg : List Byte}
    (h : Receives cfg s seg) (hfed : (feed cfg s as).starved = false) :
    (feed cfg s as).rawq.map RawPacket.contents =
        s.rawq.map RawPacket.contents ++ frames cfg seg (stream as) ↔
      StepsMeet (fun s a => some (inputStep cfg s a)) NoLeftovers s as := by
  induction as generalizing s seg with
  | nil => exact ⟨fun _ => trivial, fun _ => (append_nil _).symm⟩
  | cons a as ih =>
    have hstep : (inputStep cfg s a).starved = false := fed_of_feed hfed
    rw [stepsMeet_total_cons]
    cases a with
    | free b =>
      have hnext : Receives cfg (inputStep cfg s (.free b)) seg :=
        ⟨h.escaped, h.reads.congr rfl rfl rfl fun _ => rfl⟩
      exact (ih hnext hfed).trans (and_iff_right trivial).symm
    | input c =>
      by_cases hc : c = PPP_FLAG
      · subst hc
        obtain ⟨hnil, hcases⟩ := pppinput_flag h hstep
        have hstream : frames cfg seg (stream (.input PPP_FLAG :: as)) =
            (frameOf cfg seg).toList ++ frames cfg [] (stream as) := by
          show ((segments PPP_FLAG seg (PPP_FLAG :: stream as)).filterMap (frameOf cfg)) = _
          rw [segments, if_pos rfl, filterMap_cons]
          cases frameOf cfg seg <;> rfl
        rw [hstream]
        rcases hcases with ⟨hacc, hf, hrawq⟩ | ⟨cur, f, raw, hacc, hm, hf, hrawq, hraw⟩
        · have hclean : NoLeftovers s (.input PPP_FLAG) := fun _ hacc' =>
            Bool.noConfusion (hacc.symm.trans hacc')
          have hih := ih hnil hfed
          rw [hrawq] at hih
          rw [hf]
          exact hih.trans (and_iff_right hclean).symm
        · have hih := ih hnil hfed
          rw [hrawq, map_append, append_assoc] at hih
          have hclean : NoLeftovers s (.input PPP_FLAG) ↔ cur.behind.flatten = [] := by
            refine ⟨fun hno => hno rfl hacc cur hm, fun hno _ _ cur' hm' => ?_⟩
            obtain rfl : cur = cur' := some.inj (hm.symm.trans hm')
            exact hno
          rw [hclean, hf]
          constructor
          · intro heq
            obtain ⟨tail, htail⟩ := contents_feed_prefix hmru hnil hfed
            rw [hrawq] at htail
            have hlist : (f ++ cur.behind.flatten) :: tail.map RawPacket.contents =
                f :: frames cfg [] (stream as) := by
              have heq' : ((s.rawq ++ [raw]) ++ tail).map RawPacket.contents =
                  s.rawq.map RawPacket.contents ++ (f :: frames cfg [] (stream as)) := by
                rw [← htail]
                exact heq
              grind [append_cancel_left]
            obtain ⟨hhead, -⟩ := List.cons.inj hlist
            have hempty : cur.behind.flatten = [] := append_right_eq_self.mp hhead
            refine ⟨hempty, hih.mp ?_⟩
            rw [map_singleton, hraw, hempty, append_nil]
            exact heq
          · rintro ⟨hempty, hrest⟩
            have heq := hih.mpr hrest
            rw [map_singleton, hraw, hempty, append_nil] at heq
            exact heq
      · obtain ⟨hnext, hrawq⟩ := pppinput_octet hmru h hc hstep
        have hclean : NoLeftovers s (.input c) := fun hflag => absurd hflag hc
        have hstream : frames cfg seg (stream (.input c :: as)) = frames cfg (seg ++ [c]) (stream as) := by
          show ((segments PPP_FLAG seg (c :: stream as)).filterMap (frameOf cfg)) = _
          rw [segments, if_neg hc]
          rfl
        have hih := ih hnext hfed
        rw [hrawq] at hih
        rw [hstream]
        exact hih.trans (and_iff_right hclean).symm

end Stream

section Plain

variable {cfg : RxConfig} {s : Softc} {cur : Cur} {k : Nat}

def plain (cfg : RxConfig) (c : Byte) : Bool :=
  decide (c ≠ PPP_FLAG) && !removed cfg.rasyncmap c && decide (c ≠ PPP_ESCAPE)

theorem pppinput_plain {c : Byte} (hplain : plain cfg c = true) (hmru : cfg.mru < MCLBYTES)
    (hm : s.m = some cur) (hescaped : s.escaped = false) (hilen : s.ilen = k) (hk : 4 ≤ k)
    (hlimit : k + 1 ≤ cfg.mru + PPP_HDRLEN + PPP_FCSLEN) :
    pppinput cfg s c = { s with ilen := ((k + 1 : Nat) : Int) }.append cur c := by
  simp only [plain, Bool.and_eq_true, decide_eq_true_eq, Bool.not_eq_true'] at hplain
  obtain ⟨⟨hflag, hkeep⟩, hesc⟩ := hplain
  have hconst : MCLBYTES = 2048 ∧ PPP_HDRLEN = 4 ∧ PPP_FCSLEN = 2 := ⟨rfl, rfl, rfl⟩
  have hpair : s.protocolOctet cur c = (s, cur) := if_neg fun h => by omega
  have hshort : short (s.ilen + 1) = ((k + 1 : Nat) : Int) := by
    rw [hilen, ← Int.natCast_succ]
    exact short_eq (by omega)
  have hfirst : s.firstOctet cfg cur c = (s, cur, true) := if_neg (by omega)
  have hstore : s.store cfg cur c = { s with ilen := ((k + 1 : Nat) : Int) }.append cur c := by
    rw [Softc.store, hfirst]
    dsimp only
    rw [if_pos rfl, Softc.storeOctet, if_neg fun h => by omega, hpair]
    dsimp only
    rw [if_neg fun h => by omega, hshort, if_neg (by omega)]
  have hchain : pppinput cfg s c = s.octet cfg cur c := by
    unfold pppinput
    grind
  have hoctet : s.octet cfg cur c = s.store cfg cur c := by
    rw [Softc.octet, if_neg hflag, if_neg (by rw [hkeep]; exact Bool.false_ne_true),
      if_neg (by rw [hescaped]; exact Bool.false_ne_true), if_neg hesc]
  rw [hchain, hoctet, hstore]

theorem feed_plain {cs : List Byte} (hplain : ∀ c ∈ cs, plain cfg c = true) (hmru : cfg.mru < MCLBYTES)
    (hm : s.m = some cur) (hescaped : s.escaped = false) (hilen : s.ilen = k) (hk : 4 ≤ k)
    (hlimit : k + cs.length ≤ cfg.mru + PPP_HDRLEN + PPP_FCSLEN)
    (hroom : cur.mc.length + cs.length ≤ MCLBYTES) :
    feed cfg s (cs.map .input) =
      { s with m := some (cur.push cs), ilen := ((k + cs.length : Nat) : Int), fcs := pppfcs s.fcs cs } := by
  induction cs generalizing s cur k with
  | nil =>
    have hcur : cur.push [] = cur := by
      simp [Cur.push]
    have hlen : ((k + ([] : List Byte).length : Nat) : Int) = s.ilen := hilen.symm
    rw [hcur, hlen, ← hm]
    rfl
  | cons c cs ih =>
    rw [length_cons] at hlimit hroom
    have hstep : pppinput cfg s c =
        { s with m := some (cur.push [c]), ilen := ((k + 1 : Nat) : Int), fcs := PPP_FCS s.fcs c } := by
      rw [pppinput_plain (hplain c mem_cons_self) hmru hm hescaped hilen hk (by omega), Softc.append,
        Softc.room, if_pos (by omega)]
    have hlen : (cur.push [c]).mc.length = cur.mc.length + 1 := length_append
    have hih := ih (s := { s with
        m := some (cur.push [c]), ilen := ((k + 1 : Nat) : Int), fcs := PPP_FCS s.fcs c })
      (k := k + 1) (fun d hd => hplain d (mem_cons_of_mem c hd)) rfl hescaped rfl (by omega) (by omega)
      (by omega)
    have hpush : (cur.push [c]).push cs = cur.push (c :: cs) := by
      rw [Cur.push, Cur.push, Cur.push, append_assoc]
      rfl
    have hsum : k + 1 + cs.length = k + (c :: cs).length := by
      rw [length_cons]
      omega
    show feed cfg (pppinput cfg s c) (cs.map .input) = _
    rw [hstep, hih, hpush, hsum]
    rfl

theorem pppinput_full {c : Byte} {b : Chain} {freeq : List Chain} (hplain : plain cfg c = true)
    (hmru : cfg.mru < MCLBYTES) (hm : s.m = some cur) (hescaped : s.escaped = false) (hilen : s.ilen = k)
    (hk : 4 ≤ k) (hlimit : k + 1 ≤ cfg.mru + PPP_HDRLEN + PPP_FCSLEN) (hfull : cur.mc.length = MCLBYTES)
    (hbehind : cur.behind = []) (hfree : s.freeq = b :: freeq) :
    pppinput cfg s c =
      { s with
        m := some ⟨cur.before ++ [cur.mc], [c], []⟩
        ilen := ((k + 1 : Nat) : Int)
        fcs := PPP_FCS s.fcs c
        freeq := freeq
        events := { s.events with mbuf := true } } := by
  rw [pppinput_plain hplain hmru hm hescaped hilen hk hlimit, Softc.append, Softc.room,
    if_neg (by rw [hfull]; exact Nat.lt_irrefl _), hbehind]
  rw [hfree]
  rfl

end Plain

section Deframing

theorem mru_lt_of_pppiocsmru {mru new : Nat} (h : pppiocsmru PPP_MRU new = some mru) : mru < MCLBYTES := by
  have hconst : MCLBYTES = 2048 ∧ PPP_MRU = 1500 := ⟨rfl, rfl⟩
  unfold pppiocsmru at h
  split at h
  · cases h
  · split at h <;> (cases h; omega)

theorem receives_pppopen (cfg : RxConfig) : Receives cfg pppopen [] := receives_nil rfl rfl rfl

theorem contents_iff_of_pppopen {cfg : RxConfig} (hmru : cfg.mru < MCLBYTES) {as : List InputAct}
    (hfed : (feed cfg pppopen as).starved = false) :
    (feed cfg pppopen as).rawq.map RawPacket.contents = frames cfg [] (stream as) ↔
      StepsMeet (fun s a => some (inputStep cfg s a)) NoLeftovers pppopen as :=
  contents_iff hmru (receives_pppopen cfg) hfed

/-- **De-framing**: with any receive unit size that `PPPIOCSMRU` admits, any characters, and free buffers
    whenever one is needed, the packets on the raw queue are the frames of the line in their order, each
    with exactly its own octets, if and only if the mbufs behind the last one of a good frame hold no
    octets when the flag arrives. -/
theorem contents_iff_noLeftovers (cfg : RxConfig) (new : Nat)
    (hmru : pppiocsmru PPP_MRU new = some cfg.mru) (as : List InputAct)
    (hfed : (feed cfg pppopen as).starved = false) :
    (feed cfg pppopen as).rawq.map RawPacket.contents = frames cfg [] (stream as) ↔
      StepsMeet (fun s a => some (inputStep cfg s a)) NoLeftovers pppopen as :=
  contents_iff_of_pppopen (mru_lt_of_pppiocsmru hmru) hfed

/-- A frame without the address and control octets and without the high octet of the protocol. -/
def shortFrame : List Byte := [0x21, 0xf3, 0xc0, PPP_FLAG]

theorem contents_iff_noLeftovers_shortFrame :
    (feed ⟨1500, false, 0⟩ pppopen (shortFrame.map .input)).rawq.map RawPacket.contents =
        frames ⟨1500, false, 0⟩ [] (stream (shortFrame.map .input)) ↔
      StepsMeet (fun s a => some (inputStep ⟨1500, false, 0⟩ s a)) NoLeftovers pppopen
        (shortFrame.map .input) :=
  contents_iff_noLeftovers ⟨1500, false, 0⟩ 1500 rfl (shortFrame.map .input) (by decide)

def longConfig : RxConfig := ⟨2047, false, 0⟩

def twoMbufs : List Byte := [0x21] ++ List.replicate 2044 0 ++ [0]

/-- The sender ends the frame with `}` and a flag. -/
def abandonedFrame : List Byte := twoMbufs ++ [PPP_ESCAPE, PPP_FLAG]

def secondMbuf (first : Mbuf) (fcs : BitVec 16) : Softc :=
  { pppopen with
    m := some ⟨[first], [0], []⟩
    ilen := 2049
    fcs := fcs
    freeq := pppopen.freeq.tail
    events := ⟨false, true, false⟩ }

def leftover : Softc :=
  { pppopen with
    m := some ⟨[], [PPP_ALLSTATIONS, PPP_UI, 0, 0x21], [[0]]⟩
    ilen := 4
    fcs := PPP_FCS PPP_INITFCS 0x21
    pktlost := true
    freeq := pppopen.freeq.tail
    events := ⟨false, true, false⟩ }

theorem feed_append (cfg : RxConfig) (s : Softc) (as bs : List InputAct) :
    feed cfg s (as ++ bs) = feed cfg (feed cfg s as) bs := foldl_append

theorem pppinput_secondMbuf {first : Mbuf} (fcs : BitVec 16) (hfull : first.length = MCLBYTES) :
    pppinput longConfig { pppopen with m := some ⟨[], first, []⟩, ilen := 2048, fcs := fcs } 0 =
      secondMbuf first (PPP_FCS fcs 0) := by
  have hplain : plain longConfig 0 = true := by decide
  have hlimit : 2048 + 1 ≤ longConfig.mru + PPP_HDRLEN + PPP_FCSLEN := by decide
  have hfree : pppopen.freeq = pppallocmbuf PPP_MRU :: pppopen.freeq.tail := rfl
  exact pppinput_full (s := { pppopen with m := some ⟨[], first, []⟩, ilen := 2048, fcs := fcs }) hplain
    (by decide) rfl rfl rfl (by decide) hlimit hfull rfl hfree

theorem feed_twoMbufs :
    ∃ first fcs, feed longConfig pppopen (twoMbufs.map .input) = secondMbuf first fcs := by
  have hfirst : feed longConfig pppopen [.input 0x21] = { pppopen with
      m := some ⟨[], [PPP_ALLSTATIONS, PPP_UI, 0, 0x21], []⟩
      ilen := 4
      fcs := PPP_FCS PPP_INITFCS 0x21 } := by decide
  have hzero : ∀ c ∈ List.replicate 2044 (0 : Byte), plain longConfig c = true := by
    intro c hc
    rw [eq_of_mem_replicate hc]
    decide
  have hlen : (List.replicate 2044 (0 : Byte)).length = 2044 := length_replicate
  rw [twoMbufs]
  generalize List.replicate 2044 (0 : Byte) = zeros at hzero hlen
  have hfull : ([PPP_ALLSTATIONS, PPP_UI, 0, 0x21] ++ zeros).length = MCLBYTES := by
    rw [length_append, hlen]
    rfl
  rw [map_append, map_append, feed_append, feed_append, map_singleton, hfirst,
    feed_plain (k := 4) hzero (by decide) rfl rfl rfl (Nat.le_refl 4) (by rw [hlen]; decide)
      (by rw [hlen]; decide), hlen]
  exact ⟨_, _, pppinput_secondMbuf _ hfull⟩

theorem feed_leftover (first : Mbuf) (fcs : BitVec 16) :
    feed longConfig (secondMbuf first fcs) [.input PPP_ESCAPE, .input PPP_FLAG, .input 0x21] = leftover :=
  rfl

/-- The frame behind an abandoned one gets an octet of it. -/
theorem abandoned_octet_behind_frame :
    pppiocsmru PPP_MRU 2047 = some longConfig.mru ∧
      (feed longConfig pppopen ((abandonedFrame ++ shortFrame).map .input)).starved = false ∧
      (feed longConfig pppopen ((abandonedFrame ++ shortFrame).map .input)).rawq.map RawPacket.contents ≠
        frames longConfig [] (stream ((abandonedFrame ++ shortFrame).map .input)) := by
  obtain ⟨first, fcs, hsecond⟩ := feed_twoMbufs
  have hsplit : (abandonedFrame ++ shortFrame).map InputAct.input = (twoMbufs.map .input ++
      [.input PPP_ESCAPE, .input PPP_FLAG, .input 0x21]) ++ [.input 0xf3, .input 0xc0] ++
        [.input PPP_FLAG] := by
    simp only [abandonedFrame, shortFrame, map_append, append_assoc, map_cons, map_nil,
      cons_append, nil_append]
  have hheader : feed longConfig pppopen (twoMbufs.map .input ++
      [.input PPP_ESCAPE, .input PPP_FLAG, .input 0x21]) = leftover := by
    rw [feed_append, hsecond, feed_leftover]
  have hfed : (feed longConfig pppopen ((abandonedFrame ++ shortFrame).map .input)).starved = false := by
    rw [hsplit, feed_append, feed_append, hheader]
    decide
  refine ⟨rfl, hfed, fun heq => ?_⟩
  have hmeet := (contents_iff_of_pppopen (by decide) hfed).mp heq
  rw [hsplit] at hmeet
  obtain ⟨hflag, -⟩ := stepsMeet_total_cons.mp (stepsMeet_total_append hmeet)
  rw [feed] at hheader
  rw [foldl_append, hheader] at hflag
  generalize hend : [InputAct.input 0xf3, InputAct.input 0xc0].foldl (inputStep longConfig) leftover = s at hflag
  have haccepts : s.accepts = true := by
    rw [← hend]
    decide
  have hm : s.m.map Cur.behind = some [[0]] := by
    rw [← hend]
    decide
  obtain ⟨cur, hcur, hbehind⟩ := map_eq_some_iff.mp hm
  have hempty := hflag rfl haccepts cur hcur
  rw [hbehind] at hempty
  cases hempty

end Deframing

end RtemsLibbsd.Ppp
