import Mathlib.Data.List.TakeWhile
import RtemsLibbsd.Ppp.Input

/-!
# PPP frames on the line

Model of the sender: the header compression of `ppp_dequeue` and the processing of a packet in
`ppp_txdaemon` (`if_ppp.c`), `pppstart` and the character map requests (`ppp_tty.c`).

* `Tx` — the transmit fields of `struct ppp_softc`.  A buffer is the octets from `sc_outbuf` to
  `sc_outbuf + sc_outlen`; `sc_outmc` is the list of the mbufs from the current one on.  Offsets and
  lengths are natural numbers, a packet is far below the limits of a `short`.
* `pppstart` — called by the serial driver with the number of octets that it has sent; the result is the
  next write request, empty if there is nothing to transmit.
* `Line`, `lineStep` — the sender and its driver.  The driver takes any number of the requested octets,
  all of them if it is a polled one.
* `Sends`, `Requests` — the invariant: what is on the wire, and what is left to send.

However the driver reports its progress, it sends one frame with the compressed packet and its check
sequence, and comes to an end: `lineOk_lineStep`, `lineOk_txLine`.
-/

namespace RtemsLibbsd.Ppp

open List Function RtemsLibbsd.OctetStuffing RtemsLibbsd.Transition

abbrev PPP_LCP : Nat := 0xc021

abbrev ExtAccm := Fin 8 → BitVec 32

def ESCAPE_P (asyncmap : ExtAccm) (c : Byte) : Bool :=
  (asyncmap (Fin.ofNat 8 (c.toNat / 32))).getLsbD (c.toNat % 32)

/-- `PPPIOCSASYNCMAP` and `PPPIOCSXASYNCMAP`. -/
inductive MapRequest where
  | sasyncmap (word : BitVec 32)
  | sxasyncmap (data : ExtAccm)

/-- `sc_asyncmap` after `pppopen`. -/
def pppopenMap : ExtAccm := update (update (fun _ => 0) 0 0xffffffff) 3 0x60000000

/-- The part of `ppptioctl` for the map. -/
def ppptioctl (asyncmap : ExtAccm) : MapRequest → ExtAccm
  | .sasyncmap word => update asyncmap 0 word
  | .sxasyncmap data =>
    let asyncmap := update data 1 0
    let asyncmap := update asyncmap 2 (asyncmap 2 &&& ~~~0x40000000)
    update asyncmap 3 (asyncmap 3 ||| 0x60000000)

/-- Settings of the sender: `SC_COMP_AC` and `SC_COMP_PROT` in `sc_flags`, `sc_asyncmap`, and whether the
    driver is of the mode `TERMIOS_POLLED`. -/
structure TxConfig where
  compAc : Bool
  compProt : Bool
  asyncmap : ExtAccm
  polled : Bool

def PPP_PROTOCOL (hi lo : Byte) : Nat := hi.toNat * 256 + lo.toNat

/-- The first mbuf of a packet after the header compression of `ppp_dequeue`. -/
def compressHeader (compAc compProt : Bool) : Mbuf → Mbuf
  | address :: control :: hi :: lo :: data =>
    let protocol := PPP_PROTOCOL hi lo
    let ac := compAc && address == PPP_ALLSTATIONS && control == PPP_UI && protocol != PPP_ALLSTATIONS.toNat &&
      protocol != PPP_LCP
    if compProt && decide (protocol < 0xff) then
      -- the address and control octets are moved up if they are still there
      if ac then lo :: data else address :: control :: lo :: data
    else if ac then hi :: lo :: data
    else address :: control :: hi :: lo :: data
  | m => m

/-- `ppp_dequeue`, for the packet that has been taken from a queue. -/
def ppp_dequeue (cfg : TxConfig) : List Mbuf → List Mbuf
  | [] => []
  | m :: ms => compressHeader cfg.compAc cfg.compProt m :: ms

/-- `sc_outflag`. -/
structure OutFlag where
  busy : Bool
  fcs : Bool
  escape : Bool
  lastchar : Bool
  pending : Bool
  deriving DecidableEq

structure Tx where
  outflag : OutFlag
  /-- `sc_outmc` and the mbufs behind it. -/
  outmc : List Mbuf
  outbuf : List Byte
  outoff : Nat
  outoffUpdate : Bool
  outfcsbuf : List Byte
  /-- `TX_TRANSMIT` has been sent to the daemon. -/
  transmit : Bool
  deriving DecidableEq

/-- The chain is cut in front of its first empty mbuf, if that is not the first one. -/
def cutEmpty : List Mbuf → List Mbuf
  | [] => []
  | m :: ms => if m = [] then m :: ms else m :: ms.takeWhile (· ≠ [])

/-- The output values that `ppp_txdaemon` sets for a packet. -/
def ppp_txdaemon (packet : List Mbuf) : Tx where
  outflag := ⟨true, false, false, false, false⟩
  outmc := cutEmpty packet
  outbuf := packet.headD []
  outoff := 0
  outoffUpdate := false
  outfcsbuf := fcsBytes (pppfcs PPP_INITFCS (packet.takeWhile (· ≠ [])).flatten)
  transmit := false

namespace Tx

def adapt (s : Tx) (len : Nat) : Tx :=
  if s.outoffUpdate then { s with outoff := s.outoff + len, outoffUpdate := false } else s

/-- The next buffer, if the current one has been sent: the next mbuf, then the check sequence. -/
def nextBuffer (s : Tx) : Option Tx :=
  if s.outoff ≥ s.outbuf.length then
    match s.outmc with
    | _ :: m :: ms => some { s with outmc := m :: ms, outbuf := m, outoff := 0 }
    | _ =>
      if s.outflag.fcs then none
      else some { s with outflag := { s.outflag with fcs := true }, outbuf := s.outfcsbuf, outoff := 0 }
  else some s

def written (cfg : TxConfig) (s : Tx) (ioffset : Nat) : Tx :=
  if cfg.polled then { s with outoff := s.outoff + ioffset, outoffUpdate := false }
  else { s with outoffUpdate := decide (ioffset > 0) }

/-- Some octets of the buffer are written out: one that has to be escaped in two steps, the others up to
    the next one that has to be escaped. -/
def writeOut (cfg : TxConfig) (s : Tx) : Tx × List Byte :=
  match s.outbuf.drop s.outoff with
  | [] => (s, [])
  | c :: cs =>
    if ESCAPE_P cfg.asyncmap c then
      if s.outflag.escape then
        (written cfg { s with outflag := { s.outflag with escape := false } } 1, [transform c])
      else (written cfg { s with outflag := { s.outflag with escape := true } } 0, [PPP_ESCAPE])
    else
      let out := (c :: cs).takeWhile fun d => !ESCAPE_P cfg.asyncmap d
      (written cfg s out.length, out)

/-- `pppstart` behind the adaption of the offset. -/
def output (cfg : TxConfig) (s : Tx) : Tx × List Byte :=
  if s.outflag.lastchar then
    ({ s with
      outflag := { s.outflag with busy := false, fcs := false, lastchar := false }
      transmit := true }, [])
  else
    match s.nextBuffer with
    | none => ({ s with outflag := { s.outflag with lastchar := true, fcs := false } }, [PPP_FLAG])
    | some t => t.writeOut cfg

end Tx

def pppstart (cfg : TxConfig) (s : Tx) (len : Nat) : Tx × List Byte :=
  if s.outflag.busy then (s.adapt len).output cfg else (s, [])

/-- The sender, the last write request, and the octets that the driver has sent. -/
structure Line where
  tx : Tx
  request : List Byte
  wire : List Byte

/-- The line when `ppp_txdaemon` has written the flag in front of a packet. -/
def txLine (cfg : TxConfig) (packet : List Mbuf) : Line :=
  ⟨ppp_txdaemon (ppp_dequeue cfg packet), [PPP_FLAG], []⟩

/-- The driver sends `len` of the requested octets. -/
def lineStep (cfg : TxConfig) (l : Line) (len : Nat) : Option Line :=
  if 1 ≤ len ∧ len ≤ l.request.length ∧ (cfg.polled = true → len = l.request.length) then
    let p := pppstart cfg l.tx len
    some ⟨p.1, p.2, l.wire ++ l.request.take len⟩
  else none

section Map

/-- What all maps have in common: octets from `0x20` to `0x3f` and `0x5e` are never escaped, `0x7d` and
    `0x7e` always. -/
structure MapOk (asyncmap : ExtAccm) : Prop where
  printable : asyncmap 1 = 0
  caret : (asyncmap 2).getLsbD 30 = false
  escape : (asyncmap 3).getLsbD 29 = true
  flag : (asyncmap 3).getLsbD 30 = true

theorem mapOk_pppopenMap : MapOk pppopenMap := ⟨by decide, by decide, by decide, by decide⟩

theorem MapOk.ppptioctl (h : MapOk asyncmap) (r : MapRequest) :
    MapOk (ppptioctl asyncmap r) := by
  cases r with
  | sasyncmap word => exact ⟨h.printable, h.caret, h.escape, h.flag⟩
  | sxasyncmap data =>
    refine ⟨rfl, ?_, ?_, ?_⟩
    · show (data 2 &&& ~~~0x40000000).getLsbD 30 = false
      simp
    · show (data 3 ||| 0x60000000).getLsbD 29 = true
      simp
    · show (data 3 ||| 0x60000000).getLsbD 30 = true
      simp

theorem mapOk_foldl (rs : List MapRequest) : MapOk (rs.foldl ppptioctl pppopenMap) := by
  induction rs using List.reverseRecOn with
  | nil => exact mapOk_pppopenMap
  | append_singleton rs r ih =>
    rw [foldl_append]
    exact ih.ppptioctl r

variable {asyncmap : ExtAccm}

theorem MapOk.escape_escape (h : MapOk asyncmap) : ESCAPE_P asyncmap PPP_ESCAPE = true := h.escape

theorem MapOk.escape_flag (h : MapOk asyncmap) : ESCAPE_P asyncmap PPP_FLAG = true := h.flag

theorem eq_of_transform {c d : Byte} (h : transform c = d) : c = transform d := by
  rw [← h, transform_transform]

variable {c : Byte}

theorem MapOk.transform_ne_flag (h : MapOk asyncmap) (hc : ESCAPE_P asyncmap c = true) :
    transform c ≠ PPP_FLAG := by
  intro hflag
  rw [eq_of_transform hflag] at hc
  exact Bool.noConfusion (h.caret.symm.trans hc)

theorem transform_control (h : (transform c).toNat < 0x20) : c.toNat / 32 = 1 := by
  revert c
  decide

theorem MapOk.removed_transform (h : MapOk asyncmap) (rasyncmap : BitVec 32)
    (hc : ESCAPE_P asyncmap c = true) : removed rasyncmap (transform c) = false := by
  rw [removed]
  cases hlow : decide ((transform c).toNat < 0x20) with
  | false => rfl
  | true =>
    have hindex : Fin.ofNat 8 (c.toNat / 32) = 1 := by
      rw [transform_control (of_decide_eq_true hlow)]
      rfl
    rw [ESCAPE_P, hindex, h.printable] at hc
    simp at hc

theorem escape_of_removed {rasyncmap : BitVec 32} (hmap : rasyncmap &&& asyncmap 0 = rasyncmap)
    (hc : removed rasyncmap c = true) : ESCAPE_P asyncmap c = true := by
  simp only [removed, Bool.and_eq_true, decide_eq_true_eq] at hc
  obtain ⟨hlow, hbit⟩ := hc
  have hindex : Fin.ofNat 8 (c.toNat / 32) = 0 := by
    rw [Nat.div_eq_of_lt hlow]
    rfl
  rw [ESCAPE_P, hindex, Nat.mod_eq_of_lt hlow]
  rw [← hmap, BitVec.getLsbD_and, Bool.and_eq_true] at hbit
  exact hbit.2

end Map

section Sender

variable {cfg : TxConfig} {bytes wire : List Byte} {s t : Tx} {k len : Nat}

def stuffed (cfg : TxConfig) (bytes : List Byte) : List Byte :=
  stuff PPP_ESCAPE transform (ESCAPE_P cfg.asyncmap) bytes

def frameOnLine (cfg : TxConfig) (bytes : List Byte) : List Byte :=
  PPP_FLAG :: stuffed cfg bytes ++ [PPP_FLAG]

def Tx.todo (s : Tx) : List Byte :=
  s.outbuf.drop s.outoff ++ if s.outflag.fcs then [] else s.outmc.tail.flatten ++ s.outfcsbuf

/-- The octets `done` of the frame have been sent, and maybe the escape octet of the next one. -/
structure Progress (cfg : TxConfig) (bytes wire : List Byte) (s : Tx) (done : List Byte) : Prop where
  bytes : bytes = done ++ s.todo
  escape : s.outflag.escape = true → ∃ c cs, s.outbuf.drop s.outoff = c :: cs ∧ ESCAPE_P cfg.asyncmap c = true
  wire : wire = PPP_FLAG :: stuffed cfg done ++ if s.outflag.escape then [PPP_ESCAPE] else []

/-- The sender of the frame `bytes` when `wire` has been sent and the offset has been adapted. -/
structure Sends (cfg : TxConfig) (bytes wire : List Byte) (s : Tx) : Prop where
  busy : s.outflag.busy = true
  update : s.outoffUpdate = false
  mbufs : ∀ m ∈ s.outmc.tail, m ≠ []
  fcsbuf : s.outfcsbuf ≠ []
  last : s.outflag.fcs = true → s.outmc.tail = []
  flag : s.outflag.lastchar = true → wire = frameOnLine cfg bytes
  octets : s.outflag.lastchar = false → ∃ done, Progress cfg bytes wire s done

theorem adapt_written (hk : 0 < k) (hlen : cfg.polled = true → len = k) :
    (s.written cfg k).adapt len = { s with outoff := s.outoff + len, outoffUpdate := false } := by
  unfold Tx.written Tx.adapt
  grind

theorem adapt_written_zero : (s.written cfg 0).adapt len = { s with outoffUpdate := false } := by
  unfold Tx.written Tx.adapt
  cases cfg.polled <;> rfl

theorem busy_written : (s.written cfg k).outflag = s.outflag := by
  unfold Tx.written
  split <;> rfl

variable {c : Byte}

theorem drop_of_drop (hdrop : s.outbuf.drop s.outoff = c :: cs) (n : Nat) :
    s.outbuf.drop (s.outoff + n) = (c :: cs).drop n := by
  rw [← drop_drop, hdrop]

theorem nextBuffer_some (h : Sends cfg bytes wire s) (hchar : s.outflag.lastchar = false)
    (ht : s.nextBuffer = some t) :
    Sends cfg bytes wire t ∧ t.outflag.lastchar = false ∧ t.outbuf.drop t.outoff ≠ [] := by
  obtain ⟨done, hdone⟩ := h.octets hchar
  have hescape : s.outoff ≥ s.outbuf.length → s.outflag.escape = false := by
    intro hend
    rw [← Bool.not_eq_true]
    intro hesc
    obtain ⟨c, cs, hdrop, -⟩ := hdone.escape hesc
    rw [drop_eq_nil_of_le hend] at hdrop
    cases hdrop
  unfold Tx.nextBuffer at ht
  split at ht
  · rename_i hend
    have hnil : s.outbuf.drop s.outoff = [] := drop_eq_nil_of_le hend
    have hesc := hescape hend
    split at ht
    · rename_i first m ms hmc
      cases ht
      have hne : m ≠ [] := h.mbufs m (by rw [hmc]; exact mem_cons_self)
      have hfcs : s.outflag.fcs = false := by
        rw [← Bool.not_eq_true]
        intro hfcs
        have := h.last hfcs
        rw [hmc] at this
        cases this
      refine ⟨⟨h.busy, h.update, fun b hb => h.mbufs b ?_, h.fcsbuf, fun hf => ?_, h.flag, fun _ =>
        ⟨done, ?_⟩⟩, hchar, hne⟩
      · rw [hmc]
        exact mem_cons_of_mem m hb
      · exact Bool.noConfusion (hfcs.symm.trans hf)
      · refine ⟨?_, fun he => Bool.noConfusion (hesc.symm.trans he), hdone.wire⟩
        rw [hdone.bytes, Tx.todo, Tx.todo, hnil, hmc]
        grind
    · rename_i hmc
      have htail : s.outmc.tail = [] := by
        cases hlist : s.outmc with
        | nil => rfl
        | cons first rest =>
          cases rest with
          | nil => rfl
          | cons m ms => exact absurd hlist (hmc first m ms)
      split at ht
      · cases ht
      · cases ht
        refine ⟨⟨h.busy, h.update, h.mbufs, h.fcsbuf, fun _ => htail, h.flag, fun _ => ⟨done, ?_⟩⟩, hchar,
          h.fcsbuf⟩
        refine ⟨?_, fun he => Bool.noConfusion (hesc.symm.trans he), hdone.wire⟩
        rw [hdone.bytes, Tx.todo, Tx.todo, hnil, htail]
        grind
  · rename_i hmore
    cases ht
    refine ⟨h, hchar, fun hnil => hmore ?_⟩
    exact drop_eq_nil_iff.mp hnil

theorem nextBuffer_none (h : Sends cfg bytes wire s) (hchar : s.outflag.lastchar = false)
    (hnone : s.nextBuffer = none) : wire = PPP_FLAG :: stuffed cfg bytes := by
  obtain ⟨done, hdone⟩ := h.octets hchar
  unfold Tx.nextBuffer at hnone
  split at hnone
  · rename_i hend
    have hnil : s.outbuf.drop s.outoff = [] := drop_eq_nil_of_le hend
    split at hnone
    · cases hnone
    · split at hnone
      · have hesc : s.outflag.escape = false := by
          rw [← Bool.not_eq_true]
          intro hesc
          obtain ⟨c, cs, hdrop, -⟩ := hdone.escape hesc
          exact nomatch hnil.symm.trans hdrop
        grind [hdone.bytes, Tx.todo, hdone.wire]
      · cases hnone
  · cases hnone

def Allowed (cfg : TxConfig) (request : List Byte) (len : Nat) : Prop :=
  1 ≤ len ∧ len ≤ request.length ∧ (cfg.polled = true → len = request.length)

/-- A request: whatever the driver sends of it, the frame goes on. -/
structure Requests (cfg : TxConfig) (bytes wire : List Byte) (p : Tx × List Byte) : Prop where
  request : p.2 ≠ []
  busy : p.1.outflag.busy = true
  sends : ∀ len, Allowed cfg p.2 len → Sends cfg bytes (wire ++ p.2.take len) (p.1.adapt len)

theorem allowed_singleton (h : Allowed cfg [c] len) : len = 1 := Nat.le_antisymm h.2.1 h.1

variable {cs done : List Byte}

theorem requests_transformed (h : Sends cfg bytes wire s)
    (hchar : s.outflag.lastchar = false) (hdone : Progress cfg bytes wire s done)
    (hdrop : s.outbuf.drop s.outoff = c :: cs) (hc : ESCAPE_P cfg.asyncmap c = true)
    (hescape : s.outflag.escape = true) :
    Requests cfg bytes wire
      (Tx.written cfg { s with outflag := { s.outflag with escape := false } } 1, [transform c]) where
  request := nofun
  busy := (congrArg OutFlag.busy busy_written).trans h.busy
  sends len hlen := by
    obtain rfl := allowed_singleton hlen
    rw [adapt_written Nat.one_pos fun _ => rfl]
    have hnext : s.outbuf.drop (s.outoff + 1) = cs := drop_of_drop hdrop 1
    refine ⟨h.busy, rfl, h.mbufs, h.fcsbuf, h.last, fun hf => Bool.noConfusion (hchar.symm.trans hf), fun _ =>
      ⟨done ++ [c], ?_, nofun, ?_⟩⟩
    · grind [hdone.bytes, Tx.todo]
    · have hoctet : stuffOctet PPP_ESCAPE transform (ESCAPE_P cfg.asyncmap) c = [PPP_ESCAPE, transform c] :=
        if_pos hc
      have hstuffed : stuffed cfg (done ++ [c]) = stuffed cfg done ++ [PPP_ESCAPE, transform c] := by
        rw [stuffed, stuff_append, stuff_cons, hoctet]
        rfl
      rw [hdone.wire, hescape, hstuffed]
      simp

theorem requests_escape (h : Sends cfg bytes wire s)
    (hchar : s.outflag.lastchar = false) (hdone : Progress cfg bytes wire s done)
    (hdrop : s.outbuf.drop s.outoff = c :: cs) (hc : ESCAPE_P cfg.asyncmap c = true)
    (hescape : s.outflag.escape = false) :
    Requests cfg bytes wire
      (Tx.written cfg { s with outflag := { s.outflag with escape := true } } 0, [PPP_ESCAPE]) where
  request := nofun
  busy := (congrArg OutFlag.busy busy_written).trans h.busy
  sends len hlen := by
    obtain rfl := allowed_singleton hlen
    rw [adapt_written_zero]
    refine ⟨h.busy, rfl, h.mbufs, h.fcsbuf, h.last, fun hf => Bool.noConfusion (hchar.symm.trans hf), fun _ =>
      ⟨done, hdone.bytes, fun _ => ⟨c, cs, hdrop, hc⟩, ?_⟩⟩
    rw [hdone.wire, hescape]
    simp

theorem requests_run (h : Sends cfg bytes wire s)
    (hchar : s.outflag.lastchar = false) (hdone : Progress cfg bytes wire s done)
    (hdrop : s.outbuf.drop s.outoff = c :: cs) (hc : ESCAPE_P cfg.asyncmap c = false)
    (hescape : s.outflag.escape = false) {out : List Byte}
    (hout : out = (c :: cs).takeWhile fun d => !ESCAPE_P cfg.asyncmap d) :
    Requests cfg bytes wire (s.written cfg out.length, out) where
  request := by
    rw [hout, takeWhile_cons_of_pos (by rw [hc]; rfl)]
    nofun
  busy := (congrArg OutFlag.busy busy_written).trans h.busy
  sends len hlen := by
    obtain ⟨hpos, hle, hpolled⟩ := hlen
    rw [adapt_written (Nat.lt_of_lt_of_le hpos hle) hpolled]
    have hplain : ∀ d ∈ out.take len, ESCAPE_P cfg.asyncmap d = false := by
      intro d hd
      grind [all_takeWhile]
    have hprefix : out.take len = (c :: cs).take len := by
      obtain ⟨rest, hrest⟩ : out <+: c :: cs := hout ▸ takeWhile_prefix _
      rw [← hrest, take_append_of_le_length hle]
    have hnext := drop_of_drop hdrop len
    refine ⟨h.busy, rfl, h.mbufs, h.fcsbuf, h.last, fun hf => Bool.noConfusion (hchar.symm.trans hf), fun _ =>
      ⟨done ++ out.take len, ?_, fun he => Bool.noConfusion (hescape.symm.trans he), ?_⟩⟩
    · grind [hdone.bytes, Tx.todo, take_append_drop]
    · rw [hdone.wire, hescape]
      simp [stuffed, stuff_of_forall_not _ _ _ hplain]

theorem writeOut_spec (h : Sends cfg bytes wire s) (hchar : s.outflag.lastchar = false)
    (hmore : s.outbuf.drop s.outoff ≠ []) : Requests cfg bytes wire (s.writeOut cfg) := by
  obtain ⟨done, hdone⟩ := h.octets hchar
  unfold Tx.writeOut
  split
  · rename_i hnil
    exact absurd hnil hmore
  · rename_i c cs hdrop
    split
    · rename_i hc
      split
      · rename_i hescape
        exact requests_transformed h hchar hdone hdrop hc hescape
      · rename_i hescape
        exact requests_escape h hchar hdone hdrop hc (Bool.not_eq_true _ ▸ hescape)
    · rename_i hc
      have hescape : s.outflag.escape = false := by
        rw [← Bool.not_eq_true]
        intro hescape
        obtain ⟨d, ds, hdrop', hd⟩ := hdone.escape hescape
        cases hdrop.symm.trans hdrop'
        exact hc hd
      exact requests_run h hchar hdone hdrop (Bool.not_eq_true _ ▸ hc) hescape rfl

/-- The sender and its driver: the frame has been sent, or it goes on. -/
def LineOk (cfg : TxConfig) (bytes : List Byte) (l : Line) : Prop :=
  (l.request = [] ∧ l.wire = frameOnLine cfg bytes) ∨ Requests cfg bytes l.wire (l.tx, l.request)

theorem output_spec (h : Sends cfg bytes wire s) :
    LineOk cfg bytes ⟨(s.output cfg).1, (s.output cfg).2, wire⟩ := by
  unfold Tx.output
  split
  · rename_i hchar
    exact Or.inl ⟨rfl, h.flag hchar⟩
  · rename_i hchar
    rw [Bool.not_eq_true] at hchar
    right
    split
    · rename_i hnone
      have hwire := nextBuffer_none h hchar hnone
      refine ⟨nofun, h.busy, fun len hlen => ?_⟩
      obtain rfl := allowed_singleton hlen
      have hadapt : ({ s with outflag := { s.outflag with lastchar := true, fcs := false } } : Tx).adapt 1 =
          { s with outflag := { s.outflag with lastchar := true, fcs := false } } :=
        if_neg (by rw [h.update]; exact Bool.false_ne_true)
      rw [hadapt, hwire]
      exact ⟨h.busy, h.update, h.mbufs, h.fcsbuf, nofun, fun _ => rfl, nofun⟩
    · grind [nextBuffer_some, writeOut_spec]

theorem length_stuffed_le (cfg : TxConfig) (bytes : List Byte) :
    (stuffed cfg bytes).length ≤ 2 * bytes.length := by
  induction bytes with
  | nil => exact Nat.le_refl 0
  | cons c cs ih =>
    have hoctet : (stuffOctet PPP_ESCAPE transform (ESCAPE_P cfg.asyncmap) c).length ≤ 2 := by
      unfold stuffOctet
      split <;> simp
    rw [stuffed, stuff_cons, length_append, length_cons]
    rw [stuffed] at ih
    omega

theorem Sends.length_le (h : Sends cfg bytes wire s) : wire.length ≤ (frameOnLine cfg bytes).length := by
  cases hchar : s.outflag.lastchar with
  | true => exact Nat.le_of_eq (congrArg List.length (h.flag hchar))
  | false =>
    obtain ⟨done, hdone⟩ := h.octets hchar
    grind [stuffed, hdone.bytes, stuff_append, hdone.wire, frameOnLine]

theorem lineOk_lineStep {l l' : Line} (h : LineOk cfg bytes l) (hstep : lineStep cfg l len = some l') :
    LineOk cfg bytes l' ∧
      (frameOnLine cfg bytes).length - l'.wire.length < (frameOnLine cfg bytes).length - l.wire.length := by
  unfold lineStep at hstep
  split at hstep
  · rename_i hallowed
    rcases h with ⟨hnil, -⟩ | h
    · rw [hnil] at hallowed
      exact absurd (Nat.le_trans hallowed.1 hallowed.2.1) (Nat.not_succ_le_zero 0)
    · have hsends := h.sends len hallowed
      have hstart : pppstart cfg l.tx len = (l.tx.adapt len).output cfg := if_pos h.busy
      grind [hsends.length_le, output_spec]
  · cases hstep

def frameOctets (packet : List Mbuf) : List Byte :=
  packet.flatten ++ fcsBytes (pppfcs PPP_INITFCS packet.flatten)

theorem cutEmpty_eq {packet : List Mbuf} (h : ∀ m ∈ packet, m ≠ []) : cutEmpty packet = packet := by
  cases packet with
  | nil => rfl
  | cons m ms =>
    have hrest : ms.takeWhile (· ≠ []) = ms :=
      takeWhile_eq_self_iff.mpr fun b hb => decide_eq_true (h b (mem_cons_of_mem m hb))
    rw [cutEmpty, if_neg (h m mem_cons_self), hrest]

theorem lineOk_ppp_txdaemon {packet : List Mbuf} (h : ∀ m ∈ packet, m ≠ []) :
    LineOk cfg (frameOctets packet) ⟨ppp_txdaemon packet, [PPP_FLAG], []⟩ := by
  have hall : packet.takeWhile (· ≠ []) = packet :=
    takeWhile_eq_self_iff.mpr fun b hb => decide_eq_true (h b hb)
  have hadapt : (ppp_txdaemon packet).adapt 1 = ppp_txdaemon packet := rfl
  have hcut : (ppp_txdaemon packet).outmc = packet := cutEmpty_eq h
  have hfcs : (ppp_txdaemon packet).outfcsbuf = fcsBytes (pppfcs PPP_INITFCS packet.flatten) :=
    congrArg (fun ms : List Mbuf => fcsBytes (pppfcs PPP_INITFCS ms.flatten)) hall
  refine Or.inr ⟨nofun, rfl, fun len hlen => ?_⟩
  obtain rfl := allowed_singleton hlen
  rw [hadapt]
  refine ⟨rfl, rfl, fun m hm => ?_, nofun, nofun, nofun, fun _ => ⟨[], ?_, nofun, rfl⟩⟩
  · rw [hcut] at hm
    exact h m (mem_of_mem_tail hm)
  · have htodo : (ppp_txdaemon packet).todo = packet.headD [] ++ (packet.tail.flatten ++
        fcsBytes (pppfcs PPP_INITFCS packet.flatten)) := by
      rw [← hfcs, ← congrArg (fun ms : List Mbuf => ms.tail.flatten) hcut]
      rfl
    have hflatten : packet.headD [] ++ packet.tail.flatten = packet.flatten := by
      cases packet <;> rfl
    rw [nil_append, htodo, ← append_assoc, hflatten]
    rfl

end Sender

end RtemsLibbsd.Ppp
