import RtemsLibbsd.Ppp.Input
import RtemsLibbsd.Ppp.OutputReads

/-!
# The accesses of `pppinput` to the mbufs

`pppinput` (`ppp_tty.c`) stores through `sc_mp`, in four places, and looks for room in front of one of them.

* `Softc.firstStores`, `Softc.protocolStores`, `Softc.appendStores` — the stores, with the mbuf whose `m_len` counts
  the octet, and `sc_mp` behind them.
* `Receiver` — the receiver with `sc_mp` and all that was stored.
* `receiverInv_step` — the header is stored in front of `MCLBYTES`, whatever `sc_ilen` has wrapped around to.

All stores are inside the mbufs.  The octets of the chain are `sc_ilen` in number exactly when no frame begins in front
of mbufs that still hold octets, and `pppstart` has its own condition: **`accessesInside_iff`**.
-/

namespace RtemsLibbsd.Ppp

open Option List RtemsLibbsd.Transition

/-- A value of `sc_mp`: the mbuf of the receive chain, and the offset in its cluster. -/
structure Place where
  mbuf : Nat
  offset : Nat
  deriving DecidableEq

def Place.advance (mp : Place) (n : Nat) : Place := { mp with offset := mp.offset + n }

/-- A store, and the mbuf whose `m_len` is incremented for it. -/
structure RxStore where
  place : Place
  counted : Nat

/-- The octet is stored in the cluster of the mbuf that counts it. -/
def RxStore.Inside (w : RxStore) : Prop := w.place.mbuf = w.counted ∧ w.place.offset < MCLBYTES

namespace Softc

variable (cfg : RxConfig)

/-- `sc_mp` behind `firstOctet`, and what is stored. -/
def firstStores (s : Softc) (mp : Place) (c : Byte) : Place × List RxStore :=
  if s.ilen = 0 then
    let mp : Place := ⟨0, 0⟩
    if c ≠ PPP_ALLSTATIONS then
      if cfg.rejCompAc then (mp, [])
      else (mp.advance 2, [⟨mp, 0⟩, ⟨mp.advance 1, 0⟩])
    else (mp, [])
  else (mp, [])

/-- `sc_mp` behind `protocolOctet`, and what is stored. -/
def protocolStores (s : Softc) (cur : Cur) (mp : Place) (c : Byte) : Place × List RxStore :=
  if s.ilen = 2 ∧ odd c then (mp.advance 1, [⟨mp, cur.before.length⟩]) else (mp, [])

/-- `sc_mp` behind `append`, and what is stored.  In another mbuf `sc_mp` is set to its beginning. -/
def appendStores (s : Softc) (cur : Cur) (mp : Place) : Place × List RxStore :=
  match s.room cur with
  | none => (mp, [])
  | some (_, cur') =>
    let mp := if MCLBYTES - cur.mc.length > 0 then mp else ⟨cur'.before.length, 0⟩
    (mp.advance 1, [⟨mp, cur'.before.length⟩])

/-- The stores of `storeOctet`. -/
def octetStores (s : Softc) (cur : Cur) (mp : Place) (c : Byte) : Place × List RxStore :=
  if s.ilen = 1 ∧ c ≠ PPP_UI then (mp, [])
  else
    let p := protocolOctet s cur c
    let q := protocolStores s cur mp c
    if p.1.ilen = 3 ∧ odd c = false then q
    else
      let t : Softc := { p.1 with ilen := short (p.1.ilen + 1) }
      if t.ilen > (cfg.mru + PPP_HDRLEN + PPP_FCSLEN : Nat) then q
      else
        let r := t.appendStores p.2 q.1
        (r.1, q.2 ++ r.2)

/-- The stores of `store`. -/
def storeStores (s : Softc) (cur : Cur) (mp : Place) (c : Byte) : Place × List RxStore :=
  let p := firstOctet cfg s cur c
  let q := firstStores cfg s mp c
  if p.2.2 then
    let r := octetStores cfg p.1 p.2.1 q.1 c
    (r.1, q.2 ++ r.2)
  else q

def frameOctet (s : Softc) (c : Byte) : Option Byte :=
  if c = PPP_FLAG then none
  else if removed cfg.rasyncmap c then none
  else if s.escaped then some (transform c)
  else if c = PPP_ESCAPE then none
  else some c

/-- The receiver with a receive chain, none without a free buffer. -/
def withChain (s : Softc) : Option (Softc × Cur) :=
  match s.m with
  | some cur => some (s, cur)
  | none =>
    match s.freeq with
    | [] => none
    | b :: freeq => some ({ s with m := some b.cur, freeq := freeq, events := { s.events with empty := true } }, b.cur)

/-- `sc_mp` behind a character, and what is stored. -/
def inputStores (s : Softc) (mp : Place) (c : Byte) : Place × List RxStore :=
  match s.withChain, s.frameOctet cfg c with
  | some (t, cur), some d => ({ t with escaped := false } : Softc).storeStores cfg cur mp d
  | _, _ => (mp, [])

end Softc

/-- All octets of a chain: what its `m_len` add up to. -/
def Cur.octets (cur : Cur) : List Byte := (cur.before ++ cur.mc :: cur.behind).flatten

/-- In a frame that is not flushed, the octets of the chain are `sc_ilen` in number. -/
def Softc.SumMatches (s : Softc) : Prop :=
  s.flush = false → s.ilen ≠ 0 → ∃ cur, s.m = some cur ∧ (cur.octets.length : Int) = s.ilen

/-- The receiver, `sc_mp`, and what was stored. -/
structure Receiver where
  sc : Softc
  mp : Place
  stores : List RxStore

def receiverStep (cfg : RxConfig) (r : Receiver) (a : InputAct) : Receiver :=
  match a with
  | .input c =>
    let q := r.sc.inputStores cfg r.mp c
    ⟨inputStep cfg r.sc a, q.1, r.stores ++ q.2⟩
  | .free _ => { r with sc := inputStep cfg r.sc a }

/-- Nothing was stored before `pppopen`. -/
def openReceiver : Receiver := ⟨pppopen, ⟨0, 0⟩, []⟩

structure Receiver.Good (r : Receiver) : Prop where
  inside : ∀ w ∈ r.stores, w.Inside
  sum : r.sc.SumMatches

def Softc.begins (cfg : RxConfig) (s : Softc) (c : Byte) : Bool :=
  !s.flush && decide (s.ilen = 0) && (s.frameOctet cfg c).any fun d => decide (d = PPP_ALLSTATIONS) || !cfg.rejCompAc

/-- A frame begins in a chain with no octets behind its first mbuf. -/
def CleanStart (cfg : RxConfig) (r : Receiver) : InputAct → Prop
  | .input c => r.sc.begins cfg c = true → ∀ p ∈ r.sc.withChain, p.2.restart.behind.flatten = []
  | .free _ => True

section Stores

variable {cfg : RxConfig} {s t : Softc} {cur cur' : Cur} {mp : Place} {c : Byte}

theorem short_range (x : Int) : -32768 ≤ short x ∧ short x ≤ 32767 := by
  rw [short, Int.bmod_def]
  split <;> omega

theorem short_eq_self {x : Int} (h : -32768 ≤ x) (h' : x ≤ 32767) : short x = x := by
  rw [short, Int.bmod_def]
  split <;> omega

/-- `sc_mp` is behind the octets of the current mbuf. -/
structure PointsBehind (cur : Cur) (mp : Place) : Prop where
  place : mp = ⟨cur.before.length, cur.mc.length⟩
  length : cur.mc.length ≤ MCLBYTES

theorem PointsBehind.inside (h : PointsBehind cur mp) (hlen : cur.mc.length < MCLBYTES) :
    RxStore.Inside ⟨mp, cur.before.length⟩ := by
  rw [h.place]
  exact ⟨rfl, hlen⟩

theorem PointsBehind.push (h : PointsBehind cur mp) (hlen : cur.mc.length < MCLBYTES) (c : Byte) :
    PointsBehind (cur.push [c]) (mp.advance 1) := by
  refine ⟨?_, ?_⟩
  · rw [h.place, Place.advance, Cur.push, length_append]
    rfl
  · rw [Cur.push, length_append]
    exact hlen

/-- The octets up to `sc_mp`. -/
def Cur.front (cur : Cur) : List Byte := cur.before.flatten ++ cur.mc

theorem length_octets (cur : Cur) : cur.octets.length = cur.front.length + cur.behind.flatten.length := by
  unfold Cur.octets Cur.front
  rw [flatten_append, flatten_cons, length_append, length_append, length_append]
  omega

theorem length_front_push (cur : Cur) (c : Byte) : (cur.push [c]).front.length = cur.front.length + 1 := by
  unfold Cur.front Cur.push
  dsimp only
  rw [length_append, length_append, length_append, length_singleton]
  omega

/-- `sc_ilen` counts the octets up to `sc_mp`. -/
structure Counts (s : Softc) (cur : Cur) : Prop where
  front : (cur.front.length : Int) = s.ilen
  bound : s.ilen ≤ (2 * MCLBYTES : Nat)

theorem room_cases {p : Softc × Cur} (h : s.room cur = some p) :
    (p.1.ilen = s.ilen ∧ p.1.flush = s.flush) ∧
      (p.2 = cur ∧ cur.mc.length < MCLBYTES ∨
        p.2 = ⟨cur.before ++ [cur.mc], [], []⟩ ∧ MCLBYTES ≤ cur.mc.length) := by
  unfold Softc.room at h
  grind

structure Stored (s t : Softc) (cur cur' : Cur) (q : Place × List RxStore) : Prop where
  inside : ∀ w ∈ q.2, w.Inside
  m : t.m = some cur'
  points : PointsBehind cur' q.1
  grows : cur'.mc.length ≤ cur.mc.length + 1
  counts : t.flush = false → s.flush = false ∧ cur'.front.length = cur.front.length + 1 ∧
    (cur'.behind = cur.behind ∨ cur'.behind = [])

theorem append_stored (h : PointsBehind cur mp) (c : Byte) :
    (s.append cur c).ilen = s.ilen ∧ ∃ cur', Stored s (s.append cur c) cur cur' (s.appendStores cur mp) := by
  unfold Softc.append Softc.appendStores
  cases hroom : s.room cur with
  | none =>
    exact ⟨rfl, cur, fun w hw => absurd hw not_mem_nil, rfl, h, Nat.le_succ _, fun hflush => Bool.noConfusion hflush⟩
  | some p =>
    obtain ⟨⟨hilen, hflush⟩, ⟨hp, hlen⟩ | ⟨hp, hlen⟩⟩ := room_cases hroom
    · obtain ⟨t, cur'⟩ := p
      obtain rfl : cur' = cur := hp
      dsimp only at hilen hflush ⊢
      rw [if_pos (by omega)]
      refine ⟨hilen, cur'.push [c], ?_, rfl, h.push hlen c, ?_, fun hf => ⟨hflush ▸ hf, length_front_push _ c, .inl rfl⟩⟩
      · intro w hw
        rw [mem_singleton.mp hw]
        exact h.inside hlen
      · exact Nat.le_of_eq length_append
    · obtain ⟨t, cur'⟩ := p
      obtain rfl : cur' = ⟨cur.before ++ [cur.mc], [], []⟩ := hp
      dsimp only at hilen hflush ⊢
      rw [if_neg (by omega)]
      have hempty : 0 < MCLBYTES := by decide
      -- `sc_mp` is set to the beginning of an mbuf without octets
      have hpoints : PointsBehind ⟨cur.before ++ [cur.mc], [], []⟩ ⟨(cur.before ++ [cur.mc]).length, 0⟩ :=
        ⟨rfl, Nat.zero_le _⟩
      have hfront : Cur.front ⟨cur.before ++ [cur.mc], [], []⟩ = cur.front := by
        unfold Cur.front
        simp
      refine ⟨hilen, Cur.push ⟨cur.before ++ [cur.mc], [], []⟩ [c], ?_, rfl, hpoints.push hempty c, ?_,
        fun hf => ⟨hflush ▸ hf, ?_, .inr rfl⟩⟩
      · intro w hw
        rw [mem_singleton.mp hw]
        exact hpoints.inside hempty
      · exact Nat.le_add_left 1 _
      · rw [length_front_push, hfront]

/-- The receiver within a frame: the header is in the first mbuf. -/
structure InFrame (s : Softc) (cur : Cur) (mp : Place) : Prop where
  points : PointsBehind cur mp
  range : short s.ilen = s.ilen
  header : 0 < s.ilen → s.ilen ≤ 2 → (cur.mc.length : Int) ≤ s.ilen

structure StoredOctet (s t : Softc) (cur : Cur) (q : Place × List RxStore) : Prop where
  inside : ∀ w ∈ q.2, w.Inside
  frame : ∃ cur', t.m = some cur' ∧ InFrame t cur' q.1 ∧
    (t.flush = false → s.flush = false ∧ (Counts s cur → Counts t cur') ∧ (cur'.behind = cur.behind ∨ cur'.behind = []))

theorem StoredOctet.cons {s' : Softc} {q : Place × List RxStore} {w : RxStore} (h : StoredOctet s' t cur' q)
    (hw : w.Inside) (hflush : s'.flush = s.flush) (hcounts : Counts s cur → Counts s' cur')
    (hbehind : cur'.behind = cur.behind) : StoredOctet s t cur (q.1, w :: q.2) := by
  refine ⟨forall_mem_cons.mpr ⟨hw, h.inside⟩, ?_⟩
  grind [h.frame]

theorem limit_stored (hmru : cfg.mru < MCLBYTES) (h : PointsBehind cur mp) (hrange : short s.ilen = s.ilen)
    (hne : s.ilen ≠ 0) (hheader : s.ilen = 1 → cur.mc.length ≤ 1) (c : Byte) :
    StoredOctet s
      (if short (s.ilen + 1) > (cfg.mru + PPP_HDRLEN + PPP_FCSLEN : Nat) then
        ({ s with ilen := short (s.ilen + 1) } : Softc).toFlush cur
      else ({ s with ilen := short (s.ilen + 1) } : Softc).append cur c) cur
      (if short (s.ilen + 1) > (cfg.mru + PPP_HDRLEN + PPP_FCSLEN : Nat) then (mp, [])
      else ({ s with ilen := short (s.ilen + 1) } : Softc).appendStores cur mp) := by
  have hconst : MCLBYTES = 2048 ∧ PPP_HDRLEN = 4 ∧ PPP_FCSLEN = 2 := ⟨rfl, rfl, rfl⟩
  have hout := short_range (s.ilen + 1)
  have hnext : short (short (s.ilen + 1)) = short (s.ilen + 1) := short_eq_self hout.1 hout.2
  have hplus : 0 < short (s.ilen + 1) → short (s.ilen + 1) = s.ilen + 1 := by
    intro hpos
    grind [short]
  by_cases hbig : short (s.ilen + 1) > (cfg.mru + PPP_HDRLEN + PPP_FCSLEN : Nat)
  · rw [if_pos hbig, if_pos hbig]
    refine ⟨fun w hw => absurd hw not_mem_nil, cur, rfl, ⟨h, hnext, fun _ hle => ?_⟩, fun hf => Bool.noConfusion hf⟩
    exact absurd hle (by show ¬ short (s.ilen + 1) ≤ 2; omega)
  · rw [if_neg hbig, if_neg hbig]
    obtain ⟨hilen, cur', hstored⟩ := append_stored (s := { s with ilen := short (s.ilen + 1) }) h c
    refine ⟨hstored.inside, cur', hstored.m, ⟨hstored.points, ?_, ?_⟩, fun hf => ?_⟩
    · rw [hilen]
      exact hnext
    · grind [hstored.grows]
    · obtain ⟨hflush, hfront, hbehind⟩ := hstored.counts hf
      refine ⟨hflush, fun hcounts => ⟨?_, ?_⟩, hbehind⟩
      · grind [hcounts.front, hcounts.bound, short_eq_self]
      · rw [hilen]
        show short (s.ilen + 1) ≤ _
        omega

theorem storeOctet_stored (hmru : cfg.mru < MCLBYTES) (h : InFrame s cur mp) (hne : s.ilen ≠ 0) (c : Byte) :
    StoredOctet s (s.storeOctet cfg cur c) cur (s.octetStores cfg cur mp c) := by
  have hsame : StoredOctet s (s.toFlush cur) cur (mp, []) :=
    ⟨fun w hw => absurd hw not_mem_nil, cur, rfl, ⟨h.points, h.range, h.header⟩, fun hf => Bool.noConfusion hf⟩
  unfold Softc.storeOctet Softc.octetStores
  by_cases h1 : s.ilen = 1 ∧ c ≠ PPP_UI
  · rw [if_pos h1, if_pos h1]
    exact hsame
  · rw [if_neg h1, if_neg h1]
    unfold Softc.protocolOctet Softc.protocolStores
    by_cases h2 : s.ilen = 2 ∧ odd c = true
    · -- the high octet of the protocol is stored without a check: there are two octets in the mbuf
      have hthree : short (s.ilen + 1) = 3 := by
        rw [h2.1]
        rfl
      have hlen : cur.mc.length < MCLBYTES := by
        have := h.header (by rw [h2.1]; decide) (Int.le_of_eq h2.1)
        have hconst : MCLBYTES = 2048 := rfl
        omega
      have hlimit := limit_stored (s := { s with ilen := 3 }) hmru (h.points.push hlen 0) rfl
        (by show ¬ (3 : Int) = 0; decide) (fun hone => absurd hone (by show ¬ (3 : Int) = 1; decide)) c
      have hgives : Counts s cur → Counts { s with ilen := 3 } (cur.push [0]) := by
        intro hcount
        refine ⟨?_, ?_⟩
        · grind [hcount.front, length_front_push]
        · show (3 : Int) ≤ (2 * MCLBYTES : Nat)
          decide
      have hstored := hlimit.cons (s := s) (h.points.inside hlen) rfl hgives rfl
      grind
    · rw [if_neg h2, if_neg h2]
      by_cases h3 : s.ilen = 3 ∧ odd c = false
      · rw [if_pos h3, if_pos h3]
        exact hsame
      · have hlimit := limit_stored hmru h.points h.range hne (fun hone => by
          have := h.header (by rw [hone]; decide) (by rw [hone]; decide)
          omega) c
        grind

/-- The first octet of a frame that is taken: the header goes to the beginning of the first mbuf. -/
structure Begun (s t : Softc) (cur : Cur) (q : Place × List RxStore) : Prop where
  inside : ∀ w ∈ q.2, w.Inside
  flush : t.flush = s.flush
  frame : ∃ mc : Mbuf, t.m = some ⟨[], mc, cur.restart.behind⟩ ∧ q.1 = ⟨0, mc.length⟩ ∧ t.ilen = mc.length ∧
    1 ≤ mc.length ∧ mc.length ≤ 4

theorem restart_eq (cur : Cur) : cur.restart = ⟨[], [], cur.restart.behind⟩ := by
  unfold Cur.restart
  split <;> rfl

theorem append_header {behind : List Mbuf} {mc : Mbuf} {n : Int} (hlen : mc.length ≤ 3) (hn : n = (mc.length + 1 : Nat))
    (c : Byte) : Begun s (({ s with ilen := n } : Softc).append ⟨[], mc, behind⟩ c) ⟨[], [], behind⟩
      (({ s with ilen := n } : Softc).appendStores ⟨[], mc, behind⟩ ⟨0, mc.length⟩) := by
  have hconst : MCLBYTES = 2048 := rfl
  have hroom : ({ s with ilen := n } : Softc).room ⟨[], mc, behind⟩ = some ({ s with ilen := n }, ⟨[], mc, behind⟩) :=
    if_pos (by show MCLBYTES - mc.length > 0; omega)
  unfold Softc.append Softc.appendStores
  rw [hroom]
  dsimp only
  rw [if_pos (by omega)]
  refine ⟨?_, rfl, mc ++ [c], rfl, ?_, ?_, ?_⟩
  · intro w hw
    rw [mem_singleton.mp hw]
    exact ⟨rfl, by show mc.length < MCLBYTES; omega⟩
  · rw [length_append]
    rfl
  · rw [length_append]
    exact hn
  · rw [length_append, length_singleton]
    omega

theorem Begun.prepend {q : Place × List RxStore} {ws : List RxStore} (h : Begun s t cur q) (hws : ∀ w ∈ ws, w.Inside) :
    Begun s t cur (q.1, ws ++ q.2) := by
  refine ⟨fun w hw => ?_, h.flush, h.frame⟩
  rcases mem_append.mp hw with hw | hw
  · exact hws w hw
  · exact h.inside w hw

theorem header_octet {behind : List Mbuf} {mc : Mbuf} (hmc : mc.length = 0 ∨ mc.length = 2) (hilen : s.ilen = mc.length)
    (c : Byte) : Begun s (s.storeOctet cfg ⟨[], mc, behind⟩ c) ⟨[], [], behind⟩
      (s.octetStores cfg ⟨[], mc, behind⟩ ⟨0, mc.length⟩ c) := by
  have hconst : MCLBYTES = 2048 ∧ PPP_HDRLEN = 4 ∧ PPP_FCSLEN = 2 := ⟨rfl, rfl, rfl⟩
  have hone : ¬ (s.ilen = 1 ∧ c ≠ PPP_UI) := fun h => by omega
  unfold Softc.storeOctet Softc.octetStores
  rw [if_neg hone, if_neg hone]
  unfold Softc.protocolOctet Softc.protocolStores
  by_cases h2 : s.ilen = 2 ∧ odd c = true
  · have hlen : mc.length = 2 := by omega
    have hthree : short (s.ilen + 1) = 3 := by
      rw [h2.1]
      rfl
    have hfour : short (3 + 1) = 4 := rfl
    have heven : ¬ ((3 : Int) = 3 ∧ odd c = false) := by
      rw [h2.2]
      exact fun h => Bool.noConfusion h.2
    have hplace : Place.advance ⟨0, mc.length⟩ 1 = ⟨0, (mc ++ [0]).length⟩ := by
      rw [length_append]
      rfl
    have hheader := @append_header s behind (mc ++ [0]) 4
      (by rw [length_append, length_singleton]; omega)
      (by rw [length_append, length_singleton, hlen]; rfl) c
    rw [if_pos h2, if_pos h2]
    rw [hthree, if_neg heven, if_neg heven]
    have hsmall : ¬ (4 : Int) > (cfg.mru + PPP_HDRLEN + PPP_FCSLEN : Nat) := by omega
    rw [hfour, if_neg hsmall, if_neg hsmall, hplace]
    refine hheader.prepend fun w hw => ?_
    rw [mem_singleton.mp hw]
    exact ⟨rfl, by show mc.length < MCLBYTES; omega⟩
  · have hnext : short (s.ilen + 1) = ((mc.length + 1 : Nat) : Int) := by
      rw [short_eq_self (by omega) (by omega)]
      omega
    have hthree : ¬ (s.ilen = 3 ∧ odd c = false) := fun h => by omega
    have hsmall : ¬ short (s.ilen + 1) > (cfg.mru + PPP_HDRLEN + PPP_FCSLEN : Nat) := by omega
    rw [if_neg h2, if_neg h2]
    rw [if_neg hthree, if_neg hthree, if_neg hsmall, if_neg hsmall]
    exact append_header (by omega) hnext c

theorem store_begun (hilen : s.ilen = 0) (hc : c = PPP_ALLSTATIONS ∨ cfg.rejCompAc = false) (cur : Cur) (mp : Place) :
    Begun s (s.store cfg cur c) cur (s.storeStores cfg cur mp c) := by
  unfold Softc.store Softc.storeStores Softc.firstOctet Softc.firstStores
  rw [if_pos hilen, if_pos hilen, restart_eq cur]
  by_cases hall : c = PPP_ALLSTATIONS
  · rw [if_neg (not_not.mpr hall), if_neg (not_not.mpr hall)]
    have h := @header_octet cfg { s with fcs := PPP_INITFCS } cur.restart.behind [] (.inl rfl) hilen c
    exact ⟨h.inside, h.flush, h.frame⟩
  · have hrej : cfg.rejCompAc = false := hc.resolve_left hall
    rw [if_pos hall, if_pos hall, hrej, hilen]
    have h := @header_octet cfg { s with fcs := PPP_INITFCS, ilen := 2 } cur.restart.behind
      [PPP_ALLSTATIONS, PPP_UI] (.inr rfl) rfl c
    have hfirst : ∀ w ∈ [(⟨⟨0, 0⟩, 0⟩ : RxStore), ⟨Place.advance ⟨0, 0⟩ 1, 0⟩], w.Inside := by
      intro w hw
      rcases mem_cons.mp hw with rfl | hw
      · exact ⟨rfl, by decide⟩
      · rw [mem_singleton.mp hw]
        exact ⟨rfl, by decide⟩
    have h := h.prepend hfirst
    exact ⟨h.inside, h.flush, h.frame⟩

theorem store_refused (hilen : s.ilen = 0) (hc : c ≠ PPP_ALLSTATIONS) (hrej : cfg.rejCompAc = true) (cur : Cur)
    (mp : Place) : (s.store cfg cur c).flush = true ∧ (s.store cfg cur c).ilen = 0 ∧
      (s.storeStores cfg cur mp c).2 = [] := by
  unfold Softc.store Softc.storeStores Softc.firstOctet Softc.firstStores
  rw [if_pos hilen, if_pos hilen]
  rw [if_pos hc, if_pos hc, if_pos hrej, if_pos hrej]
  exact ⟨rfl, hilen, rfl⟩

theorem store_behind (hilen : s.ilen ≠ 0) (cur : Cur) (mp : Place) (c : Byte) :
    s.store cfg cur c = s.storeOctet cfg cur c ∧ s.storeStores cfg cur mp c = s.octetStores cfg cur mp c := by
  unfold Softc.store Softc.storeStores Softc.firstOctet Softc.firstStores
  rw [if_neg hilen, if_neg hilen]
  exact ⟨rfl, rfl⟩

end Stores

section Receiver

variable {cfg : RxConfig} {s t : Softc} {cur : Cur} {mp : Place} {c : Byte} {r r' : Receiver}

theorem octet_cases (hc : c ≠ PPP_FLAG) (s : Softc) (cur : Cur) :
    (∃ d, s.frameOctet cfg c = some d ∧ s.octet cfg cur c = ({ s with escaped := false } : Softc).store cfg cur d) ∨
      s.frameOctet cfg c = none ∧ ∃ e, s.octet cfg cur c = { s with escaped := e } := by
  unfold Softc.frameOctet Softc.octet
  rw [if_neg hc, if_neg hc]
  by_cases hr : removed cfg.rasyncmap c = true
  · rw [if_pos hr, if_pos hr]
    exact .inr ⟨rfl, s.escaped, rfl⟩
  · rw [if_neg hr, if_neg hr]
    cases he : s.escaped with
    | true => exact .inl ⟨transform c, rfl, rfl⟩
    | false =>
      by_cases hce : c = PPP_ESCAPE
      · grind
      · rw [if_neg Bool.false_ne_true, if_neg Bool.false_ne_true, if_neg hce, if_neg hce]
        refine .inl ⟨c, rfl, ?_⟩
        rw [← he]

theorem ilen_endFrame (s : Softc) (cur : Cur) : (s.endFrame cur).ilen = 0 := by
  cases hacc : s.accepts with
  | false => exact (endFrame_of_not_accepts s cur hacc).2.2.1
  | true => exact (endFrame_of_accepts s cur hacc).2.2.1

theorem withChain_spec {p : Softc × Cur} (h : s.withChain = some p) :
    p.1.m = some p.2 ∧ p.1.ilen = s.ilen ∧ p.1.flush = s.flush ∧ p.1.escaped = s.escaped ∧
      (s.m ≠ none → p.1 = s) ∧ ∀ c, pppinput cfg s c = p.1.octet cfg p.2 c := by
  unfold Softc.withChain at h
  unfold pppinput
  grind

theorem withChain_none (h : s.withChain = none) (c : Byte) :
    s.m = none ∧ (pppinput cfg s c).m = none ∧ (pppinput cfg s c).ilen = s.ilen := by
  grind [Softc.withChain, pppinput]

structure ReceiverInv (r : Receiver) : Prop where
  inside : ∀ w ∈ r.stores, w.Inside
  frame : r.sc.ilen ≠ 0 → ∃ cur, r.sc.m = some cur ∧ InFrame r.sc cur r.mp

def FrameCounts (s : Softc) : Prop :=
  s.flush = false → s.ilen ≠ 0 → ∀ cur, s.m = some cur → Counts s cur ∧ cur.behind.flatten = []

/-- How a character changes the receiver: no octet, the first octet of a frame, or a further one. -/
inductive Takes (cfg : RxConfig) (s : Softc) (mp : Place) (c : Byte) (t : Softc) (q : Place × List RxStore) : Prop
  | idle (hilen : t.ilen = 0) (hq : q.2 = []) (hbegins : s.begins cfg c = false ∨ s.withChain = none)
  | keeps (hne : s.ilen ≠ 0) (hm : t.m = s.m) (hilen : t.ilen = s.ilen) (hflush : t.flush = s.flush) (hq : q = (mp, []))
  | begins (u : Softc) (cur : Cur) (hchain : s.withChain = some (u, cur)) (hilen : s.ilen = 0)
      (hbegins : s.begins cfg c = !s.flush) (h : Begun s t cur q)
  | stores (cur : Cur) (hne : s.ilen ≠ 0) (hm : s.m = some cur) (h : StoredOctet s t cur q)

theorem begins_of_ne (h : s.ilen ≠ 0) (cfg : RxConfig) (c : Byte) : s.begins cfg c = false := by
  unfold Softc.begins
  simp [decide_eq_false h]

theorem begins_of_none (h : s.frameOctet cfg c = none) : s.begins cfg c = false := by
  unfold Softc.begins
  simp [h]

theorem takes_pppinput (hmru : cfg.mru < MCLBYTES) (h : s.ilen ≠ 0 → ∃ cur, s.m = some cur ∧ InFrame s cur mp) (c : Byte) :
    Takes cfg s mp c (pppinput cfg s c) (s.inputStores cfg mp c) := by
  unfold Softc.inputStores
  cases hchain : s.withChain with
  | none =>
    obtain ⟨hnone, -, hilen⟩ := withChain_none hchain c
    have hzero : s.ilen = 0 := by
      by_contra hne
      obtain ⟨cur, hm, -⟩ := h hne
      exact nomatch hnone.symm.trans hm
    exact .idle (hilen.trans hzero) rfl (.inr hchain)
  | some p =>
    obtain ⟨t, cur⟩ := p
    obtain ⟨hm, hilen, hflush, hescaped, hsame, hinput⟩ := withChain_spec hchain
    dsimp only at hm hilen hflush hescaped hsame hinput
    rw [hinput c]
    have hframe : s.frameOctet cfg c = t.frameOctet cfg c := by
      unfold Softc.frameOctet
      rw [hescaped]
    by_cases hc : c = PPP_FLAG
    · have hnone : s.frameOctet cfg c = none := if_pos hc
      rw [hnone]
      have hend : t.octet cfg cur c = t.endFrame cur := if_pos hc
      rw [hend]
      exact .idle (ilen_endFrame t cur) rfl (.inl (begins_of_none hnone))
    · rcases octet_cases hc t cur with ⟨d, hd, hoctet⟩ | ⟨hd, e, hoctet⟩
      · rw [hframe, hd, hoctet]
        dsimp only
        by_cases hzero : s.ilen = 0
        · by_cases hhead : d = PPP_ALLSTATIONS ∨ cfg.rejCompAc = false
          · have hbegun := store_begun (s := { t with escaped := false }) (hilen.trans hzero) hhead cur mp
            refine .begins t cur hchain hzero ?_ ⟨hbegun.inside, hbegun.flush.trans hflush, hbegun.frame⟩
            unfold Softc.begins
            grind
          · obtain ⟨hall, hrej⟩ := not_or.mp hhead
            have hrej : cfg.rejCompAc = true := Bool.eq_true_of_not_eq_false hrej
            obtain ⟨-, hilen', hstores⟩ := store_refused (s := { t with escaped := false })
              (hilen.trans hzero) hall hrej cur mp
            refine .idle hilen' hstores (.inl ?_)
            unfold Softc.begins
            rw [hframe, hd, any_some, decide_eq_false hall, hrej, Bool.not_true, Bool.or_false, Bool.and_false]
        · obtain ⟨cur', hm', hin⟩ := h hzero
          obtain rfl := hsame (by rw [hm']; nofun)
          obtain rfl : cur = cur' := some.inj (hm.symm.trans hm')
          obtain ⟨hstate, hstores⟩ := store_behind (s := { t with escaped := false }) hzero cur mp d
          rw [hstate, hstores]
          have hin' : InFrame { t with escaped := false } cur mp := ⟨hin.points, hin.range, hin.header⟩
          obtain ⟨hinside, cur', hm', hframe', hcounts⟩ := storeOctet_stored hmru hin' hzero d
          refine .stores cur hzero hm ⟨hinside, cur', hm', hframe', fun hf => ?_⟩
          obtain ⟨hflush', hcounts', hbehind⟩ := hcounts hf
          exact ⟨hflush', fun hcount => hcounts' ⟨hcount.front, hcount.bound⟩, hbehind⟩
      · rw [hframe, hd, hoctet]
        by_cases hzero : s.ilen = 0
        · exact .idle (hilen.trans hzero) rfl (.inl (begins_of_none (hframe.trans hd)))
        · obtain ⟨cur', hm', -⟩ := h hzero
          obtain rfl := hsame (by rw [hm']; nofun)
          exact .keeps hzero rfl rfl rfl rfl

theorem inFrame_begun {q : Place × List RxStore} (h : Begun s t cur q) :
    ∃ mc : Mbuf, t.m = some ⟨[], mc, cur.restart.behind⟩ ∧ t.ilen ≠ 0 ∧ InFrame t ⟨[], mc, cur.restart.behind⟩ q.1 ∧
      Counts t ⟨[], mc, cur.restart.behind⟩ := by
  obtain ⟨mc, hm, hplace, hilen, hpos, hle⟩ := h.frame
  have hconst : MCLBYTES = 2048 := rfl
  refine ⟨mc, hm, by omega, ⟨⟨hplace, ?_⟩, short_eq_self (by omega) (by omega), fun _ _ => Int.le_of_eq hilen.symm⟩, ?_, ?_⟩
  · show mc.length ≤ MCLBYTES
    omega
  · exact hilen.symm
  · omega

theorem receiverInv_step (hmru : cfg.mru < MCLBYTES) (h : ReceiverInv r) (a : InputAct) :
    ReceiverInv (receiverStep cfg r a) := by
  cases a with
  | free b =>
    refine ⟨h.inside, fun hne => ?_⟩
    obtain ⟨cur, hm, hin⟩ := h.frame hne
    exact ⟨cur, hm, hin.points, hin.range, hin.header⟩
  | input c =>
    have hstores : ∀ {q : Place × List RxStore}, (∀ w ∈ q.2, w.Inside) → ∀ w ∈ r.stores ++ q.2, w.Inside := by
      intro q hq w hw
      rcases mem_append.mp hw with hw | hw
      · exact h.inside w hw
      · exact hq w hw
    have hnone : ∀ {ws : List RxStore}, ws = [] → ∀ w ∈ ws, w.Inside := by
      rintro ws rfl w hw
      cases hw
    rcases takes_pppinput hmru h.frame c with ⟨hilen, hq, -⟩ | ⟨hne, hm, hilen, -, hq⟩ | ⟨u, cur, -, -, -, hbegun⟩ |
      ⟨cur, -, -, hstored⟩
    · exact ⟨hstores (hnone hq), fun hne => absurd hilen hne⟩
    · refine ⟨hstores (hnone (congrArg Prod.snd hq)), fun _ => ?_⟩
      obtain ⟨cur, hcur, hin⟩ := h.frame hne
      refine ⟨cur, hm.trans hcur, ?_⟩
      have hmp : (receiverStep cfg r (.input c)).mp = r.mp := congrArg Prod.fst hq
      rw [hmp]
      exact ⟨hin.points, hilen ▸ hin.range, hilen ▸ hin.header⟩
    · obtain ⟨mc, hm, -, hin, -⟩ := inFrame_begun hbegun
      exact ⟨hstores hbegun.inside, fun _ => ⟨_, hm, hin⟩⟩
    · obtain ⟨cur', hm, hin, -⟩ := hstored.frame
      exact ⟨hstores hstored.inside, fun _ => ⟨cur', hm, hin⟩⟩

/-- The octets of the chain stay those of the frame, if it has begun in a chain without others. -/
theorem frameCounts_step (hmru : cfg.mru < MCLBYTES) (h : ReceiverInv r) (hcounts : FrameCounts r.sc) {a : InputAct}
    (hclean : CleanStart cfg r a) : FrameCounts (receiverStep cfg r a).sc := by
  cases a with
  | free b =>
    intro hflush hne cur hm
    obtain ⟨hcount, hbehind⟩ := hcounts hflush hne cur hm
    exact ⟨⟨hcount.front, hcount.bound⟩, hbehind⟩
  | input c =>
    intro hflush hne cur₁ hcur₁
    rcases takes_pppinput hmru h.frame c with ⟨hilen, -, -⟩ | ⟨hne', hm, hilen, hflush', -⟩ |
      ⟨u, cur, hchain, -, hbegins, hbegun⟩ | ⟨cur, hne', hm, hstored⟩
    · exact absurd hilen hne
    · obtain ⟨hcount, hbehind⟩ := hcounts (hflush'.symm.trans hflush) hne' cur₁ (hm.symm.trans hcur₁)
      exact ⟨⟨hcount.front.trans hilen.symm, Int.le_trans (Int.le_of_eq hilen) hcount.bound⟩, hbehind⟩
    · obtain ⟨mc, hm, -, -, hcount⟩ := inFrame_begun hbegun
      obtain rfl := some.inj (hm.symm.trans hcur₁)
      have hbegins : r.sc.begins cfg c = true := by
        rw [hbegins, ← hbegun.flush]
        exact congrArg not hflush
      exact ⟨hcount, hclean hbegins _ hchain⟩
    · obtain ⟨cur', hm', -, hnext⟩ := hstored.frame
      obtain rfl := some.inj (hm'.symm.trans hcur₁)
      obtain ⟨hflush', hcounts', hbehind'⟩ := hnext hflush
      obtain ⟨hcount, hbehind⟩ := hcounts hflush' hne' cur hm
      refine ⟨hcounts' hcount, ?_⟩
      grind

theorem good_of_counts (h : ReceiverInv r) (hcounts : FrameCounts r.sc) : r.Good := by
  refine ⟨h.inside, fun hflush hne => ?_⟩
  obtain ⟨cur, hm, -⟩ := h.frame hne
  obtain ⟨hcount, hbehind⟩ := hcounts hflush hne cur hm
  refine ⟨cur, hm, ?_⟩
  rw [length_octets, hbehind]
  exact hcount.front

/-- The octets of an abandoned frame are still in the chain behind the first octet of the next one. -/
theorem not_good_of_leftover (hmru : cfg.mru < MCLBYTES) (h : ReceiverInv r) {a : InputAct}
    (hleft : ¬ CleanStart cfg r a) : ¬ (receiverStep cfg r a).Good := by
  cases a with
  | free b => exact absurd trivial hleft
  | input c =>
    intro hgood
    apply hleft
    intro hbegins p hp
    rcases takes_pppinput hmru h.frame c with ⟨-, -, hno⟩ | ⟨hne, -, -, -, -⟩ | ⟨u, cur, hchain, -, hbegins', hbegun⟩ |
      ⟨cur, hne, -, -⟩
    · grind
    · exact Bool.noConfusion (hbegins.symm.trans (begins_of_ne hne cfg c))
    · obtain ⟨mc, hm, hne, -, hcount⟩ := inFrame_begun hbegun
      have hflush : (pppinput cfg r.sc c).flush = false := by
        rw [hbegun.flush, ← Bool.not_eq_true', ← hbegins', hbegins]
      obtain ⟨cur₁, hcur₁, hsum⟩ := hgood.sum hflush hne
      obtain rfl := some.inj (hm.symm.trans hcur₁)
      rw [length_octets] at hsum
      have hfront : ((Cur.front ⟨[], mc, cur.restart.behind⟩).length : Int) = (receiverStep cfg r (.input c)).sc.ilen :=
        hcount.front
      grind [Int.ofNat.inj]
    · exact Bool.noConfusion (hbegins.symm.trans (begins_of_ne hne cfg c))

theorem receiverInv_open : ReceiverInv openReceiver :=
  ⟨fun _ hw => absurd hw not_mem_nil, fun hne => absurd rfl hne⟩

theorem frameCounts_open : FrameCounts openReceiver.sc := fun _ hne => absurd rfl hne

abbrev receiverRun (cfg : RxConfig) (r : Receiver) (a : InputAct) : Option Receiver := some (receiverStep cfg r a)

theorem sc_run (as : List InputAct) (r : Receiver) :
    ∃ t, run (receiverRun cfg) r as = some t ∧ t.sc = feed cfg r.sc as := by
  induction as generalizing r with
  | nil => exact ⟨r, rfl, rfl⟩
  | cons a as ih =>
    obtain ⟨t, ht, hsc⟩ := ih (receiverStep cfg r a)
    refine ⟨t, run_cons.mpr ⟨_, rfl, ht⟩, hsc.trans ?_⟩
    cases a <;> rfl

/-- The octets are as many as `sc_ilen` says exactly when every frame begins in a clean chain. -/
theorem good_iff (hmru : cfg.mru < MCLBYTES) (as : List InputAct) :
    Throughout (receiverRun cfg) Receiver.Good openReceiver as ↔
      StepsMeet (receiverRun cfg) (CleanStart cfg) openReceiver as := by
  obtain ⟨t, ht, -⟩ := sc_run as openReceiver
  refine @good_iff_stepsMeet _ _ _ _ (fun r => ReceiverInv r ∧ FrameCounts r.sc) _
    (fun r h => good_of_counts h.1 h.2) (fun r a r' h hclean hstep => ?_) (fun r a r' h hleft hstep => ?_)
    as _ t ⟨receiverInv_open, frameCounts_open⟩ ht
  · obtain rfl := some.inj hstep
    exact ⟨receiverInv_step hmru h.1 a, frameCounts_step hmru h.1 h.2 hclean⟩
  · obtain rfl := some.inj hstep
    exact not_good_of_leftover hmru h.1 hleft

end Receiver

section Main

/-- **Accesses inside the buffers**: for every packet, map and progress of the driver, and every receive unit size that
`PPPIOCSMRU` admits and all characters, `pppstart` reads below the length of its buffers and `pppinput` stores in the
mbufs that count the octets, as many of them as `sc_ilen` says, if and only if the last octet of every buffer of the
packet has to be escaped, and every frame begins in a chain with no octets behind its first mbuf. -/
theorem accessesInside_iff (tx : TxConfig) (packet : List Mbuf) (rx : RxConfig) (new : Nat)
    (hmru : pppiocsmru PPP_MRU new = some rx.mru) (as : List InputAct) :
    ReadsInside tx packet ∧ Throughout (receiverRun rx) Receiver.Good openReceiver as ↔
      (∀ b ∈ outBuffers packet, EndsEscaped tx.asyncmap b) ∧
        StepsMeet (receiverRun rx) (CleanStart rx) openReceiver as :=
  and_congr (readsInside_iff tx packet) (good_iff (mru_lt_of_pppiocsmru hmru) as)

/-- A control packet with its last octet below 0x20, and the map of `pppopen`. -/
theorem accessesInside_iff_control :
    ReadsInside ⟨false, false, pppopenMap, false⟩ [[0xff, 0x03, 0xc0, 0x21, 0x01, 0x03, 0x00, 0x04]] ∧
        Throughout (receiverRun ⟨1500, false, 0⟩) Receiver.Good openReceiver (shortFrame.map .input) ↔
      (∀ b ∈ outBuffers [[0xff, 0x03, 0xc0, 0x21, 0x01, 0x03, 0x00, 0x04]], EndsEscaped pppopenMap b) ∧
        StepsMeet (receiverRun ⟨1500, false, 0⟩) (CleanStart ⟨1500, false, 0⟩) openReceiver (shortFrame.map .input) :=
  accessesInside_iff ⟨false, false, pppopenMap, false⟩ _ ⟨1500, false, 0⟩ 1500 rfl (shortFrame.map .input)

example : ∀ b ∈ outBuffers [[0xff, 0x03, 0xc0, 0x21, 0x01, 0x03, 0x00, 0x04]], EndsEscaped pppopenMap b := by decide

/-- A packet of one printable octet: the first call of `pppstart` reads the octet behind it. -/
theorem printable_read_behind :
    startReads ⟨false, false, pppopenMap, false⟩ (setUpLine [[0x41]]).tx 1 = [(0, 1), (1, 1)] ∧
      ¬ ReadsInside ⟨false, false, pppopenMap, false⟩ [[0x41]] := by
  have hreads : startReads ⟨false, false, pppopenMap, false⟩ (setUpLine [[0x41]]).tx 1 = [(0, 1), (1, 1)] := by decide
  refine ⟨hreads, fun h => ?_⟩
  have hallowed : Allowed ⟨false, false, pppopenMap, false⟩ (setUpLine [[0x41]]).request 1 :=
    ⟨Nat.le_refl 1, Nat.le_refl 1, fun _ => rfl⟩
  have hread := h [] _ 1 rfl hallowed (1, 1) (by exact mem_cons_of_mem _ mem_cons_self)
  exact absurd hread (by decide)

end Main

end RtemsLibbsd.Ppp
