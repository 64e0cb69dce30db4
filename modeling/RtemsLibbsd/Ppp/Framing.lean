import Mathlib.Data.BitVec
import RtemsLibbsd.OctetStuffing

/-!
# PPP frames

The frames of asynchronous PPP lines, `rtemsbsd/sys/net/ppp_tty.c` and `ppp_defs.h`.

* `fcstab`, `PPP_FCS`, `pppfcs` — the frame check sequence, as in the code.
* `fcsBytes` — the two octets that the sender puts behind the contents of a frame.
* `address`, `protocol`, `expand` — what the octets of a frame stand for: the address and control octets
  and the high octet of the protocol may be left out.
* `frameOf` — the packet in a segment of the line, none if the segment has to be ignored.
* `pppfcs_fcsBytes` — contents with their check sequence have the good final value.
* `expand_concat` — the header rules, octet by octet.
-/

namespace RtemsLibbsd.Ppp

open List RtemsLibbsd.OctetStuffing

abbrev Byte := BitVec 8

abbrev PPP_HDRLEN : Nat := 4
abbrev PPP_FCSLEN : Nat := 2
abbrev PPP_MRU : Nat := 1500
abbrev PPP_ALLSTATIONS : Byte := 0xff
abbrev PPP_UI : Byte := 0x03
abbrev PPP_FLAG : Byte := 0x7e
abbrev PPP_ESCAPE : Byte := 0x7d
abbrev PPP_TRANS : Byte := 0x20
abbrev PPP_INITFCS : BitVec 16 := 0xffff
abbrev PPP_GOODFCS : BitVec 16 := 0xf0b8

abbrev MCLBYTES : Nat := 2048

def fcstab : List (BitVec 16) :=
  [
    0x0000, 0x1189, 0x2312, 0x329b, 0x4624, 0x57ad, 0x6536, 0x74bf,
    0x8c48, 0x9dc1, 0xaf5a, 0xbed3, 0xca6c, 0xdbe5, 0xe97e, 0xf8f7,
    0x1081, 0x0108, 0x3393, 0x221a, 0x56a5, 0x472c, 0x75b7, 0x643e,
    0x9cc9, 0x8d40, 0xbfdb, 0xae52, 0xdaed, 0xcb64, 0xf9ff, 0xe876,
    0x2102, 0x308b, 0x0210, 0x1399, 0x6726, 0x76af, 0x4434, 0x55bd,
    0xad4a, 0xbcc3, 0x8e58, 0x9fd1, 0xeb6e, 0xfae7, 0xc87c, 0xd9f5,
    0x3183, 0x200a, 0x1291, 0x0318, 0x77a7, 0x662e, 0x54b5, 0x453c,
    0xbdcb, 0xac42, 0x9ed9, 0x8f50, 0xfbef, 0xea66, 0xd8fd, 0xc974,
    0x4204, 0x538d, 0x6116, 0x709f, 0x0420, 0x15a9, 0x2732, 0x36bb,
    0xce4c, 0xdfc5, 0xed5e, 0xfcd7, 0x8868, 0x99e1, 0xab7a, 0xbaf3,
    0x5285, 0x430c, 0x7197, 0x601e, 0x14a1, 0x0528, 0x37b3, 0x263a,
    0xdecd, 0xcf44, 0xfddf, 0xec56, 0x98e9, 0x8960, 0xbbfb, 0xaa72,
    0x6306, 0x728f, 0x4014, 0x519d, 0x2522, 0x34ab, 0x0630, 0x17b9,
    0xef4e, 0xfec7, 0xcc5c, 0xddd5, 0xa96a, 0xb8e3, 0x8a78, 0x9bf1,
    0x7387, 0x620e, 0x5095, 0x411c, 0x35a3, 0x242a, 0x16b1, 0x0738,
    0xffcf, 0xee46, 0xdcdd, 0xcd54, 0xb9eb, 0xa862, 0x9af9, 0x8b70,
    0x8408, 0x9581, 0xa71a, 0xb693, 0xc22c, 0xd3a5, 0xe13e, 0xf0b7,
    0x0840, 0x19c9, 0x2b52, 0x3adb, 0x4e64, 0x5fed, 0x6d76, 0x7cff,
    0x9489, 0x8500, 0xb79b, 0xa612, 0xd2ad, 0xc324, 0xf1bf, 0xe036,
    0x18c1, 0x0948, 0x3bd3, 0x2a5a, 0x5ee5, 0x4f6c, 0x7df7, 0x6c7e,
    0xa50a, 0xb483, 0x8618, 0x9791, 0xe32e, 0xf2a7, 0xc03c, 0xd1b5,
    0x2942, 0x38cb, 0x0a50, 0x1bd9, 0x6f66, 0x7eef, 0x4c74, 0x5dfd,
    0xb58b, 0xa402, 0x9699, 0x8710, 0xf3af, 0xe226, 0xd0bd, 0xc134,
    0x39c3, 0x284a, 0x1ad1, 0x0b58, 0x7fe7, 0x6e6e, 0x5cf5, 0x4d7c,
    0xc60c, 0xd785, 0xe51e, 0xf497, 0x8028, 0x91a1, 0xa33a, 0xb2b3,
    0x4a44, 0x5bcd, 0x6956, 0x78df, 0x0c60, 0x1de9, 0x2f72, 0x3efb,
    0xd68d, 0xc704, 0xf59f, 0xe416, 0x90a9, 0x8120, 0xb3bb, 0xa232,
    0x5ac5, 0x4b4c, 0x79d7, 0x685e, 0x1ce1, 0x0d68, 0x3ff3, 0x2e7a,
    0xe70e, 0xf687, 0xc41c, 0xd595, 0xa12a, 0xb0a3, 0x8238, 0x93b1,
    0x6b46, 0x7acf, 0x4854, 0x59dd, 0x2d62, 0x3ceb, 0x0e70, 0x1ff9,
    0xf78f, 0xe606, 0xd49d, 0xc514, 0xb1ab, 0xa022, 0x92b9, 0x8330,
    0x7bc7, 0x6a4e, 0x58d5, 0x495c, 0x3de3, 0x2c6a, 0x1ef1, 0x0f78
  ]

def PPP_FCS (fcs : BitVec 16) (c : Byte) : BitVec 16 :=
  (fcs >>> 8) ^^^ fcstab.getD ((fcs.setWidth 8) ^^^ c).toNat 0

def pppfcs (fcs : BitVec 16) (cp : List Byte) : BitVec 16 := cp.foldl PPP_FCS fcs

/-- `sc_outfcsbuf`: the complement of the check sequence, the low octet first. -/
def fcsBytes (fcs : BitVec 16) : List Byte := [(~~~fcs).setWidth 8, ((~~~fcs) >>> 8).setWidth 8]

/-- The sequence `}` and the changed octet. -/
def transform (c : Byte) : Byte := c ^^^ PPP_TRANS

/-- Whether an octet is odd, as the low octet of a protocol is and its high octet is not. -/
def odd (c : Byte) : Bool := c &&& 1 == 1

/-- The control octets that the receiver ignores, a map with a bit for each of them. -/
def removed (rasyncmap : BitVec 32) (c : Byte) : Bool := c.toNat < 0x20 && rasyncmap.getLsbD c.toNat

/-- Settings of the receiver: `sc_mru`, `SC_REJ_COMP_AC` in `sc_flags`, and `sc_rasyncmap`. -/
structure RxConfig where
  mru : Nat
  rejCompAc : Bool
  rasyncmap : BitVec 32

/-- The address and control octets are put in front of a frame that has been sent without them. -/
def address (rejCompAc : Bool) : List Byte → Option (List Byte)
  | [] => some []
  | c :: cs =>
    if c = PPP_ALLSTATIONS then
      match cs with
      | [] => some [c]
      | d :: ds => if d = PPP_UI then some (c :: d :: ds) else none
    else if rejCompAc then none
    else some (PPP_ALLSTATIONS :: PPP_UI :: c :: cs)

/-- The high octet of the protocol is put in front of a protocol that has been sent without it. -/
def protocol : List Byte → Option (List Byte)
  | a :: u :: p :: ps =>
    if odd p then some (a :: u :: 0 :: p :: ps)
    else
      match ps with
      | [] => some [a, u, p]
      | q :: qs => if odd q then some (a :: u :: p :: q :: qs) else none
  | ps => some ps

def expand (rejCompAc : Bool) (us : List Byte) : Option (List Byte) :=
  (address rejCompAc us).bind protocol

def frameOf (cfg : RxConfig) (seg : List Byte) : Option (List Byte) :=
  (unstuff PPP_ESCAPE transform (seg.filter fun c => !removed cfg.rasyncmap c)).bind fun us =>
    (expand cfg.rejCompAc us).bind fun e =>
      if pppfcs PPP_INITFCS us = PPP_GOODFCS ∧ PPP_HDRLEN + PPP_FCSLEN ≤ e.length ∧
          e.length ≤ cfg.mru + PPP_HDRLEN + PPP_FCSLEN then
        some (e.take (e.length - PPP_FCSLEN))
      else none

def frames (cfg : RxConfig) (seg stream : List Byte) : List (List Byte) :=
  (segments PPP_FLAG seg stream).filterMap (frameOf cfg)

theorem transform_transform (c : Byte) : transform (transform c) = c := by
  rw [transform, transform, BitVec.xor_assoc, BitVec.xor_self, BitVec.xor_zero]

section Fcs

theorem pppfcs_append (fcs : BitVec 16) (xs ys : List Byte) :
    pppfcs fcs (xs ++ ys) = pppfcs (pppfcs fcs xs) ys := foldl_append

theorem xor_not (c : Byte) : c ^^^ ~~~c = 0xff := by
  revert c
  decide

theorem PPP_FCS_not (h : Byte) : PPP_FCS (h.setWidth 16 ^^^ 0x0f78) (~~~h) = PPP_GOODFCS := by
  revert h
  decide

theorem pppfcs_fcsBytes (fcs : BitVec 16) : pppfcs fcs (fcsBytes fcs) = PPP_GOODFCS := by
  have hlow : (~~~fcs).setWidth 8 = ~~~(fcs.setWidth 8) := BitVec.setWidth_not (by decide)
  have hshift : fcs >>> 8 = ((fcs >>> 8).setWidth 8).setWidth 16 := by
    grind
  have hhigh : ((~~~fcs) >>> 8).setWidth 8 = ~~~((fcs >>> 8).setWidth 8) := by
    grind
  have hfirst : PPP_FCS fcs ((~~~fcs).setWidth 8) = ((fcs >>> 8).setWidth 8).setWidth 16 ^^^ 0x0f78 := by
    rw [PPP_FCS, hlow, xor_not, ← hshift]
    rfl
  show PPP_FCS (PPP_FCS fcs ((~~~fcs).setWidth 8)) (((~~~fcs) >>> 8).setWidth 8) = PPP_GOODFCS
  rw [hfirst, hhigh]
  exact PPP_FCS_not _

end Fcs

section Header

def putProtocol (e : List Byte) (c : Byte) : Option (List Byte) :=
  if e.length = 2 ∧ odd c then some (e ++ [0, c])
  else if e.length = 3 ∧ odd c = false then none
  else some (e ++ [c])

/-- An octet behind the expanded octets `e` of a frame. -/
def put (rejCompAc : Bool) (e : List Byte) (c : Byte) : Option (List Byte) :=
  if e = [] then
    if c = PPP_ALLSTATIONS then some [c]
    else if rejCompAc then none
    else putProtocol [PPP_ALLSTATIONS, PPP_UI] c
  else if e.length = 1 ∧ c ≠ PPP_UI then none
  else putProtocol e c

theorem protocol_concat (ps : List Byte) (c : Byte) :
    protocol (ps ++ [c]) = (protocol ps).bind fun e => putProtocol e c := by
  rcases ps with _ | ⟨a, _ | ⟨u, _ | ⟨p, _ | ⟨q, ps⟩⟩⟩⟩
  · simp [protocol, putProtocol]
  · simp [protocol, putProtocol]
  · by_cases hc : odd c <;> simp [protocol, putProtocol, hc]
  · by_cases hp : odd p <;> by_cases hc : odd c <;> simp [protocol, putProtocol, hp, hc]
  · by_cases hp : odd p <;> by_cases hq : odd q <;> simp [protocol, putProtocol, hp, hq]

theorem two_le_length_protocol {ps e : List Byte} (hps : 2 ≤ ps.length) (h : protocol ps = some e) :
    2 ≤ e.length := by
  unfold protocol at h
  split at h
  · grind
  · cases h
    exact hps

theorem address_ne {rejCompAc : Bool} {a : Byte} (ha : a ≠ PPP_ALLSTATIONS) (cs : List Byte) :
    address rejCompAc (a :: cs) =
      if rejCompAc then none else some (PPP_ALLSTATIONS :: PPP_UI :: a :: cs) := if_neg ha

theorem address_all (rejCompAc : Bool) (d : Byte) (ds : List Byte) :
    address rejCompAc (PPP_ALLSTATIONS :: d :: ds) =
      if d = PPP_UI then some (PPP_ALLSTATIONS :: d :: ds) else none := by
  rw [address]
  exact if_pos rfl

theorem address_cases (rejCompAc : Bool) (us : List Byte) :
    (us = [] ∧ address rejCompAc us = some []) ∨
      (us = [PPP_ALLSTATIONS] ∧ address rejCompAc us = some [PPP_ALLSTATIONS]) ∨
      (us ≠ [] ∧ ∀ ds, address rejCompAc (us ++ ds) = none) ∨
      (us ≠ [] ∧ ∃ w, 2 ≤ w.length ∧ ∀ ds, address rejCompAc (us ++ ds) = some (w ++ ds)) := by
  rcases us with _ | ⟨a, us⟩
  · exact Or.inl ⟨rfl, rfl⟩
  · refine Or.inr ?_
    by_cases ha : a = PPP_ALLSTATIONS
    · subst ha
      rcases us with _ | ⟨d, us⟩
      · exact Or.inl ⟨rfl, rfl⟩
      · refine Or.inr ?_
        by_cases hd : d = PPP_UI
        · refine Or.inr ⟨cons_ne_nil _ _, PPP_ALLSTATIONS :: d :: us, by simp, fun ds => ?_⟩
          rw [cons_append, cons_append, address_all, if_pos hd]
        · refine Or.inl ⟨cons_ne_nil _ _, fun ds => ?_⟩
          rw [cons_append, cons_append, address_all, if_neg hd]
    · refine Or.inr ?_
      cases rejCompAc with
      | true =>
        refine Or.inl ⟨cons_ne_nil _ _, fun ds => ?_⟩
        rw [cons_append, address_ne ha]
        rfl
      | false =>
        refine Or.inr ⟨cons_ne_nil _ _, PPP_ALLSTATIONS :: PPP_UI :: a :: us, by simp, fun ds => ?_⟩
        rw [cons_append, address_ne ha]
        rfl

/-- **The header rules, octet by octet.** -/
theorem expand_concat (rejCompAc : Bool) (us : List Byte) (c : Byte) :
    expand rejCompAc (us ++ [c]) = (expand rejCompAc us).bind fun e => put rejCompAc e c := by
  unfold expand
  rcases address_cases rejCompAc us with ⟨rfl, h⟩ | ⟨rfl, h⟩ | ⟨-, h⟩ | ⟨-, w, hw, h⟩
  · rw [h, nil_append]
    show _ = put rejCompAc [] c
    by_cases hc : c = PPP_ALLSTATIONS
    · subst hc
      rfl
    · have hput : put rejCompAc [] c =
          if rejCompAc then none else putProtocol [PPP_ALLSTATIONS, PPP_UI] c := if_neg hc
      rw [address_ne hc, hput]
      cases rejCompAc with
      | true => rfl
      | false => exact protocol_concat [PPP_ALLSTATIONS, PPP_UI] c
  · rw [h, cons_append, nil_append, address_all]
    show _ = put rejCompAc [PPP_ALLSTATIONS] c
    by_cases hc : c = PPP_UI
    · subst hc
      rfl
    · have hput : put rejCompAc [PPP_ALLSTATIONS] c = none := by
        rw [put, if_neg (cons_ne_nil _ _), if_pos ⟨rfl, hc⟩]
      rw [hput, if_neg hc]
      rfl
  · have hnil := h []
    rw [append_nil] at hnil
    rw [hnil, h [c]]
    rfl
  · have hnil := h []
    rw [append_nil, append_nil] at hnil
    rw [hnil, h [c], Option.bind_some, Option.bind_some, protocol_concat]
    cases hp : protocol w with
    | none => rfl
    | some e =>
      have he := two_le_length_protocol hw hp
      have hne : e ≠ [] := by
        rintro rfl
        exact absurd he (by decide)
      rw [Option.bind_some, Option.bind_some, put, if_neg hne, if_neg fun h1 => by omega]

end Header

end RtemsLibbsd.Ppp
