import Mathlib.Algebra.Group.Nat.Defs
import Mathlib.Data.List.Basic

/-!
# The ARP processor

`rtemsbsd/rtems/rtems-bsd-arp-processor.c`: `rtems_bsd_arp_processor_process` walks over the records that a read
of a BPF device delivered, and `process_arp_packet` looks at the frame of a record and calls the processor.

Data are lists of bytes; a read behind the end of what was received is a fault.  `bpf_u_int32` has 32 bits
and `size_t` as many as `long`.

* `processArpPacket` — the processing of one frame, with the caller's checks of its length.
* `walk` — the loop over the records.
* `FrameInside` — a frame whose processing reads inside the data only.
* `Walks` — records from a position on that lead to the end of the data.
* `walk_returns_iff` — the loop returns without a fault exactly for these.
-/

namespace RtemsLibbsd.Arp

open Option

abbrev Bytes := List UInt8

/-! ## Reading -/

/-- What depends on the target: the sizes of `struct timeval`, of `struct bpf_hdr` and of `long`, and the
    order of the bytes. -/
structure Abi where
  tstamp : ℕ
  hdrSize : ℕ
  long : ℕ
  bigEndian : Bool
  long_eq : long = 4 ∨ long = 8
  hdrSize_ge : tstamp + 10 ≤ hdrSize
  hdrSize_le : hdrSize ≤ tstamp + 17
  hdrSize_le_min : hdrSize ≤ 32
  tstamp_le : tstamp ≤ 16

/-- The number of values of `size_t`. -/
def Abi.sizes (abi : Abi) : ℕ := 2 ^ (8 * abi.long)

/-- `BPF_WORDALIGN`: the mask takes the remainder by the size of `long` away. -/
def Abi.wordAlign (abi : Abi) (x : ℕ) : ℕ := (x + (abi.long - 1)) % abi.sizes / abi.long * abi.long

/-- `memcpy` out of the data, `none` where they do not reach. -/
def bytes (data : Bytes) (pos n : ℕ) : Option Bytes :=
  if pos + n ≤ data.length then some ((data.drop pos).take n) else none

/-- A word of the kernel in the order of the machine. -/
def number (bigEndian : Bool) (b : Bytes) : ℕ :=
  (if bigEndian then b.reverse else b).foldr (fun c n => c.toNat + 256 * n) 0

/-- Two octets in network order. -/
def half (b : Bytes) (i : ℕ) : ℕ := (b.getD i 0).toNat * 256 + (b.getD (i + 1) 0).toNat

/-- The fields of `struct bpf_hdr` that are used. -/
structure BpfHdr where
  caplen : ℕ
  datalen : ℕ
  hdrlen : ℕ

def Abi.bpfHdr (abi : Abi) (b : Bytes) : BpfHdr where
  caplen := number abi.bigEndian ((b.drop abi.tstamp).take 4)
  datalen := number abi.bigEndian ((b.drop (abi.tstamp + 4)).take 4)
  hdrlen := number abi.bigEndian ((b.drop (abi.tstamp + 8)).take 2)

/-! ## One frame -/

def etherHdrLen : ℕ := 14

def etherAddrLen : ℕ := 6

def ethertypeIp : ℕ := 0x0800

def arpopRequest : ℕ := 1

def arpopReply : ℕ := 2

/-- `sizeof(struct arphdr)`. -/
def arphdrSize : ℕ := 8

structure Context where
  fd : ℤ
  eaddr : Bytes
  eaddr_length : eaddr.length = etherAddrLen

/-- A call of the processor: the hardware addresses are pointers to as many bytes as the header says. -/
structure Call where
  arg : Option ℕ
  fd : ℤ
  eaddr : Bytes
  ar : Bytes
  spa : Bytes
  tpa : Bytes
  sha : Bytes
  tha : Bytes

/-- `ar_hln`. -/
def hln (ar : Bytes) : ℕ := (ar.getD 4 0).toNat

/-- The protocol is IP, its addresses have four bytes, and the operation is a request or a reply. -/
def Recognised (ar : Bytes) : Prop :=
  half ar 2 = ethertypeIp ∧ (ar.getD 5 0).toNat = 4 ∧ (half ar 6 = arpopReply ∨ half ar 6 = arpopRequest)

instance (ar : Bytes) : Decidable (Recognised ar) :=
  inferInstanceAs (Decidable (_ ∧ _ ∧ _))

def isOwn (ctx : Context) (data : Bytes) (sha hln : ℕ) : Option Bool :=
  if hln = etherAddrLen then (bytes data sha etherAddrLen).map fun b => decide (b = ctx.eaddr)
  else some false

/-- `process_arp_packet` of the packet at `pkt`; the result are the calls. -/
def processArpPacket (ctx : Context) (data : Bytes) (pkt pktSize : ℕ) (arg : Option ℕ) :
    Option (List Call) :=
  if pktSize < arphdrSize then some []
  else
    (bytes data pkt arphdrSize).bind fun ar =>
      let sha := pkt + arphdrSize
      let tha := sha + hln ar + 4
      if ¬ Recognised ar then some []
      else if tha + hln ar + 4 - pkt > pktSize then some []
      else
        (isOwn ctx data sha (hln ar)).bind fun own =>
          if own then some []
          else
            (bytes data (sha + hln ar) 4).bind fun spa =>
              (bytes data (tha + hln ar) 4).map fun tpa =>
                [⟨arg, ctx.fd, ctx.eaddr, ar, spa, tpa, (data.drop sha).take (hln ar),
                  (data.drop tha).take (hln ar)⟩]

/-! ## The loop -/

/-- What a call comes to: its result with the calls of the processor, or a read behind the data. -/
inductive Outcome where
  | returned (result : ℤ) (calls : List Call)
  | fault

/-- A record is complete and lies in the data, as the loop sees it. -/
def Accepted (abi : Abi) (data : Bytes) (pos : ℕ) (bp : BpfHdr) : Prop :=
  bp.caplen = bp.datalen ∧ (pos + bp.caplen + bp.hdrlen) % abi.sizes ≤ data.length

instance (abi : Abi) (data : Bytes) (pos : ℕ) (bp : BpfHdr) : Decidable (Accepted abi data pos bp) :=
  inferInstanceAs (Decidable (_ ∧ _))

/-- `pos` behind the record: `BPF_WORDALIGN(hdrlen + caplen)` octets further. -/
def Abi.next (abi : Abi) (pos : ℕ) (bp : BpfHdr) : ℕ :=
  (pos + abi.wordAlign ((bp.hdrlen + bp.caplen) % 2 ^ 32)) % abi.sizes

/-- `payload_size`, a difference of 32 bits. -/
def BpfHdr.payloadSize (bp : BpfHdr) : ℕ := (bp.caplen + 2 ^ 32 - etherHdrLen) % 2 ^ 32

/-- The calls for the record at `pos`: the processor gets a null pointer for its argument. -/
def recordCalls (abi : Abi) (ctx : Context) (data : Bytes) (pos : ℕ) (bp : BpfHdr) : Option (List Call) :=
  if Accepted abi data pos bp then
    processArpPacket ctx data (pos + bp.hdrlen + etherHdrLen) bp.payloadSize none
  else some []

/-- The loop from `pos` on, for at most `fuel` records. -/
def walk (abi : Abi) (ctx : Context) (data : Bytes) : ℕ → ℕ → List Call → Option Outcome
  | 0, _, _ => none
  | fuel + 1, pos, calls =>
    if pos < data.length then
      match bytes data pos abi.hdrSize with
      | none => some .fault
      | some b =>
        match recordCalls abi ctx data pos (abi.bpfHdr b) with
        | none => some .fault
        | some new => walk abi ctx data fuel (abi.next pos (abi.bpfHdr b)) (calls ++ new)
    else some (.returned 0 calls)

/-- `rtems_bsd_arp_processor_process` with what `read` delivers; the argument of the caller is not used. -/
def process (abi : Abi) (ctx : Context) (_arg : Option ℕ) (received : Option Bytes) (fuel : ℕ) :
    Option Outcome :=
  match received with
  | none => some (.returned (-1) [])
  | some data => walk abi ctx data fuel 0 []

/-! ## Reads inside of the data -/

def headerAt (data : Bytes) (pkt : ℕ) : Bytes := (data.drop pkt).take arphdrSize

/-- The sender of the packet has the address of the interface. -/
def OwnAt (ctx : Context) (data : Bytes) (pkt : ℕ) : Prop :=
  hln (headerAt data pkt) = etherAddrLen ∧ (data.drop (pkt + arphdrSize)).take etherAddrLen = ctx.eaddr

instance (ctx : Context) (data : Bytes) (pkt : ℕ) : Decidable (OwnAt ctx data pkt) :=
  inferInstanceAs (Decidable (_ ∧ _))

/-- The packet has room for its header and for the addresses of the lengths in it. -/
def HasRoom (data : Bytes) (pkt pktSize : ℕ) : Prop :=
  arphdrSize + 2 * (hln (headerAt data pkt) + 4) ≤ pktSize

/-- The bytes that are read of a packet lie in the data: the header if there is room for it, and the addresses
    of a packet that is recognised, has room for them, and is not sent by the own address. -/
structure FrameInside (ctx : Context) (data : Bytes) (pkt pktSize : ℕ) : Prop where
  header : arphdrSize ≤ pktSize → pkt + arphdrSize ≤ data.length
  addresses : arphdrSize ≤ pktSize → Recognised (headerAt data pkt) → HasRoom data pkt pktSize →
    ¬ OwnAt ctx data pkt → pkt + arphdrSize + 2 * (hln (headerAt data pkt) + 4) ≤ data.length

section

variable {ctx : Context} {data : Bytes} {pkt pktSize pos n : ℕ} {arg : Option ℕ}

theorem bytes_of_le (h : pos + n ≤ data.length) : bytes data pos n = some ((data.drop pos).take n) :=
  if_pos h

theorem bytes_of_gt (h : ¬ pos + n ≤ data.length) : bytes data pos n = none := if_neg h

theorem OwnAt.inside (h : OwnAt ctx data pkt) : pkt + arphdrSize + etherAddrLen ≤ data.length := by
  have hlength := congrArg List.length h.2
  grind [ctx.eaddr_length, etherAddrLen]

theorem isOwn_of_inside (h : hln (headerAt data pkt) = etherAddrLen →
    pkt + arphdrSize + etherAddrLen ≤ data.length) :
    isOwn ctx data (pkt + arphdrSize) (hln (headerAt data pkt)) = some (decide (OwnAt ctx data pkt)) := by
  unfold isOwn OwnAt
  by_cases hlen : hln (headerAt data pkt) = etherAddrLen
  · rw [if_pos hlen, bytes_of_le (h hlen)]
    simp [hlen]
  · simp [hlen]

theorem isOwn_of_outside (hlen : hln (headerAt data pkt) = etherAddrLen)
    (h : ¬ pkt + arphdrSize + etherAddrLen ≤ data.length) :
    isOwn ctx data (pkt + arphdrSize) (hln (headerAt data pkt)) = none := by
  rw [isOwn, if_pos hlen, bytes_of_gt h]
  rfl

def callAt (ctx : Context) (arg : Option ℕ) (data : Bytes) (pkt : ℕ) : Call where
  arg := arg
  fd := ctx.fd
  eaddr := ctx.eaddr
  ar := headerAt data pkt
  spa := (data.drop (pkt + arphdrSize + hln (headerAt data pkt))).take 4
  tpa := (data.drop (pkt + arphdrSize + hln (headerAt data pkt) + 4 + hln (headerAt data pkt))).take 4
  sha := (data.drop (pkt + arphdrSize)).take (hln (headerAt data pkt))
  tha := (data.drop (pkt + arphdrSize + hln (headerAt data pkt) + 4)).take (hln (headerAt data pkt))

structure Qualifies (ctx : Context) (data : Bytes) (pkt pktSize : ℕ) : Prop where
  header : arphdrSize ≤ pktSize
  recognised : Recognised (headerAt data pkt)
  room : HasRoom data pkt pktSize
  foreign : ¬ OwnAt ctx data pkt

instance (data : Bytes) (pkt pktSize : ℕ) : Decidable (HasRoom data pkt pktSize) :=
  inferInstanceAs (Decidable (_ ≤ _))

instance (ctx : Context) (data : Bytes) (pkt pktSize : ℕ) : Decidable (Qualifies ctx data pkt pktSize) :=
  decidable_of_iff (arphdrSize ≤ pktSize ∧ Recognised (headerAt data pkt) ∧ HasRoom data pkt pktSize ∧
    ¬ OwnAt ctx data pkt) ⟨fun h => ⟨h.1, h.2.1, h.2.2.1, h.2.2.2⟩, fun h => ⟨h.1, h.2, h.3, h.4⟩⟩

theorem processArpPacket_ignored (h : arphdrSize ≤ pktSize → pkt + arphdrSize ≤ data.length)
    (hno : ¬ (arphdrSize ≤ pktSize ∧ Recognised (headerAt data pkt) ∧ HasRoom data pkt pktSize)) :
    processArpPacket ctx data pkt pktSize arg = some [] := by
  unfold processArpPacket
  by_cases hsize : pktSize < arphdrSize
  · rw [if_pos hsize]
  rw [if_neg hsize, bytes_of_le (h (by omega)), bind_some]
  by_cases hrec : Recognised (headerAt data pkt)
  · have hroom : pkt + arphdrSize + hln (headerAt data pkt) + 4 + hln (headerAt data pkt) + 4 - pkt > pktSize := by
      grind [HasRoom]
    exact (if_neg (not_not.2 hrec)).trans (if_pos hroom)
  · exact if_pos hrec

theorem processArpPacket_recognised (hsize : arphdrSize ≤ pktSize) (h : pkt + arphdrSize ≤ data.length)
    (hrec : Recognised (headerAt data pkt)) (hroom : HasRoom data pkt pktSize) :
    processArpPacket ctx data pkt pktSize arg =
      (isOwn ctx data (pkt + arphdrSize) (hln (headerAt data pkt))).bind fun own =>
        if own then some []
        else
          (bytes data (pkt + arphdrSize + hln (headerAt data pkt)) 4).bind fun spa =>
            (bytes data (pkt + arphdrSize + hln (headerAt data pkt) + 4 + hln (headerAt data pkt)) 4).map
              fun tpa => [{ callAt ctx arg data pkt with spa := spa, tpa := tpa }] := by
  unfold processArpPacket
  have hshort : ¬ pkt + arphdrSize + hln (headerAt data pkt) + 4 + hln (headerAt data pkt) + 4 - pkt > pktSize := by
    unfold HasRoom at hroom
    omega
  rw [if_neg (by omega), bytes_of_le h, bind_some]
  exact (if_neg (not_not.2 hrec)).trans (if_neg hshort)

theorem processArpPacket_inside (h : FrameInside ctx data pkt pktSize) :
    (Qualifies ctx data pkt pktSize →
        processArpPacket ctx data pkt pktSize arg = some [callAt ctx arg data pkt]) ∧
      (¬ Qualifies ctx data pkt pktSize → processArpPacket ctx data pkt pktSize arg = some []) := by
  constructor
  · intro hq
    have hend := h.addresses hq.header hq.recognised hq.room hq.foreign
    have hfour : hln (headerAt data pkt) = etherAddrLen → pkt + arphdrSize + etherAddrLen ≤ data.length := by
      intro hlen
      omega
    rw [processArpPacket_recognised hq.header (h.header hq.header) hq.recognised hq.room,
      isOwn_of_inside hfour, bind_some, decide_eq_false hq.foreign, if_neg Bool.false_ne_true,
      bytes_of_le (by omega), bind_some, bytes_of_le (by omega)]
    rfl
  · intro hno
    by_cases hrec : arphdrSize ≤ pktSize ∧ Recognised (headerAt data pkt) ∧ HasRoom data pkt pktSize
    · obtain ⟨hsize, hrec, hroom⟩ := hrec
      have hown : OwnAt ctx data pkt := by
        by_contra hforeign
        exact hno ⟨hsize, hrec, hroom, hforeign⟩
      rw [processArpPacket_recognised hsize (h.header hsize) hrec hroom,
        isOwn_of_inside (fun _ => hown.inside), bind_some, decide_eq_true hown, if_pos rfl]
    · exact processArpPacket_ignored h.header hrec

/-- **The processing reads inside of the data exactly for these packets.** -/
theorem processArpPacket_isSome_iff :
    (∃ calls, processArpPacket ctx data pkt pktSize arg = some calls) ↔ FrameInside ctx data pkt pktSize := by
  constructor
  · rintro ⟨calls, hsome⟩
    have hheader : arphdrSize ≤ pktSize → pkt + arphdrSize ≤ data.length := by
      intro hsize
      by_contra hout
      rw [processArpPacket, if_neg (by omega), bytes_of_gt hout] at hsome
      cases hsome
    refine ⟨hheader, ?_⟩
    intro hsize hrec hroom hforeign
    rw [processArpPacket_recognised hsize (hheader hsize) hrec hroom] at hsome
    by_contra hout
    by_cases hread : hln (headerAt data pkt) = etherAddrLen → pkt + arphdrSize + etherAddrLen ≤ data.length
    · have hbehind : ¬ pkt + arphdrSize + hln (headerAt data pkt) + 4 + hln (headerAt data pkt) + 4 ≤
          data.length := by omega
      rw [isOwn_of_inside hread, bind_some, decide_eq_false hforeign, if_neg Bool.false_ne_true,
        bytes_of_gt hbehind] at hsome
      obtain ⟨_, _, hnone⟩ := bind_eq_some_iff.1 hsome
      cases hnone
    · obtain ⟨hlen, hno⟩ := Classical.not_imp.1 hread
      rw [isOwn_of_outside hlen hno] at hsome
      cases hsome
  · intro h
    by_cases hq : Qualifies ctx data pkt pktSize
    · exact ⟨_, (processArpPacket_inside h).1 hq⟩
    · exact ⟨_, (processArpPacket_inside h).2 hq⟩

theorem frameInside_of_le (h : pkt + pktSize ≤ data.length) : FrameInside ctx data pkt pktSize := by
  constructor
  · intro hsize
    omega
  · intro _ _ hroom _
    unfold HasRoom at hroom
    omega

end

/-! ## Reads of the loop -/

def Abi.recordAt (abi : Abi) (data : Bytes) (pos : ℕ) : BpfHdr := abi.bpfHdr ((data.drop pos).take abi.hdrSize)

def BpfHdr.payload (bp : BpfHdr) (pos : ℕ) : ℕ := pos + bp.hdrlen + etherHdrLen

/-- The records from a position on lead to the end of the data.  Each of them has its header in the data,
    and the packet of one that is accepted is read inside of the data. -/
inductive Walks (abi : Abi) (ctx : Context) (data : Bytes) : ℕ → Prop where
  | behind {pos : ℕ} (h : data.length ≤ pos) : Walks abi ctx data pos
  | record {pos : ℕ} (hpos : pos < data.length) (header : pos + abi.hdrSize ≤ data.length)
      (frame : Accepted abi data pos (abi.recordAt data pos) →
        FrameInside ctx data ((abi.recordAt data pos).payload pos) (abi.recordAt data pos).payloadSize)
      (next : Walks abi ctx data (abi.next pos (abi.recordAt data pos))) : Walks abi ctx data pos

section

variable {abi : Abi} {ctx : Context} {data : Bytes} {pos fuel : ℕ} {calls : List Call}

theorem recordCalls_isSome_iff {bp : BpfHdr} :
    (∃ new, recordCalls abi ctx data pos bp = some new) ↔
      (Accepted abi data pos bp → FrameInside ctx data (bp.payload pos) bp.payloadSize) := by
  unfold recordCalls
  by_cases h : Accepted abi data pos bp
  · rw [if_pos h]
    simp only [h, true_imp_iff]
    exact processArpPacket_isSome_iff
  · rw [if_neg h]
    exact iff_of_true ⟨[], rfl⟩ fun ha => absurd ha h

theorem walk_behind (h : data.length ≤ pos) :
    walk abi ctx data (fuel + 1) pos calls = some (.returned 0 calls) := by
  rw [walk, if_neg (by omega)]

theorem walk_record {new : List Call} (hpos : pos < data.length) (header : pos + abi.hdrSize ≤ data.length)
    (hnew : recordCalls abi ctx data pos (abi.recordAt data pos) = some new) :
    walk abi ctx data (fuel + 1) pos calls =
      walk abi ctx data fuel (abi.next pos (abi.recordAt data pos)) (calls ++ new) := by
  rw [walk, if_pos hpos, bytes_of_le header]
  simp only [Abi.recordAt] at hnew
  simp only [hnew, Abi.recordAt]

/-- **The loop returns without a fault exactly when the records lead to the end of the data.** -/
theorem walk_returns_iff :
    (∃ fuel all, walk abi ctx data fuel pos calls = some (.returned 0 all)) ↔ Walks abi ctx data pos := by
  constructor
  · rintro ⟨fuel, all, h⟩
    induction fuel generalizing pos calls with
    | zero => cases h
    | succ fuel ih =>
      by_cases hpos : pos < data.length
      · rw [walk, if_pos hpos] at h
        by_cases header : pos + abi.hdrSize ≤ data.length
        · rw [bytes_of_le header] at h
          cases hnew : recordCalls abi ctx data pos (abi.recordAt data pos) with
          | none =>
            simp only [Abi.recordAt] at hnew
            simp only [hnew] at h
            cases h
          | some new =>
            have frame := recordCalls_isSome_iff.1 ⟨new, hnew⟩
            simp only [Abi.recordAt] at hnew
            simp only [hnew] at h
            exact .record hpos header frame (ih h)
        · rw [bytes_of_gt header] at h
          cases h
      · exact .behind (by omega)
  · intro h
    induction h generalizing calls with
    | behind h => exact ⟨1, calls, walk_behind h⟩
    | record hpos header frame _ ih =>
      obtain ⟨new, hnew⟩ := recordCalls_isSome_iff.2 frame
      obtain ⟨fuel, all, hall⟩ := @ih (calls ++ new)
      exact ⟨fuel + 1, all, (walk_record hpos header hnew).trans hall⟩

theorem walk_mono {more : ℕ} {o : Outcome} (h : walk abi ctx data fuel pos calls = some o) (hle : fuel ≤ more) :
    walk abi ctx data more pos calls = some o := by
  induction fuel generalizing more pos calls with
  | zero => cases h
  | succ fuel ih =>
    obtain ⟨more, rfl⟩ : ∃ m, more = m + 1 := ⟨more - 1, by omega⟩
    rw [walk] at h ⊢
    grind

end

end RtemsLibbsd.Arp
