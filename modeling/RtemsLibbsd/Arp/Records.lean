import RtemsLibbsd.Arp.Processor
import RtemsLibbsd.Pieces

/-!
# The records of the ARP processor

What a BPF device stores for the filter of the ARP processor (`catchpacket` in `freebsd/sys/net/bpf.c`,
`bpf_filter` in `freebsd/sys/net/bpf_filter.c`), and what the processing makes of it.

* `arpBpfFilter`, `runFilter` — the filter program and its meaning.
* `Rec`, `store` — a record, and how the device appends it to what it has.
* `walk_device` — the loop calls the processor once for each complete record with a packet that qualifies.
* `process_ok_iff` — when that is what is expected, and when the loop returns.
-/

namespace RtemsLibbsd.Arp

open List

/-! ## The filter -/

inductive BpfInsn where
  | ldHAbs (k : ℕ)
  | jeqK (k jt jf : ℕ)
  | retK (k : ℕ)

/-- `bpf_filter` for these instructions, behind a jump over `skip` of them. -/
def runFilter (packet : Bytes) : List BpfInsn → ℕ → ℕ → ℕ
  | [], _, _ => 0
  | _ :: rest, skip + 1, a => runFilter packet rest skip a
  | .ldHAbs k :: rest, 0, _ => if k + 2 ≤ packet.length then runFilter packet rest 0 (half packet k) else 0
  | .jeqK k jt jf :: rest, 0, a => runFilter packet rest (if a = k then jt else jf) a
  | .retK k :: _, 0, _ => k

def ethertypeArp : ℕ := 0x0806

def bpfWholePacket : ℕ := 2 ^ 32 - 1

def arpBpfFilter : List BpfInsn :=
  [ .ldHAbs 12,
    .jeqK ethertypeArp 0 3,
    .ldHAbs 20,
    .jeqK arpopRequest 2 0,
    .ldHAbs 20,
    .jeqK arpopReply 0 1,
    .retK bpfWholePacket,
    .retK 0 ]

def FilterAccepts (packet : Bytes) : Prop := runFilter packet arpBpfFilter 0 0 ≠ 0

instance (packet : Bytes) : Decidable (FilterAccepts packet) := inferInstanceAs (Decidable (¬ _))

/-- The jump for a type that is not ARP ends at the comparison with a reply: the type 2 passes. -/
theorem filterAccepts_iff {packet : Bytes} :
    FilterAccepts packet ↔
      (14 ≤ packet.length ∧ half packet 12 = arpopReply) ∨
        (22 ≤ packet.length ∧ half packet 12 = ethertypeArp ∧
          (half packet 20 = arpopRequest ∨ half packet 20 = arpopReply)) := by
  unfold FilterAccepts arpBpfFilter
  simp only [runFilter, ethertypeArp, arpopReply, arpopRequest, bpfWholePacket]
  grind [runFilter]

theorem FilterAccepts.length_ge {packet : Bytes} (h : FilterAccepts packet) :
    etherHdrLen ≤ packet.length := by
  rcases filterAccepts_iff.1 h with ⟨hlen, _⟩ | ⟨hlen, _⟩
  · exact hlen
  · exact Nat.le_trans (by decide) hlen

/-! ## Numbers in a record -/

def lowBytes : ℕ → ℕ → Bytes
  | 0, _ => []
  | n + 1, v => UInt8.ofNat v :: lowBytes n (v / 256)

def digits (bigEndian : Bool) (n v : ℕ) : Bytes :=
  if bigEndian then (lowBytes n v).reverse else lowBytes n v

theorem length_lowBytes (n v : ℕ) : (lowBytes n v).length = n := by
  induction n generalizing v with
  | zero => rfl
  | succ n ih => simp [lowBytes, ih]

theorem length_digits (bigEndian : Bool) (n v : ℕ) : (digits bigEndian n v).length = n := by
  unfold digits
  split <;> simp [length_lowBytes]

theorem foldr_lowBytes (n v : ℕ) (h : v < 256 ^ n) :
    (lowBytes n v).foldr (fun c m => c.toNat + 256 * m) 0 = v := by
  induction n generalizing v with
  | zero =>
    have hzero : v = 0 := by simpa using h
    rw [hzero]
    rfl
  | succ n ih =>
    grind [lowBytes, UInt8.toNat_ofNat']

theorem number_digits (bigEndian : Bool) {n v : ℕ} (h : v < 256 ^ n) :
    number bigEndian (digits bigEndian n v) = v := by
  unfold number digits
  cases bigEndian
  · exact foldr_lowBytes n v h
  · simp only [if_true, reverse_reverse]
    exact foldr_lowBytes n v h

/-! ## Records -/

/-- `bpf_hdrlen` for Ethernet: the network layer begins at a multiple of the size of `long`. -/
def Abi.bpfHdrlen (abi : Abi) : ℕ := abi.wordAlign (etherHdrLen + (abi.tstamp + 10)) - etherHdrLen

/-- What the device stores for a packet that the filter asks for: `fill` are the bytes between the fields of
    the header and the packet. -/
structure Rec (abi : Abi) where
  tstamp : Bytes
  fill : Bytes
  packet : Bytes
  tstamp_length : tstamp.length = abi.tstamp
  fill_length : abi.tstamp + 10 + fill.length = abi.bpfHdrlen
  packet_lt : packet.length < 2 ^ 32
  accepted : FilterAccepts packet

/-- The buffer of the device in bytes, between `BPF_MINBUFSIZE` and `BPF_MAXBUFSIZE`. -/
structure BufSize where
  val : ℕ
  ge : 32 ≤ val
  le : val ≤ 0x80000

section

variable {abi : Abi}

/-- `bh_caplen`: the packet, as far as the buffer has room for it. -/
def Rec.caplen (size : BufSize) (r : Rec abi) : ℕ := min r.packet.length (size.val - abi.bpfHdrlen)

def Rec.Complete (size : BufSize) (r : Rec abi) : Prop := r.caplen size = r.packet.length

instance (size : BufSize) (r : Rec abi) : Decidable (r.Complete size) :=
  inferInstanceAs (Decidable (_ = _))

def Rec.bytes (size : BufSize) (r : Rec abi) : Bytes :=
  r.tstamp ++ (digits abi.bigEndian 4 (r.caplen size) ++ (digits abi.bigEndian 4 r.packet.length ++
    (digits abi.bigEndian 2 abi.bpfHdrlen ++ (r.fill ++ r.packet.take (r.caplen size)))))

/-- `catchpacket` with what is stored: zeros up to the next word, and the record. -/
def store (size : BufSize) (stored : Bytes) (r : Rec abi) : Bytes :=
  stored ++ (List.replicate (abi.wordAlign stored.length - stored.length) 0 ++ r.bytes size)

structure DeviceData (size : BufSize) (recs : List (Rec abi)) (data : Bytes) : Prop where
  stored : data = recs.foldl (store size) []
  le : data.length ≤ size.val

/-- The packet behind the header of Ethernet is one that the processor looks for. -/
def Rec.Qualifies (ctx : Context) (r : Rec abi) : Prop :=
  Arp.Qualifies ctx (r.packet.drop etherHdrLen) 0 (r.packet.length - etherHdrLen)

instance (ctx : Context) (r : Rec abi) : Decidable (r.Qualifies ctx) :=
  inferInstanceAs (Decidable (Arp.Qualifies _ _ _ _))

/-! ### Sizes -/

theorem Abi.sizes_ge (abi : Abi) : 2 ^ 32 ≤ abi.sizes := by
  have hlong := abi.long_eq
  exact Nat.pow_le_pow_right (by decide) (by omega)

theorem Abi.wordAlign_eq (abi : Abi) {x : ℕ} (h : x ≤ 2 ^ 20) :
    abi.wordAlign x = (x + (abi.long - 1)) / abi.long * abi.long := by
  have hsizes := abi.sizes_ge
  have hlong := abi.long_eq
  unfold Abi.wordAlign
  rw [Nat.mod_eq_of_lt (by omega)]

theorem Abi.le_wordAlign (abi : Abi) {x : ℕ} (h : x ≤ 2 ^ 20) : x ≤ abi.wordAlign x ∧ abi.wordAlign x ≤ x + 7 := by
  rw [abi.wordAlign_eq h]
  rcases abi.long_eq with hlong | hlong <;> rw [hlong] <;> omega

theorem Abi.wordAlign_add (abi : Abi) {x y : ℕ} (h : x + y + 8 ≤ 2 ^ 20) :
    abi.wordAlign (abi.wordAlign x + y) = abi.wordAlign x + abi.wordAlign y := by
  have hx := (abi.le_wordAlign (x := x) (by omega)).2
  rw [abi.wordAlign_eq (x := abi.wordAlign x + y) (by omega), abi.wordAlign_eq (x := y) (by omega),
    abi.wordAlign_eq (x := x) (by omega)]
  rcases abi.long_eq with hlong | hlong <;> rw [hlong] <;> omega

/-- The header of a record ends where the header of the packet begins, which is aligned at its end. -/
theorem Abi.bpfHdrlen_bounds (abi : Abi) : abi.tstamp + 10 ≤ abi.bpfHdrlen ∧ abi.bpfHdrlen ≤ 26 := by
  grind [abi.tstamp_le, Abi.bpfHdrlen, etherHdrLen, abi.wordAlign_eq, abi.long_eq]

theorem Rec.caplen_le (size : BufSize) (r : Rec abi) :
    r.caplen size ≤ r.packet.length ∧ abi.bpfHdrlen + r.caplen size ≤ size.val := by
  grind [size.ge, abi.bpfHdrlen_bounds, caplen]

theorem Rec.length_bytes (size : BufSize) (r : Rec abi) :
    (r.bytes size).length = abi.bpfHdrlen + r.caplen size := by
  have hcap := (r.caplen_le size).1
  have hfill := r.fill_length
  simp only [Rec.bytes, length_append, length_digits, r.tstamp_length, length_take]
  omega

/-! ### Reading a record -/

theorem take_drop_take {a b c l : Bytes} {h t n : ℕ} (hl : l = a ++ (b ++ c)) (ht : a.length = t)
    (hn : b.length = n) (hle : t + n ≤ h) : ((l.take h).drop t).take n = b := by
  rw [drop_take, take_take, Nat.min_eq_left (by omega), hl, ← ht, drop_left, ← hn, take_left]

theorem recordAt_eq {size : BufSize} {r : Rec abi} {data tail : Bytes} {pos : ℕ}
    (h : data.drop pos = r.bytes size ++ tail) :
    abi.recordAt data pos = ⟨r.caplen size, r.packet.length, abi.bpfHdrlen⟩ := by
  have hhdr := abi.hdrSize_ge
  have hcap : r.caplen size < 256 ^ 4 := Nat.lt_of_le_of_lt (r.caplen_le size).1 r.packet_lt
  have hlen : abi.bpfHdrlen < 256 ^ 2 := by
    have hbounds := abi.bpfHdrlen_bounds.2
    omega
  have hcaplen := @take_drop_take r.tstamp (digits abi.bigEndian 4 (r.caplen size)) _ _ abi.hdrSize
    abi.tstamp 4 (h.trans (by simp only [Rec.bytes, append_assoc]; rfl)) r.tstamp_length
    (length_digits _ _ _) (by omega)
  have hdatalen := @take_drop_take (r.tstamp ++ digits abi.bigEndian 4 (r.caplen size))
    (digits abi.bigEndian 4 r.packet.length) _ _ abi.hdrSize (abi.tstamp + 4) 4
    (h.trans (by simp only [Rec.bytes, append_assoc]; rfl))
    (by simp [r.tstamp_length, length_digits]) (length_digits _ _ _) (by omega)
  have hhdrlen := @take_drop_take
    (r.tstamp ++ (digits abi.bigEndian 4 (r.caplen size) ++ digits abi.bigEndian 4 r.packet.length))
    (digits abi.bigEndian 2 abi.bpfHdrlen) _ _ abi.hdrSize (abi.tstamp + 8) 2
    (h.trans (by simp only [Rec.bytes, append_assoc]; rfl))
    (by simp [r.tstamp_length, length_digits])
    (length_digits _ _ _) (by omega)
  grind [Abi.recordAt, Abi.bpfHdr, number_digits, r.packet_lt]

theorem packet_eq {size : BufSize} {r : Rec abi} {data tail : Bytes} {pos : ℕ}
    (h : data.drop pos = r.bytes size ++ tail) (hc : r.Complete size) :
    (data.drop (pos + abi.bpfHdrlen + etherHdrLen)).take (r.packet.length - etherHdrLen) =
      r.packet.drop etherHdrLen := by
  have hge := r.accepted.length_ge
  have hpacket : data.drop (pos + abi.bpfHdrlen) = r.packet ++ tail := by
    have htake : r.packet.take (r.caplen size) = r.packet := take_of_length_le (Nat.le_of_eq hc.symm)
    have hsplit : r.bytes size ++ tail =
        (r.tstamp ++ digits abi.bigEndian 4 (r.caplen size) ++ digits abi.bigEndian 4 r.packet.length ++
          digits abi.bigEndian 2 abi.bpfHdrlen ++ r.fill) ++ (r.packet ++ tail) := by
      simp [Rec.bytes, htake]
    have hfill := r.fill_length
    rw [← drop_drop, h, hsplit]
    apply drop_left'
    simp only [length_append, length_digits, r.tstamp_length]
    omega
  rw [← drop_drop, hpacket, drop_append_of_le_length hge,
    take_left' (by simp)]

/-! ### Packets at another place -/

variable {ctx : Context} {data packet : Bytes} {pkt : ℕ} {arg : Option ℕ}

theorem take_drop_packet {size i n : ℕ} (h : (data.drop pkt).take size = packet) (hle : i + n ≤ size) :
    (data.drop (pkt + i)).take n = (packet.drop i).take n := by
  rw [← h, drop_take, take_take, Nat.min_eq_left (by omega), drop_drop]

theorem headerAt_eq {size : ℕ} (h : (data.drop pkt).take size = packet) (hsize : arphdrSize ≤ size) :
    headerAt data pkt = headerAt packet 0 := by
  have heq := @take_drop_packet data packet pkt size 0 arphdrSize h (by omega)
  exact heq

theorem ownAt_iff {size : ℕ} (h : (data.drop pkt).take size = packet) (hroom : HasRoom data pkt size) :
    OwnAt ctx data pkt ↔ OwnAt ctx packet 0 := by
  have hle := hroom
  unfold HasRoom at hle
  unfold OwnAt
  rw [headerAt_eq h (by omega)]
  apply and_congr_right
  intro hlen
  rw [← headerAt_eq h (by omega)] at hlen
  rw [take_drop_packet h (by omega), Nat.zero_add]

theorem qualifies_iff {size : ℕ} (h : (data.drop pkt).take size = packet) :
    Qualifies ctx data pkt size ↔ Qualifies ctx packet 0 size := by
  constructor
  · intro hq
    have heq := headerAt_eq h hq.header
    have hroom : HasRoom packet 0 size := by simpa only [HasRoom, heq] using hq.room
    exact ⟨hq.header, heq ▸ hq.recognised, hroom, fun hown => hq.foreign ((ownAt_iff h hq.room).2 hown)⟩
  · intro hq
    have heq := headerAt_eq h hq.header
    have hroom : HasRoom data pkt size := by simpa only [HasRoom, heq] using hq.room
    exact ⟨hq.header, heq ▸ hq.recognised, hroom, fun hown => hq.foreign ((ownAt_iff h hroom).1 hown)⟩

theorem callAt_eq {size : ℕ} (h : (data.drop pkt).take size = packet) (hroom : HasRoom data pkt size) :
    callAt ctx arg data pkt = callAt ctx arg packet 0 := by
  have hle := hroom
  unfold HasRoom at hle
  have heq := headerAt_eq h (by omega)
  rw [heq] at hle
  unfold callAt
  simp only [heq, Nat.add_assoc, Nat.zero_add]
  rw [take_drop_packet h (by omega), take_drop_packet h (by omega), take_drop_packet h (by omega),
    take_drop_packet h (by omega)]

/-! ### The loop on the data of the device -/

/-- What the loop does for a record: a complete packet that qualifies gives a call with a null pointer. -/
def Rec.observed (ctx : Context) (size : BufSize) (r : Rec abi) : List Call :=
  if r.Complete size ∧ r.Qualifies ctx then [callAt ctx none (r.packet.drop etherHdrLen) 0] else []

theorem recordCalls_device {size : BufSize} {r : Rec abi} {data tail : Bytes} {pos : ℕ}
    (h : data.drop pos = r.bytes size ++ tail) (hmax : data.length ≤ size.val) (hpos : pos ≤ data.length) :
    recordCalls abi ctx data pos (abi.recordAt data pos) = some (r.observed ctx size) := by
  have hsum := congrArg List.length h
  rw [length_drop, length_append, r.length_bytes] at hsum
  have hsizes := abi.sizes_ge
  have hbuf := size.le
  have hwhole : (pos + r.caplen size + abi.bpfHdrlen) % abi.sizes ≤ data.length := by
    rw [Nat.mod_eq_of_lt (by omega)]
    omega
  rw [recordAt_eq h]
  unfold recordCalls Rec.observed
  by_cases hc : r.Complete size
  · have hge := r.accepted.length_ge
    have heq : r.caplen size = r.packet.length := hc
    have hpayload : BpfHdr.payloadSize ⟨r.caplen size, r.packet.length, abi.bpfHdrlen⟩ =
        r.packet.length - etherHdrLen := by
      simp only [BpfHdr.payloadSize, heq, etherHdrLen] at *
      omega
    have hpacket := packet_eq h hc
    have hinside := @processArpPacket_inside ctx data (pos + abi.bpfHdrlen + etherHdrLen)
      (r.packet.length - etherHdrLen) none (frameInside_of_le (by omega))
    rw [if_pos ⟨hc, hwhole⟩, hpayload]
    by_cases hq : r.Qualifies ctx
    · have hat := (qualifies_iff hpacket).2 hq
      rw [if_pos ⟨hc, hq⟩, hinside.1 hat, callAt_eq hpacket hat.room]
    · rw [if_neg (fun hboth => hq hboth.2), hinside.2 (fun hat => hq ((qualifies_iff hpacket).1 hat))]
  · rw [if_neg (fun hboth => hc hboth.1), if_neg (fun hboth => hc hboth.1)]

theorem foldl_store (size : BufSize) (recs : List (Rec abi)) (stored : Bytes) :
    ∃ tail, recs.foldl (store size) stored = stored ++ tail := by
  induction recs generalizing stored with
  | nil => exact ⟨[], (append_nil _).symm⟩
  | cons r recs ih =>
    obtain ⟨tail, htail⟩ := ih (store size stored r)
    exact ⟨_, (htail.trans (by rw [store, append_assoc]))⟩

theorem length_store (size : BufSize) (stored : Bytes) (r : Rec abi) (h : stored.length ≤ 2 ^ 20) :
    (store size stored r).length = abi.wordAlign stored.length + (abi.bpfHdrlen + r.caplen size) := by
  have halign := (abi.le_wordAlign h).1
  rw [store, length_append, length_append, length_replicate, r.length_bytes]
  omega

theorem Rec.hdrSize_le (size : BufSize) (r : Rec abi) : abi.hdrSize ≤ abi.bpfHdrlen + r.caplen size := by
  have hbounds := abi.bpfHdrlen_bounds
  have hle := abi.hdrSize_le
  have hmin := abi.hdrSize_le_min
  have hge := r.accepted.length_ge
  have hbuf := size.ge
  grind [Rec.caplen, etherHdrLen]

/-- **On the data of the device the loop makes the calls of the records, in their order, and returns.** -/
theorem walk_device (size : BufSize) (recs : List (Rec abi)) (stored : Bytes) (calls : List Call)
    (hmax : (recs.foldl (store size) stored).length ≤ size.val) :
    ∃ fuel, walk abi ctx (recs.foldl (store size) stored) fuel (abi.wordAlign stored.length) calls =
      some (.returned 0 (calls ++ recs.flatMap (Rec.observed ctx size))) := by
  have hbuf := size.le
  induction recs generalizing stored calls with
  | nil =>
    have halign := (abi.le_wordAlign (x := stored.length) (by simp at hmax; omega)).1
    refine ⟨1, ?_⟩
    simp [walk_behind halign]
  | cons r recs ih =>
    obtain ⟨tail, htail⟩ := foldl_store size recs (store size stored r)
    rw [foldl_cons] at hmax ⊢
    obtain ⟨fuel, hfuel⟩ := ih (store size stored r) (calls ++ r.observed ctx size) hmax
    have hall : (store size stored r).length ≤ size.val := by
      rw [htail, length_append] at hmax
      omega
    have hstored : stored.length ≤ size.val := by
      rw [store, length_append] at hall
      omega
    have hlen := length_store size stored r (by omega)
    have halign := (abi.le_wordAlign (x := stored.length) (by omega)).1
    have hat : (recs.foldl (store size) (store size stored r)).drop (abi.wordAlign stored.length) =
        r.bytes size ++ tail := by
      grind [store, drop_left']
    have hcap := r.hdrSize_le size
    have hhdr := abi.bpfHdrlen_bounds.1
    have hreach : (store size stored r).length ≤ (recs.foldl (store size) (store size stored r)).length := by
      rw [htail, length_append]
      omega
    have hnext : abi.next (abi.wordAlign stored.length)
        (abi.recordAt (recs.foldl (store size) (store size stored r)) (abi.wordAlign stored.length)) =
        abi.wordAlign (store size stored r).length := by
      have hsizes := abi.sizes_ge
      have hlast := (abi.le_wordAlign (x := (store size stored r).length) (by omega)).2
      have hadd := abi.wordAlign_add (x := stored.length) (y := abi.bpfHdrlen + r.caplen size)
        (by omega)
      rw [recordAt_eq hat]
      unfold Abi.next
      rw [Nat.mod_eq_of_lt (a := abi.bpfHdrlen + r.caplen size) (by omega), ← hadd, ← hlen,
        Nat.mod_eq_of_lt (by omega)]
    refine ⟨fuel + 1, ?_⟩
    rw [walk_record (by omega) (by omega) (recordCalls_device hat hmax (by omega)), hnext, hfuel,
      flatMap_cons, append_assoc]

theorem Abi.wordAlign_zero (abi : Abi) : abi.wordAlign 0 = 0 := by
  rw [abi.wordAlign_eq (by omega)]
  rcases abi.long_eq with hlong | hlong <;> rw [hlong]

theorem process_device {size : BufSize} {recs : List (Rec abi)} (h : DeviceData size recs data) :
    ∃ fuel, process abi ctx arg (some data) fuel = some (.returned 0 (recs.flatMap (Rec.observed ctx size))) := by
  obtain ⟨rfl, hmax⟩ := h
  obtain ⟨fuel, hfuel⟩ := @walk_device abi ctx size recs [] [] hmax
  rw [length_nil, abi.wordAlign_zero, nil_append] at hfuel
  exact ⟨fuel, hfuel⟩

theorem process_unique {m n : ℕ} {o p : Outcome} (hm : process abi ctx arg (some data) m = some o)
    (hn : process abi ctx arg (some data) n = some p) : o = p := by
  have hleft := walk_mono hm (Nat.le_max_left m n)
  have hright := walk_mono hn (Nat.le_max_right m n)
  exact Option.some.inj (hleft.symm.trans hright)

/-! ## What is expected -/

/-- A complete record of an ARP packet that qualifies gives one call, with the argument of the caller. -/
def Rec.expected (ctx : Context) (arg : Option ℕ) (size : BufSize) (r : Rec abi) : List Call :=
  if r.Complete size ∧ half r.packet 12 = ethertypeArp ∧ r.Qualifies ctx then
    [callAt ctx arg (r.packet.drop etherHdrLen) 0]
  else []

end

/-- The loop returns and reads inside of the data; on the data of the device it makes the expected calls. -/
def ProcessOk (abi : Abi) (ctx : Context) (arg : Option ℕ) (data : Bytes) : Prop :=
  (∃ fuel calls, process abi ctx arg (some data) fuel = some (.returned 0 calls)) ∧
    ∀ (size : BufSize) (recs : List (Rec abi)), DeviceData size recs data →
      ∀ fuel o, process abi ctx arg (some data) fuel = some o →
        o = .returned 0 (recs.flatMap (Rec.expected ctx arg size))

section

variable {abi : Abi} {ctx : Context} {arg : Option ℕ} {size : BufSize}

theorem Rec.expected_length_le (r : Rec abi) :
    (r.expected ctx arg size).length ≤ (r.observed ctx size).length := by
  unfold Rec.expected Rec.observed
  split
  · rename_i h
    rw [if_pos ⟨h.1, h.2.2⟩]
    exact Nat.le_refl _
  · exact Nat.zero_le _

theorem Rec.observed_eq_expected_iff (r : Rec abi) :
    r.observed ctx size = r.expected ctx arg size ↔
      (r.Complete size → r.Qualifies ctx → half r.packet 12 = ethertypeArp ∧ arg = none) := by
  unfold Rec.expected Rec.observed
  by_cases hc : r.Complete size
  · by_cases hq : r.Qualifies ctx
    · by_cases harp : half r.packet 12 = ethertypeArp
      · simp [hc, hq, harp, callAt, eq_comm]
      · simp [hc, hq, harp]
    · simp [hq]
  · simp [hc]

/-- **The processing is as expected exactly when the records lead to the end of the data and, in what the device
    delivers, no complete packet that qualifies is of another type than ARP or comes with an argument.** -/
theorem process_ok_iff (abi : Abi) (ctx : Context) (arg : Option ℕ) (data : Bytes) :
    ProcessOk abi ctx arg data ↔
      Walks abi ctx data 0 ∧
        ∀ (size : BufSize) (recs : List (Rec abi)), DeviceData size recs data →
          ∀ r ∈ recs, r.Complete size → r.Qualifies ctx → half r.packet 12 = ethertypeArp ∧ arg = none := by
  apply and_congr walk_returns_iff
  apply forall_congr'
  intro size
  apply forall_congr'
  intro recs
  apply imp_congr_right
  intro hdata
  obtain ⟨fuel, hfuel⟩ := @process_device abi ctx data arg size recs hdata
  have hsame : (∀ fuel o, process abi ctx arg (some data) fuel = some o →
      o = .returned 0 (recs.flatMap (Rec.expected ctx arg size))) ↔
      recs.flatMap (Rec.observed ctx size) = recs.flatMap (Rec.expected ctx arg size) := by
    grind [process_unique]
  rw [hsame, Pieces.flatMap_eq_iff fun r => r.expected_length_le]
  apply forall_congr'
  intro r
  apply imp_congr_right
  intro _
  exact r.observed_eq_expected_iff

end

/-! ## A request -/

def target : Abi where
  tstamp := 16
  hdrSize := 32
  long := 4
  bigEndian := false
  long_eq := .inl rfl
  hdrSize_ge := by decide
  hdrSize_le := by decide
  hdrSize_le_min := by decide
  tstamp_le := by decide

def station : Context where
  fd := 5
  eaddr := [2, 0, 0, 0, 0, 1]
  eaddr_length := rfl

def requestPacket : Bytes :=
  [255, 255, 255, 255, 255, 255, 2, 0, 0, 0, 0, 2, 8, 6, 0, 1, 8, 0, 6, 4, 0, 1, 2, 0, 0, 0, 0, 2, 10, 0, 0, 2,
    0, 0, 0, 0, 0, 0, 10, 0, 0, 1]

def request : Rec target where
  tstamp := List.replicate 16 0
  fill := []
  packet := requestPacket
  tstamp_length := rfl
  fill_length := by decide
  packet_lt := by decide
  accepted := by decide

def bufSize : BufSize where
  val := 4096
  ge := by decide
  le := by decide

/-- The processor is called for the request, but not with the argument of the caller. -/
theorem request_loses_argument : ¬ ProcessOk target station (some 1) (store bufSize [] request) := by
  intro h
  have hdata : DeviceData bufSize [request] (store bufSize [] request) := ⟨rfl, by decide⟩
  obtain ⟨fuel, hfuel⟩ := @process_device target station _ (some 1) bufSize [request] hdata
  have hcalls := (Outcome.returned.inj (h.2 bufSize [request] hdata fuel _ hfuel)).2
  have hargs := congrArg (List.map Call.arg) hcalls
  revert hargs
  decide

end RtemsLibbsd.Arp
