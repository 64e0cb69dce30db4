import RtemsLibbsd.Masks
import RtemsLibbsd.Transition
import RtemsLibbsd.WriteBackCache
import Mathlib.Tactic.IntervalCases

/-!
# Data commands of the STM32 SDMMC driver

`rtemsbsd/sys/dev/mmc/st-sdmmc.c`: `st_sdmmc_cmd_do` starts a command and waits for its end.  The device moves
the data itself, past the data cache of the processor.  A buffer that does not consist of whole cache lines is
replaced by the bounce buffer of the driver, which has 512 bytes, and its contents are copied.

* `Bits` — what the driver uses of the register layout, which comes from the vendor's header.
* `Platform` — the cache, the memory that the device reaches and the bounce buffer that `st_sdmmc_attach` allocates.
* `Fault` — the assertions on the way of a command, and a shift that has no defined result.
* `dataSetup`, `waitIrq`, `cmdDo` — the parts of the function, and the function.
* `Reply` — what the device does: the end of the wait and the bytes it delivers.
* `TransferOk` — what is expected of a data command.

`dataSetup_eq_ok_iff` says which data commands pass the assertions.  With the rules of the library
`WriteBackCache` for the two directions of a transfer, `transferOk_of_passes` shows that these do what is expected;
`cmdDo_ok_iff` says which of the accepted transfers they are.  `run_coherent` shows that the memory stays coherent
in every run of commands and accesses of the processor.
-/

namespace RtemsLibbsd.Sdmmc

open RtemsLibbsd.WriteBackCache

/-! ## The driver -/

abbrev MMC_RSP_PRESENT : UInt32 := 1
abbrev MMC_RSP_136 : UInt32 := 2
abbrev MMC_RSP_CRC : UInt32 := 4
abbrev MMC_RSP_BUSY : UInt32 := 8
abbrev MMC_CMD_ADTC : UInt32 := 0x20
abbrev MMC_CMD_MASK : UInt32 := 0x60
abbrev MMC_DATA_READ : UInt32 := 2
abbrev MMC_STOP_TRANSMISSION : UInt32 := 12
abbrev MMC_SECTOR_SIZE : UInt32 := 512
abbrev MMC_ERR_TIMEOUT : UInt32 := 1
abbrev MMC_ERR_FAILED : UInt32 := 4

/-- "Maximum non-aligned buffer is 512 byte from mmc_send_ext_csd()" -/
abbrev DMA_BUF_SIZE : UInt32 := 512

/-- The bits of `CMD`, `MASK`, `STA` and `DCTRL`.  The size of a block does not reach the direction. -/
structure Bits where
  cmdIndex : UInt32
  cpsmen : UInt32
  waitresp0 : UInt32
  waitresp1 : UInt32
  cmdstop : UInt32
  cmdtrans : UInt32
  ctimeoutie : UInt32
  ccrcfailie : UInt32
  dtimeoutie : UInt32
  dcrcfailie : UInt32
  ackfailie : UInt32
  rxoverrie : UInt32
  txunderrie : UInt32
  dabortie : UInt32
  acktimeoutie : UInt32
  idmabtcie : UInt32
  dataendie : UInt32
  cmdsentie : UInt32
  cmdrendie : UInt32
  busyd0endie : UInt32
  staDtimeout : UInt32
  staCtimeout : UInt32
  dblocksizePos : UInt32
  dtdir : UInt32
  dtdir_ne : dtdir ≠ 0
  dblocksize_outside : ∀ size ≤ 9, UInt32.ofNat size <<< dblocksizePos &&& dtdir = 0

namespace Bits

variable (B : Bits)

/-- `SDMMC_INT_ERROR_MASK` -/
def intErrorMask : UInt32 :=
  B.ctimeoutie ||| B.ccrcfailie ||| B.dtimeoutie ||| B.dcrcfailie ||| B.ackfailie ||| B.rxoverrie |||
    B.txunderrie ||| B.dabortie ||| B.acktimeoutie

/-- `SDMMC_INT_DATA_DONE_MASK` -/
def intDataDoneMask : UInt32 := B.idmabtcie ||| B.dataendie

/-- `SDMMC_INT_CMD_DONE_MASK` -/
def intCmdDoneMask : UInt32 := B.cmdsentie

/-- `SDMMC_INT_CMD_RESPONSE_DONE_MASK` -/
def intCmdResponseDoneMask : UInt32 := B.cmdrendie

end Bits

/-- The fields of `struct mmc_data` that are read. -/
structure MmcData where
  data : ℕ
  len : UInt32
  flags : UInt32
  fits : data + len.toNat ≤ 2 ^ 32

structure Response where
  r0 : UInt32
  r1 : UInt32
  r2 : UInt32
  r3 : UInt32

/-- The fields of `struct mmc_command` that are read, and `resp`. -/
structure Command where
  opcode : UInt32
  arg : UInt32
  flags : UInt32
  resp : Response
  data : Option MmcData

/-- The processor with `CPU_CACHE_LINE_BYTES`, the memory regions that `st_sdmmc_idma_txrx` accepts, and the
    bounce buffer, which is allocated with the alignment of a line and is in one of the regions.  The lines of the
    cache are not longer than the constant says. -/
structure Platform where
  bits : Bits
  geometry : Geometry
  manager : Manager geometry UInt8
  cacheLine : UInt32
  cacheShift : ℕ
  cacheLine_eq : cacheLine.toNat = 2 ^ cacheShift
  shift_le : geometry.shift ≤ cacheShift
  cacheShift_le : cacheShift ≤ 9
  dmaMemory : ℕ → Bool
  dmabuf : ℕ
  dmabuf_aligned : cacheLine.toNat ∣ dmabuf
  dmabuf_memory : dmaMemory dmabuf = true

/-- A command stops in an assertion, or in a shift by more bits than an `int` has. -/
inductive Fault where
  | shift
  | blockSize
  | bounceSize
  | idmaRegion

/-- `IDMABASE0`, `DLEN` and `DCTRL`. -/
structure DataPath where
  idmabase : ℕ
  dlen : UInt32
  dctrl : UInt32

/-- The registers when a command starts; the data path is off without data. -/
structure Registers where
  mask : UInt32
  arg : UInt32
  cmd : UInt32
  path : Option DataPath

/-- `ffs`: the number of the lowest bit that is set, from one on. -/
def ffs (x : UInt32) : UInt32 :=
  match (List.range 32).find? x.toNat.testBit with
  | some i => UInt32.ofNat (i + 1)
  | none => 0

/-- `roundup2`, "if y is powers of two" -/
def roundup2 (x y : UInt32) : UInt32 := (x + (y - 1)) &&& ~~~(y - 1)

variable (P : Platform)

/-- The value for `CMD`, to which the opcode is added once more. -/
def cmdval (B : Bits) (cmd : Command) : UInt32 :=
  let cmdval := (cmd.opcode &&& B.cmdIndex) ||| B.cpsmen
  let cmdval :=
    if cmd.flags &&& MMC_RSP_PRESENT ≠ 0 then
      if cmd.flags &&& MMC_RSP_136 ≠ 0 then cmdval ||| (B.waitresp0 ||| B.waitresp1)
      else if cmd.flags &&& MMC_RSP_CRC ≠ 0 then cmdval ||| B.waitresp0
      else cmdval ||| B.waitresp1
    else cmdval
  let cmdval := if cmd.opcode = MMC_STOP_TRANSMISSION then cmdval ||| B.cmdstop else cmdval
  if cmd.flags &&& MMC_CMD_MASK = MMC_CMD_ADTC then cmdval ||| B.cmdtrans else cmdval

/-- The interrupts that end the command: for a command with data those of the data path. -/
def intMask (B : Bits) (cmd : Command) : UInt32 :=
  let mask := B.intErrorMask
  let mask :=
    if cmd.flags &&& MMC_RSP_PRESENT ≠ 0 then mask ||| B.intCmdResponseDoneMask else mask ||| B.intCmdDoneMask
  let mask := if cmd.flags &&& MMC_RSP_BUSY ≠ 0 then mask ||| B.busyd0endie else mask
  if cmd.data.isSome then
    (mask &&& ~~~(B.intCmdDoneMask ||| B.intCmdResponseDoneMask)) ||| B.intDataDoneMask
  else mask

namespace MmcData

variable (d : MmcData)

/-- `(flags & MMC_DATA_READ) != 0` -/
def isRead : Bool := d.flags &&& MMC_DATA_READ ≠ 0

/-- `blksize`, the logarithm of the size of a block. -/
def blksize : UInt32 := if d.len > MMC_SECTOR_SIZE then ffs MMC_SECTOR_SIZE - 1 else ffs d.len - 1

/-- "Check whether data have to be copied. Reason is either misaligned start address or misaligned length." -/
def shortXfer : Bool := d.data % P.cacheLine.toNat ≠ 0 ∨ d.len % P.cacheLine ≠ 0

/-- Where the device transfers to or from: the buffer of the driver or that of the caller. -/
def dmaData : ℕ := if d.shortXfer P then P.dmabuf else d.data

/-- The transfer in whole cache lines. -/
def cacheLen : ℕ := (roundup2 d.len P.cacheLine).toNat

def dctrl : UInt32 :=
  let dctrl := 0 ||| d.blksize <<< P.bits.dblocksizePos
  if d.isRead then dctrl ||| P.bits.dtdir else dctrl

/-- The memory when the device starts: data to write have been copied when they have to be, and the lines have
    been invalidated or written back. -/
def prepare (s : CachedMemory UInt8) : CachedMemory UInt8 :=
  if d.isRead then P.manager.invalidate s (d.dmaData P) (d.cacheLen P)
  else
    let s := if d.shortXfer P then memcpy P.geometry s P.dmabuf d.data d.len.toNat else s
    P.manager.flush s (d.dmaData P) (d.cacheLen P)

end MmcData

/-- The memory, the data path and `short_xfer` before the command is started. -/
structure Setup where
  state : CachedMemory UInt8
  path : Option DataPath
  shortXfer : Bool

/-- `st_sdmmc_idma_txrx`, with the value for `IDMABASE0`. -/
def idmaTxrx (buf : ℕ) : Except Fault ℕ := if P.dmaMemory buf then .ok buf else .error .idmaRegion

/-- The branch of `st_sdmmc_cmd_do` for a command with data. -/
def dataSetup (s : CachedMemory UInt8) (d : MmcData) : Except Fault Setup :=
  if 31 ≤ d.blksize then .error .shift
  else if d.len % (1 <<< d.blksize) ≠ 0 then .error .blockSize
  else if d.shortXfer P ∧ ¬ d.len < DMA_BUF_SIZE then .error .bounceSize
  else do
    let base ← idmaTxrx P (d.dmaData P)
    return ⟨d.prepare P s, some ⟨base, d.len, d.dctrl P⟩, d.shortXfer P⟩

def setup (s : CachedMemory UInt8) : Option MmcData → Except Fault Setup
  | none => .ok ⟨s, none, false⟩
  | some d => dataSetup P s d

/-- What the device does until the wait for it ends: `intrStatus` is what the interrupt handler has collected,
    `received` are the bytes for the memory. -/
structure Reply where
  timedOut : Bool
  intrStatus : UInt32
  resp : Response
  received : List UInt8

/-- The device moves data between the card and the memory, in the direction of `DTDIR` and not more than `DLEN`
    bytes.  The list are the bytes for the card. -/
def move (B : Bits) (s : CachedMemory UInt8) (path : Option DataPath) (reply : Reply) :
    CachedMemory UInt8 × List UInt8 :=
  match path with
  | none => (s, [])
  | some p =>
    if p.dctrl &&& B.dtdir ≠ 0 then (deviceWrite s p.idmabase (reply.received.take p.dlen.toNat), [])
    else (s, deviceRead s p.idmabase p.dlen.toNat)

/-- `st_sdmmc_wait_irq` -/
def waitIrq (B : Bits) (reply : Reply) : UInt32 :=
  if reply.timedOut then MMC_ERR_TIMEOUT
  else if reply.intrStatus &&& (B.staDtimeout ||| B.staCtimeout) ≠ 0 then MMC_ERR_TIMEOUT
  else if reply.intrStatus &&& B.intErrorMask ≠ 0 then MMC_ERR_FAILED
  else 0

/-- The words of `cmd->resp` after success. -/
def respond (cmd : Command) (reply : Reply) : Response :=
  if cmd.flags &&& MMC_RSP_PRESENT ≠ 0 then
    if cmd.flags &&& MMC_RSP_136 ≠ 0 then reply.resp else { cmd.resp with r0 := reply.resp.r0 }
  else cmd.resp

/-- The memory behind the wait: what was read into the bounce buffer is copied to the caller. -/
def copyBack (s : CachedMemory UInt8) (shortXfer : Bool) : Option MmcData → CachedMemory UInt8
  | none => s
  | some d => if shortXfer ∧ d.isRead then memcpy P.geometry s d.data P.dmabuf d.len.toNat else s

/-- The memory, the registers at the start, the bytes that went to the card, `cmd->error` and `cmd->resp`. -/
structure Result where
  state : CachedMemory UInt8
  registers : Registers
  sent : List UInt8
  error : UInt32
  resp : Response

/-- `st_sdmmc_cmd_do` -/
def cmdDo (s : CachedMemory UInt8) (cmd : Command) (reply : Reply) : Except Fault Result := do
  let ready ← setup P s cmd.data
  let moved := move P.bits ready.state ready.path reply
  let error := waitIrq P.bits reply
  return {
    state := if error = 0 then copyBack P moved.1 ready.shortXfer cmd.data else moved.1
    registers := ⟨intMask P.bits cmd, cmd.arg, cmdval P.bits cmd ||| cmd.opcode, ready.path⟩
    sent := moved.2
    error := error
    resp := if error = 0 then respond cmd reply else cmd.resp }

/-! ## What is expected -/

def MmcData.Buffer (d : MmcData) (a : ℕ) : Prop := d.data ≤ a ∧ a < d.data + d.len.toNat

def Platform.Bounce (a : ℕ) : Prop := P.dmabuf ≤ a ∧ a < P.dmabuf + DMA_BUF_SIZE.toNat

/-- The lengths are powers of two up to the size of a sector, and multiples of it. -/
def Length (len : UInt32) : Prop := (∃ k ≤ 9, len.toNat = 2 ^ k) ∨ 512 ∣ len.toNat

/-- The transfers that the driver is for: any alignment up to the size of the bounce buffer, whole lines above it.
    A buffer that the device uses itself is in its memory, and no buffer is the driver's own. -/
structure Accepted (d : MmcData) : Prop where
  length : Length d.len
  alignment : d.len ≤ DMA_BUF_SIZE ∨ d.data % P.cacheLine.toNat = 0
  memory : d.shortXfer P = false → P.dmaMemory d.data = true
  apart : ∀ a, d.Buffer a → ¬ P.Bounce a

/-- The device reports success only when it has delivered all of the data. -/
def Reply.Complete (d : MmcData) (reply : Reply) : Prop :=
  waitIrq P.bits reply = 0 → d.isRead = true → reply.received.length = d.len.toNat

/-- The bytes of the device are in the caller's buffer, and outside of it nothing has changed but the driver's own
    buffer. -/
structure ReadOk (s : CachedMemory UInt8) (d : MmcData) (reply : Reply) (s' : CachedMemory UInt8) : Prop where
  buffer : (load P.geometry s' d.data d.len.toNat).1 = reply.received
  outside : ∀ a, ¬ d.Buffer a → ¬ P.Bounce a → view P.geometry s' a = view P.geometry s a

/-- No assertion is hit, a successful read delivers the bytes of the device, and a successful write sends what the
    caller sees in its buffer. -/
def TransferOk (s : CachedMemory UInt8) (cmd : Command) (d : MmcData) : Prop :=
  ∀ reply, Reply.Complete P d reply → ∃ r, cmdDo P s cmd reply = .ok r ∧
    (r.error = 0 →
      (d.isRead = true → ReadOk P s d reply r.state) ∧
      (d.isRead = false → r.sent = (load P.geometry s d.data d.len.toNat).1))

/-! ## The lengths -/

variable {P}

theorem ffs_two_pow : ∀ k ≤ 9, ffs (UInt32.ofNat (2 ^ k)) - 1 = UInt32.ofNat k := by
  decide

theorem ofNat_mod_shift :
    ∀ k ≤ 9, UInt32.ofNat k ≤ 9 ∧ UInt32.ofNat (2 ^ k) % (1 <<< UInt32.ofNat k) = 0 := by
  decide

theorem blksize_of_length {d : MmcData} (h : Length d.len) (hne : d.len ≠ 0) :
    d.blksize ≤ 9 ∧ d.len % (1 <<< d.blksize) = 0 := by
  have hpos : 0 < d.len.toNat := by
    rw [Nat.pos_iff_ne_zero]
    intro h0
    exact hne (UInt32.toNat.inj h0)
  unfold MmcData.blksize
  by_cases hbig : d.len > MMC_SECTOR_SIZE
  · rw [if_pos hbig, show ffs MMC_SECTOR_SIZE - 1 = 9 by decide]
    refine ⟨by decide, UInt32.toNat.inj ?_⟩
    change 512 < d.len.toNat at hbig
    rcases h with ⟨k, hk, hpow⟩ | hdvd
    · have hle : 2 ^ k ≤ 2 ^ 9 := Nat.pow_le_pow_right (by omega) hk
      omega
    · exact Nat.mod_eq_zero_of_dvd hdvd
  · rw [if_neg hbig]
    rw [gt_iff_lt, UInt32.lt_iff_toNat_lt, not_lt] at hbig
    change d.len.toNat ≤ 512 at hbig
    obtain ⟨k, hk, hpow⟩ : ∃ k ≤ 9, d.len.toNat = 2 ^ k := by
      rcases h with h | hdvd
      · exact h
      · exact ⟨9, le_refl 9, Nat.le_antisymm hbig (Nat.le_of_dvd hpos hdvd)⟩
    grind [UInt32.ofNat_toNat, ffs_two_pow, ofNat_mod_shift]

theorem blksize_of_zero {d : MmcData} (h : d.len = 0) : 31 ≤ d.blksize := by
  unfold MmcData.blksize
  rw [h]
  decide

theorem blksize_le {d : MmcData} (h : ¬ 31 ≤ d.blksize) : d.blksize ≤ 9 := by
  unfold MmcData.blksize at *
  by_cases hbig : d.len > MMC_SECTOR_SIZE
  · rw [if_pos hbig]
    decide
  · rw [if_neg hbig] at *
    rw [gt_iff_lt, UInt32.lt_iff_toNat_lt, not_lt] at hbig
    unfold ffs at *
    cases hf : (List.range 32).find? d.len.toNat.testBit with
    | none =>
      rw [hf] at h
      exact absurd (by decide) h
    | some i =>
      have hbit := Nat.ge_two_pow_of_testBit (List.find?_some hf)
      have hi : i < 10 := (Nat.pow_lt_pow_iff_right (by decide)).mp (lt_of_le_of_lt (le_trans hbit hbig) (by decide))
      show UInt32.ofNat (i + 1) - 1 ≤ 9
      rw [UInt32.ofNat_add, show UInt32.ofNat 1 = 1 from rfl, UInt32.add_sub_cancel]
      exact (ofNat_mod_shift i (by omega)).1

theorem roundup2_toNat {x y : UInt32} {k : ℕ} (hy : y.toNat = 2 ^ k) (hx : x.toNat + (2 ^ k - 1) < 2 ^ 32) :
    (roundup2 x y).toNat = x.toNat ⌈/⌉ 2 ^ k * 2 ^ k := by
  have hk : k < 32 := (Nat.pow_lt_pow_iff_right (by omega)).mp (hy ▸ y.toNat_lt)
  have hone : (1 : UInt32) ≤ y := by
    rw [UInt32.le_iff_toNat_le, hy]
    exact Nat.two_pow_pos k
  have hmask : (y - 1).toNat = 2 ^ k - 1 := by
    rw [UInt32.toNat_sub_of_le _ _ hone, hy]
    rfl
  unfold roundup2
  rw [UInt32.toNat_and, UInt32.toNat_not, UInt32.toNat_add, hmask]
  exact Masks.roundup hk.le hx

/-! ## The area of a transfer -/

theorem Platform.lineSize_dvd (P : Platform) : P.geometry.lineSize ∣ P.cacheLine.toNat := by
  rw [P.cacheLine_eq]
  exact Nat.pow_dvd_pow 2 P.shift_le

theorem Platform.cacheLine_pos (P : Platform) : 0 < P.cacheLine.toNat := by
  rw [P.cacheLine_eq]
  exact Nat.two_pow_pos P.cacheShift

theorem Platform.cacheLine_dvd (P : Platform) : P.cacheLine.toNat ∣ DMA_BUF_SIZE.toNat := by
  rw [P.cacheLine_eq]
  exact Nat.pow_dvd_pow 2 P.cacheShift_le

theorem shortXfer_eq_false_iff {d : MmcData} :
    d.shortXfer P = false ↔ P.cacheLine.toNat ∣ d.data ∧ P.cacheLine.toNat ∣ d.len.toNat := by
  have hmod : d.len % P.cacheLine = 0 ↔ d.len.toNat % P.cacheLine.toNat = 0 := by
    rw [← UInt32.toNat_inj, UInt32.toNat_mod]
    rfl
  unfold MmcData.shortXfer
  simp [hmod, Nat.dvd_iff_mod_eq_zero]

/-- What the cache manager is called with: whole lines that contain the data and are part of the buffer. -/
structure Area (P : Platform) (d : MmcData) : Prop where
  first : P.geometry.lineSize ∣ d.dmaData P
  size : P.geometry.lineSize ∣ d.cacheLen P
  len_le : d.len.toNat ≤ d.cacheLen P
  copied : d.shortXfer P = true → d.cacheLen P ≤ DMA_BUF_SIZE.toNat
  direct : d.shortXfer P = false → d.cacheLen P = d.len.toNat

/-- A length that fits into the bounce buffer is rounded up within it, and a number of lines is not rounded. -/
theorem area_of_fits {d : MmcData} (h : d.shortXfer P = true → d.len < DMA_BUF_SIZE) : Area P d := by
  have hpos := P.cacheLine_pos
  have hround : d.cacheLen P = d.len.toNat ⌈/⌉ P.cacheLine.toNat * P.cacheLine.toNat := by
    rw [P.cacheLine_eq]
    apply roundup2_toNat P.cacheLine_eq
    rw [← P.cacheLine_eq]
    cases hs : d.shortXfer P with
    | true =>
      have hlen := UInt32.lt_iff_toNat_lt.mp (h hs)
      have hline := Nat.le_of_dvd (by decide) P.cacheLine_dvd
      change d.len.toNat < 512 at hlen
      change P.cacheLine.toNat ≤ 512 at hline
      omega
    | false =>
      -- the rest of the address space is a number of lines, too
      have htop : P.cacheLine.toNat ∣ 2 ^ 32 := Nat.dvd_trans P.cacheLine_dvd (by decide)
      have hrest := Nat.le_of_dvd (Nat.sub_pos_of_lt d.len.toNat_lt)
        (Nat.dvd_sub htop (shortXfer_eq_false_iff.mp hs).2)
      omega
  constructor
  · apply Nat.dvd_trans P.lineSize_dvd
    unfold MmcData.dmaData
    split
    · exact P.dmabuf_aligned
    · rename_i hs
      exact (shortXfer_eq_false_iff.mp (Bool.eq_false_iff.mpr hs)).1
  · rw [hround]
    exact Nat.dvd_trans P.lineSize_dvd (Nat.dvd_mul_left _ _)
  · rw [hround]
    exact Masks.le_ceilDiv_mul hpos _
  · intro hs
    rw [hround]
    exact Masks.ceilDiv_mul_le hpos P.cacheLine_dvd (Nat.le_of_lt (UInt32.lt_iff_toNat_lt.mp (h hs)))
  · intro hs
    rw [hround]
    exact Masks.ceilDiv_mul_of_dvd hpos (shortXfer_eq_false_iff.mp hs).2

theorem dctrl_dtdir {d : MmcData} (h : d.blksize ≤ 9) : d.dctrl P &&& P.bits.dtdir ≠ 0 ↔ d.isRead = true := by
  have hsize : (0 ||| d.blksize <<< P.bits.dblocksizePos) &&& P.bits.dtdir = 0 := by
    rw [UInt32.zero_or, ← UInt32.ofNat_toNat (x := d.blksize)]
    exact P.bits.dblocksize_outside _ (UInt32.le_iff_toNat_le.mp h)
  unfold MmcData.dctrl
  cases d.isRead with
  | true =>
    rw [if_pos rfl, Masks.or_and, hsize, UInt32.zero_or, UInt32.and_self]
    exact iff_of_true P.bits.dtdir_ne rfl
  | false =>
    rw [if_neg Bool.false_ne_true, hsize]
    exact iff_of_false (not_not.mpr rfl) Bool.false_ne_true

/-! ## The assertions -/

/-- What the assertions of a data command and its shift require. -/
structure Passes (P : Platform) (d : MmcData) : Prop where
  shift : d.blksize ≤ 9
  blocks : d.len % (1 <<< d.blksize) = 0
  bounce : d.shortXfer P = true → d.len < DMA_BUF_SIZE
  region : P.dmaMemory (d.dmaData P) = true

/-- **A data command is started exactly when it passes the assertions.** -/
theorem dataSetup_eq_ok_iff {s : CachedMemory UInt8} {d : MmcData} {x : Setup} :
    dataSetup P s d = .ok x ↔
      Passes P d ∧ x = ⟨d.prepare P s, some ⟨d.dmaData P, d.len, d.dctrl P⟩, d.shortXfer P⟩ := by
  unfold dataSetup idmaTxrx
  constructor
  · intro h
    by_cases hshift : 31 ≤ d.blksize
    · rw [if_pos hshift] at h
      cases h
    rw [if_neg hshift] at h
    by_cases hblocks : d.len % (1 <<< d.blksize) ≠ 0
    · rw [if_pos hblocks] at h
      cases h
    rw [if_neg hblocks] at h
    by_cases hbounce : d.shortXfer P ∧ ¬ d.len < DMA_BUF_SIZE
    · rw [if_pos hbounce] at h
      cases h
    rw [if_neg hbounce] at h
    by_cases hregion : P.dmaMemory (d.dmaData P) = true
    · rw [if_pos hregion] at h
      refine ⟨⟨blksize_le hshift, not_not.mp hblocks, ?_, hregion⟩, (Except.ok.inj h).symm⟩
      intro hs
      exact not_not.mp fun hlen => hbounce ⟨hs, hlen⟩
    · rw [if_neg hregion] at h
      cases h
  · rintro ⟨h, rfl⟩
    have hshift : ¬ 31 ≤ d.blksize := by
      intro h31
      have hle : (31 : UInt32) ≤ 9 := UInt32.le_trans h31 h.shift
      exact absurd hle (by decide)
    have hbounce : ¬ (d.shortXfer P = true ∧ ¬ d.len < DMA_BUF_SIZE) := fun hb => hb.2 (h.bounce hb.1)
    rw [if_neg hshift, if_neg (not_not.mpr h.blocks), if_neg hbounce, if_pos h.region]
    rfl

theorem passes_iff {d : MmcData} (h : Accepted P d) :
    Passes P d ↔ d.len ≠ 0 ∧ ¬ (d.len = DMA_BUF_SIZE ∧ d.data % P.cacheLine.toNat ≠ 0) := by
  constructor
  · refine fun hp => ⟨fun h0 => ?_, fun ⟨hlen, hdata⟩ => ?_⟩
    · grind [blksize_of_zero, hp.shift]
    · have hs : d.shortXfer P = true := decide_eq_true (.inl hdata)
      have hlt := hp.bounce hs
      rw [hlen] at hlt
      exact absurd hlt (by decide)
  · rintro ⟨hne, hfull⟩
    obtain ⟨hshift, hblocks⟩ := blksize_of_length h.length hne
    refine ⟨hshift, hblocks, fun hs => ?_, ?_⟩
    · by_contra hge
      have hge : 512 ≤ d.len.toNat := not_lt.mp fun hlt => hge (UInt32.lt_iff_toNat_lt.mpr hlt)
      have hlen : 512 ∣ d.len.toNat := by
        rcases h.length with ⟨k, hk, hpow⟩ | hdvd
        · have hle : 2 ^ k ≤ 2 ^ 9 := Nat.pow_le_pow_right (by decide) hk
          have heq : d.len.toNat = 512 := by omega
          rw [heq]
        · exact hdvd
      have hdata : P.cacheLine.toNat ∣ d.data := by
        rw [Nat.dvd_iff_mod_eq_zero]
        rcases h.alignment with hle | hdata
        · grind
        · exact hdata
      have hs' := shortXfer_eq_false_iff.mpr ⟨hdata, Nat.dvd_trans P.cacheLine_dvd hlen⟩
      rw [hs] at hs'
      cases hs'
    · grind [MmcData.dmaData, P.dmabuf_memory, h.memory]

/-! ## A command that passes -/

section

variable {s : CachedMemory UInt8} {cmd : Command} {d : MmcData} {reply : Reply}

theorem cmdDo_eq (hdata : cmd.data = some d) (hp : Passes P d) (s : CachedMemory UInt8) (reply : Reply) :
    ∃ r, cmdDo P s cmd reply = .ok r ∧
    r.error = waitIrq P.bits reply ∧
    r.sent = (move P.bits (d.prepare P s) (some ⟨d.dmaData P, d.len, d.dctrl P⟩) reply).2 ∧
    (r.error = 0 → r.state =
      copyBack P (move P.bits (d.prepare P s) (some ⟨d.dmaData P, d.len, d.dctrl P⟩) reply).1 (d.shortXfer P)
        (some d)) := by
  unfold cmdDo
  rw [hdata]
  change ∃ r, (dataSetup P s d >>= _) = _ ∧ _
  rw [dataSetup_eq_ok_iff.mpr ⟨hp, rfl⟩]
  exact ⟨_, rfl, rfl, rfl, fun h => if_pos h⟩

theorem move_read (hp : Passes P d) (hread : d.isRead = true) (s : CachedMemory UInt8) :
    move P.bits s (some ⟨d.dmaData P, d.len, d.dctrl P⟩) reply =
      (deviceWrite s (d.dmaData P) (reply.received.take d.len.toNat), []) :=
  if_pos ((dctrl_dtdir hp.shift).mpr hread)

theorem move_write (hp : Passes P d) (hwrite : d.isRead = false) (s : CachedMemory UInt8) :
    move P.bits s (some ⟨d.dmaData P, d.len, d.dctrl P⟩) reply = (s, deviceRead s (d.dmaData P) d.len.toNat) := by
  refine if_neg fun h => ?_
  rw [(dctrl_dtdir hp.shift).mp h] at hwrite
  cases hwrite

theorem copyBack_copied (hread : d.isRead = true) (s : CachedMemory UInt8) :
    copyBack P s true (some d) = memcpy P.geometry s d.data P.dmabuf d.len.toNat := if_pos ⟨rfl, hread⟩

theorem readOk (hp : Passes P d) (hread : d.isRead = true) (hlen : reply.received.length = d.len.toNat) :
    ReadOk P s d reply (copyBack P (move P.bits (d.prepare P s) (some ⟨d.dmaData P, d.len, d.dctrl P⟩) reply).1
      (d.shortXfer P) (some d)) := by
  have harea := area_of_fits hp.bounce
  have hfits : reply.received.length ≤ d.cacheLen P := hlen ▸ harea.len_le
  rw [move_read hp hread, List.take_of_length_le hlen.le]
  unfold MmcData.prepare
  rw [if_pos hread]
  obtain ⟨moved, hmoved⟩ : ∃ moved, deviceWrite (P.manager.invalidate s (d.dmaData P) (d.cacheLen P)) (d.dmaData P)
      reply.received = moved := ⟨_, rfl⟩
  have hbytes : (load P.geometry moved (d.dmaData P) d.len.toNat).1 = reply.received := by
    rw [← hmoved, ← hlen]
    exact P.manager.load_deviceWrite harea.first harea.size hfits
  have helse : ∀ a, ¬ (d.dmaData P ≤ a ∧ a < d.dmaData P + d.cacheLen P) →
      view P.geometry moved a = view P.geometry s a := by
    intro a ha
    rw [← hmoved, P.manager.view_deviceWrite harea.first harea.size hfits, if_neg ha]
  rw [hmoved]
  cases hs : d.shortXfer P with
  | true =>
    have hbase : d.dmaData P = P.dmabuf := if_pos hs
    rw [hbase] at hbytes helse
    rw [copyBack_copied hread]
    constructor
    · rw [load_memcpy, hbytes]
    · intro a hbuffer hbounce
      have hout : ¬ (d.data ≤ a ∧ a < d.data + d.len.toNat) := hbuffer
      rw [view_memcpy, if_neg hout]
      apply helse
      have := harea.copied hs
      exact fun h => hbounce ⟨h.1, by omega⟩
  | false =>
    have hbase : d.dmaData P = d.data := if_neg (Bool.eq_false_iff.mp hs)
    rw [hbase] at hbytes helse
    refine ⟨hbytes, fun a hbuffer _ => helse a ?_⟩
    rw [harea.direct hs]
    exact hbuffer

theorem sent_eq (hp : Passes P d) (hwrite : d.isRead = false) (hs : Coherent P.geometry s) :
    (move P.bits (d.prepare P s) (some ⟨d.dmaData P, d.len, d.dctrl P⟩) reply).2 =
      (load P.geometry s d.data d.len.toNat).1 := by
  have harea := area_of_fits hp.bounce
  rw [move_write hp hwrite]
  unfold MmcData.prepare
  rw [if_neg (Bool.eq_false_iff.mp hwrite)]
  cases hshort : d.shortXfer P with
  | true =>
    have hbase : d.dmaData P = P.dmabuf := if_pos hshort
    rw [if_pos rfl, hbase]
    show deviceRead _ _ _ = _
    rw [P.manager.deviceRead_flush (hs.memcpy _ _ _) harea.len_le, load_memcpy]
  | false =>
    have hbase : d.dmaData P = d.data := if_neg (Bool.eq_false_iff.mp hshort)
    rw [if_neg Bool.false_ne_true, hbase]
    exact P.manager.deviceRead_flush hs harea.len_le

/-- **A command that passes the assertions transfers its data.** -/
theorem transferOk_of_passes (hdata : cmd.data = some d) (hp : Passes P d) (hs : Coherent P.geometry s) :
    TransferOk P s cmd d := by
  intro reply hcomplete
  obtain ⟨r, hr, herror, hsent, hstate⟩ := cmdDo_eq hdata hp s reply
  refine ⟨r, hr, fun h0 => ⟨fun hread => ?_, fun hwrite => ?_⟩⟩
  · rw [hstate h0]
    exact readOk hp hread (hcomplete (herror ▸ h0) hread)
  · rw [hsent]
    exact sent_eq hp hwrite hs

/-! ## Coherence -/

theorem prepare_coherent (d : MmcData) (hs : Coherent P.geometry s) : Coherent P.geometry (d.prepare P s) := by
  unfold MmcData.prepare
  split
  · exact hs.invalidate P.manager _ _
  · split
    · exact (hs.memcpy _ _ _).flush P.manager _ _
    · exact hs.flush P.manager _ _

theorem move_coherent (hp : Passes P d) (hs : Coherent P.geometry s) : Coherent P.geometry
    (move P.bits (d.prepare P s) (some ⟨d.dmaData P, d.len, d.dctrl P⟩) reply).1 := by
  have hready := prepare_coherent d hs
  cases hread : d.isRead with
  | false =>
    rw [move_write hp hread]
    exact hready
  | true =>
    rw [move_read hp hread]
    apply hready.deviceWrite
    intro x hlo hhi
    have hlen := (area_of_fits hp.bounce).len_le
    rw [List.length_take] at hhi
    unfold MmcData.prepare
    rw [if_pos hread, P.manager.invalidate_line]
    exact if_pos (Geometry.covers_of_mem hlo (by omega))

theorem copyBack_coherent (shortXfer : Bool) (data : Option MmcData) (hs : Coherent P.geometry s) :
    Coherent P.geometry (copyBack P s shortXfer data) := by
  cases data with
  | none => exact hs
  | some d =>
    unfold copyBack
    dsimp only
    split
    · exact hs.memcpy _ _ _
    · exact hs

theorem setup_of_cmdDo {r : Result} (h : cmdDo P s cmd reply = .ok r) : ∃ ready, setup P s cmd.data = .ok ready ∧
    r.state = if waitIrq P.bits reply = 0 then
      copyBack P (move P.bits ready.state ready.path reply).1 ready.shortXfer cmd.data
    else (move P.bits ready.state ready.path reply).1 := by
  unfold cmdDo at h
  cases hsetup : setup P s cmd.data with
  | error f =>
    rw [hsetup] at h
    cases h
  | ok ready =>
    rw [hsetup] at h
    obtain rfl := Except.ok.inj h
    exact ⟨ready, rfl, rfl⟩

theorem cmdDo_coherent {r : Result} (h : cmdDo P s cmd reply = .ok r) (hs : Coherent P.geometry s) :
    Coherent P.geometry r.state := by
  obtain ⟨ready, hsetup, hstate⟩ := setup_of_cmdDo h
  have hmoved : Coherent P.geometry (move P.bits ready.state ready.path reply).1 := by
    cases hdata : cmd.data with
    | none =>
      rw [hdata] at hsetup
      obtain rfl := Except.ok.inj hsetup
      exact hs
    | some d =>
      rw [hdata] at hsetup
      obtain ⟨hp, rfl⟩ := dataSetup_eq_ok_iff.mp hsetup
      exact move_coherent hp hs
  rw [hstate]
  split
  · exact copyBack_coherent _ _ hmoved
  · exact hmoved

end

/-- **Which accepted transfers do what is expected.** -/
theorem cmdDo_ok_iff (P : Platform) (s : CachedMemory UInt8) (cmd : Command) (d : MmcData)
    (hdata : cmd.data = some d) (h : Accepted P d) (hs : Coherent P.geometry s) :
    TransferOk P s cmd d ↔ d.len ≠ 0 ∧ ¬ (d.len = DMA_BUF_SIZE ∧ d.data % P.cacheLine.toNat ≠ 0) := by
  rw [← passes_iff h]
  refine ⟨fun hok => ?_, fun hp => transferOk_of_passes hdata hp hs⟩
  -- a reply that comes too late is complete
  obtain ⟨r, hr, -⟩ := hok ⟨true, 0, ⟨0, 0, 0, 0⟩, []⟩ fun herror => absurd herror (show MMC_ERR_TIMEOUT ≠ 0 by decide)
  obtain ⟨ready, hsetup, -⟩ := setup_of_cmdDo hr
  rw [hdata] at hsetup
  exact (dataSetup_eq_ok_iff.mp hsetup).1

def stm32h7Bits : Bits where
  cmdIndex := 0x3F
  cpsmen := 0x1000
  waitresp0 := 0x100
  waitresp1 := 0x200
  cmdstop := 0x80
  cmdtrans := 0x40
  ctimeoutie := 0x4
  ccrcfailie := 0x1
  dtimeoutie := 0x8
  dcrcfailie := 0x2
  ackfailie := 0x800000
  rxoverrie := 0x20
  txunderrie := 0x10
  dabortie := 0x800
  acktimeoutie := 0x1000000
  idmabtcie := 0x10000000
  dataendie := 0x100
  cmdsentie := 0x80
  cmdrendie := 0x40
  busyd0endie := 0x200000
  staDtimeout := 0x8
  staCtimeout := 0x4
  dblocksizePos := 4
  dtdir := 0x2
  dtdir_ne := by decide
  dblocksize_outside := by decide

/-- A processor with lines of 32 bytes, and the heap in the AXI SRAM. -/
def board : Platform where
  bits := stm32h7Bits
  geometry := ⟨5, fun _ => false, true, true⟩
  manager := lineManager _ _
  cacheLine := 32
  cacheShift := 5
  cacheLine_eq := rfl
  shift_le := Nat.le_refl 5
  cacheShift_le := by decide
  dmaMemory a := decide (0x24000000 ≤ a ∧ a < 0x24080000)
  dmabuf := 0x24001000
  dmabuf_aligned := ⟨0x1200080, rfl⟩
  dmabuf_memory := rfl

def emptyCache : CachedMemory UInt8 := ⟨fun _ => 0, fun _ => none⟩

/-- The eight bytes of a register of the card, read to the start of a line. -/
def scr : MmcData := ⟨0x24010020, 8, MMC_DATA_READ, by decide⟩

/-- `raw_ext_csd` of `struct mmc_ivars`, behind three arrays with 40 bytes. -/
def extCsd : MmcData := ⟨0x24010028, 512, MMC_DATA_READ, by decide⟩

def readCommand (opcode : UInt32) (d : MmcData) : Command :=
  ⟨opcode, 0, MMC_RSP_PRESENT ||| MMC_RSP_CRC ||| MMC_CMD_ADTC, ⟨0, 0, 0, 0⟩, some d⟩

theorem scr_accepted : Accepted board scr := by
  refine ⟨.inl ⟨3, by decide, rfl⟩, .inl (by decide), fun h => absurd h (by decide), ?_⟩
  rintro a ⟨hlo, -⟩ ⟨-, hhi⟩
  change 0x24010020 ≤ a at hlo
  change a < 0x24001000 + 512 at hhi
  omega

theorem extCsd_accepted : Accepted board extCsd := by
  refine ⟨.inl ⟨9, by decide, rfl⟩, .inl (by decide), fun h => absurd h (by decide), ?_⟩
  rintro a ⟨hlo, -⟩ ⟨-, hhi⟩
  change 0x24010028 ≤ a at hlo
  change a < 0x24001000 + 512 at hhi
  omega

theorem cmdDo_ok_iff_scr : TransferOk board emptyCache (readCommand 51 scr) scr :=
  (cmdDo_ok_iff board emptyCache (readCommand 51 scr) scr rfl scr_accepted (Coherent.of_empty fun _ => rfl)).mpr
    ⟨by decide, by decide⟩

/-- `mmc_send_ext_csd` reads a sector to an address that is not aligned. -/
theorem extCsd_stuck : Accepted board extCsd ∧ Coherent board.geometry emptyCache ∧
    (∀ reply, cmdDo board emptyCache (readCommand 8 extCsd) reply = .error .bounceSize) ∧
    ¬ TransferOk board emptyCache (readCommand 8 extCsd) extCsd := by
  have hstuck : ∀ reply, cmdDo board emptyCache (readCommand 8 extCsd) reply = .error .bounceSize := by
    intro reply
    change (dataSetup board emptyCache extCsd >>= _) = _
    rfl
  refine ⟨extCsd_accepted, Coherent.of_empty fun _ => rfl, hstuck, fun hok => ?_⟩
  obtain ⟨r, hr, -⟩ := hok ⟨true, 0, ⟨0, 0, 0, 0⟩, []⟩ fun herror => absurd herror (by decide)
  cases hr

/-! ## Runs -/

/-- What happens to the memory: accesses of the processor, and commands with the replies of the device. -/
inductive Action where
  | read (a : ℕ)
  | write (a : ℕ) (v : UInt8)
  | command (cmd : Command) (reply : Reply)

def step (P : Platform) (s : CachedMemory UInt8) : Action → Option (CachedMemory UInt8)
  | .read a => some (read P.geometry s a).2
  | .write a v => some (write P.geometry s a v)
  | .command cmd reply => (cmdDo P s cmd reply).toOption.map Result.state

theorem step_coherent {s t : CachedMemory UInt8} {a : Action} (hs : Coherent P.geometry s)
    (h : step P s a = some t) : Coherent P.geometry t := by
  cases a with
  | read a =>
    obtain rfl := Option.some.inj h
    exact hs.read a
  | write a v =>
    obtain rfl := Option.some.inj h
    exact hs.write a v
  | command cmd reply =>
    obtain ⟨r, hr, rfl⟩ := Option.map_eq_some_iff.mp h
    cases hcmd : cmdDo P s cmd reply with
    | error f =>
      rw [hcmd] at hr
      cases hr
    | ok r' =>
      rw [hcmd] at hr
      obtain rfl := Option.some.inj hr
      exact cmdDo_coherent hcmd hs

/-- **The memory is coherent in every run**, and a command that passes transfers its data at any point of it. -/
theorem run_coherent {s t : CachedMemory UInt8} {as : List Action} (hs : ∀ i, s.line i = none)
    (h : Transition.run (step P) s as = some t) : Coherent P.geometry t ∧
      ∀ cmd d, cmd.data = some d → Passes P d → TransferOk P t cmd d := by
  have ht := Transition.run_invariant (fun _ _ _ => step_coherent) as s t (Coherent.of_empty hs) h
  exact ⟨ht, fun cmd d hdata hp => transferOk_of_passes hdata hp ht⟩

/-- A store beside the buffer, the register of the card read to it, and a load of what was read. -/
def scrRun : List Action :=
  [.write 0x24010028 7, .command (readCommand 51 scr) ⟨false, 0x100, ⟨0x920, 0, 0, 0⟩, [2, 53, 128, 1, 0, 0, 0, 0]⟩,
    .read 0x24010021]

theorem run_coherent_scrRun : ∃ t, Transition.run (step board) emptyCache scrRun = some t ∧
    (load board.geometry t 0x24010020 9).1 = [2, 53, 128, 1, 0, 0, 0, 0, 7] ∧ Coherent board.geometry t ∧
    TransferOk board t (readCommand 51 scr) scr := by
  obtain ⟨hcoherent, htransfer⟩ := @run_coherent board emptyCache _ scrRun (fun _ => rfl) rfl
  exact ⟨_, rfl, by decide, hcoherent, htransfer _ _ rfl ⟨by decide, by decide, by decide, by decide⟩⟩

end RtemsLibbsd.Sdmmc
