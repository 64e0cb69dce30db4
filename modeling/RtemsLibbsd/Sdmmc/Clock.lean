import Mathlib.Algebra.Group.Nat.Defs
import Mathlib.Algebra.Order.Floor.Div
import Mathlib.Data.Rat.Defs
import Mathlib.Data.Nat.Bitwise
import Mathlib.Order.Bounds.Basic
import Mathlib.Tactic.NormNum
import RtemsLibbsd.Masks

/-!
# The card clock of the STM32 SDMMC driver

`rtemsbsd/sys/dev/mmc/st-sdmmc.c`: `st_sdmmc_set_clock_and_bus` computes the divider of the card clock from
the kernel clock and the requested frequency, and writes it with the bus width to `CLKCR`.
`st_sdmmc_update_ios` calls it for every change of the settings of the card; the MMC layer requests the
frequency zero when it powers a card up or down.

* `Layout` — what the driver uses of the register layout, which comes from the vendor's header.
* `cardClock` — the clock of the card as a rational number, so that clocks are compared exactly.
* `ClockOk` — what is expected of one request.
* `setClockAndBus_ok_iff` — for which kernel clocks and frequencies it holds.
-/

namespace RtemsLibbsd.Sdmmc

/-! ## The driver -/

/-- `enum mmc_bus_width`. -/
inductive BusWidth where
  | one | four | eight
  deriving DecidableEq

/-- `enum mmc_power_mode`. -/
inductive PowerMode where
  | off | up | on
  deriving DecidableEq

/-- The fields of `struct mmc_ios` that are read. -/
structure Ios where
  clock : UInt32
  busWidth : BusWidth
  powerMode : PowerMode

/-- The masks and positions of `CLKCR` and `POWER`.  `CLKDIV` has `width` adjacent bits, and nothing else
    that is written lies in it. -/
structure Layout where
  negedge : UInt32
  pwrsav : UInt32
  hwfcEn : UInt32
  clkdiv : UInt32
  clkdivPos : UInt32
  widbusPos : UInt32
  pwrctrl : UInt32
  width : ℕ
  width_pos : 0 < width
  fits : clkdivPos.toNat + width ≤ 32
  clkdiv_eq : clkdiv.toNat = (2 ^ width - 1) <<< clkdivPos.toNat
  flags_outside : (negedge ||| pwrsav ||| hwfcEn) &&& clkdiv = 0
  widbus_outside : ∀ code ≤ 2, code <<< widbusPos &&& clkdiv = 0

structure Softc where
  sdmmcKerCk : UInt32
  ios : Ios
  clkcr : UInt32
  power : UInt32

/-- The macro `howmany`; there is no result when the divisor is zero. -/
def howmany (x y : UInt32) : Option UInt32 :=
  if y = 0 then none else some ((x + (y - 1)) / y)

/-- The value for `WIDBUS`. -/
def widbus : BusWidth → UInt32
  | .one => 0
  | .four => 1
  | .eight => 2

/-- `st_sdmmc_set_clock_and_bus`.  It returns zero in any case. -/
def setClockAndBus (L : Layout) (sc : Softc) (freq : UInt32) (width : BusWidth) : Option Softc := do
  let clkcr := L.negedge ||| L.pwrsav ||| L.hwfcEn
  let clkDiv := (← howmany sc.sdmmcKerCk freq) / 2
  let clkDiv := if clkDiv > L.clkdiv >>> L.clkdivPos then L.clkdiv >>> L.clkdivPos else clkDiv
  let clkcr := clkcr ||| clkDiv <<< L.clkdivPos
  let clkcr := clkcr ||| widbus width <<< L.widbusPos
  return { sc with clkcr := clkcr }

def EIO : ℕ := 5

/-- `st_sdmmc_update_ios`, with the value it returns. -/
def updateIos (L : Layout) (sc : Softc) : Option (Softc × ℕ) := do
  let sc ← setClockAndBus L sc sc.ios.clock sc.ios.busWidth
  let power :=
    if sc.ios.powerMode = .off then sc.power &&& ~~~L.pwrctrl else sc.power ||| L.pwrctrl
  return ({ sc with power := power }, EIO)

/-! ## What is expected -/

def Layout.clkdivMax (L : Layout) : ℕ := 2 ^ L.width - 1

/-- The divider that the hardware reads from `CLKCR`. -/
def Softc.divider (L : Layout) (sc : Softc) : ℕ := ((sc.clkcr &&& L.clkdiv) >>> L.clkdivPos).toNat

def ratio (div : ℕ) : ℕ := if div = 0 then 1 else 2 * div

def cardClock (kerCk : UInt32) (div : ℕ) : ℚ := kerCk.toNat / ratio div

def allowed (L : Layout) (kerCk freq : UInt32) : Set ℚ :=
  {c | c ≤ freq.toNat ∧ ∃ div ≤ L.clkdivMax, c = cardClock kerCk div}

/-- There is a result, and when the divider can be large enough for a frequency other than zero, then it
    gives the largest clock that does not exceed the frequency. -/
def ClockOk (L : Layout) (sc : Softc) (freq : UInt32) (width : BusWidth) : Prop :=
  ∃ sc', setClockAndBus L sc freq width = some sc' ∧
    (0 < freq → (allowed L sc.sdmmcKerCk freq).Nonempty →
      IsGreatest (allowed L sc.sdmmcKerCk freq) (cardClock sc.sdmmcKerCk (sc'.divider L)))

/-! ## What is programmed -/

theorem mask_pos (L : Layout) : L.clkdivPos.toNat < 32 := by
  have := L.fits
  have := L.width_pos
  omega

theorem shiftLeft_toNat (L : Layout) {x : UInt32} (hx : x.toNat ≤ L.clkdivMax) :
    (x <<< L.clkdivPos).toNat = x.toNat <<< L.clkdivPos.toNat := by
  have hpos := mask_pos L
  have hfit : x.toNat <<< L.clkdivPos.toNat < 2 ^ 32 := by
    rw [Nat.shiftLeft_eq]
    calc x.toNat * 2 ^ L.clkdivPos.toNat
        < 2 ^ L.width * 2 ^ L.clkdivPos.toNat := by
          apply Nat.mul_lt_mul_of_pos_right _ (Nat.two_pow_pos _)
          have := Nat.two_pow_pos L.width
          unfold Layout.clkdivMax at hx
          omega
      _ = 2 ^ (L.clkdivPos.toNat + L.width) := by rw [← Nat.pow_add, Nat.add_comm]
      _ ≤ 2 ^ 32 := Nat.pow_le_pow_right (by omega) L.fits
  rw [UInt32.toNat_shiftLeft, Nat.mod_eq_of_lt hpos, Nat.mod_eq_of_lt hfit]

theorem shiftRight_toNat (L : Layout) (x : UInt32) :
    (x >>> L.clkdivPos).toNat = x.toNat >>> L.clkdivPos.toNat := by
  simp [Nat.mod_eq_of_lt (mask_pos L)]

theorem clkdivMax_toNat (L : Layout) : (L.clkdiv >>> L.clkdivPos).toNat = L.clkdivMax := by
  rw [shiftRight_toNat, L.clkdiv_eq, Nat.shiftLeft_shiftRight]
  rfl

theorem field_written (L : Layout) {x : UInt32} (hx : x.toNat ≤ L.clkdivMax) (width : BusWidth) :
    (((L.negedge ||| L.pwrsav ||| L.hwfcEn ||| x <<< L.clkdivPos ||| widbus width <<< L.widbusPos) &&&
      L.clkdiv) >>> L.clkdivPos).toNat = x.toNat := by
  have hwidbus : widbus width <<< L.widbusPos &&& L.clkdiv = 0 := by
    apply L.widbus_outside
    cases width <;> decide
  have hfield : (L.negedge ||| L.pwrsav ||| L.hwfcEn ||| x <<< L.clkdivPos |||
      widbus width <<< L.widbusPos) &&& L.clkdiv = x <<< L.clkdivPos &&& L.clkdiv := by
    rw [Masks.or_and, Masks.or_and, L.flags_outside, hwidbus]
    simp
  have hmask : x.toNat &&& (2 ^ L.width - 1) = x.toNat := by
    rw [Nat.and_two_pow_sub_one_eq_mod]
    apply Nat.mod_eq_of_lt
    have := Nat.two_pow_pos L.width
    unfold Layout.clkdivMax at hx
    omega
  rw [hfield, shiftRight_toNat, UInt32.toNat_and, shiftLeft_toNat L hx, L.clkdiv_eq,
    ← Nat.shiftLeft_and_distrib, Nat.shiftLeft_shiftRight, hmask]

/-- `howmany` rounds up, unless the sum does not fit into 32 bits: then the quotient is zero. -/
theorem howmany_toNat {x y n : UInt32} (h : howmany x y = some n) :
    n.toNat = if x.toNat + y.toNat - 1 < 2 ^ 32 then x.toNat ⌈/⌉ y.toNat else 0 := by
  unfold howmany at h
  split at h
  · cases h
  · rename_i hy
    injection h with h
    have hpos : 0 < y.toNat := by
      rw [Nat.pos_iff_ne_zero]
      intro h0
      exact hy (UInt32.toNat.inj h0)
    have hx := x.toNat_lt
    have hone : (1 : UInt32) ≤ y := by
      exact hpos
    subst h
    rw [UInt32.toNat_div, UInt32.toNat_add, UInt32.toNat_sub_of_le _ _ hone]
    have hsub : y.toNat - UInt32.toNat 1 = y.toNat - 1 := rfl
    rw [hsub, Nat.ceilDiv_eq_add_pred_div]
    split
    · rw [Nat.mod_eq_of_lt (by omega), Nat.add_sub_assoc hpos]
    · apply Nat.div_eq_of_lt
      omega

def wanted (kerCk freq : UInt32) : ℕ :=
  (if kerCk.toNat + freq.toNat - 1 < 2 ^ 32 then kerCk.toNat ⌈/⌉ freq.toNat else 0) / 2

/-- There is a result for every frequency but zero, and the divider in it is the wanted one, limited to the
    field. -/
theorem setClockAndBus_divider (L : Layout) (sc : Softc) {freq : UInt32} (hf : freq ≠ 0)
    (width : BusWidth) :
    ∃ sc', setClockAndBus L sc freq width = some sc' ∧
      sc'.divider L = min (wanted sc.sdmmcKerCk freq) L.clkdivMax := by
  obtain ⟨n, hn⟩ : ∃ n, howmany sc.sdmmcKerCk freq = some n := ⟨_, if_neg hf⟩
  have hwanted : (n / 2).toNat = wanted sc.sdmmcKerCk freq := by
    rw [UInt32.toNat_div, howmany_toNat hn]
    rfl
  have hmax := clkdivMax_toNat L
  refine ⟨_, by rw [setClockAndBus, hn]; rfl, ?_⟩
  unfold Softc.divider
  split
  · grind [UInt32.lt_iff_toNat_lt, field_written]
  · grind [UInt32.lt_iff_toNat_lt, field_written]

/-! ## The clock of the card -/

theorem ratio_pos (div : ℕ) : 0 < ratio div := by
  unfold ratio
  split <;> omega

theorem ratio_of_pos {div : ℕ} (h : 0 < div) : ratio div = 2 * div := if_neg h.ne'

variable {kerCk freq : UInt32}

/-- A divider keeps the clock within the frequency exactly when its ratio is not below the quotient of the
    two, rounded up. -/
theorem cardClock_le_iff (hf : 0 < freq.toNat) (div : ℕ) :
    cardClock kerCk div ≤ freq.toNat ↔ kerCk.toNat ⌈/⌉ freq.toNat ≤ ratio div := by
  have hpos : (0 : ℚ) < ratio div := Nat.cast_pos.2 (ratio_pos div)
  unfold cardClock
  rw [div_le_iff₀ hpos, ceilDiv_le_iff_le_mul hf]
  norm_cast

theorem cardClock_anti (kerCk : UInt32) {a b : ℕ} (h : ratio a ≤ ratio b) :
    cardClock kerCk b ≤ cardClock kerCk a := by
  have hpos : (0 : ℚ) < ratio a := Nat.cast_pos.2 (ratio_pos a)
  exact div_le_div_of_nonneg_left (Nat.cast_nonneg _) hpos (Nat.cast_le.2 h)

theorem allowed_nonempty_iff (L : Layout) (hf : 0 < freq.toNat) :
    (allowed L kerCk freq).Nonempty ↔ kerCk.toNat ⌈/⌉ freq.toNat ≤ 2 * L.clkdivMax := by
  have hmax : 0 < L.clkdivMax := by
    have := Nat.pow_le_pow_right (show 0 < 2 by omega) L.width_pos
    unfold Layout.clkdivMax
    omega
  constructor
  · rintro ⟨_, hle, div, hdiv, rfl⟩
    have hle := (cardClock_le_iff hf div).1 hle
    unfold ratio at hle
    split at hle <;> omega
  · intro hle
    rw [← ratio_of_pos hmax] at hle
    exact ⟨_, (cardClock_le_iff hf _).2 hle, L.clkdivMax, le_rfl, rfl⟩

theorem greatest_of_least (L : Layout) (hf : 0 < freq.toNat) {div : ℕ}
    (hdiv : div ≤ L.clkdivMax) (hreach : kerCk.toNat ⌈/⌉ freq.toNat ≤ ratio div)
    (hleast : ∀ other, kerCk.toNat ⌈/⌉ freq.toNat ≤ ratio other → ratio div ≤ ratio other) :
    IsGreatest (allowed L kerCk freq) (cardClock kerCk div) := by
  refine ⟨⟨(cardClock_le_iff hf div).2 hreach, div, hdiv, rfl⟩, ?_⟩
  rintro _ ⟨hle, other, _, rfl⟩
  exact cardClock_anti kerCk (hleast other ((cardClock_le_iff hf other).1 hle))

/-- The kernel clock is at most the frequency, or no divider is large enough, or the quotient rounded up is
    even and `howmany` computes it. -/
def EvenQuotient (L : Layout) (kerCk freq : UInt32) : Prop :=
  kerCk.toNat ⌈/⌉ freq.toNat ≤ 1 ∨ 2 * L.clkdivMax < kerCk.toNat ⌈/⌉ freq.toNat ∨
    (2 ∣ kerCk.toNat ⌈/⌉ freq.toNat ∧ kerCk.toNat + freq.toNat - 1 < 2 ^ 32)

theorem greatest_iff (L : Layout) (hf : 0 < freq.toNat) :
    ((allowed L kerCk freq).Nonempty → IsGreatest (allowed L kerCk freq)
      (cardClock kerCk (min (wanted kerCk freq) L.clkdivMax))) ↔ EvenQuotient L kerCk freq := by
  rw [allowed_nonempty_iff L hf]
  unfold EvenQuotient
  have hwanted : wanted kerCk freq = kerCk.toNat ⌈/⌉ freq.toNat / 2 ∨ wanted kerCk freq = 0 := by
    unfold wanted
    split
    · exact .inl rfl
    · exact .inr rfl
  generalize hq : kerCk.toNat ⌈/⌉ freq.toNat = q at *
  constructor
  · intro h
    by_contra hno
    simp only [not_or, not_and, not_le, not_lt] at hno
    obtain ⟨hone, hreach, heven⟩ := hno
    have hle := (cardClock_le_iff hf _).1 (h hreach).1.1
    rw [hq] at hle
    -- The ratio that is programmed is below the quotient: one, or the quotient without its last bit.
    rcases hwanted with hw | hw
    · rw [hw, min_eq_left (by omega), ratio_of_pos (by omega)] at hle
      have hzero : wanted kerCk freq = 0 := by
        rw [wanted, if_neg (by omega)]
      omega
    · rw [hw, Nat.zero_min] at hle
      exact absurd (hone.trans_le hle) (lt_irrefl 1)
  · rintro (hone | hfar | ⟨heven, hfit⟩) hreach
    · have hzero : min (wanted kerCk freq) L.clkdivMax = 0 := by omega
      rw [hzero]
      exact greatest_of_least L hf (Nat.zero_le _) (hq ▸ hone) fun other _ => ratio_pos other
    · omega
    · by_cases hone : q ≤ 1
      · have hzero : min (wanted kerCk freq) L.clkdivMax = 0 := by omega
        rw [hzero]
        exact greatest_of_least L hf (Nat.zero_le _) (hq ▸ hone) fun other _ => ratio_pos other
      have hw : wanted kerCk freq = q / 2 := by rw [wanted, if_pos hfit, hq]
      grind [ratio_of_pos, greatest_of_least]

/-- One request of the clock is as expected exactly when the frequency is not zero and the kernel clock
    divided by it, rounded up, is even or not to be reached or not above one. -/
theorem setClockAndBus_ok_iff (L : Layout) (sc : Softc) (freq : UInt32) (width : BusWidth) :
    ClockOk L sc freq width ↔ freq ≠ 0 ∧ EvenQuotient L sc.sdmmcKerCk freq := by
  by_cases hf : freq = 0
  · subst hf
    constructor
    · rintro ⟨sc', hsome, _⟩
      cases hsome
    · rintro ⟨hne, _⟩
      exact absurd rfl hne
  have hpos : 0 < freq.toNat := by
    rw [Nat.pos_iff_ne_zero]
    intro h0
    exact hf (UInt32.toNat.inj h0)
  obtain ⟨sc', hsome, hdiv⟩ := setClockAndBus_divider L sc hf width
  grind [greatest_iff, ClockOk]

/-- `CLKCR` of the STM32H7: `CLKDIV` has the ten lowest bits. -/
def stm32h7 : Layout where
  negedge := 0x10000
  pwrsav := 0x1000
  hwfcEn := 0x20000
  clkdiv := 0x3ff
  clkdivPos := 0
  widbusPos := 14
  pwrctrl := 3
  width := 10
  width_pos := by decide
  fits := by decide
  clkdiv_eq := by decide
  flags_outside := by decide
  widbus_outside := by
    intro code hcode
    have hcases : code = 0 ∨ code = 1 ∨ code = 2 := by
      grind
    rcases hcases with rfl | rfl | rfl <;> decide

/-- With a kernel clock of 240 MHz a card that allows 50 MHz gets 60 MHz, and the power down of the MMC
    layer, which requests the frequency zero, divides by zero. -/
theorem setClockAndBus_overclocks :
    (∃ sc', setClockAndBus stm32h7 ⟨240000000, ⟨50000000, .four, .on⟩, 0, 0⟩ 50000000 .four = some sc' ∧
      sc'.divider stm32h7 = 2 ∧ cardClock 240000000 2 = 60000000) ∧
    ¬ ClockOk stm32h7 ⟨240000000, ⟨50000000, .four, .on⟩, 0, 0⟩ 50000000 .four ∧
    ¬ ClockOk stm32h7 ⟨240000000, ⟨0, .one, .off⟩, 0, 0⟩ 0 .one ∧
    updateIos stm32h7 ⟨240000000, ⟨0, .one, .off⟩, 0, 0⟩ = none := by
  have hquot : (240000000 : UInt32).toNat ⌈/⌉ (50000000 : UInt32).toNat = 5 := by decide
  have hkerCk : (240000000 : UInt32).toNat = 240000000 := rfl
  refine ⟨⟨_, rfl, by decide, ?_⟩, ?_, ?_, rfl⟩
  · norm_num [cardClock, ratio, hkerCk]
  · rintro ⟨sc', hsome, hok⟩
    injection hsome with hsome
    have hreach : (allowed stm32h7 240000000 50000000).Nonempty := by
      rw [allowed_nonempty_iff stm32h7 (by decide), hquot]
      decide
    have hle := (hok (by decide) hreach).1.1
    rw [cardClock_le_iff (by decide), hquot, ← hsome] at hle
    exact absurd hle (by decide)
  · rintro ⟨sc', hsome, _⟩
    cases hsome

end RtemsLibbsd.Sdmmc
