import Mathlib.Algebra.Order.Ring.Int
import Mathlib.Data.Int.Init

/-!
# The expiry of a sleep

Model of the arithmetic of `sleepq_set_timeout_sbt`: fixed-point times in 64 bits are converted to clock ticks.

* `Call` — the arguments, with the length of a tick and the current tick count.
* `expire` — the tick count for `_Watchdog_Insert`; `intermediates` are the values on the way to it.
* `Meets` — nothing overflows or is negative, and the tick is the least one that is not too early.
* `Wait` — the caller `sleepq_set_timeout`.

`expiry_exact_iff`: this is so for calls that are not in the first second of the uptime, not too early and not too late.
-/

namespace RtemsLibbsd.Sleepqueue.Timeout

/-- `SBT_1S` of `sbintime_t`. -/
def SBT_1S : Int := 2 ^ 32

/-- `absolute` is `C_ABSOLUTE`, `ticks` is `cpu_self->Watchdog.ticks`. -/
structure Call where
  sbt : Int
  sbtPerTick : Int
  ticks : Nat
  absolute : Bool
  sbt_range : -2 ^ 63 ≤ sbt ∧ sbt < 2 ^ 63
  tick_range : 0 < sbtPerTick ∧ sbtPerTick < 2 ^ 63
  ticks_range : ticks < 2 ^ 64

def wrap (x : Int) : Int := x.bmod (2 ^ 64)

/-- The conversion to `uint64_t`. -/
def toUint64 (x : Int) : Nat := (x % 2 ^ 64).toNat

variable (c : Call)

def Call.start : Int := if c.absolute then wrap (c.sbt - SBT_1S) else c.sbt

def Call.quotient : Int := (wrap (wrap (c.start + c.sbtPerTick) - 1)).tdiv c.sbtPerTick

def Call.expire : Nat :=
  if c.absolute then toUint64 c.quotient else (toUint64 c.quotient + c.ticks) % 2 ^ 64

/-- What is computed before the conversion, without the wrapping. -/
def Call.intermediates : List Int :=
  (if c.absolute then [c.sbt - SBT_1S] else []) ++
    [c.start + c.sbtPerTick, c.start + c.sbtPerTick - 1, c.quotient]

/-- The time of a tick: of the uptime, which starts at one second, or since the current tick. -/
def Call.time (n : Nat) : Int :=
  if c.absolute then SBT_1S + n * c.sbtPerTick else (n - c.ticks) * c.sbtPerTick

structure Call.Meets : Prop where
  exact : ∀ x ∈ c.intermediates, 0 ≤ x ∧ x < 2 ^ 63
  unsigned : c.absolute = false → toUint64 c.quotient + c.ticks < 2 ^ 64
  reached : c.sbt ≤ c.time c.expire
  least : ∀ n < c.expire, c.time n < c.sbt
  passed : c.absolute = true → c.sbt ≤ c.time c.ticks → c.expire ≤ c.ticks

/-- An absolute time is not in the first second; the time and a tick more can be represented. -/
def Call.Fits : Prop :=
  if c.absolute then SBT_1S ≤ c.sbt ∧ c.sbt - SBT_1S + c.sbtPerTick < 2 ^ 63
  else 0 < c.sbt + c.sbtPerTick ∧ c.sbt + c.sbtPerTick < 2 ^ 63 ∧
    (c.sbt + c.sbtPerTick - 1) / c.sbtPerTick + c.ticks < 2 ^ 64

theorem wrap_eq {x : Int} (h : 0 ≤ x ∧ x < 2 ^ 63) : wrap x = x := by
  refine Int.bmod_eq_of_le ?_ ?_ <;> omega

theorem toUint64_eq {x : Int} (h : 0 ≤ x ∧ x < 2 ^ 63) : (toUint64 x : Int) = x := by
  unfold toUint64
  omega

theorem roundUp_spec {d k : Int} (hk : 0 < k) :
    d ≤ (d + k - 1) / k * k ∧ ∀ n < (d + k - 1) / k, n * k < d := by
  have hle := Int.ediv_mul_le (d + k - 1) hk.ne'
  have hlt := Int.lt_ediv_add_one_mul_self (d + k - 1) hk
  rw [Int.add_mul] at hlt
  refine ⟨by omega, fun n hn => ?_⟩
  have hmul : (n + 1) * k ≤ (d + k - 1) / k * k := Int.mul_le_mul_of_nonneg_right hn hk.le
  rw [Int.add_mul] at hmul
  omega

variable {c}

theorem quotient_eq (hs : 0 ≤ c.start + c.sbtPerTick - 1) (hs' : c.start + c.sbtPerTick < 2 ^ 63) :
    c.quotient = (c.start + c.sbtPerTick - 1) / c.sbtPerTick ∧ 0 ≤ c.quotient ∧ c.quotient < 2 ^ 63 := by
  have hq : c.quotient = (c.start + c.sbtPerTick - 1) / c.sbtPerTick := by
    rw [Call.quotient, wrap_eq (x := c.start + c.sbtPerTick) (by omega), wrap_eq (by omega),
      Int.tdiv_eq_ediv_of_nonneg hs]
  have hle := Int.ediv_le_self c.sbtPerTick hs
  exact ⟨hq, hq ▸ Int.ediv_nonneg hs c.tick_range.1.le, by omega⟩

theorem Call.Meets.fits (h : c.Meets) : c.Fits := by
  have hexact := h.exact
  unfold Call.intermediates at hexact
  cases ha : c.absolute with
  | true =>
    have h0 := hexact (c.sbt - SBT_1S) (by simp [ha])
    have h1 := hexact (c.start + c.sbtPerTick) (by simp)
    rw [Call.start, ha, if_pos rfl, wrap_eq h0] at h1
    rw [Call.Fits, ha, if_pos rfl]
    omega
  | false =>
    have h1 := hexact (c.start + c.sbtPerTick) (by simp)
    have h2 := hexact (c.start + c.sbtPerTick - 1) (by simp)
    have hq := quotient_eq h2.1 h1.2
    have hu := h.unsigned ha
    have hcast := toUint64_eq hq.2
    rw [Call.start, ha] at h1 h2 hq
    rw [Call.Fits, ha]
    simp only [Bool.false_eq_true, if_false] at *
    omega

theorem Call.Fits.meets (h : c.Fits) : c.Meets := by
  have htick := c.tick_range
  have hsbt := c.sbt_range
  have hticks := c.ticks_range
  cases ha : c.absolute with
  | true =>
    rw [Call.Fits, ha, if_pos rfl] at h
    have hstart : c.start = c.sbt - SBT_1S := by
      rw [Call.start, ha, if_pos rfl, wrap_eq]
      omega
    obtain ⟨hq, hq0, hq1⟩ := quotient_eq (c := c) (by omega) (by omega)
    have hcast := toUint64_eq ⟨hq0, hq1⟩
    have hexp : (c.expire : Int) = c.quotient := by rw [Call.expire, ha, if_pos rfl, hcast]
    have hround := roundUp_spec (d := c.start) htick.1
    rw [← hq] at hround
    have htime : ∀ n, c.time n = SBT_1S + n * c.sbtPerTick := fun n => by rw [Call.time, ha, if_pos rfl]
    have hleast : ∀ n < c.expire, c.time n < c.sbt := by
      intro n hn
      have := hround.2 n (by omega)
      rw [htime]
      omega
    refine ⟨?_, ?_, ?_, hleast, ?_⟩
    · intro x hx
      rw [Call.intermediates, ha, if_pos rfl, List.singleton_append] at hx
      simp only [List.mem_cons, List.not_mem_nil, or_false] at hx
      rcases hx with rfl | rfl | rfl | rfl <;> omega
    · simp [ha]
    · rw [htime, hexp]
      omega
    · intro _ hpassed
      by_contra hno
      have := hleast c.ticks (by omega)
      omega
  | false =>
    rw [Call.Fits, ha, if_neg (by simp)] at h
    have hstart : c.start = c.sbt := by rw [Call.start, ha, if_neg (by simp)]
    obtain ⟨hq, hq0, hq1⟩ := quotient_eq (c := c) (by omega) (by omega)
    have hcast := toUint64_eq ⟨hq0, hq1⟩
    rw [hstart] at hq
    have hsum : toUint64 c.quotient + c.ticks < 2 ^ 64 := by omega
    have hexp : (c.expire : Int) = c.quotient + c.ticks := by
      rw [Call.expire, ha, if_neg (by simp), Nat.mod_eq_of_lt hsum]
      omega
    have hround := roundUp_spec (d := c.sbt) htick.1
    rw [← hq] at hround
    have htime : ∀ n, c.time n = (n - c.ticks) * c.sbtPerTick := fun n => by rw [Call.time, ha, if_neg (by simp)]
    refine ⟨?_, fun _ => hsum, ?_, ?_, by simp [ha]⟩
    · intro x hx
      rw [Call.intermediates, ha, if_neg (by simp), List.nil_append] at hx
      simp only [List.mem_cons, List.not_mem_nil, or_false] at hx
      rcases hx with rfl | rfl | rfl <;> omega
    · rw [htime, hexp, Int.add_sub_cancel]
      exact hround.1
    · intro n hn
      rw [htime]
      exact hround.2 (n - c.ticks) (by omega)

/-- **The calls whose expiry is exact**. -/
theorem expiry_exact_iff (c : Call) : c.Meets ↔ c.Fits := ⟨Call.Meets.fits, Call.Fits.meets⟩

/-- An absolute time in the first second, with ticks of one millisecond. -/
def firstSecond : Call := ⟨0, 2 ^ 32 / 1000, 5000, true, by decide, by decide, by decide⟩

/-- Its expiry is the last but 998 of all tick counts. -/
theorem firstSecond_never : firstSecond.expire = 2 ^ 64 - 999 ∧ ¬firstSecond.Meets := by
  have he : firstSecond.expire = 2 ^ 64 - 999 := by decide
  refine ⟨he, fun h => ?_⟩
  have := h.passed rfl (by decide)
  rw [he] at this
  exact absurd this (by decide)

/-! ## Sleeps for a number of libbsd ticks -/

/-- `sleepq_set_timeout(wchan, timo)`; the libbsd ticks are limited to 100 in a second. -/
structure Wait where
  tps : Nat
  timo : Nat
  ticks : Nat
  tps_range : 1 ≤ tps ∧ tps < 2 ^ 31
  timo_range : 1 ≤ timo ∧ timo < 2 ^ 31
  ticks_range : ticks < 2 ^ 63

def Wait.tickSbt (w : Wait) : Nat := 2 ^ 32 / min 100 w.tps

theorem Wait.tickSbt_le (w : Wait) : w.tickSbt ≤ 2 ^ 32 ∧ (2 ≤ w.tps → w.tickSbt ≤ 2 ^ 31) :=
  ⟨Nat.div_le_self _ _, fun h => Nat.div_le_div_left (b := min 100 w.tps) (c := 2) (by omega) (by omega)⟩

theorem Wait.perTick (w : Wait) : 1 ≤ 2 ^ 32 / w.tps ∧ 2 ^ 32 / w.tps ≤ w.tickSbt := by
  have := w.tps_range
  exact ⟨Nat.div_pos (by omega) (by omega), Nat.div_le_div_left (by omega) (by omega)⟩

theorem Wait.sbt_le (w : Wait) : w.tickSbt * w.timo ≤ 2 ^ 32 * (2 ^ 31 - 1) := by
  have := w.timo_range
  exact Nat.mul_le_mul w.tickSbt_le.1 (by omega)

def Wait.toCall (w : Wait) : Call where
  sbt := (w.tickSbt * w.timo : Nat)
  sbtPerTick := (2 ^ 32 / w.tps : Nat)
  ticks := w.ticks
  absolute := false
  sbt_range := by
    have := w.sbt_le
    omega
  tick_range := by
    have := w.perTick
    have := w.tickSbt_le
    omega
  ticks_range := by
    have := w.ticks_range
    omega

/-- **Every sleep for a number of ticks ends at the right tick**, but for the longest one at one tick in a second;
    when the ticks of libbsd are those of the clock, it ends after as many of them. -/
theorem wait_exact (w : Wait) : (w.toCall.Meets ↔ ¬(w.tps = 1 ∧ w.timo = 2 ^ 31 - 1)) ∧
    (w.tps ≤ 100 → ¬(w.tps = 1 ∧ w.timo = 2 ^ 31 - 1) → w.toCall.expire = w.ticks + w.timo) := by
  have htps := w.tps_range
  have htimo := w.timo_range
  have hticks := w.ticks_range
  have hper := w.perTick
  have htick := w.tickSbt_le
  have hiff : w.toCall.Meets ↔ ¬(w.tps = 1 ∧ w.timo = 2 ^ 31 - 1) := by
    have hquot := Int.ediv_le_self (w.toCall.sbtPerTick) (a := w.toCall.sbt + w.toCall.sbtPerTick - 1)
    have hfits : w.toCall.Meets ↔ w.toCall.Fits := ⟨Call.Meets.fits, Call.Fits.meets⟩
    rw [hfits, Call.Fits, if_neg (by simp [Wait.toCall])]
    simp only [Wait.toCall] at *
    by_cases h1 : w.tps = 1
    · have h32 : w.tickSbt = 2 ^ 32 := by rw [Wait.tickSbt, h1]; rfl
      rw [h32, h1] at *
      omega
    · have := htick.2 (by omega)
      have := Nat.mul_le_mul this (show w.timo ≤ 2 ^ 31 by omega)
      omega
  refine ⟨hiff, fun hle hno => ?_⟩
  have hm := hiff.mpr hno
  have heq : 2 ^ 32 / w.tps = w.tickSbt := by rw [Wait.tickSbt, Nat.min_eq_right hle]
  have htime : ∀ n, w.toCall.time n = (n - w.ticks) * w.tickSbt := fun n => by
    simp only [Call.time, Wait.toCall, Bool.false_eq_true, if_false, heq]
  have hsbt : w.toCall.sbt = w.timo * w.tickSbt := by simp [Wait.toCall, mul_comm]
  have hpos : (0 : Int) < w.tickSbt := by omega
  have hreached := hm.reached
  have hleast := hm.least (w.ticks + w.timo)
  rw [htime, hsbt] at hreached hleast
  have hge := le_of_mul_le_mul_right hreached hpos
  by_contra hne
  have := hleast (by omega)
  simp at this

/-- Ten ticks of a clock with 100 ticks in a second, at tick 5000. -/
def tenTicks : Wait := ⟨100, 10, 5000, by decide, by decide, by decide⟩

theorem wait_exact_tenTicks : tenTicks.toCall.Meets ∧ tenTicks.toCall.expire = 5010 :=
  ⟨(wait_exact tenTicks).1.mpr (by decide), (wait_exact tenTicks).2 (by decide) (by decide)⟩

end RtemsLibbsd.Sleepqueue.Timeout
