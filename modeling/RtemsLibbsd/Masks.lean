import Mathlib.Algebra.Group.Nat.Defs
import Mathlib.Algebra.Order.Floor.Div
import Mathlib.Data.Nat.Bitwise

/-!
# Masks of low bits

Code that rounds to a power of two sets the low bits of a word with a mask, or clears them with its complement.
In terms of arithmetic, `or_mask` is the end of a block less one, `and_complement` is the start of a block, and
`roundup` is the next multiple `x ⌈/⌉ n * n`.  The other lemmas are about this multiple.
-/

namespace RtemsLibbsd.Masks

theorem or_mask (k x : Nat) : x ||| (2 ^ k - 1) = x / 2 ^ k * 2 ^ k + (2 ^ k - 1) := by
  have hpos : 0 < 2 ^ k := Nat.two_pow_pos k
  have hdiv : (x ||| (2 ^ k - 1)) / 2 ^ k = x / 2 ^ k := by
    simp [Nat.or_div_two_pow, Nat.div_eq_of_lt (Nat.sub_lt hpos Nat.one_pos)]
  have hmod : (x ||| (2 ^ k - 1)) % 2 ^ k = 2 ^ k - 1 := by
    apply Nat.eq_of_testBit_eq
    intro i
    grind
  calc x ||| (2 ^ k - 1)
      = (x ||| (2 ^ k - 1)) / 2 ^ k * 2 ^ k + (x ||| (2 ^ k - 1)) % 2 ^ k :=
        (Nat.div_add_mod' _ _).symm
    _ = x / 2 ^ k * 2 ^ k + (2 ^ k - 1) := by rw [hdiv, hmod]

theorem and_complement {k w x : Nat} (hk : k ≤ w) (hx : x < 2 ^ w) :
    x &&& (2 ^ w - 1 - (2 ^ k - 1)) = x / 2 ^ k * 2 ^ k := by
  have hle : 2 ^ k ≤ 2 ^ w := Nat.pow_le_pow_right (by omega) hk
  have hmask : 2 ^ w - 1 - (2 ^ k - 1) = 2 ^ w - ((2 ^ k - 1) + 1) := by omega
  have hbelow : 2 ^ k - 1 < 2 ^ w := by omega
  apply Nat.eq_of_testBit_eq
  intro i
  rw [hmask, Nat.testBit_and, Nat.testBit_two_pow_sub_succ hbelow, Nat.testBit_two_pow_sub_one,
    Nat.testBit_mul_two_pow, Nat.testBit_div_two_pow]
  by_cases hik : i < k
  · simp [hik]
  · have hki : k ≤ i := by omega
    rw [Nat.sub_add_cancel hki]
    by_cases hiw : i < w
    · simp [hik, hki, hiw]
    · have hbit : x.testBit i = false :=
        Nat.testBit_lt_two_pow (lt_of_lt_of_le hx (Nat.pow_le_pow_right (by omega) (by omega)))
      simp [hbit]

theorem roundup {k w x : Nat} (hk : k ≤ w) (hx : x + (2 ^ k - 1) < 2 ^ w) :
    (x + (2 ^ k - 1)) % 2 ^ w &&& (2 ^ w - 1 - (2 ^ k - 1)) = x ⌈/⌉ 2 ^ k * 2 ^ k := by
  have hpos : 0 < 2 ^ k := Nat.two_pow_pos k
  rw [Nat.mod_eq_of_lt hx, and_complement hk hx, Nat.ceilDiv_eq_add_pred_div, Nat.add_sub_assoc hpos]

theorem ceilDiv_mul_of_dvd {n x : Nat} (hn : 0 < n) (h : n ∣ x) : x ⌈/⌉ n * n = x := by
  obtain ⟨q, rfl⟩ := h
  rw [Nat.ceilDiv_eq_add_pred_div, Nat.add_sub_assoc hn, Nat.mul_add_div hn,
    Nat.div_eq_of_lt (Nat.sub_lt hn Nat.one_pos), Nat.add_zero, Nat.mul_comm]

theorem ceilDiv_mul_of_mod_ne {n x : Nat} (hn : 0 < n) (h : x % n ≠ 0) : x ⌈/⌉ n * n = x / n * n + n := by
  have hr : (x % n + (n - 1)) / n = 1 := by
    rw [Nat.div_eq_iff hn]
    have := Nat.mod_lt x hn
    omega
  have hsplit : x + (n - 1) = n * (x / n) + (x % n + (n - 1)) := by
    have := Nat.div_add_mod x n
    omega
  rw [Nat.ceilDiv_eq_add_pred_div, Nat.add_sub_assoc hn, hsplit, Nat.mul_add_div hn, hr, Nat.add_mul, Nat.one_mul]

theorem le_ceilDiv_mul {n : Nat} (hn : 0 < n) (x : Nat) : x ≤ x ⌈/⌉ n * n := by
  rw [Nat.mul_comm]
  exact le_smul_ceilDiv hn

theorem ceilDiv_mul_le {n x m : Nat} (hn : 0 < n) (hm : n ∣ m) (h : x ≤ m) : x ⌈/⌉ n * n ≤ m := by
  obtain ⟨q, rfl⟩ := hm
  rw [Nat.mul_comm n q]
  exact Nat.mul_le_mul_right n ((ceilDiv_le_iff_le_mul hn).mpr (Nat.mul_comm n q ▸ h))

theorem or_and (a b m : UInt32) : (a ||| b) &&& m = (a &&& m) ||| (b &&& m) := by
  apply UInt32.toNat.inj
  simp [Nat.and_or_distrib_right]

end RtemsLibbsd.Masks
