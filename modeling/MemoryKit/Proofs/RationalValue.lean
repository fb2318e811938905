import Mathlib.Algebra.Order.Field.Power
import Mathlib.Algebra.Order.Ring.Rat
import Mathlib.Tactic.FieldSimp
import Mathlib.Tactic.Linarith
import Mathlib.Tactic.NormNum
import Mathlib.Tactic.Positivity
import Mathlib.Tactic.Ring
import MemoryKit.Number.Shortest

/-!
# Decimals and magnitudes as rational numbers

A decimal stands for its digits times a power of ten, and a finite magnitude of a binary format for
its significand times a power of two. The values of a format grow with its magnitudes; the infinity
takes part as the value that would follow the largest finite one.
-/

namespace MemoryKit.Number

-- powers of naturals are those of the core library, whatever else is imported
attribute [local instance (high)] instPowNat

/-! ## 1. Powers with integer exponents -/

theorem zpow_eq_div_toNat (b : ℚ) (e : Int) : b ^ e = b ^ e.toNat / b ^ (-e).toNat := by
  rcases Int.le_total 0 e with he | he
  · rw [show (-e).toNat = 0 by omega, pow_zero, div_one, ← zpow_natCast, Int.toNat_of_nonneg he]
  · rw [show e.toNat = 0 by omega, pow_zero, one_div, ← zpow_natCast,
      Int.toNat_of_nonneg (by omega), zpow_neg, inv_inv]

namespace Decimal

/-! ## 2. Decimals -/

def value (d : Decimal) : ℚ :=
  d.digits * 10 ^ d.exponent

theorem denominator_pos (d : Decimal) : 0 < d.denominator :=
  Nat.pow_pos (by decide)

theorem numerator_div_denominator (d : Decimal) : (d.numerator : ℚ) / d.denominator = d.value := by
  unfold numerator denominator value
  rw [zpow_eq_div_toNat 10 d.exponent]
  push_cast
  ring

end Decimal

namespace BinaryFormat

variable (f : BinaryFormat)

/-! ## 3. Magnitudes -/

def value (magnitude : Nat) : ℚ :=
  f.significand magnitude * 2 ^ f.exponent magnitude

theorem binade_pos : 0 < f.binade :=
  Nat.two_pow_pos _

/-- A magnitude as a number of binades above the least and a significand. -/
theorem value_add {k s : Nat} (hs : s ≤ 2 * f.binade) (hk : k = 0 ∨ f.binade ≤ s) :
    f.value (k * f.binade + s) = s * 2 ^ (f.leastExponent + k) := by
  have hpos := f.binade_pos
  unfold value significand exponent
  by_cases hlow : s < f.binade
  · -- below the first full binade
    obtain rfl : k = 0 := by omega
    rw [Nat.zero_mul, Nat.zero_add, if_pos hlow, if_pos hlow, Nat.cast_zero, add_zero]
  · have hle : f.binade ≤ k * f.binade + s := by omega
    rw [if_neg (by omega), if_neg (by omega)]
    by_cases htop : s < 2 * f.binade
    · obtain ⟨r, rfl⟩ : ∃ r, s = f.binade + r := ⟨s - f.binade, by omega⟩
      have hr : r < f.binade := by omega
      have hsum : k * f.binade + (f.binade + r) = r + f.binade * (k + 1) := by ring
      rw [hsum, Nat.add_mul_mod_self_left, Nat.add_mul_div_left _ _ hpos, Nat.mod_eq_of_lt hr,
        Nat.div_eq_of_lt hr]
      congr 2
      push_cast
      ring
    · -- the first magnitude of the next binade
      obtain rfl : s = 2 * f.binade := by omega
      have hsum : k * f.binade + 2 * f.binade = f.binade * (k + 2) := by ring
      rw [hsum, Nat.mul_mod_right, Nat.mul_div_cancel_left _ hpos, Nat.add_zero]
      have hexp : f.leastExponent + ((k + 2 : Nat) : Int) - 1 = (f.leastExponent + k) + 1 := by
        push_cast
        ring
      rw [hexp, zpow_add_one₀ two_ne_zero]
      push_cast
      ring

/-- A magnitude is a binade and a place in it. -/
theorem exists_eq_add (m : Nat) :
    ∃ k s, m = k * f.binade + s ∧ s < 2 * f.binade ∧ (k = 0 ∨ f.binade ≤ s) := by
  have hpos := f.binade_pos
  by_cases hlow : m < f.binade
  · exact ⟨0, m, by omega, by omega, Or.inl rfl⟩
  · have hmod : m % f.binade < f.binade := Nat.mod_lt _ hpos
    have hdiv : 1 ≤ m / f.binade := (Nat.one_le_div_iff hpos).2 (by omega)
    refine ⟨m / f.binade - 1, f.binade + m % f.binade, ?_, by omega, Or.inr (by omega)⟩
    have hsplit := Nat.div_add_mod' m f.binade
    have hone : (m / f.binade - 1) * f.binade + f.binade = m / f.binade * f.binade := by
      rw [← Nat.succ_mul, Nat.succ_eq_add_one, Nat.sub_add_cancel hdiv]
    omega

/-- A larger magnitude is a larger number. -/
theorem value_strictMono : StrictMono f.value := by
  apply strictMono_nat_of_lt_succ
  intro m
  obtain ⟨k, s, rfl, hs, hk⟩ := f.exists_eq_add m
  rw [f.value_add (by omega) hk, Nat.add_assoc, f.value_add (by omega) (by omega)]
  apply mul_lt_mul_of_pos_right
  · exact_mod_cast Nat.lt_succ_self s
  · exact zpow_pos two_pos _

theorem value_zero : f.value 0 = 0 := by
  have hzero := f.value_add (k := 0) (s := 0) (Nat.zero_le _) (Or.inl rfl)
  rwa [Nat.zero_mul, Nat.cast_zero, zero_mul] at hzero

theorem value_pos {m : Nat} (hm : 0 < m) : 0 < f.value m := by
  rw [← f.value_zero]
  exact f.value_strictMono hm

/-! ## 4. Exact ratios -/

theorem snd_scaledRatio_pos (m : Nat) (grid : Int) : 0 < (f.scaledRatio m grid).2 :=
  Nat.mul_pos (Nat.two_pow_pos _) (Nat.pow_pos (by decide))

/-- The scaled ratio is the number in units of the grid. -/
theorem scaledRatio_div (m : Nat) (grid : Int) :
    ((f.scaledRatio m grid).1 : ℚ) / (f.scaledRatio m grid).2 = f.value m / 10 ^ grid := by
  unfold scaledRatio value
  rw [zpow_eq_div_toNat 2 (f.exponent m), zpow_eq_div_toNat 10 grid]
  push_cast
  field_simp

/-- Every magnitude has a decimal that is just its number. -/
theorem value_exactDecimal (m : Nat) : (f.exactDecimal m).value = f.value m := by
  unfold exactDecimal Decimal.value value
  by_cases hq : 0 ≤ f.exponent m
  · simp only [if_pos hq]
    rw [zpow_zero, mul_one, zpow_eq_div_toNat 2 (f.exponent m),
      show (-f.exponent m).toNat = 0 by omega]
    push_cast
    ring
  · simp only [if_neg hq]
    rw [zpow_eq_div_toNat 2 (f.exponent m), zpow_eq_div_toNat 10 (f.exponent m),
      show (f.exponent m).toNat = 0 by omega]
    have hten : (10 : ℚ) ^ (-f.exponent m).toNat =
        2 ^ (-f.exponent m).toNat * 5 ^ (-f.exponent m).toNat := by
      rw [← mul_pow]
      norm_num
    rw [hten]
    push_cast
    field_simp

end BinaryFormat

end MemoryKit.Number
