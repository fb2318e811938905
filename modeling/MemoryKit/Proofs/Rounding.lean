import Mathlib.Data.Nat.Cast.Order.Field
import MemoryKit.Proofs.RationalValue

/-!
# Rounding to nearest

A decimal is read as the magnitude whose value is nearest to it, and halfway between two values as
the even one. The infinity takes part with the value that follows the largest finite one, so what
lies at or past the middle between the two overflows.
-/

namespace MemoryKit.Number

-- powers of naturals are those of the core library, whatever else is imported
attribute [local instance (high)] instPowNat

/-! ## 1. The nearer of two numbers -/

section Nearer

variable {a b x : ℚ} (hab : a < b)
include hab

theorem abs_sub_le_abs_sub_iff : |a - x| ≤ |b - x| ↔ 2 * x ≤ a + b := by
  have hsquares : (b - x) ^ 2 - (a - x) ^ 2 = (b - a) * (a + b - 2 * x) := by ring
  rw [← sq_le_sq, ← sub_nonneg, hsquares, mul_nonneg_iff_of_pos_left (sub_pos.2 hab), sub_nonneg]

theorem abs_sub_ge_abs_sub_iff : |b - x| ≤ |a - x| ↔ a + b ≤ 2 * x := by
  have hsquares : (a - x) ^ 2 - (b - x) ^ 2 = (b - a) * (2 * x - (a + b)) := by ring
  rw [← sq_le_sq, ← sub_nonneg, hsquares, mul_nonneg_iff_of_pos_left (sub_pos.2 hab), sub_nonneg]

theorem abs_sub_eq_abs_sub_iff : |a - x| = |b - x| ↔ 2 * x = a + b := by
  rw [le_antisymm_iff, le_antisymm_iff, abs_sub_le_abs_sub_iff hab, abs_sub_ge_abs_sub_iff hab]

end Nearer

namespace BinaryFormat

variable {f : BinaryFormat} {x y z : ℚ} {m n : Nat}

/-! ## 2. The nearest magnitude -/

/-- No value is nearer to a rational number than that of the magnitude, and another is as near only
if the magnitude is even. -/
structure IsNearest (f : BinaryFormat) (x : ℚ) (m : Nat) : Prop where
  le_infinity : m ≤ f.infinity
  nearest : ∀ n ≤ f.infinity, |f.value m - x| ≤ |f.value n - x|
  even : ∀ n ≤ f.infinity, n ≠ m → |f.value m - x| = |f.value n - x| → Even m

/-- The numbers that are nearest to a magnitude lie between the middles to all other values. -/
theorem isNearest_iff : f.IsNearest x m ↔ m ≤ f.infinity ∧
    (∀ n < m, f.value n + f.value m ≤ 2 * x ∧ (2 * x = f.value n + f.value m → Even m)) ∧
    ∀ n ≤ f.infinity, m < n →
      2 * x ≤ f.value m + f.value n ∧ (2 * x = f.value m + f.value n → Even m) := by
  constructor
  · intro h
    have hle := h.le_infinity
    refine ⟨hle, fun n hn => ?_, fun n hn hlt => ?_⟩
    · have hmono : f.value n < f.value m := f.value_strictMono hn
      refine ⟨(abs_sub_ge_abs_sub_iff hmono).1 (h.nearest n (by omega)), fun heq => ?_⟩
      exact h.even n (by omega) (by omega) ((abs_sub_eq_abs_sub_iff hmono).2 heq).symm
    · have hmono : f.value m < f.value n := f.value_strictMono hlt
      refine ⟨(abs_sub_le_abs_sub_iff hmono).1 (h.nearest n hn), fun heq => ?_⟩
      exact h.even n hn (by omega) ((abs_sub_eq_abs_sub_iff hmono).2 heq)
  · rintro ⟨hle, hbelow, habove⟩
    refine ⟨hle, fun n hn => ?_, fun n hn hne heq => ?_⟩
    · rcases Nat.lt_trichotomy n m with hlt | rfl | hlt
      · exact (abs_sub_ge_abs_sub_iff (f.value_strictMono hlt)).2 (hbelow n hlt).1
      · exact le_rfl
      · exact (abs_sub_le_abs_sub_iff (f.value_strictMono hlt)).2 (habove n hn hlt).1
    · rcases Nat.lt_or_gt_of_ne hne with hlt | hlt
      · exact (hbelow n hlt).2 ((abs_sub_eq_abs_sub_iff (f.value_strictMono hlt)).1 heq.symm)
      · exact (habove n hn hlt).2 ((abs_sub_eq_abs_sub_iff (f.value_strictMono hlt)).1 heq)

/-- Between two even magnitudes stands another one, and its value is nearer to the middle. -/
theorem IsNearest.not_lt (hm : f.IsNearest x m) (hn : f.IsNearest x n) : ¬m < n := by
  intro hlt
  obtain ⟨-, -, habove⟩ := isNearest_iff.1 hm
  obtain ⟨hle, hbelow, -⟩ := isNearest_iff.1 hn
  have hmiddle : 2 * x = f.value m + f.value n :=
    le_antisymm (habove n hle hlt).1 (hbelow m hlt).1
  have hnext : m + 1 < n := by
    obtain ⟨i, rfl⟩ := (habove n hle hlt).2 hmiddle
    obtain ⟨j, rfl⟩ := (hbelow (i + i) hlt).2 hmiddle
    omega
  have hbetween := (habove (m + 1) (by omega) (by omega)).1
  have hmono : f.value (m + 1) < f.value n := f.value_strictMono hnext
  linarith

/-- Ties go to the even magnitude, so there is one nearest. -/
theorem IsNearest.unique (hm : f.IsNearest x m) (hn : f.IsNearest x n) : m = n :=
  Nat.le_antisymm (Nat.le_of_not_lt (hn.not_lt hm)) (Nat.le_of_not_lt (hm.not_lt hn))

/-- What lies between two numbers nearest to a magnitude is nearest to it as well. -/
theorem IsNearest.between (hx : f.IsNearest x m) (hz : f.IsNearest z m) (hxy : x ≤ y)
    (hyz : y ≤ z) : f.IsNearest y m := by
  obtain ⟨hle, hbelow, -⟩ := isNearest_iff.1 hx
  obtain ⟨-, -, habove⟩ := isNearest_iff.1 hz
  refine isNearest_iff.2 ⟨hle, fun n hn => ?_, fun n hn hlt => ?_⟩
  · obtain ⟨hmiddle, heven⟩ := hbelow n hn
    exact ⟨by linarith, fun heq => heven (by linarith)⟩
  · obtain ⟨hmiddle, heven⟩ := habove n hn hlt
    exact ⟨by linarith, fun heq => heven (by linarith)⟩

/-! ## 3. The two values around a number -/

/-- Below the middle the lower magnitude is nearest, and at the middle when it is even. -/
theorem isNearest_lower (hm : m < f.infinity) (hx : f.value m ≤ x)
    (hmiddle : 2 * x ≤ f.value m + f.value (m + 1))
    (heven : 2 * x = f.value m + f.value (m + 1) → Even m) : f.IsNearest x m := by
  refine isNearest_iff.2 ⟨hm.le, fun n hn => ?_, fun n _ hlt => ?_⟩
  · have hmono : f.value n < f.value m := f.value_strictMono hn
    exact ⟨by linarith, fun heq => by linarith⟩
  · have hmono : f.value (m + 1) ≤ f.value n := f.value_strictMono.monotone hlt
    exact ⟨by linarith, fun heq => heven (by linarith)⟩

/-- Above the middle the upper magnitude is nearest, and at the middle when it is even. -/
theorem isNearest_upper (hm : m < f.infinity) (hx : x ≤ f.value (m + 1))
    (hmiddle : f.value m + f.value (m + 1) ≤ 2 * x)
    (heven : 2 * x = f.value m + f.value (m + 1) → Even (m + 1)) : f.IsNearest x (m + 1) := by
  refine isNearest_iff.2 ⟨hm, fun n hn => ?_, fun n _ hlt => ?_⟩
  · have hmono : f.value n ≤ f.value m := f.value_strictMono.monotone (by omega)
    exact ⟨by linarith, fun heq => heven (by linarith)⟩
  · have hmono : f.value (m + 1) < f.value n := f.value_strictMono hlt
    exact ⟨by linarith, fun heq => by linarith⟩

theorem isNearest_infinity (hx : f.value f.infinity ≤ x) : f.IsNearest x f.infinity := by
  refine isNearest_iff.2 ⟨le_rfl, fun n hn => ?_, fun n hn hlt => absurd hlt (by omega)⟩
  have hmono : f.value n < f.value f.infinity := f.value_strictMono hn
  exact ⟨by linarith, fun heq => by linarith⟩

theorem isNearest_value (hm : m < f.infinity) : f.IsNearest (f.value m) m := by
  have hmono : f.value m < f.value (m + 1) := f.value_strictMono (Nat.lt_succ_self m)
  exact isNearest_lower hm le_rfl (by linarith) fun heq => by linarith

/-! ## 4. The binade of a ratio -/

theorem two_zpow_le_div_iff (hm : 0 < m) (e : Int) :
    (2 : ℚ) ^ e ≤ n / m ↔ m * 2 ^ e.toNat ≤ n * 2 ^ (-e).toNat := by
  have hpow : (0 : ℚ) < 2 ^ (-e).toNat := pow_pos two_pos _
  rw [zpow_eq_div_toNat 2 e, div_le_div_iff₀ hpow (Nat.cast_pos.2 hm), mul_comm]
  exact_mod_cast Iff.rfl

theorem two_zpow_log2_le (hn : n ≠ 0) (hm : m ≠ 0) :
    (2 : ℚ) ^ ((n.log2 : Int) - m.log2 - 1) ≤ n / m := by
  have hnle : (2 : ℚ) ^ n.log2 ≤ n := by exact_mod_cast Nat.log2_self_le hn
  have hmlt : (m : ℚ) ≤ 2 ^ (m.log2 + 1) := by exact_mod_cast Nat.lt_log2_self.le
  have hmpos : (0 : ℚ) < m := Nat.cast_pos.2 (Nat.pos_of_ne_zero hm)
  rw [sub_sub, zpow_sub₀ two_ne_zero, zpow_natCast, div_le_div_iff₀ (by positivity) hmpos]
  have hexp : (2 : ℚ) ^ ((m.log2 : Int) + 1) = 2 ^ (m.log2 + 1) := by exact_mod_cast rfl
  rw [hexp]
  exact mul_le_mul hnle hmlt hmpos.le (by positivity)

theorem lt_two_zpow_log2 (hm : m ≠ 0) :
    (n / m : ℚ) < 2 ^ ((n.log2 : Int) - m.log2 + 1) := by
  have hnlt : (n : ℚ) < 2 ^ (n.log2 + 1) := by exact_mod_cast Nat.lt_log2_self
  have hmle : (2 : ℚ) ^ m.log2 ≤ m := by exact_mod_cast Nat.log2_self_le hm
  have hmpos : (0 : ℚ) < m := Nat.cast_pos.2 (Nat.pos_of_ne_zero hm)
  rw [sub_add_eq_add_sub, zpow_sub₀ two_ne_zero, zpow_natCast,
    div_lt_div_iff₀ hmpos (by positivity)]
  have hexp : (2 : ℚ) ^ ((n.log2 : Int) + 1) = 2 ^ (n.log2 + 1) := by exact_mod_cast rfl
  rw [hexp]
  exact mul_lt_mul hnlt hmle (by positivity) (by positivity)

theorem floorLog2_le (hn : n ≠ 0) (hm : m ≠ 0) : (2 : ℚ) ^ floorLog2 n m ≤ n / m := by
  unfold floorLog2
  dsimp only
  split
  · rename_i hle
    exact (two_zpow_le_div_iff (Nat.pos_of_ne_zero hm) _).2 hle
  · exact two_zpow_log2_le hn hm

theorem lt_floorLog2 (hm : m ≠ 0) : (n / m : ℚ) < 2 ^ (floorLog2 n m + 1) := by
  unfold floorLog2
  dsimp only
  split
  · exact lt_two_zpow_log2 hm
  · rename_i hlt
    rw [sub_add_cancel]
    exact not_le.1 (mt (two_zpow_le_div_iff (Nat.pos_of_ne_zero hm) _).1 hlt)

/-! ## 5. The nearest whole number -/

/-- A number is rounded to the whole number below it or the one above, and in the middle to the even
one. -/
inductive RoundsWhole (y : ℚ) (s : Nat) : Nat → Prop
  | down (hmiddle : 2 * y ≤ s + (s + 1)) (heven : 2 * y = s + (s + 1) → Even s) :
      RoundsWhole y s s
  | up (hmiddle : s + (s + 1) ≤ 2 * y) (heven : 2 * y = s + (s + 1) → Even (s + 1)) :
      RoundsWhole y s (s + 1)

theorem div_le_cast_succ (n : Nat) (hm : 0 < m) : (n / m : ℚ) ≤ (n / m : Nat) + 1 := by
  rw [div_le_iff₀' (Nat.cast_pos.2 hm)]
  exact_mod_cast (Nat.lt_mul_div_succ n hm).le

/-- Twice the quotient against the middle is twice the remainder against the divisor. -/
theorem two_mul_div_sub_middle (n : Nat) (hm : 0 < m) :
    2 * (n / m : ℚ) - ((n / m : Nat) + ((n / m : Nat) + 1)) = (2 * (n % m : Nat) - m) / m := by
  have hpos : (0 : ℚ) < m := Nat.cast_pos.2 hm
  have hdiv : (n : ℚ) = m * (n / m : Nat) + (n % m : Nat) := by
    exact_mod_cast (Nat.div_add_mod n m).symm
  field_simp
  linarith

/-- A quotient is rounded to the nearest whole number, and to the even one of two. -/
theorem roundsWhole_roundQuotient (n : Nat) (hm : 0 < m) :
    RoundsWhole (n / m) (n / m) (roundQuotient n m) := by
  have hpos : (0 : ℚ) < m := Nat.cast_pos.2 hm
  have hsplit := two_mul_div_sub_middle n hm
  unfold roundQuotient
  -- below, at or above the middle between two whole numbers
  rcases Nat.lt_trichotomy (2 * (n % m)) m with hlt | heq | hgt
  · have hneg : (2 * (n % m : Nat) - m : ℚ) / m < 0 := by
      apply div_neg_of_neg_of_pos _ hpos
      rw [sub_neg]
      exact_mod_cast hlt
    rw [Nat.compare_eq_lt.2 hlt]
    exact .down (by linarith) fun h => by linarith
  · have hzero : (2 * (n % m : Nat) - m : ℚ) / m = 0 := by
      rw [div_eq_zero_iff, sub_eq_zero]
      exact Or.inl (by exact_mod_cast heq)
    rw [Nat.compare_eq_eq.2 heq]
    by_cases heven : n / m % 2 = 0
    · simp only [if_pos heven]
      exact .down (by linarith) fun _ => Nat.even_iff.2 heven
    · simp only [if_neg heven]
      exact .up (by linarith) fun _ => Nat.even_iff.2 (by omega)
  · have hgap : 0 < (2 * (n % m : Nat) - m : ℚ) / m := by
      apply div_pos _ hpos
      rw [sub_pos]
      exact_mod_cast hgt
    rw [Nat.compare_eq_gt.2 hgt]
    exact .up (by linarith) fun h => by linarith

/-! ## 6. The magnitude of a ratio -/

theorem even_mul_binade_add (hf : 0 < f.fractionBits) (k : Nat) {s : Nat} (hs : Even s) :
    Even (k * f.binade + s) := by
  have hbinade : Even f.binade := (Nat.even_pow' (by omega)).2 even_two
  exact (hbinade.mul_left k).add hs

/-- Rounding in units of the last fraction bit is rounding among the values of the format. -/
theorem isNearest_of_roundsWhole (hf : 0 < f.fractionBits) {k s r : Nat} {y : ℚ}
    (hs : s < 2 * f.binade) (hk : k = 0 ∨ f.binade ≤ s) (hsy : s ≤ y) (hys : y ≤ s + 1)
    (hr : RoundsWhole y s r) :
    f.IsNearest (y * 2 ^ (f.leastExponent + k)) (min (k * f.binade + r) f.infinity) := by
  have hunit : (0 : ℚ) < 2 ^ (f.leastExponent + k) := zpow_pos two_pos _
  have hlower : f.value (k * f.binade + s) = s * 2 ^ (f.leastExponent + k) :=
    f.value_add hs.le hk
  have hupper : f.value (k * f.binade + s + 1) = (s + 1) * 2 ^ (f.leastExponent + k) := by
    rw [Nat.add_assoc, f.value_add hs (by omega), Nat.cast_succ]
  have hsum : f.value (k * f.binade + s) + f.value (k * f.binade + s + 1) =
      (s + (s + 1)) * 2 ^ (f.leastExponent + k) := by
    rw [hlower, hupper]
    ring
  have hdouble : 2 * (y * 2 ^ (f.leastExponent + k)) = 2 * y * 2 ^ (f.leastExponent + k) :=
    (mul_assoc _ _ _).symm
  -- whether the magnitude below the number is finite
  by_cases hfinite : k * f.binade + s < f.infinity
  · cases hr with
    | down hmiddle heven =>
      rw [min_eq_left hfinite.le]
      refine isNearest_lower hfinite ?_ ?_ fun heq => ?_
      · rw [hlower]
        exact mul_le_mul_of_nonneg_right hsy hunit.le
      · rw [hsum, hdouble]
        exact mul_le_mul_of_nonneg_right hmiddle hunit.le
      · rw [hsum, hdouble] at heq
        exact even_mul_binade_add hf k (heven (mul_right_cancel₀ hunit.ne' heq))
    | up hmiddle heven =>
      rw [← Nat.add_assoc, min_eq_left hfinite]
      refine isNearest_upper hfinite ?_ ?_ fun heq => ?_
      · rw [hupper]
        exact mul_le_mul_of_nonneg_right hys hunit.le
      · rw [hsum, hdouble]
        exact mul_le_mul_of_nonneg_right hmiddle hunit.le
      · rw [hsum, hdouble] at heq
        exact even_mul_binade_add hf k (heven (mul_right_cancel₀ hunit.ne' heq))
  · -- beyond the largest finite magnitude
    have hsr : s ≤ r := by cases hr <;> omega
    rw [min_eq_right (by omega)]
    apply isNearest_infinity
    calc f.value f.infinity ≤ f.value (k * f.binade + s) :=
          f.value_strictMono.monotone (Nat.le_of_not_lt hfinite)
      _ = s * 2 ^ (f.leastExponent + k) := hlower
      _ ≤ y * 2 ^ (f.leastExponent + k) := mul_le_mul_of_nonneg_right hsy hunit.le

def ratioExponent (f : BinaryFormat) (n m : Nat) : Int :=
  max (floorLog2 n m - f.fractionBits) f.leastExponent

/-- The exponent of the last place, which is not below that of the subnormal numbers. -/
theorem ratioExponent_eq (f : BinaryFormat) (n m : Nat) :
    ∃ k : Nat, f.ratioExponent n m = f.leastExponent + k ∧
      (f.ratioExponent n m - f.leastExponent).toNat = k ∧
      (k = 0 ∨ f.ratioExponent n m = floorLog2 n m - f.fractionBits) := by
  unfold ratioExponent
  exact ⟨_, by omega, rfl, by omega⟩

/-- The ratio in units of the last fraction bit. -/
theorem scaled_mul_zpow (n m : Nat) (q : Int) :
    ((n * 2 ^ (-q).toNat : Nat) : ℚ) / (m * 2 ^ q.toNat : Nat) * 2 ^ q = n / m := by
  rw [zpow_eq_div_toNat 2 q]
  push_cast
  field_simp

theorem cast_binade (f : BinaryFormat) : (f.binade : ℚ) = 2 ^ (f.fractionBits : Int) := by
  unfold binade
  rw [zpow_natCast]
  push_cast
  rfl

/-- In these units the ratio has the digits of a significand. -/
theorem scaled_lt (f : BinaryFormat) (hm : m ≠ 0) :
    n * 2 ^ (-f.ratioExponent n m).toNat / (m * 2 ^ (f.ratioExponent n m).toNat) <
      2 * f.binade := by
  set q := f.ratioExponent n m with hq
  have hden : 0 < m * 2 ^ q.toNat := Nat.mul_pos (Nat.pos_of_ne_zero hm) (Nat.two_pow_pos _)
  rw [Nat.div_lt_iff_lt_mul hden, ← Nat.cast_lt (α := ℚ), Nat.cast_mul (2 * f.binade),
    ← div_lt_iff₀ (Nat.cast_pos.2 hden), ← mul_lt_mul_iff_left₀ (zpow_pos two_pos q),
    scaled_mul_zpow]
  have hle : floorLog2 n m + 1 ≤ 1 + f.fractionBits + q := by
    have hmax : floorLog2 n m - f.fractionBits ≤ q := le_max_left _ _
    omega
  calc (n / m : ℚ) < 2 ^ (floorLog2 n m + 1) := lt_floorLog2 hm
    _ ≤ 2 ^ (1 + f.fractionBits + q) := zpow_le_zpow_right₀ one_le_two hle
    _ = (2 * f.binade : Nat) * 2 ^ q := by
        rw [Nat.cast_mul, cast_binade, zpow_add₀ two_ne_zero, zpow_add₀ two_ne_zero, zpow_one]
        rfl

theorem le_scaled (f : BinaryFormat) (hn : n ≠ 0) (hm : m ≠ 0)
    (hq : f.ratioExponent n m = floorLog2 n m - f.fractionBits) :
    f.binade ≤ n * 2 ^ (-f.ratioExponent n m).toNat / (m * 2 ^ (f.ratioExponent n m).toNat) := by
  set q := f.ratioExponent n m
  have hden : 0 < m * 2 ^ q.toNat := Nat.mul_pos (Nat.pos_of_ne_zero hm) (Nat.two_pow_pos _)
  rw [Nat.le_div_iff_mul_le hden, ← Nat.cast_le (α := ℚ), Nat.cast_mul f.binade,
    ← le_div_iff₀ (Nat.cast_pos.2 hden), ← mul_le_mul_iff_left₀ (zpow_pos two_pos q),
    scaled_mul_zpow, cast_binade, ← zpow_add₀ two_ne_zero,
    show (f.fractionBits : Int) + q = floorLog2 n m by omega]
  exact floorLog2_le hn hm

/-- A quotient is rounded to its nearest magnitude. -/
theorem isNearest_roundRatio (hf : 0 < f.fractionBits) (hn : n ≠ 0) (hm : m ≠ 0) :
    f.IsNearest (n / m) (f.roundRatio n m) := by
  obtain ⟨k, hq, hk, hbinade⟩ := f.ratioExponent_eq n m
  have hden : 0 < m * 2 ^ (f.ratioExponent n m).toNat :=
    Nat.mul_pos (Nat.pos_of_ne_zero hm) (Nat.two_pow_pos _)
  have hround : f.roundRatio n m = min (k * f.binade + roundQuotient
      (n * 2 ^ (-f.ratioExponent n m).toNat) (m * 2 ^ (f.ratioExponent n m).toNat))
        f.infinity := by
    rw [← hk]
    exact if_neg hn
  have hnear := isNearest_of_roundsWhole hf (f.scaled_lt hm) (hbinade.imp_right (f.le_scaled hn hm))
    Nat.cast_div_le (div_le_cast_succ _ hden) (roundsWhole_roundQuotient _ hden)
  rwa [← hq, scaled_mul_zpow, ← hround] at hnear

/-! ## 7. Decimals -/

theorem isNearest_zero (f : BinaryFormat) : f.IsNearest 0 0 := by
  refine isNearest_iff.2 ⟨Nat.zero_le _, fun n hn => absurd hn (Nat.not_lt_zero n), fun n _ hn => ?_⟩
  have hpos : 0 < f.value n := f.value_pos hn
  rw [f.value_zero]
  exact ⟨by linarith, fun heq => by linarith⟩

/-- A decimal is rounded to its nearest magnitude. -/
theorem isNearest_round (hf : 0 < f.fractionBits) (d : Decimal) :
    f.IsNearest d.value (f.round d) := by
  rw [← d.numerator_div_denominator]
  unfold round
  by_cases hzero : d.numerator = 0
  · rw [hzero, Nat.cast_zero, zero_div]
    exact f.isNearest_zero
  · exact isNearest_roundRatio hf hzero d.denominator_pos.ne'

/-- A decimal is rounded to the nearest magnitude, ties to even. -/
theorem round_eq_iff_isNearest (hf : 0 < f.fractionBits) {d : Decimal} :
    f.round d = m ↔ f.IsNearest d.value m := by
  constructor
  · rintro rfl
    exact isNearest_round hf d
  · exact (isNearest_round hf d).unique

end BinaryFormat

end MemoryKit.Number
