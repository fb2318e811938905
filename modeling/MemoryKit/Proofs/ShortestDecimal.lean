import MemoryKit.Proofs.Rounding

/-!
# The shortest decimal

The decimal shown for a positive finite magnitude reads back as the magnitude, no decimal with fewer
digits does, and of those on its grid that do it is the nearest to the value. The search for it tries
the two neighbours of the exact value on finer and finer grids: where any decimal of a grid reads
back, the neighbour on its side does, since it lies between that decimal and the value.
-/

namespace MemoryKit.Number

-- powers of naturals are those of the core library, whatever else is imported
attribute [local instance (high)] instPowNat

/-! ## 1. Counts of digits -/

theorem length_decimal_le {n k : Nat} (hk : 0 < k) (hn : n < 10 ^ k) : (decimal n).length ≤ k :=
  (Nat.length_toDigits_le_iff (by decide) hk).2 hn

/-- A positive number lies between two powers of ten, which its count of digits says. -/
theorem exists_length_decimal {n : Nat} (hn : 0 < n) :
    ∃ k, (decimal n).length = k + 1 ∧ 10 ^ k ≤ n ∧ n < 10 ^ (k + 1) := by
  obtain ⟨k, hk⟩ : ∃ k, (decimal n).length = k + 1 :=
    ⟨_, (Nat.sub_add_cancel Nat.length_toDigits_pos).symm⟩
  refine ⟨k, hk, ?_, ?_⟩
  · rcases Nat.eq_zero_or_pos k with rfl | hpos
    · exact hn
    · apply Nat.le_of_not_lt
      intro hlt
      have hle : (decimal n).length ≤ k := length_decimal_le hpos hlt
      omega
  · exact (Nat.length_toDigits_le_iff (by decide) (Nat.succ_pos k)).1 hk.le

theorem Decimal.value_one (e : Int) : Decimal.value ⟨1, e⟩ = 10 ^ e := by
  rw [value, Nat.cast_one, one_mul]

theorem Decimal.value_spec {d : Decimal} (hd : 0 < d.digits) :
    (10 : ℚ) ^ ((decimal d.digits).length - 1 + d.exponent) ≤ d.value ∧
      d.value < 10 ^ ((decimal d.digits).length + d.exponent) := by
  have hunit : (0 : ℚ) < 10 ^ d.exponent := zpow_pos (by norm_num) _
  obtain ⟨k, hk, hdigits, hdigits'⟩ := exists_length_decimal hd
  have hle : (10 : ℚ) ^ k ≤ d.digits := by exact_mod_cast hdigits
  have hlt : (d.digits : ℚ) < 10 ^ (k + 1) := by exact_mod_cast hdigits'
  rw [value, hk, Nat.cast_succ, add_sub_cancel_right, ← Nat.cast_succ,
    zpow_add₀ (by norm_num), zpow_add₀ (by norm_num), zpow_natCast, zpow_natCast]
  exact ⟨mul_le_mul_of_nonneg_right hle hunit.le, mul_lt_mul_of_pos_right hlt hunit⟩

namespace BinaryFormat

variable {f : BinaryFormat} {m : Nat}

/-! ## 2. The decimal scale of a value -/

theorem scaledRatio_zero_div (f : BinaryFormat) (m : Nat) :
    ((f.scaledRatio m 0).1 : ℚ) / (f.scaledRatio m 0).2 = f.value m := by
  rw [f.scaledRatio_div, zpow_zero, div_one]

/-- The value lies between two powers of ten next to each other. -/
theorem decimalScale_spec (f : BinaryFormat) (hm : 0 < m) :
    (10 : ℚ) ^ (f.decimalScale m - 1) ≤ f.value m ∧ f.value m < 10 ^ f.decimalScale m := by
  have hratio := f.scaledRatio_zero_div m
  have hd := f.snd_scaledRatio_pos m 0
  have hvalue := f.value_pos hm
  unfold decimalScale
  rw [← hratio] at hvalue ⊢
  generalize f.scaledRatio m 0 = ratio at *
  obtain ⟨n, d⟩ := ratio
  dsimp only at *
  have hdpos : (0 : ℚ) < d := Nat.cast_pos.2 hd
  have hn : 0 < n := Nat.cast_pos.1 ((div_pos_iff_of_pos_right hdpos).1 hvalue)
  -- a ratio below one is scaled by the digits of its inverse
  by_cases hlt : n < d
  · have hquotient : 0 < (d - 1) / n := Nat.div_pos (by omega) hn
    obtain ⟨k, hk, hle, hlt'⟩ := exists_length_decimal hquotient
    have hlow : 10 ^ k * n < d := by
      have hmul := (Nat.le_div_iff_mul_le hn).1 hle
      omega
    have hhigh : d ≤ 10 ^ (k + 1) * n := by
      have hmul := (Nat.div_lt_iff_lt_mul hn).1 hlt'
      omega
    have hscale : (1 : Int) - (k + 1 : Nat) = -(k : Int) := by omega
    rw [if_pos hlt, hk, hscale, ← neg_add', zpow_neg, zpow_neg, ← Nat.cast_succ, zpow_natCast,
      zpow_natCast]
    constructor
    · rw [inv_le_iff_one_le_mul₀ (by positivity), div_mul_eq_mul_div, one_le_div hdpos, mul_comm]
      exact_mod_cast hhigh
    · rw [lt_inv_comm₀ (div_pos (Nat.cast_pos.2 hn) hdpos) (by positivity), inv_div,
        lt_div_iff₀ (Nat.cast_pos.2 hn)]
      exact_mod_cast hlow
  · have hquotient : 0 < n / d := Nat.div_pos (by omega) hd
    obtain ⟨k, hk, hle, hlt'⟩ := exists_length_decimal hquotient
    have hlow : 10 ^ k * d ≤ n := (Nat.le_div_iff_mul_le hd).1 hle
    have hhigh : n < 10 ^ (k + 1) * d := (Nat.div_lt_iff_lt_mul hd).1 hlt'
    rw [if_neg hlt, hk, Nat.cast_succ, add_sub_cancel_right, ← Nat.cast_succ, zpow_natCast,
      zpow_natCast, le_div_iff₀ hdpos, div_lt_iff₀ hdpos]
    exact ⟨by exact_mod_cast hlow, by exact_mod_cast hhigh⟩

/-! ## 3. The neighbours of a value on a grid -/

/-- The digits of the last decimal on a grid that does not exceed the value. -/
def gridFloor (f : BinaryFormat) (m : Nat) (grid : Int) : Nat :=
  (f.scaledRatio m grid).1 / (f.scaledRatio m grid).2

/-- The lower neighbour on the grid is not above the number. -/
theorem value_gridFloor_le (f : BinaryFormat) (m : Nat) (grid : Int) :
    Decimal.value ⟨f.gridFloor m grid, grid⟩ ≤ f.value m := by
  have hpow : (0 : ℚ) < 10 ^ grid := zpow_pos (by norm_num) _
  rw [Decimal.value, ← le_div_iff₀ hpow, ← f.scaledRatio_div]
  exact Nat.cast_div_le

theorem lt_value_gridFloor_succ (f : BinaryFormat) (m : Nat) (grid : Int) :
    f.value m < Decimal.value ⟨f.gridFloor m grid + 1, grid⟩ := by
  have hpow : (0 : ℚ) < 10 ^ grid := zpow_pos (by norm_num) _
  have hd := f.snd_scaledRatio_pos m grid
  rw [Decimal.value, ← div_lt_iff₀ hpow, ← f.scaledRatio_div, div_lt_iff₀' (Nat.cast_pos.2 hd)]
  exact_mod_cast Nat.lt_mul_div_succ _ hd

/-- The two decimals of a grid next to the value, the nearer one first. -/
def neighbours (f : BinaryFormat) (m : Nat) (grid : Int) : List Decimal :=
  let (n, d) := f.scaledRatio m grid
  if 2 * (n % d) < d then [⟨f.gridFloor m grid, grid⟩, ⟨f.gridFloor m grid + 1, grid⟩]
  else [⟨f.gridFloor m grid + 1, grid⟩, ⟨f.gridFloor m grid, grid⟩]

theorem candidate?_eq (f : BinaryFormat) (m : Nat) (grid : Int) :
    f.candidate? m grid = (f.neighbours m grid).find? fun c => f.round c = m :=
  rfl

theorem mem_neighbours {grid : Int} {d : Decimal} : d ∈ f.neighbours m grid ↔
    d = ⟨f.gridFloor m grid, grid⟩ ∨ d = ⟨f.gridFloor m grid + 1, grid⟩ := by
  unfold neighbours
  split
  split
  · exact List.mem_pair
  · exact List.mem_pair.trans or_comm

/-- A candidate is a neighbour on the grid that is rounded to the magnitude. -/
theorem candidate?_spec {grid : Int} {d : Decimal} (h : f.candidate? m grid = some d) :
    f.round d = m ∧ d ∈ f.neighbours m grid := by
  rw [candidate?_eq] at h
  have hround := List.find?_some h
  exact ⟨of_decide_eq_true hround, List.mem_of_find?_eq_some h⟩

theorem round_ne_of_candidate?_eq_none {grid : Int} {d : Decimal}
    (h : f.candidate? m grid = none) (hd : d ∈ f.neighbours m grid) : f.round d ≠ m := by
  rw [candidate?_eq, List.find?_eq_none] at h
  simpa using h d hd

/-- Twice the value against the middle of its neighbours is twice the remainder against the divisor.
-/
theorem two_mul_value_sub_neighbours (f : BinaryFormat) (m : Nat) (grid : Int) :
    2 * f.value m - (Decimal.value ⟨f.gridFloor m grid, grid⟩ +
      Decimal.value ⟨f.gridFloor m grid + 1, grid⟩) =
        (2 * ((f.scaledRatio m grid).1 % (f.scaledRatio m grid).2 : Nat) -
          (f.scaledRatio m grid).2) / (f.scaledRatio m grid).2 * 10 ^ grid := by
  have hpow : (0 : ℚ) < 10 ^ grid := zpow_pos (by norm_num) _
  have hvalue : f.value m = f.value m / 10 ^ grid * 10 ^ grid := (div_mul_cancel₀ _ hpow.ne').symm
  rw [← two_mul_div_sub_middle _ (f.snd_scaledRatio_pos m grid), hvalue, ← f.scaledRatio_div]
  unfold Decimal.value gridFloor
  push_cast
  ring

/-- The nearer neighbour comes first. -/
theorem pairwise_neighbours (f : BinaryFormat) (m : Nat) (grid : Int) :
    (f.neighbours m grid).Pairwise fun c d => |c.value - f.value m| ≤ |d.value - f.value m| := by
  have hpow : (0 : ℚ) < 10 ^ grid := zpow_pos (by norm_num) _
  have hdpos : (0 : ℚ) < (f.scaledRatio m grid).2 := Nat.cast_pos.2 (f.snd_scaledRatio_pos m grid)
  have hbetween : Decimal.value ⟨f.gridFloor m grid, grid⟩ <
      Decimal.value ⟨f.gridFloor m grid + 1, grid⟩ :=
    (f.value_gridFloor_le m grid).trans_lt (f.lt_value_gridFloor_succ m grid)
  unfold neighbours
  dsimp only
  by_cases hlt : 2 * ((f.scaledRatio m grid).1 % (f.scaledRatio m grid).2) <
      (f.scaledRatio m grid).2
  · rw [if_pos hlt, List.pairwise_pair, abs_sub_le_abs_sub_iff hbetween, ← sub_nonpos,
      f.two_mul_value_sub_neighbours]
    apply mul_nonpos_of_nonpos_of_nonneg (div_nonpos_of_nonpos_of_nonneg _ hdpos.le) hpow.le
    rw [sub_nonpos]
    exact_mod_cast hlt.le
  · rw [if_neg hlt, List.pairwise_pair, abs_sub_ge_abs_sub_iff hbetween, ← sub_nonneg,
      f.two_mul_value_sub_neighbours]
    apply mul_nonneg (div_nonneg _ hdpos.le) hpow.le
    rw [sub_nonneg]
    exact_mod_cast Nat.le_of_not_lt hlt

/-- A decimal of the grid is not nearer to the value than the neighbour on its side. -/
theorem exists_neighbour_between (f : BinaryFormat) (m : Nat) (c : Decimal) :
    ∃ d ∈ f.neighbours m c.exponent, (c.value ≤ d.value ∧ d.value ≤ f.value m) ∨
      (f.value m ≤ d.value ∧ d.value ≤ c.value) := by
  have hpow : (0 : ℚ) < 10 ^ c.exponent := zpow_pos (by norm_num) _
  have hlower := f.value_gridFloor_le m c.exponent
  have hupper := f.lt_value_gridFloor_succ m c.exponent
  have hmono {a b : Nat} (hab : a ≤ b) :
      Decimal.value ⟨a, c.exponent⟩ ≤ Decimal.value ⟨b, c.exponent⟩ :=
    mul_le_mul_of_nonneg_right (Nat.cast_le.2 hab) hpow.le
  rcases Nat.lt_or_ge (f.gridFloor m c.exponent) c.digits with hdigits | hdigits
  · exact ⟨_, mem_neighbours.2 (Or.inr rfl), Or.inr ⟨hupper.le, hmono hdigits⟩⟩
  · exact ⟨_, mem_neighbours.2 (Or.inl rfl), Or.inl ⟨hmono hdigits, hlower⟩⟩

/-! ## 4. Decimals that read back -/

section ReadsBack

variable (hf : 0 < f.fractionBits) (hfinite : m < f.infinity)
include hf hfinite

/-- Between a decimal that reads back and the value every decimal reads back. -/
theorem round_between {c d : Decimal} (hc : f.round c = m)
    (hd : (c.value ≤ d.value ∧ d.value ≤ f.value m) ∨ (f.value m ≤ d.value ∧ d.value ≤ c.value)) :
    f.round d = m := by
  have hnear := (round_eq_iff_isNearest hf).1 hc
  have hself := isNearest_value hfinite
  apply (round_eq_iff_isNearest hf).2
  rcases hd with ⟨hcd, hdv⟩ | ⟨hvd, hdc⟩
  · exact hnear.between hself hcd hdv
  · exact hself.between hnear hvd hdc

/-- Where any decimal of a grid is rounded to the magnitude, one of the two neighbours is. -/
theorem candidate?_ne_none {c : Decimal} (hc : f.round c = m) :
    f.candidate? m c.exponent ≠ none := by
  intro hnone
  obtain ⟨d, hd, hside⟩ := f.exists_neighbour_between m c
  exact round_ne_of_candidate?_eq_none hnone hd (round_between hf hfinite hc hside)

/-- Of the decimals on its grid that read back, the candidate is nearest to the value. -/
theorem abs_candidate?_sub_le {c d : Decimal} (hd : f.candidate? m c.exponent = some d)
    (hc : f.round c = m) : |d.value - f.value m| ≤ |c.value - f.value m| := by
  obtain ⟨e, he, hside⟩ := f.exists_neighbour_between m c
  have hround : f.round e = m := round_between hf hfinite hc hside
  have hde : |d.value - f.value m| ≤ |e.value - f.value m| := by
    have hsorted := f.pairwise_neighbours m c.exponent
    rw [candidate?_eq, List.find?_eq_some_iff_append] at hd
    obtain ⟨-, before, behind, heq, hbefore⟩ := hd
    rw [heq, List.mem_append, List.mem_cons] at he
    rw [heq, List.pairwise_append, List.pairwise_cons] at hsorted
    rcases he with he | rfl | he
    · -- what stands before the candidate does not read back
      simpa [hround] using hbefore e he
    · exact le_rfl
    · exact hsorted.2.1.1 e he
  apply hde.trans
  rcases hside with ⟨hce, hev⟩ | ⟨hve, hec⟩
  · rw [abs_of_nonpos (sub_nonpos.2 hev), abs_of_nonpos (sub_nonpos.2 (hce.trans hev))]
    linarith
  · rw [abs_of_nonneg (sub_nonneg.2 hve), abs_of_nonneg (sub_nonneg.2 (hve.trans hec))]
    linarith

end ReadsBack

/-! ## 5. The first grid with a neighbour that reads back -/

theorem findSome?_range_eq_some {α : Type} {g : Nat → Option α} {count : Nat} {a : α}
    (h : (List.range count).findSome? g = some a) :
    ∃ i < count, g i = some a ∧ ∀ j < i, g j = none := by
  induction count with
  | zero => cases h
  | succ count ih =>
    rw [List.range_succ, List.findSome?_append, Option.or_eq_some_iff] at h
    rcases h with h | ⟨hnone, hlast⟩
    · obtain ⟨i, hi, hsome, hbefore⟩ := ih h
      exact ⟨i, by omega, hsome, hbefore⟩
    · rw [List.findSome?_eq_none_iff] at hnone
      rw [List.findSome?_singleton] at hlast
      exact ⟨count, by omega, hlast, fun j hj => hnone j (List.mem_range.2 hj)⟩

/-- The shortest decimal is rounded to the magnitude it was made for. -/
theorem round_shortest (hf : 0 < f.fractionBits) (hfinite : m < f.infinity) :
    f.round (f.shortest m) = m := by
  unfold shortest
  dsimp only
  split
  · rename_i d hd
    obtain ⟨_, _, hcandidate, _⟩ := findSome?_range_eq_some hd
    exact (candidate?_spec hcandidate).1
  · apply (round_eq_iff_isNearest hf).2
    rw [f.value_exactDecimal]
    exact isNearest_value hfinite

/-! ## 6. The fewest digits -/

/-- The unit of the last fraction bit is not small beside the value. -/
theorem value_le_mul_gap (f : BinaryFormat) (m : Nat) :
    f.value (m + 1) ≤ 2 * f.binade * (f.value (m + 1) - f.value m) := by
  obtain ⟨k, s, rfl, hs, hk⟩ := f.exists_eq_add m
  have hunit : (0 : ℚ) < 2 ^ (f.leastExponent + k) := zpow_pos two_pos _
  have hcount : (s + 1 : ℚ) ≤ 2 * f.binade := by exact_mod_cast hs
  rw [Nat.add_assoc, f.value_add hs.le hk, f.value_add (by omega) (by omega), Nat.cast_succ]
  nlinarith

/-- The search goes on to grids that are fine enough for every value. -/
def HasDigitLimit (f : BinaryFormat) : Prop :=
  2 ^ (f.fractionBits + 2) ≤ 10 ^ (f.digitLimit - 1)

section Fewest

variable (hf : 0 < f.fractionBits) (hlimit : f.HasDigitLimit) (hm : 0 < m)
  (hfinite : m < f.infinity)
include hf hlimit hm hfinite

/-- On the finest grid the value is less than half a unit above the neighbour below it. -/
theorem candidate?_digitLimit_ne_none :
    f.candidate? m (f.decimalScale m - f.digitLimit) ≠ none := by
  intro hnone
  obtain ⟨n, rfl⟩ : ∃ n, m = n + 1 := ⟨m - 1, by omega⟩
  set grid := f.decimalScale (n + 1) - f.digitLimit with hgrid
  have hunit : (0 : ℚ) < 10 ^ grid := zpow_pos (by norm_num) _
  have hbinade : (0 : ℚ) < f.binade := Nat.cast_pos.2 f.binade_pos
  -- the grid is finer than the gap between two magnitudes
  have hfine : (4 * f.binade : ℚ) * 10 ^ grid ≤ f.value (n + 1) := by
    have hpow : (4 * f.binade : ℚ) ≤ 10 ^ (f.digitLimit - 1) := by
      have hle : 4 * f.binade ≤ 10 ^ (f.digitLimit - 1) := by
        rw [HasDigitLimit, Nat.pow_add, Nat.mul_comm] at hlimit
        exact hlimit
      exact_mod_cast hle
    have hpos : 1 ≤ f.digitLimit := Nat.le_add_left _ _
    calc (4 * f.binade : ℚ) * 10 ^ grid ≤ 10 ^ (f.digitLimit - 1) * 10 ^ grid :=
          mul_le_mul_of_nonneg_right hpow hunit.le
      _ = 10 ^ (f.decimalScale (n + 1) - 1) := by
          rw [← zpow_natCast, ← zpow_add₀ (by norm_num)]
          congr 1
          omega
      _ ≤ f.value (n + 1) := (f.decimalScale_spec hm).1
  have hgap : 2 * 10 ^ grid ≤ f.value (n + 1) - f.value n := by
    have hle := hfine.trans (f.value_le_mul_gap n)
    nlinarith
  have hlower := f.value_gridFloor_le (n + 1) grid
  have hupper : f.value (n + 1) < Decimal.value ⟨f.gridFloor (n + 1) grid, grid⟩ + 10 ^ grid := by
    have hlt := f.lt_value_gridFloor_succ (n + 1) grid
    rw [Decimal.value] at hlt ⊢
    push_cast at hlt
    linarith
  -- so the decimal below the value is nearer to it than to the magnitude before
  apply round_ne_of_candidate?_eq_none hnone (mem_neighbours.2 (Or.inl rfl))
  apply (round_eq_iff_isNearest hf).2
  exact isNearest_upper (by omega) hlower (by linarith) fun heq => by linarith

/-- The shortest decimal is the candidate of the coarsest grid that has one. -/
theorem exists_candidate?_shortest :
    ∃ i : Nat, f.candidate? m (f.decimalScale m - i) = some (f.shortest m) ∧
      ∀ j < i, f.candidate? m (f.decimalScale m - (j : Nat)) = none := by
  unfold shortest
  dsimp only
  split
  · rename_i d hd
    obtain ⟨i, -, hsome, hbefore⟩ := findSome?_range_eq_some hd
    exact ⟨i, hsome, hbefore⟩
  · rename_i hnone
    rw [List.findSome?_eq_none_iff] at hnone
    exact absurd (hnone f.digitLimit (List.mem_range.2 (Nat.lt_succ_self _)))
      (candidate?_digitLimit_ne_none hf hlimit hm hfinite)

end Fewest

theorem digits_pos_of_round (hf : 0 < f.fractionBits) (hm : 0 < m) {c : Decimal}
    (hc : f.round c = m) : 0 < c.digits := by
  apply Nat.pos_of_ne_zero
  intro hzero
  have hvalue : c.value = 0 := by rw [Decimal.value, hzero, Nat.cast_zero, zero_mul]
  have hnear := (round_eq_iff_isNearest hf).1 hc
  rw [hvalue] at hnear
  exact hm.ne (f.isNearest_zero.unique hnear)

section Grids

variable (hf : 0 < f.fractionBits) (hm : 0 < m) (hfinite : m < f.infinity)
include hf hm hfinite

/-- A power of ten next to the value is on the coarsest grid. -/
theorem candidate?_ne_none_of_le {c : Decimal} (hc : f.round c = m)
    (hle : (10 : ℚ) ^ f.decimalScale m ≤ c.value) : f.candidate? m (f.decimalScale m) ≠ none := by
  have hscale := f.decimalScale_spec hm
  apply candidate?_ne_none (c := ⟨1, f.decimalScale m⟩) hf hfinite
  apply round_between hf hfinite hc
  rw [Decimal.value_one]
  exact Or.inr ⟨hscale.2.le, hle⟩

theorem candidate?_ne_none_of_lt {c : Decimal} (hc : f.round c = m)
    (hlt : c.value < 10 ^ (f.decimalScale m - 1)) :
    f.candidate? m (f.decimalScale m - 1) ≠ none := by
  have hscale := f.decimalScale_spec hm
  apply candidate?_ne_none (c := ⟨1, f.decimalScale m - 1⟩) hf hfinite
  apply round_between hf hfinite hc
  rw [Decimal.value_one]
  exact Or.inl ⟨hlt.le, hscale.1⟩

/-- A decimal that reads back has digits enough for one of the grids on which a neighbour does. -/
theorem exists_candidate?_ne_none {c : Decimal} (hc : f.round c = m) :
    ∃ j ≤ (decimal c.digits).length, f.candidate? m (f.decimalScale m - (j : Nat)) ≠ none := by
  by_cases hhigh : (10 : ℚ) ^ f.decimalScale m ≤ c.value
  · refine ⟨0, Nat.zero_le _, ?_⟩
    rw [Nat.cast_zero, sub_zero]
    exact candidate?_ne_none_of_le hf hm hfinite hc hhigh
  by_cases hlow : c.value < 10 ^ (f.decimalScale m - 1)
  · exact ⟨1, Nat.length_toDigits_pos, candidate?_ne_none_of_lt hf hm hfinite hc hlow⟩
  -- the decimal begins where the value begins, so its digits say its grid
  · refine ⟨_, le_rfl, ?_⟩
    have hgrid : f.decimalScale m - (decimal c.digits).length = c.exponent := by
      obtain ⟨hle, hlt⟩ := Decimal.value_spec (digits_pos_of_round hf hm hc)
      have hbelow := (zpow_lt_zpow_iff_right₀ (by norm_num)).1 (hle.trans_lt (not_le.1 hhigh))
      have habove := (zpow_lt_zpow_iff_right₀ (by norm_num)).1 ((not_lt.1 hlow).trans_lt hlt)
      omega
    rw [hgrid]
    exact candidate?_ne_none hf hfinite hc

/-- Of the neighbours on a grid only the next power of ten has more digits than the grid allows, and
it is on the coarsest grid already. -/
theorem length_decimal_candidate?_le {i : Nat} {d : Decimal}
    (hd : f.candidate? m (f.decimalScale m - i) = some d)
    (hbefore : ∀ j < i, f.candidate? m (f.decimalScale m - (j : Nat)) = none) :
    (decimal d.digits).length ≤ max i 1 := by
  obtain ⟨hround, hmem⟩ := candidate?_spec hd
  have hpow : (10 : ℚ) ^ f.decimalScale m = 10 ^ i * 10 ^ (f.decimalScale m - i) := by
    rw [← zpow_natCast, ← zpow_add₀ (by norm_num)]
    congr 1
    omega
  have hunit : (0 : ℚ) < 10 ^ (f.decimalScale m - i) := zpow_pos (by norm_num) _
  have hfloor : f.gridFloor m (f.decimalScale m - i) < 10 ^ i := by
    have hlt := (f.value_gridFloor_le m (f.decimalScale m - i)).trans_lt (f.decimalScale_spec hm).2
    rw [Decimal.value, hpow, mul_lt_mul_iff_left₀ hunit] at hlt
    exact_mod_cast hlt
  have hdigits : d.digits ≤ 10 ^ i := by
    rcases mem_neighbours.1 hmem with rfl | rfl
    · exact hfloor.le
    · exact hfloor
  rcases Nat.eq_zero_or_pos i with rfl | hi
  · exact length_decimal_le (k := 1) Nat.one_pos (Nat.lt_of_le_of_lt hdigits (by decide))
  · -- a power of ten would have been found on the first grid
    have hne : d.digits ≠ 10 ^ i := by
      intro heq
      have hexponent : d.exponent = f.decimalScale m - i := by
        rcases mem_neighbours.1 hmem with rfl | rfl <;> rfl
      have hvalue : d.value = 10 ^ f.decimalScale m := by
        rw [Decimal.value, heq, hexponent, hpow]
        push_cast
        rfl
      have hnone := hbefore 0 hi
      rw [Nat.cast_zero, sub_zero] at hnone
      exact candidate?_ne_none_of_le hf hm hfinite hround hvalue.ge hnone
    exact (length_decimal_le hi (lt_of_le_of_ne hdigits hne)).trans (le_max_left _ _)

end Grids

/-- No decimal with fewer digits than the shortest reads back. -/
theorem length_decimal_shortest_le (hf : 0 < f.fractionBits) (hlimit : f.HasDigitLimit) (hm : 0 < m)
    (hfinite : m < f.infinity) {c : Decimal} (hc : f.round c = m) :
    (decimal (f.shortest m).digits).length ≤ (decimal c.digits).length := by
  obtain ⟨i, hshortest, hbefore⟩ := exists_candidate?_shortest hf hlimit hm hfinite
  obtain ⟨j, hj, hsome⟩ := exists_candidate?_ne_none hf hm hfinite hc
  have hij : i ≤ j := Nat.le_of_not_lt fun hlt => hsome (hbefore j hlt)
  have hpos : 1 ≤ (decimal c.digits).length := Nat.length_toDigits_pos
  have hle := length_decimal_candidate?_le hf hm hfinite hshortest hbefore
  omega

/-! ## 7. The shortest decimal -/

/-- The decimal reads back as the magnitude, none with fewer digits does, and of those on its grid
that do none is nearer to the value. -/
structure IsShortest (f : BinaryFormat) (m : Nat) (d : Decimal) : Prop where
  reads_back : f.round d = m
  fewest : ∀ c : Decimal, f.round c = m → (decimal d.digits).length ≤ (decimal c.digits).length
  nearest : ∀ c : Decimal, f.round c = m → c.exponent = d.exponent →
    |d.value - f.value m| ≤ |c.value - f.value m|

/-- No decimal with fewer digits is rounded to the magnitude, and none with as many is nearer. -/
theorem isShortest_shortest (hf : 0 < f.fractionBits) (hlimit : f.HasDigitLimit) (hm : 0 < m)
    (hfinite : m < f.infinity) : f.IsShortest m (f.shortest m) where
  reads_back := round_shortest hf hfinite
  fewest _ hc := length_decimal_shortest_le hf hlimit hm hfinite hc
  nearest c hc hexponent := by
    obtain ⟨i, hshortest, -⟩ := exists_candidate?_shortest hf hlimit hm hfinite
    have hgrid : (f.shortest m).exponent = f.decimalScale m - i := by
      rcases mem_neighbours.1 (candidate?_spec hshortest).2 with heq | heq
      · rw [heq]
      · rw [heq]
    rw [← hgrid, ← hexponent] at hshortest
    exact abs_candidate?_sub_le hf hfinite hshortest hc

end BinaryFormat

end MemoryKit.Number
