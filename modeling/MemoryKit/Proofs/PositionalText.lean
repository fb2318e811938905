import Mathlib.Data.List.TakeWhile
import MemoryKit.Number.Decimal
import MemoryKit.Proofs.Numeral

/-!
# Positional texts

A decimal is written in digits with at most one point among them, never with an exponent, and is
read from that text as a decimal with the same ratio of naturals.
-/

namespace MemoryKit.Number

-- powers are those of the core library, whatever else is imported
attribute [local instance (high)] instPowNat

variable {whole fraction digits : List Char} {n : Nat}

/-! ## 1. The form of a positional text -/

/-- Digits, and perhaps a point with more digits behind it. -/
inductive IsPositional : List Char → Prop
  | whole {digits : List Char} (hne : digits ≠ []) (hdigits : ∀ c ∈ digits, c.isDigit) :
      IsPositional digits
  | point {whole fraction : List Char} (hne : whole ≠ []) (hwhole : ∀ c ∈ whole, c.isDigit)
      (hne' : fraction ≠ []) (hfraction : ∀ c ∈ fraction, c.isDigit) :
      IsPositional (whole ++ '.' :: fraction)

theorem IsPositional.exists_eq_cons {text : List Char} (h : IsPositional text) :
    ∃ c rest, text = c :: rest ∧ c.isDigit := by
  cases h with
  | whole hne hdigits =>
    obtain ⟨c, rest, rfl⟩ := List.exists_cons_of_ne_nil hne
    exact ⟨c, rest, rfl, hdigits c List.mem_cons_self⟩
  | point hne hwhole =>
    obtain ⟨c, rest, rfl⟩ := List.exists_cons_of_ne_nil hne
    exact ⟨c, _, rfl, hwhole c List.mem_cons_self⟩

theorem IsPositional.isDigit_or_eq {text : List Char} (h : IsPositional text) {c : Char}
    (hc : c ∈ text) : c.isDigit ∨ c = '.' := by
  cases h with
  | whole _ hdigits => exact Or.inl (hdigits c hc)
  | point _ hwhole _ hfraction =>
    rw [List.mem_append, List.mem_cons] at hc
    rcases hc with hc | hc | hc
    · exact Or.inl (hwhole c hc)
    · exact Or.inr hc
    · exact Or.inl (hfraction c hc)

namespace Decimal

/-! ## 2. Reading -/

theorem read?_digits (hdigits : ∀ c ∈ digits, c.isDigit) (hread : readNat? 10 digits = some n) :
    read? digits = some ⟨n, 0⟩ := by
  have htake : digits.takeWhile Char.isDigit = digits := List.takeWhile_eq_self_iff.2 hdigits
  have hdrop : digits.dropWhile Char.isDigit = [] := List.dropWhile_eq_nil_iff.2 hdigits
  unfold read?
  rw [htake, hdrop]
  simp only [splitFraction, List.append_nil, hread]
  rfl

/-- Digits behind the point lower the exponent, each by one. -/
theorem read?_point (hwhole : ∀ c ∈ whole, c.isDigit) (hfraction : ∀ c ∈ fraction, c.isDigit)
    (hread : readNat? 10 (whole ++ fraction) = some n) :
    read? (whole ++ '.' :: fraction) = some ⟨n, -fraction.length⟩ := by
  have hpoint : ('.' :: fraction).dropWhile Char.isDigit = '.' :: fraction := rfl
  have htake : (whole ++ '.' :: fraction).takeWhile Char.isDigit = whole := by
    rw [List.takeWhile_append_of_pos hwhole]
    exact List.append_nil whole
  have hdrop : (whole ++ '.' :: fraction).dropWhile Char.isDigit = '.' :: fraction := by
    rw [List.dropWhile_append_of_pos hwhole, hpoint]
  have htake' : fraction.takeWhile Char.isDigit = fraction := List.takeWhile_eq_self_iff.2 hfraction
  have hdrop' : fraction.dropWhile Char.isDigit = [] := List.dropWhile_eq_nil_iff.2 hfraction
  unfold read?
  rw [htake, hdrop]
  simp only [splitFraction, htake', hdrop', hread]
  show some (Decimal.mk n (0 - fraction.length)) = some ⟨n, -fraction.length⟩
  rw [Int.zero_sub]

/-! ## 3. Writing -/

/-- The digits on the two sides of the point. -/
theorem insertPoint_spec {places : Nat} (hplaces : 0 < places) (n : Nat) :
    ∃ whole fraction, insertPoint (decimal n) places = whole ++ '.' :: fraction ∧
      fraction.length = places ∧ whole ≠ [] ∧ (∀ c ∈ whole, c.isDigit) ∧
      (∀ c ∈ fraction, c.isDigit) ∧ readNat? 10 (whole ++ fraction) = some n := by
  have hdecimal (c : Char) (hc : c ∈ decimal n) : c.isDigit := isDigit_of_mem_decimal hc
  unfold insertPoint
  by_cases hlt : places < (decimal n).length
  · rw [if_pos hlt]
    refine ⟨_, _, rfl, ?_, ?_, fun c hc => hdecimal c (List.mem_of_mem_take hc),
      fun c hc => hdecimal c (List.mem_of_mem_drop hc), ?_⟩
    · rw [List.length_drop]
      omega
    · rw [← List.length_pos_iff, List.length_take]
      omega
    · rw [List.take_append_drop, readNat?_decimal]
  · rw [if_neg hlt]
    -- too few digits, so zeros fill the places and a zero stands before the point
    refine ⟨['0'], (decimal n).leftpad places '0', rfl, ?_, List.cons_ne_nil _ _, ?_, ?_, ?_⟩
    · rw [List.length_leftpad]
      omega
    · intro c hc
      rw [List.mem_singleton.1 hc]
      decide
    · intro c hc
      rw [List.leftpad, List.mem_append, List.mem_replicate] at hc
      rcases hc with ⟨-, rfl⟩ | hc
      · decide
      · exact hdecimal c hc
    · have hzeros : ['0'] ++ (decimal n).leftpad places '0' =
          List.replicate (places - (decimal n).length + 1) '0' ++ decimal n := by
        rw [List.replicate_succ]
        rfl
      rw [hzeros, readNat?_of_ne_nil (by simp), continueNat?_append,
        continueNat?_replicate_zero (by decide), Option.bind_some, Nat.zero_mul,
        ← readNat?_of_ne_nil (decimal_ne_nil n), readNat?_decimal]

/-- A decimal is written in digits with at most one point. -/
theorem isPositional_positional (d : Decimal) : IsPositional d.positional := by
  unfold positional
  by_cases hneg : d.exponent < 0
  · rw [if_pos hneg]
    have hplaces : 0 < (-d.exponent).toNat := by omega
    obtain ⟨whole, fraction, heq, hlen, hne, hwhole, hfraction, -⟩ :=
      insertPoint_spec hplaces d.digits
    rw [heq]
    exact .point hne hwhole (List.ne_nil_of_length_pos (by omega)) hfraction
  · rw [if_neg hneg]
    refine .whole (by simp [decimal_ne_nil]) fun c hc => ?_
    rcases List.mem_append.1 hc with hc | hc
    · exact isDigit_of_mem_decimal hc
    · rw [(List.mem_replicate.1 hc).2]
      decide

/-- The decimal that is read from a positional text has the same numerator and denominator. -/
theorem exists_read?_positional (d : Decimal) :
    ∃ d', read? d.positional = some d' ∧ d'.numerator = d.numerator ∧
      d'.denominator = d.denominator := by
  unfold positional
  by_cases hneg : d.exponent < 0
  · rw [if_pos hneg]
    have hplaces : 0 < (-d.exponent).toNat := by omega
    obtain ⟨whole, fraction, heq, hlen, -, hwhole, hfraction, hread⟩ :=
      insertPoint_spec hplaces d.digits
    have hexponent : -(fraction.length : Int) = d.exponent := by omega
    rw [heq, read?_point hwhole hfraction hread, hexponent]
    exact ⟨d, rfl, rfl, rfl⟩
  · rw [if_neg hneg]
    -- a whole number is written with its zeros, so it is read with another exponent
    have hread : readNat? 10 (decimal d.digits ++ List.replicate d.exponent.toNat '0') =
        some (d.digits * 10 ^ d.exponent.toNat) := by
      rw [readNat?_of_ne_nil (by simp [decimal_ne_nil]), continueNat?_append,
        ← readNat?_of_ne_nil (decimal_ne_nil _), readNat?_decimal, Option.bind_some,
        continueNat?_replicate_zero (by decide)]
    have hdigits (c : Char) (hc : c ∈ decimal d.digits ++ List.replicate d.exponent.toNat '0') :
        c.isDigit := by
      rcases List.mem_append.1 hc with hc | hc
      · exact isDigit_of_mem_decimal hc
      · rw [(List.mem_replicate.1 hc).2]
        decide
    rw [read?_digits hdigits hread]
    refine ⟨_, rfl, Nat.mul_one _, ?_⟩
    unfold denominator
    rw [show (-d.exponent).toNat = 0 by omega]
    rfl

end Decimal

end MemoryKit.Number
