import MemoryKit.Proofs.IntegerText
import MemoryKit.Proofs.PositionalText
import MemoryKit.Proofs.ShortestDecimal
import MemoryKit.Proofs.ValueBytes
import MemoryKit.Value.Display
import MemoryKit.Value.Reading

/-!
# Displayed floating-point values read back

The text of a floating-point value that is no NaN is a sign and the word of the infinity or a
positional decimal, the shortest that reads back. It gives the value again, to the last bit, and
never has an exponent.
-/

namespace MemoryKit

-- powers of naturals are those of the core library, whatever else is imported
attribute [local instance (high)] instPowNat

namespace Number.BinaryFormat

variable {f : BinaryFormat} {m : Nat} {text : List Char}

/-! ## 1. Bits -/

/-- All exponent bits are set, and a fraction bit is. -/
def IsNan (f : BinaryFormat) (bits : BitVec f.width) : Prop :=
  bits.toNat / f.binade % 2 ^ f.exponentBits = 2 ^ f.exponentBits - 1 ∧
    bits.toNat % f.binade ≠ 0

instance (bits : BitVec f.width) : Decidable (f.IsNan bits) :=
  inferInstanceAs (Decidable (_ ∧ _))

theorem isNan_iff (bits : BitVec f.width) : f.IsNan bits ↔ f.infinity < f.magnitude bits := by
  have hweight : f.signWeight = f.binade * 2 ^ f.exponentBits := by
    rw [signWeight, binade, ← Nat.pow_add, Nat.add_comm]
  have hexponent : bits.toNat / f.binade % 2 ^ f.exponentBits < 2 ^ f.exponentBits :=
    Nat.mod_lt _ (Nat.two_pow_pos _)
  have hfraction : bits.toNat % f.binade < f.binade := Nat.mod_lt _ f.binade_pos
  unfold IsNan infinity magnitude
  rw [hweight, Nat.mod_mul, Nat.mul_comm (2 ^ f.exponentBits - 1)]
  generalize bits.toNat / f.binade % 2 ^ f.exponentBits = e at *
  generalize bits.toNat % f.binade = r at *
  constructor
  · rintro ⟨rfl, hr⟩
    omega
  · intro hlt
    have he : e = 2 ^ f.exponentBits - 1 := by
      apply Nat.le_antisymm (by omega)
      apply Nat.le_of_not_lt
      intro hless
      have hmul : f.binade * (e + 1) ≤ f.binade * (2 ^ f.exponentBits - 1) :=
        Nat.mul_le_mul_left _ hless
      rw [Nat.mul_add, Nat.mul_one] at hmul
      omega
    subst he
    exact ⟨rfl, by omega⟩

/-- The sign bit and the bits below it are all bits. -/
theorem ofSignMagnitude_eq (bits : BitVec f.width) :
    f.ofSignMagnitude (f.isNegative bits) (f.magnitude bits) = bits := by
  have hlt : bits.toNat < 2 * f.signWeight := by
    have hwidth : 2 ^ f.width = 2 * f.signWeight := by
      rw [width, signWeight, Nat.add_assoc, Nat.pow_add, Nat.pow_one]
    rw [← hwidth]
    exact bits.isLt
  have hsum : (if f.isNegative bits then f.signWeight + f.magnitude bits else f.magnitude bits) =
      bits.toNat := by
    unfold isNegative magnitude
    by_cases hneg : f.signWeight ≤ bits.toNat
    · rw [if_pos (decide_eq_true hneg), Nat.mod_eq_sub_mod hneg, Nat.mod_eq_of_lt (by omega)]
      omega
    · rw [if_neg (by simpa using hneg), Nat.mod_eq_of_lt (by omega)]
  unfold ofSignMagnitude
  rw [hsum, BitVec.ofNat_toNat, BitVec.setWidth_eq]

/-! ## 2. Magnitudes -/

def unsignedText (f : BinaryFormat) (m : Nat) : List Char :=
  if m = f.infinity then "inf".toList else if m = 0 then ['0'] else (f.shortest m).positional

theorem toNat_lt_of_isDigit {c : Char} (hc : c.isDigit) : c.toNat < 128 :=
  Nat.lt_of_le_of_lt (Char.isDigit_iff_toNat.1 hc).2 (by decide)

/-- No word begins with a digit. -/
theorem readMagnitude?_of_isPositional (h : IsPositional text) :
    f.readMagnitude? text = (Decimal.read? text).map f.round := by
  obtain ⟨c, rest, rfl, hc⟩ := h.exists_eq_cons
  have hletter : c.toLower ≠ 'i' ∧ c.toLower ≠ 'n' :=
    forall_ascii (p := fun c => c.isDigit → c.toLower ≠ 'i' ∧ c.toLower ≠ 'n') (by decide)
      (toNat_lt_of_isDigit hc) hc
  have hword (word : String) (hhead : word.toList.head? = some 'i' ∨ word.toList.head? = some 'n') :
      String.ofList ((c :: rest).map Char.toLower) ≠ word := by
    rintro rfl
    rw [String.toList_ofList] at hhead
    rcases hhead with hhead | hhead
    · exact hletter.1 (Option.some.inj hhead)
    · exact hletter.2 (Option.some.inj hhead)
  unfold readMagnitude?
  dsimp only
  rw [if_neg (not_or.2 ⟨hword _ (Or.inl rfl), hword _ (Or.inl rfl)⟩), if_neg (hword _ (Or.inr rfl))]

theorem isPositional_zero : IsPositional ['0'] :=
  .whole (List.cons_ne_nil _ _) (List.all_eq_true.1 (by decide))

/-- The word of the infinity, or digits with at most one point. -/
theorem unsignedText_cases (f : BinaryFormat) (m : Nat) :
    f.unsignedText m = "inf".toList ∨ IsPositional (f.unsignedText m) := by
  unfold unsignedText
  by_cases hinfinity : m = f.infinity
  · exact Or.inl (if_pos hinfinity)
  · rw [if_neg hinfinity]
    by_cases hzero : m = 0
    · rw [if_pos hzero]
      exact Or.inr isPositional_zero
    · rw [if_neg hzero]
      exact Or.inr (Decimal.isPositional_positional _)

/-- The text of a magnitude is read as that magnitude. -/
theorem readMagnitude?_unsignedText (hf : 0 < f.fractionBits) (hm : m ≤ f.infinity) :
    f.readMagnitude? (f.unsignedText m) = some m := by
  unfold unsignedText
  by_cases hinfinity : m = f.infinity
  · rw [if_pos hinfinity, hinfinity]
    rfl
  · rw [if_neg hinfinity]
    by_cases hzero : m = 0
    · rw [if_pos hzero, readMagnitude?_of_isPositional isPositional_zero, hzero]
      rfl
    · rw [if_neg hzero, readMagnitude?_of_isPositional (Decimal.isPositional_positional _)]
      obtain ⟨d, hread, hnumerator, hdenominator⟩ :=
        Decimal.exists_read?_positional (f.shortest m)
      have hround : f.round d = f.round (f.shortest m) := by
        rw [round, hnumerator, hdenominator, round]
      rw [hread, Option.map_some, hround, round_shortest hf (by omega)]

theorem splitSign_unsignedText (f : BinaryFormat) (m : Nat) :
    splitSign (f.unsignedText m) = (false, f.unsignedText m) := by
  rcases f.unsignedText_cases m with htext | htext
  · rw [htext]
    rfl
  · obtain ⟨c, rest, heq, hc⟩ := htext.exists_eq_cons
    rw [heq]
    apply splitSign_of_head?_ne
    · intro h
      rw [Option.some.inj h] at hc
      exact absurd hc (by decide)
    · intro h
      rw [Option.some.inj h] at hc
      exact absurd hc (by decide)

/-! ## 3. Signs -/

theorem display_eq {bits : BitVec f.width} (hnan : ¬f.IsNan bits) :
    f.display bits =
      (if f.isNegative bits then ['-'] else []) ++ f.unsignedText (f.magnitude bits) := by
  unfold display
  dsimp only
  rw [if_neg (mt (isNan_iff bits).2 hnan)]
  cases f.isNegative bits <;> rfl

/-- A number that is written is read back to the bit, signed zeros and infinities too. -/
theorem read?_display (hf : 0 < f.fractionBits) {bits : BitVec f.width} (hnan : ¬f.IsNan bits) :
    f.read? (f.display bits) = some bits := by
  have hread := readMagnitude?_unsignedText hf (Nat.le_of_not_lt (mt (isNan_iff bits).2 hnan))
  have hbits := ofSignMagnitude_eq bits
  rw [display_eq hnan]
  unfold read?
  cases hneg : f.isNegative bits with
  | true =>
    show (f.readMagnitude? (f.unsignedText (f.magnitude bits))).map (f.ofSignMagnitude true) = _
    rw [hread, Option.map_some, ← hneg, hbits]
  | false =>
    have hsplit := f.splitSign_unsignedText (f.magnitude bits)
    simp only [Bool.false_eq_true, if_false, List.nil_append, hsplit]
    rw [hread, Option.map_some, ← hneg, hbits]

/-- What a displayed value is made of: digits, a point, a sign and the word of the infinity. -/
def isDisplayChar (c : Char) : Bool :=
  c.isDigit || "-.inf".toList.contains c

theorem isDisplayChar_of_mem {bits : BitVec f.width} (hnan : ¬f.IsNan bits) {c : Char}
    (hc : c ∈ f.display bits) : isDisplayChar c := by
  rw [display_eq hnan, List.mem_append] at hc
  rcases hc with hc | hc
  · split at hc
    · rw [List.mem_singleton.1 hc]
      decide
    · cases hc
  · rcases f.unsignedText_cases (f.magnitude bits) with htext | htext
    · rw [htext] at hc
      exact List.all_eq_true.1 (by decide : "inf".toList.all isDisplayChar) c hc
    · rcases htext.isDigit_or_eq hc with hc | rfl
      · rw [isDisplayChar, hc, Bool.true_or]
      · decide

theorem toNat_lt_of_isDisplayChar {c : Char} (hc : isDisplayChar c) : c.toNat < 128 := by
  rw [isDisplayChar, Bool.or_eq_true, List.contains_iff_mem] at hc
  rcases hc with hc | hc
  · exact toNat_lt_of_isDigit hc
  · have hall : "-.inf".toList.all (·.toNat < 128) := by decide
    exact of_decide_eq_true (List.all_eq_true.1 hall c hc)

/-- A text has no blank and no exponent. -/
theorem not_blank_of_isDisplayChar {c : Char} (hc : isDisplayChar c) :
    Text.isBlank c = false ∧ c ≠ 'e' ∧ c ≠ 'E' :=
  forall_ascii (p := fun c => isDisplayChar c → Text.isBlank c = false ∧ c ≠ 'e' ∧ c ≠ 'E')
    (by decide) (toNat_lt_of_isDisplayChar hc) hc

end Number.BinaryFormat

/-! ## 4. Values -/

theorem FloatType.fractionBits_pos (t : FloatType) : 0 < t.format.fractionBits := by
  cases t <;> decide

theorem FloatType.hasDigitLimit (t : FloatType) : t.format.HasDigitLimit := by
  unfold Number.BinaryFormat.HasDigitLimit
  cases t <;> decide

/-- The text of a number has the fewest digits that are read as it, in both formats. -/
theorem FloatType.isShortest_shortest (t : FloatType) {m : Nat} (hm : 0 < m)
    (hfinite : m < t.format.infinity) : t.format.IsShortest m (t.format.shortest m) :=
  Number.BinaryFormat.isShortest_shortest t.fractionBits_pos t.hasDigitLimit hm hfinite

theorem FloatType.read_display {t : FloatType} {bits : BitVec t.format.width}
    (hnan : ¬t.format.IsNan bits) :
    (DataType.floating t).read (Value.floating t bits).display = .ok (.floating t bits) := by
  have htrim : Text.trim (Value.floating t bits).display.toList = t.format.display bits := by
    rw [Value.display, String.toList_ofList]
    apply Text.trim_eq_self
    intro c hc
    exact (Number.BinaryFormat.not_blank_of_isDisplayChar
      (Number.BinaryFormat.isDisplayChar_of_mem hnan hc)).1
  unfold DataType.read DataType.readTrimmed
  simp only [htrim, Number.BinaryFormat.read?_display t.fractionBits_pos hnan]
  rfl

namespace Value

def IsNan : Value → Prop
  | .floating t bits => t.format.IsNan bits
  | _ => False

/-- The text of floating-point bits that are no NaN reads back as the same bytes, subnormal numbers,
both zeros and both infinities included, and no exponent stands in it. -/
theorem read_display_of_decode? {t : FloatType} {bytes : Bytes} {v : Value}
    (hv : decode? (.floating t) bytes = some v) (hnan : ¬v.IsNan) :
    (∃ w, (DataType.floating t).read v.display = .ok w ∧ w.encode = bytes) ∧
      ∀ c ∈ v.display.toList, c ≠ 'e' ∧ c ≠ 'E' := by
  obtain ⟨htype, hbytes⟩ := DataType.type_and_encode_of_decode? hv
  cases v with
  | bool => cases htype
  | integer => cases htype
  | floating u bits =>
    cases htype
    refine ⟨⟨_, FloatType.read_display hnan, hbytes⟩, fun c hc => ?_⟩
    rw [display, String.toList_ofList] at hc
    exact (Number.BinaryFormat.not_blank_of_isDisplayChar
      (Number.BinaryFormat.isDisplayChar_of_mem hnan hc)).2

/-- The least positive value, and the negative zero. -/
theorem read_display_of_decode?_edges :
    (decode? (.floating .float) [1, 0, 0, 0] = some (.floating .float 1#32) ∧
      ¬IsNan (.floating .float 1#32) ∧
      ∃ w, (DataType.floating .float).read "0.000000000000000000000000000000000000000000001" = .ok w ∧
        w.encode = [1, 0, 0, 0]) ∧
    (decode? (.floating .double) [0, 0, 0, 0, 0, 0, 0, 0x80] =
        some (.floating .double 0x8000000000000000#64) ∧
      ¬IsNan (.floating .double 0x8000000000000000#64) ∧
      ∃ w, (DataType.floating .double).read "-0" = .ok w ∧
        w.encode = [0, 0, 0, 0, 0, 0, 0, 0x80]) := by
  have hleast : decode? (.floating .float) [1, 0, 0, 0] = some (.floating .float 1#32) := by decide
  have hzero : decode? (.floating .double) [0, 0, 0, 0, 0, 0, 0, 0x80] =
      some (.floating .double 0x8000000000000000#64) := by decide
  have hleastNumber : ¬IsNan (.floating .float 1#32) := by
    show ¬Number.BinaryFormat.IsNan _ _
    decide
  have hzeroNumber : ¬IsNan (.floating .double 0x8000000000000000#64) := by
    show ¬Number.BinaryFormat.IsNan _ _
    decide
  have hleastText : (floating .float 1#32).display =
      "0.000000000000000000000000000000000000000000001" := by decide +kernel
  have hzeroText : (floating .double 0x8000000000000000#64).display = "-0" := by decide +kernel
  obtain ⟨hleastRead, -⟩ := read_display_of_decode? hleast hleastNumber
  obtain ⟨hzeroRead, -⟩ := read_display_of_decode? hzero hzeroNumber
  rw [hleastText] at hleastRead
  rw [hzeroText] at hzeroRead
  exact ⟨⟨hleast, hleastNumber, hleastRead⟩, hzero, hzeroNumber, hzeroRead⟩

end Value

end MemoryKit
