import MemoryKit.Proofs.Numeral
import MemoryKit.Value.Display
import MemoryKit.Value.Reading

/-!
# Displayed values read back

The text of a truth value is one of its words, and the text of an integer or a pointer denotes an
integer in the range of the type. So reading such a text as a value of its type gives the value.
-/

namespace MemoryKit

-- powers are those of the core library, whatever else is imported
attribute [local instance (high)] instPowNat

/-! ## 1. Integers of a type -/

namespace IntegerType

variable {t : IntegerType} (bits : BitVec t.width)

def isCharacter : IntegerType → Bool
  | .char | .wchar => true
  | _ => false

theorem least_le_toInt : t.least ≤ t.toInt bits := by
  unfold least toInt
  by_cases hs : t.isSigned
  · rw [if_pos hs, if_pos hs]
    exact BitVec.le_toInt bits
  · rw [if_neg hs, if_neg hs]
    exact Int.natCast_nonneg _

theorem toInt_le_greatest : t.toInt bits ≤ t.greatest := by
  unfold greatest toInt
  by_cases hs : t.isSigned
  · rw [if_pos hs, if_pos hs]
    exact Int.le_sub_one_of_lt BitVec.toInt_lt
  · rw [if_neg hs, if_neg hs]
    apply Int.le_sub_one_of_lt
    exact_mod_cast bits.isLt

/-- The bits of a value are those of the number it stands for. -/
theorem ofInt_toInt : BitVec.ofInt t.width (t.toInt bits) = bits := by
  unfold toInt
  by_cases hs : t.isSigned
  · rw [if_pos hs, BitVec.ofInt_toInt]
  · rw [if_neg hs, BitVec.ofInt_natCast, BitVec.ofNat_toNat, BitVec.setWidth_eq]

theorem ofInt?_toInt : t.ofInt? (t.toInt bits) = some bits := by
  unfold ofInt?
  rw [if_pos ⟨least_le_toInt bits, toInt_le_greatest bits⟩, ofInt_toInt]

/-- No number of a type is too large for the reader. -/
theorem natAbs_toInt_le : (t.toInt bits).natAbs ≤ Number.largestMagnitude := by
  have hle := least_le_toInt bits
  have hge := toInt_le_greatest bits
  have hleast : -2 ^ (63 : Nat) ≤ t.least := by cases t <;> decide
  have hgreatest : t.greatest ≤ 2 ^ (64 : Nat) - 1 := by cases t <;> decide
  show _ ≤ 2 ^ (127 : Nat) - 1
  omega

variable {bits}

/-- The text of an integer or a pointer denotes the integer of its bits. -/
theorem readInteger?_display (ht : t.isCharacter = false) :
    Number.readInteger? (String.ofList (t.display bits)) = some (t.toInt bits) := by
  have hle := natAbs_toInt_le bits
  cases t with
  | char | wchar => cases ht
  | voidp =>
    show Number.readInteger? (String.ofList ((Number.Numeral.hex true 1).write bits.toNat)) = _
    exact Number.readInteger?_write _ hle
  | _ => exact Number.readInteger?_signedDecimal hle

theorem readNumber_display (ht : t.isCharacter = false) :
    t.readNumber (String.ofList (t.display bits)) = .ok bits := by
  unfold readNumber
  rw [readInteger?_display ht]
  simp only [ofInt?_toInt]

theorem read_display (ht : t.isCharacter = false) : t.read (t.display bits) = .ok bits := by
  rw [← readNumber_display ht]
  cases t with
  | char | wchar => cases ht
  | _ => rfl

theorem isBlank_of_mem_display (ht : t.isCharacter = false) {c : Char} (hc : c ∈ t.display bits) :
    Text.isBlank c = false := by
  cases t with
  | char | wchar => cases ht
  | voidp => exact Number.Numeral.isBlank_of_mem_write (.hex true 1) hc
  | _ => exact Number.isBlank_of_mem_signedDecimal hc

end IntegerType

/-! ## 2. Values -/

def DataType.isIntegral : DataType → Bool
  | .bool => true
  | .integer t => !t.isCharacter
  | .floating _ => false

variable {v : Value}

theorem readTrimmed_display (hv : v.type.isIntegral) :
    v.type.readTrimmed v.display.toList = .ok v := by
  cases v with
  | bool b => cases b <;> rfl
  | integer t bits =>
    have ht : t.isCharacter = false := by simpa [Value.type, DataType.isIntegral] using hv
    show (t.read (String.ofList (t.display bits)).toList).map (Value.integer t) = _
    rw [String.toList_ofList, IntegerType.read_display ht]
    rfl
  | floating => cases hv

theorem isBlank_of_mem_display (hv : v.type.isIntegral) {c : Char} (hc : c ∈ v.display.toList) :
    Text.isBlank c = false := by
  cases v with
  | bool b =>
    have hall : (Value.bool b).display.toList.all (!Text.isBlank ·) := by cases b <;> decide
    simpa using List.all_eq_true.1 hall c hc
  | integer t bits =>
    have ht : t.isCharacter = false := by simpa [Value.type, DataType.isIntegral] using hv
    rw [Value.display, String.toList_ofList] at hc
    exact IntegerType.isBlank_of_mem_display ht hc
  | floating => cases hv

theorem read_display (hv : v.type.isIntegral) : v.type.read v.display = .ok v := by
  unfold DataType.read
  rw [Text.trim_eq_self fun c hc => isBlank_of_mem_display hv hc, readTrimmed_display hv]
  rfl

/-! ## 3. Blanks around the text -/

/-- Blanks around a displayed value change nothing. -/
theorem read_display_of_blanks (hv : v.type.isIntegral) {left right : List Char}
    (hleft : ∀ c ∈ left, Text.isBlank c) (hright : ∀ c ∈ right, Text.isBlank c) :
    v.type.read (String.ofList (left ++ (v.display.toList ++ right))) = .ok v := by
  unfold DataType.read
  rw [String.toList_ofList, Text.trim_append hleft hright fun c hc => isBlank_of_mem_display hv hc,
    readTrimmed_display hv]
  rfl

/-- The text of a truth value, an integer or a pointer reads back as the value, whatever blanks
stand around it; so two values of a type never have the same text. -/
theorem display_reads_back (hv : v.type.isIntegral) :
    (∀ left right : List Char, (∀ c ∈ left, Text.isBlank c) → (∀ c ∈ right, Text.isBlank c) →
      v.type.read (String.ofList (left ++ (v.display.toList ++ right))) = .ok v) ∧
    ∀ w : Value, w.type = v.type → w.display = v.display → w = v := by
  refine ⟨fun _ _ hleft hright => read_display_of_blanks hv hleft hright, fun w htype htext => ?_⟩
  have hw : v.type.read w.display = .ok w := htype ▸ read_display (htype ▸ hv)
  rw [htext, read_display hv] at hw
  exact (Except.ok.inj hw).symm

/-- The least integer of sixty-four bits, and the last address. -/
theorem display_reads_back_extremes :
    DataType.isIntegral (.integer .int64) ∧ DataType.isIntegral (.integer .voidp) ∧
      (∀ c ∈ ['\u3000'], Text.isBlank c) ∧ (∀ c ∈ ['\r', '\n'], Text.isBlank c) ∧
      (DataType.integer .int64).read "\u3000-9223372036854775808\r\n" =
        .ok (.integer .int64 0x8000000000000000#64) ∧
      (DataType.integer .voidp).read "\u30000xFFFFFFFFFFFFFFFF\r\n" =
        .ok (.integer .voidp 0xFFFFFFFFFFFFFFFF#64) := by
  have hleft : ∀ c ∈ ['\u3000'], Text.isBlank c := List.all_eq_true.1 (by decide)
  have hright : ∀ c ∈ ['\r', '\n'], Text.isBlank c := List.all_eq_true.1 (by decide)
  have hleast : "\u3000-9223372036854775808\r\n" = String.ofList (['\u3000'] ++
      ((Value.integer .int64 0x8000000000000000#64).display.toList ++ ['\r', '\n'])) := by
    decide +kernel
  have hlast : "\u30000xFFFFFFFFFFFFFFFF\r\n" = String.ofList (['\u3000'] ++
      ((Value.integer .voidp 0xFFFFFFFFFFFFFFFF#64).display.toList ++ ['\r', '\n'])) := by
    decide +kernel
  obtain ⟨hreads, -⟩ := display_reads_back (v := .integer .int64 0x8000000000000000#64) rfl
  obtain ⟨hreads', -⟩ := display_reads_back (v := .integer .voidp 0xFFFFFFFFFFFFFFFF#64) rfl
  rw [hleast, hlast]
  exact ⟨rfl, rfl, hleft, hright, hreads _ _ hleft hright, hreads' _ _ hleft hright⟩

end MemoryKit
