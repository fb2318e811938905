import MemoryKit.Settings
import MemoryKit.Source.Lexeme

/-!
# ASCII texts and their bytes

An ASCII character is one byte, and the bytes of every other character have their high bit set. So
the ASCII bytes of a text are its ASCII characters, and what a text of letters, digits and
underscores holds can be read off its bytes.
-/

namespace MemoryKit

open Bytes

/-! ## 1. Characters as bytes -/

theorem toNat_ascii {c : Char} (hc : c.toNat < 128) : (ascii c).toNat = c.toNat := by
  unfold ascii
  rw [UInt8.toNat_ofNat', Nat.mod_eq_of_lt (by omega)]

theorem utf8EncodeChar_of_lt {c : Char} (hc : c.toNat < 128) :
    String.utf8EncodeChar c = [ascii c] := by
  have hsize : c.utf8Size = 1 := by
    rw [Char.utf8Size_eq_one_iff, UInt32.le_iff_toNat_le]
    exact Nat.le_of_lt_succ hc
  rw [String.utf8EncodeChar_eq_singleton hsize]
  apply congrArg (· :: [])
  apply UInt8.toNat_inj.1
  rw [toNat_ascii hc, UInt32.toNat_toUInt8]
  exact Nat.mod_eq_of_lt (by rw [Char.toNat_val]; omega)

/-- The bytes of a character outside ASCII have their high bit set. -/
theorem le_toNat_of_mem_utf8EncodeChar {c : Char} (hc : 128 ≤ c.toNat) {b : UInt8}
    (hb : b ∈ String.utf8EncodeChar c) : 128 ≤ b.toNat := by
  have hv : c.val.toNat = c.toNat := rfl
  fun_cases String.utf8EncodeChar c with
  | case1 v h => omega
  | case2 v h =>
    rw [String.utf8EncodeChar, if_neg (by omega), if_pos (by omega)] at hb
    simp only [List.mem_cons, List.not_mem_nil, or_false] at hb
    rcases hb with rfl | rfl <;> rw [UInt8.toNat_ofNat'] <;> omega
  | case3 v h h' =>
    rw [String.utf8EncodeChar, if_neg (by omega), if_neg (by omega), if_pos (by omega)] at hb
    simp only [List.mem_cons, List.not_mem_nil, or_false] at hb
    rcases hb with rfl | rfl | rfl <;> rw [UInt8.toNat_ofNat'] <;> omega
  | case4 v h h' h'' =>
    rw [String.utf8EncodeChar, if_neg (by omega), if_neg (by omega), if_neg (by omega)] at hb
    simp only [List.mem_cons, List.not_mem_nil, or_false] at hb
    rcases hb with rfl | rfl | rfl | rfl <;> rw [UInt8.toNat_ofNat'] <;> omega

theorem ascii_inj {c d : Char} (hc : c.toNat < 128) (hd : d.toNat < 128)
    (h : ascii c = ascii d) : c = d := by
  apply Char.toNat_inj.1
  rw [← toNat_ascii hc, ← toNat_ascii hd, h]

/-! ## 2. Texts as bytes -/

/-- A text of characters below 128 has one byte for each. -/
theorem utf8_eq_map_ascii {text : String} (h : ∀ c ∈ text.toList, c.toNat < 128) :
    utf8 text = text.toList.map ascii := by
  unfold utf8
  generalize text.toList = chars at h
  induction chars with
  | nil => rfl
  | cons c cs ih =>
    rw [List.flatMap_cons, utf8EncodeChar_of_lt (h c List.mem_cons_self),
      ih fun d hd => h d (List.mem_cons_of_mem c hd)]
    rfl

/-- A byte below 0x80 stands in the encoding of a text exactly where its character does. -/
theorem ascii_mem_utf8_iff {c : Char} (hc : c.toNat < 128) {text : String} :
    ascii c ∈ utf8 text ↔ c ∈ text.toList := by
  unfold utf8
  rw [List.mem_flatMap]
  constructor
  · rintro ⟨d, hd, hb⟩
    have hlt : d.toNat < 128 := by
      rcases Nat.lt_or_ge d.toNat 128 with h | h
      · exact h
      · have := le_toNat_of_mem_utf8EncodeChar h hb
        rw [toNat_ascii hc] at this
        omega
    rw [utf8EncodeChar_of_lt hlt, List.mem_singleton] at hb
    rwa [ascii_inj hc hlt hb]
  · intro h
    exact ⟨c, h, by rw [utf8EncodeChar_of_lt hc, List.mem_singleton]⟩

/-- Every byte of an encoding below 0x80 is the byte of a character of the text. -/
theorem exists_of_mem_utf8 {text : String} (h : ∀ c ∈ text.toList, c.toNat < 128) {b : UInt8}
    (hb : b ∈ utf8 text) : ∃ c ∈ text.toList, ascii c = b := by
  rw [utf8_eq_map_ascii h, List.mem_map] at hb
  exact hb

theorem utf8_join (texts : List String) : utf8 (String.join texts) = texts.flatMap utf8 := by
  unfold utf8
  rw [String.toList_join, List.flatMap_assoc]

/-! ## 3. Letters, digits and underscores -/

def isIdentifierChar (c : Char) : Bool :=
  c.isAlphanum || c == '_'

def IsIdentifierText (text : String) : Prop :=
  ∀ c ∈ text.toList, isIdentifierChar c

instance (text : String) : Decidable (IsIdentifierText text) :=
  decidable_of_iff (text.toList.all isIdentifierChar) List.all_eq_true

def isNameChar (c : Char) : Bool :=
  isIdentifierChar c || c == ' '

def IsNameText (text : String) : Prop :=
  text ≠ "" ∧ ∀ c ∈ text.toList, isNameChar c

theorem toNat_lt_of_isNameChar {c : Char} (h : isNameChar c) : c.toNat < 128 := by
  change ((((decide ('A'.val ≤ c.val ∧ c.val ≤ 'Z'.val) || ('a'.val ≤ c.val && c.val ≤ 'z'.val)) ||
    c.isDigit) || c == '_') || c == ' ') = true at h
  simp only [Bool.or_eq_true, Bool.and_eq_true, decide_eq_true_eq, beq_iff_eq,
    Char.isDigit_iff_toNat, UInt32.le_iff_toNat_le] at h
  rcases h with ((((h | h) | h) | rfl) | rfl)
  · exact Nat.lt_of_le_of_lt h.2 (by decide)
  · exact Nat.lt_of_le_of_lt h.2 (by decide)
  · exact Nat.lt_of_le_of_lt h.2 (by decide)
  · decide
  · decide

theorem isNameChar_of_isIdentifierChar {c : Char} (h : isIdentifierChar c) : isNameChar c := by
  rw [isNameChar, h, Bool.true_or]

/-- What holds of every ASCII character can be checked one code point at a time. -/
theorem forall_ascii {p : Char → Prop} (h : ∀ n : Fin 128, p (Char.ofNat n)) {c : Char}
    (hc : c.toNat < 128) : p c := by
  have := h ⟨c.toNat, hc⟩
  rwa [Char.ofNat_toNat] at this

theorem isIdentifierByte_ascii {c : Char} (h : isIdentifierChar c) :
    isIdentifierByte (ascii c) := by
  have hlt := toNat_lt_of_isNameChar (isNameChar_of_isIdentifierChar h)
  revert h
  exact forall_ascii (p := fun c => isIdentifierChar c → isIdentifierByte (ascii c)) (by decide) hlt

/-- The bytes of an identifier are identifier bytes. -/
theorem isIdentifierByte_of_mem {text : String} (h : IsIdentifierText text) {b : UInt8}
    (hb : b ∈ utf8 text) : isIdentifierByte b := by
  obtain ⟨c, hc, rfl⟩ := exists_of_mem_utf8
    (fun c hc => toNat_lt_of_isNameChar (isNameChar_of_isIdentifierChar (h c hc))) hb
  exact isIdentifierByte_ascii (h c hc)

end MemoryKit
