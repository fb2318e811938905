/-!
# Byte strings

Source files are read as lists of bytes, because they need not be valid text. Scanners walk the
list itself: a position is the list that starts there.
-/

namespace MemoryKit

abbrev Bytes := List UInt8

def utf8 (text : String) : Bytes :=
  text.toList.flatMap String.utf8EncodeChar

theorem utf8_append (a b : String) : utf8 (a ++ b) = utf8 a ++ utf8 b := by
  simp [utf8, String.toList_append]

/-- The encoding agrees with the one of the core library. -/
theorem toByteArray_utf8 (text : String) : (utf8 text).toByteArray = text.toUTF8 := by
  conv => rhs; rw [← String.ofList_toList (s := text)]
  rw [String.toUTF8_eq_toByteArray, String.toByteArray_ofList]
  rfl

namespace Bytes

/-! ## 1. Single bytes -/

def ascii (c : Char) : UInt8 :=
  UInt8.ofNat c.toNat

def isIdentifierByte (b : UInt8) : Bool :=
  (ascii 'a' ≤ b && b ≤ ascii 'z') || (ascii 'A' ≤ b && b ≤ ascii 'Z') ||
    (ascii '0' ≤ b && b ≤ ascii '9') || b == ascii '_'

def isBlankByte (b : UInt8) : Bool :=
  b == 0x20 || b == 0x09 || b == 0x0A || b == 0x0C || b == 0x0D

/-! ## 2. Walking a byte string -/

/-- What follows `lead`, where the byte string begins with it. -/
def after? : (lead : Bytes) → Bytes → Option Bytes
  | [], s => some s
  | _ :: _, [] => none
  | a :: lead, b :: s => if a = b then after? lead s else none

def skipBlank (s : Bytes) : Bytes :=
  s.dropWhile isBlankByte

theorem after?_eq_some_iff {lead s rest : Bytes} :
    after? lead s = some rest ↔ s = lead ++ rest := by
  induction lead generalizing s with
  | nil => simp [after?, eq_comm]
  | cons a lead ih =>
    cases s with
    | nil => simp [after?]
    | cons b s =>
      by_cases h : a = b
      · simp [after?, h, ih]
      · simp [after?, h, Ne.symm h]

end Bytes

end MemoryKit
