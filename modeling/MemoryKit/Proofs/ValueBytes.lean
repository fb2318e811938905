import MemoryKit.Value.Encoding

/-!
# Bytes hold values

A value and its bytes determine each other: a value is decoded from the bytes it is encoded to, bit
for bit, and bytes that are as many as the type has are encoded from the value they hold. Only the
byte of a truth value may change, since every byte but zero is true.
-/

namespace MemoryKit

-- powers are those of the core library, whatever else is imported
attribute [local instance (high)] instPowNat

/-! ## 1. Numbers in a count of bytes -/

namespace Bytes

theorem length_ofNat (count n : Nat) : (ofNat count n).length = count := by
  induction count generalizing n with
  | zero => rfl
  | succ count ih => rw [ofNat, List.length_cons, ih]

/-- Bytes hold a number up to the power of their count. -/
theorem toNat_ofNat (count n : Nat) : toNat (ofNat count n) = n % 256 ^ count := by
  induction count generalizing n with
  | zero => rw [Nat.pow_zero, Nat.mod_one]; rfl
  | succ count ih =>
    have hlow : (UInt8.ofNat n).toNat = n % 256 := UInt8.toNat_ofNat'
    rw [ofNat, toNat, ih, hlow, Nat.pow_succ, Nat.mul_comm (256 ^ count) 256, Nat.mod_mul]

theorem toNat_lt (bytes : Bytes) : bytes.toNat < 256 ^ bytes.length := by
  induction bytes with
  | nil => decide
  | cons b bytes ih =>
    have hb : b.toNat < 256 := b.toNat_lt
    rw [toNat, List.length_cons, Nat.pow_succ]
    omega

/-- Bytes are those of the number they hold. -/
theorem ofNat_toNat (bytes : Bytes) : ofNat bytes.length bytes.toNat = bytes := by
  induction bytes with
  | nil => rfl
  | cons b bytes ih =>
    have hb : b.toNat < 256 := b.toNat_lt
    have hlow : UInt8.ofNat (b.toNat + 256 * toNat bytes) = b := by
      apply UInt8.toNat_inj.1
      rw [UInt8.toNat_ofNat', Nat.add_mul_mod_self_left, Nat.mod_eq_of_lt hb]
    have hhigh : (b.toNat + 256 * toNat bytes) / 256 = toNat bytes := by omega
    rw [List.length_cons, toNat, ofNat, hlow, hhigh, ih]

end Bytes

/-! ## 2. The bits of a type fill its bytes -/

theorem IntegerType.pow_width (t : IntegerType) :
    256 ^ (DataType.integer t).size = 2 ^ t.width := by
  cases t <;> decide

theorem FloatType.pow_width (t : FloatType) :
    256 ^ (DataType.floating t).size = 2 ^ t.format.width := by
  cases t <;> decide

-- Integers and floating-point values alike are bits that fill a count of bytes.
section Bits

variable {count width : Nat} (hwidth : 256 ^ count = 2 ^ width)
include hwidth

theorem BitVec.ofNat_toNat_ofNat (bits : BitVec width) :
    BitVec.ofNat width (Bytes.ofNat count bits.toNat).toNat = bits := by
  rw [Bytes.toNat_ofNat, hwidth, Nat.mod_eq_of_lt bits.isLt, BitVec.ofNat_toNat,
    BitVec.setWidth_eq]

theorem Bytes.ofNat_toNat_ofNat {bytes : Bytes} (hlen : bytes.length = count) :
    Bytes.ofNat count (BitVec.ofNat width bytes.toNat).toNat = bytes := by
  have hlt : bytes.toNat < 2 ^ width := by
    rw [← hwidth, ← hlen]
    exact bytes.toNat_lt
  rw [BitVec.toNat_ofNat, Nat.mod_eq_of_lt hlt, ← hlen, Bytes.ofNat_toNat]

end Bits

/-! ## 3. Values -/

namespace Value

theorem length_encode (v : Value) : v.encode.length = v.type.size := by
  cases v with
  | bool b => rfl
  | integer t bits => exact Bytes.length_ofNat _ _
  | floating t bits => exact Bytes.length_ofNat _ _

theorem decode?_encode (v : Value) : decode? v.type v.encode = some v := by
  unfold decode?
  rw [if_pos v.length_encode, Option.some_inj]
  cases v with
  | bool b => cases b <;> rfl
  | integer t bits => exact congrArg (integer t) (BitVec.ofNat_toNat_ofNat t.pow_width bits)
  | floating t bits => exact congrArg (floating t) (BitVec.ofNat_toNat_ofNat t.pow_width bits)

/-- A value is known by its type and its bytes. -/
theorem eq_of_encode_eq {v w : Value} (htype : v.type = w.type) (hbytes : v.encode = w.encode) :
    v = w := by
  have hv := v.decode?_encode
  rw [htype, hbytes, w.decode?_encode] at hv
  exact (Option.some.inj hv).symm

end Value

namespace DataType

variable {t : DataType} {bytes : Bytes} {v : Value}

/-- Bytes are refused just when their number is wrong. -/
theorem decode?_eq_none_iff : Value.decode? t bytes = none ↔ bytes.length ≠ t.size := by
  unfold Value.decode?
  by_cases hlen : bytes.length = t.size
  · rw [if_pos hlen]
    exact iff_of_false (Option.some_ne_none _) (not_not_intro hlen)
  · rw [if_neg hlen]
    exact iff_of_true rfl hlen

/-- The bytes that the value held by some bytes is encoded to: the same bytes, but a truth value is
zero or one. -/
def canonicalBytes (t : DataType) (bytes : Bytes) : Bytes :=
  match t with
  | .bool => bytes.map fun b => if b = 0 then 0 else 1
  | _ => bytes

/-- A decoded value is of the type, and its bytes are those it was decoded from. -/
theorem type_and_encode_of_decode? (h : Value.decode? t bytes = some v) :
    v.type = t ∧ v.encode = t.canonicalBytes bytes := by
  unfold Value.decode? at h
  split at h
  · rename_i hlen
    obtain rfl := Option.some.inj h
    cases t with
    | bool =>
      obtain ⟨b, rfl⟩ := List.length_eq_one_iff.1 hlen
      refine ⟨rfl, ?_⟩
      by_cases hb : b = 0 <;> simp [Value.encode, canonicalBytes, hb]
    | integer t => exact ⟨rfl, Bytes.ofNat_toNat_ofNat t.pow_width hlen⟩
    | floating t => exact ⟨rfl, Bytes.ofNat_toNat_ofNat t.pow_width hlen⟩
  · cases h

end DataType

/-! ## 4. Encoding and decoding -/

namespace Value

/-- Encoding gives as many bytes as the type has, and they decode to the very value, NaNs with their
payloads and both zeros included. Other bytes decode where they are as many as the type has, and
what they decode to is encoded to the same bytes, a truth value to zero or one. -/
theorem encode_inverse_decode? :
    (∀ v : Value, v.encode.length = v.type.size ∧ decode? v.type v.encode = some v) ∧
    ∀ (t : DataType) (bytes : Bytes),
      (decode? t bytes = none ↔ bytes.length ≠ t.size) ∧
      ∀ v, decode? t bytes = some v → v.type = t ∧ v.encode = t.canonicalBytes bytes := by
  refine ⟨fun v => ⟨v.length_encode, v.decode?_encode⟩, fun t bytes => ⟨?_, fun v hv => ?_⟩⟩
  · exact DataType.decode?_eq_none_iff
  · exact DataType.type_and_encode_of_decode? hv

/-- A negative NaN with a payload, and a byte that is true without being one. -/
theorem encode_inverse_decode?_nan :
    (decode? (.floating .float) [0xCD, 0xAB, 0xC0, 0xFF] = some (.floating .float 0xFFC0ABCD#32) ∧
      (floating .float 0xFFC0ABCD#32).encode = [0xCD, 0xAB, 0xC0, 0xFF]) ∧
    (decode? .bool [7] = some (.bool true) ∧ (bool true).encode = [1]) := by
  obtain ⟨-, hdecode⟩ := encode_inverse_decode?
  have hnan : decode? (.floating .float) [0xCD, 0xAB, 0xC0, 0xFF] =
      some (.floating .float 0xFFC0ABCD#32) := by decide
  have hseven : decode? .bool [7] = some (.bool true) := by decide
  exact ⟨⟨hnan, ((hdecode _ _).2 _ hnan).2⟩, hseven, ((hdecode _ _).2 _ hseven).2⟩

end Value

end MemoryKit
