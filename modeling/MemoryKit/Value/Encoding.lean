import MemoryKit.Bytes
import MemoryKit.Value.Basic

/-!
# Values as bytes

A value occupies as many bytes as its type has, least significant byte first. A truth value is one
byte: zero is false, and every other byte reads as true.
-/

namespace MemoryKit

namespace Bytes

/-- The low bytes of a number, least significant first. -/
def ofNat : (count : Nat) → Nat → Bytes
  | 0, _ => []
  | count + 1, n => UInt8.ofNat n :: ofNat count (n / 256)

/-- The number whose bytes are given, least significant first. -/
def toNat : Bytes → Nat
  | [] => 0
  | b :: rest => b.toNat + 256 * toNat rest

end Bytes

namespace Value

def encode : Value → Bytes
  | .bool b => [if b then 1 else 0]
  | .integer t bits => Bytes.ofNat (DataType.integer t).size bits.toNat
  | .floating t bits => Bytes.ofNat (DataType.floating t).size bits.toNat

/-- The value of a type that the bytes hold, where they are as many as the type has. -/
def decode? (t : DataType) (bytes : Bytes) : Option Value :=
  if bytes.length = t.size then
    some <| match t with
      | .bool => .bool (bytes.any (· != 0))
      | .integer t => .integer t (BitVec.ofNat t.width bytes.toNat)
      | .floating t => .floating t (BitVec.ofNat t.format.width bytes.toNat)
  else none

end Value

end MemoryKit
