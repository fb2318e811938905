import MemoryKit.Number.Shortest
import MemoryKit.Text.Escape
import MemoryKit.Value.Basic

/-!
# Values as text

Integers are decimal and pointers hexadecimal; characters stand between single quotes, except a
lone half of a surrogate pair, which is no character; floating-point values have the fewest digits
that read back.
-/

namespace MemoryKit

def IntegerType.display (t : IntegerType) (bits : BitVec t.width) : List Char :=
  match t with
  | .char => Text.quoteChar (Char.ofNat bits.toNat)
  | .wchar =>
    if bits.toNat.isValidChar then Text.quoteChar (Char.ofNat bits.toNat)
    else Number.prefixedHex 4 bits.toNat
  | .voidp => Number.prefixedHex 1 bits.toNat
  | t => Number.signedDecimal (t.toInt bits)

def Value.display : Value → String
  | .bool b => if b then "true" else "false"
  | .integer t bits => String.ofList (t.display bits)
  | .floating t bits => String.ofList (t.format.display bits)

end MemoryKit
