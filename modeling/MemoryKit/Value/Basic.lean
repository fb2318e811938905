import MemoryKit.Value.DataType

/-!
# Typed values

A value is a truth value, or the bits of an integer or floating-point type. Bits are kept as they
are, so every NaN and both zeros stay apart.
-/

namespace MemoryKit

inductive Value where
  | bool (b : Bool)
  | integer (type : IntegerType) (bits : BitVec type.width)
  | floating (type : FloatType) (bits : BitVec type.format.width)
  deriving DecidableEq, Repr

/-! ## 1. Integers in a type's range -/

namespace IntegerType

-- powers are those of the core library, whatever else is imported
attribute [local instance (high)] instPowNat

def least (t : IntegerType) : Int :=
  if t.isSigned then -2 ^ (t.width - 1) else 0

def greatest (t : IntegerType) : Int :=
  if t.isSigned then 2 ^ (t.width - 1) - 1 else 2 ^ t.width - 1

/-- The integer that the bits denote, in two's complement where the type is signed. -/
def toInt (t : IntegerType) (bits : BitVec t.width) : Int :=
  if t.isSigned then bits.toInt else bits.toNat

def ofInt? (t : IntegerType) (n : Int) : Option (BitVec t.width) :=
  if t.least ≤ n ∧ n ≤ t.greatest then some (BitVec.ofInt t.width n) else none

end IntegerType

/-! ## 2. Values -/

namespace Value

def type : Value → DataType
  | .bool _ => .bool
  | .integer t _ => .integer t
  | .floating t _ => .floating t

def zero : DataType → Value
  | .bool => .bool false
  | .integer t => .integer t 0
  | .floating t => .floating t 0

/-- Equality of floating-point bits as numbers: a NaN equals nothing and the two zeros are equal. -/
def floatEqual (t : FloatType) (a b : BitVec t.format.width) : Bool :=
  let f := t.format
  f.magnitude a ≤ f.infinity && f.magnitude b ≤ f.infinity &&
    (a == b || (f.magnitude a == 0 && f.magnitude b == 0))

/-- Equality of values as a user sees them: the types agree and the numbers are equal. -/
def equal : Value → Value → Bool
  | .bool a, .bool b => a == b
  | .integer t a, .integer u b => t == u && a.toNat == b.toNat
  | .floating t a, .floating u b => if h : t = u then floatEqual u (h ▸ a) b else false
  | _, _ => false

end Value

end MemoryKit
