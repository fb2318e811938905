import MemoryKit.Number.Decimal

/-!
# Binary floating-point formats

A format has one sign bit, then exponent bits, then fraction bits. The bits below the sign, taken
as one natural number, are the *magnitude*: it grows with the value, the infinity follows the
largest finite value, and every magnitude above the infinity is a NaN.
-/

namespace MemoryKit.Number

structure BinaryFormat where
  exponentBits : Nat
  fractionBits : Nat
  deriving DecidableEq, Repr

namespace BinaryFormat

-- powers are those of the core library, whatever else is imported
attribute [local instance (high)] instPowNat

def single : BinaryFormat := ⟨8, 23⟩

def double : BinaryFormat := ⟨11, 52⟩

/-! ## 1. Layout -/

def width (f : BinaryFormat) : Nat :=
  1 + f.exponentBits + f.fractionBits

def signWeight (f : BinaryFormat) : Nat :=
  2 ^ (f.exponentBits + f.fractionBits)

def binade (f : BinaryFormat) : Nat :=
  2 ^ f.fractionBits

/-- The power of two that the last fraction bit of the least values counts. -/
def leastExponent (f : BinaryFormat) : Int :=
  2 - 2 ^ (f.exponentBits - 1) - f.fractionBits

def infinity (f : BinaryFormat) : Nat :=
  (2 ^ f.exponentBits - 1) * f.binade

def nan (f : BinaryFormat) : Nat :=
  f.infinity + f.binade / 2

def isNegative (f : BinaryFormat) (bits : BitVec f.width) : Bool :=
  f.signWeight ≤ bits.toNat

def magnitude (f : BinaryFormat) (bits : BitVec f.width) : Nat :=
  bits.toNat % f.signWeight

def ofSignMagnitude (f : BinaryFormat) (negative : Bool) (magnitude : Nat) : BitVec f.width :=
  BitVec.ofNat f.width (if negative then f.signWeight + magnitude else magnitude)

/-! ## 2. The exact value of a finite magnitude -/

/-- The natural number that the last fraction bit multiplies. -/
def significand (f : BinaryFormat) (magnitude : Nat) : Nat :=
  if magnitude < f.binade then magnitude else f.binade + magnitude % f.binade

/-- The power of two that the last fraction bit counts. -/
def exponent (f : BinaryFormat) (magnitude : Nat) : Int :=
  if magnitude < f.binade then f.leastExponent
  else f.leastExponent + (magnitude / f.binade : Nat) - 1

def exactDecimal (f : BinaryFormat) (magnitude : Nat) : Decimal :=
  let m := f.significand magnitude
  let q := f.exponent magnitude
  if 0 ≤ q then ⟨m * 2 ^ q.toNat, 0⟩ else ⟨m * 5 ^ (-q).toNat, q⟩

/-! ## 3. Rounding to nearest, ties to even -/

/-- The natural number nearest to a quotient; halfway between two, the even one. -/
def roundQuotient (numerator denominator : Nat) : Nat :=
  let q := numerator / denominator
  match compare (2 * (numerator % denominator)) denominator with
  | .lt => q
  | .gt => q + 1
  | .eq => if q % 2 = 0 then q else q + 1

/-- The greatest `e` with `2 ^ e` at most the quotient of two positive naturals. -/
def floorLog2 (numerator denominator : Nat) : Int :=
  let e : Int := (numerator.log2 : Int) - denominator.log2
  if denominator * 2 ^ e.toNat ≤ numerator * 2 ^ (-e).toNat then e else e - 1

/-- The magnitude nearest to a quotient. A quotient that rounds past the largest finite value gives
the infinity; a significand that rounds up to the next binade lands there by itself, since
magnitudes are consecutive. -/
def roundRatio (f : BinaryFormat) (numerator denominator : Nat) : Nat :=
  if numerator = 0 then 0
  else
    let q := max (floorLog2 numerator denominator - f.fractionBits) f.leastExponent
    -- the last fraction bit counts `2 ^ q`: as low as the quotient allows, but not below the least
    let m := roundQuotient (numerator * 2 ^ (-q).toNat) (denominator * 2 ^ q.toNat)
    min ((q - f.leastExponent).toNat * f.binade + m) f.infinity

def round (f : BinaryFormat) (d : Decimal) : Nat :=
  f.roundRatio d.numerator d.denominator

end BinaryFormat

end MemoryKit.Number
