import MemoryKit.Number.Integer

/-!
# Decimal fractions

A non-negative decimal is a natural number times a power of ten. It is written positionally, never
with an exponent, and read with or without one.
-/

namespace MemoryKit.Number

/-- The decimal `digits * 10 ^ exponent`. -/
structure Decimal where
  digits : Nat
  exponent : Int
  deriving DecidableEq, Repr

namespace Decimal

-- powers are those of the core library, whatever else is imported
attribute [local instance (high)] instPowNat

/-! ## 1. The value as a ratio of naturals -/

def numerator (d : Decimal) : Nat :=
  d.digits * 10 ^ d.exponent.toNat

def denominator (d : Decimal) : Nat :=
  10 ^ (-d.exponent).toNat

/-! ## 2. Positional writing -/

/-- The digits with a point before the last `places` of them, and zeros filled in where they are
too few. -/
def insertPoint (digits : List Char) (places : Nat) : List Char :=
  if places < digits.length then
    digits.take (digits.length - places) ++ '.' :: digits.drop (digits.length - places)
  else
    '0' :: '.' :: digits.leftpad places '0'

/-- The positional form; an integer has no point. -/
def positional (d : Decimal) : List Char :=
  if d.exponent < 0 then insertPoint (decimal d.digits) (-d.exponent).toNat
  else decimal d.digits ++ List.replicate d.exponent.toNat '0'

/-! ## 3. Reading -/

/-- The magnitude beyond which further exponent digits are not counted. Every format overflows or
vanishes far below it. -/
def exponentBound : Nat := 65536

/-- The value of exponent digits, which stops growing once it has reached the bound. -/
def exponentMagnitude (digits : List Nat) : Nat :=
  digits.foldl (fun n d => if n < exponentBound then n * 10 + d else n) 0

def readExponent? : List Char → Option Int
  | [] => some 0
  | mark :: rest =>
    if mark = 'e' ∨ mark = 'E' then
      let (negative, digits) := splitSign rest
      if digits.isEmpty then none
      else (digits.mapM (digit? 10)).map fun ds => signed negative (exponentMagnitude ds)
    else none

def splitFraction : List Char → List Char × List Char
  | '.' :: rest => (rest.takeWhile Char.isDigit, rest.dropWhile Char.isDigit)
  | rest => ([], rest)

/-- Reads an unsigned decimal: digits with at most one point, at least one digit in all, then
perhaps an exponent. -/
def read? (text : List Char) : Option Decimal :=
  let whole := text.takeWhile Char.isDigit
  let (fraction, rest) := splitFraction (text.dropWhile Char.isDigit)
  (readNat? 10 (whole ++ fraction)).bind fun digits =>
    (readExponent? rest).map fun exponent => ⟨digits, exponent - fraction.length⟩

end Decimal

end MemoryKit.Number
